import EchoFrame.PayloadDispatch

/-! Which received frames make a side use the payload of a message without one. -/
namespace EchoFrame
open Verif

/-- The function goes through the pointer it is given, and fails for null. -/
structure UsesPayload {α : Type} (f : Option (List Byte) → Except Fault α) : Prop where
  absent : f none = .error .nullPointer
  present : ∀ bytes, NullFree (f (some bytes))

theorem nullFree_error {α : Type} {fault : Fault} (h : fault ≠ .nullPointer) :
    NullFree (.error fault : Except Fault α) := fun he => h (Except.error.inj he)

theorem NullFree.bind {α β : Type} {x : Except Fault α} {f : α → Except Fault β}
    (hx : NullFree x) (hf : ∀ a, NullFree (f a)) : NullFree (x >>= f) := by
  cases x with
  | error fault => exact nullFree_error fun h => hx (h ▸ rfl)
  | ok a => exact hf a

/-- What follows on a use of the pointer fails with it for null. -/
theorem UsesPayload.bind {α β : Type} {f : Option (List Byte) → Except Fault α}
    {g : Option (List Byte) → α → Except Fault β} (hf : UsesPayload f)
    (hg : ∀ bytes a, NullFree (g (some bytes) a)) : UsesPayload fun p => f p >>= g p := by
  refine ⟨?_, ?_⟩
  · rw [hf.absent]
    rfl
  · intro bytes
    exact (hf.present bytes).bind (hg bytes)

theorem usesPayload_deref : UsesPayload deref := ⟨rfl, nullFree_ok⟩

theorem usesPayload_decode_demo : UsesPayload MyDemoMessage.decode := by
  apply usesPayload_deref.bind
  intro bytes _
  refine (usesPayload_deref.present bytes).bind ?_
  intro buf
  split
  · exact nullFree_ok _
  · exact nullFree_error Fault.noConfusion

theorem usesPayload_decode_quit : UsesPayload MyQuitHandler.decode :=
  usesPayload_deref.bind fun _ _ => nullFree_ok _

theorem usesPayload_findHandler {cmd : List Byte} {handler : MyDemoHandler}
    (h : MyDemoDispatcher.findHandler cmd = some handler) : UsesPayload handler.decode := by
  unfold MyDemoDispatcher.findHandler at h
  split_ifs at h
  · cases h
    exact usesPayload_decode_demo
  · cases h
    exact usesPayload_decode_demo
  · cases h
    exact usesPayload_decode_quit

theorem usesPayload_dispatch_demo (needResponse : Bool) :
    UsesPayload fun p => MyDemoDispatcher.dispatchPayload p needResponse := by
  apply usesPayload_deref.bind
  intro bytes buf
  dsimp only
  cases hh : MyDemoDispatcher.findHandler (MyDemoDispatcher.getPacketCmd buf) with
  | none => exact nullFree_ok _
  | some handler =>
    refine ((usesPayload_findHandler hh).present bytes).bind ?_
    intro reqMsg
    exact nullFree_ok _

theorem usesPayload_demoProxy : UsesPayload MyDemoProxy.decode :=
  usesPayload_decode_demo.bind fun _ _ => nullFree_ok _

variable {π : Type}

theorem usesPayload_decode_route (parse : List Byte → Option π) :
    UsesPayload (MyRouteMessage.decode parse) := by
  apply usesPayload_deref.bind
  intro _ buf
  cases readLe 4 buf with
  | none => exact nullFree_error Fault.noConfusion
  | some field =>
    dsimp only
    split
    · exact nullFree_ok _
    · exact nullFree_ok _

theorem usesPayload_dispatch_route (route : RouteMessages π) (needResponse : Bool) :
    UsesPayload fun p => MyRouteDispatcher.dispatchPayload route p needResponse := by
  apply usesPayload_deref.bind
  intro bytes buf
  dsimp only
  cases RouteCommandCode.ofCode (MyRouteDispatcher.getPacketCmd buf) with
  | none => exact nullFree_ok _
  | some handler =>
    refine ((usesPayload_decode_route (route.parseReq handler)).present bytes).bind ?_
    intro req
    cases req with
    | none => exact nullFree_ok _
    | some req =>
      dsimp only
      split
      · exact nullFree_error Fault.noConfusion
      · split
        · exact nullFree_ok _
        · exact nullFree_ok _

theorem usesPayload_routeProxy (route : RouteMessages π) :
    UsesPayload (MyRouteProxy.decode route) := by
  apply usesPayload_deref.bind
  intro bytes buf
  cases readLe 4 buf with
  | none => exact nullFree_error Fault.noConfusion
  | some field =>
    dsimp only
    split
    · exact nullFree_ok _
    · exact (usesPayload_decode_route _).present bytes

/-- An encoder that fails, fails with another fault. -/
theorem nullFree_encoded (m : MyMagicMessage) : NullFree m.encoded := by
  unfold MyMagicMessage.encoded
  split
  · exact nullFree_error Fault.noConfusion
  · exact nullFree_ok _

/-- A server is safe from a frame that is a heartbeat or has a payload. -/
theorem nullFree_dispatchPacket_iff {dispatchPayload : DispatchPayload} {needResponse : Bool}
    (hd : UsesPayload fun p => dispatchPayload p needResponse) {frame : List Byte}
    {m : MyMagicMessage} (hm : MyMagicMessage.decode frame = some m) :
    NullFree (MyMagicDispatcher.dispatchPacket dispatchPayload frame needResponse) ↔
      m.isHeartbeat ∨ m.payload.isSome := by
  unfold MyMagicDispatcher.dispatchPacket
  rw [hm]
  dsimp only
  by_cases hb : m.isHeartbeat
  · rw [if_pos hb]
    exact ⟨fun _ => .inl hb, fun _ => (nullFree_encoded _).bind fun _ => nullFree_ok _⟩
  · rw [if_neg hb]
    cases hp : m.payload with
    | none =>
      rw [hd.absent]
      constructor
      · exact fun h => absurd rfl h
      · rintro (h | h)
        · exact absurd h hb
        · cases h
    | some bytes =>
      refine ⟨fun _ => .inr rfl, fun _ => (hd.present bytes).bind ?_⟩
      intro out
      split
      · exact nullFree_ok _
      · split
        · exact (nullFree_encoded _).bind fun _ => nullFree_ok _
        · exact nullFree_ok _

theorem nullFree_run_iff {μ : Type} {decode : Option (List Byte) → Except Fault (Option μ)}
    (hd : UsesPayload decode) (request : MySession) (payload : Option (List Byte)) :
    NullFree ((SessionTask.data request payload).run decode) ↔ payload.isSome := by
  unfold SessionTask.run
  dsimp only
  cases payload with
  | none =>
    rw [hd.absent]
    exact ⟨fun h => absurd rfl h, fun h => Bool.noConfusion h⟩
  | some bytes =>
    refine ⟨fun _ => rfl, fun _ => (hd.present bytes).bind ?_⟩
    intro message
    split
    · exact nullFree_ok _
    · exact nullFree_ok _

/-- A client is safe from a frame that is not data, has a payload, or answers nobody. -/
theorem nullFree_handlePacket_iff {μ : Type}
    {decode : Option (List Byte) → Except Fault (Option μ)} (hd : UsesPayload decode)
    (loops : ClientLoops) (m : MyMagicMessage) :
    (∀ task, (handlePacket loops m).2 = some task → NullFree (task.run decode)) ↔
      m.flag ≠ kFlagData ∨ m.payload.isSome ∨
        loops.pending (clientIdOf m.requestId) m.requestId = none := by
  rw [handlePacket_eq]
  cases loops.pending (clientIdOf m.requestId) m.requestId with
  | none =>
    refine ⟨fun _ => .inr (.inr rfl), ?_⟩
    intro _ _ h
    cases h
  | some request =>
    rw [Option.bind_some]
    by_cases hf : m.flag = kFlagData
    · have htask : taskFor m request = some (.data request m.payload) := by
        rw [taskFor, if_neg (by rw [hf]; decide), if_pos hf]
      rw [htask]
      constructor
      · intro h
        exact .inr (.inl ((nullFree_run_iff hd request m.payload).mp (h _ rfl)))
      · rintro (h | h | h) task htask
        · exact absurd hf h
        · cases htask
          exact (nullFree_run_iff hd request m.payload).mpr h
        · cases h
    · refine ⟨fun _ => .inl hf, ?_⟩
      intro _ task htask
      unfold taskFor at htask
      split_ifs at htask
      cases htask
      exact nullFree_ok _

/-- Of a frame with header `m`, what keeps each of the four readers of payloads
from a null pointer. -/
theorem absent_payload_unused_iff (route : RouteMessages π) (loops : ClientLoops)
    (needResponse : Bool) {frame : List Byte} {m : MyMagicMessage}
    (hm : MyMagicMessage.decode frame = some m) :
    (NullFree (MyMagicDispatcher.dispatchPacket MyDemoDispatcher.dispatchPayload frame
      needResponse) ↔ m.isHeartbeat ∨ m.payload.isSome) ∧
    (NullFree (MyMagicDispatcher.dispatchPacket (MyRouteDispatcher.dispatchPayload route) frame
      needResponse) ↔ m.isHeartbeat ∨ m.payload.isSome) ∧
    ((∀ task, (handlePacket loops m).2 = some task → NullFree (task.run MyDemoProxy.decode)) ↔
      m.flag ≠ kFlagData ∨ m.payload.isSome ∨
        loops.pending (clientIdOf m.requestId) m.requestId = none) ∧
    ((∀ task, (handlePacket loops m).2 = some task →
        NullFree (task.run (MyRouteProxy.decode route))) ↔
      m.flag ≠ kFlagData ∨ m.payload.isSome ∨
        loops.pending (clientIdOf m.requestId) m.requestId = none) :=
  ⟨nullFree_dispatchPacket_iff (usesPayload_dispatch_demo needResponse) hm,
    nullFree_dispatchPacket_iff (usesPayload_dispatch_route route needResponse) hm,
    nullFree_handlePacket_iff usesPayload_demoProxy loops m,
    nullFree_handlePacket_iff (usesPayload_routeProxy route) loops m⟩

def rawRoute : RouteMessages (List Byte) where
  parseReq := fun _ buf => some buf
  parseRsp := fun _ buf => some buf
  doHandler := fun _ req needResponse => .ok (.kHandleResultSuccess,some req,needResponse)
  encode := fun msg => leBytes 4 msg.commandCode ++ msg.payload

theorem absent_payload_unused_heartbeat :
    let frame := (MyMagicMessage.heartbeatFrame 7).bytes
    NullFree (MyMagicDispatcher.dispatchPacket MyDemoDispatcher.dispatchPayload frame true) ∧
    NullFree (MyMagicDispatcher.dispatchPacket (MyRouteDispatcher.dispatchPayload rawRoute) frame
      true) ∧
    ∀ task, (handlePacket (.oneClient 0x70001) (.heartbeatRequest 7)).2 = some task →
      NullFree (task.run MyDemoProxy.decode) ∧ NullFree (task.run (MyRouteProxy.decode rawRoute)) := by
  intro frame
  obtain ⟨hdemo, hroute, hproxy, hproxy'⟩ := absent_payload_unused_iff rawRoute
    (.oneClient 0x70001) true (MyMagicMessage.decode_encode (.heartbeatRequest 7) (by decide))
  refine ⟨hdemo.mpr (.inl rfl), hroute.mpr (.inl rfl), ?_⟩
  intro task htask
  exact ⟨hproxy.mpr (.inl (by decide)) task htask, hproxy'.mpr (.inl (by decide)) task htask⟩

/-- A frame of kind data with a header and nothing else, as a request and as the
answer to a pending session. -/
theorem absent_payload_used :
    let session : MySession := ⟨0,0x70001,100⟩
    let m : MyMagicMessage := { MyMagicMessage.heartbeatRequest session.requestId with flag := 0 }
    let loops : ClientLoops := (ClientLoops.oneClient 0x70001).setClient 0x70001
      (MyClient.addSession ⟨0x70001,"demo",⟨"127.0.0.1",8888,.kClientTypeTcp,true⟩,∅,[]⟩ session)
    ¬ NullFree (MyMagicDispatcher.dispatchPacket MyDemoDispatcher.dispatchPayload m.encode true) ∧
    ¬ NullFree (MyMagicDispatcher.dispatchPacket (MyRouteDispatcher.dispatchPayload rawRoute)
      m.encode true) ∧
    ∃ task, (handlePacket loops m).2 = some task ∧ ¬ NullFree (task.run MyDemoProxy.decode) ∧
      ¬ NullFree (task.run (MyRouteProxy.decode rawRoute)) := by
  intro session m loops
  have hm : MyMagicMessage.decode m.encode = some m := MyMagicMessage.decode_encode m (by decide)
  refine ⟨?_, ?_, .data session none, by decide, fun h => h rfl, fun h => h rfl⟩
  · rw [nullFree_dispatchPacket_iff (usesPayload_dispatch_demo true) hm]
    decide
  · rw [nullFree_dispatchPacket_iff (usesPayload_dispatch_route rawRoute true) hm]
    decide

end EchoFrame
