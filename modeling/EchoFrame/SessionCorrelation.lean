import EchoFrame.ClientSessions
import EchoFrame.Verif.Run

/-! Sessions of one client, their frames, and the responses to them. -/
namespace EchoFrame
open Verif
open scoped List

/-- What happens around a client: a session is built on it, by `buildSession` or
`buildHeartbeatSession`, at a second of the clock; the session is executed; or
the response to its frame arrives, the server having copied the request id. -/
inductive CallEvent
  | build (now : UInt32)
  | execute (session : MySession)
  | respond (session : MySession) (response : MyMagicMessage)

/-- `unsent` are the sessions that are built and not executed, `asked` those
whose frame is not answered. `delivered` pairs the session whose frame a
response answers with the session it was passed to. `replaced` are the pending
sessions that `addSession` put another one in the place of. -/
structure Calls where
  loops : ClientLoops
  built : ℕ
  unsent : List MySession
  asked : List MySession
  delivered : List (MySession × MySession)
  replaced : List MySession

namespace Calls

def build (s : Calls) (uid now : UInt32) : Option Calls := do
  let client ← s.loops.findClient uid
  let session : MySession := ⟨s.built,uid,now⟩
  -- `addSession` overwrites what waits under the same request id
  some { s with loops := s.loops.setClient uid (client.addSession session),
                built := s.built+1,
                unsent := s.unsent ++ [session],
                replaced := s.replaced ++ (client.findSession session.requestId).toList }

def execute (s : Calls) (session : MySession) : Option Calls :=
  if session ∈ s.unsent then
    some { s with unsent := s.unsent.erase session, asked := s.asked ++ [session] }
  else none

def respond (s : Calls) (session : MySession) (response : MyMagicMessage) : Option Calls :=
  if session ∈ s.asked ∧ response.requestId = session.requestId then
    let handled := handlePacket s.loops response
    some { s with loops := handled.1,
                  asked := s.asked.erase session,
                  delivered := s.delivered ++ handled.2.toList.map fun t => (session,t.request) }
  else none

def step (uid : UInt32) (s : Calls) : CallEvent → Option Calls
  | .build now => s.build uid now
  | .execute session => s.execute session
  | .respond session response => s.respond session response

def init (loops : ClientLoops) : Calls := ⟨loops,0,[],[],[],[]⟩

def unanswered (s : Calls) : List MySession := s.unsent ++ s.asked

/-- Every response went to the session that asked, the pending sessions have
request ids of their own, and none of them was replaced. -/
structure Correlated (uid : UInt32) (s : Calls) : Prop where
  to_asker : ∀ p ∈ s.delivered, p.1 = p.2
  distinct : ∀ requestId session, s.loops.pending uid requestId = some session →
    session.requestId = requestId
  kept : s.replaced = []

/-- No pending session of the client was built in this second of the clock. -/
def FreshSecond (uid : UInt32) (s : Calls) : CallEvent → Prop
  | .build now => ∀ requestId session, s.loops.pending uid requestId = some session →
      session.builtAt ≠ now
  | _ => True

instance (uid : UInt32) (s : Calls) : ∀ e, Decidable (FreshSecond uid s e)
  | .build now =>
    decidable_of_iff
      (∀ c ∈ s.loops.findClient uid, ∀ p ∈ c.requests.toList, p.2.builtAt ≠ now) <| by
      simp only [FreshSecond, ClientLoops.pending, MyClient.findSession, Prod.forall,
        Std.ExtTreeMap.mem_toList_iff_getElem?_eq_some, Option.bind_eq_some_iff, Option.mem_def]
      exact ⟨fun h _ _ ⟨c, hc, hx⟩ => h c hc _ _ hx, fun h c hc _ _ hx => h _ _ ⟨c, hc, hx⟩⟩
  | .execute _ => inferInstanceAs (Decidable True)
  | .respond .. => inferInstanceAs (Decidable True)

/-- The table holds exactly the unanswered sessions, each under its request id. -/
structure Tracked (uid : UInt32) (s : Calls) : Prop where
  to_asker : ∀ p ∈ s.delivered, p.1 = p.2
  kept : s.replaced = []
  client : ∃ c, s.loops.findClient uid = some c
  pending_iff : ∀ requestId session, s.loops.pending uid requestId = some session ↔
    session ∈ s.unanswered ∧ session.requestId = requestId
  own : ∀ session ∈ s.unanswered, session.client = uid ∧ session.id < s.built
  nodup : s.unanswered.Nodup

variable {uid : UInt32} {s t : Calls}

theorem Tracked.correlated (hs : Tracked uid s) : Correlated uid s :=
  ⟨hs.to_asker, fun _ _ h => ((hs.pending_iff _ _).mp h).2, hs.kept⟩

theorem tracked_build {now : UInt32} (hs : Tracked uid s)
    (hfresh : FreshSecond uid s (.build now)) (ht : s.build uid now = some t) :
    Tracked uid t := by
  obtain ⟨client, hc, hstep⟩ := Option.bind_eq_some_iff.mp ht
  generalize hses : (⟨s.built,uid,now⟩ : MySession) = session at hstep
  have hcl : session.client = uid := by rw [← hses]
  have hat : session.builtAt = now := by rw [← hses]
  have hid : session.id = s.built := by rw [← hses]
  have hnone : s.loops.pending uid session.requestId = none := by
    by_contra hne
    obtain ⟨old, hold⟩ := Option.ne_none_iff_exists'.mp hne
    have heq := requestId_inj.mp ((hs.pending_iff _ _).mp hold).2
    exact hfresh _ _ hold (heq.2.trans hat)
  have hnew : session ∉ s.unanswered := fun h => (hid ▸ (hs.own _ h).2).ne rfl
  have hloops : t.loops = s.loops.setClient uid (client.addSession session) :=
    (congrArg loops (Option.some.inj hstep)).symm
  have hpend (requestId : UInt64) : t.loops.pending uid requestId =
      if session.requestId = requestId then some session else s.loops.pending uid requestId := by
    rw [hloops, ClientLoops.pending_setClient hc, if_pos rfl, MyClient.findSession_addSession,
      ClientLoops.pending_eq hc]
  obtain rfl := Option.some.inj hstep
  have hperm : (s.unsent ++ [session]) ++ s.asked ~ session :: s.unanswered := by
    rw [List.append_assoc]
    exact List.perm_middle
  refine ⟨hs.to_asker, ?_, ⟨_, ClientLoops.findClient_setClient_self hc _⟩, ?_, ?_,
    hperm.nodup_iff.mpr (List.nodup_cons.mpr ⟨hnew, hs.nodup⟩)⟩
  · rw [hs.kept, ← ClientLoops.pending_eq hc, hnone]
    rfl
  · intro requestId x
    rw [hpend, unanswered, hperm.mem_iff, List.mem_cons]
    split
    · next h =>
      rw [Option.some.injEq]
      constructor
      · rintro rfl
        exact ⟨.inl rfl, h⟩
      · rintro ⟨rfl | hx, hr⟩
        · rfl
        · have hold := (hs.pending_iff requestId x).mpr ⟨hx, hr⟩
          rw [← h, hnone] at hold
          cases hold
    · next h =>
      rw [hs.pending_iff]
      refine and_congr_left fun hr => ⟨.inr, fun hx => hx.resolve_left ?_⟩
      rintro rfl
      exact h hr
  · intro x hx
    rcases List.mem_cons.mp (hperm.mem_iff.mp hx) with rfl | hx
    · exact ⟨hcl, hid ▸ Nat.lt_succ_self _⟩
    · exact ⟨(hs.own x hx).1, (hs.own x hx).2.trans (Nat.lt_succ_self _)⟩

theorem tracked_execute {session : MySession} (hs : Tracked uid s)
    (ht : s.execute session = some t) : Tracked uid t := by
  obtain ⟨hmem, ht⟩ := Option.ite_none_right_eq_some.mp ht
  obtain rfl := Option.some.inj ht
  have hperm : s.unsent.erase session ++ (s.asked ++ [session]) ~ s.unanswered := by
    rw [← List.append_assoc]
    exact (List.perm_append_singleton _ _).trans
      ((List.perm_cons_erase hmem).symm.append_right s.asked)
  refine ⟨hs.to_asker, hs.kept, hs.client, ?_, ?_,
    hperm.nodup_iff.mpr hs.nodup⟩
  · intro requestId x
    rw [unanswered, hperm.mem_iff]
    exact hs.pending_iff requestId x
  · intro x hx
    exact hs.own x (hperm.mem_iff.mp hx)

theorem tracked_respond {session : MySession} {response : MyMagicMessage} (hs : Tracked uid s)
    (ht : s.respond session response = some t) : Tracked uid t := by
  obtain ⟨⟨hmem, hrid⟩, ht⟩ := Option.ite_none_right_eq_some.mp ht
  obtain rfl := Option.some.inj ht
  have hun : session ∈ s.unanswered := List.mem_append_right _ hmem
  have hp : s.loops.pending uid session.requestId = some session :=
    (hs.pending_iff _ _).mpr ⟨hun, rfl⟩
  have hcid : clientIdOf response.requestId = uid := by
    rw [hrid, clientIdOf_requestId, (hs.own _ hun).1]
  have hpend := pending_handlePacket s.loops response uid
  rw [hrid] at hpend
  have hsent : session ∉ s.unsent := fun h =>
    (List.nodup_append.mp hs.nodup).2.2 session h session hmem rfl
  have herase : s.unsent ++ s.asked.erase session = s.unanswered.erase session :=
    (List.erase_append_right _ hsent).symm
  refine ⟨?_, hs.kept, ?_, ?_, ?_, ?_⟩
  · intro p hpair
    rcases List.mem_append.mp hpair with hpair | hpair
    · exact hs.to_asker p hpair
    · obtain ⟨task, htask, rfl⟩ := List.mem_map.mp hpair
      have hreq := request_of_handlePacket (Option.mem_toList.mp htask)
      rw [hcid, hrid, hp] at hreq
      exact Option.some.inj hreq
  · obtain ⟨client, hc⟩ := hs.client
    exact ⟨_, (findClient_handlePacket hc response).choose_spec⟩
  · intro requestId x
    rw [hpend, unanswered, herase, hs.nodup.mem_erase_iff]
    simp only [clientIdOf_requestId, (hs.own _ hun).1, true_and]
    split
    · next h =>
      refine ⟨nofun, ?_⟩
      rintro ⟨⟨hne, hx⟩, hr⟩
      have hold := (hs.pending_iff requestId x).mpr ⟨hx, hr⟩
      rw [← h, hp] at hold
      exact absurd (Option.some.inj hold).symm hne
    · next h =>
      rw [hs.pending_iff, and_assoc]
      refine ⟨fun hx => ⟨?_, hx⟩, And.right⟩
      rintro rfl
      exact h hx.2
  · intro x hx
    rw [unanswered, herase] at hx
    exact hs.own x (List.mem_of_mem_erase hx)
  · rw [unanswered, herase]
    exact hs.nodup.erase session

theorem tracked_step {e : CallEvent} (hs : Tracked uid s) (hfresh : FreshSecond uid s e)
    (ht : step uid s e = some t) : Tracked uid t := by
  cases e with
  | build now => exact tracked_build hs hfresh ht
  | execute session => exact tracked_execute hs ht
  | respond session response => exact tracked_respond hs ht

theorem freshSecond_of_correlated {e : CallEvent} (hs : Tracked uid s)
    (hcor : ∀ t, step uid s e = some t → Correlated uid t) : FreshSecond uid s e := by
  cases e with
  | build now =>
    intro requestId old hold hnow
    obtain ⟨client, hc⟩ := hs.client
    obtain ⟨hun, rfl⟩ := (hs.pending_iff _ _).mp hold
    have hrid : (⟨s.built,uid,now⟩ : MySession).requestId = old.requestId :=
      requestId_inj.mpr ⟨(hs.own old hun).1.symm, hnow.symm⟩
    have hkept := (hcor _ (by rw [step, build, hc]; rfl)).kept
    rw [ClientLoops.pending_eq hc] at hold
    simp only [hrid, hold] at hkept
    simp at hkept
  | execute session => trivial
  | respond session response => trivial

/-- In every state of a run the responses are correlated, exactly when no
session of the client is built in a second in which one was that still waits. -/
theorem responses_correlated_iff {loops : ClientLoops} {client : MyClient}
    (hc : loops.findClient uid = some client) (hnew : client.requests = ∅)
    (es : List CallEvent) :
    (∀ n s, run (step uid) (init loops) (es.take n) = some s → Correlated uid s) ↔
      Along (FreshSecond uid) (step uid) (init loops) es := by
  have hinit : Tracked uid (init loops) := by
    refine ⟨fun _ h => absurd h List.not_mem_nil, rfl, ⟨client, hc⟩, ?_,
      fun _ h => absurd h List.not_mem_nil, .nil⟩
    intro requestId x
    rw [init, ClientLoops.pending_eq hc, MyClient.findSession, hnew]
    simp [unanswered]
  apply forall_run_take_iff_of_invariant (fun s (hs : Tracked uid s) => hs.correlated) ?_ ?_ hinit
  · intro s e hs hcor
    exact freshSecond_of_correlated hs hcor
  · intro s e t hs hfresh ht
    exact tracked_step hs hfresh ht

/-- Two sessions built in successive seconds, answered in the other order, and
one built in the second of an answered one. -/
theorem responses_correlated_reordered :
    let a : MySession := ⟨0,0x70123,100⟩
    let b : MySession := ⟨1,0x70123,101⟩
    ∀ n s, run (step 0x70123) (init (ClientLoops.oneClient 0x70123))
      ([.build 100,.execute a,.build 101,.execute b,.respond b b.answer,.build 101,
        .respond a a.answer].take n) = some s → Correlated 0x70123 s :=
  (responses_correlated_iff rfl rfl _).mpr (by decide)

/-- Two sessions built in one second: the answer to the first goes to the second. -/
theorem same_second_answer_misdelivered :
    let a : MySession := ⟨0,0x70123,100⟩
    let b : MySession := ⟨1,0x70123,100⟩
    ∃ s, run (step 0x70123) (init (ClientLoops.oneClient 0x70123))
      [.build 100,.build 100,.execute a,.execute b,.respond a a.answer] = some s ∧
      ¬ Correlated 0x70123 s := by
  refine ⟨_, rfl, ?_⟩
  intro h
  have hpair := h.to_asker (⟨0,0x70123,100⟩,⟨1,0x70123,100⟩) (by decide)
  exact absurd hpair (by decide)

end Calls
end EchoFrame
