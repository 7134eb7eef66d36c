import EchoFrame.Exchange
import Mathlib.Data.List.Nodup

/-! What becomes of every call: it waits, or it was answered once, or given up. -/
namespace EchoFrame
open MyMagicMessage

/-- Among `calls`, on the clients that are held, those wait that were neither answered nor given
up, and each answered one has its task. -/
structure Outcomes (serve : List Byte → Option (List Byte)) (tasks : List SessionTask)
    (held : UInt32 → Prop) (calls answered expired : List SentCall) (v : Sessions) : Prop where
  tasks : v.tasks = tasks ++ answered.map (SentCall.task serve)
  once : (answered ++ expired).Nodup
  waits : ∀ call ∈ calls, held call.session.client → call ∉ answered → call ∉ expired →
    v.pending call.session.client call.session.requestId = some call.session
  ended : ∀ call ∈ calls, call ∈ answered ∨ call ∈ expired →
    v.pending call.session.client call.session.requestId = none

namespace Outcomes

variable {serve : List Byte → Option (List Byte)} {tasks : List SessionTask}
  {held : UInt32 → Prop} {calls answered expired : List SentCall} {v : Sessions} {call : SentCall}

/-- An answer that comes after its session is gone changes nothing. -/
theorem packet_of_pending_eq_none
    (hp : v.pending call.session.client call.session.requestId = none) :
    v.packet (call.response serve).encode = v := by
  rw [Sessions.packet, decode_encode_filter]
  have hid : (call.response serve).requestId = call.session.requestId :=
    SentCall.requestId_response call
  unfold Sessions.message
  dsimp only
  rw [hid, clientIdOf_requestId, hp, Option.bind_none, Option.toList_none, List.append_nil]
  have hpending : (fun uid requestId =>
      if call.session.client = uid ∧ call.session.requestId = requestId then none
      else v.pending uid requestId) = v.pending := by
    funext uid requestId
    split
    · next h => rw [← h.1, ← h.2, hp]
    · rfl
  rw [hpending]

/-- The response to a call that waits ends it, and any other response changes nothing. -/
theorem packet (h : Outcomes serve tasks held calls answered expired v)
    (hdistinct : (calls.map fun call => call.session.requestId).Nodup) (hcall : call ∈ calls)
    (hheld : held call.session.client) :
    ∃ more, (∀ ended ∈ more, ended = call) ∧ (call ∈ answered ++ more ∨ call ∈ expired) ∧
      Outcomes serve tasks held calls (answered ++ more) expired
        (v.packet (call.response serve).encode) := by
  by_cases hover : call ∈ answered ∨ call ∈ expired
  · refine ⟨[], fun _ hmem => absurd hmem List.not_mem_nil, ?_, ?_⟩
    · rwa [List.append_nil]
    · rw [packet_of_pending_eq_none (h.ended call hcall hover), List.append_nil]
      exact h
  · obtain ⟨hanswered, hexpired⟩ := not_or.mp hover
    have hpending := h.waits call hcall hheld hanswered hexpired
    have hother {other : SentCall} (hmem : other ∈ calls) (hne : other ≠ call) :
        call.session.requestId ≠ other.session.requestId := fun heq =>
      hne (List.inj_on_of_nodup_map hdistinct hmem hcall heq.symm)
    refine ⟨[call], fun _ => List.mem_singleton.mp,
      .inl (List.mem_append_right _ List.mem_cons_self), ?_⟩
    rw [SentCall.packet_response hpending]
    refine ⟨?_, ?_, ?_, ?_⟩
    · rw [List.map_append, ← List.append_assoc, ← h.tasks]
      rfl
    · rw [List.append_assoc, List.singleton_append, List.nodup_middle, List.nodup_cons,
        List.mem_append]
      exact ⟨hover, h.once⟩
    · intro other hmem hheld hnot hnot'
      rw [List.mem_append, List.mem_singleton, not_or] at hnot
      rw [Sessions.pending_answer_of_ne v _ _ (hother hmem hnot.2)]
      exact h.waits other hmem hheld hnot.1 hnot'
    · intro other hmem hother'
      by_cases hsame : other = call
      · rw [hsame]
        exact Sessions.pending_answer_self v call.session _
      · rw [Sessions.pending_answer_of_ne v _ _ (hother hmem hsame)]
        rw [List.mem_append, List.mem_singleton] at hother'
        exact h.ended other hmem (hother'.imp_left fun hor => hor.resolve_right hsame)

/-- Responses, in any order and each any number of times. -/
theorem packets (h : Outcomes serve tasks held calls answered expired v)
    (hdistinct : (calls.map fun call => call.session.requestId).Nodup) {order : List SentCall}
    (horder : ∀ call ∈ order, call ∈ calls ∧ held call.session.client) :
    ∃ more, (∀ ended ∈ more, ended ∈ order) ∧
      (∀ call ∈ order, call ∈ answered ++ more ∨ call ∈ expired) ∧
      Outcomes serve tasks held calls (answered ++ more) expired
        ((order.map fun call => (call.response serve).encode).foldl Sessions.packet v) := by
  induction order generalizing answered v with
  | nil =>
    refine ⟨[], fun _ hmem => hmem, fun _ hmem => absurd hmem List.not_mem_nil, ?_⟩
    rwa [List.append_nil]
  | cons call order ih =>
    rw [List.forall_mem_cons] at horder
    obtain ⟨first, hfirst, hcall, hnext⟩ := h.packet hdistinct horder.1.1 horder.1.2
    obtain ⟨more, hmore, hall, hlast⟩ := ih hnext horder.2
    rw [List.append_assoc] at hlast
    refine ⟨first ++ more, ?_, ?_, hlast⟩
    · intro ended hmem
      rcases List.mem_append.mp hmem with hmem | hmem
      · rw [hfirst ended hmem]
        exact List.mem_cons_self
      · exact List.mem_cons_of_mem _ (hmore ended hmem)
    · rw [List.forall_mem_cons]
      constructor
      · rw [← List.append_assoc]
        exact hcall.imp_left (List.mem_append_left more)
      · intro other hmem
        rw [← List.append_assoc]
        exact hall other hmem

/-- A session more is pending. -/
theorem buildSession (h : Outcomes serve tasks held calls answered expired v) {v' : Sessions}
    (hfresh : ∀ other ∈ calls, other.session.requestId ≠ call.session.requestId)
    (hanswered : ∀ ended ∈ answered, ended ∈ calls) (hexpired : ∀ ended ∈ expired, ended ∈ calls)
    (htasks : v'.tasks = v.tasks)
    (hpending : ∀ uid requestId, v'.pending uid requestId =
      if call.session.client = uid ∧ call.session.requestId = requestId then some call.session
      else v.pending uid requestId) :
    Outcomes serve tasks held (calls ++ [call]) answered expired v' := by
  have hother {other : SentCall} (hmem : other ∈ calls) :
      v'.pending other.session.client other.session.requestId =
        v.pending other.session.client other.session.requestId := by
    rw [hpending]
    exact if_neg fun hboth => hfresh other hmem hboth.2.symm
  refine ⟨htasks.trans h.tasks, h.once, ?_, ?_⟩
  · intro other hmem hheld hnot hnot'
    rcases List.mem_append.mp hmem with hmem | hmem
    · rw [hother hmem]
      exact h.waits other hmem hheld hnot hnot'
    · rw [List.mem_singleton.mp hmem, hpending]
      exact if_pos ⟨rfl, rfl⟩
  · intro other _ hover
    have hmem := hover.elim (hanswered other) (hexpired other)
    rw [hother hmem]
    exact h.ended other hmem hover

/-- The timer of a call finds its session, or that it is gone. -/
theorem timer (h : Outcomes serve tasks held calls answered expired v)
    (hdistinct : (calls.map fun call => call.session.requestId).Nodup) (hcall : call ∈ calls)
    {v' : Sessions} (htasks : v'.tasks = v.tasks)
    (hpending : ∀ uid requestId, v'.pending uid requestId =
      if call.session.client = uid ∧ call.session.requestId = requestId then none
      else v.pending uid requestId) {expired' : List SentCall}
    (hexpired : expired' =
      if v.pending call.session.client call.session.requestId = some call.session
        then expired ++ [call] else expired) :
    Outcomes serve tasks held calls answered expired' v' := by
  have hself : v'.pending call.session.client call.session.requestId = none := by
    rw [hpending, if_pos ⟨rfl, rfl⟩]
  have hother {other : SentCall} (hmem : other ∈ calls) (hne : other ≠ call) :
      v'.pending other.session.client other.session.requestId =
        v.pending other.session.client other.session.requestId := by
    rw [hpending]
    exact if_neg fun hboth =>
      hne (List.inj_on_of_nodup_map hdistinct hmem hcall hboth.2.symm)
  have hkeeps (other : SentCall) (hmem : other ∈ expired) : other ∈ expired' := by
    rw [hexpired]
    split
    · exact List.mem_append_left _ hmem
    · exact hmem
  refine ⟨htasks.trans h.tasks, ?_, ?_, ?_⟩
  · rw [hexpired]
    split
    · next hwaits =>
      rw [← List.append_assoc, ← List.concat_eq_append]
      refine h.once.concat fun hmem => ?_
      rw [h.ended call hcall (List.mem_append.mp hmem)] at hwaits
      cases hwaits
    · exact h.once
  · intro other hmem hheld hnot hnot'
    have hne : other ≠ call := by
      rintro rfl
      have hwaits := h.waits other hmem hheld hnot fun hold => hnot' (hkeeps other hold)
      rw [hexpired, if_pos hwaits] at hnot'
      exact hnot' (List.mem_append_right _ List.mem_cons_self)
    rw [hother hmem hne]
    exact h.waits other hmem hheld hnot fun hold => hnot' (hkeeps other hold)
  · intro other hmem hover
    by_cases hsame : other = call
    · rw [hsame, hself]
    · rw [hother hmem hsame]
      refine h.ended other hmem (hover.imp_right fun hnew => ?_)
      rw [hexpired] at hnew
      split at hnew
      · exact (List.mem_append.mp hnew).resolve_right fun hlast =>
          hsame (List.mem_singleton.mp hlast)
      · exact hnew

/-- Clients are lost, and their sessions with them. -/
theorem lose (h : Outcomes serve tasks held calls answered expired v) {held' : UInt32 → Prop}
    {v' : Sessions} (htasks : v'.tasks = v.tasks)
    (hheld : ∀ uid, held' uid → held uid ∧ v'.pending uid = v.pending uid)
    (hgone : ∀ uid requestId, v.pending uid requestId = none → v'.pending uid requestId = none) :
    Outcomes serve tasks held' calls answered expired v' where
  tasks := htasks.trans h.tasks
  once := h.once
  waits call hmem hstill hnot hnot' := by
    obtain ⟨hbefore, hsame⟩ := hheld _ hstill
    rw [hsame]
    exact h.waits call hmem hbefore hnot hnot'
  ended call hmem hover := hgone _ _ (h.ended call hmem hover)

end Outcomes

end EchoFrame
