import EchoFrame.MachineInt
import EchoFrame.Verif.Run
import EchoFrame.Verif.Shards
import Mathlib.Algebra.Order.Ring.Int

/-! The table of TCP channels, kept under their descriptors by the event loops,
and the descriptors that the kernel has open. -/
namespace EchoFrame
open Verif

/-- A TCP channel: which `accept` it comes from, and what that returned. -/
structure MyTcpChannel where
  id : ℕ
  fd : ℤ
deriving DecidableEq, Repr

def MyTcpChannel.uid (c : MyTcpChannel) : ℕ := (c.fd%2^32).toNat

/-- `channels` are the maps of the loops. `tasks` are the removals that handlers
posted to the loops, oldest first. `sockets` are the connections that were
accepted and not closed. -/
structure TcpServer where
  channels : Shards ℕ MyTcpChannel
  tasks : List MyTcpChannel
  sockets : List MyTcpChannel
  accepts : ℕ

/-- What can happen to the channels: `accept` returns, a read or a write on the
channel found under `uid` fails, a handler calls `MyContext::close`, a loop runs
its oldest task, or a loop is idle and finds some of its channels timed out. -/
inductive TcpEvent
  | onAccept (fd : ℤ)
  | readError (uid : ℕ)
  | writeFailure (uid : ℕ)
  | close (c : MyTcpChannel)
  | runTask (loop : ℕ)
  | onIdle (loop : ℕ) (timedOut : MyTcpChannel → Bool)

namespace TcpServer

def init (n : ℕ) : TcpServer := ⟨.empty n,[],[],0⟩

def getByUid (s : TcpServer) (uid : ℕ) : ℕ := uid%s.channels.length

def findChannel (s : TcpServer) (uid : ℕ) : Option MyTcpChannel :=
  s.channels.get? (s.getByUid uid) uid

def addChannel (s : TcpServer) (c : MyTcpChannel) : TcpServer :=
  { s with channels := s.channels.put (s.getByUid c.uid) c.uid c }

/-- Closing deletes the socket, once; the entry is erased by key. -/
def removeChannel (s : TcpServer) (c : MyTcpChannel) : TcpServer :=
  { s with channels := s.channels.remove (s.getByUid c.uid) c.uid,
           sockets := s.sockets.filter (· ≠ c) }

def removeFound (s : TcpServer) (uid : ℕ) : TcpServer :=
  match s.findChannel uid with
  | none => s
  | some c => s.removeChannel c

/-- `accept` treats 0 as its failure, and anything else as a descriptor. -/
def onAccept (s : TcpServer) (fd : ℤ) : TcpServer :=
  let c : MyTcpChannel := ⟨s.accepts,fd⟩
  let s := { s with accepts := s.accepts+1,
                    sockets := if 0 ≤ fd then s.sockets ++ [c] else s.sockets }
  -- -1 is taken for a descriptor
  if fd = 0 then s else s.addChannel c

/-- The handler holds a weak pointer, so only a channel that the table or a task
still holds is closed. -/
def close (s : TcpServer) (c : MyTcpChannel) : TcpServer :=
  if s.findChannel c.uid = some c ∨ c ∈ s.tasks then { s with tasks := s.tasks ++ [c] } else s

def nextTask (s : TcpServer) (loop : ℕ) : Option MyTcpChannel :=
  s.tasks.find? fun c => s.getByUid c.uid = loop

def runTask (s : TcpServer) (loop : ℕ) : TcpServer :=
  match s.nextTask loop with
  | none => s
  | some c => { s with tasks := s.tasks.erase c }.removeChannel c

def onIdle (s : TcpServer) (loop : ℕ) (timedOut : MyTcpChannel → Bool) : TcpServer :=
  let closed := (s.channels.entries loop).map Prod.snd |>.filter timedOut
  { s with channels := s.channels.retain loop fun _ c => !timedOut c,
           sockets := s.sockets.filter (· ∉ closed) }

def step (s : TcpServer) : TcpEvent → Option TcpServer
  | .onAccept fd => some (s.onAccept fd)
  | .readError uid => some (s.removeFound uid)
  | .writeFailure uid => some (s.removeFound uid)
  | .close c => some (s.close c)
  | .runTask loop => some (s.runTask loop)
  | .onIdle loop timedOut => some (s.onIdle loop timedOut)

/-- `accept` fails with -1, or returns a descriptor that is not open. -/
def Respects (s : TcpServer) : TcpEvent → Prop
  | .onAccept fd => fd = -1 ∨ 0 ≤ fd ∧ fd < 2^31 ∧ ∀ c ∈ s.sockets, c.fd ≠ fd
  | _ => True

instance (s : TcpServer) : ∀ e, Decidable (Respects s e)
  | .onAccept _ => inferInstanceAs (Decidable (_ ∨ _))
  | .readError _ => inferInstanceAs (Decidable True)
  | .writeFailure _ => inferInstanceAs (Decidable True)
  | .close _ => inferInstanceAs (Decidable True)
  | .runTask _ => inferInstanceAs (Decidable True)
  | .onIdle .. => inferInstanceAs (Decidable True)

/-- `accept` returns a descriptor other than 0, and a task finds its own channel
under the uid, or none. -/
def FindsOwn (s : TcpServer) : TcpEvent → Prop
  | .onAccept fd => 0 < fd
  | .runTask loop => ∀ c ∈ s.nextTask loop, ∀ d ∈ s.findChannel c.uid, d = c
  | _ => True

instance (s : TcpServer) : ∀ e, Decidable (FindsOwn s e)
  | .onAccept _ => inferInstanceAs (Decidable (_ < _))
  | .readError _ => inferInstanceAs (Decidable True)
  | .writeFailure _ => inferInstanceAs (Decidable True)
  | .close _ => inferInstanceAs (Decidable True)
  | .runTask loop => inferInstanceAs (Decidable (∀ c ∈ s.nextTask loop, ∀ d ∈ _, d = c))
  | .onIdle .. => inferInstanceAs (Decidable True)

/-- The table holds exactly the accepted connections that are not closed, each
in its own loop under its own uid. -/
structure Exact (s : TcpServer) : Prop where
  live_of_entry : ∀ i uid c, s.channels.get? i uid = some c →
    c ∈ s.sockets ∧ uid = c.uid ∧ i = s.getByUid c.uid
  entry_of_live : ∀ c ∈ s.sockets, s.findChannel c.uid = some c

structure Sound (s : TcpServer) : Prop extends Exact s where
  loops_pos : 0 < s.channels.length
  fd_pos : ∀ c ∈ s.sockets, 0 < c.fd ∧ c.fd < 2^31

variable {s t : TcpServer} {c d : MyTcpChannel}

theorem fd_eq_of_uid_eq (hc : 0 < c.fd ∧ c.fd < 2^31) (hd : 0 < d.fd ∧ d.fd < 2^31)
    (h : c.uid = d.uid) : c.fd = d.fd := by
  unfold MyTcpChannel.uid at h
  omega

theorem getByUid_lt (hs : Sound s) (uid : ℕ) : s.getByUid uid < s.channels.length :=
  Nat.mod_lt _ hs.loops_pos

theorem getByUid_congr (h : t.channels.length = s.channels.length) (uid : ℕ) :
    t.getByUid uid = s.getByUid uid := by
  rw [getByUid, getByUid, h]

/-- Closing a channel and erasing what is under its uid keeps the table exact,
if no other channel is there. -/
theorem sound_removeChannel (hs : Sound s) (hown : ∀ d ∈ s.findChannel c.uid, d = c) :
    Sound (s.removeChannel c) := by
  have hlen : (s.removeChannel c).channels.length = s.channels.length := Shards.length_remove ..
  have hby := getByUid_congr hlen
  have hget (i uid : ℕ) : (s.removeChannel c).channels.get? i uid =
      if s.getByUid c.uid = i ∧ c.uid = uid then none else s.channels.get? i uid :=
    Shards.get?_remove ..
  have hmem (d : MyTcpChannel) : d ∈ (s.removeChannel c).sockets ↔ d ∈ s.sockets ∧ d ≠ c := by
    simp [removeChannel]
  refine ⟨⟨?_, ?_⟩, hlen ▸ hs.loops_pos,
    fun d hd => hs.fd_pos d ((hmem d).mp hd).1⟩
  · intro i uid d h
    rw [hget] at h
    split at h
    · cases h
    · next hne =>
      obtain ⟨hlive, rfl, rfl⟩ := hs.live_of_entry i uid d h
      refine ⟨(hmem d).mpr ⟨hlive, fun hdc => hne ?_⟩, rfl, (hby _).symm⟩
      rw [hdc]
      exact ⟨rfl, rfl⟩
  · intro d hd
    obtain ⟨hlive, hdc⟩ := (hmem d).mp hd
    have hentry := hs.entry_of_live d hlive
    rw [findChannel, hby, hget, if_neg]
    · exact hentry
    · rintro ⟨-, huid⟩
      exact hdc (hown d (by rw [Option.mem_def, huid]; exact hentry))

theorem sound_removeFound (hs : Sound s) (uid : ℕ) : Sound (s.removeFound uid) := by
  unfold removeFound
  split
  · exact hs
  · next c hc =>
    obtain ⟨_, huid, _⟩ := hs.live_of_entry _ _ _ hc
    apply sound_removeChannel hs
    intro d hd
    rw [← huid, Option.mem_def, hc] at hd
    exact (Option.some.inj hd).symm

theorem sound_onAccept {fd : ℤ} (hs : Sound s) (hfd : 0 < fd) (hlt : fd < 2^31)
    (hnew : ∀ c ∈ s.sockets, c.fd ≠ fd) : Sound (s.onAccept fd) := by
  have hstep : s.onAccept fd =
      ⟨s.channels.put (s.getByUid (MyTcpChannel.uid ⟨s.accepts,fd⟩))
          (MyTcpChannel.uid ⟨s.accepts,fd⟩) ⟨s.accepts,fd⟩,
        s.tasks,s.sockets ++ [⟨s.accepts,fd⟩],s.accepts+1⟩ := by
    rw [onAccept, if_pos hfd.le, if_neg hfd.ne']
    rfl
  generalize hc : (⟨s.accepts,fd⟩ : MyTcpChannel) = c at hstep
  have hcfd : c.fd = fd := by rw [← hc]
  have hcr : 0 < c.fd ∧ c.fd < 2^31 := hcfd ▸ ⟨hfd, hlt⟩
  have huid (d : MyTcpChannel) (hd : d ∈ s.sockets) : d.uid ≠ c.uid := by
    intro h
    exact hnew d hd ((fd_eq_of_uid_eq (hs.fd_pos d hd) hcr h).trans hcfd)
  have hlen : (s.onAccept fd).channels.length = s.channels.length := by
    rw [hstep]
    exact Shards.length_put ..
  have hby := getByUid_congr hlen
  have hget (i uid : ℕ) : (s.onAccept fd).channels.get? i uid =
      if s.getByUid c.uid = i ∧ c.uid = uid then some c else s.channels.get? i uid := by
    rw [hstep]
    exact Shards.get?_put _ (getByUid_lt hs _) _ _ _ _
  have hmem (d : MyTcpChannel) : d ∈ (s.onAccept fd).sockets ↔ d ∈ s.sockets ∨ d = c := by
    rw [hstep]
    simp only [List.mem_append, List.mem_singleton]
  refine ⟨⟨?_, ?_⟩, ?_, ?_⟩
  · intro i uid d h
    rw [hget] at h
    split at h
    · next heq =>
      cases h
      exact ⟨(hmem c).mpr (.inr rfl), heq.2.symm, (hby _).trans heq.1 |>.symm⟩
    · obtain ⟨hlive, rfl, rfl⟩ := hs.live_of_entry i uid d h
      exact ⟨(hmem d).mpr (.inl hlive), rfl, (hby _).symm⟩
  · intro d hd
    rw [findChannel, hby, hget]
    rcases (hmem d).mp hd with hlive | rfl
    · rw [if_neg fun h => huid d hlive h.2.symm]
      exact hs.entry_of_live d hlive
    · rw [if_pos ⟨rfl, rfl⟩]
  · exact hlen ▸ hs.loops_pos
  · intro d hd
    rcases (hmem d).mp hd with hlive | rfl
    · exact hs.fd_pos d hlive
    · exact hcr

/-- The connections of the loop that timed out are closed. -/
theorem mem_sockets_onIdle (hs : Sound s) (loop : ℕ) (timedOut : MyTcpChannel → Bool) :
    d ∈ (s.onIdle loop timedOut).sockets ↔
      d ∈ s.sockets ∧ ¬ (loop = s.getByUid d.uid ∧ timedOut d = true) := by
  have hin : d ∈ ((s.channels.entries loop).map Prod.snd).filter timedOut ↔
      (∃ k, s.channels.get? loop k = some d) ∧ timedOut d = true := by
    simp only [List.mem_filter, List.mem_map, Prod.exists, exists_eq_right, Shards.mem_entries]
  unfold onIdle
  rw [List.mem_filter, decide_eq_true_iff, hin]
  refine and_congr_right fun hd => not_congr (and_congr_left' ⟨?_, ?_⟩)
  · rintro ⟨k, hk⟩
    exact (hs.live_of_entry _ _ _ hk).2.2
  · rintro rfl
    exact ⟨d.uid, hs.entry_of_live d hd⟩

theorem sound_onIdle (hs : Sound s) (loop : ℕ) (timedOut : MyTcpChannel → Bool) :
    Sound (s.onIdle loop timedOut) := by
  have hlen : (s.onIdle loop timedOut).channels.length = s.channels.length :=
    Shards.length_retain ..
  have hby := getByUid_congr hlen
  have hget (i uid : ℕ) : (s.onIdle loop timedOut).channels.get? i uid =
      if loop = i then (s.channels.get? i uid).filter fun c => !timedOut c
      else s.channels.get? i uid := Shards.get?_retain ..
  have hmem (d : MyTcpChannel) := mem_sockets_onIdle (d := d) hs loop timedOut
  refine ⟨⟨?_, ?_⟩, hlen ▸ hs.loops_pos,
    fun d hd => hs.fd_pos d ((hmem d).mp hd).1⟩
  · intro i uid d h
    rw [hget] at h
    split at h
    · next hi =>
      obtain ⟨hd, hkeep⟩ := Option.filter_eq_some_iff.mp h
      obtain ⟨hlive, rfl, rfl⟩ := hs.live_of_entry i uid d hd
      refine ⟨(hmem d).mpr ⟨hlive, ?_⟩, rfl, (hby _).symm⟩
      intro hout
      rw [hout.2] at hkeep
      cases hkeep
    · next hi =>
      obtain ⟨hlive, rfl, rfl⟩ := hs.live_of_entry i uid d h
      exact ⟨(hmem d).mpr ⟨hlive, fun hout => hi hout.1⟩, rfl, (hby _).symm⟩
  · intro d hd
    obtain ⟨hlive, hstays⟩ := (hmem d).mp hd
    have hentry := hs.entry_of_live d hlive
    unfold findChannel at hentry
    rw [findChannel, hby, hget, hentry]
    split
    · next hi =>
      have hkeep : timedOut d = false := Bool.eq_false_iff.mpr fun h => hstays ⟨hi, h⟩
      rw [Option.filter_some, hkeep]
      rfl
    · rfl

theorem sound_tasks (hs : Sound s) (tasks : List MyTcpChannel) :
    Sound { s with tasks := tasks } :=
  ⟨⟨hs.live_of_entry, hs.entry_of_live⟩, hs.loops_pos, hs.fd_pos⟩

theorem sound_step {e : TcpEvent} (hs : Sound s) (hr : Respects s e) (hown : FindsOwn s e)
    (ht : step s e = some t) : Sound t := by
  cases e with
  | onAccept fd =>
    obtain rfl := Option.some.inj ht
    rcases hr with rfl | ⟨-, hlt, hnew⟩
    · exact absurd hown (show ¬ (0:ℤ) < -1 by decide)
    · exact sound_onAccept hs hown hlt hnew
  | readError uid =>
    obtain rfl := Option.some.inj ht
    exact sound_removeFound hs uid
  | writeFailure uid =>
    obtain rfl := Option.some.inj ht
    exact sound_removeFound hs uid
  | close c =>
    obtain rfl := Option.some.inj ht
    unfold close
    split
    · exact sound_tasks hs _
    · exact hs
  | runTask loop =>
    obtain rfl := Option.some.inj ht
    unfold runTask
    split
    · exact hs
    · next c hc => exact sound_removeChannel (sound_tasks hs _) (hown c hc)
  | onIdle loop timedOut =>
    obtain rfl := Option.some.inj ht
    exact sound_onIdle hs loop timedOut

/-- An event after which the table is exact found its own channel. -/
theorem findsOwn_of_exact {e : TcpEvent} (hs : Sound s) (hr : Respects s e)
    (hexact : ∀ t, step s e = some t → Exact t) : FindsOwn s e := by
  cases e with
  | onAccept fd =>
    have ht := hexact _ rfl
    rcases hr with rfl | ⟨hle, hlt, hnew⟩
    · -- the failure is taken for a descriptor and gets an entry
      have hentry : (s.onAccept (-1)).channels.get?
          (s.getByUid (MyTcpChannel.uid ⟨s.accepts,-1⟩)) (MyTcpChannel.uid ⟨s.accepts,-1⟩) =
          some ⟨s.accepts,-1⟩ := by
        refine (Shards.get?_put _ (getByUid_lt hs _) _ _ _ _).trans (if_pos ⟨rfl, rfl⟩)
      have hlive : ⟨s.accepts,-1⟩ ∈ s.sockets := (ht.live_of_entry _ _ _ hentry).1
      exact absurd (hs.fd_pos _ hlive).1 (show ¬ (0:ℤ) < -1 by decide)
    · rcases hle.lt_or_eq with hpos | rfl
      · exact hpos
      · have hentry := ht.entry_of_live ⟨s.accepts,0⟩ (List.mem_append_right _ (by simp))
        exact absurd rfl (hnew _ (hs.live_of_entry _ _ _ hentry).1)
  | readError uid => trivial
  | writeFailure uid => trivial
  | close c => trivial
  | runTask loop =>
    intro c hc d hd
    by_contra hne
    have hstep : s.runTask loop = { s with tasks := s.tasks.erase c }.removeChannel c := by
      rw [runTask, Option.mem_def.mp hc]
    obtain ⟨hlive, huid, -⟩ := hs.live_of_entry _ _ _ hd
    have ht := hexact _ rfl
    rw [hstep] at ht
    have hentry := ht.entry_of_live d (by simp [removeChannel, hlive, hne])
    have hnone : (s.channels.remove (s.getByUid c.uid) c.uid).get? (s.getByUid c.uid) c.uid =
        none := (Shards.get?_remove ..).trans (if_pos ⟨rfl, rfl⟩)
    have hby : ({ s with tasks := s.tasks.erase c }.removeChannel c).getByUid d.uid =
        s.getByUid c.uid := by
      rw [getByUid, getByUid, ← huid]
      exact congrArg _ (Shards.length_remove ..)
    rw [findChannel, hby, ← huid] at hentry
    cases hnone.symm.trans hentry
  | onIdle loop timedOut => trivial

theorem sound_init {n : ℕ} (hn : 0 < n) : Sound (init n) := by
  refine ⟨⟨?_, fun c hc => absurd hc List.not_mem_nil⟩, ?_,
    fun c hc => absurd hc List.not_mem_nil⟩
  · intro i uid c h
    rw [init, Shards.get?_empty] at h
    cases h
  · rw [init, Shards.length_empty]
    exact hn

/-- The table is exact in every state that a run reaches, exactly when every
`accept` of the run returns a descriptor other than 0 and every posted removal
finds its own channel under the uid, or none. -/
theorem table_exact_iff {n : ℕ} (hn : 0 < n) (es : List TcpEvent)
    (hr : Along Respects step (init n) es) :
    (∀ k s, run step (init n) (es.take k) = some s → Exact s) ↔
      Along FindsOwn step (init n) es := by
  apply forall_run_take_iff_along (fun s (hs : Sound s) => hs.toExact) ?_ ?_ (sound_init hn) hr
  · intro s e hs hr hexact
    exact findsOwn_of_exact hs hr hexact
  · intro s e t hs hr hown ht
    exact sound_step hs hr hown ht

/-- A handler closes its channel, the descriptor is reused, and the table stays exact. -/
theorem table_exact_two_loops :
    let es := [.onAccept 5,.onAccept 6,.close ⟨0,5⟩,.runTask 1,.onAccept 5,.readError 6,
      .onIdle 1 fun _ => true]
    ∀ k s, run step (init 2) (es.take k) = some s → Exact s :=
  (table_exact_iff (show 0 < 2 by decide) _ (by decide)).mpr (by decide)

/-- Two handlers close one channel, and its descriptor is accepted again between
the two removals: the second one erases the entry of the new channel. -/
theorem second_removal_erases_live_channel :
    let es := [.onAccept 5,.close ⟨0,5⟩,.close ⟨0,5⟩,.runTask 0,.onAccept 5,.runTask 0]
    Along Respects step (init 1) es ∧ ∃ s, run step (init 1) es = some s ∧ ¬ Exact s := by
  refine ⟨by decide, _, rfl, ?_⟩
  intro h
  have hentry := h.entry_of_live ⟨1,5⟩ (by decide)
  exact absurd hentry (by decide)

end TcpServer
end EchoFrame
