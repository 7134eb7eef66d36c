import EchoFrame.Verif.Entries
import EchoFrame.Verif.Run
import Mathlib.Data.List.Count
import Mathlib.Data.List.Perm.Basic

/-! How the server waits for the threads of its event loops. -/
namespace EchoFrame
open Verif

structure WaitLoop where
  exit_ : Bool
  finished : Bool
deriving DecidableEq, Repr

/-- Where `MyServer::wait` is: between two calls of `EventLoopManager::wait`, in one of them
before the next loop, in the `join` of its thread, or left, with `true` or by the exception
that `join` throws. `found` is what `exited` gave for the loops before. -/
inductive WaitPhase
  | idle
  | walking (found : List Bool)
  | joining (found : List Bool)
  | done
  | thrown
deriving DecidableEq, Repr

structure LoopWait where
  loops : List WaitLoop
  phase : WaitPhase
  joins : List ℕ

inductive WaitEvent
  | stop (i : ℕ)
  | finish (i : ℕ)
  | wait
  | look
  | join
deriving DecidableEq, Repr

namespace LoopWait

def init (n : ℕ) : LoopWait := ⟨List.replicate n ⟨false,false⟩,.idle,[]⟩

/-- A step is `none` where `MyServer::wait` is elsewhere, and where `join` has to block. -/
def step (s : LoopWait) : WaitEvent → Option LoopWait
  | .stop i => some { s with loops := s.loops.modify i fun l => { l with exit_ := true } }
  | .finish i => some { s with loops := s.loops.modify i fun l => { l with finished := true } }
  | .wait => match s.phase with
    | .idle => some { s with phase := .walking [] }
    | _ => none
  | .look => match s.phase with
    | .walking found => match s.loops[found.length]? with
      | some l => some { s with phase := if l.exit_ then .joining found
                                         else .walking (found ++ [false]) }
      -- every loop was looked at, `MyServer::wait` calls again after `false`
      | none => some { s with phase := if found.all id then .done else .idle }
    | _ => none
  | .join => match s.phase with
    | .joining found => match s.loops[found.length]? with
      | some l =>
        -- the thread is not joinable any more
        if found.length ∈ s.joins then
          some { s with phase := .thrown, joins := s.joins ++ [found.length] }
        else if l.finished then
          some { s with phase := .walking (found ++ [true]), joins := s.joins ++ [found.length] }
        else none
      | none => none
    | _ => none

/-- No thread is joined twice, and once `wait` has returned `true` every loop has exited and
every thread was joined once. -/
structure Safe (s : LoopWait) : Prop where
  once : s.joins.Nodup
  all : s.phase = .done → (∀ l ∈ s.loops, l.exit_ = true) ∧ s.joins.Perm (List.range s.loops.length)

def found (s : LoopWait) : List Bool :=
  match s.phase with
  | .walking found => found
  | _ => []

/-- A call finds that each loop has exited, or that none has. -/
def Allowed (s : LoopWait) (e : WaitEvent) : Prop :=
  e = .look → ∀ l ∈ s.loops[s.found.length]?, ∀ b ∈ s.found, b = l.exit_

instance (s : LoopWait) (e : WaitEvent) : Decidable (Allowed s e) :=
  inferInstanceAs (Decidable (_ → ∀ l ∈ s.loops[s.found.length]?, ∀ b ∈ s.found, b = l.exit_))

inductive Moves (s : LoopWait) : WaitEvent → LoopWait → Prop
  | loop (e : WaitEvent) (i : ℕ) (f : WaitLoop → WaitLoop)
      (hf : ∀ l, l.exit_ = true → (f l).exit_ = true) : Moves s e { s with loops := s.loops.modify i f }
  | wait (hphase : s.phase = .idle) : Moves s .wait { s with phase := .walking [] }
  | exited {found : List Bool} {l : WaitLoop} (hphase : s.phase = .walking found)
      (hl : s.loops[found.length]? = some l) (hexit : l.exit_ = true) :
      Moves s .look { s with phase := .joining found }
  | running {found : List Bool} {l : WaitLoop} (hphase : s.phase = .walking found)
      (hl : s.loops[found.length]? = some l) (hexit : l.exit_ = false) :
      Moves s .look { s with phase := .walking (found ++ [false]) }
  | returned {found : List Bool} (hphase : s.phase = .walking found)
      (hlen : s.loops.length ≤ found.length) :
      Moves s .look { s with phase := if found.all id then .done else .idle }
  | again {found : List Bool} (hphase : s.phase = .joining found)
      (hlt : found.length < s.loops.length) (hjoin : found.length ∈ s.joins) :
      Moves s .join { s with phase := .thrown, joins := s.joins ++ [found.length] }
  | joined {found : List Bool} (hphase : s.phase = .joining found)
      (hlt : found.length < s.loops.length) (hjoin : found.length ∉ s.joins) : Moves s .join
        { s with phase := .walking (found ++ [true]), joins := s.joins ++ [found.length] }

variable {s t : LoopWait} {e : WaitEvent}

theorem moves_of_step (h : step s e = some t) : Moves s e t := by
  cases e with
  | stop i =>
    cases h
    exact .loop _ i _ fun _ _ => rfl
  | finish i =>
    cases h
    exact .loop _ i _ fun _ h => h
  | wait =>
    simp only [step] at h
    split at h
    · next hphase =>
      cases h
      exact .wait hphase
    · cases h
  | look =>
    simp only [step] at h
    split at h
    · next found hphase =>
      split at h
      · next l hl =>
        cases h
        cases hexit : l.exit_ with
        | true => exact .exited hphase hl hexit
        | false => exact .running hphase hl hexit
      · next hnone =>
        cases h
        exact .returned hphase (List.getElem?_eq_none_iff.mp hnone)
    · cases h
  | join =>
    simp only [step] at h
    split at h
    · next found hphase =>
      split at h
      · next l hl =>
        have hlt : found.length < s.loops.length := (List.getElem?_eq_some_iff.mp hl).1
        split at h
        · next hjoin =>
          cases h
          exact .again hphase hlt hjoin
        · next hjoin =>
          split at h
          · cases h
            exact .joined hphase hlt hjoin
          · cases h
      · cases h
    · cases h

def Exited (loops : List WaitLoop) (k : ℕ) : Prop := ∀ i < k, ∃ l ∈ loops[i]?, l.exit_ = true

/-- A call that has found the loops exited has joined their threads, and no thread was joined
before it. -/
def Inv (loops : List WaitLoop) (joins : List ℕ) : WaitPhase → Prop
  | .idle => joins = []
  | .walking found =>
    (∀ b ∈ found, b = true) ∧ Exited loops found.length ∧ joins = List.range found.length ∨
      (∀ b ∈ found, b = false) ∧ joins = []
  | .joining found =>
    (∀ b ∈ found, b = true) ∧ Exited loops (found.length+1) ∧ joins = List.range found.length
  | .done => Exited loops loops.length ∧ joins = List.range loops.length
  | .thrown => False

theorem Exited.modify {loops : List WaitLoop} {k : ℕ} (h : Exited loops k) (i : ℕ)
    {f : WaitLoop → WaitLoop} (hf : ∀ l, l.exit_ = true → (f l).exit_ = true) :
    Exited (loops.modify i f) k := by
  intro j hj
  obtain ⟨l, hl, hexit⟩ := h j hj
  rw [List.getElem?_modify, hl]
  by_cases hij : i = j
  · exact ⟨f l, by simp [hij], hf l hexit⟩
  · exact ⟨l, by simp [hij], hexit⟩

theorem Exited.succ {loops : List WaitLoop} {k : ℕ} {l : WaitLoop} (h : Exited loops k)
    (hl : loops[k]? = some l) (hexit : l.exit_ = true) : Exited loops (k+1) := by
  intro i hi
  rcases Nat.lt_succ_iff_lt_or_eq.mp hi with hlt | rfl
  · exact h i hlt
  · exact ⟨l, hl, hexit⟩

theorem Exited.le_length {loops : List WaitLoop} {k : ℕ} (h : Exited loops k) :
    k ≤ loops.length := by
  by_contra hlt
  obtain ⟨l, hl, -⟩ := h loops.length (Nat.lt_of_not_le hlt)
  rw [List.getElem?_eq_none (Nat.le_refl _)] at hl
  cases hl

theorem inv_modify {phase : WaitPhase} (h : Inv s.loops s.joins phase) (i : ℕ)
    {f : WaitLoop → WaitLoop} (hf : ∀ l, l.exit_ = true → (f l).exit_ = true) :
    Inv (s.loops.modify i f) s.joins phase := by
  cases phase with
  | idle => exact h
  | walking found =>
    rcases h with ⟨hall, hexited, hjoins⟩ | hnone
    · exact .inl ⟨hall, hexited.modify i hf, hjoins⟩
    · exact .inr hnone
  | joining found =>
    obtain ⟨hall, hexited, hjoins⟩ := h
    exact ⟨hall, hexited.modify i hf, hjoins⟩
  | done =>
    obtain ⟨hexited, hjoins⟩ := h
    refine ⟨?_, ?_⟩
    · rw [List.length_modify]
      exact hexited.modify i hf
    · rw [List.length_modify]
      exact hjoins
  | thrown => exact h

/-- A call is over when each loop was looked at. -/
theorem inv_returned {loops : List WaitLoop} {joins : List ℕ} {found : List Bool}
    (h : Inv loops joins (.walking found)) (hlen : loops.length ≤ found.length) :
    Inv loops joins (if found.all id then .done else .idle) := by
  rcases h with ⟨hall, hexited, hjoins⟩ | ⟨hnone, hjoins⟩
  · have heq : found.length = loops.length := Nat.le_antisymm hexited.le_length hlen
    have hfound : found.all id = true := List.all_eq_true.mpr hall
    rw [if_pos hfound]
    rw [heq] at hexited hjoins
    exact ⟨hexited, hjoins⟩
  · cases found with
    | nil =>
      have hzero : loops.length = 0 := Nat.le_zero.mp hlen
      refine ⟨?_, ?_⟩
      · intro i hi
        rw [hzero] at hi
        exact absurd hi (Nat.not_lt_zero i)
      · rw [hjoins, hzero]
        rfl
    | cons b found =>
      have hb : b = false := hnone b List.mem_cons_self
      subst hb
      exact hjoins

/-- An allowed look finds the loop like those before it. -/
theorem found_of_allowed (hallowed : Allowed s .look) {found : List Bool} {l : WaitLoop}
    (hphase : s.phase = .walking found) (hl : s.loops[found.length]? = some l) :
    ∀ b ∈ found, b = l.exit_ := by
  have hmixed := hallowed rfl
  rw [LoopWait.found, hphase] at hmixed
  exact hmixed l hl

theorem eq_nil_of_unlike {found : List Bool} {x y : Bool} (hne : x ≠ y)
    (hx : ∀ b ∈ found, b = x) (hy : ∀ b ∈ found, b = y) : found = [] := by
  apply List.eq_nil_iff_forall_not_mem.mpr
  intro b hb
  exact hne ((hx b hb).symm.trans (hy b hb))

theorem inv_step (h : Inv s.loops s.joins s.phase) (hallowed : Allowed s e)
    (hstep : step s e = some t) : Inv t.loops t.joins t.phase := by
  cases moves_of_step hstep with
  | loop _ i f hf => exact inv_modify h i hf
  | wait hphase =>
    rw [hphase] at h
    exact .inr ⟨fun _ hb => absurd hb List.not_mem_nil, h⟩
  | @exited found l hphase hl hexit =>
    rw [hphase] at h
    have hfound : ∀ b ∈ found, b = true := hexit ▸ found_of_allowed hallowed hphase hl
    rcases h with ⟨-, hexited, hjoins⟩ | ⟨hnone, hjoins⟩
    · exact ⟨hfound, hexited.succ hl hexit, hjoins⟩
    · have hnil : found = [] := eq_nil_of_unlike Bool.false_ne_true hnone hfound
      subst hnil
      exact ⟨hfound, Exited.succ (fun i hi => absurd hi (Nat.not_lt_zero i)) hl hexit, hjoins⟩
  | @running found l hphase hl hexit =>
    rw [hphase] at h
    have hfound : ∀ b ∈ found, b = false := hexit ▸ found_of_allowed hallowed hphase hl
    refine .inr ⟨?_, ?_⟩
    · exact List.forall_mem_append.mpr ⟨hfound, List.forall_mem_singleton.mpr rfl⟩
    · rcases h with ⟨hall, -, hjoins⟩ | ⟨-, hjoins⟩
      · have hnil : found = [] := eq_nil_of_unlike Bool.false_ne_true hfound hall
        rw [hjoins, hnil]
        rfl
      · exact hjoins
  | @returned found hphase hlen =>
    rw [hphase] at h
    exact inv_returned h hlen
  | @again found hphase _ hjoin =>
    rw [hphase] at h
    obtain ⟨-, -, hjoins⟩ := h
    rw [hjoins, List.mem_range] at hjoin
    exact absurd hjoin (Nat.lt_irrefl _)
  | @joined found hphase _ hjoin =>
    rw [hphase] at h
    obtain ⟨hall, hexited, hjoins⟩ := h
    refine .inl ⟨?_, ?_, ?_⟩
    · exact List.forall_mem_append.mpr ⟨hall, List.forall_mem_singleton.mpr rfl⟩
    · rw [List.length_append]
      exact hexited
    · dsimp only
      rw [hjoins, List.length_append, List.length_singleton, List.range_succ]

/-- The threads are joined in the order of their loops. -/
theorem exists_joins_eq_range (h : Inv s.loops s.joins s.phase) :
    ∃ k, s.joins = List.range k := by
  cases hphase : s.phase with
  | idle =>
    rw [hphase] at h
    exact ⟨0, h⟩
  | walking found =>
    rw [hphase] at h
    rcases h with ⟨-, -, hjoins⟩ | ⟨-, hjoins⟩
    · exact ⟨_, hjoins⟩
    · exact ⟨0, hjoins⟩
  | joining found =>
    rw [hphase] at h
    exact ⟨_, h.2.2⟩
  | done =>
    rw [hphase] at h
    exact ⟨_, h.2⟩
  | thrown =>
    rw [hphase] at h
    exact h.elim

theorem safe_of_inv (h : Inv s.loops s.joins s.phase) : Safe s := by
  refine ⟨?_, ?_⟩
  · obtain ⟨k, hk⟩ := exists_joins_eq_range h
    rw [hk]
    exact List.nodup_range
  · intro hdone
    rw [hdone] at h
    obtain ⟨hexited, hjoins⟩ := h
    refine ⟨?_, ?_⟩
    · intro l hl
      obtain ⟨i, hi, rfl⟩ := List.mem_iff_getElem.mp hl
      obtain ⟨l, hl, hexit⟩ := hexited i hi
      rw [List.getElem?_eq_getElem hi] at hl
      exact Option.some.inj hl ▸ hexit
    · rw [hjoins]

theorem inv_init (n : ℕ) : Inv (init n).loops (init n).joins (init n).phase := rfl

/-- A thread was joined, and the call in progress cannot return `true`: it has found a loop
running, or is still to join that thread again. -/
structure Doomed (s : LoopWait) : Prop where
  joins_lt : ∀ j ∈ s.joins, j < s.loops.length
  stuck : match s.phase with
    | .idle => s.joins ≠ []
    | .walking found => ∃ j ∈ s.joins, false ∈ found ∨ found.length ≤ j
    | .joining found => false ∈ found ∨ ∃ j ∈ s.joins, found.length ≤ j
    | .done => False
    | .thrown => True

theorem doomed_step (h : Doomed s) (hstep : step s e = some t) : Doomed t := by
  obtain ⟨hlt, hstuck⟩ := h
  cases moves_of_step hstep with
  | loop _ i f hf =>
    refine ⟨?_, hstuck⟩
    rw [List.length_modify]
    exact hlt
  | wait hphase =>
    rw [hphase] at hstuck
    obtain ⟨j, hj⟩ := List.exists_mem_of_ne_nil _ hstuck
    exact ⟨hlt, j, hj, .inr (Nat.zero_le j)⟩
  | exited hphase hl hexit =>
    rw [hphase] at hstuck
    obtain ⟨j, hj, hfalse | hle⟩ := hstuck
    · exact ⟨hlt, .inl hfalse⟩
    · exact ⟨hlt, .inr ⟨j, hj, hle⟩⟩
  | running hphase hl hexit =>
    rw [hphase] at hstuck
    obtain ⟨j, hj, -⟩ := hstuck
    exact ⟨hlt, j, hj, .inl (List.mem_append_right _ (List.mem_singleton_self false))⟩
  | @returned found hphase hlen =>
    rw [hphase] at hstuck
    obtain ⟨j, hj, hfalse | hle⟩ := hstuck
    · have hall : found.all id = false := List.all_eq_false.mpr ⟨false, hfalse, Bool.false_ne_true⟩
      rw [hall]
      exact ⟨hlt, List.ne_nil_of_mem hj⟩
    · exact absurd (hlt j hj) (by omega)
  | again hphase hlt' hjoin =>
    exact ⟨List.forall_mem_append.mpr ⟨hlt, List.forall_mem_singleton.mpr hlt'⟩, trivial⟩
  | @joined found hphase hlt' hjoin =>
    rw [hphase] at hstuck
    refine ⟨List.forall_mem_append.mpr ⟨hlt, List.forall_mem_singleton.mpr hlt'⟩, ?_⟩
    rcases hstuck with hfalse | ⟨j, hj, hle⟩
    · have hmem : found.length ∈ s.joins ++ [found.length] :=
        List.mem_append_right _ (List.mem_singleton_self _)
      exact ⟨_, hmem, .inl (List.mem_append_left _ hfalse)⟩
    · have hne : found.length ≠ j := fun heq => hjoin (heq ▸ hj)
      refine ⟨j, List.mem_append_left _ hj, .inr ?_⟩
      rw [List.length_append, List.length_singleton]
      exact Nat.lt_of_le_of_ne hle hne

/-- Only a look at the next loop can find it unlike one before. -/
theorem exists_unlike (h : ¬Allowed s e) : e = .look ∧
    ∃ found l, s.phase = .walking found ∧ s.loops[found.length]? = some l ∧
      (!l.exit_) ∈ found := by
  unfold Allowed at h
  push Not at h
  obtain ⟨he, l, hl, b, hb, hne⟩ := h
  refine ⟨he, ?_⟩
  cases hphase : s.phase with
  | walking found =>
    rw [LoopWait.found, hphase] at hl hb
    rw [Bool.eq_not_of_ne hne] at hb
    exact ⟨found, l, rfl, hl, hb⟩
  | idle | joining _ | done | thrown =>
    rw [LoopWait.found, hphase] at hb
    exact absurd hb List.not_mem_nil

/-- A call that finds some loops exited and others not has joined a thread, or will. -/
theorem doomed_of_not_allowed (h : Inv s.loops s.joins s.phase) (hmixed : ¬Allowed s e)
    (hstep : step s e = some t) : Doomed t := by
  obtain ⟨rfl, found, l, hphase, hl, hmem⟩ := exists_unlike hmixed
  have hlt : found.length < s.loops.length := (List.getElem?_eq_some_iff.mp hl).1
  rw [hphase] at h
  have ht : t = { s with phase := if l.exit_ then .joining found
                                  else .walking (found ++ [false]) } := by
    simp only [step, hphase, hl] at hstep
    exact (Option.some.inj hstep).symm
  cases hexit : l.exit_ with
  | true =>
    rw [hexit] at ht hmem
    rcases h with ⟨hall, -, -⟩ | ⟨-, hjoins⟩
    · exact absurd (hall _ hmem) Bool.false_ne_true
    · rw [ht]
      refine ⟨?_, .inl hmem⟩
      rw [hjoins]
      exact fun j hj => absurd hj List.not_mem_nil
  | false =>
    rw [hexit] at ht hmem
    rcases h with ⟨-, -, hjoins⟩ | ⟨hnone, -⟩
    · rw [ht]
      have hpos : 0 < found.length := List.length_pos_of_mem hmem
      refine ⟨?_, 0, ?_, .inl (List.mem_append_right _ (List.mem_singleton_self false))⟩
      · intro j hj
        rw [hjoins, List.mem_range] at hj
        exact Nat.lt_trans hj hlt
      · rw [hjoins, List.mem_range]
        exact hpos
    · exact absurd (hnone _ hmem) Bool.false_ne_true.symm

theorem not_done_of_doomed {es : List WaitEvent} (h : Doomed s) (hr : run step s es = some t) :
    t.phase ≠ .done := by
  have ht : Doomed t := invariant_of_steps (fun _ _ _ => doomed_step) h hr
  intro hdone
  have hstuck := ht.stuck
  rw [hdone] at hstuck
  exact hstuck

theorem along_allowed_of_done {es : List WaitEvent} (h : Inv s.loops s.joins s.phase)
    (hr : run step s es = some t) (hdone : t.phase = .done) : Along Allowed step s es := by
  induction es generalizing s with
  | nil => trivial
  | cons e es ih =>
    obtain ⟨u, hu, hr⟩ := run_cons_eq_some.mp hr
    have hallowed : Allowed s e := by
      by_contra hmixed
      exact not_done_of_doomed (doomed_of_not_allowed h hmixed hu) hr hdone
    refine ⟨hallowed, ?_⟩
    intro v hv
    obtain rfl := Option.some.inj (hu.symm.trans hv)
    exact ih (inv_step h hallowed hu) hr

/-- In a run in which no call finds some loops exited and others not, no thread is joined
twice; and every run in which a call returns `true` is of that kind. -/
theorem joins_safe (n : ℕ) (es : List WaitEvent) :
    (Along Allowed step (init n) es →
      ∀ k s, run step (init n) (es.take k) = some s → Safe s) ∧
    ∀ s, run step (init n) es = some s → s.phase = .done → Along Allowed step (init n) es := by
  constructor
  · intro ha k s hr
    have hstep (s : LoopWait) (e : WaitEvent) (t : LoopWait) (h : Inv s.loops s.joins s.phase)
        (hallowed : Allowed s e) (hstep : step s e = some t) : Inv t.loops t.joins t.phase :=
      inv_step h hallowed hstep
    exact safe_of_inv (invariant_of_take hstep (inv_init n) ha k s hr)
  · intro s hr hdone
    exact along_allowed_of_done (inv_init n) hr hdone

/-- A first call finds both loops running, a second one both exited. -/
theorem joins_safe_two_loops :
    let es : List WaitEvent := [.wait,.look,.look,.look,.stop 0,.stop 1,.finish 1,.wait,.look,
      .finish 0,.join,.look,.join,.look]
    ∀ k s, run step (init 2) (es.take k) = some s → Safe s :=
  (joins_safe 2 _).1 (by decide)

/-- The first of two loops exits before the first call, and its thread is joined twice. -/
theorem not_safe_two_loops :
    ∃ s, run step (init 2) [.stop 0,.finish 0,.wait,.look,.join,.look,.look,.wait,.look,.join] =
      some s ∧ s.joins = [0,0] ∧ s.phase = .thrown ∧ ¬Safe s := by
  refine ⟨_, rfl, rfl, rfl, ?_⟩
  intro h
  exact absurd h.once (by decide)

end LoopWait
end EchoFrame
