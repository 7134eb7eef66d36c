import Mathlib.Data.List.Basic
import Mathlib.Tactic.Common

/-! The filters that `doFilter` runs before a request is handled. -/
namespace EchoFrame

/-- A filter that was constructed alone or around the next one. `invoke` works on what
the request and its context are by then. -/
inductive MyFilter (σ : Type)
  | alone (invoke : σ → Bool × σ)
  | around (invoke : σ → Bool × σ) (nextFilter : MyFilter σ)

/-- The request and its context, and the filters invoked so far, with their results. -/
structure Filtering (σ : Type) where
  request : σ
  calls : List (ℕ × Bool)

namespace MyFilter
variable {σ : Type}

/-- `Filter1` is the one constructed first. -/
def number : MyFilter σ → ℕ
  | .alone _ => 1
  | .around _ nextFilter => nextFilter.number+1

def invoke (filter : MyFilter σ) (s : Filtering σ) : Bool × Filtering σ :=
  let (rv,request) := match filter with
    | .alone invoke => invoke s.request
    | .around invoke _ => invoke s.request
  (rv,⟨request,s.calls ++ [(filter.number,rv)]⟩)

def doFilter (filter : MyFilter σ) (s : Filtering σ) : Bool × Filtering σ :=
  let (rv,s) := match filter with
    -- `rv` is still what it was initialised with
    | .alone _ => (false,s)
    | .around _ nextFilter => nextFilter.invoke s
  if rv then filter.invoke s else (false,s)

/-- What the header promises: the filters run from the innermost one on. -/
def runAll : MyFilter σ → Filtering σ → Bool × Filtering σ
  | filter@(.alone _), s => filter.invoke s
  | filter@(.around _ nextFilter), s =>
    let (rv,s) := nextFilter.runAll s
    if rv then filter.invoke s else (false,s)

/-- The calls on a chain of `n` filters: `Filter1`, `Filter2` and so on, up to the first one
that returns `false`, and the result is whether all returned `true`. -/
structure InTurn (n : ℕ) (calls : List (ℕ × Bool)) (rv : Bool) : Prop where
  order : calls.map Prod.fst = List.range' 1 calls.length
  stops : ∀ call ∈ calls.dropLast, call.2 = true
  goesOn : calls.length = n ∨ ∃ call ∈ calls, call.2 = false
  result : rv = true ↔ calls = (List.range' 1 n).map fun k => (k,true)

theorem number_pos (filter : MyFilter σ) : 0 < filter.number := by
  cases filter with
  | alone _ => exact Nat.one_pos
  | around _ nextFilter => exact Nat.succ_pos _

theorem calls_invoke (filter : MyFilter σ) (s : Filtering σ) :
    (filter.invoke s).2.calls = s.calls ++ [(filter.number,(filter.invoke s).1)] := rfl

theorem inTurn_nil {n : ℕ} (hn : 0 < n) (rv : Bool) : ¬InTurn n [] rv := by
  intro h
  rcases h.goesOn with hlen | ⟨_, hmem, _⟩
  · exact absurd hlen (Nat.ne_of_lt hn)
  · cases hmem

/-- The first call of an orderly run is one on `Filter1`. -/
theorem InTurn.head_eq_one {n k : ℕ} {b rv : Bool} {calls : List (ℕ × Bool)}
    (h : InTurn n ((k,b)::calls) rv) : k = 1 := by
  have horder := h.order
  simp only [List.map_cons, List.length_cons, List.range'_succ] at horder
  exact (List.cons.inj horder).1

/-- After a chain that returned `true`, the filter around it is called in turn. -/
theorem InTurn.around {n : ℕ} {calls : List (ℕ × Bool)} {rv b : Bool}
    (h : InTurn n calls rv) (hrv : rv = true) : InTurn (n+1) (calls ++ [(n+1,b)]) b := by
  have hcalls := h.result.mp hrv
  have hlen : calls.length = n := by rw [hcalls]; simp
  refine ⟨?_, ?_, ?_, ?_⟩
  · rw [List.map_append, h.order, List.length_append, hlen, List.length_singleton,
      List.range'_1_concat, Nat.add_comm 1 n]
    rfl
  · rw [List.dropLast_concat, hcalls]
    simp
  · exact .inl (by rw [List.length_append, hlen, List.length_singleton])
  · rw [List.range'_1_concat, List.map_append, ← hcalls, Nat.add_comm 1 n]
    simp

/-- After a chain that returned `false`, the filter around it is not called. -/
theorem InTurn.refused {n : ℕ} {calls : List (ℕ × Bool)}
    (h : InTurn n calls false) : InTurn (n+1) calls false := by
  have hshort : ∃ call ∈ calls, call.2 = false := by
    rcases h.goesOn with hlen | hfalse
    · by_contra hall
      have htrue : ∀ call ∈ calls, call.2 = true := by
        intro call hmem
        cases hb : call.2 with
        | true => rfl
        | false => exact absurd ⟨call, hmem, hb⟩ hall
      have hcalls : calls = (List.range' 1 n).map fun k => (k,true) := by
        rw [← hlen, ← h.order, List.map_map]
        symm
        calc calls.map ((fun k => (k,true)) ∘ Prod.fst) = calls.map id := by
              apply List.map_congr_left
              intro call hmem
              exact Prod.ext rfl (htrue call hmem).symm
          _ = calls := List.map_id calls
      exact Bool.false_ne_true (h.result.mpr hcalls)
    · exact hfalse
  refine ⟨h.order, h.stops, .inr hshort, ?_⟩
  constructor
  · intro hb
    cases hb
  · intro hcalls
    rcases hshort with ⟨call, hmem, hb⟩
    rw [hcalls] at hmem
    rcases List.mem_map.mp hmem with ⟨k, _, rfl⟩
    exact absurd hb Bool.noConfusion

theorem runAll_inTurn (filter : MyFilter σ) (s : Filtering σ) (hs : s.calls = []) :
    InTurn filter.number (filter.runAll s).2.calls (filter.runAll s).1 := by
  -- from the innermost filter outwards
  induction filter with
  | alone invoke =>
    have hone : InTurn 1 [(1,(invoke s.request).1)] (invoke s.request).1 := by
      refine ⟨rfl, ?_, .inl rfl, ?_⟩
      · simp
      · simp
    simpa [runAll, MyFilter.invoke, number, hs] using hone
  | around invoke nextFilter ih =>
    simp only [runAll, number]
    cases hb : (nextFilter.runAll s).1 with
    | false =>
      rw [hb] at ih
      simpa using ih.refused
    | true =>
      simpa [MyFilter.invoke, number] using ih.around hb

/-- Of a chain of two, `doFilter` is what the header promises. -/
theorem doFilter_eq_runAll {filter : MyFilter σ} (hn : filter.number = 2) (s : Filtering σ) :
    filter.doFilter s = filter.runAll s := by
  cases filter with
  | alone _ => cases hn
  | around _ nextFilter =>
    cases nextFilter with
    | alone _ => rfl
    | around _ inner =>
      have hpos := inner.number_pos
      simp only [number] at hn
      omega

/-- Of a longer chain, the first filter called is the next to last one. -/
theorem calls_doFilter_around (f : σ → Bool × σ) (nextFilter : MyFilter σ) {s : Filtering σ}
    (hs : s.calls = []) :
    ∃ b calls, ((around f nextFilter).doFilter s).2.calls = (nextFilter.number,b)::calls := by
  have hnext := calls_invoke nextFilter s
  rw [hs, List.nil_append] at hnext
  cases hb : (nextFilter.invoke s).1 with
  | false =>
    refine ⟨false, [], ?_⟩
    simp only [doFilter, hb, Bool.false_eq_true, if_false]
    rw [hnext, hb]
  | true =>
    have hcalls := calls_invoke (around f nextFilter) (nextFilter.invoke s).2
    rw [hnext, hb] at hcalls
    simp only [doFilter, hb, if_true]
    exact ⟨true, _, hcalls⟩

theorem doFilter_inTurn_iff (filter : MyFilter σ) (s : Filtering σ) (hs : s.calls = []) :
    InTurn filter.number (filter.doFilter s).2.calls (filter.doFilter s).1 ↔
      filter.number = 2 := by
  constructor
  · intro h
    cases filter with
    | alone f =>
      have hcalls : ((alone f).doFilter s).2.calls = [] := hs
      rw [hcalls] at h
      exact absurd h (inTurn_nil (number_pos _) _)
    | around f nextFilter =>
      rcases calls_doFilter_around f nextFilter hs with ⟨b, calls, hcalls⟩
      rw [hcalls] at h
      have hhead := h.head_eq_one
      rw [number, hhead]
  · intro hn
    rw [doFilter_eq_runAll hn]
    exact filter.runAll_inTurn s hs

/-- Three filters that all return `true`: `Filter1` is not called. -/
theorem doFilter_three_not_inTurn :
    let yes : ℕ → Bool × ℕ := fun request => (true,request)
    let filter : MyFilter ℕ := around yes (around yes (alone yes))
    filter.number = 3 ∧ (filter.doFilter ⟨0,[]⟩).2.calls = [(2,true),(3,true)] ∧
      ¬InTurn 3 (filter.doFilter ⟨0,[]⟩).2.calls (filter.doFilter ⟨0,[]⟩).1 := by
  refine ⟨rfl, rfl, ?_⟩
  intro h
  exact absurd h.order (by decide)

theorem doFilter_inTurn_two :
    let yes : ℕ → Bool × ℕ := fun request => (true,request)
    let filter : MyFilter ℕ := around yes (alone yes)
    InTurn 2 (filter.doFilter ⟨0,[]⟩).2.calls (filter.doFilter ⟨0,[]⟩).1 :=
  (doFilter_inTurn_iff (around (fun request => (true,request)) (alone fun request => (true,request)))
    ⟨0,[]⟩ rfl).mpr rfl

end MyFilter
end EchoFrame
