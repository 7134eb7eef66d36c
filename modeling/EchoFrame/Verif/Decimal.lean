import Mathlib.Data.Nat.Notation
import Mathlib.Tactic.Common

/-! Decimal text in ASCII bytes. -/
namespace Verif

def isDigit (b : UInt8) : Bool := 48 ≤ b.toNat && b.toNat ≤ 57

/-- The number that a row of digits stands for. -/
def digitsValue (ds : List UInt8) : ℕ := ds.foldl (fun v d => 10*v+(d.toNat-48)) 0

def decimal (n : ℕ) : List UInt8 := (Nat.toDigits 10 n).map (fun c => c.toNat.toUInt8)

theorem isDigit_iff {b : UInt8} : isDigit b = true ↔ 48 ≤ b.toNat ∧ b.toNat ≤ 57 := by
  rw [isDigit, Bool.and_eq_true, decide_eq_true_iff, decide_eq_true_iff]

theorem toNat_of_mem_toDigits {n : ℕ} {c : Char} (h : c ∈ Nat.toDigits 10 n) :
    48 ≤ c.toNat ∧ c.toNat ≤ 57 := by
  have hd := Nat.isDigit_of_mem_toDigits (by decide) (by decide) h
  simp only [Char.isDigit, Bool.and_eq_true, decide_eq_true_eq] at hd
  exact hd

/-- A digit fits in a byte. -/
theorem toNat_toUInt8_of_mem {n : ℕ} {c : Char} (h : c ∈ Nat.toDigits 10 n) :
    c.toNat.toUInt8.toNat = c.toNat := by
  have hc := toNat_of_mem_toDigits h
  rw [UInt8.toNat_ofNat']
  omega

theorem isDigit_of_mem_decimal {n : ℕ} {b : UInt8} (h : b ∈ decimal n) : isDigit b = true := by
  obtain ⟨c, hc, rfl⟩ := List.mem_map.mp h
  rw [isDigit_iff, toNat_toUInt8_of_mem hc]
  exact toNat_of_mem_toDigits hc

theorem decimal_ne_nil (n : ℕ) : decimal n ≠ [] := by
  rw [decimal, Ne, List.map_eq_nil_iff]
  exact Nat.toDigits_ne_nil

theorem foldl_map_toUInt8 {cs : List Char} (hcs : ∀ c ∈ cs, c.toNat.toUInt8.toNat = c.toNat)
    (v : ℕ) :
    (cs.map (fun c => c.toNat.toUInt8)).foldl (fun v d => 10*v+(d.toNat-48)) v =
      Nat.ofDigitChars 10 cs v := by
  induction cs generalizing v with
  | nil => exact Nat.ofDigitChars_nil.symm
  | cons c cs ih =>
    rw [List.map_cons, List.foldl_cons, hcs c (List.mem_cons_self ..), Nat.ofDigitChars_cons]
    exact ih (fun d hd => hcs d (List.mem_cons_of_mem c hd)) _

/-- Reading the digits of a number gives the number. -/
theorem digitsValue_decimal (n : ℕ) : digitsValue (decimal n) = n := by
  rw [digitsValue, decimal, foldl_map_toUInt8 (fun c hc => toNat_toUInt8_of_mem hc)]
  exact Nat.ofDigitChars_ten_toDigits

theorem decimal_injective : Function.Injective decimal :=
  Function.LeftInverse.injective digitsValue_decimal

end Verif
