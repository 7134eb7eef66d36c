import EchoFrame.MachineInt
import Mathlib.Data.List.TakeWhile
import EchoFrame.Verif.Decimal
import EchoFrame.Verif.IntFormat

/-! The conversions of `MyCast` between integral types and from text to them. -/
namespace EchoFrame
open Verif

inductive IntegralType
  | bool | char | signedChar | unsignedChar | wchar | char16 | char32
  | short | unsignedShort | int | unsignedInt | long | unsignedLong | longLong | unsignedLongLong
  deriving DecidableEq

namespace IntegralType

def bits : IntegralType → ℕ
  | bool => 1
  | char | signedChar | unsignedChar => 8
  | short | unsignedShort | char16 => 16
  | wchar | char32 | int | unsignedInt => 32
  | long | unsignedLong | longLong | unsignedLongLong => 64

def signed : IntegralType → Bool
  | char | signedChar | wchar | short | int | long | longLong => true
  | _ => false

theorem bits_pos (T : IntegralType) : 0 < T.bits := by cases T <;> decide

def format (T : IntegralType) : IntFormat := ⟨T.bits, T.signed, T.bits_pos⟩

abbrev Value (T : IntegralType) : Type := T.format.Value

def zero (T : IntegralType) : T.Value := ⟨0, T.format.holds_zero⟩

/-- `static_cast<T>`, a value other than 0 becomes `true`. -/
def staticCast (T : IntegralType) (v : ℤ) : T.Value :=
  if T = bool then
    if v = 0 then T.zero else ⟨T.format.max, T.format.holds_max⟩
  else ⟨T.format.wrap v, T.format.holds_wrap v⟩

def checked (T : IntegralType) (v : ℤ) : T.Value :=
  if h : T.format.Holds v then ⟨v, h⟩ else T.zero

/-- The value is not below the lower limit, or a multiple of the residues below it. -/
def Converts (T : IntegralType) (v : ℤ) : Prop :=
  T.format.min ≤ v ∨ T ≠ bool ∧ (2:ℤ)^T.bits ∣ v

end IntegralType

namespace MyCast

variable {F : IntegralType}

def toOther (T : IntegralType) (v : F.Value) : T.Value :=
  if IntFormat.greater F.format T.format v.val T.format.max then T.zero else T.staticCast v.val

def toValue (T : IntegralType) (v : F.Value) : T.Value := if h : F = T then h ▸ v else toOther T v

inductive StoError
  | invalid_argument
  | out_of_range

def isspace (b : Byte) : Bool := b = 32 || 9 ≤ b.toNat && b.toNat ≤ 13

def readSign : List Byte → Bool × List Byte
  | [] => (false, [])
  | b :: s => if b = 45 then (true, s) else if b = 43 then (false, s) else (false, b :: s)

def readInteger (s : List Byte) : Option (Bool × ℕ) :=
  let (minus, rest) := readSign (s.dropWhile isspace)
  let digits := rest.takeWhile isDigit
  if digits = [] then none else some (minus, digitsValue digits)

def signedValue (minus : Bool) (n : ℕ) : ℤ := if minus then -n else n

def stoll (s : List Byte) : Except StoError IntegralType.longLong.Value :=
  match readInteger s with
  | none => .error .invalid_argument
  | some (minus, n) =>
    if h : IntegralType.longLong.format.Holds (signedValue minus n) then .ok ⟨_, h⟩
    else .error .out_of_range

/-- `std::stoull`, a minus is accepted and the value wraps. -/
def stoull (s : List Byte) : Except StoError IntegralType.unsignedLongLong.Value :=
  match readInteger s with
  | none => .error .invalid_argument
  | some (minus, n) =>
    if (n:ℤ) ≤ IntegralType.unsignedLongLong.format.max then
      .ok (IntegralType.unsignedLongLong.staticCast (signedValue minus n))
    else .error .out_of_range

/-- `to` from text, `none` where the function for signed types is left without a result. -/
def ofText (T : IntegralType) (s : List Byte) : Option T.Value :=
  if T.signed then
    match stoll s with
    | .ok tmp => some (toValue T tmp)
    | .error _ => none
  else
    match stoull s with
    | .ok tmp => some (toValue T tmp)
    | .error _ => some T.zero

end MyCast

namespace MyCommon

/-- `strto` to an integral type, no overload throws the exception it handles. -/
def strto (T : IntegralType) (v : List Byte) : Option T.Value := MyCast.ofText T v

end MyCommon

inductive DecimalText : List Byte → ℤ → Prop
  | plain {ds : List Byte} (hne : ds ≠ []) (hds : ∀ d ∈ ds, isDigit d = true) :
      DecimalText ds (digitsValue ds)
  | plus {ds : List Byte} (hne : ds ≠ []) (hds : ∀ d ∈ ds, isDigit d = true) :
      DecimalText (43 :: ds) (digitsValue ds)
  | minus {ds : List Byte} (hne : ds ≠ []) (hds : ∀ d ∈ ds, isDigit d = true) :
      DecimalText (45 :: ds) (-(digitsValue ds : ℤ))

namespace MyCast
open IntegralType

variable {F T : IntegralType} {v : ℤ} {s : List Byte}

theorem checked_of_holds (h : T.format.Holds v) : checked T v = ⟨v, h⟩ := dif_pos h

theorem checked_of_not_holds (h : ¬ T.format.Holds v) : checked T v = T.zero := dif_neg h

theorem staticCast_of_holds (h : T.format.Holds v) : T.staticCast v = ⟨v, h⟩ := by
  apply IntFormat.Value.ext
  by_cases hT : T = bool
  · subst hT
    have hlo : 0 ≤ v := h.1
    have hhi : v ≤ 1 := h.2
    rw [staticCast, if_pos rfl]
    by_cases h0 : v = 0
    · rw [if_pos h0]
      exact h0.symm
    · rw [if_neg h0]
      change (1:ℤ) = v
      omega
  · rw [staticCast, if_neg hT]
    exact IntFormat.wrap_of_holds h

theorem staticCast_eq_zero_iff (h : v < T.format.min) :
    T.staticCast v = T.zero ↔ T ≠ bool ∧ (2:ℤ)^T.bits ∣ v := by
  have hneg : v ≠ 0 := (h.trans_le T.format.min_nonpos).ne
  by_cases hT : T = bool
  · subst hT
    rw [staticCast, if_pos rfl, if_neg hneg]
    constructor
    · intro he
      cases congrArg IntFormat.Value.val he
    · exact fun hn => absurd rfl hn.1
  · rw [staticCast, if_neg hT, and_iff_right hT]
    exact Iff.trans IntFormat.Value.ext_iff IntFormat.wrap_eq_zero_iff

/-- Only what is below the lower limit comes out wrong, unless its residue happens to be 0. -/
theorem toOther_eq_checked_iff (v : F.Value) : toOther T v = checked T v.val ↔ T.Converts v.val := by
  have hgreater := IntFormat.greater_max_iff (g := T.format) v.holds
  unfold toOther
  split
  · next hgt =>
    rw [hgreater] at hgt
    rw [checked_of_not_holds (fun h => absurd h.2 (Int.not_le.mpr hgt))]
    refine iff_of_true rfl (.inl ?_)
    exact (T.format.min_nonpos.trans T.format.max_nonneg).trans hgt.le
  · next hle =>
    rw [hgreater, Int.not_lt] at hle
    by_cases hmin : T.format.min ≤ v.val
    · rw [checked_of_holds ⟨hmin, hle⟩, staticCast_of_holds ⟨hmin, hle⟩]
      exact iff_of_true rfl (.inl hmin)
    · rw [checked_of_not_holds (fun h => hmin h.1), staticCast_eq_zero_iff (Int.not_le.mp hmin),
        Converts, or_iff_right hmin]

theorem toValue_eq_checked_iff (v : F.Value) : toValue T v = checked T v.val ↔ T.Converts v.val := by
  by_cases h : F = T
  · subst h
    rw [toValue, dif_pos rfl, checked_of_holds v.holds]
    exact iff_of_true rfl (.inl v.holds.1)
  · rw [toValue, dif_neg h]
    exact toOther_eq_checked_iff v

theorem not_isspace_of_lt {b : Byte} (h : 32 < b.toNat) : isspace b = false := by
  have hne : b ≠ 32 := by
    rintro rfl
    exact absurd h (by decide)
  rw [isspace, decide_eq_false hne, Bool.false_or, Bool.and_eq_false_iff]
  exact .inr (decide_eq_false (by omega))

theorem readInteger_of_ne_nil {minus : Bool} {rest digits : List Byte}
    (hspace : s.dropWhile isspace = s) (hsign : readSign s = (minus, rest))
    (hdigits : rest.takeWhile isDigit = digits) (hne : digits ≠ []) :
    readInteger s = some (minus, digitsValue digits) := by
  rw [readInteger, hspace, hsign]
  dsimp only
  rw [hdigits, if_neg hne]

theorem readInteger_of_decimalText (h : DecimalText s v) :
    ∃ minus n, readInteger s = some (minus, n) ∧ signedValue minus n = v := by
  cases h with
  | plain hne hds =>
    refine ⟨false, _, ?_, rfl⟩
    obtain ⟨d, ds, rfl⟩ := List.exists_cons_of_ne_nil hne
    have hd := isDigit_iff.mp (hds d (List.mem_cons_self ..))
    apply readInteger_of_ne_nil ?_ ?_ (List.takeWhile_eq_self_iff.mpr hds) hne
    · rw [List.dropWhile_cons_of_neg]
      rw [not_isspace_of_lt (by omega)]
      decide
    · have h45 : d ≠ 45 := by
        rintro rfl
        exact absurd hd.1 (by decide)
      have h43 : d ≠ 43 := by
        rintro rfl
        exact absurd hd.1 (by decide)
      rw [readSign, if_neg h45, if_neg h43]
  | @plus ds hne hds =>
    refine ⟨false, digitsValue ds, ?_, rfl⟩
    exact readInteger_of_ne_nil (List.dropWhile_cons_of_neg (by decide)) rfl
      (List.takeWhile_eq_self_iff.mpr hds) hne
  | @minus ds hne hds =>
    refine ⟨true, digitsValue ds, ?_, rfl⟩
    exact readInteger_of_ne_nil (List.dropWhile_cons_of_neg (by decide)) rfl
      (List.takeWhile_eq_self_iff.mpr hds) hne

theorem stoll_of_decimalText (h : DecimalText s v) (hv : longLong.format.Holds v) :
    stoll s = .ok ⟨v, hv⟩ := by
  obtain ⟨minus, n, hread, rfl⟩ := readInteger_of_decimalText h
  rw [stoll, hread]
  exact dif_pos hv

theorem stoull_of_decimalText (h : DecimalText s v) (hv : unsignedLongLong.format.Holds v) :
    stoull s = .ok ⟨v, hv⟩ := by
  obtain ⟨minus, n, hread, rfl⟩ := readInteger_of_decimalText h
  have hn : (n:ℤ) = signedValue minus n := by
    have hpos : 0 ≤ signedValue minus n := hv.1
    unfold signedValue at hpos ⊢
    split at hpos
    · next hm =>
      rw [if_pos hm]
      omega
    · next hm => rw [if_neg hm]
  rw [stoull, hread]
  dsimp only
  rw [if_pos (hn ▸ hv.2), staticCast_of_holds hv]

/-- A value of `long long` that is not negative is one of `unsigned long long`. -/
theorem holds_unsignedLongLong (hv : longLong.format.Holds v) (h0 : 0 ≤ v) :
    unsignedLongLong.format.Holds v :=
  ⟨h0, hv.2.trans (by decide)⟩

theorem converts_of_unsigned (hT : T.signed = false) (h0 : 0 ≤ v) : T.Converts v := by
  left
  have hmin : T.format.min = 0 := by
    rw [IntFormat.min, format, hT]
    rfl
  rw [hmin]
  exact h0

theorem strto_signed (hT : T.signed = true) (h : DecimalText s v) (hv : longLong.format.Holds v) :
    MyCommon.strto T s = some (toValue T (⟨v,hv⟩ : longLong.Value)) := by
  rw [MyCommon.strto, ofText, if_pos hT, stoll_of_decimalText h hv]

theorem strto_unsigned (hT : T.signed = false) (h : DecimalText s v)
    (hv : unsignedLongLong.format.Holds v) :
    MyCommon.strto T s = some (toValue T (⟨v,hv⟩ : unsignedLongLong.Value)) := by
  rw [MyCommon.strto, ofText, hT, stoull_of_decimalText h hv]
  rfl

theorem nonneg_of_holds (hT : T.signed = false) (hv : T.format.Holds v) : 0 ≤ v := by
  have hlo := hv.1
  rw [IntFormat.min, format, hT] at hlo
  exact hlo

/-- A text with a value of an unsigned type is read as that value. -/
theorem strto_of_holds (hT : T.signed = false) (h : DecimalText s v) (hv : T.format.Holds v) :
    MyCommon.strto T s = some ⟨v,hv⟩ := by
  have h0 := nonneg_of_holds hT hv
  have hull : unsignedLongLong.format.Holds v := by
    refine ⟨h0, hv.2.trans ?_⟩
    cases T <;> decide
  rw [strto_unsigned hT h hull]
  have hchecked := (toValue_eq_checked_iff (F := unsignedLongLong) ⟨v,hull⟩).mpr
    (converts_of_unsigned hT h0)
  rw [hchecked, checked_of_holds hv]

/-- The conversions are checked at exactly the values that are not below the lower limit of
the type, and below it at those that wrap to 0. -/
theorem checked_conversions (T : IntegralType) (v : ℤ) :
    (∀ (F : IntegralType) (hv : F.format.Holds v),
        toValue T (⟨v,hv⟩ : F.Value) = checked T v ↔ T.Converts v) ∧
      ∀ s, DecimalText s v → longLong.format.Holds v →
        (T.signed = true → (MyCommon.strto T s = some (checked T v) ↔ T.Converts v)) ∧
        (T.signed = false → 0 ≤ v → MyCommon.strto T s = some (checked T v)) := by
  refine ⟨fun F hv => toValue_eq_checked_iff (⟨v,hv⟩ : F.Value), ?_⟩
  intro s hs hv
  constructor
  · intro hT
    rw [strto_signed hT hs hv, Option.some.injEq]
    exact toValue_eq_checked_iff (⟨v,hv⟩ : longLong.Value)
  · intro hT h0
    have hull := holds_unsignedLongLong hv h0
    rw [strto_unsigned hT hs hull]
    have hiff := toValue_eq_checked_iff (T := T) (⟨v,hull⟩ : unsignedLongLong.Value)
    exact congrArg some (hiff.mpr (converts_of_unsigned hT h0))

/-- The text `-100` for a signed byte, and the port number 8080. -/
theorem checked_texts :
    MyCommon.strto signedChar [45,49,48,48] = some (checked signedChar (-100)) ∧
      MyCommon.strto unsignedShort [56,48,56,48] = some (checked unsignedShort 8080) := by
  constructor
  · have hs : DecimalText [45,49,48,48] (-100) :=
      .minus (by decide) (List.all_eq_true.mp (by decide))
    exact (((checked_conversions signedChar (-100)).2 _ hs (by decide)).1 rfl).mpr (.inl (by decide))
  · have hs : DecimalText [56,48,56,48] 8080 :=
      .plain (by decide) (List.all_eq_true.mp (by decide))
    exact ((checked_conversions unsignedShort 8080).2 _ hs (by decide)).2 rfl (by decide)

/-- The number -1 as a port is 65535, and the text `-200` as a signed byte is 56. -/
theorem not_checked :
    (toValue unsignedShort (⟨-1, by decide⟩ : int.Value)).val = 65535 ∧
      (checked unsignedShort (-1)).val = 0 ∧
      (MyCommon.strto signedChar [45,50,48,48]).map (·.val) = some 56 ∧
      (checked signedChar (-200)).val = 0 ∧
      ¬ ∀ (F T : IntegralType) (v : F.Value), F ≠ T → toValue T v = checked T v.val := by
  refine ⟨by decide, by decide, by decide, by decide, ?_⟩
  intro h
  have hport := h int unsignedShort ⟨-1, by decide⟩ (by decide)
  exact absurd hport (by decide)

end MyCast
end EchoFrame
