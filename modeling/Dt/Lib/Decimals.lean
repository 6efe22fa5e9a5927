import Mathlib.Data.List.TakeWhile
import Mathlib.Data.Rat.Defs
import Dt.Lib.Text

/-!
# Numbers as digits

A text of decimal digits, of whatever script, is an integer, and two such texts around a point are a number.
-/

namespace Dt.Lib

def isDecimal (c : Char) : Bool := (decimalDigit c).isSome

/-- `\d+` -/
def IsDigits (text : List Char) : Prop := text ≠ [] ∧ ∀ c ∈ text, isDecimal c = true

/-- `\d+(\.\d+)?` -/
def IsDecimals (text : List Char) : Prop :=
  IsDigits text ∨ ∃ whole fraction, text = whole ++ '.' :: fraction ∧ IsDigits whole ∧ IsDigits fraction

/-- The number that some digits are. -/
def digitsValue (text : List Char) : Option Nat := pyNatAux text 0 false

/-- The number that digits are, with or without a fraction. -/
def decimalsValue (text : List Char) : Option ℚ :=
  match text.dropWhile (· ≠ '.') with
  | [] => (digitsValue text).map fun n => n
  | _ :: fraction => do
    let n ← digitsValue (text.takeWhile (· ≠ '.'))
    let d ← digitsValue fraction
    return n + d / 10 ^ fraction.length

example : decimalsValue "12.50".toList = some (25 / 2) := by decide +kernel

/-- A character that a reader of numbers takes for nothing but a digit. -/
def isPlain (c : Char) : Bool := !(isSpace c || c = '_' || c = '-' || c = '+' || c = '.')

theorem plain_decimals : ∀ z ∈ decimalZeros, ∀ i < 10, isPlain (Char.ofNat (z + i)) = true := by
  decide +kernel

theorem isPlain_of_isDecimal {c : Char} (h : isDecimal c = true) : isPlain c = true := by
  obtain ⟨d, hd⟩ := Option.isSome_iff_exists.mp h
  obtain ⟨z, hz, -⟩ := Option.map_eq_some_iff.mp hd
  have hin := List.find?_some hz
  simp only [Bool.and_eq_true, decide_eq_true_eq] at hin
  have hplain := plain_decimals z (List.mem_of_find?_eq_some hz) (c.toNat - z) (by omega)
  rwa [Nat.add_sub_cancel' hin.1, Char.ofNat_toNat] at hplain

theorem IsDigits.plain {text : List Char} (h : IsDigits text) : ∀ c ∈ text, isPlain c = true :=
  fun c hc => isPlain_of_isDecimal (h.2 c hc)

theorem pyNatAux_isSome {text : List Char} (h : ∀ c ∈ text, isDecimal c = true) {n : Nat} {digit : Bool}
    (hne : digit = true ∨ text ≠ []) : (pyNatAux text n digit).isSome = true := by
  induction text generalizing n digit with
  | nil => simp [pyNatAux, hne.resolve_right (by simp)]
  | cons c text ih =>
    obtain ⟨hc, htext⟩ := List.forall_mem_cons.mp h
    obtain ⟨d, hd⟩ := Option.isSome_iff_exists.mp hc
    have hmark : c ≠ '_' := by
      rintro rfl
      exact absurd (isPlain_of_isDecimal hc) (by decide)
    rw [pyNatAux, if_neg hmark, hd]
    exact ih htext (.inl rfl)

theorem digitsValue_isSome {text : List Char} (h : IsDigits text) : (digitsValue text).isSome = true :=
  pyNatAux_isSome h.2 (.inr h.1)

/-- A text without spaces is its own `strip`. -/
theorem strip_plain {text : List Char} (h : ∀ c ∈ text, isPlain c = true) : strip text = text := by
  have hkeep : ∀ {s : List Char}, (∀ c ∈ s, isPlain c = true) → s.dropWhile isSpace = s := by
    intro s hs
    cases s with
    | nil => rfl
    | cons c s =>
      have hc : isSpace c = false := by
        have := hs c List.mem_cons_self
        simp only [isPlain, Bool.not_eq_true', Bool.or_eq_false_iff] at this
        exact this.1.1.1.1
      rw [List.dropWhile_cons_of_neg (by simp [hc])]
  unfold strip
  rw [hkeep h, hkeep fun c hc => h c (List.mem_reverse.mp hc), List.reverse_reverse]

/-- Digits are an integer. -/
theorem pyInt_isSome {text : List Char} (h : IsDigits text) : (pyInt text).isSome = true := by
  unfold pyInt
  rw [strip_plain h.plain]
  split
  · exact absurd (h.plain '-' List.mem_cons_self) (by decide)
  · exact absurd (h.plain '+' List.mem_cons_self) (by decide)
  · obtain ⟨n, hn⟩ := Option.isSome_iff_exists.mp (digitsValue_isSome h)
    unfold digitsValue at hn
    rw [hn]
    rfl

/-- And so are decimals a number. -/
theorem decimalsValue_isSome {text : List Char} (h : IsDecimals text) : (decimalsValue text).isSome = true := by
  have hpoint : ∀ {s : List Char}, IsDigits s → ∀ c ∈ s, decide (c ≠ '.') = true := by
    intro s hs c hc
    have := hs.plain c hc
    simp only [isPlain, Bool.not_eq_true', Bool.or_eq_false_iff] at this
    simpa using this.2
  rcases h with h | ⟨whole, fraction, rfl, hwhole, hfraction⟩
  · have hdrop : text.dropWhile (· ≠ '.') = [] := List.dropWhile_eq_nil_iff.mpr (hpoint h)
    obtain ⟨n, hn⟩ := Option.isSome_iff_exists.mp (digitsValue_isSome h)
    unfold decimalsValue
    rw [hdrop, hn]
    rfl
  · have hdrop : (whole ++ '.' :: fraction).dropWhile (· ≠ '.') = '.' :: fraction := by
      rw [List.dropWhile_append_of_pos (hpoint hwhole)]
      rfl
    have htake : (whole ++ '.' :: fraction).takeWhile (· ≠ '.') = whole := by
      rw [List.takeWhile_append_of_pos (hpoint hwhole)]
      simp
    obtain ⟨n, hn⟩ := Option.isSome_iff_exists.mp (digitsValue_isSome hwhole)
    obtain ⟨d, hd⟩ := Option.isSome_iff_exists.mp (digitsValue_isSome hfraction)
    unfold decimalsValue
    rw [hdrop, htake, hn]
    simp [hd]

end Dt.Lib
