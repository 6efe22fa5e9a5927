import Mathlib.Data.List.DropRight
import Mathlib.Tactic.Linarith

/-!
# The end of a text in lines

A text is split into lines that keep their ends. Cutting the front of the text off changes the first
line at most, so the last lines of the last bytes are the last bytes of the last lines.
-/

namespace Dt.Lib

variable {α : Type}

theorem rtake_of_length_le {n : Nat} {s : List α} (h : s.length ≤ n) : s.rtake n = s := by
  rw [List.rtake, Nat.sub_eq_zero_of_le h, List.drop_zero]

theorem rtake_cons {n : Nat} {a : α} {s : List α} (h : n ≤ s.length) :
    (a :: s).rtake n = s.rtake n := by
  rw [List.rtake, List.rtake, List.length_cons, Nat.succ_sub h, List.drop_succ_cons]

theorem length_rtake (n : Nat) (s : List α) : (s.rtake n).length = min n s.length := by
  rw [List.rtake, List.length_drop]
  omega

/-- The end of two parts. -/
theorem rtake_append (n : Nat) (s t : List α) :
    (s ++ t).rtake n = s.rtake (n - t.length) ++ t.rtake n := by
  rw [List.rtake, List.rtake, List.rtake, List.drop_append, List.length_append]
  rcases le_total n t.length with hle | hle
  · -- nothing of the first part
    have hnone : s.drop (s.length + t.length - n) = [] := List.drop_eq_nil_of_le (by omega)
    rw [hnone, Nat.sub_eq_zero_of_le hle, Nat.sub_zero, List.drop_length]
    congr 2
    omega
  · congr 2 <;> omega

/-- A way to cut a text into lines: taking the first element off changes the first line only. -/
structure Splits (split : List α → List (List α)) : Prop where
  flatten : ∀ s, (split s).flatten = s
  peel : ∀ a s, ∃ line rest, split (a :: s) = (a :: line) :: rest ∧
    (split s = line :: rest ∨ line = [] ∧ split s = rest)

/-- The last lines, joined. -/
def lastOf (split : List α → List (List α)) (lines : Nat) (s : List α) : List α :=
  ((split s).rtake lines).flatten

variable {split : List α → List (List α)}

theorem lastOf_of_length_le (h : Splits split) {lines : Nat} {s : List α}
    (hle : (split s).length ≤ lines) : lastOf split lines s = s := by
  rw [lastOf, rtake_of_length_le hle, h.flatten]

theorem rtake_lastOf_cons (h : Splits split) (lines : Nat) {n : Nat} (a : α) {s : List α}
    (hle : n ≤ s.length) :
    (lastOf split lines (a :: s)).rtake n = (lastOf split lines s).rtake n := by
  obtain ⟨line, rest, hcons, hs⟩ := h.peel a s
  by_cases hfew : lines ≤ rest.length
  · -- the first line is not among the last ones
    have hsame : lastOf split lines (a :: s) = lastOf split lines s := by
      rw [lastOf, lastOf, hcons, rtake_cons hfew]
      rcases hs with hs | ⟨-, hs⟩
      · rw [hs, rtake_cons hfew]
      · rw [hs]
    rw [hsame]
  · have hall : (split (a :: s)).length ≤ lines := by
      rw [hcons, List.length_cons]
      omega
    have hall' : (split s).length ≤ lines := by
      rcases hs with hs | ⟨-, hs⟩ <;> rw [hs]
      · rw [List.length_cons]
        omega
      · omega
    rw [lastOf_of_length_le h hall, lastOf_of_length_le h hall', rtake_cons hle]

/-- The last lines of the last elements. -/
theorem rtake_lastOf_rtake (h : Splits split) (lines n : Nat) (s : List α) :
    (lastOf split lines (s.rtake n)).rtake n = (lastOf split lines s).rtake n := by
  induction s with
  | nil => simp [List.rtake]
  | cons a s ih =>
    by_cases hle : (a :: s).length ≤ n
    · rw [rtake_of_length_le hle]
    · have hn : n ≤ s.length := Nat.lt_succ_iff.mp (not_le.mp hle)
      rw [rtake_cons hn, ih, rtake_lastOf_cons h lines a hn]

/-! ## Lines of bytes -/

/-- A first byte for the first line. -/
def extendLine (c : UInt8) : List (List UInt8) → List (List UInt8)
  | [] => [[c]]
  | line :: rest => (c :: line) :: rest

/-- `bytes.splitlines(keepends=True)`: a line ends after a line feed, a carriage return, or both. -/
def splitKeepEnds : List UInt8 → List (List UInt8)
  | [] => []
  | c :: rest =>
    if c = 10 ∨ c = 13 ∧ rest.head? ≠ some 10 then [c] :: splitKeepEnds rest
    else extendLine c (splitKeepEnds rest)

theorem splits_splitKeepEnds : Splits splitKeepEnds where
  flatten s := by
    induction s with
    | nil => rfl
    | cons c rest ih =>
      rw [splitKeepEnds]
      split
      · rw [List.flatten_cons, ih, List.singleton_append]
      · cases hrest : splitKeepEnds rest with
        | nil => rw [hrest] at ih; rw [← ih]; rfl
        | cons line lines => rw [hrest] at ih; rw [← ih]; rfl
  peel c rest := by
    rw [splitKeepEnds]
    split
    · exact ⟨[], splitKeepEnds rest, rfl, .inr ⟨rfl, rfl⟩⟩
    · cases splitKeepEnds rest with
      | nil => exact ⟨[], [], rfl, .inr ⟨rfl, rfl⟩⟩
      | cons line lines => exact ⟨line, lines, rfl, .inl rfl⟩

example : splitKeepEnds [97, 13, 10, 10, 13, 98] = [[97, 13, 10], [10], [13], [98]] := by decide

end Dt.Lib
