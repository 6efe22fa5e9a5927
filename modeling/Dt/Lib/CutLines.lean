import Mathlib.Data.List.Basic
import Mathlib.Data.List.Count
import Dt.Lib.Tails

/-!
# Lines that keep their ends

`cutAfter` cuts a text after each separator; the last line may have none. The lines of two parts are
those of the one and of the other when the first part is whole lines, and then the end of the text in lines
is the second part.
-/

namespace Dt.Lib

variable {α : Type} [DecidableEq α] {sep : α}

def cutAfter (sep : α) : List α → List (List α)
  | [] => []
  | a :: s =>
    if a = sep then [a] :: cutAfter sep s
    else match cutAfter sep s with
      | [] => [[a]]
      | line :: rest => (a :: line) :: rest

theorem cutAfter_flatten (s : List α) : (cutAfter sep s).flatten = s := by
  induction s with
  | nil => rfl
  | cons a s ih =>
    rw [cutAfter]
    split
    · rw [List.flatten_cons, ih, List.singleton_append]
    · split
      · rename_i hnil
        rw [hnil] at ih
        rw [← ih]
        rfl
      · rename_i line rest hcons
        rw [hcons] at ih
        rw [← ih]
        rfl

example : cutAfter '\n' ['a', '\n', 'b'] = [['a', '\n'], ['b']] := by decide +kernel

theorem cutAfter_eq_nil {s : List α} : cutAfter sep s = [] ↔ s = [] := by
  constructor
  · rintro h
    rw [← @cutAfter_flatten α _ sep s, h, List.flatten_nil]
  · rintro rfl
    rfl

/-- One line and what is behind it. -/
theorem cutAfter_line {line : List α} (h : sep ∉ line) (s : List α) :
    cutAfter sep (line ++ sep :: s) = (line ++ [sep]) :: cutAfter sep s := by
  induction line with
  | nil => rw [List.nil_append, cutAfter, if_pos rfl, List.nil_append]
  | cons a line ih =>
    have ha : a ≠ sep := fun heq => h (heq ▸ List.mem_cons_self)
    rw [List.cons_append, cutAfter, if_neg ha, ih fun hm => h (List.mem_cons_of_mem _ hm),
      List.cons_append]

/-- A last line without its end. -/
theorem cutAfter_last {line : List α} (h : sep ∉ line) (hne : line ≠ []) :
    cutAfter sep line = [line] := by
  induction line with
  | nil => exact absurd rfl hne
  | cons a line ih =>
    have ha : a ≠ sep := fun heq => h (heq ▸ List.mem_cons_self)
    rw [cutAfter, if_neg ha]
    cases line with
    | nil => rfl
    | cons b line => rw [ih (fun hm => h (List.mem_cons_of_mem _ hm)) (List.cons_ne_nil _ _)]

/-- Whole lines are cut by themselves. -/
theorem cutAfter_append (a b : List α) :
    cutAfter sep (a ++ sep :: b) = cutAfter sep (a ++ [sep]) ++ cutAfter sep b := by
  induction a with
  | nil => rw [List.nil_append, List.nil_append, cutAfter, if_pos rfl, cutAfter, if_pos rfl]; rfl
  | cons c a ih =>
    rw [List.cons_append, List.cons_append, cutAfter, cutAfter]
    split
    · rw [ih, List.cons_append]
    · rw [ih]
      cases hcut : cutAfter sep (a ++ [sep]) with
      | nil => simp [cutAfter_eq_nil] at hcut
      | cons line rest => rfl

/-- How many lines: one for each separator, and one for what is behind the last one. -/
theorem length_cutAfter (s : List α) : (cutAfter sep s).length =
    s.count sep + if s = [] ∨ s.getLast? = some sep then 0 else 1 := by
  induction s with
  | nil => rfl
  | cons a s ih =>
    rw [cutAfter]
    cases s with
    | nil =>
      by_cases ha : a = sep
      · simp [cutAfter, ha]
      · simp [cutAfter, ha]
    | cons b s =>
      have hlast : (a :: b :: s).getLast? = (b :: s).getLast? := List.getLast?_cons_cons
      simp only [List.cons_ne_nil, false_or] at ih ⊢
      rw [hlast, List.count_cons]
      by_cases ha : a = sep
      · rw [if_pos ha, List.length_cons, ih]
        simp [ha]
        omega
      · have hne : cutAfter sep (b :: s) ≠ [] := by simp [cutAfter_eq_nil]
        obtain ⟨line, rest, hcut⟩ := List.exists_cons_of_ne_nil hne
        rw [if_neg ha, hcut]
        rw [hcut] at ih
        simp only [List.length_cons] at ih ⊢
        rw [ih]
        simp [ha]

/-- The lines behind whole lines are the last ones of the text. -/
theorem rtake_cutAfter (a b : List α) :
    ((cutAfter sep (a ++ sep :: b)).rtake (cutAfter sep b).length).flatten = b := by
  rw [cutAfter_append, rtake_append, rtake_of_length_le le_rfl, Nat.sub_self, List.rtake_zero,
    List.nil_append, cutAfter_flatten]

end Dt.Lib
