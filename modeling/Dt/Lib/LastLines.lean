import Mathlib
import Dt.Lib.Text

/-!
# The lines of a text from its end

`splitOn` cuts a text at every mark, so it can be put together from the pieces on both sides of any
one mark. `lastLines` lists the lines of a text from the last one to the first, without the empty
ones, and with `none` for a line that is too long to be kept.
-/

namespace Dt.Lib

/-- The pieces of a text are those before a mark, and then those behind it. -/
theorem splitOn_cut (sep : Char) (a b : List Char) :
    splitOn sep (a ++ sep :: b) = splitOn sep a ++ splitOn sep b := by
  induction hlen : a.length using Nat.strongRecOn generalizing a with
  | ind n ih =>
    by_cases hsep : sep ∈ a
    · obtain ⟨before, after, rfl, hbefore⟩ := List.eq_append_cons_of_mem hsep
      have hshort : after.length < n := by
        rw [← hlen, List.length_append, List.length_cons]
        omega
      rw [List.append_assoc, List.cons_append, splitOn_append hbefore, splitOn_append hbefore,
        ih _ hshort after rfl]
      rfl
    · rw [splitOn_append hsep, splitOn_of_notMem hsep]
      rfl

/-- The first piece holds no mark, and the others stand behind one. -/
theorem splitOn_head (sep : Char) (s : List Char) :
    ∃ first others, splitOn sep s = first :: others ∧ sep ∉ first ∧
      (others = [] ∧ s = first ∨ ∃ rest, s = first ++ sep :: rest ∧ others = splitOn sep rest) := by
  by_cases hsep : sep ∈ s
  · obtain ⟨first, rest, rfl, hfirst⟩ := List.eq_append_cons_of_mem hsep
    exact ⟨first, splitOn sep rest, splitOn_append hfirst rest, hfirst, .inr ⟨rest, rfl, rfl⟩⟩
  · exact ⟨s, [], splitOn_of_notMem hsep, hsep, .inl ⟨rfl, rfl⟩⟩

theorem splitOn_ne_nil (sep : Char) (s : List Char) : splitOn sep s ≠ [] := by
  obtain ⟨first, others, hcut, -⟩ := splitOn_head sep s
  rw [hcut]
  exact List.cons_ne_nil _ _

theorem joinWith_cons {sep w : List Char} {ws : List (List Char)} (h : ws ≠ []) :
    joinWith sep (w :: ws) = w ++ sep ++ joinWith sep ws := by
  cases ws with
  | nil => exact absurd rfl h
  | cons v vs => rfl

theorem joinWith_append {sep : List Char} {a b : List (List Char)} (ha : a ≠ []) (hb : b ≠ []) :
    joinWith sep (a ++ b) = joinWith sep a ++ sep ++ joinWith sep b := by
  induction a with
  | nil => exact absurd rfl ha
  | cons w a ih =>
    cases a with
    | nil => exact joinWith_cons hb
    | cons v a =>
      have htail : v :: a ≠ [] := List.cons_ne_nil v a
      rw [List.cons_append, joinWith_cons (List.append_ne_nil_of_left_ne_nil htail b), ih htail,
        joinWith_cons htail]
      simp only [List.append_assoc]

/-- A character of a joined text is of the separator or of a piece. -/
theorem mem_joinWith {sep : List Char} {ws : List (List Char)} {c : Char} (h : c ∈ joinWith sep ws) :
    c ∈ sep ∨ ∃ w ∈ ws, c ∈ w := by
  induction ws with
  | nil => cases h
  | cons w ws ih =>
    by_cases hws : ws = []
    · subst hws
      exact .inr ⟨w, List.mem_cons_self, h⟩
    rw [joinWith_cons hws, List.append_assoc, List.mem_append, List.mem_append] at h
    rcases h with h | h | h
    · exact .inr ⟨w, List.mem_cons_self, h⟩
    · exact .inl h
    · rcases ih h with hsep | ⟨v, hv, hc⟩
      · exact .inl hsep
      · exact .inr ⟨v, List.mem_cons_of_mem w hv, hc⟩

/-- A character of a piece is one of the joined text. -/
theorem mem_joinWith_of_mem {sep w : List Char} {ws : List (List Char)} {c : Char} (hw : w ∈ ws) (hc : c ∈ w) :
    c ∈ joinWith sep ws := by
  induction ws with
  | nil => cases hw
  | cons v ws ih =>
    by_cases hws : ws = []
    · subst hws
      rw [List.mem_singleton] at hw
      exact hw ▸ hc
    rw [joinWith_cons hws, List.append_assoc, List.mem_append, List.mem_append]
    rcases List.mem_cons.mp hw with rfl | hw
    · exact .inl hc
    · exact .inr (.inr (ih hw))

/-- A text is its pieces, joined again. -/
theorem joinWith_splitOn (sep : Char) (s : List Char) : joinWith [sep] (splitOn sep s) = s := by
  induction hlen : s.length using Nat.strongRecOn generalizing s with
  | ind n ih =>
    obtain ⟨first, others, hcut, -, ⟨rfl, rfl⟩ | ⟨rest, rfl, rfl⟩⟩ := splitOn_head sep s
    · rw [hcut]
      rfl
    · have hshort : rest.length < n := by
        rw [← hlen, List.length_append, List.length_cons]
        omega
      rw [hcut, joinWith_cons (splitOn_ne_nil sep rest), ih _ hshort rest rfl, List.append_assoc]
      rfl

section
variable (max : Nat)

/-- A line of at most `max` characters. -/
def boundLine (line : List Char) : Option (List Char) := if line.length ≤ max then some line else none

/-- Some lines, last one first. -/
def keepLines (lines : List (List Char)) : List (Option (List Char)) :=
  (lines.reverse.filter fun line => line ≠ []).map (boundLine max)

def lastLines (text : List Char) : List (Option (List Char)) := keepLines max (splitOn '\n' text)

theorem keepLines_append (a b : List (List Char)) :
    keepLines max (a ++ b) = keepLines max b ++ keepLines max a := by
  simp [keepLines]

theorem lastLines_cut (a b : List Char) :
    lastLines max (a ++ '\n' :: b) = lastLines max b ++ lastLines max a := by
  rw [lastLines, splitOn_cut, keepLines_append]
  rfl

theorem lastLines_nil : lastLines max [] = [] := rfl

theorem lastLines_line {line : List Char} (hne : line ≠ []) (h : '\n' ∉ line) :
    lastLines max line = [boundLine max line] := by
  simp [lastLines, splitOn_of_notMem h, keepLines, hne]

/-- Lines that all end with their mark, and what stands behind the last mark. -/
theorem lastLines_lines {lines : List (List Char)} (h : ∀ line ∈ lines, line ≠ [] ∧ '\n' ∉ line)
    (rest : List Char) :
    lastLines max (lines.flatMap (fun line => line ++ ['\n']) ++ rest) =
      lastLines max rest ++ (lines.map (boundLine max)).reverse := by
  induction lines generalizing rest with
  | nil => simp
  | cons line lines ih =>
    obtain ⟨hne, hmark⟩ := h line List.mem_cons_self
    have htext : (line :: lines).flatMap (fun line => line ++ ['\n']) ++ rest =
        line ++ '\n' :: (lines.flatMap (fun line => line ++ ['\n']) ++ rest) := by
      simp
    rw [htext, lastLines_cut, ih (fun l hl => h l (List.mem_cons_of_mem _ hl)),
      lastLines_line max hne hmark, List.map_cons, List.reverse_cons, List.append_assoc]

end

/-! ## The last mark of a text -/

/-- `s.rfind(sep)`: what stands behind the last mark is the text from its end up to there. -/
def rfind (sep : Char) (s : List Char) : Option Nat :=
  if sep ∈ s then some (s.length - 1 - (s.reverse.takeWhile (· ≠ sep)).length) else none

theorem rfind_of_notMem {sep : Char} {s : List Char} (h : sep ∉ s) : rfind sep s = none := if_neg h

theorem rfind_cut {sep : Char} (a : List Char) {b : List Char} (h : sep ∉ b) :
    rfind sep (a ++ sep :: b) = some a.length := by
  have hbehind : (a ++ sep :: b).reverse.takeWhile (· ≠ sep) = b.reverse := by
    have hrev : (a ++ sep :: b).reverse = b.reverse ++ sep :: a.reverse := by simp
    have hall : ∀ c ∈ b.reverse, decide (c ≠ sep) = true := fun c hc =>
      decide_eq_true fun heq => h (heq ▸ List.mem_reverse.mp hc)
    rw [hrev, List.takeWhile_append_of_pos hall]
    simp
  rw [rfind, if_pos (by simp), hbehind]
  simp only [List.length_append, List.length_cons, List.length_reverse, Option.some.injEq]
  omega

/-- Where the last mark of a text stands. -/
theorem rfind_cases (sep : Char) (s : List Char) :
    sep ∉ s ∧ rfind sep s = none ∨
      ∃ a b, s = a ++ sep :: b ∧ sep ∉ b ∧ rfind sep s = some a.length := by
  by_cases hsep : sep ∈ s
  · obtain ⟨b, a, hrev, hb⟩ := List.eq_append_cons_of_mem (List.mem_reverse.mpr hsep)
    have hs : s = a.reverse ++ sep :: b.reverse := by
      rw [← List.reverse_reverse s, hrev]
      simp
    have hb' : sep ∉ b.reverse := by simpa using hb
    exact .inr ⟨a.reverse, b.reverse, hs, hb', hs ▸ rfind_cut a.reverse hb'⟩
  · exact .inl ⟨hsep, rfind_of_notMem hsep⟩

end Dt.Lib
