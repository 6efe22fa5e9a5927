import Mathlib.Data.List.Basic
import Mathlib.Data.List.Infix

/-!
# Relative paths

A place in a tree is the list of names on the way down from the root. `relative` leads from one place to
another: up to the last place they share, and down from there. It is of use at the place it was made for.
Taken somewhere else, it leads to the place meant if the two starts lie equally deep under what is read
differently (`goAlong_relative_below`), and otherwise only by accident.
-/

namespace Dt.Lib

variable {α : Type*} [DecidableEq α] (up : α)

/-- One step from a place; above the root is the root. -/
def goInto (here : List α) (step : α) : List α := if step = up then here.dropLast else here ++ [step]

def goAlong (here steps : List α) : List α := steps.foldl (goInto up) here

/-- How many names two places share. -/
def shared : List α → List α → Nat
  | a :: as, b :: bs => if a = b then shared as bs + 1 else 0
  | _, _ => 0

/-- The way from one place to another. -/
def relative (start path : List α) : List α :=
  List.replicate (start.length - shared start path) up ++ path.drop (shared start path)

theorem shared_le_left (a b : List α) : shared a b ≤ a.length := by
  induction a generalizing b with
  | nil => exact Nat.zero_le _
  | cons x a ih =>
    cases b with
    | nil => exact Nat.zero_le _
    | cons y b =>
      rw [shared]
      split
      · exact Nat.succ_le_succ (ih b)
      · exact Nat.zero_le _

example : relative 0 [1, 2, 3] [1, 2, 4] = [0, 4] := by decide +kernel

theorem shared_le_right (a b : List α) : shared a b ≤ b.length := by
  induction a generalizing b with
  | nil => exact Nat.zero_le _
  | cons x a ih =>
    cases b with
    | nil => exact Nat.zero_le _
    | cons y b =>
      rw [shared]
      split
      · exact Nat.succ_le_succ (ih b)
      · exact Nat.zero_le _

theorem take_shared (a b : List α) : a.take (shared a b) = b.take (shared a b) := by
  induction a generalizing b with
  | nil => rfl
  | cons x a ih =>
    cases b with
    | nil => rfl
    | cons y b =>
      rw [shared]
      split
      · rename_i hxy
        rw [List.take_succ_cons, List.take_succ_cons, ih b, hxy]
      · rfl

/-- Places that part at the root. -/
theorem shared_eq_zero {a b : List α} (h : ∀ x, a.head? = some x → b.head? ≠ some x) : shared a b = 0 := by
  cases a with
  | nil => rfl
  | cons x a =>
    cases b with
    | nil => rfl
    | cons y b =>
      rw [shared, if_neg]
      rintro rfl
      exact h x rfl rfl

theorem shared_append (c a b : List α) : shared (c ++ a) (c ++ b) = c.length + shared a b := by
  induction c with
  | nil => exact (Nat.zero_add _).symm
  | cons x c ih =>
    rw [List.cons_append, List.cons_append, shared, if_pos rfl, ih, List.length_cons]
    omega

/-- What two places share does not count. -/
theorem relative_append (c a b : List α) : relative up (c ++ a) (c ++ b) = relative up a b := by
  have hlen : (c ++ a).length - (c.length + shared a b) = a.length - shared a b := by
    rw [List.length_append]
    omega
  rw [relative, shared_append, hlen, List.drop_append, relative, List.drop_eq_nil_of_le (Nat.le_add_right _ _),
    List.nil_append, Nat.add_sub_cancel_left]

variable {up}

theorem goAlong_append (here a b : List α) : goAlong up here (a ++ b) = goAlong up (goAlong up here a) b :=
  List.foldl_append

theorem goAlong_ups (here : List α) (n : Nat) :
    goAlong up here (List.replicate n up) = here.take (here.length - n) := by
  induction n generalizing here with
  | zero => exact List.take_length.symm
  | succ n ih =>
    rw [List.replicate_succ, goAlong, List.foldl_cons, goInto, if_pos rfl]
    refine (ih here.dropLast).trans ?_
    rw [List.dropLast_eq_take, List.take_take, List.length_take]
    congr 1
    omega

theorem goAlong_downs {steps : List α} (h : up ∉ steps) (here : List α) : goAlong up here steps = here ++ steps := by
  induction steps generalizing here with
  | nil => exact (List.append_nil here).symm
  | cons s steps ih =>
    rw [List.mem_cons, not_or] at h
    rw [goAlong, List.foldl_cons, goInto, if_neg (Ne.symm h.1)]
    refine (ih h.2 (here ++ [s])).trans ?_
    rw [List.append_assoc, List.singleton_append]

section

variable {here start path : List α} (hpath : up ∉ path)

include hpath

/-- Where a relative path leads from any place. -/
theorem goAlong_relative : goAlong up here (relative up start path) =
    here.take (here.length - (start.length - shared start path)) ++ path.drop (shared start path) := by
  rw [relative, goAlong_append, goAlong_ups, goAlong_downs fun h => hpath (List.mem_of_mem_drop h)]

theorem goAlong_relative_self : goAlong up start (relative up start path) = path := by
  rw [goAlong_relative hpath, Nat.sub_sub_self (shared_le_left start path), take_shared, List.take_append_drop]

end

/-- A path between two places below one leads between the same places below another. -/
theorem goAlong_relative_below {a b : List α} (hb : up ∉ b) (h c : List α) :
    goAlong up (h ++ a) (relative up (c ++ a) (c ++ b)) = h ++ b := by
  have hle : a.length - shared a b ≤ a.length := Nat.sub_le _ _
  have hlen : (h ++ a).length - (a.length - shared a b) = h.length + shared a b := by
    have hs := shared_le_left a b
    rw [List.length_append]
    omega
  rw [relative_append, goAlong_relative hb, hlen, List.take_length_add_append, take_shared, List.append_assoc,
    List.take_append_drop]

/-- A place that is read below `c` but lies below `h`, and a path to a place that both read alike: it leads there
exactly when the two readings lie equally deep and differ only below what is shared, or when nothing is shared
and there are steps enough to reach the root. -/
theorem goAlong_relative_other {a path : List α} (hpath : up ∉ path) (h c : List α) :
    goAlong up (h ++ a) (relative up (c ++ a) path) = path ↔
      shared (c ++ a) path = 0 ∧ h.length ≤ c.length ∨
        h.length = c.length ∧ h.take (shared (c ++ a) path) = c.take (shared (c ++ a) path) := by
  have hleft := shared_le_left (c ++ a) path
  have hright := shared_le_right (c ++ a) path
  have htake := take_shared (c ++ a) path
  rw [goAlong_relative hpath]
  generalize shared (c ++ a) path = i at hleft hright htake ⊢
  rw [List.length_append] at hleft
  have hclimb : (h ++ a).length - ((c ++ a).length - i) = h.length + i - c.length := by
    rw [List.length_append, List.length_append]
    omega
  have hsplit : (h ++ a).take (h.length + i - c.length) ++ path.drop i = path ↔
      (h ++ a).take (h.length + i - c.length) = path.take i := by
    conv_lhs => rhs; rw [← List.take_append_drop i path]
    exact List.append_left_inj _
  rw [hclimb, hsplit, ← htake]
  constructor
  · intro heq
    have hlen := congrArg List.length heq
    rw [List.length_take, List.length_take, List.length_append, List.length_append] at hlen
    by_cases hi : i = 0
    · exact .inl ⟨hi, by omega⟩
    · have hsame : h.length = c.length := by omega
      refine .inr ⟨hsame, ?_⟩
      rw [hsame, Nat.add_sub_cancel_left] at heq
      have hfront := congrArg (List.take c.length) heq
      rw [List.take_take, List.take_take, Nat.min_comm, ← List.take_take, ← List.take_take,
        List.take_left, ← hsame, List.take_left] at hfront
      exact hfront
  · rintro (⟨rfl, hle⟩ | ⟨hsame, hfront⟩)
    · rw [Nat.add_zero, Nat.sub_eq_zero_of_le hle]
      rfl
    · rw [hsame, Nat.add_sub_cancel_left, List.take_append, List.take_append, hfront, hsame]

/-- A climb from a place of which only the end `a` is known: what is left of the path that was meant. -/
theorem climb_below {c a path : List α} {i : Nat} (hi : i ≤ (c ++ a).length)
    (htake : (c ++ a).take i = path.take i) :
    List.replicate ((c ++ a).length - i - a.length) up ++ a.take (a.length - ((c ++ a).length - i)) ++ path.drop i =
      List.replicate (c.length - i) up ++ path.drop (min i c.length) := by
  rw [List.length_append] at hi ⊢
  by_cases hc : i < c.length
  · have hnone : a.length - (c.length + a.length - i) = 0 := by omega
    have hups : c.length + a.length - i - a.length = c.length - i := by omega
    rw [hnone, hups, List.take_zero, List.append_nil, Nat.min_eq_left hc.le]
  · have hrest : a.length - (c.length + a.length - i) = i - c.length := by omega
    have hups : c.length + a.length - i - a.length = 0 ∧ c.length - i = 0 := by omega
    have hpath : path = c ++ (a.take (i - c.length) ++ path.drop i) := by
      rw [List.take_append, List.take_of_length_le (Nat.le_of_not_lt hc)] at htake
      rw [← List.append_assoc, htake, List.take_append_drop]
    conv_rhs => rw [hpath]
    rw [hrest, hups.1, hups.2, Nat.min_eq_right (Nat.le_of_not_lt hc), List.drop_left, List.replicate_zero,
      List.nil_append, List.nil_append]

end Dt.Lib
