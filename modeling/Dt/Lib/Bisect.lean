import Mathlib.Data.List.Sort
import Mathlib.Data.List.Lex
import Mathlib.Order.Lattice

/-!
# Counting in a sorted list

Two bisections count the values between two bounds of a sorted list. The texts that begin with a
prefix are the ones between the prefix and the prefix followed by a character above all others, so
two bisections count them too.
-/

namespace Dt.Lib

variable {α : Type} [LinearOrder α]

/-- `bisect.bisect_left` -/
def bisectLeft (values : List α) (x : α) : Nat := (values.takeWhile (· < x)).length

/-- `bisect.bisect_right` -/
def bisectRight (values : List α) (x : α) : Nat := (values.takeWhile (· ≤ x)).length

/-- What holds of a first part of a sorted list only is counted by that part. -/
theorem length_takeWhile_of_sorted {values : List α} (h : values.Pairwise (· ≤ ·)) {p : α → Bool}
    (hp : ∀ a b, a ≤ b → p b = true → p a = true) : (values.takeWhile p).length = values.countP p := by
  induction values with
  | nil => rfl
  | cons v vs ih =>
    obtain ⟨hv, hvs⟩ := List.pairwise_cons.mp h
    by_cases hpv : p v = true
    · rw [List.takeWhile_cons_of_pos hpv, List.countP_cons_of_pos hpv, List.length_cons, ih hvs]
    · have hnone : vs.countP p = 0 := List.countP_eq_zero.mpr fun w hw hpw => hpv (hp v w (hv w hw) hpw)
      rw [List.takeWhile_cons_of_neg hpv, List.countP_cons_of_neg hpv, hnone]
      rfl

theorem bisectLeft_eq {values : List α} (h : values.Pairwise (· ≤ ·)) (x : α) :
    bisectLeft values x = values.countP (· < x) :=
  length_takeWhile_of_sorted h fun _ _ hab hb => decide_eq_true (hab.trans_lt (of_decide_eq_true hb))

theorem bisectRight_eq {values : List α} (h : values.Pairwise (· ≤ ·)) (x : α) :
    bisectRight values x = values.countP (· ≤ x) :=
  length_takeWhile_of_sorted h fun _ _ hab hb => decide_eq_true (hab.trans (of_decide_eq_true hb))

/-- The values between two bounds. -/
theorem bisect_between {values : List α} (h : values.Pairwise (· ≤ ·)) {x y : α} (hxy : x ≤ y) :
    bisectRight values y - bisectLeft values x = values.countP fun v => x ≤ v ∧ v ≤ y := by
  rw [bisectLeft_eq h, bisectRight_eq h]
  clear h
  induction values with
  | nil => rfl
  | cons v vs ih =>
    have hmono : vs.countP (· < x) ≤ vs.countP (· ≤ y) := by
      refine List.countP_mono_left fun w _ hw => decide_eq_true ?_
      exact (of_decide_eq_true hw).le.trans hxy
    rw [List.countP_cons, List.countP_cons, List.countP_cons, ← ih]
    rcases lt_or_ge v x with hlt | hge
    · have hle : v ≤ y := hlt.le.trans hxy
      simp [hlt, hle, not_le.mpr hlt]
    · have hnot : ¬ v < x := not_lt.mpr hge
      by_cases hle : v ≤ y
      · simp only [hnot, hle, hge, decide_true, decide_false, and_self, if_true, Bool.false_eq_true,
          if_false, Nat.add_zero]
        omega
      · simp [hnot, hle]

theorem le_append (p s : List α) : p ≤ p ++ s := by
  rw [← not_lt]
  induction p with
  | nil => exact List.not_lt_nil _
  | cons a p ih =>
    rw [List.cons_append, List.cons_lt_cons_iff]
    rintro (hlt | ⟨-, hlt⟩)
    · exact lt_irrefl _ hlt
    · exact ih hlt

/-- The lists that begin with a prefix are the ones up to the prefix with a top element. -/
theorem between_iff_prefix {top : α} {p v : List α} (h : ∀ c ∈ v, c < top) :
    p ≤ v ∧ v ≤ p ++ [top] ↔ p <+: v := by
  rw [← not_lt, ← not_lt]
  induction p generalizing v with
  | nil =>
    refine iff_of_true ⟨List.not_lt_nil v, ?_⟩ List.nil_prefix
    cases v with
    | nil => exact List.not_lt_nil _
    | cons c v =>
      have hc : ¬ top < c := (h c List.mem_cons_self).not_gt
      rw [List.nil_append, List.cons_lt_cons_iff]
      rintro (hlt | ⟨rfl, -⟩)
      · exact hc hlt
      · exact lt_irrefl _ (h _ List.mem_cons_self)
  | cons a p ih =>
    cases v with
    | nil => exact iff_of_false (fun hand => hand.1 (List.nil_lt_cons _ _)) fun hp =>
        List.cons_ne_nil _ _ (List.prefix_nil.mp hp)
    | cons c v =>
      rw [List.cons_append, List.cons_lt_cons_iff, List.cons_lt_cons_iff, List.cons_prefix_cons,
        ← ih fun d hd => h d (List.mem_cons_of_mem _ hd)]
      rcases lt_trichotomy a c with hac | rfl | hca
      · exact iff_of_false (fun hand => hand.2 (.inl hac)) fun heq => absurd heq.1 hac.ne
      · simp
      · exact iff_of_false (fun hand => hand.1 (.inl hca)) fun heq => absurd heq.1 hca.ne'

/-- In a list without repetition only one value passes. -/
theorem countP_eq_one_iff {β : Type} {l : List β} {p : β → Bool} {a : β} (hnodup : l.Nodup)
    (ha : a ∈ l) (hp : p a = true) : l.countP p = 1 ↔ ∀ b ∈ l, p b = true → b = a := by
  rw [List.countP_eq_length_filter, List.length_eq_one_iff]
  have hmem : a ∈ l.filter p := List.mem_filter.mpr ⟨ha, hp⟩
  constructor
  · rintro ⟨c, hc⟩ b hb hpb
    have hb' : b ∈ l.filter p := List.mem_filter.mpr ⟨hb, hpb⟩
    rw [hc, List.mem_singleton] at hmem hb'
    exact hb'.trans hmem.symm
  · intro h
    refine ⟨a, List.perm_singleton.mp ?_⟩
    refine (List.perm_ext_iff_of_nodup (hnodup.filter p) (List.nodup_singleton a)).mpr fun b => ?_
    rw [List.mem_singleton]
    constructor
    · intro hb
      obtain ⟨hb, hpb⟩ := List.mem_filter.mp hb
      exact h b hb hpb
    · rintro rfl
      exact hmem

end Dt.Lib
