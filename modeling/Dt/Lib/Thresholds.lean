import Mathlib.Data.List.Sort
import Mathlib.Data.List.Perm.Basic
import Mathlib.Data.List.Perm.Subperm
import Mathlib.Order.Lattice

/-!
# Values for thresholds

Each threshold is to be met by a value of its own. A value that meets a threshold meets all lower
ones, so this is possible exactly when no threshold has fewer values than thresholds from it on.
-/

namespace Dt.Lib

variable {α β : Type} [LinearOrder α]

/-- Different values meet the thresholds. -/
def Met (thresholds values : List α) : Prop :=
  ∃ chosen, List.Subperm chosen values ∧ List.Forall₂ (· ≤ ·) thresholds chosen

/-- The number of entries from a threshold on. -/
def above (t : α) (l : List α) : Nat := l.countP (t ≤ ·)

theorem above_cons (t a : α) (l : List α) :
    above t (a :: l) = above t l + if t ≤ a then 1 else 0 := by
  simp [above, List.countP_cons]

theorem above_append (t : α) (l r : List α) : above t (l ++ r) = above t l + above t r :=
  List.countP_append

theorem above_perm (t : α) {l r : List α} (h : l.Perm r) : above t l = above t r := h.countP_eq _

theorem above_le_length (t : α) (l : List α) : above t l ≤ l.length := List.countP_le_length

theorem above_le_of_forall₂ (t : α) {thresholds chosen : List α}
    (h : List.Forall₂ (· ≤ ·) thresholds chosen) : above t thresholds ≤ above t chosen := by
  induction h with
  | nil => exact le_rfl
  | @cons a b as bs hab _ ih =>
    rw [above_cons, above_cons]
    by_cases ha : t ≤ a
    · rw [if_pos ha, if_pos (ha.trans hab)]
      omega
    · rw [if_neg ha]
      omega

/-- Thresholds in falling order are met one after the other by any value left that is high enough. -/
theorem met_of_sorted {thresholds values : List α} (hsorted : thresholds.Pairwise (· ≥ ·))
    (h : ∀ t ∈ thresholds, above t thresholds ≤ above t values) : Met thresholds values := by
  induction thresholds generalizing values with
  | nil => exact ⟨[], List.nil_subperm, .nil⟩
  | cons m ms ih =>
    obtain ⟨hm, hms⟩ := List.pairwise_cons.mp hsorted
    have hcount : 0 < above m values := by
      have hown := h m List.mem_cons_self
      rw [above_cons, if_pos le_rfl] at hown
      omega
    obtain ⟨v, hv, hmv⟩ := List.countP_pos_iff.mp hcount
    have hmv : m ≤ v := of_decide_eq_true hmv
    have hperm := List.perm_cons_erase hv
    have hrest : ∀ t ∈ ms, above t ms ≤ above t (values.erase v) := by
      intro t ht
      -- the value that is used up is above every lower threshold
      have htm := h t (List.mem_cons_of_mem _ ht)
      rw [above_cons, if_pos (hm t ht), above_perm t hperm, above_cons,
        if_pos ((hm t ht).trans hmv)] at htm
      omega
    obtain ⟨chosen, hsub, hmeets⟩ := ih hms hrest
    exact ⟨v :: chosen, ((List.subperm_cons v).mpr hsub).trans hperm.symm.subperm,
      .cons hmv hmeets⟩

theorem met_iff {thresholds values : List α} :
    Met thresholds values ↔ ∀ t ∈ thresholds, above t thresholds ≤ above t values := by
  constructor
  · rintro ⟨chosen, hsub, hmeets⟩ t -
    exact (above_le_of_forall₂ t hmeets).trans (hsub.countP_le _)
  · intro h
    have hperm := List.perm_insertionSort (· ≥ ·) thresholds
    have hsorted : ∀ t ∈ thresholds.insertionSort (· ≥ ·),
        above t (thresholds.insertionSort (· ≥ ·)) ≤ above t values := by
      intro t ht
      rw [above_perm t hperm]
      exact h t (hperm.mem_iff.mp ht)
    obtain ⟨chosen, hsub, hmeets⟩ := met_of_sorted (List.pairwise_insertionSort _ _) hsorted
    obtain ⟨chosen', hmeets', hperm'⟩ := List.perm_comp_forall₂ hperm.symm hmeets
    exact ⟨chosen', hperm'.subperm.trans hsub, hmeets'⟩

/-! ## Taking some of the values -/

/-- A choice of as many values above a threshold as possible. -/
theorem exists_greedy (t : α) (key : β → α) {pool : List β} {n : Nat} (hn : n ≤ pool.length) :
    ∃ taken : List β, taken.Sublist pool ∧ taken.length = n ∧
      above t (taken.map key) = min n (above t (pool.map key)) := by
  induction pool generalizing n with
  | nil => exact ⟨[], List.Sublist.refl _, (Nat.le_zero.mp hn).symm, (Nat.min_zero _).symm⟩
  | cons v vs ih =>
    rw [List.map_cons, above_cons]
    have hlen := above_le_length t (vs.map key)
    rw [List.length_map] at hlen
    by_cases hv : t ≤ key v
    · cases n with
      | zero => exact ⟨[], List.nil_sublist _, rfl, (Nat.zero_min _).symm⟩
      | succ n =>
        obtain ⟨taken, hsub, hlength, habove⟩ := ih (Nat.succ_le_succ_iff.mp hn)
        refine ⟨v :: taken, hsub.cons_cons v, by rw [List.length_cons, hlength], ?_⟩
        rw [List.map_cons, above_cons, if_pos hv, habove]
        omega
    · rw [if_neg hv]
      by_cases hall : n ≤ vs.length
      · obtain ⟨taken, hsub, hlength, habove⟩ := ih hall
        exact ⟨taken, hsub.cons v, hlength, habove⟩
      · refine ⟨v :: vs, List.Sublist.refl _, ?_, ?_⟩
        · rw [List.length_cons] at hn ⊢
          omega
        · rw [List.map_cons, above_cons, if_neg hv]
          omega

/-- Whatever is taken from a pool, what is left meets the thresholds exactly when it does after the
highest values are taken, for each threshold. -/
theorem met_after_taking_iff (key : β → α) {values pool : List β} (hpool : pool.Sublist values)
    (thresholds : List α) (n : Nat) :
    (∀ taken left : List β, taken.Sublist pool → taken.length = n → values.Perm (taken ++ left) →
      Met thresholds (left.map key)) ↔
    (n ≤ pool.length → ∀ t ∈ thresholds,
      above t thresholds + min n (above t (pool.map key)) ≤ above t (values.map key)) := by
  have hsplit : ∀ t (taken left : List β), values.Perm (taken ++ left) →
      above t (values.map key) = above t (taken.map key) + above t (left.map key) := by
    intro t taken left hperm
    rw [above_perm t (hperm.map key), List.map_append, above_append]
  constructor
  · intro h hn t ht
    obtain ⟨taken, hsub, hlength, habove⟩ := exists_greedy t key hn
    obtain ⟨left, hperm⟩ := (hsub.trans hpool).exists_perm_append
    have hmet := met_iff.mp (h taken left hsub hlength hperm) t ht
    rw [hsplit t taken left hperm, habove]
    omega
  · intro h taken left hsub hlength hperm
    refine met_iff.mpr fun t ht => ?_
    have hbound := h (hlength ▸ hsub.length_le) t ht
    have hmax : above t (taken.map key) ≤ min n (above t (pool.map key)) := by
      refine le_min ?_ (hsub.map key).countP_le
      exact (above_le_length t _).trans (by rw [List.length_map, hlength])
    rw [hsplit t taken left hperm] at hbound
    omega

end Dt.Lib
