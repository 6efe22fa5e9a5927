import Mathlib.Data.List.Sort
import Mathlib.Data.List.Forall2

/-!
# Sorting by a key

Items with different keys have one order, whatever order they are given in. Items that are changed
without their keys sort to the changed items.
-/

namespace Dt.Lib

variable {α β κ : Type} [LinearOrder κ]

def sortBy (key : α → κ) (l : List α) : List α := l.insertionSort fun a b => key a ≤ key b

theorem perm_sortBy (key : α → κ) (l : List α) : (sortBy key l).Perm l := List.perm_insertionSort _ l

theorem pairwise_sortBy (key : α → κ) (l : List α) :
    (sortBy key l).Pairwise fun a b => key a ≤ key b := by
  have htotal : Std.Total (fun a b : α => key a ≤ key b) := ⟨fun a b => le_total (key a) (key b)⟩
  have htrans : IsTrans α fun a b => key a ≤ key b := ⟨fun _ _ _ hab hbc => le_trans hab hbc⟩
  exact List.pairwise_insertionSort _ _

theorem sortBy_eq_of_perm {key : α → κ} {l l' : List α} (hkeys : (l.map key).Nodup)
    (h : l.Perm l') : sortBy key l = sortBy key l' := by
  have hperm := ((perm_sortBy key l).trans h).trans (perm_sortBy key l').symm
  refine hperm.eq_of_pairwise (fun a b ha hb hab hba => ?_) (pairwise_sortBy key l)
    (pairwise_sortBy key l')
  have ha' : a ∈ l := (perm_sortBy key l).mem_iff.mp ha
  have hb' : b ∈ l := h.mem_iff.mpr ((perm_sortBy key l').mem_iff.mp hb)
  exact List.inj_on_of_nodup_map hkeys ha' hb' (le_antisymm hab hba)

theorem map_sortBy (key : α → κ) (l : List α) : (sortBy key l).map key = (l.map key).insertionSort (· ≤ ·) :=
  List.map_insertionSort _ _ key l fun _ _ _ _ => Iff.rfl

variable {R : α → β → Prop} {key : α → κ} {key' : β → κ}

theorem forall₂_orderedInsert (hR : ∀ a b, R a b → key a = key' b) {a : α} {b : β} (hab : R a b)
    {l : List α} {l' : List β} (h : List.Forall₂ R l l') :
    List.Forall₂ R (l.orderedInsert (fun a b => key a ≤ key b) a)
      (l'.orderedInsert (fun a b => key' a ≤ key' b) b) := by
  induction h with
  | nil => exact .cons hab .nil
  | @cons c d cs ds hcd hrest ih =>
    rw [List.orderedInsert_cons, List.orderedInsert_cons, hR a b hab, hR c d hcd]
    split
    · exact .cons hab (.cons hcd hrest)
    · exact .cons hcd ih

/-- Sorting goes along with a change that keeps the keys. -/
theorem forall₂_sortBy (hR : ∀ a b, R a b → key a = key' b) {l : List α} {l' : List β}
    (h : List.Forall₂ R l l') : List.Forall₂ R (sortBy key l) (sortBy key' l') := by
  induction h with
  | nil => exact .nil
  | cons hab _ ih => exact forall₂_orderedInsert hR hab ih

/-! ## Entries with different keys -/

theorem lookup_eq_some_iff_mem [BEq β] [LawfulBEq β] {l : List (β × α)} (hkeys : (l.map Prod.fst).Nodup)
    {name : β} {value : α} : l.lookup name = some value ↔ (name, value) ∈ l := by
  induction l with
  | nil => simp
  | cons e rest ih =>
    obtain ⟨n, v⟩ := e
    obtain ⟨hnew, hrest⟩ := List.nodup_cons.mp hkeys
    by_cases hn : name = n
    · subst hn
      rw [List.lookup_cons_self, Option.some_inj, List.mem_cons]
      constructor
      · rintro rfl
        exact .inl rfl
      · rintro (heq | hmem)
        · exact (Prod.mk.inj heq).2.symm
        · exact absurd (List.mem_map_of_mem (f := Prod.fst) hmem) hnew
    · rw [List.lookup_cons, beq_false_of_ne hn, List.mem_cons, ih hrest]
      constructor
      · exact .inr
      · rintro (heq | hmem)
        · exact absurd (Prod.mk.inj heq).1 hn
        · exact hmem

end Dt.Lib
