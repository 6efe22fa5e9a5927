import Mathlib.Data.List.Sort
import Dt.Lib.JsonText

/-!
# Documents with sorted keys

A value with sorted keys is kept by sorting, its members are those of the value it was sorted from, and it is read
back from its text when a newline follows.
-/

namespace Dt.Lib

variable {F : Type}

theorem sortedPairs_eq_self {pairs : List (String × Json F)} (h : ∀ p ∈ pairs, p.2.sorted = p.2) :
    sortedPairs pairs = pairs := by
  induction pairs with
  | nil => rfl
  | cons p pairs ih =>
    rw [sortedPairs, h p List.mem_cons_self, ih fun q hq => h q (List.mem_cons_of_mem p hq)]

mutual

theorem sorted_sorted : ∀ v : Json F, v.sorted.sorted = v.sorted
  | .null => rfl
  | .bool _ => rfl
  | .int _ => rfl
  | .float _ => rfl
  | .nonfinite => rfl
  | .str _ => rfl
  | .arr items => by rw [Json.sorted, Json.sorted, sortedItems_sorted items]
  | .obj pairs => by
    have hmem : ∀ p ∈ (sortedPairs pairs).insertionSort fun a b => a.1 ≤ b.1, p.2.sorted = p.2 := fun p hp =>
      sortedPairs_sorted pairs p (List.mem_insertionSort _ |>.mp hp)
    rw [Json.sorted, Json.sorted, sortedPairs_eq_self hmem]
    exact congrArg Json.obj (List.pairwise_insertionSort (fun a b : String × Json F => a.1 ≤ b.1) _).insertionSort_eq

theorem sortedItems_sorted : ∀ items : List (Json F), sortedItems (sortedItems items) = sortedItems items
  | [] => rfl
  | v :: vs => by rw [sortedItems, sortedItems, sorted_sorted v, sortedItems_sorted vs]

theorem sortedPairs_sorted : ∀ (pairs : List (String × Json F)), ∀ p ∈ sortedPairs pairs, p.2.sorted = p.2
  | [], p, hp => by cases hp
  | (k, v) :: ps, p, hp => by
    rw [sortedPairs] at hp
    rcases List.mem_cons.mp hp with rfl | hp
    · exact sorted_sorted v
    · exact sortedPairs_sorted ps p hp

end

theorem length_sortedItems (items : List (Json F)) : (sortedItems items).length = items.length := by
  induction items with
  | nil => rfl
  | cons v items ih => rw [sortedItems, List.length_cons, List.length_cons, ih]

section

variable {pairs : List (String × Json F)}

/-- The members of an object, by rising keys. -/
def sortedMembers (pairs : List (String × Json F)) : List (String × Json F) :=
  (sortedPairs pairs).insertionSort fun a b => a.1 ≤ b.1

theorem keys_sortedMembers : ((sortedMembers pairs).map Prod.fst).Perm (pairs.map Prod.fst) := by
  rw [← keys_sortedPairs pairs]
  exact (List.perm_insertionSort _ _).map Prod.fst

theorem lookup_sortedMembers (h : (pairs.map Prod.fst).Nodup) (k : String) :
    (sortedMembers pairs).lookup k = (pairs.lookup k).map Json.sorted := by
  rw [← lookup_sortedPairs]
  exact lookup_perm (keys_sortedMembers.nodup_iff.mpr h) (List.perm_insertionSort _ _) k

end

/-- A value is read back from its line. -/
theorem loadsBy_line [FloatText F] {hooks : Hooks F} (hkeeps : hooks.Keeps) {v : Json F} (h : v.plain = true) :
    loadsBy hooks (v.render .compact ++ ['\n']) = some v := by
  have hstops : Stops ['\n'] := stops_of (by decide) []
  have hfuel : v.weight ≤ (v.render .compact ++ ['\n']).length + 1 := by
    have := weight_le v h
    rw [List.length_append]
    omega
  have hload := loadValueBy_render hkeeps v h _ hfuel ['\n'] hstops
  have hbegin := (begins_render h).append ['\n']
  unfold loadsBy
  rw [hbegin, hload]
  rfl

end Dt.Lib
