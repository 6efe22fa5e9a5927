import Mathlib.Data.List.Dedup
import Mathlib.Data.List.Sort
import Mathlib.Algebra.BigOperators.Group.List.Basic
import Mathlib.Algebra.Order.BigOperators.Group.List
import Mathlib.Tactic.Linarith

/-!
# Counters

A counter is a list of keys with their counts, in the order in which the keys came. It stands for a
function that is zero outside of its keys; adding counts adds the functions, and the counter that
is sorted by its keys is determined by its function.
-/

namespace Dt.Lib

variable {κ : Type} [DecidableEq κ]

/-- `counter[key] += count` -/
def countUp (counter : List (κ × Int)) (p : κ × Int) : List (κ × Int) :=
  if p.1 ∈ counter.map Prod.fst then
    counter.map fun q => if q.1 = p.1 then (q.1, q.2 + p.2) else q
  else counter ++ [p]

/-- The counter holds the nonzero values of a function. -/
structure Tallies (counter : List (κ × Int)) (f : κ → Int) : Prop where
  nodup : (counter.map Prod.fst).Nodup
  mem : ∀ key n, (key, n) ∈ counter ↔ f key = n ∧ n ≠ 0

/-- What some counts add to a key. -/
def added (pairs : List (κ × Int)) (key : κ) : Int :=
  (pairs.map fun p => if p.1 = key then p.2 else 0).sum

variable {counter : List (κ × Int)} {f g : κ → Int}

omit [DecidableEq κ] in
theorem Tallies.empty : Tallies ([] : List (κ × Int)) fun _ => 0 where
  nodup := List.nodup_nil
  mem key n := by
    simp only [List.not_mem_nil, false_iff, not_and, not_not]
    exact fun h => h.symm

omit [DecidableEq κ] in
theorem Tallies.mem_keys (h : Tallies counter f) {key : κ} :
    key ∈ counter.map Prod.fst ↔ f key ≠ 0 := by
  constructor
  · rintro hkey
    obtain ⟨p, hp, rfl⟩ := List.mem_map.mp hkey
    obtain ⟨hf, hne⟩ := (h.mem p.1 p.2).mp hp
    exact hf ▸ hne
  · exact fun hne => List.mem_map_of_mem ((h.mem key (f key)).mpr ⟨rfl, hne⟩)

/-- One positive count more. -/
theorem Tallies.countUp (h : Tallies counter f) (hf : ∀ key, 0 ≤ f key) {p : κ × Int}
    (hp : 0 < p.2) :
    Tallies (Lib.countUp counter p) fun key => f key + if p.1 = key then p.2 else 0 := by
  unfold Lib.countUp
  split
  · rename_i hin
    have hkeys : (counter.map fun q => if q.1 = p.1 then (q.1, q.2 + p.2) else q).map Prod.fst =
        counter.map Prod.fst := by
      rw [List.map_map]
      refine List.map_congr_left fun q _ => ?_
      rw [Function.comp_apply]
      split <;> rfl
    refine ⟨hkeys ▸ h.nodup, fun key n => ?_⟩
    rw [List.mem_map]
    by_cases hkey : p.1 = key
    · subst hkey
      have hsum : f p.1 + p.2 ≠ 0 := by linarith [hf p.1]
      rw [if_pos rfl]
      constructor
      · rintro ⟨q, hq, heq⟩
        obtain ⟨hfq, -⟩ := (h.mem q.1 q.2).mp hq
        by_cases hqp : q.1 = p.1
        · rw [if_pos hqp] at heq
          obtain ⟨-, rfl⟩ := Prod.mk.inj heq
          rw [← hqp, hfq]
          rw [← hqp, hfq] at hsum
          exact ⟨rfl, hsum⟩
        · rw [if_neg hqp] at heq
          exact absurd (congrArg Prod.fst heq) hqp
      · rintro ⟨rfl, -⟩
        have hne : f p.1 ≠ 0 := h.mem_keys.mp hin
        exact ⟨(p.1, f p.1), (h.mem p.1 (f p.1)).mpr ⟨rfl, hne⟩, by rw [if_pos rfl]⟩
    · rw [if_neg hkey, add_zero]
      rw [← h.mem]
      constructor
      · rintro ⟨q, hq, heq⟩
        by_cases hqp : q.1 = p.1
        · rw [if_pos hqp] at heq
          exact absurd (hqp ▸ congrArg Prod.fst heq) hkey
        · rw [if_neg hqp] at heq
          exact heq ▸ hq
      · exact fun hq => ⟨(key, n), hq, if_neg fun hk => hkey hk.symm⟩
  · rename_i hout
    have hzero : f p.1 = 0 := by
      by_contra hne
      exact hout (h.mem_keys.mpr hne)
    refine ⟨?_, fun key n => ?_⟩
    · rw [List.map_append, List.nodup_append]
      exact ⟨h.nodup, List.nodup_singleton _, fun a ha b hb heq =>
        hout (List.mem_singleton.mp hb ▸ heq ▸ ha)⟩
    · rw [List.mem_append, List.mem_singleton, h.mem]
      by_cases hkey : p.1 = key
      · subst hkey
        rw [if_pos rfl, hzero, zero_add]
        constructor
        · rintro (⟨rfl, hne⟩ | heq)
          · exact absurd rfl hne
          · obtain rfl := congrArg Prod.snd heq
            exact ⟨rfl, hp.ne'⟩
        · rintro ⟨rfl, -⟩
          exact .inr rfl
      · rw [if_neg hkey, add_zero]
        exact or_iff_left fun heq => hkey (congrArg Prod.fst heq).symm

/-- Many positive counts more. -/
theorem Tallies.foldl (h : Tallies counter f) (hf : ∀ key, 0 ≤ f key) {pairs : List (κ × Int)}
    (hpairs : ∀ p ∈ pairs, 0 < p.2) :
    Tallies (pairs.foldl Lib.countUp counter) fun key => f key + added pairs key := by
  induction pairs generalizing counter f with
  | nil => simpa [added] using h
  | cons p pairs ih =>
    have hp := hpairs p List.mem_cons_self
    have hstep := ih (h.countUp hf hp)
      (fun key => by
        have := hf key
        split <;> omega)
      (fun q hq => hpairs q (List.mem_cons_of_mem _ hq))
    simpa [added, add_assoc] using hstep

omit [DecidableEq κ] in
/-- Counters of one function have the same entries. -/
theorem Tallies.perm {other : List (κ × Int)} (h : Tallies counter f) (h' : Tallies other f) :
    counter.Perm other :=
  (List.perm_ext_iff_of_nodup h.nodup.of_map h'.nodup.of_map).mpr fun p =>
    (h.mem p.1 p.2).trans (h'.mem p.1 p.2).symm

omit [DecidableEq κ] in
/-- A counter that is sorted by its keys is determined by its function. -/
theorem Tallies.sorted_eq [LinearOrder κ] {other : List (κ × Int)} (h : Tallies counter f)
    (h' : Tallies other f) :
    (counter.insertionSort fun a b => a.1 ≤ b.1) = other.insertionSort fun a b => a.1 ≤ b.1 := by
  have htotal : Std.Total (fun a b : κ × Int => a.1 ≤ b.1) := ⟨fun a b => le_total a.1 b.1⟩
  have htrans : IsTrans (κ × Int) fun a b => a.1 ≤ b.1 := ⟨fun _ _ _ hab hbc => le_trans hab hbc⟩
  have hperm := ((List.perm_insertionSort (fun a b : κ × Int => a.1 ≤ b.1) counter).trans
    (h.perm h')).trans (List.perm_insertionSort (fun a b : κ × Int => a.1 ≤ b.1) other).symm
  refine hperm.eq_of_pairwise (fun a b ha hb hab hba => ?_)
    (List.pairwise_insertionSort _ _) (List.pairwise_insertionSort _ _)
  have ha' : a ∈ counter := (List.mem_insertionSort _).mp ha
  have hb' : b ∈ counter := (h.perm h').mem_iff.mpr ((List.mem_insertionSort _).mp hb)
  exact List.inj_on_of_nodup_map h.nodup ha' hb' (le_antisymm hab hba)

/-! ## Counting values -/

/-- The values with their counts. -/
def countsOf (values : List κ) : List (κ × Int) :=
  values.dedup.map fun value => (value, (values.count value : Int))

theorem tallies_countsOf (values : List κ) :
    Tallies (countsOf values) fun key => (values.count key : Int) where
  nodup := by
    rw [countsOf, List.map_map]
    exact (List.map_id values.dedup).symm ▸ values.nodup_dedup
  mem key n := by
    simp only [countsOf, List.mem_map, List.mem_dedup, Prod.mk.injEq]
    constructor
    · rintro ⟨value, hvalue, rfl, rfl⟩
      exact ⟨rfl, by exact_mod_cast (List.count_pos_iff.mpr hvalue).ne'⟩
    · rintro ⟨rfl, hne⟩
      exact ⟨key, List.count_pos_iff.mp (Nat.pos_of_ne_zero (by exact_mod_cast hne)), rfl, rfl⟩

theorem added_of_notMem {pairs : List (κ × Int)} {key : κ} (h : key ∉ pairs.map Prod.fst) :
    added pairs key = 0 := by
  refine List.sum_eq_zero fun x hx => ?_
  obtain ⟨p, hp, rfl⟩ := List.mem_map.mp hx
  exact if_neg fun heq : p.1 = key => h (heq ▸ List.mem_map_of_mem hp)

theorem added_of_mem {pairs : List (κ × Int)} (hnodup : (pairs.map Prod.fst).Nodup) {key : κ}
    {n : Int} (h : (key, n) ∈ pairs) : added pairs key = n := by
  induction pairs with
  | nil => cases h
  | cons p pairs ih =>
    rw [List.map_cons, List.nodup_cons] at hnodup
    have hcons : added (p :: pairs) key = (if p.1 = key then p.2 else 0) + added pairs key :=
      List.sum_cons
    rcases List.mem_cons.mp h with rfl | h
    · rw [hcons, if_pos rfl, added_of_notMem hnodup.1, add_zero]
    · have hne : p.1 ≠ key := fun heq => hnodup.1 (heq ▸ List.mem_map_of_mem h)
      rw [hcons, if_neg hne, ih hnodup.2 h, zero_add]

/-- What a counter adds is its function. -/
theorem Tallies.added (h : Tallies counter f) (key : κ) : Lib.added counter key = f key := by
  by_cases hkey : key ∈ counter.map Prod.fst
  · obtain ⟨p, hp, rfl⟩ := List.mem_map.mp hkey
    rw [added_of_mem h.nodup hp]
    exact ((h.mem p.1 p.2).mp hp).1.symm
  · rw [added_of_notMem hkey]
    by_contra hne
    exact hkey (h.mem_keys.mpr (Ne.symm hne))

/-- Counts of some values, added to the counts of others. -/
theorem tallies_append {pairs : List (κ × Int)} {values others : List κ}
    (h : Tallies counter fun key => (values.count key : Int))
    (hpairs : Tallies pairs fun key => (others.count key : Int)) :
    Tallies (pairs.foldl Lib.countUp counter) fun key => ((values ++ others).count key : Int) := by
  have hpos : ∀ p ∈ pairs, 0 < p.2 := by
    intro p hp
    obtain ⟨heq, hne⟩ := (hpairs.mem p.1 p.2).mp hp
    have hnonneg : (0 : Int) ≤ (others.count p.1 : Int) := Int.natCast_nonneg _
    omega
  have hfold := h.foldl (fun key => Int.natCast_nonneg _) hpos
  simpa only [hpairs.added, List.count_append, Nat.cast_add] using hfold

end Dt.Lib
