import Mathlib

/-!
# The newest record of each key

Records are grouped by a key and ordered by a rank. `Newest` is the record of highest rank that a
set holds for a key, and a table tracks a set at a key when it stores such a record, or nothing
if the set has none. A table can be kept without the set: adding a record takes one comparison,
and dropping a record that is not stored takes nothing. What a table alone cannot do is replace a
stored record by a lower one; `Tracks.replace` says what has to be known of the other records.
-/

namespace Dt.Lib

variable {ρ κ τ : Type*} [LinearOrder τ] {key : ρ → κ} {rank : ρ → τ}

/-- `r` has the highest rank of the records of `S` with the key `k`. -/
structure Newest (key : ρ → κ) (rank : ρ → τ) (S : Set ρ) (k : κ) (r : ρ) : Prop where
  mem : r ∈ S
  key_eq : key r = k
  le : ∀ r' ∈ S, key r' = k → rank r' ≤ rank r

theorem Newest.unique {S : Set ρ} (hS : Set.InjOn rank S) {k : κ} {r r' : ρ}
    (h : Newest key rank S k r) (h' : Newest key rank S k r') : r = r' :=
  hS h.mem h'.mem (le_antisymm (h'.le r h.mem h.key_eq) (h.le r' h'.mem h'.key_eq))

/-- A record goes in over a missing or a lower one. -/
def newer (rank : ρ → τ) (c : ρ) : Option ρ → Bool
  | none => true
  | some p => decide (rank p < rank c)

/-- The table stores a newest record of the key, and nothing only when there is none. -/
structure Tracks (key : ρ → κ) (rank : ρ → τ) (m : κ → Option ρ) (S : Set ρ) (k : κ) :
    Prop where
  newest : ∀ r, m k = some r → Newest key rank S k r
  empty : m k = none → ∀ r ∈ S, key r ≠ k

variable {m m' : κ → Option ρ} {S S' : Set ρ} {k : κ} {c o : ρ}

theorem tracks_empty : Tracks key rank (fun _ => none) ∅ k :=
  ⟨fun _ h => (nomatch h), fun _ r hr => absurd hr (Set.notMem_empty r)⟩

/-- Two tables of one set agree. -/
theorem Tracks.eq (hS : Set.InjOn rank S) (h : Tracks key rank m S k)
    (h' : Tracks key rank m' S k) : m k = m' k := by
  cases hm : m k with
  | none =>
    cases hm' : m' k with
    | none => rfl
    | some r' =>
      have hr' := h'.newest r' hm'
      exact absurd hr'.key_eq (h.empty hm r' hr'.mem)
  | some r =>
    have hr := h.newest r hm
    cases hm' : m' k with
    | none => exact absurd hr.key_eq (h'.empty hm' r hr.mem)
    | some r' => rw [hr.unique hS (h'.newest r' hm')]

/-- Only the records of a key matter to the table there. -/
theorem Tracks.congr (h : Tracks key rank m S k) (hm : m' k = m k)
    (hS : ∀ r, key r = k → (r ∈ S' ↔ r ∈ S)) : Tracks key rank m' S' k where
  newest r hr := by
    have hn := h.newest r (hm ▸ hr)
    refine ⟨(hS r hn.key_eq).mpr hn.mem, hn.key_eq, fun r' hr' hk => ?_⟩
    exact hn.le r' ((hS r' hk).mp hr') hk
  empty hn r hr hk := h.empty (hm ▸ hn) r ((hS r hk).mp hr) hk

/-- The table after one more record was seen. -/
def addNewest [DecidableEq κ] (key : ρ → κ) (rank : ρ → τ) (m : κ → Option ρ) (c : ρ) :
    κ → Option ρ :=
  if newer rank c (m (key c)) then Function.update m (key c) (some c) else m

/-- Adding a record takes one comparison, with the stored one. -/
theorem Tracks.add [DecidableEq κ] (h : Tracks key rank m S k) :
    Tracks key rank (addNewest key rank m c) (insert c S) k := by
  unfold addNewest
  rcases eq_or_ne k (key c) with rfl | hk
  · cases hp : m (key c) with
    | none =>
      simp only [newer, if_true]
      constructor
      · intro r hr
        obtain rfl : c = r := by simpa using hr
        refine ⟨Set.mem_insert c S, rfl, fun r' hr' hk => ?_⟩
        rcases Set.mem_insert_iff.mp hr' with rfl | hmem
        · exact le_refl _
        · exact absurd hk (h.empty hp r' hmem)
      · intro hn
        simp at hn
    | some p =>
      have hn := h.newest p hp
      by_cases hlt : rank p < rank c
      · simp only [newer, hlt, decide_true, if_true]
        constructor
        · intro r hr
          obtain rfl : c = r := by simpa using hr
          refine ⟨Set.mem_insert c S, rfl, fun r' hr' hk => ?_⟩
          rcases Set.mem_insert_iff.mp hr' with rfl | hmem
          · exact le_refl _
          · exact (hn.le r' hmem hk).trans hlt.le
        · intro hn
          simp at hn
      · simp only [newer, hlt, decide_false, Bool.false_eq_true, if_false]
        constructor
        · intro r hr
          obtain rfl : p = r := Option.some.inj (hp.symm.trans hr)
          refine ⟨Set.mem_insert_of_mem c hn.mem, hn.key_eq, fun r' hr' hk => ?_⟩
          rcases Set.mem_insert_iff.mp hr' with rfl | hmem
          · exact not_lt.mp hlt
          · exact hn.le r' hmem hk
        · intro he
          rw [hp] at he
          cases he
  · refine h.congr ?_ fun r hr => ?_
    · split
      · exact Function.update_of_ne hk _ _
      · rfl
    · rw [Set.mem_insert_iff, or_iff_right]
      rintro rfl
      exact hk hr.symm

/-- Dropping a record that is not stored changes nothing. -/
theorem Tracks.drop (h : Tracks key rank m S k) (ho : m k ≠ some o) :
    Tracks key rank m (S \ {o}) k where
  newest r hr := by
    have hn := h.newest r hr
    refine ⟨⟨hn.mem, ?_⟩, hn.key_eq, fun r' hr' hk => hn.le r' hr'.1 hk⟩
    rintro rfl
    exact ho hr
  empty hn r hr := h.empty hn r hr.1

/-- The stored record may be replaced by one that is above all the others. -/
theorem Tracks.replace [DecidableEq κ] (hc : key c = k)
    (hle : ∀ r ∈ S, r ≠ o → key r = k → rank r ≤ rank c) :
    Tracks key rank (Function.update m k (some c)) (insert c (S \ {o})) k where
  newest r hr := by
    obtain rfl : c = r := by simpa using hr
    refine ⟨Set.mem_insert c _, hc, fun r' hr' hk => ?_⟩
    rcases Set.mem_insert_iff.mp hr' with rfl | hmem
    · exact le_refl _
    · exact hle r' hmem.1 hmem.2 hk
  empty hn := by simp at hn

/-- A list is as long as its classes together. -/
theorem length_eq_sum_classes {α β : Type*} [DecidableEq β] (f : α → β) (l : List α)
    {names : List β} (hn : names.Nodup) (h : ∀ x ∈ l, f x ∈ names) :
    l.length = (names.map fun b => (l.filter fun x => f x = b).length).sum := by
  induction names generalizing l with
  | nil =>
    cases l with
    | nil => rfl
    | cons x l => exact absurd (h x List.mem_cons_self) List.not_mem_nil
  | cons b names ih =>
    obtain ⟨hb, hn⟩ := List.nodup_cons.mp hn
    have hrest : ∀ x ∈ l.filter (fun x => !decide (f x = b)), f x ∈ names := by
      intro x hx
      simp only [List.mem_filter, Bool.not_eq_true', decide_eq_false_iff_not] at hx
      exact (List.mem_cons.mp (h x hx.1)).resolve_left hx.2
    rw [List.length_eq_length_filter_add fun x => decide (f x = b), List.map_cons, List.sum_cons,
      ih _ hn hrest]
    congr 2
    refine List.map_congr_left fun b' hb' => ?_
    rw [List.filter_filter]
    congr 1
    refine List.filter_congr fun x _ => ?_
    have hne : b' ≠ b := fun he => hb (he ▸ hb')
    by_cases hx : f x = b'
    · simp [hx, hne]
    · simp [hx]

end Dt.Lib
