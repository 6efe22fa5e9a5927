import Mathlib.Data.List.Basic

/-!
# One pass over a list

A pass visits the items of a list in order with a state that it carries along. Each visit gives a
verdict, and a verdict that `stop` accepts ends the pass. `walk` returns the last state and the
visited items with their verdicts; `Trail` says that such a record leads from one state to another,
whether or not the pass was stopped there.

A fact about the state at one visit is read off the visits before it: `Trail.earlier` gives the
state at two visits of one record and relates them by any preorder that every visit respects.
-/

namespace Dt.Lib

variable {σ α β : Type*} {visit : Nat → σ → α → σ × β}

/-- Visit the items in order; the number is the position of the first item. -/
def walk (visit : Nat → σ → α → σ × β) (stop : β → Bool) :
    Nat → σ → List α → σ × List (α × β)
  | _, s, [] => (s, [])
  | i, s, a :: as =>
    let turn := visit i s a
    if stop turn.2 then (turn.1, [(a, turn.2)])
    else
      let rest := walk visit stop (i + 1) turn.1 as
      (rest.1, (a, turn.2) :: rest.2)

/-- The visits lead from the first state to the second. -/
def Trail (visit : Nat → σ → α → σ × β) : Nat → σ → List (α × β) → σ → Prop
  | _, s, [], t => s = t
  | i, s, (a, b) :: visits, t =>
    (visit i s a).2 = b ∧ Trail visit (i + 1) (visit i s a).1 visits t

theorem walk_trail (stop : β → Bool) :
    ∀ (i : Nat) (s : σ) (as : List α),
      Trail visit i s (walk visit stop i s as).2 (walk visit stop i s as).1
  | _, _, [] => rfl
  | i, s, a :: as => by
    simp only [walk]
    split
    · exact ⟨rfl, rfl⟩
    · exact ⟨rfl, walk_trail stop (i + 1) (visit i s a).1 as⟩

/-- The visited items are the first ones of the list. -/
theorem walk_prefix (stop : β → Bool) :
    ∀ (i : Nat) (s : σ) (as : List α), (walk visit stop i s as).2.map Prod.fst <+: as
  | _, _, [] => List.prefix_refl _
  | i, s, a :: as => by
    simp only [walk]
    split
    · exact ⟨as, rfl⟩
    · exact List.cons_prefix_cons.mpr ⟨rfl, walk_prefix stop (i + 1) (visit i s a).1 as⟩

/-- Only the last visit of a pass can be a stop. -/
theorem walk_stop (stop : β → Bool) :
    ∀ (i : Nat) (s : σ) (as : List α) {j k : Nat} {x y : α × β},
      (walk visit stop i s as).2[j]? = some x → (walk visit stop i s as).2[k]? = some y →
      j < k → stop x.2 = false
  | _, _, [], _, _, _, _, hx, _, _ => by simp [walk] at hx
  | i, s, a :: as, j, k, x, y, hx, hy, hjk => by
    simp only [walk] at hx hy
    obtain ⟨k, rfl⟩ : ∃ k', k = k' + 1 := ⟨k - 1, by omega⟩
    by_cases hs : stop (visit i s a).2 = true
    · simp [hs] at hy
    · simp only [hs] at hx hy
      cases j with
      | zero =>
        obtain rfl : (a, (visit i s a).2) = x := by simpa using hx
        simpa using hs
      | succ j =>
        exact walk_stop stop (i + 1) (visit i s a).1 as (by simpa using hx) (by simpa using hy)
          (by omega)

/-- An item before a visited one was visited too, and did not stop the pass. -/
theorem walk_earlier {stop : β → Bool} {i j k : Nat} {s : σ} {as : List α} {a : α} {y : α × β}
    (hk : (walk visit stop i s as).2[k]? = some y) (hjk : j < k) (ha : as[j]? = some a) :
    ∃ b, (walk visit stop i s as).2[j]? = some (a, b) ∧ stop b = false := by
  have hlt : j < (walk visit stop i s as).2.length :=
    Nat.lt_trans hjk (List.getElem?_eq_some_iff.mp hk).1
  obtain ⟨x, hx⟩ : ∃ x, (walk visit stop i s as).2[j]? = some x :=
    ⟨_, List.getElem?_eq_getElem hlt⟩
  obtain ⟨rest, hrest⟩ : (walk visit stop i s as).2.map Prod.fst <+: as := walk_prefix stop i s as
  have hfst : as[j]? = some x.1 := by
    rw [← hrest, List.getElem?_append_left (by simpa using hlt), List.getElem?_map, hx]
    rfl
  obtain rfl : a = x.1 := by simpa [ha] using hfst
  exact ⟨x.2, hx, walk_stop stop i s as hx hk hjk⟩

/-! ## Passes that are never stopped -/

theorem walk_take (visit : Nat → σ → α → σ × β) :
    ∀ (as : List α) (i : Nat) (s : σ) (k : Nat),
      (walk visit (fun _ => false) i s (as.take k)).2 = (walk visit (fun _ => false) i s as).2.take k
  | [], i, s, k => by simp [walk]
  | _ :: _, _, _, 0 => rfl
  | a :: as, i, s, k + 1 => by
    have hrest := walk_take visit as (i + 1) (visit i s a).1 k
    simp only [List.take_succ_cons, walk, Bool.false_eq_true, if_false, hrest]

/-- The visit at a position is made from the state that the visits before it leave. -/
theorem walk_get {a : α} {b : β} :
    ∀ {as : List α} {i : Nat} {s : σ} {k : Nat},
      (walk visit (fun _ => false) i s as).2[k]? = some (a, b) →
      (visit (i + k) (walk visit (fun _ => false) i s (as.take k)).1 a).2 = b ∧
        (walk visit (fun _ => false) i s (as.take (k + 1))).1 =
          (visit (i + k) (walk visit (fun _ => false) i s (as.take k)).1 a).1
  | [], _, _, _, h => by simp [walk] at h
  | a' :: as, i, s, 0, h => by
    simp only [walk, Bool.false_eq_true, if_false, List.getElem?_cons_zero, Option.some.injEq,
      Prod.mk.injEq] at h
    obtain ⟨rfl, rfl⟩ := h
    exact ⟨rfl, rfl⟩
  | a' :: as, i, s, k + 1, h => by
    simp only [walk, Bool.false_eq_true, if_false, List.getElem?_cons_succ] at h
    have hrest := walk_get h
    have hi : i + 1 + k = i + (k + 1) := by omega
    simpa only [List.take_succ_cons, walk, Bool.false_eq_true, if_false, hi] using hrest

variable {i : Nat} {s t : σ} {visits : List (α × β)}

/-- What a preorder relates at every visit it relates at both ends of a record. -/
theorem Trail.rel {R : σ → σ → Prop} (hrefl : ∀ s, R s s)
    (htrans : ∀ s t u, R s t → R t u → R s u) (hstep : ∀ i s a, R s (visit i s a).1) :
    ∀ {visits : List (α × β)} {i : Nat} {s t : σ}, Trail visit i s visits t → R s t
  | [], _, s, _, h => h ▸ hrefl s
  | _ :: _, _, _, _, h => htrans _ _ _ (hstep _ _ _) (Trail.rel hrefl htrans hstep h.2)

/-- A record can be cut at any of its visits. -/
theorem Trail.cut {a : α} {b : β} :
    ∀ {visits : List (α × β)} {i k : Nat} {s t : σ}, Trail visit i s visits t →
      visits[k]? = some (a, b) →
      ∃ u, Trail visit i s (visits.take k) u ∧ (visit (i + k) u a).2 = b ∧
        Trail visit (i + k + 1) (visit (i + k) u a).1 (visits.drop (k + 1)) t
  | [], _, _, _, _, _, hk => by simp at hk
  | (a', b') :: visits, i, 0, s, t, h, hk => by
    obtain ⟨rfl, rfl⟩ : a' = a ∧ b' = b := by simpa using hk
    exact ⟨s, rfl, h.1, h.2⟩
  | (a', b') :: visits, i, k + 1, s, t, h, hk => by
    obtain ⟨u, hu, hb, ht⟩ := Trail.cut h.2 (by simpa using hk)
    refine ⟨u, ⟨h.1, hu⟩, ?_, ?_⟩
    · simpa only [Nat.add_right_comm, Nat.add_assoc] using hb
    · have hi : i + 1 + k = i + (k + 1) := by omega
      simpa only [hi, List.drop_succ_cons] using ht

/-- Two visits of one record, and how the states they were made from are related. -/
theorem Trail.earlier {R : σ → σ → Prop} (hrefl : ∀ s, R s s)
    (htrans : ∀ s t u, R s t → R t u → R s u) (hstep : ∀ i s a, R s (visit i s a).1)
    {j k : Nat} {a a' : α} {b b' : β} (h : Trail visit i s visits t) (hjk : j < k)
    (hj : visits[j]? = some (a, b)) (hk : visits[k]? = some (a', b')) :
    ∃ u u', Trail visit i s (visits.take j) u ∧ (visit (i + j) u a).2 = b ∧
      R (visit (i + j) u a).1 u' ∧ R s u' ∧ (visit (i + k) u' a').2 = b' := by
  obtain ⟨u', hu', hb', -⟩ := h.cut hk
  have hj' : (visits.take k)[j]? = some (a, b) := by rw [List.getElem?_take_of_lt hjk, hj]
  obtain ⟨u, hu, hb, hrest⟩ := hu'.cut hj'
  refine ⟨u, u', ?_, hb, hrest.rel hrefl htrans hstep, hu'.rel hrefl htrans hstep, hb'⟩
  rwa [List.take_take, Nat.min_eq_left (Nat.le_of_lt hjk)] at hu

end Dt.Lib
