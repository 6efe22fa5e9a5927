import Mathlib.Data.List.Basic

/-!
# Steps that may fail

A computation in `Except` goes through when each of its steps does. The same for the steps over a
list, one for each item, also in `Option`.
-/

namespace Dt.Lib

variable {ε α β γ : Type}

theorem bind_ok {x : Except ε α} {f : α → Except ε β} {b : β} :
    x >>= f = .ok b ↔ ∃ a, x = .ok a ∧ f a = .ok b := by
  cases x <;> simp [bind, Except.bind]

theorem exists_of_isOk {x : Except ε α} (h : x.isOk = true) : ∃ a, x = .ok a := by
  cases x with
  | ok a => exact ⟨a, rfl⟩
  | error e => cases h

/-- Steps that all go through. -/
theorem mapM_ok {f : α → Except ε β} {g : α → β} {l : List α} (h : ∀ a ∈ l, f a = .ok (g a)) :
    l.mapM f = .ok (l.map g) := by
  induction l with
  | nil => rfl
  | cons a l ih =>
    rw [List.mapM_cons, h a List.mem_cons_self, ih fun b hb => h b (List.mem_cons_of_mem _ hb)]
    rfl

theorem mapM_map {f : β → Except ε γ} {g : α → β} (l : List α) :
    (l.map g).mapM f = l.mapM (f ∘ g) := by
  induction l with
  | nil => rfl
  | cons a l ih => simp [List.mapM_cons, ih]

/-- A list of steps that goes through has taken every step. -/
theorem mapM_mem {f : α → Except ε β} {l : List α} {r : List β} (h : l.mapM f = .ok r) :
    ∀ a ∈ l, ∃ b, f a = .ok b := by
  induction l generalizing r with
  | nil => simp
  | cons a l ih =>
    rw [List.mapM_cons] at h
    obtain ⟨b, ha, hrest⟩ := bind_ok.mp h
    obtain ⟨bs, hl, -⟩ := bind_ok.mp hrest
    exact List.forall_mem_cons.mpr ⟨⟨b, ha⟩, ih hl⟩

/-- Steps that go through under a condition on each item. -/
theorem mapM_ok_iff {f : α → Except ε β} {P : α → Prop} {g : α → β} {l : List α} {r : List β}
    (h : ∀ a ∈ l, ∀ b, f a = .ok b ↔ P a ∧ b = g a) : l.mapM f = .ok r ↔ (∀ a ∈ l, P a) ∧ r = l.map g := by
  induction l generalizing r with
  | nil => simp [List.mapM_nil, pure, Except.pure, eq_comm]
  | cons a l ih =>
    have ih := fun r => ih (r := r) fun b hb => h b (List.mem_cons_of_mem a hb)
    rw [List.mapM_cons, bind_ok, List.forall_mem_cons]
    constructor
    · rintro ⟨b, hb, hrest⟩
      obtain ⟨bs, hbs, heq⟩ := bind_ok.mp hrest
      obtain ⟨ha, rfl⟩ := (h a List.mem_cons_self b).mp hb
      obtain ⟨hl, rfl⟩ := (ih bs).mp hbs
      exact ⟨⟨ha, hl⟩, (Except.ok.inj heq).symm⟩
    · rintro ⟨⟨ha, hl⟩, rfl⟩
      refine ⟨g a, (h a List.mem_cons_self _).mpr ⟨ha, rfl⟩, bind_ok.mpr ⟨l.map g, ?_, rfl⟩⟩
      exact (ih _).mpr ⟨hl, rfl⟩

theorem mapM_isSome {f : α → Option β} {l : List α} :
    (∃ r, l.mapM f = some r) ↔ ∀ a ∈ l, (f a).isSome = true := by
  induction l with
  | nil => simp
  | cons a l ih =>
    rw [List.forall_mem_cons, ← ih]
    cases ha : f a with
    | none => simp [List.mapM_cons, ha]
    | some b => simp [List.mapM_cons, ha, Option.bind_eq_some_iff]

end Dt.Lib
