import Mathlib.Data.List.Basic

/-!
# Runs of labelled machines

A machine is a partial step function `step : σ → α → Option σ`. `run step s as` takes the
actions `as` in order and is `none` as soon as one of them is not enabled. `Meets ok step s as`
says that every step of the run is taken from a state where `ok` allows its action.

The invariant rules come in three forms: over all runs, over the runs that meet a condition,
and for a relation between the first and the last state of a run.
-/

namespace Dt.Lib

variable {σ α : Type*} {step : σ → α → Option σ}

/-- Take the actions of a list in order. -/
def run (step : σ → α → Option σ) : σ → List α → Option σ
  | s, [] => some s
  | s, a :: as => (step s a).bind fun s' => run step s' as

@[simp] theorem run_nil (s : σ) : run step s [] = some s := rfl

theorem run_cons_some {s t : σ} {a : α} {as : List α} :
    run step s (a :: as) = some t ↔ ∃ s', step s a = some s' ∧ run step s' as = some t := by
  simp [run, Option.bind_eq_some_iff]

theorem run_append_some {s t : σ} {as bs : List α} :
    run step s (as ++ bs) = some t ↔ ∃ s', run step s as = some s' ∧ run step s' bs = some t := by
  induction as generalizing s with
  | nil => simp
  | cons a as ih =>
    simp only [List.cons_append, run_cons_some, ih]
    constructor
    · rintro ⟨s₁, h₁, s₂, h₂, h₃⟩
      exact ⟨s₂, ⟨s₁, h₁, h₂⟩, h₃⟩
    · rintro ⟨s₂, ⟨s₁, h₁, h₂⟩, h₃⟩
      exact ⟨s₁, h₁, s₂, h₂, h₃⟩

/-- `s` is reached from a state that satisfies `init`. -/
def Reach (step : σ → α → Option σ) (init : σ → Prop) (s : σ) : Prop :=
  ∃ s₀ as, init s₀ ∧ run step s₀ as = some s

/-- What every step preserves holds at the end of every run. -/
theorem run_inv {I : σ → Prop} (hstep : ∀ s a s', I s → step s a = some s' → I s') :
    ∀ {as : List α} {s t : σ}, I s → run step s as = some t → I t
  | [], s, t, hs, h => by
    simp only [run_nil, Option.some.injEq] at h
    exact h ▸ hs
  | a :: as, s, t, hs, h => by
    obtain ⟨s', h₁, h₂⟩ := run_cons_some.mp h
    exact run_inv hstep (hstep s a s' hs h₁) h₂

theorem reach_inv {init I : σ → Prop} (hinit : ∀ s, init s → I s)
    (hstep : ∀ s a s', I s → step s a = some s' → I s') {s : σ} (h : Reach step init s) : I s := by
  obtain ⟨s₀, as, h₀, hr⟩ := h
  exact run_inv hstep (hinit s₀ h₀) hr

/-- Every step of the run is allowed by `ok` in the state it is taken from. -/
def Meets (ok : σ → α → Prop) (step : σ → α → Option σ) : σ → List α → Prop
  | _, [] => True
  | s, a :: as => ok s a ∧ ∀ s', step s a = some s' → Meets ok step s' as

/-- A run can be checked against a decidable condition by taking it. -/
instance Meets.decidable {ok : σ → α → Prop} [∀ s a, Decidable (ok s a)] :
    ∀ (s : σ) (as : List α), Decidable (Meets ok step s as)
  | _, [] => .isTrue trivial
  | s, a :: as =>
    match h : step s a with
    | none => decidable_of_iff (ok s a) (by simp [Meets, h])
    | some s' =>
      have : Decidable (Meets ok step s' as) := Meets.decidable s' as
      decidable_of_iff (ok s a ∧ Meets ok step s' as) (by simp [Meets, h])

/-- What every allowed step preserves holds at the end of every run of allowed steps. -/
theorem run_inv_of_meets {ok : σ → α → Prop} {I : σ → Prop}
    (hstep : ∀ s a s', I s → ok s a → step s a = some s' → I s') :
    ∀ {as : List α} {s t : σ}, I s → Meets ok step s as → run step s as = some t → I t
  | [], s, t, hs, _, h => by
    simp only [run_nil, Option.some.injEq] at h
    exact h ▸ hs
  | a :: as, s, t, hs, hm, h => by
    obtain ⟨s', h₁, h₂⟩ := run_cons_some.mp h
    exact run_inv_of_meets hstep (hstep s a s' hs hm.1 h₁) (hm.2 s' h₁) h₂

/-- The two parts of a run that meets a condition. -/
theorem meets_append {ok : σ → α → Prop} {as bs : List α} {s t : σ}
    (h : Meets ok step s (as ++ bs)) (ht : run step s as = some t) :
    Meets ok step s as ∧ Meets ok step t bs := by
  induction as generalizing s with
  | nil =>
    simp only [run_nil, Option.some.injEq] at ht
    exact ⟨trivial, ht ▸ h⟩
  | cons a as ih =>
    obtain ⟨s₁, h₁, h₂⟩ := run_cons_some.mp ht
    obtain ⟨hfirst, hlast⟩ := ih (h.2 s₁ h₁) h₂
    refine ⟨⟨h.1, fun s' h' => ?_⟩, hlast⟩
    rw [h₁] at h'
    cases h'
    exact hfirst

/-- A reflexive transitive relation that every step respects relates both ends of a run. -/
theorem run_rel {I : σ → Prop} {R : σ → σ → Prop} (hrefl : ∀ s, R s s)
    (htrans : ∀ s t u, R s t → R t u → R s u)
    (hI : ∀ s a s', I s → step s a = some s' → I s')
    (hR : ∀ s a s', I s → step s a = some s' → R s s') :
    ∀ {as : List α} {s t : σ}, I s → run step s as = some t → R s t
  | [], s, t, _, h => by
    simp only [run_nil, Option.some.injEq] at h
    exact h ▸ hrefl s
  | a :: as, s, t, hs, h => by
    obtain ⟨s', h₁, h₂⟩ := run_cons_some.mp h
    exact htrans _ _ _ (hR s a s' hs h₁) (run_rel hrefl htrans hI hR (hI s a s' hs h₁) h₂)

/-- What holds at the end of a run and not at its start came with one of its steps. -/
theorem run_first {P : σ → Prop} {as : List α} {s t : σ} (hs : ¬ P s)
    (h : run step s as = some t) (ht : P t) :
    ∃ bs a cs s₁ s₂, as = bs ++ a :: cs ∧ run step s bs = some s₁ ∧ step s₁ a = some s₂ ∧
      ¬ P s₁ ∧ P s₂ ∧ run step s₂ cs = some t := by
  induction as generalizing s with
  | nil =>
    simp only [run_nil, Option.some.injEq] at h
    exact absurd (h ▸ ht) hs
  | cons a as ih =>
    obtain ⟨s', h₁, h₂⟩ := run_cons_some.mp h
    by_cases hp : P s'
    · exact ⟨[], a, as, s, s', rfl, rfl, h₁, hs, hp, h₂⟩
    · obtain ⟨bs, b, cs, s₁, s₂, rfl, hbs, hrest⟩ := ih hp h₂
      exact ⟨a :: bs, b, cs, s₁, s₂, rfl, run_cons_some.mpr ⟨s', h₁, hbs⟩, hrest⟩

end Dt.Lib
