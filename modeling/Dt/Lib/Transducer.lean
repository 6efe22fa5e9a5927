import Mathlib.Data.List.Basic

/-!
# Transducers

A transducer takes one symbol after the other and puts out a few with each, or fails. `feed` is its run
over a text. A run does not see where its text was cut: feeding the pieces one by one is feeding all of
them at once.

`feed_inv` is the invariant rule, for what a state and the output so far say about the input so far.
-/

namespace Dt.Lib

variable {σ α β : Type*} {step : σ → α → Option (List β × σ)}

/-- The output of a text, and the state after it. -/
def feed (step : σ → α → Option (List β × σ)) : σ → List α → Option (List β × σ)
  | s, [] => some ([], s)
  | s, a :: as => (step s a).bind fun r => (feed step r.2 as).map fun t => (r.1 ++ t.1, t.2)

/-- The output of pieces of text, and the state after them. -/
def feedAll (step : σ → α → Option (List β × σ)) : σ → List (List α) → Option (List β × σ)
  | s, [] => some ([], s)
  | s, piece :: pieces =>
    (feed step s piece).bind fun r => (feedAll step r.2 pieces).map fun t => (r.1 ++ t.1, t.2)

@[simp] theorem feed_nil (s : σ) : feed step s [] = some ([], s) := rfl

theorem feed_cons_some {s t : σ} {a : α} {as : List α} {out : List β} :
    feed step s (a :: as) = some (out, t) ↔ ∃ o s' rest, step s a = some (o, s') ∧
      feed step s' as = some (rest, t) ∧ out = o ++ rest := by
  simp only [feed, Option.bind_eq_some_iff, Option.map_eq_some_iff, Prod.mk.injEq]
  constructor
  · rintro ⟨⟨o, s'⟩, hstep, ⟨rest, t'⟩, hrest, rfl, rfl⟩
    exact ⟨o, s', rest, hstep, hrest, rfl⟩
  · rintro ⟨o, s', rest, hstep, hrest, rfl⟩
    exact ⟨⟨o, s'⟩, hstep, ⟨rest, t⟩, hrest, rfl, rfl⟩

theorem feed_append (s : σ) (as bs : List α) : feed step s (as ++ bs) =
    (feed step s as).bind fun r => (feed step r.2 bs).map fun t => (r.1 ++ t.1, t.2) := by
  induction as generalizing s with
  | nil =>
    rw [List.nil_append, feed_nil, Option.bind_some]
    cases feed step s bs <;> rfl
  | cons a as ih =>
    rw [List.cons_append, feed, feed]
    cases step s a with
    | none => rfl
    | some r =>
      simp only [Option.bind_some, ih]
      cases feed step r.2 as with
      | none => rfl
      | some t =>
        simp only [Option.bind_some, Option.map_some]
        cases feed step t.2 bs with
        | none => rfl
        | some u => simp only [Option.map_some, List.append_assoc]

/-- A run does not see the cuts of its text. -/
theorem feedAll_eq (s : σ) (pieces : List (List α)) :
    feedAll step s pieces = feed step s pieces.flatten := by
  induction pieces generalizing s with
  | nil => rfl
  | cons piece pieces ih =>
    rw [feedAll, List.flatten_cons, feed_append]
    simp only [ih]

/-- A run that fails has a step that fails. -/
theorem feed_eq_none {s : σ} {as : List α} (h : feed step s as = none) :
    ∃ before a after out t, as = before ++ a :: after ∧ feed step s before = some (out, t) ∧
      step t a = none := by
  induction as generalizing s with
  | nil => cases h
  | cons a as ih =>
    rw [feed] at h
    cases hstep : step s a with
    | none => exact ⟨[], a, as, [], s, rfl, rfl, hstep⟩
    | some r =>
      rw [hstep, Option.bind_some, Option.map_eq_none_iff] at h
      obtain ⟨before, b, after, out, t, rfl, hrun, hfail⟩ := ih h
      exact ⟨a :: before, b, after, r.1 ++ out, t, rfl,
        feed_cons_some.mpr ⟨r.1, r.2, out, hstep, hrun, rfl⟩, hfail⟩

/-- A run that succeeds takes each of its steps. -/
theorem feed_split {s t : σ} {before after : List α} {a : α} {out : List β}
    (h : feed step s (before ++ a :: after) = some (out, t)) :
    ∃ front s' o u, feed step s before = some (front, s') ∧ step s' a = some (o, u) := by
  rw [feed_append] at h
  obtain ⟨⟨front, s'⟩, hbefore, hrest⟩ := Option.bind_eq_some_iff.mp h
  obtain ⟨r, hr, -⟩ := Option.map_eq_some_iff.mp hrest
  obtain ⟨o, u, -, hstep, -, -⟩ := feed_cons_some.mp hr
  exact ⟨front, s', o, u, hbefore, hstep⟩

/-- What every step keeps holds at the end of a run. -/
theorem feed_inv {I : List α → List β → σ → Prop}
    (hstep : ∀ as out s a o s', I as out s → step s a = some (o, s') → I (as ++ [a]) (out ++ o) s')
    {as : List α} {s t : σ} {out : List β} (hinit : I [] [] s) (h : feed step s as = some (out, t)) :
    I as out t := by
  have hrun : ∀ (bs : List α) (s : σ) (before : List α) (done rest : List β), I before done s →
      feed step s bs = some (rest, t) → I (before ++ bs) (done ++ rest) t := by
    intro bs
    induction bs with
    | nil =>
      rintro s before done rest hs heq
      obtain ⟨rfl, rfl⟩ := Prod.mk.inj (Option.some.inj heq)
      simpa using hs
    | cons b bs ih =>
      rintro s before done rest hs heq
      obtain ⟨o, s', more, hb, hbs, rfl⟩ := feed_cons_some.mp heq
      have hnext := ih s' (before ++ [b]) (done ++ o) more (hstep _ _ _ _ _ _ hs hb) hbs
      simpa using hnext
  simpa using hrun as s [] [] out hinit h

end Dt.Lib
