import Mathlib.Data.List.Infix
import Mathlib.Data.List.Basic

/-!
# Concatenations

A list of tokens matches a text that is cut into one piece for each token, each piece in the language of its
token. `accepts` tries every cut.
-/

namespace Dt.Lib

variable {τ τ' α : Type*}

/-- The ways to cut a text in two. -/
def cuts (s : List α) : List (List α × List α) :=
  (List.range (s.length + 1)).map fun k => (s.take k, s.drop k)

theorem mem_cuts {s : List α} {p : List α × List α} : p ∈ cuts s ↔ s = p.1 ++ p.2 := by
  unfold cuts
  rw [List.mem_map]
  constructor
  · rintro ⟨k, -, rfl⟩
    exact (List.take_append_drop k s).symm
  · rintro rfl
    refine ⟨p.1.length, ?_, ?_⟩
    · rw [List.mem_range, List.length_append]
      exact Nat.lt_succ_of_le (Nat.le_add_right _ _)
    · rw [List.take_left, List.drop_left]

def accepts (language : τ → List α → Bool) : List τ → List α → Bool
  | [], s => s.isEmpty
  | t :: ts, s => (cuts s).any fun p => language t p.1 && accepts language ts p.2

section

variable {language : τ → List α → Bool}

theorem accepts_nil {s : List α} : accepts language [] s = true ↔ s = [] := List.isEmpty_iff

theorem accepts_cons {t : τ} {ts : List τ} {s : List α} : accepts language (t :: ts) s = true ↔
    ∃ a b, s = a ++ b ∧ language t a = true ∧ accepts language ts b = true := by
  rw [accepts, List.any_eq_true]
  constructor
  · rintro ⟨p, hp, h⟩
    rw [Bool.and_eq_true] at h
    exact ⟨p.1, p.2, mem_cuts.mp hp, h⟩
  · rintro ⟨a, b, hs, ha, hb⟩
    exact ⟨(a, b), mem_cuts.mpr hs, by simp [ha, hb]⟩

/-- What no token matches is not in a text that is matched. -/
theorem not_mem_of_accepts {x : α} {ts : List τ} {s : List α}
    (h : ∀ t ∈ ts, ∀ a, language t a = true → x ∉ a) (hs : accepts language ts s = true) : x ∉ s := by
  induction ts generalizing s with
  | nil =>
    rw [accepts_nil.mp hs]
    exact List.not_mem_nil
  | cons t ts ih =>
    obtain ⟨a, b, rfl, ha, hb⟩ := accepts_cons.mp hs
    rw [List.mem_append, not_or]
    exact ⟨h t List.mem_cons_self a ha, ih (fun u hu => h u (List.mem_cons_of_mem _ hu)) hb⟩

/-- Tokens with the same languages on the pieces of a text. -/
theorem accepts_map {language' : τ' → List α → Bool} {f : τ → τ'} {s : List α} (ts : List τ)
    (h : ∀ t ∈ ts, ∀ a, a <:+: s → language' (f t) a = language t a) :
    accepts language' (ts.map f) s = accepts language ts s := by
  induction ts generalizing s with
  | nil => rfl
  | cons t ts ih =>
    rw [List.map_cons, Bool.eq_iff_iff, accepts_cons, accepts_cons]
    refine exists_congr fun a => exists_congr fun b => and_congr_right fun hs => ?_
    have ha : a <:+: s := hs ▸ (List.prefix_append a b).isInfix
    have hb : b <:+: s := hs ▸ (List.suffix_append a b).isInfix
    rw [h t List.mem_cons_self a ha,
      ih fun u hu c hc => h u (List.mem_cons_of_mem _ hu) c (hc.trans hb)]

end

end Dt.Lib
