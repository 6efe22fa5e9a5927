import Dt.Lib.RegexAccepts
import Dt.Lib.Text

/-!
# One space between the words

`Squeezed` follows a text and its words joined with spaces, character by character. A text without spaces that occurs
in the joined words stood in the text before, where the characters next to it are the same, or spaces or an end instead
of spaces or an end.
-/

namespace Dt.Lib

/-- Characters next to a word: the same, or both a space or an end. -/
def Alike (p q : Option Char) : Prop := p = q ∨ p.all isSpace = true ∧ q.all isSpace = true

theorem alike_space {c : Char} (hc : isSpace c = true) : Alike (some c) (some ' ') := .inr ⟨hc, by decide⟩

theorem Alike.symm {p q : Option Char} (h : Alike p q) : Alike q p := h.imp Eq.symm And.symm

/-- Next to what is no space nothing else can stand. -/
theorem Alike.eq_of_solid {p : Option Char} {c : Char} (h : Alike p (some c)) (hc : isSpace c = false) :
    p = some c := by
  rcases h with rfl | ⟨-, hspace⟩
  · rfl
  · exact absurd (hc.symm.trans hspace) (by decide)

/-- What is left of a text after its spaces have become one between two words; a character is before it. -/
inductive Squeezed : List Char → Option Char → List Char → Prop where
  | done {text : List Char} {prev : Option Char} (h : ∀ c ∈ text, isSpace c = true) : Squeezed text prev []
  | char {text out : List Char} {prev : Option Char} {c : Char} (hc : isSpace c = false)
    (h : Squeezed text (some c) out) : Squeezed (c :: text) prev (c :: out)
  | space {text out : List Char} {prev : Option Char} {c : Char} (hc : isSpace c = true)
    (h : Squeezed text (some ' ') out) : Squeezed (c :: text) prev (' ' :: out)
  | drop {text out : List Char} {prev : Option Char} {c : Char} (hc : isSpace c = true)
    (hprev : prev.all isSpace = true) (h : Squeezed text prev out) : Squeezed (c :: text) prev out

theorem Squeezed.spaces {text out : List Char} {prev : Option Char} (h : Squeezed text prev out) (hout : out = []) :
    ∀ c ∈ text, isSpace c = true := by
  induction h with
  | done h => exact h
  | char => cases hout
  | space => cases hout
  | drop hc _ _ ih => exact List.forall_mem_cons.mpr ⟨hc, ih hout⟩

/-- The words of a text, with one being read or none. -/
theorem squeezed_wordsAux (text : List Char) :
    (∀ prev : Option Char, prev.all isSpace = true → Squeezed text prev (joinWith [' '] (wordsAux text []))) ∧
      ∀ cur, cur ≠ [] → ∃ out, joinWith [' '] (wordsAux text cur) = cur.reverse ++ out ∧
        Squeezed text cur.head? out := by
  induction text with
  | nil =>
    refine ⟨fun prev _ => .done (List.forall_mem_nil _), fun cur hcur => ⟨[], ?_, .done (List.forall_mem_nil _)⟩⟩
    rw [wordsAux, if_neg (by simpa using hcur), List.append_nil]
    rfl
  | cons c text ih =>
    obtain ⟨ihfree, ihword⟩ := ih
    by_cases hc : isSpace c = true
    · refine ⟨fun prev hprev => ?_, fun cur hcur => ?_⟩
      · rw [wordsAux, if_pos hc, if_pos (by rfl)]
        exact .drop hc hprev (ihfree prev hprev)
      · rw [wordsAux, if_pos hc, if_neg (by simpa using hcur)]
        have hrest := ihfree (some ' ') (by decide)
        cases hwords : wordsAux text [] with
        | nil =>
          rw [hwords] at hrest
          exact ⟨[], (List.append_nil _).symm, .done (List.forall_mem_cons.mpr ⟨hc, hrest.spaces rfl⟩)⟩
        | cons w ws =>
          rw [hwords] at hrest
          exact ⟨' ' :: joinWith [' '] (w :: ws), List.append_assoc cur.reverse [' '] _, .space hc hrest⟩
    · have hc : isSpace c = false := by simpa using hc
      have hwords : ∀ cur, wordsAux (c :: text) cur = wordsAux text (c :: cur) := by
        intro cur
        rw [wordsAux, hc]
        exact if_neg Bool.false_ne_true
      refine ⟨fun prev _ => ?_, fun cur _ => ?_⟩
      · obtain ⟨out, hout, h⟩ := ihword [c] (List.cons_ne_nil c [])
        rw [hwords, hout]
        exact .char hc h
      · obtain ⟨out, hout, h⟩ := ihword (c :: cur) (List.cons_ne_nil c cur)
        exact ⟨c :: out, by rw [hwords, hout, List.reverse_cons, List.append_assoc]; rfl, .char hc h⟩

theorem squeezed_words (text : List Char) : Squeezed text none (joinWith [' '] (words text)) :=
  (squeezed_wordsAux text).1 none rfl

section

variable {text out x : List Char} {prev : Option Char}

/-- What has no spaces stays. -/
theorem Squeezed.keep (hx : ∀ c ∈ x, isSpace c = false) (h : Squeezed (x ++ text) prev out) :
    ∃ rest, out = x ++ rest ∧ Squeezed text (lastOr prev x) rest := by
  induction x generalizing prev out with
  | nil => exact ⟨out, rfl, h⟩
  | cons c x ih =>
    obtain ⟨hc, hx⟩ := List.forall_mem_cons.mp hx
    cases h with
    | done h => cases hc.symm.trans (h c List.mem_cons_self)
    | char _ h =>
      obtain ⟨rest, rfl, hrest⟩ := ih hx h
      exact ⟨rest, rfl, hrest⟩
    | space hspace => cases hc.symm.trans hspace
    | drop hspace => cases hc.symm.trans hspace

/-- Behind a word, what has no spaces was there before. -/
theorem Squeezed.was (hprev : prev.all isSpace = false) (hx : ∀ c ∈ x, isSpace c = false)
    (h : Squeezed text prev (x ++ out)) : ∃ rest, text = x ++ rest ∧ Squeezed rest (lastOr prev x) out := by
  induction x generalizing prev text with
  | nil => exact ⟨text, rfl, h⟩
  | cons c x ih =>
    obtain ⟨hc, hx⟩ := List.forall_mem_cons.mp hx
    cases h with
    | char _ h =>
      obtain ⟨rest, rfl, hrest⟩ := @ih _ (some c) hc hx h
      exact ⟨rest, rfl, hrest⟩
    | space _ _ => cases hc
    | drop _ hspace => cases hprev.symm.trans hspace

/-- What follows a word. -/
theorem Squeezed.head (hprev : prev.all isSpace = false) (h : Squeezed text prev out) : Alike text.head? out.head? := by
  cases h with
  | done h =>
    cases text with
    | nil => exact .inl rfl
    | cons c text => exact .inr ⟨h c List.mem_cons_self, rfl⟩
  | char => exact .inl rfl
  | space hc => exact alike_space hc
  | drop _ hspace => cases hprev.symm.trans hspace

theorem lastOr_solid (hne : x ≠ []) (hx : ∀ c ∈ x, isSpace c = false) (prev : Option Char) :
    (lastOr prev x).all isSpace = false := by
  obtain ⟨c, hc, hlast⟩ := lastOr_mem hne prev
  rw [hlast]
  exact hx c hc

/-- A text without spaces stood in the text before. -/
theorem Squeezed.occurrence {prev₀ : Option Char} {a b : List Char} (halike : Alike prev₀ prev) (hne : x ≠ [])
    (hx : ∀ c ∈ x, isSpace c = false) (h : Squeezed text prev out) (hout : out = a ++ x ++ b) :
    ∃ a' b', text = a' ++ x ++ b' ∧ Alike (lastOr prev₀ a') (lastOr prev a) ∧ Squeezed b' (lastOr prev x) b := by
  induction h generalizing prev₀ a with
  | done =>
    have := (List.append_eq_nil_iff.mp (List.append_eq_nil_iff.mp hout.symm).1).2
    exact absurd this hne
  | @char text out prev c hc h ih =>
    cases a with
    | nil =>
      obtain ⟨d, x, rfl⟩ := List.exists_cons_of_ne_nil hne
      obtain ⟨rfl, rfl⟩ := List.cons.inj hout
      obtain ⟨rest, rfl, hrest⟩ := h.was (by simpa using hc) (List.forall_mem_cons.mp hx).2
      exact ⟨[], rest, rfl, halike, hrest⟩
    | cons d a =>
      obtain ⟨rfl, rfl⟩ := List.cons.inj hout
      obtain ⟨a', b', rfl, hlast, hrest⟩ := ih (.inl rfl) rfl
      rw [lastOr_of_ne_nil hne _ prev] at hrest
      exact ⟨c :: a', b', rfl, hlast, hrest⟩
  | @space text out prev c hc h ih =>
    cases a with
    | nil =>
      obtain ⟨d, x, rfl⟩ := List.exists_cons_of_ne_nil hne
      obtain ⟨rfl, -⟩ := List.cons.inj hout
      exact absurd (hx ' ' List.mem_cons_self) (by decide)
    | cons d a =>
      obtain ⟨rfl, rfl⟩ := List.cons.inj hout
      obtain ⟨a', b', rfl, hlast, hrest⟩ := ih (alike_space hc) rfl
      rw [lastOr_of_ne_nil hne _ prev] at hrest
      exact ⟨c :: a', b', rfl, hlast, hrest⟩
  | @drop text out prev c hc hprev h ih =>
    obtain ⟨a', b', rfl, hlast, hrest⟩ := @ih (some c) _ (.inr ⟨hc, hprev⟩) hout
    exact ⟨c :: a', b', rfl, hlast, hrest⟩

/-- The only space that is left is the plain one. -/
theorem Squeezed.mem (h : Squeezed text prev out) : ∀ c ∈ out, isSpace c = false ∨ c = ' ' := by
  induction h with
  | done => exact List.forall_mem_nil _
  | char hc _ ih => exact List.forall_mem_cons.mpr ⟨.inl hc, ih⟩
  | space _ _ ih => exact List.forall_mem_cons.mpr ⟨.inr rfl, ih⟩
  | drop _ _ _ ih => exact ih

end

end Dt.Lib
