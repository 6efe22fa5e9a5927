import Mathlib.Data.List.Infix
import Dt.Lib.RegexAccepts

/-!
# Replacing what a pattern finds

A text is cut into plain characters and the tokens that a pattern finds, and a replacement puts another text for every
token. `Each` says something of every piece where it stands. A text that occurs in the result, and shares no end with
what was put for a token, was there before: it is one of plain characters, or it is inside of what was put.
-/

namespace Dt.Lib

inductive Piece where
  | plain (c : Char)
  | token (text : List Char)

def Piece.source : Piece → List Char
  | .plain c => [c]
  | .token text => text

def Piece.render (f : List Char → List Char) : Piece → List Char
  | .plain c => [c]
  | .token text => f text

def sourceText (ps : List Piece) : List Char := ps.flatMap Piece.source

def renderText (f : List Char → List Char) (ps : List Piece) : List Char := ps.flatMap (Piece.render f)

section

variable {f : List Char → List Char}

@[simp] theorem sourceText_nil : sourceText [] = [] := rfl

@[simp] theorem sourceText_cons (p : Piece) (ps : List Piece) : sourceText (p :: ps) = p.source ++ sourceText ps := rfl

@[simp] theorem sourceText_append (ps qs : List Piece) : sourceText (ps ++ qs) = sourceText ps ++ sourceText qs :=
  List.flatMap_append

@[simp] theorem sourceText_plain (text : List Char) : sourceText (text.map .plain) = text := by
  induction text with
  | nil => rfl
  | cons c text ih => exact congrArg (c :: ·) ih

theorem sourceText_between (front back : List Piece) (x : List Char) :
    sourceText (front ++ x.map .plain ++ back) = sourceText front ++ x ++ sourceText back := by
  rw [sourceText_append, sourceText_append, sourceText_plain]

@[simp] theorem renderText_nil : renderText f [] = [] := rfl

@[simp] theorem renderText_cons (p : Piece) (ps : List Piece) :
    renderText f (p :: ps) = p.render f ++ renderText f ps := rfl

@[simp] theorem renderText_append (ps qs : List Piece) : renderText f (ps ++ qs) = renderText f ps ++ renderText f qs :=
  List.flatMap_append

@[simp] theorem renderText_plain (text : List Char) : renderText f (text.map .plain) = text := by
  induction text with
  | nil => rfl
  | cons c text ih => exact congrArg (c :: ·) ih

end

/-! ## Pieces where they stand -/

/-- Every piece has a property, between what is before it and what follows. -/
def Each (P : Option Char → Piece → List Char → Prop) : Option Char → List Piece → List Char → Prop
  | _, [], _ => True
  | prev, p :: ps, rest => P prev p (sourceText ps ++ rest) ∧ Each P (lastOr prev p.source) ps rest

section

variable {P Q : Option Char → Piece → List Char → Prop} {prev : Option Char} {ps qs : List Piece} {rest : List Char}

theorem each_append :
    Each P prev (ps ++ qs) rest ↔
      Each P prev ps (sourceText qs ++ rest) ∧ Each P (lastOr prev (sourceText ps)) qs rest := by
  induction ps generalizing prev with
  | nil => exact (iff_of_eq (true_and _)).symm
  | cons p ps ih =>
    simp only [List.cons_append, Each, ih, sourceText_cons, sourceText_append, lastOr_append, List.append_assoc,
      and_assoc]

/-- A piece in the middle. -/
theorem Each.piece {p : Piece} (h : Each P prev (ps ++ p :: qs) []) :
    P (lastOr prev (sourceText ps)) p (sourceText qs) := by
  have h := (each_append.mp h).2.1
  rwa [List.append_nil] at h

theorem each_plain (h : ∀ prev c rest, P prev (.plain c) rest) (text : List Char) :
    Each P prev (text.map .plain) rest := by
  induction text generalizing prev with
  | nil => exact trivial
  | cons c text ih => exact ⟨h _ _ _, ih⟩

theorem Each.mono (hPQ : ∀ prev p rest, P prev p rest → Q prev p rest) (h : Each P prev ps rest) :
    Each Q prev ps rest := by
  induction ps generalizing prev with
  | nil => exact trivial
  | cons p ps ih => exact ⟨hPQ _ _ _ h.1, ih h.2⟩

/-- Every piece may be cut further. -/
theorem Each.refine {g : Piece → List Piece}
    (hg : ∀ prev p rest, P prev p rest → sourceText (g p) = p.source ∧ Each Q prev (g p) rest)
    (h : Each P prev ps rest) :
    sourceText (ps.flatMap g) = sourceText ps ∧ Each Q prev (ps.flatMap g) rest := by
  induction ps generalizing prev with
  | nil => exact ⟨rfl, trivial⟩
  | cons p ps ih =>
    obtain ⟨hp, hps⟩ := h
    obtain ⟨hsame, hrest⟩ := ih hps
    obtain ⟨hsource, heach⟩ := hg _ _ _ hp
    rw [List.flatMap_cons, sourceText_append, sourceText_cons, hsource, hsame]
    exact ⟨rfl, each_append.mpr ⟨by rwa [hsame], by rwa [hsource]⟩⟩

theorem renderText_flatMap {f f' : List Char → List Char} {g : Piece → List Piece}
    (h : ∀ p ∈ ps, renderText f' (g p) = p.render f) : renderText f' (ps.flatMap g) = renderText f ps := by
  induction ps with
  | nil => rfl
  | cons p ps ih =>
    obtain ⟨hp, hps⟩ := List.forall_mem_cons.mp h
    rw [List.flatMap_cons, renderText_append, hp, ih hps, renderText_cons]

end

/-! ## Patterns -/

/-- What a pattern matches after a character and before a rest. -/
abbrev Pattern := Option Char → List Char → List Char → Prop

/-- A match than which there is no longer one at its place. -/
def Longest (M : Pattern) : Pattern := fun prev text rest =>
  M prev text rest ∧ ∀ text' rest', text ++ rest = text' ++ rest' → M prev text' rest' → text'.length ≤ text.length

/-- A pattern is nowhere in a text. -/
def Absent (M : Pattern) (text : List Char) : Prop := ∀ a w b, text = a ++ w ++ b → ¬ M (lastOr none a) w b

/-- A plain character is no beginning of a match, and a token is a match. -/
def Scanned (M : Pattern) : Option Char → Piece → List Char → Prop
  | prev, .plain c, rest => ∀ text rest', c :: rest = text ++ rest' → ¬ M prev text rest'
  | prev, .token text, rest => text ≠ [] ∧ M prev text rest

theorem Each.not_match {M : Pattern} {front back : List Piece} {x : List Char}
    (h : Each (Scanned M) none (front ++ x.map .plain ++ back) []) (hx : x ≠ []) :
    ¬ M (lastOr none (sourceText front)) x (sourceText back) := by
  obtain ⟨c, x, rfl⟩ := List.exists_cons_of_ne_nil hx
  rw [List.append_assoc, List.map_cons, List.cons_append] at h
  exact h.piece _ _ (by rw [sourceText_append, sourceText_plain]; rfl)

theorem Longest.unique {M : Pattern} {prev : Option Char} {text rest text' rest' : List Char}
    (h : Longest M prev text rest) (h' : Longest M prev text' rest') (heq : text ++ rest = text' ++ rest') :
    text = text' ∧ rest = rest' :=
  List.append_inj heq (Nat.le_antisymm (h'.2 _ _ heq.symm h.1) (h.2 _ _ heq h'.1))

theorem exists_longest {M : Pattern} {prev : Option Char} {text rest : List Char} (h : M prev text rest) :
    ∃ text' rest', text ++ rest = text' ++ rest' ∧ Longest M prev text' rest' := by
  induction hlen : rest.length using Nat.strongRecOn generalizing text rest with
  | ind n ih =>
    by_cases hmax : ∀ text' rest', text ++ rest = text' ++ rest' → M prev text' rest' → text'.length ≤ text.length
    · exact ⟨text, rest, rfl, h, hmax⟩
    · push Not at hmax
      obtain ⟨text', rest', heq, hM, hlonger⟩ := hmax
      have hshorter : rest'.length < n := by
        have := congrArg List.length heq
        simp only [List.length_append] at this
        omega
      obtain ⟨text'', rest'', heq', hlongest⟩ := ih _ hshorter hM rfl
      exact ⟨text'', rest'', heq.trans heq', hlongest⟩

/-- The longest matches cut a text in one way only. -/
theorem Each.unique {M : Pattern} {prev : Option Char} {ps qs : List Piece}
    (h : Each (Scanned (Longest M)) prev ps []) (h' : Each (Scanned (Longest M)) prev qs [])
    (hsource : sourceText ps = sourceText qs) : ps = qs := by
  induction ps generalizing prev qs with
  | nil =>
    cases qs with
    | nil => rfl
    | cons q qs =>
      cases q with
      | plain c => cases hsource
      | token t => exact absurd (List.append_eq_nil_iff.mp hsource.symm).1 h'.1.1
  | cons p ps ih =>
    cases qs with
    | nil =>
      cases p with
      | plain c => cases hsource
      | token t => exact absurd (List.append_eq_nil_iff.mp hsource).1 h.1.1
    | cons q qs =>
      obtain ⟨hp, hps⟩ := h
      obtain ⟨hq, hqs⟩ := h'
      rw [List.append_nil] at hp hq
      cases p with
      | plain c =>
        cases q with
        | plain d =>
          obtain ⟨rfl, hrest⟩ := List.cons.inj hsource
          rw [ih hps hqs hrest]
        | token t => exact absurd hq.2 (hp _ _ hsource)
      | token t =>
        cases q with
        | plain d => exact absurd hp.2 (hq _ _ hsource.symm)
        | token t' =>
          obtain ⟨rfl, hrest⟩ := hp.2.unique hq.2 hsource
          rw [ih hps hqs hrest]

/-- What an expression finds at a place are the matches of a pattern, none of which is empty. -/
structure Regex.Finds (word : Char → Bool) (r : Regex) (M : Pattern) : Prop where
  found : ∀ {s t : Cursor}, r.matchAt word false s = some t →
    ∃ text, text ≠ [] ∧ s.Passes text t ∧ M s.prev text t.rest
  missed : ∀ {s : Cursor}, r.matchAt word false s = none →
    ∀ text rest, s.rest = text ++ rest → ¬ M s.prev text rest

section

variable {word : Char → Bool} {r : Regex} {M : Pattern} {f : List Char → List Char}

theorem finds_of_accepts (h : ∀ {prev text rest}, r.Accepts word prev text rest ↔ M prev text rest)
    (hM : ∀ {prev text rest}, M prev text rest → text ≠ []) : r.Finds word M where
  found hmatch := by
    obtain ⟨text, hpass, haccepts⟩ := matchAt_accepts hmatch
    exact ⟨text, hM (h.mp haccepts), hpass, h.mp haccepts⟩
  missed hmatch _ _ hrest hmatches := matchAt_none hmatch hrest (h.mpr hmatches)

theorem replaceFrom_pieces (h : r.Finds word M) {fuel : Nat} {s : Cursor} (hfuel : s.rest.length < fuel) :
    ∃ ps, sourceText ps = s.rest ∧ r.replaceFrom word f fuel false s = renderText f ps ∧
      Each (Scanned M) s.prev ps [] := by
  induction fuel generalizing s with
  | zero => cases hfuel
  | succ fuel ih =>
    rw [Regex.replaceFrom]
    cases hmatch : r.matchAt word false s with
    | some t =>
      obtain ⟨text, hne, hpass, hM⟩ := h.found hmatch
      have hlen := List.length_pos_of_ne_nil hne
      have hless : t.rest.length < fuel := by
        rw [hpass.rest, List.length_append] at hfuel
        omega
      obtain ⟨ps, hsource, hrender, heach⟩ := ih hless
      have hmoved : decide (t.position = s.position) = false := by
        rw [hpass.position]
        exact decide_eq_false (by omega)
      refine ⟨.token text :: ps, ?_, ?_, ⟨hne, ?_⟩, ?_⟩
      · rw [sourceText_cons, hsource, hpass.rest]
        rfl
      · dsimp only
        rw [hmoved, hrender, hpass.position, Nat.add_sub_cancel_left, hpass.rest, List.take_left]
        rfl
      · rw [List.append_nil, hsource]
        exact hM
      · rw [hpass.prev] at heach
        exact heach
    | none =>
      cases hrest : s.rest with
      | nil => exact ⟨[], rfl, rfl, trivial⟩
      | cons c rest =>
        rw [hrest, List.length_cons] at hfuel
        obtain ⟨ps, hsource, hrender, heach⟩ := @ih (s.next c rest) (Nat.lt_of_succ_lt_succ hfuel)
        refine ⟨.plain c :: ps, ?_, ?_, ?_, heach⟩
        · rw [sourceText_cons, hsource]
          rfl
        · dsimp only
          rw [hrender]
          rfl
        · rw [List.append_nil, hsource]
          intro text rest' heq
          exact h.missed hmatch text rest' (hrest.trans heq)

/-- A replacement puts a text for each token of a text, and leaves the rest. -/
theorem replace_pieces (h : r.Finds word M) (text : List Char) :
    ∃ ps, sourceText ps = text ∧ r.replace word f text = renderText f ps ∧ Each (Scanned M) none ps [] :=
  @replaceFrom_pieces word r M f h _ ⟨none, text, 0, []⟩ (by dsimp only; omega)

/-- Without a match a text stays as it is. -/
theorem replace_absent (h : r.Finds word M) {text : List Char} (habsent : Absent M text) :
    r.replace word f text = text := by
  obtain ⟨ps, rfl, hrender, heach⟩ := @replace_pieces word r M f h text
  rw [hrender]
  have hplain : ∀ p ∈ ps, p.render f = p.source := by
    intro p hp
    cases p with
    | plain c => rfl
    | token w =>
      obtain ⟨front, back, rfl⟩ := List.append_of_mem hp
      exact absurd heach.piece.2 (habsent _ _ _ (by simp [Piece.source]))
  exact List.flatMap_congr hplain

end

/-! ## What occurs in the result -/

/-- The first and the last character of what is put for a token are none of a text. -/
def Guarded (mask text : List Char) : Prop := (∃ c ∈ mask.head?, c ∉ text) ∧ ∃ c ∈ mask.getLast?, c ∉ text

theorem Guarded.subset {mask text part : List Char} (h : Guarded mask text) (hpart : part ⊆ text) :
    Guarded mask part := by
  obtain ⟨⟨c, hc, hout⟩, d, hd, hout'⟩ := h
  exact ⟨⟨c, hc, fun hin => hout (hpart hin)⟩, d, hd, fun hin => hout' (hpart hin)⟩

section

variable {f : List Char → List Char} {ps : List Piece}

theorem renderText_start {x rest : List Char} (hguard : ∀ w, .token w ∈ ps → Guarded (f w) x)
    (h : renderText f ps = x ++ rest) : ∃ qs, ps = x.map .plain ++ qs ∧ rest = renderText f qs := by
  induction x generalizing ps with
  | nil => exact ⟨ps, rfl, h.symm⟩
  | cons c x ih =>
    cases ps with
    | nil => cases h
    | cons p ps =>
      cases p with
      | plain d =>
        obtain ⟨rfl, heq⟩ := List.cons.inj h
        have hguard : ∀ w, .token w ∈ ps → Guarded (f w) x := fun w hw =>
          (hguard w (List.mem_cons_of_mem _ hw)).subset (List.subset_cons_self _ _)
        obtain ⟨qs, rfl, hrest⟩ := ih hguard heq
        exact ⟨qs, rfl, hrest⟩
      | token w =>
        obtain ⟨⟨d, hd, hout⟩, -⟩ := hguard w List.mem_cons_self
        rw [renderText_cons] at h
        cases hmask : f w with
        | nil =>
          rw [hmask] at hd
          cases hd
        | cons e mask =>
          rw [hmask] at hd
          obtain rfl := Option.some.inj hd
          have h : e :: (mask ++ renderText f ps) = c :: (x ++ rest) := by rw [← List.cons_append, ← hmask]; exact h
          obtain ⟨rfl, -⟩ := List.cons.inj h
          exact absurd List.mem_cons_self hout

/-- A text that occurs in the result is one of plain characters, or inside of what was put for a token. -/
theorem occurrence {a x b : List Char} (hx : x ≠ []) (hguard : ∀ w, .token w ∈ ps → Guarded (f w) x)
    (h : renderText f ps = a ++ x ++ b) :
    (∃ front back, ps = front ++ x.map .plain ++ back ∧ a = renderText f front ∧ b = renderText f back) ∨
      ∃ w i j, .token w ∈ ps ∧ f w = i ++ x ++ j ∧ j ≠ [] ∧ j <+: b := by
  induction ps generalizing a with
  | nil =>
    have := (List.append_eq_nil_iff.mp (List.append_eq_nil_iff.mp h.symm).1).2
    exact absurd this hx
  | cons p ps ih =>
    have hguard' : ∀ w, .token w ∈ ps → Guarded (f w) x := fun w hw => hguard w (List.mem_cons_of_mem _ hw)
    have hbehind : ∀ a', a = p.render f ++ a' → renderText f ps = a' ++ x ++ b →
        (∃ front back, p :: ps = front ++ x.map .plain ++ back ∧ a = renderText f front ∧ b = renderText f back) ∨
          ∃ w i j, .token w ∈ p :: ps ∧ f w = i ++ x ++ j ∧ j ≠ [] ∧ j <+: b := by
      rintro a' rfl hrest
      rcases ih hguard' hrest with ⟨front, back, rfl, rfl, hb⟩ | ⟨w, i, j, hw, hmask⟩
      · exact .inl ⟨p :: front, back, rfl, rfl, hb⟩
      · exact .inr ⟨w, i, j, List.mem_cons_of_mem _ hw, hmask⟩
    cases a with
    | nil =>
      obtain ⟨qs, hqs, hb⟩ := renderText_start hguard h
      exact .inl ⟨[], qs, hqs, rfl, hb⟩
    | cons d a =>
      cases p with
      | plain c =>
        obtain ⟨rfl, heq⟩ := List.cons.inj h
        exact hbehind a rfl heq
      | token w =>
        have h : f w ++ renderText f ps = d :: a ++ (x ++ b) := by rw [← List.append_assoc]; exact h
        rcases List.append_eq_append_iff.mp h with ⟨m, ha, hrest⟩ | ⟨m, hmask, hrest⟩
        · exact hbehind m ha (by rw [hrest, List.append_assoc])
        · obtain ⟨-, e, he, hout⟩ := hguard w List.mem_cons_self
          have hinside : ∀ m', m' ≠ [] → m = m' → ¬ m' ⊆ x := by
            rintro m' hne rfl hsub
            rw [hmask, List.getLast?_append_of_ne_nil _ hne] at he
            exact hout (hsub (List.mem_of_getLast? he))
          rcases List.append_eq_append_iff.mp hrest with ⟨k, hm, hb⟩ | ⟨k, hm, hb⟩
          · by_cases hk : k = []
            · exact absurd (List.Subset.refl x) (hinside x hx (by rw [hm, hk, List.append_nil]))
            · refine .inr ⟨w, d :: a, k, List.mem_cons_self, ?_, hk, _, hb.symm⟩
              rw [hmask, hm, List.append_assoc]
          · by_cases hnil : m = []
            · subst hnil
              rw [List.append_nil] at hmask
              rw [List.nil_append] at hm
              refine hbehind [] (by rw [List.append_nil]; exact hmask.symm) ?_
              rw [hb, hm, List.nil_append]
            · exact absurd (hm ▸ List.subset_append_left m k) (hinside m hnil rfl)

/-- A place in a text is the beginning of a piece, or behind a beginning of a token. -/
theorem piece_at {a y : List Char} (h : sourceText ps = a ++ y) (hy : y ≠ []) :
    (∃ front p back, ps = front ++ p :: back ∧ a = sourceText front ∧ y = p.source ++ sourceText back) ∨
      ∃ front t back u v, ps = front ++ .token t :: back ∧ a = sourceText front ++ u ∧ t = u ++ v ∧ u ≠ [] := by
  induction ps generalizing a with
  | nil => exact absurd (List.append_eq_nil_iff.mp h.symm).2 hy
  | cons p ps ih =>
    have hbehind : ∀ a', a = p.source ++ a' → sourceText ps = a' ++ y →
        (∃ front q back, p :: ps = front ++ q :: back ∧ a = sourceText front ∧ y = q.source ++ sourceText back) ∨
          ∃ front t back u v, p :: ps = front ++ .token t :: back ∧ a = sourceText front ++ u ∧ t = u ++ v ∧ u ≠ [] := by
      rintro a' rfl hrest
      rcases ih hrest with ⟨front, q, back, rfl, rfl, hy⟩ | ⟨front, t, back, u, v, rfl, rfl, ht⟩
      · exact .inl ⟨p :: front, q, back, rfl, rfl, hy⟩
      · exact .inr ⟨p :: front, t, back, u, v, rfl, (List.append_assoc _ _ _).symm, ht⟩
    by_cases ha : a = []
    · subst ha
      exact .inl ⟨[], p, ps, rfl, rfl, h.symm⟩
    rcases List.append_eq_append_iff.mp h with ⟨m, ha', hrest⟩ | ⟨m, hp, hrest⟩
    · exact hbehind m ha' hrest
    · cases p with
      | token t => exact .inr ⟨[], t, ps, a, m, rfl, rfl, hp, ha⟩
      | plain c =>
        obtain ⟨d, a, rfl⟩ := List.exists_cons_of_ne_nil ha
        obtain ⟨rfl, hnil⟩ := List.cons.inj hp
        obtain ⟨rfl, rfl⟩ := List.append_eq_nil_iff.mp hnil.symm
        exact hbehind [] rfl hrest.symm

/-! ## What is next to an occurrence -/

theorem lastOr_render (ps : List Piece) (prev : Option Char) :
    (∃ front w, ps = front ++ [.token w]) ∨ lastOr prev (renderText f ps) = lastOr prev (sourceText ps) := by
  rcases List.eq_nil_or_concat ps with rfl | ⟨front, p, rfl⟩
  · exact .inr rfl
  rw [List.concat_eq_append]
  cases p with
  | token w => exact .inl ⟨front, w, rfl⟩
  | plain c => exact .inr (by simp [Piece.source, Piece.render])

theorem head_render (ps : List Piece) :
    (∃ w back, ps = .token w :: back) ∨ (renderText f ps).head? = (sourceText ps).head? := by
  cases ps with
  | nil => exact .inr rfl
  | cons p ps =>
    cases p with
    | token w => exact .inl ⟨w, ps, rfl⟩
    | plain c => exact .inr rfl

end

/-- Tokens begin and end at boundaries. -/
def Bordered (word : Char → Bool) : Option Char → Piece → List Char → Prop
  | _, .plain _, _ => True
  | prev, .token w, rest =>
    w ≠ [] ∧ atBoundary word prev w.head? = true ∧ atBoundary word (lastOr prev w) rest.head? = true

section

variable {word : Char → Bool} {f : List Char → List Char} {prev : Option Char} {front back : List Piece} {x : List Char}

theorem boundary_before (h : Each (Bordered word) prev (front ++ x.map .plain ++ back) []) (hx : x ≠ [])
    (hat : atBoundary word (lastOr prev (renderText f front)) x.head? = true) :
    atBoundary word (lastOr prev (sourceText front)) x.head? = true := by
  rcases @lastOr_render f front prev with ⟨front, w, rfl⟩ | hsame
  · rw [List.append_assoc, List.append_assoc, List.singleton_append] at h
    have hborder := h.piece.2.2
    rw [sourceText_append, sourceText_plain, List.head?_append_of_ne_nil _ hx] at hborder
    rw [sourceText_append, lastOr_append]
    simpa [Piece.source] using hborder
  · rwa [hsame] at hat

theorem boundary_behind {before : Option Char} (h : Each (Bordered word) prev (front ++ x.map .plain ++ back) [])
    (hx : x ≠ []) (hat : atBoundary word (lastOr before x) (renderText f back).head? = true) :
    atBoundary word (lastOr before x) (sourceText back).head? = true := by
  rcases @head_render f back with ⟨w, back, rfl⟩ | hsame
  · obtain ⟨hw, hborder, -⟩ := h.piece
    rw [sourceText_append, sourceText_plain, lastOr_append, lastOr_of_ne_nil hx _ before] at hborder
    rw [sourceText_cons]
    simpa [Piece.source, List.head?_append_of_ne_nil _ hw] using hborder
  · rwa [hsame] at hat

end

end Dt.Lib
