import Dt.Remote.Masking

/-!
# Addresses of the newer kind

The last expression finds what begins like an address, as long as it can be, and puts a mask for it if it is one. What
it leaves it finds again, and nothing else, also when the spaces between the words have become one: a match of the
result stood in the text, and a token has no other right behind it. So no token of the result is an address.
-/

namespace Dt.Remote

open Dt.Lib

section

variable {w : WordClass} {prev prev' : Option Char} {text rest x tail : List Char} {ps : List Piece}

/-! ## Characters -/

theorem isHexColon_of_hex {c : Char} (h : isHexDigit c = true) : isHexColon c = true := by
  rw [isHexColon, h]
  rfl

/-- The characters of a candidate. -/
theorem CandidateAt.chars (h : CandidateAt w.word prev x rest) : x ≠ [] ∧ (∀ c ∈ x, isHexColon c = true) ∧
    ∃ c ∈ x.head?, w.word c = true := by
  obtain ⟨⟨group, tail, rfl, hgroup, -, htail⟩, -⟩ := h
  obtain ⟨hne, hhex, -⟩ := isHextet_spec hgroup
  obtain ⟨c, group, rfl⟩ := List.exists_cons_of_ne_nil hne
  refine ⟨List.cons_ne_nil _ _, List.forall_mem_append.mpr ⟨fun d hd => isHexColon_of_hex (hhex d hd), ?_⟩, c, rfl,
    w.of_hex (hhex c List.mem_cons_self)⟩
  exact List.forall_mem_cons.mpr ⟨by decide, htail⟩

theorem CandidateAt.solid (h : CandidateAt w.word prev x rest) : ∀ c ∈ x, isSpace c = false := by
  intro c hc
  have hhex := h.chars.2.1 c hc
  rw [isHexColon, Bool.or_eq_true] at hhex
  rcases hhex with hhex | hcolon
  · exact w.solid (w.of_hex hhex)
  · rw [of_decide_eq_true hcolon]
    decide

/-- What is right behind a candidate up to a boundary makes it a longer one. -/
theorem CandidateAt.extend {more : List Char} (h : CandidateAt w.word prev x (more ++ rest))
    (hmore : ∀ c ∈ more, isHexColon c = true)
    (hend : atBoundary w.word (lastOr prev (x ++ more)) rest.head? = true) :
    CandidateAt w.word prev (x ++ more) rest := by
  obtain ⟨hne, -⟩ := h.chars
  obtain ⟨⟨group, tail, rfl, hgroup, htail, hall⟩, hat, -⟩ := h
  refine ⟨⟨group, tail ++ more, by simp, hgroup, List.append_ne_nil_of_left_ne_nil htail _,
    List.forall_mem_append.mpr ⟨hall, hmore⟩⟩, ?_, hend⟩
  rwa [List.head?_append_of_ne_nil _ hne]

/-! ## The pass -/

/-- The candidates that are no addresses are left. -/
def keepOther : Piece → List Piece
  | .plain c => [.plain c]
  | .token t => if isIpAddress t then [.token t] else t.map .plain

def addressMask (_ : List Char) : List Char := "<addr>".toList

theorem addressMask_mem (t : List Char) : addressMask t ∈ masks := .tail _ (.tail _ List.mem_cons_self)

theorem renderText_keepOther (ps : List Piece) :
    renderText addressMask (ps.flatMap keepOther) = renderText maskIpv6Candidate ps := by
  refine renderText_flatMap fun p _ => ?_
  cases p with
  | plain c => rfl
  | token t =>
    rw [keepOther, Piece.render, maskIpv6Candidate]
    split
    · rfl
    · exact renderText_plain t

theorem keepOther_bordered (h : Each (Scanned (Longest (CandidateAt w.word))) prev ps []) :
    sourceText (ps.flatMap keepOther) = sourceText ps ∧ Each (Bordered w.word) prev (ps.flatMap keepOther) [] := by
  refine h.refine ?_
  rintro prev (c | t) rest h
  · exact ⟨rfl, trivial, trivial⟩
  · rw [keepOther]
    split
    · exact ⟨List.append_nil t, ⟨h.1, h.2.1.2⟩, trivial⟩
    · exact ⟨sourceText_plain t, each_plain (fun _ _ _ => trivial) t⟩

/-- The last pass. -/
theorem candidate_pass (text : List Char) : ∃ ps, sourceText ps = text ∧
    ipv6CandidateRe.replace w.word maskIpv6Candidate text = renderText maskIpv6Candidate ps ∧
      Each (Scanned (Longest (CandidateAt w.word))) none ps [] :=
  replace_pieces ipv6CandidateRe_finds text

/-- A candidate of the result stood in the text. -/
theorem candidate_stood (heach : Each (Scanned (Longest (CandidateAt w.word))) prev ps [])
    (hprev : prev' = prev ∨ atBoundary w.word prev (sourceText ps).head? = true)
    (h : CandidateAt w.word prev' x tail) (heq : renderText maskIpv6Candidate ps = x ++ tail) :
    ∃ rest, sourceText ps = x ++ rest ∧ CandidateAt w.word prev x rest := by
  obtain ⟨hne, hchars, -⟩ := h.chars
  obtain ⟨hsource, hborder⟩ := keepOther_bordered heach
  rw [← renderText_keepOther] at heq
  obtain ⟨back, hback, rfl⟩ := renderText_start (fun t _ => mask_guarded (addressMask_mem t)
    (notMem_of_all hchars (by decide)) (notMem_of_all hchars (by decide))) heq
  have hrest : sourceText ps = x ++ sourceText back := by rw [← hsource, hback, sourceText_append, sourceText_plain]
  obtain ⟨hshape, hat, hend⟩ := h
  refine ⟨sourceText back, hrest, hshape, ?_, ?_⟩
  · rcases hprev with rfl | hprev
    · exact hat
    · rwa [hrest, List.head?_append_of_ne_nil _ hne] at hprev
  · rw [lastOr_of_ne_nil hne prev' prev] at hend
    rw [hback] at hborder
    exact @boundary_behind w.word addressMask prev [] back x prev hborder hne hend

/-- No candidate begins in a mask for an address. -/
theorem mask_barren {front back : List Char} (hmask : "<addr>".toList = front ++ back) (hback : back ≠ [])
    (heq : back ++ rest = x ++ tail) : ¬ CandidateAt w.word prev x tail := by
  rintro ⟨⟨group, more, rfl, hgroup, -⟩, -⟩
  obtain ⟨body, hbody⟩ : ∃ body, back = body ++ ['>'] := by
    obtain ⟨body, c, rfl⟩ := (List.eq_nil_or_concat back).resolve_left hback
    rw [List.concat_eq_append] at hmask ⊢
    have hlast := congrArg List.getLast? hmask
    rw [← List.append_assoc, List.getLast?_concat] at hlast
    obtain rfl : c = '>' := Option.some.inj (hlast.symm.trans (by decide))
    exact ⟨body, rfl⟩
  have hcolon : ':' ∉ body := by
    have : ':' ∉ "<addr>".toList := by decide
    rw [hmask, hbody] at this
    simp_all
  rw [hbody, List.append_assoc, List.append_assoc] at heq
  rcases List.append_eq_append_iff.mp heq with ⟨m, hm, hrest⟩ | ⟨m, hm, hrest⟩
  · cases m with
    | nil => cases hrest
    | cons c m =>
      obtain ⟨rfl, -⟩ := List.cons.inj hrest
      exact absurd ((isHextet_spec hgroup).2.1 '>' (by simp [hm])) (by decide)
  · cases m with
    | nil => cases hrest
    | cons c m =>
      obtain ⟨rfl, -⟩ := List.cons.inj hrest
      exact hcolon (by simp [hm])

theorem mask_scanned {front back : List Char} (hmask : "<addr>".toList = front ++ back) (prev : Option Char)
    (rest : List Char) : Each (Scanned (Longest (CandidateAt w.word))) prev (back.map .plain) rest := by
  induction back generalizing front prev with
  | nil => exact trivial
  | cons c back ih =>
    refine ⟨fun text rest' heq h => ?_, ih (by rw [hmask, ← List.append_cons]) _⟩
    rw [sourceText_plain] at heq
    exact mask_barren hmask (List.cons_ne_nil c back) heq h.1

/-- Two tokens never touch. -/
theorem tokens_apart {t t' : List Char} {back : List Piece}
    (h : Each (Scanned (Longest (CandidateAt w.word))) prev (.token t :: .token t' :: back) []) : False := by
  obtain ⟨⟨-, ht⟩, ⟨hne, ht'⟩, -⟩ := h
  rw [List.append_nil] at ht ht'
  have hend := ht'.1.2.2
  have hlonger := ht.2 (t ++ t') (sourceText back) (by simp [Piece.source]) (ht.1.extend ht'.1.chars.2.1 (by
    rw [lastOr_append]
    exact hend))
  have := List.length_pos_of_ne_nil hne
  rw [List.length_append] at hlonger
  omega

/-- Over what it has left, the last expression finds what is no address, and nothing else. -/
theorem candidate_again (heach : Each (Scanned (Longest (CandidateAt w.word))) prev ps [])
    (hprev : prev' = prev ∨ prev' = some '>' ∧ atBoundary w.word prev (sourceText ps).head? = true) :
    ∃ qs, sourceText qs = renderText maskIpv6Candidate ps ∧ Each (Scanned (Longest (CandidateAt w.word))) prev' qs [] ∧
      ∀ t, .token t ∈ qs → isIpAddress t = false := by
  induction ps generalizing prev prev' with
  | nil => exact ⟨[], rfl, trivial, by simp⟩
  | cons p ps ih =>
    have hstood : ∀ {x tail}, CandidateAt w.word prev' x tail → renderText maskIpv6Candidate (p :: ps) = x ++ tail →
        ∃ rest, sourceText (p :: ps) = x ++ rest ∧ CandidateAt w.word prev x rest :=
      fun h heq => candidate_stood heach (hprev.imp_right (·.2)) h heq
    have hall := heach
    obtain ⟨hp, hps⟩ := heach
    rw [List.append_nil] at hp
    cases p with
    | plain c =>
      obtain ⟨qs, hqs, hscan, haddress⟩ := ih hps (.inl rfl)
      refine ⟨.plain c :: qs, congrArg (c :: ·) hqs, ⟨fun x tail heq h => ?_, hscan⟩, by simpa using haddress⟩
      rw [List.append_nil, hqs] at heq
      obtain ⟨rest, hrest, hmatch⟩ := hstood h.1 heq
      obtain ⟨x', rest', heq', hlongest⟩ := exists_longest hmatch
      exact hp x' rest' (hrest.trans heq') hlongest
    | token t =>
      obtain ⟨hne, ht⟩ := hp
      by_cases haddr : isIpAddress t = true
      · obtain ⟨qs, hqs, hscan, haddress⟩ := ih hps (.inr ⟨rfl, ht.1.2.2⟩)
        refine ⟨"<addr>".toList.map .plain ++ qs, ?_, each_append.mpr ⟨@mask_scanned w [] _ rfl _ _, ?_⟩, ?_⟩
        · rw [sourceText_append, sourceText_plain, hqs, renderText_cons, Piece.render, maskIpv6Candidate, if_pos haddr]
        · rw [sourceText_plain]
          exact hscan
        · simpa using haddress
      · have haddr : isIpAddress t = false := by simpa using haddr
        have hkeep : Piece.render maskIpv6Candidate (.token t) = t := by
          rw [Piece.render, maskIpv6Candidate, haddr]
          rfl
        obtain ⟨qs, hqs, hscan, haddress⟩ := ih hps (.inl rfl)
        rw [Piece.source, lastOr_of_ne_nil hne prev prev'] at hscan
        have hout : sourceText (.token t :: qs) = renderText maskIpv6Candidate (.token t :: ps) := by
          rw [sourceText_cons, hqs, renderText_cons, hkeep]
          rfl
        refine ⟨.token t :: qs, hout, ⟨⟨hne, ?_, ?_⟩, hscan⟩, ?_⟩
        · rw [List.append_nil, hqs]
          refine ⟨ht.1.1, ?_, ?_⟩
          · rcases hprev with rfl | ⟨rfl, -⟩
            · exact ht.1.2.1
            · obtain ⟨c, hc, hword⟩ := ht.1.chars.2.2
              rw [hc]
              simp [atBoundary, hword, w.hascii '>' (by decide), isAlnum, isDigit]
          · rw [lastOr_of_ne_nil hne prev' prev]
            rcases @head_render maskIpv6Candidate ps with ⟨t', back, rfl⟩ | hsame
            · exact (tokens_apart hall).elim
            · rw [hsame]
              exact ht.1.2.2
        · intro x tail heq h
          rw [List.append_nil, hqs] at heq
          obtain ⟨rest, hrest, hmatch⟩ := hstood h (by rw [renderText_cons, hkeep]; exact heq)
          exact ht.2 x rest hrest hmatch
        · intro t' ht'
          rcases List.mem_cons.mp ht' with heq | ht'
          · obtain rfl := Piece.token.inj heq
            exact haddr
          · exact haddress t' ht'

end

end Dt.Remote
