import Dt.Remote.Candidates

/-!
# Redaction is complete

The result is short, and what it holds of accounts, names, addresses and home directories is little: an account only
where it does not begin at a boundary, a name or an address only at the very end of a cut line, the home directory only
at the end or right behind a `~` or a mask. A line that was not cut and holds no home directory stays as it is when it
is redacted again.
-/

namespace Dt.Remote

open Dt.Lib

section

variable {w : WordClass} {prev prev' : Option Char} {text out x tail : List Char} {ps : List Piece}

/-! ## One space between the words -/

theorem alike_word (h : Alike prev prev') : prev.any w.word = prev'.any w.word := by
  have hblank : ∀ p : Option Char, p.all isSpace = true → p.any w.word = false := by
    rintro (- | c) hc
    · rfl
    · exact w.hspace c hc
  rcases h with rfl | ⟨hp, hq⟩
  · rfl
  · rw [hblank _ hp, hblank _ hq]

theorem alike_boundary {next next' : Option Char} (h : Alike prev prev') (hnext : Alike next next') :
    atBoundary w.word prev next = atBoundary w.word prev' next' := by
  rw [atBoundary, atBoundary, alike_word h, alike_word hnext]

/-- A candidate stays when the spaces around it become one. -/
theorem candidate_squeezed {rest : List Char} (halike : Alike prev prev') (hne : x ≠ [])
    (hx : ∀ c ∈ x, isSpace c = false) (h : Squeezed rest (lastOr prev' x) tail) :
    CandidateAt w.word prev x rest ↔ CandidateAt w.word prev' x tail := by
  have hend : Alike rest.head? tail.head? := h.head (lastOr_solid hne hx prev')
  rw [CandidateAt, CandidateAt, alike_boundary halike (.inl rfl), lastOr_of_ne_nil hne prev prev',
    alike_boundary (.inl rfl) hend]

/-- A candidate behind spaces that became one stood there before. -/
theorem candidate_unsqueezed {c : Char} (hc : isSpace c = false) (halike : Alike prev prev')
    (hsqueezed : Squeezed (c :: text) prev' (x ++ tail)) (h : CandidateAt w.word prev' x tail) :
    ∃ rest, c :: text = x ++ rest ∧ CandidateAt w.word prev x rest := by
  obtain ⟨d, x, rfl⟩ := List.exists_cons_of_ne_nil h.chars.1
  cases hsqueezed with
  | char _ hrest =>
    have hbefore : (some c).all isSpace = false := hc
    obtain ⟨rest, rfl, hbehind⟩ := hrest.was hbefore (List.forall_mem_cons.mp h.solid).2
    exact ⟨rest, rfl, (candidate_squeezed halike (List.cons_ne_nil c x) h.solid hbehind).mpr h⟩
  | space hspace => cases hc.symm.trans hspace
  | drop hspace => cases hc.symm.trans hspace

/-- The tokens stay when the spaces between the words become one. -/
theorem candidates_squeezed (heach : Each (Scanned (Longest (CandidateAt w.word))) prev ps [])
    (hsqueezed : Squeezed (sourceText ps) prev' out) (halike : Alike prev prev') :
    ∃ qs, sourceText qs = out ∧ Each (Scanned (Longest (CandidateAt w.word))) prev' qs [] ∧
      ∀ t, .token t ∈ qs → .token t ∈ ps := by
  induction ps generalizing prev prev' out with
  | nil =>
    cases hsqueezed
    exact ⟨[], rfl, trivial, by simp⟩
  | cons p ps ih =>
    obtain ⟨hp, hps⟩ := heach
    rw [List.append_nil] at hp
    have hmem : ∀ {t : List Char} {qs : List Piece}, (∀ t, .token t ∈ qs → .token t ∈ ps) → .token t ∈ qs →
        .token t ∈ p :: ps := fun h ht => List.mem_cons_of_mem _ (h _ ht)
    cases p with
    | plain c =>
      rw [sourceText_cons, Piece.source, List.singleton_append] at hsqueezed
      cases hsqueezed with
      | done => exact ⟨[], rfl, trivial, by simp⟩
      | @char _ out _ _ hc h =>
        obtain ⟨qs, rfl, hscan, htokens⟩ := ih hps h (.inl rfl)
        refine ⟨.plain c :: qs, rfl, ⟨fun x tail heq hmatch => ?_, hscan⟩, by simpa using fun t ht => htokens t ht⟩
        rw [List.append_nil] at heq
        have hsqueezed : Squeezed (c :: sourceText ps) prev' (x ++ tail) := heq ▸ Squeezed.char hc h
        obtain ⟨rest, hrest, hstood⟩ := candidate_unsqueezed hc halike hsqueezed hmatch.1
        obtain ⟨x', rest', heq', hlongest⟩ := exists_longest hstood
        exact hp x' rest' (hrest.trans heq') hlongest
      | @space _ out _ _ hc h =>
        obtain ⟨qs, rfl, hscan, htokens⟩ := ih hps h (alike_space hc)
        refine ⟨.plain ' ' :: qs, rfl, ⟨fun x tail heq hmatch => ?_, hscan⟩, by simpa using fun t ht => htokens t ht⟩
        obtain ⟨d, x, rfl⟩ := List.exists_cons_of_ne_nil hmatch.1.chars.1
        obtain ⟨rfl, -⟩ := List.cons.inj heq
        exact absurd (hmatch.1.solid ' ' List.mem_cons_self) (by decide)
      | drop hc hblank h =>
        obtain ⟨qs, rfl, hscan, htokens⟩ := ih hps h (.inr ⟨hc, hblank⟩)
        exact ⟨qs, rfl, hscan, fun t ht => hmem htokens ht⟩
    | token t =>
      obtain ⟨hne, ht⟩ := hp
      obtain ⟨rest, rfl, h⟩ := hsqueezed.keep ht.1.solid
      obtain ⟨qs, rfl, hscan, htokens⟩ := ih hps h (.inl (lastOr_of_ne_nil hne _ _))
      refine ⟨.token t :: qs, rfl, ⟨⟨hne, ?_, ?_⟩, hscan⟩, ?_⟩
      · rw [List.append_nil]
        exact (candidate_squeezed halike hne ht.1.solid h).mp ht.1
      · intro x tail heq hmatch
        rw [List.append_nil] at heq
        obtain ⟨c, t, rfl⟩ := List.exists_cons_of_ne_nil hne
        obtain ⟨rest, hrest, hstood⟩ := candidate_unsqueezed (ht.1.solid c List.mem_cons_self) halike
          (heq ▸ hsqueezed) hmatch
        exact ht.2 x rest hrest hstood
      · intro t' ht'
        rcases List.mem_cons.mp ht' with heq | ht'
        · exact heq ▸ List.mem_cons_self
        · exact hmem htokens ht'

/-- What is nowhere in a text is nowhere when the spaces between the words have become one. -/
theorem squeezed_absent {M N : Pattern}
    (hsolid : ∀ {p x r}, N p x r → x ≠ [] ∧ ∀ c ∈ x, isSpace c = false)
    (hMN : ∀ {p p' x r r'}, Alike p p' → Alike (List.head? r) (List.head? r') → N p' x r' → M p x r)
    (h : Absent M text) (hsqueezed : Squeezed text none out) : Absent N out := by
  intro a x b heq hN
  obtain ⟨hne, hx⟩ := hsolid hN
  obtain ⟨a', b', rfl, halike, hrest⟩ := hsqueezed.occurrence (.inl rfl) hne hx heq
  exact h a' x b' rfl (hMN halike (hrest.head (lastOr_solid hne hx none)) hN)

theorem squeezed_account (h : Absent (AccountAt w.word) text) (hsqueezed : Squeezed text none out) :
    Absent (AccountAt w.word) out := by
  refine squeezed_absent ?_ ?_ h hsqueezed
  · rintro p x r ⟨name, rfl, hne, hall, -⟩
    refine ⟨List.append_ne_nil_of_left_ne_nil hne _, fun c hc => ?_⟩
    have hc := account_chars hall c hc
    simp only [isUserChar, Bool.or_eq_true, decide_eq_true_eq] at hc
    rcases hc with (((((hc | rfl) | rfl) | rfl) | rfl) | rfl) | rfl
    · exact w.solid (w.of_alnum hc)
    all_goals decide
  · rintro p p' x r r' halike hhead ⟨name, rfl, hne, hall, hat, hhost⟩
    refine ⟨name, rfl, hne, hall, ?_, ?_⟩
    · rwa [alike_boundary halike (.inl rfl)]
    · cases hr : r'.head? with
      | none =>
        rw [hr] at hhost
        cases hhost
      | some c =>
        rw [hr] at hhost hhead
        have hc : isSpace c = false := by
          simp only [Option.any_some, isHostStart, Bool.or_eq_true, decide_eq_true_eq] at hhost
          rcases hhost with hc | rfl
          · exact w.solid (w.of_alnum hc)
          · decide
        rw [hhead.eq_of_solid hc]
        exact hhost

theorem squeezed_host (h : Absent (HostAt w.word) text) (hsqueezed : Squeezed text none out) :
    Absent (HostAt w.word) out := by
  refine squeezed_absent ?_ ?_ h hsqueezed
  · rintro p x r ⟨hdotted, -⟩
    refine ⟨hdotted.ne_nil, fun c hc => ?_⟩
    have hc := hdotted.chars.2 c hc
    simp only [isLabelChar, Bool.or_eq_true, decide_eq_true_eq] at hc
    rcases hc with (hc | rfl) | rfl
    · exact w.solid (w.of_alnum hc)
    all_goals decide
  · rintro p p' x r r' halike hhead ⟨hdotted, hat, hend⟩
    refine ⟨hdotted, ?_, ?_⟩
    · rwa [alike_boundary halike (.inl rfl)]
    · rwa [lastOr_of_ne_nil hdotted.ne_nil p p', alike_boundary (.inl rfl) hhead]

/-! ## Addresses -/

/-- A run of an address and nothing else: neither a character of words nor a colon or a point is next to it. -/
def AddressAt (w : WordClass) : Pattern := fun prev text rest =>
  isIpAddress text = true ∧ (∀ c ∈ text, isHexColon c = true ∨ c = '.') ∧ text.head?.any isHexDigit = true ∧
    (lastOr none text).any isHexDigit = true ∧
      (prev.any fun c => w.word c || c = ':' || c = '.') = false ∧
        (rest.head?.any fun c => w.word c || c = ':' || c = '.') = false

theorem ipv4_dotted {s : List Char} (h : (ipv4Address s).isSome = true) : Dotted s := by
  obtain ⟨hlen, hoctets⟩ := ipv4_octets h
  refine ⟨splitOn '.' s, by omega, (joinWith_splitOn '.' s).symm, fun octet hoctet => ?_⟩
  obtain ⟨hne, hdigits⟩ := hoctets octet hoctet
  refine ⟨hne, fun c hc => ?_⟩
  rw [isLabelChar, isAlnum, hdigits c hc]
  rfl

theorem ipv4_head {s : List Char} (h : (ipv4Address s).isSome = true) : ∃ c rest, s = c :: rest ∧ isDigit c = true := by
  obtain ⟨-, hoctets⟩ := ipv4_octets h
  obtain ⟨first, others, hsplit, -, hs⟩ := splitOn_head '.' s
  obtain ⟨hne, hdigits⟩ := hoctets first (hsplit ▸ List.mem_cons_self)
  obtain ⟨c, first, rfl⟩ := List.exists_cons_of_ne_nil hne
  rcases hs with ⟨-, rfl⟩ | ⟨rest, rfl, -⟩ <;> exact ⟨c, _, rfl, hdigits c List.mem_cons_self⟩

theorem word_or_colon {c : Char} (h : isHexColon c = true) : (w.word c || c = ':' || c = '.') = true := by
  rw [isHexColon, Bool.or_eq_true] at h
  rcases h with h | h
  · rw [w.of_hex h]
    rfl
  · simp [of_decide_eq_true h]

theorem boundary_of_word {c : Char} {p : Option Char} (hc : w.word c = true)
    (hp : (p.any fun c => w.word c || c = ':' || c = '.') = false) :
    atBoundary w.word p (some c) = true ∧ atBoundary w.word (some c) p = true := by
  have hp : p.any w.word = false := by
    cases p with
    | none => rfl
    | some d =>
      simp only [Option.any_some, Bool.or_eq_false_iff] at hp
      exact hp.1.1
  simp [atBoundary, hp, hc]

theorem point_of_ipv4 (h : (ipv4Address x).isSome = true) : '.' ∈ x := (ipv4_dotted h).chars.1

/-- A text without names of three labels, in which no token is an address, holds no address. -/
theorem no_address (heach : Each (Scanned (Longest (CandidateAt w.word))) none ps [])
    (htokens : ∀ t, .token t ∈ ps → isIpAddress t = false) (hhost : Absent (HostAt w.word) (sourceText ps)) :
    Absent (AddressAt w) (sourceText ps) := by
  rintro a x b heq ⟨haddress, hchars, hhead, hlast, hprev, hnext⟩
  obtain ⟨c, x, rfl⟩ : ∃ c x', x = c :: x' := by
    cases x with
    | nil => cases hhead
    | cons c x => exact ⟨c, x, rfl⟩
  have hc : w.word c = true := w.of_hex hhead
  obtain ⟨d, -, hd⟩ := lastOr_mem (List.cons_ne_nil c x) none
  rw [hd] at hlast
  have hend : ∀ p, atBoundary w.word (lastOr p (c :: x)) b.head? = true := by
    intro p
    rw [lastOr_of_ne_nil (List.cons_ne_nil c x) p none, hd]
    exact (boundary_of_word (w.of_hex hlast) hnext).2
  by_cases hpoint : '.' ∈ c :: x
  · rcases Bool.or_eq_true_iff.mp haddress with hipv4 | hipv6
    · exact hhost _ _ _ heq ⟨ipv4_dotted hipv4, (boundary_of_word hc hprev).1, hend _⟩
    · obtain ⟨front, last, hsplit, hipv4⟩ := ipv6_octets hipv6 hpoint
      have hdotted := ipv4_dotted hipv4
      have hne := hdotted.ne_nil
      refine hhost (a ++ front ++ [':']) last b (by rw [heq, hsplit]; simp) ⟨hdotted, ?_, ?_⟩
      · obtain ⟨e, last, rfl, he⟩ := ipv4_head hipv4
        have he : w.word e = true := w.of_alnum (by rw [isAlnum, he]; rfl)
        simp [atBoundary, he, w.hascii ':' (by decide), isAlnum, isDigit]
      · have hend := hend none
        rw [hsplit, lastOr_append, lastOr_cons] at hend
        rwa [lastOr_of_ne_nil hne _ (some ':')]
  · rcases Bool.or_eq_true_iff.mp haddress with hipv4 | hipv6
    · exact hpoint (point_of_ipv4 hipv4)
    have hcolon : (c :: x).head? ≠ some ':' := by
      intro h
      obtain rfl := Option.some.inj h
      cases hhead
    obtain ⟨group, more, hsplit, hne, hgroup⟩ := ipv6_group hipv6 hpoint hcolon
    have hmore : ∀ e ∈ more, isHexColon e = true := by
      intro e he
      have hin : e ∈ c :: x := by simp [hsplit, he]
      refine (hchars e hin).resolve_right ?_
      rintro rfl
      exact hpoint hin
    have hlongest : Longest (CandidateAt w.word) (lastOr none a) (c :: x) b := by
      refine ⟨⟨⟨group, more, hsplit, hgroup, hne, hmore⟩, (boundary_of_word hc hprev).1, hend _⟩, ?_⟩
      intro x' b' heq' hmatch
      rcases List.append_eq_append_iff.mp heq' with ⟨m, hm, rfl⟩ | ⟨m, hm, -⟩
      · cases m with
        | nil => rw [hm, List.append_nil]
        | cons e m =>
          have he := hmatch.chars.2.1 e (by simp [hm])
          rw [List.cons_append, List.head?_cons, Option.any_some, word_or_colon he] at hnext
          cases hnext
      · rw [hm, List.length_append]
        exact Nat.le_add_right _ _
    rw [List.append_assoc] at heq
    rcases piece_at heq (by simp) with ⟨front, p, back, rfl, rfl, hy⟩ | ⟨front, t, back, u, v, rfl, rfl, rfl, hu⟩
    · cases p with
      | plain e => exact heach.piece _ _ hy.symm hlongest
      | token t =>
        obtain ⟨rfl, -⟩ := hlongest.unique heach.piece.2 hy
        cases haddress.symm.trans (htokens _ (by simp))
    · obtain ⟨e, he, hbefore⟩ := lastOr_mem hu (lastOr none (sourceText front))
      have hhex := heach.piece.2.1.chars.2.1 e (List.mem_append_left _ he)
      rw [lastOr_append, hbefore, Option.any_some, word_or_colon hhex] at hprev
      cases hprev

/-! ## The whole run -/

/-- A home directory that the code looks for. -/
def KnownHome (home : List Char) : Prop := home ≠ [] ∧ home ≠ ['/']

/-- One that no mask, no `~` and no space is a part of. -/
def PlainHome (home : List Char) : Prop :=
  KnownHome home ∧ '<' ∉ home ∧ '>' ∉ home ∧ '~' ∉ home ∧ ∀ c ∈ home, isSpace c = false

/-- What holds after the last expression. -/
structure Clean (w : WordClass) (home : Option (List Char)) (text : List Char) : Prop where
  accounts : Absent (AccountAt w.word) text
  hosts : Absent (HostAt w.word) text
  candidates : ∃ ps, sourceText ps = text ∧ Each (Scanned (Longest (CandidateAt w.word))) none ps [] ∧
    ∀ t, .token t ∈ ps → isIpAddress t = false
  homes : ∀ dir, home = some dir → PlainHome dir → Absent (BareHomeAt dir) text

theorem absent_nil {M : Pattern} (hM : ∀ {p x r}, M p x r → x ≠ []) : Absent M [] := by
  intro a x b heq h
  exact hM h (List.append_eq_nil_iff.mp (List.append_eq_nil_iff.mp heq.symm).1).2

theorem redactHomePath_absent {dir : List Char} (hdir : PlainHome dir) (text : List Char) :
    Absent (BareHomeAt dir) (redactHomePath w (some dir) text) := by
  obtain ⟨⟨hne, hroot⟩, -, -, htilde, -⟩ := hdir
  rw [redactHomePath]
  split
  · rename_i hempty
    rw [hempty]
    exact absent_nil fun h => h.1.1 ▸ hne
  · rw [if_neg (by simp [hne, hroot])]
    exact home_pass hne htilde text

/-- The four passes. -/
def maskDetail (w : WordClass) (home : Option (List Char)) (text : List Char) : List Char :=
  ipv6CandidateRe.replace w.word maskIpv6Candidate (dottedTokenRe.replace w.word maskDottedToken
    (userAtHostRe.replace w.word (fun _ => "<user>@".toList) (redactHomePath w home text)))

theorem maskDetail_clean (w : WordClass) (home : Option (List Char)) (text : List Char) :
    Clean w home (maskDetail w home text) := by
  obtain ⟨users, husers, hrender₁, heach₁⟩ := @user_pieces w (redactHomePath w home text)
  obtain ⟨hosts, hhosts, hrender₂, hborder₂, habsent₂⟩ :=
    @host_pass w (userAtHostRe.replace w.word (fun _ => "<user>@".toList) (redactHomePath w home text))
  obtain ⟨ps, hps, hrender₃, heach₃⟩ := @candidate_pass w (dottedTokenRe.replace w.word maskDottedToken
    (userAtHostRe.replace w.word (fun _ => "<user>@".toList) (redactHomePath w home text)))
  obtain ⟨hsource₃, hborder₃⟩ := keepOther_bordered heach₃
  obtain ⟨qs, hqs, hscan, haddress⟩ := candidate_again heach₃ (.inl rfl)
  rw [maskDetail, hrender₃]
  have hmask₁ : ∀ t, .token t ∈ users → (fun _ => "<user>".toList) t ∈ masks := fun t _ => List.mem_cons_self
  have hmask₂ : ∀ t, .token t ∈ hosts → maskDottedToken t ∈ masks := fun t _ => maskDottedToken_mem t
  have hmask₃ : ∀ t, .token t ∈ ps.flatMap keepOther → addressMask t ∈ masks := fun t _ => addressMask_mem t
  rw [hrender₁] at hhosts
  rw [hrender₂] at hps
  refine ⟨?_, ?_, ⟨qs, hqs, hscan, haddress⟩, ?_⟩
  · rw [← renderText_keepOther]
    refine masked_account hmask₃ hborder₃ ?_
    rw [hsource₃, hps]
    refine masked_account hmask₂ hborder₂ ?_
    rw [hhosts]
    exact user_pass heach₁
  · rw [← renderText_keepOther]
    intro a x b heq h
    obtain ⟨front, back, hsplit, hhost⟩ := masked_host hmask₃ hborder₃ heq h
    refine habsent₂ _ x _ ?_ hhost
    rw [← hps, ← hsource₃, hsplit, sourceText_between]
  · rintro dir rfl hdir
    have hne := hdir.1.1
    have hopen := hdir.2.1
    have hclose := hdir.2.2.1
    rw [← renderText_keepOther]
    refine masked_home hmask₃ hne hopen hclose ?_
    rw [hsource₃, hps]
    refine masked_home hmask₂ hne hopen hclose ?_
    rw [hhosts]
    refine masked_home hmask₁ hne hopen hclose ?_
    rw [husers]
    exact redactHomePath_absent hdir text

theorem solid_of_pathChar (w : WordClass) {c : Char} (h : isPathChar c = true) : isSpace c = false := by
  simp only [isPathChar, Bool.or_eq_true, decide_eq_true_eq] at h
  rcases h with ((hc | rfl) | rfl) | rfl
  · exact w.solid (w.of_alnum hc)
  all_goals decide

/-- What holds of the joined words, before they are cut. -/
structure Settled (w : WordClass) (home : Option (List Char)) (line : List Char) : Prop where
  accounts : Absent (AccountAt w.word) line
  hosts : Absent (HostAt w.word) line
  candidates : ∃ ps, sourceText ps = line ∧ Each (Scanned (Longest (CandidateAt w.word))) none ps [] ∧
    ∀ t, .token t ∈ ps → isIpAddress t = false
  homes : ∀ dir, home = some dir → PlainHome dir →
    Absent (fun prev text rest => BareHomeAt dir prev text rest ∧ rest.head? = some '/') line
  spaces : ∀ c ∈ line, isSpace c = false ∨ c = ' '

theorem Clean.settled {home : Option (List Char)} (h : Clean w home text) :
    Settled w home (joinWith [' '] (words text)) := by
  have hsqueezed := squeezed_words text
  refine ⟨squeezed_account h.accounts hsqueezed, squeezed_host h.hosts hsqueezed, ?_, ?_, hsqueezed.mem⟩
  · obtain ⟨ps, rfl, hscan, haddress⟩ := h.candidates
    obtain ⟨qs, hqs, hscan', htokens⟩ := candidates_squeezed hscan hsqueezed (.inl rfl)
    exact ⟨qs, hqs, hscan', fun t ht => haddress t (htokens t ht)⟩
  · rintro dir rfl hdir
    refine squeezed_absent ?_ ?_ (h.homes dir rfl hdir) hsqueezed
    · rintro p x r ⟨⟨⟨rfl, -⟩, -⟩, -⟩
      exact ⟨hdir.1.1, hdir.2.2.2.2⟩
    · rintro p p' x r r' halike hhead ⟨⟨⟨rfl, hprev, -⟩, htilde, hbracket⟩, hslash⟩
      rw [hslash] at hhead
      have hslash := hhead.eq_of_solid (by decide)
      refine ⟨⟨rfl, ?_, by simp [atPathEnd, hslash]⟩, ?_, ?_⟩
      · cases p with
        | none => rfl
        | some c =>
          by_contra hc
          have hc : isPathChar c = true := by simpa using hc
          rw [halike.symm.eq_of_solid (solid_of_pathChar w hc)] at hprev
          cases hc.symm.trans hprev
      · rintro rfl
        exact htilde (halike.symm.eq_of_solid (by decide))
      · rintro rfl
        exact hbracket (halike.symm.eq_of_solid (by decide))

/-- Next to a text in a cut line is what was next to it before, but at the end of a line that was cut. -/
theorem cut_context {line a x b : List Char} {n : Nat} (heq : line.take n = a ++ x ++ b)
    (hcut : ¬ (b = [] ∧ (line.take n).length = n)) : ∃ b', line = a ++ x ++ b' ∧ b'.head? = b.head? := by
  refine ⟨b ++ line.drop n, by rw [← List.append_assoc, ← heq, List.take_append_drop], ?_⟩
  by_cases hb : b = []
  · have hlen : line.length ≤ n := by
      by_contra hlonger
      exact hcut ⟨hb, List.length_take_of_le (by omega)⟩
    rw [List.drop_eq_nil_of_le hlen, List.append_nil]
  · rw [List.head?_append_of_ne_nil _ hb]

/-- A settled line is left by the four passes. -/
theorem Settled.fixed {home : Option (List Char)} {line : List Char} (h : Settled w home line)
    (hhome : ∀ dir, home = some dir → KnownHome dir → Absent (PathAt dir) line) : maskDetail w home line = line := by
  have hpath : redactHomePath w home line = line := by
    unfold redactHomePath
    split
    · rfl
    · split
      · rfl
      · rename_i dir
        split
        · rfl
        · rename_i hknown
          obtain ⟨hne, hroot⟩ := not_or.mp hknown
          exact replace_absent (homeRe_finds hne) (hhome dir rfl ⟨hne, hroot⟩)
  rw [maskDetail, hpath, replace_absent userAtHostRe_finds h.accounts, replace_absent dottedTokenRe_finds h.hosts]
  obtain ⟨ps, hps, hrender, hscan⟩ := @candidate_pass w line
  obtain ⟨qs, hqs, hscan', haddress⟩ := h.candidates
  obtain rfl := hscan.unique hscan' (hps.trans hqs.symm)
  rw [hrender, ← hps]
  refine List.flatMap_congr fun p hp => ?_
  cases p with
  | plain c => rfl
  | token t =>
    rw [Piece.render, maskIpv6Candidate, haddress t hp]
    rfl

/-- What may be said of every redacted line. A run that is cut off at the end may look like a name or an address. -/
structure Redacted (w : WordClass) (home : Option (List Char)) (line : List Char) : Prop where
  short : line.length ≤ remoteDetailMax
  accounts : Absent (AccountAt w.word) line
  hosts : ∀ a x b, line = a ++ x ++ b → HostAt w.word (lastOr none a) x b →
    b = [] ∧ line.length = remoteDetailMax
  addresses : ∀ a x b, line = a ++ x ++ b → AddressAt w (lastOr none a) x b →
    b = [] ∧ line.length = remoteDetailMax
  homes : ∀ dir, home = some dir → PlainHome dir → ∀ a b, line = a ++ dir ++ b →
    PathAt dir (lastOr none a) dir b → b = [] ∨ lastOr none a = some '~' ∨ lastOr none a = some '>'
  again : line.length < remoteDetailMax →
    (∀ dir, home = some dir → KnownHome dir → Absent (PathAt dir) line) → redactRemoteDetail w home line = line

theorem redactRemoteDetail_eq (w : WordClass) (home : Option (List Char)) (text : List Char) :
    redactRemoteDetail w home text =
      (joinWith [' '] (words (maskDetail w home (text.take (remoteDetailMax * 4))))).take remoteDetailMax := by
  unfold redactRemoteDetail
  split
  · rename_i hempty
    subst hempty
    cases home <;> rfl
  · rfl

theorem redactRemoteDetail_complete (w : WordClass) (home : Option (List Char)) (text : List Char) :
    Redacted w home (redactRemoteDetail w home text) := by
  have hsettled := (maskDetail_clean w home (text.take (remoteDetailMax * 4))).settled
  rw [redactRemoteDetail_eq]
  generalize hwords : words (maskDetail w home (text.take (remoteDetailMax * 4))) = ws at *
  refine ⟨List.length_take_le _ _, ?_, ?_, ?_, ?_, ?_⟩
  · rintro a x b heq ⟨name, rfl, hne, hall, hat, hhost⟩
    obtain ⟨b', heq', hhead⟩ := cut_context heq fun hcut => by
      rw [hcut.1] at hhost
      cases hhost
    exact hsettled.accounts _ _ _ heq' ⟨name, rfl, hne, hall, hat, hhead ▸ hhost⟩
  · rintro a x b heq ⟨hdotted, hat, hend⟩
    by_contra hcut
    obtain ⟨b', heq', hhead⟩ := cut_context heq hcut
    exact hsettled.hosts _ _ _ heq' ⟨hdotted, hat, hhead ▸ hend⟩
  · rintro a x b heq ⟨haddress, hchars, hfirst, hlast, hprev, hnext⟩
    by_contra hcut
    obtain ⟨b', heq', hhead⟩ := cut_context heq hcut
    obtain ⟨ps, hps, hscan, htokens⟩ := hsettled.candidates
    rw [← hps] at heq'
    exact no_address hscan htokens (hps ▸ hsettled.hosts) _ _ _ heq'
      ⟨haddress, hchars, hfirst, hlast, hprev, hhead ▸ hnext⟩
  · rintro dir rfl hdir a b heq ⟨-, hprev, hend⟩
    by_cases hb : b = []
    · exact .inl hb
    · by_contra hbare
      obtain ⟨hb', htilde, hbracket⟩ : b ≠ [] ∧ lastOr none a ≠ some '~' ∧ lastOr none a ≠ some '>' := by
        simpa only [not_or] using hbare
      have hslash : b.head? = some '/' := by
        simp only [atPathEnd, Bool.or_eq_true, decide_eq_true_eq] at hend
        rcases hend with (hend | hend) | hend
        · exact absurd hend hb
        · have hmem : '\n' ∈ joinWith [' '] ws := List.mem_of_mem_take (by rw [heq, hend]; simp)
          exact absurd (hsettled.spaces _ hmem) (by decide)
        · exact hend
      obtain ⟨b', heq', hhead⟩ := cut_context heq fun hcut => hb hcut.1
      refine hsettled.homes dir rfl hdir _ _ _ heq' ⟨⟨⟨rfl, hprev, ?_⟩, htilde, hbracket⟩, hhead.trans hslash⟩
      simp [atPathEnd, hhead.trans hslash]
  · intro hshort hhome
    have hwhole : (joinWith [' '] ws).take remoteDetailMax = joinWith [' '] ws := by
      refine List.take_of_length_le ?_
      rw [List.length_take] at hshort
      omega
    rw [hwhole] at hshort hhome ⊢
    have hclamp : (joinWith [' '] ws).take (remoteDetailMax * 4) = joinWith [' '] ws :=
      List.take_of_length_le (by omega)
    rw [redactRemoteDetail_eq, hclamp, hsettled.fixed hhome]
    have hagain : words (joinWith [' '] ws ++ []) = ws :=
      words_joinWith (by decide) (fun v hv => words_isWord (hwords ▸ hv)) (List.forall_mem_nil _)
    rw [List.append_nil] at hagain
    rw [hagain, hwhole]

end

/-- The words of ASCII. -/
def asciiWords : WordClass where
  word c := isAlnum c || c = '_'
  hascii _ _ := rfl
  hspace c hspace := by
    have hle : ∀ {d e : Char}, d ≤ e → d.toNat ≤ e.toNat := fun h => UInt32.le_iff_toNat_le.mp h
    have hspace : c.toNat ≤ 32 ∨ 133 ≤ c.toNat := by
      simp only [isSpace, Bool.or_eq_true, Bool.and_eq_true, decide_eq_true_eq, beq_iff_eq] at hspace
      omega
    by_contra hword
    simp only [isAlnum, isDigit, Bool.not_eq_false, Bool.or_eq_true, Bool.and_eq_true, decide_eq_true_eq] at hword
    have hrange : 48 ≤ c.toNat ∧ c.toNat ≤ 122 := by
      rcases hword with ((⟨hlow, hhigh⟩ | ⟨hlow, hhigh⟩) | ⟨hlow, hhigh⟩) | rfl
      · exact ⟨hle hlow, le_trans (hle hhigh) (by decide)⟩
      · exact ⟨le_trans (by decide) (hle hlow), hle hhigh⟩
      · exact ⟨le_trans (by decide) (hle hlow), le_trans (hle hhigh) (by decide)⟩
      · decide
    omega

/-- The expressions look for what begins and ends at boundaries, and for addresses from a digit on; and what was behind
a home directory may be one when this has become a `~`. -/
theorem kept_details :
    (redactRemoteDetail asciiWords none "lib_a.b.c".toList = "lib_".toList ++ "a.b.c".toList ∧
      Dotted "a.b.c".toList) ∧
    redactRemoteDetail asciiWords none "-@b".toList = "-@b".toList ∧
    (redactRemoteDetail asciiWords none "::1".toList = "::1".toList ∧ isIpAddress "::1".toList = true) ∧
    (redactRemoteDetail asciiWords (some "/a".toList) "/a/a".toList = "~/a".toList ∧
      PathAt "/a".toList (some '~') "/a".toList []) ∧
    redactRemoteDetail asciiWords (some "/a".toList) "~/a".toList = "~~".toList := by
  have hlabels : Dotted "a.b.c".toList :=
    ⟨[['a'], ['b'], ['c']], Nat.le_refl 3, rfl, by simp [isLabelChar, isAlnum]⟩
  exact ⟨⟨by decide, hlabels⟩, by decide, ⟨by decide, by decide⟩, ⟨by decide, rfl, by decide, by decide⟩, by decide⟩

end Dt.Remote
