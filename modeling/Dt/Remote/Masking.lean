import Dt.Remote.Redaction

/-!
# What masks leave

Each expression runs over what the ones before it have left. A mask stands between angle brackets and has no character
that a pattern needs, and the names and addresses it is put for begin and end at boundaries, so no mask makes a match of
an account, of a name or, but for one right behind a bracket, of the home directory.
-/

namespace Dt.Remote

open Dt.Lib

def masks : List (List Char) := ["<user>".toList, "<host>".toList, "<addr>".toList]

/-- The home directory where neither a `~` nor a mask is right before it. -/
def BareHomeAt (home : List Char) : Pattern := fun prev text rest =>
  PathAt home prev text rest ∧ prev ≠ some '~' ∧ prev ≠ some '>'

section

variable {m x : List Char}

theorem mask_chars (h : m ∈ masks) : '@' ∉ m ∧ '.' ∉ m ∧ '/' ∉ m ∧ '\n' ∉ m ∧ m ≠ [] := by
  revert h
  revert m
  decide

theorem maskDottedToken_mem (t : List Char) : maskDottedToken t ∈ masks := by
  rw [maskDottedToken]
  split
  · exact .tail _ (.tail _ List.mem_cons_self)
  · exact .tail _ List.mem_cons_self

theorem mask_cons (h : m ∈ masks) : ∃ c rest, m = c :: rest ∧ c ≠ '/' ∧ c ≠ '\n' := by
  simp only [masks, List.mem_cons, List.not_mem_nil, or_false] at h
  rcases h with rfl | rfl | rfl <;> exact ⟨'<', _, rfl, by decide, by decide⟩

theorem mask_head (h : m ∈ masks) (rest : List Char) : (m ++ rest).head? = some '<' := by
  simp only [masks, List.mem_cons, List.not_mem_nil, or_false] at h
  rcases h with rfl | rfl | rfl <;> rfl

theorem mask_last (h : m ∈ masks) (prev : Option Char) : lastOr prev m = some '>' := by
  simp only [masks, List.mem_cons, List.not_mem_nil, or_false] at h
  rcases h with rfl | rfl | rfl <;> rfl

theorem mask_guarded (h : m ∈ masks) (hopen : '<' ∉ x) (hclose : '>' ∉ x) : Guarded m x := by
  simp only [masks, List.mem_cons, List.not_mem_nil, or_false] at h
  rcases h with rfl | rfl | rfl <;> exact ⟨⟨'<', rfl, hopen⟩, '>', rfl, hclose⟩

end

section

variable {w : WordClass} {f : List Char → List Char} {ps : List Piece} {home : List Char}

theorem notMem_of_all {p : Char → Bool} {x : List Char} {c : Char} (hx : ∀ d ∈ x, p d = true) (hc : p c = false) :
    c ∉ x := by
  intro h
  cases hc.symm.trans (hx c h)

theorem atPathEnd_of_head {c : Char} {rest : List Char} (hslash : c ≠ '/') (hend : c ≠ '\n') :
    atPathEnd (c :: rest) = false := by
  simp [atPathEnd, hslash, hend]

theorem account_chars {name : List Char} (hall : ∀ c ∈ name, isUserChar c = true) :
    ∀ c ∈ name ++ ['@'], (isUserChar c || c = '@') = true := by
  refine List.forall_mem_append.mpr ⟨fun c hc => ?_, List.forall_mem_singleton.mpr (by decide)⟩
  rw [hall c hc]
  rfl

/-- An account that is nowhere is nowhere between masks. -/
theorem masked_account (hmask : ∀ t, .token t ∈ ps → f t ∈ masks) (hborder : Each (Bordered w.word) none ps [])
    (h : Absent (AccountAt w.word) (sourceText ps)) : Absent (AccountAt w.word) (renderText f ps) := by
  rintro a x b heq ⟨name, rfl, hne, hall, hat, hhost⟩
  have hchars := account_chars hall
  have hguard : ∀ t, .token t ∈ ps → Guarded (f t) (name ++ ['@']) := fun t ht =>
    mask_guarded (hmask t ht) (notMem_of_all hchars (by decide)) (notMem_of_all hchars (by decide))
  have hx : name ++ ['@'] ≠ [] := List.append_ne_nil_of_left_ne_nil hne _
  rcases occurrence hx hguard heq with ⟨front, back, rfl, rfl, rfl⟩ | ⟨t, i, j, ht, hinside, -, -⟩
  · refine h _ _ _ (sourceText_between _ _ _) ⟨name, rfl, hne, hall, boundary_before hborder hx hat, ?_⟩
    rcases @head_render f back with ⟨t, back, rfl⟩ | hsame
    · rw [renderText_cons, Piece.render, mask_head (hmask t (by simp))] at hhost
      exact absurd hhost (by decide)
    · rwa [hsame] at hhost
  · exact (mask_chars (hmask t ht)).1 (by simp [hinside])

theorem Dotted.chars {x : List Char} (h : Dotted x) :
    '.' ∈ x ∧ ∀ c ∈ x, (isLabelChar c || c = '.') = true := by
  obtain ⟨labels, hlen, rfl, hlabels⟩ := h
  refine ⟨?_, fun c hc => ?_⟩
  · obtain ⟨label, labels, rfl⟩ := List.exists_cons_of_length_pos (Nat.lt_of_lt_of_le (by decide) hlen)
    obtain ⟨next, labels, rfl⟩ := List.exists_cons_of_length_pos
      (Nat.lt_of_lt_of_le (by decide) (Nat.le_of_succ_le_succ hlen))
    rw [joinWith_labels]
    simp
  · rcases mem_joinWith hc with hc | ⟨label, hlabel, hc⟩
    · rw [List.mem_singleton.mp hc]
      decide
    · rw [(hlabels label hlabel).2 c hc]
      rfl

/-- A name that is nowhere is nowhere between masks. -/
theorem masked_host (hmask : ∀ t, .token t ∈ ps → f t ∈ masks) (hborder : Each (Bordered w.word) none ps [])
    {a x b : List Char} (heq : renderText f ps = a ++ x ++ b) (h : HostAt w.word (lastOr none a) x b) :
    ∃ front back, ps = front ++ x.map .plain ++ back ∧
      HostAt w.word (lastOr none (sourceText front)) x (sourceText back) := by
  obtain ⟨hdotted, hat, hend⟩ := h
  obtain ⟨hpoint, hall⟩ := hdotted.chars
  have hguard : ∀ t, .token t ∈ ps → Guarded (f t) x := fun t ht => mask_guarded (hmask t ht)
    (notMem_of_all hall (by decide)) (notMem_of_all hall (by decide))
  rcases occurrence hdotted.ne_nil hguard heq with ⟨front, back, rfl, rfl, rfl⟩ | ⟨t, i, j, ht, hinside, -, -⟩
  · refine ⟨front, back, rfl, hdotted, boundary_before hborder hdotted.ne_nil hat, ?_⟩
    rw [lastOr_of_ne_nil hdotted.ne_nil _ none] at hend ⊢
    exact boundary_behind hborder hdotted.ne_nil hend
  · exact absurd (by simp [hinside, hpoint]) (mask_chars (hmask t ht)).2.1

theorem pathEnd_source (hmask : ∀ t, .token t ∈ ps → ∃ c rest, f t = c :: rest ∧ c ≠ '/' ∧ c ≠ '\n')
    (hend : atPathEnd (renderText f ps) = true) : atPathEnd (sourceText ps) = true := by
  cases ps with
  | nil => rfl
  | cons p ps =>
    cases p with
    | token t =>
      obtain ⟨c, rest, hrest, hslash, hnewline⟩ := hmask t List.mem_cons_self
      rw [renderText_cons, Piece.render, hrest, List.cons_append, atPathEnd_of_head hslash hnewline] at hend
      cases hend
    | plain c =>
      by_cases hslash : c = '/'
      · subst hslash
        simp [atPathEnd, Piece.source]
      by_cases hnewline : c = '\n'
      · subst hnewline
        cases ps with
        | nil => rfl
        | cons p ps =>
          cases p with
          | plain d => simp [atPathEnd, Piece.render] at hend
          | token t =>
            obtain ⟨d, rest, hrest, -⟩ := hmask t (by simp)
            rw [renderText_cons, renderText_cons, Piece.render, Piece.render, hrest] at hend
            simp [atPathEnd] at hend
      · rw [renderText_cons, Piece.render, List.singleton_append, atPathEnd_of_head hslash hnewline] at hend
        cases hend

/-- The home directory stands only where it stood, or right behind a mask. -/
theorem masked_home (hmask : ∀ t, .token t ∈ ps → f t ∈ masks) (hne : home ≠ []) (hopen : '<' ∉ home)
    (hclose : '>' ∉ home) (h : Absent (BareHomeAt home) (sourceText ps)) :
    Absent (BareHomeAt home) (renderText f ps) := by
  rintro a x b heq ⟨⟨rfl, hprev, hend⟩, htilde, hbracket⟩
  rcases occurrence hne (fun t ht => mask_guarded (hmask t ht) hopen hclose) heq with
    ⟨front, back, rfl, rfl, rfl⟩ | ⟨t, i, j, ht, hinside, hj, hb⟩
  · rcases @lastOr_render f front none with ⟨front, t, rfl⟩ | hsame
    · rw [renderText_append, lastOr_append, renderText_cons, renderText_nil, List.append_nil, Piece.render,
        mask_last (hmask t (by simp))] at hbracket
      exact hbracket rfl
    rw [hsame] at hprev htilde hbracket
    refine h _ _ _ (sourceText_between _ _ _) ⟨⟨rfl, hprev, ?_⟩, htilde, hbracket⟩
    exact pathEnd_source (fun t ht => mask_cons (hmask t (List.mem_append_right _ ht))) hend
  · obtain ⟨c, j, rfl⟩ := List.exists_cons_of_ne_nil hj
    obtain ⟨rest, rfl⟩ := hb
    obtain ⟨-, -, hslash, hnewline, -⟩ := mask_chars (hmask t ht)
    rw [List.cons_append, atPathEnd_of_head] at hend
    · cases hend
    · rintro rfl
      exact hslash (by simp [hinside])
    · rintro rfl
      exact hnewline (by simp [hinside])

/-! ## The passes -/

/-- The first pass leaves the home directory only right behind a `~`. -/
theorem home_pass (hne : home ≠ []) (htilde : '~' ∉ home) (text : List Char) :
    Absent (BareHomeAt home) ((homeRe home).replace w.word (fun _ => ['~']) text) := by
  obtain ⟨ps, -, hrender, heach⟩ := @replace_pieces w.word _ _ (fun _ => ['~']) (homeRe_finds hne) text
  rw [hrender]
  rintro a x b heq ⟨⟨rfl, hprev, hend⟩, hbare, -⟩
  rcases occurrence hne (fun t _ => ⟨⟨'~', rfl, htilde⟩, '~', rfl, htilde⟩) heq with
    ⟨front, back, rfl, rfl, rfl⟩ | ⟨t, i, j, -, hinside, hj, -⟩
  · rcases @lastOr_render (fun _ => ['~']) front none with ⟨front, t, rfl⟩ | hsame
    · exact hbare (by simp [Piece.render])
    · rw [hsame] at hprev
      refine heach.not_match hne ⟨rfl, hprev, ?_⟩
      exact pathEnd_source (fun t _ => ⟨'~', [], rfl, by decide, by decide⟩) hend
  · have hlen := congrArg List.length hinside
    have := List.length_pos_of_ne_nil hne
    have := List.length_pos_of_ne_nil hj
    simp only [List.length_append, List.length_singleton] at hlen
    omega

/-- An account in front of its `@`. -/
def cutAccount : Piece → List Piece
  | .plain c => [.plain c]
  | .token t => [.token t.dropLast, .plain '@']

/-- What is known of a piece whose accounts are cut. -/
def AccountPiece (word : Char → Bool) : Option Char → Piece → List Char → Prop
  | prev, .plain c, rest => c = '@' ∨ Scanned (AccountAt word) prev (.plain c) rest
  | _, .token _, rest => rest.head? = some '@'

/-- The second pass puts a mask for the accounts. -/
theorem user_pieces (text : List Char) : ∃ ps, sourceText ps = text ∧
    userAtHostRe.replace w.word (fun _ => "<user>@".toList) text = renderText (fun _ => "<user>".toList) ps ∧
      Each (AccountPiece w.word) none ps [] := by
  obtain ⟨ps, hsource, hrender, heach⟩ := @replace_pieces w.word _ _ (fun _ => "<user>@".toList) userAtHostRe_finds text
  have hcut : ∀ prev p rest, Scanned (AccountAt w.word) prev p rest →
      sourceText (cutAccount p) = p.source ∧ Each (AccountPiece w.word) prev (cutAccount p) rest := by
    rintro prev (c | t) rest h
    · exact ⟨rfl, .inr h, trivial⟩
    · obtain ⟨-, name, rfl, hne, -⟩ := h
      exact ⟨by simp [cutAccount, Piece.source], by simp [cutAccount, Each, AccountPiece, Piece.source]⟩
  obtain ⟨hsame, heach⟩ := heach.refine hcut
  refine ⟨_, hsame.trans hsource, ?_, heach⟩
  rw [hrender]
  refine (renderText_flatMap fun p _ => ?_).symm
  cases p <;> rfl

theorem user_pass {ps : List Piece} (heach : Each (AccountPiece w.word) none ps []) :
    Absent (AccountAt w.word) (renderText (fun _ => "<user>".toList) ps) := by
  rintro a x b heq ⟨name, rfl, hne, hall, hat, hhost⟩
  have hmask : "<user>".toList ∈ masks := List.mem_cons_self
  have hchars := account_chars hall
  have hx : name ++ ['@'] ≠ [] := List.append_ne_nil_of_left_ne_nil hne _
  rcases occurrence hx (fun t _ => mask_guarded hmask (notMem_of_all hchars (by decide))
    (notMem_of_all hchars (by decide))) heq with ⟨front, back, rfl, rfl, rfl⟩ | ⟨t, i, j, -, hinside, -, -⟩
  · obtain ⟨d, name, rfl⟩ := List.exists_cons_of_ne_nil hne
    have hd : d ≠ '@' := by
      rintro rfl
      exact absurd (hall '@' List.mem_cons_self) (by decide)
    rw [List.append_assoc] at heach
    rcases @lastOr_render (fun _ => "<user>".toList) front none with ⟨front, t, rfl⟩ | hsame
    · -- a mask has its `@` right behind it
      rw [List.append_assoc] at heach
      exact hd (Option.some.inj heach.piece)
    rw [hsame] at hat
    rcases heach.piece with hat' | hnone
    · exact hd hat'
    · refine hnone (d :: name ++ ['@']) (sourceText back) (by simp [Piece.source]) ⟨_, rfl, hne, hall, hat, ?_⟩
      rcases @head_render (fun _ => "<user>".toList) back with ⟨t, back, rfl⟩ | hsame
      · exact absurd hhost (by simp [Piece.render, isHostStart, isAlnum, isDigit])
      · rwa [hsame] at hhost
  · exact (mask_chars hmask).1 (by rw [hinside]; simp)

/-- The third pass puts masks for what begins and ends at boundaries, and leaves no name. -/
theorem host_pass (text : List Char) : ∃ ps, sourceText ps = text ∧
    dottedTokenRe.replace w.word maskDottedToken text = renderText maskDottedToken ps ∧
      Each (Bordered w.word) none ps [] ∧ Absent (HostAt w.word) (renderText maskDottedToken ps) := by
  obtain ⟨ps, hsource, hrender, heach⟩ := @replace_pieces w.word _ _ maskDottedToken dottedTokenRe_finds text
  have hborder : Each (Bordered w.word) none ps [] := by
    refine heach.mono ?_
    rintro prev (c | t) rest h
    · trivial
    · exact ⟨h.1, h.2.2⟩
  refine ⟨ps, hsource, hrender, hborder, fun a x b heq h => ?_⟩
  obtain ⟨front, back, rfl, hhost⟩ := masked_host (fun t _ => maskDottedToken_mem t) hborder heq h
  exact heach.not_match h.1.ne_nil hhost

end

end Dt.Remote
