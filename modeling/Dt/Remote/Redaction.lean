import Dt.Lib.Framed
import Dt.Lib.Pieces
import Dt.Lib.Squeeze
import Dt.Remote.IpAddress

/-!
# Redacting remote detail

One line of what a remote side said, without who and where it is: the home directory becomes a `~`, the account before
a host, names of three labels or more and addresses become a mask, and the line is cut. The expressions run one after
the other over the whole text, each on what the one before it has left, and know the characters of words of all
scripts only by their boundaries.
-/

namespace Dt.Remote

open Dt.Lib

/-- The characters of a word, of which those of ASCII are the letters, digits and the underscore. -/
structure WordClass where
  word : Char → Bool
  hascii : ∀ c, c.toNat < 128 → word c = (isAlnum c || c = '_')
  hspace : ∀ c, isSpace c = true → word c = false

theorem toNat_of_alnum {c : Char} (h : isAlnum c = true) : c.toNat < 128 := by
  have hle : ∀ {d : Char}, c ≤ d → c.toNat ≤ d.toNat := fun h => UInt32.le_iff_toNat_le.mp h
  simp only [isAlnum, isDigit, Bool.or_eq_true, Bool.and_eq_true, decide_eq_true_eq] at h
  rcases h with (⟨-, h⟩ | ⟨-, h⟩) | ⟨-, h⟩ <;> exact Nat.lt_of_le_of_lt (hle h) (by decide)

namespace WordClass

variable (w : WordClass) {c : Char}

theorem of_alnum (h : isAlnum c = true) : w.word c = true := by
  rw [w.hascii c (toNat_of_alnum h), h]
  rfl

theorem of_hex (h : isHexDigit c = true) : w.word c = true := by
  refine w.of_alnum ?_
  simp only [isHexDigit, isAlnum, Bool.or_eq_true, Bool.and_eq_true, decide_eq_true_eq] at h ⊢
  rcases h with (h | ⟨hlow, hhigh⟩) | ⟨hlow, hhigh⟩
  · exact .inl (.inl h)
  · exact .inl (.inr ⟨hlow, le_trans hhigh (by decide)⟩)
  · exact .inr ⟨hlow, le_trans hhigh (by decide)⟩

theorem solid (h : w.word c = true) : isSpace c = false := by
  by_contra hspace
  cases h.symm.trans (w.hspace c (by simpa using hspace))

end WordClass

/-! ## Patterns -/

def isUserChar (c : Char) : Bool := isAlnum c || c = '.' || c = '_' || c = '%' || c = '+' || c = '-'

def isHostStart (c : Char) : Bool := isAlnum c || c = '['

def isLabelChar (c : Char) : Bool := isAlnum c || c = '-'

def isHexColon (c : Char) : Bool := isHexDigit c || c = ':'

def isPathChar (c : Char) : Bool := isAlnum c || c = '.' || c = '_' || c = '-'

/-- `_USER_AT_HOST_RE` -/
def userAtHostRe : Regex :=
  .chain [.boundary, .atLeastOne isUserChar, .char '@', .ahead fun rest => rest.head?.any isHostStart]

/-- `_DOTTED_TOKEN_RE` -/
def dottedTokenRe : Regex :=
  .chain [.boundary, .atLeastOne isLabelChar, .orMore 2 (.seq (.char '.') (.atLeastOne isLabelChar)), .boundary]

/-- `_IPV6_CANDIDATE_RE` -/
def ipv6CandidateRe : Regex :=
  .chain [.boundary, .upTo 3 isHexDigit, .orMore 1 (.seq (.char ':') (.atLeastOne isHexColon)), .boundary]

/-- `$|/`; a line end at the very end is an end as well. -/
def atPathEnd (rest : List Char) : Bool := rest = [] || rest = ['\n'] || rest.head? = some '/'

/-- The pattern of `redact_home_path`. -/
def homeRe (home : List Char) : Regex :=
  .chain [.notBehind isPathChar, .chain (home.map .char), .ahead atPathEnd]

/-! ## Redaction -/

def remoteDetailMax : Nat := 160

def maskDottedToken (token : List Char) : List Char :=
  if isIpAddress token then "<addr>".toList else "<host>".toList

def maskIpv6Candidate (token : List Char) : List Char :=
  if isIpAddress token then "<addr>".toList else token

section

variable (w : WordClass) (home : Option (List Char))

/-- `redact_home_path`, where a home directory may not be known. -/
def redactHomePath (text : List Char) : List Char :=
  if text = [] then text
  else
    match home with
    | none => text
    | some home =>
      if home = [] ∨ home = ['/'] then text
      else (homeRe home).replace w.word (fun _ => ['~']) text

/-- `redact_remote_detail` -/
def redactRemoteDetail (text : List Char) : List Char :=
  if text = [] then text
  else
    let text := text.take (remoteDetailMax * 4)
    let text := redactHomePath w home text
    let text := userAtHostRe.replace w.word (fun _ => "<user>@".toList) text
    let text := dottedTokenRe.replace w.word maskDottedToken text
    let text := ipv6CandidateRe.replace w.word maskIpv6Candidate text
    (joinWith [' '] (words text)).take remoteDetailMax

end

/-! ## What the patterns match -/

section

variable (word : Char → Bool)

/-- An account and its `@`, from a boundary on and before a host. -/
def AccountAt : Pattern := fun prev text rest =>
  ∃ name, text = name ++ ['@'] ∧ name ≠ [] ∧ (∀ c ∈ name, isUserChar c = true) ∧
    atBoundary word prev text.head? = true ∧ rest.head?.any isHostStart = true

/-- Three labels or more, with points between them. -/
def Dotted (text : List Char) : Prop :=
  ∃ labels, 3 ≤ labels.length ∧ text = joinWith ['.'] labels ∧
    ∀ label ∈ labels, label ≠ [] ∧ ∀ c ∈ label, isLabelChar c = true

def HostAt : Pattern := fun prev text rest =>
  Dotted text ∧ atBoundary word prev text.head? = true ∧ atBoundary word (lastOr prev text) rest.head? = true

/-- A group and what may follow it in an address. -/
def CandidateAt : Pattern := fun prev text rest =>
  (∃ group tail, text = group ++ ':' :: tail ∧ isHextet group = true ∧ tail ≠ [] ∧ ∀ c ∈ tail, isHexColon c = true) ∧
    atBoundary word prev text.head? = true ∧ atBoundary word (lastOr prev text) rest.head? = true

/-- A directory between the ends of paths. -/
def PathAt (home : List Char) : Pattern := fun prev text rest =>
  text = home ∧ prev.any isPathChar = false ∧ atPathEnd rest = true

end

section

variable {word : Char → Bool} {prev : Option Char} {text rest : List Char}

theorem userAtHostRe_accepts : userAtHostRe.Accepts word prev text rest ↔ AccountAt word prev text rest := by
  rw [userAtHostRe, accepts_boundary_cons, accepts_chain_cons]
  constructor
  · rintro ⟨hat, name, b, rfl, hname, hb⟩
    obtain ⟨hne, hall⟩ := accepts_atLeastOne.mp hname
    obtain ⟨a, d, rfl, ha, hd⟩ := accepts_chain_cons.mp hb
    obtain rfl := accepts_char.mp ha
    obtain ⟨hhost, rfl⟩ := accepts_look_cons.mp hd
    refine ⟨name, rfl, hne, hall, ?_, hhost⟩
    simpa [List.head?_append_of_ne_nil _ hne] using hat
  · rintro ⟨name, rfl, hne, hall, hat, hhost⟩
    refine ⟨?_, name, ['@'], rfl, accepts_atLeastOne.mpr ⟨hne, hall⟩, accepts_chain_cons.mpr ⟨['@'], [], rfl,
      accepts_char.mpr rfl, accepts_look_cons.mpr ⟨hhost, rfl⟩⟩⟩
    simpa [List.head?_append_of_ne_nil _ hne] using hat

theorem userAtHostRe_finds : userAtHostRe.Finds word (AccountAt word) :=
  finds_of_accepts userAtHostRe_accepts fun h => by
    obtain ⟨name, rfl, -⟩ := h
    exact List.append_ne_nil_of_right_ne_nil name (List.cons_ne_nil _ _)

theorem joinWith_labels (label : List Char) (labels : List (List Char)) :
    joinWith ['.'] (label :: labels) = label ++ (labels.map ('.' :: ·)).flatten := by
  induction labels generalizing label with
  | nil => exact (List.append_nil label).symm
  | cons next labels ih =>
    rw [joinWith_cons (List.cons_ne_nil _ _), ih, List.append_assoc]
    rfl

/-- Parts that each begin with a separator. -/
theorem exists_labels {c : Char} {P : List Char → Prop} {parts : List (List Char)}
    (h : ∀ part ∈ parts, ∃ label, part = c :: label ∧ P label) :
    ∃ labels : List (List Char), parts = labels.map (c :: ·) ∧ ∀ label ∈ labels, P label := by
  induction parts with
  | nil => exact ⟨[], rfl, List.forall_mem_nil _⟩
  | cons part parts ih =>
    obtain ⟨⟨label, rfl, hlabel⟩, hparts⟩ := List.forall_mem_cons.mp h
    obtain ⟨labels, rfl, hlabels⟩ := ih hparts
    exact ⟨label :: labels, rfl, List.forall_mem_cons.mpr ⟨hlabel, hlabels⟩⟩

theorem dottedTokenRe_accepts : dottedTokenRe.Accepts word prev text rest ↔ HostAt word prev text rest := by
  rw [dottedTokenRe, accepts_boundary_cons, accepts_chain_cons]
  constructor
  · rintro ⟨hat, label, b, rfl, hlabel, hb⟩
    obtain ⟨hne, hall⟩ := accepts_atLeastOne.mp hlabel
    obtain ⟨c, d, rfl, hc, hd⟩ := accepts_chain_cons.mp hb
    obtain ⟨hend, rfl⟩ := accepts_boundary_cons.mp hd
    obtain ⟨parts, hlen, rfl, hparts⟩ := (accepts_orMore accepts_separated (by simp)).mp hc
    obtain ⟨labels, rfl, hlabels⟩ := exists_labels hparts
    rw [List.append_nil, ← joinWith_labels] at hat ⊢
    refine ⟨⟨label :: labels, ?_, rfl, List.forall_mem_cons.mpr ⟨⟨hne, hall⟩, hlabels⟩⟩, ?_, ?_⟩
    · rw [List.length_map] at hlen
      exact Nat.succ_le_succ hlen
    · rw [joinWith_labels] at hat ⊢
      simpa [List.head?_append_of_ne_nil _ hne] using hat
    · rw [joinWith_labels, lastOr_append]
      exact hend
  · rintro ⟨⟨labels, hlen, rfl, hlabels⟩, hat, hend⟩
    obtain ⟨label, labels, rfl⟩ := List.exists_cons_of_length_pos (Nat.lt_of_lt_of_le (by decide) hlen)
    obtain ⟨⟨hne, hall⟩, hlabels⟩ := List.forall_mem_cons.mp hlabels
    rw [joinWith_labels] at hat hend ⊢
    refine ⟨by simpa [List.head?_append_of_ne_nil _ hne] using hat, label, _, rfl,
      accepts_atLeastOne.mpr ⟨hne, hall⟩, accepts_chain_cons.mpr ⟨_, [], (List.append_nil _).symm, ?_, ?_⟩⟩
    · refine (accepts_orMore accepts_separated (by simp)).mpr ⟨_, ?_, rfl, ?_⟩
      · rw [List.length_map]
        exact Nat.le_of_succ_le_succ hlen
      · rintro part hpart
        obtain ⟨l, hl, rfl⟩ := List.mem_map.mp hpart
        exact ⟨l, rfl, hlabels l hl⟩
    · rw [lastOr_append] at hend
      exact accepts_boundary_cons.mpr ⟨hend, rfl⟩

theorem Dotted.ne_nil (h : Dotted text) : text ≠ [] := by
  obtain ⟨labels, hlen, rfl, hlabels⟩ := h
  obtain ⟨label, labels, rfl⟩ := List.exists_cons_of_length_pos (Nat.lt_of_lt_of_le (by decide) hlen)
  rw [joinWith_labels]
  exact List.append_ne_nil_of_left_ne_nil (hlabels label List.mem_cons_self).1 _

theorem dottedTokenRe_finds : dottedTokenRe.Finds word (HostAt word) :=
  finds_of_accepts dottedTokenRe_accepts fun h => h.1.ne_nil

theorem homeRe_accepts {home : List Char} : (homeRe home).Accepts word prev text rest ↔ PathAt home prev text rest := by
  rw [homeRe]
  constructor
  · intro h
    obtain ⟨hprev, h⟩ := accepts_look_cons.mp h
    obtain ⟨a, b, rfl, ha, hb⟩ := accepts_chain_cons.mp h
    obtain ⟨hend, rfl⟩ := accepts_look_cons.mp hb
    obtain rfl := accepts_chars.mp ha
    exact ⟨List.append_nil a, by simpa using hprev, hend⟩
  · rintro ⟨rfl, hprev, hend⟩
    exact accepts_look_cons.mpr ⟨by simpa using hprev, accepts_chain_cons.mpr
      ⟨text, [], (List.append_nil text).symm, accepts_chars.mpr rfl, accepts_look_cons.mpr ⟨hend, rfl⟩⟩⟩

theorem homeRe_finds {home : List Char} (hne : home ≠ []) : (homeRe home).Finds word (PathAt home) :=
  finds_of_accepts homeRe_accepts fun h => h.1 ▸ hne

theorem ipv6CandidateRe_accepts :
    ipv6CandidateRe.Accepts word prev text rest ↔ CandidateAt word prev text rest := by
  rw [ipv6CandidateRe, accepts_boundary_cons, accepts_chain_cons]
  constructor
  · rintro ⟨hat, group, b, rfl, hgroup, hb⟩
    obtain ⟨hne, hlen, hall⟩ := accepts_upTo.mp hgroup
    obtain ⟨c, d, rfl, hc, hd⟩ := accepts_chain_cons.mp hb
    obtain ⟨hend, rfl⟩ := accepts_boundary_cons.mp hd
    obtain ⟨parts, hpos, rfl, hparts⟩ := (accepts_orMore accepts_separated (by simp)).mp hc
    obtain ⟨part, parts, rfl⟩ := List.exists_cons_of_length_pos hpos
    obtain ⟨⟨tail, rfl, htail, htailall⟩, hrest⟩ := List.forall_mem_cons.mp hparts
    rw [List.append_nil] at hat ⊢
    refine ⟨⟨group, tail ++ parts.flatten, rfl, ?_, List.append_ne_nil_of_left_ne_nil htail _, ?_⟩, ?_, ?_⟩
    · simpa [isHextet, hne, hlen] using hall
    · refine List.forall_mem_append.mpr ⟨htailall, fun c hc => ?_⟩
      obtain ⟨part, hpart, hc⟩ := List.mem_flatten.mp hc
      obtain ⟨label, rfl, -, hlabel⟩ := hrest part hpart
      rcases List.mem_cons.mp hc with rfl | hc
      · decide
      · exact hlabel c hc
    · simpa [List.head?_append_of_ne_nil _ hne] using hat
    · rw [lastOr_append]
      exact hend
  · rintro ⟨⟨group, tail, rfl, hgroup, htail, hall⟩, hat, hend⟩
    obtain ⟨hne, hhex, hlen⟩ := isHextet_spec hgroup
    refine ⟨by simpa [List.head?_append_of_ne_nil _ hne] using hat, group, _, rfl,
      accepts_upTo.mpr ⟨hne, hlen, hhex⟩, accepts_chain_cons.mpr ⟨_, [], (List.append_nil _).symm, ?_, ?_⟩⟩
    · exact (accepts_orMore accepts_separated (by simp)).mpr ⟨[':' :: tail], Nat.le_refl 1, by simp,
        List.forall_mem_singleton.mpr ⟨tail, rfl, htail, hall⟩⟩
    · rw [lastOr_append] at hend
      exact accepts_boundary_cons.mpr ⟨hend, rfl⟩

theorem colon_notMem {group : List Char} (h : isHextet group = true) : ':' ∉ group :=
  fun hc => absurd ((isHextet_spec h).2.1 _ hc) (by decide)

/-- What is left of the pattern behind the first group and its characters. -/
def ipv6Tail : Regex := .seq (.star (.seq (.char ':') (.atLeastOne isHexColon))) (.chain [.boundary])

theorem ipv6Tail_nil : ipv6Tail.Accepts word prev [] rest ↔ atBoundary word prev rest.head? = true := by
  constructor
  · rintro ⟨a, b, heq, -, hb⟩
    obtain ⟨rfl, rfl⟩ := List.append_eq_nil_iff.mp heq.symm
    exact (accepts_boundary_cons.mp hb).1
  · intro hat
    exact ⟨[], [], rfl, (accepts_star accepts_separated (by simp)).mpr ⟨[], rfl, List.forall_mem_nil _⟩,
      accepts_boundary_cons.mpr ⟨hat, rfl⟩⟩

theorem ipv6Tail_accepts (h : ipv6Tail.Accepts word prev text rest) :
    (∀ c ∈ text, isHexColon c = true) ∧ ipv6Tail.Accepts word (lastOr prev text) [] rest := by
  obtain ⟨a, b, rfl, ha, hb⟩ := h
  obtain ⟨hat, rfl⟩ := accepts_boundary_cons.mp hb
  obtain ⟨parts, rfl, hparts⟩ := (accepts_star accepts_separated (by simp)).mp ha
  rw [List.append_nil]
  refine ⟨fun c hc => ?_, ipv6Tail_nil.mpr hat⟩
  obtain ⟨part, hpart, hc⟩ := List.mem_flatten.mp hc
  obtain ⟨label, rfl, -, hlabel⟩ := hparts part hpart
  rcases List.mem_cons.mp hc with rfl | hc
  · decide
  · exact hlabel c hc

/-- The address that is found is the longest one. -/
theorem ipv6CandidateRe_finds : ipv6CandidateRe.Finds word (Longest (CandidateAt word)) where
  missed hmatch _ _ hrest hlongest := matchAt_none hmatch hrest (ipv6CandidateRe_accepts.mpr hlongest.1)
  found := by
    intro s t hmatch
    have hrun : Regex.run word (.seq .boundary (.seq (.upTo 3 isHexDigit) (.seq (.char ':') (.seq (.set isHexColon)
        (.seq (.many true isHexColon) ipv6Tail))))) { s with groups := [] } some = some t := hmatch
    obtain ⟨text, start, hstart, ⟨rfl, hat⟩, hrun⟩ := run_seq_accepts hrun
    obtain ⟨group, u, hgroup, haccepts, hrun⟩ := run_seq_accepts hrun
    obtain ⟨text, v, hcolon, hc, hrun⟩ := run_seq_accepts hrun
    obtain ⟨text', x, hfirst, ⟨d, rfl, hd⟩, hrun⟩ := run_seq_accepts hrun
    obtain rfl := accepts_char.mp hc
    obtain ⟨tail, y, htail, hall, hend, hy, hmax⟩ := greedy_longest (fun _ => rfl) ipv6Tail_accepts hrun
    obtain rfl : y = t := Option.some.inj hy
    obtain ⟨hne, hlen, hhex⟩ := accepts_upTo.mp haccepts
    have hgroup' : isHextet group = true := by simpa [isHextet, hne, hlen] using hhex
    have hall' : ∀ c ∈ d :: tail, isHexColon c = true := List.forall_mem_cons.mpr ⟨hd, hall⟩
    have hpass : s.Passes (group ++ ':' :: d :: tail) y := by
      have h := (((hstart.append hgroup).append hcolon).append hfirst).append htail
      exact ⟨by simpa using h.rest, by simpa using h.prev, by simpa using h.position⟩
    refine ⟨_, List.append_ne_nil_of_left_ne_nil hne _, hpass, ⟨⟨group, _, rfl, hgroup', List.cons_ne_nil d tail, hall'⟩,
      ?_, ?_⟩, fun text' rest' heq hmatch' => ?_⟩
    · have hhead : start.rest.head? = group.head? := by rw [hgroup.rest, List.head?_append_of_ne_nil _ hne]
      rw [hhead] at hat
      rwa [List.head?_append_of_ne_nil _ hne]
    · rw [← hpass.prev, htail.prev]
      exact ipv6Tail_nil.mp hend
    · obtain ⟨⟨group₂, tail₂, rfl, hgroup₂, hne₂, hall₂⟩, -, hend₂⟩ := hmatch'
      rw [List.append_assoc, List.append_assoc] at heq
      obtain ⟨d₂, tail₂, rfl⟩ := List.exists_cons_of_ne_nil hne₂
      obtain ⟨rfl, htails⟩ := marked_inj (colon_notMem hgroup') (colon_notMem hgroup₂) heq
      obtain ⟨rfl, hrests⟩ := List.cons.inj htails
      have hle := hmax tail₂ rest' (htail.rest.trans hrests) (List.forall_mem_cons.mp hall₂).2 (ipv6Tail_nil.mpr (by
        rw [hfirst.prev]
        simpa using hend₂))
      simpa using hle

end

end Dt.Remote
