import Dt.Lib.Concat
import Dt.Lib.LastLines
import Dt.Lib.Lines

/-!
# The excludes of a pull

A file that an exclude pattern covers is not missed when it does not arrive. The head compiles each pattern
into a regular expression and asks it about the file and the directories above it; rsync has asked the
pattern itself.

Both readings of a pattern are lists of tokens. They differ where `**/` stands behind the beginning of a
pattern: the regular expression lets it match nothing.
-/

namespace Dt.Transfers

open Dt.Lib

/-! ## The filter -/

/-- A piece of a regular expression: `(?:.*/)?`, `.*`, `[^/]*`, `[^/]` or a character. -/
inductive Piece where
  | dirs | any | names | one | char (c : Char)
  deriving DecidableEq

/-- What a piece matches; a dot is no line feed. -/
def Piece.matches : Piece → List Char → Bool
  | .dirs, s => s = [] || s.getLast? = some '/' && '\n' ∉ s
  | .any, s => '\n' ∉ s
  | .names, s => '/' ∉ s
  | .one, s => s.length = 1 && '/' ∉ s
  | .char c, s => s = [c]

/-- `_rsync_glob_regex` -/
def rsyncGlobRegex : List Char → List Piece
  | '*' :: '*' :: '/' :: rest => .dirs :: rsyncGlobRegex rest
  | '*' :: '*' :: rest => .any :: rsyncGlobRegex rest
  | '*' :: rest => .names :: rsyncGlobRegex rest
  | '?' :: rest => .one :: rsyncGlobRegex rest
  | c :: rest => .char c :: rsyncGlobRegex rest
  | [] => []

/-- `_UNMODELLED_EXCLUDE_SYNTAX` -/
def unmodelled (pattern : List Char) : Bool :=
  decide ('[' ∈ pattern) || decide (']' ∈ pattern) || decide ('\\' ∈ pattern) ||
    decide ("***".toList <:+: pattern)

/-- `pattern.strip("/")` -/
def stripSlashes (pattern : List Char) : List Char :=
  ((pattern.dropWhile (· = '/')).reverse.dropWhile (· = '/')).reverse

/-- A compiled rule: its expression, with the optional directories in front unless it is anchored. -/
structure Rule where
  pieces : List Piece
  directoryOnly : Bool
  deriving DecidableEq

/-- The rule of a pattern; none for one that is not modelled. -/
def compileRule (raw : List Char) : Option Rule :=
  let pattern := strip raw
  if pattern = [] || pattern = ['!'] || "+ ".toList.isPrefixOf pattern ||
      "- ".toList.isPrefixOf pattern || unmodelled pattern then none
  else
    let body := stripSlashes pattern
    if body = [] then none
    else some ⟨if pattern.head? = some '/' then rsyncGlobRegex body else .dirs :: rsyncGlobRegex body,
      pattern.getLast? = some '/'⟩

/-- `PullExcludeFilter.exact` -/
def exact (patterns : List (List Char)) : Bool := patterns.all fun raw => (compileRule raw).isSome

/-- `rule.match(path)`; `$` also matches before a line feed at the end. -/
def Rule.matches (rule : Rule) (path : List Char) : Bool :=
  accepts Piece.matches rule.pieces path ||
    path.getLast? = some '\n' && accepts Piece.matches rule.pieces path.dropLast

/-- `PullExcludeFilter.excludes` -/
def excludes (patterns : List (List Char)) (relative : List Char) : Bool :=
  let rules := patterns.filterMap compileRule
  let parts := splitOn '/' relative
  ((List.range' 1 (parts.length - 1)).any fun depth =>
      rules.any (·.matches (joinWith ['/'] (parts.take depth)))) ||
    rules.any fun rule => !rule.directoryOnly && rule.matches relative

/-! ## rsync -/

/-- A token of a pattern: `**`, `*`, `?` or a character. -/
inductive Wild where
  | any | names | one | char (c : Char)
  deriving DecidableEq

def Wild.matches : Wild → List Char → Bool
  | .any, _ => true
  | .names, s => '/' ∉ s
  | .one, s => s.length = 1 && '/' ∉ s
  | .char c, s => s = [c]

def wilds : List Char → List Wild
  | '*' :: '*' :: rest => .any :: wilds rest
  | '*' :: rest => .names :: wilds rest
  | '?' :: rest => .one :: wilds rest
  | c :: rest => .char c :: wilds rest
  | [] => []

/-- A pattern matches a text; one that begins with `**/` may match without it. -/
def Glob (body s : List Char) : Prop :=
  accepts Wild.matches (wilds body) s = true ∨
    ∃ rest, body = "**/".toList ++ rest ∧ accepts Wild.matches (wilds rest) s = true

/-- A pattern without the slash that anchors it and the one that makes it match directories only. -/
def body (pattern : List Char) : List Char :=
  let b := if pattern.head? = some '/' then pattern.tail else pattern
  if b.getLast? = some '/' then b.dropLast else b

/-- The text from the beginning of a component of the path on. -/
def FromComponent (path tail : List Char) : Prop := path = tail ∨ ∃ front, path = front ++ '/' :: tail

/-- A pattern matches a file or a directory, by a way to match its body. -/
def Matches (glob : List Char → List Char → Prop) (pattern path : List Char) : Prop :=
  if pattern.head? = some '/' then glob (body pattern) path
  else if '/' ∉ body pattern ∧ ¬"**".toList <:+: body pattern then
    ∃ name, FromComponent path name ∧ '/' ∉ name ∧ glob (body pattern) name
  else ∃ tail, FromComponent path tail ∧ glob (body pattern) tail

/-- A file is skipped that a pattern matches, or of which a pattern matches a directory above it. -/
def Skips (glob : List Char → List Char → Prop) (patterns : List (List Char)) (path : List Char) : Prop :=
  (∃ dir rest, path = dir ++ '/' :: rest ∧ ∃ p ∈ patterns, Matches glob p dir) ∨
    ∃ p ∈ patterns, p.getLast? ≠ some '/' ∧ Matches glob p path

/-- rsync skips the file. -/
def RsyncSkips : List (List Char) → List Char → Prop := Skips Glob

/-! ## Where the two differ -/

/-- Some `**/` are taken out of a pattern, wherever they stand. -/
inductive Loosened : List Wild → List Wild → Prop where
  | nil : Loosened [] []
  | keep (t : Wild) {ts ts' : List Wild} (h : Loosened ts ts') : Loosened (t :: ts) (t :: ts')
  | drop {ts ts' : List Wild} (h : Loosened ts ts') : Loosened (.any :: .char '/' :: ts) ts'

/-- A pattern matches a text after some `**/` are taken out of it. -/
def LooseGlob (body s : List Char) : Prop :=
  ∃ ts, Loosened (wilds body) ts ∧ accepts Wild.matches ts s = true

theorem loosened_refl (ts : List Wild) : Loosened ts ts := by
  induction ts with
  | nil => exact .nil
  | cons t ts ih => exact .keep t ih

theorem glob_loose {b s : List Char} (h : Glob b s) : LooseGlob b s := by
  rcases h with h | ⟨rest, rfl, h⟩
  · exact ⟨_, loosened_refl _, h⟩
  · exact ⟨_, .drop (loosened_refl _), h⟩

theorem matches_mono {glob glob' : List Char → List Char → Prop} {pattern path : List Char}
    (h : ∀ s, glob (body pattern) s → glob' (body pattern) s) (hm : Matches glob pattern path) :
    Matches glob' pattern path := by
  unfold Matches at hm ⊢
  split
  · rename_i hanchored
    rw [if_pos hanchored] at hm
    exact h _ hm
  · rename_i hanchored
    rw [if_neg hanchored] at hm
    split
    · rename_i hname
      rw [if_pos hname] at hm
      obtain ⟨name, hfrom, hslash, hglob⟩ := hm
      exact ⟨name, hfrom, hslash, h _ hglob⟩
    · rename_i hname
      rw [if_neg hname] at hm
      obtain ⟨tail, hfrom, hglob⟩ := hm
      exact ⟨tail, hfrom, h _ hglob⟩

theorem skips_mono {glob glob' : List Char → List Char → Prop} {patterns : List (List Char)} {path : List Char}
    (h : ∀ p ∈ patterns, ∀ s, glob (body p) s → glob' (body p) s) (hs : Skips glob patterns path) :
    Skips glob' patterns path := by
  rcases hs with ⟨dir, rest, hpath, p, hp, hm⟩ | ⟨p, hp, hfile, hm⟩
  · exact .inl ⟨dir, rest, hpath, p, hp, matches_mono (h p hp) hm⟩
  · exact .inr ⟨p, hp, hfile, matches_mono (h p hp) hm⟩

/-! ## Expressions -/

section

variable {s : List Char}

/-- The directories that may stand in front of an expression. -/
theorem accepts_dirs {ps : List Piece} (hs : '\n' ∉ s) : accepts Piece.matches (.dirs :: ps) s = true ↔
    ∃ tail, FromComponent s tail ∧ accepts Piece.matches ps tail = true := by
  rw [accepts_cons]
  constructor
  · rintro ⟨a, b, rfl, ha, hb⟩
    refine ⟨b, ?_, hb⟩
    simp only [Piece.matches, Bool.or_eq_true, Bool.and_eq_true, decide_eq_true_eq] at ha
    rcases ha with rfl | ⟨hlast, -⟩
    · exact .inl rfl
    · obtain ⟨front, rfl⟩ := List.getLast?_eq_some_iff.mp hlast
      exact .inr ⟨front, by simp⟩
  · rintro ⟨tail, rfl | ⟨front, rfl⟩, hb⟩
    · exact ⟨[], s, rfl, rfl, hb⟩
    · refine ⟨front ++ ['/'], tail, by simp, ?_, hb⟩
      have hfront : '\n' ∉ front := fun hm => hs (List.mem_append_left _ hm)
      simp [Piece.matches, hfront]

theorem wilds_slash {b : List Char} {ts : List Wild} (h : wilds b = .char '/' :: ts) :
    b.head? = some '/' := by
  unfold wilds at h
  split at h
  · cases h
  · cases h
  · cases h
  · obtain ⟨hc, -⟩ := List.cons.inj h
    rw [List.head?_cons, Wild.char.inj hc]
  · cases h

/-- A token that does not begin a `**/`. -/
theorem looseGlob_cons {b rest : List Char} {t : Wild} (hw : wilds b = t :: wilds rest)
    (hno : t = .any → rest.head? ≠ some '/') :
    LooseGlob b s ↔ ∃ a c, s = a ++ c ∧ t.matches a = true ∧ LooseGlob rest c := by
  unfold LooseGlob
  rw [hw]
  constructor
  · rintro ⟨ts, hloose, hts⟩
    generalize htail : wilds rest = tail at hloose
    cases hloose with
    | keep _ h =>
      obtain ⟨a, c, hs, ha, hc⟩ := accepts_cons.mp hts
      exact ⟨a, c, hs, ha, _, htail ▸ h, hc⟩
    | drop h => exact absurd (wilds_slash htail) (hno rfl)
  · rintro ⟨a, c, hs, ha, ts, hloose, hts⟩
    exact ⟨t :: ts, .keep t hloose, accepts_cons.mpr ⟨a, c, hs, ha, hts⟩⟩

/-- `**/` matches a part of the text that ends with a slash, or is taken out. -/
theorem looseGlob_dirs {b rest : List Char} (hw : wilds b = .any :: .char '/' :: wilds rest) :
    LooseGlob b s ↔ ∃ tail, FromComponent s tail ∧ LooseGlob rest tail := by
  unfold LooseGlob
  rw [hw]
  constructor
  · rintro ⟨ts, hloose, hts⟩
    cases hloose with
    | keep _ h =>
      cases h with
      | keep _ h =>
        obtain ⟨a, c, rfl, -, hc⟩ := accepts_cons.mp hts
        obtain ⟨d, e, rfl, hd, he⟩ := accepts_cons.mp hc
        have hslash : d = ['/'] := by simpa [Wild.matches] using hd
        exact ⟨e, .inr ⟨a, by rw [hslash]; rfl⟩, _, h, he⟩
    | drop h => exact ⟨s, .inl rfl, ts, h, hts⟩
  · rintro ⟨tail, rfl | ⟨front, rfl⟩, ts, hloose, hts⟩
    · exact ⟨ts, .drop hloose, hts⟩
    · refine ⟨.any :: .char '/' :: ts, .keep _ (.keep _ hloose), accepts_cons.mpr ?_⟩
      refine ⟨front, '/' :: tail, rfl, rfl, accepts_cons.mpr ⟨['/'], tail, rfl, ?_, hts⟩⟩
      simp [Wild.matches]

/-- An expression and a pattern that both go on with one token of the same language. -/
theorem accepts_regex_cons {b rest : List Char} {p : Piece} {t : Wild}
    (hp : rsyncGlobRegex b = p :: rsyncGlobRegex rest) (hw : wilds b = t :: wilds rest)
    (hno : t = .any → rest.head? ≠ some '/') (hs : '\n' ∉ s)
    (hsame : ∀ a, '\n' ∉ a → p.matches a = t.matches a)
    (ih : ∀ {s}, '\n' ∉ s → (accepts Piece.matches (rsyncGlobRegex rest) s = true ↔ LooseGlob rest s)) :
    accepts Piece.matches (rsyncGlobRegex b) s = true ↔ LooseGlob b s := by
  rw [hp, accepts_cons, looseGlob_cons hw hno]
  refine exists_congr fun a => exists_congr fun c => and_congr_right fun hcut => ?_
  rw [hcut, List.mem_append, not_or] at hs
  rw [hsame a hs.1, ih hs.2]

/-- An expression matches what the pattern does with some `**/` taken out. -/
theorem accepts_regex (b : List Char) (hs : '\n' ∉ s) :
    accepts Piece.matches (rsyncGlobRegex b) s = true ↔ LooseGlob b s := by
  induction b using rsyncGlobRegex.induct generalizing s with
  | case1 rest ih =>
    rw [rsyncGlobRegex, accepts_dirs hs, @looseGlob_dirs s _ rest (by simp [wilds])]
    refine exists_congr fun tail => and_congr_right fun hfrom => ih fun hm => hs ?_
    rcases hfrom with rfl | ⟨front, rfl⟩
    · exact hm
    · exact List.mem_append_right _ (List.mem_cons_of_mem _ hm)
  | case2 rest hne ih =>
    refine accepts_regex_cons (rsyncGlobRegex.eq_2 rest hne) (by rw [wilds]) (fun _ hhead => ?_) hs
      (fun a ha => by simp [Piece.matches, Wild.matches, ha]) ih
    cases rest with
    | nil => cases hhead
    | cons c rest => exact hne rest (by rw [Option.some.inj hhead])
  | case3 rest h1 h2 ih =>
    exact accepts_regex_cons (rsyncGlobRegex.eq_3 rest h1 h2) (wilds.eq_2 rest h2) (fun h => by cases h) hs
      (fun a ha => rfl) ih
  | case4 rest ih =>
    exact accepts_regex_cons (by rw [rsyncGlobRegex]) (by rw [wilds]) (fun h => by cases h) hs
      (fun a ha => rfl) ih
  | case5 c rest h1 h2 h3 h4 ih =>
    exact accepts_regex_cons (rsyncGlobRegex.eq_5 c rest h1 h2 h3 h4) (wilds.eq_4 c rest h2 h3 h4)
      (fun h => by cases h) hs (fun a ha => rfl) ih
  | case6 =>
    rw [rsyncGlobRegex, accepts_nil]
    constructor
    · rintro rfl
      exact ⟨[], .nil, rfl⟩
    · rintro ⟨ts, hloose, hts⟩
      cases hloose
      exact accepts_nil.mp hts

end

/-! ## Rules -/

/-- A text between the slash that anchors it and the one that makes it match directories only. -/
def slashed (front : Bool) (b : List Char) (back : Bool) : List Char :=
  (if front then ['/'] else []) ++ b ++ if back then ['/'] else []

/-- A pattern without the blanks at its ends, and with one slash where it has several. -/
def trimmed (raw : List Char) : List Char :=
  let pattern := strip raw
  slashed (pattern.head? = some '/') (stripSlashes pattern) (pattern.getLast? = some '/')

theorem head?_stripSlashes (p : List Char) : (stripSlashes p).head? ≠ some '/' := by
  intro h
  have hprefix : stripSlashes p <+: p.dropWhile (· = '/') := List.rdropWhile_prefix _ _
  have hhead : (p.dropWhile (· = '/')).head? = some '/' := by
    obtain ⟨back, hback⟩ := hprefix
    rw [← hback, List.head?_append, h]
    rfl
  have hnot := List.head?_dropWhile_not (fun c => decide (c = '/')) p
  rw [hhead] at hnot
  simp at hnot

theorem getLast?_stripSlashes (p : List Char) : (stripSlashes p).getLast? ≠ some '/' := by
  rw [stripSlashes, List.getLast?_reverse]
  intro h
  have hnot := List.head?_dropWhile_not (fun c => decide (c = '/')) (p.dropWhile (· = '/')).reverse
  rw [h] at hnot
  simp at hnot

section

variable {b : List Char} (hne : b ≠ []) (front back : Bool)

include hne

theorem head?_slashed (hhead : b.head? ≠ some '/') :
    (slashed front b back).head? = some '/' ↔ front = true := by
  obtain ⟨c, b, rfl⟩ := List.exists_cons_of_ne_nil hne
  cases front
  · simpa [slashed] using hhead
  · simp [slashed]

theorem getLast?_slashed (hlast : b.getLast? ≠ some '/') :
    (slashed front b back).getLast? = some '/' ↔ back = true := by
  cases back
  · have hfront : ∀ a : List Char, (a ++ b).getLast? = b.getLast? := fun a => by
      rw [List.getLast?_append_of_ne_nil a hne]
    rw [slashed, if_neg Bool.false_ne_true, List.append_nil, hfront]
    simpa using hlast
  · simp [slashed]

theorem body_slashed (hhead : b.head? ≠ some '/') (hlast : b.getLast? ≠ some '/') :
    body (slashed front b back) = b := by
  have htail : (if (slashed front b back).head? = some '/' then (slashed front b back).tail
      else slashed front b back) = slashed false b back := by
    cases front
    · rw [if_neg (by simpa using head?_slashed hne false back hhead)]
    · rw [if_pos ((head?_slashed hne true back hhead).mpr rfl)]
      rfl
  unfold body
  simp only [htail]
  cases back
  · rw [if_neg (by simpa using getLast?_slashed hne false false hlast)]
    simp [slashed]
  · rw [if_pos ((getLast?_slashed hne false true hlast).mpr rfl)]
    simp [slashed]

end

/-- What a token is read from stands in the pattern. -/
def Wild.StandsIn (b : List Char) : Wild → Prop
  | .any => "**".toList <:+: b
  | .char c => c ∈ b
  | _ => True

theorem standsIn_cons {t : Wild} {b : List Char} (c : Char) (h : t.StandsIn b) : t.StandsIn (c :: b) := by
  cases t with
  | any => exact h.trans (List.suffix_cons c b).isInfix
  | char d => exact List.mem_cons_of_mem c h
  | names => trivial
  | one => trivial

theorem mem_wilds {b : List Char} {t : Wild} (h : t ∈ wilds b) : t.StandsIn b := by
  induction b using wilds.induct with
  | case1 rest ih =>
    rw [wilds] at h
    rcases List.mem_cons.mp h with rfl | h
    · exact ⟨[], rest, rfl⟩
    · exact standsIn_cons _ (standsIn_cons _ (ih h))
  | case2 rest hne ih =>
    rw [wilds.eq_2 rest hne] at h
    rcases List.mem_cons.mp h with rfl | h
    · trivial
    · exact standsIn_cons _ (ih h)
  | case3 rest ih =>
    rw [wilds] at h
    rcases List.mem_cons.mp h with rfl | h
    · trivial
    · exact standsIn_cons _ (ih h)
  | case4 c rest h1 h2 h3 ih =>
    rw [wilds.eq_4 c rest h1 h2 h3] at h
    rcases List.mem_cons.mp h with rfl | h
    · exact List.mem_cons_self
    · exact standsIn_cons _ (ih h)
  | case5 => cases h

theorem mem_of_loosened {ts ts' : List Wild} (h : Loosened ts ts') {t : Wild} (ht : t ∈ ts') : t ∈ ts := by
  induction h with
  | nil => exact ht
  | keep u _ ih =>
    rcases List.mem_cons.mp ht with rfl | ht
    · exact List.mem_cons_self
    · exact List.mem_cons_of_mem _ (ih ht)
  | drop _ ih => exact List.mem_cons_of_mem _ (List.mem_cons_of_mem _ (ih ht))

/-- A pattern without slashes and `**` matches names only. -/
theorem not_mem_of_looseGlob {b s : List Char} (hslash : '/' ∉ b) (hany : ¬"**".toList <:+: b)
    (h : LooseGlob b s) : '/' ∉ s := by
  obtain ⟨ts, hloose, hts⟩ := h
  refine not_mem_of_accepts (fun t ht a ha => ?_) hts
  have hmem := mem_wilds (mem_of_loosened hloose ht)
  cases t with
  | any => exact absurd hmem hany
  | names => simpa [Wild.matches] using ha
  | one =>
    rw [Wild.matches, Bool.and_eq_true] at ha
    exact of_decide_eq_true ha.2
  | char c =>
    rw [of_decide_eq_true ha, List.mem_singleton]
    rintro rfl
    exact hslash hmem

/-- A rule that is anchored, and one that may match below any directory. -/
theorem matches_looseGlob {p path : List Char} (hs : '\n' ∉ path) : Matches LooseGlob p path ↔
    accepts Piece.matches (if p.head? = some '/' then rsyncGlobRegex (body p)
      else .dirs :: rsyncGlobRegex (body p)) path = true := by
  unfold Matches
  split
  · rw [accepts_regex _ hs]
  · have hregex : accepts Piece.matches (.dirs :: rsyncGlobRegex (body p)) path = true ↔
        ∃ tail, FromComponent path tail ∧ LooseGlob (body p) tail := by
      rw [accepts_dirs hs]
      refine exists_congr fun tail => and_congr_right fun hfrom => accepts_regex _ fun hm => hs ?_
      rcases hfrom with rfl | ⟨front, rfl⟩
      · exact hm
      · exact List.mem_append_right _ (List.mem_cons_of_mem _ hm)
    rw [hregex]
    split
    · rename_i hname
      refine exists_congr fun tail => and_congr_right fun _ => and_iff_right_of_imp fun hglob => ?_
      exact not_mem_of_looseGlob hname.1 hname.2 hglob
    · rfl

/-- A rule matches what its trimmed pattern does with some `**/` taken out. -/
theorem compileRule_spec {raw : List Char} {r : Rule} (h : compileRule raw = some r) :
    r.directoryOnly = decide ((trimmed raw).getLast? = some '/') ∧
      ∀ path, '\n' ∉ path → (r.matches path = true ↔ Matches LooseGlob (trimmed raw) path) := by
  unfold compileRule at h
  simp only at h
  split at h
  · cases h
  split at h
  · cases h
  rename_i hne
  obtain rfl := Option.some.inj h
  have hhead := head?_stripSlashes (strip raw)
  have hlast := getLast?_stripSlashes (strip raw)
  constructor
  · exact (Bool.eq_iff_iff.mpr (decide_eq_true_iff.trans (getLast?_slashed hne _ _ hlast))).symm
  · intro path hpath
    have hend : path.getLast? ≠ some '\n' := fun hl => hpath (List.mem_of_getLast? hl)
    rw [matches_looseGlob hpath, trimmed, body_slashed hne _ _ hhead hlast]
    simp only [head?_slashed hne _ _ hhead, Rule.matches, decide_eq_true_eq]
    simp [hend]

/-! ## Directories above a file -/

/-- The texts of the first components are the directories above a path. -/
theorem ancestors (P : List Char → Prop) (path : List Char) :
    (∃ depth ∈ List.range' 1 ((splitOn '/' path).length - 1),
        P (joinWith ['/'] ((splitOn '/' path).take depth))) ↔
      ∃ dir rest, path = dir ++ '/' :: rest ∧ P dir := by
  constructor
  · rintro ⟨depth, hdepth, h⟩
    rw [List.mem_range'_1] at hdepth
    have htake : (splitOn '/' path).take depth ≠ [] := by
      rw [← List.length_pos_iff, List.length_take]
      omega
    have hdrop : (splitOn '/' path).drop depth ≠ [] := by
      rw [← List.length_pos_iff, List.length_drop]
      omega
    have hpath := joinWith_splitOn '/' path
    rw [← List.take_append_drop depth (splitOn '/' path), joinWith_append htake hdrop] at hpath
    rw [List.append_assoc] at hpath
    exact ⟨_, _, hpath.symm, h⟩
  · rintro ⟨dir, rest, rfl, h⟩
    have hdir := List.length_pos_iff.mpr (splitOn_ne_nil '/' dir)
    have hrest := List.length_pos_iff.mpr (splitOn_ne_nil '/' rest)
    refine ⟨(splitOn '/' dir).length, ?_, ?_⟩
    · rw [splitOn_cut, List.length_append, List.mem_range'_1]
      omega
    · rwa [splitOn_cut, List.take_left, joinWith_splitOn]

/-- The filter skips what the trimmed patterns skip with some `**/` taken out of them. -/
theorem excludes_iff {patterns : List (List Char)} {path : List Char} (hexact : exact patterns = true)
    (hpath : '\n' ∉ path) :
    excludes patterns path = true ↔ Skips LooseGlob (patterns.map trimmed) path := by
  have hrule : ∀ (Q : Bool → Prop) s, '\n' ∉ s →
      ((∃ r ∈ patterns.filterMap compileRule, Q r.directoryOnly ∧ r.matches s = true) ↔
        ∃ p ∈ patterns.map trimmed, Q (p.getLast? = some '/') ∧ Matches LooseGlob p s) := by
    intro Q s hs
    constructor
    · rintro ⟨r, hr, hq, hmatch⟩
      obtain ⟨raw, hraw, hcompile⟩ := List.mem_filterMap.mp hr
      obtain ⟨hdir, hspec⟩ := compileRule_spec hcompile
      exact ⟨_, List.mem_map_of_mem hraw, hdir ▸ hq, (hspec s hs).mp hmatch⟩
    · rintro ⟨p, hp, hq, hmatch⟩
      obtain ⟨raw, hraw, rfl⟩ := List.mem_map.mp hp
      obtain ⟨r, hcompile⟩ := Option.isSome_iff_exists.mp (List.all_eq_true.mp hexact raw hraw)
      obtain ⟨hdir, hspec⟩ := compileRule_spec hcompile
      exact ⟨r, List.mem_filterMap.mpr ⟨raw, hraw, hcompile⟩, hdir ▸ hq, (hspec s hs).mpr hmatch⟩
  unfold excludes Skips
  rw [Bool.or_eq_true, List.any_eq_true, List.any_eq_true]
  refine or_congr ?_ ?_
  · simp only [List.any_eq_true]
    rw [ancestors fun dir => ∃ r ∈ patterns.filterMap compileRule, r.matches dir = true]
    refine exists_congr fun dir => exists_congr fun rest => and_congr_right fun hcut => ?_
    have hdir : '\n' ∉ dir := fun hm => hpath (by rw [hcut]; exact List.mem_append_left _ hm)
    simpa using hrule (fun _ => True) dir hdir
  · simpa using hrule (fun b => b = false) path hpath

/-! ## Patterns with `**/` at their beginning only -/

/-- No `**/` stands behind the beginning. -/
def LeadingOnly (b : List Char) : Prop := ¬"**/".toList <:+: if "**/".toList <+: b then b.drop 3 else b

theorem infix_of_wilds {b : List Char} (h : [.any, .char '/'] <:+: wilds b) : "**/".toList <:+: b := by
  induction b using wilds.induct with
  | case1 rest ih =>
    rw [wilds] at h
    rcases List.infix_cons_iff.mp h with hhead | htail
    · obtain ⟨ts, hts⟩ := hhead
      have hslash := wilds_slash (List.cons.inj hts).2.symm
      obtain ⟨tail, rfl⟩ := List.head?_eq_some_iff.mp hslash
      exact ⟨[], tail, rfl⟩
    · exact (ih htail).trans ⟨['*', '*'], [], by simp⟩
  | case2 rest hne ih =>
    rw [wilds.eq_2 rest hne] at h
    rcases List.infix_cons_iff.mp h with ⟨ts, hts⟩ | htail
    · cases (List.cons.inj hts).1
    · exact (ih htail).trans (List.suffix_cons _ _).isInfix
  | case3 rest ih =>
    rw [wilds] at h
    rcases List.infix_cons_iff.mp h with ⟨ts, hts⟩ | htail
    · cases (List.cons.inj hts).1
    · exact (ih htail).trans (List.suffix_cons _ _).isInfix
  | case4 c rest h1 h2 h3 ih =>
    rw [wilds.eq_4 c rest h1 h2 h3] at h
    rcases List.infix_cons_iff.mp h with ⟨ts, hts⟩ | htail
    · cases (List.cons.inj hts).1
    · exact (ih htail).trans (List.suffix_cons _ _).isInfix
  | case5 => simp [wilds] at h

theorem eq_of_loosened {ts ts' : List Wild} (hno : ¬[.any, .char '/'] <:+: ts) (h : Loosened ts ts') :
    ts' = ts := by
  induction h with
  | nil => rfl
  | keep t _ ih => rw [ih fun hin => hno (hin.trans (List.suffix_cons _ _).isInfix)]
  | drop _ _ => exact absurd ⟨[], _, rfl⟩ hno

theorem looseGlob_iff {b s : List Char} (h : LeadingOnly b) : LooseGlob b s ↔ Glob b s := by
  refine ⟨?_, glob_loose⟩
  rintro ⟨ts, hloose, hts⟩
  unfold LeadingOnly at h
  split at h
  · rename_i hleading
    obtain ⟨rest, rfl⟩ := hleading
    have hrest : ¬[.any, .char '/'] <:+: wilds rest := fun hin => h (infix_of_wilds hin)
    have hw : wilds ("**/".toList ++ rest) = .any :: .char '/' :: wilds rest := by simp [wilds]
    unfold Glob
    rw [hw] at hloose ⊢
    cases hloose with
    | keep _ hloose =>
      cases hloose with
      | keep _ hloose =>
        rw [eq_of_loosened hrest hloose] at hts
        exact .inl hts
    | drop hloose =>
      rw [eq_of_loosened hrest hloose] at hts
      exact .inr ⟨rest, rfl, hts⟩
  · rw [eq_of_loosened (fun hin => h (infix_of_wilds hin)) hloose] at hts
    exact .inl hts

/-! ## When the filter is right -/

/-- A file that rsync sends is skipped once the patterns are trimmed and some `**/` are taken out of them. -/
def Overreaches (patterns : List (List Char)) (path : List Char) : Prop :=
  Skips LooseGlob (patterns.map trimmed) path ∧ ¬RsyncSkips patterns path

/-- A file that rsync skips is not skipped any more once the patterns are trimmed. -/
def Underreaches (patterns : List (List Char)) (path : List Char) : Prop :=
  RsyncSkips patterns path ∧ ¬Skips LooseGlob (patterns.map trimmed) path

/-- Patterns as they are usually written are read as rsync reads them. -/
theorem skips_of_leading {patterns : List (List Char)} {path : List Char}
    (h : ∀ p ∈ patterns, trimmed p = p ∧ LeadingOnly (body p)) :
    Skips LooseGlob (patterns.map trimmed) path ↔ RsyncSkips patterns path := by
  have htrimmed : patterns.map trimmed = patterns := by
    rw [List.map_congr_left fun p hp => (h p hp).1, List.map_id']
  rw [htrimmed]
  exact ⟨skips_mono fun p hp _ => (looseGlob_iff (h p hp).2).mp, skips_mono fun _ _ _ => glob_loose⟩

/-- The filter skips what rsync skips exactly when the file is of neither kind, and so it does for every file
where the patterns have no blanks or doubled slashes at their ends and no `**/` behind their beginning. -/
theorem excludes_iff_rsync {patterns : List (List Char)} {path : List Char} (hexact : exact patterns = true)
    (hpath : '\n' ∉ path) :
    ((excludes patterns path = true ↔ RsyncSkips patterns path) ↔
        ¬Overreaches patterns path ∧ ¬Underreaches patterns path) ∧
      ((∀ p ∈ patterns, trimmed p = p ∧ LeadingOnly (body p)) →
        (excludes patterns path = true ↔ RsyncSkips patterns path)) := by
  rw [excludes_iff hexact hpath]
  refine ⟨?_, skips_of_leading⟩
  rw [Overreaches, Underreaches, not_and_not_right, not_and_not_right]
  exact iff_iff_implies_and_implies.trans Iff.rfl

theorem excludes_iff_rsync_logs :
    ((excludes ["*.log".toList, "/cache/".toList] "a/b.log".toList = true ↔
          RsyncSkips ["*.log".toList, "/cache/".toList] "a/b.log".toList) ↔
        ¬Overreaches ["*.log".toList, "/cache/".toList] "a/b.log".toList ∧
          ¬Underreaches ["*.log".toList, "/cache/".toList] "a/b.log".toList) ∧
      (excludes ["*.log".toList, "/cache/".toList] "a/b.log".toList = true ↔
        RsyncSkips ["*.log".toList, "/cache/".toList] "a/b.log".toList) :=
  have h := @excludes_iff_rsync ["*.log".toList, "/cache/".toList] "a/b.log".toList (by decide) (by decide)
  ⟨h.1, h.2 (by unfold LeadingOnly; decide)⟩

/-- A `**/` between two names matches at least one directory for rsync. -/
theorem inner_directories :
    exact ["/a/**/b".toList] = true ∧ excludes ["/a/**/b".toList] "a/b".toList = true ∧
      ¬RsyncSkips ["/a/**/b".toList] "a/b".toList := by
  refine ⟨by decide, by decide, ?_⟩
  have hglob : ∀ s, accepts Wild.matches (wilds "a/**/b".toList) s = false →
      ¬Matches Glob "/a/**/b".toList s := by
    rintro s hno (h | ⟨rest, hrest, -⟩)
    · exact Bool.false_ne_true (hno.symm.trans h)
    · exact absurd (List.cons.inj hrest).1 (by decide)
  rintro (⟨dir, rest, hpath, p, hp, h⟩ | ⟨p, hp, -, h⟩)
  · obtain rfl := List.mem_singleton.mp hp
    obtain ⟨depth, hdepth, htake⟩ :=
      (ancestors (fun d => Matches Glob "/a/**/b".toList d) "a/b".toList).mpr ⟨dir, rest, hpath, h⟩
    rw [show List.range' 1 ((splitOn '/' "a/b".toList).length - 1) = [1] from by decide] at hdepth
    obtain rfl := List.mem_singleton.mp hdepth
    exact hglob _ (by decide) htake
  · obtain rfl := List.mem_singleton.mp hp
    exact hglob _ (by decide) h

end Dt.Transfers
