import Mathlib.Data.List.DropRight
import Dt.Layout
import Dt.Lib.Lines
import Dt.Lib.ShellWord

/-!
# One path in three languages

A logical node path starts with `/` or with `~/`. It is written as a word for a POSIX shell, joined
to the home directory by `pathlib`, and sent to rsync, whose remote side starts in the home directory.
`normalize_node_root` reads components with `PurePosixPath`, which drops empty ones and `.`, so it
accepts roots that have them; and it strips blanks before slashes, so that blanks in front of the last
slashes stay.
-/

namespace Dt.Layout

open Dt.Lib

/-! ## Paths of `pathlib` -/

/-- The root of `PurePosixPath(s)`: exactly two leading slashes are kept. -/
def rootOf : List Char → List Char
  | '/' :: '/' :: '/' :: _ => ['/']
  | '/' :: '/' :: _ => ['/', '/']
  | '/' :: _ => ['/']
  | _ => []

/-- `str(Path(s))` -/
def pathText (s : List Char) : List Char :=
  let text := rootOf s ++ joinWith ['/'] ((pathParts s).map String.toList)
  if text = [] then ['.'] else text

/-- `posixpath.join` -/
def posixJoin (a b : List Char) : List Char :=
  if isAbsolute b then b else if a = [] ∨ a.getLast? = some '/' then a ++ b else a ++ '/' :: b

/-- `Path.home()`, from the value of `HOME`. -/
def pathHome (home : List Char) : List Char :=
  pathText (if rstripSlash home = [] then ['/'] else rstripSlash home)

/-! ## The renderings -/

/-- What follows `~/`. -/
def homeRelative : List Char → Option (List Char)
  | '~' :: '/' :: rest => some rest
  | _ => none

def homeVariable : List Char := ['H', 'O', 'M', 'E']

/-- One shell-safe expression for a logical node path. -/
def nodePathExpression (path : List Char) : Except String (List Char) :=
  if '\x00' ∈ path ∨ '\n' ∈ path ∨ '\r' ∈ path then .error "node path contains a control character"
  else if path = ['~'] then .ok ('"' :: '$' :: (homeVariable ++ ['"']))
  else match homeRelative path with
    | some remainder => .ok ('"' :: '$' :: (homeVariable ++ '"' :: '/' :: Shlex.quote remainder))
    | none => .ok (Shlex.quote path)

/-- `local_node_path`, as a text. -/
def localNodePath (home path : List Char) : List Char :=
  if path = ['~'] then pathHome home
  else match homeRelative path with
    | some rest => pathText (posixJoin (pathHome home) rest)
    | none => if isAbsolute path then pathText path else pathText (posixJoin (pathHome home) path)

/-- `rsync_destination`; `home` is the home directory of this process. -/
def rsyncDestination (home nodeName : List Char) (onHead : Bool) (path : List Char)
    (directory : Bool) : List Char :=
  let suffix := if directory then ['/'] else []
  if onHead then rstripSlash (localNodePath home path) ++ suffix
  else nodeName ++ ':' :: (rstripSlash ((homeRelative path).getD path) ++ suffix)

/-! ## What the renderings denote -/

/-- The directory that an absolute path denotes, component by component. -/
def placeOf (text : List Char) : Option (List String) :=
  if isAbsolute text then some (pathParts text) else none

/-- A text that the process resolves in its home directory. -/
def resolveIn (home text : List Char) : List Char :=
  if isAbsolute text then text else home ++ '/' :: text

/-- The shell expression, with `HOME` set. -/
def shellPlace (home path : List Char) : Option (List String) :=
  match nodePathExpression path with
  | .error _ => none
  | .ok expression =>
    (ShellWord.value (fun name => if name = homeVariable then home else []) expression .bare).bind placeOf

def localPlace (home path : List Char) : Option (List String) := placeOf (localNodePath home path)

/-- The remote path in a destination of rsync; behind two colons stands the module of a daemon. -/
def rsyncRemote (destination : List Char) : Option (List Char) :=
  match (destination.dropWhile (· ≠ ':')).tail with
  | ':' :: _ => none
  | text => some text

/-- A leading tilde and wildcards are for the remote side to expand. -/
def isExpanded (text : List Char) : Bool :=
  text.head? = some '~' || text.any fun c => c = '*' || c = '?' || c = '['

/-- The path that rsync names on the remote side; `expand` is what that side makes of a text that is
not taken as it stands, from the home directory and the text. -/
def remotePlace (expand : List Char → List Char → Option (List Char)) (home destination : List Char) :
    Option (List String) :=
  (rsyncRemote destination).bind fun text =>
    (if isExpanded text then expand home text else some text).bind fun path =>
      placeOf (resolveIn home path)

/-! ## Components -/

theorem splitOn_append_sep {sep : Char} (a b : List Char) :
    splitOn sep (a ++ sep :: b) = splitOn sep a ++ splitOn sep b := by
  have haux : ∀ cur, splitOnAux sep (a ++ sep :: b) cur = splitOnAux sep a cur ++ splitOn sep b := by
    induction a with
    | nil => simp [splitOnAux, splitOn]
    | cons c a ih =>
      intro cur
      simp only [List.cons_append, splitOnAux]
      split
      · rw [ih, List.cons_append]
      · exact ih _
  exact haux []

theorem splitOnAux_noSep {sep : Char} (s cur p : List Char) (hcur : sep ∉ cur)
    (h : p ∈ splitOnAux sep s cur) : sep ∉ p := by
  induction s generalizing cur with
  | nil =>
    rw [splitOnAux, List.mem_singleton] at h
    rw [h, List.mem_reverse]
    exact hcur
  | cons c s ih =>
    rw [splitOnAux] at h
    split at h
    · rcases List.mem_cons.mp h with h | h
      · rw [h, List.mem_reverse]
        exact hcur
      · exact ih [] List.not_mem_nil h
    · rename_i hc
      exact ih (c :: cur) (by simp [hcur, Ne.symm hc]) h

theorem splitOn_joinWith {sep : Char} {ps : List (List Char)} (hne : ps ≠ [])
    (h : ∀ p ∈ ps, sep ∉ p) : splitOn sep (joinWith [sep] ps) = ps := by
  induction ps with
  | nil => exact absurd rfl hne
  | cons p ps ih =>
    have hp := h p List.mem_cons_self
    cases ps with
    | nil => rw [joinWith, splitOn_of_notMem hp]
    | cons q qs =>
      have hjoin : joinWith [sep] (p :: q :: qs) = p ++ sep :: joinWith [sep] (q :: qs) := by
        simp [joinWith]
      rw [hjoin, splitOn_append hp, ih (List.cons_ne_nil _ _) fun r hr => h r (List.mem_cons_of_mem _ hr)]

theorem pathParts_append_slash (a b : List Char) :
    pathParts (a ++ '/' :: b) = pathParts a ++ pathParts b := by
  unfold pathParts
  rw [splitOn_append_sep, List.map_append, List.filter_append]

theorem pathParts_nil : pathParts [] = [] := by decide

theorem pathParts_slash (s : List Char) : pathParts ('/' :: s) = pathParts s := by
  have h := pathParts_append_slash [] s
  rwa [List.nil_append, pathParts_nil, List.nil_append] at h

theorem rstripSlash_eq_self_iff {s : List Char} : rstripSlash s = s ↔ s.getLast? ≠ some '/' := by
  refine List.rdropWhile_eq_self_iff.trans ?_
  constructor
  · intro h hlast
    obtain ⟨init, rfl⟩ := List.getLast?_eq_some_iff.mp hlast
    exact h (by simp) (by simp)
  · intro h hne hslash
    rw [List.getLast?_eq_some_getLast hne, of_decide_eq_true hslash] at h
    exact h rfl

/-- Slashes at the end add no component. -/
theorem pathParts_append_end (s : List Char) (n : Nat) :
    pathParts (s ++ List.replicate n '/') = pathParts s := by
  induction n with
  | zero => rw [List.replicate_zero, List.append_nil]
  | succ n ih =>
    rw [List.replicate_succ', ← List.append_assoc, ← List.append_nil (['/'] : List Char),
      List.singleton_append, pathParts_append_slash, pathParts_nil, List.append_nil, ih]

theorem rstripSlash_spec (s : List Char) :
    ∃ n, s = rstripSlash s ++ List.replicate n '/' := by
  refine ⟨(s.reverse.takeWhile (· = '/')).length, ?_⟩
  have hslash : (s.reverse.takeWhile (· = '/')).reverse =
      List.replicate (s.reverse.takeWhile (· = '/')).length '/' := by
    refine List.eq_replicate_iff.mpr ⟨List.length_reverse, fun c hc => ?_⟩
    have hc : c ∈ s.reverse.takeWhile (· = '/') := List.mem_reverse.mp hc
    exact of_decide_eq_true (List.mem_takeWhile_imp (p := (· = '/')) hc)
  rw [rstripSlash, ← hslash, ← List.reverse_append, List.takeWhile_append_dropWhile,
    List.reverse_reverse]

theorem pathParts_rstripSlash (s : List Char) : pathParts (rstripSlash s) = pathParts s := by
  obtain ⟨n, hn⟩ := rstripSlash_spec s
  conv_rhs => rw [hn, pathParts_append_end]

theorem pathParts_noSlash {s : List Char} {p : String} (h : p ∈ pathParts s) :
    '/' ∉ p.toList ∧ p ≠ "" ∧ p ≠ "." := by
  obtain ⟨hmem, hkept⟩ := List.mem_filter.mp h
  obtain ⟨cs, hcs, rfl⟩ := List.mem_map.mp hmem
  rw [String.toList_ofList]
  exact ⟨splitOnAux_noSep s [] cs List.not_mem_nil hcs, by simpa using hkept⟩

/-- Components that are joined are read back. -/
theorem pathParts_join {ps : List String} (h : ∀ p ∈ ps, '/' ∉ p.toList ∧ p ≠ "" ∧ p ≠ ".") :
    pathParts (joinWith ['/'] (ps.map String.toList)) = ps := by
  by_cases hne : ps = []
  · rw [hne, List.map_nil, joinWith, pathParts_nil]
  · unfold pathParts
    rw [splitOn_joinWith (by simpa using hne) (by simpa using fun p hp => (h p hp).1), List.map_map]
    have hid : String.ofList ∘ String.toList = id := funext fun p => String.ofList_toList
    rw [hid, List.map_id]
    exact List.filter_eq_self.mpr fun p hp => by simpa using (h p hp).2

theorem pathParts_rootOf (s t : List Char) : pathParts (rootOf s ++ t) = pathParts t := by
  unfold rootOf
  split <;> simp [pathParts_slash]

/-- Normalising keeps the components. -/
theorem pathParts_pathText (s : List Char) : pathParts (pathText s) = pathParts s := by
  have htext : pathParts (rootOf s ++ joinWith ['/'] ((pathParts s).map String.toList)) =
      pathParts s := by
    rw [pathParts_rootOf, pathParts_join fun p hp => pathParts_noSlash hp]
  simp only [pathText]
  split
  · rename_i hnil
    rw [hnil, pathParts_nil] at htext
    rw [← htext]
    decide
  · exact htext

theorem isAbsolute_pathText {s : List Char} (h : isAbsolute s = true) :
    isAbsolute (pathText s) = true := by
  have hroot : isAbsolute (rootOf s) = true := by
    obtain ⟨rest, rfl⟩ := List.head?_eq_some_iff.mp (of_decide_eq_true h)
    unfold rootOf
    split <;> simp_all [isAbsolute]
  obtain ⟨rest, hrest⟩ := List.head?_eq_some_iff.mp (of_decide_eq_true hroot)
  simp [pathText, hrest, isAbsolute]

theorem placeOf_absolute {s : List Char} (h : isAbsolute s = true) : placeOf s = some (pathParts s) :=
  if_pos h

theorem resolveIn_relative (home : List Char) {text : List Char} (h : isAbsolute text = false) :
    resolveIn home text = home ++ '/' :: text := if_neg (by simp [h])

theorem resolveIn_absolute (home : List Char) {text : List Char} (h : isAbsolute text = true) :
    resolveIn home text = text := if_pos h

/-! ## Accepted roots -/

/-- `value.strip().rstrip("/")` -/
def trimmedRoot (value : List Char) : List Char := rstripSlash (strip value)

def hasControl (s : List Char) : Bool := '\x00' ∈ s || '\n' ∈ s || '\r' ∈ s

/-- What `normalize_node_root` has checked, for a root in the home directory and for another one. -/
inductive RootShape : List Char → Prop where
  | home {rest : List Char} (hrel : isAbsolute rest = false) (hup : ".." ∉ pathParts rest) :
      RootShape ('~' :: '/' :: rest)
  | absolute {rest : List Char} (hup : ".." ∉ pathParts rest) : RootShape ('/' :: rest)

theorem normalizeNodeRoot_congr {v w : String} (hv : hasControl v.toList = false)
    (hw : hasControl w.toList = false) (h : trimmedRoot v.toList = trimmedRoot w.toList) :
    normalizeNodeRoot v = normalizeNodeRoot w := by
  unfold trimmedRoot at h
  unfold hasControl at hv hw
  unfold normalizeNodeRoot
  simp only [hv, hw, h]

theorem normalizeNodeRoot_ok {value root : String} (h : normalizeNodeRoot value = .ok root) :
    root.toList = trimmedRoot value.toList ∧ hasControl value.toList = false ∧
      RootShape root.toList := by
  unfold trimmedRoot
  unfold normalizeNodeRoot at h
  simp only at h
  split at h
  · cases h
  · rename_i hcontrol
    generalize rstripSlash (strip value.toList) = text at h ⊢
    have hparts : ∀ ps : List String, (if ps = [] || ps.any (fun p => p = "" || p = "." || p = "..")
        then Except.error "root must not contain . or .. components"
        else (validatePathSize (String.ofList text) ps).map fun _ => String.ofList text) =
          Except.ok root → root.toList = text ∧ ".." ∉ ps := by
      intro ps h
      split at h
      · cases h
      · rename_i hplain
        cases hsize : validatePathSize (String.ofList text) ps with
        | error e =>
          rw [hsize] at h
          cases h
        | ok _ =>
          rw [hsize] at h
          cases h
          refine ⟨String.toList_ofList, fun hmem => hplain ?_⟩
          have hany : ps.any (fun p => p = "" || p = "." || p = "..") = true :=
            List.any_eq_true.mpr ⟨"..", hmem, by decide⟩
          rw [hany, Bool.or_true]
    split at h
    · cases h
    · split at h
      · cases h
      · rename_i ps hps
        obtain ⟨htext, hup⟩ := hparts ps h
        refine ⟨htext, Bool.eq_false_iff.mpr hcontrol, ?_⟩
        rw [htext]
        split at hps
        · split at hps
          · cases hps
          · rename_i habs
            cases hps
            exact .home (Bool.eq_false_iff.mpr habs) hup
        · cases hps
          rw [pathParts_slash] at hup
          exact .absolute hup
        · cases hps

/-- Stripping takes no character but at the ends. -/
theorem trimmedRoot_sublist (s : List Char) : (trimmedRoot s).Sublist s := by
  have hdrop : ∀ (p : Char → Bool) (t : List Char), (t.reverse.dropWhile p).reverse.Sublist t := by
    intro p t
    have h := (List.dropWhile_sublist p (l := t.reverse)).reverse
    rwa [List.reverse_reverse] at h
  exact (hdrop _ _).trans ((hdrop _ _).trans (List.dropWhile_sublist _))

theorem hasControl_sublist {s t : List Char} (h : s.Sublist t) (ht : hasControl t = false) :
    hasControl s = false := by
  unfold hasControl at ht ⊢
  simp only [Bool.or_eq_false_iff, decide_eq_false_iff_not] at ht ⊢
  exact ⟨⟨fun hs => ht.1.1 (h.subset hs), fun hs => ht.1.2 (h.subset hs)⟩, fun hs => ht.2 (h.subset hs)⟩

theorem RootShape.head {root : List Char} (h : RootShape root) :
    ∃ c rest, root = c :: rest ∧ isSpace c = false := by
  cases h with
  | home => exact ⟨'~', _, rfl, by decide⟩
  | absolute => exact ⟨'/', _, rfl, by decide⟩

theorem rstripSlash_idem (s : List Char) : rstripSlash (rstripSlash s) = rstripSlash s := by
  unfold rstripSlash
  rw [List.reverse_reverse, List.dropWhile_idempotent]

theorem length_rstripSlash_le (s : List Char) : (rstripSlash s).length ≤ s.length := by
  obtain ⟨n, hn⟩ := rstripSlash_spec s
  conv_rhs => rw [hn]
  rw [List.length_append]
  exact Nat.le_add_right _ _

/-- A trimmed root stays as it is exactly when no blank ends it. -/
theorem trimmedRoot_fixed_iff {root : List Char} (hshape : RootShape root)
    (hslash : rstripSlash root = root) :
    trimmedRoot root = root ↔ ∀ c ∈ root.getLast?, isSpace c = false := by
  obtain ⟨c, rest, hroot, hc⟩ := hshape.head
  have hstrip : strip root = rstrip root := by
    rw [hroot]
    exact strip_of_head hc rest
  obtain ⟨init, last, hlast⟩ := (List.eq_nil_or_concat' root).resolve_left
    (hroot ▸ List.cons_ne_nil c rest)
  have hget : root.getLast? = some last := by rw [hlast, List.getLast?_concat]
  rw [trimmedRoot, hstrip, hget]
  simp only [Option.mem_some_iff, forall_eq']
  constructor
  · intro hfixed
    refine Bool.eq_false_iff.mpr fun hspace => ?_
    have hshort : rstrip root = rstrip init := by
      rw [hlast, rstrip, List.reverse_concat, List.dropWhile_cons_of_pos hspace]
      rfl
    have hlen := length_rstripSlash_le (rstrip root)
    have hinit := (prefix_of_rstrip init).length_le
    rw [hfixed, hshort, hlast, List.length_append, List.length_singleton] at hlen
    omega
  · intro hspace
    have hkeep : rstrip root = root := by
      rw [hlast, rstrip, List.reverse_concat, List.dropWhile_cons_of_neg (by simp [hspace]),
        ← List.reverse_concat, List.reverse_reverse]
    rw [hkeep, hslash]

/-! ## One directory -/

/-- What a root names, for a process that starts in the home directory. -/
def relativeText (root : List Char) : List Char := (homeRelative root).getD root

theorem RootShape.relativeText {root : List Char} (h : RootShape root) :
    (∃ rest, homeRelative root = some rest ∧ root ≠ ['~'] ∧ isAbsolute rest = false) ∨
      (homeRelative root = none ∧ root ≠ ['~'] ∧ isAbsolute root = true) := by
  cases h with
  | @home rest hrel hup => exact .inl ⟨rest, rfl, by simp, hrel⟩
  | @absolute rest hup => exact .inr ⟨rfl, by simp, rfl⟩

/-- The shell expression is the word that the root names in the home directory. -/
theorem shellPlace_eq {root : List Char} (hshape : RootShape root) (hcontrol : hasControl root = false)
    (home : List Char) : shellPlace home root = placeOf (resolveIn home (relativeText root)) := by
  have hplain : ¬ ('\x00' ∈ root ∨ '\n' ∈ root ∨ '\r' ∈ root) := by
    simpa [hasControl, and_assoc] using hcontrol
  unfold shellPlace nodePathExpression relativeText
  rw [if_neg hplain]
  rcases hshape.relativeText with ⟨rest, hrel, htilde, habs⟩ | ⟨hrel, htilde, habs⟩
  · rw [if_neg htilde, hrel]
    have hname : ShellWord.IsName homeVariable :=
      ⟨List.all_eq_true.mp (by decide), 'H', _, rfl, by decide⟩
    have hword := ShellWord.value_quotedVariable
      (fun name => if name = homeVariable then home else []) hname ('/' :: Shlex.quote rest)
    have hrest := ShellWord.value_cons (fun name => if name = homeVariable then home else [])
      (c := '/') (by decide) (Shlex.quote rest)
    rw [ShellWord.value_quote] at hrest
    rw [hrest, if_pos rfl] at hword
    simp only [hword, Option.map_some, Option.bind_some, Option.getD_some]
    rw [resolveIn_relative home habs]
  · rw [if_neg htilde, hrel]
    simp only [ShellWord.value_quote, Option.bind_some, Option.getD_none]
    rw [resolveIn_absolute home habs]

theorem pathHome_spec {home : List Char} (h : isAbsolute home = true) :
    isAbsolute (pathHome home) = true ∧ pathParts (pathHome home) = pathParts home := by
  unfold pathHome
  by_cases hnil : rstripSlash home = []
  · rw [if_pos hnil]
    refine ⟨by decide, ?_⟩
    rw [pathParts_pathText, ← pathParts_rstripSlash home, hnil]
    decide
  · rw [if_neg hnil]
    refine ⟨isAbsolute_pathText ?_, by rw [pathParts_pathText, pathParts_rstripSlash]⟩
    obtain ⟨n, hn⟩ := rstripSlash_spec home
    obtain ⟨c, rest, hcons⟩ := List.exists_cons_of_ne_nil hnil
    rw [hn, hcons] at h
    rw [hcons]
    exact h

/-- A relative text below a directory. -/
theorem posixJoin_spec {a b : List Char} (ha : isAbsolute a = true) (hb : isAbsolute b = false) :
    isAbsolute (posixJoin a b) = true ∧ pathParts (posixJoin a b) = pathParts a ++ pathParts b := by
  obtain ⟨rest, rfl⟩ := List.head?_eq_some_iff.mp (of_decide_eq_true ha)
  unfold posixJoin
  rw [if_neg (by simp [hb])]
  split
  · rename_i hend
    refine ⟨rfl, ?_⟩
    have hlast : ('/' :: rest).getLast? = some '/' := hend.resolve_left (List.cons_ne_nil _ _)
    obtain ⟨init, hinit⟩ := List.getLast?_eq_some_iff.mp hlast
    rw [hinit, List.append_assoc, List.singleton_append, pathParts_append_slash,
      pathParts_append_slash, pathParts_nil, List.append_nil]
  · exact ⟨rfl, pathParts_append_slash _ _⟩

theorem localPlace_eq {root : List Char} (hshape : RootShape root) {home : List Char}
    (hhome : isAbsolute home = true) :
    localPlace home root = placeOf (resolveIn home (relativeText root)) := by
  unfold localPlace localNodePath relativeText
  rcases hshape.relativeText with ⟨rest, hrel, htilde, habs⟩ | ⟨hrel, htilde, habs⟩
  · obtain ⟨hdir, hparts⟩ := pathHome_spec hhome
    obtain ⟨hjoin, hjoined⟩ := posixJoin_spec hdir habs
    have hslash : isAbsolute (home ++ '/' :: rest) = true := by
      cases home with
      | nil => rfl
      | cons c home => exact hhome
    rw [if_neg htilde, hrel, Option.getD_some, resolveIn_relative home habs,
      placeOf_absolute hslash, pathParts_append_slash]
    simp only
    rw [placeOf_absolute (isAbsolute_pathText hjoin), pathParts_pathText, hjoined, hparts]
  · rw [if_neg htilde, hrel, Option.getD_none, resolveIn_absolute home habs, placeOf_absolute habs]
    simp only [habs, if_true]
    rw [placeOf_absolute (isAbsolute_pathText habs), pathParts_pathText]

theorem dropWhile_notMem {sep : Char} {a : List Char} (h : sep ∉ a) (rest : List Char) :
    (a ++ sep :: rest).dropWhile (· ≠ sep) = sep :: rest := by
  have hall : ∀ c ∈ a, decide (c ≠ sep) = true := fun c hc =>
    decide_eq_true fun heq => h (heq ▸ hc)
  rw [List.dropWhile_append_of_pos hall, List.dropWhile_cons_of_neg (by simp)]

/-! ## Roots that keep their form -/

/-- The components of a root behind `~/` or the first slash. -/
def rootComponents (root : List Char) : List (List Char) :=
  splitOn '/' ((homeRelative root).getD (root.drop 1))

structure NormalForm (root : String) : Prop where
  fixed : normalizeNodeRoot root = .ok root
  plain : ∀ part ∈ rootComponents root.toList, part ≠ [] ∧ part ≠ ['.'] ∧ part ≠ ['.', '.']

/-- In every home directory the shell, this process and rsync mean the same directory. -/
def SamePlace (expand : List Char → List Char → Option (List Char)) (own nodeName : List Char)
    (directory : Bool) (root : List Char) : Prop :=
  ∀ home, isAbsolute home = true → ∃ place, shellPlace home root = some place ∧
    localPlace home root = some place ∧
    remotePlace expand home (rsyncDestination own nodeName false root directory) = some place

/-- The text for rsync behind the name of the node. -/
def sentText (root : List Char) (directory : Bool) : List Char :=
  relativeText root ++ if directory then ['/'] else []

/-- A root without blanks at its end and without empty components and `.`, which rsync takes for a
path and which the remote side, where it expands the text, reads as it stands. -/
structure TidyRoot (expand : List Char → List Char → Option (List Char)) (directory : Bool)
    (root : List Char) : Prop where
  ends : ∀ c ∈ root.getLast?, isSpace c = false
  plain : ∀ part ∈ rootComponents root, part ≠ [] ∧ part ≠ ['.']
  path : (relativeText root).head? ≠ some ':'
  literal : isExpanded (sentText root directory) → ∀ home, isAbsolute home = true →
    (expand home (sentText root directory)).bind (fun text => placeOf (resolveIn home text)) =
      placeOf (resolveIn home (sentText root directory))

section

variable {expand : List Char → List Char → Option (List Char)} {own nodeName root : List Char}
  {directory : Bool}

theorem rsyncDestination_remote (hslash : rstripSlash root = root) (hshape : RootShape root) :
    rsyncDestination own nodeName false root directory =
      nodeName ++ ':' :: sentText root directory := by
  have hkeep : rstripSlash (relativeText root) = relativeText root := by
    cases hshape with
    | absolute => exact hslash
    | @home rest =>
      rw [rstripSlash_eq_self_iff] at hslash ⊢
      cases rest with
      | nil => exact absurd rfl hslash
      | cons c rest => exact hslash
  unfold rsyncDestination sentText
  simp only [Bool.false_eq_true, if_false]
  rw [← relativeText, hkeep]

theorem relativeText_ne_nil (hslash : rstripSlash root = root) (hshape : RootShape root) :
    relativeText root ≠ [] := by
  cases hshape with
  | absolute => exact List.cons_ne_nil _ _
  | @home rest =>
    rw [rstripSlash_eq_self_iff] at hslash
    rintro hnil
    rw [show rest = [] from hnil] at hslash
    exact hslash rfl

/-- A slash at the end names no other directory. -/
theorem placeOf_slash {text : List Char} (hne : text ≠ []) (home : List Char) (n : Nat) :
    placeOf (resolveIn home (text ++ List.replicate n '/')) = placeOf (resolveIn home text) := by
  have hopen : ∀ s t : List Char, s ≠ [] → isAbsolute (s ++ t) = isAbsolute s := by
    intro s t hs
    cases s with
    | nil => exact absurd rfl hs
    | cons c s => rfl
  have hresolve : resolveIn home (text ++ List.replicate n '/') =
      resolveIn home text ++ List.replicate n '/' := by
    unfold resolveIn
    rw [hopen text _ hne]
    split
    · rfl
    · rw [List.append_assoc, List.cons_append]
  have hsome : resolveIn home text ≠ [] := by
    unfold resolveIn
    split
    · exact hne
    · simp
  rw [hresolve, placeOf, placeOf, hopen _ _ hsome, pathParts_append_end]

theorem placeOf_sentText (hslash : rstripSlash root = root) (hshape : RootShape root)
    (home : List Char) :
    placeOf (resolveIn home (sentText root directory)) = placeOf (resolveIn home (relativeText root)) := by
  have hne := relativeText_ne_nil hslash hshape
  unfold sentText
  cases directory with
  | false => exact placeOf_slash hne home 0
  | true => exact placeOf_slash hne home 1

theorem placeOf_resolveIn {home : List Char} (hhome : isAbsolute home = true) (text : List Char) :
    ∃ place, placeOf (resolveIn home text) = some place := by
  have habs : isAbsolute (resolveIn home text) = true := by
    unfold resolveIn
    split
    · assumption
    · cases home with
      | nil => rfl
      | cons c home => exact hhome
  exact ⟨_, placeOf_absolute habs⟩

/-- The renderings mean one directory exactly when rsync reads the text it is sent as it stands. -/
theorem samePlace_iff (hname : ':' ∉ nodeName) (hshape : RootShape root)
    (hslash : rstripSlash root = root) (hcontrol : hasControl root = false) :
    SamePlace expand own nodeName directory root ↔
      (relativeText root).head? ≠ some ':' ∧
      (isExpanded (sentText root directory) → ∀ home, isAbsolute home = true →
        (expand home (sentText root directory)).bind (fun text => placeOf (resolveIn home text)) =
          placeOf (resolveIn home (sentText root directory))) := by
  have hhead : (sentText root directory).head? = (relativeText root).head? := by
    unfold sentText
    cases hrel : relativeText root with
    | nil => exact absurd hrel (relativeText_ne_nil hslash hshape)
    | cons c rest => rfl
  have hremote : ∀ home, remotePlace expand home (rsyncDestination own nodeName false root directory) =
      if (relativeText root).head? = some ':' then none
      else (if isExpanded (sentText root directory) then expand home (sentText root directory)
        else some (sentText root directory)).bind fun text => placeOf (resolveIn home text) := by
    intro home
    rw [remotePlace, rsyncDestination_remote hslash hshape, rsyncRemote, dropWhile_notMem hname,
      List.tail_cons, ← hhead]
    cases sentText root directory with
    | nil => rfl
    | cons c rest =>
      by_cases hc : c = ':'
      · subst hc
        rfl
      · simp [hc]
  constructor
  · intro h
    have hnoDaemon : (relativeText root).head? ≠ some ':' := by
      intro hcolon
      obtain ⟨place, -, -, hplace⟩ := h ['/'] rfl
      rw [hremote, if_pos hcolon] at hplace
      cases hplace
    refine ⟨hnoDaemon, fun hexp home hhome => ?_⟩
    obtain ⟨place, hshell, -, hplace⟩ := h home hhome
    rw [hremote, if_neg hnoDaemon, if_pos hexp] at hplace
    rw [shellPlace_eq hshape hcontrol, ← placeOf_sentText hslash hshape] at hshell
    rw [hplace, hshell]
  · rintro ⟨hnoDaemon, hliteral⟩ home hhome
    obtain ⟨place, hplace⟩ := placeOf_resolveIn hhome (relativeText root)
    refine ⟨place, (shellPlace_eq hshape hcontrol home).trans hplace,
      (localPlace_eq hshape hhome).trans hplace, ?_⟩
    rw [hremote, if_neg hnoDaemon, ← hplace, ← @placeOf_sentText root directory hslash hshape]
    split
    · rename_i hexp
      exact hliteral hexp home hhome
    · rfl

end

/-- An accepted root keeps its form, has no empty component, `.` or `..`, and means one directory to
the shell, to this process and to rsync exactly when what was stripped of the input is tidy. -/
theorem nodeRoot_renderings_iff (expand : List Char → List Char → Option (List Char))
    (own nodeName : List Char) (directory : Bool) (value root : String) (hname : ':' ∉ nodeName)
    (hroot : normalizeNodeRoot value = .ok root) :
    (NormalForm root ∧ SamePlace expand own nodeName directory root.toList) ↔
      TidyRoot expand directory (trimmedRoot value.toList) := by
  obtain ⟨htrim, hcontrol, hshape⟩ := normalizeNodeRoot_ok hroot
  have hslash : rstripSlash root.toList = root.toList := by
    rw [htrim, trimmedRoot, rstripSlash_idem]
  have hclean : hasControl root.toList = false := by
    refine hasControl_sublist ?_ hcontrol
    rw [htrim]
    exact trimmedRoot_sublist _
  have hfixed : normalizeNodeRoot root = .ok root ↔ ∀ c ∈ root.toList.getLast?, isSpace c = false := by
    refine Iff.trans ?_ (trimmedRoot_fixed_iff hshape hslash)
    constructor
    · intro h
      exact (normalizeNodeRoot_ok h).1.symm
    · intro h
      rw [normalizeNodeRoot_congr hclean hcontrol (h.trans htrim), hroot]
  have hup : ∀ part ∈ rootComponents root.toList, part ≠ ['.', '.'] := by
    rintro part hpart rfl
    have hkept : ∀ rest : List Char, ['.', '.'] ∈ splitOn '/' rest → ".." ∈ pathParts rest :=
      fun rest hmem => List.mem_filter.mpr ⟨List.mem_map.mpr ⟨_, hmem, by decide⟩, by decide⟩
    generalize root.toList = text at hshape hpart
    cases hshape with
    | home hrel hno => exact hno (hkept _ hpart)
    | absolute hno => exact hno (hkept _ hpart)
  rw [samePlace_iff hname hshape hslash hclean, ← htrim]
  constructor
  · rintro ⟨⟨hfix, hplain⟩, hpath, hliteral⟩
    exact ⟨hfixed.mp hfix, fun part hpart => ⟨(hplain part hpart).1, (hplain part hpart).2.1⟩, hpath,
      hliteral⟩
  · rintro ⟨hends, hplain, hpath, hliteral⟩
    exact ⟨⟨hfixed.mpr hends, fun part hpart =>
      ⟨(hplain part hpart).1, (hplain part hpart).2, hup part hpart⟩⟩, hpath, hliteral⟩

theorem nodeRoot_renderings_sample :
    NormalForm "~/dt" ∧ SamePlace (fun _ text => some text) [] ['n', '1'] true "~/dt".toList := by
  refine (nodeRoot_renderings_iff _ _ _ _ " ~/dt/ " "~/dt" (by decide) (by decide)).mpr ⟨?_, ?_, ?_, ?_⟩
  · have hlast : (trimmedRoot " ~/dt/ ".toList).getLast? = some 't' := by decide
    rw [hlast]
    rintro _ ⟨⟩
    decide
  · decide
  · decide
  · exact fun hexp => absurd hexp (by decide)

/-- `/srv//dt` is accepted as it is. -/
theorem doubled_slash_kept : ¬ ∀ value root, normalizeNodeRoot value = .ok root →
    NormalForm root ∧ SamePlace (fun _ text => some text) [] ['n', '1'] true root.toList := by
  intro h
  have hplain := (h "/srv//dt" "/srv//dt" (by decide)).1.plain [] (by decide)
  exact hplain.1 rfl

end Dt.Layout
