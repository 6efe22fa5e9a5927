import Dt.Layout.Renderings
import Dt.Lib.LastLines
import Dt.Lib.RelativePath

/-!
# The baseline of a snapshot

A new job copies what it shares with the job before it on the same node, from a path that rsync resolves in the
directory it fills. The head computes that path with `posixpath.relpath`, which reads `~` as a name and takes the
head's own working directory for the home of the node. The two readings cancel where both directories are written
in one form, and not where the forms are mixed.
-/

namespace Dt.Dispatch

open Dt.Lib Dt.Layout

/-! ## Texts of paths -/

def parent : List Char := ['.', '.']

def isName (piece : List Char) : Bool := piece ≠ [] && piece ≠ ['.']

/-- The parts of `PurePosixPath(path)`, without its root. -/
def components (path : List Char) : List (List Char) := (splitOn '/' path).filter isName

/-- One turn of the loop of `normpath`. -/
def normStep (rooted : Bool) (comps : List (List Char)) (comp : List Char) : List (List Char) :=
  if comp = [] || comp = ['.'] then comps
  else if comp ≠ parent || !rooted && comps = [] || comps.getLast? = some parent then comps ++ [comp]
  else comps.dropLast

def normpath (path : List Char) : List Char :=
  let text := rootOf path ++ joinWith ['/'] ((splitOn '/' path).foldl (normStep (isAbsolute path)) [])
  if text = [] then ['.'] else text

def abspath (cwd path : List Char) : List Char :=
  normpath (if isAbsolute path then path else posixJoin cwd path)

def relpath (cwd path start : List Char) : List Char :=
  let startList := (splitOn '/' (abspath cwd start)).filter (· ≠ [])
  let pathList := (splitOn '/' (abspath cwd path)).filter (· ≠ [])
  let relList := relative parent startList pathList
  if relList = [] then ['.'] else joinWith ['/'] relList

/-! ## The two functions -/

/-- The components of an absolute path, as `os.getcwd()` gives it. -/
structure Directory where
  names : List (List Char)
  proper : ∀ c ∈ names, isName c = true ∧ '/' ∉ c ∧ c ≠ parent

def Directory.text (d : Directory) : List Char := '/' :: joinWith ['/'] d.names

/-- What `sync_cache_rel` returns: `dt/sync/<project>`, or `<root>/worker/cache/sync/<project>`. -/
structure SyncCache where
  text : List Char
  inSync : ∃ front project, components text = front ++ ["sync".toList, project]
  plain : parent ∉ components text

structure Record where
  node : List Char
  jobDir : List Char

/-- What the head knows and asks. -/
structure Source where
  /-- its working directory -/
  cwd : Directory
  node : List Char
  /-- the project, sanitized -/
  project : List Char
  previousJob : Option (List Char)
  load : List Char → Option Record
  workerJobDir : List Char → List Char
  syncCache : SyncCache
  /-- `test -d` on the node -/
  isDirectory : List Char → Bool

variable (s : Source) (wholeJob : Bool)

def previousJobDir (prev : List Char) : List Char :=
  match s.load prev with
  | some previous => if previous.node = s.node then previous.jobDir else s.workerJobDir prev
  | none => s.workerJobDir prev

/-- The part of a job or a cache that is copied. -/
def copied (dir : List Char) : List Char := if wholeJob then dir else dir ++ "/code".toList

def syncCacheCopyDest (jobDir : Option (List Char)) : List Char :=
  match jobDir with
  | some dir => relpath s.cwd.text (copied wholeJob s.syncCache.text) (copied wholeJob dir)
  | none => if wholeJob then "../../sync/".toList ++ s.project
    else "../../../sync/".toList ++ s.project ++ "/code".toList

/-- `_snapshot_baselines`; there is never a baseline for hard links. -/
def snapshotBaselines (jobDir : Option (List Char)) : Option (List Char) :=
  let fromCache :=
    if s.isDirectory (s.syncCache.text ++ "/code".toList) then some (syncCacheCopyDest s wholeJob jobDir) else none
  match s.previousJob with
  | none => fromCache
  | some prev =>
    let previousPath := copied wholeJob (previousJobDir s prev)
    if s.isDirectory previousPath then
      match jobDir with
      | some dir => some (relpath s.cwd.text previousPath (copied wholeJob dir))
      | none => some (if wholeJob then "../".toList ++ prev else "../../".toList ++ prev ++ "/code".toList)
    else fromCache

/-- The lock that is held while a baseline is used. -/
inductive Held where
  | nothing | job (id : List Char) | cache
  deriving DecidableEq

def sourceJobId (baseline : List Char) : List Char :=
  let parts := components baseline
  if wholeJob then parts.getLast?.getD []
  else if parts.getLast? = some "code".toList then parts.dropLast.getLast?.getD [] else []

def isJobId (id : List Char) : Bool := classRun (fun c => isAlnum c || c = '_' || c = '-') 1 256 id

/-- `_stable_snapshot_copy_dest`: the lock, and the baseline that is passed on; `still` is `test -d` on the node
under the lock. -/
def stableSnapshotCopyDest (cacheFree : Bool) (still : List Char → Bool)
    (copyDest jobDir : Option (List Char)) : Held × Option (List Char) :=
  if copyDest = some (syncCacheCopyDest s wholeJob jobDir) then
    if cacheFree then (.cache, copyDest) else (.nothing, none)
  else
    match copyDest, jobDir with
    | some rel, some dir =>
      let baseline := normpath (posixJoin (copied wholeJob dir) rel)
      let source := sourceJobId wholeJob baseline
      if isJobId source then (.job source, if still baseline then copyDest else none)
      else (.nothing, none)
    | _, _ => (.nothing, copyDest)

/-! ## What the paths mean on the node -/

variable (home : List (List Char))

/-- The directory a path names on the node. -/
def place (path : List Char) : List (List Char) :=
  if isAbsolute path then components path else home ++ components ((homeRelative path).getD path)

/-- A relative path, taken from a directory. -/
def resolve (dir : List (List Char)) (rel : List Char) : List (List Char) := goAlong parent dir (components rel)

/-! ## Components -/

section

variable {a b c : List Char}

theorem slash_not_mem (hc : c ∈ components a) : '/' ∉ c :=
  splitOnAux_noSep a [] c List.not_mem_nil (List.mem_of_mem_filter hc)

theorem components_slash (a b : List Char) : components (a ++ '/' :: b) = components a ++ components b := by
  rw [components, splitOn_cut, List.filter_append]
  rfl

theorem components_nil : components [] = [] := by decide

theorem components_posixJoin (h : isAbsolute b = false) :
    components (posixJoin a b) = components a ++ components b := by
  rw [posixJoin, if_neg (by simp [h])]
  split
  · rename_i hend
    rcases hend with rfl | hslash
    · rfl
    · obtain ⟨init, rfl⟩ := List.getLast?_eq_some_iff.mp hslash
      rw [List.append_assoc, List.singleton_append, components_slash, components_slash, components_nil,
        List.append_nil]
  · exact components_slash a b

end

section

variable {keep : List Char → Bool} (hnil : keep [] = false)

include hnil

/-- The pieces of a text that is put together from names. -/
theorem filter_join {names : List (List Char)} (h : ∀ c ∈ names, keep c = true ∧ '/' ∉ c) :
    (splitOn '/' (joinWith ['/'] names)).filter keep = names := by
  cases names with
  | nil => exact List.filter_cons_of_neg (by simp [hnil])
  | cons n names =>
    rw [splitOn_joinWith (List.cons_ne_nil n names) fun c hc => (h c hc).2]
    exact List.filter_eq_self.mpr fun c hc => (h c hc).1

theorem filter_rootOf (path text : List Char) :
    (splitOn '/' (rootOf path ++ text)).filter keep = (splitOn '/' text).filter keep := by
  have hslash : ∀ t, (splitOn '/' ('/' :: t)).filter keep = (splitOn '/' t).filter keep := fun t => by
    rw [← List.nil_append ('/' :: t), splitOn_cut, List.filter_append]
    exact congrArg (· ++ _) (List.filter_cons_of_neg (by simp [hnil]))
  unfold rootOf
  split
  · exact hslash text
  · exact (hslash _).trans (hslash text)
  · exact hslash text
  · rfl

end

/-! ## Normal forms -/

section

variable {rooted : Bool}

theorem foldl_normStep (pieces comps : List (List Char)) :
    pieces.foldl (normStep rooted) comps = (pieces.filter isName).foldl (normStep rooted) comps := by
  induction pieces generalizing comps with
  | nil => rfl
  | cons p pieces ih =>
    by_cases hp : isName p = true
    · rw [List.filter_cons_of_pos hp, List.foldl_cons, List.foldl_cons, ih]
    · have hskip : normStep rooted comps p = comps := by
        rw [normStep, if_pos]
        simpa [isName, or_iff_not_imp_left] using hp
      rw [List.filter_cons_of_neg hp, List.foldl_cons, hskip, ih]

/-- The components of a normal form stand in the text. -/
theorem mem_foldl_normStep {pieces comps : List (List Char)} {c : List Char}
    (h : c ∈ pieces.foldl (normStep rooted) comps) : c ∈ comps ∨ c ∈ pieces := by
  induction pieces generalizing comps with
  | nil => exact .inl h
  | cons p pieces ih =>
    rcases ih h with h | h
    · unfold normStep at h
      split at h
      · exact .inl h
      split at h
      · rcases List.mem_append.mp h with h | h
        · exact .inl h
        · exact .inr (List.mem_singleton.mp h ▸ List.mem_cons_self)
      · exact .inl (List.mem_of_mem_dropLast h)
    · exact .inr (List.mem_cons_of_mem p h)

/-- The pieces of a normal form; a dot stands only for an empty text. -/
theorem filter_normpath {keep : List Char → Bool} (hnil : keep [] = false)
    (hkeep : ∀ c, isName c = true → keep c = true) (path : List Char)
    (hdot : rootOf path = [] → keep ['.'] = false) :
    (splitOn '/' (normpath path)).filter keep =
      (components path).foldl (normStep (isAbsolute path)) [] := by
  have hnames : ∀ c ∈ (components path).foldl (normStep (isAbsolute path)) [], keep c = true ∧ '/' ∉ c := by
    intro c hc
    rcases mem_foldl_normStep hc with hc | hc
    · cases hc
    · exact ⟨hkeep c (List.of_mem_filter hc), slash_not_mem hc⟩
  have hjoin := filter_join hnil hnames
  rw [← filter_rootOf hnil path] at hjoin
  unfold normpath
  rw [foldl_normStep]
  simp only
  split
  · rename_i hempty
    have hpieces : (splitOn '/' ['.']).filter keep = [] :=
      List.filter_cons_of_neg (by simp [hdot (List.append_eq_nil_iff.mp hempty).1])
    rw [hpieces, ← hjoin]
    exact ((congrArg (fun t => (splitOn '/' t).filter keep) hempty).trans
      (List.filter_cons_of_neg (by simp [hnil]))).symm
  · exact hjoin

theorem components_normpath (path : List Char) :
    components (normpath path) = (components path).foldl (normStep (isAbsolute path)) [] :=
  filter_normpath (by decide) (fun _ h => h) path fun _ => by decide

/-- Names without `..` stay as they are. -/
theorem normStep_names {names : List (List Char)} (h : ∀ c ∈ names, isName c = true ∧ c ≠ parent)
    (comps : List (List Char)) : names.foldl (normStep rooted) comps = comps ++ names := by
  induction names generalizing comps with
  | nil => exact (List.append_nil comps).symm
  | cons n names ih =>
    obtain ⟨hname, hparent⟩ := h n List.mem_cons_self
    have hstep : normStep rooted comps n = comps ++ [n] := by
      have hkeep : ¬(n = [] || n = ['.']) = true := by
        simpa [isName, not_or] using hname
      rw [normStep, if_neg hkeep, if_pos (by simp [hparent])]
    rw [List.foldl_cons, hstep, ih fun c hc => h c (List.mem_cons_of_mem n hc), List.append_assoc]
    rfl

/-- Going up takes names away, and stays in the text behind the first one unless the path begins at the root. -/
theorem normStep_parents {names : List (List Char)} (h : parent ∉ names) (k : Nat) :
    (List.replicate k parent).foldl (normStep rooted) names =
      (if rooted then [] else List.replicate (k - names.length) parent) ++ names.take (names.length - k) := by
  induction k with
  | zero => simp
  | succ k ih =>
    rw [List.replicate_succ', List.foldl_append, ih, List.foldl_cons, List.foldl_nil]
    by_cases hk : k < names.length
    · have htake : names.take (names.length - k) ≠ [] := by
        rw [← List.length_pos_iff, List.length_take]
        omega
      have hlast : (names.take (names.length - k)).getLast? ≠ some parent := fun hlast =>
        h (List.mem_of_mem_take (List.mem_of_getLast? hlast))
      have hzero : k - names.length = 0 ∧ k + 1 - names.length = 0 := by omega
      rw [hzero.1, hzero.2, List.replicate_zero, ite_self, List.nil_append, List.nil_append, normStep,
        if_neg (by decide), if_neg (by simp [htake, hlast]), List.dropLast_eq_take, List.take_take,
        List.length_take]
      congr 1
      omega
    · have hzero : names.length - k = 0 ∧ names.length - (k + 1) = 0 := by omega
      rw [hzero.1, hzero.2, List.take_zero, List.append_nil, List.append_nil]
      cases rooted
      · have hsucc : k + 1 - names.length = k - names.length + 1 := by omega
        rw [if_neg Bool.false_ne_true, if_neg Bool.false_ne_true, hsucc, List.replicate_succ', normStep,
          if_neg (by decide), if_pos]
        cases k - names.length with
        | zero => rfl
        | succ m => simp [List.replicate_succ']
      · rfl

theorem rootOf_ne_nil {path : List Char} (h : isAbsolute path = true) : rootOf path ≠ [] := by
  obtain ⟨rest, rfl⟩ := List.head?_eq_some_iff.mp (of_decide_eq_true h)
  unfold rootOf
  split <;> simp_all

end

/-! ## Relative paths -/

section

variable (cwd : Directory)

theorem components_cwd : components cwd.text = cwd.names :=
  (components_slash [] _).trans
    (filter_join (by decide) fun c hc => ⟨(cwd.proper c hc).1, (cwd.proper c hc).2.1⟩)

/-- How the head reads a path without `..`. -/
def onHead (path : List Char) : List (List Char) :=
  (if isAbsolute path then [] else cwd.names) ++ components path

theorem names_onHead {path c : List Char} (hpath : parent ∉ components path) (hc : c ∈ onHead cwd path) :
    isName c = true ∧ '/' ∉ c ∧ c ≠ parent := by
  rcases List.mem_append.mp hc with hc | hc
  · split at hc
    · cases hc
    · exact cwd.proper c hc
  · exact ⟨List.of_mem_filter hc, slash_not_mem hc, fun he => hpath (he ▸ hc)⟩

theorem filter_abspath {path : List Char} (hpath : parent ∉ components path) :
    (splitOn '/' (abspath cwd.text path)).filter (· ≠ []) = onHead cwd path := by
  have hq : isAbsolute (if isAbsolute path then path else posixJoin cwd.text path) = true ∧
      components (if isAbsolute path then path else posixJoin cwd.text path) = onHead cwd path := by
    unfold onHead
    split
    · rename_i habs
      exact ⟨habs, rfl⟩
    · rename_i habs
      refine ⟨?_, by rw [components_posixJoin (Bool.eq_false_of_not_eq_true habs), components_cwd]⟩
      rw [posixJoin, if_neg habs]
      split
      · rfl
      · rfl
  have hnames : ∀ c ∈ onHead cwd path, isName c = true ∧ c ≠ parent := fun c hc =>
    ⟨(names_onHead cwd hpath hc).1, (names_onHead cwd hpath hc).2.2⟩
  rw [abspath, filter_normpath (by decide) (fun c hc => ?_) _ fun h => absurd h (rootOf_ne_nil hq.1), hq.2,
    normStep_names hnames, List.nil_append]
  rw [isName, Bool.and_eq_true] at hc
  exact hc.1

theorem mem_relative_onHead {path start c : List Char} (hpath : parent ∉ components path)
    (hc : c ∈ relative parent (onHead cwd start) (onHead cwd path)) : isName c = true ∧ '/' ∉ c := by
  rcases List.mem_append.mp hc with hc | hc
  · rw [List.eq_of_mem_replicate hc]
    decide
  · obtain ⟨hname, hslash, -⟩ := names_onHead cwd hpath (List.mem_of_mem_drop hc)
    exact ⟨hname, hslash⟩

section

variable {path start : List Char} (hpath : parent ∉ components path) (hstart : parent ∉ components start)

include hpath hstart

/-- The components of a relative path between two paths without `..`. -/
theorem components_relpath :
    components (relpath cwd.text path start) = relative parent (onHead cwd start) (onHead cwd path) := by
  rw [relpath, filter_abspath cwd hpath, filter_abspath cwd hstart]
  split
  · rename_i hempty
    rw [hempty]
    decide
  · exact filter_join (by decide) fun c hc => mem_relative_onHead cwd hpath hc

theorem isAbsolute_relpath : isAbsolute (relpath cwd.text path start) = false := by
  rw [relpath, filter_abspath cwd hpath, filter_abspath cwd hstart]
  split
  · decide
  · rename_i hne
    refine Bool.eq_false_of_not_eq_true fun habs => ?_
    obtain ⟨rest, hrest⟩ := List.head?_eq_some_iff.mp (of_decide_eq_true habs)
    have hsplit := splitOn_joinWith hne fun c hc => (mem_relative_onHead cwd hpath hc).2
    rw [hrest, ← List.nil_append ('/' :: rest), splitOn_append List.not_mem_nil] at hsplit
    have hnil := (mem_relative_onHead cwd hpath (hsplit ▸ List.mem_cons_self)).1
    cases hnil

/-- The textual baseline: steps up, and the end of the path as the head reads it. -/
theorem components_baseline : ∃ m n, components (normpath (posixJoin start (relpath cwd.text path start))) =
    List.replicate m parent ++ (onHead cwd path).drop n := by
  have hrel := isAbsolute_relpath cwd hpath hstart
  have hrooted : isAbsolute (posixJoin start (relpath cwd.text path start)) = isAbsolute start := by
    rw [posixJoin, if_neg (by simp [hrel])]
    cases start with
    | nil => exact hrel
    | cons c start =>
      split
      · rfl
      · rfl
  have hstartNames : ∀ c ∈ components start, isName c = true ∧ c ≠ parent := fun c hc =>
    ⟨List.of_mem_filter hc, fun he => hstart (he ▸ hc)⟩
  have hpathNames : ∀ c ∈ (onHead cwd path).drop (shared (onHead cwd start) (onHead cwd path)),
      isName c = true ∧ c ≠ parent := fun c hc =>
    have hname := names_onHead cwd hpath (List.mem_of_mem_drop hc)
    ⟨hname.1, hname.2.2⟩
  have hleft := shared_le_left (onHead cwd start) (onHead cwd path)
  have htake := take_shared (onHead cwd start) (onHead cwd path)
  rw [components_normpath, components_posixJoin hrel, components_relpath cwd hpath hstart, hrooted,
    List.foldl_append, normStep_names hstartNames, List.nil_append, relative, List.foldl_append,
    normStep_parents hstart, normStep_names hpathNames]
  have hups : ∀ k, k = (onHead cwd start).length - shared (onHead cwd start) (onHead cwd path) →
      (if isAbsolute start then [] else List.replicate (k - (components start).length) parent) =
        List.replicate (k - (components start).length) parent := by
    intro k hk
    split
    · rename_i habs
      have hshort : k - (components start).length = 0 := by
        rw [hk, onHead, if_pos habs, List.nil_append]
        omega
      rw [hshort, List.replicate_zero]
    · rfl
  rw [hups _ rfl]
  exact ⟨_, _, climb_below hleft htake⟩

end

end

/-! ## Job directories -/

/-- How a directory on a node is written: from the root, with `~/`, or as before roots were configured. -/
inductive Form where
  | absolute | home | legacy
  deriving DecidableEq

def Form.lead : Form → List (List Char)
  | .absolute => [[]]
  | .home => [['~']]
  | .legacy => []

/-- `<root>/jobs/<id>`; the root is given by what stands between its slashes. -/
structure JobDir where
  form : Form
  root : List (List Char)
  job : List Char
  plain : ∀ c ∈ root, '/' ∉ c ∧ c ≠ parent
  first : form ≠ .absolute → root.head? ≠ some []
  legacy : form = .legacy → (root.filter isName).head? ≠ some ['~']
  valid : isJobId job = true

namespace JobDir

variable (d : JobDir)

def pieces : List (List Char) := d.root ++ ["jobs".toList, d.job] ++ if wholeJob then [] else ["code".toList]

def text : List Char := joinWith ['/'] (d.form.lead ++ (d.root ++ ["jobs".toList, d.job]))

/-- The names on the way from the root or the home directory to what is copied. -/
def names : List (List Char) := (d.pieces wholeJob).filter isName

theorem not_mem_job {c : Char} (h : (isAlnum c || c = '_' || c = '-') = false) : c ∉ d.job := by
  have hvalid := d.valid
  rw [isJobId, classRun, Bool.and_eq_true, List.all_eq_true] at hvalid
  intro hmem
  exact Bool.false_ne_true (h.symm.trans (hvalid.2 c hmem))

theorem job_ne_nil : d.job ≠ [] := by
  have hvalid := d.valid
  rw [isJobId, classRun, Bool.and_eq_true, Bool.and_eq_true] at hvalid
  rw [← List.length_pos_iff]
  exact of_decide_eq_true hvalid.1.1

theorem isName_job : isName d.job = true := by
  rw [isName, Bool.and_eq_true, decide_eq_true_eq, decide_eq_true_eq]
  refine ⟨d.job_ne_nil, fun h => d.not_mem_job (c := '.') (by decide) ?_⟩
  rw [h]
  exact List.mem_singleton_self _

/-- What stands between slashes holds none, and is no `..`. -/
theorem mem_pieces {c : List Char} (h : c ∈ d.pieces wholeJob) : '/' ∉ c ∧ c ≠ parent := by
  rw [pieces, List.mem_append, List.mem_append] at h
  rcases h with (h | h) | h
  · exact d.plain c h
  · rcases List.mem_cons.mp h with rfl | h
    · decide
    · rw [List.mem_singleton.mp h]
      refine ⟨d.not_mem_job (by decide), fun hp => d.not_mem_job (c := '.') (by decide) ?_⟩
      rw [hp]
      exact List.mem_cons_self
  · split at h
    · cases h
    · rw [List.mem_singleton.mp h]
      decide

theorem copied_text : copied wholeJob d.text = joinWith ['/'] (d.form.lead ++ d.pieces wholeJob) := by
  unfold copied text pieces
  split
  · rw [List.append_nil]
  · have hne : d.form.lead ++ (d.root ++ ["jobs".toList, d.job]) ≠ [] := by simp
    show joinWith ['/'] (d.form.lead ++ (d.root ++ ["jobs".toList, d.job])) ++ "/code".toList = _
    rw [← List.append_assoc d.form.lead _ ["code".toList], joinWith_append hne (List.cons_ne_nil _ _),
      List.append_assoc]
    rfl

theorem names_eq : d.names wholeJob =
    d.root.filter isName ++ ["jobs".toList, d.job] ++ if wholeJob then [] else ["code".toList] := by
  have hjob : ["jobs".toList, d.job].filter isName = ["jobs".toList, d.job] := by
    rw [List.filter_cons_of_pos (by decide), List.filter_cons_of_pos d.isName_job]
    rfl
  rw [names, pieces, List.filter_append, List.filter_append, hjob]
  cases wholeJob
  · rfl
  · rfl

theorem splitOn_copied : splitOn '/' (copied wholeJob d.text) = d.form.lead ++ d.pieces wholeJob := by
  rw [copied_text, splitOn_joinWith]
  · simp [pieces]
  · intro c hc
    rcases List.mem_append.mp hc with hc | hc
    · cases hform : d.form <;> rw [hform] at hc
      · rw [List.mem_singleton.mp hc]
        decide
      · rw [List.mem_singleton.mp hc]
        decide
      · cases hc
    · exact (d.mem_pieces wholeJob hc).1

/-- The names in front that a form adds for a reader that takes `~` for one. -/
def tilde (form : Form) : List (List Char) := form.lead.filter isName

theorem tilde_absolute : tilde .absolute = [] := by decide

theorem tilde_home : tilde .home = [['~']] := by decide

theorem tilde_legacy : tilde .legacy = [] := by decide

theorem components_copied : components (copied wholeJob d.text) = tilde d.form ++ d.names wholeJob := by
  rw [components, splitOn_copied, List.filter_append]
  rfl

theorem head?_pieces {x : List Char} (h : (d.pieces wholeJob).head? = some x) :
    d.root.head? = some x ∨ x = "jobs".toList := by
  cases hroot : d.root with
  | nil =>
    rw [pieces, hroot] at h
    exact .inr (Option.some.inj h).symm
  | cons r root =>
    rw [pieces, hroot] at h
    exact .inl h

theorem isAbsolute_copied : isAbsolute (copied wholeJob d.text) = decide (d.form = .absolute) := by
  rw [Bool.eq_iff_iff, decide_eq_true_iff, isAbsolute, decide_eq_true_iff]
  constructor
  · intro habs
    obtain ⟨rest, hrest⟩ := List.head?_eq_some_iff.mp habs
    have hsplit := d.splitOn_copied wholeJob
    rw [hrest, ← List.nil_append ('/' :: rest), splitOn_append List.not_mem_nil] at hsplit
    cases hform : d.form with
    | absolute => rfl
    | home =>
      rw [hform] at hsplit
      cases (List.cons.inj hsplit).1
    | legacy =>
      rw [hform] at hsplit
      rcases d.head?_pieces wholeJob (congrArg List.head? hsplit).symm with hnil | hjobs
      · exact absurd hnil (d.first (by rw [hform]; decide))
      · cases hjobs
  · intro hform
    rw [copied_text, hform]
    exact (congrArg List.head? (joinWith_cons (by simp [pieces]))).trans rfl

theorem onHead_copied (cwd : Directory) : onHead cwd (copied wholeJob d.text) =
    (if d.form = .absolute then [] else cwd.names) ++ tilde d.form ++ d.names wholeJob := by
  rw [onHead, isAbsolute_copied, components_copied, List.append_assoc]
  simp

theorem place_copied (home : List (List Char)) : place home (copied wholeJob d.text) =
    (if d.form = .absolute then [] else home) ++ d.names wholeJob := by
  rw [place, isAbsolute_copied]
  have hcomps := d.components_copied wholeJob
  cases hform : d.form with
  | absolute =>
    rw [hform] at hcomps
    exact hcomps
  | home =>
    have htext : copied wholeJob d.text = '~' :: '/' :: joinWith ['/'] (d.pieces wholeJob) := by
      rw [copied_text, hform]
      exact joinWith_cons (by simp [pieces])
    have hpieces : components (joinWith ['/'] (d.pieces wholeJob)) = d.names wholeJob := by
      rw [components, splitOn_joinWith (by simp [pieces]) fun c hc => (d.mem_pieces wholeJob hc).1]
      rfl
    rw [htext, homeRelative, Option.getD_some, hpieces]
    rfl
  | legacy =>
    have hnone : homeRelative (copied wholeJob d.text) = none := by
      rw [Option.eq_none_iff_forall_ne_some]
      intro rest hrest
      unfold homeRelative at hrest
      split at hrest
      · rename_i tail htext
        have hsplit := d.splitOn_copied wholeJob
        rw [htext, hform, ← List.singleton_append, splitOn_append (by decide)] at hsplit
        rcases d.head?_pieces wholeJob (congrArg List.head? hsplit).symm with htilde | hjobs
        · obtain ⟨root, hroot⟩ := List.head?_eq_some_iff.mp htilde
          exact d.legacy hform (by rw [hroot]; rfl)
        · cases hjobs
      · cases hrest
    rw [hform] at hcomps
    rw [hnone, Option.getD_none, hcomps]
    rfl

end JobDir

/-! ## Where a baseline leads -/

variable (cwd : Directory) (d p : JobDir)

/-- The paths on which the reading of the head leads to the same directory as that of the node. -/
def Reaches : Prop :=
  match d.form, p.form with
  | .absolute, .absolute => True
  | .home, .home => True
  | .legacy, .legacy => True
  | .absolute, .home => home = cwd.names ++ [['~']]
  | .absolute, .legacy => home = cwd.names
  | .home, .legacy => home = []
  | .legacy, .home => False
  | form, .absolute =>
    let read := cwd.names ++ JobDir.tilde form
    let common := shared (read ++ d.names wholeJob) (p.names wholeJob)
    common = 0 ∧ home.length ≤ read.length ∨ home.length = read.length ∧ home.take common = read.take common

theorem parent_not_mem_names : parent ∉ d.names wholeJob := fun h =>
  (d.mem_pieces wholeJob (List.mem_of_mem_filter h)).2 rfl

theorem parent_not_mem_copied : parent ∉ components (copied wholeJob d.text) := by
  rw [JobDir.components_copied, List.mem_append, not_or]
  refine ⟨?_, parent_not_mem_names wholeJob d⟩
  cases d.form <;> decide

/-- A legacy path begins with a name that is not taken for the home directory. -/
theorem head?_names (h : d.form = .legacy) : (d.names wholeJob).head? ≠ some ['~'] := by
  intro hhead
  rw [JobDir.names, JobDir.pieces, List.append_assoc, List.filter_append, List.head?_append] at hhead
  have hroot := d.legacy h
  cases hfirst : (d.root.filter isName).head? with
  | none =>
    rw [hfirst] at hhead
    cases hhead
  | some x =>
    rw [hfirst] at hhead
    exact hroot (hfirst.trans hhead)

theorem resolve_relpath : resolve (place home (copied wholeJob d.text))
      (relpath cwd.text (copied wholeJob p.text) (copied wholeJob d.text)) =
    goAlong parent ((if d.form = .absolute then [] else home) ++ d.names wholeJob)
      (relative parent ((if d.form = .absolute then [] else cwd.names) ++ JobDir.tilde d.form ++ d.names wholeJob)
        ((if p.form = .absolute then [] else cwd.names) ++ JobDir.tilde p.form ++ p.names wholeJob)) := by
  rw [resolve, components_relpath cwd (parent_not_mem_copied wholeJob p) (parent_not_mem_copied wholeJob d),
    JobDir.onHead_copied, JobDir.onHead_copied, JobDir.place_copied]

/-- The relative path leads from the one directory to the other exactly when `Reaches` says so. -/
theorem resolve_iff : resolve (place home (copied wholeJob d.text))
      (relpath cwd.text (copied wholeJob p.text) (copied wholeJob d.text)) =
    place home (copied wholeJob p.text) ↔ Reaches wholeJob home cwd d p := by
  have hp := parent_not_mem_names wholeJob p
  have hcwd : parent ∉ cwd.names := fun h => (cwd.proper parent h).2.2 rfl
  have htilde : parent ≠ ['~'] := by decide
  rw [resolve_relpath, JobDir.place_copied]
  unfold Reaches
  cases hdform : d.form <;> cases hpform : p.form <;>
    simp only [JobDir.tilde_absolute, JobDir.tilde_home, JobDir.tilde_legacy, if_true, reduceCtorEq, if_false,
      List.nil_append, List.append_nil]
  · -- absolute, absolute
    exact iff_of_true (goAlong_relative_self hp) trivial
  · -- absolute, home
    rw [goAlong_relative_self (by simp [hcwd, htilde, hp]), List.append_left_inj]
    exact eq_comm
  · -- absolute, legacy
    rw [goAlong_relative_self (by simp [hcwd, hp]), List.append_left_inj]
    exact eq_comm
  · -- home, absolute
    exact goAlong_relative_other hp home _
  · -- home, home
    exact iff_of_true (goAlong_relative_below hp home _) trivial
  · -- home, legacy: one step too many
    have hpart : shared (['~'] :: d.names wholeJob) (p.names wholeJob) = 0 := by
      refine shared_eq_zero fun x hx => ?_
      rw [← Option.some.inj hx]
      exact head?_names wholeJob p hpform
    rw [List.append_assoc, relative_append, List.singleton_append, goAlong_relative hp, hpart, List.drop_zero,
      List.append_left_inj]
    constructor
    · intro htake
      have hlen := congrArg List.length htake
      rw [List.length_take, List.length_append, List.length_cons] at hlen
      rw [← List.length_eq_zero_iff]
      omega
    · rintro rfl
      rw [List.length_cons, List.nil_append, Nat.sub_zero, Nat.sub_eq_zero_of_le (Nat.le_succ _), List.take_zero]
  · -- legacy, absolute
    exact goAlong_relative_other hp home _
  · -- legacy, home: the tilde is left in the path
    have hpart : shared (d.names wholeJob) (['~'] :: p.names wholeJob) = 0 := by
      refine shared_eq_zero fun x hx hy => head?_names wholeJob d hdform ?_
      rw [hx, Option.some.inj hy]
    have htail : parent ∉ ['~'] :: p.names wholeJob := by
      rw [List.mem_cons, not_or]
      exact ⟨htilde, hp⟩
    rw [List.append_assoc, relative_append, List.singleton_append, goAlong_relative htail, hpart, List.drop_zero,
      Nat.sub_zero, List.length_append, Nat.add_sub_cancel, List.take_left]
    refine iff_of_false (fun heq => ?_) id
    have hlen := congrArg List.length heq
    rw [List.length_append, List.length_append, List.length_cons] at hlen
    omega
  · -- legacy, legacy
    exact iff_of_true (goAlong_relative_below hp home _) trivial

/-! ## The lock -/

/-- The name of a directory that is reached by some steps up and the end of a path is the last name of the path,
or it names no job. -/
theorem last_climb {names : List (List Char)} {job : List Char} (hlast : names.getLast? = some job) (m n : Nat)
    (hid : isJobId ((List.replicate m parent ++ names.drop n).getLast?.getD []) = true) :
    (List.replicate m parent ++ names.drop n).getLast?.getD [] = job := by
  rw [List.getLast?_append, List.getLast?_drop] at hid ⊢
  by_cases hn : names.length ≤ n
  · rw [if_pos hn, Option.none_or] at hid
    cases m with
    | zero => cases hid
    | succ m =>
      rw [List.replicate_succ', List.getLast?_append] at hid
      cases hid
  · rw [if_neg hn, hlast]
    rfl

theorem onHead_eq : ∃ front, ∀ wholeJob, onHead cwd (copied wholeJob d.text) =
    front ++ ["jobs".toList, d.job] ++ if wholeJob then [] else ["code".toList] :=
  ⟨(if d.form = .absolute then [] else cwd.names) ++ JobDir.tilde d.form ++ d.root.filter isName, fun wholeJob => by
    rw [JobDir.onHead_copied, JobDir.names_eq]
    simp only [List.append_assoc]⟩

/-- The directory of the baseline, as a text, is named by the job before or by none. -/
theorem sourceJobId_baseline (hid : isJobId (sourceJobId wholeJob (normpath (posixJoin (copied wholeJob d.text)
      (relpath cwd.text (copied wholeJob p.text) (copied wholeJob d.text))))) = true) :
    sourceJobId wholeJob (normpath (posixJoin (copied wholeJob d.text)
      (relpath cwd.text (copied wholeJob p.text) (copied wholeJob d.text)))) = p.job := by
  obtain ⟨m, n, hbase⟩ := components_baseline cwd (parent_not_mem_copied wholeJob p) (parent_not_mem_copied wholeJob d)
  obtain ⟨front, hfront⟩ := onHead_eq cwd p
  have hlast : (front ++ ["jobs".toList, p.job]).getLast? = some p.job := by simp
  rw [hfront] at hbase
  unfold sourceJobId at hid ⊢
  simp only [hbase] at hid ⊢
  cases wholeJob
  · simp only [Bool.false_eq_true, if_false] at hid ⊢
    split at hid
    · rename_i hcode
      rw [if_pos hcode]
      -- the last name is `code`, so that the steps up do not reach it
      have hn : n ≤ (front ++ ["jobs".toList, p.job]).length := by
        by_contra hn
        rw [List.drop_eq_nil_of_le (by simp at hn ⊢; omega), List.append_nil] at hcode
        cases m with
        | zero => cases hcode
        | succ m =>
          rw [List.replicate_succ', List.getLast?_append] at hcode
          cases hcode
      rw [List.drop_append_of_le_length hn, ← List.append_assoc, List.dropLast_concat] at hid ⊢
      exact last_climb hlast m n hid
    · cases hid
  · simp only [if_true, List.append_nil] at hid ⊢
    exact last_climb hlast m n hid

/-- The relative path to a job before is not the one to the cache. -/
theorem relpath_ne_cache (s : Source) :
    relpath s.cwd.text (copied wholeJob p.text) (copied wholeJob d.text) ≠
      syncCacheCopyDest s wholeJob (some d.text) := by
  intro heq
  obtain ⟨front, project, hcache⟩ := s.syncCache.inSync
  obtain ⟨above, hjob⟩ := onHead_eq s.cwd p
  have hcopied : components (copied wholeJob s.syncCache.text) =
      front ++ ["sync".toList, project] ++ if wholeJob then [] else ["code".toList] := by
    rw [← hcache]
    unfold copied
    split
    · exact (List.append_nil _).symm
    · exact components_slash s.syncCache.text "code".toList
  have hplain : parent ∉ components (copied wholeJob s.syncCache.text) := by
    rw [hcopied, ← hcache, List.mem_append, not_or]
    refine ⟨s.syncCache.plain, ?_⟩
    cases wholeJob
    · decide
    · decide
  have hstart := parent_not_mem_copied wholeJob d
  have hpath := parent_not_mem_copied wholeJob p
  have hcomps := congrArg components heq
  rw [syncCacheCopyDest, components_relpath s.cwd hpath hstart, components_relpath s.cwd hplain hstart] at hcomps
  have hsame := congrArg (goAlong parent (onHead s.cwd (copied wholeJob d.text))) hcomps
  have hno : ∀ {path}, parent ∉ components path → parent ∉ onHead s.cwd path := fun h hmem =>
    (names_onHead s.cwd h hmem).2.2 rfl
  rw [goAlong_relative_self (hno hpath), goAlong_relative_self (hno hplain), hjob, onHead, hcopied,
    ← List.append_assoc, ← List.append_assoc, List.append_left_inj] at hsame
  have hlast := (List.append_inj' hsame rfl).2
  cases (List.cons.inj hlast).1

/-! ## Baselines -/

/-- The baseline from the job before leads to it and is used only under its lock, exactly when the two directories
are written so that `Reaches` holds. -/
theorem copy_dest_iff (s : Source) (hprev : s.previousJob = some p.job)
    (hdir : previousJobDir s p.job = p.text) (hready : s.isDirectory (copied wholeJob p.text) = true) :
    (∃ rel, snapshotBaselines s wholeJob (some d.text) = some rel ∧
        resolve (place home (copied wholeJob d.text)) rel = place home (copied wholeJob p.text) ∧
        ∀ cacheFree still used,
          (stableSnapshotCopyDest s wholeJob cacheFree still (some rel) (some d.text)).2 = some used →
            used = rel ∧
              (stableSnapshotCopyDest s wholeJob cacheFree still (some rel) (some d.text)).1 = .job p.job) ↔
      Reaches wholeJob home s.cwd d p := by
  have hbase : snapshotBaselines s wholeJob (some d.text) =
      some (relpath s.cwd.text (copied wholeJob p.text) (copied wholeJob d.text)) := by
    rw [snapshotBaselines, hprev]
    simp only [hdir, if_pos hready]
  rw [← resolve_iff, hbase]
  constructor
  · rintro ⟨rel, hrel, hresolve, -⟩
    rwa [← Option.some.inj hrel] at hresolve
  · intro hresolve
    refine ⟨_, rfl, hresolve, fun cacheFree still used hused => ?_⟩
    have hcache := relpath_ne_cache wholeJob d p s
    unfold stableSnapshotCopyDest at hused ⊢
    rw [if_neg fun h => hcache (Option.some.inj h)] at hused ⊢
    simp only at hused ⊢
    split at hused
    · rename_i hid
      rw [if_pos hid, sourceJobId_baseline wholeJob s.cwd d p hid]
      simp only at hused
      split at hused
      · exact ⟨(Option.some.inj hused).symm, rfl⟩
      · cases hused
    · cases hused

/-- `~/dt/jobs/<id>` or `dt/jobs/<id>` -/
def dtJob (form : Form) (job : List Char) (valid : isJobId job = true) : JobDir where
  form := form
  root := ["dt".toList]
  job := job
  plain := by decide
  first := fun _ => by decide
  legacy := fun _ => by decide
  valid := valid

/-- A head that works in `/home/u/code`, with a record of the job `old`. -/
def headAfter (previous : JobDir) : Source where
  cwd := ⟨["home".toList, "u".toList, "code".toList], by decide⟩
  node := "n1".toList
  project := "omni".toList
  previousJob := some "old".toList
  load := fun _ => some ⟨"n1".toList, previous.text⟩
  workerJobDir := fun id => "~/dt/jobs/".toList ++ id
  syncCache := ⟨"dt/sync/omni".toList, ⟨["dt".toList], "omni".toList, by decide⟩, by decide⟩
  isDirectory := fun _ => true

def oldJob (form : Form) : JobDir := dtJob form "old".toList (by decide)

def newJob (form : Form) : JobDir := dtJob form "new".toList (by decide)

theorem copy_dest_iff_home :
    ∃ rel, snapshotBaselines (headAfter (oldJob .home)) false (some (newJob .home).text) = some rel ∧
      resolve (place ["home".toList, "u".toList] (copied false (newJob .home).text)) rel =
        place ["home".toList, "u".toList] (copied false (oldJob .home).text) ∧
      ∀ cacheFree still used,
        (stableSnapshotCopyDest (headAfter (oldJob .home)) false cacheFree still (some rel)
          (some (newJob .home).text)).2 = some used →
          used = rel ∧ (stableSnapshotCopyDest (headAfter (oldJob .home)) false cacheFree still (some rel)
            (some (newJob .home).text)).1 = .job (oldJob .home).job :=
  (copy_dest_iff false ["home".toList, "u".toList] (newJob .home) (oldJob .home) (headAfter (oldJob .home)) rfl rfl
    rfl).mpr trivial

/-- A job that is still recorded as `dt/jobs/old` is looked for outside the home directory. -/
theorem legacy_baseline :
    snapshotBaselines (headAfter (oldJob .legacy)) false (some (newJob .home).text) =
        some "../../../../../dt/jobs/old/code".toList ∧
      resolve (place ["home".toList, "u".toList] (copied false (newJob .home).text))
          "../../../../../dt/jobs/old/code".toList =
        ["home".toList, "dt".toList, "jobs".toList, "old".toList, "code".toList] ∧
      ["home".toList, "dt".toList, "jobs".toList, "old".toList, "code".toList] ≠
        place ["home".toList, "u".toList] (copied false (oldJob .legacy).text) := by
  refine ⟨?_, ?_, ?_⟩
  · decide
  · decide
  · decide

end Dt.Dispatch
