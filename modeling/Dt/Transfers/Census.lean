import Mathlib
import Dt.Lib.Lines
import Dt.Lib.SortedBy
import Dt.Lib.SplitText

/-!
# The census of a pull

Before it trusts a pull, the head asks the node for the regular files under `outputs/`: between two markers
a line for each file, with its size and its path, and then the number of files. A path may hold whatever a
file system allows. The reader ends a line at more characters than the line feed that the node printed, and
looks for the marker anywhere.
-/

namespace Dt.Transfers

open Dt.Lib

abbrev Text := List Char

def pullCensusMaxFiles : Nat := 100000

/-- `PULL_CENSUS_MARK` -/
def mark : Text := "@@DT_PULL_CENSUS@@".toList

/-- A dict from paths to sizes. -/
abbrev Files := List (Text × Nat)

/-- `files[path] = size` -/
def setItem (path : Text) (size : Nat) : Files → Files
  | [] => [(path, size)]
  | f :: files => if f.1 = path then (path, size) :: files else f :: setItem path size files

structure PullCensus where
  files : Files
  totalFiles : Int
  truncated : Bool

/-- One pass of the loop of the parser. -/
def parseRow (files : Files) (line : Text) : Files :=
  match line.dropWhile (· ≠ '\t') with
  | [] => files
  | _ :: path =>
    if path = [] ∨ path.head? = some '/' ∨ "..".toList ∈ splitOn '/' path then files
    else match pyInt (line.takeWhile (· ≠ '\t')) with
      | none => files
      | some size => if 0 ≤ size then setItem path size.toNat files else files

/-- `parse_pull_outputs_census` -/
def parsePullOutputsCensus (stdout : Text) : Option PullCensus :=
  match splitText mark stdout with
  | [_, listing, count] =>
    let files := (splitlines listing).foldl parseRow []
    let totalFiles := ((words (strip count)).head?.bind pyInt).getD files.length
    some ⟨files, max totalFiles files.length, decide ((files.length : Int) < totalFiles)⟩
  | _ => none

/-- What `lstat` says of a path under the local root. -/
inductive Local where
  | missing
  | unreadable (strerror : Text)
  | regular (size : Nat)
  | other
  deriving DecidableEq

/-- What a row of the census finds wrong. -/
def mismatch (lstat : Text → Local) (f : Text × Nat) : Option Text :=
  match lstat f.1 with
  | .missing => some ("missing: ".toList ++ f.1)
  | .unreadable strerror => some ("unreadable: ".toList ++ f.1 ++ " (".toList ++ strerror ++ ")".toList)
  | .other => some ("not a regular file locally: ".toList ++ f.1)
  | .regular size =>
    if size ≠ f.2 then
      some ("size mismatch: ".toList ++ f.1 ++ " (".toList ++ (toString size).toList ++
        " bytes locally, ".toList ++ (toString f.2).toList ++ " on the node)".toList)
    else none

/-- `pull_census_mismatches` -/
def pullCensusMismatches (census : PullCensus) (lstat : Text → Local) (excluded : Text → Bool) : List Text :=
  (census.files.filter fun f => !excluded f.1).filterMap (mismatch lstat)

/-! ## What the node prints -/

/-- A relative path of a file: names that are neither empty nor dots, without a line feed. -/
structure IsRelative (path : Text) : Prop where
  newline : '\n' ∉ path
  names : ∀ name ∈ splitOn '/' path, name ≠ [] ∧ name ≠ ".".toList ∧ name ≠ "..".toList

/-- The regular files under a directory, in the order in which `sort` prints them. -/
structure Tree where
  files : Files
  distinct : (files.map Prod.fst).Nodup
  relative : ∀ f ∈ files, IsRelative f.1

def row (f : Text × Nat) : Text := (toString f.2).toList ++ '\t' :: f.1

/-- The files that are listed. -/
def Tree.listed (t : Tree) : Files := t.files.take pullCensusMaxFiles

/-- What `pull_outputs_census_command` prints on the node. -/
def Tree.census (t : Tree) : Text :=
  mark ++ (unlines ([] :: t.listed.map row) ++
    (mark ++ unlines [[], (toString t.files.length).toList]))

/-- The census tells the truth about the tree. -/
def Faithful (t : Tree) : Prop :=
  ∃ census, parsePullOutputsCensus t.census = some census ∧
    (∀ path size, census.files.lookup path = some size ↔ (path, size) ∈ t.listed) ∧
    (census.truncated = true ↔ ∃ f ∈ t.files, census.files.lookup f.1 = none) ∧
    ∀ lstat excluded, pullCensusMismatches census lstat excluded = [] ↔
      ∀ f ∈ t.listed, excluded f.1 = false → lstat f.1 = .regular f.2

/-! ## Rows -/

theorem mark_newline : '\n' ∉ mark := by decide

theorem mark_tab : '\t' ∉ mark := by decide

theorem mark_ne_nil : mark ≠ [] := by decide

theorem digits_toString (n : Nat) : ∀ c ∈ (toString n).toList, c.isDigit = true := by
  intro c hc
  rw [Nat.toString_eq_repr, Nat.toList_repr] at hc
  exact Nat.isDigit_of_mem_toDigits (by decide) (by decide) hc

theorem not_mem_digits {c : Char} (hc : c.isDigit = false) (n : Nat) : c ∉ (toString n).toList :=
  fun hm => absurd (digits_toString n c hm) (by rw [hc]; decide)

theorem row_split (f : Text × Nat) :
    (row f).takeWhile (· ≠ '\t') = (toString f.2).toList ∧
      (row f).dropWhile (· ≠ '\t') = '\t' :: f.1 := by
  have hdigits : ∀ c ∈ (toString f.2).toList, decide (c ≠ '\t') = true := fun c hc => by
    rw [decide_eq_true_eq]
    rintro rfl
    exact not_mem_digits rfl f.2 hc
  constructor
  · rw [row, List.takeWhile_append_of_pos hdigits]
    simp
  · rw [row, List.dropWhile_append_of_pos hdigits]
    simp

/-- A row without line ends is read back. -/
theorem parseRow_row {f : Text × Nat} (h : IsRelative f.1) (files : Files) :
    parseRow files (row f) = setItem f.1 f.2 files := by
  have hnames := h.names
  have hne : f.1 ≠ [] := fun hnil => by
    rw [hnil] at hnames
    exact absurd rfl (hnames [] (by decide)).1
  have hslash : f.1.head? ≠ some '/' := fun hhead => by
    obtain ⟨rest, hrest⟩ : ∃ rest, f.1 = '/' :: rest := by
      cases hf : f.1 with
      | nil => exact absurd hf hne
      | cons c rest =>
        rw [hf] at hhead
        exact ⟨rest, by rw [Option.some.inj hhead]⟩
    have hsplit : splitOn '/' f.1 = [] :: splitOn '/' rest := by
      rw [hrest]
      exact @splitOn_append '/' [] List.not_mem_nil rest
    rw [hsplit] at hnames
    exact absurd rfl (hnames [] List.mem_cons_self).1
  have hdots : "..".toList ∉ splitOn '/' f.1 := fun hm => absurd rfl (hnames _ hm).2.2
  unfold parseRow
  rw [(row_split f).1, (row_split f).2]
  simp only [hne, hslash, hdots, or_self, if_false, pyInt_toString]
  rw [if_pos (Int.natCast_nonneg _), Int.toNat_natCast]

theorem setItem_new {path : Text} {size : Nat} {files : Files} (h : path ∉ files.map Prod.fst) :
    setItem path size files = files ++ [(path, size)] := by
  induction files with
  | nil => rfl
  | cons f files ih =>
    rw [List.map_cons, List.mem_cons, not_or] at h
    rw [setItem, if_neg (Ne.symm h.1), ih h.2, List.cons_append]

/-- Rows of new paths are read back in order. -/
theorem foldl_parseRow {more files : Files} (hrel : ∀ f ∈ more, IsRelative f.1)
    (hnodup : ((files ++ more).map Prod.fst).Nodup) :
    (more.map row).foldl parseRow files = files ++ more := by
  induction more generalizing files with
  | nil => rw [List.map_nil, List.foldl_nil, List.append_nil]
  | cons f more ih =>
    have hnew : f.1 ∉ files.map Prod.fst := fun hm => by
      rw [List.map_append, List.map_cons] at hnodup
      exact (List.nodup_append.mp hnodup).2.2 _ hm _ List.mem_cons_self rfl
    rw [List.map_cons, List.foldl_cons, parseRow_row (hrel f List.mem_cons_self), setItem_new hnew]
    rw [List.append_cons] at hnodup
    exact (ih (fun g hg => hrel g (List.mem_cons_of_mem _ hg)) hnodup).trans
      (List.append_cons files f more).symm

/-- A row has the marker if its path has it. -/
theorem mark_infix_row (f : Text × Nat) : mark <:+: row f ↔ mark <:+: f.1 := by
  constructor
  · rintro h
    rcases infix_of_infix_cut mark_tab h with hdigits | hpath
    · have hat : '@' ∈ (toString f.2).toList := hdigits.subset (by decide)
      exact absurd hat (not_mem_digits rfl f.2)
    · exact hpath
  · rintro h
    exact h.trans ((List.suffix_cons '\t' f.1).trans (List.suffix_append _ _)).isInfix

theorem isLine_row {f : Text × Nat} (h : IsLine f.1) : IsLine (row f) := by
  have hdigits : IsLine (toString f.2).toList := isLine_of_isDigit (digits_toString f.2)
  refine hdigits.append fun c hc => ?_
  rcases List.mem_cons.mp hc with rfl | hc
  · rfl
  · exact h c hc

/-! ## The whole listing -/

/-- A path that the reader takes whole. -/
def Listable (path : Text) : Prop := IsLine path ∧ ¬mark <:+: path

theorem dropWhile_spaces {l rest : Text} (hne : l ≠ []) (h : ∀ c ∈ l, isSpace c = false) :
    ('\n' :: (l ++ rest)).dropWhile isSpace = l ++ rest := by
  obtain ⟨c, cs, rfl⟩ := List.exists_cons_of_ne_nil hne
  rw [List.dropWhile_cons, if_pos (by decide), List.cons_append, List.dropWhile_cons,
    if_neg (by simp [h c List.mem_cons_self])]

/-- The number of files is read back. -/
theorem count_read (n : Nat) :
    (words (strip (unlines [[], (toString n).toList]))).head?.bind pyInt = some (n : Int) := by
  have hspace : ∀ c ∈ (toString n).toList, isSpace c = false := fun c hc => by
    have hrange := toNat_of_isDigit (digits_toString n c hc)
    simp [isSpace]
    omega
  have hne : (toString n).toList ≠ [] := by
    rw [Nat.toString_eq_repr, Nat.toList_repr]
    exact Nat.toDigits_ne_nil
  have hunlines : unlines [[], (toString n).toList] = '\n' :: ((toString n).toList ++ ['\n']) := by
    simp [unlines]
  have hstrip : strip (unlines [[], (toString n).toList]) = (toString n).toList := by
    rw [hunlines, strip, dropWhile_spaces hne hspace, List.reverse_append, List.reverse_singleton,
      List.singleton_append]
    have hback := @dropWhile_spaces (toString n).toList.reverse [] (by simp)
      fun c hc => hspace c (List.mem_reverse.mp hc)
    rw [List.append_nil] at hback
    rw [hback, List.reverse_reverse]
  have hword : ∀ w ∈ [(toString n).toList], IsWord w := fun w hw => by
    rw [List.mem_singleton.mp hw]
    exact ⟨hne, hspace⟩
  have hwords := @words_joinWith ' ' (by decide) _ hword [] fun c hc => absurd hc List.not_mem_nil
  rw [List.append_nil] at hwords
  rw [hstrip]
  have hone : words (toString n).toList = [(toString n).toList] := hwords
  rw [hone, List.head?_cons, Option.bind_some, pyInt_toString]

theorem listing_unlines (t : Tree) (h : ∀ f ∈ t.listed, ¬mark <:+: f.1) :
    splitText mark t.census =
      [[], unlines ([] :: t.listed.map row), unlines [[], (toString t.files.length).toList]] := by
  have hrows : ∀ l ∈ [] :: t.listed.map row, ¬mark <:+: l := by
    rintro l hl
    rcases List.mem_cons.mp hl with rfl | hl
    · decide
    · obtain ⟨f, hf, rfl⟩ := List.mem_map.mp hl
      exact fun hm => h f hf ((mark_infix_row f).mp hm)
  have hcount : ∀ l ∈ [[], (toString t.files.length).toList], ¬mark <:+: l := by
    rintro l hl hm
    have hat : '@' ∈ l := hm.subset (by decide)
    rcases List.mem_cons.mp hl with rfl | hl
    · exact absurd hat List.not_mem_nil
    · rw [List.mem_singleton.mp hl] at hat
      exact not_mem_digits rfl _ hat
  rw [Tree.census, splitText, splitTextAux_sep mark_ne_nil,
    (splitText_lines mark_newline mark_ne_nil hrows _).1,
    (splitText_lines mark_newline mark_ne_nil hcount []).2]
  rfl

/-- What is parsed when every listed path can be read. -/
theorem parse_census {t : Tree} (h : ∀ f ∈ t.listed, Listable f.1) :
    parsePullOutputsCensus t.census = some ⟨t.listed, t.files.length,
      decide (t.listed.length < t.files.length)⟩ := by
  have hlines : ∀ l ∈ [] :: t.listed.map row, IsLine l := by
    rintro l hl
    rcases List.mem_cons.mp hl with rfl | hl
    · exact fun c hc => absurd hc List.not_mem_nil
    · obtain ⟨f, hf, rfl⟩ := List.mem_map.mp hl
      exact isLine_row (h f hf).1
  have hsub : t.listed.Sublist t.files := List.take_sublist _ _
  have hfiles : ([] :: t.listed.map row).foldl parseRow [] = t.listed := by
    rw [List.foldl_cons]
    exact foldl_parseRow (fun f hf => t.relative f (hsub.subset hf)) (t.distinct.sublist (hsub.map _))
  rw [parsePullOutputsCensus, listing_unlines t fun f hf => (h f hf).2]
  simp only [splitlines_unlines hlines, hfiles, count_read, Option.getD_some]
  have hle : (t.listed.length : Int) ≤ t.files.length := Int.ofNat_le.mpr hsub.length_le
  rw [max_eq_left hle]
  simp only [Nat.cast_lt]

/-- Every path that the reader finds is on one line. -/
theorem parseRow_isLine {line : Text} (hline : IsLine line) {files : Files}
    (h : ∀ f ∈ files, IsLine f.1) : ∀ f ∈ parseRow files line, IsLine f.1 := by
  have hset : ∀ (path : Text) (size : Nat) (files : Files), IsLine path → (∀ f ∈ files, IsLine f.1) →
      ∀ f ∈ setItem path size files, IsLine f.1 := by
    intro path size files hpath hfiles
    induction files with
    | nil =>
      rintro f hf
      rw [List.mem_singleton.mp hf]
      exact hpath
    | cons g files ih =>
      rw [setItem]
      split
      · rintro f hf
        rcases List.mem_cons.mp hf with rfl | hf
        · exact hpath
        · exact hfiles f (List.mem_cons_of_mem _ hf)
      · rintro f hf
        rcases List.mem_cons.mp hf with rfl | hf
        · exact hfiles f List.mem_cons_self
        · exact ih (fun k hk => hfiles k (List.mem_cons_of_mem _ hk)) f hf
  unfold parseRow
  split
  · exact h
  · rename_i c path hdrop
    have hsuffix : c :: path <:+ line := hdrop ▸ List.dropWhile_suffix _
    have hpath : IsLine path := fun d hd => hline d (hsuffix.subset (List.mem_cons_of_mem _ hd))
    split
    · exact h
    · split
      · exact h
      · split
        · exact hset path _ files hpath h
        · exact h

theorem parse_isLine {stdout : Text} {census : PullCensus}
    (h : parsePullOutputsCensus stdout = some census) : ∀ f ∈ census.files, IsLine f.1 := by
  have hfold : ∀ (lines : List Text) (files : Files), (∀ l ∈ lines, IsLine l) →
      (∀ f ∈ files, IsLine f.1) → ∀ f ∈ lines.foldl parseRow files, IsLine f.1 := by
    intro lines
    induction lines with
    | nil => exact fun files _ hfiles => hfiles
    | cons l lines ih =>
      intro files hlines hfiles
      exact ih _ (fun m hm => hlines m (List.mem_cons_of_mem _ hm))
        (parseRow_isLine (hlines l List.mem_cons_self) hfiles)
  unfold parsePullOutputsCensus at h
  split at h
  · obtain rfl := Option.some.inj h
    exact hfold _ _ (fun l hl => splitlines_isLine hl) fun f hf => absurd hf List.not_mem_nil
  · cases h

/-- A marker in a path spoils the listing. -/
theorem parse_marked {t : Tree} {f : Text × Nat} (hf : f ∈ t.listed) (h : mark <:+: f.1) :
    parsePullOutputsCensus t.census = none := by
  have hinfix : mark <:+: unlines ([] :: t.listed.map row) := by
    obtain ⟨front, back, hsplit⟩ := List.append_of_mem (List.mem_cons_of_mem [] (List.mem_map_of_mem hf))
    rw [hsplit]
    refine ((mark_infix_row f).mpr h).trans ⟨unlines front, '\n' :: unlines back, ?_⟩
    simp [unlines]
  have hlength := length_splitText_infix mark_ne_nil hinfix
    (unlines [[], (toString t.files.length).toList])
  rw [parsePullOutputsCensus, Tree.census, splitText, splitTextAux_sep mark_ne_nil]
  split
  · rename_i _ listing count heq
    rw [List.cons.injEq] at heq
    rw [heq.2] at hlength
    exact absurd hlength (by simp)
  · rfl

theorem mismatches_eq_nil (census : PullCensus) (lstat : Text → Local) (excluded : Text → Bool) :
    pullCensusMismatches census lstat excluded = [] ↔
      ∀ f ∈ census.files, excluded f.1 = false → lstat f.1 = .regular f.2 := by
  have hrow : ∀ f, mismatch lstat f = none ↔ lstat f.1 = .regular f.2 := by
    intro f
    unfold mismatch
    cases lstat f.1 with
    | regular size =>
      simp only [ite_eq_right_iff, reduceCtorEq, imp_false, not_not, ne_eq, Local.regular.injEq]
    | missing => simp
    | unreadable strerror => simp
    | other => simp
  rw [pullCensusMismatches, List.filterMap_eq_nil_iff]
  simp only [List.mem_filter, Bool.not_eq_true', and_imp, hrow]

theorem lookup_iff {files : Files} (h : (files.map Prod.fst).Nodup) (path : Text) (size : Nat) :
    files.lookup path = some size ↔ (path, size) ∈ files := lookup_eq_some_iff_mem h

theorem listable_of_faithful {t : Tree} (h : Faithful t) {f : Text × Nat} (hf : f ∈ t.listed) :
    Listable f.1 := by
  obtain ⟨census, hparse, hmap, -, -⟩ := h
  refine ⟨?_, fun hmark => ?_⟩
  · have hmem := (hmap f.1 f.2).mpr hf
    obtain ⟨front, back, hfiles, -⟩ := List.lookup_eq_some_iff.mp hmem
    exact parse_isLine hparse (f.1, f.2) (by rw [hfiles]; simp)
  · rw [parse_marked hf hmark] at hparse
    cases hparse

/-- All files are listed when the count of the listed ones is that of all, and only then. -/
theorem listed_lt_iff (t : Tree) :
    t.listed.length < t.files.length ↔ ∃ f ∈ t.files, t.listed.lookup f.1 = none := by
  have hsub : t.listed.Sublist t.files := List.take_sublist _ _
  have hnodup : (t.listed.map Prod.fst).Nodup := t.distinct.sublist (hsub.map _)
  constructor
  · rintro hlt
    by_contra hall
    push Not at hall
    have hpaths : t.files.map Prod.fst ⊆ t.listed.map Prod.fst := fun p hp => by
      obtain ⟨f, hf, rfl⟩ := List.mem_map.mp hp
      obtain ⟨size, hsize⟩ := Option.ne_none_iff_exists'.mp (hall f hf)
      exact List.mem_map.mpr ⟨(f.1, size), (lookup_iff hnodup f.1 size).mp hsize, rfl⟩
    have hle := (t.distinct.subperm hpaths).length_le
    rw [List.length_map, List.length_map] at hle
    exact absurd hlt (not_lt.mpr hle)
  · rintro ⟨f, hf, hnone⟩
    refine lt_of_le_of_ne hsub.length_le fun heq => ?_
    rw [hsub.eq_of_length heq, (lookup_iff t.distinct f.1 f.2).mpr hf] at hnone
    cases hnone

/-- **The census is faithful exactly when no listed path holds a line end or the marker.** -/
theorem faithful_iff (t : Tree) : Faithful t ↔ ∀ f ∈ t.listed, Listable f.1 := by
  have hnodup : (t.listed.map Prod.fst).Nodup := t.distinct.sublist ((List.take_sublist _ _).map _)
  constructor
  · exact fun h f hf => listable_of_faithful h hf
  · rintro h
    refine ⟨_, parse_census h, lookup_iff hnodup, ?_, mismatches_eq_nil _⟩
    rw [decide_eq_true_iff]
    exact listed_lt_iff t

/-- One file, whose name holds a carriage return. -/
def carriageTree : Tree where
  files := [("a\rb".toList, 1)]
  distinct := by decide
  relative := fun f hf => by
    rw [List.mem_singleton.mp hf]
    exact ⟨by decide, by decide⟩

/-- The census of the tree has another file. -/
theorem carriage_return_lost : ¬Faithful carriageTree := by
  rintro h
  have hline : IsLine "a\rb".toList := (listable_of_faithful h List.mem_cons_self).1
  exact absurd (hline '\r' (by decide)) (by decide)

end Dt.Transfers
