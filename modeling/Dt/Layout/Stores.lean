import Mathlib.Data.List.DropRight
import Dt.Layout
import Dt.Jobs.Validate

/-!
# Node-side stores of a project

The artifact store and the sync cache of a project are directories named by `sanitize_name`, while
their locks are keyed by the raw project name. `sanitize_name` turns every run of characters outside
letters, digits, `_` and `-` into one dash and strips dashes and underscores at both ends. Project
names may contain dots and may end in a dash or an underscore, so two of them can share a store.
-/

namespace Dt.Layout

open Dt.Lib
open Dt.Jobs (isConfigId Layout)

/-! ## Directory names -/

/-- The characters that `NAME_RE` keeps. -/
def isNameChar (c : Char) : Bool := isAlnum c || c = '_' || c = '-'

/-- `NAME_RE.sub("-", name)`; the flag says that a dash was written for the current run. -/
def nameSub : Bool → List Char → List Char
  | _, [] => []
  | inRun, c :: cs =>
    if isNameChar c then c :: nameSub false cs
    else if inRun then nameSub true cs
    else '-' :: nameSub true cs

/-- What `strip("-_")` removes. -/
def isDash (c : Char) : Bool := c = '-' || c = '_'

/-- `rstrip("-_")` -/
def rstripDashes (s : List Char) : List Char := s.rdropWhile isDash

def maxSafeNameLength : Nat := 64
def safeNameDigestLength : Nat := 12

/-- `sanitize_name`; `sha256` gives the hexadecimal digest of a text. -/
def sanitizeName (sha256 : List Char → List Char) (name : List Char) : List Char :=
  let clean := rstripDashes ((nameSub false name).dropWhile isDash)
  if clean = [] then "job".toList
  else if clean.length ≤ maxSafeNameLength then clean
  else
    let digest := (sha256 name).take safeNameDigestLength
    let short := rstripDashes (clean.take (maxSafeNameLength - safeNameDigestLength - 1))
    (if short = [] then "job".toList else short) ++ '-' :: digest

/-- One component given to `node_path`. -/
def cleanParts (raw : List Char) : Except String (List String) :=
  let parts := pathParts raw
  if isAbsolute raw ∨ parts = [] then .error "invalid node path component"
  else if ".." ∈ parts then .error "invalid node path component"
  else .ok parts

/-- `node_path` -/
def nodePath (root : String) (parts : List (List Char)) : Except String String :=
  match normalizeNodeRoot root with
  | .error e => .error e
  | .ok base =>
    match parts.mapM cleanParts with
    | .error e => .error e
    | .ok clean =>
      let joined := if clean.flatten = [] then base
        else base ++ "/" ++ String.ofList (joinWith ['/'] (clean.flatten.map String.toList))
      (validatePathSize joined (pathParts joined.toList)).map fun _ => joined

/-- What the paths of a node need: the layout of the head and the root of the node. -/
structure NodeRoot where
  layout : Layout
  root : String

/-- `cfg.worker_path` -/
def workerPath (n : NodeRoot) (parts : List (List Char)) : Except String String :=
  match n.layout with
  | .role => nodePath n.root ("worker".toList :: parts)
  | .legacy => nodePath n.root parts

/-- A store below a fixed path; without a node, and in the legacy layout, it is under `dt`. -/
def storeRel (sha256 : List Char → List Char) (under : List String) (project : List Char)
    (node : Option NodeRoot) : Except String String :=
  match node with
  | some ⟨.role, root⟩ =>
    workerPath ⟨.role, root⟩ (under.map String.toList ++ [sanitizeName sha256 project])
  | _ => .ok ("dt/" ++ under.getLastD "" ++ "/" ++ String.ofList (sanitizeName sha256 project))

/-- `sync_cache_rel` -/
def syncCacheRel (sha256 : List Char → List Char) (project : List Char) (node : Option NodeRoot) :
    Except String String :=
  storeRel sha256 ["cache", "sync"] project node

/-- `artifact_root_rel` -/
def artifactRootRel (sha256 : List Char → List Char) (project : List Char)
    (node : Option NodeRoot) : Except String String :=
  storeRel sha256 ["artifacts"] project node

/-- The identity in the name of the lock file of `_sync_cache_lock`. -/
def syncCacheLock (sha256 : List Char → List Char) (project node : List Char) : List Char :=
  (sha256 (project ++ '\x00' :: node)).take 20

/-! ## What a configured name becomes -/

/-- The nonempty parts of a name between its dots, joined by dashes, without dashes and underscores
at the end. -/
def plainName (name : List Char) : List Char :=
  rstripDashes (joinWith ['-'] ((splitOn '.' name).filter fun part => part ≠ []))

/-- A trimmed text may be trimmed again behind anything. -/
theorem rstripDashes_append (a b : List Char) :
    rstripDashes (a ++ b) = if rstripDashes b = [] then rstripDashes a else a ++ rstripDashes b := by
  unfold rstripDashes List.rdropWhile
  rw [List.reverse_append, List.dropWhile_append]
  by_cases h : b.reverse.dropWhile isDash = []
  · simp [h]
  · simp [h, List.isEmpty_iff]

theorem rstripDashes_dash : rstripDashes ['-'] = [] := by decide

theorem rstripDashes_gap {a b b' : List Char} (h : rstripDashes b = rstripDashes b') :
    rstripDashes (a ++ '-' :: b) = rstripDashes (a ++ '-' :: b') := by
  have hgap : ∀ x, rstripDashes ('-' :: x) =
      if rstripDashes x = [] then [] else '-' :: rstripDashes x := fun x => by
    rw [← List.singleton_append, rstripDashes_append, rstripDashes_dash]
    rfl
  rw [rstripDashes_append, rstripDashes_append, hgap, hgap, h]

/-- A configured name consists of kept characters and dots. -/
def IdChars (name : List Char) : Prop := ∀ c ∈ name, isNameChar c = true ∨ c = '.'

theorem nameSub_append {part rest : List Char} (h : ∀ c ∈ part, isNameChar c = true)
    (hne : part ≠ []) (inRun : Bool) :
    nameSub inRun (part ++ rest) = part ++ nameSub false rest := by
  induction part generalizing inRun with
  | nil => exact absurd rfl hne
  | cons c part ih =>
    rw [List.cons_append, nameSub, if_pos (h c List.mem_cons_self)]
    cases part with
    | nil => rfl
    | cons d part =>
      rw [ih (fun x hx => h x (List.mem_cons_of_mem _ hx)) (List.cons_ne_nil _ _)]
      rfl

theorem nameSub_dot {rest : List Char} (inRun : Bool) :
    nameSub inRun ('.' :: rest) = (if inRun then [] else ['-']) ++ nameSub true rest := by
  have hdot : isNameChar '.' = false := by decide
  cases inRun <;> simp [nameSub, hdot]

theorem IdChars.part {part rest : List Char} (h : IdChars (part ++ '.' :: rest))
    (hdot : '.' ∉ part) : (∀ c ∈ part, isNameChar c = true) ∧ IdChars rest := by
  refine ⟨fun c hc => ?_, fun c hc => h c (by simp [hc])⟩
  rcases h c (List.mem_append_left _ hc) with hname | rfl
  · exact hname
  · exact absurd hc hdot

theorem plainName_dot {part rest : List Char} (hdot : '.' ∉ part) :
    plainName (part ++ '.' :: rest) =
      if part = [] then plainName rest
      else if plainName rest = [] then rstripDashes part
      else part ++ '-' :: plainName rest := by
  unfold plainName
  rw [splitOn_append hdot]
  by_cases hpart : part = []
  · simp [hpart]
  · rw [if_neg hpart, List.filter_cons_of_pos (by simpa using hpart)]
    cases hrest : (splitOn '.' rest).filter fun part => part ≠ [] with
    | nil => rfl
    | cons next more =>
      have hjoin : joinWith ['-'] (part :: next :: more) =
          part ++ ('-' :: joinWith ['-'] (next :: more)) := by
        rw [joinWith, List.append_assoc]
        · rfl
        · simp
      rw [hjoin, rstripDashes_append, ← List.singleton_append, rstripDashes_append,
        rstripDashes_dash]
      by_cases hnil : rstripDashes (joinWith ['-'] (next :: more)) = []
      · simp [hnil]
      · simp [hnil]

/-- Trimming what the substitution leaves gives the plain name. -/
theorem rstrip_nameSub (n : Nat) : ∀ {name : List Char}, name.length ≤ n → IdChars name →
    rstripDashes (nameSub true name) = plainName name := by
  induction n with
  | zero =>
    intro name hlen _
    rw [List.length_eq_zero_iff.mp (Nat.le_zero.mp hlen)]
    decide
  | succ n ih =>
    intro name hlen h
    by_cases hdot : '.' ∈ name
    · obtain ⟨part, rest, rfl, hpart⟩ := List.eq_append_cons_of_mem hdot
      obtain ⟨hchars, hrest⟩ := h.part hpart
      have hshort : rest.length ≤ n := by
        simp only [List.length_append, List.length_cons] at hlen
        omega
      rw [plainName_dot hpart, ← ih hshort hrest]
      by_cases hnil : part = []
      · rw [hnil, List.nil_append, nameSub_dot, if_pos rfl, if_pos rfl, List.nil_append]
      · rw [nameSub_append hchars hnil, nameSub_dot, if_neg hnil, rstripDashes_append,
          if_neg Bool.false_ne_true, List.singleton_append, ← List.singleton_append,
          rstripDashes_append, rstripDashes_dash]
        by_cases hend : rstripDashes (nameSub true rest) = []
        · simp [hend]
        · simp [hend]
    · have hchars : ∀ c ∈ name, isNameChar c = true := fun c hc =>
        (h c hc).resolve_right fun heq => hdot (heq ▸ hc)
      have hsub : nameSub true name = name := by
        by_cases hnil : name = []
        · rw [hnil]
          rfl
        · have happ : nameSub true (name ++ []) = name ++ nameSub false [] :=
            nameSub_append hchars hnil true
          simpa [nameSub] using happ
      rw [hsub, plainName, splitOn_of_notMem hdot]
      by_cases hnil : name = []
      · rw [hnil]
        rfl
      · rw [List.filter_cons_of_pos (by simpa using hnil), List.filter_nil]
        rfl

theorem length_nameSub_le (inRun : Bool) (name : List Char) :
    (nameSub inRun name).length ≤ name.length := by
  induction name generalizing inRun with
  | nil => exact le_rfl
  | cons c cs ih =>
    rw [nameSub]
    split
    · simpa using ih false
    · split
      · exact (ih true).trans (Nat.le_succ _)
      · simpa using ih true

/-- A name that the configuration parser accepts. -/
abbrev ProjectName := { name : String // isConfigId name = true }

def ProjectName.chars (p : ProjectName) : List Char := p.1.toList

theorem ProjectName.shape (p : ProjectName) : ∃ c cs, p.chars = c :: cs ∧ isAlnum c = true ∧
    IdChars p.chars ∧ p.chars.length ≤ 64 := by
  have h := p.2
  unfold isConfigId at h
  unfold ProjectName.chars
  cases hchars : p.1.toList with
  | nil =>
    rw [hchars] at h
    cases h
  | cons c cs =>
    rw [hchars] at h
    simp only [classRun, Bool.and_eq_true, decide_eq_true_eq, List.all_eq_true, Bool.or_eq_true] at h
    obtain ⟨hc, ⟨-, hlen⟩, hall⟩ := h
    refine ⟨c, cs, rfl, hc, fun d hd => ?_, Nat.succ_le_succ hlen⟩
    rcases List.mem_cons.mp hd with rfl | hrest
    · exact .inl (by simp [isNameChar, hc])
    · rcases hall d hrest with ((ha | hu) | hdot) | hdash
      · exact .inl (by simp [isNameChar, ha])
      · exact .inl (by simp [isNameChar, hu])
      · exact .inr hdot
      · exact .inl (by simp [isNameChar, hdash])

theorem isDash_of_isAlnum {c : Char} (h : isAlnum c = true) : isDash c = false := by
  unfold isDash
  rw [Bool.or_eq_false_iff]
  constructor <;>
    · rw [decide_eq_false_iff_not]
      rintro rfl
      exact absurd h (by decide)

theorem rstripDashes_cons {c : Char} (h : isDash c = false) (s : List Char) :
    rstripDashes (c :: s) = c :: rstripDashes s := by
  have hc : rstripDashes [c] = [c] := by
    simp [rstripDashes, List.rdropWhile, h]
  rw [← List.singleton_append, rstripDashes_append, hc]
  by_cases hs : rstripDashes s = []
  · simp [hs]
  · simp [hs]

/-- On a configured name `sanitize_name` is the plain name, and the digest branch is not reached. -/
theorem sanitizeName_eq (sha256 : List Char → List Char) (p : ProjectName) :
    sanitizeName sha256 p.chars = plainName p.chars := by
  obtain ⟨c, cs, hchars, hc, hid, hlen⟩ := p.shape
  have hkeep : isNameChar c = true := by simp [isNameChar, hc]
  have hdash := isDash_of_isAlnum hc
  have hstart : ∀ inRun, nameSub inRun p.chars = c :: nameSub false cs := fun inRun => by
    rw [hchars, nameSub, if_pos hkeep]
  have hclean : rstripDashes ((nameSub false p.chars).dropWhile isDash) = plainName p.chars := by
    have hdrop : (nameSub false p.chars).dropWhile isDash = nameSub true p.chars := by
      rw [hstart, hstart, List.dropWhile_cons_of_neg (by simp [hdash])]
    rw [hdrop, rstrip_nameSub _ le_rfl hid]
  have hne : plainName p.chars ≠ [] := by
    rw [← hclean, hstart, List.dropWhile_cons_of_neg (by simp [hdash]), rstripDashes_cons hdash]
    exact List.cons_ne_nil _ _
  have hshort : (plainName p.chars).length ≤ maxSafeNameLength := by
    rw [← rstrip_nameSub _ le_rfl hid]
    calc (rstripDashes (nameSub true p.chars)).length
        ≤ (nameSub true p.chars).length := (List.rdropWhile_prefix _ _).length_le
      _ ≤ p.chars.length := length_nameSub_le _ _
      _ ≤ 64 := hlen
  unfold sanitizeName
  simp only [hclean]
  rw [if_neg hne, if_pos hshort]

/-! ## Paths below a node root -/

theorem nameSub_chars (inRun : Bool) (name : List Char) :
    ∀ c ∈ nameSub inRun name, isNameChar c = true := by
  induction name generalizing inRun with
  | nil => exact fun _ h => nomatch h
  | cons d cs ih =>
    intro c hc
    rw [nameSub] at hc
    split at hc
    · rename_i hd
      rcases List.mem_cons.mp hc with rfl | hrest
      · exact hd
      · exact ih false c hrest
    · split at hc
      · exact ih true c hc
      · rcases List.mem_cons.mp hc with rfl | hrest
        · decide
        · exact ih true c hrest

theorem plainName_chars (p : ProjectName) : ∀ c ∈ plainName p.chars, isNameChar c = true := by
  obtain ⟨-, -, -, -, hid, -⟩ := p.shape
  rw [← rstrip_nameSub _ le_rfl hid]
  exact fun c hc => nameSub_chars _ _ c ((List.rdropWhile_prefix _ _).subset hc)

/-- A text without a slash and without dots is one component. -/
theorem cleanParts_name {s : List Char} (hne : s ≠ []) (h : ∀ c ∈ s, isNameChar c = true) :
    cleanParts s = .ok [String.ofList s] := by
  have hnot : ∀ d, isNameChar d = false → d ∉ s := fun d hd hmem => by
    rw [h d hmem] at hd
    cases hd
  have hslash : '/' ∉ s := hnot '/' (by decide)
  have hdot : '.' ∉ s := hnot '.' (by decide)
  have hempty : String.ofList s ≠ "" := fun heq => hne (by simpa using congrArg String.toList heq)
  have hone : ∀ t : String, '.' ∈ t.toList → String.ofList s ≠ t := by
    rintro t ht rfl
    exact hdot (by simpa using ht)
  have hparts : pathParts s = [String.ofList s] := by
    unfold pathParts
    rw [splitOn_of_notMem hslash]
    simp [hempty, hone "." (by decide)]
  have habs : isAbsolute s = false := by
    cases s with
    | nil => rfl
    | cons c cs =>
      have hc : c ≠ '/' := fun heq => hslash (heq ▸ List.mem_cons_self)
      simp [isAbsolute, hc]
  have hdots : ".." ∉ [String.ofList s] := fun hmem =>
    hone ".." (by decide) (List.mem_singleton.mp hmem).symm
  unfold cleanParts
  simp only [hparts, habs]
  rw [if_neg (by simp), if_neg hdots]

theorem mapM_cleanParts {s : List Char} (hs : cleanParts s = .ok [String.ofList s]) :
    ∀ {dirs : List String}, (∀ d ∈ dirs, cleanParts d.toList = .ok [d]) →
      (dirs.map String.toList ++ [s]).mapM cleanParts =
        .ok ((dirs.map fun d => [d]) ++ [[String.ofList s]])
  | [], _ => by
    simp only [List.map_nil, List.nil_append, List.mapM_cons, List.mapM_nil, hs]
    rfl
  | d :: dirs, h => by
    have hrest := mapM_cleanParts hs fun x hx => h x (List.mem_cons_of_mem d hx)
    simp only [List.map_cons, List.cons_append, List.mapM_cons, h d List.mem_cons_self]
    rw [hrest]
    rfl

theorem joinWith_concat (sep : List Char) (s : List Char) :
    ∀ parts : List (List Char), parts ≠ [] →
      joinWith sep (parts ++ [s]) = joinWith sep parts ++ sep ++ s
  | [], h => absurd rfl h
  | [w], _ => rfl
  | w :: v :: rest, _ => by
    have ih := joinWith_concat sep s (v :: rest) (List.cons_ne_nil _ _)
    have hcons : ∀ x xs, joinWith sep (w :: x :: xs) = w ++ sep ++ joinWith sep (x :: xs) :=
      fun _ _ => rfl
    rw [List.cons_append, List.cons_append, hcons, hcons, ← List.cons_append, ih]
    simp only [List.append_assoc]

/-- Below one node, the last component tells two store paths apart. -/
theorem nodePath_inj {root : String} {dirs : List String} (hdirs : dirs ≠ [])
    (hclean : ∀ d ∈ dirs, cleanParts d.toList = .ok [d]) {s t : List Char}
    (hs : cleanParts s = .ok [String.ofList s]) (ht : cleanParts t = .ok [String.ofList t])
    {x y : String} (hx : nodePath root (dirs.map String.toList ++ [s]) = .ok x)
    (hy : nodePath root (dirs.map String.toList ++ [t]) = .ok y) : x = y ↔ s = t := by
  have hpath : ∀ (u : List Char) (z : String), cleanParts u = .ok [String.ofList u] →
      nodePath root (dirs.map String.toList ++ [u]) = .ok z →
      ∃ base, normalizeNodeRoot root = .ok base ∧
        z.toList = base.toList ++ '/' :: (joinWith ['/'] (dirs.map String.toList) ++ ['/'] ++ u) := by
    intro u z hu hz
    unfold nodePath at hz
    rw [mapM_cleanParts hu hclean] at hz
    cases hbase : normalizeNodeRoot root with
    | error e =>
      rw [hbase] at hz
      cases hz
    | ok base =>
      rw [hbase] at hz
      refine ⟨base, rfl, ?_⟩
      have hflat : ((dirs.map fun d => [d]) ++ [[String.ofList u]]).flatten =
          dirs ++ [String.ofList u] := by
        rw [List.flatten_append, ← List.flatMap_def, List.flatMap_singleton', List.flatten_singleton]
      have hne : dirs ++ [String.ofList u] ≠ [] := by simp
      simp only [hflat, if_neg hne] at hz
      cases hsize : validatePathSize (base ++ "/" ++ String.ofList
          (joinWith ['/'] ((dirs ++ [String.ofList u]).map String.toList)))
          (pathParts (base ++ "/" ++ String.ofList
            (joinWith ['/'] ((dirs ++ [String.ofList u]).map String.toList))).toList) with
      | error e =>
        rw [hsize] at hz
        cases hz
      | ok _ =>
        rw [hsize] at hz
        cases hz
        have hmap : dirs.map String.toList ≠ [] := by simpa using hdirs
        simp [joinWith_concat _ _ _ hmap]
  obtain ⟨base, hb, hxl⟩ := hpath s x hs hx
  obtain ⟨base', hb', hyl⟩ := hpath t y ht hy
  rw [hb] at hb'
  cases hb'
  constructor
  · rintro rfl
    rw [hxl] at hyl
    simpa using hyl
  · rintro rfl
    exact String.toList_inj.mp (hxl.trans hyl.symm)

/-! ## Two projects on one node -/

theorem cleanParts_plain (p : ProjectName) :
    cleanParts (plainName p.chars) = .ok [String.ofList (plainName p.chars)] := by
  obtain ⟨c, cs, hchars, hc, hid, -⟩ := p.shape
  have hkeep : isNameChar c = true := by simp [isNameChar, hc]
  refine cleanParts_name ?_ (plainName_chars p)
  rw [← rstrip_nameSub _ le_rfl hid, hchars, nameSub, if_pos hkeep,
    rstripDashes_cons (isDash_of_isAlnum hc)]
  exact List.cons_ne_nil _ _

theorem storeRel_inj (sha256 : List Char → List Char) {under : List String}
    (hclean : ∀ d ∈ "worker" :: under, cleanParts d.toList = .ok [d]) (p q : ProjectName)
    (node : Option NodeRoot) {x y : String} (hx : storeRel sha256 under p.chars node = .ok x)
    (hy : storeRel sha256 under q.chars node = .ok y) :
    x = y ↔ plainName p.chars = plainName q.chars := by
  have hfixed : ∀ (pre : String) (u v : List Char),
      pre ++ String.ofList u = pre ++ String.ofList v ↔ u = v := fun pre u v => by
    rw [← String.toList_inj]
    simp
  unfold storeRel at hx hy
  rw [sanitizeName_eq] at hx hy
  match node, hx, hy with
  | some ⟨.role, root⟩, hx, hy =>
    exact nodePath_inj (List.cons_ne_nil _ _) hclean (cleanParts_plain p) (cleanParts_plain q) hx hy
  | some ⟨.legacy, root⟩, hx, hy =>
    cases hx
    cases hy
    exact hfixed _ _ _
  | none, hx, hy =>
    cases hx
    cases hy
    exact hfixed _ _ _

/-- The artifact stores and the sync caches of two configured projects are different directories of
a node exactly when the plain names differ. -/
theorem stores_apart_iff (sha256 : List Char → List Char) (p q : ProjectName)
    (node : Option NodeRoot) {a b c d : String}
    (ha : artifactRootRel sha256 p.chars node = .ok a)
    (hb : artifactRootRel sha256 q.chars node = .ok b)
    (hc : syncCacheRel sha256 p.chars node = .ok c)
    (hd : syncCacheRel sha256 q.chars node = .ok d) :
    a ≠ b ∧ c ≠ d ↔ plainName p.chars ≠ plainName q.chars := by
  have hartifacts := storeRel_inj sha256 (by decide) p q node ha hb
  have hsync := storeRel_inj sha256 (by decide) p q node hc hd
  rw [Ne, Ne, hartifacts, hsync, and_self]

/-- Equal plain names let two projects write one directory under two locks. -/
theorem sameLock_iff (sha256 : List Char → List Char) (p q : ProjectName) (node : Option NodeRoot)
    (name : List Char)
    (hlock : syncCacheLock sha256 p.chars name = syncCacheLock sha256 q.chars name → p = q)
    {c d : String} (hc : syncCacheRel sha256 p.chars node = .ok c)
    (hd : syncCacheRel sha256 q.chars node = .ok d) :
    (c = d → syncCacheLock sha256 p.chars name = syncCacheLock sha256 q.chars name) ↔
      (p ≠ q → plainName p.chars ≠ plainName q.chars) := by
  rw [storeRel_inj sha256 (by decide) p q node hc hd]
  constructor
  · exact fun h hne heq => hne (hlock (h heq))
  · intro h heq
    by_cases hpq : p = q
    · rw [hpq]
    · exact absurd heq (h hpq)

/-- Two projects with different plain names on a node with the role layout. -/
theorem stores_apart_sample :
    "/srv/dt/worker/artifacts/cifar" ≠ "/srv/dt/worker/artifacts/net-v2" ∧
      "/srv/dt/worker/cache/sync/cifar" ≠ "/srv/dt/worker/cache/sync/net-v2" :=
  (stores_apart_iff id ⟨"cifar", by decide⟩ ⟨"net.v2", by decide⟩ (some ⟨.role, "/srv/dt"⟩)
    (by decide +kernel) (by decide +kernel) (by decide +kernel) (by decide +kernel)).mpr
    (by decide +kernel)

/-- `net.v2` and `net-v2` are two projects with one artifact store and one sync cache. -/
theorem dotted_name_shares_store :
    ¬ ∀ (p q : ProjectName) (node : Option NodeRoot) (a b c d : String), p ≠ q →
      artifactRootRel id p.chars node = .ok a → artifactRootRel id q.chars node = .ok b →
      syncCacheRel id p.chars node = .ok c → syncCacheRel id q.chars node = .ok d →
      a ≠ b ∧ c ≠ d := by
  intro h
  have hsame := h ⟨"net.v2", by decide⟩ ⟨"net-v2", by decide⟩ (some ⟨.role, "/srv/dt"⟩)
    "/srv/dt/worker/artifacts/net-v2" "/srv/dt/worker/artifacts/net-v2"
    "/srv/dt/worker/cache/sync/net-v2" "/srv/dt/worker/cache/sync/net-v2" (by decide)
    (by decide +kernel) (by decide +kernel) (by decide +kernel) (by decide +kernel)
  exact hsame.1 rfl

end Dt.Layout
