import Mathlib.Data.List.Infix
import Dt.Snapshot.TreeHash

/-!
# Capturing a source tree

`capture_snapshot` copies the visible part of a project into the snapshot store and names it by its
tree hash. When a checksum dry run of rsync against the last snapshot of the project prints nothing,
that snapshot is reused. The exclude list hides paths on both sides of the dry run: on the sender
they are not compared, on the receiver they are protected from `--delete`. A snapshot that was taken
under a shorter list keeps its hidden files when it is reused, while a full capture drops them.
-/

namespace Dt.Snapshot

/-! ## Trees and the exclude list -/

/-- An entry as an archive-mode run sees it. `attrs` are the times and owners, which such a run
compares and the tree hash leaves out. -/
structure Entry (α : Type) where
  path : Path
  node : Node
  attrs : α
  deriving DecidableEq

/-- The entries below a directory: every path once, every parent a directory of the tree. -/
structure Tree (α : Type) where
  entries : List (Entry α)
  nodup : (entries.map Entry.path).Nodup
  nonroot : ∀ e ∈ entries, e.path ≠ []
  closed : ∀ e ∈ entries, ∀ q, q ≠ [] → q <+: e.path → q ≠ e.path →
    ∃ d ∈ entries, d.path = q ∧ d.node.isDir = true

variable {α : Type} {δ : Type}

def Tree.listing (t : Tree α) : Listing := t.entries.map fun e => (e.path, e.node)

def Tree.isDirAt (t : Tree α) (path : Path) : Bool :=
  t.entries.any fun e => e.path = path && e.node.isDir

/-- The verdict of rsync's filter on one path, and whether the path is a directory. -/
abbrev Filter := Path → Bool → Bool

/-- A path is hidden when the filter excludes it or a directory above it. -/
def hidden (excludes : Filter) (t : Tree α) (path : Path) : Bool :=
  path.inits.any fun q => q ≠ [] && excludes q (t.isDirAt q)

theorem hidden_below {excludes : Filter} {t : Tree α} {p q : Path} (hpre : q <+: p)
    (h : hidden excludes t q = true) : hidden excludes t p = true := by
  obtain ⟨r, hr, hex⟩ := List.any_eq_true.mp h
  exact List.any_eq_true.mpr
    ⟨r, (List.mem_inits _ _).mpr (((List.mem_inits _ _).mp hr).trans hpre), hex⟩

/-- What a transfer with an exclude list sends. -/
def Tree.visible (excludes : Filter) (t : Tree α) : Tree α where
  entries := t.entries.filter fun e => !hidden excludes t e.path
  nodup := t.nodup.sublist (List.filter_sublist.map _)
  nonroot e he := t.nonroot e (List.mem_of_mem_filter he)
  closed e he q hq hpre hne := by
    rw [List.mem_filter] at he
    obtain ⟨d, hd, rfl, hdir⟩ := t.closed e he.1 q hq hpre hne
    refine ⟨d, List.mem_filter.mpr ⟨hd, ?_⟩, rfl, hdir⟩
    cases hhid : hidden excludes t d.path with
    | false => rfl
    | true =>
      have hvis := he.2
      rw [hidden_below hpre hhid] at hvis
      cases hvis

theorem mem_visible {excludes : Filter} {t : Tree α} {e : Entry α} :
    e ∈ (t.visible excludes).entries ↔ e ∈ t.entries ∧ hidden excludes t e.path = false := by
  simp [Tree.visible]

/-! ## The two paths of a capture -/

/-- A line of `--itemize-changes`. -/
inductive Change where
  | transfer (path : Path)
  | deleting (path : Path)
  deriving DecidableEq

section
variable [DecidableEq α]

/-- A dry run with `--checksum` and `--delete`: what the sender would send or change, and what the
receiver would lose; hidden files of the receiver are protected. -/
def itemize (excludes : Filter) (source baseline : Tree α) : List Change :=
  ((source.visible excludes).entries.filter fun e => e ∉ baseline.entries).map
      (fun e => .transfer e.path) ++
    (baseline.entries.filter fun e =>
      e.path ∉ (source.visible excludes).entries.map Entry.path &&
        !hidden excludes baseline e.path).map fun e => .deleting e.path

/-- `_source_matches_baseline` -/
def sourceMatchesBaseline (excludes : Filter) (source baseline : Tree α) (returncode : Nat) : Bool :=
  returncode = 0 && (itemize excludes source baseline).isEmpty

/-- The content store of the head, and the last digest of each project. -/
structure SnapshotStore (α δ : Type) where
  objects : δ → Option (Tree α)
  latest : String → Option δ

inductive CaptureError where
  | copyFailed
  | hashFailed (error : PolicyError)
  | publishFailed
  deriving DecidableEq

variable [DecidableEq δ] (sha256 : Bytes → δ) (resolves : Resolves)

/-- `_validate_stored_snapshot` -/
def SnapshotStore.validate (store : SnapshotStore α δ) (digest : δ) : Option (Tree α) :=
  (store.objects digest).filter fun t => treeSha256 sha256 resolves t.listing = .ok digest

/-- An object that does not validate is moved aside. -/
def SnapshotStore.quarantine (store : SnapshotStore α δ) (digest : δ) : SnapshotStore α δ :=
  if (store.validate sha256 resolves digest).isSome then store
  else { store with objects := Function.update store.objects digest none }

def SnapshotStore.setLatest (store : SnapshotStore α δ) (project : String) (digest : δ) :
    SnapshotStore α δ :=
  { store with latest := Function.update store.latest project (some digest) }

/-- The digest that a full capture of the source computes. -/
def fullCapture (excludes : Filter) (source : Tree α) : Except PolicyError δ :=
  treeSha256 sha256 resolves (source.visible excludes).listing

/-- `_commit_snapshot_dir`; `published` says whether the directory could be made durable. -/
def commitSnapshotDir (store : SnapshotStore α δ) (project : String) (code : Tree α) (digest : δ)
    (published : Bool) : Except CaptureError δ × SnapshotStore α δ :=
  match store.validate sha256 resolves digest with
  | some _ => (.ok digest, store.setLatest project digest)
  | none =>
    if published then
      (.ok digest,
        { store with objects := Function.update store.objects digest (some code) }.setLatest
          project digest)
    else (.error .publishFailed, store.quarantine sha256 resolves digest)

/-- `capture_snapshot`; `dry` and `copy` are the exit codes of the two rsync runs. -/
def captureSnapshot (excludes : Filter) (store : SnapshotStore α δ) (project : String)
    (source : Tree α) (dry copy : Nat) (published : Bool) :
    Except CaptureError δ × SnapshotStore α δ :=
  let full (store : SnapshotStore α δ) : Except CaptureError δ × SnapshotStore α δ :=
    if copy ≠ 0 then (.error .copyFailed, store)
    else match fullCapture sha256 resolves excludes source with
      | .error e => (.error (.hashFailed e), store)
      | .ok digest =>
        commitSnapshotDir sha256 resolves store project (source.visible excludes) digest published
  match store.latest project with
  | none => full store
  | some digest =>
    match store.validate sha256 resolves digest with
    | none => full (store.quarantine sha256 resolves digest)
    | some baseline =>
      if sourceMatchesBaseline excludes source baseline dry then
        (.ok digest, store.setLatest project digest)
      else full store

end

/-! ## When the fast path is exact -/

section
variable {excludes : Filter} {source baseline t : Tree α}

theorem Tree.eq_of_path {a b : Entry α} (ha : a ∈ t.entries) (hb : b ∈ t.entries)
    (h : a.path = b.path) : a = b :=
  List.inj_on_of_nodup_map t.nodup ha hb h

theorem mem_listing {path : Path} {node : Node} :
    (path, node) ∈ t.listing ↔ ∃ e ∈ t.entries, e.path = path ∧ e.node = node := by
  simp [Tree.listing]

theorem Tree.listing_nodup (t : Tree α) : (t.listing.map Prod.fst).Nodup := by
  have hpaths : t.listing.map Prod.fst = t.entries.map Entry.path := by simp [Tree.listing]
  rw [hpaths]
  exact t.nodup

/-- The visible part of the source is what the baseline holds outside its hidden paths. -/
structure SameVisible (excludes : Filter) (source baseline : Tree α) : Prop where
  sent : ∀ e ∈ (source.visible excludes).entries, e ∈ baseline.entries
  kept : ∀ e ∈ baseline.entries, hidden excludes baseline e.path = false →
    e.path ∈ (source.visible excludes).entries.map Entry.path

theorem itemize_eq_nil [DecidableEq α] :
    itemize excludes source baseline = [] ↔ SameVisible excludes source baseline := by
  unfold itemize
  rw [List.append_eq_nil_iff, List.map_eq_nil_iff, List.map_eq_nil_iff, List.filter_eq_nil_iff,
    List.filter_eq_nil_iff]
  constructor
  · rintro ⟨hsent, hkept⟩
    refine ⟨fun e he => by simpa using hsent e he, fun e he hvis => ?_⟩
    by_contra hmissing
    exact hkept e he (by simp only [hmissing, hvis]; rfl)
  · rintro ⟨hsent, hkept⟩
    refine ⟨fun e he => by simpa using hsent e he, fun e he hdel => ?_⟩
    simp only [Bool.and_eq_true, decide_eq_true_eq, Bool.not_eq_true'] at hdel
    exact hdel.1 (hkept e he hdel.2)

/-- A baseline without hidden paths holds exactly what a capture would send. -/
theorem SameVisible.perm (h : SameVisible excludes source baseline)
    (hclean : ∀ e ∈ baseline.entries, hidden excludes baseline e.path = false) :
    baseline.listing.Perm (source.visible excludes).listing := by
  refine List.Perm.map _ ((List.perm_ext_iff_of_nodup (List.Nodup.of_map _ baseline.nodup)
    (List.Nodup.of_map _ (source.visible excludes).nodup)).mpr fun e => ⟨fun he => ?_, h.sent e⟩)
  obtain ⟨v, hv, hpath⟩ := List.mem_map.mp (h.kept e he (hclean e he))
  exact baseline.eq_of_path (h.sent v hv) he hpath ▸ hv

theorem isDirAt_of_mem {e : Entry α} (he : e ∈ t.entries) : t.isDirAt e.path = e.node.isDir := by
  unfold Tree.isDirAt
  cases hdir : e.node.isDir with
  | true => exact List.any_eq_true.mpr ⟨e, he, by simp [hdir]⟩
  | false =>
    refine List.any_eq_false.mpr fun d hd => ?_
    by_cases hpath : d.path = e.path
    · simp [t.eq_of_path hd he hpath, hdir]
    · simp [hpath]

/-- On a path of the tree, and on the directories above it, the filter sees entries of the tree. -/
theorem mem_of_prefix {e : Entry α} (he : e ∈ t.entries) {q : Path} (hq : q ≠ [])
    (hpre : q <+: e.path) : ∃ d ∈ t.entries, d.path = q := by
  by_cases heq : q = e.path
  · exact ⟨e, he, heq.symm⟩
  · obtain ⟨d, hd, hpath, -⟩ := t.closed e he q hq hpre heq
    exact ⟨d, hd, hpath⟩

/-- When both trees hold the same entries, no path of the baseline is hidden. -/
theorem not_hidden_of_perm (h : baseline.listing.Perm (source.visible excludes).listing)
    {e : Entry α} (he : e ∈ baseline.entries) : hidden excludes baseline e.path = false := by
  have hmem : (e.path, e.node) ∈ (source.visible excludes).listing :=
    h.mem_iff.mp (mem_listing.mpr ⟨e, he, rfl, rfl⟩)
  obtain ⟨v, hv, hpath, -⟩ := mem_listing.mp hmem
  obtain ⟨hvs, hvis⟩ := mem_visible.mp hv
  rw [← hpath]
  refine List.any_eq_false.mpr fun q hq => ?_
  have hpre : q <+: v.path := (List.mem_inits _ _).mp hq
  have hsource := List.any_eq_false.mp hvis q hq
  by_cases hne : q = []
  · simp [hne]
  · obtain ⟨d, hd, rfl⟩ := mem_of_prefix hv hne hpre
    have hds := (mem_visible.mp hd).1
    obtain ⟨b, hb, hbpath, hbnode⟩ := mem_listing.mp (h.mem_iff.mpr
      (mem_listing.mpr ⟨d, hd, rfl, rfl⟩ : (d.path, d.node) ∈ _))
    have hdirs : baseline.isDirAt d.path = source.isDirAt d.path := by
      rw [isDirAt_of_mem hds, ← hbpath, isDirAt_of_mem hb, hbnode]
    rw [hdirs]
    exact hsource

theorem masked_full (node : Node) : node.masked 0o7777 = node := by
  have hmode : ∀ mode : Mode, mode &&& 0o7777 = mode := fun mode => by
    apply Fin.ext
    have hlow : mode.val &&& (2 ^ 12 - 1) = mode.val % 2 ^ 12 := Nat.and_two_pow_sub_one_eq_mod _ _
    rw [Fin.and_val]
    exact hlow.trans (Nat.mod_eq_of_lt mode.isLt)
  cases node <;> simp [Node.masked, hmode]

variable {sha256 : Bytes → δ} {resolves : Resolves} {digest : δ}

/-- SHA-256 keeps the streams of two trees apart. -/
def NoCollision (sha256 : Bytes → δ) (resolves : Resolves) (l l' : Listing) : Prop :=
  ∀ s s', treeStream resolves snapshotSchema 0o7777 l = .ok s →
    treeStream resolves snapshotSchema 0o7777 l' = .ok s' → sha256 s = sha256 s' → s = s'

/-- Equal tree hashes come from the same entries. -/
theorem perm_of_treeSha256 {l l' : Listing} (hsha : NoCollision sha256 resolves l l')
    (h : treeSha256 sha256 resolves l = .ok digest)
    (h' : treeSha256 sha256 resolves l' = .ok digest) : l.Perm l' := by
  unfold treeSha256 at h h'
  cases hs : treeStream resolves snapshotSchema 0o7777 l with
  | error e =>
    rw [hs] at h
    cases h
  | ok s =>
    cases hs' : treeStream resolves snapshotSchema 0o7777 l' with
    | error e =>
      rw [hs'] at h'
      cases h'
    | ok s' =>
      rw [hs] at h
      rw [hs'] at h'
      have hsame : s = s' :=
        hsha s s' hs hs' ((Except.ok.inj h).trans (Except.ok.inj h').symm)
      have hperm := treeStream_inj hs (hsame ▸ hs')
      simpa [masked_full] using hperm

variable [DecidableEq δ] {store : SnapshotStore α δ} {project : String}

/-- A valid last snapshot of a project. -/
structure ValidBaseline (sha256 : Bytes → δ) (resolves : Resolves) (store : SnapshotStore α δ)
    (project : String) (digest : δ) (baseline : Tree α) : Prop where
  latest : store.latest project = some digest
  valid : store.validate sha256 resolves digest = some baseline

theorem ValidBaseline.hash (h : ValidBaseline sha256 resolves store project digest baseline) :
    treeSha256 sha256 resolves baseline.listing = .ok digest := by
  have hvalid := h.valid
  rw [SnapshotStore.validate, Option.filter_eq_some_iff] at hvalid
  simpa using hvalid.2

variable [DecidableEq α]

theorem captureSnapshot_reused (hb : ValidBaseline sha256 resolves store project digest baseline)
    {dry copy : Nat} {published : Bool}
    (h : sourceMatchesBaseline excludes source baseline dry = true) :
    captureSnapshot sha256 resolves excludes store project source dry copy published =
      (.ok digest, store.setLatest project digest) := by
  unfold captureSnapshot
  simp only [hb.latest, hb.valid, h, if_true]

/-- A reused snapshot has the digest of a full capture exactly when it holds no path that the
exclude list hides, whenever the dry run finds nothing to change. -/
theorem reuse_exact_iff (hb : ValidBaseline sha256 resolves store project digest baseline)
    (hsha : NoCollision sha256 resolves baseline.listing (source.visible excludes).listing)
    (dry copy : Nat) (published : Bool) :
    (sourceMatchesBaseline excludes source baseline dry = true →
      ∃ d, (captureSnapshot sha256 resolves excludes store project source dry copy published).1 =
          .ok d ∧ fullCapture sha256 resolves excludes source = .ok d) ↔
    (dry = 0 → SameVisible excludes source baseline →
      ∀ e ∈ baseline.entries, hidden excludes baseline e.path = false) := by
  have hmatch : sourceMatchesBaseline excludes source baseline dry = true ↔
      dry = 0 ∧ SameVisible excludes source baseline := by
    unfold sourceMatchesBaseline
    rw [Bool.and_eq_true, decide_eq_true_eq, List.isEmpty_iff, itemize_eq_nil]
  constructor
  · intro hexact hdry hsame e he
    have h := hmatch.mpr ⟨hdry, hsame⟩
    obtain ⟨d, hreused, hfull⟩ := hexact h
    rw [captureSnapshot_reused hb h] at hreused
    cases hreused
    exact not_hidden_of_perm (perm_of_treeSha256 hsha hb.hash hfull) he
  · intro hclean h
    obtain ⟨hdry, hsame⟩ := hmatch.mp h
    refine ⟨digest, by rw [captureSnapshot_reused hb h], ?_⟩
    have hperm := hsame.perm (hclean hdry hsame)
    have hstream : treeStream resolves snapshotSchema 0o7777 _ =
        treeStream resolves snapshotSchema 0o7777 _ :=
      treeStream_congr baseline.listing_nodup hperm
    rw [← hb.hash, fullCapture, treeSha256, treeSha256, hstream]

end

/-! ## A snapshot that was taken under a shorter exclude list -/

def namePy : Name := ⟨[97, 46, 112, 121], by decide, by decide⟩
def nameKey : Name := ⟨[107, 101, 121], by decide, by decide⟩

/-- A project with a program `a.py` and a file `key`. -/
def sampleTree : Tree Unit where
  entries := [⟨[namePy], .file 0o644 [112], ()⟩, ⟨[nameKey], .file 0o600 [115], ()⟩]
  nodup := by decide
  nonroot := by decide
  closed e he q hq hpre hne := by
    have hone : ∃ name, e.path = [name] := by
      rcases List.mem_cons.mp he with rfl | h
      · exact ⟨namePy, rfl⟩
      · exact ⟨nameKey, by rw [List.mem_singleton.mp h]⟩
    obtain ⟨name, hname⟩ := hone
    rw [hname] at hpre hne
    rcases List.prefix_cons_iff.mp hpre with rfl | ⟨rest, rfl, hrest⟩
    · exact absurd rfl hq
    · rw [List.prefix_nil.mp hrest] at hne
      exact absurd rfl hne

/-- The digest of `sampleTree` under a hash that is the identity. -/
def sampleStream : Bytes :=
  snapshotSchema ++ (Fields.encode ⟨kindFile, 0o644, [97, 46, 112, 121], [112]⟩ ++
    Fields.encode ⟨kindFile, 0o600, [107, 101, 121], [115]⟩)

def sampleStore : SnapshotStore Unit Bytes where
  objects digest := if digest = sampleStream then some sampleTree else none
  latest _ := some sampleStream

theorem sampleStore_valid :
    ValidBaseline id (fun _ _ _ => true) sampleStore "demo" sampleStream sampleTree := by
  have hhash : treeSha256 id (fun _ _ _ => true) sampleTree.listing = .ok sampleStream := by
    decide +kernel
  exact ⟨rfl, by simp [SnapshotStore.validate, sampleStore, hhash]⟩

/-- Nothing is hidden by an empty list. -/
theorem reuse_exact_iff_sample :
    ∃ d, (captureSnapshot id (fun _ _ _ => true) (fun _ _ => false) sampleStore "demo" sampleTree
        0 0 true).1 = .ok d ∧
      fullCapture id (fun _ _ _ => true) (fun _ _ => false) sampleTree = .ok d :=
  (reuse_exact_iff sampleStore_valid (fun _ _ _ _ h => h) 0 0 true).mpr
    (fun _ _ e _ => by simp [hidden]) (by decide)

/-- `--exclude key` was added after the snapshot was taken: the dry run is quiet, and the reused
snapshot still holds `key`. -/
theorem reuse_keeps_excluded :
    ¬ ∀ (excludes : Filter) (store : SnapshotStore Unit Bytes) (source baseline : Tree Unit)
        (digest : Bytes),
      ValidBaseline id (fun _ _ _ => true) store "demo" digest baseline →
      sourceMatchesBaseline excludes source baseline 0 = true →
      ∃ d, (captureSnapshot id (fun _ _ _ => true) excludes store "demo" source 0 0 true).1 = .ok d ∧
        fullCapture id (fun _ _ _ => true) excludes source = .ok d := by
  intro h
  obtain ⟨d, hreused, hfull⟩ := h (fun q _ => q = [nameKey]) sampleStore sampleTree sampleTree
    sampleStream sampleStore_valid (by decide)
  have hd : d = sampleStream := by
    rw [captureSnapshot_reused sampleStore_valid (by decide)] at hreused
    exact (Except.ok.inj hreused).symm
  rw [hd] at hfull
  exact absurd hfull (by decide +kernel)

end Dt.Snapshot
