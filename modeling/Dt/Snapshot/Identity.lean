import Dt.Snapshot.TreeHash

/-!
# What a digest says about a tree

The stream behind a digest determines the entries of the tree up to the bits outside the mask, it
does not depend on the order of the walk, and the two kinds of stream have different headers. The
stream of an artifact ignores the write bits, so the writable source and the locked copy agree.
-/

namespace Dt.Snapshot

/-- The bits that a locked store clears. -/
def writeBits : Mode := 0o222

/-- `mode & ~0o222` -/
def dropWrite (mode : Mode) : Mode := mode &&& 0o7555

def Node.dropWrite : Node → Node
  | .dir mode => .dir (Snapshot.dropWrite mode)
  | .file mode content => .file (Snapshot.dropWrite mode) content
  | n => n

/-- The write bits of the entries that `which` selects are cleared. -/
def lock (which : Path → Bool) (entry : Path × Node) : Path × Node :=
  (entry.1, if which entry.1 then entry.2.dropWrite else entry.2)

/-- The resolution of a link does not look at the write bits of what it passes. -/
def IgnoresWriteBits (resolves : Resolves) : Prop :=
  ∀ (which : Path → Bool) (tree : Path → Option Node) (path : Path) (target : Bytes),
    resolves (fun p => (tree p).map fun node => (lock which (p, node)).2) path target =
      resolves tree path target

variable {resolves resolves' : Resolves} {which : Path → Bool}

@[simp] theorem lock_fst (entry : Path × Node) : (lock which entry).1 = entry.1 := rfl

/-- Locking clears the write bits, which the artifact mask ignores. -/
theorem dropWrite_spec (mode : Mode) :
    dropWrite mode &&& writeBits = 0 ∧ dropWrite mode &&& artifactMask = mode &&& artifactMask := by
  have hval : ∀ a b : Mode, (a &&& b).val = a.val &&& b.val := fun a b =>
    Nat.mod_eq_of_lt (Nat.lt_of_le_of_lt Nat.and_le_left a.isLt)
  constructor
  · refine Fin.ext ?_
    rw [dropWrite, hval, hval, Nat.and_assoc]
    exact Nat.and_zero _
  · refine Fin.ext ?_
    rw [dropWrite, hval, hval, hval, Nat.and_assoc]
    rfl

theorem fields_dropWrite (path : Path) (node : Node) :
    fields artifactMask path node.dropWrite = fields artifactMask path node := by
  cases node with
  | dir mode => simp only [Node.dropWrite, fields, (dropWrite_spec mode).2]
  | file mode content => simp only [Node.dropWrite, fields, (dropWrite_spec mode).2]
  | link target => rfl
  | special mode => rfl

theorem fields_lock (entry : Path × Node) :
    fields artifactMask (lock which entry).1 (lock which entry).2 =
      fields artifactMask entry.1 entry.2 := by
  unfold lock
  dsimp only
  split
  · exact fields_dropWrite entry.1 entry.2
  · rfl

/-- The checks read no write bit. -/
theorem checkEntry_lock (hbits : IgnoresWriteBits resolves) (tree : Path → Option Node)
    (total : Nat) (path : Path) (node : Node) :
    checkEntry resolves (fun p => (tree p).map fun n => (lock which (p, n)).2) total path
        (lock which (path, node)).2 =
      checkEntry resolves tree total path node := by
  unfold checkEntry
  simp only [hbits which tree]
  unfold lock
  cases which path with
  | true => cases node <;> rfl
  | false => rfl

theorem streamFrom_lock (hbits : IgnoresWriteBits resolves) (tree : Path → Option Node)
    (total : Nat) (listing : Listing) :
    streamFrom resolves artifactMask (fun p => (tree p).map fun n => (lock which (p, n)).2) total
        (listing.map (lock which)) =
      streamFrom resolves artifactMask tree total listing := by
  induction listing generalizing total with
  | nil => rfl
  | cons entry rest ih =>
    obtain ⟨path, node⟩ := entry
    have hcheck : checkEntry resolves (fun p => (tree p).map fun n => (lock which (p, n)).2) total
        (lock which (path, node)).1 (lock which (path, node)).2 =
          checkEntry resolves tree total path node := checkEntry_lock hbits tree total path node
    have hfields : fields artifactMask (lock which (path, node)).1 (lock which (path, node)).2 =
        fields artifactMask path node := fields_lock (path, node)
    rw [List.map_cons, streamFrom, streamFrom, hcheck]
    cases checkEntry resolves tree total path node with
    | error e => rfl
    | ok total' =>
      dsimp only
      rw [ih total', hfields]

theorem lookup_lock (listing : Listing) (path : Path) :
    (listing.map (lock which)).lookup path =
      (listing.lookup path).map fun node => (lock which (path, node)).2 := by
  induction listing with
  | nil => rfl
  | cons entry rest ih =>
    obtain ⟨p, node⟩ := entry
    rw [List.map_cons, List.lookup_cons, lock_fst, List.lookup_cons, ih]
    by_cases hp : path = p
    · subst hp
      simp
    · simp [beq_false_of_ne hp]

theorem sortEntries_lock (listing : Listing) :
    sortEntries (listing.map (lock which)) = (sortEntries listing).map (lock which) :=
  (List.map_insertionSort PathLe PathLe (lock which) listing fun _ _ _ _ => Iff.rfl).symm

/-- The artifact stream of a tree does not change when write bits are cleared. -/
theorem artifactStream_lock (hbits : IgnoresWriteBits resolves) (which : Path → Bool)
    (listing : Listing) :
    treeStream resolves artifactSchema artifactMask (listing.map (lock which)) =
      treeStream resolves artifactSchema artifactMask listing := by
  unfold treeStream
  rw [List.length_map, sortEntries_lock, funext (lookup_lock listing), streamFrom_lock hbits]

/-- The header of a stream is its schema. -/
theorem treeStream_schema {schema : Bytes} {mask : Mode} {listing : Listing} {stream : Bytes}
    (h : treeStream resolves schema mask listing = .ok stream) : schema <+: stream := by
  obtain ⟨fs, -, -, rfl⟩ := treeStream_ok h
  exact List.prefix_append _ _

/-- A snapshot stream is never an artifact stream. -/
theorem schemas_apart {mask mask' : Mode} {l l' : Listing} {stream : Bytes}
    (h : treeStream resolves snapshotSchema mask l = .ok stream)
    (h' : treeStream resolves' artifactSchema mask' l' = .ok stream) : False := by
  obtain ⟨tail, rfl⟩ := treeStream_schema h
  obtain ⟨tail', htail⟩ := treeStream_schema h'
  exact absurd (List.append_inj_left htail rfl) (by decide)

/-- Two trees with one stream have the same paths, kinds, masked modes, contents and link targets;
the order of the walk does not matter; the write bits do not matter to an artifact; and the digests
of snapshots and artifacts are made from different streams. -/
theorem stream_identifies_tree (resolves resolves' : Resolves) (hbits : IgnoresWriteBits resolves) :
    (∀ schema mask l l' stream, treeStream resolves schema mask l = .ok stream →
      treeStream resolves' schema mask l' = .ok stream →
        (l.map fun e => (e.1, e.2.masked mask)).Perm (l'.map fun e => (e.1, e.2.masked mask))) ∧
    (∀ schema mask l l', (l.map Prod.fst).Nodup → l.Perm l' →
      treeStream resolves schema mask l = treeStream resolves schema mask l') ∧
    (∀ which l, treeStream resolves artifactSchema artifactMask (l.map (lock which)) =
      treeStream resolves artifactSchema artifactMask l) ∧
    ∀ mask mask' l l' stream, treeStream resolves snapshotSchema mask l = .ok stream →
      treeStream resolves' artifactSchema mask' l' ≠ .ok stream :=
  ⟨fun _ _ _ _ _ h h' => treeStream_inj h h', fun _ _ _ _ hnodup h => treeStream_congr hnodup h,
    artifactStream_lock hbits, fun _ _ _ _ _ h h' => schemas_apart h h'⟩

/-- A link resolves to a path of its own directory. -/
def siblingExists : Resolves := fun tree path target =>
  if h : target ≠ [] ∧ 47 ∉ target then (tree (path.dropLast ++ [⟨target, h.1, h.2⟩])).isSome
  else false

theorem siblingExists_ignoresWriteBits : IgnoresWriteBits siblingExists := by
  intro which tree path target
  unfold siblingExists
  split
  · rw [Option.isSome_map]
  · rfl

/-- A file and a link to it, as the source has them and with the file locked. -/
theorem stream_identifies_tree_sample :
    treeStream siblingExists artifactSchema artifactMask
      (([([⟨[97], by decide, by decide⟩], .file 0o644 [104, 105]),
        ([⟨[98], by decide, by decide⟩], .link [97])] : Listing).map (lock fun _ => true)) =
    treeStream siblingExists artifactSchema artifactMask
      [([⟨[97], by decide, by decide⟩], .file 0o644 [104, 105]),
        ([⟨[98], by decide, by decide⟩], .link [97])] :=
  (stream_identifies_tree siblingExists siblingExists siblingExists_ignoresWriteBits).2.2.1 _ _

end Dt.Snapshot
