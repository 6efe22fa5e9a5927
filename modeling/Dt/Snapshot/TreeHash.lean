import Mathlib.Data.List.Lex
import Mathlib.Data.List.Sort
import Mathlib.Data.List.Nodup
import Dt.Lib.Framed

/-!
# Identity of a file tree

`_tree_digest` hashes the entries of a tree in the order of their paths: kind, mode, path and the
content or the link target, each behind its length. Times and owners are not part of it. Entries
that break a rule of snapshots (budgets, links that leave the root, special files) refuse the tree.
-/

namespace Dt.Snapshot

open Dt.Lib

abbrev Bytes := List UInt8

/-- One component of a relative path. -/
structure Name where
  bytes : Bytes
  ne_nil : bytes ≠ []
  noSlash : 47 ∉ bytes
  deriving DecidableEq

abbrev Path := List Name

/-- `os.fsencode(relative_path.as_posix())` -/
def posix : Path → Bytes
  | [] => []
  | [name] => name.bytes
  | name :: rest => name.bytes ++ 47 :: posix rest

/-- `stat.S_IMODE` -/
abbrev Mode := Fin 4096

instance modeSize : NeZero 4096 := ⟨by decide⟩

/-- What `lstat` finds at a path, with the bytes behind it. -/
inductive Node where
  | dir (mode : Mode)
  | file (mode : Mode) (content : Bytes)
  | link (target : Bytes)
  | special (mode : Mode)
  deriving DecidableEq

def Node.isDir : Node → Bool
  | .dir _ => true
  | _ => false

abbrev Listing := List (Path × Node)

/-- `MAX_SNAPSHOT_ENTRIES` and the other budgets. -/
def maxEntries : Nat := 2000000
def maxBytes : Nat := 1 <<< 40
def maxDepth : Nat := 256
def maxPathBytes : Nat := 4096

inductive PolicyError where
  | entryBudget
  | depth (path : Path)
  | pathBytes (path : Path)
  | byteBudget
  | absoluteTarget (path : Path)
  | brokenLink (path : Path)
  | longTarget (path : Path)
  | unsupported (path : Path)
  deriving DecidableEq

/-- `resolves tree path target` says whether `target`, read from the directory of `path`, is an
existing path under the root of the tree. -/
abbrev Resolves := (Path → Option Node) → Path → Bytes → Bool

def kindDir : UInt8 := 100
def kindFile : UInt8 := 102
def kindLink : UInt8 := 108

/-- What one entry adds to the digest: kind, masked mode, path and payload. -/
structure Fields where
  kind : UInt8
  mode : Nat
  relative : Bytes
  payload : Bytes
  deriving DecidableEq

def Fields.encode (f : Fields) : Bytes :=
  f.kind :: (bigEndian 4 f.mode ++ sized 8 f.relative ++ sized 8 f.payload)

/-- The permission bits that `lstat` reports for a link. -/
def linkMode : Mode := 0o777

/-- The fields of an entry under a mode mask; special files have none. -/
def fields (mask : Mode) (path : Path) : Node → Option Fields
  | .dir mode => some ⟨kindDir, (mode &&& mask).val, posix path, []⟩
  | .file mode content => some ⟨kindFile, (mode &&& mask).val, posix path, content⟩
  | .link target => some ⟨kindLink, (linkMode &&& mask).val, posix path, target⟩
  | .special _ => none

section
variable (resolves : Resolves) (mask : Mode) (tree : Path → Option Node)

/-- The checks of the loop on one entry; `total` counts the bytes of the regular files so far. -/
def checkEntry (total : Nat) (path : Path) (node : Node) : Except PolicyError Nat :=
  if path.length > maxDepth then .error (.depth path)
  else if (posix path).length > maxPathBytes then .error (.pathBytes path)
  else match node with
    | .dir _ => .ok total
    | .file _ content =>
      if total + content.length > maxBytes then .error .byteBudget else .ok (total + content.length)
    | .link target =>
      if target.head? = some 47 then .error (.absoluteTarget path)
      else if resolves tree path target = false then .error (.brokenLink path)
      else if target.length > maxPathBytes then .error (.longTarget path)
      else .ok total
    | .special _ => .error (.unsupported path)

/-- The loop over the sorted entries. -/
def streamFrom : Nat → Listing → Except PolicyError Bytes
  | _, [] => .ok []
  | total, (path, node) :: rest =>
    match checkEntry resolves tree total path node with
    | .error e => .error e
    | .ok total' =>
      match streamFrom total' rest with
      | .error e => .error e
      | .ok tail => .ok ((fields mask path node).elim [] Fields.encode ++ tail)

end

/-- The sort key of an entry. -/
def sortKey (entry : Path × Node) : List Nat := (posix entry.1).map UInt8.toNat

def PathLe (a b : Path × Node) : Prop := sortKey a ≤ sortKey b

instance : DecidableRel PathLe := fun a b => inferInstanceAs (Decidable (sortKey a ≤ sortKey b))

def sortEntries (listing : Listing) : Listing := listing.insertionSort PathLe

/-- What `_tree_digest` feeds to SHA-256; `listing` holds the entries as the walk finds them. -/
def treeStream (resolves : Resolves) (schema : Bytes) (mask : Mode) (listing : Listing) :
    Except PolicyError Bytes :=
  if listing.length > maxEntries then .error .entryBudget
  else (streamFrom resolves mask (listing.lookup ·) 0 (sortEntries listing)).map (schema ++ ·)

/-- `b"dt-snapshot-tree-v1\\0"` and `b"dt-artifact-tree-v1\\0"` -/
def snapshotSchema : Bytes :=
  [100, 116, 45, 115, 110, 97, 112, 115, 104, 111, 116, 45, 116, 114, 101, 101, 45, 118, 49, 0]
def artifactSchema : Bytes :=
  [100, 116, 45, 97, 114, 116, 105, 102, 97, 99, 116, 45, 116, 114, 101, 101, 45, 118, 49, 0]

/-- `ARTIFACT_MODE_MASK` ignores the write bits. -/
def artifactMask : Mode := 0o7555

/-- `tree_sha256` -/
def treeSha256 {δ : Type} (sha256 : Bytes → δ) (resolves : Resolves) (listing : Listing) :
    Except PolicyError δ :=
  (treeStream resolves snapshotSchema 0o7777 listing).map sha256

/-- `artifact_tree_sha256` -/
def artifactTreeSha256 {δ : Type} (sha256 : Bytes → δ) (resolves : Resolves) (listing : Listing) :
    Except PolicyError δ :=
  (treeStream resolves artifactSchema artifactMask listing).map sha256

/-! ## Paths -/

theorem posix_cons_cons (name other : Name) (rest : Path) :
    posix (name :: other :: rest) = name.bytes ++ 47 :: posix (other :: rest) := rfl

theorem posix_ne_nil {name : Name} {rest : Path} : posix (name :: rest) ≠ [] := by
  cases rest with
  | nil => exact name.ne_nil
  | cons other rest =>
    rw [posix_cons_cons]
    exact List.append_ne_nil_of_left_ne_nil name.ne_nil _

theorem Name.ext_bytes {a b : Name} (h : a.bytes = b.bytes) : a = b := by
  cases a
  cases b
  cases h
  rfl

theorem posix_inj : ∀ {p q : Path}, posix p = posix q → p = q
  | [], [], _ => rfl
  | [], _ :: _, h => absurd h.symm posix_ne_nil
  | _ :: _, [], h => absurd h posix_ne_nil
  | [a], [b], h => by rw [Name.ext_bytes h]
  | [a], b :: c :: rest, h => by
    rw [posix_cons_cons] at h
    have hname : a.bytes = b.bytes ++ 47 :: posix (c :: rest) := h
    exact absurd (hname ▸ (by simp)) a.noSlash
  | a :: c :: rest, [b], h => by
    rw [posix_cons_cons] at h
    have hname : b.bytes = a.bytes ++ 47 :: posix (c :: rest) := h.symm
    exact absurd (hname ▸ (by simp)) b.noSlash
  | a :: c :: rest, b :: d :: rest', h => by
    rw [posix_cons_cons, posix_cons_cons] at h
    obtain ⟨hname, hrest⟩ := marked_inj a.noSlash b.noSlash h
    rw [Name.ext_bytes hname, posix_inj hrest]

/-! ## The order of the walk -/

theorem sortKey_inj {a b : Path × Node} (h : sortKey a = sortKey b) : a.1 = b.1 :=
  posix_inj (List.map_injective_iff.mpr (fun _ _ hb => UInt8.toNat_inj.mp hb) h)

instance : Std.Total PathLe := ⟨fun a b => le_total (sortKey a) (sortKey b)⟩

instance : IsTrans (Path × Node) PathLe := ⟨fun _ _ _ hab hbc => le_trans hab hbc⟩

theorem sortEntries_perm (listing : Listing) : (sortEntries listing).Perm listing :=
  List.perm_insertionSort _ _

theorem eq_of_mem_of_nodup {listing : Listing} (hnodup : (listing.map Prod.fst).Nodup)
    {a b : Path × Node} (ha : a ∈ listing) (hb : b ∈ listing) (h : a.1 = b.1) : a = b :=
  List.inj_on_of_nodup_map hnodup ha hb h

/-- The sorted entries do not depend on the order in which the walk found them. -/
theorem sortEntries_congr {l l' : Listing} (hnodup : (l.map Prod.fst).Nodup) (h : l.Perm l') :
    sortEntries l = sortEntries l' := by
  have hperm : (sortEntries l).Perm (sortEntries l') :=
    (sortEntries_perm l).trans (h.trans (sortEntries_perm l').symm)
  have hsorted (l : Listing) : (sortEntries l).Pairwise PathLe := List.pairwise_insertionSort _ _
  refine hperm.eq_of_pairwise (fun a b ha hb hab hba => ?_) (hsorted l) (hsorted l')
  have hal : a ∈ l := (sortEntries_perm l).mem_iff.mp ha
  have hbl : b ∈ l := h.mem_iff.mpr ((sortEntries_perm l').mem_iff.mp hb)
  exact eq_of_mem_of_nodup hnodup hal hbl (sortKey_inj (le_antisymm hab hba))

theorem lookup_eq_some_iff_mem {listing : Listing} (hnodup : (listing.map Prod.fst).Nodup)
    {path : Path} {node : Node} : listing.lookup path = some node ↔ (path, node) ∈ listing := by
  induction listing with
  | nil => simp
  | cons e rest ih =>
    obtain ⟨p, n⟩ := e
    rw [List.map_cons, List.nodup_cons] at hnodup
    by_cases hp : path = p
    · subst hp
      rw [List.lookup_cons_self]
      constructor
      · rintro ⟨⟩
        exact List.mem_cons_self
      · intro h
        rcases List.mem_cons.mp h with heq | hmem
        · cases heq
          rfl
        · exact absurd (List.mem_map_of_mem hmem) hnodup.1
    · have hne : (path == p) = false := beq_false_of_ne hp
      rw [List.lookup_cons, hne, List.mem_cons, ih hnodup.2]
      constructor
      · exact .inr
      · rintro (heq | hmem)
        · exact absurd (congrArg Prod.fst heq) hp
        · exact hmem

theorem lookup_congr {l l' : Listing} (hnodup : (l.map Prod.fst).Nodup) (h : l.Perm l')
    (path : Path) : l.lookup path = l'.lookup path := by
  have hnodup' : (l'.map Prod.fst).Nodup := (h.map Prod.fst).nodup_iff.mp hnodup
  apply Option.ext
  intro node
  rw [lookup_eq_some_iff_mem hnodup, lookup_eq_some_iff_mem hnodup', h.mem_iff]

theorem treeStream_congr {resolves : Resolves} {schema : Bytes} {mask : Mode} {l l' : Listing}
    (hnodup : (l.map Prod.fst).Nodup) (h : l.Perm l') :
    treeStream resolves schema mask l = treeStream resolves schema mask l' := by
  unfold treeStream
  rw [h.length_eq, sortEntries_congr hnodup h, funext (lookup_congr hnodup h)]

/-! ## The stream determines the tree -/

/-- The number fields of an entry fit their widths. -/
structure Fields.Fits (f : Fields) : Prop where
  mode : f.mode < 256 ^ 4
  relative : f.relative.length < 256 ^ 8
  payload : f.payload.length < 256 ^ 8

theorem Fields.encode_selfDelimiting : SelfDelimiting Fields.Fits Fields.encode := by
  rintro ⟨k, m, r, p⟩ ⟨k', m', r', p'⟩ hf hg u v h
  simp only [Fields.encode, List.cons_append, List.append_assoc] at h
  obtain ⟨rfl, hrest⟩ := List.cons.inj h
  obtain ⟨hmode, hrest⟩ := List.append_inj hrest (by simp)
  obtain ⟨hrel, hrest⟩ := sized_inj hf.relative hg.relative hrest
  obtain ⟨hpay, htail⟩ := sized_inj hf.payload hg.payload hrest
  have hm : m = m' := bigEndian_inj hf.mode hg.mode hmode
  exact ⟨Fields.mk.injEq .. ▸ ⟨rfl, hm, hrel, hpay⟩, htail⟩

/-- The node with the bits outside the mask cleared. -/
def Node.masked (mask : Mode) : Node → Node
  | .dir mode => .dir (mode &&& mask)
  | .file mode content => .file (mode &&& mask) content
  | n => n

theorem fields_inj {mask : Mode} {p q : Path} {n m : Node} {f : Fields}
    (hn : fields mask p n = some f) (hm : fields mask q m = some f) :
    p = q ∧ n.masked mask = m.masked mask := by
  cases n <;> cases m <;> simp only [fields, Option.some.injEq, reduceCtorEq] at hn hm
  all_goals
    subst hn
    simp only [Fields.mk.injEq, kindDir, kindFile, kindLink] at hm
  case dir.dir =>
    exact ⟨(posix_inj hm.2.2.1).symm, by rw [Node.masked, Node.masked, Fin.ext hm.2.1]⟩
  case file.file =>
    exact ⟨(posix_inj hm.2.2.1).symm, by rw [Node.masked, Node.masked, Fin.ext hm.2.1, hm.2.2.2]⟩
  case link.link => exact ⟨(posix_inj hm.2.2.1).symm, by rw [hm.2.2.2]⟩
  all_goals exact absurd hm.1 (by decide)

/-- An entry that passes the checks has fields that fit. -/
theorem checkEntry_ok {resolves : Resolves} {tree : Path → Option Node} {mask : Mode}
    {total total' : Nat} {path : Path} {node : Node}
    (h : checkEntry resolves tree total path node = .ok total') :
    ∃ f, fields mask path node = some f ∧ f.Fits := by
  unfold checkEntry at h
  split at h
  · cases h
  · split at h
    · cases h
    · rename_i hpath
      have hrel : (posix path).length < 256 ^ 8 := by
        have hbudget : maxPathBytes = 4096 := rfl
        omega
      have hmode : ∀ m : Mode, m.val < 256 ^ 4 := fun m => by omega
      split at h
      · exact ⟨_, rfl, hmode _, hrel, by simp⟩
      · split at h
        · cases h
        · rename_i content hbytes
          have hbudget : maxBytes = 1099511627776 := rfl
          exact ⟨_, rfl, hmode _, hrel, by simp only; omega⟩
      · split at h
        · cases h
        · split at h
          · cases h
          · split at h
            · cases h
            · rename_i htarget
              have hbudget : maxPathBytes = 4096 := rfl
              exact ⟨_, rfl, hmode _, hrel, by simp only; omega⟩
      · cases h

/-- An accepted stream is made of the fields of all entries, in their order. -/
theorem streamFrom_ok {resolves : Resolves} {mask : Mode} {tree : Path → Option Node} :
    ∀ {listing : Listing} {total : Nat} {stream : Bytes},
      streamFrom resolves mask tree total listing = .ok stream →
      ∃ fs : List Fields, listing.map (fun e => fields mask e.1 e.2) = fs.map some ∧
        (∀ f ∈ fs, f.Fits) ∧ stream = fs.flatMap Fields.encode
  | [], _, stream, h => by
    cases h
    exact ⟨[], rfl, (fun _ h => nomatch h), rfl⟩
  | (path, node) :: rest, total, stream, h => by
    rw [streamFrom] at h
    split at h
    · cases h
    · rename_i total' hcheck
      split at h
      · cases h
      · rename_i tail htail
        cases h
        have hfields : ∃ f, fields mask path node = some f ∧ f.Fits := checkEntry_ok hcheck
        obtain ⟨f, hf, hfits⟩ := hfields
        obtain ⟨fs, hfs, hall, rfl⟩ := streamFrom_ok htail
        refine ⟨f :: fs, ?_, ?_, ?_⟩
        · rw [List.map_cons, List.map_cons, hfs, hf]
        · intro g hg
          rcases List.mem_cons.mp hg with rfl | hrest
          · exact hfits
          · exact hall g hrest
        · rw [hf]
          rfl

theorem treeStream_ok {resolves : Resolves} {schema : Bytes} {mask : Mode} {listing : Listing}
    {stream : Bytes} (h : treeStream resolves schema mask listing = .ok stream) :
    ∃ fs : List Fields,
      (sortEntries listing).map (fun e => fields mask e.1 e.2) = fs.map some ∧
        (∀ f ∈ fs, f.Fits) ∧ stream = schema ++ fs.flatMap Fields.encode := by
  unfold treeStream at h
  split at h
  · cases h
  · cases htail : streamFrom resolves mask (listing.lookup ·) 0 (sortEntries listing) with
    | error e =>
      rw [htail] at h
      cases h
    | ok tail =>
      rw [htail] at h
      cases h
      obtain ⟨fs, hfs, hall, rfl⟩ := streamFrom_ok htail
      exact ⟨fs, hfs, hall, rfl⟩

theorem map_eq_map_of_map_eq {α β γ : Type*} {f : α → β} {g : α → γ} :
    ∀ {l l' : List α}, l.map f = l'.map f →
      (∀ a ∈ l, ∀ b ∈ l', f a = f b → g a = g b) → l.map g = l'.map g
  | [], [], _, _ => rfl
  | [], _ :: _, h, _ => nomatch h
  | _ :: _, [], h, _ => nomatch h
  | a :: l, b :: l', h, hg => by
    rw [List.map_cons, List.map_cons] at h
    obtain ⟨hhead, htail⟩ := List.cons.inj h
    rw [List.map_cons, List.map_cons, hg a List.mem_cons_self b List.mem_cons_self hhead,
      map_eq_map_of_map_eq htail fun x hx y hy =>
        hg x (List.mem_cons_of_mem _ hx) y (List.mem_cons_of_mem _ hy)]

/-- Equal streams come from the same masked entries. -/
theorem treeStream_inj {resolves resolves' : Resolves} {schema : Bytes} {mask : Mode}
    {l l' : Listing} {stream : Bytes} (h : treeStream resolves schema mask l = .ok stream)
    (h' : treeStream resolves' schema mask l' = .ok stream) :
    (l.map fun e => (e.1, e.2.masked mask)).Perm (l'.map fun e => (e.1, e.2.masked mask)) := by
  obtain ⟨fs, hfs, hall, hstream⟩ := treeStream_ok h
  obtain ⟨fs', hfs', hall', hstream'⟩ := treeStream_ok h'
  have hsame : fs = fs' :=
    Fields.encode_selfDelimiting.flatMap (fun _ => List.cons_ne_nil _ _) hall hall'
      (List.append_cancel_left (hstream.symm.trans hstream'))
  subst hsame
  have hsorted : (sortEntries l).map (fun e => (e.1, e.2.masked mask)) =
      (sortEntries l').map fun e => (e.1, e.2.masked mask) := by
    refine map_eq_map_of_map_eq (hfs.trans hfs'.symm) fun a ha b _ hab => ?_
    have hsome : fields mask a.1 a.2 ∈ fs.map some := hfs ▸ List.mem_map_of_mem ha
    obtain ⟨f, -, hf⟩ := List.mem_map.mp hsome
    obtain ⟨hpath, hnode⟩ := fields_inj hf.symm (hab ▸ hf.symm)
    exact Prod.ext hpath hnode
  exact ((sortEntries_perm l).map _).symm.trans (hsorted ▸ (sortEntries_perm l').map _)

end Dt.Snapshot
