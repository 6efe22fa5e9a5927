import Dt.Jobs.Registry

/-!
# The active index

A derived list of the jobs that scheduling has to look at, stored next to the registry with the
revisions of the registry directories it was built from. It is used only while these revisions
are the current ones; otherwise readers scan the registry again.

The revision of a directory is a stamp that grows with every change of the directory (its ctime);
`0` stands for a directory that does not exist.
-/

namespace Dt.Jobs

open Dt.Lib

structure RegistryDamage where
  path : String
  detail : String
  deriving DecidableEq, Repr

abbrev Revisions := List Nat

/-- The stored index document. -/
structure ActiveIndex where
  revisions : Revisions
  jobIds : List JobId
  damage : List RegistryDamage
  deriving DecidableEq, Repr

/-- The registry and its index on disk. -/
structure Disk where
  files : Registry
  stamp : Layout → Nat
  index : Option ActiveIndex

def maxActiveIndexItems : Nat := 200000

/-- `_registry_directory_revisions`: the legacy directory first, then the current one. -/
def registryDirectoryRevisions (cfg : HeadConfig) (k : Disk) : Revisions :=
  match cfg.layout with
  | .legacy => [k.stamp .legacy]
  | .role => [k.stamp .legacy, k.stamp .role]

/-- The derived index, only when its directory revisions still match. -/
def readActiveIndex (cfg : HeadConfig) (k : Disk) : Option ActiveIndex :=
  match k.index with
  | none => none
  | some i =>
    if i.revisions ≠ registryDirectoryRevisions cfg k then none
    else if maxActiveIndexItems < i.jobIds.length || i.jobIds.any (!validJobId ·) ||
        !decide i.jobIds.Nodup || maxActiveIndexItems < i.damage.length then none
    else some { i with
      jobIds := i.jobIds.insertionSort (· ≤ ·)
      damage := i.damage.map fun x =>
        { x with detail := diagnosticExcerpt maxJobDiagnosticChars x.detail } }

/-- The document `_write_active_index` publishes, unless it exceeds its item limit. -/
def indexDocument (revisions : Revisions) (jobIds : List JobId) (damage : List RegistryDamage) :
    Option ActiveIndex :=
  if maxActiveIndexItems < jobIds.length || maxActiveIndexItems < damage.length then none
  else some
    { revisions := revisions
      jobIds := jobIds.insertionSort (· ≤ ·)
      damage := damage.map fun x =>
        { x with detail := diagnosticExcerpt maxJobDiagnosticChars x.detail } }

/-- The row change an incremental update accounts for. -/
inductive RowChange where
  | saved (doc : JobEntry)
  | removed (id : JobId)

def RowChange.jobId : RowChange → JobId
  | .saved doc => doc.jobId
  | .removed id => id

/-- The job ids of an index after one row change at time `now`. -/
def refreshedIds (ids : List JobId) (now : Time) : RowChange → List JobId
  | .removed id => ids.filter (· ≠ id)
  | .saved doc =>
    if activeIndexMember doc now then
      if doc.jobId ∈ ids then ids else doc.jobId :: ids
    else ids.filter (· ≠ doc.jobId)

/-- `_refresh_active_index_after_mutation`: the document it writes over a previous index. -/
def refreshActiveIndex (revisions : Revisions) (previous : ActiveIndex) (now : Time)
    (change : RowChange) : Option ActiveIndex :=
  indexDocument revisions (refreshedIds previous.jobIds now change)
    (previous.damage.filter fun x => x.path ≠ change.jobId ++ ".json")

/-- What a scan makes of one name: `_stream_active_registry` keeps no private values, and reports
a name that exists twice, or whose row fails, as damage. -/
def streamEntry (cfg : HeadConfig) (r : Registry) (id : JobId) : Except String JobEntry :=
  match registryLocations cfg r id with
  | [] => .error ("registry record disappeared: " ++ id ++ ".json")
  | [d] => decodeEntryResult false r d id
  | ds => .error ("split-brain registry row: exists in " ++
      ", ".intercalate (ds.reverse.map cfg.dirPath) ++ "; run dt migrate to reconcile")

/-- `active_entries` on the rebuild path: a full scan at once. -/
def scanActive (cfg : HeadConfig) (r : Registry) (now : Time) : List JobEntry :=
  ((registryRows cfg r).filter (activeIndexMember · now)).insertionSort fun a b =>
    a.jobId ≤ b.jobId

/-- The rows of the indexed jobs; `none` when one of them cannot be loaded. -/
def loadIndexed (cfg : HeadConfig) (r : Registry) : List JobId → Option (List JobEntry)
  | [] => some []
  | id :: ids =>
    match load cfg r id with
    | .error _ => none
    | .ok none => none
    | .ok (some e) => (loadIndexed cfg r ids).map (e :: ·)

/-- `active_entries`: the indexed rows, or a scan when the index or one of its rows fails. -/
def activeEntries (cfg : HeadConfig) (k : Disk) (now : Time) : List JobEntry :=
  match readActiveIndex cfg k with
  | none => scanActive cfg k.files now
  | some i =>
    match loadIndexed cfg k.files i.jobIds with
    | none => scanActive cfg k.files now
    | some es => es.filter (activeIndexMember · now)

/-! ## Exactness of the fast path -/

/-- No row that is active at `now` is missing from the ids. -/
def Covers (cfg : HeadConfig) (r : Registry) (now : Time) (ids : List JobId) : Prop :=
  ∀ id e, row cfg r id = some e → activeIndexMember e now = true → id ∈ ids

theorem Covers.mono {cfg : HeadConfig} {r : Registry} {t t' : Time} {ids ids' : List JobId}
    (h : Covers cfg r t ids) (ht : t ≤ t') (hids : ∀ id ∈ ids, id ∈ ids') :
    Covers cfg r t' ids' :=
  fun id e hr hm => hids id (h id e hr (activeIndexMember_anti ht hm))

theorem row_of_load {cfg : HeadConfig} {r : Registry} {id : JobId} {e : JobEntry}
    (h : load cfg r id = .ok (some e)) : row cfg r id = some e := by
  simp [row, h, Except.toOption]

/-- A scan sees every row a reader can load, with the same membership. -/
theorem streamEntry_of_row {cfg : HeadConfig} {r : Registry} {id : JobId} {e : JobEntry}
    (h : row cfg r id = some e) :
    ∃ e', streamEntry cfg r id = .ok e' ∧
      ∀ now, activeIndexMember e' now = activeIndexMember e now := by
  obtain ⟨d, hd, hr⟩ := row_eq_some h
  obtain ⟨doc, mtime, hl, hdec⟩ := readEntryPath_ok.mp hr
  obtain ⟨e', he', hm⟩ := decodeEntry_public hdec
  refine ⟨e', ?_, hm⟩
  have hloc : registryLocations cfg r id = [d] := resolve_ok hd
  simp only [streamEntry, hloc]
  exact decodeEntryResult_ok.mpr ⟨doc, mtime, hl, he'⟩

theorem loadIndexed_some {cfg : HeadConfig} {r : Registry} {ids : List JobId}
    {es : List JobEntry} (h : loadIndexed cfg r ids = some es) :
    es.map (·.jobId) = ids ∧ ∀ e ∈ es, row cfg r e.jobId = some e := by
  induction ids generalizing es with
  | nil =>
    simp only [loadIndexed, Option.some.injEq] at h
    subst h
    simp
  | cons id ids ih =>
    simp only [loadIndexed] at h
    split at h
    · cases h
    · cases h
    · rename_i e he
      obtain ⟨es', hes', rfl⟩ := Option.map_eq_some_iff.mp h
      obtain ⟨h₁, h₂⟩ := ih hes'
      have hid := row_jobId (row_of_load he)
      refine ⟨by simp [h₁, hid], fun e' he' => ?_⟩
      rcases List.mem_cons.mp he' with rfl | he'
      · rw [hid]
        exact row_of_load he
      · exact h₂ e' he'

theorem readActiveIndex_some {cfg : HeadConfig} {k : Disk} {i : ActiveIndex}
    (h : readActiveIndex cfg k = some i) :
    ∃ j, k.index = some j ∧ j.revisions = registryDirectoryRevisions cfg k ∧
      i.revisions = j.revisions ∧ i.jobIds.Nodup ∧ ∀ id, id ∈ i.jobIds ↔ id ∈ j.jobIds := by
  unfold readActiveIndex at h
  split at h
  · cases h
  · rename_i j hj
    split at h
    · cases h
    · rename_i hrev
      split at h
      · cases h
      · rename_i hok
        simp only [Option.some.injEq] at h
        subst h
        simp only [Bool.or_eq_true, Bool.not_eq_true', decide_eq_false_iff_not, not_or,
          not_not] at hok
        exact ⟨j, hj, not_not.mp hrev, rfl,
          (List.perm_insertionSort _ _).nodup_iff.mpr hok.1.2,
          fun id => (List.perm_insertionSort _ _).mem_iff⟩

/-- Rows that cover the index are exactly the active rows of a scan. -/
theorem activeEntries_perm {cfg : HeadConfig} {k : Disk} {now : Time} {i : ActiveIndex}
    (hi : readActiveIndex cfg k = some i) (hc : Covers cfg k.files now i.jobIds) :
    (activeEntries cfg k now).Perm
      ((registryRows cfg k.files).filter (activeIndexMember · now)) := by
  unfold activeEntries
  rw [hi]
  dsimp only
  split
  · exact List.perm_insertionSort _ _
  · rename_i es hes
    obtain ⟨hids, hrows⟩ := loadIndexed_some hes
    obtain ⟨j, -, -, -, hnd, -⟩ := readActiveIndex_some hi
    have hes_nodup : es.Nodup := List.Nodup.of_map (·.jobId) (hids ▸ hnd)
    refine (List.perm_ext_iff_of_nodup (hes_nodup.filter _)
      ((registryRows_nodup cfg k.files).filter _)).mpr fun e => ?_
    simp only [List.mem_filter, mem_registryRows]
    constructor
    · rintro ⟨he, hm⟩
      exact ⟨hrows e he, hm⟩
    · rintro ⟨hr, hm⟩
      refine ⟨?_, hm⟩
      -- the index lists the job, and what was loaded for it is the same row
      have hmem : e.jobId ∈ es.map (·.jobId) := hids ▸ hc e.jobId e hr hm
      obtain ⟨e', he', hid⟩ := List.mem_map.mp hmem
      have := hrows e' he'
      rw [hid, hr, Option.some.injEq] at this
      exact this ▸ he'

end Dt.Jobs
