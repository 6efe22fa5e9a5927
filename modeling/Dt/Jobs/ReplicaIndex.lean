import Dt.Jobs.Store
import Dt.Lib.Machine
import Dt.Lib.Newest
import Mathlib.Data.Prod.Lex
import Mathlib.Data.String.Basic

/-!
# The artifact replica index

For every snapshot digest the head remembers which configured node of a site holds it: the newest
registry row for each digest, site and node. The answer is served from a manifest and the shard
files of one generation, as long as the manifest carries the current revisions of the registry
directories; otherwise the registry is scanned and a new generation is published.

A save or a removal advances the manifest under the lock it changes the row with. The shards hold
only the newest record of each key, so `_refresh_replica_index_after_mutation` gives up, and leaves
the manifest stale, where it would need one of the records they do not hold. `demotes` is the case
it does not give up in although it should.
-/

namespace Dt.Jobs.ReplicaIndex

open Dt.Lib

/-! ## Records -/

/-- The part of a configured node the index reads. -/
structure SiteNode where
  name : String
  site : Option String := none
  artifactSeed : Bool := true

structure SiteHead extends HeadConfig where
  nodes : List SiteNode

/-- One newest durable snapshot holder for a configured site node. -/
structure ArtifactReplicaRecord where
  digest : String
  site : String
  node : String
  jobId : JobId
  jobDir : String
  recordedAt : Time
  deriving DecidableEq, Repr

/-- Digest, site and node. -/
abbrev ReplicaKey := String × String × String

namespace ArtifactReplicaRecord

def key (r : ArtifactReplicaRecord) : ReplicaKey := (r.digest, r.site, r.node)

/-- Newer records are larger: by their time, then by their job id. -/
def rank (r : ArtifactReplicaRecord) : Lex (Time × JobId) := toLex (r.recordedAt, r.jobId)

end ArtifactReplicaRecord

/-- `_entry_replica_record`. -/
def entryReplicaRecord (cfg : SiteHead) (e : JobEntry) : Option ArtifactReplicaRecord :=
  match e.snapshotSha256 with
  | none => none
  | some digest =>
    if !hexOf 64 digest || e.node = "-" || e.jobDir = "" then none
    else match cfg.nodes.find? (·.name = e.node) with
    | none => none
    | some node =>
      match node.site with
      | none => none
      | some site =>
        if !node.artifactSeed then none
        else if orTime e.startedAt e.createdAt < 0 then none
        else some
          { digest := digest, site := site, node := node.name, jobId := e.jobId,
            jobDir := e.jobDir, recordedAt := orTime e.startedAt e.createdAt }

/-- The newest record of each key; the two levels of the source's dict are one key here. -/
abbrev Index := AList fun _ : ReplicaKey => ArtifactReplicaRecord

def replicaRecordIsNewer (candidate : ArtifactReplicaRecord)
    (prior : Option ArtifactReplicaRecord) : Bool :=
  newer ArtifactReplicaRecord.rank candidate prior

def maxReplicaIndexItems : Nat := 200000

def maxReplicaManifestBytes : Nat := 64 * 1024

def maxReplicaShardBytes : Nat := 16 * 1024 * 1024

/-- The index after one more candidate. -/
def addCandidate (idx : Index) (c : ArtifactReplicaRecord) : Index :=
  if replicaRecordIsNewer c (idx.lookup c.key) then idx.insert c.key c else idx

/-- `_build_replica_records`, over the rows in the order the scan yields them. -/
def buildReplicaRecords (cfg : SiteHead) : List JobEntry → Index → Except String Index
  | [], idx => .ok idx
  | e :: es, idx =>
    match entryReplicaRecord cfg e with
    | none => buildReplicaRecords cfg es idx
    | some c =>
      if maxReplicaIndexItems < (addCandidate idx c).entries.length then
        .error "artifact replica index exceeds its item limit"
      else buildReplicaRecords cfg es (addCandidate idx c)

/-- `iter_all`: every name that one directory alone has, if its row decodes; no private values. -/
def iterAll (cfg : HeadConfig) (r : Registry) : List JobEntry :=
  (registryIds cfg r).filterMap fun id => (streamEntry cfg r id).toOption

/-- The records of one digest in one site, by node. -/
def siteRecords (idx : Index) (digest site : String) : List ArtifactReplicaRecord :=
  ((idx.entries.map (·.2)).filter fun r => r.digest = digest && r.site = site).insertionSort
    fun a b => a.node ≤ b.node

/-! ## Files -/

/-- A shard file: the records of the digests of one bucket. -/
structure ReplicaShard where
  bucket : String
  records : List ArtifactReplicaRecord
  deriving DecidableEq, Repr

/-- The number of records and the digest of each shard file. -/
abbrev Evidence := AList fun _ : String => Nat × String

structure ReplicaManifest where
  generation : String
  itemCount : Nat
  evidence : Evidence
  revisions : Revisions

/-- What `hashlib` and `json` make of a text and of the index files. -/
structure Codec where
  /-- the hexadecimal SHA-256 of a text -/
  sha256 : String → String
  /-- the hexadecimal SHA-256 of an encoded shard -/
  shardHash : ReplicaShard → String
  shardSize : ReplicaShard → Nat
  manifestSize : ReplicaManifest → Nat

/-- The registry, the active index and the replica index on disk. -/
structure ReplicaDisk extends Disk where
  manifest : Option ReplicaManifest
  /-- the shard files of each generation -/
  shards : String → String → Option ReplicaShard

variable (cfg : SiteHead) (P : Codec)

/-- `_replica_bucket_key`: the first two digits of the hashed digest. -/
@[irreducible] def bucketKey (digest : String) : String := String.ofList ((P.sha256 digest).toList.take 2)

/-- `sorted` over the digests, and over the keys of each digest. -/
def recordLe (a b : ArtifactReplicaRecord) : Bool :=
  decide (a.digest < b.digest) || a.digest = b.digest &&
    (decide (a.site < b.site) || a.site = b.site && decide (a.node ≤ b.node))

def shardDocument (bucket : String) (idx : Index) : ReplicaShard where
  bucket := bucket
  records := (idx.entries.map (·.2)).insertionSort fun a b => recordLe a b = true

def evidenceCount (ev : Evidence) : Nat := (ev.entries.map (·.2.1)).sum

/-- The documents `_read_replica_manifest` accepts, apart from their revisions. -/
def manifestValid (m : ReplicaManifest) : Bool :=
  startsWith m.generation "g-" && hexOf 32 (String.ofList (m.generation.toList.drop 2)) &&
    decide (m.itemCount ≤ maxReplicaIndexItems) && decide (m.evidence.entries.length ≤ 256) &&
    m.evidence.entries.all (fun x => hexOf 2 x.1 && decide (x.2.1 ≤ maxReplicaIndexItems) &&
      hexOf 64 x.2.2) &&
    evidenceCount m.evidence = m.itemCount

/-- `_read_replica_manifest`: the manifest, only while its revisions are the current ones. -/
def readReplicaManifest (k : ReplicaDisk) : Option ReplicaManifest :=
  match k.manifest with
  | none => none
  | some m =>
    if maxReplicaManifestBytes < P.manifestSize m then none
    else if !manifestValid m then none
    else if m.revisions ≠ registryDirectoryRevisions cfg.toHeadConfig k.toDisk then none
    else some m

/-- A row of a shard file, as the reader accepts it. -/
def shardRowValid (bucket : String) (r : ArtifactReplicaRecord) : Bool :=
  hexOf 64 r.digest && bucketKey P r.digest = bucket &&
    cfg.nodes.any (fun n => n.site = some r.site && r.site ≠ "" && n.name = r.node) &&
    validJobId r.jobId && r.jobDir ≠ "" && decide (0 ≤ r.recordedAt)

/-- The rows of a shard file; no key comes twice. -/
def shardIndex (bucket : String) : List ArtifactReplicaRecord → Index → Option Index
  | [], idx => some idx
  | r :: rs, idx =>
    if shardRowValid cfg P bucket r && (idx.lookup r.key).isNone then
      shardIndex bucket rs (idx.insert r.key r)
    else none

/-- `_read_replica_bucket`. -/
def readReplicaBucket (k : ReplicaDisk) (m : ReplicaManifest) (bucket : String) : Option Index :=
  match m.evidence.lookup bucket with
  | none => some ∅
  | some (count, hash) =>
    match k.shards m.generation bucket with
    | none => none
    | some doc =>
      if maxReplicaShardBytes < P.shardSize doc || P.shardHash doc ≠ hash ||
          doc.bucket ≠ bucket || decide (maxReplicaIndexItems < doc.records.length) then none
      else match shardIndex cfg P bucket doc.records ∅ with
      | none => none
      | some idx => if idx.entries.length ≠ count then none else some idx

/-- The fast path of `artifact_replica_records`. -/
def indexedReplicas (k : ReplicaDisk) (digest site : String) :
    Option (List ArtifactReplicaRecord) :=
  match readReplicaManifest cfg P k with
  | none => none
  | some m =>
    match readReplicaBucket cfg P k m (bucketKey P digest) with
    | none => none
    | some idx => some (siteRecords idx digest site)

/-- `artifact_replica_records`, with the rows its scan finds, and whether the rebuilt index could
be published. -/
def artifactReplicaRecords (k : ReplicaDisk) (rows : List JobEntry) (published : Bool)
    (digest site : String) : List ArtifactReplicaRecord :=
  if !hexOf 64 digest then []
  else match indexedReplicas cfg P k digest site with
  | some rs => rs
  | none =>
    match buildReplicaRecords cfg rows ∅ with
    | .error _ => []
    | .ok idx => if published then siteRecords idx digest site else []

/-! ## Advancing the index -/

/-- The shards a refresh works on, by their bucket. -/
abbrev Buckets := String → Index

/-- `shard_for(digest).get(key)`. -/
def Buckets.get (bs : Buckets) (k : ReplicaKey) : Option ArtifactReplicaRecord :=
  (bs (bucketKey P k.1)).lookup k

def Buckets.put (bs : Buckets) (c : ArtifactReplicaRecord) : Buckets :=
  Function.update bs (bucketKey P c.digest) ((bs (bucketKey P c.digest)).insert c.key c)

def Buckets.pop (bs : Buckets) (k : ReplicaKey) : Buckets :=
  Function.update bs (bucketKey P k.1) ((bs (bucketKey P k.1)).erase k)

/-- The buckets of the digests a mutation touches. -/
def affectedBuckets (old current : Option ArtifactReplicaRecord) : List String :=
  ((old.toList ++ current.toList).map fun r => bucketKey P r.digest).dedup

/-- Every affected bucket has to be readable. -/
def loadBuckets (k : ReplicaDisk) (m : ReplicaManifest) (names : List String) : Option Buckets :=
  if names.all fun b => (readReplicaBucket cfg P k m b).isSome then
    some fun b => (readReplicaBucket cfg P k m b).getD ∅
  else none

/-- Take out the old record where it is the indexed one. Finding the next-newest holder requires
a cold scan, so without a successor of the same key there is no result. -/
def popIndexed (bs : Buckets) (old current : Option ArtifactReplicaRecord) : Option Buckets :=
  match old with
  | none => some bs
  | some o =>
    if (bs.get P o.key).any (·.jobId = o.jobId) then
      if current.any (·.key = o.key) then some (bs.pop P o.key) else none
    else some bs

def putCurrent (bs : Buckets) (current : Option ArtifactReplicaRecord) : Buckets :=
  match current with
  | none => bs
  | some c =>
    if replicaRecordIsNewer c (bs.get P c.key) || (bs.get P c.key).any (·.jobId = c.jobId) then
      bs.put P c
    else bs

/-- The evidence of the shards that are written, over what the manifest has. -/
def bucketEvidence (bs : Buckets) : List String → Evidence → Except String Evidence
  | [], ev => .ok ev
  | b :: names, ev =>
    if maxReplicaShardBytes < P.shardSize (shardDocument b (bs b)) then
      .error "artifact replica shard exceeds its size limit"
    else bucketEvidence bs names
      (ev.insert b ((bs b).entries.length, P.shardHash (shardDocument b (bs b))))

/-- The document `_write_replica_manifest` publishes. -/
def manifestDocument (generation : String) (itemCount : Int) (ev : Evidence)
    (revisions : Revisions) : Except String ReplicaManifest :=
  if !(0 ≤ itemCount && itemCount ≤ maxReplicaIndexItems) ||
      (evidenceCount ev : Int) ≠ itemCount || decide (256 < ev.entries.length) then
    .error "artifact replica manifest has invalid counts"
  else
    let m := { generation, itemCount := itemCount.toNat, evidence := ev, revisions }
    if maxReplicaManifestBytes < P.manifestSize m then
      .error "artifact replica manifest exceeds its size limit"
    else .ok m

/-- How far a refresh gets: the shard files it replaces, and whether the manifest follows. -/
structure ReplicaWrite where
  shards : String → Bool := fun _ => true
  manifest : Bool := true

/-- The shard files of a generation after the named buckets were written, as far as that went. -/
def writtenShards (bs : Buckets) (names : List String) (written : String → Bool)
    (files : String → Option ReplicaShard) (b : String) : Option ReplicaShard :=
  if b ∈ names ∧ written b ∧ P.shardSize (shardDocument b (bs b)) ≤ maxReplicaShardBytes then
    some (shardDocument b (bs b))
  else files b

def ReplicaDisk.setShards (k : ReplicaDisk) (generation : String)
    (files : String → Option ReplicaShard) : ReplicaDisk :=
  { k with shards := Function.update k.shards generation files }

/-- The second half of a refresh: the changed shards are written in place, the manifest after
them. -/
def publishRefresh (k : ReplicaDisk) (m : ReplicaManifest) (names : List String)
    (loaded bs : Buckets) (w : ReplicaWrite) : ReplicaDisk :=
  let items := (m.itemCount : Int) - (names.map fun b => (loaded b).entries.length).sum +
    (names.map fun b => (bs b).entries.length).sum
  if !(0 ≤ items && items ≤ maxReplicaIndexItems) then k
  else
    let k' := k.setShards m.generation
      (writtenShards P bs names w.shards (k.shards m.generation))
    match bucketEvidence P bs names m.evidence with
    | .error _ => k'
    | .ok ev =>
      match manifestDocument P m.generation items ev
          (registryDirectoryRevisions cfg.toHeadConfig k.toDisk) with
      | .error _ => k'
      | .ok m' => if names.all w.shards && w.manifest then { k' with manifest := some m' } else k'

/-- `_refresh_replica_index_after_mutation`: advance exact affected shards, or leave the revision
fence stale. -/
def refreshReplicaIndex (k : ReplicaDisk) (manifest : Option ReplicaManifest)
    (old current : Option ArtifactReplicaRecord) (w : ReplicaWrite) : ReplicaDisk :=
  match manifest with
  | none => k
  | some m =>
    match loadBuckets cfg P k m (affectedBuckets P old current) with
    | none => k
    | some loaded =>
      match popIndexed P loaded old current with
      | none => k
      | some bs =>
        publishRefresh cfg P k m (affectedBuckets P old current) loaded (putCurrent P bs current) w

/-- `save` with both indexes. -/
def ReplicaDisk.save (k : ReplicaDisk) (entry : JobEntry) (now : Time) (w : WriteOutcome)
    (v : ReplicaWrite) : Except String Unit × ReplicaDisk :=
  match savePrepare cfg.toHeadConfig k.files entry now with
  | .error m => (.error m, k)
  | .ok (_, doc) =>
    match k.toDisk.save cfg.toHeadConfig entry now w with
    | (.error m, disk) => (.error m, { k with toDisk := disk })
    | (.ok (), disk) =>
      (.ok (), refreshReplicaIndex cfg P { k with toDisk := disk } (readReplicaManifest cfg P k)
        ((row cfg.toHeadConfig k.files entry.jobId).bind (entryReplicaRecord cfg))
        (entryReplicaRecord cfg doc) v)

/-- `remove_record` with both indexes. -/
def ReplicaDisk.remove (k : ReplicaDisk) (id : JobId) (now : Time) (w : WriteOutcome)
    (v : ReplicaWrite) : Except String Unit × ReplicaDisk :=
  match resolveRegistryRecord cfg.toHeadConfig k.files id with
  | .error m => (.error m, k)
  | .ok none => (.ok (), k)
  | .ok (some _) =>
    match k.toDisk.remove cfg.toHeadConfig id now w with
    | (.error m, disk) => (.error m, { k with toDisk := disk })
    | (.ok (), disk) =>
      (.ok (), refreshReplicaIndex cfg P { k with toDisk := disk } (readReplicaManifest cfg P k)
        ((row cfg.toHeadConfig k.files id).bind (entryReplicaRecord cfg)) none v)

/-! ## Rebuilding -/

/-- The records of one bucket. -/
def Index.bucket (idx : Index) (b : String) : Index where
  entries := idx.entries.filter fun x => bucketKey P x.1.1 = b
  nodupKeys := List.NodupKeys.sublist List.filter_sublist idx.nodupKeys

/-- The shard files and the manifest of a new generation. -/
def rebuiltGeneration (generation : String) (records : Index) (revisions : Revisions) :
    Except String ((String → Option ReplicaShard) × ReplicaManifest) :=
  let names := (records.keys.map fun k => bucketKey P k.1).dedup
  match bucketEvidence P (records.bucket P) names ∅ with
  | .error m => .error m
  | .ok ev =>
    match manifestDocument P generation records.entries.length ev revisions with
    | .error m => .error m
    | .ok m =>
      .ok (writtenShards P (records.bucket P) names (fun _ => true) fun _ => none, m)

/-- `_publish_replica_rebuild` under the index lock: nothing once the revisions have moved. The
replaced generation is removed; one whose manifest could not be written is removed again. -/
def publishReplicaRebuild (k : ReplicaDisk) (generation : String) (records : Index)
    (revisions : Revisions) (written : Bool) : ReplicaDisk :=
  match rebuiltGeneration P generation records revisions with
  | .error _ => k
  | .ok (files, m) =>
    if registryDirectoryRevisions cfg.toHeadConfig k.toDisk ≠ revisions then k
    else if !written then k.setShards generation fun _ => none
    else
      let cleared := match k.manifest with
        | none => k
        | some old => k.setShards old.generation fun _ => none
      { cleared.setShards generation files with manifest := some m }

/-! ## The newest records of the registry -/

variable {cfg P}

/-- The records of all rows a reader can load. -/
def replicaSet (cfg : SiteHead) (r : Registry) : Set ArtifactReplicaRecord :=
  { c | ∃ id e, row cfg.toHeadConfig r id = some e ∧ entryReplicaRecord cfg e = some c }

/-- A record names its row and has a valid digest. -/
theorem entryReplicaRecord_some {e : JobEntry} {c : ArtifactReplicaRecord}
    (h : entryReplicaRecord cfg e = some c) : c.jobId = e.jobId ∧ hexOf 64 c.digest = true := by
  unfold entryReplicaRecord at h
  split at h
  · cases h
  · rename_i digest _
    split at h
    · cases h
    · rename_i hgate
      split at h
      · cases h
      · split at h
        · cases h
        · split at h
          · cases h
          · split at h
            · cases h
            · cases h
              refine ⟨rfl, ?_⟩
              by_contra hd
              exact hgate (by simp [hd])

/-- A record depends on the row's public fields only. -/
theorem entryReplicaRecord_decoded {priv : Bool} {mtime : Option Time} {id : JobId}
    {doc e : JobEntry} (h : decodeEntry priv mtime id doc = .ok e) :
    entryReplicaRecord cfg e = entryReplicaRecord cfg doc := by
  obtain ⟨-, -, env, -, -, rfl⟩ := decodeEntry_ok.mp h
  rfl

/-- One row has one record. -/
theorem replicaSet_owner (r : Registry) : ∀ c ∈ replicaSet cfg r, ∀ c' ∈ replicaSet cfg r,
    c.jobId = c'.jobId → c = c' := by
  rintro c ⟨id, e, he, hc⟩ c' ⟨id', e', he', hc'⟩ hjob
  have h₁ := (entryReplicaRecord_some hc).1.trans (row_jobId he)
  have h₂ := (entryReplicaRecord_some hc').1.trans (row_jobId he')
  obtain rfl : id = id' := h₁.symm.trans (hjob.trans h₂)
  rw [he, Option.some.injEq] at he'
  subst he'
  exact Option.some.inj (hc.symm.trans hc')

theorem replicaSet_injOn (r : Registry) :
    Set.InjOn ArtifactReplicaRecord.rank (replicaSet cfg r) := by
  intro c hc c' hc' hrank
  have hjob : c.jobId = c'.jobId := congrArg (fun x => (ofLex x).2) hrank
  exact replicaSet_owner r c hc c' hc' hjob

/-- What a scan decodes for a name has the record of its row. -/
theorem streamEntry_record {r : Registry} {id : JobId} {c : ArtifactReplicaRecord} :
    (∃ e, streamEntry cfg.toHeadConfig r id = .ok e ∧ entryReplicaRecord cfg e = some c) ↔
      ∃ e, row cfg.toHeadConfig r id = some e ∧ entryReplicaRecord cfg e = some c := by
  constructor
  · rintro ⟨e, he, hc⟩
    unfold streamEntry at he
    split at he
    · cases he
    · rename_i d hloc
      obtain ⟨doc, mtime, hl, hdec⟩ := decodeEntryResult_ok.mp he
      obtain ⟨h₁, h₂, env, h₃, h₄, -⟩ := decodeEntry_ok.mp hdec
      have hfull : decodeEntry true (some mtime) id doc =
          .ok (fillDefaults (some mtime) (boundedEntry true env doc)) :=
        decodeEntry_ok.mpr ⟨h₁, h₂, env, h₃, h₄, rfl⟩
      have hvalid : validJobId id = true := h₂ ▸ h₁
      refine ⟨_, row_of_resolve hvalid ?_ (readEntryPath_ok.mpr ⟨doc, mtime, hl, hfull⟩), ?_⟩
      · simp [resolveRegistryRecord, hvalid, hloc]
      · rw [entryReplicaRecord_decoded hfull, ← entryReplicaRecord_decoded hdec, hc]
    · cases he
  · rintro ⟨e, he, hc⟩
    obtain ⟨d, hd, hread⟩ := row_eq_some he
    obtain ⟨doc, mtime, hl, hdec⟩ := readEntryPath_ok.mp hread
    obtain ⟨e', he', -⟩ := decodeEntry_public hdec
    refine ⟨e', ?_, ?_⟩
    · simp only [streamEntry, resolve_ok hd, Option.toList_some]
      exact decodeEntryResult_ok.mpr ⟨doc, mtime, hl, he'⟩
    · rw [entryReplicaRecord_decoded he', ← entryReplicaRecord_decoded hdec, hc]

/-- The records a scan meets are those of the registry. -/
theorem mem_scan_records {r : Registry} {c : ArtifactReplicaRecord} :
    c ∈ (iterAll cfg.toHeadConfig r).filterMap (entryReplicaRecord cfg) ↔
      c ∈ replicaSet cfg r := by
  simp only [iterAll, List.mem_filterMap]
  constructor
  · rintro ⟨e, ⟨id, -, he⟩, hc⟩
    have hok : streamEntry cfg.toHeadConfig r id = .ok e := by
      cases hs : streamEntry cfg.toHeadConfig r id with
      | error m => simp [hs, Except.toOption] at he
      | ok e' =>
        simp only [hs, Except.toOption, Option.some.injEq] at he
        rw [he]
    exact ⟨id, streamEntry_record.mp ⟨e, hok, hc⟩⟩
  · rintro ⟨id, e, he, hc⟩
    obtain ⟨e', he', hc'⟩ := streamEntry_record.mpr ⟨e, he, hc⟩
    exact ⟨e', ⟨id, mem_registryIds he, by rw [he']; rfl⟩, hc'⟩

theorem addCandidate_lookup (idx : Index) (c : ArtifactReplicaRecord) (k : ReplicaKey) :
    (addCandidate idx c).lookup k = addNewest ArtifactReplicaRecord.key
      ArtifactReplicaRecord.rank (fun k => idx.lookup k) c k := by
  unfold addCandidate addNewest replicaRecordIsNewer
  split
  · rcases eq_or_ne k c.key with rfl | hk
    · rw [AList.lookup_insert, Function.update_self]
    · rw [AList.lookup_insert_ne hk, Function.update_of_ne hk]
  · rfl

/-- An index agrees with a set of records: it has the newest one of each key. -/
def Index.Of (idx : Index) (S : Set ArtifactReplicaRecord) : Prop :=
  ∀ k, Tracks ArtifactReplicaRecord.key ArtifactReplicaRecord.rank (fun k => idx.lookup k) S k

theorem Index.Of.add {idx : Index} {S : Set ArtifactReplicaRecord} (h : idx.Of S)
    (c : ArtifactReplicaRecord) : (addCandidate idx c).Of (insert c S) := by
  intro k
  exact (h k).add.congr (addCandidate_lookup idx c k) fun _ _ => Iff.rfl

/-- All candidates, without the limit on their number. -/
def addAll (idx : Index) (cs : List ArtifactReplicaRecord) : Index := cs.foldl addCandidate idx

theorem addAll_of {idx : Index} {S : Set ArtifactReplicaRecord} (h : idx.Of S)
    (cs : List ArtifactReplicaRecord) : (addAll idx cs).Of (S ∪ { c | c ∈ cs }) := by
  induction cs generalizing idx S with
  | nil =>
    have : S ∪ { c | c ∈ ([] : List ArtifactReplicaRecord) } = S := by simp
    rw [this]
    exact h
  | cons c cs ih =>
    have : S ∪ { x | x ∈ c :: cs } = insert c S ∪ { x | x ∈ cs } := by
      ext x
      show x ∈ S ∨ x ∈ c :: cs ↔ (x = c ∨ x ∈ S) ∨ x ∈ cs
      rw [List.mem_cons]
      tauto
    rw [this]
    exact ih (h.add c)

/-- The index of a registry. -/
def newestIndex (cfg : SiteHead) (r : Registry) : Index :=
  addAll ∅ ((iterAll cfg.toHeadConfig r).filterMap (entryReplicaRecord cfg))

theorem addAll_rows_of {r : Registry} {rows : List JobEntry}
    (h : rows.Perm (iterAll cfg.toHeadConfig r)) :
    (addAll ∅ (rows.filterMap (entryReplicaRecord cfg))).Of (replicaSet cfg r) := by
  have hempty : Index.Of (∅ : Index) ∅ := fun k => by simpa using tracks_empty
  have hset : (∅ : Set ArtifactReplicaRecord) ∪
      { c | c ∈ rows.filterMap (entryReplicaRecord cfg) } = replicaSet cfg r := by
    rw [Set.empty_union]
    ext c
    exact (h.filterMap _).mem_iff.trans mem_scan_records
  exact hset ▸ addAll_of hempty _

theorem newestIndex_of (r : Registry) : (newestIndex cfg r).Of (replicaSet cfg r) :=
  addAll_rows_of (List.Perm.refl _)

/-- The length of an index only grows while candidates come in. -/
theorem length_addCandidate (idx : Index) (c : ArtifactReplicaRecord) :
    idx.entries.length ≤ (addCandidate idx c).entries.length := by
  unfold addCandidate
  split
  · have hkeys : ∀ i : Index, i.entries.length = i.keys.length := fun i => by
      simp [AList.keys, List.keys]
    have hsub : idx.keys ⊆ (idx.insert c.key c).keys := fun k hk =>
      AList.mem_keys.mp ((AList.mem_insert idx).mpr (.inr (AList.mem_keys.mpr hk)))
    rw [hkeys, hkeys]
    exact (List.subperm_of_subset idx.keys_nodup hsub).length_le
  · exact le_refl _

theorem length_addAll (idx : Index) (cs : List ArtifactReplicaRecord) :
    idx.entries.length ≤ (addAll idx cs).entries.length := by
  induction cs generalizing idx with
  | nil => exact le_refl _
  | cons c cs ih => exact (length_addCandidate idx c).trans (ih _)

/-- A rebuild fails only by the number of its records. -/
theorem buildReplicaRecords_eq (rows : List JobEntry) (idx : Index)
    (h : (addAll idx (rows.filterMap (entryReplicaRecord cfg))).entries.length ≤
      maxReplicaIndexItems) :
    buildReplicaRecords cfg rows idx =
      .ok (addAll idx (rows.filterMap (entryReplicaRecord cfg))) := by
  induction rows generalizing idx with
  | nil => rfl
  | cons e rows ih =>
    unfold buildReplicaRecords
    cases hc : entryReplicaRecord cfg e with
    | none =>
      rw [List.filterMap_cons_none hc] at h ⊢
      exact ih idx h
    | some c =>
      rw [List.filterMap_cons_some hc] at h ⊢
      have hlen : (addCandidate idx c).entries.length ≤ maxReplicaIndexItems :=
        (length_addAll _ _).trans h
      dsimp only
      rw [if_neg (not_lt.mpr hlen)]
      exact ih (addCandidate idx c) h

/-! ## Indexes of a set -/

namespace Index.Of

variable {idx idx' : Index} {S : Set ArtifactReplicaRecord}

theorem mem_entries (h : idx.Of S) {k : ReplicaKey} {c : ArtifactReplicaRecord}
    (hc : ⟨k, c⟩ ∈ idx.entries) :
    Newest ArtifactReplicaRecord.key ArtifactReplicaRecord.rank S k c :=
  (h k).newest c (AList.mem_lookup_iff.mpr hc)

/-- Two indexes of one set hold the same records. -/
theorem perm (hS : Set.InjOn ArtifactReplicaRecord.rank S) (h : idx.Of S) (h' : idx'.Of S) :
    idx.entries.Perm idx'.entries := by
  refine List.lookup_ext idx.nodupKeys idx'.nodupKeys fun k c => ?_
  have heq : idx.lookup k = idx'.lookup k := (h k).eq hS (h' k)
  show c ∈ idx.lookup k ↔ c ∈ idx'.lookup k
  rw [heq]

theorem of_lookup (h : idx.Of S) (heq : ∀ k, idx'.lookup k = idx.lookup k) : idx'.Of S :=
  fun k => (h k).congr (heq k) fun _ _ => Iff.rfl

end Index.Of

/-- The records of the digests of one bucket. -/
def bucketSet (P : Codec) (S : Set ArtifactReplicaRecord) (b : String) :
    Set ArtifactReplicaRecord :=
  { c | c ∈ S ∧ bucketKey P c.digest = b }

theorem bucketSet_injOn {S : Set ArtifactReplicaRecord}
    (hS : Set.InjOn ArtifactReplicaRecord.rank S) (b : String) :
    Set.InjOn ArtifactReplicaRecord.rank (bucketSet P S b) :=
  hS.mono fun _ h => h.1

/-- Within the bucket of a key, a bucket's records are all records. -/
theorem tracks_bucketSet {S : Set ArtifactReplicaRecord} {m : ReplicaKey → Option _}
    {k : ReplicaKey} :
    Tracks ArtifactReplicaRecord.key ArtifactReplicaRecord.rank m (bucketSet P S (bucketKey P k.1))
      k ↔ Tracks ArtifactReplicaRecord.key ArtifactReplicaRecord.rank m S k := by
  have hmem : ∀ c : ArtifactReplicaRecord, c.key = k →
      (c ∈ bucketSet P S (bucketKey P k.1) ↔ c ∈ S) := by
    rintro c rfl
    exact and_iff_left rfl
  exact ⟨fun h => h.congr rfl fun c hc => (hmem c hc).symm, fun h => h.congr rfl hmem⟩

/-- Outside of its bucket, an index of a bucket has nothing. -/
theorem tracks_bucketSet_ne {S : Set ArtifactReplicaRecord} {m : ReplicaKey → Option _}
    {k : ReplicaKey} {b : String} (hb : bucketKey P k.1 ≠ b) :
    Tracks ArtifactReplicaRecord.key ArtifactReplicaRecord.rank m (bucketSet P S b) k ↔
      m k = none := by
  constructor
  · intro h
    cases hm : m k with
    | none => rfl
    | some c =>
      have hn := h.newest c hm
      have hdigest : c.digest = k.1 := congrArg Prod.fst hn.key_eq
      exact absurd (hdigest ▸ hn.mem.2) hb
  · intro hm
    refine ⟨fun c hc => ?_, fun _ c hc hk => ?_⟩
    · rw [hm] at hc
      cases hc
    · have hdigest : c.digest = k.1 := congrArg Prod.fst hk
      exact hb (hdigest ▸ hc.2)

theorem bucket_lookup (idx : Index) (b : String) (k : ReplicaKey) :
    (idx.bucket P b).lookup k = if bucketKey P k.1 = b then idx.lookup k else none := by
  refine Option.ext fun c => ?_
  rw [← Option.mem_def, AList.mem_lookup_iff]
  simp only [Index.bucket, List.mem_filter, decide_eq_true_eq]
  split
  · rename_i hb
    rw [and_iff_left hb, ← AList.mem_lookup_iff, Option.mem_def]
  · rename_i hb
    simp [hb]

theorem Index.Of.bucket {idx : Index} {S : Set ArtifactReplicaRecord} (h : idx.Of S)
    (b : String) : (idx.bucket P b).Of (bucketSet P S b) := by
  intro k
  by_cases hb : bucketKey P k.1 = b
  · subst hb
    refine tracks_bucketSet.mpr ((h k).congr ?_ fun _ _ => Iff.rfl)
    rw [bucket_lookup, if_pos rfl]
  · refine (tracks_bucketSet_ne hb).mpr ?_
    rw [bucket_lookup, if_neg hb]

/-! ## Reading a shard back -/

theorem shardIndex_lookup {b : String} {rs : List ArtifactReplicaRecord} {idx idx' : Index}
    (h : shardIndex cfg P b rs idx = some idx') (k : ReplicaKey) (c : ArtifactReplicaRecord) :
    idx'.lookup k = some c ↔ idx.lookup k = some c ∨ c ∈ rs ∧ c.key = k := by
  induction rs generalizing idx with
  | nil =>
    simp only [shardIndex, Option.some.injEq] at h
    simp [h]
  | cons r rs ih =>
    unfold shardIndex at h
    split at h
    · rename_i hr
      simp only [Bool.and_eq_true, Option.isNone_iff_eq_none] at hr
      rw [ih h]
      rcases eq_or_ne k r.key with rfl | hk
      · rw [AList.lookup_insert, hr.2]
        constructor
        · rintro (hc | ⟨hc, hkey⟩)
          · cases hc
            exact .inr ⟨List.mem_cons_self, rfl⟩
          · exact .inr ⟨List.mem_cons_of_mem _ hc, hkey⟩
        · rintro (hc | ⟨hc, hkey⟩)
          · cases hc
          · rcases List.mem_cons.mp hc with rfl | hc
            · exact .inl rfl
            · exact .inr ⟨hc, hkey⟩
      · rw [AList.lookup_insert_ne hk]
        constructor
        · rintro (hc | ⟨hc, hkey⟩)
          · exact .inl hc
          · exact .inr ⟨List.mem_cons_of_mem _ hc, hkey⟩
        · rintro (hc | ⟨hc, hkey⟩)
          · exact .inl hc
          · rcases List.mem_cons.mp hc with rfl | hc
            · exact absurd hkey.symm hk
            · exact .inr ⟨hc, hkey⟩
    · cases h

/-- What is read from a written shard is what was written. -/
theorem shardIndex_of {b b' : String} {idx idx' : Index} {S : Set ArtifactReplicaRecord}
    (h : idx.Of S) (hread : shardIndex cfg P b (shardDocument b' idx).records ∅ = some idx') :
    idx'.Of S := by
  refine h.of_lookup fun k => Option.ext fun c => ?_
  rw [shardIndex_lookup hread k c, AList.lookup_empty]
  simp only [shardDocument, List.mem_insertionSort, List.mem_map, reduceCtorEq, false_or]
  constructor
  · rintro ⟨⟨⟨k', c'⟩, hmem, hcc⟩, hk⟩
    obtain rfl : c' = c := hcc
    obtain rfl : k' = k := (h.mem_entries hmem).key_eq.symm.trans hk
    exact AList.mem_lookup_iff.mpr hmem
  · intro hc
    have hmem := AList.mem_lookup_iff.mp hc
    exact ⟨⟨⟨k, c⟩, hmem, rfl⟩, (h.mem_entries hmem).key_eq⟩

end Dt.Jobs.ReplicaIndex
