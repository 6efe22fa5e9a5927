import Dt.Jobs.ReplicaIndex

/-!
# Runs of the replica index

Rows are saved and removed, rebuilds scan the registry and publish what they found, in any order
and with any failure of the writes. A current manifest then has the newest record of every key in
its shards, as long as no save demotes the indexed holder of a key: its row keeps digest, site and
node, but falls behind another row that holds the same key.
-/

namespace Dt.Jobs.ReplicaIndex

open Dt.Lib

variable {cfg : SiteHead} {P : Codec}

/-! ## One refresh of the shards -/

theorem Buckets.put_get (bs : Buckets) (c : ArtifactReplicaRecord) (k : ReplicaKey) :
    (bs.put P c).get P k = Function.update (bs.get P) c.key (some c) k := by
  unfold Buckets.get Buckets.put
  rcases eq_or_ne k c.key with rfl | hk
  · rw [show c.key.1 = c.digest from rfl, Function.update_self, Function.update_self,
      AList.lookup_insert]
  · rw [Function.update_of_ne hk]
    by_cases hb : bucketKey P k.1 = bucketKey P c.digest
    · rw [hb, Function.update_self, AList.lookup_insert_ne hk]
    · rw [Function.update_of_ne hb]

theorem Buckets.pop_get (bs : Buckets) (k₀ k : ReplicaKey) :
    (bs.pop P k₀).get P k = Function.update (bs.get P) k₀ none k := by
  unfold Buckets.get Buckets.pop
  rcases eq_or_ne k k₀ with rfl | hk
  · rw [Function.update_self, Function.update_self, AList.lookup_erase]
  · rw [Function.update_of_ne hk]
    by_cases hb : bucketKey P k.1 = bucketKey P k₀.1
    · rw [hb, Function.update_self, AList.lookup_erase_ne hk]
    · rw [Function.update_of_ne hb]

/-- A key of another bucket is not touched in this one. -/
theorem Buckets.put_lookup_ne {bs : Buckets} {c : ArtifactReplicaRecord} {k : ReplicaKey}
    {b : String} (hb : bucketKey P k.1 ≠ b) : ((bs.put P c) b).lookup k = (bs b).lookup k := by
  unfold Buckets.put
  rcases eq_or_ne b (bucketKey P c.digest) with rfl | hne
  · rw [Function.update_self, AList.lookup_insert_ne]
    rintro rfl
    exact hb rfl
  · rw [Function.update_of_ne hne]

theorem Buckets.pop_lookup_ne {bs : Buckets} {k₀ k : ReplicaKey} {b : String}
    (hb : bucketKey P k.1 ≠ b) : ((bs.pop P k₀) b).lookup k = (bs b).lookup k := by
  unfold Buckets.pop
  rcases eq_or_ne b (bucketKey P k₀.1) with rfl | hne
  · rw [Function.update_self, AList.lookup_erase_ne]
    rintro rfl
    exact hb rfl
  · rw [Function.update_of_ne hne]

theorem putCurrent_lookup_ne {bs : Buckets} {current : Option ArtifactReplicaRecord}
    {k : ReplicaKey} {b : String} (hb : bucketKey P k.1 ≠ b) :
    ((putCurrent P bs current) b).lookup k = (bs b).lookup k := by
  unfold putCurrent
  split
  · rfl
  · split
    · exact Buckets.put_lookup_ne hb
    · rfl

theorem popIndexed_lookup_ne {bs bs' : Buckets} {old current : Option ArtifactReplicaRecord}
    {k : ReplicaKey} {b : String} (h : popIndexed P bs old current = some bs')
    (hb : bucketKey P k.1 ≠ b) : (bs' b).lookup k = (bs b).lookup k := by
  unfold popIndexed at h
  split at h
  · cases h
    rfl
  · split at h
    · split at h
      · cases h
        exact Buckets.pop_lookup_ne hb
      · cases h
    · cases h
      rfl

/-- One row changes its record from `old` to `current`, and the set of records with it. -/
structure Changes (S S' : Set ArtifactReplicaRecord) (old current : Option ArtifactReplicaRecord) :
    Prop where
  /-- a record of the set is known by its job -/
  owner : ∀ c ∈ S, ∀ c' ∈ S, c.jobId = c'.jobId → c = c'
  old_mem : ∀ o, old = some o → o ∈ S
  /-- the row of the new record had the old one, or none -/
  current_owner : ∀ c, current = some c → ∀ r ∈ S, r.jobId = c.jobId → old = some r
  mem : ∀ r, r ∈ S' ↔ r ∈ S ∧ old ≠ some r ∨ current = some r

/-- The indexed holder of a key stays with it, but behind another record. -/
def Demoted (S : Set ArtifactReplicaRecord) (o c : ArtifactReplicaRecord) : Prop :=
  o.key = c.key ∧ Newest ArtifactReplicaRecord.key ArtifactReplicaRecord.rank S o.key o ∧
    ∃ r ∈ S, r ≠ o ∧ r.key = c.key ∧ c.rank < r.rank

/-- Adding a record of a job that has none stored under the key. -/
theorem putCurrent_tracks {T : Set ArtifactReplicaRecord} {bs : Buckets}
    {c : ArtifactReplicaRecord} {k : ReplicaKey}
    (h : Tracks ArtifactReplicaRecord.key ArtifactReplicaRecord.rank (bs.get P) T k)
    (hno : ∀ r, bs.get P c.key = some r → r.jobId ≠ c.jobId) :
    Tracks ArtifactReplicaRecord.key ArtifactReplicaRecord.rank
      ((putCurrent P bs (some c)).get P) (insert c T) k := by
  refine h.add.congr ?_ fun _ _ => Iff.rfl
  have hany : (bs.get P c.key).any (fun r => decide (r.jobId = c.jobId)) = false := by
    cases hr : bs.get P c.key with
    | none => rfl
    | some r => simpa using hno r hr
  unfold putCurrent addNewest replicaRecordIsNewer
  simp only [hany, Bool.or_false]
  split
  · exact Buckets.put_get bs c k
  · rfl

/-- The record that is stored for the key of the old one, when it is of the same job. -/
theorem indexed_eq_old {S : Set ArtifactReplicaRecord} {bs : Buckets} {o : ArtifactReplicaRecord}
    (howner : ∀ c ∈ S, ∀ c' ∈ S, c.jobId = c'.jobId → c = c') (ho : o ∈ S)
    (hT : Tracks ArtifactReplicaRecord.key ArtifactReplicaRecord.rank (bs.get P) S o.key) :
    (bs.get P o.key).any (fun r => decide (r.jobId = o.jobId)) = true ↔
      bs.get P o.key = some o := by
  cases hr : bs.get P o.key with
  | none => simp
  | some r =>
    have hn := hT.newest r hr
    simp only [Option.any_some, decide_eq_true_eq, Option.some.injEq]
    exact ⟨fun h => howner r hn.mem o ho h, fun h => by rw [h]⟩

/-- The table after a refresh has the newest records of the changed set. -/
theorem refreshed_tracks {S S' : Set ArtifactReplicaRecord}
    {old current : Option ArtifactReplicaRecord} {bs bs' : Buckets}
    (hc : Changes S S' old current)
    (hT : ∀ k, bucketKey P k.1 ∈ affectedBuckets P old current →
      Tracks ArtifactReplicaRecord.key ArtifactReplicaRecord.rank (bs.get P) S k)
    (hok : ∀ o c, old = some o → current = some c → ¬ Demoted S o c)
    (hpop : popIndexed P bs old current = some bs') {k : ReplicaKey}
    (hk : bucketKey P k.1 ∈ affectedBuckets P old current) :
    Tracks ArtifactReplicaRecord.key ArtifactReplicaRecord.rank
      ((putCurrent P bs' current).get P) S' k := by
  cases old with
  | none =>
    cases hpop
    cases current with
    | none => exact (hT k hk).congr rfl fun r _ => by simpa using hc.mem r
    | some c =>
      have hcur : bucketKey P c.key.1 ∈ affectedBuckets P none (some c) := by
        simp [affectedBuckets, ArtifactReplicaRecord.key]
      have hno : ∀ r, bs.get P c.key = some r → r.jobId ≠ c.jobId := by
        intro r hr hjob
        have hn := (hT c.key hcur).newest r hr
        exact absurd (hc.current_owner c rfl r hn.mem hjob) (by simp)
      refine (putCurrent_tracks (hT k hk) hno).congr rfl fun r _ => ?_
      rw [hc.mem r, Set.mem_insert_iff]
      simp [eq_comm, or_comm]
  | some o =>
    have ho : o ∈ S := hc.old_mem o rfl
    have hold : bucketKey P o.key.1 ∈ affectedBuckets P (some o) current := by
      simp [affectedBuckets, ArtifactReplicaRecord.key]
    have hmem : ∀ c, current = some c → ∀ r, r ∈ S' ↔ r ∈ insert c (S \ {o}) := by
      intro c hcur r
      rw [hc.mem r, hcur, Set.mem_insert_iff]
      constructor
      · rintro (⟨hr, hne⟩ | hrc)
        · exact .inr ⟨hr, fun h => hne (congrArg some h.symm)⟩
        · exact .inl (Option.some.inj hrc).symm
      · rintro (rfl | ⟨hr, hne⟩)
        · exact .inr rfl
        · exact .inl ⟨hr, fun h => hne (Option.some.inj h).symm⟩
    simp only [popIndexed, indexed_eq_old hc.owner ho (hT o.key hold)] at hpop
    split at hpop
    · -- the old record is the indexed one: only a successor of its key goes on
      rename_i hidx
      have hnew := (hT o.key hold).newest o hidx
      cases current with
      | none => simp at hpop
      | some c =>
        simp only [Option.any_some, decide_eq_true_eq] at hpop
        split at hpop
        · rename_i hkey
          cases hpop
          have hget : (bs.pop P o.key).get P c.key = none := by
            rw [Buckets.pop_get, hkey, Function.update_self]
          have hput : putCurrent P (bs.pop P o.key) (some c) = (bs.pop P o.key).put P c := by
            simp [putCurrent, hget, replicaRecordIsNewer, newer]
          rw [hput]
          rcases eq_or_ne k c.key with rfl | hne
          · -- no other record of the key is above the successor
            have hle : ∀ r ∈ S, r ≠ o → r.key = c.key → r.rank ≤ c.rank := by
              intro r hr hro hrk
              by_contra hlt
              exact hok o c rfl rfl ⟨hkey.symm, hnew, r, hr, hro, hrk, not_le.mp hlt⟩
            have hrep := Tracks.replace (m := (bs.pop P o.key).get P) rfl hle
            exact hrep.congr (Buckets.put_get _ c _) fun r _ => hmem c rfl r
          · refine (hT k hk).congr ?_ fun r hr => ?_
            · rw [Buckets.put_get, Function.update_of_ne hne, Buckets.pop_get,
                Function.update_of_ne (hkey ▸ hne)]
            · rw [hmem c rfl r, Set.mem_insert_iff]
              constructor
              · rintro (rfl | ⟨hrS, -⟩)
                · exact absurd hr.symm hne
                · exact hrS
              · intro hrS
                refine .inr ⟨hrS, ?_⟩
                rintro rfl
                exact hne (hr.symm.trans hkey.symm)
        · cases hpop
    · rename_i hidx
      cases hpop
      -- the old record is not indexed, here or under any other key
      have hother : ∀ k', bs.get P k' = some o → bucketKey P k'.1 ∉
          affectedBuckets P (some o) current := by
        intro k' hk' hmem
        have hn := (hT k' hmem).newest o hk'
        exact hidx (hn.key_eq ▸ hk')
      have hdrop := (hT k hk).drop (o := o) fun h => hother k h hk
      cases current with
      | none =>
        refine hdrop.congr rfl fun r _ => ?_
        rw [hc.mem r]
        simp [eq_comm]
      | some c =>
        have hcur : bucketKey P c.key.1 ∈ affectedBuckets P (some o) (some c) := by
          simp [affectedBuckets, ArtifactReplicaRecord.key]
        have hno : ∀ r, bs.get P c.key = some r → r.jobId ≠ c.jobId := by
          intro r hr hjob
          have hn := (hT c.key hcur).newest r hr
          obtain rfl : o = r := Option.some.inj (hc.current_owner c rfl r hn.mem hjob)
          exact hother c.key hr hcur
        exact (putCurrent_tracks hdrop hno).congr rfl fun r _ => hmem c rfl r

/-- The same, one shard at a time. -/
theorem refreshed_of {S S' : Set ArtifactReplicaRecord}
    {old current : Option ArtifactReplicaRecord} {bs bs' : Buckets}
    (hc : Changes S S' old current)
    (hbs : ∀ b ∈ affectedBuckets P old current, (bs b).Of (bucketSet P S b))
    (hok : ∀ o c, old = some o → current = some c → ¬ Demoted S o c)
    (hpop : popIndexed P bs old current = some bs') {b : String}
    (hb : b ∈ affectedBuckets P old current) :
    ((putCurrent P bs' current) b).Of (bucketSet P S' b) := by
  intro k
  by_cases hk : bucketKey P k.1 = b
  · subst hk
    have hT : ∀ k', bucketKey P k'.1 ∈ affectedBuckets P old current →
        Tracks ArtifactReplicaRecord.key ArtifactReplicaRecord.rank (bs.get P) S k' := fun k' hk' =>
      (tracks_bucketSet.mp (hbs _ hk' k')).congr rfl fun _ _ => Iff.rfl
    exact tracks_bucketSet.mpr
      ((refreshed_tracks hc hT hok hpop hb).congr rfl fun _ _ => Iff.rfl)
  · refine (tracks_bucketSet_ne hk).mpr ?_
    rw [putCurrent_lookup_ne hk, popIndexed_lookup_ne hpop hk]
    exact (tracks_bucketSet_ne hk).mp (hbs b hb k)

/-- The other buckets hold the same records after the change. -/
theorem Changes.bucketSet_eq {S S' : Set ArtifactReplicaRecord}
    {old current : Option ArtifactReplicaRecord} (hc : Changes S S' old current) {b : String}
    (hb : b ∉ affectedBuckets P old current) : bucketSet P S' b = bucketSet P S b := by
  have hold : ∀ r, old = some r → bucketKey P r.digest ≠ b := by
    rintro r rfl rfl
    exact hb (by simp [affectedBuckets])
  have hcur : ∀ r, current = some r → bucketKey P r.digest ≠ b := by
    rintro r rfl rfl
    exact hb (by simp [affectedBuckets])
  ext r
  show r ∈ S' ∧ bucketKey P r.digest = b ↔ r ∈ S ∧ bucketKey P r.digest = b
  rw [hc.mem r]
  constructor
  · rintro ⟨⟨hr, -⟩ | hr, hrb⟩
    · exact ⟨hr, hrb⟩
    · exact absurd hrb (hcur r hr)
  · rintro ⟨hr, hrb⟩
    exact ⟨.inl ⟨hr, fun h => hold r h hrb⟩, hrb⟩

/-! ## The manifest -/

theorem bucketEvidence_ok {bs : Buckets} {names : List String} {ev ev' : Evidence}
    (h : bucketEvidence P bs names ev = .ok ev') :
    (∀ b ∈ names, P.shardSize (shardDocument b (bs b)) ≤ maxReplicaShardBytes) ∧
      ∀ b, ev'.lookup b = if b ∈ names then
        some ((bs b).entries.length, P.shardHash (shardDocument b (bs b))) else ev.lookup b := by
  induction names generalizing ev with
  | nil =>
    simp only [bucketEvidence, Except.ok.injEq] at h
    simp [h]
  | cons b names ih =>
    unfold bucketEvidence at h
    split at h
    · cases h
    · rename_i hsize
      obtain ⟨hsizes, hlook⟩ := ih h
      refine ⟨fun b' hb' => ?_, fun b' => ?_⟩
      · rcases List.mem_cons.mp hb' with rfl | hb'
        · exact not_lt.mp hsize
        · exact hsizes b' hb'
      · rw [hlook b']
        by_cases hmem : b' ∈ names
        · rw [if_pos hmem, if_pos (List.mem_cons_of_mem b hmem)]
        · rw [if_neg hmem]
          rcases eq_or_ne b' b with rfl | hne
          · rw [if_pos List.mem_cons_self, AList.lookup_insert]
          · rw [if_neg (by simp [hne, hmem]), AList.lookup_insert_ne hne]

theorem manifestDocument_ok {generation : String} {items : Int} {ev : Evidence}
    {revisions : Revisions} {m : ReplicaManifest}
    (h : manifestDocument P generation items ev revisions = .ok m) :
    m.generation = generation ∧ m.evidence = ev ∧ m.revisions = revisions := by
  unfold manifestDocument at h
  split at h
  · cases h
  · dsimp only at h
    split at h
    · cases h
    · cases h
      exact ⟨rfl, rfl, rfl⟩

/-- The number of records a manifest states for a bucket. -/
def countOf (ev : Evidence) (b : String) : Nat := ((ev.lookup b).map (·.1)).getD 0

/-- A manifest that may be served: the shards that can be read have the newest records of their
buckets, and the stated numbers are the true ones. -/
structure Good (cfg : SiteHead) (P : Codec) (k : ReplicaDisk) (m : ReplicaManifest) : Prop where
  shard : ∀ b idx, readReplicaBucket cfg P k m b = some idx →
    idx.Of (bucketSet P (replicaSet cfg k.files) b)
  count : ∀ b, countOf m.evidence b = ((newestIndex cfg k.files).bucket P b).entries.length

theorem length_of_bucket {r : Registry} {idx : Index} {b : String}
    (h : idx.Of (bucketSet P (replicaSet cfg r) b)) :
    idx.entries.length = ((newestIndex cfg r).bucket P b).entries.length :=
  (h.perm (bucketSet_injOn (replicaSet_injOn r) b) ((newestIndex_of r).bucket b)).length_eq

/-- A manifest over shards that were just written, and over others that still hold. -/
theorem good_of_written {k : ReplicaDisk} {m : ReplicaManifest} {bs : Buckets}
    {names : List String} {base : Evidence}
    (hev : bucketEvidence P bs names base = .ok m.evidence)
    (hfiles : ∀ b ∈ names, k.shards m.generation b = some (shardDocument b (bs b)))
    (hbs : ∀ b ∈ names, (bs b).Of (bucketSet P (replicaSet cfg k.files) b))
    (hshard : ∀ b, b ∉ names → ∀ idx, readReplicaBucket cfg P k m b = some idx →
      idx.Of (bucketSet P (replicaSet cfg k.files) b))
    (hcount : ∀ b, b ∉ names →
      countOf base b = ((newestIndex cfg k.files).bucket P b).entries.length) :
    Good cfg P k m := by
  obtain ⟨-, hlook⟩ := bucketEvidence_ok hev
  constructor
  · intro b idx hread
    by_cases hb : b ∈ names
    · unfold readReplicaBucket at hread
      rw [hlook b, if_pos hb, hfiles b hb] at hread
      dsimp only at hread
      split at hread
      · cases hread
      · split at hread
        · cases hread
        · rename_i idx' hidx
          split at hread
          · cases hread
          · cases hread
            exact shardIndex_of (hbs b hb) hidx
    · exact hshard b hb idx hread
  · intro b
    unfold countOf
    rw [hlook b]
    by_cases hb : b ∈ names
    · rw [if_pos hb]
      exact length_of_bucket (hbs b hb)
    · rw [if_neg hb]
      exact hcount b hb

theorem readReplicaBucket_congr {k k' : ReplicaDisk} {m m' : ReplicaManifest} {b : String}
    (hev : m'.evidence.lookup b = m.evidence.lookup b)
    (hsh : k'.shards m'.generation b = k.shards m.generation b) :
    readReplicaBucket cfg P k' m' b = readReplicaBucket cfg P k m b := by
  unfold readReplicaBucket
  rw [hev, hsh]

theorem loadBuckets_some {k : ReplicaDisk} {m : ReplicaManifest} {names : List String}
    {bs : Buckets} (h : loadBuckets cfg P k m names = some bs) :
    ∀ b ∈ names, readReplicaBucket cfg P k m b = some (bs b) := by
  unfold loadBuckets at h
  split at h
  · rename_i hall
    cases h
    intro b hb
    obtain ⟨idx, hidx⟩ := Option.isSome_iff_exists.mp (List.all_eq_true.mp hall b hb)
    simp [hidx]
  · cases h

/-- What a refresh leaves: the rows, and a manifest that is the one from before, or carries the
current revisions and may be served. -/
structure Advanced (cfg : SiteHead) (P : Codec) (k k' : ReplicaDisk) : Prop where
  disk : k'.toDisk = k.toDisk
  manifest : k'.manifest = k.manifest ∨ ∃ m', k'.manifest = some m' ∧
    m'.revisions = registryDirectoryRevisions cfg.toHeadConfig k.toDisk ∧ Good cfg P k' m'

theorem publishRefresh_advanced {k₀ k : ReplicaDisk} {m : ReplicaManifest}
    {old current : Option ArtifactReplicaRecord} {loaded bs : Buckets} (w : ReplicaWrite)
    (hsh : k.shards = k₀.shards) (hgood : Good cfg P k₀ m)
    (hc : Changes (replicaSet cfg k₀.files) (replicaSet cfg k.files) old current)
    (hbs : ∀ b ∈ affectedBuckets P old current,
      (bs b).Of (bucketSet P (replicaSet cfg k.files) b)) :
    Advanced cfg P k
      (publishRefresh cfg P k m (affectedBuckets P old current) loaded bs w) := by
  unfold publishRefresh
  dsimp only
  split
  · exact ⟨rfl, .inl rfl⟩
  · split
    · exact ⟨rfl, .inl rfl⟩
    · rename_i ev hev
      split
      · exact ⟨rfl, .inl rfl⟩
      · rename_i m' hm'
        obtain ⟨hgen, rfl, hrev⟩ := manifestDocument_ok hm'
        obtain ⟨hsize, hlook⟩ := bucketEvidence_ok hev
        split
        · rename_i hw
          simp only [Bool.and_eq_true, List.all_eq_true] at hw
          refine ⟨rfl, .inr ⟨m', rfl, hrev, good_of_written hev ?_ hbs ?_ ?_⟩⟩
          · intro b hb
            simp [ReplicaDisk.setShards, hgen, writtenShards, hb, hw.1 b hb, hsize b hb]
          · intro b hb idx hidx
            -- this shard and its evidence are those of the manifest before
            have hsame : readReplicaBucket cfg P k₀ m b = some idx := by
              refine (readReplicaBucket_congr ?_ ?_).symm.trans hidx
              · rw [hlook b, if_neg hb]
              · simp [ReplicaDisk.setShards, hgen, writtenShards, hb, hsh]
            have hset := hc.bucketSet_eq hb
            exact hset ▸ hgood.shard b idx hsame
          · intro b hb
            rw [hgood.count b]
            have hset := hc.bucketSet_eq hb
            exact length_of_bucket (hset ▸ (newestIndex_of k₀.files).bucket b)
        · exact ⟨rfl, .inl rfl⟩

theorem refreshReplicaIndex_advanced (k₀ : ReplicaDisk) {k : ReplicaDisk}
    {old current : Option ArtifactReplicaRecord} {manifest : Option ReplicaManifest}
    (w : ReplicaWrite) (hsh : k.shards = k₀.shards)
    (hgood : ∀ m, manifest = some m → Good cfg P k₀ m)
    (hc : Changes (replicaSet cfg k₀.files) (replicaSet cfg k.files) old current)
    (hok : manifest.isSome → ∀ o c, old = some o → current = some c →
      ¬ Demoted (replicaSet cfg k₀.files) o c) :
    Advanced cfg P k (refreshReplicaIndex cfg P k manifest old current w) := by
  unfold refreshReplicaIndex
  split
  · exact ⟨rfl, .inl rfl⟩
  · rename_i m
    split
    · exact ⟨rfl, .inl rfl⟩
    · rename_i loaded hload
      split
      · exact ⟨rfl, .inl rfl⟩
      · rename_i bs hpop
        have hread : ∀ b, readReplicaBucket cfg P k m b = readReplicaBucket cfg P k₀ m b :=
          fun b => readReplicaBucket_congr rfl (by rw [hsh])
        have hloaded : ∀ b ∈ affectedBuckets P old current,
            (loaded b).Of (bucketSet P (replicaSet cfg k₀.files) b) := fun b hb =>
          (hgood m rfl).shard b _ ((hread b).symm.trans (loadBuckets_some hload b hb))
        exact publishRefresh_advanced w hsh (hgood m rfl) hc
          fun b hb => refreshed_of hc hloaded (hok rfl) hpop hb

/-! ## Changes of the registry -/

theorem saveRow_record {d : Layout} {existing : Option JobEntry} {entry doc : JobEntry}
    {now : Time} (h : saveRow cfg.toHeadConfig d existing entry now = .ok doc) :
    entryReplicaRecord cfg doc = entryReplicaRecord cfg entry := by
  obtain ⟨-, -, p, hp, henc⟩ := saveRow_ok.mp h
  obtain ⟨rfl, -⟩ := encodeRegistryEntry_ok.mp henc
  obtain ⟨env, keys, rfl⟩ := savePrivate_eq hp
  rfl

/-- The record of a job's row. -/
def rowRecord (cfg : SiteHead) (r : Registry) (id : JobId) : Option ArtifactReplicaRecord :=
  (row cfg.toHeadConfig r id).bind (entryReplicaRecord cfg)

theorem mem_replicaSet {r : Registry} {c : ArtifactReplicaRecord} :
    c ∈ replicaSet cfg r ↔ rowRecord cfg r c.jobId = some c := by
  constructor
  · rintro ⟨id, e, he, hc⟩
    have hid := (entryReplicaRecord_some hc).1.trans (row_jobId he)
    rw [rowRecord, hid, he]
    exact hc
  · intro h
    obtain ⟨e, he, hc⟩ := Option.bind_eq_some_iff.mp h
    exact ⟨c.jobId, e, he, hc⟩

theorem rowRecord_jobId {r : Registry} {id : JobId} {c : ArtifactReplicaRecord}
    (h : rowRecord cfg r id = some c) : c.jobId = id := by
  obtain ⟨e, he, hc⟩ := Option.bind_eq_some_iff.mp h
  exact (entryReplicaRecord_some hc).1.trans (row_jobId he)

/-- Two registries that differ in the row of one job. -/
theorem changes_of_row {r r' : Registry} {id : JobId} {current : Option ArtifactReplicaRecord}
    (hcur : rowRecord cfg r' id = current)
    (hframe : ∀ id', id' ≠ id → row cfg.toHeadConfig r' id' = row cfg.toHeadConfig r id') :
    Changes (replicaSet cfg r) (replicaSet cfg r') (rowRecord cfg r id) current where
  owner := replicaSet_owner r
  old_mem o ho := by
    rw [mem_replicaSet, rowRecord_jobId ho]
    exact ho
  current_owner c hc x hx hjob := by
    rw [← rowRecord_jobId (hcur.trans hc), ← hjob]
    exact mem_replicaSet.mp hx
  mem x := by
    rw [mem_replicaSet, mem_replicaSet]
    rcases eq_or_ne x.jobId id with rfl | hne
    · rw [hcur]
      simp
    · have hx : rowRecord cfg r' x.jobId = rowRecord cfg r x.jobId := by
        rw [rowRecord, hframe _ hne, rowRecord]
      rw [hx]
      constructor
      · intro h
        exact .inl ⟨h, fun ho => hne (rowRecord_jobId ho)⟩
      · rintro (⟨h, -⟩ | h)
        · exact h
        · exact absurd (rowRecord_jobId (hcur.trans h)) hne

theorem save_changes {r r' : Registry} {entry : JobEntry} {now : Time}
    (h : Dt.Jobs.save cfg.toHeadConfig r entry now = .ok r') :
    Changes (replicaSet cfg r) (replicaSet cfg r') (rowRecord cfg r entry.jobId)
      (entryReplicaRecord cfg entry) := by
  refine changes_of_row ?_ fun id' hne => (Dt.Jobs.save_row h).2 id' hne
  obtain ⟨d, existing, doc, e, hrow, hdec, hr⟩ := save_decoded h
  rw [rowRecord, hr, Option.bind_some, entryReplicaRecord_decoded hdec, saveRow_record hrow]

theorem remove_changes {r r' : Registry} {id : JobId} {d : Layout}
    (hres : resolveRegistryRecord cfg.toHeadConfig r id = .ok (some d))
    (h : removeRecord cfg.toHeadConfig r id = .ok r') :
    Changes (replicaSet cfg r) (replicaSet cfg r') (rowRecord cfg r id) none := by
  refine changes_of_row ?_ fun id' hne => removeRecord_row_ne h hne
  rw [rowRecord, removeRecord_gone hres h]
  rfl

/-! ## The machine -/

/-- A rebuild that has scanned the registry and waits to publish. -/
structure Rebuild where
  records : Index
  revisions : Revisions

structure Sys extends ReplicaDisk where
  builds : Nat → Option Rebuild

def Sys.setBuild (s : Sys) (p : Nat) (b : Option Rebuild) : Sys :=
  { s with builds := Function.update s.builds p b }

inductive Act where
  /-- a change of a registry directory that changes no row -/
  | touch (d : Layout) (stamp : Nat)
  | save (entry : JobEntry) (now : Time) (w : WriteOutcome) (v : ReplicaWrite)
  | remove (id : JobId) (now : Time) (w : WriteOutcome) (v : ReplicaWrite)
  /-- a scan that saw the same revisions before and after, in the order it met the rows -/
  | scan (p : Nat) (rows : List JobEntry)
  | publish (p : Nat) (generation : String) (written : Bool)

/-- The stamp of a directory grows with every change. -/
def stampOk (stamp : Nat) (w : WriteOutcome) : Bool :=
  if w.renamed then stamp < w.stamp else stamp ≤ w.stamp

def step (cfg : SiteHead) (P : Codec) (s : Sys) : Act → Option Sys
  | .touch d stamp =>
    if s.stamp d < stamp then some { s with stamp := Function.update s.stamp d stamp } else none
  | .save entry now w v =>
    match savePrepare cfg.toHeadConfig s.files entry now with
    | .error _ => some s
    | .ok (d, _) =>
      if stampOk (s.stamp d) w then
        some { s with toReplicaDisk := (s.toReplicaDisk.save cfg P entry now w v).2 }
      else none
  | .remove id now w v =>
    match resolveRegistryRecord cfg.toHeadConfig s.files id with
    | .ok (some d) =>
      if stampOk (s.stamp d) w then
        some { s with toReplicaDisk := (s.toReplicaDisk.remove cfg P id now w v).2 }
      else none
    | _ => some s
  | .scan p rows =>
    if rows.isPerm (iterAll cfg.toHeadConfig s.files) then
      match buildReplicaRecords cfg rows ∅ with
      | .error _ => some s
      | .ok records =>
        some (s.setBuild p
          (some ⟨records, registryDirectoryRevisions cfg.toHeadConfig s.toDisk⟩))
    else none
  | .publish p generation written =>
    match s.builds p with
    | none => none
    | some b =>
      -- the name of a generation is a fresh random token
      if s.manifest.any (·.generation = generation) then none
      else some (Sys.setBuild
        { s with
          toReplicaDisk := publishReplicaRebuild cfg P s.toReplicaDisk generation b.records
            b.revisions written }
        p none)

/-- A save that demotes the holder a current manifest has indexed for the key. -/
def demotes (cfg : SiteHead) (P : Codec) (k : ReplicaDisk) (entry : JobEntry) : Bool :=
  let records := (iterAll cfg.toHeadConfig k.files).filterMap (entryReplicaRecord cfg)
  (rowRecord cfg k.files entry.jobId).any fun o => (entryReplicaRecord cfg entry).any fun c =>
    (readReplicaManifest cfg P k).isSome && o.key = c.key &&
      records.all (fun r => r.key ≠ o.key || decide (r.rank ≤ o.rank)) &&
      records.any fun r => r ≠ o && r.key = c.key && decide (c.rank < r.rank)

/-- The steps after which the index is still exact. -/
def Kept (cfg : SiteHead) (P : Codec) (s : Sys) : Act → Prop
  | .save entry _ _ _ => demotes cfg P s.toReplicaDisk entry = false
  | _ => True

/-! ## The invariant -/

def revs (cfg : SiteHead) (k : Disk) : Revisions := registryDirectoryRevisions cfg.toHeadConfig k

/-- Something derived at the revisions `r`: it is not newer than the directories, and it holds as
long as these revisions are the current ones. -/
structure DerivedAt (cfg : SiteHead) (k : Disk) (r : Revisions) (good : Prop) : Prop where
  old : r.sum ≤ (revs cfg k).sum
  holds : r = revs cfg k → good

structure Inv (cfg : SiteHead) (P : Codec) (s : Sys) : Prop where
  manifest : ∀ m, s.manifest = some m →
    DerivedAt cfg s.toDisk m.revisions (Good cfg P s.toReplicaDisk m)
  builds : ∀ p b, s.builds p = some b →
    DerivedAt cfg s.toDisk b.revisions (b.records.Of (replicaSet cfg s.files))

/-- No stamp goes back. -/
def Forward (k k' : Disk) : Prop := ∀ d, k.stamp d ≤ k'.stamp d

theorem revs_sum_le {k k' : Disk} (h : Forward k k') : (revs cfg k).sum ≤ (revs cfg k').sum := by
  unfold revs registryDirectoryRevisions
  have h₁ := h .legacy
  have h₂ := h .role
  cases cfg.layout <;> simp <;> omega

theorem revs_eq_of_sum {k k' : Disk} (h : Forward k k')
    (hs : (revs cfg k').sum ≤ (revs cfg k).sum) : revs cfg k' = revs cfg k := by
  unfold revs registryDirectoryRevisions at hs ⊢
  have h₁ := h .legacy
  have h₂ := h .role
  cases hl : cfg.layout <;> simp [hl] at hs ⊢ <;> omega

theorem revs_sum_lt {k k' : Disk} {d : Layout} (h : Forward k k')
    (hd : d ∈ cfg.toHeadConfig.candidates) (hs : k.stamp d < k'.stamp d) :
    (revs cfg k).sum < (revs cfg k').sum := by
  unfold revs registryDirectoryRevisions
  unfold HeadConfig.candidates at hd
  have h₁ := h .legacy
  have h₂ := h .role
  cases hl : cfg.layout with
  | legacy =>
    obtain rfl : d = .legacy := by simpa [hl] using hd
    simpa using hs
  | role =>
    cases d <;> simp <;> omega

/-- What is derived stays derived while only the stamps move. -/
theorem DerivedAt.forward {k k' : Disk} {r : Revisions} {good good' : Prop}
    (h : DerivedAt cfg k r good) (hk : Forward k k') (hg : good → good') :
    DerivedAt cfg k' r good' where
  old := h.old.trans (revs_sum_le hk)
  holds hr := by
    have hs : (revs cfg k').sum ≤ (revs cfg k).sum := hr ▸ h.old
    exact hg (h.holds (hr.trans (revs_eq_of_sum hk hs)))

/-- After a change of a row nothing that was derived before is current. -/
theorem DerivedAt.stale {k k' : Disk} {r : Revisions} {good good' : Prop}
    (h : DerivedAt cfg k r good) (hk : (revs cfg k).sum < (revs cfg k').sum) :
    DerivedAt cfg k' r good' where
  old := h.old.trans hk.le
  holds hr := absurd (hr ▸ hk) (not_lt.mpr h.old)

theorem DerivedAt.now {k : Disk} {good : Prop} (h : good) : DerivedAt cfg k (revs cfg k) good :=
  ⟨le_refl _, fun _ => h⟩

/-- Serving a manifest depends on the rows and on the shards of its generation. -/
theorem Good.congr {k k' : ReplicaDisk} {m : ReplicaManifest} (h : Good cfg P k m)
    (hf : k'.files = k.files) (hs : k'.shards m.generation = k.shards m.generation) :
    Good cfg P k' m where
  shard b idx hidx := by
    rw [hf]
    exact h.shard b idx ((readReplicaBucket_congr rfl (by rw [hs])).symm.trans hidx)
  count b := by rw [hf, h.count b]

/-! ## Every step keeps the invariant -/

variable {s s' : Sys}

/-- A step that changes no row, no shard and no manifest. -/
theorem Inv.moved {k' : ReplicaDisk} (h : Inv cfg P s) (hf : k'.files = s.files)
    (hfwd : Forward s.toDisk k'.toDisk) (hm : k'.manifest = s.manifest)
    (hsh : k'.shards = s.shards) : Inv cfg P { s with toReplicaDisk := k' } where
  manifest m hm' := (h.manifest m (hm ▸ hm')).forward hfwd fun hg => hg.congr hf (by rw [hsh])
  builds p b hb := (h.builds p b hb).forward hfwd fun hg => by
    show b.records.Of (replicaSet cfg k'.files)
    rw [hf]
    exact hg

/-- A step that changes a row: the manifest is stale, or was advanced. -/
theorem Inv.changed {k k' : ReplicaDisk} (h : Inv cfg P s) (hman : k.manifest = s.manifest)
    (hlt : (revs cfg s.toDisk).sum < (revs cfg k.toDisk).sum) (ha : Advanced cfg P k k') :
    Inv cfg P { s with toReplicaDisk := k' } where
  manifest m hm := by
    have hlt' : (revs cfg s.toDisk).sum < (revs cfg k'.toDisk).sum := by
      rw [ha.disk]
      exact hlt
    rcases ha.manifest with hsame | ⟨m', hm', hrev, hgood⟩
    · exact (h.manifest m (hman ▸ hsame ▸ hm)).stale hlt'
    · obtain rfl : m' = m := Option.some.inj (hm'.symm.trans hm)
      have hrev' : m'.revisions = revs cfg k'.toDisk := by
        rw [hrev, ha.disk]
        rfl
      rw [hrev']
      exact .now hgood
  builds p b hb := by
    refine (h.builds p b hb).stale ?_
    show (revs cfg s.toDisk).sum < (revs cfg k'.toDisk).sum
    rw [ha.disk]
    exact hlt

/-- The manifest a mutation reads first may be served. -/
theorem Inv.readManifest (h : Inv cfg P s) {m : ReplicaManifest}
    (hm : readReplicaManifest cfg P s.toReplicaDisk = some m) :
    Good cfg P s.toReplicaDisk m ∧ manifestValid m = true := by
  unfold readReplicaManifest at hm
  split at hm
  · cases hm
  · rename_i m₀ hm₀
    split at hm
    · cases hm
    · split at hm
      · cases hm
      · rename_i hvalid
        split at hm
        · cases hm
        · rename_i hrev
          cases hm
          exact ⟨(h.manifest m hm₀).holds (not_not.mp hrev), by simpa using hvalid⟩

theorem Forward.update {k k' : Disk} {d : Layout} {stamp : Nat} (hd : k.stamp d ≤ stamp)
    (hs : k'.stamp = Function.update k.stamp d stamp) : Forward k k' := by
  intro d'
  rw [hs]
  rcases eq_or_ne d' d with rfl | hne
  · rw [Function.update_self]
    exact hd
  · rw [Function.update_of_ne hne]

/-- A save that does not demote leaves no record of the key above the saved one. -/
theorem not_demoted {k : ReplicaDisk} {entry : JobEntry} {o c : ArtifactReplicaRecord}
    (h : demotes cfg P k entry = false) (hm : (readReplicaManifest cfg P k).isSome)
    (ho : rowRecord cfg k.files entry.jobId = some o) (hc : entryReplicaRecord cfg entry = some c) :
    ¬ Demoted (replicaSet cfg k.files) o c := by
  rintro ⟨hkey, hnew, r, hr, hne, hrk, hlt⟩
  have htrue : demotes cfg P k entry = true := by
    simp only [demotes, ho, hc, hm, Option.any_some, Bool.true_and, Bool.and_eq_true, decide_eq_true_eq,
      List.all_eq_true, List.any_eq_true, Bool.or_eq_true, ne_eq]
    refine ⟨⟨hkey, fun x hx => ?_⟩, r, mem_scan_records.mpr hr, ⟨hne, hrk⟩, hlt⟩
    by_cases hxk : x.key = o.key
    · exact .inr (hnew.le x (mem_scan_records.mp hx) hxk)
    · exact .inl hxk
  rw [h] at htrue
  cases htrue

theorem save_inv {entry : JobEntry} {now : Time} {w : WriteOutcome} (v : ReplicaWrite)
    {d : Layout} {doc : JobEntry} (h : Inv cfg P s)
    (hok : demotes cfg P s.toReplicaDisk entry = false)
    (hprep : savePrepare cfg.toHeadConfig s.files entry now = .ok (d, doc))
    (hstamp : stampOk (s.stamp d) w = true) :
    Inv cfg P { s with toReplicaDisk := (s.toReplicaDisk.save cfg P entry now w v).2 } := by
  obtain ⟨hst, hcase⟩ := Disk.save_prepared w hprep
  have hle : s.stamp d ≤ w.stamp := by
    unfold stampOk at hstamp
    split at hstamp <;> simp at hstamp <;> omega
  have hfwd : Forward s.toDisk (s.toDisk.save cfg.toHeadConfig entry now w).2 :=
    .update hle hst
  unfold ReplicaDisk.save
  rw [hprep]
  dsimp only
  rcases hcase with ⟨-, hfiles, herr⟩ | ⟨hren, hsave⟩
  · -- the row was not published
    split
    · rename_i m disk hdisk
      rw [hdisk] at hfiles hfwd
      exact h.moved hfiles hfwd rfl rfl
    · rename_i disk hdisk
      rw [hdisk] at herr
      exact absurd rfl herr
  · have hlt : (revs cfg s.toDisk).sum <
        (revs cfg (s.toDisk.save cfg.toHeadConfig entry now w).2).sum := by
      refine revs_sum_lt hfwd (savePrepare_mem_candidates hprep) ?_
      rw [hst, Function.update_self]
      simpa [stampOk, hren] using hstamp
    split
    · rename_i m disk hdisk
      rw [hdisk] at hlt
      exact h.changed (k := { s.toReplicaDisk with toDisk := disk }) rfl hlt ⟨rfl, .inl rfl⟩
    · rename_i disk hdisk
      rw [hdisk] at hlt hsave
      refine h.changed (k := { s.toReplicaDisk with toDisk := disk }) rfl hlt ?_
      obtain ⟨existing, hrow, -⟩ := savePrepare_ok hprep
      rw [saveRow_record hrow]
      exact refreshReplicaIndex_advanced s.toReplicaDisk v rfl (fun m hm => (h.readManifest hm).1)
        (save_changes hsave) fun hm o c ho hc => not_demoted hok hm ho hc

theorem remove_inv {id : JobId} {now : Time} {w : WriteOutcome} (v : ReplicaWrite) {d : Layout}
    (h : Inv cfg P s) (hres : resolveRegistryRecord cfg.toHeadConfig s.files id = .ok (some d))
    (hstamp : stampOk (s.stamp d) w = true) :
    Inv cfg P { s with toReplicaDisk := (s.toReplicaDisk.remove cfg P id now w v).2 } := by
  obtain ⟨hst, hcase⟩ := Disk.remove_resolved now w hres
  have hle : s.stamp d ≤ w.stamp := by
    unfold stampOk at hstamp
    split at hstamp <;> simp at hstamp <;> omega
  have hfwd : Forward s.toDisk (s.toDisk.remove cfg.toHeadConfig id now w).2 := by
    rcases hst with hst | hst
    · exact fun d' => by rw [hst]
    · exact .update hle hst
  unfold ReplicaDisk.remove
  rw [hres]
  dsimp only
  rcases hcase with ⟨hfiles, herr⟩ | ⟨hren, hst, hremove⟩
  · split
    · rename_i m disk hdisk
      rw [hdisk] at hfiles hfwd
      exact h.moved hfiles hfwd rfl rfl
    · rename_i disk hdisk
      rw [hdisk] at herr
      exact absurd rfl herr
  · have hlt : (revs cfg s.toDisk).sum <
        (revs cfg (s.toDisk.remove cfg.toHeadConfig id now w).2).sum := by
      refine revs_sum_lt hfwd (resolved_mem_candidates hres) ?_
      rw [hst, Function.update_self]
      simpa [stampOk, hren] using hstamp
    split
    · rename_i m disk hdisk
      rw [hdisk] at hlt
      exact h.changed (k := { s.toReplicaDisk with toDisk := disk }) rfl hlt ⟨rfl, .inl rfl⟩
    · rename_i disk hdisk
      rw [hdisk] at hlt hremove
      refine h.changed (k := { s.toReplicaDisk with toDisk := disk }) rfl hlt ?_
      exact refreshReplicaIndex_advanced s.toReplicaDisk v rfl (fun m hm => (h.readManifest hm).1)
        (remove_changes hres hremove) fun _ o c _ hc => nomatch hc

theorem ReplicaDisk.setShards_shards (k : ReplicaDisk) (generation : String)
    (files : String → Option ReplicaShard) :
    (k.setShards generation files).shards generation = files := by
  simp [ReplicaDisk.setShards]

/-- A bucket that no indexed digest falls into is empty. -/
theorem empty_bucket_of {records : Index} {S : Set ArtifactReplicaRecord} {b : String}
    (h : records.Of S) (hb : b ∉ (records.keys.map fun k => bucketKey P k.1).dedup) :
    Index.Of (∅ : Index) (bucketSet P S b) := by
  refine (h.bucket b).of_lookup fun k => ?_
  rw [AList.lookup_empty, bucket_lookup]
  split
  · rename_i hk
    symm
    rw [AList.lookup_eq_none]
    intro hmem
    exact hb (List.mem_dedup.mpr (List.mem_map.mpr ⟨k, AList.mem_keys.mp hmem, hk⟩))
  · rfl

/-- A generation rebuilt from the records of the registry may be served. -/
theorem rebuiltGeneration_good {k : ReplicaDisk} {generation : String} {records : Index}
    {revisions : Revisions} {files : String → Option ReplicaShard} {m : ReplicaManifest}
    (h : rebuiltGeneration P generation records revisions = .ok (files, m))
    (hrec : records.Of (replicaSet cfg k.files)) (hk : k.shards generation = files) :
    m.revisions = revisions ∧ Good cfg P k m := by
  unfold rebuiltGeneration at h
  dsimp only at h
  split at h
  · cases h
  · rename_i ev hev
    split at h
    · cases h
    · rename_i m' hm'
      cases h
      obtain ⟨hgen, rfl, hrev⟩ := manifestDocument_ok hm'
      obtain ⟨hsize, hlook⟩ := bucketEvidence_ok hev
      refine ⟨hrev, good_of_written hev ?_ (fun b _ => hrec.bucket b) ?_ ?_⟩
      · intro b hb
        rw [hgen, hk]
        simp [writtenShards, hb, hsize b hb]
      · intro b hb idx hidx
        unfold readReplicaBucket at hidx
        rw [hlook b, if_neg hb, AList.lookup_empty] at hidx
        cases hidx
        exact empty_bucket_of hrec hb
      · intro b hb
        exact length_of_bucket (empty_bucket_of hrec hb)

/-- What a publication leaves: the rows, and the manifest with its shards as before, or one that
carries the current revisions and may be served. -/
structure Published (cfg : SiteHead) (P : Codec) (k k' : ReplicaDisk) : Prop where
  disk : k'.toDisk = k.toDisk
  manifest : (k'.manifest = k.manifest ∧
      ∀ m, k.manifest = some m → k'.shards m.generation = k.shards m.generation) ∨
    ∃ m', k'.manifest = some m' ∧ m'.revisions = revs cfg k.toDisk ∧ Good cfg P k' m'

theorem publishReplicaRebuild_published {k : ReplicaDisk} {generation : String} {records : Index}
    {revisions : Revisions} (written : Bool)
    (hrec : revisions = revs cfg k.toDisk → records.Of (replicaSet cfg k.files))
    (hfresh : ∀ m, k.manifest = some m → m.generation ≠ generation) :
    Published cfg P k (publishReplicaRebuild cfg P k generation records revisions written) := by
  unfold publishReplicaRebuild
  split
  · exact ⟨rfl, .inl ⟨rfl, fun _ _ => rfl⟩⟩
  · rename_i files m hm
    split
    · exact ⟨rfl, .inl ⟨rfl, fun _ _ => rfl⟩⟩
    · rename_i hrev
      have hcur : revisions = revs cfg k.toDisk := (not_not.mp hrev).symm
      split
      · refine ⟨rfl, .inl ⟨rfl, fun m' hm' => ?_⟩⟩
        exact Function.update_of_ne (hfresh m' hm') _ _
      · dsimp only
        split
        · obtain ⟨hr, hgood⟩ := rebuiltGeneration_good
            (k := { k.setShards generation files with manifest := some m }) hm (hrec hcur)
            (ReplicaDisk.setShards_shards k generation files)
          exact ⟨rfl, .inr ⟨m, rfl, hr.trans hcur, hgood⟩⟩
        · rename_i old _
          obtain ⟨hr, hgood⟩ := rebuiltGeneration_good
            (k := { (k.setShards old.generation fun _ => none).setShards generation files with
              manifest := some m }) hm (hrec hcur)
            (ReplicaDisk.setShards_shards _ generation files)
          exact ⟨rfl, .inr ⟨m, rfl, hr.trans hcur, hgood⟩⟩

/-- A step that changes no row, but may publish a manifest. -/
theorem Inv.published {k' : ReplicaDisk} (h : Inv cfg P s)
    (hp : Published cfg P s.toReplicaDisk k') : Inv cfg P { s with toReplicaDisk := k' } where
  manifest m hm := by
    show DerivedAt cfg k'.toDisk m.revisions (Good cfg P k' m)
    rcases hp.manifest with ⟨hsame, hsh⟩ | ⟨m', hm', hrev, hgood⟩
    · have hm₀ : s.manifest = some m := hsame ▸ hm
      have hfwd : Forward s.toDisk k'.toDisk := fun d => by rw [hp.disk]
      exact (h.manifest m hm₀).forward hfwd fun hg => hg.congr (by rw [hp.disk]) (hsh m hm₀)
    · obtain rfl : m' = m := Option.some.inj (hm'.symm.trans hm)
      rw [hp.disk, hrev]
      exact .now hgood
  builds p b hb := by
    show DerivedAt cfg k'.toDisk b.revisions (b.records.Of (replicaSet cfg k'.toDisk.files))
    rw [hp.disk]
    exact h.builds p b hb

theorem Inv.setBuild {p : Nat} {o : Option Rebuild} (h : Inv cfg P s)
    (ho : ∀ b, o = some b →
      DerivedAt cfg s.toDisk b.revisions (b.records.Of (replicaSet cfg s.files))) :
    Inv cfg P (s.setBuild p o) where
  manifest := h.manifest
  builds q b hb := by
    change Function.update s.builds p o q = some b at hb
    rcases eq_or_ne q p with rfl | hne
    · rw [Function.update_self] at hb
      exact ho b hb
    · rw [Function.update_of_ne hne] at hb
      exact h.builds q b hb

/-- What a scan builds is the index of the registry it saw. -/
theorem buildReplicaRecords_of {r : Registry} {rows : List JobEntry} {records : Index}
    (hrows : rows.Perm (iterAll cfg.toHeadConfig r))
    (h : buildReplicaRecords cfg rows ∅ = .ok records) : records.Of (replicaSet cfg r) := by
  have key : ∀ (es : List JobEntry) (idx : Index), buildReplicaRecords cfg es idx = .ok records →
      records = addAll idx (es.filterMap (entryReplicaRecord cfg)) := by
    intro es
    induction es with
    | nil =>
      intro idx h
      cases h
      rfl
    | cons e es ih =>
      intro idx h
      unfold buildReplicaRecords at h
      split at h
      · rename_i hc
        rw [List.filterMap_cons_none hc]
        exact ih idx h
      · rename_i c hc
        split at h
        · cases h
        · rw [List.filterMap_cons_some hc]
          exact ih _ h
  rw [key rows ∅ h]
  exact addAll_rows_of hrows

theorem step_inv {a : Act} (h : Inv cfg P s) (hok : Kept cfg P s a)
    (hs : step cfg P s a = some s') : Inv cfg P s' := by
  cases a with
  | touch d stamp =>
    simp only [step] at hs
    split at hs
    · rename_i hlt
      cases hs
      exact h.moved rfl (.update hlt.le rfl) rfl rfl
    · cases hs
  | save entry now w v =>
    simp only [step] at hs
    split at hs
    · cases hs
      exact h
    · rename_i d doc hprep
      split at hs
      · rename_i hstamp
        cases hs
        exact save_inv v h hok hprep hstamp
      · cases hs
  | remove id now w v =>
    simp only [step] at hs
    split at hs
    · rename_i d hres
      split at hs
      · rename_i hstamp
        cases hs
        exact remove_inv v h hres hstamp
      · cases hs
    · cases hs
      exact h
  | scan p rows =>
    simp only [step] at hs
    split at hs
    · rename_i hperm
      split at hs
      · cases hs
        exact h
      · rename_i records hrec
        cases hs
        refine h.setBuild fun b hb => ?_
        cases hb
        exact .now (buildReplicaRecords_of (List.isPerm_iff.mp hperm) hrec)
    · cases hs
  | publish p generation written =>
    simp only [step] at hs
    split at hs
    · cases hs
    · rename_i b hb
      split at hs
      · cases hs
      · rename_i hfresh
        cases hs
        refine (h.published (publishReplicaRebuild_published written (h.builds p b hb).holds
          fun m hm hgen => hfresh ?_)).setBuild fun b hb => nomatch hb
        rw [hm]
        simpa using hgen

/-! ## What is served -/

namespace Index.Of

variable {idx idx' : Index} {S : Set ArtifactReplicaRecord}

/-- The records of an index are the newest ones of their keys. -/
theorem mem_records (hS : Set.InjOn ArtifactReplicaRecord.rank S) (h : idx.Of S)
    {c : ArtifactReplicaRecord} : c ∈ idx.entries.map (·.2) ↔
      Newest ArtifactReplicaRecord.key ArtifactReplicaRecord.rank S c.key c := by
  constructor
  · intro hc
    obtain ⟨⟨k, c'⟩, hmem, hcc⟩ := List.mem_map.mp hc
    obtain rfl : c' = c := hcc
    have hn := h.mem_entries hmem
    exact hn.key_eq ▸ hn
  · intro hn
    cases hl : idx.lookup c.key with
    | none => exact absurd rfl ((h c.key).empty hl c hn.mem)
    | some c' =>
      obtain rfl : c' = c := ((h c.key).newest c' hl).unique hS hn
      exact List.mem_map.mpr ⟨⟨_, c'⟩, AList.mem_lookup_iff.mp hl, rfl⟩

theorem nodup_records (h : idx.Of S) : (idx.entries.map (·.2)).Nodup := by
  have hnd : idx.entries.Nodup := (List.nodupKeys_iff_pairwise.mp idx.nodupKeys).imp
    fun hne heq => hne (congrArg Sigma.fst heq)
  refine List.Nodup.map_on ?_ hnd
  rintro ⟨k, c⟩ hc ⟨k', c'⟩ hc' heq
  obtain rfl : c = c' := heq
  obtain rfl : k = k' := (h.mem_entries hc).key_eq.symm.trans (h.mem_entries hc').key_eq
  rfl

end Index.Of

/-- The answer for a digest is the same from its bucket and from all records. -/
theorem siteRecords_eq {S : Set ArtifactReplicaRecord} {idx idx' : Index} {digest : String}
    (hS : Set.InjOn ArtifactReplicaRecord.rank S)
    (h : idx.Of (bucketSet P S (bucketKey P digest))) (h' : idx'.Of S) (site : String) :
    siteRecords idx digest site = siteRecords idx' digest site := by
  have hmem : ∀ c : ArtifactReplicaRecord, c.digest = digest →
      (c ∈ idx.entries.map (·.2) ↔ c ∈ idx'.entries.map (·.2)) := by
    rintro c rfl
    rw [h.mem_records (bucketSet_injOn hS _), h'.mem_records hS]
    constructor
    · intro hn
      refine ⟨hn.mem.1, rfl, fun r hr hk => hn.le r ⟨hr, ?_⟩ hk⟩
      exact congrArg (fun x : ReplicaKey => bucketKey P x.1) hk
    · intro hn
      exact ⟨⟨hn.mem, rfl⟩, rfl, fun r hr hk => hn.le r hr.1 hk⟩
  have hperm : ((idx.entries.map (·.2)).filter fun r => r.digest = digest && r.site = site).Perm
      ((idx'.entries.map (·.2)).filter fun r => r.digest = digest && r.site = site) := by
    refine (List.perm_ext_iff_of_nodup (h.nodup_records.filter _)
      (h'.nodup_records.filter _)).mpr fun c => ?_
    simp only [List.mem_filter, Bool.and_eq_true, decide_eq_true_eq]
    constructor
    · rintro ⟨hc, hd, hs⟩
      exact ⟨(hmem c hd).mp hc, hd, hs⟩
    · rintro ⟨hc, hd, hs⟩
      exact ⟨(hmem c hd).mpr hc, hd, hs⟩
  have : Std.Total fun a b : ArtifactReplicaRecord => a.node ≤ b.node :=
    ⟨fun a b => le_total a.node b.node⟩
  have : IsTrans ArtifactReplicaRecord fun a b => a.node ≤ b.node :=
    ⟨fun _ _ _ => le_trans⟩
  unfold siteRecords
  refine List.Perm.eq_of_pairwise ?_ (List.pairwise_insertionSort _ _)
    (List.pairwise_insertionSort _ _)
    ((List.perm_insertionSort _ _).trans (hperm.trans (List.perm_insertionSort _ _).symm))
  -- two records of one digest, site and node are the newest of the same key
  intro a b ha hb hab hba
  simp only [List.mem_insertionSort, List.mem_filter, Bool.and_eq_true, decide_eq_true_eq] at ha hb
  have hkey : a.key = b.key := by
    simp only [ArtifactReplicaRecord.key, Prod.mk.injEq]
    exact ⟨ha.2.1.trans hb.2.1.symm, ha.2.2.trans hb.2.2.symm, le_antisymm hab hba⟩
  have hna := (h'.mem_records hS).mp ((hmem a ha.2.1).mp ha.1)
  have hnb := (h'.mem_records hS).mp hb.1
  exact (hkey ▸ hna).unique hS hnb

theorem countOf_eq {ev : Evidence} {b : String} {v : Nat × String} (h : ⟨b, v⟩ ∈ ev.entries) :
    countOf ev b = v.1 := by
  have hl : ev.lookup b = some v := AList.mem_lookup_iff.mpr h
  simp [countOf, hl]

/-- A manifest that may be served counts all records of the registry. -/
theorem Good.evidenceCount {k : ReplicaDisk} {m : ReplicaManifest} (h : Good cfg P k m) :
    (newestIndex cfg k.files).entries.length = evidenceCount m.evidence := by
  have hkeys : ∀ x ∈ (newestIndex cfg k.files).entries, bucketKey P x.1.1 ∈ m.evidence.keys := by
    intro x hx
    by_contra hno
    have hzero : countOf m.evidence (bucketKey P x.1.1) = 0 := by
      have hl : m.evidence.lookup (bucketKey P x.1.1) = none :=
        AList.lookup_eq_none.mpr fun hmem => hno (AList.mem_keys.mp hmem)
      simp [countOf, hl]
    rw [h.count, List.length_eq_zero_iff] at hzero
    have hmem : x ∈ ((newestIndex cfg k.files).bucket P (bucketKey P x.1.1)).entries :=
      List.mem_filter.mpr ⟨hx, by simp⟩
    rw [hzero] at hmem
    cases hmem
  have hsum := length_eq_sum_classes (fun x : Sigma _ => bucketKey P x.1.1)
    (newestIndex cfg k.files).entries m.evidence.keys_nodup hkeys
  have hclass : ∀ x ∈ m.evidence.entries, ((newestIndex cfg k.files).entries.filter
      fun y => bucketKey P y.1.1 = x.1).length = x.2.1 := fun x hx =>
    (h.count x.1).symm.trans (countOf_eq hx)
  rw [hsum, ReplicaIndex.evidenceCount]
  simp only [AList.keys, List.keys, List.map_map]
  exact congrArg List.sum (List.map_congr_left hclass)

/-- Nothing is indexed yet; the registry may hold any rows. -/
structure Start (s : Sys) : Prop where
  manifest : s.manifest = none
  builds : ∀ p, s.builds p = none

theorem start_inv (h : Start s) : Inv cfg P s where
  manifest m hm := by
    rw [h.manifest] at hm
    cases hm
  builds p b hb := by
    rw [h.builds] at hb
    cases hb

/-- In every run without a demoting save, what a current manifest serves for a digest and a site
is what a cold rebuild returns, whatever the order it meets the rows in: for each node the newest
record. -/
theorem indexed_eq_rebuild {s₀ : Sys} {as : List Act} (h₀ : Start s₀)
    (hok : Meets (Kept cfg P) (step cfg P) s₀ as) (hrun : run (step cfg P) s₀ as = some s)
    {digest site : String} (hserved : (indexedReplicas cfg P s.toReplicaDisk digest site).isSome)
    {rows : List JobEntry} (hrows : rows.Perm (iterAll cfg.toHeadConfig s.files))
    (published : Bool) :
    ∃ records, buildReplicaRecords cfg rows ∅ = .ok records ∧
      artifactReplicaRecords cfg P s.toReplicaDisk rows published digest site =
        siteRecords records digest site ∧
      ∀ c, c ∈ siteRecords records digest site ↔ c.digest = digest ∧ c.site = site ∧
        Newest ArtifactReplicaRecord.key ArtifactReplicaRecord.rank (replicaSet cfg s.files)
          c.key c := by
  have hinv : Inv cfg P s :=
    run_inv_of_meets (fun s a s' hI ha hs => step_inv hI ha hs) (start_inv h₀) hok hrun
  obtain ⟨rs, hrs⟩ := Option.isSome_iff_exists.mp hserved
  have hidx := hrs
  unfold indexedReplicas at hidx
  split at hidx
  · cases hidx
  · rename_i m hm
    split at hidx
    · cases hidx
    · rename_i idx hread
      cases hidx
      obtain ⟨hgood, hvalid⟩ := hinv.readManifest hm
      have hS : Set.InjOn ArtifactReplicaRecord.rank (replicaSet cfg s.files) :=
        replicaSet_injOn s.files
      have hof : (addAll ∅ (rows.filterMap (entryReplicaRecord cfg))).Of
          (replicaSet cfg s.files) := addAll_rows_of hrows
      have hlimit : (addAll ∅ (rows.filterMap (entryReplicaRecord cfg))).entries.length ≤
          maxReplicaIndexItems := by
        rw [(hof.perm hS (newestIndex_of s.files)).length_eq, hgood.evidenceCount]
        simp only [manifestValid, Bool.and_eq_true, decide_eq_true_eq] at hvalid
        omega
      have hmem : ∀ c, c ∈ siteRecords (addAll ∅ (rows.filterMap (entryReplicaRecord cfg)))
          digest site ↔ c.digest = digest ∧ c.site = site ∧ Newest ArtifactReplicaRecord.key
            ArtifactReplicaRecord.rank (replicaSet cfg s.files) c.key c := by
        intro c
        simp only [siteRecords, List.mem_insertionSort, List.mem_filter, hof.mem_records hS,
          Bool.and_eq_true, decide_eq_true_eq]
        tauto
      refine ⟨_, buildReplicaRecords_eq rows ∅ hlimit, ?_, hmem⟩
      unfold artifactReplicaRecords
      split
      · -- no record has such a digest
        rename_i hhex
        symm
        refine List.eq_nil_iff_forall_not_mem.mpr fun c hc => ?_
        obtain ⟨rfl, -, hn⟩ := (hmem c).mp hc
        obtain ⟨id, e, -, he⟩ := hn.mem
        simp [(entryReplicaRecord_some he).2] at hhex
      · rw [hrs]
        exact siteRecords_eq hS (hgood.shard _ idx hread) hof site

/-! ## A re-timed holder -/

def SiteHead.sample : SiteHead where
  toHeadConfig := .sample
  nodes := [{ name := "gpu-a", site := some "lab" }]

def sampleDigest : String := "aaaaaaaaaaaaaaaaaaaaaaaaaaaaaaaaaaaaaaaaaaaaaaaaaaaaaaaaaaaaaaaa"

def sampleRecord (id : JobId) (started : Time) : ArtifactReplicaRecord where
  digest := sampleDigest
  site := "lab"
  node := "gpu-a"
  jobId := id
  jobDir := "~/dt/jobs/" ++ id
  recordedAt := started

/-- The hashes and sizes of the files of the sample runs. -/
def Codec.sample : Codec where
  sha256 _ := "ffe054fe7ae0cb6dc65c3af9b61d5209f439851db43d0ba5997337df154668eb"
  shardHash doc :=
    if doc.records = [sampleRecord "job-2" 1005] then
      "70c93cac4c47894929eff8fd3c5c3f59b6bb068e1c33144018e9ff4e0ad43a3b"
    else if doc.records = [sampleRecord "job-2" 1000] then
      "52266b0452bb7987899023b0e216ab9087fb7ea301adfb6d7159e4a7c9ce2540"
    else "314f4d28f349aeefbe8023adf4430d50e978c78ba4cd829e89a1c941a22023bb"
  shardSize _ := 248
  manifestSize _ := 485

/-- A running job on the seed node. -/
def sampleHolder (id : JobId) (started : Time) : JobEntry :=
  { JobEntry.sample id with
    node := "gpu-a"
    status := .running
    snapshotSha256 := some sampleDigest
    startedAt := some started }

/-- What a scan reads for it. -/
def sampleScanned (id : JobId) (started now : Time) : JobEntry :=
  { sampleHolder id started with
    storageLayout := some .role
    updatedAt := some now
    customEnvLoaded := false }

def Sys.empty : Sys where
  files := fun _ => ∅
  stamp := fun _ => 0
  index := none
  manifest := none
  shards := fun _ _ => none
  builds := fun _ => none

/-- Two jobs with one snapshot are placed on one node and the index is built; then the probe of
the later one replaces the start time the head noted by the one the node reports. -/
def retimedRun (reported : Time) : List Act :=
  [ .save (sampleHolder "job-1" 1002) 1002 { stamp := 1 } {},
    .save (sampleHolder "job-2" 1005) 1005 { stamp := 2 } {},
    .scan 0 [sampleScanned "job-2" 1005 1005, sampleScanned "job-1" 1002 1002],
    .publish 0 "g-00000000000000000000000000000000" true,
    .save (sampleHolder "job-2" reported) 1010 { stamp := 3 } {} ]

instance (s : Sys) (a : Act) : Decidable (Kept .sample .sample s a) :=
  match a with
  | .save entry _ _ _ =>
    inferInstanceAs (Decidable (demotes .sample .sample s.toReplicaDisk entry = false))
  | .touch .. | .remove .. | .scan .. | .publish .. => .isTrue trivial

/-- A later start time keeps the index exact. -/
theorem indexed_eq_rebuild_sample : ∃ s records,
    run (step .sample .sample) Sys.empty (retimedRun 1010) = some s ∧
      buildReplicaRecords .sample (iterAll HeadConfig.sample s.files) ∅ = .ok records ∧
      artifactReplicaRecords .sample .sample s.toReplicaDisk (iterAll HeadConfig.sample s.files)
        false sampleDigest "lab" = siteRecords records sampleDigest "lab" ∧
      siteRecords records sampleDigest "lab" = [sampleRecord "job-2" 1010] := by
  have hstart : Start Sys.empty := ⟨rfl, fun _ => rfl⟩
  have hok : Meets (Kept .sample .sample) (step .sample .sample) Sys.empty (retimedRun 1010) := by
    decide +kernel
  have hrun : ((run (step .sample .sample) Sys.empty (retimedRun 1010)).map fun s =>
      indexedReplicas .sample .sample s.toReplicaDisk sampleDigest "lab") =
        some (some [sampleRecord "job-2" 1010]) := by
    decide +kernel
  obtain ⟨s, hs, hidx⟩ := Option.map_eq_some_iff.mp hrun
  obtain ⟨records, hbuild, heq, -⟩ := indexed_eq_rebuild hstart hok hs
    (Option.isSome_iff_exists.mpr ⟨_, hidx⟩) (List.Perm.refl _) false
  refine ⟨s, records, hs, hbuild, heq, ?_⟩
  have hhex : hexOf 64 sampleDigest = true := by decide
  rw [← heq, artifactReplicaRecords, hhex, hidx]
  rfl

/-- With the earlier time of the node the index still serves the re-timed job, while the newest
record of the node is that of the other one. -/
theorem retimed_holder_served : ∃ s records,
    run (step .sample .sample) Sys.empty (retimedRun 1000) = some s ∧
      buildReplicaRecords .sample (iterAll HeadConfig.sample s.files) ∅ = .ok records ∧
      indexedReplicas .sample .sample s.toReplicaDisk sampleDigest "lab" =
        some [sampleRecord "job-2" 1000] ∧
      siteRecords records sampleDigest "lab" = [sampleRecord "job-1" 1002] := by
  have hrun : ((run (step .sample .sample) Sys.empty (retimedRun 1000)).bind fun s =>
      (buildReplicaRecords .sample (iterAll HeadConfig.sample s.files) ∅).toOption.map fun r =>
        (indexedReplicas .sample .sample s.toReplicaDisk sampleDigest "lab",
          siteRecords r sampleDigest "lab")) =
      some (some [sampleRecord "job-2" 1000], [sampleRecord "job-1" 1002]) := by
    decide +kernel
  obtain ⟨s, hs, hb⟩ := Option.bind_eq_some_iff.mp hrun
  obtain ⟨records, hr, heq⟩ := Option.map_eq_some_iff.mp hb
  refine ⟨s, records, hs, ?_, congrArg Prod.fst heq, congrArg Prod.snd heq⟩
  cases h : buildReplicaRecords .sample (iterAll HeadConfig.sample s.files) ∅ with
  | error m => simp [h, Except.toOption] at hr
  | ok r =>
    simp only [h, Except.toOption, Option.some.injEq] at hr
    rw [hr]

end Dt.Jobs.ReplicaIndex
