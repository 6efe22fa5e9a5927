import Dt.Jobs.ActiveIndex
import Mathlib.Logic.Function.Basic

/-!
# Saving and removing as one step

The lifecycle writers hold the lock of their job from the read to the write, so for one job
`save` and `remove_record` are atomic. `save` here is the whole write: the checks of `savePrepare`
and the publication of the document. `SavedAs` says what a reader gets afterwards.
-/

namespace Dt.Jobs

open Dt.Lib

/-- Put one document into a registry directory. -/
def Registry.put (r : Registry) (d : Layout) (doc : JobEntry) (now : Time) : Registry :=
  Function.update r d ((r d).insert doc.jobId (.document doc now))

/-- `save` under the lock of the job. -/
def save (cfg : HeadConfig) (r : Registry) (entry : JobEntry) (now : Time) :
    Except String Registry :=
  match savePrepare cfg r entry now with
  | .error m => .error m
  | .ok (d, doc) => .ok (r.put d doc now)

/-- `remove_record` under the lock of the job; a row that cannot be decoded is not removed. -/
def removeRecord (cfg : HeadConfig) (r : Registry) (id : JobId) : Except String Registry :=
  match resolveRegistryRecord cfg r id with
  | .error m => .error m
  | .ok none => .ok r
  | .ok (some d) =>
    match readEntryPath r d id with
    | .error m => .error m
    | .ok _ => .ok (Function.update r d ((r d).erase id))

/-- The stored row after a save of `entry` at time `now`: the lifecycle fields as they were
handed over, the diagnostics bounded, the update time set. -/
structure SavedAs (entry : JobEntry) (now : Time) (e : JobEntry) : Prop where
  jobId : e.jobId = entry.jobId
  status : e.status = entry.status
  resultState : e.resultState = entry.resultState
  exitCode : e.exitCode = entry.exitCode
  finishedAt : e.finishedAt = entry.finishedAt
  terminalFinalizedAt : e.terminalFinalizedAt = entry.terminalFinalizedAt
  createdAt : e.createdAt = entry.createdAt
  updatedAt : e.updatedAt = some now
  dispatchNode : e.dispatchNode = entry.dispatchNode
  dispatchToken : e.dispatchToken = entry.dispatchToken
  reason : e.reason = entry.reason.map (diagnosticExcerpt maxJobDiagnosticChars)

theorem savePrivate_eq {existing : Option JobEntry} {entry p : JobEntry}
    (h : savePrivate existing entry = .ok p) :
    ∃ env keys, p = { entry with
      customEnv := env, customEnvKeys := keys, customEnvLoaded := true } := by
  unfold savePrivate at h
  split at h
  · rename_i hl
    cases h
    exact ⟨entry.customEnv, sortedKeys entry.customEnv, by rw [← hl]⟩
  · split at h
    · cases h
    · split at h
      · cases h
      · cases h
        exact ⟨_, _, rfl⟩

/-- What a published document reads as. -/
theorem saveRow_savedAs {cfg : HeadConfig} {d : Layout} {existing : Option JobEntry}
    {entry doc e : JobEntry} {now : Time} {mtime : Option Time} {id : JobId}
    (h : saveRow cfg d existing entry now = .ok doc)
    (he : decodeEntry true mtime id doc = .ok e) : SavedAs entry now e := by
  obtain ⟨-, -, p, hp, henc⟩ := saveRow_ok.mp h
  obtain ⟨rfl, -⟩ := encodeRegistryEntry_ok.mp henc
  obtain ⟨cenv, keys, rfl⟩ := savePrivate_eq hp
  obtain ⟨-, -, env, -, -, rfl⟩ := decodeEntry_ok.mp he
  have hidem : diagnosticExcerpt maxJobDiagnosticChars ∘
      diagnosticExcerpt maxJobDiagnosticChars = diagnosticExcerpt maxJobDiagnosticChars :=
    funext fun r => diagnosticExcerpt_idem (by decide) r
  constructor <;>
    simp only [fillDefaults, boundedEntry, boundEntryDiagnostics, JobEntry.setUpdatedAt,
      JobEntry.setLayout, Option.getD_some, Option.map_map, hidem]

/-- An encoded document decodes, whatever the time of its file. -/
theorem decodeEntry_mtime {mtime mtime' : Option Time} {id : JobId} {doc e : JobEntry}
    (h : decodeEntry true mtime id doc = .ok e) : ∃ e', decodeEntry true mtime' id doc = .ok e' := by
  obtain ⟨h₁, h₂, env, h₃, h₄, -⟩ := decodeEntry_ok.mp h
  exact ⟨_, decodeEntry_ok.mpr ⟨h₁, h₂, env, h₃, h₄, rfl⟩⟩

theorem candidates_nodup (cfg : HeadConfig) : cfg.candidates.Nodup := by
  unfold HeadConfig.candidates
  cases cfg.layout <;> decide

theorem put_lookup_self (r : Registry) (d : Layout) (doc : JobEntry) (now : Time) :
    ((r.put d doc now) d).lookup doc.jobId = some (.document doc now) := by
  simp [Registry.put, AList.lookup_insert]

theorem put_lookup_of_ne {r : Registry} {d d' : Layout} {doc : JobEntry} {now : Time}
    {id : JobId} (h : d' ≠ d ∨ id ≠ doc.jobId) :
    ((r.put d doc now) d').lookup id = (r d').lookup id := by
  unfold Registry.put
  rcases eq_or_ne d' d with rfl | hne
  · rw [Function.update_self, AList.lookup_insert_ne (h.resolve_left (by simp))]
  · rw [Function.update_of_ne hne]

/-- After a document is put where the row was, or into the current layout, it is the only file
of its name. -/
theorem resolve_put {cfg : HeadConfig} {r : Registry} {d : Layout} {doc : JobEntry} {now : Time}
    (hid : validJobId doc.jobId = true)
    (h : d = cfg.layout ∧ resolveRegistryRecord cfg r doc.jobId = .ok none ∨
      resolveRegistryRecord cfg r doc.jobId = .ok (some d)) :
    resolveRegistryRecord cfg (r.put d doc now) doc.jobId = .ok (some d) := by
  have hd : d ∈ cfg.candidates := by
    rcases h with ⟨rfl, -⟩ | h
    · exact layout_mem_candidates cfg
    · exact resolved_mem_candidates h
  have hloc : registryLocations cfg (r.put d doc now) doc.jobId = [d] := by
    refine List.perm_singleton.mp ((List.perm_ext_iff_of_nodup
      ((candidates_nodup cfg).filter _) (List.nodup_singleton d)).mpr fun d' => ?_)
    rw [show List.filter _ cfg.candidates = registryLocations cfg (r.put d doc now) doc.jobId
      from rfl, mem_locations, List.mem_singleton]
    constructor
    · rintro ⟨hc, hs⟩
      by_contra hne
      rw [put_lookup_of_ne (.inl hne)] at hs
      have hmem : d' ∈ registryLocations cfg r doc.jobId := mem_locations.mpr ⟨hc, hs⟩
      rcases h with ⟨-, h⟩ | h
      · simp [resolve_ok h] at hmem
      · rw [resolve_ok h] at hmem
        exact hne (by simpa using hmem)
    · rintro rfl
      exact ⟨hd, by rw [put_lookup_self]; rfl⟩
  simp [resolveRegistryRecord, hid, hloc]

theorem row_of_resolve {cfg : HeadConfig} {r : Registry} {id : JobId} {d : Layout} {e : JobEntry}
    (hid : validJobId id = true) (hr : resolveRegistryRecord cfg r id = .ok (some d))
    (he : readEntryPath r d id = .ok e) : row cfg r id = some e := by
  simp [row, load, hid, hr, he, Except.map, Except.toOption]

/-- A save leaves the files of other names alone. -/
theorem save_lookup_of_ne {cfg : HeadConfig} {r r' : Registry} {entry : JobEntry} {now : Time}
    {id : JobId} (h : save cfg r entry now = .ok r') (hne : id ≠ entry.jobId) (d : Layout) :
    (r' d).lookup id = (r d).lookup id := by
  unfold save at h
  split at h
  · cases h
  · rename_i d' doc hprep
    cases h
    obtain ⟨existing, hrow, -⟩ := savePrepare_ok hprep
    obtain ⟨-, hid⟩ := saveRow_publishable hrow
    exact put_lookup_of_ne (.inr (hid ▸ hne))

/-- The row of a job after its save is the published document, decoded. -/
theorem save_decoded {cfg : HeadConfig} {r r' : Registry} {entry : JobEntry} {now : Time}
    (h : save cfg r entry now = .ok r') :
    ∃ d existing doc e, saveRow cfg d existing entry now = .ok doc ∧
      decodeEntry true (some now) doc.jobId doc = .ok e ∧ row cfg r' entry.jobId = some e := by
  unfold save at h
  split at h
  · cases h
  · rename_i d doc hprep
    cases h
    obtain ⟨existing, hrow, hloc⟩ := savePrepare_ok hprep
    obtain ⟨hpub, hid⟩ := saveRow_publishable hrow
    obtain ⟨e₀, he₀⟩ := hpub.decodes
    obtain ⟨hvalid, -⟩ := decodeEntry_ok.mp he₀
    obtain ⟨e, he⟩ : ∃ e, decodeEntry true (some now) doc.jobId doc = .ok e :=
      decodeEntry_mtime he₀
    have hres : resolveRegistryRecord cfg (r.put d doc now) doc.jobId = .ok (some d) := by
      refine resolve_put hvalid ?_
      rw [hid]
      rcases hloc with ⟨-, hd, hn⟩ | ⟨e, -, hs, -⟩
      · exact .inl ⟨hd, hn⟩
      · exact .inr hs
    have hread : readEntryPath (r.put d doc now) d doc.jobId = .ok e :=
      readEntryPath_ok.mpr ⟨doc, now, put_lookup_self r d doc now, he⟩
    refine ⟨d, existing, doc, e, hrow, he, ?_⟩
    rw [← hid]
    exact row_of_resolve hvalid hres hread

/-- A save replaces the row of its job and no other. -/
theorem save_row {cfg : HeadConfig} {r r' : Registry} {entry : JobEntry} {now : Time}
    (h : save cfg r entry now = .ok r') :
    (∃ e, row cfg r' entry.jobId = some e ∧ SavedAs entry now e) ∧
      ∀ id, id ≠ entry.jobId → row cfg r' id = row cfg r id := by
  obtain ⟨d, existing, doc, e, hrow, he, hr⟩ := save_decoded h
  exact ⟨⟨e, hr, saveRow_savedAs hrow he⟩,
    fun id hne => row_congr fun d' => save_lookup_of_ne h hne d'⟩

/-- The stored row has the lineage of the row that was handed over. -/
theorem save_lineage {cfg : HeadConfig} {r r' : Registry} {entry e : JobEntry} {now : Time}
    (h : save cfg r entry now = .ok r') (he : row cfg r' entry.jobId = some e) :
    e.lineage = entry.lineage := by
  obtain ⟨d, existing, doc, e', hrow, hdec, hr⟩ := save_decoded h
  obtain rfl : e' = e := Option.some.inj (hr.symm.trans he)
  obtain ⟨-, -, p, hp, henc⟩ := saveRow_ok.mp hrow
  obtain ⟨rfl, -⟩ := encodeRegistryEntry_ok.mp henc
  obtain ⟨cenv, keys, rfl⟩ := savePrivate_eq hp
  obtain ⟨-, -, env, -, -, rfl⟩ := decodeEntry_ok.mp hdec
  rfl

theorem save_requestId {cfg : HeadConfig} {r r' : Registry} {entry e : JobEntry} {now : Time}
    (h : save cfg r entry now = .ok r') (he : row cfg r' entry.jobId = some e) :
    e.requestId = entry.requestId := congrArg Lineage.requestId (save_lineage h he)

/-- A save never gets past the finality of the stored row. -/
theorem save_fence {cfg : HeadConfig} {r r' : Registry} {entry e : JobEntry} {now : Time}
    (h : save cfg r entry now = .ok r') (he : row cfg r entry.jobId = some e)
    (hf : e.terminalFinalizedAt.isSome) :
    entry.status = .lost ∧ entry.terminalFinalizedAt = e.terminalFinalizedAt := by
  unfold save at h
  split at h
  · cases h
  · rename_i d doc hprep
    obtain ⟨existing, hrow, hloc⟩ := savePrepare_ok hprep
    obtain ⟨hfence, -⟩ := saveRow_ok.mp hrow
    obtain ⟨d', hres, hread⟩ := row_eq_some he
    rcases hloc with ⟨-, -, hn⟩ | ⟨e', rfl, hs, hread'⟩
    · rw [hn] at hres
      cases hres
    · rw [hs] at hres
      cases hres
      rw [hread'] at hread
      cases hread
      exact hfence e rfl hf

/-- What every stored row satisfies across its lifecycle fields. -/
theorem row_provenance {cfg : HeadConfig} {r : Registry} {id : JobId} {e : JobEntry}
    (h : row cfg r id = some e) :
    (e.terminalFinalizedAt.isSome → e.status = .lost) ∧
      (e.dispatchNode.isNone = e.dispatchToken.isNone) ∧
      (e.dispatchNode.isSome → e.status = .queued) := by
  obtain ⟨d, -, hr⟩ := row_eq_some h
  obtain ⟨doc, mtime, -, hd⟩ := readEntryPath_ok.mp hr
  obtain ⟨-, -, env, -, hv, rfl⟩ := decodeEntry_ok.mp hd
  simp only [validateEntry, validateEntryProvenance, bind_unit_ok, check_ok] at hv
  obtain ⟨-, -, ⟨-, -, hfin, -, hpair, hclaim, -⟩, -⟩ := hv
  change ((boundedEntry true env doc).terminalFinalizedAt.isSome →
      (boundedEntry true env doc).status = .lost) ∧
    ((boundedEntry true env doc).dispatchNode.isNone =
      (boundedEntry true env doc).dispatchToken.isNone) ∧
    ((boundedEntry true env doc).dispatchNode.isSome →
      (boundedEntry true env doc).status = .queued)
  refine ⟨fun hs => ?_, by simpa using hpair, fun hs => ?_⟩
  · simpa [hs] using hfin
  · simpa [hs] using hclaim

/-! ## The registry with its index -/

/-- How far a write of a row gets: the rename of the row file, the sync of its directory, the
replacement of the index; and the stamp the directory has afterwards. -/
structure WriteOutcome where
  renamed : Bool := true
  synced : Bool := true
  indexed : Bool := true
  stamp : Nat

/-- `save` on disk: the checks, the row, and the incremental update of the index. -/
def Disk.save (cfg : HeadConfig) (k : Disk) (entry : JobEntry) (now : Time) (w : WriteOutcome) :
    Except String Unit × Disk :=
  match savePrepare cfg k.files entry now with
  | .error m => (.error m, k)
  | .ok (d, doc) =>
    let stamped := { k with stamp := Function.update k.stamp d w.stamp }
    let failed := "cannot publish registry record: " ++ doc.jobId ++ ".json"
    if !w.renamed then (.error failed, stamped)
    else
      let written := { stamped with files := k.files.put d doc now }
      if !w.synced then (.error failed, written)
      else
        match (readActiveIndex cfg k).bind fun i =>
            refreshActiveIndex (registryDirectoryRevisions cfg written) i now (.saved doc) with
        | none => (.ok (), written)
        | some i => (.ok (), if w.indexed then { written with index := some i } else written)

/-- `remove_record` on disk. -/
def Disk.remove (cfg : HeadConfig) (k : Disk) (id : JobId) (now : Time) (w : WriteOutcome) :
    Except String Unit × Disk :=
  match resolveRegistryRecord cfg k.files id, removeRecord cfg k.files id with
  | .ok (some d), .ok files =>
    let stamped := { k with stamp := Function.update k.stamp d w.stamp }
    let failed := "cannot durably remove registry record: " ++ id
    if !(w.renamed && w.synced) then (.error failed, stamped)
    else
      let written := { stamped with files := files }
      match (readActiveIndex cfg k).bind fun i =>
          refreshActiveIndex (registryDirectoryRevisions cfg written) i now (.removed id) with
      | none => (.ok (), written)
      | some i => (.ok (), if w.indexed then { written with index := some i } else written)
  | .ok none, _ => (.ok (), k)
  | .error m, _ => (.error m, k)
  | .ok (some _), .error m => (.error m, k)

/-- A save that passes its checks stamps the directory of the row, and publishes the row or
fails. -/
theorem Disk.save_prepared {cfg : HeadConfig} {k : Disk} {entry doc : JobEntry} {now : Time}
    {d : Layout} (w : WriteOutcome) (h : savePrepare cfg k.files entry now = .ok (d, doc)) :
    (k.save cfg entry now w).2.stamp = Function.update k.stamp d w.stamp ∧
      (w.renamed = false ∧ (k.save cfg entry now w).2.files = k.files ∧
          (k.save cfg entry now w).1 ≠ .ok () ∨
        w.renamed = true ∧
          Dt.Jobs.save cfg k.files entry now = .ok (k.save cfg entry now w).2.files) := by
  unfold Disk.save Dt.Jobs.save
  rw [h]
  dsimp only
  cases hren : w.renamed with
  | false => exact ⟨rfl, .inl ⟨rfl, rfl, by simp⟩⟩
  | true =>
    simp only [Bool.not_true, Bool.false_eq_true, if_false]
    split
    · exact ⟨rfl, .inr ⟨trivial, rfl⟩⟩
    · split
      · exact ⟨rfl, .inr ⟨trivial, rfl⟩⟩
      · split <;> exact ⟨rfl, .inr ⟨trivial, rfl⟩⟩

/-- A save on disk leaves the rows alone or has the effect of `save` on them. -/
theorem Disk.save_files (cfg : HeadConfig) (k : Disk) (entry : JobEntry) (now : Time)
    (w : WriteOutcome) :
    (k.save cfg entry now w).2.files = k.files ∨
      Dt.Jobs.save cfg k.files entry now = .ok (k.save cfg entry now w).2.files := by
  cases h : savePrepare cfg k.files entry now with
  | error m =>
    left
    unfold Disk.save
    rw [h]
  | ok p =>
    obtain ⟨-, ⟨-, hf, -⟩ | ⟨-, hs⟩⟩ := Disk.save_prepared w h
    · exact .inl hf
    · exact .inr hs

/-- What one save on disk does to any row: nothing, or it replaces the row of its job, within
the finality of the stored one. -/
theorem Disk.save_row (cfg : HeadConfig) (k : Disk) (entry : JobEntry) (now : Time)
    (w : WriteOutcome) (id : JobId) :
    row cfg (k.save cfg entry now w).2.files id = row cfg k.files id ∨
      id = entry.jobId ∧ ∃ e, row cfg (k.save cfg entry now w).2.files id = some e ∧
        SavedAs entry now e ∧ ∀ e₀, row cfg k.files id = some e₀ →
          e₀.terminalFinalizedAt.isSome → entry.status = .lost ∧
            entry.terminalFinalizedAt = e₀.terminalFinalizedAt := by
  rcases k.save_files cfg entry now w with h | h
  · exact .inl (by rw [h])
  · obtain ⟨⟨e, he, hs⟩, hframe⟩ := Dt.Jobs.save_row h
    rcases eq_or_ne id entry.jobId with rfl | hne
    · exact .inr ⟨rfl, e, he, hs, fun e₀ he₀ hf => save_fence h he₀ hf⟩
    · exact .inl (hframe id hne)

/-- After a save on disk, a row is the one from before or belongs to the saved request. -/
theorem Disk.save_requestId (cfg : HeadConfig) (k : Disk) (entry : JobEntry) (now : Time)
    (w : WriteOutcome) (id : JobId) :
    row cfg (k.save cfg entry now w).2.files id = row cfg k.files id ∨
      id = entry.jobId ∧ ∀ e, row cfg (k.save cfg entry now w).2.files id = some e →
        e.requestId = entry.requestId := by
  rcases k.save_files cfg entry now w with h | h
  · exact .inl (by rw [h])
  · rcases eq_or_ne id entry.jobId with rfl | hne
    · exact .inr ⟨rfl, fun e he => Dt.Jobs.save_requestId h he⟩
    · exact .inl ((Dt.Jobs.save_row h).2 id hne)

/-- After a save on disk, a row is the one from before or has the lineage of the saved one. -/
theorem Disk.save_lineage (cfg : HeadConfig) (k : Disk) (entry : JobEntry) (now : Time)
    (w : WriteOutcome) {id : JobId} {e : JobEntry}
    (he : row cfg (k.save cfg entry now w).2.files id = some e) :
    row cfg k.files id = some e ∨ id = entry.jobId ∧ e.lineage = entry.lineage := by
  rcases k.save_files cfg entry now w with h | h
  · exact .inl (by rwa [h] at he)
  · rcases eq_or_ne id entry.jobId with rfl | hne
    · exact .inr ⟨rfl, Dt.Jobs.save_lineage h he⟩
    · exact .inl (by rwa [(Dt.Jobs.save_row h).2 id hne] at he)

/-- A save on disk that returns has published its row. -/
theorem Disk.save_ok {cfg : HeadConfig} {k : Disk} {entry : JobEntry} {now : Time}
    {w : WriteOutcome} (h : (k.save cfg entry now w).1 = .ok ()) :
    ∃ e, row cfg (k.save cfg entry now w).2.files entry.jobId = some e ∧ SavedAs entry now e := by
  cases hp : savePrepare cfg k.files entry now with
  | error m =>
    unfold Disk.save at h
    rw [hp] at h
    cases h
  | ok p =>
    obtain ⟨-, ⟨-, -, hfail⟩ | ⟨-, hs⟩⟩ := Disk.save_prepared w hp
    · exact absurd h hfail
    · exact (Dt.Jobs.save_row hs).1

/-- A save that the fence refuses says so and leaves the disk exactly as it was. -/
theorem Disk.save_refused {cfg : HeadConfig} {k : Disk} {entry e : JobEntry} {now : Time}
    (w : WriteOutcome) (he : row cfg k.files entry.jobId = some e)
    (hf : e.terminalFinalizedAt.isSome)
    (hbad : ¬ (entry.status = .lost ∧ entry.terminalFinalizedAt = e.terminalFinalizedAt)) :
    k.save cfg entry now w = (.error "a finalized lost result cannot be reopened", k) := by
  obtain ⟨d, hres, hread⟩ := row_eq_some he
  have hfence : saveFence (some e) entry =
      .error "a finalized lost result cannot be reopened" := by
    have h : entry.status = .lost → ¬ entry.terminalFinalizedAt = e.terminalFinalizedAt :=
      fun h₁ h₂ => hbad ⟨h₁, h₂⟩
    simpa [saveFence, check, hf] using h
  have hrow : saveRow cfg d (some e) entry now =
      .error "a finalized lost result cannot be reopened" := by
    simp [saveRow, hfence, bind, Except.bind]
  simp [Disk.save, savePrepare, hres, hread, hrow, Except.map]

theorem load_of_row {cfg : HeadConfig} {r : Registry} {id : JobId} {e : JobEntry}
    (h : row cfg r id = some e) : load cfg r id = .ok (some e) := by
  unfold row at h
  cases hl : load cfg r id with
  | error m => simp [hl, Except.toOption] at h
  | ok o => simpa [hl, Except.toOption] using h

theorem removeRecord_row_ne {cfg : HeadConfig} {r r' : Registry} {id id' : JobId}
    (h : removeRecord cfg r id = .ok r') (hne : id' ≠ id) : row cfg r' id' = row cfg r id' := by
  unfold removeRecord at h
  split at h
  · cases h
  · cases h; rfl
  · split at h
    · cases h
    · rename_i d _ _ _ _
      cases h
      refine row_congr fun d' => ?_
      rcases eq_or_ne d' d with rfl | hd
      · rw [Function.update_self, AList.lookup_erase_ne hne]
      · rw [Function.update_of_ne hd]

/-- The one file of a job is gone after its removal. -/
theorem removeRecord_gone {cfg : HeadConfig} {r r' : Registry} {id : JobId} {d : Layout}
    (hres : resolveRegistryRecord cfg r id = .ok (some d)) (h : removeRecord cfg r id = .ok r') :
    row cfg r' id = none := by
  simp only [removeRecord, hres] at h
  split at h
  · cases h
  · cases h
    -- a row would be read from a directory that had the file as well
    cases hrow : row cfg (Function.update r d ((r d).erase id)) id with
    | none => rfl
    | some e =>
      obtain ⟨d', hres', -⟩ := row_eq_some hrow
      have hmem : d' ∈ registryLocations cfg (Function.update r d ((r d).erase id)) id := by
        simp [resolve_ok hres']
      obtain ⟨hc, hs⟩ := mem_locations.mp hmem
      rcases eq_or_ne d' d with rfl | hne
      · rw [Function.update_self, AList.lookup_erase] at hs
        cases hs
      · rw [Function.update_of_ne hne] at hs
        have hold : d' ∈ registryLocations cfg r id := mem_locations.mpr ⟨hc, hs⟩
        rw [resolve_ok hres] at hold
        exact absurd (by simpa using hold) hne

/-- A removal takes the row of its job or leaves it. -/
theorem removeRecord_row {cfg : HeadConfig} {r r' : Registry} {id : JobId} {e : JobEntry}
    (h : removeRecord cfg r id = .ok r') (he : row cfg r' id = some e) :
    row cfg r id = some e := by
  cases hres : resolveRegistryRecord cfg r id with
  | error m =>
    simp only [removeRecord, hres] at h
    cases h
  | ok o =>
    cases o with
    | none =>
      simp only [removeRecord, hres] at h
      cases h
      exact he
    | some d =>
      rw [removeRecord_gone hres h] at he
      cases he

/-- A removal of a job that has a file stamps its directory, and removes the file or fails. -/
theorem Disk.remove_resolved {cfg : HeadConfig} {k : Disk} {id : JobId} {d : Layout} (now : Time)
    (w : WriteOutcome) (h : resolveRegistryRecord cfg k.files id = .ok (some d)) :
    ((k.remove cfg id now w).2.stamp = k.stamp ∨
        (k.remove cfg id now w).2.stamp = Function.update k.stamp d w.stamp) ∧
      ((k.remove cfg id now w).2.files = k.files ∧ (k.remove cfg id now w).1 ≠ .ok () ∨
        w.renamed = true ∧ (k.remove cfg id now w).2.stamp = Function.update k.stamp d w.stamp ∧
          removeRecord cfg k.files id = .ok (k.remove cfg id now w).2.files) := by
  unfold Disk.remove
  rw [h]
  cases hr : removeRecord cfg k.files id with
  | error m => exact ⟨.inl rfl, .inl ⟨rfl, by simp⟩⟩
  | ok files =>
    dsimp only
    cases hw : w.renamed && w.synced with
    | false => exact ⟨.inr rfl, .inl ⟨rfl, by simp⟩⟩
    | true =>
      have hren : w.renamed = true := (Bool.and_eq_true_iff.mp hw).1
      simp only [Bool.not_true, Bool.false_eq_true, if_false]
      split
      · exact ⟨.inr rfl, .inr ⟨hren, rfl, rfl⟩⟩
      · split <;> exact ⟨.inr rfl, .inr ⟨hren, rfl, rfl⟩⟩

theorem Disk.remove_row (cfg : HeadConfig) (k : Disk) {id : JobId} (now : Time) (w : WriteOutcome)
    {e : JobEntry} (h : row cfg (k.remove cfg id now w).2.files id = some e) :
    row cfg k.files id = some e := by
  unfold Disk.remove at h
  split at h
  · rename_i files _ hfiles
    dsimp only at h
    split at h
    · exact h
    · split at h
      · exact removeRecord_row hfiles h
      · split at h <;> exact removeRecord_row hfiles h
  · exact h
  · exact h
  · exact h

theorem Disk.remove_row_ne (cfg : HeadConfig) (k : Disk) {id id' : JobId} (now : Time)
    (w : WriteOutcome) (hne : id' ≠ id) :
    row cfg (k.remove cfg id now w).2.files id' = row cfg k.files id' := by
  unfold Disk.remove
  split
  · rename_i files _ hfiles
    dsimp only
    split
    · rfl
    · split
      · exact removeRecord_row_ne hfiles hne
      · split <;> exact removeRecord_row_ne hfiles hne
  · rfl
  · rfl
  · rfl

end Dt.Jobs
