import Dt.Jobs.Validate
import Mathlib.Data.List.AList
import Mathlib.Data.List.Dedup

/-!
# The registry on disk

One JSON file per job, in the directory of the current layout or in the legacy one. A row that
exists in both is a split brain, which no reader resolves. `load` reads one row, `savePrepare` is
everything `save` does before it takes the index lock: it resolves the authority, checks the
fences against the row on disk and encodes the row to publish.
-/

namespace Dt.Jobs

open Dt.Lib

/-- The part of the head configuration the registry reads. -/
structure HeadConfig where
  layout : Layout
  dirPath : Layout → String

/-- A head with both registry directories. -/
def HeadConfig.sample : HeadConfig where
  layout := .role
  dirPath
    | .legacy => "/srv/dt/registry"
    | .role => "/srv/dt/head/registry"

/-- A registry file: a decodable JSON document with its modification time, or other bytes. -/
inductive RowFile where
  | document (doc : JobEntry) (mtime : Time)
  | malformed
  deriving DecidableEq, Repr

abbrev Files := AList fun _ : JobId => RowFile

/-- The files of each registry directory. -/
abbrev Registry := Layout → Files

/-- The directories in the order `_registry_locations` looks at them. -/
def HeadConfig.candidates (cfg : HeadConfig) : List Layout :=
  match cfg.layout with
  | .legacy => [.legacy]
  | .role => [.role, .legacy]

def registryLocations (cfg : HeadConfig) (r : Registry) (id : JobId) : List Layout :=
  cfg.candidates.filter fun d => ((r d).lookup id).isSome

/-- Resolve one authority; never choose between role/legacy split brain. -/
def resolveRegistryRecord (cfg : HeadConfig) (r : Registry) (id : JobId) :
    Except String (Option Layout) :=
  if !validJobId id then .error "job identity is unsafe"
  else match registryLocations cfg r id with
  | [] => .ok none
  | [d] => .ok (some d)
  | ds => .error ("split-brain registry row for " ++ id ++ ": exists in " ++
      ", ".intercalate (ds.map cfg.dirPath) ++ "; run dt migrate to reconcile")

/-- `_decode_entry_result`: the row in one directory, with or without its private values. -/
def decodeEntryResult (priv : Bool) (r : Registry) (d : Layout) (id : JobId) :
    Except String JobEntry :=
  match (r d).lookup id with
  | none => .error ("registry record disappeared: " ++ id ++ ".json")
  | some .malformed => .error ("registry record is malformed: " ++ id ++ ".json")
  | some (.document doc mtime) =>
    match decodeRegistryDocument priv (some mtime) id doc with
    | .ok e => .ok e
    | .error m => .error ("registry record is invalid: " ++ id ++ ".json: " ++
        diagnosticExcerpt maxJobDiagnosticChars m)

def readEntryPath (r : Registry) (d : Layout) (id : JobId) : Except String JobEntry :=
  decodeEntryResult true r d id

def load (cfg : HeadConfig) (r : Registry) (id : JobId) : Except String (Option JobEntry) :=
  if !validJobId id then .ok none
  else match resolveRegistryRecord cfg r id with
  | .error m => .error m
  | .ok none => .ok none
  | .ok (some d) => (readEntryPath r d id).map some

/-- The row a reader gets for a job, when it gets one. -/
def row (cfg : HeadConfig) (r : Registry) (id : JobId) : Option JobEntry :=
  (load cfg r id).toOption.join

/-- The names a scan of the registry directories yields. -/
def registryIds (cfg : HeadConfig) (r : Registry) : List JobId :=
  (cfg.candidates.flatMap fun d => (r d).keys).dedup

/-- The rows of a full registry scan. -/
def registryRows (cfg : HeadConfig) (r : Registry) : List JobEntry :=
  (registryIds cfg r).filterMap (row cfg r)

/-! ## Rows and files -/

theorem resolve_ok {cfg : HeadConfig} {r : Registry} {id : JobId} {o : Option Layout}
    (h : resolveRegistryRecord cfg r id = .ok o) :
    registryLocations cfg r id = o.toList := by
  unfold resolveRegistryRecord at h
  split at h
  · cases h
  · split at h
    · cases h; assumption
    · cases h; assumption
    · cases h

theorem mem_locations {cfg : HeadConfig} {r : Registry} {id : JobId} {d : Layout} :
    d ∈ registryLocations cfg r id ↔ d ∈ cfg.candidates ∧ ((r d).lookup id).isSome := by
  simp [registryLocations]

theorem layout_mem_candidates (cfg : HeadConfig) : cfg.layout ∈ cfg.candidates := by
  unfold HeadConfig.candidates
  cases cfg.layout <;> decide

theorem resolved_mem_candidates {cfg : HeadConfig} {r : Registry} {id : JobId} {d : Layout}
    (h : resolveRegistryRecord cfg r id = .ok (some d)) : d ∈ cfg.candidates := by
  have hmem : d ∈ registryLocations cfg r id := by simp [resolve_ok h]
  exact (mem_locations.mp hmem).1

theorem decodeRegistryDocument_ok {priv : Bool} {mtime : Option Time} {id : JobId}
    {doc e : JobEntry} :
    decodeRegistryDocument priv mtime id doc = .ok e ↔ decodeEntry priv mtime id doc = .ok e := by
  unfold decodeRegistryDocument
  cases decodeEntry priv mtime id doc <;> simp

theorem decodeEntryResult_ok {priv : Bool} {r : Registry} {d : Layout} {id : JobId}
    {e : JobEntry} :
    decodeEntryResult priv r d id = .ok e ↔
      ∃ doc mtime, (r d).lookup id = some (.document doc mtime) ∧
        decodeEntry priv (some mtime) id doc = .ok e := by
  unfold decodeEntryResult
  split
  · simp_all
  · simp_all
  · rename_i doc mtime hl
    simp only [hl, Option.some.injEq, RowFile.document.injEq]
    constructor
    · intro h
      split at h
      · rename_i e' he
        exact ⟨doc, mtime, ⟨rfl, rfl⟩, by rw [← decodeRegistryDocument_ok, he, h]⟩
      · cases h
    · rintro ⟨doc', mtime', ⟨rfl, rfl⟩, h⟩
      rw [decodeRegistryDocument_ok.mpr h]

theorem readEntryPath_ok {r : Registry} {d : Layout} {id : JobId} {e : JobEntry} :
    readEntryPath r d id = .ok e ↔ ∃ doc mtime, (r d).lookup id = some (.document doc mtime) ∧
      decodeEntry true (some mtime) id doc = .ok e :=
  decodeEntryResult_ok

/-- A row is read from the one directory that has a file for it. -/
theorem row_eq_some {cfg : HeadConfig} {r : Registry} {id : JobId} {e : JobEntry}
    (h : row cfg r id = some e) :
    ∃ d, resolveRegistryRecord cfg r id = .ok (some d) ∧ readEntryPath r d id = .ok e := by
  unfold row load at h
  split at h
  · simp [Except.toOption] at h
  · split at h
    · simp [Except.toOption] at h
    · simp [Except.toOption] at h
    · rename_i d hd
      refine ⟨d, hd, ?_⟩
      cases hr : readEntryPath r d id with
      | error m => simp [hr, Except.map, Except.toOption] at h
      | ok e' => simpa [hr, Except.map, Except.toOption] using h

/-- A row depends only on the files of its own name. -/
theorem row_congr {cfg : HeadConfig} {r r' : Registry} {id : JobId}
    (h : ∀ d, (r d).lookup id = (r' d).lookup id) : row cfg r id = row cfg r' id := by
  have hloc : registryLocations cfg r id = registryLocations cfg r' id := by
    simp only [registryLocations, h]
  have hread : ∀ d, readEntryPath r d id = readEntryPath r' d id := fun d => by
    simp only [readEntryPath, decodeEntryResult, h]
  simp only [row, load, resolveRegistryRecord, hloc, hread]

theorem row_jobId {cfg : HeadConfig} {r : Registry} {id : JobId} {e : JobEntry}
    (h : row cfg r id = some e) : e.jobId = id := by
  obtain ⟨d, -, hr⟩ := row_eq_some h
  obtain ⟨doc, mtime, -, hd⟩ := readEntryPath_ok.mp hr
  obtain ⟨-, hid, env, -, -, rfl⟩ := decodeEntry_ok.mp hd
  exact hid

theorem mem_registryIds {cfg : HeadConfig} {r : Registry} {id : JobId} {e : JobEntry}
    (h : row cfg r id = some e) : id ∈ registryIds cfg r := by
  obtain ⟨d, hd, -⟩ := row_eq_some h
  have hmem : d ∈ registryLocations cfg r id := by simp [resolve_ok hd]
  obtain ⟨hc, hs⟩ := mem_locations.mp hmem
  simp only [registryIds, List.mem_dedup, List.mem_flatMap]
  exact ⟨d, hc, AList.lookup_isSome.mp hs⟩

theorem mem_registryRows {cfg : HeadConfig} {r : Registry} {e : JobEntry} :
    e ∈ registryRows cfg r ↔ row cfg r e.jobId = some e := by
  simp only [registryRows, List.mem_filterMap]
  constructor
  · rintro ⟨id, -, h⟩
    rwa [row_jobId h]
  · intro h
    exact ⟨e.jobId, mem_registryIds h, h⟩

theorem registryRows_nodup (cfg : HeadConfig) (r : Registry) : (registryRows cfg r).Nodup := by
  refine List.Nodup.filterMap ?_ (List.nodup_dedup _)
  intro id id' e h h'
  rw [← row_jobId h, ← row_jobId h']

/-! ## Saving -/

/-- The lost-finality fence of `save` against the row on disk. -/
def saveFence (existing : Option JobEntry) (entry : JobEntry) : Except String Unit :=
  check (existing.any fun e => e.terminalFinalizedAt.isSome && (entry.status ≠ .lost ||
    entry.terminalFinalizedAt ≠ e.terminalFinalizedAt))
    "a finalized lost result cannot be reopened"

/-- A row without a layout takes the one of the stored row, or of a new role registry. -/
def saveLayout (cfg : HeadConfig) (existing : Option JobEntry) (entry : JobEntry) :
    Option Layout :=
  match entry.storageLayout, existing with
  | some l, _ => some l
  | none, some e => e.storageLayout
  | none, none => if cfg.layout = .role then some .role else none

def JobEntry.setLayout (e : JobEntry) (l : Option Layout) : JobEntry :=
  { e with storageLayout := l }

def JobEntry.setUpdatedAt (e : JobEntry) (now : Time) : JobEntry :=
  { e with updatedAt := some now }

def sortedKeys (env : Dict String) : List String := (env.map (·.1)).insertionSort (· ≤ ·)

/-- A row whose private values were not loaded keeps the stored ones, if its names agree. -/
def savePrivate (existing : Option JobEntry) (entry : JobEntry) : Except String JobEntry :=
  if entry.customEnvLoaded then
    .ok { entry with customEnvKeys := sortedKeys entry.customEnv }
  else match existing with
  | none =>
    .error "cannot preserve unloaded custom environment: registry row vanished"
  | some e =>
    if sortedKeys e.customEnv ≠ entry.customEnvKeys then
      .error "custom environment changed while the registry row was being updated"
    else .ok { entry with
      customEnv := e.customEnv
      customEnvKeys := sortedKeys e.customEnv
      customEnvLoaded := true }

/-- What `save` publishes over `existing` in the directory `d` at time `now`. -/
def saveRow (cfg : HeadConfig) (d : Layout) (existing : Option JobEntry) (entry : JobEntry)
    (now : Time) : Except String JobEntry := do
  saveFence existing entry
  check (d = .legacy && saveLayout cfg existing entry = some .role)
    "legacy registry authority cannot store a role-layout row"
  let persisted ← savePrivate existing (entry.setLayout (saveLayout cfg existing entry))
  encodeRegistryEntry (persisted.setUpdatedAt now)

/-- Everything `save` does before it takes the index lock: where the row goes and what is
written there. -/
def savePrepare (cfg : HeadConfig) (r : Registry) (entry : JobEntry) (now : Time) :
    Except String (Layout × JobEntry) :=
  match resolveRegistryRecord cfg r entry.jobId with
  | .error m => .error m
  | .ok none => (saveRow cfg cfg.layout none entry now).map (cfg.layout, ·)
  | .ok (some d) =>
    match readEntryPath r d entry.jobId with
    | .error m => .error m
    | .ok existing => (saveRow cfg d (some existing) entry now).map (d, ·)

theorem encodeRegistryEntry_ok {e doc : JobEntry} :
    encodeRegistryEntry e = .ok doc ↔ doc = boundEntryDiagnostics e ∧
      ∃ e', decodeEntry true none e.jobId doc = .ok e' := by
  unfold encodeRegistryEntry
  cases h : decodeRegistryDocument true none e.jobId (boundEntryDiagnostics e) with
  | ok e' =>
    have hd := decodeRegistryDocument_ok.mp h
    constructor
    · intro he
      cases he
      exact ⟨rfl, e', hd⟩
    · rintro ⟨rfl, -⟩
      rfl
  | error m =>
    constructor
    · intro he
      cases he
    · rintro ⟨rfl, e', he'⟩
      rw [decodeRegistryDocument_ok.mpr he'] at h
      cases h

/-- A published document is bounded, timed, and decodes. -/
structure Publishable (doc : JobEntry) : Prop where
  bounded : boundEntryDiagnostics doc = doc
  timed : doc.updatedAt.isSome
  decodes : ∃ e, decodeEntry true none doc.jobId doc = .ok e

theorem savePrivate_jobId {existing : Option JobEntry} {entry p : JobEntry}
    (h : savePrivate existing entry = .ok p) : p.jobId = entry.jobId := by
  unfold savePrivate at h
  split at h
  · cases h; rfl
  · split at h
    · cases h
    · split at h
      · cases h
      · cases h; rfl

/-- The fence of `save`, as a condition. -/
def FenceOk (existing : Option JobEntry) (entry : JobEntry) : Prop :=
  ∀ e, existing = some e → e.terminalFinalizedAt.isSome →
    entry.status = .lost ∧ entry.terminalFinalizedAt = e.terminalFinalizedAt

theorem saveFence_ok {existing : Option JobEntry} {entry : JobEntry} :
    saveFence existing entry = .ok () ↔ FenceOk existing entry := by
  cases existing with
  | none => simp [saveFence, FenceOk]
  | some e =>
    simp only [saveFence, check_ok, FenceOk, Option.some.injEq, forall_eq', Option.any_some]
    cases e.terminalFinalizedAt <;> simp

theorem saveRow_ok {cfg : HeadConfig} {d : Layout} {existing : Option JobEntry}
    {entry doc : JobEntry} {now : Time} :
    saveRow cfg d existing entry now = .ok doc ↔
      FenceOk existing entry ∧
      ¬ (d = .legacy ∧ saveLayout cfg existing entry = some .role) ∧
      ∃ p, savePrivate existing (entry.setLayout (saveLayout cfg existing entry)) = .ok p ∧
        encodeRegistryEntry (p.setUpdatedAt now) = .ok doc := by
  unfold saveRow
  rw [bind_unit_ok, saveFence_ok, bind_unit_ok, check_ok]
  cases hp : savePrivate existing (entry.setLayout (saveLayout cfg existing entry)) with
  | error m => simp [bind, Except.bind]
  | ok p => simp [bind, Except.bind]

theorem saveRow_publishable {cfg : HeadConfig} {d : Layout} {existing : Option JobEntry}
    {entry doc : JobEntry} {now : Time} (h : saveRow cfg d existing entry now = .ok doc) :
    Publishable doc ∧ doc.jobId = entry.jobId := by
  obtain ⟨-, -, p, hp, he⟩ := saveRow_ok.mp h
  obtain ⟨rfl, e', hd⟩ := encodeRegistryEntry_ok.mp he
  have hid : p.jobId = entry.jobId := (savePrivate_jobId hp).trans rfl
  exact ⟨⟨boundEntryDiagnostics_idem _, rfl, e', hd⟩, hid⟩

theorem savePrepare_ok {cfg : HeadConfig} {r : Registry} {entry doc : JobEntry} {now : Time}
    {d : Layout} (h : savePrepare cfg r entry now = .ok (d, doc)) :
    ∃ existing, saveRow cfg d existing entry now = .ok doc ∧
      (existing = none ∧ d = cfg.layout ∧ resolveRegistryRecord cfg r entry.jobId = .ok none ∨
        ∃ e, existing = some e ∧ resolveRegistryRecord cfg r entry.jobId = .ok (some d) ∧
          readEntryPath r d entry.jobId = .ok e) := by
  unfold savePrepare at h
  split at h
  · cases h
  · rename_i hr
    cases hs : saveRow cfg cfg.layout none entry now with
    | error m => simp [hs, Except.map] at h
    | ok doc' =>
      simp only [hs, Except.map, Except.ok.injEq, Prod.mk.injEq] at h
      obtain ⟨rfl, rfl⟩ := h
      exact ⟨none, hs, .inl ⟨rfl, rfl, hr⟩⟩
  · rename_i d' hr
    split at h
    · cases h
    · rename_i e he
      cases hs : saveRow cfg d' (some e) entry now with
      | error m => simp [hs, Except.map] at h
      | ok doc' =>
        simp only [hs, Except.map, Except.ok.injEq, Prod.mk.injEq] at h
        obtain ⟨rfl, rfl⟩ := h
        exact ⟨some e, hs, .inr ⟨e, rfl, hr, he⟩⟩

/-- A row goes into one of the directories readers look at. -/
theorem savePrepare_mem_candidates {cfg : HeadConfig} {r : Registry} {entry doc : JobEntry}
    {now : Time} {d : Layout} (h : savePrepare cfg r entry now = .ok (d, doc)) :
    d ∈ cfg.candidates := by
  obtain ⟨existing, -, ⟨-, rfl, -⟩ | ⟨e, -, hres, -⟩⟩ := savePrepare_ok h
  · exact layout_mem_candidates cfg
  · exact resolved_mem_candidates hres

end Dt.Jobs
