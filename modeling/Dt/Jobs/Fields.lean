import Dt.Jobs.Validate
import Dt.Lib.JsonText

/-!
# The attributes of a row

In memory a row is a Python object: each attribute holds some value, and the validators check what it
is. `Field` names the attributes that are stored, in the order the dataclass declares them, and
`Field.holds` is what the validators ask of the type of a value. `entryOf` reads the row that the other
checks are about off attributes of the right types.
-/

namespace Dt.Jobs.Codec

open Dt.Lib

/-- Floats with the numbers they stand for. -/
class FloatValue (F : Type) extends FloatText F where
  value : F → ℚ

/-- `_JOB_ENTRY_FIELDS` -/
inductive Field where
  | jobId | name | center | project | node | nodeLocal | jobDir | session | cmd | gpus | gpuIsolation
  | pgid | status | exitCode | gitSha | gitDirty | submoduleCommits | snapshotSha256 | payloadSha256
  | artifactManifest | artifactTargets | maxHours | minVramMib | maxVramMib | maxJobMemoryMib
  | createdAt | finishedAt | updatedAt | gpusRequested | requirePath | requireDiskGib | pinNode
  | excludeNodes | reason | dispatchNode | dispatchToken | dispatchOwner | dispatchClaimedAt
  | placementFailures | placementAttempts | placementPattern | placementFirstFailedAt
  | placementLastFailedAt | envHash | snapshotDurationS | launchDurationS | launchPhasesS
  | envPreexisting | setupRan | envMode | envSourceJob | customEnv | bootId | startedAt | setup
  | setupInputs | extras | forkedFrom | afterSuccess | afterComplete | afterResult
  | afterResultStates | requestId | resultState | rerunOf | retryLimit | retryOn | retryCount
  | retryOf | retriedBy | rerunSourceSnapshotSha256 | rerunSnapshotChanged | cacheSourceJob
  | cacheSourceJobDir | cacheSourcePath | cacheEnv | cacheSourceEnvHash | cacheMode | storageLayout
  | workerRoot | workerRoots | jobRelpath | recoveredAt | codePrunedAt | terminalFinalizedAt
  | legacyCleanupPending
  deriving DecidableEq

/-- The attributes of one row. -/
abbrev Attributes (F : Type) := Field → Json F

def Field.all : List Field :=
  [.jobId, .name, .center, .project, .node, .nodeLocal, .jobDir, .session, .cmd, .gpus, .gpuIsolation,
    .pgid, .status, .exitCode, .gitSha, .gitDirty, .submoduleCommits, .snapshotSha256, .payloadSha256,
    .artifactManifest, .artifactTargets, .maxHours, .minVramMib, .maxVramMib, .maxJobMemoryMib,
    .createdAt, .finishedAt, .updatedAt, .gpusRequested, .requirePath, .requireDiskGib, .pinNode,
    .excludeNodes, .reason, .dispatchNode, .dispatchToken, .dispatchOwner, .dispatchClaimedAt,
    .placementFailures, .placementAttempts, .placementPattern, .placementFirstFailedAt,
    .placementLastFailedAt, .envHash, .snapshotDurationS, .launchDurationS, .launchPhasesS,
    .envPreexisting, .setupRan, .envMode, .envSourceJob, .customEnv, .bootId, .startedAt, .setup,
    .setupInputs, .extras, .forkedFrom, .afterSuccess, .afterComplete, .afterResult,
    .afterResultStates, .requestId, .resultState, .rerunOf, .retryLimit, .retryOn, .retryCount,
    .retryOf, .retriedBy, .rerunSourceSnapshotSha256, .rerunSnapshotChanged, .cacheSourceJob,
    .cacheSourceJobDir, .cacheSourcePath, .cacheEnv, .cacheSourceEnvHash, .cacheMode, .storageLayout,
    .workerRoot, .workerRoots, .jobRelpath, .recoveredAt, .codePrunedAt, .terminalFinalizedAt,
    .legacyCleanupPending]

/-- The name of an attribute in a document. -/
def Field.key : Field → String
  | .jobId => "job_id"
  | .name => "name"
  | .center => "center"
  | .project => "project"
  | .node => "node"
  | .nodeLocal => "node_local"
  | .jobDir => "job_dir"
  | .session => "session"
  | .cmd => "cmd"
  | .gpus => "gpus"
  | .gpuIsolation => "gpu_isolation"
  | .pgid => "pgid"
  | .status => "status"
  | .exitCode => "exit_code"
  | .gitSha => "git_sha"
  | .gitDirty => "git_dirty"
  | .submoduleCommits => "submodule_commits"
  | .snapshotSha256 => "snapshot_sha256"
  | .payloadSha256 => "payload_sha256"
  | .artifactManifest => "artifact_manifest"
  | .artifactTargets => "artifact_targets"
  | .maxHours => "max_hours"
  | .minVramMib => "min_vram_mib"
  | .maxVramMib => "max_vram_mib"
  | .maxJobMemoryMib => "max_job_memory_mib"
  | .createdAt => "created_at"
  | .finishedAt => "finished_at"
  | .updatedAt => "updated_at"
  | .gpusRequested => "gpus_requested"
  | .requirePath => "require_path"
  | .requireDiskGib => "require_disk_gib"
  | .pinNode => "pin_node"
  | .excludeNodes => "exclude_nodes"
  | .reason => "reason"
  | .dispatchNode => "dispatch_node"
  | .dispatchToken => "dispatch_token"
  | .dispatchOwner => "dispatch_owner"
  | .dispatchClaimedAt => "dispatch_claimed_at"
  | .placementFailures => "placement_failures"
  | .placementAttempts => "placement_attempts"
  | .placementPattern => "placement_pattern"
  | .placementFirstFailedAt => "placement_first_failed_at"
  | .placementLastFailedAt => "placement_last_failed_at"
  | .envHash => "env_hash"
  | .snapshotDurationS => "snapshot_duration_s"
  | .launchDurationS => "launch_duration_s"
  | .launchPhasesS => "launch_phases_s"
  | .envPreexisting => "env_preexisting"
  | .setupRan => "setup_ran"
  | .envMode => "env_mode"
  | .envSourceJob => "env_source_job"
  | .customEnv => "custom_env"
  | .bootId => "boot_id"
  | .startedAt => "started_at"
  | .setup => "setup"
  | .setupInputs => "setup_inputs"
  | .extras => "extras"
  | .forkedFrom => "forked_from"
  | .afterSuccess => "after_success"
  | .afterComplete => "after_complete"
  | .afterResult => "after_result"
  | .afterResultStates => "after_result_states"
  | .requestId => "request_id"
  | .resultState => "result_state"
  | .rerunOf => "rerun_of"
  | .retryLimit => "retry_limit"
  | .retryOn => "retry_on"
  | .retryCount => "retry_count"
  | .retryOf => "retry_of"
  | .retriedBy => "retried_by"
  | .rerunSourceSnapshotSha256 => "rerun_source_snapshot_sha256"
  | .rerunSnapshotChanged => "rerun_snapshot_changed"
  | .cacheSourceJob => "cache_source_job"
  | .cacheSourceJobDir => "cache_source_job_dir"
  | .cacheSourcePath => "cache_source_path"
  | .cacheEnv => "cache_env"
  | .cacheSourceEnvHash => "cache_source_env_hash"
  | .cacheMode => "cache_mode"
  | .storageLayout => "storage_layout"
  | .workerRoot => "worker_root"
  | .workerRoots => "worker_roots"
  | .jobRelpath => "job_relpath"
  | .recoveredAt => "recovered_at"
  | .codePrunedAt => "code_pruned_at"
  | .terminalFinalizedAt => "terminal_finalized_at"
  | .legacyCleanupPending => "legacy_cleanup_pending"

theorem Field.mem_all (f : Field) : f ∈ Field.all := by
  cases f <;> decide

theorem Field.keys_nodup : (Field.all.map Field.key).Nodup := by
  decide +kernel

/-- The default of an attribute; the first nine have none. -/
def Field.default {F : Type} (now : Json F) : Field → Option (Json F)
  | .jobId | .name | .center | .project | .node | .nodeLocal | .jobDir | .session | .cmd => none
  | .gpus | .extras | .afterResultStates => some (.arr [])
  | .placementFailures | .launchPhasesS | .customEnv | .workerRoots => some (.obj [])
  | .gpuIsolation => some (.str "advisory")
  | .status => some (.str "running")
  | .gitDirty | .legacyCleanupPending => some (.bool false)
  | .createdAt => some now
  | .gpusRequested => some (.int 1)
  | .placementAttempts | .retryLimit | .retryCount => some (.int 0)
  | _ => some .null

/-! ## Types -/

def statusNames : List (String × JobStatus) :=
  [("queued", .queued), ("running", .running), ("finished", .finished), ("killed", .killed),
    ("lost", .lost), ("failed", .failed), ("skipped", .skipped)]

def resultNames : List (String × ResultState) :=
  [("success", .success), ("scientific_reject", .scientificReject),
    ("execution_failure", .executionFailure), ("infra_failure", .infraFailure),
    ("cancelled", .cancelled), ("guard_terminated", .guardTerminated),
    ("dependency_skipped", .dependencySkipped)]

def retryNames : List (String × RetryOn) := [("infra", .infra), ("always", .always)]

def envModeNames : List (String × EnvMode) := [("sync", .sync), ("reuse", .reuse)]

def cacheModeNames : List (String × CacheMode) := [("shared", .shared), ("clone", .clone)]

def layoutNames : List (String × Layout) := [("legacy-v0", .legacy), ("role-v1", .role)]

/-- The types of the attributes. -/
inductive Shape where
  | text | flag | integer | number | integers | texts | textDict | numberDict
  | oneOf (names : List String)
  | someOf (names : List String)

section

variable {F : Type}

/-- An `int`, or a `float` that is finite; an `int` too large for a `float` is refused. -/
def isNumber [FloatText F] : Json F → Bool
  | .int n => (FloatText.ofInt n : Option F).isSome
  | .float _ => true
  | _ => false

def isText : Json F → Bool
  | .str _ => true
  | _ => false

def isInteger : Json F → Bool
  | .int _ => true
  | _ => false

def isName (names : List String) : Json F → Bool
  | .str s => names.contains s
  | _ => false

def isList (item : Json F → Bool) : Json F → Bool
  | .arr items => items.all item
  | _ => false

/-- A dict; none has a key twice. -/
def isDict (item : Json F → Bool) : Json F → Bool
  | .obj pairs => decide (pairs.map Prod.fst).Nodup && pairs.all fun p => item p.2
  | _ => false

def Shape.holds [FloatText F] : Shape → Json F → Bool
  | .text, v => isText v
  | .flag, .bool _ => true
  | .flag, _ => false
  | .integer, v => isInteger v
  | .number, v => isNumber v
  | .integers, v => isList isInteger v
  | .texts, v => isList isText v
  | .textDict, v => isDict isText v
  | .numberDict, v => isDict isNumber v
  | .oneOf names, v => isName names v
  | .someOf names, v => isList (isName names) v

end

def Field.shape : Field → Shape
  | .nodeLocal | .gitDirty | .legacyCleanupPending | .envPreexisting | .setupRan
  | .rerunSnapshotChanged => .flag
  | .pgid | .exitCode | .minVramMib | .maxVramMib | .maxJobMemoryMib | .gpusRequested
  | .requireDiskGib | .placementAttempts | .retryLimit | .retryCount => .integer
  | .maxHours | .createdAt | .finishedAt | .updatedAt | .dispatchClaimedAt | .placementFirstFailedAt
  | .placementLastFailedAt | .snapshotDurationS | .launchDurationS | .startedAt | .recoveredAt
  | .codePrunedAt | .terminalFinalizedAt => .number
  | .gpus => .integers
  | .excludeNodes | .setupInputs | .extras => .texts
  | .submoduleCommits | .artifactTargets | .placementFailures | .customEnv | .workerRoots => .textDict
  | .launchPhasesS => .numberDict
  | .status => .oneOf (statusNames.map Prod.fst)
  | .resultState => .oneOf (resultNames.map Prod.fst)
  | .retryOn => .oneOf (retryNames.map Prod.fst)
  | .envMode => .oneOf (envModeNames.map Prod.fst)
  | .cacheMode => .oneOf (cacheModeNames.map Prod.fst)
  | .storageLayout => .oneOf (layoutNames.map Prod.fst)
  | .afterResultStates => .someOf (resultNames.map Prod.fst)
  | _ => .text

/-- Whether an attribute may be `None`. -/
def Field.optional : Field → Bool
  | .jobId | .name | .center | .project | .node | .nodeLocal | .jobDir | .session | .cmd | .gpus
  | .gpuIsolation | .status | .gitDirty | .createdAt | .gpusRequested | .placementFailures
  | .placementAttempts | .launchPhasesS | .customEnv | .extras | .afterResultStates | .retryLimit
  | .retryCount | .workerRoots | .legacyCleanupPending => false
  | _ => true

section

variable {F : Type}

def isNull : Json F → Bool
  | .null => true
  | _ => false

def Field.holds [FloatText F] (f : Field) (v : Json F) : Bool :=
  (f.optional && isNull v) || f.shape.holds v

def WellTyped [FloatText F] (attributes : Attributes F) : Prop :=
  ∀ f ∈ Field.all, f.holds (attributes f) = true

instance WellTyped.decidable [FloatText F] (attributes : Attributes F) :
    Decidable (WellTyped attributes) :=
  inferInstanceAs (Decidable (∀ f ∈ Field.all, f.holds (attributes f) = true))

/-! ## Reading a row off its attributes -/

def textOf : Json F → String
  | .str s => s
  | _ => ""

def flagOf : Json F → Bool
  | .bool b => b
  | _ => false

def integerOf : Json F → Int
  | .int n => n
  | _ => 0

def numberOf [FloatValue F] : Json F → ℚ
  | .int n => n
  | .float x => FloatValue.value x
  | _ => 0

def listOf {α : Type} (read : Json F → α) : Json F → List α
  | .arr items => items.map read
  | _ => []

def dictValue {α : Type} (read : Json F → α) : Json F → Dict α
  | .obj pairs => pairs.map fun p => (p.1, read p.2)
  | _ => []

def nameOf {α : Type} (names : List (String × α)) (other : α) (v : Json F) : α :=
  (names.lookup (textOf v)).getD other

/-- An attribute that may be `None`. -/
def maybe {α : Type} (read : Json F → α) : Json F → Option α
  | .null => none
  | v => some (read v)

variable [FloatValue F]

/-- The row of attributes of the right types. -/
def entryOf (a : Attributes F) : JobEntry where
  jobId := textOf (a .jobId)
  name := textOf (a .name)
  center := textOf (a .center)
  project := textOf (a .project)
  node := textOf (a .node)
  nodeLocal := flagOf (a .nodeLocal)
  jobDir := textOf (a .jobDir)
  session := textOf (a .session)
  cmd := textOf (a .cmd)
  gpus := listOf integerOf (a .gpus)
  gpuIsolation := textOf (a .gpuIsolation)
  pgid := maybe integerOf (a .pgid)
  status := nameOf statusNames .running (a .status)
  exitCode := maybe integerOf (a .exitCode)
  gitSha := maybe textOf (a .gitSha)
  gitDirty := flagOf (a .gitDirty)
  submoduleCommits := maybe (dictValue textOf) (a .submoduleCommits)
  snapshotSha256 := maybe textOf (a .snapshotSha256)
  payloadSha256 := maybe textOf (a .payloadSha256)
  artifactManifest := maybe textOf (a .artifactManifest)
  artifactTargets := maybe (dictValue textOf) (a .artifactTargets)
  maxHours := maybe numberOf (a .maxHours)
  minVramMib := maybe integerOf (a .minVramMib)
  maxVramMib := maybe integerOf (a .maxVramMib)
  maxJobMemoryMib := maybe integerOf (a .maxJobMemoryMib)
  createdAt := numberOf (a .createdAt)
  finishedAt := maybe numberOf (a .finishedAt)
  updatedAt := maybe numberOf (a .updatedAt)
  gpusRequested := integerOf (a .gpusRequested)
  requirePath := maybe textOf (a .requirePath)
  requireDiskGib := maybe integerOf (a .requireDiskGib)
  pinNode := maybe textOf (a .pinNode)
  excludeNodes := maybe (listOf textOf) (a .excludeNodes)
  reason := maybe textOf (a .reason)
  dispatchNode := maybe textOf (a .dispatchNode)
  dispatchToken := maybe textOf (a .dispatchToken)
  dispatchOwner := maybe textOf (a .dispatchOwner)
  dispatchClaimedAt := maybe numberOf (a .dispatchClaimedAt)
  placementFailures := dictValue textOf (a .placementFailures)
  placementAttempts := integerOf (a .placementAttempts)
  placementPattern := maybe textOf (a .placementPattern)
  placementFirstFailedAt := maybe numberOf (a .placementFirstFailedAt)
  placementLastFailedAt := maybe numberOf (a .placementLastFailedAt)
  envHash := maybe textOf (a .envHash)
  snapshotDurationS := maybe numberOf (a .snapshotDurationS)
  launchDurationS := maybe numberOf (a .launchDurationS)
  launchPhasesS := dictValue numberOf (a .launchPhasesS)
  envPreexisting := maybe flagOf (a .envPreexisting)
  setupRan := maybe flagOf (a .setupRan)
  envMode := maybe (nameOf envModeNames .sync) (a .envMode)
  envSourceJob := maybe textOf (a .envSourceJob)
  customEnv := dictValue textOf (a .customEnv)
  customEnvKeys := (dictValue textOf (a .customEnv)).map Prod.fst
  bootId := maybe textOf (a .bootId)
  startedAt := maybe numberOf (a .startedAt)
  setup := maybe textOf (a .setup)
  setupInputs := maybe (listOf textOf) (a .setupInputs)
  extras := listOf textOf (a .extras)
  forkedFrom := maybe textOf (a .forkedFrom)
  afterSuccess := maybe textOf (a .afterSuccess)
  afterComplete := maybe textOf (a .afterComplete)
  afterResult := maybe textOf (a .afterResult)
  afterResultStates := listOf (nameOf resultNames .success) (a .afterResultStates)
  requestId := maybe textOf (a .requestId)
  resultState := maybe (nameOf resultNames .success) (a .resultState)
  rerunOf := maybe textOf (a .rerunOf)
  retryLimit := integerOf (a .retryLimit)
  retryOn := maybe (nameOf retryNames .infra) (a .retryOn)
  retryCount := integerOf (a .retryCount)
  retryOf := maybe textOf (a .retryOf)
  retriedBy := maybe textOf (a .retriedBy)
  rerunSourceSnapshotSha256 := maybe textOf (a .rerunSourceSnapshotSha256)
  rerunSnapshotChanged := maybe flagOf (a .rerunSnapshotChanged)
  cacheSourceJob := maybe textOf (a .cacheSourceJob)
  cacheSourceJobDir := maybe textOf (a .cacheSourceJobDir)
  cacheSourcePath := maybe textOf (a .cacheSourcePath)
  cacheEnv := maybe textOf (a .cacheEnv)
  cacheSourceEnvHash := maybe textOf (a .cacheSourceEnvHash)
  cacheMode := maybe (nameOf cacheModeNames .shared) (a .cacheMode)
  storageLayout := maybe (nameOf layoutNames .legacy) (a .storageLayout)
  workerRoot := maybe textOf (a .workerRoot)
  workerRoots := dictValue textOf (a .workerRoots)
  jobRelpath := maybe textOf (a .jobRelpath)
  recoveredAt := maybe numberOf (a .recoveredAt)
  codePrunedAt := maybe numberOf (a .codePrunedAt)
  terminalFinalizedAt := maybe numberOf (a .terminalFinalizedAt)
  legacyCleanupPending := flagOf (a .legacyCleanupPending)

end

/-! ## Values of the right types -/

section

variable {F : Type}

theorem plainItems_iff {items : List (Json F)} :
    plainItems items = true ↔ ∀ v ∈ items, v.plain = true := by
  induction items with
  | nil => simp [plainItems]
  | cons v vs ih => simp [plainItems, ih]

theorem plain_of_isText {v : Json F} (h : isText v = true) : v.plain = true := by
  cases v with
  | str => rfl
  | _ => cases h

theorem plain_of_isInteger {v : Json F} (h : isInteger v = true) : v.plain = true := by
  cases v with
  | int => rfl
  | _ => cases h

theorem plain_of_isNumber [FloatText F] {v : Json F} (h : isNumber v = true) : v.plain = true := by
  cases v with
  | int => rfl
  | float => rfl
  | _ => cases h

theorem plain_of_isName {names : List String} {v : Json F} (h : isName names v = true) :
    v.plain = true := by
  cases v with
  | str => rfl
  | _ => cases h

theorem plain_of_isList {item : Json F → Bool} (hitem : ∀ v, item v = true → v.plain = true)
    {v : Json F} (h : isList item v = true) : v.plain = true := by
  cases v with
  | arr items =>
    refine plainItems_iff.mpr fun v hv => hitem v ?_
    exact List.all_eq_true.mp h v hv
  | _ => cases h

theorem plain_of_isDict {item : Json F → Bool} (hitem : ∀ v, item v = true → v.plain = true)
    {v : Json F} (h : isDict item v = true) : v.plain = true := by
  cases v with
  | obj pairs =>
    obtain ⟨hnodup, hitems⟩ := Bool.and_eq_true_iff.mp h
    refine Bool.and_eq_true_iff.mpr ⟨hnodup, plainPairs_iff.mpr fun p hp => hitem p.2 ?_⟩
    exact List.all_eq_true.mp hitems p hp
  | _ => cases h

/-- A value of the right type has a text. -/
theorem Shape.plain [FloatText F] {s : Shape} {v : Json F} (h : s.holds v = true) : v.plain = true := by
  cases s with
  | text => exact plain_of_isText h
  | flag =>
    cases v with
    | bool => rfl
    | _ => cases h
  | integer => exact plain_of_isInteger h
  | number => exact plain_of_isNumber h
  | integers => exact plain_of_isList (fun _ => plain_of_isInteger) h
  | texts => exact plain_of_isList (fun _ => plain_of_isText) h
  | textDict => exact plain_of_isDict (fun _ => plain_of_isText) h
  | numberDict => exact plain_of_isDict (fun _ => plain_of_isNumber) h
  | oneOf names => exact plain_of_isName h
  | someOf names => exact plain_of_isList (fun _ => plain_of_isName) h

theorem Field.plain [FloatText F] {f : Field} {v : Json F} (h : f.holds v = true) : v.plain = true := by
  rcases Bool.or_eq_true_iff.mp h with hnull | hshape
  · cases v with
    | null => rfl
    | _ => simp [isNull] at hnull
  · exact Shape.plain hshape

end

end Dt.Jobs.Codec
