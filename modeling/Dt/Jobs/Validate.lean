import Dt.Jobs.Row
import Dt.Layout
import Mathlib.Data.List.Sort

/-!
# Which rows the registry accepts

`decodeEntry` is the gate every stored row passes, when it is written and when it is read: it
bounds the diagnostics, normalises historical sentinels and runs the five validators in the
source's order, each with its own message. Checks on the Python type of a field are what the
types of `JobEntry` say and do not appear again.
-/

namespace Dt.Jobs

open Dt.Lib Dt.Layout

/-! ## Bounded diagnostics -/

/-- A text longer than the limit keeps its head and its tail. -/
def excerptCut (limit : Nat) (raw : List Char) : List Char :=
  if limit < raw.length then
    let marker := " ...[omitted]... ".toList
    let remaining := limit - marker.length
    let head := remaining / 2
    raw.take head ++ marker ++ raw.drop (raw.length - (remaining - head))
  else raw

/-- One whitespace-normalized bounded diagnostic. -/
def diagnosticExcerpt (limit : Nat) (raw : String) : String :=
  String.ofList ((joinWith [' '] (words (excerptCut limit raw.toList))).take limit)

def boundFailure (p : String × String) : String × String :=
  (p.1, diagnosticExcerpt maxJobDiagnosticChars p.2)

def boundEntryDiagnostics (e : JobEntry) : JobEntry :=
  { e with
    reason := e.reason.map (diagnosticExcerpt maxJobDiagnosticChars)
    placementFailures := e.placementFailures.map boundFailure }

theorem length_excerptCut {limit : Nat} (h : 17 ≤ limit) (raw : List Char) :
    (excerptCut limit raw).length ≤ limit := by
  unfold excerptCut
  split
  · have hm : " ...[omitted]... ".toList.length = 17 := by decide
    simp only [List.length_append, List.length_take, List.length_drop, hm]
    omega
  · omega

/-- The final cut of an excerpt never cuts: its normalised text already fits. -/
theorem diagnosticExcerpt_toList {limit : Nat} (h : 17 ≤ limit) (raw : String) :
    (diagnosticExcerpt limit raw).toList =
      joinWith [' '] (words (excerptCut limit raw.toList)) := by
  have h₁ := length_joinWith_wordsAux (excerptCut limit raw.toList) []
  have h₂ := length_excerptCut h raw.toList
  simp only [diagnosticExcerpt, String.toList_ofList, words, List.length_nil] at h₁ ⊢
  exact List.take_of_length_le (by omega)

theorem diagnosticExcerpt_idem {limit : Nat} (h : 17 ≤ limit) (raw : String) :
    diagnosticExcerpt limit (diagnosticExcerpt limit raw) = diagnosticExcerpt limit raw := by
  have hw : ∀ w ∈ words (excerptCut limit raw.toList), IsWord w := fun w => words_isWord
  have hlen : (diagnosticExcerpt limit raw).toList.length ≤ limit := by
    simp only [diagnosticExcerpt, String.toList_ofList, List.length_take]
    omega
  have hcut : excerptCut limit (diagnosticExcerpt limit raw).toList =
      (diagnosticExcerpt limit raw).toList := by
    rw [excerptCut, if_neg (by omega)]
  apply String.toList_inj.mp
  have hjoin : words (joinWith [' '] (words (excerptCut limit raw.toList)) ++ []) =
      words (excerptCut limit raw.toList) := words_joinWith (by decide) hw (by simp)
  rw [List.append_nil] at hjoin
  rw [diagnosticExcerpt_toList h, hcut, diagnosticExcerpt_toList h, hjoin]

theorem boundEntryDiagnostics_idem (e : JobEntry) :
    boundEntryDiagnostics (boundEntryDiagnostics e) = boundEntryDiagnostics e := by
  have h : 17 ≤ maxJobDiagnosticChars := by decide
  have hr : diagnosticExcerpt maxJobDiagnosticChars ∘ diagnosticExcerpt maxJobDiagnosticChars =
      diagnosticExcerpt maxJobDiagnosticChars := funext fun r => diagnosticExcerpt_idem h r
  have hf : boundFailure ∘ boundFailure = boundFailure :=
    funext fun p => by simp [boundFailure, diagnosticExcerpt_idem h]
  simp only [boundEntryDiagnostics, Option.map_map, List.map_map, hr, hf]

/-! ## Identities -/

def maxJobCollectionItems : Nat := 1024

def maxProjectExtras : Nat := 64

def maxSetupInputs : Nat := 256

def maxRetryLimit : Int := 10

/-- `JOB_ID_RE`. -/
def validJobId (s : JobId) : Bool :=
  classRun (fun c => isAlnum c || c = '_' || c = '-') 1 240 s.toList

/-- `SHA256_RE`, `ENV_HASH_RE` and the dispatch token: lower-case hexadecimal of one length. -/
def hexOf (n : Nat) (s : String) : Bool := classRun isHex n n s.toList

def isConfigId (s : String) : Bool :=
  match s.toList with
  | [] => false
  | c :: cs => isAlnum c && classRun (fun d => isAlnum d || d = '_' || d = '.' || d = '-') 0 63 cs

/-- `[A-Za-z0-9-]{1,64}:[0-9]{1,10}:[0-9]{1,20}`. -/
def validDispatchOwner (s : String) : Bool :=
  match splitOn ':' s.toList with
  | [boot, pid, ticks] =>
    classRun (fun c => isAlnum c || c = '-') 1 64 boot && classRun isDigit 1 10 pid &&
      classRun isDigit 1 20 ticks
  | _ => false

/-! ## The custom environment -/

def maxCustomEnvVars : Nat := 64

def maxCustomEnvValueBytes : Nat := 16 * 1024

def maxCustomEnvTotalBytes : Nat := 64 * 1024

def reservedEnvNames : List String :=
  ["HOME", "PATH", "USER", "LOGNAME", "SHELL", "TMPDIR", "BASH_ENV", "ENV", "BASHOPTS",
    "SHELLOPTS", "CDPATH", "GLOBIGNORE", "IFS", "LD_PRELOAD", "LD_AUDIT", "LD_LIBRARY_PATH",
    "TMUX", "TMUX_TMPDIR", "PWD", "OLDPWD", "SHLVL", "UID", "EUID", "PPID", "RANDOM", "SRANDOM",
    "SECONDS", "LINENO", "OPTARG", "OPTIND", "FUNCNAME", "GROUPS", "DIRSTACK", "PIPESTATUS",
    "HOSTNAME", "HOSTTYPE", "MACHTYPE", "OSTYPE", "PROMPT_COMMAND", "PS0", "PS1", "PS2", "PS3",
    "PS4", "CUDA_VISIBLE_DEVICES", "NVIDIA_VISIBLE_DEVICES", "ROCR_VISIBLE_DEVICES",
    "VIRTUAL_ENV", "UV_PROJECT_ENVIRONMENT"]

def validEnvName (s : String) : Bool :=
  match s.toList with
  | [] => false
  | c :: cs =>
    (isAlnum c || c = '_') && !isDigit c && classRun (fun d => isAlnum d || d = '_') 0 127 cs

/-- Why one variable is refused; `total` is the size of the map with this variable. -/
def customEnvItemError (name value : String) (total : Nat) : Option String :=
  if !validEnvName name then some "custom env name has an invalid variable name"
  else if startsWith name "DT_" || startsWith name "BASH" || name ∈ reservedEnvNames then
    some ("custom environment variable '" ++ name ++ "' is reserved")
  else if '\x00' ∈ value.toList then
    some ("custom environment variable '" ++ name ++ "' contains a NUL byte")
  else if maxCustomEnvValueBytes < value.utf8ByteSize then
    some ("custom environment variable '" ++ name ++ "' exceeds the value size limit")
  else if maxCustomEnvTotalBytes < total then
    some "custom environment exceeds the total size limit"
  else none

/-- The first refused variable; `total` is the size of the variables before. -/
def customEnvError : Dict String → Nat → Option String
  | [], _ => none
  | (name, value) :: rest, total =>
    let total' := total + (name.utf8ByteSize + value.utf8ByteSize + 2)
    match customEnvItemError name value total' with
    | some m => some m
    | none => customEnvError rest total'

/-- `custom_env.validate`: the checked map, sorted by name. -/
def validateCustomEnv (env : Dict String) : Except String (Dict String) :=
  if maxCustomEnvVars < env.length then .error "custom environment exceeds 64 variables"
  else match customEnvError env 0 with
  | some m => .error m
  | none => .ok (env.insertionSort fun a b => a.1 ≤ b.1)

/-! ## The validators -/

/-- `if bad: raise ValueError(message)`. -/
def check (bad : Bool) (message : String) : Except String Unit :=
  if bad then .error message else .ok ()

/-- An optional number below zero. -/
def negative (v : Option ℚ) : Bool := v.any (· < 0)

def validateEntryLifecycle (e : JobEntry) : Except String Unit := do
  check (decide (maxJobCollectionItems < e.gpus.length) || e.gpus.any (· < 0) ||
    !decide e.gpus.Nodup) "job registry has invalid GPU assignments"
  check (e.pgid.any (· ≤ 0)) "job registry has an invalid process group"
  check (e.exitCode.any fun c => !(0 ≤ c && c ≤ 255)) "job registry has an invalid exit code"
  check (e.gpusRequested < 0) "job registry has an invalid GPU request"
  check (decide (e.createdAt < 0) || [e.startedAt, e.finishedAt, e.updatedAt,
      e.terminalFinalizedAt, e.dispatchClaimedAt, e.codePrunedAt].any negative)
    "job registry has invalid lifecycle timestamps"

def validateEntryCollections (e : JobEntry) : Except String Unit := do
  check (maxJobCollectionItems < e.placementFailures.length)
    "job registry has too many placement failures"
  check (maxJobCollectionItems < e.workerRoots.length) "job registry has too many worker roots"
  check (e.submoduleCommits.any (maxJobCollectionItems < ·.length))
    "job registry has invalid submodule commits"
  check (e.artifactTargets.any (maxJobCollectionItems < ·.length))
    "job registry has invalid artifact targets"
  check (decide (maxProjectExtras < e.extras.length) || e.extras.any (!isConfigId ·))
    "job registry has invalid project extras"

def validateEntryProvenance (e : JobEntry) : Except String Unit := do
  check ([e.retryLimit, e.retryCount].any fun n => !(0 ≤ n && n ≤ maxRetryLimit))
    "job registry has an invalid retry policy"
  check (e.legacyCleanupPending && (e.storageLayout ≠ some .role ||
      !(e.status = .finished || e.status = .killed) || e.node = "-" || e.workerRoot = none ||
      e.jobRelpath ≠ some ("jobs/" ++ e.jobId)))
    "job registry has an invalid pending legacy cleanup"
  check (e.terminalFinalizedAt.isSome && e.status ≠ .lost)
    "only a lost job may carry terminal finality"
  check (e.dispatchToken.any (!hexOf 32 ·)) "job registry has an invalid dispatch token"
  check (e.dispatchNode.isNone ≠ e.dispatchToken.isNone)
    "job registry has an incomplete dispatch attempt identity"
  check (e.dispatchNode.isSome && e.status ≠ .queued)
    "only queued jobs may retain a dispatch attempt identity"
  check (e.dispatchOwner.any (!validDispatchOwner ·))
    "job registry has an invalid dispatch owner identity"

def validateEntryLimits (e : JobEntry) : Except String Unit := do
  check ([e.snapshotSha256, e.payloadSha256, e.artifactManifest,
      e.rerunSourceSnapshotSha256].any (·.any (!hexOf 64 ·)))
    "job registry has an invalid SHA-256 identity"
  check ([e.envHash, e.cacheSourceEnvHash].any (·.any (!hexOf 12 ·)))
    "job registry has an invalid environment identity"
  check ([e.snapshotDurationS, e.launchDurationS, e.recoveredAt, e.placementFirstFailedAt,
      e.placementLastFailedAt].any negative)
    "job registry has invalid non-negative measurements"
  check (e.maxHours.any (· ≤ 0)) "job registry has an invalid runtime limit"
  check ([e.minVramMib, e.maxVramMib, e.maxJobMemoryMib].any (·.any (· ≤ 0)))
    "job registry has invalid positive resource limits"
  check (e.minVramMib.isSome && e.gpusRequested = 0)
    "job registry has a GPU memory requirement on a CPU job"
  check (e.requireDiskGib.any (· < 0)) "job registry has an invalid disk requirement"
  check (e.placementAttempts < 0) "job registry has an invalid placement attempt count"
  check (e.placementPattern.any (maxJobDiagnosticChars < ·.length))
    "job registry has an invalid placement pattern"

/-- The setup inputs are checked one by one, emptiness before safety. -/
def validateSetupInputs : List String → Except String Unit
  | [] => .ok ()
  | p :: ps => do
    check (p = "") "job registry has invalid setup inputs"
    check (isAbsolute p.toList || ".." ∈ pathParts p.toList) "job registry has unsafe setup inputs"
    validateSetupInputs ps

def validRoot (root : String) : Bool := (normalizeNodeRoot root).toBool

def validateEntryContracts (e : JobEntry) : Except String Unit := do
  check (e.launchPhasesS.any (·.2 < 0)) "job registry has invalid launch phases"
  check (maxJobCollectionItems < e.launchPhasesS.length) "job registry has too many launch phases"
  check (e.excludeNodes.any fun ns => decide (maxJobCollectionItems < ns.length) ||
    ns.any (!isConfigId ·)) "job registry has invalid excluded nodes"
  check (e.setupInputs.any (maxSetupInputs < ·.length)) "job registry has invalid setup inputs"
  validateSetupInputs (e.setupInputs.getD [])
  check (decide (7 < e.afterResultStates.length) || !decide e.afterResultStates.Nodup)
    "job registry has invalid dependency result states"
  check (e.workerRoot.any (!validRoot ·) || e.workerRoots.any (!validRoot ·.2))
    "job registry has an invalid worker root"
  check (e.jobRelpath.any fun p => isAbsolute p.toList || pathParts p.toList = [] ||
    ".." ∈ pathParts p.toList) "job registry has an invalid relative job path"
  check (e.gpuIsolation ≠ "advisory")
    "job registry requests unsupported physical GPU isolation"

/-- The five validators in order. -/
def validateEntry (e : JobEntry) : Except String Unit := do
  validateEntryLifecycle e
  validateEntryCollections e
  validateEntryProvenance e
  validateEntryLimits e
  validateEntryContracts e

/-! ## Decoding -/

/-- Early launchers persisted an empty string where no environment existed. -/
def dropEmpty (v : Option String) : Option String := if v = some "" then none else v

/-- The row the validators see. -/
def boundedEntry (includePrivate : Bool) (env : Dict String) (doc : JobEntry) : JobEntry :=
  { boundEntryDiagnostics doc with
    customEnv := if includePrivate then env else []
    customEnvKeys := env.map (·.1)
    customEnvLoaded := includePrivate
    envHash := dropEmpty doc.envHash
    cacheSourceEnvHash := dropEmpty doc.cacheSourceEnvHash }

/-- The owner of a claim lives and dies with its token; a row without a layout is a legacy one;
a row without an update time takes the one of its file. -/
def fillDefaults (registryUpdatedAt : Option Time) (e : JobEntry) : JobEntry :=
  { e with
    dispatchOwner := if e.dispatchToken.isNone then none else e.dispatchOwner
    dispatchClaimedAt := if e.dispatchToken.isNone then none else e.dispatchClaimedAt
    storageLayout := some (e.storageLayout.getD .legacy)
    updatedAt := some (e.updatedAt.getD (orTime registryUpdatedAt e.createdAt)) }

def decodeEntry (includePrivate : Bool) (registryUpdatedAt : Option Time) (expected : JobId)
    (doc : JobEntry) : Except String JobEntry := do
  check (!validJobId doc.jobId) "job registry identity is unsafe"
  check (doc.jobId ≠ expected) "job registry identity does not match its filename"
  let env ← validateCustomEnv doc.customEnv
  let e := boundedEntry includePrivate env doc
  validateEntry e
  pure (fillDefaults registryUpdatedAt e)

/-- A refused document is a registry error that carries a bounded detail. -/
def decodeRegistryDocument (includePrivate : Bool) (registryUpdatedAt : Option Time)
    (expected : JobId) (doc : JobEntry) : Except String JobEntry :=
  match decodeEntry includePrivate registryUpdatedAt expected doc with
  | .ok e => .ok e
  | .error m =>
    .error ("invalid job registry record: " ++ diagnosticExcerpt maxJobDiagnosticChars m)

/-- The document `save` publishes for a row, when the row is acceptable. -/
def encodeRegistryEntry (e : JobEntry) : Except String JobEntry :=
  match decodeRegistryDocument true none e.jobId (boundEntryDiagnostics e) with
  | .ok _ => .ok (boundEntryDiagnostics e)
  | .error m => .error m

/-! ### What an accepted document says -/

@[simp] theorem check_ok {bad : Bool} {m : String} : check bad m = .ok () ↔ bad = false := by
  cases bad <;> simp [check]

@[simp] theorem bind_unit_ok {α : Type} {x : Except String Unit} {f : Unit → Except String α}
    {a : α} : x >>= f = .ok a ↔ x = .ok () ∧ f () = .ok a := by
  cases x <;> simp [bind, Except.bind]

theorem decodeEntry_ok {priv : Bool} {mtime : Option Time} {id : JobId} {doc e : JobEntry} :
    decodeEntry priv mtime id doc = .ok e ↔
      validJobId doc.jobId = true ∧ doc.jobId = id ∧ ∃ env, validateCustomEnv doc.customEnv =
        .ok env ∧ validateEntry (boundedEntry priv env doc) = .ok () ∧
        e = fillDefaults mtime (boundedEntry priv env doc) := by
  simp only [decodeEntry, bind_unit_ok, check_ok, ne_eq, decide_not, Bool.not_eq_eq_eq_not,
    Bool.not_false, decide_eq_true_eq]
  cases hv : validateCustomEnv doc.customEnv with
  | error m => simp [bind, Except.bind]
  | ok env =>
    change _ ∧ _ ∧ (validateEntry (boundedEntry priv env doc) >>= fun _ =>
      Except.ok (fillDefaults mtime (boundedEntry priv env doc))) = .ok e ↔ _
    rw [bind_unit_ok]
    constructor
    · rintro ⟨h₁, h₂, h₃, h₄⟩
      exact ⟨h₁, h₂, env, rfl, h₃, (Except.ok.inj h₄).symm⟩
    · rintro ⟨h₁, h₂, env', he, h₃, h₄⟩
      cases he
      exact ⟨h₁, h₂, h₃, congrArg _ h₄.symm⟩

/-- Whether a document is accepted, and how its row reads, is the same without its private
values. -/
theorem decodeEntry_public {mtime : Option Time} {id : JobId} {doc e : JobEntry}
    (h : decodeEntry true mtime id doc = .ok e) :
    ∃ e', decodeEntry false mtime id doc = .ok e' ∧
      ∀ now, activeIndexMember e' now = activeIndexMember e now := by
  obtain ⟨h₁, h₂, env, h₃, h₄, rfl⟩ := decodeEntry_ok.mp h
  exact ⟨_, decodeEntry_ok.mpr ⟨h₁, h₂, env, h₃, h₄, rfl⟩, fun now => rfl⟩

/-- The readings of a row do not see what decoding normalises, once its diagnostics are bounded
and it has an update time. -/
theorem activeIndexMember_decoded {priv : Bool} {mtime : Option Time} {id : JobId}
    {doc e : JobEntry} (h : decodeEntry priv mtime id doc = .ok e)
    (hb : boundEntryDiagnostics doc = doc) (hu : doc.updatedAt.isSome) (now : Time) :
    activeIndexMember e now = activeIndexMember doc now := by
  obtain ⟨-, -, env, -, -, rfl⟩ := decodeEntry_ok.mp h
  obtain ⟨t, ht⟩ := Option.isSome_iff_exists.mp hu
  have hr : (fillDefaults mtime (boundedEntry priv env doc)).reason = doc.reason := by
    change (boundEntryDiagnostics doc).reason = _
    rw [hb]
  have ht' : (fillDefaults mtime (boundedEntry priv env doc)).updatedAt = doc.updatedAt := by
    simp [fillDefaults, boundedEntry, boundEntryDiagnostics, ht]
  have hu' : isUncertainLaunch (fillDefaults mtime (boundedEntry priv env doc)) =
      isUncertainLaunch doc := by
    unfold isUncertainLaunch
    rw [hr]
    rfl
  have ho : observedAt (fillDefaults mtime (boundedEntry priv env doc)) = observedAt doc := by
    unfold observedAt
    rw [ht']
    rfl
  simp only [activeIndexMember, occupiesQuota, lostReconciling, retryBlockedReason, hu', ho]
  rfl

end Dt.Jobs
