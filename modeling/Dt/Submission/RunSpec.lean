import Dt.Dispatch.Launched
import Dt.Layout.Stores
import Dt.Submission.Intent

/-!
# Submission specifications

A `RunSpec` is one submission. `validateRunSpec` accepts it or names the first rule it breaks, and
brings its environment, its artifact links, its result states and its cache source into their normal
forms. The modes of a specification (its environment, retry and cache mode, the result states it
waits for) are types here, so texts outside of the fixed sets cannot be built.
-/

namespace Dt.Submission

open Dt.Lib Dt.Jobs Dt.Layout Dt.Dispatch

structure RunSpec where
  name : String
  gpus : Int
  cmd : List String
  gpuIsolation : String := "advisory"
  project : Option String := none
  node : Option String := none
  excludeNodes : Option (List String) := none
  requirePath : Option String := none
  requireDiskGib : Option Int := none
  maxHours : Option ℚ := none
  minVramMib : Option Int := none
  maxVramMib : Option Int := none
  maxJobMemoryMib : Option Int := none
  setup : Option String := none
  setupInputs : Option (List String) := none
  extras : Option (List String) := none
  envMode : EnvMode := .sync
  envHashOverride : Option String := none
  envSourceJob : Option JobId := none
  customEnv : Dict String := []
  dispatchToken : Option String := none
  forkedFrom : Option JobId := none
  afterSuccess : Option JobId := none
  afterComplete : Option JobId := none
  afterResult : Option JobId := none
  afterResultStates : List ResultState := []
  requestId : Option String := none
  rerunOf : Option JobId := none
  rerunSourceSnapshotSha256 : Option String := none
  retryLimit : Int := 0
  retryOn : Option RetryOn := none
  retryCount : Int := 0
  retryOf : Option JobId := none
  artifactManifest : Option String := none
  artifactTargets : Option (Dict String) := none
  cacheSourceJob : Option JobId := none
  cacheSourceJobDir : Option String := none
  cacheSourcePath : Option String := none
  cacheEnv : Option String := none
  cacheSourceEnvHash : Option String := none
  cacheSourceSnapshotSha256 : Option String := none
  cacheMode : Option CacheMode := none
  payloadSha256 : Option String := none
  deriving DecidableEq, Repr

/-! ## Artifact links -/

def artifactTargetMaxPathChars : Nat := 1024

/-- Why one side of a link is unsafe. -/
def artifactTargetPathError (side path : String) : Option String :=
  let cs := path.toList
  let parts := splitOn '/' cs
  if strip cs = [] then
    some ("artifact target " ++ side ++ " must be a non-empty relative path")
  else if artifactTargetMaxPathChars < cs.length then
    some ("artifact target " ++ side ++ " is longer than 1024 characters")
  else if cs ≠ strip cs then
    some ("artifact target " ++ side ++ " must not start or end with whitespace")
  else if cs.any fun c => c.toNat < 32 || c.toNat = 127 then
    some ("artifact target " ++ side ++ " must not contain control characters")
  else if '\\' ∈ cs then
    some ("artifact target " ++ side ++ " must use forward slashes")
  else if startsWith path "/" || startsWith path "~" then
    some ("artifact target " ++ side ++ " must be a relative path")
  else if (cs.zip cs.tail).contains ('.', '.') then
    some ("artifact target " ++ side ++ " must not contain '..'")
  else if parts.any fun part => part = [] || part = ['.'] then
    some ("artifact target " ++ side ++ " must be a normalized relative path " ++
      "without empty or '.' components")
  else if parts.head? = some ".dt".toList then
    some ("artifact target " ++ side ++ " must not enter the private .dt tree")
  else none

/-- Two links of which one is inside the other. -/
def targetsOverlap (existing target : String) : Bool :=
  existing = target || startsWith target (existing ++ "/") || startsWith existing (target ++ "/")

section

-- `repr` of a text, for messages
variable (repr : String → String)

/-- Why the next link is refused; `validated` are the links before it. -/
def artifactTargetError (validated : Dict String) (target source : String) : Option String :=
  match artifactTargetPathError "path" target with
  | some problem => some (problem ++ ": " ++ repr target)
  | none => match artifactTargetPathError "source" source with
    | some problem => some (problem ++ ": " ++ repr source)
    | none => match validated.find? fun p => targetsOverlap p.1 target with
      | some p => some ("artifact targets " ++ repr p.1 ++ " and " ++ repr target ++
          " overlap; each workspace link must be independent")
      | none => none

def validateTargetsFrom (validated : Dict String) : Dict String → Except String (Dict String)
  | [] => .ok validated
  | (target, source) :: rest =>
    match artifactTargetError repr validated target source with
    | some m => .error m
    | none => validateTargetsFrom (validated ++ [(target, source)]) rest

/-- `validate_artifact_targets`: the checked links in sorted order. -/
def validateArtifactTargets (targets : Dict String) : Except String (Dict String) :=
  validateTargetsFrom repr [] (targets.insertionSort fun a b => a.1 ≤ b.1)

/-! ## Cache reuse -/

/-- `[A-Za-z0-9_-]+` -/
def safeIdentity (s : String) : Bool := s ≠ "" && s.toList.all isNameChar

/-- Letters, digits, dots, underscores, slashes and dashes. -/
def plainPath (s : String) : Bool :=
  s ≠ "" && s.toList.all fun c => isAlnum c || c = '.' || c = '_' || c = '/' || c = '-'

/-- `[A-Za-z_][A-Za-z0-9_]*` -/
def envName (s : String) : Bool :=
  match s.toList with
  | [] => false
  | c :: cs => (isAlnum c || c = '_') && !isDigit c && cs.all fun d => isAlnum d || d = '_'

def reservedCacheEnvs : List String :=
  ["HOME", "PATH", "PYTHONPATH", "VIRTUAL_ENV", "UV_PROJECT_ENVIRONMENT", "CUDA_VISIBLE_DEVICES"]

/-- The source directory of a cache in its normal form. -/
def cacheSourceDir (source : String) : Except String String :=
  if startsWith source "~/" || startsWith source "/" then
    match normalizeNodeRoot source with
    | .ok dir => .ok dir
    | .error _ => .error "cache source job directory is unsafe"
  else
    let parts := pathParts source.toList
    let posix := "/".intercalate parts
    if ".." ∈ parts || parts = [] || !plainPath posix then
      .error "cache source job directory is unsafe"
    else .ok posix

/-- The cache path below `outputs/` in its normal form. -/
def cacheRelative (path : String) : Except String String :=
  let parts := pathParts path.toList
  let posix := "/".intercalate parts
  if isAbsolute path.toList || parts.length < 2 || parts.head? ≠ some "outputs" || ".." ∈ parts ||
      !plainPath posix then
    .error "reuse-cache must be a directory below the source job's outputs/"
  else .ok posix

/-- The fields of a cache source. -/
def RunSpec.cacheValues (spec : RunSpec) : List (Option String) :=
  [spec.cacheSourceJob, spec.cacheSourceJobDir, spec.cacheSourcePath, spec.cacheEnv,
    spec.cacheSourceEnvHash, spec.cacheSourceSnapshotSha256]

/-- `_validate_cache_reuse_contract` -/
def validateCacheReuse (spec : RunSpec) : Except String RunSpec := do
  check (!spec.cacheValues.all truthy) "cache reuse contract is incomplete"
  check (!spec.forkedFrom.any safeIdentity) "cache reuse requires safe fork provenance"
  check (!safeIdentity (spec.cacheSourceJob.getD "")) "cache source job identity is unsafe"
  let dir ← cacheSourceDir (spec.cacheSourceJobDir.getD "")
  let path ← cacheRelative (spec.cacheSourcePath.getD "")
  let env := spec.cacheEnv.getD ""
  check (!envName env) "cache-env must be a valid environment variable name"
  check (reservedCacheEnvs.contains env || startsWith env "DT_" && env ≠ "DT_REUSED_CACHE_DIR")
    ("cache-env '" ++ env ++ "' is reserved")
  check (!hexOf 12 (spec.cacheSourceEnvHash.getD ""))
    "cache source environment identity is invalid"
  check (!hexOf 64 (spec.cacheSourceSnapshotSha256.getD ""))
    "cache source snapshot identity is invalid"
  pure { spec with
    cacheMode := some (spec.cacheMode.getD .shared)
    cacheSourceJobDir := some dir
    cacheSourcePath := some path }

/-! ## The whole specification -/

/-- Node names that placement must avoid. -/
def validateExcludeNodes (spec : RunSpec) : Except String Unit := do
  check (spec.excludeNodes.any fun names => names.any (!isConfigId ·))
    "excluded node names must be configuration identifiers"
  check (spec.excludeNodes.any fun names => spec.node.any names.contains)
    ("--node " ++ spec.node.getD "" ++ " and --exclude-node " ++ spec.node.getD "" ++
      " contradict each other")

/-- A positive amount, when there is one. -/
def checkPositive {α : Type} [LE α] [OfNat α 0] [DecidableRel (α := α) (· ≤ ·)] (amount : Option α)
    (message : String) : Except String Unit :=
  check (amount.any (· ≤ 0)) message

def validateResources (spec : RunSpec) : Except String Unit := do
  check (spec.gpuIsolation ≠ "advisory")
    ("gpu_isolation must be advisory; this DT build has no physical " ++
      "GPU device-isolation backend")
  checkPositive spec.requireDiskGib "require_disk_gib must be a positive integer"
  checkPositive spec.maxHours "max_hours must be a finite positive number"
  checkPositive spec.minVramMib "min_vram_mib must be a positive integer"
  check (spec.minVramMib.isSome && spec.gpus = 0) "min_vram_mib requires at least one GPU"
  checkPositive spec.maxVramMib "max_vram_mib must be a positive integer"
  check (spec.maxVramMib.isSome && spec.gpus = 0) "max_vram_mib requires at least one GPU"
  checkPositive spec.maxJobMemoryMib "max_job_memory_mib must be a positive integer"

/-- The links, once they have a manifest to point into. -/
def validateTargets (spec : RunSpec) : Except String (Option (Dict String)) :=
  match spec.artifactTargets with
  | none => .ok none
  | some [] => .ok (some [])
  | some targets => do
    check spec.artifactManifest.isNone
      ("artifact targets require an artifact manifest: the links " ++
        "must point at verified content")
    let validated ← validateArtifactTargets repr targets
    pure (some validated)

/-- An optional job identity under the name of its field. -/
def checkIdentity (field : String) (id : Option JobId) : Except String Unit :=
  check (id.any (!safeIdentity ·)) (field ++ " must be a safe job identity")

def validateRetry (spec : RunSpec) : Except String Unit := do
  check (!(0 ≤ spec.retryLimit && spec.retryLimit ≤ maxRetryLimit))
    "retry must be an integer between 0 and 10"
  check (!(0 ≤ spec.retryCount && spec.retryCount ≤ maxRetryLimit))
    "retry ordinal must be an integer between 0 and 10"
  check (spec.retryOn.isSome && spec.retryLimit = 0) "retry_on requires a positive --retry budget"
  checkIdentity "retry_of" spec.retryOf

/-- The result states in order. -/
def validateDependencies (spec : RunSpec) : Except String (List ResultState) := do
  checkIdentity "after_success" spec.afterSuccess
  checkIdentity "after_complete" spec.afterComplete
  checkIdentity "after_result" spec.afterResult
  check (1 < ([spec.afterSuccess, spec.afterComplete, spec.afterResult].filter (·.isSome)).length)
    "dependency policies are mutually exclusive"
  if spec.afterResult.isSome then
    check (spec.afterResultStates = []) "after_result requires at least one result state"
    pure (sortedStates spec.afterResultStates)
  else
    check (spec.afterResultStates ≠ []) "result states require after_result"
    pure spec.afterResultStates

def validateRequest (spec : RunSpec) : Except String Unit :=
  match spec.requestId with
  | none => .ok ()
  | some rid => (validateRequestId rid).map fun _ => ()

def validateEnvironment (spec : RunSpec) : Except String Unit :=
  match spec.envMode with
  | .reuse => do
    check (!hexOf 12 (spec.envHashOverride.getD ""))
      "environment reuse requires a valid 12-hex identity"
    check (!safeIdentity (spec.envSourceJob.getD ""))
      "environment reuse requires a safe source job identity"
    check spec.node.isNone "environment reuse requires an explicit source node"
  | .sync =>
    check (spec.envHashOverride.isSome || spec.envSourceJob.isSome)
      "environment override requires reuse mode"

def validateRerunSource (spec : RunSpec) : Except String Unit := do
  check (spec.rerunSourceSnapshotSha256.isSome && spec.rerunOf.isNone)
    "rerun source snapshot requires rerun_of lineage"
  check (spec.rerunSourceSnapshotSha256.any (!hexOf 64 ·))
    "rerun_source_snapshot_sha256 must be 64 lowercase hex characters"

def validateCache (spec : RunSpec) : Except String RunSpec :=
  if spec.cacheValues.any (·.isSome) then validateCacheReuse spec
  else do
    check spec.cacheMode.isSome "cache mode requires a complete cache source contract"
    pure spec

/-- `_validate_run_spec` -/
def validateRunSpec (spec : RunSpec) : Except String RunSpec := do
  check (!spec.cmd.any fun part => strip part.toList ≠ []) "command must not be empty"
  let customEnv ← validateCustomEnv spec.customEnv
  check (spec.gpus < 0) "gpus must be non-negative"
  validateExcludeNodes spec
  check (spec.dispatchToken.any (!hexOf 32 ·)) "dispatch token is unsafe"
  validateResources spec
  check (spec.payloadSha256.any (!hexOf 64 ·)) "payload_sha256 must be 64 lowercase hex characters"
  check (spec.artifactManifest.any (!hexOf 64 ·))
    "artifact_manifest must be a lowercase SHA-256 digest"
  let artifactTargets ← validateTargets repr spec
  checkIdentity "rerun_of" spec.rerunOf
  validateRetry spec
  let afterResultStates ← validateDependencies spec
  validateRequest spec
  validateEnvironment spec
  validateRerunSource spec
  validateCache { spec with customEnv, artifactTargets, afterResultStates }

end

end Dt.Submission
