import Dt.Lib.Text
import Mathlib.Data.Rat.Defs
import Mathlib.Algebra.Order.Ring.Rat

/-!
# Registry rows

`JobEntry` is one row of the job registry. What the source stores as a string out of a fixed set
(the lifecycle status, the typed result, the layout) is an inductive type here; a Python float is
a rational, and a dict is its list of items in insertion order.

The fields that no lifecycle write touches after submission are in `JobSpec`, which `JobEntry`
extends: an update of a row carries the submission part along as one value.
-/

namespace Dt.Jobs

open Dt.Lib

abbrev Time := ℚ

abbrev JobId := String

abbrev Dict (α : Type) := List (String × α)

/-- `JOB_STATUSES`. -/
inductive JobStatus where
  | queued | running | finished | killed | lost | failed | skipped
  deriving DecidableEq, Repr

/-- `RESULT_STATES`. -/
inductive ResultState where
  | success | scientificReject | executionFailure | infraFailure | cancelled | guardTerminated
  | dependencySkipped
  deriving DecidableEq, Repr

/-- The two on-disk layouts, `legacy-v0` and `role-v1`. -/
inductive Layout where
  | legacy | role
  deriving DecidableEq, Repr

/-- `RETRY_ON_MODES`. -/
inductive RetryOn where
  | infra | always
  deriving DecidableEq, Repr

inductive EnvMode where
  | sync | reuse
  deriving DecidableEq, Repr

inductive CacheMode where
  | shared | clone
  deriving DecidableEq, Repr

/-- The part of a row that is fixed when the job is submitted. -/
structure JobSpec where
  jobId : JobId
  name : String
  center : String
  project : String
  cmd : String
  gpuIsolation : String := "advisory"
  gitSha : Option String := none
  snapshotSha256 : Option String := none
  payloadSha256 : Option String := none
  artifactManifest : Option String := none
  artifactTargets : Option (Dict String) := none
  maxHours : Option ℚ := none
  minVramMib : Option Int := none
  maxVramMib : Option Int := none
  maxJobMemoryMib : Option Int := none
  createdAt : Time
  gpusRequested : Int := 1
  requirePath : Option String := none
  requireDiskGib : Option Int := none
  pinNode : Option String := none
  excludeNodes : Option (List String) := none
  envMode : Option EnvMode := none
  envSourceJob : Option JobId := none
  setup : Option String := none
  setupInputs : Option (List String) := none
  extras : List String := []
  forkedFrom : Option JobId := none
  afterSuccess : Option JobId := none
  afterComplete : Option JobId := none
  afterResult : Option JobId := none
  afterResultStates : List ResultState := []
  requestId : Option String := none
  rerunOf : Option JobId := none
  retryLimit : Int := 0
  retryOn : Option RetryOn := none
  retryCount : Int := 0
  retryOf : Option JobId := none
  rerunSourceSnapshotSha256 : Option String := none
  rerunSnapshotChanged : Option Bool := none
  cacheSourceJob : Option JobId := none
  cacheSourceJobDir : Option String := none
  cacheSourcePath : Option String := none
  cacheEnv : Option String := none
  cacheSourceEnvHash : Option String := none
  cacheMode : Option CacheMode := none
  deriving DecidableEq, Repr

/-- One registry row; `node` is `"-"` while the job is queued. -/
structure JobEntry extends JobSpec where
  node : String
  nodeLocal : Bool
  jobDir : String
  session : String
  gpus : List Int := []
  pgid : Option Int := none
  status : JobStatus := .running
  exitCode : Option Int := none
  gitDirty : Bool := false
  submoduleCommits : Option (Dict String) := none
  finishedAt : Option Time := none
  updatedAt : Option Time := none
  reason : Option String := none
  dispatchNode : Option String := none
  dispatchToken : Option String := none
  dispatchOwner : Option String := none
  dispatchClaimedAt : Option Time := none
  placementFailures : Dict String := []
  placementAttempts : Int := 0
  placementPattern : Option String := none
  placementFirstFailedAt : Option Time := none
  placementLastFailedAt : Option Time := none
  envHash : Option String := none
  snapshotDurationS : Option ℚ := none
  launchDurationS : Option ℚ := none
  launchPhasesS : Dict ℚ := []
  envPreexisting : Option Bool := none
  setupRan : Option Bool := none
  customEnv : Dict String := []
  customEnvKeys : List String := []
  customEnvLoaded : Bool := true
  bootId : Option String := none
  startedAt : Option Time := none
  resultState : Option ResultState := none
  retriedBy : Option JobId := none
  storageLayout : Option Layout := none
  workerRoot : Option String := none
  workerRoots : Dict String := []
  jobRelpath : Option String := none
  recoveredAt : Option Time := none
  codePrunedAt : Option Time := none
  terminalFinalizedAt : Option Time := none
  legacyCleanupPending : Bool := false
  deriving DecidableEq, Repr

/-- A small valid queued row. -/
def JobEntry.sample (id : JobId) : JobEntry :=
  { jobId := id, name := "train", center := "lab", project := "demo", cmd := "python train.py"
    createdAt := 1000, node := "-", nodeLocal := false, jobDir := "~/dt/jobs/" ++ id
    session := "dt-" ++ id, status := .queued }

end Dt.Jobs
