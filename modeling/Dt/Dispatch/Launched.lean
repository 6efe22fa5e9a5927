import Dt.Lib.Fallible
import Dt.Dispatch.Queued
import Dt.Dispatch.RemoteProof
import Dt.Jobs.Valid

/-!
# The row of a launch

A dispatcher learns of a launch in two ways: the launcher returns a receipt, or a recovery probe
proves a launch whose receipt was lost. The probe is parsed field by field, so all it yields can
be stored. Of a receipt the head checks Python types only.
-/

namespace Dt.Dispatch

open Dt.Lib Dt.Jobs Dt.Layout

/-- A digest or a token that the head has made or verified itself. -/
abbrev Hex (n : Nat) := { s : String // hexOf n s = true }

/-- A configured node, with the directory and the root the job has there. -/
structure Worker where
  node : Node
  jobDir : String
  root : String
  named : isConfigId node.name = true
  rooted : validRoot root = true

/-- What the dispatcher reads of the head configuration. `rejoin` stands for
`shlex.join(shlex.split(cmd))`, which no validator looks into. -/
structure Head extends HeadConfig where
  center : String
  diskMinGib : Int
  rejoin : String → String

/-- The JSON object a launcher prints, where the types of its values are the expected ones. -/
structure Receipt where
  gpus : List Int
  pgid : Int
  env : Option String
  bootId : Option String
  envPreexisting : Option Bool
  setupRan : Option Bool
  launchPhasesMs : Dict ℚ

def launchPhaseKeys : List String :=
  ["payload_attestation", "preflight", "artifact_verification", "environment",
    "launch_lock_wait", "gpu_probe", "session_start", "remote_total"]

/-- The known phases that are not negative, in seconds. -/
def launchPhasesS (raw : Dict ℚ) : Dict ℚ :=
  launchPhaseKeys.filterMap fun key =>
    (raw.lookup key).bind fun v => if 0 ≤ v then some (key, v / 1000) else none

/-! ## The specification a queued row carries -/

def effectiveDiskFloor (head : Head) (m : JobEntry) : Option Int :=
  let floor := max head.diskMinGib (m.requireDiskGib.getD 0)
  if floor = 0 then none else some floor

/-- `sorted(set(names)) if names else None` -/
def sortedNodes (names : Option (List String)) : Option (List String) :=
  match names with
  | none | some [] => none
  | some ns => some (ns.dedup.insertionSort (· ≤ ·))

/-- `validate_artifact_targets` keeps the links and sorts them. -/
def sortedTargets (targets : Option (Dict String)) : Option (Dict String) :=
  match targets with
  | none | some [] => none
  | some ts => some (ts.insertionSort fun a b => a.1 ≤ b.1)

/-- `sorted(set(states))` -/
def sortedStates (states : List ResultState) : List ResultState :=
  states.dedup.insertionSort fun a b => a.text ≤ b.text

/-- The fresh row `_try_nodes` builds from the specification of the dispatcher's copy and a
receipt. -/
def placedRow (head : Head) (m : JobEntry) (w : Worker) (r : Receipt) (reasons : Dict String)
    (snapshot : Hex 64) (snapshotS launchS : ℚ) (now : Time) : JobEntry :=
  { jobId := m.jobId
    name := m.name
    center := head.center
    project := if m.project = "" then "?" else m.project
    cmd := head.rejoin m.cmd
    gpusRequested := m.gpusRequested
    requirePath := m.requirePath
    requireDiskGib := effectiveDiskFloor head m
    pinNode := m.pinNode
    excludeNodes := sortedNodes m.excludeNodes
    maxHours := m.maxHours
    minVramMib := m.minVramMib
    maxVramMib := m.maxVramMib
    maxJobMemoryMib := m.maxJobMemoryMib
    setup := m.setup
    setupInputs := m.setupInputs
    extras := m.extras
    envMode := some (m.envMode.getD .sync)
    envSourceJob := m.envSourceJob
    customEnv := m.customEnv.insertionSort fun a b => a.1 ≤ b.1
    gitSha := m.gitSha
    gitDirty := m.gitDirty
    submoduleCommits := m.submoduleCommits
    artifactManifest := m.artifactManifest
    artifactTargets := sortedTargets m.artifactTargets
    forkedFrom := m.forkedFrom
    afterSuccess := m.afterSuccess
    afterComplete := m.afterComplete
    afterResult := m.afterResult
    afterResultStates := sortedStates m.afterResultStates
    requestId := m.requestId
    retryLimit := m.retryLimit
    retryOn := m.retryOn
    retryCount := m.retryCount
    retryOf := m.retryOf
    rerunOf := m.rerunOf
    rerunSourceSnapshotSha256 := m.rerunSourceSnapshotSha256
    cacheSourceJob := m.cacheSourceJob
    cacheSourceJobDir := m.cacheSourceJobDir
    cacheSourcePath := m.cacheSourcePath
    cacheEnv := m.cacheEnv
    cacheSourceEnvHash := m.cacheSourceEnvHash
    cacheMode := m.cacheMode
    storageLayout := some head.layout
    node := w.node.name
    nodeLocal := w.node.isLocal
    jobDir := w.jobDir
    session := m.session
    gpus := r.gpus
    pgid := some r.pgid
    envHash := r.env
    snapshotDurationS := some (max 0 snapshotS)
    launchDurationS := some (max 0 launchS)
    launchPhasesS := launchPhasesS r.launchPhasesMs
    envPreexisting := r.envPreexisting
    setupRan := r.setupRan
    bootId := r.bootId
    snapshotSha256 := some snapshot.1
    payloadSha256 := m.payloadSha256
    createdAt := m.createdAt
    startedAt := some now
    placementFailures := reasons
    rerunSnapshotChanged := m.rerunSourceSnapshotSha256.map fun s => decide (s ≠ snapshot.1)
    workerRoot := some w.root
    jobRelpath := some ("jobs/" ++ m.jobId) }

/-- A reading of the clock. -/
abbrev Moment := { t : Time // 0 ≤ t }

/-- A launch the dispatcher has evidence of, with the time it learned of it. -/
inductive Launched where
  | receipt (w : Worker) (r : Receipt) (reasons : Dict String) (snapshot : Hex 64)
      (snapshotS launchS : ℚ) (now : Moment)
  | recovered (w : Worker) (l : RecoveredLaunch)
      (parsed : ∃ float f, Frame.decode float f = .ok l) (now : Moment)

def Launched.rewrite (head : Head) (m : JobEntry) : Launched → Rewrite
  | .receipt w r reasons snapshot snapshotS launchS now =>
    .place (placedRow head m w r reasons snapshot snapshotS launchS now)
  | .recovered w l _ _ => .adopt w.node w.jobDir w.root l

def Launched.now : Launched → Moment
  | .receipt _ _ _ _ _ _ t => t
  | .recovered _ _ _ t => t

/-- The row `_finish_queued_placement` publishes. -/
def Launched.row (head : Head) (m : JobEntry) (l : Launched) : JobEntry :=
  (l.rewrite head m).apply m l.now

/-- The values of a receipt that a row can hold. -/
structure ReceiptOk (r : Receipt) : Prop where
  gpus : gpusOk r.gpus
  pgid : 0 < r.pgid
  env : hexOk 12 (dropEmpty r.env)

def Launched.Ok : Launched → Prop
  | .receipt _ r _ _ _ _ _ => ReceiptOk r
  | .recovered .. => True

/-- The candidates that had refused before the launch, if it has a receipt. -/
def Launched.reasons : Launched → Dict String
  | .receipt _ _ reasons _ _ _ _ => reasons
  | .recovered .. => []

/-- The layout of the launched row: a receipt takes the one of the head. -/
def Launched.layout (head : Head) (m : JobEntry) : Launched → Option Layout
  | .receipt .. => some head.layout
  | .recovered .. => m.storageLayout

/-! ## What a launched row keeps of the specification -/

section

variable {head : Head} {m : JobEntry} {now : Time}

end

/-! ## What a parsed launch can hold -/

end Dt.Dispatch
