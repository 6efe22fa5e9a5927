import Dt.Jobs.Status

/-!
# The rows that dispatch and kill hand to the registry

Each lifecycle write of the dispatcher and of `dt kill` builds its row from the stored one, or
from the dispatcher's own copy of it, and rewrites only some of its fields. This module has one
function per such rewrite.
-/

namespace Dt.Dispatch

open Dt.Lib Dt.Jobs

/-- A compute node, as far as a row records it. -/
structure Node where
  name : String
  isLocal : Bool := false
  deriving DecidableEq, Repr

/-! ## Claims -/

/-- The attempt identity of a row. -/
def attempt (e : JobEntry) : Option String × Option String := (e.dispatchNode, e.dispatchToken)

def clearClaim (e : JobEntry) : JobEntry :=
  { e with
    dispatchNode := none
    dispatchToken := none
    dispatchOwner := none
    dispatchClaimedAt := none }

/-- The reservation of one attempt on a node. -/
def claimRow (e : JobEntry) (node token owner : String) (now : Time) : JobEntry :=
  { e with
    dispatchNode := some node
    dispatchToken := some token
    dispatchOwner := some owner
    dispatchClaimedAt := some now
    reason := some ("dispatching: " ++ node) }

/-- A new reason and nothing else. -/
def withReason (e : JobEntry) (reason : Option String) : JobEntry := { e with reason := reason }

/-! ## Dependency gates -/

/-- The row of a job whose dependency can never be met. -/
def gateFail (e : JobEntry) (detail : String) (now : Time) : JobEntry :=
  { e with
    status := .failed
    resultState := some .infraFailure
    reason := some detail
    finishedAt := some now }

/-- The row of a job whose dependency predicate is false. -/
def gateSkip (e : JobEntry) (detail : String) (now : Time) : JobEntry :=
  { e with
    status := .skipped
    resultState := some .dependencySkipped
    reason := some detail
    finishedAt := some now }

/-! ## Queued transitions -/

/-- The terminal defaults `_commit_queued_transition` fills in before it commits: a failed or
skipped candidate gets a finish time and a typed result. -/
def commitDefaults (e : JobEntry) (now : Time) : JobEntry :=
  let finishedAt := e.finishedAt.getD now
  if e.status = .failed && (e.finishedAt.isNone || e.resultState.isNone) then
    transitionTerminal e .failed .infraFailure e.reason finishedAt
  else if e.status = .skipped && (e.finishedAt.isNone || e.resultState.isNone) then
    transitionTerminal e .skipped .dependencySkipped e.reason finishedAt
  else e

/-- `fail(detail)`: the copy keeps whatever attempt identity it has. -/
def failRow (e : JobEntry) (detail : String) : JobEntry :=
  { e with status := .failed, reason := some detail }

/-- Count one placement attempt that ended in `pattern`. -/
def notePlacementAttempt (e : JobEntry) (pattern : String) (now : Time) : JobEntry :=
  if e.placementPattern = some pattern && decide (0 < e.placementAttempts) then
    { e with
      placementAttempts := e.placementAttempts + 1
      placementLastFailedAt := some now }
  else
    { e with
      placementPattern := some pattern
      placementAttempts := 1
      placementFirstFailedAt := some now
      placementLastFailedAt := some now }

/-- A fatal placement failure against the last node attempted. -/
def failPlacementRow (e : JobEntry) (node : Node) (jobDir workerRoot bad : String)
    (uncertain : Bool) (now : Time) : JobEntry :=
  { e with
    status := .failed
    node := node.name
    nodeLocal := node.isLocal
    workerRoot := if e.storageLayout = some .role then some workerRoot else e.workerRoot
    jobDir := if e.storageLayout = some .role then jobDir else e.jobDir
    finishedAt := some now
    reason := some (if uncertain then uncertainLaunchPrefix ++ bad else bad) }

/-! ## Launches -/

inductive LaunchState where
  | none | unproven | running | finished
  deriving DecidableEq, Repr

/-- `_RecoveredLaunch`. -/
structure RecoveredLaunch where
  state : LaunchState
  bootId : Option String := .none
  pgid : Option Int := .none
  gpus : List Int := []
  startedAt : Option Time := .none
  finishedAt : Option Time := .none
  exitCode : Option Int := .none
  resultState : Option ResultState := .none
  envHash : Option String := .none
  deriving DecidableEq, Repr

/-- The row of a launch whose receipt was lost and which a probe has proved. -/
def adoptedRow (e : JobEntry) (node : Node) (nodeJobDir workerRoot : String)
    (l : RecoveredLaunch) (now : Time) : JobEntry :=
  let finished := decide (l.state = .finished)
  { clearClaim e with
    node := node.name
    nodeLocal := node.isLocal
    jobDir := nodeJobDir
    gpus := l.gpus
    pgid := l.pgid
    status := if finished then .finished else .running
    exitCode := if finished then l.exitCode else none
    reason := none
    envHash := if truthy l.envHash then l.envHash else e.envHash
    bootId := l.bootId
    startedAt := l.startedAt
    finishedAt := if finished then l.finishedAt else none
    resultState := if finished then l.resultState else none
    workerRoot := some workerRoot
    jobRelpath := some ("jobs/" ++ e.jobId)
    recoveredAt := some now }

/-- What `_restore_running_after_cancel_failure` writes over a raced dequeue. -/
def restoreRunningRow (placed : JobEntry) (detail : String) : JobEntry :=
  { placed with
    status := .running
    finishedAt := none
    reason := some (cancelUnverifiedPrefix ++ detail) }

/-- The completed history of a launch that was cancelled after a raced dequeue. -/
def cancelledInflightRow (current placed : JobEntry) (now : Time) : JobEntry :=
  { current with
    node := placed.node
    nodeLocal := placed.nodeLocal
    gpus := placed.gpus
    pgid := placed.pgid
    envHash := placed.envHash
    snapshotDurationS := placed.snapshotDurationS
    launchDurationS := placed.launchDurationS
    launchPhasesS := placed.launchPhasesS
    envPreexisting := placed.envPreexisting
    setupRan := placed.setupRan
    bootId := placed.bootId
    startedAt := placed.startedAt
    snapshotSha256 := if truthy placed.snapshotSha256 then placed.snapshotSha256
      else current.snapshotSha256
    payloadSha256 := if truthy placed.payloadSha256 then placed.payloadSha256
      else current.payloadSha256
    storageLayout := placed.storageLayout
    workerRoot := placed.workerRoot
    jobRelpath := placed.jobRelpath
    jobDir := placed.jobDir
    finishedAt := some now
    reason := some "dequeued by user; in-flight launch cancelled (TERM)" }

/-! ## Kill -/

/-- `dt kill` on a queued row, after its attempt was cancelled. -/
def dequeueRow (e : JobEntry) (now : Time) : JobEntry :=
  { (if e.dispatchNode.isSome then clearClaim e else e) with
    status := .killed
    resultState := some .cancelled
    finishedAt := some now
    reason := some "dequeued by user" }

/-- `f"{reason}"` of an optional text. -/
def reasonText (r : Option String) : String := r.getD "None"

/-- A confirmed death of a running, lost or uncertain job. -/
def killedRow (e : JobEntry) (sig : String) (now : Time) : JobEntry :=
  { e with
    status := .killed
    resultState := some .cancelled
    finishedAt := some now
    reason := some (if isUncertainLaunch e then
        "uncertain launch cleanup confirmed dead by user (" ++ sig ++ "); previous: " ++
          reasonText e.reason
      else "killed by user (" ++ sig ++ ")") }

/-- A completion that the kill probe saw and the status probe could not record. -/
def exitedRow (e : JobEntry) (code : Option Int) (now : Time) : JobEntry :=
  { e with
    status := .finished
    exitCode := code
    finishedAt := some (orTime e.finishedAt now)
    resultState := none
    reason := some "completed before kill; recorded from exit marker" }

end Dt.Dispatch
