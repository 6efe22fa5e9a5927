import Dt.Jobs.Row

/-!
# Status probes

`applyStatusProbe` turns the evidence of one status probe into the next state of a running or
lost row. It returns the row to save, or `none` when the stored row is kept as it is; the
transient observations it reports to its caller are not part of the row.
-/

namespace Dt.Jobs

open Dt.Lib

/-- A parsed status-probe response. -/
structure StatusProbe where
  token : String
  bootId : Option String
  startedAt : Option Time
  finishedAt : Option Time
  result : String
  deriving DecidableEq, Repr

def ResultState.all : List ResultState :=
  [.success, .scientificReject, .executionFailure, .infraFailure, .cancelled, .guardTerminated,
    .dependencySkipped]

/-- The typed result a text names. -/
def ResultState.ofText (s : String) : Option ResultState := ResultState.all.find? (·.text = s)

/-- Python's truth value of an optional text. -/
def truthy (s : Option String) : Bool := s.any (· ≠ "")

/-- `str(pgid)` inside a message. -/
def pgidText (p : Option Int) : String :=
  match p with
  | some n => toString n
  | none => "None"

/-- A valid exit code in the job's state file finishes the row. -/
def markFinishedFromProbe (e : JobEntry) (p : StatusProbe) (code : Int) (now : Time) : JobEntry :=
  { e with
    exitCode := some code
    status := .finished
    reason := none
    startedAt := if p.startedAt.isSome then p.startedAt else e.startedAt
    finishedAt := some (orTime p.finishedAt now)
    resultState := some ((ResultState.ofText p.result).getD
      (if code = 0 then .success else .executionFailure)) }

/-- The node has another boot identity than the one the job was started under. -/
def markRebootedFromProbe (e : JobEntry) (was is : String) (now : Time) : JobEntry :=
  { e with
    status := .lost
    terminalFinalizedAt := none
    reason := some ("node rebooted since launch (boot_id " ++ was ++ " -> " ++ is ++
      "); exit_code is missing")
    finishedAt := some (orTime e.finishedAt now)
    resultState := some .infraFailure }

/-- Live evidence; a rescued lost row sheds its terminal meaning. -/
def runningFromProbe (e : JobEntry) (remoteStartedAt : Option Time) : JobEntry :=
  { e with
    startedAt := if remoteStartedAt.isSome then remoteStartedAt else e.startedAt
    reason :=
      if e.status ≠ .running then none
      else if startsWith (e.reason.getD "") cancelUnverifiedPrefix then e.reason else none
    status := .running
    exitCode := none
    resultState := none
    finishedAt := none }

/-- The row is saved only when live evidence changed it. -/
def markRunningFromProbe (e : JobEntry) (remoteStartedAt : Option Time) : Option JobEntry :=
  if runningFromProbe e remoteStartedAt = e then none else some (runningFromProbe e remoteStartedAt)

def lostReason (e : JobEntry) (token stateDir : String) : String :=
  if token = "STALE" then
    "wrapper pid " ++ pgidText e.pgid ++ " is alive but its process identity does not match " ++
      "this job; refusing to adopt a reused process"
  else
    "wrapper pid " ++ pgidText e.pgid ++ " is not running and " ++ stateDir ++
      "/exit_code is missing"

/-- An older lost row whose metadata a fresh verdict repairs. -/
def repairLost (e : JobEntry) (token stateDir : String) (now : Time) : JobEntry :=
  { e with
    reason := if truthy e.reason then e.reason else some (lostReason e token stateDir)
    finishedAt := if truthy e.reason then e.finishedAt else some (orTime e.finishedAt now)
    resultState := some .infraFailure }

/-- A LOST or STALE verdict on a row that was not lost yet. -/
def markLost (e : JobEntry) (token stateDir : String) (now : Time) : JobEntry :=
  { e with
    status := .lost
    terminalFinalizedAt := none
    reason := some (lostReason e token stateDir)
    finishedAt := some now
    resultState := some .infraFailure }

def markLostFromProbe (e : JobEntry) (token stateDir : String) (now : Time) : Option JobEntry :=
  if e.status = .lost then
    if truthy e.reason && e.resultState = some .infraFailure then none
    else some (repairLost e token stateDir now)
  else some (markLost e token stateDir now)

/-- The node reports another boot than the row's. -/
def rebooted (e : JobEntry) (p : StatusProbe) : Bool :=
  truthy e.bootId && truthy p.bootId && p.bootId ≠ some "UNKNOWN" && p.bootId ≠ e.bootId

def applyStatusProbe (e : JobEntry) (p : StatusProbe) (stateDir : String) (now : Time) :
    Option JobEntry :=
  if e.status = .lost && e.terminalFinalizedAt.isSome then none
  else if !(p.token = "RUNNING" || p.token = "LOST" || p.token = "STALE" ||
      p.token = "UNVERIFIED") then
    match pyInt p.token.toList with
    | none => none
    | some code =>
      if 0 ≤ code && code ≤ 255 then some (markFinishedFromProbe e p code now) else none
  else if rebooted e p then
    some (markRebootedFromProbe e (e.bootId.getD "") (p.bootId.getD "") now)
  else if p.token = "RUNNING" then
    if e.status = .lost && dependencySettled e then none else markRunningFromProbe e p.startedAt
  else if p.token = "UNVERIFIED" then none
  else markLostFromProbe e p.token stateDir now

end Dt.Jobs
