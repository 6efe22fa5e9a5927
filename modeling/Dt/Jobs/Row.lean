import Dt.Jobs.Entry
import Mathlib.Tactic.Linarith

/-!
# What a row says about its job

The pure readings of a row that the scheduler, the dispatcher and the dependency gates share:
its typed result, whether a dependent may act on it, whether it holds a slot of the quota,
whether it may be retried, and whether the active index has to list it.

Only `lostReconciling` reads the clock, and it can only turn from true to false as time passes.
Every membership result about the index rests on that (`activeIndexMember_anti`).
-/

namespace Dt.Jobs

open Dt.Lib

/-! ## Constants -/

/-- How long a freshly lost job stays eligible for rescue. -/
def lostRecheckS : ℚ := 5 * 60

def cancelUnverifiedPrefix : String := "dequeue raced with dispatch; cancellation unverified: "

def uncertainLaunchPrefix : String := "launch outcome uncertain: "

def maxJobDiagnosticChars : Nat := 4096

/-! ## Results -/

def ResultState.text : ResultState → String
  | .success => "success"
  | .scientificReject => "scientific_reject"
  | .executionFailure => "execution_failure"
  | .infraFailure => "infra_failure"
  | .cancelled => "cancelled"
  | .guardTerminated => "guard_terminated"
  | .dependencySkipped => "dependency_skipped"

/-- An explicit result, or what the lifecycle status stands for. -/
def effectiveResultState (e : JobEntry) : Option ResultState :=
  match e.resultState with
  | some r => some r
  | none =>
    match e.status with
    | .finished =>
      if e.exitCode = some 0 then some .success
      else if e.exitCode.isSome then some .executionFailure else some .infraFailure
    | .killed => some .cancelled
    | .lost | .failed => some .infraFailure
    | .skipped => some .dependencySkipped
    | .queued | .running => none

/-- A failed row that may still own live remote processes. -/
def isUncertainLaunch (e : JobEntry) : Bool :=
  e.status = .failed && startsWith (e.reason.getD "") uncertainLaunchPrefix

/-- `status in {"finished", "killed", "lost", "failed", "skipped"}`. -/
def JobStatus.terminal : JobStatus → Bool
  | .queued | .running => false
  | .finished | .killed | .lost | .failed | .skipped => true

/-- Whether an irreversible dependent transition may observe the row. The source also accepts
the time and does not read it: a lost row settles only by its explicit fence. -/
def dependencySettled (e : JobEntry) : Bool :=
  if !e.status.terminal then false
  else if isUncertainLaunch e then false
  else if e.status ≠ .lost then true
  else e.terminalFinalizedAt.isSome

/-! ## Clocks -/

/-- Python's `a or b` on timestamps: a missing value and `0.0` are both falsy. -/
def orTime (a : Option Time) (b : Time) : Time :=
  match a with
  | some t => if t = 0 then b else t
  | none => b

/-- `entry.finished_at or entry.updated_at or entry.created_at`. -/
def observedAt (e : JobEntry) : Time := orTime e.finishedAt (orTime e.updatedAt e.createdAt)

/-- Whether a lost verdict is still inside its evidence recovery window. -/
def lostReconciling (e : JobEntry) (now : Time) : Bool :=
  e.status = .lost && e.terminalFinalizedAt.isNone && decide (now - observedAt e ≤ lostRecheckS)

/-- Whether a row may still own or be claiming one execution slot. -/
def occupiesQuota (e : JobEntry) (now : Time) : Bool :=
  e.status = .running || isUncertainLaunch e ||
    (e.status = .queued && (e.dispatchNode.isSome || e.dispatchToken.isSome)) ||
    lostReconciling e now

/-! ## Retries -/

/-- The retry policy of a submission, and the place of its job among the attempts. -/
structure RetrySpec where
  retryLimit : Int := 0
  retryOn : Option RetryOn := none
  retryCount : Int := 0
  retryOf : Option JobId := none
  deriving DecidableEq, Repr

def JobEntry.retry (e : JobEntry) : RetrySpec := ⟨e.retryLimit, e.retryOn, e.retryCount, e.retryOf⟩

/-- What a row says about the submission it comes from. -/
structure Lineage where
  jobId : JobId
  requestId : Option String
  retry : RetrySpec
  deriving DecidableEq, Repr

def JobEntry.lineage (e : JobEntry) : Lineage := ⟨e.jobId, e.requestId, e.retry⟩

/-- Why an automatic retry must not fire, or `none` when it may. -/
def retryBlockedReason (e : JobEntry) : Option String :=
  if e.retryLimit ≤ 0 then some "no retry budget"
  else match e.retriedBy with
  | some by_ => some ("already retried by " ++ by_)
  | none =>
    if e.retryLimit ≤ e.retryCount then
      some ("retry budget exhausted (" ++ toString e.retryCount ++ "/" ++ toString e.retryLimit ++
        ")")
    else if !(e.status = .failed || e.status = .lost || e.status = .finished) then
      some "not a retryable terminal state"
    else if isUncertainLaunch e then
      some "launch outcome is uncertain; a retry could double-run"
    else if e.status = .lost && e.terminalFinalizedAt.isNone then
      some "lost verdict is not yet fenced for irreversible consumers"
    else match effectiveResultState e with
    | some .infraFailure => none
    | some .executionFailure =>
      if e.retryOn.getD .infra = .always then none
      else some "application exit is excluded by retry_on=infra"
    | some r => some ("result '" ++ r.text ++ "' is not retryable")
    | none => some "result None is not retryable"

/-- A lost row whose unconsumed retry budget still awaits its fence. -/
def retryPendingFence (e : JobEntry) : Bool :=
  e.status = .lost && e.terminalFinalizedAt.isNone && decide (0 < e.retryLimit) &&
    e.retriedBy.isNone && decide (e.retryCount < e.retryLimit)

/-- Whether the active index lists the row. -/
def activeIndexMember (e : JobEntry) (now : Time) : Bool :=
  e.status = .queued || occupiesQuota e now || (retryBlockedReason e).isNone ||
    retryPendingFence e

/-! ## Time passes -/

theorem lostReconciling_anti {e : JobEntry} {t t' : Time} (h : t ≤ t')
    (hl : lostReconciling e t' = true) : lostReconciling e t = true := by
  simp only [lostReconciling, Bool.and_eq_true, decide_eq_true_eq] at hl ⊢
  exact ⟨hl.1, by linarith [hl.2]⟩

theorem occupiesQuota_anti {e : JobEntry} {t t' : Time} (h : t ≤ t')
    (ho : occupiesQuota e t' = true) : occupiesQuota e t = true := by
  simp only [occupiesQuota, Bool.or_eq_true] at ho ⊢
  exact ho.imp_right (lostReconciling_anti h)

/-- A row that is a member later was a member before, while it is unchanged. -/
theorem activeIndexMember_anti {e : JobEntry} {t t' : Time} (h : t ≤ t')
    (hm : activeIndexMember e t' = true) : activeIndexMember e t = true := by
  simp only [activeIndexMember, Bool.or_eq_true] at hm ⊢
  exact hm.imp_left (Or.imp_left (Or.imp_right (occupiesQuota_anti h)))

/-! ## Terminal transitions -/

/-- The cross-field rules shared by terminal transitions; the status is one of the terminal
ones and the result is typed, which the source checks and the types say here. -/
def transitionTerminal (e : JobEntry) (status : JobStatus) (result : ResultState)
    (reason : Option String) (finishedAt : Time) : JobEntry :=
  { e with
    status := status
    resultState := some result
    reason := reason
    finishedAt := some finishedAt
    terminalFinalizedAt := none }

end Dt.Jobs
