import Mathlib
import Dt.Jobs.Registry

/-!
# Admission

`admissionDecision` decides one reservation from a snapshot of the rows: the dependencies of the
candidate, the wait its stored reason still implies, the quota, and the queue order. It reads no
file; the caller takes the snapshot and writes the reservation.
-/

namespace Dt.Scheduler

open Dt.Lib Dt.Jobs

structure AdmissionDecision where
  allowed : Bool
  state : String
  reason : String
  blockingJobId : Option JobId := none
  deriving DecidableEq, Repr

/-- Why a row waits: the state, the reason and the condition that would end the wait. -/
structure Wait where
  state : String
  reason : String
  condition : String
  deriving DecidableEq, Repr

def statusText : JobStatus → String
  | .queued => "queued"
  | .running => "running"
  | .finished => "finished"
  | .killed => "killed"
  | .lost => "lost"
  | .failed => "failed"
  | .skipped => "skipped"

/-- `effective_result_state(entry) or entry.status` -/
def resultText (e : JobEntry) : String :=
  match effectiveResultState e with
  | some r => r.text
  | none => statusText e.status

/-- Could admitting the candidate on a node take a card the older waiter is queued for? CPU work
never overlaps, and a row with a claim reserves capacity on its own node only. -/
def capacityOverlaps (older candidate : JobEntry) (candidateNode : String) : Bool :=
  if older.gpusRequested ≤ 0 || candidate.gpusRequested ≤ 0 then false
  else match older.dispatchNode with
  | some node => node = candidateNode
  | none => older.pinNode.isNone || older.pinNode = some candidateNode

def dependencyWaitReason (e : JobEntry) : String :=
  if isUncertainLaunch e then "has an uncertain launch outcome"
  else if e.status = .lost then "is provisionally lost pending durable terminal finalization"
  else "is " ++ statusText e.status

/-- The row of a job in a snapshot; a later row of the same job replaces an earlier one. -/
def byId (entries : List JobEntry) (id : JobId) : Option JobEntry :=
  entries.reverse.find? (·.jobId = id)

/-- What the dependency of a row still asks for. -/
def dependencyState (e : JobEntry) (entries : List JobEntry) : Option Wait :=
  match e.afterResult with
  | some dependency =>
    match byId entries dependency with
    | none => some ⟨"blocked_dependency_missing",
        "result dependency " ++ dependency ++ " was not found",
        "repair or replace the missing predecessor"⟩
    | some predecessor =>
      if !dependencySettled predecessor then
        some ⟨"waiting_dependency",
          "result dependency " ++ dependency ++ " " ++ dependencyWaitReason predecessor,
          "dependency must complete as one of [" ++
            ",".intercalate (e.afterResultStates.map ResultState.text) ++ "]"⟩
      else if (effectiveResultState predecessor).all (· ∉ e.afterResultStates) then
        some ⟨"blocked_predicate_false", "result dependency completed as " ++
          resultText predecessor, "the scheduler will mark this job skipped"⟩
      else none
  | none =>
    match e.afterComplete with
    | some dependency =>
      match byId entries dependency with
      | none => some ⟨"blocked_dependency_missing",
          "completion dependency " ++ dependency ++ " was not found",
          "repair or replace the missing predecessor"⟩
      | some predecessor =>
        if !dependencySettled predecessor then
          some ⟨"waiting_dependency",
            "completion dependency " ++ dependency ++ " " ++ dependencyWaitReason predecessor,
            "dependency " ++ dependency ++ " must reach any terminal result"⟩
        else none
    | none =>
      match e.afterSuccess with
      | none => none
      | some dependency =>
        match byId entries dependency with
        | none => some ⟨"blocked_dependency_missing",
            "dependency " ++ dependency ++ " was not found",
            "repair or replace the missing predecessor"⟩
        | some predecessor =>
          if !dependencySettled predecessor then
            some ⟨"waiting_dependency",
              "dependency " ++ dependency ++ " " ++ dependencyWaitReason predecessor,
              "dependency " ++ dependency ++ " must finish successfully"⟩
          else if predecessor.status ≠ .finished || predecessor.exitCode ≠ some 0 ||
              effectiveResultState predecessor ≠ some .success then
            some ⟨"blocked_dependency_false",
              "dependency " ++ dependency ++ " completed as " ++ resultText predecessor,
              "the scheduler will mark this dependent job skipped"⟩
          else none

/-- The wait a stored reason still implies. -/
def persistedWait (e : JobEntry) (hasResourceSnapshot attempting : Bool) : Option Wait :=
  let reason := e.reason.getD ""
  if startsWith reason "blocked:" && !attempting then
    some ⟨"blocked_constraint", reason, "satisfy the reported job constraint"⟩
  else if !hasResourceSnapshot && (decide ("unreachable:".toList <:+: reason.toList) ||
      startsWith reason "waiting: no reachable") then
    some ⟨"waiting_node", reason, "a candidate node must become reachable"⟩
  else none

/-- `sorted(queued, key=lambda entry: (entry.created_at, entry.job_id))` -/
def fifo (entries : List JobEntry) : List JobEntry :=
  (entries.filter fun e => e.status = .queued).insertionSort fun a b =>
    a.createdAt < b.createdAt ∨ a.createdAt = b.createdAt ∧ a.jobId ≤ b.jobId

/-- The first older waiter whose capacity the candidate would take. -/
def fifoBlocker (candidate : JobEntry) (entries : List JobEntry) (candidateNode : String) :
    Option JobEntry :=
  ((fifo entries).takeWhile (·.jobId ≠ candidate.jobId)).find? fun older =>
    (dependencyState older entries).isNone && (persistedWait older false false).isNone &&
      capacityOverlaps older candidate candidateNode

/-- How many rows of a snapshot count against the quota at a time. -/
def occupancy (entries : List JobEntry) (now : Time) : Nat :=
  (entries.filter (occupiesQuota · now)).length

/-- Rows only leave the quota as time passes. -/
theorem occupancy_anti {entries : List JobEntry} {t t' : Time} (h : t ≤ t') :
    occupancy entries t' ≤ occupancy entries t :=
  (List.monotone_filter_right entries fun _ => occupiesQuota_anti h).length_le

def admissionDecision (maxMyJobs : Option Nat) (candidate : JobEntry) (entries : List JobEntry)
    (candidateNode : String) (registryDamage : Nat) (hasFreshCandidate : Bool) (now : Time) :
    AdmissionDecision :=
  match dependencyState candidate entries with
  | some w => ⟨false, w.state, w.reason, none⟩
  | none =>
    match persistedWait candidate hasFreshCandidate hasFreshCandidate with
    | some w => ⟨false, w.state, w.reason, none⟩
    | none =>
      let occupied := occupancy entries now + registryDamage
      let others := if occupiesQuota candidate now then occupied - 1 else occupied
      if maxMyJobs.any (· ≤ others) then
        ⟨false, "waiting_quota", "max_my_jobs=" ++ toString (maxMyJobs.getD 0) ++ " is reached",
          none⟩
      else match fifoBlocker candidate entries candidateNode with
      | some older => ⟨false, "waiting_fifo",
          "FIFO capacity is reserved for earlier job " ++ older.jobId, some older.jobId⟩
      | none => ⟨true, "admit", "reservation may be claimed", none⟩

/-- An admitted candidate leaves room for itself. -/
theorem admissionDecision_allowed {cap : Nat} {candidate : JobEntry}
    {entries : List JobEntry} {node : String} {damage : Nat} {fresh : Bool} {now : Time}
    (h : (admissionDecision (some cap) candidate entries node damage fresh now).allowed = true)
    (hc : occupiesQuota candidate now = false) : occupancy entries now + damage < cap := by
  unfold admissionDecision at h
  split at h
  · cases h
  · split at h
    · cases h
    · simp only [hc, Bool.false_eq_true, if_false] at h
      split at h
      · cases h
      · rename_i hroom
        simpa using hroom

/-! ## Fresh evidence

The claim of an attempt passes `has_fresh_candidate`, so no stored reason of the candidate itself
holds it back. -/

theorem persistedWait_fresh (e : JobEntry) : persistedWait e true true = none := by
  simp [persistedWait]

/-- The quota leaves the candidate a slot. -/
def hasRoom (maxMyJobs : Option Nat) (candidate : JobEntry) (entries : List JobEntry)
    (registryDamage : Nat) (now : Time) : Bool :=
  let occupied := occupancy entries now + registryDamage
  !maxMyJobs.any (· ≤ if occupiesQuota candidate now then occupied - 1 else occupied)

/-- The older row is not skipped and could use the capacity the candidate asks for. -/
def holdsCapacity (candidate : JobEntry) (entries : List JobEntry) (candidateNode : String)
    (older : JobEntry) : Bool :=
  (dependencyState older entries).isNone && (persistedWait older false false).isNone &&
    capacityOverlaps older candidate candidateNode

theorem fifoBlocker_eq (candidate : JobEntry) (entries : List JobEntry) (candidateNode : String) :
    fifoBlocker candidate entries candidateNode =
      ((fifo entries).takeWhile (·.jobId ≠ candidate.jobId)).find?
        (holdsCapacity candidate entries candidateNode) := rfl

section Fresh

variable {maxMyJobs : Option Nat} {candidate : JobEntry} {entries : List JobEntry} {node : String}
  {damage : Nat} {now : Time}

theorem admissionDecision_fresh_eq (h : dependencyState candidate entries = none) :
    admissionDecision maxMyJobs candidate entries node damage true now =
      if hasRoom maxMyJobs candidate entries damage now then
        match fifoBlocker candidate entries node with
        | some older => ⟨false, "waiting_fifo",
            "FIFO capacity is reserved for earlier job " ++ older.jobId, some older.jobId⟩
        | none => ⟨true, "admit", "reservation may be claimed", none⟩
      else ⟨false, "waiting_quota", "max_my_jobs=" ++ toString (maxMyJobs.getD 0) ++ " is reached",
        none⟩ := by
  simp only [admissionDecision, h, persistedWait_fresh, hasRoom, Bool.not_eq_true',
    ← Bool.not_eq_true, ite_not]

/-- On whose behalf a fresh candidate is refused. -/
theorem admissionDecision_blocking_iff {id : JobId} :
    (admissionDecision maxMyJobs candidate entries node damage true now).blockingJobId = some id ↔
      dependencyState candidate entries = none ∧
      hasRoom maxMyJobs candidate entries damage now = true ∧
      ∃ older, fifoBlocker candidate entries node = some older ∧ older.jobId = id := by
  cases hd : dependencyState candidate entries with
  | some w => simp [admissionDecision, hd]
  | none =>
    rw [admissionDecision_fresh_eq hd]
    cases hroom : hasRoom maxMyJobs candidate entries damage now with
    | false => simp
    | true => cases fifoBlocker candidate entries node <;> simp

/-- When a fresh candidate is admitted. -/
theorem admissionDecision_allowed_iff :
    (admissionDecision maxMyJobs candidate entries node damage true now).allowed = true ↔
      dependencyState candidate entries = none ∧
      hasRoom maxMyJobs candidate entries damage now = true ∧
      fifoBlocker candidate entries node = none := by
  cases hd : dependencyState candidate entries with
  | some w => simp [admissionDecision, hd]
  | none =>
    rw [admissionDecision_fresh_eq hd]
    cases hroom : hasRoom maxMyJobs candidate entries damage now with
    | false => simp
    | true => cases fifoBlocker candidate entries node <;> simp

end Fresh

/-- The rows of a snapshot, with the rows the queued ones depend on. A predecessor that cannot be
read is left out. -/
def withDependencyPredecessors (cfg : HeadConfig) (r : Registry) (entries : List JobEntry) :
    List JobEntry :=
  let known := entries.map (·.jobId)
  let named := (entries.filter fun e => e.status = .queued).flatMap fun e =>
    [e.afterSuccess, e.afterComplete, e.afterResult].filterMap id
  entries ++ ((named.filter (· ∉ known)).eraseDups).filterMap (row cfg r)

theorem occupancy_le_withDependencyPredecessors (cfg : HeadConfig) (r : Registry)
    (entries : List JobEntry) (now : Time) :
    occupancy entries now ≤ occupancy (withDependencyPredecessors cfg r entries) now := by
  simp [occupancy, withDependencyPredecessors]

end Dt.Scheduler
