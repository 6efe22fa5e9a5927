import Dt.Dispatch.Lifecycle
import Mathlib.Data.List.Sort

/-!
# Committing a queued job

Every commit of a dispatcher is a rewrite of its own copy of the row, saved only while the stored
row is still queued and still holds the attempt the copy was read with. `Rewrite` lists them, in
the order `dispatch_queued` can reach them.
-/

namespace Dt.Dispatch

open Dt.Lib Dt.Jobs

/-- `"; ".join(f"{n}: {r}" for n, r in reasons.items())`. -/
def reasonsText (reasons : Dict String) : String :=
  "; ".intercalate (reasons.map fun p => p.1 ++ ": " ++ p.2)

/-- The kind of a refusal: its prefix up to the first colon, or the outcome for an outage. -/
def refusalKind (outcome reason : String) : String :=
  if outcome = "unreachable" then outcome
  else
    let kind := String.ofList (strip (reason.toList.takeWhile (· ≠ ':')))
    if kind = "" then outcome else kind

/-- `NODE=kind;NODE=kind`, stable across attempts. -/
def placementPattern (reasons : Dict String) (outcome : String) : String :=
  match reasons.insertionSort fun a b => a.1 ≤ b.1 with
  | [] => outcome
  | rs => ";".intercalate (rs.map fun p => p.1 ++ "=" ++ refusalKind outcome p.2)

inductive Rewrite where
  /-- the runtime payload that will launch the job -/
  | payload (sha : String)
  /-- a stage or a request that can never be dispatched -/
  | fail (detail : String)
  /-- a claim whose remote attempt cannot be proved absent -/
  | blocked (detail : String)
  /-- a launch that a recovery probe has proved -/
  | adopt (node : Node) (nodeJobDir workerRoot : String) (launch : RecoveredLaunch)
  /-- a claim whose remote attempt is proved absent -/
  | clear
  /-- no node was tried; `refusals` counts as an attempt, with the outcome it had -/
  | hold (reason : String) (refusals : Option (Dict String × String))
  /-- a launch that returned its receipt -/
  | place (placed : JobEntry)
  /-- a launch that failed for good, or whose outcome is uncertain -/
  | failPlacement (reasons : Dict String) (node : Node) (jobDir workerRoot : String)
      (uncertain : Bool)
  /-- every candidate refused -/
  | settle (reasons : Dict String) (reason outcome : String)

/-- The candidate row. -/
def Rewrite.apply (e : JobEntry) (now : Time) : Rewrite → JobEntry
  | .payload sha => { e with payloadSha256 := some sha }
  | .fail detail => failRow e detail
  | .blocked detail => withReason e (some ("blocked: " ++ detail))
  | .adopt node nodeJobDir workerRoot launch => adoptedRow e node nodeJobDir workerRoot launch now
  | .clear => withReason (clearClaim e) none
  | .hold reason refusals =>
    let e := withReason e (some reason)
    match refusals with
    | none => e
    | some (rs, outcome) => notePlacementAttempt e (placementPattern rs outcome) now
  | .place placed =>
    { placed with
      gitSha := e.gitSha, gitDirty := e.gitDirty, submoduleCommits := e.submoduleCommits }
  | .failPlacement reasons node jobDir workerRoot uncertain =>
    failPlacementRow { clearClaim e with placementFailures := reasons } node jobDir workerRoot
      (reasonsText reasons) uncertain now
  | .settle reasons reason outcome =>
    let e := withReason { clearClaim e with placementFailures := reasons } (some reason)
    if reasons = [] then e
    else notePlacementAttempt e (placementPattern reasons outcome) now

/-- Whether the candidate is saved at all: a hold that changes nothing only compares. -/
def Rewrite.persist (e : JobEntry) : Rewrite → Bool
  | .hold reason none => e.reason ≠ some reason
  | .settle reasons reason _ =>
    e.reason ≠ some reason || e.placementFailures ≠ reasons || reasons ≠ []
  | _ => true

end Dt.Dispatch
