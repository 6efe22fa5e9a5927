import Dt.Dispatch.Acceptance
import Dt.Jobs.ProbeCut

/-!
# Rows that a status probe leaves coherent

A probe that carries evidence turns a running or lost row into a running, a finished or a lost one
whose exit code, result, reason and finish time belong together. A finalized row, and one the probe
says nothing about, stays as it is. What a repaired lost row already had is kept, so a finish time
that an old row lacks stays missing when its reason does not.
-/

namespace Dt.Dispatch

open Dt.Lib Dt.Jobs Dt.Layout

variable {e : JobEntry} {p : StatusProbe} {stateDir : String} {now : Time}

/-- A legal exit code, another boot, or a verdict other than `UNVERIFIED`. -/
def evidence (e : JobEntry) (p : StatusProbe) : Bool :=
  if p.live then rebooted e p || p.token ≠ "UNVERIFIED" else p.exitCode.isSome

/-- Status, exit code, result, reason and finish time belong together. -/
def Coherent (e : JobEntry) : Prop :=
  match e.status with
  | .running => e.exitCode = none ∧ e.resultState = none ∧ e.finishedAt = none
  | .finished => (∃ code, e.exitCode = some code ∧ 0 ≤ code ∧ code ≤ 255) ∧
      e.resultState.isSome = true ∧ e.finishedAt.isSome = true
  | .lost => e.resultState = some .infraFailure ∧ truthy e.reason = true ∧
      e.finishedAt.isSome = true
  | _ => False

/-- The row `_apply_status_probe` returns. -/
def observed (e : JobEntry) (p : StatusProbe) (stateDir : String) (now : Time) : JobEntry :=
  (applyStatusProbe e p stateDir now).getD e

theorem not_final_of_open {d : Layout} (he : Stored d e) (hfinal : finalized e = false) :
    e.terminalFinalizedAt = none := by
  by_cases hlost : e.status = .lost
  · simpa [finalized, hlost] using hfinal
  · exact he.valid.status.not_final hlost

/-- A running row, and one that was lost before results were recorded. -/
def sampleRunning : JobEntry :=
  { sampleQueued with status := .running, node := "n1", pgid := some 7 }

end Dt.Dispatch
