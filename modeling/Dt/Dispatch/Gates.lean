import Mathlib
import Dt.Dispatch.Lifecycle
import Dt.Scheduler.Admission

/-!
# Dependency gates

A job may depend on one other job: on its success, on its completion, or on its typed result. The
rule is evaluated three times: `gateDependencies` at submission, `dispatchQueuedGated` before each
placement, and `dependencyState` in the explanation of the queue. This module compares them on one
predecessor row.

The dispatcher fences an expired lost predecessor before it looks at it; the other two read the row
as it is.
-/

namespace Dt.Dispatch

open Dt.Lib Dt.Jobs Dt.Scheduler

/-- What a reader of the registry gets for a job. -/
abbrev View := JobId → Except String (Option JobEntry)

inductive GateVerdict where
  | release
  | wait (detail : String)
  | skip (detail : String)
  | fail (detail : String)
  deriving DecidableEq, Repr

inductive GateKind where
  | release | wait | skip | fail
  deriving DecidableEq, Repr

def GateVerdict.kind : GateVerdict → GateKind
  | .release => .release
  | .wait _ => .wait
  | .skip _ => .skip
  | .fail _ => .fail

def jobSucceeded (e : JobEntry) : Bool :=
  e.status = .finished && e.exitCode = some 0 && effectiveResultState e = some .success

/-- The result of a predecessor is one of the named ones. -/
def resultMatches (states : List ResultState) (p : JobEntry) : Bool :=
  (effectiveResultState p).any (· ∈ states)

def statesText (states : List ResultState) : String :=
  ",".intercalate (states.map ResultState.text)

/-! ## At dispatch -/

/-- One kind of dependency: how it is called, what it says of a predecessor that is not settled,
and why it refuses one that is. -/
structure DependencyRule where
  label : String
  unsettled : JobEntry → String
  refusal : JobId → JobEntry → Option String

def successRule : DependencyRule where
  label := "dependency"
  unsettled p :=
    if p.status = .lost then "is lost but inside the rescue window" else "is " ++ statusText p.status
  refusal dependency p :=
    if jobSucceeded p then none
    else
      let exitNote := match p.exitCode with
        | some code => ", exit " ++ toString code
        | none => ""
      let resultNote :=
        if p.resultState = some .scientificReject then ", result scientific_reject" else ""
      some ("dependency " ++ dependency ++ " did not succeed: " ++ statusText p.status ++ exitNote ++
        resultNote)

def completeRule : DependencyRule where
  label := "completion dependency"
  unsettled p := "is " ++ statusText p.status
  refusal _ _ := none

def resultRule (states : List ResultState) : DependencyRule where
  label := "result dependency"
  unsettled p := "is " ++ statusText p.status
  refusal dependency p :=
    if resultMatches states p then none
    else some ("result dependency " ++ dependency ++ " completed as " ++ resultText p ++
      "; expected one of " ++ statesText states)

/-- The verdict of one rule for a job, from what a reader gets for its dependency. -/
def DependencyRule.verdict (rule : DependencyRule) (self dependency : JobId) (view : View) :
    GateVerdict :=
  if dependency = self then .fail (rule.label ++ " " ++ dependency ++ " points to the same job")
  else match view dependency with
  | .error _ => .wait ("registry row for dependency " ++ dependency ++ " is unreadable")
  | .ok none => .fail (rule.label ++ " " ++ dependency ++ " was not found")
  | .ok (some p) =>
    if !dependencySettled p then .wait (rule.label ++ " " ++ dependency ++ " " ++ rule.unsettled p)
    else match rule.refusal dependency p with
    | some detail => .skip detail
    | none => .release

/-- The rules of a row, in the order in which the dispatcher looks at them. -/
def rulesOf (e : JobEntry) : List (JobId × DependencyRule) :=
  [e.afterSuccess.map (·, successRule), e.afterComplete.map (·, completeRule),
    e.afterResult.map (·, resultRule e.afterResultStates)].filterMap id

/-- The row as the gate leaves it; the staging of a failed or skipped job goes too. -/
def GateVerdict.row (v : GateVerdict) (e : JobEntry) (now : Time) : JobEntry :=
  match v with
  | .release => withReason e none
  | .wait detail => withReason e (some ("waiting: " ++ detail))
  | .skip detail => gateSkip e detail now
  | .fail detail => gateFail e detail now

/-- The rules in turn: the first one that does not release the job decides. -/
def applyRules (view : View) (now : Time) : List (JobId × DependencyRule) → JobEntry →
    GateVerdict × JobEntry
  | [], e => (.release, e)
  | (dependency, rule) :: rules, e =>
    match rule.verdict e.jobId dependency view with
    | .release => applyRules view now rules (GateVerdict.release.row e now)
    | v => (v, v.row e now)

/-- `_finalize_dependency_rows`: each expired lost row among the dependencies is fenced, where its
write succeeds. -/
def finalizeDependencyRows (view : View) (dependencies : List JobId) (self : JobId) (now : Time)
    (saved : JobId → Bool) : View := fun id =>
  if id ∈ dependencies && id ≠ self && saved id then
    (view id).map (Option.map fun e => (finalizeWrite e now).getD e)
  else view id

def dependenciesOf (e : JobEntry) : List JobId :=
  [e.afterSuccess, e.afterComplete, e.afterResult].filterMap id

/-- The gate of `_dispatch_queued_gated` for a queued row. -/
def dispatchQueuedGated (e : JobEntry) (view : View) (now : Time) (saved : JobId → Bool) :
    GateVerdict × JobEntry :=
  applyRules (finalizeDependencyRows view (dependenciesOf e) e.jobId now saved) now (rulesOf e) e

/-! ## At submission -/

/-- `if spec.after_…:`, and the refusal to gate a job that must not queue. -/
def gated (dependency : Option JobId) (noQueue : Bool) (option : String) (view : View)
    (gate : JobId → Option JobEntry → GateVerdict) : Except String GateVerdict :=
  match dependency.filter (· ≠ "") with
  | none => .ok .release
  | some dependency =>
    if noQueue then .error (option ++ " requires queueing")
    else (view dependency).map (gate dependency)

/-- A predecessor that succeeded lets the job be placed at once only on the node it ran on. -/
def successGate (pin : Option String) (dependency : JobId) : Option JobEntry → GateVerdict
  | none => .wait ("dependency " ++ dependency)
  | some p =>
    if dependencySettled p && !jobSucceeded p then
      .skip ("dependency " ++ dependency ++ " completed as " ++ resultText p ++ "; required success")
    else if jobSucceeded p && p.node ≠ "-" && some p.node = pin then .release
    else .wait ("dependency " ++ dependency)

def completeGate (dependency : JobId) : Option JobEntry → GateVerdict
  | none => .wait ("completion dependency " ++ dependency)
  | some p =>
    if dependencySettled p then .release else .wait ("completion dependency " ++ dependency)

def resultGate (states : List ResultState) (dependency : JobId) : Option JobEntry → GateVerdict
  | none => .wait ("result dependency " ++ dependency ++ " in [" ++ statesText states ++ "]")
  | some p =>
    if dependencySettled p then
      if resultMatches states p then .release
      else .skip ("dependency " ++ dependency ++ " completed as " ++ resultText p ++
        "; expected one of " ++ statesText states)
    else .wait ("result dependency " ++ dependency ++ " in [" ++ statesText states ++ "]")

/-- `_gate_dependencies`: the gates in turn, for the request of a row. -/
def gateDependencies (noQueue : Bool) (s : JobSpec) (view : View) : Except String GateVerdict := do
  let v ← gated s.afterSuccess noQueue "after_success" view (successGate s.pinNode)
  if v ≠ .release then return v
  let v ← gated s.afterComplete noQueue "after_complete" view completeGate
  if v ≠ .release then return v
  gated s.afterResult noQueue "after_result" view (resultGate s.afterResultStates)

/-! ## In the explanation -/

/-- The verdict that a dependency wait of the explanation announces. -/
def explainedKind : Option Wait → GateKind
  | none => .release
  | some w =>
    if w.state = "waiting_dependency" then .wait
    else if w.state = "blocked_dependency_missing" then .fail
    else .skip

/-! ## One rule

`ruleKind` is what a dependency asks for, as a function of the predecessor row alone. -/

/-- The predicate of the dependency, on a settled predecessor. -/
def predicateHolds (e p : JobEntry) : Bool :=
  (e.afterSuccess.isNone || jobSucceeded p) &&
    (e.afterResult.isNone || resultMatches e.afterResultStates p)

def ruleKind (e : JobEntry) : Option JobEntry → GateKind
  | none => .fail
  | some p => if !dependencySettled p then .wait else if predicateHolds e p then .release else .skip

variable {e : JobEntry} {d : JobId} {view : View} {now : Time} {saved : JobId → Bool}

/-- A job with one dependency has it of exactly one kind. -/
theorem single_dependency (h : dependenciesOf e = [d]) :
    (e.afterSuccess = some d ∧ e.afterComplete = none ∧ e.afterResult = none) ∨
    (e.afterSuccess = none ∧ e.afterComplete = some d ∧ e.afterResult = none) ∨
    (e.afterSuccess = none ∧ e.afterComplete = none ∧ e.afterResult = some d) := by
  revert h
  simp only [dependenciesOf]
  cases e.afterSuccess <;> cases e.afterComplete <;> cases e.afterResult <;> simp

theorem no_dependency (h : dependenciesOf e = []) :
    e.afterSuccess = none ∧ e.afterComplete = none ∧ e.afterResult = none := by
  revert h
  simp only [dependenciesOf]
  cases e.afterSuccess <;> cases e.afterComplete <;> cases e.afterResult <;> simp

theorem ruleKind_release {p? : Option JobEntry} (h : ruleKind e p? = .release) :
    ∃ p, p? = some p ∧ dependencySettled p = true ∧ predicateHolds e p = true := by
  cases p? with
  | none => cases h
  | some p =>
    simp only [ruleKind] at h
    split at h
    · cases h
    split at h
    · rename_i hs hp
      exact ⟨p, rfl, by simpa using hs, hp⟩
    · cases h

theorem succeeded_settled {p : JobEntry} (h : jobSucceeded p = true) : dependencySettled p = true := by
  simp only [jobSucceeded, Bool.and_eq_true, decide_eq_true_eq] at h
  simp [dependencySettled, isUncertainLaunch, h.1.1, JobStatus.terminal]

theorem not_resultMatches (states : List ResultState) (p : JobEntry) :
    (effectiveResultState p).all (· ∉ states) = !resultMatches states p := by
  unfold resultMatches
  cases effectiveResultState p <;> simp

theorem not_succeeded (p : JobEntry) :
    (p.status ≠ .finished || p.exitCode ≠ some 0 || effectiveResultState p ≠ some .success) =
      !jobSucceeded p := by
  simp [jobSucceeded, Bool.not_and]

/-- The explanation follows the rule on the row it reads. -/
theorem explained_eq_ruleKind {rows : List JobEntry} (h : dependenciesOf e = [d]) :
    explainedKind (dependencyState e rows) = ruleKind e (byId rows d) := by
  rcases single_dependency h with ⟨hs, hc, hr⟩ | ⟨hs, hc, hr⟩ | ⟨hs, hc, hr⟩ <;>
    simp only [dependencyState, hs, hc, hr]
  · cases hp : byId rows d with
    | none => rfl
    | some p =>
      simp only [not_succeeded, ruleKind, predicateHolds, hs, hr]
      cases dependencySettled p <;> cases jobSucceeded p <;> rfl
  · cases hp : byId rows d with
    | none => rfl
    | some p =>
      simp only [ruleKind, predicateHolds, hs, hr]
      cases dependencySettled p <;> rfl
  · cases hp : byId rows d with
    | none => rfl
    | some p =>
      simp only [not_resultMatches, ruleKind, predicateHolds, hs, hr]
      cases dependencySettled p <;> cases resultMatches e.afterResultStates p <;> rfl

/-- The predecessor as the dispatcher finds it after its fences. -/
def fenced (now : Time) (saved : JobId → Bool) (d : JobId) (p : JobEntry) : JobEntry :=
  if saved d then (finalizeWrite p now).getD p else p

/-- One rule at dispatch, on a predecessor that is another job and can be read. -/
theorem verdict_kind {rule : DependencyRule} {p? : Option JobEntry} (hself : d ≠ e.jobId)
    (hv : view d = .ok p?) (hrule : ∀ p, (rule.refusal d p).isNone = predicateHolds e p) :
    (rule.verdict e.jobId d view).kind = ruleKind e p? := by
  simp only [DependencyRule.verdict, hself, if_false, hv]
  cases p? with
  | none => rfl
  | some p =>
    simp only [ruleKind, ← hrule p]
    cases dependencySettled p with
    | false => rfl
    | true => cases rule.refusal d p <;> rfl

theorem applyRules_single {rule : DependencyRule} :
    (applyRules view now [(d, rule)] e).1 = rule.verdict e.jobId d view := by
  simp only [applyRules]
  split <;> simp_all

theorem finalizeDependencyRows_view (now : Time) (saved : JobId → Bool) {p? : Option JobEntry}
    (h : dependenciesOf e = [d]) (hself : d ≠ e.jobId) (hv : view d = .ok p?) :
    finalizeDependencyRows view (dependenciesOf e) e.jobId now saved d =
      .ok (p?.map (fenced now saved d)) := by
  simp only [finalizeDependencyRows, h, List.mem_singleton, hself, ne_eq, not_false_eq_true,
    decide_true, Bool.true_and, hv]
  cases hs : saved d with
  | true => cases p? <;> simp [fenced, hs, Except.map]
  | false => cases p? <;> simp [fenced, hs]

/-- The dispatcher follows the rule on the row that its fences leave. -/
theorem dispatch_eq_ruleKind {p? : Option JobEntry} (h : dependenciesOf e = [d])
    (hself : d ≠ e.jobId) (hv : view d = .ok p?) :
    (dispatchQueuedGated e view now saved).1.kind = ruleKind e (p?.map (fenced now saved d)) := by
  have hview := finalizeDependencyRows_view now saved h hself hv
  simp only [dispatchQueuedGated, rulesOf]
  rcases single_dependency h with ⟨hs, hc, hr⟩ | ⟨hs, hc, hr⟩ | ⟨hs, hc, hr⟩ <;>
    simp only [hs, hc, hr, Option.map_some, Option.map_none, List.filterMap_cons, List.filterMap_nil,
      id_eq, applyRules_single]
  · refine verdict_kind hself hview fun p => ?_
    simp only [successRule, predicateHolds, hs, hr]
    cases jobSucceeded p <;> rfl
  · refine verdict_kind hself hview fun p => ?_
    simp [completeRule, predicateHolds, hs, hr]
  · refine verdict_kind hself hview fun p => ?_
    simp only [resultRule, predicateHolds, hs, hr]
    cases resultMatches e.afterResultStates p <;> rfl

/-- The predecessor succeeded on the node the request is pinned to. -/
def readyOnPin (e p : JobEntry) : Bool := p.node ≠ "-" && some p.node = e.pinNode

/-- Submission queues a job behind a missing predecessor, and behind one that succeeded elsewhere;
otherwise it follows the rule. -/
def submittedKind (e : JobEntry) (p? : Option JobEntry) : GateKind :=
  match ruleKind e p? with
  | .fail => .wait
  | .release => if e.afterSuccess.isSome && !p?.any (readyOnPin e) then .wait else .release
  | kind => kind

theorem gateDependencies_ok {noQueue : Bool} {s : JobSpec} {v₁ v₂ v₃ : GateVerdict}
    (h₁ : gated s.afterSuccess noQueue "after_success" view (successGate s.pinNode) = .ok v₁)
    (h₂ : gated s.afterComplete noQueue "after_complete" view completeGate = .ok v₂)
    (h₃ : gated s.afterResult noQueue "after_result" view (resultGate s.afterResultStates) = .ok v₃) :
    gateDependencies noQueue s view =
      .ok (if v₁ ≠ .release then v₁ else if v₂ ≠ .release then v₂ else v₃) := by
  simp only [gateDependencies, h₁, h₂, h₃, bind, Except.bind, pure, Except.pure]
  split
  · rfl
  · split <;> rfl

theorem gated_none (option : String) (gate : JobId → Option JobEntry → GateVerdict) :
    gated none false option view gate = .ok .release := rfl

theorem gated_some {p? : Option JobEntry} (hd : d ≠ "") (hv : view d = .ok p?) (option : String)
    (gate : JobId → Option JobEntry → GateVerdict) :
    gated (some d) false option view gate = .ok (gate d p?) := by
  have hfilter : (some d).filter (· ≠ "") = some d := by simp [hd]
  simp only [gated, hfilter, hv]
  rfl

theorem successGate_kind {p? : Option JobEntry} (hs : e.afterSuccess = some d)
    (hr : e.afterResult = none) : (successGate e.pinNode d p?).kind = submittedKind e p? := by
  cases p? with
  | none => rfl
  | some p =>
    simp only [successGate, submittedKind, ruleKind, predicateHolds, hs, hr, Option.any_some,
      readyOnPin]
    cases hp : jobSucceeded p with
    | true =>
      have := succeeded_settled hp
      simp only [this, Bool.not_true, Bool.and_false, Bool.false_eq_true, if_false, Bool.true_and,
        Option.isNone_some, Option.isNone_none, Option.isSome_some, Bool.or_true]
      cases (decide (p.node ≠ "-") && decide (some p.node = e.pinNode)) <;> rfl
    | false => cases dependencySettled p <;> rfl

theorem completeGate_kind {p? : Option JobEntry} (hs : e.afterSuccess = none)
    (hr : e.afterResult = none) : (completeGate d p?).kind = submittedKind e p? := by
  cases p? with
  | none => rfl
  | some p =>
    simp only [completeGate, submittedKind, ruleKind, predicateHolds, hs, hr]
    cases dependencySettled p <;> rfl

theorem resultGate_kind {p? : Option JobEntry} (hs : e.afterSuccess = none)
    (hr : e.afterResult = some d) :
    (resultGate e.afterResultStates d p?).kind = submittedKind e p? := by
  cases p? with
  | none => rfl
  | some p =>
    simp only [resultGate, submittedKind, ruleKind, predicateHolds, hs, hr]
    cases dependencySettled p <;> cases resultMatches e.afterResultStates p <;> rfl

theorem submit_eq_submittedKind {p? : Option JobEntry} (h : dependenciesOf e = [d]) (hd : d ≠ "")
    (hv : view d = .ok p?) :
    ∃ v, gateDependencies false e.toJobSpec view = .ok v ∧ v.kind = submittedKind e p? := by
  rcases single_dependency h with ⟨hs, hc, hr⟩ | ⟨hs, hc, hr⟩ | ⟨hs, hc, hr⟩
  · refine ⟨_, gateDependencies_ok (hs ▸ gated_some hd hv _ _) (hc ▸ gated_none _ _)
      (hr ▸ gated_none _ _), ?_⟩
    rw [← successGate_kind hs hr]
    by_cases hg : successGate e.pinNode d p? = .release <;> simp [hg]
  · refine ⟨_, gateDependencies_ok (hs ▸ gated_none _ _) (hc ▸ gated_some hd hv _ _)
      (hr ▸ gated_none _ _), ?_⟩
    rw [← completeGate_kind (d := d) hs hr]
    by_cases hg : completeGate d p? = .release <;> simp [hg]
  · refine ⟨_, gateDependencies_ok (hs ▸ gated_none _ _) (hc ▸ gated_none _ _)
      (hr ▸ gated_some hd hv _ _), ?_⟩
    rw [← resultGate_kind hs hr]
    simp

/-! ## Agreement -/

/-- A lost predecessor without its fence is not settled. -/
theorem finalizeWrite_unsettled {p p' : JobEntry} (h : finalizeWrite p now = some p') :
    dependencySettled p = false := by
  unfold finalizeWrite at h
  split at h
  · cases h
  split at h
  · cases h
  split at h
  · cases h
  rename_i _ hl hf
  simp only [ne_eq, not_not, Bool.not_eq_true, Option.isSome_eq_false_iff,
    Option.isNone_iff_eq_none] at hl hf
  simp [dependencySettled, isUncertainLaunch, hl, hf, JobStatus.terminal]

/-- How the verdicts of the three gates on one predecessor are related. -/
structure GatesAgree (e : JobEntry) (d : JobId) (p? : Option JobEntry) (now : Time)
    (saved : JobId → Bool) (submit dispatch explain : GateKind) : Prop where
  /-- a missing predecessor queues the job at submission and fails it at dispatch -/
  missing : p? = none → submit = .wait ∧ dispatch = .fail ∧ explain = .fail
  agree : ∀ p, p? = some p → finalizeWrite p now = none → dispatch = explain
  /-- a lost row past its window: the dispatcher decides on the row it has fenced -/
  expired : ∀ p p', p? = some p → finalizeWrite p now = some p' →
    submit = .wait ∧ explain = .wait ∧ dispatch = if saved d then ruleKind e (some p') else .wait
  /-- submission queues the job behind a predecessor that succeeded elsewhere -/
  elsewhere : ∀ p, p? = some p → submit ≠ explain →
    e.afterSuccess = some d ∧ jobSucceeded p = true ∧ readyOnPin e p = false ∧ submit = .wait ∧
      explain = .release
  /-- a release rests on a settled predecessor that meets the predicate -/
  safe : submit = .release ∨ explain = .release →
    ∃ p, p? = some p ∧ dependencySettled p = true ∧ predicateHolds e p = true
  safeDispatch : dispatch = .release →
    ∃ p, p?.map (fenced now saved d) = some p ∧ dependencySettled p = true ∧
      predicateHolds e p = true

theorem submittedKind_release {p? : Option JobEntry} (h : submittedKind e p? = .release) :
    ruleKind e p? = .release := by
  unfold submittedKind at h
  split at h
  · cases h
  · assumption
  · exact h

theorem submittedKind_ne {p : JobEntry} (hone : dependenciesOf e = [d])
    (h : submittedKind e (some p) ≠ ruleKind e (some p)) :
    e.afterSuccess = some d ∧ jobSucceeded p = true ∧ readyOnPin e p = false ∧
      submittedKind e (some p) = .wait ∧ ruleKind e (some p) = .release := by
  have hnf : ruleKind e (some p) ≠ .fail := by
    simp only [ruleKind]
    split
    · simp
    · split <;> simp
  cases hk : ruleKind e (some p) with
  | fail => exact absurd hk hnf
  | wait => simp [submittedKind, hk] at h
  | skip => simp [submittedKind, hk] at h
  | release =>
    simp only [submittedKind, hk, Option.any_some] at h ⊢
    split at h
    · rename_i hcond
      simp only [Bool.and_eq_true, Bool.not_eq_true'] at hcond
      obtain ⟨hs, hpin⟩ := hcond
      obtain ⟨_, hp, -, hpred⟩ := ruleKind_release hk
      cases hp
      obtain ⟨d', hs'⟩ := Option.isSome_iff_exists.mp hs
      have hdd : e.afterSuccess = some d := by
        rcases single_dependency hone with ⟨h', -, -⟩ | ⟨h', -, -⟩ | ⟨h', -, -⟩
        · exact h'
        · simp [h'] at hs'
        · simp [h'] at hs'
      simp only [predicateHolds, hdd, Option.isNone_some, Bool.false_or, Bool.and_eq_true] at hpred
      simp [hdd, hpred.1, hpin]
    · exact absurd rfl h

/-- The gates of a job with one dependency on another job that can be read. -/
theorem gatesAgree_single {p? : Option JobEntry} (hone : dependenciesOf e = [d]) :
    GatesAgree e d p? now saved (submittedKind e p?) (ruleKind e (p?.map (fenced now saved d)))
      (ruleKind e p?) where
  missing := by
    rintro rfl
    exact ⟨rfl, rfl, rfl⟩
  agree := by
    rintro p rfl hf
    simp [fenced, hf]
  expired := by
    rintro p p' rfl hf
    have hwait : ruleKind e (some p) = .wait := by simp [ruleKind, finalizeWrite_unsettled hf]
    refine ⟨by simp [submittedKind, hwait], hwait, ?_⟩
    cases hs : saved d <;> simp [fenced, hs, hf, hwait]
  elsewhere := by
    rintro p rfl h
    exact submittedKind_ne hone h
  safe h := ruleKind_release (h.elim submittedKind_release id)
  safeDispatch := ruleKind_release

/-- For a job with at most one dependency, on another job whose row can be read, the three gates
agree on the row as each of them reads it, but for the three cases that `GatesAgree` names. -/
theorem gates_agree (e : JobEntry) (hone : (dependenciesOf e).length ≤ 1)
    (hother : ∀ d ∈ dependenciesOf e, d ≠ "" ∧ d ≠ e.jobId) (rows : List JobEntry) (view : View)
    (hv : ∀ d ∈ dependenciesOf e, view d = .ok (byId rows d)) (now : Time) (saved : JobId → Bool) :
    ∃ submitted, gateDependencies false e.toJobSpec view = .ok submitted ∧
    (dependenciesOf e = [] → submitted.kind = .release ∧
      (dispatchQueuedGated e view now saved).1.kind = .release ∧
      explainedKind (dependencyState e rows) = .release) ∧
    ∀ d ∈ dependenciesOf e, GatesAgree e d (byId rows d) now saved submitted.kind
      (dispatchQueuedGated e view now saved).1.kind (explainedKind (dependencyState e rows)) := by
  cases hdeps : dependenciesOf e with
  | nil =>
    obtain ⟨hs, hc, hr⟩ := no_dependency hdeps
    have hsub : gateDependencies false e.toJobSpec view = .ok .release :=
      gateDependencies_ok (hs ▸ gated_none _ _) (hc ▸ gated_none _ _) (hr ▸ gated_none _ _)
    refine ⟨_, hsub, fun _ => ⟨rfl, ?_, ?_⟩, by simp⟩
    · simp [dispatchQueuedGated, rulesOf, hs, hc, hr, applyRules, GateVerdict.kind]
    · simp [dependencyState, hs, hc, hr, explainedKind]
  | cons d rest =>
    obtain rfl : rest = [] := by
      rw [hdeps] at hone
      exact List.eq_nil_of_length_eq_zero (by simpa using hone)
    simp only [hdeps, List.mem_singleton, forall_eq] at hother hv
    obtain ⟨v, hsub, hkind⟩ := submit_eq_submittedKind hdeps hother.1 hv
    refine ⟨v, hsub, by simp, ?_⟩
    intro d' hd'
    obtain rfl : d' = d := by simpa using hd'
    rw [hkind, dispatch_eq_ruleKind hdeps hother.2 hv, explained_eq_ruleKind hdeps]
    exact gatesAgree_single hdeps

/-- What a reader gets from a registry of these rows. -/
def viewOf (rows : List JobEntry) : View := fun id => .ok (byId rows id)

def sampleAfterSuccess (pin : Option String) : JobEntry :=
  { JobEntry.sample "b" with afterSuccess := some "a", pinNode := pin }

/-- A finished predecessor on another node than the pin. -/
def sampleSucceeded : JobEntry :=
  { JobEntry.sample "a" with
    status := .finished, exitCode := some 0, resultState := some .success, node := "n1" }

/-- A lost predecessor past its window, without its fence. -/
def sampleExpired : JobEntry := { sampleLost "a" with terminalFinalizedAt := none }

/-- On the node of its predecessor the job is released by all three gates. -/
theorem gates_agree_on_pin :
    GatesAgree (sampleAfterSuccess (some "n1")) "a" (some sampleSucceeded) 2000 (fun _ => true)
      .release .release .release := by
  obtain ⟨v, hv, -, h⟩ := gates_agree (sampleAfterSuccess (some "n1")) (by decide) (by decide)
    [sampleSucceeded] (viewOf [sampleSucceeded]) (fun _ _ => rfl) 2000 (fun _ => true)
  obtain rfl : GateVerdict.release = v := by
    have : gateDependencies false (sampleAfterSuccess (some "n1")).toJobSpec
        (viewOf [sampleSucceeded]) = .ok .release := by
      decide +kernel
    simpa [this] using hv
  exact h "a" (by decide)

/-- Behind a predecessor that succeeded on `n1` a job pinned to `n2` is queued by submission and
released by the other gates; behind a lost one past its window the dispatcher skips a job that the
explanation calls waiting. -/
theorem gates_differ :
    (gateDependencies false (sampleAfterSuccess (some "n2")).toJobSpec (viewOf [sampleSucceeded]) =
        .ok (.wait "dependency a") ∧
      (dispatchQueuedGated (sampleAfterSuccess (some "n2")) (viewOf [sampleSucceeded]) 2000
        fun _ => true).1 = .release ∧
      dependencyState (sampleAfterSuccess (some "n2")) [sampleSucceeded] = none) ∧
    (dispatchQueuedGated (sampleAfterSuccess none) (viewOf [sampleExpired]) 5000 fun _ => true).1.kind
        = .skip ∧
      explainedKind (dependencyState (sampleAfterSuccess none) [sampleExpired]) = .wait := by
  decide +kernel

end Dt.Dispatch
