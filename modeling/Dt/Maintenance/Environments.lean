import Mathlib.Data.List.Induction
import Mathlib.Tactic.Tauto
import Dt.Jobs.Status

/-!
# Environments in use

Cleanup removes the environments of a node that no live job references. A queued job is not on a node
yet: its environments are kept on its pin, or on every node of the configuration.

A lost row is not live by its status. Until the loss is final a probe may turn it back to running, with
environments that nothing has kept.
-/

namespace Dt.Maintenance

open Dt.Lib Dt.Jobs

/-- The sets of identities of the nodes: a pair for each member. -/
abbrev Used := List (String × String)

/-- The nodes for which `protect` keeps an identity. -/
def targets (nodes : List String) (placed : Option String) : List String :=
  if truthy placed && placed ≠ some "-" then placed.toList else nodes

/-- `protect` -/
def protect (nodes : List String) (placed identity : Option String) (used : Used) : Used :=
  if !truthy identity then used
  else used ++ (targets nodes placed).map fun name => (name, identity.getD "")

/-- `envs_in_use` -/
def envsInUse (nodes : List String) (rows : List JobEntry) : Used :=
  rows.foldl (fun used e =>
    if !(e.status = .queued || e.status = .running) then used
    else
      let placed := if e.node ≠ "-" then some e.node else e.pinNode
      protect nodes placed e.cacheSourceEnvHash (protect nodes placed e.envHash used)) []

/-! ## What should be kept -/

/-- A configuration and the rows of its registry. A queued row has no node and is claimed on its pin if
it has one; a row that was started has a node. -/
structure Registry where
  nodes : List String
  rows : List JobEntry
  queued_node : ∀ e ∈ rows, e.status = .queued → e.node = "-"
  claim_pin : ∀ e ∈ rows, ∀ d p, e.dispatchNode = some d → e.pinNode = some p → d = p
  started_node : ∀ e ∈ rows, e.status = .running ∨ e.status = .lost → e.node ≠ "-" ∧ e.node ≠ ""

/-- An environment that a row references, its own or the one it forks the cache of. -/
def References (e : JobEntry) (identity : String) : Prop :=
  (e.envHash = some identity ∨ e.cacheSourceEnvHash = some identity) ∧ identity ≠ ""

/-- A probe from now on may turn a lost row back to running. -/
def Rescuable (now : Time) (e : JobEntry) : Prop :=
  e.status = .lost ∧ ∃ p stateDir t e', now ≤ t ∧ applyStatusProbe e p stateDir t = some e' ∧
    e'.status = .running

/-- The row can start or resume execution on the node. -/
inductive MayRun (nodes : List String) (now : Time) (e : JobEntry) (n : String) : Prop where
  | queued (h : e.status = .queued) (hn : n ∈ nodes) (hpin : ∀ p, e.pinNode = some p → n = p)
      (hexclude : ∀ names, e.excludeNodes = some names → n ∉ names) : MayRun nodes now e n
  | claimed (h : e.status = .queued) (hn : n ∈ nodes) (hclaim : e.dispatchNode = some n) :
      MayRun nodes now e n
  | running (h : e.status = .running) (hn : n = e.node) : MayRun nodes now e n
  | lost (h : Rescuable now e) (hn : n = e.node) : MayRun nodes now e n

/-- Every environment under a job that may run is in use on its node. -/
def Retains (r : Registry) (now : Time) : Prop :=
  ∀ e ∈ r.rows, ∀ n identity, MayRun r.nodes now e n → References e identity →
    (n, identity) ∈ envsInUse r.nodes r.rows

/-- A running row on the node, or a queued one that is pinned to it or to none, references the
environment. -/
def KeptBy (nodes : List String) (l : JobEntry) (n identity : String) : Prop :=
  References l identity ∧ (l.status = .running ∧ n = l.node ∨
    l.status = .queued ∧ n ∈ targets nodes l.pinNode)

/-! ## What is kept -/

section

variable {nodes : List String} {n identity : String}

theorem mem_protect {placed own : Option String} {used : Used} :
    (n, identity) ∈ protect nodes placed own used ↔
      (n, identity) ∈ used ∨ n ∈ targets nodes placed ∧ own = some identity ∧ identity ≠ "" := by
  unfold protect
  cases own with
  | none => simp [truthy]
  | some own =>
    by_cases hown : own = ""
    · simp only [hown, truthy, Option.any_some, ne_eq, not_true_eq_false, decide_false, Bool.not_false,
        if_true, Option.some.injEq]
      exact ⟨.inl, fun h => h.elim id fun hr => absurd hr.2.1.symm hr.2.2⟩
    · simp only [truthy, Option.any_some, ne_eq, hown, not_false_eq_true, decide_true, Bool.not_true,
        if_false, List.mem_append, List.mem_map, Prod.mk.injEq, Option.getD_some, Option.some.injEq,
        Bool.false_eq_true]
      refine or_congr_right ⟨?_, ?_⟩
      · rintro ⟨name, hname, rfl, rfl⟩
        exact ⟨hname, rfl, hown⟩
      · rintro ⟨hn, rfl, -⟩
        exact ⟨n, hn, rfl, rfl⟩

/-- The pairs of one row. -/
def KeptOn (nodes : List String) (e : JobEntry) (n identity : String) : Prop :=
  (e.status = .queued ∨ e.status = .running) ∧ References e identity ∧
    n ∈ targets nodes (if e.node ≠ "-" then some e.node else e.pinNode)

theorem mem_envsInUse (rows : List JobEntry) :
    (n, identity) ∈ envsInUse nodes rows ↔ ∃ e ∈ rows, KeptOn nodes e n identity := by
  unfold envsInUse
  induction rows using List.reverseRecOn with
  | nil => simp
  | append_singleton rows e ih =>
    rw [List.foldl_append, List.foldl_cons, List.foldl_nil]
    simp only [List.mem_append, List.mem_singleton, or_and_right, exists_or, exists_eq_left]
    rw [← ih]
    by_cases hlive : e.status = .queued ∨ e.status = .running
    · rw [if_neg (by simpa [or_iff_not_imp_left] using hlive)]
      rw [mem_protect, mem_protect, or_assoc]
      refine or_congr_right ?_
      unfold KeptOn References
      tauto
    · rw [if_pos (by simpa using hlive)]
      exact ⟨.inl, fun h => h.elim id fun hk => absurd hk.1 hlive⟩

end

/-! ## Probes -/

/-- Live evidence under the boot identity of the row. -/
def liveProbe (e : JobEntry) : StatusProbe := ⟨"RUNNING", e.bootId, none, none, ""⟩

/-- Any probe with live evidence turns a lost row back that is not final, at any time. -/
theorem rescuable_iff (now : Time) (e : JobEntry) :
    Rescuable now e ↔ e.status = .lost ∧ e.terminalFinalizedAt = none := by
  constructor
  · rintro ⟨hlost, p, stateDir, t, e', -, hprobe, -⟩
    refine ⟨hlost, ?_⟩
    by_contra hfinal
    have hsome : e.terminalFinalizedAt.isSome = true := Option.isSome_iff_ne_none.mpr hfinal
    rw [applyStatusProbe, if_pos (by simp [hlost, hsome])] at hprobe
    cases hprobe
  · rintro ⟨hlost, hopen⟩
    have hsettled : dependencySettled e = false := by
      simp [dependencySettled, isUncertainLaunch, hlost, hopen, JobStatus.terminal]
    have hboot : rebooted e (liveProbe e) = false := by
      simp [rebooted, liveProbe]
    have htoken : (liveProbe e).token = "RUNNING" := rfl
    have hchanged : runningFromProbe e none ≠ e := fun heq => by
      have hstatus : JobStatus.running = e.status := congrArg JobEntry.status heq
      rw [hlost] at hstatus
      cases hstatus
    refine ⟨hlost, liveProbe e, "", now, runningFromProbe e none, le_rfl, ?_, rfl⟩
    rw [applyStatusProbe, if_neg (by simp [hopen]), if_neg (by simp [liveProbe]), hboot,
      if_neg Bool.false_ne_true, if_pos htoken, hsettled,
      if_neg (by simp)]
    exact if_neg hchanged

/-! ## Retention -/

section

variable {r : Registry} {e : JobEntry} {n identity : String}

/-- What is kept for a row of a registry. -/
theorem keptOn_iff (he : e ∈ r.rows) :
    KeptOn r.nodes e n identity ↔ KeptBy r.nodes e n identity := by
  unfold KeptOn KeptBy
  constructor
  · rintro ⟨hqueued | hrunning, href, htarget⟩
    · rw [if_neg (not_not.mpr (r.queued_node e he hqueued))] at htarget
      exact ⟨href, .inr ⟨hqueued, htarget⟩⟩
    · obtain ⟨hdash, hempty⟩ := r.started_node e he (.inl hrunning)
      rw [if_pos hdash, targets, if_pos (by simpa [truthy] using ⟨hempty, hdash⟩)] at htarget
      exact ⟨href, .inl ⟨hrunning, by simpa using htarget⟩⟩
  · rintro ⟨href, ⟨hrunning, rfl⟩ | ⟨hqueued, htarget⟩⟩
    · obtain ⟨hdash, hempty⟩ := r.started_node e he (.inl hrunning)
      refine ⟨.inr hrunning, href, ?_⟩
      rw [if_pos hdash, targets, if_pos (by simpa [truthy] using ⟨hempty, hdash⟩)]
      simp
    · refine ⟨.inl hqueued, href, ?_⟩
      rwa [if_neg (not_not.mpr (r.queued_node e he hqueued))]

theorem mem_targets_of_pin {nodes : List String} {pin : Option String} (hn : n ∈ nodes)
    (hpin : ∀ p, pin = some p → n = p) : n ∈ targets nodes pin := by
  unfold targets
  split
  · rename_i htruthy
    cases pin with
    | none => simp [truthy] at htruthy
    | some p => simp [hpin p rfl]
  · exact hn

/-- A row that is live by its status is kept where it may run. -/
theorem keptBy_of_mayRun {now : Time} (he : e ∈ r.rows) (hrun : MayRun r.nodes now e n)
    (href : References e identity) (hlost : e.status ≠ .lost) : KeptBy r.nodes e n identity := by
  refine ⟨href, ?_⟩
  cases hrun with
  | queued h hn hpin hexclude => exact .inr ⟨h, mem_targets_of_pin hn hpin⟩
  | claimed h hn hclaim =>
    exact .inr ⟨h, mem_targets_of_pin hn fun p hp => r.claim_pin e he n p hclaim hp⟩
  | running h hn => exact .inl ⟨h, hn⟩
  | lost h hn => exact absurd h.1 hlost

end

/-- **Retention**: every environment under a job that may run is in use exactly when each environment of a
lost row that is not final is kept on its node by a queued or running row. -/
theorem retains_iff (r : Registry) (now : Time) : Retains r now ↔
    ∀ e ∈ r.rows, e.status = .lost → e.terminalFinalizedAt = none → ∀ identity,
      References e identity → ∃ l ∈ r.rows, KeptBy r.nodes l e.node identity := by
  have hused : ∀ n identity, (n, identity) ∈ envsInUse r.nodes r.rows ↔
      ∃ l ∈ r.rows, KeptBy r.nodes l n identity := by
    rintro n identity
    rw [mem_envsInUse]
    exact exists_congr fun l => and_congr_right fun hl => keptOn_iff hl
  constructor
  · rintro hretains e he hlost hopen identity href
    exact (hused e.node identity).mp
      (hretains e he e.node identity (.lost ((rescuable_iff now e).mpr ⟨hlost, hopen⟩) rfl) href)
  · rintro hkept e he n identity hrun href
    rw [hused]
    by_cases hlost : e.status = .lost
    · cases hrun with
      | queued h => exact absurd (h.symm.trans hlost) (by decide)
      | claimed h => exact absurd (h.symm.trans hlost) (by decide)
      | running h => exact absurd (h.symm.trans hlost) (by decide)
      | lost h hn =>
        rw [hn]
        exact hkept e he hlost ((rescuable_iff now e).mp h).2 identity href
    · exact ⟨e, he, keptBy_of_mayRun he hrun href hlost⟩

/-- A row that was found lost on the only node. -/
def lostRow : JobEntry :=
  { JobEntry.sample "j1" with
    node := "n1", status := .lost, envHash := some "a1b2c3d4e5f6" }

def lostRegistry : Registry where
  nodes := ["n1"]
  rows := [lostRow]
  queued_node := by decide
  claim_pin := fun e he d p hd => by
    obtain rfl := List.mem_singleton.mp he
    cases hd
  started_node := by decide

/-- The environment of a lost row that may still turn out to run is not in use. -/
theorem lost_environment_unused : ¬Retains lostRegistry 2000 := by
  rintro hretains
  have hrescue : Rescuable 2000 lostRow := (rescuable_iff 2000 lostRow).mpr ⟨rfl, rfl⟩
  have hmem := hretains lostRow List.mem_cons_self "n1" "a1b2c3d4e5f6" (.lost hrescue rfl)
    ⟨.inl rfl, by decide⟩
  exact absurd hmem (by decide)

end Dt.Maintenance
