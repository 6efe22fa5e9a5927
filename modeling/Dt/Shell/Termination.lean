import Dt.Shell.Scope

/-!
# Death certificates

Two programs decide on a node whether anything of a job is still alive. `liveState` is the
signal-free `dt_job_live_state`. `terminationProbe` looks at the leader, takes a census, signals
what it found, and takes up to six more; the node may look different at each of them.

Both combine the leader, its process group, the recorded scope and the working directories. The
results say on which nodes a `DEAD` is true, and that the two do not contradict each other there.
-/

namespace Dt.Shell

open Dt.Lib

/-- What the head asks about: the recorded identity of a job. -/
structure Job where
  /-- the capsule, as an absolute path of the node -/
  capsule : String
  pgid : Option Int
  /-- empty where none was recorded -/
  boot : String := ""
  /-- the unit its session must run in; empty without a session -/
  scope : String := ""
  ignoreExitMarker : Bool := false
  /-- the cancellation sentinel is written, if one is asked for -/
  sentinelWritten : Bool := true

/-- `DT_KPG`; a group that is not positive is none. -/
def Job.pg (j : Job) : Nat := (j.pgid.getD 0).toNat

/-! ## Censuses -/

/-- `OK` or `DEGRADED`, and the PIDs that prove the job alive. -/
structure Census where
  degraded : Bool
  pids : List Pid
  deriving DecidableEq, Repr

def Census.empty : Census := ⟨false, []⟩

def Node.inGroup (n : Node) (pg : Nat) : List Pid := n.select (·.pgrp = pg)

def Proc.inCapsule (dir : String) (p : Proc) : Bool := p.cwd.any (insideDir dir)

/-- `pgrep -g`, without the zombies. -/
def Node.groupCensus (n : Node) (pg : Nat) : Census :=
  ⟨n.pgrep.degraded, n.living (n.pgrep.print (n.inGroup pg))⟩

/-- `find` over the working directories, or the walk with `readlink` where there is no `find`. -/
def Node.cwdCensus (n : Node) (dir : String) : Census :=
  match n.find with
  | .missing => ⟨false, n.select (Proc.inCapsule dir)⟩
  | o => ⟨o.degraded, o.print (n.select (Proc.inCapsule dir))⟩

/-- The verdicts of `dt_job_live_state`. -/
inductive Liveness where
  | live | dead | unproven
  deriving DecidableEq, Repr

/-- The end of `dt_job_live_state`: any survivor, then any failure. -/
def liveVerdict (group cwd : Census) : Liveness :=
  if !group.pids.isEmpty then .live
  else if !cwd.pids.isEmpty then .live
  else if group.degraded || cwd.degraded then .unproven
  else .dead

/-- The group is looked at: its leader was reaped, or is a zombie of it. -/
def Node.groupAnchored (n : Node) (pg : Nat) : Bool :=
  0 < pg && (!n.hasPid pg || n.pidZombie pg && n.pidGroup pg = some pg)

/-- The rest of `dt_job_live_state` once the leader is gone. -/
def liveCensus (j : Job) (n : Node) : Liveness :=
  liveVerdict (if n.groupAnchored j.pg then n.groupCensus j.pg else .empty)
    (n.cwdCensus j.capsule)

/-- `dt_job_live_state` after the comparison of the boots. -/
def liveEvidence (j : Job) (n : Node) : Liveness :=
  if n.gpuContainmentUnproven ≠ .contained then .unproven
  else
    let leader := if n.processOwned j.pg j.capsule "" = .gone then liveCensus j n else .live
    match n.scopeMarker "" with
    | .malformed => .unproven
    | .absent => leader
    | .value unit =>
      match n.scopeCensus unit with
      | .degraded => .unproven
      | .ok (_ :: _) => .live
      | .ok [] | .absent => leader

/-- `dt_job_live_state` -/
def liveState (j : Job) (n : Node) : Liveness :=
  if j.boot = "" then liveEvidence j n
  else match n.boot with
  | none => .unproven
  | some boot => if boot = j.boot then liveEvidence j n else .dead

/-! ## The termination probe -/

/-- Whether the group may be treated as the job's own. -/
def Node.groupOpen (n : Node) (pg : Nat) : Bool :=
  if pg = 0 then false
  else if !n.hasPid pg then
    match n.pgrep with
    | .done => !(n.inGroup pg).isEmpty
    | .missing | .failed .. => false
  else if !n.pidZombie pg then false
  else if n.pidGroup pg ≠ some pg then false
  else match n.identity with
  | .absent | .special => true
  | .file none => false
  | .file (some text) =>
    isDecimal (catText text) &&
      (n.pidTicks pg).any fun ticks => (toString ticks).toList = catText text

/-- `expected_scope` -/
def Node.expectedScope (n : Node) (scope : String) : Census :=
  match n.scopeMarker scope with
  | .absent => .empty
  | .malformed => ⟨true, []⟩
  | .value unit =>
    match n.scopeCensus unit with
    | .degraded => ⟨true, []⟩
    | .absent => .empty
    | .ok pids => ⟨false, pids⟩

def Node.groupRun (n : Node) (pg : Nat) (leader : Owner) : Bool :=
  leader = .owned || leader = .gone && n.groupOpen pg

/-- What the census counts, given the leader as it was when the probe began. -/
def survivors (j : Job) (n : Node) (leader : Owner) : Census :=
  let scope := n.expectedScope j.scope
  let group := if n.groupRun j.pg leader then n.groupCensus j.pg else .empty
  let cwd := n.cwdCensus j.capsule
  ⟨scope.degraded || group.degraded || cwd.degraded, scope.pids ++ group.pids ++ cwd.pids⟩

inductive Answer where
  | dead | alive | exited (code : List Char) | unproven
  /-- the sentinel could not be written -/
  | refused
  deriving DecidableEq, Repr

/-- A valid completion marker. -/
def Node.exitMarker (n : Node) : Option (List Char) :=
  (n.exitCode.bounded 1 4).bind fun v => if isDecimal v && v.length ≤ 3 then some v else none

/-- The censuses after the signals, and the node the last of them saw. -/
def watch (j : Job) (leader : Owner) (contained : Bool) : Node → List Node → Answer × Node
  | last, [] => (.alive, last)
  | _, n :: ns =>
    let out := survivors j n leader
    if out.degraded then (.unproven, n)
    else if out.pids.isEmpty then (if contained then .dead else .unproven, n)
    else watch j leader contained n ns

/-- The probe from its first look at the leader on. -/
def probeLeader (j : Job) (n : Node) (later : Fin 6 → Node) : Answer × Node :=
  let contained := n.gpuContainmentUnproven = .contained
  let leader := n.processOwned j.pg j.capsule j.boot
  let pre := survivors j n leader
  if pre = .empty && leader = .unproven then (.unproven, n)
  else match (if !j.ignoreExitMarker && contained && pre = .empty then n.exitMarker else none) with
  | some code => (.exited code, n)
  | none =>
    if pre.degraded then (.unproven, n)
    else watch j leader contained n (List.ofFn later)

/-- The termination probe, and the node its answer was decided on. `n` is the node it starts on,
`later` what it sees after each pause. -/
def terminationProbe (j : Job) (n : Node) (later : Fin 6 → Node) : Answer × Node :=
  if !j.sentinelWritten then (.refused, n)
  else if j.boot = "" then probeLeader j n later
  else match n.boot with
  | none => (.unproven, n)
  | some boot => if boot = j.boot then probeLeader j n later else (.dead, n)

/-- The node proves that it was rebooted. -/
def bootChanged (j : Job) (n : Node) : Bool := j.boot ≠ "" && n.boot.any (· ≠ j.boot)

/-! ## What the verdicts are about -/

/-- No live process satisfies `f`. -/
def Node.Free (n : Node) (f : Proc → Bool) : Prop :=
  ∀ pid p, n.procs.lookup pid = some p → p.zombie = false → f p = false

/-- Nothing of the job is alive. -/
structure Clear (j : Job) (n : Node) : Prop where
  group : 0 < j.pg → n.Free (·.pgrp = j.pg)
  scope : ∀ unit, n.scopeMarker "" = .value unit → n.Free (n.inUnit unit)
  capsule : n.Free (Proc.inCapsule j.capsule)

/-- `find` may exit with 1 and still count as complete; then it has printed every live process of
the capsule. -/
def Node.FindComplete (n : Node) (dir : String) : Prop :=
  ∀ h printed, n.find = .failed 1 h printed → ∀ pid p, n.procs.lookup pid = some p →
    p.zombie = false → p.inCapsule dir = true → printed pid = true

/-- The identity file does not speak against the process with these ticks. -/
def Node.identityAgrees (n : Node) (ticks : Nat) : Bool :=
  match n.identity with
  | .absent | .special => true
  | .file none => false
  | .file (some text) => isDecimal (catText text) && (toString ticks).toList = catText text

/-- With the leader gone: its PID is free and `pgrep` works, or a zombie of the recorded group
holds it, with the recorded identity. -/
def Node.GroupInView (n : Node) (pg : Nat) : Prop :=
  match n.procs.lookup pg with
  | none => n.pgrep.degraded = false
  | some p => p.zombie = true ∧ p.pgrp = pg ∧ n.identityAgrees p.ticks = true

/-- No live process holds the PID of the leader. -/
def Node.LeaderGone (n : Node) (pg : Nat) : Prop :=
  ∀ p, n.procs.lookup pg = some p → p.zombie = true

/-- The probe sees the whole job in its census of `n`; `start` is the node it began on. -/
structure ProbeSees (j : Job) (start n : Node) : Prop where
  group : 0 < j.pg →
    start.processOwned j.pg j.capsule j.boot = .owned ∨
      (start.processOwned j.pg j.capsule j.boot = .gone ∧ n.GroupInView j.pg) ∨
      n.Free (·.pgrp = j.pg)
  leader : 0 < j.pg → n.LeaderGone j.pg ∨
    n.gpuContainmentUnproven ≠ .contained ∨ (j.boot ≠ "" ∧ n.boot ≠ some j.boot)
  find : n.FindComplete j.capsule

/-- The signal-free census sees the whole job. -/
structure LiveSees (j : Job) (n : Node) : Prop where
  group : 0 < j.pg →
    (∀ p, n.procs.lookup j.pg = some p → p.pgrp = j.pg) ∨ n.Free (·.pgrp = j.pg)
  find : n.FindComplete j.capsule

/-! ## Censuses are complete -/

section

variable {j : Job} {n start : Node} {leader : Owner}

theorem free_iff {f : Proc → Bool} : n.Free f ↔ n.living (n.select f) = [] := by
  rw [List.eq_nil_iff_forall_not_mem]
  constructor
  · intro h pid hpid
    obtain ⟨hsel, p, hp, hz⟩ := mem_living.mp hpid
    obtain ⟨q, hq, hf⟩ := mem_select.mp hsel
    rw [hp] at hq
    cases hq
    rw [h pid p hp hz] at hf
    cases hf
  · intro h pid p hp hz
    by_contra hf
    exact h pid (mem_living.mpr ⟨mem_select.mpr ⟨p, hp, by simpa using hf⟩, p, hp, hz⟩)

/-- `pgrep` without an error and without a survivor. -/
theorem free_of_groupCensus {pg : Nat} (h : n.groupCensus pg = .empty) :
    n.Free (·.pgrp = pg) := by
  simp only [Node.groupCensus, Census.empty, Census.mk.injEq] at h
  rw [Outcome.print_of_not_degraded h.1] at h
  exact free_iff.mpr h.2

/-- Where nothing of the group is alive, `pgrep` finds nothing, however it ends. -/
theorem groupCensus_pids_of_free {pg : Nat} (h : n.Free (·.pgrp = pg)) :
    (n.groupCensus pg).pids = [] := by
  rw [List.eq_nil_iff_forall_not_mem]
  intro pid hpid
  obtain ⟨hprint, p, hp, hz⟩ := mem_living.mp hpid
  refine List.not_mem_nil (free_iff.mp h ▸ mem_living.mpr ⟨?_, p, hp, hz⟩)
  exact Outcome.mem_of_mem_print hprint

theorem free_of_cwdCensus {dir : String} (hfind : n.FindComplete dir)
    (h : n.cwdCensus dir = .empty) : n.Free (Proc.inCapsule dir) := by
  intro pid p hp hz
  by_contra hin
  have hmem : pid ∈ n.select (Proc.inCapsule dir) := mem_select.mpr ⟨p, hp, by simpa using hin⟩
  cases hn : n.find with
  | missing =>
    simp only [Node.cwdCensus, hn, Census.empty, Census.mk.injEq, true_and] at h
    simp [h] at hmem
  | done =>
    simp only [Node.cwdCensus, hn, Census.empty, Census.mk.injEq, Outcome.print] at h
    simp [h.2] at hmem
  | failed status hs printed =>
    simp only [Node.cwdCensus, hn, Census.empty, Census.mk.injEq, Outcome.degraded,
      decide_eq_false_iff_not] at h
    have hone : status = 1 := by omega
    subst hone
    have hprinted : pid ∈ Outcome.print (n.select (Proc.inCapsule dir)) (.failed 1 hs printed) :=
      List.mem_filter.mpr ⟨hmem, hfind hs printed hn pid p hp hz (by simpa using hin)⟩
    simp [h.2] at hprinted

theorem free_of_scopeCensus {unit : String}
    (h : n.scopeCensus unit = .absent ∨ n.scopeCensus unit = .ok []) : n.Free (n.inUnit unit) := by
  rcases h with h | h
  · exact fun _ _ _ _ => scopeCensus_absent h
  · exact free_iff.mpr (scopeCensus_ok h).symm

/-- A marker that is the expected one reads the same without the expectation. -/
theorem scopeMarker_any (h : n.scopeMarker j.scope ≠ .malformed) :
    n.scopeMarker "" = n.scopeMarker j.scope := by
  unfold Node.scopeMarker at h ⊢
  split
  · rfl
  · split
    · rfl
    · split
      · rfl
      · rename_i hunit
        simp_all

/-! ## Inversion of the programs -/

theorem census_ext {c : Census} (hd : c.degraded = false) (hp : c.pids = []) : c = .empty := by
  cases c
  simp_all [Census.empty]

/-- What a census without survivors has seen. -/
structure NoSurvivors (j : Job) (n : Node) (leader : Owner) : Prop where
  marker : n.scopeMarker j.scope ≠ .malformed
  scope : ∀ unit, n.scopeMarker j.scope = .value unit →
    n.scopeCensus unit = .absent ∨ n.scopeCensus unit = .ok []
  group : n.groupRun j.pg leader = true → n.groupCensus j.pg = .empty
  cwd : n.cwdCensus j.capsule = .empty

theorem survivors_empty (hd : (survivors j n leader).degraded = false)
    (hp : (survivors j n leader).pids = []) : NoSurvivors j n leader := by
  simp only [survivors, Bool.or_eq_false_iff, List.append_eq_nil_iff] at hd hp
  obtain ⟨⟨hsd, hgd⟩, hcd⟩ := hd
  obtain ⟨⟨hsp, hgp⟩, hcp⟩ := hp
  have hscope := census_ext hsd hsp
  refine ⟨fun hm => ?_, fun unit hu => ?_, fun hrun => ?_, census_ext hcd hcp⟩
  · simp [Node.expectedScope, hm, Census.empty] at hscope
  · simp only [Node.expectedScope, hu] at hscope
    cases hc : n.scopeCensus unit with
    | degraded => simp [hc, Census.empty] at hscope
    | absent => exact .inl rfl
    | ok pids =>
      simp only [hc, Census.empty, Census.mk.injEq, true_and] at hscope
      exact .inr (by rw [hscope])
  · simp only [hrun, if_true] at hgd hgp
    exact census_ext hgd hgp

theorem watch_dead {contained : Bool} {ns : List Node} {last : Node}
    (h : watch j leader contained last ns = (.dead, n)) : NoSurvivors j n leader := by
  induction ns generalizing last with
  | nil => simp [watch] at h
  | cons m ns ih =>
    simp only [watch] at h
    split at h
    · cases h
    · rename_i hd
      split at h
      · rename_i hp
        have hm : m = n := congrArg Prod.snd h
        subst hm
        exact survivors_empty (by simpa using hd) (by simpa using hp)
      · exact ih h

/-- The answer `ALIVE` comes from a survivor in the last census. -/
theorem watch_alive {contained : Bool} {ns : List Node} {last : Node} (hne : ns ≠ [])
    (h : watch j leader contained last ns = (.alive, n)) : (survivors j n leader).pids ≠ [] := by
  induction ns generalizing last with
  | nil => exact absurd rfl hne
  | cons m ns ih =>
    simp only [watch] at h
    split at h
    · cases h
    · split at h
      · split at h <;> cases h
      · rename_i hp
        cases ns with
        | nil =>
          simp only [watch, Prod.mk.injEq, true_and] at h
          subst h
          simpa using hp
        | cons m' ns => exact ih (by simp) h

/-- Without a boot change the answers `DEAD` and `ALIVE` come from the censuses after the
signals. -/
theorem terminationProbe_watch {later : Fin 6 → Node} {a : Answer}
    (ha : a = .dead ∧ bootChanged j start = false ∨ a = .alive)
    (h : terminationProbe j start later = (a, n)) :
    ∃ contained, watch j (start.processOwned j.pg j.capsule j.boot) contained start
      (List.ofFn later) = (a, n) := by
  have hleader : probeLeader j start later = (a, n) := by
    unfold terminationProbe at h
    split at h
    · rcases ha with ⟨rfl, -⟩ | rfl <;> simp at h
    · split at h
      · exact h
      · split at h
        · rcases ha with ⟨rfl, -⟩ | rfl <;> simp at h
        · split at h
          · exact h
          · rcases ha with ⟨rfl, hboot⟩ | rfl
            · simp_all [bootChanged]
            · simp at h
  unfold probeLeader at hleader
  dsimp only at hleader
  split at hleader
  · rcases ha with ⟨rfl, -⟩ | rfl <;> simp at hleader
  · split at hleader
    · rcases ha with ⟨rfl, -⟩ | rfl <;> simp at hleader
    · split at hleader
      · rcases ha with ⟨rfl, -⟩ | rfl <;> simp at hleader
      · exact ⟨_, hleader⟩

/-- What `dt_job_live_state` has seen when it prints `DEAD`. -/
structure NothingLive (j : Job) (n : Node) : Prop where
  marker : n.scopeMarker "" ≠ .malformed
  scope : ∀ unit, n.scopeMarker "" = .value unit →
    n.scopeCensus unit = .absent ∨ n.scopeCensus unit = .ok []
  leader : n.processOwned j.pg j.capsule "" = .gone
  group : n.groupAnchored j.pg = true → n.groupCensus j.pg = .empty
  cwd : n.cwdCensus j.capsule = .empty

theorem liveVerdict_dead {group cwd : Census} (h : liveVerdict group cwd = .dead) :
    group = .empty ∧ cwd = .empty := by
  unfold liveVerdict at h
  split at h
  · cases h
  · rename_i hg
    split at h
    · cases h
    · rename_i hc
      split at h
      · cases h
      · rename_i hd
        simp only [Bool.or_eq_true, not_or, Bool.not_eq_true] at hd
        exact ⟨census_ext hd.1 (by simpa using hg), census_ext hd.2 (by simpa using hc)⟩

theorem liveEvidence_dead (h : liveEvidence j n = .dead) : NothingLive j n := by
  have hleader : (if n.processOwned j.pg j.capsule "" = .gone then liveCensus j n else .live) =
      .dead → n.processOwned j.pg j.capsule "" = .gone ∧
        (n.groupAnchored j.pg = true → n.groupCensus j.pg = .empty) ∧
        n.cwdCensus j.capsule = .empty := by
    intro hl
    split at hl
    · rename_i hgone
      obtain ⟨hg, hc⟩ := liveVerdict_dead hl
      exact ⟨hgone, fun ho => by simpa [ho] using hg, hc⟩
    · cases hl
  unfold liveEvidence at h
  split at h
  · cases h
  · dsimp only at h
    split at h
    · cases h
    · rename_i hm
      obtain ⟨hgone, hg, hc⟩ := hleader h
      exact ⟨by simp [hm], by simp [hm], hgone, hg, hc⟩
    · rename_i unit hm
      split at h
      · cases h
      · cases h
      · rename_i hs
        obtain ⟨hgone, hg, hc⟩ := hleader h
        refine ⟨by simp [hm], fun u hu => ?_, hgone, hg, hc⟩
        cases hm.symm.trans hu
        exact .inr hs
      · rename_i hs
        obtain ⟨hgone, hg, hc⟩ := hleader h
        refine ⟨by simp [hm], fun u hu => ?_, hgone, hg, hc⟩
        cases hm.symm.trans hu
        exact .inl hs

theorem liveState_dead (hboot : bootChanged j n = false) (h : liveState j n = .dead) :
    NothingLive j n := by
  unfold liveState at h
  split at h
  · exact liveEvidence_dead h
  · split at h
    · cases h
    · split at h
      · exact liveEvidence_dead h
      · simp_all [bootChanged]

/-- Where the scope has no live process, the rest of the evidence decides. -/
theorem liveEvidence_eq (hm : n.scopeMarker "" ≠ .malformed)
    (hs : ∀ unit, n.scopeMarker "" = .value unit →
      n.scopeCensus unit = .absent ∨ n.scopeCensus unit = .ok []) :
    liveEvidence j n = if n.gpuContainmentUnproven ≠ .contained then .unproven
      else if n.processOwned j.pg j.capsule "" = .gone then liveCensus j n else .live := by
  unfold liveEvidence
  split
  · rfl
  · cases hmarker : n.scopeMarker "" with
    | absent => rfl
    | malformed => exact absurd hmarker hm
    | value unit => rcases hs unit hmarker with h | h <;> simp [h]

theorem liveVerdict_ne_live {group : Census} (h : group.pids = []) :
    liveVerdict group .empty ≠ .live := by
  unfold liveVerdict
  rw [h]
  simp only [Census.empty, List.isEmpty_nil, Bool.not_true, Bool.false_eq_true, if_false]
  cases group.degraded <;> simp

/-- Without a survivor in the group and in the capsule the verdict is not `LIVE`. -/
theorem liveCensus_ne_live (hg : n.groupAnchored j.pg = true → (n.groupCensus j.pg).pids = [])
    (hc : n.cwdCensus j.capsule = .empty) : liveCensus j n ≠ .live := by
  rw [liveCensus, hc]
  refine liveVerdict_ne_live ?_
  split
  · exact hg (by assumption)
  · rfl

theorem leaderGone_iff (hpg : 0 < j.pg) :
    n.LeaderGone j.pg ↔ n.processOwned j.pg j.capsule "" = .gone := by
  rw [processOwned_eq_gone]
  cases hp : n.procs.lookup j.pg with
  | none => simp [Node.LeaderGone, Node.hasPid, hp]
  | some p =>
    simp [Node.LeaderGone, Node.hasPid, hp, pidZombie_eq hp, Nat.pos_iff_ne_zero.mp hpg]

/-! ## The group -/

/-- A group in view is opened, unless nothing is in it. -/
theorem groupOpen_or_free {pg : Nat} (hpg : 0 < pg) (h : n.GroupInView pg) :
    n.groupOpen pg = true ∨ n.Free (·.pgrp = pg) := by
  have hne : pg ≠ 0 := Nat.pos_iff_ne_zero.mp hpg
  unfold Node.GroupInView at h
  cases hp : n.procs.lookup pg with
  | none =>
    rw [hp] at h
    have hdone : n.pgrep = .done := by
      cases hn : n.pgrep with
      | missing => simp [hn, Outcome.degraded] at h
      | done => rfl
      | failed status hs printed =>
        simp only [hn, Outcome.degraded, decide_eq_false_iff_not] at h
        omega
    cases hempty : (n.inGroup pg).isEmpty with
    | true =>
      refine .inr (free_iff.mpr ?_)
      have hnil : n.select (fun p => decide (p.pgrp = pg)) = [] := by
        simpa [Node.inGroup] using hempty
      rw [hnil]
      rfl
    | false => exact .inl (by simp [Node.groupOpen, hne, Node.hasPid, hp, hdone, hempty])
  | some p =>
    rw [hp] at h
    obtain ⟨hz, hg, hid⟩ := h
    have hread : p.readable = true := by
      simp only [Proc.zombie, Bool.and_eq_true] at hz
      exact hz.1.1
    refine .inl ?_
    have hgroup : n.pidGroup pg = some pg := by simp [Node.pidGroup, hp, hread, hg]
    have hticks : n.pidTicks pg = some p.ticks := by simp [Node.pidTicks, hp, hread]
    simp only [Node.groupOpen, hne, if_false, Node.hasPid, hp, Option.isSome_some, Bool.not_true,
      Bool.false_eq_true, pidZombie_eq hp, hz, hgroup, ne_eq, not_true_eq_false, hticks,
      Option.any_some]
    exact hid

theorem groupAnchored_eq {p : Proc} (hpg : 0 < j.pg) (hp : n.procs.lookup j.pg = some p)
    (hz : p.zombie = true) : n.groupAnchored j.pg = decide (p.pgrp = j.pg) := by
  have hread : p.readable = true := by
    simp only [Proc.zombie, Bool.and_eq_true] at hz
    exact hz.1.1
  simp [Node.groupAnchored, hpg, Node.hasPid, hp, pidZombie_eq hp, hz, Node.pidGroup, hread]

/-! ## The certificates -/

theorem probe_clear (h : NoSurvivors j n leader) (hsees : ProbeSees j start n)
    (hl : leader = start.processOwned j.pg j.capsule j.boot) : Clear j n := by
  subst hl
  refine ⟨fun hpg => ?_, fun unit hu => ?_, free_of_cwdCensus hsees.find h.cwd⟩
  · rcases hsees.group hpg with ho | ⟨hgone, hview⟩ | hfree
    · exact free_of_groupCensus (h.group (by simp [Node.groupRun, ho]))
    · rcases groupOpen_or_free hpg hview with hopen | hfree
      · exact free_of_groupCensus (h.group (by simp [Node.groupRun, hgone, hopen]))
      · exact hfree
    · exact hfree
  · rw [scopeMarker_any h.marker] at hu
    exact free_of_scopeCensus (h.scope unit hu)

theorem probe_agrees (h : NoSurvivors j n leader) (hclear : Clear j n)
    (hgone : 0 < j.pg → n.LeaderGone j.pg ∨
      n.gpuContainmentUnproven ≠ .contained ∨ (j.boot ≠ "" ∧ n.boot ≠ some j.boot)) :
    liveState j n ≠ .live := by
  have hm := scopeMarker_any h.marker
  have hevidence := @liveEvidence_eq j n (hm ▸ h.marker) (hm ▸ h.scope)
  -- where the evidence is looked at, the leader is gone
  have hne : (j.boot = "" ∨ n.boot = some j.boot) → liveEvidence j n ≠ .live := by
    intro hboot
    rw [hevidence]
    split
    · simp
    · rename_i hc
      have hg : n.processOwned j.pg j.capsule "" = .gone := by
        rcases Nat.eq_zero_or_pos j.pg with hz | hpg
        · exact processOwned_eq_gone.mpr (.inl hz)
        · rcases hgone hpg with hg | hg | ⟨hb, hnb⟩
          · exact (leaderGone_iff hpg).mp hg
          · exact absurd hg hc
          · rcases hboot with hb' | hb'
            · exact absurd hb' hb
            · exact absurd hb' hnb
      rw [if_pos hg]
      refine liveCensus_ne_live (fun ha => ?_) h.cwd
      have hpg : 0 < j.pg := by
        simp only [Node.groupAnchored, Bool.and_eq_true, decide_eq_true_eq] at ha
        exact ha.1
      exact groupCensus_pids_of_free (hclear.group hpg)
  unfold liveState
  split
  · exact hne (.inl (by assumption))
  · split
    · simp
    · rename_i boot hboot
      split
      · rename_i heq
        exact hne (.inr (by rw [hboot, heq]))
      · simp

/-- A `DEAD` beside a live leader is contradicted by the other census. -/
theorem live_of_leader (h : NoSurvivors j n leader) (hpg : 0 < j.pg) (hn : ¬n.LeaderGone j.pg)
    (hc : n.gpuContainmentUnproven = .contained) (hboot : j.boot = "" ∨ n.boot = some j.boot) :
    liveState j n = .live := by
  have hm := scopeMarker_any h.marker
  have hevidence : liveEvidence j n = .live := by
    rw [liveEvidence_eq (hm ▸ h.marker) (hm ▸ h.scope)]
    simp [hc, mt (leaderGone_iff hpg).mpr hn]
  unfold liveState
  rcases hboot with hb | hb
  · simp [hb, hevidence]
  · simp [hb, hevidence]

theorem live_clear (h : NothingLive j n) (hsees : LiveSees j n) : Clear j n := by
  refine ⟨fun hpg => ?_, fun unit hu => free_of_scopeCensus (h.scope unit hu),
    free_of_cwdCensus hsees.find h.cwd⟩
  rcases hsees.group hpg with hslot | hfree
  · refine free_of_groupCensus (h.group ?_)
    cases hp : n.procs.lookup j.pg with
    | none => simp [Node.groupAnchored, hpg, Node.hasPid, hp]
    | some p =>
      have hz : p.zombie = true := (leaderGone_iff hpg).mpr h.leader p hp
      rw [groupAnchored_eq hpg hp hz]
      simpa using hslot p hp
  · exact hfree

/-- Where the signal-free census found nothing, the probe counts nothing either. -/
theorem survivors_nil (h : NothingLive j n) (hclear : Clear j n)
    (hrun : n.groupRun j.pg leader = true → 0 < j.pg) : (survivors j n leader).pids = [] := by
  have hscope : (n.expectedScope j.scope).pids = [] := by
    unfold Node.expectedScope
    cases hm : n.scopeMarker j.scope with
    | absent => rfl
    | malformed => rfl
    | value unit =>
      have hany : n.scopeMarker "" = .value unit := by
        rw [scopeMarker_any (j := j) (by simp [hm]), hm]
      rcases h.scope unit hany with hs | hs <;> simp [hs, Census.empty]
  have hgroup : (if n.groupRun j.pg leader then n.groupCensus j.pg else Census.empty).pids = [] := by
    split
    · rename_i hr
      exact groupCensus_pids_of_free (hclear.group (hrun hr))
    · rfl
  simp only [survivors, hscope, hgroup, h.cwd]
  rfl

theorem groupRun_pos (h : n.groupRun j.pg (start.processOwned j.pg j.capsule j.boot) = true) :
    0 < j.pg := by
  rcases Nat.eq_zero_or_pos j.pg with hz | hpg
  · have hgone : start.processOwned j.pg j.capsule j.boot = .gone :=
      processOwned_eq_gone.mpr (.inl hz)
    rw [Node.groupRun, hgone, hz] at h
    simp [Node.groupOpen] at h
  · exact hpg

/-- A `DEAD` of either census, without a boot change, is true and not contradicted by the other
one on the same node if and only if that census sees the whole job there. -/
theorem death_certificate_iff (j : Job) (start : Node) (later : Fin 6 → Node) (n : Node) :
    (terminationProbe j start later = (.dead, n) → bootChanged j start = false →
      (Clear j n ∧ liveState j n ≠ .live ↔ ProbeSees j start n)) ∧
    (liveState j n = .dead → bootChanged j n = false →
      (Clear j n ∧ terminationProbe j start later ≠ (.alive, n) ↔ LiveSees j n)) := by
  constructor
  · intro hdead hboot
    obtain ⟨contained, hwatch⟩ := terminationProbe_watch (.inl ⟨rfl, hboot⟩) hdead
    have hnone := watch_dead hwatch
    constructor
    · rintro ⟨hclear, hlive⟩
      refine ⟨fun hpg => .inr (.inr (hclear.group hpg)), fun hpg => ?_,
        fun _ _ _ pid p hp hz hin => ?_⟩
      · by_contra hnot
        simp only [not_or, not_and, not_not, ne_eq] at hnot
        obtain ⟨hleader, hc, hb⟩ := hnot
        refine hlive (live_of_leader hnone hpg hleader hc ?_)
        by_cases hempty : j.boot = ""
        · exact .inl hempty
        · exact .inr (hb hempty)
      · rw [hclear.capsule pid p hp hz] at hin
        cases hin
    · intro hsees
      have hclear := probe_clear hnone hsees rfl
      exact ⟨hclear, probe_agrees hnone hclear hsees.leader⟩
  · intro hdead hboot
    have hnothing := liveState_dead hboot hdead
    constructor
    · rintro ⟨hclear, -⟩
      refine ⟨fun hpg => .inr (hclear.group hpg), fun _ _ _ pid p hp hz hin => ?_⟩
      rw [hclear.capsule pid p hp hz] at hin
      cases hin
    · intro hsees
      have hclear := live_clear hnothing hsees
      refine ⟨hclear, fun halive => ?_⟩
      obtain ⟨contained, hwatch⟩ := terminationProbe_watch (.inr rfl) halive
      exact watch_alive (by simp) hwatch (survivors_nil hnothing hclear groupRun_pos)

end

/-- A capsule with a recorded group whose leader was reaped; one member lives on outside it. -/
def Node.sample (pgrep : Outcome 2) : Node where
  procs := [⟨101, { pgrp := 100, cwd := some "/tmp" }⟩].toAList
  pgrep := pgrep

def Job.sample : Job where
  capsule := "/home/u/dt/jobs/job-1"
  pgid := some 100

/-- The orphan is counted, killed by the signal, and gone at the second look. -/
theorem death_certificate_sample :
    let quiet : Node := { Node.sample .done with procs := ∅ }
    let later : Fin 6 → Node := fun i => if i = 0 then .sample .done else quiet
    let n := (terminationProbe .sample (.sample .done) later).2
    (Clear .sample n ∧ liveState .sample n ≠ .live) ∧
      (Clear .sample n ∧ terminationProbe .sample (.sample .done) later ≠ (.alive, n)) := by
  intro quiet later n
  have hnil : n.procs.entries = [] := by decide +kernel
  have hlookup : ∀ pid, n.procs.lookup pid = none := fun pid => by
    simp [AList.lookup, hnil]
  have hfind : n.FindComplete Job.sample.capsule := fun _ _ _ pid p hp => by
    simp [hlookup] at hp
  obtain ⟨hprobe, hlive⟩ := death_certificate_iff .sample (.sample .done) later n
  refine ⟨(hprobe (Prod.ext (by decide +kernel) rfl) rfl).mpr ⟨fun _ => ?_, fun _ => ?_, hfind⟩,
    (hlive (by decide +kernel) rfl).mpr ⟨fun _ => .inl fun p hp => ?_, hfind⟩⟩
  · refine .inr (.inl ⟨by decide +kernel, ?_⟩)
    rw [Node.GroupInView, hlookup]
    decide +kernel
  · exact .inl fun p hp => by simp [hlookup] at hp
  · simp [hlookup] at hp

/-- With `pgrep` missing the probe certifies the death of a group with a live member, where the
other census is not sure. -/
theorem orphan_certified_dead :
    let n : Node := .sample .missing
    (terminationProbe .sample n fun _ => n).1 = .dead ∧ bootChanged .sample n = false ∧
      ¬Clear .sample n ∧ liveState .sample n = .unproven := by
  refine ⟨by decide +kernel, rfl, fun h => ?_, by decide +kernel⟩
  have := h.group (by decide) 101 { pgrp := 100, cwd := some "/tmp" } (by decide +kernel)
    (by decide)
  simp [Job.sample, Job.pg] at this

end Dt.Shell
