import Dt.Shell.Identity

/-!
# The recorded scope

The helpers of `runtime_scope.sh`: the marker of the systemd user scope a job runs in, the
attestation that work on devices is contained by a scope, and the census of a scope. A malformed
marker and a failed call are never read as an absence.
-/

namespace Dt.Shell

open Dt.Lib

/-- The exit status of a marker helper: 1, 2, or 0 with a value. -/
inductive Reading (α : Type) where
  | absent
  | malformed
  | value (a : α)
  deriving DecidableEq, Repr

/-- `dt-runtime-`, 20 hex digits, `.scope` -/
def isScopeUnit (v : List Char) : Bool :=
  let hex := (v.drop 11).take 20
  v.length = 37 && v = "dt-runtime-".toList ++ hex ++ ".scope".toList && hex.all isHex

/-- `dt_scope_marker`; an empty `expected` accepts every unit. -/
def Node.scopeMarker (n : Node) (expected : String) : Reading String :=
  match n.runtimeScope with
  | .absent => .absent
  | m =>
    match m.bounded 1 64 with
    | none => .malformed
    | some v =>
      if !isScopeUnit v then .malformed
      else if expected = "" || v = expected.toList then .value (String.ofList v)
      else .malformed

inductive Containment where
  | systemdScopePending | systemdScopeVerified | portableUnproven
  deriving DecidableEq, Repr

/-- `dt_containment_marker` -/
def Node.containmentMarker (n : Node) : Reading Containment :=
  match n.runtimeContainment with
  | .absent => .absent
  | m =>
    match m.bounded 1 64 with
    | none => .malformed
    | some v =>
      if v = "systemd_scope_pending".toList then .value .systemdScopePending
      else if v = "systemd_scope_verified".toList then .value .systemdScopeVerified
      else if v = "portable_unproven".toList then .value .portableUnproven
      else .malformed

/-- The negation of `*[!0-9,]*|,*|*,|*,,*` on a text that is not empty. -/
def isDeviceList (v : List Char) : Bool :=
  v.all (fun c => isDigit c || c = ',') && (splitOn ',' v).all (!·.isEmpty)

/-- The value of a decimal numeral. -/
def decimalValue (v : List Char) : Nat := v.foldl (fun k c => 10 * k + (c.toNat - 48)) 0

/-- `dt_requested_gpus`; `none` where it returns 2. -/
def Node.requestedGpus (n : Node) : Option Nat :=
  match n.runtimeGpusRequested with
  | .absent =>
    match n.gpus with
    | .absent => some 0
    | m => (m.bounded 0 1024).bind fun v =>
      if v.isEmpty then some 0 else if isDeviceList v then some 1 else none
  | m => (m.bounded 1 16).bind fun v => if isDecimal v then some (decimalValue v) else none

/-- The exit status of `dt_gpu_containment_unproven`: 0, 1 or 2. -/
inductive Attestation where
  | unproven | contained | malformed
  deriving DecidableEq, Repr

/-- The part of `dt_gpu_containment_unproven` after its look at old jobs. -/
def Node.attestRequested (n : Node) : Attestation :=
  match n.requestedGpus with
  | none => .malformed
  | some count =>
    if count = 0 then .contained
    else if n.containmentMarker ≠ .value .systemdScopeVerified then .unproven
    else match n.scopeMarker "" with
    | .value _ => .contained
    | .absent | .malformed => .unproven

/-- `dt_gpu_containment_unproven`: a job with neither marker is older than the attestation. -/
def Node.gpuContainmentUnproven (n : Node) : Attestation :=
  if n.runtimeGpusRequested = .absent then
    match n.containmentMarker with
    | .absent => .contained
    | .malformed => .malformed
    | .value _ => n.attestRequested
  else n.attestRequested

/-- The lines of a census: its head and the PIDs below. -/
inductive ScopeCensus where
  | degraded
  | absent
  | ok (pids : List Pid)
  deriving DecidableEq, Repr

/-- The processes of a control group and of the groups below it. -/
def inCgroup (controlGroup : String) (p : Proc) : Bool := insideDir controlGroup p.cgroup

/-- The PIDs that are no zombies, and still there. -/
def Node.living (n : Node) (pids : List Pid) : List Pid :=
  pids.filter fun pid => !n.pidZombie pid && n.hasPid pid

/-- `*/../*|*/./*` -/
def hasDotParts (path : String) : Bool :=
  (splitOn '/' path.toList).any fun part => part = ".".toList || part = "..".toList

/-- The part of `dt_scope_census` that reads the control group. -/
def Node.cgroupCensus (n : Node) (controlGroup : String) : ScopeCensus :=
  if !startsWith controlGroup "/" then .degraded
  else if hasDotParts controlGroup then .degraded
  else if !n.cgroupDir controlGroup then .degraded
  else match n.find, n.findCgroup with
  | .missing, _ | _, .missing | _, .failed .. => .degraded
  | _, .done =>
    -- a process outside the PID namespace reads as 0
    if 0 ∈ n.select (inCgroup controlGroup) then .degraded
    else .ok (n.living (n.select (inCgroup controlGroup)))

/-- `dt_scope_census` -/
def Node.scopeCensus (n : Node) (unit : String) : ScopeCensus :=
  match n.systemctl with
  | none => .degraded
  | some shows =>
    let u := n.units unit
    if !shows .loadState then .degraded
    else if u.load = "not-found" || u.load = "" then .absent
    else if !shows .activeState then .degraded
    else if !shows .controlGroup then .degraded
    else if u.controlGroup = "" then
      if u.active = "inactive" || u.active = "failed" || u.active = "dead" then .absent
      else .degraded
    else n.cgroupCensus u.controlGroup

/-- The process runs in the scope: in its control group, or below. -/
def Node.inUnit (n : Node) (unit : String) (p : Proc) : Bool :=
  (n.units unit).controlGroup ≠ "" && inCgroup (n.units unit).controlGroup p

/-! ## Soundness of the census -/

section

variable {n : Node} {unit : String} {pid : Pid} {p : Proc}

/-- What a zombie is depends on its own entry of the table only. -/
def Proc.zombie (p : Proc) : Bool :=
  p.readable && deadState p.state && !(p.tasks.isEmpty || p.tasks.any fun t => !t.any deadState)

theorem pidZombie_eq (h : n.procs.lookup pid = some p) : n.pidZombie pid = p.zombie := by
  cases hr : p.readable <;> simp [Node.pidZombie, Node.pidState, Node.pidHasLiveTask, Proc.zombie,
    h, hr]

theorem pidZombie_of_lookup_none (h : n.procs.lookup pid = none) : n.pidZombie pid = false := by
  simp [Node.pidZombie, Node.pidState, h]

theorem mem_living {pids : List Pid} :
    pid ∈ n.living pids ↔ pid ∈ pids ∧ ∃ p, n.procs.lookup pid = some p ∧ p.zombie = false := by
  simp only [Node.living, List.mem_filter, Bool.and_eq_true, Bool.not_eq_true']
  refine and_congr_right fun _ => ?_
  cases h : n.procs.lookup pid with
  | none => simp [Node.hasPid, h]
  | some p => simp [Node.hasPid, h, pidZombie_eq h]

/-- Where the census prints a list, it is the list of the processes in the group. -/
theorem cgroupCensus_ok {cg : String} {pids : List Pid} (h : n.cgroupCensus cg = .ok pids) :
    pids = n.living (n.select (inCgroup cg)) := by
  unfold Node.cgroupCensus at h
  split at h
  · cases h
  · split at h
    · cases h
    · split at h
      · cases h
      · split at h
        · cases h
        · cases h
        · cases h
        · split at h
          · cases h
          · cases h
            rfl

theorem cgroupCensus_ne_absent {cg : String} : n.cgroupCensus cg ≠ .absent := by
  unfold Node.cgroupCensus
  split
  · simp
  · split
    · simp
    · split
      · simp
      · split
        · simp
        · simp
        · simp
        · split <;> simp

/-- An absent scope has no processes. -/
theorem scopeCensus_absent (h : n.scopeCensus unit = .absent) : n.inUnit unit p = false := by
  have hempty : (n.units unit).controlGroup = "" := by
    unfold Node.scopeCensus at h
    split at h
    · cases h
    · dsimp only at h
      split at h
      · cases h
      · split at h
        · rename_i hload
          exact (n.units unit).known (by simpa using hload)
        · split at h
          · cases h
          · split at h
            · cases h
            · split at h
              · assumption
              · exact absurd h cgroupCensus_ne_absent
  simp [Node.inUnit, hempty]

/-- A listed scope is listed as a whole. -/
theorem scopeCensus_ok {pids : List Pid} (h : n.scopeCensus unit = .ok pids) :
    pids = n.living (n.select (n.inUnit unit)) := by
  unfold Node.scopeCensus at h
  split at h
  · cases h
  · dsimp only at h
    split at h
    · cases h
    · split at h
      · cases h
      · split at h
        · cases h
        · split at h
          · cases h
          · split at h
            · split at h <;> cases h
            · rename_i hcg
              rw [cgroupCensus_ok h]
              have : n.inUnit unit = inCgroup (n.units unit).controlGroup := by
                funext q
                simp [Node.inUnit, hcg]
              rw [this]

end

end Dt.Shell
