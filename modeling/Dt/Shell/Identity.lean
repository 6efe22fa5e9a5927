import Dt.Lib.Text
import Mathlib.Data.List.AList

/-!
# Process identity

What a program on a node sees during one census: the process table behind `/proc`, the files in
the state directory of the job, and how its enumerators end. Over it the helpers of
`process_identity.sh`, which prove that a PID still belongs to the job.

The table holds the processes of the job's user, which the program may signal; it does not change
during a census. `sed`, `cat` and `readlink` do their work.
-/

namespace Dt.Shell

open Dt.Lib

abbrev Pid := Nat

/-! ## The node -/

structure Proc where
  /-- the state letter of `/proc/PID/stat` -/
  state : Char := 'S'
  pgrp : Nat
  /-- the start time in clock ticks -/
  ticks : Nat := 0
  /-- `/proc/PID/stat` can be read -/
  readable : Bool := true
  /-- the state of each thread under `/proc/PID/task`, if it can be read -/
  tasks : List (Option Char) := [some 'S']
  /-- what `/proc/PID/cwd` points to, if it can be read -/
  cwd : Option String := none
  cgroup : String := "/"
  deriving DecidableEq, Repr

/-- A file of the state directory; `special` is a link, a directory or a device. -/
inductive Marker where
  | absent
  | special
  | file (text : Option String)
  deriving DecidableEq, Repr

/-- How a run of an enumerator ends; an exit status from `least` on means an error, after which
some of its lines may be missing. -/
inductive Outcome (least : Nat) where
  | missing
  | done
  | failed (status : Nat) (h : least ≤ status) (printed : Pid → Bool)

/-- What systemd knows of a unit. -/
structure UnitState where
  load : String
  active : String
  controlGroup : String
  known : load = "not-found" ∨ load = "" → controlGroup = ""

inductive Property where
  | loadState | activeState | controlGroup
  deriving DecidableEq, Repr

structure Node where
  procs : AList fun _ : Pid => Proc
  /-- `/proc/sys/kernel/random/boot_id`, if it can be read -/
  boot : Option String := none
  /-- `process_start_ticks` -/
  identity : Marker := .absent
  runtimeScope : Marker := .absent
  runtimeContainment : Marker := .absent
  runtimeGpusRequested : Marker := .absent
  gpus : Marker := .absent
  exitCode : Marker := .absent
  /-- `pgrep -g` exits with 1 when nothing matched -/
  pgrep : Outcome 2 := .done
  find : Outcome 1 := .done
  /-- the calls of `systemctl --user show` that succeed, if there is a `systemctl` -/
  systemctl : Option (Property → Bool) := none
  units : String → UnitState := fun _ => ⟨"not-found", "inactive", "", fun _ => rfl⟩
  /-- the directories below `/sys/fs/cgroup` -/
  cgroupDir : String → Bool := fun _ => true
  /-- `find` over the `cgroup.procs` files of one directory -/
  findCgroup : Outcome 1 := .done

/-- The test `[ "$rc" -gt 1 ]` on the exit status. -/
def Outcome.degraded {least : Nat} : Outcome least → Bool
  | .missing => true
  | .done => false
  | .failed status _ _ => 1 < status

/-- What is printed where `pids` match. -/
def Outcome.print {least : Nat} (pids : List Pid) : Outcome least → List Pid
  | .missing => []
  | .done => pids
  | .failed _ _ printed => pids.filter printed

/-- The processes a predicate holds of. -/
def Node.select (n : Node) (f : Proc → Bool) : List Pid :=
  n.procs.keys.filter fun pid => (n.procs.lookup pid).any f

/-- `[ -e /proc/PID ]`, and `kill -0`. -/
def Node.hasPid (n : Node) (pid : Pid) : Bool := (n.procs.lookup pid).isSome

/-! ## Files -/

/-- `$(cat FILE)` drops NUL bytes and the line ends at the end. -/
def catText (text : String) : List Char :=
  ((text.toList.filter (· ≠ '\x00')).reverse.dropWhile (· = '\n')).reverse

/-- A regular file of a bounded size, read as a whole. -/
def Marker.bounded (lo hi : Nat) : Marker → Option (List Char)
  | .file (some text) =>
    if lo ≤ text.utf8ByteSize && text.utf8ByteSize ≤ hi then some (catText text) else none
  | .absent | .special | .file none => none

/-- Not `*[!0-9]*|""`. -/
def isDecimal (v : List Char) : Bool := !v.isEmpty && v.all isDigit

/-! ## `process_identity.sh` -/

def Node.pidState (n : Node) (pid : Pid) : Option Char :=
  (n.procs.lookup pid).bind fun p => if p.readable then some p.state else none

def Node.pidGroup (n : Node) (pid : Pid) : Option Nat :=
  (n.procs.lookup pid).bind fun p => if p.readable then some p.pgrp else none

def Node.pidTicks (n : Node) (pid : Pid) : Option Nat :=
  (n.procs.lookup pid).bind fun p => if p.readable then some p.ticks else none

/-- `Z|X|x` -/
def deadState (c : Char) : Bool := c = 'Z' || c = 'X' || c = 'x'

/-- A task that cannot be read is no proof of death, and neither is an empty list of tasks. -/
def Node.pidHasLiveTask (n : Node) (pid : Pid) : Bool :=
  match n.procs.lookup pid with
  | none => true
  | some p => p.tasks.isEmpty || p.tasks.any fun t => !t.any deadState

def Node.pidZombie (n : Node) (pid : Pid) : Bool :=
  match n.pidState pid with
  | none => false
  | some c => deadState c && !n.pidHasLiveTask pid

/-- `"$2"|"$2"/*` -/
def insideDir (dir path : String) : Bool := path = dir || startsWith path (dir ++ "/")

def Node.pidCwdOwned (n : Node) (pid : Pid) (dir : String) : Bool :=
  (n.procs.lookup pid).any fun p => p.cwd.any (insideDir dir)

/-- The exit status of `dt_process_owned`: 0, 1 or 2. -/
inductive Owner where
  | owned | gone | unproven
  deriving DecidableEq, Repr

/-- `dt_process_owned` for a job in the directory `dir`; an empty `boot` is not compared. -/
def Node.processOwned (n : Node) (pid : Pid) (dir boot : String) : Owner :=
  if pid = 0 then .gone
  else if !n.hasPid pid then .gone
  else if n.pidZombie pid then .gone
  else if boot ≠ "" && n.boot ≠ some boot then .unproven
  else match n.identity with
  | .absent => if n.pidCwdOwned pid dir then .owned else .unproven
  | m =>
    match m.bounded 1 64 with
    | none => .unproven
    | some expected =>
      if !isDecimal expected then .unproven
      else match n.pidTicks pid with
      | none => .unproven
      | some ticks => if (toString ticks).toList = expected then .owned else .unproven

/-! ## Lookups -/

section

variable {n : Node} {pid : Pid} {p : Proc}

theorem mem_select {f : Proc → Bool} :
    pid ∈ n.select f ↔ ∃ p, n.procs.lookup pid = some p ∧ f p = true := by
  simp only [Node.select, List.mem_filter, Option.any_eq_true]
  constructor
  · rintro ⟨-, h⟩
    exact h
  · rintro ⟨p, hp, hf⟩
    refine ⟨?_, p, hp, hf⟩
    exact AList.mem_keys.mp (AList.lookup_isSome.mp (by simp [hp]))

theorem hasPid_eq_false : n.hasPid pid = false ↔ n.procs.lookup pid = none := by
  simp [Node.hasPid]

theorem Outcome.mem_of_mem_print {least : Nat} {pids : List Pid} {o : Outcome least}
    (h : pid ∈ o.print pids) : pid ∈ pids := by
  cases o with
  | missing => cases h
  | done => exact h
  | failed status hs printed => exact (List.mem_filter.mp h).1

/-- `pgrep` without an error lists every match. -/
theorem Outcome.print_of_not_degraded {pids : List Pid} {o : Outcome 2} (h : o.degraded = false) :
    o.print pids = pids := by
  cases o with
  | missing => cases h
  | done => rfl
  | failed status hs printed =>
    simp only [Outcome.degraded, decide_eq_false_iff_not] at h
    omega

/-- A process is a zombie or alive; the leader is gone exactly if none is alive under its PID. -/
theorem processOwned_eq_gone {dir boot : String} :
    n.processOwned pid dir boot = .gone ↔
      pid = 0 ∨ n.hasPid pid = false ∨ n.pidZombie pid = true := by
  unfold Node.processOwned
  split
  · simp_all
  · split
    · simp_all
    · split
      · simp_all
      · rename_i h₁ h₂ h₃
        have : ¬(pid = 0 ∨ n.hasPid pid = false ∨ n.pidZombie pid = true) := by simp_all
        simp only [this, iff_false]
        split
        · simp
        · split
          · split <;> simp
          · split
            · simp
            · split
              · simp
              · split
                · simp
                · split <;> simp

end

end Dt.Shell
