import Mathlib
import Dt.Probe.Inventory

/-!
# The scripts that print the inventory

`probe_gpu.sh` prints the rows of `nvidia-smi` with the state of the lease of each card;
`probe_apps.sh` prints one row for each process on a card, with the user and the name that `ps`
reports for its pid.
-/

namespace Dt.Probe

open Dt.Lib

/-- A number as it is printed. -/
def numText (n : Nat) : Text := (toString n).toList

/-- A field of a `csv` row after the first one. -/
def csvField (t : Text) : Text := ' ' :: t

/-- A row of `nvidia-smi --query-gpu`. -/
structure Device where
  index : Nat
  uuid : Text
  used : Nat
  total : Nat
  util : Nat
  temp : Nat

/-- A row of `nvidia-smi --query-compute-apps`; some drivers do not report every number. -/
structure AppRow where
  uuid : Text
  pid : Option Nat
  used : Option Nat

/-- A line of `ps -o pid=,user:64=,comm=`. -/
structure Process where
  pid : Nat
  user : Text
  comm : Text

/-- The lock of a lease file. -/
inductive Lock where
  | absent | unlocked | shared | exclusive
  deriving DecidableEq

/-- What the scripts find on the node. -/
structure NodeState where
  devices : List Device
  apps : List AppRow
  processes : List Process
  lock : Nat → Lock
  /-- `command -v flock` -/
  flock : Bool
  /-- The first line of the lease file of a card. -/
  owner : Nat → Text

/-! ## `probe_gpu.sh` -/

/-- `[ -e "$lease" ] && { ! command -v flock || ! flock -n -s "$lease" -c true; }` -/
def NodeState.leased (s : NodeState) (idx : Nat) : Bool :=
  s.lock idx ≠ .absent && (!s.flock || s.lock idx = .exclusive)

def NodeState.gpuLine (s : NodeState) (d : Device) : GpuLine where
  idx := numText d.index
  uuid := csvField d.uuid
  used := csvField (numText d.used)
  total := csvField (numText d.total)
  util := csvField (numText d.util)
  temp := csvField (numText d.temp)
  leased := s.leased d.index
  owner := if s.leased d.index then s.owner d.index else []

def NodeState.gpuLines (s : NodeState) : List GpuLine := s.devices.map s.gpuLine

/-! ## `probe_apps.sh` -/

/-- `[[:space:]]` -/
def awkSpace (c : Char) : Bool :=
  c = ' ' || c = '\t' || c = '\n' || c = '\x0b' || c = '\x0c' || c = '\r'

/-- `gsub(/[,[:space:]]+/, "_", name)`; `inRun` when the last character was replaced. -/
def underscores : Bool → Text → Text
  | _, [] => []
  | inRun, c :: cs =>
    if c = ',' || awkSpace c then
      if inRun then underscores true cs else '_' :: underscores true cs
    else c :: underscores false cs

def Process.name (p : Process) : Text := underscores false (p.comm.dropWhile awkSpace)

/-- The line of `ps` for a row. -/
def NodeState.process (s : NodeState) (row : AppRow) : Option Process :=
  row.pid.bind fun pid => s.processes.find? fun p => p.pid = pid

def NodeState.appLine (s : NodeState) (row : AppRow) : AppLine where
  uuid := row.uuid
  pid := (row.pid.map numText).getD "[N/A]".toList
  user :=
    match s.process row with
    | some p => if p.user = [] then ['?'] else p.user
    | none => ['?']
  comm := ((s.process row).map Process.name).getD []
  used := (row.used.map numText).getD []

/-- The rows whose card and pid were not printed before. -/
def newRows : List (Text × Option Nat) → List AppRow → List AppRow
  | _, [] => []
  | seen, row :: rows =>
    if (row.uuid, row.pid) ∈ seen then newRows seen rows
    else row :: newRows ((row.uuid, row.pid) :: seen) rows

def NodeState.appLines (s : NodeState) : List AppLine :=
  (newRows [] (s.apps.filter fun row => row.uuid ≠ [])).map s.appLine

/-- What the node prints up to the load. -/
def NodeState.sections (s : NodeState) : Text := Dt.Probe.sections s.gpuLines s.appLines

end Dt.Probe
