import Mathlib.Data.Finset.Basic
import Mathlib.Data.List.Sort
import Mathlib.Data.Prod.Lex
import Mathlib.Algebra.Order.Field.Rat
import Dt.Dispatch.Rows

/-!
# Candidate nodes

`pickCandidates` ranks the nodes one placement may use, from one probe of the fleet. A pin in the
request wins over the ranking and over the nodes that earlier jobs have reserved; a request without
one is placed away from them. The source tests the pin for truth, so an empty text is no pin here.
-/

namespace Dt.Dispatch

open Dt.Lib Dt.Jobs

structure Gpu where
  memTotalMib : Int
  free : Bool := false
  deriving DecidableEq, Repr

structure SystemStats where
  cpuCores : Int
  cpuLoad1 : ℚ
  diskFreeGib : ℚ
  deriving DecidableEq, Repr

/-- One node, as a probe saw it. -/
structure NodeStatus where
  node : String
  gpus : List Gpu := []
  system : Option SystemStats := none
  error : Option String := none
  gpuInventoryError : Option String := none
  deriving DecidableEq, Repr

def NodeStatus.freeGpus (s : NodeStatus) : List Gpu := s.gpus.filter (·.free)

/-- A node of the configuration, as far as placement reads it. -/
structure CenterNode extends Node where
  transferCost : ℚ := 1
  drained : Bool := false
  deriving DecidableEq, Repr

/-- What placement reads of a request. -/
structure RunSpec where
  node : Option String := none
  gpus : Int := 1
  excludeNodes : Option (List String) := none
  minVramMib : Option Int := none
  requireDiskGib : Option Int := none
  deriving DecidableEq, Repr

/-- `a or b` on optional texts: a missing text and an empty one are both false. -/
def orText (a b : Option String) : Option String := (a.filter (· ≠ "")).or b

/-- The request a queued row carries; the disk floor of the center is already in it. -/
def queuedRunSpec (diskMinGib : Int) (e : JobEntry) : RunSpec :=
  let floor := max diskMinGib (e.requireDiskGib.getD 0)
  { node := e.pinNode
    gpus := e.gpusRequested
    excludeNodes := e.excludeNodes
    minVramMib := e.minVramMib
    requireDiskGib := if floor = 0 then none else some floor }

/-- Free cards that satisfy the shape of the request. -/
def eligibleFreeGpus (s : NodeStatus) (spec : RunSpec) : List Gpu :=
  if 0 < spec.gpus && s.gpuInventoryError.isSome then []
  else match spec.minVramMib with
  | none => s.freeGpus
  | some minimum => s.freeGpus.filter (minimum ≤ ·.memTotalMib)

/-- `disk_rejection_reason(status, spec) is not None` -/
def diskRejected (s : NodeStatus) (spec : RunSpec) : Bool :=
  match spec.requireDiskGib, s.system with
  | some required, some system => s.error.isNone && decide (system.diskFreeGib < required)
  | _, _ => false

/-- A pin that names no configured node. -/
structure UnknownNode where
  node : String
  configured : List String
  deriving DecidableEq, Repr

/-- The node of a name; a later node of the same name replaces an earlier one. -/
def nodeNamed (nodes : List CenterNode) (name : String) : Option CenterNode :=
  nodes.reverse.find? (·.name = name)

def cpuRank (nodes : List CenterNode) (s : NodeStatus) : ℚ ×ₗ ℚ ×ₗ Nat :=
  let load := match s.system with
    | some system => system.cpuLoad1 / max 1 system.cpuCores
    | none => 1
  let cost := match nodeNamed nodes s.node with
    | some node => if node.isLocal then 0 else node.transferCost
    | none => 0
  toLex (cost, toLex (load, s.freeGpus.length))

def gpuRank (spec : RunSpec) (s : NodeStatus) : Nat ×ₗ Nat :=
  toLex ((eligibleFreeGpus s spec).length, s.freeGpus.length)

/-- The nodes that a request without a pin may use at all. -/
def usable (statuses : List NodeStatus) (nodes : List CenterNode) (spec : RunSpec)
    (excluded : Finset String) : List NodeStatus :=
  statuses.filter fun s =>
    s.error.isNone && !diskRejected s spec && (nodeNamed nodes s.node).any (!·.drained) &&
      s.node ∉ excluded

def pickCandidates (statuses : List NodeStatus) (nodes : List CenterNode) (spec : RunSpec)
    (reserve : Int) (reservedNodes : Finset String) : Except UnknownNode (List CenterNode) :=
  match spec.node.filter (· ≠ "") with
  | some pin =>
    match nodeNamed nodes pin with
    | none => .error ⟨pin, (nodes.map (·.name)).eraseDups⟩
    | some node =>
      if node.drained then .ok []
      else if (statuses.find? (·.node = pin)).any (diskRejected · spec) then .ok []
      else .ok [node]
  | none =>
    let fit := usable statuses nodes spec (reservedNodes ∪ (spec.excludeNodes.getD []).toFinset)
    if spec.gpus = 0 then
      .ok ((fit.insertionSort (cpuRank nodes · ≤ cpuRank nodes ·)).filterMap (nodeNamed nodes ·.node))
    else
      .ok (((fit.insertionSort (gpuRank spec · ≥ gpuRank spec ·)).filter fun s =>
        spec.gpus ≤ (eligibleFreeGpus s spec).length && reserve ≤ s.freeGpus.length - spec.gpus).filterMap
          (nodeNamed nodes ·.node))

variable {statuses : List NodeStatus} {nodes : List CenterNode} {spec : RunSpec} {reserve : Int}
  {reserved : Finset String} {candidates : List CenterNode}

theorem nodeNamed_name {name : String} {node : CenterNode} (h : nodeNamed nodes name = some node) :
    node.name = name := by
  simpa using List.find?_some h

/-- A pin is the only candidate. -/
theorem pickCandidates_pinned {pin : String} (hpin : spec.node = some pin) (hne : pin ≠ "")
    (h : pickCandidates statuses nodes spec reserve reserved = .ok candidates) :
    ∀ c ∈ candidates, c.name = pin := by
  have hfilter : spec.node.filter (· ≠ "") = some pin := by simp [hpin, hne]
  simp only [pickCandidates, hfilter] at h
  cases hn : nodeNamed nodes pin with
  | none => simp [hn] at h
  | some node =>
    simp only [hn] at h
    intro c hc
    split at h
    · cases h
      cases hc
    · split at h
      · cases h
        cases hc
      · cases h
        obtain rfl : c = node := by simpa using hc
        exact nodeNamed_name hn

/-- Without a pin no candidate is reserved. -/
theorem pickCandidates_unreserved (hpin : spec.node = none)
    (h : pickCandidates statuses nodes spec reserve reserved = .ok candidates) :
    ∀ c ∈ candidates, c.name ∉ reserved := by
  simp only [pickCandidates, hpin, Option.filter_none] at h
  have key : ∀ s ∈ usable statuses nodes spec (reserved ∪ (spec.excludeNodes.getD []).toFinset),
      ∀ c, nodeNamed nodes s.node = some c → c.name ∉ reserved := by
    intro s hs c hc
    have hfit := (List.mem_filter.mp hs).2
    simp only [Bool.and_eq_true, decide_eq_true_eq] at hfit
    rw [nodeNamed_name hc]
    exact fun hr => hfit.2 (Finset.mem_union_left _ hr)
  intro c hc
  split at h
  · cases h
    obtain ⟨s, hs, hsc⟩ := List.mem_filterMap.mp hc
    exact key s ((List.mem_insertionSort _).mp hs) c hsc
  · cases h
    obtain ⟨s, hs, hsc⟩ := List.mem_filterMap.mp hc
    exact key s ((List.mem_insertionSort _).mp (List.mem_filter.mp hs).1) c hsc

end Dt.Dispatch
