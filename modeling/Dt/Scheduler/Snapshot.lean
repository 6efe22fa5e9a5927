import Mathlib
import Dt.Lib.Walk
import Dt.Dispatch.Placement
import Dt.Scheduler.Admission

/-!
# The explanation of a queue

`schedulerSnapshot` explains every queued job from one view of the registry and one view of the
resources. It walks the queue in the order of submission and forecasts each placement against what
the rows before it have taken: a job that waits for capacity keeps its place before the later jobs
that could use the same cards.

The admission of an attempt re-derives the same order from the stored rows. The last section says
when both agree about the first GPU job that the explanation calls runnable.
-/

namespace Dt.Scheduler

open Dt.Lib Dt.Jobs Dt.Dispatch

/-! ## Resources -/

/-- A value of a resource row; `other` is anything but a finite number. -/
inductive Reported where
  | absent
  | number (q : ℚ)
  | other
  deriving DecidableEq, Repr

/-- One card of a resource row; `free` is `gpu.get("free") is True`. -/
structure ResourceGpu where
  memTotalMib : Reported := .absent
  memTotal : Reported := .absent
  free : Bool := false
  deriving DecidableEq, Repr

/-- One row of a resource view. A card that is no mapping is `none`, and so are cards that are no
list; `error` and `gpuInventoryError` say whether the row has one. -/
structure Resource where
  node : Option String
  error : Bool := false
  gpus : Option (List (Option ResourceGpu)) := some []
  gpuInventoryError : Bool := false
  diskFreeGib : Reported := .absent
  deriving DecidableEq, Repr

/-- The unit-bearing key, or the stable one when it is missing. -/
def gpuTotalMib (g : ResourceGpu) : Option Int :=
  match if g.memTotalMib = .absent then g.memTotal else g.memTotalMib with
  | .number q => if 0 < q ∧ q.den = 1 then some q.num else none
  | _ => none

/-- `_ResourceCapacity`; a dict is a partial function. -/
structure ResourceCapacity where
  free : String → Option Nat := fun _ => none
  total : String → Option Nat := fun _ => none
  unavailable : Finset String := ∅
  diskFree : String → Option ℚ := fun _ => none
  freeGpuMemoryMib : String → Option (List (Option Int)) := fun _ => none
  gpuMemoryMib : String → Option (List (Option Int)) := fun _ => none
  gpuInventoryUnknown : Finset String := ∅
  memoryInventoryUnknown : Finset String := ∅

/-- One pass of the loop of `_resource_capacity`. -/
def ResourceCapacity.add (c : ResourceCapacity) (row : Resource) : ResourceCapacity :=
  match row.node with
  | none => c
  | some node =>
    if node = "" then c
    else if row.error then { c with unavailable := insert node c.unavailable }
    else
      let gpus := row.gpus.getD []
      let cards := gpus.filterMap id
      let memory := cards.map gpuTotalMib
      let freeMemory := (cards.filter (·.free)).map gpuTotalMib
      let malformed := gpus.any (·.isNone) || row.gpus.isNone || row.gpuInventoryError
      { total := Function.update c.total node (some gpus.length)
        free := Function.update c.free node (some freeMemory.length)
        unavailable := c.unavailable
        gpuMemoryMib := Function.update c.gpuMemoryMib node (some memory)
        freeGpuMemoryMib := Function.update c.freeGpuMemoryMib node (some freeMemory)
        gpuInventoryUnknown :=
          if malformed then insert node c.gpuInventoryUnknown else c.gpuInventoryUnknown
        memoryInventoryUnknown :=
          if malformed || memory.any (·.isNone) then insert node c.memoryInventoryUnknown
          else c.memoryInventoryUnknown
        diskFree := match row.diskFreeGib with
          | .number q => Function.update c.diskFree node (some q)
          | _ => c.diskFree }

def resourceCapacity (resources : List Resource) : ResourceCapacity :=
  resources.foldl ResourceCapacity.add {}

/-- What the scheduler reads of the configuration. -/
structure SchedulerConfig where
  nodes : List CenterNode
  maxMyJobs : Option Nat := none
  reserveFreePerNode : Int := 0
  diskMinGib : Int := 10

def SchedulerConfig.configured (cfg : SchedulerConfig) : List String := cfg.nodes.map fun n => n.name

def SchedulerConfig.drained (cfg : SchedulerConfig) : List String :=
  (cfg.nodes.filter fun n => n.drained).map fun n => n.name

/-! ## Capacity -/

/-- The state of a queued row. The waits of dependencies and of stored reasons have their own
texts. -/
inductive RowState where
  | held (text : String)
  | dispatchReserved | waitingQuota | pendingDispatch | blockedInvalidPin | waitingNode | runnable
  | waitingDisk | waitingGpuInventory | blockedResourceMismatch | waitingCapacity | waitingFifo
  deriving DecidableEq, Repr

def RowState.text : RowState → String
  | .held text => text
  | .dispatchReserved => "dispatch_reserved"
  | .waitingQuota => "waiting_quota"
  | .pendingDispatch => "pending_dispatch"
  | .blockedInvalidPin => "blocked_invalid_pin"
  | .waitingNode => "waiting_node"
  | .runnable => "runnable"
  | .waitingDisk => "waiting_disk"
  | .waitingGpuInventory => "waiting_gpu_inventory"
  | .blockedResourceMismatch => "blocked_resource_mismatch"
  | .waitingCapacity => "waiting_capacity"
  | .waitingFifo => "waiting_fifo"

structure Explanation where
  state : RowState
  reason : String
  nextCondition : String
  selectedNode : Option String := none
  deriving DecidableEq, Repr

/-- `entry.reason or default` -/
def reasonOr (e : JobEntry) (default : String) : String :=
  (e.reason.filter (· ≠ "")).getD default

/-- The nodes a row may be placed on at all, in the order of the configuration. -/
def candidateNodes (cfg : SchedulerConfig) (e : JobEntry) (excluded : Finset String) :
    List String :=
  let eligible := match e.pinNode with
    | some pin => [pin]
    | none => cfg.configured.filter (· ∉ excluded)
  eligible.filter (· ∉ cfg.drained)

def wantedGpus (e : JobEntry) : Int := max 0 e.gpusRequested

/-- A pin is a decision about its node, so the reserve only shields unpinned placement. -/
def reserveFor (cfg : SchedulerConfig) (e : JobEntry) : Int :=
  if e.pinNode.isSome then 0 else max 0 cfg.reserveFreePerNode

def requiredDisk (cfg : SchedulerConfig) (e : JobEntry) : Int :=
  max 0 (max cfg.diskMinGib (e.requireDiskGib.getD 0))

/-- A node whose disk is unknown is not gated. -/
def diskOk (cfg : SchedulerConfig) (e : JobEntry) (c : ResourceCapacity) (node : String) : Bool :=
  (c.diskFree node).all ((requiredDisk cfg e : ℚ) ≤ ·)

/-- How many cards of a list have the memory a row asks for. -/
def fittingCards (e : JobEntry) (memory : List (Option Int)) : Nat :=
  memory.countP fun m => e.minVramMib.all fun minimum => m.any (minimum ≤ ·)

def gpuFit (cfg : SchedulerConfig) (e : JobEntry) (c : ResourceCapacity) (node : String) : Bool :=
  let freeCount : Int := (c.free node).getD 0
  if wantedGpus e = 0 then true
  else if node ∈ c.gpuInventoryUnknown then false
  else if freeCount - wantedGpus e < reserveFor cfg e then false
  else match e.minVramMib with
  | none => wantedGpus e ≤ freeCount
  | some _ => wantedGpus e ≤ fittingCards e ((c.freeGpuMemoryMib node).getD [])

/-- The cards that some eligible node with a known inventory has. -/
def maxInventory (e : JobEntry) (c : ResourceCapacity) (known : List String) : Nat :=
  (known.map fun node => match e.minVramMib with
    | none => (c.total node).getD 0
    | some _ => fittingCards e ((c.gpuMemoryMib node).getD [])).foldl max 0

def shapeText (e : JobEntry) : String :=
  match e.minVramMib with
  | some minimum => " with at least " ++ toString minimum ++ " MiB each"
  | none => ""

/-- The rest of `_capacity_state`, for a row that fits no reachable node. -/
def capacityWait (cfg : SchedulerConfig) (e : JobEntry) (c : ResourceCapacity)
    (candidates reachable : List String) : Explanation :=
  let inventoryUnknown node :=
    node ∈ c.gpuInventoryUnknown || e.minVramMib.isSome && node ∈ c.memoryInventoryUnknown
  let inventory := maxInventory e c (reachable.filter (!inventoryUnknown ·))
  if inventory < wantedGpus e then
    let unknown := candidates.filter fun node => node ∈ c.unavailable || inventoryUnknown node
    if !unknown.isEmpty then
      let noInventory := unknown.any inventoryUnknown
      { state := if noInventory then .waitingGpuInventory else .waitingNode
        reason :=
          if e.minVramMib.isSome then "GPU memory inventory is unavailable on eligible nodes"
          else if noInventory then "GPU inventory is unavailable on eligible nodes"
          else "reachable nodes are too small but eligible inventory is unavailable"
        nextCondition := "inventory for " ++ ", ".intercalate unknown ++ " must become available" }
    else
      { state := .blockedResourceMismatch
        reason := "requests " ++ toString (wantedGpus e) ++ " GPUs" ++ shapeText e ++
          " but eligible nodes expose at most " ++ toString inventory
        nextCondition := "change the resource request or eligible node set" }
  else
    { state := .waitingCapacity
      reason := reasonOr e ("waiting for " ++ toString (wantedGpus e) ++ " GPU capacity" ++
        shapeText e)
      nextCondition := "one eligible node must have " ++ toString (wantedGpus e) ++
        " fitting GPUs and leave " ++ toString (reserveFor cfg e) ++ " free in reserve" }

/-- `_capacity_state` with a resource view; `excluded` are nodes an unpinned row must not be placed
on. -/
def capacityState (cfg : SchedulerConfig) (e : JobEntry) (c : ResourceCapacity)
    (excluded : Finset String) : Explanation :=
  let candidates := candidateNodes cfg e excluded
  let reachable := candidates.filter fun node => (c.total node).isSome
  let gpuFitting := reachable.filter (gpuFit cfg e c)
  match e.pinNode.filter (· ∉ cfg.configured) with
  | some pin =>
    { state := .blockedInvalidPin
      reason := "pinned node " ++ pin ++ " is not configured"
      nextCondition := "repair the persisted pin or restore the configured node" }
  | none =>
    if candidates.isEmpty then
      match e.pinNode with
      | some pin =>
        { state := .waitingNode
          reason := "pinned node " ++ pin ++ " is drained for maintenance"
          nextCondition := "nodes[].drained must be lifted on " ++ pin ++ " or the job repinned" }
      | none =>
        { state := .waitingNode
          reason := "every eligible node is drained for maintenance"
          nextCondition := "at least one node must have nodes[].drained lifted" }
    else match e.pinNode.filter (· ∈ c.unavailable) with
    | some pin =>
      { state := .waitingNode
        reason := "pinned node " ++ pin ++ " is unavailable"
        nextCondition := "node " ++ pin ++ " must become reachable" }
    | none =>
      if reachable.isEmpty then
        { state := .waitingNode
          reason := "no eligible node has a usable resource snapshot"
          nextCondition := "an eligible node must become reachable" }
      else match gpuFitting.find? (diskOk cfg e c) with
      | some node =>
        { state := .runnable
          reason := node ++ " currently satisfies the resource request"
          nextCondition := "the live agent can dispatch this job now"
          selectedNode := some node }
      | none =>
        if !gpuFitting.isEmpty && decide (0 < requiredDisk cfg e) then
          { state := .waitingDisk
            reason := reasonOr e ("eligible nodes have GPUs free but under " ++
              toString (requiredDisk cfg e) ++ " GiB disk")
            nextCondition := "one eligible node must free at least " ++
              toString (requiredDisk cfg e) ++ " GiB of disk" }
        else capacityWait cfg e c candidates reachable

/-! ## The forecast -/

/-- Take the first fitting card, as often as asked for. -/
def takeCards (fits : Option Int → Bool) : Nat → List (Option Int) → Nat → List (Option Int) × Nat
  | 0, remaining, free => (remaining, free)
  | n + 1, remaining, free =>
    if remaining.any fits then takeCards fits n (remaining.eraseP fits) (free - 1)
    else (remaining, free)

/-- `_consume_capacity` -/
def consumeCapacity (c : ResourceCapacity) (node : String) (e : JobEntry) : ResourceCapacity :=
  match c.freeGpuMemoryMib node with
  | none => c
  | some remaining =>
    let taken := takeCards (fun m => e.minVramMib.all fun minimum => m.any (minimum ≤ ·))
      e.gpusRequested.toNat remaining ((c.free node).getD 0)
    { c with
      freeGpuMemoryMib := Function.update c.freeGpuMemoryMib node (some taken.1)
      free := Function.update c.free node (some taken.2) }

/-- What the rows already explained have taken and hold. -/
structure Forecast where
  running : Nat
  capacity : Option ResourceCapacity
  unpinnedCapacityWait : Option JobId := none
  busyPins : Dict JobId := []

/-- Unpinned GPU work is placed away from the nodes that earlier pinned waiters hold. -/
def Forecast.excluded (f : Forecast) (e : JobEntry) : Finset String :=
  (e.excludeNodes.getD []).toFinset ∪
    if e.pinNode.isNone && decide (0 < e.gpusRequested) then (f.busyPins.map Prod.fst).toFinset
    else ∅

/-- The explanation of a row, before its place in the queue is looked at. -/
def rowState (cfg : SchedulerConfig) (entries : List JobEntry) (f : Forecast) (e : JobEntry) :
    Explanation :=
  match dependencyState e entries with
  | some w => { state := .held w.state, reason := w.reason, nextCondition := w.condition }
  | none =>
    match persistedWait e f.capacity.isSome false with
    | some w => { state := .held w.state, reason := w.reason, nextCondition := w.condition }
    | none =>
      if e.dispatchNode.isSome || e.dispatchToken.isSome then
        { state := .dispatchReserved
          reason := match e.dispatchNode with
            | some node => "launch reservation is being recovered on " ++ node
            | none => "launch reservation has incomplete node identity"
          nextCondition := "the reserved launch must be adopted or proven absent"
          selectedNode := e.dispatchNode }
      else match cfg.maxMyJobs.filter (· ≤ f.running) with
      | some cap =>
        { state := .waitingQuota
          reason := "max_my_jobs=" ++ toString cap ++ " is reached"
          nextCondition := "running DT jobs must fall below " ++ toString cap }
      | none =>
        match f.capacity with
        | some c => capacityState cfg e c (f.excluded e)
        | none =>
          { state := .pendingDispatch
            reason := reasonOr e "waiting for the next scheduler pass"
            nextCondition := "the agent must complete a fresh capacity probe" }

/-- The earlier job that a runnable GPU row has to wait for. -/
def Forecast.fifoOwner (f : Forecast) (e : JobEntry) : Option JobId :=
  f.unpinnedCapacityWait.or (e.pinNode.bind (f.busyPins.lookup ·))

def Forecast.taken (f : Forecast) (e : JobEntry) : Option String → Option ResourceCapacity
  | some node => f.capacity.map (consumeCapacity · node e)
  | none => f.capacity

/-- A placement takes its cards and a reservation is about to. -/
def Forecast.consume (f : Forecast) (e : JobEntry) (x : Explanation) : Forecast :=
  match x.state with
  | .runnable => { f with running := f.running + 1, capacity := f.taken e x.selectedNode }
  | .dispatchReserved => { f with capacity := f.taken e x.selectedNode }
  | _ => f

/-- A capacity wait of GPU work holds the cards it could be given. -/
def Forecast.wait (f : Forecast) (e : JobEntry) (x : Explanation) : Forecast :=
  if x.state = .waitingCapacity && decide (0 < e.gpusRequested) then
    match e.pinNode with
    | none => { f with unpinnedCapacityWait := some e.jobId }
    | some pin =>
      { f with
        busyPins := if (f.busyPins.lookup pin).isSome then f.busyPins
          else f.busyPins ++ [(pin, e.jobId)] }
  else f

/-- The body of the loop over the queue. -/
def explain (cfg : SchedulerConfig) (entries : List JobEntry) (f : Forecast) (e : JobEntry) :
    Forecast × Explanation :=
  let free := rowState cfg entries f e
  let x := if free.state = .runnable && decide (0 < e.gpusRequested) then
      match f.fifoOwner e with
      | some owner =>
        { state := .waitingFifo
          reason := "FIFO capacity is reserved for earlier job " ++ owner
          nextCondition := "earlier overlapping job " ++ owner ++ " must dispatch or unblock" }
      | none => free
    else free
  ((f.consume e x).wait e x, x)

/-- `sorted(queued, key=lambda entry: entry.created_at)` -/
def createdOrder (entries : List JobEntry) : List JobEntry :=
  (entries.filter fun e => e.status = .queued).insertionSort fun a b => a.createdAt ≤ b.createdAt

inductive SnapshotState where
  | agentStopped | agentStale | runnable | waiting | runningWithoutQueue | idle
  deriving DecidableEq, Repr

/-- What one node can still be given. -/
structure NodeCapacity where
  node : String
  drained : Bool
  available : Bool
  physicalFreeGpus : Option Nat
  schedulableFreeGpus : Int
  deriving DecidableEq, Repr

structure SchedulerSnapshot where
  state : SnapshotState
  idleReason : String
  running : Nat
  runnableQueued : Nat
  blockedQueued : Nat
  waitingQueued : Nat
  nextJobId : Option JobId
  nodes : List NodeCapacity
  queue : List (JobEntry × Explanation)

def Forecast.start (entries : List JobEntry) (resources : Option (List Resource))
    (registryDamage : Nat) (now : Time) : Forecast where
  running := occupancy entries now + registryDamage
  capacity := resources.map resourceCapacity

def schedulerSnapshot (cfg : SchedulerConfig) (entries : List JobEntry)
    (resources : Option (List Resource)) (agentAlive agentHeartbeatStale : Option Bool)
    (registryDamage : Nat) (now : Time) : SchedulerSnapshot :=
  let start := Forecast.start entries resources registryDamage now
  let walked := walk (fun _ => explain cfg entries) (fun _ => false) 0 start (createdOrder entries)
  let rows := walked.2
  let runnable := rows.filter fun r => r.2.state = .runnable
  let blocked := rows.filter fun r => startsWith r.2.state.text "blocked_"
  let summary := if !rows.isEmpty && agentAlive = some false then
      (SnapshotState.agentStopped, "queued work cannot dispatch because the agent is stopped")
    else if !rows.isEmpty && agentHeartbeatStale = some true then
      (.agentStale, "agent lock exists but its heartbeat is stale")
    else if !runnable.isEmpty then
      (.runnable, toString runnable.length ++ " queued job(s) are runnable in this snapshot")
    else match rows.head? with
    | some r => (.waiting, r.2.reason)
    | none =>
      if start.running ≠ 0 then (.runningWithoutQueue, "running work has no queued successor")
      else (.idle, "queue is empty")
  { state := summary.1
    idleReason := summary.2
    running := start.running
    runnableQueued := runnable.length
    blockedQueued := blocked.length
    waitingQueued := rows.length - runnable.length - blocked.length
    nextJobId := (runnable.head?.or rows.head?).map (·.1.jobId)
    nodes := match start.capacity, walked.1.capacity with
      | some before, some after => cfg.nodes.map fun n =>
        { node := n.name
          drained := n.drained
          available := (before.total n.name).isSome
          physicalFreeGpus := before.free n.name
          schedulableFreeGpus := if n.drained then 0
            else max 0 (((after.free n.name).getD 0 : Int) - max 0 cfg.reserveFreePerNode) }
      | _, _ => []
    queue := rows }

/-! ## What the rows before a runnable one can be -/

/-- What the walk over the queue only adds to. -/
structure Forecast.Le (f g : Forecast) : Prop where
  running : f.running ≤ g.running
  capacity : g.capacity.isSome = f.capacity.isSome
  wait : f.unpinnedCapacityWait.isSome = true → g.unpinnedCapacityWait.isSome = true
  pins : ∀ pin, (f.busyPins.lookup pin).isSome = true → (g.busyPins.lookup pin).isSome = true

theorem Forecast.Le.refl (f : Forecast) : f.Le f := ⟨le_rfl, rfl, id, fun _ => id⟩

theorem Forecast.Le.trans (f g h : Forecast) (hfg : f.Le g) (hgh : g.Le h) : f.Le h where
  running := hfg.running.trans hgh.running
  capacity := hgh.capacity.trans hfg.capacity
  wait := hgh.wait ∘ hfg.wait
  pins pin := hgh.pins pin ∘ hfg.pins pin

theorem Forecast.consume_le (f : Forecast) (e : JobEntry) (x : Explanation) : f.Le (f.consume e x) := by
  have hcap : (f.taken e x.selectedNode).isSome = f.capacity.isSome := by
    cases x.selectedNode <;> simp [Forecast.taken]
  unfold Forecast.consume
  split
  · exact ⟨Nat.le_succ _, hcap, id, fun _ => id⟩
  · exact ⟨le_rfl, hcap, id, fun _ => id⟩
  · exact .refl f

theorem Forecast.wait_le (f : Forecast) (e : JobEntry) (x : Explanation) : f.Le (f.wait e x) := by
  unfold Forecast.wait
  split
  · split
    · exact ⟨le_rfl, rfl, fun _ => rfl, fun _ => id⟩
    · refine ⟨le_rfl, rfl, id, fun pin h => ?_⟩
      dsimp only
      split
      · exact h
      · simp [List.lookup_append, h]
  · exact .refl f

variable {cfg : SchedulerConfig} {entries : List JobEntry} {f : Forecast} {e : JobEntry}

theorem explain_le (cfg : SchedulerConfig) (entries : List JobEntry) (f : Forecast) (e : JobEntry) :
    f.Le (explain cfg entries f e).1 :=
  .trans _ _ _ (f.consume_le e _) (Forecast.wait_le _ e _)

/-- The states of a row that neither waits for cards nor is skipped: the explanation lets later GPU
work pass it. -/
def RowState.stuck : RowState → Bool
  | .dispatchReserved | .waitingNode | .waitingDisk | .waitingGpuInventory
  | .blockedResourceMismatch => true
  | _ => false

theorem capacityWait_cases {c : ResourceCapacity} {candidates reachable : List String} :
    (capacityWait cfg e c candidates reachable).state.stuck = true ∨
      (capacityWait cfg e c candidates reachable).state = .waitingCapacity := by
  unfold capacityWait
  dsimp only
  split
  · split
    · dsimp only
      split <;> exact .inl rfl
    · exact .inl rfl
  · exact .inr rfl

theorem capacityState_cases (cfg : SchedulerConfig) (e : JobEntry) (c : ResourceCapacity)
    (excluded : Finset String) :
    (capacityState cfg e c excluded).state.stuck = true ∨
      (capacityState cfg e c excluded).state = .waitingCapacity ∨
      (capacityState cfg e c excluded).state = .runnable ∨
      (capacityState cfg e c excluded).state = .blockedInvalidPin ∧
        ∃ pin, e.pinNode = some pin ∧ pin ∉ cfg.configured := by
  unfold capacityState
  dsimp only
  split
  · rename_i pin hpin
    obtain ⟨hp, hout⟩ := Option.filter_eq_some_iff.mp hpin
    exact .inr (.inr (.inr ⟨rfl, pin, hp, by simpa using hout⟩))
  split
  · split <;> exact .inl rfl
  split
  · exact .inl rfl
  split
  · exact .inl rfl
  split
  · exact .inr (.inr (.inl rfl))
  split
  · exact .inl rfl
  · exact capacityWait_cases.imp_right .inl

/-- A node that a capacity check selects is a candidate of the row. -/
theorem capacityState_runnable {c : ResourceCapacity} {excluded : Finset String}
    (h : (capacityState cfg e c excluded).state = .runnable) :
    ∃ node ∈ candidateNodes cfg e excluded,
      (capacityState cfg e c excluded).selectedNode = some node ∧
      ∀ pin ∈ e.pinNode, pin ∈ cfg.configured := by
  revert h
  unfold capacityState
  dsimp only
  split
  · exact fun h => nomatch h
  rename_i hpin
  split
  · split <;> exact fun h => nomatch h
  split
  · exact fun h => nomatch h
  split
  · exact fun h => nomatch h
  split
  · rename_i node hfind
    intro _
    have hmem := (List.mem_filter.mp (List.mem_of_find?_eq_some hfind)).1
    refine ⟨node, (List.mem_filter.mp hmem).1, rfl, fun pin hp => ?_⟩
    rw [Option.mem_def.mp hp] at hpin
    simpa using hpin
  split
  · exact fun h => nomatch h
  · intro h
    rcases capacityWait_cases with hs | hs <;> rw [h] at hs <;> cases hs

/-- Everything that makes a row runnable before its place in the queue is looked at. -/
structure FitsNow (cfg : SchedulerConfig) (entries : List JobEntry) (f : Forecast) (e : JobEntry)
    (x : Explanation) : Prop where
  released : dependencyState e entries = none
  unclaimed : e.dispatchNode = none ∧ e.dispatchToken = none
  room : ∀ cap ∈ cfg.maxMyJobs, f.running < cap
  placed : ∃ c, f.capacity = some c ∧ x = capacityState cfg e c (f.excluded e)

theorem rowState_runnable (h : (rowState cfg entries f e).state = .runnable) :
    FitsNow cfg entries f e (rowState cfg entries f e) := by
  revert h
  unfold rowState
  split
  · intro h
    cases h
  rename_i hdep
  split
  · intro h
    cases h
  split
  · intro h
    cases h
  rename_i hclaim
  split
  · intro h
    cases h
  rename_i hcap
  split
  · rename_i c hc
    intro _
    refine ⟨hdep, by simpa using hclaim, fun cap hmem => ?_, c, hc, rfl⟩
    rw [Option.mem_def.mp hmem] at hcap
    simpa using hcap
  · intro h
    cases h

theorem mem_candidateNodes {node : String} {excluded : Finset String}
    (h : node ∈ candidateNodes cfg e excluded) :
    (∀ pin ∈ e.pinNode, node = pin) ∧
      (e.pinNode = none → node ∈ cfg.configured ∧ node ∉ excluded) := by
  have hmem := (List.mem_filter.mp h).1
  cases hp : e.pinNode with
  | none =>
    simp only [hp, List.mem_filter, decide_eq_true_eq] at hmem
    exact ⟨by simp, fun _ => hmem⟩
  | some pin =>
    simp only [hp, List.mem_singleton] at hmem
    exact ⟨by simp [hmem], by simp⟩

theorem explain_of_ne {f : Forecast} (h : (rowState cfg entries f e).state ≠ .runnable) :
    (explain cfg entries f e).2 = rowState cfg entries f e := by
  simp [explain, h]

theorem explain_of_runnable {f : Forecast} (h : (rowState cfg entries f e).state = .runnable)
    (hg : 0 < e.gpusRequested) :
    (explain cfg entries f e).2 = rowState cfg entries f e ∧ f.fifoOwner e = none ∨
      (explain cfg entries f e).2.state = .waitingFifo ∧ (f.fifoOwner e).isSome = true := by
  cases ho : f.fifoOwner e with
  | none => exact .inl ⟨by simp [explain, ho], rfl⟩
  | some owner => exact .inr ⟨by simp [explain, h, hg, ho], rfl⟩

/-- A capacity wait of GPU work is remembered for the rows that follow. -/
theorem explain_waits (h : (rowState cfg entries f e).state = .waitingCapacity)
    (hg : 0 < e.gpusRequested) :
    (e.pinNode = none → (explain cfg entries f e).1.unpinnedCapacityWait.isSome = true) ∧
      ∀ pin ∈ e.pinNode, ((explain cfg entries f e).1.busyPins.lookup pin).isSome = true := by
  have hx : (explain cfg entries f e).2 = rowState cfg entries f e := explain_of_ne (by simp [h])
  have hf : (explain cfg entries f e).1 =
      (f.consume e (explain cfg entries f e).2).wait e (explain cfg entries f e).2 := rfl
  rw [hf, hx]
  generalize f.consume e (rowState cfg entries f e) = f'
  refine ⟨fun hp => by simp [Forecast.wait, h, hg, hp], fun pin hp => ?_⟩
  simp only [Forecast.wait, h, hg, Option.mem_def.mp hp, decide_true, Bool.and_self, if_true]
  split
  · assumption
  · simp [List.lookup_append]

/-- A GPU row that the walk calls runnable on a node. -/
structure RunsOn (cfg : SchedulerConfig) (entries : List JobEntry) (f : Forecast) (e : JobEntry)
    (node : String) : Prop where
  released : dependencyState e entries = none
  unclaimed : e.dispatchNode = none ∧ e.dispatchToken = none
  room : ∀ cap ∈ cfg.maxMyJobs, f.running < cap
  probed : f.capacity.isSome = true
  configured : node ∈ cfg.configured
  unawaited : f.unpinnedCapacityWait = none
  unpinned : f.busyPins.lookup node = none

theorem explain_runsOn {node : String} (h : (explain cfg entries f e).2.state = .runnable)
    (hnode : (explain cfg entries f e).2.selectedNode = some node) (hg : 0 < e.gpusRequested) :
    RunsOn cfg entries f e node := by
  have hrow : (rowState cfg entries f e).state = .runnable := by
    by_contra hne
    exact hne (explain_of_ne hne ▸ h)
  obtain ⟨heq, howner⟩ : (explain cfg entries f e).2 = rowState cfg entries f e ∧
      f.fifoOwner e = none := by
    refine (explain_of_runnable hrow hg).resolve_right fun hfifo => ?_
    rw [hfifo.1] at h
    cases h
  obtain ⟨hdep, hclaim, hroom, c, hc, hx⟩ := rowState_runnable hrow
  rw [heq, hx] at hnode
  rw [hx] at hrow
  obtain ⟨node', hmem, hsel, hpins⟩ := capacityState_runnable hrow
  obtain rfl : node' = node := by simpa [hsel] using hnode
  obtain ⟨hpinned, hfree⟩ := mem_candidateNodes hmem
  obtain ⟨hwait, hbusy⟩ := Option.or_eq_none_iff.mp howner
  refine ⟨hdep, hclaim, hroom, by simp [hc], ?_, hwait, ?_⟩
  · cases hp : e.pinNode with
    | none => exact (hfree hp).1
    | some pin => exact hpinned pin hp ▸ hpins pin hp
  · cases hp : e.pinNode with
    | none =>
      -- the pins of earlier waiters are excluded from an unpinned placement
      have hout := (hfree hp).2
      simp only [Forecast.excluded, hp, hg, Option.isNone_none, decide_true, Bool.and_self, if_true,
        Finset.mem_union, not_or, List.mem_toFinset] at hout
      rw [List.lookup_eq_none_iff]
      intro p hp'
      have hne : node' ≠ p.1 := by
        rintro rfl
        exact hout.2 (List.mem_map_of_mem hp')
      simpa using hne
    | some pin =>
      rw [hpinned pin hp]
      simpa [hp] using hbusy

theorem persistedWait_probed (h : persistedWait e false false = none) (probed : Bool) :
    persistedWait e probed false = none := by
  cases probed with
  | false => exact h
  | true =>
    unfold persistedWait at h ⊢
    dsimp only at h ⊢
    split at h
    · cases h
    · rename_i hb
      simpa using hb

/-- What an older row means for a candidate that it holds capacity against. -/
theorem holdsCapacity_spec {candidate older : JobEntry} {node : String}
    (h : holdsCapacity candidate entries node older = true) :
    dependencyState older entries = none ∧ persistedWait older false false = none ∧
      0 < older.gpusRequested ∧ (older.dispatchNode = none → ∀ pin ∈ older.pinNode, pin = node) := by
  simp only [holdsCapacity, Bool.and_eq_true, Option.isNone_iff_eq_none] at h
  obtain ⟨⟨hdep, hpers⟩, hover⟩ := h
  unfold capacityOverlaps at hover
  split at hover
  · cases hover
  rename_i hgpu
  simp only [Bool.or_eq_true, decide_eq_true_eq, not_or, not_le] at hgpu
  refine ⟨hdep, hpers, hgpu.1, fun hd pin hpin => ?_⟩
  simpa [hd, Option.mem_def.mp hpin] using hover

/-- A row that holds capacity against a later runnable one, and is not runnable itself, is stuck for
another reason than cards. -/
theorem stuck_of_holds {g : Forecast} {older : JobEntry} {node : String}
    (hB : RunsOn cfg entries g e node) (hle : (explain cfg entries f older).1.Le g)
    (hnot : (explain cfg entries f older).2.state ≠ .runnable)
    (hholds : holdsCapacity e entries node older = true) :
    (explain cfg entries f older).2.state.stuck = true := by
  obtain ⟨hdep, hpers, hg, hpin⟩ := holdsCapacity_spec hholds
  have hfg : f.Le g := .trans _ _ _ (explain_le cfg entries f older) hle
  obtain ⟨c, hc⟩ : ∃ c, f.capacity = some c :=
    Option.isSome_iff_exists.mp (hfg.capacity ▸ hB.probed)
  by_cases hclaim : older.dispatchNode.isSome = true ∨ older.dispatchToken.isSome = true
  · have hrow : (rowState cfg entries f older).state = .dispatchReserved := by
      simp [rowState, hdep, persistedWait_probed hpers, hclaim]
    rw [explain_of_ne (by simp [hrow]), hrow]
    rfl
  have hroom : cfg.maxMyJobs.filter (· ≤ f.running) = none := by
    refine Option.filter_eq_none_iff.mpr fun cap hcap => ?_
    simpa using hfg.running.trans_lt (hB.room cap hcap)
  have hrow : rowState cfg entries f older = capacityState cfg older c (f.excluded older) := by
    simp [rowState, hdep, persistedWait_probed hpers, hclaim, hroom, hc]
  simp only [not_or, Bool.not_eq_true, Option.isSome_eq_false_iff, Option.isNone_iff_eq_none] at hclaim
  have hpins := hpin hclaim.1
  rcases capacityState_cases cfg older c (f.excluded older) with hs | hs | hs | ⟨hs, pin, hp, hout⟩
  · rw [← hrow] at hs
    rwa [explain_of_ne]
    intro h
    rw [h] at hs
    cases hs
  · -- it would hold its cards against the later row
    obtain ⟨hfree, hbusy⟩ := explain_waits (hrow ▸ hs) hg
    cases hp : older.pinNode with
    | none => simpa [hB.unawaited] using hle.wait (hfree hp)
    | some pin =>
      have := hle.pins pin (hbusy pin hp)
      simp [hpins pin hp, hB.unpinned] at this
  · -- it would wait behind the row that the later one has to wait behind
    rw [← hrow] at hs
    rcases explain_of_runnable hs hg with ⟨hx, -⟩ | ⟨-, howner⟩
    · exact absurd (hx ▸ hs) hnot
    · rw [Forecast.fifoOwner, Option.isSome_or, Bool.or_eq_true] at howner
      rcases howner with howner | howner
      · simpa [hB.unawaited] using hfg.wait howner
      · rw [Option.isSome_bind] at howner
        obtain ⟨pin, hp, howner⟩ := (Option.any_eq_true _ _).mp howner
        have := hfg.pins pin howner
        simp [hpins pin hp, hB.unpinned] at this
  · exact absurd (hpins pin hp ▸ hB.configured) hout

/-! ## The explanation against the admission -/

theorem mem_createdOrder {e : JobEntry} (h : e ∈ createdOrder entries) : e.status = .queued := by
  have hmem := (List.mem_insertionSort _).mp h
  simpa using (List.mem_filter.mp hmem).2

/-- A queued row without a claim holds no slot. -/
theorem not_occupies_unclaimed {now : Time} (hq : e.status = .queued)
    (h : e.dispatchNode = none ∧ e.dispatchToken = none) : occupiesQuota e now = false := by
  simp [occupiesQuota, isUncertainLaunch, lostReconciling, hq, h]

/-- The first GPU row that the explanation calls runnable is admitted on the selected node, then or
later, exactly if no row before it in the order of admission holds capacity there. A row that the
explanation has put before it can only do so while it is stuck for another reason than cards. -/
theorem runnable_admitted_iff (cfg : SchedulerConfig) (entries : List JobEntry)
    (resources : Option (List Resource)) (alive stale : Option Bool) (damage : Nat)
    {now now' : Time} (hnow : now ≤ now') {k : Nat} {e : JobEntry} {x : Explanation} {node : String}
    (hrow : (schedulerSnapshot cfg entries resources alive stale damage now).queue[k]? = some (e, x))
    (hrun : x.state = .runnable) (hnode : x.selectedNode = some node) (hg : 0 < e.gpusRequested)
    (hfirst : ∀ j < k, ∀ older y,
      (schedulerSnapshot cfg entries resources alive stale damage now).queue[j]? = some (older, y) →
      0 < older.gpusRequested → y.state ≠ .runnable) :
    ((admissionDecision cfg.maxMyJobs e entries node damage true now').allowed = true ↔
      ∀ older ∈ (fifo entries).takeWhile (·.jobId ≠ e.jobId),
        holdsCapacity e entries node older = false) ∧
    ∀ j < k, ∀ older y,
      (schedulerSnapshot cfg entries resources alive stale damage now).queue[j]? = some (older, y) →
      holdsCapacity e entries node older = true → y.state.stuck = true := by
  have htrail : Trail (fun _ => explain cfg entries) 0 (.start entries resources damage now)
      (schedulerSnapshot cfg entries resources alive stale damage now).queue _ :=
    walk_trail (fun _ => false) 0 _ (createdOrder entries)
  constructor
  · obtain ⟨g, hg', hx, -⟩ := htrail.cut hrow
    subst hx
    have hB := explain_runsOn hrun hnode hg
    have hle := hg'.rel Forecast.Le.refl Forecast.Le.trans fun _ => explain_le cfg entries
    have hq : e.status = .queued := by
      have hpre : (schedulerSnapshot cfg entries resources alive stale damage now).queue.map
          Prod.fst <+: createdOrder entries := walk_prefix (fun _ => false) 0 _ _
      exact mem_createdOrder (hpre.subset (List.mem_map_of_mem (List.mem_of_getElem? hrow)))
    have hroom : hasRoom cfg.maxMyJobs e entries damage now' = true := by
      simp only [hasRoom, not_occupies_unclaimed hq hB.unclaimed, Bool.false_eq_true, if_false,
        Bool.not_eq_true', Option.any_eq_false, decide_eq_false_iff_not, not_le]
      intro cap hcap
      have hocc : occupancy entries now' ≤ occupancy entries now := occupancy_anti hnow
      have hrunning : occupancy entries now + damage ≤ g.running := hle.running
      have := hB.room cap hcap
      omega
    rw [admissionDecision_allowed_iff, fifoBlocker_eq, List.find?_eq_none]
    simp [hB.released, hroom]
  · intro j hj older y hy hholds
    obtain ⟨f, g, -, hy', hle, -, hx⟩ := htrail.earlier Forecast.Le.refl Forecast.Le.trans
      (fun _ => explain_le cfg entries) hj hy hrow
    subst hy' hx
    exact stuck_of_holds (explain_runsOn hrun hnode hg) hle
      (hfirst j hj older _ hy (holdsCapacity_spec hholds).2.2.1) hholds

def SchedulerConfig.sample : SchedulerConfig where
  nodes := [{ name := "n1" }, { name := "n2" }]

/-- A node with one card. -/
def Resource.sample (node : String) (free : Bool) : Resource where
  node := some node
  gpus := some [some { memTotalMib := .number 1000, free := free }]

/-- A GPU job behind one that waits for a card of its pin, `n2`. -/
theorem runnable_behind_busy_pin_admitted :
    (admissionDecision none { JobEntry.sample "b" with createdAt := 1001 }
      [{ JobEntry.sample "a" with pinNode := some "n2" },
        { JobEntry.sample "b" with createdAt := 1001 }] "n1" 0 true 2000).allowed = true := by
  have hrow : (schedulerSnapshot .sample [{ JobEntry.sample "a" with pinNode := some "n2" },
      { JobEntry.sample "b" with createdAt := 1001 }]
      (some [.sample "n1" true, .sample "n2" false]) (some true) none 0 2000).queue[1]? =
      some ({ JobEntry.sample "b" with createdAt := 1001 },
        { state := .runnable
          reason := "n1 currently satisfies the resource request"
          nextCondition := "the live agent can dispatch this job now"
          selectedNode := some "n1" }) := by
    decide +kernel
  refine (runnable_admitted_iff .sample _ _ (some true) none 0 le_rfl hrow rfl rfl (by decide)
    ?_).1.mpr (by decide +kernel)
  intro j hj older y hy _ hrun
  obtain rfl : j = 0 := by omega
  have hstate : ((schedulerSnapshot .sample [{ JobEntry.sample "a" with pinNode := some "n2" },
      { JobEntry.sample "b" with createdAt := 1001 }]
      (some [.sample "n1" true, .sample "n2" false]) (some true) none 0 2000).queue[0]?).map
        (·.2.state) = some .waitingCapacity := by
    decide +kernel
  rw [hy] at hstate
  simp [hrun] at hstate

/-- A job that asks for more cards than any node has is not a capacity wait for the explanation,
which promises `n1` to the job behind it; admission reserves `n1` for it. -/
theorem runnable_behind_mismatch_refused :
    ((schedulerSnapshot .sample [{ JobEntry.sample "a" with gpusRequested := 8 },
        { JobEntry.sample "b" with createdAt := 1001 }]
        (some [.sample "n1" true, .sample "n2" false]) (some true) none 0 2000).queue.map
          fun r => (r.1.jobId, r.2.state, r.2.selectedNode)) =
      [("a", .blockedResourceMismatch, none), ("b", .runnable, some "n1")] ∧
    (admissionDecision none { JobEntry.sample "b" with createdAt := 1001 }
      [{ JobEntry.sample "a" with gpusRequested := 8 },
        { JobEntry.sample "b" with createdAt := 1001 }] "n1" 0 true 2000) =
      ⟨false, "waiting_fifo", "FIFO capacity is reserved for earlier job a", some "a"⟩ := by
  decide +kernel

end Dt.Scheduler
