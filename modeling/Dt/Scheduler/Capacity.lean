import Mathlib
import Dt.Jobs.Valid
import Dt.Scheduler.Snapshot

/-!
# The capacity view and the placement view

The explanation of a queue and the placement of a job decide from one probe of the fleet where a job
fits, each by a rule of its own. The explanation reads the probe as the rows that `dt free` prints,
placement reads the statuses themselves.

Both rules ask the same of one node, `fits`, except that the rows are tested for the truth of an
error and the statuses for its presence: an error without a text hides a node from placement only.
-/

namespace Dt.Scheduler

open Dt.Lib Dt.Jobs Dt.Dispatch

/-! ## One probe, two readings -/

/-- `status_as_dict`, as far as the scheduler reads a row. It tests errors for truth, so one without
a text is none. -/
def statusRow (s : NodeStatus) : Resource where
  node := some s.node
  error := s.error.any (· ≠ "")
  gpus := some (s.gpus.map fun g => some { memTotal := .number g.memTotalMib, free := g.free })
  gpuInventoryError := s.gpuInventoryError.any (· ≠ "")
  diskFreeGib := match s.system with
    | some system => .number system.diskFreeGib
    | none => .absent

/-- `_reserve_for`. -/
def placementReserve (cfg : SchedulerConfig) (spec : RunSpec) : Int :=
  if (spec.node.filter (· ≠ "")).isSome then 0 else cfg.reserveFreePerNode

/-- `pin_is_busy`. -/
def pinIsBusy (statuses : List NodeStatus) (spec : RunSpec) : Bool :=
  match spec.node.filter (· ≠ "") with
  | none => false
  | some pin =>
    if spec.gpus ≤ 0 then false
    else match statuses.find? (·.node = pin) with
    | none => false
    | some s => s.error.isNone && decide ((eligibleFreeGpus s spec).length < spec.gpus)

/-- The nodes that `_capacity_state` calls fitting. -/
def fittingNodes (cfg : SchedulerConfig) (e : JobEntry) (c : ResourceCapacity)
    (excluded : Finset String) : List String :=
  (((candidateNodes cfg e excluded).filter fun node => (c.total node).isSome).filter
    (gpuFit cfg e c)).filter (diskOk cfg e c)

/-- A probe of a fleet: one status for each node, as `probe_center` returns it. -/
structure ProbeSet where
  statuses : List NodeStatus
  nodup : (statuses.map (·.node)).Nodup
  named : ∀ s ∈ statuses, s.node ≠ ""
  disk_nonneg : ∀ s ∈ statuses, ∀ system ∈ s.system, 0 ≤ system.diskFreeGib

theorem ProbeSet.find_status (p : ProbeSet) {s : NodeStatus} {name : String} (hs : s ∈ p.statuses)
    (hname : s.node = name) : p.statuses.find? (·.node = name) = some s := by
  cases hf : p.statuses.find? (·.node = name) with
  | none =>
    have hnone := List.find?_eq_none.mp hf s hs
    simp [hname] at hnone
  | some t =>
    have ht : t.node = name := by simpa using List.find?_some hf
    rw [List.inj_on_of_nodup_map p.nodup (List.mem_of_find?_eq_some hf) hs (ht.trans hname.symm)]

/-- A configuration that the loader accepts. -/
structure FleetConfig extends SchedulerConfig where
  nodup : (nodes.map fun n => n.name).Nodup
  reserve_nonneg : 0 ≤ reserveFreePerNode
  disk_nonneg : 0 ≤ diskMinGib

/-! ## What one node has to offer -/

/-- The rule of both views for one status. -/
def fits (cfg : SchedulerConfig) (e : JobEntry) (excluded : Finset String) (s : NodeStatus) : Bool :=
  let spec := queuedRunSpec cfg.diskMinGib e
  s.error.isNone && !diskRejected s spec && (nodeNamed cfg.nodes s.node).any (!·.drained) &&
    (e.pinNode.all (· = s.node)) && (e.pinNode.isSome || decide (s.node ∉ excluded)) &&
    (e.gpusRequested = 0 || decide (e.gpusRequested ≤ (eligibleFreeGpus s spec).length) &&
      decide (placementReserve cfg spec ≤ s.freeGpus.length - e.gpusRequested))

/-- A status without its errors that have no text. -/
def withText (s : NodeStatus) : NodeStatus :=
  { s with
    error := s.error.filter (· ≠ "")
    gpuInventoryError := s.gpuInventoryError.filter (· ≠ "") }

variable {cfg : SchedulerConfig} {e : JobEntry} {excluded : Finset String} {name : String}

/-! ## The capacity of a node -/

/-- Two capacities say the same about a node. -/
structure SameAt (name : String) (c c' : ResourceCapacity) : Prop where
  total : c'.total name = c.total name
  free : c'.free name = c.free name
  freeGpuMemoryMib : c'.freeGpuMemoryMib name = c.freeGpuMemoryMib name
  diskFree : c'.diskFree name = c.diskFree name
  gpuInventoryUnknown : name ∈ c'.gpuInventoryUnknown ↔ name ∈ c.gpuInventoryUnknown
  unavailable : name ∈ c'.unavailable ↔ name ∈ c.unavailable

theorem SameAt.refl (name : String) (c : ResourceCapacity) : SameAt name c c :=
  ⟨rfl, rfl, rfl, rfl, .rfl, .rfl⟩

theorem SameAt.trans {c c' c'' : ResourceCapacity} (h : SameAt name c c') (h' : SameAt name c' c'') :
    SameAt name c c'' where
  total := h'.total.trans h.total
  free := h'.free.trans h.free
  freeGpuMemoryMib := h'.freeGpuMemoryMib.trans h.freeGpuMemoryMib
  diskFree := h'.diskFree.trans h.diskFree
  gpuInventoryUnknown := h'.gpuInventoryUnknown.trans h.gpuInventoryUnknown
  unavailable := h'.unavailable.trans h.unavailable

theorem add_sameAt (c : ResourceCapacity) {r : Resource} (h : r.node ≠ some name) :
    SameAt name c (c.add r) := by
  unfold ResourceCapacity.add
  split
  · exact .refl name c
  · rename_i node hnode
    have hne : name ≠ node := fun hn => h (hn ▸ hnode)
    split
    · exact .refl name c
    · split
      · exact { SameAt.refl name c with unavailable := by simp [hne] }
      · refine ⟨Function.update_of_ne hne _ _, Function.update_of_ne hne _ _,
          Function.update_of_ne hne _ _, ?_, ?_, .rfl⟩
        · cases r.diskFreeGib with
          | number q => exact Function.update_of_ne hne _ _
          | absent => rfl
          | other => rfl
        · dsimp only
          split
          · simp [hne]
          · exact .rfl

/-- The row of a node is all that its capacity depends on. -/
theorem SameAt.add {c c' : ResourceCapacity} (h : SameAt name c c') {r : Resource}
    (hr : r.node = some name) : SameAt name (c.add r) (c'.add r) := by
  unfold ResourceCapacity.add
  rw [hr]
  dsimp only
  split
  · exact h
  · split
    · exact { h with unavailable := by simp }
    · refine ⟨by simp, by simp, by simp, ?_, ?_, h.unavailable⟩
      · cases r.diskFreeGib with
        | number q => simp
        | absent => exact h.diskFree
        | other => exact h.diskFree
      · dsimp only
        split
        · simp
        · exact h.gpuInventoryUnknown

theorem foldl_sameAt (rows : List Resource) (c : ResourceCapacity)
    (h : ∀ r ∈ rows, r.node ≠ some name) : SameAt name c (rows.foldl ResourceCapacity.add c) := by
  induction rows generalizing c with
  | nil => exact .refl name c
  | cons r rows ih =>
    exact (add_sameAt c (h r List.mem_cons_self)).trans
      (ih (c.add r) fun r' hr' => h r' (List.mem_cons_of_mem r hr'))

/-- What a capacity says about a node whose only status is `s`. -/
theorem capacity_sameAt (p : ProbeSet) {s : NodeStatus} (hs : s ∈ p.statuses) :
    SameAt s.node (ResourceCapacity.add {} (statusRow s))
      (resourceCapacity (p.statuses.map statusRow)) := by
  obtain ⟨before, after, heq⟩ := List.append_of_mem hs
  have hnodup := p.nodup
  rw [heq, List.map_append, List.map_cons, List.nodup_append, List.nodup_cons] at hnodup
  obtain ⟨-, ⟨hafter, -⟩, hdisj⟩ := hnodup
  have hbefore : ∀ r ∈ before.map statusRow, r.node ≠ some s.node := by
    intro r hr
    obtain ⟨t, ht, rfl⟩ := List.mem_map.mp hr
    intro hn
    exact hdisj t.node (List.mem_map_of_mem ht) s.node List.mem_cons_self (Option.some.inj hn)
  have hrest : ∀ r ∈ after.map statusRow, r.node ≠ some s.node := by
    intro r hr
    obtain ⟨t, ht, rfl⟩ := List.mem_map.mp hr
    intro hn
    exact hafter (Option.some.inj hn ▸ List.mem_map_of_mem ht)
  have h₁ := foldl_sameAt (before.map statusRow) {} hbefore
  have h₂ := foldl_sameAt (after.map statusRow)
    (((before.map statusRow).foldl ResourceCapacity.add {}).add (statusRow s)) hrest
  unfold resourceCapacity
  rw [heq, List.map_append, List.map_cons, List.foldl_append, List.foldl_cons]
  exact (h₁.add rfl).trans h₂

theorem capacity_absent (p : ProbeSet) (h : name ∉ p.statuses.map (·.node)) :
    (resourceCapacity (p.statuses.map statusRow)).total name = none := by
  have hsame : SameAt name {} (resourceCapacity (p.statuses.map statusRow)) := by
    refine foldl_sameAt _ {} fun r hr hn => h ?_
    obtain ⟨s, hs, rfl⟩ := List.mem_map.mp hr
    exact Option.some.inj hn ▸ List.mem_map_of_mem hs
  exact hsame.total

/-- A node with an error that has a text has no capacity. -/
theorem capacity_of_error (p : ProbeSet) {s : NodeStatus} (hs : s ∈ p.statuses)
    (herr : (withText s).error.isSome) :
    (resourceCapacity (p.statuses.map statusRow)).total s.node = none := by
  have hsame := capacity_sameAt p hs
  rw [hsame.total]
  have hrow : (statusRow s).error = true := by
    simpa [statusRow, withText, Option.isSome_filter] using herr
  simp [ResourceCapacity.add, statusRow, p.named s hs] at hrow ⊢
  simp [hrow]

/-- The memory of the free cards, as the rows have it. -/
def freeMemory (s : NodeStatus) : List (Option Int) :=
  s.freeGpus.map fun g => if 0 < g.memTotalMib then some g.memTotalMib else none

/-- What a node without such an error offers. -/
structure Offers (c : ResourceCapacity) (s : NodeStatus) : Prop where
  total : (c.total s.node).isSome
  free : c.free s.node = some s.freeGpus.length
  freeGpuMemoryMib : c.freeGpuMemoryMib s.node = some (freeMemory s)
  diskFree : c.diskFree s.node = s.system.map (·.diskFreeGib)
  gpuInventoryUnknown : s.node ∈ c.gpuInventoryUnknown ↔ (withText s).gpuInventoryError.isSome
  unavailable : s.node ∉ c.unavailable

/-- One card of a row. -/
def cardRow (g : Gpu) : ResourceGpu := { memTotal := .number g.memTotalMib, free := g.free }

theorem gpuTotalMib_cardRow (g : Gpu) :
    gpuTotalMib (cardRow g) = if 0 < g.memTotalMib then some g.memTotalMib else none := by
  simp [gpuTotalMib, cardRow]

theorem freeMemory_eq (s : NodeStatus) :
    ((((s.gpus.map fun g => some (cardRow g)).filterMap id).filter (·.free)).map gpuTotalMib) =
      freeMemory s := by
  have hcards : (s.gpus.map fun g => some (cardRow g)).filterMap id = s.gpus.map cardRow := by
    rw [List.filterMap_map]
    exact congrFun List.filterMap_eq_map' s.gpus
  rw [hcards, List.filter_map, List.map_map]
  exact List.map_congr_left fun g _ => gpuTotalMib_cardRow g

theorem capacity_of_ok (p : ProbeSet) {s : NodeStatus} (hs : s ∈ p.statuses)
    (herr : (withText s).error = none) :
    Offers (resourceCapacity (p.statuses.map statusRow)) s := by
  have hsame := capacity_sameAt p hs
  have hrow : (statusRow s).error = false := by
    cases hs' : s.error with
    | none => simp [statusRow, hs']
    | some text => simpa [statusRow, hs', withText, Option.filter_eq_none_iff] using herr
  have hfree : (((((statusRow s).gpus.getD []).filterMap id).filter (·.free)).map gpuTotalMib) =
      freeMemory s := freeMemory_eq s
  have hmalformed : (((statusRow s).gpus.getD []).any (·.isNone) || (statusRow s).gpus.isNone ||
      (statusRow s).gpuInventoryError) = (withText s).gpuInventoryError.isSome := by
    cases hi : s.gpuInventoryError with
    | none => simp [statusRow, withText, hi]
    | some text => simp [statusRow, withText, hi, Option.isSome_filter]
  have hadd : Offers (ResourceCapacity.add {} (statusRow s)) s := by
    unfold ResourceCapacity.add
    simp only [show (statusRow s).node = some s.node from rfl, p.named s hs, if_false, hrow,
      Bool.false_eq_true, hfree, hmalformed]
    refine ⟨by simp, by simp [freeMemory], by simp, ?_, ?_, by simp⟩
    · cases hy : s.system <;> simp [statusRow, hy]
    · cases (withText s).gpuInventoryError <;> simp
  exact { total := by rw [hsame.total]; exact hadd.total
          free := hsame.free.trans hadd.free
          freeGpuMemoryMib := hsame.freeGpuMemoryMib.trans hadd.freeGpuMemoryMib
          diskFree := hsame.diskFree.trans hadd.diskFree
          gpuInventoryUnknown := hsame.gpuInventoryUnknown.trans hadd.gpuInventoryUnknown
          unavailable := fun h => hadd.unavailable (hsame.unavailable.mp h) }

/-! ## The rules agree on one node -/

/-- The free cards that have the memory a row asks for. -/
theorem fittingCards_freeMemory (e : JobEntry) (hmin : ∀ m ∈ e.minVramMib, 0 < m) (s : NodeStatus)
    (minimum : Int) (hm : e.minVramMib = some minimum) :
    fittingCards e (freeMemory s) = (s.freeGpus.filter (minimum ≤ ·.memTotalMib)).length := by
  have hpos := hmin minimum hm
  unfold fittingCards freeMemory
  rw [List.countP_map, List.countP_eq_length_filter]
  congr 1
  refine List.filter_congr fun g _ => ?_
  simp only [hm, Function.comp_apply, Option.all_some]
  split
  · rfl
  · rename_i hneg
    have : ¬ minimum ≤ g.memTotalMib := by omega
    simp [this]

theorem gpuFit_eq {c : ResourceCapacity} {s : NodeStatus} (ho : Offers c s)
    (hgpus : 0 ≤ e.gpusRequested) (hmin : ∀ m ∈ e.minVramMib, 0 < m)
    (hreserve : reserveFor cfg e = placementReserve cfg (queuedRunSpec cfg.diskMinGib e)) :
    gpuFit cfg e c s.node = (e.gpusRequested = 0 ||
      decide (e.gpusRequested ≤ (eligibleFreeGpus (withText s)
        (queuedRunSpec cfg.diskMinGib e)).length) &&
      decide (placementReserve cfg (queuedRunSpec cfg.diskMinGib e) ≤
        (withText s).freeGpus.length - e.gpusRequested) : Bool) := by
  have hwanted : wantedGpus e = e.gpusRequested := max_eq_right hgpus
  unfold gpuFit
  simp only [ho.free, ho.freeGpuMemoryMib, Option.getD_some, hwanted, hreserve]
  by_cases hzero : e.gpusRequested = 0
  · simp [hzero]
  have hpos : 0 < e.gpusRequested := by omega
  have hcards : (withText s).freeGpus = s.freeGpus := rfl
  rw [if_neg hzero]
  by_cases hinv : (withText s).gpuInventoryError.isSome
  · -- without an inventory no card is eligible
    have hnone : eligibleFreeGpus (withText s) (queuedRunSpec cfg.diskMinGib e) = [] := by
      simp [eligibleFreeGpus, queuedRunSpec, hpos, hinv]
    rw [if_pos (ho.gpuInventoryUnknown.mpr hinv), hnone]
    simp [hzero]
    omega
  · rw [if_neg fun h => hinv (ho.gpuInventoryUnknown.mp h)]
    cases hm : e.minVramMib with
    | none =>
      have heligible : eligibleFreeGpus (withText s) (queuedRunSpec cfg.diskMinGib e) = s.freeGpus := by
        simp only [eligibleFreeGpus, queuedRunSpec, hinv, hm, Bool.and_false, Bool.false_eq_true,
          if_false]
        rfl
      rw [heligible, hcards]
      simp only [hzero, decide_false, Bool.false_or]
      split
      · rename_i hlt
        simp [Int.not_le.mpr hlt]
      · rename_i hge
        simp [Int.not_lt.mp hge]
    | some minimum =>
      have heligible : eligibleFreeGpus (withText s) (queuedRunSpec cfg.diskMinGib e) =
          s.freeGpus.filter (minimum ≤ ·.memTotalMib) := by
        simp only [eligibleFreeGpus, queuedRunSpec, hinv, hm, Bool.and_false, Bool.false_eq_true,
          if_false]
        rfl
      rw [heligible, hcards]
      simp only [hzero, decide_false, Bool.false_or, fittingCards_freeMemory e hmin s minimum hm]
      split
      · rename_i hlt
        simp [Int.not_le.mpr hlt]
      · rename_i hge
        simp [Int.not_lt.mp hge]

/-- The floor of the explanation is the floor of the request; a floor of zero is no request. -/
theorem requiredDisk_le_iff {disk : ℚ} (hdisk : 0 ≤ disk) :
    (requiredDisk cfg e : ℚ) ≤ disk ↔
      ∀ required ∈ (queuedRunSpec cfg.diskMinGib e).requireDiskGib, (required : ℚ) ≤ disk := by
  have hmax : (requiredDisk cfg e : ℚ) ≤ disk ↔
      ((max cfg.diskMinGib (e.requireDiskGib.getD 0) : Int) : ℚ) ≤ disk := by
    unfold requiredDisk
    rw [Int.cast_max, Int.cast_zero, max_le_iff]
    exact and_iff_right hdisk
  rw [hmax]
  simp only [queuedRunSpec]
  by_cases hfloor : max cfg.diskMinGib (e.requireDiskGib.getD 0) = 0
  · simp [hfloor, hdisk]
  · simp [hfloor]

theorem diskRejected_eq_false_iff {s : NodeStatus} {spec : RunSpec} (herr : s.error = none) :
    diskRejected s spec = false ↔
      ∀ system ∈ s.system, ∀ required ∈ spec.requireDiskGib, (required : ℚ) ≤ system.diskFreeGib := by
  unfold diskRejected
  cases hy : s.system with
  | none => simp
  | some system =>
    cases spec.requireDiskGib with
    | none => simp
    | some required => simp [herr]

theorem diskOk_eq {c : ResourceCapacity} {s : NodeStatus} (ho : Offers c s)
    (herr : (withText s).error = none) (hdisk : ∀ system ∈ s.system, 0 ≤ system.diskFreeGib) :
    diskOk cfg e c s.node = !diskRejected (withText s) (queuedRunSpec cfg.diskMinGib e) := by
  rw [Bool.eq_iff_iff, Bool.not_eq_true', diskRejected_eq_false_iff herr]
  unfold diskOk
  rw [ho.diskFree, show (withText s).system = s.system from rfl]
  cases hy : s.system with
  | none => simp
  | some system =>
    rw [Option.map_some, Option.all_some, decide_eq_true_iff,
      requiredDisk_le_iff (hdisk system hy)]
    simp

theorem nodeNamed_undrained (cfg : FleetConfig) (name : String) :
    (nodeNamed cfg.nodes name).any (!·.drained) = true ↔
      name ∈ cfg.configured ∧ name ∉ cfg.drained := by
  have hunique : ∀ {n m : CenterNode}, n ∈ cfg.nodes → m ∈ cfg.nodes → n.name = m.name → n = m :=
    fun hn hm => List.inj_on_of_nodup_map cfg.nodup hn hm
  simp only [Option.any_eq_true, Bool.not_eq_true', SchedulerConfig.configured,
    SchedulerConfig.drained, List.mem_map, List.mem_filter, not_exists, not_and]
  constructor
  · rintro ⟨n, hn, hd⟩
    have hmem : n ∈ cfg.nodes := List.mem_reverse.mp (List.mem_of_find?_eq_some hn)
    refine ⟨⟨n, hmem, nodeNamed_name hn⟩, fun m hm hname => ?_⟩
    rw [hunique hm.1 hmem (hname.trans (nodeNamed_name hn).symm), hd] at hm
    cases hm.2
  · rintro ⟨⟨n, hn, hname⟩, hdrained⟩
    cases hf : nodeNamed cfg.nodes name with
    | none =>
      have := List.find?_eq_none.mp hf n (List.mem_reverse.mpr hn)
      simp [hname] at this
    | some m =>
      have hmem : m ∈ cfg.nodes := List.mem_reverse.mp (List.mem_of_find?_eq_some hf)
      refine ⟨m, rfl, ?_⟩
      by_contra hd
      exact hdrained m ⟨hmem, by simpa using hd⟩ (nodeNamed_name hf)

/-- A reserve is kept for unpinned work only, in both views. -/
theorem reserveFor_eq (cfg : FleetConfig) (hpin : ∀ pin ∈ e.pinNode, pin ≠ "") :
    reserveFor cfg.toSchedulerConfig e =
      placementReserve cfg.toSchedulerConfig (queuedRunSpec cfg.diskMinGib e) := by
  unfold reserveFor placementReserve
  cases hp : e.pinNode with
  | none => simp [queuedRunSpec, hp, cfg.reserve_nonneg]
  | some pin => simp [queuedRunSpec, hp, hpin pin hp]

theorem mem_configured_candidates :
    (name ∈ candidateNodes cfg e excluded ∧ name ∈ cfg.configured) ↔
      (name ∈ cfg.configured ∧ name ∉ cfg.drained) ∧ e.pinNode.all (· = name) = true ∧
        (e.pinNode.isSome || decide (name ∉ excluded)) = true := by
  unfold candidateNodes
  cases e.pinNode with
  | none =>
    simp only [List.mem_filter, Option.all_none, Option.isSome_none, Bool.false_or,
      decide_eq_true_iff]
    tauto
  | some pin =>
    simp only [List.mem_filter, List.mem_singleton, Option.all_some, Option.isSome_some,
      Bool.true_or, decide_eq_true_iff, and_true]
    constructor
    · rintro ⟨⟨rfl, hd⟩, hc⟩
      exact ⟨⟨hc, hd⟩, rfl⟩
    · rintro ⟨⟨hc, hd⟩, rfl⟩
      exact ⟨⟨rfl, hd⟩, hc⟩

/-- What `_capacity_state` asks of the node of a status is what placement asks of the status. -/
theorem fits_withText_iff (cfg : FleetConfig) (p : ProbeSet) {s : NodeStatus} (hs : s ∈ p.statuses)
    (hfixed : FixedOk e) (hpin : ∀ pin ∈ e.pinNode, pin ≠ "") :
    (s.node ∈ fittingNodes cfg.toSchedulerConfig e (resourceCapacity (p.statuses.map statusRow))
        excluded ∧ s.node ∈ cfg.configured) ↔
      fits cfg.toSchedulerConfig e excluded (withText s) = true := by
  obtain ⟨-, -, hgpus, -, -, -, -, -, -, -, -, -, -, -, -, -, hmin, -⟩ := hfixed
  have hmin' : ∀ m ∈ e.minVramMib, 0 < m := by
    intro m hm
    simpa using any_eq_false_iff.mp hmin m hm
  have hname : (withText s).node = s.node := rfl
  by_cases herr : (withText s).error = none
  · have ho := capacity_of_ok p hs herr
    have hgpu := gpuFit_eq ho hgpus hmin' (reserveFor_eq cfg hpin)
    have hdisk := @diskOk_eq cfg.toSchedulerConfig e _ s ho herr (p.disk_nonneg s hs)
    have hnode := (nodeNamed_undrained cfg s.node)
    have hcand := @mem_configured_candidates cfg.toSchedulerConfig e excluded s.node
    unfold fittingNodes fits
    simp only [List.mem_filter, hgpu, hdisk, ho.total, herr, hname, Option.isNone_none,
      Bool.true_and, Bool.and_eq_true, hnode]
    rw [and_comm, and_assoc] at hcand
    tauto
  · have htotal := capacity_of_error p hs (Option.isSome_iff_ne_none.mpr herr)
    constructor
    · rintro ⟨hmem, -⟩
      simp only [fittingNodes, List.mem_filter, htotal] at hmem
      simp at hmem
    · intro hfit
      simp only [fits, Bool.and_eq_true, Option.isNone_iff_eq_none] at hfit
      exact absurd hfit.1.1.1.1.1 herr

/-- A configured node is called fitting exactly when the status of its name fits, apart from errors
that have no text. -/
theorem mem_fittingNodes (cfg : FleetConfig) (p : ProbeSet) (hfixed : FixedOk e)
    (hpin : ∀ pin ∈ e.pinNode, pin ≠ "") :
    (name ∈ fittingNodes cfg.toSchedulerConfig e (resourceCapacity (p.statuses.map statusRow))
        excluded ∧ name ∈ cfg.configured) ↔
      ∃ s ∈ p.statuses, s.node = name ∧
        fits cfg.toSchedulerConfig e excluded (withText s) = true := by
  constructor
  · intro h
    have hprobed : name ∈ p.statuses.map (·.node) := by
      by_contra habsent
      have hmem := h.1
      simp only [fittingNodes, List.mem_filter, capacity_absent p habsent] at hmem
      simp at hmem
    obtain ⟨s, hs, rfl⟩ := List.mem_map.mp hprobed
    exact ⟨s, hs, rfl, (fits_withText_iff cfg p hs hfixed hpin).mp h⟩
  · rintro ⟨s, hs, rfl, hfit⟩
    exact (fits_withText_iff cfg p hs hfixed hpin).mpr hfit

/-! ## Placement -/

/-- Nodes an unpinned row is not placed on: those that are reserved, and its own exclusions. -/
def excludedFor (e : JobEntry) (reserved : Finset String) : Finset String :=
  reserved ∪ (e.excludeNodes.getD []).toFinset

/-- The names `pick_candidates` returns for a queued row; an unknown pin raises and returns none. -/
def candidateNames (cfg : SchedulerConfig) (p : ProbeSet) (e : JobEntry)
    (reserved : Finset String) : List String :=
  let spec := queuedRunSpec cfg.diskMinGib e
  match pickCandidates p.statuses cfg.nodes spec (placementReserve cfg spec) reserved with
  | .ok candidates => candidates.map fun n => n.name
  | .error _ => []

/-- The names of the nodes that some statuses have in a configuration. -/
theorem mem_map_nodeNamed {statuses : List NodeStatus} {nodes : List CenterNode}
    (hnodes : ∀ s ∈ statuses, (nodeNamed nodes s.node).isSome) :
    name ∈ (statuses.filterMap (nodeNamed nodes ·.node)).map (fun n => n.name) ↔
      ∃ s ∈ statuses, s.node = name := by
  simp only [List.mem_map, List.mem_filterMap]
  constructor
  · rintro ⟨n, ⟨s, hs, hn⟩, rfl⟩
    exact ⟨s, hs, (nodeNamed_name hn).symm⟩
  · rintro ⟨s, hs, rfl⟩
    obtain ⟨n, hn⟩ := Option.isSome_iff_exists.mp (hnodes s hs)
    exact ⟨n, ⟨s, hs, hn⟩, nodeNamed_name hn⟩

/-- Without a pin, a status fits when it is usable and has the cards. -/
theorem fits_unpinned (hpin : e.pinNode = none) {s : NodeStatus} {p : ProbeSet}
    {reserved : Finset String} :
    (s ∈ p.statuses ∧ fits cfg e (excludedFor e reserved) s = true) ↔
      s ∈ usable p.statuses cfg.nodes (queuedRunSpec cfg.diskMinGib e) (excludedFor e reserved) ∧
        (e.gpusRequested = 0 ∨ e.gpusRequested ≤
            (eligibleFreeGpus s (queuedRunSpec cfg.diskMinGib e)).length ∧
          placementReserve cfg (queuedRunSpec cfg.diskMinGib e) ≤
            s.freeGpus.length - e.gpusRequested) := by
  simp only [fits, usable, List.mem_filter, hpin, Option.all_none, Option.isSome_none,
    Bool.false_or, Bool.and_true, Bool.and_eq_true, Bool.or_eq_true, decide_eq_true_iff]
  tauto

theorem usable_nodeNamed {statuses : List NodeStatus} {nodes : List CenterNode} {spec : RunSpec}
    {s : NodeStatus} (hs : s ∈ usable statuses nodes spec excluded) :
    (nodeNamed nodes s.node).isSome := by
  simp only [usable, List.mem_filter, Bool.and_eq_true, Option.any_eq_true] at hs
  obtain ⟨-, ⟨-, n, hn, -⟩, -⟩ := hs
  simp [hn]

theorem mem_candidateNames (hpin : e.pinNode = none) (p : ProbeSet) (reserved : Finset String) :
    name ∈ candidateNames cfg p e reserved ↔
      ∃ s ∈ p.statuses, s.node = name ∧ fits cfg e (excludedFor e reserved) s = true := by
  have hnode : (queuedRunSpec cfg.diskMinGib e).node.filter (· ≠ "") = none := by
    simp [queuedRunSpec, hpin]
  have hgpus : (queuedRunSpec cfg.diskMinGib e).gpus = e.gpusRequested := rfl
  have hexcluded : reserved ∪ ((queuedRunSpec cfg.diskMinGib e).excludeNodes.getD []).toFinset =
      excludedFor e reserved := rfl
  have hfits : (∃ s ∈ p.statuses, s.node = name ∧ fits cfg e (excludedFor e reserved) s = true) ↔
      ∃ s, (s ∈ p.statuses ∧ fits cfg e (excludedFor e reserved) s = true) ∧ s.node = name := by
    constructor
    · rintro ⟨s, hs, hname, hfit⟩
      exact ⟨s, ⟨hs, hfit⟩, hname⟩
    · rintro ⟨s, ⟨hs, hfit⟩, hname⟩
      exact ⟨s, hs, hname, hfit⟩
  rw [hfits]
  simp only [fits_unpinned hpin]
  unfold candidateNames pickCandidates
  simp only [hnode, hgpus, hexcluded]
  by_cases hzero : e.gpusRequested = 0
  · rw [if_pos hzero]
    dsimp only
    rw [mem_map_nodeNamed fun s hs => usable_nodeNamed ((List.mem_insertionSort _).mp hs)]
    simp [hzero, List.mem_insertionSort]
  · rw [if_neg hzero]
    dsimp only
    rw [mem_map_nodeNamed fun s hs =>
      usable_nodeNamed ((List.mem_insertionSort _).mp (List.mem_of_mem_filter hs))]
    simp [hzero, List.mem_insertionSort, List.mem_filter]

/-- A pinned row is placed on its node unless the node is drained or its disk is too full. -/
theorem candidateNames_pinned {pin : String} (hpin : e.pinNode = some pin) (p : ProbeSet)
    {s : NodeStatus} (hs : s ∈ p.statuses) (hname : s.node = pin) (reserved : Finset String) :
    candidateNames cfg p e reserved ≠ [] ↔
      (nodeNamed cfg.nodes pin).any (!·.drained) = true ∧
        diskRejected s (queuedRunSpec cfg.diskMinGib e) = false := by
  have hne : pin ≠ "" := hname ▸ p.named s hs
  have hnode : (queuedRunSpec cfg.diskMinGib e).node.filter (· ≠ "") = some pin := by
    simp [queuedRunSpec, hpin, hne]
  have hfind : p.statuses.find? (·.node = pin) = some s := p.find_status hs hname
  unfold candidateNames pickCandidates
  simp only [hnode, hfind, Option.any_some]
  cases hn : nodeNamed cfg.nodes pin with
  | none => simp
  | some n =>
    cases hd : n.drained with
    | true => simp [hd]
    | false =>
      cases diskRejected s (queuedRunSpec cfg.diskMinGib e) with
      | true => simp [hd]
      | false => simp [hd]

theorem pinIsBusy_iff {pin : String} (hpin : e.pinNode = some pin) (p : ProbeSet)
    {s : NodeStatus} (hs : s ∈ p.statuses) (hname : s.node = pin) (herr : s.error = none)
    (hgpus : 0 ≤ e.gpusRequested) :
    pinIsBusy p.statuses (queuedRunSpec cfg.diskMinGib e) = false ↔
      (e.gpusRequested = 0 ∨
        e.gpusRequested ≤ (eligibleFreeGpus s (queuedRunSpec cfg.diskMinGib e)).length) := by
  have hne : pin ≠ "" := hname ▸ p.named s hs
  have hnode : (queuedRunSpec cfg.diskMinGib e).node.filter (· ≠ "") = some pin := by
    simp [queuedRunSpec, hpin, hne]
  have hwanted : (queuedRunSpec cfg.diskMinGib e).gpus = e.gpusRequested := rfl
  unfold pinIsBusy
  simp only [hnode, hwanted, p.find_status hs hname, herr, Option.isNone_none, Bool.true_and]
  by_cases hzero : e.gpusRequested = 0
  · simp [hzero]
  · have hpos : ¬ e.gpusRequested ≤ 0 := by omega
    simp [hpos, hzero]

theorem eligibleFreeGpus_length_le (s : NodeStatus) (spec : RunSpec) :
    (eligibleFreeGpus s spec).length ≤ s.freeGpus.length := by
  unfold eligibleFreeGpus
  split
  · exact Nat.zero_le _
  · split
    · exact le_rfl
    · exact List.length_filter_le _ _

/-- A pinned row with a successful probe of its node: placement uses the node, and it is not busy,
exactly when its status fits. -/
theorem placed_iff_fits {pin : String} (hpin : e.pinNode = some pin) (p : ProbeSet)
    {s : NodeStatus} (hs : s ∈ p.statuses) (hname : s.node = pin) (herr : s.error = none)
    (hgpus : 0 ≤ e.gpusRequested) (reserved : Finset String) :
    (candidateNames cfg p e reserved ≠ [] ∧
        pinIsBusy p.statuses (queuedRunSpec cfg.diskMinGib e) = false) ↔
      fits cfg e excluded s = true := by
  rw [candidateNames_pinned hpin p hs hname reserved, pinIsBusy_iff hpin p hs hname herr hgpus]
  have hne : pin ≠ "" := hname ▸ p.named s hs
  have hreserve : placementReserve cfg (queuedRunSpec cfg.diskMinGib e) = 0 := by
    simp [placementReserve, queuedRunSpec, hpin, hne]
  have hle := eligibleFreeGpus_length_le s (queuedRunSpec cfg.diskMinGib e)
  simp only [fits, herr, hpin, hname, hreserve, Option.isNone_none, Option.all_some,
    Option.isSome_some, Bool.true_and, Bool.true_or, Bool.and_true, Bool.and_eq_true,
    Bool.or_eq_true, Bool.not_eq_true', decide_true, decide_eq_true_iff]
  constructor
  · rintro ⟨⟨hnode, hdisk⟩, hcards⟩
    refine ⟨⟨hdisk, hnode⟩, hcards.imp id fun h => ⟨h, by omega⟩⟩
  · rintro ⟨⟨hdisk, hnode⟩, hcards⟩
    exact ⟨⟨hnode, hdisk⟩, hcards.imp id fun h => h.1⟩

/-! ## The explanation -/

/-- `_capacity_state` calls a row runnable exactly when its pin is usable and a node fits. -/
theorem capacityState_runnable_iff (c : ResourceCapacity) :
    (capacityState cfg e c excluded).state = .runnable ↔
      (∀ pin ∈ e.pinNode, pin ∈ cfg.configured ∧ pin ∉ c.unavailable) ∧
        fittingNodes cfg e c excluded ≠ [] := by
  unfold capacityState fittingNodes
  dsimp only
  split
  · rename_i pin hpin
    obtain ⟨hp, hout⟩ := Option.filter_eq_some_iff.mp hpin
    refine iff_of_false nofun fun h => ?_
    exact absurd (h.1 pin hp).1 (by simpa using hout)
  rename_i hconfigured
  split
  · rename_i hempty
    refine iff_of_false ?_ fun h => h.2 (by simp [List.isEmpty_iff.mp hempty])
    split <;> exact nofun
  split
  · rename_i pin hpin
    obtain ⟨hp, hin⟩ := Option.filter_eq_some_iff.mp hpin
    refine iff_of_false nofun fun h => ?_
    exact absurd (by simpa using hin) (h.1 pin hp).2
  rename_i havailable
  have hpins : ∀ pin ∈ e.pinNode, pin ∈ cfg.configured ∧ pin ∉ c.unavailable := by
    intro pin hp
    rw [Option.filter_eq_none_iff] at hconfigured havailable
    exact ⟨by simpa using hconfigured pin hp, by simpa using havailable pin hp⟩
  split
  · rename_i hempty
    exact iff_of_false nofun fun h => h.2 (by simp [List.isEmpty_iff.mp hempty])
  split
  · rename_i node hfind
    have hmem := List.mem_filter.mpr ⟨List.mem_of_find?_eq_some hfind, List.find?_some hfind⟩
    exact iff_of_true rfl ⟨hpins, List.ne_nil_of_mem hmem⟩
  · rename_i hnone
    refine iff_of_false (fun h => ?_) fun h => h.2 ?_
    · revert h
      split
      · exact nofun
      · intro h
        rcases capacityWait_cases with hs | hs <;> rw [h] at hs <;> cases hs
    · exact List.filter_eq_nil_iff.mpr (List.find?_eq_none.mp hnone)

/-- The same for a pinned row whose node was probed without an error. -/
theorem explained_iff_fits (cfg : FleetConfig) {pin : String} (hpin : e.pinNode = some pin)
    (p : ProbeSet) {s : NodeStatus} (hs : s ∈ p.statuses) (hname : s.node = pin)
    (herr : s.error = none) (hfixed : FixedOk e) :
    (capacityState cfg.toSchedulerConfig e (resourceCapacity (p.statuses.map statusRow))
        excluded).state = .runnable ↔
      fits cfg.toSchedulerConfig e excluded (withText s) = true := by
  subst hname
  have hne : ∀ pin ∈ e.pinNode, pin ≠ "" := by
    intro pin hp
    rw [hpin, Option.mem_some_iff] at hp
    exact hp ▸ p.named s hs
  have ho := capacity_of_ok p hs (by simp [withText, herr])
  rw [capacityState_runnable_iff, ← fits_withText_iff cfg p hs hfixed hne]
  -- the only node that can fit is the pin
  have hpinned : ∀ node ∈ fittingNodes cfg.toSchedulerConfig e
      (resourceCapacity (p.statuses.map statusRow)) excluded, node = s.node := by
    intro node hnode
    simp only [fittingNodes, candidateNodes, hpin, List.mem_filter, List.mem_singleton] at hnode
    exact hnode.1.1.1.1
  constructor
  · rintro ⟨hpins, hfit⟩
    obtain ⟨node, hnode⟩ := List.exists_mem_of_ne_nil _ hfit
    exact ⟨hpinned node hnode ▸ hnode, (hpins s.node hpin).1⟩
  · rintro ⟨hmem, hconfigured⟩
    refine ⟨fun pin hp => ?_, List.ne_nil_of_mem hmem⟩
    rw [hpin, Option.mem_some_iff] at hp
    exact hp ▸ ⟨hconfigured, ho.unavailable⟩

/-! ## Where the views differ -/

/-- The error of a status that only placement sees: it has no text. A pinned row is placed whatever
the error of its node is. -/
def Textless (e : JobEntry) (s : NodeStatus) : Prop :=
  s.error = some "" ∧ e.pinNode = none ∨
    s.error = none ∧ 0 < e.gpusRequested ∧ s.gpuInventoryError = some ""

instance (e : JobEntry) (s : NodeStatus) : Decidable (Textless e s) :=
  inferInstanceAs (Decidable (_ ∨ _))

/-- The errors of a status that have a text. -/
theorem withText_eq {s : NodeStatus} (herr : s.error ≠ some "")
    (hinventory : s.gpuInventoryError ≠ some "") : withText s = s := by
  have hkeep : ∀ o : Option String, o ≠ some "" → o.filter (· ≠ "") = o := by
    intro o ho
    cases o with
    | none => rfl
    | some text => exact Option.filter_eq_some_iff.mpr ⟨rfl, by simpa using ho⟩
  unfold withText
  rw [hkeep _ herr, hkeep _ hinventory]

/-- A CPU request does not look at the inventory. -/
theorem eligibleFreeGpus_withText {s : NodeStatus} {spec : RunSpec} (hgpus : spec.gpus ≤ 0) :
    eligibleFreeGpus (withText s) spec = eligibleFreeGpus s spec := by
  have hnot : decide (0 < spec.gpus) = false := by simpa using hgpus
  simp only [eligibleFreeGpus, hnot, Bool.false_and]
  rfl

theorem fits_withText_cpu (hgpus : e.gpusRequested ≤ 0) {s : NodeStatus} (herr : s.error = none) :
    fits cfg e excluded (withText s) = fits cfg e excluded s := by
  have herr' : (withText s).error = none := by simp [withText, herr]
  have hdisk : diskRejected (withText s) (queuedRunSpec cfg.diskMinGib e) =
      diskRejected s (queuedRunSpec cfg.diskMinGib e) := by
    simp only [diskRejected, herr, herr']
    rfl
  simp only [fits, herr, herr', hdisk,
    eligibleFreeGpus_withText (show (queuedRunSpec cfg.diskMinGib e).gpus ≤ 0 from hgpus)]
  rfl

/-- A node with an error does not fit, and a GPU row does not fit without an inventory. -/
theorem fits_sound {s : NodeStatus} (hfit : fits cfg e excluded s = true) :
    s.error = none ∧ (0 < e.gpusRequested → s.gpuInventoryError = none) := by
  simp only [fits, Bool.and_eq_true, Bool.or_eq_true, Option.isNone_iff_eq_none,
    decide_eq_true_iff] at hfit
  obtain ⟨⟨⟨⟨⟨herr, -⟩, -⟩, -⟩, -⟩, hcards⟩ := hfit
  refine ⟨herr, fun hpos => ?_⟩
  by_contra hinventory
  have hnone : eligibleFreeGpus s (queuedRunSpec cfg.diskMinGib e) = [] := by
    simp [eligibleFreeGpus, queuedRunSpec, hpos, Option.isSome_iff_ne_none, hinventory]
  rw [hnone, List.length_nil] at hcards
  omega

/-- A status fits placement when it fits the explanation and has no error without a text. -/
theorem fits_iff {s : NodeStatus} (hview : e.pinNode = none ∨ s.error = none) :
    fits cfg e excluded s = true ↔
      fits cfg e excluded (withText s) = true ∧ ¬ Textless e s := by
  by_cases herr : s.error = some ""
  · have hpin : e.pinNode = none := hview.resolve_right (by simp [herr])
    refine iff_of_false (fun hfit => ?_) fun h => h.2 (.inl ⟨herr, hpin⟩)
    simp [(fits_sound hfit).1] at herr
  by_cases hinventory : s.gpuInventoryError = some ""
  · by_cases hnone : s.error = none
    · by_cases hpos : 0 < e.gpusRequested
      · refine iff_of_false (fun hfit => ?_) fun h => h.2 (.inr ⟨hnone, hpos, hinventory⟩)
        simp [(fits_sound hfit).2 hpos] at hinventory
      · rw [fits_withText_cpu (not_lt.mp hpos) hnone]
        simp [Textless, hnone, hpos]
    · -- any other error is seen by both
      refine iff_of_false (fun hfit => hnone (fits_sound hfit).1) fun h => ?_
      have hfilter := Option.filter_eq_none_iff.mp (fits_sound h.1).1
      obtain ⟨text, htext⟩ := Option.ne_none_iff_exists'.mp hnone
      have hempty : text = "" := by simpa using hfilter text htext
      exact herr (htext.trans (congrArg some hempty))
  · rw [withText_eq herr hinventory]
    simp [Textless, herr, hinventory]

/-! ## The views agree -/

/-- An unpinned row: the explanation calls the nodes fitting that placement may use. A pinned row
whose node was probed without an error: it is explained as runnable exactly when placement uses the
node and the node is not busy. -/
def ViewsAgree (cfg : SchedulerConfig) (p : ProbeSet) (e : JobEntry) (reserved : Finset String) :
    Prop :=
  let c := resourceCapacity (p.statuses.map statusRow)
  let excluded := excludedFor e reserved
  match e.pinNode with
  | none => ∀ name, name ∈ fittingNodes cfg e c excluded ↔ name ∈ candidateNames cfg p e reserved
  | some pin => ∀ s ∈ p.statuses, s.node = pin → s.error = none →
      ((capacityState cfg e c excluded).state = .runnable ↔
        candidateNames cfg p e reserved ≠ [] ∧
          pinIsBusy p.statuses (queuedRunSpec cfg.diskMinGib e) = false)

/-- Without a pin only configured nodes are looked at. -/
theorem configured_of_fittingNodes (hpin : e.pinNode = none) {c : ResourceCapacity}
    (h : name ∈ fittingNodes cfg e c excluded) : name ∈ cfg.configured := by
  simp only [fittingNodes, candidateNodes, hpin, List.mem_filter] at h
  exact h.1.1.1.1.1

theorem fits_pinned {pin : String} (hpin : e.pinNode = some pin) {s : NodeStatus}
    (hfit : fits cfg e excluded s = true) : s.node = pin := by
  simp only [fits, hpin, Bool.and_eq_true, Option.all_some, decide_eq_true_iff] at hfit
  exact hfit.1.1.2.symm

/-- The views of a row agree exactly when no node would fit it but for an error without a text. -/
theorem viewsAgree_iff (cfg : FleetConfig) (p : ProbeSet) (e : JobEntry) (hfixed : FixedOk e)
    (reserved : Finset String) :
    ViewsAgree cfg.toSchedulerConfig p e reserved ↔
      ∀ s ∈ p.statuses, Textless e s →
        fits cfg.toSchedulerConfig e (excludedFor e reserved) (withText s) = false := by
  have hgpus : 0 ≤ e.gpusRequested := hfixed.2.2.1
  unfold ViewsAgree
  dsimp only
  cases hpin : e.pinNode with
  | none =>
    have hne : ∀ pin ∈ e.pinNode, pin ≠ "" := by simp [hpin]
    constructor
    · intro hviews s hs htextless
      by_contra hfit
      have hmem := (mem_fittingNodes cfg p hfixed hne).mpr
        ⟨s, hs, rfl, Bool.eq_true_of_not_eq_false hfit⟩
      obtain ⟨t, ht, hname, hfits⟩ :=
        (mem_candidateNames hpin p reserved).mp ((hviews s.node).mp hmem.1)
      have heq : t = s := List.inj_on_of_nodup_map p.nodup ht hs hname
      exact ((fits_iff (.inl hpin)).mp (heq ▸ hfits)).2 htextless
    · intro hnone name
      rw [mem_candidateNames hpin p reserved]
      constructor
      · intro hmem
        obtain ⟨s, hs, hname, hfit⟩ := (mem_fittingNodes cfg p hfixed hne).mp
          ⟨hmem, configured_of_fittingNodes hpin hmem⟩
        refine ⟨s, hs, hname, (fits_iff (.inl hpin)).mpr ⟨hfit, fun htextless => ?_⟩⟩
        rw [hnone s hs htextless] at hfit
        cases hfit
      · rintro ⟨s, hs, hname, hfit⟩
        exact ((mem_fittingNodes cfg p hfixed hne).mpr
          ⟨s, hs, hname, ((fits_iff (.inl hpin)).mp hfit).1⟩).1
  | some pin =>
    -- the status of the pin decides both views
    have hviews : ∀ s ∈ p.statuses, s.node = pin → s.error = none →
        (((capacityState cfg.toSchedulerConfig e (resourceCapacity (p.statuses.map statusRow))
            (excludedFor e reserved)).state = .runnable ↔
          candidateNames cfg.toSchedulerConfig p e reserved ≠ [] ∧
            pinIsBusy p.statuses (queuedRunSpec cfg.diskMinGib e) = false) ↔
          (Textless e s →
            fits cfg.toSchedulerConfig e (excludedFor e reserved) (withText s) = false)) := by
      intro s hs hname herr
      rw [explained_iff_fits cfg hpin p hs hname herr hfixed,
        placed_iff_fits hpin p hs hname herr hgpus, fits_iff (.inr herr), ← Bool.not_eq_true]
      tauto
    constructor
    · intro hagree s hs htextless
      have herr : s.error = none := by
        rcases htextless with ⟨-, hnone⟩ | ⟨herr, -⟩
        · rw [hpin] at hnone
          cases hnone
        · exact herr
      by_contra hfit
      have hname : (withText s).node = pin := fits_pinned hpin (Bool.eq_true_of_not_eq_false hfit)
      exact hfit ((hviews s hs hname herr).mp (hagree s hs hname herr) htextless)
    · intro hnone s hs hname herr
      exact (hviews s hs hname herr).mpr (hnone s hs)

/-- One node, nothing else. -/
def FleetConfig.sample : FleetConfig where
  nodes := [{ name := "n1", isLocal := false }]
  nodup := by decide
  reserve_nonneg := by decide
  disk_nonneg := by decide

/-- A probe of that node. -/
def ProbeSet.sample (s : NodeStatus) (hname : s.node = "n1") (hsystem : s.system = none) :
    ProbeSet where
  statuses := [s]
  nodup := by simp
  named := by simp [hname]
  disk_nonneg := by simp [hsystem]

/-- A queued CPU row. -/
def sampleCpu : JobEntry := { JobEntry.sample "job-1" with gpusRequested := 0 }

theorem sampleCpu_fixed : FixedOk sampleCpu :=
  ((encode_ok_iff sampleCpu).mp ⟨sampleCpu, by decide +kernel⟩).fixed

theorem viewsAgree_sample :
    ViewsAgree FleetConfig.sample.toSchedulerConfig
      (.sample { node := "n1", gpuInventoryError := some "nvidia-smi failed" } rfl rfl)
      sampleCpu ∅ :=
  (viewsAgree_iff .sample _ sampleCpu sampleCpu_fixed ∅).mpr (by decide +kernel)

/-- A probe that failed without a message: the explanation offers the node, placement does not. -/
theorem views_differ_on_empty_error :
    ¬ ViewsAgree FleetConfig.sample.toSchedulerConfig
      (.sample { node := "n1", error := some "" } rfl rfl) sampleCpu ∅ := by
  intro h
  have hfit : "n1" ∈ fittingNodes FleetConfig.sample.toSchedulerConfig sampleCpu
      (resourceCapacity [statusRow { node := "n1", error := some "" }]) (excludedFor sampleCpu ∅) := by
    decide +kernel
  have hnone : candidateNames FleetConfig.sample.toSchedulerConfig
      (.sample { node := "n1", error := some "" } rfl rfl) sampleCpu ∅ = [] := by decide +kernel
  have hmem := (h "n1").mp hfit
  rw [hnone] at hmem
  cases hmem

end Dt.Scheduler
