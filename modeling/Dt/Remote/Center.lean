import Mathlib
import Dt.Scheduler.Overcommit
import Dt.Scheduler.Capacity

/-!
# The choice of a center

A laptop that is asked for no particular center reads the resource rows of all of them, each with
the capacity contract of its scheduler, and takes the one with the most room on one node. It counts
twice: the contract says how many cards the queue leaves, the row which free cards are large enough.
-/

namespace Dt.Remote

open Dt.Lib Dt.Jobs Dt.Dispatch Dt.Scheduler

/-! ## Rows -/

/-- One row of `dt free --scheduler-context`; `contract` are the nodes of the capacity contract, if
the row has a model. -/
structure FreeRow where
  center : String
  drained : Bool := false
  resource : Resource
  contract : Option (List NodeCapacity) := none

/-- The checks of one node of a contract, behind nodes with other names. -/
def nodeCapacityOk (names : List String) (item : NodeCapacity) : Bool :=
  let free := item.schedulableFreeGpus
  (0 < item.node.length && item.node.length ≤ 512) && item.node ∉ names &&
    item.physicalFreeGpus.all (· ≤ 1024) && (0 ≤ free && free ≤ 1024) &&
    !(item.physicalFreeGpus.isNone && free ≠ 0) &&
    item.physicalFreeGpus.all (fun physical => free ≤ (physical : Int)) &&
    !((!item.available || item.drained) && free ≠ 0)

def contractOk : List String → List NodeCapacity → Bool
  | _, [] => true
  | names, item :: items => nodeCapacityOk names item && contractOk (item.node :: names) items

/-- `_schedulable_free_gpus` -/
def schedulableFreeGpus (row : FreeRow) : Option Int :=
  match row.contract with
  | none => none
  | some nodes =>
    if 256 < nodes.length || !contractOk [] nodes then none
    else match nodes.filter fun item => some item.node = row.resource.node with
    | [item] => some (if item.available && !item.drained then item.schedulableFreeGpus else 0)
    | _ => none

/-- The free cards of a row that are large enough. -/
def physicalFree (minVramMib : Option Int) (r : Resource) : Nat :=
  (((r.gpus.getD []).filterMap id).filter (·.free)).countP fun g =>
    minVramMib.all fun minimum => (gpuTotalMib g).any (minimum ≤ ·)

/-! ## Centers -/

/-- The largest free count of one node, and the sum of all. -/
abbrev Stats := Dict (Int × Int)

/-- `stats[center] = value` -/
def Stats.put (stats : Stats) (center : String) (value : Int × Int) : Stats :=
  if (stats.lookup center).isSome then stats.map fun p => if p.1 = center then (center, value) else p
  else stats ++ [(center, value)]

/-- What `best_center` is asked for. -/
structure Asked where
  gpus : Int
  requireDiskGib : Int := 0
  minVramMib : Option Int := none
  node : Option String := none
  requireSchedulingContract : Bool := false

/-- The free cards of a row that is looked at. -/
def rowFree (q : Asked) (row : FreeRow) : Option Int :=
  if row.resource.error || row.drained || q.node.any fun node => row.resource.node ≠ some node then none
  else
    let schedulable := schedulableFreeGpus row
    if q.requireSchedulingContract && schedulable.isNone then none
    else
      let lowDisk := match row.resource.diskFreeGib with
        | .number free => 0 < q.requireDiskGib && decide (free < q.requireDiskGib)
        | _ => false
      if lowDisk then none
      else
        let physical : Int := physicalFree q.minVramMib row.resource
        some (match schedulable with
          | some free => min free physical
          | none => physical)

def Stats.count (q : Asked) (stats : Stats) (row : FreeRow) : Stats :=
  match rowFree q row with
  | none => stats
  | some free =>
    if row.center = "" then stats
    else
      let old := (stats.lookup row.center).getD (0, 0)
      stats.put row.center (max old.1 free, old.2 + free)

/-- The first of the greatest values. -/
def greatest : Stats → Option (String × (Int × Int))
  | [] => none
  | p :: ps =>
    some (ps.foldl (fun best x =>
      if best.2.1 < x.2.1 || best.2.1 = x.2.1 && best.2.2 < x.2.2 then x else best) p)

/-- `best_center` -/
def bestCenter (q : Asked) (rows : List FreeRow) : Option String :=
  let stats : Stats := rows.foldl (Stats.count q) []
  (greatest (stats.filter fun p => q.gpus ≤ p.2.1)).map Prod.fst

/-! ## What is chosen -/

theorem Stats.mem_put {stats : Stats} {center : String} {value : Int × Int} {p : String × (Int × Int)}
    (h : p ∈ stats.put center value) : p = (center, value) ∨ p ∈ stats ∧ p.1 ≠ center := by
  unfold Stats.put at h
  split at h
  · obtain ⟨old, hold, rfl⟩ := List.mem_map.mp h
    split
    · exact .inl rfl
    · rename_i hne
      exact .inr ⟨hold, hne⟩
  · rename_i hnone
    rcases List.mem_append.mp h with h | h
    · refine .inr ⟨h, fun heq => hnone ?_⟩
      have hmem : center ∈ stats.map Prod.fst := heq ▸ List.mem_map_of_mem h
      rw [Option.isSome_iff_ne_none, ne_eq, List.lookup_eq_none_iff]
      intro hall
      have := hall p h
      simp [heq] at this
    · exact .inl (List.mem_singleton.mp h)

theorem Stats.lookup_replace (stats : Stats) (center : String) (value : Int × Int) (other : String) :
    (stats.map fun p => if p.1 = center then (center, value) else p).lookup other =
      if other = center then (stats.lookup center).map fun _ => value else stats.lookup other := by
  induction stats with
  | nil => simp
  | cons p stats ih =>
    obtain ⟨key, old⟩ := p
    rw [List.map_cons, List.lookup_cons, List.lookup_cons, List.lookup_cons, ih]
    by_cases hkey : key = center
    · subst hkey
      by_cases hother : other = key
      · simp [hother]
      · have hne : (other == key) = false := beq_eq_false_iff_ne.mpr hother
        simp [hother, hne]
    · have hne : (center == key) = false := beq_eq_false_iff_ne.mpr (Ne.symm hkey)
      rw [if_neg hkey, hne]
      by_cases hother : other = key
      · subst hother
        simp [hkey]
      · have hne' : (other == key) = false := beq_eq_false_iff_ne.mpr hother
        simp [hne']

theorem Stats.lookup_put (stats : Stats) (center : String) (value : Int × Int) (other : String) :
    (stats.put center value).lookup other = if other = center then some value else stats.lookup other := by
  unfold Stats.put
  split
  · rename_i hsome
    obtain ⟨old, hold⟩ := Option.isSome_iff_exists.mp hsome
    rw [Stats.lookup_replace, hold]
    rfl
  · rename_i hnone
    rw [List.lookup_append]
    by_cases hother : other = center
    · subst hother
      rw [Option.not_isSome_iff_eq_none.mp hnone, if_pos rfl]
      simp
    · have hne : (other == center) = false := beq_eq_false_iff_ne.mpr hother
      rw [if_neg hother, List.lookup_cons, hne]
      simp

/-- The first component is the count of some row, and at least that of every row. -/
structure Stats.Counts (q : Asked) (stats : Stats) (rows : List FreeRow) : Prop where
  from_row : ∀ p ∈ stats, 0 < p.2.1 →
    ∃ row ∈ rows, row.center = p.1 ∧ rowFree q row = some p.2.1
  every_row : ∀ row ∈ rows, row.center ≠ "" → ∀ free, rowFree q row = some free →
    ∃ value, stats.lookup row.center = some value ∧ free ≤ value.1

theorem mem_of_lookup {stats : Stats} {center : String} {value : Int × Int}
    (h : stats.lookup center = some value) : (center, value) ∈ stats := by
  obtain ⟨l, r, rfl, -⟩ := List.lookup_eq_some_iff.mp h
  simp

/-- A row that is not looked at changes nothing. -/
theorem Stats.Counts.skip {q : Asked} {stats : Stats} {rows : List FreeRow}
    (h : stats.Counts q rows) {row : FreeRow} (hskip : rowFree q row = none ∨ row.center = "") :
    stats.Counts q (rows ++ [row]) := by
  refine ⟨fun p hp hpos => ?_, fun row' hrow' hne free hfree => ?_⟩
  · obtain ⟨row', hrow', hcenter⟩ := h.from_row p hp hpos
    exact ⟨row', List.mem_append_left _ hrow', hcenter⟩
  · rcases List.mem_append.mp hrow' with hrow' | hrow'
    · exact h.every_row row' hrow' hne free hfree
    · rw [List.mem_singleton.mp hrow'] at hne hfree
      rcases hskip with hnone | hname
      · rw [hnone] at hfree
        cases hfree
      · exact absurd hname hne

theorem Stats.Counts.add {q : Asked} {stats : Stats} {rows : List FreeRow} (h : stats.Counts q rows)
    {row : FreeRow} {free total : Int} (hfree : rowFree q row = some free) :
    (stats.put row.center
      (max ((stats.lookup row.center).getD (0, 0)).1 free, total)).Counts q (rows ++ [row]) := by
  refine ⟨fun p hp hpos => ?_, fun row' hrow' hne free' hfree' => ?_⟩
  · rcases Stats.mem_put hp with rfl | ⟨hp, -⟩
    · dsimp only at hpos ⊢
      rcases max_choice ((stats.lookup row.center).getD (0, 0)).1 free with hmax | hmax
      · rw [hmax] at hpos ⊢
        cases hlookup : stats.lookup row.center with
        | none =>
          rw [hlookup] at hpos
          exact absurd hpos (lt_irrefl 0)
        | some old =>
          rw [hlookup] at hpos
          obtain ⟨row', hrow', hcenter⟩ := h.from_row _ (mem_of_lookup hlookup) hpos
          exact ⟨row', List.mem_append_left _ hrow', hcenter⟩
      · rw [hmax]
        exact ⟨row, by simp, rfl, hfree⟩
    · obtain ⟨row', hrow', hcenter⟩ := h.from_row p hp hpos
      exact ⟨row', List.mem_append_left _ hrow', hcenter⟩
  · rw [Stats.lookup_put]
    rcases List.mem_append.mp hrow' with hrow' | hrow'
    · obtain ⟨value, hlookup, hle⟩ := h.every_row row' hrow' hne free' hfree'
      split
      · rename_i hcenter
        refine ⟨_, rfl, ?_⟩
        rw [← hcenter, hlookup]
        exact hle.trans (le_max_left _ _)
      · exact ⟨value, hlookup, hle⟩
    · rw [List.mem_singleton.mp hrow'] at hfree' ⊢
      rw [hfree] at hfree'
      cases hfree'
      exact ⟨_, if_pos rfl, le_max_right _ _⟩

theorem Stats.counts (q : Asked) (rows : List FreeRow) :
    Stats.Counts q (rows.foldl (Stats.count q) []) rows := by
  induction rows using List.reverseRecOn with
  | nil => exact ⟨by simp, by simp⟩
  | append_singleton rows row ih =>
    rw [List.foldl_append, List.foldl_cons, List.foldl_nil, Stats.count]
    split
    · rename_i hnone
      exact ih.skip (.inl hnone)
    · rename_i free hfree
      split
      · rename_i hname
        exact ih.skip (.inr hname)
      · exact ih.add hfree

theorem greatest_mem {stats : Stats} {p : String × (Int × Int)} (h : greatest stats = some p) :
    p ∈ stats := by
  cases stats with
  | nil => cases h
  | cons first stats =>
    cases h
    have hfold : ∀ (ps : Stats) (best : String × (Int × Int)),
        ps.foldl (fun best x =>
          if best.2.1 < x.2.1 || best.2.1 = x.2.1 && best.2.2 < x.2.2 then x else best) best ∈
            best :: ps := by
      intro ps
      induction ps with
      | nil => exact fun best => by simp
      | cons x ps ih =>
        intro best
        rw [List.foldl_cons]
        split
        · exact List.mem_cons_of_mem _ (ih x)
        · rcases List.mem_cons.mp (ih best) with heq | hmem
          · rw [heq]
            exact List.mem_cons_self
          · exact List.mem_cons_of_mem _ (List.mem_cons_of_mem _ hmem)
    exact hfold stats first

/-- A chosen center has a row with enough free cards. -/
theorem bestCenter_row {q : Asked} {rows : List FreeRow} {center : String} (hpos : 0 < q.gpus)
    (h : bestCenter q rows = some center) :
    ∃ row ∈ rows, row.center = center ∧ ∃ free, rowFree q row = some free ∧ q.gpus ≤ free := by
  obtain ⟨p, hp, rfl⟩ := Option.map_eq_some_iff.mp h
  obtain ⟨hmem, hle⟩ := List.mem_filter.mp (greatest_mem hp)
  have hle := of_decide_eq_true hle
  obtain ⟨row, hrow, hcenter, hfree⟩ := (Stats.counts q rows).from_row p hmem (hpos.trans_le hle)
  exact ⟨row, hrow, hcenter, _, hfree, hle⟩

/-- A row with enough free cards is enough for a choice. -/
theorem bestCenter_ne_none {q : Asked} {rows : List FreeRow} {row : FreeRow} (hrow : row ∈ rows)
    (hname : row.center ≠ "") {free : Int} (hfree : rowFree q row = some free) (hle : q.gpus ≤ free) :
    bestCenter q rows ≠ none := by
  obtain ⟨value, hlookup, hvalue⟩ := (Stats.counts q rows).every_row row hrow hname free hfree
  have hmem : (row.center, value) ∈
      (rows.foldl (Stats.count q) []).filter fun p => q.gpus ≤ p.2.1 :=
    List.mem_filter.mpr ⟨mem_of_lookup hlookup, decide_eq_true (hle.trans hvalue)⟩
  rw [bestCenter]
  generalize (rows.foldl (Stats.count q) []).filter _ = fitting at hmem
  cases fitting with
  | nil => cases hmem
  | cons p fitting => exact nofun

/-! ## What a queue leaves of a node -/

/-- The cards of one capacity that are left in another. -/
structure Left (c c' : ResourceCapacity) : Prop where
  total : c'.total = c.total
  unknown : c'.gpuInventoryUnknown = c.gpuInventoryUnknown
  known : ∀ node, (c'.free node).isSome = (c.free node).isSome
  cards : ∀ node, ∃ taken, (taken ++ freeList c' node).Perm (freeList c node)

theorem Left.refl (c : ResourceCapacity) : Left c c :=
  ⟨rfl, rfl, fun _ => rfl, fun _ => ⟨[], .refl _⟩⟩

theorem Left.trans {c c' c'' : ResourceCapacity} (h : Left c c') (h' : Left c' c'') : Left c c'' where
  total := h'.total.trans h.total
  unknown := h'.unknown.trans h.unknown
  known node := (h'.known node).trans (h.known node)
  cards node := by
    obtain ⟨taken, hperm⟩ := h.cards node
    obtain ⟨taken', hperm'⟩ := h'.cards node
    refine ⟨taken ++ taken', .trans ?_ hperm⟩
    rw [List.append_assoc]
    exact hperm'.append_left taken

theorem left_consume {c : ResourceCapacity} (h : Balanced c) (node : String) (e : JobEntry) :
    Left c (consumeCapacity c node e) := by
  obtain ⟨hbalanced, ⟨taken, hperm, -⟩, hothers⟩ := consumeCapacity_charged h node e
  have hcards : ∀ other, ∃ taken, (taken ++ freeList (consumeCapacity c node e) other).Perm
      (freeList c other) := by
    intro other
    by_cases hother : other = node
    · subst hother
      exact ⟨taken, hperm⟩
    · exact ⟨[], by rw [hothers other hother]; exact .refl _⟩
  cases hnode : c.freeGpuMemoryMib node with
  | none =>
    have hsame : consumeCapacity c node e = c := by rw [consumeCapacity, hnode]
    exact hsame.symm ▸ .refl c
  | some cards =>
    have hfields : (consumeCapacity c node e).total = c.total ∧
        (consumeCapacity c node e).gpuInventoryUnknown = c.gpuInventoryUnknown ∧
        ∀ other, ((consumeCapacity c node e).free other).isSome = (c.free other).isSome := by
      rw [consumeCapacity, hnode]
      refine ⟨rfl, rfl, fun other => ?_⟩
      by_cases hother : other = node
      · subst hother
        rw [h other, hnode]
        simp
      · simp [Function.update_of_ne hother]
    exact ⟨hfields.1, hfields.2.1, hfields.2.2, hcards⟩

theorem left_explain (cfg : SchedulerConfig) (entries : List JobEntry) (e : JobEntry) {f : Forecast}
    (hf : f.Balanced) {c : ResourceCapacity} (hc : f.capacity = some c) :
    ∃ c', (explain cfg entries f e).1.capacity = some c' ∧ Left c c' := by
  by_cases h : (explain cfg entries f e).2.state = .runnable
  · obtain ⟨c', node, hc', -, hnext, -⟩ := explain_runnable hf h
    rw [hc] at hc'
    cases hc'
    exact ⟨_, hnext, left_consume (hf c hc) node e⟩
  · rcases (explain_other h).2 with hsame | ⟨c', node, hc', hnext⟩
    · exact ⟨c, hsame.trans hc, .refl c⟩
    · rw [hc] at hc'
      cases hc'
      exact ⟨_, hnext, left_consume (hf c hc) node e⟩

theorem left_forecast (cfg : SchedulerConfig) (entries queue : List JobEntry)
    (i : Nat) (f : Forecast) (hf : f.Balanced) {c : ResourceCapacity} (hc : f.capacity = some c) :
    ∃ c', (walk (fun _ => explain cfg entries) (fun _ => false) i f queue).1.capacity = some c' ∧
      Left c c' := by
  induction queue generalizing i f c with
  | nil => exact ⟨c, hc, .refl c⟩
  | cons e queue ih =>
    obtain ⟨c₁, hc₁, hleft⟩ := left_explain cfg entries e hf hc
    obtain ⟨c₂, hc₂, hleft'⟩ := ih (i + 1) _ (explain_balanced hf) hc₁
    refine ⟨c₂, ?_, hleft.trans hleft'⟩
    simpa only [walk, Bool.false_eq_true, if_false] using hc₂

/-- A node has a capacity by the last of its rows without an error. -/
theorem resourceCapacity_row {resources : List Resource} {node : String} :
    ((resourceCapacity resources).total node).isSome = ((resourceCapacity resources).free node).isSome ∧
      (((resourceCapacity resources).total node).isSome = true →
        ∃ row ∈ resources, row.node = some node ∧ row.error = false ∧
          freeList (resourceCapacity resources) node =
            (((row.gpus.getD []).filterMap id).filter (·.free)).map gpuTotalMib) := by
  induction resources using List.reverseRecOn with
  | nil => exact ⟨rfl, nofun⟩
  | append_singleton rows row ih =>
    have hstep : resourceCapacity (rows ++ [row]) = (resourceCapacity rows).add row := by
      rw [resourceCapacity, List.foldl_append]
      rfl
    have hkeep : ∀ c : ResourceCapacity, c.total node = (resourceCapacity rows).total node →
        c.free node = (resourceCapacity rows).free node →
        freeList c node = freeList (resourceCapacity rows) node →
        (c.total node).isSome = (c.free node).isSome ∧ ((c.total node).isSome = true →
          ∃ row' ∈ rows ++ [row], row'.node = some node ∧ row'.error = false ∧
            freeList c node =
              (((row'.gpus.getD []).filterMap id).filter (·.free)).map gpuTotalMib) := by
      intro c htotal hfree hlist
      rw [htotal, hfree, hlist]
      refine ⟨ih.1, fun hsome => ?_⟩
      obtain ⟨row', hrow', h⟩ := ih.2 hsome
      exact ⟨row', List.mem_append_left _ hrow', h⟩
    rw [hstep, ResourceCapacity.add]
    split
    · exact hkeep _ rfl rfl rfl
    · rename_i name hname
      split
      · exact hkeep _ rfl rfl rfl
      · split
        · exact hkeep _ rfl rfl rfl
        · rename_i herror
          by_cases hnode : node = name
          · subst hnode
            refine ⟨by simp, fun _ => ⟨row, by simp, hname, by simpa using herror, ?_⟩⟩
            simp [freeList]
          · refine hkeep _ ?_ ?_ ?_
            · simp [Function.update_of_ne hnode]
            · simp [Function.update_of_ne hnode]
            · simp [freeList, Function.update_of_ne hnode]

theorem physicalFree_eq {e : JobEntry} {row : Resource} {cards : List (Option Int)}
    (h : cards = (((row.gpus.getD []).filterMap id).filter (·.free)).map gpuTotalMib) :
    physicalFree e.minVramMib row = cards.countP (cardFits e) := by
  rw [h, List.countP_map]
  rfl

/-! ## What a center reports -/

/-- A center with its queue and its resources. -/
structure CenterReport where
  center : String
  named : center ≠ ""
  cfg : FleetConfig
  entries : List JobEntry
  resources : List Resource
  agentAlive : Option Bool := none
  agentHeartbeatStale : Option Bool := none
  registryDamage : Nat := 0
  now : Time

namespace CenterReport

variable (r : CenterReport)

def snapshot : SchedulerSnapshot :=
  schedulerSnapshot r.cfg.toSchedulerConfig r.entries (some r.resources) r.agentAlive
    r.agentHeartbeatStale r.registryDamage r.now

/-- `dt free --scheduler-context` -/
def rows : List FreeRow := r.resources.map fun resource =>
  { center := r.center
    drained := resource.node.any (· ∈ r.cfg.drained)
    resource
    contract := some r.snapshot.nodes }

def capacity : ResourceCapacity := resourceCapacity r.resources

/-- The cards that are left after the jobs that are forecast as runnable or reserved. -/
def remaining : ResourceCapacity :=
  (forecast r.cfg.toSchedulerConfig r.entries
    (Forecast.start r.entries (some r.resources) r.registryDamage r.now)
    (createdOrder r.entries)).1.capacity.getD {}

/-- The request fits on the cards that are left of a usable node. -/
def Fits (e : JobEntry) (node : String) : Prop :=
  node ∈ r.cfg.configured ∧ node ∉ r.cfg.drained ∧ (r.remaining.total node).isSome = true ∧
    gpuFit r.cfg.toSchedulerConfig e r.remaining node = true

/-- The bounds that the laptop puts on a contract. -/
structure WithinLimits : Prop where
  nodes : r.cfg.nodes.length ≤ 256
  names : ∀ name ∈ r.cfg.configured, 0 < name.length ∧ name.length ≤ 512
  cards : ∀ name ∈ r.cfg.configured, ∀ free, r.capacity.free name = some free → free ≤ 1024

/-- On the node of a row, the queue leaves enough cards, and enough free cards are large enough. -/
structure Counted (e : JobEntry) (row : Resource) (node : String) : Prop where
  named : row.node = some node
  usable : row.error = false ∧ node ∈ r.cfg.configured ∧ node ∉ r.cfg.drained
  left : e.gpusRequested + max 0 r.cfg.reserveFreePerNode ≤ ((freeList r.remaining node).length : Int)
  large : e.gpusRequested ≤ (physicalFree e.minVramMib row : Int)

end CenterReport

variable {r : CenterReport}

theorem CenterReport.left : Left r.capacity r.remaining ∧ Balanced r.remaining := by
  have hstart : (Forecast.start r.entries (some r.resources) r.registryDamage r.now).Balanced := by
    intro c hc
    cases hc
    exact balanced_resourceCapacity r.resources
  obtain ⟨c, hc, hleft⟩ := left_forecast r.cfg.toSchedulerConfig r.entries
    (createdOrder r.entries) 0 _ hstart rfl
  have hbalanced := (forecast_spec r.cfg.toSchedulerConfig r.entries
    (createdOrder r.entries) 0 _ hstart).1
  have hremaining : r.remaining = c := by rw [remaining, hc]; rfl
  rw [hremaining]
  exact ⟨hleft, hbalanced c hc⟩

/-- One node of the contract. -/
def CenterReport.nodeCapacity (r : CenterReport) (n : CenterNode) : NodeCapacity where
  node := n.name
  drained := n.drained
  available := (r.capacity.total n.name).isSome
  physicalFreeGpus := r.capacity.free n.name
  schedulableFreeGpus :=
    if n.drained then 0
    else max 0 (((r.remaining.free n.name).getD 0 : Int) - max 0 r.cfg.reserveFreePerNode)

theorem CenterReport.nodes_eq : r.snapshot.nodes = r.cfg.nodes.map r.nodeCapacity := by
  have hstart : (Forecast.start r.entries (some r.resources) r.registryDamage r.now).Balanced := by
    intro c hc
    cases hc
    exact balanced_resourceCapacity r.resources
  obtain ⟨c, hc, -⟩ := left_forecast r.cfg.toSchedulerConfig r.entries
    (createdOrder r.entries) 0 _ hstart rfl
  have hremaining : r.remaining = c := by rw [remaining, hc]; rfl
  rw [snapshot, schedulerSnapshot]
  dsimp only
  rw [hc]
  unfold nodeCapacity
  rw [hremaining]
  rfl

/-- What is left of a node is no more than it had. -/
theorem CenterReport.free_le (n : String) :
    (r.remaining.free n).getD 0 ≤ (r.capacity.free n).getD 0 := by
  obtain ⟨hleft, hbalanced⟩ := r.left
  obtain ⟨taken, hperm⟩ := hleft.cards n
  have hlen := hperm.length_eq
  rw [List.length_append] at hlen
  have hcapacity : Balanced r.capacity := balanced_resourceCapacity r.resources
  rw [hbalanced.free_getD, hcapacity.free_getD]
  omega

theorem nodeCapacityOk_iff (names : List String) (item : NodeCapacity) :
    nodeCapacityOk names item = true ↔
      (0 < item.node.length ∧ item.node.length ≤ 512) ∧ item.node ∉ names ∧
        (∀ physical, item.physicalFreeGpus = some physical → physical ≤ 1024 ∧
          item.schedulableFreeGpus ≤ physical) ∧
        (0 ≤ item.schedulableFreeGpus ∧ item.schedulableFreeGpus ≤ 1024) ∧
        (item.physicalFreeGpus = none → item.schedulableFreeGpus = 0) ∧
        (item.available = false ∨ item.drained = true → item.schedulableFreeGpus = 0) := by
  obtain ⟨node, drained, available, physical, free⟩ := item
  cases physical <;> cases drained <;> cases available <;>
    simp [nodeCapacityOk] <;> tauto

/-- What a center says of a node is consistent; the laptop only bounds it. -/
theorem CenterReport.nodeCapacity_ok (names : List String) (n : CenterNode) :
    nodeCapacityOk names (r.nodeCapacity n) = true ↔
      (0 < n.name.length ∧ n.name.length ≤ 512) ∧ n.name ∉ names ∧
        ∀ free, r.capacity.free n.name = some free → free ≤ 1024 := by
  have hle := r.free_le n.name
  have htotal : (r.capacity.total n.name).isSome = (r.capacity.free n.name).isSome :=
    (resourceCapacity_row).1
  have hfree : (r.nodeCapacity n).schedulableFreeGpus = if n.drained then 0
      else max 0 (((r.remaining.free n.name).getD 0 : Int) - max 0 r.cfg.reserveFreePerNode) := rfl
  have hlo : 0 ≤ (r.nodeCapacity n).schedulableFreeGpus := by
    rw [hfree]
    split <;> omega
  have hhi : (r.nodeCapacity n).schedulableFreeGpus ≤ ((r.capacity.free n.name).getD 0 : Nat) := by
    rw [hfree]
    split <;> omega
  have hnone : r.capacity.free n.name = none → (r.nodeCapacity n).schedulableFreeGpus = 0 := by
    intro hnone
    rw [hnone] at hhi
    exact le_antisymm hhi hlo
  have hdrained : n.drained = true → (r.nodeCapacity n).schedulableFreeGpus = 0 := by
    intro hdrained
    rw [hfree, if_pos hdrained]
  have hphysical : (r.nodeCapacity n).physicalFreeGpus = r.capacity.free n.name := rfl
  rw [nodeCapacityOk_iff, hphysical]
  constructor
  · rintro ⟨hname, hnew, hcards, -⟩
    exact ⟨hname, hnew, fun free h => (hcards free h).1⟩
  · rintro ⟨hname, hnew, hcards⟩
    refine ⟨hname, hnew, fun free h => ⟨hcards free h, ?_⟩, ⟨hlo, ?_⟩, hnone, ?_⟩
    · rwa [h] at hhi
    · cases h : r.capacity.free n.name with
      | none =>
        rw [hnone h]
        decide
      | some free =>
        rw [h] at hhi
        exact hhi.trans (Int.ofNat_le.mpr (hcards free h))
    · rintro (havailable | hd)
      · refine hnone (Option.not_isSome_iff_eq_none.mp ?_)
        rw [← htotal]
        exact fun h => absurd (h.symm.trans havailable) (by decide)
      · exact hdrained hd

theorem CenterReport.contractOk_iff (nodes : List CenterNode) (names : List String) :
    contractOk names (nodes.map r.nodeCapacity) = true ↔
      (nodes.map fun n => n.name).Nodup ∧ (∀ n ∈ nodes, n.name ∉ names) ∧
        ∀ n ∈ nodes, (0 < n.name.length ∧ n.name.length ≤ 512) ∧
          ∀ free, r.capacity.free n.name = some free → free ≤ 1024 := by
  induction nodes generalizing names with
  | nil => simp [contractOk]
  | cons n nodes ih =>
    rw [List.map_cons, contractOk, Bool.and_eq_true, r.nodeCapacity_ok, ih]
    have hnode : (r.nodeCapacity n).node = n.name := rfl
    rw [hnode, List.map_cons, List.nodup_cons, List.forall_mem_cons, List.forall_mem_cons]
    constructor
    · rintro ⟨⟨hname, hnew, hcards⟩, hnodup, hnames, hrest⟩
      refine ⟨⟨fun hmem => ?_, hnodup⟩, ⟨hnew, fun m hm hin => ?_⟩, ⟨hname, hcards⟩, hrest⟩
      · obtain ⟨m, hm, heq⟩ := List.mem_map.mp hmem
        exact hnames m hm (List.mem_cons.mpr (.inl heq))
      · exact hnames m hm (List.mem_cons_of_mem _ hin)
    · rintro ⟨⟨hout, hnodup⟩, ⟨hnew, hnames⟩, ⟨hname, hcards⟩, hrest⟩
      refine ⟨⟨hname, hnew, hcards⟩, hnodup, fun m hm hin => ?_, hrest⟩
      rcases List.mem_cons.mp hin with heq | hin
      · exact hout (List.mem_map.mpr ⟨m, hm, heq⟩)
      · exact hnames m hm hin

theorem CenterReport.withinLimits_iff :
    (decide (256 < r.snapshot.nodes.length) || !contractOk [] r.snapshot.nodes) = false ↔
      r.WithinLimits := by
  rw [r.nodes_eq, Bool.or_eq_false_iff, decide_eq_false_iff_not, Bool.not_eq_false',
    r.contractOk_iff, List.length_map, Nat.not_lt]
  constructor
  · rintro ⟨hlen, -, -, hall⟩
    exact ⟨hlen, List.forall_mem_map.mpr fun n hn => (hall n hn).1,
      List.forall_mem_map.mpr fun n hn => (hall n hn).2⟩
  · rintro ⟨hlen, hnames, hcards⟩
    exact ⟨hlen, r.cfg.nodup, by simp, fun n hn =>
      ⟨hnames _ (List.mem_map_of_mem hn), hcards _ (List.mem_map_of_mem hn)⟩⟩

theorem filter_name {nodes : List CenterNode} (hnodup : (nodes.map fun n => n.name).Nodup)
    {n : CenterNode} (hn : n ∈ nodes) : (nodes.filter fun m => m.name = n.name) = [n] := by
  induction nodes with
  | nil => cases hn
  | cons m nodes ih =>
    obtain ⟨hout, hnodup⟩ := List.nodup_cons.mp hnodup
    rcases List.mem_cons.mp hn with rfl | hn
    · have hrest : (nodes.filter fun m => m.name = n.name) = [] := by
        refine List.filter_eq_nil_iff.mpr fun m hm hname => hout ?_
        exact List.mem_map.mpr ⟨m, hm, of_decide_eq_true hname⟩
      rw [List.filter_cons_of_pos (by simp), hrest]
    · have hne : m.name ≠ n.name := fun heq => hout (List.mem_map.mpr ⟨n, hn, heq.symm⟩)
      rw [List.filter_cons_of_neg (by simpa using hne), ih hnodup hn]

/-- What the laptop reads of the contract. -/
theorem CenterReport.schedulable_cases (resource : Resource) (drained : Bool) :
    (¬r.WithinLimits → schedulableFreeGpus ⟨r.center, drained, resource, some r.snapshot.nodes⟩ = none) ∧
    (r.WithinLimits → (∀ n ∈ r.cfg.nodes, resource.node = some n.name →
        schedulableFreeGpus ⟨r.center, drained, resource, some r.snapshot.nodes⟩ =
          some (if (r.nodeCapacity n).available && !n.drained then
            (r.nodeCapacity n).schedulableFreeGpus else 0)) ∧
      ((∀ n ∈ r.cfg.nodes, resource.node ≠ some n.name) →
        schedulableFreeGpus ⟨r.center, drained, resource, some r.snapshot.nodes⟩ = none)) := by
  refine ⟨fun hlimits => ?_, fun hlimits => ⟨fun n hn hname => ?_, fun hnone => ?_⟩⟩
  · have hbad := (not_congr r.withinLimits_iff).mpr hlimits
    rw [Bool.not_eq_false] at hbad
    exact if_pos hbad
  · have hgood : ¬(decide (256 < r.snapshot.nodes.length) || !contractOk [] r.snapshot.nodes) = true := by
      rw [r.withinLimits_iff.mpr hlimits]
      decide
    have hfilter : (r.snapshot.nodes.filter fun item => some item.node = resource.node) =
        [r.nodeCapacity n] := by
      rw [r.nodes_eq, List.filter_map, hname, ← List.map_singleton, ← filter_name r.cfg.nodup hn]
      congr 1
      exact List.filter_congr fun m _ => by
        simp only [Function.comp_apply, Option.some.injEq]
        rfl
    rw [schedulableFreeGpus]
    dsimp only
    rw [if_neg hgood, hfilter]
    rfl
  · have hgood : ¬(decide (256 < r.snapshot.nodes.length) || !contractOk [] r.snapshot.nodes) = true := by
      rw [r.withinLimits_iff.mpr hlimits]
      decide
    have hfilter : (r.snapshot.nodes.filter fun item => some item.node = resource.node) = [] := by
      rw [r.nodes_eq, List.filter_eq_nil_iff]
      refine List.forall_mem_map.mpr fun n hn => ?_
      have hne : some (r.nodeCapacity n).node ≠ resource.node := (hnone n hn).symm
      simpa using hne
    rw [schedulableFreeGpus]
    dsimp only
    rw [if_neg hgood, hfilter]

/-- The request as the laptop puts it. -/
def asked (e : JobEntry) : Asked where
  gpus := e.gpusRequested
  minVramMib := e.minVramMib
  requireSchedulingContract := true

variable {e : JobEntry}

theorem rowFree_asked {row : FreeRow} {free : Int} : rowFree (asked e) row = some free ↔
    row.resource.error = false ∧ row.drained = false ∧
      ∃ schedulable, schedulableFreeGpus row = some schedulable ∧
        free = min schedulable (physicalFree e.minVramMib row.resource : Int) := by
  unfold rowFree
  have hdisk : (match row.resource.diskFreeGib with
      | .number free => decide (0 < (asked e).requireDiskGib) && decide (free < (asked e).requireDiskGib)
      | _ => false) = false := by
    split <;> rfl
  rw [hdisk]
  cases herror : row.resource.error <;> cases hdrained : row.drained <;>
    cases hschedulable : schedulableFreeGpus row <;> simp [asked, eq_comm]

/-- A row offers enough when both of its counts do. -/
theorem CenterReport.rowFree_iff (hwanted : 0 < e.gpusRequested)
    (resource : Resource) :
    (∃ free, rowFree (asked e) ⟨r.center, resource.node.any (· ∈ r.cfg.drained), resource,
        some r.snapshot.nodes⟩ = some free ∧ e.gpusRequested ≤ free) ↔
      r.WithinLimits ∧ ∃ node, r.Counted e resource node := by
  have hbalanced := r.left.2
  have hvalue : ∀ n ∈ r.cfg.nodes, n.drained = false → (r.nodeCapacity n).schedulableFreeGpus =
      max 0 (((freeList r.remaining n.name).length : Int) - max 0 r.cfg.reserveFreePerNode) := by
    intro n _ hdrained
    rw [← hbalanced.free_getD]
    exact if_neg (by simp [hdrained])
  constructor
  · rintro ⟨free, hfree, hle⟩
    obtain ⟨herror, hdrained, schedulable, hschedulable, rfl⟩ := rowFree_asked.mp hfree
    have hlimits : r.WithinLimits := by
      by_contra hlimits
      rw [(r.schedulable_cases resource _).1 hlimits] at hschedulable
      cases hschedulable
    obtain ⟨hknown, hunknown⟩ := (r.schedulable_cases resource
      (resource.node.any (· ∈ r.cfg.drained))).2 hlimits
    refine ⟨hlimits, ?_⟩
    by_cases hnode : ∃ n ∈ r.cfg.nodes, resource.node = some n.name
    · obtain ⟨n, hn, hname⟩ := hnode
      have hout : n.name ∉ r.cfg.drained := by
        simpa [hname] using hdrained
      rw [hknown n hn hname] at hschedulable
      cases hschedulable
      have hn' : n.drained = false := by
        by_contra hd
        refine hout (List.mem_map.mpr ⟨n, List.mem_filter.mpr ⟨hn, ?_⟩, rfl⟩)
        simpa using hd
      obtain ⟨hleft, hlarge⟩ := le_min_iff.mp hle
      refine ⟨n.name, hname, ⟨herror, List.mem_map_of_mem hn, hout⟩, ?_, hlarge⟩
      split at hleft
      · rw [hvalue n hn hn'] at hleft
        omega
      · omega
    · have hnone := hunknown fun n hn heq => hnode ⟨n, hn, heq⟩
      rw [hnone] at hschedulable
      cases hschedulable
  · rintro ⟨hlimits, node, hname, ⟨herror, hconfigured, hout⟩, hleft, hlarge⟩
    obtain ⟨n, hn, rfl⟩ := List.mem_map.mp hconfigured
    have hknown := ((r.schedulable_cases resource
      (resource.node.any (· ∈ r.cfg.drained))).2 hlimits).1 n hn hname
    have hn' : n.drained = false := by
      by_contra hd
      refine hout (List.mem_map.mpr ⟨n, List.mem_filter.mpr ⟨hn, ?_⟩, rfl⟩)
      simpa using hd
    have havailable : (r.nodeCapacity n).available = true := by
      have hsome : 0 < (freeList r.remaining n.name).length := by omega
      have hcapacity : Balanced r.capacity := balanced_resourceCapacity r.resources
      have hfree := r.free_le n.name
      rw [hbalanced.free_getD] at hfree
      show (r.capacity.total n.name).isSome = true
      rw [show (r.capacity.total n.name).isSome = (r.capacity.free n.name).isSome from
        (resourceCapacity_row).1]
      cases hnone : r.capacity.free n.name with
      | none =>
        rw [hnone] at hfree
        exact absurd hsome (Nat.not_lt.mpr hfree)
      | some _ => rfl
    refine ⟨_, rowFree_asked.mpr ⟨herror, ?_, _, hknown, rfl⟩, le_min ?_ hlarge⟩
    · simpa [hname] using hout
    · rw [havailable, hn', hvalue n hn hn']
      simp only [Bool.not_false, Bool.and_self, if_true]
      omega

/-- What fits is counted. -/
theorem CenterReport.counted_of_fits (hpin : e.pinNode = none) (hwanted : 0 < e.gpusRequested)
    {node : String} (h : r.Fits e node) : ∃ row ∈ r.resources, r.Counted e row node := by
  obtain ⟨hconfigured, hout, htotal, hfit⟩ := h
  obtain ⟨hleft, hbalanced⟩ := r.left
  obtain ⟨hcards, hreserve⟩ := gpuFit_cards hbalanced hfit
  rw [hleft.total] at htotal
  obtain ⟨row, hrow, hname, herror, hlist⟩ := (resourceCapacity_row).2 htotal
  obtain ⟨taken, hperm⟩ := hleft.cards node
  have hmore : (freeList r.remaining node).countP (cardFits e) ≤
      (freeList r.capacity node).countP (cardFits e) := by
    rw [← hperm.countP_eq, List.countP_append]
    exact Nat.le_add_left _ _
  have hkept : reserveFor r.cfg.toSchedulerConfig e = max 0 r.cfg.reserveFreePerNode := by
    simp [reserveFor, hpin]
  refine ⟨row, hrow, hname, ⟨herror, hconfigured, hout⟩, ?_, ?_⟩
  · rw [← hkept]
    exact hreserve hwanted
  · rw [physicalFree_eq hlist]
    have hlarge := hcards.trans hmore
    unfold CenterReport.capacity at hlarge
    omega

/-! ## When the choice is right -/

/-- The rows that the laptop gathers. -/
def gather (reports : List CenterReport) : List FreeRow := reports.flatMap CenterReport.rows

/-- The choice is a center where the request fits, and there is one when it fits anywhere. -/
def ChoiceRight (reports : List CenterReport) (e : JobEntry) : Prop :=
  (∀ center, bestCenter (asked e) (gather reports) = some center →
    ∃ r ∈ reports, r.center = center ∧ ∃ node, r.Fits e node) ∧
  ((∃ r ∈ reports, ∃ node, r.Fits e node) → bestCenter (asked e) (gather reports) ≠ none)

/-- Where both counts reach the request on one node, the request fits on some node; and where it fits,
the contract is one that the laptop accepts. -/
structure CenterReport.CountsMeet (r : CenterReport) (e : JobEntry) : Prop where
  cards : r.WithinLimits → ∀ row ∈ r.resources, ∀ node, r.Counted e row node → ∃ node, r.Fits e node
  limits : ∀ node, r.Fits e node → r.WithinLimits

theorem mem_gather {reports : List CenterReport} {row : FreeRow} : row ∈ gather reports ↔
    ∃ r ∈ reports, ∃ resource ∈ r.resources,
      row = ⟨r.center, resource.node.any (· ∈ r.cfg.drained), resource, some r.snapshot.nodes⟩ := by
  simp only [gather, List.mem_flatMap, CenterReport.rows, List.mem_map, eq_comm]

/-- The choice is right for every set of some centers exactly when in each of them the two counts are
not reached by different cards only. -/
theorem choice_right_iff (reports : List CenterReport) (e : JobEntry) (hpin : e.pinNode = none)
    (hwanted : 0 < e.gpusRequested) :
    (∀ chosen, chosen.Sublist reports → ChoiceRight chosen e) ↔ ∀ r ∈ reports, r.CountsMeet e := by
  constructor
  · intro h r hr
    obtain ⟨hpicked, hfound⟩ := h [r] (List.singleton_sublist.mpr hr)
    refine ⟨fun hlimits row hrow node hcounted => ?_, fun node hfits => ?_⟩
    · obtain ⟨free, hfree, hle⟩ := (r.rowFree_iff hwanted row).mpr ⟨hlimits, node, hcounted⟩
      have hmem := mem_gather.mpr ⟨r, List.mem_singleton_self r, row, hrow, rfl⟩
      obtain ⟨center, hcenter⟩ := Option.ne_none_iff_exists'.mp
        (bestCenter_ne_none (q := asked e) hmem r.named hfree hle)
      obtain ⟨r', hr', -, hfits⟩ := hpicked center hcenter
      exact List.mem_singleton.mp hr' ▸ hfits
    · obtain ⟨center, hcenter⟩ := Option.ne_none_iff_exists'.mp
        (hfound ⟨r, List.mem_singleton_self r, node, hfits⟩)
      obtain ⟨row, hrow, -, free, hfree, hle⟩ := bestCenter_row (q := asked e) hwanted hcenter
      obtain ⟨r', hr', resource, -, rfl⟩ := mem_gather.mp hrow
      rw [List.mem_singleton.mp hr'] at hfree
      exact ((r.rowFree_iff hwanted resource).mp ⟨free, hfree, hle⟩).1
  · intro h chosen hsub
    refine ⟨fun center hcenter => ?_, fun ⟨r, hr, node, hfits⟩ => ?_⟩
    · obtain ⟨row, hrow, rfl, free, hfree, hle⟩ := bestCenter_row (q := asked e) hwanted hcenter
      obtain ⟨r, hr, resource, hresource, rfl⟩ := mem_gather.mp hrow
      obtain ⟨hlimits, node, hcounted⟩ := (r.rowFree_iff hwanted resource).mp ⟨free, hfree, hle⟩
      exact ⟨r, hr, rfl, (h r (hsub.subset hr)).cards hlimits resource hresource node hcounted⟩
    · obtain ⟨row, hrow, hcounted⟩ := r.counted_of_fits hpin hwanted hfits
      have hlimits := (h r (hsub.subset hr)).limits node hfits
      obtain ⟨free, hfree, hle⟩ := (r.rowFree_iff hwanted row).mpr ⟨hlimits, node, hcounted⟩
      exact bestCenter_ne_none (mem_gather.mpr ⟨r, hr, row, hrow, rfl⟩) r.named hfree hle

/-- A request for one card of 64 GiB. -/
def sampleRequest : JobEntry := { JobEntry.sample "new" with minVramMib := some 65536 }

/-- A queued job of the same shape. -/
def sampleQueued : JobEntry := { JobEntry.sample "a" with minVramMib := some 65536 }

/-- One node with the given free cards. -/
def CenterReport.sample (entries : List JobEntry) (memory : List ℚ) : CenterReport where
  center := "lab"
  named := by decide
  cfg := .sample
  entries
  resources :=
    [{ node := some "n1"
       gpus := some (memory.map fun m => some { memTotalMib := .number m, free := true }) }]
  now := 2000

theorem CenterReport.sample_fits : (CenterReport.sample [] [81920]).Fits sampleRequest "n1" := by
  refine ⟨by decide, by decide, ?_, ?_⟩ <;> decide +kernel

theorem choice_right_sample : ChoiceRight [CenterReport.sample [] [81920]] sampleRequest := by
  refine (choice_right_iff [CenterReport.sample [] [81920]] sampleRequest rfl (by decide)).mpr ?_ _
    (.refl _)
  intro r hr
  obtain rfl := List.mem_singleton.mp hr
  refine ⟨fun _ _ _ _ _ => ⟨"n1", CenterReport.sample_fits⟩, fun _ _ => ⟨by decide, by decide, ?_⟩⟩
  have hcards : ∀ name ∈ (CenterReport.sample [] [81920]).cfg.configured,
      ((CenterReport.sample [] [81920]).capacity.free name).all (· ≤ 1024) = true := by
    decide +kernel
  intro name hname free hfree
  simpa [hfree] using hcards name hname

/-- The queue takes the large card. One card is left, one free card is large enough, and the center is
chosen. -/
theorem choice_wrong_behind_large : ¬ChoiceRight
    [CenterReport.sample [sampleQueued] [24576, 81920]]
    sampleRequest := by
  intro h
  have hpicked : bestCenter (asked sampleRequest) (gather [CenterReport.sample
      [sampleQueued] [24576, 81920]]) = some "lab" := by
    decide +kernel
  obtain ⟨r, hr, -, node, hconfigured, -, -, hfit⟩ := h.1 "lab" hpicked
  obtain rfl := List.mem_singleton.mp hr
  have hnone : ∀ node ∈ (CenterReport.sample [sampleQueued]
      [24576, 81920]).cfg.configured, gpuFit FleetConfig.sample.toSchedulerConfig sampleRequest
        (CenterReport.sample [sampleQueued]
          [24576, 81920]).remaining node = false := by
    decide +kernel
  exact Bool.false_ne_true ((hnone node hconfigured).symm.trans hfit)

end Dt.Remote
