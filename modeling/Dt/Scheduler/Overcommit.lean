import Mathlib
import Dt.Scheduler.Snapshot

/-!
# The forecast of a queue takes no card twice

The forecast keeps the free cards of a node twice, as a number and as a list of memory sizes. Both
stay in step; a runnable row is charged as many fitting cards as it asks for, and a reservation what
is left of them.
-/

namespace Dt.Scheduler

open Dt.Lib Dt.Jobs Dt.Dispatch

/-! ## Taking cards -/

/-- The cards of a row's shape. -/
def cardFits (e : JobEntry) (m : Option Int) : Bool :=
  e.minVramMib.all fun minimum => m.any (minimum ≤ ·)

/-- `takeCards` takes as many fitting cards as there are, and counts them. -/
theorem takeCards_spec (fits : Option Int → Bool) (n : Nat) (remaining : List (Option Int))
    (free : Nat) :
    ∃ taken, (taken ++ (takeCards fits n remaining free).1).Perm remaining ∧
      (∀ m ∈ taken, fits m = true) ∧ taken.length = min n (remaining.countP fits) ∧
      (takeCards fits n remaining free).2 = free - taken.length := by
  induction n generalizing remaining free with
  | zero => exact ⟨[], .refl _, by simp, by simp, rfl⟩
  | succ n ih =>
    rw [takeCards]
    split
    · rename_i hany
      obtain ⟨m, hm, hfits⟩ := List.any_eq_true.mp hany
      obtain ⟨card, before, after, hbefore, hcard, hremaining, herase⟩ := List.exists_of_eraseP hm hfits
      obtain ⟨taken, hperm, hall, hlen, hfree⟩ := ih (remaining.eraseP fits) (free - 1)
      have hcount : remaining.countP fits = (remaining.eraseP fits).countP fits + 1 := by
        rw [herase, hremaining, List.countP_append, List.countP_cons_of_pos hcard, List.countP_append,
          Nat.add_assoc]
      refine ⟨card :: taken, ?_, List.forall_mem_cons.mpr ⟨hcard, hall⟩, ?_, ?_⟩
      · have hback : (card :: remaining.eraseP fits).Perm remaining := by
          rw [herase, hremaining]
          exact List.perm_middle.symm
        exact (hperm.cons card).trans hback
      · rw [List.length_cons, hlen, hcount, Nat.add_min_add_right]
      · rw [hfree, List.length_cons]
        omega
    · rename_i hnone
      have hzero : remaining.countP fits = 0 := by
        rw [List.countP_eq_zero]
        exact fun m hm hfits => hnone (List.any_eq_true.mpr ⟨m, hm, hfits⟩)
      exact ⟨[], .refl _, by simp, by simp [hzero], rfl⟩

/-! ## The number and the list -/

/-- `free[node]` is the length of the node's card list. -/
def Balanced (c : ResourceCapacity) : Prop :=
  ∀ node, c.free node = (c.freeGpuMemoryMib node).map List.length

theorem balanced_add {c : ResourceCapacity} (h : Balanced c) (row : Resource) :
    Balanced (c.add row) := by
  rw [ResourceCapacity.add]
  split
  · exact h
  · rename_i node _
    split
    · exact h
    · split
      · exact h
      · intro other
        by_cases hother : other = node
        · subst hother
          simp
        · simp [Function.update_of_ne hother, h other]

theorem balanced_resourceCapacity (resources : List Resource) : Balanced (resourceCapacity resources) := by
  have hfold : ∀ (rows : List Resource) (c : ResourceCapacity), Balanced c →
      Balanced (rows.foldl ResourceCapacity.add c) := by
    intro rows
    induction rows with
    | nil => exact fun _ h => h
    | cons row rows ih => exact fun c h => ih _ (balanced_add h row)
  exact hfold resources {} fun _ => rfl

/-- The free cards of a node, by their memory. -/
def freeList (c : ResourceCapacity) (node : String) : List (Option Int) :=
  (c.freeGpuMemoryMib node).getD []

theorem Balanced.free_getD {c : ResourceCapacity} (h : Balanced c) (node : String) :
    (c.free node).getD 0 = (freeList c node).length := by
  rw [h node, freeList]
  cases c.freeGpuMemoryMib node <;> rfl

/-- A row is charged some cards of its shape: a node's cards before are those after and the ones
that were taken. -/
structure Charged (c c' : ResourceCapacity) (node : String) (e : JobEntry) (cards : Nat) : Prop where
  taken : ∃ taken, (taken ++ freeList c' node).Perm (freeList c node) ∧ taken.length = cards ∧
    ∀ m ∈ taken, cardFits e m = true
  others : ∀ other ≠ node, freeList c' other = freeList c other

theorem Charged.length {c c' : ResourceCapacity} {node : String} {e : JobEntry} {cards : Nat}
    (h : Charged c c' node e cards) : (freeList c' node).length + cards = (freeList c node).length := by
  obtain ⟨taken, hperm, rfl, -⟩ := h.taken
  rw [← hperm.length_eq, List.length_append, Nat.add_comm]

theorem Charged.length_le {c c' : ResourceCapacity} {node : String} {e : JobEntry} {cards : Nat}
    (h : Charged c c' node e cards) (other : String) :
    (freeList c' other).length ≤ (freeList c other).length := by
  by_cases hother : other = node
  · subst hother
    have hlen := h.length
    omega
  · rw [h.others other hother]

/-- `_consume_capacity` takes fitting cards, all that the row asks for or all that there are. -/
theorem consumeCapacity_charged {c : ResourceCapacity} (h : Balanced c) (node : String)
    (e : JobEntry) :
    Balanced (consumeCapacity c node e) ∧ Charged c (consumeCapacity c node e) node e
      (min e.gpusRequested.toNat ((freeList c node).countP (cardFits e))) := by
  cases hcards : c.freeGpuMemoryMib node with
  | none =>
    have hsame : consumeCapacity c node e = c := by rw [consumeCapacity, hcards]
    have hnil : freeList c node = [] := by rw [freeList, hcards]; rfl
    rw [hsame, hnil]
    exact ⟨h, ⟨[], by rw [hnil]; exact .refl _, by simp, by simp⟩, fun _ _ => rfl⟩
  | some before =>
    have hbefore : freeList c node = before := by rw [freeList, hcards]; rfl
    obtain ⟨taken, hperm, hall, hlen, hfree⟩ :=
      takeCards_spec (cardFits e) e.gpusRequested.toNat before ((c.free node).getD 0)
    have hresult : consumeCapacity c node e =
        { c with
          freeGpuMemoryMib := Function.update c.freeGpuMemoryMib node
            (some (takeCards (cardFits e) e.gpusRequested.toNat before ((c.free node).getD 0)).1)
          free := Function.update c.free node
            (some (takeCards (cardFits e) e.gpusRequested.toNat before
              ((c.free node).getD 0)).2) } := by
      rw [consumeCapacity, hcards]
      rfl
    rw [h.free_getD, hbefore] at hperm hfree hresult
    generalize takeCards (cardFits e) e.gpusRequested.toNat before before.length = left at *
    have hafter := hperm.length_eq
    rw [List.length_append] at hafter
    rw [hresult, hbefore]
    refine ⟨fun other => ?_, ⟨taken, ?_, hlen, hall⟩, fun other hother => ?_⟩
    · by_cases hother : other = node
      · subst hother
        have hcount : left.2 = left.1.length := by omega
        simp [hcount]
      · simp [Function.update_of_ne hother, h other]
    · simpa [freeList, hcards] using hperm
    · simp [freeList, Function.update_of_ne hother]

/-- The free cards of a node, none where it has not answered. -/
def Forecast.freeCards (f : Forecast) (node : String) : Nat := (f.capacity.bind (·.free node)).getD 0

/-- The number and the list of a forecast are in step. -/
def Forecast.Balanced (f : Forecast) : Prop := ∀ c, f.capacity = some c → Scheduler.Balanced c

theorem Forecast.freeCards_eq {f : Forecast} (h : f.Balanced) {c : ResourceCapacity}
    (hc : f.capacity = some c) (node : String) : f.freeCards node = (freeList c node).length := by
  rw [← (h c hc).free_getD, Forecast.freeCards, hc]
  rfl

/-! ## One row -/

variable {cfg : SchedulerConfig} {entries : List JobEntry} {f : Forecast} {e : JobEntry}

/-- A node that a capacity check selects has the cards of the row. -/
theorem capacityState_fits {c : ResourceCapacity} {excluded : Finset String} {node : String}
    (h : (capacityState cfg e c excluded).state = .runnable)
    (hnode : (capacityState cfg e c excluded).selectedNode = some node) :
    gpuFit cfg e c node = true := by
  revert h hnode
  unfold capacityState
  dsimp only
  split
  · exact nofun
  split
  · split <;> exact nofun
  split
  · exact nofun
  split
  · exact nofun
  split
  · rename_i found hfind
    intro _ hfound
    cases hfound
    exact (List.mem_filter.mp (List.mem_of_find?_eq_some hfind)).2
  split
  · exact nofun
  · intro h
    rcases capacityWait_cases with hs | hs <;> rw [h] at hs <;> cases hs

/-- What fits is there to be taken, and an unpinned row leaves the reserve. -/
theorem gpuFit_cards {c : ResourceCapacity} (h : Balanced c) {node : String}
    (hfit : gpuFit cfg e c node = true) :
    e.gpusRequested.toNat ≤ (freeList c node).countP (cardFits e) ∧
      (0 < e.gpusRequested →
        e.gpusRequested + reserveFor cfg e ≤ ((freeList c node).length : Int)) := by
  by_cases hwanted : 0 < e.gpusRequested
  · have hpos : wantedGpus e = e.gpusRequested := max_eq_right (Int.le_of_lt hwanted)
    rw [gpuFit] at hfit
    simp only [hpos, h.free_getD] at hfit
    rw [if_neg (ne_of_gt hwanted)] at hfit
    split at hfit
    · cases hfit
    · split at hfit
      · cases hfit
      · rename_i hroom
        refine ⟨?_, fun _ => by omega⟩
        cases hmin : e.minVramMib with
        | none =>
          have hall : (freeList c node).countP (cardFits e) = (freeList c node).length :=
            List.countP_eq_length.mpr fun m _ => by rw [cardFits, hmin]; rfl
          simp only [hmin, decide_eq_true_eq] at hfit
          omega
        | some minimum =>
          simp only [hmin, decide_eq_true_eq] at hfit
          have hsame : fittingCards e ((c.freeGpuMemoryMib node).getD []) =
            (freeList c node).countP (cardFits e) := rfl
          omega
  · have hzero : e.gpusRequested.toNat = 0 := Int.toNat_of_nonpos (Int.not_lt.mp hwanted)
    exact ⟨hzero ▸ Nat.zero_le _, fun hpos => absurd hpos hwanted⟩

theorem Forecast.wait_same (f : Forecast) (e : JobEntry) (x : Explanation) :
    (f.wait e x).capacity = f.capacity ∧ (f.wait e x).running = f.running := by
  unfold Forecast.wait
  split
  · split <;> exact ⟨rfl, rfl⟩
  · exact ⟨rfl, rfl⟩

/-- A runnable row takes a place and its cards. -/
theorem explain_runnable (hf : f.Balanced) (h : (explain cfg entries f e).2.state = .runnable) :
    ∃ c node, f.capacity = some c ∧ (explain cfg entries f e).2.selectedNode = some node ∧
      (explain cfg entries f e).1.capacity = some (consumeCapacity c node e) ∧
      Charged c (consumeCapacity c node e) node e e.gpusRequested.toNat ∧
      (0 < e.gpusRequested → e.gpusRequested + reserveFor cfg e ≤ (f.freeCards node : Int)) ∧
      (explain cfg entries f e).1.running = f.running + 1 ∧ ∀ cap ∈ cfg.maxMyJobs, f.running < cap := by
  have hrow : (rowState cfg entries f e).state = .runnable := by
    by_contra hne
    exact hne (explain_of_ne hne ▸ h)
  have heq : (explain cfg entries f e).2 = rowState cfg entries f e := by
    by_cases hwanted : 0 < e.gpusRequested
    · refine ((explain_of_runnable hrow hwanted).resolve_right fun hfifo => ?_).1
      rw [hfifo.1] at h
      cases h
    · simp [explain, hwanted]
  obtain ⟨-, -, hroom, c, hc, hx⟩ := rowState_runnable hrow
  rw [hx] at hrow
  obtain ⟨node, -, hnode, -⟩ := capacityState_runnable hrow
  have hselected : (explain cfg entries f e).2.selectedNode = some node := by rw [heq, hx, hnode]
  obtain ⟨hcards, hleft⟩ := gpuFit_cards (hf c hc) (capacityState_fits hrow hnode)
  have hcharged := (consumeCapacity_charged (hf c hc) node e).2
  rw [Nat.min_eq_left hcards] at hcharged
  have hnext : (explain cfg entries f e).1 =
      (f.consume e (explain cfg entries f e).2).wait e (explain cfg entries f e).2 := rfl
  have hconsume : f.consume e (explain cfg entries f e).2 =
      { f with running := f.running + 1, capacity := some (consumeCapacity c node e) } := by
    rw [Forecast.consume, h, hselected]
    simp [Forecast.taken, hc]
  refine ⟨c, node, hc, hselected, ?_, hcharged, ?_, ?_, hroom⟩
  · rw [hnext, (Forecast.wait_same _ _ _).1, hconsume]
  · rwa [Forecast.freeCards_eq hf hc]
  · rw [hnext, (Forecast.wait_same _ _ _).2, hconsume]

/-- Another row takes no place, and at most what a reservation is about to take. -/
theorem explain_other (h : (explain cfg entries f e).2.state ≠ .runnable) :
    (explain cfg entries f e).1.running = f.running ∧
      ((explain cfg entries f e).1.capacity = f.capacity ∨ ∃ c node, f.capacity = some c ∧
        (explain cfg entries f e).1.capacity = some (consumeCapacity c node e)) := by
  have hnext : (explain cfg entries f e).1 =
      (f.consume e (explain cfg entries f e).2).wait e (explain cfg entries f e).2 := rfl
  rw [hnext, (Forecast.wait_same _ _ _).1, (Forecast.wait_same _ _ _).2]
  generalize (explain cfg entries f e).2 = x at h ⊢
  unfold Forecast.consume
  split
  · contradiction
  · refine ⟨rfl, ?_⟩
    dsimp only
    cases x.selectedNode with
    | none => exact .inl rfl
    | some node =>
      cases hc : f.capacity with
      | none => exact .inl (by simp [Forecast.taken, hc])
      | some c => exact .inr ⟨c, node, rfl, by simp [Forecast.taken, hc]⟩
  · exact ⟨rfl, .inl rfl⟩

theorem explain_balanced (hf : f.Balanced) : (explain cfg entries f e).1.Balanced := by
  by_cases h : (explain cfg entries f e).2.state = .runnable
  · obtain ⟨c, node, hc, -, hnext, -⟩ := explain_runnable hf h
    intro c' hc'
    rw [hnext] at hc'
    cases hc'
    exact (consumeCapacity_charged (hf c hc) node e).1
  · intro c' hc'
    rcases (explain_other h).2 with hsame | ⟨c, node, hc, hnext⟩
    · exact hf c' (hsame ▸ hc')
    · rw [hnext] at hc'
      cases hc'
      exact (consumeCapacity_charged (hf c hc) node e).1

/-! ## All rows -/

/-- The GPUs of the rows that are runnable on a node. -/
def takenOn (rows : List (JobEntry × Explanation)) (node : String) : Nat :=
  ((rows.filter fun r => r.2.state = .runnable && r.2.selectedNode = some node).map
    fun r => r.1.gpusRequested.toNat).sum

/-- The rows that are runnable. -/
def runnableRows (rows : List (JobEntry × Explanation)) : Nat :=
  rows.countP fun r => r.2.state = .runnable

/-- What one row takes from the cards of a node. -/
theorem explain_takes (cfg : SchedulerConfig) (entries : List JobEntry) (e : JobEntry)
    (hf : f.Balanced) (node : String) :
    takenOn [(e, (explain cfg entries f e).2)] node + (explain cfg entries f e).1.freeCards node ≤
      f.freeCards node := by
  by_cases h : (explain cfg entries f e).2.state = .runnable
  · obtain ⟨c, selected, hc, hselected, hnext, hcharged, -⟩ := explain_runnable hf h
    rw [Forecast.freeCards_eq (explain_balanced hf) hnext, Forecast.freeCards_eq hf hc]
    by_cases hnode : selected = node
    · subst hnode
      have hlen := hcharged.length
      have htaken : takenOn [(e, (explain cfg entries f e).2)] selected = e.gpusRequested.toNat := by
        simp [takenOn, h, hselected]
      omega
    · have htaken : takenOn [(e, (explain cfg entries f e).2)] node = 0 := by
        simp [takenOn, h, hselected, hnode]
      rw [htaken, Nat.zero_add]
      exact hcharged.length_le node
  · have htaken : takenOn [(e, (explain cfg entries f e).2)] node = 0 := by simp [takenOn, h]
    rw [htaken, Nat.zero_add]
    rcases (explain_other h).2 with hsame | ⟨c, selected, hc, hnext⟩
    · rw [Forecast.freeCards, Forecast.freeCards, hsame]
    · rw [Forecast.freeCards_eq (explain_balanced hf) hnext, Forecast.freeCards_eq hf hc]
      exact (consumeCapacity_charged (hf c hc) selected e).2.length_le node

/-- The walk over a queue. -/
abbrev forecast (cfg : SchedulerConfig) (entries : List JobEntry) (f : Forecast)
    (queue : List JobEntry) : Forecast × List (JobEntry × Explanation) :=
  walk (fun _ => explain cfg entries) (fun _ => false) 0 f queue

theorem forecast_spec (cfg : SchedulerConfig) (entries queue : List JobEntry) (i : Nat) (f : Forecast)
    (hf : f.Balanced) :
    let result := walk (fun _ => explain cfg entries) (fun _ => false) i f queue
    result.1.Balanced ∧
      (∀ node, takenOn result.2 node + result.1.freeCards node ≤ f.freeCards node) ∧
      result.1.running = f.running + runnableRows result.2 ∧
      ∀ cap ∈ cfg.maxMyJobs, runnableRows result.2 ≤ cap - f.running := by
  induction queue generalizing i f with
  | nil => exact ⟨hf, fun _ => by simp [walk, takenOn], by simp [walk, runnableRows], by
      simp [walk, runnableRows]⟩
  | cons e queue ih =>
    obtain ⟨hbalanced, htaken, hrunning, hcap⟩ := ih (i + 1) _ (explain_balanced (e := e) hf)
    have hfirst := explain_takes cfg entries e hf
    simp only [walk, Bool.false_eq_true, if_false]
    generalize walk (fun _ => explain cfg entries) (fun _ => false) (i + 1)
      (explain cfg entries f e).1 queue = rest at *
    have hsum : ∀ node, takenOn ((e, (explain cfg entries f e).2) :: rest.2) node =
        takenOn [(e, (explain cfg entries f e).2)] node + takenOn rest.2 node := by
      intro node
      simp only [takenOn, List.filter_cons, List.filter_nil]
      split <;> simp
    refine ⟨hbalanced, fun node => ?_, ?_, fun cap hmem => ?_⟩
    · have hnode := hfirst node
      have hrest := htaken node
      rw [hsum]
      omega
    · rw [hrunning, runnableRows, runnableRows, List.countP_cons]
      by_cases h : (explain cfg entries f e).2.state = .runnable
      · obtain ⟨-, -, -, -, -, -, -, hone, -⟩ := explain_runnable hf h
        rw [hone, if_pos (decide_eq_true h)]
        omega
      · rw [(explain_other h).1, if_neg (by simpa using h)]
        omega
    · have hrest := hcap cap hmem
      rw [runnableRows, List.countP_cons, ← runnableRows]
      by_cases h : (explain cfg entries f e).2.state = .runnable
      · obtain ⟨-, -, -, -, -, -, -, hone, hroom⟩ := explain_runnable hf h
        have hlt := hroom cap hmem
        rw [hone] at hrest
        rw [if_pos (decide_eq_true h)]
        omega
      · rw [(explain_other h).1] at hrest
        rw [if_neg (by simpa using h)]
        omega

/-- For every queue and every view of the resources: the runnable rows of a node ask for no more than
its free cards, and up to an unpinned one they leave the reserve; each of them is charged as many
cards of its shape as it asks for; there are no more of them than the quota has room; and the number
of free cards is the length of the list all the way. -/
theorem forecast_within_capacity (cfg : SchedulerConfig) (entries : List JobEntry)
    (resources : Option (List Resource)) (agentAlive agentHeartbeatStale : Option Bool)
    (registryDamage : Nat) (now : Time) :
    let snapshot := schedulerSnapshot cfg entries resources agentAlive agentHeartbeatStale
      registryDamage now
    let start := Forecast.start entries resources registryDamage now
    let before k := (forecast cfg entries start ((createdOrder entries).take k)).1
    (∀ node, takenOn snapshot.queue node ≤ start.freeCards node) ∧
    (∀ k e x node, snapshot.queue[k]? = some (e, x) → x.state = .runnable →
      x.selectedNode = some node → e.pinNode = none → 0 < e.gpusRequested →
      (takenOn (snapshot.queue.take (k + 1)) node : Int) + max 0 cfg.reserveFreePerNode ≤
        start.freeCards node) ∧
    (∀ k e x, snapshot.queue[k]? = some (e, x) → x.state = .runnable →
      ∃ c c' node, (before k).capacity = some c ∧ (before (k + 1)).capacity = some c' ∧
        x.selectedNode = some node ∧ Charged c c' node e e.gpusRequested.toNat) ∧
    (∀ cap ∈ cfg.maxMyJobs, snapshot.runnableQueued ≤ cap - snapshot.running) ∧
    ∀ k c, (before k).capacity = some c →
      ∀ node, c.free node = (c.freeGpuMemoryMib node).map List.length := by
  intro snapshot start before
  have hstart : start.Balanced := by
    intro c hc
    obtain ⟨rows, -, rfl⟩ := Option.map_eq_some_iff.mp hc
    exact balanced_resourceCapacity rows
  have hqueue : snapshot.queue = (forecast cfg entries start (createdOrder entries)).2 := rfl
  have hall := forecast_spec cfg entries (createdOrder entries) 0 start hstart
  have hbefore : ∀ k, (before k).Balanced := fun k =>
    (forecast_spec cfg entries ((createdOrder entries).take k) 0 start hstart).1
  have hrow : ∀ {k e x}, snapshot.queue[k]? = some (e, x) → x.state = .runnable →
      ∃ c node, (before k).capacity = some c ∧ x.selectedNode = some node ∧
        (before (k + 1)).capacity = some (consumeCapacity c node e) ∧
        Charged c (consumeCapacity c node e) node e e.gpusRequested.toNat ∧
        (0 < e.gpusRequested → e.gpusRequested + reserveFor cfg e ≤ ((before k).freeCards node : Int)) ∧
        takenOn (snapshot.queue.take (k + 1)) node =
          takenOn (snapshot.queue.take k) node + e.gpusRequested.toNat := by
    intro k e x hk hx
    obtain ⟨hverdict, hnext⟩ := walk_get (hqueue ▸ hk)
    have hsame : (explain cfg entries (before k) e).2 = x := hverdict
    obtain ⟨c, node, hc, hnode, hcapacity, hcharged, hleft, -⟩ :=
      explain_runnable (hbefore k) (hsame ▸ hx)
    rw [hsame] at hnode
    refine ⟨c, node, hc, hnode, ?_, hcharged, hleft, ?_⟩
    · rw [← hcapacity]
      exact congrArg Forecast.capacity hnext
    · obtain ⟨hlt, hget⟩ := List.getElem?_eq_some_iff.mp hk
      rw [List.take_succ_eq_append_getElem hlt, hget]
      simp [takenOn, hx, hnode]
  refine ⟨fun node => ?_, fun k e x node hk hx hnode hpin hwanted => ?_, fun k e x hk hx => ?_,
    fun cap hcap => ?_, fun k c hc => hbefore k c hc⟩
  · exact (Nat.le_add_right _ _).trans (hall.2.1 node)
  · obtain ⟨c, node', -, hnode', -, -, hleft, htaken⟩ := hrow hk hx
    obtain rfl : node' = node := by simpa [hnode'] using hnode
    have hprefix := (forecast_spec cfg entries ((createdOrder entries).take k) 0
      start hstart).2.1 node'
    rw [walk_take] at hprefix
    have hleft := hleft hwanted
    have hreserve : reserveFor cfg e = max 0 cfg.reserveFreePerNode := by simp [reserveFor, hpin]
    rw [htaken]
    have hcards : takenOn (snapshot.queue.take k) node' + (before k).freeCards node' ≤
      start.freeCards node' := hprefix
    omega
  · obtain ⟨c, node, hc, hnode, hcapacity, hcharged, -⟩ := hrow hk hx
    exact ⟨c, _, node, hc, hcapacity, hnode, hcharged⟩
  · have hcount := hall.2.2.2 cap hcap
    rwa [runnableRows, List.countP_eq_length_filter] at hcount

end Dt.Scheduler
