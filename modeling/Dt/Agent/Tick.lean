import Mathlib
import Dt.Lib.Walk
import Dt.Dispatch.Placement
import Dt.Scheduler.Admission

/-!
# One tick of the agent

A tick harvests the dispatches that have returned, reads the active rows and walks the queue in
the order of submission. With a pool a dispatch runs on a worker thread and is settled by a later
tick; without one the walk waits for its outcome. The walk keeps three accounts for the GPU jobs
behind a row: the pins found busy, the nodes that dispatches in flight are heading for, and whether
some earlier job may still be given any node.

What a tick learns from the world is its input: which futures are done, the rows before and after
the reconcile pass, the clocks, and what a synchronous dispatch answers. The retries of terminal
rows, the log lines and the notifications are left out.
-/

namespace Dt.Agent

open Dt.Lib Dt.Jobs Dt.Dispatch Dt.Scheduler

/-- What `dispatch_queued` answers; an exception of it counts as `raised`. -/
inductive Outcome where
  | started | finished | failed | skipped | killed | cancelFailed
  | blocked | unreachable | waiting | busy | raised
  deriving DecidableEq, Repr

/-- `_REPORTED_DISPATCH_OUTCOMES`, which is also `_QUOTA_CHANGING_OUTCOMES`. -/
def Outcome.reported : Outcome → Bool
  | .started | .finished | .failed | .skipped | .killed | .cancelFailed => true
  | .blocked | .unreachable | .waiting | .busy | .raised => false

/-! ## Backoff -/

def blockedBackoffBaseS : ℚ := 5

def blockedBackoffCapS : ℚ := 300

/-- `d[key] = value` -/
def putItem {α : Type} (d : Dict α) (key : String) (value : α) : Dict α :=
  if d.any (·.1 = key) then d.map fun p => if p.1 = key then (key, value) else p
  else d ++ [(key, value)]

/-- `d.pop(key, None)` -/
def popItem {α : Type} (d : Dict α) (key : String) : Dict α := d.filter (·.1 ≠ key)

/-- What the agent remembers of blocked jobs from tick to tick; a caller may pass neither. -/
structure Memory where
  blockedLog : Option (Dict String) := none
  blockedBackoff : Option (Dict (Nat × Time)) := none
  deriving DecidableEq, Repr

/-- `_bump_blocked_backoff` at a reading of the monotonic clock. -/
def bumpBlockedBackoff (m : Memory) (id : JobId) (clock : Time) : Memory :=
  { m with
    blockedBackoff := m.blockedBackoff.map fun backoff =>
      let retries := ((backoff.lookup id).getD (0, 0)).1
      let delay := min blockedBackoffCapS (blockedBackoffBaseS * 2 ^ min retries 16)
      putItem backoff id (min (retries + 1) 16, clock + delay) }

/-- `blocked_log_state[job_id] = detail or default` -/
def Memory.logs (m : Memory) (id : JobId) (detail : Option String) (default : String) : Memory :=
  { m with
    blockedLog := m.blockedLog.map (putItem · id ((detail.filter (· ≠ "")).getD default)) }

/-- `_note_dispatch_outcome`, without what it logs and reports. -/
def noteDispatchOutcome (m : Memory) (id : JobId) (outcome : Outcome) (detail : Option String)
    (clock : Time) : Memory :=
  match outcome with
  | .raised => bumpBlockedBackoff (m.logs id detail "unknown error") id clock
  | .blocked | .unreachable => bumpBlockedBackoff (m.logs id detail "reason unavailable") id clock
  | .waiting =>
    Memory.logs { m with blockedBackoff := m.blockedBackoff.map (popItem · id) } id detail
      "reason unavailable"
  | _ =>
    { m with
      blockedLog := m.blockedLog.map (popItem · id)
      blockedBackoff := m.blockedBackoff.map (popItem · id) }

/-- The full retry of the job waits for a deadline. -/
def backingOff (m : Memory) (id : JobId) (clock : Time) : Bool :=
  (m.blockedBackoff.bind (·.lookup id)).any (clock < ·.2)

/-! ## The pool -/

structure DispatchPool where
  workers : Nat
  one_le_workers : 1 ≤ workers
  inflight : List JobId := []
  deriving DecidableEq

def DispatchPool.new (workers : Nat) : DispatchPool where
  workers := max 1 workers
  one_le_workers := le_max_left 1 workers

def DispatchPool.saturated (p : DispatchPool) : Bool := p.workers ≤ p.inflight.length

def DispatchPool.submit (p : DispatchPool) (id : JobId) : DispatchPool :=
  { p with inflight := if id ∈ p.inflight then p.inflight else p.inflight ++ [id] }

/-- The dispatches whose future is done leave the pool with their outcome. -/
def DispatchPool.harvest (p : DispatchPool) (done : JobId → Option (Outcome × Option String)) :
    DispatchPool × List (JobId × Outcome × Option String) :=
  ({ p with inflight := p.inflight.filter fun id => (done id).isNone },
    p.inflight.filterMap fun id => (done id).map (id, ·))

/-! ## The walk -/

/-- What the walk learns at one row. The outcome, the row and the two later clocks are those of a
synchronous dispatch; `dispatch_queued` changes the row of the snapshot in place. -/
structure Turn where
  now : Time
  clock : Time
  outcome : Outcome := .waiting
  detail : Option String := none
  row : JobEntry
  settledNow : Time := now
  settledClock : Time := clock

structure Walk where
  pool : Option DispatchPool
  memory : Memory
  entries : List JobEntry
  running : Nat
  busyPins : Finset String := ∅
  unpinnedGpuWait : Bool := false
  inflightNodes : Finset String := ∅

/-- How the walk left a row. `submitted` and `attempted` carry the nodes reserved for earlier
jobs. -/
inductive Verdict where
  | capped
  | dispatching
  | busy
  | backedOff
  | submitted (reserved : Finset String)
  | attempted (reserved : Finset String) (outcome : Outcome)
  deriving DecidableEq

/-- `entry.dispatch_node or entry.pin_node` -/
def target (e : JobEntry) : Option String := orText e.dispatchNode e.pinNode

def usesGpu (e : JobEntry) : Bool := 0 < e.gpusRequested

def Walk.inFlight (w : Walk) (id : JobId) : Bool := w.pool.any (id ∈ ·.inflight)

/-- Nodes that earlier GPU work waits for or a launch is heading to. -/
def Walk.spoken (w : Walk) : Finset String := w.busyPins ∪ w.inflightNodes

/-- Only unpinned GPU work has to avoid the nodes that are spoken for. -/
def Walk.reservedForEarlier (w : Walk) (e : JobEntry) : Finset String :=
  if e.pinNode.isNone && usesGpu e then w.spoken else ∅

/-- A dispatch that is in flight or was just submitted, with the node it is known to go to. -/
def Walk.heading (w : Walk) (e : JobEntry) : Option String → Walk
  | some node => { w with inflightNodes := insert node w.inflightNodes }
  | none => { w with unpinnedGpuWait := w.unpinnedGpuWait || usesGpu e }

/-- The walk after a synchronous dispatch. -/
def Walk.settle (w : Walk) (damage : Nat) (e : JobEntry) (t : Turn) : Walk :=
  let entries := w.entries.map fun x => if x.jobId = e.jobId then t.row else x
  let waits := t.outcome = .busy && usesGpu e
  { w with
    entries := entries
    running := if t.outcome.reported then occupancy entries t.settledNow + damage else w.running
    memory := noteDispatchOutcome w.memory e.jobId t.outcome t.detail t.settledClock
    unpinnedGpuWait := w.unpinnedGpuWait || waits && e.pinNode.isNone
    busyPins := if waits then w.busyPins ∪ e.pinNode.toFinset else w.busyPins }

/-- The body of the dispatch loop. -/
def visit (maxMyJobs : Option Nat) (damage : Nat) (t : Turn) (w : Walk) (e : JobEntry) :
    Walk × Verdict :=
  if maxMyJobs.any fun cap => cap + (occupiesQuota e t.now).toNat ≤ w.running then (w, .capped)
  else if w.inFlight e.jobId then (w.heading e (target e), .dispatching)
  else if usesGpu e && (w.unpinnedGpuWait || e.pinNode.any (· ∈ w.busyPins)) then (w, .busy)
  else if backingOff w.memory e.jobId t.clock then (w, .backedOff)
  else match w.pool with
  | some p =>
    if e.pinNode.any (· ∈ w.inflightNodes) then (w, .busy)
    else if p.saturated then (w, .busy)
    else
      (Walk.heading { w with pool := some (p.submit e.jobId) } e e.pinNode,
        .submitted (w.reservedForEarlier e))
  | none => (w.settle damage e t, .attempted (w.reservedForEarlier e) t.outcome)

/-- What the world gives one tick: a registry snapshot has one row a job. -/
structure TickInput where
  done : JobId → Option (Outcome × Option String) := fun _ => none
  harvestClock : Time := 0
  active : List JobEntry
  entries : List JobEntry
  nodup : (entries.map (·.jobId)).Nodup
  damage : Nat := 0
  now : Time
  turn : Nat → Turn

/-- `sorted((queued rows), key=lambda entry: entry.created_at)` -/
def TickInput.queue (x : TickInput) : List JobEntry :=
  (x.entries.filter fun e => e.status = .queued).insertionSort fun a b => a.createdAt ≤ b.createdAt

/-- A job that ran before the reconcile pass does not run after it. -/
def TickInput.freedCapacity (x : TickInput) : Bool :=
  x.active.any fun e => e.status = .running &&
    !x.entries.any fun e' => e'.status = .running && e'.jobId = e.jobId

/-- The walk as the harvest and the reconcile pass leave it. -/
def TickInput.start (x : TickInput) (pool : Option DispatchPool) (m : Memory) : Walk :=
  let harvested := pool.map (·.harvest x.done)
  let noted := (harvested.elim [] Prod.snd).foldl
    (fun m r => noteDispatchOutcome m r.1 r.2.1 r.2.2 x.harvestClock) m
  { pool := harvested.map Prod.fst
    memory :=
      if x.freedCapacity then { noted with blockedBackoff := noted.blockedBackoff.map fun _ => [] }
      else noted
    entries := x.entries
    running := occupancy x.entries x.now + x.damage }

/-- What a tick leaves behind. -/
structure Ticked where
  pool : Option DispatchPool
  memory : Memory
  entries : List JobEntry
  visits : List (JobEntry × Verdict)

/-- Forget what is neither queued nor in flight. -/
def forget {α : Type} (pool : Option DispatchPool) (queue : List JobEntry) (d : Dict α) : Dict α :=
  d.filter fun p => queue.any (·.jobId = p.1) || pool.any (p.1 ∈ ·.inflight)

def processOnce (maxMyJobs : Option Nat) (pool : Option DispatchPool) (m : Memory) (x : TickInput) :
    Ticked :=
  let walked := walk (fun i => visit maxMyJobs x.damage (x.turn i)) (· = .capped) 0 (x.start pool m)
    x.queue
  { pool := walked.1.pool
    memory :=
      { blockedLog := walked.1.memory.blockedLog.map (forget walked.1.pool x.queue)
        blockedBackoff := walked.1.memory.blockedBackoff.map (forget walked.1.pool x.queue) }
    entries := walked.1.entries
    visits := walked.2 }

/-! ## What a visit can do -/

def Walk.full (w : Walk) : Bool := w.pool.any (·.saturated)

/-- What the visits of a walk only add to. With a pool nothing rewrites the memory. -/
structure Walk.Le (w u : Walk) : Prop where
  pool : u.pool.isSome = w.pool.isSome
  memory : w.pool.isSome = true → u.memory = w.memory
  wait : w.unpinnedGpuWait = true → u.unpinnedGpuWait = true
  full : w.full = true → u.full = true
  spoken : w.spoken ⊆ u.spoken
  inFlight : ∀ id, w.inFlight id = true → u.inFlight id = true

theorem Walk.Le.refl (w : Walk) : w.Le w := ⟨rfl, fun _ => rfl, id, id, Finset.Subset.refl _, fun _ => id⟩

theorem Walk.Le.trans (w u z : Walk) (h : w.Le u) (h' : u.Le z) : w.Le z where
  pool := h'.pool.trans h.pool
  memory hp := (h'.memory (h.pool.trans hp)).trans (h.memory hp)
  wait := h'.wait ∘ h.wait
  full := h'.full ∘ h.full
  spoken := h.spoken.trans h'.spoken
  inFlight id := h'.inFlight id ∘ h.inFlight id

theorem Walk.heading_le (w : Walk) (e : JobEntry) (node : Option String) : w.Le (w.heading e node) := by
  cases node with
  | none =>
    exact ⟨rfl, fun _ => rfl, fun h => by simp [Walk.heading, h], id, Finset.Subset.refl _, fun _ => id⟩
  | some n =>
    exact ⟨rfl, fun _ => rfl, id, id,
      Finset.union_subset_union_right (Finset.subset_insert n w.inflightNodes), fun _ => id⟩

theorem DispatchPool.mem_submit {p : DispatchPool} {id id' : JobId} :
    id' ∈ (p.submit id).inflight ↔ id' ∈ p.inflight ∨ id' = id := by
  by_cases h : id ∈ p.inflight
  · simp only [submit, h, if_true]
    constructor
    · exact Or.inl
    · rintro (h' | rfl)
      exacts [h', h]
  · simp [submit, h]

theorem DispatchPool.saturated_submit {p : DispatchPool} (id : JobId) (h : p.saturated = true) :
    (p.submit id).saturated = true := by
  simp only [saturated, decide_eq_true_eq] at h ⊢
  have hlen : p.inflight.length ≤ (p.submit id).inflight.length := by
    simp only [submit]
    split
    · exact le_rfl
    · simp
  exact h.trans hlen

theorem Walk.submit_le {w : Walk} {p : DispatchPool} (hp : w.pool = some p) (id : JobId) :
    w.Le { w with pool := some (p.submit id) } where
  pool := by simp [hp]
  memory _ := rfl
  wait h := h
  full h := by
    simp only [full, hp, Option.any_some] at h ⊢
    exact DispatchPool.saturated_submit id h
  spoken := Finset.Subset.refl _
  inFlight id' h := by
    simp only [inFlight, hp, Option.any_some, decide_eq_true_eq] at h ⊢
    exact DispatchPool.mem_submit.mpr (.inl h)

variable {maxMyJobs : Option Nat} {damage : Nat} {t : Turn} {w : Walk} {e : JobEntry}

theorem visit_le (maxMyJobs : Option Nat) (damage : Nat) (t : Turn) (w : Walk) (e : JobEntry) :
    w.Le (visit maxMyJobs damage t w e).1 := by
  unfold visit
  split
  · exact .refl w
  split
  · exact w.heading_le e (target e)
  split
  · exact .refl w
  split
  · exact .refl w
  split
  · rename_i p hp
    split
    · exact .refl w
    split
    · exact .refl w
    · exact .trans _ _ _ (Walk.submit_le hp e.jobId) (Walk.heading_le _ e e.pinNode)
  · rename_i hp
    refine ⟨rfl, fun h => by simp [hp] at h, fun h => by simp [Walk.settle, h], id, ?_, fun _ => id⟩
    -- a synchronous dispatch only adds its own pin
    refine Finset.union_subset_union_left ?_
    simp only [Walk.settle]
    split
    · exact Finset.subset_union_left
    · exact Finset.Subset.refl _

/-- A submission is made from a walk that holds nothing back from the row. -/
theorem visit_submitted {reserved : Finset String}
    (h : (visit maxMyJobs damage t w e).2 = .submitted reserved) :
    w.pool.isSome = true ∧ w.full = false ∧ (usesGpu e = true → w.unpinnedGpuWait = false) ∧
      (usesGpu e = true → ∀ n ∈ e.pinNode, n ∉ w.spoken) ∧ reserved = w.reservedForEarlier e := by
  unfold visit at h
  split at h
  · cases h
  split at h
  · cases h
  split at h
  · cases h
  rename_i hgpu
  split at h
  · cases h
  split at h
  · rename_i p hp
    split at h
    · cases h
    rename_i hpin
    split at h
    · cases h
    rename_i hfull
    simp only [Bool.not_eq_true, Bool.and_eq_false_iff, Bool.or_eq_false_iff] at hgpu hpin hfull
    refine ⟨by simp [hp], by simpa [Walk.full, hp] using hfull, ?_, ?_, ?_⟩
    · intro hg
      exact (hgpu.resolve_left (by simp [hg])).1
    · intro hg n hn
      have hbusy := (hgpu.resolve_left (by simp [hg])).2
      rw [Option.mem_def.mp hn] at hbusy hpin
      simp only [Walk.spoken, Finset.mem_union, not_or]
      exact ⟨by simpa using hbusy, by simpa using hpin⟩
    · cases h
      rfl
  · cases h

/-- The node of an earlier row that the tick knows: where its dispatch in flight is heading, or the
pin it was submitted with or waits for. -/
inductive Placed (e : JobEntry) : Verdict → String → Prop
  | inFlight {n : String} (h : target e = some n) : Placed e .dispatching n
  | submitted {n : String} {reserved : Finset String} (h : e.pinNode = some n) :
      Placed e (.submitted reserved) n
  | waiting {n : String} (h : e.pinNode = some n) : Placed e .busy n

/-- With a pool, a GPU row that neither stops the walk nor backs off either holds every later GPU
job of the tick or has a node that is spoken for from then on. -/
theorem visit_placed (hp : w.pool.isSome = true) (hg : usesGpu e = true)
    (hcap : (visit maxMyJobs damage t w e).2 ≠ .capped)
    (hb : backingOff w.memory e.jobId t.clock = false)
    (hwait : (visit maxMyJobs damage t w e).1.unpinnedGpuWait = false)
    (hfull : (visit maxMyJobs damage t w e).1.full = false) :
    ∃ n, Placed e (visit maxMyJobs damage t w e).2 n ∧
      n ∈ (visit maxMyJobs damage t w e).1.spoken := by
  obtain ⟨p, hp⟩ := Option.isSome_iff_exists.mp hp
  revert hcap hwait hfull
  unfold visit
  split
  · exact fun h => absurd rfl h
  split
  · intro _ hwait _
    cases htarget : target e with
    | none => simp [Walk.heading, htarget, hg] at hwait
    | some n => exact ⟨n, .inFlight htarget, by simp [Walk.heading, Walk.spoken]⟩
  split
  · rename_i hheld
    intro _ hwait _
    simp only [hg, Bool.true_and, Bool.or_eq_true] at hheld
    obtain ⟨n, hn, hbusy⟩ := (Option.any_eq_true _ _).mp (hheld.resolve_left (Bool.eq_false_iff.mp hwait))
    exact ⟨n, .waiting hn, Finset.mem_union_left _ (by simpa using hbusy)⟩
  simp only [hb, hp, Bool.false_eq_true, if_false]
  split
  · rename_i hpin
    intro _ _ _
    obtain ⟨n, hn, hin⟩ := (Option.any_eq_true _ _).mp hpin
    exact ⟨n, .waiting hn, Finset.mem_union_right _ (by simpa using hin)⟩
  split
  · rename_i hsat
    intro _ _ hfull
    simp [Walk.full, hp, hsat] at hfull
  · intro _ hwait _
    cases hpin : e.pinNode with
    | none => simp [Walk.heading, hpin, hg] at hwait
    | some n => exact ⟨n, .submitted hpin, by simp [Walk.heading, Walk.spoken]⟩

/-- A visit puts at most its own row in flight. -/
theorem visit_inFlight {id : JobId} (h : (visit maxMyJobs damage t w e).1.inFlight id = true) :
    w.inFlight id = true ∨ id = e.jobId := by
  have hheading : ∀ (w : Walk) node, (w.heading e node).inFlight id = w.inFlight id := by
    intro w node
    cases node <;> rfl
  unfold visit at h
  split at h
  · exact .inl h
  split at h
  · exact .inl (hheading w _ ▸ h)
  split at h
  · exact .inl h
  split at h
  · exact .inl h
  split at h
  · rename_i p hp
    split at h
    · exact .inl h
    split at h
    · exact .inl h
    · rw [hheading] at h
      simp only [Walk.inFlight, Option.any_some, decide_eq_true_eq, DispatchPool.mem_submit] at h
      simpa only [Walk.inFlight, hp, Option.any_some, decide_eq_true_eq] using h
  · exact .inl h

/-- The row is in flight when it is visited, or it is not, as the verdict says. -/
theorem Placed.headed {n : String} (h : Placed e (visit maxMyJobs damage t w e).2 n) :
    (if w.inFlight e.jobId then target e else e.pinNode) = some n := by
  revert h
  unfold visit
  split
  · rintro ⟨⟩
  split
  · rename_i hin
    rintro (h | h | h)
    simpa [hin] using h
  · rename_i hin
    intro h
    have hpin : e.pinNode = some n := by
      split at h
      · cases h with | waiting h => exact h
      split at h
      · cases h
      split at h
      · split at h
        · cases h with | waiting h => exact h
        split at h
        · cases h with | waiting h => exact h
        · cases h with | submitted h => exact h
      · cases h
    simpa [hin] using hpin

/-! ## The order of the GPU jobs -/

section Fifo

variable {x : TickInput} {pool : Option DispatchPool} {m : Memory}

theorem TickInput.queue_nodup (x : TickInput) : (x.queue.map (·.jobId)).Nodup := by
  have hperm := List.perm_insertionSort (fun a b : JobEntry => a.createdAt ≤ b.createdAt)
    (x.entries.filter fun e => e.status = .queued)
  exact ((hperm.map _).nodup_iff).mpr (x.nodup.sublist (List.filter_sublist.map _))

/-- What is in flight at some visit was in flight before the walk or was visited earlier. -/
theorem trail_inFlight {id : JobId} :
    ∀ {visits : List (JobEntry × Verdict)} {i : Nat} {w u : Walk},
      Trail (fun i => visit maxMyJobs x.damage (x.turn i)) i w visits u → u.inFlight id = true →
      w.inFlight id = true ∨ id ∈ visits.map (·.1.jobId)
  | [], _, _, _, h, hu => .inl (h ▸ hu)
  | (e, _) :: visits, i, w, u, h, hu => by
    rcases trail_inFlight h.2 hu with hin | hin
    · exact (visit_inFlight hin).imp_right fun he => by simp [he]
    · exact .inr (List.mem_cons_of_mem _ hin)

/-- The node a row of the queue is heading for as the walk starts. -/
def TickInput.headedFor (x : TickInput) (pool : Option DispatchPool) (m : Memory) (e : JobEntry) :
    Option String :=
  if (x.start pool m).inFlight e.jobId then target e else e.pinNode

/-- No walk puts a row in flight before it visits it. -/
theorem headedFor_eq {j : Nat} {e : JobEntry} {v : Verdict} {u : Walk}
    (hv : (processOnce maxMyJobs pool m x).visits[j]? = some (e, v))
    (hu : Trail (fun i => visit maxMyJobs x.damage (x.turn i)) 0 (x.start pool m)
      ((processOnce maxMyJobs pool m x).visits.take j) u) :
    x.headedFor pool m e = if u.inFlight e.jobId then target e else e.pinNode := by
  have hpre : (processOnce maxMyJobs pool m x).visits.map Prod.fst <+: x.queue := walk_prefix _ 0 _ _
  have hnodup : ((processOnce maxMyJobs pool m x).visits.map (·.1.jobId)).Nodup := by
    have hsub := hpre.sublist.map (·.jobId)
    rw [List.map_map] at hsub
    exact x.queue_nodup.sublist hsub
  have hlater : e.jobId ∉ ((processOnce maxMyJobs pool m x).visits.take j).map (·.1.jobId) := by
    rw [List.map_take]
    have hdrop : e.jobId ∈ ((processOnce maxMyJobs pool m x).visits.map (·.1.jobId)).drop j :=
      List.mem_of_getElem? (i := 0) (by simp [hv])
    exact fun htake => List.disjoint_take_drop hnodup le_rfl htake hdrop
  have hle := hu.rel Walk.Le.refl Walk.Le.trans fun i => visit_le maxMyJobs x.damage (x.turn i)
  have hiff : (x.start pool m).inFlight e.jobId = u.inFlight e.jobId :=
    Bool.eq_iff_iff.mpr
      ⟨hle.inFlight _, fun hin => (trail_inFlight hu hin).resolve_right hlater⟩
  rw [TickInput.headedFor, hiff]

/-- The job takes no card of the node: it is pinned elsewhere or has the node reserved, and so no
placement of it is offered the node. -/
structure Spares (e : JobEntry) (reserved : Finset String) (n : String) : Prop where
  apart : (∃ pin, e.pinNode = some pin ∧ pin ≠ "" ∧ pin ≠ n) ∨ (e.pinNode = none ∧ n ∈ reserved)
  never : ∀ diskMinGib statuses nodes reserve candidates,
    pickCandidates statuses nodes (queuedRunSpec diskMinGib e) reserve reserved = .ok candidates →
    ∀ c ∈ candidates, c.name ≠ n

theorem Spares.of_apart {e : JobEntry} {reserved : Finset String} {n : String}
    (h : (∃ pin, e.pinNode = some pin ∧ pin ≠ "" ∧ pin ≠ n) ∨ (e.pinNode = none ∧ n ∈ reserved)) :
    Spares e reserved n := by
  refine ⟨h, fun diskMinGib statuses nodes reserve candidates hc c hmem => ?_⟩
  have hnode : (queuedRunSpec diskMinGib e).node = e.pinNode := rfl
  rcases h with ⟨pin, hpin, hne, hn⟩ | ⟨hpin, hn⟩
  · rw [pickCandidates_pinned (hnode.trans hpin) hne hc c hmem]
    exact hn
  · rintro rfl
    exact pickCandidates_unreserved (hnode.trans hpin) hc c hmem hn

/-- When a tick submits a GPU job, an earlier GPU job that is not backing off has a known node that
the later job spares, unless the node of the one or the pin of the other is the empty text. -/
theorem submitted_spares_iff (maxMyJobs : Option Nat) (pool : Option DispatchPool) (m : Memory)
    (x : TickInput) {i j : Nat} {older later : JobEntry} {reserved : Finset String}
    (hlater : (processOnce maxMyJobs pool m x).visits[i]? = some (later, .submitted reserved))
    (hgpu : usesGpu later = true) (hji : j < i) (hqueue : x.queue[j]? = some older)
    (hgpu' : usesGpu older = true)
    (hback : backingOff (x.start pool m).memory older.jobId (x.turn j).clock = false) :
    (∃ v n, (processOnce maxMyJobs pool m x).visits[j]? = some (older, v) ∧ Placed older v n ∧
      n ≠ "" ∧ Spares later reserved n) ↔
    x.headedFor pool m older ≠ some "" ∧ later.pinNode ≠ some "" := by
  obtain ⟨v, hv, hstop⟩ := walk_earlier hlater hji hqueue
  obtain ⟨u, u', hu, hvisit, hle, -, hlast⟩ := (walk_trail _ 0 _ _).earlier Walk.Le.refl Walk.Le.trans
    (fun i => visit_le maxMyJobs x.damage (x.turn i)) hji hv hlater
  simp only [Nat.zero_add] at hvisit hle hlast
  have hhead := headedFor_eq hv hu
  obtain ⟨hpool, hfull, hwait, hpins, rfl⟩ := visit_submitted hlast
  subst hvisit
  constructor
  · rintro ⟨v', n, hv', hplaced, hn, hspares⟩
    obtain rfl : (visit maxMyJobs x.damage (x.turn j) u older).2 = v' := by
      simpa using hv.symm.trans hv'
    refine ⟨?_, ?_⟩
    · rw [hhead, hplaced.headed]
      simpa using hn
    · rcases hspares.apart with ⟨pin, hpin, hne, -⟩ | ⟨hpin, -⟩
      · simpa [hpin] using hne
      · simp [hpin]
  · rintro ⟨holder, hpin⟩
    have hmono := hu.rel Walk.Le.refl Walk.Le.trans fun i => visit_le maxMyJobs x.damage (x.turn i)
    have hvle := visit_le maxMyJobs x.damage (x.turn j) u older
    have hpool' : u.pool.isSome = true := by rw [← hvle.pool, ← hle.pool, hpool]
    have hmem : u.memory = (x.start pool m).memory := hmono.memory (hmono.pool ▸ hpool')
    obtain ⟨n, hplaced, hspoken⟩ := visit_placed hpool' hgpu' (by simpa using hstop)
      (hmem ▸ hback) (Bool.eq_false_iff.mpr fun h => by simpa [hwait hgpu] using hle.wait h)
      (Bool.eq_false_iff.mpr fun h => by simpa [hfull] using hle.full h)
    have hn : n ≠ "" := by
      rintro rfl
      exact holder (hhead.trans hplaced.headed)
    refine ⟨_, n, hv, hplaced, hn, .of_apart ?_⟩
    have hin := hle.spoken hspoken
    cases hp : later.pinNode with
    | none => exact .inr ⟨rfl, by simpa [Walk.reservedForEarlier, hp, hgpu] using hin⟩
    | some pin =>
      refine .inl ⟨pin, rfl, fun h => hpin (h ▸ hp), ?_⟩
      rintro rfl
      exact hpins hgpu pin hp hin

/-- A tick over rows that nothing else changes. -/
def TickInput.sample (rows : List JobEntry) (h : (rows.map (·.jobId)).Nodup) : TickInput where
  active := rows
  entries := rows
  nodup := h
  now := 2000
  turn _ := { now := 2000, clock := 10, row := .sample "none" }

def samplePinned (id : JobId) (createdAt : Time) (pin : Option String) : JobEntry :=
  { JobEntry.sample id with createdAt := createdAt, pinNode := pin }

/-- A job pinned to `n1`, and one behind it. -/
def TickInput.samplePair (pin : Option String) : TickInput :=
  .sample [samplePinned "a" 1000 (some "n1"), samplePinned "b" 1001 pin] (by simp [samplePinned, JobEntry.sample])

/-- An unpinned job behind a job that is submitted to `n1` has `n1` reserved. -/
theorem submitted_spares_pinned :
    ∃ v n, (processOnce none (some (.new 4)) { blockedBackoff := some [] }
        (.samplePair none)).visits[0]? = some (samplePinned "a" 1000 (some "n1"), v) ∧
      Placed (samplePinned "a" 1000 (some "n1")) v n ∧ n ≠ "" ∧
      Spares (samplePinned "b" 1001 none) {"n1"} n := by
  have hlater : (processOnce none (some (.new 4)) { blockedBackoff := some [] }
      (.samplePair none)).visits[1]? = some (samplePinned "b" 1001 none, .submitted {"n1"}) := by
    decide +kernel
  exact (submitted_spares_iff none (some (.new 4)) { blockedBackoff := some [] } (.samplePair none)
    hlater (by decide) Nat.zero_lt_one (by decide +kernel) (by decide) (by decide)).mpr
      ⟨by decide, by decide⟩

/-- A job whose pin is the empty text is submitted as a pinned one, with nothing reserved, and
placed as an unpinned one: it is offered the node that the job before it was submitted to. -/
theorem blank_pin_offered_earlier_node :
    (processOnce none (some (.new 4)) { blockedBackoff := some [] } (.samplePair (some ""))).visits =
      [(samplePinned "a" 1000 (some "n1"), .submitted ∅),
        (samplePinned "b" 1001 (some ""), .submitted ∅)] ∧
    pickCandidates [{ node := "n1", gpus := [{ memTotalMib := 1000, free := true }] }]
      [{ name := "n1" }] (queuedRunSpec 0 (samplePinned "b" 1001 (some ""))) 0 ∅ =
      .ok [{ name := "n1" }] ∧
    ¬ ∃ v n, (processOnce none (some (.new 4)) { blockedBackoff := some [] }
        (.samplePair (some ""))).visits[0]? = some (samplePinned "a" 1000 (some "n1"), v) ∧
      Placed (samplePinned "a" 1000 (some "n1")) v n ∧
      Spares (samplePinned "b" 1001 (some "")) ∅ n := by
  have hvisits : (processOnce none (some (.new 4)) { blockedBackoff := some [] }
      (.samplePair (some ""))).visits =
      [(samplePinned "a" 1000 (some "n1"), .submitted ∅),
        (samplePinned "b" 1001 (some ""), .submitted ∅)] := by
    decide +kernel
  have hpick : pickCandidates [{ node := "n1", gpus := [{ memTotalMib := 1000, free := true }] }]
      [{ name := "n1" }] (queuedRunSpec 0 (samplePinned "b" 1001 (some ""))) 0 ∅ =
      .ok [{ name := "n1" }] := by
    decide +kernel
  refine ⟨hvisits, hpick, ?_⟩
  rintro ⟨v, n, hv, hplaced, hspares⟩
  rw [hvisits] at hv
  obtain rfl : Verdict.submitted ∅ = v := by simpa using hv
  cases hplaced with
  | submitted hpin =>
    obtain rfl : "n1" = n := by simpa [samplePinned] using hpin
    exact hspares.never 0 _ _ 0 _ hpick { name := "n1" } (by simp) rfl

end Fifo

/-! ## A dispatch that raises

The tick puts a job whose dispatch raises in backoff and goes on to the jobs behind it. Its row
does not say so: the claim of a later job asks the registry, where only a stored reason excuses an
older row. -/

section Raised

variable {x : TickInput} {pool : Option DispatchPool} {m : Memory}

/-- The tick takes the job for blocked: its dispatch has just raised, or it backs off. -/
def Verdict.blocked : Verdict → Bool
  | .backedOff | .attempted _ .raised => true
  | _ => false

/-- The tick tries to place the job. -/
def Verdict.attempts : Verdict → Bool
  | .submitted _ | .attempted _ _ => true
  | _ => false

/-- The two walks hold the same work back from the rows that follow. -/
structure Walk.SameHolds (w u : Walk) : Prop where
  wait : u.unpinnedGpuWait = w.unpinnedGpuWait
  pins : u.busyPins = w.busyPins
  nodes : u.inflightNodes = w.inflightNodes
  pool : u.pool = w.pool

/-- A blocked job holds nothing back. -/
theorem visit_blocked (h : (visit maxMyJobs damage t w e).2.blocked = true) :
    w.SameHolds (visit maxMyJobs damage t w e).1 := by
  revert h
  unfold visit
  split
  · exact fun h => nomatch h
  split
  · exact fun h => nomatch h
  split
  · exact fun h => nomatch h
  split
  · exact fun _ => ⟨rfl, rfl, rfl, rfl⟩
  split
  · split
    · exact fun h => nomatch h
    split
    · exact fun h => nomatch h
    · exact fun h => nomatch h
  · rename_i hpool
    intro h
    cases hout : t.outcome with
    | raised => exact ⟨by simp [Walk.settle, hout], by simp [Walk.settle, hout], rfl, rfl⟩
    | _ => simp [Verdict.blocked, hout] at h

/-- Behind a blocked GPU job the tick holds back nothing on its account, and admission refuses a
later job on its behalf exactly if its row is the first one that admission does not skip. -/
theorem blocked_older_refuses_iff (maxMyJobs : Option Nat) (pool : Option DispatchPool) (m : Memory)
    (x : TickInput) {i j : Nat} {older later row : JobEntry} {v v' : Verdict}
    (hj : (processOnce maxMyJobs pool m x).visits[j]? = some (older, v)) (hv : v.blocked = true)
    (hi : (processOnce maxMyJobs pool m x).visits[i]? = some (later, v')) (hji : j < i)
    (hv' : v'.attempts = true) (rows : List JobEntry) (hnodup : (rows.map (·.jobId)).Nodup)
    (hrow : row ∈ rows) (hid : row.jobId = older.jobId) (node : String) (damage : Nat) (now : Time) :
    (∃ w u, u = (visit maxMyJobs x.damage (x.turn j) w older).1 ∧ w.SameHolds u ∧
      ∃ u', u.Le u' ∧ (visit maxMyJobs x.damage (x.turn i) u' later).2.attempts = true) ∧
    ((admissionDecision maxMyJobs later rows node damage true now).blockingJobId ≠
        some older.jobId ↔
      ¬ (dependencyState later rows = none ∧ hasRoom maxMyJobs later rows damage now = true ∧
        holdsCapacity later rows node row = true ∧
        ∃ before after, (fifo rows).takeWhile (·.jobId ≠ later.jobId) = before ++ row :: after ∧
          ∀ r ∈ before, holdsCapacity later rows node r = false)) := by
  obtain ⟨u, u', hu, hvisit, hle, -, hlast⟩ := (walk_trail _ 0 _ _).earlier Walk.Le.refl Walk.Le.trans
    (fun i => visit_le maxMyJobs x.damage (x.turn i)) hji hj hi
  simp only [Nat.zero_add] at hvisit hle hlast
  subst hvisit
  refine ⟨⟨u, _, rfl, visit_blocked hv, u', hle, hlast ▸ hv'⟩, not_congr ?_⟩
  rw [admissionDecision_blocking_iff, fifoBlocker_eq]
  refine and_congr_right fun _ => and_congr_right fun _ => ?_
  constructor
  · rintro ⟨r, hr, hrid⟩
    obtain ⟨hholds, before, after, hsplit, hbefore⟩ := List.find?_eq_some_iff_append.mp hr
    have hmem : r ∈ rows := by
      have hin : r ∈ (fifo rows).takeWhile (·.jobId ≠ later.jobId) := List.mem_of_find?_eq_some hr
      exact (List.mem_filter.mp ((List.mem_insertionSort _).mp
        (List.takeWhile_subset _ hin))).1
    obtain rfl : r = row := List.inj_on_of_nodup_map hnodup hmem hrow (hrid.trans hid.symm)
    exact ⟨hholds, before, after, hsplit, fun r hr => by simpa using hbefore r hr⟩
  · rintro ⟨hholds, before, after, hsplit, hbefore⟩
    refine ⟨row, List.find?_eq_some_iff_append.mpr ⟨hholds, before, after, hsplit, ?_⟩, hid⟩
    exact fun r hr => by simp [hbefore r hr]

/-- The dispatch of `a` is harvested with an exception; `b` is behind it. -/
def TickInput.sampleRaised (reason : Option String) : TickInput :=
  { TickInput.sample [{ JobEntry.sample "a" with reason := reason }, samplePinned "b" 1001 none]
      (by simp [samplePinned, JobEntry.sample]) with
    done := fun id => if id = "a" then some (.raised, some "launcher exploded") else none
    harvestClock := 8 }

def DispatchPool.sampleInflight : DispatchPool := { DispatchPool.new 4 with inflight := ["a"] }

/-- A stored reason that admission recognises excuses the job that raises. -/
theorem blocked_reason_excuses :
    (admissionDecision none (samplePinned "b" 1001 none)
      (TickInput.sampleRaised (some "blocked: n1: path is missing")).entries "n1" 0 true
      2000).blockingJobId ≠ some "a" := by
  have hj : (processOnce none (some .sampleInflight) { blockedBackoff := some [] }
      (.sampleRaised (some "blocked: n1: path is missing"))).visits[0]? =
      some ({ JobEntry.sample "a" with reason := some "blocked: n1: path is missing" },
        .backedOff) := by
    decide +kernel
  have hi : (processOnce none (some .sampleInflight) { blockedBackoff := some [] }
      (.sampleRaised (some "blocked: n1: path is missing"))).visits[1]? =
      some (samplePinned "b" 1001 none, .submitted ∅) := by
    decide +kernel
  refine (blocked_older_refuses_iff none (some .sampleInflight) { blockedBackoff := some [] }
    (.sampleRaised (some "blocked: n1: path is missing")) hj rfl hi Nat.zero_lt_one rfl _
    (TickInput.nodup _) (List.mem_cons_self ..) rfl "n1" 0 2000).2.mpr ?_
  rintro ⟨-, -, hholds, -⟩
  exact absurd hholds (by decide +kernel)

/-- A job whose dispatch has raised backs off in the tick, and its row has no reason: the tick
submits the job behind it and admission refuses that one on its behalf. -/
theorem raised_older_refuses_later :
    (processOnce none (some .sampleInflight) { blockedBackoff := some [] }
        (.sampleRaised none)).visits =
      [(JobEntry.sample "a", .backedOff), (samplePinned "b" 1001 none, .submitted ∅)] ∧
    (admissionDecision none (samplePinned "b" 1001 none) (TickInput.sampleRaised none).entries "n1"
      0 true 2000).blockingJobId = some "a" := by
  decide +kernel

end Raised

end Dt.Agent
