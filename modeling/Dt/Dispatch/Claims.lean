import Dt.Dispatch.Queued

/-!
# Claims on one queued job

Any number of dispatchers work on one job while users dequeue and kill it. Remote work happens
outside the lock of the job, so a dispatcher acts on a copy of the row that may be old; its
claims and commits compare the stored attempt with the one of that copy.

A dispatcher that finds a claim in the row it reads takes it over for recovery (`inherited`);
otherwise every token it holds is one it minted itself. Tokens are never minted twice.
-/

namespace Dt.Dispatch.Claims

open Dt.Lib Dt.Jobs Dt.Dispatch

abbrev Pid := Nat

/-- A dispatcher between its read of the row and its last commit. -/
structure Dispatcher where
  entry : JobEntry
  /-- `spec.dispatch_token` -/
  specToken : Option String
  inherited : Bool
  /-- the launch whose commit lost against a dequeue -/
  raced : Option JobEntry := none

structure World extends Sys where
  dispatchers : Pid → Option Dispatcher
  /-- every token so far, with the dispatcher that minted it if it is one of these -/
  minted : List (String × Option Pid)

inductive Move where
  | gateFail (detail : String) (w : WriteOutcome)
  | gateSkip (detail : String) (w : WriteOutcome)
  | gateReason (reason : Option String) (w : WriteOutcome)
  | start
  | commit (rw : Rewrite) (w : WriteOutcome)
  | claim (node token owner : String) (w : WriteOutcome)
  | claimRefused (reason : String) (w : WriteOutcome)
  | restoreRunning (detail : String) (w : WriteOutcome)
  | restoreFinished (w : WriteOutcome)
  | recordCancelled (killed : JobEntry) (w : WriteOutcome)
  | stop

inductive Act where
  | tick (dt : Time)
  | request (ev : Event) (w : WriteOutcome)
  | dispatcher (d : Pid) (m : Move)

/-- The steps of other commands on the same job. -/
def isRequest : Event → Bool
  | .dequeue _ | .kill .. | .refresh .. | .finalize _ => true
  | _ => false

/-- Which commits a dispatcher can make: recovery has only inherited claims to settle, and
placement starts from a row without one. -/
def allowed (m : Dispatcher) : Rewrite → Bool
  | .payload _ | .fail _ => true
  | .blocked _ | .adopt .. | .clear => m.inherited
  | .hold .. | .failPlacement .. | .settle .. => !m.inherited
  | .place placed => !m.inherited && placed.status = .running && placed.jobId = m.entry.jobId &&
      attempt placed = (none, none)

def World.setDispatcher (s : World) (d : Pid) (m : Option Dispatcher) : World :=
  { s with dispatchers := Function.update s.dispatchers d m }

/-- A save by the dispatcher: `next` is where it stands if the save returns. -/
def World.saveThen (cfg : HeadConfig) (s : World) (d : Pid) (e : JobEntry) (w : WriteOutcome)
    (next : Option Dispatcher) : World :=
  match s.toDisk.save cfg e s.clock w with
  | (.ok (), k) => { s with toDisk := k }.setDispatcher d next
  | (.error _, k) => { s with toDisk := k }.setDispatcher d none

/-- The expected attempt of `_claim_queued_dispatch_attempt`. -/
def expectedAttempt (m : Dispatcher) : Option String × Option String :=
  (if m.specToken.isSome then m.entry.dispatchNode else none, m.specToken)

/-- Where a dispatcher stands after its commit. -/
def afterCommit (m : Dispatcher) (rw : Rewrite) (candidate : JobEntry) : Option Dispatcher :=
  match rw with
  | .payload _ => some { m with entry := candidate }
  | .clear => some { entry := candidate, specToken := none, inherited := false }
  | _ => none

/-- Where it stands when a newer row won: a launch that met a dequeue still has to be handled. -/
def afterLoss (m : Dispatcher) (rw : Rewrite) (cur : Option JobEntry) (candidate : JobEntry) :
    Option Dispatcher :=
  match rw with
  | .place _ | .adopt .. =>
    if absentOrKilled cur then some { m with raced := some candidate } else none
  | _ => none

/-- One event of the job, as the other commands and the gates take it. -/
def World.event (cfg : HeadConfig) (id : JobId) (s : World) (ev : Event) (w : WriteOutcome) :
    Option World :=
  (Dispatch.step cfg s.toSys (.event id ev w)).map fun t => { s with toSys := t }

/-- A gate of the dispatcher. No step removes the row, so a gate that can read it finds it. -/
def World.gate (cfg : HeadConfig) (id : JobId) (s : World) (ev : JobEntry → Event)
    (w : WriteOutcome) : Option World :=
  (row cfg s.files id).bind fun e => s.event cfg id (ev e) w

def move (cfg : HeadConfig) (id : JobId) (s : World) (d : Pid) : Move → Option World
  | .gateFail detail w => s.gate cfg id (.gateFail · detail) w
  | .gateSkip detail w => s.gate cfg id (.gateSkip · detail) w
  | .gateReason reason w => s.gate cfg id (.gateReason · reason) w
  | .start =>
    match s.dispatchers d, row cfg s.files id with
    | none, some e =>
      if e.status = .queued then
        some (s.setDispatcher d (some ⟨e, none, e.dispatchNode.isSome, none⟩))
      else none
    | _, _ => none
  | .commit rw w =>
    match s.dispatchers d, load cfg s.files id with
    | some m, .ok cur =>
      if allowed m rw && m.raced.isNone then
        let candidate := rw.apply m.entry s.clock
        match commitWrite cur candidate (attempt m.entry) s.clock with
        | none => some (s.setDispatcher d (afterLoss m rw cur candidate))
        | some e =>
          if rw.persist m.entry then some (s.saveThen cfg d e w (afterCommit m rw candidate))
          else some (s.setDispatcher d (afterCommit m rw candidate))
      else none
    | _, _ => none
  | .claim node token owner w =>
    match s.dispatchers d, load cfg s.files id with
    | some m, .ok cur =>
      if !m.inherited && m.raced.isNone && decide (token ∉ s.minted.map (·.1)) then
        match onAttempt cur (expectedAttempt m) (claimRow · node token owner s.clock) with
        | none => some (s.setDispatcher d none)
        | some e =>
          some ({ s with minted := (token, some d) :: s.minted }.saveThen cfg d e w
            (some { m with entry := e, specToken := some token }))
      else none
    | _, _ => none
  | .claimRefused reason w =>
    match s.dispatchers d, load cfg s.files id with
    | some m, .ok cur =>
      if !m.inherited && m.raced.isNone then
        match onAttempt cur (expectedAttempt m) (withReason · (some ("waiting: " ++ reason))) with
        | none => some (s.setDispatcher d none)
        | some e => some (s.saveThen cfg d e w none)
      else none
    | _, _ => none
  | .restoreRunning detail w =>
    match s.dispatchers d with
    | some m =>
      match m.raced with
      | some placed =>
        if placed.status = .finished then none
        else (s.event cfg id (.restoreRunning placed detail) w).map (·.setDispatcher d none)
      | none => none
    | none => none
  | .restoreFinished w =>
    match s.dispatchers d with
    | some m =>
      match m.raced with
      | some placed =>
        if placed.status = .finished then
          (s.event cfg id (.restoreFinished placed) w).map (·.setDispatcher d none)
        else none
      | none => none
    | none => none
  | .recordCancelled killed w =>
    match s.dispatchers d with
    | some m =>
      match m.raced with
      | some placed =>
        if placed.status = .finished || killed.status ≠ .killed then none
        else (s.event cfg id (.recordCancelled killed placed) w).map (·.setDispatcher d none)
      | none => none
    | none => none
  | .stop => some (s.setDispatcher d none)

def step (cfg : HeadConfig) (id : JobId) (s : World) : Act → Option World
  | .tick dt => if 0 ≤ dt then some { s with clock := s.clock + dt } else none
  | .request ev w => if isRequest ev then s.event cfg id ev w else none
  | .dispatcher d m => move cfg id s d m

variable {cfg : HeadConfig} {id : JobId} {s s' : World}

/-! ## What a move does to the row -/

@[simp] theorem setDispatcher_files (s : World) (d : Pid) (m : Option Dispatcher) :
    (s.setDispatcher d m).files = s.files := rfl

@[simp] theorem saveThen_files (s : World) (d : Pid) (e : JobEntry) (w : WriteOutcome)
    (next : Option Dispatcher) :
    (s.saveThen cfg d e w next).files = (s.toDisk.save cfg e s.clock w).2.files := by
  unfold World.saveThen
  split <;> rename_i h <;> simp [h]

theorem event_row {ev : Event} {w : WriteOutcome} (h : s.event cfg id ev w = some s') :
    row cfg s'.files id = row cfg s.files id ∨
      ∃ cur entry e, load cfg s.files id = .ok cur ∧ ev.write cur s.clock = some entry ∧
        row cfg s'.files id = some e ∧ SavedAs entry s.clock e := by
  obtain ⟨t, ht, rfl⟩ := Option.map_eq_some_iff.mp h
  rcases step_row ht id with hr | ⟨w', hw⟩ | ⟨entry, e, -, he, hsaved, -, hsrc⟩
  · exact .inl hr
  · cases hw
  · rcases hsrc with ⟨w', hw⟩ | ⟨ev', w', cur, hev, hload, hwrite⟩
    · cases hw
    · cases hev
      exact .inr ⟨cur, entry, e, hload, hwrite, he, hsaved⟩

/-! ## The invariant -/

/-- What a dispatcher holds: a claim it read, or one it minted; and the token of its spec is the
one of its copy. -/
structure Holds (id : JobId) (minted : List (String × Option Pid)) (d : Pid) (m : Dispatcher) :
    Prop where
  jobId : m.entry.jobId = id
  spec : m.inherited = false → expectedAttempt m = attempt m.entry
  own : m.inherited = false → ∀ t, m.entry.dispatchToken = some t → (t, some d) ∈ minted
  raced : ∀ placed, m.raced = some placed → placed.status ≠ .queued

structure Inv (id : JobId) (s : World) : Prop where
  unique : (s.minted.map (·.1)).Nodup
  holds : ∀ d m, s.dispatchers d = some m → Holds id s.minted d m

theorem Holds.mint {minted : List (String × Option Pid)} {d : Pid} {m : Dispatcher}
    (h : Holds id minted d m) (x : String × Option Pid) : Holds id (x :: minted) d m :=
  ⟨h.jobId, h.spec, fun hi t ht => List.mem_cons_of_mem _ (h.own hi t ht), h.raced⟩

/-- The steps that touch at most one dispatcher and mint nothing. -/
theorem Inv.set {d : Pid} {next : Option Dispatcher} (h : Inv id s)
    (hd : s'.dispatchers = Function.update s.dispatchers d next) (hm : s'.minted = s.minted)
    (hnext : ∀ m, next = some m → Holds id s.minted d m) : Inv id s' where
  unique := hm ▸ h.unique
  holds x m hx := by
    rw [hm]
    rw [hd] at hx
    rcases eq_or_ne x d with rfl | hne
    · rw [Function.update_self] at hx
      exact hnext m hx
    · rw [Function.update_of_ne hne] at hx
      exact h.holds x m hx

theorem saveThen_dispatchers (cfg : HeadConfig) (s : World) (d : Pid) (e : JobEntry) (w : WriteOutcome)
    (next : Option Dispatcher) :
    (s.saveThen cfg d e w next).minted = s.minted ∧
      ((s.saveThen cfg d e w next).dispatchers = Function.update s.dispatchers d next ∨
        (s.saveThen cfg d e w next).dispatchers = Function.update s.dispatchers d none) := by
  unfold World.saveThen
  split
  · exact ⟨rfl, .inl rfl⟩
  · exact ⟨rfl, .inr rfl⟩

theorem Inv.saveThen {d : Pid} {e : JobEntry} {w : WriteOutcome} {next : Option Dispatcher}
    (h : Inv id s) (hnext : ∀ m, next = some m → Holds id s.minted d m) :
    Inv id (s.saveThen cfg d e w next) := by
  obtain ⟨hm, hd | hd⟩ := saveThen_dispatchers cfg s d e w next
  · exact h.set hd hm hnext
  · exact h.set hd hm (by simp)

theorem event_dispatchers {ev : Event} {w : WriteOutcome} (h : s.event cfg id ev w = some s') :
    s'.dispatchers = s.dispatchers ∧ s'.minted = s.minted := by
  obtain ⟨t, -, rfl⟩ := Option.map_eq_some_iff.mp h
  exact ⟨rfl, rfl⟩

theorem apply_jobId {m : Dispatcher} {rw : Rewrite} (ha : allowed m rw = true) (now : Time) :
    (rw.apply m.entry now).jobId = m.entry.jobId := by
  cases rw with
  | place placed =>
    simp only [allowed, Bool.and_eq_true, decide_eq_true_eq] at ha
    exact ha.1.2
  | hold reason refusals =>
    rcases refusals with _ | ⟨rs, outcome⟩
    · rfl
    · simp only [Rewrite.apply, notePlacementAttempt]
      split <;> rfl
  | settle reasons reason outcome =>
    simp only [Rewrite.apply, notePlacementAttempt]
    split
    · rfl
    · split <;> rfl
  | _ => rfl

theorem afterCommit_holds {d : Pid} {m m' : Dispatcher} {rw : Rewrite} {now : Time}
    {minted : List (String × Option Pid)} (h : Holds id minted d m) (hr : m.raced = none)
    (hm : afterCommit m rw (rw.apply m.entry now) = some m') : Holds id minted d m' := by
  cases rw with
  | payload sha =>
    cases hm
    exact ⟨h.jobId, h.spec, h.own, by simp [hr]⟩
  | clear =>
    cases hm
    refine ⟨h.jobId, fun _ => rfl, fun _ t ht => ?_, by simp⟩
    simp [Rewrite.apply, withReason, clearClaim] at ht
  | _ => cases hm

theorem afterLoss_holds {d : Pid} {m m' : Dispatcher} {rw : Rewrite} {cur : Option JobEntry}
    {now : Time} {minted : List (String × Option Pid)} (h : Holds id minted d m)
    (ha : allowed m rw = true) (hm : afterLoss m rw cur (rw.apply m.entry now) = some m') :
    Holds id minted d m' := by
  cases rw with
  | place placed =>
    simp only [afterLoss] at hm
    split at hm
    · cases hm
      simp only [allowed, Bool.and_eq_true, decide_eq_true_eq] at ha
      refine ⟨h.jobId, h.spec, h.own, fun p hp => ?_⟩
      cases hp
      simp [Rewrite.apply, ha.1.1.2]
    · cases hm
  | adopt node nodeJobDir workerRoot launch =>
    simp only [afterLoss] at hm
    split at hm
    · cases hm
      refine ⟨h.jobId, h.spec, h.own, fun p hp => ?_⟩
      cases hp
      simp only [Rewrite.apply, adoptedRow]
      split <;> simp
    · cases hm
  | _ => cases hm

theorem claim_inv {d : Pid} {m : Dispatcher} {r : JobEntry} {node token owner : String}
    {w : WriteOutcome} (h : Inv id s) (hfresh : token ∉ s.minted.map (·.1))
    (hid : r.jobId = id) (hm : m.raced = none) :
    Inv id ({ s with minted := (token, some d) :: s.minted }.saveThen cfg d
      (claimRow r node token owner s.clock) w
      (some { m with entry := claimRow r node token owner s.clock, specToken := some token })) := by
  have h' : Inv id { s with minted := (token, some d) :: s.minted } :=
    ⟨by simpa using ⟨by simpa using hfresh, h.unique⟩, fun x m hx => (h.holds x m hx).mint _⟩
  refine h'.saveThen fun m' hm' => ?_
  cases hm'
  exact ⟨hid, fun _ => rfl, fun _ t ht => by cases ht; simp, by simp [hm]⟩

/-- The gates and the commands of users leave the dispatchers alone. -/
theorem event_inv {ev : Event} {w : WriteOutcome} (h : Inv id s)
    (hs : s.event cfg id ev w = some s') : Inv id s' := by
  obtain ⟨hd, hm⟩ := event_dispatchers hs
  exact ⟨hm ▸ h.unique, fun d m hx => by rw [hm]; exact h.holds d m (hd ▸ hx)⟩

theorem gate_inv {ev : JobEntry → Event} {w : WriteOutcome} (h : Inv id s)
    (hs : s.gate cfg id ev w = some s') : Inv id s' := by
  obtain ⟨e, -, hs⟩ := Option.bind_eq_some_iff.mp hs
  exact event_inv h hs

theorem eventStop_inv {ev : Event} {w : WriteOutcome} {d : Pid} (h : Inv id s)
    (hs : (s.event cfg id ev w).map (·.setDispatcher d none) = some s') : Inv id s' := by
  obtain ⟨t, ht, rfl⟩ := Option.map_eq_some_iff.mp hs
  exact (event_inv h ht).set rfl rfl (by simp)

theorem move_inv {d : Pid} {mv : Move} (h : Inv id s) (hs : move cfg id s d mv = some s') :
    Inv id s' := by
  cases mv with
  | gateFail detail w => exact gate_inv h hs
  | gateSkip detail w => exact gate_inv h hs
  | gateReason reason w => exact gate_inv h hs
  | start =>
    simp only [move] at hs
    split at hs
    · rename_i e hd hr
      split at hs
      · cases hs
        refine h.set rfl rfl fun m hm => ?_
        cases hm
        -- a row without a node has no token, so nothing is held that was not read
        have hpair := (row_provenance hr).2.1
        refine ⟨row_jobId hr, fun hi => ?_, fun hi t ht => ?_, by simp⟩
        · have hn : e.dispatchNode = none := by simpa using hi
          have ht : e.dispatchToken = none := by simpa [hn] using hpair
          simp [expectedAttempt, attempt, hn, ht]
        · have hn : e.dispatchNode = none := by simpa using hi
          have ht' : e.dispatchToken = none := by simpa [hn] using hpair
          simp [ht'] at ht
      · cases hs
    · cases hs
  | commit rw w =>
    simp only [move] at hs
    split at hs
    · rename_i m cur hd hload
      split at hs
      · rename_i hc
        simp only [Bool.and_eq_true, Option.isNone_iff_eq_none] at hc
        have hm := h.holds d m hd
        split at hs
        · cases hs
          exact h.set rfl rfl fun m' hm' => afterLoss_holds hm hc.1 hm'
        · split at hs
          · cases hs
            exact h.saveThen fun m' hm' => afterCommit_holds hm hc.2 hm'
          · cases hs
            exact h.set rfl rfl fun m' hm' => afterCommit_holds hm hc.2 hm'
      · cases hs
    · cases hs
  | claim node token owner w =>
    simp only [move] at hs
    split at hs
    · rename_i m cur hd hload
      split at hs
      · rename_i hc
        simp only [Bool.and_eq_true, Bool.not_eq_true', Option.isNone_iff_eq_none,
          decide_eq_true_eq] at hc
        split at hs
        · cases hs
          exact h.set rfl rfl (by simp)
        · rename_i e he
          cases hs
          obtain ⟨r, rfl, -, -, rfl⟩ := onAttempt_some he
          exact claim_inv h hc.2 (row_jobId (row_of_load hload)) hc.1.2
      · cases hs
    · cases hs
  | claimRefused reason w =>
    simp only [move] at hs
    split at hs
    · split at hs
      · split at hs
        · cases hs
          exact h.set rfl rfl (by simp)
        · cases hs
          exact h.saveThen (by simp)
      · cases hs
    · cases hs
  | restoreRunning detail w =>
    simp only [move] at hs
    split at hs
    · split at hs
      · split at hs
        · cases hs
        · exact eventStop_inv h hs
      · cases hs
    · cases hs
  | restoreFinished w =>
    simp only [move] at hs
    split at hs
    · split at hs
      · split at hs
        · exact eventStop_inv h hs
        · cases hs
      · cases hs
    · cases hs
  | recordCancelled killed w =>
    simp only [move] at hs
    split at hs
    · split at hs
      · split at hs
        · cases hs
        · exact eventStop_inv h hs
      · cases hs
    · cases hs
  | stop =>
    cases hs
    exact h.set rfl rfl (by simp)

theorem step_inv {a : Act} (h : Inv id s) (hs : step cfg id s a = some s') : Inv id s' := by
  cases a with
  | tick dt =>
    simp only [step] at hs
    split at hs
    · cases hs
      exact ⟨h.unique, h.holds⟩
    · cases hs
  | request ev w =>
    simp only [step] at hs
    split at hs
    · exact event_inv h hs
    · cases hs
  | dispatcher d mv => exact move_inv h hs

/-! ## A claim changes only in the hands of its holder -/

/-- What kind of write a move makes: a gate writes over the row it has just read under the lock,
a compare-and-swap over the one its dispatcher read before, a restore over a raced dequeue. -/
inductive MoveKind where
  | gate | compareAndSwap | restore | silent
  deriving DecidableEq, Repr

def Move.kind : Move → MoveKind
  | .gateFail .. | .gateSkip .. | .gateReason .. => .gate
  | .commit .. | .claim .. | .claimRefused .. => .compareAndSwap
  | .restoreRunning .. | .restoreFinished _ | .recordCancelled .. => .restore
  | .start | .stop => .silent

/-- The row is queued and holds exactly the attempt the dispatcher holds, which is its own or one
it took over for recovery when it read the row. -/
def HeldBy (s : World) (d : Pid) (e : JobEntry) : Prop :=
  ∃ m, s.dispatchers d = some m ∧ e.status = .queued ∧ attempt e = attempt m.entry ∧
    ∀ t o, (t, o) ∈ s.minted → e.dispatchToken = some t → o = some d ∨ m.inherited = true

/-- What justifies a change of the row from `s` to `s'` by a move of dispatcher `d`. -/
def Justified (cfg : HeadConfig) (id : JobId) (s s' : World) (d : Pid) : MoveKind → Prop
  | .gate => ∃ e e', row cfg s.files id = some e ∧ row cfg s'.files id = some e' ∧
      e.status = .queued ∧ attempt e' = attempt e
  | .compareAndSwap => ∃ e, row cfg s.files id = some e ∧ HeldBy s d e
  | .restore => ∀ e, row cfg s.files id = some e → e.status = .killed
  | .silent => False

theorem eq_of_minted (h : Inv id s) {t : String} {o o' : Option Pid} (h₁ : (t, o) ∈ s.minted)
    (h₂ : (t, o') ∈ s.minted) : o = o' := by
  have := List.inj_on_of_nodup_map h.unique h₁ h₂ rfl
  exact congrArg Prod.snd this

theorem heldBy_of_attempt {d : Pid} {m : Dispatcher} {e : JobEntry} (h : Inv id s)
    (hd : s.dispatchers d = some m) (hq : e.status = .queued)
    (ha : attempt e = attempt m.entry) : HeldBy s d e := by
  refine ⟨m, hd, hq, ha, fun t o hto ht => ?_⟩
  cases hi : m.inherited with
  | true => exact .inr rfl
  | false =>
    have htok : m.entry.dispatchToken = some t := (congrArg Prod.snd ha).symm.trans ht
    exact .inl (eq_of_minted h hto ((h.holds d m hd).own hi t htok))

theorem gate_justified {ev : JobEntry → Event} {w : WriteOutcome} {d : Pid}
    {f : JobEntry → JobEntry}
    (hev : ∀ target e, (ev target).write (some e) s.clock = onStatus (some e) .queued f)
    (hf : ∀ e, attempt (f e) = attempt e) (hs : s.gate cfg id ev w = some s')
    (hc : row cfg s'.files id ≠ row cfg s.files id) : Justified cfg id s s' d .gate := by
  obtain ⟨e, he, hs⟩ := Option.bind_eq_some_iff.mp hs
  rcases event_row hs with hr | ⟨cur, entry, e', hload, hw, he', hsaved⟩
  · exact absurd hr hc
  · rw [load_of_row he] at hload
    cases hload
    rw [hev] at hw
    obtain ⟨_, ⟨⟩, hq, rfl⟩ := onStatus_some hw
    refine ⟨e, e', he, he', hq, ?_⟩
    rw [← hf e]
    exact Prod.ext hsaved.dispatchNode hsaved.dispatchToken

theorem restore_justified {ev : Event} {w : WriteOutcome} {d : Pid}
    (hev : ∀ e entry, ev.write (some e) s.clock = some entry → e.status = .killed)
    (hs : (s.event cfg id ev w).map (·.setDispatcher d none) = some s')
    (hc : row cfg s'.files id ≠ row cfg s.files id) : Justified cfg id s s' d .restore := by
  obtain ⟨t, ht, rfl⟩ := Option.map_eq_some_iff.mp hs
  rcases event_row ht with hr | ⟨cur, entry, e', hload, hw, -, -⟩
  · exact absurd hr hc
  · intro e he
    rw [load_of_row he] at hload
    cases hload
    exact hev e entry hw

theorem move_justified {d : Pid} {mv : Move} (h : Inv id s) (hs : move cfg id s d mv = some s')
    (hc : row cfg s'.files id ≠ row cfg s.files id) : Justified cfg id s s' d mv.kind := by
  cases mv with
  | gateFail detail w =>
    exact gate_justified (f := (gateFail · detail s.clock)) (fun _ _ => rfl) (fun _ => rfl) hs hc
  | gateSkip detail w =>
    exact gate_justified (f := (gateSkip · detail s.clock)) (fun _ _ => rfl) (fun _ => rfl) hs hc
  | gateReason reason w =>
    exact gate_justified (f := (withReason · reason)) (fun _ _ => rfl) (fun _ => rfl) hs hc
  | start =>
    simp only [move] at hs
    split at hs
    · split at hs
      · cases hs
        exact absurd rfl hc
      · cases hs
    · cases hs
  | commit rw w =>
    simp only [move] at hs
    split at hs
    · rename_i m cur hd hload
      split at hs
      · split at hs
        · cases hs
          exact absurd rfl hc
        · rename_i e he
          obtain ⟨r, rfl, hq, ha, -⟩ := commitWrite_some he
          exact ⟨r, row_of_load hload, heldBy_of_attempt h hd hq ha⟩
      · cases hs
    · cases hs
  | claim node token owner w =>
    simp only [move] at hs
    split at hs
    · rename_i m cur hd hload
      split at hs
      · rename_i hg
        split at hs
        · cases hs
          exact absurd rfl hc
        · rename_i e he
          obtain ⟨r, rfl, hq, ha, -⟩ := onAttempt_some he
          simp only [Bool.and_eq_true, Bool.not_eq_true'] at hg
          rw [(h.holds d m hd).spec hg.1.1] at ha
          exact ⟨r, row_of_load hload, heldBy_of_attempt h hd hq ha⟩
      · cases hs
    · cases hs
  | claimRefused reason w =>
    simp only [move] at hs
    split at hs
    · rename_i m cur hd hload
      split at hs
      · rename_i hg
        split at hs
        · cases hs
          exact absurd rfl hc
        · rename_i e he
          obtain ⟨r, rfl, hq, ha, -⟩ := onAttempt_some he
          simp only [Bool.and_eq_true, Bool.not_eq_true'] at hg
          rw [(h.holds d m hd).spec hg.1] at ha
          exact ⟨r, row_of_load hload, heldBy_of_attempt h hd hq ha⟩
      · cases hs
    · cases hs
  | restoreRunning detail w =>
    simp only [move] at hs
    split at hs
    · split at hs
      · split at hs
        · cases hs
        · refine restore_justified (fun e entry hw => ?_) hs hc
          simp only [Event.write, Option.ite_none_right_eq_some, absentOrKilled,
            Option.all_some, decide_eq_true_eq] at hw
          exact hw.1
      · cases hs
    · cases hs
  | restoreFinished w =>
    simp only [move] at hs
    split at hs
    · split at hs
      · split at hs
        · refine restore_justified (fun e entry hw => ?_) hs hc
          simp only [Event.write, Option.ite_none_right_eq_some, absentOrKilled,
            Option.all_some, decide_eq_true_eq] at hw
          exact hw.1
        · cases hs
      · cases hs
    · cases hs
  | recordCancelled killed w =>
    simp only [move] at hs
    split at hs
    · split at hs
      · split at hs
        · cases hs
        · refine restore_justified (fun e entry hw => ?_) hs hc
          simp only [Event.write, Option.getD_some, Option.ite_none_right_eq_some] at hw
          exact hw.1
      · cases hs
    · cases hs
  | stop =>
    cases hs
    exact absurd rfl hc

/-! ## The row leaves the queue once -/

def isQueued (cfg : HeadConfig) (id : JobId) (s : World) : Bool :=
  (row cfg s.files id).any (·.status = .queued)

def hasLeft (cfg : HeadConfig) (id : JobId) (s : World) : Bool :=
  (row cfg s.files id).any (·.status ≠ .queued)

def Act.byDispatcher : Act → Bool
  | .dispatcher .. => true
  | _ => false

/-- How often a run takes the row out of the queue by dispatch. -/
def departures (cfg : HeadConfig) (id : JobId) : World → List Act → Nat
  | _, [] => 0
  | s, a :: as =>
    match step cfg id s a with
    | none => 0
    | some s' =>
      (if a.byDispatcher && isQueued cfg id s && hasLeft cfg id s' then 1 else 0) +
        departures cfg id s' as

theorem hasLeft_iff {s : World} :
    hasLeft cfg id s = true ↔ ∃ e, row cfg s.files id = some e ∧ e.status ≠ .queued := by
  unfold hasLeft
  cases row cfg s.files id <;> simp

theorem not_isQueued (h : hasLeft cfg id s = true) : isQueued cfg id s = false := by
  obtain ⟨e, he, hq⟩ := hasLeft_iff.mp h
  simp [isQueued, he, hq]

/-- No status probe puts a row back into the queue. -/
theorem applyStatusProbe_status {e e' : JobEntry} {p : StatusProbe} {dir : String} {now : Time}
    (h : applyStatusProbe e p dir now = some e') (hq : e.status ≠ .queued) :
    e'.status ≠ .queued := by
  unfold applyStatusProbe at h
  split at h
  · cases h
  · split at h
    · split at h
      · cases h
      · split at h
        · cases h
          simp [markFinishedFromProbe]
        · cases h
    · split at h
      · cases h
        simp [markRebootedFromProbe]
      · split at h
        · split at h
          · cases h
          · simp only [markRunningFromProbe, Option.ite_none_left_eq_some] at h
            obtain ⟨-, h⟩ := h
            cases h
            simp [runningFromProbe]
        · split at h
          · cases h
          · simp only [markLostFromProbe] at h
            split at h
            · split at h
              · cases h
              · cases h
                exact hq
            · cases h
              simp [markLost]

/-- A request of a user never puts a row back into the queue. -/
theorem request_status {ev : Event} {e e' : JobEntry} {now : Time} (hr : isRequest ev = true)
    (hq : e.status ≠ .queued) (h : ev.write (some e) now = some e') : e'.status ≠ .queued := by
  cases ev with
  | dequeue target => simp [Event.write, onStatus, hq] at h
  | kill target sig sweep v =>
    simp only [Event.write, Option.getD_some] at h
    rcases (killWrite_some h).2 with rfl | ⟨code, -, rfl⟩ <;> simp [killedRow, exitedRow]
  | refresh target batched p stateDir =>
    simp only [Event.write, refreshWrite, Option.getD_some] at h
    split at h
    · cases h
    · split at h
      · cases h
      · exact applyStatusProbe_status h hq
  | finalize observedNow =>
    simp only [Event.write, Option.bind_some, finalizeWrite] at h
    split at h
    · cases h
    · split at h
      · cases h
      · split at h
        · cases h
        · split at h
          · cases h
          · cases h
            exact hq
  | _ => cases hr

theorem event_hasLeft {ev : Event} {w : WriteOutcome} (hl : hasLeft cfg id s = true)
    (hs : s.event cfg id ev w = some s')
    (hw : ∀ e entry, row cfg s.files id = some e → e.status ≠ .queued →
      ev.write (some e) s.clock = some entry → entry.status ≠ .queued) :
    hasLeft cfg id s' = true := by
  obtain ⟨e, he, hq⟩ := hasLeft_iff.mp hl
  rcases event_row hs with hr | ⟨cur, entry, e', hload, hwrite, he', hsaved⟩
  · exact hasLeft_iff.mpr ⟨e, hr.trans he, hq⟩
  · rw [load_of_row he] at hload
    cases hload
    exact hasLeft_iff.mpr ⟨e', he', hsaved.status ▸ hw e entry he hq hwrite⟩

/-- Once the row has left the queue, it never returns. -/
theorem step_hasLeft {a : Act} (h : Inv id s) (hl : hasLeft cfg id s = true)
    (hs : step cfg id s a = some s') : hasLeft cfg id s' = true := by
  cases a with
  | tick dt =>
    simp only [step] at hs
    split at hs
    · cases hs
      exact hl
    · cases hs
  | request ev w =>
    simp only [step] at hs
    split at hs
    · rename_i hr
      exact event_hasLeft hl hs fun e entry _ hq hw => request_status hr hq hw
    · cases hs
  | dispatcher d mv =>
    by_cases hc : row cfg s'.files id = row cfg s.files id
    · simpa only [hasLeft, hc] using hl
    · obtain ⟨e, he, hq⟩ := hasLeft_iff.mp hl
      have hj := move_justified h hs hc
      -- gates and compare-and-swap moves need a queued row, so this is a restore
      cases mv with
      | gateFail detail w =>
        obtain ⟨e', -, he', -, hq', -⟩ := hj
        exact absurd hq' (by rwa [← Option.some.inj (he.symm.trans he')])
      | gateSkip detail w =>
        obtain ⟨e', -, he', -, hq', -⟩ := hj
        exact absurd hq' (by rwa [← Option.some.inj (he.symm.trans he')])
      | gateReason reason w =>
        obtain ⟨e', -, he', -, hq', -⟩ := hj
        exact absurd hq' (by rwa [← Option.some.inj (he.symm.trans he')])
      | commit rw w =>
        obtain ⟨e', he', m, -, hq', -⟩ := hj
        exact absurd hq' (by rwa [← Option.some.inj (he.symm.trans he')])
      | claim node token owner w =>
        obtain ⟨e', he', m, -, hq', -⟩ := hj
        exact absurd hq' (by rwa [← Option.some.inj (he.symm.trans he')])
      | claimRefused reason w =>
        obtain ⟨e', he', m, -, hq', -⟩ := hj
        exact absurd hq' (by rwa [← Option.some.inj (he.symm.trans he')])
      | start => exact hj.elim
      | stop => exact hj.elim
      | restoreRunning detail w =>
        simp only [step, move] at hs
        split at hs
        · split at hs
          · split at hs
            · cases hs
            · obtain ⟨t, ht, rfl⟩ := Option.map_eq_some_iff.mp hs
              refine (event_hasLeft hl ht fun e entry _ _ hw => ?_ : hasLeft cfg id t = true)
              simp only [Event.write, Option.ite_none_right_eq_some, Option.some.injEq] at hw
              simp [← hw.2, restoreRunningRow]
          · cases hs
        · cases hs
      | restoreFinished w =>
        simp only [step, move] at hs
        split at hs
        · split at hs
          · split at hs
            · rename_i m hd placed hp hf
              obtain ⟨t, ht, rfl⟩ := Option.map_eq_some_iff.mp hs
              refine (event_hasLeft hl ht fun e entry _ _ hw => ?_ : hasLeft cfg id t = true)
              simp only [Event.write, Option.ite_none_right_eq_some, Option.some.injEq] at hw
              simp [← hw.2, hf]
            · cases hs
          · cases hs
        · cases hs
      | recordCancelled killed w =>
        simp only [step, move] at hs
        split at hs
        · split at hs
          · split at hs
            · cases hs
            · obtain ⟨t, ht, rfl⟩ := Option.map_eq_some_iff.mp hs
              refine (event_hasLeft hl ht fun e entry _ _ hw => ?_ : hasLeft cfg id t = true)
              simp only [Event.write, Option.getD_some, Option.ite_none_right_eq_some,
                Option.some.injEq] at hw
              simp [← hw.2, cancelledInflightRow, hw.1]
          · cases hs
        · cases hs

theorem departures_of_hasLeft {as : List Act} (h : Inv id s) (hl : hasLeft cfg id s = true) :
    departures cfg id s as = 0 := by
  induction as generalizing s with
  | nil => rfl
  | cons a as ih =>
    simp only [departures]
    split
    · rfl
    · rename_i s' hs
      simp [not_isQueued hl, ih (step_inv h hs) (step_hasLeft h hl hs)]

theorem departures_le_one {as : List Act} (h : Inv id s) : departures cfg id s as ≤ 1 := by
  induction as generalizing s with
  | nil => simp [departures]
  | cons a as ih =>
    simp only [departures]
    split
    · omega
    · rename_i s' hs
      have h' := step_inv h hs
      cases hl : hasLeft cfg id s' with
      | true =>
        rw [departures_of_hasLeft h' hl]
        split <;> omega
      | false => simpa using ih h'

/-- Nobody is dispatching; the tokens of earlier dispatchers are known and distinct. -/
structure Start (cfg : HeadConfig) (id : JobId) (s : World) : Prop where
  idle : ∀ d, s.dispatchers d = none
  unique : (s.minted.map (·.1)).Nodup
  token : ∀ e t, row cfg s.files id = some e → e.dispatchToken = some t → (t, none) ∈ s.minted

theorem Start.inv (h : Start cfg id s) : Inv id s :=
  ⟨h.unique, fun d m hd => by rw [h.idle d] at hd; cases hd⟩

/-- In every reachable state, a dispatcher's claim, replacement, clearing or commit changes the
row only if the row is queued and holds exactly the attempt that dispatcher holds, its own or one
it took over for recovery; and along every run the row leaves the queue by dispatch at most once. -/
theorem claim_compare_and_swap :
    (∀ s, Reach (step cfg id) (Start cfg id) s → ∀ d mv s',
      step cfg id s (.dispatcher d mv) = some s' → row cfg s'.files id ≠ row cfg s.files id →
      Justified cfg id s s' d mv.kind) ∧
    ∀ s as, Start cfg id s → departures cfg id s as ≤ 1 := by
  refine ⟨fun s hs d mv s' h hc => ?_, fun s as hs => departures_le_one hs.inv⟩
  have hinv : Inv id s := reach_inv (fun s h => h.inv) (fun s a s' h hs => step_inv h hs) hs
  exact move_justified hinv h hc

/-- One queued row and nobody at work. -/
def World.sample : World where
  toSys := .ofRow (.sample "job-1")
  dispatchers _ := none
  minted := []

def samplePlaced : JobEntry :=
  { JobEntry.sample "job-1" with status := .running, node := "n1", pgid := some 7 }

/-- Two dispatchers read the row, the second one loses the claim, the first one places the job. -/
def sampleRun : List Act :=
  [.dispatcher 0 .start, .dispatcher 1 .start,
    .dispatcher 0 (.claim "n1" "0123456789abcdef0123456789abcdef" "boot:17:99" { stamp := 2 }),
    .dispatcher 1 (.claim "n2" "fedcba9876543210fedcba9876543210" "boot:18:99" { stamp := 3 }),
    .tick 5]

theorem claim_compare_and_swap_sample :
    ∃ s s', run (step .sample "job-1") .sample sampleRun = some s ∧
      step .sample "job-1" s (.dispatcher 0 (.commit (.place samplePlaced) { stamp := 4 })) =
        some s' ∧
      row .sample s'.files "job-1" ≠ row .sample s.files "job-1" ∧
      Justified .sample "job-1" s s' 0 .compareAndSwap ∧
      departures .sample "job-1" .sample (sampleRun ++
        [.dispatcher 0 (.commit (.place samplePlaced) { stamp := 4 })]) = 1 ∧
      departures .sample "job-1" .sample sampleRun ≤ 1 := by
  have hstart : Start .sample "job-1" World.sample := by
    refine ⟨fun _ => rfl, by decide, fun e t he ht => ?_⟩
    have h : (row .sample World.sample.files "job-1").map (·.dispatchToken) = some none := by
      decide +kernel
    simp [he, ht] at h
  have hstatus : ((run (step .sample "job-1") .sample sampleRun).bind fun s =>
      (row .sample s.files "job-1").map (·.status)) = some .queued := by decide +kernel
  have hstatus' : (((run (step .sample "job-1") .sample sampleRun).bind fun s =>
      step .sample "job-1" s (.dispatcher 0 (.commit (.place samplePlaced) { stamp := 4 }))).bind
        fun s => (row .sample s.files "job-1").map (·.status)) = some .running := by
    decide +kernel
  have hone : departures .sample "job-1" .sample (sampleRun ++
      [.dispatcher 0 (.commit (.place samplePlaced) { stamp := 4 })]) = 1 := by decide +kernel
  obtain ⟨s, hs, hq⟩ := Option.bind_eq_some_iff.mp hstatus
  rw [hs, Option.bind_some] at hstatus'
  obtain ⟨s', hs', hr⟩ := Option.bind_eq_some_iff.mp hstatus'
  have hc : row .sample s'.files "job-1" ≠ row .sample s.files "job-1" := by
    intro h
    rw [h, hq] at hr
    cases hr
  obtain ⟨hcas, hdep⟩ := @claim_compare_and_swap .sample "job-1"
  exact ⟨s, s', hs, hs', hc, hcas s ⟨_, _, hstart, hs⟩ 0 _ s' hs' hc, hone,
    hdep _ _ hstart⟩

end Dt.Dispatch.Claims
