import Dt.Submission.Intent

/-!
# Group submissions

A group record is the parent of several ordered child submissions, which have request records of
their own. Clients claim the group, optionally run one action under the lock of the request, record
the children one after the other, and write the final receipt. Each of these is one locked operation;
a client may die in any of them, and a write may stop at any point.
-/

namespace Dt.Submission.Group

open Dt.Lib Dt.Jobs

/-- `GROUP_REQUEST_STATES`. -/
inductive GroupState where
  | preparing | prepared | confirmed | rejected | uncertain
  deriving DecidableEq, Repr

/-- `GROUP_OPERATIONS`. -/
inductive Operation where
  | batch | chain | forkRepeat | matrix
  deriving DecidableEq, Repr

structure GroupRequestRecord where
  requestId : String
  intentSha256 : String
  operation : Operation
  requested : Nat
  submitted : Nat
  state : GroupState
  createdAt : Time
  updatedAt : Time
  exitCode : Option Int := none
  errorKind : Option String := none
  errorMessage : Option String := none
  deriving DecidableEq, Repr

/-- `GROUP_TERMINAL_STATES`. -/
def GroupState.terminal (s : GroupState) : Bool := s = .confirmed || s = .rejected

/-- An error kind: one to 64 letters, digits and `_.:-`. -/
def validGroupErrorKind (s : String) : Bool :=
  classRun (fun d => isAlnum d || ['_', '.', ':', '-'].contains d) 1 64 s.toList

/-- The checks of `_decode` that the types do not make. -/
def decodeGroup (expected : String) (r : GroupRequestRecord) :
    Except String GroupRequestRecord := do
  check (r.createdAt ≤ 0 || r.updatedAt ≤ 0) "submission group timestamps are invalid"
  check (r.exitCode.any fun c => c < 0 || 255 < c) "submission group exit code is invalid"
  check (r.requestId ≠ expected) "submission group digest does not match its identity"
  check (!hexOf 64 r.intentSha256) "submission group intent digest is invalid"
  check (r.requested < 1 || 10000 < r.requested) "submission group size is invalid"
  check (r.requested < r.submitted) "submission group progress is invalid"
  check (r.state = .confirmed && r.exitCode.isNone)
    "confirmed submission group is missing its exit code"
  check (r.state ≠ .confirmed && r.exitCode.isSome) "non-terminal submission group has an exit code"
  check (r.state = .confirmed && r.errorKind.isNone && r.exitCode ≠ some 0)
    "successful submission group has a failure exit code"
  check (r.state = .confirmed && r.errorKind.isSome && r.exitCode = some 0)
    "failed submission group has a success exit code"
  check (r.state = .confirmed && r.errorKind.isNone && r.submitted ≠ r.requested)
    "successful submission group is incomplete"
  check (r.state = .rejected && (r.submitted ≠ 0 || r.errorKind.isNone))
    "rejected submission group has invalid progress or no failure kind"
  check (r.state = .prepared && (r.errorKind.isSome || r.errorMessage.isSome))
    "prepared submission group has failure details"
  check (r.errorKind.any (!validGroupErrorKind ·)) "submission group error kind is invalid"
  check (r.errorMessage.any (512 < ·.length)) "submission group error message is too long"
  return r

/-- What `save` puts on disk, or why it refuses to. -/
def encodeGroup (r : GroupRequestRecord) : Except String GroupRequestRecord := do
  let _ ← validateRequestId r.requestId
  decodeGroup r.requestId r

/-! ## Claims, children, transitions -/

/-- `transition`, before it is saved. -/
def GroupRequestRecord.become (r : GroupRequestRecord) (state : GroupState) (exitCode : Option Int)
    (errorKind errorMessage : Option String) (now : Time) : GroupRequestRecord :=
  { r with
    state := state, updatedAt := now
    exitCode := if state = .confirmed then exitCode else none
    errorKind := errorKind, errorMessage := boundedMessage errorMessage }

/-- A rejected group whose action was interrupted in a retry-safe way before any child. -/
def GroupRequestRecord.reopenable (r : GroupRequestRecord) : Bool :=
  r.state = .rejected && r.errorKind = some "claimed_action_interrupted" && r.submitted = 0

/-- What a claim finds: no record, a rejection it reopens, or a record it keeps. -/
inductive Claim where
  | fresh (r : GroupRequestRecord)
  | reopened (r : GroupRequestRecord)
  | existing (r : GroupRequestRecord)

/-- `_claim`, and the reopening of `locked_claim`; `single` says that the request id belongs to a
single-job intent. -/
def claimRecord (rid : String) (single : Bool) (existing : Option GroupRequestRecord)
    (intent : String) (operation : Operation) (requested : Nat) (now : Time) :
    Except String Claim :=
  if single then .error ("request '" ++ rid ++ "' already belongs to a single-job intent")
  else match existing with
  | some r =>
    if r.intentSha256 ≠ intent || r.operation ≠ operation || r.requested ≠ requested then
      .error ("request '" ++ rid ++ "' already belongs to a different intent")
    else if r.state ≠ .rejected then .ok (.existing r)
    else if r.reopenable then .ok (.reopened (r.become .preparing none none none now))
    else .error ("request '" ++ rid ++ "' was already rejected: " ++
      (if r.errorMessage.getD "" = "" then "group preparation failed" else r.errorMessage.getD ""))
  | none =>
    if requested < 1 || 10000 < requested then
      .error "submission group size must be between 1 and 10000"
    else .ok (.fresh
      { requestId := rid, intentSha256 := intent, operation, requested, submitted := 0
        state := .preparing, createdAt := now, updatedAt := now })

/-- The child is durably confirmed for the job. -/
def childConfirmed (child : Option RequestRecord) (jobId : JobId) : Bool :=
  child.any fun c => c.state = .confirmed && c.jobId = jobId

/-- `locked_record_job`, before it is saved; a terminal group and an index that is already covered
leave nothing to save. -/
def recordJob (rid : String) (record : Option GroupRequestRecord) (intent : String) (index : Nat)
    (jobId : JobId) (child : Option RequestRecord) (now : Time) :
    Except String (Option GroupRequestRecord) :=
  match record with
  | none => .error "submission group claim disappeared"
  | some r =>
    if r.intentSha256 ≠ intent then
      .error ("request '" ++ rid ++ "' already belongs to a different intent")
    else if r.state.terminal then
      if r.submitted < index then .error "terminal submission group progress changed"
      else if index < 1 then .error "group request item index must be positive"
      else if !childConfirmed child jobId then .error "terminal submission group child changed"
      else .ok none
    else if index < 1 || r.requested < index then
      .error "submission group child index is out of range"
    else if r.submitted + 1 < index then .error "submission group progress is not a strict prefix"
    else if !childConfirmed child jobId then
      .error "submission group child is not durably confirmed for this job"
    else if index ≤ r.submitted then .ok none
    else .ok (some { r with
      submitted := index, state := if r.state = .prepared then .prepared else .preparing
      updatedAt := now, exitCode := none, errorKind := none, errorMessage := none })

/-- `locked_transition`, before it is saved; a terminal group is returned as it is. -/
def lockedTransition (rid : String) (record : Option GroupRequestRecord) (intent : String)
    (state : GroupState) (exitCode : Option Int) (errorKind errorMessage : Option String)
    (now : Time) : Except String (Option GroupRequestRecord) :=
  match record with
  | none => .error "submission group claim disappeared"
  | some r =>
    if r.intentSha256 ≠ intent then
      .error ("request '" ++ rid ++ "' already belongs to a different intent")
    else if r.state.terminal then .ok none
    else .ok (some (r.become state exitCode errorKind errorMessage now))

/-! ## Steps -/

/-- What became of one execution of a claimed action. `retrySafe` says that its claim was rejected
as interrupted before any child was submitted. -/
inductive ActionOutcome where
  | running | done | failed | retrySafe
  deriving DecidableEq, Repr

structure Execution where
  client : Nat
  outcome : ActionOutcome
  deriving DecidableEq, Repr

structure World where
  slot : Slot GroupRequestRecord := {}
  single : Bool := false
  /-- The request records of the children, by their index. -/
  children : Nat → Option RequestRecord := fun _ => none
  /-- The client that holds the lock and runs the claimed action, with its claim. -/
  acting : Option (Nat × GroupRequestRecord) := none
  /-- Every execution of a claimed action, the newest first. -/
  executions : List Execution := []
  clock : Time := 1

inductive Op where
  | claim (client : Nat) (intent : String) (operation : Operation) (requested : Nat) (action : Bool)
      (w : Write)
  | finish (result : Except (Bool × String) Unit) (w : Write)
  | recordJob (intent : String) (index : Nat) (jobId : JobId) (w : Write)
  | transition (intent : String) (state : GroupState) (exitCode : Option Int)
      (errorKind errorMessage : Option String) (w : Write)
  | child (index : Nat) (record : RequestRecord)
  | single
  | tick (dt : Time)
  | restart
  | crash

/-- `save` of a record; a refused one is not written. -/
def World.save (s : World) (w : Write) (r : GroupRequestRecord) : World :=
  match encodeGroup r with
  | .error _ => s
  | .ok r => { s with slot := s.slot.put w r }

def saved (w : Write) (r : GroupRequestRecord) : Bool :=
  w = .synced && (encodeGroup r).toOption.isSome

/-- The outcome of the newest execution. -/
def World.note (s : World) (o : ActionOutcome) : World :=
  { s with executions := match s.executions with
    | [] => []
    | e :: es => { e with outcome := o } :: es }

/-- A new claim is saved, and its action starts once the claim is durable. -/
def World.begin (s : World) (client : Nat) (r : GroupRequestRecord) (action : Bool) (w : Write) :
    World :=
  if action && saved w r then
    { s.save w r with
      acting := some (client, r)
      executions := ⟨client, .running⟩ :: s.executions }
  else s.save w r

/-- The receipt of a claimed action: `prepared`, or a rejection with its kind. -/
def actionReceipt (r : GroupRequestRecord) (result : Except (Bool × String) Unit) (now : Time) :
    GroupRequestRecord :=
  match result with
  | .ok () => r.become .prepared none none none now
  | .error (retrySafe, message) =>
    r.become .rejected none
      (some (if retrySafe then "claimed_action_interrupted" else "claimed_action_failed"))
      (some message) now

def actionOutcome : Except (Bool × String) Unit → ActionOutcome
  | .ok () => .done
  | .error (true, _) => .retrySafe
  | .error (false, _) => .failed

/-- A transition that leaves the group reopenable ends its claim in a retry-safe way. -/
def World.transition (s : World) (r : GroupRequestRecord) (w : Write) : World :=
  if r.reopenable then (s.save w r).note .retrySafe else s.save w r

/-- One step. While a client runs its action the lock is held, and only that client, the children
and the clock go on. A confirmed child stays confirmed for its job. -/
def step (rid : String) (s : World) : Op → Option World
  | .claim client intent operation requested action w =>
    if s.acting.isSome then none
    else match claimRecord rid s.single s.slot.visible intent operation requested s.clock with
    | .error _ | .ok (.existing _) => some s
    | .ok (.fresh r) | .ok (.reopened r) => some (s.begin client r action w)
  | .finish result w =>
    match s.acting with
    | none => none
    | some (_, r) =>
      some { (s.save w (actionReceipt r result s.clock)).note (actionOutcome result) with
        acting := none }
  | .recordJob intent index jobId w =>
    if s.acting.isSome then none
    else match recordJob rid s.slot.visible intent index jobId (s.children index) s.clock with
    | .error _ | .ok none => some s
    | .ok (some r) => some (s.save w r)
  | .transition intent state exitCode kind message w =>
    if s.acting.isSome then none
    else match lockedTransition rid s.slot.visible intent state exitCode kind message s.clock with
    | .error _ | .ok none => some s
    | .ok (some r) => some (s.transition r w)
  | .child index record =>
    if (s.children index).all fun c => c.state ≠ .confirmed ||
        (record.state = .confirmed && record.jobId = c.jobId) then
      some { s with children := Function.update s.children index (some record) }
    else none
  | .single =>
    if s.acting.isSome then none
    else if s.slot.visible.isSome then some s else some { s with single := true }
  | .tick dt => if 0 ≤ dt then some { s with clock := s.clock + dt } else none
  | .restart => some { s with acting := none }
  | .crash => some { s with slot := s.slot.crash, acting := none }

/-! ## Later versions -/

/-- A group state that nothing changes any more. -/
def Final (r : GroupRequestRecord) : Prop := r.state.terminal = true ∧ r.reopenable = false

/-- The part of the record that is written once. -/
def GroupRequestRecord.key (r : GroupRequestRecord) : String × String × Operation × Nat × Time :=
  (r.requestId, r.intentSha256, r.operation, r.requested, r.createdAt)

/-- `r'` is a later version of the group `r`: it has no fewer children, and a final group is the
same. -/
structure Later (r r' : GroupRequestRecord) : Prop where
  key : r'.key = r.key
  submitted : r.submitted ≤ r'.submitted
  final : Final r → r' = r

theorem Later.refl (r : GroupRequestRecord) : Later r r := ⟨rfl, le_rfl, fun _ => rfl⟩

theorem Later.trans (r r' r'' : GroupRequestRecord) (h : Later r r') (h' : Later r' r'') :
    Later r r'' where
  key := h'.key.trans h.key
  submitted := h.submitted.trans h'.submitted
  final hf := by
    obtain rfl := h.final hf
    exact h'.final hf

theorem decodeGroup_ok {id : String} {r r' : GroupRequestRecord} (h : decodeGroup id r = .ok r') :
    r' = r ∧ r.submitted ≤ r.requested := by
  simp only [decodeGroup, bind_unit_ok, check_ok, decide_eq_false_iff_not, not_lt] at h
  obtain ⟨-, -, -, -, -, hle, -, -, -, -, -, -, -, -, -, h⟩ := h
  exact ⟨(Except.ok.inj h).symm, hle⟩

theorem encodeGroup_ok {r r' : GroupRequestRecord} (h : encodeGroup r = .ok r') :
    r' = r ∧ r.submitted ≤ r.requested := by
  unfold encodeGroup validateRequestId at h
  split at h
  · exact decodeGroup_ok h
  · cases h

/-- A group that is not final may become anything that keeps its key and its children. -/
theorem later_of_live {r r' : GroupRequestRecord} (hlive : ¬ Final r) (hkey : r'.key = r.key)
    (hsub : r.submitted ≤ r'.submitted) : Later r r' :=
  ⟨hkey, hsub, fun hf => absurd hf hlive⟩

theorem not_final_of_open {r : GroupRequestRecord} (h : r.state.terminal = false) : ¬ Final r := by
  intro hf
  rw [Final, h] at hf
  cases hf.1

theorem not_final_of_reopenable {r : GroupRequestRecord} (h : r.reopenable = true) : ¬ Final r := by
  intro hf
  rw [Final, h] at hf
  cases hf.2

/-- What a claim writes: a fresh group where there was none, or a reopened one. -/
theorem claimRecord_ok {rid intent : String} {single : Bool} {o : Option GroupRequestRecord}
    {op : Operation} {n : Nat} {now : Time} {c : Claim}
    (h : claimRecord rid single o intent op n now = .ok c) :
    match c with
    | .fresh r => o = none ∧ r.state = .preparing ∧ r.submitted = 0
    | .reopened r => ∃ r₀, o = some r₀ ∧ r₀.reopenable = true ∧
        r = r₀.become .preparing none none none now
    | .existing r => o = some r := by
  unfold claimRecord at h
  split at h
  · cases h
  · split at h
    · split at h
      · cases h
      · split at h
        · cases h
          rfl
        · split at h
          · rename_i hr
            cases h
            exact ⟨_, rfl, hr, rfl⟩
          · cases h
    · split at h
      · cases h
      · cases h
        exact ⟨rfl, rfl, rfl⟩

/-- A recorded child is the next one, and is confirmed. -/
theorem recordJob_some {rid intent : String} {o : Option GroupRequestRecord} {index : Nat}
    {jobId : JobId} {child : Option RequestRecord} {now : Time} {r' : GroupRequestRecord}
    (h : recordJob rid o intent index jobId child now = .ok (some r')) :
    ∃ r, o = some r ∧ r.state.terminal = false ∧ r'.key = r.key ∧ index = r.submitted + 1 ∧
      r'.submitted = index ∧ r'.state.terminal = false ∧ ∃ c, child = some c ∧
        c.state = .confirmed := by
  unfold recordJob at h
  split at h
  · cases h
  · rename_i r
    split at h
    · cases h
    · split at h
      · split at h
        · cases h
        · split at h
          · cases h
          · split at h <;> cases h
      · rename_i hopen
        split at h
        · cases h
        · split at h
          · cases h
          · split at h
            · cases h
            · rename_i hnext hchild
              split at h
              · cases h
              · rename_i hnew
                cases h
                simp only [childConfirmed, Bool.not_eq_true', Bool.not_eq_false,
                  Option.any_eq_true, Bool.and_eq_true, decide_eq_true_eq] at hchild
                obtain ⟨c, hc, hs, -⟩ := hchild
                refine ⟨r, rfl, Bool.eq_false_iff.mpr hopen, rfl, by omega, rfl, ?_, c, hc, hs⟩
                show GroupState.terminal (if r.state = .prepared then .prepared else .preparing) =
                  false
                split <;> rfl

theorem lockedTransition_some {rid intent : String} {o : Option GroupRequestRecord}
    {state : GroupState} {code : Option Int} {kind message : Option String} {now : Time}
    {r' : GroupRequestRecord}
    (h : lockedTransition rid o intent state code kind message now = .ok (some r')) :
    ∃ r, o = some r ∧ r.state.terminal = false ∧ r'.key = r.key ∧ r'.submitted = r.submitted := by
  unfold lockedTransition at h
  split at h
  · cases h
  · rename_i r
    split at h
    · cases h
    · split at h
      · cases h
      · rename_i hopen
        cases h
        exact ⟨r, rfl, Bool.eq_false_iff.mpr hopen, rfl, rfl⟩

/-! ## The invariant -/

/-- The children up to the progress of the group are confirmed. -/
def PrefixDone (children : Nat → Option RequestRecord) (r : GroupRequestRecord) : Prop :=
  r.submitted ≤ r.requested ∧ ∀ i, 1 ≤ i → i ≤ r.submitted →
    ∃ c, children i = some c ∧ c.state = .confirmed

/-- A group that may be reopened had its last execution end in a retry-safe way. -/
def Reopens (es : List Execution) (r : GroupRequestRecord) : Prop :=
  r.reopenable = true → ∀ e ∈ es.head?, e.outcome = .retrySafe

structure Inv (s : World) : Prop where
  agree : s.slot.Agree Later
  done : s.slot.All (PrefixDone s.children)
  reopens : s.slot.All (Reopens s.executions)
  acting : ∀ c r, s.acting = some (c, r) → s.slot = ⟨some r, some r⟩ ∧ r.state = .preparing
  history : ∀ e ∈ s.executions.tail, e.outcome = .retrySafe
  claimed : s.executions ≠ [] → s.slot.durable.isSome = true

variable {s s' : World} {w : Write} {r : GroupRequestRecord}

theorem save_eq (s : World) (w : Write) (r : GroupRequestRecord) :
    s.save w r = s ∨
      s.save w r = { s with slot := s.slot.put w r } ∧ r.submitted ≤ r.requested := by
  unfold World.save
  split
  · exact .inl rfl
  · rename_i r' hr
    obtain ⟨rfl, hle⟩ := encodeGroup_ok hr
    exact .inr ⟨rfl, hle⟩

theorem put_durable (k : Slot GroupRequestRecord) (w : Write) (r : GroupRequestRecord)
    (h : k.durable.isSome = true) : (k.put w r).durable.isSome = true := by
  cases w with
  | lost => exact h
  | unsynced => exact h
  | synced => rfl

/-- A later version may be saved while nobody runs an action. -/
theorem Inv.save (h : Inv s) (hfree : s.acting = none)
    (hlater : ∀ v, s.slot.visible = some v → Later v r)
    (hdone : ∀ i, 1 ≤ i → i ≤ r.submitted → ∃ c, s.children i = some c ∧ c.state = .confirmed)
    (hreopens : Reopens s.executions r) (w : Write) :
    Inv (s.save w r) ∧ s.slot.Evolves Later (s.save w r).slot := by
  rcases save_eq s w r with heq | ⟨heq, hle⟩
  · rw [heq]
    exact ⟨h, .refl Later.refl _⟩
  · rw [heq]
    obtain ⟨hagree, hevo⟩ := h.agree.put Later.refl Later.trans w hlater
    exact ⟨{ agree := hagree
             done := h.done.put w fun _ => ⟨hle, hdone⟩
             reopens := h.reopens.put w fun _ => hreopens
             acting := fun c r hr => by simp [hfree] at hr
             history := h.history
             claimed := fun hne => put_durable _ w r (h.claimed hne) }, hevo⟩

/-- The executions but the newest, and the newest if it was retry-safe. -/
theorem Inv.history_of_head (h : Inv s) (hhead : ∀ e ∈ s.executions.head?, e.outcome = .retrySafe) :
    ∀ e ∈ s.executions, e.outcome = .retrySafe := by
  have htail := h.history
  cases hes : s.executions with
  | nil => simp
  | cons e es =>
    rw [hes] at hhead htail
    intro x hx
    rcases List.mem_cons.mp hx with rfl | hx
    · exact hhead x rfl
    · exact htail x hx

theorem Inv.begin (h : Inv s) (hfree : s.acting = none) (client : Nat) (action : Bool)
    (hlater : ∀ v, s.slot.visible = some v → Later v r) (hstate : r.state = .preparing)
    (hsub : ∀ v, s.slot.visible = some v → v.submitted = r.submitted)
    (hnew : s.slot.visible = none → r.submitted = 0)
    (hhead : s.slot.visible.isSome = true → ∀ e ∈ s.executions.head?, e.outcome = .retrySafe) :
    Inv (s.begin client r action w) ∧ s.slot.Evolves Later (s.begin client r action w).slot := by
  have hreopens : ∀ es, Reopens es r := fun es ho => by
    simp [GroupRequestRecord.reopenable, hstate] at ho
  have hdone : ∀ i, 1 ≤ i → i ≤ r.submitted →
      ∃ c, s.children i = some c ∧ c.state = .confirmed := by
    intro i hi hir
    cases hv : s.slot.visible with
    | none =>
      rw [hnew hv] at hir
      omega
    | some v => exact (h.done.visible v hv).2 i hi ((hsub v hv).symm ▸ hir)
  obtain ⟨hinv, hevo⟩ := h.save hfree hlater hdone (hreopens _) w
  unfold World.begin
  split
  · rename_i ha
    rw [Bool.and_eq_true] at ha
    -- the claim is durable, so both versions are the new one
    have hslot : (s.save w r).slot = ⟨some r, some r⟩ := by
      have hs := ha.2
      simp only [saved, Bool.and_eq_true, decide_eq_true_eq] at hs
      obtain ⟨rfl, hs⟩ := hs
      unfold World.save
      cases he : encodeGroup r with
      | error m => simp [he, Except.toOption] at hs
      | ok r' =>
        obtain ⟨rfl, -⟩ := encodeGroup_ok he
        rfl
    have hall : ∀ e ∈ s.executions, e.outcome = .retrySafe := by
      cases hv : s.slot.visible with
      | some v => exact h.history_of_head (hhead (by simp [hv]))
      | none =>
        -- without a record nothing was ever executed
        have hnil : s.executions = [] := by
          by_contra hne
          obtain ⟨d, hd⟩ := Option.isSome_iff_exists.mp (h.claimed hne)
          obtain ⟨v, hv', -⟩ := h.agree d hd
          rw [hv] at hv'
          cases hv'
        simp [hnil]
    refine ⟨{ agree := hinv.agree, done := hinv.done, reopens := ?_, acting := ?_
              history := hall, claimed := fun _ => by rw [hslot]; rfl }, hevo⟩
    · rw [hslot]
      exact ⟨fun a ha => Option.some.inj ha ▸ hreopens _, fun a ha => Option.some.inj ha ▸ hreopens _⟩
    · intro c r' hr
      obtain ⟨rfl, rfl⟩ := Prod.mk.inj (Option.some.inj hr)
      exact ⟨hslot, hstate⟩
  · exact ⟨hinv, hevo⟩

/-! ## Steps -/

theorem save_note (s : World) (w : Write) (r : GroupRequestRecord) (o : ActionOutcome) :
    (s.save w r).note o = (s.note o).save w r := by
  unfold World.save World.note
  split <;> rfl

theorem note_head (s : World) (o : ActionOutcome) :
    ∀ e ∈ (s.note o).executions.head?, e.outcome = o := by
  cases hes : s.executions <;> simp [World.note, hes]

theorem note_tail (s : World) (o : ActionOutcome) :
    (s.note o).executions.tail = s.executions.tail := by
  cases hes : s.executions <;> simp [World.note, hes]

theorem note_claimed (s : World) (o : ActionOutcome) (h : (s.note o).executions ≠ []) :
    s.executions ≠ [] := by
  intro hnil
  simp [World.note, hnil] at h

/-- The claim of the newest execution ends in a retry-safe way. -/
theorem Inv.noteRetrySafe (h : Inv s) : Inv (s.note .retrySafe) where
  agree := h.agree
  done := h.done
  reopens := ⟨fun _ _ _ => note_head s _, fun _ _ _ => note_head s _⟩
  acting := h.acting
  history := by
    rw [note_tail]
    exact h.history
  claimed hne := h.claimed (note_claimed s _ hne)

/-- The client lets go of the lock; its claim is neither reopenable nor lost. -/
theorem Inv.noteFinished (h : Inv s) {c : Nat} (ha : s.acting = some (c, r)) (o : ActionOutcome) :
    Inv { s.note o with acting := none } := by
  obtain ⟨hslot, hstate⟩ := h.acting c r ha
  have hnot : Reopens (s.note o).executions r := fun ho => by
    simp [GroupRequestRecord.reopenable, hstate] at ho
  refine { agree := h.agree, done := h.done, reopens := ?_, acting := fun _ _ hr => by simp at hr
           history := ?_, claimed := fun hne => h.claimed (note_claimed s o hne) }
  · show s.slot.All _
    rw [hslot]
    exact ⟨fun a ha => Option.some.inj ha ▸ hnot, fun a ha => Option.some.inj ha ▸ hnot⟩
  · show ∀ e ∈ (s.note o).executions.tail, _
    rw [note_tail]
    exact h.history

theorem Inv.transition (h : Inv s) (hfree : s.acting = none) {v : GroupRequestRecord}
    (hv : s.slot.visible = some v) (hlive : ¬ Final v) (hkey : r.key = v.key)
    (hsub : r.submitted = v.submitted) :
    Inv (s.transition r w) ∧ s.slot.Evolves Later (s.transition r w).slot := by
  have hlater : ∀ u, s.slot.visible = some u → Later u r := by
    intro u hu
    obtain rfl : v = u := Option.some.inj (hv.symm.trans hu)
    exact later_of_live hlive hkey hsub.ge
  have hdone : ∀ i, 1 ≤ i → i ≤ r.submitted →
      ∃ c, s.children i = some c ∧ c.state = .confirmed :=
    fun i hi hir => (h.done.visible v hv).2 i hi (hsub ▸ hir)
  unfold World.transition
  split
  · rw [save_note]
    exact h.noteRetrySafe.save hfree hlater hdone (fun _ => note_head s _) w
  · rename_i ho
    exact h.save hfree hlater hdone (fun h => absurd h ho) w

theorem Inv.finish (h : Inv s) {c : Nat} (ha : s.acting = some (c, r))
    (result : Except (Bool × String) Unit) (now : Time) :
    Inv { (s.save w (actionReceipt r result now)).note (actionOutcome result) with
        acting := none } ∧
      s.slot.Evolves Later (s.save w (actionReceipt r result now)).slot := by
  obtain ⟨hslot, hstate⟩ := h.acting c r ha
  have hv : s.slot.visible = some r := by rw [hslot]
  have hlive : ¬ Final r := not_final_of_open (by rw [hstate]; rfl)
  have hreceipt : (actionReceipt r result now).key = r.key ∧
      (actionReceipt r result now).submitted = r.submitted := by
    unfold actionReceipt
    split <;> exact ⟨rfl, rfl⟩
  have hreopens : Reopens ({ s.note (actionOutcome result) with acting := none } : World).executions
      (actionReceipt r result now) := by
    intro ho e he
    have hout : e.outcome = actionOutcome result := note_head s _ e he
    rw [hout]
    cases result with
    | ok u => simp [actionReceipt, GroupRequestRecord.become, GroupRequestRecord.reopenable] at ho
    | error f =>
      obtain ⟨retrySafe, message⟩ := f
      cases retrySafe with
      | true => rfl
      | false =>
        simp [actionReceipt, GroupRequestRecord.become, GroupRequestRecord.reopenable] at ho
  obtain ⟨hinv, hevo⟩ := (h.noteFinished ha (actionOutcome result)).save (w := w) rfl
    (fun u hu => by
      obtain rfl : r = u := Option.some.inj (hv.symm.trans hu)
      exact later_of_live hlive hreceipt.1 hreceipt.2.ge)
    (fun i hi hir => (h.done.visible r hv).2 i hi (hreceipt.2 ▸ hir)) hreopens
  have hsame : ({ s.note (actionOutcome result) with acting := none } : World).save w
      (actionReceipt r result now) =
        { (s.save w (actionReceipt r result now)).note (actionOutcome result) with
          acting := none } := by
    rw [save_note]
    unfold World.save
    split <;> rfl
  have hslots : (({ s.note (actionOutcome result) with acting := none } : World).save w
      (actionReceipt r result now)).slot = (s.save w (actionReceipt r result now)).slot := by
    rw [hsame]
    rfl
  rw [hsame] at hinv
  rw [hslots] at hevo
  exact ⟨hinv, hevo⟩

/-- Every step keeps the invariant; only a crash of the host takes a version back. -/
theorem step_inv {rid : String} {a : Op} (h : Inv s) (hs : step rid s a = some s') :
    Inv s' ∧ (s.slot.Evolves Later s'.slot ∨ a = .crash ∧ s'.slot = s.slot.crash) := by
  cases a with
  | claim client intent operation requested action w =>
    simp only [step] at hs
    split at hs
    · cases hs
    · rename_i hfree
      have hfree : s.acting = none := by simpa using hfree
      cases hc : claimRecord rid s.single s.slot.visible intent operation requested s.clock with
      | error m =>
        simp only [hc, Option.some.injEq] at hs
        exact hs ▸ ⟨h, .inl (.refl Later.refl _)⟩
      | ok claim =>
        have hspec := claimRecord_ok hc
        cases claim with
        | existing r =>
          simp only [hc, Option.some.injEq] at hs
          exact hs ▸ ⟨h, .inl (.refl Later.refl _)⟩
        | fresh r =>
          simp only [hc, Option.some.injEq] at hs
          obtain ⟨hnone, hstate, hsub⟩ := hspec
          obtain ⟨hinv, hevo⟩ := h.begin (w := w) (r := r) hfree client action
            (fun v hv => by simp [hnone] at hv) hstate (fun v hv => by simp [hnone] at hv)
            (fun _ => hsub) (fun hv => by simp [hnone] at hv)
          exact hs ▸ ⟨hinv, .inl hevo⟩
        | reopened r =>
          simp only [hc, Option.some.injEq] at hs
          obtain ⟨r₀, hv₀, hopen, rfl⟩ := hspec
          obtain ⟨hinv, hevo⟩ := h.begin (w := w)
            (r := r₀.become .preparing none none none s.clock) hfree client action
            (fun v hv => by
              obtain rfl : r₀ = v := Option.some.inj (hv₀.symm.trans hv)
              exact later_of_live (not_final_of_reopenable hopen) rfl le_rfl)
            rfl
            (fun v hv => by
              obtain rfl : r₀ = v := Option.some.inj (hv₀.symm.trans hv)
              rfl)
            (fun hv => by simp [hv₀] at hv)
            (fun _ => h.reopens.visible r₀ hv₀ hopen)
          exact hs ▸ ⟨hinv, .inl hevo⟩
  | finish result w =>
    simp only [step] at hs
    split at hs
    · cases hs
    · rename_i c r ha
      cases hs
      obtain ⟨hinv, hevo⟩ := h.finish (w := w) ha result s.clock
      exact ⟨hinv, .inl hevo⟩
  | recordJob intent index jobId w =>
    simp only [step] at hs
    split at hs
    · cases hs
    · rename_i hfree
      have hfree : s.acting = none := by simpa using hfree
      split at hs
      · cases hs
        exact ⟨h, .inl (.refl Later.refl _)⟩
      · cases hs
        exact ⟨h, .inl (.refl Later.refl _)⟩
      · rename_i r hr
        cases hs
        obtain ⟨v, hv, hlive, hkey, hnext, hsub, hopen, c, hc, hconf⟩ := recordJob_some hr
        have hlive := not_final_of_open hlive
        obtain ⟨hinv, hevo⟩ := h.save (r := r) hfree
          (fun u hu => by
            obtain rfl : v = u := Option.some.inj (hv.symm.trans hu)
            exact later_of_live hlive hkey (by omega))
          (fun i hi hir => by
            by_cases hlast : i = index
            · exact ⟨c, hlast ▸ hc, hconf⟩
            · exact (h.done.visible v hv).2 i hi (by omega))
          (fun ho => by
            simp only [GroupRequestRecord.reopenable, Bool.and_eq_true, decide_eq_true_eq] at ho
            rw [ho.1.1] at hopen
            cases hopen) w
        exact ⟨hinv, .inl hevo⟩
  | transition intent state exitCode kind message w =>
    simp only [step] at hs
    split at hs
    · cases hs
    · rename_i hfree
      have hfree : s.acting = none := by simpa using hfree
      split at hs
      · cases hs
        exact ⟨h, .inl (.refl Later.refl _)⟩
      · cases hs
        exact ⟨h, .inl (.refl Later.refl _)⟩
      · rename_i r hr
        cases hs
        obtain ⟨v, hv, hlive, hkey, hsub⟩ := lockedTransition_some hr
        obtain ⟨hinv, hevo⟩ := h.transition (w := w) hfree hv (not_final_of_open hlive) hkey hsub
        exact ⟨hinv, .inl hevo⟩
  | child index record =>
    simp only [step] at hs
    split at hs
    · rename_i hc
      cases hs
      refine ⟨{ agree := h.agree, done := h.done.mono fun r hr => ⟨hr.1, fun i hi hir => ?_⟩
                reopens := h.reopens, acting := h.acting, history := h.history
                claimed := h.claimed }, .inl (.refl Later.refl _)⟩
      obtain ⟨c, hci, hconf⟩ := hr.2 i hi hir
      by_cases hidx : i = index
      · subst hidx
        simp only [hci, Option.all_some, hconf, ne_eq, not_true, decide_false, Bool.false_or,
          Bool.and_eq_true, decide_eq_true_eq] at hc
        exact ⟨record, by simp, hc.1⟩
      · exact ⟨c, (Function.update_of_ne hidx _ _).trans hci, hconf⟩
    · cases hs
  | single =>
    simp only [step] at hs
    split at hs
    · cases hs
    · split at hs
      · cases hs
        exact ⟨h, .inl (.refl Later.refl _)⟩
      · cases hs
        exact ⟨{ agree := h.agree, done := h.done, reopens := h.reopens, acting := h.acting
                 history := h.history, claimed := h.claimed }, .inl (.refl Later.refl _)⟩
  | tick dt =>
    simp only [step] at hs
    split at hs
    · cases hs
      exact ⟨{ agree := h.agree, done := h.done, reopens := h.reopens, acting := h.acting
               history := h.history, claimed := h.claimed }, .inl (.refl Later.refl _)⟩
    · cases hs
  | restart =>
    cases hs
    exact ⟨{ agree := h.agree, done := h.done, reopens := h.reopens
             acting := fun c r hr => by simp at hr
             history := h.history, claimed := h.claimed }, .inl (.refl Later.refl _)⟩
  | crash =>
    cases hs
    exact ⟨{ agree := .crash Later.refl _, done := h.done.crash, reopens := h.reopens.crash
             acting := fun c r hr => by simp at hr
             history := h.history, claimed := h.claimed }, .inr ⟨rfl, rfl⟩⟩

/-- A terminal group changes only by being reopened. -/
theorem step_terminal {rid : String} {a : Op} (h : Inv s) (hs : step rid s a = some s')
    (hup : a ≠ .crash) {v : GroupRequestRecord} (hv : s.slot.visible = some v)
    (ht : v.state.terminal = true) :
    s'.slot.visible = some v ∨ v.reopenable = true ∧
      ∃ client intent operation requested action w,
        a = .claim client intent operation requested action w ∧
          s'.slot.visible = some (v.become .preparing none none none s.clock) := by
  cases hopen : v.reopenable with
  | false =>
    -- a final group stays what it is
    rcases (step_inv h hs).2 with hevo | ⟨rfl, -⟩
    · obtain ⟨v', hv', hlater⟩ := hevo.visible v hv
      obtain rfl := hlater.final ⟨ht, hopen⟩
      exact .inl hv'
    · exact absurd rfl hup
  | true =>
    cases a with
    | claim client intent operation requested action w =>
      simp only [step] at hs
      split at hs
      · cases hs
      · cases hc : claimRecord rid s.single s.slot.visible intent operation requested s.clock with
        | error m =>
          simp only [hc, Option.some.injEq] at hs
          exact .inl (hs ▸ hv)
        | ok claim =>
          have hspec := claimRecord_ok hc
          cases claim with
          | existing r =>
            simp only [hc, Option.some.injEq] at hs
            exact .inl (hs ▸ hv)
          | fresh r =>
            rw [hspec.1] at hv
            cases hv
          | reopened r =>
            simp only [hc, Option.some.injEq] at hs
            obtain ⟨r₀, hv₀, -, rfl⟩ := hspec
            obtain rfl : r₀ = v := Option.some.inj (hv₀.symm.trans hv)
            have hslot : s'.slot = (s.save w (r₀.become .preparing none none none s.clock)).slot := by
              rw [← hs]
              unfold World.begin
              split <;> rfl
            rcases save_eq s w (r₀.become .preparing none none none s.clock) with heq | ⟨heq, -⟩
            · rw [heq] at hslot
              exact .inl (hslot ▸ hv)
            · rw [heq] at hslot
              cases w with
              | lost => exact .inl (hslot ▸ hv)
              | unsynced => exact .inr ⟨rfl, _, _, _, _, _, _, rfl, by rw [hslot]; rfl⟩
              | synced => exact .inr ⟨rfl, _, _, _, _, _, _, rfl, by rw [hslot]; rfl⟩
    | finish result w =>
      simp only [step] at hs
      split at hs
      · cases hs
      · rename_i c r ha
        obtain ⟨hslot, hstate⟩ := h.acting c r ha
        rw [hslot] at hv
        obtain rfl := Option.some.inj hv
        rw [hstate] at ht
        cases ht
    | recordJob intent index jobId w =>
      simp only [step] at hs
      split at hs
      · cases hs
      · split at hs
        · cases hs
          exact .inl hv
        · cases hs
          exact .inl hv
        · rename_i r hr
          obtain ⟨u, hu, hlive, -⟩ := recordJob_some hr
          obtain rfl : v = u := Option.some.inj (hv.symm.trans hu)
          rw [ht] at hlive
          cases hlive
    | transition intent state exitCode kind message w =>
      simp only [step] at hs
      split at hs
      · cases hs
      · split at hs
        · cases hs
          exact .inl hv
        · cases hs
          exact .inl hv
        · rename_i r hr
          obtain ⟨u, hu, hlive, -⟩ := lockedTransition_some hr
          obtain rfl : v = u := Option.some.inj (hv.symm.trans hu)
          rw [ht] at hlive
          cases hlive
    | child index record =>
      simp only [step] at hs
      split at hs <;> cases hs
      exact .inl hv
    | single =>
      simp only [step] at hs
      split at hs
      · cases hs
      · split at hs <;> cases hs <;> exact .inl hv
    | tick dt =>
      simp only [step] at hs
      split at hs <;> cases hs
      exact .inl hv
    | restart =>
      cases hs
      exact .inl hv
    | crash => exact absurd rfl hup

/-! ## Runs -/

/-- No group record yet, and nobody at work. -/
structure Start (s : World) : Prop where
  slot : s.slot = {}
  acting : s.acting = none
  executions : s.executions = []

theorem Start.inv (h : Start s) : Inv s where
  agree d hd := by simp [h.slot] at hd
  done := ⟨fun a ha => by simp [h.slot] at ha, fun a ha => by simp [h.slot] at ha⟩
  reopens := ⟨fun a ha => by simp [h.slot] at ha, fun a ha => by simp [h.slot] at ha⟩
  acting c r hr := by simp [h.acting] at hr
  history e he := by simp [h.executions] at he
  claimed hne := absurd h.executions hne

theorem run_durable {rid : String} {as : List Op} (h : Inv s) (hrun : run (step rid) s as = some s')
    {d : GroupRequestRecord} (hd : s.slot.durable = some d) :
    ∃ d', s'.slot.durable = some d' ∧ Later d d' := by
  induction as generalizing s d with
  | nil =>
    simp only [run_nil, Option.some.injEq] at hrun
    exact ⟨d, hrun ▸ hd, .refl d⟩
  | cons a as ih =>
    obtain ⟨s₁, h₁, h₂⟩ := run_cons_some.mp hrun
    obtain ⟨hinv, hevo | ⟨-, hcrash⟩⟩ := step_inv h h₁
    · obtain ⟨d₁, hd₁, hlater⟩ := hevo.durable d hd
      obtain ⟨d', hd', hlater'⟩ := ih hinv h₂ hd₁
      exact ⟨d', hd', hlater.trans _ _ _ hlater'⟩
    · exact ih hinv h₂ (by rw [hcrash]; exact hd)

theorem run_visible {rid : String} {as : List Op} (h : Inv s) (hrun : run (step rid) s as = some s')
    (hup : ∀ a ∈ as, a ≠ .crash) {v : GroupRequestRecord} (hv : s.slot.visible = some v) :
    ∃ v', s'.slot.visible = some v' ∧ Later v v' := by
  induction as generalizing s v with
  | nil =>
    simp only [run_nil, Option.some.injEq] at hrun
    exact ⟨v, hrun ▸ hv, .refl v⟩
  | cons a as ih =>
    obtain ⟨s₁, h₁, h₂⟩ := run_cons_some.mp hrun
    obtain ⟨hinv, hevo | ⟨hcrash, -⟩⟩ := step_inv h h₁
    · obtain ⟨v₁, hv₁, hlater⟩ := hevo.visible v hv
      obtain ⟨v', hv', hlater'⟩ := ih hinv h₂ (fun b hb => hup b (List.mem_cons_of_mem a hb)) hv₁
      exact ⟨v', hv', hlater.trans _ _ _ hlater'⟩
    · exact absurd hcrash (hup a List.mem_cons_self)

/-- For every interleaving of the locked operations on one group, by any clients: the children that
are recorded are a prefix of the declared ones, all confirmed; what is recorded only grows, and a
final group never changes, unless the host goes down before the directory of a version was synced,
and then down to the last synced version, which only grows too; the only change of a terminal group
is that a claim reopens a rejected and interrupted one without children; and every execution of a
claimed action but the newest belongs to a claim that ended in a retry-safe way. -/
theorem group_prefix {rid : String} {s₀ : World} {as bs : List Op} (h₀ : Start s₀)
    (hrun : run (step rid) s₀ as = some s) (hrun' : run (step rid) s bs = some s') :
    (∀ r, s.slot.visible = some r → PrefixDone s.children r) ∧
      ((∀ b ∈ bs, b ≠ .crash) → ∀ r, s.slot.visible = some r →
        ∃ r', s'.slot.visible = some r' ∧ Later r r') ∧
      (∀ d, s.slot.durable = some d → ∃ d', s'.slot.durable = some d' ∧ Later d d') ∧
      (∀ a s₁ r, step rid s a = some s₁ → a ≠ .crash → s.slot.visible = some r →
        r.state.terminal = true → s₁.slot.visible = some r ∨ r.reopenable = true ∧
          ∃ client intent operation requested action w,
            a = .claim client intent operation requested action w ∧
              s₁.slot.visible = some (r.become .preparing none none none s.clock)) ∧
      ∀ e ∈ s.executions.tail, e.outcome = .retrySafe := by
  have hinv : Inv s := run_inv (fun _ _ _ h hs => (step_inv h hs).1) h₀.inv hrun
  exact ⟨fun r hr => hinv.done.visible r hr, fun hup r hr => run_visible hinv hrun' hup hr,
    fun d hd => run_durable hinv hrun' hd, fun a s₁ r hs hup hr ht => step_terminal hinv hs hup hr ht,
    hinv.history⟩

def sampleIntent : String := "e0cca2965509df678c8064f5e0b9076016fa752f88a6c749768db83479450cc5"

def sampleChild : RequestRecord :=
  { schema := .v3, requestId := "dtg:1", intentSha256 := sampleIntent, jobId := "job-1"
    state := .confirmed, createdAt := 1, updatedAt := 1 }

/-- A transfer is interrupted, a second client reopens the group and prepares it, and the first
child is recorded. -/
def sampleRun : List Op :=
  [.claim 1 sampleIntent .batch 2 true .synced, .finish (.error (true, "link down")) .synced,
   .claim 2 sampleIntent .batch 2 true .synced, .finish (.ok ()) .synced,
   .child 1 sampleChild, .recordJob sampleIntent 1 "job-1" .synced]

/-- The second child fails and the group is closed. -/
def sampleClose : List Op :=
  [.transition sampleIntent .confirmed (some 4) (some "no_capacity") (some "no node") .synced]

theorem group_prefix_sample :
    ∃ s s' r r', run (step "grp-1") {} sampleRun = some s ∧
      run (step "grp-1") s sampleClose = some s' ∧
      s.slot.visible = some r ∧ r.submitted = 1 ∧ PrefixDone s.children r ∧
      s'.slot.visible = some r' ∧ Later r r' ∧
      s.executions.length = 2 ∧ ∀ e ∈ s.executions.tail, e.outcome = .retrySafe := by
  have hprops : ((run (step "grp-1") {} sampleRun).bind fun s =>
      (run (step "grp-1") s sampleClose).map fun _ =>
        (s.slot.visible.map (·.submitted), s.executions.length)) = some (some 1, 2) := by
    decide +kernel
  obtain ⟨s, hs, hrest⟩ := Option.bind_eq_some_iff.mp hprops
  obtain ⟨s', hs', heq⟩ := Option.map_eq_some_iff.mp hrest
  simp only [Prod.mk.injEq] at heq
  obtain ⟨hsub, hlen⟩ := heq
  obtain ⟨r, hr, hsub⟩ := Option.map_eq_some_iff.mp hsub
  obtain ⟨hdone, hgrow, -, -, honce⟩ := group_prefix ⟨rfl, rfl, rfl⟩ hs hs'
  obtain ⟨r', hr', hlater⟩ := hgrow (by simp [sampleClose]) r hr
  exact ⟨s, s', r, r', hs, hs', hr, hsub, hdone r hr, hr', hlater, hlen, honce⟩

end Dt.Submission.Group
