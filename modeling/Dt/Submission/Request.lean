import Mathlib.Data.Finmap
import Dt.Submission.Intent
import Dt.Dispatch.Lifecycle

/-!
# Submissions under one request id

A submission with a request id takes the lock of the request, compares its intent with the record,
answers from it or claims it, and then registers the row of its job and writes the final receipt.
The record, the row and the launch are separate writes; each may fail, and the process or the host
may go down between any two of them.

`World` is what the submissions of one request id share: the job registry, the record, whether a
group of jobs owns the id, and the submission that holds the lock with a claim of its own. The other
commands of the head rewrite and remove rows in between.
-/

namespace Dt.Submission.Request

open Dt.Lib Dt.Jobs Dt.Dispatch

/-! ## Reading a prior receipt -/

/-- What `reconcile_submission_request` makes of a record whose job has a row; `none` leaves it. -/
def reconciled (record : RequestRecord) (existing : JobEntry) (now : Time) :
    Option (Except String RequestRecord) :=
  let confirmed := transition record .confirmed none none now
  let failedBeforeStart :=
    transition record .confirmed (some "failed_before_start") existing.reason now
  match record.state with
  | .preparing =>
    if startsWith (existing.reason.getD "") uncertainLaunchPrefix then
      some (transition record .uncertain (some "launch_outcome_unknown") existing.reason now)
    else if existing.status = .failed && existing.startedAt.isNone && existing.pgid.isNone then
      some failedBeforeStart
    else some confirmed
  | .replayAuthorized => some confirmed
  | .uncertain =>
    if isUncertainLaunch existing || existing.status = .lost then none
    else if (existing.status = .killed || existing.status = .failed ||
        existing.status = .skipped) && existing.startedAt.isNone && existing.pgid.isNone then
      some failedBeforeStart
    else some confirmed
  | .confirmed | .rejected => none

/-- How a submission ends, or that it goes on with a claim of its own. -/
inductive Outcome where
  | replayed (entry : JobEntry)
  | failedBeforeStart (entry : JobEntry)
  | conflict (message : String)
  | rejected (message : String)
  | unknown (jobId : JobId) (message : String)
  | raised (message : String)
  | claimed
  deriving DecidableEq, Repr

/-- `request {request_id!r}`. -/
def named (rid : String) : String := "request '" ++ rid ++ "'"

def inspect (rid : String) : String := "inspect `dt request " ++ rid ++ " --json` before retrying"

/-- The verdict on a reconciled record: the answer, or the record that may be claimed again. -/
def priorVerdict (rid : String) (record : RequestRecord) (existing : Option JobEntry) (now : Time) :
    Except Outcome RequestRecord :=
  let replay (record : RequestRecord) : Except Outcome RequestRecord :=
    if record.state ≠ .replayAuthorized then
      .error (.unknown record.jobId (named rid ++ " may have been submitted as " ++ record.jobId ++
        "; " ++ inspect rid))
    else if existing.isSome then
      .error (.unknown record.jobId (named rid ++ " was authorized for replay but job " ++
        record.jobId ++ " appeared; inspect it before retrying"))
    else .ok record
  match record.state, existing with
  | .confirmed, some e =>
    if record.errorKind = some "failed_before_start" then .error (.failedBeforeStart e)
    else .error (.replayed e)
  | .confirmed, none =>
    .error (.rejected (named rid ++ " was already confirmed as job " ++ record.jobId ++
      ", but its job history was cleaned; refusing a duplicate submission"))
  | .rejected, _ =>
    let d := resolveDisposition record (some existing.isSome) none
    if d.retrySafe then
      match authorizeReplay record d now with
      | .error m => .error (.raised m)
      | .ok r => replay r
    else
      .error (.rejected (named rid ++ " was already rejected: " ++
        (if record.errorMessage.getD "" = "" then "submission was rejected"
          else record.errorMessage.getD "")))
  | _, _ => replay record

/-! ## The shared state -/

structure World where
  sys : Sys
  slot : Slot RequestRecord := {}
  /-- A group of jobs owns the request id. -/
  group : Bool := false
  /-- The record of the submission that holds the lock and has claimed it. -/
  holder : Option RequestRecord := none
  /-- Every job id a record was made for. -/
  minted : List JobId := []
  /-- The job of every row that was handed to `save` under the request id. -/
  registered : List JobId := []

inductive SaveResult where
  | ok | durabilityUnknown | failed (message : String)
  deriving DecidableEq, Repr

/-- `save` of the record. -/
def World.save (s : World) (w : Write) (r : RequestRecord) : SaveResult × World :=
  match encodeRecord r with
  | .error m => (.failed m, s)
  | .ok r =>
    match w with
    | .lost => (.failed "cannot replace the submission request record", s)
    | .unsynced => (.durabilityUnknown, { s with slot := s.slot.put .unsynced r })
    | .synced => (.ok, { s with slot := s.slot.put .synced r })

/-- `reconcile_submission_request`. -/
def World.reconcile (cfg : HeadConfig) (s : World) (record : RequestRecord) (w : Write) :
    Except String (RequestRecord × Option JobEntry) × World :=
  match load cfg s.sys.files record.jobId with
  | .error m => (.error m, s)
  | .ok none => (.ok (record, none), s)
  | .ok (some e) =>
    match reconciled record e s.sys.clock with
    | none => (.ok (record, some e), s)
    | some (.error m) => (.error m, s)
    | some (.ok r) =>
      match s.save w r with
      | (.ok, s') => (.ok (r, some e), s')
      | (.durabilityUnknown, s') =>
        (.error "submission request record was published but its durability is unknown", s')
      | (.failed m, s') => (.error m, s')

/-- `_resolve_prior_request`. -/
def World.resolvePrior (cfg : HeadConfig) (s : World) (rid : String) (record : RequestRecord)
    (w : Write) : Except Outcome RequestRecord × World :=
  match s.reconcile cfg record w with
  | (.error _, s') =>
    (.error (.unknown record.jobId (named rid ++ " has a job record but its durable receipt " ++
      "could not be reconciled; " ++ inspect rid)), s')
  | (.ok (r, existing), s') => (priorVerdict rid r existing s.sys.clock, s')

/-- `_claim_request_identity`: a fresh identity, or a reclaimed replay. -/
def World.claimIdentity (s : World) (rid intent : String) (newJob : JobId)
    (record : Option RequestRecord) (w : Write) : Outcome × World :=
  match record with
  | none =>
    match create rid intent newJob s.sys.clock with
    | .error m => (.raised m, s)
    | .ok r =>
      let s := { s with minted := newJob :: s.minted }
      match s.save w r with
      | (.ok, s') => (.claimed, { s' with holder := some r })
      | (.durabilityUnknown, s') => (.unknown newJob (named rid ++ " was not launched because " ++
          "its durable claim durability is unknown; " ++ inspect rid), s')
      | (.failed m, s') => (.rejected (named rid ++ " was not launched because its durable " ++
          "claim could not be persisted: " ++ m), s')
  | some record =>
    let lost := Outcome.unknown record.jobId (named rid ++ " replay claim durability is unknown; " ++
      inspect rid)
    match reclaimReplay record s.sys.clock with
    | .error _ => (lost, s)
    | .ok r =>
      match s.save w r with
      | (.ok, s') => (.claimed, { s' with holder := some r })
      | (_, s') => (lost, s')

/-! ## Submitting -/

/-- What a submission brings: the digest of its intent and the jobs it depends on. -/
structure RunSpec where
  intent : String
  dependencies : List JobId := []
  deriving DecidableEq, Repr

/-- `_finalize_submission_dependencies_locked`: fence the lost dependencies whose window has
passed. -/
def fenceDependencies (cfg : HeadConfig) (w : WriteOutcome) : List JobId → Sys →
    Except String Unit × Sys
  | [], s => (.ok (), s)
  | d :: ds, s =>
    match load cfg s.files d with
    | .error m => (.error m, s)
    | .ok cur =>
      match cur.bind (finalizeWrite · s.clock) with
      | none => fenceDependencies cfg w ds s
      | some e =>
        match s.toDisk.save cfg e s.clock w with
        | (.error m, k) => (.error m, { s with toDisk := k })
        | (.ok (), k) => fenceDependencies cfg w ds { s with toDisk := k }

/-- `_submit_prepared` under the lock of the request, up to its claim. -/
def World.decide (cfg : HeadConfig) (rid : String) (s : World) (b : RunSpec) (newJob : JobId)
    (w₁ w₂ : Write) : Outcome × World :=
  if s.group then (.conflict (named rid ++ " already belongs to a multi-job intent"), s)
  else match s.slot.visible with
  | none => s.claimIdentity rid b.intent newJob none w₂
  | some record =>
    if record.intentSha256 ≠ b.intent then
      (.conflict (named rid ++ " already belongs to a different intent"), s)
    else match s.resolvePrior cfg rid record w₁ with
    | (.error o, s') => (o, s')
    | (.ok r, s') => s'.claimIdentity rid b.intent newJob (some r) w₂

/-- `_submit_prepared` up to its claim; the dependencies are fenced before the request is
looked at. -/
def World.submit (cfg : HeadConfig) (rid : String) (s : World) (b : RunSpec) (newJob : JobId)
    (w : WriteOutcome) (w₁ w₂ : Write) : Outcome × World :=
  match fenceDependencies cfg w b.dependencies.eraseDups s.sys with
  | (.error m, k) => (.raised m, { s with sys := k })
  | (.ok (), k) => World.decide cfg rid { s with sys := k } b newJob w₁ w₂

/-- The exceptions that a claimed submission ends with; `typed` are the configuration, dispatch and
capacity errors. -/
inductive Failure where
  | interrupt
  | failedBeforeStart
  | typed (name : String)
  | other (name : String)
  deriving DecidableEq, Repr

/-- The state and the kind that `_record_submission_failure` writes. -/
def failureVerdict (existing : Option JobEntry) (f : Failure) (acting retrySafe : Bool) :
    RequestState × String :=
  if acting then
    (.rejected, if retrySafe then "claimed_action_interrupted" else "claimed_action_failed")
  else if f = .interrupt then (.uncertain, "interrupted")
  else if existing.any fun e => startsWith (e.reason.getD "") uncertainLaunchPrefix then
    (.uncertain, "launch_outcome_unknown")
  else match f with
  | .interrupt => (.uncertain, "interrupted")
  | .failedBeforeStart =>
    if existing.isSome then (.confirmed, "failed_before_start")
    else (.rejected, "FailedBeforeStart")
  | .typed name => (.rejected, name)
  | .other name => (.uncertain, name)

/-! ## Steps -/

inductive Op where
  | submit (b : RunSpec) (newJob : JobId) (w : WriteOutcome) (w₁ w₂ : Write)
  | register (entry : JobEntry) (w : WriteOutcome)
  | bind (jobId : JobId) (node jobDir token : String) (w : Write)
  | fail (f : Failure) (acting retrySafe : Bool) (message : String) (w : Write)
  | confirm (w : Write)
  | query (proof : Option RemoteLaunchProof) (w₁ w₂ : Write)
  | group
  | tick (dt : Time)
  | rewrite (entry : JobEntry) (w : WriteOutcome)
  | remove (id : JobId) (w : WriteOutcome)
  | restart
  | crash

/-- `save` of a transition, unless it is refused. -/
def World.write (s : World) (w : Write) (r : Except String RequestRecord) : World :=
  match r with
  | .error _ => s
  | .ok r => (s.save w r).2

/-- `dt request` with the lock: reconcile, resolve, converge. -/
def World.query (cfg : HeadConfig) (s : World) (record : RequestRecord)
    (proof : Option RemoteLaunchProof) (w₁ w₂ : Write) : World :=
  match s.reconcile cfg record w₁ with
  | (.error _, s') => s'
  | (.ok (r, entry), s') =>
    let d := resolveDisposition r (some entry.isSome) proof
    if d.disposition ≠ .safeReplay && d.disposition ≠ .confirmed then s'
    else match convergeDisposition r d s.sys.clock with
    | .error _ => s'
    | .ok c => if c = r then s' else (s'.save w₂ c).2

def World.saveRow (cfg : HeadConfig) (s : World) (entry : JobEntry) (w : WriteOutcome) : World :=
  { s with sys := { s.sys with toDisk := (s.sys.toDisk.save cfg entry s.sys.clock w).2 } }

/-- One step. A job id that is made for a submission is not the id of a stored row. Other commands
save rows of the request only for jobs that were registered under it, and no row of another request
under an id that was made for this one. -/
def step (cfg : HeadConfig) (sha256 : String → String) (rid : String) (s : World) :
    Op → Option World
  | .submit b newJob w w₁ w₂ =>
    if s.holder.isSome || (row cfg s.sys.files newJob).isSome then none
    else some (s.submit cfg rid b newJob w w₁ w₂).2
  | .register entry w =>
    match s.holder with
    | none => none
    | some r =>
      if entry.jobId = r.jobId && entry.requestId = some rid && entry.createdAt = r.createdAt then
        some { s.saveRow cfg entry w with registered := entry.jobId :: s.registered }
      else none
  | .bind jobId node jobDir token w =>
    match s.slot.visible with
    | none => some s
    | some r =>
      if r.jobId ≠ jobId || r.state = .rejected then some s
      else some (s.write w (bindRemoteAttempt sha256 r node jobDir token s.sys.clock))
  | .fail f acting retrySafe message w =>
    match s.holder with
    | none => none
    | some r =>
      let verdict := failureVerdict (row cfg s.sys.files r.jobId) f acting retrySafe
      some { s.write w (transition (s.slot.visible.getD r) verdict.1 (some verdict.2)
        (some message) s.sys.clock) with holder := none }
  | .confirm w =>
    match s.holder with
    | none => none
    | some r =>
      some { s.write w (transition (s.slot.visible.getD r) .confirmed none none s.sys.clock) with
        holder := none }
  | .query proof w₁ w₂ =>
    if s.holder.isSome then some s
    else match s.slot.visible with
    | none => some s
    | some record => some (s.query cfg record proof w₁ w₂)
  | .group =>
    if s.holder.isSome then none
    else if s.slot.visible.isSome then some s
    else some { s with group := true }
  | .tick dt => if 0 ≤ dt then some { s with sys.clock := s.sys.clock + dt } else none
  | .rewrite entry w =>
    if (entry.requestId = some rid → entry.jobId ∈ s.registered) ∧
        (entry.jobId ∈ s.minted → entry.requestId = some rid) then some (s.saveRow cfg entry w)
    else none
  | .remove id w =>
    some { s with sys := { s.sys with toDisk := (s.sys.toDisk.remove cfg id s.sys.clock w).2 } }
  | .restart => some { s with holder := none }
  | .crash => some { s with slot := s.slot.crash, holder := none }

/-- No record, and no row of the request. -/
structure Start (cfg : HeadConfig) (rid : String) (s : World) : Prop where
  slot : s.slot = {}
  holder : s.holder = none
  minted : s.minted = []
  registered : s.registered = []
  rows : ∀ id e, row cfg s.sys.files id = some e → e.requestId ≠ some rid

/-! ## Writes of the record -/

variable {cfg : HeadConfig} {sha256 : String → String} {rid : String} {s s' s'' : World} {w : Write}

/-- The second record is a later version of the first one. -/
abbrev SameIdentity (r r' : RequestRecord) : Prop := r'.identity = r.identity

theorem sameIdentity_refl (r : RequestRecord) : SameIdentity r r := rfl

theorem sameIdentity_trans (r r' r'' : RequestRecord) (h : SameIdentity r r')
    (h' : SameIdentity r' r'') : SameIdentity r r'' := h'.trans h

theorem evolves_refl (k : Slot RequestRecord) : k.Evolves SameIdentity k :=
  .refl sameIdentity_refl k

theorem put_sameIdentity {k : Slot RequestRecord} (h : k.Agree SameIdentity) (w : Write)
    {r : RequestRecord} (hr : ∀ v, k.visible = some v → r.identity = v.identity) :
    (k.put w r).Agree SameIdentity ∧ k.Evolves SameIdentity (k.put w r) :=
  h.put sameIdentity_refl sameIdentity_trans w hr

/-- Only the record changed, and within its identity. -/
structure Keeps (s s' : World) : Prop where
  sys : s'.sys = s.sys
  group : s'.group = s.group
  holder : s'.holder = s.holder
  minted : s'.minted = s.minted
  registered : s'.registered = s.registered
  agree : s.slot.Agree SameIdentity → s'.slot.Agree SameIdentity
  evolves : s.slot.Agree SameIdentity → s.slot.Evolves SameIdentity s'.slot
  all : ∀ P : String × String × JobId × Time → Prop, s.slot.All (P ·.identity) →
    s'.slot.All (P ·.identity)

theorem Keeps.refl (s : World) : Keeps s s :=
  ⟨rfl, rfl, rfl, rfl, rfl, id, fun _ => evolves_refl _, fun _ => id⟩

theorem Keeps.trans (h : Keeps s s') (h' : Keeps s' s'') : Keeps s s'' where
  sys := h'.sys.trans h.sys
  group := h'.group.trans h.group
  holder := h'.holder.trans h.holder
  minted := h'.minted.trans h.minted
  registered := h'.registered.trans h.registered
  agree ha := h'.agree (h.agree ha)
  evolves ha := (h.evolves ha).trans sameIdentity_trans (h'.evolves (h.agree ha))
  all P ha := h'.all P (h.all P ha)

/-- What a save of the record does. -/
theorem save_eq (s : World) (w : Write) (r : RequestRecord) :
    (s.save w r).2 = s ∧ (s.save w r).1 ≠ .ok ∨
      ∃ r', r'.identity = r.identity ∧ (s.save w r).2 = { s with slot := s.slot.put w r' } ∧
        ((s.save w r).1 = .ok → w = .synced) := by
  unfold World.save
  split
  · exact .inl ⟨rfl, by simp⟩
  · rename_i r' hr
    have hid : r'.identity = r.identity := by
      rw [encodeRecord_ok hr]
      rfl
    cases w with
    | lost => exact .inl ⟨rfl, by simp⟩
    | unsynced => exact .inr ⟨r', hid, rfl, by simp⟩
    | synced => exact .inr ⟨r', hid, rfl, fun _ => rfl⟩

theorem save_keeps (w : Write) {v r : RequestRecord} (hv : s.slot.visible = some v)
    (hr : r.identity = v.identity) : Keeps s (s.save w r).2 := by
  rcases save_eq s w r with ⟨h, -⟩ | ⟨r', hid, h, -⟩
  · rw [h]
    exact .refl s
  · rw [h]
    have hsame : ∀ u, s.slot.visible = some u → r'.identity = u.identity := by
      intro u hu
      rw [hid, hr, Option.some.inj (hv.symm.trans hu)]
    exact { sys := rfl, group := rfl, holder := rfl, minted := rfl, registered := rfl
            agree := fun ha => (put_sameIdentity ha w hsame).1
            evolves := fun ha => (put_sameIdentity ha w hsame).2
            all := fun P ha => ha.put w fun _ => by
              show P r'.identity
              rw [hsame v hv]
              exact ha.visible v hv }

theorem write_keeps (w : Write) {v : RequestRecord} {r : Except String RequestRecord}
    (hv : s.slot.visible = some v) (hr : ∀ r', r = .ok r' → r'.identity = v.identity) :
    Keeps s (s.write w r) := by
  unfold World.write
  split
  · exact .refl s
  · exact save_keeps w hv (hr _ rfl)

theorem reconciled_identity {r r' : RequestRecord} {e : JobEntry} {now : Time}
    (h : reconciled r e now = some (.ok r')) : r'.identity = r.identity := by
  unfold reconciled at h
  dsimp only at h
  split at h
  · split at h
    · exact (transition_ok (Option.some.inj h)).1
    · split at h
      · exact (transition_ok (Option.some.inj h)).1
      · exact (transition_ok (Option.some.inj h)).1
  · exact (transition_ok (Option.some.inj h)).1
  · split at h
    · cases h
    · split at h
      · exact (transition_ok (Option.some.inj h)).1
      · exact (transition_ok (Option.some.inj h)).1
  · cases h
  · cases h

theorem reconcile_keeps (cfg : HeadConfig) (w : Write) {r : RequestRecord} (hv : s.slot.visible = some r) :
    Keeps s (s.reconcile cfg r w).2 ∧ ∀ r' o, (s.reconcile cfg r w).1 = .ok (r', o) →
      r'.identity = r.identity ∧ load cfg s.sys.files r.jobId = .ok o := by
  unfold World.reconcile
  split
  · exact ⟨.refl s, fun r' o h => by cases h⟩
  · rename_i hl
    refine ⟨.refl s, fun r' o h => ?_⟩
    cases h
    exact ⟨rfl, hl⟩
  · rename_i e hl
    split
    · refine ⟨.refl s, fun r' o h => ?_⟩
      cases h
      exact ⟨rfl, hl⟩
    · exact ⟨.refl s, fun r' o h => by cases h⟩
    · rename_i r₁ hr₁
      have hkeeps := save_keeps w hv (reconciled_identity hr₁)
      split
      · rename_i s' heq
        rw [heq] at hkeeps
        refine ⟨hkeeps, fun r' o h => ?_⟩
        cases h
        exact ⟨reconciled_identity hr₁, hl⟩
      · rename_i s' heq
        rw [heq] at hkeeps
        exact ⟨hkeeps, fun r' o h => by cases h⟩
      · rename_i m s' heq
        rw [heq] at hkeeps
        exact ⟨hkeeps, fun r' o h => by cases h⟩

/-- What may be claimed again has the identity of the record, and only the row of its job is
returned as a replay. -/
theorem priorVerdict_spec (rid : String) (r : RequestRecord) (existing : Option JobEntry)
    (now : Time) :
    (∀ r', priorVerdict rid r existing now = .ok r' → r'.identity = r.identity) ∧
      ∀ e, (priorVerdict rid r existing now = .error (.replayed e) ∨
        priorVerdict rid r existing now = .error (.failedBeforeStart e)) → existing = some e := by
  unfold priorVerdict
  dsimp only
  split
  · split <;> simp
  · simp
  · split
    · split
      · simp
      · rename_i r₁ hr₁
        have hid := (authorizeReplay_ok hr₁).1
        split
        · simp
        · split
          · simp
          · refine ⟨fun r' h => ?_, fun e h => by simp at h⟩
            cases h
            exact hid
    · simp
  · split
    · simp
    · split
      · simp
      · refine ⟨fun r' h => ?_, fun e h => by simp at h⟩
        cases h
        rfl

theorem resolvePrior_keeps (cfg : HeadConfig) (rid : String) (w : Write) {r : RequestRecord}
    (hv : s.slot.visible = some r) :
    Keeps s (s.resolvePrior cfg rid r w).2 ∧
      (∀ r', (s.resolvePrior cfg rid r w).1 = .ok r' → r'.identity = r.identity) ∧
      ∀ e, ((s.resolvePrior cfg rid r w).1 = .error (.replayed e) ∨
        (s.resolvePrior cfg rid r w).1 = .error (.failedBeforeStart e)) →
          row cfg s.sys.files r.jobId = some e := by
  obtain ⟨hkeeps, hres⟩ := reconcile_keeps cfg w hv
  unfold World.resolvePrior
  split
  · rename_i m s' heq
    rw [heq] at hkeeps
    exact ⟨hkeeps, fun r' h => (nomatch h), fun e h => by simp at h⟩
  · rename_i r₁ existing s' heq
    rw [heq] at hkeeps hres
    obtain ⟨hid, hl⟩ := hres r₁ existing rfl
    obtain ⟨hok, hreplay⟩ := priorVerdict_spec rid r₁ existing s.sys.clock
    refine ⟨hkeeps, fun r' h => (hok r' h).trans hid, fun e h => ?_⟩
    obtain rfl := hreplay e h
    simp [row, hl, Except.toOption]

/-! ## Fences -/

/-- The row of `id` was lost, not final and past its window, and has been fenced. -/
def Fenced (cfg : HeadConfig) (k k' : Sys) (id : JobId) : Prop :=
  ∃ e f e', row cfg k.files id = some e ∧ finalizeWrite e k.clock = some f ∧
    row cfg k'.files id = some e' ∧ SavedAs f k.clock e' ∧ e'.requestId = e.requestId

theorem finalizeWrite_some {e f : JobEntry} {now : Time} (h : finalizeWrite e now = some f) :
    e.terminalFinalizedAt = none ∧ f = { e with terminalFinalizedAt := some now } := by
  unfold finalizeWrite at h
  split at h
  · cases h
  · split at h
    · cases h
    · split at h
      · cases h
      · rename_i hf
        split at h
        · cases h
        · cases h
          exact ⟨by simpa using hf, rfl⟩

/-- One fence: the row it was made for, or nothing. -/
theorem fence_save {k : Sys} {d : JobId} {e f : JobEntry} (he : row cfg k.files d = some e)
    (hf : finalizeWrite e k.clock = some f) (w : WriteOutcome) (id : JobId) :
    row cfg (k.toDisk.save cfg f k.clock w).2.files id = row cfg k.files id ∨
      id = d ∧ Fenced cfg k { k with toDisk := (k.toDisk.save cfg f k.clock w).2 } id := by
  obtain ⟨-, rfl⟩ := finalizeWrite_some hf
  have hid : e.jobId = d := row_jobId he
  rcases k.toDisk.save_row cfg _ k.clock w id with hr | ⟨hd, e', hr, hsaved, -⟩
  · exact .inl hr
  · rcases k.toDisk.save_requestId cfg _ k.clock w id with hr' | ⟨-, hreq⟩
    · exact .inl hr'
    · have hd' : id = d := hd.trans hid
      exact .inr ⟨hd', e, _, e', hd' ▸ he, hf, hr, hsaved, hreq e' hr⟩

theorem fenceDependencies_row (cfg : HeadConfig) (w : WriteOutcome) (ds : List JobId) (k : Sys) :
    (fenceDependencies cfg w ds k).2.clock = k.clock ∧ ∀ id,
      row cfg (fenceDependencies cfg w ds k).2.files id = row cfg k.files id ∨
        id ∈ ds ∧ Fenced cfg k (fenceDependencies cfg w ds k).2 id := by
  induction ds generalizing k with
  | nil => exact ⟨rfl, fun id => .inl rfl⟩
  | cons d ds ih =>
    -- what the rest of the list does after a step that leaves every row
    have hskip : (fenceDependencies cfg w ds k).2.clock = k.clock ∧ ∀ id,
        row cfg (fenceDependencies cfg w ds k).2.files id = row cfg k.files id ∨
          id ∈ d :: ds ∧ Fenced cfg k (fenceDependencies cfg w ds k).2 id :=
      ⟨(ih k).1, fun id => ((ih k).2 id).imp_right fun h => ⟨List.mem_cons_of_mem d h.1, h.2⟩⟩
    simp only [fenceDependencies]
    split
    · exact ⟨rfl, fun id => .inl rfl⟩
    · rename_i cur hl
      split
      · exact hskip
      · rename_i f hf
        obtain ⟨e, rfl, hf⟩ := Option.bind_eq_some_iff.mp hf
        have he : row cfg k.files d = some e := by simp [row, hl, Except.toOption]
        have hsave := fence_save he hf w
        split
        · rename_i m k' heq
          rw [heq] at hsave
          refine ⟨rfl, fun id => (hsave id).imp_right ?_⟩
          rintro ⟨rfl, h⟩
          exact ⟨List.mem_cons_self, h⟩
        · rename_i k' heq
          rw [heq] at hsave
          obtain ⟨hclock, hrest⟩ := ih { k with toDisk := k' }
          refine ⟨hclock, fun id => ?_⟩
          rcases hsave id with hr | ⟨rfl, e₁, f₁, e', he₁, hf₁, hr, hs, hq⟩
          · -- the first fence did not touch this row
            rcases hrest id with hr' | ⟨hmem, e₁, f₁, e', he₁, h⟩
            · exact .inl (hr'.trans hr)
            · exact .inr ⟨List.mem_cons_of_mem d hmem, e₁, f₁, e', hr.symm.trans he₁, h⟩
          · -- and a fenced row is not fenced again
            rcases hrest id with hr' | ⟨-, e₂, f₂, -, he₂, hf₂, -⟩
            · exact .inr ⟨List.mem_cons_self, e₁, f₁, e', he₁, hf₁, hr'.trans hr, hs, hq⟩
            · obtain rfl : e' = e₂ := Option.some.inj (hr.symm.trans he₂)
              have hnone := (finalizeWrite_some hf₂).1
              have hfin := hs.terminalFinalizedAt
              rw [hnone, (finalizeWrite_some hf₁).2] at hfin
              cases hfin

/-- A fence keeps the request of every row. -/
theorem fence_requestId {w : WriteOutcome} {ds : List JobId} {k : Sys} {id : JobId} {e' : JobEntry}
    (h : row cfg (fenceDependencies cfg w ds k).2.files id = some e') :
    ∃ e, row cfg k.files id = some e ∧ e'.requestId = e.requestId := by
  rcases (fenceDependencies_row cfg w ds k).2 id with hr | ⟨-, e, f, e₁, he, -, he₁, -, hq⟩
  · exact ⟨e', hr.symm.trans h, rfl⟩
  · obtain rfl : e₁ = e' := Option.some.inj (he₁.symm.trans h)
    exact ⟨e, he, hq⟩

/-! ## The invariant -/

structure Inv (cfg : HeadConfig) (rid : String) (s : World) : Prop where
  agree : s.slot.Agree SameIdentity
  named : s.slot.All fun r => r.requestId = rid ∧ r.jobId ∈ s.minted
  /-- A row is registered only under the identity that a crash would leave. -/
  registered : ∀ j ∈ s.registered, ∃ d, s.slot.durable = some d ∧ d.jobId = j
  holder : ∀ r, s.holder = some r → ∃ d, s.slot.durable = some d ∧ d.identity = r.identity
  rows : ∀ id e, row cfg s.sys.files id = some e → e.requestId = some rid → id ∈ s.registered
  owned : ∀ j ∈ s.minted, ∀ e, row cfg s.sys.files j = some e → e.requestId = some rid

theorem Start.inv (h : Start cfg rid s) : Inv cfg rid s where
  agree d hd := by simp [h.slot] at hd
  named := ⟨fun a ha => by simp [h.slot] at ha, fun a ha => by simp [h.slot] at ha⟩
  registered j hj := by simp [h.registered] at hj
  holder r hr := by simp [h.holder] at hr
  rows id e he hq := absurd hq (h.rows id e he)
  owned j hj := by simp [h.minted] at hj

theorem Inv.keeps (h : Inv cfg rid s) (hk : Keeps s s') : Inv cfg rid s' where
  agree := hk.agree h.agree
  named := by
    rw [hk.minted]
    exact hk.all (fun i => i.1 = rid ∧ i.2.2.1 ∈ s.minted) h.named
  registered j hj := by
    rw [hk.registered] at hj
    obtain ⟨d, hd, rfl⟩ := h.registered j hj
    obtain ⟨d', hd', he⟩ := (hk.evolves h.agree).durable d hd
    exact ⟨d', hd', congrArg (·.2.2.1) he⟩
  holder r hr := by
    rw [hk.holder] at hr
    obtain ⟨d, hd, hid⟩ := h.holder r hr
    obtain ⟨d', hd', he⟩ := (hk.evolves h.agree).durable d hd
    exact ⟨d', hd', he.trans hid⟩
  rows := by
    rw [hk.sys, hk.registered]
    exact h.rows
  owned := by
    rw [hk.sys, hk.minted]
    exact h.owned

/-- The lock is let go. -/
theorem Inv.release (h : Inv cfg rid s) : Inv cfg rid { s with holder := none } where
  agree := h.agree
  named := h.named
  registered := h.registered
  holder r hr := by simp at hr
  rows := h.rows
  owned := h.owned

theorem Inv.fence (h : Inv cfg rid s) (w : WriteOutcome) (ds : List JobId) :
    Inv cfg rid { s with sys := (fenceDependencies cfg w ds s.sys).2 } where
  agree := h.agree
  named := h.named
  registered := h.registered
  holder := h.holder
  rows id e' he' hq := by
    obtain ⟨e, he, hq'⟩ := fence_requestId he'
    exact h.rows id e he (hq' ▸ hq)
  owned j hj e' he' := by
    obtain ⟨e, he, hq⟩ := fence_requestId he'
    exact hq.trans (h.owned j hj e he)

/-- A submission that found no record claims a fresh identity. -/
theorem Inv.create (h : Inv cfg rid s) {intent : String} {newJob : JobId}
    (hnone : s.slot.visible = none) (hfree : s.holder = none)
    (hfresh : row cfg s.sys.files newJob = none) (w : Write) :
    Inv cfg rid (s.claimIdentity rid intent newJob none w).2 := by
  unfold World.claimIdentity
  dsimp only
  split
  · exact h
  · rename_i r hr
    obtain ⟨hid, -, -⟩ := create_ok hr
    have hdur : s.slot.durable = none := by
      cases hd : s.slot.durable with
      | none => rfl
      | some d =>
        obtain ⟨v, hv, -⟩ := h.agree d hd
        rw [hnone] at hv
        cases hv
    have hminted : Inv cfg rid { s with minted := newJob :: s.minted } :=
      { agree := h.agree
        named := h.named.mono fun r hr => ⟨hr.1, List.mem_cons_of_mem newJob hr.2⟩
        registered := h.registered
        holder := h.holder
        rows := h.rows
        owned := fun j hj e he => by
          rcases List.mem_cons.mp hj with rfl | hj
          · rw [hfresh] at he
            cases he
          · exact h.owned j hj e he }
    -- nothing is registered and nobody holds a claim, so only the new record counts
    have hput : ∀ (r' : RequestRecord) (o : Option RequestRecord), r'.identity = r.identity →
        (∀ r₀, o = some r₀ → w = .synced ∧ r₀.identity = r.identity) →
        Inv cfg rid { s with minted := newJob :: s.minted, slot := s.slot.put w r', holder := o } := by
      intro r' o hid' ho
      refine { agree := (put_sameIdentity h.agree w fun v hv => ?_).1, named := hminted.named.put w fun _ => ?_
               registered := fun j hj => ?_, holder := fun r₀ hr₀ => ?_
               rows := hminted.rows, owned := hminted.owned }
      · rw [hnone] at hv
        cases hv
      · have heq : r'.identity = (rid, intent, newJob, s.sys.clock) := hid'.trans hid
        have hjob : r'.jobId = newJob := congrArg (·.2.2.1) heq
        exact ⟨congrArg (·.1) heq, hjob ▸ List.mem_cons_self⟩
      · obtain ⟨d, hd, -⟩ := h.registered j hj
        rw [hdur] at hd
        cases hd
      · obtain ⟨rfl, hr₀'⟩ := ho r₀ hr₀
        exact ⟨r', rfl, hid'.trans hr₀'.symm⟩
    rcases save_eq { s with minted := newJob :: s.minted } w r with ⟨h₁, h₂⟩ | ⟨r', hid', h₁, h₂⟩
    · split
      · rename_i s' heq
        rw [heq] at h₂
        exact absurd rfl h₂
      · rename_i s' heq
        rw [heq] at h₁
        exact h₁ ▸ hminted
      · rename_i m s' heq
        rw [heq] at h₁
        exact h₁ ▸ hminted
    · split
      · rename_i s' heq
        rw [heq] at h₁ h₂
        obtain rfl : s' = _ := h₁
        exact hput r' (some r) hid' fun r₀ hr₀ => ⟨h₂ rfl, Option.some.inj hr₀ ▸ rfl⟩
      · rename_i s' heq
        rw [heq] at h₁
        obtain rfl : s' = _ := h₁
        exact hput r' s.holder hid' fun r₀ hr₀ => by simp [hfree] at hr₀
      · rename_i m s' heq
        rw [heq] at h₁
        obtain rfl : s' = _ := h₁
        exact hput r' s.holder hid' fun r₀ hr₀ => by simp [hfree] at hr₀

/-- A submission that found its own record claims it again. -/
theorem Inv.reclaim (h : Inv cfg rid s) {intent : String} {newJob : JobId} {v r : RequestRecord}
    (hv : s.slot.visible = some v) (hr : r.identity = v.identity) (w : Write) :
    Inv cfg rid (s.claimIdentity rid intent newJob (some r) w).2 := by
  unfold World.claimIdentity
  dsimp only
  split
  · exact h
  · rename_i r₁ hr₁
    have hid : r₁.identity = v.identity := (reclaimReplay_ok hr₁).1.trans hr
    have hsave := h.keeps (save_keeps w hv hid)
    split
    · rename_i s' heq
      rw [heq] at hsave
      refine { agree := hsave.agree, named := hsave.named, registered := hsave.registered
               holder := fun r₀ hr₀ => ?_, rows := hsave.rows, owned := hsave.owned }
      obtain rfl := Option.some.inj hr₀
      rcases save_eq s w r₁ with ⟨-, h₂⟩ | ⟨r', hid', h₁, h₂⟩
      · rw [heq] at h₂
        exact absurd rfl h₂
      · rw [heq] at h₁ h₂
        obtain rfl := h₂ rfl
        obtain rfl : s' = _ := h₁
        exact ⟨r', rfl, hid'⟩
    · rename_i s' _ heq
      rw [heq] at hsave
      exact hsave

theorem Inv.decide (h : Inv cfg rid s) (hfree : s.holder = none) (b : RunSpec) {newJob : JobId}
    (hfresh : row cfg s.sys.files newJob = none) (w₁ w₂ : Write) :
    Inv cfg rid (s.decide cfg rid b newJob w₁ w₂).2 := by
  unfold World.decide
  split
  · exact h
  · split
    · rename_i hv
      exact h.create hv hfree hfresh w₂
    · rename_i record hv
      split
      · exact h
      · obtain ⟨hkeeps, hok, -⟩ := resolvePrior_keeps cfg rid w₁ hv
        split
        · rename_i o s' heq
          rw [heq] at hkeeps
          exact h.keeps hkeeps
        · rename_i r s' heq
          rw [heq] at hkeeps hok
          obtain ⟨v', hv', hid⟩ := (hkeeps.evolves h.agree).visible record hv
          exact (h.keeps hkeeps).reclaim hv' ((hok r rfl).trans hid.symm) w₂

/-- No row comes into being by fencing. -/
theorem fence_fresh (w : WriteOutcome) (ds : List JobId) {k : Sys} {id : JobId}
    (h : row cfg k.files id = none) :
    row cfg (fenceDependencies cfg w ds k).2.files id = none := by
  cases hr : row cfg (fenceDependencies cfg w ds k).2.files id with
  | none => rfl
  | some e' =>
    obtain ⟨e, he, -⟩ := fence_requestId hr
    rw [h] at he
    cases he

theorem Inv.submit (h : Inv cfg rid s) (hfree : s.holder = none) (b : RunSpec) {newJob : JobId}
    (hfresh : row cfg s.sys.files newJob = none) (w : WriteOutcome) (w₁ w₂ : Write) :
    Inv cfg rid (s.submit cfg rid b newJob w w₁ w₂).2 := by
  have hfenced := h.fence w b.dependencies.eraseDups
  have hnew := fence_fresh w b.dependencies.eraseDups hfresh
  unfold World.submit
  split
  · rename_i m k heq
    rw [heq] at hfenced
    exact hfenced
  · rename_i k heq
    rw [heq] at hfenced hnew
    exact hfenced.decide hfree b hnew w₁ w₂

theorem Inv.query (h : Inv cfg rid s) {record : RequestRecord} (hv : s.slot.visible = some record)
    (proof : Option RemoteLaunchProof) (w₁ w₂ : Write) :
    Keeps s (s.query cfg record proof w₁ w₂) := by
  obtain ⟨hkeeps, hres⟩ := reconcile_keeps cfg w₁ hv
  unfold World.query
  split
  · rename_i m s' heq
    rw [heq] at hkeeps
    exact hkeeps
  · rename_i r entry s' heq
    rw [heq] at hkeeps hres
    obtain ⟨hid, -⟩ := hres r entry rfl
    dsimp only
    split
    · exact hkeeps
    · split
      · exact hkeeps
      · rename_i c hc
        split
        · exact hkeeps
        · obtain ⟨v', hv', hid'⟩ := (hkeeps.evolves h.agree).visible record hv
          have hc' : c.identity = v'.identity :=
            ((convergeDisposition_ok hc).1.trans hid).trans hid'.symm
          exact hkeeps.trans (save_keeps w₂ hv' hc')

/-- A row that is saved for the request, or for another job. -/
theorem Inv.saveRow (h : Inv cfg rid s) {entry : JobEntry} {registered : List JobId}
    (hreg : entry.requestId = some rid → entry.jobId ∈ registered)
    (howned : entry.jobId ∈ s.minted → entry.requestId = some rid)
    (hsub : ∀ j ∈ s.registered, j ∈ registered)
    (hdur : ∀ j ∈ registered, ∃ d, s.slot.durable = some d ∧ d.jobId = j) (w : WriteOutcome) :
    Inv cfg rid { s.saveRow cfg entry w with registered := registered } where
  agree := h.agree
  named := h.named
  registered := hdur
  holder := h.holder
  rows id e he hq := by
    rcases s.sys.toDisk.save_requestId cfg entry s.sys.clock w id with hr | ⟨rfl, hreq⟩
    · exact hsub id (h.rows id e (hr.symm.trans he) hq)
    · exact hreg ((hreq e he).symm.trans hq)
  owned j hj e he := by
    rcases s.sys.toDisk.save_requestId cfg entry s.sys.clock w j with hr | ⟨rfl, hreq⟩
    · exact h.owned j hj e (hr.symm.trans he)
    · exact (hreq e he).trans (howned hj)

/-! ## Steps keep the invariant and the identity -/

theorem step_inv {a : Op} (h : Inv cfg rid s) (hs : step cfg sha256 rid s a = some s') :
    Inv cfg rid s' := by
  cases a with
  | submit b newJob w w₁ w₂ =>
    simp only [step] at hs
    split at hs
    · cases hs
    · rename_i hc
      simp only [Bool.or_eq_true, not_or, Bool.not_eq_true, Option.isSome_eq_false_iff,
        Option.isNone_iff_eq_none] at hc
      cases hs
      exact h.submit hc.1 b hc.2 w w₁ w₂
  | register entry w =>
    simp only [step] at hs
    split at hs
    · cases hs
    · rename_i r hr
      split at hs
      · rename_i hc
        simp only [Bool.and_eq_true, decide_eq_true_eq] at hc
        cases hs
        obtain ⟨d, hd, hid⟩ := h.holder r hr
        refine h.saveRow (fun _ => List.mem_cons_self) (fun _ => hc.1.2)
          (fun j hj => List.mem_cons_of_mem _ hj) (fun j hj => ?_) w
        rcases List.mem_cons.mp hj with rfl | hj
        · exact ⟨d, hd, (congrArg (·.2.2.1) hid).trans hc.1.1.symm⟩
        · exact h.registered j hj
      · cases hs
  | bind jobId node jobDir token w =>
    simp only [step] at hs
    split at hs
    · cases hs
      exact h
    · rename_i r hr
      split at hs
      · cases hs
        exact h
      · cases hs
        exact h.keeps (write_keeps w hr fun r' hr' => (bindRemoteAttempt_ok hr').1)
  | fail f acting retrySafe message w =>
    simp only [step] at hs
    split at hs
    · cases hs
    · rename_i r hr
      cases hs
      obtain ⟨d, hd, -⟩ := h.holder r hr
      obtain ⟨v, hv, -⟩ := h.agree d hd
      rw [hv, Option.getD_some]
      exact (h.keeps (write_keeps w hv fun r' hr' => (transition_ok hr').1)).release
  | confirm w =>
    simp only [step] at hs
    split at hs
    · cases hs
    · rename_i r hr
      cases hs
      obtain ⟨d, hd, -⟩ := h.holder r hr
      obtain ⟨v, hv, -⟩ := h.agree d hd
      rw [hv, Option.getD_some]
      exact (h.keeps (write_keeps w hv fun r' hr' => (transition_ok hr').1)).release
  | query proof w₁ w₂ =>
    simp only [step] at hs
    split at hs
    · cases hs
      exact h
    · split at hs
      · cases hs
        exact h
      · rename_i record hv
        cases hs
        exact h.keeps (h.query hv proof w₁ w₂)
  | group =>
    simp only [step] at hs
    split at hs
    · cases hs
    · split at hs
      · cases hs
        exact h
      · cases hs
        exact { agree := h.agree, named := h.named, registered := h.registered, holder := h.holder
                rows := h.rows, owned := h.owned }
  | tick dt =>
    simp only [step] at hs
    split at hs
    · cases hs
      exact { agree := h.agree, named := h.named, registered := h.registered, holder := h.holder
              rows := h.rows, owned := h.owned }
    · cases hs
  | rewrite entry w =>
    simp only [step] at hs
    split at hs
    · rename_i hc
      cases hs
      exact h.saveRow hc.1 hc.2 (fun j hj => hj) h.registered w
    · cases hs
  | remove id w =>
    simp only [step] at hs
    cases hs
    have hrow : ∀ j e, row cfg (s.sys.toDisk.remove cfg id s.sys.clock w).2.files j = some e →
        row cfg s.sys.files j = some e := by
      intro j e he
      rcases eq_or_ne j id with rfl | hne
      · exact s.sys.toDisk.remove_row cfg s.sys.clock w he
      · rwa [s.sys.toDisk.remove_row_ne cfg s.sys.clock w hne] at he
    exact { agree := h.agree, named := h.named, registered := h.registered, holder := h.holder
            rows := fun j e he hq => h.rows j e (hrow j e he) hq
            owned := fun j hj e he => h.owned j hj e (hrow j e he) }
  | restart =>
    simp only [step] at hs
    cases hs
    exact h.release
  | crash =>
    simp only [step] at hs
    cases hs
    exact { agree := .crash sameIdentity_refl _, named := h.named.crash, registered := h.registered
            holder := fun r hr => by simp at hr
            rows := h.rows, owned := h.owned }

theorem claimIdentity_evolves {intent : String} {newJob : JobId} {o : Option RequestRecord}
    (h : s.slot.Agree SameIdentity)
    (hv : ∀ v, s.slot.visible = some v → ∃ r, o = some r ∧ r.identity = v.identity) :
    s.slot.Evolves SameIdentity (s.claimIdentity rid intent newJob o w).2.slot := by
  have hput : ∀ {s₁ : World} {r : RequestRecord}, s₁.slot = s.slot →
      (∀ v, s.slot.visible = some v → r.identity = v.identity) →
      s.slot.Evolves SameIdentity (s₁.save w r).2.slot := by
    intro s₁ r hs₁ hr
    rcases save_eq s₁ w r with ⟨he, -⟩ | ⟨r', hid, he, -⟩
    · rw [he, hs₁]
      exact evolves_refl _
    · rw [he]
      show s.slot.Evolves _ (s₁.slot.put w r')
      rw [hs₁]
      exact (put_sameIdentity h w fun v hv => hid.trans (hr v hv)).2
  unfold World.claimIdentity
  split
  · split
    · exact evolves_refl _
    · rename_i r hr
      have hevo := @hput { s with minted := newJob :: s.minted } r rfl fun v hv' => by
        obtain ⟨r₀, hr₀, -⟩ := hv v hv'
        cases hr₀
      dsimp only
      split <;> rename_i heq <;> rw [heq] at hevo <;> exact hevo
  · rename_i r₀
    dsimp only
    split
    · exact evolves_refl _
    · rename_i r hr
      have hevo := @hput s r rfl fun v hv' => by
        obtain ⟨r₁, hr₁, hid⟩ := hv v hv'
        cases hr₁
        exact (reclaimReplay_ok hr).1.trans hid
      split <;> rename_i heq <;> rw [heq] at hevo <;> exact hevo

theorem decide_evolves (h : Inv cfg rid s) (b : RunSpec) (newJob : JobId) (w₁ w₂ : Write) :
    s.slot.Evolves SameIdentity (s.decide cfg rid b newJob w₁ w₂).2.slot := by
  unfold World.decide
  split
  · exact evolves_refl _
  · split
    · rename_i hv
      exact claimIdentity_evolves h.agree fun v hv' => by simp [hv] at hv'
    · rename_i record hv
      split
      · exact evolves_refl _
      · obtain ⟨hkeeps, hok, -⟩ := resolvePrior_keeps cfg rid w₁ hv
        split
        · rename_i o s' heq
          rw [heq] at hkeeps
          exact hkeeps.evolves h.agree
        · rename_i r s' heq
          rw [heq] at hkeeps hok
          have hevo := hkeeps.evolves h.agree
          refine hevo.trans sameIdentity_trans (claimIdentity_evolves (hkeeps.agree h.agree) fun v hv' => ?_)
          obtain ⟨v', hv'', hid⟩ := hevo.visible record hv
          obtain rfl : v' = v := Option.some.inj (hv''.symm.trans hv')
          exact ⟨r, rfl, (hok r rfl).trans hid.symm⟩

/-- Only a crash of the host takes a version back, and none changes the identity. -/
theorem step_evolves {a : Op} (h : Inv cfg rid s) (hs : step cfg sha256 rid s a = some s') :
    s.slot.Evolves SameIdentity s'.slot ∨ a = .crash ∧ s'.slot = s.slot.crash := by
  cases a with
  | submit b newJob w w₁ w₂ =>
    simp only [step] at hs
    split at hs
    · cases hs
    · cases hs
      have hfenced := h.fence w b.dependencies.eraseDups
      unfold World.submit
      split
      · exact .inl (evolves_refl _)
      · rename_i k heq
        rw [heq] at hfenced
        exact .inl (decide_evolves hfenced b newJob w₁ w₂)
  | register entry w =>
    simp only [step] at hs
    split at hs
    · cases hs
    · split at hs <;> cases hs
      exact .inl (evolves_refl _)
  | bind jobId node jobDir token w =>
    simp only [step] at hs
    split at hs
    · cases hs
      exact .inl (evolves_refl _)
    · rename_i r hr
      split at hs
      · cases hs
        exact .inl (evolves_refl _)
      · cases hs
        exact .inl ((write_keeps w hr fun r' hr' => (bindRemoteAttempt_ok hr').1).evolves h.agree)
  | fail f acting retrySafe message w =>
    simp only [step] at hs
    split at hs
    · cases hs
    · rename_i r hr
      cases hs
      obtain ⟨d, hd, -⟩ := h.holder r hr
      obtain ⟨v, hv, -⟩ := h.agree d hd
      rw [hv, Option.getD_some]
      exact .inl ((write_keeps w hv fun r' hr' => (transition_ok hr').1).evolves h.agree)
  | confirm w =>
    simp only [step] at hs
    split at hs
    · cases hs
    · rename_i r hr
      cases hs
      obtain ⟨d, hd, -⟩ := h.holder r hr
      obtain ⟨v, hv, -⟩ := h.agree d hd
      rw [hv, Option.getD_some]
      exact .inl ((write_keeps w hv fun r' hr' => (transition_ok hr').1).evolves h.agree)
  | query proof w₁ w₂ =>
    simp only [step] at hs
    split at hs
    · cases hs
      exact .inl (evolves_refl _)
    · split at hs
      · cases hs
        exact .inl (evolves_refl _)
      · rename_i record hv
        cases hs
        exact .inl ((h.query hv proof w₁ w₂).evolves h.agree)
  | group =>
    simp only [step] at hs
    split at hs
    · cases hs
    · split at hs <;> cases hs <;> exact .inl (evolves_refl _)
  | tick dt =>
    simp only [step] at hs
    split at hs <;> cases hs
    exact .inl (evolves_refl _)
  | rewrite entry w =>
    simp only [step] at hs
    split at hs <;> cases hs
    exact .inl (evolves_refl _)
  | remove id w =>
    cases hs
    exact .inl (evolves_refl _)
  | restart =>
    cases hs
    exact .inl (evolves_refl _)
  | crash =>
    cases hs
    exact .inr ⟨rfl, rfl⟩

/-! ## Runs -/

theorem run_inv {s₀ : World} {as : List Op} (h₀ : Start cfg rid s₀)
    (h : run (step cfg sha256 rid) s₀ as = some s) : Inv cfg rid s :=
  Dt.Lib.run_inv (fun _ _ _ => step_inv) h₀.inv h

theorem run_durable {as : List Op} (h : Inv cfg rid s)
    (hrun : run (step cfg sha256 rid) s as = some s') {d : RequestRecord}
    (hd : s.slot.durable = some d) :
    ∃ d', s'.slot.durable = some d' ∧ d'.identity = d.identity := by
  induction as generalizing s d with
  | nil =>
    simp only [run_nil, Option.some.injEq] at hrun
    exact ⟨d, hrun ▸ hd, rfl⟩
  | cons a as ih =>
    obtain ⟨s₁, h₁, h₂⟩ := run_cons_some.mp hrun
    rcases step_evolves h h₁ with hevo | ⟨-, hcrash⟩
    · obtain ⟨d₁, hd₁, hid⟩ := hevo.durable d hd
      obtain ⟨d', hd', hid'⟩ := ih (step_inv h h₁) h₂ hd₁
      exact ⟨d', hd', hid'.trans hid⟩
    · exact ih (step_inv h h₁) h₂ (by rw [hcrash]; exact hd)

theorem run_visible {as : List Op} (h : Inv cfg rid s)
    (hrun : run (step cfg sha256 rid) s as = some s') (hup : ∀ a ∈ as, a ≠ .crash)
    {v : RequestRecord} (hv : s.slot.visible = some v) :
    ∃ v', s'.slot.visible = some v' ∧ v'.identity = v.identity := by
  induction as generalizing s v with
  | nil =>
    simp only [run_nil, Option.some.injEq] at hrun
    exact ⟨v, hrun ▸ hv, rfl⟩
  | cons a as ih =>
    obtain ⟨s₁, h₁, h₂⟩ := run_cons_some.mp hrun
    rcases step_evolves h h₁ with hevo | ⟨hcrash, -⟩
    · obtain ⟨v₁, hv₁, hid⟩ := hevo.visible v hv
      obtain ⟨v', hv', hid'⟩ := ih (step_inv h h₁) h₂ (fun b hb => hup b (List.mem_cons_of_mem a hb)) hv₁
      exact ⟨v', hv', hid'.trans hid⟩
    · exact absurd hcrash (hup a List.mem_cons_self)

/-- A claim is no answer. -/
theorem claimIdentity_ne {o : Option RequestRecord} {intent : String} {newJob : JobId}
    {e : JobEntry} : ¬ ((s.claimIdentity rid intent newJob o w).1 = .replayed e ∨
      (s.claimIdentity rid intent newJob o w).1 = .failedBeforeStart e) := by
  unfold World.claimIdentity
  dsimp only
  split
  · split
    · simp
    · split <;> simp
  · split
    · simp
    · split <;> simp

/-- A submission that is answered with a row gets the row of the record's job. -/
theorem decide_answer {b : RunSpec} {newJob : JobId} {w₁ w₂ : Write} {e : JobEntry}
    (h : (s.decide cfg rid b newJob w₁ w₂).1 = .replayed e ∨
      (s.decide cfg rid b newJob w₁ w₂).1 = .failedBeforeStart e) :
    ∃ v, s.slot.visible = some v ∧ row cfg s.sys.files v.jobId = some e := by
  unfold World.decide at h
  split at h
  · simp at h
  · split at h
    · exact absurd h claimIdentity_ne
    · rename_i v hv
      split at h
      · simp at h
      · obtain ⟨-, -, hreplay⟩ := resolvePrior_keeps cfg rid w₁ hv
        split at h
        · rename_i o s' heq
          rw [heq] at hreplay
          exact ⟨v, hv, hreplay e (h.imp (congrArg _) (congrArg _))⟩
        · exact absurd h claimIdentity_ne

/-- A submission that the request id refuses: it ends in a conflict, unless the fence of one of its
own dependencies raised before; the record is what it was, and so is every row but that of an expired
lost dependency, which is fenced. -/
structure Refused (cfg : HeadConfig) (s : World) (b : RunSpec) (w : WriteOutcome)
    (o : Outcome × World) : Prop where
  outcome : (∃ m, o.1 = .conflict m) ∨
    ∃ m, o.1 = .raised m ∧ (fenceDependencies cfg w b.dependencies.eraseDups s.sys).1 = .error m
  slot : o.2.slot = s.slot
  registered : o.2.registered = s.registered
  rows : ∀ id, row cfg o.2.sys.files id = row cfg s.sys.files id ∨
    id ∈ b.dependencies ∧ Fenced cfg s.sys o.2.sys id

theorem submit_refused {b : RunSpec} {newJob : JobId} {w : WriteOutcome} {w₁ w₂ : Write}
    (h : s.group = true ∨ ∃ v, s.slot.visible = some v ∧ v.intentSha256 ≠ b.intent) :
    Refused cfg s b w (s.submit cfg rid b newJob w w₁ w₂) := by
  obtain ⟨-, hrows⟩ := fenceDependencies_row cfg w b.dependencies.eraseDups s.sys
  simp only [List.mem_eraseDups] at hrows
  unfold World.submit
  split
  · rename_i m k heq
    rw [heq] at hrows
    exact { outcome := .inr ⟨m, rfl, by rw [heq]⟩, slot := rfl, registered := rfl, rows := hrows }
  · rename_i k heq
    rw [heq] at hrows
    have hdecide : ∃ m, World.decide cfg rid { s with sys := k } b newJob w₁ w₂ =
        (.conflict m, { s with sys := k }) := by
      unfold World.decide
      by_cases hg : s.group = true
      · exact ⟨_, if_pos hg⟩
      · obtain ⟨v, hv, hi⟩ := h.resolve_left hg
        simp only [hg, Bool.false_eq_true, if_false, hv, ne_eq, hi, not_false_eq_true, if_true]
        exact ⟨_, rfl⟩
    obtain ⟨m, hm⟩ := hdecide
    rw [hm]
    exact { outcome := .inl ⟨m, rfl⟩, slot := rfl, registered := rfl, rows := hrows }

/-- The row a submission is answered with is that of the one job of the request. -/
theorem submit_answer (h : Inv cfg rid s) {b : RunSpec} {newJob : JobId} {w : WriteOutcome}
    {w₁ w₂ : Write} {e : JobEntry}
    (ha : (s.submit cfg rid b newJob w w₁ w₂).1 = .replayed e ∨
      (s.submit cfg rid b newJob w w₁ w₂).1 = .failedBeforeStart e) :
    ∃ d, s.slot.durable = some d ∧ e.jobId = d.jobId := by
  have hfenced := h.fence w b.dependencies.eraseDups
  unfold World.submit at ha
  split at ha
  · simp at ha
  · rename_i k heq
    rw [heq] at hfenced
    obtain ⟨v, hv, hrow⟩ := decide_answer ha
    have hreq := hfenced.owned v.jobId (hfenced.named.visible v hv).2 e hrow
    obtain ⟨d, hd, hjob⟩ := hfenced.registered v.jobId (hfenced.rows v.jobId e hrow hreq)
    exact ⟨d, hd, (row_jobId hrow).trans hjob.symm⟩

/-- In every run of submissions, crashes, replays and queries under one request id, with the other
commands in between: the identity that was durably written never changes; every row that was ever
registered for the request, and every row that is stored for it, belongs to the job of that
identity; a submission with another intent is refused and changes neither the record nor a row,
except that its own expired lost dependencies may be fenced; and all submissions that are answered
with a row are answered with the row of the same job. -/
theorem request_idempotent {s₀ : World} {as bs : List Op} (h₀ : Start cfg rid s₀)
    (hrun : run (step cfg sha256 rid) s₀ as = some s)
    (hrun' : run (step cfg sha256 rid) s bs = some s') :
    (∀ d, s.slot.durable = some d → ∃ d' v', s'.slot.durable = some d' ∧
        s'.slot.visible = some v' ∧ d'.identity = d.identity ∧ v'.identity = d.identity) ∧
      ((∀ b ∈ bs, b ≠ .crash) → ∀ v, s.slot.visible = some v →
        ∃ v', s'.slot.visible = some v' ∧ v'.identity = v.identity) ∧
      (∀ j ∈ s'.registered, ∃ d, s'.slot.durable = some d ∧ j = d.jobId) ∧
      (∀ id e, row cfg s'.sys.files id = some e → e.requestId = some rid →
        ∃ d, s'.slot.durable = some d ∧ id = d.jobId) ∧
      (∀ b newJob w w₁ w₂,
        (s'.group = true ∨ ∃ v, s'.slot.visible = some v ∧ v.intentSha256 ≠ b.intent) →
          Refused cfg s' b w (s'.submit cfg rid b newJob w w₁ w₂)) ∧
      ∀ b₁ b₂ n₁ n₂ w w' w₁ w₂ w₃ w₄ e e',
        ((s.submit cfg rid b₁ n₁ w w₁ w₂).1 = .replayed e ∨
          (s.submit cfg rid b₁ n₁ w w₁ w₂).1 = .failedBeforeStart e) →
        ((s'.submit cfg rid b₂ n₂ w' w₃ w₄).1 = .replayed e' ∨
          (s'.submit cfg rid b₂ n₂ w' w₃ w₄).1 = .failedBeforeStart e') →
        e'.jobId = e.jobId := by
  have hinv : Inv cfg rid s := run_inv h₀ hrun
  have hinv' : Inv cfg rid s' := Dt.Lib.run_inv (fun _ _ _ => step_inv) hinv hrun'
  have hreg : ∀ j ∈ s'.registered, ∃ d, s'.slot.durable = some d ∧ j = d.jobId := by
    intro j hj
    obtain ⟨d, hd, hjob⟩ := hinv'.registered j hj
    exact ⟨d, hd, hjob.symm⟩
  refine ⟨fun d hd => ?_, fun hup v hv => run_visible hinv hrun' hup hv, hreg,
    fun id e he hq => hreg id (hinv'.rows id e he hq), fun b n w w₁ w₂ h => submit_refused h,
    fun b₁ b₂ n₁ n₂ w w' w₁ w₂ w₃ w₄ e e' h h' => ?_⟩
  · obtain ⟨d', hd', hid⟩ := run_durable hinv hrun' hd
    obtain ⟨v', hv', hid'⟩ := hinv'.agree d' hd'
    exact ⟨d', v', hd', hv', hid, hid'.trans hid⟩
  · obtain ⟨d, hd, hjob⟩ := submit_answer hinv h
    obtain ⟨d', hd', hjob'⟩ := submit_answer hinv' h'
    obtain ⟨d'', hd'', hid⟩ := run_durable hinv hrun' hd
    obtain rfl : d'' = d' := Option.some.inj (hd''.symm.trans hd')
    rw [hjob', hjob]
    exact congrArg (·.2.2.1) hid

/-! ## A run -/

def sampleIntent : String := "e0cca2965509df678c8064f5e0b9076016fa752f88a6c749768db83479450cc5"

def otherIntent : String := "d2b1f1d83f0ad4f52dec8a1e2091f5c94ffad00ed3528362353fbe97aacd0187"

/-- The hash of the launch token `00000000000000000000000000000001`. -/
def sampleSha256 (_token : String) : String :=
  "e0cca2965509df678c8064f5e0b9076016fa752f88a6c749768db83479450cc5"

/-- A registry with one lost row past its window, not fenced. -/
def sampleStart : World where
  sys := Sys.ofRow { sampleLost "dep-1" with terminalFinalizedAt := none }

def sampleEntry : JobEntry :=
  { JobEntry.sample "job-1" with createdAt := 2000, requestId := some "req-1" }

/-- A submission that registers its row, is dispatched, and is confirmed. -/
def sampleSubmission : List Op :=
  [.submit { intent := sampleIntent } "job-1" { stamp := 2 } .synced .synced,
   .register sampleEntry { stamp := 2 },
   .bind "job-1" "n1" "~/dt/jobs/job-1" "00000000000000000000000000000001" .synced,
   .confirm .synced]

/-- The host goes down and a query finds the confirmed record. -/
def sampleLater : List Op := [.crash, .tick 10, .query none .synced .synced]

theorem sampleStart_start : Start .sample "req-1" sampleStart where
  slot := rfl
  holder := rfl
  minted := rfl
  registered := rfl
  rows id e he := by
    obtain ⟨d, -, hr⟩ := row_eq_some he
    obtain ⟨doc, mtime, hl, hd⟩ := readEntryPath_ok.mp hr
    obtain ⟨-, -, env, -, -, rfl⟩ := decodeEntry_ok.mp hd
    have hdoc : doc.requestId = none := by
      cases d with
      | legacy => cases hl
      | role =>
        have hmem := AList.mem_lookup_iff.mp hl
        simp only [sampleStart, Sys.ofRow, AList.singleton, List.mem_singleton] at hmem
        cases hmem
        rfl
    show doc.requestId ≠ some "req-1"
    simp [hdoc]

theorem request_idempotent_sample :
    ∃ s s' e, run (step .sample sampleSha256 "req-1") sampleStart sampleSubmission = some s ∧
      run (step .sample sampleSha256 "req-1") s sampleLater = some s' ∧
      (s.submit .sample "req-1" { intent := sampleIntent } "job-2" { stamp := 3 } .synced
        .synced).1 = .replayed e ∧ e.jobId = "job-1" ∧
      (∃ d v, s'.slot.durable = some d ∧ s'.slot.visible = some v ∧ d.identity = v.identity ∧
        d.identity = ("req-1", sampleIntent, "job-1", 2000)) ∧
      ∀ e', (s'.submit .sample "req-1" { intent := sampleIntent } "job-3" { stamp := 3 } .synced
        .synced).1 = .replayed e' → e'.jobId = "job-1" := by
  have hrun : ((run (step .sample sampleSha256 "req-1") sampleStart sampleSubmission).bind fun s =>
      (run (step .sample sampleSha256 "req-1") s sampleLater).map fun _ =>
        ((match (s.submit .sample "req-1" { intent := sampleIntent } "job-2" { stamp := 3 } .synced
          .synced).1 with
          | .replayed e => some e.jobId
          | _ => none), s.slot.durable.map RequestRecord.identity)) =
      some (some "job-1", some ("req-1", sampleIntent, "job-1", 2000)) := by decide +kernel
  obtain ⟨s, hs, hrest⟩ := Option.bind_eq_some_iff.mp hrun
  obtain ⟨s', hs', hans⟩ := Option.map_eq_some_iff.mp hrest
  simp only [Prod.mk.injEq] at hans
  obtain ⟨hans, hdur⟩ := hans
  obtain ⟨d, hd, hid⟩ := Option.map_eq_some_iff.mp hdur
  split at hans
  · rename_i e he
    have hjob : e.jobId = "job-1" := Option.some.inj hans
    obtain ⟨hident, -, -, -, -, hsame⟩ := request_idempotent sampleStart_start hs hs'
    obtain ⟨d', v', hd', hv', h₁, h₂⟩ := hident d hd
    refine ⟨s, s', e, hs, hs', he, hjob, ⟨d', v', hd', hv', h₁.trans h₂.symm, h₁.trans hid⟩,
      fun e' he' => ?_⟩
    exact (hsame _ _ _ _ _ _ _ _ _ _ e e' (.inl he) (.inl he')).trans hjob
  · cases hans

/-- A conflicting submission that waits for an expired lost job has that job fenced before the
conflict is found. -/
theorem conflict_fences_dependency :
    ∃ s, run (step .sample sampleSha256 "req-1") sampleStart sampleSubmission = some s ∧
      (∃ v, s.slot.visible = some v ∧ v.intentSha256 ≠ otherIntent) ∧
      ∃ s', s.submit .sample "req-1" { intent := otherIntent, dependencies := ["dep-1"] } "job-2"
          { stamp := 3 } .synced .synced =
            (.conflict "request 'req-1' already belongs to a different intent", s') ∧
        (row .sample s.sys.files "dep-1").map (·.terminalFinalizedAt) = some none ∧
        (row .sample s'.sys.files "dep-1").map (·.terminalFinalizedAt) = some (some 2000) := by
  have hrun : ((run (step .sample sampleSha256 "req-1") sampleStart sampleSubmission).map fun s =>
      let o := s.submit .sample "req-1" { intent := otherIntent, dependencies := ["dep-1"] } "job-2"
        { stamp := 3 } .synced .synced
      (s.slot.visible.map (·.intentSha256), o.1,
        (row .sample s.sys.files "dep-1").map (·.terminalFinalizedAt),
        (row .sample o.2.sys.files "dep-1").map (·.terminalFinalizedAt))) =
      some (some sampleIntent, .conflict "request 'req-1' already belongs to a different intent",
        some none, some (some 2000)) := by decide +kernel
  obtain ⟨s, hs, hans⟩ := Option.map_eq_some_iff.mp hrun
  simp only [Prod.mk.injEq] at hans
  obtain ⟨hi, ho, hbefore, hafter⟩ := hans
  obtain ⟨v, hv, hi⟩ := Option.map_eq_some_iff.mp hi
  refine ⟨s, hs, ⟨v, hv, ?_⟩, _, Prod.ext ho rfl, hbefore, hafter⟩
  rw [hi]
  decide

end Dt.Submission.Request
