import Dt.Submission.Request

/-!
# Automatic retries

The agent resubmits a failed attempt as an exact fork under a request id that is made from the id of
the attempt and its ordinal. The submission, the row of the replacement and the marker on the old row
are separate writes of separate files; the agent or the host may go down between any two of them,
and the next pass starts again from whatever rows it reads.

`World` has the registry, the records of every request id and the rows the pass has at hand. Users
submit under any request id, also under one that a retry would use, and the other commands rewrite
and remove rows in between; a rewrite leaves the part of the row that was fixed by the submission.
-/

namespace Dt.Submission.Retry

open Dt.Lib Dt.Jobs Dt.Dispatch

/-! ## The resubmission of an attempt -/

/-- `RETRY_SUBMITS_PER_TICK`. -/
def retrySubmitsPerTick : Nat := 4

/-- The checks of `_validate_run_spec` on the retry fields. -/
def validRetry (r : RetrySpec) : Bool :=
  decide (0 ≤ r.retryLimit) && decide (r.retryLimit ≤ maxRetryLimit) &&
    decide (0 ≤ r.retryCount) && decide (r.retryCount ≤ maxRetryLimit) &&
    !(r.retryOn.isSome && r.retryLimit = 0) && r.retryOf.all validJobId

/-- `retry_spec_from_entry`: the retry fields. -/
def retrySpecFromEntry (e : JobEntry) : RetrySpec where
  retryLimit := e.retryLimit
  retryOn := e.retryOn
  retryCount := e.retryCount + 1
  retryOf := some e.jobId

/-- `retry_spec_from_entry`: `f"{entry.job_id}:retry:{ordinal}"`. -/
def retryRequestId (e : JobEntry) : String :=
  e.jobId ++ ":retry:" ++ toString (e.retryCount + 1)

/-- `_fork_source_identity`. -/
def forkSourceIdentity (e : JobEntry) : String × Option String × Option String × Option String ×
    String × Layout :=
  (e.project, e.snapshotSha256, e.payloadSha256, e.envHash, e.jobDir,
    e.storageLayout.getD .legacy)

/-- What the digest of an intent is taken of: the run spec without its request id, the hashes of the
source tree and of the payload, and the queueing flags. `payload` is all of it that is not read
here. -/
structure Intent where
  retry : RetrySpec
  dependencies : List JobId := []
  payload : String
  deriving DecidableEq, Repr

/-! ## The shared state -/

/-- The part of one request id. -/
structure Part where
  slot : Slot RequestRecord := {}
  group : Bool := false
  holder : Option RequestRecord := none
  minted : List JobId := []
  registered : List JobId := []
  /-- The intent of the last submission that came to the claim. -/
  active : Option Intent := none

structure World where
  sys : Sys
  requests : String → Part
  /-- The rows of the snapshot that the retry pass works through. -/
  entries : List JobEntry := []
  /-- The retries submitted in this pass. -/
  submitted : Nat := 0
  /-- Every row that was handed to `save` as the row of a new job. -/
  rows : List JobEntry := []
  /-- The lineage that every job id was drawn for. -/
  jobs : List Lineage := []
  /-- Every row that a pass has read. -/
  reads : List JobEntry := []
  /-- Every intent that was submitted under a request id. -/
  intents : List Intent := []

/-- What a submission under one request id works on. -/
def World.view (s : World) (rid : String) : Request.World where
  sys := s.sys
  slot := (s.requests rid).slot
  group := (s.requests rid).group
  holder := (s.requests rid).holder
  minted := (s.requests rid).minted
  registered := (s.requests rid).registered

def World.put (s : World) (rid : String) (q : Request.World) (active : Option Intent) : World :=
  { s with
    sys := q.sys
    requests := Function.update s.requests rid
      { slot := q.slot, group := q.group, holder := q.holder, minted := q.minted
        registered := q.registered, active := active } }

def World.saveRow (cfg : HeadConfig) (s : World) (entry : JobEntry) (w : WriteOutcome) : World :=
  { s with sys := { s.sys with toDisk := (s.sys.toDisk.save cfg entry s.sys.clock w).2 } }

/-! ## Steps -/

inductive Op where
  | submit (rid : String) (x : Intent) (newJob : JobId) (w : WriteOutcome) (w₁ w₂ : Write)
  | submitOnce (entry : JobEntry) (w : WriteOutcome)
  | register (rid : String) (entry : JobEntry) (w : WriteOutcome)
  | request (rid : String) (op : Request.Op)
  | pass
  | read (id : JobId)
  | fence (e : JobEntry) (w : WriteOutcome)
  | retry (e : JobEntry) (payload : String) (newJob : JobId) (w : WriteOutcome) (w₁ w₂ : Write)
  | mark (e : JobEntry) (replacement : JobId) (w : WriteOutcome)
  | rewrite (entry : JobEntry) (w : WriteOutcome)
  | remove (id : JobId) (w : WriteOutcome)
  | tick (dt : Time)
  | crash

/-- The steps of a request id that touch its own record only. -/
def recordOnly : Request.Op → Bool
  | .bind .. | .fail .. | .confirm .. | .query .. | .group | .restart => true
  | .submit .. | .register .. | .tick .. | .rewrite .. | .remove .. | .crash => false

/-- A submission may start: nobody holds the lock of the request, and its job id is new. -/
def World.free (cfg : HeadConfig) (s : World) (rid : String) (newJob : JobId) : Bool :=
  (s.requests rid).holder.isNone && (row cfg s.sys.files newJob).isNone &&
    !s.jobs.any (·.jobId = newJob)

/-- `_submit_prepared` under a request id, up to its claim. -/
def World.claim (cfg : HeadConfig) (canonicalIntent : Intent → String) (s : World) (rid : String)
    (x : Intent) (newJob : JobId) (w : WriteOutcome) (w₁ w₂ : Write) : World :=
  let b : Request.RunSpec := { intent := canonicalIntent x, dependencies := x.dependencies }
  { s.put rid ((s.view rid).submit cfg rid b newJob w w₁ w₂).2 (some x) with
    jobs := ⟨newJob, some rid, x.retry⟩ :: s.jobs
    intents := x :: s.intents }

/-- The pass has a row at hand. -/
def World.seen (s : World) (e : JobEntry) : World :=
  { s with entries := e :: s.entries, reads := e :: s.reads }

/-- `finalize_dependency_terminal` on a row that awaits its fence; what it returns goes back into
the pass. -/
def World.fence (cfg : HeadConfig) (s : World) (id : JobId) (w : WriteOutcome) : World :=
  match load cfg s.sys.files id with
  | .error _ | .ok none => s
  | .ok (some cur) =>
    match finalizeWrite cur s.sys.clock with
    | none => s.seen cur
    | some e =>
      match (s.sys.toDisk.save cfg e s.sys.clock w).1 with
      | .error _ => s.saveRow cfg e w
      | .ok () => (s.saveRow cfg e w).seen e

/-- `submit_fork` of an attempt that may be retried. -/
def World.retry (cfg : HeadConfig) (canonicalIntent : Intent → String) (s : World) (e : JobEntry)
    (payload : String) (newJob : JobId) (w : WriteOutcome) (w₁ w₂ : Write) : Option World :=
  let x : Intent := { retry := retrySpecFromEntry e, payload := payload }
  if !validRetry x.retry then some s
  else match load cfg s.sys.files e.jobId with
  | .error _ | .ok none => some s
  | .ok (some cur) =>
    if forkSourceIdentity cur ≠ forkSourceIdentity e then some s
    else if s.free cfg (retryRequestId e) newJob then
      some (s.claim cfg canonicalIntent (retryRequestId e) x newJob w w₁ w₂)
    else none

/-- The marker on the attempt that has been replaced. -/
def World.mark (cfg : HeadConfig) (s : World) (e : JobEntry) (replacement : JobId)
    (w : WriteOutcome) : World :=
  let s' := match load cfg s.sys.files e.jobId with
    | .error _ | .ok none => s
    | .ok (some cur) =>
      if cur.retriedBy.isSome then s
      else s.saveRow cfg { cur with retriedBy := some replacement } w
  { s' with submitted := s.submitted + 1, entries := s.entries.erase e }

/-- One step. Only a retry sets the retry fields of a submission beyond its policy. -/
def step (cfg : HeadConfig) (sha256 : String → String) (canonicalIntent : Intent → String)
    (s : World) : Op → Option World
  | .submit rid x newJob w w₁ w₂ =>
    if validRetry x.retry && x.retry.retryOf.isNone && x.retry.retryCount = 0 &&
        s.free cfg rid newJob then
      some (s.claim cfg canonicalIntent rid x newJob w w₁ w₂)
    else none
  | .submitOnce entry w =>
    if validRetry entry.retry && entry.retryOf.isNone && entry.retryCount = 0 &&
        entry.requestId.isNone && (row cfg s.sys.files entry.jobId).isNone &&
        !s.jobs.any (·.jobId = entry.jobId) then
      some { s.saveRow cfg entry w with
        rows := entry :: s.rows, jobs := entry.lineage :: s.jobs }
    else none
  | .register rid entry w =>
    if (s.requests rid).active.all (·.retry = entry.retry) then
      (Request.step cfg sha256 rid (s.view rid) (.register entry w)).map fun q =>
        { s.put rid q (s.requests rid).active with rows := entry :: s.rows }
    else none
  | .request rid op =>
    if recordOnly op then
      (Request.step cfg sha256 rid (s.view rid) op).map fun q => s.put rid q (s.requests rid).active
    else none
  | .pass => some { s with entries := [], submitted := 0 }
  | .read id => (row cfg s.sys.files id).map s.seen
  | .fence e w => if s.entries.contains e && retryPendingFence e then some (s.fence cfg e.jobId w) else none
  | .retry e payload newJob w w₁ w₂ =>
    if s.entries.contains e && (retryBlockedReason e).isNone &&
        decide (s.submitted < retrySubmitsPerTick) then
      s.retry cfg canonicalIntent e payload newJob w w₁ w₂
    else none
  | .mark e replacement w =>
    if s.entries.contains e && (s.requests (retryRequestId e)).registered.contains replacement then
      some (s.mark cfg e replacement w)
    else none
  | .rewrite entry w =>
    if s.rows.any (·.lineage = entry.lineage) then some (s.saveRow cfg entry w) else none
  | .remove id w =>
    some { s with sys := { s.sys with toDisk := (s.sys.toDisk.remove cfg id s.sys.clock w).2 } }
  | .tick dt =>
    if 0 ≤ dt then some { s with sys := { s.sys with clock := s.sys.clock + dt } } else none
  | .crash =>
    some { s with
      requests := fun rid =>
        { s.requests rid with slot := (s.requests rid).slot.crash, holder := none }
      entries := []
      submitted := 0 }

/-! ## What a submission does to its request -/

section Request

open Request (SameIdentity Keeps)

variable {cfg : HeadConfig} {sha256 : String → String} {rid : String} {q q' : Request.World}

/-- Every version of the record has an identity in `P`. -/
abbrev AllIdentity (P : String × String × JobId × Time → Prop) (q : Request.World) : Prop :=
  q.slot.All fun r => P r.identity

/-- What a submission with the digest `intent` does to the state of its request. -/
structure Submitted (rid intent : String) (newJob : JobId) (q q' : Request.World) : Prop where
  registered : q'.registered = q.registered
  minted : ∀ id ∈ q'.minted, id = newJob ∨ id ∈ q.minted
  all : ∀ P, AllIdentity P q → P (rid, intent, newJob, q.sys.clock) → AllIdentity P q'
  holder : q.holder = none → ∀ r, q'.holder = some r → r.intentSha256 = intent

theorem Submitted.of_keeps {intent : String} {newJob : JobId} (h : Keeps q q') :
    Submitted rid intent newJob q q' where
  registered := h.registered
  minted id hid := .inr (h.minted ▸ hid)
  all P hP _ := h.all P hP
  holder hfree r hr := by
    rw [h.holder, hfree] at hr
    cases hr

theorem Submitted.after_keeps {intent : String} {newJob : JobId} {q'' : Request.World}
    (h : Submitted rid intent newJob q' q'') (hk : Keeps q q') :
    Submitted rid intent newJob q q'' where
  registered := h.registered.trans hk.registered
  minted id hid := by
    rw [← hk.minted]
    exact h.minted id hid
  all P hP hnew := h.all P (hk.all P hP) (by rwa [hk.sys])
  holder hfree r hr := h.holder (hk.holder.trans hfree) r hr

theorem save_frame (w : Write) (r : RequestRecord) :
    (q.save w r).2.registered = q.registered ∧ (q.save w r).2.minted = q.minted ∧
      (q.save w r).2.holder = q.holder ∧ (q.save w r).2.sys = q.sys ∧
      ∀ P, AllIdentity P q → P r.identity → AllIdentity P (q.save w r).2 := by
  rcases Request.save_eq q w r with ⟨h, -⟩ | ⟨r', hid, h, -⟩
  · rw [h]
    exact ⟨rfl, rfl, rfl, rfl, fun P hP _ => hP⟩
  · rw [h]
    refine ⟨rfl, rfl, rfl, rfl, fun P hP hr => hP.put w fun _ => ?_⟩
    show P r'.identity
    rwa [hid]

theorem claimIdentity_submitted {intent : String} {newJob : JobId} (w : Write) :
    Submitted rid intent newJob q (q.claimIdentity rid intent newJob none w).2 ∧
      (q.claimIdentity rid intent newJob none w).2.sys = q.sys := by
  unfold Request.World.claimIdentity
  dsimp only
  split
  · exact ⟨.of_keeps (.refl q), rfl⟩
  · rename_i r hr
    obtain ⟨hid, -, -⟩ := create_ok hr
    have hintent : r.intentSha256 = intent := congrArg (·.2.1) hid
    obtain ⟨hreg, hmint, hhold, hsys, hall⟩ :=
      save_frame w r (q := { q with minted := newJob :: q.minted })
    have hsub : ∀ o : Option RequestRecord, (∀ r', o = some r' → q.holder = none →
        r'.intentSha256 = intent) → Submitted rid intent newJob q
          { (Request.World.save { q with minted := newJob :: q.minted } w r).2 with holder := o } := by
      intro o ho
      exact { registered := hreg
              minted := fun id hid => by
                rw [hmint] at hid
                exact List.mem_cons.mp hid
              all := fun P hP hnew => hall P hP (hid ▸ hnew)
              holder := fun hfree r' hr' => ho r' hr' hfree }
    split
    · rename_i q' heq
      rw [heq] at hsub hsys
      refine ⟨hsub (some r) fun r' hr' _ => ?_, hsys⟩
      rw [← Option.some.inj hr', hintent]
    all_goals
      rename_i q' heq
      rw [heq] at hsub hsys hhold
      refine ⟨?_, hsys⟩
      have h := hsub q'.holder fun r' hr' hfree => by
        rw [show q'.holder = q.holder from hhold, hfree] at hr'
        cases hr'
      exact h

theorem reclaim_submitted {intent : String} {newJob : JobId} {v r : RequestRecord}
    (hv : q.slot.visible = some v) (hr : r.identity = v.identity) (hi : v.intentSha256 = intent)
    (w : Write) :
    Submitted rid intent newJob q (q.claimIdentity rid intent newJob (some r) w).2 ∧
      (q.claimIdentity rid intent newJob (some r) w).2.sys = q.sys := by
  unfold Request.World.claimIdentity
  dsimp only
  split
  · exact ⟨.of_keeps (.refl q), rfl⟩
  · rename_i r₁ hr₁
    have hid : r₁.identity = v.identity := (reclaimReplay_ok hr₁).1.trans hr
    have hkeeps := Request.save_keeps w hv hid
    split
    · rename_i q' heq
      rw [heq] at hkeeps
      refine ⟨{ registered := hkeeps.registered, minted := fun id h => .inr (hkeeps.minted ▸ h)
                all := fun P hP _ => hkeeps.all P hP, holder := fun _ r' hr' => ?_ }, hkeeps.sys⟩
      rw [← Option.some.inj hr', ← hi]
      exact congrArg (·.2.1) hid
    · rename_i q' _ heq
      rw [heq] at hkeeps
      exact ⟨.of_keeps hkeeps, hkeeps.sys⟩

theorem decide_submitted (hagree : q.slot.Agree SameIdentity) (b : Request.RunSpec) (newJob : JobId)
    (w₁ w₂ : Write) :
    Submitted rid b.intent newJob q (q.decide cfg rid b newJob w₁ w₂).2 ∧
      (q.decide cfg rid b newJob w₁ w₂).2.sys = q.sys := by
  unfold Request.World.decide
  split
  · exact ⟨.of_keeps (.refl q), rfl⟩
  · split
    · exact claimIdentity_submitted w₂
    · rename_i record hv
      split
      · exact ⟨.of_keeps (.refl q), rfl⟩
      · rename_i hi
        obtain ⟨hkeeps, hok, -⟩ := Request.resolvePrior_keeps cfg rid w₁ hv
        split
        · rename_i o q' heq
          rw [heq] at hkeeps
          exact ⟨.of_keeps hkeeps, hkeeps.sys⟩
        · rename_i r q' heq
          rw [heq] at hkeeps hok
          obtain ⟨v, hv', hid⟩ := (hkeeps.evolves hagree).visible record hv
          have hintent : v.intentSha256 = b.intent :=
            (congrArg (·.2.1) hid).trans (not_not.mp hi)
          have hclaim : Submitted rid b.intent newJob q'
                (q'.claimIdentity rid b.intent newJob (some r) w₂).2 ∧
              (q'.claimIdentity rid b.intent newJob (some r) w₂).2.sys = q'.sys :=
            reclaim_submitted hv' ((hok r rfl).trans hid.symm) hintent w₂
          exact ⟨hclaim.1.after_keeps hkeeps, hclaim.2.trans hkeeps.sys⟩

/-- The registry after a submission is the one its fences left. -/
theorem submit_submitted (hinv : Request.Inv cfg rid q) (b : Request.RunSpec) (newJob : JobId)
    (w : WriteOutcome) (w₁ w₂ : Write) :
    Submitted rid b.intent newJob q (q.submit cfg rid b newJob w w₁ w₂).2 ∧
      (q.submit cfg rid b newJob w w₁ w₂).2.sys =
        (Request.fenceDependencies cfg w b.dependencies.eraseDups q.sys).2 := by
  obtain ⟨hclock, -⟩ := Request.fenceDependencies_row cfg w b.dependencies.eraseDups q.sys
  unfold Request.World.submit
  split
  · rename_i m k heq
    rw [heq] at hclock
    exact ⟨⟨rfl, fun id hid => .inr hid, fun P hP _ => hP,
      fun hfree r hr => by simp [hfree] at hr⟩, by rw [heq]⟩
  · rename_i k heq
    rw [heq] at hclock
    have hagree : ({ q with sys := k } : Request.World).slot.Agree SameIdentity := hinv.agree
    obtain ⟨hsub, hsys⟩ := @decide_submitted cfg rid _ hagree b newJob w₁ w₂
    exact ⟨⟨hsub.registered, hsub.minted, fun P hP hnew => hsub.all P hP (by rwa [hclock]),
      hsub.holder⟩, by rw [hsys, heq]⟩

/-- The record may have changed within its identity, and the lock may have been let go. -/
structure RecordOnly (q q' : Request.World) : Prop where
  sys : q'.sys = q.sys
  minted : q'.minted = q.minted
  registered : q'.registered = q.registered
  all : ∀ P, AllIdentity P q → AllIdentity P q'
  holder : ∀ r, q'.holder = some r → q.holder = some r

theorem RecordOnly.of_keeps (h : Keeps q q') : RecordOnly q q' :=
  ⟨h.sys, h.minted, h.registered, h.all, fun _ hr => h.holder ▸ hr⟩

theorem RecordOnly.release (h : RecordOnly q q') : RecordOnly q { q' with holder := none } :=
  ⟨h.sys, h.minted, h.registered, h.all, fun _ hr => (nomatch hr)⟩

theorem recordOnly_step {op : Request.Op} (hinv : Request.Inv cfg rid q) (hop : recordOnly op = true)
    (h : Request.step cfg sha256 rid q op = some q') : RecordOnly q q' := by
  have hrefl : RecordOnly q q := .of_keeps (.refl q)
  -- a transition of the record of the submission that holds the lock
  have hheld : ∀ {r : RequestRecord} (w : Write) (state : RequestState) (kind message : Option String)
      (now : Time), q.holder = some r → RecordOnly q { q.write w
        (transition (q.slot.visible.getD r) state kind message now) with holder := none } := by
    intro r w state kind message now hr
    obtain ⟨d, hd, -⟩ := hinv.holder r hr
    obtain ⟨v, hv, -⟩ := hinv.agree d hd
    rw [hv, Option.getD_some]
    exact (RecordOnly.of_keeps
      (Request.write_keeps w hv fun r' hr' => (transition_ok hr').1)).release
  cases op with
  | bind jobId node jobDir token w =>
    simp only [Request.step] at h
    split at h
    · cases h
      exact hrefl
    · rename_i r hr
      split at h <;> cases h
      · exact hrefl
      · exact .of_keeps (Request.write_keeps w hr fun r' hr' => (bindRemoteAttempt_ok hr').1)
  | fail f acting retrySafe message w =>
    simp only [Request.step] at h
    split at h
    · cases h
    · rename_i r hr
      cases h
      exact hheld w _ _ _ _ hr
  | confirm w =>
    simp only [Request.step] at h
    split at h
    · cases h
    · rename_i r hr
      cases h
      exact hheld w _ _ _ _ hr
  | query proof w₁ w₂ =>
    simp only [Request.step] at h
    split at h
    · cases h
      exact hrefl
    · split at h
      · cases h
        exact hrefl
      · rename_i record hv
        cases h
        exact .of_keeps (hinv.query hv proof w₁ w₂)
  | group =>
    simp only [Request.step] at h
    split at h
    · cases h
    · split at h <;> cases h
      · exact hrefl
      · exact ⟨rfl, rfl, rfl, fun _ hP => hP, fun _ hr => hr⟩
  | restart =>
    cases h
    exact hrefl.release
  | submit => cases hop
  | register => cases hop
  | tick => cases hop
  | rewrite => cases hop
  | remove => cases hop
  | crash => cases hop

end Request

/-! ## The invariant -/

variable {cfg : HeadConfig} {sha256 : String → String} {canonicalIntent : Intent → String}
  {s s' : World}

/-- A job is a first attempt, or the replacement of an attempt that a pass read as retryable. -/
structure Origin (reads : List JobEntry) (j : Lineage) : Prop where
  valid : validRetry j.retry = true
  first_or_replacement : (j.retry.retryOf = none ∧ j.retry.retryCount = 0) ∨
    ∃ e ∈ reads, retryBlockedReason e = none ∧ j.retry = retrySpecFromEntry e ∧
      j.requestId = some (retryRequestId e)

theorem Origin.mono {reads reads' : List JobEntry} {j : Lineage} (h : Origin reads j)
    (hsub : ∀ e ∈ reads, e ∈ reads') : Origin reads' j :=
  ⟨h.valid, h.first_or_replacement.imp_right fun ⟨e, he, hrest⟩ => ⟨e, hsub e he, hrest⟩⟩

/-- The identity of a record belongs to the job that was drawn for it, and its digest to an intent
with the retry fields of the job. -/
def Claimed (canonicalIntent : Intent → String) (s : World) (rid : String)
    (i : String × String × JobId × Time) : Prop :=
  ∃ x ∈ s.intents, canonicalIntent x = i.2.1 ∧ ⟨i.2.2.1, some rid, x.retry⟩ ∈ s.jobs

structure Inv (cfg : HeadConfig) (canonicalIntent : Intent → String) (s : World) : Prop where
  request : ∀ rid, Request.Inv cfg rid (s.view rid)
  unique : ∀ j ∈ s.jobs, ∀ j' ∈ s.jobs, j.jobId = j'.jobId → j = j'
  minted : ∀ rid, ∀ id ∈ (s.requests rid).minted, ∃ r, ⟨id, some rid, r⟩ ∈ s.jobs
  claimed : ∀ rid, AllIdentity (Claimed canonicalIntent s rid) (s.view rid)
  held : ∀ rid r, (s.requests rid).holder = some r →
    ∃ x ∈ s.intents, (s.requests rid).active = some x ∧ canonicalIntent x = r.intentSha256
  origin : ∀ j ∈ s.jobs, Origin s.reads j
  rows : ∀ e ∈ s.rows, e.lineage ∈ s.jobs
  registered : ∀ e ∈ s.rows, ∀ rid, e.requestId = some rid → e.jobId ∈ (s.requests rid).registered
  stored : ∀ id e, row cfg s.sys.files id = some e → ∃ r ∈ s.rows, r.lineage = e.lineage
  reads : ∀ e ∈ s.reads, ∃ r ∈ s.rows, r.lineage = e.lineage
  entries : ∀ e ∈ s.entries, e ∈ s.reads

/-- A head without jobs. -/
structure Start (cfg : HeadConfig) (s : World) : Prop where
  sys : ∀ id, row cfg s.sys.files id = none
  requests : s.requests = fun _ => {}
  entries : s.entries = []
  rows : s.rows = []
  jobs : s.jobs = []
  reads : s.reads = []
  intents : s.intents = []

theorem Start.inv (h : Start cfg s) : Inv cfg canonicalIntent s where
  request rid := by
    have hstart : Request.Start cfg rid (s.view rid) :=
      { slot := by simp [World.view, h.requests]
        holder := by simp [World.view, h.requests]
        minted := by simp [World.view, h.requests]
        registered := by simp [World.view, h.requests]
        rows := fun id e he => by simp [World.view, h.sys] at he }
    exact hstart.inv
  unique j hj := by simp [h.jobs] at hj
  minted rid id hid := by simp [h.requests] at hid
  claimed rid := ⟨fun a ha => by simp [World.view, h.requests] at ha,
    fun a ha => by simp [World.view, h.requests] at ha⟩
  held rid r hr := by simp [h.requests] at hr
  origin j hj := by simp [h.jobs] at hj
  rows e he := by simp [h.rows] at he
  registered e he := by simp [h.rows] at he
  stored id e he := by simp [h.sys] at he
  reads e he := by simp [h.reads] at he
  entries e he := by simp [h.entries] at he

/-! ## Rows -/

/-- A row whose lineage is that of a registered one has the request of its job. -/
theorem Inv.requestId_of_minted (h : Inv cfg canonicalIntent s) {r : JobEntry} (hr : r ∈ s.rows)
    {rid : String} (hm : r.jobId ∈ (s.requests rid).minted) : r.requestId = some rid := by
  obtain ⟨retry, hj⟩ := h.minted rid r.jobId hm
  exact congrArg Lineage.requestId (h.unique _ (h.rows r hr) _ hj rfl)

/-- A row is rewritten within its lineage. -/
theorem Inv.saveRow (h : Inv cfg canonicalIntent s) {entry : JobEntry}
    (hl : ∃ r ∈ s.rows, r.lineage = entry.lineage) (w : WriteOutcome) :
    Inv cfg canonicalIntent (s.saveRow cfg entry w) := by
  obtain ⟨r, hr, hrl⟩ := hl
  have hid : r.jobId = entry.jobId := congrArg Lineage.jobId hrl
  have hreq : r.requestId = entry.requestId := congrArg Lineage.requestId hrl
  refine { unique := h.unique, minted := h.minted, claimed := h.claimed, held := h.held
           origin := h.origin, rows := h.rows, registered := h.registered, reads := h.reads
           entries := h.entries, request := fun rid => ?_, stored := fun id e he => ?_ }
  · refine (h.request rid).saveRow (fun hq => ?_) (fun hm => ?_) (fun j hj => hj)
      (h.request rid).registered w
    · rw [← hid]
      exact h.registered r hr rid (hreq.trans hq)
    · rw [← hreq]
      exact h.requestId_of_minted hr (hid ▸ hm)
  · rcases s.sys.toDisk.save_lineage cfg entry s.sys.clock w he with he | ⟨-, hl⟩
    · exact h.stored id e he
    · exact ⟨r, hr, hrl.trans hl.symm⟩

/-- A stored row is read, or a row that was just written. -/
theorem Inv.seen (h : Inv cfg canonicalIntent s) {e : JobEntry}
    (hl : ∃ r ∈ s.rows, r.lineage = e.lineage) :
    Inv cfg canonicalIntent (s.seen e) :=
  { request := h.request, unique := h.unique, minted := h.minted, claimed := h.claimed, held := h.held
    rows := h.rows, registered := h.registered, stored := h.stored
    origin := fun j hj => (h.origin j hj).mono fun e' he' => List.mem_cons_of_mem e he'
    reads := fun e' he' => by
      rcases List.mem_cons.mp he' with rfl | he'
      · exact hl
      · exact h.reads e' he'
    entries := fun e' he' => by
      rcases List.mem_cons.mp he' with rfl | he'
      · exact List.mem_cons_self
      · exact List.mem_cons_of_mem e (h.entries e' he') }

/-- The pass forgets some of its rows. -/
theorem Inv.forget (h : Inv cfg canonicalIntent s) {entries : List JobEntry}
    (hsub : ∀ e ∈ entries, e ∈ s.entries) (n : Nat) :
    Inv cfg canonicalIntent { s with entries := entries, submitted := n } :=
  { request := h.request, unique := h.unique, minted := h.minted, claimed := h.claimed, held := h.held
    origin := h.origin, rows := h.rows, registered := h.registered, stored := h.stored
    reads := h.reads, entries := fun e he => h.entries e (hsub e he) }

theorem stored_of_load {files : Registry} {id : JobId} {e : JobEntry}
    (hl : load cfg files id = .ok (some e)) : row cfg files id = some e := by
  simp [row, hl, Except.toOption]

/-- What a fence does: nothing, or the pass gets the stored row, or the row is written with its
finality and, if the write returns, the pass gets that. -/
theorem fence_cases (cfg : HeadConfig) (s : World) (id : JobId) (w : WriteOutcome) :
    s.fence cfg id w = s ∨
      (∃ e, row cfg s.sys.files id = some e ∧ s.fence cfg id w = s.seen e) ∨
      ∃ cur e, row cfg s.sys.files id = some cur ∧ finalizeWrite cur s.sys.clock = some e ∧
        (s.fence cfg id w = s.saveRow cfg e w ∨
          (s.sys.toDisk.save cfg e s.sys.clock w).1 = .ok () ∧
            s.fence cfg id w = (s.saveRow cfg e w).seen e) := by
  unfold World.fence
  split
  · exact .inl rfl
  · exact .inl rfl
  · rename_i cur hl
    split
    · exact .inr (.inl ⟨cur, stored_of_load hl, rfl⟩)
    · rename_i e hf
      refine .inr (.inr ⟨cur, e, stored_of_load hl, hf, ?_⟩)
      split
      · exact .inl rfl
      · rename_i hok
        exact .inr ⟨hok, rfl⟩

/-- What a marker does: at most one row is written, and the pass goes on to the next row. -/
theorem mark_cases (cfg : HeadConfig) (s : World) (e : JobEntry) (replacement : JobId)
    (w : WriteOutcome) :
    ∃ s₁, s.mark cfg e replacement w =
        { s₁ with submitted := s.submitted + 1, entries := s₁.entries.erase e } ∧
      (s₁ = s ∨ ∃ cur, row cfg s.sys.files e.jobId = some cur ∧
        s₁ = s.saveRow cfg { cur with retriedBy := some replacement } w) := by
  unfold World.mark
  dsimp only
  split
  · exact ⟨s, rfl, .inl rfl⟩
  · exact ⟨s, rfl, .inl rfl⟩
  · rename_i cur hl
    split
    · exact ⟨s, rfl, .inl rfl⟩
    · exact ⟨_, rfl, .inr ⟨cur, stored_of_load hl, rfl⟩⟩

theorem Inv.fence (h : Inv cfg canonicalIntent s) (id : JobId) (w : WriteOutcome) :
    Inv cfg canonicalIntent (s.fence cfg id w) := by
  rcases fence_cases cfg s id w with heq | ⟨e, he, heq⟩ | ⟨cur, e, hcur, hf, hrest⟩
  · rw [heq]
    exact h
  · rw [heq]
    exact h.seen (h.stored id e he)
  · obtain ⟨r, hr, hrl⟩ := h.stored id cur hcur
    obtain ⟨-, he⟩ := Request.finalizeWrite_some hf
    have hel : ∃ r ∈ s.rows, r.lineage = e.lineage := ⟨r, hr, he ▸ hrl⟩
    rcases hrest with heq | ⟨-, heq⟩
    · rw [heq]
      exact h.saveRow hel w
    · rw [heq]
      exact (h.saveRow hel w).seen hel

theorem Inv.mark (h : Inv cfg canonicalIntent s) (e : JobEntry) (replacement : JobId)
    (w : WriteOutcome) : Inv cfg canonicalIntent (s.mark cfg e replacement w) := by
  obtain ⟨s₁, heq, hs₁⟩ := mark_cases cfg s e replacement w
  have h₁ : Inv cfg canonicalIntent s₁ := by
    rcases hs₁ with rfl | ⟨cur, hcur, rfl⟩
    · exact h
    · obtain ⟨r, hr, hrl⟩ := h.stored _ cur hcur
      have hel : ∃ r ∈ s.rows, r.lineage = { cur with retriedBy := some replacement }.lineage :=
        ⟨r, hr, hrl⟩
      exact h.saveRow hel w
  rw [heq]
  exact h₁.forget (fun e' he' => List.mem_of_mem_erase he') _

/-! ## Claims -/

theorem fence_lineage {w : WriteOutcome} {ds : List JobId} {k : Sys} {id : JobId} {e' : JobEntry}
    (h : row cfg (Request.fenceDependencies cfg w ds k).2.files id = some e') :
    ∃ e, row cfg k.files id = some e ∧ e'.lineage = e.lineage := by
  induction ds generalizing k with
  | nil => exact ⟨e', h, rfl⟩
  | cons d ds ih =>
    simp only [Request.fenceDependencies] at h
    split at h
    · exact ⟨e', h, rfl⟩
    · rename_i cur hl
      split at h
      · exact ih h
      · rename_i f hf
        obtain ⟨c, rfl, hf⟩ := Option.bind_eq_some_iff.mp hf
        obtain ⟨-, hfe⟩ := Request.finalizeWrite_some hf
        have hcf : f.lineage = c.lineage := hfe ▸ rfl
        have hfd : f.jobId = d := (congrArg Lineage.jobId hcf).trans (row_jobId (stored_of_load hl))
        -- a row after the save is an old one or the fenced one, which has the lineage of its old row
        have hsave : ∀ {e₁ : JobEntry}, row cfg (k.toDisk.save cfg f k.clock w).2.files id = some e₁ →
            ∃ e, row cfg k.files id = some e ∧ e₁.lineage = e.lineage := by
          intro e₁ he₁
          rcases k.toDisk.save_lineage cfg f k.clock w he₁ with he₁ | ⟨hid, hl₁⟩
          · exact ⟨e₁, he₁, rfl⟩
          · exact ⟨c, (hid.trans hfd) ▸ stored_of_load hl, hl₁.trans hcf⟩
        split at h
        · rename_i m k' heq
          rw [heq] at hsave
          exact hsave h
        · rename_i k' heq
          rw [heq] at hsave
          obtain ⟨e₁, he₁, hl₁⟩ := ih h
          obtain ⟨e, he, hle⟩ := hsave he₁
          exact ⟨e, he, hl₁.trans hle⟩

theorem view_put_self (s : World) (rid : String) (q : Request.World) (o : Option Intent) :
    (s.put rid q o).view rid = q := by
  simp [World.view, World.put]

theorem view_put_of_ne (s : World) {rid rid' : String} (hne : rid' ≠ rid) (q : Request.World)
    (o : Option Intent) : (s.put rid q o).view rid' = { s.view rid' with sys := q.sys } := by
  simp [World.view, World.put, Function.update_of_ne hne]

theorem free_iff {rid : String} {newJob : JobId} : s.free cfg rid newJob = true ↔
    (s.requests rid).holder = none ∧ row cfg s.sys.files newJob = none ∧
      ∀ j ∈ s.jobs, j.jobId ≠ newJob := by
  simp [World.free, and_assoc]

theorem Inv.claim (h : Inv cfg canonicalIntent s) {rid : String} {x : Intent} {newJob : JobId}
    (hfree : s.free cfg rid newJob = true) (horigin : Origin s.reads ⟨newJob, some rid, x.retry⟩)
    (w : WriteOutcome) (w₁ w₂ : Write) :
    Inv cfg canonicalIntent (s.claim cfg canonicalIntent rid x newJob w w₁ w₂) := by
  obtain ⟨hholder, hrow, hfresh⟩ := free_iff.mp hfree
  have hinv := h.request rid
  obtain ⟨hsub, hsys⟩ := submit_submitted hinv
    { intent := canonicalIntent x, dependencies := x.dependencies } newJob w w₁ w₂
  have hnext := hinv.submit hholder
    { intent := canonicalIntent x, dependencies := x.dependencies } hrow w w₁ w₂
  unfold World.claim
  dsimp only at hsub hsys hnext ⊢
  generalize hq : ((s.view rid).submit cfg rid
    { intent := canonicalIntent x, dependencies := x.dependencies } newJob w w₁ w₂).2 = q at *
  have hjobs : ∀ {j : Lineage}, j ∈ s.jobs → j ∈ ⟨newJob, some rid, x.retry⟩ :: s.jobs :=
    List.mem_cons_of_mem _
  have hclaimed : ∀ rid' i, Claimed canonicalIntent s rid' i → Claimed canonicalIntent
      { s.put rid q (some x) with jobs := ⟨newJob, some rid, x.retry⟩ :: s.jobs
                                  intents := x :: s.intents } rid' i :=
    fun rid' i ⟨y, hy, hd, hj⟩ => ⟨y, List.mem_cons_of_mem x hy, hd, hjobs hj⟩
  refine { request := fun rid' => ?_, unique := fun j hj j' hj' hid => ?_, minted := fun rid' id hid => ?_
           claimed := fun rid' => ?_, held := fun rid' r hr => ?_, origin := fun j hj => ?_
           rows := fun e he => hjobs (h.rows e he), registered := fun e he rid' hq' => ?_
           stored := fun id e he => ?_, reads := h.reads, entries := h.entries }
  · rcases eq_or_ne rid' rid with rfl | hne
    · show Request.Inv cfg rid' ((s.put rid' q (some x)).view rid')
      rw [view_put_self]
      exact hnext
    · show Request.Inv cfg rid' ((s.put rid q (some x)).view rid')
      rw [view_put_of_ne s hne, hsys]
      exact (h.request rid').fence w _
  · rcases List.mem_cons.mp hj with rfl | hj
    · rcases List.mem_cons.mp hj' with rfl | hj'
      · rfl
      · exact absurd hid.symm (hfresh j' hj')
    · rcases List.mem_cons.mp hj' with rfl | hj'
      · exact absurd hid (hfresh j hj)
      · exact h.unique j hj j' hj' hid
  · rcases eq_or_ne rid' rid with rfl | hne
    · simp only [World.put, Function.update_self] at hid
      rcases hsub.minted id hid with rfl | hid
      · exact ⟨x.retry, List.mem_cons_self⟩
      · obtain ⟨r, hr⟩ := h.minted rid' id hid
        exact ⟨r, hjobs hr⟩
    · simp only [World.put, Function.update_of_ne hne] at hid
      obtain ⟨r, hr⟩ := h.minted rid' id hid
      exact ⟨r, hjobs hr⟩
  · have hold : AllIdentity (Claimed canonicalIntent
        { s.put rid q (some x) with jobs := ⟨newJob, some rid, x.retry⟩ :: s.jobs
                                    intents := x :: s.intents } rid') (s.view rid') :=
      (h.claimed rid').mono fun r hr => hclaimed rid' r.identity hr
    show AllIdentity _ ((s.put rid q (some x)).view rid')
    rcases eq_or_ne rid' rid with rfl | hne
    · rw [view_put_self]
      exact hsub.all _ hold ⟨x, List.mem_cons_self, rfl, List.mem_cons_self⟩
    · rw [view_put_of_ne s hne]
      exact hold
  · rcases eq_or_ne rid' rid with rfl | hne
    · simp only [World.put, Function.update_self] at hr ⊢
      exact ⟨x, List.mem_cons_self, rfl, (hsub.holder hholder r hr).symm⟩
    · simp only [World.put, Function.update_of_ne hne] at hr ⊢
      obtain ⟨y, hy, hrest⟩ := h.held rid' r hr
      exact ⟨y, List.mem_cons_of_mem x hy, hrest⟩
  · rcases List.mem_cons.mp hj with rfl | hj
    · exact horigin
    · exact h.origin j hj
  · have hmem := h.registered e he rid' hq'
    rcases eq_or_ne rid' rid with rfl | hne
    · simp only [World.put, Function.update_self]
      rw [hsub.registered]
      exact hmem
    · simpa only [World.put, Function.update_of_ne hne] using hmem
  · have he' : row cfg q.sys.files id = some e := he
    rw [hsys] at he'
    obtain ⟨e₀, he₀, hl⟩ := fence_lineage he'
    obtain ⟨r, hr, hrl⟩ := h.stored id e₀ he₀
    exact ⟨r, hr, hrl.trans hl.symm⟩

/-! ## Steps keep the invariant -/

/-- SHA-256 has told the submitted intents apart. -/
def NoCollision (canonicalIntent : Intent → String) (s : World) : Prop :=
  ∀ x ∈ s.intents, ∀ y ∈ s.intents, canonicalIntent x = canonicalIntent y → x = y

theorem Inv.recordOnly (h : Inv cfg canonicalIntent s) {rid : String} {op : Request.Op}
    (hop : recordOnly op = true) {q : Request.World}
    (hq : Request.step cfg sha256 rid (s.view rid) op = some q) :
    Inv cfg canonicalIntent (s.put rid q (s.requests rid).active) := by
  have hk := recordOnly_step (h.request rid) hop hq
  have hsys : q.sys = s.sys := hk.sys
  refine { request := fun rid' => ?_, unique := h.unique, minted := fun rid' => ?_
           claimed := fun rid' => ?_, held := fun rid' r hr => ?_, origin := h.origin, rows := h.rows
           registered := fun e he rid' hq' => ?_, stored := fun id e he => ?_, reads := h.reads
           entries := h.entries }
  · rcases eq_or_ne rid' rid with rfl | hne
    · rw [view_put_self]
      exact Request.step_inv (h.request rid') hq
    · rw [view_put_of_ne s hne, hsys]
      exact h.request rid'
  · rcases eq_or_ne rid' rid with rfl | hne
    · simp only [World.put, Function.update_self]
      rw [hk.minted]
      exact h.minted rid'
    · simpa only [World.put, Function.update_of_ne hne] using h.minted rid'
  · rcases eq_or_ne rid' rid with rfl | hne
    · rw [view_put_self]
      exact hk.all _ (h.claimed rid')
    · rw [view_put_of_ne s hne]
      exact h.claimed rid'
  · rcases eq_or_ne rid' rid with rfl | hne
    · simp only [World.put, Function.update_self] at hr ⊢
      exact h.held rid' r (hk.holder r hr)
    · simp only [World.put, Function.update_of_ne hne] at hr ⊢
      exact h.held rid' r hr
  · have hmem := h.registered e he rid' hq'
    rcases eq_or_ne rid' rid with rfl | hne
    · simp only [World.put, Function.update_self]
      rw [hk.registered]
      exact hmem
    · simpa only [World.put, Function.update_of_ne hne] using hmem
  · have he' : row cfg q.sys.files id = some e := he
    rw [hsys] at he'
    exact h.stored id e he'

/-- What the submission that holds the lock may register is the row of the job that was drawn for
the record. -/
theorem Inv.held_lineage (h : Inv cfg canonicalIntent s) (hno : NoCollision canonicalIntent s)
    {rid : String} {r : RequestRecord} (hr : (s.requests rid).holder = some r) :
    ∃ x, (s.requests rid).active = some x ∧ ⟨r.jobId, some rid, x.retry⟩ ∈ s.jobs ∧
      r.jobId ∈ (s.requests rid).minted := by
  obtain ⟨x, hx, hactive, hdigest⟩ := h.held rid r hr
  obtain ⟨d, hd, hid⟩ := (h.request rid).holder r hr
  obtain ⟨y, hy, hdigest', hj⟩ := (h.claimed rid).durable d hd
  have hsame : d.intentSha256 = r.intentSha256 := congrArg (·.2.1) hid
  have hjob : d.jobId = r.jobId := congrArg (·.2.2.1) hid
  obtain rfl : x = y := hno x hx y hy (hdigest.trans (hsame.symm.trans hdigest'.symm))
  refine ⟨x, hactive, hjob ▸ hj, ?_⟩
  rw [← hjob]
  exact ((h.request rid).named.durable d hd).2

/-- A registration hands the row of the held record to `save`. -/
theorem register_some {rid : String} {entry : JobEntry} {w : WriteOutcome} {q q' : Request.World}
    (h : Request.step cfg sha256 rid q (.register entry w) = some q') :
    ∃ r, q.holder = some r ∧ entry.jobId = r.jobId ∧ entry.requestId = some rid ∧
      q' = { q.saveRow cfg entry w with registered := entry.jobId :: q.registered } := by
  simp only [Request.step] at h
  split at h
  · cases h
  · rename_i r hr
    split at h
    · rename_i hc
      simp only [Bool.and_eq_true, decide_eq_true_eq] at hc
      cases h
      exact ⟨r, hr, hc.1.1, hc.1.2, rfl⟩
    · cases h

theorem Inv.register (h : Inv cfg canonicalIntent s) (hno : NoCollision canonicalIntent s)
    {rid : String} {entry : JobEntry} {w : WriteOutcome} {q : Request.World}
    (hretry : (s.requests rid).active.all (·.retry = entry.retry) = true)
    (hq : Request.step cfg sha256 rid (s.view rid) (.register entry w) = some q) :
    Inv cfg canonicalIntent
      { s.put rid q (s.requests rid).active with rows := entry :: s.rows } := by
  have hnext := Request.step_inv (h.request rid) hq
  obtain ⟨r, hr, hjob, hreq, hqe⟩ := register_some hq
  have hsys : q.sys = (s.saveRow cfg entry w).sys := hqe ▸ rfl
  have hslot : q.slot = (s.requests rid).slot := hqe ▸ rfl
  have hminted : q.minted = (s.requests rid).minted := hqe ▸ rfl
  have hholder : q.holder = (s.requests rid).holder := hqe ▸ rfl
  have hregistered : q.registered = entry.jobId :: (s.requests rid).registered := hqe ▸ rfl
  obtain ⟨x, hactive, hdrawn, -⟩ := h.held_lineage hno hr
  have hx : x.retry = entry.retry := by simpa [hactive] using hretry
  have hlineage : entry.lineage ∈ s.jobs := by
    have heq : entry.lineage = ⟨r.jobId, some rid, x.retry⟩ := by
      simp [JobEntry.lineage, hjob, hreq, hx]
    exact heq ▸ hdrawn
  refine { request := fun rid' => ?_, unique := h.unique, minted := fun rid' => ?_
           claimed := fun rid' => ?_, held := fun rid' r hr => ?_, origin := h.origin
           rows := fun e he => ?_, registered := fun e he rid' hq' => ?_
           stored := fun id e he => ?_, reads := fun e he => ?_, entries := h.entries }
  · show Request.Inv cfg rid' ((s.put rid q (s.requests rid).active).view rid')
    rcases eq_or_ne rid' rid with rfl | hne
    · rw [view_put_self]
      exact hnext
    · rw [view_put_of_ne s hne, hsys]
      refine (h.request rid').saveRow (fun hq' => ?_) (fun hm => ?_) (fun j hj => hj)
        (h.request rid').registered w
      · exact absurd (Option.some.inj (hq'.symm.trans hreq)) hne
      · obtain ⟨retry, hj⟩ := h.minted rid' entry.jobId hm
        exact congrArg Lineage.requestId (h.unique _ hlineage _ hj rfl)
  · rcases eq_or_ne rid' rid with rfl | hne
    · simpa only [World.put, Function.update_self, hminted] using h.minted rid'
    · simpa only [World.put, Function.update_of_ne hne] using h.minted rid'
  · show AllIdentity _ ((s.put rid q (s.requests rid).active).view rid')
    rcases eq_or_ne rid' rid with rfl | hne
    · rw [view_put_self, AllIdentity, hslot]
      exact h.claimed rid'
    · rw [view_put_of_ne s hne]
      exact h.claimed rid'
  · rcases eq_or_ne rid' rid with rfl | hne
    · simp only [World.put, Function.update_self, hholder] at hr ⊢
      exact h.held rid' r hr
    · simp only [World.put, Function.update_of_ne hne] at hr ⊢
      exact h.held rid' r hr
  · rcases List.mem_cons.mp he with rfl | he
    · exact hlineage
    · exact h.rows e he
  · rcases List.mem_cons.mp he with rfl | he
    · obtain rfl : rid = rid' := Option.some.inj (hreq.symm.trans hq')
      simp only [World.put, Function.update_self, hregistered]
      exact List.mem_cons_self
    · have hmem := h.registered e he rid' hq'
      rcases eq_or_ne rid' rid with rfl | hne
      · simp only [World.put, Function.update_self, hregistered]
        exact List.mem_cons_of_mem _ hmem
      · simpa only [World.put, Function.update_of_ne hne] using hmem
  · have he' : row cfg q.sys.files id = some e := he
    rw [hsys] at he'
    rcases s.sys.toDisk.save_lineage cfg entry s.sys.clock w he' with he | ⟨-, hl⟩
    · obtain ⟨r', hr', hrl⟩ := h.stored id e he
      exact ⟨r', List.mem_cons_of_mem _ hr', hrl⟩
    · exact ⟨entry, List.mem_cons_self, hl.symm⟩
  · obtain ⟨r', hr', hrl⟩ := h.reads e he
    exact ⟨r', List.mem_cons_of_mem _ hr', hrl⟩

/-- A submission without a request id. -/
theorem Inv.submitOnce (h : Inv cfg canonicalIntent s) {entry : JobEntry} (w : WriteOutcome)
    (hreq : entry.requestId = none) (hfresh : ∀ j ∈ s.jobs, j.jobId ≠ entry.jobId)
    (horigin : Origin s.reads entry.lineage) :
    Inv cfg canonicalIntent { s.saveRow cfg entry w with
      rows := entry :: s.rows, jobs := entry.lineage :: s.jobs } := by
  have hjobs : ∀ {j : Lineage}, j ∈ s.jobs → j ∈ entry.lineage :: s.jobs := List.mem_cons_of_mem _
  refine { request := fun rid => ?_, unique := fun j hj j' hj' hid => ?_, minted := fun rid id hid => ?_
           claimed := fun rid => ?_, held := h.held, origin := fun j hj => ?_, rows := fun e he => ?_
           registered := fun e he rid hq => ?_, stored := fun id e he => ?_, reads := fun e he => ?_
           entries := h.entries }
  · refine (h.request rid).saveRow (fun hq => ?_) (fun hm => ?_) (fun j hj => hj)
      (h.request rid).registered w
    · rw [hreq] at hq
      cases hq
    · obtain ⟨retry, hj⟩ := h.minted rid entry.jobId hm
      exact absurd rfl (hfresh _ hj)
  · rcases List.mem_cons.mp hj with rfl | hj
    · rcases List.mem_cons.mp hj' with rfl | hj'
      · rfl
      · exact absurd hid.symm (hfresh j' hj')
    · rcases List.mem_cons.mp hj' with rfl | hj'
      · exact absurd hid (hfresh j hj)
      · exact h.unique j hj j' hj' hid
  · obtain ⟨r, hr⟩ := h.minted rid id hid
    exact ⟨r, hjobs hr⟩
  · exact (h.claimed rid).mono fun r ⟨x, hx, hd, hj⟩ => ⟨x, hx, hd, hjobs hj⟩
  · rcases List.mem_cons.mp hj with rfl | hj
    · exact horigin
    · exact h.origin j hj
  · rcases List.mem_cons.mp he with rfl | he
    · exact List.mem_cons_self
    · exact hjobs (h.rows e he)
  · rcases List.mem_cons.mp he with rfl | he
    · rw [hreq] at hq
      cases hq
    · exact h.registered e he rid hq
  · rcases s.sys.toDisk.save_lineage cfg entry s.sys.clock w he with he | ⟨-, hl⟩
    · obtain ⟨r, hr, hrl⟩ := h.stored id e he
      exact ⟨r, List.mem_cons_of_mem _ hr, hrl⟩
    · exact ⟨entry, List.mem_cons_self, hl.symm⟩
  · obtain ⟨r, hr, hrl⟩ := h.reads e he
    exact ⟨r, List.mem_cons_of_mem _ hr, hrl⟩

/-- Only the registry and the clock change, and no row appears. -/
theorem Inv.withSys (h : Inv cfg canonicalIntent s) {k : Sys}
    (hreq : ∀ rid, Request.Inv cfg rid { s.view rid with sys := k })
    (hrow : ∀ id e, row cfg k.files id = some e → row cfg s.sys.files id = some e) :
    Inv cfg canonicalIntent { s with sys := k } :=
  { request := hreq, unique := h.unique, minted := h.minted, claimed := h.claimed, held := h.held
    origin := h.origin, rows := h.rows, registered := h.registered
    stored := fun id e he => h.stored id e (hrow id e he), reads := h.reads, entries := h.entries }

theorem Inv.crash (h : Inv cfg canonicalIntent s) : Inv cfg canonicalIntent
    { s with
      requests := fun rid =>
        { s.requests rid with slot := (s.requests rid).slot.crash, holder := none }
      entries := []
      submitted := 0 } where
  request rid := @Request.step_inv cfg id rid _ _ .crash (h.request rid) rfl
  unique := h.unique
  minted := h.minted
  claimed rid := (h.claimed rid).crash
  held rid r hr := by simp at hr
  origin := h.origin
  rows := h.rows
  registered := h.registered
  stored := h.stored
  reads := h.reads
  entries e he := by simp at he

/-- A retry stops before the request or comes to its claim. -/
theorem retry_some {e : JobEntry} {payload : String} {newJob : JobId} {w : WriteOutcome}
    {w₁ w₂ : Write} (h : s.retry cfg canonicalIntent e payload newJob w w₁ w₂ = some s') :
    s' = s ∨ validRetry (retrySpecFromEntry e) = true ∧
      s.free cfg (retryRequestId e) newJob = true ∧ s' = s.claim cfg canonicalIntent (retryRequestId e)
        { retry := retrySpecFromEntry e, payload := payload } newJob w w₁ w₂ := by
  unfold World.retry at h
  dsimp only at h
  split at h
  · exact .inl (Option.some.inj h).symm
  · rename_i hvalid
    split at h
    · exact .inl (Option.some.inj h).symm
    · exact .inl (Option.some.inj h).symm
    · split at h
      · exact .inl (Option.some.inj h).symm
      · split at h
        · rename_i hfree
          exact .inr ⟨by simpa using hvalid, hfree, (Option.some.inj h).symm⟩
        · cases h

theorem step_inv {a : Op} (h : Inv cfg canonicalIntent s)
    (hs : step cfg sha256 canonicalIntent s a = some s') (hno : NoCollision canonicalIntent s) :
    Inv cfg canonicalIntent s' := by
  cases a with
  | submit rid x newJob w w₁ w₂ =>
    simp only [step] at hs
    split at hs
    · rename_i hc
      simp only [Bool.and_eq_true, Option.isNone_iff_eq_none, decide_eq_true_eq] at hc
      obtain ⟨⟨⟨hvalid, hof⟩, hcount⟩, hfree⟩ := hc
      cases hs
      exact h.claim hfree ⟨hvalid, .inl ⟨hof, hcount⟩⟩ w w₁ w₂
    · cases hs
  | submitOnce entry w =>
    simp only [step] at hs
    split at hs
    · rename_i hc
      simp only [Bool.and_eq_true, Option.isNone_iff_eq_none, decide_eq_true_eq,
        Bool.not_eq_true', List.any_eq_false] at hc
      obtain ⟨⟨⟨⟨⟨hvalid, hof⟩, hcount⟩, hreq⟩, -⟩, hfresh⟩ := hc
      cases hs
      exact h.submitOnce w hreq hfresh ⟨hvalid, .inl ⟨hof, hcount⟩⟩
    · cases hs
  | register rid entry w =>
    simp only [step] at hs
    split at hs
    · rename_i hretry
      obtain ⟨q, hq, rfl⟩ := Option.map_eq_some_iff.mp hs
      exact h.register hno hretry hq
    · cases hs
  | request rid op =>
    simp only [step] at hs
    split at hs
    · rename_i hop
      obtain ⟨q, hq, rfl⟩ := Option.map_eq_some_iff.mp hs
      exact h.recordOnly hop hq
    · cases hs
  | pass =>
    cases hs
    exact h.forget (fun e he => by simp at he) 0
  | read id =>
    obtain ⟨e, he, rfl⟩ := Option.map_eq_some_iff.mp hs
    exact h.seen (h.stored id e he)
  | fence e w =>
    simp only [step] at hs
    split at hs <;> cases hs
    exact h.fence e.jobId w
  | retry e payload newJob w w₁ w₂ =>
    simp only [step] at hs
    split at hs
    · rename_i hc
      simp only [Bool.and_eq_true, List.contains_iff_mem, Option.isNone_iff_eq_none] at hc
      obtain ⟨⟨hmem, hok⟩, -⟩ := hc
      rcases retry_some hs with rfl | ⟨hvalid, hfree, rfl⟩
      · exact h
      · exact h.claim hfree ⟨hvalid, .inr ⟨e, h.entries e hmem, hok, rfl, rfl⟩⟩ w w₁ w₂
    · cases hs
  | mark e replacement w =>
    simp only [step] at hs
    split at hs <;> cases hs
    exact h.mark e replacement w
  | rewrite entry w =>
    simp only [step] at hs
    split at hs
    · rename_i hc
      cases hs
      obtain ⟨r, hr, hl⟩ := List.any_eq_true.mp hc
      exact h.saveRow ⟨r, hr, of_decide_eq_true hl⟩ w
    · cases hs
  | remove id w =>
    cases hs
    refine h.withSys (fun rid => @Request.step_inv cfg sha256 rid _ _ (.remove id w) (h.request rid) rfl)
      fun j e he => ?_
    rcases eq_or_ne j id with rfl | hne
    · exact s.sys.toDisk.remove_row cfg s.sys.clock w he
    · rwa [s.sys.toDisk.remove_row_ne cfg s.sys.clock w hne] at he
  | tick dt =>
    simp only [step] at hs
    split at hs
    · rename_i hdt
      cases hs
      exact h.withSys (fun rid => @Request.step_inv cfg sha256 rid _ _ (.tick dt) (h.request rid) (if_pos hdt))
        fun id e he => he
    · cases hs
  | crash =>
    cases hs
    exact h.crash

/-! ## Runs -/

theorem step_intents {a : Op} (hs : step cfg sha256 canonicalIntent s a = some s') :
    ∀ x ∈ s.intents, x ∈ s'.intents := by
  intro x hx
  cases a with
  | submit rid y newJob w w₁ w₂ =>
    simp only [step] at hs
    split at hs <;> cases hs
    exact List.mem_cons_of_mem y hx
  | submitOnce entry w =>
    simp only [step] at hs
    split at hs <;> cases hs
    exact hx
  | register rid entry w =>
    simp only [step] at hs
    split at hs
    · obtain ⟨q, -, rfl⟩ := Option.map_eq_some_iff.mp hs
      exact hx
    · cases hs
  | request rid op =>
    simp only [step] at hs
    split at hs
    · obtain ⟨q, -, rfl⟩ := Option.map_eq_some_iff.mp hs
      exact hx
    · cases hs
  | pass =>
    cases hs
    exact hx
  | read id =>
    obtain ⟨e, -, rfl⟩ := Option.map_eq_some_iff.mp hs
    exact hx
  | fence e w =>
    simp only [step] at hs
    split at hs <;> cases hs
    rcases fence_cases cfg s e.jobId w with heq | ⟨_, -, heq⟩ | ⟨_, _, -, -, heq | ⟨-, heq⟩⟩ <;>
      (rw [heq]; exact hx)
  | retry e payload newJob w w₁ w₂ =>
    simp only [step] at hs
    split at hs
    · rcases retry_some hs with rfl | ⟨-, -, rfl⟩
      · exact hx
      · exact List.mem_cons_of_mem _ hx
    · cases hs
  | mark e replacement w =>
    simp only [step] at hs
    split at hs <;> cases hs
    obtain ⟨s₁, heq, rfl | ⟨cur, -, rfl⟩⟩ := mark_cases cfg s e replacement w <;>
      (rw [heq]; exact hx)
  | rewrite entry w =>
    simp only [step] at hs
    split at hs <;> cases hs
    exact hx
  | remove id w =>
    cases hs
    exact hx
  | tick dt =>
    simp only [step] at hs
    split at hs <;> cases hs
    exact hx
  | crash =>
    cases hs
    exact hx

theorem run_noCollision {as : List Op} (hrun : run (step cfg sha256 canonicalIntent) s as = some s')
    (hno : NoCollision canonicalIntent s') : NoCollision canonicalIntent s := by
  have hsub : ∀ x ∈ s.intents, x ∈ s'.intents :=
    run_rel (R := fun s s' : World => ∀ x ∈ s.intents, x ∈ s'.intents) (I := fun _ => True)
      (fun _ _ hx => hx) (fun _ _ _ h h' x hx => h' x (h x hx)) (fun _ _ _ _ _ => trivial)
      (fun _ _ _ _ h => step_intents h) trivial hrun
  exact fun x hx y hy => hno x (hsub x hx) y (hsub y hy)

theorem run_inv {as : List Op} (h : Inv cfg canonicalIntent s)
    (hrun : run (step cfg sha256 canonicalIntent) s as = some s')
    (hno : NoCollision canonicalIntent s') : Inv cfg canonicalIntent s' := by
  induction as generalizing s with
  | nil =>
    simp only [run_nil, Option.some.injEq] at hrun
    exact hrun ▸ h
  | cons a as ih =>
    obtain ⟨s₁, h₁, h₂⟩ := run_cons_some.mp hrun
    exact ih (step_inv h h₁ (run_noCollision hrun hno)) h₂

/-! ## The fence of a lost attempt -/

theorem saveRow_finalLost {id : JobId} {t : Time} (h : FinalLost cfg id t s.sys) (entry : JobEntry)
    (w : WriteOutcome) : FinalLost cfg id t (s.saveRow cfg entry w).sys :=
  step_finalLost (a := .save entry w) h rfl fun w' hw => by cases hw

theorem claim_finalLost {id : JobId} {t : Time} (h : FinalLost cfg id t s.sys)
    (hinv : Inv cfg canonicalIntent s) (rid : String) (x : Intent) (newJob : JobId)
    (w : WriteOutcome) (w₁ w₂ : Write) :
    FinalLost cfg id t (s.claim cfg canonicalIntent rid x newJob w w₁ w₂).sys := by
  obtain ⟨e, he, hlost, ht⟩ := h
  obtain ⟨-, hsys⟩ := submit_submitted (hinv.request rid)
    { intent := canonicalIntent x, dependencies := x.dependencies } newJob w w₁ w₂
  have hrow := (Request.fenceDependencies_row cfg w x.dependencies.eraseDups s.sys).2 id
  show FinalLost cfg id t ((s.view rid).submit cfg rid
    { intent := canonicalIntent x, dependencies := x.dependencies } newJob w w₁ w₂).2.sys
  rw [hsys]
  rcases hrow with hr | ⟨-, e₀, f, e', he₀, hf, -⟩
  · exact ⟨e, hr.trans he, hlost, ht⟩
  · -- a row that is final is not fenced again
    obtain rfl : e = e₀ := Option.some.inj (he.symm.trans he₀)
    rw [(Request.finalizeWrite_some hf).1] at ht
    cases ht

theorem step_keeps_finalLost {a : Op} {id : JobId} {t : Time} (hinv : Inv cfg canonicalIntent s)
    (h : FinalLost cfg id t s.sys) (hs : step cfg sha256 canonicalIntent s a = some s')
    (ha : ∀ w, a ≠ .remove id w) : FinalLost cfg id t s'.sys := by
  cases a with
  | submit rid x newJob w w₁ w₂ =>
    simp only [step] at hs
    split at hs <;> cases hs
    exact claim_finalLost h hinv rid x newJob w w₁ w₂
  | submitOnce entry w =>
    simp only [step] at hs
    split at hs <;> cases hs
    exact saveRow_finalLost h entry w
  | register rid entry w =>
    simp only [step] at hs
    split at hs
    · obtain ⟨q, hq, rfl⟩ := Option.map_eq_some_iff.mp hs
      obtain ⟨r, -, -, -, hqe⟩ := register_some hq
      have hsys : q.sys = (s.saveRow cfg entry w).sys := hqe ▸ rfl
      show FinalLost cfg id t q.sys
      rw [hsys]
      exact saveRow_finalLost h entry w
    · cases hs
  | request rid op =>
    simp only [step] at hs
    split at hs
    · rename_i hop
      obtain ⟨q, hq, rfl⟩ := Option.map_eq_some_iff.mp hs
      have hsys : q.sys = s.sys := (recordOnly_step (hinv.request rid) hop hq).sys
      show FinalLost cfg id t q.sys
      rwa [hsys]
    · cases hs
  | pass =>
    cases hs
    exact h
  | read id' =>
    obtain ⟨e, -, rfl⟩ := Option.map_eq_some_iff.mp hs
    exact h
  | fence e w =>
    simp only [step] at hs
    split at hs <;> cases hs
    rcases fence_cases cfg s e.jobId w with heq | ⟨_, -, heq⟩ | ⟨_, f, -, -, heq | ⟨-, heq⟩⟩
    · rwa [heq]
    · rw [heq]
      exact h
    · rw [heq]
      exact saveRow_finalLost h f w
    · rw [heq]
      exact saveRow_finalLost h f w
  | retry e payload newJob w w₁ w₂ =>
    simp only [step] at hs
    split at hs
    · rcases retry_some hs with rfl | ⟨-, -, rfl⟩
      · exact h
      · exact claim_finalLost h hinv _ _ newJob w w₁ w₂
    · cases hs
  | mark e replacement w =>
    simp only [step] at hs
    split at hs <;> cases hs
    obtain ⟨s₁, heq, rfl | ⟨cur, -, rfl⟩⟩ := mark_cases cfg s e replacement w
    · rw [heq]
      exact h
    · rw [heq]
      exact saveRow_finalLost h _ w
  | rewrite entry w =>
    simp only [step] at hs
    split at hs <;> cases hs
    exact saveRow_finalLost h entry w
  | remove id' w =>
    cases hs
    refine step_finalLost (a := .remove id' w) h rfl fun w' hw => ha w' ?_
    cases hw
    rfl
  | tick dt =>
    simp only [step] at hs
    split at hs <;> cases hs
    exact h
  | crash =>
    cases hs
    exact h

/-- A row the pass has just read is stored as it was read: its status and its finality. -/
theorem step_reads {a : Op} {e : JobEntry} (hs : step cfg sha256 canonicalIntent s a = some s')
    (hnew : e ∉ s.reads) (he : e ∈ s'.reads) :
    ∃ e', row cfg s'.sys.files e.jobId = some e' ∧ e'.status = e.status ∧
      e'.terminalFinalizedAt = e.terminalFinalizedAt := by
  cases a with
  | submit rid x newJob w w₁ w₂ =>
    simp only [step] at hs
    split at hs <;> cases hs
    exact absurd he hnew
  | submitOnce entry w =>
    simp only [step] at hs
    split at hs <;> cases hs
    exact absurd he hnew
  | register rid entry w =>
    simp only [step] at hs
    split at hs
    · obtain ⟨q, hq, rfl⟩ := Option.map_eq_some_iff.mp hs
      exact absurd he hnew
    · cases hs
  | request rid op =>
    simp only [step] at hs
    split at hs
    · obtain ⟨q, hq, rfl⟩ := Option.map_eq_some_iff.mp hs
      exact absurd he hnew
    · cases hs
  | pass =>
    cases hs
    exact absurd he hnew
  | read id =>
    obtain ⟨e₁, he₁, rfl⟩ := Option.map_eq_some_iff.mp hs
    obtain rfl : e = e₁ := (List.mem_cons.mp he).resolve_right hnew
    exact ⟨e, (row_jobId he₁) ▸ he₁, rfl, rfl⟩
  | fence e₀ w =>
    simp only [step] at hs
    split at hs <;> cases hs
    rcases fence_cases cfg s e₀.jobId w with heq | ⟨e₁, he₁, heq⟩ | ⟨_, f, -, -, heq | ⟨hok, heq⟩⟩
    · rw [heq] at he
      exact absurd he hnew
    · rw [heq] at he ⊢
      obtain rfl : e = e₁ := (List.mem_cons.mp he).resolve_right hnew
      exact ⟨e, (row_jobId he₁) ▸ he₁, rfl, rfl⟩
    · rw [heq] at he
      exact absurd he hnew
    · rw [heq] at he ⊢
      obtain rfl : e = f := (List.mem_cons.mp he).resolve_right hnew
      obtain ⟨e', he', hsaved⟩ := Disk.save_ok hok
      exact ⟨e', he', hsaved.status, hsaved.terminalFinalizedAt⟩
  | retry e payload newJob w w₁ w₂ =>
    simp only [step] at hs
    split at hs
    · rcases retry_some hs with rfl | ⟨-, -, rfl⟩
      · exact absurd he hnew
      · exact absurd he hnew
    · cases hs
  | mark e₀ replacement w =>
    simp only [step] at hs
    split at hs <;> cases hs
    obtain ⟨s₁, heq, rfl | ⟨cur, -, rfl⟩⟩ := mark_cases cfg s e₀ replacement w <;>
      (rw [heq] at he; exact absurd he hnew)
  | rewrite entry w =>
    simp only [step] at hs
    split at hs <;> cases hs
    exact absurd he hnew
  | remove id w =>
    cases hs
    exact absurd he hnew
  | tick dt =>
    simp only [step] at hs
    split at hs <;> cases hs
    exact absurd he hnew
  | crash =>
    cases hs
    exact absurd he hnew

theorem run_finalLost {as : List Op} {id : JobId} {t : Time} (hinv : Inv cfg canonicalIntent s)
    (h : FinalLost cfg id t s.sys) (hrun : run (step cfg sha256 canonicalIntent) s as = some s')
    (hno : NoCollision canonicalIntent s') (hrem : ∀ a ∈ as, ∀ w, a ≠ .remove id w) :
    FinalLost cfg id t s'.sys := by
  induction as generalizing s with
  | nil =>
    simp only [run_nil, Option.some.injEq] at hrun
    exact hrun ▸ h
  | cons a as ih =>
    obtain ⟨s₁, h₁, h₂⟩ := run_cons_some.mp hrun
    exact ih (step_inv hinv h₁ (run_noCollision hrun hno))
      (step_keeps_finalLost hinv h h₁ (hrem a List.mem_cons_self)) h₂
      fun b hb => hrem b (List.mem_cons_of_mem a hb)

/-! ## Replacements and lineages -/

/-- What an attempt that may be retried looks like. -/
theorem retryBlockedReason_none {e : JobEntry} (h : retryBlockedReason e = none) :
    e.retryCount < e.retryLimit ∧ (e.status = .failed ∨ e.status = .lost ∨ e.status = .finished) ∧
      (e.status = .lost → e.terminalFinalizedAt.isSome) := by
  unfold retryBlockedReason at h
  split at h
  · cases h
  · split at h
    · cases h
    · split at h
      · cases h
      · rename_i hlimit
        split at h
        · cases h
        · rename_i hstatus
          split at h
          · cases h
          · split at h
            · cases h
            · rename_i hfence
              refine ⟨by omega, ?_, fun hl => ?_⟩
              · simp only [Bool.not_eq_true', Bool.or_eq_false_iff, decide_eq_false_iff_not,
                  not_and_or, not_not] at hstatus
                tauto
              · simpa [hl, Option.isSome_iff_ne_none] using hfence

/-- A row that was ever handed to `save` by a submission, or that is stored. -/
def Attempt (cfg : HeadConfig) (s : World) (e : JobEntry) : Prop :=
  e ∈ s.rows ∨ row cfg s.sys.files e.jobId = some e

theorem Inv.attempt (h : Inv cfg canonicalIntent s) {e : JobEntry} (he : Attempt cfg s e) :
    ∃ r ∈ s.rows, r.lineage = e.lineage := by
  rcases he with he | he
  · exact ⟨e, he, rfl⟩
  · exact h.stored _ e he

/-- The lineage of a replacement: the attempt it was made for, and its request. -/
theorem Inv.replacement (h : Inv cfg canonicalIntent s) {e : JobEntry} {a : JobId}
    (he : Attempt cfg s e) (ha : e.retryOf = some a) :
    ∃ src ∈ s.reads, src.jobId = a ∧ retryBlockedReason src = none ∧
      e.retry = retrySpecFromEntry src ∧
      e.jobId ∈ (s.requests (retryRequestId src)).registered := by
  obtain ⟨r, hr, hl⟩ := h.attempt he
  have hretry : r.retry = e.retry := congrArg Lineage.retry hl
  have hof : r.retryOf = some a := (congrArg RetrySpec.retryOf hretry).trans ha
  rcases (h.origin _ (h.rows r hr)).first_or_replacement with
    ⟨hnone, -⟩ | ⟨src, hsrc, hok, hspec, hreq⟩
  · rw [show r.lineage.retry.retryOf = r.retryOf from rfl, hof] at hnone
    cases hnone
  · refine ⟨src, hsrc, ?_, hok, hretry.symm.trans hspec, ?_⟩
    · have hsome : r.retryOf = some src.jobId := congrArg RetrySpec.retryOf hspec
      exact Option.some.inj (hsome.symm.trans hof)
    · rw [← show r.jobId = e.jobId from congrArg Lineage.jobId hl]
      exact h.registered r hr _ hreq

/-- The retry fields of a job are those it was submitted with. -/
theorem Inv.retry_eq (h : Inv cfg canonicalIntent s) {e e' : JobEntry}
    (he : ∃ r ∈ s.rows, r.lineage = e.lineage) (he' : ∃ r ∈ s.rows, r.lineage = e'.lineage)
    (hid : e.jobId = e'.jobId) : e.retry = e'.retry := by
  obtain ⟨r, hr, hl⟩ := he
  obtain ⟨r', hr', hl'⟩ := he'
  have hsame : r.lineage = r'.lineage := by
    refine h.unique _ (h.rows r hr) _ (h.rows r' hr') ?_
    rw [hl, hl']
    exact hid
  exact congrArg Lineage.retry ((hl.symm.trans hsame).trans hl')

theorem Inv.replacement_unique (h : Inv cfg canonicalIntent s) {e e' : JobEntry} {a : JobId}
    (he : Attempt cfg s e) (he' : Attempt cfg s e') (ha : e.retryOf = some a)
    (ha' : e'.retryOf = some a) : e.jobId = e'.jobId := by
  obtain ⟨src, hsrc, hid, -, -, hreg⟩ := h.replacement he ha
  obtain ⟨src', hsrc', hid', -, -, hreg'⟩ := h.replacement he' ha'
  have hjob : src.jobId = src'.jobId := hid.trans hid'.symm
  have hcount : src.retryCount = src'.retryCount :=
    congrArg RetrySpec.retryCount (h.retry_eq (h.reads src hsrc) (h.reads src' hsrc') hjob)
  have hrid : retryRequestId src = retryRequestId src' := by
    simp only [retryRequestId, hjob, hcount]
  -- the record that a crash would leave names the one job of the request
  obtain ⟨d, hd, hdj⟩ := (h.request _).registered _ hreg
  obtain ⟨d', hd', hdj'⟩ := (h.request _).registered _ (hrid ▸ hreg')
  obtain rfl : d = d' := Option.some.inj (hd.symm.trans hd')
  exact hdj.symm.trans hdj'

theorem Inv.successor (h : Inv cfg canonicalIntent s) {e e' : JobEntry} (he : Attempt cfg s e)
    (he' : Attempt cfg s e') (ha : e'.retryOf = some e.jobId) :
    e'.retryCount = e.retryCount + 1 ∧ e'.retryLimit = e.retryLimit ∧ e'.retryCount ≤ e'.retryLimit := by
  obtain ⟨src, hsrc, hid, hok, hspec, -⟩ := h.replacement he' ha
  have hsame : src.retry = e.retry := h.retry_eq (h.reads src hsrc) (h.attempt he) hid
  have hcount : src.retryCount = e.retryCount := congrArg RetrySpec.retryCount hsame
  have hlimit : src.retryLimit = e.retryLimit := congrArg RetrySpec.retryLimit hsame
  have hcount' : e'.retryCount = src.retryCount + 1 := congrArg RetrySpec.retryCount hspec
  have hlimit' : e'.retryLimit = src.retryLimit := congrArg RetrySpec.retryLimit hspec
  have := (retryBlockedReason_none hok).1
  omega

theorem Inv.nonneg (h : Inv cfg canonicalIntent s) {e : JobEntry} (he : Attempt cfg s e) :
    0 ≤ e.retryCount ∧ 0 ≤ e.retryLimit := by
  obtain ⟨r, hr, hl⟩ := h.attempt he
  have hretry : r.retry = e.retry := congrArg Lineage.retry hl
  have hvalid := (h.origin _ (h.rows r hr)).valid
  rw [show r.lineage.retry = e.retry from hretry] at hvalid
  simp only [validRetry, Bool.and_eq_true, decide_eq_true_eq] at hvalid
  exact ⟨hvalid.1.1.1.2, hvalid.1.1.1.1.1⟩

/-- Each attempt of the list is the replacement of the one before it. -/
abbrev IsLineage (es : List JobEntry) : Prop :=
  es.IsChain fun e e' => e'.retryOf = some e.jobId

/-- The ordinals of a lineage count up to its limit. -/
theorem Inv.lineage_length (h : Inv cfg canonicalIntent s) {e : JobEntry} {es : List JobEntry}
    (hes : ∀ x ∈ e :: es, Attempt cfg s x) (hchain : IsLineage (e :: es)) :
    es = [] ∨ e.retryCount + es.length ≤ e.retryLimit := by
  induction es generalizing e with
  | nil => exact .inl rfl
  | cons e' es ih =>
    obtain ⟨hlink, hrest⟩ := List.isChain_cons_cons.mp hchain
    obtain ⟨hcount, hlimit, hle⟩ := h.successor (hes e (by simp)) (hes e' (by simp)) hlink
    rcases ih (fun x hx => hes x (List.mem_cons_of_mem e hx)) hrest with rfl | hih
    · simp only [List.length_singleton]
      omega
    · simp only [List.length_cons]
      omega

/-! ## Lifecycle steps -/

theorem applyStatusProbe_lineage {e e' : JobEntry} {p : StatusProbe} {dir : String} {now : Time}
    (h : applyStatusProbe e p dir now = some e') : e'.lineage = e.lineage := by
  unfold applyStatusProbe markRunningFromProbe markLostFromProbe at h
  repeat' split at h
  all_goals first | cases h; rfl | cases h

/-- The row that a step carries from an earlier read. -/
def carried : Event → Option JobEntry
  | .refresh target .. | .kill target .. | .dequeue target | .gateFail target _ | .gateSkip target _
  | .gateReason target _ => some target
  | .commit candidate _ => some candidate
  | .restoreRunning placed _ | .restoreFinished placed => some placed
  | .recordCancelled killed _ => some killed
  | .finalize _ | .claim .. | .claimRefused .. => none

theorem write_lineage {ev : Event} {cur : Option JobEntry} {now : Time} {e : JobEntry}
    (h : ev.write cur now = some e) :
    ∃ c, (cur = some c ∨ carried ev = some c) ∧ e.lineage = c.lineage := by
  -- the stored row, or the carried one where the stored row is gone
  have hgetD : ∀ target, carried ev = some target →
      cur = some (cur.getD target) ∨ carried ev = some (cur.getD target) := by
    intro target ht
    cases cur with
    | none => exact .inr ht
    | some c => exact .inl rfl
  cases ev with
  | refresh target batched p dir =>
    simp only [Event.write, refreshWrite] at h
    split at h
    · cases h
    · split at h
      · cases h
      · exact ⟨_, hgetD target rfl, applyStatusProbe_lineage h⟩
  | finalize observedNow =>
    obtain ⟨c, rfl, hf⟩ := Option.bind_eq_some_iff.mp h
    obtain ⟨-, rfl⟩ := Request.finalizeWrite_some hf
    exact ⟨c, .inl rfl, rfl⟩
  | kill target sig sweep v =>
    obtain ⟨-, rfl | ⟨code, -, rfl⟩⟩ := killWrite_some h
    · exact ⟨_, hgetD target rfl, rfl⟩
    · exact ⟨_, hgetD target rfl, rfl⟩
  | dequeue target =>
    simp only [Event.write] at h
    obtain ⟨r, hr, -, rfl⟩ := onStatus_some h
    obtain rfl := Option.some.inj hr
    refine ⟨_, hgetD target rfl, ?_⟩
    unfold dequeueRow
    split <;> rfl
  | gateFail target detail =>
    simp only [Event.write] at h
    obtain ⟨r, hr, -, rfl⟩ := onStatus_some h
    exact ⟨_, hgetD target rfl, Option.some.inj hr ▸ rfl⟩
  | gateSkip target detail =>
    simp only [Event.write] at h
    obtain ⟨r, hr, -, rfl⟩ := onStatus_some h
    exact ⟨_, hgetD target rfl, Option.some.inj hr ▸ rfl⟩
  | gateReason target reason =>
    simp only [Event.write] at h
    obtain ⟨r, hr, -, rfl⟩ := onStatus_some h
    exact ⟨_, hgetD target rfl, Option.some.inj hr ▸ rfl⟩
  | claim expected node token owner =>
    simp only [Event.write] at h
    obtain ⟨r, hr, -, -, rfl⟩ := onAttempt_some h
    exact ⟨r, .inl hr, rfl⟩
  | claimRefused expected reason =>
    simp only [Event.write] at h
    obtain ⟨r, hr, -, -, rfl⟩ := onAttempt_some h
    exact ⟨r, .inl hr, rfl⟩
  | commit candidate expected =>
    simp only [Event.write] at h
    obtain ⟨r, -, -, -, rfl⟩ := commitWrite_some h
    refine ⟨candidate, .inr rfl, ?_⟩
    unfold commitDefaults
    dsimp only
    split
    · rfl
    · split <;> rfl
  | restoreRunning placed detail =>
    simp only [Event.write] at h
    split at h <;> cases h
    exact ⟨placed, .inr rfl, rfl⟩
  | restoreFinished placed =>
    simp only [Event.write] at h
    split at h
    · exact ⟨placed, .inr rfl, Option.some.inj h ▸ rfl⟩
    · cases h
  | recordCancelled killed placed =>
    simp only [Event.write] at h
    split at h <;> cases h
    exact ⟨_, hgetD killed rfl, rfl⟩

/-- A lifecycle step is a rewrite, when the row it carries comes from a registered one. -/
theorem event_rewrite (hinv : Inv cfg canonicalIntent s) {id : JobId} {ev : Event} {w : WriteOutcome}
    {k : Sys} (hcarried : ∀ c, carried ev = some c → ∃ r ∈ s.rows, r.lineage = c.lineage)
    (h : Dispatch.step cfg s.sys (.event id ev w) = some k) :
    k = s.sys ∨
      ∃ entry, step cfg sha256 canonicalIntent s (.rewrite entry w) = some { s with sys := k } := by
  simp only [Dispatch.step] at h
  split at h
  · exact .inl (Option.some.inj h).symm
  · rename_i cur hl
    split at h
    · exact .inl (Option.some.inj h).symm
    · rename_i e he
      split at h
      · obtain ⟨c, hc, hlin⟩ := write_lineage he
        have hreg : ∃ r ∈ s.rows, r.lineage = c.lineage := by
          rcases hc with rfl | hc
          · exact hinv.stored id c (stored_of_load hl)
          · exact hcarried c hc
        obtain ⟨r, hr, hrl⟩ := hreg
        refine .inr ⟨e, ?_⟩
        have hany : s.rows.any (·.lineage = e.lineage) = true :=
          List.any_eq_true.mpr ⟨r, hr, decide_eq_true (hrl.trans hlin.symm)⟩
        simp only [step, hany, if_true]
        rw [← Option.some.inj h]
        rfl
      · cases h

/-! ## At most one replacement -/

/-- In the run `bs` the row of `a` was stored as failed, finished or lost; if it was lost, its
finality was set, and it still is at the end unless the row has been removed since. -/
def Fenced (cfg : HeadConfig) (sha256 : String → String) (canonicalIntent : Intent → String)
    (s₀ : World) (bs : List Op) (a : JobId) : Prop :=
  ∃ bs₁ bs₂ k e, bs = bs₁ ++ bs₂ ∧ run (step cfg sha256 canonicalIntent) s₀ bs₁ = some k ∧
    row cfg k.sys.files a = some e ∧
    (e.status = .failed ∨ e.status = .lost ∨ e.status = .finished) ∧
    (e.status = .lost → ∃ t, e.terminalFinalizedAt = some t ∧
      ((∀ b ∈ bs₂, ∀ w, b ≠ .remove a w) → ∃ s₁,
        run (step cfg sha256 canonicalIntent) s₀ bs = some s₁ ∧ FinalLost cfg a t s₁.sys))

/-- A row that a pass has read as retryable was stored so at some point of the run. -/
theorem fenced_of_read {s₀ : World} {bs : List Op} (h₀ : Start cfg s₀)
    (hrun : run (step cfg sha256 canonicalIntent) s₀ bs = some s)
    (hno : NoCollision canonicalIntent s) {src : JobEntry} (hsrc : src ∈ s.reads)
    (hok : retryBlockedReason src = none) :
    Fenced cfg sha256 canonicalIntent s₀ bs src.jobId := by
  have hnone : src ∉ s₀.reads := by simp [h₀.reads]
  obtain ⟨bs₁, b, bs₂, k₀, k, rfl, hbs₁, hb, hnot, hread, hbs₂⟩ :=
    run_first (P := fun s : World => src ∈ s.reads) hnone hrun hsrc
  obtain ⟨e, he, hstatus, hfinal⟩ := step_reads hb hnot hread
  obtain ⟨-, hst, hlost⟩ := retryBlockedReason_none hok
  have hk : run (step cfg sha256 canonicalIntent) s₀ (bs₁ ++ [b]) = some k :=
    run_append_some.mpr ⟨k₀, hbs₁, run_cons_some.mpr ⟨k, hb, rfl⟩⟩
  refine ⟨bs₁ ++ [b], bs₂, k, e, by simp, hk, he, by rwa [hstatus], fun hl => ?_⟩
  rw [hstatus] at hl
  obtain ⟨t, ht⟩ := Option.isSome_iff_exists.mp (hlost hl)
  refine ⟨t, hfinal.trans ht, fun hrem => ⟨s, hrun, ?_⟩⟩
  have hinv : Inv cfg canonicalIntent k := run_inv h₀.inv hk (run_noCollision hbs₂ hno)
  exact run_finalLost hinv ⟨e, he, hstatus.trans hl, hfinal.trans ht⟩ hbs₂ hno hrem

/-- In every run of submissions, retry passes, crashes, status changes and removals: all rows, stored
or ever registered, that name one attempt as the one they replace belong to one job; a chain of
attempts, each the replacement of the one before, has at most one attempt more than the retry limit
it was submitted with; and a replacement is registered only after the attempt was stored as failed,
finished or lost, and with its finality set if it was lost. -/
theorem retry_at_most_once {s₀ : World} {as : List Op} (h₀ : Start cfg s₀)
    (hrun : run (step cfg sha256 canonicalIntent) s₀ as = some s)
    (hno : NoCollision canonicalIntent s) :
    (∀ e e' a, Attempt cfg s e → Attempt cfg s e' → e.retryOf = some a → e'.retryOf = some a →
        e.jobId = e'.jobId) ∧
      (∀ e es, (∀ x ∈ e :: es, Attempt cfg s x) → IsLineage (e :: es) →
        ((e :: es).length : Int) ≤ e.retryLimit + 1) ∧
      ∀ bs cs rid entry w a, as = bs ++ .register rid entry w :: cs → entry.retryOf = some a →
        Fenced cfg sha256 canonicalIntent s₀ bs a := by
  have hinv : Inv cfg canonicalIntent s := run_inv h₀.inv hrun hno
  refine ⟨fun e e' a he he' ha ha' => hinv.replacement_unique he he' ha ha',
    fun e es hes hchain => ?_, fun bs cs rid entry w a has ha => ?_⟩
  · obtain ⟨hcount, hlimit⟩ := hinv.nonneg (hes e List.mem_cons_self)
    simp only [List.length_cons, Nat.cast_add, Nat.cast_one]
    rcases hinv.lineage_length hes hchain with rfl | hle
    · simpa using hlimit
    · omega
  · subst has
    obtain ⟨s₁, hbs, hrest⟩ := run_append_some.mp hrun
    obtain ⟨s₂, hreg, hcs⟩ := run_cons_some.mp hrest
    have hno₂ : NoCollision canonicalIntent s₂ := run_noCollision hcs hno
    have hno₁ : NoCollision canonicalIntent s₁ := run_noCollision hrest hno
    have hinv₂ : Inv cfg canonicalIntent s₂ := step_inv (run_inv h₀.inv hbs hno₁) hreg hno₁
    simp only [step] at hreg
    split at hreg
    · obtain ⟨q, hq, rfl⟩ := Option.map_eq_some_iff.mp hreg
      obtain ⟨src, hsrc, rfl, hok, -⟩ := hinv₂.replacement (.inl List.mem_cons_self) ha
      exact fenced_of_read h₀ hbs hno₁ hsrc hok
    · cases hreg

/-! ## A run -/

/-- A head without jobs. -/
def sampleStart : World where
  sys := { files := fun _ => ∅, stamp := fun _ => 1, index := none, clock := 2000 }
  requests _ := {}

/-- A first attempt with a budget of one retry, and its row when the node lost it. -/
def sampleAttempt : JobEntry := { JobEntry.sample "job-1" with retryLimit := 1 }

def sampleLostAttempt : JobEntry :=
  { sampleAttempt with
    status := .lost, node := "n1", finishedAt := some 1100, resultState := some .infraFailure
    reason := some "wrapper pid 7 is not running" }

def sampleReplacement : JobEntry :=
  { JobEntry.sample "job-2" with
    createdAt := 2000, requestId := some "job-1:retry:1", retryLimit := 1, retryCount := 1
    retryOf := some "job-1", forkedFrom := some "job-1" }

/-- The lost row as the pass reads it, and as it gets it back from the fence. -/
def sampleRead : JobEntry :=
  { sampleLostAttempt with updatedAt := some 2000, storageLayout := some .role }

def sampleFenced : JobEntry := { sampleRead with terminalFinalizedAt := some 2000 }

/-- An attempt is lost, fenced and replaced; the host goes down before the marker, and the next pass
reads the attempt as one that may be retried and finds its replacement. -/
def sampleRetry : List Op :=
  [.submitOnce sampleAttempt { stamp := 2 }, .rewrite sampleLostAttempt { stamp := 3 }, .pass,
   .read "job-1", .fence sampleRead { stamp := 4 },
   .retry sampleFenced "" "job-2" { stamp := 5 } .synced .synced]

def sampleAgain : List Op :=
  [.request "job-1:retry:1" (.confirm .synced), .crash, .read "job-1",
   .retry sampleFenced "" "job-3" { stamp := 7 } .synced .synced,
   .mark sampleFenced "job-2" { stamp := 8 }]

def sampleRun : List Op :=
  sampleRetry ++ .register "job-1:retry:1" sampleReplacement { stamp := 6 } :: sampleAgain

def sampleDigest (_ : Intent) : String := Request.sampleIntent

theorem sampleStart_start : Start .sample sampleStart where
  sys id := by
    cases hr : row .sample sampleStart.sys.files id with
    | none => rfl
    | some e =>
      obtain ⟨d, -, hread⟩ := row_eq_some hr
      obtain ⟨doc, mtime, hl, -⟩ := readEntryPath_ok.mp hread
      cases hl
  requests := rfl
  entries := rfl
  rows := rfl
  jobs := rfl
  reads := rfl
  intents := rfl

theorem retry_at_most_once_sample :
    ∃ s, run (step .sample Request.sampleSha256 sampleDigest) sampleStart sampleRun = some s ∧
      NoCollision sampleDigest s ∧ Attempt .sample s sampleAttempt ∧
      Attempt .sample s sampleReplacement ∧
      ([sampleAttempt, sampleReplacement].length : Int) ≤ sampleAttempt.retryLimit + 1 ∧
      Fenced .sample Request.sampleSha256 sampleDigest sampleStart sampleRetry "job-1" ∧
      ∀ e, Attempt .sample s e → e.retryOf = some "job-1" → e.jobId = "job-2" := by
  have hrun : (run (step .sample Request.sampleSha256 sampleDigest) sampleStart sampleRun).map
      (fun s => (s.rows, s.intents)) =
      some ([sampleReplacement, sampleAttempt],
        List.replicate 2 { retry := retrySpecFromEntry sampleFenced, payload := "" }) := by
    decide +kernel
  obtain ⟨s, hs, hsome⟩ := Option.map_eq_some_iff.mp hrun
  obtain ⟨hrows, hintents⟩ := Prod.mk.inj hsome
  have hno : NoCollision sampleDigest s := by
    intro x hx y hy _
    rw [hintents] at hx hy
    rw [List.eq_of_mem_replicate hx, List.eq_of_mem_replicate hy]
  have hfirst : Attempt .sample s sampleAttempt := .inl (by simp [hrows])
  have hsecond : Attempt .sample s sampleReplacement := .inl (by simp [hrows])
  obtain ⟨hunique, hbound, hfenced⟩ := retry_at_most_once sampleStart_start hs hno
  refine ⟨s, hs, hno, hfirst, hsecond, ?_, ?_, fun e he ha => ?_⟩
  · refine hbound sampleAttempt [sampleReplacement] (fun x hx => ?_) (by simp; rfl)
    rcases List.mem_cons.mp hx with rfl | hx
    · exact hfirst
    · exact List.mem_singleton.mp hx ▸ hsecond
  · exact hfenced sampleRetry sampleAgain "job-1:retry:1" sampleReplacement { stamp := 6 } "job-1"
      rfl rfl
  · exact hunique e sampleReplacement "job-1" he hsecond ha rfl

end Dt.Submission.Retry
