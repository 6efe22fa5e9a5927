import Dt.Dispatch.Rows
import Dt.Jobs.Store
import Dt.Lib.Machine

/-!
# Lifecycle steps

The steps that rewrite the row of a job once it exists: status probes, the finalization of lost
rows, kill and dequeue, the dependency gates, claims and commits of dispatchers, and the handling
of a dequeue that raced a launch. Each holds the lock of the job, reads the stored row, and either
leaves it or hands one row to `save`, which may refuse it or fail at any point of its write.

A dispatcher's commit carries a row prepared from an older read; `commitWrite` decides with the
stored row whether it may be saved.
-/

namespace Dt.Dispatch

open Dt.Lib Dt.Jobs

/-- The verdict of a termination probe. -/
inductive Verdict where
  | dead | alive | exited (code : Option Int) | unverified
  deriving DecidableEq, Repr

/-- `_commit_queued_transition`: what is saved for a candidate that was prepared under the attempt
`expected`. -/
def commitWrite (cur : Option JobEntry) (candidate : JobEntry)
    (expected : Option String × Option String) (now : Time) : Option JobEntry :=
  match cur with
  | none => none
  | some c =>
    if c.status ≠ .queued then none
    else if attempt c ≠ expected then none
    else some (commitDefaults candidate now)

/-- The statuses a status probe looks at. -/
def probed (e : JobEntry) : Bool := e.status = .running || e.status = .lost

/-- A refresh from a probe that was taken for `target`; a batched refresh applies its evidence
only while the row still describes the process that was probed. -/
def refreshWrite (cur : Option JobEntry) (target : JobEntry) (batched : Bool) (p : StatusProbe)
    (stateDir : String) (now : Time) : Option JobEntry :=
  let e := cur.getD target
  if !probed e then none
  else if batched && (e.pgid ≠ target.pgid || e.jobDir ≠ target.jobDir) then none
  else applyStatusProbe e p stateDir now

/-- `_finalize_dependency_terminal_entry`. -/
def finalizeWrite (e : JobEntry) (observedNow : Time) : Option JobEntry :=
  if observedNow < 0 then none
  else if e.status ≠ .lost then none
  else if e.terminalFinalizedAt.isSome then none
  else if observedNow - observedAt e ≤ lostRecheckS then none
  else some { e with terminalFinalizedAt := some observedNow }

/-- `_kill_locked` after its probe. With an exit marker the status probe runs first, as a refresh
of its own; the row is rewritten here only if that refresh did not finish it. A sweep over a
terminal row asks its probe to ignore the exit marker, so it gets no `exited`; it never rewrites
the row. -/
def killWrite (e : JobEntry) (sig : String) (sweep : Bool) (v : Verdict) (now : Time) :
    Option JobEntry :=
  let terminalSweep := sweep && !isUncertainLaunch e && !probed e
  if !probed e && !isUncertainLaunch e && !terminalSweep then none
  else if terminalSweep then none
  else match v with
  | .alive | .unverified => none
  | .dead => some (killedRow e sig now)
  | .exited code => some (exitedRow e code now)

inductive Event where
  | refresh (target : JobEntry) (batched : Bool) (p : StatusProbe) (stateDir : String)
  | finalize (observedNow : Time)
  | kill (target : JobEntry) (sig : String) (sweep : Bool) (v : Verdict)
  | dequeue (target : JobEntry)
  | gateFail (target : JobEntry) (detail : String)
  | gateSkip (target : JobEntry) (detail : String)
  | gateReason (target : JobEntry) (reason : Option String)
  | claim (expected : Option String × Option String) (node token owner : String)
  | claimRefused (expected : Option String × Option String) (reason : String)
  | commit (candidate : JobEntry) (expected : Option String × Option String)
  | restoreRunning (placed : JobEntry) (detail : String)
  | restoreFinished (placed : JobEntry)
  | recordCancelled (killed placed : JobEntry)

/-- A step on the stored row, if it has the status the step asks for. -/
def onStatus (cur : Option JobEntry) (s : JobStatus) (f : JobEntry → JobEntry) :
    Option JobEntry :=
  match cur with
  | none => none
  | some c => if c.status = s then some (f c) else none

/-- A step on a queued row that still holds the expected attempt. -/
def onAttempt (cur : Option JobEntry) (expected : Option String × Option String)
    (f : JobEntry → JobEntry) : Option JobEntry :=
  match cur with
  | none => none
  | some c => if c.status = .queued && attempt c = expected then some (f c) else none

/-- `current is None or current.status == "killed"`. -/
def absentOrKilled (cur : Option JobEntry) : Bool := cur.all (·.status = .killed)

/-- The row a step hands to `save`, given the stored one. A refresh, a kill, a dequeue and
a gate carry the row that was found before the lock was taken, and fall back to it when the stored
one is gone. -/
def Event.write (cur : Option JobEntry) (now : Time) : Event → Option JobEntry
  | .refresh target batched p stateDir => refreshWrite cur target batched p stateDir now
  | .finalize observedNow => cur.bind (finalizeWrite · observedNow)
  | .kill target sig sweep v => killWrite (cur.getD target) sig sweep v now
  | .dequeue target => onStatus (some (cur.getD target)) .queued (dequeueRow · now)
  | .gateFail target detail =>
    onStatus (some (cur.getD target)) .queued (Dispatch.gateFail · detail now)
  | .gateSkip target detail =>
    onStatus (some (cur.getD target)) .queued (Dispatch.gateSkip · detail now)
  | .gateReason target reason => onStatus (some (cur.getD target)) .queued (withReason · reason)
  | .claim expected node token owner =>
    onAttempt cur expected (claimRow · node token owner now)
  | .claimRefused expected reason =>
    onAttempt cur expected (withReason · (some ("waiting: " ++ reason)))
  | .commit candidate expected => commitWrite cur candidate expected now
  | .restoreRunning placed detail =>
    if absentOrKilled cur then some (restoreRunningRow placed detail) else none
  | .restoreFinished placed => if absentOrKilled cur then some placed else none
  | .recordCancelled killed placed =>
    let c := cur.getD killed
    if c.status = .killed then some (cancelledInflightRow c placed now) else none

/-! ## What a write says about the row it was made from -/

theorem commitWrite_some {cur : Option JobEntry} {c e : JobEntry} {now : Time}
    {x : Option String × Option String} (h : commitWrite cur c x now = some e) :
    ∃ r, cur = some r ∧ r.status = .queued ∧ attempt r = x ∧ e = commitDefaults c now := by
  unfold commitWrite at h
  split at h
  · cases h
  · rename_i r
    split at h
    · cases h
    · split at h
      · cases h
      · rename_i h₁ h₂
        cases h
        exact ⟨r, rfl, not_not.mp h₁, not_not.mp h₂, rfl⟩

theorem onAttempt_some {cur : Option JobEntry} {e : JobEntry} {f : JobEntry → JobEntry}
    {x : Option String × Option String} (h : onAttempt cur x f = some e) :
    ∃ r, cur = some r ∧ r.status = .queued ∧ attempt r = x ∧ e = f r := by
  unfold onAttempt at h
  split at h
  · cases h
  · rename_i r
    split at h
    · rename_i hc
      cases h
      simp only [Bool.and_eq_true, decide_eq_true_eq] at hc
      exact ⟨r, rfl, hc.1, hc.2, rfl⟩
    · cases h

theorem onStatus_some {cur : Option JobEntry} {e : JobEntry} {f : JobEntry → JobEntry}
    {st : JobStatus} (h : onStatus cur st f = some e) :
    ∃ r, cur = some r ∧ r.status = st ∧ e = f r := by
  unfold onStatus at h
  split at h
  · cases h
  · rename_i r
    split at h
    · rename_i hc
      cases h
      exact ⟨r, rfl, hc, rfl⟩
    · cases h

/-- A kill rewrites running and lost rows and uncertain launches. -/
theorem killWrite_some {c r : JobEntry} {sig : String} {sweep : Bool} {v : Verdict} {now : Time}
    (h : killWrite c sig sweep v now = some r) :
    (c.status = .running ∨ c.status = .lost ∨ isUncertainLaunch c = true) ∧
      (r = killedRow c sig now ∨ ∃ code, v = .exited code ∧ r = exitedRow c code now) := by
  simp only [killWrite] at h
  split at h
  · cases h
  · split at h
    · cases h
    · rename_i hidle hsweep
      refine ⟨?_, ?_⟩
      · cases hu : isUncertainLaunch c with
        | true => exact .inr (.inr rfl)
        | false =>
          cases hp : probed c with
          | true =>
            simp only [probed, Bool.or_eq_true, decide_eq_true_eq] at hp
            exact hp.imp_right .inl
          | false => cases sweep <;> simp [hu, hp] at hidle hsweep
      · cases v with
        | alive => cases h
        | unverified => cases h
        | dead =>
          cases h
          exact .inl rfl
        | exited code =>
          cases h
          exact .inr ⟨code, rfl, rfl⟩

/-! ## Runs -/

structure Sys extends Disk where
  clock : Time

inductive Op where
  | tick (dt : Time)
  | event (id : JobId) (ev : Event) (w : WriteOutcome)
  | save (entry : JobEntry) (w : WriteOutcome)
  | remove (id : JobId) (w : WriteOutcome)

/-- One step. A row that cannot be loaded, a refused row and a failed write end the step with an
exception; only what reached the disk remains. -/
def step (cfg : HeadConfig) (s : Sys) : Op → Option Sys
  | .tick dt => if 0 ≤ dt then some { s with clock := s.clock + dt } else none
  | .event id ev w =>
    match load cfg s.files id with
    | .error _ => some s
    | .ok cur =>
      match ev.write cur s.clock with
      | none => some s
      | some e =>
        if e.jobId = id then some { s with toDisk := (s.toDisk.save cfg e s.clock w).2 }
        else none
  | .save entry w => some { s with toDisk := (s.toDisk.save cfg entry s.clock w).2 }
  | .remove id w => some { s with toDisk := (s.toDisk.remove cfg id s.clock w).2 }

variable {cfg : HeadConfig} {s s' : Sys}

/-- What one step does to a row: nothing; or the step is a save of the row's job, or an event of
it, whose row went through; or it removes the job. -/
theorem step_row {a : Op} (h : step cfg s a = some s') (id : JobId) :
    row cfg s'.files id = row cfg s.files id ∨
      (∃ w, a = .remove id w) ∨
      ∃ entry e, entry.jobId = id ∧ row cfg s'.files id = some e ∧ SavedAs entry s.clock e ∧
        (∀ e₀, row cfg s.files id = some e₀ → e₀.terminalFinalizedAt.isSome →
          entry.status = .lost ∧ entry.terminalFinalizedAt = e₀.terminalFinalizedAt) ∧
        ((∃ w, a = .save entry w) ∨ ∃ ev w cur, a = .event id ev w ∧
          load cfg s.files id = .ok cur ∧ ev.write cur s.clock = some entry) := by
  cases a with
  | tick dt =>
    simp only [step] at h
    split at h
    · cases h; exact .inl rfl
    · cases h
  | event id' ev w =>
    simp only [step] at h
    split at h
    · cases h; exact .inl rfl
    · rename_i cur hload
      split at h
      · cases h; exact .inl rfl
      · rename_i entry hw
        split at h
        · rename_i hid
          cases h
          rcases s.toDisk.save_row cfg entry s.clock w id with hr | ⟨rfl, e, he, hs, hf⟩
          · exact .inl hr
          · subst hid
            exact .inr (.inr ⟨entry, e, rfl, he, hs, hf, .inr ⟨ev, w, cur, rfl, hload, hw⟩⟩)
        · cases h
  | save entry w =>
    cases h
    rcases s.toDisk.save_row cfg entry s.clock w id with hr | ⟨rfl, e, he, hs, hf⟩
    · exact .inl hr
    · exact .inr (.inr ⟨entry, e, rfl, he, hs, hf, .inl ⟨w, rfl⟩⟩)
  | remove id' w =>
    cases h
    rcases eq_or_ne id id' with rfl | hne
    · exact .inr (.inl ⟨w, rfl⟩)
    · exact .inl (s.toDisk.remove_row_ne cfg s.clock w hne)

/-! ## The finality of a lost row -/

/-- The row of a job is lost, and finalized at `t`. -/
def FinalLost (cfg : HeadConfig) (id : JobId) (t : Time) (s : Sys) : Prop :=
  ∃ e, row cfg s.files id = some e ∧ e.status = .lost ∧ e.terminalFinalizedAt = some t

theorem step_finalLost {a : Op} {id : JobId} {t : Time} (hs : FinalLost cfg id t s)
    (h : step cfg s a = some s') (ha : ∀ w, a ≠ .remove id w) : FinalLost cfg id t s' := by
  obtain ⟨e₀, he₀, hlost, ht⟩ := hs
  rcases step_row h id with hr | ⟨w, rfl⟩ | ⟨entry, e, hid, he, hsaved, hf, -⟩
  · exact ⟨e₀, hr.trans he₀, hlost, ht⟩
  · exact absurd rfl (ha w)
  · obtain ⟨hstatus, hfin⟩ := hf e₀ he₀ (by simp [ht])
    exact ⟨e, he, hsaved.status.trans hstatus, hsaved.terminalFinalizedAt.trans (hfin.trans ht)⟩

/-- Once a stored row is lost and finalized, no run changes its status or the time of its
finality before the record is removed; and a save that would is refused by the fence and leaves
the row files and the index exactly as they were. -/
theorem lost_finality {as : List Op} {id : JobId} {t : Time}
    (hs : FinalLost cfg id t s) (hrun : run (step cfg) s as = some s')
    (hrem : ∀ a ∈ as, ∀ w, a ≠ .remove id w) :
    FinalLost cfg id t s' ∧
      ∀ entry w, entry.jobId = id →
        ¬ (entry.status = .lost ∧ entry.terminalFinalizedAt = some t) →
        s'.toDisk.save cfg entry s'.clock w =
          (.error "a finalized lost result cannot be reopened", s'.toDisk) := by
  have hfinal : FinalLost cfg id t s' := by
    induction as generalizing s with
    | nil =>
      simp only [run_nil, Option.some.injEq] at hrun
      exact hrun ▸ hs
    | cons a as ih =>
      obtain ⟨s₁, h₁, h₂⟩ := run_cons_some.mp hrun
      exact ih (step_finalLost hs h₁ (hrem a (by simp))) h₂
        fun b hb => hrem b (List.mem_cons_of_mem _ hb)
  refine ⟨hfinal, fun entry w hid hbad => ?_⟩
  obtain ⟨e, he, -, ht⟩ := hfinal
  exact Disk.save_refused w (hid ▸ he) (by simp [ht]) (by rwa [ht])

/-- One row in the role registry. -/
def Sys.ofRow (e : JobEntry) : Sys where
  files
    | .legacy => ∅
    | .role => AList.singleton e.jobId (.document e 1000)
  stamp _ := 1
  index := none
  clock := 2000

/-- A lost row past its recovery window, and finalized. -/
def sampleLost (id : JobId) : JobEntry :=
  { JobEntry.sample id with
    status := .lost, node := "n1", finishedAt := some 1100, resultState := some .infraFailure
    reason := some "wrapper pid 7 is not running", terminalFinalizedAt := some 1500 }

/-- A kill with a dead verdict, a late completion and a stale save all leave the row lost. -/
theorem lost_finality_sample :
    ∃ s', run (step .sample) (Sys.ofRow (sampleLost "job-1"))
        [.event "job-1" (.kill (sampleLost "job-1") "TERM" false .dead) { stamp := 2 }, .tick 5,
          .event "job-1" (.refresh (sampleLost "job-1") false
            ⟨"0", none, none, none, "success"⟩ "~/dt/jobs/job-1/state") { stamp := 3 },
          .save (JobEntry.sample "job-1") { stamp := 4 }] = some s' ∧
      FinalLost .sample "job-1" 1500 s' ∧
      s'.toDisk.save .sample (JobEntry.sample "job-1") s'.clock { stamp := 5 } =
        (.error "a finalized lost result cannot be reopened", s'.toDisk) := by
  have hs : FinalLost .sample "job-1" 1500 (Sys.ofRow (sampleLost "job-1")) := by
    have h : ((row .sample (Sys.ofRow (sampleLost "job-1")).files "job-1").map fun e =>
        (e.status, e.terminalFinalizedAt)) = some (.lost, some 1500) := by decide +kernel
    obtain ⟨e, he, hp⟩ := Option.map_eq_some_iff.mp h
    exact ⟨e, he, congrArg Prod.fst hp, congrArg Prod.snd hp⟩
  have hrun : (run (step .sample) (Sys.ofRow (sampleLost "job-1"))
      [.event "job-1" (.kill (sampleLost "job-1") "TERM" false .dead) { stamp := 2 }, .tick 5,
        .event "job-1" (.refresh (sampleLost "job-1") false
          ⟨"0", none, none, none, "success"⟩ "~/dt/jobs/job-1/state") { stamp := 3 },
        .save (JobEntry.sample "job-1") { stamp := 4 }]).isSome = true := by decide +kernel
  obtain ⟨s', hs'⟩ := Option.isSome_iff_exists.mp hrun
  obtain ⟨hfinal, hrefused⟩ := lost_finality hs hs' (by simp)
  exact ⟨s', hs', hfinal, hrefused (JobEntry.sample "job-1") _ rfl (by decide)⟩

/-! ## Settled rows -/

/-- An event that replaces a raced dequeue by the launched state. -/
def Event.restores : Event → Bool
  | .restoreRunning .. | .restoreFinished _ => true
  | _ => false

/-- A dependent may act on the row, and would see this result. -/
def SettledAs (e : JobEntry) (r : Option ResultState) : Prop :=
  dependencySettled e = true ∧ effectiveResultState e = r

theorem settled_status {e : JobEntry} (h : dependencySettled e = true) :
    e.status ≠ .queued ∧ e.status ≠ .running ∧ isUncertainLaunch e = false ∧
      (e.status = .lost → e.terminalFinalizedAt.isSome) := by
  unfold dependencySettled at h
  split at h
  · cases h
  · rename_i hterm
    split at h
    · cases h
    · rename_i hu
      refine ⟨?_, ?_, by simpa using hu, fun hl => ?_⟩
      · rintro hq
        simp [hq, JobStatus.terminal] at hterm
      · rintro hq
        simp [hq, JobStatus.terminal] at hterm
      · simpa [hl] using h

theorem onStatus_queued_settled {e : JobEntry} {f : JobEntry → JobEntry}
    (h : e.status ≠ .queued) : onStatus (some e) .queued f = none := by
  simp [onStatus, h]

theorem onAttempt_settled {e : JobEntry} {f : JobEntry → JobEntry}
    {x : Option String × Option String} (h : e.status ≠ .queued) :
    onAttempt (some e) x f = none := by
  simp [onAttempt, h]

/-- What an event writes over a settled row: only kill can try to reopen a lost one, and only the
handling of a raced dequeue touches a killed one. -/
theorem write_settled {e entry : JobEntry} {ev : Event} {now : Time}
    (hs : dependencySettled e = true) (hw : ev.write (some e) now = some entry) :
    (e.status = .lost ∧ entry.status ≠ .lost) ∨
      (e.status = .killed ∧ (ev.restores = true ∨
        ∃ placed, entry = cancelledInflightRow e placed now)) := by
  obtain ⟨hq, hr, hu, hfin⟩ := settled_status hs
  cases ev with
  | refresh target batched p stateDir =>
    simp only [Event.write, refreshWrite, Option.getD_some] at hw
    split at hw
    · cases hw
    · rename_i hp
      have hl : e.status = .lost := by simpa [probed, hr] using hp
      split at hw
      · cases hw
      · simp [applyStatusProbe, hl, hfin hl] at hw
  | finalize observedNow =>
    simp only [Event.write, Option.bind_some, finalizeWrite] at hw
    split at hw
    · cases hw
    · split at hw
      · cases hw
      · rename_i hl
        simp [hfin (not_not.mp hl)] at hw
  | kill target sig sweep v =>
    simp only [Event.write, Option.getD_some] at hw
    obtain ⟨hsource, hrow⟩ := killWrite_some hw
    refine .inl ⟨by simpa [hr, hu] using hsource, ?_⟩
    rcases hrow with rfl | ⟨code, -, rfl⟩ <;> simp [killedRow, exitedRow]
  | dequeue target => simp [Event.write, onStatus_queued_settled hq] at hw
  | gateFail target detail => simp [Event.write, onStatus_queued_settled hq] at hw
  | gateSkip target detail => simp [Event.write, onStatus_queued_settled hq] at hw
  | gateReason target reason => simp [Event.write, onStatus_queued_settled hq] at hw
  | claim expected node token owner => simp [Event.write, onAttempt_settled hq] at hw
  | claimRefused expected reason => simp [Event.write, onAttempt_settled hq] at hw
  | commit candidate expected => simp [Event.write, commitWrite, hq] at hw
  | restoreRunning placed detail =>
    simp only [Event.write] at hw
    split at hw
    · rename_i hk
      exact .inr ⟨by simpa [absentOrKilled] using hk, .inl rfl⟩
    · cases hw
  | restoreFinished placed =>
    simp only [Event.write] at hw
    split at hw
    · rename_i hk
      exact .inr ⟨by simpa [absentOrKilled] using hk, .inl rfl⟩
    · cases hw
  | recordCancelled killed placed =>
    simp only [Event.write, Option.getD_some] at hw
    split at hw
    · rename_i hk
      cases hw
      exact .inr ⟨hk, .inr ⟨placed, rfl⟩⟩
    · cases hw

/-- A killed row with another history is settled with the same result. -/
theorem settledAs_cancelledInflight {e placed e' : JobEntry} {now t : Time}
    (hk : e.status = .killed) (h : SavedAs (cancelledInflightRow e placed now) t e') :
    SettledAs e' (effectiveResultState e) ∧ e'.status = .killed := by
  have hstatus : e'.status = .killed := h.status.trans hk
  have hresult : e'.resultState = e.resultState := h.resultState
  refine ⟨⟨?_, ?_⟩, hstatus⟩
  · simp [dependencySettled, JobStatus.terminal, isUncertainLaunch, hstatus]
  · simp only [effectiveResultState, hresult, hstatus, hk]

/-- A lifecycle step: an event of some job, or time passing. -/
def Op.lifecycle : Op → Bool
  | .tick _ | .event .. => true
  | .save .. | .remove .. => false

/-- An event of the job that restores a raced dequeue. -/
def Op.restoresJob (id : JobId) : Op → Bool
  | .event id' ev _ => id' = id && ev.restores
  | _ => false

theorem step_settled {a : Op} {id : JobId} {e : JobEntry}
    (he : row cfg s.files id = some e) (hs : dependencySettled e = true)
    (h : step cfg s a = some s') (hl : a.lifecycle = true)
    (hr : e.status = .killed → a.restoresJob id = false) :
    ∃ e', row cfg s'.files id = some e' ∧ SettledAs e' (effectiveResultState e) ∧
      (e'.status = .killed → e.status = .killed) := by
  rcases step_row h id with hrow | ⟨w, rfl⟩ | ⟨entry, e', hid, he', hsaved, hf, hsrc⟩
  · exact ⟨e, hrow.trans he, ⟨hs, rfl⟩, fun hk => hk⟩
  · cases hl
  · rcases hsrc with ⟨w, rfl⟩ | ⟨ev, w, cur, rfl, hload, hw⟩
    · cases hl
    · rw [load_of_row he] at hload
      cases hload
      rcases write_settled hs hw with ⟨hlost, hne⟩ | ⟨hk, hres | ⟨placed, rfl⟩⟩
      · -- the fence refuses what would reopen a lost row
        exact absurd (hf e he ((settled_status hs).2.2.2 hlost)).1 hne
      · exact absurd (hr hk) (by simp [Op.restoresJob, hres])
      · obtain ⟨hset, -⟩ := settledAs_cancelledInflight hk hsaved
        exact ⟨e', he', hset, fun _ => hk⟩

/-- Along every run of lifecycle steps a settled row stays settled with the same result, with one
exception: a row that is settled as killed can be replaced by the restore of a launch that raced
the dequeue. -/
theorem settled_stable {as : List Op} {id : JobId} {e : JobEntry}
    (he : row cfg s.files id = some e) (hs : dependencySettled e = true)
    (hrun : run (step cfg) s as = some s') (hl : ∀ a ∈ as, a.lifecycle = true)
    (hr : e.status = .killed → ∀ a ∈ as, a.restoresJob id = false) :
    ∃ e', row cfg s'.files id = some e' ∧ dependencySettled e' = true ∧
      effectiveResultState e' = effectiveResultState e := by
  induction as generalizing s e with
  | nil =>
    simp only [run_nil, Option.some.injEq] at hrun
    exact ⟨e, hrun ▸ he, hs, rfl⟩
  | cons a as ih =>
    obtain ⟨s₁, h₁, h₂⟩ := run_cons_some.mp hrun
    obtain ⟨e₁, he₁, ⟨hs₁, hr₁⟩, hk₁⟩ :=
      step_settled he hs h₁ (hl a (by simp)) fun hk => hr hk a (by simp)
    obtain ⟨e', he', hs', hr'⟩ := ih he₁ hs₁ h₂ (fun b hb => hl b (List.mem_cons_of_mem _ hb))
      fun hk b hb => hr (hk₁ hk) b (List.mem_cons_of_mem _ hb)
    exact ⟨e', he', hs', hr'.trans hr₁⟩

/-- A finished row, and events that arrive late for it. -/
theorem settled_stable_sample :
    ∃ s' e', run (step .sample) (Sys.ofRow { JobEntry.sample "job-1" with
          status := .finished, exitCode := some 0, finishedAt := some 1100 })
        [.event "job-1" (.kill (JobEntry.sample "job-1") "KILL" true .dead) { stamp := 2 }, .tick 400,
          .event "job-1" (.commit (JobEntry.sample "job-1") (none, none)) { stamp := 3 },
          .event "job-1" (.restoreRunning (JobEntry.sample "job-1") "timeout") { stamp := 4 }] =
        some s' ∧
      row .sample s'.files "job-1" = some e' ∧ dependencySettled e' = true ∧
      effectiveResultState e' = some .success := by
  have h : ((row .sample (Sys.ofRow { JobEntry.sample "job-1" with
      status := .finished, exitCode := some 0, finishedAt := some 1100 }).files "job-1").map
        fun e => (dependencySettled e, effectiveResultState e, e.status)) =
      some (true, some .success, .finished) := by decide +kernel
  obtain ⟨e, he, hp⟩ := Option.map_eq_some_iff.mp h
  simp only [Prod.mk.injEq] at hp
  have hrun : (run (step .sample) (Sys.ofRow { JobEntry.sample "job-1" with
        status := .finished, exitCode := some 0, finishedAt := some 1100 })
      [.event "job-1" (.kill (JobEntry.sample "job-1") "KILL" true .dead) { stamp := 2 }, .tick 400,
        .event "job-1" (.commit (JobEntry.sample "job-1") (none, none)) { stamp := 3 },
        .event "job-1" (.restoreRunning (JobEntry.sample "job-1") "timeout")
          { stamp := 4 }]).isSome = true := by decide +kernel
  obtain ⟨s', hs'⟩ := Option.isSome_iff_exists.mp hrun
  obtain ⟨e', he', hset, hres⟩ := settled_stable he hp.1 hs' (by simp [Op.lifecycle])
    (by simp [hp.2.2])
  exact ⟨s', e', hs', he', hset, hres.trans hp.2.1⟩

/-- A job that is dequeued while its launch is in flight is settled as cancelled; when the
cancellation of the launch cannot be verified, the row is running again. -/
theorem killed_reopened_by_restore :
    ((run (step .sample) (Sys.ofRow { JobEntry.sample "job-1" with
          dispatchNode := some "n1"
          dispatchToken := some "0123456789abcdef0123456789abcdef" })
        [.event "job-1" (.dequeue (JobEntry.sample "job-1")) { stamp := 2 }]).bind fun s =>
      (row .sample s.files "job-1").map fun e =>
        (dependencySettled e, effectiveResultState e)) = some (true, some .cancelled) ∧
    ((run (step .sample) (Sys.ofRow { JobEntry.sample "job-1" with
          dispatchNode := some "n1"
          dispatchToken := some "0123456789abcdef0123456789abcdef" })
        [.event "job-1" (.dequeue (JobEntry.sample "job-1")) { stamp := 2 },
          .event "job-1" (.restoreRunning { JobEntry.sample "job-1" with
            status := .running, node := "n1", pgid := some 7 } "processes survived TERM")
            { stamp := 3 }]).bind fun s =>
      (row .sample s.files "job-1").map fun e =>
        (dependencySettled e, effectiveResultState e)) = some (false, none) := by
  decide +kernel

end Dt.Dispatch
