import Dt.Dispatch.Queued
import Dt.Scheduler.Admission
import Mathlib.Data.List.Perm.Subperm

/-!
# The quota

Any number of dispatchers claim queued jobs while other commands observe, settle and commit rows.
A claim is made under the scheduler-admission lock and the lock of its job: the dispatcher reads
the rows that may count one by one, decides, and writes its claim. No other step takes the
admission lock, so rows change between their reading and the decision.

The bound rests on one fact about each other step: a row that holds a slot after it held one
before (`write_occupies`). What a reader has seen therefore covers what holds a slot later.
-/

namespace Dt.Scheduler.Quota

open Dt.Lib Dt.Jobs Dt.Dispatch

/-! ## Counting -/

/-- How many rows of the registry hold a slot. -/
def occupied (cfg : HeadConfig) (s : Dispatch.Sys) : Nat :=
  occupancy (registryRows cfg s.files) s.clock

/-- The names whose record cannot be read. -/
def damaged (cfg : HeadConfig) (r : Registry) : List JobId :=
  (registryIds cfg r).filter fun id => !(load cfg r id).toBool

/-- The names `active_entries` reads, see `activeEntries_exact`. -/
def activeIds (cfg : HeadConfig) (r : Registry) (now : Time) : List JobId :=
  ((registryRows cfg r).filter (activeIndexMember · now)).map (·.jobId)

/-! ## The machine -/

/-- A claim in the making: it holds the admission lock and the lock of its job. -/
structure Admission where
  id : JobId
  node : String
  /-- the row of the job, read under its lock -/
  current : JobEntry
  /-- when the reading of the rows began -/
  since : Time
  pending : List JobId
  entries : List JobEntry
  damage : Nat

structure Sys extends Dispatch.Sys where
  admission : Option Admission

inductive Act where
  | tick (dt : Time)
  /-- an observation, a kill, a gate or another step of a command on one job -/
  | event (id : JobId) (ev : Event) (w : WriteOutcome)
  /-- a commit of a dispatcher, prepared from its copy `m` -/
  | commit (id : JobId) (m : JobEntry) (rw : Rewrite) (w : WriteOutcome)
  | submit (e : JobEntry) (w : WriteOutcome)
  | reserve (id : JobId) (node : String) (expected : Option String × Option String)
  | read
  | claim (token owner : String) (w : WriteOutcome)
  | abandon

/-- A text that does not read as an uncertain launch once it is stored. The texts of the gates and
of `fail` start with other words. -/
def plain (detail : String) : Bool :=
  !startsWith (diagnosticExcerpt maxJobDiagnosticChars detail) uncertainLaunchPrefix

/-- The late rescue of a lost row. -/
def lateRescue (e : JobEntry) (p : StatusProbe) (now : Time) : Bool :=
  e.status = .lost && p.token = "RUNNING" && !rebooted e p && !occupiesQuota e now

/-- The steps that run beside the claims, on the stored row `e`. Claims and commits have steps of
their own; the restore after a failed cancellation and the late rescue are left out. -/
def permitted (e : JobEntry) (now : Time) : Event → Bool
  | .refresh _ _ p _ => !lateRescue e p now
  | .finalize _ | .kill .. | .dequeue _ | .gateSkip .. | .gateReason .. | .recordCancelled .. => true
  | .gateFail _ detail => plain detail
  | .restoreFinished placed => placed.status = .finished
  | .claim .. | .claimRefused .. | .commit .. | .restoreRunning .. => false

/-- A launch is committed only by a copy that holds a claim. -/
def commits (m : JobEntry) : Rewrite → Bool
  | .fail detail => plain detail
  | .adopt .. | .place _ | .failPlacement .. => m.dispatchToken.isSome
  | .payload _ | .blocked _ | .clear | .hold .. | .settle .. => true

/-- Nobody else holds the lock of the job. -/
def unlocked (s : Sys) (id : JobId) : Bool := s.admission.all (·.id ≠ id)

/-- Begin to read the rows that may count. -/
def startReading (cfg : HeadConfig) (s : Dispatch.Sys) (adm : Admission) : Admission :=
  { adm with
    since := s.clock
    pending := activeIds cfg s.files s.clock
    entries := []
    damage := (damaged cfg s.files).length }

/-- One row of `active_entries`; a name that no longer loads starts the reading again. -/
def readNext (cfg : HeadConfig) (s : Dispatch.Sys) (adm : Admission) : Option Admission :=
  match adm.pending with
  | [] => none
  | id :: rest =>
    match row cfg s.files id with
    | none => some (startReading cfg s adm)
    | some e => some { adm with
        pending := rest
        entries := if activeIndexMember e adm.since then adm.entries ++ [e] else adm.entries }

def decision (cfg : HeadConfig) (cap : Option Nat) (s : Dispatch.Sys) (adm : Admission) :
    AdmissionDecision :=
  admissionDecision cap adm.current (withDependencyPredecessors cfg s.files adm.entries) adm.node
    adm.damage true s.clock

/-- The row an admission writes: the claim, or why it waits. -/
def admissionRow (cfg : HeadConfig) (cap : Option Nat) (s : Dispatch.Sys) (adm : Admission)
    (token owner : String) : JobEntry :=
  if (decision cfg cap s adm).allowed then claimRow adm.current adm.node token owner s.clock
  else withReason adm.current (some ("waiting: " ++ (decision cfg cap s adm).reason))

def Sys.saved (cfg : HeadConfig) (s : Sys) (e : JobEntry) (w : WriteOutcome) : Sys :=
  { s with toDisk := (s.toDisk.save cfg e s.clock w).2 }

def step (cfg : HeadConfig) (cap : Option Nat) (s : Sys) : Act → Option Sys
  | .tick dt => if 0 ≤ dt then some { s with clock := s.clock + dt } else none
  | .event id ev w =>
    match row cfg s.files id with
    | none => none
    | some e =>
      if permitted e s.clock ev && unlocked s id then
        match ev.write (some e) s.clock with
        | none => some s
        | some entry => if entry.jobId = id then some (s.saved cfg entry w) else none
      else none
  | .commit id m rw w =>
    match row cfg s.files id with
    | none => none
    | some e =>
      if m.jobId = id && m.status = .queued && commits m rw && unlocked s id then
        match commitWrite (some e) (rw.apply m s.clock) (attempt m) s.clock with
        | none => some s
        | some entry =>
          if !rw.persist m then some s
          else if entry.jobId = id then some (s.saved cfg entry w)
          else none
      else none
  | .submit e w =>
    if e.status = .queued && attempt e = (none, none) && (row cfg s.files e.jobId).isNone then
      some (s.saved cfg e w)
    else none
  | .reserve id node expected =>
    match s.admission, row cfg s.files id with
    | none, some current =>
      if current.status = .queued && attempt current = expected then
        some { s with admission := some (startReading cfg s.toSys
          ⟨id, node, current, s.clock, [], [], 0⟩) }
      else some s
    | _, _ => none
  | .read =>
    match s.admission with
    | none => none
    | some adm => (readNext cfg s.toSys adm).map fun adm' => { s with admission := some adm' }
  | .claim token owner w =>
    match s.admission with
    | none => none
    | some adm =>
      if adm.pending = [] then
        some { s.saved cfg (admissionRow cfg cap s.toSys adm token owner) w with
          admission := none }
      else none
  | .abandon => some { s with admission := none }

/-! ## When the bound holds -/

/-- A probe that has a lost row saved once more: another boot, or a verdict that repairs its
metadata. -/
def savesLostAgain (e : JobEntry) (p : StatusProbe) : Bool :=
  e.status = .lost && e.terminalFinalizedAt.isNone &&
    ((p.token = "RUNNING" || p.token = "UNVERIFIED" || p.token = "LOST" || p.token = "STALE") &&
        rebooted e p ||
      (p.token = "LOST" || p.token = "STALE") &&
        !(truthy e.reason && e.resultState = some .infraFailure))

/-- The row has no finish time, so its window runs from its last save. -/
def unfinished (e : JobEntry) : Bool := e.finishedAt.all (· = 0)

/-- No lost row without a finish time is saved once more after its window has passed; and no
claim is decided on a lost row whose window has passed since it was read, while the row itself
holds a slot again. -/
def ok (cfg : HeadConfig) (s : Sys) : Act → Bool
  | .event id (.refresh _ _ p _) _ =>
    (row cfg s.files id).all fun e =>
      !(savesLostAgain e p && unfinished e) || occupiesQuota e s.clock
  | .claim .. =>
    s.admission.all fun adm => adm.entries.all fun e =>
      e.status ≠ .lost || occupiesQuota e s.clock ||
        (row cfg s.files e.jobId).all fun e' => !occupiesQuota e' s.clock
  | _ => true

/-! ## Counting rows -/

section

variable {cfg : HeadConfig}

/-- Rows with distinct names are no more than what covers them. -/
theorem occupancy_le_of_covered {r : Registry} {entries : List JobEntry} {t t' : Time}
    (h : ∀ e, row cfg r e.jobId = some e → occupiesQuota e t = true →
      ∃ x ∈ entries, x.jobId = e.jobId ∧ occupiesQuota x t' = true) :
    occupancy (registryRows cfg r) t ≤ occupancy entries t' := by
  have hnodup : (((registryRows cfg r).filter (occupiesQuota · t)).map (·.jobId)).Nodup := by
    refine List.Nodup.map_on (fun e he e' he' hid => ?_) ((registryRows_nodup cfg r).filter _)
    have h₁ := mem_registryRows.mp (List.mem_filter.mp he).1
    have h₂ := mem_registryRows.mp (List.mem_filter.mp he').1
    rw [hid, h₂] at h₁
    exact (Option.some.inj h₁).symm
  have hsub : ((registryRows cfg r).filter (occupiesQuota · t)).map (·.jobId) ⊆
      (entries.filter (occupiesQuota · t')).map (·.jobId) := by
    intro id hid
    obtain ⟨e, he, rfl⟩ := List.mem_map.mp hid
    obtain ⟨hrow, hocc⟩ := List.mem_filter.mp he
    obtain ⟨x, hx, hxid, hxocc⟩ := h e (mem_registryRows.mp hrow) hocc
    exact List.mem_map.mpr ⟨x, List.mem_filter.mpr ⟨hx, hxocc⟩, hxid⟩
  simpa [occupancy] using (hnodup.subperm hsub).length_le

theorem load_congr {r r' : Registry} {id : JobId}
    (h : ∀ d, (r d).lookup id = (r' d).lookup id) : load cfg r id = load cfg r' id := by
  have hloc : registryLocations cfg r id = registryLocations cfg r' id := by
    simp only [registryLocations, h]
  have hread : ∀ d, readEntryPath r d id = readEntryPath r' d id := fun d => by
    simp only [readEntryPath, decodeEntryResult, h]
  simp only [load, resolveRegistryRecord, hloc, hread]

/-- A record that cannot be read has a file. -/
theorem mem_registryIds_of_error {r : Registry} {id : JobId} {m : String}
    (h : load cfg r id = .error m) : id ∈ registryIds cfg r := by
  have hloc : registryLocations cfg r id ≠ [] := by
    intro hnil
    cases hv : validJobId id <;> simp [load, resolveRegistryRecord, hnil, hv] at h
  obtain ⟨d, hd⟩ := List.exists_mem_of_ne_nil _ hloc
  obtain ⟨hc, hs⟩ := mem_locations.mp hd
  simp only [registryIds, List.mem_dedup, List.mem_flatMap]
  exact ⟨d, hc, AList.lookup_isSome.mp hs⟩

theorem mem_damaged {r : Registry} {id : JobId} :
    id ∈ damaged cfg r ↔ ∃ m, load cfg r id = .error m := by
  simp only [damaged, List.mem_filter]
  constructor
  · rintro ⟨-, hl⟩
    cases h : load cfg r id with
    | error m => exact ⟨m, rfl⟩
    | ok o => simp [h, Except.toBool] at hl
  · rintro ⟨m, h⟩
    exact ⟨mem_registryIds_of_error h, by simp [h, Except.toBool]⟩

/-- A save reads its row before it writes, so it damages none. -/
theorem save_damaged (k : Disk) (entry : JobEntry) (now : Time) (w : WriteOutcome) :
    (damaged cfg (k.save cfg entry now w).2.files).length ≤ (damaged cfg k.files).length := by
  have hnodup : (damaged cfg (k.save cfg entry now w).2.files).Nodup :=
    (List.nodup_dedup _).filter _
  refine (hnodup.subperm fun id hid => ?_).length_le
  obtain ⟨m, hm⟩ := mem_damaged.mp hid
  rcases k.save_files cfg entry now w with hfiles | hsave
  · rw [hfiles] at hm
    exact mem_damaged.mpr ⟨m, hm⟩
  · obtain ⟨⟨e, he, -⟩, -⟩ := Dt.Jobs.save_row hsave
    rcases eq_or_ne id entry.jobId with rfl | hne
    · rw [load_of_row he] at hm
      cases hm
    · refine mem_damaged.mpr ⟨m, ?_⟩
      rw [← hm]
      exact load_congr fun d => (save_lookup_of_ne hsave hne d).symm

end

/-! ## Rows that hold a slot -/

section

variable {e e' entry m : JobEntry} {now t : Time}

theorem not_occupies_of_settled (h : dependencySettled e = true) : occupiesQuota e now = false := by
  obtain ⟨hq, hr, hu, hfin⟩ := settled_status h
  have hl : lostReconciling e now = false := by
    by_cases hl : e.status = .lost
    · obtain ⟨t, ht⟩ := Option.isSome_iff_exists.mp (hfin hl)
      simp [lostReconciling, ht]
    · simp [lostReconciling, hl]
  simp [occupiesQuota, hq, hr, hu, hl]

theorem occupies_of_running (h : e.status = .running) : occupiesQuota e now = true := by
  simp [occupiesQuota, h]

/-- A queued row holds a slot exactly while it has a claim. -/
theorem occupies_queued (h : e.status = .queued) :
    occupiesQuota e now = (e.dispatchNode.isSome || e.dispatchToken.isSome) := by
  simp [occupiesQuota, isUncertainLaunch, lostReconciling, h]

/-- A row that holds a slot at some time. -/
def mayOccupy (e : JobEntry) : Bool :=
  e.status = .running || isUncertainLaunch e ||
    (e.status = .queued && (e.dispatchNode.isSome || e.dispatchToken.isSome)) ||
    (e.status = .lost && e.terminalFinalizedAt.isNone)

theorem mayOccupy_of_occupies (h : occupiesQuota e now = true) : mayOccupy e = true := by
  simp only [occupiesQuota, lostReconciling, Bool.or_eq_true, Bool.and_eq_true] at h
  simp only [mayOccupy, Bool.or_eq_true, Bool.and_eq_true]
  exact h.imp_right fun h => h.1

/-- It holds the slot, or it is a lost row. -/
theorem occupies_or_lost (h : mayOccupy e = true) :
    occupiesQuota e now = true ∨ e.status = .lost := by
  simp only [mayOccupy, Bool.or_eq_true, Bool.and_eq_true, decide_eq_true_eq] at h
  rcases h with h | h
  · refine .inl ?_
    simp only [occupiesQuota, Bool.or_eq_true, Bool.and_eq_true, decide_eq_true_eq]
    exact .inl h
  · exact .inr h.1

/-! ## What a write does to a slot -/

theorem settled_of_status (hs : e.status = .finished ∨ e.status = .killed ∨ e.status = .skipped) :
    dependencySettled e = true := by
  rcases hs with hs | hs | hs <;>
    simp [dependencySettled, JobStatus.terminal, isUncertainLaunch, hs]

theorem settled_of_plain {detail : String} (hs : SavedAs entry now e')
    (hstatus : entry.status = .failed) (hreason : entry.reason = some detail)
    (hp : plain detail = true) : dependencySettled e' = true := by
  have hreason' : e'.reason = some (diagnosticExcerpt maxJobDiagnosticChars detail) := by
    rw [hs.reason, hreason]
    rfl
  have hu : isUncertainLaunch e' = false := by
    simpa [isUncertainLaunch, hreason', plain] using fun _ => by simpa [plain] using hp
  simp [dependencySettled, JobStatus.terminal, hs.status.trans hstatus, hu]

/-- A lost row that keeps a finish time keeps its window. -/
theorem lostReconciling_saved (hs : SavedAs entry now e') (hl : e.status = .lost)
    (hf : e.terminalFinalizedAt = none) (hfin : orTime entry.finishedAt 0 = orTime e.finishedAt 0)
    (hu : unfinished e = false) (h : lostReconciling e' now = true) :
    lostReconciling e now = true := by
  have hobs : observedAt e' = observedAt e := by
    obtain ⟨t, ht, hne⟩ : ∃ t, e.finishedAt = some t ∧ t ≠ 0 := by
      cases ht : e.finishedAt with
      | none => simp [unfinished, ht] at hu
      | some t => exact ⟨t, rfl, by simpa [unfinished, ht] using hu⟩
    have hentry : entry.finishedAt = some t := by
      rw [ht] at hfin
      cases hx : entry.finishedAt with
      | none =>
        simp only [hx, orTime, hne, if_false] at hfin
        exact absurd hfin.symm hne
      | some x =>
        simp only [hx, orTime, hne, if_false] at hfin
        split at hfin
        · exact absurd hfin.symm hne
        · rw [hfin]
    simp [observedAt, hs.finishedAt, hentry, ht, orTime, hne]
  simp only [lostReconciling, Bool.and_eq_true, decide_eq_true_eq] at h ⊢
  exact ⟨⟨hl, by simp [hf]⟩, hobs ▸ h.2⟩

end

section

variable {e e' entry m : JobEntry} {now : Time}

theorem occupies_lost (h : e.status = .lost) : occupiesQuota e now = lostReconciling e now := by
  simp [occupiesQuota, isUncertainLaunch, h]

/-- A lost row that is saved as lost once more. -/
theorem relost_occupies {p : StatusProbe} (hl : e.status = .lost)
    (hf : e.terminalFinalizedAt = none) (hs : SavedAs entry now e') (hstatus : entry.status = .lost)
    (hfin : entry.finishedAt = e.finishedAt ∨ entry.finishedAt = some (orTime e.finishedAt now))
    (hagain : savesLostAgain e p = true)
    (hok : (!(savesLostAgain e p && unfinished e) || occupiesQuota e now) = true)
    (h : occupiesQuota e' now = true) : occupiesQuota e now = true := by
  by_contra hnot
  have hu : unfinished e = false := by simpa [hagain, hnot] using hok
  refine hnot ?_
  rw [occupies_lost (hs.status.trans hstatus)] at h
  rw [occupies_lost hl]
  refine lostReconciling_saved hs hl hf ?_ hu h
  rcases hfin with hfin | hfin
  · rw [hfin]
  · obtain ⟨t, ht, hne⟩ : ∃ t, e.finishedAt = some t ∧ t ≠ 0 := by
      cases ht : e.finishedAt with
      | none => simp [unfinished, ht] at hu
      | some t => exact ⟨t, rfl, by simpa [unfinished, ht] using hu⟩
    simp [hfin, ht, orTime, hne]

theorem probe_occupies {p : StatusProbe} {stateDir : String} (hl : e.status = .lost)
    (hw : applyStatusProbe e p stateDir now = some entry) (hs : SavedAs entry now e')
    (hlate : lateRescue e p now = false)
    (hok : (!(savesLostAgain e p && unfinished e) || occupiesQuota e now) = true)
    (h : occupiesQuota e' now = true) : occupiesQuota e now = true := by
  unfold applyStatusProbe at hw
  split at hw
  · cases hw
  · rename_i hopen
    have hf : e.terminalFinalizedAt = none := by simpa [hl] using hopen
    split at hw
    · split at hw
      · cases hw
      · split at hw
        · cases hw
          rw [not_occupies_of_settled (settled_of_status (.inl hs.status))] at h
          cases h
        · cases hw
    · rename_i htoken
      simp only [Bool.not_eq_true', Bool.or_eq_true, decide_eq_true_eq, Bool.not_eq_false] at htoken
      split at hw
      · rename_i hboot
        cases hw
        refine relost_occupies (p := p) hl hf hs rfl (.inr rfl) ?_ hok h
        rcases htoken with ((ht | ht) | ht) | ht <;> simp [savesLostAgain, hl, hf, hboot, ht]
      · rename_i hboot
        split at hw
        · rename_i ht
          -- a rescue, so it is not a late one
          simpa [lateRescue, hl, ht, hboot] using hlate
        · rename_i hrun
          split at hw
          · cases hw
          · rename_i hunv
            simp only [markLostFromProbe, hl, if_true] at hw
            split at hw
            · cases hw
            · rename_i hrepair
              cases hw
              refine relost_occupies (p := p) hl hf hs hl ?_ ?_ hok h
              · simp only [repairLost]
                split
                · exact .inl rfl
                · exact .inr rfl
              · have ht : p.token = "LOST" ∨ p.token = "STALE" := by
                  simpa [hrun, hunv] using htoken
                simp only [Bool.not_eq_true] at hrepair
                rcases ht with ht | ht <;> simp [savesLostAgain, hl, hf, ht, hrepair]

/-- Every step beside the claims leaves a slot only to a row that held one. -/
theorem write_occupies {ev : Event} (hperm : permitted e now ev = true)
    (hok : ∀ target batched p stateDir, ev = .refresh target batched p stateDir →
      (!(savesLostAgain e p && unfinished e) || occupiesQuota e now) = true)
    (hw : ev.write (some e) now = some entry) (hs : SavedAs entry now e')
    (h : occupiesQuota e' now = true) : occupiesQuota e now = true := by
  have hsettled : dependencySettled e' = true → occupiesQuota e now = true := fun hset => by
    rw [not_occupies_of_settled hset] at h
    cases h
  cases ev with
  | refresh target batched p stateDir =>
    simp only [Event.write, refreshWrite, Option.getD_some] at hw
    split at hw
    · cases hw
    · rename_i hprobed
      split at hw
      · cases hw
      · by_cases hr : e.status = .running
        · exact occupies_of_running hr
        · have hl : e.status = .lost := by simpa [probed, hr] using hprobed
          exact probe_occupies hl hw hs (by simpa [permitted] using hperm)
            (hok target batched p stateDir rfl) h
  | finalize t =>
    simp only [Event.write, Option.bind_some, finalizeWrite] at hw
    split at hw
    · cases hw
    · split at hw
      · cases hw
      · rename_i hl
        split at hw
        · cases hw
        · split at hw
          · cases hw
          · cases hw
            have hstatus : e'.status = .lost := hs.status.trans (not_not.mp hl)
            have hfin : e'.terminalFinalizedAt = some t := hs.terminalFinalizedAt
            exact hsettled (by
              simp [dependencySettled, JobStatus.terminal, isUncertainLaunch, hstatus, hfin])
  | kill target sig sweep v =>
    simp only [Event.write, Option.getD_some] at hw
    refine hsettled (settled_of_status ?_)
    rcases (killWrite_some hw).2 with rfl | ⟨code, -, rfl⟩
    · exact .inr (.inl hs.status)
    · exact .inl hs.status
  | dequeue target =>
    simp only [Event.write] at hw
    obtain ⟨_, -, -, rfl⟩ := onStatus_some hw
    exact hsettled (settled_of_status (.inr (.inl hs.status)))
  | gateFail target detail =>
    simp only [Event.write] at hw
    obtain ⟨_, -, -, rfl⟩ := onStatus_some hw
    exact hsettled (settled_of_plain hs rfl rfl hperm)
  | gateSkip target detail =>
    simp only [Event.write] at hw
    obtain ⟨_, -, -, rfl⟩ := onStatus_some hw
    exact hsettled (settled_of_status (.inr (.inr hs.status)))
  | gateReason target reason =>
    simp only [Event.write, Option.getD_some] at hw
    obtain ⟨_, ⟨⟩, hq, rfl⟩ := onStatus_some hw
    rw [occupies_queued (hs.status.trans hq), hs.dispatchNode, hs.dispatchToken] at h
    rwa [occupies_queued hq]
  | claim expected node token owner => cases hperm
  | claimRefused expected reason => cases hperm
  | commit candidate expected => cases hperm
  | restoreRunning placed detail => cases hperm
  | restoreFinished placed =>
    simp only [Event.write, Option.ite_none_right_eq_some, Option.some.injEq] at hw
    obtain ⟨-, rfl⟩ := hw
    exact hsettled (settled_of_status (.inl (hs.status.trans (by simpa [permitted] using hperm))))
  | recordCancelled killed placed =>
    simp only [Event.write, Option.getD_some, Option.ite_none_right_eq_some,
      Option.some.injEq] at hw
    obtain ⟨hk, rfl⟩ := hw
    exact hsettled (settled_of_status (.inr (.inl (hs.status.trans hk))))

end

section

variable {e e' entry m : JobEntry} {now : Time}

theorem notePlacementAttempt_claim (e : JobEntry) (pattern : String) (now : Time) :
    (notePlacementAttempt e pattern now).status = e.status ∧
      attempt (notePlacementAttempt e pattern now) = attempt e := by
  unfold notePlacementAttempt
  split <;> exact ⟨rfl, rfl⟩

/-- Without a claim a commit leaves the row in the queue without one, or fails it for good. -/
theorem apply_unclaimed {rw : Rewrite} (now : Time) (hq : m.status = .queued)
    (ha : attempt m = (none, none)) (hc : commits m rw = true) :
    ((rw.apply m now).status = .queued ∧ attempt (rw.apply m now) = (none, none)) ∨
      ∃ detail, plain detail = true ∧ (rw.apply m now).status = .failed ∧
        (rw.apply m now).reason = some detail := by
  have htoken : m.dispatchToken = none := congrArg Prod.snd ha
  cases rw with
  | payload sha => exact .inl ⟨hq, ha⟩
  | fail detail => exact .inr ⟨detail, hc, rfl, rfl⟩
  | blocked detail => exact .inl ⟨hq, ha⟩
  | adopt node nodeJobDir workerRoot launch => simp [commits, htoken] at hc
  | clear => exact .inl ⟨hq, rfl⟩
  | hold reason refusals =>
    rcases refusals with _ | ⟨rs, outcome⟩
    · exact .inl ⟨hq, ha⟩
    · obtain ⟨hs, hatt⟩ := notePlacementAttempt_claim (withReason m (some reason))
        (placementPattern rs outcome) now
      exact .inl ⟨hs.trans hq, hatt.trans ha⟩
  | place placed => simp [commits, htoken] at hc
  | failPlacement reasons node jobDir workerRoot uncertain => simp [commits, htoken] at hc
  | settle reasons reason outcome =>
    simp only [Rewrite.apply]
    split
    · exact .inl ⟨hq, rfl⟩
    · obtain ⟨hs, hatt⟩ := notePlacementAttempt_claim
        (withReason { clearClaim m with placementFailures := reasons } (some reason))
        (placementPattern reasons outcome) now
      exact .inl ⟨hs.trans hq, hatt.trans rfl⟩

/-- A commit leaves a slot only to a row that has a claim. -/
theorem commit_occupies {rw : Rewrite} (hq : m.status = .queued) (hc : commits m rw = true)
    (hw : commitWrite (some e) (rw.apply m now) (attempt m) now = some entry)
    (hs : SavedAs entry now e') (h : occupiesQuota e' now = true) : occupiesQuota e now = true := by
  obtain ⟨_, ⟨⟩, hqueued, hattempt, rfl⟩ := commitWrite_some hw
  by_contra hnot
  have ha : attempt m = (none, none) := by
    rw [← hattempt]
    simpa [occupies_queued hqueued, attempt] using hnot
  have hcontra : occupiesQuota e' now = false := by
    rcases apply_unclaimed now hq ha hc with ⟨hstatus, hatt⟩ | ⟨detail, hp, hstatus, hreason⟩
    · have hsame : commitDefaults (rw.apply m now) now = rw.apply m now := by
        simp [commitDefaults, hstatus]
      rw [hsame] at hs
      have hnode : e'.dispatchNode = none := hs.dispatchNode.trans (congrArg Prod.fst hatt)
      have htoken : e'.dispatchToken = none := hs.dispatchToken.trans (congrArg Prod.snd hatt)
      rw [occupies_queued (hs.status.trans hstatus), hnode, htoken]
      rfl
    · refine not_occupies_of_settled (settled_of_plain hs ?_ ?_ hp)
      · unfold commitDefaults
        dsimp only
        split
        · rfl
        · simp [hstatus]
      · unfold commitDefaults
        dsimp only
        split
        · exact hreason
        · simp [hstatus, hreason]
  rw [h] at hcontra
  cases hcontra

end

/-! ## The invariant -/

section

variable {cfg : HeadConfig} {cap : Nat} {s s' : Sys}

/-- What a claim in the making has read covers the rows that hold a slot now. -/
structure Snapshot (cfg : HeadConfig) (s : Dispatch.Sys) (adm : Admission) : Prop where
  held : row cfg s.files adm.id = some adm.current
  queued : adm.current.status = .queued
  since : adm.since ≤ s.clock
  damage : (damaged cfg s.files).length ≤ adm.damage
  covers : ∀ e, row cfg s.files e.jobId = some e → occupiesQuota e s.clock = true →
    e.jobId ∈ adm.pending ∨ ∃ x ∈ adm.entries, x.jobId = e.jobId ∧ mayOccupy x = true

structure Inv (cfg : HeadConfig) (cap : Nat) (s : Sys) : Prop where
  bound : occupied cfg s.toSys + (damaged cfg s.files).length ≤ cap
  snapshot : ∀ adm, s.admission = some adm → Snapshot cfg s.toSys adm

/-- Time and files have moved on, and every row that holds a slot held one before. -/
structure Shrinks (cfg : HeadConfig) (s s' : Dispatch.Sys) : Prop where
  clock : s.clock ≤ s'.clock
  damage : (damaged cfg s'.files).length ≤ (damaged cfg s.files).length
  occupies : ∀ e', row cfg s'.files e'.jobId = some e' → occupiesQuota e' s'.clock = true →
    ∃ e, row cfg s.files e'.jobId = some e ∧ occupiesQuota e s.clock = true

theorem Shrinks.occupied_le (h : Shrinks cfg s.toSys s'.toSys) :
    occupied cfg s'.toSys ≤ occupied cfg s.toSys := by
  refine occupancy_le_of_covered fun e' hrow hocc => ?_
  obtain ⟨e, he, ho⟩ := h.occupies e' hrow hocc
  have hid : e.jobId = e'.jobId := row_jobId he
  exact ⟨e, mem_registryRows.mpr (hid ▸ he), hid, ho⟩

theorem Snapshot.shrinks {adm : Admission} (hs : Snapshot cfg s.toSys adm)
    (h : Shrinks cfg s.toSys s'.toSys)
    (hrow : row cfg s'.files adm.id = row cfg s.files adm.id) : Snapshot cfg s'.toSys adm where
  held := hrow.trans hs.held
  queued := hs.queued
  since := hs.since.trans h.clock
  damage := h.damage.trans hs.damage
  covers e' he' ho' := by
    obtain ⟨e, he, ho⟩ := h.occupies e' he' ho'
    have hid : e.jobId = e'.jobId := row_jobId he
    simpa [hid] using hs.covers e (hid ▸ he) ho

theorem Inv.shrinks (hi : Inv cfg cap s) (h : Shrinks cfg s.toSys s'.toSys)
    (hadm : s'.admission = s.admission)
    (hrow : ∀ adm, s.admission = some adm →
      row cfg s'.files adm.id = row cfg s.files adm.id) : Inv cfg cap s' where
  bound := (Nat.add_le_add h.occupied_le h.damage).trans hi.bound
  snapshot adm ha := by
    rw [hadm] at ha
    exact (hi.snapshot adm ha).shrinks h (hrow adm ha)

/-- A save shrinks if the saved row holds a slot only where the stored one does. -/
theorem saved_shrinks {entry : JobEntry} {w : WriteOutcome}
    (h : ∀ e', SavedAs entry s.clock e' → occupiesQuota e' s.clock = true →
      ∃ e, row cfg s.files entry.jobId = some e ∧ occupiesQuota e s.clock = true) :
    Shrinks cfg s.toSys (s.saved cfg entry w).toSys where
  clock := le_rfl
  damage := save_damaged s.toDisk entry s.clock w
  occupies e' he' ho' := by
    rcases s.toDisk.save_row cfg entry s.clock w e'.jobId with hrow | ⟨hid, e'', he'', hsaved, -⟩
    · exact ⟨e', hrow.symm.trans he', ho'⟩
    · have hsame : e'' = e' := Option.some.inj (he''.symm.trans he')
      rw [hid]
      exact h e' (hsame ▸ hsaved) ho'

theorem saved_row_ne {entry : JobEntry} {w : WriteOutcome} {id : JobId}
    (h : id ≠ entry.jobId) : row cfg (s.saved cfg entry w).files id = row cfg s.files id := by
  rcases s.toDisk.save_row cfg entry s.clock w id with hrow | ⟨hid, -⟩
  · exact hrow
  · exact absurd hid h

theorem unlocked_ne {id : JobId} (h : unlocked s id = true) {adm : Admission}
    (ha : s.admission = some adm) : adm.id ≠ id := by
  simpa [unlocked, ha] using h

/-- A save of a job whose lock is free, whose row holds a slot only where the stored one does. -/
theorem Inv.saved (hi : Inv cfg cap s) {entry : JobEntry} {w : WriteOutcome}
    (hu : unlocked s entry.jobId = true)
    (h : ∀ e', SavedAs entry s.clock e' → occupiesQuota e' s.clock = true →
      ∃ e, row cfg s.files entry.jobId = some e ∧ occupiesQuota e s.clock = true) :
    Inv cfg cap (s.saved cfg entry w) :=
  hi.shrinks (saved_shrinks h) rfl fun _ ha => saved_row_ne (unlocked_ne hu ha)

end

section

variable {cfg : HeadConfig} {cap : Nat} {s s' : Sys}

/-! ## The reader -/

theorem startReading_snapshot {adm : Admission} (held : row cfg s.files adm.id = some adm.current)
    (hq : adm.current.status = .queued) :
    Snapshot cfg s.toSys (startReading cfg s.toSys adm) where
  held := held
  queued := hq
  since := le_rfl
  damage := le_rfl
  covers e he ho := by
    refine .inl (List.mem_map.mpr ⟨e, List.mem_filter.mpr ⟨mem_registryRows.mpr he, ?_⟩, rfl⟩)
    simp [activeIndexMember, ho]

/-- Reading one more row keeps the snapshot complete. -/
theorem readNext_snapshot {adm adm' : Admission} (h : Snapshot cfg s.toSys adm)
    (hr : readNext cfg s.toSys adm = some adm') : Snapshot cfg s.toSys adm' := by
  unfold readNext at hr
  split at hr
  · cases hr
  · rename_i id rest hpending
    split at hr
    · cases hr
      exact startReading_snapshot h.held h.queued
    · rename_i x hx
      cases hr
      refine ⟨h.held, h.queued, h.since, h.damage, fun e he ho => ?_⟩
      rcases h.covers e he ho with hmem | ⟨y, hy, hid, hmay⟩
      · rw [hpending] at hmem
        rcases List.mem_cons.mp hmem with rfl | hmem
        · -- the row just read is the one that holds the slot
          have hsame : x = e := Option.some.inj (hx.symm.trans he)
          have hmember : activeIndexMember x adm.since = true := by
            refine activeIndexMember_anti h.since ?_
            simp [hsame, activeIndexMember, ho]
          refine .inr ⟨x, ?_, by rw [hsame], mayOccupy_of_occupies (hsame ▸ ho)⟩
          simp [hmember]
        · exact .inl hmem
      · refine .inr ⟨y, ?_, hid, hmay⟩
        split
        · exact List.mem_append_left _ hy
        · exact hy

/-! ## The claim -/

/-- A complete snapshot counts at least the rows that hold a slot, if no lost row among them has
run out of its window unseen. -/
theorem Snapshot.occupied_le {adm : Admission} (h : Snapshot cfg s.toSys adm)
    (hp : adm.pending = [])
    (hok : ∀ x ∈ adm.entries, x.status = .lost → occupiesQuota x s.clock = false →
      ∀ e, row cfg s.files x.jobId = some e → occupiesQuota e s.clock = false) :
    occupied cfg s.toSys ≤ occupancy adm.entries s.clock := by
  refine occupancy_le_of_covered fun e he ho => ?_
  rcases h.covers e he ho with hmem | ⟨x, hx, hid, hmay⟩
  · simp [hp] at hmem
  · refine ⟨x, hx, hid, ?_⟩
    rcases occupies_or_lost hmay with hocc | hlost
    · exact hocc
    · by_contra hnot
      have := hok x hx hlost (by simpa using hnot) e (hid ▸ he)
      rw [ho] at this
      cases this

/-- A claim adds at most its own row. -/
theorem claim_occupied_le {entry : JobEntry} {w : WriteOutcome}
    (hocc : occupiesQuota entry s.clock = true) :
    occupied cfg (s.saved cfg entry w).toSys ≤ occupied cfg s.toSys + 1 := by
  have hcons : occupied cfg (s.saved cfg entry w).toSys ≤
      occupancy (entry :: registryRows cfg s.files) s.clock := by
    refine occupancy_le_of_covered fun e' he' ho' => ?_
    rcases eq_or_ne e'.jobId entry.jobId with heq | hne
    · exact ⟨entry, List.mem_cons_self, heq.symm, hocc⟩
    · rw [saved_row_ne hne] at he'
      exact ⟨e', List.mem_cons_of_mem _ (mem_registryRows.mpr he'), rfl, ho'⟩
  simpa [occupied, occupancy, hocc] using hcons

theorem claim_inv {adm : Admission} {token owner : String} {w : WriteOutcome}
    (hi : Inv cfg cap s) (ha : s.admission = some adm) (hp : adm.pending = [])
    (hok : ∀ x ∈ adm.entries, x.status = .lost → occupiesQuota x s.clock = false →
      ∀ e, row cfg s.files x.jobId = some e → occupiesQuota e s.clock = false) :
    Inv cfg cap { s.saved cfg (admissionRow cfg (some cap) s.toSys adm token owner) w with
      admission := none } := by
  have hsnap := hi.snapshot adm ha
  have hid : adm.current.jobId = adm.id := row_jobId hsnap.held
  -- a row that holds a slot already leaves the count as it is
  have hkeep : ∀ entry : JobEntry, entry.jobId = adm.id →
      (∀ e', SavedAs entry s.clock e' → occupiesQuota e' s.clock = true →
        occupiesQuota adm.current s.clock = true) →
      Inv cfg cap { s.saved cfg entry w with admission := none } := by
    intro entry hentry hsaved
    have hshrinks : Shrinks cfg s.toSys (s.saved cfg entry w).toSys :=
      saved_shrinks fun e' hs ho => ⟨adm.current, hentry ▸ hsnap.held, hsaved e' hs ho⟩
    exact ⟨(Nat.add_le_add (Shrinks.occupied_le hshrinks) hshrinks.damage).trans hi.bound,
      by simp⟩
  unfold admissionRow
  split
  · rename_i hallowed
    cases hocc : occupiesQuota adm.current s.clock with
    | true => exact hkeep _ hid fun _ _ _ => hocc
    | false =>
      have hroom : occupancy (withDependencyPredecessors cfg s.files adm.entries) s.clock +
          adm.damage < cap := admissionDecision_allowed hallowed hocc
      have hcount := hsnap.occupied_le hp hok
      have hmore := occupancy_le_withDependencyPredecessors cfg s.files adm.entries s.clock
      have hclaimed : occupiesQuota (claimRow adm.current adm.node token owner s.clock)
          s.clock = true := by
        rw [occupies_queued (show (claimRow adm.current adm.node token owner s.clock).status =
          .queued from hsnap.queued)]
        rfl
      have hadd : occupied cfg (s.saved cfg (claimRow adm.current adm.node token owner s.clock)
          w).toSys ≤ occupied cfg s.toSys + 1 := claim_occupied_le hclaimed
      have hdamage : (damaged cfg (s.saved cfg (claimRow adm.current adm.node token owner s.clock)
          w).files).length ≤ (damaged cfg s.files).length := save_damaged s.toDisk _ s.clock w
      have hread := hsnap.damage
      refine ⟨?_, by simp⟩
      change occupied cfg (s.saved cfg _ w).toSys + (damaged cfg (s.saved cfg _ w).files).length ≤ _
      omega
  · refine hkeep _ hid fun e' hs ho => ?_
    rw [occupies_queued (hs.status.trans hsnap.queued), hs.dispatchNode, hs.dispatchToken] at ho
    rwa [occupies_queued hsnap.queued]

theorem step_inv {a : Act} (hi : Inv cfg cap s) (hok : ok cfg s a = true)
    (h : step cfg (some cap) s a = some s') : Inv cfg cap s' := by
  cases a with
  | tick dt =>
    simp only [step, Option.ite_none_right_eq_some, Option.some.injEq] at h
    obtain ⟨hdt, rfl⟩ := h
    have hclock : s.clock ≤ s.clock + dt := by linarith
    exact hi.shrinks ⟨hclock, le_rfl, fun e he ho => ⟨e, he, occupiesQuota_anti hclock ho⟩⟩ rfl
      fun _ _ => rfl
  | event id ev w =>
    simp only [step] at h
    split at h
    · cases h
    · rename_i e he
      split at h
      · rename_i hguard
        simp only [Bool.and_eq_true] at hguard
        split at h
        · cases h
          exact hi
        · rename_i entry hw
          split at h
          · rename_i hid
            subst hid
            cases h
            refine hi.saved hguard.2 fun e' hs ho => ⟨e, he, ?_⟩
            refine write_occupies hguard.1 (fun target batched p stateDir hev => ?_) hw hs ho
            subst hev
            simpa [ok, he] using hok
          · cases h
      · cases h
  | commit id m rw w =>
    simp only [step] at h
    split at h
    · cases h
    · rename_i e he
      split at h
      · rename_i hguard
        simp only [Bool.and_eq_true, decide_eq_true_eq] at hguard
        obtain ⟨⟨⟨-, hq⟩, hc⟩, hu⟩ := hguard
        split at h
        · cases h
          exact hi
        · rename_i entry hw
          split at h
          · cases h
            exact hi
          · split at h
            · rename_i hid
              subst hid
              cases h
              exact hi.saved hu fun e' hs ho => ⟨e, he, commit_occupies hq hc hw hs ho⟩
            · cases h
      · cases h
  | submit e w =>
    simp only [step, Option.ite_none_right_eq_some, Option.some.injEq, Bool.and_eq_true,
      decide_eq_true_eq] at h
    obtain ⟨⟨⟨hq, ha⟩, hnone⟩, rfl⟩ := h
    have hrow : row cfg s.files e.jobId = none := by simpa using hnone
    have hu : unlocked s e.jobId = true := by
      cases hadm : s.admission with
      | none => simp [unlocked, hadm]
      | some adm =>
        have hne : adm.id ≠ e.jobId := by
          intro heq
          have := (hi.snapshot adm hadm).held
          rw [heq, hrow] at this
          cases this
        simpa [unlocked, hadm] using hne
    refine hi.saved hu fun e' hs ho => ?_
    have hnode : e'.dispatchNode = none := hs.dispatchNode.trans (congrArg Prod.fst ha)
    have htoken : e'.dispatchToken = none := hs.dispatchToken.trans (congrArg Prod.snd ha)
    simp [occupies_queued (hs.status.trans hq), hnode, htoken] at ho
  | reserve id node expected =>
    simp only [step] at h
    split at h
    · rename_i current hadm hrow
      split at h
      · rename_i hguard
        simp only [Bool.and_eq_true, decide_eq_true_eq] at hguard
        cases h
        refine ⟨hi.bound, fun adm ha => ?_⟩
        cases ha
        exact startReading_snapshot hrow hguard.1
      · cases h
        exact hi
    · cases h
  | read =>
    simp only [step] at h
    split at h
    · cases h
    · rename_i adm hadm
      obtain ⟨adm', hread, rfl⟩ := Option.map_eq_some_iff.mp h
      refine ⟨hi.bound, fun x hx => ?_⟩
      cases hx
      exact readNext_snapshot (hi.snapshot adm hadm) hread
  | claim token owner w =>
    simp only [step] at h
    split at h
    · cases h
    · rename_i adm hadm
      split at h
      · rename_i hp
        cases h
        refine claim_inv hi hadm hp fun x hx hl ho e he => ?_
        have hx' : (decide (x.status ≠ .lost) || occupiesQuota x s.clock ||
            (row cfg s.files x.jobId).all fun e' => !occupiesQuota e' s.clock) = true := by
          simp only [ok, hadm, Option.all_some, List.all_eq_true] at hok
          exact hok x hx
        simpa [hl, ho, he] using hx'
      · cases h
  | abandon =>
    cases h
    exact ⟨hi.bound, by simp⟩

/-- From a registry within the quota, every run whose steps meet the condition stays within it. -/
theorem quota_bound {as : List Act}
    (hinit : occupied cfg s.toSys + (damaged cfg s.files).length ≤ cap)
    (hidle : s.admission = none) (hm : Meets (fun s a => ok cfg s a = true)
      (step cfg (some cap)) s as) (hrun : run (step cfg (some cap)) s as = some s') :
    occupied cfg s'.toSys + (damaged cfg s'.files).length ≤ cap := by
  have hi : Inv cfg cap s := ⟨hinit, by simp [hidle]⟩
  exact (run_inv_of_meets (fun s a s' hi hok h => step_inv hi hok h) hi hm hrun).bound

end

/-- A registry of a few rows. -/
def Sys.sample (rows : List JobEntry) : Sys where
  files
    | .legacy => ∅
    | .role => (rows.map fun e => ⟨e.jobId, RowFile.document e 1000⟩).toAList
  stamp _ := 1
  index := none
  clock := 2000
  admission := none

/-- Two queued jobs are tried one after the other. -/
def sampleClaims : List Act :=
  [.reserve "job-0" "n1" (none, none), .read, .read,
    .claim "0123456789abcdef0123456789abcdef" "boot:17:99" { stamp := 2 }, .tick 5,
    .reserve "job-1" "n1" (none, none), .read, .read,
    .claim "fedcba9876543210fedcba9876543210" "boot:18:99" { stamp := 3 }]

theorem quota_bound_sample :
    ∃ s', run (step .sample (some 1)) (.sample [.sample "job-0", .sample "job-1"]) sampleClaims =
        some s' ∧
      occupied .sample s'.toSys + (damaged .sample s'.files).length ≤ 1 := by
  have hrun : (run (step .sample (some 1)) (.sample [.sample "job-0", .sample "job-1"])
      sampleClaims).isSome = true := by decide +kernel
  obtain ⟨s', hs'⟩ := Option.isSome_iff_exists.mp hrun
  exact ⟨s', hs', quota_bound (by decide +kernel) rfl (by decide +kernel) hs'⟩

/-- An older lost row that says neither why nor when it ended. -/
def sampleOldLost : JobEntry :=
  { JobEntry.sample "job-0" with status := .lost, node := "n0", pgid := some 5 }

/-- The window of `job-0` has passed, `job-1` takes the only slot, and the probe of `job-0` repeats
that it is lost: the repair gives it a finish time of now, and with it a slot. -/
theorem lost_row_occupies_again :
    let s : Sys := .sample [sampleOldLost, .sample "job-1"]
    occupied .sample s.toSys + (damaged .sample s.files).length = 0 ∧
    (run (step .sample (some 1)) s
      [.reserve "job-1" "n1" (none, none), .read,
        .claim "0123456789abcdef0123456789abcdef" "boot:17:99" { stamp := 2 }, .tick 5,
        .event "job-0" (.refresh sampleOldLost false ⟨"LOST", none, none, none, ""⟩
          "~/dt/jobs/job-0/state") { stamp := 3 }]).map (fun s' =>
        occupied .sample s'.toSys + (damaged .sample s'.files).length) = some 2 := by
  decide +kernel

/-! ## Rescues -/

section

variable {e e' : JobEntry} {p : StatusProbe} {stateDir : String} {now : Time}

/-- A probe takes no finalized row back. -/
theorem not_final_of_probe (hl : e.status = .lost)
    (h : applyStatusProbe e p stateDir now = some e') : e.terminalFinalizedAt = none := by
  unfold applyStatusProbe at h
  split at h
  · cases h
  · rename_i hopen
    simpa [hl] using hopen

/-- An unfenced lost row is counted exactly while its window lasts. -/
theorem occupies_lost_iff (hl : e.status = .lost) (hf : e.terminalFinalizedAt = none) :
    occupiesQuota e now = true ↔ now - observedAt e ≤ lostRecheckS := by
  rw [occupies_lost hl]
  simp [lostReconciling, hl, hf]

/-- A probe changes only a lost row that was never finalized. The row was counted before exactly
if its window had not passed; inside the window, and wherever the row is finished, the probe does
not raise the occupancy of a registry. -/
theorem rescue_occupancy (hl : e.status = .lost)
    (h : applyStatusProbe e p stateDir now = some e') :
    e.terminalFinalizedAt = none ∧
    (occupiesQuota e now = true ↔ now - observedAt e ≤ lostRecheckS) ∧
    (now - observedAt e ≤ lostRecheckS ∨ e'.status = .finished → ∀ before after : List JobEntry,
      occupancy (before ++ e' :: after) now ≤ occupancy (before ++ e :: after) now) := by
  have hf := not_final_of_probe hl h
  have hiff : occupiesQuota e now = true ↔ now - observedAt e ≤ lostRecheckS :=
    occupies_lost_iff hl hf
  refine ⟨hf, hiff, fun hcase before after => ?_⟩
  have hle : occupiesQuota e' now = true → occupiesQuota e now = true := by
    intro ho
    rcases hcase with hw | hfin
    · exact hiff.mpr hw
    · rw [not_occupies_of_settled (settled_of_status (.inl hfin))] at ho
      cases ho
  simp only [occupancy, List.filter_append, List.filter_cons, List.length_append]
  cases he' : occupiesQuota e' now with
  | false => cases occupiesQuota e now <;> simp
  | true => simp [hle he']

end

/-- A loss of the last minute that the probe takes back. -/
theorem rescue_occupancy_sample :
    let e : JobEntry := { JobEntry.sample "job-0" with
      status := .lost, node := "n0", pgid := some 5, finishedAt := some 1990 }
    let p : StatusProbe := ⟨"RUNNING", none, none, none, ""⟩
    (applyStatusProbe e p "~/dt/jobs/job-0/state" 2000).map (·.status) = some .running ∧
      occupiesQuota e 2000 = true := by
  intro e p
  have h : (applyStatusProbe e p "~/dt/jobs/job-0/state" 2000).map (·.status) = some .running := by
    decide +kernel
  obtain ⟨e', he', -⟩ := Option.map_eq_some_iff.mp h
  exact ⟨h, (rescue_occupancy rfl he').2.1.mpr (by decide +kernel)⟩

/-- A loss that was not fenced is taken back long after its window, when it is not counted any
more. -/
theorem late_rescue_uncounted :
    let e : JobEntry := { JobEntry.sample "job-0" with
      status := .lost, node := "n0", pgid := some 5, finishedAt := some 1100 }
    let p : StatusProbe := ⟨"RUNNING", none, none, none, ""⟩
    occupiesQuota e 2000 = false ∧
      (applyStatusProbe e p "~/dt/jobs/job-0/state" 2000).map (fun e' =>
        (e'.status, occupiesQuota e' 2000)) = some (.running, true) := by
  decide +kernel

end Dt.Scheduler.Quota
