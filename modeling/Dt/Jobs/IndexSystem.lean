import Dt.Jobs.ActiveIndex
import Dt.Lib.Machine
import Mathlib.Logic.Function.Basic

/-!
# Writers and rebuilders of the active index

Any number of processes save and remove rows and rebuild the index. A mutation is prepared
without the index lock, then takes the lock, reads the previous index, changes the row, computes
the refreshed index and writes it; it may fail, or its process may die, between any two of these.
A rebuild reads the revisions, lists the names, decodes row by row, reads the revisions again,
and only then takes the lock to publish what it found, if the revisions are still the same.

The clock is advanced by `tick` and never goes back; every change of a directory moves its stamp
forward, including those that change no row (`touch`: temporary files, tombstones, lock files).
-/

namespace Dt.Jobs.IndexSystem

open Dt.Lib

abbrev Pid := Nat

/-- Where a process stands. -/
inductive Proc where
  | idle
  /-- a prepared row change of directory `d`, waiting for the index lock -/
  | ready (d : Layout) (c : RowChange)
  /-- holds the lock and has read the previous index -/
  | locked (d : Layout) (c : RowChange) (previous : Option ActiveIndex)
  /-- the row change is on disk -/
  | written (d : Layout) (c : RowChange) (previous : Option ActiveIndex)
  /-- holds the lock and is about to replace the index -/
  | writing (i : ActiveIndex)
  | rebuilding (now : Time) (before : Revisions)
  | scanning (now : Time) (before : Revisions) (pending found : List JobId)
      (damage : List RegistryDamage)
  | scanned (after : Revisions) (found : List JobId) (damage : List RegistryDamage)

def Proc.holdsLock : Proc → Bool
  | .locked .. | .written .. | .writing _ => true
  | .idle | .ready .. | .rebuilding .. | .scanning .. | .scanned .. => false

structure Sys extends Disk where
  clock : Time
  lock : Option Pid
  procs : Pid → Proc

inductive Act where
  | tick (dt : Time)
  | touch (d : Layout) (stamp : Nat)
  | dropIndex
  | saveBegin (p : Pid) (entry : JobEntry)
  | removeBegin (p : Pid) (id : JobId)
  | lockIndex (p : Pid)
  | publishRow (p : Pid) (stamp : Nat)
  | refresh (p : Pid)
  | writeIndex (p : Pid)
  | fail (p : Pid)
  | rebuild (p : Pid) (now : Time)
  | scanOpen (p : Pid)
  | scanRow (p : Pid) (id : JobId)
  | scanEnd (p : Pid)
  | lockScan (p : Pid)

def Sys.setProc (s : Sys) (p : Pid) (q : Proc) : Sys :=
  { s with procs := Function.update s.procs p q }

/-- Take the lock, or give it back. -/
def Sys.setLock (s : Sys) (l : Option Pid) : Sys := { s with lock := l }

/-- One row change on disk. -/
def applyChange (files : Files) (now : Time) : RowChange → Files
  | .saved doc => files.insert doc.jobId (.document doc now)
  | .removed id => files.erase id

/-- The authority `save` and `remove_record` expect to find after their change. -/
def expectedAuthority (d : Layout) : RowChange → Option Layout
  | .saved _ => some d
  | .removed _ => none

/-- What a scan step adds for one name. -/
def scanName (cfg : HeadConfig) (r : Registry) (now : Time) (id : JobId) (found : List JobId)
    (damage : List RegistryDamage) : List JobId × List RegistryDamage :=
  match streamEntry cfg r id with
  | .error m => (found, damage ++ [⟨id ++ ".json", diagnosticExcerpt maxJobDiagnosticChars m⟩])
  | .ok e => (if activeIndexMember e now then id :: found else found, damage)

def step (cfg : HeadConfig) (s : Sys) : Act → Option Sys
  | .tick dt => if 0 ≤ dt then some { s with clock := s.clock + dt } else none
  | .touch d stamp =>
    if s.stamp d < stamp then some { s with stamp := Function.update s.stamp d stamp } else none
  | .dropIndex => some { s with index := none }
  | .saveBegin p entry =>
    match s.procs p, savePrepare cfg s.files entry s.clock with
    | .idle, .ok (d, doc) => some (s.setProc p (.ready d (.saved doc)))
    | _, _ => none
  | .removeBegin p id =>
    match s.procs p, resolveRegistryRecord cfg s.files id with
    | .idle, .ok (some d) =>
      match readEntryPath s.files d id with
      | .ok _ => some (s.setProc p (.ready d (.removed id)))
      | .error _ => none
    | _, _ => none
  | .lockIndex p =>
    match s.procs p, s.lock with
    | .ready d c, none =>
      some ((s.setLock (some p)).setProc p (.locked d c (readActiveIndex cfg s.toDisk)))
    | _, _ => none
  | .publishRow p stamp =>
    match s.procs p with
    | .locked d c prev =>
      if s.stamp d < stamp then
        some (({ s with
          files := Function.update s.files d (applyChange (s.files d) s.clock c)
          stamp := Function.update s.stamp d stamp }).setProc p (.written d c prev))
      else none
    | _ => none
  | .refresh p =>
    match s.procs p with
    | .written d c prev =>
      if (resolveRegistryRecord cfg s.files c.jobId).toOption = some (expectedAuthority d c) then
        match prev.bind fun i =>
            refreshActiveIndex (registryDirectoryRevisions cfg s.toDisk) i s.clock c with
        | some i => some (s.setProc p (.writing i))
        | none => some ((s.setLock none).setProc p .idle)
      else none
    | _ => none
  | .writeIndex p =>
    match s.procs p with
    | .writing i => some (({ s with index := some i }).setLock none |>.setProc p .idle)
    | _ => none
  | .fail p =>
    if (s.procs p).holdsLock then some ((s.setLock none).setProc p .idle)
    else some (s.setProc p .idle)
  | .rebuild p now =>
    match s.procs p with
    | .idle =>
      if now ≤ s.clock then
        some (s.setProc p (.rebuilding now (registryDirectoryRevisions cfg s.toDisk)))
      else none
    | _ => none
  | .scanOpen p =>
    match s.procs p with
    | .rebuilding now before =>
      some (s.setProc p (.scanning now before (registryIds cfg s.files) [] []))
    | _ => none
  | .scanRow p id =>
    match s.procs p with
    | .scanning now before pending found damage =>
      let (found', damage') := scanName cfg s.files now id found damage
      some (s.setProc p (.scanning now before (pending.filter (· ≠ id)) found' damage'))
    | _ => none
  | .scanEnd p =>
    match s.procs p with
    | .scanning _ before [] found damage =>
      if before = registryDirectoryRevisions cfg s.toDisk then
        some (s.setProc p (.scanned before found damage))
      else some (s.setProc p .idle)
    | _ => none
  | .lockScan p =>
    match s.procs p, s.lock with
    | .scanned after found damage, none =>
      if registryDirectoryRevisions cfg s.toDisk = after then
        match indexDocument after found.dedup damage with
        | some i => some ((s.setLock (some p)).setProc p (.writing i))
        | none => some (s.setProc p .idle)
      else some (s.setProc p .idle)
    | _, _ => none

/-! ## The invariant -/

def Sys.revs (cfg : HeadConfig) (s : Sys) : Revisions := registryDirectoryRevisions cfg s.toDisk

/-- Ids collected at revisions `r`: these are not newer than the directories, and as long as they
are the current ones no active row is missing. -/
structure CoveredAt (cfg : HeadConfig) (s : Sys) (r : Revisions) (ids : List JobId) : Prop where
  old : r.sum ≤ (s.revs cfg).sum
  covers : r = s.revs cfg → Covers cfg s.files s.clock ids

/-- A published row is the document that was prepared. -/
def Landed (s : Sys) (d : Layout) : RowChange → Prop
  | .saved doc => ∃ mtime, (s.files d).lookup doc.jobId = some (.document doc mtime)
  | .removed _ => True

def ChangeOk : RowChange → Prop
  | .saved doc => Publishable doc
  | .removed _ => True

/-- What a process knows about the registry it works on. -/
def ProcOk (cfg : HeadConfig) (s : Sys) : Proc → Prop
  | .idle => True
  | .ready d c => d ∈ cfg.candidates ∧ ChangeOk c
  | .locked d c prev => d ∈ cfg.candidates ∧ ChangeOk c ∧
      ∀ i, prev = some i → Covers cfg s.files s.clock i.jobIds
  | .written d c prev => ChangeOk c ∧ Landed s d c ∧
      ∀ i, prev = some i → ∀ id e, id ≠ c.jobId → row cfg s.files id = some e →
        activeIndexMember e s.clock = true → id ∈ i.jobIds
  | .writing i => CoveredAt cfg s i.revisions i.jobIds
  | .rebuilding now before => now ≤ s.clock ∧ before.sum ≤ (s.revs cfg).sum
  | .scanning now before pending found _ => now ≤ s.clock ∧
      CoveredAt cfg s before (pending ++ found)
  | .scanned after found _ => CoveredAt cfg s after found

structure Inv (cfg : HeadConfig) (s : Sys) : Prop where
  index : ∀ i, s.index = some i → CoveredAt cfg s i.revisions i.jobIds
  lock : ∀ p, (s.procs p).holdsLock = true → s.lock = some p
  procs : ∀ p, ProcOk cfg s (s.procs p)

/-! ### Steps that change no row -/

/-- `s'` has the rows of `s`, at the same time or later, and no directory went back. -/
structure Later (cfg : HeadConfig) (s s' : Sys) : Prop where
  files : s'.files = s.files
  clock : s.clock ≤ s'.clock
  revs : (s.revs cfg).sum ≤ (s'.revs cfg).sum
  same : ∀ r : Revisions, r.sum ≤ (s.revs cfg).sum → r = s'.revs cfg → r = s.revs cfg

variable {cfg : HeadConfig} {s s' : Sys}

theorem Later.of_eq (hf : s'.files = s.files) (hs : s'.stamp = s.stamp)
    (hc : s.clock ≤ s'.clock) : Later cfg s s' := by
  have hr : s'.revs cfg = s.revs cfg := by
    simp only [Sys.revs, registryDirectoryRevisions, hs]
  exact ⟨hf, hc, hr ▸ le_refl _, fun r _ h => h.trans hr⟩

theorem CoveredAt.later {r : Revisions} {ids : List JobId} (h : CoveredAt cfg s r ids)
    (hl : Later cfg s s') : CoveredAt cfg s' r ids where
  old := h.old.trans hl.revs
  covers hr := by
    rw [hl.files]
    exact (h.covers (hl.same r h.old hr)).mono hl.clock fun _ h => h

theorem ProcOk.later {q : Proc} (h : ProcOk cfg s q) (hl : Later cfg s s') :
    ProcOk cfg s' q := by
  cases q with
  | idle => trivial
  | ready d c => exact h
  | locked d c prev =>
    refine ⟨h.1, h.2.1, fun i hi => ?_⟩
    rw [hl.files]
    exact (h.2.2 i hi).mono hl.clock fun _ h => h
  | written d c prev =>
    refine ⟨h.1, ?_, fun i hi id e hne hr hm => ?_⟩
    · cases c with
      | saved doc =>
        obtain ⟨mtime, hd⟩ := h.2.1
        exact ⟨mtime, by rw [hl.files]; exact hd⟩
      | removed id => trivial
    · rw [hl.files] at hr
      exact h.2.2 i hi id e hne hr (activeIndexMember_anti hl.clock hm)
  | writing i => exact CoveredAt.later h hl
  | rebuilding now before => exact ⟨h.1.trans hl.clock, h.2.trans hl.revs⟩
  | scanning now before pending found damage =>
    exact ⟨h.1.trans hl.clock, CoveredAt.later h.2 hl⟩
  | scanned after found damage => exact CoveredAt.later h hl

/-- A step that changes no row and moves one process on. -/
theorem Inv.later {p : Pid} {q : Proc} (h : Inv cfg s) (hl : Later cfg s s')
    (hp : s'.procs = Function.update s.procs p q) (hq : ProcOk cfg s' q)
    (hi : ∀ i, s'.index = some i → CoveredAt cfg s' i.revisions i.jobIds)
    (hk : ∀ x, (Function.update s.procs p q x).holdsLock = true → s'.lock = some x) :
    Inv cfg s' where
  index := hi
  lock x hx := hk x (hp ▸ hx)
  procs x := by
    rw [hp]
    rcases eq_or_ne x p with rfl | hne
    · rwa [Function.update_self]
    · rw [Function.update_of_ne hne]
      exact (h.procs x).later hl

/-! ### Holding the lock -/

theorem lock_keep {p : Pid} {q : Proc} (h : Inv cfg s) (hq : q.holdsLock = true →
    (s.procs p).holdsLock = true) :
    ∀ x, (Function.update s.procs p q x).holdsLock = true → s.lock = some x := by
  intro x hx
  rcases eq_or_ne x p with rfl | hne
  · rw [Function.update_self] at hx
    exact h.lock x (hq hx)
  · rw [Function.update_of_ne hne] at hx
    exact h.lock x hx

theorem lock_take {p : Pid} {q : Proc} (h : Inv cfg s) (hfree : s.lock = none) :
    ∀ x, (Function.update s.procs p q x).holdsLock = true → some p = some x := by
  intro x hx
  rcases eq_or_ne x p with rfl | hne
  · rfl
  · rw [Function.update_of_ne hne] at hx
    exact absurd (h.lock x hx) (by simp [hfree])

theorem lock_release {p : Pid} {q : Proc} (h : Inv cfg s) (hp : (s.procs p).holdsLock = true)
    (hq : q.holdsLock = false) :
    ∀ x, (Function.update s.procs p q x).holdsLock = true → (none : Option Pid) = some x := by
  intro x hx
  rcases eq_or_ne x p with rfl | hne
  · rw [Function.update_self, hq] at hx
    cases hx
  · rw [Function.update_of_ne hne] at hx
    have := (h.lock x hx).symm.trans (h.lock p hp)
    exact absurd (Option.some.inj this) hne

/-! ### The step that changes a row -/

theorem revs_lt {d : Layout} {stamp : Nat} (hd : d ∈ cfg.candidates) (hs : s.stamp d < stamp)
    (hs' : s'.stamp = Function.update s.stamp d stamp) :
    (s.revs cfg).sum < (s'.revs cfg).sum := by
  unfold Sys.revs registryDirectoryRevisions
  unfold HeadConfig.candidates at hd
  rw [hs']
  cases hlay : cfg.layout with
  | legacy =>
    obtain rfl : d = .legacy := by simpa [hlay] using hd
    simpa using hs
  | role => cases d <;> simp [Function.update, hs]

/-- Nothing that was collected before a row change is current after it. -/
theorem CoveredAt.of_revs_lt {r : Revisions} {ids : List JobId}
    (hold : r.sum ≤ (s.revs cfg).sum) (h : (s.revs cfg).sum < (s'.revs cfg).sum) :
    CoveredAt cfg s' r ids where
  old := hold.trans h.le
  covers hr := absurd (hr ▸ h) (not_lt.mpr hold)

theorem applyChange_lookup_ne {files : Files} {now : Time} {c : RowChange} {id : JobId}
    (h : id ≠ c.jobId) : (applyChange files now c).lookup id = files.lookup id := by
  cases c with
  | saved doc => exact AList.lookup_insert_ne h
  | removed id' => exact AList.lookup_erase_ne h

/-- The other rows are as before. -/
theorem row_applyChange_ne {r : Registry} {d : Layout} {now : Time} {c : RowChange} {id : JobId}
    (h : id ≠ c.jobId) :
    row cfg (Function.update r d (applyChange (r d) now c)) id = row cfg r id := by
  refine row_congr fun d' => ?_
  rcases eq_or_ne d' d with rfl | hne
  · rw [Function.update_self, applyChange_lookup_ne h]
  · rw [Function.update_of_ne hne]

theorem publishRow_inv {p : Pid} {d : Layout} {c : RowChange} {prev : Option ActiveIndex}
    {stamp : Nat} (h : Inv cfg s) (hp : s.procs p = .locked d c prev)
    (hs : s.stamp d < stamp) :
    Inv cfg (({ s with
      files := Function.update s.files d (applyChange (s.files d) s.clock c)
      stamp := Function.update s.stamp d stamp }).setProc p (.written d c prev)) := by
  obtain ⟨hd, hc, hprev⟩ : ProcOk cfg s (.locked d c prev) := hp ▸ h.procs p
  have hlt : (s.revs cfg).sum < ((({ s with
      files := Function.update s.files d (applyChange (s.files d) s.clock c)
      stamp := Function.update s.stamp d stamp }).setProc p (.written d c prev)).revs cfg).sum :=
    revs_lt hd hs rfl
  have hlocked : (s.procs p).holdsLock = true := by rw [hp]; rfl
  refine ⟨fun i hi => .of_revs_lt (h.index i hi).old hlt, ?_, fun x => ?_⟩
  · exact lock_keep (s := s) h fun _ => hlocked
  · change ProcOk cfg _ (Function.update s.procs p (.written d c prev) x)
    rcases eq_or_ne x p with rfl | hne
    · rw [Function.update_self]
      refine ⟨hc, ?_, fun i hi id e hid hr hm => ?_⟩
      · cases c with
        | saved doc =>
          exact ⟨s.clock, by simp [Sys.setProc, applyChange, AList.lookup_insert]⟩
        | removed id => trivial
      · exact hprev i hi id e ((row_applyChange_ne hid).symm.trans hr) hm
    · rw [Function.update_of_ne hne]
      -- no other process holds the lock, so all it knows is tied to a revision
      have hfree : (s.procs x).holdsLock = false := by
        by_contra hx
        have := (h.lock x (by simpa using hx)).symm.trans (h.lock p hlocked)
        exact hne (Option.some.inj this)
      have hx := h.procs x
      cases hq : s.procs x with
      | idle => trivial
      | ready d' c' =>
        rw [hq] at hx
        exact hx
      | locked d' c' prev' => simp [hq, Proc.holdsLock] at hfree
      | written d' c' prev' => simp [hq, Proc.holdsLock] at hfree
      | writing i => simp [hq, Proc.holdsLock] at hfree
      | rebuilding now before =>
        rw [hq] at hx
        exact ⟨hx.1, hx.2.trans hlt.le⟩
      | scanning now before pending found damage =>
        rw [hq] at hx
        exact ⟨hx.1, .of_revs_lt hx.2.old hlt⟩
      | scanned after found damage =>
        rw [hq] at hx
        exact .of_revs_lt hx.old hlt

/-! ### The refreshed index -/

theorem mem_indexDocument {r : Revisions} {ids : List JobId} {damage : List RegistryDamage}
    {i : ActiveIndex} (h : indexDocument r ids damage = some i) :
    i.revisions = r ∧ ∀ id, id ∈ i.jobIds ↔ id ∈ ids := by
  unfold indexDocument at h
  split at h
  · cases h
  · simp only [Option.some.injEq] at h
    subst h
    exact ⟨rfl, fun id => (List.perm_insertionSort _ _).mem_iff⟩

theorem mem_refreshedIds_ne {ids : List JobId} {now : Time} {c : RowChange} {id : JobId}
    (hne : id ≠ c.jobId) (h : id ∈ ids) : id ∈ refreshedIds ids now c := by
  cases c with
  | removed id' => exact List.mem_filter.mpr ⟨h, by simpa [RowChange.jobId] using hne⟩
  | saved doc =>
    simp only [refreshedIds]
    split
    · split
      · exact h
      · exact List.mem_cons_of_mem _ h
    · exact List.mem_filter.mpr ⟨h, by simpa [RowChange.jobId] using hne⟩

theorem mem_refreshedIds_saved {ids : List JobId} {now : Time} {doc : JobEntry}
    (h : activeIndexMember doc now = true) : doc.jobId ∈ refreshedIds ids now (.saved doc) := by
  simp only [refreshedIds, h, if_true]
  split
  · assumption
  · exact List.mem_cons_self

/-- The refreshed ids miss no active row, whatever the row change was. -/
theorem refreshedIds_covers {d : Layout} {c : RowChange} {i : ActiveIndex}
    (hc : ChangeOk c) (hl : Landed s d c)
    (hauth : (resolveRegistryRecord cfg s.files c.jobId).toOption = some (expectedAuthority d c))
    (hi : ∀ id e, id ≠ c.jobId → row cfg s.files id = some e →
      activeIndexMember e s.clock = true → id ∈ i.jobIds) :
    Covers cfg s.files s.clock (refreshedIds i.jobIds s.clock c) := by
  intro id e hr hm
  rcases eq_or_ne id c.jobId with rfl | hne
  · obtain ⟨d', hd', hread⟩ := row_eq_some hr
    rw [hd'] at hauth
    cases c with
    | removed id => simp [Except.toOption, expectedAuthority] at hauth
    | saved doc =>
      obtain rfl : d' = d := by simpa [Except.toOption, expectedAuthority] using hauth
      obtain ⟨mtime, hfile⟩ := hl
      obtain ⟨doc', mtime', hfile', hdec⟩ := readEntryPath_ok.mp hread
      obtain ⟨rfl, rfl⟩ : doc = doc' ∧ mtime = mtime' := by
        simpa using hfile.symm.trans hfile'
      rw [activeIndexMember_decoded hdec hc.bounded hc.timed] at hm
      exact mem_refreshedIds_saved hm
  · exact mem_refreshedIds_ne hne (hi id e hne hr hm)

theorem refresh_covered {d : Layout} {c : RowChange} {prev : Option ActiveIndex}
    {i : ActiveIndex} (h : ProcOk cfg s (.written d c prev))
    (hauth : (resolveRegistryRecord cfg s.files c.jobId).toOption = some (expectedAuthority d c))
    (hi : (prev.bind fun i => refreshActiveIndex (s.revs cfg) i s.clock c) = some i) :
    CoveredAt cfg s i.revisions i.jobIds := by
  obtain ⟨hc, hl, hprev⟩ := h
  obtain ⟨j, hj, hdoc⟩ := Option.bind_eq_some_iff.mp hi
  obtain ⟨hrev, hmem⟩ := mem_indexDocument hdoc
  refine ⟨hrev ▸ le_refl _, fun _ => ?_⟩
  exact (refreshedIds_covers hc hl hauth (hprev j hj)).mono (le_refl _) fun id => (hmem id).mpr

/-! ### The scan -/

/-- Reading one name moves it from what is pending to what was found, if it is active. -/
theorem scanName_covers {now : Time} {pending found : List JobId} {damage : List RegistryDamage}
    {id : JobId} (hnow : now ≤ s.clock) (h : Covers cfg s.files s.clock (pending ++ found)) :
    Covers cfg s.files s.clock
      (pending.filter (· ≠ id) ++ (scanName cfg s.files now id found damage).1) := by
  intro x e hr hm
  have hsub : found ⊆ (scanName cfg s.files now id found damage).1 := by
    unfold scanName
    split
    · exact List.Subset.refl _
    · dsimp only
      split
      · exact List.subset_cons_self _ _
      · exact List.Subset.refl _
  rcases List.mem_append.mp (h x e hr hm) with hp | hf
  · rcases eq_or_ne x id with rfl | hne
    · obtain ⟨e', he', hm'⟩ := streamEntry_of_row hr
      have : activeIndexMember e' now = true := by
        rw [hm']
        exact activeIndexMember_anti hnow hm
      exact List.mem_append_right _ (by simp [scanName, he', this])
    · exact List.mem_append_left _ (List.mem_filter.mpr ⟨hp, by simpa using hne⟩)
  · exact List.mem_append_right _ (hsub hf)

theorem registryIds_covers (t : Time) : Covers cfg s.files t (registryIds cfg s.files) :=
  fun _ _ hr _ => mem_registryIds hr

theorem savePrepare_dir {entry doc : JobEntry} {d : Layout} {now : Time} {r : Registry}
    (h : savePrepare cfg r entry now = .ok (d, doc)) :
    d ∈ cfg.candidates ∧ ChangeOk (.saved doc) := by
  obtain ⟨existing, hrow, -⟩ := savePrepare_ok h
  exact ⟨savePrepare_mem_candidates h, (saveRow_publishable hrow).1⟩

/-! ### Every step keeps the invariant -/

theorem Inv.setProc {p : Pid} {q : Proc} (h : Inv cfg s) (hq : ProcOk cfg s q)
    (hk : q.holdsLock = true → (s.procs p).holdsLock = true) : Inv cfg (s.setProc p q) := by
  have hl : Later cfg s (s.setProc p q) := .of_eq rfl rfl (le_refl _)
  exact h.later hl rfl (hq.later hl) (fun i hi => (h.index i hi).later hl) (lock_keep h hk)

theorem Inv.take {p : Pid} {q : Proc} (h : Inv cfg s) (hq : ProcOk cfg s q)
    (hfree : s.lock = none) : Inv cfg ((s.setLock (some p)).setProc p q) := by
  have hl : Later cfg s ((s.setLock (some p)).setProc p q) := .of_eq rfl rfl (le_refl _)
  exact h.later hl rfl (hq.later hl) (fun i hi => (h.index i hi).later hl) (lock_take h hfree)

theorem Inv.release {p : Pid} (h : Inv cfg s) (hp : (s.procs p).holdsLock = true) :
    Inv cfg ((s.setLock none).setProc p .idle) := by
  have hl : Later cfg s ((s.setLock none).setProc p .idle) := .of_eq rfl rfl (le_refl _)
  exact h.later hl rfl trivial (fun i hi => (h.index i hi).later hl) (lock_release h hp rfl)

/-- A step that moves no process. -/
theorem Inv.environment (h : Inv cfg s) (hl : Later cfg s s') (hp : s'.procs = s.procs)
    (hk : s'.lock = s.lock) (hi : s'.index = s.index ∨ s'.index = none) : Inv cfg s' where
  index i hsome := by
    rcases hi with hi | hi
    · exact (h.index i (hi ▸ hsome)).later hl
    · rw [hi] at hsome
      cases hsome
  lock p hx := by
    rw [hk]
    exact h.lock p (hp ▸ hx)
  procs p := by
    rw [hp]
    exact (h.procs p).later hl

theorem touch_later {d : Layout} {stamp : Nat} (hs : s.stamp d < stamp) :
    Later cfg s { s with stamp := Function.update s.stamp d stamp } := by
  by_cases hd : d ∈ cfg.candidates
  · have hlt : (s.revs cfg).sum <
        (Sys.revs cfg { s with stamp := Function.update s.stamp d stamp }).sum := revs_lt hd hs rfl
    exact ⟨rfl, le_refl _, hlt.le, fun r hr he => absurd (he ▸ hlt) (not_lt.mpr hr)⟩
  · -- a role directory nobody reads under the legacy layout
    have hrev : Sys.revs cfg { s with stamp := Function.update s.stamp d stamp } =
        s.revs cfg := by
      unfold HeadConfig.candidates at hd
      unfold Sys.revs registryDirectoryRevisions
      cases hlay : cfg.layout with
      | legacy =>
        have hne : Layout.legacy ≠ d := by
          rintro rfl
          simp [hlay] at hd
        simp [Function.update_of_ne hne]
      | role => cases d <;> simp [hlay] at hd
    exact ⟨rfl, le_refl _, hrev ▸ le_refl _, fun r _ he => he.trans hrev⟩

theorem step_inv {a : Act} (h : Inv cfg s) (hs : step cfg s a = some s') : Inv cfg s' := by
  cases a with
  | tick dt =>
    simp only [step] at hs
    split at hs
    · rename_i hdt
      cases hs
      exact h.environment (.of_eq rfl rfl (by simpa using hdt)) rfl rfl (.inl rfl)
    · cases hs
  | touch d stamp =>
    simp only [step] at hs
    split at hs
    · rename_i hlt
      cases hs
      exact h.environment (touch_later hlt) rfl rfl (.inl rfl)
    · cases hs
  | dropIndex =>
    cases hs
    exact h.environment (.of_eq rfl rfl (le_refl _)) rfl rfl (.inr rfl)
  | saveBegin p entry =>
    simp only [step] at hs
    split at hs
    · rename_i d doc hidle hprep
      cases hs
      exact h.setProc (savePrepare_dir hprep) (fun hq => by cases hq)
    · cases hs
  | removeBegin p id =>
    simp only [step] at hs
    split at hs
    · rename_i d hidle hres
      split at hs
      · cases hs
        have hmem : d ∈ registryLocations cfg s.files id := by simp [resolve_ok hres]
        exact h.setProc ⟨(mem_locations.mp hmem).1, trivial⟩ (fun hq => by cases hq)
      · cases hs
    · cases hs
  | lockIndex p =>
    simp only [step] at hs
    split at hs
    · rename_i d c hp hfree
      cases hs
      obtain ⟨hd, hc⟩ : ProcOk cfg s (.ready d c) := hp ▸ h.procs p
      refine h.take ⟨hd, hc, fun i hi => ?_⟩ hfree
      obtain ⟨j, hj, hrev, -, -, hmem⟩ := readActiveIndex_some hi
      exact ((h.index j hj).covers hrev).mono (le_refl _) fun id => (hmem id).mpr
    · cases hs
  | publishRow p stamp =>
    simp only [step] at hs
    split at hs
    · rename_i d c prev hp
      split at hs
      · rename_i hlt
        cases hs
        exact publishRow_inv h hp hlt
      · cases hs
    · cases hs
  | refresh p =>
    simp only [step] at hs
    split at hs
    · rename_i d c prev hp
      have hlock : (s.procs p).holdsLock = true := by rw [hp]; rfl
      split at hs
      · rename_i hauth
        split at hs
        · rename_i i hi
          cases hs
          exact h.setProc (refresh_covered (hp ▸ h.procs p) hauth hi) fun _ => hlock
        · cases hs
          exact h.release hlock
      · cases hs
    · cases hs
  | writeIndex p =>
    simp only [step] at hs
    split at hs
    · rename_i i hp
      cases hs
      have hlock : (s.procs p).holdsLock = true := by rw [hp]; rfl
      have hi : CoveredAt cfg s i.revisions i.jobIds := by
        have := h.procs p
        rwa [hp] at this
      have hl : Later cfg s (({ s with index := some i }).setLock none |>.setProc p .idle) :=
        .of_eq rfl rfl (le_refl _)
      refine h.later hl rfl trivial (fun j hj => ?_) (lock_release h hlock rfl)
      obtain rfl : i = j := Option.some.inj hj
      exact hi.later hl
    · cases hs
  | fail p =>
    simp only [step] at hs
    split at hs
    · rename_i hlock
      cases hs
      exact h.release hlock
    · cases hs
      exact h.setProc trivial fun hq => by cases hq
  | rebuild p now =>
    simp only [step] at hs
    split at hs
    · split at hs
      · rename_i hnow
        cases hs
        exact h.setProc ⟨hnow, le_refl _⟩ fun hq => by cases hq
      · cases hs
    · cases hs
  | scanOpen p =>
    simp only [step] at hs
    split at hs
    · rename_i now before hp
      cases hs
      obtain ⟨hnow, hold⟩ : ProcOk cfg s (.rebuilding now before) := hp ▸ h.procs p
      refine h.setProc ⟨hnow, hold, fun _ => ?_⟩ fun hq => by cases hq
      simpa using registryIds_covers s.clock
    · cases hs
  | scanRow p id =>
    simp only [step] at hs
    split at hs
    · rename_i now before pending found damage hp
      cases hs
      obtain ⟨hnow, hold, hcov⟩ : ProcOk cfg s (.scanning now before pending found damage) :=
        hp ▸ h.procs p
      exact h.setProc ⟨hnow, hold, fun hr => scanName_covers hnow (hcov hr)⟩ fun hq => by cases hq
    · cases hs
  | scanEnd p =>
    simp only [step] at hs
    split at hs
    · rename_i now before found damage hp
      obtain ⟨-, hcov⟩ : ProcOk cfg s (.scanning now before [] found damage) := hp ▸ h.procs p
      split at hs
      · cases hs
        exact h.setProc hcov fun hq => by cases hq
      · cases hs
        exact h.setProc trivial fun hq => by cases hq
    · cases hs
  | lockScan p =>
    simp only [step] at hs
    split at hs
    · rename_i after found damage hp hfree
      have hcov : CoveredAt cfg s after found := by
        have := h.procs p
        rwa [hp] at this
      split at hs
      · split at hs
        · rename_i i hi
          cases hs
          obtain ⟨hrev, hmem⟩ := mem_indexDocument hi
          refine h.take ⟨hrev ▸ hcov.old, fun hr => ?_⟩ hfree
          exact (hcov.covers (hrev ▸ hr)).mono (le_refl _) fun id hid =>
            (hmem id).mpr (List.mem_dedup.mpr hid)
        · cases hs
          exact h.setProc trivial fun hq => by cases hq
      · cases hs
        exact h.setProc trivial fun hq => by cases hq
    · cases hs

/-! ## What readers get -/

/-- No index has been built and nobody is at work; the registry is arbitrary. -/
structure Start (s : Sys) : Prop where
  index : s.index = none
  lock : s.lock = none
  procs : ∀ p, s.procs p = .idle

theorem Start.inv (h : Start s) : Inv cfg s where
  index i hi := by rw [h.index] at hi; cases hi
  lock p hp := by rw [h.procs p] at hp; cases hp
  procs p := by rw [h.procs p]; trivial

/-- Whenever the stored index is accepted, the entries read through it are exactly the rows of a
full scan that are active at that time: none is missing, removed or stale. -/
theorem activeEntries_exact {i : ActiveIndex} (hs : Reach (step cfg) Start s)
    (hi : readActiveIndex cfg s.toDisk = some i) :
    (activeEntries cfg s.toDisk s.clock).Perm
      ((registryRows cfg s.files).filter (activeIndexMember · s.clock)) := by
  have hinv : Inv cfg s := reach_inv (fun s h => h.inv) (fun s a s' h hs => step_inv h hs) hs
  obtain ⟨j, hj, hrev, -, -, hmem⟩ := readActiveIndex_some hi
  refine activeEntries_perm hi (Covers.mono ?_ (le_refl _) fun id => (hmem id).mpr)
  exact (hinv.index j hj).covers hrev

def Sys.empty : Sys where
  files _ := ∅
  stamp _ := 0
  index := none
  clock := 2000
  lock := none
  procs _ := .idle

/-- One save, a rebuild that publishes an index, and a second save that refreshes it. -/
def sampleRun : List Act :=
  [.saveBegin 0 (.sample "job-1"), .lockIndex 0, .publishRow 0 1, .refresh 0, .rebuild 1 2000,
    .scanOpen 1, .scanRow 1 "job-1", .scanEnd 1, .lockScan 1, .writeIndex 1, .tick 5,
    .saveBegin 2 (.sample "job-2"), .lockIndex 2, .publishRow 2 2, .refresh 2, .writeIndex 2]

theorem activeEntries_exact_sampleRun :
    ∃ s i, run (step .sample) .empty sampleRun = some s ∧
      readActiveIndex .sample s.toDisk = some i ∧ i.jobIds = ["job-1", "job-2"] ∧
      (activeEntries .sample s.toDisk s.clock).Perm
        ((registryRows .sample s.files).filter (activeIndexMember · s.clock)) := by
  have hids : ((run (step .sample) .empty sampleRun).bind fun s =>
      readActiveIndex .sample s.toDisk).map (·.jobIds) = some ["job-1", "job-2"] := by
    decide +kernel
  obtain ⟨i, hi, hjobs⟩ := Option.map_eq_some_iff.mp hids
  obtain ⟨s, hs, hread⟩ := Option.bind_eq_some_iff.mp hi
  have hstart : Start Sys.empty := ⟨rfl, rfl, fun _ => rfl⟩
  exact ⟨s, i, hs, hread, hjobs, activeEntries_exact ⟨_, _, hstart, hs⟩ hread⟩

end Dt.Jobs.IndexSystem
