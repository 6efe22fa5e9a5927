import Dt.Dispatch.Launched

/-!
# Which lifecycle writes the registry accepts

Every path of `dispatch_queued` and of `dt kill` that ends in a save hands over a row built from
the stored row or from the dispatcher's copy of it. `Path` has one constructor per path, `Path.row`
is the row, and `Path.Meets` says when `save` takes it. The rows a path starts from are rows that
an earlier save accepted.
-/

namespace Dt.Dispatch

open Dt.Lib Dt.Jobs

/-! ## The paths -/

/-- The commits of a dispatcher, with the data their path can really carry. -/
inductive Commit where
  | payload (sha : Hex 64)
  | fail (detail : String)
  | blocked (detail : String)
  | launched (l : Launched)
  | clear
  | hold (reason : String) (refusals : Option (Dict String × String))
  | failPlacement (reasons : Dict String) (w : Worker) (uncertain : Bool)
  | settle (reasons : Dict String) (reason outcome : String)

def Commit.rewrite (head : Head) (m : JobEntry) : Commit → Rewrite
  | .payload sha => .payload sha.1
  | .fail detail => .fail detail
  | .blocked detail => .blocked detail
  | .launched l => l.rewrite head m
  | .clear => .clear
  | .hold reason refusals => .hold reason refusals
  | .failPlacement reasons w uncertain => .failPlacement reasons w.node w.jobDir w.root uncertain
  | .settle reasons reason outcome => .settle reasons reason outcome

/-- The candidate; a launch was recorded at its own time. -/
def Commit.candidate (head : Head) (m : JobEntry) (now : Time) : Commit → JobEntry
  | .launched l => l.row head m
  | k => (k.rewrite head m).apply m now

/-- `_positive_timestamp` keeps only positive times of a probe. -/
def Trusted (p : StatusProbe) : Prop := (∀ t ∈ p.startedAt, 0 < t) ∧ ∀ t ∈ p.finishedAt, 0 < t

/-- `termination_verdict` keeps only exit codes up to 255. -/
def Verdict.Recorded : Verdict → Prop
  | .exited code => exitCodeOk code
  | _ => True

inductive Path where
  | finalize (observedNow : Time)
  | gateFail (detail : String)
  | gateSkip (detail : String)
  | gateReason (reason : Option String)
  | claim (expected : Option String × Option String) (node : String) (token : Hex 32)
      (owner : { s : String // validDispatchOwner s = true })
  | claimRefused (expected : Option String × Option String) (reason : String)
  | commit (k : Commit)
  | restoreRunning (l : Launched) (detail : String)
  | restoreFinished (l : Launched)
  | recordCancelled (l : Launched)
  | refresh (p : StatusProbe) (trusted : Trusted p) (stateDir : String)
  | kill (sig : String) (sweep : Bool) (v : Verdict) (recorded : v.Recorded)
  | dequeue

/-- The row a path hands to `save`, if it saves: `c` is the stored row and `m` the dispatcher's
copy. -/
def Path.row (head : Head) (c m : JobEntry) (now : Time) : Path → Option JobEntry
  | .finalize observedNow => (Event.finalize observedNow).write (some c) now
  | .gateFail detail => (Event.gateFail m detail).write (some c) now
  | .gateSkip detail => (Event.gateSkip m detail).write (some c) now
  | .gateReason reason => (Event.gateReason m reason).write (some c) now
  | .claim expected node token owner =>
    (Event.claim expected node token.1 owner.1).write (some c) now
  | .claimRefused expected reason => (Event.claimRefused expected reason).write (some c) now
  | .commit k =>
    if (k.rewrite head m).persist m then
      (Event.commit (k.candidate head m now) (attempt m)).write (some c) now
    else none
  | .restoreRunning l detail => (Event.restoreRunning (l.row head m) detail).write (some c) now
  | .restoreFinished l => (Event.restoreFinished (l.row head m)).write (some c) now
  | .recordCancelled l => (Event.recordCancelled m (l.row head m)).write (some c) now
  | .refresh p _ stateDir => (Event.refresh m false p stateDir).write (some c) now
  | .kill sig sweep v _ => (Event.kill m sig sweep v).write (some c) now
  | .dequeue => (Event.dequeue m).write (some c) now

/-! ## When they are accepted -/

/-- A legacy directory holds no row of the role layout. -/
def Authority (d : Layout) (l : Option Layout) : Prop := ¬ (d = .legacy ∧ l = some .role)

def Commit.Meets (head : Head) (d : Layout) (m : JobEntry) : Commit → Prop
  | .fail _ => m.dispatchNode = none
  | .launched l => l.Ok ∧ l.reasons.length ≤ maxJobCollectionItems ∧
      Authority d (l.layout head m)
  | .hold _ (some (refusals, outcome)) => patternOk (placementPattern refusals outcome)
  | .failPlacement reasons _ _ => reasons.length ≤ maxJobCollectionItems
  | .settle reasons _ outcome => reasons.length ≤ maxJobCollectionItems ∧
      (reasons ≠ [] → patternOk (placementPattern reasons outcome))
  | .payload _ | .blocked _ | .clear | .hold _ none => True

def Path.Meets (head : Head) (d : Layout) (c m : JobEntry) : Path → Prop
  | .gateFail _ | .gateSkip _ => c.dispatchNode = none
  | .commit k => k.Meets head d m
  | .restoreRunning l _ | .restoreFinished l => l.Ok ∧ l.reasons.length ≤ maxJobCollectionItems ∧
      Authority d (l.layout head m)
  | .recordCancelled l => l.Ok ∧ Authority d (l.layout head m) ∧
      (c.legacyCleanupPending = true → l.layout head m = some .role)
  | .kill .. => c.terminalFinalizedAt = none
  | .finalize _ | .gateReason _ | .claim .. | .claimRefused .. | .refresh .. | .dequeue => True

/-! ## Stored rows -/

/-- A row as it is read back after a save accepted it into the directory `d`. -/
def Accepted (d : Layout) (e : JobEntry) : Prop :=
  ∃ cfg existing entry now doc mtime, saveRow cfg d existing entry now = .ok doc ∧
    decodeEntry true mtime doc.jobId doc = .ok e

structure Stored (d : Layout) (e : JobEntry) : Prop where
  valid : Valid e
  layout : e.storageLayout.isSome
  authority : Authority d e.storageLayout
  loaded : e.customEnvLoaded = true

theorem hexOk_dropEmpty {n : Nat} {v : Option String} (h : hexOk n (dropEmpty v)) :
    hexOk n (dropEmpty (dropEmpty v)) := by
  unfold dropEmpty at h ⊢
  split at h
  · rename_i hempty
    simp [hempty, hexOk]
  · rename_i hne
    simpa [hne] using h

/-- Reading a row back normalises it within what is valid. -/
theorem valid_decoded {doc e : JobEntry} {mtime : Option Time} {id : JobId} (h : Valid doc)
    (hp : Publishable doc) (he : decodeEntry true mtime id doc = .ok e) : Valid e := by
  obtain ⟨-, -, env, henv, -, rfl⟩ := decodeEntry_ok.mp he
  obtain ⟨updated, hupdated⟩ := Option.isSome_iff_exists.mp hp.timed
  have hfailures : (boundEntryDiagnostics doc).placementFailures = doc.placementFailures := by
    rw [hp.bounded]
  obtain ⟨hid, hcustom, l₃, l₄, l₅, c₂, c₃, c₄, c₅, c₆, r₁, r₂, h₃, h₄, h₆, hrest⟩ := h.fixed
  obtain ⟨t₁, t₂, t₃, t₄, t₅, t₆⟩ := h.times
  obtain ⟨k₁, k₂, k₃, k₄⟩ := h.claim
  obtain ⟨g₁, g₂, g₃, g₄, g₅, g₆, g₇⟩ := h.run
  have hsorted : env.Perm doc.customEnv := by
    unfold validateCustomEnv at henv
    split at henv
    · cases henv
    · split at henv
      · cases henv
      · cases henv
        exact List.perm_insertionSort _ _
  exact {
    fixed := ⟨hid, validateCustomEnv_perm hsorted hcustom, l₃, l₄, l₅, c₂, c₃, c₄, c₅, c₆, r₁, r₂,
      h₃, h₄, hexOk_dropEmpty h₆, hrest⟩
    times := by
      refine ⟨t₁, t₂, ?_, t₄, ?_, t₆⟩
      · simpa [fillDefaults, boundedEntry, boundEntryDiagnostics, hupdated] using t₃
      · simp only [fillDefaults]
        split
        · rfl
        · exact t₅
    placement := by
      refine ⟨?_, h.placement.2⟩
      change (boundEntryDiagnostics doc).placementFailures.length ≤ _
      rw [hfailures]
      exact h.placement.1
    claim := by
      refine ⟨k₁, k₂, k₃, ?_⟩
      simp only [fillDefaults]
      split
      · rfl
      · exact k₄
    status := by
      refine ⟨fun hpending => ?_, h.status.2⟩
      obtain ⟨s₁, s₂⟩ := h.status.1 hpending
      refine ⟨?_, s₂⟩
      change some (doc.storageLayout.getD .legacy) = _
      rw [s₁]
      rfl
    run := ⟨g₁, g₂, g₃, g₄, g₅, hexOk_dropEmpty g₆, g₇⟩ }

theorem Accepted.stored {d : Layout} {e : JobEntry} (h : Accepted d e) : Stored d e := by
  obtain ⟨cfg, existing, entry, now, doc, mtime, hsave, hdecode⟩ := h
  obtain ⟨hpub, -⟩ := saveRow_publishable hsave
  obtain ⟨-, hauth, p, hp, henc⟩ := saveRow_ok.mp hsave
  have hvalid : Valid doc := (encode_ok_iff doc).mp
    ⟨doc, encodeRegistryEntry_ok.mpr ⟨hpub.bounded.symm, hpub.decodes⟩⟩
  have hlayout : doc.storageLayout = saveLayout cfg existing entry := by
    obtain ⟨rfl, -⟩ := encodeRegistryEntry_ok.mp henc
    obtain ⟨env, keys, rfl⟩ := savePrivate_eq hp
    rfl
  have hstored := valid_decoded hvalid hpub hdecode
  obtain ⟨-, -, env, -, -, rfl⟩ := decodeEntry_ok.mp hdecode
  refine ⟨hstored, rfl, ?_, rfl⟩
  rintro ⟨hd, hrole⟩
  refine hauth ⟨hd, ?_⟩
  rw [← hlayout]
  change some (doc.storageLayout.getD .legacy) = _ at hrole
  cases hl : doc.storageLayout with
  | none => simp [hl] at hrole
  | some l => simpa [hl] using hrole

/-! ## What `save` asks of a row -/

section

variable {cfg : HeadConfig} {d : Layout} {c e r : JobEntry} {now : Moment}

end

/-! ## The rewrites, one by one -/

section

variable {e c placed : JobEntry} {now : Time}

end

section

variable {e c m : JobEntry} {head : Head} {now : Time}

end

section

variable {c m r : JobEntry} {head : Head} {d : Layout} {now : Moment}

/-! ## Commits -/

end

/-! ## Every path -/

section

variable {head : Head} {d : Layout} {c m r : JobEntry} {now : Moment}

end

/-- A head of the role layout. -/
def Head.sample : Head where
  toHeadConfig := .sample
  center := "lab"
  diskMinGib := 0
  rejoin := id

/-- A queued row, and the same row with the claim of a dispatcher that died. -/
def sampleQueued : JobEntry :=
  { JobEntry.sample "job-1" with storageLayout := some .role, updatedAt := some 2000 }

end Dt.Dispatch
