import Dt.Jobs.Registry

/-!
# What the registry accepts

The validators of a row, regrouped by what a lifecycle write can touch: the part that is fixed
when the job is submitted, its times, its placement history, its claim, the rules about its
status, and what a launch has recorded. `encodeRegistryEntry` accepts a row exactly when all six
hold, so the acceptance of a rewritten row is settled group by group.
-/

namespace Dt.Jobs

open Dt.Lib Dt.Layout

/-- An optional identity of one hexadecimal length. -/
def hexOk (n : Nat) (v : Option String) : Prop := v.any (!hexOf n ·) = false

/-- The part of a row that no lifecycle write touches. -/
def FixedOk (e : JobEntry) : Prop :=
  validJobId e.jobId = true ∧ (∃ env, validateCustomEnv e.customEnv = .ok env) ∧
  0 ≤ e.gpusRequested ∧ 0 ≤ e.createdAt ∧ negative e.codePrunedAt = false ∧
  e.workerRoots.length ≤ maxJobCollectionItems ∧
  e.submoduleCommits.any (maxJobCollectionItems < ·.length) = false ∧
  e.artifactTargets.any (maxJobCollectionItems < ·.length) = false ∧
  e.extras.length ≤ maxProjectExtras ∧ (e.extras.any fun x => !isConfigId x) = false ∧
  (0 ≤ e.retryLimit ∧ e.retryLimit ≤ maxRetryLimit) ∧
  (0 ≤ e.retryCount ∧ e.retryCount ≤ maxRetryLimit) ∧
  hexOk 64 e.artifactManifest ∧ hexOk 64 e.rerunSourceSnapshotSha256 ∧
  hexOk 12 (dropEmpty e.cacheSourceEnvHash) ∧
  e.maxHours.any (· ≤ 0) = false ∧ e.minVramMib.any (· ≤ 0) = false ∧
  e.maxVramMib.any (· ≤ 0) = false ∧ e.maxJobMemoryMib.any (· ≤ 0) = false ∧
  (e.minVramMib.isSome = false ∨ e.gpusRequested ≠ 0) ∧ e.requireDiskGib.any (· < 0) = false ∧
  (e.excludeNodes.any fun ns => maxJobCollectionItems < ns.length || ns.any fun x =>
    !isConfigId x) = false ∧
  e.setupInputs.any (maxSetupInputs < ·.length) = false ∧
  validateSetupInputs (e.setupInputs.getD []) = .ok () ∧
  e.afterResultStates.length ≤ 7 ∧ e.afterResultStates.Nodup ∧
  (e.workerRoots.any fun x => !validRoot x.2) = false ∧ e.gpuIsolation = "advisory"

/-- The times of a row, and its measured durations. -/
def TimesOk (e : JobEntry) : Prop :=
  negative e.startedAt = false ∧ negative e.finishedAt = false ∧ negative e.updatedAt = false ∧
  negative e.terminalFinalizedAt = false ∧ negative e.dispatchClaimedAt = false ∧
  negative e.snapshotDurationS = false ∧ negative e.launchDurationS = false ∧
  negative e.recoveredAt = false ∧ negative e.placementFirstFailedAt = false ∧
  negative e.placementLastFailedAt = false

/-- A placement pattern that a row can hold. -/
def patternOk (pattern : String) : Prop := pattern.length ≤ maxJobDiagnosticChars

def PlacementOk (e : JobEntry) : Prop :=
  e.placementFailures.length ≤ maxJobCollectionItems ∧ 0 ≤ e.placementAttempts ∧
  ∀ p ∈ e.placementPattern, patternOk p

/-- A claim is whole, and only a queued row has one. -/
def ClaimOk (e : JobEntry) : Prop :=
  hexOk 32 e.dispatchToken ∧ e.dispatchNode.isNone = e.dispatchToken.isNone ∧
  (e.dispatchNode.isSome → e.status = .queued) ∧
  e.dispatchOwner.any (!validDispatchOwner ·) = false

def StatusOk (e : JobEntry) : Prop :=
  (e.legacyCleanupPending = true → e.storageLayout = some .role ∧
    (e.status = .finished ∨ e.status = .killed) ∧ e.node ≠ "-" ∧ e.workerRoot ≠ none ∧
    e.jobRelpath = some ("jobs/" ++ e.jobId)) ∧
  (e.terminalFinalizedAt.isSome → e.status = .lost)

/-- A list of devices that a row can hold. -/
def gpusOk (gpus : List Int) : Prop :=
  gpus.length ≤ maxJobCollectionItems ∧ (∀ g ∈ gpus, 0 ≤ g) ∧ gpus.Nodup

def pgidOk (pgid : Option Int) : Prop := ∀ p ∈ pgid, 0 < p

def exitCodeOk (code : Option Int) : Prop := ∀ c ∈ code, 0 ≤ c ∧ c ≤ 255

def relpathOk (p : String) : Prop :=
  isAbsolute p.toList = false ∧ pathParts p.toList ≠ [] ∧ ".." ∉ pathParts p.toList

/-- What a launch has recorded. -/
def RunOk (e : JobEntry) : Prop :=
  gpusOk e.gpus ∧ pgidOk e.pgid ∧ exitCodeOk e.exitCode ∧ hexOk 64 e.snapshotSha256 ∧
  hexOk 64 e.payloadSha256 ∧ hexOk 12 (dropEmpty e.envHash) ∧ (∀ p ∈ e.launchPhasesS, 0 ≤ p.2) ∧
  e.launchPhasesS.length ≤ maxJobCollectionItems ∧ (∀ r ∈ e.workerRoot, validRoot r = true) ∧
  ∀ p ∈ e.jobRelpath, relpathOk p

structure Valid (e : JobEntry) : Prop where
  fixed : FixedOk e
  times : TimesOk e
  placement : PlacementOk e
  claim : ClaimOk e
  status : StatusOk e
  run : RunOk e

/-! ## The validators, group by group -/

theorem any_eq_false_iff {α : Type} {o : Option α} {p : α → Bool} :
    o.any p = false ↔ ∀ a ∈ o, p a = false := by
  cases o <;> simp

theorem gpusOk_iff {gpus : List Int} : gpusOk gpus ↔
    (gpus.length ≤ maxJobCollectionItems ∧ (gpus.any fun x => decide (x < 0)) = false) ∧
      gpus.Nodup := by
  simp [gpusOk, and_assoc]

theorem pgidOk_iff {pgid : Option Int} :
    pgidOk pgid ↔ pgid.any (fun x => decide (x ≤ 0)) = false := by
  simp [pgidOk, any_eq_false_iff]

theorem exitCodeOk_iff {code : Option Int} : exitCodeOk code ↔
    code.any (fun c => !(decide (0 ≤ c) && decide (c ≤ 255))) = false := by
  simp [exitCodeOk, any_eq_false_iff]

theorem patternOk_iff {pattern : Option String} : (∀ p ∈ pattern, patternOk p) ↔
    pattern.any (fun x => decide (maxJobDiagnosticChars < x.length)) = false := by
  simp [patternOk, any_eq_false_iff]

theorem relpathOk_iff {path : Option String} : (∀ p ∈ path, relpathOk p) ↔
    path.any (fun p => isAbsolute p.toList || decide (pathParts p.toList = []) ||
      decide (".." ∈ pathParts p.toList)) = false := by
  simp [relpathOk, any_eq_false_iff, and_assoc]

theorem rootOk_iff {root : Option String} : (∀ r ∈ root, validRoot r = true) ↔
    root.any (fun x => !validRoot x) = false := by
  simp [any_eq_false_iff]

theorem phasesOk_iff {phases : Dict ℚ} : (∀ p ∈ phases, 0 ≤ p.2) ↔
    (List.any phases fun x => decide (x.2 < 0)) = false := by
  simp

theorem bool_or_not_iff {b : Bool} {p : Prop} : (b = true → p) ↔ b = false ∨ ¬ ¬ p := by
  cases b <;> simp

theorem statusOk_iff {e : JobEntry} : StatusOk e ↔
    (e.legacyCleanupPending = false ∨ (((¬ e.storageLayout ≠ some .role ∧
      (decide (e.status = .finished) || decide (e.status = .killed)) = true) ∧ ¬ e.node = "-") ∧
      ¬ e.workerRoot = none) ∧ ¬ e.jobRelpath ≠ some ("jobs/" ++ e.jobId)) ∧
    (e.terminalFinalizedAt.isSome = false ∨ ¬ e.status ≠ .lost) := by
  have hfinal : (e.terminalFinalizedAt.isSome → e.status = .lost) ↔
      e.terminalFinalizedAt.isSome = false ∨ ¬ e.status ≠ .lost := bool_or_not_iff
  rw [StatusOk, hfinal]
  cases e.legacyCleanupPending <;> simp [and_assoc]

theorem claimOk_iff {e : JobEntry} : ClaimOk e ↔ e.dispatchToken.any (!hexOf 32 ·) = false ∧
    ¬ e.dispatchNode.isNone ≠ e.dispatchToken.isNone ∧
    (e.dispatchNode.isSome = false ∨ ¬ e.status ≠ .queued) ∧
    e.dispatchOwner.any (!validDispatchOwner ·) = false := by
  have hqueued : (e.dispatchNode.isSome → e.status = .queued) ↔
      e.dispatchNode.isSome = false ∨ ¬ e.status ≠ .queued := bool_or_not_iff
  rw [ClaimOk, hqueued, hexOk]
  simp only [ne_eq, not_not]

/-- The registry accepts a row exactly when the six groups hold. -/
theorem encode_ok_iff (e : JobEntry) :
    (∃ doc, encodeRegistryEntry e = .ok doc) ↔ Valid e := by
  have hlen : (boundEntryDiagnostics (boundEntryDiagnostics e)).placementFailures.length =
      e.placementFailures.length := by simp [boundEntryDiagnostics]
  simp only [encodeRegistryEntry_ok, exists_eq_left, decodeEntry_ok, validateEntry,
    validateEntryLifecycle, validateEntryCollections, validateEntryProvenance,
    validateEntryLimits, validateEntryContracts, bind_unit_ok, check_ok, List.any_cons,
    List.any_nil, Bool.or_false, Bool.or_eq_false_iff, decide_eq_false_iff_not, not_lt,
    Bool.not_eq_false', decide_eq_true_eq, Bool.and_eq_false_iff, Bool.and_eq_true]
  -- the row the validators see agrees with `e` in all they read, up to definitional unfolding
  constructor
  · rintro ⟨-, hid, -, env, henv, ⟨⟨gs, l₁, l₂, l₃, l₄, t₁, t₂, t₃, t₄, t₅, l₅⟩,
      ⟨c₁, c₂, c₃, c₄, c₅, c₆⟩, ⟨⟨r₁, r₂⟩, s₁, s₂, ds⟩,
      ⟨⟨h₁, h₂, h₃, h₄⟩, ⟨h₅, h₆⟩, ⟨t₆, t₇, t₈, t₉, t₁₀⟩, m₁, ⟨m₂, m₃, m₄⟩, m₅, m₆, p₁, p₂⟩,
      k₁, k₂, k₃, k₄, k₅, ⟨k₆, k₇⟩, ⟨k₈, k₉⟩, k₁₀, k₁₁⟩, -⟩
    exact {
      fixed := ⟨hid, ⟨env, henv⟩, l₃, l₄, l₅, c₂, c₃, c₄, c₅, c₆, r₁, r₂, h₃, h₄, h₆, m₁, m₂, m₃,
        m₄, m₅, m₆, k₃, k₄, k₅, k₆, k₇, k₉, not_not.mp k₁₁⟩
      times := ⟨t₁, t₂, t₃, t₄, t₅, t₆, t₇, t₈, t₉, t₁₀⟩
      placement := ⟨hlen ▸ c₁, p₁, patternOk_iff.mpr p₂⟩
      claim := claimOk_iff.mpr ds
      status := statusOk_iff.mpr ⟨s₁, s₂⟩
      run := ⟨gpusOk_iff.mpr gs, pgidOk_iff.mpr l₁, exitCodeOk_iff.mpr l₂, h₁, h₂, h₅,
        phasesOk_iff.mpr k₁, k₂, rootOk_iff.mpr k₈, relpathOk_iff.mpr k₁₀⟩ }
  · rintro ⟨⟨hid, ⟨env, henv⟩, l₃, l₄, l₅, c₂, c₃, c₄, c₅, c₆, r₁, r₂, h₃, h₄, h₆, m₁, m₂, m₃,
        m₄, m₅, m₆, k₃, k₄, k₅, k₆, k₇, k₉, k₁₁⟩, ⟨t₁, t₂, t₃, t₄, t₅, t₆, t₇, t₈, t₉, t₁₀⟩,
      ⟨c₁, p₁, p₂⟩, hclaim, hstatus, ⟨gs, l₁, l₂, h₁, h₂, h₅, k₁, k₂, k₈, k₁₀⟩⟩
    obtain ⟨s₁, s₂⟩ := statusOk_iff.mp hstatus
    exact ⟨_, hid, rfl, env, henv, ⟨⟨gpusOk_iff.mp gs, pgidOk_iff.mp l₁, exitCodeOk_iff.mp l₂, l₃,
        l₄, t₁, t₂, t₃, t₄, t₅, l₅⟩, ⟨hlen.symm ▸ c₁, c₂, c₃, c₄, c₅, c₆⟩,
      ⟨⟨r₁, r₂⟩, s₁, s₂, claimOk_iff.mp hclaim⟩,
      ⟨⟨h₁, h₂, h₃, h₄⟩, ⟨h₅, h₆⟩, ⟨t₆, t₇, t₈, t₉, t₁₀⟩, m₁, ⟨m₂, m₃, m₄⟩, m₅, m₆, p₁,
        patternOk_iff.mp p₂⟩,
      phasesOk_iff.mp k₁, k₂, k₃, k₄, k₅, ⟨k₆, k₇⟩, ⟨rootOk_iff.mp k₈, k₉⟩, relpathOk_iff.mp k₁₀,
      not_not.mpr k₁₁⟩, rfl⟩

/-! ## What the status rules leave out -/

theorem StatusOk.not_final {e : JobEntry} (h : StatusOk e) (hl : e.status ≠ .lost) :
    e.terminalFinalizedAt = none := by
  cases ht : e.terminalFinalizedAt with
  | none => rfl
  | some t => exact (hl (h.2 (by simp [ht]))).elim

/-- The size of a variable in the custom environment. -/
def customEnvSize (p : String × String) : Nat := p.1.utf8ByteSize + p.2.utf8ByteSize + 2

theorem customEnvItemError_eq_none {name value : String} {total : Nat} :
    customEnvItemError name value total = none ↔
      customEnvItemError name value 0 = none ∧ total ≤ maxCustomEnvTotalBytes := by
  unfold customEnvItemError
  split
  · simp
  · split
    · simp
    · split
      · simp
      · split
        · simp
        · simp

/-- Whether a map is refused does not depend on the order of its variables. -/
theorem customEnvError_eq_none {env : Dict String} {total : Nat} :
    customEnvError env total = none ↔ (∀ p ∈ env, customEnvItemError p.1 p.2 0 = none) ∧
      (env ≠ [] → total + (env.map customEnvSize).sum ≤ maxCustomEnvTotalBytes) := by
  induction env generalizing total with
  | nil => simp [customEnvError]
  | cons p rest ih =>
    have hcons : customEnvError (p :: rest) total = none ↔
        customEnvItemError p.1 p.2 (total + customEnvSize p) = none ∧
          customEnvError rest (total + customEnvSize p) = none := by
      simp only [customEnvError, customEnvSize]
      cases customEnvItemError p.1 p.2 (total + (p.1.utf8ByteSize + p.2.utf8ByteSize + 2)) <;>
        simp
    rw [hcons, customEnvItemError_eq_none, ih]
    rcases eq_or_ne rest [] with rfl | hrest
    · simp
    · simp only [List.mem_cons, forall_eq_or_imp, ne_eq, hrest, not_false_eq_true, true_imp_iff,
        reduceCtorEq, List.map_cons, List.sum_cons]
      constructor
      · rintro ⟨⟨h₁, -⟩, h₂, h₃⟩
        exact ⟨⟨h₁, h₂⟩, by omega⟩
      · rintro ⟨⟨h₁, h₂⟩, h₃⟩
        exact ⟨⟨h₁, by omega⟩, h₂, by omega⟩

theorem validateCustomEnv_ok {env : Dict String} :
    (∃ env', validateCustomEnv env = .ok env') ↔
      env.length ≤ maxCustomEnvVars ∧ customEnvError env 0 = none := by
  unfold validateCustomEnv
  split
  · rename_i h
    simp [Nat.not_le.mpr h]
  · rename_i h
    cases customEnvError env 0 <;> simp [Nat.not_lt.mp h]

theorem validateCustomEnv_perm {env env' : Dict String} (hp : env'.Perm env)
    (h : ∃ e, validateCustomEnv env = .ok e) : ∃ e, validateCustomEnv env' = .ok e := by
  obtain ⟨hlen, herr⟩ := validateCustomEnv_ok.mp h
  obtain ⟨hitem, hsize⟩ := customEnvError_eq_none.mp herr
  refine validateCustomEnv_ok.mpr ⟨hp.length_eq ▸ hlen, customEnvError_eq_none.mpr
    ⟨fun p hmem => hitem p (hp.mem_iff.mp hmem), fun hne => ?_⟩⟩
  rw [(hp.map customEnvSize).sum_nat]
  exact hsize fun hnil => hne (List.perm_nil.mp (hnil ▸ hp))

end Dt.Jobs
