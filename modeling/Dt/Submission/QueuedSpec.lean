import Dt.Dispatch.Acceptance
import Dt.Dispatch.Placement
import Dt.Lib.Shlex
import Dt.Submission.RunSpec

/-!
# The specification that a queued row carries

A submission that does not launch now becomes a row, and the dispatcher reads its specification
back from that row later. A row that was built from a validated specification reads back as one
that writes the same row: the same command, resources, dependencies, artifacts, environment, retry
and cache fields.
-/

namespace Dt.Submission

open Dt.Lib Dt.Jobs Dt.Layout Dt.Dispatch

/-- `shlex.join` -/
def commandLine (cmd : List String) : String :=
  String.ofList (Shlex.join (cmd.map String.toList))

/-- `shlex.split` -/
def commandWords (line : String) : Except String (List String) :=
  (Shlex.split line.toList).map (·.map String.ofList)

theorem commandWords_commandLine (cmd : List String) : commandWords (commandLine cmd) = .ok cmd := by
  have hcmd : (cmd.map String.toList).map String.ofList = cmd := by
    rw [List.map_map]
    exact List.map_id'' (fun s => String.ofList_toList) cmd
  rw [commandWords, commandLine, String.toList_ofList, Shlex.split_join, Except.map, hcmd]

/-! ## From a specification to a row -/

/-- The registry fields that depend on the submission alone. -/
structure EntryFields where
  name : String
  center : String
  project : String
  cmd : String
  gpusRequested : Int
  gpuIsolation : String
  requirePath : Option String
  requireDiskGib : Option Int
  pinNode : Option String
  excludeNodes : Option (List String)
  maxHours : Option ℚ
  minVramMib : Option Int
  maxVramMib : Option Int
  maxJobMemoryMib : Option Int
  setup : Option String
  setupInputs : Option (List String)
  extras : List String
  envMode : Option EnvMode
  envSourceJob : Option JobId
  customEnv : Dict String
  gitSha : Option String
  gitDirty : Bool
  submoduleCommits : Option (Dict String)
  artifactManifest : Option String
  artifactTargets : Option (Dict String)
  forkedFrom : Option JobId
  afterSuccess : Option JobId
  afterComplete : Option JobId
  afterResult : Option JobId
  afterResultStates : List ResultState
  requestId : Option String
  retryLimit : Int
  retryOn : Option RetryOn
  retryCount : Int
  retryOf : Option JobId
  rerunOf : Option JobId
  rerunSourceSnapshotSha256 : Option String
  cacheSourceJob : Option JobId
  cacheSourceJobDir : Option String
  cacheSourcePath : Option String
  cacheEnv : Option String
  cacheSourceEnvHash : Option String
  cacheMode : Option CacheMode
  storageLayout : Option Layout
  deriving DecidableEq, Repr

/-- `spec.project or "?"` -/
def projectOf (project : Option String) : String := (project.filter (· ≠ "")).getD "?"

/-- `dict(targets) if targets else None` -/
def someTargets (targets : Option (Dict String)) : Option (Dict String) := targets.filter (· ≠ [])

/-- `_spec_entry_fields` -/
def specEntryFields (head : Head) (spec : RunSpec) (gitSha : Option String) (gitDirty : Bool)
    (submoduleCommits : Option (Dict String)) : EntryFields where
  name := spec.name
  center := head.center
  project := projectOf spec.project
  cmd := commandLine spec.cmd
  gpusRequested := spec.gpus
  gpuIsolation := spec.gpuIsolation
  requirePath := spec.requirePath
  requireDiskGib := spec.requireDiskGib
  pinNode := spec.node
  excludeNodes := sortedNodes spec.excludeNodes
  maxHours := spec.maxHours
  minVramMib := spec.minVramMib
  maxVramMib := spec.maxVramMib
  maxJobMemoryMib := spec.maxJobMemoryMib
  setup := spec.setup
  setupInputs := spec.setupInputs
  extras := spec.extras.getD []
  envMode := some spec.envMode
  envSourceJob := spec.envSourceJob
  customEnv := spec.customEnv
  gitSha := gitSha
  gitDirty := gitDirty
  submoduleCommits := submoduleCommits
  artifactManifest := spec.artifactManifest
  artifactTargets := someTargets spec.artifactTargets
  forkedFrom := spec.forkedFrom
  afterSuccess := spec.afterSuccess
  afterComplete := spec.afterComplete
  afterResult := spec.afterResult
  afterResultStates := spec.afterResultStates
  requestId := spec.requestId
  retryLimit := spec.retryLimit
  retryOn := spec.retryOn
  retryCount := spec.retryCount
  retryOf := spec.retryOf
  rerunOf := spec.rerunOf
  rerunSourceSnapshotSha256 := spec.rerunSourceSnapshotSha256
  cacheSourceJob := spec.cacheSourceJob
  cacheSourceJobDir := spec.cacheSourceJobDir
  cacheSourcePath := spec.cacheSourcePath
  cacheEnv := spec.cacheEnv
  cacheSourceEnvHash := spec.cacheSourceEnvHash
  cacheMode := spec.cacheMode
  storageLayout := some head.layout

/-- The same fields of a row. -/
def entryFields (e : JobEntry) : EntryFields where
  name := e.name
  center := e.center
  project := e.project
  cmd := e.cmd
  gpusRequested := e.gpusRequested
  gpuIsolation := e.gpuIsolation
  requirePath := e.requirePath
  requireDiskGib := e.requireDiskGib
  pinNode := e.pinNode
  excludeNodes := e.excludeNodes
  maxHours := e.maxHours
  minVramMib := e.minVramMib
  maxVramMib := e.maxVramMib
  maxJobMemoryMib := e.maxJobMemoryMib
  setup := e.setup
  setupInputs := e.setupInputs
  extras := e.extras
  envMode := e.envMode
  envSourceJob := e.envSourceJob
  customEnv := e.customEnv
  gitSha := e.gitSha
  gitDirty := e.gitDirty
  submoduleCommits := e.submoduleCommits
  artifactManifest := e.artifactManifest
  artifactTargets := e.artifactTargets
  forkedFrom := e.forkedFrom
  afterSuccess := e.afterSuccess
  afterComplete := e.afterComplete
  afterResult := e.afterResult
  afterResultStates := e.afterResultStates
  requestId := e.requestId
  retryLimit := e.retryLimit
  retryOn := e.retryOn
  retryCount := e.retryCount
  retryOf := e.retryOf
  rerunOf := e.rerunOf
  rerunSourceSnapshotSha256 := e.rerunSourceSnapshotSha256
  cacheSourceJob := e.cacheSourceJob
  cacheSourceJobDir := e.cacheSourceJobDir
  cacheSourcePath := e.cacheSourcePath
  cacheEnv := e.cacheEnv
  cacheSourceEnvHash := e.cacheSourceEnvHash
  cacheMode := e.cacheMode
  storageLayout := e.storageLayout

/-- What `_submit_prepared_once` adds to a validated specification: the disk floor of the center, a
safe name and the runtime payload. -/
def prepared (head : Head) (sha256 : List Char → List Char) (runtimeSha256 : String)
    (spec : RunSpec) : RunSpec :=
  let effectiveDiskFloor := max head.diskMinGib (spec.requireDiskGib.getD 0)
  { spec with
    requireDiskGib := if effectiveDiskFloor = 0 then none else some effectiveDiskFloor
    name := String.ofList (sanitizeName sha256 spec.name.toList)
    payloadSha256 := some runtimeSha256 }

/-- What `_submit_prepared_once` knows of the job besides its specification. -/
structure SubmittedJob where
  jobId : JobId
  session : String
  jobDir : String
  jobRelpath : String
  submitWorkerRoot : String
  submitWorkerRoots : Dict String
  submittedAt : Time
  runtimeSha256 : String
  gitSha : Option String
  gitDirty : Bool
  submoduleCommits : Option (Dict String)

/-- How a job that did not launch now is recorded: queued, or skipped. -/
structure UnplacedOutcome where
  status : JobStatus
  snapshotSha256 : Option String := none
  reason : Option String
  rerunSnapshotChanged : Option Bool := none
  resultState : Option ResultState := none
  finishedAt : Option Time := none

/-- `unplaced_entry` -/
def unplacedEntry (head : Head) (spec : RunSpec) (job : SubmittedJob) (outcome : UnplacedOutcome) :
    JobEntry :=
  let f := specEntryFields head spec job.gitSha job.gitDirty job.submoduleCommits
  { jobId := job.jobId
    name := f.name
    center := f.center
    project := f.project
    cmd := f.cmd
    gpusRequested := f.gpusRequested
    gpuIsolation := f.gpuIsolation
    requirePath := f.requirePath
    requireDiskGib := f.requireDiskGib
    pinNode := f.pinNode
    excludeNodes := f.excludeNodes
    maxHours := f.maxHours
    minVramMib := f.minVramMib
    maxVramMib := f.maxVramMib
    maxJobMemoryMib := f.maxJobMemoryMib
    setup := f.setup
    setupInputs := f.setupInputs
    extras := f.extras
    envMode := f.envMode
    envSourceJob := f.envSourceJob
    customEnv := f.customEnv
    gitSha := f.gitSha
    gitDirty := f.gitDirty
    submoduleCommits := f.submoduleCommits
    artifactManifest := f.artifactManifest
    artifactTargets := f.artifactTargets
    forkedFrom := f.forkedFrom
    afterSuccess := f.afterSuccess
    afterComplete := f.afterComplete
    afterResult := f.afterResult
    afterResultStates := f.afterResultStates
    requestId := f.requestId
    retryLimit := f.retryLimit
    retryOn := f.retryOn
    retryCount := f.retryCount
    retryOf := f.retryOf
    rerunOf := f.rerunOf
    rerunSourceSnapshotSha256 := f.rerunSourceSnapshotSha256
    cacheSourceJob := f.cacheSourceJob
    cacheSourceJobDir := f.cacheSourceJobDir
    cacheSourcePath := f.cacheSourcePath
    cacheEnv := f.cacheEnv
    cacheSourceEnvHash := f.cacheSourceEnvHash
    cacheMode := f.cacheMode
    storageLayout := f.storageLayout
    node := "-"
    nodeLocal := false
    jobDir := job.jobDir
    session := job.session
    payloadSha256 := some job.runtimeSha256
    createdAt := job.submittedAt
    envHash := spec.envHashOverride
    workerRoot := some job.submitWorkerRoot
    workerRoots := job.submitWorkerRoots
    jobRelpath := some job.jobRelpath
    status := outcome.status
    snapshotSha256 := outcome.snapshotSha256
    reason := outcome.reason
    rerunSnapshotChanged := outcome.rerunSnapshotChanged
    resultState := outcome.resultState
    finishedAt := outcome.finishedAt }

@[simp] theorem entryFields_unplacedEntry (head : Head) (spec : RunSpec) (job : SubmittedJob)
    (outcome : UnplacedOutcome) : entryFields (unplacedEntry head spec job outcome) =
      specEntryFields head spec job.gitSha job.gitDirty job.submoduleCommits := rfl

/-! ## And back -/

/-- `_resource_spec_kwargs` with a name and a command. -/
def resourceSpec (e : JobEntry) (name : String) (cmd : List String) : RunSpec where
  name := name
  cmd := cmd
  gpus := e.gpusRequested
  project := some e.project
  requirePath := e.requirePath
  requireDiskGib := e.requireDiskGib.filter (· ≠ 0)
  maxHours := e.maxHours
  minVramMib := e.minVramMib
  maxVramMib := e.maxVramMib
  maxJobMemoryMib := e.maxJobMemoryMib
  setup := e.setup
  setupInputs := e.setupInputs
  excludeNodes := e.excludeNodes
  extras := if e.extras = [] then none else some e.extras
  customEnv := e.customEnv
  artifactTargets := someTargets e.artifactTargets

/-- `_queued_run_spec` -/
def queuedRunSpec (e : JobEntry) : Except String RunSpec :=
  (commandWords e.cmd).map fun cmd =>
    { resourceSpec e e.name cmd with
      node := e.pinNode
      envMode := e.envMode.getD .sync
      envHashOverride := if e.envMode = some .reuse then e.envHash else none
      envSourceJob := e.envSourceJob
      forkedFrom := e.forkedFrom
      afterSuccess := e.afterSuccess
      afterComplete := e.afterComplete
      afterResult := e.afterResult
      afterResultStates := e.afterResultStates
      requestId := e.requestId
      retryLimit := e.retryLimit
      retryOn := e.retryOn
      retryCount := e.retryCount
      retryOf := e.retryOf
      rerunOf := e.rerunOf
      rerunSourceSnapshotSha256 := e.rerunSourceSnapshotSha256
      artifactManifest := e.artifactManifest
      cacheSourceJob := e.cacheSourceJob
      cacheSourceJobDir := e.cacheSourceJobDir
      cacheSourcePath := e.cacheSourcePath
      cacheEnv := e.cacheEnv
      cacheSourceEnvHash := e.cacheSourceEnvHash
      cacheSourceSnapshotSha256 := if truthy e.cacheSourceJob then e.snapshotSha256 else none
      cacheMode := e.cacheMode
      payloadSha256 := e.payloadSha256 }

/-- What becomes of a specification on the way through a row: missing values and empty ones are the
same, and the private token of an attempt is gone. -/
def requeued (spec : RunSpec) (job : SubmittedJob) (outcome : UnplacedOutcome) : RunSpec :=
  { spec with
    gpuIsolation := "advisory"
    project := some (projectOf spec.project)
    requireDiskGib := spec.requireDiskGib.filter (· ≠ 0)
    excludeNodes := sortedNodes spec.excludeNodes
    extras := if spec.extras.getD [] = [] then none else some (spec.extras.getD [])
    envHashOverride := if some spec.envMode = some .reuse then spec.envHashOverride else none
    dispatchToken := none
    artifactTargets := someTargets (someTargets spec.artifactTargets)
    cacheSourceSnapshotSha256 := if truthy spec.cacheSourceJob then outcome.snapshotSha256 else none
    payloadSha256 := some job.runtimeSha256 }

theorem queuedRunSpec_unplacedEntry (head : Head) (spec : RunSpec) (job : SubmittedJob)
    (outcome : UnplacedOutcome) :
    queuedRunSpec (unplacedEntry head spec job outcome) = .ok (requeued spec job outcome) := by
  have hcmd : commandWords (unplacedEntry head spec job outcome).cmd = .ok spec.cmd :=
    commandWords_commandLine spec.cmd
  rw [queuedRunSpec, hcmd]
  rfl

theorem projectOf_projectOf (project : Option String) :
    projectOf (some (projectOf project)) = projectOf project := by
  have hne : projectOf project ≠ "" := by
    unfold projectOf
    cases hp : project.filter (· ≠ "") with
    | none => decide
    | some p => simpa using (Option.filter_eq_some_iff.mp hp).2
  have hkeep : (some (projectOf project)).filter (· ≠ "") = some (projectOf project) := by
    simp [Option.filter_some, hne]
  rw [projectOf, hkeep, Option.getD_some]

theorem sortedNodes_sortedNodes (names : Option (List String)) :
    sortedNodes (sortedNodes names) = sortedNodes names := by
  rcases names with _ | _ | ⟨n, ns⟩
  · rfl
  · rfl
  · have hsort : ((n :: ns).dedup.insertionSort (· ≤ ·)).dedup.insertionSort (· ≤ ·) =
        (n :: ns).dedup.insertionSort (· ≤ ·) := by
      have hnodup : ((n :: ns).dedup.insertionSort (· ≤ ·)).Nodup :=
        (List.perm_insertionSort _ _).nodup_iff.mpr (List.nodup_dedup _)
      rw [hnodup.dedup]
      exact (List.pairwise_insertionSort _ _).insertionSort_eq
    cases hs : (n :: ns).dedup.insertionSort (· ≤ ·) with
    | nil =>
      have hmem : n ∈ (n :: ns).dedup.insertionSort (· ≤ ·) :=
        (List.perm_insertionSort _ _).mem_iff.mpr (List.mem_dedup.mpr List.mem_cons_self)
      rw [hs] at hmem
      cases hmem
    | cons m ms =>
      rw [hs] at hsort
      simp only [sortedNodes, hs, hsort]

theorem someTargets_someTargets (targets : Option (Dict String)) :
    someTargets (someTargets targets) = someTargets targets := by
  unfold someTargets
  rw [Option.filter_filter]
  simp

theorem validateCache_keeps {spec₀ spec : RunSpec} (h : validateCache spec₀ = .ok spec) :
    spec.gpuIsolation = spec₀.gpuIsolation ∧ spec.envMode = spec₀.envMode ∧
      spec.envHashOverride = spec₀.envHashOverride := by
  unfold validateCache at h
  split at h
  · simp only [validateCacheReuse, ↓bind_unit_ok, bind_ok] at h
    obtain ⟨_, -, -, -, dir, -, path, -, -, -, -, -, h⟩ := h
    cases h
    exact ⟨rfl, rfl, rfl⟩
  · rw [bind_unit_ok] at h
    cases h.2
    exact ⟨rfl, rfl, rfl⟩

/-- What validation promises about the fields that a row does not hold as they are. -/
theorem validateRunSpec_ok {repr : String → String} {spec₀ spec : RunSpec}
    (h : validateRunSpec repr spec₀ = .ok spec) :
    spec.gpuIsolation = "advisory" ∧ (spec.envMode = .sync → spec.envHashOverride = none) := by
  simp only [validateRunSpec, ↓bind_unit_ok, bind_ok] at h
  obtain ⟨_, -, env, -, -, -, -, hresources, -, -, targets, -, -, -, states, -, -, henv, -, hcache⟩ := h
  obtain ⟨hgpu, hmode, hhash⟩ := validateCache_keeps hcache
  refine ⟨?_, fun hsync => ?_⟩
  · rw [validateResources, bind_unit_ok, check_ok] at hresources
    rw [hgpu]
    simpa using hresources.1
  · rw [hmode] at hsync
    rw [hhash]
    have hsync' : spec₀.envMode = .sync := hsync
    unfold validateEnvironment at henv
    rw [hsync'] at henv
    simpa using (Bool.or_eq_false_iff.mp (check_ok.mp henv)).1

theorem getD_nonempty {α : Type} [DecidableEq α] (l : List α) :
    (if l = [] then none else some l).getD [] = l := by
  split
  · rename_i hnil
    exact hnil.symm
  · rfl

/-- What is lost on the way through a row is written in the same way. -/
theorem specEntryFields_requeued {spec : RunSpec} (head : Head) (job : SubmittedJob)
    (outcome : UnplacedOutcome) (hgpu : spec.gpuIsolation = "advisory")
    (hdisk : spec.requireDiskGib.filter (· ≠ 0) = spec.requireDiskGib) :
    specEntryFields head (requeued spec job outcome) job.gitSha job.gitDirty job.submoduleCommits =
      specEntryFields head spec job.gitSha job.gitDirty job.submoduleCommits := by
  unfold specEntryFields requeued
  simp only [projectOf_projectOf, sortedNodes_sortedNodes, someTargets_someTargets, hgpu, hdisk,
    getD_nonempty]

theorem filter_nonzero (n : Int) :
    (if n = 0 then none else some n).filter (· ≠ 0) = if n = 0 then none else some n := by
  split
  · rfl
  · rename_i hn
    exact Option.filter_eq_some_iff.mpr ⟨rfl, by simpa using hn⟩

theorem prepared_disk (head : Head) (sha256 : List Char → List Char) (runtimeSha256 : String)
    (spec : RunSpec) :
    (prepared head sha256 runtimeSha256 spec).requireDiskGib.filter (· ≠ 0) =
      (prepared head sha256 runtimeSha256 spec).requireDiskGib :=
  filter_nonzero _

/-- A row that was built from a validated specification reads back as a specification with its
command, and that specification writes the submission fields of the row again. -/
theorem queuedRunSpec_round_trip {repr : String → String} (sha256 : List Char → List Char)
    {spec₀ spec : RunSpec} (head : Head) (job : SubmittedJob) (outcome : UnplacedOutcome)
    (h : validateRunSpec repr spec₀ = .ok spec) :
    ∃ rebuilt,
      queuedRunSpec (unplacedEntry head (prepared head sha256 job.runtimeSha256 spec) job outcome) =
        .ok rebuilt ∧
      rebuilt.cmd = spec.cmd ∧
      specEntryFields head rebuilt job.gitSha job.gitDirty job.submoduleCommits =
        entryFields (unplacedEntry head (prepared head sha256 job.runtimeSha256 spec) job outcome) ∧
      rebuilt.envHashOverride =
        (unplacedEntry head (prepared head sha256 job.runtimeSha256 spec) job outcome).envHash ∧
      rebuilt.payloadSha256 =
        (unplacedEntry head (prepared head sha256 job.runtimeSha256 spec) job outcome).payloadSha256 := by
  obtain ⟨hgpu, henv⟩ := validateRunSpec_ok h
  refine ⟨_, queuedRunSpec_unplacedEntry _ _ _ _, rfl, ?_, ?_, rfl⟩
  · rw [entryFields_unplacedEntry]
    exact specEntryFields_requeued head job outcome hgpu (prepared_disk head sha256 _ spec)
  · -- an override needs the reuse mode, in which the row keeps it
    change (if some spec.envMode = some .reuse then spec.envHashOverride else none) =
      spec.envHashOverride
    cases hmode : spec.envMode with
    | sync => rw [henv hmode, ite_self]
    | reuse => rw [if_pos rfl]

/-- A command with a quote, a blank and an empty argument. -/
def sampleSpec : RunSpec where
  name := "train"
  gpus := 1
  cmd := ["python", "it's a run.py", ""]
  excludeNodes := some ["n2", "n1", "n2"]
  extras := some []

def sampleJob : SubmittedJob where
  jobId := "job-1"
  session := "dt_job-1"
  jobDir := "~/dt/worker/jobs/job-1"
  jobRelpath := "jobs/job-1"
  submitWorkerRoot := "~/dt"
  submitWorkerRoots := []
  submittedAt := 1000
  runtimeSha256 := "e0cca2965509df678c8064f5e0b9076016fa752f88a6c749768db83479450cc5"
  gitSha := none
  gitDirty := false
  submoduleCommits := none

theorem queuedRunSpec_round_trip_sample :
    ∃ rebuilt, queuedRunSpec (unplacedEntry .sample (prepared .sample id sampleJob.runtimeSha256
        sampleSpec) sampleJob ⟨.queued, none, none, none, none, none⟩) = .ok rebuilt ∧
      rebuilt.cmd = ["python", "it's a run.py", ""] := by
  have hvalid : validateRunSpec id sampleSpec = .ok sampleSpec := by decide +kernel
  obtain ⟨rebuilt, hread, hcmd, -⟩ := queuedRunSpec_round_trip id .sample sampleJob
    ⟨.queued, none, none, none, none, none⟩ hvalid
  exact ⟨rebuilt, hread, hcmd⟩

/-- Placement reads the specification that the row reads back as, with the disk floor of the
center. -/
theorem queuedRunSpec_placement {e : JobEntry} {rebuilt : RunSpec} (diskMinGib : Int)
    (h : queuedRunSpec e = .ok rebuilt) :
    Dispatch.queuedRunSpec diskMinGib e =
      { node := rebuilt.node
        gpus := rebuilt.gpus
        excludeNodes := rebuilt.excludeNodes
        minVramMib := rebuilt.minVramMib
        requireDiskGib :=
          let floor := max diskMinGib (rebuilt.requireDiskGib.getD 0)
          if floor = 0 then none else some floor } := by
  unfold queuedRunSpec at h
  cases hcmd : commandWords e.cmd with
  | error m =>
    rw [hcmd] at h
    cases h
  | ok cmd =>
    rw [hcmd] at h
    cases h
    have hdisk : (e.requireDiskGib.filter (· ≠ 0)).getD 0 = e.requireDiskGib.getD 0 := by
      cases hd : e.requireDiskGib with
      | none => rfl
      | some d =>
        by_cases hzero : d = 0
        · rw [hzero]
          rfl
        · rw [Option.filter_some, if_pos (by simpa using hzero)]
    rw [Dispatch.queuedRunSpec]
    simp only [resourceSpec, hdisk]

end Dt.Submission
