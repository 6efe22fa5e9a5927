import Dt.Dispatch.Rows

/-!
# Reading a recovery probe

The recovery probe runs on the worker and prints a line protocol: the boot identity of the node, a
mark, the state of the launch and, for a running or a finished one, some files of the job, one to
a line. The proof probe prints a mark of its own and the state of the identity marker before it.

The script is trusted and the files are not. It cuts each file to 128 bytes and deletes carriage
returns and newlines from it, so that a file is one line of its output. The head reads the output
with `str.splitlines()`, which ends lines at more characters than these two, and takes the last
occurrence of each mark.
-/

namespace Dt.Dispatch

open Dt.Lib Dt.Jobs

def launchRecoveryMark : List Char := "@@DT_LAUNCH_RECOVERY_V1@@".toList

def requestRemoteProofMark : List Char := "@@DT_REQUEST_REMOTE_PROOF_V1@@".toList

/-! ## What the script prints -/

/-- A file as `dt_recover_field` prints it. -/
structure Field where
  text : List Char
  clean : ∀ c ∈ text, c ≠ '\r' ∧ c ≠ '\n'
  short : text.length ≤ 128

def unknown : List Char := "UNKNOWN".toList

/-- `head -c 128 | tr -d '\r\n'` of a regular file; anything else is unknown. -/
def recoverField : Option (List Char) → Field
  | some content =>
    { text := (content.take 128).filter fun c => c ≠ '\r' && c ≠ '\n'
      clean := by simp
      short := (List.length_filter_le _ _).trans (by simp) }
  | none =>
    { text := unknown
      clean := by simpa using (show unknown.all (fun c => c ≠ '\r' && c ≠ '\n') = true by decide)
      short := by decide }

/-- `[A-Za-z0-9-]{1,64}` -/
def isBootId (s : List Char) : Bool := classRun (fun c => isAlnum c || c = '-') 1 64 s

/-- The boot identity the kernel reports. -/
structure BootId where
  text : List Char
  valid : isBootId text = true

inductive MarkerState where
  | absent | matching | invalid
  deriving DecidableEq, Repr

def MarkerState.text : MarkerState → List Char
  | .absent => "ABSENT".toList
  | .matching => "MATCH".toList
  | .invalid => "INVALID".toList

/-- The launch the script has proved, with the files it copies. -/
inductive Launch where
  | none
  | unproven
  | running (pgid gpus startedAt envKey : Field)
  | finished (exitCode pgid gpus startedAt finishedAt resultState envKey : Field)

def Launch.state : Launch → LaunchState
  | .none => .none
  | .unproven => .unproven
  | .running .. => .running
  | .finished .. => .finished

def Launch.fields : Launch → List Field
  | .none | .unproven => []
  | .running pgid gpus startedAt envKey => [pgid, gpus, startedAt, envKey]
  | .finished exitCode pgid gpus startedAt finishedAt resultState envKey =>
    [exitCode, pgid, gpus, startedAt, finishedAt, resultState, envKey]

def LaunchState.text : LaunchState → List Char
  | .none => "NONE".toList
  | .unproven => "UNPROVEN".toList
  | .running => "RUNNING".toList
  | .finished => "FINISHED".toList

/-- One run of the proof probe. -/
structure Probe where
  marker : MarkerState
  boot : Option BootId
  launch : Launch

def Probe.bootText (p : Probe) : List Char := p.boot.elim unknown BootId.text

def Probe.texts (p : Probe) : List (List Char) := p.launch.fields.map Field.text

def Probe.recoveryLines (p : Probe) : List (List Char) :=
  p.bootText :: launchRecoveryMark :: p.launch.state.text :: p.texts

/-- The output of `launch_recovery_probe`. -/
def Probe.recovery (p : Probe) : List Char := unlines p.recoveryLines

/-- The output of `_request_remote_proof_command`. -/
def Probe.proof (p : Probe) : List Char :=
  unlines (requestRemoteProofMark :: p.marker.text :: p.recoveryLines)

/-! ## What the head reads -/

/-- The lines `_parse_launch_recovery` reads, before it looks into them. -/
structure Frame where
  boot : List Char
  state : List Char
  fields : List (List Char)
  deriving DecidableEq, Repr

def frameOf (lines : List (List Char)) : Except String Frame :=
  match lines.findIdx? (· = launchRecoveryMark) with
  | none => .error "queued launch recovery returned no protocol marker"
  | some marker => .ok {
      boot := if 0 < marker then lines.getD (marker - 1) [] else unknown
      state := lines.getD (marker + 1) []
      fields := lines.drop (marker + 2) }

def recoveryFrame (stdout : List Char) : Except String Frame := frameOf (splitlines stdout)

def invalidField (label : String) : String :=
  "queued launch recovery returned an invalid " ++ label

def natOf (digits : List Char) : Nat := digits.foldl (fun n c => 10 * n + (c.toNat - 48)) 0

/-- `[0-9]+` -/
def isNatural (s : List Char) : Bool := !s.isEmpty && s.all isDigit

def integer (value : List Char) (required : Bool) (label : String) : Except String (Option Int) :=
  if value = unknown && !required then .ok none
  else if !isNatural value then .error (invalidField label)
  else if natOf value = 0 then .error (invalidField label)
  else .ok (some (natOf value))

/-- `float` stands for Python's `float(value)`, when that is a finite number. -/
def timestamp (float : List Char → Option Time) (value : List Char) (label : String) :
    Except String (Option Time) :=
  match float value with
  | none => .error (invalidField label)
  | some t => if t ≤ 0 then .error (invalidField label) else .ok (some t)

def gpuList (value : List Char) : Except String (List Int) :=
  if value = [] || value = unknown then .ok []
  else
    let items := splitOn ',' value
    if !items.all isNatural then .error "queued launch recovery returned invalid GPUs"
    else
      let values := items.map fun item => (natOf item : Int)
      if 1024 < values.length || !values.Nodup then
        .error "queued launch recovery returned invalid GPUs"
      else .ok values

def environment (value : List Char) : Except String (Option String) :=
  if value = [] || value = unknown then .ok none
  else if classRun isHex 12 12 value then .ok (some (String.ofList value))
  else .error (invalidField "environment identity")

def bootValue (boot : List Char) : Except String (Option String) :=
  if boot = unknown then .ok none
  else if isBootId boot then .ok (some (String.ofList boot))
  else .error (invalidField "boot identity")

def exitCodeOf (value : List Char) : Except String Int :=
  if !classRun isDigit 1 3 value then .error (invalidField "exit code")
  else if 255 < natOf value then .error (invalidField "exit code")
  else .ok (natOf value)

/-- The record a frame stands for. -/
def Frame.decode (float : List Char → Option Time) (f : Frame) : Except String RecoveredLaunch := do
  let boot ← bootValue f.boot
  let field i := f.fields.getD i unknown
  if f.state = LaunchState.none.text then return { state := .none, bootId := boot }
  if f.state = LaunchState.unproven.text then return { state := .unproven, bootId := boot }
  if f.state = LaunchState.running.text then
    let pgid ← integer (field 0) true "process group"
    let gpus ← gpuList (field 1)
    let startedAt ← timestamp float (field 2) "start time"
    let envHash ← environment (field 3)
    return { state := .running, bootId := boot, pgid, gpus, startedAt, envHash }
  if f.state = LaunchState.finished.text then
    let exitCode ← exitCodeOf (field 0)
    let resultState := (ResultState.ofText (String.ofList (field 5))).getD
      (if exitCode = 0 then .success else .executionFailure)
    let pgid ← integer (field 1) false "process group"
    let gpus ← gpuList (field 2)
    let startedAt ← timestamp float (field 3) "start time"
    let finishedAt ← timestamp float (field 4) "finish time"
    let envHash ← environment (field 6)
    return { state := .finished, bootId := boot, exitCode := some exitCode, pgid, gpus, startedAt
             finishedAt, resultState := some resultState, envHash }
  .error ("queued launch recovery returned unknown state '" ++ String.ofList f.state ++ "'")

def parseLaunchRecovery (float : List Char → Option Time) (stdout : List Char) :
    Except String RecoveredLaunch :=
  (recoveryFrame stdout).bind (Frame.decode float)

/-- `max(index for index, line in enumerate(lines) if line == mark)` -/
def lastIndex (mark : List Char) : List (List Char) → Option Nat
  | [] => none
  | l :: ls =>
    match lastIndex mark ls with
    | some i => some (i + 1)
    | none => if l = mark then some 0 else none

def MarkerState.ofText (s : List Char) : Option MarkerState :=
  [MarkerState.absent, .matching, .invalid].find? (·.text = s)

/-- The marker state and the frame of a proof probe. -/
def proofFrame (stdout : List Char) : Except String (MarkerState × Frame) :=
  let lines := splitlines stdout
  let noMarker := .error "remote launch proof returned no protocol marker"
  match lastIndex requestRemoteProofMark lines with
  | none => noMarker
  | some proofIndex =>
    match lines.drop (proofIndex + 1) with
    | [] => noMarker
    | markerState :: rest =>
      match lastIndex launchRecoveryMark (markerState :: rest) with
      | none => noMarker
      | some i =>
        match MarkerState.ofText markerState with
        | none => .error "remote launch proof returned an invalid marker state"
        | some state =>
          (recoveryFrame (joinWith ['\n'] (lines.drop (proofIndex + 1 + i - 1)))).map (state, ·)

def parseRequestRemoteProof (float : List Char → Option Time) (stdout : List Char) :
    Except String (MarkerState × RecoveredLaunch) :=
  (proofFrame stdout).bind fun p => (p.2.decode float).map (p.1, ·)

/-! ## Marks -/

theorem lastIndex_eq_none {mark : List Char} {ls : List (List Char)} :
    lastIndex mark ls = none ↔ mark ∉ ls := by
  induction ls with
  | nil => simp [lastIndex]
  | cons l ls ih =>
    simp only [lastIndex]
    split
    · rename_i i hi
      have : mark ∈ ls := by
        by_contra h
        rw [ih.mpr h] at hi
        cases hi
      simp [this]
    · rename_i hn
      have : mark ∉ ls := ih.mp hn
      split
      · rename_i he
        simp [he]
      · rename_i hne
        simp [this, Ne.symm hne]

/-- No mark stands after the last one. -/
theorem lastIndex_drop {mark : List Char} {ls : List (List Char)} {i : Nat}
    (h : lastIndex mark ls = some i) : mark ∉ ls.drop (i + 1) := by
  induction ls generalizing i with
  | nil => cases h
  | cons l ls ih =>
    simp only [lastIndex] at h
    split at h
    · rename_i j hj
      cases h
      exact ih hj
    · rename_i hn
      split at h
      · cases h
        exact lastIndex_eq_none.mp hn
      · cases h

theorem isLine_of_isBootId {s : List Char} (h : isBootId s = true) : IsLine s := by
  intro c hc
  simp only [isBootId, classRun, Bool.and_eq_true, List.all_eq_true] at h
  have hcl := h.2 c hc
  simp only [isAlnum, isDigit, Bool.or_eq_true, Bool.and_eq_true, decide_eq_true_eq,
    Char.le_def, UInt32.le_iff_toNat_le] at hcl
  have hb : (45 ≤ c.toNat ∧ c.toNat ≤ 122) := by
    rcases hcl with ((h | h) | h) | rfl
    · exact ⟨le_trans (by decide) h.1, le_trans h.2 (by decide)⟩
    · exact ⟨le_trans (by decide) h.1, le_trans h.2 (by decide)⟩
    · exact ⟨le_trans (by decide) h.1, le_trans h.2 (by decide)⟩
    · decide
  simp only [isLineEnd, Bool.or_eq_false_iff, beq_eq_false_iff_ne]
  omega

theorem isLine_bootText (p : Probe) : IsLine p.bootText := by
  unfold Probe.bootText
  cases p.boot with
  | none => decide
  | some b => exact isLine_of_isBootId b.valid

/-- The boot identity is no mark. -/
theorem bootText_ne (p : Probe) {mark : List Char} (h : isBootId mark = false) :
    p.bootText ≠ mark := by
  rintro rfl
  unfold Probe.bootText at h
  cases hb : p.boot with
  | none => exact absurd h (by rw [hb]; decide)
  | some b => simp [hb, b.valid] at h

/-! ## Reading what was printed -/

/-- What the script printed. -/
def Probe.emitted (p : Probe) : Frame :=
  { boot := p.bootText, state := p.launch.state.text, fields := p.texts }

/-- A file that cannot be taken for anything but its own line. -/
def Harmless (text : List Char) : Prop :=
  IsLine text ∧ text ≠ launchRecoveryMark ∧ text ≠ requestRemoteProofMark

instance (text : List Char) : Decidable (Harmless text) :=
  inferInstanceAs (Decidable (IsLine text ∧ _ ∧ _))

/-- Both parsers see the marker state, the launch state and, at the place of each file, the text
of that file; an empty last file is not seen by the proof parser, which reads it as an absent
one. Their results are those of the printed record. -/
structure Probe.ReadAsEmitted (p : Probe) : Prop where
  recovery : recoveryFrame p.recovery = .ok p.emitted
  proof : proofFrame p.proof =
    .ok (p.marker, { p.emitted with fields := dropEmptyEnd p.texts })
  launch : ∀ float, parseLaunchRecovery float p.recovery = p.emitted.decode float
  request : ∀ float, parseRequestRemoteProof float p.proof =
    (p.emitted.decode float).map (p.marker, ·)

theorem frameOf_lines {boot state : List Char} {fields : List (List Char)}
    (hb : boot ≠ launchRecoveryMark) :
    frameOf (boot :: launchRecoveryMark :: state :: fields) = .ok ⟨boot, state, fields⟩ := by
  simp [frameOf, List.findIdx?_cons, hb]

theorem isLine_recoveryLines (p : Probe) (h : ∀ t ∈ p.texts, IsLine t) :
    ∀ l ∈ p.recoveryLines, IsLine l := by
  intro l hl
  simp only [Probe.recoveryLines, List.mem_cons] at hl
  rcases hl with rfl | rfl | rfl | hl
  · exact isLine_bootText p
  · decide
  · cases p.launch.state <;> decide
  · exact h l hl

theorem recoveryFrame_recovery (p : Probe) (h : ∀ t ∈ p.texts, IsLine t) :
    recoveryFrame p.recovery = .ok p.emitted := by
  rw [recoveryFrame, Probe.recovery, splitlines_unlines (isLine_recoveryLines p h)]
  exact frameOf_lines (bootText_ne p (by decide))

theorem dropEmptyEnd_recoveryLines (p : Probe) : dropEmptyEnd p.recoveryLines =
    p.bootText :: launchRecoveryMark :: p.launch.state.text :: dropEmptyEnd p.texts := by
  cases ht : p.texts with
  | nil =>
    have : p.launch.state.text ≠ [] := by cases p.launch.state <;> decide
    simp [Probe.recoveryLines, ht, dropEmptyEnd, this]
  | cons t ts => simp [Probe.recoveryLines, ht, dropEmptyEnd]

/-- The last proof mark of the output is its first line. -/
theorem lastIndex_proofMark (p : Probe) (h : ∀ t ∈ p.texts, Harmless t) :
    lastIndex requestRemoteProofMark
      (requestRemoteProofMark :: p.marker.text :: p.recoveryLines) = some 0 := by
  have hnot : requestRemoteProofMark ∉ p.marker.text :: p.recoveryLines := by
    simp only [Probe.recoveryLines, List.mem_cons, not_or]
    refine ⟨?_, (bootText_ne p (by decide)).symm, by decide, ?_, fun ht => (h _ ht).2.2 rfl⟩
    · cases p.marker <;> decide
    · cases p.launch.state <;> decide
  rw [lastIndex, lastIndex_eq_none.mpr hnot]
  simp

/-- The last recovery mark is the one the script printed. -/
theorem lastIndex_recoveryMark (p : Probe) (h : ∀ t ∈ p.texts, Harmless t) :
    lastIndex launchRecoveryMark (p.marker.text :: p.recoveryLines) = some 2 := by
  have hnot : launchRecoveryMark ∉ p.launch.state.text :: p.texts := by
    simp only [List.mem_cons, not_or]
    refine ⟨?_, fun ht => (h _ ht).2.1 rfl⟩
    cases p.launch.state <;> decide
  rw [Probe.recoveryLines, lastIndex, lastIndex, lastIndex, lastIndex_eq_none.mpr hnot]
  simp

theorem proofFrame_proof (p : Probe) (h : ∀ t ∈ p.texts, Harmless t) :
    proofFrame p.proof = .ok (p.marker, { p.emitted with fields := dropEmptyEnd p.texts }) := by
  have hlines : ∀ l ∈ p.recoveryLines, IsLine l := isLine_recoveryLines p fun t ht => (h t ht).1
  have hall : ∀ l ∈ requestRemoteProofMark :: p.marker.text :: p.recoveryLines, IsLine l := by
    intro l hl
    simp only [List.mem_cons] at hl
    rcases hl with rfl | rfl | hl
    · decide
    · cases p.marker <;> decide
    · exact hlines l hl
  have hmarker : MarkerState.ofText p.marker.text = some p.marker := by cases p.marker <;> decide
  have hframe : recoveryFrame (joinWith ['\n'] p.recoveryLines) =
      .ok { p.emitted with fields := dropEmptyEnd p.texts } := by
    rw [recoveryFrame, splitlines_joinWith hlines, dropEmptyEnd_recoveryLines]
    exact frameOf_lines (bootText_ne p (by decide))
  rw [proofFrame, Probe.proof, splitlines_unlines hall, lastIndex_proofMark p h]
  simp only [Nat.zero_add, List.drop_succ_cons, List.drop_zero, lastIndex_recoveryMark p h, hmarker,
    Nat.add_one_sub_one, hframe, Except.map]

/-- An empty environment key reads like an absent one, so the record is the same. -/
theorem decode_dropEmptyEnd (p : Probe) (float : List Char → Option Time) :
    ({ p.emitted with fields := dropEmptyEnd p.texts } : Frame).decode float =
      p.emitted.decode float := by
  have henv : environment unknown = environment [] := rfl
  cases hl : p.launch with
  | none => simp [Probe.emitted, Probe.texts, hl, Launch.fields, dropEmptyEnd]
  | unproven => simp [Probe.emitted, Probe.texts, hl, Launch.fields, dropEmptyEnd]
  | running pgid gpus startedAt envKey =>
    by_cases he : envKey.text = []
    · simp [Frame.decode, Probe.emitted, Probe.texts, hl, Launch.fields, Launch.state,
        dropEmptyEnd, he, henv]
    · simp [Probe.emitted, Probe.texts, hl, Launch.fields, dropEmptyEnd, he]
  | finished exitCode pgid gpus startedAt finishedAt resultState envKey =>
    by_cases he : envKey.text = []
    · simp [Frame.decode, Probe.emitted, Probe.texts, hl, Launch.fields, Launch.state,
        dropEmptyEnd, he, henv]
    · simp [Probe.emitted, Probe.texts, hl, Launch.fields, dropEmptyEnd, he]

theorem readAsEmitted_of_harmless (p : Probe) (h : ∀ t ∈ p.texts, Harmless t) :
    p.ReadAsEmitted where
  recovery := recoveryFrame_recovery p fun t ht => (h t ht).1
  proof := proofFrame_proof p h
  launch float := by
    rw [parseLaunchRecovery, recoveryFrame_recovery p fun t ht => (h t ht).1]
    rfl
  request float := by
    rw [parseRequestRemoteProof, proofFrame_proof p h]
    simp only [Except.bind, decode_dropEmptyEnd]

/-- The lines a frame takes its fields from. -/
theorem frameOf_fields {lines : List (List Char)} {f : Frame} (h : frameOf lines = .ok f) :
    ∃ m, f.fields = lines.drop (m + 2) := by
  unfold frameOf at h
  split at h
  · cases h
  · rename_i m hm
    cases h
    exact ⟨m, rfl⟩

/-- The fields of a proof frame stand after both last marks. -/
theorem proofFrame_fields {stdout : List Char} {state : MarkerState} {f : Frame}
    (h : proofFrame stdout = .ok (state, f)) :
    launchRecoveryMark ∉ f.fields ∧ requestRemoteProofMark ∉ f.fields := by
  simp only [proofFrame] at h
  split at h
  · cases h
  · rename_i k hk
    split at h
    · cases h
    · rename_i markerState rest hrest
      split at h
      · cases h
      · rename_i i hi
        split at h
        · cases h
        · obtain ⟨f', hf', heq⟩ : ∃ f', recoveryFrame
              (joinWith ['\n'] ((splitlines stdout).drop (k + 1 + i - 1))) = .ok f' ∧ f' = f := by
            cases hr : recoveryFrame
                (joinWith ['\n'] ((splitlines stdout).drop (k + 1 + i - 1))) with
            | error e =>
              rw [hr] at h
              cases h
            | ok f' =>
              rw [hr] at h
              simp only [Except.map, Except.ok.injEq, Prod.mk.injEq] at h
              exact ⟨f', rfl, h.2⟩
          subst heq
          have hlines : ∀ l ∈ (splitlines stdout).drop (k + 1 + i - 1), IsLine l := fun l hl =>
            splitlines_isLine (List.mem_of_mem_drop hl)
          rw [recoveryFrame, splitlines_joinWith hlines] at hf'
          obtain ⟨m, hm⟩ := frameOf_fields hf'
          -- every field stands behind the last mark of both kinds
          have hsub : ∀ t ∈ f'.fields, t ∈ (splitlines stdout).drop (k + 1 + (i + 1)) := by
            intro t ht
            rw [hm] at ht
            have h₁ := mem_drop_of_mem_drop_dropEmptyEnd ht
            rw [List.drop_drop] at h₁
            have h₂ : k + 1 + i - 1 + (m + 2) = k + 1 + (i + 1) + m := by omega
            rw [h₂, ← List.drop_drop] at h₁
            exact List.mem_of_mem_drop h₁
          refine ⟨fun ht => ?_, fun ht => ?_⟩
          · have := hsub _ ht
            rw [← List.drop_drop, hrest] at this
            exact lastIndex_drop hi this
          · have := hsub _ ht
            rw [← List.drop_drop] at this
            exact lastIndex_drop hk (List.mem_of_mem_drop this)

/-- The head reads what the script printed exactly when no copied file contains one of Python's
other line ends and none is one of the two marks. -/
theorem probe_read_as_emitted (p : Probe) :
    p.ReadAsEmitted ↔ ∀ t ∈ p.texts, Harmless t := by
  refine ⟨fun h t ht => ⟨?_, ?_, ?_⟩, readAsEmitted_of_harmless p⟩
  · obtain ⟨m, hm⟩ := frameOf_fields h.recovery
    have hmem : t ∈ (splitlines p.recovery).drop (m + 2) := hm ▸ ht
    exact splitlines_isLine (List.mem_of_mem_drop hmem)
  · rintro rfl
    exact (proofFrame_fields h.proof).1 (mem_dropEmptyEnd ht (by decide))
  · rintro rfl
    exact (proofFrame_fields h.proof).2 (mem_dropEmptyEnd ht (by decide))

/-- A probe that proved a running launch, where the job has written its GPU file itself: vertical
tabs end its first line and add a proof of their own. -/
def sampleForged : Probe where
  marker := .matching
  boot := none
  launch := .running (recoverField (some "4242\n".toList))
    (recoverField (some ("0".toList ++ ['\x0b'] ++ requestRemoteProofMark ++ ['\x0b'] ++
      "ABSENT".toList ++ ['\x0b'] ++ unknown ++ ['\x0b'] ++ launchRecoveryMark ++ ['\x0b'] ++
      "NONE".toList)))
    (recoverField (some "1700000000.5\n".toList)) (recoverField none)

/-- The proof parser reads the forged record: no marker and no launch, which makes the running job
look safe to replay. -/
theorem forged_absence :
    ¬ sampleForged.ReadAsEmitted ∧
      parseRequestRemoteProof (fun _ => none) sampleForged.proof =
        .ok (.absent, { state := .none }) := by
  refine ⟨fun h => ?_, by decide +kernel⟩
  have := (probe_read_as_emitted sampleForged).mp h
  exact absurd this (by decide +kernel)

end Dt.Dispatch
