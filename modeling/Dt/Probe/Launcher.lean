import Mathlib
import Dt.Probe.FailClosed

/-!
# The free cards of the launcher

The launcher looks for free cards itself, on the node, with its own reading of `nvidia-smi` and
`ps`. The head and the launcher mean to agree about the cards that are free. They do, whatever the
memory in use and the threshold are, exactly when they agree about the processes of each card that
the head sees without a lease: which of them may live on a card, what memory these account for, and
that no other probe holds the lock of the card for a moment.
-/

namespace Dt.Probe

open Dt.Lib

/-! ## `launcher.sh` -/

/-- The separators of the fields of `awk`. -/
def awkBlank (c : Char) : Bool := c = ' ' || c = '\t' || c = '\n'

/-- The words of `awk`. -/
def awkWords (t : Text) : List Text := (t.splitOnP awkBlank).filter fun w => w ≠ []

/-- `awk '$1 == p { $1 = ""; sub(/^ +/, ""); print; exit }'` -/
def Process.launcherName (p : Process) : Text := joinWith [' '] (awkWords p.comm)

/-- `DT_GPU_RESIDENT_PROCESSES`, after the daemons and the truncated names were appended. -/
def residentList (configured : List Text) : Text := joinWith [','] (residentProcessNames configured)

/-- `[ -n "$comm" ] && [[ ",$DT_GPU_RESIDENT_PROCESSES," == *",$comm,"* ]]` -/
def inResidentList (configured : List Text) (comm : Text) : Bool :=
  comm ≠ [] && decide (([','] ++ comm ++ [',']) <:+: ([','] ++ residentList configured ++ [',']))

section

variable (s : NodeState) (configured : List Text)

/-- The name that the launcher finds for a row. -/
def NodeState.launcherComm (row : AppRow) : Text :=
  ((s.process row).map Process.launcherName).getD []

/-- `GPU_BUSY_UUIDS` -/
def NodeState.busyUuids : List Text :=
  (s.apps.filter fun row => row.uuid ≠ [] && !inResidentList configured (s.launcherComm row)).map
    AppRow.uuid

/-- `GPU_RESIDENT_MIB` -/
def NodeState.residentRows : List (Text × Nat) :=
  (s.apps.filter fun row => row.uuid ≠ [] && inResidentList configured (s.launcherComm row)).map
    fun row => (row.uuid, row.used.getD 0)

/-- `foreign_used_mib` -/
def NodeState.foreignUsedMib (uuid : Text) (used : Nat) : Nat :=
  used - (((s.residentRows configured).filter fun row => row.1 = uuid).map Prod.snd).sum

/-- `lease_available` -/
def NodeState.leaseAvailable (idx : Nat) : Bool :=
  s.lock idx = .absent || (s.flock && s.lock idx = .unlocked)

/-- The loop of `free_gpu_indices`; none when a row is malformed. -/
def NodeState.freeGpuLoop (threshold : Nat) :
    List Device → List Nat → List Text → Option (List Nat)
  | [], _, _ => some []
  | d :: devices, seenIndices, seenUuids =>
    if d.uuid = [] ∨ d.total ≤ 0 ∨ d.total < d.used ∨ d.index ∈ seenIndices ∨
        d.uuid ∈ seenUuids then none
    else
      let rest := freeGpuLoop threshold devices (d.index :: seenIndices) (d.uuid :: seenUuids)
      if s.foreignUsedMib configured d.uuid d.used < threshold ∧
          d.uuid ∉ s.busyUuids configured ∧ s.leaseAvailable d.index then
        rest.map (d.index :: ·)
      else rest

/-- `free_gpu_indices` -/
def NodeState.freeGpuIndices (threshold : Nat) : Option (List Nat) :=
  s.freeGpuLoop configured threshold s.devices [] []

/-- The indices of the cards that the probe of the head marks free. -/
def NodeState.headFree (threshold : Nat) (system : Text) : List Int :=
  ((parseProbeInventory (probeText s.gpuLines s.appLines system) threshold configured).1.filter
    Gpu.free).map Gpu.index

end

/-! ## Well-formed inventories -/

/-- `GPU-` and hexadecimal groups. -/
def validUuid (uuid : Text) : Prop :=
  "GPU-".toList <+: uuid ∧ uuid.length ≤ 256 ∧
    uuid.all (fun c => isHex c || c ∈ ['G', 'P', 'U', '-']) = true

/-- The cards and the processes of a node, as the driver reports them. -/
structure NodeState.Valid (s : NodeState) : Prop where
  uuid : ∀ d ∈ s.devices, validUuid d.uuid
  total : ∀ d ∈ s.devices, 0 < d.total
  used : ∀ d ∈ s.devices, d.used ≤ d.total
  util : ∀ d ∈ s.devices, d.util ≤ 100
  indices : (s.devices.map Device.index).Nodup
  uuids : (s.devices.map Device.uuid).Nodup
  apps : ∀ row ∈ s.apps, validUuid row.uuid

/-- The texts of a node can be read as fields. -/
structure NodeState.Readable (s : NodeState) : Prop where
  owner : ∀ idx, IsLine (s.owner idx) ∧ ¬ sep <:+: s.owner idx
  user : ∀ p ∈ s.processes, PlainField sysSep p.user
  name : ∀ p ∈ s.processes, PlainField sysSep p.name

/-! ## What the head and the launcher see of a card -/

section

variable (s : NodeState) (configured : List Text)

/-- The name that the head reads for a row. -/
def NodeState.headComm (row : AppRow) : Text := strip (((s.process row).map Process.name).getD [])

def NodeState.headResident (row : AppRow) : Bool :=
  s.headComm row ≠ [] && s.headComm row ∈ residentProcessNames configured

def NodeState.launcherResident (row : AppRow) : Bool :=
  inResidentList configured (s.launcherComm row)

def NodeState.rowsOn (uuid : Text) : List AppRow := s.apps.filter fun row => row.uuid = uuid

/-- The rows of the different processes on a card. -/
def NodeState.firstRowsOn (uuid : Text) : List AppRow :=
  (newRows [] s.apps).filter fun row => row.uuid = uuid

def usedMib (rows : List AppRow) : Nat := (rows.map fun row => row.used.getD 0).sum

def NodeState.headView (threshold : Nat) (d : Device) : Prop :=
  (∀ row ∈ s.rowsOn d.uuid, s.headResident configured row = true) ∧
    d.used - usedMib (s.firstRowsOn d.uuid) < threshold ∧ s.leased d.index = false

def NodeState.launcherView (threshold : Nat) (d : Device) : Prop :=
  (∀ row ∈ s.rowsOn d.uuid, s.launcherResident configured row = true) ∧
    d.used - usedMib (s.rowsOn d.uuid) < threshold ∧ s.leaseAvailable d.index = true

/-- The head and the launcher see the same processes on a card that the head finds without a lease,
and the launcher can take its lock. -/
def NodeState.SameView (d : Device) : Prop :=
  s.leased d.index = false →
    ((∀ row ∈ s.rowsOn d.uuid, s.headResident configured row = true) ↔
      (∀ row ∈ s.rowsOn d.uuid, s.launcherResident configured row = true) ∧
        s.lock d.index ≠ .shared) ∧
    ((∀ row ∈ s.rowsOn d.uuid, s.headResident configured row = true) →
      usedMib (s.firstRowsOn d.uuid) = usedMib (s.rowsOn d.uuid))

end

/-! ## The launcher -/

section

variable {s : NodeState} {configured : List Text} {threshold : Nat}

theorem freeGpuLoop_eq {devices : List Device} {indices : List Nat} {uuids : List Text}
    (hne : ∀ d ∈ devices, d.uuid ≠ []) (htotal : ∀ d ∈ devices, 0 < d.total)
    (hused : ∀ d ∈ devices, d.used ≤ d.total)
    (hindices : (devices.map Device.index).Nodup) (huuids : (devices.map Device.uuid).Nodup)
    (hi : ∀ d ∈ devices, d.index ∉ indices) (hu : ∀ d ∈ devices, d.uuid ∉ uuids) :
    s.freeGpuLoop configured threshold devices indices uuids =
      some ((devices.filter fun d => s.foreignUsedMib configured d.uuid d.used < threshold ∧
        d.uuid ∉ s.busyUuids configured ∧ s.leaseAvailable d.index).map Device.index) := by
  induction devices generalizing indices uuids with
  | nil => rfl
  | cons d devices ih =>
    rw [List.map_cons, List.nodup_cons] at hindices huuids
    have hok : ¬ (d.uuid = [] ∨ d.total ≤ 0 ∨ d.total < d.used ∨ d.index ∈ indices ∨
        d.uuid ∈ uuids) := by
      have hpos := htotal d List.mem_cons_self
      have hle := hused d List.mem_cons_self
      rintro (h | h | h | h | h)
      · exact hne d List.mem_cons_self h
      · omega
      · omega
      · exact hi d List.mem_cons_self h
      · exact hu d List.mem_cons_self h
    have hi' : ∀ e ∈ devices, e.index ∉ d.index :: indices := by
      intro e he hin
      rcases List.mem_cons.mp hin with heq | hin
      · exact hindices.1 (heq ▸ List.mem_map_of_mem he)
      · exact hi e (List.mem_cons_of_mem d he) hin
    have hu' : ∀ e ∈ devices, e.uuid ∉ d.uuid :: uuids := by
      intro e he hin
      rcases List.mem_cons.mp hin with heq | hin
      · exact huuids.1 (heq ▸ List.mem_map_of_mem he)
      · exact hu e (List.mem_cons_of_mem d he) hin
    have hrest := ih (fun e he => hne e (List.mem_cons_of_mem d he))
      (fun e he => htotal e (List.mem_cons_of_mem d he))
      (fun e he => hused e (List.mem_cons_of_mem d he)) hindices.2 huuids.2 hi' hu'
    rw [NodeState.freeGpuLoop, if_neg hok, hrest, List.filter_cons]
    by_cases hfree : s.foreignUsedMib configured d.uuid d.used < threshold ∧
        d.uuid ∉ s.busyUuids configured ∧ s.leaseAvailable d.index = true
    · simp [hfree]
    · simp [hfree]

/-- When every process of a card may live on it, the launcher takes off the memory of every row. -/
theorem foreignUsedMib_eq {uuid : Text} (hne : uuid ≠ []) (used : Nat)
    (hall : ∀ row ∈ s.rowsOn uuid, s.launcherResident configured row = true) :
    s.foreignUsedMib configured uuid used = used - usedMib (s.rowsOn uuid) := by
  have hrows : (s.residentRows configured).filter (fun row => row.1 = uuid) =
      (s.rowsOn uuid).map fun row => (row.uuid, row.used.getD 0) := by
    unfold NodeState.residentRows NodeState.rowsOn
    rw [List.filter_map, List.filter_filter]
    refine congrArg _ (List.filter_congr fun row hrow => ?_)
    by_cases huuid : row.uuid = uuid
    · have hres := hall row (List.mem_filter.mpr ⟨hrow, by simpa using huuid⟩)
      unfold NodeState.launcherResident at hres
      simp [huuid, hne, hres]
    · simp [huuid]
  unfold NodeState.foreignUsedMib usedMib
  rw [hrows, List.map_map]
  rfl

/-- What the launcher asks of a card. -/
theorem launcherView_iff {d : Device} (hne : d.uuid ≠ []) :
    (s.foreignUsedMib configured d.uuid d.used < threshold ∧ d.uuid ∉ s.busyUuids configured ∧
      s.leaseAvailable d.index = true) ↔ s.launcherView configured threshold d := by
  have hbusy : d.uuid ∉ s.busyUuids configured ↔
      ∀ row ∈ s.rowsOn d.uuid, s.launcherResident configured row = true := by
    constructor
    · intro hnot row hrow
      obtain ⟨hmem, huuid⟩ := List.mem_filter.mp hrow
      rw [decide_eq_true_eq] at huuid
      by_contra hres
      refine hnot (List.mem_map.mpr ⟨row, List.mem_filter.mpr ⟨hmem, ?_⟩, huuid⟩)
      rw [Bool.not_eq_true] at hres
      unfold NodeState.launcherResident at hres
      simp [huuid, hne, hres]
    · intro hall hmem
      obtain ⟨row, hrow, huuid⟩ := List.mem_map.mp hmem
      obtain ⟨hrow, hbad⟩ := List.mem_filter.mp hrow
      have hres := hall row (List.mem_filter.mpr ⟨hrow, by simpa using huuid⟩)
      unfold NodeState.launcherResident at hres
      simp [hres] at hbad
  unfold NodeState.launcherView
  rw [hbusy]
  constructor
  · rintro ⟨hmem, hall, hlease⟩
    rw [foreignUsedMib_eq hne d.used hall] at hmem
    exact ⟨hall, hmem, hlease⟩
  · rintro ⟨hall, hmem, hlease⟩
    rw [foreignUsedMib_eq hne d.used hall]
    exact ⟨hmem, hall, hlease⟩

theorem validUuid.ne_nil {uuid : Text} (h : validUuid uuid) : uuid ≠ [] := by
  rintro rfl
  exact absurd h.1 (by decide)

/-- The launcher prints the cards that it sees as free. -/
theorem freeGpuIndices_eq (hvalid : s.Valid) :
    ∃ out, s.freeGpuIndices configured threshold = some out ∧
      ∀ i, i ∈ out ↔ ∃ d ∈ s.devices, d.index = i ∧ s.launcherView configured threshold d := by
  refine ⟨_, freeGpuLoop_eq (fun d hd => (hvalid.uuid d hd).ne_nil) hvalid.total hvalid.used
    hvalid.indices hvalid.uuids (fun _ _ h => nomatch h) (fun _ _ h => nomatch h), fun i => ?_⟩
  rw [List.mem_map]
  refine exists_congr fun d => ?_
  rw [List.mem_filter, decide_eq_true_eq, and_assoc]
  refine and_congr_right fun hd => ?_
  rw [launcherView_iff (hvalid.uuid d hd).ne_nil, and_comm]

end

/-! ## The head -/

theorem numText_digits (n : Nat) : ∀ c ∈ numText n, c.isDigit = true := by
  intro c hc
  rw [numText, Nat.toString_eq_repr, Nat.toList_repr] at hc
  exact Nat.isDigit_of_mem_toDigits (by decide) (by decide) hc

/-- The pid as it is printed. -/
def pidText (pid : Option Nat) : Text := (pid.map numText).getD "[N/A]".toList

theorem strip_numText (n : Nat) : strip (numText n) = numText n := strip_digits (numText_digits n)

theorem pyInt_numText (n : Nat) : pyInt (numText n) = some (n : Int) := pyInt_toString n

theorem numText_ne_nil (n : Nat) : numText n ≠ [] := by
  intro h
  have := pyInt_numText n
  rw [h] at this
  cases this

theorem numText_inj {m n : Nat} (h : numText m = numText n) : m = n := by
  have hm := pyInt_numText m
  rw [h, pyInt_numText n] at hm
  simpa using hm.symm

theorem pidText_inj {p q : Option Nat} (h : pidText p = pidText q) : p = q := by
  have hnot : ∀ n, numText n ≠ "[N/A]".toList := by
    intro n hn
    have := numText_digits n '['
    rw [hn] at this
    exact absurd (this (by decide)) (by decide)
  cases p with
  | none =>
    cases q with
    | none => rfl
    | some n => exact absurd h.symm (hnot n)
  | some m =>
    cases q with
    | none => exact absurd h (hnot m)
    | some n => rw [numText_inj h]

theorem pidText_ne_nil (p : Option Nat) : pidText p ≠ [] := by
  cases p with
  | none => decide
  | some n => exact numText_ne_nil n

/-- A character that ends no field, no row and no part. -/
def Harmless (c : Char) : Prop := c ≠ ',' ∧ c ≠ 'T' ∧ isLineEnd c = false

instance (c : Char) : Decidable (Harmless c) := by
  unfold Harmless
  infer_instance

theorem plainField_of_harmless {mark f : Text} (hmark : 'T' ∈ mark) (h : ∀ c ∈ f, Harmless c) :
    PlainField mark f where
  comma hc := (h _ hc).1 rfl
  line c hc := (h c hc).2.2
  mark hin := (h _ (hin.subset hmark)).2.1 rfl

theorem harmless_of_isDigit {c : Char} (h : c.isDigit = true) : Harmless c := by
  refine ⟨?_, ?_, isLine_of_isDigit (l := [c]) (by simpa using h) c List.mem_cons_self⟩
  · rintro rfl
    exact absurd h (by decide)
  · rintro rfl
    exact absurd h (by decide)

theorem harmless_csvField {t : Text} (h : ∀ c ∈ t, Harmless c) : ∀ c ∈ csvField t, Harmless c := by
  intro c hc
  rcases List.mem_cons.mp hc with rfl | hc
  · exact ⟨by decide, by decide, by decide⟩
  · exact h c hc

theorem harmless_numText (n : Nat) : ∀ c ∈ numText n, Harmless c :=
  fun c hc => harmless_of_isDigit (numText_digits n c hc)

theorem harmless_pidText (p : Option Nat) : ∀ c ∈ pidText p, Harmless c := by
  cases p with
  | none =>
    have hall : ("[N/A]".toList.all fun c => decide (Harmless c)) = true := by decide
    exact fun c hc => of_decide_eq_true (List.all_eq_true.mp hall c hc)
  | some n => exact harmless_numText n

section

variable {uuid : Text}

theorem validUuid.char (h : validUuid uuid) {c : Char} (hc : c ∈ uuid) :
    45 ≤ c.toNat ∧ c.toNat ≤ 102 ∧ c ≠ 'T' := by
  have hclass := List.all_eq_true.mp h.2.2 c hc
  rw [Bool.or_eq_true, decide_eq_true_eq] at hclass
  rcases hclass with hhex | hmem
  · have hrange : (48 ≤ c.toNat ∧ c.toNat ≤ 57) ∨ (97 ≤ c.toNat ∧ c.toNat ≤ 102) := by
      simp only [isHex, isDigit, Bool.or_eq_true, Bool.and_eq_true, decide_eq_true_eq,
        Char.le_def, UInt32.le_iff_toNat_le] at hhex
      exact hhex
    refine ⟨by omega, by omega, ?_⟩
    rintro rfl
    exact absurd hrange (by decide)
  · simp only [List.mem_cons, List.not_mem_nil, or_false] at hmem
    rcases hmem with rfl | rfl | rfl | rfl
    all_goals decide

theorem validUuid.solid (h : validUuid uuid) : Solid uuid := by
  intro c hc
  obtain ⟨hlo, hhi, -⟩ := h.char hc
  simp [isSpace]
  omega

theorem validUuid.harmless (h : validUuid uuid) : ∀ c ∈ uuid, Harmless c := by
  intro c hc
  obtain ⟨hlo, hhi, hmark⟩ := h.char hc
  refine ⟨?_, hmark, ?_⟩
  · rintro rfl
    exact absurd hlo (by decide)
  · simp [isLineEnd]
    omega

end

/-! ## The printed rows -/

section

variable {s : NodeState}

theorem gpuLine_plain (hread : s.Readable) {d : Device} (huuid : validUuid d.uuid) :
    (s.gpuLine d).Plain := by
  have howner : IsLine (s.gpuLine d).owner ∧ ¬ sep <:+: (s.gpuLine d).owner := by
    unfold NodeState.gpuLine
    dsimp only
    split
    · exact hread.owner d.index
    · exact ⟨by decide, by decide⟩
  refine ⟨fun c hc => ?_, fun f hf => ?_, howner.1, howner.2⟩
  · have hrange := toNat_of_isDigit (numText_digits d.index c hc)
    simp [isSpace]
    omega
  · simp only [NodeState.gpuLine, List.mem_cons, List.not_mem_nil, or_false] at hf
    rcases hf with rfl | rfl | rfl | rfl | rfl | rfl
    · exact plainField_of_harmless (by decide) (harmless_numText _)
    · exact plainField_of_harmless (by decide) (harmless_csvField huuid.harmless)
    all_goals exact plainField_of_harmless (by decide) (harmless_csvField (harmless_numText _))

theorem mem_processes {row : AppRow} {p : Process} (h : s.process row = some p) :
    p ∈ s.processes := by
  unfold NodeState.process at h
  rw [Option.bind_eq_some_iff] at h
  obtain ⟨pid, -, hfind⟩ := h
  exact List.mem_of_find?_eq_some hfind

theorem appLine_plain (hread : s.Readable) {row : AppRow} (huuid : validUuid row.uuid) :
    (s.appLine row).Plain := by
  have hnil : PlainField sysSep [] := plainField_of_harmless (by decide) fun c hc => nomatch hc
  have huser : PlainField sysSep (s.appLine row).user := by
    have hunknown : PlainField sysSep ['?'] := ⟨by decide, by decide, by decide⟩
    unfold NodeState.appLine
    dsimp only
    cases hp : s.process row with
    | none => exact hunknown
    | some p =>
      dsimp only
      split
      · exact hunknown
      · exact hread.user p (mem_processes hp)
  have hname : PlainField sysSep (s.appLine row).comm := by
    unfold NodeState.appLine
    dsimp only
    cases hp : s.process row with
    | none => exact hnil
    | some p => exact hread.name p (mem_processes hp)
  have hused : PlainField sysSep (s.appLine row).used := by
    unfold NodeState.appLine
    dsimp only
    cases row.used with
    | none => exact hnil
    | some n => exact plainField_of_harmless (by decide) (harmless_numText n)
  refine ⟨huuid.solid, fun f hf => ?_⟩
  simp only [AppLine.fields, List.mem_cons, List.not_mem_nil, or_false] at hf
  rcases hf with rfl | rfl | rfl | rfl | rfl
  · exact plainField_of_harmless (by decide) huuid.harmless
  · exact plainField_of_harmless (by decide) (harmless_pidText row.pid)
  · exact huser
  · exact hname
  · exact hused

theorem strip_solid {t : Text} (h : Solid t) : strip t = t := by
  have hkeep : ∀ m : Text, Solid m → m.dropWhile isSpace = m := by
    intro m hm
    cases m with
    | nil => rfl
    | cons c m => simp [hm c List.mem_cons_self]
  have hreverse : Solid t.reverse := fun c hc => h c (List.mem_reverse.mp hc)
  unfold strip
  rw [hkeep t h, hkeep t.reverse hreverse, List.reverse_reverse]

theorem strip_csvField {t : Text} (h : Solid t) : strip (csvField t) = t := by
  have hdrop : strip (csvField t) = strip t := rfl
  rw [hdrop, strip_solid h]

/-- The fields that the head reads of a process. -/
def NodeState.fieldsOf (s : NodeState) (row : AppRow) : List Text :=
  (s.appLine row).fields.map strip

theorem fieldsOf_eq {row : AppRow} (huuid : validUuid row.uuid) :
    s.fieldsOf row =
      [row.uuid, pidText row.pid, strip (s.appLine row).user, s.headComm row,
        (row.used.map numText).getD []] := by
  have hpid : strip (pidText row.pid) = pidText row.pid := by
    cases row.pid with
    | none => decide
    | some n => exact strip_numText n
  have hused : strip ((row.used.map numText).getD []) = (row.used.map numText).getD [] := by
    cases row.used with
    | none => rfl
    | some n => exact strip_numText n
  have hfields : s.fieldsOf row = [strip row.uuid, strip (pidText row.pid),
    strip (s.appLine row).user, s.headComm row, strip ((row.used.map numText).getD [])] := rfl
  rw [hfields, strip_solid huuid.solid, hpid, hused]

theorem rowKey_fieldsOf {row : AppRow} (huuid : validUuid row.uuid) :
    rowKey (s.fieldsOf row) = some (row.uuid, pidText row.pid) := by
  rw [fieldsOf_eq huuid, rowKey, if_pos (pidText_ne_nil row.pid)]

theorem isResident_fieldsOf (configured : List Text) {row : AppRow} (huuid : validUuid row.uuid) :
    isResident (residentProcessNames configured) (s.fieldsOf row) =
      s.headResident configured row := by
  rw [fieldsOf_eq huuid]
  rfl

theorem rowMib_fieldsOf {row : AppRow} (huuid : validUuid row.uuid) :
    rowMib (s.fieldsOf row) = row.used.getD 0 := by
  have hrow : ∀ a b c d e : Text, rowMib [a, b, c, d, e] =
      if e ≠ [] ∧ e.all isDigit then ((pyInt e).getD 0).toNat else 0 := fun _ _ _ _ _ => rfl
  rw [fieldsOf_eq huuid, hrow]
  cases row.used with
  | none => rfl
  | some n =>
    have hdigits : (numText n).all isDigit = true := by
      rw [List.all_eq_true]
      intro c hc
      have hrange := toNat_of_isDigit (numText_digits n c hc)
      simp only [isDigit, Bool.and_eq_true, decide_eq_true_eq, Char.le_def, UInt32.le_iff_toNat_le]
      exact hrange
    rw [Option.map_some, Option.getD_some, if_pos ⟨numText_ne_nil n, hdigits⟩, pyInt_numText]
    rfl

/-- The printed rows are rows of different processes. -/
theorem firstRows_newRows {rows : List AppRow} (hrows : ∀ row ∈ rows, validUuid row.uuid)
    (seen : List (Text × Option Nat)) :
    firstRows (seen.map fun key => (key.1, pidText key.2)) ((newRows seen rows).map s.fieldsOf) =
      (newRows seen rows).map s.fieldsOf := by
  induction rows generalizing seen with
  | nil => rfl
  | cons row rows ih =>
    have hrest := fun seen => ih (fun r hr => hrows r (List.mem_cons_of_mem row hr)) seen
    rw [newRows]
    split
    · exact hrest seen
    · rename_i hnew
      have hkey := rowKey_fieldsOf (s := s) (hrows row List.mem_cons_self)
      have hfresh : repeats (seen.map fun key => (key.1, pidText key.2)) (s.fieldsOf row) = false := by
        rw [repeats, hkey, Option.any_some, decide_eq_false_iff_not, List.mem_map]
        rintro ⟨key, hmem, heq⟩
        obtain ⟨huuid, hpid⟩ := Prod.mk.inj heq
        have hsame : key = (row.uuid, row.pid) := Prod.ext huuid (pidText_inj hpid)
        exact hnew (hsame ▸ hmem)
      rw [List.map_cons, firstRows, if_neg (by rw [hfresh]; exact Bool.false_ne_true), hkey]
      exact congrArg _ (hrest ((row.uuid, row.pid) :: seen))

theorem newRows_subset {seen : List (Text × Option Nat)} {rows : List AppRow} {row : AppRow}
    (h : row ∈ newRows seen rows) : row ∈ rows := by
  induction rows generalizing seen with
  | nil => exact h
  | cons r rows ih =>
    rw [newRows] at h
    split at h
    · exact List.mem_cons_of_mem r (ih h)
    · rcases List.mem_cons.mp h with rfl | h
      · exact List.mem_cons_self
      · exact List.mem_cons_of_mem r (ih h)

/-- Every process is in the printed rows. -/
theorem exists_newRows {seen : List (Text × Option Nat)} {rows : List AppRow} {row : AppRow}
    (h : row ∈ rows) (hnew : (row.uuid, row.pid) ∉ seen) :
    ∃ r ∈ newRows seen rows, r.uuid = row.uuid ∧ r.pid = row.pid := by
  induction rows generalizing seen with
  | nil => cases h
  | cons r rows ih =>
    rw [newRows]
    rcases List.mem_cons.mp h with rfl | hmem
    · rw [if_neg hnew]
      exact ⟨row, List.mem_cons_self, rfl, rfl⟩
    · split
      · exact ih hmem hnew
      · by_cases hsame : (row.uuid, row.pid) = (r.uuid, r.pid)
        · obtain ⟨huuid, hpid⟩ := Prod.mk.inj hsame
          exact ⟨r, List.mem_cons_self, huuid.symm, hpid.symm⟩
        · have hfresh : (row.uuid, row.pid) ∉ (r.uuid, r.pid) :: seen := by
            rw [List.mem_cons, not_or]
            exact ⟨hsame, hnew⟩
          obtain ⟨r', hr', heq⟩ := ih hmem hfresh
          exact ⟨r', List.mem_cons_of_mem r hr', heq⟩

/-- The processes of a card, as the head reads them. -/
theorem processesOn_fields (hvalid : s.Valid) (uuid : Text) :
    processesOn uuid (s.appLines.map fun a => a.fields.map strip) =
      (s.firstRowsOn uuid).map s.fieldsOf := by
  have hall : (s.apps.filter fun row => row.uuid ≠ []) = s.apps := by
    rw [List.filter_eq_self]
    exact fun row hrow => by simpa using (hvalid.apps row hrow).ne_nil
  have hfirst := firstRows_newRows (s := s) hvalid.apps []
  unfold processesOn NodeState.appLines NodeState.firstRowsOn
  rw [hall, List.map_map]
  rw [List.map_nil] at hfirst
  refine (congrArg (List.filter _) hfirst).trans ?_
  rw [List.filter_map]
  refine congrArg _ (List.filter_congr fun row hrow => ?_)
  have huuid := hvalid.apps row (newRows_subset hrow)
  rw [Function.comp_apply, fieldsOf_eq huuid]
  simp

/-- What the head asks of the processes of a card. -/
theorem head_processes (hvalid : s.Valid) (configured : List Text) (uuid : Text) :
    ((processesOn uuid (s.appLines.map fun a => a.fields.map strip)).all
        (isResident (residentProcessNames configured)) = true ↔
      ∀ row ∈ s.rowsOn uuid, s.headResident configured row = true) ∧
    residentMib (processesOn uuid (s.appLines.map fun a => a.fields.map strip)) =
      usedMib (s.firstRowsOn uuid) := by
  have hfirst : ∀ row ∈ s.firstRowsOn uuid, validUuid row.uuid := fun row hrow =>
    hvalid.apps row (newRows_subset (List.mem_filter.mp hrow).1)
  rw [processesOn_fields hvalid]
  refine ⟨?_, ?_⟩
  · rw [List.all_eq_true, List.forall_mem_map]
    constructor
    · intro h row hrow
      obtain ⟨hmem, huuid⟩ := List.mem_filter.mp hrow
      have hfresh : (row.uuid, row.pid) ∉ ([] : List (Text × Option Nat)) := List.not_mem_nil
      obtain ⟨r, hr, hruuid, hrpid⟩ := exists_newRows hmem hfresh
      have hron : r ∈ s.firstRowsOn uuid :=
        List.mem_filter.mpr ⟨hr, by simpa [hruuid] using huuid⟩
      have hres := h r hron
      rw [isResident_fieldsOf configured (hfirst r hron)] at hres
      have hprocess : s.process r = s.process row := by
        unfold NodeState.process
        rw [hrpid]
      unfold NodeState.headResident NodeState.headComm at hres ⊢
      rw [← hprocess]
      exact hres
    · intro h row hrow
      rw [isResident_fieldsOf configured (hfirst row hrow)]
      obtain ⟨hmem, huuid⟩ := List.mem_filter.mp hrow
      exact h row (List.mem_filter.mpr ⟨newRows_subset hmem, huuid⟩)
  · unfold residentMib usedMib
    rw [List.map_map]
    exact congrArg List.sum (List.map_congr_left fun row hrow => rowMib_fieldsOf (hfirst row hrow))

/-- Every card of a valid inventory is read. -/
theorem readGpu_gpuLine {d : Device} (huuid : validUuid d.uuid) (htotal : 0 < d.total)
    (hused : d.used ≤ d.total) (hutil : d.util ≤ 100) :
    ∃ card, readGpu ((s.gpuLine d).fields.map strip) = some card ∧ card.uuid = d.uuid ∧
      card.index = d.index ∧ card.memUsed = d.used ∧ card.leased = s.leased d.index := by
  have hnum : ∀ n, strip (csvField (numText n)) = numText n := fun n =>
    strip_csvField fun c hc => by
      have hrange := toNat_of_isDigit (numText_digits n c hc)
      simp [isSpace]
      omega
  have hfields : (s.gpuLine d).fields.map strip = [strip (numText d.index), strip (csvField d.uuid),
      strip (csvField (numText d.used)), strip (csvField (numText d.total)),
      strip (csvField (numText d.util)), strip (csvField (numText d.temp)),
      strip (s.gpuLine d).leaseBit, strip (s.gpuLine d).owner] := rfl
  have hbit : decide (strip (s.gpuLine d).leaseBit = ['1']) = s.leased d.index := by
    have hleased : (s.gpuLine d).leaseBit = if s.leased d.index then ['1'] else ['0'] := rfl
    rw [hleased]
    cases s.leased d.index with
    | false => decide
    | true => decide
  have hrange : ¬ ((d.index : Int) < 0 ∨ (d.used : Int) < 0 ∨ (d.total : Int) ≤ 0 ∨
      (d.total : Int) < d.used ∨ ¬ (0 ≤ (d.util : Int) ∧ (d.util : Int) ≤ 100) ∨ d.uuid = [] ∨
      256 < d.uuid.length) := by
    have hne := huuid.ne_nil
    have hlen := huuid.2.1
    rintro (h | h | h | h | h | h | h)
    · omega
    · omega
    · omega
    · omega
    · omega
    · exact hne h
    · omega
  rw [hfields, strip_numText, strip_csvField huuid.solid, hnum, hnum, hnum, hnum, readGpu,
    if_neg (by simp)]
  simp only [leaseFields, pyInt_numText, Option.bind_eq_bind, Option.bind_some]
  rw [if_neg hrange]
  exact ⟨_, rfl, rfl, rfl, rfl, hbit⟩

/-- The cards of a valid inventory are read in their order. -/
theorem foldl_addGpu {devices : List Device} (state : List Gpu × Nat)
    (huuid : ∀ d ∈ devices, validUuid d.uuid) (htotal : ∀ d ∈ devices, 0 < d.total)
    (hused : ∀ d ∈ devices, d.used ≤ d.total) (hutil : ∀ d ∈ devices, d.util ≤ 100)
    (hindices : (devices.map Device.index).Nodup) (huuids : (devices.map Device.uuid).Nodup)
    (hi : ∀ d ∈ devices, (d.index : Int) ∉ state.1.map Gpu.index)
    (hu : ∀ d ∈ devices, d.uuid ∉ state.1.map Gpu.uuid) (g : Gpu) :
    g ∈ ((devices.map fun d => (s.gpuLine d).fields.map strip).foldl addGpu state).1 ↔
      g ∈ state.1 ∨ ∃ d ∈ devices, readGpu ((s.gpuLine d).fields.map strip) = some g := by
  induction devices generalizing state with
  | nil => simp
  | cons d devices ih =>
    rw [List.map_cons, List.nodup_cons] at hindices huuids
    obtain ⟨card, hread, hcuuid, hcindex, -, -⟩ := readGpu_gpuLine (s := s)
      (huuid d List.mem_cons_self) (htotal d List.mem_cons_self) (hused d List.mem_cons_self)
      (hutil d List.mem_cons_self)
    have hstep : addGpu state ((s.gpuLine d).fields.map strip) = (state.1 ++ [card], state.2) := by
      unfold addGpu
      rw [hread]
      dsimp only
      refine if_neg ?_
      rw [hcuuid, hcindex]
      exact not_or.mpr ⟨hu d List.mem_cons_self, hi d List.mem_cons_self⟩
    have htail {P : Device → Prop} (h : ∀ e ∈ d :: devices, P e) : ∀ e ∈ devices, P e :=
      fun e he => h e (List.mem_cons_of_mem d he)
    rw [List.map_cons, List.foldl_cons, hstep, ih _ (htail huuid) (htail htotal) (htail hused)
      (htail hutil) hindices.2 huuids.2]
    · rw [List.mem_append, List.mem_singleton, List.exists_mem_cons_iff, hread, or_assoc,
        Option.some.injEq, eq_comm (a := g)]
    · intro e he hin
      rw [List.map_append, List.mem_append, List.map_singleton, List.mem_singleton, hcindex] at hin
      rcases hin with hin | heq
      · exact htail hi e he hin
      · exact hindices.1 (List.mem_map.mpr ⟨e, he, by exact_mod_cast heq⟩)
    · intro e he hin
      rw [List.map_append, List.mem_append, List.map_singleton, List.mem_singleton, hcuuid] at hin
      rcases hin with hin | heq
      · exact htail hu e he hin
      · exact huuids.1 (List.mem_map.mpr ⟨e, he, heq⟩)

/-- The indices of the free cards of an inventory. -/
theorem exists_free_inventory (threshold : Int) (configured : List Text)
    (cards apps : List (List Text)) (j : Int) :
    (∃ g ∈ (inventory threshold configured cards apps).1, g.free = true ∧ g.index = j) ↔
      ∃ card ∈ (cards.foldl addGpu ([], 0)).1, card.index = j ∧
        freeCard threshold (residentProcessNames configured) apps card = true := by
  have hfree : ∀ card ∈ (cards.foldl addGpu ([], 0)).1,
      (Gpu.judge threshold ((processesOn card.uuid apps).foldl
        (Gpu.addRow (residentProcessNames configured)) card)).free =
          freeCard threshold (residentProcessNames configured) apps card := by
    intro card hcard
    rcases mem_addGpus hcard with hnil | ⟨parts, -, hread⟩
    · cases hnil
    · obtain ⟨hprocs, hmib⟩ := readGpu_procs hread
      exact judge_free hprocs hmib
  have hindex : ∀ card : Gpu, (Gpu.judge threshold ((processesOn card.uuid apps).foldl
      (Gpu.addRow (residentProcessNames configured)) card)).index = card.index := fun card =>
    (addRows_numbers (residentProcessNames configured) card (processesOn card.uuid apps)).2.1
  constructor
  · rintro ⟨g, hg, hgfree, rfl⟩
    have hmem := (inventory_cards threshold configured cards apps).mem_iff.mp hg
    obtain ⟨card, hcard, rfl⟩ := List.mem_map.mp hmem
    rw [hfree card hcard] at hgfree
    exact ⟨card, hcard, (hindex card).symm, hgfree⟩
  · rintro ⟨card, hcard, rfl, hgfree⟩
    rw [← hfree card hcard] at hgfree
    exact ⟨_, (inventory_cards threshold configured cards apps).mem_iff.mpr
      (List.mem_map_of_mem hcard), hgfree, hindex card⟩

/-- The head marks the cards that it sees as free. -/
theorem mem_headFree (hvalid : s.Valid) (hread : s.Readable) (configured : List Text)
    (threshold : Nat) (system : Text) (i : Nat) :
    (i : Int) ∈ s.headFree configured threshold system ↔
      ∃ d ∈ s.devices, d.index = i ∧ s.headView configured threshold d := by
  have hcards : ∀ l ∈ s.gpuLines, l.Plain :=
    List.forall_mem_map.mpr fun d hd => gpuLine_plain hread (hvalid.uuid d hd)
  have happs : ∀ l ∈ s.appLines, l.Plain :=
    List.forall_mem_map.mpr fun row hrow => appLine_plain hread
      (hvalid.apps row (List.mem_of_mem_filter (newRows_subset hrow)))
  have hmem : (i : Int) ∈ s.headFree configured threshold system ↔
      ∃ g ∈ (inventory threshold configured (s.gpuLines.map fun l => l.fields.map strip)
        (s.appLines.map fun l => l.fields.map strip)).1, g.free = true ∧ g.index = i := by
    unfold NodeState.headFree probeText
    rw [parse_sections hcards happs, List.mem_map]
    refine exists_congr fun g => ?_
    rw [List.mem_filter, and_assoc]
  have hdevices := foldl_addGpu (s := s) ([], 0) hvalid.uuid hvalid.total hvalid.used hvalid.util
    hvalid.indices hvalid.uuids (fun _ _ h => nomatch h) (fun _ _ h => nomatch h)
  have hrows : (s.gpuLines.map fun l => l.fields.map strip) =
      s.devices.map fun d => (s.gpuLine d).fields.map strip := by
    rw [NodeState.gpuLines, List.map_map]
    rfl
  rw [hmem, exists_free_inventory, hrows]
  -- what is asked of the card that is read for a device
  have hview : ∀ d ∈ s.devices, ∀ card, readGpu ((s.gpuLine d).fields.map strip) = some card →
      card.index = d.index ∧
        (freeCard threshold (residentProcessNames configured)
          (s.appLines.map fun l => l.fields.map strip) card = true ↔
            s.headView configured threshold d) := by
    intro d hd card hcard
    obtain ⟨card', hcard', huuid, hindex, hmem', hleased⟩ := readGpu_gpuLine (s := s)
      (hvalid.uuid d hd) (hvalid.total d hd) (hvalid.used d hd) (hvalid.util d hd)
    obtain rfl : card' = card := Option.some.inj (hcard'.symm.trans hcard)
    obtain ⟨hres, hmib⟩ := head_processes hvalid configured d.uuid
    refine ⟨hindex, ?_⟩
    unfold freeCard NodeState.headView
    rw [Bool.and_eq_true, Bool.and_eq_true, huuid, hres, hmib, hmem', hleased, decide_eq_true_eq,
      Bool.not_eq_true', and_assoc]
    refine and_congr_right fun _ => and_congr_left fun _ => ?_
    omega
  constructor
  · rintro ⟨card, hcard, hindex, hfree⟩
    rcases (hdevices card).mp hcard with hnil | ⟨d, hd, hreads⟩
    · cases hnil
    · obtain ⟨hidx, hfree'⟩ := hview d hd card hreads
      exact ⟨d, hd, by exact_mod_cast hidx.symm.trans hindex, hfree'.mp hfree⟩
  · rintro ⟨d, hd, rfl, hfree⟩
    obtain ⟨card, hreads, -⟩ := readGpu_gpuLine (s := s) (hvalid.uuid d hd) (hvalid.total d hd)
      (hvalid.used d hd) (hvalid.util d hd)
    obtain ⟨hidx, hfree'⟩ := hview d hd card hreads
    exact ⟨card, (hdevices card).mpr (.inr ⟨d, hd, hreads⟩), hidx, hfree'.mpr hfree⟩

end

/-! ## Agreement -/

/-- The node with other figures for the memory of its cards. -/
def NodeState.withMemory (s : NodeState) (mem : Nat → Nat × Nat) : NodeState :=
  { s with devices := s.devices.map fun d =>
      { d with used := (mem d.index).1, total := (mem d.index).2 } }

/-- The head and the launcher have the same free cards. -/
def NodeState.Agree (s : NodeState) (configured : List Text) (threshold : Nat) (system : Text) :
    Prop :=
  ∃ out, s.freeGpuIndices configured threshold = some out ∧
    ∀ i : Nat, (i : Int) ∈ s.headFree configured threshold system ↔ i ∈ out

section

variable {s : NodeState} {configured : List Text}

theorem agree_iff_views (hvalid : s.Valid) (hread : s.Readable) (threshold : Nat) (system : Text) :
    s.Agree configured threshold system ↔ ∀ d ∈ s.devices,
      (s.headView configured threshold d ↔ s.launcherView configured threshold d) := by
  obtain ⟨out, hout, hmem⟩ : ∃ out, s.freeGpuIndices configured threshold = some out ∧ ∀ i,
      i ∈ out ↔ ∃ d ∈ s.devices, d.index = i ∧ s.launcherView configured threshold d :=
    freeGpuIndices_eq hvalid
  have hunique : ∀ d ∈ s.devices, ∀ e ∈ s.devices, e.index = d.index → e = d :=
    fun d hd e he heq => List.inj_on_of_nodup_map hvalid.indices he hd heq
  constructor
  · rintro ⟨out', hout', hagree⟩ d hd
    obtain rfl : out' = out := Option.some.inj (hout'.symm.trans hout)
    have hd' := (hagree d.index).trans (hmem d.index)
    rw [mem_headFree hvalid hread] at hd'
    constructor
    · intro hhead
      obtain ⟨e, he, heq, hview⟩ := hd'.mp ⟨d, hd, rfl, hhead⟩
      exact hunique d hd e he heq ▸ hview
    · intro hlaunch
      obtain ⟨e, he, heq, hview⟩ := hd'.mpr ⟨d, hd, rfl, hlaunch⟩
      exact hunique d hd e he heq ▸ hview
  · intro h
    refine ⟨out, hout, fun i => ?_⟩
    rw [mem_headFree hvalid hread, hmem]
    exact exists_congr fun d => and_congr_right fun hd => and_congr_right fun _ => h d hd

theorem leaseAvailable_iff (s : NodeState) (idx : Nat) :
    s.leaseAvailable idx = true ↔ s.leased idx = false ∧ s.lock idx ≠ .shared := by
  unfold NodeState.leaseAvailable NodeState.leased
  cases s.lock idx with
  | absent => simp
  | unlocked => simp
  | shared => simp
  | exclusive => simp

/-- One card: the views agree for every memory in use and every threshold. -/
theorem views_agree_iff (d : Device) :
    (∀ used total threshold : Nat, used ≤ total → 0 < total →
      (s.headView configured threshold { d with used, total } ↔
        s.launcherView configured threshold { d with used, total })) ↔ s.SameView configured d := by
  simp only [NodeState.headView, NodeState.launcherView, leaseAvailable_iff]
  unfold NodeState.SameView
  constructor
  · intro h hleased
    have hsame : (∀ row ∈ s.rowsOn d.uuid, s.headResident configured row = true) ↔
        (∀ row ∈ s.rowsOn d.uuid, s.launcherResident configured row = true) ∧
          s.lock d.index ≠ .shared := by
      have hidle := h 0 1 1 (by omega) (by omega)
      simpa [hleased] using hidle
    refine ⟨hsame, fun hres => ?_⟩
    obtain ⟨hlaunch, hshared⟩ := hsame.mp hres
    -- the larger of the two figures in use, and their difference as the threshold
    by_contra hne
    rcases Nat.lt_or_gt_of_ne hne with hlt | hlt
    · have hfull := h (usedMib (s.rowsOn d.uuid)) (usedMib (s.rowsOn d.uuid))
        (usedMib (s.rowsOn d.uuid) - usedMib (s.firstRowsOn d.uuid)) le_rfl (by omega)
      have hfree := (hfull.mpr ⟨hlaunch, by omega, hleased, hshared⟩).2.1
      omega
    · have hfull := h (usedMib (s.firstRowsOn d.uuid)) (usedMib (s.firstRowsOn d.uuid))
        (usedMib (s.firstRowsOn d.uuid) - usedMib (s.rowsOn d.uuid)) le_rfl (by omega)
      have hfree := (hfull.mp ⟨hres, by omega, hleased⟩).2.1
      omega
  · intro h used total threshold _ _
    constructor
    · rintro ⟨hres, hmem, hleased⟩
      obtain ⟨hsame, hsum⟩ := h hleased
      obtain ⟨hlaunch, hshared⟩ := hsame.mp hres
      rw [hsum hres] at hmem
      exact ⟨hlaunch, hmem, hleased, hshared⟩
    · rintro ⟨hlaunch, hmem, hleased, hshared⟩
      obtain ⟨hsame, hsum⟩ := h hleased
      have hres := hsame.mpr ⟨hlaunch, hshared⟩
      rw [← hsum hres] at hmem
      exact ⟨hres, hmem, hleased⟩

theorem NodeState.Valid.withMemory (hvalid : s.Valid) {mem : Nat → Nat × Nat}
    (hmem : ∀ i, (mem i).1 ≤ (mem i).2 ∧ 0 < (mem i).2) : (s.withMemory mem).Valid where
  uuid := List.forall_mem_map.mpr hvalid.uuid
  total := List.forall_mem_map.mpr fun d _ => (hmem d.index).2
  used := List.forall_mem_map.mpr fun d _ => (hmem d.index).1
  util := List.forall_mem_map.mpr hvalid.util
  indices := by
    unfold NodeState.withMemory
    rw [List.map_map]
    exact hvalid.indices
  uuids := by
    unfold NodeState.withMemory
    rw [List.map_map]
    exact hvalid.uuids
  apps := hvalid.apps

theorem NodeState.Readable.withMemory (hread : s.Readable) (mem : Nat → Nat × Nat) :
    (s.withMemory mem).Readable := ⟨hread.owner, hread.user, hread.name⟩

/-- On a node whose texts are readable, the head and the launcher have the same free cards for every
memory in use and every threshold exactly when they have the same view of each card. -/
theorem agree_iff_sameView (hvalid : s.Valid) (hread : s.Readable) (system : Text) :
    (∀ (mem : Nat → Nat × Nat) (threshold : Nat), (∀ i, (mem i).1 ≤ (mem i).2 ∧ 0 < (mem i).2) →
      (s.withMemory mem).Agree configured threshold system) ↔
      ∀ d ∈ s.devices, s.SameView configured d := by
  have hviews : ∀ (mem : Nat → Nat × Nat) (threshold : Nat),
      (∀ i, (mem i).1 ≤ (mem i).2 ∧ 0 < (mem i).2) →
      ((s.withMemory mem).Agree configured threshold system ↔ ∀ d ∈ s.devices,
        (s.headView configured threshold
            { d with used := (mem d.index).1, total := (mem d.index).2 } ↔
          s.launcherView configured threshold
            { d with used := (mem d.index).1, total := (mem d.index).2 })) := by
    intro mem threshold hmem
    rw [agree_iff_views (hvalid.withMemory hmem) (hread.withMemory mem)]
    exact List.forall_mem_map
  constructor
  · intro h d hd
    rw [← views_agree_iff]
    intro used total threshold hle hpos
    exact (hviews (fun _ => (used, total)) threshold fun _ => ⟨hle, hpos⟩).mp
      (h (fun _ => (used, total)) threshold fun _ => ⟨hle, hpos⟩) d hd
  · intro h mem threshold hmem
    rw [hviews mem threshold hmem]
    exact fun d hd => (views_agree_iff d).mpr (h d hd) _ _ threshold (hmem d.index).1
      (hmem d.index).2

end

/-- `_GPU_RESIDENT_PROCESS_RE` -/
def validResident (name : Text) : Bool :=
  match name with
  | c :: cs => isAlnum c &&
      classRun (fun c => isAlnum c || c = '.' || c = '_' || c = '+' || c = '-') 0 63 cs
  | [] => false

/-- A card with a process whose name has a blank. -/
def blankNode : NodeState where
  devices := [⟨0, "GPU-a".toList, 100, 900, 0, 30⟩]
  apps := [⟨"GPU-a".toList, some 7, some 100⟩]
  processes := [⟨7, "u".toList, "foo bar".toList⟩]
  lock := fun _ => .absent
  flock := true
  owner := fun _ => []

theorem blankNode_valid : blankNode.Valid where
  uuid d hd := by
    rw [List.mem_singleton.mp hd]
    exact ⟨by decide, by decide, by decide⟩
  total d hd := by
    rw [List.mem_singleton.mp hd]
    decide
  used d hd := by
    rw [List.mem_singleton.mp hd]
    decide
  util d hd := by
    rw [List.mem_singleton.mp hd]
    decide
  indices := List.nodup_singleton _
  uuids := List.nodup_singleton _
  apps row hrow := by
    rw [List.mem_singleton.mp hrow]
    exact ⟨by decide, by decide, by decide⟩

theorem blankNode_readable : blankNode.Readable where
  owner _ := ⟨(by decide : IsLine []), (by decide : ¬ sep <:+: [])⟩
  user p hp := by
    rw [List.mem_singleton.mp hp]
    exact ⟨by decide, by decide, by decide⟩
  name p hp := by
    rw [List.mem_singleton.mp hp]
    exact ⟨by decide +kernel, by decide +kernel, by decide +kernel⟩

/-- Without configured names the head and the launcher agree about the card. -/
theorem agree_blankNode : (blankNode.withMemory fun _ => (100, 900)).Agree [] 500 [] := by
  refine (agree_iff_sameView blankNode_valid blankNode_readable []).mpr (fun d hd => ?_) _ _
    fun _ => ⟨by decide, by decide⟩
  rw [List.mem_singleton.mp hd]
  unfold NodeState.SameView
  decide +kernel

/-- The head reads `foo bar` as the resident process `foo_bar`, the launcher does not. -/
theorem blank_in_name_disagrees :
    ¬ ∀ (s : NodeState) (configured : List Text) (threshold : Nat) (system : Text), s.Valid →
        s.Readable → (∀ name ∈ configured, validResident name = true) →
        s.Agree configured threshold system := by
  intro h
  obtain ⟨out, hout, hagree⟩ := h blankNode ["foo_bar".toList] 500 [] blankNode_valid
    blankNode_readable (by decide)
  have hlaunch : blankNode.freeGpuIndices ["foo_bar".toList] 500 = some [] := by decide +kernel
  have hhead : (0 : Int) ∈ blankNode.headFree ["foo_bar".toList] 500 [] := by decide +kernel
  have hmem := (hagree 0).mp hhead
  rw [Option.some.inj (hout.symm.trans hlaunch)] at hmem
  cases hmem

end Dt.Probe
