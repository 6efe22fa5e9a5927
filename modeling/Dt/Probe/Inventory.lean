import Mathlib
import Dt.Lib.Lines

/-!
# The GPU inventory of a probe

A probe prints the cards of a node, a separator, the compute processes on them, a second separator,
and the load of the node. `parseProbeInventory` reads the cards and the processes from that text:
it looks for the separators anywhere, splits the two parts into lines, and the lines into fields.
A card is free when no process but the resident ones is on it, when the memory that they do not
account for is below a threshold, and when it is not leased.
-/

namespace Dt.Probe

open Dt.Lib

abbrev Text := List Char

/-! ## Reading the text -/

/-- `text.partition(sep)`: what stands before the separator and after it. -/
def partition (sep : Text) : Text → Text × Text
  | [] => ([], [])
  | c :: cs =>
    if sep.isPrefixOf (c :: cs) then ([], (c :: cs).drop sep.length)
    else (c :: (partition sep cs).1, (partition sep cs).2)

/-- `s.split(sep, n)`; `cur` is the piece being read. -/
def splitMaxAux (sep : Char) : Nat → Text → Text → List Text
  | _, [], cur => [cur.reverse]
  | 0, cs, cur => [cur.reverse ++ cs]
  | n + 1, c :: cs, cur =>
    if c = sep then cur.reverse :: splitMaxAux sep n cs []
    else splitMaxAux sep (n + 1) cs (c :: cur)

def splitMax (sep : Char) (n : Nat) (s : Text) : List Text := splitMaxAux sep n s []

def sep : Text := "---DT---".toList
def sysSep : Text := "---DT-SYS---".toList

def gpuPart (text : Text) : Text := (partition sep text).1
def appPart (text : Text) : Text := (partition sysSep (partition sep text).2).1

def gpuFields (line : Text) : List Text := (splitMax ',' 7 line).map strip
def appFields (line : Text) : List Text := (splitOn ',' line).map strip

def gpuRows (text : Text) : List (List Text) := (splitlines (strip (gpuPart text))).map gpuFields
def appRows (text : Text) : List (List Text) := (splitlines (strip (appPart text))).map appFields

/-! ## The cards -/

/-- `Gpu` -/
structure Gpu where
  index : Int
  uuid : Text
  memUsed : Int
  memTotal : Int
  util : Int
  leased : Bool
  leaseOwner : Option Text
  temperature : Option Int
  procs : Nat := 0
  free : Bool := false
  users : List Text := []
  residentProcs : Nat := 0
  residentMib : Nat := 0
  residents : List Text := []
  deriving DecidableEq

/-- `_LEASE_OWNER_RE` -/
def validLeaseOwner (owner : Text) : Bool :=
  classRun (fun c => isAlnum c || c = '_' || c = '.' || c = ':' || c = '@' || c = '+' || c = '-')
    1 128 owner

/-- The temperature, the lease bit and the owner of the optional fields. -/
def leaseFields (optional : List Text) : Option Int × Bool × Option Text :=
  match optional with
  | [temperature, leased] => (pyInt temperature, leased = ['1'], none)
  | [temperature, leased, owner] =>
    (pyInt temperature, leased = ['1'], if leased = ['1'] ∧ owner ≠ [] then some owner else none)
  | [one] => if one = ['0'] ∨ one = ['1'] then (none, one = ['1'], none) else (pyInt one, false, none)
  | _ => (none, false, none)

/-- One card; none when the row is malformed. -/
def readGpu : List Text → Option Gpu
  | idx :: uuid :: used :: total :: util :: optional =>
    if 3 < optional.length then none
    else do
      let (temperature, leased, owner) := leaseFields optional
      let index ← pyInt idx
      let memUsed ← pyInt used
      let memTotal ← pyInt total
      let utilization ← pyInt util
      if index < 0 ∨ memUsed < 0 ∨ memTotal ≤ 0 ∨ memTotal < memUsed ∨
          ¬ (0 ≤ utilization ∧ utilization ≤ 100) ∨ uuid = [] ∨ 256 < uuid.length then none
      else some {
        index, uuid, memUsed, memTotal, leased
        util := utilization
        leaseOwner := owner.filter validLeaseOwner
        temperature := temperature.filter fun t => -100 ≤ t ∧ t ≤ 1000 }
  | _ => none

/-- The cards read so far, and how many rows were malformed. -/
def addGpu (state : List Gpu × Nat) (parts : List Text) : List Gpu × Nat :=
  match readGpu parts with
  | none => (state.1, state.2 + 1)
  | some gpu =>
    if gpu.uuid ∈ state.1.map Gpu.uuid ∨ gpu.index ∈ state.1.map Gpu.index then
      (state.1, state.2 + 1)
    else (state.1 ++ [gpu], state.2)

/-! ## The processes -/

def commMaxLen : Nat := 15

def builtinResidents : List Text :=
  ["nvidia-cuda-mps-server".toList, "nvidia-cuda-mps-control".toList]

/-- `resident_process_names` -/
def residentProcessNames (configured : List Text) : List Text :=
  (configured ++ builtinResidents) ++ (configured ++ builtinResidents).map (·.take commMaxLen)

/-- `_PROCESS_USER_RE` -/
def validUser (user : Text) : Bool :=
  classRun (fun c => isAlnum c || c = '_' || c = '.' || c = '@' || c = '+' || c = '-') 1 128 user

def addNew (texts : List Text) (t : Text) : List Text := if t ∈ texts then texts else texts ++ [t]

/-- A row that is too short still shows a process. -/
def Gpu.addUnknown (g : Gpu) : Gpu :=
  { g with procs := g.procs + 1, users := addNew g.users ['?'] }

/-- The name of a process, in a row of its card. -/
def rowComm (parts : List Text) : Text := parts.getD 3 []

/-- `used_text.isdigit()` of the memory field. -/
def rowMib (parts : List Text) : Nat :=
  let used := parts.getD 4 []
  if used ≠ [] ∧ used.all isDigit then ((pyInt used).getD 0).toNat else 0

/-- The row shows a process that may live on a card. -/
def isResident (names : List Text) (parts : List Text) : Bool :=
  rowComm parts ≠ [] && rowComm parts ∈ names

def Gpu.addProcess (names : List Text) (parts : List Text) (g : Gpu) : Gpu :=
  if isResident names parts then
    { g with
      residentProcs := g.residentProcs + 1
      residentMib := g.residentMib + rowMib parts
      residents := addNew g.residents (rowComm parts) }
  else
    let candidate := if parts.getD 2 [] ≠ [] then parts.getD 2 [] else ['?']
    { g with
      procs := g.procs + 1
      users := addNew g.users (if candidate = ['?'] ∨ validUser candidate then candidate else ['?']) }

def updateGpu (uuid : Text) (f : Gpu → Gpu) (gpus : List Gpu) : List Gpu :=
  gpus.map fun g => if g.uuid = uuid then f g else g

/-- The cards, and the processes that were counted, after one row. -/
def addApp (names : List Text) (state : List Gpu × List (Text × Text)) (parts : List Text) :
    List Gpu × List (Text × Text) :=
  match parts with
  | [] => state
  | [uuid] => (updateGpu uuid Gpu.addUnknown state.1, state.2)
  | uuid :: pid :: _ =>
    if uuid ∉ state.1.map Gpu.uuid then state
    else if pid ≠ [] ∧ (uuid, pid) ∈ state.2 then state
    else (updateGpu uuid (Gpu.addProcess names parts) state.1,
      if pid ≠ [] then (uuid, pid) :: state.2 else state.2)

/-- The last judgement about a card. -/
def Gpu.judge (threshold : Int) (g : Gpu) : Gpu :=
  { g with
    free := g.procs = 0 && max 0 (g.memUsed - g.residentMib) < threshold && !g.leased
    users := if g.leased then addNew g.users "dt-lease".toList else g.users }

/-- What some rows say. -/
def inventory (threshold : Int) (configured : List Text) (cards apps : List (List Text)) :
    List Gpu × Option String :=
  let read := cards.foldl addGpu ([], 0)
  let occupied := (apps.foldl (addApp (residentProcessNames configured)) (read.1, [])).1
  let noun := if read.2 = 1 then "row" else "rows"
  ((occupied.insertionSort fun a b => a.index ≤ b.index).map (Gpu.judge threshold),
    if read.2 = 0 then none
    else some s!"GPU inventory incomplete: {read.2} malformed {noun} not schedulable")

/-- `_parse_probe_inventory` -/
def parseProbeInventory (text : Text) (threshold : Int) (configured : List Text) :
    List Gpu × Option String :=
  inventory threshold configured (gpuRows text) (appRows text)

/-! ## Spaces at the ends -/

theorem strip_eq (s : Text) : strip s = rstrip (s.dropWhile isSpace) := rfl

theorem rstrip_append_spaces {s : Text} (hs : ∀ c ∈ s, isSpace c = true) (x : Text) :
    rstrip (x ++ s) = rstrip x := by
  rw [rstrip_append, if_pos (rstrip_eq_nil.mpr hs)]

theorem strip_append_spaces {s : Text} (hs : ∀ c ∈ s, isSpace c = true) (x : Text) :
    strip (x ++ s) = strip x := by
  rw [strip_eq, strip_eq, List.dropWhile_append]
  split
  · rename_i hx
    rw [List.isEmpty_iff.mp hx, List.dropWhile_eq_nil_iff.mpr hs]
  · exact rstrip_append_spaces hs _

/-- A text and the spaces at its end. -/
theorem rstrip_spaces (l : Text) : ∃ s, l = rstrip l ++ s ∧ ∀ c ∈ s, isSpace c = true := by
  refine ⟨(l.reverse.takeWhile isSpace).reverse, ?_, fun c hc => ?_⟩
  · rw [rstrip, ← List.reverse_append, List.takeWhile_append_dropWhile, List.reverse_reverse]
  · exact List.mem_takeWhile_imp (List.mem_reverse.mp hc)

theorem splitMaxAux_spaces {s : Text} (hs : ∀ c ∈ s, isSpace c = true) {sep : Char}
    (hsep : isSpace sep = false) (p : Text) (n : Nat) (cur : Text) :
    (splitMaxAux sep n (p ++ s) cur).map strip = (splitMaxAux sep n p cur).map strip := by
  induction p generalizing n cur with
  | nil =>
    induction s generalizing n cur with
    | nil => rfl
    | cons c s ih =>
      have hc : c ≠ sep := by
        rintro rfl
        rw [hs c List.mem_cons_self] at hsep
        cases hsep
      cases n with
      | zero => simp [splitMaxAux, strip_append_spaces hs]
      | succ n =>
        have hrest := ih (fun d hd => hs d (List.mem_cons_of_mem c hd)) (n + 1) (c :: cur)
        have hone : ∀ d ∈ [c], isSpace d = true := by
          simpa using hs c List.mem_cons_self
        have hstep : splitMaxAux sep (n + 1) (c :: s) cur = splitMaxAux sep (n + 1) s (c :: cur) := by
          rw [splitMaxAux, if_neg hc]
        rw [List.nil_append] at hrest ⊢
        rw [hstep, hrest]
        simp [splitMaxAux, strip_append_spaces hone]
  | cons c p ih =>
    cases n with
    | zero =>
      have happ := strip_append_spaces hs (cur.reverse ++ c :: p)
      rw [List.append_assoc, List.cons_append] at happ
      simp [splitMaxAux, happ]
    | succ n =>
      rw [List.cons_append, splitMaxAux, splitMaxAux]
      split
      · rw [List.map_cons, List.map_cons, ih]
      · exact ih _ _

theorem splitOnAux_spaces {s : Text} (hs : ∀ c ∈ s, isSpace c = true) {sep : Char}
    (hsep : isSpace sep = false) (p : Text) (cur : Text) :
    (splitOnAux sep (p ++ s) cur).map strip = (splitOnAux sep p cur).map strip := by
  induction p generalizing cur with
  | nil =>
    have hnot : sep ∉ s := by
      intro hmem
      rw [hs sep hmem] at hsep
      cases hsep
    have happ := splitOnAux_append hnot [] cur
    rw [List.append_nil] at happ
    rw [List.nil_append, happ]
    simp [splitOnAux, strip_append_spaces hs]
  | cons c p ih =>
    rw [List.cons_append, splitOnAux, splitOnAux]
    split
    · rw [List.map_cons, List.map_cons, ih]
    · exact ih _

theorem gpuFields_rstrip (l : Text) : gpuFields (rstrip l) = gpuFields l := by
  obtain ⟨s, hl, hs⟩ := rstrip_spaces l
  have hfields := splitMaxAux_spaces hs (by decide : isSpace ',' = false) (rstrip l) 7 []
  rw [← hl] at hfields
  exact hfields.symm

theorem appFields_rstrip (l : Text) : appFields (rstrip l) = appFields l := by
  obtain ⟨s, hl, hs⟩ := rstrip_spaces l
  have hfields := splitOnAux_spaces hs (by decide : isSpace ',' = false) (rstrip l) []
  rw [← hl] at hfields
  exact hfields.symm

/-! ## The lines of a section -/

/-- A printed row: a line that does not start with a space. -/
structure IsRow (l : Text) : Prop where
  line : IsLine l
  head : ∃ c cs, l = c :: cs ∧ isSpace c = false

theorem IsRow.rstrip_ne {l : Text} (h : IsRow l) : rstrip l ≠ [] := by
  obtain ⟨c, cs, rfl, hc⟩ := h.head
  intro hnil
  have := rstrip_eq_nil.mp hnil c List.mem_cons_self
  rw [hc] at this
  cases this

theorem map_trimLines {f : Text → List Text} (hf : ∀ l, f (rstrip l) = f l) {ls : List Text}
    (h : ∀ l ∈ ls, IsRow l) : (trimLines ls).map f = ls.map f := by
  induction ls with
  | nil => rfl
  | cons l ls ih =>
    have hrest := ih fun m hm => h m (List.mem_cons_of_mem _ hm)
    rw [trimLines]
    split
    · rename_i hnil
      rw [if_neg (h l List.mem_cons_self).rstrip_ne]
      rw [hnil] at hrest
      rw [List.map_cons, List.map_cons, hf, ← hrest]
    · rw [List.map_cons, List.map_cons, hrest]

/-- The rows of a section are read from its lines. -/
theorem rows_of_section {f : Text → List Text} (hf : ∀ l, f (rstrip l) = f l) {ls : List Text}
    (h : ∀ l ∈ ls, IsRow l) : (splitlines (strip (unlines ls))).map f = ls.map f := by
  have hstrip : strip (unlines ls) = rstrip (unlines ls) := by
    cases ls with
    | nil => rfl
    | cons l ls =>
      obtain ⟨c, cs, rfl, hc⟩ := (h l List.mem_cons_self).head
      exact strip_of_head hc _
  rw [hstrip, splitlines_rstrip, splitlines_unlines fun l hl => (h l hl).line, map_trimLines hf h]

/-! ## The fields of a row -/

theorem splitMaxAux_append {sep : Char} {a : Text} (ha : sep ∉ a) (n : Nat) (s cur : Text) :
    splitMaxAux sep (n + 1) (a ++ sep :: s) cur = (cur.reverse ++ a) :: splitMaxAux sep n s [] := by
  induction a generalizing cur with
  | nil => simp [splitMaxAux]
  | cons c a ih =>
    simp only [List.mem_cons, not_or] at ha
    rw [List.cons_append, splitMaxAux, if_neg (Ne.symm ha.1), ih ha.2]
    simp

/-- The last piece takes the rest of the text. -/
theorem splitMax_joinWith {sep : Char} {fields : List Text} {last : Text}
    (h : ∀ f ∈ fields, sep ∉ f) :
    splitMax sep fields.length (joinWith [sep] (fields ++ [last])) = fields ++ [last] := by
  unfold splitMax
  induction fields with
  | nil =>
    cases last with
    | nil => rfl
    | cons c cs => rfl
  | cons f fields ih =>
    have hjoin : joinWith [sep] (f :: fields ++ [last]) =
        f ++ sep :: joinWith [sep] (fields ++ [last]) := by
      cases fields with
      | nil => simp [joinWith]
      | cons g gs => simp [joinWith]
    rw [hjoin, List.length_cons, splitMaxAux_append (h f List.mem_cons_self),
      ih fun g hg => h g (List.mem_cons_of_mem _ hg)]
    rfl

theorem splitOn_joinWith {sep : Char} {fields : List Text} (h : ∀ f ∈ fields, sep ∉ f)
    (hne : fields ≠ []) : splitOn sep (joinWith [sep] fields) = fields := by
  induction fields with
  | nil => exact absurd rfl hne
  | cons f fields ih =>
    cases fields with
    | nil => exact splitOn_of_notMem (h f List.mem_cons_self)
    | cons g gs =>
      have hjoin : joinWith [sep] (f :: g :: gs) = f ++ sep :: joinWith [sep] (g :: gs) := by
        simp [joinWith]
      rw [hjoin, splitOn_append (h f List.mem_cons_self),
        ih (fun k hk => h k (List.mem_cons_of_mem _ hk)) (List.cons_ne_nil _ _)]

/-! ## The separators -/

theorem partition_line {sep : Text} (hnl : '\n' ∉ sep) {l : Text} (hl : ¬ sep <:+: l) (rest : Text) :
    partition sep (l ++ '\n' :: rest) =
      (l ++ '\n' :: (partition sep rest).1, (partition sep rest).2) := by
  induction l with
  | nil =>
    have hnot : sep.isPrefixOf ('\n' :: rest) = false := by
      rw [Bool.eq_false_iff, ne_eq, List.isPrefixOf_iff_prefix]
      intro hp
      cases sep with
      | nil => exact hl (List.nil_infix)
      | cons c cs =>
        obtain rfl := (List.cons_prefix_cons.mp hp).1
        exact hnl List.mem_cons_self
    rw [List.nil_append, partition, hnot]
    rfl
  | cons c l ih =>
    have hnot : sep.isPrefixOf (c :: (l ++ '\n' :: rest)) = false := by
      rw [Bool.eq_false_iff, ne_eq, List.isPrefixOf_iff_prefix]
      intro hp
      by_cases hlen : sep.length ≤ (c :: l).length
      · exact hl (List.prefix_of_prefix_length_le hp (List.prefix_append (c :: l) ('\n' :: rest))
          hlen).isInfix
      · have hline : c :: l ++ ['\n'] <+: c :: (l ++ '\n' :: rest) := ⟨rest, by simp⟩
        have hshort : (c :: l ++ ['\n']).length ≤ sep.length := by
          simp only [List.length_append, List.length_singleton]
          omega
        exact hnl ((List.prefix_of_prefix_length_le hline hp hshort).subset (by simp))
    rw [List.cons_append, partition, hnot, ih fun h => hl (h.trans (List.suffix_cons c l).isInfix)]
    rfl

/-- A separator on a line of its own ends the section before it. -/
theorem partition_section {sep : Text} (hnl : '\n' ∉ sep) (hne : sep ≠ []) {ls : List Text}
    (h : ∀ l ∈ ls, ¬ sep <:+: l) (rest : Text) :
    partition sep (unlines ls ++ (sep ++ rest)) = (unlines ls, rest) := by
  induction ls with
  | nil =>
    obtain ⟨c, cs, rfl⟩ := List.exists_cons_of_ne_nil hne
    have hp : (c :: cs).isPrefixOf (c :: (cs ++ rest)) = true :=
      List.isPrefixOf_iff_prefix.mpr (List.prefix_append (c :: cs) rest)
    rw [show unlines [] ++ (c :: cs ++ rest) = c :: (cs ++ rest) from rfl, partition, if_pos hp]
    simp [unlines]
  | cons l ls ih =>
    have hcons : unlines (l :: ls) ++ (sep ++ rest) = l ++ '\n' :: (unlines ls ++ (sep ++ rest)) := by
      simp [unlines]
    rw [hcons, partition_line hnl (h l List.mem_cons_self),
      ih fun m hm => h m (List.mem_cons_of_mem l hm)]
    simp [unlines]

/-! ## What the node prints -/

/-- One row of `probe_gpu.sh`: the fields of `nvidia-smi`, the lease bit and the first line of the
lease file. -/
structure GpuLine where
  idx : Text
  uuid : Text
  used : Text
  total : Text
  util : Text
  temp : Text
  leased : Bool
  owner : Text

def GpuLine.leaseBit (l : GpuLine) : Text := if l.leased then ['1'] else ['0']

def GpuLine.fields (l : GpuLine) : List Text :=
  [l.idx, l.uuid, l.used, l.total, l.util, l.temp, l.leaseBit] ++ [l.owner]

def GpuLine.text (l : GpuLine) : Text := joinWith [','] l.fields

/-- One row of `probe_apps.sh`. -/
structure AppLine where
  uuid : Text
  pid : Text
  user : Text
  comm : Text
  used : Text

def AppLine.fields (l : AppLine) : List Text := [l.uuid, l.pid, l.user, l.comm, l.used]

def AppLine.text (l : AppLine) : Text := joinWith [','] l.fields

/-- The output up to the second separator. -/
def sections (cards : List GpuLine) (apps : List AppLine) : Text :=
  unlines (cards.map GpuLine.text) ++ (sep ++ '\n' :: (unlines (apps.map AppLine.text) ++ sysSep))

/-- The output of `PROBE_CMD`. -/
def probeText (cards : List GpuLine) (apps : List AppLine) (system : Text) : Text :=
  sections cards apps ++ '\n' :: system

/-- A field without a comma, a line end or a separator. -/
structure PlainField (mark f : Text) : Prop where
  comma : ',' ∉ f
  line : IsLine f
  mark : ¬ mark <:+: f

/-- A text without spaces. -/
def Solid (f : Text) : Prop := ∀ c ∈ f, isSpace c = false

instance (f : Text) : Decidable (Solid f) := List.decidableBAll _ f

structure GpuLine.Plain (l : GpuLine) : Prop where
  idx : Solid l.idx
  fields : ∀ f ∈ [l.idx, l.uuid, l.used, l.total, l.util, l.temp], PlainField sep f
  ownerLine : IsLine l.owner
  ownerMark : ¬ sep <:+: l.owner

structure AppLine.Plain (l : AppLine) : Prop where
  uuid : Solid l.uuid
  fields : ∀ f ∈ l.fields, PlainField sysSep f

/-- A mark without a comma is in one of the joined fields, or nowhere. -/
theorem not_infix_joinWith {mark : Text} (hcomma : ',' ∉ mark) (hne : mark ≠ []) {fields : List Text}
    (h : ∀ f ∈ fields, ¬ mark <:+: f) : ¬ mark <:+: joinWith [','] fields := by
  induction fields with
  | nil => simpa [joinWith] using hne
  | cons f fields ih =>
    cases fields with
    | nil => exact h f List.mem_cons_self
    | cons g gs =>
      intro hin
      have hjoin : joinWith [','] (f :: g :: gs) = f ++ ',' :: joinWith [','] (g :: gs) := by
        simp [joinWith]
      rw [hjoin] at hin
      -- a prefix of the mark that starts with the comma is empty
      have hempty : ∀ m, m <:+: mark → m <+: ',' :: joinWith [','] (g :: gs) → m = [] := by
        intro m hmark hm
        cases m with
        | nil => rfl
        | cons c cs =>
          obtain rfl := (List.cons_prefix_cons.mp hm).1
          exact absurd (hmark.subset List.mem_cons_self) hcomma
      rcases List.infix_append_iff.mp hin with hf | hrest | ⟨m, m', rfl, hm, hm'⟩
      · exact h f List.mem_cons_self hf
      · rcases List.infix_cons_iff.mp hrest with hp | hrest
        · exact hne (hempty mark List.infix_rfl hp)
        · exact ih (fun k hk => h k (List.mem_cons_of_mem f hk)) hrest
      · have hnil := hempty m' (List.suffix_append m m').isInfix hm'
        rw [hnil, List.append_nil] at h
        exact h f List.mem_cons_self hm.isInfix

theorem isRow_of_fields {f : Text} {fields : List Text} (hsolid : Solid f)
    (h : ∀ g ∈ f :: fields, IsLine g) (hne : fields ≠ []) : IsRow (joinWith [','] (f :: fields)) := by
  have hline : ∀ fs : List Text, (∀ g ∈ fs, IsLine g) → IsLine (joinWith [','] fs) := by
    intro fs
    induction fs with
    | nil => exact fun _ c hc => nomatch hc
    | cons g fs ih =>
      intro hfs
      cases fs with
      | nil => exact hfs g List.mem_cons_self
      | cons k ks =>
        have hrest := ih fun m hm => hfs m (List.mem_cons_of_mem g hm)
        have hcomma : IsLine [','] := by decide
        exact ((hfs g List.mem_cons_self).append hcomma).append hrest
  refine ⟨hline _ h, ?_⟩
  obtain ⟨g, gs, rfl⟩ := List.exists_cons_of_ne_nil hne
  cases f with
  | nil => exact ⟨',', joinWith [','] (g :: gs), rfl, by decide⟩
  | cons c cs => exact ⟨c, cs ++ [','] ++ joinWith [','] (g :: gs), rfl, hsolid c List.mem_cons_self⟩

section

variable {cards : List GpuLine} {apps : List AppLine}

theorem GpuLine.mem_fields {l : GpuLine} {f : Text} (h : f ∈ l.fields) :
    f ∈ [l.idx, l.uuid, l.used, l.total, l.util, l.temp] ∨ f = l.leaseBit ∨ f = l.owner := by
  simp only [GpuLine.fields, List.cons_append, List.nil_append, List.mem_cons, List.not_mem_nil,
    or_false] at h ⊢
  tauto

theorem GpuLine.Plain.isRow {l : GpuLine} (h : l.Plain) : IsRow l.text := by
  refine isRow_of_fields h.idx (fun g hg => ?_) (List.cons_ne_nil _ _)
  have hmem : g ∈ l.fields := hg
  rcases GpuLine.mem_fields hmem with hg | rfl | rfl
  · exact (h.fields g hg).line
  · unfold GpuLine.leaseBit
    split
    · decide
    · decide
  · exact h.ownerLine

theorem AppLine.Plain.isRow {l : AppLine} (h : l.Plain) : IsRow l.text :=
  isRow_of_fields h.uuid (fun g hg => (h.fields g hg).line) (List.cons_ne_nil _ _)

theorem gpuFields_text {l : GpuLine} (h : l.Plain) : gpuFields l.text = l.fields.map strip := by
  have hcomma : ∀ f ∈ [l.idx, l.uuid, l.used, l.total, l.util, l.temp, l.leaseBit], ',' ∉ f := by
    intro f hf
    have hsplit : f ∈ [l.idx, l.uuid, l.used, l.total, l.util, l.temp] ∨ f = l.leaseBit := by
      simp only [List.mem_cons, List.not_mem_nil, or_false] at hf ⊢
      tauto
    rcases hsplit with hf | rfl
    · exact (h.fields f hf).comma
    · unfold GpuLine.leaseBit
      split
      · decide
      · decide
  exact congrArg (List.map strip) (splitMax_joinWith hcomma)

theorem appFields_text {l : AppLine} (h : l.Plain) : appFields l.text = l.fields.map strip :=
  congrArg (List.map strip)
    (splitOn_joinWith (fun f hf => (h.fields f hf).comma) (List.cons_ne_nil _ _))

theorem not_sep_text {l : GpuLine} (h : l.Plain) : ¬ sep <:+: l.text := by
  refine not_infix_joinWith (by decide) (by decide) fun f hf => ?_
  rcases GpuLine.mem_fields hf with hf | rfl | rfl
  · exact (h.fields f hf).mark
  · intro hin
    have hlen := hin.length_le
    unfold GpuLine.leaseBit at hlen
    split at hlen
    · exact absurd hlen (by decide)
    · exact absurd hlen (by decide)
  · exact h.ownerMark

/-- The parser finds the sections of a plain output, whatever follows them. -/
theorem parts_of_sections (hcards : ∀ l ∈ cards, l.Plain) (happs : ∀ l ∈ apps, l.Plain)
    (rest : Text) :
    gpuPart (sections cards apps ++ rest) = unlines (cards.map GpuLine.text) ∧
      appPart (sections cards apps ++ rest) = '\n' :: unlines (apps.map AppLine.text) := by
  have hfirst := partition_section (by decide : '\n' ∉ sep) (by decide)
    (List.forall_mem_map.mpr fun l hl => not_sep_text (hcards l hl))
    ('\n' :: (unlines (apps.map AppLine.text) ++ (sysSep ++ rest)))
  have happ : ∀ l ∈ apps.map AppLine.text, ¬ sysSep <:+: l :=
    List.forall_mem_map.mpr fun l hl => not_infix_joinWith (by decide) (by decide)
      fun f hf => ((happs l hl).fields f hf).mark
  have hsecond : partition sysSep ('\n' :: (unlines (apps.map AppLine.text) ++ (sysSep ++ rest))) =
      ('\n' :: unlines (apps.map AppLine.text), rest) := by
    have hnil : ¬ sysSep <:+: ([] : Text) := by decide
    have hline := partition_line (by decide : '\n' ∉ sysSep) hnil
      (unlines (apps.map AppLine.text) ++ (sysSep ++ rest))
    rw [List.nil_append, partition_section (by decide) (by decide) happ] at hline
    exact hline
  have htext : sections cards apps ++ rest = unlines (cards.map GpuLine.text) ++
      (sep ++ '\n' :: (unlines (apps.map AppLine.text) ++ (sysSep ++ rest))) := by
    simp [sections]
  unfold gpuPart appPart
  rw [htext, hfirst]
  exact ⟨rfl, congrArg Prod.fst hsecond⟩

/-- The parser reads the fields of a plain output as they are, whatever follows the sections. -/
theorem parse_sections (hcards : ∀ l ∈ cards, l.Plain) (happs : ∀ l ∈ apps, l.Plain)
    (rest : Text) (threshold : Int) (configured : List Text) :
    parseProbeInventory (sections cards apps ++ rest) threshold configured =
      inventory threshold configured (cards.map fun l => l.fields.map strip)
        (apps.map fun l => l.fields.map strip) := by
  obtain ⟨hgpu, happ⟩ := parts_of_sections hcards happs rest
  have hgpuRows : gpuRows (sections cards apps ++ rest) = cards.map fun l => l.fields.map strip := by
    rw [gpuRows, hgpu, rows_of_section gpuFields_rstrip
      (List.forall_mem_map.mpr fun l hl => (hcards l hl).isRow), List.map_map]
    exact List.map_congr_left fun l hl => gpuFields_text (hcards l hl)
  have hstrip : strip ('\n' :: unlines (apps.map AppLine.text)) =
      strip (unlines (apps.map AppLine.text)) := rfl
  have happRows : appRows (sections cards apps ++ rest) = apps.map fun l => l.fields.map strip := by
    rw [appRows, happ, hstrip, rows_of_section appFields_rstrip
      (List.forall_mem_map.mpr fun l hl => (happs l hl).isRow), List.map_map]
    exact List.map_congr_left fun l hl => appFields_text (happs l hl)
  rw [parseProbeInventory, hgpuRows, happRows]

end

/-! ## What makes a card free -/

/-- The process that a row is about; a row without a pid is a process of its own. -/
def rowKey : List Text → Option (Text × Text)
  | uuid :: pid :: _ => if pid ≠ [] then some (uuid, pid) else none
  | _ => none

/-- The row is about a process that was seen. -/
def repeats (seen : List (Text × Text)) (parts : List Text) : Bool :=
  (rowKey parts).any fun key => key ∈ seen

/-- The rows that are the first ones of their process. -/
def firstRows : List (Text × Text) → List (List Text) → List (List Text)
  | _, [] => []
  | seen, parts :: rows =>
    if repeats seen parts then firstRows seen rows
    else parts :: firstRows ((rowKey parts).toList ++ seen) rows

/-- The processes on a card. -/
def processesOn (uuid : Text) (rows : List (List Text)) : List (List Text) :=
  (firstRows [] rows).filter fun parts => parts.head? = some uuid

/-- The memory that some processes account for. -/
def residentMib (rows : List (List Text)) : Nat := (rows.map rowMib).sum

/-- No process but resident ones is on the card, the rest of its memory is below the threshold, and
it is not leased. -/
def freeCard (threshold : Int) (names : List Text) (apps : List (List Text)) (g : Gpu) : Bool :=
  (processesOn g.uuid apps).all (isResident names) &&
    decide (max 0 (g.memUsed - residentMib (processesOn g.uuid apps)) < threshold) && !g.leased

/-- A row that is about a card. -/
def Gpu.addRow (names : List Text) (g : Gpu) (parts : List Text) : Gpu :=
  match parts with
  | [_] => g.addUnknown
  | _ => g.addProcess names parts

theorem isResident_short (names : List Text) (uuid : Text) : isResident names [uuid] = false := rfl

section

variable {names : List Text} {g : Gpu} {rows : List (List Text)}

/-- What one row does to the numbers of its card. -/
theorem addRow_numbers (names : List Text) (g : Gpu) (parts : List Text) :
    (g.addRow names parts).uuid = g.uuid ∧ (g.addRow names parts).index = g.index ∧
      (g.addRow names parts).memUsed = g.memUsed ∧ (g.addRow names parts).leased = g.leased ∧
      (g.addRow names parts).procs = g.procs + (if isResident names parts then 0 else 1) ∧
      (g.addRow names parts).residentMib =
        g.residentMib + (if isResident names parts then rowMib parts else 0) := by
  unfold Gpu.addRow
  split
  · rw [isResident_short]
    exact ⟨rfl, rfl, rfl, rfl, rfl, rfl⟩
  · unfold Gpu.addProcess
    split
    · exact ⟨rfl, rfl, rfl, rfl, rfl, rfl⟩
    · exact ⟨rfl, rfl, rfl, rfl, rfl, rfl⟩

/-- What some rows do to the numbers of their card. -/
theorem addRows_numbers (names : List Text) (g : Gpu) (rows : List (List Text)) :
    (rows.foldl (Gpu.addRow names) g).uuid = g.uuid ∧
      (rows.foldl (Gpu.addRow names) g).index = g.index ∧
      (rows.foldl (Gpu.addRow names) g).memUsed = g.memUsed ∧
      (rows.foldl (Gpu.addRow names) g).leased = g.leased ∧
      ((rows.foldl (Gpu.addRow names) g).procs = 0 ↔ g.procs = 0 ∧ rows.all (isResident names) = true) ∧
      (rows.all (isResident names) = true →
        (rows.foldl (Gpu.addRow names) g).residentMib = g.residentMib + residentMib rows) := by
  induction rows generalizing g with
  | nil => simp [residentMib]
  | cons parts rows ih =>
    obtain ⟨huuid, hindex, hmem, hleased, hprocs, hmib⟩ := addRow_numbers names g parts
    obtain ⟨iuuid, iindex, imem, ileased, iprocs, imib⟩ := ih (g.addRow names parts)
    rw [List.foldl_cons, iuuid, iindex, imem, ileased, iprocs, hprocs]
    refine ⟨huuid, hindex, hmem, hleased, ?_, fun hall => ?_⟩
    · by_cases hres : isResident names parts = true
      · simp [hres]
      · simp [hres]
    · rw [List.all_cons, Bool.and_eq_true] at hall
      have hsum : residentMib (parts :: rows) = rowMib parts + residentMib rows := by
        simp [residentMib]
      rw [imib hall.2, hmib, if_pos hall.1]
      omega

/-- A row of no card changes nothing. -/
theorem updateGpu_of_notMem {gpus : List Gpu} {uuid : Text} (f : Gpu → Gpu)
    (h : uuid ∉ gpus.map Gpu.uuid) : updateGpu uuid f gpus = gpus := by
  unfold updateGpu
  conv_rhs => rw [← List.map_id gpus]
  refine List.map_congr_left fun g hg => if_neg ?_
  rintro rfl
  exact h (List.mem_map_of_mem hg)

/-- The cards and the processes after one row. -/
theorem addApp_eq (names : List Text) (gpus : List Gpu) (seen : List (Text × Text))
    (parts : List Text) :
    (addApp names (gpus, seen) parts).1 =
        (if repeats seen parts then gpus
        else gpus.map fun g => if parts.head? = some g.uuid then g.addRow names parts else g) ∧
      ∀ key, key ∈ (addApp names (gpus, seen) parts).2 ↔
        key ∈ seen ∨ (rowKey parts = some key ∧ key.1 ∈ gpus.map Gpu.uuid) := by
  rcases parts with _ | ⟨uuid, _ | ⟨pid, rest⟩⟩
  · simp [addApp, rowKey, repeats]
  · simp [addApp, rowKey, repeats, updateGpu, Gpu.addRow, eq_comm]
  · have hmap : (gpus.map fun g => if (uuid :: pid :: rest).head? = some g.uuid then
        g.addRow names (uuid :: pid :: rest) else g) =
        updateGpu uuid (Gpu.addProcess names (uuid :: pid :: rest)) gpus := by
      simp [updateGpu, Gpu.addRow, eq_comm]
    rw [hmap]
    unfold addApp
    dsimp only
    by_cases huuid : uuid ∉ gpus.map Gpu.uuid
    · rw [if_pos huuid, updateGpu_of_notMem _ huuid, ite_self]
      refine ⟨rfl, fun key => ⟨Or.inl, ?_⟩⟩
      rintro (hseen | ⟨hkey, hmem⟩)
      · exact hseen
      · by_cases hpid : pid = []
        · simp [hpid, rowKey] at hkey
        · simp only [rowKey, if_pos (show pid ≠ [] from hpid), Option.some.injEq] at hkey
          subst hkey
          exact absurd hmem huuid
    · rw [if_neg huuid]
      rw [not_not] at huuid
      by_cases hpid : pid = []
      · simp [hpid, rowKey, repeats]
      · simp only [hpid, rowKey, repeats, ne_eq, not_false_eq_true, true_and, if_true,
          Option.any_some, decide_eq_true_eq, Option.some.injEq]
        split
        · rename_i hin
          refine ⟨rfl, fun key => ⟨Or.inl, ?_⟩⟩
          rintro (hseen | ⟨rfl, -⟩)
          · exact hseen
          · exact hin
        · refine ⟨rfl, fun key => ?_⟩
          rw [List.mem_cons, eq_comm, or_comm]
          refine or_congr_right ⟨?_, And.left⟩
          rintro rfl
          exact ⟨rfl, huuid⟩

theorem head_of_rowKey {parts : List Text} {key : Text × Text} (h : rowKey parts = some key) :
    parts.head? = some key.1 := by
  rcases parts with _ | ⟨uuid, _ | ⟨pid, rest⟩⟩
  · cases h
  · cases h
  · unfold rowKey at h
    dsimp only at h
    split at h
    · cases h
      rfl
    · cases h

/-- For the cards it does not matter whether the processes of other devices are remembered. -/
theorem repeats_congr {uuids : List Text} {seen seen' : List (Text × Text)} {parts : List Text}
    {uuid : Text} (h : ∀ key : Text × Text, key.1 ∈ uuids → (key ∈ seen ↔ key ∈ seen'))
    (huuid : uuid ∈ uuids) (hhead : parts.head? = some uuid) :
    repeats seen parts = repeats seen' parts := by
  unfold repeats
  cases hkey : rowKey parts with
  | none => rfl
  | some key =>
    have hfirst : key.1 = uuid := Option.some.inj ((head_of_rowKey hkey).symm.trans hhead)
    rw [Option.any_some, Option.any_some, decide_eq_decide]
    exact h key (hfirst ▸ huuid)

/-- What some rows do to the cards. -/
theorem addApps_eq (names : List Text) (rows : List (List Text)) (gpus : List Gpu)
    (seen seen' : List (Text × Text))
    (h : ∀ key : Text × Text, key.1 ∈ gpus.map Gpu.uuid → (key ∈ seen ↔ key ∈ seen')) :
    (rows.foldl (addApp names) (gpus, seen)).1 = gpus.map fun g =>
      ((firstRows seen' rows).filter fun parts => parts.head? = some g.uuid).foldl
        (Gpu.addRow names) g := by
  induction rows generalizing gpus seen seen' with
  | nil => simp [firstRows]
  | cons parts rows ih =>
    obtain ⟨hgpus, hseen⟩ := addApp_eq names gpus seen parts
    -- the step, in the terms of the other list
    have hstep : (addApp names (gpus, seen) parts).1 = gpus.map fun g =>
        if repeats seen' parts = false ∧ parts.head? = some g.uuid then g.addRow names parts else g := by
      rw [hgpus]
      split
      · rename_i hrep
        conv_lhs => rw [← List.map_id gpus]
        refine List.map_congr_left fun g hg => (if_neg ?_).symm
        rintro ⟨hnot, hhead⟩
        rw [repeats_congr h (List.mem_map_of_mem hg) hhead, hnot] at hrep
        cases hrep
      · rename_i hrep
        refine List.map_congr_left fun g hg => ?_
        by_cases hhead : parts.head? = some g.uuid
        · rw [repeats_congr h (List.mem_map_of_mem hg) hhead] at hrep
          simp [hhead, hrep]
        · simp [hhead]
    have huuids : (addApp names (gpus, seen) parts).1.map Gpu.uuid = gpus.map Gpu.uuid := by
      rw [hstep, List.map_map]
      refine List.map_congr_left fun g _ => ?_
      dsimp only [Function.comp_apply]
      split
      · exact (addRow_numbers names g parts).1
      · rfl
    have hkeys : ∀ key : Text × Text, key.1 ∈ (addApp names (gpus, seen) parts).1.map Gpu.uuid →
        (key ∈ (addApp names (gpus, seen) parts).2 ↔
          key ∈ if repeats seen' parts then seen' else (rowKey parts).toList ++ seen') := by
      intro key hkey
      rw [huuids] at hkey
      rw [hseen, h key hkey]
      split
      · rename_i hrep
        refine ⟨?_, Or.inl⟩
        rintro (hin | ⟨hkey', -⟩)
        · exact hin
        · simpa [repeats, hkey'] using hrep
      · rw [List.mem_append, Option.mem_toList, or_comm]
        exact or_congr_left (and_iff_left hkey)
    have hrest := ih _ _ _ hkeys
    rw [List.foldl_cons]
    refine hrest.trans ?_
    rw [hstep, List.map_map]
    refine List.map_congr_left fun g _ => ?_
    have huuid : (if repeats seen' parts = false ∧ parts.head? = some g.uuid then
        g.addRow names parts else g).uuid = g.uuid := by
      split
      · exact (addRow_numbers names g parts).1
      · rfl
    rw [Function.comp_apply, huuid, firstRows]
    by_cases hrep : repeats seen' parts = true
    · simp [hrep]
    · rw [Bool.not_eq_true] at hrep
      by_cases hhead : parts.head? = some g.uuid
      · simp [hrep, hhead]
      · simp [hrep, hhead]

/-- The cards of an inventory: the first row of each card, judged by the processes on it. -/
theorem inventory_cards (threshold : Int) (configured : List Text) (cards apps : List (List Text)) :
    (inventory threshold configured cards apps).1.Perm
      ((cards.foldl addGpu ([], 0)).1.map fun g => Gpu.judge threshold
        ((processesOn g.uuid apps).foldl (Gpu.addRow (residentProcessNames configured)) g)) := by
  unfold inventory
  dsimp only
  rw [addApps_eq _ _ _ [] [] fun _ _ => Iff.rfl]
  have hperm := ((List.perm_insertionSort (fun a b : Gpu => a.index ≤ b.index) _).map
    (Gpu.judge threshold)).trans (List.Perm.of_eq (List.map_map (g := Gpu.judge threshold)
      (f := fun g => (processesOn g.uuid apps).foldl
        (Gpu.addRow (residentProcessNames configured)) g) (l := (cards.foldl addGpu ([], 0)).1)))
  exact hperm

/-- Cards are read without the numbers that the processes add. -/
theorem readGpu_procs {parts : List Text} {g : Gpu} (h : readGpu parts = some g) :
    g.procs = 0 ∧ g.residentMib = 0 := by
  unfold readGpu at h
  split at h
  · split at h
    · cases h
    · simp only [Option.bind_eq_bind, Option.bind_eq_some_iff] at h
      obtain ⟨_, _, _, _, _, _, _, _, h⟩ := h
      split at h
      · cases h
      · cases h
        exact ⟨rfl, rfl⟩
  · cases h

/-- A card was read from some row. -/
theorem mem_addGpus {rows : List (List Text)} {state : List Gpu × Nat} {g : Gpu}
    (h : g ∈ (rows.foldl addGpu state).1) :
    g ∈ state.1 ∨ ∃ parts ∈ rows, readGpu parts = some g := by
  induction rows generalizing state with
  | nil => exact Or.inl h
  | cons parts rows ih =>
    rcases ih h with hstate | ⟨parts', hmem, hread⟩
    · unfold addGpu at hstate
      split at hstate
      · exact Or.inl hstate
      · rename_i gpu hgpu
        split at hstate
        · exact Or.inl hstate
        · rcases List.mem_append.mp hstate with hold | hnew
          · exact Or.inl hold
          · rw [List.mem_singleton.mp hnew]
            exact Or.inr ⟨parts, List.mem_cons_self, hgpu⟩
    · exact Or.inr ⟨parts', List.mem_cons_of_mem _ hmem, hread⟩

/-- The judgement, once the processes are known. -/
theorem judge_free {threshold : Int} (hprocs : g.procs = 0) (hmib : g.residentMib = 0) :
    (Gpu.judge threshold (rows.foldl (Gpu.addRow names) g)).free =
      (rows.all (isResident names) &&
        decide (max 0 (g.memUsed - residentMib rows) < threshold) && !g.leased) := by
  obtain ⟨-, -, hmem, hleased, hzero, hsum⟩ := addRows_numbers names g rows
  unfold Gpu.judge
  dsimp only
  by_cases hall : rows.all (isResident names) = true
  · have hno : (rows.foldl (Gpu.addRow names) g).procs = 0 := hzero.mpr ⟨hprocs, hall⟩
    rw [hno, hmem, hleased, hsum hall, hmib, hall, Nat.zero_add]
    rfl
  · have hno : (rows.foldl (Gpu.addRow names) g).procs ≠ 0 := fun h0 => hall (hzero.mp h0).2
    rw [Bool.not_eq_true] at hall
    simp [hno, hall]

/-- What the parser says about a card is what its row and the rows of its processes say. -/
theorem mem_inventory {threshold : Int} {configured : List Text} {cards apps : List (List Text)}
    {g : Gpu} (h : g ∈ (inventory threshold configured cards apps).1) :
    ∃ parts ∈ cards, ∃ card, readGpu parts = some card ∧ g.uuid = card.uuid ∧ g.index = card.index ∧
      g.free = freeCard threshold (residentProcessNames configured) apps card := by
  have hmem := (inventory_cards threshold configured cards apps).mem_iff.mp h
  obtain ⟨card, hcard, rfl⟩ := List.mem_map.mp hmem
  rcases mem_addGpus hcard with hnil | ⟨parts, hparts, hread⟩
  · cases hnil
  · obtain ⟨hprocs, hmib⟩ := readGpu_procs hread
    obtain ⟨huuid, hindex, -⟩ := addRows_numbers (residentProcessNames configured) card
      (processesOn card.uuid apps)
    exact ⟨parts, hparts, card, hread, huuid, hindex, judge_free hprocs hmib⟩

end

end Dt.Probe
