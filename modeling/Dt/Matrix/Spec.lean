import Mathlib.Data.String.Basic
import Dt.Layout.Stores
import Dt.Lib.Grid
import Dt.Lib.SortedBy
import Dt.Submission.Intent

/-!
# Matrix specs

A matrix spec declares axes with values. `load_spec` expands them into units: the grid of the axes
without the excluded units, and the included ones, each under a key of the form `axis=value,…`. The
document is what the YAML or JSON reader gives; numbers keep their spelling and are texts here.
-/

namespace Dt.Matrix

open Dt.Lib
open Dt.Layout (sanitizeName)
open Dt.Submission (validRequestId)

/-! ## Documents -/

/-- A key of a mapping: only texts are accepted by any field. -/
inductive Key where
  | str (s : String)
  | other (repr : String)
  deriving DecidableEq, Repr

/-- A value of a parsed document. The reader keeps floats as texts, but JSON has constants that are
not finite numbers; dates, bytes and sets are `other`. -/
inductive Value where
  | null
  | bool (b : Bool)
  | int (n : Int)
  | str (s : String)
  | nonFinite (text : String)
  | seq (items : List Value)
  | map (items : List (Key × Value))
  | other

/-- Mappings have each key once, at every depth. -/
inductive WellKeyed : Value → Prop where
  | null : WellKeyed .null
  | bool (b : Bool) : WellKeyed (.bool b)
  | int (n : Int) : WellKeyed (.int n)
  | str (s : String) : WellKeyed (.str s)
  | nonFinite (text : String) : WellKeyed (.nonFinite text)
  | other : WellKeyed .other
  | seq {items : List Value} (h : ∀ v ∈ items, WellKeyed v) : WellKeyed (.seq items)
  | map {items : List (Key × Value)} (hkeys : (items.map Prod.fst).Nodup)
      (h : ∀ p ∈ items, WellKeyed p.2) : WellKeyed (.map items)

def Document := { v : Value // WellKeyed v }

/-- The fields of a spec. -/
abbrev Fields := List (String × Value)

/-- `raw.get(field)` -/
def get (raw : Fields) (field : String) : Value := (raw.lookup field).getD .null

/-- An error of a field, with its text. A whole number that no float holds raises another error. -/
inductive SpecError where
  | text (message : String)
  | overflow
  deriving DecidableEq, Repr

/-- An error of `load_spec`: that of a field, or two units with one key. -/
inductive LoadError where
  | spec (e : SpecError)
  | duplicateUnitKey (key : String)
  deriving DecidableEq, Repr

/-- What the interpreter does with texts and floats. -/
structure Runtime (F : Type) where
  repr : String → String
  sha256 : List Char → List Char
  float : String → Option F
  ofInt : Int → Option F
  isFinite : F → Bool
  isPositive : F → Bool

def LoadError.message {F : Type} (run : Runtime F) : LoadError → String
  | .spec (.text message) => message
  | .spec .overflow => "int too large to convert to float"
  | .duplicateUnitKey key => s!"matrix expands duplicate unit key {run.repr key}"

def matrixOperation : String := "matrix"
def matrixMaxUnits : Nat := 1000
def matrixMaxSpecBytes : Nat := 1024 * 1024
def matrixMaxCommandBytes : Nat := 1024 * 1024
def maxValueChars : Nat := 120

def specFields : List String :=
  ["name_prefix", "request_id", "project", "defaults", "axes", "include", "exclude", "command", "unit",
    "node", "artifacts"]

def unitOptionFields : List String := ["gpus", "max_hours"]

/-- Digits in groups of three, `f"{n:,}"`. -/
def thousands (n : Nat) : String :=
  let rec group : List Char → List Char
    | a :: b :: c :: d :: rest => a :: b :: c :: ',' :: group (d :: rest)
    | short => short
  String.ofList (group (toString n).toList.reverse).reverse

example : thousands 1048576 = "1,048,576" := by decide +kernel

/-- `", ".join(sorted(names))` -/
def sortedList (names : List String) : String := ", ".intercalate (names.insertionSort (· ≤ ·))

/-- `", ".join(sorted(names)) or "none"` -/
def knownNames (names : List String) : String :=
  if sortedList names = "" then "none" else sortedList names

/-! ## Command templates -/

/-- One item of `string.Formatter().parse`. -/
structure Fragment where
  literal : List Char
  field : Option (List Char)
  formatSpec : List Char
  conversion : Option Char
  deriving DecidableEq, Repr

/-- Where the parser of a template is. -/
inductive Mode where
  | literal (text : List Char)
  | opened (text : List Char)
  | closed (text : List Char)
  | field (text name : List Char)
  | bracket (text name : List Char)
  | conversion (text name : List Char)
  | converted (text name : List Char) (c : Char)
  | formatSpec (text name : List Char) (c : Option Char) (spec : List Char) (depth : Nat)

/-- The name of a field ends at a brace, a colon or an exclamation mark. -/
def fieldStep (text name : List Char) (c : Char) : Except String (List Fragment × Mode) :=
  if c = '{' then .error "unexpected '\x7b' in field name"
  else if c = '[' then .ok ([], .bracket text (name ++ [c]))
  else if c = '}' then .ok ([⟨text, some name, [], none⟩], .literal [])
  else if c = ':' then .ok ([], .formatSpec text name none [] 1)
  else if c = '!' then .ok ([], .conversion text name)
  else .ok ([], .field text (name ++ [c]))

def Mode.step : Mode → Char → Except String (List Fragment × Mode)
  | .literal text, c =>
    if c = '{' then .ok ([], .opened text)
    else if c = '}' then .ok ([], .closed text)
    else .ok ([], .literal (text ++ [c]))
  | .opened text, c =>
    if c = '{' then .ok ([⟨text ++ [c], none, [], none⟩], .literal []) else fieldStep text [] c
  | .closed text, c =>
    if c = '}' then .ok ([⟨text ++ [c], none, [], none⟩], .literal [])
    else .error "Single '\x7d' encountered in format string"
  | .field text name, c => fieldStep text name c
  | .bracket text name, c =>
    if c = ']' then .ok ([], .field text (name ++ [c])) else .ok ([], .bracket text (name ++ [c]))
  | .conversion text name, c => .ok ([], .converted text name c)
  | .converted text name conv, c =>
    if c = '}' then .ok ([⟨text, some name, [], some conv⟩], .literal [])
    else if c = ':' then .ok ([], .formatSpec text name (some conv) [] 1)
    else .error "expected ':' after conversion specifier"
  | .formatSpec text name conv spec depth, c =>
    if c = '{' then .ok ([], .formatSpec text name conv (spec ++ [c]) (depth + 1))
    else if c = '}' then
      if depth = 1 then .ok ([⟨text, some name, spec, conv⟩], .literal [])
      else .ok ([], .formatSpec text name conv (spec ++ [c]) (depth - 1))
    else .ok ([], .formatSpec text name conv (spec ++ [c]) depth)

def Mode.finish : Mode → Except String (List Fragment)
  | .literal text => .ok (if text = [] then [] else [⟨text, none, [], none⟩])
  | .opened _ => .error "Single '\x7b' encountered in format string"
  | .closed _ => .error "Single '\x7d' encountered in format string"
  | .field _ _ | .bracket _ _ => .error "expected '\x7d' before end of string"
  | .conversion _ _ => .error "end of string while looking for conversion specifier"
  | .converted _ _ _ | .formatSpec _ _ _ _ _ => .error "unmatched '\x7b' in format spec"

def parseFrom : Mode → List Char → Except String (List Fragment)
  | mode, [] => mode.finish
  | mode, c :: cs => do
    let (fragments, next) ← mode.step c
    return fragments ++ (← parseFrom next cs)

/-- `string.Formatter().parse(template)` -/
def formatterParse (template : List Char) : Except String (List Fragment) :=
  parseFrom (.literal []) template

example : formatterParse "a\x7bx\x7d\x7b\x7bb".toList =
    .ok [⟨['a'], some ['x'], [], none⟩, ⟨['{'], none, [], none⟩, ⟨['b'], none, [], none⟩] := by
  decide +kernel

abbrev Assignment := List (String × String)

def fragmentText {F : Type} (run : Runtime F) (values : Assignment) (f : Fragment) :
    Except SpecError (List Char) :=
  match f.field with
  | none => .ok f.literal
  | some field =>
    if field = [] ∨ f.formatSpec ≠ [] ∨ f.conversion.isSome then
      .error (.text ("command template placeholders must be plain axis names like \x7blr\x7d; " ++
        "positional, format-spec, and conversion placeholders are not supported"))
    else match values.lookup (String.ofList field) with
      | none => .error (.text s!"command template references unknown axis {run.repr (String.ofList field)} (known axes: {knownNames (values.map Prod.fst)})")
      | some value => .ok (f.literal ++ value.toList)

/-- Substitute `{axis}` placeholders with exact source-spelled values. -/
def renderCommand {F : Type} (run : Runtime F) (template : String) (values : Assignment) :
    Except SpecError String :=
  match formatterParse template.toList with
  | .error e => .error (.text s!"command template is invalid: {e}")
  | .ok fragments => do
    let parts ← fragments.mapM (fragmentText run values)
    let command := strip parts.flatten
    if command = [] then .error (.text "command template rendered an empty command")
    else return String.ofList command

/-! ## Fields -/

def isControl (c : Char) : Bool := c.toNat < 32 || c.toNat = 127

/-- The text of a scalar. -/
def plainText : Value → Option String
  | .bool b => some (if b then "true" else "false")
  | .str s => some s
  | .int n => some (toString n)
  | .nonFinite text => some text
  | _ => none

/-- Render one axis-value scalar as deterministic text. -/
def scalarText (value : Value) (label : String) : Except SpecError String :=
  match plainText value with
  | none => .error (.text s!"{label} must be a string, number, or boolean")
  | some text =>
    if strip text.toList = [] then .error (.text s!"{label} must not be empty")
    else if maxValueChars < text.length then
      .error (.text s!"{label} is longer than {maxValueChars} characters")
    else if text.toList.any isControl then
      .error (.text s!"{label} must not contain control characters")
    else .ok text

section

variable {F : Type} (run : Runtime F)

def Key.repr : Key → String
  | .str s => run.repr s
  | .other text => text

def asInt (value : Value) (label : String) : Except SpecError Int :=
  match value with
  | .int n => .ok n
  | .str s =>
    match pyInt (strip s.toList) with
    | some n => .ok n
    | none => .error (.text s!"{label} must be an integer")
  | _ => .error (.text s!"{label} must be an integer")

def asFloat (value : Value) (label : String) : Except SpecError F := do
  let result ← match value with
    | .int n => match run.ofInt n with
      | some x => .ok x
      | none => .error .overflow
    | .str s => match run.float (String.ofList (strip s.toList)) with
      | some x => .ok x
      | none => .error (.text s!"{label} must be a number")
    | .nonFinite _ => .error (.text s!"{label} must be finite")
    | _ => .error (.text s!"{label} must be a number")
  if run.isFinite result then return result else .error (.text s!"{label} must be finite")

def optionalText (raw : Fields) (field : String) : Except SpecError (Option String) :=
  match get raw field with
  | .null => .ok none
  | .str s =>
    if strip s.toList = [] then .error (.text s!"matrix field {run.repr field} must be a non-empty string")
    else .ok (some (String.ofList (strip s.toList)))
  | _ => .error (.text s!"matrix field {run.repr field} must be a non-empty string")

/-- The number of GPUs and the hours of a unit. -/
abbrev Options (F : Type) := Int × Option F

/-- One entry of an override mapping. -/
def unitOption (label : String) (current : Options F) (p : Key × Value) :
    Except SpecError (Options F) :=
  if p.1 = .str "gpus" then do
    let gpus ← asInt p.2 s!"{label} gpus"
    if gpus < 0 then .error (.text s!"{label} gpus must be non-negative") else return (gpus, current.2)
  else if p.1 = .str "max_hours" then do
    let maxHours ← asFloat run p.2 s!"{label} max_hours"
    if run.isPositive maxHours then return (current.1, some maxHours)
    else .error (.text s!"{label} max_hours must be positive")
  else .error (.text s!"{label} field {p.1.repr run} is not supported (supported: {sortedList unitOptionFields})")

/-- Merge one gpus/max_hours override mapping over the current values. -/
def unitOptions (label : String) (base : Options F) : Value → Except SpecError (Options F)
  | .null => .ok base
  | .map items => items.foldlM (unitOption run label) base
  | _ => .error (.text s!"{label} must be a mapping")

/-- `_AXIS_NAME_RE` -/
def isAxisName (s : String) : Bool :=
  match s.toList with
  | [] => false
  | c :: cs => ((isAlnum c && !isDigit c) || c = '_') && classRun (fun d => isAlnum d || d = '_') 0 63 cs

def axisNameError : SpecError :=
  .text ("axis names must be identifiers: letters, digits, and _ " ++
    "(max 64 characters, not starting with a digit)")

/-- The values of one axis from a position on, behind those that were read. -/
def readAxis (name : String) : Nat → List String → List Value → Except SpecError (List String)
  | _, rendered, [] => .ok rendered
  | position, rendered, value :: values => do
    let text ← scalarText value s!"axis {run.repr name} value {position}"
    if text ∈ rendered then .error (.text s!"axis {run.repr name} repeats the value {run.repr text}")
    else readAxis name (position + 1) (rendered ++ [text]) values

abbrev Axis := String × List String

def readAxisItem (p : Key × Value) : Except SpecError Axis :=
  match p.1 with
  | .str name =>
    if isAxisName name then
      match p.2 with
      | .seq (value :: values) => do return (name, ← readAxis run name 1 [] (value :: values))
      | _ => .error (.text s!"axis {run.repr name} must be a non-empty list of values")
    else .error axisNameError
  | .other _ => .error axisNameError

def axisValues : Value → Except SpecError (List Axis)
  | .null => .ok []
  | .map items => items.mapM (readAxisItem run)
  | _ => .error (.text "matrix field 'axes' must be a mapping of value lists")

def selectorItem (label : String) (allowed : List String) (p : Key × Value) :
    Except SpecError (String × String) :=
  match p.1 with
  | .str name =>
    if name ∈ allowed then do
      return (name, ← scalarText p.2 s!"{label} value for {run.repr name}")
    else .error (.text s!"{label} names unknown axis {run.repr name} (known axes: {knownNames allowed})")
  | .other text =>
    .error (.text s!"{label} names unknown axis {text} (known axes: {knownNames allowed})")

def selectorEntry (label : String) (allowed : List String) (requireComplete : Bool) :
    Value → Except SpecError Assignment
  | .map (item :: items) => do
    let rendered ← (item :: items).mapM (selectorItem run label allowed)
    let missing := allowed.filter fun name => name ∉ rendered.map Prod.fst
    if requireComplete ∧ missing ≠ [] then
      .error (.text s!"{label} must set every axis (missing: {sortedList missing})")
    else return rendered
  | _ => .error (.text s!"{label} must be a non-empty mapping")

/-- Validate one list of axis-value mappings. -/
def selectorUnits (field : String) (allowed : List String) (requireComplete : Bool) :
    Value → Except SpecError (List Assignment)
  | .null => .ok []
  | .seq entries =>
    (entries.zipIdx 1).mapM fun e => selectorEntry run s!"{field} entry {e.2}" allowed requireComplete e.1
  | _ => .error (.text s!"matrix field {run.repr field} must be a list of mappings")

/-- Which units an override is for, and the override. -/
abbrev Rule := Assignment × Value

def unitRule (label : String) (allowed : List String) : Value → Except SpecError Rule
  | .map items =>
    match items.lookup (.str "match"), items.lookup (.str "overrides") with
    | some selector, some overrides =>
      if items.length = 2 then do
        let matched ← selectorUnits run s!"{label} match" allowed false (.seq [selector])
        return (matched.headD [], overrides)
      else .error (.text s!"{label} must be a mapping with exactly 'match' and 'overrides'")
    | _, _ => .error (.text s!"{label} must be a mapping with exactly 'match' and 'overrides'")
  | _ => .error (.text s!"{label} must be a mapping with exactly 'match' and 'overrides'")

def unitRules (allowed : List String) : Value → Except SpecError (List Rule)
  | .null => .ok []
  | .seq rules => (rules.zipIdx 1).mapM fun r => unitRule run s!"unit rule {r.2}" allowed r.1
  | _ => .error (.text "matrix field 'unit' must be a list of mappings")

/-! ## Expansion -/

/-- The fields that no axis takes part in. -/
structure Header (F : Type) where
  requestId : String
  namePrefix : String
  project : Option String
  node : Option String
  artifacts : List String
  template : String
  defaults : Options F

def artifactPath : Value → Option String
  | .str s => if strip s.toList = [] then none else some (String.ofList (strip s.toList))
  | _ => none

def artifactPaths : Value → Except SpecError (List String)
  | .null => .ok []
  | .seq items =>
    match items.mapM artifactPath with
    | some paths => .ok paths
    | none => .error (.text "matrix field 'artifacts' must be a list of non-empty paths")
  | _ => .error (.text "matrix field 'artifacts' must be a list of non-empty paths")

def requestIdError : String := "--request-id must be 1-128 characters: letters, digits, . _ : @ + -"

def readHeader (raw : Fields) : Except SpecError (Header F) := do
  let unknown := (raw.map Prod.fst).filter (· ∉ specFields)
  if unknown ≠ [] then .error (.text s!"matrix spec has unsupported fields: {sortedList unknown}")
  let requestId ← match get raw "request_id" with
    | .str s =>
      if validRequestId s then .ok s
      else .error (.text s!"matrix field 'request_id' is invalid: {requestIdError}")
    | _ => .error (.text "matrix field 'request_id' is required")
  let template ← match get raw "command" with
    | .str s =>
      if strip s.toList = [] then .error (.text "matrix field 'command' is required") else .ok s
    | _ => .error (.text "matrix field 'command' is required")
  let prefixText ← optionalText run raw "name_prefix"
  let namePrefix := sanitizeName run.sha256 (prefixText.getD matrixOperation).toList
  let project ← optionalText run raw "project"
  let node ← optionalText run raw "node"
  let artifacts ← artifactPaths (get raw "artifacts")
  if artifacts ≠ [] ∧ node = none then
    .error (.text ("matrix field 'artifacts' requires a pinned 'node'; artifact " ++
      "destinations cannot follow queue-time placement"))
  let defaults ← unitOptions run "matrix defaults" (1, none) (get raw "defaults")
  return { requestId, namePrefix := String.ofList namePrefix, project, node, artifacts, template, defaults }

/-- `grid_size` -/
def gridSize (axes : List Axis) : Nat := if axes = [] then 0 else (axes.map (·.2.length)).prod

def keyName : Key → Option String
  | .str s => some s
  | .other _ => none

/-- The names that the first included unit sets. -/
def firstNames : Value → List String
  | .seq (.map items :: _) => items.filterMap fun p => keyName p.1
  | _ => []

/-- The axes that an included unit sets: without axes, those of the first included unit. -/
def includeAxes (axes : List Axis) (included : Value) : Except SpecError (List String) :=
  if axes ≠ [] then .ok (axes.map Prod.fst)
  else if firstNames included = [] then
    .error (.text "matrix spec needs 'axes' or at least one 'include' unit")
  else if (firstNames included).any (!isAxisName ·) then .error axisNameError
  else .ok (firstNames included)

/-- Whether an assignment has all the values of an entry. -/
def selects (entry values : Assignment) : Bool := entry.all fun p => values.lookup p.1 = some p.2

def sortAxes (axes : List Axis) : List Axis := sortBy Prod.fst axes

/-- The grid over the sorted axes without the excluded units, then the included ones. -/
def combinations (axes : List Axis) (included excluded : List Assignment) : List Assignment :=
  (if axes = [] then [] else (grid (sortAxes axes)).filter fun values => !excluded.any (selects · values)) ++
    included

structure Expansion (F : Type) where
  header : Header F
  rules : List Rule
  combos : List Assignment

/-- `load_spec` up to the keys of the units. -/
def expandDocument (raw : Fields) : Except SpecError (Expansion F) := do
  let header ← readHeader run raw
  let axes ← axisValues run (get raw "axes")
  if matrixMaxUnits < gridSize axes then
    .error (.text s!"axes expand to {thousands (gridSize axes)} units; maximum is {thousands matrixMaxUnits}")
  let allowed ← includeAxes axes (get raw "include")
  let included ← selectorUnits run "include" allowed true (get raw "include")
  let excluded ← selectorUnits run "exclude" (axes.map Prod.fst) false (get raw "exclude")
  let rules ← unitRules run allowed (get raw "unit")
  let combos := combinations axes included excluded
  if combos = [] then .error (.text "matrix spec expanded to zero units")
  if matrixMaxUnits < combos.length then
    .error (.text s!"matrix expands to {thousands combos.length} units; maximum is {thousands matrixMaxUnits}")
  return { header, rules, combos }

/-- The values of an assignment in the order of the axis names. -/
def sortItems (values : Assignment) : Assignment := sortBy Prod.fst values

def pairText (p : String × String) : List Char := p.1.toList ++ '=' :: p.2.toList

def unitKey (values : Assignment) : String :=
  String.ofList (joinWith [','] ((sortItems values).map pairText))

structure MatrixUnit (F : Type) where
  index : Nat
  key : String
  name : String
  values : Assignment
  command : String
  gpus : Int
  maxHours : Option F
  deriving DecidableEq

structure MatrixSpec (F : Type) where
  requestId : String
  namePrefix : String
  project : Option String
  node : Option String
  artifacts : List String
  commandTemplate : String
  units : List (MatrixUnit F)
  deriving DecidableEq

/-- The units by their keys; a key that was seen is an error. -/
def addUnit (keyed : List (String × Assignment)) (values : Assignment) :
    Except String (List (String × Assignment)) :=
  if unitKey values ∈ keyed.map Prod.fst then .error (unitKey values)
  else .ok (keyed ++ [(unitKey values, values)])

def ruleOptions (values : Assignment) (current : Options F) (rule : Rule) :
    Except SpecError (Options F) :=
  if selects rule.1 values then unitOptions run "unit overrides" current rule.2 else .ok current

def buildUnit (header : Header F) (rules : List Rule) (unit : (String × Assignment) × Nat) :
    Except SpecError (MatrixUnit F) := do
  let ((key, values), index) := unit
  let (gpus, maxHours) ← rules.foldlM (ruleOptions run values) header.defaults
  let command ← renderCommand run header.template values
  return {
    index, key, values := sortItems values, command, gpus, maxHours
    name := String.ofList (sanitizeName run.sha256 (header.namePrefix ++ "-" ++ key).toList) }

/-- The units of the keyed assignments, in the order of their keys. -/
def buildSpec (header : Header F) (rules : List Rule) (keyed : List (String × Assignment)) :
    Except SpecError (MatrixSpec F) := do
  let units ← ((sortBy Prod.fst keyed).zipIdx 1).mapM (buildUnit run header rules)
  let commandBytes := (units.map (·.command.utf8ByteSize)).sum
  if matrixMaxCommandBytes < commandBytes then
    .error (.text s!"matrix command text is {thousands commandBytes} bytes; maximum is {thousands matrixMaxCommandBytes}")
  return {
    requestId := header.requestId, namePrefix := header.namePrefix, project := header.project
    node := header.node, artifacts := header.artifacts, commandTemplate := header.template, units }

/-- `load_spec`, from the parsed document on. -/
def loadDocument (raw : Fields) : Except LoadError (MatrixSpec F) := do
  let expansion ← (expandDocument run raw).mapError .spec
  let keyed ← (expansion.combos.foldlM addUnit []).mapError .duplicateUnitKey
  (buildSpec run expansion.header expansion.rules keyed).mapError .spec

/-- `parse_spec_text`; `read` is the YAML reader, and the JSON reader where that one fails. -/
def parseSpecText (read : String → Except String Document) (text : String) :
    Except SpecError Fields :=
  if matrixMaxSpecBytes < text.utf8ByteSize then
    .error (.text s!"matrix spec exceeds the {thousands matrixMaxSpecBytes}-byte limit")
  else match read text with
    | .error e => .error (.text e)
    | .ok ⟨.map items, _⟩ =>
      match items.mapM fun p => (keyName p.1).map fun name => (name, p.2) with
      | some fields => .ok fields
      | none => .error (.text "matrix spec field names must be strings")
    | .ok _ => .error (.text "matrix spec must be a mapping of fields")

/-- Parse, validate, and deterministically expand one matrix spec. -/
def loadSpec (read : String → Except String Document) (text : String) :
    Except LoadError (MatrixSpec F) := do
  let raw ← (parseSpecText read text).mapError .spec
  loadDocument run raw

end

/-- The payload that `intent_sha256` hashes. -/
structure MatrixIntent (F : Type) where
  center : String
  artifactManifest : Option String
  namePrefix : String
  project : Option String
  node : Option String
  artifacts : List String
  commandTemplate : String
  units : List (String × String × String × Int × Option F)

def intentSha256 {F : Type} (canonicalIntent : MatrixIntent F → String) (center : String)
    (artifactManifest : Option String) (spec : MatrixSpec F) : String :=
  canonicalIntent {
    center, artifactManifest, namePrefix := spec.namePrefix, project := spec.project
    node := spec.node, artifacts := spec.artifacts, commandTemplate := spec.commandTemplate
    units := spec.units.map fun u => (u.key, u.name, u.command, u.gpus, u.maxHours) }

end Dt.Matrix
