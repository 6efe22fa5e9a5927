import Mathlib
import Dt.Jobs.Status
import Dt.Query.Cursor

/-!
# The payload of a query

`buildPayload` answers one request: it selects the rows after the cursor, cuts them to the limit and
projects them, and `fitPayloadPage` then drops rows from the end until the serialized payload fits
the byte budget of a response. The head never returns a part of a row.

The hash, the clock and the two rules that clean the texts of errors are parameters.
-/

namespace Dt.Query

open Dt.Lib Dt.Jobs

variable {F : Type} [FloatText F]

/-- What the head uses besides the rows. -/
structure Tools where
  /-- `hashlib.sha256(text.encode()).hexdigest()` -/
  sha256 : String → String
  sha256_digest : ∀ text, isDigest (sha256 text) = true
  sanitizeTerminalText : String → String
  redactHomePath : String → String

/-- A filter and what is asked about the rows it selects. -/
structure Selection (F : Type) where
  center : String
  status : Option String := none
  activeOnly : Bool := false
  issuesOnly : Bool := false
  since : Option F := none
  fields : List String
  summaryOnly : Bool := false

/-- The rows of the registry, when one page is asked for. -/
structure Request (F : Type) where
  rows : List (Row F)
  limit : Int
  errors : List (String × String) := []
  generatedAt : F

def filterSince (rows : List (Row F)) (since : Option F) : List (Row F) :=
  match since with
  | none => rows
  | some since => rows.filter fun row => since ≤ rowTimestamp row "updated_at"

def optText : Option String → Json F
  | some s => .str s
  | none => .null

def optFloat : Option F → Json F
  | some x => .float x
  | none => .null

/-- `selection_digest` -/
def selectionDigest (tools : Tools) (q : Selection F) : String :=
  tools.sha256 (String.ofList ((Json.obj [("active_only", .bool q.activeOnly),
    ("issues_only", .bool q.issuesOnly), ("order", .str orderField), ("since", optFloat q.since),
    ("status", optText q.status)] : Json F).render .compact))

/-! ## Pages -/

structure Page (F : Type) where
  rows : List (Row F)
  eligible : Nat
  nextCursor : Option String

/-- `sorted(rows, key=row_key, reverse=True)` -/
def sortedRows (rows : List (Row F)) (order : String) : List (Row F) :=
  rows.insertionSort fun a b => rowKey b order ≤ rowKey a order

/-- The rows after a cursor. -/
def rowsAfter (rows : List (Row F)) (cursor : Option String) (digest order : String) :
    Except QueryError (List (Row F)) :=
  match cursor with
  | none => .ok (sortedRows rows order)
  | some value => do
    let anchor ← decodeCursor value digest order
    return (sortedRows rows order).filter fun row => rowKey row order < anchor

/-- `continuation_cursor` -/
def continuationCursor (row : Row F) (digest order : String) : String :=
  encodeCursor (rowKey row order) digest order

def paginate (rows : List (Row F)) (limit : Int) (cursor : Option String) (digest order : String) :
    Except QueryError (Page F) :=
  if limit < 1 ∨ maxLimit < limit then .error "query limit must be between 1 and 500"
  else do
    let ordered ← rowsAfter rows cursor digest order
    let selected := ordered.take limit.toNat
    return {
      rows := selected
      eligible := ordered.length
      nextCursor :=
        if selected.length < ordered.length then
          selected.getLast?.map (continuationCursor · digest order)
        else none }

/-- `project` of one row -/
def projectRow (row : Row F) (selected : List String) : Row F :=
  selected.map fun name => (name, Row.get row name)

def project (rows : List (Row F)) (selected : List String) : List (Row F) :=
  rows.map (projectRow · selected)

/-! ## Fitting a page into a response -/

/-- `row[name] = value` -/
def Row.set (row : Row F) (name : String) (value : Json F) : Row F :=
  if name ∈ row.map Prod.fst then row.map fun p => if p.1 = name then (name, value) else p
  else row ++ [(name, value)]

def serializedSize (payload : Row F) : Nat :=
  (utf8Bytes (String.ofList ((Json.obj payload).render {}))).length

def pageObject (eligible : Nat) (returned : Nat) (nextCursor : Option String) : Json F :=
  .obj [("eligible", .int eligible), ("returned", .int returned), ("next_cursor", optText nextCursor)]

section

variable (payload : Row F) (source : List (Row F)) (selected : List String)
  (digest order : String) (eligible : Nat)

/-- The cursor after the first `count` rows. -/
def continuationAfter (count : Nat) : Option String :=
  if count < eligible ∧ 0 < count then
    source[count - 1]?.map (continuationCursor · digest order)
  else none

/-- The payload with the first `count` rows. -/
def candidate (count : Nat) : Row F :=
  (payload.set "jobs" (.arr ((project (source.take count) selected).map .obj))).set "page"
    (pageObject eligible count (continuationAfter source digest order eligible count))

/-- It fits the budget of a response. -/
def fits (count : Nat) : Bool :=
  serializedSize (candidate payload source selected digest order eligible count) ≤ maxResponseBytes

/-- The binary search of `fit_payload_page`: `low` is zero or fits. -/
def fitSearch (ok : Nat → Bool) (low high : Nat) : Nat :=
  if low < high then
    let middle := (low + high + 1) / 2
    if ok middle then fitSearch ok middle high else fitSearch ok low (middle - 1)
  else low
termination_by high - low
decreasing_by all_goals omega

/-- How many rows `fit_payload_page` keeps. -/
def fitCount : Except QueryError Nat :=
  let ok := fits payload source selected digest order eligible
  if ok source.length then .ok source.length
  else
    let low := fitSearch ok 0 source.length
    if low = 0 ∧ eligible ≠ 0 then
      .error "one projected job exceeds the ps response byte budget; request fewer fields"
    else if !ok low then .error "ps response metadata exceeds its byte budget"
    else .ok low

end

/-- `fit_payload_page` -/
def fitPayloadPage (payload : Row F) (source : List (Row F)) (selected : List String)
    (digest order : String) : Except QueryError (Row F) :=
  match Row.get payload "page" with
  | .obj page =>
    match Row.get page "eligible" with
    | .int eligible =>
      if eligible < 0 then .error "invalid ps response eligible count"
      else (fitCount payload source selected digest order eligible.toNat).map
        (candidate payload source selected digest order eligible.toNat)
    | _ => .error "invalid ps response eligible count"
  | _ => .error "invalid ps response page"

/-! ## The summary -/

def jobStatuses : List String :=
  ["queued", "running", "finished", "killed", "lost", "failed", "skipped"]

def resultStates : List String := ResultState.all.map ResultState.text

/-- `dict(sorted(Counter(values).items()))` -/
def buckets (values : List String) : Row F :=
  (values.dedup.insertionSort (· ≤ ·)).map fun value => (value, .int (values.count value))

/-- The values of a field that are counted. -/
def countedValues (rows : List (Row F)) (field : String) : List String :=
  rows.filterMap fun row =>
    match Row.get row field with
    | .null => none
    | .str s => if s = "" ∨ s = "-" then none else some s
    | v => some (pyStr v)

/-- `effective_result_state` of a row. -/
def rowResultState (row : Row F) : Option String :=
  let derived :=
    match Row.get row "status" with
    | .str status =>
      if status = "finished" then
        if equalsInt (Row.get row "exit_code") 0 then some "success"
        else match Row.get row "exit_code" with
        | .int _ | .bool _ => some "execution_failure"
        | _ => some "infra_failure"
      else if status = "killed" then some "cancelled"
      else if status = "lost" ∨ status = "failed" then some "infra_failure"
      else if status = "skipped" then some "dependency_skipped"
      else none
    | _ => none
  match Row.get row "result_state" with
  | .str explicit => if explicit ∈ resultStates then some explicit else derived
  | _ => derived

def summarize (rows : List (Row F)) : Row F :=
  [("total", .int rows.length),
    ("by_status", .obj (buckets (countedValues rows "status"))),
    ("by_result_state", .obj (buckets (rows.filterMap rowResultState))),
    ("by_center", .obj (buckets (countedValues rows "center"))),
    ("by_node", .obj (buckets (countedValues rows "node")))]

/-! ## Errors -/

def maxPartialErrors : Nat := 256

/-- `s[:n]` -/
def cut (n : Nat) (s : String) : String := String.ofList (s.toList.take n)

/-- `" ".join(s.split())` -/
def squeeze (s : String) : String := String.ofList (joinWith [' '] (words s.toList))

/-- `key_for` -/
def errorKey (tools : Tools) (raw : String) : String :=
  if 0 < raw.length ∧ raw.length ≤ 256 then raw
  else cut 239 (if raw = "" then "invalid" else raw) ++ ":" ++ cut 16 (tools.sha256 raw)

/-- `result[key] = value` on texts -/
def setText (dict : List (String × String)) (key value : String) : List (String × String) :=
  if key ∈ dict.map Prod.fst then dict.map fun p => if p.1 = key then (key, value) else p
  else dict ++ [(key, value)]

def boundedError (tools : Tools) (result : List (String × String)) (item : String × String) :
    List (String × String) :=
  setText result (errorKey tools (squeeze (tools.sanitizeTerminalText (cut 1024 item.1))))
    (cut 1024 (squeeze (tools.sanitizeTerminalText (tools.redactHomePath (cut 4096 item.2)))))

/-- `while marker in result: marker += "_"`; one step for each key is enough. -/
def freeMarker (keys : List String) : Nat → String → String
  | 0, marker => marker
  | n + 1, marker => if marker ∈ keys then freeMarker keys n (marker ++ "_") else marker

/-- `bounded_errors` -/
def boundedErrors (tools : Tools) (errors : List (String × String)) : List (String × String) :=
  let ordered := errors.insertionSort fun a b => toLex a ≤ toLex b
  let keep := if ordered.length ≤ maxPartialErrors then maxPartialErrors else maxPartialErrors - 1
  let result := (ordered.take keep).foldl (boundedError tools) []
  if keep < ordered.length then
    let marker := freeMarker (result.map Prod.fst) result.length "_dt_errors_omitted"
    setText result (cut 256 marker) (toString (ordered.length - keep) ++ " additional errors omitted")
  else result

/-! ## The payload -/

/-- `query_contract` -/
def queryContract (q : Selection F) (limit : Int) (cursor : Option String) : Row F :=
  [("status", optText q.status), ("active_only", .bool q.activeOnly),
    ("issues_only", .bool q.issuesOnly), ("since", optFloat q.since), ("order", .str orderField),
    ("fields", .arr (if q.summaryOnly then [] else q.fields.map .str)),
    ("limit", if q.summaryOnly then .null else .int limit),
    ("cursor_supplied", .bool cursor.isSome), ("summary_only", .bool q.summaryOnly)]

def schemaVersion : String := "dt_ps_query_v1"

/-- The envelope around a page. -/
def envelope (tools : Tools) (q : Selection F) (r : Request F) (cursor : Option String)
    (page : Json F) (jobs : List (Row F)) : Row F :=
  let failures := boundedErrors tools r.errors
  [("schema_version", .str schemaVersion), ("generated_at", .float r.generatedAt),
    ("center", .str q.center), ("query", .obj (queryContract q r.limit cursor)),
    ("summary", .obj (summarize (filterSince r.rows q.since))), ("page", page),
    ("jobs", .arr (jobs.map .obj)), ("partial", .bool (!failures.isEmpty)),
    ("errors", .obj (failures.map fun p => (p.1, .str p.2)))]

/-- `build_payload` -/
def buildPayload (tools : Tools) (q : Selection F) (r : Request F) (cursor : Option String) :
    Except QueryError (Row F) :=
  let matching := filterSince r.rows q.since
  if q.summaryOnly then
    let payload := envelope tools q r cursor (pageObject matching.length 0 none) []
    if maxResponseBytes < serializedSize payload then
      .error "ps summary exceeds its response byte budget"
    else .ok payload
  else do
    let digest := selectionDigest tools q
    let page ← paginate matching r.limit cursor digest orderField
    fitPayloadPage
      (envelope tools q r cursor (pageObject page.eligible page.rows.length page.nextCursor)
        (project page.rows q.fields))
      page.rows q.fields digest orderField

end Dt.Query
