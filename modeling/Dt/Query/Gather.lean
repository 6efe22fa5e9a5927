import Dt.Query.Contract

/-!
# One page of all centers

The laptop asks every center for a page, checks each answer against the contract, asks the centers
that do not know the query for their whole list instead, and merges what it got into one page with
one cursor. A center whose answer cannot be used is named in the errors.

`fan_json_by_center` delivers for every center an error or a JSON value, which is an object or an
array. How deep a text may nest before `json.loads` raises a `RecursionError` is the interpreter's.
-/

namespace Dt.Query

open Dt.Lib Dt.Jobs

variable {F : Type}

/-- What is raised through `_gather_laptop_ps_query`. -/
inductive Raised where
  | typeError
  | recursionError
  | query (e : QueryError)
  deriving DecidableEq, Repr

/-- What a center answers: an error of the transport, or a value. -/
inductive Reply (F : Type) where
  | error (message : String)
  | json (value : Json F)

/-- The centers in the order of the configuration, with their answers to the query and to a plain
`ps`. -/
structure Fleet (F : Type) where
  centers : List String
  reply : String → Reply F
  legacy : String → Reply F

/-- The cursors whose JSON nests so deep that `json.loads` raises a `RecursionError`; the flat object
of a cursor that a head makes does not. -/
structure Interpreter (F : Type) [FloatText F] where
  deep : String → Bool
  flat : ∀ (key : Key F) (digest order : String), deep (encodeCursor key digest order) = false

/-- What is asked; the center of the selection is not read. `now` and `legacyNow` are the clock, when
the payload is made and when the page of a legacy center is. -/
structure Ask (F : Type) where
  q : Selection F
  limit : Int
  cursor : Option String := none
  now : F
  legacyNow : String → F

/-- `dict.fromkeys` -/
def fromKeys : List String → List String
  | [] => []
  | name :: names => name :: (fromKeys names).filter (· ≠ name)

/-- `sorted(MERGE_FIELDS)` -/
def mergeFields : List String := ["center", "created_at", "display_ref", "job_id", "updated_at"]

def internalFields (selected : List String) : List String := fromKeys (selected ++ mergeFields)

/-- The query that a center is asked. -/
def Ask.selection (ask : Ask F) (center : String) : Selection F :=
  { ask.q with center := center, fields := internalFields ask.q.fields }

def Ask.expectedQuery (ask : Ask F) : Row F :=
  queryContract (ask.selection "") ask.limit ask.cursor

/-- `str.lower`, as far as letters of ASCII come out. -/
def lowerChar (c : Char) : List Char :=
  if c = '\u212A' then ['k'] else if c = '\u0130' then ['i', '\u0307'] else [c.toLower]

/-- `needle in text` -/
def inText (needle text : List Char) : Bool := text.tails.any (needle.isPrefixOf ·)

/-- `unsupported_remote_query` -/
def unsupportedRemoteQuery (message : String) : Bool :=
  let lowered := message.toList.flatMap lowerChar
  (inText "no such option".toList lowered || inText "unknown option".toList lowered) &&
    ["--compact", "--fields", "--summary", "--since", "--cursor"].any fun option =>
      inText option.toList lowered

/-! ## Legacy rows -/

/-- A list and a dict are in no set: looking for one raises a `TypeError`. -/
def unhashable : Json F → Bool
  | .arr _ | .obj _ => true
  | _ => false

section

variable [FloatText F]

/-- `effective_result_state` -/
def effectiveResultState (row : Row F) : Except Raised (Option String) :=
  if !textIn resultStates (Row.get row "result_state") && unhashable (Row.get row "status") then
    .error .typeError
  else .ok (rowResultState row)

/-- `row.setdefault(name, value)` -/
def Row.setDefault (row : Row F) (name : String) (value : Json F) : Row F :=
  if name ∈ row.map Prod.fst then row else row ++ [(name, value)]

/-- A row of a head from before the query, with the fields that the contract has. -/
def legacyRow (center : String) (row : Row F) : Except Raised (Row F) := do
  let row := row.setDefault "center" (.str center)
  let row := row.setDefault "updated_at" (Row.get row "created_at")
  let row := row.setDefault "display_ref" (Row.get row "job_id")
  let state ← effectiveResultState row
  return row.set "result_state" (optText state)

/-- `actionable`, for a status that can be looked up. -/
def actionable (row : Row F) : Bool :=
  match Row.get row "status" with
  | .str status =>
    if status = "failed" || status = "lost" then true
    else if status = "finished" then
      match Row.get row "exit_code" with
      | .null => true
      | exitCode => (asInt exitCode).any (· ≠ 0)
    else if status = "queued" then
      match Row.get row "reason" with
      | .str reason => startsWith reason "blocked:" || inText "unreachable:".toList reason.toList
      | _ => false
    else if status = "running" then
      truth (Row.get row "node_unreachable") || truth (Row.get row "max_hours_exceeded") ||
        match Row.get row "reason" with
        | .str reason => startsWith reason cancelUnverifiedPrefix
        | _ => false
    else false
  | _ => false

/-- The rows that `keep` keeps, when it looks the status up in a set. -/
def filterStatus (keep : Row F → Bool) (rows : List (Row F)) : Except Raised (List (Row F)) :=
  if rows.any fun row => unhashable (Row.get row "status") then .error .typeError
  else .ok (rows.filter keep)

/-- `_ps_issue_rows` -/
def issueRows (rows : List (Row F)) : Except Raised (List (Row F)) := filterStatus actionable rows

/-- The rows that the filter of the query selects. -/
def selectLegacy (q : Selection F) (rows : List (Row F)) : Except Raised (List (Row F)) := do
  let rows ←
    match q.status with
    | some status => .ok (rows.filter fun row => textIn [status] (Row.get row "status"))
    | none =>
      if q.activeOnly then
        filterStatus (fun row => textIn ["queued", "running"] (Row.get row "status")) rows
      else .ok rows
  if q.issuesOnly then issueRows rows else return rows

/-- `isinstance(payload, list) and all(isinstance(row, dict) for row in payload)` -/
def rowArray : Json F → Option (List (Row F))
  | .arr items => items.mapM fun
    | .obj row => some row
    | _ => none
  | _ => none

/-- `_legacy_ps_query_rows` -/
def legacyPsQueryRows (payload : Reply F) (center : String) (q : Selection F) :
    Except Raised (Option (List (Row F))) :=
  match payload with
  | .error _ => .ok none
  | .json value =>
    match rowArray value with
    | none => .ok none
    | some rows => do
      let rows ← rows.mapM (legacyRow center)
      return some (← selectLegacy q rows)

end

/-! ## The answers of the centers -/

/-- What is known of a center: its entries in `data_by_center` and in `fan_errors`. -/
structure CenterState (F : Type) where
  center : String
  data : Option (Json F) := none
  error : Option String := none

/-- `fan_json_by_center` -/
def fanOut (fleet : Fleet F) : List (CenterState F) :=
  fleet.centers.map fun center =>
    match fleet.reply center with
    | .error message => { center, error := some message }
    | .json value => { center, data := some value }

def shortPage : String :=
  "head ps page reached its serialized byte budget; retry with fewer --fields"

def invalidLegacy : String := "invalid legacy ps response from head"

def noIncremental : String :=
  "head does not support incremental ps queries; upgrade it before using --since"

section

variable [FloatText F] (eqInt : F → Int → Bool) (interp : Interpreter F) (tools : Tools)

/-- The errors of `_decode_cursor`. -/
def cursorErrors : List QueryError := [invalidCursor, wrongCursor]

/-- The cursor that `_decode_cursor` refuses in a page: the one that was asked for, or else the next
one. -/
def refusedCursor (ask : Ask F) (payload : Json F) : Option String :=
  let next := match payload with
    | .obj payload =>
      match Row.get payload "page" with
      | .obj page =>
        match Row.get page "next_cursor" with
        | .str next => some next
        | _ => none
      | _ => none
    | _ => none
  match ask.cursor with
  | some cursor =>
    match decodeCursor cursor (queryDigest tools ask.expectedQuery) orderField with
    | .ok (_ : Key F) => next
    | .error _ => some cursor
  | none => next

/-- `validate_payload_contract` for a center -/
def validateCenter (ask : Ask F) (center : String) (payload : Json F) :
    Except QueryError (ValidatedPage F) :=
  validatePayloadContract eqInt tools payload center ask.expectedQuery (internalFields ask.q.fields)
    ask.cursor

/-- A cursor is refused because it nests too deep, for which no `QueryError` is raised. -/
def strained (ask : Ask F) (center : String) (payload : Json F) : Bool :=
  match validateCenter eqInt tools ask center payload with
  | .ok _ => false
  | .error e =>
    !ask.q.summaryOnly && e ∈ cursorErrors && (refusedCursor tools ask payload).any interp.deep

/-- The check of a page: the page, or why it is refused. -/
def checkCenter (ask : Ask F) (center : String) (payload : Json F) :
    Except Raised (Except QueryError (ValidatedPage F)) :=
  if strained eqInt interp tools ask center payload then .error .recursionError
  else .ok (validateCenter eqInt tools ask center payload)

/-- The first pass drops the pages that break the contract; the flag says that it did. -/
def rejectInvalid (ask : Ask F) (s : CenterState F) : Except Raised (CenterState F × Bool) :=
  match s.data with
  | none => .ok (s, false)
  | some payload => do
    match ← checkCenter eqInt interp tools ask s.center payload with
    | .ok _ => return (s, false)
    | .error e => return ({ s with data := none, error := some e }, true)

/-- The centers that are asked again: the ones that do not know the query, then the ones whose page
was dropped. -/
def fallbackCenters (ask : Ask F) (passed : List (CenterState F × Bool)) : List String :=
  let unsupported := (passed.filter fun p => p.1.error.any unsupportedRemoteQuery).map (·.1.center)
  let invalid := (passed.filter (·.2)).map (·.1.center)
  if ask.q.since.isNone then unsupported ++ invalid.filter (· ∉ unsupported) else unsupported

/-- The page that is made from the list of a legacy center. -/
def legacyPage (fleet : Fleet F) (ask : Ask F) (center : String) :
    Except Raised (Option (Row F)) := do
  match ← legacyPsQueryRows (fleet.legacy center) center ask.q with
  | none => return none
  | some rows =>
    let request : Request F := { rows, limit := ask.limit, generatedAt := ask.legacyNow center }
    match buildPayload tools { ask.selection center with since := none } request ask.cursor with
    | .ok payload => return some payload
    | .error e =>
      if e ∈ cursorErrors && ask.cursor.any interp.deep then .error .recursionError
      else .error (.query e)

/-- What the fallback leaves of a center. -/
def afterFallback (fleet : Fleet F) (s : CenterState F) : Option (Row F) → CenterState F
  | some payload => { s with data := some (.obj payload), error := none }
  | none =>
    match fleet.legacy s.center with
    | .error message => { s with error := some message }
    | .json _ => { s with error := some invalidLegacy }

/-- `_ps_query_legacy_fallback`, or the errors of the centers that cannot fall back. -/
def legacyFallback (fleet : Fleet F) (ask : Ask F) (passed : List (CenterState F × Bool)) :
    Except Raised (List (CenterState F)) := do
  let fallback := fallbackCenters ask passed
  if ask.q.since.isNone then
    let pages ← fallback.mapM fun center => do
      return (center, ← legacyPage interp tools fleet ask center)
    return passed.map fun p =>
      match pages.lookup p.1.center with
      | none => p.1
      | some page => afterFallback fleet p.1 page
  else
    return passed.map fun p =>
      if p.1.center ∈ fallback then { p.1 with error := some noIncremental } else p.1

/-- `_ps_query_collect_centers` of one center: a page is taken unless its byte budget cut it. -/
def collectCenter (ask : Ask F) (s : CenterState F) :
    Except Raised (CenterState F × Option (ValidatedPage F)) :=
  match s.data with
  | none => .ok (s, none)
  | some payload => do
    match ← checkCenter eqInt interp tools ask s.center payload with
    | .error e => return ({ s with error := some e }, none)
    | .ok page =>
      if !ask.q.summaryOnly && page.header.returned ≠ min ask.limit page.header.eligible then
        return ({ s with error := some shortPage }, none)
      else return (s, some page)

/-! ## The merge -/

/-- The rows of a page. -/
def ValidatedPage.rows (page : ValidatedPage F) : List (Row F) :=
  page.jobs.filterMap fun
    | .obj row => some row
    | _ => none

/-- `_scope_laptop_ps_refs` of one row. -/
def scopeRef (many : Bool) (row : Row F) : Row F :=
  match Row.get row "center" with
  | .str center =>
    if center = "" then row
    else
      let id := if truth (Row.get row "job_id") then pyStr (Row.get row "job_id") else "?"
      match Row.get row "display_ref" with
      | .str ref =>
        if ref = "" then row.set "display_ref" (.str id)
        else if many then row.set "display_ref" (.str (center ++ ":" ++ ref))
        else row
      | _ => row.set "display_ref" (.str id)
  | _ => row

/-- The errors of a page, under the name of its center. -/
def pageErrors (center : String) (page : ValidatedPage F) : List (String × String) :=
  page.errors.map fun p => (center ++ ":" ++ p.1, match p.2 with
    | .str message => message
    | _ => "")

/-- `dict.update` -/
def updateTexts (dict others : List (String × String)) : List (String × String) :=
  others.foldl (fun dict p => setText dict p.1 p.2) dict

/-- The entries of `fan_errors`. -/
def fanErrors (states : List (CenterState F)) : List (String × String) :=
  states.filterMap fun s => s.error.map fun message => (s.center, message)

/-- What the laptop prints, with the errors of the centers. -/
structure Gathered (F : Type) where
  payload : Row F
  fanErrors : List (String × String)

/-- The envelope of the merged page. -/
def laptopEnvelope (ask : Ask F) (summary : Row F) (eligible : Int) (returned : Nat)
    (nextCursor : Option String) (jobs : List (Row F)) (failures : List (String × String)) : Row F :=
  [("schema_version", .str schemaVersion), ("generated_at", .float ask.now),
    ("center", .str "all"), ("query", .obj (queryContract ask.q ask.limit ask.cursor)),
    ("summary", .obj summary),
    ("page", .obj [("eligible", .int eligible), ("returned", .int returned),
      ("next_cursor", optText nextCursor)]),
    ("jobs", .arr (jobs.map .obj)), ("partial", .bool (!failures.isEmpty)),
    ("errors", .obj (failures.map fun p => (p.1, .str p.2)))]

/-- `page["next_cursor"] = None` -/
def dropCursor (payload : Row F) : Row F :=
  match Row.get payload "page" with
  | .obj page => Row.set payload "page" (.obj (Row.set page "next_cursor" .null))
  | _ => payload

/-- The pages that were taken, by their centers. -/
abbrev Pages (F : Type) := List (String × ValidatedPage F)

/-- The rows of all pages, with their references scoped. -/
def Pages.candidates (pages : Pages F) (many : Bool) : List (Row F) :=
  (pages.flatMap fun p => p.2.rows).map (scopeRef many)

def Pages.eligible (pages : Pages F) : Int := (pages.map fun p => p.2.header.eligible).sum

def Pages.summaries (pages : Pages F) : List (Row F) := pages.map fun p => p.2.summary

def Pages.errors (pages : Pages F) : List (String × String) :=
  updateTexts [] (pages.flatMap fun p => pageErrors p.1 p.2)

/-- The merged summary, and the error of a merge that fails. -/
def mergedSummary (pages : Pages F) (errors : List (String × String)) :
    Row F × List (String × String) :=
  match mergeSummaries pages.summaries with
  | .ok summary => (summary, errors)
  | .error e => (summarize [], setText errors "query" e)

/-- The payload of the merged rows, before it is fitted. -/
def mergedPayload (ask : Ask F) (pages : Pages F) (rows : List (Row F))
    (errors : List (String × String)) : Row F :=
  let merged := mergedSummary pages errors
  let failures := boundedErrors tools (updateTexts pages.errors merged.2)
  let next :=
    if rows.length < pages.eligible then
      rows.getLast?.map (continuationCursor · (selectionDigest tools ask.q) orderField)
    else none
  laptopEnvelope ask merged.1 pages.eligible (if ask.q.summaryOnly then 0 else rows.length)
    (if ask.q.summaryOnly || !failures.isEmpty then none else next)
    (if ask.q.summaryOnly then [] else project rows ask.q.fields) failures

/-- `_gather_laptop_ps_query`, from the pages on. -/
def mergePages (many : Bool) (ask : Ask F) (pages : Pages F) (errors : List (String × String)) :
    Except Raised (Gathered F) :=
  let digest := selectionDigest tools ask.q
  match paginate (pages.candidates many) ask.limit none digest orderField with
  | .error e => .error (.query e)
  | .ok page =>
    let payload := mergedPayload tools ask pages page.rows errors
    let errors := (mergedSummary pages errors).2
    if ask.q.summaryOnly then .ok ⟨payload, errors⟩
    else match fitPayloadPage payload page.rows ask.q.fields digest orderField with
    | .error e => .error (.query e)
    | .ok fitted =>
      let failures := boundedErrors tools (updateTexts pages.errors errors)
      .ok ⟨if failures.isEmpty then fitted else dropCursor fitted, errors⟩

/-- `_gather_laptop_ps_query` -/
def gatherLaptopPsQuery (fleet : Fleet F) (ask : Ask F) : Except Raised (Gathered F) := do
  let passed ← (fanOut fleet).mapM (rejectInvalid eqInt interp tools ask)
  let states ← legacyFallback interp tools fleet ask passed
  let collected ← states.mapM (collectCenter eqInt interp tools ask)
  mergePages tools (1 < fleet.centers.length) ask
    (collected.filterMap fun c => c.2.map fun page => (c.1.center, page))
    (fanErrors (collected.map Prod.fst))

end

end Dt.Query
