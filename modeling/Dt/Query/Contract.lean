import Mathlib
import Dt.Lib.Fallible
import Dt.Query.Paging

/-!
# The contract of a payload

The laptop checks every page of a head before it merges it: the envelope, the query it answers, the
counts of the summary, the page, the projected rows with their order, the cursors, and the errors.
`validatePayloadContract` is that check, in the order of the source. A payload that a head builds
from typed rows of its center passes it.

Python compares a float with an integer exactly; this comparison is a parameter.
-/

namespace Dt.Query

open Dt.Lib Dt.Jobs

variable {F : Type}

def maxSummaryBuckets : Nat := 1024
def maxSummaryKeyLength : Nat := 256
def maxProjectedStringLength : Nat := 8 * 1024 * 1024
def maxProjectedJsonItems : Nat := 4096
def maxProjectedJsonDepth : Nat := 16
def maxJobCollectionItems : Nat := 1024

/-! ## The fields of a row -/

def requiredTextFields : List String :=
  ["job_id", "name", "center", "project", "node", "job_dir", "session", "cmd", "gpu_isolation",
    "status", "display_ref"]

def optionalTextFields : List String :=
  ["git_sha", "snapshot_sha256", "payload_sha256", "artifact_manifest", "require_path", "pin_node",
    "reason", "env_hash", "env_mode", "env_source_job", "boot_id", "setup", "forked_from",
    "after_success", "after_complete", "after_result", "request_id", "result_state", "rerun_of",
    "retry_on", "retry_of", "retried_by", "rerun_source_snapshot_sha256", "cache_source_job",
    "cache_source_job_dir", "cache_source_path", "cache_env", "cache_source_env_hash", "cache_mode",
    "storage_layout", "worker_root", "job_relpath", "queue_head_job_id",
    "queue_predecessor_job_id", "status_probe_error", "log_source", "progress_error",
    "placement_pattern"]

def requiredBoolFields : List String :=
  ["node_local", "git_dirty", "legacy_cleanup_pending", "node_unreachable", "max_hours_exceeded"]

def optionalBoolFields : List String := ["env_preexisting", "setup_ran", "rerun_snapshot_changed"]

def requiredIntFields : List String :=
  ["gpus_requested", "retry_limit", "retry_count", "placement_attempts"]

def optionalIntFields : List String :=
  ["pgid", "exit_code", "min_vram_mib", "max_vram_mib", "max_job_memory_mib", "require_disk_gib",
    "queue_position", "queue_depth", "queue_ahead_count"]

def requiredNumberFields : List String := ["created_at"]

def optionalNumberFields : List String :=
  ["max_hours", "finished_at", "updated_at", "snapshot_duration_s", "launch_duration_s",
    "started_at", "recovered_at", "code_pruned_at", "terminal_finalized_at", "max_hours_overdue_s",
    "placement_first_failed_at", "placement_last_failed_at"]

def textListFields : List String := ["extras", "after_result_states", "custom_env_keys"]
def optionalTextListFields : List String := ["setup_inputs", "exclude_nodes"]
def textMapFields : List String := ["placement_failures", "worker_roots"]
def optionalTextMapFields : List String := ["submodule_commits", "artifact_targets"]
def numberMapFields : List String := ["launch_phases_s"]
def structuredFields : List String := ["progress", "resources"]

/-- `_PROJECTED_CONTRACT_FIELDS`, which are the fields that a query may select. -/
def projectedContractFields : List String :=
  requiredTextFields ++ optionalTextFields ++ requiredBoolFields ++ optionalBoolFields ++
    requiredIntFields ++ optionalIntFields ++ requiredNumberFields ++ optionalNumberFields ++
    textListFields ++ optionalTextListFields ++ textMapFields ++ optionalTextMapFields ++
    numberMapFields ++ structuredFields ++ ["gpus"]

/-- `_bounded_text` -/
def boundedText : Json F → Bool
  | .str s => s.length ≤ maxProjectedStringLength
  | _ => false

def isNull : Json F → Bool
  | .null => true
  | _ => false

def isBool : Json F → Bool
  | .bool _ => true
  | _ => false

/-- `isinstance(value, int) and not isinstance(value, bool) and value >= least` -/
def intFrom (least : Int) : Json F → Bool
  | .int n => least ≤ n
  | _ => false

section

variable [FloatText F]

/-- `_finite_number(value) and value >= 0` -/
def nonNegativeNumber : Json F → Bool
  | .int n => (FloatText.ofInt n : Option F).isSome && 0 ≤ n
  | .float x => FloatText.zero ≤ x
  | _ => false

/-- The loop of `_bounded_json_value` over its stack, for the items that may still be seen. -/
def boundedJsonLoop : Nat → List (Json F × Nat) → Bool
  | _, [] => true
  | 0, _ :: _ => false
  | n + 1, (item, depth) :: stack =>
    if maxProjectedJsonDepth < depth then false
    else match item with
    | .null | .bool _ => boundedJsonLoop n stack
    | .str s => boundedText (.str s : Json F) && boundedJsonLoop n stack
    | .int m => (FloatText.ofInt m : Option F).isSome && boundedJsonLoop n stack
    | .float _ => boundedJsonLoop n stack
    | .nonfinite => false
    | .arr items => boundedJsonLoop n ((items.map fun v => (v, depth + 1)).reverse ++ stack)
    | .obj pairs =>
      (pairs.all fun p => boundedText (.str p.1 : Json F)) &&
        boundedJsonLoop n ((pairs.map fun p => (p.2, depth + 1)).reverse ++ stack)

/-- `_bounded_json_value` -/
def boundedJsonValue (value : Json F) : Bool := boundedJsonLoop maxProjectedJsonItems [(value, 0)]

/-- A list of at most `MAX_JOB_COLLECTION_ITEMS` items. -/
def listOf (ok : Json F → Bool) : Json F → Bool
  | .arr items => items.length ≤ maxJobCollectionItems && items.all ok
  | _ => false

/-- A map of at most `MAX_JOB_COLLECTION_ITEMS` items. -/
def mapOf (ok : Json F → Bool) : Json F → Bool
  | .obj pairs =>
    pairs.length ≤ maxJobCollectionItems &&
      pairs.all fun p => boundedText (.str p.1 : Json F) && ok p.2
  | _ => false

/-- The value is a text of a list. -/
def textIn (texts : List String) : Json F → Bool
  | .str s => s ∈ texts
  | _ => false

/-- `_valid_projected_field` -/
def validProjectedField (name : String) (value : Json F) : Bool :=
  if name ∈ requiredTextFields then
    boundedText value && (name ≠ "status" || textIn jobStatuses value)
  else if name ∈ optionalTextFields then
    isNull value || boundedText value && (name ≠ "result_state" || textIn resultStates value)
  else if name ∈ requiredBoolFields then isBool value
  else if name ∈ optionalBoolFields then isNull value || isBool value
  else if name ∈ requiredIntFields then intFrom 0 value
  else if name ∈ optionalIntFields then
    isNull value || intFrom (if name = "min_vram_mib" then 1 else 0) value
  else if name ∈ requiredNumberFields then nonNegativeNumber value
  else if name ∈ optionalNumberFields then isNull value || nonNegativeNumber value
  else if name = "gpus" then listOf (intFrom 0) value
  else if name ∈ textListFields ∨ name ∈ optionalTextListFields then
    isNull value && name ∈ optionalTextListFields || listOf boundedText value
  else if name ∈ textMapFields ∨ name ∈ optionalTextMapFields then
    isNull value && name ∈ optionalTextMapFields || mapOf boundedText value
  else if name ∈ numberMapFields then mapOf nonNegativeNumber value
  else if name ∈ structuredFields then isNull value || boundedJsonValue value
  else false

end

/-! ## Comparisons -/

section

variable [DecidableEq F] (eqInt : F → Int → Bool)

mutual

/-- `a == b` -/
def pyEq : Json F → Json F → Bool
  | .null, .null => true
  | .bool a, .bool b => a = b
  | .bool a, .int n => (if a then 1 else 0) = n
  | .int n, .bool b => n = if b then 1 else 0
  | .bool a, .float x => eqInt x (if a then 1 else 0)
  | .float x, .bool b => eqInt x (if b then 1 else 0)
  | .int m, .int n => m = n
  | .int m, .float x => eqInt x m
  | .float x, .int n => eqInt x n
  | .float x, .float y => x = y
  | .str s, .str t => s = t
  | .arr xs, .arr ys => pyEqItems xs ys
  | .obj ps, .obj qs => ps.length = qs.length && pyEqPairs ps qs
  | _, _ => false

def pyEqItems : List (Json F) → List (Json F) → Bool
  | [], [] => true
  | x :: xs, y :: ys => pyEq x y && pyEqItems xs ys
  | _, _ => false

/-- Every item of the first dict is in the second one. -/
def pyEqPairs : List (String × Json F) → List (String × Json F) → Bool
  | [], _ => true
  | p :: ps, qs =>
    (match qs.lookup p.1 with
      | some value => pyEq p.2 value
      | none => false) && pyEqPairs ps qs

end

end

/-- `set(row) == {names}` -/
def sameKeys (row : Row F) (names : List String) : Bool :=
  row.map Prod.fst ⊆ names && names ⊆ row.map Prod.fst

/-- `if not ok: raise QueryError(message)` -/
def require (ok : Bool) (message : QueryError) : Except QueryError Unit :=
  if ok then .ok () else .error message

/-! ## The summary -/

def bucketFields : List String := ["by_status", "by_result_state", "by_center", "by_node"]

/-- `as_int` -/
def asInt : Json F → Option Int
  | .int n => some n
  | _ => none

/-- `counter[key] += count` -/
def addCount (counter : List (String × Int)) (p : String × Int) : List (String × Int) :=
  if p.1 ∈ counter.map Prod.fst then
    counter.map fun q => if q.1 = p.1 then (q.1, q.2 + p.2) else q
  else counter ++ [p]

/-- The counts of one bucket field of a summary. -/
def bucketCounts (field : String) (summary : Row F) : Except QueryError (List (String × Int)) :=
  match Row.get summary field with
  | .obj pairs =>
    if maxSummaryBuckets < pairs.length then .error s!"invalid ps summary {field} from head"
    else pairs.mapM fun p =>
      match p.2 with
      | .int n =>
        if p.1 = "" ∨ maxSummaryKeyLength < p.1.length ∨ n < 0 then
          .error s!"invalid ps summary {field} from head"
        else .ok (p.1, n)
      | _ => .error s!"invalid ps summary {field} from head"
  | _ => .error s!"invalid ps summary {field} from head"

/-- One summary added to the total and the counters. -/
def mergeSummary (acc : Int × List (String × List (String × Int))) (summary : Row F) :
    Except QueryError (Int × List (String × List (String × Int))) := do
  match asInt (Row.get summary "total") with
  | none => .error "invalid ps summary total from head"
  | some total =>
    let merged ← acc.2.mapM fun counter => do
      let counts ← bucketCounts counter.1 summary
      return (counter.1, counts.foldl addCount counter.2)
    return (acc.1 + total, merged)

/-- `merge_summaries` -/
def mergeSummaries (values : List (Row F)) : Except QueryError (Row F) := do
  let merged ← values.foldlM mergeSummary (0, bucketFields.map fun field => (field, []))
  return ("total", .int merged.1) :: merged.2.map fun counter =>
    (counter.1, .obj ((counter.2.insertionSort fun a b => a.1 ≤ b.1).map fun p => (p.1, .int p.2)))

/-- `sum(counts.values())` -/
def sumCounts (counts : Row F) : Int := (counts.map fun p => (asInt p.2).getD 0).sum

section

variable [DecidableEq F] (eqInt : F → Int → Bool)

/-- The statuses that are counted are the ones the query asks for. -/
def checkFilters (expectedQuery : Row F) (statuses : List String) : Except QueryError Unit := do
  match Row.get expectedQuery "status" with
  | .str status => require (statuses ⊆ [status]) "ps summary violates its status filter"
  | _ => pure ()
  match Row.get expectedQuery "active_only" with
  | .bool true => require (statuses ⊆ ["queued", "running"]) "ps summary violates its active filter"
  | _ => pure ()

/-- The counts agree with the total. -/
def consistentCounts (center : String) (total : Int) (byStatus byResult byCenter byNode : Row F) :
    Bool :=
  sumCounts byStatus = total &&
    pyEq eqInt (.obj byCenter) (.obj (if total ≠ 0 then [(center, .int total)] else [])) &&
    sumCounts byResult ≤ total && sumCounts byNode ≤ total

/-- The checks of the summary; the total is what the later ones use. -/
def checkSummary (center : String) (expectedQuery summary : Row F) : Except QueryError Int := do
  require (sameKeys summary ("total" :: bucketFields)) "invalid ps query summary from head"
  let _ ← mergeSummaries [summary]
  match asInt (Row.get summary "total"), Row.get summary "by_status",
    Row.get summary "by_result_state", Row.get summary "by_center", Row.get summary "by_node" with
  | some total, .obj byStatus, .obj byResult, .obj byCenter, .obj byNode =>
    require (byStatus.map Prod.fst ⊆ jobStatuses) "invalid ps lifecycle bucket from head"
    require (byResult.map Prod.fst ⊆ resultStates) "invalid ps result bucket from head"
    checkFilters expectedQuery (byStatus.map Prod.fst)
    require (consistentCounts eqInt center total byStatus byResult byCenter byNode)
      "inconsistent ps query summary from head"
    return total
  | _, _, _, _, _ => .error "invalid ps query summary from head"

end

/-! ## The page -/

/-- The counts and the cursor of a page. -/
structure PageHeader where
  eligible : Int
  returned : Int
  nextCursor : Option String

/-- `next_cursor`, when it is None or a text of the right length -/
def headerCursor : Json F → Option (Option String)
  | .null => some none
  | .str c => if c ≠ "" ∧ c.length ≤ maxCursorLength then some (some c) else none
  | _ => none

def checkPage (total : Int) (page : Row F) (jobs : List (Json F)) : Except QueryError PageHeader := do
  require (sameKeys page ["eligible", "returned", "next_cursor"]) "invalid ps query page from head"
  match asInt (Row.get page "eligible"), asInt (Row.get page "returned"),
    headerCursor (Row.get page "next_cursor") with
  | some eligible, some returned, some nextCursor =>
    require (0 ≤ eligible && eligible ≤ total && 0 ≤ returned && returned = jobs.length &&
      returned ≤ eligible) "invalid ps query pagination from head"
    return ⟨eligible, returned, nextCursor⟩
  | _, _, _ => .error "invalid ps query pagination from head"

section

variable [FloatText F]

/-- The checks of one projected row, and its key. -/
def checkRow (center : String) (expectedFields : List String) (job : Json F) :
    Except QueryError (Key F) :=
  match job with
  | .obj row => do
    require (sameKeys row expectedFields) "invalid ps query row projection from head"
    require (row.all fun p => validProjectedField p.1 p.2)
      "invalid ps query projected field from head"
    require (textIn [center] (Row.get row "center")) "ps query rows have the wrong owning center"
    match Row.get row "job_id" with
    | .str id => require (id ≠ "" && id.length ≤ 512) "invalid ps query job identity from head"
    | _ => .error "invalid ps query job identity from head"
    match asNumber (Row.get row "created_at") with
    | some x => require (FloatText.zero ≤ x) "invalid ps query ordering key from head"
    | none => .error "invalid ps query ordering key from head"
    return rowKey row orderField
  | _ => .error "invalid ps query row projection from head"

/-- `selection_digest` of the values of a query -/
def digestOf (tools : Tools) (status since : Json F) (activeOnly issuesOnly : Bool) : String :=
  tools.sha256 (String.ofList ((Json.obj [("active_only", .bool activeOnly),
    ("issues_only", .bool issuesOnly), ("order", .str orderField), ("since", since),
    ("status", status)] : Json F).render .compact))

/-- `value is True` -/
def isTrue : Json F → Bool
  | .bool b => b
  | _ => false

def queryDigest (tools : Tools) (query : Row F) : String :=
  digestOf tools (Row.get query "status") (Row.get query "since")
    (isTrue (Row.get query "active_only")) (isTrue (Row.get query "issues_only"))

/-- Every row of the page is after the cursor that was asked for. -/
def checkAnchor (digest : String) (rowKeys : List (Key F)) : Option String → Except QueryError Unit
  | some cursor => do
    let anchor ← decodeCursor cursor digest orderField
    require (rowKeys.all (· < anchor)) "ps query page does not follow the requested cursor"
  | none => .ok ()

/-- The next cursor is the one of the last row. -/
def checkContinuation (digest : String) (rowKeys : List (Key F)) :
    Option String → Except QueryError Unit
  | some cursor => do
    let continuation ← decodeCursor cursor digest orderField
    require (rowKeys.getLast? = some continuation) "ps query continuation does not match its page"
  | none => .ok ()

def checkCursors (digest : String) (expectedCursor : Option String) (header : PageHeader)
    (rowKeys : List (Key F)) : Except QueryError Unit := do
  checkAnchor digest rowKeys expectedCursor
  checkContinuation digest rowKeys header.nextCursor
  require (!(header.returned < header.eligible && header.nextCursor.isNone))
    "truncated ps query page has no continuation cursor"
  require (!(header.eligible = header.returned && header.nextCursor.isSome))
    "complete ps query page has a continuation cursor"

def checkRows (tools : Tools) (center : String) (expectedQuery : Row F)
    (expectedFields : List String) (expectedCursor : Option String) (header : PageHeader)
    (jobs : List (Json F)) : Except QueryError Unit := do
  match Row.get expectedQuery "limit" with
  | .int limit =>
    require (1 ≤ limit && limit ≤ maxLimit && header.returned ≤ limit)
      "ps query page exceeds its requested limit"
  | _ => .error "ps query page exceeds its requested limit"
  let rowKeys ← jobs.mapM (checkRow center expectedFields)
  require (rowKeys = rowKeys.insertionSort (fun a b => b ≤ a) &&
    rowKeys.length = rowKeys.dedup.length) "ps query rows are not in canonical order"
  checkCursors (queryDigest tools expectedQuery) expectedCursor header rowKeys

/-- A summary has no rows; a page has the rows of its query. -/
def checkBody (tools : Tools) (center : String) (expectedQuery : Row F)
    (expectedFields : List String) (expectedCursor : Option String) (header : PageHeader)
    (jobs : List (Json F)) : Except QueryError Unit :=
  if isTrue (Row.get expectedQuery "summary_only") then
    require (jobs.isEmpty && header.returned = 0 && header.nextCursor.isNone)
      "summary-only ps query returned a page"
  else checkRows tools center expectedQuery expectedFields expectedCursor header jobs

end

/-! ## The errors -/

def errorTexts (errors : Row F) : Bool :=
  errors.length ≤ maxPartialErrors && errors.all fun p =>
    p.1 ≠ "" && p.1.length ≤ 256 &&
      match p.2 with
      | .str value => value.length ≤ 1024
      | _ => false

def checkErrors (payload : Row F) : Except QueryError (Bool × Row F) :=
  match Row.get payload "partial", Row.get payload "errors" with
  | .bool incomplete, .obj errors =>
    if errorTexts errors && incomplete = !errors.isEmpty then .ok (incomplete, errors)
    else .error "invalid ps query error contract from head"
  | _, _ => .error "invalid ps query error contract from head"

/-! ## The whole payload -/

def envelopeKeys : List String :=
  ["schema_version", "generated_at", "center", "query", "summary", "page", "jobs", "partial", "errors"]

/-- `ValidatedPage` -/
structure ValidatedPage (F : Type) where
  payload : Row F
  summary : Row F
  header : PageHeader
  jobs : List (Json F)
  incomplete : Bool
  errors : Row F

section

variable [FloatText F] (eqInt : F → Int → Bool)

/-- `validate_payload_contract` -/
def validatePayloadContract (tools : Tools) (payload : Json F) (center : String)
    (expectedQuery : Row F) (expectedFields : List String) (expectedCursor : Option String) :
    Except QueryError (ValidatedPage F) :=
  match payload with
  | .obj payload => do
    require (sameKeys payload envelopeKeys) "invalid ps query envelope from head"
    require (textIn [schemaVersion] (Row.get payload "schema_version"))
      "unsupported ps query schema from head"
    require (textIn [center] (Row.get payload "center"))
      "ps query response has the wrong owning center"
    require (pyEq eqInt (Row.get payload "query") (.obj expectedQuery))
      "ps query contract does not match the request"
    require ((asNumber (Row.get payload "generated_at")).any (FloatText.zero ≤ ·))
      "invalid ps query generation time from head"
    match Row.get payload "summary" with
    | .obj summary =>
      let total ← checkSummary eqInt center expectedQuery summary
      match Row.get payload "page", Row.get payload "jobs" with
      | .obj page, .arr jobs =>
        let header ← checkPage total page jobs
        checkBody tools center expectedQuery expectedFields expectedCursor header jobs
        let errors ← checkErrors payload
        require (serializedSize payload ≤ maxResponseBytes)
          "ps query response exceeds its byte budget"
        return ⟨payload, summary, header, jobs, errors.1, errors.2⟩
      | _, _ => .error "invalid ps query page from head"
    | _ => .error "invalid ps query summary from head"
  | _ => .error "invalid ps query object from head"

end

theorem boundedText_iff {v : Json F} :
    boundedText v = true ↔ ∃ s, v = .str s ∧ s.length ≤ maxProjectedStringLength := by
  cases v <;> simp [boundedText]

theorem textIn_iff {texts : List String} {v : Json F} :
    textIn texts v = true ↔ ∃ s ∈ texts, v = .str s := by
  cases v <;> simp [textIn]

theorem require_ok {ok : Bool} (h : ok = true) (message : QueryError) : require ok message = .ok () :=
  if_pos h

/-! ## The buckets of a summary -/

theorem mem_keys_buckets {values : List String} {key : String} :
    key ∈ (buckets values : Row F).map Prod.fst ↔ key ∈ values := by
  simp [buckets, Function.comp_def, List.mem_insertionSort]

theorem sumCounts_buckets (values : List String) :
    sumCounts (buckets values : Row F) = values.length := by
  have hperm := (List.perm_insertionSort (· ≤ ·) values.dedup).map fun value => (values.count value : Int)
  have hsum : ((values.dedup.map fun value => values.count value).sum : Int) = values.length := by
    rw [List.sum_map_count_dedup_eq_length]
  calc sumCounts (buckets values : Row F)
      = ((values.dedup.insertionSort (· ≤ ·)).map fun value => (values.count value : Int)).sum := by
        simp [sumCounts, buckets, asInt, Function.comp_def]
    _ = (values.dedup.map fun value => (values.count value : Int)).sum := hperm.sum_eq
    _ = values.length := by
        rw [← hsum, Nat.cast_list_sum, List.map_map]
        rfl

/-- Counts whose keys keep the limits are read. -/
theorem bucketCounts_buckets {field : String} {summary : Row F} {values : List String}
    (hfield : Row.get summary field = .obj (buckets values))
    (hlength : (buckets values : Row F).length ≤ maxSummaryBuckets)
    (hkeys : ∀ value ∈ values, value ≠ "" ∧ value.length ≤ maxSummaryKeyLength) :
    ∃ counts, bucketCounts field summary = .ok counts := by
  unfold bucketCounts
  rw [hfield]
  dsimp only
  rw [if_neg (not_lt.mpr hlength)]
  refine ⟨_, mapM_ok (g := fun p => (p.1, (asInt p.2).getD 0)) fun p hp => ?_⟩
  obtain ⟨value, hvalue, rfl⟩ := List.mem_map.mp hp
  have hmem : value ∈ values := by simpa [List.mem_insertionSort] using hvalue
  obtain ⟨hne, hlen⟩ := hkeys value hmem
  dsimp only
  rw [if_neg]
  · rfl
  · rintro (h | h | h)
    · exact hne h
    · exact absurd h (not_lt.mpr hlen)
    · exact absurd h (by omega)

theorem length_buckets_le (values : List String) {texts : List String}
    (h : ∀ value ∈ values, value ∈ texts) : (buckets values : Row F).length ≤ texts.length := by
  have hsub : values.dedup ⊆ texts := fun value hvalue => h value (List.mem_dedup.mp hvalue)
  have hlen := (values.nodup_dedup.subperm hsub).length_le
  simpa [buckets] using hlen

/-- Counts whose keys are some known texts are read. -/
theorem bucketCounts_of_texts (texts : List String) {field : String} {summary : Row F}
    {values : List String} (hfield : Row.get summary field = .obj (buckets values)) (hvalues : ∀ value ∈ values, value ∈ texts)
    (hlength : texts.length ≤ maxSummaryBuckets)
    (hkeys : ∀ text ∈ texts, text ≠ "" ∧ text.length ≤ maxSummaryKeyLength) :
    ∃ counts, bucketCounts field summary = .ok counts :=
  bucketCounts_buckets hfield ((length_buckets_le values hvalues).trans hlength)
    fun value hvalue => hkeys value (hvalues value hvalue)

/-- The keys of a field that is a text in every row are these texts. -/
theorem countedValues_eq {rows : List (Row F)} {field : String} {text : Row F → String}
    [FloatText F] (h : ∀ row ∈ rows, Row.get row field = .str (text row) ∧ text row ≠ "" ∧
      text row ≠ "-") : countedValues rows field = rows.map text := by
  unfold countedValues
  induction rows with
  | nil => rfl
  | cons row rows ih =>
    obtain ⟨htext, hne, hdash⟩ := h row List.mem_cons_self
    rw [List.filterMap_cons, List.map_cons, ih fun r hr => h r (List.mem_cons_of_mem _ hr), htext]
    simp [hne, hdash]

theorem buckets_replicate {n : Nat} (center : String) :
    (buckets (List.replicate n center) : Row F) = if n ≠ 0 then [(center, .int n)] else [] := by
  by_cases hn : n = 0
  · subst hn
    rfl
  · simp [buckets, List.replicate_dedup hn, hn]

section

variable [FloatText F] {q : Selection F} {rows : List (Row F)}

/-- A row derives one of the known results, or none. -/
theorem rowResultState_mem {row : Row F} {state : String} (h : rowResultState row = some state) :
    state ∈ resultStates := by
  have hmem : ∀ text ∈ ["success", "execution_failure", "infra_failure", "cancelled",
      "dependency_skipped"], text ∈ resultStates := by decide
  have hderived : ∀ derived : Option String, (∀ text ∈ derived, text ∈ resultStates) →
      (match Row.get row "result_state" with
        | .str explicit => if explicit ∈ resultStates then some explicit else derived
        | _ => derived) = some state → state ∈ resultStates := by
    intro derived hd heq
    split at heq
    · split at heq
      · rename_i hin
        exact Option.some.inj heq ▸ hin
      · exact hd state heq
    · exact hd state heq
  refine hderived _ (fun text htext => hmem text ?_) h
  simp only [Option.mem_def] at htext
  split at htext
  · repeat' split at htext
    all_goals first
      | (cases htext; simp)
      | cases htext
  · cases htext

/-- The typed rows of a center that its query selected; `since` is still to be applied. -/
structure CenterRows (q : Selection F) (rows : List (Row F)) : Prop where
  listable : Listable rows
  typed : ∀ row ∈ rows, ∀ name ∈ projectedContractFields,
    validProjectedField name (Row.get row name) = true
  center : ∀ row ∈ rows, Row.get row "center" = .str q.center
  status : ∀ status ∈ q.status, ∀ row ∈ rows, Row.get row "status" = .str status
  active : q.activeOnly = true → ∀ row ∈ rows,
    textIn ["queued", "running"] (Row.get row "status") = true
  nodeBuckets : (buckets (countedValues rows "node") : Row F).length ≤ maxSummaryBuckets
  nodeKeys : ∀ node ∈ countedValues rows "node", node.length ≤ maxSummaryKeyLength

/-- The text of a field. -/
def fieldText (field : String) (row : Row F) : String :=
  match Row.get row field with
  | .str s => s
  | _ => ""

theorem CenterRows.status_text (h : CenterRows q rows) {row : Row F} (hrow : row ∈ rows) :
    Row.get row "status" = .str (fieldText "status" row) ∧ fieldText "status" row ∈ jobStatuses := by
  have htyped := h.typed row hrow "status" (by decide)
  have hin : textIn jobStatuses (Row.get row "status") = true := by
    simp only [validProjectedField] at htyped
    rw [if_pos (by decide)] at htyped
    simpa using (Bool.and_eq_true _ _ ▸ htyped).2
  obtain ⟨s, hs, heq⟩ := textIn_iff.mp hin
  simp [fieldText, heq, hs]

theorem CenterRows.counted_status (h : CenterRows q rows) :
    countedValues rows "status" = rows.map (fieldText "status") := by
  refine countedValues_eq fun row hrow => ?_
  obtain ⟨htext, hmem⟩ := h.status_text hrow
  refine ⟨htext, ?_, ?_⟩
  · rintro hempty
    exact absurd (hempty ▸ hmem) (by decide)
  · rintro hdash
    exact absurd (hdash ▸ hmem) (by decide)

/-- A center has a name that is counted. -/
theorem configId_bounds {center : String} (h : isConfigId center = true) :
    center ≠ "" ∧ center ≠ "-" ∧ center.length ≤ maxSummaryKeyLength := by
  refine ⟨?_, ?_, ?_⟩
  · rintro rfl
    exact absurd h (by decide)
  · rintro rfl
    exact absurd h (by decide)
  · unfold isConfigId classRun at h
    rw [← String.length_toList]
    split at h
    · cases h
    · rename_i c cs hchars
      simp only [Bool.and_eq_true, decide_eq_true_eq] at h
      have hlen := h.2.1.2
      rw [hchars, List.length_cons]
      unfold maxSummaryKeyLength
      omega

theorem CenterRows.counted_center (h : CenterRows q rows) (hcenter : isConfigId q.center = true) :
    countedValues rows "center" = List.replicate rows.length q.center := by
  obtain ⟨hne, hdash, -⟩ := configId_bounds hcenter
  have hcount : countedValues rows "center" = rows.map fun _ => q.center :=
    countedValues_eq fun row hrow => ⟨h.center row hrow, hne, hdash⟩
  rw [hcount, List.map_const']

/-- A node that is counted is not empty. -/
theorem CenterRows.counted_node (h : CenterRows q rows) :
    ∀ node ∈ countedValues rows "node", node ≠ "" := by
  intro node hnode
  obtain ⟨row, hrow, hvalue⟩ := List.mem_filterMap.mp hnode
  have htyped := h.typed row hrow "node" (by decide)
  have htext : boundedText (Row.get row "node") = true := by
    simp only [validProjectedField] at htyped
    rw [if_pos (by decide)] at htyped
    exact (Bool.and_eq_true _ _ ▸ htyped).1
  obtain ⟨s, hs, -⟩ := boundedText_iff.mp htext
  simp only [hs] at hvalue
  split at hvalue
  · cases hvalue
  · rename_i hkept
    rintro rfl
    exact hkept (.inl (Option.some.inj hvalue))

theorem length_countedValues_le (rows : List (Row F)) (field : String) :
    (countedValues rows field).length ≤ rows.length := List.length_filterMap_le _ _

/-- The summary of typed rows keeps the limits of a merge. -/
theorem mergeSummaries_summarize (h : CenterRows q rows) (hcenter : isConfigId q.center = true) :
    ∃ merged, mergeSummaries [summarize rows] = .ok merged := by
  obtain ⟨byStatus, hstatus⟩ : ∃ counts, bucketCounts "by_status" (summarize rows) = .ok counts := by
    refine bucketCounts_of_texts jobStatuses rfl ?_ (by decide) (by decide)
    intro value hvalue
    rw [h.counted_status] at hvalue
    obtain ⟨row, hrow, rfl⟩ := List.mem_map.mp hvalue
    exact (h.status_text hrow).2
  obtain ⟨byResult, hresult⟩ :
      ∃ counts, bucketCounts "by_result_state" (summarize rows) = .ok counts := by
    refine bucketCounts_of_texts resultStates rfl ?_ (by decide) (by decide)
    intro value hvalue
    obtain ⟨row, -, hstate⟩ := List.mem_filterMap.mp hvalue
    exact rowResultState_mem hstate
  obtain ⟨byCenter, hcount⟩ : ∃ counts, bucketCounts "by_center" (summarize rows) = .ok counts := by
    obtain ⟨hne, -, hlen⟩ := configId_bounds hcenter
    refine bucketCounts_of_texts [q.center] rfl ?_ (by simp [maxSummaryBuckets])
      (List.forall_mem_singleton.mpr ⟨hne, hlen⟩)
    intro value hvalue
    rw [h.counted_center hcenter] at hvalue
    exact List.mem_singleton.mpr (List.eq_of_mem_replicate hvalue)
  obtain ⟨byNode, hnode⟩ : ∃ counts, bucketCounts "by_node" (summarize rows) = .ok counts :=
    bucketCounts_buckets rfl h.nodeBuckets fun value hvalue =>
      ⟨h.counted_node value hvalue, h.nodeKeys value hvalue⟩
  have htotal : asInt (Row.get (summarize rows) "total") = some (rows.length : Int) := rfl
  simp only [mergeSummaries, mergeSummary, htotal, bucketFields, List.map_cons, List.map_nil,
    List.foldlM_cons, List.foldlM_nil, List.mapM_cons, List.mapM_nil, hstatus, hresult, hcount, hnode,
    bind, Except.bind, pure, Except.pure]
  exact ⟨_, rfl⟩

/-- The keys of the buckets of the statuses are statuses of the rows. -/
theorem CenterRows.status_keys (h : CenterRows q rows) {texts : List String}
    (htexts : ∀ row ∈ rows, fieldText "status" row ∈ texts) :
    decide ((buckets (countedValues rows "status") : Row F).map Prod.fst ⊆ texts) = true := by
  refine decide_eq_true fun key hkey => ?_
  rw [mem_keys_buckets, h.counted_status] at hkey
  obtain ⟨row, hrow, rfl⟩ := List.mem_map.mp hkey
  exact htexts row hrow

theorem checkFilters_ok (h : CenterRows q rows) (limit : Int) (cursor : Option String) :
    checkFilters (queryContract q limit cursor)
      ((buckets (countedValues rows "status") : Row F).map Prod.fst) = .ok () := by
  have hstatus : Row.get (queryContract q limit cursor) "status" = optText q.status := rfl
  have hactive : Row.get (queryContract q limit cursor) "active_only" = .bool q.activeOnly := rfl
  have hfirst : ∀ status ∈ q.status, ∀ row ∈ rows, fieldText "status" row ∈ [status] := by
    intro status hq row hrow
    rw [List.mem_singleton, fieldText, h.status status hq row hrow]
  have hsecond : q.activeOnly = true → ∀ row ∈ rows, fieldText "status" row ∈ ["queued", "running"] := by
    intro hq row hrow
    obtain ⟨s, hs, heq⟩ := textIn_iff.mp (h.active hq row hrow)
    rwa [fieldText, heq]
  unfold checkFilters
  rw [hstatus, hactive]
  cases hs : q.status with
  | none =>
    cases ha : q.activeOnly with
    | false => rfl
    | true => simp [optText, require_ok (h.status_keys (hsecond ha))]
  | some status =>
    have hone := require_ok (h.status_keys (hfirst status hs)) "ps summary violates its status filter"
    cases ha : q.activeOnly with
    | false => simp [optText, bind, Except.bind, pure, Except.pure, hone]
    | true => simp [optText, bind, Except.bind, hone, require_ok (h.status_keys (hsecond ha))]

theorem consistentCounts_ok (eqInt : F → Int → Bool) (h : CenterRows q rows)
    (hcenter : isConfigId q.center = true) :
    consistentCounts eqInt q.center rows.length (buckets (countedValues rows "status"))
      (buckets (rows.filterMap rowResultState)) (buckets (countedValues rows "center"))
      (buckets (countedValues rows "node")) = true := by
  have hresults := List.length_filterMap_le rowResultState rows
  have hnodes := length_countedValues_le rows "node"
  unfold consistentCounts
  rw [h.counted_center hcenter, buckets_replicate, sumCounts_buckets, sumCounts_buckets,
    sumCounts_buckets, h.counted_status, List.length_map]
  have hcenters : pyEq eqInt (.obj (if rows.length ≠ 0 then [(q.center, .int rows.length)] else []))
      (.obj (if (rows.length : Int) ≠ 0 then [(q.center, .int rows.length)] else [])) = true := by
    by_cases hnone : rows.length = 0
    · simp [hnone, pyEq, pyEqPairs]
    · simp [hnone, pyEq, pyEqPairs]
  simp only [hcenters, decide_true, Bool.true_and, Bool.and_eq_true, decide_eq_true_eq]
  omega

/-- The checks of a summary accept the one of typed rows. -/
theorem checkSummary_summarize (eqInt : F → Int → Bool) (h : CenterRows q rows)
    (hcenter : isConfigId q.center = true) (limit : Int) (cursor : Option String) :
    checkSummary eqInt q.center (queryContract q limit cursor) (summarize rows) =
      .ok (rows.length : Int) := by
  obtain ⟨merged, hmerged⟩ := mergeSummaries_summarize h hcenter
  have hkeys : sameKeys (summarize rows) ("total" :: bucketFields) = true := by
    simp [sameKeys, summarize, bucketFields]
  have hresults : decide ((buckets (rows.filterMap rowResultState) : Row F).map Prod.fst ⊆
      resultStates) = true := by
    refine decide_eq_true fun key hkey => ?_
    obtain ⟨row, -, hstate⟩ := List.mem_filterMap.mp (mem_keys_buckets.mp hkey)
    exact rowResultState_mem hstate
  have hall := h.status_keys fun row hrow => (h.status_text hrow).2
  have htotal : asInt (Row.get (summarize rows) "total") = some (rows.length : Int) := rfl
  have hstatus : Row.get (summarize rows) "by_status" =
    .obj (buckets (countedValues rows "status")) := rfl
  have hresult : Row.get (summarize rows) "by_result_state" =
    .obj (buckets (rows.filterMap rowResultState)) := rfl
  have hcenters : Row.get (summarize rows) "by_center" =
    .obj (buckets (countedValues rows "center")) := rfl
  have hnode : Row.get (summarize rows) "by_node" = .obj (buckets (countedValues rows "node")) := rfl
  unfold checkSummary
  simp only [hmerged, htotal, hstatus, hresult, hcenters, hnode, bind, Except.bind, require_ok hkeys,
    require_ok hall, require_ok hresults, checkFilters_ok h limit cursor,
    require_ok (consistentCounts_ok eqInt h hcenter)]
  rfl

end

/-! ## The errors are bounded -/

/-- An error that the contract accepts. -/
def BoundedError (p : String × String) : Prop :=
  p.1 ≠ "" ∧ p.1.length ≤ 256 ∧ p.2.length ≤ 1024

theorem length_cut_le (n : Nat) (s : String) : (cut n s).length ≤ n := by
  rw [← String.length_toList]
  simp [cut]

theorem cut_ne_empty {n : Nat} (hn : 0 < n) {s : String} (hs : s ≠ "") : cut n s ≠ "" := by
  intro h
  have hchars : s.toList.take n = [] := by
    rw [← String.toList_ofList (l := s.toList.take n)]
    exact congrArg String.toList h
  rcases List.take_eq_nil_iff.mp hchars with h0 | h0
  · exact absurd h0 hn.ne'
  · exact hs (String.toList_inj.mp h0)

theorem mem_setText {dict : List (String × String)} {key value : String} {p : String × String}
    (h : p ∈ setText dict key value) : p ∈ dict ∨ p = (key, value) := by
  unfold setText at h
  split at h
  · obtain ⟨q, hq, rfl⟩ := List.mem_map.mp h
    split
    · exact .inr rfl
    · exact .inl hq
  · simpa using h

theorem length_setText_le (dict : List (String × String)) (key value : String) :
    (setText dict key value).length ≤ dict.length + 1 := by
  unfold setText
  split
  · simp
  · simp

theorem errorKey_bounds (tools : Tools) (raw : String) :
    errorKey tools raw ≠ "" ∧ (errorKey tools raw).length ≤ 256 := by
  unfold errorKey
  split
  · rename_i h
    refine ⟨?_, h.2⟩
    rintro rfl
    exact absurd h.1 (by decide)
  · have hsplit := length_cut_le 239 (if raw = "" then "invalid" else raw)
    have hdigest := length_cut_le 16 (tools.sha256 raw)
    have hcolon : (":" : String).length = 1 := rfl
    refine ⟨?_, ?_⟩
    · intro h
      have := congrArg String.length h
      simp [String.length_append] at this
    · rw [String.length_append, String.length_append, hcolon]
      omega

theorem boundedError_fold (tools : Tools) (items result : List (String × String))
    (h : ∀ p ∈ result, BoundedError p) :
    (items.foldl (boundedError tools) result).length ≤ result.length + items.length ∧
      ∀ p ∈ items.foldl (boundedError tools) result, BoundedError p := by
  induction items generalizing result with
  | nil => exact ⟨le_rfl, h⟩
  | cons item items ih =>
    have hstep : ∀ p ∈ boundedError tools result item, BoundedError p := by
      intro p hp
      rcases mem_setText hp with hp | rfl
      · exact h p hp
      · have hkey := errorKey_bounds tools (squeeze (tools.sanitizeTerminalText (cut 1024 item.1)))
        dsimp only [BoundedError]
        exact ⟨hkey.1, hkey.2, length_cut_le 1024 _⟩
    obtain ⟨hlength, hall⟩ := ih _ hstep
    have hone : (boundedError tools result item).length ≤ result.length + 1 :=
      length_setText_le _ _ _
    refine ⟨?_, hall⟩
    simp only [List.foldl_cons, List.length_cons]
    omega

theorem freeMarker_ne_empty (keys : List String) (n : Nat) {marker : String} (h : marker ≠ "") :
    freeMarker keys n marker ≠ "" := by
  induction n generalizing marker with
  | zero => exact h
  | succ n ih =>
    unfold freeMarker
    split
    · refine ih fun happend => ?_
      have := congrArg String.length happend
      simp [String.length_append] at this
    · exact h

/-- The errors of a payload keep the bounds of the contract. -/
theorem boundedErrors_spec (tools : Tools) {errors : List (String × String)}
    (hfew : errors.length < 2 ^ 63) :
    (boundedErrors tools errors).length ≤ maxPartialErrors ∧
      ∀ p ∈ boundedErrors tools errors, BoundedError p := by
  unfold boundedErrors
  dsimp only
  generalize hordered : errors.insertionSort (fun a b => toLex a ≤ toLex b) = ordered
  have hlength : ordered.length = errors.length := by
    rw [← hordered, List.length_insertionSort]
  generalize hkeep : (if ordered.length ≤ maxPartialErrors then maxPartialErrors
    else maxPartialErrors - 1) = keep
  obtain ⟨hshort, hall⟩ := boundedError_fold tools (ordered.take keep) []
    fun p hp => absurd hp List.not_mem_nil
  rw [List.length_take, List.length_nil] at hshort
  split
  · rename_i homitted
    have hmax : keep + 1 = maxPartialErrors := by
      unfold maxPartialErrors at hkeep ⊢
      split at hkeep
      · omega
      · omega
    constructor
    · refine (length_setText_le _ _ _).trans ?_
      omega
    · intro p hp
      rcases mem_setText hp with hp | rfl
      · exact hall p hp
      · refine ⟨cut_ne_empty (by decide) (freeMarker_ne_empty _ _ (by decide)), length_cut_le _ _, ?_⟩
        have hdigits : (toString (ordered.length - keep)).length ≤ 20 := by
          refine Nat.repr_length _ 20 (by decide) ?_
          omega
        have htext : (" additional errors omitted" : String).length = 26 := rfl
        rw [String.length_append, htext]
        omega
  · refine ⟨?_, hall⟩
    unfold maxPartialErrors at hkeep ⊢
    split at hkeep
    · omega
    · omega

theorem errorTexts_boundedErrors (tools : Tools) {errors : List (String × String)}
    (hfew : errors.length < 2 ^ 63) :
    errorTexts ((boundedErrors tools errors).map fun p => (p.1, (.str p.2 : Json F))) = true := by
  obtain ⟨hlength, hall⟩ := boundedErrors_spec tools hfew
  simp only [errorTexts, List.length_map, List.all_map, Bool.and_eq_true, decide_eq_true_eq,
    List.all_eq_true, Function.comp_apply]
  refine ⟨hlength, fun p hp => ?_⟩
  obtain ⟨hne, hkey, hvalue⟩ := hall p hp
  exact ⟨⟨hne, hkey⟩, hvalue⟩

/-! ## The page is accepted -/

theorem checkPage_ok {total eligible count : Nat} {next : Option String} {jobs : List (Json F)}
    (htotal : eligible ≤ total) (hcount : count ≤ eligible) (hjobs : jobs.length = count)
    (hnext : ∀ c ∈ next, c ≠ "" ∧ c.length ≤ maxCursorLength) :
    checkPage total [("eligible", .int eligible), ("returned", .int count),
      ("next_cursor", optText next)] jobs = .ok ⟨eligible, count, next⟩ := by
  have hcursor : headerCursor (optText next : Json F) = some next := by
    cases next with
    | none => rfl
    | some c => exact if_pos (hnext c rfl)
  have hkeys : sameKeys ([("eligible", .int eligible), ("returned", .int count),
      ("next_cursor", optText next)] : Row F) ["eligible", "returned", "next_cursor"] = true := by
    simp [sameKeys]
  have hcounts : (decide (0 ≤ (eligible : Int)) && decide ((eligible : Int) ≤ total) &&
      decide (0 ≤ (count : Int)) && decide ((count : Int) = jobs.length) &&
      decide ((count : Int) ≤ eligible)) = true := by
    simp only [Bool.and_eq_true, decide_eq_true_eq]
    omega
  have heligible : asInt (Row.get ([("eligible", .int eligible), ("returned", .int count),
      ("next_cursor", optText next)] : Row F) "eligible") = some (eligible : Int) := rfl
  have hreturned : asInt (Row.get ([("eligible", .int eligible), ("returned", .int count),
      ("next_cursor", optText next)] : Row F) "returned") = some (count : Int) := rfl
  have hnextCursor : Row.get ([("eligible", .int eligible), ("returned", .int count),
      ("next_cursor", optText next)] : Row F) "next_cursor" = optText next := rfl
  unfold checkPage
  simp only [require_ok hkeys, heligible, hreturned, hnextCursor, hcursor, bind, Except.bind,
    require_ok hcounts]
  rfl

section

variable [FloatText F] {tools : Tools} {q : Selection F} {r : Request F} {cursor : Option String}
  {anchor : Option (Key F)} {s : Served F} {rows : List (Row F)}

omit [FloatText F] in
theorem get_projectRow {row : Row F} {selected : List String} {name : String} (h : name ∈ selected) :
    Row.get (projectRow row selected) name = Row.get row name := by
  unfold projectRow Row.get
  induction selected with
  | nil => cases h
  | cons other rest ih =>
    rw [List.map_cons, List.lookup_cons]
    by_cases hname : name = other
    · subst hname
      simp
    · have hbeq : (name == other) = false := by simpa using hname
      rw [hbeq]
      exact ih ((List.mem_cons.mp h).resolve_left hname)

theorem rowKey_projectRow {row : Row F} {selected : List String} (hid : "job_id" ∈ selected)
    (hcreated : "created_at" ∈ selected) :
    rowKey (projectRow row selected) orderField = listKey row := by
  simp only [listKey, rowKey, rowTimestamp, orderField, get_projectRow hid, get_projectRow hcreated]

/-- The fields of a query that a laptop sends. -/
structure MergeFields (fields : List String) : Prop where
  known : ∀ name ∈ fields, name ∈ projectedContractFields
  center : "center" ∈ fields
  jobId : "job_id" ∈ fields
  createdAt : "created_at" ∈ fields

/-- A projected row is accepted with the key of the row. -/
theorem checkRow_project (h : CenterRows q rows) (hfields : MergeFields q.fields)
    (hfloat : ∀ (n : Int) (x : F), 0 ≤ n → FloatText.ofInt n = some x → FloatText.zero ≤ x)
    {row : Row F} (hrow : row ∈ rows) :
    checkRow q.center q.fields (.obj (projectRow row q.fields)) = .ok (listKey row) := by
  have hkeys : sameKeys (projectRow row q.fields) q.fields = true := by
    simp [sameKeys, projectRow, Function.comp_def]
  have hvalid : ((projectRow row q.fields).all fun p => validProjectedField p.1 p.2) = true := by
    rw [List.all_eq_true]
    intro p hp
    obtain ⟨name, hname, rfl⟩ := List.mem_map.mp hp
    exact h.typed row hrow name (hfields.known name hname)
  have hcenter : textIn [q.center] (Row.get (projectRow row q.fields) "center") = true := by
    rw [get_projectRow hfields.center, h.center row hrow]
    simp [textIn]
  obtain ⟨id, hid, hvalidId⟩ := h.listable.ids row hrow
  obtain ⟨hpos, hlen, -⟩ := length_validJobId hvalidId
  have hidentity : (decide (id ≠ "") && decide (id.length ≤ 512)) = true := by
    simp only [Bool.and_eq_true, decide_eq_true_eq]
    refine ⟨?_, by omega⟩
    rintro rfl
    exact absurd hpos (by decide)
  have hcreated := h.typed row hrow "created_at" (by decide)
  have htime : ∃ x, asNumber (Row.get row "created_at") = some x ∧ FloatText.zero ≤ x := by
    have hnumber : nonNegativeNumber (Row.get row "created_at") = true := by
      simpa [validProjectedField, requiredTextFields, optionalTextFields, requiredBoolFields,
        optionalBoolFields, requiredIntFields, optionalIntFields, requiredNumberFields] using hcreated
    cases hvalue : Row.get row "created_at" with
    | int n =>
      simp only [hvalue, nonNegativeNumber, Bool.and_eq_true, decide_eq_true_eq] at hnumber
      obtain ⟨x, hx⟩ := Option.isSome_iff_exists.mp hnumber.1
      exact ⟨x, hx, hfloat n x hnumber.2 hx⟩
    | float x =>
      simp only [hvalue, nonNegativeNumber, decide_eq_true_eq] at hnumber
      exact ⟨x, rfl, hnumber⟩
    | null => simp [hvalue, nonNegativeNumber] at hnumber
    | bool b => simp [hvalue, nonNegativeNumber] at hnumber
    | nonfinite => simp [hvalue, nonNegativeNumber] at hnumber
    | str t => simp [hvalue, nonNegativeNumber] at hnumber
    | arr items => simp [hvalue, nonNegativeNumber] at hnumber
    | obj pairs => simp [hvalue, nonNegativeNumber] at hnumber
  obtain ⟨x, hx, hnonneg⟩ := htime
  unfold checkRow
  simp only [require_ok hkeys, require_ok hvalid, require_ok hcenter, bind, Except.bind,
    get_projectRow hfields.jobId, hid, require_ok hidentity, get_projectRow hfields.createdAt, hx,
    require_ok (decide_eq_true hnonneg), rowKey_projectRow hfields.jobId hfields.createdAt]
  rfl

theorem pyEq_optText (eqInt : F → Int → Bool) (t : Option String) :
    pyEq eqInt (optText t) (optText t) = true := by
  cases t with
  | none => rfl
  | some t => simp [optText, pyEq]

theorem pyEqItems_texts (eqInt : F → Int → Bool) (texts : List String) :
    pyEqItems eqInt (texts.map .str) (texts.map .str) = true := by
  induction texts with
  | nil => rfl
  | cons t texts ih => simp [pyEqItems, pyEq, ih]

/-- The query of a payload equals the one that was sent. -/
theorem pyEq_queryContract (eqInt : F → Int → Bool) (q : Selection F) (limit : Int)
    (cursor : Option String) :
    pyEq eqInt (.obj (queryContract q limit cursor)) (.obj (queryContract q limit cursor)) = true := by
  have hsince : pyEq eqInt (optFloat q.since) (optFloat q.since) = true := by
    cases q.since with
    | none => rfl
    | some x => simp [optFloat, pyEq]
  have hfields : pyEqItems eqInt (if q.summaryOnly then [] else q.fields.map .str)
      (if q.summaryOnly then [] else q.fields.map .str) = true := by
    cases q.summaryOnly with
    | true => rfl
    | false => simp [pyEqItems_texts]
  have hlimit : pyEq eqInt (if q.summaryOnly then .null else .int limit)
      (if q.summaryOnly then .null else .int limit) = true := by
    cases q.summaryOnly with
    | true => rfl
    | false => simp [pyEq]
  simp only [queryContract, pyEq, pyEqPairs, List.lookup_cons]
  simp [pyEq_optText, hsince, hfields, hlimit]

/-- An envelope passes when its page and its rows do. -/
theorem validate_envelope (eqInt : F → Int → Bool) (h : CenterRows q (matching q r))
    (hcenter : isConfigId q.center = true) (htime : FloatText.zero ≤ r.generatedAt)
    (herrors : r.errors.length < 2 ^ 63) {eligible count : Nat} {next : Option String}
    {jobs : List (Row F)} (heligible : eligible ≤ (matching q r).length) (hcount : count ≤ eligible)
    (hjobs : jobs.length = count) (hnext : ∀ c ∈ next, c ≠ "" ∧ c.length ≤ maxCursorLength)
    (hbody : checkBody tools q.center (queryContract q r.limit cursor) q.fields cursor
      ⟨eligible, count, next⟩ (jobs.map .obj) = .ok ())
    (hsize : serializedSize (envelope tools q r cursor (pageObject eligible count next) jobs) ≤
      maxResponseBytes) :
    ∃ page, validatePayloadContract eqInt tools
        (.obj (envelope tools q r cursor (pageObject eligible count next) jobs)) q.center
        (queryContract q r.limit cursor) q.fields cursor = .ok page ∧
      page.header = ⟨eligible, count, next⟩ ∧ page.jobs = jobs.map .obj := by
  generalize hpayload : envelope tools q r cursor (pageObject eligible count next) jobs = payload
  rw [hpayload] at hsize
  have hkeys : sameKeys payload envelopeKeys = true := by
    rw [← hpayload]
    simp [sameKeys, envelope, envelopeKeys]
  have hschema : textIn [schemaVersion] (Row.get payload "schema_version") = true := by
    rw [← hpayload]
    rfl
  have howner : textIn [q.center] (Row.get payload "center") = true := by
    rw [← hpayload]
    exact decide_eq_true (List.mem_singleton_self _)
  have hquery : Row.get payload "query" = .obj (queryContract q r.limit cursor) := hpayload ▸ rfl
  have hgenerated : (asNumber (Row.get payload "generated_at")).any (FloatText.zero ≤ ·) = true := by
    rw [← hpayload]
    exact decide_eq_true htime
  have hsummary : Row.get payload "summary" = .obj (summarize (matching q r)) := hpayload ▸ rfl
  have hpage : Row.get payload "page" = .obj [("eligible", .int eligible), ("returned", .int count),
      ("next_cursor", optText next)] := hpayload ▸ rfl
  have hlist : Row.get payload "jobs" = .arr (jobs.map .obj) := hpayload ▸ rfl
  have hpart : checkErrors payload = .ok (!(boundedErrors tools r.errors).isEmpty,
      (boundedErrors tools r.errors).map fun p => (p.1, .str p.2)) := by
    have hbool : Row.get payload "partial" = .bool (!(boundedErrors tools r.errors).isEmpty) :=
      hpayload ▸ rfl
    have hobj : Row.get payload "errors" =
        .obj ((boundedErrors tools r.errors).map fun p => (p.1, .str p.2)) := hpayload ▸ rfl
    unfold checkErrors
    rw [hbool, hobj]
    dsimp only
    rw [errorTexts_boundedErrors tools herrors, List.isEmpty_map, Bool.true_and,
      if_pos (decide_eq_true rfl)]
  refine ⟨⟨payload, summarize (matching q r), ⟨eligible, count, next⟩, jobs.map .obj,
    !(boundedErrors tools r.errors).isEmpty,
    (boundedErrors tools r.errors).map fun p => (p.1, .str p.2)⟩, ?_, rfl, rfl⟩
  unfold validatePayloadContract
  simp only [require_ok hkeys, require_ok hschema, require_ok howner, hquery, hgenerated, hsummary,
    hpage, hlist, bind, Except.bind, require_ok (pyEq_queryContract eqInt q r.limit cursor),
    require_ok rfl, checkSummary_summarize eqInt h hcenter,
    checkPage_ok heligible hcount ((List.length_map _).trans hjobs) hnext, hbody, hpart,
    require_ok (decide_eq_true hsize)]
  rfl

/-- A page that was served had a cursor of its query. -/
theorem cursorAt_of_serve (h : serve tools q r cursor = .ok s) :
    ∃ anchor, CursorAt tools q cursor anchor := by
  cases cursor with
  | none => exact ⟨none, trivial⟩
  | some c =>
    cases hdecode : (decodeCursor c (selectionDigest tools q) orderField : Except QueryError (Key F)) with
    | ok key => exact ⟨some key, hdecode⟩
    | error e =>
      unfold serve paginate rowsAfter at h
      simp only [hdecode, bind, Except.bind] at h
      split at h
      · cases h
      · rename_i hpage
        split at hpage
        · cases hpage
        · cases hpage

theorem queryDigest_queryContract (tools : Tools) (q : Selection F) (limit : Int)
    (cursor : Option String) :
    queryDigest tools (queryContract q limit cursor) = selectionDigest tools q := rfl

/-- The cursors of a served page stand at its two ends. -/
theorem checkCursors_serve (hcursor : CursorAt tools q cursor anchor)
    (hlist : Listable (matching q r)) (hserve : serve tools q r cursor = .ok s) :
    checkCursors (selectionDigest tools q) cursor
      ⟨(after listKey (matching q r) anchor).length, s.rows.length, s.nextCursor⟩
      (s.rows.map listKey) = .ok () := by
  obtain ⟨tail, heq, hnext⟩ := serve_ok hcursor hserve
  have hlength : (after listKey (matching q r) anchor).length = s.rows.length + tail.length := by
    rw [heq, List.length_append]
  have hanchor : checkAnchor (selectionDigest tools q) (s.rows.map listKey) cursor = .ok () := by
    cases cursor with
    | none => rfl
    | some c =>
      cases anchor with
      | none => exact absurd hcursor id
      | some key =>
        have hdecode : decodeCursor c (selectionDigest tools q) orderField = .ok key := hcursor
        simp only [checkAnchor, hdecode, bind, Except.bind]
        refine require_ok ?_ _
        rw [List.all_eq_true]
        intro k hk
        obtain ⟨row, hrow, rfl⟩ := List.mem_map.mp hk
        have hbelow := (mem_after.mp (heq ▸ List.mem_append_left tail hrow)).2
        simpa [isBelow] using hbelow
  have hcontinue : checkContinuation (selectionDigest tools q) (s.rows.map listKey) s.nextCursor =
      .ok () := by
    rcases hnext with ⟨-, hnone⟩ | ⟨-, row, hlast, hsome⟩
    · rw [hnone]
      rfl
    · have hrow : row ∈ matching q r :=
        (mem_after.mp (heq ▸ List.mem_append_left tail (List.mem_of_getLast? hlast))).1
      have hdecode : decodeCursor (continuationCursor row (selectionDigest tools q) orderField)
          (selectionDigest tools q) orderField = .ok (listKey row) := cursorAt_continuation hlist hrow
      rw [hsome]
      simp only [checkContinuation, hdecode, bind, Except.bind]
      refine require_ok (decide_eq_true ?_) _
      rw [List.getLast?_map, hlast, Option.map_some]
  have hflags : (!(decide ((s.rows.length : Int) < (after listKey (matching q r) anchor).length) &&
        s.nextCursor.isNone)) = true ∧
      (!(decide (((after listKey (matching q r) anchor).length : Int) = s.rows.length) &&
        s.nextCursor.isSome)) = true := by
    rcases hnext with ⟨rfl, hnone⟩ | ⟨htail, row, -, hsome⟩
    · simp [hnone, hlength]
    · have hpos := List.length_pos_iff.mpr htail
      simp only [hsome, hlength, Option.isNone_some, Bool.and_false, Bool.not_false, true_and,
        Option.isSome_some, Bool.and_true, Bool.not_eq_true', decide_eq_false_iff_not]
      omega
  unfold checkCursors
  simp only [hanchor, hcontinue, require_ok hflags.1, require_ok hflags.2, bind, Except.bind]

/-- The rows of a served page are accepted. -/
theorem checkRows_serve (h : CenterRows q (matching q r)) (hfields : MergeFields q.fields)
    (hfloat : ∀ (n : Int) (x : F), 0 ≤ n → FloatText.ofInt n = some x → FloatText.zero ≤ x)
    (hq : q.summaryOnly = false) (hcursor : CursorAt tools q cursor anchor)
    (hserve : serve tools q r cursor = .ok s) :
    checkRows tools q.center (queryContract q r.limit cursor) q.fields cursor
      ⟨(after listKey (matching q r) anchor).length, s.rows.length, s.nextCursor⟩
      ((project s.rows q.fields).map .obj) = .ok () := by
  obtain ⟨tail, heq, -⟩ := serve_ok hcursor hserve
  obtain ⟨page, jobs, count, ⟨hpos, hmax⟩, hcount, hs⟩ := serve_cases hcursor hserve
  have hshort : s.rows.length ≤ r.limit.toNat := by
    rw [hs]
    simp only [List.length_take]
    omega
  have hlimit : Row.get (queryContract q r.limit cursor) "limit" = .int r.limit := by
    have hget : Row.get (queryContract q r.limit cursor) "limit" =
      if q.summaryOnly then .null else .int r.limit := rfl
    rw [hget, hq]
    rfl
  have hbounds : (decide (1 ≤ r.limit) && decide (r.limit ≤ maxLimit) &&
      decide ((s.rows.length : Int) ≤ r.limit)) = true := by
    simp only [Bool.and_eq_true, decide_eq_true_eq]
    omega
  have hrows : ((project s.rows q.fields).map .obj).mapM (checkRow q.center q.fields) =
      .ok (s.rows.map listKey) := by
    rw [project, List.map_map, List.mapM_map]
    refine mapM_ok fun row hrow => checkRow_project h hfields hfloat ?_
    exact (mem_after.mp (heq ▸ List.mem_append_left tail hrow)).1
  have hfall : (s.rows.map listKey).Pairwise fun a b => b < a := by
    have hall := @pairwise_after (Row F) (Key F) _ listKey (matching q r) anchor h.listable.nodup
    rw [heq] at hall
    exact List.pairwise_map.mpr (List.pairwise_append.mp hall).1
  have hsorted : (s.rows.map listKey).insertionSort (fun a b => b ≤ a) = s.rows.map listKey :=
    List.Pairwise.insertionSort_eq (hfall.imp le_of_lt)
  have hnodup : (s.rows.map listKey).dedup = s.rows.map listKey :=
    List.Nodup.dedup (hfall.imp fun hlt => hlt.ne')
  have hcursors := checkCursors_serve hcursor h.listable hserve
  unfold checkRows
  simp only [hlimit, require_ok hbounds, hrows, bind, Except.bind, hsorted, hnodup, decide_true,
    Bool.and_self, require_ok rfl, queryDigest_queryContract, hcursors]

/-- The payload of a served page, and its size. -/
theorem serve_envelope (hcursor : CursorAt tools q cursor anchor)
    (hserve : serve tools q r cursor = .ok s) :
    s.payload = envelope tools q r cursor (pageObject (after listKey (matching q r) anchor).length
        s.rows.length s.nextCursor) (project s.rows q.fields) ∧
      serializedSize s.payload ≤ maxResponseBytes := by
  obtain ⟨page, jobs, count, -, hcount, rfl⟩ := serve_cases hcursor hserve
  obtain ⟨hle, hfits, -⟩ := fitCount_spec hcount
  refine ⟨?_, of_decide_eq_true hfits⟩
  rw [candidate_envelope, List.length_take_of_le hle]

theorem decodeCursor_bounds {value digest order : String} {key : Key F}
    (h : decodeCursor value digest order = .ok key) : value ≠ "" ∧ value.length ≤ maxCursorLength := by
  unfold decodeCursor at h
  split at h
  · cases h
  · rename_i hgate
    simpa using hgate

/-- The next cursor of a served page can be sent. -/
theorem nextCursor_bounds (hcursor : CursorAt tools q cursor anchor)
    (hlist : Listable (matching q r)) (hserve : serve tools q r cursor = .ok s) :
    ∀ c ∈ s.nextCursor, c ≠ "" ∧ c.length ≤ maxCursorLength := by
  obtain ⟨tail, heq, hnext⟩ := serve_ok hcursor hserve
  rintro c hc
  rcases hnext with ⟨-, hnone⟩ | ⟨-, row, hlast, hsome⟩
  · rw [hnone] at hc
    cases hc
  · have hrow : row ∈ matching q r :=
      (mem_after.mp (heq ▸ List.mem_append_left tail (List.mem_of_getLast? hlast))).1
    have hdecode : decodeCursor (continuationCursor row (selectionDigest tools q) orderField)
        (selectionDigest tools q) orderField = .ok (listKey row) := cursorAt_continuation hlist hrow
    obtain rfl := Option.some.inj (hsome ▸ hc : some _ = some c)
    exact decodeCursor_bounds hdecode

/-! ## What a head builds is accepted -/

/-- The payload of a head for typed rows of its center passes the contract for the query that it
answers. Within the limits, and with a cursor of the query, a head refuses a page only for the byte
budget. -/
theorem buildPayload_accepted (tools : Tools) (eqInt : F → Int → Bool)
    (hfloat : ∀ (n : Int) (x : F), 0 ≤ n → FloatText.ofInt n = some x → FloatText.zero ≤ x)
    (q : Selection F) (r : Request F) (cursor : Option String) (h : CenterRows q (matching q r))
    (hcenter : isConfigId q.center = true) (hfields : MergeFields q.fields)
    (htime : FloatText.zero ≤ r.generatedAt) (herrors : r.errors.length < 2 ^ 63) :
    (∀ payload, buildPayload tools q r cursor = .ok payload →
      ∃ page, validatePayloadContract eqInt tools (.obj payload) q.center
        (queryContract q r.limit cursor) q.fields cursor = .ok page) ∧
    ∀ anchor, CursorAt tools q cursor anchor → 1 ≤ r.limit → r.limit ≤ maxLimit →
      ∀ e, buildPayload tools q r cursor = .error e →
        e ∈ "ps summary exceeds its response byte budget" :: budgetErrors := by
  cases hq : q.summaryOnly with
  | true =>
    have hbuild : buildPayload tools q r cursor =
        if maxResponseBytes < serializedSize (envelope tools q r cursor
          (pageObject (matching q r).length 0 none) []) then
          .error "ps summary exceeds its response byte budget"
        else .ok (envelope tools q r cursor (pageObject (matching q r).length 0 none) []) := by
      simp only [buildPayload, hq, if_true]
      rfl
    rw [hbuild]
    constructor
    · intro payload hpayload
      split at hpayload
      · cases hpayload
      · rename_i hsize
        obtain rfl := Except.ok.inj hpayload
        have hbody : checkBody tools q.center (queryContract q r.limit cursor) q.fields cursor
            ⟨(matching q r).length, (0 : Nat), none⟩ (([] : List (Row F)).map .obj) = .ok () := by
          have hsummary : isTrue (Row.get (queryContract q r.limit cursor) "summary_only") = true := hq
          rw [checkBody, if_pos hsummary]
          rfl
        have hnone : ∀ c ∈ (none : Option String), c ≠ "" ∧ c.length ≤ maxCursorLength :=
          fun c hc => absurd hc (Option.not_mem_none c)
        obtain ⟨page, hpage, -⟩ := validate_envelope eqInt h hcenter htime herrors le_rfl
          (Nat.zero_le _) rfl hnone hbody (not_lt.mp hsize)
        exact ⟨page, hpage⟩
    · intro anchor hcursor hpos hmax e he
      split at he
      · obtain rfl := Except.error.inj he
        exact List.mem_cons_self
      · cases he
  | false =>
    rw [buildPayload_eq_serve tools q hq]
    constructor
    · intro payload hpayload
      cases hserve : serve tools q r cursor with
      | error e =>
        rw [hserve] at hpayload
        cases hpayload
      | ok s =>
        rw [hserve] at hpayload
        obtain rfl := Except.ok.inj hpayload
        obtain ⟨anchor, hcursor⟩ := cursorAt_of_serve hserve
        obtain ⟨hpayload, hsize⟩ := serve_envelope hcursor hserve
        obtain ⟨tail, heq, -⟩ := serve_ok hcursor hserve
        have hlength := congrArg List.length heq
        rw [List.length_append] at hlength
        have hafter : (after listKey (matching q r) anchor).length ≤ (matching q r).length := by
          unfold after falling
          exact (List.length_filter_le _ _).trans (List.length_insertionSort _ _).le
        have hbody : checkBody tools q.center (queryContract q r.limit cursor) q.fields cursor
            ⟨(after listKey (matching q r) anchor).length, s.rows.length, s.nextCursor⟩
            ((project s.rows q.fields).map .obj) = .ok () := by
          have hsummary : isTrue (Row.get (queryContract q r.limit cursor) "summary_only") = false := hq
          rw [checkBody, hsummary]
          exact checkRows_serve h hfields hfloat hq hcursor hserve
        rw [hpayload] at hsize
        obtain ⟨page, hpage, -⟩ := validate_envelope eqInt h hcenter htime herrors hafter
          (by omega) (List.length_map _) (nextCursor_bounds hcursor h.listable hserve) hbody hsize
        refine ⟨page, ?_⟩
        dsimp only
        rw [hpayload]
        exact hpage
    · intro anchor hcursor hpos hmax e he
      cases hserve : serve tools q r cursor with
      | error e' =>
        rw [hserve] at he
        obtain rfl := Except.error.inj he
        exact List.mem_cons_of_mem _ (serve_error hcursor ⟨hpos, hmax⟩ hserve)
      | ok s =>
        rw [hserve] at he
        cases he

end

def fillFields (names : List String) (value : Json (Fin 10)) : Row (Fin 10) :=
  names.map fun name => (name, value)

/-- A row with every field that a query may select. -/
def typedRow (id : String) (createdAt : Fin 10) : Row (Fin 10) :=
  ("job_id", .str id) :: ("center", .str "lab") :: ("status", .str "running") ::
    ("node", .str "n1") :: ("created_at", .float createdAt) ::
    (fillFields requiredTextFields (.str "") ++ fillFields requiredBoolFields (.bool false) ++
    fillFields requiredIntFields (.int 0) ++ fillFields ("gpus" :: textListFields) (.arr []) ++
    fillFields (textMapFields ++ numberMapFields) (.obj []))

def typedSelection : Selection (Fin 10) :=
  { center := "lab", fields := ["job_id", "status", "center", "created_at"] }

def typedRequest : Request (Fin 10) :=
  { rows := [typedRow "a1" 3, typedRow "b2" 4], limit := 2, generatedAt := 5 }

theorem typedRow_typed : ∀ row ∈ [typedRow "a1" 3, typedRow "b2" 4], ∀ name ∈ projectedContractFields,
    validProjectedField name (Row.get row name) = true := by
  decide +kernel

theorem typedRows_eq : matching typedSelection typedRequest = [typedRow "a1" 3, typedRow "b2" 4] := rfl

theorem typedRows_listable : Listable [typedRow "a1" 3, typedRow "b2" 4] where
  nodup := by decide
  ids := by
    simp only [List.forall_mem_cons, List.not_mem_nil, false_implies, implies_true, and_true]
    exact ⟨⟨"a1", rfl, by decide⟩, ⟨"b2", rfl, by decide⟩⟩

theorem typedRows_center : ∀ row ∈ [typedRow "a1" 3, typedRow "b2" 4],
    Row.get row "center" = .str typedSelection.center := by
  simp only [List.forall_mem_cons, List.not_mem_nil, false_implies, implies_true, and_true]
  exact ⟨rfl, rfl⟩

theorem typedRows : CenterRows typedSelection (matching typedSelection typedRequest) := by
  rw [typedRows_eq]
  exact {
    listable := typedRows_listable
    typed := typedRow_typed
    center := typedRows_center
    status := fun status hstatus => nomatch hstatus
    active := fun hactive => nomatch hactive
    nodeBuckets := by decide
    nodeKeys := by decide }

def typedPage : Page (Fin 10) := ⟨[typedRow "b2" 4, typedRow "a1" 3], 2, none⟩

theorem typedPage_fits : fits (envelope sampleTools typedSelection typedRequest none
      (pageObject typedPage.eligible typedPage.rows.length typedPage.nextCursor)
      (project typedPage.rows typedSelection.fields))
    typedPage.rows typedSelection.fields (selectionDigest sampleTools typedSelection) orderField
    typedPage.eligible typedPage.rows.length = true := by
  apply fits_of_length
  rw [candidate_envelope]
  decide +kernel

theorem buildPayload_accepted_sample :
    ∃ payload page, buildPayload sampleTools typedSelection typedRequest none = .ok payload ∧
      validatePayloadContract (fun (x : Fin 10) n => (x.val : Int) = n) sampleTools (.obj payload) "lab"
        (queryContract typedSelection 2 none) typedSelection.fields none = .ok page := by
  have hpage : paginate (matching typedSelection typedRequest) typedRequest.limit none
      (selectionDigest sampleTools typedSelection) orderField = .ok typedPage := rfl
  obtain ⟨s, hs, -⟩ := serve_of_fits hpage typedPage_fits
  have hbuild : buildPayload sampleTools typedSelection typedRequest none = .ok s.payload := by
    rw [buildPayload_eq_serve sampleTools typedSelection rfl, hs]
    rfl
  obtain ⟨page, haccepted⟩ := (buildPayload_accepted sampleTools (fun (x : Fin 10) n => (x.val : Int) = n)
    (fun n x _ _ => Fin.zero_le x) typedSelection typedRequest none typedRows (by decide)
    ⟨by decide, by decide, by decide, by decide⟩ (by decide) (by decide)).1 s.payload hbuild
  exact ⟨s.payload, page, hbuild, haccepted⟩

end Dt.Query
