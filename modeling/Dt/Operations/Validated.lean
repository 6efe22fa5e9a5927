import Mathlib
import Dt.Operations.Event

/-!
# Which events the reader accepts

`validatedEvent` goes through the fields of a record one after the other. An event is written with
sorted keys and read back so; the reader finds in it what the writer put in, and refuses it only
when the process had more than a million arguments.
-/

namespace Dt.Operations

open Dt.Lib Dt.Jobs

variable {F : Type}

/-! ## The reader's rules -/

/-- `_EVENT_FIELDS` -/
def eventFields : List String :=
  ["schema_version", "operation_id", "parent_operation_id", "phase", "recorded_at", "started_at",
    "role", "command", "process_id", "dt_version", "source_commit", "argument_count", "status",
    "exit_code", "duration_ms", "problem", "request_id", "job_id"]

/-- `raw.get(key)` -/
def get (raw : Event F) (key : String) : Json F := (raw.lookup key).getD .null

/-- `isinstance(v, str)` and a check of the text. -/
def anyStr (p : String → Bool) : Json F → Bool
  | .str s => p s
  | _ => false

/-- `isinstance(v, int)`, not a `bool`, and a check of the number. -/
def anyInt (p : Int → Bool) : Json F → Bool
  | .int n => p n
  | _ => false

/-- `v is None` or a check. -/
def noneOr (p : Json F → Bool) : Json F → Bool
  | .null => true
  | v => p v

/-- `v in {…}`: a list or a dictionary has no hash. -/
def inSet (set : List String) : Json F → Except String Bool
  | .str s => .ok (s ∈ set)
  | .arr _ => .error "unhashable type: 'list'"
  | .obj _ => .error "unhashable type: 'dict'"
  | _ => .ok false

def isNone : Json F → Bool
  | .null => true
  | _ => false

/-- Checks in order, up to the first that fails. -/
def passes : List (Except String Bool) → Except String Bool
  | [] => .ok true
  | .error e :: _ => .error e
  | .ok true :: checks => passes checks
  | .ok false :: _ => .ok false

/-- The checks that every event has to pass. -/
def commonChecks (raw : Event F) : List (Except String Bool) :=
  [.ok (anyStr (· = schemaVersion) (get raw "schema_version")),
    .ok ((raw.map Prod.fst).all (· ∈ eventFields)),
    .ok (anyStr isOperationId (get raw "operation_id")),
    inSet ["start", "finish", "handoff"] (get raw "phase"),
    .ok (anyStr isTimestamp (get raw "recorded_at")),
    inSet ["head", "laptop", "unknown"] (get raw "role"),
    inSet safeCommandValues (get raw "command"),
    .ok (anyInt (1 ≤ ·) (get raw "process_id")),
    .ok (anyStr isVersion (get raw "dt_version")),
    .ok (anyInt (fun n => 0 ≤ n ∧ n ≤ 1000000) (get raw "argument_count")),
    .ok (noneOr (anyStr isOperationId) (get raw "parent_operation_id")),
    .ok (noneOr (anyStr fun s => classRun isHex 7 12 s.toList) (get raw "source_commit")),
    .ok (noneOr (anyStr isRequestId) (get raw "request_id")),
    .ok (noneOr (anyStr validJobId) (get raw "job_id"))]

def has (raw : Event F) (key : String) : Bool := key ∈ raw.map Prod.fst

/-- The checks that depend on the phase. -/
def phaseChecks (raw : Event F) : List (Except String Bool) :=
  if anyStr (· = "start") (get raw "phase") then
    [.ok (anyStr isTimestamp (get raw "started_at")),
      .ok (["status", "exit_code", "duration_ms", "problem"].all fun k => !has raw k)]
  else
    let handoff := anyStr (· = "handoff") (get raw "phase")
    [inSet (if handoff then ["delegated"] else ["success", "failed", "interrupted"])
        (get raw "status"),
      .ok (anyInt (0 ≤ ·) (get raw "duration_ms")),
      .ok (if anyStr (· = "finish") (get raw "phase") then anyInt (fun _ => true) (get raw "exit_code")
        else !has raw "exit_code")]

def problemChecks (raw : Event F) : List (Except String Bool) :=
  match get raw "problem" with
  | .null => []
  | .obj problem =>
    let type := get problem "exception_type"
    let fingerprint := get problem "fingerprint"
    [.ok ((problem.map Prod.fst).all (· ∈ ["kind", "exception_type", "fingerprint"])),
      .ok (anyStr isSafeKind (get problem "kind")),
      .ok (isNone type == isNone fingerprint),
      .ok (isNone type || anyStr isExceptionType type && anyStr (hexOf 20) fingerprint)]
  | _ => [.ok false]

/-- `{key: raw[key] for key in _EVENT_FIELDS if key in raw}` -/
def orderFields (raw : Event F) : Event F :=
  eventFields.filterMap fun k => (raw.lookup k).map fun v => (k, v)

/-- `_validated_event`: an error where the comparison of a value raises one. -/
def validatedEvent : Json F → Except String (Option (Event F))
  | .obj raw =>
    (passes (commonChecks raw ++ phaseChecks raw ++ problemChecks raw)).map fun ok =>
      if ok then some (orderFields raw) else none
  | _ => .ok none

/-! ## Checks in order -/

theorem passes_of_all {checks : List (Except String Bool)} (h : ∀ c ∈ checks, c = .ok true)
    (rest : List (Except String Bool)) : passes (checks ++ rest) = passes rest := by
  induction checks with
  | nil => rfl
  | cons c checks ih =>
    rw [h c List.mem_cons_self, List.cons_append, passes]
    exact ih fun d hd => h d (List.mem_cons_of_mem _ hd)

/-! ## What is read back of an event -/

/-- The members of an event as they stand in the journal. -/
def written (event : Event F) : Event F := (sortedPairs event).insertionSort fun a b => a.1 ≤ b.1

theorem sorted_obj (event : Event F) : (Json.obj event).sorted = .obj (written event) := rfl

theorem perm_written (event : Event F) : (written event).Perm (sortedPairs event) :=
  List.perm_insertionSort _ _

theorem keys_written (event : Event F) :
    ((written event).map Prod.fst).Perm (event.map Prod.fst) := by
  rw [← keys_sortedPairs event]
  exact (perm_written event).map _

theorem nodup_written {event : Event F} (h : (event.map Prod.fst).Nodup) :
    ((written event).map Prod.fst).Nodup := (keys_written event).nodup_iff.mpr h

theorem lookup_written {event : Event F} (h : (event.map Prod.fst).Nodup) (k : String) :
    (written event).lookup k = (event.lookup k).map Json.sorted := by
  rw [lookup_perm (nodup_written h) (perm_written event), lookup_sortedPairs]

theorem get_written {event : Event F} (h : (event.map Prod.fst).Nodup) (k : String) :
    get (written event) k = (get event k).sorted := by
  unfold get
  rw [lookup_written h]
  cases event.lookup k <;> rfl

theorem has_written (event : Event F) (k : String) : has (written event) k = has event k := by
  unfold has
  rw [decide_eq_decide]
  exact (keys_written event).mem_iff

/-! ## Dictionaries from fields -/

theorem keys_present (fields : List (String × Option (Json F))) :
    ((present fields).map Prod.fst).Sublist (fields.map Prod.fst) := by
  induction fields with
  | nil => exact .slnil
  | cons f fields ih =>
    obtain ⟨k, v⟩ := f
    cases v with
    | none => exact .cons k ih
    | some v => exact .cons_cons k ih

theorem lookup_present {fields : List (String × Option (Json F))}
    (h : (fields.map Prod.fst).Nodup) (k : String) :
    (present fields).lookup k = (fields.lookup k).join := by
  induction fields with
  | nil => rfl
  | cons f fields ih =>
    obtain ⟨key, v⟩ := f
    obtain ⟨hnew, hnodup⟩ := List.nodup_cons.mp h
    have htail := ih hnodup
    rw [List.lookup_cons]
    by_cases hk : k = key
    · subst hk
      have hnone : (present fields).lookup k = none := by
        rw [htail]
        have hlookup : fields.lookup k = none :=
          List.lookup_eq_none_iff.mpr fun p hp => by
            simp only [bne_iff_ne]
            rintro rfl
            exact hnew (List.mem_map.mpr ⟨p, hp, rfl⟩)
        rw [hlookup]
        rfl
      cases v with
      | none => simpa [present] using hnone
      | some v => simp [present]
    · have hne : (k == key) = false := beq_eq_false_iff_ne.mpr hk
      rw [hne]
      cases v with
      | none => simpa [present] using htail
      | some v => simpa [present, List.lookup_cons, hne] using htail

/-! ## The events of the writer -/

def Write.process : Write → Process
  | .start p _ _ => p
  | .handoff p _ _ _ => p
  | .finish p _ _ _ _ _ => p

def Write.now : Write → Moment
  | .start _ _ now => now
  | .handoff _ _ now _ => now
  | .finish _ _ now _ _ _ => now

def Write.phase : Write → String
  | .start .. => "start"
  | .handoff .. => "handoff"
  | .finish .. => "finish"

/-- The fields of one phase. -/
def Write.ownFields : Write → List (String × Option (Json F))
  | .start _ s _ => [("started_at", text (utcNow s.startedWall))]
  | .handoff _ _ _ elapsed => [("status", text "delegated"), ("duration_ms", number (max 0 elapsed))]
  | .finish _ s _ elapsed status exitCode =>
    [("status", text status.text), ("exit_code", number exitCode),
      ("duration_ms", number (max 0 elapsed)),
      ("problem", s.problem.map fun p => .obj (present (problemFields p)))]

theorem Write.fields_eq (w : Write) :
    (w.fields : List (String × Option (Json F))) =
      baseFields w.process w.session w.phase w.now ++ w.ownFields := by
  cases w <;> rfl

theorem Write.nodup_fields (w : Write) :
    ((w.fields : List (String × Option (Json F))).map Prod.fst).Nodup := by
  cases w <;> simp [Write.fields, startFields, handoffFields, finishFields, baseFields]

theorem Write.nodup_event (w : Write) : ((w.event : Event F).map Prod.fst).Nodup :=
  (keys_present w.fields).nodup w.nodup_fields

theorem Write.get_event (w : Write) (k : String) :
    get (written (w.event : Event F)) k = (((w.fields.lookup k).join).getD .null).sorted := by
  rw [get_written w.nodup_event, get, Write.event, lookup_present w.nodup_fields]

theorem Write.get_base {w : Write} {k : String} {v : Option (Json F)}
    (h : (baseFields w.process w.session w.phase w.now).lookup k = some v) :
    get (written (w.event : Event F)) k = (v.getD .null).sorted := by
  rw [w.get_event, w.fields_eq, List.lookup_append, h]
  rfl

theorem Write.get_phase (w : Write) :
    get (written (w.event : Event F)) "phase" = .str w.phase :=
  w.get_base (v := text w.phase) rfl

theorem all_keys (w : Write) :
    ((written (w.event : Event F)).map Prod.fst).all (· ∈ eventFields) = true := by
  refine List.all_eq_true.mpr fun k hk => decide_eq_true ?_
  have hfield : k ∈ (w.fields : List (String × Option (Json F))).map Prod.fst :=
    (keys_present w.fields).subset ((keys_written w.event).mem_iff.mp hk)
  have hsubset : (w.fields : List (String × Option (Json F))).map Prod.fst ⊆ eventFields := by
    cases w <;>
      simp [Write.fields, startFields, handoffFields, finishFields, baseFields, eventFields]
  exact hsubset hfield

theorem Role.text_known (r : Role) : r.text ∈ ["head", "laptop", "unknown"] := by
  cases r <;> decide

theorem Write.phase_known (w : Write) : w.phase ∈ ["start", "finish", "handoff"] := by
  cases w <;> simp [Write.phase]

/-- A field that may be absent, and passes its check when it is there. -/
theorem noneOr_sub {p : String → Bool} (s : Option { s : String // p s = true }) :
    noneOr (anyStr p) ((((s.bind fun i => text i.1) : Option (Json F)).getD .null).sorted) = true := by
  cases s with
  | none => rfl
  | some i => exact i.2

/-- The number of arguments is the one thing that the writer does not check. -/
theorem commonChecks_event (w : Write) :
    ∃ before after, commonChecks (written (w.event : Event F)) =
        before ++ .ok (decide (w.session.argvCount ≤ 1000000)) :: after ∧
      (∀ c ∈ before, c = .ok true) ∧ ∀ c ∈ after, c = .ok true := by
  have hschema : get (written (w.event : Event F)) "schema_version" = .str schemaVersion :=
    w.get_base (v := text schemaVersion) rfl
  have hid : get (written (w.event : Event F)) "operation_id" = .str w.session.operationId.1 :=
    w.get_base (v := text _) rfl
  have hnow : get (written (w.event : Event F)) "recorded_at" = .str (utcNow w.now) :=
    w.get_base (v := text _) rfl
  have hrole : get (written (w.event : Event F)) "role" = .str w.session.role.text :=
    w.get_base (v := text _) rfl
  have hcommand : get (written (w.event : Event F)) "command" = .str w.session.command.1 :=
    w.get_base (v := text _) rfl
  have hpid : get (written (w.event : Event F)) "process_id" = .int w.process.pid :=
    w.get_base (v := number _) rfl
  have hversion : get (written (w.event : Event F)) "dt_version" = .str version :=
    w.get_base (v := text _) rfl
  have hargs : get (written (w.event : Event F)) "argument_count" = .int w.session.argvCount :=
    w.get_base (v := number _) rfl
  have hparent : noneOr (anyStr isOperationId)
      (get (written (w.event : Event F)) "parent_operation_id") = true := by
    rw [w.get_base rfl]
    exact noneOr_sub _
  have hrequest : noneOr (anyStr isRequestId)
      (get (written (w.event : Event F)) "request_id") = true := by
    rw [w.get_base rfl]
    exact noneOr_sub _
  have hjob : noneOr (anyStr validJobId) (get (written (w.event : Event F)) "job_id") = true := by
    rw [w.get_base rfl]
    exact noneOr_sub _
  have hhash : noneOr (anyStr fun s => classRun isHex 7 12 s.toList)
      (get (written (w.event : Event F)) "source_commit") = true := by
    rw [w.get_base rfl]
    cases w.process.sourceCommit with
    | none => rfl
    | some c =>
      have htake := hexOf_take c.2 (k := 12) (by decide)
      simp only [hexOf, classRun, Bool.and_eq_true, decide_eq_true_eq, List.all_eq_true] at htake
      show classRun isHex 7 12 _ = true
      simp only [classRun, Bool.and_eq_true, decide_eq_true_eq, List.all_eq_true]
      exact ⟨⟨by omega, htake.1.2⟩, htake.2⟩
  have hpos : (1 : Int) ≤ w.process.pid := by exact_mod_cast w.process.pid_pos
  refine ⟨(commonChecks (written (w.event : Event F))).take 9,
    (commonChecks (written (w.event : Event F))).drop 10, ?_, ?_, ?_⟩
  · simp [commonChecks, hargs, anyInt]
  · simp only [commonChecks, List.take_succ_cons, List.take_zero, List.forall_mem_cons]
    rw [hschema, all_keys, hid, w.get_phase, hnow, hrole, hcommand, hpid, hversion]
    refine ⟨rfl, rfl, ?_, ?_, ?_, ?_, ?_, ?_, rfl, by simp⟩
    · exact congrArg _ w.session.operationId.2
    · exact congrArg _ (decide_eq_true w.phase_known)
    · exact congrArg _ (isTimestamp_utcNow w.now)
    · exact congrArg _ (decide_eq_true w.session.role.text_known)
    · exact congrArg _ (decide_eq_true w.session.command.2)
    · exact congrArg _ (decide_eq_true hpos)
  · simp [commonChecks, hparent, hhash, hrequest, hjob]

theorem Write.has_event {w : Write} {k : String}
    (h : k ∉ (w.fields : List (String × Option (Json F))).map Prod.fst) :
    has (written (w.event : Event F)) k = false := by
  rw [has_written, has, decide_eq_false_iff_not]
  exact fun hk => h ((keys_present w.fields).subset hk)

/-- What a phase adds passes the checks of that phase. -/
theorem phaseChecks_event (w : Write) :
    ∀ c ∈ phaseChecks (written (w.event : Event F)), c = .ok true := by
  cases w with
  | start p s now =>
    have hstarted : get (written ((Write.start p s now).event : Event F)) "started_at" =
        .str (utcNow s.startedWall) := by
      rw [Write.get_event]
      rfl
    have habsent (k : String) (hk : k ∈ ["status", "exit_code", "duration_ms", "problem"]) :
        has (written ((Write.start p s now).event : Event F)) k = false := by
      refine Write.has_event ?_
      simp only [List.mem_cons, List.not_mem_nil, or_false] at hk
      rcases hk with rfl | rfl | rfl | rfl <;> simp [Write.fields, startFields, baseFields]
    have hall : ["status", "exit_code", "duration_ms", "problem"].all (fun k =>
        !has (written ((Write.start p s now).event : Event F)) k) = true :=
      List.all_eq_true.mpr fun k hk => by rw [habsent k hk]; rfl
    have hphase := Write.get_phase (F := F) (.start p s now)
    have hstamp := isTimestamp_utcNow s.startedWall
    rw [phaseChecks, hphase, hstarted, hall]
    simp [Write.phase, anyStr, hstamp]
  | handoff p s now elapsed =>
    have hstatus : get (written ((Write.handoff p s now elapsed).event : Event F)) "status" =
        .str "delegated" := by
      rw [Write.get_event]
      rfl
    have hduration : get (written ((Write.handoff p s now elapsed).event : Event F)) "duration_ms" =
        .int (max 0 elapsed) := by
      rw [Write.get_event]
      rfl
    have hexit : has (written ((Write.handoff p s now elapsed).event : Event F)) "exit_code" = false :=
      Write.has_event (by simp [Write.fields, handoffFields, baseFields])
    have hphase := Write.get_phase (F := F) (.handoff p s now elapsed)
    rw [phaseChecks, hphase, hstatus, hduration, hexit]
    simp [Write.phase, anyStr, anyInt, inSet]
  | finish p s now elapsed status exitCode =>
    have hstatus : get (written ((Write.finish p s now elapsed status exitCode).event : Event F))
        "status" = .str status.text := by
      rw [Write.get_event]
      rfl
    have hduration : get (written ((Write.finish p s now elapsed status exitCode).event : Event F))
        "duration_ms" = .int (max 0 elapsed) := by
      rw [Write.get_event]
      rfl
    have hexit : get (written ((Write.finish p s now elapsed status exitCode).event : Event F))
        "exit_code" = .int exitCode := by
      rw [Write.get_event]
      rfl
    have hphase := Write.get_phase (F := F) (.finish p s now elapsed status exitCode)
    rw [phaseChecks, hphase, hstatus, hduration, hexit]
    cases status <;> simp [Write.phase, anyStr, anyInt, inSet, Status.text]

theorem nodup_problem (p : Problem) :
    ((present (problemFields p) : Event F).map Prod.fst).Nodup :=
  (keys_present _).nodup (by simp [problemFields])

/-- A recorded problem passes its checks. -/
theorem problemChecks_event (w : Write) :
    ∀ c ∈ problemChecks (written (w.event : Event F)), c = .ok true := by
  have hnone (h : get (written (w.event : Event F)) "problem" = .null) :
      ∀ c ∈ problemChecks (written (w.event : Event F)), c = .ok true := by
    rw [problemChecks, h]
    simp
  cases w with
  | start p s now => exact hnone (by rw [Write.get_event]; rfl)
  | handoff p s now elapsed => exact hnone (by rw [Write.get_event]; rfl)
  | finish p s now elapsed status exitCode =>
    cases hproblem : s.problem with
    | none =>
      have hlookup : ((Write.finish p s now elapsed status exitCode).fields :
          List (String × Option (Json F))).lookup "problem" = some (none : Option (Json F)) := by
        rw [show (none : Option (Json F)) = s.problem.map fun p => .obj (present (problemFields p))
          by rw [hproblem]; rfl]
        rfl
      refine hnone ?_
      rw [Write.get_event, hlookup]
      rfl
    | some problem =>
      have hlookup : ((Write.finish p s now elapsed status exitCode).fields :
          List (String × Option (Json F))).lookup "problem" =
            some (some (Json.obj (present (problemFields problem)))) := by
        rw [show some (Json.obj (present (problemFields problem))) =
          s.problem.map fun p => (.obj (present (problemFields p)) : Json F) by rw [hproblem]; rfl]
        rfl
      have hget : get (written ((Write.finish p s now elapsed status exitCode).event : Event F))
          "problem" = .obj (written (present (problemFields problem))) := by
        rw [Write.get_event, hlookup]
        rfl
      have hfield {k : String} {v : Option (Json F)} (h : (problemFields problem).lookup k = some v) :
          get (written (present (problemFields problem) : Event F)) k = (v.getD .null).sorted := by
        rw [get_written (nodup_problem problem), get, lookup_present (by simp [problemFields]), h]
        rfl
      have hkeys : ((written (present (problemFields problem) : Event F)).map Prod.fst).all
          (· ∈ ["kind", "exception_type", "fingerprint"]) = true := by
        refine List.all_eq_true.mpr fun k hk => decide_eq_true ?_
        exact (keys_present (problemFields problem)).subset ((keys_written _).mem_iff.mp hk)
      have hkind : get (written (present (problemFields problem) : Event F)) "kind" =
          .str problem.kind.1 := hfield (v := text problem.kind.1) rfl
      have htype := hfield (k := "exception_type") rfl
      have hprint := hfield (k := "fingerprint") rfl
      have hsafe := problem.kind.2
      rw [problemChecks, hget]
      dsimp only
      rw [hkeys, hkind, htype, hprint]
      cases problem.exception with
      | none => simp [anyStr, hsafe, isNone, Json.sorted]
      | some e =>
        have hcheck := e.1.2
        have hhex := e.2.2
        simp [text, anyStr, hsafe, isNone, Json.sorted, hcheck, hhex]

/-- The reader accepts an event exactly when the process had at most a million arguments; it then
gives back the members as they were written. -/
theorem validatedEvent_event (w : Write) :
    validatedEvent (Json.obj (w.event : Event F)).sorted =
      .ok (if w.session.argvCount ≤ 1000000 then some (orderFields (written w.event)) else none) := by
  obtain ⟨before, after, hchecks, hbefore, hafter⟩ := commonChecks_event (F := F) w
  have hphase := phaseChecks_event (F := F) w
  have hproblem := problemChecks_event (F := F) w
  rw [sorted_obj, validatedEvent, hchecks, List.append_assoc, List.append_assoc,
    passes_of_all hbefore, List.cons_append]
  by_cases hargs : w.session.argvCount ≤ 1000000
  · have hproblems : passes (problemChecks (written (w.event : Event F))) = .ok true := by
      simpa [passes] using passes_of_all hproblem []
    rw [decide_eq_true hargs, passes, passes_of_all hafter, passes_of_all hphase, hproblems,
      if_pos hargs]
    rfl
  · rw [decide_eq_false hargs, passes, if_neg hargs]
    rfl

/-- The same dictionary: every key has the same value, up to the order of the keys in it. -/
def Same (read event : Event F) : Prop :=
  (read.map Prod.fst).Nodup ∧ ∀ k, read.lookup k = (event.lookup k).map Json.sorted

theorem lookup_filterMap (raw : Event F) (keys : List String) (k : String) :
    (keys.filterMap fun key => (raw.lookup key).map fun v => (key, v)).lookup k =
      if k ∈ keys then raw.lookup k else none := by
  induction keys with
  | nil => rfl
  | cons key keys ih =>
    by_cases hk : k = key
    · subst hk
      cases hraw : raw.lookup k with
      | none =>
        rw [List.filterMap_cons_none (by rw [hraw]; rfl), ih, if_pos List.mem_cons_self]
        simp [hraw]
      | some v =>
        rw [List.filterMap_cons_some (b := (k, v)) (by rw [hraw]; rfl), List.lookup_cons_self,
          if_pos List.mem_cons_self]
    · have hmem : k ∈ key :: keys ↔ k ∈ keys := by simp [hk]
      cases hraw : raw.lookup key with
      | none =>
        rw [List.filterMap_cons_none (by rw [hraw]; rfl), ih]
        simp only [hmem]
      | some v =>
        have hne : (k == key) = false := beq_eq_false_iff_ne.mpr hk
        rw [List.filterMap_cons_some (b := (key, v)) (by rw [hraw]; rfl), List.lookup_cons, hne, ih]
        simp only [hmem]

/-- What the reader gives back is the event. -/
theorem same_orderFields (w : Write) : Same (orderFields (written (w.event : Event F))) w.event := by
  have hkeys : (orderFields (written (w.event : Event F))).map Prod.fst =
      eventFields.filter fun k => ((written (w.event : Event F)).lookup k).isSome := by
    unfold orderFields
    generalize eventFields = keys
    induction keys with
    | nil => rfl
    | cons key keys ih =>
      cases hraw : (written (w.event : Event F)).lookup key with
      | none => simp [hraw, ih]
      | some v => simp [hraw, ih]
  refine ⟨?_, fun k => ?_⟩
  · rw [hkeys]
    exact List.Nodup.filter _ (by decide)
  · have hlookup := lookup_filterMap (written (w.event : Event F)) eventFields k
    rw [orderFields, hlookup, lookup_written w.nodup_event]
    split
    · rfl
    · rename_i hk
      have hfield : k ∉ ((w.event : Event F)).map Prod.fst := by
        intro hmem
        have hall := List.all_eq_true.mp (all_keys (F := F) w) k ((keys_written w.event).mem_iff.mpr hmem)
        exact hk (of_decide_eq_true hall)
      have hnone : (w.event : Event F).lookup k = none := by
        refine List.lookup_eq_none_iff.mpr fun p hp => ?_
        simp only [bne_iff_ne]
        rintro rfl
        exact hfield (List.mem_map.mpr ⟨p, hp, rfl⟩)
      rw [hnone]
      rfl

end Dt.Operations
