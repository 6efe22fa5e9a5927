import Mathlib
import Dt.Lib.JsonText
import Dt.Jobs.Validate

/-!
# Operation events

Every process records what it does: one event when it begins, one when it hands its terminal over to
another program and one when it finishes. The values of an event come from the session of the
process, which takes an identity only after checking it. The reader of the journal accepts an event
by rules of its own.
-/

namespace Dt.Operations

open Dt.Lib Dt.Jobs

/-- A dictionary, with its members in the order in which they were put in. -/
abbrev Event (F : Type) := List (String × Json F)

def schemaVersion : String := "dt_operation_event_v1"

def maxEventBytes : Nat := 8192

/-! ## The texts of an event -/

/-- `_ID_RE` -/
def isOperationId (s : String) : Bool := hexOf 32 s

/-- `_REQUEST_ID_RE` -/
def isRequestId (s : String) : Bool :=
  match s.toList with
  | [] => false
  | c :: cs => isAlnum c &&
    classRun (fun d => isAlnum d || d = '.' || d = '_' || d = ':' || d = '@' || d = '+' || d = '-')
      0 127 cs

/-- `_SAFE_KIND_RE` -/
def isSafeKind (s : String) : Bool :=
  match s.toList with
  | [] => false
  | c :: cs => ('a' ≤ c && c ≤ 'z') &&
    classRun (fun d => isDigit d || ('a' ≤ d && d ≤ 'z') || d = '_' || d = '.' || d = '-') 0 63 cs

/-- `_VERSION_RE` -/
def isVersion (s : String) : Bool :=
  match s.toList with
  | [] => false
  | c :: cs => isAlnum c && classRun (fun d => isAlnum d || d = '.' || d = '+' || d = '-') 0 39 cs

/-- `_EXCEPTION_TYPE_RE` -/
def isExceptionType (s : String) : Bool :=
  match s.toList with
  | [] => false
  | c :: cs => (isAlnum c || c = '_') && !isDigit c &&
    classRun (fun d => isAlnum d || d = '_' || d = '.') 0 79 cs

/-- A text of a fixed shape: `none` stands for a decimal digit. -/
def hasShape : List (Option Char) → List Char → Bool
  | [], [] => true
  | none :: shape, c :: cs => (decimalDigit c).isSome && hasShape shape cs
  | some d :: shape, c :: cs => c = d && hasShape shape cs
  | _, _ => false

def digits (width : Nat) : List (Option Char) := List.replicate width none

/-- `_TIMESTAMP_RE` -/
def isTimestamp (s : String) : Bool :=
  hasShape (digits 4 ++ some '-' :: (digits 2 ++ some '-' :: (digits 2 ++ some 'T' ::
    (digits 2 ++ some ':' :: (digits 2 ++ some ':' :: (digits 2 ++ some '.' ::
      (digits 3 ++ [some 'Z']))))))) s.toList

/-! ## Commands -/

/-- `_COMMANDS` -/
def commands : List String :=
  ["_find", "agent", "attach", "batch", "chain", "clean", "compact", "compare", "diagnose",
    "doctor", "events", "exec", "fork", "free", "info", "init", "kill", "logs", "metrics", "migrate",
    "ps", "pull", "request", "rerun", "run", "seed", "storage", "sync", "task", "topology", "wait",
    "watch"]

/-- `_ALIASES` -/
def aliases : List (String × String) :=
  [("f", "free"), ("k", "kill"), ("l", "logs"), ("p", "ps"), ("r", "run"), ("t", "task")]

/-- `_SUBCOMMANDS` -/
def subcommands : List (String × List String) :=
  [("agent", ["install", "run", "start", "status", "stop"]), ("migrate", ["layout"])]

/-- `_SAFE_COMMAND_VALUES` -/
def safeCommandValues : List String :=
  commands ++ ["help", "unknown", "version"] ++
    subcommands.flatMap fun s => s.2.map fun sub => s.1 ++ " " ++ sub

/-- `_safe_command` -/
def safeCommand : List String → String
  | [] => "help"
  | first :: rest =>
    if first = "--version" ∨ first = "-V" then "version"
    else
      let verb := (aliases.lookup first).getD first
      if verb ∉ commands then "unknown"
      else match subcommands.lookup verb, rest with
        | some allowed, sub :: _ => if sub ∈ allowed then verb ++ " " ++ sub else verb
        | _, _ => verb

theorem safeCommand_safe (argv : List String) : safeCommand argv ∈ safeCommandValues := by
  cases argv with
  | nil => decide
  | cons first rest =>
    rw [safeCommand]
    split
    · decide
    · dsimp only
      generalize (aliases.lookup first).getD first = verb
      split
      · decide
      · rename_i hverb
        have hverb : verb ∈ commands := not_not.mp hverb
        have hplain : verb ∈ safeCommandValues := by simp [safeCommandValues, hverb]
        split
        · rename_i allowed sub _ hallowed
          split
          · rename_i hsub
            have hmem : (verb, allowed) ∈ subcommands := by
              obtain ⟨l, r, hl, -⟩ := List.lookup_eq_some_iff.mp hallowed
              rw [hl]
              simp
            simp only [safeCommandValues, List.mem_append, List.mem_flatMap]
            exact .inr ⟨(verb, allowed), hmem, List.mem_map.mpr ⟨sub, hsub, rfl⟩⟩
          · exact hplain
        · exact hplain

/-! ## Clock readings -/

/-- What a clock in UTC shows. -/
structure Moment where
  year : Fin 10000
  month : Fin 13
  day : Fin 32
  hour : Fin 24
  minute : Fin 60
  second : Fin 60
  millisecond : Fin 1000

/-- `f"{n:0{width}d}"` -/
def padded (width n : Nat) : List Char := (Nat.toDigits 10 n).leftpad width '0'

/-- `_utc_now`: the ISO form, with `Z` for the offset. -/
def utcNow (m : Moment) : String :=
  String.ofList (padded 4 m.year ++ '-' :: (padded 2 m.month ++ '-' :: (padded 2 m.day ++ 'T' ::
    (padded 2 m.hour ++ ':' :: (padded 2 m.minute ++ ':' :: (padded 2 m.second ++ '.' ::
      (padded 3 m.millisecond ++ ['Z'])))))))

theorem decimalDigit_of_isDigit {c : Char} (h : isDigit c = true) : (decimalDigit c).isSome = true := by
  have hrange : 48 ≤ c.toNat ∧ c.toNat ≤ 57 := by
    simp only [isDigit, Bool.and_eq_true, decide_eq_true_eq] at h
    exact ⟨Char.le_def.mp h.1, Char.le_def.mp h.2⟩
  unfold decimalDigit
  rw [Option.isSome_map, List.find?_isSome]
  refine ⟨0x30, by decide, ?_⟩
  simp only [Bool.and_eq_true, decide_eq_true_eq]
  omega

theorem hasShape_digits {cs : List Char} (h : ∀ c ∈ cs, isDigit c = true) {width : Nat}
    (hlen : cs.length = width) (shape : List (Option Char)) (rest : List Char) :
    hasShape (digits width ++ shape) (cs ++ rest) = hasShape shape rest := by
  subst hlen
  induction cs with
  | nil => rfl
  | cons c cs ih =>
    have hdigit := decimalDigit_of_isDigit (h c List.mem_cons_self)
    have htail := ih fun d hd => h d (List.mem_cons_of_mem c hd)
    rw [digits] at htail
    rw [digits, List.length_cons, List.replicate_succ, List.cons_append, List.cons_append, hasShape,
      hdigit, Bool.true_and, htail]

theorem hasShape_padded {width n : Nat} (hwidth : 0 < width) (h : n < 10 ^ width)
    (shape : List (Option Char)) (rest : List Char) :
    hasShape (digits width ++ shape) (padded width n ++ rest) = hasShape shape rest := by
  have hlen : (Nat.toDigits 10 n).length ≤ width :=
    (Nat.length_toDigits_le_iff (by decide) hwidth).mpr h
  refine hasShape_digits (fun c hc => ?_) ?_ shape rest
  · rw [padded, List.leftpad, List.mem_append] at hc
    rcases hc with hc | hc
    · rw [List.eq_of_mem_replicate hc]
      decide
    · exact isDigit_of_charIsDigit (Nat.isDigit_of_mem_toDigits (by decide) (by decide) hc)
  · rw [padded, List.length_leftpad]
    omega

theorem hasShape_mark (c : Char) (shape : List (Option Char)) (rest : List Char) :
    hasShape (some c :: shape) (c :: rest) = hasShape shape rest := by
  simp [hasShape]

theorem isTimestamp_utcNow (m : Moment) : isTimestamp (utcNow m) = true := by
  have hmonth := m.month.isLt
  have hday := m.day.isLt
  have hhour := m.hour.isLt
  have hminute := m.minute.isLt
  have hsecond := m.second.isLt
  rw [isTimestamp, utcNow, String.toList_ofList,
    hasShape_padded (by decide) m.year.isLt, hasShape_mark,
    hasShape_padded (by decide) (by omega), hasShape_mark,
    hasShape_padded (by decide) (by omega), hasShape_mark,
    hasShape_padded (by decide) (by omega), hasShape_mark,
    hasShape_padded (by decide) (by omega), hasShape_mark,
    hasShape_padded (by decide) (by omega), hasShape_mark,
    hasShape_padded (by decide) m.millisecond.isLt, hasShape_mark]
  rfl

/-! ## Sessions -/

abbrev OperationId := { s : String // isOperationId s = true }

abbrev RequestId := { s : String // isRequestId s = true }

abbrev BoundJobId := { s : String // validJobId s = true }

abbrev Kind := { s : String // isSafeKind s = true }

abbrev ExceptionType := { s : String // isExceptionType s = true }

abbrev Fingerprint := { s : String // hexOf 20 s = true }

/-- A commit as the installer writes it into the package. -/
abbrev Commit := { s : String // hexOf 40 s = true }

/-- `hexdigest()` of a SHA-256. -/
abbrev Digest := { s : String // hexOf 64 s = true }

/-- `s[:n]` of a hexadecimal text. -/
theorem hexOf_take {n : Nat} {s : String} (h : hexOf n s = true) {k : Nat} (hk : k ≤ n) :
    hexOf k (String.ofList (s.toList.take k)) = true := by
  simp only [hexOf, classRun, Bool.and_eq_true, decide_eq_true_eq, List.all_eq_true] at h ⊢
  obtain ⟨⟨hlo, hhi⟩, hall⟩ := h
  rw [String.toList_ofList, List.length_take]
  exact ⟨by omega, fun c hc => hall c (List.mem_of_mem_take hc)⟩

/-- What is read of an exception: its type's name, the type's qualified name and, for every frame of
its traceback, the file, the function and the line. -/
structure Exc where
  typeName : String
  qualified : String
  frames : List String

/-- `_safe_exception_type` -/
def safeExceptionType (e : Exc) : ExceptionType :=
  if h : isExceptionType (String.ofList (e.typeName.toList.take 80)) = true then ⟨_, h⟩
  else ⟨"Exception", by decide⟩

/-- `_problem_fingerprint` -/
def problemFingerprint (sha256 : List Char → Digest) (e : Exc) : Fingerprint :=
  let frames := e.frames.drop (e.frames.length - 4)
  let material := joinWith [':'] ((e.qualified :: frames).map String.toList)
  ⟨String.ofList ((sha256 material).1.toList.take 20), hexOf_take (sha256 material).2 (by decide)⟩

structure Problem where
  kind : Kind
  exception : Option (ExceptionType × Fingerprint)

/-- `target.role` -/
inductive Role where
  | head
  | laptop
  | unknown
  deriving DecidableEq

def Role.text : Role → String
  | .head => "head"
  | .laptop => "laptop"
  | .unknown => "unknown"

/-- `OperationSession` -/
structure Session where
  operationId : OperationId
  parentOperationId : Option OperationId
  command : { c : String // c ∈ safeCommandValues }
  role : Role
  argvCount : Nat
  startedWall : Moment
  problem : Option Problem := none
  requestId : Option RequestId := none
  jobId : Option BoundJobId := none
  finished : Bool := false

/-- A text that passes a check. -/
def checked (p : String → Bool) (s : Option String) : Option { s : String // p s = true } :=
  s.bind fun s => if h : p s = true then some ⟨s, h⟩ else none

/-- The session that `begin` opens; `parent` is `DT_PARENT_OPERATION_ID`. -/
def beginSession (argv : List String) (parent : String) (operationId : OperationId) (role : Role)
    (startedWall : Moment) : Session where
  operationId
  parentOperationId := checked isOperationId (some parent)
  command := ⟨safeCommand argv, safeCommand_safe argv⟩
  role
  argvCount := argv.length
  startedWall

/-- `bind_identity` -/
def bindIdentity (s : Session) (requestId jobId : Option String) : Session :=
  { s with
    requestId := (checked isRequestId requestId).or s.requestId
    jobId := (checked validJobId jobId).or s.jobId }

def problemOf (sha256 : List Char → Digest) (kind : Kind) (e : Option Exc) : Problem :=
  ⟨kind, e.map fun e => (safeExceptionType e, problemFingerprint sha256 e)⟩

/-- `mark_problem` -/
def markProblem (sha256 : List Char → Digest) (s : Session) (kind : String) (e : Option Exc) :
    Session :=
  let kind : Kind := if h : isSafeKind kind = true then ⟨kind, h⟩ else ⟨"unclassified", by decide⟩
  { s with problem := s.problem.or (some (problemOf sha256 kind e)) }

/-! ## Events -/

/-- What is the same for all events of a process. -/
structure Process where
  pid : Nat
  pid_pos : 1 ≤ pid
  sourceCommit : Option Commit

/-- `__version__` -/
def version : String := "0.13.22"

inductive Status where
  | success
  | failed
  | interrupted
  deriving DecidableEq

def Status.text : Status → String
  | .success => "success"
  | .failed => "failed"
  | .interrupted => "interrupted"

variable {F : Type}

/-- A dictionary from the members that have a value. -/
def present (fields : List (String × Option (Json F))) : Event F :=
  fields.filterMap fun f => f.2.map fun v => (f.1, v)

def text (s : String) : Option (Json F) := some (.str s)

def number (n : Int) : Option (Json F) := some (.int n)

/-- `_base_event` -/
def baseFields (p : Process) (s : Session) (phase : String) (now : Moment) :
    List (String × Option (Json F)) :=
  [("schema_version", text schemaVersion), ("operation_id", text s.operationId.1),
    ("phase", text phase), ("recorded_at", text (utcNow now)), ("role", text s.role.text),
    ("command", text s.command.1), ("process_id", number p.pid), ("dt_version", text version),
    ("argument_count", number s.argvCount),
    ("source_commit", p.sourceCommit.bind fun c => text (String.ofList (c.1.toList.take 12))),
    ("parent_operation_id", s.parentOperationId.bind fun i => text i.1),
    ("request_id", s.requestId.bind fun i => text i.1), ("job_id", s.jobId.bind fun i => text i.1)]

def problemFields (p : Problem) : List (String × Option (Json F)) :=
  [("kind", text p.kind.1), ("exception_type", p.exception.bind fun e => text e.1.1),
    ("fingerprint", p.exception.bind fun e => text e.2.1)]

/-- The event that `begin` writes. -/
def startFields (p : Process) (s : Session) (now : Moment) : List (String × Option (Json F)) :=
  baseFields p s "start" now ++ [("started_at", text (utcNow s.startedWall))]

/-- The event that `record_handoff` writes; `elapsed` is the rounded difference of two readings of
the monotonic clock, in milliseconds. -/
def handoffFields (p : Process) (s : Session) (now : Moment) (elapsed : Int) :
    List (String × Option (Json F)) :=
  baseFields p s "handoff" now ++
    [("status", text "delegated"), ("duration_ms", number (max 0 elapsed))]

/-- The event that `finish` writes. -/
def finishFields (p : Process) (s : Session) (now : Moment) (elapsed : Int) (status : Status)
    (exitCode : Int) : List (String × Option (Json F)) :=
  baseFields p s "finish" now ++
    [("status", text status.text), ("exit_code", number exitCode),
      ("duration_ms", number (max 0 elapsed)),
      ("problem", s.problem.map fun p => .obj (present (problemFields p)))]

/-- The session as `finish` leaves it. -/
def finishSession (sha256 : List Char → Digest) (s : Session) (e : Option Exc) : Session :=
  let problem := s.problem.or (e.map fun e =>
    problemOf sha256 ⟨"internal_exception", by decide⟩ (some e))
  { s with finished := true, problem }

/-- The event of one call; the session is the one that the call leaves. -/
inductive Write where
  | start (p : Process) (s : Session) (now : Moment)
  | handoff (p : Process) (s : Session) (now : Moment) (elapsed : Int)
  | finish (p : Process) (s : Session) (now : Moment) (elapsed : Int) (status : Status)
      (exitCode : Int)

def Write.session : Write → Session
  | .start _ s _ => s
  | .handoff _ s _ _ => s
  | .finish _ s _ _ _ _ => s

def Write.fields : Write → List (String × Option (Json F))
  | .start p s now => startFields p s now
  | .handoff p s now elapsed => handoffFields p s now elapsed
  | .finish p s now elapsed status exitCode => finishFields p s now elapsed status exitCode

def Write.event (w : Write) : Event F := present w.fields

/-- `begin`: the session and the event it writes. -/
def begin (p : Process) (argv : List String) (parent : String) (operationId : OperationId)
    (role : Role) (startedWall now : Moment) : Session × Write :=
  let s := beginSession argv parent operationId role startedWall
  (s, .start p s now)

/-- `record_handoff` -/
def recordHandoff (p : Process) (s : Session) (now : Moment) (elapsed : Int) : Write :=
  .handoff p s now elapsed

/-- `finish`: a session that is finished writes nothing. -/
def finish (sha256 : List Char → Digest) (p : Process) (s : Session) (now : Moment) (elapsed : Int)
    (status : Status) (exitCode : Int) (e : Option Exc) : Session × Option Write :=
  if s.finished then (s, none)
  else
    let s := finishSession sha256 s e
    (s, some (.finish p s now elapsed status exitCode))

end Dt.Operations
