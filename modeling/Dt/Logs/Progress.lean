import Dt.Lib.Decimals
import Dt.Lib.Regex
import Dt.Lib.Rounding
import Mathlib.Data.List.DropRight

/-!
# Progress in the text of a job

What a job prints about its steps, its percentage and its rate is found with regular expressions and put together:
the counts of steps, the last estimate of the trainer, the pace of the last timestamped steps and the throughput. The
numbers are the job's own, of any length. Integers are converted to floats on the way, which raises for those that are
too large, and only at the end every number is held against its bounds.
-/

namespace Dt.Logs

open Dt.Lib

/-! ## Numbers of Python -/

inductive PyError where
  | overflowError
  | valueError
  | zeroDivisionError
  deriving DecidableEq

def orRaise {α : Type} (e : PyError) : Option α → Except PyError α
  | some a => .ok a
  | none => .error e

/-- The limit of `int` on the digits of a text. -/
def maxStrDigits : Nat := 4300

/-- `int(text)` of a text of digits -/
def readInt (text : List Char) : Except PyError Int :=
  if maxStrDigits < text.length then .error .valueError else orRaise .valueError (pyInt text)

/-- `float(text)` of a text of digits, with or without a fraction -/
def readFloat (text : List Char) : Except PyError Floating :=
  orRaise .valueError ((decimalsValue text).map binary64.round)

/-- `float(n)` -/
def toFloat (n : Int) : Except PyError Floating := orRaise .overflowError (binary64.ofInt n)

/-- `x / y` of floats -/
def divide (x y : Floating) : Except PyError Floating := orRaise .zeroDivisionError (binary64.div x y)

/-- `n / m` of integers, whose quotient is rounded once -/
def trueDiv (n m : Int) : Except PyError Floating :=
  if m = 0 then .error .zeroDivisionError
  else if (binary64.round (n / m)).isFinite then .ok (binary64.round (n / m))
  else .error .overflowError

/-- `math.ceil(x)` -/
def ceil : Floating → Except PyError Int
  | .finite q => .ok ⌈q⌉
  | .inf _ => .error .overflowError
  | .nan => .error .valueError

/-! ## Patterns -/

/-- The characters that are one letter when cases are ignored, with those of other scripts whose lower case it is. -/
def sameLetter (c d : Char) : Bool :=
  d.toLower = c.toLower || (c.toLower = 's' && d.toNat = 0x17f) || (c.toLower = 'k' && d.toNat = 0x212a) ||
    (c.toLower = 'i' && (d.toNat = 0x130 || d.toNat = 0x131))

def anyCase (s : String) : Regex := .chain (s.toList.map fun c => .set (sameLetter c))

def spaces : Regex := .many true isSpace

def someSpaces : Regex := .atLeastOne isSpace

def digits : Regex := .atLeastOne isDecimal

/-- `\d+(?:\.\d+)?` -/
def decimals : Regex := .seq digits (.optional (.seq (.char '.') digits))

def notNewline (c : Char) : Bool := c ≠ '\n'

/-- `[a-b]` -/
def between (a b c : Char) : Bool := a ≤ c && c ≤ b

/-- `_ANSI_ESCAPE_RE` -/
def ansiEscapeRe : Regex :=
  .chain [.char (Char.ofNat 0x1b), .char '[', .many true (between '0' '?'), .many true (between ' ' '/'),
    .set (between '@' '~')]

/-- `\bstep\s*[:=#]?\s*` -/
def stepMark : Regex :=
  .chain [.boundary, anyCase "step", spaces, .optional (.set fun c => c = ':' || c = '=' || c = '#'), spaces]

/-- `_LOG_STEP_RE` -/
def logStepRe : Regex := .chain [stepMark, .group 1 digits, .boundary]

/-- `_LOG_STEP_FRACTION_RE` -/
def logStepFractionRe : Regex :=
  .chain [stepMark, .group 1 digits, spaces, .char '/', spaces, .group 2 digits,
    .optional (.chain [spaces, .group 3 decimals, spaces, .char '%'])]

/-- `_LOG_COMPLETED_STEPS_RE` -/
def logCompletedStepsRe : Regex :=
  .chain [.lineStart, spaces, anyCase "Steps", someSpaces, .group 1 digits, someSpaces, .char '(', .group 2 digits,
    someSpaces, anyCase "total", .char ')']

/-- `_LOG_TRAIN_TOTAL_RE` -/
def logTrainTotalRe : Regex :=
  .chain [.lineStart, spaces, .optional (.chain [.char '[', digits, .char '/', digits, .char ']', spaces]),
    anyCase "Training", .boundary, .many false notNewline, .boundary, .group 1 digits, someSpaces, anyCase "steps",
    .boundary]

/-- `.+?` -/
def shortText : Regex := .seq (.set notNewline) (.many false notNewline)

/-- `_LOG_ETA_RE`; its groups are `eta`, `elapsed`, `step_time` and `percent` -/
def logEtaRe : Regex :=
  .chain [.boundary, anyCase "ETA", someSpaces, .char '~', .group 1 shortText, someSpaces, anyCase "remaining", spaces,
    .char '(', spaces, .group 2 shortText, someSpaces, anyCase "elapsed,", spaces, .group 3 decimals, spaces,
    anyCase "s/step,", spaces, .group 4 decimals, .char '%', spaces, .char ')']

/-- The time of `_LOG_TIMESTAMPED_STEP_RE`. -/
def stampRe : Regex :=
  .chain [.times 4 isDecimal, .char '-', .times 2 isDecimal, .char '-', .times 2 isDecimal, .char ' ',
    .times 2 isDecimal, .char ':', .times 2 isDecimal, .char ':', .times 2 isDecimal,
    .optional (.seq (.set fun c => c = ',' || c = '.') (.upTo 5 isDecimal))]

/-- `_LOG_TIMESTAMPED_STEP_RE`; its groups are `timestamp` and `step` -/
def logTimestampedStepRe : Regex :=
  .chain [.lineStart, .char '[', .many false fun c => c ≠ ']' && c ≠ '\n', .group 1 stampRe, .char ']',
    .many false notNewline, stepMark, .group 2 digits, .boundary]

/-- `_LOG_THROUGHPUT_RE` -/
def logThroughputRe : Regex :=
  .chain [.alt .lineStart .boundary, .alt (anyCase "Samples/sec") (anyCase "Throughput"), spaces,
    .alt (.seq (.set fun c => c = ':' || c = '=') spaces) someSpaces, .group 1 decimals, spaces,
    .optional (anyCase "samples/s"), .boundary]

/-! ## The mapping -/

inductive ProgressValue where
  | int (n : Int)
  | float (x : Floating)
  | text (t : List Char)
  deriving DecidableEq

abbrev Progress := List (String × ProgressValue)

namespace Progress

def put : Progress → String → ProgressValue → Progress
  | [], key, value => [(key, value)]
  | p :: rest, key, value => if p.1 = key then (key, value) :: rest else p :: put rest key value

def pop (progress : Progress) (key : String) : Progress := progress.filter (·.1 ≠ key)

def has (progress : Progress) (key : String) : Bool := progress.any (·.1 = key)

end Progress

/-- `_PROGRESS_NUMERIC_BOUNDS` -/
def progressNumericBounds : List (String × Int × Int) :=
  [("step", 0, 10 ^ 12), ("total_steps", 0, 10 ^ 12), ("percent", 0, 100), ("step_time_s", 0, 10 ^ 9),
    ("samples_per_sec", 0, 10 ^ 9)]

/-- A number that may stay under its key. -/
def allowed (key : String) : ProgressValue → Bool
  | .text _ => true
  | .int n => (progressNumericBounds.lookup key).all fun bounds => bounds.1 ≤ n && n ≤ bounds.2
  | .float x => x.isFinite && (progressNumericBounds.lookup key).all fun bounds =>
      Floating.le (.finite bounds.1) x && x.le (.finite bounds.2)

/-- `_sanitized_progress` -/
def sanitizedProgress (progress : Progress) : Option Progress :=
  let clean := progress.filter fun p => allowed p.1 p.2
  if clean = [] then none else some clean

/-- `_format_eta_duration` -/
def formatEtaDuration (seconds : Int) : List Char :=
  let seconds := max 0 seconds
  let hours := seconds / 3600
  let minutes := seconds % 3600 / 60
  let parts := (if hours ≠ 0 then [toString hours ++ "h"] else []) ++
    (if minutes ≠ 0 ∨ hours ≠ 0 then [toString minutes ++ "m"] else []) ++
    [toString (seconds % 3600 % 60) ++ "s"]
  (" ".intercalate parts).toList

/-! ## `_parse_log_progress` -/

section

variable (word : Char → Bool) (timestamp : List Char → Option ℚ)

/-- The texts of the counts beside the plain steps: a summary first, then a fraction, then the total of a training. -/
structure CountTexts where
  current : Option (List Char)
  totals : List (List Char)
  percent : Option (List Char)

def countTexts (clean : List Char) : CountTexts :=
  match (logCompletedStepsRe.findAll word clean).getLast?, (logStepFractionRe.findAll word clean).getLast? with
  | some m, _ => ⟨some (m.text 1), [m.text 2], none⟩
  | none, some m => ⟨some (m.text 1), [m.text 2], m.group 3⟩
  | none, none => ⟨none, (logTrainTotalRe.findAll word clean).map (·.text 1), none⟩

structure Counts where
  /-- `progress["step"]` -/
  step : Option Int
  total : Option Int
  compactPercent : Option Floating

def readCounts (steps : List Match) (texts : CountTexts) : Except PyError Counts := do
  let found ← (steps.map (·.text 1)).mapM readInt
  let current ← texts.current.toList.mapM readInt
  let totals ← texts.totals.mapM readInt
  let percent ← texts.percent.toList.mapM readFloat
  return ⟨(found ++ current).max?, totals.getLast?, percent.head?⟩

/-- The percentage that a step and a total make, before it is rounded. -/
def stepPercent (step total : Option Int) : Except PyError (Option Floating) :=
  match step, total with
  | some step, some total =>
    if 0 < total ∧ 0 ≤ step ∧ step ≤ total then do
      let quotient ← trueDiv step total
      return some (binary64.mul quotient (.finite 100))
    else return none
  | _, _ => return none

/-- What the last estimate of the trainer says, and the step before it. -/
structure EtaContext where
  percent : Floating
  step : Option Int

def readEtaContext (steps : List Match) (m : Match) : Except PyError EtaContext := do
  let percent ← readFloat (m.text 4)
  let step ← (steps.filter (·.start < m.start)).getLast?.toList.mapM fun s => readInt (s.text 1)
  return ⟨percent, step.head?⟩

/-- `eta_is_usable`: no step came after the estimate, and its percentage is that of the steps. -/
def etaIsUsable (steps : List Match) (m : Match) (percent : Floating) (step total : Option Int) :
    Except PyError Bool :=
  if Floating.lt (.finite 0) percent && !(steps.getLast?.any (m.stop < ·.start)) then do
    let stepPercent ← stepPercent step total
    return stepPercent.all fun p => (binary64.sub percent p).abs.le (.finite 1)
  else return false

def addEta (steps : List Match) (last : Option Match) (step total : Option Int) (progress : Progress) :
    Except PyError (Option EtaContext × Progress) :=
  match last with
  | none => return (none, progress)
  | some m => do
    let context ← readEtaContext steps m
    if ← etaIsUsable steps m context.percent step total then
      let stepTime ← readFloat (m.text 3)
      return (some context, (((progress.put "percent" (.float context.percent)).put "eta" (.text (strip (m.text 1)))).put
        "elapsed" (.text (strip (m.text 2)))).put "step_time_s" (.float stepTime))
    else return (some context, progress)

/-- The steps of the lines whose time is one. -/
def stampTexts (clean : List Char) : List (List Char × ℚ) :=
  (logTimestampedStepRe.findAll word clean).filterMap fun m =>
    (timestamp ((m.text 1).map fun c => if c = ',' then '.' else c)).map fun time => (m.text 2, time)

def readStamps (texts : List (List Char × ℚ)) : Except PyError (List (Int × ℚ)) :=
  texts.mapM fun t => do
    let step ← readInt t.1
    return (step, t.2)

/-- Neighbours of which the second is later, and further. -/
def advances (stamps : List (Int × ℚ)) : List ((Int × ℚ) × (Int × ℚ)) :=
  (stamps.zip stamps.tail).filter fun p => p.1.1 < p.2.1 && p.1.2 < p.2.2

def stepTime (p : (Int × ℚ) × (Int × ℚ)) : Except PyError Floating := do
  let steps ← toFloat (p.2.1 - p.1.1)
  divide (binary64.sub (.finite p.2.2) (.finite p.1.2)) steps

/-- `recent_step_times` -/
def recentStepTimes (stamps : List (Int × ℚ)) : Except PyError (List Floating) := (advances stamps).mapM stepTime

/-- The step is known to be below the total. -/
def isBelow (step : Int) (total : Option Int) : Bool := total.any fun total => 0 ≤ step && step < total

/-- The estimate leaves something to do. -/
def isOpen (percent : Floating) : Bool := Floating.lt (.finite 0) percent && percent.lt (.finite 100)

def estimatedSteps (step seen : Int) (percent : Floating) : Except PyError (Option Floating) := do
  let scaled ← toFloat (seen * 100)
  let estimatedTotal ← divide scaled percent
  if Floating.lt (.finite step) estimatedTotal then
    let step ← toFloat step
    return some (binary64.sub estimatedTotal step)
  else return none

/-- `remaining_steps` -/
def remainingSteps (step total : Option Int) (context : Option EtaContext) : Except PyError (Option Floating) :=
  match step with
  | none => return none
  | some step =>
    if isBelow step total then some <$> toFloat (total.getD 0 - step)
    else match context with
      | some ⟨percent, some seen⟩ => if isOpen percent then estimatedSteps step seen percent else return none
      | _ => return none

/-- The middle of some times, or half the sum of the two in the middle. -/
def median (times : List Floating) : Floating :=
  let recent := times.mergeSort fun a b => !b.lt a
  let midpoint := recent.length / 2
  let item := fun n => recent.getD n .nan
  if recent.length % 2 = 1 then item midpoint
  else (binary64.div (binary64.add (item (midpoint - 1)) (item midpoint)) (.finite 2)).getD .nan

/-- The pace of the last timestamped steps, for what remains. -/
def addCadence (times : List Floating) (remaining : Option Floating) (progress : Progress) :
    Except PyError Progress :=
  match remaining with
  | some remaining =>
    if times = [] then return progress
    else do
      let recentStepTime := median (times.rtake 5)
      let seconds ← ceil (binary64.mul remaining recentStepTime)
      return (progress.put "eta" (.text (formatEtaDuration seconds))).put "step_time_s"
        (.float (binary64.decimals 6 recentStepTime))
  | none => return progress

def addPercent (compact : Option Floating) (step total : Option Int) (progress : Progress) :
    Except PyError Progress :=
  if progress.has "percent" then return progress
  else match compact with
    | some percent => return progress.put "percent" (.float percent)
    | none => do
      match ← stepPercent step total with
      | some percent => return progress.put "percent" (.float (binary64.decimals 2 percent))
      | none => return progress

def addThroughput (clean : List Char) (progress : Progress) : Except PyError Progress := do
  let throughput ← ((logThroughputRe.findAll word clean).map (·.text 1)).mapM readFloat
  match throughput.getLast? with
  | some rate => return progress.put "samples_per_sec" (.float rate)
  | none => return progress

/-- The last step of a count ends the estimates. -/
def addCompletion (counted : Bool) (step total : Option Int) (progress : Progress) : Progress :=
  if counted && step.isSome && step = total then
    (((progress.put "percent" (.float (.finite 100))).pop "eta").pop "elapsed").pop "step_time_s"
  else progress

def optionalEntry (key : String) (n : Option Int) : Progress := n.toList.map fun n => (key, .int n)

/-- `_parse_log_progress` -/
def parseLogProgress (text : List Char) : Except PyError (Option Progress) := do
  let clean := ansiEscapeRe.erase word text
  let steps := logStepRe.findAll word clean
  let texts := countTexts word clean
  let counts ← readCounts steps texts
  let progress := optionalEntry "step" counts.step ++ optionalEntry "total_steps" counts.total
  let (context, progress) ← addEta steps (logEtaRe.findAll word clean).getLast? counts.step counts.total progress
  let stamps ← readStamps (stampTexts word timestamp clean)
  let times ← recentStepTimes stamps
  let remaining ← remainingSteps counts.step counts.total context
  let progress ← addCadence times remaining progress
  let progress ← addPercent counts.compactPercent counts.step counts.total progress
  let progress ← addThroughput word clean progress
  return sanitizedProgress (addCompletion texts.current.isSome counts.step counts.total progress)

end

end Dt.Logs
