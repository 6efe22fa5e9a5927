import Dt.Lib.Fallible
import Dt.Logs.Progress
import Mathlib.Tactic.NormNum.Pow

/-!
# When the progress of a log can be read

The reading of a log raises for the numbers that Python does not convert. What the log says is put beside the code
here, without its errors, and `parse_total_iff` tells exactly for which logs the code comes to an end: no integer has
too many digits, the differences of steps that become floats are in the range of one, and so is the time that is left.
-/

namespace Dt.Logs

open Dt.Lib

/-! ## The texts of the groups -/

theorem orRaise_ok {α : Type} {e : PyError} {o : Option α} {a : α} : orRaise e o = .ok a ↔ o = some a := by
  cases o <;> simp [orRaise]

@[simp] theorem keeps_anyCase {n : Nat} {P : List Char → Prop} (s : String) : (anyCase s).Keeps n P :=
  keeps_chain fun r hr => by
    obtain ⟨c, -, rfl⟩ := List.mem_map.mp hr
    exact trivial

theorem isDigits_of_lang {text : List Char} (h : digits.Lang text) : IsDigits text := by
  obtain ⟨a, b, rfl, ⟨c, rfl, hc⟩, hb⟩ := h
  exact ⟨by simp, List.forall_mem_cons.mpr ⟨hc, hb⟩⟩

theorem isDecimals_of_lang {text : List Char} (h : decimals.Lang text) : IsDecimals text := by
  obtain ⟨whole, rest, rfl, hwhole, hrest⟩ := h
  rcases hrest with ⟨point, fraction, rfl, ⟨c, rfl, hc⟩, hfraction⟩ | rfl
  · obtain rfl : c = '.' := by simpa using hc
    exact .inr ⟨whole, fraction, rfl, isDigits_of_lang hwhole, isDigits_of_lang hfraction⟩
  · rw [List.append_nil]
    exact .inl (isDigits_of_lang hwhole)

section

variable {n : Nat} {P : List Char → Prop}

@[simp] theorem keeps_spaces : spaces.Keeps n P := trivial

@[simp] theorem keeps_someSpaces : someSpaces.Keeps n P := keeps_atLeastOne

@[simp] theorem keeps_digits : digits.Keeps n P := keeps_atLeastOne

@[simp] theorem keeps_decimals : decimals.Keeps n P := by simp [decimals, Regex.Keeps]

example : (decimals.findAll Char.isAlphanum ['a', ' ', '1', '.', '5']).map (·.start) = [2] := by decide +kernel

@[simp] theorem keeps_shortText : shortText.Keeps n P := ⟨trivial, trivial⟩

@[simp] theorem keeps_stepMark : stepMark.Keeps n P := by simp [stepMark, Regex.Keeps]

@[simp] theorem keeps_stampRe : stampRe.Keeps n P := by
  simp [stampRe, Regex.Keeps, Regex.times, Regex.upTo, List.replicate]

end

section

variable {word : Char → Bool} {clean : List Char} {m : Match}

theorem step_text (h : m ∈ logStepRe.findAll word clean) : IsDigits (m.text 1) := by
  refine findAll_text h ?_ (by decide)
  simp +contextual [logStepRe, Regex.Keeps, isDigits_of_lang]

theorem completed_text (h : m ∈ logCompletedStepsRe.findAll word clean) :
    IsDigits (m.text 1) ∧ IsDigits (m.text 2) := by
  constructor
  · refine findAll_text h ?_ (by decide)
    simp +contextual [logCompletedStepsRe, Regex.Keeps, isDigits_of_lang]
  · refine findAll_text h ?_ (by decide)
    simp +contextual [logCompletedStepsRe, Regex.Keeps, isDigits_of_lang]

theorem fraction_text (h : m ∈ logStepFractionRe.findAll word clean) :
    IsDigits (m.text 1) ∧ IsDigits (m.text 2) ∧ ∀ text, m.group 3 = some text → IsDecimals text := by
  refine ⟨?_, ?_, fun text htext => ?_⟩
  · refine findAll_text h ?_ (by decide)
    simp +contextual [logStepFractionRe, Regex.Keeps, isDigits_of_lang]
  · refine findAll_text h ?_ (by decide)
    simp +contextual [logStepFractionRe, Regex.Keeps, isDigits_of_lang]
  · refine findAll_keeps h ?_ htext
    simp +contextual [logStepFractionRe, Regex.Keeps, isDecimals_of_lang]

theorem train_text (h : m ∈ logTrainTotalRe.findAll word clean) : IsDigits (m.text 1) := by
  refine findAll_text h ?_ (by decide)
  simp +contextual [logTrainTotalRe, Regex.Keeps, isDigits_of_lang]

theorem eta_text (h : m ∈ logEtaRe.findAll word clean) : IsDecimals (m.text 3) ∧ IsDecimals (m.text 4) := by
  constructor
  · refine findAll_text h ?_ (by decide)
    simp +contextual [logEtaRe, Regex.Keeps, isDecimals_of_lang]
  · refine findAll_text h ?_ (by decide)
    simp +contextual [logEtaRe, Regex.Keeps, isDecimals_of_lang]

theorem stamped_text (h : m ∈ logTimestampedStepRe.findAll word clean) : IsDigits (m.text 2) := by
  refine findAll_text h ?_ (by decide)
  simp +contextual [logTimestampedStepRe, Regex.Keeps, isDigits_of_lang]

theorem throughput_text (h : m ∈ logThroughputRe.findAll word clean) : IsDecimals (m.text 1) := by
  refine findAll_text h ?_ (by decide)
  simp +contextual [logThroughputRe, Regex.Keeps, isDecimals_of_lang]

end

/-! ## What a log says -/

/-- The middle between the largest float and the next power of two. -/
def floatRange : Nat := 2 ^ 1024 - 2 ^ 970

/-- An integer that becomes a float. -/
def Fits (n : Int) : Prop := n.natAbs < floatRange

instance (n : Int) : Decidable (Fits n) := inferInstanceAs (Decidable (n.natAbs < floatRange))

def IsShort (text : List Char) : Prop := text.length ≤ maxStrDigits

def saidInt (text : List Char) : Int := (pyInt text).getD 0

def saidFloat (text : List Char) : Floating := binary64.round ((decimalsValue text).getD 0)

section

variable (word : Char → Bool) (timestamp : List Char → Option ℚ) (clean : List Char)

/-- The texts of the steps: those of the plain steps and that of the count. -/
def stepTexts : List (List Char) :=
  (logStepRe.findAll word clean).map (·.text 1) ++ (countTexts word clean).current.toList

def saidStep : Option Int := ((stepTexts word clean).map saidInt).max?

def saidTotal : Option Int := ((countTexts word clean).totals.map saidInt).getLast?

def saidContext (steps : List Match) (m : Match) : EtaContext :=
  ⟨saidFloat (m.text 4), (steps.filter (·.start < m.start)).getLast?.map fun s => saidInt (s.text 1)⟩

/-- The last estimate. -/
def saidEta : Option EtaContext :=
  (logEtaRe.findAll word clean).getLast?.map (saidContext (logStepRe.findAll word clean))

def saidStamps : List (Int × ℚ) := (stampTexts word timestamp clean).map fun t => (saidInt t.1, t.2)

end

/-- The time of a step between two lines. -/
def saidStepTime (p : (Int × ℚ) × (Int × ℚ)) : Floating :=
  (binary64.div (binary64.sub (.finite p.2.2) (.finite p.1.2)) (binary64.round ((p.2.1 - p.1.1 : Int) : ℚ))).getD .nan

def pace (stamps : List (Int × ℚ)) : List Floating := (advances stamps).map saidStepTime

/-- The total that an estimate makes of the step before it. -/
def estimate (seen : Int) (percent : Floating) : Floating :=
  (binary64.div (binary64.round ((seen * 100 : Int) : ℚ)) percent).getD .nan

/-- What is left is below the range of a float: the rest of the total, or else what goes into the estimate. -/
def LeftFits (step total : Option Int) (context : Option EtaContext) : Prop :=
  match step with
  | none => True
  | some step =>
    if isBelow step total then Fits (total.getD 0 - step)
    else match context with
      | some ⟨percent, some seen⟩ => isOpen percent = true →
          Fits (seen * 100) ∧ (Floating.lt (.finite step) (estimate seen percent) = true → Fits step)
      | _ => True

/-- The steps that are left. -/
def left (step total : Option Int) (context : Option EtaContext) : Option Floating :=
  match step with
  | none => none
  | some step =>
    if isBelow step total then some (binary64.round ((total.getD 0 - step : Int) : ℚ))
    else match context with
      | some ⟨percent, some seen⟩ =>
        if isOpen percent && Floating.lt (.finite step) (estimate seen percent) then
          some (binary64.sub (estimate seen percent) (binary64.round step))
        else none
      | _ => none

/-- The time that is left is a number. -/
def TimeFits (times : List Floating) (left : Option Floating) : Prop :=
  ∀ steps ∈ left, times ≠ [] → (binary64.mul steps (median (times.rtake 5))).isFinite = true

/-- A log whose numbers Python converts. -/
structure Convertible (word : Char → Bool) (timestamp : List Char → Option ℚ) (clean : List Char) : Prop where
  stepsShort : ∀ text ∈ stepTexts word clean, IsShort text
  totalsShort : ∀ text ∈ (countTexts word clean).totals, IsShort text
  stampsShort : ∀ t ∈ stampTexts word timestamp clean, IsShort t.1
  paceFits : ∀ p ∈ advances (saidStamps word timestamp clean), Fits (p.2.1 - p.1.1)
  leftFits : LeftFits (saidStep word clean) (saidTotal word clean) (saidEta word clean)
  timeFits : TimeFits (pace (saidStamps word timestamp clean))
    (left (saidStep word clean) (saidTotal word clean) (saidEta word clean))

/-! ## The numbers -/

theorem threshold_binary64 : binary64.threshold = (floatRange : ℚ) := by
  have hexp : binary64.maxExp - binary64.precision - 1 = (970 : Nat) := by decide
  have hmax : binary64.maxExp = (1024 : Nat) := rfl
  have hle : 2 ^ 970 ≤ 2 ^ 1024 := pow_le_pow_right₀ one_le_two (by decide)
  rw [floatRange, Nat.cast_sub hle, Nat.cast_pow, Nat.cast_pow,
    FloatFormat.threshold, hexp, hmax, zpow_natCast, zpow_natCast]
  rfl

theorem one_lt_threshold : 1 < binary64.threshold :=
  (one_lt_zpow₀ (by norm_num) (by decide)).trans_le FloatFormat.le_threshold

theorem fits_iff {n : Int} : |(n : ℚ)| < binary64.threshold ↔ Fits n := by
  rw [threshold_binary64, ← Int.cast_abs, Int.abs_eq_natAbs, Fits]
  exact_mod_cast Iff.rfl

theorem toFloat_ok {n : Int} {x : Floating} : toFloat n = .ok x ↔ Fits n ∧ x = binary64.round n := by
  rw [toFloat, orRaise_ok, ← fits_iff]
  by_cases h : |(n : ℚ)| < binary64.threshold
  · rw [FloatFormat.ofInt_eq h, Option.some_inj]
    simp [h, eq_comm]
  · rw [FloatFormat.ofInt_none h]
    simp [h]

theorem readInt_ok {text : List Char} (h : IsDigits text) {n : Int} :
    readInt text = .ok n ↔ IsShort text ∧ n = saidInt text := by
  obtain ⟨value, hvalue⟩ := Option.isSome_iff_exists.mp (pyInt_isSome h)
  unfold readInt saidInt IsShort
  rw [hvalue]
  split
  · simp; omega
  · simp [orRaise, eq_comm]; omega

theorem readFloat_ok {text : List Char} (h : IsDecimals text) : readFloat text = .ok (saidFloat text) := by
  obtain ⟨value, hvalue⟩ := Option.isSome_iff_exists.mp (decimalsValue_isSome h)
  rw [readFloat, saidFloat, hvalue]
  rfl

theorem round_ne_zero {n : Int} (h : 0 < n) : binary64.round n ≠ .finite 0 := fun hzero =>
  (FloatFormat.round_pos (by decide) (by exact_mod_cast h) hzero).ne rfl

theorem divide_ok {x y z : Floating} (h : y ≠ .finite 0) :
    divide x y = .ok z ↔ z = (binary64.div x y).getD .nan := by
  obtain ⟨q, hq⟩ := Option.isSome_iff_exists.mp (FloatFormat.div_isSome x h)
  rw [divide, orRaise_ok, hq, Option.some_inj, Option.getD_some, eq_comm]

theorem trueDiv_ok {n m : Int} (hm : m ≠ 0) (h : |(n : ℚ) / m| < binary64.threshold) :
    trueDiv n m = .ok (binary64.round (n / m)) := by
  rw [trueDiv, if_neg hm, if_pos (FloatFormat.round_finite_iff.mpr h)]

/-- A step and its total make a percentage. -/
theorem stepPercent_ok (step total : Option Int) : ∃ percent, stepPercent step total = .ok percent := by
  unfold stepPercent
  split
  · rename_i step total
    split
    · rename_i h
      have hquotient : |(step : ℚ) / total| < binary64.threshold := by
        have htotal : (0 : ℚ) < total := by exact_mod_cast h.1
        have hstep : (0 : ℚ) ≤ step := by exact_mod_cast h.2.1
        have hone : |(step : ℚ) / total| ≤ 1 := by
          rw [abs_of_nonneg (div_nonneg hstep htotal.le), div_le_one htotal]
          exact_mod_cast h.2.2
        exact hone.trans_lt one_lt_threshold
      have htrue := trueDiv_ok h.1.ne' hquotient
      exact ⟨_, bind_ok.mpr ⟨_, htrue, rfl⟩⟩
    · exact ⟨none, rfl⟩
  · exact ⟨none, rfl⟩

theorem ceil_ok {x : Floating} : (∃ n, ceil x = .ok n) ↔ x.isFinite = true := by
  cases x <;> simp [ceil, Floating.isFinite]

/-! ## The stages -/

section

variable {word : Char → Bool} {timestamp : List Char → Option ℚ} {clean : List Char}

theorem countTexts_spec (word : Char → Bool) (clean : List Char) :
    (∀ text ∈ (countTexts word clean).current.toList, IsDigits text) ∧
      (∀ text ∈ (countTexts word clean).totals, IsDigits text) ∧
      ∀ text ∈ (countTexts word clean).percent.toList, IsDecimals text := by
  unfold countTexts
  split
  · rename_i m hlast
    have h := completed_text (List.mem_of_getLast? hlast)
    exact ⟨by simpa using h.1, by simpa using h.2, by simp⟩
  · rename_i m hnone hlast
    have h := fraction_text (List.mem_of_getLast? hlast)
    exact ⟨by simpa using h.1, by simpa using h.2.1, by simpa using h.2.2⟩
  · refine ⟨by simp, fun text htext => ?_, by simp⟩
    obtain ⟨m, hm, rfl⟩ := List.mem_map.mp htext
    exact train_text hm

theorem stepTexts_digits : ∀ text ∈ stepTexts word clean, IsDigits text := by
  refine List.forall_mem_append.mpr ⟨fun text htext => ?_, (countTexts_spec word clean).1⟩
  obtain ⟨m, hm, rfl⟩ := List.mem_map.mp htext
  exact step_text hm

theorem readInts_ok {texts : List (List Char)} (h : ∀ text ∈ texts, IsDigits text) {ns : List Int} :
    texts.mapM readInt = .ok ns ↔ (∀ text ∈ texts, IsShort text) ∧ ns = texts.map saidInt :=
  mapM_ok_iff fun text htext _ => readInt_ok (h text htext)

theorem readFloats_ok {texts : List (List Char)} (h : ∀ text ∈ texts, IsDecimals text) :
    texts.mapM readFloat = .ok (texts.map saidFloat) :=
  mapM_ok fun text htext => readFloat_ok (h text htext)

/-- The counts are read when their integers are short. -/
theorem readCounts_ok {counts : Counts} :
    readCounts (logStepRe.findAll word clean) (countTexts word clean) = .ok counts ↔
      ((∀ text ∈ stepTexts word clean, IsShort text) ∧ ∀ text ∈ (countTexts word clean).totals, IsShort text) ∧
        counts = ⟨saidStep word clean, saidTotal word clean,
          ((countTexts word clean).percent.toList.map saidFloat).head?⟩ := by
  obtain ⟨hcurrent, htotals, hpercent⟩ := countTexts_spec word clean
  have hfound : ∀ text ∈ (logStepRe.findAll word clean).map (·.text 1), IsDigits text :=
    fun text htext => stepTexts_digits text (List.mem_append_left _ htext)
  simp only [readCounts, bind_ok, readInts_ok hfound, readInts_ok hcurrent, readInts_ok htotals,
    readFloats_ok hpercent, stepTexts, List.forall_mem_append, saidStep, saidTotal, List.map_append]
  constructor
  · rintro ⟨_, ⟨hf, rfl⟩, _, ⟨hc, rfl⟩, _, ⟨ht, rfl⟩, _, hp, heq⟩
    cases hp
    exact ⟨⟨⟨hf, hc⟩, ht⟩, (Except.ok.inj heq).symm⟩
  · rintro ⟨⟨⟨hf, hc⟩, ht⟩, rfl⟩
    exact ⟨_, ⟨hf, rfl⟩, _, ⟨hc, rfl⟩, _, ⟨ht, rfl⟩, _, rfl, rfl⟩

/-- The estimate gives no new integer. -/
theorem readEtaContext_ok (hshort : ∀ text ∈ stepTexts word clean, IsShort text) {m : Match}
    (hm : m ∈ logEtaRe.findAll word clean) :
    readEtaContext (logStepRe.findAll word clean) m = .ok (saidContext (logStepRe.findAll word clean) m) := by
  have hstep : ∀ s ∈ ((logStepRe.findAll word clean).filter (·.start < m.start)).getLast?.toList,
      readInt (s.text 1) = .ok (saidInt (s.text 1)) := by
    intro s hs
    have hmem := List.mem_of_mem_filter (List.mem_of_getLast? (Option.mem_toList.mp hs))
    have htext : s.text 1 ∈ stepTexts word clean := List.mem_append_left _ (List.mem_map_of_mem hmem)
    exact (readInt_ok (step_text hmem)).mpr ⟨hshort _ htext, rfl⟩
  rw [readEtaContext, readFloat_ok (eta_text hm).2]
  refine bind_ok.mpr ⟨_, rfl, bind_ok.mpr ⟨_, mapM_ok hstep, ?_⟩⟩
  rw [saidContext]
  cases ((logStepRe.findAll word clean).filter (·.start < m.start)).getLast? <;> rfl

theorem etaIsUsable_ok (steps : List Match) (m : Match) (percent : Floating) (step total : Option Int) :
    ∃ usable, etaIsUsable steps m percent step total = .ok usable := by
  unfold etaIsUsable
  split
  · obtain ⟨p, hp⟩ := stepPercent_ok step total
    exact ⟨_, bind_ok.mpr ⟨p, hp, rfl⟩⟩
  · exact ⟨false, rfl⟩

theorem readStamps_ok {stamps : List (Int × ℚ)} :
    readStamps (stampTexts word timestamp clean) = .ok stamps ↔
      (∀ t ∈ stampTexts word timestamp clean, IsShort t.1) ∧ stamps = saidStamps word timestamp clean := by
  refine mapM_ok_iff fun t ht stamp => ?_
  obtain ⟨m, hm, htime⟩ := List.mem_filterMap.mp ht
  obtain ⟨time, -, rfl⟩ := Option.map_eq_some_iff.mp htime
  simp only [bind_ok, readInt_ok (stamped_text hm)]
  constructor
  · rintro ⟨_, ⟨hshort, rfl⟩, heq⟩
    exact ⟨hshort, (Except.ok.inj heq).symm⟩
  · rintro ⟨hshort, rfl⟩
    exact ⟨_, ⟨hshort, rfl⟩, rfl⟩

theorem stepTime_ok {p : (Int × ℚ) × (Int × ℚ)} (h : p.1.1 < p.2.1) {x : Floating} :
    stepTime p = .ok x ↔ Fits (p.2.1 - p.1.1) ∧ x = saidStepTime p := by
  simp only [stepTime, bind_ok, toFloat_ok]
  constructor
  · rintro ⟨_, ⟨hfits, rfl⟩, hx⟩
    exact ⟨hfits, (divide_ok (round_ne_zero (by omega))).mp hx⟩
  · rintro ⟨hfits, rfl⟩
    exact ⟨_, ⟨hfits, rfl⟩, (divide_ok (round_ne_zero (by omega))).mpr rfl⟩

theorem recentStepTimes_ok {stamps : List (Int × ℚ)} {times : List Floating} :
    recentStepTimes stamps = .ok times ↔ (∀ p ∈ advances stamps, Fits (p.2.1 - p.1.1)) ∧ times = pace stamps := by
  refine mapM_ok_iff fun p hp x => stepTime_ok ?_
  have := List.of_mem_filter hp
  simp only [Bool.and_eq_true, decide_eq_true_eq] at this
  exact this.1

theorem isOpen_ne_zero {percent : Floating} (h : isOpen percent = true) : percent ≠ .finite 0 := by
  rintro rfl
  simp [isOpen, Floating.lt] at h

theorem estimatedSteps_ok {step seen : Int} {percent : Floating} (h : isOpen percent = true)
    {r : Option Floating} :
    estimatedSteps step seen percent = .ok r ↔
      (Fits (seen * 100) ∧ (Floating.lt (.finite step) (estimate seen percent) = true → Fits step)) ∧
        r = if Floating.lt (.finite step) (estimate seen percent) then
          some (binary64.sub (estimate seen percent) (binary64.round step)) else none := by
  simp only [estimatedSteps, bind_ok, toFloat_ok, divide_ok (isOpen_ne_zero h)]
  constructor
  · rintro ⟨_, ⟨hscaled, rfl⟩, _, rfl, hrest⟩
    split at hrest
    · rename_i hlt
      obtain ⟨_, hstep, heq⟩ := bind_ok.mp hrest
      obtain ⟨hfits, rfl⟩ := toFloat_ok.mp hstep
      rw [if_pos (by exact hlt)]
      exact ⟨⟨hscaled, fun _ => hfits⟩, (Except.ok.inj heq).symm⟩
    · rename_i hlt
      rw [if_neg (by exact hlt)]
      exact ⟨⟨hscaled, fun hlt' => absurd hlt' hlt⟩, (Except.ok.inj hrest).symm⟩
  · rintro ⟨⟨hscaled, hfits⟩, rfl⟩
    refine ⟨_, ⟨hscaled, rfl⟩, _, rfl, ?_⟩
    split
    · rename_i hlt
      rw [if_pos (by exact hlt)]
      exact bind_ok.mpr ⟨_, toFloat_ok.mpr ⟨hfits hlt, rfl⟩, rfl⟩
    · rename_i hlt
      rw [if_neg (by exact hlt)]
      rfl

theorem remainingSteps_ok {step total : Option Int} {context : Option EtaContext} {r : Option Floating} :
    remainingSteps step total context = .ok r ↔ LeftFits step total context ∧ r = left step total context := by
  have hnone : (Except.ok none : Except PyError (Option Floating)) = .ok r ↔ True ∧ r = none := by
    simp [eq_comm]
  unfold remainingSteps LeftFits left
  cases step with
  | none => exact hnone
  | some step =>
    dsimp only
    split
    · cases hfloat : toFloat (total.getD 0 - step) with
      | ok x =>
        obtain ⟨hfits, rfl⟩ := toFloat_ok.mp hfloat
        simp [hfits, Functor.map, Except.map, eq_comm]
      | error e =>
        have hfits : ¬ Fits (total.getD 0 - step) := fun hfits => by
          have := hfloat.symm.trans (toFloat_ok.mpr ⟨hfits, rfl⟩)
          cases this
        simp [hfits, Functor.map, Except.map]
    · match context with
      | none => exact hnone
      | some ⟨percent, none⟩ => exact hnone
      | some ⟨percent, some seen⟩ =>
        dsimp only
        cases hopen : isOpen percent with
        | true => simpa using estimatedSteps_ok hopen
        | false => simpa [pure, Except.pure] using hnone

/-- The pace is used when the time that is left is a number. -/
theorem addCadence_ok {times : List Floating} {remaining : Option Floating} {progress : Progress} :
    (∃ r, addCadence times remaining progress = .ok r) ↔ TimeFits times remaining := by
  unfold addCadence TimeFits
  cases remaining with
  | none => exact iff_of_true ⟨progress, rfl⟩ (by simp)
  | some steps =>
    by_cases htimes : times = []
    · simp [htimes, pure, Except.pure]
    · dsimp only
      rw [if_neg htimes]
      constructor
      · rintro ⟨r, hr⟩ _ ⟨⟩ -
        obtain ⟨seconds, hseconds, -⟩ := bind_ok.mp hr
        exact ceil_ok.mp ⟨seconds, hseconds⟩
      · intro h
        obtain ⟨seconds, hseconds⟩ := ceil_ok.mpr (h steps rfl htimes)
        exact ⟨_, bind_ok.mpr ⟨seconds, hseconds, rfl⟩⟩

/-! ## The keys of numbers -/

/-- Every number stands under a key with bounds. -/
def Known (progress : Progress) : Prop :=
  ∀ p ∈ progress, (∃ t, p.2 = .text t) ∨ (progressNumericBounds.lookup p.1).isSome = true

theorem Known.put {progress : Progress} (h : Known progress) {key : String} {value : ProgressValue}
    (hnew : (∃ t, value = .text t) ∨ (progressNumericBounds.lookup key).isSome = true) :
    Known (progress.put key value) := by
  induction progress with
  | nil => exact List.forall_mem_singleton.mpr hnew
  | cons p progress ih =>
    obtain ⟨hp, hprogress⟩ := List.forall_mem_cons.mp h
    rw [Progress.put]
    split
    · exact List.forall_mem_cons.mpr ⟨hnew, hprogress⟩
    · exact List.forall_mem_cons.mpr ⟨hp, ih hprogress⟩

theorem Known.pop {progress : Progress} (h : Known progress) (key : String) : Known (progress.pop key) :=
  fun p hp => h p (List.mem_of_mem_filter hp)

theorem known_counts (step total : Option Int) :
    Known (optionalEntry "step" step ++ optionalEntry "total_steps" total) := by
  refine List.forall_mem_append.mpr ⟨fun p hp => .inr ?_, fun p hp => .inr ?_⟩
  · obtain ⟨n, -, rfl⟩ := List.mem_map.mp hp
    rfl
  · obtain ⟨n, -, rfl⟩ := List.mem_map.mp hp
    rfl

/-- The estimate of a log with short integers is read. -/
theorem addEta_ok (hshort : ∀ text ∈ stepTexts word clean, IsShort text) {progress : Progress}
    (hknown : Known progress) (step total : Option Int) :
    ∃ r, addEta (logStepRe.findAll word clean) (logEtaRe.findAll word clean).getLast? step total progress =
      .ok (saidEta word clean, r) ∧ Known r := by
  unfold addEta saidEta
  cases hlast : (logEtaRe.findAll word clean).getLast? with
  | none => exact ⟨progress, rfl, hknown⟩
  | some m =>
    have hm := List.mem_of_getLast? hlast
    obtain ⟨usable, husable⟩ := etaIsUsable_ok (logStepRe.findAll word clean) m
      (saidContext (logStepRe.findAll word clean) m).percent step total
    cases usable with
    | true =>
      refine ⟨_, bind_ok.mpr ⟨_, readEtaContext_ok hshort hm, bind_ok.mpr ⟨true, husable,
        bind_ok.mpr ⟨_, readFloat_ok (eta_text hm).1, rfl⟩⟩⟩, ?_⟩
      exact (((hknown.put (.inr (by decide))).put (.inl ⟨_, rfl⟩)).put (.inl ⟨_, rfl⟩)).put (.inr (by decide))
    | false =>
      exact ⟨progress, bind_ok.mpr ⟨_, readEtaContext_ok hshort hm, bind_ok.mpr ⟨false, husable, rfl⟩⟩, hknown⟩

theorem addCadence_known {times : List Floating} {remaining : Option Floating} {progress r : Progress}
    (hknown : Known progress) (h : addCadence times remaining progress = .ok r) : Known r := by
  unfold addCadence at h
  split at h
  · split at h
    · obtain rfl := Except.ok.inj h
      exact hknown
    · obtain ⟨seconds, -, heq⟩ := bind_ok.mp h
      obtain rfl := Except.ok.inj heq
      exact (hknown.put (.inl ⟨_, rfl⟩)).put (.inr (by decide))
  · obtain rfl := Except.ok.inj h
    exact hknown

theorem addPercent_ok (compact : Option Floating) (step total : Option Int) {progress : Progress}
    (hknown : Known progress) : ∃ r, addPercent compact step total progress = .ok r ∧ Known r := by
  unfold addPercent
  split
  · exact ⟨progress, rfl, hknown⟩
  · split
    · exact ⟨_, rfl, hknown.put (.inr (by decide))⟩
    · obtain ⟨percent, hpercent⟩ := stepPercent_ok step total
      cases percent with
      | some percent => exact ⟨_, bind_ok.mpr ⟨_, hpercent, rfl⟩, hknown.put (.inr (by decide))⟩
      | none => exact ⟨progress, bind_ok.mpr ⟨_, hpercent, rfl⟩, hknown⟩

theorem addThroughput_ok {progress : Progress} (hknown : Known progress) :
    ∃ r, addThroughput word clean progress = .ok r ∧ Known r := by
  have htexts : ∀ text ∈ (logThroughputRe.findAll word clean).map (·.text 1), IsDecimals text := by
    intro text htext
    obtain ⟨m, hm, rfl⟩ := List.mem_map.mp htext
    exact throughput_text hm
  unfold addThroughput
  rw [readFloats_ok htexts]
  cases hlast : (((logThroughputRe.findAll word clean).map (·.text 1)).map saidFloat).getLast? with
  | none => exact ⟨progress, bind_ok.mpr ⟨_, rfl, by rw [hlast]; rfl⟩, hknown⟩
  | some rate =>
    exact ⟨_, bind_ok.mpr ⟨_, rfl, by rw [hlast]; rfl⟩, hknown.put (.inr (by decide))⟩

theorem known_addCompletion {progress : Progress} (hknown : Known progress) (counted : Bool)
    (step total : Option Int) : Known (addCompletion counted step total progress) := by
  unfold addCompletion
  split
  · exact (((hknown.put (.inr (by decide))).pop _).pop _).pop _
  · exact hknown

/-! ## The whole log -/

/-- A value that stands under its key: a text, or a number within the bounds of the key. -/
def InBounds (key : String) : ProgressValue → Prop
  | .text _ => True
  | .int n => ∃ bounds, progressNumericBounds.lookup key = some bounds ∧ bounds.1 ≤ n ∧ n ≤ bounds.2
  | .float x => ∃ q, x = .finite q ∧ ∃ bounds, progressNumericBounds.lookup key = some bounds ∧
      (bounds.1 : ℚ) ≤ q ∧ q ≤ bounds.2

/-- The mapping holds no number out of bounds. -/
theorem sanitized_inBounds {progress r : Progress} (hknown : Known progress)
    (h : sanitizedProgress progress = some r) : ∀ p ∈ r, InBounds p.1 p.2 := by
  unfold sanitizedProgress at h
  dsimp only at h
  split at h
  · cases h
  obtain rfl := Option.some.inj h
  intro p hp
  obtain ⟨hmem, hallowed⟩ := List.mem_filter.mp hp
  obtain ⟨key, value⟩ := p
  cases value with
  | text t => exact trivial
  | int n =>
    obtain ⟨bounds, hbounds⟩ := Option.isSome_iff_exists.mp ((hknown _ hmem).resolve_left (by simp))
    dsimp only [allowed] at hallowed
    rw [hbounds] at hallowed
    simp only [Option.all_some, Bool.and_eq_true, decide_eq_true_eq] at hallowed
    exact ⟨bounds, hbounds, hallowed⟩
  | float x =>
    obtain ⟨bounds, hbounds⟩ := Option.isSome_iff_exists.mp ((hknown _ hmem).resolve_left (by simp))
    dsimp only [allowed] at hallowed
    rw [hbounds] at hallowed
    cases x with
    | finite q =>
      simp only [Floating.isFinite, Floating.le, Option.all_some, Bool.and_eq_true, decide_eq_true_eq] at hallowed
      exact ⟨q, rfl, bounds, hbounds, hallowed.2⟩
    | inf negative => cases hallowed
    | nan => cases hallowed

theorem convertible_of_parse {text : List Char} {result : Option Progress}
    (h : parseLogProgress word timestamp text = .ok result) :
    Convertible word timestamp (ansiEscapeRe.erase word text) := by
  unfold parseLogProgress at h
  generalize ansiEscapeRe.erase word text = clean at h ⊢
  obtain ⟨counts, hcounts, h⟩ := bind_ok.mp h
  obtain ⟨⟨hsteps, htotals⟩, rfl⟩ := readCounts_ok.mp hcounts
  obtain ⟨⟨context, progress⟩, heta, h⟩ := bind_ok.mp h
  obtain ⟨r, hr, -⟩ := addEta_ok hsteps (known_counts (saidStep word clean) (saidTotal word clean))
    (saidStep word clean) (saidTotal word clean)
  obtain ⟨rfl, rfl⟩ := Prod.mk.inj (Except.ok.inj (heta.symm.trans hr))
  obtain ⟨stamps, hread, h⟩ := bind_ok.mp h
  obtain ⟨hstamps, rfl⟩ := readStamps_ok.mp hread
  obtain ⟨times, htimes, h⟩ := bind_ok.mp h
  obtain ⟨hpace, rfl⟩ := recentStepTimes_ok.mp htimes
  obtain ⟨remaining, hremaining, h⟩ := bind_ok.mp h
  obtain ⟨hleft, rfl⟩ := remainingSteps_ok.mp hremaining
  obtain ⟨progress, hcadence, -⟩ := bind_ok.mp h
  exact ⟨hsteps, htotals, hstamps, hpace, hleft, addCadence_ok.mp ⟨_, hcadence⟩⟩

/-- The rest of a known total has to be in the range. -/
theorem fits_of_parse {text : List Char} {result : Option Progress} {step total : Int}
    (h : parseLogProgress word timestamp text = .ok result)
    (hstep : saidStep word (ansiEscapeRe.erase word text) = some step)
    (htotal : saidTotal word (ansiEscapeRe.erase word text) = some total)
    (hbelow : isBelow step (some total) = true) : Fits (total - step) := by
  have hfits := (convertible_of_parse h).leftFits
  rw [hstep, htotal] at hfits
  dsimp only [LeftFits] at hfits
  rwa [if_pos hbelow] at hfits

theorem parse_of_convertible {text : List Char} (h : Convertible word timestamp (ansiEscapeRe.erase word text)) :
    ∃ progress, parseLogProgress word timestamp text = .ok (sanitizedProgress progress) ∧ Known progress := by
  unfold parseLogProgress
  generalize ansiEscapeRe.erase word text = clean at h ⊢
  have hcounts := readCounts_ok.mpr ⟨⟨h.stepsShort, h.totalsShort⟩, rfl⟩
  obtain ⟨progress, heta, hknown⟩ := addEta_ok h.stepsShort
    (known_counts (saidStep word clean) (saidTotal word clean)) (saidStep word clean) (saidTotal word clean)
  have hstamps := readStamps_ok.mpr ⟨h.stampsShort, rfl⟩
  have htimes := recentStepTimes_ok.mpr ⟨h.paceFits, rfl⟩
  have hremaining := remainingSteps_ok.mpr ⟨h.leftFits, rfl⟩
  obtain ⟨paced, hcadence⟩ := (@addCadence_ok _ _ progress).mpr h.timeFits
  obtain ⟨counted, hpercent, hknown⟩ := addPercent_ok
    (((countTexts word clean).percent.toList.map saidFloat).head?) (saidStep word clean) (saidTotal word clean)
    (addCadence_known hknown hcadence)
  obtain ⟨last, hlast, hknown⟩ := @addThroughput_ok word clean _ hknown
  exact ⟨_, bind_ok.mpr ⟨_, hcounts, bind_ok.mpr ⟨_, heta, bind_ok.mpr ⟨_, hstamps, bind_ok.mpr ⟨_, htimes,
    bind_ok.mpr ⟨_, hremaining, bind_ok.mpr ⟨_, hcadence, bind_ok.mpr ⟨_, hpercent,
      bind_ok.mpr ⟨_, hlast, rfl⟩⟩⟩⟩⟩⟩⟩⟩, known_addCompletion hknown _ _ _⟩

end

/-- The code comes to an end exactly on the logs whose numbers Python converts. -/
theorem parse_total_iff (word : Char → Bool) (timestamp : List Char → Option ℚ) (text : List Char) :
    (∃ result, parseLogProgress word timestamp text = .ok result ∧
      ∀ progress, result = some progress → ∀ p ∈ progress, InBounds p.1 p.2) ↔
      Convertible word timestamp (ansiEscapeRe.erase word text) := by
  constructor
  · rintro ⟨result, hresult, -⟩
    exact convertible_of_parse hresult
  · intro h
    obtain ⟨progress, hparse, hknown⟩ := parse_of_convertible h
    exact ⟨_, hparse, fun r hr => sanitized_inBounds hknown hr⟩

/-- `[A-Za-z0-9_]` -/
def asciiWord (c : Char) : Bool := c.isAlphanum || c = '_'

/-- A count whose total is above every float. -/
def hugeTotal : List Char := "step: 1/".toList ++ List.replicate 309 '9'

theorem huge_total : ¬ ∀ text, ∃ result, parseLogProgress asciiWord (fun _ => none) text = .ok result ∧
    ∀ progress, result = some progress → ∀ p ∈ progress, InBounds p.1 p.2 := by
  intro h
  obtain ⟨result, hresult, -⟩ := h hugeTotal
  have hstep : saidStep asciiWord (ansiEscapeRe.erase asciiWord hugeTotal) = some 1 := by decide +kernel
  obtain ⟨total, htotal, hbelow, hlarge⟩ : ∃ total,
      saidTotal asciiWord (ansiEscapeRe.erase asciiWord hugeTotal) = some total ∧
        isBelow 1 (some total) = true ∧ ¬ Fits (total - 1) :=
    ⟨10 ^ 309 - 1, by decide +kernel, by decide +kernel, by decide +kernel⟩
  exact hlarge (fits_of_parse hresult hstep htotal hbelow)

end Dt.Logs
