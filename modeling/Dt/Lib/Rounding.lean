import Mathlib.Data.Int.Log
import Mathlib.Data.Rat.Floor
import Mathlib.Tactic.Linarith
import Mathlib.Tactic.Positivity
import Mathlib.Tactic.Ring

/-!
# Binary floating point

A format has a precision and a range of exponents, and a number is rounded to the nearest one of the format, ties to
even. `round_finite_iff` says exactly which numbers have a finite neighbour: those below the middle between the
largest number of the format and the next power of two.
-/

namespace Dt.Lib

/-! ## Integers -/

/-- The integer next to a number, ties to even. -/
def halfEven (q : ℚ) : Int :=
  if Int.fract q < 1 / 2 then ⌊q⌋
  else if 1 / 2 < Int.fract q then ⌊q⌋ + 1
  else if ⌊q⌋ % 2 = 0 then ⌊q⌋ else ⌊q⌋ + 1

theorem floor_le_halfEven (q : ℚ) : ⌊q⌋ ≤ halfEven q ∧ halfEven q ≤ ⌊q⌋ + 1 := by
  unfold halfEven
  split
  · omega
  · split
    · omega
    · split <;> omega

theorem le_halfEven {q : ℚ} {n : Int} (h : (n : ℚ) ≤ q) : n ≤ halfEven q :=
  (Int.le_floor.mpr h).trans (floor_le_halfEven q).1

theorem halfEven_le {q : ℚ} {n : Int} (h : q ≤ n) : halfEven q ≤ n := by
  rcases eq_or_lt_of_le h with rfl | hlt
  · simp [halfEven]
  · have := Int.floor_lt.mpr hlt
    have := (floor_le_halfEven q).2
    omega

/-- Below the middle of two integers the lower one is next. -/
theorem halfEven_lt {q : ℚ} {n : Int} (h : q < n - 1 / 2) : halfEven q < n := by
  have hfloor : ⌊q⌋ < n := Int.floor_lt.mpr (by linarith)
  rcases Int.lt_or_le (⌊q⌋ + 1) n with hlt | hle
  · have := (floor_le_halfEven q).2
    omega
  · have hn : ⌊q⌋ = n - 1 := by omega
    have hf : Int.fract q < 1 / 2 := by
      rw [Int.fract, hn]
      push_cast
      linarith
    rw [halfEven, if_pos hf]
    exact hfloor

/-- The middle goes to an even integer above it. -/
theorem le_halfEven_even {q : ℚ} {n : Int} (hn : n % 2 = 0) (h : (n : ℚ) - 1 / 2 ≤ q) : n ≤ halfEven q := by
  rcases le_or_gt (n : ℚ) q with hle | hlt
  · exact le_halfEven hle
  have hfloor : ⌊q⌋ = n - 1 := by
    refine Int.floor_eq_iff.mpr ⟨?_, ?_⟩
    · push_cast
      linarith
    · push_cast
      linarith
  have hf : ¬ Int.fract q < 1 / 2 := by
    rw [Int.fract, hfloor]
    push_cast
    linarith
  have hodd : ¬ ⌊q⌋ % 2 = 0 := by omega
  rw [halfEven, if_neg hf, if_neg hodd, ite_self, hfloor, Int.sub_add_cancel]

/-! ## Formats -/

structure FloatFormat where
  precision : Nat
  minExp : Int
  maxExp : Int
  hprecision : 0 < precision
  hexp : minExp + precision ≤ maxExp

inductive Floating where
  | finite (q : ℚ)
  | inf (negative : Bool)
  | nan
  deriving DecidableEq

namespace Floating

def isFinite : Floating → Bool
  | finite _ => true
  | _ => false

/-- `<`, which no NaN is part of -/
def lt : Floating → Floating → Bool
  | finite a, finite b => a < b
  | finite _, inf negative => !negative
  | inf negative, finite _ => negative
  | inf a, inf b => a && !b
  | _, _ => false

def le : Floating → Floating → Bool
  | finite a, finite b => a ≤ b
  | finite _, inf negative => !negative
  | inf negative, finite _ => negative
  | inf a, inf b => a || !b
  | _, _ => false

def abs : Floating → Floating
  | finite a => finite |a|
  | inf _ => inf false
  | nan => nan

def neg : Floating → Floating
  | finite a => finite (-a)
  | inf negative => inf (!negative)
  | nan => nan

end Floating

namespace FloatFormat

variable (f : FloatFormat)

/-- The exponent of the last digit of a number. -/
def lastExp (q : ℚ) : Int := max (Int.log 2 q - (f.precision - 1)) f.minExp

/-- A positive number with the digits of the format, without a bound. -/
def nearest (q : ℚ) : ℚ := halfEven (q / 2 ^ f.lastExp q) * 2 ^ f.lastExp q

def round (q : ℚ) : Floating :=
  if f.nearest |q| < 2 ^ f.maxExp then .finite (if q < 0 then -f.nearest |q| else f.nearest |q|)
  else .inf (q < 0)

/-- The first number that is too large. -/
def threshold : ℚ := 2 ^ f.maxExp - 2 ^ (f.maxExp - f.precision - 1)

section

variable {f} {q : ℚ}

theorem two_zpow_pos (e : Int) : (0 : ℚ) < 2 ^ e := zpow_pos (by norm_num) e

theorem two_zpow_le {a b : Int} (h : a ≤ b) : (2 : ℚ) ^ a ≤ 2 ^ b := zpow_le_zpow_right₀ (by norm_num) h

theorem two_zpow_add (a b : Int) : (2 : ℚ) ^ (a + b) = 2 ^ a * 2 ^ b := zpow_add₀ (by norm_num) a b

/-- A power of two that is an integer. -/
theorem two_zpow_cast (n : Nat) : (2 : ℚ) ^ (n : Int) = ((2 ^ n : Int) : ℚ) := by
  push_cast
  exact zpow_natCast 2 n

/-- A power of two of the digits of a number stays below it. -/
theorem two_zpow_le_nearest {e : Int} (he : f.lastExp q ≤ e) (h : (2 : ℚ) ^ e ≤ q) : 2 ^ e ≤ f.nearest q := by
  obtain ⟨n, rfl⟩ : ∃ n : Nat, e = n + f.lastExp q := ⟨(e - f.lastExp q).toNat, by omega⟩
  have hpos := two_zpow_pos (f.lastExp q)
  rw [two_zpow_add, two_zpow_cast] at h ⊢
  have hdiv : ((2 ^ n : Int) : ℚ) ≤ q / 2 ^ f.lastExp q := (le_div_iff₀ hpos).mpr h
  exact mul_le_mul_of_nonneg_right (by exact_mod_cast le_halfEven hdiv) hpos.le

/-- And one above it stays above it. -/
theorem nearest_le_two_zpow {e : Int} (he : f.lastExp q ≤ e) (h : q ≤ (2 : ℚ) ^ e) : f.nearest q ≤ 2 ^ e := by
  obtain ⟨n, rfl⟩ : ∃ n : Nat, e = n + f.lastExp q := ⟨(e - f.lastExp q).toNat, by omega⟩
  have hpos := two_zpow_pos (f.lastExp q)
  rw [two_zpow_add, two_zpow_cast] at h ⊢
  have hdiv : q / 2 ^ f.lastExp q ≤ ((2 ^ n : Int) : ℚ) := (div_le_iff₀ hpos).mpr h
  exact mul_le_mul_of_nonneg_right (by exact_mod_cast halfEven_le hdiv) hpos.le

theorem threshold_eq : f.threshold = (((2 ^ f.precision : Int) : ℚ) - 1 / 2) * 2 ^ (f.maxExp - f.precision) := by
  have hfull : (2 : ℚ) ^ f.maxExp = (2 ^ f.precision : Int) * 2 ^ (f.maxExp - f.precision) := by
    rw [← two_zpow_cast, ← two_zpow_add]
    congr 1
    omega
  have hhalf : (2 : ℚ) ^ (f.maxExp - f.precision - 1) = 2 ^ (f.maxExp - f.precision) / 2 := by
    rw [zpow_sub_one₀ (by norm_num), div_eq_mul_inv]
  rw [threshold, hfull, hhalf]
  ring

theorem threshold_lt : f.threshold < 2 ^ f.maxExp := by
  have := two_zpow_pos (f.maxExp - f.precision - 1)
  unfold threshold
  linarith

theorem le_threshold : 2 ^ (f.maxExp - 1) ≤ f.threshold := by
  have hprecision := f.hprecision
  have hle : (2 : ℚ) ^ (f.maxExp - f.precision - 1) ≤ 2 ^ (f.maxExp - 1) := two_zpow_le (by omega)
  have hdouble : (2 : ℚ) ^ f.maxExp = 2 ^ (f.maxExp - 1) * 2 := by
    rw [← zpow_add_one₀ (by norm_num)]
    congr 1
    omega
  rw [threshold, hdouble]
  linarith

/-- The last power of two in the range: the digits of a number are those of the precision. -/
theorem nearest_lt_iff_last (hlog : Int.log 2 q = f.maxExp - 1) :
    f.nearest q < 2 ^ f.maxExp ↔ q < f.threshold := by
  have hexp := f.hexp
  have he : f.lastExp q = f.maxExp - f.precision := by
    unfold lastExp
    omega
  have hpos := two_zpow_pos (f.maxExp - f.precision)
  have hfull : (2 : ℚ) ^ f.maxExp = (2 ^ f.precision : Int) * 2 ^ (f.maxExp - f.precision) := by
    rw [← two_zpow_cast, ← two_zpow_add]
    congr 1
    omega
  have heven : (2 ^ f.precision : Int) % 2 = 0 := by
    obtain ⟨n, hn⟩ := Nat.exists_eq_succ_of_ne_zero f.hprecision.ne'
    rw [hn, pow_succ]
    omega
  rw [nearest, he, hfull, threshold_eq, mul_lt_mul_iff_left₀ hpos, ← div_lt_iff₀ hpos, Int.cast_lt]
  constructor
  · intro hlt
    by_contra hge
    exact absurd (le_halfEven_even heven (not_lt.mp hge)) (by omega)
  · exact halfEven_lt

/-- The numbers that a format holds, up to rounding. -/
theorem nearest_lt_iff (hq : 0 ≤ q) : f.nearest q < 2 ^ f.maxExp ↔ q < f.threshold := by
  have hexp := f.hexp
  have hprecision := f.hprecision
  have hmax : f.lastExp q = max (Int.log 2 q - (f.precision - 1)) f.minExp := rfl
  rcases hq.eq_or_lt with rfl | hq
  · have hzero : f.nearest 0 = 0 := by simp [nearest, halfEven]
    have hpos := (two_zpow_pos (f.maxExp - 1)).trans_le le_threshold
    rw [hzero]
    exact iff_of_true (two_zpow_pos _) hpos
  have hlow : (2 : ℚ) ^ Int.log 2 q ≤ q := Int.zpow_log_le_self (by norm_num) hq
  have hhigh : q < (2 : ℚ) ^ (Int.log 2 q + 1) := Int.lt_zpow_succ_log_self (by norm_num) q
  rcases lt_trichotomy (Int.log 2 q) (f.maxExp - 1) with hlt | heq | hgt
  · have hq' : q < 2 ^ (f.maxExp - 1) := hhigh.trans_le (two_zpow_le (by omega))
    have hnearest := nearest_le_two_zpow (f := f) (e := f.maxExp - 1) (by omega) hq'.le
    have hnext : (2 : ℚ) ^ (f.maxExp - 1) < 2 ^ f.maxExp := le_threshold.trans_lt threshold_lt
    exact iff_of_true (hnearest.trans_lt hnext) (hq'.trans_le le_threshold)
  · exact nearest_lt_iff_last heq
  · have hq' : 2 ^ f.maxExp ≤ q := (two_zpow_le (by omega)).trans hlow
    have hnearest := two_zpow_le_nearest (f := f) (e := Int.log 2 q) (by omega) hlow
    have hnext : (2 : ℚ) ^ f.maxExp ≤ 2 ^ Int.log 2 q := two_zpow_le (by omega)
    exact iff_of_false (hnext.trans hnearest).not_gt (threshold_lt.le.trans hq').not_gt

/-- A number has a finite neighbour exactly below the threshold. -/
theorem round_finite_iff : (f.round q).isFinite = true ↔ |q| < f.threshold := by
  rw [← nearest_lt_iff (abs_nonneg q), round]
  split
  · rename_i h
    exact iff_of_true rfl h
  · rename_i h
    exact iff_of_false (by simp [Floating.isFinite]) h

/-- A number from one on is not rounded to zero. -/
theorem round_pos (hmin : f.minExp + f.precision ≤ 1) (hq : 1 ≤ q) {r : ℚ} (h : f.round q = .finite r) : 0 < r := by
  have hpos : 0 < q := zero_lt_one.trans_le hq
  have hlog : 0 ≤ Int.log 2 q := (Int.zpow_le_iff_le_log (by norm_num) hpos).mp (by simpa using hq)
  have hprecision := f.hprecision
  have he : f.lastExp q ≤ Int.log 2 q := by
    unfold lastExp
    omega
  have hnearest := two_zpow_le_nearest he (Int.zpow_log_le_self (by norm_num) hpos)
  rw [round, abs_of_pos hpos, if_neg hpos.not_gt] at h
  split at h
  · obtain rfl := Floating.finite.inj h
    exact (two_zpow_pos _).trans_le hnearest
  · cases h

end

/-! ## Arithmetic -/

/-- An integer as a floating number; none when it is too large. -/
def ofInt (n : Int) : Option Floating := if (f.round n).isFinite then some (f.round n) else none

def add : Floating → Floating → Floating
  | .finite a, .finite b => f.round (a + b)
  | .finite _, .inf b => .inf b
  | .inf a, .finite _ => .inf a
  | .inf a, .inf b => if a = b then .inf a else .nan
  | _, _ => .nan

def sub (x y : Floating) : Floating := f.add x y.neg

def mul : Floating → Floating → Floating
  | .finite a, .finite b => f.round (a * b)
  | .finite a, .inf b => if a = 0 then .nan else .inf (xor b (a < 0))
  | .inf a, .finite b => if b = 0 then .nan else .inf (xor a (b < 0))
  | .inf a, .inf b => .inf (xor a b)
  | _, _ => .nan

/-- A quotient; none when the divisor is zero. -/
def div : Floating → Floating → Option Floating
  | _, .finite 0 => none
  | .finite a, .finite b => some (f.round (a / b))
  | .finite _, .inf _ => some (.finite 0)
  | .inf a, .finite b => some (.inf (xor a (b < 0)))
  | _, _ => some .nan

/-- The number with so many decimals that is next. -/
def decimals (n : Nat) : Floating → Floating
  | .finite a => f.round (halfEven (a * 10 ^ n) / 10 ^ n)
  | x => x

variable {f}

theorem ofInt_eq {n : Int} (h : |(n : ℚ)| < f.threshold) : f.ofInt n = some (f.round n) :=
  if_pos (round_finite_iff.mpr h)

theorem ofInt_none {n : Int} (h : ¬ |(n : ℚ)| < f.threshold) : f.ofInt n = none :=
  if_neg fun hfinite => h (round_finite_iff.mp hfinite)

theorem div_isSome (x : Floating) {y : Floating} (hy : y ≠ .finite 0) : (f.div x y).isSome = true := by
  unfold div
  split
  · exact absurd rfl hy
  all_goals rfl

end FloatFormat

/-- The double of most machines. -/
def binary64 : FloatFormat where
  precision := 53
  minExp := -1074
  maxExp := 1024
  hprecision := by decide
  hexp := by decide

end Dt.Lib
