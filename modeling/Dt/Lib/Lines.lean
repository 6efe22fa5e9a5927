import Mathlib
import Dt.Lib.Text

/-!
# Texts of several lines

A program that prints some texts, each with a newline, prints a text whose lines are the lines of
the printed ones, in their order: a newline ends a line whatever stands before it. Only the end of
the whole text can be lost to a reader that strips it first.
-/

namespace Dt.Lib

/-! ## Lines of a printed text -/

theorem splitlinesAux_cons {c : Char} {cs : List Char} (cur : List Char)
    (h : c = '\r' → ∀ rest, cs ≠ '\n' :: rest) :
    splitlinesAux (c :: cs) cur =
      if isLineEnd c then cur.reverse :: splitlinesAux cs [] else splitlinesAux cs (c :: cur) := by
  rw [splitlinesAux]
  exact fun rest hc hcs => h hc rest hcs

theorem splitlinesAux_newline (a b cur : List Char) :
    splitlinesAux (a ++ '\n' :: b) cur = splitlinesAux (a ++ ['\n']) cur ++ splitlines b := by
  fun_induction splitlinesAux a cur with
  | case1 cur hempty => simp [splitlinesAux, splitlines, isLineEnd]
  | case2 cur hne => simp [splitlinesAux, splitlines, isLineEnd]
  | case3 cs cur ih => simp only [List.cons_append, splitlinesAux, ih]
  | case4 c cs cur hne hc ih =>
    by_cases hreturn : c = '\r' ∧ cs = []
    · -- the newline belongs to a carriage return
      obtain ⟨rfl, rfl⟩ := hreturn
      simp [splitlinesAux, splitlines]
    · have hcut : ∀ tail, c = '\r' → ∀ rest, cs ++ '\n' :: tail ≠ '\n' :: rest := by
        intro tail hr rest heq
        cases cs with
        | nil => exact hreturn ⟨hr, rfl⟩
        | cons d ds => exact hne ds hr (by simp_all)
      rw [List.cons_append, List.cons_append, splitlinesAux_cons cur (hcut b),
        splitlinesAux_cons cur (hcut []), if_pos hc, if_pos hc, ih, List.cons_append]
  | case5 c cs cur hne hc ih =>
    have hreturn : c ≠ '\r' := by
      rintro rfl
      exact hc (by decide)
    rw [List.cons_append, List.cons_append, splitlinesAux_cons cur (absurd · hreturn),
      splitlinesAux_cons cur (absurd · hreturn), if_neg hc, if_neg hc, ih]

theorem IsLine.append {a b : List Char} (ha : IsLine a) (hb : IsLine b) : IsLine (a ++ b) := by
  intro c hc
  rcases List.mem_append.mp hc with hc | hc
  · exact ha c hc
  · exact hb c hc

/-- The lines of a text that is printed with a newline. -/
def linesOf (text : List Char) : List (List Char) := splitlines (text ++ ['\n'])

theorem splitlines_unlines_eq (texts : List (List Char)) :
    splitlines (unlines texts) = texts.flatMap linesOf := by
  induction texts with
  | nil => rfl
  | cons text texts ih =>
    have hcons : unlines (text :: texts) = text ++ '\n' :: unlines texts := by simp [unlines]
    rw [hcons, splitlines, splitlinesAux_newline, ih]
    rfl

theorem linesOf_line {l : List Char} (h : IsLine l) : linesOf l = [l] := splitlines_line h []

theorem splitlinesAux_ne_nil {s cur : List Char} (h : s ≠ [] ∨ cur ≠ []) :
    splitlinesAux s cur ≠ [] := by
  fun_induction splitlinesAux s cur with
  | case1 cur hempty => simp_all
  | case2 cur hne => simp
  | case3 cs cur ih => simp
  | case4 c cs cur hne hc ih => simp
  | case5 c cs cur hne hc ih => exact ih (.inr (by simp))

theorem splitlines_eq_nil {s : List Char} : splitlines s = [] ↔ s = [] := by
  constructor
  · intro h
    by_contra hne
    exact splitlinesAux_ne_nil (.inl hne) h
  · rintro rfl
    rfl

theorem linesOf_ne_nil (text : List Char) : linesOf text ≠ [] := by
  simp [linesOf, splitlines_eq_nil]

/-- A line is a part of its text. -/
theorem splitlinesAux_infix {s cur l : List Char} (h : l ∈ splitlinesAux s cur) :
    l <:+: cur.reverse ++ s := by
  fun_induction splitlinesAux s cur with
  | case1 cur hempty => cases h
  | case2 cur hne =>
    obtain rfl := List.mem_singleton.mp h
    simp
  | case3 cs cur ih =>
    rcases List.mem_cons.mp h with rfl | h
    · exact (List.prefix_append _ _).isInfix
    · exact (ih h).trans (by simpa using ⟨cur.reverse ++ ['\r', '\n'], [], by simp⟩)
  | case4 c cs cur hne hc ih =>
    rcases List.mem_cons.mp h with rfl | h
    · exact (List.prefix_append _ _).isInfix
    · exact (ih h).trans (by simpa using ⟨cur.reverse ++ [c], [], by simp⟩)
  | case5 c cs cur hne hc ih => simpa using ih h

/-! ## The end of a text -/

/-- `s.rstrip()`. -/
def rstrip (s : List Char) : List Char := (s.reverse.dropWhile isSpace).reverse

theorem strip_of_head {c : Char} (h : isSpace c = false) (s : List Char) :
    strip (c :: s) = rstrip (c :: s) := by
  simp [strip, rstrip, h]

theorem rstrip_eq_nil {s : List Char} : rstrip s = [] ↔ ∀ c ∈ s, isSpace c = true := by
  simp [rstrip, List.dropWhile_eq_nil_iff]

theorem rstrip_append (a b : List Char) :
    rstrip (a ++ b) = if rstrip b = [] then rstrip a else a ++ rstrip b := by
  unfold rstrip
  rw [List.reverse_append, List.dropWhile_append]
  split
  · rename_i h
    simp [List.isEmpty_iff.mp h]
  · rename_i h
    simp [List.isEmpty_iff] at h
    simp [h]

/-- The lines that are left of some lines when the end of their text is stripped. -/
def trimLines : List (List Char) → List (List Char)
  | [] => []
  | l :: ls =>
    if trimLines ls = [] then (if rstrip l = [] then [] else [rstrip l]) else l :: trimLines ls

theorem trimLines_append (a b : List (List Char)) :
    trimLines (a ++ b) = if trimLines b = [] then trimLines a else a ++ trimLines b := by
  induction a with
  | nil => by_cases h : trimLines b = [] <;> simp [h, trimLines]
  | cons l a ih =>
    rw [List.cons_append, trimLines, ih]
    by_cases h : trimLines b = []
    · simp [h, trimLines]
    · simp [h]

theorem trimLines_ne_nil {ls : List (List Char)} :
    trimLines ls ≠ [] ↔ ∃ l ∈ ls, rstrip l ≠ [] := by
  induction ls with
  | nil => simp [trimLines]
  | cons l ls ih =>
    rw [trimLines]
    by_cases hnil : trimLines ls = []
    · have hblank : ¬ ∃ m ∈ ls, rstrip m ≠ [] := fun h => ih.mpr h hnil
      by_cases hl : rstrip l = []
      · simpa [hnil, hl] using hblank
      · simp [hnil, hl]
    · obtain ⟨m, hm, hne⟩ := ih.mp hnil
      simp only [if_neg hnil, ne_eq, reduceCtorEq, not_false_eq_true, true_iff]
      exact ⟨m, List.mem_cons_of_mem l hm, hne⟩

theorem length_trimLines_le (ls : List (List Char)) : (trimLines ls).length ≤ ls.length := by
  induction ls with
  | nil => exact le_rfl
  | cons l ls ih =>
    rw [trimLines]
    split
    · split <;> simp
    · simpa using ih

theorem isSpace_of_isLineEnd {c : Char} (h : isLineEnd c = true) : isSpace c = true := by
  simp only [isLineEnd, isSpace, Bool.or_eq_true, Bool.and_eq_true, beq_iff_eq,
    decide_eq_true_eq] at h ⊢
  omega

theorem prefix_of_rstrip (s : List Char) : rstrip s <+: s := by
  have h := List.dropWhile_suffix isSpace (l := s.reverse)
  simpa [rstrip] using List.reverse_prefix.mpr h

/-- The lines of a stripped line. -/
theorem splitlines_rstrip_line {l : List Char} (h : IsLine l) :
    splitlines (rstrip l) = trimLines [l] := by
  have hline : IsLine (rstrip l) := fun c hc => h c ((prefix_of_rstrip l).subset hc)
  by_cases hnil : rstrip l = []
  · simp [trimLines, hnil, splitlines_eq_nil]
  · simp [trimLines, hnil, splitlines_last hline hnil]

/-- A line, some line ends and a rest: the ends stay exactly when something of the rest does. -/
theorem rstrip_ends {l ends rest : List Char} (h : ∀ c ∈ ends, isSpace c = true) :
    rstrip (l ++ (ends ++ rest)) = if rstrip rest = [] then rstrip l else l ++ (ends ++ rstrip rest) := by
  rw [rstrip_append, rstrip_append ends rest, rstrip_eq_nil.mpr h]
  by_cases hnil : rstrip rest = []
  · simp [hnil]
  · simp [hnil]

/-- One step of `splitlines_rstrip_aux`: a line, its end and the lines after it. -/
theorem splitlines_rstrip_ends {l ends rest : List Char} (hl : IsLine l)
    (hends : ∀ c ∈ ends, isSpace c = true)
    (hcut : rstrip rest ≠ [] →
      splitlines (l ++ (ends ++ rstrip rest)) = l :: splitlines (rstrip rest))
    (hrest : splitlines (rstrip rest) = trimLines (splitlines rest)) :
    splitlines (rstrip (l ++ (ends ++ rest))) = trimLines (l :: splitlines rest) := by
  rw [rstrip_ends hends, trimLines, ← hrest]
  by_cases hnil : rstrip rest = []
  · simp only [hnil, if_true, splitlines_eq_nil.mpr]
    rw [splitlines_rstrip_line hl]
    rfl
  · rw [if_neg hnil, if_neg (splitlines_eq_nil.not.mpr hnil), hcut hnil]

/-- Every line end is a space, so stripping the end of a text only shortens its last lines. -/
theorem splitlines_rstrip_aux (s cur : List Char) (hcur : IsLine cur) :
    splitlines (rstrip (cur.reverse ++ s)) = trimLines (splitlinesAux s cur) := by
  have hnil : IsLine [] := nofun
  have hrev : ∀ {l : List Char}, IsLine l → IsLine l.reverse :=
    fun h c hc => h c (List.mem_reverse.mp hc)
  fun_induction splitlinesAux s cur with
  | case1 cur hempty =>
    rw [List.isEmpty_iff.mp hempty]
    rfl
  | case2 cur hne =>
    rw [List.append_nil]
    exact splitlines_rstrip_line (hrev hcur)
  | case3 cs cur ih =>
    have hspace : ∀ d ∈ ['\r', '\n'], isSpace d = true := by simp [isSpace]
    refine @splitlines_rstrip_ends _ ['\r', '\n'] cs (hrev hcur) hspace (fun _ => ?_) (ih hnil)
    rw [splitlines, splitlinesAux_append (hrev hcur)]
    simp [splitlinesAux, splitlines]
  | case4 c cs cur hne hc ih =>
    have hspace : ∀ d ∈ [c], isSpace d = true := by simpa using isSpace_of_isLineEnd hc
    refine @splitlines_rstrip_ends _ [c] cs (hrev hcur) hspace (fun hrest => ?_) (ih hnil)
    rw [splitlines, splitlinesAux_append (hrev hcur), List.singleton_append, splitlinesAux_cons,
      if_pos hc]
    · simp [splitlines]
    · -- what is left of the rest begins as the rest does
      intro hr rest heq
      obtain ⟨tail, htail⟩ := prefix_of_rstrip cs
      exact hne (rest ++ tail) hr (by rw [← htail, heq]; rfl)
  | case5 c cs cur hne hc ih =>
    have hline : IsLine (c :: cur) := by
      intro d hd
      rcases List.mem_cons.mp hd with rfl | hd
      · simpa using hc
      · exact hcur d hd
    simpa using ih hline

theorem splitlines_rstrip (s : List Char) :
    splitlines (rstrip s) = trimLines (splitlines s) :=
  splitlines_rstrip_aux s [] nofun

/-! ## Printed numbers -/

theorem toNat_of_isDigit {c : Char} (h : c.isDigit = true) : 48 ≤ c.toNat ∧ c.toNat ≤ 57 := by
  simp only [Char.isDigit, Bool.and_eq_true, decide_eq_true_eq, ge_iff_le,
    UInt32.le_iff_toNat_le] at h
  exact h

theorem decimalDigit_of_isDigit {c : Char} (h : c.isDigit = true) :
    decimalDigit c = some (c.toNat - '0'.toNat) := by
  have hrange : 48 ≤ c.toNat ∧ c.toNat < 48 + 10 := by
    have := toNat_of_isDigit h
    omega
  have hfind : decimalZeros.find? (fun z => z ≤ c.toNat && c.toNat < z + 10) = some 48 := by
    unfold decimalZeros
    rw [List.find?_cons_of_pos]
    simpa using hrange
  unfold decimalDigit
  rw [hfind]
  rfl

theorem pyNatAux_digits {l : List Char} (hdigits : ∀ c ∈ l, c.isDigit = true) (acc : Nat)
    (digit : Bool) (h : digit = true ∨ l ≠ []) :
    pyNatAux l acc digit = some (Nat.ofDigitChars 10 l acc) := by
  induction l generalizing acc digit with
  | nil =>
    have hdigit : digit = true := h.resolve_right (by simp)
    simp [pyNatAux, hdigit]
  | cons c l ih =>
    have hc := hdigits c (by simp)
    have hunderscore : c ≠ '_' := by
      rintro rfl
      exact absurd hc (by decide)
    rw [pyNatAux, if_neg hunderscore, decimalDigit_of_isDigit hc]
    dsimp only
    rw [ih (fun d hd => hdigits d (List.mem_cons_of_mem _ hd)) _ _ (.inl rfl),
      Nat.ofDigitChars_cons, Nat.mul_comm]

theorem strip_digits {l : List Char} (hdigits : ∀ c ∈ l, c.isDigit = true) : strip l = l := by
  have hspace : ∀ c ∈ l, isSpace c = false := by
    intro c hc
    have hrange := toNat_of_isDigit (hdigits c hc)
    simp [isSpace]
    omega
  have hkeep : ∀ {m : List Char}, (∀ c ∈ m, isSpace c = false) → m.dropWhile isSpace = m := by
    intro m hm
    cases m with
    | nil => rfl
    | cons c m => simp [hm c (by simp)]
  unfold strip
  rw [hkeep hspace, hkeep (fun c hc => hspace c (List.mem_reverse.mp hc)), List.reverse_reverse]

theorem isLine_of_isDigit {l : List Char} (h : ∀ c ∈ l, c.isDigit = true) : IsLine l := by
  intro c hc
  have hrange := toNat_of_isDigit (h c hc)
  simp [isLineEnd]
  omega

/-- Python reads back the number a program has printed. -/
theorem pyInt_toString (n : Nat) : pyInt (toString n).toList = some (n : Int) := by
  have htext : (toString n).toList = Nat.toDigits 10 n := by
    rw [Nat.toString_eq_repr, Nat.toList_repr]
  have hdigits : ∀ c ∈ Nat.toDigits 10 n, c.isDigit = true :=
    fun c hc => Nat.isDigit_of_mem_toDigits (by decide) (by decide) hc
  have hvalue : pyNatAux (Nat.toDigits 10 n) 0 false = some n := by
    rw [pyNatAux_digits hdigits 0 false (.inr Nat.toDigits_ne_nil), Nat.ofDigitChars_ten_toDigits]
  unfold pyInt
  rw [htext, strip_digits hdigits]
  split
  · rename_i cs heq
    have := hdigits '-' (by rw [heq]; simp)
    exact absurd this (by decide)
  · rename_i cs heq
    have := hdigits '+' (by rw [heq]; simp)
    exact absurd this (by decide)
  · rw [hvalue]
    rfl

end Dt.Lib
