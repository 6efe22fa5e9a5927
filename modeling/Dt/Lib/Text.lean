import Mathlib.Data.List.Basic

/-!
# Text as Python sees it

Strings are handled as lists of characters. `words` is `str.split()`, `splitlines` is
`str.splitlines()`; both use Python's own character classes, which are wider than the ASCII
ones: `splitlines` also breaks at the vertical tab, the form feed, the ASCII separators
`0x1c`-`0x1e`, NEL and the two Unicode separators.
-/

namespace Dt.Lib

/-- Texts are compared by their characters; one named instance serves every membership test. -/
instance lawfulBEqText : LawfulBEq (List Char) := List.instLawfulBEq

/-- `s.startswith(p)`. -/
def startsWith (s p : String) : Bool := p.toList.isPrefixOf s.toList

theorem startsWith_append (p s : String) : startsWith (p ++ s) p = true := by
  simp [startsWith]

/-- `s.removeprefix(p)`. -/
def removePrefix (s p : String) : String :=
  if startsWith s p then String.ofList (s.toList.drop p.length) else s

/-- The separators of `str.split()`. -/
def isSpace (c : Char) : Bool :=
  let n := c.toNat
  (9 ≤ n && n ≤ 13) || (28 ≤ n && n ≤ 32) || n == 0x85 || n == 0xa0 || n == 0x1680 ||
    (0x2000 ≤ n && n ≤ 0x200a) || n == 0x2028 || n == 0x2029 || n == 0x202f || n == 0x205f ||
    n == 0x3000

/-- `str.split()`: the maximal runs of non-space characters; `cur` is the run being read. -/
def wordsAux : List Char → List Char → List (List Char)
  | [], cur => if cur.isEmpty then [] else [cur.reverse]
  | c :: cs, cur =>
    if isSpace c then (if cur.isEmpty then wordsAux cs [] else cur.reverse :: wordsAux cs [])
    else wordsAux cs (c :: cur)

def words (s : List Char) : List (List Char) := wordsAux s []

/-- `sep.join(parts)`. -/
def joinWith (sep : List Char) : List (List Char) → List Char
  | [] => []
  | [w] => w
  | w :: ws => w ++ sep ++ joinWith sep ws

/-! ### Joining the words of a text -/

/-- A word of `str.split()`. -/
def IsWord (w : List Char) : Prop := w ≠ [] ∧ ∀ c ∈ w, isSpace c = false

theorem wordsAux_isWord : ∀ (cs cur : List Char), (∀ c ∈ cur, isSpace c = false) →
    ∀ w ∈ wordsAux cs cur, IsWord w
  | [], cur, hcur, w, hw => by
    cases cur with
    | nil => simp [wordsAux] at hw
    | cons c cur =>
      simp only [wordsAux, List.isEmpty_cons, Bool.false_eq_true, if_false,
        List.mem_singleton] at hw
      subst hw
      exact ⟨by simp, fun d hd => hcur d (List.mem_reverse.mp hd)⟩
  | c :: cs, cur, hcur, w, hw => by
    simp only [wordsAux] at hw
    split at hw
    · split at hw
      · exact wordsAux_isWord cs [] (by simp) w hw
      · rename_i hne
        rcases List.mem_cons.mp hw with rfl | hw
        · exact ⟨by simpa using hne, fun d hd => hcur d (List.mem_reverse.mp hd)⟩
        · exact wordsAux_isWord cs [] (by simp) w hw
    · rename_i hc
      refine wordsAux_isWord cs (c :: cur) (fun d hd => ?_) w hw
      rcases List.mem_cons.mp hd with rfl | hd
      · simpa using hc
      · exact hcur d hd

theorem words_isWord {s w : List Char} (h : w ∈ words s) : IsWord w :=
  wordsAux_isWord s [] (by simp) w h

example : words [' ', 'a', '\t', 'b'] = [['a'], ['b']] := by decide +kernel

/-- Characters of a word extend the word being read. -/
theorem wordsAux_append_word (w rest cur : List Char) (hw : ∀ c ∈ w, isSpace c = false) :
    wordsAux (w ++ rest) cur = wordsAux rest (w.reverse ++ cur) := by
  induction w generalizing cur with
  | nil => rfl
  | cons c w ih =>
    have hc : isSpace c = false := hw c (by simp)
    rw [List.cons_append, wordsAux, if_neg (by simp [hc]), ih (c :: cur) fun d hd =>
      hw d (List.mem_cons_of_mem _ hd)]
    simp

theorem wordsAux_spaces {cs : List Char} (h : ∀ c ∈ cs, isSpace c = true) :
    wordsAux cs [] = [] := by
  induction cs with
  | nil => rfl
  | cons c cs ih =>
    rw [wordsAux, if_pos (h c (by simp)), if_pos (by simp)]
    exact ih fun d hd => h d (List.mem_cons_of_mem _ hd)

/-- Splitting gives back the words that were joined with a space of any kind, whatever spaces
follow them. -/
theorem words_joinWith {sep : Char} (hsep : isSpace sep = true) {ws : List (List Char)}
    (h : ∀ w ∈ ws, IsWord w) {tail : List Char} (ht : ∀ c ∈ tail, isSpace c = true) :
    words (joinWith [sep] ws ++ tail) = ws := by
  unfold words
  induction ws with
  | nil => exact wordsAux_spaces ht
  | cons w ws ih =>
    obtain ⟨hne, hsp⟩ := h w (by simp)
    have ih' := ih fun u hu => h u (List.mem_cons_of_mem _ hu)
    cases ws with
    | nil =>
      rw [joinWith, wordsAux_append_word w tail [] hsp, List.append_nil]
      cases tail with
      | nil => simp [wordsAux, hne]
      | cons c cs =>
        rw [wordsAux, if_pos (ht c (by simp)), if_neg (by simpa using hne), List.reverse_reverse,
          wordsAux_spaces fun d hd => ht d (List.mem_cons_of_mem _ hd)]
    | cons v vs =>
      rw [joinWith, List.append_assoc, List.append_assoc, wordsAux_append_word w _ [] hsp,
        List.append_nil, List.singleton_append, wordsAux, if_pos hsep, if_neg (by simpa using hne),
        List.reverse_reverse, ih']
      simp

theorem length_joinWith_cons_le (w : List Char) (ws : List (List Char)) :
    (joinWith [' '] (w :: ws)).length ≤ w.length + 1 + (joinWith [' '] ws).length := by
  cases ws with
  | nil => simp [joinWith]
  | cons v vs =>
    simp only [joinWith, List.length_append, List.length_singleton]
    omega

/-- Normalising the spaces of a text never makes it longer. -/
theorem length_joinWith_wordsAux (cs cur : List Char) :
    (joinWith [' '] (wordsAux cs cur)).length ≤ cs.length + cur.length := by
  induction cs generalizing cur with
  | nil =>
    simp only [wordsAux]
    split <;> simp [joinWith]
  | cons c cs ih =>
    simp only [wordsAux]
    split
    · split
      · have := ih []
        simp only [List.length_cons, List.length_nil] at this ⊢
        omega
      · have h₁ := length_joinWith_cons_le cur.reverse (wordsAux cs [])
        have h₂ := ih []
        simp only [List.length_cons, List.length_nil, List.length_reverse] at h₁ h₂ ⊢
        omega
    · have := ih (c :: cur)
      simp only [List.length_cons] at this ⊢
      omega

/-! ### Lines -/

/-- The characters at which `str.splitlines()` ends a line. -/
def isLineEnd (c : Char) : Bool :=
  let n := c.toNat
  n == 0x0a || n == 0x0b || n == 0x0c || n == 0x0d || n == 0x1c || n == 0x1d || n == 0x1e ||
    n == 0x85 || n == 0x2028 || n == 0x2029

/-- `str.splitlines()`; `cur` is the line being read. `\r\n` counts as one end, and a final
line end opens no empty last line. -/
def splitlinesAux : List Char → List Char → List (List Char)
  | [], cur => if cur.isEmpty then [] else [cur.reverse]
  | '\r' :: '\n' :: cs, cur => cur.reverse :: splitlinesAux cs []
  | c :: cs, cur =>
    if isLineEnd c then cur.reverse :: splitlinesAux cs [] else splitlinesAux cs (c :: cur)

def splitlines (s : List Char) : List (List Char) := splitlinesAux s []

/-- A line without any of Python's line ends. -/
def IsLine (l : List Char) : Prop := ∀ c ∈ l, isLineEnd c = false

instance (l : List Char) : Decidable (IsLine l) := List.decidableBAll _ l

/-- Every line with its newline, as `echo` prints it. -/
def unlines (ls : List (List Char)) : List Char := ls.flatMap (· ++ ['\n'])

theorem splitlinesAux_append {l : List Char} (hl : IsLine l) (rest cur : List Char) :
    splitlinesAux (l ++ rest) cur = splitlinesAux rest (l.reverse ++ cur) := by
  induction l generalizing cur with
  | nil => rfl
  | cons c l ih =>
    have hc : isLineEnd c = false := hl c (by simp)
    have hr : c ≠ '\r' := by
      rintro rfl
      exact absurd hc (by decide)
    rw [List.cons_append, splitlinesAux, if_neg (by simp [hc]),
      ih (fun d hd => hl d (List.mem_cons_of_mem _ hd))]
    · simp
    · exact fun _ h => absurd h hr

theorem splitlines_line {l : List Char} (hl : IsLine l) (rest : List Char) :
    splitlines (l ++ '\n' :: rest) = l :: splitlines rest := by
  rw [splitlines, splitlinesAux_append hl, splitlinesAux, if_pos (by decide)]
  · simp [splitlines]
  · simp

theorem splitlines_last {l : List Char} (hl : IsLine l) (hne : l ≠ []) : splitlines l = [l] := by
  have := splitlinesAux_append hl [] []
  simp only [List.append_nil] at this
  rw [splitlines, this, splitlinesAux, if_neg (by simpa using hne), List.reverse_reverse]

theorem splitlines_unlines {ls : List (List Char)} (h : ∀ l ∈ ls, IsLine l) :
    splitlines (unlines ls) = ls := by
  induction ls with
  | nil => rfl
  | cons l ls ih =>
    have hcons : unlines (l :: ls) = l ++ '\n' :: unlines ls := by simp [unlines]
    rw [hcons, splitlines_line (h l (by simp)), ih fun m hm => h m (List.mem_cons_of_mem _ hm)]

example : splitlines ['a', '\r', '\n', 'b'] = [['a'], ['b']] := by decide +kernel

/-- What is left of some lines after they are joined and split again: an empty last line is not
seen. -/
def dropEmptyEnd : List (List Char) → List (List Char)
  | [] => []
  | [l] => if l = [] then [] else [l]
  | l :: ls => l :: dropEmptyEnd ls

theorem splitlines_joinWith {ls : List (List Char)} (h : ∀ l ∈ ls, IsLine l) :
    splitlines (joinWith ['\n'] ls) = dropEmptyEnd ls := by
  induction ls with
  | nil => rfl
  | cons l ls ih =>
    have hl := h l (by simp)
    cases ls with
    | nil =>
      simp only [joinWith, dropEmptyEnd]
      split
      · rename_i he
        simp [he, splitlines, splitlinesAux]
      · rename_i hne
        exact splitlines_last hl hne
    | cons m ms =>
      rw [joinWith, List.append_assoc, List.singleton_append, splitlines_line hl,
        ih fun k hk => h k (List.mem_cons_of_mem _ hk)]
      · rfl
      · simp

theorem splitlinesAux_isLine (cs cur : List Char) (hcur : IsLine cur) :
    ∀ l ∈ splitlinesAux cs cur, IsLine l := by
  have hrev : IsLine cur.reverse := fun c hc => hcur c (List.mem_reverse.mp hc)
  have hnil : IsLine [] := fun c hc => by cases hc
  fun_induction splitlinesAux cs cur with
  | case1 cur he => simp
  | case2 cur hne => simpa using hrev
  | case3 cs cur ih =>
    intro l hl
    rcases List.mem_cons.mp hl with rfl | hl
    · exact hrev
    · exact ih hnil hnil l hl
  | case4 c cs cur hne hc ih =>
    intro l hl
    rcases List.mem_cons.mp hl with rfl | hl
    · exact hrev
    · exact ih hnil hnil l hl
  | case5 c cs cur hne hc ih =>
    have hcons : IsLine (c :: cur) := fun d hd => by
      rcases List.mem_cons.mp hd with rfl | hd
      · simpa using hc
      · exact hcur d hd
    exact ih hcons fun d hd => hcons d (List.mem_reverse.mp hd)

theorem splitlines_isLine {s l : List Char} (h : l ∈ splitlines s) : IsLine l :=
  splitlinesAux_isLine s [] (fun c hc => by cases hc) l h

theorem dropEmptyEnd_prefix (ls : List (List Char)) : dropEmptyEnd ls <+: ls := by
  induction ls with
  | nil => exact List.prefix_rfl
  | cons m ls ih =>
    cases ls with
    | nil =>
      simp only [dropEmptyEnd]
      split
      · exact List.nil_prefix
      · exact List.prefix_rfl
    | cons k ks => exact (List.prefix_cons_inj m).mpr ih

theorem mem_drop_of_mem_drop_dropEmptyEnd {ls : List (List Char)} {l : List Char} {n : Nat}
    (h : l ∈ (dropEmptyEnd ls).drop n) : l ∈ ls.drop n := by
  obtain ⟨rest, hrest⟩ := dropEmptyEnd_prefix ls
  rw [← hrest, List.drop_append]
  exact List.mem_append_left _ h

/-- Only the empty line is ever dropped. -/
theorem mem_dropEmptyEnd {ls : List (List Char)} {l : List Char} (h : l ∈ ls) (hne : l ≠ []) :
    l ∈ dropEmptyEnd ls := by
  induction ls with
  | nil => cases h
  | cons m ls ih =>
    cases ls with
    | nil =>
      obtain rfl := List.mem_singleton.mp h
      simp [dropEmptyEnd, hne]
    | cons k ks =>
      rcases List.mem_cons.mp h with rfl | h
      · simp [dropEmptyEnd]
      · exact List.mem_cons_of_mem _ (ih h)

/-- `s.split(sep)` for a one-character separator; `cur` is the piece being read. -/
def splitOnAux (sep : Char) : List Char → List Char → List (List Char)
  | [], cur => [cur.reverse]
  | c :: cs, cur =>
    if c = sep then cur.reverse :: splitOnAux sep cs [] else splitOnAux sep cs (c :: cur)

def splitOn (sep : Char) (s : List Char) : List (List Char) := splitOnAux sep s []

theorem splitOnAux_append {sep : Char} {a : List Char} (ha : sep ∉ a) (s cur : List Char) :
    splitOnAux sep (a ++ s) cur = splitOnAux sep s (a.reverse ++ cur) := by
  induction a generalizing cur with
  | nil => rfl
  | cons c a ih =>
    simp only [List.mem_cons, not_or] at ha
    simp [splitOnAux, Ne.symm ha.1, ih ha.2]

theorem splitOn_of_notMem {sep : Char} {s : List Char} (h : sep ∉ s) : splitOn sep s = [s] := by
  simpa [splitOn, splitOnAux] using splitOnAux_append h [] []

theorem splitOn_append {sep : Char} {a : List Char} (ha : sep ∉ a) (s : List Char) :
    splitOn sep (a ++ sep :: s) = a :: splitOn sep s := by
  rw [splitOn, splitOnAux_append ha]
  simp [splitOnAux, splitOn]

/-- `re.fullmatch` of a character class repeated between `lo` and `hi` times. -/
def classRun (p : Char → Bool) (lo hi : Nat) (s : List Char) : Bool :=
  lo ≤ s.length && s.length ≤ hi && s.all p

def isDigit (c : Char) : Bool := '0' ≤ c && c ≤ '9'

def isHex (c : Char) : Bool := isDigit c || ('a' ≤ c && c ≤ 'f')

def isAlnum (c : Char) : Bool := isDigit c || ('a' ≤ c && c ≤ 'z') || ('A' ≤ c && c ≤ 'Z')

/-- `s.strip()`. -/
def strip (s : List Char) : List Char := ((s.dropWhile isSpace).reverse.dropWhile isSpace).reverse

/-- The code points of the decimal zeros; each is followed by its other nine digits. -/
def decimalZeros : List Nat :=
  [0x30, 0x660, 0x6f0, 0x7c0, 0x966, 0x9e6, 0xa66, 0xae6, 0xb66, 0xbe6, 0xc66, 0xce6, 0xd66,
    0xde6, 0xe50, 0xed0, 0xf20, 0x1040, 0x1090, 0x17e0, 0x1810, 0x1946, 0x19d0, 0x1a80, 0x1a90,
    0x1b50, 0x1bb0, 0x1c40, 0x1c50, 0xa620, 0xa8d0, 0xa900, 0xa9d0, 0xa9f0, 0xaa50, 0xabf0,
    0xff10, 0x104a0, 0x10d30, 0x11066, 0x110f0, 0x11136, 0x111d0, 0x112f0, 0x11450, 0x114d0,
    0x11650, 0x116c0, 0x11730, 0x118e0, 0x11950, 0x11c50, 0x11d50, 0x11da0, 0x16a60, 0x16ac0,
    0x16b50, 0x1d7ce, 0x1d7d8, 0x1d7e2, 0x1d7ec, 0x1d7f6, 0x1e140, 0x1e2f0, 0x1e950, 0x1fbf0]

/-- The value of a decimal digit of any script. -/
def decimalDigit (c : Char) : Option Nat :=
  (decimalZeros.find? fun z => z ≤ c.toNat && c.toNat < z + 10).map (c.toNat - ·)

/-- Digits with single underscores between them; `digit` says whether one was just read. -/
def pyNatAux : List Char → Nat → Bool → Option Nat
  | [], acc, digit => if digit then some acc else none
  | c :: cs, acc, digit =>
    if c = '_' then (if digit then pyNatAux cs acc false else none)
    else match decimalDigit c with
    | some d => pyNatAux cs (acc * 10 + d) true
    | none => none

/-- Python's `int(s)`. -/
def pyInt (s : List Char) : Option Int :=
  match strip s with
  | '-' :: cs => (pyNatAux cs 0 false).map fun n => -(n : Int)
  | '+' :: cs => (pyNatAux cs 0 false).map fun n => (n : Int)
  | cs => (pyNatAux cs 0 false).map fun n => (n : Int)

example : pyInt " +1_3".toList = some 13 := by decide

end Dt.Lib
