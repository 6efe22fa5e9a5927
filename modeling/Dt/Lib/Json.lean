import Mathlib
import Dt.Lib.Lines

/-!
# JSON values and texts

The values that Python's `json` reads and writes, over a type of finite floats. A float is opaque
here: all that is known of it is its order and the text `repr` gives it, from which it is read back.

`render` is `json.dumps`, which writes ASCII only, and `loads` is `json.loads` with a hook that
refuses an object that has a key twice. A text that holds a surrogate without its partner is no
list of characters and is refused.
-/

namespace Dt.Lib

/-! ## Values -/

/-- A value; `nonfinite` is a float that is not finite. -/
inductive Json (F : Type) where
  | null
  | bool (b : Bool)
  | int (n : Int)
  | float (x : F)
  | nonfinite
  | str (s : String)
  | arr (items : List (Json F))
  | obj (pairs : List (String × Json F))

/-- A number of the JSON grammar, cut off a text: `-?(0|[1-9][0-9]*)`, then an optional fraction and
an optional exponent. -/
structure NumberToken where
  whole : List Char
  frac : List Char := []
  exp : List Char := []
  deriving DecidableEq

def NumberToken.text (t : NumberToken) : List Char := t.whole ++ (t.frac ++ t.exp)

/-- A number with a fraction or an exponent is a float. -/
def NumberToken.isFloat (t : NumberToken) : Bool := !t.frac.isEmpty || !t.exp.isEmpty

/-- `0|[1-9][0-9]*` -/
def scanNatural : List Char → Option (List Char × List Char)
  | c :: cs =>
    if c = '0' then some (['0'], cs)
    else if isDigit c then some (c :: cs.takeWhile isDigit, cs.dropWhile isDigit)
    else none
  | [] => none

def scanWhole : List Char → Option (List Char × List Char)
  | '-' :: cs => (scanNatural cs).map fun r => ('-' :: r.1, r.2)
  | cs => scanNatural cs

/-- `(\.[0-9]+)?` -/
def scanFrac : List Char → List Char × List Char
  | '.' :: cs =>
    if (cs.takeWhile isDigit).isEmpty then ([], '.' :: cs)
    else ('.' :: cs.takeWhile isDigit, cs.dropWhile isDigit)
  | cs => ([], cs)

/-- `[-+]?` -/
def scanSign : List Char → List Char × List Char
  | c :: cs => if c = '-' || c = '+' then ([c], cs) else ([], c :: cs)
  | [] => ([], [])

/-- `([eE][-+]?[0-9]+)?` -/
def scanExp : List Char → List Char × List Char
  | c :: cs =>
    let s := scanSign cs
    if !(c = 'e' || c = 'E') || (s.2.takeWhile isDigit).isEmpty then ([], c :: cs)
    else (c :: s.1 ++ s.2.takeWhile isDigit, s.2.dropWhile isDigit)
  | [] => ([], [])

def scanNumber (cs : List Char) : Option (NumberToken × List Char) :=
  (scanWhole cs).map fun w =>
    let f := scanFrac w.2
    let e := scanExp f.2
    (⟨w.1, f.1, e.1⟩, e.2)

/-- The finite floats. -/
class FloatText (F : Type) extends LinearOrder F where
  zero : F
  /-- `float(n)`; none when `n` is too large -/
  ofInt : Int → Option F
  /-- `repr(x)` -/
  repr : F → List Char
  /-- `float(text)` of a JSON number; none when it is not finite -/
  read : List Char → Option F
  read_repr : ∀ x, read (repr x) = some x
  /-- the text of a float is one JSON number with a fraction or an exponent -/
  scan_repr : ∀ x, ∃ t : NumberToken, scanNumber (repr x) = some (t, []) ∧ t.text = repr x ∧
    t.isFloat = true
  length_repr : ∀ x, (repr x).length ≤ 24

/-! ## Writing -/

def hexDigit (n : Nat) : Char := Nat.digitChar (n % 16)

/-- `\uXXXX` -/
def unicodeEscape (n : Nat) : List Char :=
  ['\\', 'u', hexDigit (n / 4096), hexDigit (n / 256), hexDigit (n / 16), hexDigit n]

/-- One character, as `json.dumps` writes it in ASCII. -/
def escapeChar (c : Char) : List Char :=
  if c = '"' then ['\\', '"']
  else if c = '\\' then ['\\', '\\']
  else if c = '\n' then ['\\', 'n']
  else if c = '\r' then ['\\', 'r']
  else if c = '\t' then ['\\', 't']
  else if c.toNat = 8 then ['\\', 'b']
  else if c.toNat = 12 then ['\\', 'f']
  else if 32 ≤ c.toNat ∧ c.toNat ≤ 126 then [c]
  else if c.toNat < 0x10000 then unicodeEscape c.toNat
  else unicodeEscape (0xd800 + (c.toNat - 0x10000) / 0x400) ++
    unicodeEscape (0xdc00 + (c.toNat - 0x10000) % 0x400)

def renderString (s : String) : List Char := '"' :: s.toList.flatMap escapeChar ++ ['"']

/-- The separators of `json.dumps`. -/
structure Separators where
  item : List Char := [',', ' ']
  key : List Char := [':', ' ']

def Separators.compact : Separators := ⟨[','], [':']⟩

variable {F : Type}

mutual

/-- `json.dumps` -/
def Json.render [FloatText F] (sep : Separators) : Json F → List Char
  | .null => "null".toList
  | .bool true => "true".toList
  | .bool false => "false".toList
  | .int n => (toString n).toList
  | .float x => FloatText.repr x
  | .nonfinite => "NaN".toList
  | .str s => renderString s
  | .arr items => '[' :: renderItems sep items ++ [']']
  | .obj pairs => '{' :: renderPairs sep pairs ++ ['}']

def renderItems [FloatText F] (sep : Separators) : List (Json F) → List Char
  | [] => []
  | [v] => v.render sep
  | v :: vs => v.render sep ++ (sep.item ++ renderItems sep vs)

def renderPairs [FloatText F] (sep : Separators) : List (String × Json F) → List Char
  | [] => []
  | [(k, v)] => renderString k ++ (sep.key ++ v.render sep)
  | (k, v) :: ps => renderString k ++ (sep.key ++ (v.render sep ++ (sep.item ++ renderPairs sep ps)))

end

/-! ## Reading -/

/-- The whitespace of JSON. -/
def skipSpace (cs : List Char) : List Char :=
  cs.dropWhile fun c => c = ' ' || c = '\t' || c = '\n' || c = '\r'

def hexValue (c : Char) : Option Nat :=
  if isDigit c then some (c.toNat - 48)
  else if 'a' ≤ c && c ≤ 'f' then some (c.toNat - 87)
  else if 'A' ≤ c && c ≤ 'F' then some (c.toNat - 55)
  else none

def hexUnit (a b c d : Char) : Option Nat := do
  let a ← hexValue a
  let b ← hexValue b
  let c ← hexValue c
  let d ← hexValue d
  return 4096 * a + 256 * b + 16 * c + d

/-- The escapes of one letter. -/
def letterEscape (c : Char) : Option Nat :=
  if c = '"' || c = '\\' || c = '/' then some c.toNat
  else if c = 'n' then some 10
  else if c = 'r' then some 13
  else if c = 't' then some 9
  else if c = 'b' then some 8
  else if c = 'f' then some 12
  else none

/-- The code units of a string up to its closing quote. -/
def loadUnits : List Char → Option (List Nat × List Char)
  | [] => none
  | '\\' :: 'u' :: a :: b :: c :: d :: cs =>
    (hexUnit a b c d).bind fun u => (loadUnits cs).map fun r => (u :: r.1, r.2)
  | '\\' :: c :: cs =>
    (letterEscape c).bind fun u => (loadUnits cs).map fun r => (u :: r.1, r.2)
  | c :: cs =>
    if c = '"' then some ([], cs)
    else if c.toNat < 32 then none
    else (loadUnits cs).map fun r => (c.toNat :: r.1, r.2)

/-- The characters of some code units. -/
def joinSurrogates : List Nat → Option (List Char)
  | [] => some []
  | u :: us =>
    if 0xd800 ≤ u ∧ u ≤ 0xdbff then
      match us with
      | v :: vs =>
        if 0xdc00 ≤ v ∧ v ≤ 0xdfff then
          (joinSurrogates vs).map
            (Char.ofNat (0x10000 + (u - 0xd800) * 0x400 + (v - 0xdc00)) :: ·)
        else none
      | [] => none
    else if 0xdc00 ≤ u ∧ u ≤ 0xdfff then none
    else (joinSurrogates us).map (Char.ofNat u :: ·)

/-- A string, after its opening quote. -/
def loadString (cs : List Char) : Option (String × List Char) := do
  let (units, rest) ← loadUnits cs
  let text ← joinSurrogates units
  return (String.ofList text, rest)

/-- The value of `-?[0-9]+`. -/
def intOf : List Char → Int
  | '-' :: cs => -(Nat.ofDigitChars 10 cs 0 : Int)
  | cs => Nat.ofDigitChars 10 cs 0

def loadNumber [FloatText F] (cs : List Char) : Option (Json F × List Char) :=
  (scanNumber cs).map fun r =>
    (if r.1.isFloat then (FloatText.read r.1.text).elim .nonfinite .float
      else .int (intOf r.1.whole), r.2)

mutual

/-- One value at the start of a text; more `fuel` than the text has characters is enough. -/
def loadValue [FloatText F] : Nat → List Char → Option (Json F × List Char)
  | 0, _ => none
  | fuel + 1, cs =>
    match loadNumber cs with
    | some r => some r
    | none =>
      match cs with
      | '"' :: cs => (loadString cs).map fun r => (.str r.1, r.2)
      | '[' :: cs =>
        match skipSpace cs with
        | ']' :: rest => some (.arr [], rest)
        | cs => (loadItems fuel cs).map fun r => (.arr r.1, r.2)
      | '{' :: cs =>
        match skipSpace cs with
        | '}' :: rest => some (.obj [], rest)
        | cs => (loadPairs fuel cs).bind fun r =>
          if (r.1.map Prod.fst).Nodup then some (.obj r.1, r.2) else none
      | 'n' :: 'u' :: 'l' :: 'l' :: rest => some (.null, rest)
      | 't' :: 'r' :: 'u' :: 'e' :: rest => some (.bool true, rest)
      | 'f' :: 'a' :: 'l' :: 's' :: 'e' :: rest => some (.bool false, rest)
      | _ => none

def loadItems [FloatText F] : Nat → List Char → Option (List (Json F) × List Char)
  | 0, _ => none
  | fuel + 1, cs =>
    (loadValue fuel cs).bind fun v =>
      match skipSpace v.2 with
      | ']' :: rest => some ([v.1], rest)
      | ',' :: rest => (loadItems fuel (skipSpace rest)).map fun r => (v.1 :: r.1, r.2)
      | _ => none

def loadPairs [FloatText F] : Nat → List Char → Option (List (String × Json F) × List Char)
  | 0, _ => none
  | fuel + 1, '"' :: cs =>
    (loadString cs).bind fun k =>
      match skipSpace k.2 with
      | ':' :: rest =>
        (loadValue fuel (skipSpace rest)).bind fun v =>
          match skipSpace v.2 with
          | '}' :: rest => some ([(k.1, v.1)], rest)
          | ',' :: rest =>
            (loadPairs fuel (skipSpace rest)).map fun r => ((k.1, v.1) :: r.1, r.2)
          | _ => none
      | _ => none
  | _ + 1, _ => none

end

/-- `json.loads` with a strict object hook. -/
def loads [FloatText F] (cs : List Char) : Option (Json F) :=
  (loadValue (cs.length + 1) (skipSpace cs)).bind fun r =>
    if (skipSpace r.2).isEmpty then some r.1 else none

/-! ## Numbers are read as they were written -/

def numberChar (c : Char) : Bool := isDigit c || c = '.' || c = 'e' || c = 'E' || c = '-' || c = '+'

/-- A number ends before this text. -/
def Stops (rest : List Char) : Prop := ∀ c ∈ rest.head?, numberChar c = false

theorem Stops.isDigit {rest : List Char} (h : Stops rest) {c : Char} (hc : c ∈ rest.head?) :
    isDigit c = false := by
  have := h c hc
  simp only [numberChar, Bool.or_eq_false_iff] at this
  exact this.1.1.1.1.1

theorem span_append {p : Char → Bool} {rest : List Char} (h : ∀ c ∈ rest.head?, p c = false)
    (cs : List Char) :
    (cs ++ rest).takeWhile p = cs.takeWhile p ∧ (cs ++ rest).dropWhile p = cs.dropWhile p ++ rest := by
  induction cs with
  | nil =>
    cases rest with
    | nil => simp
    | cons c rest => simp [h c rfl]
  | cons c cs ih =>
    by_cases hc : p c = true
    · simp [hc, ih]
    · simp [hc]

theorem scanNatural_append {rest : List Char} (h : Stops rest) {l w r : List Char}
    (hl : scanNatural l = some (w, r)) : scanNatural (l ++ rest) = some (w, r ++ rest) := by
  cases l with
  | nil => cases hl
  | cons c cs =>
    obtain ⟨htake, hdrop⟩ := span_append (fun c hc => h.isDigit hc) cs
    simp only [scanNatural, List.cons_append, htake, hdrop] at hl ⊢
    split at hl
    · cases hl
      simp_all
    · split at hl
      · cases hl
        simp_all
      · cases hl

theorem scanWhole_append {rest : List Char} (h : Stops rest) {l w r : List Char}
    (hl : scanWhole l = some (w, r)) : scanWhole (l ++ rest) = some (w, r ++ rest) := by
  unfold scanWhole at hl ⊢
  split at hl
  · rename_i cs
    obtain ⟨⟨w', r'⟩, hw, heq⟩ := Option.map_eq_some_iff.mp hl
    cases heq
    simp [scanNatural_append h hw]
  · rename_i hminus
    have hne : l ≠ [] := by
      rintro rfl
      cases hl
    obtain ⟨c, cs, rfl⟩ := List.exists_cons_of_ne_nil hne
    have hc : c ≠ '-' := fun hc => hminus cs (by rw [hc])
    have happ := scanNatural_append h hl
    rw [List.cons_append] at happ ⊢
    split
    · rename_i heq
      exact absurd (List.cons.inj heq).1 hc
    · exact happ

theorem scanFrac_append {rest : List Char} (h : Stops rest) (l : List Char) :
    scanFrac (l ++ rest) = ((scanFrac l).1, (scanFrac l).2 ++ rest) := by
  cases l with
  | nil =>
    cases rest with
    | nil => rfl
    | cons c rest =>
      have hc := h c rfl
      have hdot : c ≠ '.' := by
        rintro rfl
        exact absurd hc (by decide)
      simp [scanFrac, hdot]
  | cons c cs =>
    obtain ⟨htake, hdrop⟩ := span_append (fun c hc => h.isDigit hc) cs
    by_cases hdot : c = '.'
    · subst hdot
      simp only [scanFrac, List.cons_append, htake, hdrop]
      split <;> rfl
    · simp [scanFrac, hdot]

theorem scanSign_append {rest : List Char} (h : Stops rest) (l : List Char) :
    scanSign (l ++ rest) = ((scanSign l).1, (scanSign l).2 ++ rest) := by
  cases l with
  | nil =>
    cases rest with
    | nil => rfl
    | cons c rest =>
      have hc := h c rfl
      simp only [numberChar, Bool.or_eq_false_iff, decide_eq_false_iff_not] at hc
      simp [scanSign, hc]
  | cons c cs =>
    simp only [scanSign, List.cons_append]
    split <;> rfl

theorem scanExp_append {rest : List Char} (h : Stops rest) (l : List Char) :
    scanExp (l ++ rest) = ((scanExp l).1, (scanExp l).2 ++ rest) := by
  cases l with
  | nil =>
    cases rest with
    | nil => rfl
    | cons c rest =>
      have hc := h c rfl
      simp only [numberChar, Bool.or_eq_false_iff, decide_eq_false_iff_not] at hc
      simp [scanExp, hc]
  | cons c cs =>
    obtain ⟨htake, hdrop⟩ := span_append (fun c hc => h.isDigit hc) (scanSign cs).2
    simp only [scanExp, List.cons_append, scanSign_append h, htake, hdrop]
    split <;> rfl

theorem scanNumber_append {rest : List Char} (h : Stops rest) {l : List Char} {t : NumberToken}
    (hl : scanNumber l = some (t, [])) : scanNumber (l ++ rest) = some (t, rest) := by
  unfold scanNumber at hl ⊢
  obtain ⟨⟨w, r⟩, hw, heq⟩ := Option.map_eq_some_iff.mp hl
  simp only [Prod.mk.injEq] at heq
  obtain ⟨rfl, hend⟩ := heq
  rw [scanWhole_append h hw, Option.map_some]
  simp [scanFrac_append h, scanExp_append h, hend]

theorem loadNumber_repr [FloatText F] {rest : List Char} (h : Stops rest) (x : F) :
    loadNumber (FloatText.repr x ++ rest) = some (.float x, rest) := by
  obtain ⟨t, hscan, htext, hfloat⟩ := FloatText.scan_repr x
  unfold loadNumber
  rw [scanNumber_append h hscan, Option.map_some]
  simp [hfloat, htext, FloatText.read_repr]

/-! ## Strings are read as they were written -/

/-- The code units of a character. -/
def charUnits (c : Char) : List Nat :=
  if c.toNat < 0x10000 then [c.toNat]
  else [0xd800 + (c.toNat - 0x10000) / 0x400, 0xdc00 + (c.toNat - 0x10000) % 0x400]

theorem hexValue_hexDigit (n : Nat) : hexValue (hexDigit n) = some (n % 16) := by
  have h : ∀ m < 16, hexValue (Nat.digitChar m) = some m := by decide
  exact h (n % 16) (Nat.mod_lt n (by decide))

theorem hexUnit_escape {n : Nat} (h : n < 0x10000) :
    hexUnit (hexDigit (n / 4096)) (hexDigit (n / 256)) (hexDigit (n / 16)) (hexDigit n) = some n := by
  simp only [hexUnit, hexValue_hexDigit, Option.bind_eq_bind, Option.bind_some, Option.pure_def,
    Option.some.injEq]
  omega

theorem loadUnits_unicode {n : Nat} (h : n < 0x10000) (tail : List Char) :
    loadUnits (unicodeEscape n ++ tail) = (loadUnits tail).map fun r => (n :: r.1, r.2) := by
  simp only [unicodeEscape, List.cons_append, List.nil_append, loadUnits, hexUnit_escape h,
    Option.bind_some]

theorem loadUnits_letter {c : Char} {n : Nat} (hu : c ≠ 'u') (h : letterEscape c = some n)
    (tail : List Char) :
    loadUnits ('\\' :: c :: tail) = (loadUnits tail).map fun r => (n :: r.1, r.2) := by
  rw [loadUnits]
  · rw [h, Option.bind_some]
  · intro a b c' d cs hcu
    exact absurd hcu hu

theorem loadUnits_plain {c : Char} (hquote : c ≠ '"') (hslash : c ≠ '\\') (h : 32 ≤ c.toNat)
    (tail : List Char) :
    loadUnits (c :: tail) = (loadUnits tail).map fun r => (c.toNat :: r.1, r.2) := by
  rw [loadUnits]
  · rw [if_neg hquote, if_neg (by omega)]
  · intro a b c' d cs hc
    exact absurd hc hslash
  · intro c' cs hc
    exact absurd hc hslash

example : loadUnits ['a', '"', ','] = some ([97], [',']) := by decide +kernel

theorem charUnits_of_lt {c : Char} (h : c.toNat < 0x10000) : charUnits c = [c.toNat] := if_pos h

theorem loadUnits_escapeChar (c : Char) (tail : List Char) :
    loadUnits (escapeChar c ++ tail) =
      (loadUnits tail).map fun r => (charUnits c ++ r.1, r.2) := by
  -- an escape of one letter that stands for `c`
  have hletter : ∀ {e : Char}, e ≠ 'u' → letterEscape e = some c.toNat → c.toNat < 0x10000 →
      loadUnits (['\\', e] ++ tail) = (loadUnits tail).map fun r => (charUnits c ++ r.1, r.2) := by
    intro e hu he hc
    rw [charUnits_of_lt hc]
    exact loadUnits_letter hu he tail
  unfold escapeChar
  split
  · rename_i h
    subst h
    exact hletter (by decide) (by decide) (by decide)
  split
  · rename_i h
    subst h
    exact hletter (by decide) (by decide) (by decide)
  split
  · rename_i h
    subst h
    exact hletter (by decide) (by decide) (by decide)
  split
  · rename_i h
    subst h
    exact hletter (by decide) (by decide) (by decide)
  split
  · rename_i h
    subst h
    exact hletter (by decide) (by decide) (by decide)
  split
  · rename_i h
    exact hletter (by decide) (by rw [h]; decide) (by omega)
  split
  · rename_i h
    exact hletter (by decide) (by rw [h]; decide) (by omega)
  rename_i hquote hslash _ _ _ _ _
  split
  · rename_i h
    rw [charUnits_of_lt (by omega)]
    exact loadUnits_plain hquote hslash h.1 tail
  split
  · rename_i h
    rw [charUnits_of_lt h]
    exact loadUnits_unicode h tail
  · rename_i h
    have hc : c.toNat < 0x110000 := by
      rcases c.valid with h | h
      · exact lt_trans h (by decide)
      · exact h.2
    rw [List.append_assoc, loadUnits_unicode (by omega), loadUnits_unicode (by omega)]
    simp [charUnits, h, Option.map_map, Function.comp_def]

theorem joinSurrogates_charUnits (c : Char) (us : List Nat) :
    joinSurrogates (charUnits c ++ us) = (joinSurrogates us).map (c :: ·) := by
  have hvalid : c.toNat < 0xd800 ∨ 0xdfff < c.toNat ∧ c.toNat < 0x110000 := c.valid
  by_cases h : c.toNat < 0x10000
  · have h₁ : ¬ (0xd800 ≤ c.toNat ∧ c.toNat ≤ 0xdbff) := by omega
    have h₂ : ¬ (0xdc00 ≤ c.toNat ∧ c.toNat ≤ 0xdfff) := by omega
    rw [charUnits_of_lt h, List.singleton_append, joinSurrogates.eq_def]
    dsimp only
    rw [if_neg h₁, if_neg h₂, Char.ofNat_toNat]
  · have hhigh : 0xd800 ≤ 0xd800 + (c.toNat - 0x10000) / 0x400 ∧
        0xd800 + (c.toNat - 0x10000) / 0x400 ≤ 0xdbff := by omega
    have hlow : 0xdc00 ≤ 0xdc00 + (c.toNat - 0x10000) % 0x400 ∧
        0xdc00 + (c.toNat - 0x10000) % 0x400 ≤ 0xdfff := by omega
    have hjoin : 0x10000 + (0xd800 + (c.toNat - 0x10000) / 0x400 - 0xd800) * 0x400 +
        (0xdc00 + (c.toNat - 0x10000) % 0x400 - 0xdc00) = c.toNat := by omega
    have hunits : charUnits c = [0xd800 + (c.toNat - 0x10000) / 0x400,
        0xdc00 + (c.toNat - 0x10000) % 0x400] := if_neg h
    rw [hunits, List.cons_append, List.cons_append, List.nil_append, joinSurrogates.eq_def]
    dsimp only
    rw [if_pos hhigh, if_pos hlow, hjoin, Char.ofNat_toNat]

theorem loadUnits_escape (cs rest : List Char) :
    loadUnits (cs.flatMap escapeChar ++ '"' :: rest) = some (cs.flatMap charUnits, rest) := by
  induction cs with
  | nil => simp [loadUnits]
  | cons c cs ih =>
    rw [List.flatMap_cons, List.append_assoc, loadUnits_escapeChar, ih]
    simp

theorem joinSurrogates_flatMap (cs : List Char) : joinSurrogates (cs.flatMap charUnits) = some cs := by
  induction cs with
  | nil => rfl
  | cons c cs ih => rw [List.flatMap_cons, joinSurrogates_charUnits, ih, Option.map_some]

/-- A string is read back. -/
theorem loadString_escape (s : String) (rest : List Char) :
    loadString (s.toList.flatMap escapeChar ++ '"' :: rest) = some (s, rest) := by
  simp [loadString, loadUnits_escape, joinSurrogates_flatMap]

/-! ## Flat objects -/

/-- A text that begins with a value or a mark, not with a space. -/
def Begins (cs : List Char) : Prop := ∃ c rest, cs = c :: rest ∧ skipSpace [c] = [c]

theorem Begins.append {cs : List Char} (h : Begins cs) (rest : List Char) :
    skipSpace (cs ++ rest) = cs ++ rest := by
  obtain ⟨c, tail, rfl, hc⟩ := h
  unfold skipSpace at hc ⊢
  rw [List.cons_append, List.dropWhile_cons]
  split
  · rename_i hspace
    rw [List.dropWhile_cons, if_pos hspace] at hc
    cases hc
  · rfl

/-- A value that is read back whatever follows it in an object. -/
structure ReadsBack [FloatText F] (v : Json F) : Prop where
  begins : Begins (v.render .compact)
  load : ∀ fuel rest, Stops rest →
    loadValue (fuel + 1) (v.render .compact ++ rest) = some (v, rest)

theorem loadNumber_quote [FloatText F] (cs : List Char) :
    (loadNumber ('"' :: cs) : Option (Json F × List Char)) = none := by
  simp [loadNumber, scanNumber, scanWhole, scanNatural, isDigit]

theorem renderString_append (s : String) (rest : List Char) :
    renderString s ++ rest = '"' :: (s.toList.flatMap escapeChar ++ '"' :: rest) := by
  simp [renderString]

theorem loadValue_number [FloatText F] {fuel : Nat} {cs : List Char} {r : Json F × List Char}
    (h : loadNumber cs = some r) : loadValue (fuel + 1) cs = some r := by
  rw [loadValue.eq_def]
  dsimp only
  rw [h]

theorem loadValue_quote [FloatText F] (fuel : Nat) (cs : List Char) :
    (loadValue (fuel + 1) ('"' :: cs) : Option (Json F × List Char)) =
      (loadString cs).map fun r => (.str r.1, r.2) := by
  rw [loadValue.eq_def]
  dsimp only
  rw [loadNumber_quote]
  rfl

theorem readsBack_str [FloatText F] (s : String) : ReadsBack (.str s : Json F) where
  begins := ⟨'"', _, rfl, by decide⟩
  load fuel rest _ := by
    rw [Json.render, renderString_append, loadValue_quote, loadString_escape, Option.map_some]

theorem begins_of_scanNumber {cs rest : List Char} {t : NumberToken}
    (h : scanNumber cs = some (t, rest)) : Begins cs := by
  cases cs with
  | nil => cases h
  | cons c cs =>
    refine ⟨c, cs, rfl, ?_⟩
    by_contra hspace
    have hc : c = ' ' ∨ c = '\t' ∨ c = '\n' ∨ c = '\r' := by
      by_contra hne
      simp only [not_or] at hne
      exact hspace (by simp [skipSpace, hne])
    rcases hc with rfl | rfl | rfl | rfl <;>
      simp [scanNumber, scanWhole, scanNatural, isDigit] at h

theorem readsBack_float [FloatText F] (x : F) : ReadsBack (.float x : Json F) where
  begins := by
    obtain ⟨t, hscan, -⟩ := FloatText.scan_repr x
    exact begins_of_scanNumber hscan
  load fuel rest h := loadValue_number (loadNumber_repr h x)

theorem readsBack_one [FloatText F] : ReadsBack (.int 1 : Json F) where
  begins := ⟨'1', [], rfl, by decide⟩
  load fuel rest h := by
    refine loadValue_number ?_
    have htext : (Json.int 1 : Json F).render .compact = ['1'] := rfl
    have hscan : scanNumber ['1'] = some (⟨['1'], [], []⟩, []) := by decide
    unfold loadNumber
    rw [htext, scanNumber_append h hscan]
    rfl

theorem stops_of {c : Char} (h : numberChar c = false) (cs : List Char) : Stops (c :: cs) := by
  intro d hd
  obtain rfl := Option.mem_some_iff.mp hd
  exact h

theorem renderPairs_quote [FloatText F] {pairs : List (String × Json F)} (hne : pairs ≠ []) :
    ∃ tail, renderPairs .compact pairs = '"' :: tail := by
  obtain ⟨⟨k, v⟩, ps, rfl⟩ := List.exists_cons_of_ne_nil hne
  cases ps with
  | nil =>
    rw [renderPairs, renderString_append]
    exact ⟨_, rfl⟩
  | cons p ps =>
    rw [renderPairs, renderString_append]
    · exact ⟨_, rfl⟩
    · simp

theorem begins_renderPairs [FloatText F] {pairs : List (String × Json F)} (hne : pairs ≠ []) :
    Begins (renderPairs .compact pairs) := by
  obtain ⟨tail, htail⟩ := renderPairs_quote hne
  exact ⟨'"', tail, htail, by decide⟩

/-- What follows a member of an object. -/
theorem loadPairs_member [FloatText F] (k : String) {v : Json F} (hv : ReadsBack v) (fuel : Nat)
    {rest : List Char} (h : Stops rest) :
    loadPairs (fuel + 2) (renderString k ++ (':' :: (v.render .compact ++ rest))) =
      match skipSpace rest with
      | '}' :: rest => some ([(k, v)], rest)
      | ',' :: rest => (loadPairs (fuel + 1) (skipSpace rest)).map fun r => ((k, v) :: r.1, r.2)
      | _ => none := by
  have hcolon : ∀ cs, skipSpace (':' :: cs) = ':' :: cs :=
    fun cs => Begins.append ⟨':', [], rfl, by decide⟩ cs
  have hvalue : (loadValue (fuel + 1) (skipSpace (v.render .compact ++ rest)) :
      Option (Json F × List Char)) = some (v, rest) := by
    rw [hv.begins.append, hv.load fuel rest h]
  rw [renderString_append, loadPairs, loadString_escape, Option.bind_some, hcolon]
  exact congrArg (Option.bind · _) hvalue

theorem loadPairs_last [FloatText F] (k : String) {v : Json F} (hv : ReadsBack v) (fuel : Nat)
    (rest : List Char) :
    loadPairs (fuel + 2) (renderString k ++ (':' :: (v.render .compact ++ '}' :: rest))) =
      some ([(k, v)], rest) := by
  have hclose : skipSpace ('}' :: rest) = '}' :: rest :=
    Begins.append ⟨'}', [], rfl, by decide⟩ rest
  rw [loadPairs_member k hv fuel (stops_of (by decide) rest), hclose]
  rfl

theorem loadPairs_comma [FloatText F] (k : String) {v : Json F} (hv : ReadsBack v) (fuel : Nat)
    {more : List Char} (hmore : Begins more) (rest : List Char) :
    loadPairs (fuel + 2) (renderString k ++ (':' :: (v.render .compact ++ ',' :: (more ++ rest)))) =
      (loadPairs (fuel + 1) (more ++ rest)).map fun r => ((k, v) :: r.1, r.2) := by
  have hcomma : skipSpace (',' :: (more ++ rest)) = ',' :: (more ++ rest) :=
    Begins.append ⟨',', [], rfl, by decide⟩ _
  rw [loadPairs_member k hv fuel (stops_of (by decide) _), hcomma]
  exact congrArg (fun cs => (loadPairs (fuel + 1) cs).map _) (hmore.append rest)

/-- The members of a flat object are read back. -/
theorem loadPairs_render [FloatText F] {pairs : List (String × Json F)} (hne : pairs ≠ [])
    (hpairs : ∀ p ∈ pairs, ReadsBack p.2) {fuel : Nat} (hfuel : pairs.length < fuel)
    (rest : List Char) :
    loadPairs fuel (renderPairs .compact pairs ++ '}' :: rest) = some (pairs, rest) := by
  induction pairs generalizing fuel with
  | nil => exact absurd rfl hne
  | cons p ps ih =>
    obtain ⟨k, v⟩ := p
    obtain ⟨fuel, rfl⟩ : ∃ n, fuel = n + 2 := ⟨fuel - 2, by simp at hfuel; omega⟩
    have hv := hpairs (k, v) (by simp)
    cases ps with
    | nil =>
      have htext : renderPairs .compact [(k, v)] ++ '}' :: rest =
          renderString k ++ (':' :: (v.render .compact ++ '}' :: rest)) := by
        simp [renderPairs, Separators.compact]
      rw [htext, loadPairs_last k hv]
    | cons q qs =>
      have htext : renderPairs .compact ((k, v) :: q :: qs) ++ '}' :: rest =
          renderString k ++ (':' :: (v.render .compact ++
            ',' :: (renderPairs .compact (q :: qs) ++ '}' :: rest))) := by
        rw [renderPairs] <;> simp [Separators.compact]
      rw [htext, loadPairs_comma k hv fuel (begins_renderPairs (by simp)), ih (by simp)
        (fun p hp => hpairs p (List.mem_cons_of_mem _ hp)) (by simp at hfuel ⊢; omega)]
      rfl

theorem length_renderPairs [FloatText F] (pairs : List (String × Json F)) :
    pairs.length ≤ (renderPairs .compact pairs).length := by
  induction pairs with
  | nil => exact Nat.zero_le _
  | cons p ps ih =>
    obtain ⟨k, v⟩ := p
    cases ps with
    | nil =>
      rw [renderPairs, renderString_append]
      simp
    | cons q qs =>
      rw [renderPairs, renderString_append]
      · simp only [List.length_cons, List.length_append] at ih ⊢
        omega
      · simp

/-- An object with a member. -/
theorem loadValue_brace [FloatText F] (fuel : Nat) {cs tail : List Char}
    (h : skipSpace cs = '"' :: tail) :
    (loadValue (fuel + 1) ('{' :: cs) : Option (Json F × List Char)) =
      (loadPairs fuel ('"' :: tail)).bind fun r =>
        if (r.1.map Prod.fst).Nodup then some (.obj r.1, r.2) else none := by
  have hnumber : (loadNumber ('{' :: cs) : Option (Json F × List Char)) = none := by
    simp [loadNumber, scanNumber, scanWhole, scanNatural, isDigit]
  rw [loadValue.eq_def]
  simp [hnumber, h]

/-- A flat object is read back. -/
theorem loads_render_obj [FloatText F] {pairs : List (String × Json F)} (hne : pairs ≠ [])
    (hnodup : (pairs.map Prod.fst).Nodup) (hpairs : ∀ p ∈ pairs, ReadsBack p.2) :
    loads ((Json.obj pairs).render .compact) = some (Json.obj pairs) := by
  have htext : (Json.obj pairs).render .compact = '{' :: (renderPairs .compact pairs ++ ['}']) := by
    simp [Json.render]
  have hbegin : skipSpace ((Json.obj pairs).render .compact) = (Json.obj pairs).render .compact := by
    have hb : Begins ((Json.obj pairs).render .compact) := ⟨'{', _, htext, by decide⟩
    simpa using hb.append []
  have hfuel : pairs.length < ((Json.obj pairs).render .compact).length := by
    have := length_renderPairs pairs
    rw [htext, List.length_cons, List.length_append]
    omega
  obtain ⟨tail, htail⟩ := renderPairs_quote hne
  have hmembers : skipSpace (renderPairs .compact pairs ++ ['}']) = '"' :: (tail ++ ['}']) := by
    rw [htail, List.cons_append]
    exact Begins.append ⟨'"', [], rfl, by decide⟩ _
  have hload : (loadPairs ((Json.obj pairs).render .compact).length ('"' :: (tail ++ ['}'])) :
      Option (List (String × Json F) × List Char)) = some (pairs, []) := by
    rw [← List.cons_append, ← htail]
    exact loadPairs_render hne hpairs hfuel []
  have hvalue : loadValue (((Json.obj pairs).render .compact).length + 1)
      ((Json.obj pairs).render .compact) = some (Json.obj pairs, []) := by
    generalize hn : ((Json.obj pairs).render .compact).length = n at hload ⊢
    rw [htext, loadValue_brace n hmembers, hload, Option.bind_some, if_pos hnodup]
  unfold loads
  rw [hbegin, hvalue]
  rfl

end Dt.Lib
