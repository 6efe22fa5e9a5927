import Mathlib

/-!
# Bytes in base64, with the alphabet for URLs

`urlsafeEncode` writes three bytes as four characters and fills the last group up with `=`.
`strictDecode` is the decoder that refuses every character outside the alphabet; it takes the two
characters of the standard alphabet as well as those for URLs. A text whose padding has been
stripped gets it back from its length alone.
-/

namespace Dt.Lib

/-- The character of six bits: `A-Z`, `a-z`, `0-9`, `-` and `_`. -/
def sextetChar (n : Nat) : Char :=
  if n < 26 then Char.ofNat (65 + n)
  else if n < 52 then Char.ofNat (97 + (n - 26))
  else if n < 62 then Char.ofNat (48 + (n - 52))
  else if n = 62 then '-' else '_'

/-- The six bits of a character. -/
def sextetValue (c : Char) : Option Nat :=
  let n := c.toNat
  if 65 ≤ n ∧ n ≤ 90 then some (n - 65)
  else if 97 ≤ n ∧ n ≤ 122 then some (n - 97 + 26)
  else if 48 ≤ n ∧ n ≤ 57 then some (n - 48 + 52)
  else if c = '-' ∨ c = '+' then some 62
  else if c = '_' ∨ c = '/' then some 63
  else none

def urlsafeEncode : List Nat → List Char
  | [] => []
  | [a] => [sextetChar (a / 4), sextetChar (a % 4 * 16), '=', '=']
  | [a, b] =>
    [sextetChar (a / 4), sextetChar (a % 4 * 16 + b / 16), sextetChar (b % 16 * 4), '=']
  | a :: b :: c :: rest =>
    sextetChar (a / 4) :: sextetChar (a % 4 * 16 + b / 16) :: sextetChar (b % 16 * 4 + c / 64) ::
      sextetChar (c % 64) :: urlsafeEncode rest

def strictDecode : List Char → Option (List Nat)
  | [] => some []
  | [a, b, '=', '='] => do
    let x ← sextetValue a
    let y ← sextetValue b
    return [x * 4 + y / 16]
  | [a, b, c, '='] => do
    let x ← sextetValue a
    let y ← sextetValue b
    let z ← sextetValue c
    return [x * 4 + y / 16, y % 16 * 16 + z / 4]
  | a :: b :: c :: d :: rest => do
    let x ← sextetValue a
    let y ← sextetValue b
    let z ← sextetValue c
    let w ← sextetValue d
    let more ← strictDecode rest
    return (x * 4 + y / 16) :: (y % 16 * 16 + z / 4) :: (z % 4 * 64 + w) :: more
  | _ => none

/-- `value + "=" * (-len(value) % 4)` -/
def addPadding (value : List Char) : List Char :=
  value ++ List.replicate ((4 - value.length % 4) % 4) '='

/-- `text.rstrip("=")` -/
def stripPadding (text : List Char) : List Char := text.rdropWhile (· = '=')

theorem sextetValue_sextetChar {n : Nat} (h : n < 64) : sextetValue (sextetChar n) = some n := by
  have hall : ∀ m < 64, sextetValue (sextetChar m) = some m := by decide
  exact hall n h

theorem sextetChar_ne_padding (n : Nat) : sextetChar n ≠ '=' := by
  by_cases h : n < 64
  · have hall : ∀ m < 64, sextetChar m ≠ '=' := by decide
    exact hall n h
  · have hchar : sextetChar n = '_' := by
      have h₁ : ¬ n < 26 := by omega
      have h₂ : ¬ n < 52 := by omega
      have h₃ : ¬ n < 62 := by omega
      have h₄ : n ≠ 62 := by omega
      simp [sextetChar, h₁, h₂, h₃, h₄]
    rw [hchar]
    decide

theorem strictDecode_urlsafeEncode {bytes : List Nat} (h : ∀ b ∈ bytes, b < 256) :
    strictDecode (urlsafeEncode bytes) = some bytes := by
  fun_induction urlsafeEncode bytes with
  | case1 => rw [strictDecode]
  | case2 a =>
    have ha := h a (by simp)
    rw [strictDecode, sextetValue_sextetChar (by omega), sextetValue_sextetChar (by omega)]
    simp
    omega
  | case3 a b =>
    have ha := h a (by simp)
    have hb := h b (by simp)
    rw [strictDecode, sextetValue_sextetChar (by omega), sextetValue_sextetChar (by omega),
      sextetValue_sextetChar (by omega)]
    · simp
      omega
    · simp [sextetChar_ne_padding]
  | case4 a b c rest ih =>
    have ha := h a (by simp)
    have hb := h b (by simp)
    have hc := h c (by simp)
    have hrest := ih fun x hx => h x (by simp [hx])
    rw [strictDecode, sextetValue_sextetChar (by omega), sextetValue_sextetChar (by omega),
      sextetValue_sextetChar (by omega), sextetValue_sextetChar (by omega), hrest]
    · simp
      omega
    · simp [sextetChar_ne_padding]
    · simp [sextetChar_ne_padding]

/-- An encoded text is a body without padding and the padding that its length asks for. -/
theorem urlsafeEncode_body (bytes : List Nat) :
    ∃ body, (∀ c ∈ body, c ≠ '=') ∧ urlsafeEncode bytes = addPadding body := by
  fun_induction urlsafeEncode bytes with
  | case1 => exact ⟨[], by simp, rfl⟩
  | case2 a =>
    exact ⟨[sextetChar (a / 4), sextetChar (a % 4 * 16)], by simp [sextetChar_ne_padding], rfl⟩
  | case3 a b =>
    exact ⟨[sextetChar (a / 4), sextetChar (a % 4 * 16 + b / 16), sextetChar (b % 16 * 4)],
      by simp [sextetChar_ne_padding], rfl⟩
  | case4 a b c rest ih =>
    obtain ⟨body, hbody, heq⟩ := ih
    refine ⟨sextetChar (a / 4) :: sextetChar (a % 4 * 16 + b / 16) ::
      sextetChar (b % 16 * 4 + c / 64) :: sextetChar (c % 64) :: body, ?_, ?_⟩
    · simpa [sextetChar_ne_padding] using hbody
    · rw [heq]
      simp [addPadding]
      omega

theorem stripPadding_addPadding {body : List Char} (h : ∀ c ∈ body, c ≠ '=') :
    stripPadding (addPadding body) = body := by
  have hbody : body.rdropWhile (· = '=') = body := by
    unfold List.rdropWhile
    rw [List.dropWhile_eq_self_iff.mpr, List.reverse_reverse]
    intro hlength
    simpa using h _ (List.mem_reverse.mp (List.getElem_mem hlength))
  unfold stripPadding addPadding
  generalize (4 - body.length % 4) % 4 = k
  induction k with
  | zero => simpa using hbody
  | succ k ih =>
    rw [List.replicate_succ', ← List.append_assoc, List.rdropWhile_concat_pos _ _ _ (by simp), ih]

theorem addPadding_stripPadding (bytes : List Nat) :
    addPadding (stripPadding (urlsafeEncode bytes)) = urlsafeEncode bytes := by
  obtain ⟨body, hbody, heq⟩ := urlsafeEncode_body bytes
  rw [heq, stripPadding_addPadding hbody]

theorem length_urlsafeEncode (bytes : List Nat) :
    (urlsafeEncode bytes).length ≤ 4 * ((bytes.length + 2) / 3) := by
  fun_induction urlsafeEncode bytes with
  | case1 => simp
  | case2 a => simp
  | case3 a b => simp
  | case4 a b c rest ih =>
    simp only [List.length_cons] at ih ⊢
    omega

/-! ## The bytes of a text -/

/-- `text.encode()` -/
def utf8Bytes (s : String) : List Nat := s.toByteArray.data.toList.map UInt8.toNat

/-- `raw.decode()` of UTF-8 -/
def utf8Text (bytes : List Nat) : Option String :=
  String.fromUTF8? ⟨(bytes.map UInt8.ofNat).toArray⟩

theorem utf8Text_utf8Bytes (s : String) : utf8Text (utf8Bytes s) = some s := by
  have hbytes : (utf8Bytes s).map UInt8.ofNat = s.toByteArray.data.toList := by
    simp [utf8Bytes, Function.comp_def]
  unfold utf8Text
  rw [hbytes, Array.toArray_toList]
  exact (dif_pos s.isValidUTF8).trans rfl

theorem lt_of_mem_utf8Bytes {s : String} {b : Nat} (h : b ∈ utf8Bytes s) : b < 256 := by
  simp only [utf8Bytes, List.mem_map] at h
  obtain ⟨u, -, rfl⟩ := h
  exact u.toNat_lt

theorem length_utf8Bytes (s : String) : (utf8Bytes s).length = s.utf8ByteSize := by
  simp [utf8Bytes]

theorem length_utf8Bytes_le (l : List Char) :
    (utf8Bytes (String.ofList l)).length ≤ 4 * l.length := by
  rw [length_utf8Bytes]
  induction l with
  | nil => simp [String.ofList_nil]
  | cons c l ih =>
    have hsplit : String.ofList (c :: l) = String.singleton c ++ String.ofList l := by
      rw [String.singleton_eq_ofList, ← String.ofList_append]
      rfl
    have hc := c.utf8Size_le_four
    rw [hsplit, String.utf8ByteSize_append, String.utf8ByteSize_singleton, List.length_cons]
    omega

end Dt.Lib
