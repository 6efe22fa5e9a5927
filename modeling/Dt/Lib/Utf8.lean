import Mathlib.Data.List.Basic
import Mathlib.Data.Nat.Basic

/-!
# UTF-8

Decoding replaces what is not UTF-8: a character that breaks off, its bytes so far as one, and every byte
that begins no character. A decoded text is not longer than its bytes, and a text of scalar values is
what its encoding decodes to.
-/

namespace Dt.Lib.Utf8

/-- U+FFFD, which stands for what cannot be decoded. -/
def replacement : Nat := 0xfffd

/-- A character with bytes to come: its bits so far, how many bytes, and the bounds of the next one. -/
structure Begun where
  value : Nat
  need : Nat
  low : Nat
  high : Nat

/-- The first byte of a character. -/
def firstByte (b : Nat) : List Nat × Option Begun :=
  if b < 0x80 then ([b], none)
  else if 0xc2 ≤ b ∧ b ≤ 0xdf then ([], some ⟨b - 0xc0, 1, 0x80, 0xbf⟩)
  else if 0xe0 ≤ b ∧ b ≤ 0xef then
    ([], some ⟨b - 0xe0, 2, if b = 0xe0 then 0xa0 else 0x80, if b = 0xed then 0x9f else 0xbf⟩)
  else if 0xf0 ≤ b ∧ b ≤ 0xf4 then
    ([], some ⟨b - 0xf0, 3, if b = 0xf0 then 0x90 else 0x80, if b = 0xf4 then 0x8f else 0xbf⟩)
  else ([replacement], none)

def decodeByte : Option Begun → Nat → List Nat × Option Begun
  | none, b => firstByte b
  | some p, b =>
    if p.low ≤ b ∧ b ≤ p.high then
      let value := p.value * 64 + (b - 0x80)
      if p.need = 1 then ([value], none) else ([], some ⟨value, p.need - 1, 0x80, 0xbf⟩)
    else (replacement :: (firstByte b).1, (firstByte b).2)

def decodeFrom : Option Begun → List UInt8 → List Nat
  | none, [] => []
  | some _, [] => [replacement]
  | q, b :: bytes => (decodeByte q b.toNat).1 ++ decodeFrom (decodeByte q b.toNat).2 bytes

/-- `decode("utf-8", errors="replace")` -/
def decode (bytes : List UInt8) : List Nat := decodeFrom none bytes

def encodeChar (c : Nat) : List UInt8 :=
  if c < 0x80 then [.ofNat c]
  else if c < 0x800 then [.ofNat (0xc0 + c / 64), .ofNat (0x80 + c % 64)]
  else if c < 0x10000 then
    [.ofNat (0xe0 + c / 4096), .ofNat (0x80 + c / 64 % 64), .ofNat (0x80 + c % 64)]
  else [.ofNat (0xf0 + c / 262144), .ofNat (0x80 + c / 4096 % 64), .ofNat (0x80 + c / 64 % 64),
    .ofNat (0x80 + c % 64)]

/-- The encoding of scalar values. -/
def encode (text : List Nat) : List UInt8 := text.flatMap encodeChar

/-- A code point that is no surrogate. -/
def IsScalar (c : Nat) : Prop := c < 0x110000 ∧ ¬(0xd800 ≤ c ∧ c ≤ 0xdfff)

/-- How many characters a state owes: one for a character that has begun. -/
def owed (q : Option Begun) : Nat := if q.isSome then 1 else 0

theorem firstByte_length (b : Nat) : (firstByte b).1.length + owed (firstByte b).2 = 1 := by
  unfold firstByte
  split_ifs <;> rfl

theorem decodeByte_length (q : Option Begun) (b : Nat) :
    (decodeByte q b).1.length + owed (decodeByte q b).2 ≤ owed q + 1 := by
  cases q with
  | none => exact Nat.le_of_eq (firstByte_length b)
  | some p =>
    simp only [decodeByte]
    split_ifs
    · exact Nat.le_succ 1
    · exact Nat.le_succ 1
    · have hfirst := firstByte_length b
      change (firstByte b).1.length + 1 + owed (firstByte b).2 ≤ 2
      omega

theorem decodeFrom_length (bytes : List UInt8) :
    ∀ q, (decodeFrom q bytes).length ≤ owed q + bytes.length := by
  induction bytes with
  | nil =>
    rintro (_ | p)
    · exact Nat.zero_le _
    · exact Nat.le_refl 1
  | cons b bytes ih =>
    rintro q
    have hstep := decodeByte_length q b.toNat
    have hrest := ih (decodeByte q b.toNat).2
    cases q <;>
      · simp only [decodeFrom, List.length_append, List.length_cons]
        omega

theorem decode_length_le (bytes : List UInt8) : (decode bytes).length ≤ bytes.length := by
  have h := decodeFrom_length bytes none
  change (decodeFrom none bytes).length ≤ 0 + bytes.length at h
  rwa [Nat.zero_add] at h

theorem toNat_ofNat {n : Nat} (h : n < 256) : (UInt8.ofNat n).toNat = n :=
  UInt8.toNat_ofNat_of_lt h

section

variable {value low high x : Nat} {bytes : List UInt8}

theorem decodeFrom_more {need : Nat} (hx : x < 64) (hlow : low ≤ 0x80 + x) (hhigh : 0x80 + x ≤ high) :
    decodeFrom (some ⟨value, need + 2, low, high⟩) (.ofNat (0x80 + x) :: bytes) =
      decodeFrom (some ⟨value * 64 + x, need + 1, 0x80, 0xbf⟩) bytes := by
  rw [decodeFrom, toNat_ofNat (by omega), decodeByte, if_pos ⟨hlow, hhigh⟩, Nat.add_sub_cancel_left,
    if_neg (by simp)]
  rfl

theorem decodeFrom_last (hx : x < 64) (hlow : low ≤ 0x80 + x) (hhigh : 0x80 + x ≤ high) :
    decodeFrom (some ⟨value, 1, low, high⟩) (.ofNat (0x80 + x) :: bytes) =
      (value * 64 + x) :: decodeFrom none bytes := by
  rw [decodeFrom, toNat_ofNat (by omega), decodeByte, if_pos ⟨hlow, hhigh⟩, Nat.add_sub_cancel_left,
    if_pos rfl]
  rfl

end

theorem decodeFrom_first {n : Nat} {bytes : List UInt8} (hn : n < 256) :
    decodeFrom none (UInt8.ofNat n :: bytes) =
      (firstByte n).1 ++ decodeFrom (firstByte n).2 bytes := by
  rw [decodeFrom, toNat_ofNat hn]
  rfl

theorem decodeFrom_encodeChar {c : Nat} (h : IsScalar c) (bytes : List UInt8) :
    decodeFrom none (encodeChar c ++ bytes) = c :: decodeFrom none bytes := by
  obtain ⟨hmax, hsurrogate⟩ := h
  unfold encodeChar
  split
  · rw [List.singleton_append, decodeFrom_first (by omega), firstByte, if_pos ‹_›]
    rfl
  split
  · have hfirst : firstByte (0xc0 + c / 64) = ([], some ⟨c / 64, 1, 0x80, 0xbf⟩) := by
      unfold firstByte
      rw [if_neg (by omega), if_pos (by omega), Nat.add_sub_cancel_left]
    have hx : c % 64 < 64 := Nat.mod_lt _ (by decide)
    rw [List.cons_append, List.singleton_append, decodeFrom_first (by omega), hfirst, List.nil_append,
      decodeFrom_last hx (by omega) (by omega)]
    congr 1
    omega
  split
  · have hfirst : firstByte (0xe0 + c / 4096) = ([], some ⟨c / 4096, 2,
        if 0xe0 + c / 4096 = 0xe0 then 0xa0 else 0x80,
        if 0xe0 + c / 4096 = 0xed then 0x9f else 0xbf⟩) := by
      unfold firstByte
      rw [if_neg (by omega), if_neg (by omega), if_pos (by omega), Nat.add_sub_cancel_left]
    have hx : c / 64 % 64 < 64 := Nat.mod_lt _ (by decide)
    have hy : c % 64 < 64 := Nat.mod_lt _ (by decide)
    -- the bounds of the second byte leave long forms and surrogates out
    have hlow : (if 0xe0 + c / 4096 = 0xe0 then 0xa0 else 0x80) ≤ 0x80 + c / 64 % 64 := by
      split <;> omega
    have hhigh : 0x80 + c / 64 % 64 ≤ if 0xe0 + c / 4096 = 0xed then 0x9f else 0xbf := by
      split <;> omega
    rw [List.cons_append, List.cons_append, List.singleton_append, decodeFrom_first (by omega), hfirst,
      List.nil_append, decodeFrom_more hx hlow hhigh, decodeFrom_last hy (by omega) (by omega)]
    congr 1
    omega
  · have hfirst : firstByte (0xf0 + c / 262144) = ([], some ⟨c / 262144, 3,
        if 0xf0 + c / 262144 = 0xf0 then 0x90 else 0x80,
        if 0xf0 + c / 262144 = 0xf4 then 0x8f else 0xbf⟩) := by
      unfold firstByte
      rw [if_neg (by omega), if_neg (by omega), if_neg (by omega), if_pos (by omega),
        Nat.add_sub_cancel_left]
    have hx : c / 4096 % 64 < 64 := Nat.mod_lt _ (by decide)
    have hy : c / 64 % 64 < 64 := Nat.mod_lt _ (by decide)
    have hz : c % 64 < 64 := Nat.mod_lt _ (by decide)
    have hlow : (if 0xf0 + c / 262144 = 0xf0 then 0x90 else 0x80) ≤ 0x80 + c / 4096 % 64 := by
      split <;> omega
    have hhigh : 0x80 + c / 4096 % 64 ≤ if 0xf0 + c / 262144 = 0xf4 then 0x8f else 0xbf := by
      split <;> omega
    rw [List.cons_append, List.cons_append, List.cons_append, List.singleton_append,
      decodeFrom_first (by omega), hfirst, List.nil_append, decodeFrom_more hx hlow hhigh,
      decodeFrom_more hy (by omega) (by omega), decodeFrom_last hz (by omega) (by omega)]
    congr 1
    omega

/-- A text of scalar values is what its encoding decodes to. -/
theorem decode_encode {text : List Nat} (h : ∀ c ∈ text, IsScalar c) : decode (encode text) = text := by
  induction text with
  | nil => rfl
  | cons c text ih =>
    rw [encode, List.flatMap_cons, decode, decodeFrom_encodeChar (h c List.mem_cons_self)]
    exact congrArg (c :: ·) (ih fun d hd => h d (List.mem_cons_of_mem _ hd))

end Dt.Lib.Utf8
