import Mathlib
import Dt.Lib.Lines
import Dt.Lib.Tails
import Dt.Lib.Utf8

/-!
# Bounded capture of a command's output

A pipe is drained to its end, and the first half and the last half of a bounded number of bytes are kept.
A rendering with bytes missing says between them how many: the marker takes its place from the kept
bytes, and with its place grows the number it reports, so the number is settled in a few passes.
-/

namespace Dt.Remote

open Dt.Lib

abbrev Bytes := List UInt8

/-- A chunk from a pipe, in binary or in text mode. -/
inductive Chunk where
  | bytes (b : Bytes)
  | text (t : List Nat)

/-- `chunk.encode("utf-8", errors="replace")`: a lone surrogate becomes a question mark. -/
def encodeReplace (t : List Nat) : Bytes :=
  Utf8.encode (t.map fun c => if 0xd800 ≤ c ∧ c ≤ 0xdfff then 0x3f else c)

def Chunk.encoded : Chunk → Bytes
  | .bytes b => b
  | .text t => encodeReplace t

/-- `_BoundedByteCapture` -/
structure BoundedByteCapture where
  limit : Nat
  head : Bytes := []
  tail : List Bytes := []
  tailBytes : Nat := 0
  totalBytes : Nat := 0

namespace BoundedByteCapture

def headLimit (c : BoundedByteCapture) : Nat := c.limit / 2

def tailLimit (c : BoundedByteCapture) : Nat := c.limit - c.headLimit

/-- The loop of `append`: the oldest bytes go while there are too many. -/
def trim (tailLimit : Nat) : List Bytes → Nat → List Bytes × Nat
  | [], tailBytes => ([], tailBytes)
  | oldest :: rest, tailBytes =>
    if tailBytes > tailLimit then
      let excess := tailBytes - tailLimit
      if oldest.length ≤ excess then trim tailLimit rest (tailBytes - oldest.length)
      else (oldest.drop excess :: rest, tailBytes - excess)
    else (oldest :: rest, tailBytes)

def appendTail (c : BoundedByteCapture) (chunk : Bytes) : BoundedByteCapture :=
  if chunk = [] then c
  else
    let r := trim c.tailLimit (c.tail ++ [chunk]) (c.tailBytes + chunk.length)
    { c with tail := r.1, tailBytes := r.2 }

def append (c : BoundedByteCapture) (chunk : Chunk) : BoundedByteCapture :=
  let chunk := chunk.encoded
  let c := { c with totalBytes := c.totalBytes + chunk.length }
  if c.head.length < c.headLimit then
    let needed := c.headLimit - c.head.length
    appendTail { c with head := c.head ++ chunk.take needed } (chunk.drop needed)
  else appendTail c chunk

end BoundedByteCapture

/-- What stands in a rendering for omitted bytes. -/
def marker (omitted : Nat) : Bytes :=
  Utf8.encode ((("\n[dt: " ++ omitted.repr ++ " output bytes omitted]\n").toList).map Char.toNat)

/-- The loop of `render`: the marker and the payload budget after so many passes. -/
def settle (limit total : Nat) : Nat → Nat → Bytes × Nat → Bytes × Nat
  | 0, _, r => r
  | passes + 1, omitted, _ =>
    let budget := limit - (marker omitted).length
    let updated := total - budget
    if updated = omitted then (marker omitted, budget)
    else settle limit total passes updated (marker omitted, budget)

namespace BoundedByteCapture

/-- The bytes of `render`. -/
def retained (c : BoundedByteCapture) : Bytes :=
  if c.totalBytes ≤ c.limit then c.head ++ c.tail.flatten
  else
    let r := settle c.limit c.totalBytes 4 (c.totalBytes - c.limit) ([], c.limit)
    let headBudget := r.2 / 2
    let tailBudget := r.2 - headBudget
    c.head.take headBudget ++ r.1 ++ (if tailBudget ≠ 0 then c.tail.flatten.rtake tailBudget else [])

def render (c : BoundedByteCapture) : List Nat := Utf8.decode c.retained

end BoundedByteCapture

/-- The chunks of a pipe, one after the other. -/
def capture (limit : Nat) (chunks : List Chunk) : BoundedByteCapture :=
  chunks.foldl .append { limit := limit }

/-- What the pipe gave. -/
def stream (chunks : List Chunk) : Bytes := chunks.flatMap Chunk.encoded

/-! ## What is kept -/

namespace BoundedByteCapture

/-- The head is the beginning of the stream, and the tail the end of what is behind the head. -/
structure Keeps (c : BoundedByteCapture) (stream : Bytes) : Prop where
  head : c.head = stream.take c.headLimit
  tail : c.tail.flatten = (stream.drop c.headLimit).rtake c.tailLimit
  tailBytes : c.tailBytes = c.tail.flatten.length
  totalBytes : c.totalBytes = stream.length

theorem trim_eq (tailLimit : Nat) (tail : List Bytes) {n : Nat} (h : n = tail.flatten.length) :
    (trim tailLimit tail n).1.flatten = tail.flatten.rtake tailLimit ∧
      (trim tailLimit tail n).2 = (trim tailLimit tail n).1.flatten.length := by
  induction tail generalizing n with
  | nil => exact ⟨by simp [trim], h⟩
  | cons oldest rest ih =>
    rw [List.flatten_cons, List.length_append] at h
    by_cases hover : n > tailLimit
    · by_cases hwhole : oldest.length ≤ n - tailLimit
      · -- the oldest chunk goes whole
        have htrim : trim tailLimit (oldest :: rest) n = trim tailLimit rest (n - oldest.length) := by
          simp only [trim, if_pos hover, if_pos hwhole]
        obtain ⟨hflat, hlength⟩ := @ih (n - oldest.length) (by omega)
        rw [htrim]
        refine ⟨?_, hlength⟩
        rw [hflat, List.flatten_cons, rtake_append, Nat.sub_eq_zero_of_le (by omega)]
        simp
      · have htrim : trim tailLimit (oldest :: rest) n =
            (oldest.drop (n - tailLimit) :: rest, n - (n - tailLimit)) := by
          simp only [trim, if_pos hover, if_neg hwhole]
        have hdrop : oldest.drop (n - tailLimit) = oldest.rtake (tailLimit - rest.flatten.length) := by
          rw [List.rtake]
          congr 1
          omega
        rw [htrim]
        constructor
        · rw [List.flatten_cons, List.flatten_cons, rtake_append, hdrop,
            rtake_of_length_le (by omega : rest.flatten.length ≤ tailLimit)]
        · rw [List.flatten_cons, List.length_append, List.length_drop]
          omega
    · have htrim : trim tailLimit (oldest :: rest) n = (oldest :: rest, n) := by
        simp only [trim, if_neg hover]
      have hlength : (oldest :: rest).flatten.length = n := by
        rw [List.flatten_cons, List.length_append, h]
      rw [htrim, rtake_of_length_le (by omega : (oldest :: rest).flatten.length ≤ tailLimit)]
      exact ⟨rfl, hlength.symm⟩

theorem rtake_rtake_append {α : Type} (n : Nat) (s t : List α) :
    (s.rtake n ++ t).rtake n = (s ++ t).rtake n := by
  rw [rtake_append, rtake_append]
  congr 1
  rw [List.rtake, List.rtake, List.rtake, List.length_drop, List.drop_drop]
  congr 1
  omega

@[simp] theorem appendTail_limit (c : BoundedByteCapture) (chunk : Bytes) :
    (c.appendTail chunk).limit = c.limit := by
  unfold appendTail
  split <;> rfl

/-- Bytes behind a head that is full. -/
theorem keeps_appendTail {c : BoundedByteCapture} {front back chunk : Bytes}
    (hhead : c.head = front) (hfront : front.length ≤ c.headLimit)
    (hfull : back ++ chunk ≠ [] → front.length = c.headLimit)
    (htail : c.tail.flatten = back.rtake c.tailLimit) (hbytes : c.tailBytes = c.tail.flatten.length)
    (htotal : c.totalBytes = (front ++ back ++ chunk).length) :
    (c.appendTail chunk).Keeps (front ++ back ++ chunk) := by
  have hsplit : (front ++ back ++ chunk).take c.headLimit = front ∧
      (front ++ back ++ chunk).drop c.headLimit = back ++ chunk := by
    rw [List.append_assoc]
    by_cases hempty : back ++ chunk = []
    · rw [hempty, List.append_nil]
      exact ⟨List.take_of_length_le hfront, List.drop_eq_nil_of_le hfront⟩
    · rw [← hfull hempty]
      exact ⟨List.take_left, List.drop_left⟩
  by_cases hchunk : chunk = []
  · rw [appendTail, if_pos hchunk]
    refine ⟨hhead.trans hsplit.1.symm, ?_, hbytes, htotal⟩
    rw [hsplit.2, htail, hchunk, List.append_nil]
  · have hflat : (c.tail ++ [chunk]).flatten = back.rtake c.tailLimit ++ chunk := by
      rw [List.flatten_append, htail]
      simp
    obtain ⟨htrim, hlength⟩ := trim_eq c.tailLimit (c.tail ++ [chunk])
      (n := c.tailBytes + chunk.length) (by rw [hflat, hbytes, htail, List.length_append])
    rw [appendTail, if_neg hchunk]
    refine ⟨hhead.trans hsplit.1.symm, ?_, hlength, htotal⟩
    change (trim c.tailLimit (c.tail ++ [chunk]) (c.tailBytes + chunk.length)).1.flatten =
      ((front ++ back ++ chunk).drop c.headLimit).rtake c.tailLimit
    rw [htrim, hflat, hsplit.2, rtake_rtake_append]

theorem append_room {c : BoundedByteCapture} {chunk : Chunk} (h : c.head.length < c.headLimit) :
    c.append chunk = appendTail
      { c with
        totalBytes := c.totalBytes + chunk.encoded.length
        head := c.head ++ chunk.encoded.take (c.headLimit - c.head.length) }
      (chunk.encoded.drop (c.headLimit - c.head.length)) := if_pos h

theorem append_full {c : BoundedByteCapture} {chunk : Chunk} (h : ¬c.head.length < c.headLimit) :
    c.append chunk =
      appendTail { c with totalBytes := c.totalBytes + chunk.encoded.length } chunk.encoded := if_neg h

/-- One chunk. -/
theorem keeps_append {c : BoundedByteCapture} {stream : Bytes} (h : c.Keeps stream) (chunk : Chunk) :
    (c.append chunk).Keeps (stream ++ chunk.encoded) := by
  have hhead := congrArg List.length h.head
  rw [List.length_take] at hhead
  have htotal : c.totalBytes + chunk.encoded.length = (stream ++ chunk.encoded).length := by
    rw [h.totalBytes, List.length_append]
  by_cases hroom : c.head.length < c.headLimit
  · -- the whole stream is in the head, and the chunk goes on there
    have hstream : c.head = stream := by
      rw [h.head]
      exact List.take_of_length_le (by omega)
    have htail : c.tail.flatten = [] := by
      rw [h.tail, List.drop_eq_nil_of_le (by omega)]
      exact List.drop_nil
    have hsplit : stream ++ chunk.encoded = (stream ++ chunk.encoded.take (c.headLimit - c.head.length)) ++
        [] ++ chunk.encoded.drop (c.headLimit - c.head.length) := by
      rw [List.append_nil, List.append_assoc, List.take_append_drop]
    rw [append_room hroom, hsplit]
    refine keeps_appendTail (congrArg (· ++ _) hstream) ?_ (fun hne => ?_) ?_ h.tailBytes ?_
    · change (stream ++ chunk.encoded.take (c.headLimit - c.head.length)).length ≤ c.headLimit
      rw [List.length_append, List.length_take, ← hstream]
      omega
    · have hlong : c.headLimit - c.head.length < chunk.encoded.length := by
        by_contra hle
        exact hne (List.drop_eq_nil_of_le (not_lt.mp hle))
      change (stream ++ chunk.encoded.take (c.headLimit - c.head.length)).length = c.headLimit
      rw [List.length_append, List.length_take, ← hstream]
      omega
    · exact htail.trans List.drop_nil.symm
    · exact hsplit ▸ htotal
  · have hfull : (stream.take c.headLimit).length = c.headLimit := by
      rw [← h.head]
      exact le_antisymm (by omega) (not_lt.mp hroom)
    have hsplit : stream ++ chunk.encoded = stream.take c.headLimit ++ stream.drop c.headLimit ++
        chunk.encoded := by
      rw [List.take_append_drop]
    rw [append_full hroom, hsplit]
    exact keeps_appendTail h.head hfull.le (fun _ => hfull) h.tail h.tailBytes (hsplit ▸ htotal)

theorem append_limit (c : BoundedByteCapture) (chunk : Chunk) : (c.append chunk).limit = c.limit := by
  by_cases hroom : c.head.length < c.headLimit
  · rw [append_room hroom, appendTail_limit]
  · rw [append_full hroom, appendTail_limit]

end BoundedByteCapture

open BoundedByteCapture

/-- A whole pipe. -/
theorem keeps_capture (limit : Nat) (chunks : List Chunk) :
    (capture limit chunks).limit = limit ∧ (capture limit chunks).Keeps (stream chunks) := by
  induction chunks using List.reverseRecOn with
  | nil =>
    refine ⟨rfl, List.take_nil.symm, ?_, rfl, rfl⟩
    rw [stream, List.flatMap_nil, List.drop_nil]
    exact List.drop_nil.symm
  | append_singleton chunks chunk ih =>
    have hcapture : capture limit (chunks ++ [chunk]) = (capture limit chunks).append chunk := by
      rw [capture, List.foldl_append]
      rfl
    have hstream : stream (chunks ++ [chunk]) = stream chunks ++ chunk.encoded := by
      rw [stream, List.flatMap_append, List.flatMap_singleton]
      rfl
    rw [hcapture, hstream, append_limit]
    exact ⟨ih.1, keeps_append ih.2 chunk⟩

/-! ## The number of omitted bytes -/

/-- How many digits. -/
def width (n : Nat) : Nat := n.repr.length

theorem length_encode_ascii {t : List Nat} (h : ∀ c ∈ t, c < 0x80) : (Utf8.encode t).length = t.length := by
  induction t with
  | nil => rfl
  | cons c t ih =>
    have hc : Utf8.encodeChar c = [.ofNat c] := if_pos (h c List.mem_cons_self)
    rw [Utf8.encode, List.flatMap_cons, hc, List.length_append]
    have hrest := ih fun d hd => h d (List.mem_cons_of_mem _ hd)
    rw [Utf8.encode] at hrest
    rw [hrest, List.length_singleton, List.length_cons, Nat.add_comm]

theorem length_marker (n : Nat) : (marker n).length = width n + 29 := by
  have hascii : ∀ c ∈ (("\n[dt: " ++ n.repr ++ " output bytes omitted]\n").toList).map Char.toNat,
      c < 0x80 := by
    simp only [String.toList_append, List.map_append, List.mem_append]
    rintro c ((hc | hc) | hc)
    · exact (by decide : ∀ c ∈ "\n[dt: ".toList.map Char.toNat, c < 0x80) c hc
    · obtain ⟨d, hd, rfl⟩ := List.mem_map.mp hc
      rw [Nat.toList_repr] at hd
      have hrange := toNat_of_isDigit (Nat.isDigit_of_mem_toDigits (by decide) (by decide) hd)
      omega
    · exact (by decide : ∀ c ∈ " output bytes omitted]\n".toList.map Char.toNat, c < 0x80) c hc
  rw [marker, length_encode_ascii hascii, List.length_map, String.toList_append, String.toList_append,
    List.length_append, List.length_append, width]
  simp only [String.length_toList]
  have hfirst : "\n[dt: ".length = 6 := by decide
  have hlast : " output bytes omitted]\n".length = 23 := by decide
  omega

theorem width_pos (n : Nat) : 0 < width n := Nat.length_repr_pos

theorem width_le_iff {n k : Nat} (h : 0 < k) : width n ≤ k ↔ n < 10 ^ k := Nat.length_repr_le_iff h

theorem width_mono {m n : Nat} (h : m ≤ n) : width m ≤ width n :=
  (width_le_iff (width_pos n)).mpr (h.trans_lt ((width_le_iff (width_pos n)).mp le_rfl))

/-- The place of a marker changes the number of digits by one at most. -/
theorem width_grow {m n : Nat} (h : n ≤ m + (width m + 30)) : width n ≤ width m + 1 := by
  rw [width_le_iff (Nat.succ_pos _)]
  have hm := (width_le_iff (width_pos m)).mp le_rfl
  have hroom : ∀ k, 0 < k → k + 30 ≤ 9 * 10 ^ k := by
    intro k hk
    induction k, hk using Nat.le_induction with
    | base => decide
    | succ k hk ih =>
      rw [pow_succ]
      omega
  have hwidth := hroom (width m) (width_pos m)
  rw [pow_succ]
  omega

section

variable {limit total : Nat}

/-- A pass that finds what the pass before it found. -/
theorem settle_same {passes omitted : Nat} (r : Bytes × Nat)
    (h : total - (limit - (marker omitted).length) = omitted) :
    settle limit total (passes + 1) omitted r = (marker omitted, limit - (marker omitted).length) :=
  if_pos h

theorem settle_next {passes omitted : Nat} (r : Bytes × Nat)
    (h : total - (limit - (marker omitted).length) ≠ omitted) :
    settle limit total (passes + 1) omitted r =
      settle limit total passes (total - (limit - (marker omitted).length))
        (marker omitted, limit - (marker omitted).length) :=
  if_neg h

/-- A marker that does not fit leaves no room, and one that counts more bytes does not fit either. -/
theorem settle_over {passes omitted : Nat} (r : Bytes × Nat) (hle : omitted ≤ total)
    (hover : limit < (marker omitted).length) :
    limit < (settle limit total (passes + 2) omitted r).1.length := by
  have hnone : total - (limit - (marker omitted).length) = total := by
    rw [Nat.sub_eq_zero_of_le hover.le, Nat.sub_zero]
  by_cases hsame : total = omitted
  · rw [settle_same r (hnone.trans hsame)]
    exact hover
  · have htotal : limit < (marker total).length := by
      have hwidth := width_mono hle
      rw [length_marker] at hover ⊢
      omega
    rw [settle_next r (by rwa [hnone]), hnone, settle_same]
    · exact htotal
    · rw [Nat.sub_eq_zero_of_le htotal.le, Nat.sub_zero]

/-- **The number settles**: what the marker reports is what is missing. -/
theorem settle_fixed (r : Bytes × Nat) (h : limit < total)
    (hfits : (settle limit total 4 (total - limit) r).1.length ≤ limit) :
    ∃ omitted, settle limit total 4 (total - limit) r =
      (marker omitted, limit - (marker omitted).length) ∧ (marker omitted).length ≤ limit ∧
      limit - (marker omitted).length + omitted = total := by
  obtain ⟨first, hfirst⟩ : ∃ first, first = total - limit := ⟨_, rfl⟩
  rw [← hfirst] at hfits ⊢
  have hmarker := length_marker
  have hfit₀ : (marker first).length ≤ limit :=
    not_lt.mp fun hover => (settle_over r (by omega) hover).not_ge hfits
  obtain ⟨second, hsecond⟩ : ∃ second, second = total - (limit - (marker first).length) := ⟨_, rfl⟩
  have hstep : settle limit total 4 first r =
      settle limit total 3 second (marker first, limit - (marker first).length) := by
    rw [hsecond]
    refine settle_next r ?_
    have := hmarker first
    omega
  rw [hstep] at hfits ⊢
  have hfit₁ : (marker second).length ≤ limit :=
    not_lt.mp fun hover => (settle_over _ (by omega) hover).not_ge hfits
  rw [hmarker] at hsecond hfit₀ hfit₁
  have hmono : width first ≤ width second := width_mono (by omega)
  by_cases hwidth : width second = width first
  · refine ⟨second, settle_same _ ?_, ?_, ?_⟩ <;> rw [hmarker] <;> omega
  · obtain ⟨third, hthird⟩ : ∃ third, third = total - (limit - (marker second).length) := ⟨_, rfl⟩
    rw [hmarker] at hthird
    have hgrow₁ : width second ≤ width first + 1 := width_grow (by omega)
    have hgrow₂ : width third ≤ width first + 1 := width_grow (by omega)
    have hmono₂ : width second ≤ width third := width_mono (by omega)
    have hstep₂ : settle limit total 3 second (marker first, limit - (marker first).length) =
        settle limit total 2 third (marker second, limit - (marker second).length) := by
      rw [hthird, ← hmarker]
      refine settle_next _ ?_
      rw [hmarker]
      omega
    rw [hstep₂] at hfits ⊢
    refine ⟨third, settle_same _ ?_, ?_, ?_⟩ <;> rw [hmarker] <;> omega

end

/-! ## The rendering -/

/-- The marker of a rendering of so many bytes. -/
def omissionMarker (limit total : Nat) : Bytes := (settle limit total 4 (total - limit) ([], limit)).1

/-- What is promised of the rendering of a stream. -/
structure Renders (limit : Nat) (stream : Bytes) (out : List Nat) : Prop where
  whole : stream.length ≤ limit → out = Utf8.decode stream
  text : ∀ t, (∀ c ∈ t, Utf8.IsScalar c) → stream = Utf8.encode t → stream.length ≤ limit → out = t
  cut : limit < stream.length → (omissionMarker limit stream.length).length ≤ limit →
    ∃ front back omitted, out = Utf8.decode (front ++ marker omitted ++ back) ∧
      front <+: stream ∧ back <:+ stream ∧ (front ++ marker omitted ++ back).length ≤ limit ∧
      front.length + back.length + omitted = stream.length ∧ out.length ≤ limit

theorem rtake_drop {α : Type} {s : List α} {k a b : Nat} (hb : b ≤ a) (hk : b + k ≤ s.length) :
    ((s.drop k).rtake a).rtake b = s.rtake b := by
  have hdrop : (s.drop k).rtake a = s.drop (k + (s.length - k - a)) := by
    rw [List.rtake, List.length_drop, List.drop_drop]
  rw [hdrop, List.rtake, List.rtake, List.length_drop, List.drop_drop]
  congr 1
  omega

theorem retained_congr {c c' : BoundedByteCapture} {stream : Bytes} (h : c.Keeps stream)
    (h' : c'.Keeps stream) (hlimit : c.limit = c'.limit) : c.retained = c'.retained := by
  unfold retained
  rw [h.head, h'.head, h.tail, h'.tail, h.totalBytes, h'.totalBytes, tailLimit, tailLimit, headLimit,
    headLimit, hlimit]

theorem retained_whole {c : BoundedByteCapture} {stream : Bytes} (h : c.Keeps stream)
    (hle : stream.length ≤ c.limit) : c.retained = stream := by
  have htail : (stream.drop c.headLimit).length ≤ c.tailLimit := by
    rw [List.length_drop, tailLimit]
    omega
  rw [retained, if_pos (by rwa [h.totalBytes]), h.head, h.tail, rtake_of_length_le htail,
    List.take_append_drop]

/-- With a marker of the limit's size at most, what is left is a beginning and an end of the stream. -/
theorem retained_cut {c : BoundedByteCapture} {stream : Bytes} (h : c.Keeps stream)
    {limit : Nat} (hlimit : c.limit = limit) (hlt : limit < stream.length)
    (hfits : (omissionMarker limit stream.length).length ≤ limit) :
    ∃ front back omitted, c.retained = front ++ marker omitted ++ back ∧ front <+: stream ∧
      back <:+ stream ∧ (front ++ marker omitted ++ back).length ≤ limit ∧
      front.length + back.length + omitted = stream.length := by
  subst hlimit
  obtain ⟨omitted, hsettle, hmarker, hsum⟩ := settle_fixed ([], c.limit) hlt hfits
  obtain ⟨budget, hbudget⟩ : ∃ budget, budget = c.limit - (marker omitted).length := ⟨_, rfl⟩
  rw [← hbudget] at hsettle hsum
  have hfront : (c.head.take (budget / 2)) = stream.take (budget / 2) := by
    rw [h.head, List.take_take, Nat.min_eq_left]
    rw [headLimit]
    omega
  have hback : (if budget - budget / 2 ≠ 0 then c.tail.flatten.rtake (budget - budget / 2) else []) =
      stream.rtake (budget - budget / 2) := by
    by_cases hzero : budget - budget / 2 = 0
    · rw [if_neg (not_not.mpr hzero), hzero, List.rtake_zero]
    · rw [if_pos hzero, h.tail]
      refine rtake_drop ?_ ?_
      · rw [tailLimit, headLimit]
        omega
      · rw [headLimit]
        omega
  have hretained : c.retained = stream.take (budget / 2) ++ marker omitted ++
      stream.rtake (budget - budget / 2) := by
    rw [retained, if_neg (by rw [h.totalBytes]; omega), h.totalBytes, hsettle]
    simp only
    rw [hfront, hback]
  have hlengths : (stream.take (budget / 2)).length = budget / 2 ∧
      (stream.rtake (budget - budget / 2)).length = budget - budget / 2 := by
    rw [List.length_take, length_rtake]
    omega
  refine ⟨_, _, omitted, hretained, List.take_prefix _ _, List.drop_suffix _ _, ?_, ?_⟩
  · rw [List.length_append, List.length_append, hlengths.1, hlengths.2]
    omega
  · rw [hlengths.1, hlengths.2]
    omega

/-- **A capture renders the stream, or a beginning and an end of it around the marker**, decoded, however
the stream was split into chunks. -/
theorem bounded_capture (limit : Nat) (chunks : List Chunk) :
    Renders limit (stream chunks) (capture limit chunks).render ∧
      ∀ chunks', stream chunks' = stream chunks →
        (capture limit chunks').render = (capture limit chunks).render := by
  obtain ⟨hlimit, hkeeps⟩ := keeps_capture limit chunks
  have hwhole : (stream chunks).length ≤ limit →
      (capture limit chunks).render = Utf8.decode (stream chunks) := by
    rintro hle
    rw [render, retained_whole hkeeps (by rwa [hlimit])]
  refine ⟨⟨hwhole, fun t ht hstream hle => ?_, fun hlt hfits => ?_⟩, fun chunks' hstream => ?_⟩
  · rw [hwhole hle, hstream, Utf8.decode_encode ht]
  · obtain ⟨front, back, omitted, hretained, hfront, hback, hlength, hsum⟩ :=
      retained_cut hkeeps hlimit hlt hfits
    exact ⟨front, back, omitted, congrArg Utf8.decode hretained, hfront, hback, hlength, hsum,
      (Utf8.decode_length_le _).trans (hretained ▸ hlength)⟩
  · obtain ⟨hlimit', hkeeps'⟩ := keeps_capture limit chunks'
    rw [hstream] at hkeeps'
    exact congrArg Utf8.decode (retained_congr hkeeps' hkeeps (hlimit'.trans hlimit.symm))

/-- A byte that is no UTF-8 is not rendered as it is: three bytes stand for it. -/
theorem undecodable_byte : (stream [.bytes [0xff]]).length ≤ 64 ∧
    Utf8.encode (capture 64 [.bytes [0xff]]).render ≠ stream [.bytes [0xff]] := by
  decide

end Dt.Remote
