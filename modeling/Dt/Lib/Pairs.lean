import Mathlib
import Dt.Lib.Base64

/-!
# Pairs of fields that end with a mark

A list of pairs is written as its fields, each followed by a mark that is in none of them. A reader
that asks for the mark at the end, splits the text at the marks and takes the fields two by two gets
the pairs back. For texts the mark is the byte `0`, which UTF-8 uses for nothing but the character
`0`.
-/

namespace Dt.Lib

/-! ## Pairs -/

section

variable {α β : Type*} [DecidableEq α]

def encodePairs (mark : α) (pairs : List (List α × List α)) : List α :=
  pairs.flatMap fun p => p.1 ++ mark :: (p.2 ++ [mark])

/-- Every two fields are a pair; none when one is left over. -/
def pairUp : List β → Option (List (β × β))
  | [] => some []
  | [_] => none
  | a :: b :: rest => (pairUp rest).map ((a, b) :: ·)

/-- The pairs of a text that is empty or ends with the mark. -/
def decodePairs (mark : α) (body : List α) : Option (List (List α × List α)) :=
  if body = [] then some []
  else if body.getLast? = some mark then pairUp (body.dropLast.splitOn mark)
  else none

theorem splitOn_fields {mark : α} {a : List α} (ha : mark ∉ a) (s : List α) :
    (a ++ mark :: s).splitOn mark = a :: s.splitOn mark := by
  rw [List.splitOn_eq_splitOnP, List.splitOn_eq_splitOnP]
  refine List.splitOnP_append_cons_of_forall_mem (fun x hx => ?_) mark (by simp) s
  rw [beq_eq_false_iff_ne]
  rintro rfl
  exact ha hx

theorem splitOn_field {mark : α} {a : List α} (ha : mark ∉ a) : a.splitOn mark = [a] := by
  rw [List.splitOn_eq_splitOnP]
  refine List.splitOnP_eq_singleton fun x hx => ?_
  rw [beq_eq_false_iff_ne]
  rintro rfl
  exact ha hx

theorem decodePairs_encodePairs {mark : α} {pairs : List (List α × List α)}
    (h : ∀ p ∈ pairs, mark ∉ p.1 ∧ mark ∉ p.2) :
    decodePairs mark (encodePairs mark pairs) = some pairs := by
  have hsplit : ∀ p ps, (∀ q ∈ p :: ps, mark ∉ q.1 ∧ mark ∉ q.2) →
      ∃ body, encodePairs mark (p :: ps) = body ++ [mark] ∧
        pairUp (body.splitOn mark) = some (p :: ps) := by
    intro p ps
    induction ps generalizing p with
    | nil =>
      intro hps
      obtain ⟨h₁, h₂⟩ := hps p List.mem_cons_self
      refine ⟨p.1 ++ mark :: p.2, by simp [encodePairs], ?_⟩
      rw [splitOn_fields h₁, splitOn_field h₂]
      rfl
    | cons q ps ih =>
      intro hps
      obtain ⟨h₁, h₂⟩ := hps p List.mem_cons_self
      obtain ⟨body, hbody, hpairs⟩ := ih q fun r hr => hps r (List.mem_cons_of_mem p hr)
      refine ⟨p.1 ++ mark :: (p.2 ++ mark :: body), ?_, ?_⟩
      · have hcons : encodePairs mark (p :: q :: ps) =
            (p.1 ++ mark :: (p.2 ++ [mark])) ++ encodePairs mark (q :: ps) := rfl
        rw [hcons, hbody]
        simp
      · rw [splitOn_fields h₁, splitOn_fields h₂, pairUp, hpairs]
        rfl
  cases pairs with
  | nil => rfl
  | cons p ps =>
    obtain ⟨body, hbody, hpairs⟩ := hsplit p ps h
    rw [decodePairs, hbody, if_neg (by simp), if_pos (by simp), List.dropLast_concat, hpairs]

end

/-! ## Loops that stop at the first error -/

section

variable {α β ε : Type*} {f : α → Except ε β}

theorem mapM_cons_error {x : α} {xs : List α} {e : ε} :
    (x :: xs).mapM f = .error e ↔
      f x = .error e ∨ ∃ y, f x = .ok y ∧ xs.mapM f = .error e := by
  rw [List.mapM_cons]
  cases hx : f x with
  | error e' => simp [bind, Except.bind]
  | ok y =>
    cases hxs : xs.mapM f with
    | error e' => simp [bind, Except.bind]
    | ok ys => simp [bind, Except.bind, pure, Except.pure]

theorem mapM_cons_ok {x : α} {xs : List α} {zs : List β} :
    (x :: xs).mapM f = .ok zs ↔ ∃ y ys, f x = .ok y ∧ xs.mapM f = .ok ys ∧ zs = y :: ys := by
  rw [List.mapM_cons]
  cases hx : f x with
  | error e' => simp [bind, Except.bind]
  | ok y =>
    cases hxs : xs.mapM f with
    | error e' => simp [bind, Except.bind]
    | ok ys => simp [bind, Except.bind, pure, Except.pure, eq_comm]

/-- The loop fails with the error of the first element that fails. -/
theorem mapM_eq_error_iff {xs : List α} {e : ε} :
    xs.mapM f = .error e ↔
      ∃ before x after, xs = before ++ x :: after ∧ (∀ y ∈ before, ∃ z, f y = .ok z) ∧
        f x = .error e := by
  induction xs with
  | nil => simp [pure, Except.pure]
  | cons x xs ih =>
    rw [mapM_cons_error, ih]
    constructor
    · rintro (hx | ⟨y, hx, before, x', after, rfl, hbefore, hx'⟩)
      · exact ⟨[], x, xs, rfl, (fun _ h => nomatch h), hx⟩
      · refine ⟨x :: before, x', after, rfl, fun z hz => ?_, hx'⟩
        rcases List.mem_cons.mp hz with rfl | hz
        · exact ⟨y, hx⟩
        · exact hbefore z hz
    · rintro ⟨before, x', after, heq, hbefore, hx'⟩
      cases before with
      | nil =>
        obtain ⟨rfl, rfl⟩ := List.cons.inj heq
        exact .inl hx'
      | cons b before =>
        obtain ⟨rfl, rfl⟩ := List.cons.inj heq
        obtain ⟨y, hy⟩ := hbefore x List.mem_cons_self
        exact .inr ⟨y, hy, before, x', after, rfl,
          fun z hz => hbefore z (List.mem_cons_of_mem x hz), hx'⟩

theorem mapM_eq_ok_iff {xs : List α} {ys : List β} :
    xs.mapM f = .ok ys ↔ List.Forall₂ (fun x y => f x = .ok y) xs ys := by
  induction xs generalizing ys with
  | nil => simp [pure, Except.pure, eq_comm]
  | cons x xs ih =>
    rw [mapM_cons_ok, List.forall₂_cons_left_iff]
    constructor
    · rintro ⟨y, ys, hy, hys, rfl⟩
      exact ⟨y, ys, hy, ih.mp hys, rfl⟩
    · rintro ⟨y, ys, hy, hys, rfl⟩
      exact ⟨y, ys, hy, ih.mpr hys, rfl⟩

end

/-! ## Texts as bytes -/

def textBytes (t : List Char) : List Nat := utf8Bytes (String.ofList t)

def bytesText (bytes : List Nat) : Option (List Char) := (utf8Text bytes).map String.toList

/-- `raw.decode("ascii")` -/
def asciiText (bytes : List Nat) : Option (List Char) :=
  if bytes.all (· < 128) then some (bytes.map Char.ofNat) else none

theorem bytesText_textBytes (t : List Char) : bytesText (textBytes t) = some t := by
  simp [bytesText, textBytes, utf8Text_utf8Bytes]

theorem textBytes_eq (t : List Char) :
    textBytes t = (t.flatMap String.utf8EncodeChar).map UInt8.toNat := by
  unfold textBytes utf8Bytes
  rw [String.toByteArray_ofList]
  simp [List.utf8Encode]

theorem zero_notMem_utf8EncodeChar {c : Char} (hc : c ≠ '\x00') :
    ∀ b ∈ String.utf8EncodeChar c, b.toNat ≠ 0 := by
  have hval : c.val.toNat ≠ 0 := by
    intro h
    apply hc
    apply Char.ext
    exact UInt32.toNat_inj.mp h
  intro b hb
  unfold String.utf8EncodeChar at hb
  dsimp only at hb
  generalize c.val.toNat = v at hval hb
  split at hb
  · rw [List.mem_singleton.mp hb, UInt8.toNat_ofNat']
    omega
  · split at hb
    · simp only [List.mem_cons, List.not_mem_nil, or_false] at hb
      rcases hb with rfl | rfl
      all_goals
        rw [UInt8.toNat_ofNat']
        omega
    · split at hb
      · simp only [List.mem_cons, List.not_mem_nil, or_false] at hb
        rcases hb with rfl | rfl | rfl
        all_goals
          rw [UInt8.toNat_ofNat']
          omega
      · simp only [List.mem_cons, List.not_mem_nil, or_false] at hb
        rcases hb with rfl | rfl | rfl | rfl
        all_goals
          rw [UInt8.toNat_ofNat']
          omega

/-- The byte `0` is in no text without the character `0`. -/
theorem zero_notMem_textBytes {t : List Char} (h : '\x00' ∉ t) : 0 ∉ textBytes t := by
  rw [textBytes_eq]
  intro hmem
  obtain ⟨b, hb, hzero⟩ := List.mem_map.mp hmem
  obtain ⟨c, hc, hbc⟩ := List.mem_flatMap.mp hb
  refine zero_notMem_utf8EncodeChar ?_ b hbc hzero
  rintro rfl
  exact h hc

/-- A text of ASCII characters has one byte for each of them. -/
theorem textBytes_ascii {t : List Char} (h : ∀ c ∈ t, c.toNat < 128) :
    textBytes t = t.map Char.toNat := by
  rw [textBytes_eq]
  induction t with
  | nil => rfl
  | cons c t ih =>
    have hc := h c List.mem_cons_self
    have hchar : (String.utf8EncodeChar c).map UInt8.toNat = [c.toNat] := by
      have hle : c.val.toNat ≤ 127 := Nat.le_of_lt_succ hc
      unfold String.utf8EncodeChar
      dsimp only
      rw [if_pos hle, List.map_singleton, UInt8.toNat_ofNat']
      have hmod : c.val.toNat % 2 ^ 8 = c.val.toNat := Nat.mod_eq_of_lt (by omega)
      rw [hmod]
      rfl
    rw [List.flatMap_cons, List.map_append, hchar,
      ih fun d hd => h d (List.mem_cons_of_mem c hd)]
    rfl

theorem asciiText_textBytes {t : List Char} (h : ∀ c ∈ t, c.toNat < 128) :
    asciiText (textBytes t) = some t := by
  rw [textBytes_ascii h]
  unfold asciiText
  rw [if_pos]
  · have hid : Char.ofNat ∘ Char.toNat = id := by
      funext c
      exact Char.ofNat_toNat c
    rw [List.map_map, hid, List.map_id]
  · rw [List.all_eq_true]
    intro n hn
    obtain ⟨c, hc, rfl⟩ := List.mem_map.mp hn
    simpa using h c hc

theorem length_textBytes_ascii {t : List Char} (h : ∀ c ∈ t, c.toNat < 128) :
    (textBytes t).length = t.length := by
  rw [textBytes_ascii h, List.length_map]

end Dt.Lib
