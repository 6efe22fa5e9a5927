import Mathlib
import Dt.Lib.Transducer

/-!
# The terminal sanitizer

Text that a job wrote goes through `TerminalSanitizer` before it reaches an operator's terminal. What
belongs to a control sequence is dropped, and a marker says how many bytes were dropped. The sanitizer
is fed in chunks: a sequence that is not finished and omissions that no marker reports yet wait in its
state.

A `str` is a list of code points, which may be lone halves of surrogate pairs.
-/

namespace Dt.Terminal

open Dt.Lib

abbrev Text := List Nat

def codes (s : String) : Text := s.toList.map Char.toNat

/-- What a marker says was omitted. -/
inductive Kind where
  | nul | terminalControl
  deriving DecidableEq

def Kind.text : Kind → String
  | .nul => "NUL"
  | .terminalControl => "terminal-control"

/-- `_sequence`; a name that ends in `_esc` is that of a string after an escape character. -/
inductive Sequence where
  | esc | csi | osc | dcs | string | oscEsc | dcsEsc | stringEsc
  deriving DecidableEq

structure TerminalSanitizer where
  omittedKind : Option Kind := none
  omittedCount : Nat := 0
  sequence : Option Sequence := none
  sequenceCount : Nat := 0
  deriving DecidableEq

/-- `_byte_count`: half a surrogate pair is a byte when it stands for one, and raises otherwise. -/
def byteCount (c : Nat) : Option Nat :=
  if c < 0x80 then some 1
  else if c < 0x800 then some 2
  else if 0xdc80 ≤ c ∧ c ≤ 0xdcff then some 1
  else if 0xd800 ≤ c ∧ c ≤ 0xdfff then none
  else if c < 0x10000 then some 3
  else some 4

def marker (kind : Kind) (count : Nat) : Text :=
  codes ("[dt: omitted " ++ toString count ++ " " ++ kind.text ++ " " ++
    (if count = 1 then "byte" else "bytes") ++ "]")

/-- `_flush_omitted` -/
def flushOmitted (s : TerminalSanitizer) : Text × TerminalSanitizer :=
  match s.omittedKind with
  | none => ([], s)
  | some kind => (marker kind s.omittedCount, { s with omittedKind := none, omittedCount := 0 })

/-- `_omit` -/
def omitBytes (s : TerminalSanitizer) (kind : Kind) (count : Nat) : Text × TerminalSanitizer :=
  if s.omittedKind = some kind then ([], { s with omittedCount := s.omittedCount + count })
  else
    let r := flushOmitted s
    (r.1, { r.2 with omittedKind := some kind, omittedCount := count })

/-- `_finish_sequence` -/
def finishSequence (s : TerminalSanitizer) : Text × TerminalSanitizer :=
  omitBytes { s with sequence := none, sequenceCount := 0 } .terminalControl s.sequenceCount

/-- The sequence that a character begins. -/
def startOf (c : Nat) : Option Sequence :=
  if c = 0x1b then some .esc
  else if c = 0x9b then some .csi
  else if c = 0x9d then some .osc
  else if c = 0x90 then some .dcs
  else if c = 0x98 ∨ c = 0x9e ∨ c = 0x9f then some .string
  else none

/-- The sequence after one more character; none when that character ends it. -/
def next : Sequence → Nat → Option Sequence
  | .esc, c =>
    if c = 0x5b then some .csi
    else if c = 0x5d then some .osc
    else if c = 0x50 then some .dcs
    else if c = 0x58 ∨ c = 0x5e ∨ c = 0x5f then some .string
    else none
  | .csi, c => if 0x40 ≤ c ∧ c ≤ 0x7e then none else some .csi
  | .osc, c =>
    if c = 0x07 then none else if c = 0x9c then none else if c = 0x1b then some .oscEsc
    else some .osc
  | .dcs, c => if c = 0x9c then none else if c = 0x1b then some .dcsEsc else some .dcs
  | .string, c => if c = 0x9c then none else if c = 0x1b then some .stringEsc else some .string
  | .oscEsc, c => if c = 0x5c then none else if c ≠ 0x1b then some .osc else some .oscEsc
  | .dcsEsc, c => if c = 0x5c then none else if c ≠ 0x1b then some .dcs else some .dcsEsc
  | .stringEsc, c => if c = 0x5c then none else if c ≠ 0x1b then some .string else some .stringEsc

/-- A control character other than tab and new line. -/
def IsControl (c : Nat) : Prop := c < 0x20 ∧ c ≠ 0x09 ∧ c ≠ 0x0a ∨ 0x7f ≤ c ∧ c ≤ 0x9f

instance IsControl.decidable (c : Nat) : Decidable (IsControl c) :=
  inferInstanceAs (Decidable (_ ∨ _))

/-- One character of `feed`; none when it raises. -/
def feedChar (s : TerminalSanitizer) (c : Nat) : Option (Text × TerminalSanitizer) :=
  match s.sequence with
  | none =>
    match startOf c with
    | some q =>
      let r := flushOmitted s
      (byteCount c).map fun n => (r.1, { r.2 with sequence := some q, sequenceCount := n })
    | none =>
      if c = 0 then (byteCount c).map (omitBytes s .nul)
      else if IsControl c then (byteCount c).map (omitBytes s .terminalControl)
      else
        let r := flushOmitted s
        some (r.1 ++ [c], r.2)
  | some q =>
    (byteCount c).map fun n =>
      let s := { s with sequenceCount := s.sequenceCount + n }
      match next q c with
      | some q => ([], { s with sequence := some q })
      | none => finishSequence s

/-- `feed("", final=True)` -/
def finish (s : TerminalSanitizer) : Text :=
  let r := if s.sequence.isSome then finishSequence s else ([], s)
  r.1 ++ (flushOmitted r.2).1

/-- The chunks are fed one by one, and the sanitizer is finished. -/
def feedChunks (chunks : List Text) : Option Text :=
  (feedAll feedChar {} chunks).map fun r => r.1 ++ finish r.2

/-- `sanitize_terminal_text` -/
def sanitizeTerminalText (text : Text) : Option Text :=
  (feed feedChar {} text).map fun r => r.1 ++ finish r.2

/-! ## Control sequences -/

/-- What may stand in a string before it ends: a character that does nothing, or escape characters and
one that they do not end it with. Only in an `OSC` does a `BEL` end it. -/
inductive StringBody (bel : Bool) : Text → Prop where
  | nil : StringBody bel []
  | char {body : Text} {c : Nat} (h : StringBody bel body) (hesc : c ≠ 0x1b) (hst : c ≠ 0x9c)
      (hbel : bel = true → c ≠ 0x07) : StringBody bel (body ++ [c])
  | escaped {body : Text} {c : Nat} (h : StringBody bel body) (n : Nat) (hend : c ≠ 0x5c)
      (hesc : c ≠ 0x1b) : StringBody bel (body ++ (List.replicate (n + 1) 0x1b ++ [c]))

/-- The one and two character introducers of a sequence. -/
def introducers : Sequence → List Text
  | .esc => [[0x1b]]
  | .csi => [[0x9b], [0x1b, 0x5b]]
  | .osc | .oscEsc => [[0x9d], [0x1b, 0x5d]]
  | .dcs | .dcsEsc => [[0x90], [0x1b, 0x50]]
  | .string | .stringEsc => [[0x98], [0x9e], [0x9f], [0x1b, 0x58], [0x1b, 0x5e], [0x1b, 0x5f]]

def OpenString (q : Sequence) (bel : Bool) (p : Text) : Prop :=
  ∃ intro ∈ introducers q, ∃ body, p = intro ++ body ∧ StringBody bel body

/-- A control sequence that is not finished. -/
def Open : Sequence → Text → Prop
  | .esc, p => p = [0x1b]
  | .csi, p => ∃ intro ∈ introducers .csi, ∃ body, p = intro ++ body ∧
      ∀ c ∈ body, ¬(0x40 ≤ c ∧ c ≤ 0x7e)
  | .osc, p => OpenString .osc true p
  | .dcs, p => OpenString .dcs false p
  | .string, p => OpenString .string false p
  | .oscEsc, p => ∃ front n, p = front ++ List.replicate (n + 1) 0x1b ∧ OpenString .osc true front
  | .dcsEsc, p => ∃ front n, p = front ++ List.replicate (n + 1) 0x1b ∧ OpenString .dcs false front
  | .stringEsc, p =>
    ∃ front n, p = front ++ List.replicate (n + 1) 0x1b ∧ OpenString .string false front

/-- A control sequence: one control character that begins no longer one, or a sequence with the character
that ends it. -/
inductive Control : Text → Prop where
  | single {c : Nat} (h : IsControl c) (hfirst : ∀ q, [c] ∉ introducers q) : Control [c]
  | escape {c : Nat} (h : ∀ q, [0x1b, c] ∉ introducers q) : Control [0x1b, c]
  | csi {p : Text} {c : Nat} (h : Open .csi p) (hfinal : 0x40 ≤ c ∧ c ≤ 0x7e) : Control (p ++ [c])
  | bel {p : Text} (h : Open .osc p) : Control (p ++ [0x07])
  | st {p : Text} (h : Open .osc p ∨ Open .dcs p ∨ Open .string p) : Control (p ++ [0x9c])
  | escaped {p : Text} (h : Open .oscEsc p ∨ Open .dcsEsc p ∨ Open .stringEsc p) :
      Control (p ++ [0x5c])

/-- A text of plain characters, which are the second text, and of control sequences. -/
inductive Parse : Text → Text → Prop where
  | nil : Parse [] []
  | plain {text kept : Text} {c : Nat} (h : Parse text kept) (hc : ¬IsControl c) :
      Parse (text ++ [c]) (kept ++ [c])
  | control {text kept l : Text} (h : Parse text kept) (hl : Control l) : Parse (text ++ l) kept

/-! ### The states of a string -/

/-- The state in a string, the state after an escape character in it, and whether a `BEL` ends it. -/
inductive StringStates : Sequence → Sequence → Bool → Prop where
  | osc : StringStates .osc .oscEsc true
  | dcs : StringStates .dcs .dcsEsc false
  | string : StringStates .string .stringEsc false

namespace StringStates

variable {q e : Sequence} {bel : Bool}

theorem next_string (h : StringStates q e bel) (c : Nat) : next q c =
    if bel = true ∧ c = 0x07 then none else if c = 0x9c then none
    else if c = 0x1b then some e else some q := by
  cases h <;> simp [next]

theorem next_escaped (h : StringStates q e bel) (c : Nat) : next e c =
    if c = 0x5c then none else if c ≠ 0x1b then some q else some e := by
  cases h <;> rfl

theorem open_string (h : StringStates q e bel) (p : Text) : Open q p ↔ OpenString q bel p := by
  cases h <;> rfl

theorem open_escaped (h : StringStates q e bel) (p : Text) : Open e p ↔
    ∃ front n, p = front ++ List.replicate (n + 1) 0x1b ∧ OpenString q bel front := by
  cases h <;> rfl

theorem control_st (h : StringStates q e bel) {p : Text} (hp : Open q p) : Control (p ++ [0x9c]) := by
  cases h with
  | osc => exact .st (.inl hp)
  | dcs => exact .st (.inr (.inl hp))
  | string => exact .st (.inr (.inr hp))

theorem control_escaped (h : StringStates q e bel) {p : Text} (hp : Open e p) :
    Control (p ++ [0x5c]) := by
  cases h with
  | osc => exact .escaped (.inl hp)
  | dcs => exact .escaped (.inr (.inl hp))
  | string => exact .escaped (.inr (.inr hp))

end StringStates

/-! ### The states stand for open sequences -/

theorem open_start {c : Nat} {q : Sequence} (h : startOf c = some q) : Open q [c] := by
  unfold startOf at h
  split at h
  · obtain rfl := Option.some.inj h
    rename_i hc
    rw [hc]
    rfl
  split at h
  · obtain rfl := Option.some.inj h
    rename_i hc
    exact ⟨[c], by simp [introducers, hc], [], rfl, fun _ hm => absurd hm List.not_mem_nil⟩
  split at h
  · obtain rfl := Option.some.inj h
    rename_i hc
    exact ⟨[c], by simp [introducers, hc], [], rfl, .nil⟩
  split at h
  · obtain rfl := Option.some.inj h
    rename_i hc
    exact ⟨[c], by simp [introducers, hc], [], rfl, .nil⟩
  split at h
  · obtain rfl := Option.some.inj h
    rename_i hc
    exact ⟨[c], by simpa [introducers] using hc, [], rfl, .nil⟩
  · cases h

section

variable {q q' e : Sequence} {bel : Bool} {p : Text} {c : Nat}

theorem open_next_esc (h : Open .esc p) (hc : next .esc c = some q') : Open q' (p ++ [c]) := by
  obtain rfl : p = [0x1b] := h
  simp only [next] at hc
  split at hc
  · obtain rfl := Option.some.inj hc
    rename_i hchar
    exact ⟨[0x1b, c], by simp [introducers, hchar], [], rfl, fun _ hm => absurd hm List.not_mem_nil⟩
  split at hc
  · obtain rfl := Option.some.inj hc
    rename_i hchar
    exact ⟨[0x1b, c], by simp [introducers, hchar], [], rfl, .nil⟩
  split at hc
  · obtain rfl := Option.some.inj hc
    rename_i hchar
    exact ⟨[0x1b, c], by simp [introducers, hchar], [], rfl, .nil⟩
  split at hc
  · obtain rfl := Option.some.inj hc
    rename_i hchar
    exact ⟨[0x1b, c], by simpa [introducers] using hchar, [], rfl, .nil⟩
  · cases hc

theorem open_next_csi (h : Open .csi p) (hc : next .csi c = some q') : Open q' (p ++ [c]) := by
  simp only [next] at hc
  split at hc
  · cases hc
  · obtain rfl := Option.some.inj hc
    rename_i hfinal
    obtain ⟨intro, hintro, body, rfl, hbody⟩ := h
    refine ⟨intro, hintro, body ++ [c], List.append_assoc .., fun d hd => ?_⟩
    rcases List.mem_append.mp hd with hd | hd
    · exact hbody d hd
    · exact (List.mem_singleton.mp hd) ▸ hfinal

theorem open_next_string (hstates : StringStates q e bel) (h : Open q p) (hc : next q c = some q') :
    Open q' (p ++ [c]) := by
  rw [hstates.open_string] at h
  rw [hstates.next_string] at hc
  split at hc
  · cases hc
  split at hc
  · cases hc
  split at hc
  · obtain rfl := Option.some.inj hc
    rename_i hesc
    exact (hstates.open_escaped _).mpr ⟨p, 0, by rw [hesc]; rfl, h⟩
  · obtain rfl := Option.some.inj hc
    rename_i hbel hst hesc
    obtain ⟨intro, hintro, body, rfl, hbody⟩ := h
    exact (hstates.open_string _).mpr ⟨intro, hintro, body ++ [c], List.append_assoc ..,
      hbody.char hesc hst fun hb hbel' => hbel ⟨hb, hbel'⟩⟩

theorem open_next_escaped (hstates : StringStates q e bel) (h : Open e p) (hc : next e c = some q') :
    Open q' (p ++ [c]) := by
  obtain ⟨front, n, hp, hfront⟩ := (hstates.open_escaped _).mp h
  rw [hstates.next_escaped] at hc
  split at hc
  · cases hc
  split at hc
  · obtain rfl := Option.some.inj hc
    rename_i hend hesc
    obtain ⟨intro, hintro, body, rfl, hbody⟩ := hfront
    refine (hstates.open_string _).mpr ⟨intro, hintro, _, ?_, hbody.escaped n hend hesc⟩
    rw [hp]
    simp only [List.append_assoc]
  · obtain rfl := Option.some.inj hc
    rename_i hesc
    refine (hstates.open_escaped _).mpr ⟨front, n + 1, ?_, hfront⟩
    rw [hp, not_not.mp hesc, List.append_assoc, ← List.replicate_succ']

/-- A character that does not end a sequence leaves it open. -/
theorem open_next (h : Open q p) (hc : next q c = some q') : Open q' (p ++ [c]) := by
  cases q with
  | esc => exact open_next_esc h hc
  | csi => exact open_next_csi h hc
  | osc => exact open_next_string .osc h hc
  | dcs => exact open_next_string .dcs h hc
  | string => exact open_next_string .string h hc
  | oscEsc => exact open_next_escaped .osc h hc
  | dcsEsc => exact open_next_escaped .dcs h hc
  | stringEsc => exact open_next_escaped .string h hc

theorem next_string_none (hstates : StringStates q e bel) (h : Open q p) (hc : next q c = none) :
    Control (p ++ [c]) := by
  have hst := hstates.control_st h
  rw [hstates.next_string] at hc
  split at hc
  · rename_i hbel
    rw [hbel.2]
    cases hstates with
    | osc => exact .bel h
    | dcs => cases hbel.1
    | string => cases hbel.1
  split at hc
  · rename_i hchar
    exact hchar ▸ hst
  split at hc <;> cases hc

theorem next_escaped_none (hstates : StringStates q e bel) (h : Open e p) (hc : next e c = none) :
    Control (p ++ [c]) := by
  rw [hstates.next_escaped] at hc
  split at hc
  · rename_i hend
    exact hend ▸ hstates.control_escaped h
  split at hc <;> cases hc

/-- A character that ends a sequence makes a control sequence of it. -/
theorem control_next (h : Open q p) (hc : next q c = none) : Control (p ++ [c]) := by
  cases q with
  | esc =>
    obtain rfl : p = [0x1b] := h
    refine .escape fun q hmem => ?_
    simp only [next] at hc
    cases q <;> simp only [introducers, List.mem_cons, List.cons.injEq, List.not_mem_nil] at hmem <;>
      grind
  | csi =>
    refine .csi h ?_
    simp only [next] at hc
    grind
  | osc => exact next_string_none .osc h hc
  | dcs => exact next_string_none .dcs h hc
  | string => exact next_string_none .string h hc
  | oscEsc => exact next_escaped_none .osc h hc
  | dcsEsc => exact next_escaped_none .dcs h hc
  | stringEsc => exact next_escaped_none .string h hc

end

/-- A control character that begins no sequence is one by itself. -/
theorem control_single {c : Nat} (h : IsControl c) (hstart : startOf c = none) : Control [c] := by
  refine .single h fun q hmem => ?_
  simp only [startOf] at hstart
  cases q <;> simp only [introducers, List.mem_cons, List.cons.injEq, List.not_mem_nil] at hmem <;>
    grind

/-- What begins a sequence is a control character. -/
theorem isControl_of_startOf {c : Nat} {q : Sequence} (h : startOf c = some q) : IsControl c := by
  simp only [startOf] at h
  simp only [IsControl]
  grind

/-! ### The state after a text -/

/-- The sequence that is open after a text. -/
def track (q : Option Sequence) (text : Text) : Option Sequence :=
  text.foldl (fun q c => match q with
    | none => startOf c
    | some q => next q c) q

@[simp] theorem track_append (q : Option Sequence) (a b : Text) :
    track q (a ++ b) = track (track q a) b := List.foldl_append

section

variable {q e : Sequence} {bel : Bool}

theorem track_introducer {intro : Text} (hstates : StringStates q e bel)
    (h : intro ∈ introducers q) : track none intro = some q := by
  cases hstates with
  | osc => exact (by decide : ∀ i ∈ introducers .osc, track none i = some .osc) _ h
  | dcs => exact (by decide : ∀ i ∈ introducers .dcs, track none i = some .dcs) _ h
  | string => exact (by decide : ∀ i ∈ introducers .string, track none i = some .string) _ h

theorem track_escapes (hstates : StringStates q e bel) (n : Nat) :
    track (some q) (List.replicate (n + 1) 0x1b) = some e := by
  induction n with
  | zero =>
    change next q 0x1b = some e
    rw [hstates.next_string]
    simp
  | succ n ih =>
    rw [List.replicate_succ', track_append, ih]
    change next e 0x1b = some e
    rw [hstates.next_escaped]
    simp

theorem track_body {body : Text} (hstates : StringStates q e bel) (h : StringBody bel body) :
    track (some q) body = some q := by
  induction h with
  | nil => rfl
  | @char body c h hesc hst hbel ih =>
    rw [track_append, ih]
    change next q c = some q
    rw [hstates.next_string, if_neg fun hb => hbel hb.1 hb.2, if_neg hst, if_neg hesc]
  | @escaped body c h n hend hesc ih =>
    rw [track_append, ih, track_append, track_escapes hstates]
    change next e c = some q
    rw [hstates.next_escaped, if_neg hend, if_pos hesc]

theorem track_openString {p : Text} (hstates : StringStates q e bel) (h : OpenString q bel p) :
    track none p = some q := by
  obtain ⟨intro, hintro, body, rfl, hbody⟩ := h
  rw [track_append, track_introducer hstates hintro, track_body hstates hbody]

theorem track_openEscaped {p : Text} (hstates : StringStates q e bel) (h : Open e p) :
    track none p = some e := by
  obtain ⟨front, n, rfl, hfront⟩ := (hstates.open_escaped _).mp h
  rw [track_append, track_openString hstates hfront, track_escapes hstates]

end

theorem track_csi {body : Text} (h : ∀ c ∈ body, ¬(0x40 ≤ c ∧ c ≤ 0x7e)) :
    track (some .csi) body = some .csi := by
  induction body with
  | nil => rfl
  | cons c body ih =>
    have hstep : next .csi c = some .csi := if_neg (h c List.mem_cons_self)
    change track (next .csi c) body = some .csi
    rw [hstep, ih fun d hd => h d (List.mem_cons_of_mem _ hd)]

/-- The state after an open sequence is the one that stands for it. -/
theorem track_open {q : Sequence} {p : Text} (h : Open q p) : track none p = some q := by
  cases q with
  | esc =>
    obtain rfl : p = [0x1b] := h
    rfl
  | csi =>
    obtain ⟨intro, hintro, body, rfl, hbody⟩ := h
    have hopen := (by decide : ∀ i ∈ introducers .csi, track none i = some .csi) _ hintro
    rw [track_append, hopen, track_csi hbody]
  | osc => exact track_openString .osc h
  | dcs => exact track_openString .dcs h
  | string => exact track_openString .string h
  | oscEsc => exact track_openEscaped .osc h
  | dcsEsc => exact track_openEscaped .dcs h
  | stringEsc => exact track_openEscaped .string h

/-- No sequence is open after a control sequence. -/
theorem track_control {l : Text} (h : Control l) : track none l = none := by
  cases h with
  | @single c h hfirst =>
    have h1 := hfirst .esc
    have h2 := hfirst .csi
    have h3 := hfirst .osc
    have h4 := hfirst .dcs
    have h5 := hfirst .string
    simp only [introducers, List.mem_cons, List.cons.injEq, List.not_mem_nil] at h1 h2 h3 h4 h5
    change startOf c = none
    simp only [startOf]
    grind
  | @escape c h =>
    have h2 := h .csi
    have h3 := h .osc
    have h4 := h .dcs
    have h5 := h .string
    simp only [introducers, List.mem_cons, List.cons.injEq, List.not_mem_nil] at h2 h3 h4 h5
    change next .esc c = none
    simp only [next]
    grind
  | @csi p c h hfinal =>
    rw [track_append, track_open h]
    exact if_pos hfinal
  | @bel p h =>
    rw [track_append, track_open h]
    rfl
  | @st p h =>
    rw [track_append]
    rcases h with h | h | h <;> rw [track_open h] <;> rfl
  | @escaped p h =>
    rw [track_append]
    rcases h with h | h | h <;> rw [track_open h] <;> rfl

theorem track_parse {text kept : Text} (h : Parse text kept) : track none text = none := by
  induction h with
  | nil => rfl
  | @plain text kept c h hc ih =>
    rw [track_append, ih]
    change startOf c = none
    cases hstart : startOf c with
    | none => rfl
    | some q => exact absurd (isControl_of_startOf hstart) hc
  | control h hl ih => rw [track_append, ih, track_control hl]

end Dt.Terminal
