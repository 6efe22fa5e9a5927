import Dt.Terminal.Sanitizer
import Dt.Lib.Lines

/-!
# What the sanitizer puts out

The output is made of the plain characters of the input and of markers. The markers count the bytes of
the control sequences. The sanitizer asks for the byte count of every character of a sequence, and half a
surrogate pair that stands for no byte has none: there it raises.
-/

namespace Dt.Terminal

open Dt.Lib

/-- Half of a surrogate pair. -/
def IsSurrogate (c : Nat) : Prop := 0xd800 ≤ c ∧ c ≤ 0xdfff

/-- The length in UTF-8 of a character that is no surrogate. -/
def utf8Size (c : Nat) : Nat :=
  if c < 0x80 then 1 else if c < 0x800 then 2 else if c < 0x10000 then 3 else 4

def utf8Length (text : Text) : Nat := (text.map utf8Size).sum

@[simp] theorem utf8Length_append (a b : Text) : utf8Length (a ++ b) = utf8Length a + utf8Length b := by
  simp [utf8Length]

@[simp] theorem utf8Length_singleton (c : Nat) : utf8Length [c] = utf8Size c := by
  simp [utf8Length]

/-- A text of kept characters, which are the second one, and of markers that count so many bytes. -/
inductive Output : Text → Text → Nat → Prop where
  | nil : Output [] [] 0
  | char {out kept : Text} {n : Nat} (h : Output out kept n) (c : Nat) :
      Output (out ++ [c]) (kept ++ [c]) n
  | marker {out kept : Text} {n : Nat} (h : Output out kept n) (kind : Kind) (m : Nat) :
      Output (out ++ marker kind m) kept (n + m)

/-- What is promised of the output for a text. -/
structure Sanitized (text out : Text) : Prop where
  whole : sanitizeTerminalText text = some out
  chunks : ∀ chunks : List Text, chunks.flatten = text → feedChunks chunks = some out
  safe : ∀ c ∈ out, ¬IsControl c
  exact : ∃ front tail kept n, text = front ++ tail ∧ Parse front kept ∧
    (tail = [] ∨ ∃ q, Open q tail) ∧ Output out kept n ∧
    ((∀ c ∈ text, ¬IsSurrogate c) → n + utf8Length kept = utf8Length text)

/-- No control sequence, finished or not, goes on with half a surrogate pair that stands for no byte. -/
def Encodable (text : Text) : Prop :=
  ∀ front kept q p c rest, Parse front kept → Open q p → text = front ++ p ++ c :: rest →
    byteCount c ≠ none

/-! ## The parts of the sanitizer -/

theorem byteCount_eq {c n : Nat} (h : byteCount c = some n) (hc : ¬IsSurrogate c) :
    n = utf8Size c := by
  simp only [byteCount] at h
  simp only [IsSurrogate] at hc
  simp only [utf8Size]
  grind

theorem byteCount_of_isControl {c : Nat} (h : IsControl c) : byteCount c ≠ none := by
  simp only [IsControl] at h
  simp only [byteCount]
  grind

theorem marker_safe (kind : Kind) (n : Nat) : ∀ c ∈ marker kind n, ¬IsControl c := by
  have hdigits : ∀ c ∈ codes (toString n), ¬IsControl c := by
    rintro c hc
    obtain ⟨d, hd, rfl⟩ := List.mem_map.mp hc
    rw [Nat.toString_eq_repr, Nat.toList_repr] at hd
    have hrange := toNat_of_isDigit (Nat.isDigit_of_mem_toDigits (by decide) (by decide) hd)
    simp only [IsControl]
    omega
  have hsplit : marker kind n = codes "[dt: omitted " ++ (codes (toString n) ++ (codes " " ++
      (codes kind.text ++ (codes " " ++ (codes (if n = 1 then "byte" else "bytes") ++ codes "]"))))) := by
    simp [marker, codes, String.toList_append]
  have hunit : ∀ c ∈ codes (if n = 1 then "byte" else "bytes"), ¬IsControl c := by
    split <;> decide
  have hkind : ∀ c ∈ codes kind.text, ¬IsControl c := by
    cases kind <;> decide
  rw [hsplit]
  simp only [List.mem_append]
  rintro c (h | h | h | h | h | h | h)
  · exact (by decide : ∀ c ∈ codes "[dt: omitted ", ¬IsControl c) c h
  · exact hdigits c h
  · exact (by decide : ∀ c ∈ codes " ", ¬IsControl c) c h
  · exact hkind c h
  · exact (by decide : ∀ c ∈ codes " ", ¬IsControl c) c h
  · exact hunit c h
  · exact (by decide : ∀ c ∈ codes "]", ¬IsControl c) c h

theorem output_safe {out kept : Text} {n : Nat} (h : Output out kept n)
    (hkept : ∀ c ∈ kept, ¬IsControl c) : ∀ c ∈ out, ¬IsControl c := by
  induction h with
  | nil => exact hkept
  | @char out kept n h c ih =>
    rintro d hd
    rcases List.mem_append.mp hd with hd | hd
    · exact ih (fun x hx => hkept x (List.mem_append_left _ hx)) d hd
    · exact hkept d (List.mem_append_right _ hd)
  | @marker out kept n h kind m ih =>
    rintro d hd
    rcases List.mem_append.mp hd with hd | hd
    · exact ih hkept d hd
    · exact marker_safe kind m d hd

theorem parse_safe {text kept : Text} (h : Parse text kept) : ∀ c ∈ kept, ¬IsControl c := by
  induction h with
  | nil => exact fun c hc => absurd hc List.not_mem_nil
  | @plain text kept c h hc ih =>
    rintro d hd
    rcases List.mem_append.mp hd with hd | hd
    · exact ih d hd
    · exact (List.mem_singleton.mp hd) ▸ hc
  | control h hl ih => exact ih

/-! ## One character -/

theorem flushOmitted_output {s : TerminalSanitizer} {out kept : Text} {n : Nat}
    (h : Output out kept n) (hcount : s.omittedKind = none → s.omittedCount = 0) :
    Output (out ++ (flushOmitted s).1) kept (n + s.omittedCount) := by
  cases hkind : s.omittedKind with
  | none => simpa [flushOmitted, hkind, hcount hkind] using h
  | some kind =>
    simp only [flushOmitted, hkind]
    exact h.marker kind s.omittedCount

theorem flushOmitted_state (s : TerminalSanitizer) :
    (flushOmitted s).2.sequence = s.sequence ∧
      (flushOmitted s).2.sequenceCount = s.sequenceCount ∧
      ((s.omittedKind = none → s.omittedCount = 0) → (flushOmitted s).2.omittedCount = 0) := by
  cases hkind : s.omittedKind with
  | none => simp [flushOmitted, hkind]
  | some kind => simp [flushOmitted, hkind]

/-- What `_omit` puts out and what it leaves pending are the bytes of before and the new ones. -/
theorem omitBytes_output {s : TerminalSanitizer} {out kept : Text} {n : Nat} (kind : Kind) (m : Nat)
    (h : Output out kept n) (hcount : s.omittedKind = none → s.omittedCount = 0) :
    ∃ n', Output (out ++ (omitBytes s kind m).1) kept n' ∧
      n' + (omitBytes s kind m).2.omittedCount = n + s.omittedCount + m ∧
      (omitBytes s kind m).2.omittedKind = some kind := by
  unfold omitBytes
  split
  · rename_i hkind
    exact ⟨n, by simpa using h, by simp only [Nat.add_assoc], hkind⟩
  · exact ⟨n + s.omittedCount, flushOmitted_output h hcount, rfl, rfl⟩

theorem omitBytes_state (s : TerminalSanitizer) (kind : Kind) (m : Nat) :
    (omitBytes s kind m).2.sequence = s.sequence ∧
      (omitBytes s kind m).2.sequenceCount = s.sequenceCount := by
  unfold omitBytes
  split
  · exact ⟨rfl, rfl⟩
  · exact ⟨(flushOmitted_state s).1, (flushOmitted_state s).2.1⟩

/-- What the state and the output say of the text that was fed. -/
structure Fed (text out : Text) (s : TerminalSanitizer) : Prop where
  pending : s.omittedKind = none → s.omittedCount = 0
  idle : s.sequence = none → s.sequenceCount = 0
  exact : ∃ front tail kept n, text = front ++ tail ∧ Parse front kept ∧
    (∀ q, s.sequence = some q → Open q tail) ∧ (s.sequence = none → tail = []) ∧
    Output out kept n ∧ ((∀ c ∈ text, ¬IsSurrogate c) →
      n + s.omittedCount + s.sequenceCount + utf8Length kept = utf8Length text)

theorem fed_init : Fed [] [] {} := by
  refine ⟨fun _ => rfl, fun _ => rfl, [], [], [], 0, rfl, .nil, fun q hq => ?_, fun _ => rfl, .nil,
    fun _ => rfl⟩
  cases hq

section

variable {text out o : Text} {s s' : TerminalSanitizer} {c n : Nat}

theorem utf8Length_snoc (hbytes : byteCount c = some n) (htext : ∀ d ∈ text ++ [c], ¬IsSurrogate d) :
    utf8Length (text ++ [c]) = utf8Length text + n := by
  rw [utf8Length_append, utf8Length_singleton, byteCount_eq hbytes (htext c (by simp))]

theorem not_surrogate_left (htext : ∀ d ∈ text ++ [c], ¬IsSurrogate d) : ∀ d ∈ text, ¬IsSurrogate d :=
  fun d hd => htext d (List.mem_append_left _ hd)

/-- A character begins a sequence. -/
theorem fed_start {q : Sequence} (h : Fed text out s) (hidle : s.sequence = none)
    (hstart : startOf c = some q) (hbytes : byteCount c = some n) :
    Fed (text ++ [c]) (out ++ (flushOmitted s).1)
      { (flushOmitted s).2 with sequence := some q, sequenceCount := n } := by
  obtain ⟨front, tail, kept, m, htext, hparse, -, htail, hout, hcount⟩ := h.exact
  obtain rfl := htail hidle
  have hflushed := (flushOmitted_state s).2.2 h.pending
  refine ⟨fun _ => hflushed, fun hq => ?_, front, [c], kept, m + s.omittedCount, ?_, hparse, ?_, ?_,
    flushOmitted_output hout h.pending, fun hclean => ?_⟩
  · cases hq
  · rw [htext, List.append_nil]
  · rintro q' hq'
    obtain rfl := Option.some.inj hq'
    exact open_start hstart
  · rintro hq
    cases hq
  · have hbefore := hcount (not_surrogate_left hclean)
    rw [h.idle hidle] at hbefore
    rw [utf8Length_snoc hbytes hclean, ← hbefore]
    simp only [hflushed]
    ring

/-- Characters end the tail of a text, and `_omit` takes their bytes. -/
theorem fed_omit {front tail kept : Text} {m : Nat} {t : TerminalSanitizer} (kind : Kind) (k : Nat)
    (htext : text = front ++ tail) (hparse : Parse front kept) (hcontrol : Control (tail ++ [c]))
    (hout : Output out kept m) (hpending : t.omittedKind = none → t.omittedCount = 0)
    (hsequence : t.sequence = none) (hidle : t.sequenceCount = 0)
    (hcount : (∀ d ∈ text ++ [c], ¬IsSurrogate d) →
      m + t.omittedCount + k + utf8Length kept = utf8Length (text ++ [c])) :
    Fed (text ++ [c]) (out ++ (omitBytes t kind k).1) (omitBytes t kind k).2 := by
  obtain ⟨m', hout', hsum, hkind⟩ := omitBytes_output kind k hout hpending
  obtain ⟨hsequence', hidle'⟩ := omitBytes_state t kind k
  rw [hsequence] at hsequence'
  rw [hidle] at hidle'
  refine ⟨fun hnone => ?_, fun _ => hidle', front ++ (tail ++ [c]), [], kept, m', ?_,
    hparse.control hcontrol, ?_, fun _ => rfl, hout', fun hclean => ?_⟩
  · rw [hkind] at hnone
    cases hnone
  · rw [htext, List.append_nil, List.append_assoc]
  · rintro q hq
    rw [hsequence'] at hq
    cases hq
  · rw [hsum, hidle', Nat.add_zero, hcount hclean]

/-- A character is put out. -/
theorem fed_plain (h : Fed text out s) (hidle : s.sequence = none) (hc : ¬IsControl c) :
    Fed (text ++ [c]) (out ++ ((flushOmitted s).1 ++ [c])) (flushOmitted s).2 := by
  obtain ⟨front, tail, kept, m, htext, hparse, -, htail, hout, hcount⟩ := h.exact
  obtain rfl := htail hidle
  obtain ⟨hsequence, hsize, hflushed⟩ := flushOmitted_state s
  rw [hidle] at hsequence
  rw [h.idle hidle] at hsize
  refine ⟨fun _ => hflushed h.pending, fun _ => hsize, front ++ [c], [], kept ++ [c],
    m + s.omittedCount, ?_, hparse.plain hc, ?_, fun _ => rfl, ?_, fun hclean => ?_⟩
  · rw [htext, List.append_nil, List.append_nil]
  · rintro q hq
    rw [hsequence] at hq
    cases hq
  · rw [← List.append_assoc]
    exact (flushOmitted_output hout h.pending).char c
  · have hbefore := hcount (not_surrogate_left hclean)
    rw [h.idle hidle] at hbefore
    rw [hflushed h.pending, hsize, utf8Length_append, utf8Length_append, ← hbefore]
    ring

/-- A sequence goes on. -/
theorem fed_next {q q' : Sequence} (h : Fed text out s) (hq : s.sequence = some q)
    (hnext : next q c = some q') (hbytes : byteCount c = some n) :
    Fed (text ++ [c]) out { s with sequence := some q', sequenceCount := s.sequenceCount + n } := by
  obtain ⟨front, tail, kept, m, htext, hparse, hopen, -, hout, hcount⟩ := h.exact
  refine ⟨h.pending, fun hnone => ?_, front, tail ++ [c], kept, m, ?_, hparse, ?_, fun hnone => ?_,
    hout, fun hclean => ?_⟩
  · cases hnone
  · rw [htext, List.append_assoc]
  · rintro r hr
    obtain rfl := Option.some.inj hr
    exact open_next (hopen q hq) hnext
  · cases hnone
  · rw [utf8Length_snoc hbytes hclean, ← hcount (not_surrogate_left hclean)]
    simp only
    ring

/-- A sequence ends. -/
theorem fed_end {q : Sequence} (h : Fed text out s) (hq : s.sequence = some q)
    (hnext : next q c = none) (hbytes : byteCount c = some n) :
    Fed (text ++ [c])
      (out ++ (finishSequence { s with sequenceCount := s.sequenceCount + n }).1)
      (finishSequence { s with sequenceCount := s.sequenceCount + n }).2 := by
  obtain ⟨front, tail, kept, m, htext, hparse, hopen, -, hout, hcount⟩ := h.exact
  refine fed_omit .terminalControl (s.sequenceCount + n) htext hparse
    (control_next (hopen q hq) hnext) hout h.pending rfl rfl fun hclean => ?_
  rw [utf8Length_snoc hbytes hclean, ← hcount (not_surrogate_left hclean)]
  ring

/-- A control character of one is omitted. -/
theorem fed_single (kind : Kind) (h : Fed text out s) (hidle : s.sequence = none)
    (hstart : startOf c = none) (hc : IsControl c) (hbytes : byteCount c = some n) :
    Fed (text ++ [c]) (out ++ (omitBytes s kind n).1) (omitBytes s kind n).2 := by
  obtain ⟨front, tail, kept, m, htext, hparse, -, htail, hout, hcount⟩ := h.exact
  obtain rfl := htail hidle
  refine fed_omit kind n htext hparse (control_single hc hstart) hout h.pending hidle
    (h.idle hidle) fun hclean => ?_
  have hbefore := hcount (not_surrogate_left hclean)
  rw [h.idle hidle] at hbefore
  rw [utf8Length_snoc hbytes hclean, ← hbefore]
  ring

theorem fed_step (h : Fed text out s) (hstep : feedChar s c = some (o, s')) :
    Fed (text ++ [c]) (out ++ o) s' := by
  unfold feedChar at hstep
  cases hsequence : s.sequence with
  | none =>
    simp only [hsequence] at hstep
    cases hstart : startOf c with
    | some q =>
      simp only [hstart] at hstep
      obtain ⟨n, hbytes, hr⟩ := Option.map_eq_some_iff.mp hstep
      obtain ⟨rfl, rfl⟩ := Prod.mk.inj hr
      exact fed_start h hsequence hstart hbytes
    | none =>
      simp only [hstart] at hstep
      split at hstep
      · rename_i hnul
        obtain ⟨n, hbytes, hr⟩ := Option.map_eq_some_iff.mp hstep
        obtain ⟨rfl, rfl⟩ := Prod.mk.inj hr
        exact fed_single .nul h hsequence hstart (by rw [hnul]; decide) hbytes
      split at hstep
      · rename_i hcontrol
        obtain ⟨n, hbytes, hr⟩ := Option.map_eq_some_iff.mp hstep
        obtain ⟨rfl, rfl⟩ := Prod.mk.inj hr
        exact fed_single .terminalControl h hsequence hstart hcontrol hbytes
      · rename_i hcontrol
        obtain ⟨rfl, rfl⟩ := Prod.mk.inj (Option.some.inj hstep)
        exact fed_plain h hsequence hcontrol
  | some q =>
    simp only [hsequence] at hstep
    obtain ⟨n, hbytes, hr⟩ := Option.map_eq_some_iff.mp hstep
    cases hnext : next q c with
    | some q' =>
      simp only [hnext] at hr
      obtain ⟨rfl, rfl⟩ := Prod.mk.inj hr
      rw [List.append_nil]
      exact fed_next h hsequence hnext hbytes
    | none =>
      simp only [hnext] at hr
      obtain ⟨rfl, rfl⟩ := Prod.mk.inj hr
      exact fed_end h hsequence hnext hbytes

end

/-! ## A whole text -/

theorem fed_feed {text out : Text} {s : TerminalSanitizer}
    (h : feed feedChar {} text = some (out, s)) : Fed text out s :=
  feed_inv (fun _ _ _ _ _ _ hfed hstep => fed_step hfed hstep) fed_init h

/-- The sequence of the state is the one that the text leaves open. -/
theorem Fed.sequence_eq {text out : Text} {s : TerminalSanitizer} (h : Fed text out s) :
    s.sequence = track none text := by
  obtain ⟨front, tail, kept, n, rfl, hparse, hopen, htail, -⟩ := h.exact
  rw [track_append, track_parse hparse]
  cases hq : s.sequence with
  | none =>
    rw [htail hq]
    rfl
  | some q => rw [track_open (hopen q hq)]

theorem finish_output {s : TerminalSanitizer} {out kept : Text} {n : Nat} (h : Output out kept n)
    (hpending : s.omittedKind = none → s.omittedCount = 0)
    (hidle : s.sequence = none → s.sequenceCount = 0) :
    Output (out ++ finish s) kept (n + s.omittedCount + s.sequenceCount) := by
  unfold finish
  cases hq : s.sequence with
  | none =>
    rw [hidle hq]
    exact flushOmitted_output h hpending
  | some q =>
    obtain ⟨n', hout, hsum, hkind⟩ := omitBytes_output (s := { s with sequence := none, sequenceCount := 0 })
      .terminalControl s.sequenceCount h hpending
    have hflushed := flushOmitted_output hout fun hnone => by
      rw [hkind] at hnone
      cases hnone
    rw [hsum, List.append_assoc] at hflushed
    exact hflushed

theorem feedChunks_eq (chunks : List Text) : feedChunks chunks = sanitizeTerminalText chunks.flatten := by
  unfold feedChunks sanitizeTerminalText
  rw [feedAll_eq]

theorem sanitized_of_feed {text out : Text} {s : TerminalSanitizer}
    (h : feed feedChar {} text = some (out, s)) : Sanitized text (out ++ finish s) := by
  have hfed := fed_feed h
  obtain ⟨front, tail, kept, n, htext, hparse, hopen, htail, hout, hcount⟩ := hfed.exact
  have hfinal := finish_output hout hfed.pending hfed.idle
  have hwhole : sanitizeTerminalText text = some (out ++ finish s) := by
    rw [sanitizeTerminalText, h]
    rfl
  refine ⟨hwhole, fun chunks hchunks => ?_, output_safe hfinal (parse_safe hparse),
    front, tail, kept, _, htext, hparse, ?_, hfinal, hcount⟩
  · rw [feedChunks_eq, hchunks, hwhole]
  · cases hq : s.sequence with
    | none => exact .inl (htail hq)
    | some q => exact .inr ⟨q, hopen q hq⟩

/-- The sanitizer raises in a sequence only, at a character that has no bytes. -/
theorem feedChar_eq_none {s : TerminalSanitizer} {c : Nat} (h : feedChar s c = none) :
    ∃ q, s.sequence = some q ∧ byteCount c = none := by
  unfold feedChar at h
  cases hsequence : s.sequence with
  | none =>
    simp only [hsequence] at h
    cases hstart : startOf c with
    | some q =>
      simp only [hstart, Option.map_eq_none_iff] at h
      exact absurd h (byteCount_of_isControl (isControl_of_startOf hstart))
    | none =>
      simp only [hstart] at h
      split at h
      · rename_i hnul
        rw [Option.map_eq_none_iff, hnul] at h
        cases h
      split at h
      · rename_i hcontrol
        exact absurd (Option.map_eq_none_iff.mp h) (byteCount_of_isControl hcontrol)
      · cases h
  | some q =>
    simp only [hsequence, Option.map_eq_none_iff] at h
    exact ⟨q, rfl, h⟩

theorem feed_of_encodable {text : Text} (h : Encodable text) :
    ∃ out s, feed feedChar {} text = some (out, s) := by
  cases hfeed : feed feedChar {} text with
  | some r => exact ⟨r.1, r.2, rfl⟩
  | none =>
    obtain ⟨before, c, after, out, s, rfl, hbefore, hfail⟩ := feed_eq_none hfeed
    obtain ⟨q, hq, hbytes⟩ := feedChar_eq_none hfail
    obtain ⟨front, tail, kept, n, rfl, hparse, hopen, -⟩ := (fed_feed hbefore).exact
    exact absurd hbytes (h front kept q tail c after hparse (hopen q hq) rfl)

theorem encodable_of_feed {text out : Text} {s : TerminalSanitizer}
    (h : feed feedChar {} text = some (out, s)) : Encodable text := by
  rintro front kept q p c rest hparse hopen rfl hbytes
  obtain ⟨o, t, o', u, hbefore, hstep⟩ := feed_split h
  have hq : t.sequence = some q := by
    rw [(fed_feed hbefore).sequence_eq, track_append, track_parse hparse, track_open hopen]
  simp only [feedChar, hq, hbytes] at hstep
  cases hstep

/-- The sanitizer does what is promised, on a text and on every split of it, exactly when no control
sequence of the text goes on with half a surrogate pair that stands for no byte. -/
theorem sanitized_iff_encodable (text : Text) : (∃ out, Sanitized text out) ↔ Encodable text := by
  constructor
  · rintro ⟨out, h⟩
    obtain ⟨r, hr, -⟩ := Option.map_eq_some_iff.mp h.whole
    exact encodable_of_feed hr
  · rintro h
    obtain ⟨out, s, hfeed⟩ := feed_of_encodable h
    exact ⟨_, sanitized_of_feed hfeed⟩

/-- After an escape character half a surrogate pair raises. -/
theorem surrogate_in_sequence : ¬∃ out, Sanitized [0x1b, 0xd800] out := by
  rintro ⟨out, h⟩
  cases h.whole

end Dt.Terminal
