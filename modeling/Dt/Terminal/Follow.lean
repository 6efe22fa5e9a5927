import Dt.Terminal.Safety

/-!
# Following a log

`dt logs --follow` pipes the output of `tail -F` through the filter, whose loop reads a block, feeds it
to the sanitizer and writes what that puts out. A read in text mode returns a short block at the end of
the input only, so the filter waits while a block is not full, with the characters of that block unread.
-/

namespace Dt.Terminal

open Dt.Lib

/-- The size that `main` reads. -/
def readSize : Nat := 64 * 1024

structure Filter where
  sanitizer : TerminalSanitizer := {}
  unread : Text := []
  ended : Bool := false
  written : Text := []
  returned : Bool := false
  deriving DecidableEq

/-- `sys.stdin.read`; none while it blocks. -/
def Filter.read (f : Filter) : Option Text :=
  if f.ended ∨ readSize ≤ f.unread.length then some (f.unread.take readSize) else none

/-- One turn of the loop of `main`, or what follows the loop. -/
def Filter.turn (f : Filter) : Option Filter :=
  if f.returned then none
  else f.read.bind fun chunk =>
    if chunk = [] then
      some { f with written := f.written ++ finish f.sanitizer, returned := true }
    else
      (feed feedChar f.sanitizer chunk).map fun r =>
        { f with sanitizer := r.2, unread := f.unread.drop readSize, written := f.written ++ r.1 }

/-- The filter after so much text has arrived. The text is decoded from bytes, so every character of it
has bytes. -/
inductive Reach : Text → Filter → Prop where
  | start : Reach [] {}
  | arrive {arrived : Text} {f : Filter} (h : Reach arrived f) (hopen : f.ended = false) (piece : Text)
      (hpiece : ∀ c ∈ piece, byteCount c ≠ none) :
      Reach (arrived ++ piece) { f with unread := f.unread ++ piece }
  | close {arrived : Text} {f : Filter} (h : Reach arrived f) : Reach arrived { f with ended := true }
  | turn {arrived : Text} {f f' : Filter} (h : Reach arrived f) (hturn : f.turn = some f') :
      Reach arrived f'

/-- The filter waits for more input. -/
def Filter.Waits (f : Filter) : Prop := f.returned = false ∧ f.read = none

/-- Nothing is held back: what is written is what the sanitizer puts out for all that arrived. -/
def Prompt (arrived : Text) (f : Filter) : Prop :=
  ∃ s, feed feedChar {} arrived = some (f.written, s)

/-! ## Characters that make the sanitizer write -/

/-- What is omitted when no sequence is open after a text and one more character. -/
def omitted (text : Text) (c : Nat) : Option Kind :=
  if track none text ≠ none then some .terminalControl
  else if c = 0 then some .nul
  else if IsControl c then some .terminalControl
  else none

/-- What was omitted last in a text, with no marker for it yet. -/
def pending (text : Text) : Option Kind :=
  if track none text ≠ none then none
  else text.getLast?.bind (omitted text.dropLast)

/-- After the text the character is put out, or an omission is reported: the character begins a sequence
or is omitted as something else. -/
def Shows (text : Text) (c : Nat) : Prop :=
  track none text = none ∧ (¬IsControl c ∨
    ∃ kind, pending text = some kind ∧ (startOf c ≠ none ∨ omitted text c ≠ some kind))

/-- No character after the last full block shows anything. -/
def Quiet (arrived : Text) : Prop :=
  ∀ before c after, arrived = before ++ c :: after →
    arrived.length / readSize * readSize ≤ before.length → ¬Shows before c

theorem pending_snoc (text : Text) (c : Nat) : pending (text ++ [c]) =
    if track none (text ++ [c]) ≠ none then none else omitted text c := by
  simp [pending]

theorem track_snoc_none {text : Text} (h : track none text = none) (c : Nat) :
    track none (text ++ [c]) = startOf c := by
  rw [track_append, h]
  rfl

theorem track_snoc_some {text : Text} {q : Sequence} (h : track none text = some q) (c : Nat) :
    track none (text ++ [c]) = next q c := by
  rw [track_append, h]
  rfl

theorem marker_ne_nil (kind : Kind) (n : Nat) : marker kind n ≠ [] := by
  intro h
  have hlength := congrArg List.length h
  simp [marker, codes] at hlength

theorem flushOmitted_ne_nil (s : TerminalSanitizer) :
    (flushOmitted s).1 ≠ [] ↔ s.omittedKind ≠ none := by
  cases hkind : s.omittedKind with
  | none => simp [flushOmitted, hkind]
  | some kind => simp [flushOmitted, hkind, marker_ne_nil]

theorem flushOmitted_kind (s : TerminalSanitizer) : (flushOmitted s).2.omittedKind = none := by
  cases hkind : s.omittedKind with
  | none => simp [flushOmitted, hkind]
  | some kind => simp [flushOmitted, hkind]

theorem omitBytes_ne_nil (s : TerminalSanitizer) (kind : Kind) (n : Nat) :
    (omitBytes s kind n).1 ≠ [] ↔ ∃ k, s.omittedKind = some k ∧ some kind ≠ some k := by
  unfold omitBytes
  split
  · rename_i h
    simp [h]
  · rename_i h
    rw [flushOmitted_ne_nil, Option.ne_none_iff_exists']
    refine exists_congr fun k => ⟨fun hk => ⟨hk, fun hkind => h ?_⟩, fun hk => hk.1⟩
    rw [hk, hkind]

theorem omitBytes_kind (s : TerminalSanitizer) (kind : Kind) (n : Nat) :
    (omitBytes s kind n).2.omittedKind = some kind := by
  unfold omitBytes
  split
  · rename_i h
    exact h
  · rfl

/-- The state holds the sequence that the text leaves open and the omission that is pending. -/
structure Tracks (text : Text) (s : TerminalSanitizer) : Prop where
  sequence : s.sequence = track none text
  kind : s.omittedKind = pending text

section

variable {text o : Text} {s s' : TerminalSanitizer} {c : Nat}

theorem tracks_start {q : Sequence} (h : Tracks text s) (htext : track none text = none)
    (hstart : startOf c = some q) (n : Nat) :
    Tracks (text ++ [c]) { (flushOmitted s).2 with sequence := some q, sequenceCount := n } ∧
      ((flushOmitted s).1 ≠ [] ↔ Shows text c) := by
  have hsnoc : track none (text ++ [c]) = some q := (track_snoc_none htext c).trans hstart
  refine ⟨⟨hsnoc.symm, ?_⟩, ?_⟩
  · rw [pending_snoc, hsnoc]
    exact flushOmitted_kind s
  · rw [flushOmitted_ne_nil, h.kind, Option.ne_none_iff_exists']
    simp [Shows, htext, isControl_of_startOf hstart, hstart]

theorem tracks_omit {kind : Kind} (h : Tracks text s) (htext : track none text = none)
    (hstart : startOf c = none) (hcontrol : IsControl c) (homitted : omitted text c = some kind)
    (n : Nat) : Tracks (text ++ [c]) (omitBytes s kind n).2 ∧
      ((omitBytes s kind n).1 ≠ [] ↔ Shows text c) := by
  have hsnoc : track none (text ++ [c]) = none := (track_snoc_none htext c).trans hstart
  refine ⟨⟨?_, ?_⟩, ?_⟩
  · rw [(omitBytes_state _ _ _).1, h.sequence, hsnoc, htext]
  · rw [pending_snoc, hsnoc, omitBytes_kind, homitted]
    rfl
  · rw [omitBytes_ne_nil, h.kind]
    simp [Shows, htext, hcontrol, hstart, homitted]

theorem tracks_plain (h : Tracks text s) (htext : track none text = none) (hstart : startOf c = none)
    (hcontrol : ¬IsControl c) (homitted : omitted text c = none) :
    Tracks (text ++ [c]) (flushOmitted s).2 ∧ ((flushOmitted s).1 ++ [c] ≠ [] ↔ Shows text c) := by
  have hsnoc : track none (text ++ [c]) = none := (track_snoc_none htext c).trans hstart
  refine ⟨⟨?_, ?_⟩, ?_⟩
  · rw [(flushOmitted_state _).1, h.sequence, hsnoc, htext]
  · rw [pending_snoc, hsnoc, flushOmitted_kind, homitted]
    rfl
  · simp [Shows, htext, hcontrol]

/-- In a sequence no omission is pending, and nothing shows. -/
theorem tracks_in_sequence {q : Sequence} (h : Tracks text s) (htext : track none text = some q) :
    s.omittedKind = none ∧ ¬Shows text c := by
  constructor
  · rw [h.kind]
    exact if_pos (by simp [htext])
  · simp [Shows, htext]

theorem tracks_next {q q' : Sequence} (h : Tracks text s) (htext : track none text = some q)
    (hnext : next q c = some q') (n : Nat) :
    Tracks (text ++ [c]) { s with sequence := some q', sequenceCount := n } ∧
      (([] : Text) ≠ [] ↔ Shows text c) := by
  have hsnoc : track none (text ++ [c]) = some q' := (track_snoc_some htext c).trans hnext
  obtain ⟨hkind, hshows⟩ := tracks_in_sequence (c := c) h htext
  refine ⟨⟨hsnoc.symm, ?_⟩, by simp [hshows]⟩
  rw [pending_snoc, hsnoc]
  exact hkind

theorem tracks_end {q : Sequence} (h : Tracks text s) (htext : track none text = some q)
    (hnext : next q c = none) (n : Nat) :
    Tracks (text ++ [c]) (finishSequence { s with sequenceCount := n }).2 ∧
      ((finishSequence { s with sequenceCount := n }).1 ≠ [] ↔ Shows text c) := by
  have hsnoc : track none (text ++ [c]) = none := (track_snoc_some htext c).trans hnext
  obtain ⟨hkind, hshows⟩ := tracks_in_sequence (c := c) h htext
  refine ⟨⟨?_, ?_⟩, ?_⟩
  · rw [finishSequence, (omitBytes_state _ _ _).1, hsnoc]
  · rw [pending_snoc, hsnoc, finishSequence, omitBytes_kind]
    exact (if_pos (by simp [htext])).symm
  · rw [finishSequence, omitBytes_ne_nil]
    simp [hkind, hshows]

/-- One character: the sanitizer writes if the character shows anything. -/
theorem tracks_step (h : Tracks text s) (hstep : feedChar s c = some (o, s')) :
    Tracks (text ++ [c]) s' ∧ (o ≠ [] ↔ Shows text c) := by
  unfold feedChar at hstep
  cases hsequence : s.sequence with
  | none =>
    have htext : track none text = none := h.sequence ▸ hsequence
    have homitted : omitted text c = if c = 0 then some Kind.nul
        else if IsControl c then some .terminalControl else none := if_neg fun hne => hne htext
    simp only [hsequence] at hstep
    cases hstart : startOf c with
    | some q =>
      simp only [hstart] at hstep
      obtain ⟨n, hbytes, hr⟩ := Option.map_eq_some_iff.mp hstep
      obtain ⟨rfl, rfl⟩ := Prod.mk.inj hr
      exact tracks_start h htext hstart n
    | none =>
      simp only [hstart] at hstep
      split at hstep
      · rename_i hnul
        obtain ⟨n, hbytes, hr⟩ := Option.map_eq_some_iff.mp hstep
        obtain ⟨rfl, rfl⟩ := Prod.mk.inj hr
        rw [if_pos hnul] at homitted
        exact tracks_omit h htext hstart (by rw [hnul]; decide) homitted n
      split at hstep
      · rename_i hnul hcontrol
        obtain ⟨n, hbytes, hr⟩ := Option.map_eq_some_iff.mp hstep
        obtain ⟨rfl, rfl⟩ := Prod.mk.inj hr
        rw [if_neg hnul, if_pos hcontrol] at homitted
        exact tracks_omit h htext hstart hcontrol homitted n
      · rename_i hnul hcontrol
        obtain ⟨rfl, rfl⟩ := Prod.mk.inj (Option.some.inj hstep)
        rw [if_neg hnul, if_neg hcontrol] at homitted
        exact tracks_plain h htext hstart hcontrol homitted
  | some q =>
    have htext : track none text = some q := h.sequence ▸ hsequence
    simp only [hsequence] at hstep
    obtain ⟨n, hbytes, hr⟩ := Option.map_eq_some_iff.mp hstep
    cases hnext : next q c with
    | some q' =>
      simp only [hnext] at hr
      obtain ⟨rfl, rfl⟩ := Prod.mk.inj hr
      exact tracks_next h htext hnext _
    | none =>
      simp only [hnext] at hr
      obtain ⟨rfl, rfl⟩ := Prod.mk.inj hr
      exact tracks_end h htext hnext _

/-- A text: the sanitizer writes nothing if no character shows anything. -/
theorem tracks_feed {more : Text} (h : Tracks text s) (hfeed : feed feedChar s more = some (o, s')) :
    Tracks (text ++ more) s' ∧ (o = [] ↔ ∀ before c after, more = before ++ c :: after →
      ¬Shows (text ++ before) c) := by
  induction more generalizing text s o with
  | nil =>
    obtain ⟨rfl, rfl⟩ := Prod.mk.inj (Option.some.inj hfeed)
    refine ⟨by rwa [List.append_nil], iff_of_true rfl fun before c after heq => ?_⟩
    simp at heq
  | cons d more ih =>
    obtain ⟨o₁, s₁, rest, hstep, hrest, rfl⟩ := feed_cons_some.mp hfeed
    obtain ⟨htracks, hout⟩ := tracks_step h hstep
    obtain ⟨hend, hmore⟩ := ih htracks hrest
    rw [List.append_assoc] at hend
    refine ⟨hend, ?_⟩
    rw [List.append_eq_nil_iff, hmore, not_ne_iff.symm.trans (not_congr hout)]
    constructor
    · rintro ⟨hd, hlater⟩ before c after heq
      cases before with
      | nil =>
        obtain ⟨rfl, rfl⟩ := List.cons.inj heq
        rwa [List.append_nil]
      | cons b before =>
        obtain ⟨rfl, rfl⟩ := List.cons.inj heq
        have hnot := hlater before c after rfl
        rwa [List.append_assoc] at hnot
    · rintro hall
      constructor
      · have hnot := hall [] d more rfl
        rwa [List.append_nil] at hnot
      · rintro before c after rfl
        have hnot := hall (d :: before) c after rfl
        rwa [List.append_cons] at hnot

end

theorem tracks_init : Tracks [] {} := ⟨rfl, rfl⟩

/-! ## The loop -/

/-- Characters that have bytes do not make the sanitizer raise. -/
theorem feed_of_bytes {text : Text} (h : ∀ c ∈ text, byteCount c ≠ none) :
    ∃ out s, feed feedChar {} text = some (out, s) := by
  refine feed_of_encodable fun front kept q p c rest _ _ htext => h c ?_
  rw [htext]
  simp

/-- What a filter that has not returned has read: whole blocks, unless the input has ended. -/
structure Running (arrived : Text) (f : Filter) (consumed : Text) : Prop where
  split : arrived = consumed ++ f.unread
  fed : feed feedChar {} consumed = some (f.written, f.sanitizer)
  blocks : f.ended = false → readSize ∣ consumed.length

structure Follows (arrived : Text) (f : Filter) : Prop where
  bytes : ∀ c ∈ arrived, byteCount c ≠ none
  running : f.returned = false → ∃ consumed, Running arrived f consumed
  closed : f.returned = true → f.ended = true
  returned : f.returned = true → sanitizeTerminalText arrived = some f.written

theorem feed_trans {a b o₁ o₂ : Text} {s₁ s₂ : TerminalSanitizer}
    (ha : feed feedChar {} a = some (o₁, s₁)) (hb : feed feedChar s₁ b = some (o₂, s₂)) :
    feed feedChar {} (a ++ b) = some (o₁ ++ o₂, s₂) := by
  rw [feed_append, ha, Option.bind_some, hb]
  rfl

section

variable {arrived : Text} {f f' : Filter}

theorem Follows.arrive (h : Follows arrived f) (hopen : f.ended = false) {piece : Text}
    (hpiece : ∀ c ∈ piece, byteCount c ≠ none) :
    Follows (arrived ++ piece) { f with unread := f.unread ++ piece } := by
  have hreturned : f.returned = false := by
    cases hr : f.returned with
    | false => rfl
    | true => exact absurd (h.closed hr) (by rw [hopen]; decide)
  refine ⟨fun c hc => ?_, fun _ => ?_, h.closed, fun hr => ?_⟩
  · rcases List.mem_append.mp hc with hc | hc
    · exact h.bytes c hc
    · exact hpiece c hc
  · obtain ⟨consumed, hrun⟩ := h.running hreturned
    refine ⟨consumed, ?_, hrun.fed, hrun.blocks⟩
    rw [hrun.split, List.append_assoc]
  · exact absurd (hreturned.symm.trans hr) (by decide)

theorem Follows.close (h : Follows arrived f) : Follows arrived { f with ended := true } := by
  refine ⟨h.bytes, fun hr => ?_, fun _ => rfl, h.returned⟩
  obtain ⟨consumed, hrun⟩ := h.running hr
  refine ⟨consumed, hrun.split, hrun.fed, fun hended => ?_⟩
  cases hended

theorem Follows.turn (h : Follows arrived f) (hturn : f.turn = some f') : Follows arrived f' := by
  unfold Filter.turn at hturn
  split at hturn
  · cases hturn
  rename_i hr
  obtain ⟨consumed, hrun⟩ := h.running (by simpa using hr)
  obtain ⟨chunk, hread, hloop⟩ := Option.bind_eq_some_iff.mp hturn
  unfold Filter.read at hread
  split at hread
  · rename_i hready
    obtain rfl := Option.some.inj hread
    split at hloop
    -- An empty read: the input has ended and all of it is read.
    · rename_i hempty
      have hunread : f.unread = [] := by
        simpa [readSize] using hempty
      have hended : f.ended = true := by
        rcases hready with hended | hlength
        · exact hended
        · rw [hunread] at hlength
          exact absurd hlength (by decide)
      obtain rfl := Option.some.inj hloop
      refine ⟨h.bytes, fun hf => ?_, fun _ => hended, fun _ => ?_⟩
      · cases hf
      rw [hrun.split, hunread, List.append_nil, sanitizeTerminalText, hrun.fed]
      rfl
    · obtain ⟨⟨o, s⟩, hfeed, rfl⟩ := Option.map_eq_some_iff.mp hloop
      refine ⟨h.bytes, fun _ => ⟨consumed ++ f.unread.take readSize, ?_, feed_trans hrun.fed hfeed,
        fun hopen => ?_⟩, h.closed, fun hf => absurd hf hr⟩
      · rw [List.append_assoc, List.take_append_drop, hrun.split]
      · have hlength : readSize ≤ f.unread.length := hready.resolve_left (by simpa using hopen)
        rw [List.length_append, List.length_take, Nat.min_eq_left hlength]
        exact (hrun.blocks hopen).add (Nat.dvd_refl _)
  · cases hread

theorem follows_reach (h : Reach arrived f) : Follows arrived f := by
  induction h with
  | start =>
    refine ⟨fun c hc => absurd hc List.not_mem_nil, fun _ => ⟨[], rfl, rfl, fun _ => ?_⟩,
      fun hr => ?_, fun hr => ?_⟩
    · exact Nat.dvd_zero _
    · cases hr
    · cases hr
  | arrive h hopen piece hpiece ih => exact ih.arrive hopen hpiece
  | close h ih => exact ih.close
  | turn h hturn ih => exact ih.turn hturn

/-- At the end of the input everything is written. -/
theorem written_of_returned (h : Reach arrived f) (hreturned : f.returned = true) :
    sanitizeTerminalText arrived = some f.written := (follows_reach h).returned hreturned

/-- A filter that waits has read the whole blocks of what arrived. -/
theorem consumed_of_waits {consumed : Text} (hrun : Running arrived f consumed) (hwaits : f.Waits) :
    consumed.length = arrived.length / readSize * readSize := by
  have hread := hwaits.2
  unfold Filter.read at hread
  split at hread
  · cases hread
  rename_i hready
  simp only [not_or, Bool.not_eq_true, not_le] at hready
  obtain ⟨k, hk⟩ := hrun.blocks hready.1
  have hpos : 0 < readSize := by decide
  rw [hrun.split, List.length_append, hk, Nat.mul_add_div hpos, Nat.div_eq_of_lt hready.2, Nat.add_zero,
    Nat.mul_comm]

/-- **A filter that waits has written all that it should exactly when the characters after the last full
block show nothing.** -/
theorem prompt_iff_quiet (h : Reach arrived f) (hwaits : f.Waits) :
    Prompt arrived f ↔ Quiet arrived := by
  have hfollows := follows_reach h
  obtain ⟨consumed, hrun⟩ := hfollows.running hwaits.1
  have hlength := consumed_of_waits hrun hwaits
  obtain ⟨whole, t, hwhole⟩ := feed_of_bytes hfollows.bytes
  have hrest : ∃ o, feed feedChar f.sanitizer f.unread = some (o, t) ∧ whole = f.written ++ o := by
    rw [hrun.split, feed_append, hrun.fed, Option.bind_some] at hwhole
    obtain ⟨⟨o, u⟩, hfeed, heq⟩ := Option.map_eq_some_iff.mp hwhole
    obtain ⟨rfl, rfl⟩ := Prod.mk.inj heq
    exact ⟨o, hfeed, rfl⟩
  obtain ⟨o, hfeed, rfl⟩ := hrest
  have htracks := (tracks_feed tracks_init hrun.fed).1
  have hquiet := (tracks_feed htracks hfeed).2
  have hprompt : Prompt arrived f ↔ o = [] := by
    unfold Prompt
    rw [hwhole]
    simp
  rw [hprompt, hquiet]
  constructor
  · rintro hall before c after heq hle
    rw [← hlength] at hle
    obtain ⟨middle, rfl⟩ : consumed <+: before := by
      have hconsumed : consumed <+: arrived := ⟨f.unread, hrun.split.symm⟩
      exact List.prefix_of_prefix_length_le hconsumed ⟨c :: after, heq.symm⟩ hle
    refine hall middle c after ?_
    rw [hrun.split, List.append_assoc] at heq
    exact List.append_cancel_left heq
  · rintro hall before c after heq
    refine hall (consumed ++ before) c after ?_ ?_
    · rw [hrun.split, heq, List.append_assoc]
    · rw [← hlength, List.length_append]
      exact Nat.le_add_right _ _

end

/-- One character arrives, and the filter waits for the rest of the block. -/
theorem waits_for_block : ∃ f, Reach (codes "a") f ∧ f.Waits ∧ ¬Prompt (codes "a") f := by
  refine ⟨{ unread := codes "a" }, Reach.arrive .start rfl (codes "a") (by decide),
    ⟨rfl, by decide⟩, ?_⟩
  rintro ⟨s, hs⟩
  cases hs

/-- The beginning of a control sequence arrives: nothing is due. -/
theorem prompt_iff_quiet_escape :
    Prompt [0x1b] { unread := [0x1b] } ↔ Quiet [0x1b] :=
  @prompt_iff_quiet [0x1b] _ (Reach.arrive .start rfl [0x1b] (by decide)) ⟨rfl, by decide⟩

end Dt.Terminal
