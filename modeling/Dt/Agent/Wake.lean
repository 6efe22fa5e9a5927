import Mathlib
import Dt.Lib.Machine
import Dt.Lib.Text
import Dt.Jobs.Entry

/-!
# The wake file of the agent

`request_agent_wake` opens `agent.wake`, creating it if it is absent, and, when it has a reason,
reads the reasons in the file, adds its own, truncates the file and writes the set back. The agent
takes the file at the start of a tick and while it sleeps: it reads it and unlinks it. Nothing
locks the file, so the model keeps each system call apart: a descriptor outlives the unlinking of
its file, and a truncated file is empty until it is written.

`owed` holds the reasons that were written and that no tick has read since.
-/

namespace Dt.Agent

open Dt.Lib Dt.Jobs

abbrev Reason := List Char

def wakeMaxBytes : Nat := 256

def artifactsRepublished : Reason := "artifacts-republished".toList

/-- The reasons a file names. -/
def reasonsOf (content : List Char) : List Reason := words (content.take wakeMaxBytes)

/-- `"\n".join(sorted(reasons)) + "\n"`, for a set of reasons. -/
def renderReasons (reasons : List Reason) : List Char :=
  joinWith ['\n'] (reasons.dedup.insertionSort fun a b => a ≤ b) ++ ['\n']

/-- A call of `request_agent_wake`, by what it holds. -/
inductive Writer where
  | idle
  | opened (inode : Nat) (reason : Option Reason)
  /-- the set to write back -/
  | ready (inode : Nat) (reason : Reason) (reasons : List Reason)
  | truncated (inode : Nat) (reason : Reason) (reasons : List Reason)
  deriving DecidableEq, Repr

/-- Where the agent loop stands. -/
inductive Loop where
  | tick
  /-- the file was read, at tick start or while sleeping, and is not unlinked yet -/
  | taken (sleeping : Bool) (reasons : List Reason)
  /-- the body of a tick that was given these reasons -/
  | body (reasons : List Reason)
  | asleep
  deriving DecidableEq, Repr

structure State where
  linked : Option Nat := none
  content : Nat → List Char := fun _ => []
  /-- the next fresh inode -/
  next : Nat := 0
  writers : Nat → Writer := fun _ => .idle
  /-- the calls that were started -/
  calls : List Nat := []
  loop : Loop := .tick
  blockedBackoff : Dict (Nat × Time) := []
  blockedLog : Dict String := []
  owed : List Reason := []

/-- `_release_backoff_for_republished_artifacts`. -/
def releaseBackoff (backoff : Dict (Nat × Time)) (log : Dict String) : Dict (Nat × Time) :=
  backoff.filter fun p =>
    !log.any fun q => q.1 = p.1 && decide ("artifact-unverified".toList <:+: q.2.toList)

inductive Act where
  | openWake (w : Nat) (reason : Option Reason)
  | readBack (w : Nat)
  | truncate (w : Nat)
  | write (w : Nat)
  | close (w : Nat)
  /-- `_consume_agent_wake_reasons` up to the read, which may fail -/
  | read (ok : Bool)
  | unlink (ok : Bool)
  /-- the rest of the tick, which rewrites what blocks which job -/
  | process (backoff : Dict (Nat × Time)) (log : Dict String)
  /-- a tick that fails before it looks at the file -/
  | skip
  /-- the end of a sleep for another reason -/
  | wakeUp

def State.writer (s : State) (w : Nat) (x : Writer) : State :=
  { s with writers := Function.update s.writers w x }

/-- `os.pwrite(descriptor, payload, 0)` -/
def overwrite (content payload : List Char) : List Char :=
  payload ++ content.drop payload.length

def step (s : State) : Act → Option State
  | .openWake w reason =>
    if w ∈ s.calls then none
    else match s.linked with
    | some i => some { s.writer w (.opened i reason) with calls := w :: s.calls }
    | none =>
      some { s.writer w (.opened s.next reason) with
        calls := w :: s.calls
        linked := some s.next
        content := Function.update s.content s.next []
        next := s.next + 1 }
  | .readBack w =>
    match s.writers w with
    | .opened i (some r) =>
      let reasons := r :: reasonsOf (s.content i)
      -- a reason outside ASCII raises before the file is touched
      if (renderReasons reasons).all (fun c => c.toNat < 128) then
        some (s.writer w (.ready i r reasons))
      else some (s.writer w .idle)
    | _ => none
  | .truncate w =>
    match s.writers w with
    | .ready i r reasons =>
      some { s.writer w (.truncated i r reasons) with content := Function.update s.content i [] }
    | _ => none
  | .write w =>
    match s.writers w with
    | .truncated i r reasons =>
      let payload := (renderReasons reasons).take wakeMaxBytes
      some { s.writer w .idle with
        content := Function.update s.content i (overwrite (s.content i) payload)
        owed := r :: s.owed }
    | _ => none
  | .close w =>
    match s.writers w with
    | .opened _ none => some (s.writer w .idle)
    | _ => none
  | .read ok =>
    match s.loop, s.linked with
    | .tick, none => some { s with loop := .body [] }
    | .asleep, none => some s
    | .tick, some i =>
      let reasons := if ok then reasonsOf (s.content i) else []
      some { s with loop := .taken false reasons, owed := s.owed.filter (· ∉ reasons) }
    | .asleep, some i =>
      -- the reasons are read and dropped
      some { s with loop := .taken true (if ok then reasonsOf (s.content i) else []) }
    | _, _ => none
  | .unlink ok =>
    match s.loop with
    | .taken true _ =>
      if ok then some { s with linked := none, loop := .tick } else some { s with loop := .asleep }
    | .taken false reasons =>
      if ok then
        some { s with
          linked := none
          loop := .body reasons
          blockedBackoff := if artifactsRepublished ∈ reasons then
              releaseBackoff s.blockedBackoff s.blockedLog
            else s.blockedBackoff }
      else some { s with loop := .body [], owed := reasons ++ s.owed }
    | _ => none
  | .process backoff log =>
    match s.loop with
    | .body _ => some { s with loop := .asleep, blockedBackoff := backoff, blockedLog := log }
    | _ => none
  | .skip =>
    match s.loop with
    | .tick => some { s with loop := .asleep }
    | _ => none
  | .wakeUp =>
    match s.loop with
    | .asleep => some { s with loop := .tick }
    | _ => none

/-! ## What loses a reason -/

/-- The inode a call has truncated and not written yet. -/
def Writer.rewriting : Writer → Option Nat
  | .truncated i _ _ => some i
  | _ => none

/-- The reasons such a call is about to write. -/
def Writer.carries : Writer → List Reason
  | .truncated _ _ reasons => reasons
  | _ => []

def Writer.inode : Writer → Option Nat
  | .idle => none
  | .opened i _ | .ready i _ _ | .truncated i _ _ => some i

def Loop.isTaken : Loop → Bool
  | .taken .. => true
  | _ => false

/-- The reasons in the file. -/
def State.named (s : State) : List Reason := s.linked.elim [] fun i => reasonsOf (s.content i)

/-- No call is between its truncation and its write. -/
def State.settled (s : State) : Prop := ∀ w ∈ s.calls, (s.writers w).rewriting = none

/-- A reason that the next tick can still see. -/
def State.Pending (s : State) (r : Reason) : Prop :=
  r ∈ s.named ∨ ∃ w ∈ s.calls, r ∈ (s.writers w).carries

/-- The truncation of this call loses nothing: its descriptor is the linked file, which nobody is
writing or taking and which names nothing that the call has not read. -/
def State.mayTruncate (s : State) : Writer → Prop
  | .ready i _ reasons => s.linked = some i ∧ s.settled ∧ s.loop.isTaken = false ∧
      ∀ r ∈ reasonsOf (s.content i), r ∈ reasons
  | _ => True

/-- The payload of this call is not cut, and its reason is one word. -/
def Writer.fits : Writer → Prop
  | .truncated _ r reasons => (renderReasons reasons).length ≤ wakeMaxBytes ∧ IsWord r
  | _ => True

/-- A step that loses no reason. The agent takes the file only while no call is writing it, and
drops it, asleep or after a failed read, only if it names nothing. -/
def Act.safe (s : State) : Act → Prop
  | .truncate w => s.mayTruncate (s.writers w)
  | .write w => (s.writers w).fits
  | .read ok => s.settled ∧ (s.loop = .asleep ∨ ok = false → s.named = [])
  | _ => True

instance (w : List Char) : Decidable (IsWord w) :=
  have : Decidable (∀ c ∈ w, isSpace c = false) := List.decidableBAll _ w
  inferInstanceAs (Decidable (w ≠ [] ∧ ∀ c ∈ w, isSpace c = false))

instance (s : State) : Decidable s.settled :=
  inferInstanceAs (Decidable (∀ w ∈ s.calls, (s.writers w).rewriting = none))

instance (s : State) (r : Reason) : Decidable (s.Pending r) :=
  inferInstanceAs (Decidable (r ∈ s.named ∨ ∃ w ∈ s.calls, r ∈ (s.writers w).carries))

instance (s : State) : (x : Writer) → Decidable (s.mayTruncate x)
  | .ready i _ reasons => inferInstanceAs (Decidable (s.linked = some i ∧ s.settled ∧
      s.loop.isTaken = false ∧ ∀ r ∈ reasonsOf (s.content i), r ∈ reasons))
  | .idle | .opened .. | .truncated .. => .isTrue trivial

instance : (x : Writer) → Decidable x.fits
  | .truncated _ r reasons =>
    inferInstanceAs (Decidable ((renderReasons reasons).length ≤ wakeMaxBytes ∧ IsWord r))
  | .idle | .opened .. | .ready .. => .isTrue trivial

instance (s : State) : (a : Act) → Decidable (a.safe s)
  | .truncate w => inferInstanceAs (Decidable (s.mayTruncate (s.writers w)))
  | .write w => inferInstanceAs (Decidable (s.writers w).fits)
  | .read ok =>
    inferInstanceAs (Decidable (s.settled ∧ (s.loop = .asleep ∨ ok = false → s.named = [])))
  | .openWake .. | .readBack _ | .close _ | .unlink _ | .process .. | .skip | .wakeUp =>
    .isTrue trivial

/-! ## The invariant -/

/-- The reasons of a set survive being written and read back. -/
theorem reasonsOf_render {reasons : List Reason} (hw : ∀ r ∈ reasons, IsWord r)
    (hlen : (renderReasons reasons).length ≤ wakeMaxBytes) (r : Reason) :
    r ∈ reasonsOf (renderReasons reasons) ↔ r ∈ reasons := by
  have hmem : ∀ x, x ∈ reasons.dedup.insertionSort (fun a b => a ≤ b) ↔ x ∈ reasons := fun x => by
    rw [List.mem_insertionSort, List.mem_dedup]
  rw [reasonsOf, List.take_of_length_le hlen, renderReasons,
    words_joinWith (by decide) (fun x hx => hw x ((hmem x).mp hx)) (by simp [isSpace]), hmem]

theorem length_overwrite (content payload : List Char) :
    (overwrite content payload).length = max payload.length content.length := by
  simp only [overwrite, List.length_append, List.length_drop]
  omega

structure Inv (s : State) : Prop where
  calls : ∀ w, s.writers w ≠ .idle → w ∈ s.calls
  fresh : ∀ i, s.linked = some i → i < s.next
  old : ∀ w i, (s.writers w).inode = some i → i < s.next
  bounded : ∀ i, (s.content i).length ≤ wakeMaxBytes
  /-- what a call writes back: its reason, and words it has read -/
  words : ∀ w i r reasons,
    s.writers w = .ready i r reasons ∨ s.writers w = .truncated i r reasons →
    r ∈ reasons ∧ ∀ x ∈ reasons, x = r ∨ IsWord x
  absent : s.linked = none → s.owed = []
  named : s.settled → ∀ r ∈ s.owed, r ∈ s.named
  half : ∀ w i r reasons, s.writers w = .truncated i r reasons →
    s.linked = some i ∧ s.content i = [] ∧ s.loop.isTaken = false ∧
      (∀ x ∈ s.owed, x ∈ reasons) ∧ ∀ v, (s.writers v).rewriting ≠ none → v = w
  taken : ∀ b reasons, s.loop = .taken b reasons →
    s.owed = [] ∧ s.linked ≠ none ∧ ∀ r ∈ reasons, r ∈ s.named
  released : ∀ reasons, s.loop = .body reasons → artifactsRepublished ∈ reasons →
    releaseBackoff s.blockedBackoff s.blockedLog = s.blockedBackoff

theorem inv_init : Inv {} where
  calls w h := absurd rfl h
  fresh i h := by cases h
  old w i h := by cases h
  bounded i := by simp
  words w i r reasons h := by simp at h
  absent _ := rfl
  named _ r h := by cases h
  half w i r reasons h := by cases h
  taken b reasons h := by cases h
  released reasons h := by cases h

variable {s s' : State} {w : Nat}

theorem writer_self (s : State) (w : Nat) (x : Writer) : (s.writer w x).writers w = x := by
  simp [State.writer]

theorem writer_ne (s : State) {v w : Nat} (x : Writer) (h : v ≠ w) :
    (s.writer w x).writers v = s.writers v := by
  simp [State.writer, h]

/-- A call moves on without touching the file. -/
theorem inv_writer (hs : Inv s) {x : Writer} {calls : List Nat} (hcalls : ∀ v ∈ s.calls, v ∈ calls)
    (hw : w ∈ calls) (hold : (s.writers w).rewriting = none) (hnew : x.rewriting = none)
    (hinode : ∀ i, x.inode = some i → i < s.next)
    (hready : ∀ i r reasons, x = .ready i r reasons → r ∈ reasons ∧
      ∀ y ∈ reasons, y = r ∨ IsWord y) :
    Inv { s.writer w x with calls := calls } := by
  have hrew : ∀ v, ((s.writer w x).writers v).rewriting = (s.writers v).rewriting := fun v => by
    rcases eq_or_ne v w with rfl | hne
    · rw [writer_self, hnew, hold]
    · rw [writer_ne s x hne]
  have htrunc : ∀ v i r reasons, (s.writer w x).writers v = .truncated i r reasons →
      s.writers v = .truncated i r reasons := fun v i r reasons h => by
    rcases eq_or_ne v w with rfl | hne
    · rw [writer_self] at h
      simp [h, Writer.rewriting] at hnew
    · rwa [writer_ne s x hne] at h
  refine ⟨fun v hv => ?_, hs.fresh, fun v i hv => ?_, hs.bounded, fun v i r reasons hv => ?_,
    hs.absent, fun hset => ?_, fun v i r reasons hv => ?_, hs.taken, hs.released⟩
  · rcases eq_or_ne v w with rfl | hne
    · exact hw
    · exact hcalls v (hs.calls v (by rwa [writer_ne s x hne] at hv))
  · rcases eq_or_ne v w with rfl | hne
    · rw [writer_self] at hv
      exact hinode i hv
    · rw [writer_ne s x hne] at hv
      exact hs.old v i hv
  · rcases eq_or_ne v w with rfl | hne
    · rw [writer_self] at hv
      rcases hv with hv | hv
      · exact hready i r reasons hv
      · simp [hv, Writer.rewriting] at hnew
    · rw [writer_ne s x hne] at hv
      exact hs.words v i r reasons hv
  · exact hs.named fun v hv => (hrew v).symm.trans (hset v (hcalls v hv))
  · obtain ⟨h₁, h₂, h₃, h₄, h₅⟩ := hs.half v i r reasons (htrunc v i r reasons hv)
    exact ⟨h₁, h₂, h₃, h₄, fun u hu => h₅ u (by rwa [← hrew u])⟩

/-- The file is created for a call. -/
theorem inv_create (hs : Inv s) (hnone : s.linked = none) (hw : w ∉ s.calls)
    (reason : Option Reason) :
    Inv { s.writer w (.opened s.next reason) with
      calls := w :: s.calls
      linked := some s.next
      content := Function.update s.content s.next []
      next := s.next + 1 } := by
  have hidle : s.writers w = .idle := by
    by_contra h
    exact hw (hs.calls w h)
  have howed := hs.absent hnone
  have hnotrunc : ∀ v i r reasons,
      (s.writer w (.opened s.next reason)).writers v ≠ .truncated i r reasons := by
    intro v i r reasons h
    rcases eq_or_ne v w with rfl | hne
    · rw [writer_self] at h
      cases h
    · rw [writer_ne s _ hne] at h
      have := (hs.half v i r reasons h).1
      rw [hnone] at this
      cases this
  refine ⟨fun v hv => ?_, fun i hi => ?_, fun v i hv => ?_, fun i => ?_, fun v i r reasons hv => ?_,
    fun h => ?_, fun _ r hr => ?_, fun v i r reasons hv => ?_, fun b reasons hb => ?_, hs.released⟩
  · rcases eq_or_ne v w with rfl | hne
    · simp
    · exact List.mem_cons_of_mem _ (hs.calls v (by rwa [writer_ne s _ hne] at hv))
  · cases hi
    exact Nat.lt_succ_self _
  · rcases eq_or_ne v w with rfl | hne
    · rw [writer_self] at hv
      cases hv
      exact Nat.lt_succ_self _
    · rw [writer_ne s _ hne] at hv
      exact Nat.lt_succ_of_lt (hs.old v i hv)
  · rcases eq_or_ne i s.next with rfl | hne
    · simp
    · simpa [hne] using hs.bounded i
  · rcases eq_or_ne v w with rfl | hne
    · simp [writer_self] at hv
    · rw [writer_ne s _ hne] at hv
      exact hs.words v i r reasons hv
  · cases h
  · change r ∈ s.owed at hr
    rw [howed] at hr
    cases hr
  · exact absurd hv (hnotrunc v i r reasons)
  · exact absurd hnone (hs.taken b reasons hb).2.1

theorem inv_openWake (hs : Inv s) {reason : Option Reason}
    (h : step s (.openWake w reason) = some s') : Inv s' := by
  simp only [step] at h
  split at h
  · cases h
  · rename_i hw
    have hidle : s.writers w = .idle := by
      by_contra h
      exact hw (hs.calls w h)
    split at h
    · rename_i i hi
      cases h
      exact inv_writer hs (fun v hv => List.mem_cons_of_mem _ hv) (by simp)
        (by simp [hidle, Writer.rewriting]) rfl
        (fun j hj => by
          have : i = j := by simpa [Writer.inode] using hj
          exact this ▸ hs.fresh i hi)
        (by simp)
    · rename_i hnone
      cases h
      exact inv_create hs hnone hw reason

theorem inv_readBack (hs : Inv s) (h : step s (.readBack w) = some s') : Inv s' := by
  simp only [step] at h
  split at h
  · rename_i i r hw
    have hmem : w ∈ s.calls := hs.calls w (by simp [hw])
    have hold : (s.writers w).rewriting = none := by simp [hw, Writer.rewriting]
    split at h
    · cases h
      refine inv_writer hs (fun v hv => hv) hmem hold rfl (fun j hj => ?_)
        fun j r' reasons heq => ?_
      · have : i = j := by simpa [Writer.inode] using hj
        exact hs.old w j (by simp [hw, Writer.inode, this])
      · cases heq
        exact ⟨by simp, fun y hy => (List.mem_cons.mp hy).imp id words_isWord⟩
    · cases h
      exact inv_writer hs (fun v hv => hv) hmem hold rfl (by simp [Writer.inode]) (by simp)
  · cases h

theorem inv_close (hs : Inv s) (h : step s (.close w) = some s') : Inv s' := by
  simp only [step] at h
  split at h
  · rename_i i hw
    cases h
    exact inv_writer hs (fun v hv => hv) (hs.calls w (by simp [hw]))
      (by simp [hw, Writer.rewriting]) rfl (by simp [Writer.inode]) (by simp)
  · cases h

theorem settled_rewriting (hs : Inv s) (hset : s.settled) (v : Nat) :
    (s.writers v).rewriting = none := by
  by_cases h : s.writers v = .idle
  · simp [h, Writer.rewriting]
  · exact hset v (hs.calls v h)

theorem inv_truncate (hs : Inv s) (hok : (Act.truncate w).safe s)
    (h : step s (.truncate w) = some s') : Inv s' := by
  simp only [step] at h
  split at h
  · rename_i i r reasons hw
    cases h
    simp only [Act.safe, hw, State.mayTruncate] at hok
    obtain ⟨hlinked, hset, htaken, hsub⟩ := hok
    have howed : ∀ x ∈ s.owed, x ∈ reasons := fun x hx =>
      hsub x (by simpa [State.named, hlinked] using hs.named hset x hx)
    have hnotrunc : ∀ v i r reasons, s.writers v ≠ .truncated i r reasons :=
      fun v i r reasons hv => by
        have := settled_rewriting hs hset v
        simp [hv, Writer.rewriting] at this
    refine ⟨fun v hv => ?_, hs.fresh, fun v j hv => ?_, fun j => ?_, fun v j r' reasons' hv => ?_,
      hs.absent, fun hset' => ?_, fun v j r' reasons' hv => ?_, fun b reasons' hb => ?_, hs.released⟩
    · rcases eq_or_ne v w with rfl | hne
      · exact hs.calls v (by simp [hw])
      · exact hs.calls v (by rwa [writer_ne s _ hne] at hv)
    · rcases eq_or_ne v w with rfl | hne
      · rw [writer_self] at hv
        exact hs.old v j (by rw [hw]; exact hv)
      · rw [writer_ne s _ hne] at hv
        exact hs.old v j hv
    · rcases eq_or_ne j i with rfl | hne
      · simp
      · simpa [hne] using hs.bounded j
    · rcases eq_or_ne v w with rfl | hne
      · simp only [writer_self, reduceCtorEq, Writer.truncated.injEq, false_or] at hv
        obtain ⟨rfl, rfl, rfl⟩ := hv
        exact hs.words v _ _ _ (.inl hw)
      · rw [writer_ne s _ hne] at hv
        exact hs.words v j r' reasons' hv
    · have := hset' w (hs.calls w (by simp [hw]))
      simp [writer_self, Writer.rewriting] at this
    · rcases eq_or_ne v w with rfl | hne
      · simp only [writer_self, Writer.truncated.injEq] at hv
        obtain ⟨rfl, rfl, rfl⟩ := hv
        refine ⟨hlinked, by simp, htaken, howed, fun u hu => ?_⟩
        by_contra hne
        rw [writer_ne s _ hne] at hu
        exact hu (settled_rewriting hs hset u)
      · rw [writer_ne s _ hne] at hv
        exact absurd hv (hnotrunc v j r' reasons')
    · change s.loop = _ at hb
      simp [hb, Loop.isTaken] at htaken
  · cases h

theorem inv_write (hs : Inv s) (hok : (Act.write w).safe s) (h : step s (.write w) = some s') :
    Inv s' := by
  simp only [step] at h
  split at h
  · rename_i i r reasons hw
    cases h
    simp only [Act.safe, hw, Writer.fits] at hok
    obtain ⟨hlen, hword⟩ := hok
    obtain ⟨hlinked, hempty, htaken, howed, hunique⟩ := hs.half w i r reasons hw
    obtain ⟨hr, hwords⟩ := hs.words w i r reasons (.inr hw)
    have hpay : overwrite (s.content i) ((renderReasons reasons).take wakeMaxBytes) =
        renderReasons reasons := by
      rw [hempty, List.take_of_length_le hlen]
      simp [overwrite]
    refine ⟨fun v hv => ?_, hs.fresh, fun v j hv => ?_, fun j => ?_, fun v j r' reasons' hv => ?_,
      fun hn => ?_, fun _ x hx => ?_, fun v j r' reasons' hv => ?_, fun b reasons' hb => ?_,
      hs.released⟩
    · rcases eq_or_ne v w with rfl | hne
      · exact hs.calls v (by simp [hw])
      · exact hs.calls v (by rwa [writer_ne s _ hne] at hv)
    · rcases eq_or_ne v w with rfl | hne
      · simp [writer_self, Writer.inode] at hv
      · rw [writer_ne s _ hne] at hv
        exact hs.old v j hv
    · rcases eq_or_ne j i with rfl | hne
      · simpa [hpay] using hlen
      · simpa [hne] using hs.bounded j
    · rcases eq_or_ne v w with rfl | hne
      · simp [writer_self] at hv
      · rw [writer_ne s _ hne] at hv
        exact hs.words v j r' reasons' hv
    · exact absurd (hlinked.symm.trans hn) (by simp)
    · have hx' : x ∈ reasons := by
        rcases List.mem_cons.mp hx with rfl | hx
        · exact hr
        · exact howed x hx
      have hall : ∀ y ∈ reasons, IsWord y := fun y hy => (hwords y hy).elim (· ▸ hword) id
      simpa [State.named, State.writer, hlinked, hpay] using
        (reasonsOf_render hall hlen x).mpr hx'
    · rcases eq_or_ne v w with rfl | hne
      · simp [writer_self] at hv
      · rw [writer_ne s _ hne] at hv
        exact absurd (hunique v (by simp [hv, Writer.rewriting])) hne
    · change s.loop = _ at hb
      simp [hb, Loop.isTaken] at htaken
  · cases h

/-- The agent moves on to a point of its loop where it holds no file. -/
theorem inv_loop (hs : Inv s) {loop : Loop} (hl : loop.isTaken = false)
    {backoff : Dict (Nat × Time)} {log : Dict String}
    (hr : ∀ reasons, loop = .body reasons → artifactsRepublished ∈ reasons →
      releaseBackoff backoff log = backoff) :
    Inv { s with loop := loop, blockedBackoff := backoff, blockedLog := log } :=
  ⟨hs.calls, hs.fresh, hs.old, hs.bounded, hs.words, hs.absent, hs.named,
    fun v i r reasons hv =>
      have ⟨h₁, h₂, _, h₄, h₅⟩ := hs.half v i r reasons hv
      ⟨h₁, h₂, hl, h₄, h₅⟩,
    fun b reasons hb => by
      change loop = _ at hb
      simp [hb, Loop.isTaken] at hl,
    hr⟩

/-- The agent reads the file: nothing is owed any more. -/
theorem inv_taken (hs : Inv s) (hset : s.settled) {i : Nat} (hlinked : s.linked = some i)
    {sleeping : Bool} {reasons owed : List Reason} (howed : owed = [])
    (hsub : ∀ r ∈ reasons, r ∈ s.named) :
    Inv { s with loop := .taken sleeping reasons, owed := owed } := by
  subst howed
  refine ⟨hs.calls, hs.fresh, hs.old, hs.bounded, hs.words, fun _ => rfl, fun _ r hr => ?_,
    fun v j r reasons hv => ?_, fun b reasons' hb => ?_, fun reasons' hb => ?_⟩
  · cases hr
  · have := settled_rewriting hs hset v
    change s.writers v = _ at hv
    simp [hv, Writer.rewriting] at this
  · cases hb
    exact ⟨rfl, by simp [hlinked], hsub⟩
  · cases hb

theorem inv_read (hs : Inv s) {ok : Bool} (hok : (Act.read ok).safe s)
    (h : step s (.read ok) = some s') : Inv s' := by
  obtain ⟨hset, hempty⟩ := hok
  have hsub : ∀ i, s.linked = some i → ∀ r ∈ if ok then reasonsOf (s.content i) else [],
      r ∈ s.named := fun i hi r hr => by
    cases ok with
    | true => simpa [State.named, hi] using hr
    | false => cases hr
  simp only [step] at h
  split at h
  · cases h
    exact inv_loop hs rfl fun reasons hb => by cases hb; simp
  · cases h
    exact hs
  · rename_i i hloop hi
    cases h
    refine inv_taken hs hset hi ?_ (hsub i hi)
    rw [List.filter_eq_nil_iff]
    intro r hr
    have hnamed := hs.named hset r hr
    cases ok with
    | true => simpa [State.named, hi] using hnamed
    | false => simp [hempty (.inr rfl)] at hnamed
  · rename_i i hloop hi
    cases h
    have howed : s.owed = [] := by
      rw [List.eq_nil_iff_forall_not_mem]
      intro r hr
      have hnamed := hs.named hset r hr
      simp [hempty (.inl hloop)] at hnamed
    exact inv_taken hs hset hi howed (hsub i hi)
  · cases h

theorem releaseBackoff_idem (backoff : Dict (Nat × Time)) (log : Dict String) :
    releaseBackoff (releaseBackoff backoff log) log = releaseBackoff backoff log := by
  simp [releaseBackoff]

/-- A file that was read is unlinked. -/
theorem inv_unlinked (hs : Inv s) {b : Bool} {reasons : List Reason}
    (htaken : s.loop = .taken b reasons) : Inv { s with linked := none, loop := .tick } := by
  obtain ⟨howed, -, -⟩ := hs.taken b reasons htaken
  refine ⟨hs.calls, fun i hi => ?_, hs.old, hs.bounded, hs.words, fun _ => howed, fun _ r hr => ?_,
    fun v i r reasons' hv => ?_, fun b reasons hb => ?_, fun reasons hb => ?_⟩
  · cases hi
  · change r ∈ s.owed at hr
    rw [howed] at hr
    cases hr
  · have := (hs.half v i r reasons' hv).2.2.1
    simp [htaken, Loop.isTaken] at this
  · cases hb
  · cases hb

theorem inv_unlink (hs : Inv s) {ok : Bool} (h : step s (.unlink ok) = some s') : Inv s' := by
  simp only [step] at h
  split at h
  · rename_i reasons htaken
    split at h
    · cases h
      exact inv_unlinked hs htaken
    · cases h
      exact inv_loop hs rfl fun reasons hb => by cases hb
  · rename_i reasons htaken
    obtain ⟨howed, hlinked, hsub⟩ := hs.taken _ _ htaken
    split at h
    · cases h
      refine inv_loop (inv_unlinked hs htaken) rfl fun reasons' hb hmem => ?_
      cases hb
      simp only [hmem, if_true]
      exact releaseBackoff_idem _ _
    · cases h
      -- the reasons stay in the file
      refine ⟨hs.calls, hs.fresh, hs.old, hs.bounded, hs.words, fun hn => absurd hn hlinked,
        fun _ r hr => ?_, fun v i r reasons' hv => ?_, fun b reasons' hb => ?_,
        fun reasons' hb hmem => ?_⟩
      · rcases List.mem_append.mp hr with hr | hr
        · exact hsub r hr
        · rw [howed] at hr
          cases hr
      · have := (hs.half v i r reasons' hv).2.2.1
        simp [htaken, Loop.isTaken] at this
      · cases hb
      · cases hb
        cases hmem
  · cases h

theorem step_inv {a : Act} (hs : Inv s) (hok : a.safe s) (h : step s a = some s') : Inv s' := by
  cases a with
  | openWake w reason => exact inv_openWake hs h
  | readBack w => exact inv_readBack hs h
  | truncate w => exact inv_truncate hs hok h
  | write w => exact inv_write hs hok h
  | close w => exact inv_close hs h
  | read ok => exact inv_read hs hok h
  | unlink ok => exact inv_unlink hs h
  | process backoff log =>
    simp only [step] at h
    split at h
    · cases h
      exact inv_loop hs rfl fun reasons hb => by cases hb
    · cases h
  | skip =>
    simp only [step] at h
    split at h
    · cases h
      exact inv_loop hs rfl fun reasons hb => by cases hb
    · cases h
  | wakeUp =>
    simp only [step] at h
    split at h
    · cases h
      exact inv_loop hs rfl fun reasons hb => by cases hb
    · cases h

/-! ## Delivery -/

theorem owed_pending (hs : Inv s) {r : Reason} (hr : r ∈ s.owed) : s.Pending r := by
  by_cases hset : s.settled
  · exact .inl (hs.named hset r hr)
  · simp only [State.settled, not_forall] at hset
    obtain ⟨w, hw, hne⟩ := hset
    cases hx : s.writers w with
    | truncated i r' reasons =>
      exact .inr ⟨w, hw, by simpa [hx, Writer.carries] using (hs.half w i r' reasons hx).2.2.2.1 r hr⟩
    | idle => simp [hx, Writer.rewriting] at hne
    | opened i reason => simp [hx, Writer.rewriting] at hne
    | ready i r' reasons => simp [hx, Writer.rewriting] at hne

/-- A tick that starts while no call is writing gets every reason that is owed. -/
theorem tick_delivers (hs : Inv s) (htick : s.loop = .tick) (hset : s.settled)
    (hne : s.owed ≠ []) :
    ∃ t reasons, run step s [.read true, .unlink true] = some t ∧ t.loop = .body reasons ∧
      ∀ r ∈ s.owed, r ∈ reasons := by
  cases hlinked : s.linked with
  | none => exact absurd (hs.absent hlinked) hne
  | some i =>
    have hnamed : ∀ r ∈ s.owed, r ∈ reasonsOf (s.content i) := fun r hr => by
      simpa [State.named, hlinked] using hs.named hset r hr
    exact ⟨_, reasonsOf (s.content i), by simp [run, step, htick, hlinked]; rfl, rfl, hnamed⟩

/-- In every run of steps that lose no reason: a reason that was written and that no tick has read
since stands in the file, or in the set a call is about to write there; when a tick has read the
file, nothing older is owed; the next tick that starts while no call is writing is given every
reason owed; and a tick that was told of republished artifacts has released the backoff of the
jobs they blocked. -/
theorem wake_reasons_delivered {as : List Act} (hok : Meets (fun s a => a.safe s) step {} as)
    (hrun : run step {} as = some s) :
    (∀ r ∈ s.owed, s.Pending r) ∧
      (∀ reasons, s.loop = .taken false reasons → s.owed = []) ∧
      (s.loop = .tick → s.settled → s.owed ≠ [] →
        ∃ t reasons, run step s [.read true, .unlink true] = some t ∧ t.loop = .body reasons ∧
          ∀ r ∈ s.owed, r ∈ reasons) ∧
      (∀ reasons, s.loop = .body reasons → artifactsRepublished ∈ reasons →
        ∀ p ∈ s.blockedBackoff, ∀ q ∈ s.blockedLog, q.1 = p.1 →
          ¬ "artifact-unverified".toList <:+: q.2.toList) := by
  have hinv : Inv s := run_inv_of_meets (fun s a s' hs ho h => step_inv hs ho h) inv_init hok hrun
  refine ⟨fun r hr => owed_pending hinv hr, fun reasons hl => (hinv.taken _ _ hl).1,
    fun htick hset hne => tick_delivers hinv htick hset hne, fun reasons hl hmem p hp q hq hqp => ?_⟩
  have hkeep := List.filter_eq_self.mp (hinv.released reasons hl hmem) p hp
  simp only [Bool.not_eq_true', List.any_eq_false, Bool.and_eq_true, decide_eq_true_eq,
    not_and] at hkeep
  exact hkeep q hq hqp

/-- One call with a reason. -/
def sampleCall (w : Nat) (reason : Reason) : List Act :=
  [.openWake w (some reason), .readBack w, .truncate w, .write w]

/-- A tick without a wake, after which a job is blocked. -/
def sampleBlocked : List Act :=
  [.read true, .process [("job-1", (3, 500))] [("job-1", "n1: artifact-unverified: weights")]]

/-- Two calls between the ticks, and the tick that takes them both. -/
theorem wake_reasons_delivered_sample :
    (run step {} (sampleBlocked ++ sampleCall 0 artifactsRepublished ++
        sampleCall 1 "something-else".toList ++ [.wakeUp, .read true, .unlink true])).map
        (fun s => (s.loop, s.owed, s.blockedBackoff.isEmpty)) =
      some (.body [artifactsRepublished, "something-else".toList], [], true) ∧
    ∀ s, run step {} (sampleBlocked ++ sampleCall 0 artifactsRepublished ++
        sampleCall 1 "something-else".toList) = some s → ∀ r ∈ s.owed, s.Pending r :=
  ⟨by decide +kernel, fun _ h => (wake_reasons_delivered (by decide +kernel) h).1⟩

/-- A reason that is written while the agent sleeps is read and dropped: the file is gone, the
tick that follows is given nothing, and the job keeps its backoff. -/
theorem wake_reason_lost_asleep :
    ((run step {} (sampleBlocked ++ sampleCall 0 artifactsRepublished ++
        [.read true, .unlink true])).any fun s =>
      s.loop = .tick ∧ artifactsRepublished ∈ s.owed ∧ ¬ s.Pending artifactsRepublished) = true ∧
    ((run step {} (sampleBlocked ++ sampleCall 0 artifactsRepublished ++
        [.read true, .unlink true, .read true])).any fun s =>
      s.loop = .body [] ∧ s.blockedBackoff.map Prod.fst = ["job-1"]) = true := by
  decide +kernel


end Dt.Agent
