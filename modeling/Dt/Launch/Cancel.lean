import Dt.Lib.Machine
import Dt.Lib.Text
import Mathlib.Logic.Function.Basic

/-!
# Cancelling a launch attempt

One job capsule on one node: the cancel sentinel, the identity marker, the session, the node launch
lock and the launchers of the attempts that were sent to it. A launcher runs with its working
directory inside the capsule until it leaves it right before the session starts, so the census of
a cancellation sees it in between; before it has entered the capsule nothing sees it.

A cancellation writes the sentinel for its attempt, signals and closes the session, and returns
`DEAD` once its census finds neither a session nor a process inside the capsule.
-/

namespace Dt.Launch

open Dt.Lib

/-- Where the launcher of an attempt stands. -/
inductive Phase where
  | unsent
  /-- the command is on its way; nothing of it is inside the capsule -/
  | sent
  | entered
  /-- the publisher has read the sentinel -/
  | reading (sentinel : Option String)
  | linking
  | published
  | preparing
  | locked
  /-- past the last call before the start -/
  | lastCalled
  | cleared
  /-- outside the capsule again, the session is about to start -/
  | leaving
  | started
  | confirming
  | placed
  | ended
  deriving DecidableEq, Repr

/-- The launcher has still to pass the last call. -/
def Phase.pending : Phase → Bool
  | .sent | .entered | .reading _ | .linking | .published | .preparing | .locked => true
  | _ => false

/-- The launcher has passed the last call and has not started its session. -/
def Phase.starting : Phase → Bool
  | .lastCalled | .cleared | .leaving => true
  | _ => false

/-- The working directory of the launcher is inside the capsule. -/
def Phase.inCapsule : Phase → Bool
  | .entered | .reading _ | .linking | .published | .preparing | .locked | .lastCalled
  | .cleared => true
  | _ => false

/-- The launcher holds the node launch lock. -/
def Phase.holdsLock : Phase → Bool
  | .locked | .lastCalled | .cleared | .leaving | .started | .confirming => true
  | _ => false

structure Capsule where
  sentinel : Option String := none
  marker : Option String := none
  /-- the attempt that started the session, while it exists -/
  session : Option String := none
  lock : Option String := none
  /-- `runtime_gpus_requested` -/
  requested : Option Nat := none
  /-- `runtime_containment` names a verified scope -/
  contained : Bool := false
  phase : String → Phase := fun _ => .unsent
  sent : List String := []
  /-- the attempts whose sentinel was written -/
  cancels : List String := []
  /-- the attempts whose cancellation returned `DEAD` -/
  dead : List String := []

/-- `[0-9a-f]{32}` -/
def isToken (t : String) : Bool := classRun isHex 32 32 t.toList

/-- `cancelled()`: the empty sentinel and `*` cancel every attempt, a token cancels its own. -/
def cancelled (sentinel : Option String) (token : String) : Bool :=
  sentinel.any fun v => v = "" || v = "*" || v = token

def Capsule.goto (s : Capsule) (t : String) (p : Phase) : Capsule :=
  { s with phase := Function.update s.phase t p }

/-- The launcher exits, and its lock goes with it. -/
def Capsule.exit (s : Capsule) (t : String) : Capsule :=
  { s.goto t .ended with lock := if s.lock = some t then none else s.lock }

/-- The next step of the launcher of `t`; `digest` is the hash the marker holds, and `gpus` the
number of devices the job asks for. -/
def launch (digest : String → String) (gpus : Nat) (s : Capsule) (t : String) :
    Phase → Option Capsule
  | .unsent | .placed | .ended => none
  | .sent => some (s.goto t .entered)
  | .entered =>
    if isToken t = false ∨ cancelled s.sentinel t then some (s.exit t)
    else some (s.goto t (.reading s.sentinel))
  | .reading sentinel =>
    match s.marker with
    | none => some (s.goto t .linking)
    | some m =>
      if m = digest t then some (s.goto t .published)
      -- the marker belongs to the attempt the sentinel cancels: supersede it
      else if sentinel.any (fun v => isToken v && m = digest v) then
        some { s.goto t .linking with marker := none }
      else some (s.exit t)
  | .linking =>
    match s.marker with
    | none => some { s.goto t .published with marker := some (digest t) }
    | some m => if m = digest t then some (s.goto t .published) else some (s.exit t)
  | .published =>
    if cancelled s.sentinel t then some (s.exit t) else some (s.goto t .preparing)
  | .preparing =>
    if s.lock = none then some { s.goto t .locked with lock := some t } else none
  | .locked =>
    if cancelled s.sentinel t then some (s.exit t) else some (s.goto t .lastCalled)
  | .lastCalled =>
    if s.session.isSome then some (s.exit t)
    else some { s.goto t .cleared with requested := some gpus, contained := false }
  | .cleared => some (s.goto t .leaving)
  | .leaving =>
    -- a second session of the same name is refused
    if s.session.isSome then some (s.exit t)
    else some { s.goto t .started with session := some t, contained := true }
  | .started =>
    if cancelled s.sentinel t then some { s.exit t with session := none }
    else some (s.goto t .confirming)
  | .confirming => some { s.exit t with phase := Function.update s.phase t .placed }

/-- `dt_gpu_containment_unproven` returns 1. -/
def Capsule.containmentProven (s : Capsule) : Bool :=
  s.requested.all fun n => n = 0 || s.contained

/-- An exact and empty census. -/
def Capsule.quiet (s : Capsule) : Bool :=
  s.session.isNone && s.sent.all (fun t => !(s.phase t).inCapsule) && s.containmentProven

inductive Act where
  /-- a new attempt; every earlier one was cancelled -/
  | send (t : String)
  | launch (t : String)
  /-- a launcher that refuses for another reason, or is killed -/
  | exit (t : String)
  /-- a wrapper that never reported its group -/
  | giveUp (t : String)
  | sessionEnds
  | cancel (t : String)
  | closeSession (t : String)
  | dead (t : String)
  /-- a stale identity marker is retired -/
  | retire

def step (digest : String → String) (gpus : Nat) (s : Capsule) : Act → Option Capsule
  | .send t =>
    if s.phase t = .unsent ∧ ∀ u ∈ s.sent, u ∈ s.dead then
      some { s.goto t .sent with sent := t :: s.sent }
    else none
  | .launch t => launch digest gpus s t (s.phase t)
  | .exit t =>
    if s.phase t = .unsent ∨ s.phase t = .placed ∨ s.phase t = .ended then none
    else some (s.exit t)
  | .giveUp t =>
    if s.phase t = .confirming then some { s.exit t with session := none } else none
  | .sessionEnds => some { s with session := none }
  | .cancel t =>
    if t ∈ s.sent then some { s with sentinel := some t, cancels := t :: s.cancels } else none
  | .closeSession t => if t ∈ s.cancels then some { s with session := none } else none
  | .dead t => if t ∈ s.cancels ∧ s.quiet then some { s with dead := t :: s.dead } else none
  | .retire => if s.session = none then some { s with marker := none } else none

variable {digest : String → String} {gpus : Nat} {s s' : Capsule} {t : String}

@[simp] theorem goto_phase (s : Capsule) (t : String) (p : Phase) : (s.goto t p).phase t = p := by
  simp [Capsule.goto]

theorem goto_phase_ne (s : Capsule) {t u : String} (p : Phase) (h : u ≠ t) :
    (s.goto t p).phase u = s.phase u := by
  simp [Capsule.goto, h]

/-! ## What a launcher can do -/

/-- One step of the launcher of `t`, or its exit. -/
structure Move (gpus : Nat) (t : String) (s s' : Capsule) : Prop where
  sentinel : s'.sentinel = s.sentinel
  sent : s'.sent = s.sent
  cancels : s'.cancels = s.cancels
  dead : s'.dead = s.dead
  others : ∀ u, u ≠ t → s'.phase u = s.phase u
  known : s.phase t ≠ .unsent
  stays : s'.phase t ≠ .unsent
  pending : (s'.phase t).pending → (s.phase t).pending
  /-- only an attempt that is not cancelled gets past the last call -/
  starting : (s'.phase t).starting →
    (s.phase t).starting ∨ ((s.phase t).pending ∧ cancelled s.sentinel t = false)
  session : s'.session = s.session ∨ s'.session = none ∨
    (s'.session = some t ∧ (s.phase t).starting)
  lock : s'.lock = s.lock ∨ (s.lock = some t ∧ s'.lock = none) ∨
    (s.lock = none ∧ s'.lock = some t)
  holder : (s'.phase t).holdsLock → s'.lock = some t ∨
    ((s.phase t).holdsLock ∧ s'.lock = s.lock)
  /-- only a holder of the lock writes the containment markers -/
  markers : (s'.requested = s.requested ∧ s'.contained = s.contained) ∨ (s.phase t).holdsLock
  leaving : s'.phase t = .leaving → s.phase t = .cleared ∧
    s'.requested = s.requested ∧ s'.contained = s.contained
  cleared : s'.phase t = .cleared → s'.requested = some gpus ∧ s'.contained = false

theorem move_goto {p : Phase} (hk : s.phase t ≠ .unsent)
    (hp : p.pending → (s.phase t).pending)
    (hs : p.starting → (s.phase t).starting ∨
      ((s.phase t).pending ∧ cancelled s.sentinel t = false))
    (hh : p.holdsLock → (s.phase t).holdsLock)
    (hl : p = .leaving → s.phase t = .cleared) (hc : p ≠ .cleared ∧ p ≠ .unsent) (m : Option String) :
    Move gpus t s { s.goto t p with marker := m } where
  sentinel := rfl
  sent := rfl
  cancels := rfl
  dead := rfl
  others u hu := goto_phase_ne s p hu
  known := hk
  stays := by simpa using hc.2
  pending h := hp (by simpa using h)
  starting h := hs (by simpa using h)
  session := .inl rfl
  lock := .inl rfl
  holder h := .inr ⟨hh (by simpa using h), rfl⟩
  markers := .inl ⟨rfl, rfl⟩
  leaving h := ⟨hl (by simpa using h), rfl, rfl⟩
  cleared h := absurd (by simpa using h) hc.1

/-- Leaving for good: the phase is one of the last two, and the session may be closed. -/
theorem move_exit {p : Phase} (hk : s.phase t ≠ .unsent) (hp : p = .placed ∨ p = .ended)
    {session : Option String} (hs : session = s.session ∨ session = none) :
    Move gpus t s { s.exit t with phase := Function.update s.phase t p, session := session } where
  sentinel := rfl
  sent := rfl
  cancels := rfl
  dead := rfl
  others u hu := by simp [hu]
  known := hk
  stays := by rcases hp with rfl | rfl <;> simp
  pending h := by rcases hp with rfl | rfl <;> simp [Phase.pending] at h
  starting h := by rcases hp with rfl | rfl <;> simp [Phase.starting] at h
  session := hs.imp_right .inl
  lock := by
    by_cases h : s.lock = some t
    · exact .inr (.inl ⟨h, by simp [Capsule.exit, h]⟩)
    · exact .inl (by simp [Capsule.exit, Capsule.goto, h])
  holder h := by rcases hp with rfl | rfl <;> simp [Phase.holdsLock] at h
  markers := .inl ⟨rfl, rfl⟩
  leaving h := by rcases hp with rfl | rfl <;> simp at h
  cleared h := by rcases hp with rfl | rfl <;> simp at h

theorem move_exit_ended (hk : s.phase t ≠ .unsent) : Move gpus t s (s.exit t) :=
  move_exit hk (.inr rfl) (.inl rfl)

/-- A step that only walks on. -/
theorem move_walk {p : Phase} (hk : s.phase t ≠ .unsent)
    (hp : p.pending → (s.phase t).pending)
    (hs : p.starting → (s.phase t).starting ∨
      ((s.phase t).pending ∧ cancelled s.sentinel t = false))
    (hh : p.holdsLock → (s.phase t).holdsLock)
    (hl : p = .leaving → s.phase t = .cleared) (hc : p ≠ .cleared ∧ p ≠ .unsent) :
    Move gpus t s (s.goto t p) :=
  move_goto hk hp hs hh hl hc s.marker

theorem launch_move (h : launch digest gpus s t (s.phase t) = some s') : Move gpus t s s' := by
  have hk : s.phase t ≠ .unsent := by
    intro hu
    simp [hu, launch] at h
  generalize hph : s.phase t = ph at h
  cases ph with
  | unsent => exact absurd hph hk
  | placed => cases h
  | ended => cases h
  | sent =>
    cases h
    exact move_walk hk (by simp [hph, Phase.pending]) (by simp [Phase.starting])
      (by simp [Phase.holdsLock]) (by simp) (by simp)
  | entered =>
    simp only [launch] at h
    split at h
    · cases h
      exact move_exit_ended hk
    · cases h
      exact move_walk hk (by simp [hph, Phase.pending]) (by simp [Phase.starting])
        (by simp [Phase.holdsLock]) (by simp) (by simp)
  | reading sentinel =>
    simp only [launch] at h
    split at h
    · cases h
      exact move_walk hk (by simp [hph, Phase.pending]) (by simp [Phase.starting])
        (by simp [Phase.holdsLock]) (by simp) (by simp)
    · split at h
      · cases h
        exact move_walk hk (by simp [hph, Phase.pending]) (by simp [Phase.starting])
          (by simp [Phase.holdsLock]) (by simp) (by simp)
      · split at h
        · cases h
          exact move_goto hk (by simp [hph, Phase.pending]) (by simp [Phase.starting])
            (by simp [Phase.holdsLock]) (by simp) (by simp) none
        · cases h
          exact move_exit_ended hk
  | linking =>
    simp only [launch] at h
    split at h
    · cases h
      exact move_goto hk (by simp [hph, Phase.pending]) (by simp [Phase.starting])
        (by simp [Phase.holdsLock]) (by simp) (by simp) _
    · split at h
      · cases h
        exact move_walk hk (by simp [hph, Phase.pending]) (by simp [Phase.starting])
          (by simp [Phase.holdsLock]) (by simp) (by simp)
      · cases h
        exact move_exit_ended hk
  | published =>
    simp only [launch] at h
    split at h
    · cases h
      exact move_exit_ended hk
    · cases h
      exact move_walk hk (by simp [hph, Phase.pending]) (by simp [Phase.starting])
        (by simp [Phase.holdsLock]) (by simp) (by simp)
  | preparing =>
    simp only [launch] at h
    split at h
    · rename_i hfree
      cases h
      exact {
        sentinel := rfl, sent := rfl, cancels := rfl, dead := rfl
        others := fun u hu => goto_phase_ne s _ hu
        known := hk
        stays := by simp
        pending := fun _ => by simp [hph, Phase.pending]
        starting := fun h => by simp [Phase.starting] at h
        session := .inl rfl
        lock := .inr (.inr ⟨hfree, rfl⟩)
        holder := fun _ => .inl rfl
        markers := .inl ⟨rfl, rfl⟩
        leaving := fun h => by simp at h
        cleared := fun h => by simp at h }
    · cases h
  | locked =>
    simp only [launch] at h
    split at h
    · cases h
      exact move_exit_ended hk
    · rename_i hnot
      cases h
      exact move_walk hk (by simp [Phase.pending])
        (fun _ => .inr ⟨by simp [hph, Phase.pending], by simpa using hnot⟩)
        (by simp [hph, Phase.holdsLock]) (by simp) (by simp)
  | lastCalled =>
    simp only [launch] at h
    split at h
    · cases h
      exact move_exit_ended hk
    · cases h
      exact {
        sentinel := rfl, sent := rfl, cancels := rfl, dead := rfl
        others := fun u hu => goto_phase_ne s _ hu
        known := hk
        stays := by simp
        pending := fun h => by simp [Phase.pending] at h
        starting := fun _ => .inl (by simp [hph, Phase.starting])
        session := .inl rfl
        lock := .inl rfl
        holder := fun _ => .inr ⟨by simp [hph, Phase.holdsLock], rfl⟩
        markers := .inr (by simp [hph, Phase.holdsLock])
        leaving := fun h => by simp at h
        cleared := fun _ => ⟨rfl, rfl⟩ }
  | cleared =>
    cases h
    exact move_walk hk (by simp [Phase.pending]) (fun _ => .inl (by simp [hph, Phase.starting]))
      (by simp [hph, Phase.holdsLock]) (fun _ => hph) (by simp)
  | leaving =>
    simp only [launch] at h
    split at h
    · cases h
      exact move_exit_ended hk
    · cases h
      exact {
        sentinel := rfl, sent := rfl, cancels := rfl, dead := rfl
        others := fun u hu => goto_phase_ne s _ hu
        known := hk
        stays := by simp
        pending := fun h => by simp [Phase.pending] at h
        starting := fun h => by simp [Phase.starting] at h
        session := .inr (.inr ⟨rfl, by simp [hph, Phase.starting]⟩)
        lock := .inl rfl
        holder := fun _ => .inr ⟨by simp [hph, Phase.holdsLock], rfl⟩
        markers := .inr (by simp [hph, Phase.holdsLock])
        leaving := fun h => by simp at h
        cleared := fun h => by simp at h }
  | started =>
    simp only [launch] at h
    split at h
    · cases h
      exact move_exit hk (.inr rfl) (.inr rfl)
    · cases h
      exact move_walk hk (by simp [Phase.pending]) (by simp [Phase.starting])
        (by simp [hph, Phase.holdsLock]) (by simp) (by simp)
  | confirming =>
    cases h
    exact move_exit hk (.inl rfl) (.inl rfl)

/-! ## The invariant -/

/-- A cancellation of `u` may be written now: every other attempt that was cancelled is past its
last call. -/
def Act.fenced (s : Capsule) : Act → Prop
  | .cancel u => ∀ t ∈ s.cancels, t ≠ u → (s.phase t).pending = false
  | _ => True

/-- A `DEAD` of `t` is not returned while the launcher of a job without devices stands between
its last call and its session. -/
def Act.clearOfStart (gpus : Nat) (s : Capsule) : Act → Prop
  | .dead t => gpus = 0 → s.phase t ≠ .leaving
  | _ => True

instance (s : Capsule) : (a : Act) → Decidable (a.fenced s)
  | .cancel u =>
    inferInstanceAs (Decidable (∀ t ∈ s.cancels, t ≠ u → (s.phase t).pending = false))
  | .send _ | .launch _ | .exit _ | .giveUp _ | .sessionEnds | .closeSession _ | .dead _
  | .retire => .isTrue trivial

instance (s : Capsule) : (a : Act) → Decidable (a.clearOfStart gpus s)
  | .dead t => inferInstanceAs (Decidable (gpus = 0 → s.phase t ≠ .leaving))
  | .send _ | .launch _ | .exit _ | .giveUp _ | .sessionEnds | .cancel _ | .closeSession _
  | .retire => .isTrue trivial

structure Inv (gpus : Nat) (s : Capsule) : Prop where
  sent : ∀ t, s.phase t ≠ .unsent → t ∈ s.sent
  known : ∀ t ∈ s.sent, s.phase t ≠ .unsent
  cancels : ∀ t ∈ s.cancels, t ∈ s.sent
  dead : ∀ t ∈ s.dead, t ∈ s.cancels
  /-- the sentinel still names every cancelled attempt that could start -/
  fence : ∀ t ∈ s.cancels, (s.phase t).pending → s.sentinel = some t
  gone : ∀ t ∈ s.dead, (s.phase t).starting = false ∧ s.session ≠ some t
  lock : ∀ t, (s.phase t).holdsLock → s.lock = some t
  window : ∀ t, s.phase t = .cleared ∨ s.phase t = .leaving →
    s.requested = some gpus ∧ s.contained = false

theorem inv_init : Inv gpus {} where
  sent t h := absurd rfl h
  known t h := by cases h
  cancels t h := by cases h
  dead t h := by cases h
  fence t h := by cases h
  gone t h := by cases h
  lock t h := by cases h
  window t h := by simp at h

theorem inv_move (hs : Inv gpus s) (h : Move gpus t s s') : Inv gpus s' where
  sent u hu := by
    rw [h.sent]
    rcases eq_or_ne u t with rfl | hne
    · exact hs.sent u h.known
    · exact hs.sent u (by rwa [h.others u hne] at hu)
  known u hu := by
    rcases eq_or_ne u t with rfl | hne
    · exact h.stays
    · rw [h.others u hne]
      exact hs.known u (h.sent ▸ hu)
  cancels u hu := h.sent ▸ hs.cancels u (h.cancels ▸ hu)
  dead u hu := h.cancels ▸ hs.dead u (h.dead ▸ hu)
  fence u hu hp := by
    rw [h.sentinel]
    refine hs.fence u (h.cancels ▸ hu) ?_
    rcases eq_or_ne u t with rfl | hne
    · exact h.pending hp
    · rwa [h.others u hne] at hp
  gone u hu := by
    obtain ⟨hstart, hsess⟩ := hs.gone u (h.dead ▸ hu)
    have hcancel := hs.dead u (h.dead ▸ hu)
    refine ⟨?_, ?_⟩
    · rcases eq_or_ne u t with rfl | hne
      · cases hp : (s'.phase u).starting with
        | false => rfl
        | true =>
          -- its own sentinel would have stopped it at the last call
          rcases h.starting hp with h₁ | ⟨h₁, h₂⟩
          · exact absurd h₁ (by simp [hstart])
          · rw [hs.fence u hcancel h₁] at h₂
            simp [cancelled] at h₂
      · rwa [h.others u hne]
    · rcases h.session with h₁ | h₁ | ⟨h₁, h₂⟩
      · rwa [h₁]
      · simp [h₁]
      · rw [h₁]
        rintro h₃
        cases h₃
        exact absurd h₂ (by simp [hstart])
  lock u hu := by
    rcases eq_or_ne u t with rfl | hne
    · rcases h.holder hu with h₁ | ⟨h₁, h₂⟩
      · exact h₁
      · rw [h₂]
        exact hs.lock u h₁
    · have hl := hs.lock u (by rwa [h.others u hne] at hu)
      rcases h.lock with h₁ | ⟨h₁, -⟩ | ⟨h₁, -⟩
      · rw [h₁, hl]
      · exact absurd (Option.some.inj (hl.symm.trans h₁)) hne
      · rw [hl] at h₁
        cases h₁
  window u hu := by
    rcases eq_or_ne u t with rfl | hne
    · rcases hu with hu | hu
      · exact h.cleared hu
      · obtain ⟨h₁, h₂, h₃⟩ := h.leaving hu
        rw [h₂, h₃]
        exact hs.window u (.inl h₁)
    · rw [h.others u hne] at hu
      rcases h.markers with ⟨h₁, h₂⟩ | h₁
      · rw [h₁, h₂]
        exact hs.window u hu
      · -- two holders of one lock
        have hl := hs.lock u (by rcases hu with hu | hu <;> simp [hu, Phase.holdsLock])
        exact absurd (Option.some.inj (hl.symm.trans (hs.lock t h₁))) hne

/-- Closing the session. -/
theorem inv_closed (hs : Inv gpus s) : Inv gpus { s with session := none } :=
  ⟨hs.sent, hs.known, hs.cancels, hs.dead, hs.fence, fun t ht => ⟨(hs.gone t ht).1, by simp⟩,
    hs.lock, hs.window⟩

theorem inv_send (hs : Inv gpus s) (hfree : s.phase t = .unsent) :
    Inv gpus { s.goto t .sent with sent := t :: s.sent } := by
  have hnew : t ∉ s.cancels := fun h => hs.known t (hs.cancels t h) hfree
  have hne : ∀ u ∈ s.cancels, u ≠ t := fun u hu he => hnew (he ▸ hu)
  refine ⟨fun u hu => ?_, fun u hu => ?_, fun u hu => ?_, hs.dead, fun u hu hp => ?_,
    fun u hu => ?_, fun u hu => ?_, fun u hu => ?_⟩
  · rcases eq_or_ne u t with rfl | h
    · simp
    · exact List.mem_cons_of_mem _ (hs.sent u (by rwa [goto_phase_ne s _ h] at hu))
  · rcases eq_or_ne u t with rfl | h
    · simp
    · have hu' : u ∈ s.sent := by simpa [h] using hu
      simpa [goto_phase_ne s _ h] using hs.known u hu'
  · exact List.mem_cons_of_mem _ (hs.cancels u hu)
  · exact hs.fence u hu (by rwa [goto_phase_ne s _ (hne u hu)] at hp)
  · obtain ⟨h₁, h₂⟩ := hs.gone u hu
    exact ⟨by rwa [goto_phase_ne s _ (hne u (hs.dead u hu))], h₂⟩
  · rcases eq_or_ne u t with rfl | h
    · simp [Phase.holdsLock] at hu
    · exact hs.lock u (by rwa [goto_phase_ne s _ h] at hu)
  · rcases eq_or_ne u t with rfl | h
    · simp at hu
    · exact hs.window u (by rwa [goto_phase_ne s _ h] at hu)

theorem inv_cancel (hs : Inv gpus s) (ht : t ∈ s.sent) (hf : (Act.cancel t).fenced s) :
    Inv gpus { s with sentinel := some t, cancels := t :: s.cancels } := by
  refine ⟨hs.sent, hs.known, fun u hu => ?_, fun u hu => List.mem_cons_of_mem _ (hs.dead u hu),
    fun u hu hp => ?_, hs.gone, hs.lock, hs.window⟩
  · rcases List.mem_cons.mp hu with rfl | h
    · exact ht
    · exact hs.cancels u h
  · rcases eq_or_ne u t with rfl | hne
    · rfl
    · exact absurd hp (by simp [hf u (by simpa [hne] using hu) hne])

/-- A launcher that an empty census leaves outside its view has not passed its last call, unless
it stands right before the session of a job without devices. -/
theorem quiet_not_starting (hs : Inv gpus s) (ht : t ∈ s.sent) (hq : s.quiet = true)
    (hc : gpus = 0 → s.phase t ≠ .leaving) : (s.phase t).starting = false := by
  simp only [Capsule.quiet, Bool.and_eq_true, List.all_eq_true] at hq
  obtain ⟨⟨-, hin⟩, hproven⟩ := hq
  have hout := hin t ht
  generalize hph : s.phase t = ph at hout
  cases ph with
  | lastCalled => simp [Phase.inCapsule] at hout
  | cleared => simp [Phase.inCapsule] at hout
  | leaving =>
    obtain ⟨h₁, h₂⟩ := hs.window t (.inr hph)
    have hz : gpus = 0 := by simpa [Capsule.containmentProven, h₁, h₂] using hproven
    exact absurd hph (hc hz)
  | _ => rfl

theorem inv_dead (hs : Inv gpus s) (ht : t ∈ s.cancels) (hq : s.quiet = true)
    (hc : (Act.dead t).clearOfStart gpus s) : Inv gpus { s with dead := t :: s.dead } := by
  have hstart := quiet_not_starting hs (hs.cancels t ht) hq hc
  have hnone : s.session = none := by
    simp only [Capsule.quiet, Bool.and_eq_true, Option.isNone_iff_eq_none] at hq
    exact hq.1.1
  refine ⟨hs.sent, hs.known, hs.cancels, fun u hu => ?_, hs.fence, fun u hu => ?_, hs.lock,
    hs.window⟩
  · rcases List.mem_cons.mp hu with rfl | h
    · exact ht
    · exact hs.dead u h
  · rcases List.mem_cons.mp hu with rfl | h
    · exact ⟨hstart, by simp [hnone]⟩
    · exact hs.gone u h

theorem step_inv {a : Act} (hs : Inv gpus s) (hf : a.fenced s) (hc : a.clearOfStart gpus s)
    (h : step digest gpus s a = some s') : Inv gpus s' := by
  cases a with
  | send t =>
    simp only [step] at h
    split at h
    · rename_i hg
      cases h
      exact inv_send hs hg.1
    · cases h
  | launch t => exact inv_move hs (launch_move h)
  | exit t =>
    simp only [step] at h
    split at h
    · cases h
    · rename_i hg
      cases h
      exact inv_move hs (move_exit_ended fun hu => hg (.inl hu))
  | giveUp t =>
    simp only [step] at h
    split at h
    · rename_i hg
      cases h
      exact inv_closed (inv_move hs (move_exit_ended (by simp [hg])))
    · cases h
  | sessionEnds =>
    cases h
    exact inv_closed hs
  | cancel t =>
    simp only [step] at h
    split at h
    · rename_i hg
      cases h
      exact inv_cancel hs hg hf
    · cases h
  | closeSession t =>
    simp only [step] at h
    split at h
    · cases h
      exact inv_closed hs
    · cases h
  | dead t =>
    simp only [step] at h
    split at h
    · rename_i hg
      cases h
      exact inv_dead hs hg.1 hg.2 hc
    · cases h
  | retire =>
    simp only [step] at h
    split at h
    · cases h
      exact ⟨hs.sent, hs.known, hs.cancels, hs.dead, hs.fence, hs.gone, hs.lock, hs.window⟩
    · cases h

/-! ## Cancelled attempts -/

/-- Two attempts of one job. -/
def sampleTokens : String × String :=
  ("0123456789abcdef0123456789abcdef", "fedcba9876543210fedcba9876543210")

/-- The digests of the two tokens. -/
def sampleDigest (t : String) : String :=
  if t = sampleTokens.1 then
    "3eb1bd439947eb762998e566ccc2e099c791118b2f40579cc4f7da2b5061b7f9"
  else if t = sampleTokens.2 then
    "4ba68aa8767bde72e8c798ee82d1275291cea73e72ad74d35ecf48e41386eb82"
  else ""

/-- The first attempt is cancelled while it prepares its environment and dies of it; the second
one supersedes its marker and starts. -/
def sampleRetry : List Act :=
  let (a, b) := sampleTokens
  [.send a] ++ List.replicate 4 (.launch a) ++ [.cancel a, .exit a, .closeSession a, .dead a] ++
    [.send b] ++ List.replicate 11 (.launch b)

end Dt.Launch
