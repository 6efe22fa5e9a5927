import Mathlib
import Dt.Lib.Machine

/-!
# The surface stamp of a shared environment

Launchers whose snapshots have the same environment key share one environment. A build makes it fit
the project table of its launcher (its surface) under an exclusive lock, and a stamp file names the
surface of the last build; a launcher that finds its own surface there enters without a build, and
its wrapper then holds the lock shared. The stamp is read without the lock, and written after the
lock was given back.
-/

namespace Dt.Launch

open Dt.Lib

/-- Where a launcher with a surface is. -/
inductive Launcher where
  | check (surface : String)
  /-- `env_needs_build=0` -/
  | skip (surface : String)
  /-- `env_needs_build=1` -/
  | lockWait (surface : String)
  /-- inside the exclusive lock -/
  | building (surface : String) (modified : Bool)
  /-- the build is done and the stamp is not written -/
  | built (surface : String)
  /-- about to start its wrapper -/
  | ready (surface : String) (skipped : Bool)
  /-- its wrapper holds the shared lease -/
  | inside (surface : String) (skipped : Bool)
  | gone
  deriving DecidableEq

/-- The environment: the last build that modified it, with whether that build was completed, and the
surface of the last completed build. -/
structure Environment where
  modifiedBy : Option (String × Bool)
  completed : Option String
  deriving DecidableEq

/-- `stamp` is the surface in the stamp file; none when it is missing or unreadable. -/
structure SharedEnv where
  env : Environment
  stamp : Option String
  launchers : List Launcher
  deriving DecidableEq

/-- What happens to the stamp file when it is written. -/
inductive StampWrite where
  | written | failed | truncated
  deriving DecidableEq

inductive EnvOp where
  /-- the test of the stamp, the interpreter and the setup marker -/
  | test (markers : Bool)
  /-- `flock -s --close "$DT_ENVS_DIR/$lockhash.lock" true` -/
  | enter
  /-- `flock --close "$DT_ENVS_DIR/$lockhash.lock"` around the build -/
  | lock
  | modify (removesStamp : Bool)
  | complete
  | fail
  | writeStamp (outcome : StampWrite)
  /-- `flock -s` of the wrapper -/
  | lease
  | leave
  deriving DecidableEq

def Launcher.isBuilding : Launcher → Bool
  | .building _ _ => true
  | _ => false

def Launcher.isInside : Launcher → Bool
  | .inside _ _ => true
  | _ => false

/-- A builder holds the lock. -/
def SharedEnv.locked (w : SharedEnv) : Bool := w.launchers.any Launcher.isBuilding

/-- Wrappers hold the lock. -/
def SharedEnv.leased (w : SharedEnv) : Bool := w.launchers.any Launcher.isInside

def SharedEnv.put (w : SharedEnv) (i : Nat) (l : Launcher) : SharedEnv :=
  { w with launchers := w.launchers.set i l }

/-- An environment that was not built, and launchers that are about to look at it. -/
def SharedEnv.start (surfaces : List String) : SharedEnv :=
  ⟨⟨none, none⟩, none, surfaces.map .check⟩

def SharedEnv.act (w : SharedEnv) (i : Nat) : Launcher → EnvOp → Option SharedEnv
  | .check surface, .test markers =>
    some (w.put i (if w.stamp = some surface ∧ markers then .skip surface else .lockWait surface))
  | .skip surface, .enter => if w.locked then none else some (w.put i (.ready surface true))
  | .lockWait surface, .lock =>
    if w.locked || w.leased then none else some (w.put i (.building surface false))
  | .building surface _, .modify removesStamp =>
    some { w.put i (.building surface true) with
      env := { w.env with modifiedBy := some (surface, false) }
      stamp := if removesStamp then none else w.stamp }
  | .building surface _, .complete =>
    some { w.put i (.built surface) with env := ⟨some (surface, true), some surface⟩ }
  | .building _ _, .fail => some (w.put i .gone)
  | .built surface, .writeStamp outcome =>
    some { w.put i (.ready surface false) with
      stamp :=
        match outcome with
        | .written => some surface
        | .failed => w.stamp
        | .truncated => none }
  | .ready surface skipped, .lease =>
    if w.locked then none else some (w.put i (.inside surface skipped))
  | .building _ _, .leave => none
  | _, .leave => some (w.put i .gone)
  | _, _ => none

def envStep (w : SharedEnv) (a : Nat × EnvOp) : Option SharedEnv :=
  w.launchers[a.1]?.bind fun l => w.act a.1 l a.2

/-- The stamp names the surface of the last build that touched the environment, once no builder
holds the lock; and who skipped the build is in an environment that was completed for its surface. -/
structure Truthful (w : SharedEnv) : Prop where
  stamp : ∀ surface, w.locked = false → w.stamp = some surface →
    w.env.modifiedBy = some (surface, true)
  skipped : ∀ surface, .inside surface true ∈ w.launchers → w.env.completed = some surface

/-! ## The runs that keep the stamp truthful -/

/-- The surface of a launcher that is between its test and its lease, or between its build and its
stamp. -/
def Launcher.pending : Launcher → Option String
  | .skip surface | .ready surface true | .built surface => some surface
  | _ => none

/-- The surface of a launcher that is about to write the stamp. -/
def Launcher.stamping : Launcher → Option String
  | .built surface => some surface
  | _ => none

/-- The environment may be touched for a surface: no other surface is stamped or pending. -/
def SharedEnv.clearFor (w : SharedEnv) (surface : String) : Bool :=
  (w.stamp = none || w.stamp = some surface) &&
    w.launchers.all fun l => l.pending = none || l.pending = some surface

/-- No build touches the environment while another surface is stamped or pending, and no build that
touched it fails while a stamp is there or about to be written. -/
def Undisturbed (w : SharedEnv) (a : Nat × EnvOp) : Prop :=
  match w.launchers[a.1]?, a.2 with
  | some (.building surface _), .modify _ | some (.building surface _), .complete =>
    w.clearFor surface = true
  | some (.building _ true), .fail =>
    w.stamp = none ∧ w.launchers.all (fun l => l.stamping = none) = true
  | _, _ => True

instance (w : SharedEnv) (a : Nat × EnvOp) : Decidable (Undisturbed w a) := by
  unfold Undisturbed
  split
  all_goals infer_instance

/-- What an undisturbed run keeps. -/
structure StampInv (w : SharedEnv) : Prop where
  one : ∀ (i j : Nat) (l l' : Launcher), w.launchers[i]? = some l → w.launchers[j]? = some l' → l.isBuilding = true →
    l'.isBuilding = true → i = j
  apart : w.locked = true → w.leased = false
  completed : ∀ surface, w.stamp = some surface ∨ .built surface ∈ w.launchers →
    w.env.completed = some surface
  modified : (∀ surface, .building surface true ∉ w.launchers) → ∀ surface,
    w.stamp = some surface ∨ .built surface ∈ w.launchers → w.env.modifiedBy = some (surface, true)
  clear : ∀ surface, .building surface true ∈ w.launchers → w.clearFor surface = true
  skipped : ∀ surface, .skip surface ∈ w.launchers ∨ .ready surface true ∈ w.launchers ∨
    .inside surface true ∈ w.launchers → w.env.completed = some surface

section

variable {w : SharedEnv} {i : Nat} {l l' m : Launcher} {surface : String}

theorem eq_or_mem_of_put (h : m ∈ (w.put i l').launchers) : m = l' ∨ m ∈ w.launchers :=
  (List.mem_or_eq_of_mem_set h).symm

theorem getElem?_put {j : Nat} (h : (w.put i l').launchers[j]? = some m) :
    (j = i ∧ m = l') ∨ (j ≠ i ∧ w.launchers[j]? = some m) := by
  unfold SharedEnv.put at h
  dsimp only at h
  rw [List.getElem?_set] at h
  split at h
  · rename_i heq
    split at h
    · exact .inl ⟨heq.symm, (Option.some.inj h).symm⟩
    · cases h
  · rename_i hne
    exact .inr ⟨Ne.symm hne, h⟩

/-- Only the moved launcher can go. -/
theorem mem_put_of_ne (hl : w.launchers[i]? = some l) (hm : m ∈ w.launchers) (hne : m ≠ l) :
    m ∈ (w.put i l').launchers := by
  obtain ⟨j, hj⟩ := List.mem_iff_getElem?.mp hm
  refine List.mem_iff_getElem?.mpr ⟨j, ?_⟩
  unfold SharedEnv.put
  dsimp only
  rw [List.getElem?_set_ne]
  · exact hj
  · rintro rfl
    exact hne (Option.some.inj (hj.symm.trans hl))

theorem locked_iff : w.locked = true ↔ ∃ m ∈ w.launchers, Launcher.isBuilding m = true :=
  List.any_eq_true

theorem leased_iff : w.leased = true ↔ ∃ m ∈ w.launchers, Launcher.isInside m = true :=
  List.any_eq_true

theorem clearFor_iff : w.clearFor surface = true ↔
    (w.stamp = none ∨ w.stamp = some surface) ∧
      ∀ m ∈ w.launchers, Launcher.pending m = none ∨ Launcher.pending m = some surface := by
  simp [SharedEnv.clearFor]

/-- Moves of launchers that are not in the lock. -/
theorem StampInv.move (hw : StampInv w) (hl : w.launchers[i]? = some l) {stamp : Option String}
    (hold : l.isBuilding = false) (hnew : l'.isBuilding = false) (hbuilt : ∀ t, l' ≠ .built t)
    (hstamp : ∀ t, stamp = some t → w.stamp = some t ∨ .built t ∈ w.launchers)
    (hinside : l'.isInside = true → w.locked = false)
    (hpending : ∀ t, l'.pending = some t → w.stamp = some t ∨ l.pending = some t)
    (hskipped : ∀ t, l' = .skip t ∨ l' = .ready t true ∨ l' = .inside t true →
      w.env.completed = some t) : StampInv { w.put i l' with stamp } := by
  have hlm : l ∈ w.launchers := List.mem_iff_getElem?.mpr ⟨i, hl⟩
  have hsources : ∀ t, stamp = some t ∨ .built t ∈ (w.put i l').launchers →
      w.stamp = some t ∨ .built t ∈ w.launchers := by
    rintro t (ht | ht)
    · exact hstamp t ht
    · rcases eq_or_mem_of_put ht with heq | hm
      · exact absurd heq.symm (hbuilt t)
      · exact .inr hm
  refine ⟨fun a b m m' hm hm' hb hb' => ?_, fun hlocked => ?_, fun t ht => ?_, fun hno t ht => ?_,
    fun t ht => ?_, fun t ht => ?_⟩
  · rcases getElem?_put hm with ⟨-, rfl⟩ | ⟨-, hma⟩
    · rw [hnew] at hb
      cases hb
    · rcases getElem?_put hm' with ⟨-, rfl⟩ | ⟨-, hmb⟩
      · rw [hnew] at hb'
        cases hb'
      · exact hw.one a b m m' hma hmb hb hb'
  · obtain ⟨m, hm, hb⟩ := locked_iff.mp hlocked
    have hwas : w.locked = true := by
      rcases eq_or_mem_of_put hm with rfl | hm
      · rw [hnew] at hb
        cases hb
      · exact locked_iff.mpr ⟨m, hm, hb⟩
    rw [Bool.eq_false_iff, ne_eq, leased_iff]
    rintro ⟨m', hm', hin⟩
    rcases eq_or_mem_of_put hm' with rfl | hm'
    · rw [hinside hin] at hwas
      cases hwas
    · exact Bool.eq_false_iff.mp (hw.apart hwas) (leased_iff.mpr ⟨m', hm', hin⟩)
  · exact hw.completed t (hsources t ht)
  · refine hw.modified (fun t' ht' => hno t' ?_) t (hsources t ht)
    refine mem_put_of_ne hl ht' ?_
    rintro rfl
    cases hold
  · have hbuilding : .building t true ∈ w.launchers := by
      rcases eq_or_mem_of_put ht with rfl | hm
      · cases hnew
      · exact hm
    obtain ⟨hclear, hall⟩ := clearFor_iff.mp (hw.clear t hbuilding)
    have hsame : ∀ t', w.stamp = some t' ∨ .built t' ∈ w.launchers → t' = t := by
      rintro t' (ht' | ht')
      · rw [ht'] at hclear
        simpa using hclear
      · simpa [Launcher.pending] using hall _ ht'
    refine clearFor_iff.mpr ⟨?_, fun m hm => ?_⟩
    · dsimp only
      cases hs : stamp with
      | none => exact .inl rfl
      | some t' => exact .inr (by rw [hsame t' (hstamp t' hs)])
    · rcases eq_or_mem_of_put hm with rfl | hm
      · cases hp : m.pending with
        | none => exact .inl rfl
        | some t' =>
          rcases hpending t' hp with hst | hpl
          · exact .inr (by rw [hsame t' (.inl hst)])
          · exact .inr (by simpa [hpl] using hall l hlm)
      · exact hall m hm
  · rcases ht with ht | ht | ht
    · rcases eq_or_mem_of_put ht with heq | hm
      · exact hskipped t (.inl heq.symm)
      · exact hw.skipped t (.inl hm)
    · rcases eq_or_mem_of_put ht with heq | hm
      · exact hskipped t (.inr (.inl heq.symm))
      · exact hw.skipped t (.inr (.inl hm))
    · rcases eq_or_mem_of_put ht with heq | hm
      · exact hskipped t (.inr (.inr heq.symm))
      · exact hw.skipped t (.inr (.inr hm))

/-- After a move inside the lock there is still one builder at most. -/
theorem StampInv.one_put (hw : StampInv w) (hl : w.launchers[i]? = some l)
    (hold : l.isBuilding = true ∨ w.locked = false) (a b : Nat) (m m' : Launcher)
    (hm : (w.put i l').launchers[a]? = some m) (hm' : (w.put i l').launchers[b]? = some m')
    (hb : m.isBuilding = true) (hb' : m'.isBuilding = true) : a = b := by
  have hother : ∀ (c : Nat) (n : Launcher), c ≠ i → w.launchers[c]? = some n →
      n.isBuilding = true → False := by
    intro c n hne hc hn
    rcases hold with hl' | hfree
    · exact hne (hw.one c i n l hc hl hn hl')
    · exact Bool.eq_false_iff.mp hfree (locked_iff.mpr ⟨n, List.mem_iff_getElem?.mpr ⟨c, hc⟩, hn⟩)
  rcases getElem?_put hm with ⟨ha, -⟩ | ⟨ha, hma⟩
  · rcases getElem?_put hm' with ⟨hb, -⟩ | ⟨hb, hmb⟩
    · rw [ha, hb]
    · exact absurd hb' fun h => hother b m' hb hmb h
  · exact absurd hb fun h => hother a m ha hma h

/-- While a builder is in the lock there is no other builder. -/
theorem StampInv.not_building_put (hw : StampInv w) (hl : w.launchers[i]? = some l)
    (hold : l.isBuilding = true) (hnew : l'.isBuilding = false) (m : Launcher)
    (hm : m ∈ (w.put i l').launchers) : m.isBuilding = false := by
  obtain ⟨j, hj⟩ := List.mem_iff_getElem?.mp hm
  rcases getElem?_put hj with ⟨-, rfl⟩ | ⟨hne, hmj⟩
  · exact hnew
  · by_contra hb
    rw [Bool.not_eq_false] at hb
    exact hne (hw.one j i m l hmj hl hb hold)

theorem StampInv.not_leased_put (hfree : w.leased = false) (hnew : l'.isInside = false) :
    (w.put i l').leased = false := by
  rw [Bool.eq_false_iff, ne_eq, leased_iff]
  rintro ⟨m, hm, hin⟩
  rcases eq_or_mem_of_put hm with rfl | hm
  · rw [hnew] at hin
    cases hin
  · exact Bool.eq_false_iff.mp hfree (leased_iff.mpr ⟨m, hm, hin⟩)

theorem StampInv.lock (hw : StampInv w) (hl : w.launchers[i]? = some (.lockWait surface))
    (hlocked : w.locked = false) (hleased : w.leased = false) :
    StampInv (w.put i (.building surface false)) := by
  have hkeep : ∀ m ∈ (w.put i (.building surface false)).launchers,
      m = .building surface false ∨ m ∈ w.launchers := fun m hm => eq_or_mem_of_put hm
  have hsources : ∀ t, w.stamp = some t ∨ .built t ∈ (w.put i (.building surface false)).launchers →
      w.stamp = some t ∨ .built t ∈ w.launchers := by
    rintro t (ht | ht)
    · exact .inl ht
    · exact .inr ((hkeep _ ht).resolve_left (by simp))
  refine ⟨fun a b m m' => hw.one_put hl (.inr hlocked) a b m m',
    fun _ => StampInv.not_leased_put hleased rfl, fun t ht => hw.completed t (hsources t ht),
    fun hno t ht => hw.modified (fun t' ht' => hno t' ?_) t (hsources t ht), fun t ht => ?_,
    fun t ht => hw.skipped t ?_⟩
  · exact mem_put_of_ne hl ht' (by simp)
  · have hm := (hkeep _ ht).resolve_left (by simp)
    exact absurd (locked_iff.mpr ⟨_, hm, rfl⟩) (Bool.eq_false_iff.mp hlocked)
  · rcases ht with ht | ht | ht
    · exact .inl ((hkeep _ ht).resolve_left (by simp))
    · exact .inr (.inl ((hkeep _ ht).resolve_left (by simp)))
    · exact .inr (.inr ((hkeep _ ht).resolve_left (by simp)))

theorem StampInv.modify (hw : StampInv w) {b removes : Bool}
    (hl : w.launchers[i]? = some (.building surface b)) (hclear : w.clearFor surface = true) :
    StampInv { w.put i (.building surface true) with
      env := { w.env with modifiedBy := some (surface, false) }
      stamp := if removes then none else w.stamp } := by
  have hlm : .building surface b ∈ w.launchers := List.mem_iff_getElem?.mpr ⟨i, hl⟩
  have hkeep : ∀ m ∈ (w.put i (.building surface true)).launchers,
      m = .building surface true ∨ m ∈ w.launchers := fun m hm => eq_or_mem_of_put hm
  have hstamp : ∀ t, (if removes then none else w.stamp) = some t → w.stamp = some t := by
    intro t ht
    split at ht
    · cases ht
    · exact ht
  refine ⟨fun a c m m' => hw.one_put hl (.inl rfl) a c m m',
    fun _ => StampInv.not_leased_put (hw.apart (locked_iff.mpr ⟨_, hlm, rfl⟩)) rfl,
    fun t ht => hw.completed t ?_, fun hno => ?_, fun t ht => ?_, fun t ht => hw.skipped t ?_⟩
  · rcases ht with ht | ht
    · exact .inl (hstamp t ht)
    · exact .inr ((hkeep _ ht).resolve_left (by simp))
  · refine absurd ?_ (hno surface)
    refine List.mem_iff_getElem?.mpr ⟨i, ?_⟩
    obtain ⟨hlt, -⟩ := List.getElem?_eq_some_iff.mp hl
    simp [SharedEnv.put, hlt]
  · -- the only builder is this one
    obtain rfl : t = surface := by
      obtain ⟨j, hj⟩ := List.mem_iff_getElem?.mp ht
      rcases getElem?_put hj with ⟨-, heq⟩ | ⟨hne, hmj⟩
      · exact (Launcher.building.inj heq).1
      · exact absurd (hw.one j i _ _ hmj hl rfl rfl) hne
    obtain ⟨hst, hall⟩ := clearFor_iff.mp hclear
    refine clearFor_iff.mpr ⟨?_, fun m hm => ?_⟩
    · dsimp only
      split
      · exact .inl rfl
      · exact hst
    · rcases hkeep m hm with rfl | hm
      · exact .inl rfl
      · exact hall m hm
  · rcases ht with ht | ht | ht
    · exact .inl ((hkeep _ ht).resolve_left (by simp))
    · exact .inr (.inl ((hkeep _ ht).resolve_left (by simp)))
    · exact .inr (.inr ((hkeep _ ht).resolve_left (by simp)))

theorem StampInv.complete (hw : StampInv w) {b : Bool}
    (hl : w.launchers[i]? = some (.building surface b)) (hclear : w.clearFor surface = true) :
    StampInv { w.put i (.built surface) with env := ⟨some (surface, true), some surface⟩ } := by
  have hlm : .building surface b ∈ w.launchers := List.mem_iff_getElem?.mpr ⟨i, hl⟩
  have hkeep : ∀ m ∈ (w.put i (.built surface)).launchers, m = .built surface ∨ m ∈ w.launchers :=
    fun m hm => eq_or_mem_of_put hm
  obtain ⟨hst, hall⟩ := clearFor_iff.mp hclear
  have hnone : ∀ m ∈ (w.put i (.built surface)).launchers, Launcher.isBuilding m = false :=
    hw.not_building_put hl rfl rfl
  have hleased := hw.apart (locked_iff.mpr ⟨_, hlm, rfl⟩)
  have hsame : ∀ t, w.stamp = some t ∨ .built t ∈ (w.put i (.built surface)).launchers →
      t = surface := by
    rintro t (ht | ht)
    · rw [ht] at hst
      simpa using hst
    · rcases hkeep _ ht with heq | hm
      · exact Launcher.built.inj heq
      · simpa [Launcher.pending] using hall _ hm
  refine ⟨fun a c m m' => hw.one_put hl (.inl rfl) a c m m',
    fun _ => StampInv.not_leased_put hleased rfl, fun t ht => by rw [hsame t ht],
    fun _ t ht => by rw [hsame t ht], fun t ht => ?_, fun t ht => ?_⟩
  · cases hnone _ ht
  · rcases ht with ht | ht | ht
    · have hm := (hkeep _ ht).resolve_left (by simp)
      have hp := hall _ hm
      simp only [Launcher.pending, reduceCtorEq, Option.some.injEq, false_or] at hp
      rw [hp]
    · have hm := (hkeep _ ht).resolve_left (by simp)
      have hp := hall _ hm
      simp only [Launcher.pending, reduceCtorEq, Option.some.injEq, false_or] at hp
      rw [hp]
    · have hm := (hkeep _ ht).resolve_left (by simp)
      exact absurd (leased_iff.mpr ⟨_, hm, rfl⟩) (Bool.eq_false_iff.mp hleased)

theorem StampInv.fail (hw : StampInv w) {b : Bool}
    (hl : w.launchers[i]? = some (.building surface b))
    (hsafe : b = true → w.stamp = none ∧ ∀ m ∈ w.launchers, Launcher.stamping m = none) :
    StampInv (w.put i .gone) := by
  have hlm : .building surface b ∈ w.launchers := List.mem_iff_getElem?.mpr ⟨i, hl⟩
  have hkeep : ∀ m ∈ (w.put i .gone).launchers, m = .gone ∨ m ∈ w.launchers :=
    fun m hm => eq_or_mem_of_put hm
  have hnone : ∀ m ∈ (w.put i .gone).launchers, Launcher.isBuilding m = false :=
    hw.not_building_put hl rfl rfl
  have hsources : ∀ t, w.stamp = some t ∨ .built t ∈ (w.put i .gone).launchers →
      w.stamp = some t ∨ .built t ∈ w.launchers := by
    rintro t (ht | ht)
    · exact .inl ht
    · exact .inr ((hkeep _ ht).resolve_left (by simp))
  refine ⟨fun a c m m' => hw.one_put hl (.inl rfl) a c m m',
    fun _ => StampInv.not_leased_put (hw.apart (locked_iff.mpr ⟨_, hlm, rfl⟩)) rfl,
    fun t ht => hw.completed t (hsources t ht), fun _ t ht => ?_, fun t ht => ?_,
    fun t ht => hw.skipped t ?_⟩
  · cases b with
    | true =>
      obtain ⟨hst, hno⟩ := hsafe rfl
      rcases hsources t ht with hstamp | hbuilt
      · rw [hst] at hstamp
        cases hstamp
      · cases hno _ hbuilt
    | false =>
      refine hw.modified (fun t' ht' => ?_) t (hsources t ht)
      obtain ⟨j, hj⟩ := List.mem_iff_getElem?.mp ht'
      obtain rfl := hw.one j i _ _ hj hl rfl rfl
      cases hj.symm.trans hl
  · cases hnone _ ht
  · rcases ht with ht | ht | ht
    · exact .inl ((hkeep _ ht).resolve_left (by simp))
    · exact .inr (.inl ((hkeep _ ht).resolve_left (by simp)))
    · exact .inr (.inr ((hkeep _ ht).resolve_left (by simp)))

theorem StampInv.step {w' : SharedEnv} {a : Nat × EnvOp} (hw : StampInv w) (hok : Undisturbed w a)
    (h : envStep w a = some w') : StampInv w' := by
  obtain ⟨i, op⟩ := a
  unfold envStep at h
  rw [Option.bind_eq_some_iff] at h
  obtain ⟨l, hl, h⟩ := h
  dsimp only at hl h
  have hlm : l ∈ w.launchers := List.mem_iff_getElem?.mpr ⟨i, hl⟩
  unfold Undisturbed at hok
  rw [hl] at hok
  have hsame : ∀ t, w.stamp = some t → w.stamp = some t ∨ .built t ∈ w.launchers := fun _ => .inl
  unfold SharedEnv.act at h
  split at h
  · -- test
    rename_i surface markers
    cases h
    split
    · rename_i hskip
      refine hw.move hl rfl rfl (by simp) hsame (fun h => nomatch h) (fun t ht => ?_) fun t ht => ?_
      · cases ht
        exact .inl hskip.1
      · obtain rfl : surface = t := by simpa using ht
        exact hw.completed surface (.inl hskip.1)
    · exact hw.move hl rfl rfl (by simp) hsame (fun h => nomatch h) (fun t ht => nomatch ht)
        fun t ht => by simp at ht
  · -- enter
    rename_i surface
    split at h
    · cases h
    · cases h
      refine hw.move hl rfl rfl (by simp) hsame (fun h => nomatch h) (fun t ht => .inr ht)
        fun t ht => ?_
      obtain rfl : surface = t := by simpa using ht
      exact hw.skipped surface (.inl hlm)
  · -- lock
    split at h
    · cases h
    · rename_i hfree
      cases h
      rw [Bool.or_eq_true, not_or, Bool.not_eq_true, Bool.not_eq_true] at hfree
      exact hw.lock hl hfree.1 hfree.2
  · -- modify
    cases h
    exact hw.modify hl hok
  · -- complete
    cases h
    exact hw.complete hl hok
  · -- fail
    rename_i surface modified
    cases h
    refine hw.fail hl fun hmod => ?_
    subst hmod
    exact ⟨hok.1, by simpa using hok.2⟩
  · -- writeStamp
    rename_i surface outcome
    cases h
    refine hw.move hl rfl rfl (by simp) (fun t ht => ?_) (fun h => nomatch h)
      (fun t ht => nomatch ht) fun t ht => by simp at ht
    cases outcome with
    | written =>
      cases ht
      exact .inr hlm
    | failed => exact .inl ht
    | truncated => cases ht
  · -- lease
    rename_i surface skipped
    split at h
    · cases h
    · rename_i hfree
      cases h
      refine hw.move hl rfl rfl (by simp) hsame (fun _ => by simpa using hfree)
        (fun t ht => nomatch ht) fun t ht => ?_
      obtain ⟨rfl, rfl⟩ : surface = t ∧ skipped = true := by simpa using ht
      exact hw.skipped surface (.inr (.inl hlm))
  · cases h
  · -- leave
    rename_i hnot
    cases h
    have hidle : l.isBuilding = false := by
      cases l with
      | building surface b => exact absurd rfl (hnot surface b)
      | _ => rfl
    exact hw.move hl hidle rfl (by simp) hsame (fun h => nomatch h) (fun t ht => nomatch ht)
      fun t ht => by simp at ht
  · cases h

theorem StampInv.start (surfaces : List String) : StampInv (SharedEnv.start surfaces) := by
  have hcheck : ∀ m ∈ (SharedEnv.start surfaces).launchers, ∃ t, m = .check t := by
    intro m hm
    obtain ⟨t, -, rfl⟩ := List.mem_map.mp hm
    exact ⟨t, rfl⟩
  have hno : ∀ m : Launcher, (∀ t, m ≠ .check t) → m ∉ (SharedEnv.start surfaces).launchers := by
    intro m hne hm
    obtain ⟨t, rfl⟩ := hcheck m hm
    exact hne t rfl
  refine ⟨fun a b m m' hm _ hb _ => ?_, fun hlocked => ?_, fun t ht => ?_, fun _ t ht => ?_,
    fun t ht => absurd ht (hno _ (by simp)), fun t ht => ?_⟩
  · obtain ⟨t, rfl⟩ := hcheck m (List.mem_iff_getElem?.mpr ⟨a, hm⟩)
    cases hb
  · obtain ⟨m, hm, hb⟩ := locked_iff.mp hlocked
    obtain ⟨t, rfl⟩ := hcheck m hm
    cases hb
  · rcases ht with ht | ht
    · cases ht
    · exact absurd ht (hno _ (by simp))
  · rcases ht with ht | ht
    · cases ht
    · exact absurd ht (hno _ (by simp))
  · rcases ht with ht | ht | ht
    all_goals exact absurd ht (hno _ (by simp))

theorem StampInv.truthful (hw : StampInv w) : Truthful w where
  stamp surface hfree hstamp := by
    refine hw.modified (fun t ht => ?_) surface (.inl hstamp)
    exact Bool.eq_false_iff.mp hfree (locked_iff.mpr ⟨_, ht, rfl⟩)
  skipped surface hin := hw.skipped surface (.inr (.inr hin))

/-- In a run whose builds are undisturbed the stamp stays truthful. -/
theorem truthful_of_undisturbed {surfaces : List String} {as : List (Nat × EnvOp)}
    (hok : Meets Undisturbed envStep (SharedEnv.start surfaces) as)
    (hrun : run envStep (SharedEnv.start surfaces) as = some w) : Truthful w :=
  (run_inv_of_meets (fun _ _ _ hw hstep => hw.step hstep) (StampInv.start surfaces) hok
    hrun).truthful

end

/-- One launcher builds for its surface, another one enters without a build. -/
def sharedBuild : List (Nat × EnvOp) :=
  [(0, .test true), (0, .lock), (0, .modify false), (0, .complete), (0, .writeStamp .written),
    (0, .lease), (1, .test true), (1, .enter), (1, .lease)]

theorem truthful_sharedBuild :
    ∃ w, run envStep (SharedEnv.start ["a", "a"]) sharedBuild = some w ∧ Truthful w := by
  have hok : Meets Undisturbed envStep (SharedEnv.start ["a", "a"]) sharedBuild := by decide
  exact ⟨_, rfl, truthful_of_undisturbed hok rfl⟩

/-- A launcher finds its surface, another one builds for its own, and the first one enters. -/
def rebuiltMeanwhile : List (Nat × EnvOp) :=
  [(0, .test true), (0, .lock), (0, .modify false), (0, .complete), (0, .writeStamp .written),
    (1, .test true), (2, .test true), (2, .lock), (2, .modify false), (2, .complete),
    (1, .enter), (1, .lease)]

/-- The stamp can lie, and who skipped the build can be in the environment of another surface. -/
theorem rebuilt_meanwhile_lies :
    ¬ ∀ (surfaces : List String) (as : List (Nat × EnvOp)) (w : SharedEnv),
        run envStep (SharedEnv.start surfaces) as = some w → Truthful w := by
  intro h
  have htrue := h ["a", "a", "b"] rebuiltMeanwhile _ rfl
  have hskipped := htrue.skipped "a" (by decide)
  exact absurd hskipped (by decide)

end Dt.Launch
