import Dt.Distribution.Verified

/-!
# Locks of a distribution

The lock of the destination object is held at every write, and the lock of the one upload into the site at every write
to its cache. Locks are taken in one order, from the destination over the site to the job of a peer, so executors do
not wait for each other in a circle; and none outlives the run.
-/

namespace Dt.Distribution

open Dt.Lib Dt.Topology

/-- The lock was taken and not given back. -/
def Holds (l : Lock) : History → Bool
  | [] => false
  | ⟨.lock l', .ok ()⟩ :: past => l' = l || Holds l past
  | ⟨.unlock l', _⟩ :: past => l' ≠ l && Holds l past
  | _ :: past => Holds l past

/-- What the locks are for, and how they are taken. -/
structure Disciplined (site digest destination : String) (past : History) (c : Call) : Prop where
  write : c.writes = true → Holds (.destination site digest destination) past = true
  upload : c.uploads = true → Holds (.site site digest) past = true
  order : ∀ l, c = .lock l → ∀ l', l'.level ≤ l.level → Holds l' past = false

/-- Exactly these locks are held, and the discipline was kept so far. -/
structure Held (site digest destination : String) (locks : List Lock) (past : History) : Prop where
  disciplined : Throughout (Disciplined site digest destination) past
  holds : ∀ l, Holds l past = decide (l ∈ locks)

/-- What may be asked while these locks are held. -/
structure Call.Allowed (site digest destination : String) (locks : List Lock) (c : Call) : Prop where
  work : c.isWork = true
  write : c.writes = true → Lock.destination site digest destination ∈ locks
  upload : c.uploads = true → Lock.site site digest ∈ locks

section

variable {site digest destination : String} {locks : List Lock} {past : History}

theorem holds_cons_work {c : Call} {a : Answer c} (hc : c.isWork = true) (l : Lock) :
    Holds l (⟨c, a⟩ :: past) = Holds l past := by
  cases c <;> first | exact absurd hc Bool.false_ne_true | rfl

/-- A program without locks of its own. -/
theorem keeps_held {α : Type} {p : M α} (hp : p.Asks (Call.Allowed site digest destination locks)) :
    p.Keeps (Held site digest destination locks) :=
  hp.keeps fun past c a hc hheld => by
    refine ⟨⟨⟨fun hw => ?_, fun hu => ?_, fun l hl => ?_⟩, hheld.disciplined⟩, fun l => ?_⟩
    · exact (hheld.holds _).trans (decide_eq_true (hc.write hw))
    · exact (hheld.holds _).trans (decide_eq_true (hc.upload hu))
    · exact absurd ((congrArg Call.isWork hl).symm.trans hc.work) Bool.false_ne_true
    · rw [holds_cons_work hc.work, hheld.holds]

/-- A lock below all that are held. -/
theorem withLock_held {α : Type} {l : Lock} {body : M α} (horder : ∀ l' ∈ locks, l.level < l'.level)
    (hbody : body.Keeps (Held site digest destination (l :: locks))) :
    (withLock l body).Keeps (Held site digest destination locks) := by
  intro past hheld
  have hnot : l ∉ locks := fun h => Nat.lt_irrefl _ (horder l h)
  have hfree : ∀ l', l'.level ≤ l.level → Holds l' past = false := fun l' hl' => by
    rw [hheld.holds, decide_eq_false_iff_not]
    exact fun hmem => Nat.not_lt.mpr hl' (horder l' hmem)
  have hasked : ∀ a, Throughout (Disciplined site digest destination) (⟨.lock l, a⟩ :: past) := fun a =>
    ⟨⟨(absurd · Bool.false_ne_true), (absurd · Bool.false_ne_true), by rintro _ ⟨⟩; exact hfree⟩, hheld.disciplined⟩
  simp only [withLock, Prog.ensures_bind, Prog.ensures_lift]
  rintro (e | u)
  · exact ⟨hasked _, hheld.holds⟩
  · have hinside : Held site digest destination (l :: locks) (⟨.lock l, .ok u⟩ :: past) := by
      refine ⟨hasked _, fun l' => ?_⟩
      rw [Holds, hheld.holds]
      simp [List.mem_cons, eq_comm]
    refine Prog.ensures_ensuring.mpr ((hbody _ hinside).mono fun past' r hend => ?_)
    rw [ensures_query]
    intro u'
    refine ⟨⟨⟨(absurd · Bool.false_ne_true), (absurd · Bool.false_ne_true), fun _ h => Call.noConfusion h⟩, hend.disciplined⟩,
      fun l' => ?_⟩
    rw [Holds, hend.holds]
    by_cases h : l = l'
    · subst h
      simp [hnot]
    · simp [h, Ne.symm h]

end

/-! ## The parts of a distribution -/

section

variable {h : Head} {digest : String} {destination : Node} {codeDir : String} {locks : List Lock} {site : Site}

theorem quiet_held {α : Type} {p : M α} {site destination : String} (hp : Quiet p) :
    p.Keeps (Held site digest destination locks) :=
  keeps_held (hp.mono fun c hc => by
    obtain ⟨hwork, hwrite⟩ := Bool.and_eq_true_iff.mp hc
    have hwrite : c.writes = false := by simpa using hwrite
    refine ⟨hwork, fun hw => absurd (hwrite.symm.trans hw) Bool.false_ne_true, fun hu => ?_⟩
    cases c <;> first | exact absurd hu Bool.false_ne_true | exact absurd hwrite Bool.false_ne_true.symm)

theorem held_guards : Guards h site digest destination (Held site.name digest destination.name) where
  quiet hc := quiet_held (asks_query.mpr hc)
  leg {_ c} hc hlock := keeps_held (asks_query.mpr (by
    refine ⟨?_, fun _ => hlock, fun hu => ?_⟩ <;> cases c <;>
      first | rfl | exact absurd hc Bool.false_ne_true | exact absurd hu Bool.false_ne_true))
  lock horder hbody := withLock_held horder hbody
  direct _ _ hlock := keeps_held (asks_query.mpr ⟨rfl, fun _ => hlock, (absurd · Bool.false_ne_true)⟩)
  populate cache hlock hsite := populateCache_keeps cache fun c hc => by
    rcases hc with hc | hc
    · exact quiet_held (asks_query.mpr hc)
    · refine keeps_held (asks_query.mpr ⟨?_, fun _ => hlock, fun _ => hsite⟩)
      cases c <;> first | rfl | exact absurd hc Bool.false_ne_true

end

theorem held_nil {site digest destination : String} : Held site digest destination [] [] :=
  ⟨trivial, fun _ => rfl⟩

/-- Whatever is answered, at every moment of a distribution: the destination is locked at every write and the site at
every write to its cache, a lock is asked for only while all held ones are above it, and at either end of the run no
lock is held. -/
theorem ensure_disciplined (h : Head) (digest : String) (destination : Node) (codeDir : String)
    (answer : History → (c : Call) → Answer c) :
    (∀ l, Holds l ((ensure h digest destination codeDir).run answer []).1 = false) ∧
      ∀ later e earlier, ((ensure h digest destination codeDir).run answer []).1 = later ++ e :: earlier →
        (e.query.writes = true → ∃ site, h.topology.siteFor destination = .ok (some site) ∧
          Holds (.destination site.name digest destination.name) earlier = true ∧
          (e.query.uploads = true → Holds (.site site.name digest) earlier = true)) ∧
        ∀ l, e.query = .lock l → ∀ l', l'.level ≤ l.level → Holds l' earlier = false := by
  by_cases hsite : ∃ site, h.topology.siteFor destination = .ok (some site)
  · obtain ⟨site, hsite⟩ := hsite
    have hkeeps : (ensure h digest destination codeDir).Keeps (Held site.name digest destination.name []) :=
      ensure_keeps held_guards hsite
    have hend := (hkeeps [] held_nil).run answer
    refine ⟨fun l => by rw [hend.holds]; rfl, fun later e earlier heq => ?_⟩
    have he := throughout_iff.mp hend.disciplined later e earlier heq
    exact ⟨fun hw => ⟨site, hsite, he.write hw, he.upload⟩, he.order⟩
  · have hquiet : Quiet (ensure h digest destination codeDir) := ensure_quiet fun site hs => hsite ⟨site, hs⟩
    have hkeeps : (ensure h digest destination codeDir).Keeps (Held "" digest "" []) := quiet_held hquiet
    have hend := (hkeeps [] held_nil).run answer
    refine ⟨fun l => by rw [hend.holds]; rfl, fun later e earlier heq => ⟨fun hw => ?_, ?_⟩⟩
    · have hnone := hquiet.run answer e (heq ▸ List.mem_append_right _ List.mem_cons_self)
      simp [Call.isQuiet, hw] at hnone
    · exact (throughout_iff.mp hend.disciplined later e earlier heq).order

end Dt.Distribution
