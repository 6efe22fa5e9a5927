import Mathlib.Data.List.Basic
import Mathlib.Logic.Function.Basic

/-!
# Programs that ask

A program asks its environment, goes on with the answer, and ends with a value or an error. `run` takes a
program through one environment, which may answer every question by all that was asked before. `Ensures` is the
weakest precondition over all environments: every answer to every question leads to the post-condition.

The history has the newest event at its head. `Asks` bounds the questions of a program without its answers, `LastOf`
looks at the last event that counts, and `Throughout` says what was true of every question when it was asked.
-/

namespace Dt.Lib

/-- A question and its answer. -/
structure Exchange (Q : Type) (A : Q → Type) where
  query : Q
  answer : A query

inductive Prog (Q : Type) (A : Q → Type) (ε α : Type) where
  | done (r : Except ε α)
  | ask (q : Q) (k : A q → Prog Q A ε α)

namespace Prog

variable {Q : Type} {A : Q → Type} {ε ε' α β γ : Type}

/-- What becomes of a program when its end goes on. -/
def andThen (p : Prog Q A ε α) (f : Except ε α → Prog Q A ε' β) : Prog Q A ε' β :=
  match p with
  | done r => f r
  | ask q k => ask q fun a => (k a).andThen f

def bind (p : Prog Q A ε α) (f : α → Prog Q A ε β) : Prog Q A ε β :=
  p.andThen fun
    | .ok a => f a
    | .error e => done (.error e)

instance : Monad (Prog Q A ε) where
  pure a := done (.ok a)
  bind := bind

/-- One question. -/
def call (q : Q) : Prog Q A ε (A q) := ask q fun a => done (.ok a)

def raise (e : ε) : Prog Q A ε α := done (.error e)

def lift (x : Except ε α) : Prog Q A ε α := done x

/-- `try`: the end as a value. -/
def attempt (p : Prog Q A ε α) : Prog Q A ε (Except ε α) := p.andThen fun r => done (.ok r)

/-- `except`: an error goes to the handler. -/
def handle (p : Prog Q A ε α) (handler : ε → Prog Q A ε α) : Prog Q A ε α :=
  p.andThen fun
    | .ok a => done (.ok a)
    | .error e => handler e

/-- `finally`: the last part runs at either end, and its own error wins. -/
def ensuring (p : Prog Q A ε α) (last : Prog Q A ε Unit) : Prog Q A ε α :=
  p.andThen fun r => last.bind fun _ => done r

@[simp] theorem raise_bind {e : ε} {f : α → Prog Q A ε β} : (raise e : Prog Q A ε α) >>= f = raise e := rfl

@[simp] theorem lift_ok_bind {a : α} {f : α → Prog Q A ε β} : (lift (.ok a) : Prog Q A ε α) >>= f = f a := rfl

@[simp] theorem pure_bind {a : α} {f : α → Prog Q A ε β} : (pure a : Prog Q A ε α) >>= f = f a := rfl

/-- The history and the end of the run in which `answer` answers. -/
def run (answer : List (Exchange Q A) → (q : Q) → A q) : Prog Q A ε α → List (Exchange Q A) → List (Exchange Q A) × Except ε α
  | done r, h => (h, r)
  | ask q k, h => run answer (k (answer h q)) (⟨q, answer h q⟩ :: h)

/-- Whatever is answered, the run from a history ends as `post` says. -/
def Ensures : Prog Q A ε α → List (Exchange Q A) → (List (Exchange Q A) → Except ε α → Prop) → Prop
  | done r, h, post => post h r
  | ask q k, h, post => ∀ a, (k a).Ensures (⟨q, a⟩ :: h) post

variable {p : Prog Q A ε α} {h : List (Exchange Q A)} {post post' : List (Exchange Q A) → Except ε α → Prop}

@[simp] theorem ensures_done {r : Except ε α} : (done r : Prog Q A ε α).Ensures h post ↔ post h r := .rfl

@[simp] theorem ensures_pure {a : α} : (pure a : Prog Q A ε α).Ensures h post ↔ post h (.ok a) := .rfl

@[simp] theorem ensures_raise {e : ε} : (raise e : Prog Q A ε α).Ensures h post ↔ post h (.error e) := .rfl

@[simp] theorem ensures_lift {x : Except ε α} : (lift x : Prog Q A ε α).Ensures h post ↔ post h x := .rfl

@[simp] theorem ensures_ask {q : Q} {k : A q → Prog Q A ε α} :
    (ask q k).Ensures h post ↔ ∀ a, (k a).Ensures (⟨q, a⟩ :: h) post := .rfl

@[simp] theorem ensures_call {q : Q} {post : List (Exchange Q A) → Except ε (A q) → Prop} :
    (call q).Ensures h post ↔ ∀ a, post (⟨q, a⟩ :: h) (.ok a) := .rfl

theorem ensures_andThen {f : Except ε α → Prog Q A ε' β} {post : List (Exchange Q A) → Except ε' β → Prop} :
    (p.andThen f).Ensures h post ↔ p.Ensures h fun h' r => (f r).Ensures h' post := by
  induction p generalizing h with
  | done r => rfl
  | ask q k ih => exact forall_congr' fun a => ih a

@[simp] theorem ensures_bind {f : α → Prog Q A ε β} {post : List (Exchange Q A) → Except ε β → Prop} :
    (p >>= f).Ensures h post ↔
      p.Ensures h fun h' r => match r with
        | .ok a => (f a).Ensures h' post
        | .error e => post h' (.error e) := by
  refine ensures_andThen.trans (iff_of_eq ?_)
  congr
  funext h' r
  cases r <;> rfl

@[simp] theorem ensures_attempt {post : List (Exchange Q A) → Except ε (Except ε α) → Prop} :
    (p.attempt).Ensures h post ↔ p.Ensures h fun h' r => post h' (.ok r) := ensures_andThen

theorem ensures_handle {handler : ε → Prog Q A ε α} :
    (p.handle handler).Ensures h post ↔
      p.Ensures h fun h' r => match r with
        | .ok a => post h' (.ok a)
        | .error e => (handler e).Ensures h' post := by
  refine ensures_andThen.trans (iff_of_eq ?_)
  congr
  funext h' r
  cases r <;> rfl

theorem ensures_ensuring {last : Prog Q A ε Unit} :
    (p.ensuring last).Ensures h post ↔
      p.Ensures h fun h' r => last.Ensures h' fun h'' r' => match r' with
        | .ok _ => post h'' r
        | .error e => post h'' (.error e) := by
  refine ensures_andThen.trans (iff_of_eq ?_)
  congr
  funext h' r
  exact propext (ensures_andThen.trans (iff_of_eq (by congr; funext h'' r'; cases r' <;> rfl)))

theorem Ensures.mono (hp : p.Ensures h post) (hpost : ∀ h' r, post h' r → post' h' r) : p.Ensures h post' := by
  induction p generalizing h with
  | done r => exact hpost h r hp
  | ask q k ih => exact fun a => ih a (hp a)

theorem Ensures.and (hp : p.Ensures h post) (hp' : p.Ensures h post') :
    p.Ensures h fun h' r => post h' r ∧ post' h' r := by
  induction p generalizing h with
  | done r => exact ⟨hp, hp'⟩
  | ask q k ih => exact fun a => ih a (hp a) (hp' a)

theorem ensures_of_forall (hpost : ∀ h' r, post h' r) : p.Ensures h post := by
  induction p generalizing h with
  | done r => exact hpost h r
  | ask q k ih => exact fun a => ih a

/-- Wherever it starts, the program can only end with a value when `I` holds. -/
def Yields (p : Prog Q A ε α) (I : List (Exchange Q A) → α → Prop) : Prop :=
  ∀ h, p.Ensures h fun h' r => ∀ a, r = .ok a → I h' a

variable {I J : List (Exchange Q A) → α → Prop} {f : α → Prog Q A ε β} {K : List (Exchange Q A) → β → Prop}

theorem yields_raise (e : ε) : (raise e : Prog Q A ε α).Yields I := fun _ _ ha => nomatch ha

theorem Yields.mono (hp : p.Yields I) (h : ∀ past a, I past a → J past a) : p.Yields J := fun past =>
  (hp past).mono fun past' _ hI a ha => h past' a (hI a ha)

/-- Only the last part matters. -/
theorem yields_bind (hf : ∀ a, (f a).Yields K) : (p >>= f).Yields K := fun h =>
  ensures_bind.mpr <| ensures_of_forall fun h' r => by
    cases r with
    | ok a => exact hf a h'
    | error e => exact fun b hb => nomatch hb

/-- What the first part leaves is what the last one finds. -/
theorem Yields.bind (hp : p.Yields I)
    (hf : ∀ h a, I h a → (f a).Ensures h fun h' r => ∀ b, r = .ok b → K h' b) : (p >>= f).Yields K := fun h =>
  ensures_bind.mpr <| (hp h).mono fun h' r hI => by
    cases r with
    | ok a => exact hf h' a (hI a rfl)
    | error e => exact fun b hb => nomatch hb

theorem Yields.ensuring {last : Prog Q A ε Unit} (hp : p.Yields I)
    (hlast : ∀ h a, I h a → last.Ensures h fun h' _ => I h' a) : (p.ensuring last).Yields I := fun h =>
  ensures_ensuring.mpr <| (hp h).mono fun h' r hI => by
    cases r with
    | ok a =>
      refine (hlast h' a (hI a rfl)).mono fun h'' r' hI' => ?_
      cases r' with
      | ok u => rintro b ⟨⟩; exact hI'
      | error e => exact fun b hb => nomatch hb
    | error e =>
      refine ensures_of_forall fun h'' r' => ?_
      cases r' <;> exact fun b hb => nomatch hb

/-- Both ends of a program, behind `try`. -/
theorem Yields.attempt (hp : p.Yields I) : p.attempt.Yields fun past r => ∀ a, r = .ok a → I past a := fun h =>
  ensures_attempt.mpr <| (hp h).mono fun _ _ hr _ ha b hb => hr b ((Except.ok.inj ha).trans hb)

/-- What holds whatever is answered holds of each run. -/
theorem Ensures.run (answer : List (Exchange Q A) → (q : Q) → A q) (hp : p.Ensures h post) :
    post (p.run answer h).1 (p.run answer h).2 := by
  induction p generalizing h with
  | done r => exact hp
  | ask q k ih => exact ih _ (hp (answer h q))

/-- Events stay in the history. -/
theorem ensures_extends : p.Ensures h fun h' _ => h ⊆ h' := by
  induction p generalizing h with
  | done r => exact List.Subset.refl h
  | ask q k ih => exact fun a => (ih a).mono fun h' _ hsub => List.Subset.trans (List.subset_cons_self _ h) hsub

/-- What holds before the program holds at either end of it. -/
def Keeps (p : Prog Q A ε α) (I : List (Exchange Q A) → Prop) : Prop := ∀ h, I h → p.Ensures h fun h' _ => I h'

section

variable {I : List (Exchange Q A) → Prop} {f : α → Prog Q A ε β}

theorem keeps_done {r : Except ε α} : (done r : Prog Q A ε α).Keeps I := fun _ hI => hI

theorem Keeps.andThen {g : Except ε α → Prog Q A ε' β} (hp : p.Keeps I) (hg : ∀ r, (g r).Keeps I) :
    (p.andThen g).Keeps I := fun h hI =>
  ensures_andThen.mpr ((hp h hI).mono fun h' r hI' => hg r h' hI')

theorem Keeps.bind (hp : p.Keeps I) (hf : ∀ a, (f a).Keeps I) : (p >>= f).Keeps I :=
  Keeps.andThen hp fun r => by cases r with
    | ok a => exact hf a
    | error e => exact keeps_done

/-- The value of a lifted result is known to what follows. -/
theorem keeps_lift_bind {x : Except ε α} (hf : ∀ a, x = .ok a → (f a).Keeps I) : (lift x >>= f).Keeps I := by
  cases x with
  | ok a => exact hf a rfl
  | error e => exact keeps_done

/-- A stronger invariant at the beginning. -/
theorem Keeps.leads {J : List (Exchange Q A) → Prop} (hp : p.Keeps J) (hJ : ∀ h, J h → I h)
    (hf : ∀ a h, J h → (f a).Ensures h fun h' _ => I h') (h : List (Exchange Q A)) (hh : J h) :
    (p >>= f).Ensures h fun h' _ => I h' :=
  ensures_bind.mpr <| (hp h hh).mono fun h' r hr => by
    cases r with
    | ok a => exact hf a h' hr
    | error e => exact hJ h' hr

/-- An invariant carries a first part. -/
theorem Keeps.follow {K : List (Exchange Q A) → Except ε β → Prop} (hp : p.Keeps I) (hh : I h)
    (herror : ∀ h' e, I h' → K h' (.error e)) (hf : ∀ a h', I h' → (f a).Ensures h' K) : (p >>= f).Ensures h K :=
  ensures_bind.mpr <| (hp h hh).mono fun h' r hr => by
    cases r with
    | ok a => exact hf a h' hr
    | error e => exact herror h' e hr

/-- The errors of the first part need no more. -/
theorem Keeps.step {K : List (Exchange Q A) → Except ε β → Prop} (hp : p.Keeps I) (hh : I h)
    (herror : ∀ h' e, K h' (.error e)) (hf : ∀ a h', I h' → (f a).Ensures h' K) : (p >>= f).Ensures h K :=
  hp.follow hh (fun h' e _ => herror h' e) hf

/-- What the first part leaves, beside the invariant, is what the last one finds. -/
theorem Keeps.bind_yields {J : List (Exchange Q A) → α → Prop} (hp : p.Keeps I) (hyields : p.Yields J)
    (hf : ∀ a h, I h → J h a → (f a).Ensures h fun h' _ => I h') : (p >>= f).Keeps I := fun h hI =>
  ensures_bind.mpr <| ((hp h hI).and (hyields h)).mono fun h' r ⟨hI', hJ⟩ => by
    cases r with
    | ok a => exact hf a h' hI' (hJ a rfl)
    | error e => exact hI'

theorem Keeps.attempt (hp : p.Keeps I) : p.attempt.Keeps I := hp.andThen fun _ => keeps_done

theorem Keeps.handle {handler : ε → Prog Q A ε α} (hp : p.Keeps I) (hh : ∀ e, (handler e).Keeps I) :
    (p.handle handler).Keeps I :=
  hp.andThen fun r => by cases r with
    | ok a => exact keeps_done
    | error e => exact hh e

theorem Keeps.ensuring {last : Prog Q A ε Unit} (hp : p.Keeps I) (hlast : last.Keeps I) :
    (p.ensuring last).Keeps I :=
  hp.andThen fun _ => hlast.bind fun _ => keeps_done

end

/-! ## The questions of a program -/

/-- Every question that can be reached satisfies `P`. -/
def Asks (P : Q → Prop) : Prog Q A ε α → Prop
  | done _ => True
  | ask q k => P q ∧ ∀ a, (k a).Asks P

variable {P P' : Q → Prop}

@[simp] theorem asks_done {r : Except ε α} : (done r : Prog Q A ε α).Asks P := trivial

@[simp] theorem asks_pure {a : α} : (pure a : Prog Q A ε α).Asks P := trivial

@[simp] theorem asks_raise {e : ε} : (raise e : Prog Q A ε α).Asks P := trivial

@[simp] theorem asks_lift {x : Except ε α} : (lift x : Prog Q A ε α).Asks P := trivial

@[simp] theorem asks_call {q : Q} : (call q : Prog Q A ε (A q)).Asks P ↔ P q := and_iff_left fun _ => trivial

theorem Asks.mono (hp : p.Asks P) (hP : ∀ q, P q → P' q) : p.Asks P' := by
  induction p with
  | done r => trivial
  | ask q k ih => exact ⟨hP q hp.1, fun a => ih a (hp.2 a)⟩

theorem Asks.andThen {f : Except ε α → Prog Q A ε' β} (hp : p.Asks P) (hf : ∀ r, (f r).Asks P) :
    (p.andThen f).Asks P := by
  induction p with
  | done r => exact hf r
  | ask q k ih => exact ⟨hp.1, fun a => ih a (hp.2 a)⟩

theorem Asks.bind {f : α → Prog Q A ε β} (hp : p.Asks P) (hf : ∀ a, (f a).Asks P) : (p >>= f).Asks P :=
  Asks.andThen hp fun r => by cases r with
    | ok a => exact hf a
    | error e => trivial

theorem Asks.attempt (hp : p.Asks P) : p.attempt.Asks P := hp.andThen fun _ => trivial

theorem Asks.handle {handler : ε → Prog Q A ε α} (hp : p.Asks P) (hh : ∀ e, (handler e).Asks P) :
    (p.handle handler).Asks P :=
  hp.andThen fun r => by cases r with
    | ok a => trivial
    | error e => exact hh e

theorem Asks.ensuring {last : Prog Q A ε Unit} (hp : p.Asks P) (hlast : last.Asks P) : (p.ensuring last).Asks P :=
  hp.andThen fun _ => hlast.bind fun _ => trivial

/-- An invariant that every question of a program keeps. -/
theorem Asks.keeps {I : List (Exchange Q A) → Prop} (hp : p.Asks P)
    (hI : ∀ h q a, P q → I h → I (⟨q, a⟩ :: h)) : p.Keeps I := by
  intro h hh
  induction p generalizing h with
  | done r => exact hh
  | ask q k ih => exact fun a => ih a (hp.2 a) _ (hI h q a hp.1 hh)

/-- The questions of a run. -/
theorem Asks.run (hp : p.Asks P) (answer : List (Exchange Q A) → (q : Q) → A q) :
    ∀ e ∈ (p.run answer []).1, P e.query := by
  have hkeeps : p.Keeps fun past => ∀ e ∈ past, P e.query :=
    hp.keeps fun _ _ _ hq hpast => List.forall_mem_cons.mpr ⟨hq, hpast⟩
  exact (hkeeps [] (List.forall_mem_nil _)).run answer

end Prog

section

variable {Q : Type} {A : Q → Type}

/-- The newest event that counts is good. -/
def LastOf (counts : Q → Bool) (good : Exchange Q A → Prop) : List (Exchange Q A) → Prop
  | [] => False
  | e :: h => if counts e.query then good e else LastOf counts good h

/-- What was true of every question, after the events before it. -/
def Throughout (ok : List (Exchange Q A) → Q → Prop) : List (Exchange Q A) → Prop
  | [] => True
  | e :: h => ok h e.query ∧ Throughout ok h

variable {counts : Q → Bool} {good : Exchange Q A → Prop} {e : Exchange Q A} {h : List (Exchange Q A)}

@[simp] theorem lastOf_cons_of_counts (he : counts e.query = true) : LastOf counts good (e :: h) ↔ good e := by
  rw [LastOf, if_pos he]

@[simp] theorem lastOf_cons_of_not (he : counts e.query = false) : LastOf counts good (e :: h) ↔ LastOf counts good h := by
  rw [LastOf, he]
  exact Iff.rfl

/-- The newest event that counts, with the events after it. -/
theorem lastOf_iff : LastOf counts good h ↔
    ∃ later e earlier, h = later ++ e :: earlier ∧ (∀ e' ∈ later, counts e'.query = false) ∧
      counts e.query = true ∧ good e := by
  induction h with
  | nil => simp [LastOf]
  | cons e h ih =>
    cases he : counts e.query with
    | true =>
      rw [lastOf_cons_of_counts he]
      constructor
      · exact fun hgood => ⟨[], e, h, rfl, by simp, he, hgood⟩
      · rintro ⟨later, e', earlier, heq, hlater, -, hgood⟩
        cases later with
        | nil =>
          obtain ⟨rfl, -⟩ := List.cons.inj heq
          exact hgood
        | cons x later =>
          obtain ⟨rfl, -⟩ := List.cons.inj heq
          exact absurd he (by simp [hlater])
    | false =>
      rw [lastOf_cons_of_not he, ih]
      constructor
      · rintro ⟨later, e', earlier, rfl, hlater, hcounts, hgood⟩
        exact ⟨e :: later, e', earlier, rfl, List.forall_mem_cons.mpr ⟨he, hlater⟩, hcounts, hgood⟩
      · rintro ⟨later, e', earlier, heq, hlater, hcounts, hgood⟩
        cases later with
        | nil =>
          obtain ⟨rfl, -⟩ := List.cons.inj heq
          exact absurd hcounts (by simp [he])
        | cons x later =>
          obtain ⟨rfl, rfl⟩ := List.cons.inj heq
          exact ⟨later, e', earlier, rfl, fun y hy => hlater y (List.mem_cons_of_mem _ hy), hcounts, hgood⟩

/-- `Throughout` of every split of the history. -/
theorem throughout_iff {ok : List (Exchange Q A) → Q → Prop} : Throughout ok h ↔
    ∀ later e earlier, h = later ++ e :: earlier → ok earlier e.query := by
  induction h with
  | nil => simp [Throughout]
  | cons e h ih =>
    rw [Throughout, ih]
    constructor
    · rintro ⟨he, hrest⟩ later e' earlier heq
      cases later with
      | nil =>
        obtain ⟨rfl, rfl⟩ := List.cons.inj heq
        exact he
      | cons x later =>
        obtain ⟨rfl, rfl⟩ := List.cons.inj heq
        exact hrest later e' earlier rfl
    · intro hall
      exact ⟨hall [] e h rfl, fun later e' earlier heq => hall (e :: later) e' earlier (heq ▸ rfl)⟩

end

end Dt.Lib
