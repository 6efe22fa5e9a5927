import Mathlib.Data.Option.Basic

/-!
# One file that is replaced as a whole

A file is written beside its place, synced, renamed over the old version, and the directory is
synced last. `Slot` keeps the version a reader sees and the version a host crash would leave; they
differ between the rename and the sync of the directory. A write that fails before the rename
leaves both, one that fails after it only changes what is seen.
-/

namespace Dt.Lib

variable {α : Type*}

/-- How far a write gets. -/
inductive Write where
  | lost | unsynced | synced
  deriving DecidableEq, Repr

structure Slot (α : Type*) where
  visible : Option α := none
  durable : Option α := none
  deriving DecidableEq, Repr

namespace Slot

def put (k : Slot α) (w : Write) (a : α) : Slot α :=
  match w with
  | .lost => k
  | .unsynced => { k with visible := some a }
  | .synced => ⟨some a, some a⟩

/-- The host goes down and comes back. -/
def crash (k : Slot α) : Slot α := { k with visible := k.durable }

/-- `P` holds of every version. -/
structure All (P : α → Prop) (k : Slot α) : Prop where
  visible : ∀ a, k.visible = some a → P a
  durable : ∀ a, k.durable = some a → P a

variable {P Q : α → Prop} {k : Slot α}

theorem All.put (h : k.All P) (w : Write) {a : α} (ha : w ≠ .lost → P a) : (k.put w a).All P := by
  cases w with
  | lost => exact h
  | unsynced => exact ⟨fun b hb => Option.some.inj hb ▸ ha (by decide), h.durable⟩
  | synced =>
    exact ⟨fun b hb => Option.some.inj hb ▸ ha (by decide),
      fun b hb => Option.some.inj hb ▸ ha (by decide)⟩

theorem All.crash (h : k.All P) : k.crash.All P := ⟨h.durable, h.durable⟩

theorem All.mono (h : k.All P) (hPQ : ∀ a, P a → Q a) : k.All Q :=
  ⟨fun a ha => hPQ a (h.visible a ha), fun a ha => hPQ a (h.durable a ha)⟩

/-! ## Versions that follow an order -/

variable {R : α → α → Prop} {k' k'' : Slot α}

/-- What a crash would leave is below what is seen. -/
def Agree (R : α → α → Prop) (k : Slot α) : Prop :=
  ∀ d, k.durable = some d → ∃ v, k.visible = some v ∧ R d v

/-- Both versions stay and go up. -/
structure Evolves (R : α → α → Prop) (k k' : Slot α) : Prop where
  visible : ∀ v, k.visible = some v → ∃ v', k'.visible = some v' ∧ R v v'
  durable : ∀ d, k.durable = some d → ∃ d', k'.durable = some d' ∧ R d d'

theorem Evolves.refl (hrefl : ∀ a, R a a) (k : Slot α) : Evolves R k k :=
  ⟨fun v hv => ⟨v, hv, hrefl v⟩, fun d hd => ⟨d, hd, hrefl d⟩⟩

theorem Evolves.trans (htrans : ∀ a b c, R a b → R b c → R a c) (h : Evolves R k k')
    (h' : Evolves R k' k'') : Evolves R k k'' where
  visible v hv := by
    obtain ⟨v', hv', he⟩ := h.visible v hv
    obtain ⟨v'', hv'', he'⟩ := h'.visible v' hv'
    exact ⟨v'', hv'', htrans _ _ _ he he'⟩
  durable d hd := by
    obtain ⟨d', hd', he⟩ := h.durable d hd
    obtain ⟨d'', hd'', he'⟩ := h'.durable d' hd'
    exact ⟨d'', hd'', htrans _ _ _ he he'⟩

/-- A version above the visible one may be written. -/
theorem Agree.put (hrefl : ∀ a, R a a) (htrans : ∀ a b c, R a b → R b c → R a c)
    (h : Agree R k) (w : Write) {a : α} (ha : ∀ v, k.visible = some v → R v a) :
    Agree R (k.put w a) ∧ Evolves R k (k.put w a) := by
  have hd : ∀ d, k.durable = some d → R d a := by
    intro d hd
    obtain ⟨v, hv, he⟩ := h d hd
    exact htrans _ _ _ he (ha v hv)
  cases w with
  | lost => exact ⟨h, .refl hrefl k⟩
  | unsynced =>
    exact ⟨fun d hdur => ⟨a, rfl, hd d hdur⟩,
      fun v hv => ⟨a, rfl, ha v hv⟩, fun d hdur => ⟨d, hdur, hrefl d⟩⟩
  | synced =>
    exact ⟨fun d hdur => ⟨a, rfl, Option.some.inj hdur ▸ hrefl a⟩,
      fun v hv => ⟨a, rfl, ha v hv⟩, fun d hdur => ⟨a, rfl, hd d hdur⟩⟩

theorem Agree.crash (hrefl : ∀ a, R a a) (k : Slot α) : Agree R k.crash :=
  fun d hd => ⟨d, hd, hrefl d⟩

end Slot

end Dt.Lib
