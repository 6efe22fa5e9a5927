import Mathlib.Data.List.Basic
import Mathlib.Tactic.Ring

/-!
# Length-prefixed records

Big-endian numbers of a fixed width, byte strings behind their length, and lists of records. An
encoding is self-delimiting on a set when what follows an encoded value never changes which value
is read; a list of such encodings determines the list. So is a text that ends at a mark.
-/

namespace Dt.Lib

/-- `n.to_bytes(width, "big")`, for `n` below `256 ^ width`. -/
def bigEndian : Nat → Nat → List UInt8
  | 0, _ => []
  | width + 1, n => bigEndian width (n / 256) ++ [UInt8.ofNat (n % 256)]

@[simp] theorem length_bigEndian (width n : Nat) : (bigEndian width n).length = width := by
  induction width generalizing n with
  | zero => rfl
  | succ width ih => simp [bigEndian, ih]

theorem bigEndian_inj {width : Nat} : ∀ {n m : Nat}, n < 256 ^ width → m < 256 ^ width →
    bigEndian width n = bigEndian width m → n = m := by
  induction width with
  | zero =>
    intro n m hn hm _
    simp only [pow_zero, Nat.lt_one_iff] at hn hm
    rw [hn, hm]
  | succ width ih =>
    intro n m hn hm h
    rw [pow_succ] at hn hm
    simp only [bigEndian] at h
    obtain ⟨hhigh, hlow⟩ := List.append_inj h (by simp)
    have hdiv : n / 256 = m / 256 := ih (by omega) (by omega) hhigh
    have hmod : n % 256 = m % 256 := by
      have hbyte := congrArg UInt8.toNat (List.cons.inj hlow).1
      simpa [UInt8.toNat_ofNat'] using hbyte
    omega

/-- A byte string behind its length. -/
def sized (width : Nat) (bytes : List UInt8) : List UInt8 := bigEndian width bytes.length ++ bytes

theorem sized_inj {width : Nat} {x y u v : List UInt8} (hx : x.length < 256 ^ width)
    (hy : y.length < 256 ^ width) (h : sized width x ++ u = sized width y ++ v) :
    x = y ∧ u = v := by
  unfold sized at h
  rw [List.append_assoc, List.append_assoc] at h
  obtain ⟨hlength, hrest⟩ := List.append_inj h (by simp)
  exact List.append_inj hrest (bigEndian_inj hx hy hlength)

variable {α β : Type*}

/-- A text ends where the first mark stands. -/
theorem marked_inj {α : Type*} {mark : α} {u v x y : List α} (hu : mark ∉ u) (hv : mark ∉ v)
    (h : u ++ mark :: x = v ++ mark :: y) : u = v ∧ x = y := by
  induction u generalizing v with
  | nil =>
    cases v with
    | nil => exact ⟨rfl, (List.cons.inj h).2⟩
    | cons b v => exact absurd ((List.cons.inj h).1 ▸ List.mem_cons_self) hv
  | cons a u ih =>
    cases v with
    | nil => exact absurd ((List.cons.inj h).1 ▸ List.mem_cons_self) hu
    | cons b v =>
      obtain ⟨rfl, hrest⟩ := List.cons.inj h
      obtain ⟨rfl, rfl⟩ := ih (fun hm => hu (List.mem_cons_of_mem _ hm))
        (fun hm => hv (List.mem_cons_of_mem _ hm)) hrest
      exact ⟨rfl, rfl⟩

/-- What is read in front of any continuation is the value that was written there. -/
def SelfDelimiting (P : α → Prop) (enc : α → List β) : Prop :=
  ∀ a b, P a → P b → ∀ u v, enc a ++ u = enc b ++ v → a = b ∧ u = v

theorem SelfDelimiting.flatMap {P : α → Prop} {enc : α → List β} (h : SelfDelimiting P enc)
    (hne : ∀ a, enc a ≠ []) : ∀ {as bs : List α}, (∀ a ∈ as, P a) → (∀ b ∈ bs, P b) →
      as.flatMap enc = bs.flatMap enc → as = bs
  | [], [], _, _, _ => rfl
  | [], b :: bs, _, _, heq => by
    rw [List.flatMap_nil, List.flatMap_cons] at heq
    exact absurd (List.append_eq_nil_iff.mp heq.symm).1 (hne b)
  | a :: as, [], _, _, heq => by
    rw [List.flatMap_nil, List.flatMap_cons] at heq
    exact absurd (List.append_eq_nil_iff.mp heq).1 (hne a)
  | a :: as, b :: bs, has, hbs, heq => by
    rw [List.flatMap_cons, List.flatMap_cons] at heq
    obtain ⟨rfl, hrest⟩ := h a b (has a List.mem_cons_self) (hbs b List.mem_cons_self) _ _ heq
    rw [h.flatMap hne (fun x hx => has x (List.mem_cons_of_mem _ hx))
      (fun x hx => hbs x (List.mem_cons_of_mem _ hx)) hrest]

end Dt.Lib
