import Dt.Lib.Fallible

/-!
# Pages by offset

A list that does not change is read page by page: a page is what stands from an offset on, as much of it as the
request and the server allow, and it names the offset of the next one. Where every page that has something to show
shows something, any requests list the whole, in its order and once.
-/

namespace Dt.Lib

variable {ε α ℓ : Type}

/-- The items of some requests, each at the offset that the page before it named. -/
def followOffsets (page : ℓ → Nat → Except ε (List α × Option Nat)) :
    List ℓ → Nat → Except ε (List α × Option Nat)
  | [], offset => .ok ([], some offset)
  | limit :: limits, offset =>
    page limit offset >>= fun r =>
      match r.2 with
      | none => .ok (r.1, none)
      | some next => (followOffsets page limits next).map fun rest => (r.1 ++ rest.1, rest.2)

/-- A page of a list: from the offset on, with at least one item while there are any. -/
def IsPage (all : List α) (offset : Nat) (r : List α × Option Nat) : Prop :=
  ∃ k, r = ((all.drop offset).take k, if offset + k < all.length then some (offset + k) else none) ∧
    offset + k ≤ all.length ∧ (offset < all.length → 0 < k)

/-- The requests list the items from the first offset on, and they end once there are as many as items. -/
theorem followOffsets_spec {page : ℓ → Nat → Except ε (List α × Option Nat)} {all : List α} {limits : List ℓ}
    (hpage : ∀ limit ∈ limits, ∀ offset ≤ all.length, ∃ r, page limit offset = .ok r ∧ IsPage all offset r)
    {offset : Nat} (hoffset : offset ≤ all.length) :
    ∃ k next, followOffsets page limits offset = .ok ((all.drop offset).take k, next) ∧
      offset + k ≤ all.length ∧ (next = none → offset + k = all.length) ∧
      (next ≠ none → next = some (offset + k) ∧ limits.length ≤ k) := by
  induction limits generalizing offset with
  | nil => exact ⟨0, some offset, rfl, hoffset, fun h => absurd h (Option.some_ne_none offset), fun _ => ⟨rfl, Nat.le_refl 0⟩⟩
  | cons limit limits ih =>
    obtain ⟨r, hr, k, rfl, hle, hpos⟩ := hpage limit List.mem_cons_self offset hoffset
    rw [followOffsets, hr]
    by_cases hmore : offset + k < all.length
    · obtain ⟨m, next, hrest, hend, hnone, hsome⟩ :=
        ih (fun l hl => hpage l (List.mem_cons_of_mem limit hl)) hle
      have hk := hpos (Nat.lt_of_le_of_lt (Nat.le_add_right offset k) hmore)
      have hitems : (all.drop offset).take k ++ (all.drop (offset + k)).take m =
          (all.drop offset).take (k + m) := by
        rw [List.take_add, List.drop_drop]
      refine ⟨k + m, next, ?_, by omega, fun h => ?_, fun h => ?_⟩
      · simp only [bind, Except.bind, if_pos hmore, hrest, Except.map, hitems]
      · have := hnone h
        omega
      · obtain ⟨hnext, hlen⟩ := hsome h
        refine ⟨by rw [hnext, Nat.add_assoc], ?_⟩
        rw [List.length_cons]
        omega
    · refine ⟨k, none, ?_, hle, fun _ => by omega, fun h => absurd rfl h⟩
      simp only [bind, Except.bind, if_neg hmore]

/-- Requests without end list everything. -/
theorem followOffsets_all {page : ℓ → Nat → Except ε (List α × Option Nat)} {all : List α} {limits : List ℓ}
    (hpage : ∀ limit ∈ limits, ∀ offset ≤ all.length, ∃ r, page limit offset = .ok r ∧ IsPage all offset r)
    (hmany : all.length < limits.length) : followOffsets page limits 0 = .ok (all, none) := by
  obtain ⟨k, next, hrun, hle, hnone, hsome⟩ := followOffsets_spec hpage (Nat.zero_le all.length)
  rw [Nat.zero_add] at hle hnone
  cases next with
  | none => rw [hrun, List.drop_zero, List.take_of_length_le (Nat.le_of_eq (hnone rfl).symm)]
  | some offset =>
    have := (hsome (Option.some_ne_none offset)).2
    omega

end Dt.Lib
