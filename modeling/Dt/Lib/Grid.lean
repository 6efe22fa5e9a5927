import Mathlib.Data.List.Perm.Basic
import Mathlib.Data.List.Forall2

/-!
# Grids

The grid of some axes has every choice of one value for each axis. Reordering the values of the axes
reorders the grid.
-/

namespace Dt.Lib

variable {κ α : Type}

/-- The choices, the last axis varying fastest. -/
def grid : List (κ × List α) → List (List (κ × α))
  | [] => [[]]
  | (key, values) :: axes => values.flatMap fun value => (grid axes).map ((key, value) :: ·)

theorem mem_grid_cons {key : κ} {values : List α} {axes : List (κ × List α)}
    {choice : List (κ × α)} : choice ∈ grid ((key, values) :: axes) ↔
      ∃ value ∈ values, ∃ rest ∈ grid axes, choice = (key, value) :: rest := by
  rw [grid, List.mem_flatMap]
  constructor
  · rintro ⟨value, hvalue, hchoice⟩
    obtain ⟨rest, hrest, rfl⟩ := List.mem_map.mp hchoice
    exact ⟨value, hvalue, rest, hrest, rfl⟩
  · rintro ⟨value, hvalue, rest, hrest, rfl⟩
    exact ⟨value, hvalue, List.mem_map_of_mem hrest⟩

/-- A choice names the axes in their order and takes a value of each. -/
theorem mem_grid {axes : List (κ × List α)} (hkeys : (axes.map Prod.fst).Nodup)
    {choice : List (κ × α)} : choice ∈ grid axes ↔ choice.map Prod.fst = axes.map Prod.fst ∧
      ∀ key value values, (key, value) ∈ choice → (key, values) ∈ axes → value ∈ values := by
  induction axes generalizing choice with
  | nil => simp [grid]
  | cons axis axes ih =>
    obtain ⟨key, values⟩ := axis
    obtain ⟨hkey, hrest⟩ := List.nodup_cons.mp hkeys
    have hnew : ∀ vs : List α, (key, vs) ∉ axes := fun vs hmem =>
      hkey (List.mem_map.mpr ⟨_, hmem, rfl⟩)
    rw [mem_grid_cons]
    constructor
    · rintro ⟨value, hvalue, rest, hchoice, rfl⟩
      obtain ⟨hnames, hvalues⟩ := (ih hrest).mp hchoice
      refine ⟨by rw [List.map_cons, List.map_cons, hnames], fun name v vs hv hvs => ?_⟩
      rcases List.mem_cons.mp hv with hfirst | hlater <;>
        rcases List.mem_cons.mp hvs with haxis | haxes
      · obtain ⟨rfl, rfl⟩ := Prod.mk.inj hfirst
        obtain ⟨-, rfl⟩ := Prod.mk.inj haxis
        exact hvalue
      · obtain ⟨rfl, -⟩ := Prod.mk.inj hfirst
        exact absurd haxes (hnew vs)
      · obtain ⟨rfl, -⟩ := Prod.mk.inj haxis
        refine absurd ?_ hkey
        rw [← hnames]
        exact List.mem_map.mpr ⟨_, hlater, rfl⟩
      · exact hvalues name v vs hlater haxes
    · rintro ⟨hnames, hvalues⟩
      cases choice with
      | nil => cases hnames
      | cons p rest =>
        obtain ⟨name, value⟩ := p
        rw [List.map_cons, List.map_cons] at hnames
        obtain ⟨rfl, htail⟩ := List.cons.inj hnames
        refine ⟨value, hvalues name value values List.mem_cons_self List.mem_cons_self, rest, ?_, rfl⟩
        refine (ih hrest).mpr ⟨htail, fun n v vs hv hvs => ?_⟩
        exact hvalues n v vs (List.mem_cons_of_mem _ hv) (List.mem_cons_of_mem _ hvs)

theorem grid_perm {axes axes' : List (κ × List α)}
    (h : List.Forall₂ (fun a b => a.1 = b.1 ∧ a.2.Perm b.2) axes axes') :
    (grid axes).Perm (grid axes') := by
  induction h with
  | nil => exact List.Perm.refl _
  | @cons a b as bs hab _ ih =>
    obtain ⟨key, values⟩ := a
    obtain ⟨key', values'⟩ := b
    obtain ⟨hkey, hvalues⟩ := hab
    obtain rfl : key = key' := hkey
    rw [grid, grid]
    exact (hvalues.flatMap_right _).trans
      (List.Perm.flatMap_left _ fun value _ => ih.map ((key, value) :: ·))

end Dt.Lib
