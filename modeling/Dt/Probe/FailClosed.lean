import Mathlib
import Dt.Probe.Scripts

/-!
# Cards that look free

What a probe reads is data of a node: the names of its processes, the users, and the first line of
a lease file. A card that is reported free should be free for the rows the node printed, whatever
these texts are and whatever part of the output was lost. The parser meets this while the output is
whole up to the second separator and no text reads as a separator, as the end of a row or as the end
of a field.
-/

namespace Dt.Probe

open Dt.Lib

/-- `APP_ERROR` -/
def appError : Text := "---DT-APP-ERROR---".toList

/-- The cards of `probe_node`. -/
def probeNodeGpus (text : Text) (threshold : Int) (configured : List Text) : List Gpu :=
  let gpus := (parseProbeInventory text threshold configured).1
  if appError <:+: text then gpus.map fun g => { g with free := false } else gpus

/-! ## The bounded capture -/

/-- `[dt: n output bytes omitted]` -/
def omittedMarker (n : Nat) : Text :=
  "\n[dt: ".toList ++ numText n ++ " output bytes omitted]\n".toList

/-- What is read of a broken character. -/
def Replacements (t : Text) : Prop := ∀ c ∈ t, c = Char.ofNat 0xFFFD

/-- What `_BoundedByteCapture.render` makes of an output: the output, or what was kept of its
beginning and of its end. `kept` characters are kept of the beginning. -/
inductive Excerpt (full : Text) : Nat → Text → Prop
  | whole : Excerpt full full.length full
  | cut {head tail broken broken' : Text} (omitted : Nat) (hhead : head <+: full)
      (htail : tail <:+ full) (hbroken : Replacements broken) (hbroken' : Replacements broken') :
      Excerpt full head.length (head ++ broken ++ omittedMarker omitted ++ broken' ++ tail)

theorem Excerpt.prefix_of_le {full text a : Text} {kept : Nat} (h : Excerpt full kept text)
    (ha : a <+: full) (hle : a.length ≤ kept) : a <+: text := by
  cases h with
  | whole => exact ha
  | @cut head tail broken broken' omitted hhead htail hbroken hbroken' =>
    have hah : a <+: head := List.prefix_of_prefix_length_le ha hhead hle
    refine hah.trans ?_
    rw [List.append_assoc, List.append_assoc, List.append_assoc]
    exact List.prefix_append head _

/-! ## The complete listing -/

/-- A card of the listing is free when its fields are read as data. -/
structure FreeByData (threshold : Int) (configured : List Text) (cards : List GpuLine)
    (apps : List AppLine) (g : Gpu) (l : GpuLine) : Prop where
  mem : l ∈ cards
  index : pyInt (strip l.idx) = some g.index
  uuid : strip l.uuid = g.uuid
  unleased : l.leased = false
  residents : ∀ row ∈ processesOn g.uuid (apps.map fun a => a.fields.map strip),
    isResident (residentProcessNames configured) row = true
  memory : ∃ used, pyInt (strip l.used) = some used ∧
    max 0 (used - residentMib (processesOn g.uuid (apps.map fun a => a.fields.map strip))) <
      threshold

/-- A card that is read from a printed row. -/
theorem readGpu_fields {l : GpuLine} {card : Gpu} (h : readGpu (l.fields.map strip) = some card) :
    pyInt (strip l.idx) = some card.index ∧ strip l.uuid = card.uuid ∧
      pyInt (strip l.used) = some card.memUsed ∧ card.leased = l.leased := by
  have hbit : decide (strip l.leaseBit = ['1']) = l.leased := by
    unfold GpuLine.leaseBit
    cases l.leased with
    | false => decide
    | true => decide
  simp only [GpuLine.fields, List.cons_append, List.nil_append, List.map_cons, List.map_nil,
    readGpu, leaseFields, hbit, Option.bind_eq_bind] at h
  rw [if_neg (by simp)] at h
  simp only [Option.bind_eq_some_iff] at h
  obtain ⟨index, hindex, used, hused, total, -, util, -, h⟩ := h
  split at h
  · cases h
  · cases h
    exact ⟨hindex, rfl, hused, rfl⟩

section

variable {threshold : Int} {configured : List Text} {cards : List GpuLine} {apps : List AppLine}
  {g : Gpu}

/-- A card that the parser calls free is free for the rows. -/
theorem freeByData_of_inventory
    (hg : g ∈ (inventory threshold configured (cards.map fun l => l.fields.map strip)
      (apps.map fun l => l.fields.map strip)).1) (hfree : g.free = true) :
    ∃ l, FreeByData threshold configured cards apps g l := by
  obtain ⟨parts, hparts, card, hread, huuid, hindex, hcard⟩ := mem_inventory hg
  obtain ⟨l, hl, rfl⟩ := List.mem_map.mp hparts
  obtain ⟨hidx, hid, hused, hleased⟩ := readGpu_fields hread
  rw [hfree, freeCard, eq_comm, Bool.and_eq_true, Bool.and_eq_true, List.all_eq_true,
    decide_eq_true_eq, Bool.not_eq_true', hleased, ← huuid] at hcard
  obtain ⟨⟨hres, hmem⟩, hlease⟩ := hcard
  exact ⟨l, hl, hindex ▸ hidx, huuid ▸ hid, hlease, hres, card.memUsed, hused, hmem⟩

theorem mem_probeNodeGpus_free {text : Text} (hg : g ∈ probeNodeGpus text threshold configured)
    (hfree : g.free = true) : g ∈ (parseProbeInventory text threshold configured).1 := by
  unfold probeNodeGpus at hg
  dsimp only at hg
  split at hg
  · obtain ⟨g', -, rfl⟩ := List.mem_map.mp hg
    cases hfree
  · exact hg

/-- While the output is kept up to the second separator, and the rows are plain, a card is reported
free only if it is free. -/
theorem free_of_kept (hcards : ∀ l ∈ cards, l.Plain) (happs : ∀ l ∈ apps, l.Plain)
    {system text : Text} {kept : Nat} (hex : Excerpt (probeText cards apps system) kept text)
    (hkept : (sections cards apps).length ≤ kept)
    (hg : g ∈ probeNodeGpus text threshold configured) (hfree : g.free = true) :
    ∃ l, FreeByData threshold configured cards apps g l := by
  obtain ⟨rest, rfl⟩ := hex.prefix_of_le (List.prefix_append _ _) hkept
  have hparsed := mem_probeNodeGpus_free hg hfree
  rw [parse_sections hcards happs] at hparsed
  exact freeByData_of_inventory hparsed hfree

end

/-- The row of an idle card. -/
def idleLine : GpuLine := ⟨['0'], ['a'], ['0'], ['9'], ['0'], ['0'], false, []⟩

theorem idleLine_plain : idleLine.Plain := by
  refine ⟨by decide, fun f hf => ?_, by decide, by decide⟩
  simp only [idleLine, List.mem_cons, List.not_mem_nil, or_false] at hf
  rcases hf with rfl | rfl | rfl | rfl | rfl | rfl
  all_goals exact ⟨by decide, by decide, by decide⟩

theorem free_of_kept_idle :
    ∃ l, FreeByData 500 [] [idleLine] []
      { index := 0, uuid := ['a'], memUsed := 0, memTotal := 9, util := 0, leased := false,
        leaseOwner := none, temperature := some 0, free := true } l := by
  have hex : Excerpt (probeText [idleLine] [] []) _ _ := .whole
  have hcards : ∀ l ∈ [idleLine], l.Plain := by
    intro l hl
    rw [List.mem_singleton.mp hl]
    exact idleLine_plain
  exact free_of_kept hcards (fun l hl => nomatch hl) hex (by decide) (by decide +kernel) rfl

/-- Two cards with one process each; the name of the first process is the separator. -/
def markedNode : NodeState where
  devices := [⟨0, "GPU-a".toList, 100, 900, 0, 30⟩, ⟨1, "GPU-b".toList, 100, 900, 0, 30⟩]
  apps := [⟨"GPU-a".toList, some 7, some 100⟩, ⟨"GPU-b".toList, some 8, some 100⟩]
  processes := [⟨7, "u".toList, "---DT-SYS---".toList⟩, ⟨8, "v".toList, "train".toList⟩]
  lock := fun _ => .absent
  flock := true
  owner := fun _ => []

/-- The card that the parser calls free. -/
def hiddenCard : Gpu :=
  { index := 1, uuid := "GPU-b".toList, memUsed := 100, memTotal := 900, util := 0, leased := false,
    leaseOwner := none, temperature := some 30, free := true }

/-- The separator in the name of a process hides the processes after it. -/
theorem name_hides_processes :
    ¬ ∀ (s : NodeState) (system text : Text) (kept : Nat) (threshold : Int) (configured : List Text)
        (g : Gpu), Excerpt (probeText s.gpuLines s.appLines system) kept text →
        g ∈ probeNodeGpus text threshold configured → g.free = true →
        ∃ l, FreeByData threshold configured s.gpuLines s.appLines g l := by
  intro h
  have hparsed : hiddenCard ∈
      probeNodeGpus (probeText markedNode.gpuLines markedNode.appLines []) 500 [] := by
    decide +kernel
  have hbusy : ["GPU-b".toList, ['8'], ['v'], "train".toList, "100".toList] ∈
      processesOn hiddenCard.uuid (markedNode.appLines.map fun a => a.fields.map strip) := by
    decide +kernel
  obtain ⟨l, hl⟩ := h markedNode [] _ _ 500 [] hiddenCard .whole hparsed rfl
  have hresident : isResident (residentProcessNames [])
      ["GPU-b".toList, ['8'], ['v'], "train".toList, "100".toList] = false := by decide +kernel
  rw [hl.residents _ hbusy] at hresident
  cases hresident

end Dt.Probe
