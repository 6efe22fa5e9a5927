import Mathlib
import Dt.Launch.PrivateEnv

/-!
# Private environments end to end

What `encode` accepts is described without its loops: `Fits` says which variables may be written, in
any order. From it follow the round trip through `decode`, what the launcher loads and what the
wrapper finds in the runtime file; and a text without UTF-8 is the only way out of `encode` that is
neither an envelope nor a rejection.
-/

namespace Dt.Launch

open Dt.Lib

/-! ## Python texts -/

theorem scalar_injective : Function.Injective PyChar.scalar := fun _ _ h => PyChar.scalar.inj h

theorem pyStr_injective : Function.Injective pyStr := List.map_injective_iff.mpr scalar_injective

theorem pyPair_injective : Function.Injective pyPair := by
  intro p q h
  obtain ⟨h₁, h₂⟩ := Prod.mk.inj h
  exact Prod.ext (pyStr_injective h₁) (pyStr_injective h₂)

theorem scalars_eq_some {s : PyStr} {t : Text} : scalars s = some t ↔ s = pyStr t := by
  induction s generalizing t with
  | nil => cases t with
    | nil => simp [scalars, pyStr]
    | cons c t => simp [scalars, pyStr]
  | cons c s ih =>
    cases c with
    | surrogate n => cases t with
      | nil => simp [scalars, pyStr]
      | cons d t => simp [scalars, pyStr]
    | scalar c =>
      rw [scalars, Option.map_eq_some_iff]
      constructor
      · rintro ⟨t', ht', rfl⟩
        rw [ih.mp ht']
        rfl
      · intro h
        cases t with
        | nil => cases h
        | cons d t =>
          obtain ⟨hc, hs⟩ := List.cons.inj h
          exact ⟨t, ih.mpr hs, by rw [PyChar.scalar.inj hc]⟩

@[simp] theorem scalars_pyStr (t : Text) : scalars (pyStr t) = some t := scalars_eq_some.mpr rfl

theorem nul_mem_pyStr {t : Text} : PyChar.scalar '\x00' ∈ pyStr t ↔ '\x00' ∈ t := by
  unfold pyStr
  rw [List.mem_map_of_injective scalar_injective]

theorem isPrefixOf_pyStr (s t : Text) : (pyStr s).isPrefixOf (pyStr t) = s.isPrefixOf t := by
  rw [Bool.eq_iff_iff, List.isPrefixOf_iff_prefix, List.isPrefixOf_iff_prefix]
  exact List.prefix_map_iff_of_injective scalar_injective

@[simp] theorem isDtItem_pyPair (p : Text × Text) : isDtItem (pyPair p) = isDtName p.1 :=
  isPrefixOf_pyStr _ _

/-! ## What fits into an envelope -/

/-- A variable of dt itself. -/
structure InternalFits (p : Text × Text) : Prop where
  name : p.1 ∈ internalNames
  nul : '\x00' ∉ p.2
  size : (textBytes p.2).length ≤ maxPrivateValueBytes

/-- A variable of the job. -/
structure CustomFits (p : Text × Text) : Prop where
  name : validName p.1 = true
  free : isDtName p.1 = false ∧ isBashName p.1 = false ∧ p.1 ∉ reserved
  nul : '\x00' ∉ p.2
  size : (textBytes p.2).length ≤ maxCustomEnvValueBytes

def customs (pairs : List (Text × Text)) : List (Text × Text) := pairs.filter fun p => !isDtName p.1

/-- The variables may be written. -/
structure Fits (pairs : List (Text × Text)) : Prop where
  count : pairs.length ≤ maxPrivateEnvVars
  internal : ∀ p ∈ pairs, isDtName p.1 = true → InternalFits p
  custom : ∀ p ∈ pairs, isDtName p.1 = false → CustomFits p
  customCount : (customs pairs).length ≤ maxCustomEnvVars
  customTotal : ((customs pairs).map variableCost).sum ≤ maxCustomEnvTotalBytes
  token : ∀ p ∈ pairs, p.1 = tokenName → validToken p.2 = true

theorem Fits.perm {pairs pairs' : List (Text × Text)} (h : Fits pairs) (hp : pairs.Perm pairs') :
    Fits pairs' := by
  have hcustoms : (customs pairs).Perm (customs pairs') := hp.filter _
  exact ⟨hp.length_eq ▸ h.count, fun p hmem => h.internal p (hp.mem_iff.mpr hmem),
    fun p hmem => h.custom p (hp.mem_iff.mpr hmem), hcustoms.length_eq ▸ h.customCount,
    (hcustoms.map variableCost).sum_eq ▸ h.customTotal,
    fun p hmem => h.token p (hp.mem_iff.mpr hmem)⟩

theorem sortByName_perm (pairs : List (Text × Text)) : (sortByName pairs).Perm pairs :=
  List.perm_insertionSort _ _

/-! ## The checks of `_normalize` -/

theorem checkInternal_eq_ok {item : PyStr × PyStr} {p : Text × Text} :
    checkInternal item = .ok p ↔ item = pyPair p ∧ InternalFits p := by
  have hfind : ∀ name, internalNames.find? (fun name => pyStr name = item.1) = some name ↔
      name ∈ internalNames ∧ item.1 = pyStr name := by
    intro name
    constructor
    · intro h
      have hname := List.find?_some h
      exact ⟨List.mem_of_find?_eq_some h, (by simpa using hname : pyStr name = item.1).symm⟩
    · rintro ⟨hmem, heq⟩
      have hsome : (internalNames.find? fun name => pyStr name = item.1).isSome := by
        rw [List.find?_isSome]
        exact ⟨name, hmem, by simpa using heq.symm⟩
      obtain ⟨other, hother⟩ := Option.isSome_iff_exists.mp hsome
      have heq' : pyStr other = item.1 := by simpa using List.find?_some hother
      rw [hother, pyStr_injective (heq'.trans heq)]
  unfold checkInternal
  constructor
  · intro h
    split at h
    · cases h
    · rename_i name hname
      obtain ⟨hmem, heq⟩ := (hfind name).mp hname
      split at h
      · cases h
      · rename_i hnul
        split at h
        · cases h
        · rename_i value hvalue
          split at h
          · cases h
          · rename_i hsize
            cases h
            have hval := scalars_eq_some.mp hvalue
            refine ⟨Prod.ext heq hval, hmem, ?_, Nat.le_of_not_lt hsize⟩
            rwa [hval, nul_mem_pyStr] at hnul
  · rintro ⟨rfl, hname, hnul, hsize⟩
    rw [(hfind p.1).mpr ⟨hname, rfl⟩]
    dsimp only
    rw [if_neg (by rw [pyPair, nul_mem_pyStr]; exact hnul)]
    simp only [pyPair, scalars_pyStr]
    rw [if_neg (Nat.not_lt.mpr hsize)]

theorem validateName_eq_ok {name : PyStr} {t : Text} :
    validateName name = .ok t ↔ name = pyStr t ∧ validName t = true ∧
      isDtName t = false ∧ isBashName t = false ∧ t ∉ reserved := by
  unfold validateName
  cases htext : scalars name with
  | none =>
    simp only [reduceCtorEq, false_iff]
    rintro ⟨rfl, -⟩
    rw [scalars_pyStr] at htext
    cases htext
  | some text =>
    have hname := scalars_eq_some.mp htext
    subst hname
    dsimp only
    constructor
    · intro h
      split at h
      · cases h
      · rename_i hvalid
        split at h
        · cases h
        · rename_i hfree
          cases h
          simp only [Bool.or_eq_true, decide_eq_true_eq, not_or, Bool.not_eq_true] at hfree
          exact ⟨rfl, by simpa using hvalid, hfree.1.1, hfree.1.2, hfree.2⟩
    · rintro ⟨heq, hvalid, hdt, hbash, hres⟩
      obtain rfl := pyStr_injective heq
      rw [if_neg (by simp [hvalid]), if_neg (by simp [hdt, hbash, hres])]

theorem validateValue_eq_ok {item : PyStr × PyStr} {t : Text} :
    validateValue item = .ok t ↔ item.2 = pyStr t ∧ '\x00' ∉ t ∧
      (textBytes t).length ≤ maxCustomEnvValueBytes := by
  unfold validateValue
  constructor
  · intro h
    split at h
    · cases h
    · rename_i hnul
      split at h
      · cases h
      · rename_i value hvalue
        have hval := scalars_eq_some.mp hvalue
        split at h
        · cases h
        · rename_i hsize
          cases h
          rw [hval, nul_mem_pyStr] at hnul
          exact ⟨hval, hnul, Nat.le_of_not_lt hsize⟩
  · rintro ⟨hval, hnul, hsize⟩
    rw [hval, if_neg (by rw [nul_mem_pyStr]; exact hnul), scalars_pyStr]
    dsimp only
    rw [if_neg (Nat.not_lt.mpr hsize)]

theorem validateLoop_eq_ok {total : Nat} {items : List (PyStr × PyStr)} {pairs : List (Text × Text)}
    (htotal : total ≤ maxCustomEnvTotalBytes) :
    validateLoop total items = .ok pairs ↔ items = pairs.map pyPair ∧ (∀ p ∈ pairs, CustomFits p) ∧
      total + (pairs.map variableCost).sum ≤ maxCustomEnvTotalBytes := by
  induction items generalizing total pairs with
  | nil =>
    rw [validateLoop]
    constructor
    · intro h
      cases h
      exact ⟨rfl, (fun _ h => nomatch h), htotal⟩
    · rintro ⟨heq, -, -⟩
      rw [List.map_eq_nil_iff.mp heq.symm]
  | cons item rest ih =>
    rw [validateLoop]
    constructor
    · intro h
      split at h
      · cases h
      · rename_i name hname
        split at h
        · cases h
        · rename_i value hvalue
          split at h
          · cases h
          · rename_i hle
            split at h
            · cases h
            · rename_i result hresult
              cases h
              obtain ⟨rfl, hfits, hsum⟩ := (ih (Nat.le_of_not_lt hle)).mp hresult
              obtain ⟨hn, hvalid, hfree⟩ := validateName_eq_ok.mp hname
              obtain ⟨hv, hnul, hsize⟩ := validateValue_eq_ok.mp hvalue
              refine ⟨?_, fun p hp => ?_, ?_⟩
              · rw [List.map_cons]
                exact congrArg (· :: _) (Prod.ext hn hv)
              · rcases List.mem_cons.mp hp with rfl | hp
                · exact ⟨hvalid, hfree, hnul, hsize⟩
                · exact hfits p hp
              · rw [List.map_cons, List.sum_cons]
                omega
    · rintro ⟨heq, hfits, hsum⟩
      cases pairs with
      | nil => cases heq
      | cons p pairs =>
        obtain ⟨rfl, rfl⟩ := List.cons.inj heq
        rw [List.map_cons, List.sum_cons] at hsum
        have hp := hfits p List.mem_cons_self
        have hrest := (ih (by omega : total + variableCost p ≤ maxCustomEnvTotalBytes)).mpr
          ⟨rfl, fun q hq => hfits q (List.mem_cons_of_mem p hq), by omega⟩
        have hname : validateName (pyPair p).1 = .ok p.1 :=
          validateName_eq_ok.mpr ⟨rfl, hp.name, hp.free⟩
        have hvalue : validateValue (pyPair p) = .ok p.2 :=
          validateValue_eq_ok.mpr ⟨rfl, hp.nul, hp.size⟩
        have hle : ¬ maxCustomEnvTotalBytes < total + variableCost (p.1, p.2) :=
          Nat.not_lt.mpr (by omega : total + variableCost p ≤ maxCustomEnvTotalBytes)
        rw [hname, hvalue]
        dsimp only
        rw [if_neg hle, hrest]

theorem exists_map_pyPair {items : List (PyStr × PyStr)} (h : ∀ item ∈ items, ∃ p, item = pyPair p) :
    ∃ pairs : List (Text × Text), items = pairs.map pyPair := by
  induction items with
  | nil => exact ⟨[], rfl⟩
  | cons item items ih =>
    obtain ⟨p, rfl⟩ := h item List.mem_cons_self
    obtain ⟨pairs, rfl⟩ := ih fun other hother => h other (List.mem_cons_of_mem _ hother)
    exact ⟨p :: pairs, rfl⟩

def internals (pairs : List (Text × Text)) : List (Text × Text) := pairs.filter fun p => isDtName p.1

theorem filter_isDtItem (pairs : List (Text × Text)) :
    (pairs.map pyPair).filter isDtItem = (internals pairs).map pyPair := by
  rw [List.filter_map]
  exact congrArg _ (List.filter_congr fun p _ => isDtItem_pyPair p)

theorem filter_not_isDtItem (pairs : List (Text × Text)) :
    (pairs.map pyPair).filter (fun item => !isDtItem item) = (customs pairs).map pyPair := by
  rw [List.filter_map]
  exact congrArg _ (List.filter_congr fun p _ => congrArg (!·) (isDtItem_pyPair p))

theorem internals_append_customs (pairs : List (Text × Text)) :
    (internals pairs ++ customs pairs).Perm pairs := List.filter_append_perm _ _

theorem mapM_checkInternal_eq_ok {items : List (PyStr × PyStr)} {pairs : List (Text × Text)} :
    items.mapM checkInternal = .ok pairs ↔
      items = pairs.map pyPair ∧ ∀ p ∈ pairs, InternalFits p := by
  rw [mapM_eq_ok_iff]
  induction items generalizing pairs with
  | nil =>
    rw [List.forall₂_nil_left_iff]
    constructor
    · rintro rfl
      exact ⟨rfl, fun _ h => nomatch h⟩
    · rintro ⟨heq, -⟩
      exact List.map_eq_nil_iff.mp heq.symm
  | cons item items ih =>
    rw [List.forall₂_cons_left_iff]
    constructor
    · rintro ⟨p, ps, hp, hps, rfl⟩
      obtain ⟨rfl, hfits⟩ := checkInternal_eq_ok.mp hp
      obtain ⟨rfl, hall⟩ := ih.mp hps
      refine ⟨rfl, fun q hq => ?_⟩
      rcases List.mem_cons.mp hq with rfl | hq
      · exact hfits
      · exact hall q hq
    · rintro ⟨heq, hall⟩
      cases pairs with
      | nil => cases heq
      | cons p ps =>
        obtain ⟨rfl, rfl⟩ := List.cons.inj heq
        exact ⟨p, ps, checkInternal_eq_ok.mpr ⟨rfl, hall p List.mem_cons_self⟩,
          ih.mpr ⟨rfl, fun q hq => hall q (List.mem_cons_of_mem p hq)⟩, rfl⟩

theorem validate_eq_ok {items : List (PyStr × PyStr)} {pairs : List (Text × Text)} :
    validate items = .ok pairs ↔ items.length ≤ maxCustomEnvVars ∧ items = pairs.map pyPair ∧
      (∀ p ∈ pairs, CustomFits p) ∧ (pairs.map variableCost).sum ≤ maxCustomEnvTotalBytes := by
  unfold validate
  split
  · rename_i hmany
    simp only [reduceCtorEq, false_iff, not_and]
    omega
  · rename_i hfew
    rw [validateLoop_eq_ok (Nat.zero_le _), Nat.zero_add]
    exact (and_iff_right (Nat.le_of_not_lt hfew)).symm

theorem isDtName_of_internal {name : Text} (h : name ∈ internalNames) : isDtName name = true := by
  have hall : ∀ name ∈ internalNames, isDtName name = true := by decide
  exact hall name h

theorem isDtName_tokenName : isDtName tokenName = true := by decide

/-- A mapping is normalized when its variables fit; they come back by their names. -/
theorem normalize_eq_ok {items : List (PyStr × PyStr)} {result : List (Text × Text)} :
    normalize items = .ok result ↔ ∃ pairs, items = pairs.map pyPair ∧ Fits pairs ∧
      result = sortByName (internals pairs ++ customs pairs) := by
  unfold normalize
  constructor
  · intro h
    split at h
    · cases h
    · rename_i hcount
      split at h
      · cases h
      · rename_i internal hinternal
        split at h
        · cases h
        · rename_i custom hcustom
          split at h
          · cases h
          · rename_i htoken
            cases h
            obtain ⟨hi, hifits⟩ := mapM_checkInternal_eq_ok.mp hinternal
            obtain ⟨hclen, hc, hcfits, hctotal⟩ := validate_eq_ok.mp hcustom
            obtain ⟨pairs, rfl⟩ : ∃ pairs : List (Text × Text), items = pairs.map pyPair := by
              refine exists_map_pyPair fun item hitem => ?_
              by_cases hdt : isDtItem item = true
              · have hmem := List.mem_filter.mpr ⟨hitem, hdt⟩
                rw [hi] at hmem
                obtain ⟨p, -, hp⟩ := List.mem_map.mp hmem
                exact ⟨p, hp.symm⟩
              · have hmem : item ∈ items.filter fun item => !isDtItem item :=
                  List.mem_filter.mpr ⟨hitem, by simpa using hdt⟩
                rw [hc] at hmem
                obtain ⟨p, -, hp⟩ := List.mem_map.mp hmem
                exact ⟨p, hp.symm⟩
            rw [filter_isDtItem] at hi
            rw [filter_not_isDtItem] at hc hclen
            obtain rfl := List.map_injective_iff.mpr pyPair_injective hi
            obtain rfl := List.map_injective_iff.mpr pyPair_injective hc
            rw [List.length_map] at hclen hcount
            refine ⟨pairs, rfl, ⟨Nat.le_of_not_lt hcount, fun p hp hdt => ?_, fun p hp hdt => ?_,
              hclen, hctotal, fun p hp hname => ?_⟩, rfl⟩
            · exact hifits p (List.mem_filter.mpr ⟨hp, hdt⟩)
            · exact hcfits p (List.mem_filter.mpr ⟨hp, by simpa using hdt⟩)
            · have hmem : p ∈ internals pairs :=
                List.mem_filter.mpr ⟨hp, by rw [hname]; exact isDtName_tokenName⟩
              by_contra hbad
              rw [Bool.not_eq_true] at hbad
              exact htoken (List.any_eq_true.mpr ⟨p, hmem, by simp [hname, hbad]⟩)
  · rintro ⟨pairs, rfl, hfits, rfl⟩
    have hinternal : ((pairs.map pyPair).filter isDtItem).mapM checkInternal =
        .ok (internals pairs) := by
      refine mapM_checkInternal_eq_ok.mpr ⟨filter_isDtItem pairs, fun p hp => ?_⟩
      exact hfits.internal p (List.mem_filter.mp hp).1 (List.mem_filter.mp hp).2
    have hcustom : validate ((pairs.map pyPair).filter fun item => !isDtItem item) =
        .ok (customs pairs) := by
      rw [filter_not_isDtItem]
      refine validate_eq_ok.mpr ⟨?_, rfl, fun p hp => ?_, hfits.customTotal⟩
      · rw [List.length_map]
        exact hfits.customCount
      · exact hfits.custom p (List.mem_filter.mp hp).1 (by simpa using (List.mem_filter.mp hp).2)
    have htoken : ¬ ((internals pairs).any fun p => p.1 = tokenName && !validToken p.2) = true := by
      rw [List.any_eq_true]
      rintro ⟨p, hp, hbad⟩
      rw [Bool.and_eq_true, decide_eq_true_eq, Bool.not_eq_true'] at hbad
      rw [hfits.token p (List.mem_filter.mp hp).1 hbad.1] at hbad
      cases hbad.2
    rw [if_neg (by rw [List.length_map]; exact Nat.not_lt.mpr hfits.count), hinternal]
    dsimp only
    rw [hcustom]
    dsimp only
    rw [if_neg htoken]

/-! ## Reading an envelope -/

/-- A pair that is written and read back as it is. -/
structure Writable (p : Text × Text) : Prop where
  name : validName p.1 = true
  nul : '\x00' ∉ p.2

theorem nameChar_ascii {c : Char} (h : nameChar c = true) : c.toNat < 128 ∧ c ≠ '\x00' := by
  unfold nameChar isAlnum isDigit at h
  simp only [Bool.or_eq_true, Bool.and_eq_true, decide_eq_true_eq, Char.le_def,
    UInt32.le_iff_toNat_le] at h
  have hrange : 48 ≤ c.toNat ∧ c.toNat ≤ 122 := by
    rcases h with ((h | h) | h) | rfl
    · exact ⟨h.1, h.2.trans (by decide)⟩
    · exact ⟨(by decide : 48 ≤ 'a'.val.toNat).trans h.1, h.2.trans (by decide)⟩
    · exact ⟨(by decide : 48 ≤ 'A'.val.toNat).trans h.1, h.2.trans (by decide)⟩
    · decide
  refine ⟨by omega, ?_⟩
  rintro rfl
  exact absurd hrange (by decide)

theorem validName_chars {name : Text} (h : validName name = true) :
    ∀ c ∈ name, c.toNat < 128 ∧ c ≠ '\x00' := by
  intro c hc
  refine nameChar_ascii ?_
  cases name with
  | nil => cases hc
  | cons d ds =>
    simp only [validName, classRun, Bool.and_eq_true, List.all_eq_true] at h
    rcases List.mem_cons.mp hc with rfl | hc
    · exact h.1.1
    · exact h.2.2 c hc

theorem Writable.bytes {p : Text × Text} (h : Writable p) :
    asciiText (textBytes p.1) = some p.1 ∧ bytesText (textBytes p.2) = some p.2 ∧
      0 ∉ textBytes p.1 ∧ 0 ∉ textBytes p.2 :=
  ⟨asciiText_textBytes fun c hc => (validName_chars h.name c hc).1, bytesText_textBytes p.2,
    zero_notMem_textBytes fun hc => (validName_chars h.name _ hc).2 rfl, zero_notMem_textBytes h.nul⟩

/-- The fields of an envelope. -/
def fieldsOf (pairs : List (Text × Text)) : List (List Nat × List Nat) :=
  pairs.map fun p => (textBytes p.1, textBytes p.2)

theorem decodePairs_envelope {pairs : List (Text × Text)} (h : ∀ p ∈ pairs, Writable p) :
    magic.isPrefixOf (envelope pairs) = true ∧
      decodePairs 0 ((envelope pairs).drop magic.length) = some (fieldsOf pairs) := by
  refine ⟨List.isPrefixOf_iff_prefix.mpr (List.prefix_append _ _), ?_⟩
  unfold envelope
  rw [List.drop_left]
  exact decodePairs_encodePairs (List.forall_mem_map.mpr fun p hp =>
    ⟨(h p hp).bytes.2.2.1, (h p hp).bytes.2.2.2⟩)

theorem decodeFields_fieldsOf {pairs : List (Text × Text)} (h : ∀ p ∈ pairs, Writable p)
    (hnodup : (pairs.map Prod.fst).Nodup) (seen : List Text) (hseen : ∀ p ∈ pairs, p.1 ∉ seen) :
    decodeFields seen (fieldsOf pairs) = .ok pairs := by
  induction pairs generalizing seen with
  | nil => rfl
  | cons p pairs ih =>
    obtain ⟨hname, hvalue, -, -⟩ := (h p List.mem_cons_self).bytes
    rw [List.map_cons, List.nodup_cons] at hnodup
    have hrest := ih (fun q hq => h q (List.mem_cons_of_mem p hq)) hnodup.2 (p.1 :: seen)
      fun q hq hin => by
        rcases List.mem_cons.mp hin with heq | hin
        · exact hnodup.1 (heq ▸ List.mem_map_of_mem hq)
        · exact hseen q (List.mem_cons_of_mem p hq) hin
    have hcons : fieldsOf (p :: pairs) = (textBytes p.1, textBytes p.2) :: fieldsOf pairs := rfl
    rw [hcons, decodeFields, hname, hvalue]
    dsimp only
    rw [if_neg (hseen p List.mem_cons_self), hrest]

/-- A pair that a loader with some internal names accepts. -/
structure Loadable (internal : List Text) (p : Text × Text) : Prop extends Writable p where
  allowed : isDtName p.1 = true → p.1 ∈ internal
  free : isDtName p.1 = false → isBashName p.1 = false ∧ p.1 ∉ reserved
  size : (textBytes p.2).length ≤ maxPrivateValueBytes

theorem loadField_of_loadable {internal : List Text} {p : Text × Text} (h : Loadable internal p)
    {seen : List Text} (hseen : p.1 ∉ seen) :
    loadField internal seen (textBytes p.1, textBytes p.2) = some p := by
  obtain ⟨hname, hvalue, -, -⟩ := h.toWritable.bytes
  unfold loadField
  rw [hname, hvalue]
  dsimp only
  have hallowed : ¬ (isDtName p.1 && decide (p.1 ∉ internal)) = true := by
    rw [Bool.and_eq_true, decide_eq_true_eq]
    rintro ⟨hdt, hnot⟩
    exact hnot (h.allowed hdt)
  have hfree : ¬ (!isDtName p.1 && (isBashName p.1 || decide (p.1 ∈ reserved))) = true := by
    rw [Bool.and_eq_true, Bool.not_eq_true', Bool.or_eq_true, decide_eq_true_eq]
    rintro ⟨hdt, hbad⟩
    obtain ⟨hbash, hres⟩ := h.free hdt
    rcases hbad with hbad | hbad
    · rw [hbash] at hbad
      cases hbad
    · exact hres hbad
  rw [if_neg (by simp [hseen, h.name]), if_neg hallowed, if_neg hfree,
    if_neg (Nat.not_lt.mpr h.size)]

theorem loadFields_fieldsOf {internal : List Text} {pairs : List (Text × Text)}
    (h : ∀ p ∈ pairs, Loadable internal p) (hnodup : (pairs.map Prod.fst).Nodup) (seen : List Text)
    (hseen : ∀ p ∈ pairs, p.1 ∉ seen) : loadFields internal seen (fieldsOf pairs) = some pairs := by
  induction pairs generalizing seen with
  | nil => rfl
  | cons p pairs ih =>
    rw [List.map_cons, List.nodup_cons] at hnodup
    have hrest := ih (fun q hq => h q (List.mem_cons_of_mem p hq)) hnodup.2 (p.1 :: seen)
      fun q hq hin => by
        rcases List.mem_cons.mp hin with heq | hin
        · exact hnodup.1 (heq ▸ List.mem_map_of_mem hq)
        · exact hseen q (List.mem_cons_of_mem p hq) hin
    have hcons : fieldsOf (p :: pairs) = (textBytes p.1, textBytes p.2) :: fieldsOf pairs := rfl
    rw [hcons, loadFields, loadField_of_loadable (h p List.mem_cons_self)
      (hseen p List.mem_cons_self), Option.bind_some, hrest]
    rfl

theorem loadEnvelope_envelope {internal : List Text} {maxVars : Nat} {pairs : List (Text × Text)}
    (h : ∀ p ∈ pairs, Loadable internal p) (hnodup : (pairs.map Prod.fst).Nodup)
    (hcount : pairs.length ≤ maxVars) (hsize : (envelope pairs).length ≤ maxPrivateEnvBytes) :
    loadEnvelope internal maxVars (envelope pairs) = some pairs := by
  obtain ⟨hmagic, hpairs⟩ := decodePairs_envelope fun p hp => (h p hp).toWritable
  have hlength : (fieldsOf pairs).length = pairs.length := List.length_map ..
  unfold loadEnvelope
  rw [if_neg (by simp [hmagic, Nat.not_lt.mpr hsize]), hpairs, Option.bind_some,
    if_neg (by rw [hlength]; exact Nat.not_lt.mpr hcount)]
  exact loadFields_fieldsOf h hnodup [] fun _ _ h => nomatch h

/-! ## From the head to the wrapper -/

section

variable {pairs pairs' : List (Text × Text)}

theorem validName_of_internal {name : Text} (h : name ∈ internalNames) : validName name = true := by
  have hall : ∀ name ∈ internalNames, validName name = true := by decide
  exact hall name h

theorem Fits.loadable (h : Fits pairs) {internal : List Text} {p : Text × Text} (hp : p ∈ pairs)
    (hinternal : p.1 ∈ internalNames → p.1 ∈ internal) : Loadable internal p := by
  cases hdt : isDtName p.1 with
  | true =>
    have hfits := h.internal p hp hdt
    refine ⟨⟨validName_of_internal hfits.name, hfits.nul⟩, fun _ => hinternal hfits.name, ?_,
      hfits.size⟩
    intro hnot
    cases hdt.symm.trans hnot
  | false =>
    have hfits := h.custom p hp hdt
    refine ⟨⟨hfits.name, hfits.nul⟩, ?_, fun _ => ⟨hfits.free.2.1, hfits.free.2.2⟩,
      hfits.size.trans (by decide)⟩
    intro hyes
    cases hyes.symm.trans hdt

theorem length_encodePairs_cons (p : List Nat × List Nat) (fields : List (List Nat × List Nat)) :
    (encodePairs 0 (p :: fields)).length =
      p.1.length + p.2.length + 2 + (encodePairs 0 fields).length := by
  simp [encodePairs]
  omega

theorem length_encodePairs_sublist {fields fields' : List (List Nat × List Nat)}
    (h : fields.Sublist fields') :
    (encodePairs 0 fields).length ≤ (encodePairs 0 fields').length := by
  induction h with
  | slnil => exact le_rfl
  | cons p _ ih =>
    rw [length_encodePairs_cons]
    omega
  | cons_cons p _ ih =>
    rw [length_encodePairs_cons, length_encodePairs_cons]
    omega

theorem length_envelope_sublist (h : pairs.Sublist pairs') :
    (envelope pairs).length ≤ (envelope pairs').length := by
  unfold envelope
  rw [List.length_append, List.length_append]
  have := length_encodePairs_sublist (h.map fun p => (textBytes p.1, textBytes p.2))
  omega

theorem length_envelope_perm (h : pairs.Perm pairs') :
    (envelope pairs).length = (envelope pairs').length := by
  unfold envelope encodePairs
  rw [List.length_append, List.length_append]
  exact congrArg _ ((h.map _).flatMap_right _).length_eq

/-- Without the token there are at most two variables of dt. -/
theorem Fits.count_runtime (h : Fits pairs) (hnodup : (pairs.map Prod.fst).Nodup) :
    (pairs.filter fun p => p.1 ∉ launcherOnlyNames).length ≤ 66 := by
  have hsplit := (internals_append_customs (pairs.filter fun p => p.1 ∉ launcherOnlyNames)).length_eq
  rw [List.length_append] at hsplit
  have hcustoms : (customs (pairs.filter fun p => p.1 ∉ launcherOnlyNames)).length ≤
      maxCustomEnvVars :=
    (List.filter_sublist.filter _).length_le.trans h.customCount
  have hinternals : (internals (pairs.filter fun p => p.1 ∉ launcherOnlyNames)).length ≤ 2 := by
    have hnames : ((internals (pairs.filter fun p => p.1 ∉ launcherOnlyNames)).map Prod.fst).Nodup :=
      hnodup.sublist ((List.filter_sublist.trans List.filter_sublist).map _)
    have hsubset : ∀ name ∈ (internals (pairs.filter fun p => p.1 ∉ launcherOnlyNames)).map Prod.fst,
        name ∈ runtimeInternalNames := by
      intro name hname
      obtain ⟨p, hp, rfl⟩ := List.mem_map.mp hname
      obtain ⟨hp, hdt⟩ := List.mem_filter.mp hp
      obtain ⟨hp, honly⟩ := List.mem_filter.mp hp
      have hin := (h.internal p hp hdt).name
      exact (List.mem_append.mp hin).resolve_left (by simpa using honly)
    have hlength := (List.subperm_of_subset hnames hsubset).length_le
    rwa [List.length_map] at hlength
  have hmax : maxCustomEnvVars = 64 := rfl
  omega

/-- The variables that fit and whose envelope is not too large go through all three decoders. -/
theorem Fits.end_to_end (h : Fits pairs) (hnodup : (pairs.map Prod.fst).Nodup)
    (hsize : (envelope pairs).length ≤ maxPrivateEnvBytes) :
    (∃ decoded, decode (envelope pairs) = .ok decoded ∧ decoded.Perm pairs) ∧
      launcherLoad (envelope pairs) = some (pairs, runtimeFile pairs) ∧
      ∃ loaded, wrapperLoad (runtimeFile pairs) = some loaded ∧
        loaded.Perm (pairs.filter fun p => p.1 ≠ tokenName) := by
  have hload : ∀ p ∈ pairs, Loadable internalNames p := fun p hp => h.loadable hp id
  refine ⟨?_, ?_, ?_⟩
  · obtain ⟨hmagic, hpairs⟩ := decodePairs_envelope fun p hp => (hload p hp).toWritable
    have hfields := decodeFields_fieldsOf (fun p hp => (hload p hp).toWritable) hnodup []
      fun _ _ h => nomatch h
    refine ⟨sortByName (internals pairs ++ customs pairs), ?_,
      (sortByName_perm _).trans (internals_append_customs pairs)⟩
    unfold decode
    rw [if_neg (Nat.not_lt.mpr hsize), if_neg (by simp [hmagic]), hpairs]
    dsimp only
    rw [hfields]
    exact normalize_eq_ok.mpr ⟨pairs, rfl, h, rfl⟩
  · have htoken : ¬ (pairs.any fun p => p.1 = tokenName && p.2 ≠ [] && !validToken p.2) = true := by
      rw [List.any_eq_true]
      rintro ⟨p, hp, hbad⟩
      simp only [Bool.and_eq_true, decide_eq_true_eq, Bool.not_eq_true'] at hbad
      rw [h.token p hp hbad.1.1] at hbad
      cases hbad.2
    have hloaded : loadEnvelope internalNames 67 (envelope pairs) = some pairs :=
      loadEnvelope_envelope hload hnodup h.count hsize
    unfold launcherLoad
    rw [hloaded, Option.bind_some, if_neg htoken]
  · have hperm := sortByName_perm (pairs.filter fun p => p.1 ∉ launcherOnlyNames)
    have hsame : (pairs.filter fun p => p.1 ∉ launcherOnlyNames) =
        pairs.filter fun p => p.1 ≠ tokenName :=
      List.filter_congr fun p _ => by simp [launcherOnlyNames]
    refine ⟨_, loadEnvelope_envelope (fun p hp => ?_) ?_ ?_ ?_, hsame ▸ hperm⟩
    · obtain ⟨hp, honly⟩ := List.mem_filter.mp (hperm.mem_iff.mp hp)
      exact h.loadable hp fun hin => (List.mem_append.mp hin).resolve_left (by simpa using honly)
    · exact (hperm.map Prod.fst).nodup_iff.mpr (hnodup.sublist (List.filter_sublist.map _))
    · rw [hperm.length_eq]
      exact h.count_runtime hnodup
    · rw [length_envelope_perm hperm]
      exact (length_envelope_sublist List.filter_sublist).trans hsize

end

/-- What the head, the launcher and the wrapper make of a mapping that was encoded. -/
def EndToEnd (values : PyDict) (bytes : List Nat) : Prop :=
  ∃ pairs, values.items = pairs.map pyPair ∧
    (∃ decoded, decode bytes = .ok decoded ∧ decoded.Perm pairs) ∧
    ∃ loaded runtime, launcherLoad bytes = some (loaded, runtime) ∧ loaded.Perm pairs ∧
      ∃ got, wrapperLoad runtime = some got ∧ got.Perm (pairs.filter fun p => p.1 ≠ tokenName)

theorem endToEnd_of_encode {values : PyDict} {bytes : List Nat} (h : encode values = .ok bytes) :
    EndToEnd values bytes := by
  unfold encode at h
  split at h
  · cases h
  · rename_i result hresult
    split at h
    · cases h
    · rename_i hsize
      cases h
      obtain ⟨pairs, hitems, hfits, rfl⟩ := normalize_eq_ok.mp hresult
      have hperm := (sortByName_perm (internals pairs ++ customs pairs)).trans
        (internals_append_customs pairs)
      have hnodup : (pairs.map Prod.fst).Nodup := by
        have hkeys := values.nodup
        have hmap : values.items.map Prod.fst = (pairs.map Prod.fst).map pyStr := by
          rw [hitems, List.map_map, List.map_map]
          rfl
        rw [hmap] at hkeys
        exact hkeys.of_map _
      obtain ⟨⟨decoded, hdecode, hdecoded⟩, hlaunch, got, hgot, hgotperm⟩ :=
        (hfits.perm hperm.symm).end_to_end ((hperm.map Prod.fst).nodup_iff.mpr hnodup)
          (Nat.le_of_not_lt hsize)
      exact ⟨pairs, hitems, ⟨decoded, hdecode, hdecoded.trans hperm⟩, _, _, hlaunch, hperm, got, hgot,
        hgotperm.trans (hperm.filter _)⟩

/-! ## Texts without UTF-8 -/

/-- A value without UTF-8 that no check of the value refuses before it is encoded. -/
def NoUtf8 (item : PyStr × PyStr) : Prop := .scalar '\x00' ∉ item.2 ∧ scalars item.2 = none

/-- `encode` comes to a value without UTF-8 before another check refuses the mapping: first it looks
at the variables of dt in their order, then at the others. -/
def ReachesNoUtf8 (items : List (PyStr × PyStr)) : Prop :=
  items.length ≤ maxPrivateEnvVars ∧
    ((∃ before item after, items.filter isDtItem = before ++ item :: after ∧
        (∀ x ∈ before, ∃ p, x = pyPair p ∧ InternalFits p) ∧
        (∃ name ∈ internalNames, item.1 = pyStr name) ∧ NoUtf8 item) ∨
      (∃ internal : List (Text × Text), items.filter isDtItem = internal.map pyPair ∧
        ∀ p ∈ internal, InternalFits p) ∧
      (items.filter fun item => !isDtItem item).length ≤ maxCustomEnvVars ∧
      ∃ (before : List (Text × Text)) (item : PyStr × PyStr) (after : List (PyStr × PyStr)),
        (items.filter fun item => !isDtItem item) = before.map pyPair ++ item :: after ∧
        (∀ p ∈ before, CustomFits p) ∧
        (before.map variableCost).sum ≤ maxCustomEnvTotalBytes ∧
        (∃ name, item.1 = pyStr name ∧ validName name = true ∧ isDtName name = false ∧
          isBashName name = false ∧ name ∉ reserved) ∧ NoUtf8 item)

theorem checkInternal_eq_unicode {item : PyStr × PyStr} :
    checkInternal item = .error .unicode ↔
      (∃ name ∈ internalNames, item.1 = pyStr name) ∧ NoUtf8 item := by
  unfold checkInternal
  constructor
  · intro h
    split at h
    · cases h
    · rename_i name hname
      split at h
      · cases h
      · rename_i hnul
        split at h
        · rename_i hnone
          have heq : pyStr name = item.1 := by simpa using List.find?_some hname
          exact ⟨⟨name, List.mem_of_find?_eq_some hname, heq.symm⟩, hnul, hnone⟩
        · split at h
          · cases h
          · cases h
  · rintro ⟨⟨name, hname, heq⟩, hnul, hnone⟩
    have hsome : (internalNames.find? fun name => pyStr name = item.1).isSome := by
      rw [List.find?_isSome]
      exact ⟨name, hname, by simpa using heq.symm⟩
    obtain ⟨other, hother⟩ := Option.isSome_iff_exists.mp hsome
    rw [hother]
    dsimp only
    rw [if_neg hnul, hnone]

theorem validateName_ne_unicode (name : PyStr) : validateName name ≠ .error .unicode := by
  unfold validateName
  split
  · simp
  · split
    · simp
    · split
      · simp
      · simp

theorem validateValue_eq_unicode {item : PyStr × PyStr} :
    validateValue item = .error .unicode ↔ NoUtf8 item := by
  unfold validateValue
  constructor
  · intro h
    split at h
    · cases h
    · rename_i hnul
      split at h
      · rename_i hnone
        exact ⟨hnul, hnone⟩
      · split at h
        · cases h
        · cases h
  · rintro ⟨hnul, hnone⟩
    rw [if_neg hnul, hnone]

theorem validateLoop_eq_unicode {total : Nat} {items : List (PyStr × PyStr)}
    (htotal : total ≤ maxCustomEnvTotalBytes) :
    validateLoop total items = .error .unicode ↔
      ∃ (before : List (Text × Text)) (item : PyStr × PyStr) (after : List (PyStr × PyStr)),
        items = before.map pyPair ++ item :: after ∧ (∀ p ∈ before, CustomFits p) ∧
        total + (before.map variableCost).sum ≤ maxCustomEnvTotalBytes ∧
        (∃ name, item.1 = pyStr name ∧ validName name = true ∧ isDtName name = false ∧
          isBashName name = false ∧ name ∉ reserved) ∧ NoUtf8 item := by
  induction items generalizing total with
  | nil =>
    rw [validateLoop]
    constructor
    · intro h
      cases h
    · rintro ⟨before, item, after, heq, -⟩
      exact absurd heq.symm (by simp)
  | cons item rest ih =>
    rw [validateLoop]
    constructor
    · intro h
      split at h
      · rename_i e hname
        cases h
        exact absurd hname (validateName_ne_unicode _)
      · rename_i name hname
        obtain ⟨hn, hvalid⟩ := validateName_eq_ok.mp hname
        split at h
        · rename_i e hvalue
          cases h
          exact ⟨[], item, rest, rfl, (fun _ h => nomatch h), htotal, ⟨name, hn, hvalid⟩,
            validateValue_eq_unicode.mp hvalue⟩
        · rename_i value hvalue
          obtain ⟨hv, hnul, hsize⟩ := validateValue_eq_ok.mp hvalue
          split at h
          · cases h
          · rename_i hle
            split at h
            · rename_i e hrest
              cases h
              obtain ⟨before, item', after, rfl, hfits, hsum, hbad⟩ :=
                (ih (Nat.le_of_not_lt hle)).mp hrest
              refine ⟨(name, value) :: before, item', after, ?_, fun p hp => ?_, ?_, hbad⟩
              · rw [List.map_cons, List.cons_append]
                exact congrArg (· :: _) (Prod.ext hn hv)
              · rcases List.mem_cons.mp hp with rfl | hp
                · exact ⟨hvalid.1, hvalid.2, hnul, hsize⟩
                · exact hfits p hp
              · rw [List.map_cons, List.sum_cons]
                omega
            · cases h
    · rintro ⟨before, item', after, heq, hfits, hsum, ⟨name, hn, hvalid⟩, hbad⟩
      cases before with
      | nil =>
        obtain ⟨rfl, rfl⟩ := List.cons.inj heq
        rw [validateName_eq_ok.mpr ⟨hn, hvalid⟩, validateValue_eq_unicode.mpr hbad]
      | cons p before =>
        obtain ⟨rfl, rfl⟩ := List.cons.inj heq
        rw [List.map_cons, List.sum_cons] at hsum
        have hp := hfits p List.mem_cons_self
        have hrest := (ih (by omega : total + variableCost p ≤ maxCustomEnvTotalBytes)).mpr
          ⟨before, item', after, rfl, fun q hq => hfits q (List.mem_cons_of_mem p hq), by omega,
            ⟨name, hn, hvalid⟩, hbad⟩
        have hname : validateName (pyPair p).1 = .ok p.1 :=
          validateName_eq_ok.mpr ⟨rfl, hp.name, hp.free⟩
        have hvalue : validateValue (pyPair p) = .ok p.2 :=
          validateValue_eq_ok.mpr ⟨rfl, hp.nul, hp.size⟩
        have hle : ¬ maxCustomEnvTotalBytes < total + variableCost (p.1, p.2) :=
          Nat.not_lt.mpr (by omega : total + variableCost p ≤ maxCustomEnvTotalBytes)
        rw [hname, hvalue]
        dsimp only
        rw [if_neg hle, hrest]

theorem validate_eq_unicode {items : List (PyStr × PyStr)} :
    validate items = .error .unicode ↔ items.length ≤ maxCustomEnvVars ∧
      ∃ (before : List (Text × Text)) (item : PyStr × PyStr) (after : List (PyStr × PyStr)),
        items = before.map pyPair ++ item :: after ∧ (∀ p ∈ before, CustomFits p) ∧
        (before.map variableCost).sum ≤ maxCustomEnvTotalBytes ∧
        (∃ name, item.1 = pyStr name ∧ validName name = true ∧ isDtName name = false ∧
          isBashName name = false ∧ name ∉ reserved) ∧ NoUtf8 item := by
  unfold validate
  split
  · rename_i hmany
    simp only [Except.error.injEq, reduceCtorEq, false_iff, not_and]
    omega
  · rename_i hcount
    rw [validateLoop_eq_unicode (Nat.zero_le _), and_iff_right (Nat.le_of_not_lt hcount)]
    simp only [Nat.zero_add]

theorem normalize_eq_unicode {items : List (PyStr × PyStr)} :
    normalize items = .error .unicode ↔ ReachesNoUtf8 items := by
  unfold normalize ReachesNoUtf8
  split
  · rename_i hmany
    simp only [Except.error.injEq, reduceCtorEq, false_iff, not_and]
    omega
  · rename_i hfew
    rw [and_iff_right (Nat.le_of_not_lt hfew)]
    cases hinternal : (items.filter isDtItem).mapM checkInternal with
    | error e =>
      dsimp only
      rw [Except.error.injEq]
      have hnot : ¬ ∃ internal : List (Text × Text), items.filter isDtItem = internal.map pyPair ∧
          ∀ p ∈ internal, InternalFits p := by
        rintro ⟨internal, hok⟩
        rw [mapM_checkInternal_eq_ok.mpr hok] at hinternal
        cases hinternal
      constructor
      · rintro rfl
        obtain ⟨before, item, after, heq, hbefore, hitem⟩ := mapM_eq_error_iff.mp hinternal
        refine .inl ⟨before, item, after, heq, fun x hx => ?_, checkInternal_eq_unicode.mp hitem⟩
        obtain ⟨p, hp⟩ := hbefore x hx
        exact ⟨p, checkInternal_eq_ok.mp hp⟩
      · rintro (⟨before, item, after, heq, hbefore, hitem⟩ | ⟨hok, -⟩)
        · have herror : (items.filter isDtItem).mapM checkInternal = .error .unicode := by
            refine mapM_eq_error_iff.mpr ⟨before, item, after, heq, fun x hx => ?_,
              checkInternal_eq_unicode.mpr hitem⟩
            obtain ⟨p, hp⟩ := hbefore x hx
            exact ⟨p, checkInternal_eq_ok.mpr hp⟩
          rw [hinternal] at herror
          exact Except.error.inj herror
        · exact absurd hok hnot
    | ok internal =>
      dsimp only
      have hok := mapM_checkInternal_eq_ok.mp hinternal
      have hnot : ¬ ∃ before item after, items.filter isDtItem = before ++ item :: after ∧
          (∀ x ∈ before, ∃ p, x = pyPair p ∧ InternalFits p) ∧
          (∃ name ∈ internalNames, item.1 = pyStr name) ∧ NoUtf8 item := by
        rintro ⟨before, item, after, heq, -, hitem⟩
        have hmem : item ∈ internal.map pyPair := by
          rw [← hok.1, heq]
          simp
        obtain ⟨p, -, rfl⟩ := List.mem_map.mp hmem
        rw [NoUtf8, pyPair, scalars_pyStr] at hitem
        cases hitem.2.2
      rw [or_iff_right hnot, and_iff_right ⟨internal, hok⟩, ← validate_eq_unicode]
      cases validate (items.filter fun item => !isDtItem item) with
      | error e => simp
      | ok custom =>
        dsimp only
        split
        · simp
        · simp

/-- The contract of `encode`: an envelope that goes through all decoders, or its own error. -/
def EncodesOrRejects (values : PyDict) : Prop :=
  (∃ why, encode values = .error (.rejected why)) ∨
    ∃ bytes, encode values = .ok bytes ∧ EndToEnd values bytes

/-- No variable is reserved, and those that start with `DT_` are listed. -/
def Permitted (internal : List Text) (pairs : List (Text × Text)) : Prop :=
  ∀ p ∈ pairs, if isDtName p.1 then p.1 ∈ internal else isBashName p.1 = false ∧ p.1 ∉ reserved

theorem loadFields_permitted {internal : List Text} {fields : List (List Nat × List Nat)}
    {seen : List Text} {pairs : List (Text × Text)}
    (h : loadFields internal seen fields = some pairs) : Permitted internal pairs := by
  induction fields generalizing seen pairs with
  | nil =>
    cases h
    exact fun _ h => nomatch h
  | cons field rest ih =>
    rw [loadFields, Option.bind_eq_some_iff] at h
    obtain ⟨p, hp, h⟩ := h
    obtain ⟨ps, hps, rfl⟩ := Option.map_eq_some_iff.mp h
    intro q hq
    rcases List.mem_cons.mp hq with rfl | hq
    · unfold loadField at hp
      split at hp
      · split at hp
        · cases hp
        · split at hp
          · cases hp
          · rename_i hdt
            split at hp
            · cases hp
            · rename_i hres
              split at hp
              · cases hp
              · cases hp
                dsimp only
                split
                · rename_i hname
                  simpa [hname] using hdt
                · rename_i hname
                  simpa [hname] using hres
      · cases hp
    · exact ih hps q hq

theorem loadEnvelope_permitted {internal : List Text} {maxVars : Nat} {raw : List Nat}
    {pairs : List (Text × Text)} (h : loadEnvelope internal maxVars raw = some pairs) :
    Permitted internal pairs := by
  unfold loadEnvelope at h
  split at h
  · cases h
  · rw [Option.bind_eq_some_iff] at h
    obtain ⟨fields, -, h⟩ := h
    split at h
    · cases h
    · exact loadFields_permitted h

theorem decode_permitted {payload : List Nat} {pairs : List (Text × Text)}
    (h : decode payload = .ok pairs) : Permitted internalNames pairs := by
  unfold decode at h
  split at h
  · cases h
  · split at h
    · cases h
    · split at h
      · cases h
      · split at h
        · cases h
        · obtain ⟨source, -, hfits, rfl⟩ := normalize_eq_ok.mp h
          have hperm := (sortByName_perm (internals source ++ customs source)).trans
            (internals_append_customs source)
          intro p hp
          have hmem := hperm.mem_iff.mp hp
          split
          · rename_i hdt
            exact (hfits.internal p hmem hdt).name
          · rename_i hdt
            have hcustom := hfits.custom p hmem (by simpa using hdt)
            exact ⟨hcustom.free.2.1, hcustom.free.2.2⟩

/-- `encode` meets its contract unless it comes to a value without UTF-8 first, and no decoder
accepts a variable that is reserved or not listed. -/
theorem encodesOrRejects_iff (values : PyDict) :
    (EncodesOrRejects values ↔ ¬ ReachesNoUtf8 values.items) ∧
      (∀ payload pairs, decode payload = .ok pairs → Permitted internalNames pairs) ∧
      (∀ raw pairs runtime, launcherLoad raw = some (pairs, runtime) →
        Permitted internalNames pairs) ∧
      ∀ raw pairs, wrapperLoad raw = some pairs → Permitted runtimeInternalNames pairs := by
  refine ⟨?_, fun _ _ h => decode_permitted h, fun raw pairs runtime h => ?_,
    fun _ _ h => loadEnvelope_permitted h⟩
  · have hunicode : encode values = .error .unicode ↔ ReachesNoUtf8 values.items := by
      rw [← normalize_eq_unicode]
      unfold encode
      cases normalize values.items with
      | error e => simp
      | ok result =>
        dsimp only
        split
        · simp
        · simp
    rw [← hunicode]
    unfold EncodesOrRejects
    cases hencode : encode values with
    | error e =>
      cases e with
      | rejected why => simp
      | unicode => simp
    | ok bytes =>
      have hend := endToEnd_of_encode hencode
      simpa using hend
  · unfold launcherLoad at h
    rw [Option.bind_eq_some_iff] at h
    obtain ⟨values, hload, h⟩ := h
    split at h
    · cases h
    · cases h
      exact loadEnvelope_permitted hload

/-- The value of one variable is half of a surrogate pair. -/
theorem surrogate_escapes : ¬ ∀ values : PyDict, EncodesOrRejects values := by
  intro h
  have hencode : encode ⟨[([.scalar 'A'], [.surrogate 0])], List.nodup_singleton _⟩ =
      .error .unicode := by decide
  rcases h ⟨[([.scalar 'A'], [.surrogate 0])], List.nodup_singleton _⟩ with
    ⟨why, hwhy⟩ | ⟨bytes, hbytes, -⟩
  · cases hencode.symm.trans hwhy
  · cases hencode.symm.trans hbytes

end Dt.Launch
