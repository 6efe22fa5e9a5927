import Dt.Lib.Decimals
import Dt.Lib.Fallible
import Dt.Lib.LastLines

/-!
# Address literals

What `ipaddress.ip_address` takes for an address, of texts without a `/` or a scope: four octets, or groups of
hexadecimal digits of which one run may be left out, the last two perhaps as octets. An address with points is a run of
labels from some colon on, and one without them begins with a group.
-/

namespace Dt.Remote

open Dt.Lib

def isHexDigit (c : Char) : Bool := isDigit c || ('a' ≤ c && c ≤ 'f') || ('A' ≤ c && c ≤ 'F')

/-- `_parse_octet` -/
def parseOctet (s : List Char) : Option Nat :=
  if s = [] ∨ s.all isDigit = false ∨ 3 < s.length ∨ (s ≠ ['0'] ∧ s.head? = some '0') then none
  else (digitsValue s).filter (· ≤ 255)

/-- `IPv4Address(s)` -/
def ipv4Address (s : List Char) : Option Nat :=
  if (splitOn '.' s).length = 4 then
    ((splitOn '.' s).mapM parseOctet).map fun octets => octets.foldl (256 * · + ·) 0
  else none

/-- `_parse_hextet` returns. -/
def isHextet (s : List Char) : Bool := s ≠ [] && s.all isHexDigit && s.length ≤ 4

/-- The parts between the colons, with an address of the older kind at the end as two of them. -/
def ipv6Parts (s : List Char) : Option (List (List Char)) :=
  let parts := splitOn ':' s
  let last := parts.getLast?.getD []
  if parts.length < 3 then none
  else if '.' ∈ last then
    (ipv4Address last).map fun n => parts.dropLast ++ [Nat.toDigits 16 (n / 65536 % 65536), Nat.toDigits 16 (n % 65536)]
  else some parts

/-- The places of the empty parts between the first one and the last. -/
def skipIndices (parts : List (List Char)) : List Nat :=
  (List.range parts.length).filter fun i => 1 ≤ i && i + 1 < parts.length && parts[i]? = some []

/-- The parts are those of an address. -/
def checkParts (parts : List (List Char)) : Bool :=
  let bareHead : Bool := parts.head? = some []
  let bareLast : Bool := parts.getLast? = some []
  parts.length ≤ 9 &&
  match skipIndices parts with
  | [] => parts.length = 8 && !bareHead && !bareLast && parts.all isHextet
  | [i] =>
    let hi := if bareHead then i - 1 else i
    let lo := if bareLast then parts.length - i - 2 else parts.length - i - 1
    !(bareHead && hi ≠ 0) && !(bareLast && lo ≠ 0) && hi + lo < 8 && (parts.take hi).all isHextet &&
      (parts.drop (parts.length - lo)).all isHextet
  | _ => false

/-- `IPv6Address(s)` returns. -/
def isIpv6 (s : List Char) : Bool := (ipv6Parts s).any checkParts

/-- `ipaddress.ip_address(s)` returns. -/
def isIpAddress (s : List Char) : Bool := (ipv4Address s).isSome || isIpv6 s

/-! ## Their parts -/

theorem parseOctet_digits {s : List Char} {n : Nat} (h : parseOctet s = some n) :
    s ≠ [] ∧ ∀ c ∈ s, isDigit c = true := by
  rw [parseOctet] at h
  split at h
  · cases h
  · rename_i hok
    obtain ⟨hne, hdigits, -⟩ := not_or.mp hok |>.imp_right not_or.mp
    exact ⟨hne, List.all_eq_true.mp (by simpa using hdigits)⟩

theorem ipv4_octets {s : List Char} (h : (ipv4Address s).isSome = true) :
    (splitOn '.' s).length = 4 ∧ ∀ octet ∈ splitOn '.' s, octet ≠ [] ∧ ∀ c ∈ octet, isDigit c = true := by
  rw [ipv4Address] at h
  split at h
  · rename_i hlen
    obtain ⟨n, hn⟩ := Option.isSome_iff_exists.mp h
    obtain ⟨values, hvalues, -⟩ := Option.map_eq_some_iff.mp hn
    refine ⟨hlen, fun octet hoctet => ?_⟩
    obtain ⟨v, hv⟩ := Option.isSome_iff_exists.mp (mapM_isSome.mp ⟨values, hvalues⟩ octet hoctet)
    exact parseOctet_digits hv
  · cases h

theorem isHextet_spec {s : List Char} (h : isHextet s = true) :
    s ≠ [] ∧ (∀ c ∈ s, isHexDigit c = true) ∧ s.length ≤ 4 := by
  simpa [isHextet, and_assoc] using h

/-- A part of an address is left out or a group. -/
theorem checkParts_mem {parts : List (List Char)} (h : checkParts parts = true) :
    ∀ part ∈ parts, part = [] ∨ isHextet part = true := by
  intro part hpart
  obtain ⟨j, hj⟩ := List.mem_iff_getElem?.mp hpart
  obtain ⟨hlt, -⟩ := List.getElem?_eq_some_iff.mp hj
  have h := (Bool.and_eq_true_iff.mp h).2
  cases hskip : skipIndices parts with
  | nil =>
    rw [hskip] at h
    exact .inr (List.all_eq_true.mp (Bool.and_eq_true_iff.mp h).2 part hpart)
  | cons i others =>
    obtain ⟨-, hi⟩ := List.mem_filter.mp (hskip ▸ List.mem_cons_self : i ∈ skipIndices parts)
    simp only [Bool.and_eq_true, decide_eq_true_eq] at hi
    obtain ⟨⟨hfirst, hlast⟩, hempty⟩ := hi
    rw [hskip] at h
    cases others with
    | cons i' others => cases h
    | nil =>
      simp only [Bool.and_eq_true, Bool.not_eq_true', Bool.and_eq_false_iff, decide_eq_false_iff_not, not_not] at h
      obtain ⟨⟨⟨⟨hhead, htail⟩, -⟩, hhi⟩, hlo⟩ := h
      rcases Nat.lt_trichotomy j i with hbefore | rfl | hbehind
      · by_cases hbare : parts.head? = some []
        · simp only [hbare, not_true, false_or, decide_true, if_true] at hhead
          obtain rfl : j = 0 := by omega
          rw [List.head?_eq_getElem?, hj] at hbare
          exact .inl (Option.some.inj hbare)
        · rw [decide_eq_false hbare] at hhi
          refine .inr (List.all_eq_true.mp hhi part (@List.mem_of_getElem? _ _ j _ ?_))
          rw [List.getElem?_take, if_pos (by simpa using hbefore), hj]
      · exact .inl (Option.some.inj (hj.symm.trans hempty))
      · by_cases hbare : parts.getLast? = some []
        · simp only [hbare, not_true, false_or, decide_true, if_true] at htail
          obtain rfl : j = parts.length - 1 := by omega
          rw [List.getLast?_eq_getElem?, hj] at hbare
          exact .inl (Option.some.inj hbare)
        · rw [decide_eq_false hbare] at hlo
          refine .inr (List.all_eq_true.mp hlo part (@List.mem_of_getElem? _ _ (j - (i + 1)) _ ?_))
          rw [List.getElem?_drop, ← hj]
          congr 1
          simp only [Bool.false_eq_true, if_false]
          omega

theorem isHexDigit_point : isHexDigit '.' = false := by decide

theorem ipv6_parts {s : List Char} (h : isIpv6 s = true) : 3 ≤ (splitOn ':' s).length ∧
    if '.' ∈ (splitOn ':' s).getLast?.getD [] then (ipv4Address ((splitOn ':' s).getLast?.getD [])).isSome = true
    else ∀ part ∈ splitOn ':' s, part = [] ∨ isHextet part = true := by
  rw [isIpv6] at h
  cases hparts : ipv6Parts s with
  | none =>
    rw [hparts] at h
    cases h
  | some parts =>
    rw [hparts] at h
    simp only [ipv6Parts] at hparts
    split at hparts
    · cases hparts
    rename_i hlen
    refine ⟨Nat.le_of_not_lt hlen, ?_⟩
    split at hparts
    · rename_i hlast
      obtain ⟨n, hn, -⟩ := Option.map_eq_some_iff.mp hparts
      rw [if_pos hlast, hn]
      rfl
    · rename_i hlast
      obtain rfl := Option.some.inj hparts
      rw [if_neg hlast]
      exact checkParts_mem h

/-- An address with points ends with one of the older kind. -/
theorem ipv6_octets {s : List Char} (h : isIpv6 s = true) (hpoint : '.' ∈ s) :
    ∃ front last, s = front ++ ':' :: last ∧ (ipv4Address last).isSome = true := by
  obtain ⟨hlen, hparts⟩ := ipv6_parts h
  split at hparts
  · generalize hsplit : splitOn ':' s = parts at *
    rcases List.eq_nil_or_concat parts with rfl | ⟨front, last, rfl⟩
    · cases hlen
    rw [List.concat_eq_append] at *
    rw [List.getLast?_concat, Option.getD_some] at hparts
    refine ⟨joinWith [':'] front, last, ?_, hparts⟩
    have hfront : front ≠ [] := by
      rintro rfl
      simp at hlen
    rw [← joinWith_splitOn ':' s, hsplit, joinWith_append hfront (List.cons_ne_nil _ _), List.append_assoc]
    rfl
  · rw [← joinWith_splitOn ':' s] at hpoint
    rcases mem_joinWith hpoint with hpoint | ⟨part, hpart, hpoint⟩
    · exact absurd hpoint (by decide)
    · rcases hparts part hpart with rfl | hpart
      · cases hpoint
      · cases isHexDigit_point.symm.trans ((isHextet_spec hpart).2.1 _ hpoint)

/-- An address without points begins with a group if it does not begin with a colon. -/
theorem ipv6_group {s : List Char} (h : isIpv6 s = true) (hpoint : '.' ∉ s) (hhead : s.head? ≠ some ':') :
    ∃ group rest, s = group ++ ':' :: rest ∧ rest ≠ [] ∧ isHextet group = true := by
  obtain ⟨hlen, hparts⟩ := ipv6_parts h
  rw [if_neg] at hparts
  · obtain ⟨group, others, hsplit, -, ⟨rfl, -⟩ | ⟨rest, rfl, rfl⟩⟩ := splitOn_head ':' s
    · rw [hsplit] at hlen
      simp at hlen
    · refine ⟨group, rest, rfl, ?_, ?_⟩
      · rintro rfl
        rw [hsplit] at hlen
        simp [splitOn, splitOnAux] at hlen
      · rcases hparts group (hsplit ▸ List.mem_cons_self) with rfl | hgroup
        · exact absurd rfl hhead
        · exact hgroup
  · intro hlast
    cases hget : (splitOn ':' s).getLast? with
    | none =>
      rw [hget] at hlast
      cases hlast
    | some last =>
      rw [hget, Option.getD_some] at hlast
      exact hpoint (joinWith_splitOn ':' s ▸ mem_joinWith_of_mem (List.mem_of_getLast? hget) hlast)

end Dt.Remote
