import Dt.Distribution.Locks

/-!
# What a site cache publishes

A staging directory becomes a cache object only when the last event that concerns its code is a verification that read
the digest of the object: no write came in between, and no other name is published.
-/

namespace Dt.Distribution

open Dt.Lib Dt.Topology
open Dt.Layout (nodePath)

/-- Whether a staging directory becomes a cache object. -/
def Call.publishes : Call → Bool
  | .publish .. => true
  | _ => false

/-- When a staging directory may become a cache object. -/
structure Publishable (h : Head) (site : Site) (digest : String) (past : History) (node : Node) (staging final : String) :
    Prop where
  object : cacheObjectRoot h site node digest = .ok final
  verified : ∃ code, nodePath staging ["code".toList] = .ok code ∧ Verified node code digest past

/-- Every publication so far was one of the digest, and verified. -/
abbrev Published (h : Head) (site : Site) (digest : String) : History → Prop :=
  Throughout fun past c => ∀ node staging final, c = .publish node staging final →
    Publishable h site digest past node staging final

section

variable {h : Head} {site : Site} {digest : String} {destination : Node} {codeDir : String}

theorem query_published {c : Call} (hc : c.publishes = false) : (query c).Keeps (Published h site digest) :=
  (asks_query.mpr hc : (query c).Asks (·.publishes = false)).keeps fun _ _ _ hc hpast =>
    ⟨fun _ _ _ heq => absurd ((congrArg Call.publishes heq).symm.trans hc) Bool.false_ne_true.symm, hpast⟩

theorem quiet_published {α : Type} {p : M α} (hp : Quiet p) : p.Keeps (Published h site digest) :=
  hp.keeps fun past c a hc hpast =>
    query_published (by cases c <;> first | rfl | exact absurd hc Bool.false_ne_true) past hpast a

/-- A staging code that was verified, with what was published before. -/
def Staged (h : Head) (site : Site) (digest : String) (node : Node) (code : String) (past : History) : Prop :=
  Published h site digest past ∧ Verified node code digest past

theorem quiet_staged {α : Type} {node : Node} {code : String} {p : M α} (hp : Quiet p)
    (hother : p.Asks fun c => c.isOther = true) : p.Keeps (Staged h site digest node code) := fun past hpast =>
  ((quiet_published hp past hpast.1).and (hpast.2.keeps hother)).mono fun _ _ h => h

theorem populateCache_published (cache : Node) :
    (populateCache h site cache digest).Keeps (Published h site digest) := by
  have hwrite : ∀ c : Call, c.publishes = false → (query c).Keeps (Published h site digest) := fun c => query_published
  have hsample : ∀ bytes, Quiet (recordLinkSample "head" cache.name bytes) := fun _ => recordLinkSample_quiet ..
  refine path_keeps fun base _ => path_keeps fun final hfinal => path_keeps fun staging _ =>
    path_keeps fun code hcode => path_keeps fun _ _ => (hwrite _ rfl).bind fun _ => Prog.keeps_done.bind fun _ => ?_
  refine Prog.Keeps.bind_yields (verifiedTransfer_keeps (fun checksum => (hwrite _ rfl).bind fun _ =>
    Prog.keeps_done.bind fun proc => ?_) (quiet_published (require_quiet ..)))
    (verifiedTransfer_yields require_verified) fun transferred past hpublished hverified => ?_
  · split
    · exact Prog.keeps_done
    · exact (quiet_published (hsample _)).bind fun _ => Prog.keeps_done
  · have hleft : ∀ past, Staged h site digest cache code past → Published h site digest past := fun _ h => h.1
    have huuid : (query .uuid).Keeps (Staged h site digest cache code) :=
      quiet_staged (asks_query.mpr rfl) (asks_query.mpr rfl)
    have hpath : ∀ x, (path x).Keeps (Staged h site digest cache code) := fun x =>
      quiet_staged (path_quiet x) Prog.asks_lift
    refine huuid.leads hleft (fun _ => (hpath _).leads hleft fun _ => huuid.leads hleft fun _ => (hpath _).leads hleft
      fun _ past hstaged => ?_) past ⟨hpublished, hverified⟩
    rw [Prog.ensures_bind, ensures_query]
    intro reply
    have hnow : Published h site digest (⟨.publish cache staging final, reply⟩ :: past) := by
      refine ⟨?_, hstaged.1⟩
      rintro _ _ _ ⟨⟩
      exact ⟨hfinal, code, hcode, hstaged.2⟩
    exact (Prog.keeps_done.bind fun _ => Prog.keeps_done) _ hnow

end

/-- Whatever is answered, under every policy: a staging directory becomes a cache object only under the name of the
digest, and behind a verification of its code that read the digest, with no write to any node after it. -/
theorem publish_verified (h : Head) (digest : String) (destination : Node) (codeDir : String)
    (answer : History → (c : Call) → Answer c) :
    Throughout (fun past c => ∀ node staging final, c = .publish node staging final →
        ∃ site code later reply earlier, h.topology.siteFor destination = .ok (some site) ∧
          cacheObjectRoot h site node digest = .ok final ∧ nodePath staging ["code".toList] = .ok code ∧
          past = later ++ ⟨.digest node code, reply⟩ :: earlier ∧ readDigest reply = .ok digest ∧
          ∀ e ∈ later, e.query.writes = false)
      ((ensure h digest destination codeDir).run answer []).1 := by
  refine throughout_iff.mpr fun after e past hrun node staging final hcall => ?_
  by_cases hsite : ∃ site, h.topology.siteFor destination = .ok (some site)
  · obtain ⟨site, hsite⟩ := hsite
    have hguards : Guards h site digest destination fun _ => Published h site digest := guards_of_calls
      (fun c hc => query_published (by cases c <;> first | rfl | exact absurd hc.symm Bool.false_ne_true))
      populateCache_published
    have hkeeps : (ensure h digest destination codeDir).Keeps (Published h site digest) := ensure_keeps hguards hsite
    have hpublished := (hkeeps [] trivial).run answer
    obtain ⟨hobject, code, hcode, hverified⟩ := throughout_iff.mp hpublished _ _ _ hrun node staging final hcall
    obtain ⟨later, reply, earlier, heq, hgood, hlater⟩ := verified_split hverified
    exact ⟨site, code, later, reply, earlier, hsite, hobject, hcode, heq, hgood, fun e he => (hlater e he).1⟩
  · have hquiet : Quiet (ensure h digest destination codeDir) := ensure_quiet fun site hs => hsite ⟨site, hs⟩
    have hnone := hquiet.run answer e (hrun ▸ List.mem_append_right _ List.mem_cons_self)
    rw [hcall] at hnone
    exact absurd hnone Bool.false_ne_true

end Dt.Distribution
