import Avionics.Proofs.Network.Accounting
import Avionics.Proofs.Network.Registry

namespace Avionics.Network

open Keyed (joinAll)
open Report (tally)

def Consistent (R : Channel → Channel → Prop) (cs : List Channel) : Prop :=
  ∀ c ∈ cs, ∀ d ∈ cs, c.name = d.name → R c d

section Consistent

variable {R : Channel → Channel → Prop} {cs : List Channel}

theorem consistent_perm {ds : List Channel} (h : cs.Perm ds) :
    Consistent R cs ↔ Consistent R ds := by
  simp only [Consistent, h.mem_iff]

theorem consistent_concat (hR : Equivalence R) (c : Channel) : Consistent R (cs ++ [c])
    ↔ Consistent R cs ∧ ∀ first ∈ cs.find? fun d => d.name = c.name, R c first := by
  have hfound : ∀ first ∈ cs.find? fun d => d.name = c.name, first ∈ cs ∧ first.name = c.name :=
    fun first hfirst =>
    ⟨List.mem_of_find?_eq_some hfirst, by simpa using List.find?_some hfirst⟩
  constructor
  · intro h
    refine ⟨fun d hd e he => h d (List.mem_append_left _ hd) e (List.mem_append_left _ he),
      fun first hfirst => ?_⟩
    obtain ⟨hmem, hname⟩ := hfound first hfirst
    exact h c (by simp) first (List.mem_append_left _ hmem) hname.symm
  · rintro ⟨hcs, hc⟩
    have hlast : ∀ d ∈ cs, d.name = c.name → R c d := by
      intro d hd hname
      cases hfirst : cs.find? fun d => d.name = c.name with
      | none => simpa [hname] using List.find?_eq_none.1 hfirst d hd
      | some first =>
        obtain ⟨hmem, hfirstname⟩ := hfound first hfirst
        exact hR.trans (hc first hfirst) (hcs first hmem d hd (hfirstname.trans hname.symm))
    intro d hd e he hname
    rcases List.mem_append.1 hd with hd | hd <;> rcases List.mem_append.1 he with he | he
    · exact hcs d hd e he hname
    · rw [List.mem_singleton.1 he] at hname ⊢
      exact hR.symm (hlast d hd hname)
    · rw [List.mem_singleton.1 hd] at hname ⊢
      exact hlast e he hname.symm
    · rw [List.mem_singleton.1 hd, List.mem_singleton.1 he]
      exact hR.refl c

end Consistent

theorem equivalence_header : Equivalence fun c d : Channel => c.header = d.header :=
  ⟨fun _ => rfl, Eq.symm, Eq.trans⟩

section Steps

variable (n : Network) (name : String) (c : Channel)

theorem clean_openComponent : (n.openComponent name).clean = true ↔ name ∉ n.components.keys := by
  rw [Noted.clean_iff, findings_openComponent, ← Keyed.contains_iff]
  split
  · next h => simp [h, Report.errors, Finding.isError, Finding.severity]
  · next h => simp [h]

theorem clean_link : (n.link name c).clean = true := by
  rw [Noted.clean_iff, Report.errors, List.countP_eq_zero]
  intro f hf
  rcases n.mem_findings_link name c hf with rfl | rfl | ⟨p, rfl⟩
    <;> simp [Finding.isError, Finding.severity]

theorem clean_declare :
    (n.declare name c).clean = (n.channels.absorb Channel.join c.name c).clean := by
  rw [declare_eq, Noted.clean_bind, clean_link, Bool.and_true]

end Steps

section Runs

variable {h : List Event} {x : Noted Network}

theorem Reaches.clean_absorb (hx : Reaches h x) (c : Channel) :
    (x.value.channels.absorb Channel.join c.name c).clean = true
      ↔ ∀ first ∈ (h.filterMap Event.channel?).find? fun d => d.name = c.name,
        c.compatible first = true := by
  rw [Keyed.clean_absorb, ← List.head?_filter]
  cases hfilter : (h.filterMap Event.channel?).filter fun d => d.name = c.name with
  | nil => simp [hx.get?_eq_none hfilter]
  | cons first later =>
    rw [hx.get?_eq_settled hfilter, Noted.joinOption_some, Noted.clean_map, Noted.clean_iff,
      Channel.findings_join_settled, Channel.errors_remark]
    simp

theorem Reaches.clean_iff (hx : Reaches h x) : x.clean = true ↔ (h.filterMap Event.opened?).Nodup
    ∧ Consistent (fun c d => c.compatible d = true) (h.filterMap Event.channel?) := by
  induction hx with
  | start => exact iff_of_true rfl ⟨List.nodup_nil, fun _ hc => (List.not_mem_nil hc).elim⟩
  | @opened h x name hx ih =>
    have hnodup : ∀ l : List String, (l ++ [name]).Nodup ↔ name ∉ l ∧ l.Nodup := fun l => by
      rw [(List.perm_append_comm : (l ++ [name]).Perm _).nodup_iff, List.singleton_append,
        List.nodup_cons]
    rw [Noted.clean_bind, Bool.and_eq_true, ih, clean_openComponent, hx.keys_components,
      List.mem_eraseDups, Event.filterMap_opened?_opened, Event.filterMap_channel?_opened, hnodup,
      and_right_comm, and_comm (a := _ ∉ _)]
  | @declared h x name c hx _ ih =>
    rw [Noted.clean_bind, Bool.and_eq_true, ih, clean_declare, Event.filterMap_opened?_declared,
      Event.filterMap_channel?_declared, consistent_concat Channel.equivalence_compatible,
      hx.clean_absorb, and_assoc]

theorem tally_mismatch_link (n : Network) (name : String) (c : Channel) :
    tally "header_mismatch" (n.link name c).findings = 0 := by
  apply Report.tally_eq_zero
  intro f hf
  rcases n.mem_findings_link name c hf with rfl | rfl | ⟨p, rfl⟩ <;> simp [Finding.kind]

theorem tally_mismatch_remark {first : Channel} {header : Header} {new : Channel}
    (h : new.compatible first = true) :
    tally "header_mismatch" (Channel.remark first header new) = 0 ↔ new.header = header := by
  rw [Channel.remark, if_pos h]
  split
  · next hheader => exact iff_of_true rfl hheader
  · next hheader => exact iff_of_false (by simp [Finding.kind]) hheader

theorem Reaches.tally_mismatch_absorb (hx : Reaches h x) (c : Channel)
    (hclean : (x.value.channels.absorb Channel.join c.name c).clean = true)
    (hheaders : Consistent (fun c d => c.header = d.header) (h.filterMap Event.channel?)) :
    tally "header_mismatch" (x.value.channels.absorb Channel.join c.name c).findings = 0
      ↔ ∀ first ∈ (h.filterMap Event.channel?).find? fun d => d.name = c.name,
        c.header = first.header := by
  have hcompatible := (hx.clean_absorb c).1 hclean
  rw [← List.head?_filter] at hcompatible
  rw [Keyed.findings_absorb, ← List.head?_filter]
  cases hfilter : (h.filterMap Event.channel?).filter fun d => d.name = c.name with
  | nil => simp [hx.get?_eq_none hfilter]
  | cons first later =>
    have hmem := mem_of_filter_named hfilter
    have hfirst := hmem first List.mem_cons_self
    obtain ⟨d, hd, hsettled⟩ := Channel.settledHeader_mem first later
    have hheader : first.settledHeader later = first.header :=
      hsettled.trans (hheaders d (hmem d hd).1 first hfirst.1 ((hmem d hd).2.trans hfirst.2.symm))
    rw [hx.get?_eq_settled hfilter, Noted.joinOption_some, Noted.findings_map,
      Channel.findings_join_settled,
      tally_mismatch_remark (hcompatible first (by rw [hfilter]; rfl)), hheader]
    simp

theorem Reaches.tally_mismatch (hx : Reaches h x) (hclean : x.clean = true) :
    tally "header_mismatch" x.findings = 0
    ↔ Consistent (fun c d => c.header = d.header) (h.filterMap Event.channel?) := by
  induction hx with
  | start => exact iff_of_true rfl fun _ hc => (List.not_mem_nil hc).elim
  | @opened h x name hx ih =>
    rw [Noted.clean_bind, Bool.and_eq_true] at hclean
    rw [Noted.findings_bind, Report.tally_append, tally_openComponent,
      if_neg (fun h => absurd h.1 (by decide)),
      Event.filterMap_channel?_opened]
    exact ih hclean.1
  | @declared h x name c hx _ ih =>
    rw [Noted.clean_bind, Bool.and_eq_true, clean_declare] at hclean
    rw [Noted.findings_bind, Report.tally_append, declare_eq, Noted.findings_bind,
      Report.tally_append, tally_mismatch_link, Nat.add_zero, Nat.add_eq_zero_iff, ih hclean.1,
      Event.filterMap_channel?_declared, consistent_concat equivalence_header]
    exact and_congr_right fun hheaders => hx.tally_mismatch_absorb c hclean.2 hheaders

end Runs

end Avionics.Network
