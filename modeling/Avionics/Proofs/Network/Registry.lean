import Avionics.Proofs.Network.Channel
import Avionics.Proofs.Network.Run
import Avionics.Proofs.Network.Step

namespace Avionics.Network

open Keyed (absorbAll joinAll valuesOf)

def declarations (docs : List Document) : List Channel :=
  docs.flatMap fun d => d.components.flatMap (·.channels)

theorem filterMap_channel?_events (docs : List Document) :
    (events docs).filterMap Event.channel? = declarations docs := by
  have hcomponent : ∀ c, (componentEvents c).filterMap Event.channel? = c.channels := by
    intro c
    rw [componentEvents, List.filterMap_cons_none rfl, List.filterMap_map]
    exact List.filterMap_some
  simp only [events, declarations, List.filterMap_flatMap, hcomponent]

def concerns (name : String) : Finding → Bool
  | .incompatible _ key .. => key = name
  | .headerMismatch channel .. => channel = name
  | _ => false

def named (cs : List Channel) : List (String × Channel) := cs.map fun c => (c.name, c)

theorem named_concat (cs : List Channel) (c : Channel) :
    named (cs ++ [c]) = named cs ++ [(c.name, c)] := List.map_append

theorem valuesOf_named (name : String) (cs : List Channel) :
    valuesOf name (named cs) = cs.filter fun c => c.name = name := by
  rw [valuesOf, named, List.filter_map, List.map_map]
  exact List.map_id _

theorem concerns_of_mem_remark {first c : Channel} {header : Header} {f : Finding}
    (hf : f ∈ Channel.remark first header c)
    (name : String) : concerns name f = decide (c.name = name) := by
  rw [Channel.remark] at hf
  split at hf
  · split at hf
    · cases hf
    · cases List.mem_singleton.1 hf
      rfl
  · cases List.mem_singleton.1 hf
    rfl

theorem filter_concerns_remark (name : String) (first : Channel) (header : Header) (c : Channel) :
    (Channel.remark first header c).filter (concerns name) = if c.name = name
      then Channel.remark first header c else [] := by
  split
  · next hname =>
    apply List.filter_eq_self.2
    intro f hf
    rw [concerns_of_mem_remark hf, decide_eq_true hname]
  · next hname =>
    apply List.filter_eq_nil_iff.2
    intro f hf
    rw [concerns_of_mem_remark hf, decide_eq_true_eq]
    exact hname

theorem filter_concerns_absorb (name : String) (m : Keyed String Channel) (c : Channel) :
    (m.absorb Channel.join c.name c).findings.filter (concerns name)
      = if c.name = name then (Noted.joinOption Channel.join (m.get? name) (some c)).findings
        else [] := by
  have hjoin : ∀ held, (Noted.joinOption Channel.join held (some c)).findings.filter (concerns name)
      = if c.name = name then (Noted.joinOption Channel.join held (some c)).findings else [] := by
    intro held
    cases held with
    | none => simp
    | some held =>
      rw [Noted.joinOption_some, Noted.findings_map, Channel.findings_join, filter_concerns_remark]
  rw [Keyed.findings_absorb, hjoin]
  by_cases hname : c.name = name
  · subst hname
    rfl
  · rw [if_neg hname, if_neg hname]

theorem filter_concerns_link (n : Network) (component name : String) (c : Channel) :
    (n.link component c).findings.filter (concerns name) = [] := by
  rw [List.filter_eq_nil_iff]
  intro f hf
  rcases n.mem_findings_link component c hf with rfl | rfl | ⟨p, rfl⟩ <;> simp [concerns]

section Invariants

variable {h : List Event} {x : Noted Network}

theorem Reaches.channels (hx : Reaches h x) :
    x.value.channels = (absorbAll Channel.join .empty
      (named (h.filterMap Event.channel?))).value := by
  induction hx with
  | start => rfl
  | opened name _ ih =>
    rw [Noted.value_bind, channels_openComponent, ih, Event.filterMap_channel?_opened]
  | declared name c _ _ ih =>
    rw [Noted.value_bind, channels_declare, ih, Event.filterMap_channel?_declared, named_concat,
      Keyed.absorbAll_concat]
    rfl

theorem Reaches.get?_channels (hx : Reaches h x) (name : String) : x.value.channels.get? name
    = (joinAll Channel.join none
      ((h.filterMap Event.channel?).filter fun c => c.name = name)).value := by
  rw [hx.channels, Keyed.get?_absorbAll, valuesOf_named]
  rfl

theorem Reaches.get?_eq_none (hx : Reaches h x) {name : String}
    (hnil : ((h.filterMap Event.channel?).filter fun c => c.name = name) = []) :
    x.value.channels.get? name = none := by
  rw [hx.get?_channels, hnil]
  rfl

theorem Reaches.get?_eq_settled (hx : Reaches h x) {name : String} {first : Channel}
    {later : List Channel}
    (hcons : ((h.filterMap Event.channel?).filter fun c => c.name = name) = first :: later) :
    x.value.channels.get? name = some (first.settled later) := by
  rw [hx.get?_channels, hcons]
  exact (Channel.joinAll_later first later).1

theorem Reaches.keys_channels (hx : Reaches h x) :
    x.value.channels.keys = ((h.filterMap Event.channel?).map (·.name)).eraseDups := by
  rw [hx.channels, Keyed.keys_absorbAll, named, List.map_map]
  rfl

theorem mem_of_filter_named {cs ds : List Channel} {name : String}
    (h : (cs.filter fun c => c.name = name) = ds) : ∀ d ∈ ds, d ∈ cs ∧ d.name = name := by
  subst h
  simp [List.mem_filter]

theorem Reaches.exists_declared (hx : Reaches h x) {name : String} {c : Channel}
    (hc : x.value.channels.get? name = some c) :
    ∃ first ∈ h.filterMap Event.channel?, first.name = name ∧ c.compatible first = true := by
  cases hfilter : (h.filterMap Event.channel?).filter fun c => c.name = name with
  | nil => cases hc.symm.trans (hx.get?_eq_none hfilter)
  | cons first later =>
    obtain ⟨hmem, hname⟩ := mem_of_filter_named hfilter first List.mem_cons_self
    cases hc.symm.trans (hx.get?_eq_settled hfilter)
    exact ⟨first, hmem, hname, Channel.compatible_refl first⟩

/-- What is noted about a channel depends on its own declarations alone. -/
theorem Reaches.findings_concerning (hx : Reaches h x) (name : String) :
    x.findings.filter (concerns name)
    = (joinAll Channel.join none
      ((h.filterMap Event.channel?).filter fun c => c.name = name)).findings := by
  induction hx with
  | start => rfl
  | @opened h x component hx ih =>
    have hopened : (x.value.openComponent component).findings.filter (concerns name) = [] := by
      rw [findings_openComponent]
      split <;> rfl
    rw [Noted.findings_bind, List.filter_append, hopened, List.append_nil, ih,
      Event.filterMap_channel?_opened]
  | @declared h x component c hx _ ih =>
    rw [Noted.findings_bind, List.filter_append, ih, declare_eq, Noted.findings_bind,
      List.filter_append, filter_concerns_link, List.append_nil, filter_concerns_absorb,
      hx.get?_channels, Event.filterMap_channel?_declared, List.filter_append]
    by_cases hname : c.name = name
    · have hlast : [c].filter (fun c => c.name = name) = [c] := by simp [hname]
      rw [if_pos hname, hlast, Keyed.joinAll_concat]
      rfl
    · have hlast : [c].filter (fun c => c.name = name) = [] := by simp [hname]
      rw [if_neg hname, hlast, List.append_nil, List.append_nil]

end Invariants

/-- Any run: each channel is its first declaration with the header settled by the later ones,
each later declaration was remarked on against what was stored just before it, and channels
are in the order of their first declarations. -/
theorem merge_channels (docs : List Document) :
    (docs.foldlM merge {}).value.channels.keys = ((declarations docs).map (·.name)).eraseDups ∧
    ∀ name, match (declarations docs).filter fun c => c.name = name with
      | [] => (docs.foldlM merge {}).value.channels.get? name = none
        ∧ (docs.foldlM merge {}).findings.filter (concerns name) = []
      | first :: later =>
        (docs.foldlM merge {}).value.channels.get? name = some (first.settled later)
        ∧ (docs.foldlM merge {}).findings.filter (concerns name) = first.remarks later := by
  have hrun := reaches_merge docs
  constructor
  · rw [hrun.keys_channels, filterMap_channel?_events]
  · intro name
    rw [hrun.get?_channels, hrun.findings_concerning, filterMap_channel?_events]
    split
    · next hnil =>
      rw [hnil]
      exact ⟨rfl, rfl⟩
    · next first later hcons =>
      rw [hcons]
      exact Channel.joinAll_later first later

end Avionics.Network
