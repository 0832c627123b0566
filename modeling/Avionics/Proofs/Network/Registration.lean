import Avionics.Proofs.Network.Consistency
import Avionics.Proofs.Related

namespace Avionics

def Component.side (c : Component) (d : Direction) : List String :=
  (c.channels.filter (·.direction = d)).map (·.name)

namespace Network

open Keyed (valuesOf)

variable {h : List Event} {x : Noted Network}

section Events

theorem mem_filterMap_link? {d : Direction} {component name : String} :
    (component, name) ∈ h.filterMap (Event.link? d)
    ↔ ∃ c, Event.declared component c ∈ h ∧ c.direction = d ∧ c.name = name := by
  rw [List.mem_filterMap]
  constructor
  · rintro ⟨_ | ⟨other, c⟩, hmem, hlink⟩
    · cases hlink
    · rw [Event.link?] at hlink
      split at hlink
      · next hd =>
        cases hlink
        exact ⟨c, hmem, hd, rfl⟩
      · cases hlink
  · rintro ⟨c, hmem, rfl, rfl⟩
    exact ⟨_, hmem, if_pos rfl⟩

theorem mem_filterMap_channel? {c : Channel} :
    c ∈ h.filterMap Event.channel? ↔ ∃ name, Event.declared name c ∈ h := by
  rw [List.mem_filterMap]
  constructor
  · rintro ⟨_ | ⟨name, c⟩, hmem, ⟨⟩⟩
    exact ⟨name, hmem⟩
  · rintro ⟨name, hmem⟩
    exact ⟨_, hmem, rfl⟩

def componentsOf (docs : List Document) : List Component := docs.flatMap (·.components)

theorem events_eq (docs : List Document) :
    events docs = (componentsOf docs).flatMap componentEvents :=
  List.flatMap_assoc.symm

theorem flatMap_channels_componentsOf (docs : List Document) :
    (componentsOf docs).flatMap (·.channels) = declarations docs := List.flatMap_assoc

theorem mem_events_declared {docs : List Document} {name : String} {channel : Channel} :
    Event.declared name channel ∈ events docs ↔ ∃ c ∈ componentsOf docs, c.name = name
      ∧ channel ∈ c.channels := by
  rw [events_eq, List.mem_flatMap]
  refine exists_congr fun c => and_congr_right fun _ => ?_
  rw [componentEvents, List.mem_cons, List.mem_map]
  constructor
  · rintro (⟨⟨⟩⟩ | ⟨channel, hchannel, ⟨⟩⟩)
    exact ⟨rfl, hchannel⟩
  · rintro ⟨rfl, hchannel⟩
    exact .inr ⟨channel, hchannel, rfl⟩

theorem filterMap_opened?_events (docs : List Document) :
    (events docs).filterMap Event.opened? = (componentsOf docs).map (·.name) := by
  have hcomponent : ∀ c, (componentEvents c).filterMap Event.opened? = [c.name] := by
    intro c
    have hdeclared : (c.channels.map (Event.declared c.name)).filterMap Event.opened? = [] := by
      rw [List.filterMap_map]
      exact List.filterMap_eq_nil_iff.2 fun _ _ => rfl
    show c.name :: (c.channels.map (Event.declared c.name)).filterMap Event.opened? = _
    rw [hdeclared]
  rw [events_eq, List.filterMap_flatMap, List.map_eq_flatMap]
  simp only [hcomponent]

theorem filterMap_link?_events (docs : List Document) (d : Direction) :
    (events docs).filterMap (Event.link? d)
    = (componentsOf docs).flatMap fun c => (c.side d).map (c.name, ·) := by
  have hcomponent : ∀ c, (componentEvents c).filterMap (Event.link? d)
      = (c.side d).map (c.name, ·) := by
    intro c
    rw [componentEvents, List.filterMap_cons_none rfl, List.filterMap_map, Component.side,
      List.map_map, ← List.filterMap_eq_map, List.filterMap_filter]
    exact List.filterMap_congr fun channel _ => by simp [Event.link?]
  rw [events_eq, List.filterMap_flatMap]
  simp only [hcomponent]

end Events

section Registered

/-- What components list is stored, and nothing else, components and channels under their
own names. -/
structure Registered (n : Network) : Prop where
  name_component : ∀ {component i}, n.components.get? component = some i → i.name = component
  name_eq : ∀ {name c}, n.channels.get? name = some c → c.name = name
  exists_channel : ∀ {component i}, n.components.get? component = some i →
    ∀ {d name}, name ∈ (i.side d).keys → ∃ c, n.channels.get? name = some c
  exists_side : ∀ {name c}, n.channels.get? name = some c →
    ∃ component i d, n.components.get? component = some i ∧ name ∈ (i.side d).keys

theorem Reaches.mem_side_iff (hx : Reaches h x) {component : String} {i : Interface}
    (hi : x.value.components.get? component = some i) (d : Direction) (name : String) :
    name ∈ (i.side d).keys ↔ ∃ c, Event.declared component c ∈ h ∧ c.direction = d
      ∧ c.name = name := by
  rw [hx.keys_side d hi, List.mem_eraseDups, Keyed.mem_valuesOf, mem_filterMap_link?]

theorem Reaches.mem_link_iff (hx : Reaches h x) {d : Direction} {component name : String} :
    (component, name) ∈ h.filterMap (Event.link? d)
      ↔ ∃ i, x.value.components.get? component = some i ∧ name ∈ (i.side d).keys := by
  constructor
  · intro hlink
    have hopened := hx.opened_of_link hlink
    rw [← List.mem_eraseDups, ← hx.keys_components, Keyed.mem_keys_iff] at hopened
    obtain ⟨i, hi⟩ := hopened
    exact ⟨i, hi, (hx.mem_side_iff hi d name).2 (mem_filterMap_link?.1 hlink)⟩
  · rintro ⟨i, hi, hname⟩
    exact mem_filterMap_link?.2 ((hx.mem_side_iff hi d name).1 hname)

theorem Reaches.registered (hx : Reaches h x) : Registered x.value where
  name_component := hx.name_component
  name_eq {name c} hc := by
    cases hfilter : (h.filterMap Event.channel?).filter fun c => c.name = name with
    | nil => cases hc.symm.trans (hx.get?_eq_none hfilter)
    | cons first later =>
      cases hc.symm.trans (hx.get?_eq_settled hfilter)
      exact (mem_of_filter_named hfilter first List.mem_cons_self).2
  exists_channel {component i} hi {d name} hname := by
    obtain ⟨c, hc, -, rfl⟩ := (hx.mem_side_iff hi d name).1 hname
    rw [← Keyed.mem_keys_iff, hx.keys_channels, List.mem_eraseDups]
    exact List.mem_map_of_mem (mem_filterMap_channel?.2 ⟨component, hc⟩)
  exists_side {name stored} hstored := by
    obtain ⟨c, hc, hname, -⟩ := hx.exists_declared hstored
    obtain ⟨component, hc⟩ := mem_filterMap_channel?.1 hc
    obtain ⟨i, hi, hname⟩ := hx.mem_link_iff.1 (mem_filterMap_link?.2 ⟨c, hc, rfl, hname⟩)
    exact ⟨component, i, c.direction, hi, hname⟩

theorem Reaches.compatible_of_clean (hx : Reaches h x) (hclean : x.findings.errors = 0)
    {stored c : Channel}
    (hstored : x.value.channels.get? c.name = some stored) (hc : c ∈ h.filterMap Event.channel?) :
    stored.compatible c = true := by
  obtain ⟨first, hfirst, hname, hcompatible⟩ := hx.exists_declared hstored
  have hconsistent := (hx.clean_iff.1 (Noted.clean_iff.2 hclean)).2
  exact Channel.compatible_trans hcompatible (hconsistent first hfirst c hc hname)

end Registered

section Producers

/-- The producer of a channel is the component that declared it as an output last. -/
theorem Reaches.get?_producers (hx : Reaches h x) (name : String) : x.value.producers.get? name
    = ((h.filterMap (Event.link? .output)).filter fun l => l.2 = name).getLast?.map Prod.fst := by
  induction hx with
  | start => rfl
  | opened other _ ih =>
    rw [Noted.value_bind, producers_openComponent, ih, Event.filterMap_link?_opened]
  | @declared h x component c hx hcomponent ih =>
    obtain ⟨held, hheld⟩ := hx.exists_component hcomponent
    rw [Noted.value_bind, producers_declare hheld, hx.name_component hheld,
      Event.filterMap_link?_declared]
    by_cases hd : c.direction = .output
    · rw [if_pos hd, if_pos hd, Keyed.get?_insert, List.filter_append]
      by_cases hname : name = c.name
      · simp [hname]
      · have hlast : [(component, c.name)].filter (fun l => l.2 = name) = [] := by
          simp [Ne.symm hname]
        rw [if_neg hname, hlast, List.append_nil, ih]
    · rw [if_neg hd, if_neg hd, ih]

theorem get?_producers_merge (docs : List Document) (name : String) :
    (docs.foldlM merge {}).value.producers.get? name
    = ((componentsOf docs).filter fun c => name ∈ c.side .output).getLast?.map (·.name) := by
  have hlinks : ∀ c : Component,
      ((c.side .output).map (c.name, ·)).filter (fun l => l.2 = name) ≠ []
      ↔ name ∈ c.side .output := fun c => by simp [List.filter_eq_nil_iff]
  rw [(reaches_merge docs).get?_producers, filterMap_link?_events, List.filter_flatMap,
    getLast?_flatMap]
  simp only [hlinks]
  cases hc : ((componentsOf docs).filter fun c => name ∈ c.side .output).getLast? with
  | none => rfl
  | some c =>
    have hmem := of_decide_eq_true (List.mem_filter.1 (List.mem_of_getLast? hc)).2
    obtain ⟨l, hl⟩ :=
      Option.ne_none_iff_exists'.1 (mt List.getLast?_eq_none_iff.1 ((hlinks c).2 hmem))
    obtain ⟨_, _, rfl⟩ := List.mem_map.1 (List.mem_of_mem_filter (List.mem_of_getLast? hl))
    rw [Option.bind_some, hl]
    rfl

end Producers

section Clean

variable {docs : List Document} (hclean : (docs.foldlM merge {}).findings.errors = 0)
include hclean

theorem nodup_names : ((componentsOf docs).map (·.name)).Nodup := by
  rw [← filterMap_opened?_events]
  exact ((reaches_merge docs).clean_iff.1 (Noted.clean_iff.2 hclean)).1

theorem forall₂_entries : List.Forall₂ (fun c e => c.name = e.1) (componentsOf docs)
    (docs.foldlM merge {}).value.components.entries := by
  have hkeys := (reaches_merge docs).keys_components
  rw [filterMap_opened?_events, eraseDups_of_nodup (nodup_names hclean)] at hkeys
  have hnames : List.Forall₂ Eq ((componentsOf docs).map (·.name))
      (docs.foldlM merge {}).value.components.keys := by
    rw [List.forall₂_eq_eq_eq]
    exact hkeys.symm
  rw [List.forall₂_map_left_iff] at hnames
  exact List.forall₂_map_right_iff.1 hnames

theorem mem_side_iff {c : Component} (hc : c ∈ componentsOf docs) {i : Interface}
    (hi : (docs.foldlM merge {}).value.components.get? c.name = some i) (d : Direction)
    (name : String) : name ∈ (i.side d).keys ↔ name ∈ c.side d := by
  rw [(reaches_merge docs).mem_side_iff hi, Component.side, List.mem_map]
  refine exists_congr fun channel => ?_
  rw [List.mem_filter, decide_eq_true_eq, mem_events_declared, and_assoc]
  refine and_congr_left fun _ => ⟨?_, fun hchannel => ⟨c, hc, rfl, hchannel⟩⟩
  rintro ⟨c', hc', hname, hchannel⟩
  rwa [List.inj_on_of_nodup_map (nodup_names hclean) hc' hc hname] at hchannel

theorem get?_producers_of_clean (name : String) : (docs.foldlM merge {}).value.producers.get? name
    = ((docs.foldlM merge {}).value.components.entries.filter fun e =>
      name ∈ e.2.outputs.keys).getLast?.map Prod.fst := by
  have hrelated : List.Forall₂
      (fun c e => c.name = e.1 ∧ (name ∈ c.side .output ↔ name ∈ e.2.outputs.keys))
      (componentsOf docs) (docs.foldlM merge {}).value.components.entries := by
    refine forall₂_imp_of_mem (forall₂_entries hclean) fun c hc e he hname => ⟨hname, ?_⟩
    have hget : (docs.foldlM merge {}).value.components.get? c.name = some e.2 := by
      rw [hname]
      exact Keyed.get?_eq_some_iff.2 he
    exact (mem_side_iff hclean hc hget .output name).symm
  rw [get?_producers_merge]
  have hlast := getLast?_of_forall₂ (List.rel_filter (p := fun c => name ∈ c.side .output)
    (q := fun e => name ∈ e.2.outputs.keys) (fun _ _ h => by simpa using h.2) hrelated)
  generalize ((componentsOf docs).filter _).getLast? = c at hlast
  generalize List.getLast? _ = e at hlast
  cases hlast with
  | none => rfl
  | some h => exact congrArg some h.1

end Clean

end Network

end Avionics
