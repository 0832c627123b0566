import Avionics.Proofs.Network.Accounting
import Avionics.Proofs.Network.Inversion
import Avionics.Proofs.Network.Registry

namespace Avionics

open Markup (Element)

def Finding.conflict? : Finding → Option String
  | .incompatible _ key .. => some key
  | _ => none

def Interface.inverted (i : Interface) : Interface where
  name := invertedComponent i.name
  inputs := i.outputs
  outputs := i.inputs

theorem invertedComponent_injective : Function.Injective invertedComponent :=
  fun _ _ h => (String.append_right_inj _).1 h

theorem Interface.side_inverted (i : Interface) (d : Direction) :
    i.inverted.side d = i.side d.inverted := by cases d <;> rfl

namespace Network

open Report (tally)

def conflicting (earlier : List Channel) (c : Channel) : Bool :=
  (earlier.find? fun d => d.name = c.name).any fun first => !c.compatible first

def conflicts (cs : List Channel) : List String :=
  cs.zipIdx.filterMap fun c => if conflicting (cs.take c.2) c.1 then some c.1.name else none

theorem conflicts_concat (cs : List Channel) (c : Channel) :
    conflicts (cs ++ [c]) = conflicts cs ++ if conflicting cs c then [c.name] else [] := by
  have hearlier : cs.zipIdx.filterMap
      (fun d => if conflicting ((cs ++ [c]).take d.2) d.1 then some d.1.name else none)
      = conflicts cs := by
    refine List.filterMap_congr fun d hd => ?_
    have hlt := (List.mem_zipIdx' hd).1
    rw [List.take_append_of_le_length (Nat.le_of_lt hlt)]
  rw [conflicts, List.zipIdx_append, List.filterMap_append, hearlier, List.zipIdx_singleton,
    Nat.zero_add]
  by_cases h : conflicting cs c <;> simp [h]

theorem filterMap_conflict?_remark (first : Channel) (header : Header) (c : Channel) :
    (Channel.remark first header c).filterMap Finding.conflict?
      = if c.compatible first then [] else [c.name] := by
  rw [Channel.remark]
  by_cases h : c.compatible first = true
  · by_cases hheader : c.header = header <;> simp [h, hheader, Finding.conflict?]
  · simp [h, Finding.conflict?]

theorem filterMap_conflict?_link (n : Network) (component : String) (c : Channel) :
    (n.link component c).findings.filterMap Finding.conflict? = [] := by
  rw [List.filterMap_eq_nil_iff]
  intro f hf
  rcases n.mem_findings_link component c hf with rfl | rfl | ⟨p, rfl⟩ <;> rfl

theorem filterMap_conflict?_openComponent (n : Network) (component : String) :
    (n.openComponent component).findings.filterMap Finding.conflict? = [] := by
  rw [findings_openComponent]
  split <;> rfl

section Runs

variable {h : List Event} {x : Noted Network}

/-- A stored channel is the first declaration of its name but for the header. -/
theorem Reaches.get?_channels_first (hx : Reaches h x) (name : String) :
    ∃ header, x.value.channels.get? name
    = ((h.filterMap Event.channel?).find? fun c => c.name = name).map fun first =>
    { first with header := header } := by
  rw [← List.head?_filter]
  cases hdeclared : (h.filterMap Event.channel?).filter fun c => c.name = name with
  | nil => exact ⟨{}, hx.get?_eq_none hdeclared⟩
  | cons first later => exact ⟨Channel.settledHeader first later, hx.get?_eq_settled hdeclared⟩

theorem Reaches.endpoint_channels (hx : Reaches h x) (name : String) :
    (x.value.channels.get? name).map (·.endpoint)
    = ((h.filterMap Event.channel?).find? fun c => c.name = name).map (·.endpoint) := by
  obtain ⟨header, hfirst⟩ := hx.get?_channels_first name
  rw [hfirst, Option.map_map]
  rfl

theorem Reaches.filterMap_conflict?_absorb (hx : Reaches h x) (c : Channel) :
    (x.value.channels.absorb Channel.join c.name c).findings.filterMap Finding.conflict?
      = if conflicting (h.filterMap Event.channel?) c then [c.name] else [] := by
  obtain ⟨header, hfirst⟩ := hx.get?_channels_first c.name
  rw [Keyed.findings_absorb, hfirst, conflicting]
  cases (h.filterMap Event.channel?).find? fun d => d.name = c.name with
  | none => simp
  | some first =>
    have hcompatible : c.compatible { first with header := header } = c.compatible first := rfl
    rw [Option.map_some, Noted.joinOption_some, Noted.findings_map, Channel.findings_join,
      filterMap_conflict?_remark, hcompatible]
    cases hc : c.compatible first <;> simp [hc]

theorem Reaches.conflicts (hx : Reaches h x) :
    x.findings.filterMap Finding.conflict? = conflicts (h.filterMap Event.channel?) := by
  induction hx with
  | start => rfl
  | @opened h x component _ ih =>
    rw [Noted.findings_bind, List.filterMap_append, filterMap_conflict?_openComponent,
      List.append_nil, ih, Event.filterMap_channel?_opened]
  | @declared h x component c hx _ ih =>
    rw [Noted.findings_bind, List.filterMap_append, ih, declare_eq, Noted.findings_bind,
      List.filterMap_append, filterMap_conflict?_link, List.append_nil,
      hx.filterMap_conflict?_absorb, Event.filterMap_channel?_declared, conflicts_concat]

end Runs

section Inverted

theorem find?_inverted (cs : List Channel) (name : String) :
    ((cs.map Channel.inverted).find? fun c => c.name = name)
    = (cs.find? fun c => c.name = name).map Channel.inverted := by
  rw [List.find?_map]
  rfl

theorem conflicting_inverted (earlier : List Channel) (c : Channel) :
    conflicting (earlier.map Channel.inverted) c.inverted = conflicting earlier c := by
  rw [conflicting, find?_inverted, Option.any_map]
  rfl

theorem conflicts_inverted (cs : List Channel) :
    conflicts (cs.map Channel.inverted) = conflicts cs := by
  rw [conflicts, List.zipIdx_map, List.filterMap_map]
  refine List.filterMap_congr fun c _ => ?_
  simp only [Function.comp, Prod.map, id, ← List.map_take, conflicting_inverted]
  rfl

def Event.inverted : Event → Event
  | opened name => opened (invertedComponent name)
  | declared name c => declared (invertedComponent name) c.inverted

theorem events_inverted (docs : List Document) :
    events (docs.map Document.inverted) = (events docs).map Event.inverted := by
  have hcomponent : ∀ c : Component,
      componentEvents c.inverted = (componentEvents c).map Event.inverted := by
    intro c
    simp [componentEvents, Component.inverted, Event.inverted, Function.comp_def]
  simp only [events, List.flatMap_map, List.map_flatMap, Document.inverted, hcomponent]

variable (h : List Event)

theorem filterMap_channel?_inverted :
    (h.map Event.inverted).filterMap Event.channel? = (h.filterMap Event.channel?).map
      Channel.inverted := by
  rw [List.filterMap_map, List.map_filterMap]
  congr 1
  funext e
  cases e <;> rfl

theorem filterMap_opened?_inverted :
    (h.map Event.inverted).filterMap Event.opened? = (h.filterMap Event.opened?).map
      invertedComponent := by
  rw [List.filterMap_map, List.map_filterMap]
  congr 1
  funext e
  cases e <;> rfl

theorem filterMap_link?_inverted (d : Direction) : (h.map Event.inverted).filterMap (Event.link? d)
    = (h.filterMap (Event.link? d.inverted)).map fun l => (invertedComponent l.1, l.2) := by
  rw [List.filterMap_map, List.map_filterMap]
  congr 1
  funext e
  cases e with
  | opened name => rfl
  | declared name c =>
    obtain ⟨_, _, direction, _⟩ := c
    cases direction <;> cases d <;> rfl

end Inverted

section Counterpart

variable {h : List Event} {x y : Noted Network}

theorem keys_components_inverted (hx : Reaches h x) (hy : Reaches (h.map Event.inverted) y) :
    y.value.components.keys = x.value.components.keys.map invertedComponent := by
  rw [hy.keys_components, hx.keys_components, filterMap_opened?_inverted,
    eraseDups_map invertedComponent_injective]

theorem get?_components_inverted (hx : Reaches h x) (hy : Reaches (h.map Event.inverted) y)
    {name : String} {i : Interface} (hi : x.value.components.get? name = some i) :
    y.value.components.get? (invertedComponent name) = some i.inverted := by
  have hmem : invertedComponent name ∈ y.value.components.keys := by
    rw [keys_components_inverted hx hy]
    exact List.mem_map_of_mem (Keyed.mem_keys_iff.2 ⟨i, hi⟩)
  obtain ⟨j, hj⟩ := Keyed.mem_keys_iff.1 hmem
  have hname : j.name = i.inverted.name := by
    rw [hy.name_component hj, Interface.inverted, hx.name_component hi]
  have hside : ∀ d, j.side d = i.inverted.side d := by
    intro d
    apply Keyed.eq_of_keys
    rw [hy.keys_side d hj, filterMap_link?_inverted,
      Keyed.valuesOf_map_key invertedComponent_injective, Interface.side_inverted,
      hx.keys_side d.inverted hi]
  rw [hj, Interface.eq_of_side hname hside]

theorem entries_components_inverted (hx : Reaches h x) (hy : Reaches (h.map Event.inverted) y) :
    y.value.components.entries = x.value.components.entries.map fun e =>
    (invertedComponent e.1, e.2.inverted) := by
  rw [Keyed.entries_eq, Keyed.entries_eq x.value.components, keys_components_inverted hx hy,
    List.filterMap_map, List.map_filterMap]
  refine List.filterMap_congr fun name hname => ?_
  obtain ⟨i, hi⟩ := Keyed.mem_keys_iff.1 hname
  rw [Function.comp, hi, get?_components_inverted hx hy hi]
  rfl

theorem tally_duplicate_inverted (hx : Reaches h x) (hy : Reaches (h.map Event.inverted) y) :
    tally "duplicate_component" y.findings = tally "duplicate_component" x.findings := by
  have hduplicate := hx.tally_duplicate
  have hduplicate' := hy.tally_duplicate
  rw [filterMap_opened?_inverted, eraseDups_map invertedComponent_injective, List.length_map,
    List.length_map] at hduplicate'
  omega

theorem keys_channels_inverted (hx : Reaches h x) (hy : Reaches (h.map Event.inverted) y) :
    y.value.channels.keys = x.value.channels.keys := by
  rw [hy.keys_channels, hx.keys_channels, filterMap_channel?_inverted, List.map_map]
  rfl

theorem endpoint_channels_inverted (hx : Reaches h x) (hy : Reaches (h.map Event.inverted) y)
    (name : String) :
    (y.value.channels.get? name).map (·.endpoint) = (x.value.channels.get? name).map
    (·.endpoint) := by
  rw [hy.endpoint_channels, hx.endpoint_channels, filterMap_channel?_inverted, find?_inverted,
    Option.map_map]
  rfl

theorem conflicts_channels_inverted (hx : Reaches h x) (hy : Reaches (h.map Event.inverted) y) :
    y.findings.filterMap Finding.conflict? = x.findings.filterMap Finding.conflict? := by
  rw [hy.conflicts, hx.conflicts, filterMap_channel?_inverted, conflicts_inverted]

end Counterpart

end Network

/-- An inverted tree is read as its inverted document, merges of inverted documents are
refused where those of the documents are and exchange the sides of all components, and to
invert twice is to prefix names twice. -/
theorem Inversion.invertNetwork_counterpart :
    (∀ (root : Element) (a : Allocator), (Document.read (invertNetwork root)).run.run a
      = (((Document.read root).run.run a).1.map Document.inverted,
        ((Document.read root).run.run a).2))
    ∧ (∀ docs : List Document,
      let merged := docs.foldlM Network.merge {}
      let mirrored := (docs.map Document.inverted).foldlM Network.merge {}
      mirrored.findings.filterMap Finding.conflict? = merged.findings.filterMap Finding.conflict?
      ∧ mirrored.findings.tally "duplicate_component" = merged.findings.tally "duplicate_component"
      ∧ mirrored.value.channels.keys = merged.value.channels.keys
      ∧ (∀ name, (mirrored.value.channels.get? name).map (·.endpoint)
        = (merged.value.channels.get? name).map (·.endpoint))
      ∧ mirrored.value.components.entries
        = merged.value.components.entries.map fun e => (invertedComponent e.1, e.2.inverted))
    ∧ ∀ root, invertNetwork (invertNetwork root) = root.mapTags prefixTwice := by
  refine ⟨run_read_invertNetwork, fun docs => ?_, invertNetwork_invertNetwork⟩
  have hx := Network.reaches_merge docs
  have hy := Network.reaches_merge (docs.map Document.inverted)
  rw [Network.events_inverted] at hy
  exact ⟨Network.conflicts_channels_inverted hx hy, Network.tally_duplicate_inverted hx hy,
    Network.keys_channels_inverted hx hy, Network.endpoint_channels_inverted hx hy,
    Network.entries_components_inverted hx hy⟩

end Avionics
