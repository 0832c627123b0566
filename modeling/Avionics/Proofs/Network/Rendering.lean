import Avionics.Proofs.Network.Codec
import Avionics.Proofs.Network.Registration

namespace Avionics

open Markup (Element)

def Interface.links (i : Interface) : List (Direction × String) :=
  i.inputs.keys.map (.input, ·) ++ i.outputs.keys.map (.output, ·)

theorem Interface.mem_links_iff {i : Interface} {d : Direction} {name : String} :
    (d, name) ∈ i.links ↔ name ∈ (i.side d).keys := by
  cases d <;> simp [links, side]

namespace Network

section Invariant

/-- Channels and components belong together, and the producers of channels are components
that list them as outputs. -/
structure Intact (n : Network) : Prop extends Registered n where
  producer_iff : ∀ name, name ∈ n.producers.keys
    ↔ ∃ component i, n.components.get? component = some i ∧ name ∈ i.outputs.keys
  exists_output : ∀ {name component}, n.producers.get? name = some component →
    ∃ i, n.components.get? component = some i ∧ name ∈ i.outputs.keys

variable {h : List Event} {x : Noted Network}

theorem Reaches.intact (hx : Reaches h x) : Intact x.value where
  toRegistered := hx.registered
  producer_iff name := by
    rw [hx.keys_producers, List.mem_eraseDups, List.mem_map]
    constructor
    · rintro ⟨⟨component, _⟩, hlink, rfl⟩
      exact ⟨component, hx.mem_link_iff.1 hlink⟩
    · rintro ⟨component, hi⟩
      exact ⟨(component, name), hx.mem_link_iff.2 hi, rfl⟩
  exists_output {name component} hproducer := by
    rw [hx.get?_producers, Option.map_eq_some_iff] at hproducer
    obtain ⟨l, hlast, rfl⟩ := hproducer
    obtain ⟨hlink, hname⟩ := List.mem_filter.1 (List.mem_of_getLast? hlast)
    cases of_decide_eq_true hname
    exact hx.mem_link_iff.1 hlink

end Invariant

section Written

variable (n : Network)

structure WrittenEnd (l : Direction × String) (x : Element) : Prop where
  stored : ∃ c, n.channels.get? l.2 = some c ∧ x = c.write l.1
  name : x.attribute? "Name" = some l.2
  direction : x.attribute? "Direction" = some l.1.text

structure WrittenComponent (e : String × Interface) (x : Element) : Prop where
  tag : x.name = Document.componentTag
  name : x.attributes.entries = [("Name", e.1)]
  ends : List.Forall₂ n.WrittenEnd e.2.links x.children

variable {n} (hn : n.Registered)
include hn

theorem writtenEnd_of_stored {name : String} {c : Channel} (hc : n.channels.get? name = some c)
    (d : Direction) : n.WrittenEnd (d, name) (c.write d) where
  stored := ⟨c, hc, rfl⟩
  name := (congrArg some (hn.name_eq hc) : some c.name = some name)
  direction := rfl

theorem forall₂_writeChannel {d : Direction} {names : List String}
    (hnames : ∀ name ∈ names, ∃ c, n.channels.get? name = some c) :
    List.Forall₂ n.WrittenEnd (names.map (d, ·)) (names.filterMap (n.writeChannel d)) := by
  induction names with
  | nil => exact .nil
  | cons name names ih =>
    obtain ⟨⟨c, hc⟩, hnames⟩ := List.forall_mem_cons.1 hnames
    have hwritten : n.writeChannel d name = some (c.write d) := by rw [writeChannel, hc]; rfl
    rw [List.map_cons, List.filterMap_cons_some hwritten]
    exact .cons (writtenEnd_of_stored hn hc d) (ih hnames)

theorem writtenComponent {e : String × Interface} (he : e ∈ n.components.entries) :
    n.WrittenComponent e (n.writeComponent e.2) where
  tag := rfl
  name := by
    rw [← hn.name_component (Keyed.get?_eq_some_iff.2 he)]
    rfl
  ends := by
    have hi := Keyed.get?_eq_some_iff.2 he
    exact List.rel_append (forall₂_writeChannel hn fun _ hname =>
      hn.exists_channel hi (d := .input) hname)
      (forall₂_writeChannel hn fun _ hname => hn.exists_channel hi (d := .output) hname)

theorem forall₂_write : List.Forall₂ n.WrittenComponent n.components.entries n.write.children := by
  rw [write, Keyed.values, List.map_map, List.forall₂_map_right_iff, List.forall₂_same]
  exact fun _ he => writtenComponent hn he

theorem exists_written {name : String} {c : Channel} (hc : n.channels.get? name = some c) :
    ∃ x ∈ n.write.children, ∃ d, c.write d ∈ x.children := by
  obtain ⟨component, i, d, hi, hname⟩ := hn.exists_side hc
  have he := Keyed.get?_eq_some_iff.1 hi
  have hx : n.writeComponent i ∈ n.write.children := List.mem_map_of_mem (List.mem_map_of_mem he)
  have hends := (writtenComponent hn he).ends
  obtain ⟨y, hy, hwritten⟩ :=
    exists_left_of_forall₂ hends.flip (d, name) (Interface.mem_links_iff.2 hname)
  obtain ⟨c', hc', rfl⟩ := hwritten.stored
  cases hc.symm.trans hc'
  exact ⟨_, hx, d, hy⟩

end Written

/-- Any merged network: its invariant holds, each component is written with all of its inputs
and then all of its outputs, and each channel is written somewhere. -/
theorem merge_intact (docs : List Document) :
    (docs.foldlM merge {}).value.Intact
      ∧ List.Forall₂ (docs.foldlM merge {}).value.WrittenComponent
      (docs.foldlM merge {}).value.components.entries
          (docs.foldlM merge {}).value.write.children
      ∧ ∀ name c, (docs.foldlM merge {}).value.channels.get? name = some c →
          ∃ x ∈ (docs.foldlM merge {}).value.write.children, ∃ d, c.write d ∈ x.children := by
  have hrun := reaches_merge docs
  exact ⟨hrun.intact, forall₂_write hrun.registered, fun _ _ hc =>
    exists_written hrun.registered hc⟩

end Network

end Avionics
