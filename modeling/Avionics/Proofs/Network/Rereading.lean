import Avionics.Proofs.Network.Budget
import Avionics.Proofs.Network.Conservation
import Avionics.Proofs.Network.Order
import Mathlib.Algebra.GroupWithZero.Nat

namespace Avionics

def Component.Placed (c placed : Component) : Prop :=
  placed.name = c.name
    ∧ List.Forall₂ (fun channel new => ∃ e, new = { channel with endpoint := some e }) c.channels
      placed.channels

theorem Component.Placed.side {c placed : Component} (h : c.Placed placed) (d : Direction) :
    placed.side d = c.side d := by
  have hpairs : placed.channels.map (fun channel => (channel.direction, channel.name))
      = c.channels.map fun channel => (channel.direction, channel.name) := by
    refine map_eq_of_forall₂ h.2 ?_
    rintro channel _ ⟨e, rfl⟩
    rfl
  have hside : ∀ c : Component, c.side d
      = ((c.channels.map fun channel => (channel.direction, channel.name)).filter (·.1 = d)).map
        Prod.snd := by
    intro c
    rw [Component.side, List.filter_map, List.map_map]
    rfl
  rw [hside, hside, hpairs]

theorem Document.forall₂_place {cs : List Component} {d : Document} {a b : Allocator}
    (h : (place cs).run.run a = (.ok d, b)) : List.Forall₂ Component.Placed cs d.components := by
  obtain ⟨_, _, hcomponents, hpure⟩ := Stateful.bind_eq_ok.1 h
  cases hpure
  refine (Allocating.forall₂_of_mapM hcomponents).imp ?_
  rintro c _ ⟨_, _, hcomponent⟩
  obtain ⟨_, _, hchannels, hpure⟩ := Stateful.bind_eq_ok.1 hcomponent
  cases hpure
  refine ⟨rfl, (Allocating.forall₂_of_mapM hchannels).imp ?_⟩
  rintro c _ ⟨_, _, hchannel⟩
  obtain ⟨e, _, -, hpure⟩ := Stateful.bind_eq_ok.1 hchannel
  cases hpure
  exact ⟨e, rfl⟩

namespace Network

open Report (tally)

theorem reaches_merge_single (d : Document) : Reaches (events [d]) (merge {} d) := by
  have hfold : [d].foldlM merge {} = merge {} d := by simp
  exact hfold ▸ reaches_merge [d]

theorem mem_declared_single {d : Document} {c : Channel} :
    c ∈ (events [d]).filterMap Event.channel? ↔ ∃ p ∈ d.components, c ∈ p.channels := by
  rw [filterMap_channel?_events, declarations, List.flatMap_singleton, List.mem_flatMap]

section Placed

variable {n : Network} (hn : n.Registered) {d : Document}
    (hd : List.Forall₂ Component.Placed n.redeclared d.components)
include hn hd

theorem filterMap_opened?_placed : (events [d]).filterMap Event.opened? = n.components.keys := by
  rw [filterMap_opened?_events, componentsOf, List.flatMap_singleton,
    map_eq_of_forall₂ hd fun _ _ h => h.1, redeclared,
    List.map_map]
  exact List.map_congr_left fun e he => hn.name_component (Keyed.get?_eq_some_iff.2 he)

theorem filterMap_link?_placed (dir : Direction) : (events [d]).filterMap (Event.link? dir)
    = n.components.entries.flatMap fun e => (e.2.side dir).keys.map (e.1, ·) := by
  have hlinks : d.components.map (fun c => (c.side dir).map (c.name, ·))
      = n.redeclared.map fun c => (c.side dir).map (c.name, ·) :=
    map_eq_of_forall₂ hd fun _ _ h => by rw [h.1, h.side]
  rw [filterMap_link?_events, componentsOf, List.flatMap_singleton, List.flatMap_def, hlinks,
    redeclared, List.map_map, ← List.flatMap_def]
  refine List.flatMap_congr fun e he => ?_
  have hi := Keyed.get?_eq_some_iff.2 he
  rw [Function.comp_apply, side_redeclared hn hi, ← hn.name_component hi]
  rfl

theorem exists_stored {c : Channel} (hc : c ∈ (events [d]).filterMap Event.channel?) :
    ∃ stored dir e,
    n.channels.get? c.name = some stored
      ∧ c = { stored with direction := dir, endpoint := some e } := by
  obtain ⟨p, hp, hc⟩ := mem_declared_single.1 hc
  obtain ⟨_, hcomponent, -, hchannels⟩ := exists_left_of_forall₂ hd p hp
  obtain ⟨entry, -, rfl⟩ := List.mem_map.1 hcomponent
  obtain ⟨channel, hchannel, e, rfl⟩ := exists_left_of_forall₂ hchannels c hc
  obtain ⟨dir, hchannel⟩ := mem_redeclaredComponent.1 hchannel
  obtain ⟨name, -, stored, hstored, rfl⟩ := mem_redeclare.1 hchannel
  refine ⟨stored, dir, e, ?_, rfl⟩
  show n.channels.get? stored.name = some stored
  rw [hn.name_eq hstored, hstored]

theorem eq_of_stored {name : String} {stored c : Channel}
    (hstored : n.channels.get? name = some stored)
    (hc : c ∈ (events [d]).filterMap Event.channel?) (hname : c.name = name) :
    ∃ dir e, c = { stored with direction := dir, endpoint := some e } := by
  obtain ⟨stored', dir, e, hstored', heq⟩ := exists_stored hn hd hc
  rw [hname] at hstored'
  cases hstored.symm.trans hstored'
  exact ⟨dir, e, heq⟩

theorem exists_placed {name : String} {stored : Channel}
    (hstored : n.channels.get? name = some stored) :
    ∃ c ∈ (events [d]).filterMap Event.channel?, c.name = name := by
  obtain ⟨component, i, dir, hi, hname⟩ := hn.exists_side hstored
  have hentry := Keyed.get?_eq_some_iff.1 hi
  obtain ⟨p, hp, hplaced⟩ := exists_left_of_forall₂ hd.flip _ (List.mem_map_of_mem hentry)
  rw [← side_redeclared hn hi, ← Component.Placed.side hplaced] at hname
  obtain ⟨c, hc, rfl⟩ := List.mem_map.1 hname
  exact ⟨c, mem_declared_single.2 ⟨p, hp, List.mem_of_mem_filter hc⟩, rfl⟩

theorem nodup_links_placed (dir : Direction) :
    ((events [d]).filterMap (Event.link? dir)).Nodup := by
  rw [filterMap_link?_placed hn hd]
  exact Keyed.nodup_flatMap n.components.nodup fun e _ => (e.2.side dir).keys_nodup

theorem clean_placed : (merge {} d).clean = true := by
  rw [(reaches_merge_single d).clean_iff, filterMap_opened?_placed hn hd]
  refine ⟨n.components.keys_nodup, fun c hc c' hc' hname => ?_⟩
  obtain ⟨stored, _, _, hstored, hc⟩ := exists_stored hn hd hc
  obtain ⟨_, _, hc'⟩ := eq_of_stored hn hd hstored hc' hname.symm
  rw [hc, hc']
  exact Channel.compatible_refl stored

theorem tally_mismatch_placed : tally "header_mismatch" (merge {} d).findings = 0 := by
  rw [(reaches_merge_single d).tally_mismatch (clean_placed hn hd)]
  intro c hc c' hc' hname
  obtain ⟨stored, _, _, hstored, hc⟩ := exists_stored hn hd hc
  obtain ⟨_, _, hc'⟩ := eq_of_stored hn hd hstored hc' hname.symm
  rw [hc, hc']

theorem tally_twice_placed (dir : Direction) : tally (twice dir) (merge {} d).findings = 0 := by
  have h := (reaches_merge_single d).tally_twice dir
  rw [eraseDups_of_nodup (nodup_links_placed hn hd dir)] at h
  omega

theorem components_placed : (merge {} d).value.components = n.components := by
  have hrun := reaches_merge_single d
  have hkeys : (merge {} d).value.components.keys = n.components.keys := by
    rw [hrun.keys_components, filterMap_opened?_placed hn hd,
      eraseDups_of_nodup n.components.keys_nodup]
  refine Keyed.ext_get? hkeys fun name => ?_
  cases hi : n.components.get? name with
  | none => rwa [Keyed.get?_eq_none_iff, hkeys, ← Keyed.get?_eq_none_iff]
  | some i =>
    obtain ⟨j, hj⟩ : ∃ j, (merge {} d).value.components.get? name = some j := by
      rw [← Keyed.mem_keys_iff, hkeys]
      exact Keyed.mem_keys_iff.2 ⟨i, hi⟩
    have hside : ∀ dir, j.side dir = i.side dir := by
      intro dir
      apply Keyed.eq_of_keys
      have hvalues := Keyed.valuesOf_flatMap n.components.entries (fun i => (i.side dir).keys) name
      rw [Keyed.valuesOf_entries, hi, Option.toList_some, List.flatMap_singleton] at hvalues
      rw [hrun.keys_side dir hj, filterMap_link?_placed hn hd, hvalues,
        eraseDups_of_nodup (i.side dir).keys_nodup]
    have hname := (hrun.name_component hj).trans (hn.name_component hi).symm
    rw [hj, Interface.eq_of_side hname hside]

theorem get?_placed {name : String} {stored : Channel}
    (hstored : n.channels.get? name = some stored) :
    ∃ dir e, (merge {} d).value.channels.get? name
      = some { stored with direction := dir, endpoint := some e } := by
  obtain ⟨c, hc, rfl⟩ := exists_placed hn hd hstored
  have hrun := reaches_merge_single d
  cases hfilter : ((events [d]).filterMap Event.channel?).filter fun c' => c'.name = c.name with
  | nil =>
    have hmem : c ∈ ((events [d]).filterMap Event.channel?).filter fun c' => c'.name = c.name :=
      List.mem_filter.2 ⟨hc, decide_eq_true rfl⟩
    rw [hfilter] at hmem
    cases hmem
  | cons first later =>
    have hmem := mem_of_filter_named hfilter
    have hstoredas : ∀ c' ∈ first :: later, ∃ dir e,
        c' = { stored with direction := dir, endpoint := some e } := by
      intro c' hc'
      obtain ⟨hdeclared, hname⟩ := hmem c' hc'
      exact eq_of_stored hn hd hstored hdeclared hname
    obtain ⟨dir, e, hfirst⟩ := hstoredas first List.mem_cons_self
    obtain ⟨c', hc', hheader⟩ := Channel.settledHeader_mem first later
    obtain ⟨_, _, hc'⟩ := hstoredas c' hc'
    refine ⟨dir, e, ?_⟩
    rw [hrun.get?_eq_settled hfilter, Channel.settled, hheader, hc', hfirst]

theorem keys_channels_placed : (merge {} d).value.channels.keys.Perm n.channels.keys := by
  have hrun := reaches_merge_single d
  rw [List.perm_ext_iff_of_nodup (Keyed.keys_nodup _) n.channels.keys_nodup]
  intro name
  constructor
  · intro hname
    rw [hrun.keys_channels, List.mem_eraseDups] at hname
    obtain ⟨c, hc, rfl⟩ := List.mem_map.1 hname
    obtain ⟨stored, _, _, hstored, -⟩ := exists_stored hn hd hc
    exact Keyed.mem_keys_iff.2 ⟨stored, hstored⟩
  · intro hname
    obtain ⟨stored, hstored⟩ := Keyed.mem_keys_iff.1 hname
    obtain ⟨dir, e, hget⟩ := get?_placed hn hd hstored
    exact Keyed.mem_keys_iff.2 ⟨_, hget⟩

theorem redeclared_placed : (merge {} d).value.redeclared = n.redeclared := by
  have hredeclare : ∀ dir names, (merge {} d).value.redeclare dir names
      = n.redeclare dir names := by
    intro dir names
    rw [redeclare, redeclare, List.map_filterMap, List.map_filterMap]
    refine List.filterMap_congr fun name _ => ?_
    cases hname : n.channels.get? name with
    | none =>
      have hnone : (merge {} d).value.channels.get? name = none := by
        rw [Keyed.get?_eq_none_iff, (keys_channels_placed hn hd).mem_iff]
        exact Keyed.get?_eq_none_iff.1 hname
      rw [hnone]
    | some stored =>
      obtain ⟨_, _, hget⟩ := get?_placed hn hd hname
      rw [hget]
      rfl
  rw [redeclared, redeclared, components_placed hn hd]
  refine List.map_congr_left fun e _ => ?_
  rw [redeclaredComponent, redeclaredComponent, hredeclare, hredeclare]

theorem tally_multiple_placed :
    tally "multiple_producers" (merge {} d).findings + (merge {} d).value.producers.size
    = (n.components.values.map fun i => i.outputs.size).sum := by
  have hrun := reaches_merge_single d
  have htotal := hrun.total_eq .output
  rw [total, components_placed hn hd, ← hrun.tally_multiple, ← hrun.keys_producers] at htotal
  rw [Keyed.size_eq_length_keys]
  exact htotal.symm

end Placed

def reread (a : Allocator) (n : Network) : Except Failure (Noted Network) :=
  match (Document.read n.write).run.run a with
  | (.ok d, _) => .ok (merge {} d)
  | (.error f, _) => .error f

structure Reread (n : Network) (y : Noted Network) : Prop where
  errors : y.findings.errors = 0
  mismatch : tally "header_mismatch" y.findings = 0
  consumed : tally "consumed_twice" y.findings = 0
  produced : tally "produced_twice" y.findings = 0
  multiple : tally "multiple_producers" y.findings + n.producers.size
    = (n.components.values.map fun i => i.outputs.size).sum
  components : y.value.components = n.components
  names : y.value.channels.keys.Perm n.channels.keys
  producers : ∀ name, y.value.producers.get? name = n.producers.get? name
  channels : ∀ name c, n.channels.get? name = some c →
    ∃ d, y.value.channels.get? name = some d ∧ d.compatible c = true ∧ d.header = c.header

section Clean

variable {docs : List Document} (hclean : (docs.foldlM merge {}).findings.errors = 0)
include hclean

theorem producers_placed {d : Document}
    (hd : List.Forall₂ Component.Placed (docs.foldlM merge {}).value.redeclared d.components)
    (name : String) :
    (merge {} d).value.producers.get? name = (docs.foldlM merge {}).value.producers.get? name := by
  have hn := (reaches_merge docs).registered
  have hfold : [d].foldlM merge {} = merge {} d := by simp
  have hsingle : ([d].foldlM merge {}).findings.errors = 0 := by
    rw [hfold]
    exact Noted.clean_iff.1 (clean_placed hn hd)
  rw [get?_producers_of_clean hclean, ← hfold, get?_producers_of_clean hsingle, hfold,
    components_placed hn hd]

theorem reread_of_placed {d : Document}
    (hd : List.Forall₂ Component.Placed (docs.foldlM merge {}).value.redeclared d.components) :
    Reread (docs.foldlM merge {}).value (merge {} d) := by
  have hn := (reaches_merge docs).registered
  have hsize := (Keyed.keys_perm_of_get? (producers_placed hclean hd)).length_eq
  rw [← Keyed.size_eq_length_keys, ← Keyed.size_eq_length_keys] at hsize
  exact {
    errors := Noted.clean_iff.1 (clean_placed hn hd)
    mismatch := tally_mismatch_placed hn hd
    consumed := tally_twice_placed hn hd .input
    produced := tally_twice_placed hn hd .output
    multiple := hsize ▸ tally_multiple_placed hn hd
    components := components_placed hn hd
    names := keys_channels_placed hn hd
    producers := producers_placed hclean hd
    channels := fun name c hc => by
      obtain ⟨dir, e, hget⟩ := get?_placed hn hd hc
      exact ⟨_, hget, Channel.compatible_refl c, rfl⟩ }

end Clean

/-- A merged network, read again with the bases that its documents were read with. -/
theorem reread_of_clean (a : Allocator) (items : List Intake.Item)
    (hclean : ((Intake.ofItems a items).documents.foldlM merge {}).findings.errors = 0) :
    ∃ y, reread a ((Intake.ofItems a items).documents.foldlM merge {}).value = .ok y
      ∧ Reread ((Intake.ofItems a items).documents.foldlM merge {}).value y
      ∧ ∃ z, reread a y.value = .ok z ∧ z.value = y.value := by
  have hsound := Intake.sound_ofItems a items
  obtain ⟨d, b, hrun⟩ := Intake.exists_read_write hsound hclean
  have hd := hrun
  rw [read_write] at hd
  have hplaced := Document.forall₂_place hd
  refine ⟨merge {} d, ?_, reread_of_placed hclean hplaced, merge {} d, ?_, rfl⟩
  · rw [reread, hrun]
  · rw [reread, read_write, redeclared_placed (reaches_merge _).registered hplaced, hd]

def sideItems : List Intake.Item := [("A", .input), ("B", .output)].map fun c =>
  .document (merge {} (sideDocument c.1 c.2)).value.write

theorem reread_of_clean_sides : ∃ x y : Noted Network, x.value.components.keys = ["A", "B"]
    ∧ reread .standard x.value = .ok y ∧ Reread x.value y ∧ ∃ z, reread .standard y.value = .ok z
      ∧ z.value = y.value := by
  obtain ⟨y, hy⟩ := reread_of_clean .standard sideItems rfl
  exact ⟨_, y, rfl, hy⟩

end Network

end Avionics
