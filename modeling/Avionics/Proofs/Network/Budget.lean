import Avionics.Proofs.Network.Intake
import Avionics.Proofs.Network.Redeclaration
import Mathlib.Data.List.Perm.Subperm

namespace Avionics

open Allocator (granted)
open Network (declarations)

section Ends

def endOf (e : String × Channel) : String × Direction × String := (e.1, e.2.direction, e.2.name)

def Component.ends (c : Component) : List (String × Channel) := c.channels.map (c.name, ·)

theorem map_snd_ends (cs : List Component) :
    (cs.flatMap Component.ends).map Prod.snd = cs.flatMap (·.channels) := by
  rw [List.map_flatMap]
  refine List.flatMap_congr fun c _ => ?_
  rw [Component.ends, List.map_map]
  exact List.map_id _

theorem countP_type_le {es es' : List (String × Channel)} (hn : (es.map endOf).Nodup)
    (h : ∀ e ∈ es, ∃ e' ∈ es', endOf e' = endOf e ∧ e'.2.type = e.2.type) (t : ChannelType) :
    es.countP (fun e => e.2.type = t) ≤ es'.countP fun e => e.2.type = t := by
  have hnodup : ((es.filter fun e => e.2.type = t).map endOf).Nodup :=
    hn.sublist (List.filter_sublist.map endOf)
  have hsub : (es.filter fun e => e.2.type = t).map endOf ⊆
      (es'.filter fun e => e.2.type = t).map endOf := by
    intro k hk
    obtain ⟨e, he, rfl⟩ := List.mem_map.1 hk
    obtain ⟨he, ht⟩ := List.mem_filter.1 he
    obtain ⟨e', he', hend, htype⟩ := h e he
    refine List.mem_map.2 ⟨e', List.mem_filter.2 ⟨he', decide_eq_true ?_⟩, hend⟩
    exact htype.trans (of_decide_eq_true ht)
  have hlength := (hnodup.subperm hsub).length_le
  rwa [List.length_map, List.length_map, ← List.countP_eq_length_filter,
    ← List.countP_eq_length_filter] at hlength

end Ends

namespace Network

theorem map_end_redeclare {n : Network} (hn : n.Registered) {component : String} {i : Interface}
    (hi : n.components.get? component = some i) (d : Direction) :
    (n.redeclare d (i.side d).keys).map (fun c => (c.direction, c.name))
      = (i.side d).keys.map (d, ·) := by
  have hpair : ∀ c ∈ n.redeclare d (i.side d).keys, (c.direction, c.name) = (d, c.name) := by
    intro c hc
    rw [direction_of_mem_redeclare hc]
  have hnames := congrArg (List.map (d, ·)) (map_name_redeclare hn hi d)
  rw [List.map_map] at hnames
  exact (List.map_congr_left hpair).trans hnames

theorem nodup_ends {n : Network} (hn : n.Registered) :
    ((n.redeclared.flatMap Component.ends).map endOf).Nodup := by
  have hends : (n.redeclared.flatMap Component.ends).map endOf
      = n.components.entries.flatMap fun e =>
      ((n.redeclaredComponent e.2).channels.map fun c => (c.direction, c.name)).map (e.1, ·) := by
    rw [redeclared, List.flatMap_map, List.map_flatMap]
    refine List.flatMap_congr fun e he => ?_
    rw [Component.ends, List.map_map, List.map_map,
      ← hn.name_component (Keyed.get?_eq_some_iff.2 he)]
    rfl
  rw [hends]
  refine Keyed.nodup_flatMap n.components.nodup fun e he => ?_
  have hi := Keyed.get?_eq_some_iff.2 he
  have hinputs := map_end_redeclare hn hi .input
  have houtputs := map_end_redeclare hn hi .output
  rw [redeclaredComponent, List.map_append]
  refine List.nodup_append.2 ⟨?_, ?_, ?_⟩
  · exact hinputs ▸ (e.2.side .input).keys_nodup.map fun _ _ h => (Prod.mk.inj h).2
  · exact houtputs ▸ (e.2.side .output).keys_nodup.map fun _ _ h => (Prod.mk.inj h).2
  · rintro _ hleft _ hright rfl
    obtain ⟨c, hc, rfl⟩ := List.mem_map.1 hleft
    obtain ⟨c', hc', heq⟩ := List.mem_map.1 hright
    have hdirection := (Prod.mk.inj heq).1
    rw [direction_of_mem_redeclare hc, direction_of_mem_redeclare hc'] at hdirection
    cases hdirection

section Clean

variable {docs : List Document} (hclean : (docs.foldlM merge {}).findings.errors = 0)
include hclean

theorem exists_end : ∀ e ∈ (docs.foldlM merge {}).value.redeclared.flatMap Component.ends,
    ∃ e' ∈ (componentsOf docs).flatMap Component.ends, endOf e' = endOf e
      ∧ e'.2.type = e.2.type := by
  intro e he
  obtain ⟨component, hcomponent, he⟩ := List.mem_flatMap.1 he
  obtain ⟨entry, hentry, rfl⟩ := List.mem_map.1 hcomponent
  obtain ⟨c, hc, rfl⟩ := List.mem_map.1 he
  obtain ⟨d, hc⟩ := mem_redeclaredComponent.1 hc
  obtain ⟨name, hname, stored, hstored, rfl⟩ := mem_redeclare.1 hc
  have hrun := reaches_merge docs
  have hi := Keyed.get?_eq_some_iff.2 hentry
  obtain ⟨declared, hdeclared, hdirection, rfl⟩ := (hrun.mem_side_iff hi d name).1 hname
  have hcompatible :=
    hrun.compatible_of_clean hclean hstored (mem_filterMap_channel?.2 ⟨_, hdeclared⟩)
  obtain ⟨component, hcomponent, hcname, hmem⟩ := mem_events_declared.1 hdeclared
  refine ⟨(component.name, declared),
    List.mem_flatMap.2 ⟨component, hcomponent, List.mem_map_of_mem hmem⟩, ?_, ?_⟩
  · show (component.name, declared.direction, declared.name) = (entry.2.name, d, stored.name)
    rw [hcname, hdirection, hrun.registered.name_eq hstored, hrun.registered.name_component hi]
  · exact (Channel.compatible_iff.1 hcompatible).1.symm

theorem count_type_le (t : ChannelType) :
    (((docs.foldlM merge {}).value.redeclared.flatMap (·.channels)).map (·.type)).count t
      ≤ ((declarations docs).map (·.type)).count t := by
  have hcount : ∀ cs : List Component, ((cs.flatMap (·.channels)).map (·.type)).count t
      = (cs.flatMap Component.ends).countP fun e => e.2.type = t := by
    intro cs
    rw [← map_snd_ends, List.map_map, List.count, List.countP_map]
    exact List.countP_congr fun e _ => by simp
  rw [← flatMap_channels_componentsOf, hcount, hcount]
  exact countP_type_le (nodup_ends (reaches_merge docs).registered) (exists_end hclean) t

end Clean

end Network

namespace Intake

variable {a : Allocator} {x : Intake}

theorem Sound.count_le (h : Sound a x) (t : ChannelType) :
    ((declarations x.documents).map (·.type)).count t ≤ granted t x.calls := by
  have hcalls :=
    h.sublist_calls.countP_le (p := fun c : ChannelType × Option Endpoint => c.1 = t && c.2.isSome)
  rw [List.countP_map, List.countP_map] at hcalls
  have hdeclared : ((declarations x.documents).map (·.type)).count t
      = (declarations x.documents).countP fun c => c.type = t && c.endpoint.isSome := by
    rw [List.count, List.countP_map]
    refine List.countP_congr fun c hc => ?_
    obtain ⟨e, he⟩ := h.endpoint c hc
    simp [he]
  have hgranted : granted t x.calls = x.calls.countP fun c => c.type = t &&
      c.result.toOption.isSome := by
    refine List.countP_congr fun c _ => ?_
    cases c.result <;> simp [Except.isOk, Except.toBool, Except.toOption]
  rw [hdeclared, hgranted]
  exact hcalls

theorem exists_read_write (h : Sound a x)
    (hclean : (x.documents.foldlM Network.merge {}).findings.errors = 0) :
    ∃ d b, (Document.read (x.documents.foldlM Network.merge {}).value.write).run.run a
      = (.ok d, b) := by
  refine (Document.meets_read _).exists_of_served ?_
  rw [Network.demands_write]
  refine Allocator.serve_of_room fun t ht => ?_
  have hcount := Nat.le_trans (Network.count_type_le hclean t) (h.count_le t)
  have hdeclared : 0 < ((declarations x.documents).map (·.type)).count t :=
    Nat.lt_of_lt_of_le (List.count_pos_iff.2 ht) (Network.count_type_le hclean t)
  obtain ⟨c, hc, rfl⟩ := List.mem_map.1 (List.count_pos_iff.1 hdeclared)
  obtain ⟨e, -, hcall⟩ := h.mem_calls hc
  obtain ⟨base, hbase, -⟩ := h.calls.port_lt hcall
  exact ⟨base, hbase, Nat.le_trans (Nat.add_le_add_left hcount _) (h.calls.granted_le hbase)⟩

end Intake

end Avionics
