import Avionics.Proofs.Network.Channel
import Avionics.Proofs.Network.Run
import Avionics.Proofs.Network.Step

namespace Avionics

namespace Report

def tally (kind : String) (r : Report) : Nat := r.countP fun f => f.kind = kind

theorem tally_append (kind : String) (r s : Report) :
    tally kind (r ++ s) = tally kind r + tally kind s :=
  List.countP_append

@[simp] theorem tally_nil (kind : String) : tally kind [] = 0 := rfl

@[simp] theorem tally_singleton (kind : String) (f : Finding) :
    tally kind [f] = if f.kind = kind then 1 else 0 := by
  rw [tally, List.countP_singleton]
  simp

theorem tally_eq_zero {kind : String} {r : Report} (h : ∀ f ∈ r, f.kind ≠ kind) :
    tally kind r = 0 :=
  List.countP_eq_zero.2 fun f hf => by simpa using h f hf

end Report

namespace Network

open Keyed (valuesOf)
open Report (tally)

variable {h : List Event} {x : Noted Network}

section Components

theorem mem_opened {name : String} (hname : Event.opened name ∈ h) :
    name ∈ h.filterMap Event.opened? :=
  List.mem_filterMap.2 ⟨_, hname, rfl⟩

theorem Reaches.keys_components (hx : Reaches h x) :
    x.value.components.keys = (h.filterMap Event.opened?).eraseDups := by
  induction hx with
  | start => rfl
  | opened name _ ih =>
    rw [Noted.value_bind, keys_openComponent, ih, Event.filterMap_opened?_opened, eraseDups_concat]
    simp only [List.mem_eraseDups]
  | @declared h x name c _ hname ih =>
    have hmem : name ∈ x.value.components.keys := by
      rw [ih, List.mem_eraseDups]
      exact mem_opened hname
    obtain ⟨held, hheld⟩ := Keyed.mem_keys_iff.1 hmem
    rw [Noted.value_bind, components_declare hheld, Keyed.keys_insert, if_pos hmem, ih,
      Event.filterMap_opened?_declared]

theorem Reaches.exists_component (hx : Reaches h x) {name : String}
    (hname : Event.opened name ∈ h) : ∃ held, x.value.components.get? name = some held := by
  rw [← Keyed.mem_keys_iff, hx.keys_components, List.mem_eraseDups]
  exact mem_opened hname

theorem Reaches.name_component (hx : Reaches h x) {name : String} {i : Interface}
    (hi : x.value.components.get? name = some i) : i.name = name := by
  induction hx generalizing i with
  | start => cases hi
  | @opened h x other hx ih =>
    rw [Noted.value_bind, get?_openComponent] at hi
    split at hi
    · next hother =>
      subst hother
      cases hheld : x.value.components.get? name with
      | none =>
        rw [hheld] at hi
        cases hi
        rfl
      | some held =>
        rw [hheld] at hi
        cases hi
        exact ih hheld
    · exact ih hi
  | @declared h x other c hx hother ih =>
    obtain ⟨held, hheld⟩ := hx.exists_component hother
    rw [Noted.value_bind, components_declare hheld, Keyed.get?_insert] at hi
    split at hi
    · next hname =>
      subst hname
      cases hi
      exact (held.name_add c).trans (ih hheld)
    · exact ih hi

theorem Reaches.opened_of_link (hx : Reaches h x) {d : Direction} {name channel : String}
    (hlink : (name, channel) ∈ h.filterMap (Event.link? d)) : name ∈ h.filterMap Event.opened? := by
  induction hx with
  | start => cases hlink
  | opened other _ ih =>
    rw [Event.filterMap_link?_opened] at hlink
    rw [Event.filterMap_opened?_opened]
    exact List.mem_append_left _ (ih hlink)
  | declared other c _ hname ih =>
    rw [Event.filterMap_link?_declared] at hlink
    rw [Event.filterMap_opened?_declared]
    split at hlink
    · rcases List.mem_append.1 hlink with hearlier | hlast
      · exact ih hearlier
      · cases List.mem_singleton.1 hlast
        exact mem_opened hname
    · exact ih hlink

theorem valuesOf_link?_declared (h : List Event) (name component : String) (c : Channel)
    (d : Direction) :
    valuesOf name ((h ++ [Event.declared component c]).filterMap (Event.link? d))
      = if c.direction = d ∧ component = name then valuesOf name
      (h.filterMap (Event.link? d)) ++ [c.name]
        else valuesOf name (h.filterMap (Event.link? d)) := by
  rw [Event.filterMap_link?_declared]
  by_cases hd : c.direction = d
  · rw [if_pos hd, Keyed.valuesOf_append, Keyed.valuesOf_cons]
    by_cases hname : component = name <;> simp [hd, hname]
  · rw [if_neg hd, if_neg (fun h => hd h.1)]

theorem Reaches.keys_side (hx : Reaches h x) (d : Direction) {name : String} {i : Interface}
    (hi : x.value.components.get? name = some i) :
    (i.side d).keys = (valuesOf name (h.filterMap (Event.link? d))).eraseDups := by
  induction hx generalizing i with
  | start => cases hi
  | @opened h x other hx ih =>
    rw [Noted.value_bind, get?_openComponent] at hi
    rw [Event.filterMap_link?_opened]
    split at hi
    · next hother =>
      subst hother
      cases hheld : x.value.components.get? name with
      | none =>
        -- Nothing was declared before the component was opened.
        have hnone : valuesOf name (h.filterMap (Event.link? d)) = [] := by
          rw [List.eq_nil_iff_forall_not_mem]
          intro channel hchannel
          have hname := hx.opened_of_link (Keyed.mem_valuesOf.1 hchannel)
          rw [← List.mem_eraseDups, ← hx.keys_components] at hname
          exact Keyed.get?_eq_none_iff.1 hheld hname
        rw [hheld] at hi
        cases hi
        rw [hnone]
        cases d <;> rfl
      | some held =>
        rw [hheld] at hi
        cases hi
        exact ih hheld
    · exact ih hi
  | @declared h x other c hx hother ih =>
    obtain ⟨held, hheld⟩ := hx.exists_component hother
    rw [Noted.value_bind, components_declare hheld, Keyed.get?_insert] at hi
    rw [valuesOf_link?_declared]
    split at hi
    · next hname =>
      subst hname
      cases hi
      rw [Interface.side_add]
      by_cases hd : c.direction = d
      · rw [if_pos hd, if_pos ⟨hd, rfl⟩, Keyed.keys_insert, ih hheld, eraseDups_concat]
        simp only [List.mem_eraseDups]
      · rw [if_neg hd, if_neg (fun h => hd h.1), ih hheld]
    · next hname =>
      rw [if_neg (fun h => hname h.2.symm), ih hi]

theorem Reaches.keys_producers (hx : Reaches h x) :
    x.value.producers.keys = ((h.filterMap (Event.link? .output)).map Prod.snd).eraseDups := by
  induction hx with
  | start => rfl
  | opened name _ ih =>
    rw [Noted.value_bind, producers_openComponent, ih, Event.filterMap_link?_opened]
  | @declared h x name c hx hname ih =>
    obtain ⟨held, hheld⟩ := hx.exists_component hname
    rw [Noted.value_bind, producers_declare hheld, Event.filterMap_link?_declared]
    split
    · rw [Keyed.keys_insert, ih, List.map_append, List.map_singleton, eraseDups_concat]
      simp only [List.mem_eraseDups]
    · exact ih

end Components

section Tallies

variable (n : Network) (name : String) (c : Channel)

theorem kind_of_mem_absorb (m : Keyed String Channel) {f : Finding}
    (hf : f ∈ (m.absorb Channel.join c.name c).findings) :
    f.kind = "incompatible" ∨ f.kind = "header_mismatch" := by
  rw [Keyed.findings_absorb] at hf
  cases hm : m.get? c.name with
  | none =>
    rw [hm] at hf
    cases hf
  | some held =>
    rw [hm, Noted.joinOption_some, Noted.findings_map, Channel.findings_join, Channel.remark] at hf
    split at hf
    · split at hf
      · cases hf
      · rw [List.mem_singleton.1 hf]
        exact .inr rfl
    · rw [List.mem_singleton.1 hf]
      exact .inl rfl

theorem tally_declare {kind : String} (hi : kind ≠ "incompatible") (hm : kind ≠ "header_mismatch") :
    tally kind (n.declare name c).findings
      = tally kind ({ n with channels := (n.channels.absorb Channel.join c.name c).value }.link name
        c).findings := by
  have habsorb : tally kind (n.channels.absorb Channel.join c.name c).findings = 0 := by
    apply Report.tally_eq_zero
    intro f hf hkind
    rcases kind_of_mem_absorb c n.channels hf with h | h
    · exact hi (hkind.symm.trans h)
    · exact hm (hkind.symm.trans h)
  rw [declare_eq, Noted.findings_bind, Report.tally_append, habsorb, Nat.zero_add]

theorem tally_openComponent {kind : String} : tally kind (n.openComponent name).findings
    = if kind = "duplicate_component" ∧ name ∈ n.components.keys then 1 else 0 := by
  rw [findings_openComponent]
  simp only [Keyed.contains_iff]
  by_cases hname : name ∈ n.components.keys
  · simp [hname, Finding.kind, eq_comm]
  · simp [hname]

def twice : Direction → String
  | .input => "consumed_twice"
  | .output => "produced_twice"

def declareKinds : List String :=
  ["incompatible", "header_mismatch", "consumed_twice", "produced_twice", "multiple_producers"]

theorem kind_mem_of_mem_declare {f : Finding} (hf : f ∈ (n.declare name c).findings) :
    f.kind ∈ declareKinds := by
  rw [declare_eq, Noted.findings_bind, List.mem_append] at hf
  rcases hf with hf | hf
  · rcases kind_of_mem_absorb c n.channels hf with h | h <;> simp [h, declareKinds]
  · rcases mem_findings_link _ name c hf with rfl | rfl | ⟨p, rfl⟩
      <;> simp [Finding.kind, declareKinds]

theorem tally_declare_eq_zero {kind : String} (hkind : kind ∉ declareKinds) :
    tally kind (n.declare name c).findings = 0 :=
  Report.tally_eq_zero fun _ hf h => hkind (h ▸ kind_mem_of_mem_declare n name c hf)

variable {n name} {held : Interface} (hopen : n.components.get? name = some held)
include hopen

theorem tally_twice_declare (d : Direction) : tally (twice d) (n.declare name c).findings
    = if c.direction = d ∧ c.name ∈ (held.side d).keys then 1 else 0 := by
  rw [tally_declare n name c (by cases d <;> decide) (by cases d <;> decide),
    findings_link_channels hopen]
  cases hd : c.direction with
  | input =>
    rw [link_input hopen hd]
    simp only [Keyed.contains_iff]
    by_cases hname : c.name ∈ held.inputs.keys <;> cases d
      <;> simp [hname, twice, Finding.kind, Interface.side]
  | output =>
    rw [link_output hopen hd]
    simp only [Keyed.contains_iff]
    by_cases hname : c.name ∈ held.outputs.keys
    · cases d <;> simp [hname, twice, Finding.kind, Interface.side]
    · cases n.producers.get? c.name <;> cases d
        <;> simp [hname, twice, Finding.kind, Interface.side]

theorem tally_multiple_declare : tally "multiple_producers" (n.declare name c).findings
    = if c.direction = .output ∧ c.name ∉ held.outputs.keys ∧ c.name ∈ n.producers.keys then 1
      else 0 := by
  rw [tally_declare n name c (by decide) (by decide), findings_link_channels hopen]
  cases hd : c.direction with
  | input =>
    rw [link_input hopen hd]
    by_cases hname : c.name ∈ held.inputs.keys <;> simp [Keyed.contains_iff, hname, Finding.kind]
  | output =>
    rw [link_output hopen hd]
    simp only [Keyed.contains_iff]
    by_cases hname : c.name ∈ held.outputs.keys
    · simp [hname, Finding.kind]
    · cases hp : n.producers.get? c.name with
      | none => simp [hname, Keyed.get?_eq_none_iff.1 hp]
      | some p => simp [hname, Keyed.mem_keys_iff.2 ⟨p, hp⟩, Finding.kind]

end Tallies

section Counting

theorem Reaches.tally_duplicate (hx : Reaches h x) : tally "duplicate_component" x.findings
    + (h.filterMap Event.opened?).eraseDups.length = (h.filterMap Event.opened?).length := by
  induction hx with
  | start => rfl
  | @opened h x name hx ih =>
    rw [Noted.findings_bind, Report.tally_append, tally_openComponent, hx.keys_components,
      Event.filterMap_opened?_opened, length_eraseDups_concat, List.length_append]
    simp only [List.mem_eraseDups, true_and, List.length_singleton]
    split <;> omega
  | @declared h x name c hx _ ih =>
    rw [Noted.findings_bind, Report.tally_append, tally_declare_eq_zero _ _ _ (by decide),
      Event.filterMap_opened?_declared]
    exact ih

theorem Reaches.tally_twice (hx : Reaches h x) (d : Direction) : tally (twice d) x.findings
    + (h.filterMap (Event.link? d)).eraseDups.length = (h.filterMap (Event.link? d)).length := by
  induction hx with
  | start => rfl
  | @opened h x name hx ih =>
    have hkind : twice d ≠ "duplicate_component" := by cases d <;> decide
    rw [Noted.findings_bind, Report.tally_append, tally_openComponent, if_neg (fun h => hkind h.1),
      Event.filterMap_link?_opened]
    exact ih
  | @declared h x name c hx hname ih =>
    obtain ⟨held, hheld⟩ := hx.exists_component hname
    rw [Noted.findings_bind, Report.tally_append, tally_twice_declare c hheld, hx.keys_side d hheld,
      Event.filterMap_link?_declared]
    simp only [List.mem_eraseDups, Keyed.mem_valuesOf]
    by_cases hd : c.direction = d
    · rw [if_pos hd, length_eraseDups_concat, List.length_append, List.length_singleton]
      simp only [hd, true_and]
      split <;> omega
    · rw [if_neg hd, if_neg (fun h => hd h.1)]
      exact ih

theorem Reaches.tally_multiple (hx : Reaches h x) : tally "multiple_producers" x.findings
    + ((h.filterMap (Event.link? .output)).map Prod.snd).eraseDups.length
      = (h.filterMap (Event.link? .output)).eraseDups.length := by
  induction hx with
  | start => rfl
  | @opened h x name hx ih =>
    rw [Noted.findings_bind, Report.tally_append, tally_openComponent,
      if_neg (fun h => absurd h.1 (by decide)),
      Event.filterMap_link?_opened]
    exact ih
  | @declared h x name c hx hname ih =>
    obtain ⟨held, hheld⟩ := hx.exists_component hname
    have hside : held.outputs.keys = _ := hx.keys_side .output hheld
    rw [Noted.findings_bind, Report.tally_append, tally_multiple_declare c hheld, hside,
      hx.keys_producers, Event.filterMap_link?_declared]
    simp only [List.mem_eraseDups, Keyed.mem_valuesOf]
    by_cases hd : c.direction = .output
    · rw [if_pos hd, length_eraseDups_concat, List.map_append, List.map_singleton,
        length_eraseDups_concat]
      by_cases hlink : (name, c.name) ∈ h.filterMap (Event.link? .output)
      · have hmem : c.name ∈ (h.filterMap (Event.link? .output)).map Prod.snd :=
          List.mem_map_of_mem hlink
        rw [if_pos hlink, if_pos hmem, if_neg (fun h => h.2.1 hlink)]
        exact ih
      · simp only [hd, hlink, not_false_eq_true, true_and, if_false]
        split <;> omega
    · rw [if_neg hd, if_neg (fun h => hd h.1)]
      exact ih

end Counting

end Network

end Avionics
