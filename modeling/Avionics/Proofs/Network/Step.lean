import Avionics.Network.Registry
import Avionics.Proofs.Keyed.Merge

namespace Avionics

def Interface.add (i : Interface) (c : Channel) : Interface :=
  match c.direction with
  | .input => { i with inputs := i.inputs.insert c.name () }
  | .output => { i with outputs := i.outputs.insert c.name () }

namespace Interface

def side (i : Interface) : Direction → Keyed String Unit
  | .input => i.inputs
  | .output => i.outputs

theorem eq_of_side {i j : Interface} (hname : i.name = j.name) (h : ∀ d, i.side d = j.side d) :
    i = j := by
  obtain ⟨name, inputs, outputs⟩ := i
  obtain ⟨name', inputs', outputs'⟩ := j
  cases hname
  cases h .input
  cases h .output
  rfl

theorem name_add (i : Interface) (c : Channel) : (i.add c).name = i.name := by
  rw [add]
  split <;> rfl

theorem side_add (i : Interface) (c : Channel) (d : Direction) :
    (i.add c).side d = if c.direction = d then (i.side d).insert c.name () else i.side d := by
  rw [add]
  cases hc : c.direction <;> cases d <;> rfl

end Interface

namespace Network

variable (n : Network) (name : String) (c : Channel)

section Open

@[simp] theorem channels_openComponent : (n.openComponent name).value.channels = n.channels := by
  rw [openComponent]
  split <;> rfl

@[simp] theorem producers_openComponent : (n.openComponent name).value.producers = n.producers := by
  rw [openComponent]
  split <;> rfl

theorem findings_openComponent : (n.openComponent name).findings
    = if n.components.contains name then [.duplicateComponent name] else [] := by
  rw [openComponent]
  split <;> rfl

theorem keys_openComponent : (n.openComponent name).value.components.keys
    = if name ∈ n.components.keys then n.components.keys else n.components.keys ++ [name] := by
  simp only [← Keyed.contains_iff]
  rw [openComponent]
  split
  · rfl
  · next h =>
    rw [Keyed.contains_iff] at h
    rw [Noted.value_pure, Keyed.keys_insert, if_neg h]

theorem get?_openComponent (k : String) : (n.openComponent name).value.components.get? k
    = if k = name then some ((n.components.get? name).getD { name := name })
      else n.components.get? k := by
  rw [openComponent]
  split
  · next h =>
    obtain ⟨held, hheld⟩ := Keyed.mem_keys_iff.1 (Keyed.contains_iff.1 h)
    split
    · next hk => simp [hk, hheld]
    · rfl
  · next h =>
    have hnone : n.components.get? name = none :=
      Keyed.get?_eq_none_iff.2 (mt Keyed.contains_iff.2 h)
    rw [Noted.value_pure, Keyed.get?_insert, hnone]
    rfl

end Open

section Declare

def link : Noted Network :=
  match n.components.get? name, c.direction with
  | none, _ => pure n
  | some held, .input => n.consume name held c.name
  | some held, .output => n.produce name held c.name

theorem declare_eq : n.declare name c
    = n.channels.absorb Channel.join c.name c >>= fun channels =>
    { n with channels := channels }.link name c := rfl

theorem consume_eq (held : Interface) (channel : String) : n.consume name held channel
    = ⟨{ n with
          components :=
            n.components.insert name { held with inputs := held.inputs.insert channel () } },
        if held.inputs.contains channel then [.consumedTwice channel] else []⟩ := by
  rw [consume]
  split <;> rfl

theorem produce_eq (held : Interface) (channel : String) : n.produce name held channel
    = ⟨{ n with
          components :=
            n.components.insert name { held with outputs := held.outputs.insert channel () }
          producers := n.producers.insert channel held.name },
        if held.outputs.contains channel then [.producedTwice channel]
        else (n.producers.get? channel).toList.map (.multipleProducers channel)⟩ := by
  rw [produce]
  split
  · rfl
  · cases n.producers.get? channel <;> rfl

theorem channels_link : (n.link name c).value.channels = n.channels := by
  rw [link]
  split
  · rfl
  · rw [consume_eq]
  · rw [produce_eq]

theorem channels_declare :
    (n.declare name c).value.channels = (n.channels.absorb Channel.join c.name c).value := by
  rw [declare_eq, Noted.value_bind, channels_link]

theorem mem_findings_link {f : Finding} (h : f ∈ (n.link name c).findings) :
    f = .consumedTwice c.name ∨ f = .producedTwice c.name ∨ ∃ p,
      f = .multipleProducers c.name p := by
  rw [link] at h
  split at h
  · cases h
  · rw [consume_eq] at h
    split at h
    · exact .inl (List.mem_singleton.1 h)
    · cases h
  · rw [produce_eq] at h
    split at h
    · exact .inr (.inl (List.mem_singleton.1 h))
    · obtain ⟨p, -, rfl⟩ := List.mem_map.1 h
      exact .inr (.inr ⟨p, rfl⟩)

section Open

variable {n name c} {held : Interface} (h : n.components.get? name = some held)
include h

theorem link_input (hd : c.direction = .input) : n.link name c
    = ⟨{ n with
          components :=
            n.components.insert name { held with inputs := held.inputs.insert c.name () } },
        if held.inputs.contains c.name then [.consumedTwice c.name] else []⟩ := by
  rw [link, h, hd]
  exact consume_eq ..

theorem link_output (hd : c.direction = .output) : n.link name c
    = ⟨{ n with
          components :=
            n.components.insert name { held with outputs := held.outputs.insert c.name () }
          producers := n.producers.insert c.name held.name },
        if held.outputs.contains c.name then [.producedTwice c.name]
        else (n.producers.get? c.name).toList.map (.multipleProducers c.name)⟩ := by
  rw [link, h, hd]
  exact produce_eq ..

theorem findings_link_channels (m : Keyed String Channel) :
    ({ n with channels := m }.link name c).findings = (n.link name c).findings := by
  cases hd : c.direction with
  | input => rw [link_input h hd, link_input (n := { n with channels := m }) h hd]
  | output => rw [link_output h hd, link_output (n := { n with channels := m }) h hd]

theorem components_link :
    (n.link name c).value.components = n.components.insert name (held.add c) := by
  cases hd : c.direction with
  | input => rw [link_input h hd, Interface.add, hd]
  | output => rw [link_output h hd, Interface.add, hd]

theorem producers_link : (n.link name c).value.producers
    = if c.direction = .output then n.producers.insert c.name held.name else n.producers := by
  cases hd : c.direction with
  | input => rw [link_input h hd]; rfl
  | output => rw [link_output h hd]; rfl

theorem components_declare :
    (n.declare name c).value.components = n.components.insert name (held.add c) := by
  rw [declare_eq, Noted.value_bind]
  exact components_link h

theorem producers_declare : (n.declare name c).value.producers
    = if c.direction = .output then n.producers.insert c.name held.name else n.producers := by
  rw [declare_eq, Noted.value_bind]
  exact producers_link h

end Open

end Declare

end Network

end Avionics
