import Avionics.Proofs.Network.Codec
import Avionics.Proofs.Network.Reading
import Avionics.Proofs.Network.Registration

namespace Avionics

open Markup (Element)

def Channel.declaredAs (c : Channel) (d : Direction) : Channel :=
  { c with direction := d, endpoint := none }

namespace Document

def placeChannel (c : Channel) : Allocating Channel := do
  let endpoint ← Allocator.allocate c.type
  return { c with endpoint := some endpoint }

def placeComponent (c : Component) : Allocating Component := do
  let channels ← c.channels.mapM placeChannel
  return { name := c.name, channels := channels }

def place (cs : List Component) : Allocating Document := do
  let components ← cs.mapM placeComponent
  return { components := components }

theorem readChannel_write (c : Channel) (d : Direction) :
    readChannel (c.write d) = placeChannel (c.declaredAs d) := by
  rw [readChannel, Channel.read_write]
  rfl

end Document

namespace Network

open Document (placeChannel placeComponent place readChannel readComponent)

variable (n : Network)

def redeclare (d : Direction) (names : List String) : List Channel :=
  (names.filterMap n.channels.get?).map (·.declaredAs d)

def redeclaredComponent (i : Interface) : Component where
  name := i.name
  channels := n.redeclare .input i.inputs.keys ++ n.redeclare .output i.outputs.keys

def redeclared : List Component := n.components.entries.map fun e => n.redeclaredComponent e.2

theorem filterMap_writeChannel (d : Direction) (names : List String) :
    names.filterMap (n.writeChannel d) = (names.filterMap n.channels.get?).map (·.write d) :=
  List.map_filterMap.symm

theorem mapM_writeChannel (d : Direction) (names : List String) :
    (names.filterMap (n.writeChannel d)).mapM readChannel
      = (n.redeclare d names).mapM placeChannel := by
  rw [filterMap_writeChannel, redeclare, List.mapM_map, List.mapM_map]
  simp only [Function.comp_def, Document.readChannel_write]

theorem attribute?_writeComponent (i : Interface) :
    (n.writeComponent i).attribute? "Name" = some i.name := rfl

theorem readComponent_write (i : Interface) :
    readComponent (n.writeComponent i) = placeComponent (n.redeclaredComponent i) := by
  rw [readComponent, Element.required_eq_ok.2 (n.attribute?_writeComponent i), writeComponent,
    List.mapM_append, mapM_writeChannel, mapM_writeChannel, ← List.mapM_append]
  rfl

theorem childrenNamed_write :
    n.write.childrenNamed Document.componentTag = n.components.values.map n.writeComponent := by
  refine List.filter_eq_self.2 fun e he => ?_
  obtain ⟨c, -, rfl⟩ := List.mem_map.1 he
  rfl

theorem read_write : Document.read n.write = place n.redeclared := by
  have hcomponents : (n.components.values.map n.writeComponent).mapM readComponent
      = n.redeclared.mapM placeComponent := by
    rw [redeclared, Keyed.values, List.mapM_map, List.mapM_map, List.mapM_map]
    simp only [Function.comp_def, readComponent_write]
  rw [Document.read, childrenNamed_write, hcomponents]
  rfl

theorem demands_write :
    Document.demands n.write = ((n.redeclared.flatMap (·.channels)).map (·.type)).map .ok := by
  have hside : ∀ d names, (names.filterMap (n.writeChannel d)).map Document.channelDemand
      = ((n.redeclare d names).map (·.type)).map .ok := by
    intro d names
    rw [filterMap_writeChannel, redeclare, List.map_map, List.map_map, List.map_map]
    refine List.map_congr_left fun c _ => ?_
    exact Document.channelDemand_of_ok (c.read_write d)
  have hcomponent : ∀ i : Interface, Document.componentDemands (n.writeComponent i)
      = ((n.redeclaredComponent i).channels.map (·.type)).map .ok := by
    intro i
    rw [Document.componentDemands, Element.required_eq_ok.2 (n.attribute?_writeComponent i),
      redeclaredComponent, List.map_append, List.map_append, ← hside, ← hside, ← List.map_append]
    rfl
  have hroot : n.write.name = Document.rootName := rfl
  rw [Document.demands, if_neg (not_not.2 hroot), childrenNamed_write, redeclared, Keyed.values,
    List.flatMap_map, List.flatMap_map, List.flatMap_map, List.map_flatMap, List.map_flatMap]
  simp only [hcomponent]

section Registered

variable {n}

theorem mem_redeclare {d : Direction} {names : List String} {c : Channel} : c ∈ n.redeclare d names
    ↔ ∃ name ∈ names, ∃ stored, n.channels.get? name = some stored ∧ c = stored.declaredAs d := by
  simp only [redeclare, List.mem_map, List.mem_filterMap]
  constructor
  · rintro ⟨stored, ⟨name, hname, hstored⟩, rfl⟩
    exact ⟨name, hname, stored, hstored, rfl⟩
  · rintro ⟨name, hname, stored, hstored, rfl⟩
    exact ⟨stored, ⟨name, hname, hstored⟩, rfl⟩

theorem mem_redeclaredComponent {i : Interface} {c : Channel} :
    c ∈ (n.redeclaredComponent i).channels ↔ ∃ d, c ∈ n.redeclare d (i.side d).keys := by
  rw [redeclaredComponent, List.mem_append]
  constructor
  · rintro (h | h)
    · exact ⟨.input, h⟩
    · exact ⟨.output, h⟩
  · rintro ⟨d, h⟩
    cases d with
    | input => exact .inl h
    | output => exact .inr h

theorem direction_of_mem_redeclare {d : Direction} {names : List String} {c : Channel}
    (h : c ∈ n.redeclare d names) : c.direction = d := by
  obtain ⟨_, _, _, _, rfl⟩ := mem_redeclare.1 h
  rfl

theorem map_name_redeclare (hn : n.Registered) {component : String} {i : Interface}
    (hi : n.components.get? component = some i) (d : Direction) :
    (n.redeclare d (i.side d).keys).map (·.name) = (i.side d).keys := by
  rw [redeclare, List.map_map, List.map_filterMap]
  refine (List.filterMap_congr fun name hname => ?_).trans List.filterMap_some
  obtain ⟨c, hc⟩ := hn.exists_channel hi hname
  have hstored := hn.name_eq hc
  rw [hc]
  exact congrArg some hstored

theorem filter_redeclare (d d' : Direction) (names : List String) :
    (n.redeclare d names).filter (·.direction = d') = if d = d' then n.redeclare d names
      else [] := by
  split
  · next hd => exact List.filter_eq_self.2 fun c hc =>
      decide_eq_true ((direction_of_mem_redeclare hc).trans hd)
  · next hd =>
    refine List.filter_eq_nil_iff.2 fun c hc => ?_
    rw [decide_eq_true_eq, direction_of_mem_redeclare hc]
    exact hd

theorem side_redeclared (hn : n.Registered) {component : String} {i : Interface}
    (hi : n.components.get? component = some i) (d : Direction) :
    (n.redeclaredComponent i).side d = (i.side d).keys := by
  have hnames := map_name_redeclare hn hi d
  rw [Component.side, redeclaredComponent, List.filter_append, filter_redeclare, filter_redeclare]
  cases d with
  | input =>
    rw [if_pos rfl, if_neg (by decide), List.append_nil]
    exact hnames
  | output =>
    rw [if_neg (by decide), if_pos rfl, List.nil_append]
    exact hnames

end Registered

end Network

end Avionics
