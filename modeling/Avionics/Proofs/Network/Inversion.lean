import Avionics.Inversion
import Avionics.Proofs.Fold
import Avionics.Proofs.Keyed.Mapping
import Avionics.Proofs.Markup.Retagging
import Avionics.Proofs.Network.Codec
import Avionics.Proofs.Stateful

namespace Avionics

open Markup (Tag Element)

def Channel.inverted (c : Channel) : Channel := { c with direction := c.direction.inverted }

def invertedComponent (name : String) : String := "Inverted" ++ name

def Component.inverted (c : Component) : Component where
  name := invertedComponent c.name
  channels := c.channels.map Channel.inverted

def Document.inverted (d : Document) : Document :=
  { components := d.components.map Component.inverted }

@[simp] theorem Direction.inverted_inverted (d : Direction) : d.inverted.inverted = d := by
  cases d <;> rfl

namespace Inversion

section Directions

variable {s : String}

theorem invertDirection_text (d : Direction) : invertDirection d.text = d.inverted.text := by
  rw [invertDirection, Direction.ofText?_eq_some.2 rfl]

theorem invertDirection_of_none (h : Direction.ofText? s = none) : invertDirection s = s := by
  rw [invertDirection, h]

theorem ofText?_invertDirection (s : String) :
    Direction.ofText? (invertDirection s) = (Direction.ofText? s).map Direction.inverted := by
  cases h : Direction.ofText? s with
  | none => rw [invertDirection_of_none h, h, Option.map_none]
  | some d =>
    rw [Direction.ofText?_eq_some.1 h, invertDirection_text, Direction.ofText?_eq_some.2 rfl,
      Option.map_some]

theorem invertDirection_invertDirection (s : String) : invertDirection (invertDirection s) = s := by
  cases h : Direction.ofText? s with
  | none => rw [invertDirection_of_none h, invertDirection_of_none h]
  | some d =>
    rw [Direction.ofText?_eq_some.1 h, invertDirection_text, invertDirection_text,
      Direction.inverted_inverted]

end Directions

def prefixTwice (t : Tag) : Tag :=
  if t.name = Document.componentTag then
    { t with
      attributes :=
        t.attributes.modify "Name" fun name => invertedComponent (invertedComponent name) }
  else t

theorem name_invertNetworkTag (t : Tag) : (invertNetworkTag t).name = t.name := by
  rw [invertNetworkTag]
  split <;> rfl

theorem invertNetworkTag_invertNetworkTag (t : Tag) :
    invertNetworkTag (invertNetworkTag t) = prefixTwice t := by
  have hdirection : invertDirection ∘ invertDirection = id := funext invertDirection_invertDirection
  rw [invertNetworkTag, name_invertNetworkTag, invertNetworkTag, prefixTwice]
  split
  · simp only [Keyed.modify_modify]
    rfl
  · simp only [Keyed.modify_modify, hdirection, Keyed.modify_id]

theorem invertNetwork_invertNetwork (root : Element) :
    invertNetwork (invertNetwork root) = root.mapTags prefixTwice := by
  rw [invertNetwork, invertNetwork, Element.mapTags_mapTags]
  congr 1
  exact funext invertNetworkTag_invertNetworkTag

section Attributes

variable {e : Element} {key : String}

theorem name_invertNetwork (e : Element) : (invertNetwork e).name = e.name := by
  rw [invertNetwork, Element.toTag_mapTags, name_invertNetworkTag]

theorem childrenNamed_invertNetwork (e : Element) (tag : String) :
    (invertNetwork e).childrenNamed tag = (e.childrenNamed tag).map invertNetwork :=
  Element.childrenNamed_mapTags (fun t => by rw [name_invertNetworkTag]) e

theorem attribute?_invertNetwork_component (h : e.name = Document.componentTag) (key : String) :
    (invertNetwork e).attribute? key
      = if key = "Name" then (e.attribute? key).map invertedComponent else e.attribute? key := by
  rw [invertNetwork, Element.toTag_mapTags, invertNetworkTag, if_pos h]
  exact Keyed.get?_modify ..

theorem attribute?_invertNetwork_other (h : e.name ≠ Document.componentTag) (key : String) :
    (invertNetwork e).attribute? key
      = if key = "Direction" then (e.attribute? key).map invertDirection else e.attribute? key := by
  rw [invertNetwork, Element.toTag_mapTags, invertNetworkTag, if_neg h]
  exact Keyed.get?_modify ..

theorem attribute?_invertNetwork (hname : e.name ≠ Document.componentTag ∨ key ≠ "Name")
    (hdirection : key ≠ "Direction") : (invertNetwork e).attribute? key = e.attribute? key := by
  by_cases h : e.name = Document.componentTag
  · rw [attribute?_invertNetwork_component h, if_neg (hname.resolve_left (not_not.2 h))]
  · rw [attribute?_invertNetwork_other h, if_neg hdirection]

theorem required_invertNetwork (hname : e.name ≠ Document.componentTag ∨ key ≠ "Name")
    (hdirection : key ≠ "Direction") : (invertNetwork e).required key = e.required key := by
  rw [Element.required, Element.required, attribute?_invertNetwork hname hdirection,
    name_invertNetwork]

theorem required_invertNetwork_component (h : e.name = Document.componentTag) :
    (invertNetwork e).required "Name" = invertedComponent <$> e.required "Name" := by
  rw [Element.required, Element.required, attribute?_invertNetwork_component h, if_pos rfl,
    name_invertNetwork]
  cases e.attribute? "Name" <;> rfl

end Attributes

section Channels

variable {e : Element}

theorem readFlag_invertNetwork {key : String} (hname : key ≠ "Name")
    (hdirection : key ≠ "Direction") :
    Header.readFlag (invertNetwork e) key = Header.readFlag e key := by
  rw [Header.readFlag, Header.readFlag, required_invertNetwork (.inr hname) hdirection,
    name_invertNetwork]

theorem headerRead_invertNetwork (e : Element) : Header.read (invertNetwork e) = Header.read e := by
  rw [Header.read, Header.read, readFlag_invertNetwork (by decide) (by decide),
    readFlag_invertNetwork (by decide) (by decide), readFlag_invertNetwork (by decide) (by decide),
    readFlag_invertNetwork (by decide) (by decide)]

theorem signalRead_invertNetwork (h : e.name ≠ Document.componentTag) :
    Signal.read (invertNetwork e) = Signal.read e := by
  rw [Signal.read, Signal.read, required_invertNetwork (.inl h) (by decide),
    required_invertNetwork (.inl h) (by decide),
    attribute?_invertNetwork (.inl h) (by decide), attribute?_invertNetwork (.inl h) (by decide),
    attribute?_invertNetwork (.inl h) (by decide)]

theorem readHeader_invertNetwork (e : Element) :
    Channel.readHeader (invertNetwork e) = Channel.readHeader e := by
  rw [Channel.readHeader, Channel.readHeader, childrenNamed_invertNetwork]
  exact foldlM_map_eq (fun _ c => headerRead_invertNetwork c) (e.childrenNamed "Header") {}

theorem readSignals_invertNetwork (e : Element) :
    Channel.readSignals (invertNetwork e) = Channel.readSignals e := by
  have helements : Channel.signalElements (invertNetwork e)
      = (Channel.signalElements e).map invertNetwork := by
    simp only [Channel.signalElements, childrenNamed_invertNetwork, List.flatMap_map,
      List.map_flatMap]
  rw [Channel.readSignals_eq, Channel.readSignals_eq, helements]
  congr 1
  apply mapM_eq_of_map_eq
  rw [List.map_map]
  refine List.map_congr_left fun s hs => signalRead_invertNetwork ?_
  obtain ⟨g, -, hs⟩ := List.mem_flatMap.1 hs
  have hname : s.name = "Signal" := of_decide_eq_true (List.mem_filter.1 hs).2
  rw [hname]
  decide

theorem readDirection_invertNetwork (h : e.name ≠ Document.componentTag) :
    Channel.readDirection (invertNetwork e) = Direction.inverted <$> Channel.readDirection e := by
  have hinverted := attribute?_invertNetwork_other h "Direction"
  cases hvalue : e.attribute? "Direction" with
  | none =>
    rw [hvalue, if_pos rfl] at hinverted
    rw [Channel.readDirection, Channel.readDirection, Element.required, Element.required, hvalue,
      hinverted, name_invertNetwork]
    rfl
  | some value =>
    rw [hvalue, if_pos rfl] at hinverted
    rw [Channel.readDirection_of_attribute hinverted, Channel.readDirection_of_attribute hvalue,
      ofText?_invertDirection, name_invertNetwork]
    cases hd : Direction.ofText? value with
    | none =>
      rw [invertDirection_of_none hd]
      rfl
    | some d => rfl

theorem channelRead_invertNetwork (e : Element) :
    Channel.read (invertNetwork e) = Channel.inverted <$> Channel.read e := by
  rw [Channel.read, Channel.read, name_invertNetwork]
  cases htype : ChannelType.ofTag e.name with
  | error f => rfl
  | ok type =>
    have hname : e.name ≠ Document.componentTag := by
      rw [ChannelType.ofTag_eq_ok.1 htype]
      cases type <;> decide
    rw [readDirection_invertNetwork hname, readHeader_invertNetwork, readSignals_invertNetwork,
      required_invertNetwork (.inl hname) (by decide),
        required_invertNetwork (.inl hname) (by decide),
      required_invertNetwork (.inl hname) (by decide)]
    simp [Channel.inverted, map_bind]

end Channels

section Documents

open Document (readChannel readComponent)

theorem readChannel_invertNetwork (e : Element) :
    readChannel (invertNetwork e) = Channel.inverted <$> readChannel e := by
  rw [readChannel, readChannel, channelRead_invertNetwork, Stateful.liftM_map, bind_map_left]
  simp only [map_bind, map_pure]
  rfl

theorem readComponent_invertNetwork {e : Element} (h : e.name = Document.componentTag) :
    readComponent (invertNetwork e) = Component.inverted <$> readComponent e := by
  have hchannels : (invertNetwork e).children.mapM readChannel
      = List.map Channel.inverted <$> e.children.mapM readChannel := by
    rw [invertNetwork, Element.children_mapTags]
    exact mapM_map_eq fun c _ => readChannel_invertNetwork c
  rw [readComponent, readComponent, required_invertNetwork_component h, Stateful.liftM_map,
    bind_map_left, hchannels]
  simp only [map_bind, bind_map_left, map_pure]
  rfl

theorem read_invertNetwork (root : Element) :
    Document.read (invertNetwork root) = Document.inverted <$> Document.read root := by
  have hcomponents : ((invertNetwork root).childrenNamed Document.componentTag).mapM readComponent
      = List.map Component.inverted <$> (root.childrenNamed Document.componentTag).mapM
        readComponent := by
    rw [childrenNamed_invertNetwork]
    refine mapM_map_eq fun c hc => readComponent_invertNetwork ?_
    exact of_decide_eq_true (List.mem_filter.1 hc).2
  rw [Document.read, Document.read, name_invertNetwork, hcomponents]
  split
  · rfl
  · simp only [map_bind, bind_map_left, map_pure]
    rfl

theorem run_read_invertNetwork (root : Element) (a : Allocator) :
    (Document.read (invertNetwork root)).run.run a
    = (((Document.read root).run.run a).1.map Document.inverted,
      ((Document.read root).run.run a).2) := by
  rw [read_invertNetwork, Stateful.run_map]

end Documents

end Inversion

end Avionics
