import Avionics.Network.Document
import Avionics.Proofs.Markup.Pruning
import Avionics.Proofs.Network.Codec

namespace Avionics

open Markup (Element)

namespace Header

def flagNames : List String := ["Src_Id", "SN", "QoS_Timestamp", "Data_Timestamp"]

def Formed (e : Element) : Prop :=
  ∀ key ∈ flagNames, e.attribute? key = some "Yes" ∨ e.attribute? key = some "No"

theorem exists_readFlag_iff {e : Element} {key : String} :
    (∃ present, readFlag e key = .ok present) ↔ e.attribute? key = some "Yes"
      ∨ e.attribute? key = some "No" := by
  constructor
  · rintro ⟨present, h⟩
    obtain ⟨value, hvalue, h⟩ := bind_eq_ok.1 h
    have hattribute := Element.required_eq_ok.1 hvalue
    split at h
    · next hyes => exact .inl (hyes ▸ hattribute)
    · split at h
      · next hno => exact .inr (hno ▸ hattribute)
      · cases h
  · rintro (h | h)
    · exact ⟨true, readFlag_of_attribute h⟩
    · exact ⟨false, readFlag_of_attribute h⟩

theorem exists_read_iff {e : Element} : (∃ h, read e = .ok h) ↔ Formed e := by
  simp only [Formed, flagNames, List.forall_mem_cons, ← exists_readFlag_iff]
  constructor
  · rintro ⟨h, hread⟩
    obtain ⟨sourceId, hsource, hread⟩ := bind_eq_ok.1 hread
    obtain ⟨sequenceNumber, hsequence, hread⟩ := bind_eq_ok.1 hread
    obtain ⟨qosTimestamp, hqos, hread⟩ := bind_eq_ok.1 hread
    obtain ⟨dataTimestamp, hdata, -⟩ := bind_eq_ok.1 hread
    exact ⟨⟨_, hsource⟩, ⟨_, hsequence⟩, ⟨_, hqos⟩, ⟨_, hdata⟩, List.forall_mem_nil _⟩
  · rintro ⟨⟨_, hsource⟩, ⟨_, hsequence⟩, ⟨_, hqos⟩, ⟨_, hdata⟩, -⟩
    rw [read, hsource, hsequence, hqos, hdata]
    exact ⟨_, rfl⟩

def essential (e : Element) : Element := e.only flagNames []

theorem read_essential (e : Element) : read (essential e) = read e := by
  have hflag : ∀ key ∈ flagNames, readFlag (essential e) key = readFlag e key := by
    intro key hkey
    rw [readFlag, essential, Element.required_only hkey]
    rfl
  simp only [flagNames, List.forall_mem_cons] at hflag
  obtain ⟨hsource, hsequence, hqos, hdata, -⟩ := hflag
  rw [read, hsource, hsequence, hqos, hdata]
  rfl

end Header

namespace Signal

def Formed (e : Element) : Prop := e.Has "Name" ∧ e.Has "ByteOffset"

theorem exists_read_iff {e : Element} : (∃ s, read e = .ok s) ↔ Formed e := by
  constructor
  · rintro ⟨⟨name, s⟩, h⟩
    obtain ⟨hname, hoffset, -⟩ := read_eq_ok.1 h
    exact ⟨⟨name, hname⟩, ⟨s.byteOffset, hoffset⟩⟩
  · rintro ⟨⟨name, hname⟩, ⟨byteOffset, hoffset⟩⟩
    exact ⟨(name, ⟨byteOffset, _, _, _⟩), read_eq_ok.2 ⟨hname, hoffset, rfl, rfl, rfl⟩⟩

def essential (e : Element) : Element := e.only ["Name", "ByteOffset", "Type", "Size", "Unit"] []

theorem read_essential (e : Element) : read (essential e) = read e := by
  simp only [read, essential, Element.required_only, Element.attribute?_only, List.mem_cons,
    true_or, or_true]

end Signal

namespace Channel

structure Formed (e : Element) : Prop where
  type : ∃ t : ChannelType, e.name = t.tag
  name : e.Has "Name"
  fifoSize : e.Has "FifoSize"
  messageMaxSize : e.Has "MessageMaxSize"
  direction : e.attribute? "Direction" = some "In" ∨ e.attribute? "Direction" = some "Out"
  headers : ∀ h ∈ e.childrenNamed "Header", Header.Formed h
  signals : ∀ g ∈ e.childrenNamed "Signals", ∀ s ∈ g.childrenNamed "Signal", Signal.Formed s

theorem exists_readDirection_iff {e : Element} : (∃ d, readDirection e = .ok d)
    ↔ e.attribute? "Direction" = some "In" ∨ e.attribute? "Direction" = some "Out" := by
  simp only [readDirection_eq_ok]
  constructor
  · rintro ⟨_ | _, h⟩
    · exact .inl h
    · exact .inr h
  · rintro (h | h)
    · exact ⟨.input, h⟩
    · exact ⟨.output, h⟩

theorem exists_readHeader_iff {e : Element} :
    (∃ h, readHeader e = .ok h) ↔ ∀ h ∈ e.childrenNamed "Header", Header.Formed h :=
  exists_foldlM_iff (fun _ c => Header.exists_read_iff (e := c)) (e.childrenNamed "Header") {}

theorem exists_readSignals_iff {e : Element} : (∃ m, readSignals e = .ok m)
    ↔ ∀ g ∈ e.childrenNamed "Signals", ∀ s ∈ g.childrenNamed "Signal", Signal.Formed s := by
  rw [← List.forall_mem_flatMap]
  refine exists_foldlM_iff (fun held c => ?_) _ _
  rw [← Signal.exists_read_iff]
  cases Signal.read c with
  | error f => exact iff_of_false nofun nofun
  | ok s => exact iff_of_true ⟨_, rfl⟩ ⟨s, rfl⟩

theorem exists_read_iff {e : Element} : (∃ c, read e = .ok c) ↔ Formed e := by
  constructor
  · rintro ⟨c, h⟩
    obtain ⟨htype, hdirection, hheader, hsignals, hname, hfifo, hmax, -⟩ := read_eq_ok.1 h
    exact ⟨⟨_, htype⟩, ⟨_, hname⟩, ⟨_, hfifo⟩, ⟨_, hmax⟩,
      exists_readDirection_iff.1 ⟨_, hdirection⟩,
      exists_readHeader_iff.1 ⟨_, hheader⟩, exists_readSignals_iff.1 ⟨_, hsignals⟩⟩
  · intro h
    obtain ⟨type, htype⟩ := h.type
    obtain ⟨direction, hdirection⟩ := exists_readDirection_iff.2 h.direction
    obtain ⟨header, hheader⟩ := exists_readHeader_iff.2 h.headers
    obtain ⟨signals, hsignals⟩ := exists_readSignals_iff.2 h.signals
    obtain ⟨name, hname⟩ := h.name
    obtain ⟨fifoSize, hfifo⟩ := h.fifoSize
    obtain ⟨messageMaxSize, hmax⟩ := h.messageMaxSize
    exact ⟨⟨name, type, direction, fifoSize, messageMaxSize, header, signals, none⟩,
      read_eq_ok.2 ⟨htype, hdirection, hheader, hsignals, hname, hfifo, hmax, rfl⟩⟩

def essentialGroup (e : Element) : Element :=
  e.only [] (e.children.filterMap (·.pick "Signal" Signal.essential))

def essentialChild (c : Element) : Option Element :=
  (c.pick "Header" Header.essential).or (c.pick "Signals" essentialGroup)

def essential (e : Element) : Element :=
  e.only ["Name", "Direction", "FifoSize", "MessageMaxSize"] (e.children.filterMap essentialChild)

section Essential

variable (e : Element)

theorem childrenNamed_essentialGroup :
    (essentialGroup e).childrenNamed "Signal" = (e.childrenNamed "Signal").map Signal.essential :=
  Element.filter_named_pick (f := Signal.essential) (fun _ => rfl) "Signal" e.children

theorem name_of_essentialChild {c d : Element} (h : essentialChild c = some d) :
    d.name = c.name := by
  rcases Option.or_eq_some_iff.1 h with h | ⟨-, h⟩
  · exact Element.name_of_pick h fun _ => rfl
  · exact Element.name_of_pick h fun _ => rfl

theorem childrenNamed_header_essential :
    (essential e).childrenNamed "Header" = (e.childrenNamed "Header").map Header.essential := by
  refine (Element.filter_named_filterMap (fun _ _ => name_of_essentialChild) "Header"
    e.children).trans ?_
  refine Element.filterMap_named (fun c h => ?_) e.children
  rw [essentialChild, Element.pick_of_name h, Option.some_or]

theorem childrenNamed_signals_essential :
    (essential e).childrenNamed "Signals" = (e.childrenNamed "Signals").map essentialGroup := by
  refine (Element.filter_named_filterMap (fun _ _ => name_of_essentialChild) "Signals"
    e.children).trans ?_
  refine Element.filterMap_named (fun c h => ?_) e.children
  rw [essentialChild, Element.pick_of_ne (by rw [h]; decide), Element.pick_of_name h,
    Option.none_or]

theorem readHeader_essential : readHeader (essential e) = readHeader e := by
  rw [readHeader, childrenNamed_header_essential, List.foldlM_map]
  simp only [Header.read_essential]
  rfl

theorem readSignals_essential : readSignals (essential e) = readSignals e := by
  have hsignals : signalElements (essential e) = (signalElements e).map Signal.essential := by
    rw [signalElements, childrenNamed_signals_essential, List.flatMap_map, signalElements,
      List.map_flatMap]
    exact List.flatMap_congr fun g _ => childrenNamed_essentialGroup g
  rw [readSignals_eq, readSignals_eq, hsignals, List.mapM_map]
  simp only [Function.comp_def, Signal.read_essential]

theorem read_essential : read (essential e) = read e := by
  have hrequired : ∀ key ∈ ["Name", "Direction", "FifoSize", "MessageMaxSize"],
      (essential e).required key = e.required key := fun key hkey => Element.required_only hkey e _
  simp only [List.forall_mem_cons] at hrequired
  obtain ⟨hname, hdirection, hfifo, hmax, -⟩ := hrequired
  rw [read, readDirection, readHeader_essential, readSignals_essential, hname, hdirection,
    hfifo, hmax]
  rfl

end Essential

end Channel

namespace Document

/-- The trees that can be read as far as there are endpoints. -/
structure Formed (root : Element) : Prop where
  named : root.name = rootName
  components : ∀ e ∈ root.childrenNamed componentTag, e.Has "Name"
  channels : ∀ e ∈ root.childrenNamed componentTag, ∀ c ∈ e.children, Channel.Formed c

def declared (t : ChannelType) (root : Element) : Nat :=
  ((root.childrenNamed componentTag).flatMap (·.children)).countP fun e => e.name = t.tag

def essentialComponent (e : Element) : Element := e.only ["Name"] (e.children.map Channel.essential)

def essential (root : Element) : Element :=
  root.only [] (root.children.filterMap (·.pick componentTag essentialComponent))

theorem readChannel_essential (e : Element) :
    readChannel (Channel.essential e) = readChannel e := by
  rw [readChannel, Channel.read_essential]
  rfl

theorem readComponent_essential (e : Element) :
    readComponent (essentialComponent e) = readComponent e := by
  have hname : (essentialComponent e).required "Name" = e.required "Name" :=
    Element.required_only (by decide) e _
  have hchildren : (essentialComponent e).children.mapM readChannel
      = e.children.mapM readChannel := by
    show (e.children.map Channel.essential).mapM readChannel = _
    rw [List.mapM_map]
    simp only [Function.comp_def, readChannel_essential]
  rw [readComponent, hname, hchildren]
  rfl

theorem childrenNamed_essential (root : Element) :
    (essential root).childrenNamed componentTag = (root.childrenNamed componentTag).map
      essentialComponent :=
  Element.filter_named_pick (f := essentialComponent) (fun _ => rfl) componentTag root.children

theorem read_essential (root : Element) : read (essential root) = read root := by
  rw [read, childrenNamed_essential, List.mapM_map]
  simp only [Function.comp_def, readComponent_essential]
  rfl

end Document

end Avionics
