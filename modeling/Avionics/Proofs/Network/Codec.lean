import Avionics.Network.Channel
import Avionics.Proofs.Fold
import Avionics.Proofs.Keyed.Merge
import Avionics.Proofs.Markup.Attribute

namespace Avionics

open Markup (Element)

namespace Keyed

variable {κ α : Type} [DecidableEq κ]

theorem get?_ofList (es : List (κ × α)) (k : κ) :
    (ofList es).get? k = (valuesOf k es).getLast? := by
  rw [ofList]
  induction es using List.reverseRecOn with
  | nil => rfl
  | append_singleton es e ih =>
    rw [List.foldl_append, List.foldl_cons, List.foldl_nil, get?_insert, ih, valuesOf_append,
      valuesOf_cons]
    by_cases hk : k = e.1
    · simp [hk]
    · simp [hk, Ne.symm hk]

theorem foldlM_insert_read {E : Type} {step : Keyed κ α → E → Except Failure (Keyed κ α)}
    {read : E → Except Failure (κ × α)}
    (hstep : ∀ held c, step held c = read c >>= fun e => pure (held.insert e.1 e.2)) (cs : List E)
    (held : Keyed κ α) :
    cs.foldlM step held = cs.mapM read >>= fun es =>
      pure (es.foldl (fun m e => m.insert e.1 e.2) held) := by
  induction cs generalizing held with
  | nil => rfl
  | cons c cs ih =>
    rw [List.foldlM_cons, List.mapM_cons, hstep]
    cases read c with
    | error f => rfl
    | ok e =>
      refine (ih (held.insert e.1 e.2)).trans ?_
      cases cs.mapM read <;> rfl

end Keyed

theorem ChannelType.ofTag_tag (t : ChannelType) : ofTag t.tag = .ok t := by cases t <;> rfl

theorem ChannelType.ofTag_eq_ok {s : String} {t : ChannelType} : ofTag s = .ok t ↔ s = t.tag := by
  constructor
  · intro h
    rw [ofTag] at h
    split at h
    · next u hfind =>
      cases h
      have hs := List.find?_some hfind
      exact (of_decide_eq_true hs).symm
    · cases h
  · rintro rfl
    exact ofTag_tag t

theorem Direction.ofText?_eq_some {s : String} {d : Direction} :
    ofText? s = some d ↔ s = d.text := by
  constructor
  · intro h
    rw [ofText?] at h
    split_ifs at h with hin hout
    · cases h
      exact hin
    · cases h
      exact hout
  · rintro rfl
    cases d <;> rfl

namespace Signal

theorem read_eq_ok {e : Element} {name : String} {s : Signal} :
    read e = .ok (name, s) ↔ e.attribute? "Name" = some name
    ∧ e.attribute? "ByteOffset" = some s.byteOffset ∧ e.attribute? "Type" = s.type
      ∧ e.attribute? "Size" = s.size
    ∧ e.attribute? "Unit" = s.unit := by
  rw [← Element.required_eq_ok, ← Element.required_eq_ok, read, bind_eq_ok]
  constructor
  · rintro ⟨name, hname, h⟩
    obtain ⟨byteOffset, hoffset, h⟩ := bind_eq_ok.1 h
    cases h
    exact ⟨hname, hoffset, rfl, rfl, rfl⟩
  · rintro ⟨hname, hoffset, htype, hsize, hunit⟩
    refine ⟨name, hname, bind_eq_ok.2 ⟨s.byteOffset, hoffset, ?_⟩⟩
    rw [htype, hsize, hunit]
    rfl

theorem name_write (name : String) (s : Signal) : (s.write name).name = "Signal" := by
  rw [write, Element.name_setOptional, Element.name_setOptional, Element.name_setOptional]
  rfl

theorem read_write (name : String) (s : Signal) : read (s.write name) = .ok (name, s) := by
  have hnone : ∀ key, (⟨{ name := "Signal" }, [], none, none⟩ : Element).attribute? key = none :=
    fun _ => rfl
  simp [read_eq_ok, write, Element.attribute?_set, Element.attribute?_setOptional, hnone]

end Signal

namespace Header

theorem readFlag_of_attribute {e : Element} {key : String} {present : Bool}
    (h : e.attribute? key = some (flagText present)) : readFlag e key = .ok present := by
  rw [readFlag, Element.required_eq_ok.2 h]
  cases present <;> rfl

theorem read_tag (h : Header) : read { toTag := h.tag } = .ok h := by
  have hnames : (h.attributes.map Prod.fst).Nodup := by
    show ["Src_Id", "SN", "QoS_Timestamp", "Data_Timestamp"].Nodup
    decide
  have hattribute : ∀ a ∈ h.attributes, ({ toTag := h.tag } : Element).attribute? a.1 = some a.2 :=
    fun _ ha => (Keyed.get?_ofList_eq_some hnames).2 ha
  simp only [attributes, List.forall_mem_cons] at hattribute
  obtain ⟨hsource, hsequence, hqos, hdata, -⟩ := hattribute
  rw [read, readFlag_of_attribute hsource, readFlag_of_attribute hsequence,
    readFlag_of_attribute hqos, readFlag_of_attribute hdata]
  rfl

end Header

namespace Channel

def signalElements (e : Element) : List Element :=
  (e.childrenNamed "Signals").flatMap (·.childrenNamed "Signal")

theorem readSignals_eq (e : Element) :
    readSignals e = (signalElements e).mapM Signal.read >>= fun ss => pure (.ofList ss) :=
  Keyed.foldlM_insert_read (fun held c => by cases Signal.read c <;> rfl) (signalElements e) .empty

theorem readSignals_eq_ok {e : Element} {m : Keyed String Signal} : readSignals e = .ok m
    ↔ ∃ ss, List.Forall₂ (fun c s => Signal.read c = .ok s) (signalElements e) ss
      ∧ m = .ofList ss := by
  rw [readSignals_eq, bind_eq_ok]
  refine exists_congr fun ss => and_congr mapM_eq_ok ⟨fun h => ?_, fun h => h ▸ rfl⟩
  exact (Except.ok.inj h).symm

theorem readDirection_of_attribute {e : Element} {value : String}
    (h : e.attribute? "Direction" = some value) :
    readDirection e = (Direction.ofText? value).elim
    (.error (.invalidValue e.name "Direction" value)) .ok := by
  rw [readDirection, Element.required_eq_ok.2 h]
  simp only [bind, Except.bind]
  cases Direction.ofText? value <;> rfl

theorem readDirection_eq_ok {e : Element} {d : Direction} :
    readDirection e = .ok d ↔ e.attribute? "Direction" = some d.text := by
  constructor
  · intro h
    obtain ⟨value, hvalue, -⟩ := bind_eq_ok.1 h
    rw [Element.required_eq_ok] at hvalue
    rw [readDirection_of_attribute hvalue] at h
    cases hd : Direction.ofText? value with
    | none =>
      rw [hd] at h
      cases h
    | some d' =>
      rw [hd] at h
      cases h
      rw [hvalue, Direction.ofText?_eq_some.1 hd]
  · intro h
    rw [readDirection_of_attribute h, Direction.ofText?_eq_some.2 rfl]
    rfl

theorem read_eq_ok {e : Element} {c : Channel} : read e = .ok c ↔ e.name = c.type.tag
    ∧ readDirection e = .ok c.direction ∧ readHeader e = .ok c.header
      ∧ readSignals e = .ok c.signals
    ∧ e.attribute? "Name" = some c.name ∧ e.attribute? "FifoSize" = some c.fifoSize
    ∧ e.attribute? "MessageMaxSize" = some c.messageMaxSize ∧ c.endpoint = none := by
  rw [← ChannelType.ofTag_eq_ok, ← Element.required_eq_ok, ← Element.required_eq_ok,
    ← Element.required_eq_ok, read]
  constructor
  · intro h
    obtain ⟨type, htype, h⟩ := bind_eq_ok.1 h
    obtain ⟨direction, hdirection, h⟩ := bind_eq_ok.1 h
    obtain ⟨header, hheader, h⟩ := bind_eq_ok.1 h
    obtain ⟨signals, hsignals, h⟩ := bind_eq_ok.1 h
    obtain ⟨name, hname, h⟩ := bind_eq_ok.1 h
    obtain ⟨fifoSize, hfifo, h⟩ := bind_eq_ok.1 h
    obtain ⟨messageMaxSize, hmax, h⟩ := bind_eq_ok.1 h
    cases h
    exact ⟨htype, hdirection, hheader, hsignals, hname, hfifo, hmax, rfl⟩
  · rintro ⟨htype, hdirection, hheader, hsignals, hname, hfifo, hmax, hendpoint⟩
    rw [htype, hdirection, hheader, hsignals, hname, hfifo, hmax]
    obtain ⟨name, type, direction, fifoSize, messageMaxSize, header, signals, endpoint⟩ := c
    cases hendpoint
    rfl

section Write

variable (c : Channel) (d : Direction)

theorem childrenNamed_header_write :
    (c.write d).childrenNamed "Header" = [{ toTag := c.header.tag }] := by
  rw [Element.childrenNamed, write, writeSignals]
  cases c.endpoint with
  | none => split <;> rfl
  | some e => split <;> rfl

theorem signalElements_write :
    signalElements (c.write d) = c.signals.entries.map fun s => s.2.write s.1 := by
  have hnamed : (c.signals.entries.map fun s => s.2.write s.1).filter (Element.named "Signal")
      = c.signals.entries.map fun s => s.2.write s.1 := by
    refine List.filter_eq_self.2 fun e he => ?_
    obtain ⟨s, -, rfl⟩ := List.mem_map.1 he
    exact decide_eq_true (s.2.name_write s.1)
  have hgroups : (c.write d).childrenNamed "Signals" = c.writeSignals := by
    rw [Element.childrenNamed, write, writeSignals]
    cases c.endpoint with
    | none => split <;> rfl
    | some e => split <;> rfl
  rw [signalElements, hgroups, writeSignals]
  split
  · next h =>
    rw [Keyed.isEmpty_iff.1 h]
    rfl
  · rw [List.flatMap_singleton]
    exact hnamed

theorem read_write : read (c.write d) = .ok { c with direction := d, endpoint := none } := by
  have hnames : ([("Name", c.name), ("Direction", d.text), ("MessageMaxSize", c.messageMaxSize),
      ("FifoSize", c.fifoSize)].map Prod.fst).Nodup := by
    show ["Name", "Direction", "MessageMaxSize", "FifoSize"].Nodup
    decide
  have hattribute : ∀ a ∈ [("Name", c.name), ("Direction", d.text),
      ("MessageMaxSize", c.messageMaxSize),
      ("FifoSize", c.fifoSize)], (c.write d).attribute? a.1 = some a.2 :=
    fun _ ha => (Keyed.get?_ofList_eq_some hnames).2 ha
  simp only [List.forall_mem_cons] at hattribute
  obtain ⟨hname, hdirection, hmax, hfifo, -⟩ := hattribute
  rw [read_eq_ok]
  refine ⟨rfl, readDirection_eq_ok.2 hdirection, ?_, ?_, hname, hfifo, hmax, rfl⟩
  · rw [readHeader, childrenNamed_header_write]
    show Header.read _ >>= pure = _
    rw [Header.read_tag]
    rfl
  · rw [readSignals_eq_ok, signalElements_write]
    refine ⟨c.signals.entries, ?_, (Keyed.ofList_entries _).symm⟩
    rw [List.forall₂_map_left_iff]
    exact List.forall₂_same.2 fun s _ => Signal.read_write s.1 s.2

end Write

/-- Whatever element a channel was read from, it is read again from its own rendering: nothing but
the endpoint is lost in one, and what was read has none. -/
theorem read_rendering :
    (∀ (c : Channel) (d : Direction),
      read (c.write d) = .ok { c with direction := d, endpoint := none })
    ∧ ∀ (e : Element) (c : Channel), read e = .ok c → read (c.write c.direction) = .ok c := by
  refine ⟨read_write, fun e c h => ?_⟩
  obtain ⟨-, -, -, -, -, -, -, hendpoint⟩ := read_eq_ok.1 h
  calc
    read (c.write c.direction) = .ok { c with endpoint := none } := read_write c c.direction
    _ = .ok c := by rw [← hendpoint]

def regroupedElement : Element where
  name := ChannelType.a664.tag
  attributes :=
    .ofList [("FifoSize", "4"), ("Direction", "Out"), ("Name", "C"), ("MessageMaxSize", "64")]
  children := [
    { toTag := ({ sourceId := true } : Header).tag },
    { name := "Signals"
      children := [({ byteOffset := "0", unit := some "ft" } : Signal).write "x",
        ({ byteOffset := "4" } : Signal).write "y"] },
    { toTag := ({ dataTimestamp := true } : Header).tag },
    { name := "Signals"
      children := [({ byteOffset := "8", size := some "2" } : Signal).write "x"] }]

theorem read_rendering_regrouped :
    ∃ c, read regroupedElement = .ok c ∧ c.header = { dataTimestamp := true }
    ∧ c.signals.entries = [("x", { byteOffset := "8", size := some "2" }),
      ("y", { byteOffset := "4" })]
    ∧ (c.write c.direction).children.length = 2 ∧ read (c.write c.direction) = .ok c := by
  obtain ⟨c, hread, hheader, hsignals, hlength⟩ : ∃ c, read regroupedElement = .ok c
      ∧ c.header = { dataTimestamp := true }
      ∧ c.signals.entries = [("x", { byteOffset := "8", size := some "2" }),
        ("y", { byteOffset := "4" })]
      ∧ (c.write c.direction).children.length = 2 := ⟨_, rfl, rfl, rfl, rfl⟩
  exact ⟨c, hread, hheader, hsignals, hlength, read_rendering.2 regroupedElement c hread⟩

end Channel

end Avionics
