import Avionics.Proofs.Markup.Retagging
import Avionics.Proofs.Network.Intake

namespace Avionics

open Markup (Tag Element)

namespace Endpoint

def addressKeys : List String := ["DstIP", "DstPort"]

def unaddressed (socket : Element) : Element :=
  { socket with attributes := socket.attributes.without addressKeys }

variable (e : Endpoint) (socket : Element)

theorem name_stamp : (e.stamp socket).name = socket.name := rfl

theorem attribute?_stamp (key : String) : (e.stamp socket).attribute? key
    = if key = "DstPort" then some (toString e.port.toNat) else if key = "DstIP" then some e.ip.text
      else socket.attribute? key := by
  show ((socket.attributes.insert _ _).insert _ _).get? key = _
  rw [Keyed.get?_insert, Keyed.get?_insert]
  rfl

theorem unaddressed_stamp : unaddressed (e.stamp socket) = unaddressed socket := by
  have hattributes : (e.stamp socket).attributes.without addressKeys
      = socket.attributes.without addressKeys := by
    show ((socket.attributes.insert _ _).insert _ _).without _ = _
    rw [Keyed.without_insert _ (by decide), Keyed.without_insert _ (by decide)]
  rw [unaddressed, unaddressed, hattributes]
  rfl

theorem stamp_stamp : e.stamp (e.stamp socket) = e.stamp socket := by
  have hip := e.attribute?_stamp socket "DstIP"
  have hport := e.attribute?_stamp socket "DstPort"
  have htag : e.stampTag (e.stamp socket).toTag = (e.stamp socket).toTag := by
    show Tag.mk _ (((e.stamp socket).attributes.insert _ _).insert _ _) = _
    rw [Keyed.insert_of_get? hip, Keyed.insert_of_get? hport]
    rfl
  show { e.stamp socket with toTag := e.stampTag (e.stamp socket).toTag } = e.stamp socket
  rw [htag]
  rfl

end Endpoint

namespace Document

def unaddressedChannel (e : Element) : Element := e.mapNamed Endpoint.socketTag Endpoint.unaddressed

def unaddressedComponent (e : Element) : Element :=
  { e with children := e.children.map unaddressedChannel }

def unaddressed (root : Element) : Element := root.mapNamed componentTag unaddressedComponent

/-- Every socket of the element, however many there are, leads to the endpoint of the channel. -/
def AddressedChannel (e : Element) (c : Channel) : Prop :=
  ∃ endpoint, c.endpoint = some endpoint ∧ ∀ socket ∈ e.childrenNamed Endpoint.socketTag,
    socket.attribute? "DstIP" = some endpoint.ip.text
      ∧ socket.attribute? "DstPort" = some (toString endpoint.port.toNat)

def AddressedComponent (e : Element) (c : Component) : Prop :=
  List.Forall₂ AddressedChannel e.children c.channels

def Addressed (root : Element) (d : Document) : Prop :=
  List.Forall₂ AddressedComponent (root.childrenNamed componentTag) d.components

section Channels

variable (e : Element) (c : Channel)

theorem toTag_stampChannel : (stampChannel e c).toTag = e.toTag := by
  rw [stampChannel]
  split <;> rfl

theorem childrenNamed_stampChannel {tag : String} (h : tag ≠ Endpoint.socketTag) :
    (stampChannel e c).childrenNamed tag = e.childrenNamed tag := by
  rw [stampChannel]
  split
  · next endpoint _ => exact Element.childrenNamed_mapNamed_ne endpoint.name_stamp h
  · rfl

theorem channelRead_stampChannel : Channel.read (stampChannel e c) = Channel.read e := by
  have htag := toTag_stampChannel e c
  have hattribute (key : String) : (stampChannel e c).attribute? key = e.attribute? key := by
    rw [Tag.attribute?, Tag.attribute?, htag]
  have hrequired (key : String) : (stampChannel e c).required key = e.required key := by
    rw [Element.required, Element.required, hattribute, htag]
  simp only [Channel.read, Channel.readDirection, Channel.readHeader, Channel.readSignals,
    hrequired, htag,
    childrenNamed_stampChannel e c (show "Header" ≠ _ by decide),
      childrenNamed_stampChannel e c (show "Signals" ≠ _ by decide)]

theorem readChannel_stampChannel : readChannel (stampChannel e c) = readChannel e := by
  rw [readChannel, readChannel, channelRead_stampChannel]

theorem unaddressedChannel_stampChannel :
    unaddressedChannel (stampChannel e c) = unaddressedChannel e := by
  rw [stampChannel]
  split
  · next endpoint _ =>
    rw [unaddressedChannel, unaddressedChannel, Element.mapNamed_mapNamed endpoint.name_stamp]
    congr 1
    funext socket
    exact endpoint.unaddressed_stamp socket
  · rfl

theorem stampChannel_stampChannel : stampChannel (stampChannel e c) c = stampChannel e c := by
  cases h : c.endpoint with
  | none => simp [stampChannel, h]
  | some endpoint =>
    simp only [stampChannel, h]
    rw [Element.mapNamed_mapNamed endpoint.name_stamp]
    congr 1
    funext socket
    exact endpoint.stamp_stamp socket

variable {c} in
theorem addressedChannel_stampChannel {endpoint : Endpoint} (h : c.endpoint = some endpoint) :
    AddressedChannel (stampChannel e c) c := by
  refine ⟨endpoint, h, fun socket hsocket => ?_⟩
  rw [stampChannel, h] at hsocket
  simp only at hsocket
  rw [Element.childrenNamed_mapNamed endpoint.name_stamp] at hsocket
  obtain ⟨socket, -, rfl⟩ := List.mem_map.1 hsocket
  exact ⟨endpoint.attribute?_stamp socket "DstIP", endpoint.attribute?_stamp socket "DstPort"⟩

end Channels

section Components

theorem stampComponents_nil (es : List Element) : stampComponents es [] = es := by cases es <;> rfl

theorem stampComponents_cons_ne {e : Element} (h : e.name ≠ componentTag) (es : List Element)
    (cs : List Component) : stampComponents (e :: es) cs = e :: stampComponents es cs := by
  cases cs with
  | nil => rw [stampComponents_nil, stampComponents_nil]
  | cons c cs => rw [stampComponents, if_neg h]

def stampComponent (e : Element) (c : Component) : Element :=
  { e with children := stampChannels e.children c.channels }

theorem stampComponents_cons {e : Element} (h : e.name = componentTag) (es : List Element)
    (c : Component) (cs : List Component) :
    stampComponents (e :: es) (c :: cs) = stampComponent e c :: stampComponents es cs := by
  rw [stampComponents, if_pos h]
  rfl

theorem map_stampChannels {β : Type} {f : Element → β} (hf : ∀ e c, f (stampChannel e c) = f e)
    (es : List Element) (cs : List Channel) : (stampChannels es cs).map f = es.map f := by
  induction es generalizing cs with
  | nil => cases cs <;> rfl
  | cons e es ih =>
    cases cs with
    | nil => rfl
    | cons c cs => rw [stampChannels, List.map_cons, hf, ih, List.map_cons]

theorem map_stampComponents {β : Type} {f : Element → β}
    (hf : ∀ e c, e.name = componentTag → f (stampComponent e c) = f e) (es : List Element)
    (cs : List Component) : (stampComponents es cs).map f = es.map f := by
  induction es generalizing cs with
  | nil => cases cs <;> rfl
  | cons e es ih =>
    by_cases he : e.name = componentTag
    · cases cs with
      | nil => rfl
      | cons c cs => rw [stampComponents_cons he, List.map_cons, hf e c he, ih, List.map_cons]
    · rw [stampComponents_cons_ne he, List.map_cons, ih, List.map_cons]

theorem readComponent_stampComponent (e : Element) (c : Component) :
    readComponent (stampComponent e c) = readComponent e := by
  have hname : (stampComponent e c).required "Name" = e.required "Name" := rfl
  have hchannels : (stampComponent e c).children.mapM readChannel = e.children.mapM readChannel :=
    mapM_eq_of_map_eq (map_stampChannels readChannel_stampChannel e.children c.channels)
  rw [readComponent, readComponent, hname, hchannels]

theorem unaddressedComponent_stampComponent (e : Element) (c : Component) :
    unaddressedComponent (stampComponent e c) = unaddressedComponent e := by
  show { e with children := (stampChannels e.children c.channels).map _ } = _
  rw [map_stampChannels unaddressedChannel_stampChannel]
  rfl

theorem stampChannels_stampChannels (es : List Element) (cs : List Channel) :
    stampChannels (stampChannels es cs) cs = stampChannels es cs := by
  induction es generalizing cs with
  | nil => cases cs <;> rfl
  | cons e es ih =>
    cases cs with
    | nil => rfl
    | cons c cs => rw [stampChannels, stampChannels, stampChannel_stampChannel, ih]

theorem stampComponents_stampComponents (es : List Element) (cs : List Component) :
    stampComponents (stampComponents es cs) cs = stampComponents es cs := by
  induction es generalizing cs with
  | nil => cases cs <;> rfl
  | cons e es ih =>
    by_cases he : e.name = componentTag
    · cases cs with
      | nil => rfl
      | cons c cs =>
        have hstamped : stampComponent (stampComponent e c) c = stampComponent e c := by
          simp only [stampComponent, stampChannels_stampChannels]
        have he' : (stampComponent e c).name = componentTag := he
        rw [stampComponents_cons he, stampComponents_cons he', ih, hstamped]
    · rw [stampComponents_cons_ne he, stampComponents_cons_ne he, ih]

end Components

section Stamp

variable (d : Document) (root : Element)

theorem stamp_stamp : d.stamp (d.stamp root) = d.stamp root := by
  show { root with children := stampComponents (stampComponents root.children
      d.components) d.components } = _
  rw [stampComponents_stampComponents]
  rfl

theorem unaddressed_stamp : unaddressed (d.stamp root) = unaddressed root := by
  have hchildren := map_stampComponents (β := Element)
    (f := fun e => if Element.named componentTag e then unaddressedComponent e else e)
      (fun e c he => ?_) root.children
    d.components
  · show { root with children := (stampComponents root.children d.components).map _ } = _
    rw [hchildren]
    rfl
  · have hnamed : Element.named componentTag e = true := decide_eq_true he
    have hstamped : Element.named componentTag (stampComponent e c) = true := hnamed
    simp only [hnamed, hstamped, if_true, unaddressedComponent_stampComponent]

theorem read_stamp : read (d.stamp root) = read root := by
  have hmap := map_stampComponents (f := fun e => (Element.named componentTag e, readComponent e))
    (fun e c _ => Prod.ext rfl (readComponent_stampComponent e c)) root.children d.components
  have hnamed : ((d.stamp root).childrenNamed componentTag).map readComponent
      = (root.childrenNamed componentTag).map readComponent := by
    have hpairs := congrArg (fun l => (l.filter Prod.fst).map Prod.snd) hmap
    simp only [List.filter_map, List.map_map, Function.comp_def] at hpairs
    exact hpairs
  rw [read, read, mapM_eq_of_map_eq hnamed]
  rfl

end Stamp

section Addressed

theorem addressed_stampChannels {es : List Element} {cs : List Channel}
    (h : List.Forall₂ ReadsChannel es cs) :
    List.Forall₂ AddressedChannel (stampChannels es cs) cs := by
  induction h with
  | nil => exact .nil
  | @cons e c es cs hread _ ih =>
    obtain ⟨_, endpoint, -, rfl⟩ := hread
    exact .cons (addressedChannel_stampChannel e rfl) ih

/-- The filter passes over the same children as the stamping. -/
theorem addressed_stampComponents {es : List Element} {cs : List Component}
    (h : List.Forall₂ ReadsComponent (es.filter (Element.named componentTag)) cs) :
    List.Forall₂ AddressedComponent
    ((stampComponents es cs).filter (Element.named componentTag)) cs := by
  induction es generalizing cs with
  | nil =>
    cases h
    exact .nil
  | cons e es ih =>
    by_cases he : e.name = componentTag
    · have hnamed : Element.named componentTag e = true := decide_eq_true he
      rw [List.filter_cons_of_pos hnamed] at h
      cases h with
      | @cons _ c _ cs hread hrest =>
        have hstamped : Element.named componentTag (stampComponent e c) = true := hnamed
        rw [stampComponents_cons he, List.filter_cons_of_pos hstamped]
        exact .cons (addressed_stampChannels hread.2) (ih hrest)
    · have hnamed : ¬Element.named componentTag e = true := by simpa [Element.named] using he
      rw [List.filter_cons_of_neg hnamed] at h
      rw [stampComponents_cons_ne he, List.filter_cons_of_neg hnamed]
      exact ih h

theorem Reads.addressed {root : Element} {d : Document} (h : Reads root d) :
    Addressed (d.stamp root) d :=
  addressed_stampComponents h.2

end Addressed

structure Stamped (a : Allocator) (root : Element) (d : Document) (b : Allocator) : Prop where
  addressed : Addressed (d.stamp root) d
  unaddressed : unaddressed (d.stamp root) = unaddressed root
  again : d.stamp (d.stamp root) = d.stamp root
  reread : (read (d.stamp root)).run.run a = (.ok d, b)

theorem stamped_of_run {root : Element} {d : Document} {a b : Allocator}
    (h : (read root).run.run a = (.ok d, b)) : Stamped a root d b where
  addressed := (reads_of_run h).addressed
  unaddressed := d.unaddressed_stamp root
  again := d.stamp_stamp root
  reread := by rw [d.read_stamp root, h]

end Document

namespace Intake

theorem foldl_answer_of_mapM {roots : List Element} {docs : List Document} {b : Allocator}
    {x : Intake} (h : (roots.mapM Document.read).run.run x.cursors = (.ok docs, b)) :
    ((roots.map Item.document).foldl answer x).documents = x.documents ++ docs := by
  induction roots generalizing x docs with
  | nil =>
    cases h
    exact (List.append_nil _).symm
  | cons root roots ih =>
    rw [Allocating.mapM_cons, Stateful.bind_eq_ok] at h
    obtain ⟨d, c, hroot, h⟩ := h
    obtain ⟨rest, _, hrest, hdocs⟩ := Stateful.bind_eq_ok.1 h
    cases hdocs
    obtain ⟨hanswer, -⟩ := answer_of_ok hroot
    rw [List.map_cons, List.foldl_cons, hanswer, ih hrest, List.append_assoc]
    rfl

theorem endpoint_eq_iff {docs : List Document}
    (hnodup : ((Network.declarations docs).map (·.endpoint)).Nodup)
    {earlier later : List Channel} {c : Channel}
    (hsplit : Network.declarations docs = earlier ++ c :: later) :
    ∃ stored, (docs.foldlM Network.merge {}).value.channels.get? c.name = some stored
      ∧ (stored.endpoint = c.endpoint ↔ ∀ d ∈ earlier, d.name ≠ c.name) := by
  have hfilter : (Network.declarations docs).filter (fun d => d.name = c.name)
      = earlier.filter (fun d => d.name = c.name) ++ c :: later.filter fun d =>
        d.name = c.name := by
    rw [hsplit, List.filter_append, List.filter_cons_of_pos (by simp)]
  rw [← Network.filterMap_channel?_events] at hfilter
  have hrun := Network.reaches_merge docs
  cases hearlier : earlier.filter fun d => d.name = c.name with
  | nil =>
    rw [hearlier, List.nil_append] at hfilter
    refine ⟨_, hrun.get?_eq_settled hfilter, iff_of_true rfl fun d hd hname => ?_⟩
    exact List.filter_eq_nil_iff.1 hearlier d hd (decide_eq_true hname)
  | cons first rest =>
    rw [hearlier, List.cons_append] at hfilter
    obtain ⟨hfirst, hname⟩ := Network.mem_of_filter_named hearlier first List.mem_cons_self
    refine ⟨_, hrun.get?_eq_settled hfilter, iff_of_false (fun heq => ?_) fun h =>
      h first hfirst hname⟩
    rw [hsplit, List.map_append, List.nodup_append] at hnodup
    exact hnodup.2.2 _ (List.mem_map_of_mem hfirst) _ (List.mem_map_of_mem List.mem_cons_self) heq

end Intake

namespace Document

/-- A stamped tree has the endpoints of its document.  Over a run these are the endpoints of
the merged network as far as they belong to first declarations. -/
theorem stamp_agrees :
    (∀ (a : Allocator) (root : Element) (d : Document) (b : Allocator),
      (read root).run.run a = (.ok d, b) →
      Stamped a root d b)
    ∧ ∀ (a : Allocator) (roots : List Element) (docs : List Document) (b : Allocator),
      (roots.mapM read).run.run a = (.ok docs, b) →
        List.Forall₂ (fun root d => Addressed (d.stamp root) d) roots docs
        ∧ (Intake.Apart a (Network.declarations docs) → ∀ earlier c later,
          Network.declarations docs = earlier ++ c :: later →
            ∃ stored, (docs.foldlM Network.merge {}).value.channels.get? c.name = some stored
              ∧ (stored.endpoint = c.endpoint ↔ ∀ d ∈ earlier, d.name ≠ c.name)) := by
  refine ⟨fun a root d b h => stamped_of_run h, fun a roots docs b h =>
    ⟨?_, fun hapart earlier c later hsplit => ?_⟩⟩
  · refine (Allocating.forall₂_of_mapM h).imp ?_
    rintro root d ⟨a, b, hroot⟩
    exact (reads_of_run hroot).addressed
  · have hsound := Intake.sound_ofItems a (roots.map .document)
    have hdocs : (Intake.ofItems a (roots.map .document)).documents = docs :=
      Intake.foldl_answer_of_mapM (x := { cursors := a }) h
    have hnodup := hsound.nodup_endpoints
    rw [hdocs] at hnodup
    exact Intake.endpoint_eq_iff (hnodup hapart) hsplit

def socketsRoot (component : String) : Element where
  name := rootName
  children := [{ name := "Comment" }, {
    name := componentTag, attributes := .ofList [("Name", component)]
    children := [{
      name := ChannelType.a429.tag
      attributes :=
        .ofList [("Name", "C"), ("Direction", "Out"), ("FifoSize", "1"), ("MessageMaxSize", "8")]
      children := [
        { name := Endpoint.socketTag, attributes := .ofList [("DstPort", "0"), ("Ttl", "1")] },
        { name := Endpoint.socketTag }] }] }]

theorem stamp_agrees_sockets : ∃ docs b c d stored,
    ([socketsRoot "V", socketsRoot "W"].mapM read).run.run .standard = (.ok docs, b)
    ∧ List.Forall₂ (fun root d => Addressed (d.stamp root) d)
    [socketsRoot "V", socketsRoot "W"] docs
    ∧ Network.declarations docs = [c, d]
    ∧ (docs.foldlM Network.merge {}).value.channels.get? "C" = some stored
    ∧ stored.endpoint = c.endpoint ∧ stored.endpoint ≠ d.endpoint
    ∧ ∃ first a, Stamped .standard (socketsRoot "V") first a := by
  have hnames : ([socketsRoot "V", socketsRoot "W"].mapM read |>.run.run .standard).1.toOption.map
      (fun docs => (Network.declarations docs).map (·.name)) = some ["C", "C"] := by
    decide +kernel
  have hfirst : ((read (socketsRoot "V")).run.run .standard).1.toOption.isSome := by decide +kernel
  rcases hrun : ([socketsRoot "V", socketsRoot "W"].mapM read).run.run .standard with ⟨_ | docs, b⟩
  · rw [hrun] at hnames
    cases hnames
  rcases hread : (read (socketsRoot "V")).run.run .standard with ⟨_ | first, a⟩
  · rw [hread] at hfirst
    cases hfirst
  rw [hrun] at hnames
  obtain ⟨c, d, hdeclared, hc, hd⟩ : ∃ c d, Network.declarations docs = [c, d] ∧ c.name = "C"
      ∧ d.name = "C" := by
    simpa [List.map_eq_cons_iff, Except.toOption] using hnames
  obtain ⟨hstamped, hmerged⟩ := stamp_agrees
  obtain ⟨haddressed, hendpoints⟩ := hmerged .standard _ docs b hrun
  obtain ⟨stored, hstored, hkept⟩ := hendpoints (Intake.apart_standard _) [] c [d] hdeclared
  obtain ⟨again, hagain, hlost⟩ := hendpoints (Intake.apart_standard _) [c] d [] hdeclared
  rw [hc] at hstored
  rw [hd] at hagain
  cases hstored.symm.trans hagain
  refine ⟨docs, b, c, d, stored, rfl, haddressed, hdeclared, hstored, ?_, fun heq => ?_, first, a,
    hstamped .standard _ first a hread⟩
  · exact hkept.2 fun d hd => nomatch hd
  · exact hlost.1 heq c List.mem_cons_self (hc.trans hd.symm)

end Document

end Avionics
