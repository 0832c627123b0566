import Avionics.Proofs.Network.Codec
import Avionics.Proofs.Network.Consistency
import Avionics.Proofs.Network.Reading

/-! What a run without errors says of the elements that it has read.  Elements that declare
one channel agree with each other, but an element that gives a signal twice does not have to
agree with itself: its last signal of a name counts, and nothing is said about the others. -/

namespace Avionics

open Channel (signalElements)
open Markup (Element)

def SameSignal (s t : Element) : Prop :=
  ∀ key ∈ ["ByteOffset", "Type", "Size", "Unit"], s.attribute? key = t.attribute? key

def SameSignals (c d : Element) : Prop :=
  ∀ s ∈ signalElements c, ∀ t ∈ signalElements d, s.attribute? "Name" = t.attribute? "Name" →
    SameSignal s t

def SameLink (c d : Element) : Prop :=
  c.name = d.name ∧ ∀ key ∈ ["FifoSize", "MessageMaxSize"], c.attribute? key = d.attribute? key

def signalsNamed (c : Element) (name : String) : List Element :=
  (signalElements c).filter fun s => s.attribute? "Name" = some name

theorem SameSignal.symm {s t : Element} (h : SameSignal s t) : SameSignal t s :=
  fun key hkey => (h key hkey).symm

theorem SameSignal.trans {s t u : Element} (h : SameSignal s t) (h' : SameSignal t u) :
    SameSignal s u :=
  fun key hkey => (h key hkey).trans (h' key hkey)

namespace Document

def Accepted (root : Element) (d : Document) : Prop := ∃ a b, (read root).run.run a = (.ok d, b)

def channelElements (root : Element) : List Element :=
  (root.childrenNamed componentTag).flatMap (·.children)

end Document

open Document (Accepted channelElements)

theorem sameSignal_of_read {s t : Element} {name name' : String} {v : Signal}
    (hs : Signal.read s = .ok (name, v))
    (ht : Signal.read t = .ok (name', v)) : SameSignal s t := by
  obtain ⟨-, hsoffset, hstype, hssize, hsunit⟩ := Signal.read_eq_ok.1 hs
  obtain ⟨-, htoffset, httype, htsize, htunit⟩ := Signal.read_eq_ok.1 ht
  simp only [SameSignal, List.forall_mem_cons]
  exact ⟨hsoffset.trans htoffset.symm, hstype.trans httype.symm, hssize.trans htsize.symm,
    hsunit.trans htunit.symm,
    fun _ h => (List.not_mem_nil h).elim⟩

theorem forall₂_signalsNamed {e : Element} {ss : List (String × Signal)}
    (h : List.Forall₂ (fun c s => Signal.read c = .ok s) (signalElements e) ss) (name : String) :
    List.Forall₂ (fun c v => Signal.read c = .ok (name, v)) (signalsNamed e name)
    (Keyed.valuesOf name ss) := by
  rw [signalsNamed]
  generalize signalElements e = cs at h
  induction h with
  | nil => exact .nil
  | @cons c s cs ss hc _ ih =>
    obtain ⟨n, v⟩ := s
    have hname := (Signal.read_eq_ok.1 hc).1
    rw [Keyed.valuesOf_cons]
    by_cases hn : n = name
    · subst hn
      rw [if_pos rfl, List.filter_cons_of_pos (by simpa using hname)]
      exact .cons hc ih
    · rw [if_neg hn, List.filter_cons_of_neg (by simpa [hname] using hn)]
      exact ih

theorem getLast?_signalsNamed {e : Element} {m : Keyed String Signal}
    (h : Channel.readSignals e = .ok m) (name : String) :
    Option.Rel (fun s v => Signal.read s = .ok (name, v)) (signalsNamed e name).getLast?
    (m.get? name) := by
  obtain ⟨ss, hss, rfl⟩ := Channel.readSignals_eq_ok.1 h
  rw [Keyed.get?_ofList]
  exact getLast?_of_forall₂ (forall₂_signalsNamed hss name)

section Agreement

variable {c d : Element} {x y : Channel}

theorem sameLink_of_compatible (hc : Channel.read c = .ok x) (hd : Channel.read d = .ok y)
    (h : x.compatible y = true) : SameLink c d := by
  obtain ⟨htype, hfifo, hmax, -⟩ := Channel.compatible_iff.1 h
  obtain ⟨hctype, -, -, -, -, hcfifo, hcmax, -⟩ := Channel.read_eq_ok.1 hc
  obtain ⟨hdtype, -, -, -, -, hdfifo, hdmax, -⟩ := Channel.read_eq_ok.1 hd
  refine ⟨by rw [hctype, hdtype, htype], ?_⟩
  simp only [List.forall_mem_cons]
  exact ⟨by rw [hcfifo, hdfifo, hfifo], by
    rw [hcmax, hdmax, hmax], fun _ h => (List.not_mem_nil h).elim⟩

theorem lastSignals_of_compatible (hc : Channel.read c = .ok x) (hd : Channel.read d = .ok y)
    (h : x.compatible y = true) (name : String) :
    Option.Rel SameSignal (signalsNamed c name).getLast? (signalsNamed d name).getLast? := by
  have hsignals := (Channel.compatible_iff.1 h).2.2.2 name
  have hcsignals := getLast?_signalsNamed (Channel.read_eq_ok.1 hc).2.2.2.1 name
  have hdsignals := getLast?_signalsNamed (Channel.read_eq_ok.1 hd).2.2.2.1 name
  rw [hsignals] at hcsignals
  generalize (signalsNamed c name).getLast? = s at hcsignals
  generalize (signalsNamed d name).getLast? = t at hdsignals
  generalize y.signals.get? name = v at hcsignals hdsignals
  cases hcsignals with
  | none =>
    cases hdsignals
    exact .none
  | some hs =>
    cases hdsignals with
    | some ht => exact .some (sameSignal_of_read hs ht)

theorem sameSignals_of_last (hc : SameSignals c c) (hd : SameSignals d d)
    (hlast : ∀ name, Option.Rel SameSignal (signalsNamed c name).getLast?
      (signalsNamed d name).getLast?)
    (hnames : ∀ s ∈ signalElements c, ∃ name, s.attribute? "Name" = some name) :
    SameSignals c d := by
  intro s hs t ht hname
  obtain ⟨name, hsname⟩ := hnames s hs
  have htname := hname.symm.trans hsname
  have hmem : ∀ {e u v : Element}, SameSignals e e → u ∈ signalElements e →
      u.attribute? "Name" = some name →
      (signalsNamed e name).getLast? = some v → SameSignal u v := by
    intro e u v he hu huname hv
    obtain ⟨hvmem, hvname⟩ := List.mem_filter.1 (List.mem_of_getLast? hv)
    exact he u hu v hvmem (huname.trans (of_decide_eq_true hvname).symm)
  have hrel := hlast name
  cases hsl : (signalsNamed c name).getLast? with
  | none =>
    rw [List.getLast?_eq_none_iff] at hsl
    exact absurd (List.mem_filter.2 ⟨hs, decide_eq_true hsname⟩)
      (by rw [← signalsNamed, hsl]; exact List.not_mem_nil)
  | some s' =>
    rw [hsl] at hrel
    cases htl : (signalsNamed d name).getLast? with
    | none =>
      rw [htl] at hrel
      cases hrel
    | some t' =>
      rw [htl] at hrel
      cases hrel with
      | some hst => exact ((hmem hc hs hsname hsl).trans hst).trans (hmem hd ht htname htl).symm

end Agreement

structure Agreement (cs : List Element) : Prop where
  link : ∀ c ∈ cs, ∀ d ∈ cs, c.attribute? "Name" = d.attribute? "Name" → SameLink c d
  last : ∀ c ∈ cs, ∀ d ∈ cs, c.attribute? "Name" = d.attribute? "Name" →
    ∀ name, Option.Rel SameSignal (signalsNamed c name).getLast? (signalsNamed d name).getLast?
  all : ∀ c ∈ cs, ∀ d ∈ cs, c.attribute? "Name" = d.attribute? "Name" → SameSignals c c →
    SameSignals d d → SameSignals c d

namespace Network

section Declared

variable {roots : List Element} {docs : List Document}

theorem exists_declared (h : List.Forall₂ Accepted roots docs) :
    ∀ c ∈ roots.flatMap channelElements,
    ∃ read endpoint, Channel.read c = .ok read ∧ { read with endpoint := some endpoint }
      ∈ declarations docs := by
  intro c hc
  obtain ⟨root, hroot, hc⟩ := List.mem_flatMap.1 hc
  obtain ⟨e, he, hc⟩ := List.mem_flatMap.1 hc
  obtain ⟨d, hd, _, _, hrun⟩ := exists_left_of_forall₂ h.flip root hroot
  obtain ⟨component, hcomponent, -, hchannels⟩ :=
    exists_left_of_forall₂ (Document.reads_of_run hrun).2.flip e he
  obtain ⟨channel, hchannel, read, endpoint, hread, rfl⟩ :=
    exists_left_of_forall₂ hchannels.flip c hc
  exact ⟨read, endpoint, hread,
    List.mem_flatMap.2 ⟨d, hd, List.mem_flatMap.2 ⟨component, hcomponent, hchannel⟩⟩⟩

theorem compatible_of_clean (h : List.Forall₂ Accepted roots docs)
    (hclean : (docs.foldlM merge {}).findings.errors = 0)
    {c d : Element} (hc : c ∈ roots.flatMap channelElements)
    (hd : d ∈ roots.flatMap channelElements) (hname : c.attribute? "Name" = d.attribute? "Name") :
    ∃ x y, Channel.read c = .ok x ∧ Channel.read d = .ok y ∧ x.compatible y = true := by
  obtain ⟨x, e, hx, hxmem⟩ := exists_declared h c hc
  obtain ⟨y, f, hy, hymem⟩ := exists_declared h d hd
  have hconsistent := ((reaches_merge docs).clean_iff.1 (Noted.clean_iff.2 hclean)).2
  rw [filterMap_channel?_events] at hconsistent
  have hxname := (Channel.read_eq_ok.1 hx).2.2.2.2.1
  have hyname := (Channel.read_eq_ok.1 hy).2.2.2.2.1
  have hnames : x.name = y.name := Option.some.inj (hxname.symm.trans (hname.trans hyname))
  have hxy := hconsistent _ hxmem _ hymem hnames
  exact ⟨x, y, hx, hy, hxy⟩

theorem exists_name {c : Element} {x : Channel} (hc : Channel.read c = .ok x) :
    ∀ s ∈ signalElements c, ∃ name, s.attribute? "Name" = some name := by
  intro s hs
  obtain ⟨ss, hss, -⟩ := Channel.readSignals_eq_ok.1 (Channel.read_eq_ok.1 hc).2.2.2.1
  obtain ⟨v, -, hv⟩ := exists_left_of_forall₂ hss.flip s hs
  exact ⟨v.1, (Signal.read_eq_ok.1 hv).1⟩

end Declared

/-- Without errors, all that can be left of a disagreement is inside of a single declaration. -/
theorem agreement_of_clean {roots : List Element} {docs : List Document}
    (h : List.Forall₂ Accepted roots docs) (hclean : (docs.foldlM merge {}).findings.errors = 0) :
    Agreement (roots.flatMap channelElements) where
  link c hc d hd hname := by
    obtain ⟨x, y, hx, hy, hxy⟩ := compatible_of_clean h hclean hc hd hname
    exact sameLink_of_compatible hx hy hxy
  last c hc d hd hname := by
    obtain ⟨x, y, hx, hy, hxy⟩ := compatible_of_clean h hclean hc hd hname
    exact lastSignals_of_compatible hx hy hxy
  all c hc d hd hname hcself hdself := by
    obtain ⟨x, y, hx, hy, hxy⟩ := compatible_of_clean h hclean hc hd hname
    exact sameSignals_of_last hcself hdself (lastSignals_of_compatible hx hy hxy) (exists_name hx)

def offsetsRoot (component : String) (offsets : List String) : Element where
  name := Document.rootName
  children := [{
    name := Document.componentTag, attributes := .ofList [("Name", component)]
    children := [{
      name := ChannelType.a429.tag
      attributes :=
        .ofList [("Name", "C"), ("Direction", "Out"), ("FifoSize", "1"), ("MessageMaxSize", "8")]
      children := [{
        name := "Signals"
        children := offsets.map fun offset => {
          name := "Signal", attributes := .ofList [("Name", "s"), ("ByteOffset", offset)] } }] }] }]

theorem agreement_of_clean_offsets :
    ∃ docs, List.Forall₂ Accepted [offsetsRoot "V" ["4"], offsetsRoot "W" ["0", "4"]] docs
    ∧ (docs.foldlM merge {}).findings.errors = 0
    ∧ Agreement ([offsetsRoot "V" ["4"], offsetsRoot "W" ["0", "4"]].flatMap channelElements) := by
  obtain ⟨v, w, hv, hw, hclean⟩ : ∃ v w, Accepted (offsetsRoot "V" ["4"]) v
      ∧ Accepted (offsetsRoot "W" ["0", "4"]) w
      ∧ ([v, w].foldlM merge {}).findings.errors = 0 :=
        ⟨_, _, ⟨.standard, _, rfl⟩, ⟨.standard, _, rfl⟩, rfl⟩
  have hdocs : List.Forall₂ Accepted [offsetsRoot "V" ["4"], offsetsRoot "W" ["0", "4"]] [v, w] :=
    .cons hv (.cons hw .nil)
  exact ⟨[v, w], hdocs, hclean, agreement_of_clean hdocs hclean⟩

/-- Nothing is said about a declaration that gives one signal two offsets. -/
theorem not_sameSignals_of_clean : ¬ ∀ roots docs, List.Forall₂ Accepted roots docs →
    (docs.foldlM merge {}).findings.errors = 0 → ∀ c ∈ roots.flatMap channelElements,
      ∀ d ∈ roots.flatMap channelElements,
      c.attribute? "Name" = d.attribute? "Name" → SameLink c d ∧ SameSignals c d := by
  intro h
  obtain ⟨d, hd, hclean⟩ : ∃ d, Accepted (offsetsRoot "V" ["0", "4"]) d
      ∧ ([d].foldlM merge {}).findings.errors = 0 :=
    ⟨_, ⟨.standard, _, rfl⟩, rfl⟩
  have hsame := h [offsetsRoot "V" ["0", "4"]] [d] (.cons hd .nil) hclean _ List.mem_cons_self
      _ List.mem_cons_self rfl
  have hsignal := hsame.2 _ List.mem_cons_self _ (List.mem_cons_of_mem _ List.mem_cons_self) rfl
  have hoffsets : some "0" = some "4" := hsignal "ByteOffset" List.mem_cons_self
  exact absurd hoffsets (by decide)

end Network

end Avionics
