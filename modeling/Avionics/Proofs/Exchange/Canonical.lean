import Avionics.Proofs.Exchange.Grammar
import Avionics.Proofs.Exchange.RoundTrip

namespace Avionics.Exchange

open Markup (Element)

def Distinct (key : String) (es : List Element) : Prop :=
  ∃ values : List String, es.map (·.attribute? key) = values.map some ∧ values.Nodup

namespace Family

def all : List Family := [.afdx, .a429, .can, .discrete, .analogue, .nad]

def kinds : Family → List RecordKind
  | .afdx => [.afdxSampling, .afdxQueuing]
  | .a429 => [.a429Sampling, .a429Queuing]
  | .can => [.canSampling]
  | .discrete => [.discreteSignal]
  | .analogue => [.analogueSignal]
  | .nad => [.nadMessage]

variable (f : Family)

structure CanonicalRecords (b : Element) : Prop where
  order : b.children = f.kinds.flatMap fun kind => b.childrenNamed kind.tag
  keys : ∀ kind ∈ f.kinds, Distinct kind.keyName (b.childrenNamed kind.tag)

structure CanonicalBucket (d : Element) : Prop where
  nonempty : d.children ≠ []
  buses : f.bused = true → d.children = d.childrenNamed "Bus"
    ∧ Distinct "Name" (d.childrenNamed "Bus")
  records : ∀ b ∈ f.holders d, f.CanonicalRecords b

structure Canonical (e : Element) : Prop where
  nonempty : e.children ≠ []
  order : (e.children.map (·.name)).Sublist ["ProducedData", "ConsumedData"]
  buckets : ∀ d ∈ e.children, f.CanonicalBucket d

end Family

structure CanonicalExchange (x : Element) : Prop where
  order : (x.children.map (·.name)).Sublist (Family.all.map Family.tag)
  families : ∀ f : Family, ∀ e ∈ x.childrenNamed f.tag, f.Canonical e

/-- An exchange, if there is one, and behind it parts that are told apart by their names. -/
structure CanonicalOwner (parts : List String) (o : Element) : Prop where
  order : o.children = o.childrenNamed "DataExchange" ++ parts.flatMap o.childrenNamed
  single : (o.childrenNamed "DataExchange").length ≤ 1
  exchanges : ∀ x ∈ o.childrenNamed "DataExchange", CanonicalExchange x
  names : ∀ tag ∈ parts, Distinct "Name" (o.childrenNamed tag)

structure Platform.Canonical (root : Element) : Prop where
  platform : CanonicalOwner ["Equipment"] root
  equipments : ∀ e ∈ root.childrenNamed "Equipment", CanonicalOwner ["Application"] e
  applications : ∀ e ∈ root.childrenNamed "Equipment", ∀ a ∈ e.childrenNamed "Application",
    CanonicalOwner [] a

namespace Schema

theorem mem_writePart {tag : String} {absent : Bool} {children : List Element} {x : Element} :
    x ∈ writePart tag absent children ↔ absent = false ∧ x = element tag children := by
  rw [writePart]
  cases absent <;> simp

theorem writePart_eq_nil_iff {tag : String} {absent : Bool} {children : List Element} :
    writePart tag absent children = [] ↔ absent = true := by
  rw [writePart]
  cases absent <;> simp

theorem names_writePart (tag : String) (absent : Bool) (children : List Element) :
    ((writePart tag absent children).map (·.name)).Sublist [tag] := by
  rw [writePart]
  split
  · exact List.nil_sublist [tag]
  · exact List.Sublist.refl [tag]

theorem write_eq_nil_iff {s : Schema} {c : s.Content} : s.write c = [] ↔ s.isEmpty c = true := by
  induction s with
  | records kind => simp [write, isEmpty, Keyed.values, Keyed.isEmpty]
  | unsupported tag what key => exact iff_of_true rfl rfl
  | both s t ihs iht =>
    exact List.append_eq_nil_iff.trans ((and_congr ihs iht).trans (Bool.and_eq_true ..).symm.to_iff)
  | group tag s ih => simp [write, isEmpty, Keyed.isEmpty]
  | part tag s ih => exact writePart_eq_nil_iff
  | option tag s ih => cases c <;> simp [write, isEmpty]
  | directional s ih => simp [write, isEmpty, writePart_eq_nil_iff]

theorem write_ne_nil {s : Schema} {c : s.Content} (h : s.isEmpty c = false) : s.write c ≠ [] := by
  rw [Ne, write_eq_nil_iff, h]
  exact Bool.false_ne_true

theorem distinct_write_records {kind : RecordKind} {c : Keyed String (Record kind)}
    (h : (records kind).Coherent c) : Distinct kind.keyName ((records kind).write c) := by
  refine ⟨c.keys, ?_, c.keys_nodup⟩
  simp only [write, Keyed.values, Keyed.keys, List.map_map]
  refine List.map_congr_left fun e he => ?_
  exact (Record.attribute?_keyName e.2.read_write).trans (congrArg some (h e he))

theorem distinct_write_group {tag : String} {s : Schema} (c : Keyed String s.Content) :
    Distinct "Name" ((group tag s).write c) := by
  refine ⟨c.keys, ?_, c.keys_nodup⟩
  simp only [write, Keyed.keys, List.map_map]
  refine List.map_congr_left fun e _ => ?_
  exact (Element.attribute?_set (element tag (s.write e.2)) "Name" e.1 "Name").trans (if_pos rfl)

section Records

variable {kind other : RecordKind} {e : Element}

theorem canonicalRecords_single {f : Family} (hkinds : f.kinds = [kind])
    {c : Keyed String (Record kind)}
    (hc : (records kind).Coherent c) (h : e.children = (records kind).write c) :
    f.CanonicalRecords e := by
  have hnamed : e.childrenNamed kind.tag = (records kind).write c :=
    (holds_of_children h).childrenNamed_eq rfl
  refine ⟨?_, ?_⟩
  · simp [hkinds, hnamed, h]
  · simp only [hkinds, List.forall_mem_singleton, hnamed]
    exact distinct_write_records hc

theorem canonicalRecords_pair {f : Family} (hkinds : f.kinds = [kind, other])
    (htags : (records kind).heads.all (· ∉ (records other).heads) = true)
    {c : Keyed String (Record kind) × Keyed String (Record other)}
    (hc : (both (records kind) (records other)).Coherent c)
    (h : e.children = (both (records kind) (records other)).write c) : f.CanonicalRecords e := by
  have hholds := holds_of_children h
  have hkind : e.childrenNamed kind.tag = (records kind).write c.1 :=
    (hholds.first htags).childrenNamed_eq rfl
  have hother : e.childrenNamed other.tag = (records other).write c.2 :=
    (hholds.second htags).childrenNamed_eq rfl
  refine ⟨?_, ?_⟩
  · simp only [hkinds, List.flatMap_cons, List.flatMap_nil, List.append_nil, hkind, hother]
    exact h
  · simp only [hkinds, List.forall_mem_cons, hkind, hother]
    exact ⟨distinct_write_records hc.1, distinct_write_records hc.2, List.forall_mem_nil _⟩

theorem canonicalBucket_group {f : Family} (hf : f.bused = true) {s : Schema}
    {c : Keyed String s.Content} (hc : (group "Bus" s).Coherent c)
    (hrecords : ∀ (d : s.Content) (b : Element), s.Coherent d → b.children = s.write d →
      f.CanonicalRecords b)
    (hne : e.children ≠ []) (h : e.children = (group "Bus" s).write c) : f.CanonicalBucket e := by
  have hbuses : e.childrenNamed "Bus" = (group "Bus" s).write c :=
    (holds_of_children h).childrenNamed_eq rfl
  refine ⟨hne, fun _ => ⟨h.trans hbuses.symm, ?_⟩, ?_⟩
  · rw [hbuses]
    exact distinct_write_group c
  · rw [Family.holders, if_pos hf, hbuses]
    refine List.forall_mem_map.2 fun d hd => ?_
    exact hrecords d.2 _ (hc d hd) rfl

theorem canonicalBucket_plain {f : Family} (hf : f.bused = false) (hne : e.children ≠ [])
    (h : f.CanonicalRecords e) : f.CanonicalBucket e where
  nonempty := hne
  buses := by simp [hf]
  records := by simpa [Family.holders, hf] using h

theorem canonicalBucket (f : Family) {c : (bucket f).Content} (hc : (bucket f).Coherent c)
    (hne : e.children ≠ []) (h : e.children = (bucket f).write c) : f.CanonicalBucket e := by
  cases f with
  | afdx => exact canonicalBucket_plain rfl hne (canonicalRecords_pair rfl rfl hc h)
  | a429 =>
    exact canonicalBucket_group rfl hc (fun _ _ hd hb => canonicalRecords_pair rfl rfl hd hb) hne h
  | can =>
    exact canonicalBucket_group rfl hc (fun _ _ hd hb => canonicalRecords_single rfl hd.2 hb) hne h
  | discrete | analogue | nad =>
    exact canonicalBucket_plain rfl hne (canonicalRecords_single rfl hc h)

end Records

section Exchanges

variable {f : Family}

theorem canonical_family {c : (family f).Content} (hc : (family f).Coherent c)
    (hne : (family f).isEmpty c = false) :
    f.Canonical (element f.tag ((family f).write c)) where
  nonempty := write_ne_nil hne
  order := by
    show ((writePart "ProducedData" _ _ ++ writePart "ConsumedData" _ _).map (·.name)).Sublist _
    rw [List.map_append]
    exact (names_writePart ..).append (names_writePart ..)
  buckets d hd := by
    rcases List.mem_append.1 hd with hd | hd
    · obtain ⟨hempty, rfl⟩ := mem_writePart.1 hd
      exact canonicalBucket f hc.1 (write_ne_nil hempty) rfl
    · obtain ⟨hempty, rfl⟩ := mem_writePart.1 hd
      exact canonicalBucket f hc.2 (write_ne_nil hempty) rfl

theorem coherent_family {c : DataExchange} (hc : dataExchange.Coherent c) (f : Family) :
    (family f).Coherent (DataExchange.family c f) := by
  obtain ⟨hafdx, ha429, hcan, hdiscrete, hanalogue, hnad⟩ := hc
  cases f with
  | afdx => exact hafdx
  | a429 => exact ha429
  | can => exact hcan
  | discrete => exact hdiscrete
  | analogue => exact hanalogue
  | nad => exact hnad

theorem childrenNamed_family {c : DataExchange} {x : Element}
    (h : x.children = dataExchange.write c) (f : Family) :
    x.childrenNamed f.tag = (familyPart f).write (DataExchange.family c f) := by
  have hx := holds_of_children h
  cases f with
  | afdx => exact (hx.first rfl).childrenNamed_eq rfl
  | a429 => exact ((hx.second rfl).first rfl).childrenNamed_eq rfl
  | can => exact (((hx.second rfl).second rfl).first rfl).childrenNamed_eq rfl
  | discrete => exact ((((hx.second rfl).second rfl).second rfl).first rfl).childrenNamed_eq rfl
  | analogue =>
    exact (((((hx.second rfl).second rfl).second rfl).second rfl).first rfl).childrenNamed_eq rfl
  | nad =>
    exact (((((hx.second rfl).second rfl).second rfl).second rfl).second rfl).childrenNamed_eq rfl

theorem canonicalExchange {c : DataExchange} (hc : dataExchange.Coherent c) :
    CanonicalExchange (element "DataExchange" (dataExchange.write c)) where
  order := by
    have hfamily : ∀ (f : Family) (d : FamilyData f),
        (((familyPart f).write d).map (·.name)).Sublist [f.tag] :=
      fun f _ => names_writePart f.tag _ _
    show (((familyPart .afdx).write c.1 ++ ((familyPart .a429).write c.2.1
      ++ ((familyPart .can).write c.2.2.1 ++ ((familyPart .discrete).write c.2.2.2.1
        ++ ((familyPart .analogue).write c.2.2.2.2.1
          ++ (familyPart .nad).write c.2.2.2.2.2))))).map (·.name)).Sublist _
    simp only [List.map_append]
    exact (hfamily ..).append ((hfamily ..).append ((hfamily ..).append
      ((hfamily ..).append ((hfamily ..).append (hfamily ..)))))
  families f e he := by
    rw [childrenNamed_family rfl f] at he
    obtain ⟨hempty, rfl⟩ := mem_writePart.1 he
    exact canonical_family (coherent_family hc f) hempty

end Exchanges

section Owners

variable {o : Element}

theorem canonicalOwner_of_children {parts : List String} {c : Option DataExchange}
    (hc : optionalExchange.Coherent c)
    (hexchanges : o.childrenNamed "DataExchange" = optionalExchange.write c)
    (horder : o.children = optionalExchange.write c ++ parts.flatMap o.childrenNamed)
    (hnames : ∀ tag ∈ parts, Distinct "Name" (o.childrenNamed tag)) : CanonicalOwner parts o where
  order := by
    rw [hexchanges]
    exact horder
  single := by
    rw [hexchanges]
    cases c with
    | none => exact Nat.zero_le 1
    | some c => exact Nat.le_refl 1
  exchanges x hx := by
    rw [hexchanges] at hx
    cases c with
    | none => cases hx
    | some c =>
      rw [List.mem_singleton.1 hx]
      exact canonicalExchange (hc c rfl)
  names := hnames

theorem canonicalOwner_both (tag : String) (htag : tag ≠ "DataExchange") {s : Schema}
    {c : (both optionalExchange (group tag s)).Content}
    (hc : (both optionalExchange (group tag s)).Coherent c)
    (h : o.children = (both optionalExchange (group tag s)).write c) :
    CanonicalOwner [tag] o ∧ o.childrenNamed tag = (group tag s).write c.2 := by
  have htags : optionalExchange.heads.all (· ∉ (group tag s).heads) = true := by
    simp [heads, optionalExchange, htag.symm]
  have hholds := holds_of_children h
  have hparts : o.childrenNamed tag = (group tag s).write c.2 :=
    (hholds.second htags).childrenNamed_eq rfl
  refine ⟨canonicalOwner_of_children hc.1 ((hholds.first htags).childrenNamed_eq rfl) ?_ ?_, hparts⟩
  · rw [List.flatMap_singleton, hparts]
    exact h
  · rw [List.forall_mem_singleton, hparts]
    exact distinct_write_group c.2

theorem canonicalOwner_application {c : Application} (hc : application.Coherent c)
    (h : o.children = application.write c) : CanonicalOwner [] o :=
  canonicalOwner_of_children hc ((holds_of_children h).childrenNamed_eq rfl)
    (h.trans (List.append_nil _).symm)
    (List.forall_mem_nil _)

end Owners

end Schema

namespace Platform

theorem Built.canonical_write {p : Platform} (h : p.Built) : Canonical p.write := by
  have hc := h.coherent
  obtain ⟨hplatform, hequipments⟩ :=
    Schema.canonicalOwner_both "Equipment" (by decide) hc (o := p.write) rfl
  have hequipment : ∀ e ∈ p.write.childrenNamed "Equipment", CanonicalOwner ["Application"] e
      ∧ ∀ a ∈ e.childrenNamed "Application", CanonicalOwner [] a := by
    rw [hequipments]
    refine List.forall_mem_map.2 fun d hd => ?_
    obtain ⟨hd', happlications⟩ := Schema.canonicalOwner_both "Application" (by decide) (hc.2 d hd)
      (o := (Schema.element "Equipment" (Schema.equipment.write d.2)).set "Name" d.1) rfl
    refine ⟨hd', ?_⟩
    rw [happlications]
    exact List.forall_mem_map.2 fun a ha =>
      Schema.canonicalOwner_application ((hc.2 d hd).2 a ha) rfl
  exact ⟨hplatform, fun e he => (hequipment e he).1, fun e he => (hequipment e he).2⟩

theorem Built.canonical_write_conflict :
    ∃ p q : Platform, (p.merge q).value.Built ∧ (p.merge q).findings.errors = 1
    ∧ (∃ x ∈ (p.merge q).value.write.childrenNamed "DataExchange", x.childrenNamed "DISCRETE" ≠ [])
    ∧ Canonical (p.merge q).value.write := by
  obtain ⟨p, q, hp, hq, herrors, hfamily⟩ : ∃ p q : Platform,
      (Platform.read (signalRoot "a")).run.value = .ok p
      ∧ (Platform.read (signalRoot "b")).run.value = .ok q ∧ (p.merge q).findings.errors = 1
      ∧ ((p.merge q).value.write.childrenNamed "DataExchange").map
        (fun x => (x.childrenNamed "DISCRETE").length) = [1] :=
    ⟨_, _, rfl, rfl, rfl, rfl⟩
  have hbuilt := Built.merge (.read hp) (.read hq)
  obtain ⟨x, hx, hlength⟩ := List.mem_map.1 (hfamily ▸ List.mem_singleton_self 1)
  exact ⟨p, q, hbuilt, herrors, ⟨x, hx, List.ne_nil_of_length_pos (hlength ▸ Nat.one_pos)⟩,
    Built.canonical_write hbuilt⟩

end Platform

end Avionics.Exchange
