import Avionics.Proofs.Exchange.Address
import Avionics.Proofs.Exchange.Folding

namespace Avionics.Exchange

open Markup (Element)

namespace Schema

def Formed : Schema → Element → Prop
  | records kind, e => ∀ c ∈ e.childrenNamed kind.tag, ∀ name ∈ kind.required, c.Has name
  | unsupported .., _ => True
  | both s t, e => s.Formed e ∧ t.Formed e
  | group tag s, e => ∀ c ∈ e.childrenNamed tag, c.Has "Name" ∧ s.Formed c
  | part tag s, e | option tag s, e => ∀ c ∈ e.childrenNamed tag, s.Formed c
  | directional s, e =>
    ∀ tag ∈ ["ProducedData", "ConsumedData"], ∀ c ∈ e.childrenNamed tag, s.Formed c

theorem isSome_record_iff {kind : RecordKind} {c : Element} :
    (Joining.entry (c.attribute? kind.keyName) (recordOutcome kind c)).isSome = true
      ↔ ∀ name ∈ kind.required, c.Has name := by
  rw [← Record.exists_read_iff, Joining.isSome_entry, recordOutcome, Option.isSome_map]
  cases hread : Record.read kind c with
  | error f =>
    rw [Except.toOption, Option.isSome_none, Bool.and_false]
    refine iff_of_false Bool.false_ne_true ?_
    rintro ⟨r, ⟨⟩⟩
  | ok r =>
    rw [Record.attribute?_keyName hread]
    exact iff_of_true rfl ⟨r, rfl⟩

theorem forall_childrenOf {es : List Element} {tag : String} {p : Element → Prop} :
    (∀ c ∈ childrenOf es tag, p c) ↔ ∀ e ∈ es, ∀ c ∈ e.childrenNamed tag, p c :=
  List.forall_mem_flatMap

section Total

variable (kind : RecordKind) (tag : String) (s t : Schema) (es : List Element)

theorem isSome_total_records : ((records kind).total es).isSome = true
    ↔ ∀ c ∈ childrenOf es kind.tag, ∀ name ∈ kind.required, c.Has name := by
  refine (Iff.of_eq (congrArg (Option.isSome · = true) (total_records kind es))).trans ?_
  refine ((Joining.keyed Record.associative_join).isSome_gather).trans ?_
  rw [List.forall_mem_map]
  simp only [isSome_record_iff]

theorem isSome_total_both : ((both s t).total es).isSome = true ↔ (s.total es).isSome = true
    ∧ (t.total es).isSome = true := by
  have h : ((both s t).total es).isSome = (Joining.both (s.total es) (t.total es)).isSome :=
    congrArg Option.isSome (total_both s t es)
  rw [h, Joining.isSome_both, Bool.and_eq_true]

theorem isSome_total_group : ((group tag s).total es).isSome = true
    ↔ ∀ c ∈ childrenOf es tag, c.Has "Name" ∧ (s.total [c]).isSome = true := by
  refine (Iff.of_eq (congrArg (Option.isSome · = true) (total_group tag s es))).trans ?_
  refine ((Joining.keyed s.joining.associative).isSome_gather).trans ?_
  rw [List.forall_mem_map]
  simp only [Joining.isSome_entry, Bool.and_eq_true, Option.isSome_iff_exists, total_singleton]
  rfl

theorem isSome_total_option : ((option tag s).total es).isSome = true
    ↔ childrenOf es tag = [] ∨ (s.total (childrenOf es tag)).isSome = true := by
  have h : ((option tag s).total es).isSome
      = Option.isSome (if childrenOf es tag = [] then some (none, true)
        else Joining.present (s.total (childrenOf es tag))) :=
    congrArg Option.isSome (total_option tag s es)
  rw [h]
  split
  · next hes => exact iff_of_true rfl (.inl hes)
  · next hes => rw [Joining.present, Option.isSome_map, or_iff_right hes]

theorem isSome_total_directional : ((directional s).total es).isSome = true
    ↔ (s.total (childrenOf es "ConsumedData")).isSome = true
      ∧ (s.total (childrenOf es "ProducedData")).isSome = true := by
  have h : ((directional s).total es).isSome
      = (Joining.both (s.total (childrenOf es "ConsumedData"))
        (s.total (childrenOf es "ProducedData"))).isSome :=
    (congrArg Option.isSome (total_directional s es)).trans Option.isSome_map
  rw [h, Joining.isSome_both, Bool.and_eq_true]

end Total

theorem isSome_total_iff {s : Schema} {es : List Element} :
    (s.total es).isSome = true ↔ ∀ e ∈ es, s.Formed e := by
  induction s generalizing es with
  | records kind => exact (isSome_total_records kind es).trans forall_childrenOf
  | unsupported tag what key =>
    rw [total_unsupported]
    exact iff_of_true rfl fun _ _ => trivial
  | both s t ihs iht =>
    rw [isSome_total_both, ihs, iht, ← forall₂_and]
    rfl
  | group tag s ih =>
    refine (isSome_total_group tag s es).trans (Iff.trans ?_ forall_childrenOf)
    simp only [ih, List.forall_mem_singleton]
  | part tag s ih =>
    exact (Iff.of_eq (congrArg (Option.isSome · = true) (total_part tag s es))).trans
      (ih.trans forall_childrenOf)
  | option tag s ih =>
    rw [isSome_total_option, ih]
    refine Iff.trans (or_iff_right_of_imp fun hes => ?_) forall_childrenOf
    rw [hes]
    exact List.forall_mem_nil _
  | directional s ih =>
    rw [isSome_total_directional, ih, ih, forall_childrenOf, forall_childrenOf, ← forall₂_and]
    refine forall₂_congr fun e _ => ?_
    rw [Formed, List.forall_mem_cons, List.forall_mem_singleton, and_comm]

theorem isSome_outcome_iff {s : Schema} {e : Element} :
    (s.outcome e).isSome = true ↔ s.Formed e := by
  rw [← total_singleton, isSome_total_iff, List.forall_mem_singleton]

end Schema

theorem RecordKind.forall_family_iff {f : Family} {p : RecordKind → Prop} :
    (∀ kind, kind.family = f → p kind) ↔ match f with
    | .afdx => p .afdxSampling ∧ p .afdxQueuing
    | .a429 => p .a429Sampling ∧ p .a429Queuing
    | .can => p .canSampling
    | .discrete => p .discreteSignal
    | .analogue => p .analogueSignal
    | .nad => p .nadMessage := by
  constructor
  · intro h
    cases f with
    | afdx | a429 => exact ⟨h _ rfl, h _ rfl⟩
    | can | discrete | analogue | nad => exact h _ rfl
  · rintro h kind rfl
    cases kind with
    | afdxSampling | a429Sampling => exact h.1
    | afdxQueuing | a429Queuing => exact h.2
    | canSampling | discreteSignal | analogueSignal | nadMessage => exact h

namespace Family

def bused : Family → Bool
  | .a429 | .can => true
  | .afdx | .discrete | .analogue | .nad => false

def holders (f : Family) (d : Element) : List Element :=
  if f.bused then d.childrenNamed "Bus" else [d]

structure FormedBucket (f : Family) (d : Element) : Prop where
  buses : f.bused = true → ∀ b ∈ d.childrenNamed "Bus", b.Has "Name"
  records : ∀ b ∈ f.holders d, ∀ kind : RecordKind, kind.family = f →
    ∀ c ∈ b.childrenNamed kind.tag,
    ∀ name ∈ kind.required, c.Has name

theorem formed_bucket_iff {f : Family} {d : Element} :
    (Schema.bucket f).Formed d ↔ FormedBucket f d := by
  have hiff : FormedBucket f d ↔ (f.bused = true → ∀ b ∈ d.childrenNamed "Bus", b.Has "Name")
      ∧ ∀ b ∈ f.holders d, ∀ kind : RecordKind, kind.family = f → (Schema.records kind).Formed b :=
    ⟨fun h => ⟨h.buses, h.records⟩, fun h => ⟨h.1, h.2⟩⟩
  rw [hiff]
  simp only [RecordKind.forall_family_iff]
  cases f with
  | afdx | discrete | analogue | nad =>
    simp [bused, holders, Schema.bucket, Schema.afdx, Schema.Formed]
  | a429 | can =>
    simp [bused, holders, Schema.bucket, Schema.a429, Schema.can, Schema.Formed, forall_and]

end Family

def FormedExchange (x : Element) : Prop :=
  ∀ f : Family, ∀ e ∈ x.childrenNamed f.tag, ∀ tag ∈ ["ProducedData", "ConsumedData"],
    ∀ d ∈ e.childrenNamed tag, f.FormedBucket d

theorem formed_dataExchange_iff {x : Element} :
    Schema.dataExchange.Formed x ↔ FormedExchange x := by
  simp only [FormedExchange, ← Family.formed_bucket_iff]
  constructor
  · rintro ⟨hafdx, ha429, hcan, hdiscrete, hanalogue, hnad⟩ f
    cases f with
    | afdx => exact hafdx
    | a429 => exact ha429
    | can => exact hcan
    | discrete => exact hdiscrete
    | analogue => exact hanalogue
    | nad => exact hnad
  · exact fun h => ⟨h .afdx, h .a429, h .can, h .discrete, h .analogue, h .nad⟩

namespace Platform

def owners (root : Element) : List Element :=
  root :: (root.childrenNamed "Equipment").flatMap fun e => e :: e.childrenNamed "Application"

structure Formed (root : Element) : Prop where
  named : root.name = rootName
  names : ∀ o ∈ owners root, o.Has "Name"
  exchanges : ∀ o ∈ owners root, ∀ x ∈ o.childrenNamed "DataExchange", FormedExchange x

theorem formed_platform_iff {root : Element} : root.Has "Name" ∧ Schema.platform.Formed root
    ↔ (∀ o ∈ owners root, o.Has "Name") ∧ ∀ o ∈ owners root, ∀ x ∈ o.childrenNamed "DataExchange",
      FormedExchange x := by
  simp only [owners, List.forall_mem_cons, List.forall_mem_flatMap, ← formed_dataExchange_iff]
  constructor
  · rintro ⟨hname, hexchange, hequipments⟩
    exact ⟨⟨hname, fun e he => ⟨(hequipments e he).1, fun a ha => ((hequipments e he).2.2 a ha).1⟩⟩,
      ⟨hexchange, fun e he => ⟨(hequipments e he).2.1, fun a ha =>
        ((hequipments e he).2.2 a ha).2⟩⟩⟩
  · rintro ⟨⟨hname, hnames⟩, ⟨hexchange, hexchanges⟩⟩
    exact ⟨hname, hexchange, fun e he => ⟨(hnames e he).1, (hexchanges e he).1,
      fun a ha => ⟨(hnames e he).2 a ha, (hexchanges e he).2 a ha⟩⟩⟩

theorem accepted_iff {root : Element} : Accepted root ↔ Formed root := by
  have hiff : Formed root ↔ root.name = rootName ∧ root.Has "Name"
      ∧ Schema.platform.Formed root := by
    rw [formed_platform_iff]
    exact ⟨fun h => ⟨h.named, h.names, h.exchanges⟩, fun ⟨hroot, hnames, hexchanges⟩ =>
      ⟨hroot, hnames, hexchanges⟩⟩
  rw [Accepted, ← Reading.isSome_outcome_iff, outcome_read, hiff]
  split
  · next hroot =>
    rw [and_iff_right hroot, ← Schema.isSome_outcome_iff, Element.Has, ← Option.isSome_iff_exists]
    cases root.attribute? "Name" with
    | none => simp
    | some name => simp
  · next hroot => exact iff_of_false Bool.false_ne_true fun h => hroot h.1

end Platform

end Avionics.Exchange
