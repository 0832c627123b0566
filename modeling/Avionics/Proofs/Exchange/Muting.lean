import Avionics.Proofs.Exchange.Grammar
import Avionics.Proofs.Exchange.Warnings
import Avionics.Proofs.Markup.Retagging
import Avionics.Proofs.Muting

namespace Avionics

open Markup (Element)
open Exchange (Platform Schema)

namespace Exchange

namespace Schema

def dropped : Schema → Element → Report
  | records _, _ => []
  | unsupported tag what key, e =>
    (e.childrenNamed tag).map fun c => .unsupported what ((c.attribute? key).getD "")
  | both s t, e => s.dropped e ++ t.dropped e
  | group tag s, e | part tag s, e | option tag s, e => (e.childrenNamed tag).flatMap s.dropped
  | directional s, e =>
    (e.childrenNamed "ConsumedData").flatMap s.dropped
      ++ (e.childrenNamed "ProducedData").flatMap s.dropped

def ChildrenMuted (R : Element → Element → Prop) (tag : String) (d e : Element) : Prop :=
  ∃ f, d.childrenNamed tag = (e.childrenNamed tag).map f ∧ ∀ c, (f c).toTag = c.toTag ∧ R (f c) c

def Muted : Schema → Element → Element → Prop
  | records kind, d, e => d.childrenNamed kind.tag = e.childrenNamed kind.tag
  | unsupported tag _ _, d, _ => d.childrenNamed tag = []
  | both s t, d, e => s.Muted d e ∧ t.Muted d e
  | group tag s, d, e | part tag s, d, e | option tag s, d, e => ChildrenMuted s.Muted tag d e
  | directional s, d, e =>
    ChildrenMuted s.Muted "ConsumedData" d e ∧ ChildrenMuted s.Muted "ProducedData" d e

theorem muted_readAll {s : Schema}
    (ih : ∀ {d e}, s.Muted d e → Reading.Muted (s.dropped e) (s.read e) (s.read d))
    {f : Element → Element} (hf : ∀ c, (f c).toTag = c.toTag ∧ s.Muted (f c) c)
    (cs : List Element) :
    Reading.Muted (cs.flatMap s.dropped) (s.readAll s.read cs) (s.readAll s.read (cs.map f)) :=
  .foldlM (fun c _ held => (ih (hf c).2).andThen fun new => .lift (s.notes_merge held new)) s.empty

theorem muted_read {s : Schema} {d e : Element} (h : s.Muted d e) :
    Reading.Muted (s.dropped e) (s.read e) (s.read d) := by
  induction s generalizing d e with
  | records kind =>
    have hchildren : d.childrenNamed kind.tag = (e.childrenNamed kind.tag).map id :=
      h.trans (List.map_id _).symm
    rw [read, read, hchildren]
    have hsilent : (e.childrenNamed kind.tag).flatMap (fun _ => ([] : Report)) = [] :=
      List.flatMap_eq_nil_iff.2 fun _ _ => rfl
    rw [dropped, ← hsilent]
    refine .foldlM (fun c _ held => ?_) _
    exact (Reading.Muted.liftExcept (Record.read kind c)).andThen fun r =>
      .lift (Keyed.notes_absorb Record.notes_join held r.key r)
  | unsupported tag what key =>
    have hread : (unsupported tag what key).read d = (pure ⟨⟩ : Reading PUnit) := by
      rw [read, h]
      rfl
    rw [hread]
    exact .forM fun c _ => rfl
  | both s t ihs iht => exact (ihs h.1).bind fun c => (iht h.2).andThen fun d => .pure (c, d)
  | group tag s ih =>
    obtain ⟨f, hchildren, hf⟩ := h
    rw [read, read, hchildren]
    refine .foldlM (fun c _ held => ?_) _
    have hname : (f c).required "Name" = c.required "Name" := by
      unfold Element.required
      rw [(hf c).1]
    rw [hname]
    exact (Reading.Muted.liftExcept (c.required "Name")).bind fun name =>
      (ih (hf c).2).andThen fun new => .lift (Keyed.notes_absorb s.notes_merge held name new)
  | part tag s ih =>
    obtain ⟨f, hchildren, hf⟩ := h
    rw [read, read, hchildren]
    exact muted_readAll ih hf _
  | option tag s ih =>
    obtain ⟨f, hchildren, hf⟩ := h
    rw [read, read, hchildren, dropped]
    cases e.childrenNamed tag with
    | nil => exact .pure none
    | cons c cs => exact (muted_readAll ih hf (c :: cs)).andThen fun all => .pure (some all)
  | directional s ih =>
    obtain ⟨⟨f, hconsumed, hf⟩, g, hproduced, hg⟩ := h
    rw [read, read, hconsumed, hproduced]
    exact (muted_readAll ih hf _).bind fun consumed =>
      (muted_readAll ih hg _).andThen fun produced =>
      .pure (Directional.mk produced consumed)

section Silent

def complete : Schema → Bool
  | records _ => true
  | unsupported .. => false
  | both s t => s.complete && t.complete
  | group _ s | part _ s | option _ s | directional s => s.complete

variable {s : Schema} {R : Element → Element → Prop} {f : Element → Element} {tag other : String}
    {d e : Element}

theorem ChildrenMuted.refl (h : ∀ c, R c c) (tag : String) (e : Element) :
    ChildrenMuted R tag e e :=
  ⟨id, (List.map_id _).symm, fun c => ⟨rfl, h c⟩⟩

theorem childrenMuted_mapNamed (hf : ∀ c, (f c).toTag = c.toTag ∧ R (f c) c) (tag : String)
    (e : Element) : ChildrenMuted R tag (e.mapNamed tag f) e :=
  ⟨f, Element.childrenNamed_mapNamed fun c => congrArg Markup.Tag.name (hf c).1, hf⟩

theorem ChildrenMuted.mapNamed_ne (h : ChildrenMuted R tag d e) (hf : ∀ c, (f c).toTag = c.toTag)
    (hne : tag ≠ other) : ChildrenMuted R tag (d.mapNamed other f) e := by
  obtain ⟨g, hchildren, hg⟩ := h
  refine ⟨g, ?_, hg⟩
  rw [Element.childrenNamed_mapNamed_ne (fun c => congrArg Markup.Tag.name (hf c)) hne, hchildren]

theorem ChildrenMuted.of_mapNamed_ne (h : ChildrenMuted R tag d (e.mapNamed other f))
    (hf : ∀ c, (f c).toTag = c.toTag) (hne : tag ≠ other) : ChildrenMuted R tag d e := by
  obtain ⟨g, hchildren, hg⟩ := h
  refine ⟨g, ?_, hg⟩
  rw [hchildren, Element.childrenNamed_mapNamed_ne (fun c => congrArg Markup.Tag.name (hf c)) hne]

theorem muted_self (h : s.complete = true) (e : Element) : s.Muted e e := by
  induction s generalizing e with
  | records kind => rfl
  | unsupported tag what key => cases h
  | both s t ihs iht =>
    obtain ⟨hs, ht⟩ := Bool.and_eq_true_iff.1 h
    exact ⟨ihs hs e, iht ht e⟩
  | group tag s ih | part tag s ih | option tag s ih => exact .refl (ih h) tag e
  | directional s ih => exact ⟨.refl (ih h) _ e, .refl (ih h) _ e⟩

theorem ChildrenMuted.flatMap_eq_nil (h : ChildrenMuted R tag d e) {r : Element → Report}
    (hr : ∀ {c c'}, R c c' → r c = []) :
    (d.childrenNamed tag).flatMap r = [] := by
  obtain ⟨g, hchildren, hg⟩ := h
  rw [hchildren, List.flatMap_map]
  exact List.flatMap_eq_nil_iff.2 fun c _ => hr (hg c).2

theorem dropped_of_muted (h : s.Muted d e) : s.dropped d = [] := by
  induction s generalizing d e with
  | records kind => rfl
  | unsupported tag what key => exact List.map_eq_nil_iff.2 h
  | both s t ihs iht => exact List.append_eq_nil_iff.2 ⟨ihs h.1, iht h.2⟩
  | group tag s ih | part tag s ih | option tag s ih => exact ChildrenMuted.flatMap_eq_nil h ih
  | directional s ih =>
    exact List.append_eq_nil_iff.2 ⟨h.1.flatMap_eq_nil ih, h.2.flatMap_eq_nil ih⟩

theorem complete_bucket {f : Family} (h : f ≠ .can) : (bucket f).complete = true := by
  cases f <;> first | rfl | exact absurd rfl h

end Silent

end Schema

namespace Platform

def mutedBus (b : Element) : Element :=
  { b with children := b.children.filter fun c => !Element.named "QueuingMessage" c }

def mutedBucket (b : Element) : Element := b.mapNamed "Bus" mutedBus

def mutedFamily (f : Element) : Element :=
  (f.mapNamed "ConsumedData" mutedBucket).mapNamed "ProducedData" mutedBucket

def mutedExchange (x : Element) : Element := x.mapNamed "CAN" mutedFamily

def mutedOwner (o : Element) : Element := o.mapNamed "DataExchange" mutedExchange

def mutedEquipment (e : Element) : Element := (mutedOwner e).mapNamed "Application" mutedOwner

def muted (root : Element) : Element := (mutedOwner root).mapNamed "Equipment" mutedEquipment

def exchangeFrames (x : Element) : List Element :=
  (x.childrenNamed "CAN").flatMap fun f => ["ConsumedData", "ProducedData"].flatMap fun direction =>
    (f.childrenNamed direction).flatMap fun d =>
      (d.childrenNamed "Bus").flatMap (·.childrenNamed "QueuingMessage")

def frames (root : Element) : List Element :=
  (owners root).flatMap fun o => (o.childrenNamed "DataExchange").flatMap exchangeFrames

def frameWarning (c : Element) : Finding :=
  .unsupported "CAN queuing message" ((c.attribute? "Id").getD "")

section Silent

variable (e : Element)

theorem muted_mutedBus : (mutedBus e).toTag = e.toTag ∧
    (Schema.both (.unsupported "QueuingMessage" "CAN queuing message" "Id")
      (.records .canSampling)).Muted (mutedBus e) e := by
  refine ⟨rfl, ?_, ?_⟩
  · show (e.children.filter _).filter _ = []
    rw [List.filter_filter, List.filter_eq_nil_iff]
    simp
  · show (e.children.filter _).filter _ = e.children.filter _
    rw [List.filter_filter]
    refine List.filter_congr fun c _ => ?_
    by_cases hc : c.name = "SamplingMessage" <;> simp [Element.named, hc, RecordKind.tag]

theorem muted_mutedBucket :
    (mutedBucket e).toTag = e.toTag ∧ (Schema.bucket .can).Muted (mutedBucket e) e :=
  ⟨rfl, Schema.childrenMuted_mapNamed muted_mutedBus "Bus" e⟩

theorem muted_mutedFamily :
    (mutedFamily e).toTag = e.toTag ∧ (Schema.family .can).Muted (mutedFamily e) e := by
  have htags : ∀ c, (mutedBucket c).toTag = c.toTag := fun c => (muted_mutedBucket c).1
  refine ⟨rfl, ?_, ?_⟩
  · exact (Schema.childrenMuted_mapNamed muted_mutedBucket "ConsumedData" e).mapNamed_ne
      htags (by decide)
  · exact (Schema.childrenMuted_mapNamed muted_mutedBucket "ProducedData" _).of_mapNamed_ne
      htags (by decide)

theorem muted_mutedExchange :
    (mutedExchange e).toTag = e.toTag ∧ Schema.dataExchange.Muted (mutedExchange e) e := by
  have hfamily : ∀ f : Family, (Schema.familyPart f).Muted (mutedExchange e) e := by
    intro f
    by_cases hf : f = .can
    · subst hf
      exact Schema.childrenMuted_mapNamed muted_mutedFamily "CAN" e
    · have hself : Schema.ChildrenMuted (Schema.family f).Muted f.tag e e :=
        .refl (Schema.muted_self (s := Schema.family f) (Schema.complete_bucket hf)) f.tag e
      have htag : f.tag ≠ "CAN" := by
        cases f <;> first | decide | exact absurd rfl hf
      exact hself.mapNamed_ne (fun c => (muted_mutedFamily c).1) htag
  exact ⟨rfl, hfamily .afdx, hfamily .a429, hfamily .can, hfamily .discrete, hfamily .analogue,
    hfamily .nad⟩

theorem muted_mutedOwner :
    (mutedOwner e).toTag = e.toTag ∧ Schema.optionalExchange.Muted (mutedOwner e) e :=
  ⟨rfl, Schema.childrenMuted_mapNamed muted_mutedExchange "DataExchange" e⟩

theorem muted_owners {s : Schema} {f : Element → Element}
    (hf : ∀ c, (f c).toTag = c.toTag ∧ s.Muted (f c) c) {tag : String}
    (htag : "DataExchange" ≠ tag) :
    (Schema.both Schema.optionalExchange (.group tag s)).Muted
    ((mutedOwner e).mapNamed tag f) e := by
  have hexchange : Schema.ChildrenMuted Schema.dataExchange.Muted "DataExchange" (mutedOwner e) e :=
    (muted_mutedOwner e).2
  exact ⟨hexchange.mapNamed_ne (fun c => (hf c).1) htag,
    (Schema.childrenMuted_mapNamed hf tag (mutedOwner e)).of_mapNamed_ne
      (fun c => (muted_mutedExchange c).1) htag.symm⟩

theorem muted_mutedEquipment :
    (mutedEquipment e).toTag = e.toTag ∧ Schema.equipment.Muted (mutedEquipment e) e :=
  ⟨rfl, muted_owners e muted_mutedOwner (by decide)⟩

theorem muted_muted : (muted e).toTag = e.toTag ∧ Schema.platform.Muted (muted e) e :=
  ⟨rfl, muted_owners e muted_mutedEquipment (by decide)⟩

end Silent

section Dropped

variable (e : Element)

theorem dropped_dataExchange :
    Schema.dataExchange.dropped e = (exchangeFrames e).map frameWarning := by
  have hother : ∀ f : Family, f ≠ .can → (Schema.familyPart f).dropped e = [] := fun f hf =>
    Schema.dropped_of_muted (Schema.muted_self (s := Schema.familyPart f)
      (Schema.complete_bucket hf) e)
  have hcan : (Schema.familyPart .can).dropped e = (exchangeFrames e).map frameWarning := by
    simp only [Schema.familyPart, Schema.family, Schema.bucket, Schema.can, Schema.dropped,
      exchangeFrames, List.map_flatMap, List.map_append, List.flatMap_cons, List.flatMap_nil,
      List.append_nil]
    rfl
  have hsum : Schema.dataExchange.dropped e = (Schema.familyPart .afdx).dropped e
      ++ ((Schema.familyPart .a429).dropped e
      ++ ((Schema.familyPart .can).dropped e ++ ((Schema.familyPart .discrete).dropped e
      ++ ((Schema.familyPart .analogue).dropped e ++ (Schema.familyPart .nad).dropped e)))) := rfl
  rw [hsum, hother .afdx (by decide), hother .a429 (by decide), hother .discrete (by decide),
    hother .analogue (by decide),
    hother .nad (by decide), hcan]
  simp

theorem dropped_platform : Schema.platform.dropped e = (frames e).map frameWarning := by
  have howner : ∀ o : Element, (o.childrenNamed "DataExchange").flatMap Schema.dataExchange.dropped
      = ((o.childrenNamed "DataExchange").flatMap exchangeFrames).map frameWarning := by
    intro o
    rw [List.map_flatMap]
    exact List.flatMap_congr fun x _ => dropped_dataExchange x
  simp [Schema.platform, Schema.equipment, Schema.application, Schema.optionalExchange,
    Schema.dropped, frames, owners, List.map_flatMap, List.flatMap_assoc, howner]

end Dropped

theorem frames_muted (root : Element) : frames (muted root) = [] := by
  have hdropped := Schema.dropped_of_muted (muted_muted root).2
  rw [dropped_platform] at hdropped
  exact List.map_eq_nil_iff.1 hdropped

theorem muted_read (root : Element) :
    Reading.Muted ((frames root).map frameWarning) (read root) (read (muted root)) := by
  have hname : (muted root).name = root.name := congrArg Markup.Tag.name (muted_muted root).1
  have hrequired : (muted root).required "Name" = root.required "Name" := by
    unfold Element.required
    rw [(muted_muted root).1]
  by_cases hroot : root.name = rootName
  · rw [read, read, hname, hrequired, if_neg (not_not.2 hroot), if_neg (not_not.2 hroot),
      ← dropped_platform]
    exact (Reading.Muted.liftExcept (root.required "Name")).bind fun name =>
      (Schema.muted_read (muted_muted root).2).andThen fun content => .pure _
  · rw [read, read, hname, if_pos hroot, if_pos hroot]
    exact .failed rfl rfl

def busesRoot : Element :=
  let known : Element := { name := "QueuingMessage", attributes := .ofList [("Id", "7")] }
  let unknown : Element := { name := "QueuingMessage" }
  let buses :=
    [[known], [unknown, known]].map fun messages => (Schema.element "Bus" messages).set "Name" "B"
  let exchange :=
    Schema.element "DataExchange" [Schema.element "CAN" [Schema.element "ConsumedData" buses]]
  (Schema.element rootName [exchange]).set "Name" "Q"

theorem accepted_busesRoot : Accepted busesRoot := ⟨_, rfl⟩

end Platform

end Exchange

namespace Resolution

theorem addPlatform_muted {held silent : Noted Platform} {root : Element} (h : held.Muted silent)
    (hroot : Platform.Accepted root) : ∃ next after, addPlatform held root = .ok next
      ∧ addPlatform silent (Platform.muted root) = .ok after ∧ next.Muted after := by
  obtain ⟨p, hp⟩ := hroot
  cases Platform.muted_read root with
  | failed herror => cases hp.symm.trans herror
  | done hq hmuted hwarned herrors =>
    cases hp.symm.trans hq
    refine ⟨_, _, addPlatform_eq_ok held hp, addPlatform_eq_ok silent hmuted, ?_, ?_⟩
    · rw [h.value]
    · rw [List.filter_append, List.filter_append,
        Report.filter_of_errors (held.value.notes_merge p), h.value, h.findings, herrors]

theorem foldlM_addPlatform_muted {roots : List Element}
    (hroots : ∀ root ∈ roots, Platform.Accepted root)
    {held silent : Noted Platform} (h : held.Muted silent) :
    ∃ merged after, roots.foldlM addPlatform held = .ok merged
      ∧ (roots.map Platform.muted).foldlM addPlatform silent = .ok after ∧ merged.Muted after := by
  induction roots generalizing held silent with
  | nil => exact ⟨held, silent, rfl, rfl, h⟩
  | cons root roots ih =>
    obtain ⟨hroot, hroots⟩ := List.forall_mem_cons.1 hroots
    obtain ⟨next, next', hnext, hnext', hmuted⟩ := addPlatform_muted h hroot
    obtain ⟨merged, after, hmerged, hafter, hmuted⟩ := ih hroots hmuted
    exact ⟨merged, after, (foldlM_cons_of_ok hnext ..).trans hmerged,
      (foldlM_cons_of_ok hnext' ..).trans hafter, hmuted⟩

theorem warningsOf_accepted {root : Element} (h : Platform.Accepted root) :
    warningsOf root = (Platform.frames root).map Platform.frameWarning := by
  obtain ⟨p, hp⟩ := h
  cases Platform.muted_read root with
  | failed herror => cases hp.symm.trans herror
  | done hq hmuted hwarned herrors => exact hwarned

/-- The warnings are one for each queuing message on a CAN bus, merging finds errors only, and
without these messages the rest is the same. -/
theorem mergePlatforms_muted {roots : List Element} (h : ∀ root ∈ roots, Platform.Accepted root) :
    ∃ merged silent, mergePlatforms roots = .ok merged
      ∧ mergePlatforms (roots.map Platform.muted) = .ok silent
      ∧ merged.findings.warned = (roots.flatMap Platform.frames).map Platform.frameWarning
      ∧ (∀ p q : Platform, (p.merge q).findings.warned = [])
      ∧ (roots.map Platform.muted).flatMap Platform.frames = [] ∧ merged.Muted silent := by
  have hstart : Noted.Muted (⟨{}, []⟩ : Noted Platform) ⟨{}, []⟩ := ⟨rfl, rfl⟩
  obtain ⟨merged, silent, hmerged, hsilent, hmuted⟩ := foldlM_addPlatform_muted h hstart
  refine ⟨merged, silent, hmerged, hsilent, ?_, fun p q =>
    Report.warned_of_errors (p.notes_merge q), ?_, hmuted⟩
  · rw [List.map_flatMap]
    exact (warnings_mergePlatforms hmerged).trans
      (List.flatMap_congr fun root hroot => warningsOf_accepted (h root hroot))
  · rw [List.flatMap_map]
    exact List.flatMap_eq_nil_iff.2 fun root _ => Platform.frames_muted root

theorem mergePlatforms_muted_buses :
    let roots :=
  [Platform.busesRoot, Platform.signalRoot "a", Platform.busesRoot, Platform.signalRoot "b"]
    (∀ root ∈ roots, Platform.Accepted root)
    ∧ ∃ merged silent, mergePlatforms roots = .ok merged
      ∧ mergePlatforms (roots.map Platform.muted) = .ok silent
      ∧ merged.findings.warned = ["7", "", "7", "7", "", "7"].map
        (Finding.unsupported "CAN queuing message")
      ∧ silent.findings.warned = [] ∧ silent.findings.errors = 1 ∧ silent.value = merged.value := by
  intro roots
  have h : ∀ root ∈ roots, Platform.Accepted root := by
    simp [roots, Platform.accepted_signalRoot, Platform.accepted_busesRoot]
  obtain ⟨merged, silent, hmerged, hsilent, hwarned, -, -, hmuted⟩ := mergePlatforms_muted h
  have herrors : (mergePlatforms (roots.map Platform.muted)).map (·.findings.errors) = .ok 1 := rfl
  rw [hsilent] at herrors
  have hnone : silent.findings.warned = [] := by
    rw [hmuted.findings, Report.warned, List.filter_filter, List.filter_eq_nil_iff]
    simp
  exact ⟨h, merged, silent, hmerged, hsilent, hwarned.trans rfl, hnone, Except.ok.inj herrors,
    hmuted.value⟩

end Resolution

end Avionics
