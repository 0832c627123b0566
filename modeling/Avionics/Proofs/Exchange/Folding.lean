import Avionics.Resolution
import Avionics.Proofs.Exchange.Outcome
import Avionics.Proofs.Fold

namespace Avionics

open Markup (Element)
open Exchange (Platform Schema)

def Exchange.Platform.Accepted (root : Element) : Prop :=
  ∃ p, (Platform.read root).run.value = .ok p

def Resolution.mergePlatforms (roots : List Element) : Except Failure (Noted Platform) :=
  roots.foldlM addPlatform ⟨{}, []⟩

namespace Exchange.Platform

theorem outcome_read (root : Element) :
    Reading.outcome (read root) = if root.name = rootName then
      (root.attribute? "Name").bind fun name =>
        (Schema.platform.outcome root).map fun c => ({ names := [name], content := c.1 }, c.2)
      else none := by
  rw [read]
  split
  · next h =>
    rw [Reading.outcome_bind, Reading.outcome_throw]
    rfl
  · next h =>
    rw [if_pos (not_not.1 h), Reading.outcome_bind, Reading.outcome_liftExcept,
      Element.toOption_required]
    cases root.attribute? "Name" with
    | none => rfl
    | some name =>
      rw [Option.map_some, Option.bind_some, Reading.outcome_bind, Schema.outcome]
      cases Reading.outcome (Schema.platform.read root) with
      | none => rfl
      | some c => simp

def signalRoot (localName : String) : Element :=
  let signal : Element :=
    { name := "Signal", attributes := .ofList [("Name", "S"), ("LocalName", localName)] }
  let exchange :=
    Schema.element "DataExchange"
      [Schema.element "DISCRETE" [Schema.element "ProducedData" [signal]]]
  (Schema.element rootName [exchange]).set "Name" "P"

theorem accepted_signalRoot (localName : String) : Accepted (signalRoot localName) := ⟨_, rfl⟩

theorem outcome_eq_some {α : Type} {x : Reading α} {a : α} (h : x.run.value = .ok a) :
    Reading.outcome x = some (a, x.run.clean) := by
  rw [Reading.outcome, h]
  rfl

theorem Accepted.cases {root : Element} (h : Accepted root) :
    ∃ name c, root.attribute? "Name" = some name
      ∧ (read root).run.value = .ok { names := [name], content := c }
      ∧ Schema.platform.outcome root = some (c, (read root).run.clean) := by
  obtain ⟨p, hp⟩ := h
  have hout := outcome_eq_some hp
  rw [outcome_read] at hout
  split at hout
  · obtain ⟨name, hname, hmap⟩ := Option.bind_eq_some_iff.1 hout
    obtain ⟨⟨c, b⟩, hc, heq⟩ := Option.map_eq_some_iff.1 hmap
    obtain ⟨rfl, rfl⟩ := Prod.mk.inj heq
    exact ⟨name, c, hname, hp, hc⟩
  · cases hout

end Exchange.Platform

namespace Resolution

theorem addPlatform_eq_ok (held : Noted Platform) {root : Element} {p : Platform}
    (h : (Platform.read root).run.value = .ok p) :
    addPlatform held root = .ok ⟨(held.value.merge p).value,
      held.findings ++ (Platform.read root).run.findings ++ (held.value.merge p).findings⟩ := by
  simp only [addPlatform, h]
  rfl

theorem addPlatform_of_ok (held : Noted Platform) {root : Element} {p : Platform}
    (h : (Platform.read root).run.value = .ok p) :
    ∃ next, addPlatform held root = .ok next ∧ next.value.names = held.value.names ++ p.names
      ∧ some (next.value.content, next.clean) = Schema.platform.joining.combine
        (some (held.value.content, held.clean))
        (some (p.content, (Platform.read root).run.clean)) := by
  refine ⟨_, addPlatform_eq_ok held h, rfl, ?_⟩
  rw [Joining.some_combine_some, Schema.join_joining]
  congr 2
  rw [Bool.eq_iff_iff]
  simp [Noted.clean, Platform.merge, and_assoc]

theorem foldlM_addPlatform {roots : List Element} (h : ∀ root ∈ roots, Platform.Accepted root)
    (held : Noted Platform) :
    ∃ merged, roots.foldlM addPlatform held = .ok merged
      ∧ merged.value.names = held.value.names ++ roots.filterMap (·.attribute? "Name")
      ∧ some (merged.value.content, merged.clean) = Schema.platform.joining.combine
        (some (held.value.content, held.clean)) (Schema.platform.total roots) := by
  induction roots generalizing held with
  | nil => exact ⟨held, rfl, by simp, (Joining.combine_unit ..).symm⟩
  | cons root roots ih =>
    obtain ⟨hroot, hroots⟩ := List.forall_mem_cons.1 h
    obtain ⟨name, c, hname, hread, hout⟩ := hroot.cases
    obtain ⟨next, hnext, hnames, hcontent⟩ := addPlatform_of_ok held hread
    obtain ⟨merged, hmerged, hnames', hcontent'⟩ := ih hroots next
    refine ⟨merged, ?_, ?_, ?_⟩
    · rw [foldlM_cons_of_ok hnext, hmerged]
    · simp [hnames', hnames, hname]
    · rw [hcontent', hcontent, Joining.combine_assoc, ← hout]
      rfl

structure MergesTo (roots : List Element) (whole : Noted Platform) : Prop where
  merged : mergePlatforms roots = .ok whole
  names : whole.value.names = roots.filterMap (·.attribute? "Name")
  total : Schema.platform.total roots = some (whole.value.content, whole.clean)

theorem exists_mergesTo {roots : List Element} (h : ∀ root ∈ roots, Platform.Accepted root) :
    ∃ whole, MergesTo roots whole := by
  obtain ⟨merged, hmerged, hnames, hcontent⟩ := foldlM_addPlatform h ⟨{}, []⟩
  refine ⟨merged, hmerged, hnames, ?_⟩
  rw [hcontent]
  show _ = Schema.platform.joining.combine (some (Schema.platform.empty, true)) _
  rw [← Schema.unit_joining, Joining.unit_combine]

end Resolution

end Avionics
