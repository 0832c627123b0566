import Avionics.Proofs.Exchange.Inversion
import Avionics.Proofs.Exchange.RoundTrip

namespace Avionics

open Markup (Element)
open Exchange (Platform Schema Family FamilyData DataExchange Equipment)
open Inversion (invertExchange invertExchangeTag_eq invertedName_invertedName mirrors_required
    name_invertExchange)

namespace Exchange

def Directional.exchanged {α : Type} (d : Directional α) : Directional α := ⟨d.consumed, d.produced⟩

def DataExchange.exchanged (x : DataExchange) : DataExchange :=
  let family (f : Family) : FamilyData f := (DataExchange.family x f).exchanged
  (family .afdx, family .a429, family .can, family .discrete, family .analogue, family .nad)

def Equipment.exchanged (e : Equipment) : Equipment :=
  (e.1.map DataExchange.exchanged, Keyed.mapValues (Option.map DataExchange.exchanged) e.2)

namespace Schema

theorem inverted_bucket (f : Family) (c : (bucket f).Content) : (bucket f).inverted c = c := by
  cases f with
  | afdx | discrete | analogue | nad => rfl
  | a429 | can => exact Keyed.mapValues_id c

theorem inverted_family (f : Family) (d : FamilyData f) : (family f).inverted d = d.exchanged :=
  congrArg₂ Directional.mk (inverted_bucket f d.consumed) (inverted_bucket f d.produced)

theorem inverted_dataExchange : dataExchange.inverted = DataExchange.exchanged := by
  funext x
  exact congrArg₂ Prod.mk (inverted_family .afdx x.1) <|
    congrArg₂ Prod.mk (inverted_family .a429 x.2.1) <|
      congrArg₂ Prod.mk (inverted_family .can x.2.2.1) <|
        congrArg₂ Prod.mk (inverted_family .discrete x.2.2.2.1) <|
          congrArg₂ Prod.mk (inverted_family .analogue x.2.2.2.2.1)
            (inverted_family .nad x.2.2.2.2.2)

theorem inverted_equipment : equipment.inverted = Equipment.exchanged := by
  funext e
  show (Option.map dataExchange.inverted e.1,
      Keyed.mapValues (Option.map dataExchange.inverted) e.2) = _
  rw [inverted_dataExchange]
  rfl

end Schema

namespace Platform

def inverted (p : Platform) : Platform := { p with content := Schema.platform.inverted p.content }

theorem dataExchange_inverted (p : Platform) :
    p.inverted.dataExchange = p.dataExchange.map DataExchange.exchanged := by
  rw [← Schema.inverted_dataExchange]
  rfl

theorem equipments_inverted (p : Platform) :
    p.inverted.equipments = p.equipments.mapValues Equipment.exchanged := by
  rw [← Schema.inverted_equipment]
  rfl

theorem mirrors_merge (held new : Platform) :
    (held.merge new).Mirrors inverted (held.inverted.merge new.inverted) :=
  (Schema.platform.mirrors_merge held.content new.content).bind fun c =>
    .pure inverted { names := held.names ++ new.names, content := c }

theorem mirrors_read (root : Element) :
    Reading.Mirrors inverted (read root) (read (invertExchange root)) := by
  have hroot : (invertExchange root).name = rootName ↔ root.name = rootName := by
    rw [name_invertExchange, Inversion.invertedName_eq_iff]
    rfl
  rw [read, read]
  by_cases h : root.name = rootName
  · rw [if_neg (not_not.2 h), if_neg (not_not.2 (hroot.2 h))]
    exact (mirrors_required root "Name").bind fun name =>
      (Schema.mirrors_read Schema.neutral_platform root).bind fun c =>
        .pure inverted { names := [name], content := c }
  · rw [if_pos h, if_pos (mt hroot.1 h)]
    exact .failed rfl rfl

theorem accepted_invertExchange_iff {root : Element} :
    Accepted (invertExchange root) ↔ Accepted root := by
  cases mirrors_read root with
  | failed h h' =>
    exact iff_of_false (fun ⟨p, hp⟩ => by cases h'.symm.trans hp) fun ⟨p, hp⟩ => by
      cases h.symm.trans hp
  | done h h' => exact iff_of_true ⟨_, h'⟩ ⟨_, h⟩

theorem read_invertExchange_write {p : Platform} (h : Schema.platform.Coherent p.content) :
    (read (invertExchange p.write)).run.value = .ok p.rewritten.inverted
      ∧ (read (invertExchange p.write)).run.findings = [] := by
  have hread := mirrors_read p.write
  rw [read_write h] at hread
  cases hread with
  | failed hx _ => cases hx
  | done hx hy hfindings =>
    cases hx
    exact ⟨hy, List.perm_nil.1 hfindings⟩

end Platform

end Exchange

theorem Inversion.invertExchange_invertExchange (e : Element) :
    invertExchange (invertExchange e) = e :=
  Element.mapTags_mapTags_cancel (fun t => by simp [invertExchangeTag_eq]) e

namespace Resolution

theorem addPlatform_mirrors {held held' : Noted Platform} (h : held.Mirrors Platform.inverted held')
    {root : Element}
    (hroot : Platform.Accepted root) : ∃ next next', addPlatform held root = .ok next
      ∧ addPlatform held' (invertExchange root) = .ok next'
        ∧ next.Mirrors Platform.inverted next' := by
  obtain ⟨p, hp⟩ := hroot
  cases Platform.mirrors_read root with
  | failed hx _ => cases hx.symm.trans hp
  | done hx hy hfindings =>
    cases hx.symm.trans hp
    refine ⟨_, _, addPlatform_eq_ok held hp, addPlatform_eq_ok held' hy, ?_⟩
    have hmerge := Platform.mirrors_merge held.value p
    rw [h.value]
    exact ⟨hmerge.value, (h.findings.append hfindings).append hmerge.findings⟩

theorem mergePlatforms_mirrors {roots : List Element} (h : ∀ root ∈ roots, Platform.Accepted root) :
    ∃ merged mirrored, mergePlatforms roots = .ok merged
      ∧ mergePlatforms (roots.map invertExchange) = .ok mirrored
      ∧ merged.Mirrors Platform.inverted mirrored := by
  refine foldlM_related (S := Noted.Mirrors Platform.inverted)
    (R := fun (x y : Except Failure (Noted Platform)) => ∃ merged mirrored,
      x = .ok merged ∧ y = .ok mirrored ∧ merged.Mirrors Platform.inverted mirrored)
    ?_ ?_ ?_ ⟨?_, .refl _⟩
  · intro s t hst
    exact ⟨s, t, rfl, rfl, hst⟩
  · rintro _ _ k l ⟨s, t, rfl, rfl, hst⟩ hkl
    exact hkl s t hst
  · intro root hroot s t hst
    exact addPlatform_mirrors hst (h root hroot)
  · exact congrArg (Platform.mk []) (Schema.inverted_empty Schema.platform).symm

theorem mergePlatforms_invertExchange (roots : List Element) :
    ((∀ root ∈ roots, Platform.Accepted root)
      ↔ ∀ root ∈ roots.map invertExchange, Platform.Accepted root)
    ∧ ((∀ root ∈ roots, Platform.Accepted root) → ∃ merged mirrored,
      mergePlatforms roots = .ok merged
      ∧ mergePlatforms (roots.map invertExchange) = .ok mirrored
      ∧ mirrored.value.names = merged.value.names
      ∧ mirrored.value.dataExchange = merged.value.dataExchange.map DataExchange.exchanged
      ∧ mirrored.value.equipments = merged.value.equipments.mapValues Equipment.exchanged
      ∧ mirrored.findings.Perm merged.findings
      ∧ ∃ q : Platform, (Platform.read (invertExchange merged.value.write)).run.value = .ok q
        ∧ (Platform.read (invertExchange merged.value.write)).run.findings = []
        ∧ q.dataExchange = mirrored.value.dataExchange ∧ q.equipments = mirrored.value.equipments)
    ∧ ∀ e, invertExchange (invertExchange e) = e := by
  refine ⟨?_, fun h => ?_, Inversion.invertExchange_invertExchange⟩
  · rw [List.forall_mem_map]
    exact forall₂_congr fun root _ => Platform.accepted_invertExchange_iff.symm
  · obtain ⟨merged, mirrored, hmerged, hmirrored, hvalue, hfindings⟩ := mergePlatforms_mirrors h
    obtain ⟨whole, hwhole⟩ := exists_mergesTo h
    cases hmerged.symm.trans hwhole.merged
    obtain ⟨hread, hclean⟩ :=
      Platform.read_invertExchange_write (Schema.coherent_of_total hwhole.total)
    refine ⟨merged, mirrored, hmerged, hmirrored, ?_⟩
    rw [hvalue]
    exact ⟨rfl, merged.value.dataExchange_inverted, merged.value.equipments_inverted, hfindings,
      merged.value.rewritten.inverted, hread, hclean, rfl, rfl⟩

theorem mergePlatforms_invertExchange_conflict :
    (∀ root ∈ [Platform.signalRoot "a", Platform.signalRoot "b"], Platform.Accepted root)
    ∧ ∃ merged mirrored, mergePlatforms [Platform.signalRoot "a", Platform.signalRoot "b"]
      = .ok merged
      ∧ mergePlatforms [invertExchange (Platform.signalRoot "a"),
        invertExchange (Platform.signalRoot "b")] = .ok mirrored
      ∧ mirrored.value.dataExchange = merged.value.dataExchange.map DataExchange.exchanged
      ∧ mirrored.findings.errors = 1 := by
  have h : ∀ root ∈ [Platform.signalRoot "a", Platform.signalRoot "b"], Platform.Accepted root := by
    simp [Platform.accepted_signalRoot]
  obtain ⟨-, hmerge, -⟩ :=
    mergePlatforms_invertExchange [Platform.signalRoot "a", Platform.signalRoot "b"]
  obtain ⟨merged, mirrored, hmerged, hmirrored, -, hexchange, -, hfindings, -⟩ := hmerge h
  have herrors : (mergePlatforms [Platform.signalRoot "a", Platform.signalRoot "b"]).map
      (·.findings.errors) = .ok 1 := rfl
  rw [hmerged] at herrors
  exact ⟨h, merged, mirrored, hmerged, hmirrored, hexchange,
    (hfindings.countP_eq _).trans (Except.ok.inj herrors)⟩

end Resolution

end Avionics
