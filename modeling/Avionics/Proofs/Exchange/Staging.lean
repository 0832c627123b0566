import Avionics.Proofs.Exchange.Folding
import Avionics.Proofs.Exchange.Writing

namespace Avionics

open Markup (Element)
open Exchange (Platform Schema)

theorem intercalate_flatten {separator : String} {groups : List (List String)}
    (h : ∀ g ∈ groups, g ≠ []) :
    separator.intercalate (groups.map separator.intercalate)
      = separator.intercalate groups.flatten := by
  induction groups with
  | nil => rfl
  | cons g groups ih =>
    obtain ⟨hg, hgs⟩ := List.forall_mem_cons.1 h
    cases groups with
    | nil => simp
    | cons g' groups =>
      have hflatten : (g' :: groups).flatten ≠ [] := by
        simp [(List.forall_mem_cons.1 hgs).1]
      rw [List.map_cons, String.intercalate_cons_of_ne_nil (by simp), ih hgs]
      exact (String.intercalate_append_of_ne_nil hg hflatten).symm

namespace Exchange.Platform

theorem write_congr {p q : Platform} (hn : p.name = q.name) (hc : p.content = q.content) :
    p.write = q.write := by
  unfold write
  rw [hn, hc]

theorem accepted_of_outcome {root : Element} {p : Platform} {b : Bool}
    (h : Reading.outcome (read root) = some (p, b)) : Accepted root := by
  obtain ⟨q, hq, -⟩ := Option.map_eq_some_iff.1 h
  refine ⟨q, ?_⟩
  cases hv : (read root).run.value with
  | error e =>
    rw [hv] at hq
    cases hq
  | ok a =>
    rw [hv] at hq
    cases hq
    rfl

theorem accepted_write {p : Platform} (h : Schema.platform.Coherent p.content) :
    Accepted p.write := by
  have houtcome : Reading.outcome (read p.write)
      = some ({ names := [p.name], content := p.content }, true) := by
    rw [outcome_read, attribute?_write, outcome_write h]
    rfl
  exact accepted_of_outcome houtcome

end Exchange.Platform

namespace Resolution

theorem filterMap_name_ne_nil {roots : List Element} (h : ∀ root ∈ roots, Platform.Accepted root)
    (hne : roots ≠ []) : roots.filterMap (·.attribute? "Name") ≠ [] := by
  obtain ⟨root, hroot⟩ := List.exists_mem_of_ne_nil _ hne
  obtain ⟨name, -, hname, -⟩ := (h root hroot).cases
  exact List.ne_nil_of_mem (List.mem_filterMap.2 ⟨root, hroot, hname⟩)

theorem MergesTo.coherent {roots : List Element} {whole : Noted Platform}
    (h : MergesTo roots whole) :
    Schema.platform.Coherent whole.value.content := Schema.coherent_of_total h.total

section Stages

variable {groups : List (List Element)} {part : List Element → Noted Platform}
    {whole staged : Noted Platform}

/-- Whatever was noted inside the groups, the later stage has the contents of the whole. -/
theorem total_stages (hparts : ∀ g ∈ groups, MergesTo g (part g))
    (hwhole : MergesTo groups.flatten whole)
    (hstaged : MergesTo (groups.map fun g => (part g).value.write) staged) :
    whole.value.content = staged.value.content
      ∧ whole.clean = (groups.all (fun g => (part g).clean) && staged.clean) := by
  have hdocuments : Schema.platform.total (groups.map fun g => (part g).value.write)
      = Schema.platform.joining.gather
        (groups.map fun g => some ((part g).value.content, true)) := by
    rw [Schema.total, List.map_map]
    congr 1
    exact List.map_congr_left fun g hg => Platform.outcome_write (hparts g hg).coherent
  have hgroups : Schema.platform.total groups.flatten
      = Schema.platform.joining.gather
        (groups.map fun g => some ((part g).value.content, (part g).clean)) := by
    rw [Schema.total, List.map_flatten, ← List.flatMap_def, Joining.gather_flatMap]
    congr 1
    exact List.map_congr_left fun g hg => (hparts g hg).total
  have htotal := hwhole.total
  rw [hgroups, Joining.gather_clean, ← hdocuments, hstaged.total] at htotal
  simpa [eq_comm] using htotal

theorem name_stages (hne : ∀ g ∈ groups, g ≠ [])
    (haccepted : ∀ g ∈ groups, ∀ root ∈ g, Platform.Accepted root)
    (hparts : ∀ g ∈ groups, MergesTo g (part g)) (hwhole : MergesTo groups.flatten whole)
    (hstaged : MergesTo (groups.map fun g => (part g).value.write) staged) :
    whole.value.name = staged.value.name := by
  let names (g : List Element) : List String := g.filterMap (·.attribute? "Name")
  have hdocuments : staged.value.names = (groups.map names).map (String.intercalate "_") := by
    rw [hstaged.names, List.filterMap_map, List.map_map, ← List.filterMap_eq_map]
    refine List.filterMap_congr fun g hg => ?_
    show (part g).value.write.attribute? "Name" = some ("_".intercalate (names g))
    rw [Platform.attribute?_write, Platform.name, (hparts g hg).names]
  have hall : ∀ l ∈ groups.map names, l ≠ [] := by
    intro l hl
    obtain ⟨g, hg, rfl⟩ := List.mem_map.1 hl
    exact filterMap_name_ne_nil (haccepted g hg) (hne g hg)
  rw [Platform.name, Platform.name, hdocuments, intercalate_flatten hall, hwhole.names,
    List.filterMap_flatten]

end Stages

theorem mergePlatforms_staged {groups : List (List Element)} (hne : ∀ g ∈ groups, g ≠ [])
    (haccepted : ∀ g ∈ groups, ∀ root ∈ g, Platform.Accepted root) :
    ∃ whole parts documents staged, mergePlatforms groups.flatten = .ok whole
      ∧ groups.mapM mergePlatforms = .ok parts
      ∧ parts.mapM (fun part => Element.parse part.value.write.indent.render) = .ok documents
      ∧ mergePlatforms documents = .ok staged
      ∧ (whole.findings.errors = 0 ↔ (∀ part ∈ parts, part.findings.errors = 0)
        ∧ staged.findings.errors = 0)
      ∧ (whole.findings.errors = 0 →
        staged.value.write.indent.render = whole.value.write.indent.render) := by
  have hnonempty : Nonempty (Noted Platform) := ⟨⟨{}, []⟩⟩
  have hmerges : ∀ g ∈ groups, ∃ part, MergesTo g part :=
    fun g hg => exists_mergesTo (haccepted g hg)
  choose! part hparts using hmerges
  have hflatten : ∀ root ∈ groups.flatten, Platform.Accepted root := by
    intro root hroot
    obtain ⟨g, hg, hr⟩ := List.mem_flatten.1 hroot
    exact haccepted g hg root hr
  have hdocuments : ∀ root ∈ groups.map fun g => (part g).value.write, Platform.Accepted root := by
    intro root hroot
    obtain ⟨g, hg, rfl⟩ := List.mem_map.1 hroot
    exact Platform.accepted_write (hparts g hg).coherent
  obtain ⟨whole, hwhole⟩ := exists_mergesTo hflatten
  obtain ⟨staged, hstaged⟩ := exists_mergesTo hdocuments
  obtain ⟨hcontent, hclean⟩ := total_stages hparts hwhole hstaged
  have hname := name_stages hne haccepted hparts hwhole hstaged
  refine ⟨whole, groups.map part, groups.map fun g => (part g).value.write, staged, hwhole.merged,
    mapM_of_ok fun g hg => (hparts g hg).merged, ?_, hstaged.merged, ?_, fun _ => ?_⟩
  · rw [mapM_of_ok fun part _ => part.value.parse_render_write, List.map_map]
    rfl
  · rw [← Noted.clean_iff, hclean]
    simp [Noted.clean_iff]
  · rw [Platform.write_congr hname hcontent]

theorem mergePlatforms_staged_signals : ∃ whole staged : Noted Platform,
    mergePlatforms [Platform.signalRoot "a", Platform.signalRoot "a"] = .ok whole
      ∧ whole.findings.errors = 0
      ∧ staged.value.write.indent.render = whole.value.write.indent.render := by
  let groups := [[Platform.signalRoot "a"], [Platform.signalRoot "a"]]
  have hne : ∀ g ∈ groups, g ≠ [] := by simp [groups]
  have haccepted : ∀ g ∈ groups, ∀ root ∈ g, Platform.Accepted root := by
    simp [groups, Platform.accepted_signalRoot]
  obtain ⟨whole, parts, documents, staged, hwhole, -, -, -, -, htext⟩ :=
    mergePlatforms_staged hne haccepted
  have herrors : whole.findings.errors = 0 := by
    have h : (mergePlatforms groups.flatten).map (·.findings.errors) = .ok 0 := rfl
    rw [hwhole] at h
    exact Except.ok.inj h
  exact ⟨whole, staged, hwhole, herrors, htext herrors⟩

end Resolution

end Avionics
