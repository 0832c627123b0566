import Avionics.Proofs.Exchange.Address
import Avionics.Proofs.Exchange.Folding

namespace Avionics

open Markup (Element)
open Exchange (Platform Schema Record RecordKind)
open Exchange.Schema (Address childrenOf childrenWith)

namespace Exchange.Schema

/-- The contents that elements describe together: everything that is declared, each record
as it comes first, names and keys in the order of their first occurrence. -/
structure Describes (s : Schema) (es : List Element) (c : s.Content) : Prop where
  stored : ∀ kind (a : Address s (records kind)) key,
    Keyed.contains (a.content c) key = true ↔ a.records key es ≠ []
  first : ∀ kind (a : Address s (records kind)) key e later, a.records key es = e :: later →
    ∃ r, Record.read kind e = .ok r ∧ Keyed.get? (a.content c) key = some r
  recordOrder : ∀ kind (a : Address s (records kind)), Keyed.keys (a.content c)
    = ((childrenOf (a.elements es) kind.tag).filterMap (·.attribute? kind.keyName)).eraseDups
  named : ∀ tag t (a : Address s (group tag t)) name,
    Keyed.contains (a.content c) name = true ↔ childrenWith (a.elements es) tag "Name" name ≠ []
  groupOrder : ∀ tag t (a : Address s (group tag t)), Keyed.keys (a.content c)
    = ((childrenOf (a.elements es) tag).filterMap (·.attribute? "Name")).eraseDups
  present : ∀ tag t (a : Address s (option tag t)),
    Option.isSome (a.content c) = true ↔ childrenOf (a.elements es) tag ≠ []

theorem childrenWith_ne_nil {es : List Element} {tag key value : String} :
    childrenWith es tag key value ≠ []
      ↔ value ∈ ((childrenOf es tag).filterMap (·.attribute? key)).eraseDups := by
  rw [List.mem_eraseDups, List.mem_filterMap, childrenWith, Ne, List.filter_eq_nil_iff]
  simp

theorem describes_of_total {s : Schema} {es : List Element} {c : s.Content} {b : Bool}
    (h : s.total es = some (c, b)) : s.Describes es c where
  stored kind a key := by
    obtain ⟨q, hq⟩ := a.total_elements h
    obtain ⟨hkeys, -, -, -⟩ := total_records_eq_some hq
    refine Keyed.contains_iff.trans ?_
    rw [hkeys]
    exact childrenWith_ne_nil.symm
  first kind a key e later hes := by
    obtain ⟨q, hq⟩ := a.total_elements h
    obtain ⟨-, hread, hget, -⟩ := total_records_eq_some hq
    have he : e ∈ a.records key es := by simp [hes]
    obtain ⟨r, hr⟩ := hread key e he
    have hhead : (childrenWith (a.elements es) kind.tag kind.keyName key).head? = some e :=
      congrArg List.head? hes
    refine ⟨r, hr, ?_⟩
    rw [hget, hhead, Option.bind_some, hr]
    rfl
  recordOrder kind a := by
    obtain ⟨q, hq⟩ := a.total_elements h
    exact (total_records_eq_some hq).1
  named tag t a name := by
    obtain ⟨q, hq⟩ := a.total_elements h
    obtain ⟨hkeys, -⟩ := total_group_eq_some hq
    refine Keyed.contains_iff.trans ?_
    rw [hkeys]
    exact childrenWith_ne_nil.symm
  groupOrder tag t a := by
    obtain ⟨q, hq⟩ := a.total_elements h
    exact (total_group_eq_some hq).1
  present tag t a := by
    obtain ⟨q, hq⟩ := a.total_elements h
    rcases total_option_eq_some hq with ⟨hes, hnone, -⟩ | ⟨hes, d, hsome, -⟩
    · rw [hnone, hes]
      simp
    · rw [hsome]
      simpa using hes

theorem not_agreeing_iff {s : Schema} {es : List Element} :
    ¬s.Agreeing es ↔ ∃ kind, ∃ a : Address s (records kind), ∃ key, ∃ d ∈ a.records key es,
      ∃ e ∈ a.records key es,
      ∃ name ∈ kind.required ++ kind.optional, d.attribute? name ≠ e.attribute? name := by
  simp only [Agreeing, Record.Same, not_forall, exists_prop, ne_eq]

end Exchange.Schema

namespace Resolution

theorem mergePlatforms_describes {roots : List Element}
    (h : ∀ root ∈ roots, Platform.Accepted root) :
    ∃ merged, mergePlatforms roots = .ok merged
      ∧ Schema.platform.Describes roots merged.value.content
      ∧ (merged.findings.errors ≠ 0 ↔ ∃ kind, ∃ a : Address Schema.platform (.records kind), ∃ key,
          ∃ d ∈ a.records key roots, ∃ e ∈ a.records key roots,
            ∃ name ∈ kind.required ++ kind.optional, d.attribute? name ≠ e.attribute? name) := by
  obtain ⟨merged, hmerged, -, htotal⟩ := exists_mergesTo h
  refine ⟨merged, hmerged, Schema.describes_of_total htotal, ?_⟩
  rw [← Schema.not_agreeing_iff, ← Schema.clean_total_iff htotal, Noted.clean_iff]

theorem mergePlatforms_describes_conflict :
    (∀ root ∈ [Platform.signalRoot "a", Platform.signalRoot "b"], Platform.Accepted root)
    ∧ ∃ merged, mergePlatforms [Platform.signalRoot "a", Platform.signalRoot "b"] = .ok merged
      ∧ merged.findings.errors ≠ 0 := by
  let roots := [Platform.signalRoot "a", Platform.signalRoot "b"]
  have h : ∀ root ∈ roots, Platform.Accepted root := by
    simp [roots, Platform.accepted_signalRoot]
  obtain ⟨merged, hmerged, -, herrors⟩ := mergePlatforms_describes h
  let place : Address Schema.platform (.records .discreteSignal) :=
    .first (.option (.second (.second (.second (.first (.part (.produced .here)))))))
  have hnames : (place.records "S" roots).map (·.attribute? "LocalName") = [some "a", some "b"] :=
    rfl
  have hfound : ∀ v ∈ [some "a", some "b"], ∃ d ∈ place.records "S" roots,
      d.attribute? "LocalName" = v :=
    fun v hv => List.mem_map.1 (hnames ▸ hv)
  obtain ⟨d, hd, ha⟩ := hfound (some "a") (by decide)
  obtain ⟨e, he, hb⟩ := hfound (some "b") (by decide)
  refine ⟨h, merged, hmerged,
    herrors.2 ⟨.discreteSignal, place, "S", d, hd, e, he, "LocalName", by decide, ?_⟩⟩
  rw [ha, hb]
  decide

end Resolution

end Avionics
