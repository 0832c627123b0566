import Avionics.Proofs.Exchange.Record
import Avionics.Proofs.Markup.Layout

namespace Avionics.Exchange

open Markup (Element Tag)

namespace Values

variable {α : Type} {names : List String}

@[simp] theorem map_fst_entries (v : Values α names) : v.entries.map Prod.fst = names := by
  induction v with
  | nil => rfl
  | cons a w ih => simp [entries, ih]

theorem collect_of_entries {f : String → Except Failure α} {v : Values α names}
    (h : ∀ e ∈ v.entries, f e.1 = .ok e.2) : collect f names = .ok v := by
  induction v with
  | nil => rfl
  | cons a w ih =>
    rw [entries, List.forall_mem_cons] at h
    exact collect_cons_eq_ok.2 ⟨a, w, h.1, ih h.2, rfl⟩

theorem ofNames_of_entries {f : String → α} {v : Values α names}
    (h : ∀ e ∈ v.entries, f e.1 = e.2) : ofNames f names = v := by
  induction v with
  | nil => rfl
  | cons a w ih =>
    rw [entries, List.forall_mem_cons] at h
    rw [ofNames, h.1, ih h.2]

end Values

namespace Record

variable {kind : RecordKind}

theorem present_some (name value : String) : present (name, some value) = some (name, value) := rfl

@[simp] theorem mem_filterMap_present {es : List (String × Option String)} {name value : String} :
    (name, value) ∈ es.filterMap present ↔ (name, some value) ∈ es := by
  induction es with
  | nil => simp
  | cons e es ih =>
    rcases e with ⟨n, _ | v⟩
    · rw [List.filterMap_cons_none rfl, ih]
      simp
    · rw [List.filterMap_cons_some (present_some n v), List.mem_cons, ih]
      simp

theorem sublist_names_present (es : List (String × Option String)) :
    ((es.filterMap present).map Prod.fst).Sublist (es.map Prod.fst) := by
  induction es with
  | nil => exact .slnil
  | cons e es ih =>
    rcases e with ⟨n, _ | v⟩
    · rw [List.filterMap_cons_none rfl]
      exact ih.cons n
    · rw [List.filterMap_cons_some (present_some n v)]
      exact ih.cons_cons n

theorem sublist_names_attributes (r : Record kind) :
    (r.attributes.map Prod.fst).Sublist (kind.required ++ kind.optional) := by
  have hoptional := sublist_names_present r.optional.entries
  rw [Values.map_fst_entries] at hoptional
  rw [attributes, List.map_append, Values.map_fst_entries]
  exact hoptional.append_left _

theorem entries_write (r : Record kind) : r.write.attributes.entries = r.attributes :=
  Keyed.entries_ofList (r.sublist_names_attributes.nodup kind.names_nodup)

theorem attribute?_write (r : Record kind) {name value : String} :
    r.write.attribute? name = some value ↔ (name, value) ∈ r.attributes := by
  rw [← entries_write]
  exact Keyed.get?_eq_some_iff

theorem absent_not_written {r : Record kind} {name value : String}
    (h : (name, none) ∈ r.optional.entries) : (name, value) ∉ r.attributes := by
  intro hv
  obtain ⟨-, hnodup, hdisjoint⟩ := List.nodup_append.1 kind.names_nodup
  have hname : name ∈ kind.optional := by
    rw [← Values.map_fst_entries r.optional]
    exact List.mem_map_of_mem h
  rcases List.mem_append.1 hv with hrequired | hoptional
  · refine hdisjoint name ?_ name hname rfl
    rw [← Values.map_fst_entries r.required]
    exact List.mem_map_of_mem hrequired
  · rw [← Values.map_fst_entries r.optional] at hnodup
    cases List.inj_on_of_nodup_map hnodup h (mem_filterMap_present.1 hoptional) rfl

theorem read_write (r : Record kind) : read kind r.write = .ok r := by
  have hrequired : ∀ e ∈ r.required.entries, r.write.required e.1 = .ok e.2 := by
    intro e he
    rw [Element.required_eq_ok, attribute?_write]
    exact List.mem_append_left _ he
  have hoptional : ∀ e ∈ r.optional.entries, r.write.attribute? e.1 = e.2 := by
    rintro ⟨name, _ | v⟩ he
    · rw [Option.eq_none_iff_forall_ne_some]
      intro v hv
      exact absent_not_written he ((attribute?_write r).1 hv)
    · rw [attribute?_write]
      exact List.mem_append_right _ (mem_filterMap_present.2 he)
  exact read_eq_ok.2 ⟨Values.collect_of_entries hrequired,
    (Values.ofNames_of_entries hoptional).symm⟩

theorem wellNamed_write (r : Record kind) : r.write.WellNamed := by
  have hkind : Markup.isElementName kind.tag = true ∧ ∀ name ∈ kind.required ++ kind.optional,
      Markup.isName name = true := by
    cases kind <;> decide
  refine .mk ⟨hkind.1, fun key hkey => hkind.2 key ?_⟩ (by simp)
  have hkeys : r.tag.attributes.keys = r.attributes.map Prod.fst :=
    congrArg (List.map Prod.fst) r.entries_write
  rw [hkeys] at hkey
  exact r.sublist_names_attributes.subset hkey

theorem bare_write (r : Record kind) : r.write.Bare := .mk (by simp)

end Record

end Avionics.Exchange
