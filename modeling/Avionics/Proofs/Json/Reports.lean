import Avionics.Proofs.Json.Parsing
import Avionics.Report
import Mathlib.Data.List.Basic

namespace Avionics

open Json (Value)

namespace Finding

def value (f : Finding) : Value :=
  .object (("kind", .scalar (.text f.kind)) :: f.fields.map fun m => (m.1, .scalar (.text m.2)))

theorem value_encodeFinding (f : Finding) : (Report.encodeFinding f).value = f.value := by
  rw [Report.encodeFinding, Json.value, Json.members_eq_map, value, List.map_cons, List.map_map]
  rfl

theorem eq_of_kind_fields {f g : Finding} (hkind : f.kind = g.kind) (hfields : f.fields = g.fields)
    : f = g := by
  cases f <;> cases g <;> simp_all [kind, fields]

theorem value_injective : Function.Injective value := by
  intro f g h
  obtain ⟨hkind, hfields⟩ := List.cons.inj (Value.object.inj h)
  have hmember : Function.Injective fun m : String × String => (m.1, Value.scalar (.text m.2)) := by
    rintro ⟨k, v⟩ ⟨k', v'⟩ hm
    cases hm
    rfl
  have htext := Value.scalar.inj (Prod.mk.inj hkind).2
  exact eq_of_kind_fields (Json.Scalar.text.inj htext) (List.map_injective_iff.2 hmember hfields)

theorem names_nodup (f : Finding) : ("kind" :: f.fields.map Prod.fst).Nodup := by
  cases f <;> simp [fields]

end Finding

namespace Report

def value (r : Report) : Value :=
  .object [("errors", .scalar (.number { coefficient := r.errors })),
    ("warnings", .scalar (.number { coefficient := r.warnings })),
      ("findings", .array (r.map Finding.value))]

theorem value_encode (r : Report) : r.encode.value = r.value := by
  have hfindings : (Json.array (r.map encodeFinding)).value = .array (r.map Finding.value) := by
    rw [Json.value, Json.values_eq_map, List.map_map]
    exact congrArg Value.array (List.map_congr_left fun f _ => f.value_encodeFinding)
  rw [value, ← hfindings]
  rfl

theorem decode_json (r : Report) : Json.decode r.json = some r.value := by
  rw [json, Json.decode_pretty, value_encode]

theorem value_injective : Function.Injective value := by
  intro r s h
  obtain ⟨-, hrest⟩ := List.cons.inj (Value.object.inj h)
  obtain ⟨-, hrest⟩ := List.cons.inj hrest
  obtain ⟨hfindings, -⟩ := List.cons.inj hrest
  exact List.map_injective_iff.2 Finding.value_injective (Value.array.inj (Prod.mk.inj hfindings).2)

theorem json_injective : Function.Injective json := by
  intro r s h
  have hvalue := congrArg Json.decode h
  rw [decode_json, decode_json] at hvalue
  exact value_injective (Option.some.inj hvalue)

/-- What is decoded from a report in JSON are its counts and, in their order, the kinds and
fields of its findings, and from this the report can be told. -/
theorem json_faithful :
    (∀ r : Report, Json.decode r.json = some (.object [
        ("errors", .scalar (.number { coefficient := r.errors })),
        ("warnings", .scalar (.number { coefficient := r.warnings })),
        ("findings", .array (r.map fun f =>
          .object (("kind", .scalar (.text f.kind)) :: f.fields.map fun m =>
            (m.1, .scalar (.text m.2)))))])
      ∧ r.errors = (r.filter Finding.isError).length
        ∧ r.warnings = (r.filter fun f => !f.isError).length
      ∧ r.errors + r.warnings = r.length)
    ∧ (∀ f : Finding, ("kind" :: f.fields.map Prod.fst).Nodup) ∧ Function.Injective json := by
  refine ⟨fun r => ⟨decode_json r, List.countP_eq_length_filter, r.warnings_eq, ?_⟩,
    Finding.names_nodup, json_injective⟩
  exact Nat.add_sub_cancel' r.errors_le_length

end Report

end Avionics
