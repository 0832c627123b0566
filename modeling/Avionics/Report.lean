import Avionics.Finding
import Avionics.Json

namespace Avionics

abbrev Report := List Finding

namespace Report

def errors (r : Report) : Nat := r.countP Finding.isError

def warnings (r : Report) : Nat := r.length - r.errors

def line (f : Finding) : String := f.severity.name ++ " : " ++ f.message

def text (r : Report) : String := "\n".intercalate (r.map line)

def encodeFinding (f : Finding) : Json :=
  .object (("kind", .string f.kind) :: f.fields.map fun m => (m.1, .string m.2))

def encode (r : Report) : Json :=
  .object [("errors", .number r.errors), ("warnings", .number r.warnings),
    ("findings", .array (r.map encodeFinding))]

def json (r : Report) : String := r.encode.pretty

@[simp] theorem errors_nil : errors [] = 0 := rfl

@[simp] theorem errors_append (r s : Report) : errors (r ++ s) = errors r + errors s :=
  List.countP_append ..

theorem errors_le_length (r : Report) : r.errors ≤ r.length := List.countP_le_length ..

theorem warnings_eq (r : Report) : r.warnings = (r.filter fun f => !f.isError).length := by
  have h := List.length_eq_countP_add_countP Finding.isError (l := r)
  rw [warnings, errors, h, Nat.add_sub_cancel_left, List.countP_eq_length_filter]
  simp

end Report

end Avionics
