import Avionics.Markup.Element

namespace Avionics.Markup.Element

variable {e : Element} {key value : String}

theorem required_eq_ok : e.required key = .ok value ↔ e.attribute? key = some value := by
  rw [required]
  split
  · next h => simp [h]
  · next h => simp [h]

theorem toOption_required (e : Element) (key : String) :
    (e.required key).toOption = e.attribute? key := by
  rw [required]
  split <;> simp_all [Except.toOption]

theorem attribute?_set (e : Element) (key value k : String) :
    (e.set key value).attribute? k = if k = key then some value else e.attribute? k :=
  Keyed.get?_insert ..

theorem attribute?_setOptional (e : Element) (key : String) (value : Option String) (k : String) :
    (e.setOptional key value).attribute? k = if k = key then value.or (e.attribute? k)
      else e.attribute? k := by
  cases value with
  | none => exact (ite_self _).symm
  | some value => exact attribute?_set e key value k

theorem name_setOptional (e : Element) (key : String) (value : Option String) :
    (e.setOptional key value).name = e.name := by
  cases value <;> rfl

def Has (e : Element) (key : String) : Prop := ∃ value, e.attribute? key = some value

theorem exists_required_iff : (∃ value, e.required key = .ok value) ↔ e.Has key :=
  exists_congr fun _ => required_eq_ok

end Avionics.Markup.Element
