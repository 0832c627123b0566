import Avionics.Proofs.Keyed.Lookup
import Avionics.Proofs.Markup.Attribute

namespace Avionics.Markup.Element

def only (e : Element) (keys : List String) (children : List Element) : Element where
  name := e.name
  attributes := e.attributes.only keys
  children := children

section Only

variable {key : String} {keys : List String} (h : key ∈ keys) (e : Element)
    (children : List Element)
include h

theorem attribute?_only : (e.only keys children).attribute? key = e.attribute? key :=
  Keyed.get?_only e.attributes h

theorem required_only : (e.only keys children).required key = e.required key := by
  rw [required, required, attribute?_only h]
  rfl

end Only

theorem named_iff {tag : String} {c : Element} : named tag c = true ↔ c.name = tag :=
  decide_eq_true_iff

def pick (c : Element) (tag : String) (f : Element → Element) : Option Element :=
  if c.name = tag then some (f c) else none

theorem pick_of_name {tag : String} {c : Element} (h : c.name = tag) (f : Element → Element) :
    c.pick tag f = some (f c) := if_pos h

theorem pick_of_ne {tag : String} {c : Element} (h : c.name ≠ tag) (f : Element → Element) :
    c.pick tag f = none := if_neg h

theorem name_of_pick {tag : String} {f : Element → Element} {c d : Element}
    (h : c.pick tag f = some d) (hf : ∀ c, (f c).name = c.name) : d.name = c.name := by
  rw [pick] at h
  split at h
  · cases h
    exact hf c
  · cases h

section Named

variable {keep : Element → Option Element} {tag : String} {f : Element → Element}

theorem filter_named_filterMap (hname : ∀ c d, keep c = some d → d.name = c.name) (tag : String)
    (cs : List Element) :
    (cs.filterMap keep).filter (named tag) = (cs.filter (named tag)).filterMap keep := by
  induction cs with
  | nil => rfl
  | cons c cs ih =>
    have hcons : (c :: cs).filter (named tag) = if named tag c then c :: cs.filter (named tag)
        else cs.filter (named tag) :=
      List.filter_cons
    cases hd : keep c with
    | none =>
      rw [List.filterMap_cons_none hd, ih, hcons]
      split
      · rw [List.filterMap_cons_none hd]
      · rfl
    | some d =>
      have hsame : named tag d = named tag c := by rw [named, named, hname c d hd]
      rw [List.filterMap_cons_some hd, List.filter_cons, hsame, ih, hcons]
      split
      · rw [List.filterMap_cons_some hd]
      · rfl

theorem filterMap_named (hkeep : ∀ c, c.name = tag → keep c = some (f c)) (cs : List Element) :
    (cs.filter (named tag)).filterMap keep = (cs.filter (named tag)).map f := by
  rw [← List.filterMap_eq_map]
  exact List.filterMap_congr fun c hc => hkeep c (named_iff.1 (List.of_mem_filter hc))

theorem filter_named_pick (hf : ∀ c, (f c).name = c.name) (tag : String) (cs : List Element) :
    (cs.filterMap (·.pick tag f)).filter (named tag) = (cs.filter (named tag)).map f :=
  (filter_named_filterMap (fun _ _ h => name_of_pick h hf) tag cs).trans
    (filterMap_named (fun _ h => pick_of_name h f) cs)

end Named

end Avionics.Markup.Element
