import Avionics.Markup.Element

namespace Avionics.Markup.Element

section Tags

variable {f g : Tag → Tag}

@[simp] theorem toTag_mapTags (f : Tag → Tag) (e : Element) : (e.mapTags f).toTag = f e.toTag := by
  cases e
  rfl

@[simp] theorem children_mapTags (f : Tag → Tag) (e : Element) :
    (e.mapTags f).children = e.children.map (mapTags f) := by
  cases e
  simp [mapTags]

theorem childrenNamed_mapTags {tag tag' : String} (h : ∀ t, (f t).name = tag' ↔ t.name = tag)
    (e : Element) :
    (e.mapTags f).childrenNamed tag' = (e.childrenNamed tag).map (mapTags f) := by
  rw [childrenNamed, childrenNamed, children_mapTags, List.filter_map]
  congr 1
  refine List.filter_congr fun c _ => ?_
  simp [named, h]

mutual

theorem mapTags_mapTags (f g : Tag → Tag) :
    ∀ e : Element, (e.mapTags f).mapTags g = e.mapTags (g ∘ f)
  | ⟨tag, children, text, tail⟩ =>
    by rw [mapTags, mapTags, mapTags, mapTagsAll_mapTagsAll f g children, Function.comp]

theorem mapTagsAll_mapTagsAll (f g : Tag → Tag) :
    ∀ es : List Element, mapTagsAll g (mapTagsAll f es) = mapTagsAll (g ∘ f) es
  | [] => rfl
  | e :: es =>
    by rw [mapTagsAll, mapTagsAll, mapTagsAll, mapTags_mapTags f g e, mapTagsAll_mapTagsAll f g es]

end

mutual

theorem mapTags_id : ∀ e : Element, e.mapTags id = e
  | ⟨tag, children, text, tail⟩ => by rw [mapTags, mapTagsAll_id children, id]

theorem mapTagsAll_id : ∀ es : List Element, mapTagsAll id es = es
  | [] => rfl
  | e :: es => by rw [mapTagsAll, mapTags_id e, mapTagsAll_id es]

end

theorem mapTags_mapTags_cancel (h : ∀ t, g (f t) = t) (e : Element) :
    (e.mapTags f).mapTags g = e := by
  have hid : g ∘ f = id := funext h
  rw [mapTags_mapTags, hid, mapTags_id]

end Tags

section Named

variable {f g : Element → Element} {tag : String} {e : Element}

theorem childrenNamed_mapNamed (hf : ∀ c, (f c).name = c.name) :
    (e.mapNamed tag f).childrenNamed tag = (e.childrenNamed tag).map f := by
  show (e.children.map _).filter _ = (e.children.filter _).map f
  induction e.children with
  | nil => rfl
  | cons c cs ih =>
    rw [List.map_cons, List.filter_cons, List.filter_cons, ih]
    by_cases hc : c.name = tag <;> simp [named, hc, hf]

theorem childrenNamed_mapNamed_ne (hf : ∀ c, (f c).name = c.name) {other : String}
    (hne : other ≠ tag) : (e.mapNamed tag f).childrenNamed other = e.childrenNamed other := by
  show (e.children.map _).filter _ = e.children.filter _
  induction e.children with
  | nil => rfl
  | cons c cs ih =>
    rw [List.map_cons, List.filter_cons, List.filter_cons, ih]
    by_cases hc : c.name = tag <;> simp [named, hc, hf, hne.symm]

theorem mapNamed_mapNamed (hf : ∀ c, (f c).name = c.name) :
    (e.mapNamed tag f).mapNamed tag g = e.mapNamed tag (g ∘ f) := by
  simp only [mapNamed, List.map_map]
  congr 1
  refine List.map_congr_left fun c _ => ?_
  by_cases hc : c.name = tag <;> simp [named, hc, hf]

end Named

end Avionics.Markup.Element
