import Avionics.Markup.Layout
import Avionics.Proofs.Markup.Tree
import Mathlib.Data.List.Forall2
import Mathlib.Data.Option.Basic

namespace Avionics.Markup

section Slots

theorem eq_of_mem_margin {depth : Nat} {c : Char} (h : c ∈ (margin depth).toList) :
    c = '\n' ∨ c = ' ' := by
  simp only [margin, String.toList_ofList, List.mem_cons, List.mem_replicate] at h
  exact h.imp_right And.right

theorem isBlankSlot_margin (depth : Nat) : isBlankSlot (some (margin depth)) = true := by
  refine List.all_eq_true.2 fun c hc => ?_
  rcases eq_of_mem_margin hc with rfl | rfl <;> decide

theorem isBlankSlot_fill (depth : Nat) (slot : Option String) :
    isBlankSlot (fill depth slot) = isBlankSlot slot := by
  rw [fill]
  split
  · next h => rw [isBlankSlot_margin, h]
  · rfl

@[simp] theorem fill_fill (depth next : Nat) (slot : Option String) :
    fill depth (fill next slot) = fill depth slot := by
  rw [fill, isBlankSlot_fill, fill, fill]
  split <;> rfl

def AlikeSlots (s t : Option String) : Prop := s = t ∨ isBlankSlot s = true ∧ isBlankSlot t = true

theorem fill_eq_iff {depth : Nat} {s t : Option String} :
    fill depth s = fill depth t ↔ AlikeSlots s t := by
  constructor
  · intro h
    have hblank : isBlankSlot s = isBlankSlot t := by
      rw [← isBlankSlot_fill depth, h, isBlankSlot_fill]
    cases ht : isBlankSlot t with
    | true => exact .inr ⟨hblank.trans ht, ht⟩
    | false =>
      rw [fill, fill, hblank, ht] at h
      exact .inl h
  · rintro (rfl | ⟨hs, ht⟩)
    · rfl
    · rw [fill, fill, if_pos hs, if_pos ht]

theorem alikeSlots_fill (depth : Nat) (slot : Option String) : AlikeSlots (fill depth slot) slot :=
  fill_eq_iff.1 (fill_fill depth depth slot)

end Slots

namespace Element

theorem eq_iff_parts {d e : Element} :
    d = e ↔ d.toTag = e.toTag ∧ d.children = e.children ∧ d.text = e.text ∧ d.tail = e.tail := by
  cases d
  cases e
  rw [mk.injEq]

section Layout

variable (depth next : Nat) (e : Element)

@[simp] theorem layoutAll_nil : layoutAll depth [] = [] := by rw [layoutAll]

theorem layoutAll_cons (es : List Element) : layoutAll depth (e :: es)
    = layout depth (if es = [] then depth - 1 else depth) e :: layoutAll depth es := by
  cases es with
  | nil => rw [if_pos rfl]; rfl
  | cons e' es => rw [layoutAll, if_neg (List.cons_ne_nil e' es)]

theorem toTag_layout : (e.layout depth next).toTag = e.toTag := by
  rcases e with ⟨tag, _ | ⟨c, cs⟩, text, tail⟩ <;> rw [layout]

theorem children_layout : (e.layout depth next).children = layoutAll (depth + 1) e.children := by
  rcases e with ⟨tag, _ | ⟨c, cs⟩, text, tail⟩
  · rw [layout, layoutAll_nil]
  · rw [layout]

theorem text_layout :
    (e.layout depth next).text = if e.children = [] then e.text else fill (depth + 1) e.text := by
  rcases e with ⟨tag, _ | ⟨c, cs⟩, text, tail⟩
  · rw [layout, if_pos rfl]
  · rw [layout, if_neg (List.cons_ne_nil c cs)]

theorem tail_layout : (e.layout depth next).tail = fill next e.tail := by
  rcases e with ⟨tag, _ | ⟨c, cs⟩, text, tail⟩ <;> rw [layout]

theorem length_layoutAll (es : List Element) : (layoutAll depth es).length = es.length := by
  induction es with
  | nil => rw [layoutAll_nil]
  | cons e es ih => rw [layoutAll_cons, List.length_cons, ih, List.length_cons]

theorem layoutAll_eq_nil_iff {es : List Element} : layoutAll depth es = [] ↔ es = [] := by
  rw [← List.length_eq_zero_iff, length_layoutAll, List.length_eq_zero_iff]

theorem getElem?_layoutAll (es : List Element) (i : Nat) : (layoutAll depth es)[i]?
    = es[i]?.map (layout depth (if es[i + 1]?.isSome then depth else depth - 1)) := by
  induction es generalizing i with
  | nil => simp
  | cons e es ih =>
    rw [layoutAll_cons]
    cases i with
    | zero => cases es <;> simp
    | succ i => simpa using ih i

end Layout

section Descendants

theorem exists_descendant?_layout (e : Element) (depth next : Nat) (path : List Nat) : ∃ n,
    (e.layout depth next).descendant? path = (e.descendant? path).map
    (layout (depth + path.length) n) := by
  induction path generalizing e depth next with
  | nil => exact ⟨next, rfl⟩
  | cons i path ih =>
    rw [descendant?_cons, descendant?_cons, children_layout, getElem?_layoutAll]
    cases e.children[i]? with
    | none => exact ⟨next, rfl⟩
    | some c =>
      obtain ⟨n, hn⟩ := ih c (depth + 1) (if e.children[i + 1]?.isSome then depth + 1 else depth)
      refine ⟨n, ?_⟩
      have hdepth : depth + (i :: path).length = depth + 1 + path.length := by
        rw [List.length_cons]; omega
      rw [hdepth]
      exact hn

theorem descendant?_layout_concat (e : Element) (depth next : Nat) (path : List Nat) (i : Nat) :
    (e.layout depth next).descendant? (path ++ [i]) = (e.descendant? (path ++ [i])).map
      (layout (depth + path.length + 1)
        (if (e.descendant? (path ++ [i + 1])).isSome then depth + path.length + 1
          else depth + path.length)) := by
  obtain ⟨n, hn⟩ := e.exists_descendant?_layout depth next path
  rw [descendant?_concat, descendant?_concat, descendant?_concat, hn]
  cases e.descendant? path with
  | none => rfl
  | some c =>
    show (layout (depth + path.length) n c).children[i]? = c.children[i]?.map _
    rw [children_layout, getElem?_layoutAll]
    rfl

/-- What an element becomes that stands at `depth`: it keeps everything but blank slots.  Blank
text leads to the first child, a blank tail to the depth `next`, if that is given. -/
structure Indented (depth : Nat) (next : Option Nat) (c d : Element) : Prop where
  toTag : d.toTag = c.toTag
  children : d.children.length = c.children.length
  text : d.text =
    if c.children ≠ [] ∧ isBlankSlot c.text = true then some (margin (depth + 1)) else c.text
  tail : d.tail =
    next.elim c.tail fun n => if isBlankSlot c.tail = true then some (margin n) else c.tail

theorem indented_layout (c : Element) (depth next : Nat) :
    Indented depth (some next) c (c.layout depth next) where
  toTag := c.toTag_layout depth next
  children := by rw [children_layout, length_layoutAll]
  text := by
    rw [text_layout]
    by_cases hc : c.children = []
    · rw [if_pos hc, if_neg (fun h => h.1 hc)]
    · rw [if_neg hc, fill]
      simp only [hc, ne_eq, not_false_eq_true, true_and]
  tail := c.tail_layout depth next

theorem indented_of_childless {c : Element} (h : c.children = []) (depth : Nat) :
    Indented depth none c c where
  toTag := rfl
  children := rfl
  text := (if_neg fun hc => hc.1 h).symm
  tail := rfl

end Descendants

section Canonical

/-- Trees that are equal up to the content of blank slots; the text of an element without
children is not one of them. -/
inductive Alike : Element → Element → Prop
  | mk {tag : Tag} {children children' : List Element} {text text' tail tail' : Option String} :
      List.Forall₂ Alike children children' →
        (text = text' ∨ children ≠ [] ∧ AlikeSlots text text') →
      AlikeSlots tail tail' → Alike ⟨tag, children, text, tail⟩ ⟨tag, children', text', tail'⟩

theorem layoutAll_eq_iff {es : List Element}
    (h : ∀ e ∈ es, ∀ depth next f, layout depth next e = layout depth next f ↔ Alike e f)
    (depth : Nat)
    (fs : List Element) : layoutAll depth es = layoutAll depth fs ↔ List.Forall₂ Alike es fs := by
  induction es generalizing fs with
  | nil => rw [layoutAll_nil, eq_comm, layoutAll_eq_nil_iff, List.forall₂_nil_left_iff]
  | cons e es ih =>
    obtain ⟨he, hes⟩ := List.forall_mem_cons.1 h
    cases fs with
    | nil => rw [layoutAll_nil, layoutAll_eq_nil_iff, List.forall₂_nil_right_iff]
    | cons f fs =>
      rw [layoutAll_cons, layoutAll_cons, List.cons.injEq, ih hes, List.forall₂_cons]
      refine and_congr_left fun hall => ?_
      have hnil : es = [] ↔ fs = [] := by
        rw [← List.length_eq_zero_iff, ← List.length_eq_zero_iff, hall.length_eq]
      simp only [hnil]
      exact he depth _ f

theorem alike_iff {e f : Element} :
    Alike e f ↔ e.toTag = f.toTag ∧ List.Forall₂ Alike e.children f.children
    ∧ (e.text = f.text ∨ e.children ≠ [] ∧ AlikeSlots e.text f.text)
      ∧ AlikeSlots e.tail f.tail := by
  constructor
  · rintro ⟨hchildren, htext, htail⟩
    exact ⟨rfl, hchildren, htext, htail⟩
  · intro h
    obtain ⟨tag, children, text, tail⟩ := e
    obtain ⟨tag', children', text', tail'⟩ := f
    obtain ⟨rfl, hchildren, htext, htail⟩ := h
    exact .mk hchildren htext htail

theorem text_layout_eq_iff {e f : Element} (h : e.children = [] ↔ f.children = [])
    (depth next : Nat) :
    (layout depth next e).text = (layout depth next f).text
      ↔ e.text = f.text ∨ e.children ≠ [] ∧ AlikeSlots e.text f.text := by
  rw [text_layout, text_layout]
  by_cases he : e.children = []
  · rw [if_pos he, if_pos (h.1 he)]
    exact ⟨.inl, fun htext => htext.resolve_right fun hc => hc.1 he⟩
  · rw [if_neg he, if_neg (mt h.2 he), fill_eq_iff]
    refine ⟨fun htext => .inr ⟨he, htext⟩, ?_⟩
    rintro (htext | ⟨-, htext⟩)
    · exact .inl htext
    · exact htext

theorem layout_eq_iff (e : Element) (depth next : Nat) (f : Element) :
    layout depth next e = layout depth next f ↔ Alike e f := by
  induction e using induct generalizing depth next f with
  | mk tag children text tail ih =>
    rw [eq_iff_parts, toTag_layout, toTag_layout, children_layout, children_layout,
      layoutAll_eq_iff ih, tail_layout, tail_layout, fill_eq_iff, alike_iff]
    refine and_congr_right fun _ => and_congr_right fun hchildren => and_congr_left fun _ => ?_
    refine text_layout_eq_iff ?_ depth next
    rw [← List.length_eq_zero_iff, ← List.length_eq_zero_iff, hchildren.length_eq]

theorem forall₂_layoutAll {es : List Element}
    (h : ∀ e ∈ es, ∀ depth next, Alike (layout depth next e) e) (depth : Nat) :
    List.Forall₂ Alike (layoutAll depth es) es := by
  induction es with
  | nil => exact .nil
  | cons e es ih =>
    obtain ⟨he, hes⟩ := List.forall_mem_cons.1 h
    rw [layoutAll_cons]
    exact .cons (he depth _) (ih hes)

theorem alike_layout (e : Element) (depth next : Nat) : Alike (layout depth next e) e := by
  induction e using induct generalizing depth next with
  | mk tag children text tail ih =>
    rw [alike_iff, toTag_layout, children_layout, text_layout, tail_layout]
    refine ⟨rfl, forall₂_layoutAll ih _, ?_, alikeSlots_fill next tail⟩
    by_cases hc : children = []
    · exact .inl (if_pos hc)
    · rw [if_neg hc, ne_eq, layoutAll_eq_nil_iff]
      exact .inr ⟨hc, alikeSlots_fill _ text⟩

theorem indent_of_childless {e : Element} (h : e.children = []) : e.indent = e := by
  rw [indent, h]
  rfl

theorem indent_of_children {e : Element} (h : e.children ≠ []) : e.indent = e.layout 0 0 := by
  rw [indent, if_neg]
  rwa [List.isEmpty_iff]

theorem children_indent_eq_nil_iff {e : Element} : e.indent.children = [] ↔ e.children = [] := by
  by_cases he : e.children = []
  · rw [indent_of_childless he]
  · rw [indent_of_children he, children_layout, layoutAll_eq_nil_iff]

theorem indent_indent (e : Element) : e.indent.indent = e.indent := by
  by_cases he : e.children = []
  · rw [indent_of_childless he, indent_of_childless he]
  · rw [indent_of_children (mt children_indent_eq_nil_iff.1 he), indent_of_children he]
    exact (layout_eq_iff _ 0 0 e).2 (e.alike_layout 0 0)

theorem indent_eq_iff {e f : Element} :
    e.indent = f.indent ↔ Alike e f ∧ (e.children = [] → e.tail = f.tail) := by
  constructor
  · intro h
    have hnil : e.children = [] ↔ f.children = [] := by
      rw [← children_indent_eq_nil_iff, h, children_indent_eq_nil_iff]
    by_cases he : e.children = []
    · rw [indent_of_childless he, indent_of_childless (hnil.1 he)] at h
      subst h
      exact ⟨(layout_eq_iff e 0 0 e).1 rfl, fun _ => rfl⟩
    · rw [indent_of_children he, indent_of_children (mt hnil.2 he)] at h
      exact ⟨(layout_eq_iff e 0 0 f).1 h, fun hc => absurd hc he⟩
  · rintro ⟨halike, htail⟩
    obtain ⟨htag, hchildren, htext, -⟩ := alike_iff.1 halike
    have hnil : e.children = [] ↔ f.children = [] := by
      rw [← List.length_eq_zero_iff, ← List.length_eq_zero_iff, hchildren.length_eq]
    by_cases he : e.children = []
    · rw [indent_of_childless he, indent_of_childless (hnil.1 he), eq_iff_parts]
      exact ⟨htag, he.trans (hnil.1 he).symm, htext.resolve_right fun hc => hc.1 he, htail he⟩
    · rw [indent_of_children he, indent_of_children (mt hnil.2 he)]
      exact (layout_eq_iff e 0 0 f).2 halike

/-- Indentation of the root and of every other element of a tree, the path to which is as long
as the element is deep; to do it again changes nothing, and trees that differ in nothing but the
content of the blank slots become the same. -/
theorem indent_canonical (e : Element) :
    Indented 0 (if e.children = [] then none else some 0) e e.indent
    ∧ (∀ path i, Option.Rel
        (Indented (path.length + 1)
          (some (if (e.descendant? (path ++ [i + 1])).isSome then path.length + 1
            else path.length)))
        (e.descendant? (path ++ [i])) (e.indent.descendant? (path ++ [i])))
    ∧ e.indent.indent = e.indent
    ∧ ∀ f, e.indent = f.indent ↔ Alike e f ∧ (e.children = [] → e.tail = f.tail) := by
  refine ⟨?_, fun path i => ?_, e.indent_indent, fun f => indent_eq_iff⟩
  · by_cases he : e.children = []
    · rw [if_pos he, indent_of_childless he]
      exact indented_of_childless he 0
    · rw [if_neg he, indent_of_children he]
      exact e.indented_layout 0 0
  · by_cases he : e.children = []
    · have hnone : e.descendant? (path ++ [i]) = none := by
        cases path <;> simp [descendant?_cons, he]
      rw [indent_of_childless he, hnone]
      exact .none
    · have hlayout := e.descendant?_layout_concat 0 0 path i
      rw [indent_of_children he, hlayout, Nat.zero_add]
      cases e.descendant? (path ++ [i]) with
      | none => exact .none
      | some c => exact .some (c.indented_layout _ _)

end Canonical

end Element

end Avionics.Markup
