import Avionics.Proofs.Markup.Indentation
import Avionics.Proofs.Markup.RoundTrip
import Mathlib.Data.List.TakeWhile

namespace Avionics.Markup

theorem trim_of_all_isSpace {s : List Char} (h : ∀ c ∈ s, isSpace c = true) :
    Reader.trim s = [] := by
  have hdrop : s.dropWhile isSpace = [] := List.dropWhile_eq_nil_iff.2 h
  simp [Reader.trim, hdrop]

@[simp] theorem trimSlot_none : trimSlot none = none := rfl

theorem trimSlot_margin (depth : Nat) : trimSlot (some (margin depth)) = none := by
  have hall : ∀ c ∈ (margin depth).toList, isSpace c = true := by
    intro c hc
    rcases eq_of_mem_margin hc with rfl | rfl <;> rfl
  rw [trimSlot, Option.getD_some, trim_of_all_isSpace hall]

@[simp] theorem trimSlot_fill_none (depth : Nat) : trimSlot (fill depth none) = none :=
  trimSlot_margin depth

namespace Element

inductive Bare : Element → Prop
  | mk {tag : Tag} {children : List Element} : (∀ c ∈ children, Bare c) →
      Bare ⟨tag, children, none, none⟩

theorem Bare.trimmed_eq {e : Element} (h : e.Bare) : e.trimmed = e := by
  induction h with
  | @mk tag children _ ih =>
    have hmap : children.map trimmed = children :=
      (List.map_congr_left ih).trans (List.map_id children)
    simp [trimmed, hmap]

theorem map_layoutAll {β : Type} {f : Element → β} {g : Element → β} {es : List Element}
    (h : ∀ e ∈ es, ∀ depth next, f (layout depth next e) = g e) (depth : Nat) :
    (layoutAll depth es).map f = es.map g := by
  induction es with
  | nil => rfl
  | cons e es ih =>
    obtain ⟨he, hes⟩ := List.forall_mem_cons.1 h
    cases es with
    | nil => simp [layoutAll, he]
    | cons e' es => rw [layoutAll, List.map_cons, List.map_cons, he, ih hes]

theorem Bare.trimmed_layout {e : Element} (h : e.Bare) (depth next : Nat) :
    (e.layout depth next).trimmed = e := by
  induction h generalizing depth next with
  | @mk tag children _ ih =>
    cases children with
    | nil => simp [layout, trimmed]
    | cons c cs =>
      have hmap := map_layoutAll (g := id) ih (depth + 1)
      simp only [layout, trimmed, trimmedAll_eq, hmap, List.map_id, trimSlot_fill_none]

theorem WellNamed.layout {e : Element} (h : e.WellNamed) (depth next : Nat) :
    (e.layout depth next).WellNamed := by
  induction h generalizing depth next with
  | @mk tag children text tail ht _ ih =>
    cases children with
    | nil => exact .mk ht (by simp)
    | cons c cs =>
      refine .mk ht fun d hd => ?_
      have hall := map_layoutAll (f := WellNamed) (g := fun _ => True)
        (fun e he depth next => eq_true (ih e he depth next)) (depth + 1)
      have hd' : d.WellNamed ∈ (layoutAll (depth + 1) (c :: cs)).map WellNamed :=
        List.mem_map_of_mem hd
      rw [hall] at hd'
      obtain ⟨-, -, ht⟩ := List.mem_map.1 hd'
      exact ht ▸ trivial

theorem withoutTail_of_bare {e : Element} (h : e.Bare) : e.withoutTail = e := by
  cases h
  rfl

theorem parse_render_indent {e : Element} (hw : e.WellNamed) (hb : e.Bare) :
    parse e.indent.render = .ok e := by
  rw [indent]
  split
  · rw [parse_render_eq hw, hb.trimmed_eq, withoutTail_of_bare hb]
  · rw [parse_render_eq (hw.layout 0 0), hb.trimmed_layout, withoutTail_of_bare hb]

end Element

end Avionics.Markup
