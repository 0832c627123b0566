import Avionics.Proofs.Markup.RoundTrip
import Mathlib.Data.List.TakeWhile

namespace Avionics.Markup

structure Stripped (raw kept : List Char) : Prop where
  split : ∃ before after, raw = before ++ kept ++ after ∧ ∀ c ∈ before ++ after, isSpace c = true
  ends : ∀ c, c ∈ kept.head? ∨ c ∈ kept.getLast? → isSpace c = false

/-- An absent text counts as an empty one, and an empty one is not kept. -/
structure SlotStripped (slot kept : Option String) : Prop where
  content : Stripped (slot.getD "").toList (kept.getD "").toList
  nonempty : kept ≠ some ""

namespace Element

/-- The same tags in the same places, with every text and every tail stripped. -/
inductive Trims : Element → Element → Prop
  | mk {tag : Tag} {children children' : List Element} {text text' tail tail' : Option String} :
      List.Forall₂ Trims children children' → SlotStripped text text' → SlotStripped tail tail' →
      Trims ⟨tag, children, text, tail⟩ ⟨tag, children', text', tail'⟩

end Element

theorem isSpace_of_mem_head?_dropWhile {s : List Char} {c : Char}
    (h : c ∈ (s.dropWhile isSpace).head?) : isSpace c = false := by
  have hnot := List.head?_dropWhile_not isSpace s
  rw [Option.mem_def.1 h] at hnot
  exact hnot

theorem stripped_trim (s : List Char) : Stripped s (Reader.trim s) := by
  let rest := s.dropWhile isSpace
  let after := (rest.reverse.takeWhile isSpace).reverse
  have hrest : rest = Reader.trim s ++ after := by
    rw [Reader.trim, ← List.reverse_append, List.takeWhile_append_dropWhile, List.reverse_reverse]
  refine ⟨⟨s.takeWhile isSpace, after, ?_, ?_⟩, ?_⟩
  · rw [List.append_assoc, ← hrest, List.takeWhile_append_dropWhile]
  · intro c hc
    rcases List.mem_append.1 hc with hc | hc
    · exact List.mem_takeWhile_imp hc
    · exact List.mem_takeWhile_imp (List.mem_reverse.1 hc)
  · rintro c (hc | hc)
    · refine isSpace_of_mem_head?_dropWhile (s := s) ?_
      show c ∈ rest.head?
      rw [hrest]
      exact List.mem_head?_append_of_mem_head? hc
    · rw [Reader.trim, List.getLast?_reverse] at hc
      exact isSpace_of_mem_head?_dropWhile hc

theorem slotStripped_trimSlot (slot : Option String) : SlotStripped slot (trimSlot slot) := by
  have hstripped := stripped_trim (slot.getD "").toList
  rw [trimSlot]
  cases h : Reader.trim (slot.getD "").toList with
  | nil => exact ⟨by rwa [h] at hstripped, by simp⟩
  | cons c cs =>
    refine ⟨?_, by simp⟩
    rwa [h, ← String.toList_ofList (l := c :: cs)] at hstripped

namespace Element

mutual

theorem trims_trimmed : ∀ e : Element, Trims e e.trimmed
  | ⟨_, children, text, tail⟩ =>
    .mk (forall₂_trimmedAll children) (slotStripped_trimSlot text) (slotStripped_trimSlot tail)

theorem forall₂_trimmedAll : ∀ es : List Element, List.Forall₂ Trims es (trimmedAll es)
  | [] => .nil
  | e :: es => .cons (trims_trimmed e) (forall₂_trimmedAll es)

end

theorem parse_render_trims {e : Element} (h : e.WellNamed) :
    ∃ d, Trims e d ∧ parse e.render = .ok { d with tail := none } :=
  ⟨e.trimmed, e.trims_trimmed, parse_render_eq h⟩

theorem parse_render_trims_spaced :
    let child : Element := ⟨{ name := "b" }, [], some "\t", some " </b> \n"⟩
    let e : Element :=
      ⟨{ name := "a", attributes := .ofList [("key", " \"/> ")] }, [child],
        some " x & y ", some "z"⟩
    e.WellNamed ∧ ∃ d, Trims e d ∧ parse e.render = .ok { d with tail := none } := by
  intro child e
  have hchild : child.WellNamed := .mk ⟨by decide, by decide⟩ (by simp)
  have he : e.WellNamed := .mk ⟨by decide, by decide⟩ (by simpa using hchild)
  exact ⟨he, parse_render_trims he⟩

end Element

end Avionics.Markup
