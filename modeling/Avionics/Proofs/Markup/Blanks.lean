import Avionics.Proofs.Markup.Layout
import Avionics.Proofs.Markup.Trimming

/-! Blank text is more to indentation than to a reader: the characters that a reader does not
trim are lost when blank slots are filled, and nothing else is. -/

namespace Avionics.Markup

/-- Blank text that a reader would not trim away. -/
def Visible (slot : Option String) : Prop :=
  ∃ s, slot = some s ∧ (∀ c ∈ s.toList, Text.isBlankChar c = true) ∧ ∃ c ∈ s.toList,
    isSpace c = false

theorem not_visible_none : ¬Visible none := by
  rintro ⟨s, h, -⟩
  cases h

theorem trim_eq_nil_iff {s : List Char} : Reader.trim s = [] ↔ ∀ c ∈ s, isSpace c = true := by
  refine ⟨fun h => ?_, trim_of_all_isSpace⟩
  obtain ⟨before, after, hsplit, hall⟩ := (stripped_trim s).split
  rw [h, List.append_nil] at hsplit
  exact hsplit ▸ hall

theorem trimSlot_eq_none_iff {slot : Option String} :
    trimSlot slot = none ↔ ∀ c ∈ (slot.getD "").toList, isSpace c = true := by
  rw [← trim_eq_nil_iff, trimSlot]
  cases Reader.trim (slot.getD "").toList with
  | nil => exact iff_of_true rfl rfl
  | cons c cs => exact iff_of_false (Option.some_ne_none _) (List.cons_ne_nil c cs)

theorem trimSlot_fill_eq_iff (depth : Nat) (slot : Option String) :
    trimSlot (fill depth slot) = trimSlot slot ↔ ¬Visible slot := by
  rw [fill]
  split
  · next hblank =>
    rw [trimSlot_margin, eq_comm, trimSlot_eq_none_iff]
    cases slot with
    | none => exact iff_of_true (List.forall_mem_nil _) not_visible_none
    | some s =>
      have hall : ∀ c ∈ s.toList, Text.isBlankChar c = true := List.all_eq_true.1 hblank
      constructor
      · rintro hspace ⟨_, ⟨⟩, -, c, hc, hvisible⟩
        rw [hspace c hc] at hvisible
        cases hvisible
      · intro hvisible c hc
        cases hspace : isSpace c with
        | true => rfl
        | false => exact absurd ⟨s, rfl, hall, c, hc, hspace⟩ hvisible
  · next hblank =>
    refine iff_of_true rfl ?_
    rintro ⟨s, rfl, hs, -⟩
    exact hblank (List.all_eq_true.2 hs)

namespace Element

def Plain (e : Element) : Prop := (e.children ≠ [] → ¬Visible e.text) ∧ ¬Visible e.tail

theorem map_trimmed_layoutAll_iff {P : Element → Prop} {es : List Element}
    (h : ∀ e ∈ es, ∀ depth next, (layout depth next e).trimmed = e.trimmed ↔ P e) (depth : Nat) :
    (layoutAll depth es).map trimmed = es.map trimmed ↔ ∀ e ∈ es, P e := by
  induction es with
  | nil => exact iff_of_true rfl (List.forall_mem_nil P)
  | cons e es ih =>
    obtain ⟨he, hes⟩ := List.forall_mem_cons.1 h
    rw [layoutAll_cons, List.map_cons, List.map_cons, List.cons.injEq, he, ih hes,
      List.forall_mem_cons]

section Parts

variable (e : Element)

theorem toTag_trimmed : e.trimmed.toTag = e.toTag := by
  cases e
  rfl

theorem children_trimmed : e.trimmed.children = e.children.map trimmed := by
  cases e
  exact trimmedAll_eq _

theorem text_trimmed : e.trimmed.text = trimSlot e.text := by
  cases e
  rfl

theorem tail_trimmed : e.trimmed.tail = trimSlot e.tail := by
  cases e
  rfl

end Parts

theorem trimSlot_text_layout_iff (e : Element) (depth next : Nat) :
    trimSlot (e.layout depth next).text = trimSlot e.text
      ↔ (e.children ≠ [] → ¬Visible e.text) := by
  rw [text_layout]
  by_cases he : e.children = []
  · rw [if_pos he]
    exact iff_of_true rfl fun h => absurd he h
  · rw [if_neg he, trimSlot_fill_eq_iff]
    exact ⟨fun h _ => h, fun h => h he⟩

theorem trimmed_layout_iff (e : Element) (depth next : Nat) :
    (e.layout depth next).trimmed = e.trimmed
      ↔ ∀ path c, e.descendant? path = some c → c.Plain := by
  induction e using induct generalizing depth next with
  | mk tag children text tail ih =>
    rw [forall_descendant_iff, forall_getElem?_iff, eq_iff_parts, toTag_trimmed, toTag_trimmed,
      toTag_layout, children_trimmed, children_trimmed, children_layout,
      map_trimmed_layoutAll_iff ih, text_trimmed, text_trimmed, trimSlot_text_layout_iff,
      tail_trimmed, tail_trimmed, tail_layout, trimSlot_fill_eq_iff, Plain]
    tauto

theorem withoutTail_eq_iff {d e : Element} :
    d.withoutTail = e.withoutTail ↔ d.toTag = e.toTag ∧ d.children = e.children
      ∧ d.text = e.text := by
  rw [eq_iff_parts]
  exact and_congr_right fun _ => and_congr_right fun _ => and_iff_left rfl

theorem withoutTail_trimmed_layout_iff (e : Element) (depth next : Nat) :
    (e.layout depth next).trimmed.withoutTail = e.trimmed.withoutTail
      ↔ (e.children ≠ [] → ¬Visible e.text)
      ∧ ∀ c ∈ e.children, ∀ path d, c.descendant? path = some d → d.Plain := by
  rw [withoutTail_eq_iff, toTag_trimmed, toTag_trimmed, toTag_layout, children_trimmed,
    children_trimmed, children_layout,
    map_trimmed_layoutAll_iff fun c _ => c.trimmed_layout_iff, text_trimmed, text_trimmed,
      trimSlot_text_layout_iff]
  exact (and_iff_right rfl).trans and_comm

theorem withoutTail_trimmed_indent_iff (e : Element) :
    e.indent.trimmed.withoutTail = e.trimmed.withoutTail ↔ (e.children ≠ [] → ¬Visible e.text)
      ∧ ∀ c ∈ e.children, ∀ path d, c.descendant? path = some d → d.Plain := by
  by_cases he : e.children = []
  · rw [indent_of_childless he, he]
    exact iff_of_true rfl ⟨fun h => absurd rfl h, List.forall_mem_nil _⟩
  · rw [indent_of_children he, withoutTail_trimmed_layout_iff]

theorem WellNamed.indent {e : Element} (h : e.WellNamed) : e.indent.WellNamed := by
  by_cases he : e.children = []
  · rwa [indent_of_childless he]
  · rw [indent_of_children he]
    exact h.layout 0 0

/-- An indented tree is read as the tree itself, unless blank text is lost in front of the
first child of an element or behind an element other than the root. -/
theorem parse_render_indent_iff {e : Element} (h : e.WellNamed) :
    parse e.indent.render = parse e.render
    ↔ ∀ path c, e.descendant? path = some c →
      (c.children ≠ [] → ¬Visible c.text) ∧ (path ≠ [] → ¬Visible c.tail) := by
  rw [parse_render_eq h, parse_render_eq h.indent, Except.ok.injEq, forall_descendant_iff,
    withoutTail_trimmed_indent_iff, ← forall_getElem?_iff]
  simp [Plain]

theorem parse_render_indent_iff_spaces :
    let e (space : String) : Element :=
  ⟨{ name := "a" }, [⟨{ name := "b" }, [], none, some space⟩], none, none⟩
    (∀ space, (e space).WellNamed) ∧ parse (e "\t").indent.render = parse (e "\t").render
      ∧ parse (e "\u00a0").indent.render ≠ parse (e "\u00a0").render := by
  intro e
  have hnamed : ∀ space, (e space).WellNamed := by
    intro space
    have hchild : WellNamed ⟨{ name := "b" }, [], none, some space⟩ :=
      .mk ⟨by decide, by decide⟩ (by simp)
    exact .mk ⟨by decide, by decide⟩ (by simpa using hchild)
  refine ⟨hnamed, (parse_render_indent_iff (hnamed "\t")).2 ?_, fun h => ?_⟩
  · have htab : ¬Visible (some "\t") := by simp [Visible, isSpace]
    rintro (_ | ⟨i, path⟩) c hc
    · cases hc
      exact ⟨fun _ => not_visible_none, fun hroot => absurd rfl hroot⟩
    · obtain ⟨child, hi, hc⟩ := Option.bind_eq_some_iff.1 hc
      cases List.mem_singleton.1 (List.mem_of_getElem? hi)
      cases path with
      | nil =>
        cases hc
        exact ⟨fun hchildren => absurd rfl hchildren, fun _ => htab⟩
      | cons j path => cases hc
  · have hspace : Visible (some "\u00a0") :=
      ⟨_, rfl, List.all_eq_true.1 (by decide), '\u00a0', by simp, by decide⟩
    exact ((parse_render_indent_iff (hnamed "\u00a0")).1 h [0] _ rfl).2
      (List.cons_ne_nil 0 []) hspace

end Element

end Avionics.Markup
