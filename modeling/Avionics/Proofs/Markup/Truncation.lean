import Avionics.Proofs.Markup.RoundTrip

/-! A written document that was cut off is not read.  A `>` is written at the ends of tags only,
so a cut text is a text up to some tag and then the beginning of the next item.  Behind the tag
there is no root yet, and no item becomes the root before its own `>`. -/

namespace Avionics.Markup

section Prefixes

variable {s t q : List Char}

theorem prefix_or_exists_of_prefix_append (hq : q.getLast? = some '>') (h : q <+: s ++ t) :
    q <+: s ∨ ∃ r, q = s ++ r ∧ r <+: t ∧ r.getLast? = some '>' := by
  obtain hp | ⟨r, rfl⟩ := List.prefix_or_prefix_of_prefix h (List.prefix_append s t)
  · exact .inl hp
  · rcases List.eq_nil_or_concat r with rfl | ⟨r, c, rfl⟩
    · exact .inl (by simp)
    · exact .inr ⟨_, rfl, (List.prefix_append_right_inj s).1 h, by
        simpa [List.getLast?_append] using hq⟩

theorem exists_of_prefix_append (hs : '>' ∉ s) (hq : q.getLast? = some '>') (h : q <+: s ++ t) :
    ∃ r, q = s ++ r ∧ r <+: t ∧ r.getLast? = some '>' :=
  (prefix_or_exists_of_prefix_append hq h).resolve_left fun hp =>
    hs (hp.subset (List.mem_of_getLast? hq))

theorem eq_or_exists_of_prefix_cons (hs : '>' ∉ s) (hq : q.getLast? = some '>')
    (h : q <+: s ++ '>' :: t) :
    q = s ++ ['>'] ∨ ∃ r, q = s ++ ['>'] ++ r ∧ r <+: t ∧ r.getLast? = some '>' := by
  obtain ⟨r, rfl, hr, hlast⟩ := exists_of_prefix_append hs hq h
  obtain rfl | ⟨cs, rfl, hp⟩ := List.prefix_cons_iff.1 hr
  · cases hlast
  · rcases cs with _ | ⟨c, cs⟩
    · exact .inl rfl
    · exact .inr ⟨c :: cs, by simp, hp, by simpa using hlast⟩

theorem eq_of_prefix_cons (hs : '>' ∉ s) (ht : '>' ∉ t) (hq : q.getLast? = some '>')
    (h : q <+: s ++ '>' :: t) : q = s ++ ['>'] := by
  obtain h | ⟨r, -, hr, hlast⟩ := eq_or_exists_of_prefix_cons hs hq h
  · exact h
  · exact absurd (hr.subset (List.mem_of_getLast? hlast)) ht

theorem exists_split (s : List Char) :
    '>' ∉ s ∨ ∃ q r, s = q ++ r ∧ q.getLast? = some '>' ∧ '>' ∉ r := by
  induction s using List.reverseRecOn with
  | nil => exact .inl List.not_mem_nil
  | append_singleton s c ih =>
    by_cases hc : c = '>'
    · exact .inr ⟨s ++ [c], [], by simp, by simp [hc], List.not_mem_nil⟩
    obtain hs | ⟨q, r, rfl, hq, hr⟩ := ih
    · exact .inl (by simp [hs, Ne.symm hc])
    · exact .inr ⟨q, r ++ [c], by simp, hq, by simp [hr, Ne.symm hc]⟩

end Prefixes

theorem gt_not_mem_name {s : String} (h : isName s = true) : '>' ∉ s.toList := fun hm =>
  isNameChar_ne ((isName_iff.1 h).2 _ hm) (by simp) rfl

theorem gt_not_mem_printTag {t : Tag} (h : t.WellNamed) : '>' ∉ printTag t := by
  rw [printTag, List.mem_append, List.mem_flatMap]
  rintro (hm | ⟨a, ha, hm⟩)
  · exact gt_not_mem_name (isName_of_isElementName h.name) hm
  · have hkey := gt_not_mem_name (h.keys _ (List.mem_map_of_mem ha))
    have hvalue : '>' ∉ escape a.2.toList := not_mem_escape (by simp)
    simp [printAttribute, hkey, hvalue] at hm

namespace Element

/-- `e.OpenAfter q name`: the written form of `e` starts with `q`, which ends behind a tag, and
of the elements whose start tags are in `q` without their end tags the innermost one is `name`. -/
inductive OpenAfter : Element → List Char → String → Prop
  | start {t : Tag} {children : List Element} {text tail : Option String} :
      children ≠ [] ∨ text ≠ none → OpenAfter ⟨t, children, text, tail⟩ (printStart t) t.name
  | inside {t : Tag} {before after : List Element} {c : Element} {text tail : Option String}
      {q : List Char}
      {name : String} :
      OpenAfter c q name → OpenAfter ⟨t, before ++ c :: after, text, tail⟩
        (printOpened t text before ++ q) name
  | ended {t : Tag} {before after : List Element} {c : Element} {text tail : Option String} :
      OpenAfter ⟨t, before ++ c :: after, text, tail⟩
        (printOpened t text before ++ c.withoutTail.print) t.name

theorem print_withoutTail_of_empty (t : Tag) (tail : Option String) :
    (withoutTail ⟨t, [], none, tail⟩).print = ('<' :: (printTag t ++ ['/'])) ++ ['>'] :=
  print_eq_of_empty t none

theorem print_withoutTail_of_full {t : Tag} {children : List Element} {text tail : Option String}
    (hne : children ≠ [] ∨ text ≠ none) : (withoutTail ⟨t, children, text, tail⟩).print
      = printOpened t text children ++ (('<' :: '/' :: t.name.toList) ++ ['>']) :=
  print_eq_of_full hne

theorem WellNamed.withoutTail {e : Element} (h : e.WellNamed) : e.withoutTail.WellNamed := by
  obtain ⟨ht, hcs⟩ := h
  exact ⟨ht, hcs⟩

theorem getLast?_print (e : Element) : e.withoutTail.print.getLast? = some '>' := by
  obtain ⟨t, children, text, tail⟩ := e
  by_cases hne : children = [] ∧ text = none
  · obtain ⟨rfl, rfl⟩ := hne
    rw [print_withoutTail_of_empty, List.getLast?_concat]
  · rw [print_withoutTail_of_full (not_and_or.1 hne), ← List.append_assoc, List.getLast?_concat]

theorem OpenAfter.getLast? {e : Element} {q : List Char} {name : String} (h : e.OpenAfter q name) :
    q.getLast? = some '>' := by
  induction h with
  | start => rw [printStart, ← List.cons_append, List.getLast?_concat]
  | inside _ ih => simp [List.getLast?_append, ih]
  | ended => simp [List.getLast?_append, getLast?_print]

/-- Behind every `>` that an element is written with, but for its tail, either an element is open
or the element has been written. -/
def CutsAtTags (e : Element) : Prop :=
  ∀ q, q <+: e.print → q.getLast? = some '>' → (∃ name, e.OpenAfter q name)
    ∨ q = e.withoutTail.print

theorem exists_of_prefix_printAll {es : List Element} (hes : ∀ e ∈ es, CutsAtTags e)
    {q rest : List Char} (hq : q.getLast? = some '>') (h : q <+: printAll es ++ rest) :
    (∃ before c after r, es = before ++ c :: after ∧ q = printAll before ++ r
        ∧ ((∃ name, OpenAfter c r name) ∨ r = c.withoutTail.print))
      ∨ ∃ r, q = printAll es ++ r ∧ r <+: rest ∧ r.getLast? = some '>' := by
  induction es generalizing q with
  | nil => exact .inr ⟨q, rfl, h, hq⟩
  | cons e es ih =>
    obtain ⟨he, hes⟩ := List.forall_mem_cons.1 hes
    rw [printAll, List.append_assoc] at h
    obtain hp | ⟨r, rfl, hr, hlast⟩ := prefix_or_exists_of_prefix_append hq h
    · exact .inl ⟨[], e, es, q, rfl, rfl, he q hp hq⟩
    · obtain ⟨before, c, after, r, rfl, rfl, hc⟩ | ⟨r, rfl, hr, hlast⟩ := ih hes hlast hr
      · exact .inl ⟨e :: before, c, after, r, rfl, by simp [printAll], hc⟩
      · exact .inr ⟨r, by simp [printAll], hr, hlast⟩

theorem cutsAtTags {e : Element} (h : e.WellNamed) : CutsAtTags e := by
  induction h with
  | @mk t children text tail ht _ ih =>
    intro q hp hq
    have htag := gt_not_mem_printTag ht
    have hname := gt_not_mem_name (isName_of_isElementName ht.name)
    by_cases hne : children = [] ∧ text = none
    · obtain ⟨rfl, rfl⟩ := hne
      rw [print_eq_of_empty] at hp
      rw [print_withoutTail_of_empty]
      exact .inr (eq_of_prefix_cons (by simp [htag]) (not_mem_printSlot (by simp) tail) hq hp)
    · have hfull := not_and_or.1 hne
      have hsplit : print ⟨t, children, text, tail⟩ = ('<' :: printTag t) ++ '>' :: (printSlot text
          ++ (printAll children ++ (('<' :: '/' :: t.name.toList) ++ '>' :: printSlot tail))) := by
        simp [print_eq_of_full hfull, printOpened, printStart]
      rw [hsplit] at hp
      -- The last tag is the start tag, one of a child, or the end tag.
      obtain rfl | ⟨r, rfl, hr, hlast⟩ := eq_or_exists_of_prefix_cons (by simp [htag]) hq hp
      · exact .inl ⟨t.name, .start hfull⟩
      obtain ⟨r, rfl, hr, hlast⟩ :=
        exists_of_prefix_append (not_mem_printSlot (by simp) text) hlast hr
      obtain ⟨before, c, after, r, rfl, rfl, ⟨name, hc⟩ | rfl⟩ | ⟨r, rfl, hr, hlast⟩ :=
        exists_of_prefix_printAll ih hlast hr
      · exact .inl ⟨name, by simpa [printOpened, printStart] using OpenAfter.inside (t := t) hc⟩
      · exact .inl ⟨t.name, by simpa [printOpened,
          printStart] using OpenAfter.ended (t := t) (c := c)⟩
      · rw [print_withoutTail_of_full hfull,
          eq_of_prefix_cons (by simp [hname]) (not_mem_printSlot (by simp) tail) hlast hr]
        simp [printOpened, printStart]

theorem exists_openAfter {e : Element} (he : e.WellNamed) (htail : e.tail = none) {q : List Char}
    (hq : q <+: e.print)
    (hne : q ≠ e.print) (hlast : q.getLast? = some '>') : ∃ name, e.OpenAfter q name := by
  have hwhole : e.withoutTail = e := by
    cases e
    cases htail
    rfl
  refine (cutsAtTags he q hq hlast).resolve_right ?_
  rwa [hwhole]

end Element

def Builder.innermost? (b : Builder) : Option String := b.stack.head?.map (·.tag.name)

theorem Builder.root_addText (b : Builder) (s : String) : (b.addText s).root = b.root := by
  rw [addText]
  split <;> rfl

theorem Builder.root_flush (b : Builder) (slot : Option String) : (b.flush slot).root = b.root := by
  rw [flush]
  cases trimSlot slot with
  | none => rfl
  | some s => exact b.root_addText s

namespace Reader

section Root

variable {r r' : Reader} {b b' : Builder}

theorem root_addText {raw : List Char} (h : addText b raw = .ok b') : b'.root = b.root := by
  unfold addText at h
  split at h
  · cases h; rfl
  · split at h
    · cases h
      exact b.root_addText _
    · cases h

theorem root_of_stepTag {raw : List Char} {c : Char} (hc : c ≠ '>') (h : stepTag b raw c = .ok r) :
    r.builder = b := by
  unfold stepTag at h
  split at h
  · contradiction
  all_goals cases h; rfl

theorem root_of_step {c : Char} (hc : c ≠ '>') (h : step r c = .ok r') :
    r'.builder.root = r.builder.root := by
  obtain ⟨b, mode⟩ := r
  cases mode with
  | text raw =>
    simp only [step] at h
    split at h
    · obtain ⟨b', hb', hr'⟩ := bind_eq_ok.1 h
      cases hr'
      exact root_addText hb'
    · cases h; rfl
  | opened =>
    simp only [step] at h
    split at h
    · cases h; rfl
    · cases h; rfl
    · rw [root_of_stepTag hc h]
  | exclamation | instruction | comment | cdata | doctype =>
    simp only [step] at h
    split at h <;> first | contradiction | (cases h; rfl)
  | tag quote raw =>
    cases quote with
    | some quote => cases h; rfl
    | none =>
      simp only [step] at h
      rw [root_of_stepTag hc h]

theorem root_of_foldlM {s : List Char} (hs : '>' ∉ s) (h : s.foldlM step r = .ok r') :
    r'.builder.root = r.builder.root := by
  induction s generalizing r with
  | nil => cases h; rfl
  | cons c s ih =>
    rw [List.mem_cons, not_or] at hs
    rw [List.foldlM_cons] at h
    obtain ⟨r'', hstep, hrun⟩ := bind_eq_ok.1 h
    rw [ih hs.2 hrun, root_of_step (Ne.symm hs.1) hstep]

theorem root_of_finish {e : Element} (h : r.finish = .ok e) : r.builder.root = some e := by
  obtain ⟨b, mode⟩ := r
  cases mode with
  | text raw =>
    obtain ⟨b', hb', h⟩ := bind_eq_ok.1 h
    rw [← root_addText hb']
    unfold Builder.finish at h
    split at h
    · cases h
    · cases h; assumption
    · cases h
  | _ => cases h

theorem exists_error_of_root {s : List Char} (hs : '>' ∉ s) (hr : r.builder.root = none) :
    ∃ f, (s.foldlM step r >>= finish) = .error f := by
  cases h : s.foldlM step r >>= finish with
  | error f => exact ⟨f, rfl⟩
  | ok e =>
    obtain ⟨r', hrun, hfinish⟩ := bind_eq_ok.1 h
    rw [← root_of_foldlM hs hrun, root_of_finish hfinish] at hr
    cases hr

end Root

section Stack

variable {b : Builder} {name : String}

theorem attach_of_innermost (h : b.innermost? = some name) (e : Element) :
    (b.attach e).root = b.root ∧ (b.attach e).innermost? = some name := by
  obtain ⟨root, stack⟩ := b
  cases stack with
  | nil => cases h
  | cons f fs => exact ⟨rfl, h⟩

theorem finish_of_innermost (h : b.innermost? = some name) :
    finish ⟨b, .text []⟩ = .error (.unbalanced name) := by
  obtain ⟨root, stack⟩ := b
  cases stack with
  | nil => cases h
  | cons f fs =>
    cases h
    rfl

end Stack

theorem foldlM_before {t : Tag} {before after : List Element} {c : Element}
    {text tail : Option String}
    (he : Element.WellNamed ⟨t, before ++ c :: after, text, tail⟩) (b : Builder)
    (slot : Option String) :
    ∃ b' slot', (Element.printOpened t text before).foldlM step ⟨b, .text (printSlot slot).reverse⟩
        = .ok ⟨b', .text (printSlot slot').reverse⟩
      ∧ (Builder.flush b' slot').root = b.root ∧ (Builder.flush b' slot').innermost? = some t.name
        ∧ c.WellNamed := by
  obtain ⟨ht, hcs⟩ := he
  have hbefore : ∀ d ∈ before, Reads d := fun d hd => reads (hcs d (by simp [hd]))
  obtain ⟨b', slot', hrun, hb'⟩ := foldlM_printOpened ht hbefore text b slot
  refine ⟨b', slot', hrun, ?_, ?_, hcs c (by simp)⟩
  · rw [hb']
    exact b.root_flush slot
  · rw [hb']
    rfl

theorem foldlM_openAfter {e : Element} {q : List Char} {name : String} (h : e.OpenAfter q name)
    (he : e.WellNamed) (b : Builder) (slot : Option String) :
    ∃ b', q.foldlM step ⟨b, .text (printSlot slot).reverse⟩ = .ok ⟨b', .text []⟩
      ∧ b'.root = b.root ∧ b'.innermost? = some name := by
  induction h generalizing b slot with
  | start _ =>
    obtain ⟨ht, -⟩ := he
    exact ⟨_, foldlM_printStart ht b slot, b.root_flush slot, rfl⟩
  | inside _ ih =>
    obtain ⟨b₁, slot₁, hrun, hroot, -, hc⟩ := foldlM_before he b slot
    obtain ⟨b₂, hq, hb₂, hname⟩ := ih hc b₁ slot₁
    rw [Builder.root_flush] at hroot
    exact ⟨b₂, by rw [foldlM_append_of_ok hrun, hq], hb₂.trans hroot, hname⟩
  | @ended _ _ _ c =>
    obtain ⟨b₁, slot₁, hrun, hroot, hname, hc⟩ := foldlM_before he b slot
    obtain ⟨hroot', hname'⟩ := attach_of_innermost hname c.withoutTail.trimmed.withoutTail
    refine ⟨_, ?_, hroot'.trans hroot, hname'⟩
    rw [foldlM_append_of_ok hrun, reads hc.withoutTail b₁ slot₁]
    rfl

theorem foldlM_document {e : Element} (he : e.WellNamed) {q : List Char} {name : String}
    (h : e.OpenAfter q name) :
    ∃ b, (declaration ++ q).foldlM step {} = .ok ⟨b, .text []⟩ ∧ b.root = none
      ∧ b.innermost? = some name := by
  obtain ⟨b, hq, hroot, hname⟩ := foldlM_openAfter h he {} (some "\n")
  exact ⟨b, by rw [foldlM_append_of_ok foldlM_declaration, hq], hroot, hname⟩

theorem run_openAfter {e : Element} (he : e.WellNamed) {q : List Char} {name : String}
    (h : e.OpenAfter q name) : run (declaration ++ q) = .error (.unbalanced name) := by
  obtain ⟨b, hrun, -, hname⟩ := foldlM_document he h
  rw [run, hrun]
  exact finish_of_innermost hname

theorem exists_run_error {e : Element} (he : e.WellNamed) (htail : e.tail = none) {p : List Char}
    (hp : p <+: declaration ++ e.print) (hne : p ≠ declaration ++ e.print) :
    ∃ f, run p = .error f := by
  have hdeclaration : declaration = declaration.dropLast.dropLast ++ '>' :: ['\n'] := by decide
  obtain hs | ⟨q, s, rfl, hq, hs⟩ := exists_split p
  · exact exists_error_of_root hs rfl
  obtain hq' | ⟨q, rfl, hq', hlast⟩ :=
    prefix_or_exists_of_prefix_append hq ((List.prefix_append q s).trans hp)
  · -- The last tag is the declaration.
    rw [hdeclaration] at hq'
    rw [eq_of_prefix_cons (by decide) (by decide) hq hq', run,
      foldlM_append_of_ok (t := ⟨{}, .text []⟩) rfl]
    exact exists_error_of_root hs rfl
  · have hq'' : q ≠ e.print := by
      rintro rfl
      exact hne (hp.eq_of_length_le (by simp))
    obtain ⟨name, hopen⟩ := Element.exists_openAfter he htail hq' hq'' hlast
    obtain ⟨b, hrun, hroot, -⟩ := foldlM_document he hopen
    rw [run, foldlM_append_of_ok hrun]
    exact exists_error_of_root hs hroot

end Reader

namespace Element

/-- The beginning of a document is read only if it is the whole.  Where it ends behind a tag
inside of the root, the reader misses the end tag of the innermost open element. -/
theorem parse_truncated {e : Element} (he : e.WellNamed) (htail : e.tail = none) {s rest : String}
    (hsplit : e.render = s ++ rest) :
    ((∃ f, parse s = .error f) ↔ rest ≠ "") ∧ ∀ q, s.toList = declaration ++ q →
      (rest ≠ "" ∧ q.getLast? = some '>' ↔ ∃ name, e.OpenAfter q name)
      ∧ ∀ name, e.OpenAfter q name → parse s = .error (.unbalanced name) := by
  have hprint : declaration ++ e.print = s.toList ++ rest.toList := by
    rw [← String.toList_append, ← hsplit, render, String.toList_ofList]
  have hp : s.toList <+: declaration ++ e.print := hprint ▸ List.prefix_append _ _
  have hne : rest ≠ "" → s.toList ≠ declaration ++ e.print := by
    rw [hprint]
    simp
  have herror : (∃ f, parse s = .error f) ↔ rest ≠ "" := by
    constructor
    · rintro ⟨f, hf⟩ rfl
      rw [String.append_empty] at hsplit
      rw [← hsplit, parse_render_eq he] at hf
      cases hf
    · intro hrest
      rw [parse_eq_run hp]
      exact Reader.exists_run_error he htail hp (hne hrest)
  refine ⟨herror, fun q hq => ?_⟩
  have hopen : ∀ name, e.OpenAfter q name → parse s = .error (.unbalanced name) := by
    intro name h
    rw [parse_eq_run hp, hq, Reader.run_openAfter he h]
  refine ⟨⟨?_, ?_⟩, hopen⟩
  · rintro ⟨hrest, hlast⟩
    rw [hq] at hp hne
    exact exists_openAfter he htail ((List.prefix_append_right_inj _).1 hp)
      (fun h => hne hrest (by rw [h])) hlast
  · rintro ⟨name, h⟩
    exact ⟨herror.1 ⟨_, hopen name h⟩, h.getLast?⟩

theorem parse_truncated_behind_tag :
    let child : Element := ⟨{ name := "b" }, [], some "t", none⟩
    let e : Element := ⟨{ name := "a" }, [child], none, none⟩
    let s := String.ofList (declaration ++ "<a><b>".toList)
    e.WellNamed ∧ e.tail = none ∧ e.render = s ++ "t</b></a>"
      ∧ parse s = .error (.unbalanced "b") := by
  intro child e s
  have hchild : child.WellNamed := .mk ⟨by decide, by decide⟩ (by simp)
  have he : e.WellNamed := .mk ⟨by decide, by decide⟩ (by simpa using hchild)
  have hsplit : e.render = s ++ "t</b></a>" := by decide
  have hopen : e.OpenAfter "<a><b>".toList "b" :=
    @OpenAfter.inside { name := "a" } [] [] child none none _ _ (.start (.inr (by simp)))
  have hcut := (parse_truncated he rfl hsplit).2 _ (String.toList_ofList ..)
  exact ⟨he, rfl, hsplit, hcut.2 "b" hopen⟩

end Element

end Avionics.Markup
