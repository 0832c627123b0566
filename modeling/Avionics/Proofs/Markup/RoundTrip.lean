import Avionics.Proofs.Markup.Tag

namespace Avionics.Markup

/-- What is left of a text or a tail once it was written and read. -/
def trimSlot (slot : Option String) : Option String :=
  match Reader.trim (slot.getD "").toList with
  | [] => none
  | cs => some (String.ofList cs)

theorem not_mem_printSlot {d : Char} (hd : d ∈ ['<', '>', '\'', '"']) (slot : Option String) :
    d ∉ printSlot slot := by
  cases slot with
  | none => exact List.not_mem_nil
  | some s => exact not_mem_escape hd

namespace Element

inductive WellNamed : Element → Prop
  | mk {tag : Tag} {children : List Element} {text tail : Option String} :
      tag.WellNamed → (∀ c ∈ children, WellNamed c) → WellNamed ⟨tag, children, text, tail⟩

mutual

def trimmed : Element → Element
  | ⟨tag, children, text, tail⟩ => ⟨tag, trimmedAll children, trimSlot text, trimSlot tail⟩

def trimmedAll : List Element → List Element
  | [] => []
  | e :: es => trimmed e :: trimmedAll es

end

@[simp] theorem trimmedAll_eq (es : List Element) : trimmedAll es = es.map trimmed := by
  induction es with
  | nil => rfl
  | cons e es ih => simp [trimmedAll, ih]

def withoutTail (e : Element) : Element := { e with tail := none }

def printStart (t : Tag) : List Char := '<' :: (printTag t ++ ['>'])

def printOpened (t : Tag) (text : Option String) (before : List Element) : List Char :=
  printStart t ++ (printSlot text ++ printAll before)

theorem print_eq_of_empty (t : Tag) (tail : Option String) :
    print ⟨t, [], none, tail⟩ = ('<' :: (printTag t ++ ['/'])) ++ '>' :: printSlot tail := by
  simp [print]

theorem print_eq_of_full {t : Tag} {children : List Element} {text tail : Option String}
    (hne : children ≠ [] ∨ text ≠ none) : print ⟨t, children, text, tail⟩
      = printOpened t text children
        ++ (('<' :: '/' :: t.name.toList) ++ '>' :: printSlot tail) := by
  rw [print]
  · simp [printOpened, printStart]
  · rintro rfl rfl
    simp at hne

end Element

def Builder.flush (b : Builder) (slot : Option String) : Builder := (trimSlot slot).elim b b.addText

theorem Builder.flush_of_stack (root : Option Element) (f : Frame) (fs : List Frame)
    (slot : Option String) :
    (⟨root, f :: fs⟩ : Builder).flush slot = ⟨root, (trimSlot slot).elim f f.addText :: fs⟩ := by
  rw [flush]
  cases trimSlot slot <;> rfl

theorem Builder.flush_openElement (b : Builder) (t : Tag) (slot : Option String) :
    (b.openElement t).flush slot = ⟨b.root, { tag := t, text := trimSlot slot } :: b.stack⟩ := by
  rw [openElement, flush_of_stack]
  cases trimSlot slot with
  | none => rfl
  | some s => simp [Frame.addText, Frame.appendSlot]

theorem Builder.flush_attach (root : Option Element) (f : Frame) (fs : List Frame) (e : Element) :
    ((⟨root, f :: fs⟩ : Builder).attach e.trimmed.withoutTail).flush e.tail
      = ⟨root, f.attach e.trimmed :: fs⟩ := by
  obtain ⟨tag, children, text, tail⟩ := e
  show (⟨root, f.attach _ :: fs⟩ : Builder).flush tail = _
  rw [flush_of_stack]
  cases h : trimSlot tail with
  | none => simp [Element.trimmed, Element.withoutTail, h]
  | some s =>
    simp [Element.trimmed, Element.withoutTail, h, Frame.attach, Frame.addText, Frame.appendSlot]

namespace Reader

theorem addText_printSlot (b : Builder) (slot : Option String) :
    addText b (printSlot slot).reverse = .ok (b.flush slot) := by
  have h : printSlot slot = escape (slot.getD "").toList := by cases slot <;> rfl
  rw [addText, List.reverse_reverse, h, trim_escape, Builder.flush, trimSlot]
  cases ht : trim (slot.getD "").toList with
  | nil => rfl
  | cons c cs =>
    obtain ⟨d, ds, hd⟩ :=
      List.exists_cons_of_ne_nil fun he => List.cons_ne_nil c cs (escape_eq_nil_iff.1 he)
    have hu := unescape_escape (c :: cs)
    rw [hd] at hu ⊢
    simp [hu]

section Steps

variable {b b' : Builder} {raw : List Char}

theorem step_open (h : addText b raw = .ok b') : step ⟨b, .text raw⟩ '<' = .ok ⟨b', .opened⟩ := by
  simp only [step, if_true, h]
  rfl

theorem step_close (h : addTag b raw.reverse = .ok b') :
    step ⟨b, .tag none raw⟩ '>' = .ok ⟨b', .text []⟩ := by
  simp only [step, stepTag, h]
  rfl

theorem step_tag {c : Char} (hc : c ∉ ['>', '"', '\'']) :
    step ⟨b, .tag none raw⟩ c = .ok ⟨b, .tag none (c :: raw)⟩ := by
  simp only [List.mem_cons, List.not_mem_nil, or_false, not_or] at hc
  simp only [step, stepTag]
  split <;> simp_all

theorem step_opened {c : Char} (hc : isNameChar c = true) (hx : c ≠ '!') (hq : c ≠ '?') :
    step ⟨b, .opened⟩ c = .ok ⟨b, .tag none [c]⟩ := by
  have h : stepTag b [] c = .ok ⟨b, .tag none [c]⟩ := step_tag (not_mem_of_isNameChar hc)
  simpa only [step] using h

end Steps

theorem foldlM_collect (mode : List Char → Mode) {p : Char → Prop} {b : Builder}
    (hstep : ∀ raw c, p c → step ⟨b, mode raw⟩ c = .ok ⟨b, mode (c :: raw)⟩) {cs : List Char}
    (hcs : ∀ c ∈ cs, p c)
    (raw : List Char) : cs.foldlM step ⟨b, mode raw⟩ = .ok ⟨b, mode (cs.reverse ++ raw)⟩ := by
  induction cs generalizing raw with
  | nil => rfl
  | cons c cs ih =>
    obtain ⟨hc, hcs⟩ := List.forall_mem_cons.1 hcs
    rw [foldlM_cons_of_ok (hstep raw c hc), ih hcs]
    simp

theorem foldlM_text {cs : List Char} (h : '<' ∉ cs) (b : Builder) (raw : List Char) :
    cs.foldlM step ⟨b, .text raw⟩ = .ok ⟨b, .text (cs.reverse ++ raw)⟩ := by
  apply foldlM_collect .text (p := (· ≠ '<'))
  · intro raw c hc
    simp [step, hc]
  · intro c hc hlt
    exact h (hlt ▸ hc)

theorem foldlM_name {cs : List Char} (h : ∀ c ∈ cs, isNameChar c = true) (b : Builder)
    (raw : List Char) :
    cs.foldlM step ⟨b, .tag none raw⟩ = .ok ⟨b, .tag none (cs.reverse ++ raw)⟩ :=
  foldlM_collect (.tag none) (fun _ _ hc => step_tag (not_mem_of_isNameChar hc)) h raw

theorem foldlM_quoted {cs : List Char} (h : '"' ∉ cs) (b : Builder) (raw : List Char) :
    cs.foldlM step ⟨b, .tag (some '"') raw⟩ = .ok ⟨b, .tag (some '"') (cs.reverse ++ raw)⟩ := by
  apply foldlM_collect (.tag (some '"')) (p := (· ≠ '"'))
  · intro raw c hc
    simp [step, hc]
  · intro c hc hquote
    exact h (hquote ▸ hc)

theorem foldlM_printAttribute {a : String × String} (ha : isName a.1 = true) (b : Builder)
    (raw : List Char) :
    (printAttribute a).foldlM step ⟨b, .tag none raw⟩
      = .ok ⟨b, .tag none ((printAttribute a).reverse ++ raw)⟩ := by
  have hsplit : printAttribute a
      = ' ' :: (a.1.toList ++ '=' :: '"' :: (escape a.2.toList ++ ['"'])) := by
    simp [printAttribute]
  rw [hsplit, foldlM_cons_of_ok (step_tag (by decide)),
    foldlM_append_of_ok (foldlM_name (isName_iff.1 ha).2 _ _),
    foldlM_cons_of_ok (step_tag (by decide)), foldlM_cons_of_ok (t := ⟨b, .tag (some '"') _⟩) rfl,
    foldlM_append_of_ok (foldlM_quoted (not_mem_escape (by simp)) _ _)]
  simp [step, pure, Except.pure, bind, Except.bind]

theorem foldlM_printAttributes {as : List (String × String)} (has : ∀ a ∈ as, isName a.1 = true)
    (b : Builder) (raw : List Char) : (as.flatMap printAttribute).foldlM step ⟨b, .tag none raw⟩
      = .ok ⟨b, .tag none ((as.flatMap printAttribute).reverse ++ raw)⟩ := by
  induction as generalizing raw with
  | nil => rfl
  | cons a as ih =>
    obtain ⟨ha, has⟩ := List.forall_mem_cons.1 has
    rw [List.flatMap_cons, foldlM_append_of_ok (foldlM_printAttribute ha b raw), ih has]
    simp

theorem foldlM_printTag {t : Tag} (ht : t.WellNamed) (b : Builder) :
    (printTag t).foldlM step ⟨b, .opened⟩ = .ok ⟨b, .tag none (printTag t).reverse⟩ := by
  obtain ⟨hname, hkeys⟩ := ht
  have hall : ∀ a ∈ t.attributes.entries, isName a.1 = true :=
    fun a ha => hkeys _ (List.mem_map_of_mem ha)
  obtain ⟨hne, hchars⟩ := isName_iff.1 (isName_of_isElementName hname)
  obtain ⟨c, cs, hcs⟩ := List.exists_cons_of_ne_nil hne
  obtain ⟨hc, hx, hq⟩ := isElementName_head hname hcs
  rw [hcs] at hchars
  have hsplit : printTag t = c :: (cs ++ t.attributes.entries.flatMap printAttribute) := by
    rw [printTag, hcs, List.cons_append]
  rw [hsplit, foldlM_cons_of_ok (step_opened hc hx hq),
    foldlM_append_of_ok (foldlM_name (List.forall_mem_cons.1 hchars).2 _ _),
    foldlM_printAttributes hall]
  simp

theorem endName_toList {s : String} (h : isName s = true) : endName s.toList = s.toList := by
  obtain ⟨hne, hall⟩ := isName_iff.1 h
  have hspace : ∀ c ∈ s.toList, isSpace c = false := fun c hc => isSpace_eq_false (hall c hc)
  obtain ⟨c, cs, hcs⟩ := List.exists_cons_of_ne_nil (List.reverse_ne_nil_iff.2 hne)
  have hc : isSpace c = false := hspace c (List.mem_reverse.1 (by simp [hcs]))
  have hdrop : s.toList.reverse.dropWhile isSpace = s.toList.reverse := by simp [hcs, hc]
  have hnotall : s.toList.all isSpace = false := by
    simp only [List.all_eq_false]
    exact ⟨c, List.mem_reverse.1 (by simp [hcs]), by simp [hc]⟩
  rw [endName, hnotall, hdrop]
  simp

theorem getLast?_printTag {t : Tag} (ht : t.WellNamed) : (printTag t).getLast? ≠ some '/' := by
  obtain ⟨hne, hchars⟩ := isName_iff.1 (isName_of_isElementName ht.name)
  rw [printTag]
  rcases List.eq_nil_or_concat t.attributes.entries with has | ⟨as, a, has⟩
  · rw [has, List.flatMap_nil, List.append_nil]
    intro h
    exact isNameChar_ne (hchars _ (List.mem_of_getLast? h)) (by simp) rfl
  · rw [has, List.concat_eq_append, List.flatMap_append, List.flatMap_singleton, printAttribute,
      ← List.append_assoc, ← List.append_assoc, List.getLast?_concat]
    decide

theorem printTag_head {t : Tag} (ht : t.WellNamed) : ∃ c cs, printTag t = c :: cs ∧ c ≠ '/' := by
  obtain ⟨hne, hchars⟩ := isName_iff.1 (isName_of_isElementName ht.name)
  obtain ⟨c, cs, hcs⟩ := List.exists_cons_of_ne_nil hne
  refine ⟨c, cs ++ t.attributes.entries.flatMap printAttribute, ?_,
    isNameChar_ne (hchars c (by simp [hcs])) (by simp)⟩
  rw [printTag, hcs, List.cons_append]

theorem addTag_printTag {t : Tag} (ht : t.WellNamed) (b : Builder) :
    addTag b (printTag t) = .ok (b.openElement t) := by
  obtain ⟨c, cs, hcs, hc⟩ := printTag_head ht
  have hlast := getLast?_printTag ht
  have hread := readTag_printTag ht
  rw [hcs] at hlast hread ⊢
  unfold addTag
  split
  · simp_all
  · rw [if_neg hlast, hread]
    rfl

theorem addTag_printTag_slash {t : Tag} (ht : t.WellNamed) (b : Builder) :
    addTag b (printTag t ++ ['/']) = .ok (b.attach { toTag := t }) := by
  obtain ⟨c, cs, hcs, hc⟩ := printTag_head ht
  have hlast : (printTag t ++ ['/']).getLast? = some '/' := by simp
  have hread : readTag (printTag t ++ ['/']).dropLast = .ok t := by
    rw [List.dropLast_concat, readTag_printTag ht]
  rw [hcs, List.cons_append] at hlast hread ⊢
  unfold addTag
  split
  · simp_all
  · rw [if_pos hlast, hread]
    rfl

theorem addTag_end {t : Tag} (h : isName t.name = true) (root : Option Element) (fs : List Frame)
    (children : List Element) (text : Option String) :
    addTag ⟨root, ⟨t, children, text⟩ :: fs⟩ ('/' :: t.name.toList)
      = .ok ((⟨root, fs⟩ : Builder).attach ⟨t, children.reverse, text, none⟩) := by
  rw [addTag, endName_toList h, String.ofList_toList, Builder.closeElement]
  simp [Frame.close]

/-- Reading the written form of an element puts the element in front of its tail, which
stays pending. -/
def Reads (e : Element) : Prop :=
  ∀ (b : Builder) (slot : Option String),
    (Element.print e).foldlM step ⟨b, .text (printSlot slot).reverse⟩
    = .ok ⟨(b.flush slot).attach e.trimmed.withoutTail, .text (printSlot e.tail).reverse⟩

theorem foldlM_printAll {es : List Element} (hes : ∀ e ∈ es, Reads e) {b : Builder}
    {slot : Option String}
    {root : Option Element} {f : Frame} {fs : List Frame} (hb : b.flush slot = ⟨root, f :: fs⟩) :
    ∃ b' slot', (Element.printAll es).foldlM step ⟨b, .text (printSlot slot).reverse⟩
        = .ok ⟨b', .text (printSlot slot').reverse⟩
      ∧ Builder.flush b' slot' = ⟨root,
        { f with children := (es.map Element.trimmed).reverse ++ f.children } :: fs⟩ := by
  induction es generalizing b slot f with
  | nil => exact ⟨b, slot, rfl, hb⟩
  | cons e es ih =>
    obtain ⟨he, hes⟩ := List.forall_mem_cons.1 hes
    have hflush : ((b.flush slot).attach e.trimmed.withoutTail).flush e.tail
        = ⟨root, f.attach e.trimmed :: fs⟩ := by
      rw [hb]
      exact Builder.flush_attach root f fs e
    obtain ⟨b', slot', hrun, hb'⟩ := ih hes hflush
    refine ⟨b', slot', ?_, ?_⟩
    · rw [Element.printAll, foldlM_append_of_ok (he b slot), hrun]
    · rw [hb']
      simp [Frame.attach]

theorem reads_of_empty {t : Tag} (ht : t.WellNamed) (tail : Option String) :
    Reads ⟨t, [], none, tail⟩ := by
  intro b slot
  have hsplit : Element.print ⟨t, [], none, tail⟩
      = '<' :: (printTag t ++ '/' :: '>' :: printSlot tail) := by
    simp [Element.print_eq_of_empty]
  have hclose : addTag (b.flush slot) ('/' :: (printTag t).reverse).reverse
      = .ok ((b.flush slot).attach { toTag := t }) := by
    rw [List.reverse_cons, List.reverse_reverse, addTag_printTag_slash ht]
  rw [hsplit, foldlM_cons_of_ok (step_open (addText_printSlot b slot)),
    foldlM_append_of_ok (foldlM_printTag ht _),
    foldlM_cons_of_ok (step_tag (by decide)), foldlM_cons_of_ok (step_close hclose),
    foldlM_text (not_mem_printSlot (by simp) tail)]
  simp [Element.trimmed, Element.withoutTail, trimSlot, trim]

theorem foldlM_printStart {t : Tag} (ht : t.WellNamed) (b : Builder) (slot : Option String) :
    (Element.printStart t).foldlM step ⟨b, .text (printSlot slot).reverse⟩
      = .ok ⟨(b.flush slot).openElement t, .text []⟩ := by
  have hopen : addTag (b.flush slot) (printTag t).reverse.reverse
      = .ok ((b.flush slot).openElement t) := by
    rw [List.reverse_reverse, addTag_printTag ht]
  rw [Element.printStart, foldlM_cons_of_ok (step_open (addText_printSlot b slot)),
    foldlM_append_of_ok (foldlM_printTag ht _), foldlM_cons_of_ok (step_close hopen)]
  rfl

theorem foldlM_printOpened {t : Tag} (ht : t.WellNamed) {before : List Element}
    (hcs : ∀ c ∈ before, Reads c) (text : Option String) (b : Builder) (slot : Option String) :
    ∃ b' slot', (Element.printOpened t text before).foldlM step ⟨b, .text (printSlot slot).reverse⟩
        = .ok ⟨b', .text (printSlot slot').reverse⟩
      ∧ Builder.flush b' slot'
        = ⟨(b.flush slot).root, ⟨t, (before.map Element.trimmed).reverse, trimSlot text⟩
          :: (b.flush slot).stack⟩ := by
  obtain ⟨b', slot', hrun, hb'⟩ :=
    foldlM_printAll hcs (Builder.flush_openElement (b.flush slot) t text)
  refine ⟨b', slot', ?_, ?_⟩
  · rw [Element.printOpened, foldlM_append_of_ok (foldlM_printStart ht b slot),
      foldlM_append_of_ok (foldlM_text (not_mem_printSlot (by simp) text) _ _),
        List.append_nil, hrun]
  · simpa using hb'

theorem reads_of_full {t : Tag} (ht : t.WellNamed) {children : List Element}
    (hcs : ∀ c ∈ children, Reads c)
    {text : Option String} (tail : Option String) (hne : children ≠ [] ∨ text ≠ none) :
    Reads ⟨t, children, text, tail⟩ := by
  intro b slot
  have hname := isName_of_isElementName ht.name
  obtain ⟨b', slot', hrun, hb'⟩ := foldlM_printOpened ht hcs text b slot
  have hend : addTag (b'.flush slot') (t.name.toList.reverse ++ ['/']).reverse
      = .ok ((b.flush slot).attach ⟨t, children.map Element.trimmed, trimSlot text, none⟩) := by
    rw [List.reverse_append, List.reverse_reverse, List.reverse_singleton, List.singleton_append,
      hb', addTag_end hname]
    simp
  rw [Element.print_eq_of_full hne, foldlM_append_of_ok hrun, List.cons_append, List.cons_append,
    foldlM_cons_of_ok (step_open (addText_printSlot b' slot')),
    foldlM_cons_of_ok (t := ⟨b'.flush slot', .tag none ['/']⟩) rfl,
    foldlM_append_of_ok (foldlM_name (isName_iff.1 hname).2 _ _),
      foldlM_cons_of_ok (step_close hend),
    foldlM_text (not_mem_printSlot (by simp) tail)]
  simp [Element.trimmed, Element.withoutTail]

theorem reads {e : Element} (h : e.WellNamed) : Reads e := by
  induction h with
  | @mk tag children text tail ht _ ih =>
    by_cases hne : children = [] ∧ text = none
    · obtain ⟨rfl, rfl⟩ := hne
      exact reads_of_empty ht tail
    · exact reads_of_full ht ih tail (not_and_or.1 hne)

theorem foldlM_declaration :
    declaration.foldlM step {} = .ok ⟨{}, .text (printSlot (some "\n")).reverse⟩ := rfl

theorem run_render {e : Element} (h : e.WellNamed) :
    run (declaration ++ e.print) = .ok e.trimmed.withoutTail := by
  have hflush : Builder.flush {} (some "\n") = {} := rfl
  have hroot := reads h {} (some "\n")
  rw [hflush] at hroot
  rw [run, foldlM_append_of_ok foldlM_declaration, hroot]
  show (addText (Builder.attach {} e.trimmed.withoutTail) (printSlot e.tail).reverse >>=
      Builder.finish) = _
  rw [addText_printSlot, Builder.flush]
  cases trimSlot e.tail <;> rfl

end Reader

namespace Element

theorem parse_eq_run {s : String} {e : Element} (h : s.toList <+: declaration ++ e.print) :
    parse s = Reader.run s.toList := by
  have hd : declaration ++ e.print = '<' :: (declaration.tail ++ e.print) := rfl
  rw [hd, List.prefix_cons_iff] at h
  rw [parse]
  obtain hs | ⟨cs, hs, -⟩ := h
  · rw [hs]
  · rw [hs]
    rfl

theorem parse_render_eq {e : Element} (h : e.WellNamed) :
    parse e.render = .ok e.trimmed.withoutTail := by
  have hrender : e.render.toList = declaration ++ e.print := String.toList_ofList
  rw [parse_eq_run (e := e) (by simp [hrender]), hrender, Reader.run_render h]

end Element

end Avionics.Markup
