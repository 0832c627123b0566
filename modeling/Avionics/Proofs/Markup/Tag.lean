import Avionics.Proofs.Fold
import Avionics.Proofs.Keyed.Lookup
import Avionics.Proofs.Markup.Reference

namespace Avionics.Markup

def isNameChar (c : Char) : Bool := !isSpace c && c ∉ ['<', '>', '&', '\'', '"', '=', '/']

def isName (s : String) : Bool := !s.toList.isEmpty && s.toList.all isNameChar

/-- Names of elements must not look like the start of an instruction or a comment. -/
def isElementName (s : String) : Bool :=
  isName s && s.toList.head? ≠ some '!' && s.toList.head? ≠ some '?'

structure Tag.WellNamed (t : Tag) : Prop where
  name : isElementName t.name = true
  keys : ∀ key ∈ t.attributes.keys, isName key = true

theorem isName_iff {s : String} :
    isName s = true ↔ s.toList ≠ [] ∧ ∀ c ∈ s.toList, isNameChar c = true := by
  simp [isName]

theorem isSpace_eq_false {c : Char} (h : isNameChar c = true) : isSpace c = false := by
  simp only [isNameChar, Bool.and_eq_true, Bool.not_eq_true'] at h
  exact h.1

theorem isNameChar_ne {c d : Char} (h : isNameChar c = true)
    (hd : d ∈ ['<', '>', '&', '\'', '"', '=', '/']) : c ≠ d := by
  rintro rfl
  simp only [isNameChar, Bool.and_eq_true, decide_eq_true_eq] at h
  exact h.2 hd

theorem not_mem_of_isNameChar {c : Char} (h : isNameChar c = true) : c ∉ ['>', '"', '\''] := by
  intro hm
  have hs : ∀ d ∈ ['>', '"', '\''], d ∈ ['<', '>', '&', '\'', '"', '=', '/'] := by simp
  exact isNameChar_ne h (hs c hm) rfl

theorem isName_of_isElementName {s : String} (h : isElementName s = true) : isName s = true := by
  simp only [isElementName, Bool.and_eq_true] at h
  exact h.1.1

theorem isElementName_head {s : String} {c : Char} {cs : List Char} (h : isElementName s = true)
    (hs : s.toList = c :: cs) : isNameChar c = true ∧ c ≠ '!' ∧ c ≠ '?' := by
  have hn := (isName_iff.1 (isName_of_isElementName h)).2 c (by simp [hs])
  simp only [isElementName, hs, List.head?_cons, Bool.and_eq_true, decide_eq_true_eq] at h
  exact ⟨hn, fun e => h.1.2 (congrArg some e), fun e => h.2 (congrArg some e)⟩

namespace TagReader

@[simp] theorem ofText_reverse (s : String) : ofText s.toList.reverse = s := by simp [ofText]

theorem step_of_read {r s : TagReader} {c : Char} (h : r.read c = .ok s) :
    r.step c = .ok { s with position := s.position + c.utf8Size } := by
  rw [step, h]
  rfl

theorem foldlM_collect {stage : List Char → TagStage} {p : Char → Bool}
    (h : ∀ (r : TagReader) text c, r.stage = stage text → p c = true →
      r.read c = .ok { r with stage := stage (c :: text) })
    {cs : List Char} (hp : ∀ c ∈ cs, p c = true) (r : TagReader) {text : List Char}
    (hr : r.stage = stage text) :
    ∃ position, cs.foldlM step r = .ok
    { r with stage := stage (cs.reverse ++ text), position := position } := by
  induction cs generalizing r text with
  | nil => exact ⟨r.position, by rw [List.reverse_nil, List.nil_append, ← hr]; rfl⟩
  | cons c cs ih =>
    obtain ⟨hc, hcs⟩ := List.forall_mem_cons.1 hp
    obtain ⟨position, hi⟩ := ih hcs
      { r with stage := stage (c :: text), position := r.position + c.utf8Size } rfl
    refine ⟨position, ?_⟩
    rw [foldlM_cons_of_ok (step_of_read (h r text c hr hc)), hi]
    simp

theorem foldlM_name {cs : List Char} (hp : ∀ c ∈ cs, isNameChar c = true) (r : TagReader)
    {text : List Char} (hr : r.stage = .name text) :
    ∃ position, cs.foldlM step r = .ok
    { r with stage := .name (cs.reverse ++ text), position := position } := by
  refine foldlM_collect (fun r text c hr hc => ?_) hp r hr
  simp [read, hr, isSpace_eq_false hc]

theorem foldlM_key {start : Nat} {cs : List Char} (hp : ∀ c ∈ cs, isNameChar c = true)
    (r : TagReader) {text : List Char} (hr : r.stage = .key start text) :
    ∃ position, cs.foldlM step r = .ok
    { r with stage := .key start (cs.reverse ++ text), position := position } := by
  refine foldlM_collect (fun r text c hr hc => ?_) hp r hr
  have he : c ≠ '=' := isNameChar_ne hc (by simp)
  simp [read, hr, isSpace_eq_false hc, he]

theorem foldlM_value {key : String} {cs : List Char} (hp : '"' ∉ cs) (r : TagReader)
    {text : List Char} (hr : r.stage = .value key '"' text) :
    ∃ position, cs.foldlM step r = .ok
    { r with stage := .value key '"' (cs.reverse ++ text), position := position } := by
  refine foldlM_collect (p := (· ≠ '"')) (fun r text c hr hc => ?_) (fun c hc => ?_) r hr
  · simp only [decide_eq_true_eq] at hc
    simp [read, hr, hc]
  · simp only [decide_eq_true_eq]
    rintro rfl
    exact hp hc

section Steps

variable {r : TagReader} {c : Char} {start : Nat} {key : String} {text : List Char}

theorem step_gap_space (hr : r.stage = .gap) (hc : isSpace c = true) :
    r.step c = .ok { r with position := r.position + c.utf8Size } :=
  step_of_read (s := r) (by simp [read, hr, hc])

theorem step_gap (hr : r.stage = .gap) (hc : isSpace c = false) :
    r.step c = .ok { r with position := r.position + c.utf8Size, stage := .key r.position [c] } :=
  step_of_read (s := { r with stage := .key r.position [c] }) (by simp [read, hr, hc])

theorem step_name_space (hr : r.stage = .name text) (hc : isSpace c = true) :
    r.step c = ({ r with stage := .gap, tag := { r.tag with name := ofText text } } :
      TagReader).step c := by
  rw [step_gap_space (r := { r with stage := .gap, tag := { r.tag with name := ofText text } }) rfl
    hc]
  exact step_of_read (s := { r with stage := .gap, tag := { r.tag with name := ofText text } })
    (by simp [read, hr, hc])

theorem step_key_equals (hr : r.stage = .key start text) (ht : ofText text = key)
    (hk : r.keys.lookup key = none) :
    r.step '=' = .ok { r with
      position := r.position + 1, stage := .afterEquals key, keys := (key, start) :: r.keys } :=
  step_of_read (s := { r with stage := .afterEquals key, keys := (key, start) :: r.keys })
    (by simp [read, hr, acceptKey, ht, hk])

theorem step_afterEquals_quote (hr : r.stage = .afterEquals key) :
    r.step '"' = .ok { r with position := r.position + 1, stage := .value key '"' [] } :=
  step_of_read (s := { r with stage := .value key '"' [] }) (by simp [read, hr, isSpace])

theorem step_value_quote (hr : r.stage = .value key '"' text) {value : String}
    (ht : unescape text.reverse = .ok value) :
    r.step '"' = .ok { r with
      position := r.position + 1, stage := .gap, tag := r.tag.set key value } :=
  step_of_read (s := { r with stage := .gap, tag := r.tag.set key value })
    (by simp [read, hr, acceptValue, ht])

end Steps

theorem foldlM_printAttribute {a : String × String} (ha : isName a.1 = true) {r : TagReader}
    (hr : r.stage = .gap) (hk : r.keys.lookup a.1 = none) :
    ∃ position start, (printAttribute a).foldlM step r
      = .ok { position := position, stage := .gap, tag := r.tag.set a.1 a.2,
              keys := (a.1, start) :: r.keys } := by
  obtain ⟨hne, hall⟩ := isName_iff.1 ha
  obtain ⟨c, cs, hcs⟩ := List.exists_cons_of_ne_nil hne
  rw [hcs] at hall
  obtain ⟨hc, hcs'⟩ := List.forall_mem_cons.1 hall
  have hsplit : printAttribute a = ' ' :: c
      :: (cs ++ '=' :: '"' :: (escape a.2.toList ++ ['"'])) := by
    simp [printAttribute, hcs]
  have htext : ofText (cs.reverse ++ [c]) = a.1 := by
    rw [← List.reverse_cons, ← hcs, ofText_reverse]
  have hvalue : unescape ((escape a.2.toList).reverse ++ []).reverse = .ok a.2 := by
    simp [unescape_escape]
  let start := r.position + 1
  let keyed : TagReader := { r with position := start + c.utf8Size, stage := .key start [c] }
  obtain ⟨p, hp⟩ := foldlM_key hcs' keyed rfl
  let valued : TagReader :=
    { r with position := p + 1 + 1, stage := .value a.1 '"' [], keys := (a.1, start) :: r.keys }
  obtain ⟨q, hq⟩ := foldlM_value (not_mem_escape (s := a.2.toList) (d := '"') (by simp)) valued rfl
  refine ⟨q + 1, start, ?_⟩
  calc (printAttribute a).foldlM step r
    _ = (c :: (cs ++ '=' :: '"' :: (escape a.2.toList ++ ['"']))).foldlM step
      { r with position := start } := by
      rw [hsplit]
      exact foldlM_cons_of_ok (step_gap_space hr rfl) _
    _ = (cs ++ '=' :: '"' :: (escape a.2.toList ++ ['"'])).foldlM step keyed :=
      foldlM_cons_of_ok (step_gap (r := { r with position := start }) hr (isSpace_eq_false hc)) _
    _ = ('=' :: '"' :: (escape a.2.toList ++ ['"'])).foldlM step
        { r with position := p, stage := .key start (cs.reverse ++ [c]) } :=
          foldlM_append_of_ok hp _
    _ = ('"' :: (escape a.2.toList ++ ['"'])).foldlM step
        { r with position := p + 1, stage := .afterEquals a.1, keys := (a.1, start) :: r.keys } :=
      foldlM_cons_of_ok (step_key_equals
        (r := { r with position := p, stage := .key start (cs.reverse ++ [c]) }) rfl htext hk) _
    _ = (escape a.2.toList ++ ['"']).foldlM step valued :=
      foldlM_cons_of_ok (step_afterEquals_quote
        (r := { r with
          position := p + 1, stage := .afterEquals a.1, keys := (a.1, start) :: r.keys }) rfl) _
    _ = ['"'].foldlM step { valued with
          position := q, stage := .value a.1 '"' ((escape a.2.toList).reverse ++ []) } :=
      foldlM_append_of_ok hq _
    _ = .ok { position := q + 1, stage := .gap, tag := r.tag.set a.1 a.2,
              keys := (a.1, start) :: r.keys } :=
      foldlM_cons_of_ok (step_value_quote
        (r := { valued with
          position := q, stage := .value a.1 '"' ((escape a.2.toList).reverse ++ []) })
        rfl hvalue) []

theorem foldlM_printAttributes {as : List (String × String)} (has : ∀ a ∈ as, isName a.1 = true)
    {r : TagReader} (hr : r.stage = .gap) (hn : (r.keys.map Prod.fst ++ as.map Prod.fst).Nodup) :
    ∃ r' : TagReader, (as.flatMap printAttribute).foldlM step r = .ok r' ∧ r'.stage = .gap
      ∧ r'.tag = as.foldl (fun t a => t.set a.1 a.2) r.tag := by
  induction as generalizing r with
  | nil => exact ⟨r, rfl, hr, rfl⟩
  | cons a as ih =>
    obtain ⟨ha, has⟩ := List.forall_mem_cons.1 has
    have hk : r.keys.lookup a.1 = none := by
      rw [List.lookup_eq_none_iff]
      intro e he
      have hd := List.disjoint_of_nodup_append hn (List.mem_map_of_mem he)
      exact bne_iff_ne.2 fun h : a.1 = e.1 => hd (by simp [← h])
    obtain ⟨p, start, h⟩ := foldlM_printAttribute ha hr hk
    obtain ⟨r', hr', hs, ht⟩ := ih has
      (r := { position := p, stage := .gap, tag := r.tag.set a.1 a.2,
              keys := (a.1, start) :: r.keys }) rfl (by
        simp only [List.map_cons, List.cons_append]
        exact List.perm_middle.nodup_iff.1 hn)
    exact ⟨r', by rw [List.flatMap_cons, foldlM_append_of_ok h, hr'], hs, ht⟩

theorem foldl_set (as : List (String × String)) (t : Tag) :
    as.foldl (fun t a => t.set a.1 a.2) t
      = { t with attributes := as.foldl (fun m a => m.insert a.1 a.2) t.attributes } := by
  induction as generalizing t with
  | nil => rfl
  | cons a as ih => rw [List.foldl_cons, ih]; rfl

end TagReader

theorem readTag_printTag {t : Tag} (h : t.WellNamed) : readTag (printTag t) = .ok t := by
  obtain ⟨hname, hkeys⟩ := h
  obtain ⟨p, hp⟩ := TagReader.foldlM_name (isName_iff.1 (isName_of_isElementName hname)).2 {} rfl
  have hattributes : t.attributes.entries.foldl (fun m a => m.insert a.1 a.2) .empty
      = t.attributes :=
    Keyed.ofList_entries t.attributes
  have hall : ∀ a ∈ t.attributes.entries, isName a.1 = true :=
    fun a ha => hkeys _ (List.mem_map_of_mem ha)
  have hnodup := t.attributes.nodup
  unfold readTag printTag
  rw [foldlM_append_of_ok hp]
  cases has : t.attributes.entries with
  | nil =>
    rw [has] at hattributes
    show Except.ok { name := TagReader.ofText (t.name.toList.reverse ++ []) } = Except.ok t
    rw [List.append_nil, TagReader.ofText_reverse]
    exact congrArg (fun m => Except.ok (Tag.mk t.name m)) hattributes
  | cons a as =>
    -- The space in front of the first attribute ends the name.
    let named : TagReader := { position := p, stage := .gap, tag := { name := t.name } }
    rw [has] at hall hnodup hattributes
    obtain ⟨r, hr, hs, ht⟩ := TagReader.foldlM_printAttributes hall (r := named) rfl hnodup
    have hfirst : ((a :: as).flatMap printAttribute).foldlM TagReader.step
        { position := p, stage := .name (t.name.toList.reverse ++ []) } = .ok r := by
      rw [← hr]
      have hsplit : (a :: as).flatMap printAttribute
          = ' ' :: ((a :: as).flatMap printAttribute).tail := rfl
      rw [hsplit, List.foldlM_cons, List.foldlM_cons, TagReader.step_name_space rfl rfl]
      simp [named]
    rw [hfirst]
    show r.finish = .ok t
    rw [TagReader.finish, hs, ht, TagReader.foldl_set, hattributes]

end Avionics.Markup
