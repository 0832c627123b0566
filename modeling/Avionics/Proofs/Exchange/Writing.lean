import Avionics.Proofs.Exchange.Address
import Avionics.Proofs.Exchange.RecordWriting

namespace Avionics.Exchange

open Markup (Element)

namespace Schema

def heads : Schema → List String
  | records kind => [kind.tag]
  | unsupported tag .. => [tag]
  | both s t => s.heads ++ t.heads
  | group tag _ | part tag _ | option tag _ => [tag]
  | directional _ => ["ProducedData", "ConsumedData"]

def wellFormed : Schema → Bool
  | records _ | unsupported .. => true
  | both s t => s.wellFormed && t.wellFormed && s.heads.all (· ∉ t.heads)
  | group tag s | part tag s | option tag s => Markup.isElementName tag && s.wellFormed
  | directional s => s.wellFormed

theorem wellFormed_platform : platform.wellFormed = true := by decide

/-- Each record stands under its own key. -/
def Coherent : (s : Schema) → s.Content → Prop
  | records _, c => ∀ e ∈ Keyed.entries c, Record.key e.2 = e.1
  | unsupported .., _ => True
  | both s t, (c, d) => s.Coherent c ∧ t.Coherent d
  | group _ s, c => ∀ e ∈ Keyed.entries c, s.Coherent e.2
  | part _ s, c => s.Coherent c
  | option _ s, c => ∀ d, c = some d → s.Coherent d
  | directional s, c => s.Coherent c.produced ∧ s.Coherent c.consumed

theorem coherent_of_total {s : Schema} {es : List Element} {c : s.Content} {b : Bool}
    (h : s.total es = some (c, b)) : s.Coherent c := by
  induction s generalizing es b with
  | records kind =>
    obtain ⟨-, -, hget, -⟩ := total_records_eq_some h
    rintro ⟨k, r⟩ he
    have hk := (hget k).symm.trans (Keyed.get?_eq_some_iff.2 he)
    obtain ⟨e, hhead, hread⟩ := Option.bind_eq_some_iff.1 hk
    have hkey : e.attribute? kind.keyName = some k :=
      (mem_childrenWith.1 (List.mem_of_mem_head? hhead)).2
    have hr : Record.read kind e = .ok r := by
      cases h : Record.read kind e <;> simp_all [Except.toOption]
    rw [Record.attribute?_keyName hr] at hkey
    exact Option.some.inj hkey
  | unsupported tag what key => trivial
  | both s t ihs iht =>
    obtain ⟨p, q, hs, ht, -⟩ := total_both_eq_some.1 h
    exact ⟨ihs hs, iht ht⟩
  | group tag s ih =>
    obtain ⟨-, clean, hnames, -⟩ := total_group_eq_some h
    rintro ⟨name, d⟩ he
    have hget := Keyed.get?_eq_some_iff.2 he
    rcases hnames name with ⟨-, hnone, -⟩ | ⟨d', hsome, hd⟩
    · cases hget.symm.trans hnone
    · cases hget.symm.trans hsome
      exact ih hd
  | part tag s ih =>
    rw [total_part] at h
    exact ih h
  | option tag s ih =>
    rcases total_option_eq_some h with ⟨-, rfl, -⟩ | ⟨-, d, rfl, hd⟩
    · rintro d ⟨⟩
    · rintro d' ⟨⟩
      exact ih hd
  | directional s ih =>
    obtain ⟨p, q, hc, hp, -⟩ := total_directional_eq_some h
    exact ⟨ih hp, ih hc⟩

/-- The merge that goes by the key of each record, whatever it stands under. -/
def mergeByKey : (s : Schema) → s.Content → s.Content → Noted s.Content
  | records _, held, new =>
    (Keyed.values new).foldlM (fun held r => Keyed.absorb Record.join held r.key r) held
  | unsupported .., _, _ => pure ()
  | both s t, (c, d), (c', d') => do
    let c ← s.mergeByKey c c'
    let d ← t.mergeByKey d d'
    return (c, d)
  | group _ s, held, new => Keyed.merge s.mergeByKey held new
  | part _ s, held, new => s.mergeByKey held new
  | option .., held, none => pure held
  | option .., none, some new => pure (some new)
  | option _ s, some held, some new => do
    let c ← s.mergeByKey held new
    return some c
  | directional s, held, new => do
    let consumed ← s.mergeByKey held.consumed new.consumed
    let produced ← s.mergeByKey held.produced new.produced
    return ⟨produced, consumed⟩

theorem merge_records {kind : RecordKind} {new : Keyed String (Record kind)}
    (hnew : (records kind).Coherent new) (held : Keyed String (Record kind)) :
    Keyed.merge Record.join held new
      = new.values.foldlM (fun held r => held.absorb Record.join r.key r) held := by
  rw [Keyed.merge, Keyed.values, List.foldlM_map]
  exact foldlM_congr (fun e he held => by rw [hnew e he]) held

/-- Where records stand under their own keys, as in all that was read and merged, it is no matter
by which of the two they are merged. -/
theorem merge_eq_mergeByKey {s : Schema} {new : s.Content} (hnew : s.Coherent new)
    (held : s.Content) : s.merge held new = s.mergeByKey held new := by
  induction s with
  | records kind => exact merge_records hnew held
  | unsupported tag what key => rfl
  | both s t ihs iht =>
    obtain ⟨c', d'⟩ := new
    obtain ⟨c, d⟩ := held
    rw [merge, mergeByKey, ihs hnew.1, iht hnew.2]
  | group tag s ih =>
    exact foldlM_congr (fun e he held => Keyed.absorb_congr (ih (hnew e he)) held e.1) held
  | part tag s ih => exact ih hnew held
  | option tag s ih =>
    cases held with
    | none => cases new <;> rfl
    | some held =>
      cases new with
      | none => rfl
      | some new => rw [merge, mergeByKey, ih (hnew new rfl)]
  | directional s ih =>
    rw [merge, mergeByKey, ih hnew.2, ih hnew.1]

theorem eq_empty_of_isEmpty {s : Schema} {c : s.Content} (h : s.isEmpty c = true) :
    c = s.empty := by
  induction s with
  | records kind => exact Keyed.isEmpty_iff.1 h
  | unsupported tag what key => rfl
  | both s t ihs iht =>
    obtain ⟨hs, ht⟩ := (Bool.and_eq_true ..).mp h
    exact Prod.ext (ihs hs) (iht ht)
  | group tag s ih => exact Keyed.isEmpty_iff.1 h
  | part tag s ih => exact ih h
  | option tag s ih => exact Option.isNone_iff_eq_none.1 h
  | directional s ih =>
    obtain ⟨hp, hc⟩ := (Bool.and_eq_true ..).mp h
    exact congrArg₂ Directional.mk (ih hp) (ih hc)

theorem name_of_mem_writePart {tag : String} {absent : Bool} {children : List Element} {x : Element}
    (h : x ∈ writePart tag absent children) : x.name = tag := by
  rw [writePart] at h
  split at h
  · cases h
  · rw [List.mem_singleton.1 h]
    rfl

theorem name_mem_heads {s : Schema} {c : s.Content} {x : Element} (h : x ∈ s.write c) :
    x.name ∈ s.heads := by
  induction s with
  | records kind =>
    obtain ⟨r, -, rfl⟩ := List.mem_map.1 h
    exact List.mem_singleton_self _
  | unsupported tag what key => cases h
  | both s t ihs iht =>
    rcases List.mem_append.1 h with hs | ht
    · exact List.mem_append_left _ (ihs hs)
    · exact List.mem_append_right _ (iht ht)
  | group tag s ih =>
    obtain ⟨e, -, rfl⟩ := List.mem_map.1 h
    exact List.mem_singleton_self _
  | part tag s ih => exact List.mem_singleton.2 (name_of_mem_writePart h)
  | option tag s ih =>
    cases c with
    | none => cases h
    | some d =>
      rw [List.mem_singleton.1 h]
      exact List.mem_singleton_self _
  | directional s ih =>
    rcases List.mem_append.1 h with hp | hc
    · rw [name_of_mem_writePart hp]
      exact List.mem_cons_self
    · rw [name_of_mem_writePart hc]
      exact List.mem_cons_of_mem _ List.mem_cons_self

theorem filter_named_eq_self {tag : String} {xs : List Element} (h : ∀ x ∈ xs, x.name = tag) :
    xs.filter (Element.named tag) = xs :=
  List.filter_eq_self.2 fun x hx => by simp [Element.named, h x hx]

theorem filter_named_eq_nil {tag : String} {xs : List Element} (h : ∀ x ∈ xs, x.name ≠ tag) :
    xs.filter (Element.named tag) = [] :=
  List.filter_eq_nil_iff.2 fun x hx => by simp [Element.named, h x hx]

def Holds (s : Schema) (e : Element) (c : s.Content) : Prop :=
  ∀ tag ∈ s.heads, e.childrenNamed tag = (s.write c).filter (Element.named tag)

theorem holds_of_children {s : Schema} {e : Element} {c : s.Content} (h : e.children = s.write c) :
    s.Holds e c := by
  intro tag _
  rw [Element.childrenNamed, h]

section Holds

variable {s t : Schema} {e : Element}

theorem disjoint_heads (hst : s.heads.all (· ∉ t.heads) = true) {tag : String} (hs : tag ∈ s.heads)
    : tag ∉ t.heads := by
  simpa using List.all_eq_true.1 hst tag hs

theorem Holds.childrenNamed_eq {tag : String} {c : s.Content} (h : s.Holds e c)
    (hs : s.heads = [tag]) : e.childrenNamed tag = s.write c := by
  rw [h tag (hs ▸ List.mem_singleton_self tag)]
  refine filter_named_eq_self fun x hx => ?_
  have hx := name_mem_heads hx
  rw [hs] at hx
  exact List.mem_singleton.1 hx

theorem Holds.first {c : s.Content} {d : t.Content} (h : (both s t).Holds e (c, d))
    (hst : s.heads.all (· ∉ t.heads) = true) : s.Holds e c := by
  intro tag htag
  have hnil : (t.write d).filter (Element.named tag) = [] :=
    filter_named_eq_nil fun x hx hname => disjoint_heads hst htag (hname ▸ name_mem_heads hx)
  have hboth := h tag (List.mem_append_left _ htag)
  rw [write, List.filter_append, hnil, List.append_nil] at hboth
  exact hboth

theorem Holds.second {c : s.Content} {d : t.Content} (h : (both s t).Holds e (c, d))
    (hst : s.heads.all (· ∉ t.heads) = true) : t.Holds e d := by
  intro tag htag
  have hnil : (s.write c).filter (Element.named tag) = [] :=
    filter_named_eq_nil fun x hx hname => disjoint_heads hst (hname ▸ name_mem_heads hx) htag
  have hboth := h tag (List.mem_append_right _ htag)
  rw [write, List.filter_append, hnil, List.nil_append] at hboth
  exact hboth

theorem filter_writePart_self (tag : String) (absent : Bool) (children : List Element) :
    (writePart tag absent children).filter (Element.named tag) = writePart tag absent children :=
  filter_named_eq_self fun _ hx => name_of_mem_writePart hx

theorem filter_writePart_ne {tag other : String} (h : tag ≠ other) (absent : Bool)
    (children : List Element) :
    (writePart tag absent children).filter (Element.named other) = [] :=
  filter_named_eq_nil fun _ hx hname => h ((name_of_mem_writePart hx).symm.trans hname)

theorem Holds.produced {c : (directional s).Content} (h : (directional s).Holds e c) :
    e.childrenNamed "ProducedData" = writePart "ProducedData" (s.isEmpty c.produced)
    (s.write c.produced) := by
  rw [h "ProducedData" List.mem_cons_self, write, List.filter_append, filter_writePart_self,
    filter_writePart_ne (by decide), List.append_nil]

theorem Holds.consumed {c : (directional s).Content} (h : (directional s).Holds e c) :
    e.childrenNamed "ConsumedData" = writePart "ConsumedData" (s.isEmpty c.consumed)
    (s.write c.consumed) := by
  rw [h "ConsumedData" (List.mem_cons_of_mem _ List.mem_cons_self), write, List.filter_append,
    filter_writePart_self,
    filter_writePart_ne (by decide), List.nil_append]

end Holds

theorem merge_empty (s : Schema) (c : s.Content) : s.merge s.empty c = pure c := by
  induction s with
  | records kind => exact Keyed.merge_empty c
  | unsupported tag what key => rfl
  | both s t ihs iht =>
    show (do
      let first ← s.merge s.empty c.1
      let second ← t.merge t.empty c.2
      return (first, second)) = _
    rw [ihs, iht]
    rfl
  | group tag s ih => exact Keyed.merge_empty c
  | part tag s ih => exact ih c
  | option tag s ih => cases c <;> rfl
  | directional s ih =>
    show (do
      let consumed ← s.merge s.empty c.consumed
      let produced ← s.merge s.empty c.produced
      return (⟨produced, consumed⟩ : Directional s.Content)) = _
    rw [ih, ih]
    rfl

section ReadAll

variable {s : Schema} {c : s.Content}

theorem readAll_singleton {e : Element} (h : s.read e = pure c) :
    s.readAll s.read [e] = pure c := by
  rw [readAll, List.foldlM_cons, h, pure_bind, merge_empty]
  rfl

theorem readAll_writePart (tag : String) (h : s.read (element tag (s.write c)) = pure c) :
    s.readAll s.read (writePart tag (s.isEmpty c) (s.write c)) = pure c := by
  rw [writePart]
  split
  · next hempty =>
    rw [eq_empty_of_isEmpty hempty]
    rfl
  · exact readAll_singleton h

end ReadAll

theorem read_write {s : Schema} (hs : s.wellFormed = true) {c : s.Content} (hc : s.Coherent c)
    {e : Element} (he : s.Holds e c) : s.read e = pure c := by
  induction s generalizing e with
  | records kind =>
    have hchildren : e.childrenNamed kind.tag = (Keyed.entries c).map fun r =>
        Record.write r.2 := by
      rw [he.childrenNamed_eq rfl]
      exact List.map_map
    rw [read, hchildren]
    refine Keyed.foldlM_entries c fun r hr held hnew => ?_
    rw [r.2.read_write]
    show (liftM (Keyed.absorb Record.join held r.2.key r.2) :
      Reading (Keyed String (Record kind))) = _
    rw [hc r hr, Keyed.absorb_of_not_mem hnew]
    rfl
  | unsupported tag what key =>
    have hchildren : e.childrenNamed tag = [] := he.childrenNamed_eq rfl
    rw [read, hchildren]
    rfl
  | both s t ihs iht =>
    simp only [wellFormed, Bool.and_eq_true] at hs
    obtain ⟨⟨hs, ht⟩, hst⟩ := hs
    rw [read, ihs hs hc.1 (he.first hst), iht ht hc.2 (he.second hst)]
    rfl
  | group tag s ih =>
    simp only [wellFormed, Bool.and_eq_true] at hs
    have hchildren : e.childrenNamed tag = (Keyed.entries c).map fun d =>
        (element tag (s.write d.2)).set "Name" d.1 :=
      he.childrenNamed_eq rfl
    rw [read, hchildren]
    refine Keyed.foldlM_entries c fun d hd held hnew => ?_
    have hinner : s.read ((element tag (s.write d.2)).set "Name" d.1) = pure d.2 :=
      ih hs.2 (hc d hd) (holds_of_children rfl)
    rw [hinner]
    show (liftM (Keyed.absorb s.merge held d.1 d.2) : Reading (Keyed String s.Content)) = _
    rw [Keyed.absorb_of_not_mem hnew]
    rfl
  | part tag s ih =>
    simp only [wellFormed, Bool.and_eq_true] at hs
    rw [read, he.childrenNamed_eq rfl]
    exact readAll_writePart tag (ih hs.2 hc (holds_of_children rfl))
  | option tag s ih =>
    simp only [wellFormed, Bool.and_eq_true] at hs
    rw [read, he.childrenNamed_eq rfl]
    cases c with
    | none => rfl
    | some d =>
      show (do
        let all ← s.readAll s.read [element tag (s.write d)]
        return some all) = _
      rw [readAll_singleton (ih hs.2 (hc d rfl) (holds_of_children rfl))]
      rfl
  | directional s ih =>
    rw [read, he.consumed, he.produced,
      readAll_writePart "ConsumedData" (ih hs hc.2 (holds_of_children rfl)),
      readAll_writePart "ProducedData" (ih hs hc.1 (holds_of_children rfl))]
    rfl

section Form

theorem wellNamed_element {tag : String} {children : List Element}
    (h : Markup.isElementName tag = true)
    (hcs : ∀ c ∈ children, c.WellNamed) : (element tag children).WellNamed :=
  .mk ⟨h, fun _ hkey => (List.not_mem_nil hkey).elim⟩ hcs

theorem wellNamed_named {tag : String} {children : List Element}
    (h : Markup.isElementName tag = true) (hcs : ∀ c ∈ children, c.WellNamed) (name : String) :
    ((element tag children).set "Name" name).WellNamed := by
  refine .mk ⟨h, fun key hkey => ?_⟩ hcs
  rw [List.mem_singleton.1 hkey]
  show Markup.isName "Name" = true
  decide

theorem forall_mem_writePart {p : Element → Prop} {tag : String} {absent : Bool}
    {children : List Element}
    (h : p (element tag children)) : ∀ x ∈ writePart tag absent children, p x := by
  intro x hx
  rw [writePart] at hx
  split at hx
  · cases hx
  · rwa [List.mem_singleton.1 hx]

theorem forall_mem_write {p : Element → Prop} (hrecord : ∀ kind (r : Record kind), p r.write)
    (helement : ∀ tag children, Markup.isElementName tag = true → (∀ c ∈ children, p c) →
      p (element tag children))
    (hnamed : ∀ tag children name, Markup.isElementName tag = true → (∀ c ∈ children, p c) →
      p ((element tag children).set "Name" name))
    {s : Schema} (hs : s.wellFormed = true) (c : s.Content) : ∀ x ∈ s.write c, p x := by
  induction s with
  | records kind =>
    intro x hx
    obtain ⟨r, -, rfl⟩ := List.mem_map.1 hx
    exact hrecord kind r
  | unsupported tag what key =>
    intro x hx
    cases hx
  | both s t ihs iht =>
    simp only [wellFormed, Bool.and_eq_true] at hs
    exact List.forall_mem_append.2 ⟨ihs hs.1.1 c.1, iht hs.1.2 c.2⟩
  | group tag s ih =>
    simp only [wellFormed, Bool.and_eq_true] at hs
    intro x hx
    obtain ⟨d, -, rfl⟩ := List.mem_map.1 hx
    exact hnamed tag _ d.1 hs.1 (ih hs.2 d.2)
  | part tag s ih =>
    simp only [wellFormed, Bool.and_eq_true] at hs
    exact forall_mem_writePart (helement tag _ hs.1 (ih hs.2 c))
  | option tag s ih =>
    simp only [wellFormed, Bool.and_eq_true] at hs
    intro x hx
    cases c with
    | none => cases hx
    | some d =>
      rw [List.mem_singleton.1 hx]
      exact helement tag _ hs.1 (ih hs.2 d)
  | directional s ih =>
    exact List.forall_mem_append.2
      ⟨forall_mem_writePart (helement _ _ (by decide) (ih hs c.produced)),
      forall_mem_writePart (helement _ _ (by decide) (ih hs c.consumed))⟩

theorem wellNamed_write {s : Schema} (hs : s.wellFormed = true) (c : s.Content) :
    ∀ x ∈ s.write c, x.WellNamed :=
  forall_mem_write (fun _ r => r.wellNamed_write) (fun _ _ => wellNamed_element)
    (fun _ _ name h hcs => wellNamed_named h hcs name)
    hs c

theorem bare_write {s : Schema} (hs : s.wellFormed = true) (c : s.Content) :
    ∀ x ∈ s.write c, x.Bare :=
  forall_mem_write (fun _ r => r.bare_write) (fun _ _ _ hcs => .mk hcs)
    (fun _ _ _ _ hcs => .mk hcs) hs c

end Form

end Schema

namespace Platform

theorem wellNamed_write (p : Platform) : p.write.WellNamed :=
  Schema.wellNamed_named (by decide) (Schema.wellNamed_write Schema.wellFormed_platform p.content)
    p.name

theorem bare_write (p : Platform) : p.write.Bare :=
  .mk (Schema.bare_write Schema.wellFormed_platform p.content)

theorem parse_render_write (p : Platform) : Element.parse p.write.indent.render = .ok p.write :=
  Element.parse_render_indent p.wellNamed_write p.bare_write

theorem attribute?_write (p : Platform) : p.write.attribute? "Name" = some p.name := by
  show (Keyed.insert _ "Name" p.name).get? "Name" = _
  rw [Keyed.get?_insert, if_pos rfl]

theorem read_content_write {p : Platform} (h : Schema.platform.Coherent p.content) :
    Schema.platform.read p.write = pure p.content :=
  Schema.read_write Schema.wellFormed_platform h (Schema.holds_of_children rfl)

theorem outcome_write {p : Platform} (h : Schema.platform.Coherent p.content) :
    Schema.platform.outcome p.write = some (p.content, true) := by
  rw [Schema.outcome, read_content_write h, Reading.outcome_pure]

end Platform

end Avionics.Exchange
