import Avionics.Proofs.Exchange.Outcome

namespace Avionics.Exchange

open Markup (Element)

namespace Schema

/-- A way down a description, with the names of the groups that it goes through. -/
inductive Address : Schema → Schema → Type
  | here {s : Schema} : Address s s
  | first {s t u : Schema} : Address s u → Address (both s t) u
  | second {s t u : Schema} : Address t u → Address (both s t) u
  | group {tag : String} {s u : Schema} (name : String) : Address s u → Address (group tag s) u
  | part {tag : String} {s u : Schema} : Address s u → Address (part tag s) u
  | option {tag : String} {s u : Schema} : Address s u → Address (option tag s) u
  | produced {s u : Schema} : Address s u → Address (directional s) u
  | consumed {s u : Schema} : Address s u → Address (directional s) u

def childrenWith (es : List Element) (tag key value : String) : List Element :=
  (childrenOf es tag).filter fun c => c.attribute? key = some value

theorem mem_childrenWith {es : List Element} {tag key value : String} {c : Element} :
    c ∈ childrenWith es tag key value ↔ c ∈ childrenOf es tag ∧ c.attribute? key = some value := by
  simp [childrenWith]

@[simp] theorem childrenOf_nil (tag : String) : childrenOf [] tag = [] := rfl

namespace Address

def content : {s u : Schema} → Address s u → s.Content → u.Content
  | _, _, here, c => c
  | _, _, first a, c => a.content c.1
  | _, _, second a, c => a.content c.2
  | _, u, group name a, c => ((Keyed.get? c name).map a.content).getD u.empty
  | _, _, part a, c => a.content c
  | _, u, option a, c => (Option.map a.content c).getD u.empty
  | _, _, produced a, c => a.content c.produced
  | _, _, consumed a, c => a.content c.consumed

def elements : {s u : Schema} → Address s u → List Element → List Element
  | _, _, here, es => es
  | _, _, first a, es => a.elements es
  | _, _, second a, es => a.elements es
  | .group tag _, _, group name a, es => a.elements (childrenWith es tag "Name" name)
  | .part tag _, _, part a, es => a.elements (childrenOf es tag)
  | .option tag _, _, option a, es => a.elements (childrenOf es tag)
  | _, _, produced a, es => a.elements (childrenOf es "ProducedData")
  | _, _, consumed a, es => a.elements (childrenOf es "ConsumedData")

@[simp] theorem elements_nil {s u : Schema} (a : Address s u) : a.elements [] = [] := by
  induction a with
  | here => rfl
  | first a ih => exact ih
  | second a ih => exact ih
  | group name a ih => exact ih
  | part a ih => exact ih
  | option a ih => exact ih
  | produced a ih => exact ih
  | consumed a ih => exact ih

end Address

@[simp] theorem total_nil (s : Schema) : s.total [] = some (s.empty, true) := by
  rw [← unit_joining]
  rfl

section Cases

variable {tag : String} {s t : Schema} {es : List Element} {b : Bool}

theorem total_both_eq_some {c : (both s t).Content} :
    (both s t).total es = some (c, b) ↔ ∃ p q, s.total es = some (c.1, p)
      ∧ t.total es = some (c.2, q) ∧ (p && q) = b := by
  rw [total_both]
  exact Joining.both_eq_some

theorem total_directional_eq_some {c : (directional s).Content}
    (h : (directional s).total es = some (c, b)) :
    ∃ p q, s.total (childrenOf es "ConsumedData") = some (c.consumed, p)
      ∧ s.total (childrenOf es "ProducedData") = some (c.produced, q) ∧ (p && q) = b := by
  rw [total_directional] at h
  obtain ⟨⟨c', r⟩, hboth, heq⟩ := Option.map_eq_some_iff.1 h
  cases heq
  exact Joining.both_eq_some.1 hboth

theorem total_option_eq_some {c : Option s.Content} (h : (option tag s).total es = some (c, b)) :
    (childrenOf es tag = [] ∧ c = none ∧ b = true)
      ∨ (childrenOf es tag ≠ [] ∧ ∃ d, c = some d ∧ s.total (childrenOf es tag) = some (d, b)) := by
  rw [total_option] at h
  split at h
  · next hes =>
    cases h
    exact .inl ⟨hes, rfl, rfl⟩
  · next hes => exact .inr ⟨hes, Joining.present_eq_some.1 h⟩

theorem total_group_eq_some {m : Keyed String s.Content}
    (h : (group tag s).total es = some (m, b)) :
    m.keys = ((childrenOf es tag).filterMap (·.attribute? "Name")).eraseDups
    ∧ ∃ clean : String → Bool,
      (∀ name, (childrenWith es tag "Name" name = [] ∧ m.get? name = none ∧ clean name = true)
        ∨ (∃ d, m.get? name = some d ∧ s.total (childrenWith es tag "Name" name)
          = some (d, clean name)))
      ∧ (b = true ↔ ∀ name, clean name = true) := by
  rw [total_group] at h
  obtain ⟨hkeys, clean, hunder, hclean⟩ := Joining.gather_entry _ _ _ h
  refine ⟨hkeys, clean, fun name => ?_, hclean⟩
  have htotal :=
    (Joining.gather_present s.joining s.outcome (childrenWith es tag "Name" name)).symm.trans
      (hunder name)
  split at htotal
  · next hes =>
    obtain ⟨hnone, htrue⟩ := Prod.mk.inj (Option.some.inj htotal)
    exact .inl ⟨hes, hnone.symm, htrue.symm⟩
  · exact .inr (Joining.present_eq_some.1 htotal)

end Cases

section Records

variable {kind : RecordKind} {es : List Element}

theorem pairwise_same_cons {c d : Element} {ds : List Element} :
    ((∀ x ∈ d :: ds, ∀ y ∈ d :: ds, Record.Same kind x y) ∧ Record.Same kind d c)
      ↔ ∀ x ∈ c :: d :: ds, ∀ y ∈ c :: d :: ds, Record.Same kind x y := by
  constructor
  · rintro ⟨hall, hdc⟩
    have hc : ∀ x ∈ c :: d :: ds, Record.Same kind x c :=
      List.forall_mem_cons.2 ⟨.refl c, fun x hx => (hall x hx d List.mem_cons_self).trans hdc⟩
    exact fun x hx y hy => (hc x hx).trans (hc y hy).symm
  · intro hall
    exact ⟨fun x hx y hy => hall x (List.mem_cons_of_mem c hx) y (List.mem_cons_of_mem c hy),
      hall d (by simp) c (by simp)⟩

theorem gather_records {cs : List Element} {r : Option (Record kind)} {b : Bool}
    (h : (Joining.option Record.associative_join).gather
      (cs.map fun c => Joining.present (recordOutcome kind c)) = some (r, b)) :
    (∀ c ∈ cs, ∃ r, Record.read kind c = .ok r)
      ∧ r = (cs.head?).bind (fun c => (Record.read kind c).toOption)
      ∧ (b = true ↔ ∀ c ∈ cs, ∀ d ∈ cs, Record.Same kind c d) := by
  induction cs generalizing r b with
  | nil =>
    cases h
    exact ⟨by simp, rfl, by simp⟩
  | cons c cs ih =>
    rw [List.map_cons, Joining.gather_cons, Joining.combine_eq_some] at h
    obtain ⟨first, p, rest, q, hc, hcs, rfl, rfl⟩ := h
    obtain ⟨s, rfl, hout⟩ := Joining.present_eq_some.1 hc
    obtain ⟨hs, rfl⟩ := recordOutcome_eq_some.1 hout
    obtain ⟨hread, hrest, hclean⟩ := ih hcs
    refine ⟨List.forall_mem_cons.2 ⟨⟨s, hs⟩, hread⟩, ?_, ?_⟩
    · show (Noted.joinOption Record.join (some s) rest).value = (Record.read kind c).toOption
      rw [hs]
      cases rest <;> simp [Except.toOption]
    · show (true && q && (Noted.joinOption Record.join (some s) rest).clean) = true ↔ _
      rw [Bool.true_and, Bool.and_eq_true, hclean]
      cases cs with
      | nil =>
        subst hrest
        simp [Record.Same.refl]
      | cons d ds =>
        obtain ⟨r, hr⟩ := hread d List.mem_cons_self
        have hjoin : rest = some r := by simp [hrest, hr, Except.toOption]
        rw [hjoin, Noted.joinOption_some, Noted.clean_map, Record.clean_join, decide_eq_true_eq,
          Record.eq_iff_same hr hs]
        exact pairwise_same_cons

theorem total_records_eq_some {m : Keyed String (Record kind)} {b : Bool}
    (h : (records kind).total es = some (m, b)) :
    m.keys = ((childrenOf es kind.tag).filterMap (·.attribute? kind.keyName)).eraseDups
      ∧ (∀ key, ∀ c ∈ childrenWith es kind.tag kind.keyName key, ∃ r, Record.read kind c = .ok r)
      ∧ (∀ key, m.get? key = (childrenWith es kind.tag kind.keyName key).head?.bind fun c =>
        (Record.read kind c).toOption)
      ∧ (b = true ↔ ∀ key, ∀ c ∈ childrenWith es kind.tag kind.keyName key,
        ∀ d ∈ childrenWith es kind.tag kind.keyName key,
          Record.Same kind c d) := by
  rw [total_records] at h
  obtain ⟨hkeys, clean, hunder, hclean⟩ := Joining.gather_entry _ _ _ h
  have hkey := fun key => gather_records (hunder key)
  refine ⟨hkeys, fun key => (hkey key).1, fun key => (hkey key).2.1, ?_⟩
  rw [hclean]
  exact forall_congr' fun key => (hkey key).2.2

end Records

theorem Address.total_elements {s u : Schema} (a : Address s u) {es : List Element}
    {c : s.Content} {b : Bool}
    (h : s.total es = some (c, b)) : ∃ q, u.total (a.elements es) = some (a.content c, q) := by
  induction a generalizing es b with
  | here => exact ⟨b, h⟩
  | first a ih =>
    obtain ⟨p, q, hs, -, -⟩ := total_both_eq_some.1 h
    exact ih hs
  | second a ih =>
    obtain ⟨p, q, -, ht, -⟩ := total_both_eq_some.1 h
    exact ih ht
  | group name a ih =>
    obtain ⟨-, clean, hnames, -⟩ := total_group_eq_some h
    rcases hnames name with ⟨hes, hc, -⟩ | ⟨d, hc, hd⟩
    · exact ⟨true, by simp [elements, content, hes, hc]⟩
    · simp only [elements, content, hc]
      exact ih hd
  | part a ih =>
    rw [total_part] at h
    exact ih h
  | option a ih =>
    rcases total_option_eq_some h with ⟨hes, rfl, -⟩ | ⟨-, d, rfl, hd⟩
    · exact ⟨true, by simp [elements, content, hes]⟩
    · exact ih hd
  | produced a ih =>
    obtain ⟨p, q, -, hp, -⟩ := total_directional_eq_some h
    exact ih hp
  | consumed a ih =>
    obtain ⟨p, q, hc, -, -⟩ := total_directional_eq_some h
    exact ih hc

def Address.records {s : Schema} {kind : RecordKind} (a : Address s (records kind)) (key : String)
    (es : List Element) : List Element :=
  childrenWith (a.elements es) kind.tag kind.keyName key

/-- No two record elements of one path differ in an attribute of their kind. -/
def Agreeing (s : Schema) (es : List Element) : Prop :=
  ∀ kind (a : Address s (records kind)) key, ∀ c ∈ a.records key es, ∀ d ∈ a.records key es,
    Record.Same kind c d

section Agreeing

variable {tag : String} {s t : Schema} {es : List Element}

@[simp] theorem agreeing_nil (s : Schema) : s.Agreeing [] := by
  intro kind a key c hc
  simp [Address.records, childrenWith] at hc

theorem agreeing_records {kind : RecordKind} :
    (records kind).Agreeing es ↔ ∀ key, ∀ c ∈ childrenWith es kind.tag kind.keyName key,
      ∀ d ∈ childrenWith es kind.tag kind.keyName key, Record.Same kind c d := by
  constructor
  · exact fun h => h kind .here
  · intro h kind a
    cases a with
    | here => exact h

theorem agreeing_unsupported {what key : String} : (unsupported tag what key).Agreeing es := by
  intro kind a
  cases a

theorem agreeing_both : (both s t).Agreeing es ↔ s.Agreeing es ∧ t.Agreeing es := by
  constructor
  · exact fun h => ⟨fun kind a => h kind a.first, fun kind a => h kind a.second⟩
  · rintro ⟨hs, ht⟩ kind a
    cases a with
    | first a => exact hs kind a
    | second a => exact ht kind a

theorem agreeing_group :
    (group tag s).Agreeing es ↔ ∀ name, s.Agreeing (childrenWith es tag "Name" name) := by
  constructor
  · exact fun h name kind a => h kind (a.group name)
  · intro h kind a
    cases a with
    | group name a => exact h name kind a

theorem agreeing_part : (part tag s).Agreeing es ↔ s.Agreeing (childrenOf es tag) := by
  constructor
  · exact fun h kind a => h kind a.part
  · intro h kind a
    cases a with
    | part a => exact h kind a

theorem agreeing_option : (option tag s).Agreeing es ↔ s.Agreeing (childrenOf es tag) := by
  constructor
  · exact fun h kind a => h kind a.option
  · intro h kind a
    cases a with
    | option a => exact h kind a

theorem agreeing_directional : (directional s).Agreeing es
    ↔ s.Agreeing (childrenOf es "ConsumedData") ∧ s.Agreeing (childrenOf es "ProducedData") := by
  constructor
  · exact fun h => ⟨fun kind a => h kind a.consumed, fun kind a => h kind a.produced⟩
  · rintro ⟨hc, hp⟩ kind a
    cases a with
    | produced a => exact hp kind a
    | consumed a => exact hc kind a

end Agreeing

theorem clean_total_iff {s : Schema} {es : List Element} {c : s.Content} {b : Bool}
    (h : s.total es = some (c, b)) : b = true ↔ s.Agreeing es := by
  induction s generalizing es b with
  | records kind =>
    obtain ⟨-, -, -, hclean⟩ := total_records_eq_some h
    rw [hclean, agreeing_records]
  | unsupported tag what key =>
    rw [total_unsupported] at h
    cases h
    exact iff_of_true rfl agreeing_unsupported
  | both s t ihs iht =>
    obtain ⟨p, q, hs, ht, rfl⟩ := total_both_eq_some.1 h
    rw [Bool.and_eq_true, ihs hs, iht ht, agreeing_both]
  | group tag s ih =>
    obtain ⟨-, clean, hnames, hclean⟩ := total_group_eq_some h
    rw [hclean, agreeing_group]
    refine forall_congr' fun name => ?_
    rcases hnames name with ⟨hes, -, htrue⟩ | ⟨d, -, hd⟩
    · rw [hes]
      exact iff_of_true htrue (agreeing_nil s)
    · exact ih hd
  | part tag s ih =>
    rw [total_part] at h
    rw [ih h, agreeing_part]
  | option tag s ih =>
    rw [agreeing_option]
    rcases total_option_eq_some h with ⟨hes, -, htrue⟩ | ⟨-, d, -, hd⟩
    · rw [hes]
      exact iff_of_true htrue (agreeing_nil s)
    · exact ih hd
  | directional s ih =>
    obtain ⟨p, q, hc, hp, rfl⟩ := total_directional_eq_some h
    rw [Bool.and_eq_true, ih hc, ih hp, agreeing_directional]

end Schema

end Avionics.Exchange
