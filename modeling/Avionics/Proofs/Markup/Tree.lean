import Avionics.Markup.Element

namespace Avionics.Markup.Element

mutual

@[elab_as_elim]
theorem induct {motive : Element → Prop}
    (mk : ∀ (tag : Tag) (children : List Element) (text tail : Option String),
    (∀ c ∈ children, motive c) → motive ⟨tag, children, text, tail⟩) : ∀ e : Element, motive e
  | ⟨tag, children, text, tail⟩ => mk tag children text tail (inductAll mk children)

theorem inductAll {motive : Element → Prop}
    (mk : ∀ (tag : Tag) (children : List Element) (text tail : Option String),
    (∀ c ∈ children, motive c) → motive ⟨tag, children, text, tail⟩) : ∀ es : List Element,
      ∀ c ∈ es, motive c
  | [] => nofun
  | e :: es => List.forall_mem_cons.2 ⟨induct mk e, inductAll mk es⟩

end

variable {e : Element} {P : List Nat → Element → Prop}

@[simp] theorem descendant?_nil (e : Element) : e.descendant? [] = some e := rfl

theorem descendant?_cons (e : Element) (i : Nat) (path : List Nat) :
    e.descendant? (i :: path) = e.children[i]?.bind (·.descendant? path) := rfl

theorem descendant?_append (e : Element) (path more : List Nat) :
    e.descendant? (path ++ more) = (e.descendant? path).bind (·.descendant? more) := by
  induction path generalizing e with
  | nil => rfl
  | cons i path ih =>
    rw [List.cons_append, descendant?_cons, descendant?_cons]
    cases e.children[i]? with
    | none => rfl
    | some c => exact ih c

theorem descendant?_concat (e : Element) (path : List Nat) (i : Nat) :
    e.descendant? (path ++ [i]) = (e.descendant? path).bind (·.children[i]?) := by
  rw [descendant?_append]
  refine congrArg (Option.bind _) (funext fun c => ?_)
  exact Option.bind_fun_some _

theorem forall_descendant_iff : (∀ path c, e.descendant? path = some c → P path c)
    ↔ P [] e ∧ ∀ i c, e.children[i]? = some c → ∀ path d, c.descendant? path = some d →
    P (i :: path) d := by
  constructor
  · intro h
    refine ⟨h [] e rfl, fun i c hi path d hd => h (i :: path) d ?_⟩
    rw [descendant?_cons, hi]
    exact hd
  · rintro ⟨hroot, hchildren⟩ path d hd
    cases path with
    | nil =>
      cases hd
      exact hroot
    | cons i path =>
      obtain ⟨c, hi, hd⟩ := Option.bind_eq_some_iff.1 hd
      exact hchildren i c hi path d hd

theorem forall_getElem?_iff {es : List Element} {Q : Element → Prop} :
    (∀ (i : Nat) c, es[i]? = some c → Q c) ↔ ∀ c ∈ es, Q c := by
  constructor
  · intro h c hc
    obtain ⟨i, hi⟩ := List.getElem?_of_mem hc
    exact h i c hi
  · intro h i c hi
    exact h c (List.mem_of_getElem? hi)

end Avionics.Markup.Element
