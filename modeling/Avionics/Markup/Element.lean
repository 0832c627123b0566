import Avionics.Failure
import Avionics.Keyed

/-! Trees of elements.  `text` stands before the first child, `tail` behind the end
of the element. -/

namespace Avionics.Markup

structure Tag where
  name : String
  attributes : Keyed String String := .empty
  deriving DecidableEq

namespace Tag

def set (t : Tag) (key value : String) : Tag :=
  { t with attributes := t.attributes.insert key value }

def attribute? (t : Tag) (key : String) : Option String := t.attributes.get? key

def attributeText (a : String × String) : String := a.1 ++ "=" ++ a.2

def display (t : Tag) : String :=
  t.name ++ "(" ++ ", ".intercalate (t.attributes.entries.map attributeText) ++ ")"

end Tag

structure Element extends Tag where
  children : List Element := []
  text : Option String := none
  tail : Option String := none

namespace Element

def required (e : Element) (key : String) : Except Failure String :=
  match e.attribute? key with
  | some value => .ok value
  | none => .error (.missingAttribute e.name key)

def set (e : Element) (key value : String) : Element := { e with toTag := e.toTag.set key value }

def setOptional (e : Element) (key : String) (value : Option String) : Element :=
  value.elim e (e.set key)

def push (e : Element) (child : Element) : Element := { e with children := e.children ++ [child] }

def named (name : String) (e : Element) : Bool := e.name = name

def child? (e : Element) (name : String) : Option Element := e.children.find? (named name)

def childrenNamed (e : Element) (name : String) : List Element := e.children.filter (named name)

def mapNamed (e : Element) (name : String) (f : Element → Element) : Element :=
  { e with children := e.children.map fun c => if named name c then f c else c }

def descendant? (e : Element) : List Nat → Option Element
  | [] => some e
  | i :: path => (e.children[i]?).bind (·.descendant? path)

def modifyAt (e : Element) (f : Element → Element) : List Nat → Element
  | [] => f e
  | i :: path => { e with children := e.children.modify i (·.modifyAt f path) }

mutual

def visit {m : Type → Type} [Monad m] (f : Tag → m Tag) : Element → m Element
  | ⟨tag, children, text, tail⟩ => do
    let tag ← f tag
    return ⟨tag, ← visitAll f children, text, tail⟩

def visitAll {m : Type → Type} [Monad m] (f : Tag → m Tag) : List Element → m (List Element)
  | [] => pure []
  | e :: es => do
    let e ← visit f e
    return e :: (← visitAll f es)

end

mutual

def mapTags (f : Tag → Tag) : Element → Element
  | ⟨tag, children, text, tail⟩ => ⟨f tag, mapTagsAll f children, text, tail⟩

def mapTagsAll (f : Tag → Tag) : List Element → List Element
  | [] => []
  | e :: es => mapTags f e :: mapTagsAll f es

end

@[simp] theorem mapTagsAll_eq (f : Tag → Tag) (es : List Element) :
    mapTagsAll f es = es.map (mapTags f) := by
  induction es with
  | nil => rfl
  | cons e es ih => simp [mapTagsAll, ih]

mutual

def flatten (depth : Nat) : Element → List (Nat × Element)
  | ⟨tag, children, text, tail⟩ =>
    (depth, ⟨tag, children, text, tail⟩) :: flattenAll (depth + 1) children

def flattenAll (depth : Nat) : List Element → List (Nat × Element)
  | [] => []
  | e :: es => flatten depth e ++ flattenAll depth es

end

end Element

end Avionics.Markup
