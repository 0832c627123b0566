import Avionics.Markup.Element
import Avionics.Text.Character

namespace Avionics.Markup

def margin (depth : Nat) : String := String.ofList ('\n' :: List.replicate (2 * depth) ' ')

def isBlankSlot (slot : Option String) : Bool := slot.all Text.isBlank

def fill (depth : Nat) (slot : Option String) : Option String :=
  if isBlankSlot slot then some (margin depth) else slot

namespace Element

mutual

/-- Indents the inside of an element that stands at `depth`, and its tail up to `next`,
the depth of the tag that follows. -/
def layout (depth next : Nat) : Element → Element
  | ⟨tag, [], text, tail⟩ => ⟨tag, [], text, fill next tail⟩
  | ⟨tag, c :: cs, text, tail⟩ =>
    ⟨tag, layoutAll (depth + 1) (c :: cs), fill (depth + 1) text, fill next tail⟩

def layoutAll (depth : Nat) : List Element → List Element
  | [] => []
  | [c] => [layout depth (depth - 1) c]
  | c :: d :: cs => layout depth depth c :: layoutAll depth (d :: cs)

end

/-- A root without children is left alone. -/
def indent (e : Element) : Element := if e.children.isEmpty then e else e.layout 0 0

end Element

end Avionics.Markup
