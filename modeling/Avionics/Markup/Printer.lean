import Avionics.Markup.Element
import Avionics.Markup.Reference

namespace Avionics.Markup

def declaration : List Char := "<?xml version=\"1.0\" encoding=\"utf-8\"?>\n".toList

def printSlot (slot : Option String) : List Char := slot.elim [] fun s => escape s.toList

def printAttribute (a : String × String) : List Char :=
  ' ' :: a.1.toList ++ ['=', '"'] ++ escape a.2.toList ++ ['"']

def printTag (t : Tag) : List Char := t.name.toList ++ t.attributes.entries.flatMap printAttribute

namespace Element

mutual

def print : Element → List Char
  | ⟨tag, [], none, tail⟩ => '<' :: printTag tag ++ ['/', '>'] ++ printSlot tail
  | ⟨tag, children, text, tail⟩ =>
    '<' :: printTag tag ++ '>' :: printSlot text ++ printAll children
      ++ '<' :: '/' :: tag.name.toList ++ '>' :: printSlot tail

def printAll : List Element → List Char
  | [] => []
  | e :: es => print e ++ printAll es

end

def render (e : Element) : String := String.ofList (declaration ++ e.print)

end Element

end Avionics.Markup
