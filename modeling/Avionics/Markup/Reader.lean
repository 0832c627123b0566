import Avionics.Markup.TagReader

/-! Documents, read one character at a time into the first element at the top level.
Instructions, comments and document types are skipped, and so is text outside of the
root.  Text is trimmed on both ends and dropped when nothing is left. -/

namespace Avionics.Markup

/-- An element whose end tag is still to come.  Children stand last one first. -/
structure Frame where
  tag : Tag
  children : List Element := []
  text : Option String := none

namespace Frame

def close (f : Frame) : Element :=
  { toTag := f.tag, children := f.children.reverse, text := f.text }

def attach (f : Frame) (e : Element) : Frame := { f with children := e :: f.children }

def appendSlot (slot : Option String) (s : String) : Option String := some (slot.getD "" ++ s)

/-- Text belongs to the tail of the last child, or to the element itself before its first one. -/
def addText (f : Frame) (s : String) : Frame :=
  match f.children with
  | [] => { f with text := appendSlot f.text s }
  | c :: cs => { f with children := { c with tail := appendSlot c.tail s } :: cs }

end Frame

structure Builder where
  root : Option Element := none
  stack : List Frame := []

namespace Builder

def attach (b : Builder) (e : Element) : Builder :=
  match b.stack with
  | f :: fs => { b with stack := f.attach e :: fs }
  | [] => { b with root := b.root.or (some e) }

def openElement (b : Builder) (t : Tag) : Builder := { b with stack := { tag := t } :: b.stack }

def closeElement (b : Builder) (name : String) : Except Failure Builder :=
  match b.stack with
  | [] => .error (.markup (.unmatchedEnd name))
  | f :: fs =>
    if f.tag.name = name then .ok ({ b with stack := fs }.attach f.close)
    else .error (.markup (.mismatchedEnd f.tag.name name))

def addText (b : Builder) (s : String) : Builder :=
  match b.stack with
  | f :: fs => { b with stack := f.addText s :: fs }
  | [] => b

def finish (b : Builder) : Except Failure Element :=
  match b.stack, b.root with
  | f :: _, _ => .error (.unbalanced f.tag.name)
  | [], some e => .ok e
  | [], none => .error .emptyDocument

end Builder

/-- The kind of item that the reader is in, with its characters last one first.  Items
between angle brackets are kept without them. -/
inductive Mode
  | text (raw : List Char)
  | opened
  | exclamation
  | instruction (raw : List Char)
  | comment (raw : List Char)
  | cdata (raw : List Char)
  | doctype (raw : List Char) (depth : Nat)
  | tag (quote : Option Char) (raw : List Char)

structure Reader where
  builder : Builder := {}
  mode : Mode := .text []

namespace Reader

def trim (s : List Char) : List Char := ((s.dropWhile isSpace).reverse.dropWhile isSpace).reverse

def addText (b : Builder) (raw : List Char) : Except Failure Builder :=
  match trim raw.reverse with
  | [] => .ok b
  | s =>
    match unescape s with
    | .ok s => .ok (b.addText s)
    | .error fault => .error (.markup fault)

/-- A name of an end tag loses the spaces behind it, unless there is nothing else. -/
def endName (raw : List Char) : List Char :=
  if raw.all isSpace then raw else (raw.reverse.dropWhile isSpace).reverse

def addTag (b : Builder) (content : List Char) : Except Failure Builder :=
  match content with
  | '/' :: raw => b.closeElement (String.ofList (endName raw))
  | _ =>
    if content.getLast? = some '/' then do
      return b.attach { toTag := ← readTag content.dropLast }
    else do
      return b.openElement (← readTag content)

def doctypeWord : List Char := "!doctype".toList

def checkDoctype (content : List Char) : Except Failure Unit :=
  if (content.take 8).map Char.toLower ≠ doctypeWord then .error (.markup (.unclosed .doctype))
  else if (content.drop 8).all isSpace then .error (.markup .unnamedDoctype)
  else .ok ()

def cdataWord : List Char := "![CDATA[".toList

def unclosed {α : Type} (construct : Construct) : Except Failure α :=
  .error (.markup (.unclosed construct))

def stepTag (b : Builder) (raw : List Char) (c : Char) : Except Failure Reader :=
  match c with
  | '>' => do return { builder := ← addTag b raw.reverse, mode := .text [] }
  | '"' | '\'' => .ok { builder := b, mode := .tag (some c) (c :: raw) }
  | c => .ok { builder := b, mode := .tag none (c :: raw) }

def step (r : Reader) (c : Char) : Except Failure Reader :=
  let skip (mode : Mode) : Except Failure Reader := .ok { r with mode := mode }
  let finished : Except Failure Reader := .ok { r with mode := .text [] }
  match r.mode with
  | .text raw =>
    if c = '<' then do return { builder := ← addText r.builder raw, mode := .opened }
    else skip (.text (c :: raw))
  | .opened =>
    match c with
    | '!' => skip .exclamation
    | '?' => skip (.instruction ['?'])
    | c => stepTag r.builder [] c
  | .exclamation =>
    match c with
    | '[' => skip (.cdata ['[', '!'])
    | '-' => skip (.comment ['-', '!'])
    | 'D' | 'd' => skip (.doctype [c, '!'] 0)
    | _ => .error (.markup .unknownMarkup)
  | .instruction raw =>
    match c, raw with
    | '>', ['?'] => unclosed .instruction
    | '>', '?' :: _ => finished
    | _, _ => skip (.instruction (c :: raw))
  | .comment raw =>
    match c, raw with
    | '>', '-' :: '-' :: more =>
      if more.length < 3 then skip (.comment (c :: raw))
      else if raw.reverse.take 3 = ['!', '-', '-'] then finished
      else unclosed .comment
    | _, _ => skip (.comment (c :: raw))
  | .cdata raw =>
    match c, raw with
    | '>', ']' :: ']' :: more =>
      if more.reverse.take 8 = cdataWord then
        .ok { builder := r.builder.addText (String.ofList (more.reverse.drop 8)), mode := .text [] }
      else unclosed .cdata
    | _, _ => skip (.cdata (c :: raw))
  | .doctype raw depth =>
    match c, depth with
    | '<', depth => skip (.doctype (c :: raw) (depth + 1))
    | '>', depth + 1 => skip (.doctype (c :: raw) depth)
    | '>', 0 => do
      checkDoctype raw.reverse
      finished
    | _, _ => skip (.doctype (c :: raw) depth)
  | .tag (some quote) raw => skip (.tag (if c = quote then none else some quote) (c :: raw))
  | .tag none raw => stepTag r.builder raw c

def finish (r : Reader) : Except Failure Element :=
  match r.mode with
  | .text raw => do (← addText r.builder raw).finish
  | .opened | .tag .. => unclosed .tag
  | .exclamation => .error (.markup .unknownMarkup)
  | .instruction _ => unclosed .instruction
  | .comment _ => unclosed .comment
  | .cdata _ => unclosed .cdata
  | .doctype .. => unclosed .doctype

def run (s : List Char) : Except Failure Element := do
  (← s.foldlM step {}).finish

end Reader

/-- A byte order mark in front is dropped. -/
def Element.parse (source : String) : Except Failure Element :=
  match source.toList with
  | '\ufeff' :: s => Reader.run s
  | s => Reader.run s

end Avionics.Markup
