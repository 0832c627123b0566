import Avionics.Markup.Element
import Avionics.Markup.Reference

/-! The content of a tag, read one character at a time: a name up to the first space,
then attributes.  Positions count bytes from the first character of the name. -/

namespace Avionics.Markup

def isSpace (c : Char) : Bool := c = ' ' || c = '\t' || c = '\r' || c = '\n'

/-- Texts are kept last character first. -/
inductive TagStage
  | name (text : List Char)
  | gap
  | key (start : Nat) (text : List Char)
  | afterKey (start : Nat) (key : String)
  | afterEquals (key : String)
  | value (key : String) (quote : Char) (text : List Char)

structure TagReader where
  position : Nat := 0
  stage : TagStage := .name []
  tag : Tag := { name := "" }
  keys : List (String × Nat) := []

namespace TagReader

def ofText (text : List Char) : String := String.ofList text.reverse

def acceptKey (r : TagReader) (start : Nat) (key : String) : Except Failure TagReader :=
  match r.keys.lookup key with
  | some previous => .error (.badAttribute (.duplicated start previous))
  | none => .ok { r with stage := .afterEquals key, keys := (key, start) :: r.keys }

def acceptValue (r : TagReader) (key : String) (text : List Char) : Except Failure TagReader :=
  match unescape text.reverse with
  | .ok value => .ok { r with stage := .gap, tag := r.tag.set key value }
  | .error fault => .error (.markup fault)

def read (r : TagReader) (c : Char) : Except Failure TagReader :=
  match r.stage with
  | .name text =>
    if isSpace c then .ok { r with stage := .gap, tag := { r.tag with name := ofText text } }
    else .ok { r with stage := .name (c :: text) }
  | .gap => .ok (if isSpace c then r else { r with stage := .key r.position [c] })
  | .key start text =>
    if c = '=' then r.acceptKey start (ofText text)
    else if isSpace c then .ok { r with stage := .afterKey start (ofText text) }
    else .ok { r with stage := .key start (c :: text) }
  | .afterKey start key =>
    if isSpace c then .ok r
    else if c = '=' then r.acceptKey start key
    else .error (.badAttribute (.expectedEquals r.position))
  | .afterEquals key =>
    if isSpace c then .ok r
    else if c = '"' ∨ c = '\'' then .ok { r with stage := .value key c [] }
    else .error (.badAttribute (.unquoted r.position))
  | .value key quote text =>
    if c = quote then r.acceptValue key text
    else .ok { r with stage := .value key quote (c :: text) }

def step (r : TagReader) (c : Char) : Except Failure TagReader := do
  let r ← r.read c
  return { r with position := r.position + c.utf8Size }

def finish (r : TagReader) : Except Failure Tag :=
  match r.stage with
  | .name text => .ok { r.tag with name := ofText text }
  | .gap => .ok r.tag
  | .key .. | .afterKey .. => .error (.badAttribute (.expectedEquals r.position))
  | .afterEquals _ => .error (.badAttribute (.expectedValue r.position))
  | .value _ quote _ => .error (.badAttribute (.unclosedQuote r.position quote))

end TagReader

def readTag (content : List Char) : Except Failure Tag := do
  (← content.foldlM TagReader.step {}).finish

end Avionics.Markup
