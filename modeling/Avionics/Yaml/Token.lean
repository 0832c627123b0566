namespace Avionics.Yaml

inductive Style
  | plain | quoted | literal | folded
  deriving DecidableEq

abbrev Octets := List UInt8

inductive Token
  | version (major minor : Nat)
  | tagDirective (handle : String) (stem : Octets)
  | documentStart | documentEnd | streamEnd
  | blockSequenceStart | blockMappingStart | blockEnd
  | flowSequenceStart | flowSequenceEnd
  | flowMappingStart | flowMappingEnd
  | blockEntry | flowEntry
  | key | value
  | alias (name : String)
  | anchor (name : String)
  | tag (handle : String) (suffix : Octets)
  | scalar (style : Style) (text : String)
  deriving DecidableEq

def isBreak (c : Char) : Bool := c = '\n' || c = '\u2028' || c = '\u2029'

def isBlank (c : Char) : Bool := c = ' ' || c = '\t'

def isGap (c : Option Char) : Bool := c.all fun c => isBlank c || isBreak c

def isWord (c : Char) : Bool := c.isAlphanum || c = '_' || c = '-'

def isAllowed (c : Char) : Bool :=
  let n := c.toNat
  c = '\t' || c = '\n' || c = '\r' || n = 0x85 || (0x20 ≤ n && n ≤ 0x7E)
    || (0xA0 ≤ n && n ≤ 0xFFFD) || 0x10000 ≤ n

/-- All line breaks but the two separators become line feeds. -/
def normalize : List Char → List Char
  | '\r' :: '\n' :: cs => '\n' :: normalize cs
  | c :: cs => (if c = '\r' || c = '\u0085' then '\n' else c) :: normalize cs
  | [] => []

/-- The column counts characters, and the index octets. -/
structure Position where
  index : Nat := 0
  line : Nat := 0
  column : Nat := 0

def Position.advance (p : Position) (c : Char) : Position :=
  let index := p.index + c.utf8Size
  if isBreak c then { index := index, line := p.line + 1, column := 0 }
  else { p with index := index, column := p.column + 1 }

structure Cursor where
  position : Position := {}
  rest : List Char

namespace Cursor

def head? (c : Cursor) : Option Char := c.rest.head?

def second? (c : Cursor) : Option Char := c.rest.tail.head?

def next (c : Cursor) : Cursor :=
  match c.rest with
  | [] => c
  | x :: xs => ⟨c.position.advance x, xs⟩

def skip (c : Cursor) : Nat → Cursor
  | 0 => c
  | n + 1 => c.next.skip n

def dropWhile (c : Cursor) (p : Char → Bool) : Cursor := c.skip (c.rest.takeWhile p).length

def span (c : Cursor) (p : Char → Bool) : List Char × Cursor := (c.rest.takeWhile p, c.dropWhile p)

end Cursor

def documentMark? (p : Position) : List Char → Option Token
  | '-' :: '-' :: '-' :: cs => if p.column = 0 && isGap cs.head? then some .documentStart else none
  | '.' :: '.' :: '.' :: cs => if p.column = 0 && isGap cs.head? then some .documentEnd else none
  | _ => none

end Avionics.Yaml
