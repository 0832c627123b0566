import Avionics.Yaml.Tag

/-! The tokens of a stream.  Indentation opens and closes block collections, and a key
without an indicator is known as one only when its colon comes: until then its place
among the tokens is kept. -/

namespace Avionics.Yaml

/-- A token that may turn out to start a key. -/
structure KeyCandidate where
  place : Nat
  required : Bool
  position : Position

structure Lexer where
  cursor : Cursor
  /-- Last one first. -/
  tokens : List Token := []
  indents : List Nat := []
  candidate : Option KeyCandidate := none
  outer : List (Option KeyCandidate) := []
  keyAllowed : Bool := true

namespace Lexer

def inFlow (l : Lexer) : Bool := !l.outer.isEmpty

def emit (l : Lexer) (t : Token) : Lexer := { l with tokens := t :: l.tokens }

def emitAt (l : Lexer) (place : Nat) (t : Token) : Lexer :=
  { l with tokens := l.tokens.insertIdx (l.tokens.length - place) t }

def least (l : Lexer) : Nat := l.indents.head?.elim 0 (· + 1)

def openBlock (l : Lexer) (column place : Nat) (t : Token) : Lexer :=
  if l.inFlow || column < l.least then l
  else { l with indents := column :: l.indents }.emitAt place t

def closeBlocks (column : Option Nat) : List Nat → List Token → List Nat × List Token
  | [], tokens => ([], tokens)
  | indent :: indents, tokens =>
    if column.all (· < indent) then closeBlocks column indents (.blockEnd :: tokens)
    else (indent :: indents, tokens)

def unroll (l : Lexer) (column : Option Nat) : Lexer :=
  if l.inFlow then l
  else
    let (indents, tokens) := closeBlocks column l.indents l.tokens
    { l with indents := indents, tokens := tokens }

def isStale (here : Position) (k : KeyCandidate) : Bool :=
  k.position.line < here.line || k.position.index + 1024 < here.index

/-- A key ends on the line where it starts and has at most 1024 octets. -/
def dropStale (l : Lexer) : Option Lexer :=
  let stale (k : Option KeyCandidate) : Bool := k.any (isStale l.cursor.position)
  if (l.candidate :: l.outer).any fun k => stale k && k.any (·.required) then none
  else
    let fresh (k : Option KeyCandidate) : Option KeyCandidate := if stale k then none else k
    some { l with candidate := fresh l.candidate, outer := l.outer.map fresh }

def dropCandidate (l : Lexer) : Option Lexer :=
  if l.candidate.any (·.required) then none else some { l with candidate := none }

def saveCandidate (l : Lexer) : Option Lexer :=
  if l.keyAllowed then do
    let required := !l.inFlow && l.indents.head? = some l.cursor.position.column
    let l ← l.dropCandidate
    return { l with
      candidate :=
        some { place := l.tokens.length, required := required, position := l.cursor.position } }
  else some l

/-- Passes over blanks, comments and breaks, and over a byte order mark in front of a line.
Behind a break a key may start. -/
def skipGap (flow : Bool) : Bool → Bool → Position → List Char → Cursor × Bool
  | allowed, _, p, [] => (⟨p, []⟩, allowed)
  | allowed, comment, p, c :: cs =>
    if isBreak c then skipGap flow (allowed || !flow) false (p.advance c) cs
    else if c = '\ufeff' && p.column = 0 then skipGap flow allowed comment (p.advance c) cs
    else if comment || c = ' ' || (c = '\t' && (flow || !allowed)) then
      skipGap flow allowed comment (p.advance c) cs
    else if c = '#' then skipGap flow allowed true (p.advance c) cs
    else (⟨p, c :: cs⟩, allowed)

def decimal (digits : List Char) : Option Nat :=
  if digits.isEmpty || digits.length > 9 then none
  else some (digits.foldl (fun n c => 10 * n + (c.toNat - '0'.toNat)) 0)

def tagHandle? (c : Cursor) : Option (List Char × Cursor) :=
  if c.head? = some '!' then
    let (word, c) := c.next.span isWord
    if c.head? = some '!' then some ('!' :: word ++ ['!'], c.next) else some ('!' :: word, c)
  else none

def directive (l : Lexer) : Option Lexer := do
  let (name, c) := l.cursor.next.span isWord
  if name.isEmpty || !isGap c.head? then none
  let c := c.dropWhile isBlank
  let (token, c) ←
    if name = "YAML".toList then do
      let (major, c) := c.span Char.isDigit
      if c.head? ≠ some '.' then none
      let (minor, c) := c.next.span Char.isDigit
      some (Token.version (← decimal major) (← decimal minor), c)
    else if name = "TAG".toList then do
      let (handle, c) ← tagHandle? c
      if handle ≠ ['!'] ∧ (handle.length < 2 ∨ handle.getLast? ≠ some '!') then none
      if !c.head?.any isBlank then none
      let (stem, c) := (c.dropWhile isBlank).span (Tag.isChar true)
      if stem.isEmpty || !isGap c.head? then none
      some (Token.tagDirective (String.ofList handle) (← Tag.octets? stem), c)
    else none
  return { l with cursor := ← lineEnd? c }.emit token

def reference (l : Lexer) (token : String → Token) : Option Lexer := do
  let (name, c) := l.cursor.next.span isWord
  if name.isEmpty || !(isGap c.head? || c.head?.any (· ∈ "?:,]\x7d%@`".toList)) then none
  return { l with cursor := c }.emit (token (String.ofList name))

def tagToken (l : Lexer) : Option Lexer := do
  let (handle, suffix, c) ←
    if l.cursor.second? = some '<' then do
      let (text, c) := (l.cursor.skip 2).span (Tag.isChar true)
      if text.isEmpty || c.head? ≠ some '>' then none
      some ([], ← Tag.octets? text, c.next)
    else do
      let (handle, c) ← tagHandle? l.cursor
      let (text, c) := c.span (Tag.isChar false)
      if handle.length ≥ 2 ∧ handle.getLast? = some '!' then
        if text.isEmpty then none
        some (handle, ← Tag.octets? text, c)
      else
        let suffix ← Tag.octets? (handle.tail ++ text)
        some (if suffix.isEmpty then ([], Text.encode "!", c) else (['!'], suffix, c))
  if !(isGap c.head? || (l.inFlow && c.head? = some ',')) then none
  return { l with cursor := c }.emit (.tag (String.ofList handle) suffix)

def documentMark (l : Lexer) (t : Token) : Option Lexer := do
  let l ← (l.unroll none).dropCandidate
  return { l with keyAllowed := false, cursor := l.cursor.skip 3 }.emit t

def openFlow (l : Lexer) (t : Token) : Option Lexer := do
  let l ← l.saveCandidate
  return { l with
    candidate := none
    outer := l.candidate :: l.outer
    keyAllowed := true
    cursor := l.cursor.next }.emit t

def closeFlow (l : Lexer) (t : Token) : Option Lexer := do
  let l ← l.dropCandidate
  return { l with
    candidate := l.outer.head?.join
    outer := l.outer.tail
    keyAllowed := false
    cursor := l.cursor.next }.emit t

def flowEntry (l : Lexer) : Option Lexer := do
  let l ← l.dropCandidate
  return { l with keyAllowed := true, cursor := l.cursor.next }.emit .flowEntry

def blockEntry (l : Lexer) : Option Lexer := do
  if !l.inFlow && !l.keyAllowed then none
  let l ← (l.openBlock l.cursor.position.column l.tokens.length .blockSequenceStart).dropCandidate
  return { l with keyAllowed := true, cursor := l.cursor.next }.emit .blockEntry

def key (l : Lexer) : Option Lexer := do
  if !l.inFlow && !l.keyAllowed then none
  let l ← (l.openBlock l.cursor.position.column l.tokens.length .blockMappingStart).dropCandidate
  return { l with keyAllowed := !l.inFlow, cursor := l.cursor.next }.emit .key

def value (l : Lexer) : Option Lexer :=
  match l.candidate with
  | some k =>
    let l := (l.emitAt k.place .key).openBlock k.position.column k.place .blockMappingStart
    some ({ l with candidate := none, keyAllowed := false, cursor := l.cursor.next }.emit .value)
  | none =>
    if !l.inFlow && !l.keyAllowed then none
    else
      let l := l.openBlock l.cursor.position.column l.tokens.length .blockMappingStart
      some ({ l with keyAllowed := !l.inFlow, cursor := l.cursor.next }.emit .value)

def block (l : Lexer) (folded : Bool) : Option Lexer := do
  let l ← l.dropCandidate
  let (text, c) ← blockScalar folded l.least l.cursor.next
  return { l with keyAllowed := true, cursor := c }.emit
    (.scalar (if folded then .folded else .literal) text)

def quoted (l : Lexer) (quote : Char) : Option Lexer := do
  let l ← l.saveCandidate
  let start := l.cursor.next
  let (text, c) ← quotedScalar quote .text .none [] start.position start.rest
  return { l with keyAllowed := false, cursor := c }.emit (.scalar .quoted text)

def plain (l : Lexer) : Option Lexer := do
  let l ← l.saveCandidate
  let (text, broken, c) ← plainScalar l.inFlow l.least .none [] l.cursor.position l.cursor.rest
  return { l with keyAllowed := broken, cursor := c }.emit (.scalar .plain text)

def startsPlain (l : Lexer) (c : Char) : Bool :=
  c ∉ "-?:,[]\x7b\x7d#&*!|>'\"%@`".toList || (c = '-' && !l.cursor.second?.any isBlank)
    || (!l.inFlow && (c = '?' || c = ':') && !isGap l.cursor.second?)

/-- A token in front of a node can start a key, but behind it none can start. -/
def property (l : Lexer) (read : Lexer → Option Lexer) : Option Lexer := do
  let l ← l.saveCandidate
  read { l with keyAllowed := false }

def dispatch (l : Lexer) (c : Char) : Option Lexer :=
  let ends := isGap l.cursor.second?
  match documentMark? l.cursor.position l.cursor.rest with
  | some t => l.documentMark t
  | none =>
    if c = '%' && l.cursor.position.column = 0 then do
      let l ← (l.unroll none).dropCandidate
      directive { l with keyAllowed := false }
    else if c = '[' then l.openFlow .flowSequenceStart
    else if c = '\x7b' then l.openFlow .flowMappingStart
    else if c = ']' then l.closeFlow .flowSequenceEnd
    else if c = '\x7d' then l.closeFlow .flowMappingEnd
    else if c = ',' then l.flowEntry
    else if c = '-' && ends then l.blockEntry
    else if c = '?' && (l.inFlow || ends) then l.key
    else if c = ':' && (l.inFlow || ends) then l.value
    else if c = '*' then l.property (reference · .alias)
    else if c = '&' then l.property (reference · .anchor)
    else if c = '!' then l.property tagToken
    else if c = '|' && !l.inFlow then l.block false
    else if c = '>' && !l.inFlow then l.block true
    else if c = '\'' || c = '"' then l.quoted c
    else if !isBlank c && l.startsPlain c then l.plain
    else none

def step (l : Lexer) : Option Lexer := do
  let (cursor, allowed) := skipGap l.inFlow l.keyAllowed false l.cursor.position l.cursor.rest
  let l ← dropStale { l with cursor := cursor, keyAllowed := allowed }
  match cursor.head? with
  | none =>
    let l ← (l.unroll none).dropCandidate
    return l.emit .streamEnd
  | some c => (l.unroll (some cursor.position.column)).dispatch c

def run : Nat → Lexer → Option (List Token)
  | 0, _ => none
  | n + 1, l => do
    let l ← l.step
    if l.tokens.head? = some .streamEnd then return l.tokens.reverse
    run n l

end Lexer

def tokens? (source : String) : Option (List Token) :=
  if source.toList.all isAllowed then
    let cs := normalize source.toList
    Lexer.run (cs.length + 1) { cursor := { rest := cs } }
  else none

end Avionics.Yaml
