import Avionics.Text.Character
import Avionics.Yaml.Token

namespace Avionics.Yaml

/-- The blanks and breaks that were met since the last character of a word.  Blanks do not
count once there was a break.  Texts but `first` are kept last character first. -/
inductive Gap
  | none
  | blanks (text : List Char)
  | breaks (first more : List Char)

namespace Gap

def add : Gap → Char → Gap
  | none, c => if isBreak c then breaks [c] [] else blanks [c]
  | blanks text, c => if isBreak c then breaks [c] [] else blanks (c :: text)
  | breaks first more, c => if isBreak c then breaks first (c :: more) else breaks first more

def text : Gap → List Char
  | none => []
  | blanks text => text.reverse
  | breaks first more =>
    if first = ['\n'] then if more.isEmpty then [' '] else more.reverse
    else first ++ more.reverse

def isNone : Gap → Bool
  | none => true
  | _ => false

def hasBreak : Gap → Bool
  | breaks .. => true
  | _ => false

end Gap

def isFlowIndicator (c : Char) : Bool := c ∈ [',', '[', ']', '\x7b', '\x7d']

/-- A plain scalar with its text, and whether it went on to another line at its end. -/
def plainScalar (flow : Bool) (indent : Nat) :
    Gap → List Char → Position → List Char → Option (String × Bool × Cursor)
  | gap, text, p, [] => some (String.ofList text.reverse, gap.hasBreak, ⟨p, []⟩)
  | gap, text, p, c :: cs =>
    let stop := some (String.ofList text.reverse, gap.hasBreak, ⟨p, c :: cs⟩)
    if isBlank c || isBreak c then
      if c = '\t' && gap.hasBreak && p.column < indent then none
      else plainScalar flow indent (gap.add c) text (p.advance c) cs
    else if !gap.isNone
        && ((!flow && p.column < indent) || c = '#' || (documentMark? p (c :: cs)).isSome) then stop
    else if flow && c = ':' && cs.head?.any (fun d => d = '?' || isFlowIndicator d) then none
    else if c = ':' && isGap cs.head? then stop
    else if flow && isFlowIndicator c then stop
    else plainScalar flow indent .none (c :: gap.text.reverse ++ text) (p.advance c) cs

inductive QuoteMode
  | text
  | verbatim
  | lineEscape
  | escape
  | hex (digits value : Nat)

def simpleEscape? (c : Char) : Option Char :=
  match c with
  | '0' => some '\x00'
  | 'a' => some '\x07'
  | 'b' => some '\x08'
  | 't' | '\t' => some '\t'
  | 'n' => some '\n'
  | 'v' => some '\x0b'
  | 'f' => some '\x0c'
  | 'r' => some '\r'
  | 'e' => some '\x1b'
  | ' ' | '"' | '/' | '\\' => some c
  | 'N' => some '\u0085'
  | '_' => some '\u00a0'
  | 'L' => some '\u2028'
  | 'P' => some '\u2029'
  | _ => none

def hexEscape? (c : Char) : Option Nat :=
  match c with
  | 'x' => some 2
  | 'u' => some 4
  | 'U' => some 8
  | _ => none

def codepoint? (n : Nat) : Option Char :=
  if h : n.isValidChar then some (Char.ofNatAux n h) else none

def quotedScalar (quote : Char) :
    QuoteMode → Gap → List Char → Position → List Char → Option (String × Cursor)
  | _, _, _, _, [] => none
  | mode, gap, text, p, c :: cs =>
    let q := p.advance c
    match mode with
    | .verbatim => quotedScalar quote .text .none (c :: text) q cs
    | .lineEscape => quotedScalar quote .text (.breaks [] []) text q cs
    | .escape =>
      match simpleEscape? c, hexEscape? c with
      | some d, _ => quotedScalar quote .text .none (d :: text) q cs
      | none, some digits => quotedScalar quote (.hex digits 0) .none text q cs
      | none, none => none
    | .hex digits value =>
      match Text.digit? 16 c with
      | none => none
      | some d =>
        if digits ≤ 1 then
          match codepoint? (16 * value + d) with
          | some x => quotedScalar quote .text .none (x :: text) q cs
          | none => none
        else quotedScalar quote (.hex (digits - 1) (16 * value + d)) .none text q cs
    | .text =>
      let joined := gap.text.reverse ++ text
      if (documentMark? p (c :: cs)).isSome then none
      else if isBlank c || isBreak c then quotedScalar quote .text (gap.add c) text q cs
      else if c = quote then
        if quote = '\'' && cs.head? = some '\'' then quotedScalar quote .verbatim .none joined q cs
        else some (String.ofList joined.reverse, ⟨q, cs⟩)
      else if quote = '"' && c = '\\' then
        quotedScalar quote (if cs.head?.any isBreak then .lineEscape else .escape) .none joined q cs
      else quotedScalar quote .text .none (c :: joined) q cs

inductive Chomping
  | strip | clip | keep

structure Line where
  text : List Char
  ending : List Char

def splitLines : List Char → List Line
  | [] => [⟨[], []⟩]
  | c :: cs =>
    if isBreak c then ⟨[], [c]⟩ :: splitLines cs
    else
      match splitLines cs with
      | [] => [⟨[c], []⟩]
      | l :: ls => { l with text := c :: l.text } :: ls

def Line.indent (l : Line) : Nat := (l.text.takeWhile (· = ' ')).length

def Line.isSpaces (l : Line) : Bool := l.text.all (· = ' ')

def detectIndent (least : Nat) : List Line → Option Nat
  | [] => some least
  | l :: ls =>
    if (l.text.drop l.indent).head? = some '\t' then none
    else if l.isSpaces && !l.ending.isEmpty then detectIndent (max least l.indent) ls
    else some (max least l.indent)

structure Block where
  text : List Char := []
  leading : List Char := []
  trailing : List Char := []
  indented : Bool := false

def Block.add (b : Block) (folded : Bool) (content ending : List Char) : Block :=
  let indented := content.head?.any isBlank
  let joint :=
    if folded && b.leading = ['\n'] && !b.indented && !indented then
      if b.trailing.isEmpty then [' '] else []
    else b.leading
  { text := b.text ++ joint ++ b.trailing ++ content, leading := ending, trailing := [],
    indented := indented }

def Block.chomp (b : Block) : Chomping → List Char
  | .strip => b.text
  | .clip => b.text ++ b.leading
  | .keep => b.text ++ b.leading ++ b.trailing

def takeBlock (folded : Bool) (indent : Nat) : Block → List Line → Option (Block × List Line)
  | b, [] => some (b, [])
  | b, l :: ls =>
    let width := min indent l.indent
    match l.text.drop width with
    | [] =>
      if l.ending.isEmpty then some (b, [])
      else takeBlock folded indent { b with trailing := b.trailing ++ l.ending } ls
    | c :: cs =>
      if width < indent then if c = '\t' then none else some (b, l :: ls)
      else takeBlock folded indent (b.add folded (c :: cs) l.ending) ls

def chomping? (c : Char) : Option Chomping :=
  match c with
  | '+' => some .keep
  | '-' => some .strip
  | _ => none

def blockHeader (c : Cursor) : Option (Chomping × Option Nat × Cursor) :=
  let digit? (c : Cursor) : Option (Option Nat × Cursor) :=
    match c.head? with
    | some d =>
      if d = '0' then none
      else if d.isDigit then some (some (d.toNat - '0'.toNat), c.next)
      else some (none, c)
    | none => some (none, c)
  match c.head?.bind chomping? with
  | some chomping => do
    let (increment, c) ← digit? c.next
    return (chomping, increment, c)
  | none => do
    let (increment, c) ← digit? c
    match increment, c.head?.bind chomping? with
    | some _, some chomping => return (chomping, increment, c.next)
    | _, _ => return (.clip, increment, c)

def lineEnd? (c : Cursor) : Option Cursor :=
  let c := c.dropWhile isBlank
  let c := if c.head? = some '#' then c.dropWhile (!isBreak ·) else c
  if c.head?.all isBreak then some c.next else none

def blockScalar (folded : Bool) (least : Nat) (c : Cursor) : Option (String × Cursor) := do
  let (chomping, increment, c) ← blockHeader c
  let c ← lineEnd? c
  let lines := splitLines c.rest
  let indent ← match increment with
    | some n => some (if least = 0 then n else least - 1 + n)
    | none => detectIndent (max least 1) lines
  let (block, left) ← takeBlock folded indent {} lines
  let size := left.foldl (fun n l => n + l.text.length + l.ending.length) 0
  return (String.ofList (block.chomp chomping), c.skip (c.rest.length - size))

end Avionics.Yaml
