import Avionics.Markup.Fault
import Avionics.Text.Character

namespace Avionics.Markup

def escapeChar (c : Char) : List Char :=
  match c with
  | '<' => "&lt;".toList
  | '>' => "&gt;".toList
  | '&' => "&amp;".toList
  | '\'' => "&apos;".toList
  | '"' => "&quot;".toList
  | c => [c]

def escape (s : List Char) : List Char := s.flatMap escapeChar

def namedReference? (name : String) : Option Char :=
  match name with
  | "lt" => some '<'
  | "gt" => some '>'
  | "amp" => some '&'
  | "apos" => some '\''
  | "quot" => some '"'
  | _ => none

/-- Digits are judged from left to right, each for its validity before the number for its size. -/
def number (base acc : Nat) : List Char → Except ReferenceFault Nat
  | [] => .ok acc
  | c :: cs =>
    match Text.digit? base c with
    | none => .error .invalidDigit
    | some d =>
      if acc * base + d < 2 ^ 32 then number base (acc * base + d) cs else .error .tooLarge

def unsigned (base : Nat) : List Char → Except ReferenceFault Nat
  | [] => .error .empty
  | '+' :: _ | '-' :: _ => .error .unexpectedSign
  | cs => number base 0 cs

def codepoint (n : Nat) : Except ReferenceFault Char :=
  if n = 0 then .error .null
  else if h : n.isValidChar then .ok (Char.ofNatAux n h)
  else .error (.invalidCodepoint n)

def numberedReference : List Char → Except ReferenceFault Char
  | 'x' :: cs => do codepoint (← unsigned 16 cs)
  | cs => do codepoint (← unsigned 10 cs)

def reference (start : Nat) (name : List Char) : Except Fault Char :=
  match name with
  | '#' :: cs =>
    match numberedReference cs with
    | .ok c => .ok c
    | .error fault => .error (.badReference fault)
  | _ =>
    match namedReference? (String.ofList name) with
    | some c => .ok c
    | none =>
      .error (.unknownEntity start (start + (String.ofList name).utf8ByteSize) (String.ofList name))

/-- Reads the rest of a text of `total` bytes from byte `pos`.  `pending` is the reference
that is being read: the byte where it starts and its characters so far, last one first. -/
def unescapeFrom (total : Nat) :
    Nat → Option (Nat × List Char) → List Char → Except Fault (List Char)
  | _, none, [] => .ok []
  | pos, none, '&' :: cs => unescapeFrom total (pos + 1) (some (pos, [])) cs
  | pos, none, c :: cs => return c :: (← unescapeFrom total (pos + c.utf8Size) none cs)
  | _, some (start, _), [] => .error (.unterminatedReference start total)
  | _, some (start, _), '&' :: _ => .error (.unterminatedReference start total)
  | pos, some (start, name), ';' :: cs => do
    let c ← reference (start + 1) name.reverse
    return c :: (← unescapeFrom total (pos + 1) none cs)
  | pos, some (start, name), c :: cs =>
    unescapeFrom total (pos + c.utf8Size) (some (start, c :: name)) cs

def unescape (s : List Char) : Except Fault String :=
  String.ofList <$> unescapeFrom (String.ofList s).utf8ByteSize 0 none s

end Avionics.Markup
