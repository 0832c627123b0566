import Avionics.Text.Decoding
import Avionics.Yaml.Scalar

namespace Avionics.Yaml.Tag

def isChar (verbatim : Bool) (c : Char) : Bool :=
  isWord c || c ∈ ";/?:@&=+$.!~*'()%".toList || (verbatim && c ∈ ",[]".toList)

def following? (first : Nat) : Option Nat :=
  if first < 0x80 then some 0
  else if first < 0xC0 then none
  else if first < 0xE0 then some 1
  else if first < 0xF0 then some 2
  else if first < 0xF8 then some 3
  else none

/-- Percent signs write a character to its end: `due` is how many octets of it are left. -/
def unescape? : Nat → List Char → Option Octets
  | due, '%' :: a :: b :: cs => do
    let octet := 16 * (← Text.digit? 16 a) + (← Text.digit? 16 b)
    let due ← match due with
      | 0 => following? octet
      | n + 1 => if 0x80 ≤ octet ∧ octet < 0xC0 then some n else none
    return octet.toUInt8 :: (← unescape? due cs)
  | _, '%' :: _ => none
  | 0, c :: cs => return String.utf8EncodeChar c ++ (← unescape? 0 cs)
  | 0, [] => some []
  | _ + 1, _ => none

def octets? (text : List Char) : Option Octets := do return (← unescape? 0 text).takeWhile (· ≠ 0)

def standardHandles : List (String × Octets) :=
  [("!", Text.encode "!"), ("!!", Text.encode "tag:yaml.org,2002:")]

def int : Octets := Text.encode "tag:yaml.org,2002:int"

/-- The name behind an exclamation mark in front; without one the mark is the name. -/
def localName? (tag : Octets) : Option String :=
  if tag.head? = some 0x21 then
    String.fromUTF8? (if tag.tail.isEmpty then tag else tag.tail).toByteArray
  else none

end Avionics.Yaml.Tag
