import Avionics.Keyed
import Avionics.Yaml.Lexer

namespace Avionics.Yaml

inductive Node
  | scalar (tag : Option Octets) (style : Style) (text : String)
  | sequence (items : List Node)
  | mapping (entries : List (Node × Node))
  | alias (number : Nat)

namespace Node

def empty : Node := .scalar none .plain ""

mutual

def size : Node → Nat
  | .scalar .. | .alias _ => 1
  | .sequence items => itemsSize items + 2
  | .mapping entries => entriesSize entries + 2

def itemsSize : List Node → Nat
  | [] => 0
  | x :: xs => size x + itemsSize xs

def entrySize : Node × Node → Nat
  | (key, value) => size key + size value

def entriesSize : List (Node × Node) → Nat
  | [] => 0
  | e :: es => entrySize e + entriesSize es

end

def text? : Node → Option String
  | .scalar _ _ text => some text
  | _ => none

/-- A scalar that was left out is a mapping without entries. -/
def entries? : Node → Option (List (Node × Node))
  | .mapping entries => some entries
  | .scalar _ .plain "" => some []
  | _ => none

end Node

structure Composer where
  tokens : List Token
  handles : List (String × Octets)
  names : Keyed String Nat := .empty
  /-- The nodes with an anchor, by the numbers of their names.  The one that begins last
  comes first. -/
  anchors : List (Nat × Node) := []

abbrev Composing := StateT Composer Option

namespace Composing

def skip (n : Nat) : Composing Unit := modify fun c => { c with tokens := c.tokens.drop n }

def ahead (ts : List Token) : Composing Bool := do return (← get).tokens.head?.any (· ∈ ts)

def orEmpty (ends : List Token) (node : Composing Node) : Composing Node := do
  if ← ahead ends then return .empty else node

def resolveTag (handle : String) (suffix : Octets) : Composing Octets := do
  if handle.isEmpty then return suffix
  match (← get).handles.lookup handle with
  | some stem => return stem ++ suffix
  | none => failure

def resolveAlias (name : String) : Composing Node := do return .alias (← (← get).names.get? name)

def properties : Composing (Option String × Option Octets) := do
  match (← get).tokens with
  | .anchor name :: .tag handle suffix :: _ | .tag handle suffix :: .anchor name :: _ =>
    skip 2
    return (some name, some (← resolveTag handle suffix))
  | .anchor name :: _ =>
    skip 1
    return (some name, none)
  | .tag handle suffix :: _ =>
    skip 1
    return (none, some (← resolveTag handle suffix))
  | _ => return (none, none)

/-- The number of a named node is how many names were known before it, and its name gets
that number. -/
def anchored (anchor : Option String) (node : Composing Node) : Composing Node :=
  match anchor with
  | none => node
  | some name => do
    let c ← get
    let number := c.names.size
    set { c with names := c.names.insert name number, anchors := [] }
    let x ← node
    modify fun inner => { inner with anchors := inner.anchors ++ (number, x) :: c.anchors }
    return x

end Composing

inductive Place
  | flow | block
  /-- Next to a key, in whose column the entries of a sequence may stand. -/
  | keyed
  deriving DecidableEq

open Composing

mutual

def node : Nat → Place → Composing Node
  | 0, _ => failure
  | n + 1, place => do
    match (← get).tokens with
    | .alias name :: _ =>
      skip 1
      resolveAlias name
    | _ =>
      let (anchor, tag) ← properties
      anchored anchor (content n place tag (anchor.isSome || tag.isSome))

/-- A node without its anchor and tag.  It can be left out behind one of those. -/
def content : Nat → Place → Option Octets → Bool → Composing Node
  | 0, _, _, _ => failure
  | n + 1, place, tag, marked => do
    match (← get).tokens with
    | .scalar style text :: _ =>
      skip 1
      return .scalar tag style text
    | .flowSequenceStart :: _ =>
      skip 1
      return .sequence (← flowItems n true)
    | .flowMappingStart :: _ =>
      skip 1
      return .mapping (← flowEntries n true)
    | .blockSequenceStart :: _ =>
      skip 1
      return .sequence (← blockItems n)
    | .blockMappingStart :: _ =>
      skip 1
      return .mapping (← blockEntries n)
    | .blockEntry :: _ =>
      if place = .keyed then return .sequence (← keyedItems n)
      else if marked then return .scalar tag .plain ""
      else failure
    | _ => if marked then return .scalar tag .plain "" else failure

def blockItems : Nat → Composing (List Node)
  | 0 => failure
  | n + 1 => do
    match (← get).tokens with
    | .blockEntry :: _ =>
      skip 1
      let item ← orEmpty [.blockEntry, .blockEnd] (node n .block)
      return item :: (← blockItems n)
    | .blockEnd :: _ =>
      skip 1
      return []
    | _ => failure

def keyedItems : Nat → Composing (List Node)
  | 0 => failure
  | n + 1 => do
    match (← get).tokens with
    | .blockEntry :: _ =>
      skip 1
      let item ← orEmpty [.blockEntry, .key, .value, .blockEnd] (node n .block)
      return item :: (← keyedItems n)
    | _ => return []

def blockEntries : Nat → Composing (List (Node × Node))
  | 0 => failure
  | n + 1 => do
    let part : Composing Node := orEmpty [.key, .value, .blockEnd] (node n .keyed)
    match (← get).tokens with
    | .key :: _ =>
      skip 1
      let key ← part
      let value ← if ← ahead [.value] then do skip 1; part else pure .empty
      return (key, value) :: (← blockEntries n)
    | .blockEnd :: _ =>
      skip 1
      return []
    | _ => failure

/-- The items of a sequence in brackets.  An item with a key is a mapping of one entry.  A
key that is left out takes the token behind it along. -/
def flowItems : Nat → Bool → Composing (List Node)
  | 0, _ => failure
  | n + 1, first => do
    let part : Composing Node := orEmpty [.flowEntry, .flowSequenceEnd] (node n .flow)
    if ← ahead [.flowSequenceEnd] then
      skip 1
      return []
    if !first then
      if ← ahead [.flowEntry] then skip 1 else failure
    match (← get).tokens with
    | .flowSequenceEnd :: _ =>
      skip 1
      return []
    | .key :: _ =>
      skip 1
      let key ← if ← ahead [.value, .flowEntry, .flowSequenceEnd] then do skip 1; pure .empty
        else node n .flow
      let value ← if ← ahead [.value] then do skip 1; part else pure .empty
      return .mapping [(key, value)] :: (← flowItems n false)
    | _ =>
      let item ← node n .flow
      return item :: (← flowItems n false)

def flowEntries : Nat → Bool → Composing (List (Node × Node))
  | 0, _ => failure
  | n + 1, first => do
    let part (ends : List Token) : Composing Node :=
      orEmpty (.flowEntry :: .flowMappingEnd :: ends) (node n .flow)
    if ← ahead [.flowMappingEnd] then
      skip 1
      return []
    if !first then
      if ← ahead [.flowEntry] then skip 1 else failure
    match (← get).tokens with
    | .flowMappingEnd :: _ =>
      skip 1
      return []
    | .key :: _ =>
      skip 1
      let key ← part [.value]
      let value ← if ← ahead [.value] then do skip 1; part [] else pure .empty
      return (key, value) :: (← flowEntries n false)
    | _ =>
      let key ← node n .flow
      return (key, .empty) :: (← flowEntries n false)

end

end Avionics.Yaml
