import Avionics.Exchange.Record
import Avionics.Keyed.Merge

/-! Descriptions of what the children of an element hold.  A description determines a
type of contents, and how contents are read, written and merged.  In a merge the
contents that are already there win; differing records of one key are noted. -/

namespace Avionics

namespace Exchange

open Markup (Element)

inductive Schema
  | records (kind : RecordKind) : Schema
  | unsupported (tag what key : String) : Schema
  | both (first second : Schema) : Schema
  | group (tag : String) (inner : Schema) : Schema
  /-- All children `tag` make one part, which is written unless it is empty. -/
  | part (tag : String) (inner : Schema) : Schema
  /-- All children `tag` make one part, which is there once one of them is. -/
  | option (tag : String) (inner : Schema) : Schema
  | directional (inner : Schema) : Schema

structure Directional (α : Type) where
  produced : α
  consumed : α
  deriving DecidableEq

/-- The value of a record is the first one, also against a different one. -/
def Record.join {kind : RecordKind} (held new : Record kind) : Noted (Record kind) :=
  if new = held then pure held
  else do
    Noted.note (.incompatible kind.family.tag new.key new.display held.display)
    return held

namespace Schema

def Content : Schema → Type
  | records kind => Keyed String (Record kind)
  | unsupported .. => Unit
  | both s t => s.Content × t.Content
  | group _ s => Keyed String s.Content
  | part _ s => s.Content
  | option _ s => Option s.Content
  | directional s => Directional s.Content

def empty : (s : Schema) → s.Content
  | records _ => Keyed.empty
  | unsupported .. => ()
  | both s t => (s.empty, t.empty)
  | group .. => Keyed.empty
  | part _ s => s.empty
  | option .. => none
  | directional s => ⟨s.empty, s.empty⟩

/-- Whether there is nothing to write.  A group counts even if it holds nothing. -/
def isEmpty : (s : Schema) → s.Content → Bool
  | records _, c => Keyed.isEmpty c
  | unsupported .., _ => true
  | both s t, (c, d) => s.isEmpty c && t.isEmpty d
  | group .., c => Keyed.isEmpty c
  | part _ s, c => s.isEmpty c
  | option .., c => Option.isNone c
  | directional s, c => s.isEmpty c.produced && s.isEmpty c.consumed

def merge : (s : Schema) → s.Content → s.Content → Noted s.Content
  | records _, held, new => Keyed.merge Record.join held new
  | unsupported .., _, _ => pure ()
  | both s t, (c, d), (c', d') => do
    let c ← s.merge c c'
    let d ← t.merge d d'
    return (c, d)
  | group _ s, held, new => Keyed.merge s.merge held new
  | part _ s, held, new => s.merge held new
  | option .., held, none => pure held
  | option .., none, some new => pure (some new)
  | option _ s, some held, some new => do
    let c ← s.merge held new
    return some c
  | directional s, held, new => do
    let consumed ← s.merge held.consumed new.consumed
    let produced ← s.merge held.produced new.produced
    return ⟨produced, consumed⟩

def readAll (s : Schema) (readOne : Element → Reading s.Content) (es : List Element) :
    Reading s.Content :=
  es.foldlM (fun held e => do
    let new ← readOne e
    s.merge held new) s.empty

def read : (s : Schema) → Element → Reading s.Content
  | records kind, e =>
    (e.childrenNamed kind.tag).foldlM (fun held c => do
      let r ← Record.read kind c
      Keyed.absorb Record.join held r.key r) (Keyed.empty : Keyed String (Record kind))
  | unsupported tag what key, e =>
    (e.childrenNamed tag).forM fun c => Noted.note (.unsupported what ((c.attribute? key).getD ""))
  | both s t, e => do
    let c ← s.read e
    let d ← t.read e
    return (c, d)
  | group tag s, e =>
    (e.childrenNamed tag).foldlM (fun held c => do
      let name ← c.required "Name"
      let new ← s.read c
      Keyed.absorb s.merge held name new) (Keyed.empty : Keyed String s.Content)
  | part tag s, e => s.readAll s.read (e.childrenNamed tag)
  | option tag s, e =>
    match e.childrenNamed tag with
    | [] => pure none
    | c :: cs => do
      let all ← s.readAll s.read (c :: cs)
      return some all
  | directional s, e => do
    let consumed ← s.readAll s.read (e.childrenNamed "ConsumedData")
    let produced ← s.readAll s.read (e.childrenNamed "ProducedData")
    return ⟨produced, consumed⟩

def element (tag : String) (children : List Element) : Element :=
  { name := tag, children := children }

def writePart (tag : String) (absent : Bool) (children : List Element) : List Element :=
  if absent then [] else [element tag children]

def write : (s : Schema) → s.Content → List Element
  | records _, c => (Keyed.values c).map Record.write
  | unsupported .., _ => []
  | both s t, (c, d) => s.write c ++ t.write d
  | group tag s, c => (Keyed.entries c).map fun e => (element tag (s.write e.2)).set "Name" e.1
  | part tag s, c => writePart tag (s.isEmpty c) (s.write c)
  | option .., none => []
  | option tag s, some c => [element tag (s.write c)]
  | directional s, c =>
    writePart "ProducedData" (s.isEmpty c.produced) (s.write c.produced)
      ++ writePart "ConsumedData" (s.isEmpty c.consumed) (s.write c.consumed)

def agrees : (s : Schema) → s.Content → s.Content → Bool
  | records _, c, d => Keyed.agrees (fun r r' => r = r') c d
  | unsupported .., _, _ => true
  | both s t, (c, d), (c', d') => s.agrees c c' && t.agrees d d'
  | group _ s, c, d => Keyed.agrees s.agrees c d
  | part _ s, c, d => s.agrees c d
  | option .., none, none => true
  | option .., none, some _ | option .., some _, none => false
  | option _ s, some c, some d => s.agrees c d
  | directional s, c, d => s.agrees c.produced d.produced && s.agrees c.consumed d.consumed

end Schema

end Exchange

end Avionics
