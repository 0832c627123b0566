import Avionics.Text.Decoding

/-! Paths, as the names between their slashes.  Names are bytes, and need not be UTF-8; where
they are taken for text, they are read as `Text.decode` does. -/

namespace Avionics.Storage

structure Name where
  bytes : List UInt8
  deriving DecidableEq

namespace Name

def ofText (s : String) : Name := ⟨Text.encode s⟩

instance : Coe String Name := ⟨ofText⟩

def text (name : Name) : String := Text.decode name.bytes

def empty : Name := ""

def here : Name := "."

def up : Name := ".."

def dot : UInt8 := '.'.toUInt8

def splitLast (byte : UInt8) : List UInt8 → Option (List UInt8 × List UInt8)
  | [] => none
  | b :: bytes =>
    match splitLast byte bytes with
    | some (front, back) => some (b :: front, back)
    | none => if b = byte then some ([], bytes) else none

/-- A name up to its last dot, and the extension behind it.  A dot in front does not count. -/
def split (name : Name) : Name × Option Name :=
  match splitLast dot name.bytes with
  | some ([], _) | none => (name, none)
  | some (stem, ext) => (⟨stem⟩, some ⟨ext⟩)

def resolved (name : Name) : Name :=
  let (stem, ext) := name.split
  ofText (stem.text ++ "_resolved" ++ ext.elim "" ("." ++ ·.text))

def isVoid (name : Name) : Bool := name = empty || name = here

end Name

structure Path where
  segments : List Name
  deriving DecidableEq

namespace Path

def slash : UInt8 := '/'.toUInt8

def ofBytes (bytes : List UInt8) : Path := ⟨(bytes.splitOn slash).map Name.mk⟩

def bytes (p : Path) : List UInt8 := [slash].intercalate (p.segments.map Name.bytes)

def ofText (s : String) : Path := ofBytes (Text.encode s)

instance : Coe String Path := ⟨ofText⟩

def text (p : Path) : String := Text.decode p.bytes

/-- The start of a path that is kept as it is: the root, or a dot in front. -/
def start : List Name → List Name × List Name
  | [] => ([], [])
  | [name] => if name = .here then ([name], []) else ([], [name])
  | name :: next :: rest =>
    if name.isVoid then ([name], next :: rest) else ([], name :: next :: rest)

def dropVoid (segments : List Name) : List Name := (segments.reverse.dropWhile Name.isVoid).reverse

/-- The directory and the file name of a path that ends in one, whatever void segments follow. -/
def split? (p : Path) : Option (List Name × Name) :=
  let (first, rest) := start p.segments
  match (dropVoid rest).getLast? with
  | some name =>
    if name = .up then none else some (first ++ dropVoid (dropVoid rest).dropLast, name)
  | none => none

/-- Puts a name behind a path; a slash at the end is used. -/
def append (p : Path) (name : Name) : Path :=
  if p.segments.getLast? = some .empty then ⟨p.segments.dropLast ++ [name]⟩
  else ⟨p.segments ++ [name]⟩

def resolved (p : Path) : Path :=
  match p.split? with
  | some (directory, name) => ⟨directory ++ [name.resolved]⟩
  | none => p.append Name.empty.resolved

end Path

end Avionics.Storage
