import Avionics.Failure
import Avionics.Keyed
import Avionics.Storage.Path

namespace Avionics.Storage

inductive Content
  | text (s : String)
  | binary
  deriving DecidableEq

def Content.ofBytes (bytes : ByteArray) : Content :=
  match String.fromUTF8? bytes with
  | some s => .text s
  | none => .binary

/-- The names on the way from the working directory, or from the root of all directories. -/
abbrev Location := List Name

namespace Location

def root : Location := ["/"]

def text (location : Location) : String :=
  match location.map Name.text with
  | "/" :: names => "/" ++ "/".intercalate names
  | names => "/".intercalate names

def parent (location : Location) : Location :=
  if location = root then root
  else
    match location.getLast? with
    | none => [.up]
    | some name => if name = .up then location ++ [.up] else location.dropLast

def isAnchor (location : Location) : Bool := location = root || location.all (· = .up)

end Location

structure Volume where
  files : Keyed Location Content := .empty
  directories : List Location := []
  capacity : Option Nat := none
  deriving DecidableEq

inductive Place
  | directory (location : Location)
  | file (location : Location)
  | vacant (location : Location)
  /-- A name with a slash behind it that is no directory, but perhaps a file. -/
  | slashed (file : Bool)
  deriving DecidableEq

namespace Volume

def enter (v : Volume) (location : Location) : Place :=
  if v.files.contains location then .file location
  else if location.isAnchor || location ∈ v.directories then .directory location
  else .vacant location

def absence (file : Bool) : Refusal := if file then .notDirectory else .notFound

def step (v : Volume) : Place → Name → Except Refusal Place
  | .directory location, name =>
    if name.isVoid then .ok (.directory location)
    else if name = .up then .ok (.directory location.parent)
    else .ok (v.enter (location ++ [name]))
  | .file _, name => if name = .empty then .ok (.slashed true) else .error .notDirectory
  | .vacant _, name => if name = .empty then .ok (.slashed false) else .error .notFound
  | .slashed file, name => if name = .empty then .ok (.slashed file) else .error (absence file)

def locate (v : Volume) (p : Path) : Except Refusal Place :=
  if p.segments = [.empty] then .error .notFound
  else if p.segments.head? = some .empty then p.segments.tail.foldlM v.step (.directory .root)
  else p.segments.foldlM v.step (.directory [])

def isFile (v : Volume) (p : Path) : Bool :=
  match v.locate p with
  | .ok (.file _) => true
  | _ => false

def read (v : Volume) (p : Path) : Except Refusal String := do
  match ← v.locate p with
  | .file location =>
    match v.files.get? location with
    | some (.text s) => .ok s
    | _ => .error .notText
  | .directory _ => .error .isDirectory
  | .slashed file => .error (absence file)
  | .vacant _ => .error .notFound

def put (v : Volume) (location : Location) (content : Content) : Volume :=
  { v with files := v.files.insert location content }

/-- Replaces what a file has by a text.  Of one that is too large, as much is written as can be. -/
def fill (v : Volume) (location : Location) (s : String) : Except Refusal Unit × Volume :=
  match v.capacity.filter (· < s.utf8ByteSize) with
  | none => (.ok (), v.put location (.text s))
  | some size => (.error .tooLarge, v.put location (.ofBytes (s.toUTF8.extract 0 size)))

def write (v : Volume) (p : Path) (s : String) : Except Refusal Unit × Volume :=
  match v.locate p with
  | .ok (.file location) | .ok (.vacant location) => v.fill location s
  | .ok (.directory _) | .ok (.slashed _) => (.error .isDirectory, v)
  | .error r => (.error r, v)

def addDirectory (v : Volume) (location : Location) : Volume :=
  { v with directories := v.directories ++ (List.range (location.length + 1)).map location.take }

def addFile (v : Volume) (location : Location) (content : Content) : Volume :=
  (v.addDirectory location.dropLast).put location content

def changes (v w : Volume) : List (Location × Content) :=
  w.files.entries.filter fun e => v.files.get? e.1 ≠ some e.2

end Volume

end Avionics.Storage
