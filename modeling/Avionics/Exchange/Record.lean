import Avionics.Exchange.Family
import Avionics.Markup.Element

namespace Avionics.Exchange

open Markup (Element Tag)

inductive Values (α : Type) : List String → Type
  | nil : Values α []
  | cons {name : String} {names : List String} (value : α) (rest : Values α names) :
      Values α (name :: names)
  deriving DecidableEq

namespace Values

variable {α : Type}

def get : {names : List String} → Values α names → Fin names.length → α
  | _, .cons value _, ⟨0, _⟩ => value
  | _, .cons _ rest, ⟨i + 1, h⟩ => rest.get ⟨i, Nat.lt_of_succ_lt_succ h⟩

def entries : {names : List String} → Values α names → List (String × α)
  | [], .nil => []
  | name :: _, .cons value rest => (name, value) :: rest.entries

def collect (f : String → Except Failure α) :
    (names : List String) → Except Failure (Values α names)
  | [] => .ok .nil
  | name :: names => do
    let value ← f name
    return .cons value (← collect f names)

def ofNames (f : String → α) : (names : List String) → Values α names
  | [] => .nil
  | name :: names => .cons (f name) (ofNames f names)

end Values

structure Record (kind : RecordKind) where
  required : Values String kind.required
  optional : Values (Option String) kind.optional
  deriving DecidableEq

namespace Record

variable {kind : RecordKind}

def key (r : Record kind) : String := r.required.get kind.key

def read (kind : RecordKind) (e : Element) : Except Failure (Record kind) := do
  return {
    required := ← Values.collect e.required kind.required
    optional := Values.ofNames e.attribute? kind.optional
  }

def present (a : String × Option String) : Option (String × String) := a.2.map (a.1, ·)

def attributes (r : Record kind) : List (String × String) :=
  r.required.entries ++ r.optional.entries.filterMap present

def tag (r : Record kind) : Tag := { name := kind.tag, attributes := .ofList r.attributes }

def write (r : Record kind) : Element := { toTag := r.tag }

def display (r : Record kind) : String := r.tag.display

end Record

end Avionics.Exchange
