import Avionics.Exchange.Schema

namespace Avionics.Exchange

open Markup (Element)

namespace Schema

def afdx : Schema := .both (.records .afdxSampling) (.records .afdxQueuing)

def a429 : Schema := .group "Bus" (.both (.records .a429Sampling) (.records .a429Queuing))

/-- Queuing messages are not modelled on a CAN bus. -/
def can : Schema :=
  .group "Bus" (.both (.unsupported "QueuingMessage" "CAN queuing message" "Id")
    (.records .canSampling))

def bucket : Family → Schema
  | .afdx => afdx
  | .a429 => a429
  | .can => can
  | .discrete => .records .discreteSignal
  | .analogue => .records .analogueSignal
  | .nad => .records .nadMessage

def family (f : Family) : Schema := .directional (bucket f)

def familyPart (f : Family) : Schema := .part f.tag (family f)

def dataExchange : Schema :=
  .both (familyPart .afdx) (.both (familyPart .a429) (.both (familyPart .can)
    (.both (familyPart .discrete) (.both (familyPart .analogue) (familyPart .nad)))))

def optionalExchange : Schema := .option "DataExchange" dataExchange

def application : Schema := optionalExchange

def equipment : Schema := .both optionalExchange (.group "Application" application)

def platform : Schema := .both optionalExchange (.group "Equipment" equipment)

end Schema

abbrev FamilyData (f : Family) := (Schema.family f).Content

abbrev DataExchange := Schema.dataExchange.Content

abbrev Application := Schema.application.Content

abbrev Equipment := Schema.equipment.Content

namespace DataExchange

def family (x : DataExchange) : (f : Family) → FamilyData f
  | .afdx => x.1
  | .a429 => x.2.1
  | .can => x.2.2.1
  | .discrete => x.2.2.2.1
  | .analogue => x.2.2.2.2.1
  | .nad => x.2.2.2.2.2

end DataExchange

structure Platform where
  names : List String := []
  content : Schema.platform.Content := Schema.platform.empty

namespace Platform

def dataExchange (p : Platform) : Option DataExchange := p.content.1

def equipments (p : Platform) : Keyed String Equipment := p.content.2

def name (p : Platform) : String := "_".intercalate p.names

def rootName : String := "VirtualComponent"

def read (root : Element) : Reading Platform := do
  if root.name ≠ rootName then
    throw (.unexpectedRoot rootName root.name)
  let name ← root.required "Name"
  let content ← Schema.platform.read root
  return { names := [name], content := content }

def merge (held new : Platform) : Noted Platform := do
  let content ← Schema.platform.merge held.content new.content
  return { names := held.names ++ new.names, content := content }

def write (p : Platform) : Element :=
  (Schema.element rootName (Schema.platform.write p.content)).set "Name" p.name

def agrees (p q : Platform) : Bool :=
  p.names = q.names && Schema.platform.agrees p.content q.content

end Platform

end Avionics.Exchange
