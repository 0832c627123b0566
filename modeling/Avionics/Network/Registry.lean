import Avionics.Network.Document
import Avionics.Keyed.Merge

namespace Avionics

open Markup (Element)

structure Interface where
  name : String
  inputs : Keyed String Unit := .empty
  outputs : Keyed String Unit := .empty
  deriving DecidableEq

structure Network where
  channels : Keyed String Channel := .empty
  components : Keyed String Interface := .empty
  /-- The component that declared a channel as its output last. -/
  producers : Keyed String String := .empty
  deriving DecidableEq

namespace Network

def openComponent (n : Network) (name : String) : Noted Network :=
  if n.components.contains name then do
    Noted.note (.duplicateComponent name)
    return n
  else pure { n with components := n.components.insert name { name := name } }

def consume (n : Network) (component : String) (held : Interface) (channel : String) :
    Noted Network := do
  if held.inputs.contains channel then
    Noted.note (.consumedTwice channel)
  return { n with
    components :=
      n.components.insert component { held with inputs := held.inputs.insert channel () } }

def produce (n : Network) (component : String) (held : Interface) (channel : String) :
    Noted Network := do
  if held.outputs.contains channel then
    Noted.note (.producedTwice channel)
  else if let some producer := n.producers.get? channel then
    Noted.note (.multipleProducers channel producer)
  return { n with
    components :=
      n.components.insert component { held with outputs := held.outputs.insert channel () }
    producers := n.producers.insert channel held.name }

def declare (component : String) (n : Network) (c : Channel) : Noted Network := do
  let channels ← n.channels.absorb Channel.join c.name c
  let n := { n with channels := channels }
  match n.components.get? component, c.direction with
  | none, _ => return n
  | some held, .input => n.consume component held c.name
  | some held, .output => n.produce component held c.name

def mergeComponent (n : Network) (c : Component) : Noted Network := do
  let n ← n.openComponent c.name
  c.channels.foldlM (declare c.name) n

def merge (n : Network) (d : Document) : Noted Network := d.components.foldlM mergeComponent n

def writeChannel (n : Network) (direction : Direction) (name : String) : Option Element :=
  (n.channels.get? name).map (·.write direction)

def writeComponent (n : Network) (c : Interface) : Element where
  name := Document.componentTag
  attributes := .ofList [("Name", c.name)]
  children := c.inputs.keys.filterMap (n.writeChannel .input)
    ++ c.outputs.keys.filterMap (n.writeChannel .output)

def write (n : Network) : Element where
  name := Document.rootName
  children := n.components.values.map n.writeComponent

end Network

end Avionics
