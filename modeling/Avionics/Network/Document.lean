import Avionics.Network.Allocator

namespace Avionics

open Markup (Element)

structure Component where
  name : String
  channels : List Channel
  deriving DecidableEq

structure Document where
  components : List Component := []
  deriving DecidableEq

namespace Document

def rootName : String := "Network"

def componentTag : String := "VirtualComponent"

def readChannel (e : Element) : Allocating Channel := do
  let channel ← Channel.read e
  let endpoint ← Allocator.allocate channel.type
  return { channel with endpoint := some endpoint }

def readComponent (e : Element) : Allocating Component := do
  let name ← e.required "Name"
  let channels ← e.children.mapM readChannel
  return { name := name, channels := channels }

def read (root : Element) : Allocating Document := do
  if root.name ≠ rootName then
    throw (.unexpectedRoot rootName root.name)
  let components ← (root.childrenNamed componentTag).mapM readComponent
  return { components := components }

def stampChannel (e : Element) (c : Channel) : Element :=
  match c.endpoint with
  | some endpoint => e.mapNamed Endpoint.socketTag endpoint.stamp
  | none => e

def stampChannels : List Element → List Channel → List Element
  | e :: es, c :: cs => stampChannel e c :: stampChannels es cs
  | es, _ => es

/-- Elements that are no component are passed over. -/
def stampComponents : List Element → List Component → List Element
  | e :: es, c :: cs =>
    if e.name = componentTag then
      { e with children := stampChannels e.children c.channels } :: stampComponents es cs
    else e :: stampComponents es (c :: cs)
  | es, _ => es

def stamp (d : Document) (root : Element) : Element :=
  { root with children := stampComponents root.children d.components }

end Document

end Avionics
