import Avionics.Network.Endpoint
import Avionics.Noted

namespace Avionics

open Markup (Tag Element)

inductive ChannelType
  | a429 | a664 | a825 | milBus | discrete | analog | nad
  deriving DecidableEq

namespace ChannelType

def all : List ChannelType := [.a429, .a664, .a825, .milBus, .discrete, .analog, .nad]

def tag : ChannelType → String
  | .a429 => "A429_Channel"
  | .a664 => "A664_Channel"
  | .a825 => "A825_Channel"
  | .milBus => "MIL_BUS_Channel"
  | .discrete => "Discrete_Channel"
  | .analog => "Analog_Channel"
  | .nad => "NAD_Channel"

def ofTag (s : String) : Except Failure ChannelType :=
  match all.find? fun t => t.tag = s with
  | some t => .ok t
  | none => .error (.unknownChannelType s)

end ChannelType

inductive Direction
  | input | output
  deriving DecidableEq

namespace Direction

def text : Direction → String
  | .input => "In"
  | .output => "Out"

def ofText? (s : String) : Option Direction :=
  if s = "In" then some .input else if s = "Out" then some .output else none

def inverted : Direction → Direction
  | .input => .output
  | .output => .input

end Direction

structure Header where
  sourceId : Bool := false
  sequenceNumber : Bool := false
  qosTimestamp : Bool := false
  dataTimestamp : Bool := false
  deriving DecidableEq

namespace Header

def flagText (present : Bool) : String := if present then "Yes" else "No"

def readFlag (e : Element) (key : String) : Except Failure Bool := do
  let value ← e.required key
  if value = "Yes" then return true
  else if value = "No" then return false
  else throw (.invalidValue e.name key value)

def read (e : Element) : Except Failure Header := do
  return {
    sourceId := ← readFlag e "Src_Id"
    sequenceNumber := ← readFlag e "SN"
    qosTimestamp := ← readFlag e "QoS_Timestamp"
    dataTimestamp := ← readFlag e "Data_Timestamp"
  }

def attributes (h : Header) : List (String × String) :=
  [("Src_Id", flagText h.sourceId), ("SN", flagText h.sequenceNumber),
   ("QoS_Timestamp", flagText h.qosTimestamp), ("Data_Timestamp", flagText h.dataTimestamp)]

def tag (h : Header) : Tag := { name := "Header", attributes := .ofList h.attributes }

end Header

structure Signal where
  byteOffset : String
  type : Option String := none
  size : Option String := none
  unit : Option String := none
  deriving DecidableEq

namespace Signal

def read (e : Element) : Except Failure (String × Signal) := do
  let name ← e.required "Name"
  let byteOffset ← e.required "ByteOffset"
  return (name, {
    byteOffset := byteOffset
    type := e.attribute? "Type"
    size := e.attribute? "Size"
    unit := e.attribute? "Unit"
  })

def write (name : String) (s : Signal) : Element :=
  let e : Element := { name := "Signal" }
  ((((e.set "Name" name).set "ByteOffset" s.byteOffset).setOptional "Type" s.type).setOptional
    "Size" s.size).setOptional "Unit" s.unit

end Signal

structure Channel where
  name : String
  type : ChannelType
  direction : Direction
  fifoSize : String
  messageMaxSize : String
  header : Header := {}
  signals : Keyed String Signal := .empty
  endpoint : Option Endpoint := none
  deriving DecidableEq

namespace Channel

def readDirection (e : Element) : Except Failure Direction := do
  let value ← e.required "Direction"
  match Direction.ofText? value with
  | some d => return d
  | none => throw (.invalidValue e.name "Direction" value)

/-- The last header counts. -/
def readHeader (e : Element) : Except Failure Header :=
  (e.childrenNamed "Header").foldlM (fun _ c => Header.read c) {}

/-- The last signal of a name counts, at the place of the first. -/
def readSignals (e : Element) : Except Failure (Keyed String Signal) :=
  ((e.childrenNamed "Signals").flatMap (·.childrenNamed "Signal")).foldlM (fun held c => do
    let (name, signal) ← Signal.read c
    return held.insert name signal) .empty

def read (e : Element) : Except Failure Channel := do
  let type ← ChannelType.ofTag e.name
  let direction ← readDirection e
  let header ← readHeader e
  let signals ← readSignals e
  let name ← e.required "Name"
  let fifoSize ← e.required "FifoSize"
  let messageMaxSize ← e.required "MessageMaxSize"
  return {
    name := name
    type := type
    direction := direction
    fifoSize := fifoSize
    messageMaxSize := messageMaxSize
    header := header
    signals := signals
  }

def writeSignals (c : Channel) : List Element :=
  if c.signals.isEmpty then []
  else [{ name := "Signals", children := c.signals.entries.map fun e => e.2.write e.1 }]

/-- As declared in a direction, which need not be that of the channel. -/
def write (c : Channel) (d : Direction) : Element where
  name := c.type.tag
  attributes :=
    .ofList [("Name", c.name), ("Direction", d.text), ("MessageMaxSize", c.messageMaxSize),
      ("FifoSize", c.fifoSize)]
  children := (c.endpoint.map Endpoint.socket).toList ++ { toTag := c.header.tag } :: c.writeSignals

def display (c : Channel) : String :=
  c.type.tag ++ "(Name=" ++ c.name ++ ", Direction=" ++ c.direction.text
    ++ ", FifoSize=" ++ c.fifoSize
    ++ ", MessageMaxSize=" ++ c.messageMaxSize ++ ", " ++ c.header.tag.display
    ++ ", signals=[" ++ ", ".intercalate c.signals.keys ++ "])"

def compatible (c d : Channel) : Bool :=
  c.type = d.type && c.fifoSize = d.fifoSize && c.messageMaxSize = d.messageMaxSize
    && c.signals.agrees (fun s t => s = t) d.signals

/-- The first declaration holds, but the header of a producer replaces that of a consumer. -/
def join (held new : Channel) : Noted Channel := do
  if new.compatible held then
    if new.header ≠ held.header then
      Noted.note (.headerMismatch new.name new.display held.display)
    if held.direction = .input ∧ new.direction = .output then
      return { held with header := new.header }
    return held
  else
    Noted.note (.incompatible "channel" new.name new.display held.display)
    return held

end Channel

end Avionics
