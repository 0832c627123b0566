import Avionics.Network.Channel

/-! Allocation of endpoints.  Each channel type has a cursor: the endpoint of the next
channel of that type.  Its address never changes, its port moves on by one. -/

namespace Avionics

abbrev Allocator := Keyed ChannelType Endpoint

/-- What was allocated before a failure stays allocated. -/
abbrev Allocating := ExceptT Failure (StateM Allocator)

namespace Allocator

def defaultBase (t : ChannelType) : Endpoint :=
  let b : UInt8 := match t with
    | .a429 => 225
    | .a664 => 226
    | .a825 => 227
    | .milBus => 228
    | .discrete => 229
    | .analog => 230
    | .nad => 231
  { ip := ⟨224, b, 100, 0⟩, port := 6000 }

def withBases (bases : Keyed ChannelType Endpoint) : Allocator :=
  .ofList (ChannelType.all.map fun t => (t, (bases.get? t).getD (defaultBase t)))

def standard : Allocator := withBases .empty

def agrees (a b : Allocator) : Bool := Keyed.agrees (fun e f => e = f) a b

def peek (a : Allocator) (t : ChannelType) : Option Endpoint := a.get? t

def allocate (t : ChannelType) : Allocating Endpoint := do
  match (← get).peek t with
  | none => throw (.unknownChannelType t.tag)
  | some cursor =>
    match cursor.next? with
    | none => throw (.portsExhausted t.tag)
    | some next =>
      modify (·.insert t next)
      return cursor

end Allocator

end Avionics
