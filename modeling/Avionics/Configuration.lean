import Avionics.Network.Allocator
import Avionics.Yaml.Stream

namespace Avionics

open Yaml (Decoding Node)
open Yaml.Decoding (resolve)

structure Configuration where
  endpoints : Keyed ChannelType Endpoint := .empty
  deriving DecidableEq

namespace Configuration

def allocator (c : Configuration) : Allocator := .withBases c.endpoints

def number? (radix : Nat) (digits : List Char) : Option Nat :=
  if digits.isEmpty then none
  else digits.foldlM (fun n c => do return radix * n + (← Text.digit? radix c)) 0

/-- Decimal digits without a leading zero, or digits behind a mark of their radix, after a
plus sign or none. -/
def unsigned? (s : List Char) : Option Nat :=
  match (if s.head? = some '+' then s.tail else s) with
  | '0' :: 'x' :: digits => number? 16 digits
  | '0' :: 'o' :: digits => number? 8 digits
  | '0' :: 'b' :: digits => number? 2 digits
  | ['0'] => some 0
  | '0' :: _ => none
  | digits => number? 10 digits

def port (x : Node) : Decoding UInt16 := do
  let .scalar tag style text ← resolve x | failure
  if style = .plain ∨ style = .literal ∧ tag = some Yaml.Tag.int then
    let n ← unsigned? text.toList
    if n < 65536 then return n.toUInt16
  failure

def fields (x : Node) : Decoding (List (String × Node)) := do
  (← Decoding.entries x).mapM fun (key, value) => do return (← Decoding.text key, value)

def field? (fields : List (String × Node)) (name : String) : Option Node :=
  match fields.filter (·.1 = name) with
  | [(_, value)] => some value
  | _ => none

def endpoint (x : Node) : Decoding Endpoint := do
  let fs ← fields x
  let ip ← Decoding.text (← field? fs "ip")
  return { ip := ← Ipv4.ofText? ip, port := ← port (← field? fs "port") }

def isNull (text : String) : Bool := text ∈ ["", "~", "null", "Null", "NULL"]

/-- A type is named by its text, or by a local tag that stands before no value. -/
def channelType (x : Node) : Decoding ChannelType := do
  let .scalar tag style text ← resolve x | failure
  match tag.bind Yaml.Tag.localName? with
  | none => return ← (ChannelType.ofTag text).toOption
  | some name =>
    if style = .plain ∧ isNull text then return ← (ChannelType.ofTag name).toOption else failure

/-- The last endpoint of a type counts, at the place of the first. -/
def bases (x : Node) : Decoding (Keyed ChannelType Endpoint) := do
  (← Decoding.entries x).foldlM
    (fun held (type, base) => do return held.insert (← channelType type) (← endpoint base)) .empty

def ofNode (x : Node) : Decoding Configuration := do
  match ← fields x with
  | [] => return {}
  | [("endpoints", endpoints)] => return { endpoints := ← bases endpoints }
  | _ => failure

def read (source : String) : Except Failure Configuration :=
  match Yaml.documents? source with
  | some [] => .ok {}
  | some [d] =>
    match d.decode? ofNode with
    | some c => .ok c
    | none => .error .configuration
  | _ => .error .configuration

end Configuration

end Avionics
