import Avionics.Markup.Element

namespace Avionics

open Markup (Tag Element)

structure Ipv4 where
  a : UInt8
  b : UInt8
  c : UInt8
  d : UInt8
  deriving DecidableEq

namespace Ipv4

def text (ip : Ipv4) : String :=
  toString ip.a.toNat ++ "." ++ toString ip.b.toNat
    ++ "." ++ toString ip.c.toNat ++ "." ++ toString ip.d.toNat

def octet? (s : List Char) : Option UInt8 :=
  let n := s.foldl (fun n c => 10 * n + (c.toNat - '0'.toNat)) 0
  if s ≠ [] ∧ s.all Char.isDigit ∧ s.length ≤ 3 ∧ (s.head? = some '0' → s.length = 1) ∧ n < 256 then
    some n.toUInt8
  else none

def parts : List Char → List (List Char)
  | [] => [[]]
  | '.' :: cs => [] :: parts cs
  | c :: cs =>
    match parts cs with
    | [] => [[c]]
    | p :: ps => (c :: p) :: ps

def ofText? (s : String) : Option Ipv4 :=
  match parts s.toList with
  | [a, b, c, d] => do return ⟨← octet? a, ← octet? b, ← octet? c, ← octet? d⟩
  | _ => none

end Ipv4

structure Endpoint where
  ip : Ipv4
  port : UInt16
  deriving DecidableEq

namespace Endpoint

def next? (e : Endpoint) : Option Endpoint :=
  if e.port = 65535 then none else some { e with port := e.port + 1 }

def stampTag (e : Endpoint) (t : Tag) : Tag :=
  (t.set "DstIP" e.ip.text).set "DstPort" (toString e.port.toNat)

def stamp (e : Endpoint) (socket : Element) : Element :=
  { socket with toTag := e.stampTag socket.toTag }

def socketTag : String := "Socket"

def socket (e : Endpoint) : Element := e.stamp { name := socketTag }

end Endpoint

end Avionics
