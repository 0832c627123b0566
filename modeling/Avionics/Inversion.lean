import Avionics.Exchange.Platform
import Avionics.Network.Document

namespace Avionics.Inversion

open Markup (Tag Element)

def invertDirection (value : String) : String :=
  match Direction.ofText? value with
  | some d => d.inverted.text
  | none => value

def invertNetworkTag (t : Tag) : Tag :=
  if t.name = Document.componentTag then
    { t with attributes := t.attributes.modify "Name" ("Inverted" ++ ·) }
  else { t with attributes := t.attributes.modify "Direction" invertDirection }

def invertExchangeTag (t : Tag) : Tag :=
  if t.name = "ProducedData" then { t with name := "ConsumedData" }
  else if t.name = "ConsumedData" then { t with name := "ProducedData" }
  else t

def invertNetwork (root : Element) : Element := root.mapTags invertNetworkTag

def invertExchange (root : Element) : Element := root.mapTags invertExchangeTag

end Avionics.Inversion
