import Avionics.CommandLine.Arguments
import Avionics.Resolution

namespace Avionics

open Storage (Path Volume)

inductive Tool
  | platform | network | inverter
  deriving DecidableEq

namespace Tool

def all : List Tool := [platform, network, inverter]

def name : Tool → String
  | platform => "ims-resolver"
  | network => "vistas-resolver"
  | inverter => "platform-inverter"

def version : String := "0.1.0"

def ofName? (s : String) : Option Tool := all.find? (·.name = s)

def switches : Tool → List Switch
  | platform => [.report]
  | network => [.config, .writeResolved, .report]
  | inverter => []

def mostPositionals : Tool → Option Nat
  | platform | network => none
  | inverter => some 4

def synopsis : Tool → String
  | platform => "[--report FILE] OUTPUT INPUTS..."
  | network => "[--config FILE] [--write-resolved] [--report FILE] OUTPUT INPUTS..."
  | inverter => "NETWORK EXCHANGE INVERTED_NETWORK INVERTED_EXCHANGE"

def usage (t : Tool) : String := "Usage: " ++ t.name ++ " " ++ t.synopsis

def conclude (a : Arguments) (summary : Summary) : Running Bool := do
  if let some path := a.value? .report then
    Resolution.writeReport summary.report (Path.ofText path)
  return summary.succeeded

def job? (t : Tool) (a : Arguments) : Option (Running Bool) :=
  match t, a.positionals.map Path.ofText with
  | platform, output :: input :: inputs => some do
    conclude a (← Resolution.resolvePlatform (input :: inputs) output)
  | network, output :: input :: inputs => some do
    let configuration ← match a.value? .config with
      | some path => Resolution.loadConfiguration (Path.ofText path)
      | none => pure {}
    conclude a (← Resolution.resolveNetwork (input :: inputs) output configuration.allocator
      (a.has .writeResolved))
  | inverter, [flat, hierarchical, invertedFlat, invertedHierarchical] => some do
    Resolution.invertFiles flat hierarchical invertedFlat invertedHierarchical
    return true
  | _, _ => none

end Tool

structure Ending where
  code : Nat
  session : Session
  complaint : Option String := none

namespace Tool

def run (t : Tool) (args : List String) (volume : Volume) : Ending :=
  let start : Session := { volume := volume }
  let misused : Ending := { code := 2, session := start, complaint := t.usage }
  match Arguments.parse t.switches t.mostPositionals {} args with
  | none => misused
  | some .version => { code := 0, session := { start with printed := [t.name ++ " " ++ version] } }
  | some .help => { code := 0, session := { start with printed := [t.usage] } }
  | some (.run a) =>
    match t.job? a with
    | none => misused
    | some job =>
      match StateT.run (ExceptT.run job) start with
      | (.ok succeeded, session) => { code := if succeeded then 0 else 1, session := session }
      | (.error failure, session) => { code := 1, session := session, complaint := failure.message }

end Tool

end Avionics
