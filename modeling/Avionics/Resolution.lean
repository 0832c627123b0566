import Avionics.Configuration
import Avionics.Inversion
import Avionics.Markup.Layout
import Avionics.Markup.Printer
import Avionics.Markup.Reader
import Avionics.Network.Registry
import Avionics.Storage.Volume

namespace Avionics

open Markup (Element)
open Storage (Path Volume)

structure Session where
  volume : Volume := {}
  printed : List String := []

/-- What was written and printed before a failure stays. -/
abbrev Running := ExceptT Failure (StateM Session)

namespace Running

def print (line : String) : Running Unit :=
  modify fun s => { s with printed := s.printed ++ [line] }

def readText (path : Path) : Running String := do
  match (← get).volume.read path with
  | .ok s => return s
  | .error cause => throw (.access path cause)

def writeText (path : Path) (text : String) : Running Unit := do
  let (result, volume) := (← get).volume.write path text
  modify fun s => { s with volume := volume }
  match result with
  | .ok _ => return
  | .error cause => throw (.access path cause)

def readElement (path : Path) : Running Element := do
  Element.parse (← readText path)

def writeElement (path : Path) (e : Element) : Running Unit := writeText path e.render

def checkInputs (inputs : List Path) : Running Unit := do
  let volume := (← get).volume
  match inputs.find? fun path => !volume.isFile path with
  | some path => throw (.missingInput path)
  | none => return

end Running

structure Summary where
  report : Report
  written : Bool
  deriving DecidableEq

def Summary.succeeded (s : Summary) : Bool := s.report.errors = 0

namespace Resolution

open Running

def finish (report : Report) (output : Path) (merged : Element) : Running Summary := do
  print ("Errors : " ++ toString report.errors)
  print ("Warnings : " ++ toString report.warnings)
  if report.errors > 0 then
    print "There were errors, aborting"
    return { report := report, written := false }
  writeElement output merged.indent
  print "Resolve done"
  return { report := report, written := true }

def addPlatform (held : Noted Exchange.Platform) (root : Element) :
    Except Failure (Noted Exchange.Platform) := do
  let read := (Exchange.Platform.read root).run
  let document ← read.value
  let merged := held.value.merge document
  return ⟨merged.value, held.findings ++ read.findings ++ merged.findings⟩

def resolvePlatform (inputs : List Path) (output : Path) : Running Summary := do
  checkInputs inputs
  let merged ← inputs.foldlM (fun held input => do
    let root ← readElement input
    addPlatform held root) ⟨{}, []⟩
  finish merged.findings output merged.value.write

def loadConfiguration (path : Path) : Running Configuration := do
  Configuration.read (← readText path)

def readDocument (root : Element) (allocator : Allocator) :
    Except Failure (Document × Allocator) := do
  let (document, allocator) := (Document.read root).run.run allocator
  return (← document, allocator)

def addNetwork (writeResolved : Bool) (held : Noted Network × Allocator) (input : Path) :
    Running (Noted Network × Allocator) := do
  let root ← readElement input
  let (document, allocator) ← readDocument root held.2
  if writeResolved then
    writeElement input.resolved (document.stamp root).indent
  return (do (← held.1).merge document, allocator)

def resolveNetwork (inputs : List Path) (output : Path) (allocator : Allocator)
    (writeResolved : Bool) : Running Summary := do
  checkInputs inputs
  let (merged, _) ← inputs.foldlM (addNetwork writeResolved) (pure {}, allocator)
  finish merged.findings output merged.value.write

/-- Both inputs are read before anything is written. -/
def invertFiles (network exchange invertedNetwork invertedExchange : Path) : Running Unit := do
  let networkRoot ← readElement network
  let exchangeRoot ← readElement exchange
  writeElement invertedNetwork (Inversion.invertNetwork networkRoot).indent
  writeElement invertedExchange (Inversion.invertExchange exchangeRoot).indent

def writeReport (report : Report) (path : Path) : Running Unit := writeText path report.json

end Resolution

end Avionics
