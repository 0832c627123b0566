import Avionics.CommandLine.Tool

namespace Avionics

open Storage

def pathsOf (arg : String) : List Path :=
  let path := Path.ofText arg
  [path, path.resolved] ++ (Arguments.splitValue arg.toList).2.toList.map Path.ofText

/-- Adds what lies at a location.  A directory exists, but cannot be read. -/
def survey (v : Volume) (location : Location) : IO Volume := do
  try
    return v.addFile location (.ofBytes (← IO.FS.readBinFile location.text))
  catch _ =>
    try
      let _ ← IO.FS.realPath location.text
      return v.addDirectory location
    catch _ => return v

def surveyPath (v : Volume) (path : Path) : IO Volume := do
  (List.range path.segments.length).foldlM (fun v n =>
    match v.locate ⟨path.segments.take (n + 1)⟩ with
    | .ok (.vacant location) => survey v location
    | _ => pure v) v

def conclude (before : Volume) (ending : Ending) : IO UInt32 := do
  for line in ending.session.printed do
    IO.println line
  for (location, content) in before.changes ending.session.volume do
    if let .text s := content then
      IO.FS.writeFile location.text s
  if let some complaint := ending.complaint then
    IO.eprintln complaint
  return ending.code.toUInt32

end Avionics

def main (args : List String) : IO UInt32 := do
  match args.head?.bind Avionics.Tool.ofName? with
  | none =>
    for t in Avionics.Tool.all do
      IO.eprintln t.usage
    return 2
  | some t =>
    let before ← (args.tail.flatMap Avionics.pathsOf).foldlM Avionics.surveyPath {}
    Avionics.conclude before (t.run args.tail before)
