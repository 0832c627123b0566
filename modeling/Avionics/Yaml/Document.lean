import Avionics.Yaml.Node

namespace Avionics.Yaml

structure Document where
  root : Node
  /-- The nodes that aliases stand for, by number; the first one of a number counts. -/
  anchors : List (Nat × Node) := []

abbrev Decoding := ReaderT Document (StateT Nat Option)

namespace Decoding

def resolve : Node → Decoding Node
  | .alias number => do
    match ← get with
    | 0 => failure
    | n + 1 =>
      set n
      return ← (← read).anchors.lookup number
  | x => return x

def text (x : Node) : Decoding String := do return ← (← resolve x).text?

def entries (x : Node) : Decoding (List (Node × Node)) := do return ← (← resolve x).entries?

end Decoding

namespace Document

def aliasLimit (d : Document) : Nat := 100 * d.root.size

def decode? {α : Type} (d : Document) (value : Node → Decoding α) : Option α :=
  ((value d.root).run d).run' d.aliasLimit

end Document

end Avionics.Yaml
