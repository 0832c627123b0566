import Avionics.Keyed
import Avionics.Noted

namespace Avionics.Keyed

variable {κ α : Type} [DecidableEq κ]

def absorb (join : α → α → Noted α) (m : Keyed κ α) (k : κ) (v : α) : Noted (Keyed κ α) :=
  match h : m.get? k with
  | none => pure (m.push k v h)
  | some held => do
    let joined ← join held v
    return m.insert k joined

def merge (join : α → α → Noted α) (m n : Keyed κ α) : Noted (Keyed κ α) :=
  n.entries.foldlM (fun m e => m.absorb join e.1 e.2) m

end Avionics.Keyed
