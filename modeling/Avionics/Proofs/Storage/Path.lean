import Avionics.Proofs.Text.Decoding
import Avionics.Storage.Path
import Mathlib.Data.List.DropRight

namespace Avionics.Storage

namespace Name

section Split

variable {byte : UInt8} {bytes stem ext : List UInt8}

end Split

section Reread

/-- What is written for a name by a program that takes it for text. -/
def reread (name : Name) : Name := ofText name.text

end Reread

section Resolved

variable {name name' : Name}

end Resolved

end Name

namespace Path

section Directories

variable {segments ds : List Name} {p : Path} {directory : List Name} {name copy : Name}

end Directories

section Bytes

variable {p : Path} {name : Name}

end Bytes

section Resolved

variable {p q : Path} {directory : List Name} {name : Name}

end Resolved

end Path

end Avionics.Storage
