/-! Bytes that are taken for UTF-8.  Where they are not, as many bytes as could begin a
character are read as one replacement character. -/

namespace Avionics.Text

def encode (s : String) : List UInt8 := s.toList.flatMap String.utf8EncodeChar

def replacement : Char := '\uFFFD'

def extend (code b : Nat) : Nat := 0x40 * code + (b - 0x80)

/-- The least number that becomes of another one by so many more bytes. -/
def least (code : Nat) : Nat → Nat
  | 0 => code
  | left + 1 => least (extend code 0x80) left

theorem least_le_least {code code' : Nat} (h : code ≤ code') (left : Nat) :
    least code left ≤ least code' left := by
  induction left generalizing code code' with
  | zero => exact h
  | succ left ih => exact ih (Nat.add_le_add_right (Nat.mul_le_mul_left _ h) _)

/-- A character of several bytes, not all of which were read: where the next one can lie, how
many come behind that, and the number so far.  It never becomes one that is a single byte. -/
structure Begun where
  low : Nat
  high : Nat
  left : Nat
  code : Nat
  le_low : 0x80 ≤ low
  le_least : 0x80 ≤ least (extend code low) left

namespace Begun

/-- The ranges leave out what is longer than needed, surrogates, and what is no character. -/
def ofLead? (b : Nat) : Option Begun :=
  if h : 0xC2 ≤ b ∧ b ≤ 0xDF then
    some ⟨0x80, 0xBF, 0, b - 0xC0, by decide, by unfold least extend; omega⟩
  else if b = 0xE0 then some ⟨0xA0, 0xBF, 1, 0, by decide, by decide⟩
  else if b = 0xED then some ⟨0x80, 0x9F, 1, 0xD, by decide, by decide⟩
  else if h : 0xE1 ≤ b ∧ b ≤ 0xEF then
    some ⟨0x80, 0xBF, 1, b - 0xE0, by decide, by unfold least least extend; omega⟩
  else if b = 0xF0 then some ⟨0x90, 0xBF, 2, 0, by decide, by decide⟩
  else if b = 0xF4 then some ⟨0x80, 0x8F, 2, 4, by decide, by decide⟩
  else if h : 0xF1 ≤ b ∧ b ≤ 0xF3 then
    some ⟨0x80, 0xBF, 2, b - 0xF0, by decide, by unfold least least least extend; omega⟩
  else none

variable {c : Begun} {b n : Nat}

theorem le_least_of_le (h : c.low ≤ b) : 0x80 ≤ least (extend c.code b) c.left :=
  Nat.le_trans c.le_least
    (least_le_least (Nat.add_le_add_left (Nat.sub_le_sub_right h 0x80) _) c.left)

theorem le_least_succ (h : c.low ≤ b) (hleft : c.left = n + 1) :
    0x80 ≤ least (extend (extend c.code b) 0x80) n := by
  have hleast := le_least_of_le h
  rw [hleft, least] at hleast
  exact hleast

end Begun

def lead (b : Nat) : List Char × Option Begun :=
  if b < 0x80 then ([Char.ofNat b], none)
  else
    match Begun.ofLead? b with
    | some c => ([], some c)
    | none => ([replacement], none)

def advance : Option Begun → Nat → List Char × Option Begun
  | none, b => lead b
  | some c, b =>
    if h : c.low ≤ b ∧ b ≤ c.high then
      match hleft : c.left with
      | 0 => ([Char.ofNat (extend c.code b)], none)
      | n + 1 =>
        ([], some ⟨0x80, 0xBF, n, extend c.code b, by decide, Begun.le_least_succ h.1 hleft⟩)
    else (replacement :: (lead b).1, (lead b).2)

def decodeFrom : Option Begun → List UInt8 → List Char
  | none, [] => []
  | some _, [] => [replacement]
  | c, b :: bytes => (advance c b.toNat).1 ++ decodeFrom (advance c b.toNat).2 bytes

def decode (bytes : List UInt8) : String := String.ofList (decodeFrom none bytes)

end Avionics.Text
