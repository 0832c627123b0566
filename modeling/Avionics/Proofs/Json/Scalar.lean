import Avionics.Json
import Avionics.Text.Character
import Mathlib.Data.List.TakeWhile

namespace Avionics.Json

structure Decimal where
  negative : Bool := false
  coefficient : Nat
  exponent : Int := 0
  deriving DecidableEq

inductive Scalar
  | null
  | boolean (b : Bool)
  | number (n : Decimal)
  | text (s : String)
  deriving DecidableEq

namespace Decimal

def sign : List Char → Bool × List Char
  | '-' :: cs => (true, cs)
  | cs => (false, cs)

def digits? (cs : List Char) : Option (List Char × List Char) :=
  if cs.takeWhile Char.isDigit = [] then none
  else some (cs.takeWhile Char.isDigit, cs.dropWhile Char.isDigit)

def whole? (cs : List Char) : Option (List Char × List Char) :=
  (digits? cs).filter fun p => p.1 = ['0'] || p.1.head? ≠ some '0'

def fraction? : List Char → Option (List Char × List Char)
  | '.' :: cs => digits? cs
  | cs => some ([], cs)

def signedExponent? (negative : Bool) (cs : List Char) : Option Int := do
  let (ds, rest) ← digits? cs
  let n : Int := Nat.ofDigitChars 10 ds 0
  if rest = [] then return if negative then -n else n else none

def exponent? : List Char → Option Int
  | [] => some 0
  | mark :: '+' :: cs => if mark = 'e' ∨ mark = 'E' then signedExponent? false cs else none
  | mark :: cs => if mark = 'e' ∨ mark = 'E' then signedExponent? (sign cs).1 (sign cs).2 else none

def decode (cs : List Char) : Option Decimal := do
  let (negative, cs) := sign cs
  let (whole, cs) ← whole? cs
  let (fraction, cs) ← fraction? cs
  let exponent ← exponent? cs
  return {
    negative := negative
    coefficient := Nat.ofDigitChars 10 (whole ++ fraction) 0
    exponent := exponent - fraction.length }

theorem digits?_of_digits {cs : List Char} (hne : cs ≠ []) (h : ∀ c ∈ cs, c.isDigit = true) :
    digits? cs = some (cs, []) := by
  rw [digits?, List.takeWhile_eq_self_iff.2 h, List.dropWhile_eq_nil_iff.2 h, if_neg hne]

theorem sign_of_digits {cs : List Char} (h : ∀ c ∈ cs, c.isDigit = true) :
    sign cs = (false, cs) := by
  unfold sign
  split
  · cases h '-' List.mem_cons_self
  · rfl

theorem whole_toDigits (n : Nat) :
    Nat.toDigits 10 n = ['0'] ∨ (Nat.toDigits 10 n).head? ≠ some '0' := by
  induction n using Nat.strong_induction_on with
  | _ n ih =>
    rcases Nat.lt_or_ge n 10 with hlt | hge
    · rw [Nat.toDigits_of_lt_base hlt]
      rcases eq_or_ne n 0 with rfl | hne
      · exact .inl rfl
      · exact .inr fun h => hne (Nat.digitChar_eq_zero.1 (Option.some.inj h))
    · rw [Nat.toDigits_of_base_le (by decide) hge]
      have hhead : (Nat.toDigits 10 (n / 10)).head? ≠ some '0' := by
        rcases ih (n / 10) (by omega) with hzero | hhead
        · intro _
          have hvalue : Nat.ofDigitChars 10 (Nat.toDigits 10 (n / 10)) 0 = 0 := by
            rw [hzero]
            rfl
          rw [Nat.ofDigitChars_ten_toDigits] at hvalue
          omega
        · exact hhead
      cases hds : Nat.toDigits 10 (n / 10) with
      | nil => exact absurd hds Nat.toDigits_ne_nil
      | cons d ds =>
        rw [hds] at hhead
        exact .inr hhead

theorem decode_toDigits (n : Nat) : decode (Nat.toDigits 10 n) = some { coefficient := n } := by
  have hdigits : ∀ c ∈ Nat.toDigits 10 n, c.isDigit = true :=
    fun c => Nat.isDigit_of_mem_toDigits (by decide) (by decide)
  have hwhole : whole? (Nat.toDigits 10 n) = some (Nat.toDigits 10 n, []) := by
    rw [whole?, digits?_of_digits Nat.toDigits_ne_nil hdigits, Option.filter_eq_some_iff]
    exact ⟨rfl, by simpa using whole_toDigits n⟩
  rw [decode, sign_of_digits hdigits]
  simp only [hwhole, Option.bind_eq_bind, Option.bind_some, fraction?, exponent?, List.append_nil,
    Nat.ofDigitChars_ten_toDigits]
  rfl

end Decimal

def Scalar.bare? (cs : List Char) : Option Scalar :=
  if cs = ['n', 'u', 'l', 'l'] then some .null
  else if cs = ['t', 'r', 'u', 'e'] then some (.boolean true)
  else if cs = ['f', 'a', 'l', 's', 'e'] then some (.boolean false)
  else (Decimal.decode cs).map .number

theorem Scalar.bare?_toDigits (n : Nat) :
    bare? (Nat.toDigits 10 n) = some (.number { coefficient := n }) := by
  have hne : ∀ {c : Char} {cs : List Char}, c.isDigit = false → Nat.toDigits 10 n ≠ c :: cs := by
    intro c cs hc heq
    have hdigit : c.isDigit = true :=
      Nat.isDigit_of_mem_toDigits (by decide) (by decide) (heq ▸ List.mem_cons_self)
    cases hc.symm.trans hdigit
  rw [bare?, if_neg (hne rfl), if_neg (hne rfl), if_neg (hne rfl), Decimal.decode_toDigits]
  rfl

end Avionics.Json
