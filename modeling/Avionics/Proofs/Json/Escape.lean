import Avionics.Json
import Avionics.Text.Character

namespace Avionics.Json

inductive Piece
  | char (c : Char)
  | unit (n : Nat)

def shortEscape? : Char → Option Char
  | '"' => some '"'
  | '\\' => some '\\'
  | '/' => some '/'
  | 'b' => some '\x08'
  | 'f' => some '\x0c'
  | 'n' => some '\n'
  | 'r' => some '\r'
  | 't' => some '\t'
  | _ => none

def unit? (ds : List Char) : Option Nat :=
  (ds.mapM (Text.digit? 16)).map fun ns => ns.foldl (fun n d => 16 * n + d) 0

def isPlain (c : Char) : Bool := c ≠ '"' && c ≠ '\\' && 32 ≤ c.toNat

def pieces? : List Char → Option (List Piece)
  | [] => some []
  | '\\' :: 'u' :: a :: b :: c :: d :: cs =>
    (unit? [a, b, c, d]).bind fun n => (pieces? cs).map (.unit n :: ·)
  | '\\' :: c :: cs => (shortEscape? c).bind fun c => (pieces? cs).map (.char c :: ·)
  | c :: cs => if isPlain c then (pieces? cs).map (.char c :: ·) else none

def isLeading (n : Nat) : Bool := 0xD800 ≤ n && n < 0xDC00

def isTrailing (n : Nat) : Bool := 0xDC00 ≤ n && n < 0xE000

/-- A leading unit and a trailing one go together, and neither stands alone. -/
def assemble? : List Piece → Option (List Char)
  | [] => some []
  | .char c :: ps => (assemble? ps).map (c :: ·)
  | .unit n :: ps =>
    if isTrailing n then none
    else if isLeading n then
      match ps with
      | .unit m :: ps =>
        if isTrailing m then (assemble? ps).map
          (Char.ofNat (0x10000 + 0x400 * (n - 0xD800) + (m - 0xDC00)) :: ·) else none
      | _ => none
    else (assemble? ps).map (Char.ofNat n :: ·)

def unescape? (cs : List Char) : Option (List Char) := (pieces? cs).bind assemble?

theorem assemble?_unit {c : Char} (h : c.toNat < 32) (ps : List Piece) :
    assemble? (.unit c.toNat :: ps) = (assemble? ps).map (c :: ·) := by
  have htrailing : isTrailing c.toNat = false := by simp [isTrailing]; omega
  have hleading : isLeading c.toNat = false := by simp [isLeading]; omega
  rw [assemble?.eq_def]
  simp only [htrailing, hleading, Bool.false_eq_true, if_false, Char.ofNat_toNat]

theorem digit?_hexDigit {n : Nat} (h : n < 16) : Text.digit? 16 (hexDigit n) = some n := by
  revert n
  decide

theorem unit?_hexDigits {n : Nat} (h : n < 256) :
    unit? ['0', '0', hexDigit (n / 16), hexDigit (n % 16)] = some n := by
  have hhigh := digit?_hexDigit (n := n / 16) (by omega)
  have hlow := digit?_hexDigit (n := n % 16) (by omega)
  have hzero : Text.digit? 16 '0' = some 0 := rfl
  simp [unit?, hzero, hhigh, hlow]
  omega

inductive Escaped (c : Char) : Prop
  | plain : escapeChar c = [c] → isPlain c = true → Escaped c
  | short {x : Char} : escapeChar c = ['\\', x] → x ≠ 'u' → shortEscape? x = some c → Escaped c
  | unit {x y : Char} : escapeChar c = ['\\', 'u', '0', '0', x, y] → isPlain x = true →
      isPlain y = true → c.toNat < 32 →
    unit? ['0', '0', x, y] = some c.toNat → Escaped c

theorem isPlain_hexDigit {n : Nat} (h : n < 16) : isPlain (hexDigit n) = true := by
  revert n
  decide

theorem escaped (c : Char) : Escaped c := by
  by_cases hshort : c ∈ ['"', '\\', '\x08', '\x0c', '\n', '\r', '\t']
  · simp only [List.mem_cons, List.not_mem_nil, or_false] at hshort
    rcases hshort with rfl | rfl | rfl | rfl | rfl | rfl | rfl <;> exact .short rfl (by decide) rfl
  · simp only [List.mem_cons, List.not_mem_nil, or_false, not_or] at hshort
    obtain ⟨hquote, hbackslash, hb, hf, hn, hr, ht⟩ := hshort
    have hlong : escapeChar c = if c.toNat < 32
        then ['\\', 'u', '0', '0', hexDigit (c.toNat / 16), hexDigit (c.toNat % 16)]
        else [c] := by
      rw [escapeChar, if_neg hquote, if_neg hbackslash, if_neg hb, if_neg hf, if_neg hn,
        if_neg hr, if_neg ht]
    by_cases hcontrol : c.toNat < 32
    · rw [if_pos hcontrol] at hlong
      exact .unit hlong (isPlain_hexDigit (by omega)) (isPlain_hexDigit (by omega)) hcontrol
        (unit?_hexDigits (by omega))
    · rw [if_neg hcontrol] at hlong
      exact .plain hlong (by simp [isPlain, hquote, hbackslash, Nat.le_of_not_lt hcontrol])

theorem unescape?_of_pieces {c : Char} {p : Piece} {l cs : List Char}
    (hl : pieces? l = (pieces? cs).map (p :: ·))
    (hp : ∀ ps, assemble? (p :: ps) = (assemble? ps).map (c :: ·)) :
    unescape? l = (unescape? cs).map (c :: ·) := by
  rw [unescape?, unescape?, hl]
  cases pieces? cs with
  | none => rfl
  | some ps => exact hp ps

theorem unescape?_escapeChar (c : Char) (cs : List Char) :
    unescape? (escapeChar c ++ cs) = (unescape? cs).map (c :: ·) := by
  cases escaped c with
  | plain h hplain =>
    rw [h]
    refine unescape?_of_pieces (p := .char c) ?_ fun ps => rfl
    have hc : c ≠ '\\' := by
      rintro rfl
      cases hplain
    rw [List.singleton_append, pieces?, if_pos hplain]
    · intro _ _ _ _ _ heq
      exact absurd heq hc
    · intro _ _ heq
      exact absurd heq hc
  | @short x h hu hx =>
    rw [h]
    refine unescape?_of_pieces (p := .char c) ?_ fun ps => rfl
    rw [List.cons_append, List.singleton_append, pieces?, hx, Option.bind_some]
    intro _ _ _ _ _ heq
    exact absurd heq hu
  | @unit x y h hx hy hc hunit =>
    rw [h]
    refine unescape?_of_pieces (p := .unit c.toNat) ?_ (assemble?_unit hc)
    show pieces? ('\\' :: 'u' :: '0' :: '0' :: x :: y :: cs) = _
    rw [pieces?, hunit, Option.bind_some]

theorem unescape?_flatMap (cs : List Char) : unescape? (cs.flatMap escapeChar) = some cs := by
  induction cs with
  | nil => rfl
  | cons c cs ih => rw [List.flatMap_cons, unescape?_escapeChar, ih, Option.map_some]

end Avionics.Json
