import Avionics.Proofs.Json.Escape
import Avionics.Proofs.Json.Scalar

namespace Avionics.Json

inductive Token
  | openArray | closeArray
  | openObject | closeObject
  | comma | colon
  | scalar (s : Scalar)
  deriving DecidableEq

def punctuation? : Char → Option Token
  | '[' => some .openArray
  | ']' => some .closeArray
  | '\x7b' => some .openObject
  | '\x7d' => some .closeObject
  | ',' => some .comma
  | ':' => some .colon
  | _ => none

def isSpace (c : Char) : Bool := c ∈ [' ', '\t', '\n', '\r']

def isBare (c : Char) : Bool := c.isAlphanum || c ∈ ['+', '-', '.']

/-- Where a text is cut: between two tokens, within a scalar without quotes, or within a
string, possibly behind a backslash. -/
inductive Mode
  | between
  | bare (read : List Char)
  | text (read : List Char)
  | escaped (read : List Char)

def start (c : Char) : Option (List Token × Mode) :=
  if isSpace c then some ([], .between)
  else if c = '"' then some ([], .text [])
  else if isBare c then some ([], .bare [c])
  else (punctuation? c).map fun t => ([t], .between)

def step : Mode → Char → Option (List Token × Mode)
  | .between, c => start c
  | .bare read, c =>
    if isBare c then some ([], .bare (read ++ [c]))
    else (Scalar.bare? read).bind fun s => (start c).map fun p => (.scalar s :: p.1, p.2)
  | .text read, c =>
    if c = '"' then (unescape? read).map fun s => ([.scalar (.text (String.ofList s))], .between)
    else if c = '\\' then some ([], .escaped (read ++ [c]))
    else some ([], .text (read ++ [c]))
  | .escaped read, c => some ([], .text (read ++ [c]))

def finish : Mode → Option (List Token)
  | .between => some []
  | .bare read => (Scalar.bare? read).map ([.scalar ·])
  | .text _ | .escaped _ => none

def lex : Mode → List Char → Option (List Token)
  | m, [] => finish m
  | m, c :: cs => (step m c).bind fun p => (lex p.2 cs).map (p.1 ++ ·)

def Ends (cs : List Char) : Prop := ∀ c ∈ cs.head?, isBare c = false

theorem lex_cons {m n : Mode} {c : Char} {ts : List Token} (h : step m c = some (ts, n))
    (cs : List Char) : lex m (c :: cs) = (lex n cs).map (ts ++ ·) := by
  rw [lex, h]
  rfl

theorem lex_cons_silent {m n : Mode} {c : Char} (h : step m c = some ([], n)) (cs : List Char) :
    lex m (c :: cs) = lex n cs := by
  rw [lex_cons h]
  exact Option.map_id'

section Strings

variable {read : List Char}

theorem ne_of_isPlain {c : Char} (h : isPlain c = true) : c ≠ '"' ∧ c ≠ '\\' := by
  simp only [isPlain, Bool.and_eq_true, decide_eq_true_eq] at h
  exact h.1

theorem lex_plain {c : Char} (h : isPlain c = true) (cs : List Char) :
    lex (.text read) (c :: cs) = lex (.text (read ++ [c])) cs := by
  obtain ⟨hquote, hbackslash⟩ := ne_of_isPlain h
  exact lex_cons_silent (by rw [step, if_neg hquote, if_neg hbackslash]) cs

theorem lex_backslash (c : Char) (cs : List Char) :
    lex (.text read) ('\\' :: c :: cs) = lex (.text (read ++ ['\\', c])) cs := by
  rw [lex_cons_silent (n := .escaped (read ++ ['\\'])) rfl,
    lex_cons_silent (n := .text (read ++ ['\\'] ++ [c])) rfl,
    List.append_assoc]
  rfl

theorem lex_escapeChar (c : Char) (cs : List Char) :
    lex (.text read) (escapeChar c ++ cs) = lex (.text (read ++ escapeChar c)) cs := by
  cases escaped c with
  | plain h hplain =>
    rw [h]
    exact lex_plain hplain cs
  | @short x h hu hx =>
    rw [h]
    exact lex_backslash x cs
  | @unit x y h hx hy hc hunit =>
    rw [h]
    show lex (.text read) ('\\' :: 'u' :: '0' :: '0' :: x :: y :: cs) = _
    rw [lex_backslash, lex_plain (c := '0') rfl, lex_plain (c := '0') rfl, lex_plain hx,
      lex_plain hy]
    simp only [List.append_assoc]
    rfl

theorem lex_escaped (s cs : List Char) :
    lex (.text read) (s.flatMap escapeChar ++ cs) = lex
    (.text (read ++ s.flatMap escapeChar)) cs := by
  induction s generalizing read with
  | nil => simp
  | cons c s ih => rw [List.flatMap_cons, List.append_assoc, lex_escapeChar, ih, List.append_assoc]

theorem lex_quote (s : String) (cs : List Char) :
    lex .between (quote s ++ cs) = (lex .between cs).map (.scalar (.text s) :: ·) := by
  show lex .between ('"' :: (s.toList.flatMap escapeChar ++ ['"'] ++ cs)) = _
  rw [lex_cons_silent (n := .text []) rfl, List.append_assoc, lex_escaped, List.nil_append]
  have hstep : step (.text (s.toList.flatMap escapeChar)) '"'
      = some ([.scalar (.text s)], .between) := by
    rw [step, if_pos rfl, unescape?_flatMap, Option.map_some, String.ofList_toList]
  exact lex_cons hstep cs

end Strings

section Numbers

theorem lex_bare {ds : List Char} (h : ∀ d ∈ ds, isBare d = true) (read cs : List Char) :
    lex (.bare read) (ds ++ cs) = lex (.bare (read ++ ds)) cs := by
  induction ds generalizing read with
  | nil => simp
  | cons d ds ih =>
    obtain ⟨hd, hds⟩ := List.forall_mem_cons.1 h
    have hstep : step (.bare read) d = some ([], .bare (read ++ [d])) := if_pos hd
    rw [List.cons_append, lex_cons_silent hstep, ih hds, List.append_assoc]
    rfl

theorem lex_bare_ends {read cs : List Char} {s : Scalar} (hs : Scalar.bare? read = some s)
    (h : Ends cs) : lex (.bare read) cs = (lex .between cs).map (.scalar s :: ·) := by
  cases cs with
  | nil =>
    rw [lex, finish, hs]
    rfl
  | cons c cs =>
    have hc : isBare c = false := h c rfl
    rw [lex, lex, step, step, if_neg (by simp [hc]), hs]
    cases start c with
    | none => rfl
    | some p =>
      show (lex p.2 cs).map (.scalar s :: p.1 ++ ·) = ((lex p.2 cs).map (p.1 ++ ·)).map
          (.scalar s :: ·)
      rw [Option.map_map]
      rfl

theorem isDigit_eq_false_of_isSpace {c : Char} (h : isSpace c = true) : c.isDigit = false := by
  have hc := of_decide_eq_true h
  simp only [List.mem_cons, List.not_mem_nil, or_false] at hc
  rcases hc with rfl | rfl | rfl | rfl <;> rfl

theorem isBare_of_isDigit {c : Char} (h : c.isDigit = true) : isBare c = true := by
  simp [isBare, Char.isAlphanum, h]

theorem lex_toDigits (n : Nat) {cs : List Char} (h : Ends cs) :
    lex .between (Nat.toDigits 10 n ++ cs) = (lex .between cs).map
    (.scalar (.number { coefficient := n }) :: ·) := by
  have hdigits : ∀ c ∈ Nat.toDigits 10 n, c.isDigit = true :=
    fun c => Nat.isDigit_of_mem_toDigits (by decide) (by decide)
  rw [← lex_bare_ends (Scalar.bare?_toDigits n) h]
  cases hds : Nat.toDigits 10 n with
  | nil => exact absurd hds Nat.toDigits_ne_nil
  | cons d ds =>
    rw [hds] at hdigits
    obtain ⟨hd, hrest⟩ := List.forall_mem_cons.1 hdigits
    have hstart : step .between d = some ([], .bare [d]) := by
      have hspace : ¬ isSpace d = true := fun hspace => by
        rw [isDigit_eq_false_of_isSpace hspace] at hd
        cases hd
      have hquote : d ≠ '"' := by
        rintro rfl
        cases hd
      rw [step, start, if_neg hspace, if_neg hquote, if_pos (isBare_of_isDigit hd)]
    rw [List.cons_append, lex_cons_silent hstart, lex_bare fun c hc =>
      isBare_of_isDigit (hrest c hc)]
    rfl

end Numbers

theorem lex_newline (depth : Nat) (cs : List Char) :
    lex .between (newline depth ++ cs) = lex .between cs := by
  rw [newline, List.cons_append, lex_cons_silent rfl]
  induction 2 * depth with
  | zero => rfl
  | succ n ih => rw [List.replicate_succ, List.cons_append, lex_cons_silent rfl, ih]

section Layout

mutual

def tokens : Json → List Token
  | .number n => [.scalar (.number { coefficient := n })]
  | .string s => [.scalar (.text s)]
  | .array [] => [.openArray, .closeArray]
  | .array (v :: vs) => .openArray :: tokens v ++ itemTokens vs ++ [.closeArray]
  | .object [] => [.openObject, .closeObject]
  | .object ((k, v) :: ms) =>
    .openObject :: .scalar (.text k) :: .colon :: tokens v ++ memberTokens ms ++ [.closeObject]

def itemTokens : List Json → List Token
  | [] => []
  | v :: vs => .comma :: tokens v ++ itemTokens vs

def memberTokens : List (String × Json) → List Token
  | [] => []
  | (k, v) :: ms => .comma :: .scalar (.text k) :: .colon :: tokens v ++ memberTokens ms

end

theorem ends_cons {c : Char} (h : isBare c = false) (cs : List Char) : Ends (c :: cs) := by
  rintro _ ⟨⟩
  exact h

theorem ends_newline (depth : Nat) (cs : List Char) : Ends (newline depth ++ cs) := ends_cons rfl _

theorem ends_renderItems (depth : Nat) (vs : List Json) {cs : List Char} (h : Ends cs) :
    Ends (renderItems depth vs ++ cs) := by
  cases vs with
  | nil => exact h
  | cons v vs => exact ends_cons rfl _

theorem ends_renderMembers (depth : Nat) (ms : List (String × Json)) {cs : List Char}
    (h : Ends cs) : Ends (renderMembers depth ms ++ cs) := by
  cases ms with
  | nil => exact h
  | cons m ms => exact ends_cons rfl _

theorem lex_punctuation {c : Char} {t : Token} (h : start c = some ([t], .between))
    (cs : List Char) :
    lex .between (c :: cs) = (lex .between cs).map (t :: ·) := lex_cons (m := .between) h cs

theorem lex_colon (cs : List Char) :
    lex .between (':' :: ' ' :: cs) = (lex .between cs).map (.colon :: ·) := by
  rw [lex_punctuation rfl, lex_cons_silent rfl]

mutual

theorem lex_render (depth : Nat) : ∀ (v : Json) {cs : List Char}, Ends cs →
    lex .between (render depth v ++ cs) = (lex .between cs).map (tokens v ++ ·)
  | .number n, _, h => by
    rw [render, lex_toDigits n h, tokens]
    rfl
  | .string s, _, _ => by
    rw [render, lex_quote, tokens]
    rfl
  | .array [], cs, _ => by
    show lex .between ('[' :: ']' :: cs) = _
    rw [lex_punctuation rfl, lex_punctuation rfl, Option.map_map, tokens]
    rfl
  | .array (v :: vs), cs, _ => by
    have hv := fun cs => lex_render (depth + 1) v
        (ends_renderItems (depth + 1) vs (ends_newline depth cs))
    have hvs := fun cs => lex_renderItems (depth + 1) vs (ends_newline depth cs)
    simp only [render, List.append_assoc, List.cons_append, List.nil_append]
    rw [lex_punctuation rfl, lex_newline, hv, hvs, lex_newline, lex_punctuation rfl, tokens]
    simp [Option.map_map, Function.comp_def]
  | .object [], cs, _ => by
    show lex .between ('\x7b' :: '\x7d' :: cs) = _
    rw [lex_punctuation rfl, lex_punctuation rfl, Option.map_map, tokens]
    rfl
  | .object ((k, v) :: ms), cs, _ => by
    have hv := fun cs => lex_render (depth + 1) v
        (ends_renderMembers (depth + 1) ms (ends_newline depth cs))
    have hms := fun cs => lex_renderMembers (depth + 1) ms (ends_newline depth cs)
    simp only [render, List.append_assoc, List.cons_append, List.nil_append]
    rw [lex_punctuation rfl, lex_newline, lex_quote, lex_colon, hv, hms, lex_newline,
      lex_punctuation rfl, tokens]
    simp [Option.map_map, Function.comp_def]

theorem lex_renderItems (depth : Nat) : ∀ (vs : List Json) {cs : List Char}, Ends cs →
    lex .between (renderItems depth vs ++ cs) = (lex .between cs).map (itemTokens vs ++ ·)
  | [], _, _ => by simp [renderItems, itemTokens]
  | v :: vs, cs, h => by
    simp only [renderItems, List.append_assoc, List.cons_append]
    rw [lex_punctuation rfl, lex_newline, lex_render depth v (ends_renderItems depth vs h),
      lex_renderItems depth vs h, itemTokens]
    simp [Option.map_map, Function.comp_def]

theorem lex_renderMembers (depth : Nat) : ∀ (ms : List (String × Json)) {cs : List Char}, Ends cs →
    lex .between (renderMembers depth ms ++ cs) = (lex .between cs).map (memberTokens ms ++ ·)
  | [], _, _ => by simp [renderMembers, memberTokens]
  | (k, v) :: ms, cs, h => by
    simp only [renderMembers, List.append_assoc, List.cons_append, List.nil_append]
    rw [lex_punctuation rfl, lex_newline, lex_quote, lex_colon,
      lex_render depth v (ends_renderMembers depth ms h), lex_renderMembers depth ms h,
      memberTokens]
    simp [Option.map_map, Function.comp_def]

end

theorem lex_pretty (v : Json) : lex .between v.pretty.toList = some v.tokens := by
  have hends : Ends [] := fun _ h => nomatch h
  have h := lex_render 0 v hends
  rw [List.append_nil] at h
  rw [pretty, String.toList_ofList, h]
  simp [lex, finish]

end Layout

end Avionics.Json
