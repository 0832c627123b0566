import Avionics.Markup.Printer
import Avionics.Markup.Reader
import Mathlib.Data.List.Induction

namespace Avionics.Markup

theorem escapeChar_eq_self {c : Char} (h : c ∉ ['<', '>', '&', '\'', '"']) :
    escapeChar c = [c] := by
  simp only [List.mem_cons, List.not_mem_nil, or_false, not_or] at h
  obtain ⟨hl, hg, ha, hp, hq⟩ := h
  unfold escapeChar
  split <;> first | contradiction | rfl

@[simp] theorem escape_nil : escape [] = [] := rfl

@[simp] theorem escape_cons (c : Char) (cs : List Char) :
    escape (c :: cs) = escapeChar c ++ escape cs := rfl

theorem escape_append (s t : List Char) : escape (s ++ t) = escape s ++ escape t :=
  List.flatMap_append

theorem not_mem_escapeChar {c d : Char} (hd : d ∈ ['<', '>', '\'', '"']) : d ∉ escapeChar c := by
  by_cases hc : c ∈ ['<', '>', '&', '\'', '"']
  · simp only [List.mem_cons, List.not_mem_nil, or_false] at hc hd
    rcases hc with rfl | rfl | rfl | rfl | rfl <;> rcases hd with rfl | rfl | rfl | rfl <;> decide
  · rw [escapeChar_eq_self hc, List.mem_singleton]
    rintro rfl
    simp only [List.mem_cons, List.not_mem_nil, or_false, not_or] at hc hd
    rcases hd with rfl | rfl | rfl | rfl <;> simp_all

theorem not_mem_escape {s : List Char} {d : Char} (hd : d ∈ ['<', '>', '\'', '"']) :
    d ∉ escape s := by
  intro h
  obtain ⟨c, -, hc⟩ := List.mem_flatMap.1 h
  exact not_mem_escapeChar hd hc

section Unescape

variable (total : Nat)

theorem unescapeFrom_escapeChar (c : Char) (pos : Nat) (rest : List Char) :
    ∃ next, unescapeFrom total pos none (escapeChar c ++ rest)
      = (do return c :: (← unescapeFrom total next none rest)) := by
  by_cases hc : c ∈ ['<', '>', '&', '\'', '"']
  · simp only [List.mem_cons, List.not_mem_nil, or_false] at hc
    rcases hc with rfl | rfl | rfl | rfl | rfl <;> exact ⟨_, rfl⟩
  · rw [escapeChar_eq_self hc]
    refine ⟨pos + c.utf8Size, ?_⟩
    have ha : c ≠ '&' := by rintro rfl; simp at hc
    rw [List.singleton_append, unescapeFrom]
    intro h
    exact ha h

theorem unescapeFrom_escape (s : List Char) (pos : Nat) :
    unescapeFrom total pos none (escape s) = .ok s := by
  induction s generalizing pos with
  | nil => rfl
  | cons c s ih =>
    obtain ⟨next, h⟩ := unescapeFrom_escapeChar total c pos (escape s)
    rw [escape_cons, h, ih next]
    rfl

end Unescape

theorem unescape_escape (s : List Char) : unescape (escape s) = .ok (String.ofList s) := by
  rw [unescape, unescapeFrom_escape]
  rfl

section Trim

theorem escapeChar_of_isSpace {c : Char} (h : isSpace c) : escapeChar c = [c] := by
  apply escapeChar_eq_self
  simp only [isSpace, Bool.or_eq_true, decide_eq_true_eq] at h
  rcases h with ((rfl | rfl) | rfl) | rfl <;> decide

theorem escapeChar_ends {c : Char} (h : isSpace c = false) :
    (∃ d ds, escapeChar c = d :: ds ∧ isSpace d = false) ∧ ∃ d ds, (escapeChar c).reverse = d :: ds
      ∧ isSpace d = false := by
  by_cases hc : c ∈ ['<', '>', '&', '\'', '"']
  · simp only [List.mem_cons, List.not_mem_nil, or_false] at hc
    rcases hc with rfl | rfl | rfl | rfl | rfl
      <;> exact ⟨⟨_, _, rfl, by decide⟩, _, _, rfl, by decide⟩
  · rw [escapeChar_eq_self hc]
    exact ⟨⟨c, [], rfl, h⟩, c, [], rfl, h⟩

theorem dropWhile_isSpace_escape (s : List Char) :
    (escape s).dropWhile isSpace = escape (s.dropWhile isSpace) := by
  induction s with
  | nil => rfl
  | cons c s ih =>
    cases h : isSpace c with
    | true => simp [escapeChar_of_isSpace h, h, ih]
    | false =>
      obtain ⟨⟨d, ds, hd, hs⟩, -⟩ := escapeChar_ends h
      simp [hd, h, hs]

theorem dropWhile_isSpace_reverse_escape (s : List Char) :
    (escape s).reverse.dropWhile isSpace
      = (escape (s.reverse.dropWhile isSpace).reverse).reverse := by
  induction s using List.reverseRecOn with
  | nil => rfl
  | append_singleton s c ih =>
    have hs : escape [c] = escapeChar c := List.append_nil _
    rw [escape_append, hs, List.reverse_append, List.reverse_append]
    cases h : isSpace c with
    | true => simp [escapeChar_of_isSpace h, h, ih]
    | false =>
      obtain ⟨-, d, ds, hd, hd'⟩ := escapeChar_ends h
      have he := congrArg List.reverse hd
      simp only [List.reverse_reverse, List.reverse_cons] at he
      simp [h, hd', escape_append, he]

theorem trim_escape (s : List Char) : Reader.trim (escape s) = escape (Reader.trim s) := by
  rw [Reader.trim, Reader.trim, dropWhile_isSpace_escape, dropWhile_isSpace_reverse_escape,
    List.reverse_reverse]

end Trim

theorem escape_eq_nil_iff {s : List Char} : escape s = [] ↔ s = [] := by
  constructor
  · intro h
    have hs : unescapeFrom 0 0 none (escape s) = .ok [] := by rw [h]; rfl
    rw [unescapeFrom_escape] at hs
    exact Except.ok.inj hs
  · rintro rfl
    rfl

end Avionics.Markup
