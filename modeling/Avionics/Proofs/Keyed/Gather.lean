import Avionics.Proofs.Joining
import Avionics.Proofs.Keyed.Merge

namespace Avionics

namespace Joining

open Noted (joinOption)

section Option

variable {α : Type} {join : α → α → Noted α} (h : Noted.Associative join)

def option : Joining (Option α) where
  join := joinOption join
  unit := none
  associative := h.option
  left_unit a := by simp
  right_unit a := by simp

def present (x : Option (α × Bool)) : Option (Option α × Bool) := x.map fun a => (some a.1, a.2)

@[simp] theorem present_none : present (none : Option (α × Bool)) = none := rfl

@[simp] theorem present_some (a : α) (p : Bool) : present (some (a, p)) = some (some a, p) := rfl

theorem outcome_present (x : Reading α) :
    Reading.outcome (do
      let a ← x
      return some a) = present (Reading.outcome x) := by
  rw [Reading.outcome_bind]
  cases Reading.outcome x with
  | none => rfl
  | some a => simp [present]

theorem present_eq_some {x : Option (α × Bool)} {a : Option α} {p : Bool} :
    present x = some (a, p) ↔ ∃ b, a = some b ∧ x = some (b, p) := by
  cases x with
  | none => simp
  | some b =>
    constructor
    · rintro ⟨⟩
      exact ⟨b.1, rfl, rfl⟩
    · rintro ⟨_, rfl, ⟨⟩⟩
      rfl

theorem combine_present (J : Joining α) (x y : Option (α × Bool)) :
    (option J.associative).combine (present x) (present y) = present (J.combine x y) := by
  match x, y with
  | none, _ => rfl
  | some _, none => rfl
  | some (a, p), some (b, q) => simp [some_combine_some, option]

theorem gather_present (J : Joining α) {γ : Type} (f : γ → Option (α × Bool)) (cs : List γ) :
    (option J.associative).gather (cs.map fun c => present (f c))
      = if cs = [] then some (none, true) else present (J.gather (cs.map f)) := by
  induction cs with
  | nil => rfl
  | cons c cs ih =>
    rw [List.map_cons, gather_cons, ih, if_neg (List.cons_ne_nil c cs), List.map_cons, gather_cons]
    split
    · next hcs =>
      subst hcs
      rw [List.map_nil, gather_nil, combine_unit]
      exact combine_unit (option J.associative) (present (f c))
    · exact combine_present J (f c) (J.gather (cs.map f))

end Option

section Pair

variable {α β : Type}

def pair (J : Joining α) (K : Joining β) : Joining (α × β) where
  join := Noted.joinPair J.join K.join
  unit := (J.unit, K.unit)
  associative := J.associative.pair K.associative
  left_unit p := by simp [Noted.joinPair, J.left_unit, K.left_unit]
  right_unit p := by simp [Noted.joinPair, J.right_unit, K.right_unit]

def both : Option (α × Bool) → Option (β × Bool) → Option ((α × β) × Bool)
  | some (a, p), some (b, q) => some ((a, b), p && q)
  | _, _ => none

theorem outcome_pair (x : Reading α) (y : Reading β) :
    Reading.outcome (do
      let a ← x
      let b ← y
      return (a, b)) = both (Reading.outcome x) (Reading.outcome y) := by
  rw [Reading.outcome_bind]
  cases Reading.outcome x with
  | none => rfl
  | some a =>
    rw [Option.bind_some, Reading.outcome_bind]
    cases Reading.outcome y with
    | none => rfl
    | some b => simp [both]

theorem both_eq_some {x : Option (α × Bool)} {y : Option (β × Bool)} {c : α × β} {r : Bool} :
    both x y = some (c, r) ↔ ∃ p q, x = some (c.1, p) ∧ y = some (c.2, q) ∧ (p && q) = r := by
  constructor
  · intro h
    match x, y, h with
    | some (_, p), some (_, q), rfl => exact ⟨p, q, rfl, rfl, rfl⟩
  · rintro ⟨p, q, rfl, rfl, rfl⟩
    rfl

theorem isSome_both (x : Option (α × Bool)) (y : Option (β × Bool)) :
    (both x y).isSome = (x.isSome && y.isSome) := by
  cases x <;> cases y <;> rfl

theorem combine_both (J : Joining α) (K : Joining β) (x x' : Option (α × Bool))
    (y y' : Option (β × Bool)) :
    (pair J K).combine (both x y) (both x' y') = both (J.combine x x') (K.combine y y') := by
  match x, y, x', y' with
  | none, _, _, _ => rfl
  | some _, none, none, _ => rfl
  | some _, none, some _, _ => rfl
  | some _, some _, none, _ => rfl
  | some _, some _, some _, none => rfl
  | some (a, p), some (b, q), some (a', p'), some (b', q') =>
    simp only [both, combine, pair, Noted.joinPair, Noted.value_bind, Noted.value_pure,
      Noted.clean_bind, Noted.clean_pure, Bool.and_true]
    congr 2
    ac_rfl

theorem gather_both (J : Joining α) (K : Joining β) {γ : Type} (f : γ → Option (α × Bool))
    (g : γ → Option (β × Bool)) (cs : List γ) :
    (pair J K).gather (cs.map fun c => both (f c) (g c)) = both (J.gather (cs.map f))
    (K.gather (cs.map g)) := by
  induction cs with
  | nil => rfl
  | cons c cs ih => simp only [List.map_cons, gather_cons, ih, combine_both]

end Pair

section Keyed

variable {κ α : Type} [DecidableEq κ] {join : α → α → Noted α} (h : Noted.Associative join)

def keyed : Joining (Keyed κ α) where
  join := Keyed.merge join
  unit := .empty
  associative := Keyed.associative_merge h
  left_unit m := by
    constructor
    · apply Keyed.ext_get?
      · simp [Keyed.keys_merge, eraseDups_of_nodup m.keys_nodup]
      · simp [Keyed.get?_merge]
    · simp [Keyed.clean_merge]
  right_unit m := ⟨rfl, rfl⟩

def entry : Option κ → Option (α × Bool) → Option (Keyed κ α × Bool)
  | some k, some (v, p) => some (Keyed.single k v, p)
  | _, _ => none

theorem entry_eq_some {key : Option κ} {x : Option (α × Bool)} {m : Keyed κ α} {p : Bool} :
    entry key x = some (m, p) ↔ ∃ k v, key = some k ∧ x = some (v, p) ∧ m = Keyed.single k v := by
  constructor
  · intro h
    match key, x, h with
    | some k, some (v, _), rfl => exact ⟨k, v, rfl, rfl, rfl⟩
  · rintro ⟨k, v, rfl, rfl, rfl⟩
    rfl

theorem isSome_entry (key : Option κ) (x : Option (α × Bool)) :
    (entry key x).isSome = (key.isSome && x.isSome) := by
  cases key <;> cases x <;> rfl

theorem merge_single (m : Keyed κ α) (k : κ) (v : α) :
    Keyed.merge join m (Keyed.single k v) = m.absorb join k v := bind_pure _

theorem outcome_foldlM_absorb {γ : Type} (read : γ → Reading (Keyed κ α))
    (step : Keyed κ α → γ → Reading (Keyed κ α)) (hstep : ∀ held c, step held c = (do
      let new ← read c
      liftM (Keyed.merge join held new))) (cs : List γ) :
    Reading.outcome (cs.foldlM step .empty) = (keyed h).gather
    (cs.map fun c => Reading.outcome (read c)) :=
  ((keyed h).outcome_foldlM read step hstep cs .empty).trans (unit_combine ..)

variable {E : Type} (key : E → Option κ) (value : E → Option (α × Bool))

def under (k : κ) (cs : List E) : List (Option (Option α × Bool)) :=
  (cs.filter fun c => key c = some k).map fun c => present (value c)

theorem gather_under_cons (k : κ) (c : E) (cs : List E) :
    (option h).gather (under key value k (c :: cs))
      = (option h).combine (if key c = some k then present (value c) else some (none, true))
          ((option h).gather (under key value k cs)) := by
  rw [under, List.filter_cons]
  by_cases hk : key c = some k
  · simp [hk, under]
  · rw [if_neg hk, if_neg (by simpa using hk)]
    exact (unit_combine (option h) _).symm

theorem gather_entry {cs : List E} {m : Keyed κ α} {b : Bool}
    (hm : (keyed h).gather (cs.map fun c => entry (key c) (value c)) = some (m, b)) :
    m.keys = (cs.filterMap key).eraseDups ∧ ∃ clean : κ → Bool,
      (∀ k, (option h).gather (under key value k cs) = some (m.get? k, clean k))
        ∧ (b = true ↔ ∀ k, clean k = true) := by
  induction cs generalizing m b with
  | nil =>
    cases hm
    exact ⟨rfl, fun _ => true, fun _ => rfl, by simp⟩
  | cons c cs ih =>
    rw [List.map_cons, gather_cons, combine_eq_some] at hm
    obtain ⟨m₁, p, m', q, hc, hcs, rfl, rfl⟩ := hm
    obtain ⟨n, v, hn, hv, rfl⟩ := entry_eq_some.1 hc
    obtain ⟨hkeys, clean, hunder, hclean⟩ := ih hcs
    have hfirst : ∀ k, (if key c = some k then present (value c) else some (none, true))
        = some ((Keyed.single n v).get? k, if k = n then p else true) := by
      intro k
      rw [hn, hv, Keyed.get?_single]
      by_cases hk : k = n
      · simp [hk]
      · simp [hk, Ne.symm hk]
    refine ⟨?_, fun k => (if k = n then p else true) && clean k
      && (joinOption join ((Keyed.single n v).get? k) (m'.get? k)).clean, ?_, ?_⟩
    · show (Keyed.merge join _ m').value.keys = _
      rw [Keyed.keys_merge, Keyed.keys_single, hkeys, List.filterMap_cons_some hn]
      exact eraseDups_append_eraseDups [n] (cs.filterMap key)
    · intro k
      rw [gather_under_cons, hfirst, hunder, some_combine_some]
      show _ = some ((Keyed.merge join _ m').value.get? k, _)
      rw [Keyed.get?_merge]
      rfl
    · show (p && q && (Keyed.merge join _ m').clean) = true ↔ _
      simp only [Bool.and_eq_true, hclean, Keyed.clean_merge]
      constructor
      · rintro ⟨⟨hp, hq⟩, hj⟩ k
        exact ⟨⟨by simp [hp], hq k⟩, hj k⟩
      · intro hall
        exact ⟨⟨by simpa using (hall n).1.1, fun k => (hall k).1.2⟩, fun k => (hall k).2⟩

end Keyed

end Joining

end Avionics
