import Avionics.Proofs.Noted
import Mathlib.Logic.Equiv.Defs

/-! Joins with a unit, and the outcomes of readings whose values they join.  The outcome
of many readings does not depend on their grouping. -/

namespace Avionics

namespace Reading

variable {α β : Type}

/-- The value and whether no error was noted, unless the reading failed. -/
def outcome (x : Reading α) : Option (α × Bool) :=
  x.run.value.toOption.map fun a => (a, x.run.clean)

theorem isSome_outcome_iff {x : Reading α} :
    (outcome x).isSome = true ↔ ∃ a, x.run.value = .ok a := by
  rw [outcome, Option.isSome_map]
  cases x.run.value with
  | error f =>
    refine iff_of_false Bool.false_ne_true ?_
    rintro ⟨a, ⟨⟩⟩
  | ok a => exact iff_of_true rfl ⟨a, rfl⟩

@[simp] theorem outcome_pure (a : α) : outcome (pure a) = some (a, true) := rfl

@[simp] theorem outcome_throw (e : Failure) : outcome (throw e : Reading α) = none := rfl

@[simp] theorem outcome_lift (x : Noted α) : outcome (liftM x) = some (x.value, x.clean) := by
  show some (x.value, (Except.ok <$> x : Noted (Except Failure α)).clean) = _
  rw [Noted.clean_map]

@[simp] theorem outcome_liftExcept (x : Except Failure α) :
    outcome (liftM x) = x.toOption.map fun a => (a, true) := rfl

theorem outcome_bind (x : Reading α) (f : α → Reading β) :
    outcome (x >>= f) = (outcome x).bind fun a => (outcome (f a.1)).map fun b =>
    (b.1, a.2 && b.2) := by
  rcases x with ⟨v, r⟩
  cases v with
  | error e => rfl
  | ok a =>
    have hclean : Noted.clean ⟨(f a).run.value, r ++ (f a).run.findings⟩
        = (Noted.clean ⟨a, r⟩ && (f a).run.clean) :=
      Noted.clean_bind ⟨a, r⟩ fun _ => (f a).run
    show (f a).run.value.toOption.map
        (fun b => (b, Noted.clean ⟨(f a).run.value, r ++ (f a).run.findings⟩))
      = ((f a).run.value.toOption.map fun b => (b, (f a).run.clean)).map fun b =>
        (b.1, Noted.clean ⟨a, r⟩ && b.2)
    rw [hclean, Option.map_map]
    rfl

end Reading

/-- A join that is associative up to the warnings, with a value that changes nothing. -/
structure Joining (α : Type) where
  join : α → α → Noted α
  unit : α
  associative : Noted.Associative join
  left_unit : ∀ a, (join unit a).value = a ∧ (join unit a).clean = true
  right_unit : ∀ a, (join a unit).value = a ∧ (join a unit).clean = true

namespace Joining

variable {α : Type} (J : Joining α)

def combine : Option (α × Bool) → Option (α × Bool) → Option (α × Bool)
  | some (a, p), some (b, q) => some ((J.join a b).value, p && q && (J.join a b).clean)
  | _, _ => none

def gather (xs : List (Option (α × Bool))) : Option (α × Bool) :=
  xs.foldr J.combine (some (J.unit, true))

theorem some_combine_some (a b : α) (p q : Bool) :
    J.combine (some (a, p)) (some (b, q))
      = some ((J.join a b).value, p && q && (J.join a b).clean) := rfl

@[simp] theorem unit_combine (x : Option (α × Bool)) : J.combine (some (J.unit, true)) x = x := by
  cases x with
  | none => rfl
  | some a => simp [combine, J.left_unit]

@[simp] theorem combine_unit (x : Option (α × Bool)) : J.combine x (some (J.unit, true)) = x := by
  cases x with
  | none => rfl
  | some a => simp [combine, J.right_unit]

theorem combine_assoc (x y z : Option (α × Bool)) :
    J.combine (J.combine x y) z = J.combine x (J.combine y z) := by
  match x, y, z with
  | none, _, _ => rfl
  | some _, none, _ => rfl
  | some _, some _, none => rfl
  | some (a, p), some (b, q), some (c, r) =>
    have hclean := J.associative.clean a b c
    simp only [combine, J.associative.value, Option.some.injEq, Prod.mk.injEq, true_and]
    calc (p && q && (J.join a b).clean && r && (J.join (J.join a b).value c).clean)
      _ = (p && q && r && ((J.join a b).clean && (J.join (J.join a b).value c).clean)) := by ac_rfl
      _ = (p && q && r && ((J.join b c).clean && (J.join a (J.join b c).value).clean)) := by
        rw [hclean]
      _ = (p && (q && r && (J.join b c).clean) && (J.join a (J.join b c).value).clean) := by ac_rfl

theorem combine_eq_some {x y : Option (α × Bool)} {c : α} {r : Bool} :
    J.combine x y = some (c, r) ↔ ∃ a p b q, x = some (a, p) ∧ y = some (b, q)
      ∧ (J.join a b).value = c
      ∧ (p && q && (J.join a b).clean) = r := by
  constructor
  · intro h
    match x, y, h with
    | some (a, p), some (b, q), rfl => exact ⟨a, p, b, q, rfl, rfl, rfl, rfl⟩
  · rintro ⟨a, p, b, q, rfl, rfl, rfl, rfl⟩
    rfl

section Gather

variable (xs ys : List (Option (α × Bool)))

@[simp] theorem gather_nil : J.gather [] = some (J.unit, true) := rfl

@[simp] theorem gather_cons (x : Option (α × Bool)) :
    J.gather (x :: xs) = J.combine x (J.gather xs) := rfl

theorem gather_append : J.gather (xs ++ ys) = J.combine (J.gather xs) (J.gather ys) := by
  induction xs with
  | nil => simp
  | cons x xs ih => rw [List.cons_append, gather_cons, gather_cons, ih, combine_assoc]

theorem gather_flatMap {γ : Type} (f : γ → List (Option (α × Bool))) (cs : List γ) :
    J.gather (cs.flatMap f) = J.gather (cs.map fun c => J.gather (f c)) := by
  induction cs with
  | nil => rfl
  | cons c cs ih => rw [List.flatMap_cons, gather_append, ih, List.map_cons, gather_cons]

theorem isSome_combine (x y : Option (α × Bool)) :
    (J.combine x y).isSome = (x.isSome && y.isSome) := by
  cases x <;> cases y <;> rfl

theorem isSome_gather {xs : List (Option (α × Bool))} :
    (J.gather xs).isSome = true ↔ ∀ x ∈ xs, x.isSome = true := by
  induction xs with
  | nil => simp
  | cons x xs ih => rw [gather_cons, isSome_combine, Bool.and_eq_true, ih, List.forall_mem_cons]

theorem gather_clean {γ : Type} (value : γ → α) (clean : γ → Bool) (cs : List γ) :
    J.gather (cs.map fun c => some (value c, clean c))
      = (J.gather (cs.map fun c => some (value c, true))).map fun r =>
      (r.1, cs.all clean && r.2) := by
  induction cs with
  | nil => rfl
  | cons c cs ih =>
    rw [List.map_cons, gather_cons, ih, List.map_cons, gather_cons]
    cases J.gather (cs.map fun c => some (value c, true)) with
    | none => rfl
    | some a => simp [combine, Bool.and_assoc]

end Gather

theorem outcome_foldlM {γ : Type} (read : γ → Reading α) (step : α → γ → Reading α)
    (hstep : ∀ held c, step held c = (do
      let new ← read c
      liftM (J.join held new))) (cs : List γ) (held : α) :
    Reading.outcome (cs.foldlM step held)
      = J.combine (some (held, true)) (J.gather (cs.map fun c => Reading.outcome (read c))) := by
  induction cs generalizing held with
  | nil => simp
  | cons c cs ih =>
    have hhead : Reading.outcome (step held c) = J.combine (some (held, true))
        (Reading.outcome (read c)) := by
      rw [hstep, Reading.outcome_bind]
      cases Reading.outcome (read c) with
      | none => rfl
      | some a => simp [combine]
    rw [List.foldlM_cons, Reading.outcome_bind, List.map_cons, gather_cons, ← combine_assoc,
      ← hhead]
    cases Reading.outcome (step held c) with
    | none => rfl
    | some a =>
      rw [Option.bind_some, ih]
      cases J.gather (cs.map fun c => Reading.outcome (read c)) with
      | none => rfl
      | some b => simp [combine, Bool.and_assoc]

section Transport

variable {β : Type}

def transport (e : α ≃ β) : Joining β where
  join a b := e <$> J.join (e.symm a) (e.symm b)
  unit := e J.unit
  associative := {
    value := fun a b c => by simp [J.associative.value]
    clean := fun a b c => by simp [J.associative.clean] }
  left_unit b := by simp [J.left_unit]
  right_unit b := by simp [J.right_unit]

variable {J} in
theorem idempotent_transport (e : α ≃ β) (h : Noted.Idempotent J.join) :
    Noted.Idempotent (J.transport e).join where
  self b := by
    show e <$> J.join (e.symm b) (e.symm b) = _
    rw [h.self, map_pure, e.apply_symm_apply]
  again a b := by
    show e <$> J.join (e.symm (e <$> J.join (e.symm a) (e.symm b)).value) (e.symm b) = _
    rw [Noted.value_map, e.symm_apply_apply, h.again]
    rfl

theorem gather_transport (e : α ≃ β) (xs : List (Option (α × Bool))) :
    (J.transport e).gather (xs.map fun x => x.map fun a => (e a.1, a.2))
      = (J.gather xs).map fun a => (e a.1, a.2) := by
  induction xs with
  | nil => rfl
  | cons x xs ih =>
    rw [List.map_cons, gather_cons, ih, gather_cons]
    match x, J.gather xs with
    | none, _ => rfl
    | some _, none => rfl
    | some a, some b => simp [combine, transport]

end Transport

end Joining

end Avionics
