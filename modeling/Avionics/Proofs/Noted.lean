import Avionics.Noted

/-! What a noting computation leaves behind, up to the warnings: its value and whether
it met no error.  A join may be associative in this sense although the errors
that it notes depend on the grouping. -/

universe u

namespace Avionics

namespace Noted

variable {α β : Type u}

def clean (x : Noted α) : Bool := x.findings.errors == 0

theorem clean_iff {x : Noted α} : x.clean = true ↔ x.findings.errors = 0 := beq_iff_eq

@[simp] theorem clean_pure (a : α) : (pure a : Noted α).clean = true := rfl

@[simp] theorem clean_bind (x : Noted α) (f : α → Noted β) :
    (x >>= f).clean = (x.clean && (f x.value).clean) := by
  rw [Bool.eq_iff_iff]
  simp only [Bool.and_eq_true, clean_iff, findings_bind, Report.errors_append, Nat.add_eq_zero_iff]

@[simp] theorem value_map (f : α → β) (x : Noted α) : (f <$> x).value = f x.value := rfl

@[simp] theorem findings_map (f : α → β) (x : Noted α) : (f <$> x).findings = x.findings :=
  List.append_nil _

@[simp] theorem clean_map (f : α → β) (x : Noted α) : (f <$> x).clean = x.clean := by
  rw [map_eq_pure_bind, clean_bind, clean_pure, Bool.and_true]

def Notes (P : Finding → Prop) (x : Noted α) : Prop := ∀ f ∈ x.findings, P f

section Notes

variable {P : Finding → Prop}

theorem Notes.pure (a : α) : Notes P (pure a) := fun _ hf => nomatch hf

theorem Notes.bind {x : Noted α} {f : α → Noted β} (hx : Notes P x) (hf : ∀ a, Notes P (f a)) :
    Notes P (x >>= f) :=
  List.forall_mem_append.2 ⟨hx, hf x.value⟩

theorem Notes.map (f : α → β) {x : Noted α} (hx : Notes P x) : Notes P (f <$> x) := by
  rw [Notes, findings_map]
  exact hx

theorem Notes.foldlM {γ : Type} {step : α → γ → Noted α} (hstep : ∀ a c, Notes P (step a c))
    (cs : List γ) (a : α) : Notes P (cs.foldlM step a) := by
  induction cs generalizing a with
  | nil => exact .pure a
  | cons c cs ih =>
    rw [List.foldlM_cons]
    exact (hstep a c).bind ih

end Notes

/-- Regrouping changes neither the value nor whether there was an error. -/
structure Associative (join : α → α → Noted α) : Prop where
  value : ∀ a b c, (join (join a b).value c).value = (join a (join b c).value).value
  clean : ∀ a b c, ((join a b).clean && (join (join a b).value c).clean)
    = ((join b c).clean && (join a (join b c).value).clean)

/-- Joining again what was joined before changes nothing, and notes what it noted then. -/
structure Idempotent (join : α → α → Noted α) : Prop where
  self : ∀ a, join a a = pure a
  again : ∀ a b, join (join a b).value b = join a b

def joinOption (join : α → α → Noted α) : Option α → Option α → Noted (Option α)
  | held, none => pure held
  | none, some new => pure (some new)
  | some held, some new => some <$> join held new

section JoinOption

variable {join : α → α → Noted α}

@[simp] theorem joinOption_none_right (a : Option α) : joinOption join a none = pure a := by
  cases a <;> rfl

@[simp] theorem joinOption_none_left (a : Option α) : joinOption join none a = pure a := by
  cases a <;> rfl

@[simp] theorem joinOption_some (a b : α) :
    joinOption join (some a) (some b) = some <$> join a b := rfl

theorem Notes.joinOption {P : Finding → Prop} (h : ∀ a b, Notes P (join a b)) (a b : Option α) :
    Notes P (joinOption join a b) := by
  cases a with
  | none =>
    rw [joinOption_none_left]
    exact .pure b
  | some a =>
    cases b with
    | none => exact .pure (some a)
    | some b => exact (h a b).map some

theorem Associative.option (h : Associative join) : Associative (joinOption join) where
  value a b c := by
    cases a <;> cases b <;> cases c <;> simp [h.value]
  clean a b c := by
    cases a <;> cases b <;> cases c <;> simp [h.clean]

theorem Idempotent.option (h : Idempotent join) : Idempotent (joinOption join) where
  self a := by
    cases a with
    | none => rfl
    | some a => rw [joinOption_some, h.self, map_pure]
  again a b := by
    cases b with
    | none => simp only [joinOption_none_right, value_pure]
    | some b =>
      cases a with
      | none => rw [joinOption_none_left, value_pure, joinOption_some, h.self, map_pure]
      | some a => rw [joinOption_some, value_map, joinOption_some, h.again]

end JoinOption

def joinPair {γ : Type u} (join : α → α → Noted α) (join' : γ → γ → Noted γ) (p q : α × γ) :
    Noted (α × γ) := do
  let a ← join p.1 q.1
  let c ← join' p.2 q.2
  return (a, c)

theorem Associative.pair {γ : Type u} {join : α → α → Noted α} {join' : γ → γ → Noted γ}
    (h : Associative join) (h' : Associative join') : Associative (joinPair join join') where
  value p q r := by simp [joinPair, h.value, h'.value]
  clean p q r := by
    have hc := h.clean p.1 q.1 r.1
    have hc' := h'.clean p.2 q.2 r.2
    have swap : ∀ a b c d : Bool, (a && b && (c && d)) = (a && c && (b && d)) := by decide
    simp only [joinPair, clean_bind, value_bind, value_pure, clean_pure, Bool.and_true]
    rw [swap, hc, hc', swap]

theorem Idempotent.pair {γ : Type u} {join : α → α → Noted α} {join' : γ → γ → Noted γ}
    (h : Idempotent join) (h' : Idempotent join') : Idempotent (joinPair join join') where
  self p := by simp only [joinPair, h.self, h'.self, pure_bind]
  again p q := by simp only [joinPair, value_bind, value_pure, h.again, h'.again]

end Noted

end Avionics
