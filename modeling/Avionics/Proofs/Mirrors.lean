import Avionics.Proofs.Fold
import Avionics.Proofs.Noted

/-! Computations that come to the same in two forms: the value of the second is the image
of the first one's, and both note the same findings, if not in the same order. -/

namespace Avionics

variable {α β γ δ : Type}

namespace Noted

structure Mirrors (f : α → β) (x : Noted α) (y : Noted β) : Prop where
  value : y.value = f x.value
  findings : y.findings.Perm x.findings

namespace Mirrors

variable {f : α → β} {g : γ → δ}

protected theorem refl (x : Noted α) : Mirrors id x x := ⟨rfl, .refl _⟩

protected theorem pure (f : α → β) (a : α) : Mirrors f (pure a) (pure (f a)) := ⟨rfl, .refl _⟩

protected theorem bind {x : Noted α} {y : Noted β} {k : α → Noted γ} {l : β → Noted δ}
    (h : Mirrors f x y) (hk : ∀ a, Mirrors g (k a) (l (f a))) : Mirrors g (x >>= k) (y >>= l) where
  value := by rw [value_bind, value_bind, h.value, (hk x.value).value]
  findings := by
    rw [findings_bind, findings_bind, h.value]
    exact h.findings.append (hk x.value).findings

protected theorem foldlM {step : α → γ → Noted α} {step' : β → δ → Noted β} {h : γ → δ}
    {cs : List γ} (hstep : ∀ c ∈ cs, ∀ a, Mirrors f (step a c) (step' (f a) (h c))) (a : α) :
    Mirrors f (cs.foldlM step a) ((cs.map h).foldlM step' (f a)) := by
  refine foldlM_related (S := fun a b => b = f a) ?_ ?_ ?_ rfl
  · rintro a _ rfl
    exact .pure f a
  · intro x y k l hxy hkl
    exact hxy.bind fun a => hkl a (f a) rfl
  · rintro c hc a _ rfl
    exact hstep c hc a

protected theorem swap {x y : Noted α} {x' y' : Noted β} {pair : α → α → γ} {pair' : β → β → δ}
    (hx : Mirrors f x x') (hy : Mirrors f y y') (hpair : ∀ a b, pair' (f b) (f a) = g (pair a b)) :
    Mirrors g (do
      let a ← x
      let b ← y
      return pair a b) (do
      let b ← y'
      let a ← x'
      return pair' b a) where
  value := by
    show pair' y'.value x'.value = g (pair x.value y.value)
    rw [hx.value, hy.value, hpair]
  findings := by
    simp only [findings_bind, findings_pure, List.append_nil]
    exact (hy.findings.append hx.findings).trans List.perm_append_comm

end Mirrors

end Noted

namespace Reading

theorem run_lift (x : Noted α) : (liftM x : Reading α).run = Except.ok <$> x := rfl

theorem run_bind_ok {x : Reading α} {a : α} (h : x.run.value = .ok a) (k : α → Reading γ) :
    (x >>= k).run = ⟨(k a).run.value, x.run.findings ++ (k a).run.findings⟩ := by
  rcases x with ⟨v, r⟩
  cases h
  rfl

theorem value_bind_error {x : Reading α} {e : Failure} (h : x.run.value = .error e)
    (k : α → Reading γ) : (x >>= k).run.value = .error e := by
  rcases x with ⟨v, r⟩
  cases h
  rfl

section Both

variable (x : Reading α) (y : Reading β) (pair : α → β → γ)

variable {x y} in
theorem run_both {a : α} {b : β} (hx : x.run.value = .ok a) (hy : y.run.value = .ok b) :
    (do
      let a ← x
      let b ← y
      return pair a b).run = ⟨.ok (pair a b), x.run.findings ++ y.run.findings⟩ := by
  rw [run_bind_ok hx, run_bind_ok hy]
  simp

theorem exists_error_both (h : (∃ e, x.run.value = .error e) ∨ ∃ e, y.run.value = .error e) :
    ∃ e, (do
      let a ← x
      let b ← y
      return pair a b).run.value = .error e := by
  cases hx : x.run.value with
  | error e => exact ⟨e, value_bind_error hx _⟩
  | ok a =>
    obtain ⟨_, hx'⟩ | ⟨e, hy⟩ := h
    · cases hx.symm.trans hx'
    · exact ⟨e, by rw [run_bind_ok hx, value_bind_error hy]⟩

end Both

/-- Either both readings fail, if not in the same way, or neither does. -/
inductive Mirrors (f : α → β) (x : Reading α) (y : Reading β) : Prop
  | failed {e e' : Failure} : x.run.value = .error e → y.run.value = .error e' → Mirrors f x y
  | done {a : α} : x.run.value = .ok a → y.run.value = .ok (f a) →
      y.run.findings.Perm x.run.findings → Mirrors f x y

namespace Mirrors

variable {f : α → β} {g : γ → δ} {x : Reading α} {y : Reading β}

protected theorem refl (x : Reading α) : Mirrors id x x := by
  cases h : x.run.value with
  | error e => exact .failed h h
  | ok a => exact .done h h (.refl _)

protected theorem pure (f : α → β) (a : α) : Mirrors f (pure a) (pure (f a)) :=
  .done rfl rfl (.refl _)

protected theorem lift {x : Noted α} {y : Noted β} (h : x.Mirrors f y) :
    Mirrors f (liftM x) (liftM y) :=
  .done rfl (congrArg Except.ok h.value)
    (by rw [run_lift, run_lift, Noted.findings_map, Noted.findings_map]; exact h.findings)

protected theorem liftExcept {x y : Except Failure α} (h : x.toOption = y.toOption) :
    Mirrors id (liftM x : Reading α) (liftM y) := by
  cases x <;> cases y <;> cases h
  · exact .failed rfl rfl
  · exact .done rfl rfl (.refl _)

protected theorem bind {k : α → Reading γ} {l : β → Reading δ} (h : Mirrors f x y)
    (hk : ∀ a, Mirrors g (k a) (l (f a))) : Mirrors g (x >>= k) (y >>= l) := by
  cases h with
  | failed hx hy => exact .failed (value_bind_error hx k) (value_bind_error hy l)
  | @done a hx hy hxy =>
    have hkx := run_bind_ok hx k
    have hly := run_bind_ok hy l
    cases hk a with
    | failed hka hla => exact .failed (by rw [hkx, hka]) (by rw [hly, hla])
    | @done c hka hla hkl =>
      refine .done (a := c) (by rw [hkx, hka]) (by rw [hly, hla]) ?_
      rw [hkx, hly]
      exact hxy.append hkl

protected theorem foldlM {step : α → γ → Reading α} {step' : β → δ → Reading β} {h : γ → δ}
    {cs : List γ} (hstep : ∀ c ∈ cs, ∀ a, Mirrors f (step a c) (step' (f a) (h c))) (a : α) :
    Mirrors f (cs.foldlM step a) ((cs.map h).foldlM step' (f a)) := by
  refine foldlM_related (S := fun a b => b = f a) ?_ ?_ ?_ rfl
  · rintro a _ rfl
    exact .pure f a
  · intro x y k l hxy hkl
    exact hxy.bind fun a => hkl a (f a) rfl
  · rintro c hc a _ rfl
    exact hstep c hc a

protected theorem swap {x y : Reading α} {x' y' : Reading β} {pair : α → α → γ} {pair' : β → β → δ}
    (hx : Mirrors f x x') (hy : Mirrors f y y') (hpair : ∀ a b, pair' (f b) (f a) = g (pair a b)) :
    Mirrors g (do
      let a ← x
      let b ← y
      return pair a b) (do
      let b ← y'
      let a ← x'
      return pair' b a) := by
  cases hx with
  | failed hx hx' =>
    obtain ⟨e, h⟩ := exists_error_both x y pair (.inl ⟨_, hx⟩)
    obtain ⟨e', h'⟩ := exists_error_both y' x' pair' (.inr ⟨_, hx'⟩)
    exact .failed h h'
  | @done a hx hx' hxx' =>
    cases hy with
    | failed hy hy' =>
      obtain ⟨e, h⟩ := exists_error_both x y pair (.inr ⟨_, hy⟩)
      obtain ⟨e', h'⟩ := exists_error_both y' x' pair' (.inl ⟨_, hy'⟩)
      exact .failed h h'
    | @done b hy hy' hyy' =>
      have h := run_both pair hx hy
      have h' := run_both pair' hy' hx'
      refine .done (a := pair a b) (by rw [h]) (by rw [h', hpair]) ?_
      rw [h, h']
      exact (hyy'.append hxx').trans List.perm_append_comm

end Mirrors

end Reading

end Avionics
