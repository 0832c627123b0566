import Avionics.Proofs.Mirrors

namespace Avionics

variable {α β γ : Type}

namespace Noted

structure Muted (x y : Noted α) : Prop where
  value : y.value = x.value
  findings : y.findings = x.findings.filter Finding.isError

end Noted

namespace Report

def warned (r : Report) : Report := r.filter fun f => !f.isError

@[simp] theorem warned_append (r s : Report) : warned (r ++ s) = warned r ++ warned s :=
  List.filter_append ..

theorem warned_of_errors {r : Report} (h : ∀ f ∈ r, f.isError = true) : r.warned = [] :=
  List.filter_eq_nil_iff.2 fun f hf => by simp [h f hf]

theorem filter_of_errors {r : Report} (h : ∀ f ∈ r, f.isError = true) :
    r.filter Finding.isError = r :=
  List.filter_eq_self.2 h

end Report

namespace Reading

/-- Either both readings fail for one reason, or both come to one value and the first one
warns of what is given. -/
inductive Muted (warnings : Report) (x y : Reading α) : Prop
  | failed {e : Failure} : x.run.value = .error e → y.run.value = .error e → Muted warnings x y
  | done {a : α} : x.run.value = .ok a → y.run.value = .ok a → x.run.findings.warned = warnings →
    y.run.findings = x.run.findings.filter Finding.isError → Muted warnings x y

namespace Muted

variable {x y : Reading α} {k l : α → Reading β} {warnings more : Report}

protected theorem pure (a : α) : Muted [] (pure a) (pure a) := .done rfl rfl rfl rfl

protected theorem liftExcept (x : Except Failure α) : Muted [] (liftM x : Reading α) (liftM x) := by
  cases x with
  | error e => exact .failed rfl rfl
  | ok a => exact .pure a

protected theorem lift {x : Noted α} (h : x.Notes (·.isError = true)) :
    Muted [] (liftM x : Reading α) (liftM x) := by
  refine .done (a := x.value) rfl rfl ?_ ?_
  · rw [run_lift, Noted.findings_map]
    exact Report.warned_of_errors h
  · rw [run_lift, Noted.findings_map]
    exact (Report.filter_of_errors h).symm

protected theorem note {f : Finding} (h : f.isError = false) :
    Muted [f] (liftM (Noted.note f) : Reading PUnit) (pure ⟨⟩) := by
  refine .done rfl rfl ?_ ?_
  · show List.filter _ [f] = [f]
    simp [h]
  · show [] = List.filter _ [f]
    simp [h]

protected theorem bind (h : Muted warnings x y) (hk : ∀ a, Muted more (k a) (l a)) :
    Muted (warnings ++ more) (x >>= k) (y >>= l) := by
  cases h with
  | failed hx hy => exact .failed (value_bind_error hx k) (value_bind_error hy l)
  | @done a hx hy hwarned herrors =>
    have hkx := run_bind_ok hx k
    have hly := run_bind_ok hy l
    cases hk a with
    | failed hka hla => exact .failed (by rw [hkx, hka]) (by rw [hly, hla])
    | @done b hka hla hwarned' herrors' =>
      refine .done (a := b) (by rw [hkx, hka]) (by rw [hly, hla]) ?_ ?_
      · rw [hkx, Report.warned_append, hwarned, hwarned']
      · rw [hkx, hly, List.filter_append, herrors, herrors']

protected theorem andThen (h : Muted warnings x y) (hk : ∀ a, Muted [] (k a) (l a)) :
    Muted warnings (x >>= k) (y >>= l) := by
  have hbind := h.bind hk
  rwa [List.append_nil] at hbind

protected theorem foldlM {step step' : α → γ → Reading α} {h : γ → γ} {warns : γ → Report}
    {cs : List γ} (hstep : ∀ c ∈ cs, ∀ a, Muted (warns c) (step a c) (step' a (h c))) (a : α) :
    Muted (cs.flatMap warns) (cs.foldlM step a) ((cs.map h).foldlM step' a) := by
  induction cs generalizing a with
  | nil => exact .pure a
  | cons c cs ih =>
    obtain ⟨hc, hcs⟩ := List.forall_mem_cons.1 hstep
    rw [List.map_cons, List.foldlM_cons, List.foldlM_cons]
    exact (hc a).bind fun a => ih hcs a

protected theorem forM {f : γ → Finding} {cs : List γ} (h : ∀ c ∈ cs, (f c).isError = false) :
    Muted (cs.map f) (forM (m := Reading) cs fun c => liftM (Noted.note (f c)))
    (pure ⟨⟩ : Reading PUnit) := by
  induction cs with
  | nil => exact .pure PUnit.unit
  | cons c cs ih =>
    obtain ⟨hc, hcs⟩ := List.forall_mem_cons.1 h
    rw [List.map_cons, List.forM_cons]
    exact (Muted.note hc).bind fun _ => ih hcs

end Muted

end Reading

end Avionics
