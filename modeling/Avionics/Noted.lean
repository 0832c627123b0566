import Avionics.Failure
import Avionics.Report

/-! Computations that note findings on their way, and those that can fail as well:
what was noted before a failure stays noted. -/

universe u

namespace Avionics

structure Noted (α : Type u) where
  value : α
  findings : Report

namespace Noted

protected def pure {α : Type u} (a : α) : Noted α := ⟨a, []⟩

protected def bind {α β : Type u} (x : Noted α) (f : α → Noted β) : Noted β :=
  ⟨(f x.value).value, x.findings ++ (f x.value).findings⟩

instance : Monad Noted where
  pure := Noted.pure
  bind := Noted.bind

def note (f : Finding) : Noted PUnit.{u + 1} := ⟨⟨⟩, [f]⟩

variable {α β : Type u}

@[ext] theorem ext {x y : Noted α} (hv : x.value = y.value) (hf : x.findings = y.findings) :
    x = y := by
  cases x; cases y; cases hv; cases hf; rfl

@[simp] theorem value_pure (a : α) : (pure a : Noted α).value = a := rfl

@[simp] theorem findings_pure (a : α) : (pure a : Noted α).findings = [] := rfl

@[simp] theorem value_bind (x : Noted α) (f : α → Noted β) :
    (x >>= f).value = (f x.value).value := rfl

@[simp] theorem findings_bind (x : Noted α) (f : α → Noted β) :
    (x >>= f).findings = x.findings ++ (f x.value).findings := rfl

@[simp] theorem findings_note (f : Finding) : (note f).findings = [f] := rfl

instance : LawfulMonad Noted := LawfulMonad.mk' Noted
  (fun x => by ext1 <;> simp [Functor.map, Noted.bind, Noted.pure])
  (fun _ _ => by ext1 <;> simp)
  (fun _ _ _ => by ext1 <;> simp)

end Noted

abbrev Reading := ExceptT Failure Noted

end Avionics
