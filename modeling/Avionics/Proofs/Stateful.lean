namespace Avionics.Stateful

variable {ε σ α β : Type} {x : ExceptT ε (StateM σ) α} {k : α → ExceptT ε (StateM σ) β} {s t : σ}

theorem run_bind : (x >>= k).run.run s = match x.run.run s with
    | (.ok a, u) => (k a).run.run u
    | (.error e, u) => (.error e, u) := by
  rw [ExceptT.run_bind, StateT.run_bind]
  rcases x.run.run s with ⟨_ | a, u⟩
  · rfl
  · rfl

theorem run_bind_of_ok {a : α} (h : x.run.run s = (.ok a, t)) :
    (x >>= k).run.run s = (k a).run.run t := by
  rw [run_bind, h]

theorem run_bind_of_error {e : ε} (h : x.run.run s = (.error e, t)) :
    (x >>= k).run.run s = (.error e, t) := by
  rw [run_bind, h]

theorem bind_eq_ok {b : β} : (x >>= k).run.run s = (.ok b, t)
    ↔ ∃ a u, x.run.run s = (.ok a, u) ∧ (k a).run.run u = (.ok b, t) := by
  rw [run_bind]
  rcases x.run.run s with ⟨_ | a, u⟩
  · exact iff_of_false nofun nofun
  · constructor
    · intro h
      exact ⟨a, u, rfl, h⟩
    · rintro ⟨_, _, ⟨⟩, h⟩
      exact h

theorem bind_eq_error {e : ε} : (x >>= k).run.run s = (.error e, t)
    ↔ x.run.run s = (.error e, t) ∨ ∃ a u, x.run.run s = (.ok a, u)
      ∧ (k a).run.run u = (.error e, t) := by
  rw [run_bind]
  rcases x.run.run s with ⟨_ | a, u⟩
  · constructor
    · rintro ⟨⟩
      exact .inl rfl
    · rintro (⟨⟨⟩⟩ | ⟨_, _, ⟨⟩, _⟩)
      rfl
  · constructor
    · intro h
      exact .inr ⟨a, u, rfl, h⟩
    · rintro (⟨⟨⟩⟩ | ⟨_, _, ⟨⟩, h⟩)
      exact h

theorem run_map (f : α → β) : (f <$> x).run.run s = ((x.run.run s).1.map f, (x.run.run s).2) := by
  rw [map_eq_pure_bind, run_bind]
  rcases x.run.run s with ⟨_ | a, u⟩
  · rfl
  · rfl

theorem liftM_map (f : α → β) (r : Except ε α) :
    (liftM (f <$> r) : ExceptT ε (StateM σ) β) = f <$> (liftM r : ExceptT ε (StateM σ) α) := by
  cases r <;> rfl

theorem liftM_eq {r r' : Except ε α} : (liftM r : ExceptT ε (StateM σ) α).run.run s = (r', t)
    ↔ r = r' ∧ s = t :=
  ⟨fun h => Prod.mk.inj h, fun h => Prod.ext h.1 h.2⟩

end Avionics.Stateful
