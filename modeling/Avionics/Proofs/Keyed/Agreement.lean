import Avionics.Proofs.Keyed.Lookup
import Mathlib.Data.List.Perm.Subperm

universe u v

namespace Avionics.Keyed

variable {κ : Type u} {α : Type v} [DecidableEq κ] {m n : Keyed κ α}

theorem keys_perm_of_isSome (h : ∀ k, (m.get? k).isSome = (n.get? k).isSome) :
    m.keys.Perm n.keys := by
  rw [List.perm_ext_iff_of_nodup m.keys_nodup n.keys_nodup]
  intro k
  rw [← contains_iff, ← contains_iff, contains, contains, h]

theorem keys_perm_of_get? (h : ∀ k, m.get? k = n.get? k) : m.keys.Perm n.keys :=
  keys_perm_of_isSome fun k => congrArg Option.isSome (h k)

theorem get?_eq_of_perm (h : m.entries.Perm n.entries) (k : κ) : m.get? k = n.get? k := by
  refine Option.ext fun v => ?_
  rw [get?_eq_some_iff, get?_eq_some_iff, h.mem_iff]

omit [DecidableEq κ] in
theorem size_eq_length_keys (m : Keyed κ α) : m.size = m.keys.length := by simp [size, keys]

theorem agrees_iff_rel {same : α → α → Bool} :
    agrees same m n = true ↔ ∀ k, Option.Rel (fun a b => same a b = true) (m.get? k)
    (n.get? k) := by
  have hall : (m.entries.all fun e => (n.get? e.1).any (same e.2)) = true
      ↔ ∀ k v, m.get? k = some v → ∃ w, n.get? k = some w ∧ same v w = true := by
    simp [List.all_eq_true, get?_eq_some_iff, Option.any_eq_true]
  rw [agrees, Bool.and_eq_true, beq_iff_eq, hall, size_eq_length_keys, size_eq_length_keys]
  constructor
  · rintro ⟨hsize, hsub⟩ k
    have hkeys : m.keys ⊆ n.keys := by
      intro j hj
      obtain ⟨v, hv⟩ := mem_keys_iff.1 hj
      obtain ⟨w, hw, -⟩ := hsub j v hv
      exact mem_keys_iff.2 ⟨w, hw⟩
    have hperm := (m.keys_nodup.subperm hkeys).perm_of_length_le (Nat.le_of_eq hsize.symm)
    cases hk : m.get? k with
    | none =>
      rw [get?_eq_none_iff, hperm.mem_iff] at hk
      rw [get?_eq_none_iff.2 hk]
      exact .none
    | some v =>
      obtain ⟨w, hw, hsame⟩ := hsub k v hk
      rw [hw]
      exact .some hsame
  · intro h
    refine ⟨(keys_perm_of_isSome fun k => ?_).length_eq, fun k v hk => ?_⟩
    · have hrel := h k
      generalize m.get? k = a, n.get? k = b at hrel ⊢
      cases hrel <;> rfl
    · have hrel := h k
      rw [hk] at hrel
      generalize n.get? k = b at hrel
      cases hrel with
      | some hsame => exact ⟨_, rfl, hsame⟩

theorem agrees_iff [DecidableEq α] :
    agrees (fun a b => a = b) m n = true ↔ ∀ k, m.get? k = n.get? k := by
  rw [agrees_iff_rel]
  refine forall_congr' fun k => ?_
  cases m.get? k <;> cases n.get? k <;> simp

end Avionics.Keyed
