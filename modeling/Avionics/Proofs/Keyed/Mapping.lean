import Avionics.Proofs.Keyed.Merge
import Avionics.Proofs.Mirrors

namespace Avionics

namespace Noted.Mirrors

variable {α β : Type} {f : α → β}

protected theorem joinOption {join : α → α → Noted α} {join' : β → β → Noted β}
    (h : ∀ a b, Mirrors f (join a b) (join' (f a) (f b))) (a b : Option α) :
    Mirrors (Option.map f) (joinOption join a b) (joinOption join' (a.map f) (b.map f)) := by
  cases b with
  | none => simpa using Mirrors.pure (Option.map f) a
  | some b =>
    cases a with
    | none => simpa using Mirrors.pure (Option.map f) (some b)
    | some a =>
      exact ⟨congrArg some (h a b).value, by simpa using (h a b).findings⟩

end Noted.Mirrors

namespace Keyed

open Noted (Mirrors)

universe u v w

section MapValues

variable {κ : Type u} {α : Type v} {β : Type w} (f : α → β) (m : Keyed κ α)

def mapValues : Keyed κ β where
  entries := m.entries.map fun e => (e.1, f e.2)
  nodup := by
    rw [List.map_map]
    exact m.nodup

@[simp] theorem keys_mapValues : (m.mapValues f).keys = m.keys := List.map_map

theorem get?_mapValues [DecidableEq κ] (k : κ) : (m.mapValues f).get? k = (m.get? k).map f := by
  show (m.entries.map fun e => (e.1, f e.2)).lookup k = (m.entries.lookup k).map f
  induction m.entries with
  | nil => rfl
  | cons e es ih =>
    rw [List.map_cons, List.lookup_cons, List.lookup_cons, ih]
    split <;> rfl

theorem mapValues_id : m.mapValues id = m := ext (List.map_id m.entries)

end MapValues

section Modify

variable {κ : Type u} {α : Type v} [DecidableEq κ] (m : Keyed κ α) (k : κ)

theorem modify_modify (f g : α → α) : (m.modify k f).modify k g = m.modify k (g ∘ f) := by
  apply ext
  simp only [modify, List.map_map]
  refine List.map_congr_left fun e _ => ?_
  by_cases he : e.1 = k <;> simp [he]

theorem modify_id : m.modify k id = m := by
  apply ext
  simp [modify]

end Modify

variable {κ α β : Type} [DecidableEq κ] {join : α → α → Noted α}
    {join' : β → β → Noted β} {f : α → β}

theorem mirrors_absorb (h : ∀ a b, Mirrors f (join a b) (join' (f a) (f b))) (m : Keyed κ α)
    (k : κ) (v : α) :
    Mirrors (mapValues f) (m.absorb join k v) ((m.mapValues f).absorb join' k (f v)) := by
  have hjoin := Noted.Mirrors.joinOption h (m.get? k) (some v)
  rw [← get?_mapValues, Option.map_some] at hjoin
  refine ⟨ext_get? ?_ fun j => ?_, ?_⟩
  · rw [keys_absorb, keys_mapValues, keys_mapValues, keys_absorb]
  · rw [get?_absorb, hjoin.value, get?_mapValues, get?_mapValues, get?_absorb]
    exact (apply_ite (Option.map f) ..).symm
  · rw [findings_absorb, findings_absorb]
    exact hjoin.findings

theorem mirrors_merge (h : ∀ a b, Mirrors f (join a b) (join' (f a) (f b))) (m n : Keyed κ α) :
    Mirrors (mapValues f) (merge join m n) (merge join' (m.mapValues f) (n.mapValues f)) :=
  Noted.Mirrors.foldlM (fun e _ held => mirrors_absorb h held e.1 e.2) m

end Keyed

end Avionics
