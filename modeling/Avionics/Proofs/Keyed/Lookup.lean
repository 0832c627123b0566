import Avionics.Keyed
import Mathlib.Data.List.Nodup

universe u v w

namespace Avionics.Keyed

variable {κ : Type u} {α : Type v}

theorem keys_nodup (m : Keyed κ α) : m.keys.Nodup := m.nodup

@[simp] theorem keys_empty : (empty : Keyed κ α).keys = [] := rfl

@[simp] theorem isEmpty_iff {m : Keyed κ α} : m.isEmpty = true ↔ m = empty := by
  constructor
  · intro h
    apply ext
    exact List.isEmpty_iff.1 h
  · rintro rfl
    rfl

theorem nodup_flatMap {β : Type w} {es : List (κ × α)} (hn : (es.map Prod.fst).Nodup)
    {f : κ × α → List β}
    (hf : ∀ e ∈ es, (f e).Nodup) : (es.flatMap fun e => (f e).map (e.1, ·)).Nodup := by
  induction es with
  | nil => exact List.nodup_nil
  | cons e es ih =>
    obtain ⟨he, hes⟩ := List.forall_mem_cons.1 hf
    obtain ⟨hnew, hn⟩ := List.nodup_cons.1 hn
    rw [List.flatMap_cons, List.nodup_append]
    refine ⟨he.map fun _ _ h => (Prod.mk.inj h).2, ih hn hes, ?_⟩
    rintro _ hleft _ hright rfl
    obtain ⟨b, -, rfl⟩ := List.mem_map.1 hleft
    obtain ⟨e', he', hmem⟩ := List.mem_flatMap.1 hright
    obtain ⟨_, -, heq⟩ := List.mem_map.1 hmem
    exact hnew (List.mem_map.2 ⟨e', he', (Prod.mk.inj heq).1⟩)

variable [DecidableEq κ]

theorem get?_eq_some_iff {m : Keyed κ α} {k : κ} {v : α} :
    m.get? k = some v ↔ (k, v) ∈ m.entries := by
  obtain ⟨es, hn⟩ := m
  simp only [get?]
  induction es with
  | nil => simp
  | cons e es ih =>
    obtain ⟨a, b⟩ := e
    obtain ⟨ha, hn⟩ := List.nodup_cons.1 hn
    rw [List.lookup_cons, List.mem_cons]
    by_cases hk : k = a
    · subst hk
      have hes : (k, v) ∉ es := fun h => ha (List.mem_map.2 ⟨_, h, rfl⟩)
      simp [hes, eq_comm]
    · simp [hk, beq_false_of_ne hk, ih hn]

theorem mem_keys_iff {m : Keyed κ α} {k : κ} : k ∈ m.keys ↔ ∃ v, m.get? k = some v := by
  simp [keys, get?_eq_some_iff]

theorem contains_iff {m : Keyed κ α} {k : κ} : m.contains k = true ↔ k ∈ m.keys := by
  rw [contains, Option.isSome_iff_exists, mem_keys_iff]

theorem entries_eq (m : Keyed κ α) :
    m.entries = m.keys.filterMap fun k => (m.get? k).map (k, ·) := by
  have h : ∀ e ∈ m.entries, (m.get? e.1).map (e.1, ·) = some e := fun e he => by
    rw [get?_eq_some_iff.2 he]
    rfl
  calc
    m.entries = m.entries.filterMap some := List.filterMap_some.symm
    _ = m.entries.filterMap fun e => (m.get? e.1).map (e.1, ·) :=
      List.filterMap_congr fun e he => (h e he).symm
    _ = m.keys.filterMap fun k => (m.get? k).map (k, ·) := by rw [keys, List.filterMap_map]; rfl

theorem ext_get? {m n : Keyed κ α} (hk : m.keys = n.keys) (hg : ∀ k, m.get? k = n.get? k) :
    m = n := by
  apply ext
  rw [entries_eq m, entries_eq n, hk]
  exact List.filterMap_congr fun k _ => by rw [hg]

theorem eq_of_keys {m n : Keyed κ Unit} (h : m.keys = n.keys) : m = n := by
  refine ext_get? h fun k => ?_
  cases hk : n.get? k with
  | none => rwa [get?_eq_none_iff, h, ← get?_eq_none_iff]
  | some u =>
    have hmem := mem_keys_iff.2 ⟨u, hk⟩
    rw [← h, mem_keys_iff] at hmem
    obtain ⟨u', hu'⟩ := hmem
    exact hu'

theorem keys_insert (m : Keyed κ α) (k : κ) (v : α) :
    (m.insert k v).keys = if k ∈ m.keys then m.keys else m.keys ++ [k] := by
  rw [insert]
  split
  · next h =>
    rw [keys_push, if_neg (get?_eq_none_iff.1 h)]
  · next h =>
    rw [keys_modify, if_pos]
    exact Classical.not_not.1 fun hk => h (get?_eq_none_iff.2 hk)

theorem insert_of_get? {m : Keyed κ α} {k : κ} {v : α} (h : m.get? k = some v) :
    m.insert k v = m := by
  refine ext_get? ?_ fun j => ?_
  · rw [keys_insert, if_pos (mem_keys_iff.2 ⟨v, h⟩)]
  · rw [get?_insert]
    split
    · next hj => rw [hj, h]
    · rfl

theorem entries_insert_of_not_mem {m : Keyed κ α} {k : κ} (h : k ∉ m.keys) (v : α) :
    (m.insert k v).entries = m.entries ++ [(k, v)] := by
  rw [insert, dif_pos (get?_eq_none_iff.2 h)]
  rfl

theorem entries_foldl_insert (es : List (κ × α)) (m : Keyed κ α)
    (hn : (m.keys ++ es.map Prod.fst).Nodup) :
    (es.foldl (fun m e => m.insert e.1 e.2) m).entries = m.entries ++ es := by
  induction es generalizing m with
  | nil => simp
  | cons e es ih =>
    have he : e.1 ∉ m.keys := fun h => (List.disjoint_of_nodup_append hn) h (by simp)
    have hk : (m.insert e.1 e.2).keys = m.keys ++ [e.1] := by rw [keys_insert, if_neg he]
    rw [List.foldl_cons, ih _ (by simpa [hk] using hn), entries_insert_of_not_mem he]
    simp

theorem entries_ofList {es : List (κ × α)} (h : (es.map Prod.fst).Nodup) :
    (ofList es).entries = es :=
  entries_foldl_insert es empty (by simpa using h)

theorem get?_ofList_eq_some {es : List (κ × α)} (h : (es.map Prod.fst).Nodup) {k : κ} {v : α} :
    (ofList es).get? k = some v ↔ (k, v) ∈ es := by
  rw [get?_eq_some_iff, entries_ofList h]

@[simp] theorem ofList_entries (m : Keyed κ α) : ofList m.entries = m :=
  ext (entries_ofList m.nodup)

section Fold

variable {E : Type w} {M : Type (max u v) → Type (max u v)} [Monad M] [LawfulMonad M]
  {step : Keyed κ α → E → M (Keyed κ α)} {f : κ × α → E}

theorem foldlM_insert {es : List (κ × α)} (held : Keyed κ α)
    (hstep : ∀ e ∈ es, ∀ held : Keyed κ α, e.1 ∉ held.keys →
      step held (f e) = pure (held.insert e.1 e.2))
    (hn : (held.keys ++ es.map Prod.fst).Nodup) :
    (es.map f).foldlM step held = pure (es.foldl (fun m e => m.insert e.1 e.2) held) := by
  induction es generalizing held with
  | nil => rfl
  | cons e es ih =>
    obtain ⟨he, hes⟩ := List.forall_mem_cons.1 hstep
    have hnew : e.1 ∉ held.keys := fun h => (List.disjoint_of_nodup_append hn) h (by simp)
    have hkeys : (held.insert e.1 e.2).keys = held.keys ++ [e.1] := by rw [keys_insert, if_neg hnew]
    rw [List.map_cons, List.foldlM_cons, he held hnew, pure_bind, List.foldl_cons]
    exact ih (held.insert e.1 e.2) hes (by simpa [hkeys] using hn)

theorem foldlM_entries (m : Keyed κ α)
    (hstep : ∀ e ∈ m.entries, ∀ held : Keyed κ α, e.1 ∉ held.keys →
      step held (f e) = pure (held.insert e.1 e.2)) :
    (m.entries.map f).foldlM step .empty = pure m := by
  rw [foldlM_insert empty hstep (by simpa using m.nodup)]
  exact congrArg pure m.ofList_entries

end Fold

def without (m : Keyed κ α) (ks : List κ) : Keyed κ α where
  entries := m.entries.filter fun e => e.1 ∉ ks
  nodup := (List.filter_sublist.map Prod.fst).nodup m.nodup

theorem without_insert (m : Keyed κ α) {k : κ} {ks : List κ} (hk : k ∈ ks) (v : α) :
    (m.insert k v).without ks = m.without ks := by
  apply ext
  rw [insert]
  split
  · simp [without, hk]
  · show (m.entries.map _).filter _ = m.entries.filter _
    induction m.entries with
    | nil => rfl
    | cons e es ih =>
      rw [List.map_cons, List.filter_cons, List.filter_cons, ih]
      by_cases he : e.1 = k
      · simp [he, hk]
      · simp [he]

def only (m : Keyed κ α) (ks : List κ) : Keyed κ α where
  entries := m.entries.filter fun e => e.1 ∈ ks
  nodup := (List.filter_sublist.map Prod.fst).nodup m.nodup

theorem get?_only (m : Keyed κ α) {k : κ} {ks : List κ} (hk : k ∈ ks) :
    (m.only ks).get? k = m.get? k := by
  refine Option.ext fun v => ?_
  rw [get?_eq_some_iff, get?_eq_some_iff]
  simp [only, hk]

def single (k : κ) (v : α) : Keyed κ α := empty.push k v (get?_empty k)

@[simp] theorem keys_single (k : κ) (v : α) : (single k v).keys = [k] := rfl

theorem get?_single (k : κ) (v : α) (j : κ) :
    (single k v).get? j = if j = k then some v else none := by
  rw [single, get?_push, get?_empty]

end Avionics.Keyed
