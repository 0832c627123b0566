/-! Ordered collections with one value per key.  The keys keep the order in which
they first came in, whatever happens to the values later. -/

universe u v w

namespace Avionics

structure Keyed (κ : Type u) (α : Type v) where
  entries : List (κ × α)
  nodup : (entries.map Prod.fst).Nodup

namespace Keyed

variable {κ : Type u} {α : Type v} {β : Type w}

def empty : Keyed κ α := ⟨[], List.nodup_nil⟩

instance : Inhabited (Keyed κ α) := ⟨empty⟩

instance : EmptyCollection (Keyed κ α) := ⟨empty⟩

@[ext] theorem ext {m n : Keyed κ α} (h : m.entries = n.entries) : m = n := by
  cases m; cases n; cases h; rfl

instance [DecidableEq κ] [DecidableEq α] : DecidableEq (Keyed κ α) := fun m n =>
  decidable_of_iff (m.entries = n.entries) ⟨ext, congrArg entries⟩

def keys (m : Keyed κ α) : List κ := m.entries.map Prod.fst

def values (m : Keyed κ α) : List α := m.entries.map Prod.snd

def size (m : Keyed κ α) : Nat := m.entries.length

def isEmpty (m : Keyed κ α) : Bool := m.entries.isEmpty

variable [DecidableEq κ]

def get? (m : Keyed κ α) (k : κ) : Option α := m.entries.lookup k

def contains (m : Keyed κ α) (k : κ) : Bool := (m.get? k).isSome

theorem get?_eq_none_iff {m : Keyed κ α} {k : κ} : m.get? k = none ↔ k ∉ m.keys := by
  simp only [get?, keys, List.lookup_eq_none_iff, List.mem_map, not_exists, not_and]
  exact ⟨fun h e he hk => by simpa [hk] using h e he, fun h e he => by
    simpa using fun hk : k = e.1 => h e he hk.symm⟩

def modify (m : Keyed κ α) (k : κ) (f : α → α) : Keyed κ α where
  entries := m.entries.map fun e => if e.1 = k then (e.1, f e.2) else e
  nodup := by
    have h : (m.entries.map fun e => if e.1 = k then (e.1, f e.2) else e).map Prod.fst
        = m.entries.map Prod.fst := by
      simp only [List.map_map]
      exact List.map_congr_left fun e _ => by simp only [Function.comp]; split <;> rfl
    rw [h]; exact m.nodup

def push (m : Keyed κ α) (k : κ) (v : α) (h : m.get? k = none) : Keyed κ α where
  entries := m.entries ++ [(k, v)]
  nodup := by
    have := get?_eq_none_iff.1 h
    simp only [List.map_append, List.map_cons, List.map_nil]
    refine List.nodup_append.2 ⟨m.nodup, by simp, ?_⟩
    intro a ha b hb hab
    simp only [List.mem_singleton] at hb
    exact this (hb ▸ hab ▸ ha)

/-- Keeps the place of a key that is already there. -/
def insert (m : Keyed κ α) (k : κ) (v : α) : Keyed κ α :=
  if h : m.get? k = none then m.push k v h else m.modify k fun _ => v

def ofList (es : List (κ × α)) : Keyed κ α := es.foldl (fun m e => m.insert e.1 e.2) empty

inductive Offer (α : Type v)
  | inserted (value : α) : Offer α
  | existing (held offered : α) : Offer α
  deriving DecidableEq

/-- The first entry of a key wins; a later one is handed back. -/
def offer (m : Keyed κ α) (k : κ) (v : α) : Offer α × Keyed κ α :=
  match h : m.get? k with
  | none => (.inserted v, m.push k v h)
  | some held => (.existing held v, m)

/-- Equality up to the order of the entries. -/
def agrees (same : α → α → Bool) (m n : Keyed κ α) : Bool :=
  m.size == n.size && m.entries.all fun e => (n.get? e.1).any (same e.2)

omit [DecidableEq κ] in
@[simp] theorem entries_empty : (empty : Keyed κ α).entries = [] := rfl

@[simp] theorem get?_empty (k : κ) : (empty : Keyed κ α).get? k = none := rfl

@[simp] theorem entries_push (m : Keyed κ α) (k : κ) (v : α) (h) :
    (m.push k v h).entries = m.entries ++ [(k, v)] := rfl

@[simp] theorem keys_push (m : Keyed κ α) (k : κ) (v : α) (h) :
    (m.push k v h).keys = m.keys ++ [k] := by simp [keys]

theorem get?_push (m : Keyed κ α) (k : κ) (v : α) (h) (j : κ) :
    (m.push k v h).get? j = if j = k then some v else m.get? j := by
  show (m.entries ++ [(k, v)]).lookup j = _
  rw [List.lookup_append]
  by_cases hj : j = k
  · subst hj; rw [show m.entries.lookup j = none from h]; simp
  · simp [hj, get?, List.lookup_cons, beq_false_of_ne hj]

@[simp] theorem keys_modify (m : Keyed κ α) (k : κ) (f : α → α) : (m.modify k f).keys = m.keys := by
  simp only [keys, modify, List.map_map]
  exact List.map_congr_left fun e _ => by simp only [Function.comp]; split <;> rfl

theorem get?_modify (m : Keyed κ α) (k : κ) (f : α → α) (j : κ) :
    (m.modify k f).get? j = if j = k then (m.get? j).map f else m.get? j := by
  simp only [get?, modify]
  induction m.entries with
  | nil => simp
  | cons e es ih =>
    obtain ⟨a, b⟩ := e
    simp only [List.map_cons]
    by_cases ha : a = k <;> by_cases hj : j = a <;>
      simp_all [List.lookup_cons, beq_false_of_ne]

theorem get?_insert (m : Keyed κ α) (k : κ) (v : α) (j : κ) :
    (m.insert k v).get? j = if j = k then some v else m.get? j := by
  unfold insert
  split
  · exact get?_push ..
  · next h =>
    rw [get?_modify]
    split
    · next hj => subst hj; cases hv : m.get? j with
      | none => exact absurd hv h
      | some _ => rfl
    · rfl

end Keyed

end Avionics
