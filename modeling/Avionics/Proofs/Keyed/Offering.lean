import Avionics.Proofs.Keyed.Merge

namespace Avionics.Keyed

open scoped List

variable {κ α : Type} [DecidableEq κ]

namespace Offer

def against (held : Option α) (offered : α) : Offer α :=
  held.elim (.inserted offered) (.existing · offered)

def isInserted : Offer α → Bool
  | .inserted _ => true
  | .existing .. => false

def rejected? : Offer α → Option α
  | .inserted _ => none
  | .existing _ offered => some offered

end Offer

section Step

variable {m : Keyed κ α} {k : κ} {held : α}

theorem offer_of_vacant (h : m.get? k = none) (v : α) :
    m.offer k v = (.inserted v, m.insert k v) := by
  rw [offer, insert, dif_pos h]
  split
  · rfl
  · next held hheld => cases h.symm.trans hheld

theorem offer_of_held (h : m.get? k = some held) (v : α) : m.offer k v = (.existing held v, m) := by
  rw [offer]
  split
  · next hnone => cases h.symm.trans hnone
  · next other hother =>
    cases h.symm.trans hother
    rfl

theorem absorb_eq_offer (join : α → α → Noted α) (m : Keyed κ α) (k : κ) (v : α) :
    m.absorb join k v =
    match m.offer k v with
    | (.inserted _, n) => pure n
    | (.existing held new, n) => join held new >>= fun joined => pure (n.insert k joined) := by
  rw [absorb]
  split
  · next h =>
    rw [offer_of_vacant h, insert, dif_pos h]
  · next held h => rw [offer_of_held h]

variable (m k) (v : α)

theorem outcome_offer : (m.offer k v).1 = .against (m.get? k) v := by
  cases h : m.get? k with
  | none => rw [offer_of_vacant h]; rfl
  | some held => rw [offer_of_held h]; rfl

theorem get?_offer (j : κ) :
    (m.offer k v).2.get? j = (m.get? j).or (if j = k then some v else none) := by
  cases h : m.get? k with
  | none =>
    rw [offer_of_vacant h, get?_insert]
    split
    · next hj => rw [hj, h]; rfl
    · rw [Option.or_none]
  | some held =>
    rw [offer_of_held h]
    split
    · next hj => rw [hj, h]; rfl
    · rw [Option.or_none]

theorem snd_offer_eq_absorb : (m.offer k v).2 = (m.absorb (fun held _ => pure held) k v).value := by
  rw [absorb_eq_offer]
  cases h : m.get? k with
  | none => rw [offer_of_vacant h]; rfl
  | some held =>
    rw [offer_of_held h]
    exact (insert_of_get? h).symm

theorem size_offer : (m.offer k v).2.size = m.size + [(m.offer k v).1].countP Offer.isInserted := by
  cases h : m.get? k with
  | none =>
    rw [offer_of_vacant h, size, entries_insert_of_not_mem (get?_eq_none_iff.1 h),
      List.length_append]
    rfl
  | some held => rw [offer_of_held h]; rfl

theorem values_offer :
    ((m.offer k v).2.values ++ [(m.offer k v).1].filterMap Offer.rejected?).Perm
    (m.values ++ [v]) := by
  cases h : m.get? k with
  | none =>
    rw [offer_of_vacant h, values, entries_insert_of_not_mem (get?_eq_none_iff.1 h),
      List.map_append]
    exact .of_eq (List.append_nil _)
  | some held => rw [offer_of_held h]; rfl

end Step

def offerAll : Keyed κ α → List (κ × α) → List (Offer α) × Keyed κ α
  | m, [] => ([], m)
  | m, e :: es =>
    let (outcome, n) := m.offer e.1 e.2
    let (outcomes, n) := n.offerAll es
    (outcome :: outcomes, n)

section Run

variable (m : Keyed κ α) (es : List (κ × α))

@[simp] theorem offerAll_nil : m.offerAll [] = ([], m) := rfl

@[simp] theorem offerAll_cons (e : κ × α) : m.offerAll (e :: es)
    = ((m.offer e.1 e.2).1 :: ((m.offer e.1 e.2).2.offerAll es).1,
      ((m.offer e.1 e.2).2.offerAll es).2) := rfl

theorem offerAll_append (fs : List (κ × α)) : m.offerAll (es ++ fs)
    = ((m.offerAll es).1 ++ ((m.offerAll es).2.offerAll fs).1,
      ((m.offerAll es).2.offerAll fs).2) := by
  induction es generalizing m with
  | nil => rfl
  | cons e es ih => rw [List.cons_append, offerAll_cons, ih]; rfl

theorem length_offerAll : (m.offerAll es).1.length = es.length := by
  induction es generalizing m with
  | nil => rfl
  | cons e es ih => rw [offerAll_cons, List.length_cons, ih, List.length_cons]

theorem get?_offerAll (k : κ) : (m.offerAll es).2.get? k = (m.get? k).or (es.lookup k) := by
  induction es generalizing m with
  | nil => rw [offerAll_nil, List.lookup_nil, Option.or_none]
  | cons e es ih =>
    rw [offerAll_cons, ih, get?_offer, Option.or_assoc, List.lookup_cons]
    by_cases hk : k = e.1
    · rw [if_pos hk, beq_iff_eq.2 hk]; rfl
    · rw [if_neg hk, beq_false_of_ne hk]; rfl

theorem snd_offerAll_eq_absorbAll :
    (m.offerAll es).2 = (m.absorbAll (fun held _ => pure held) es).value := by
  induction es generalizing m with
  | nil => rfl
  | cons e es ih => rw [offerAll_cons, ih, snd_offer_eq_absorb]; rfl

theorem keys_offerAll : (m.offerAll es).2.keys = (m.keys ++ es.map Prod.fst).eraseDups := by
  rw [snd_offerAll_eq_absorbAll, keys_absorbAll]

theorem size_offerAll :
    (m.offerAll es).2.size = m.size + (m.offerAll es).1.countP Offer.isInserted := by
  induction es generalizing m with
  | nil => rfl
  | cons e es ih =>
    rw [offerAll_cons, ih, size_offer, Nat.add_assoc, ← List.countP_append, List.singleton_append]

theorem values_offerAll :
    ((m.offerAll es).2.values ++ (m.offerAll es).1.filterMap Offer.rejected?).Perm
    (m.values ++ es.map Prod.snd) := by
  induction es generalizing m with
  | nil => exact .refl _
  | cons e es ih =>
    have hstep := values_offer m e.1 e.2
    rw [offerAll_cons]
    generalize m.offer e.1 e.2 = r at hstep ⊢
    obtain ⟨outcome, n⟩ := r
    calc
      (n.offerAll es).2.values ++ (outcome :: (n.offerAll es).1).filterMap Offer.rejected?
      _ = (n.offerAll es).2.values
          ++ ([outcome].filterMap Offer.rejected?
            ++ (n.offerAll es).1.filterMap Offer.rejected?) := by
        rw [← List.filterMap_append, List.singleton_append]
      _ ~ [outcome].filterMap Offer.rejected?
          ++ ((n.offerAll es).2.values ++ (n.offerAll es).1.filterMap Offer.rejected?) :=
            List.perm_append_comm_assoc ..
      _ ~ [outcome].filterMap Offer.rejected? ++ (n.values ++ es.map Prod.snd) :=
        (ih n).append_left _
      _ ~ n.values ++ ([outcome].filterMap Offer.rejected? ++ es.map Prod.snd) :=
        List.perm_append_comm_assoc ..
      _ = n.values ++ [outcome].filterMap Offer.rejected? ++ es.map Prod.snd :=
        (List.append_assoc ..).symm
      _ ~ m.values ++ [e.2] ++ es.map Prod.snd := hstep.append_right _
      _ = m.values ++ (e :: es).map Prod.snd := List.append_assoc ..

/-- What becomes of an entry depends on the first one of its key, there or offered by then. -/
theorem outcome_offerAll {i : Nat} {k : κ} {v : α} (h : es[i]? = some (k, v)) :
    (m.offerAll es).1[i]? = some (.against ((m.get? k).or ((es.take i).lookup k)) v) := by
  obtain ⟨hi, he⟩ := List.getElem?_eq_some_iff.1 h
  have hlength : (m.offerAll (es.take i)).1.length = i := by
    rw [length_offerAll, List.length_take_of_le (Nat.le_of_lt hi)]
  have hsplit : es.take i ++ (k, v) :: es.drop (i + 1) = es := by
    rw [← he, ← List.drop_eq_getElem_cons hi, List.take_append_drop]
  calc
    (m.offerAll es).1[i]? = (m.offerAll (es.take i ++ (k, v) :: es.drop (i + 1))).1[i]? := by
      rw [hsplit]
    _ = some ((m.offerAll (es.take i)).2.offer k v).1 := by
      rw [offerAll_append, List.getElem?_append_right (Nat.le_of_eq hlength), hlength, Nat.sub_self,
        offerAll_cons, List.getElem?_cons_zero]
    _ = some (.against ((m.get? k).or ((es.take i).lookup k)) v) := by
      rw [outcome_offer, get?_offerAll]

end Run

theorem isSome_lookup_iff {es : List (κ × α)} {k : κ} :
    (es.lookup k).isSome = true ↔ k ∈ es.map Prod.fst := by
  rw [List.lookup_isSome_iff, List.mem_map]
  exact exists_congr fun e => and_congr_right' (beq_iff_eq.trans eq_comm)

/-- Of each key the first entry is kept, at the place where the key comes first; all others are
handed back. -/
structure FirstKept (es : List (κ × α)) (outcomes : List (Offer α)) (m : Keyed κ α) : Prop where
  distinct : m.keys.Nodup
  keys : m.keys = (es.map Prod.fst).eraseDups
  value : ∀ k, m.get? k = es.lookup k
  length : outcomes.length = es.length
  inserted : ∀ i k v, es[i]? = some (k, v) → k ∉ (es.take i).map Prod.fst →
    outcomes[i]? = some (.inserted v)
  existing : ∀ i k v, es[i]? = some (k, v) → k ∈ (es.take i).map Prod.fst →
    ∃ first, es.lookup k = some first ∧ outcomes[i]? = some (.existing first v)
  size : outcomes.countP Offer.isInserted = m.size
  values : (m.values ++ outcomes.filterMap Offer.rejected?).Perm (es.map Prod.snd)

theorem offerAll_empty (es : List (κ × α)) :
    FirstKept es ((empty : Keyed κ α).offerAll es).1 ((empty : Keyed κ α).offerAll es).2 where
  distinct := keys_nodup _
  keys := keys_offerAll empty es
  value k := by rw [get?_offerAll, get?_empty, Option.none_or]
  length := length_offerAll empty es
  inserted i k v h hk := by
    rw [← isSome_lookup_iff, Option.not_isSome_iff_eq_none] at hk
    rw [outcome_offerAll empty es h, hk]
    rfl
  existing i k v h hk := by
    obtain ⟨first, hfirst⟩ := Option.isSome_iff_exists.1 (isSome_lookup_iff.2 hk)
    refine ⟨first, ?_, ?_⟩
    · rw [← List.take_append_drop i es, List.lookup_append, hfirst]
      rfl
    · rw [outcome_offerAll empty es h, hfirst]
      rfl
  size := by rw [size_offerAll]; exact (Nat.zero_add _).symm
  values := values_offerAll empty es

theorem offerAll_empty_repeated : ∃ outcomes m,
    (empty : Keyed String Nat).offerAll [("z", 0), ("a", 1), ("z", 2), ("m", 3)] = (outcomes, m)
    ∧ FirstKept [("z", 0), ("a", 1), ("z", 2), ("m", 3)] outcomes m
    ∧ outcomes = [.inserted 0, .inserted 1, .existing 0 2, .inserted 3]
    ∧ m.entries = [("z", 0), ("a", 1), ("m", 3)] :=
  ⟨_, _, rfl, offerAll_empty [("z", 0), ("a", 1), ("z", 2), ("m", 3)], rfl, rfl⟩

end Avionics.Keyed
