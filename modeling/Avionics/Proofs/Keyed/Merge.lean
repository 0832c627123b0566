import Avionics.Keyed.Merge
import Avionics.Proofs.Fold
import Avionics.Proofs.Keyed.Lookup
import Avionics.Proofs.Noted
import Avionics.Proofs.Occurrence

/-! Absorbing entries into a keyed collection works on each key alone: what happens
under a key depends on the values that come in under it and on nothing else. -/

namespace Avionics.Keyed

open Noted (joinOption)

variable {κ α : Type} [DecidableEq κ] {join : α → α → Noted α}

theorem absorb_congr {join' : α → α → Noted α} {v : α} (h : ∀ held, join held v = join' held v)
    (m : Keyed κ α) (k : κ) : m.absorb join k v = m.absorb join' k v := by
  rw [absorb, absorb]
  split
  · rfl
  · rw [h]

theorem get?_absorb (m : Keyed κ α) (k : κ) (v : α) (j : κ) :
    (m.absorb join k v).value.get? j = if j = k then (joinOption join (m.get? k) (some v)).value
      else m.get? j := by
  rw [absorb]
  split
  · next h => simp [get?_push, h]
  · next held h => simp [get?_insert, h]

theorem keys_absorb (m : Keyed κ α) (k : κ) (v : α) :
    (m.absorb join k v).value.keys = if k ∈ m.keys then m.keys else m.keys ++ [k] := by
  rw [absorb]
  split
  · next h => rw [Noted.value_pure, keys_push, if_neg (get?_eq_none_iff.1 h)]
  · next held h => simp [keys_insert, mem_keys_iff.2 ⟨held, h⟩]

theorem findings_absorb (m : Keyed κ α) (k : κ) (v : α) :
    (m.absorb join k v).findings = (joinOption join (m.get? k) (some v)).findings := by
  rw [absorb]
  split
  · next h => simp [h]
  · next held h => simp [h]

theorem clean_absorb (m : Keyed κ α) (k : κ) (v : α) :
    (m.absorb join k v).clean = (joinOption join (m.get? k) (some v)).clean := by
  rw [Noted.clean, Noted.clean, findings_absorb]

theorem notes_absorb {P : Finding → Prop} (h : ∀ a b, (join a b).Notes P) (m : Keyed κ α)
    (k : κ) (v : α) : (m.absorb join k v).Notes P := by
  rw [Noted.Notes, findings_absorb]
  exact Noted.Notes.joinOption h (m.get? k) (some v)

theorem notes_merge {P : Finding → Prop} (h : ∀ a b, (join a b).Notes P) (m n : Keyed κ α) :
    (merge join m n).Notes P := by
  rw [merge]
  exact .foldlM (fun m e => notes_absorb h m e.1 e.2) n.entries m

theorem absorb_of_not_mem {m : Keyed κ α} {k : κ} (h : k ∉ m.keys) (v : α) :
    m.absorb join k v = pure (m.insert k v) := by
  have hget := get?_eq_none_iff.2 h
  rw [absorb]
  split
  · rw [insert, dif_pos hget]
  · next held hheld =>
    cases hget.symm.trans hheld

def absorbAll (join : α → α → Noted α) (m : Keyed κ α) (es : List (κ × α)) : Noted (Keyed κ α) :=
  es.foldlM (fun m e => m.absorb join e.1 e.2) m

/-- What happens under one key: the values come in one after another. -/
def joinAll (join : α → α → Noted α) (held : Option α) (vs : List α) : Noted (Option α) :=
  vs.foldlM (fun held v => joinOption join held (some v)) held

def valuesOf (k : κ) (es : List (κ × α)) : List α := (es.filter fun e => e.1 = k).map Prod.snd

section Lists

variable {es : List (κ × α)} {k : κ}

@[simp] theorem valuesOf_nil : valuesOf k ([] : List (κ × α)) = [] := rfl

theorem valuesOf_cons (e : κ × α) :
    valuesOf k (e :: es) = if e.1 = k then e.2 :: valuesOf k es else valuesOf k es := by
  unfold valuesOf
  rw [List.filter_cons]
  split <;> simp_all

theorem valuesOf_eq_nil (h : k ∉ es.map Prod.fst) : valuesOf k es = [] := by
  induction es with
  | nil => rfl
  | cons e es ih =>
    simp only [List.map_cons, List.mem_cons, not_or] at h
    rw [valuesOf_cons, if_neg (Ne.symm h.1), ih h.2]

theorem valuesOf_entries (m : Keyed κ α) : valuesOf k m.entries = (m.get? k).toList := by
  obtain ⟨es, hn⟩ := m
  simp only [get?]
  induction es with
  | nil => rfl
  | cons e es ih =>
    obtain ⟨he, hn⟩ := List.nodup_cons.1 hn
    rw [valuesOf_cons, List.lookup_cons]
    by_cases hk : e.1 = k
    · rw [if_pos hk, valuesOf_eq_nil (hk ▸ he)]
      simp [hk]
    · rw [if_neg hk, ih hn]
      simp [beq_false_of_ne (Ne.symm hk)]

theorem valuesOf_append (es fs : List (κ × α)) (k : κ) :
    valuesOf k (es ++ fs) = valuesOf k es ++ valuesOf k fs := by
  simp [valuesOf]

theorem mem_valuesOf {v : α} : v ∈ valuesOf k es ↔ (k, v) ∈ es := by
  simp [valuesOf]

theorem valuesOf_map_key {f : κ → κ} (hf : Function.Injective f) (k : κ) (es : List (κ × α)) :
    valuesOf (f k) (es.map fun e => (f e.1, e.2)) = valuesOf k es := by
  simp only [valuesOf, List.filter_map, List.map_map, Function.comp_def, hf.eq_iff]

theorem valuesOf_flatMap {β : Type} (es : List (κ × α)) (g : α → List β) (k : κ) :
    valuesOf k (es.flatMap fun e => (g e.2).map (e.1, ·)) = (valuesOf k es).flatMap g := by
  have hmap : ∀ e : κ × α, valuesOf k ((g e.2).map (e.1, ·)) = if e.1 = k then g e.2 else [] := by
    intro e
    split
    · next he => simp [valuesOf, List.filter_map, Function.comp_def, he]
    · next he => simp [valuesOf, List.filter_map, Function.comp_def, he]
  induction es with
  | nil => rfl
  | cons e es ih =>
    rw [List.flatMap_cons, valuesOf_append, hmap, ih, valuesOf_cons]
    split
    · rfl
    · rfl

end Lists

theorem get?_absorbAll (m : Keyed κ α) (es : List (κ × α)) (k : κ) :
    (m.absorbAll join es).value.get? k = (joinAll join (m.get? k) (valuesOf k es)).value := by
  induction es generalizing m with
  | nil => rfl
  | cons e es ih =>
    show ((m.absorb join e.1 e.2).value.absorbAll join es).value.get? k = _
    rw [ih, get?_absorb, valuesOf_cons]
    by_cases hk : k = e.1
    · subst hk
      rw [if_pos rfl, if_pos rfl]
      rfl
    · rw [if_neg hk, if_neg (Ne.symm hk)]

theorem clean_absorbAll (m : Keyed κ α) (es : List (κ × α)) :
    (m.absorbAll join es).clean = true
      ↔ ∀ k, (joinAll join (m.get? k) (valuesOf k es)).clean = true := by
  induction es generalizing m with
  | nil => simp [absorbAll, joinAll]
  | cons e es ih =>
    have hrest : ∀ k, (joinAll join (m.get? k) (valuesOf k (e :: es))).clean
        = ((if k = e.1 then (m.absorb join e.1 e.2).clean else true)
          && (joinAll join ((m.absorb join e.1 e.2).value.get? k) (valuesOf k es)).clean) := by
      intro k
      rw [get?_absorb, valuesOf_cons, clean_absorb]
      by_cases hk : k = e.1
      · subst hk
        rw [if_pos rfl, if_pos rfl, if_pos rfl]
        exact Noted.clean_bind ..
      · rw [if_neg hk, if_neg hk, if_neg (Ne.symm hk), Bool.true_and]
    show ((m.absorb join e.1 e.2) >>= fun m => m.absorbAll join es).clean = true ↔ _
    rw [Noted.clean_bind, Bool.and_eq_true, ih]
    simp only [hrest, Bool.and_eq_true]
    constructor
    · rintro ⟨he, hes⟩ k
      exact ⟨by split <;> simp_all, hes k⟩
    · intro h
      exact ⟨by simpa using (h e.1).1, fun k => (h k).2⟩

theorem findings_absorbAll {es : List (κ × α)} (hn : (es.map Prod.fst).Nodup) (m : Keyed κ α) :
    (m.absorbAll join es).findings = es.flatMap fun e =>
    (joinOption join (m.get? e.1) (some e.2)).findings := by
  induction es generalizing m with
  | nil => rfl
  | cons e es ih =>
    obtain ⟨hnew, hn⟩ := List.nodup_cons.1 hn
    show (m.absorb join e.1 e.2).findings
        ++ ((m.absorb join e.1 e.2).value.absorbAll join es).findings = _
    rw [findings_absorb, ih hn, List.flatMap_cons]
    congr 1
    refine List.flatMap_congr fun d hd => ?_
    have hne : d.1 ≠ e.1 := fun heq => hnew (heq ▸ List.mem_map_of_mem hd)
    rw [get?_absorb, if_neg hne]

theorem keys_absorbAll (m : Keyed κ α) (es : List (κ × α)) :
    (m.absorbAll join es).value.keys = (m.keys ++ es.map Prod.fst).eraseDups := by
  induction es generalizing m with
  | nil => simp [absorbAll, eraseDups_of_nodup m.keys_nodup]
  | cons e es ih =>
    show ((m.absorb join e.1 e.2).value.absorbAll join es).value.keys = _
    rw [ih, keys_absorb, List.map_cons]
    split
    · next he => rw [eraseDups_append_cons_of_mem he]
    · rw [List.append_assoc, List.singleton_append]

theorem absorbAll_concat (m : Keyed κ α) (es : List (κ × α)) (e : κ × α) :
    m.absorbAll join (es ++ [e]) = m.absorbAll join es >>= fun m => m.absorb join e.1 e.2 :=
  foldlM_concat (fun (m : Keyed κ α) (e : κ × α) => m.absorb join e.1 e.2) m es e

theorem joinAll_concat (held : Option α) (vs : List α) (v : α) :
    joinAll join held (vs ++ [v]) = joinAll join held vs >>= fun held =>
      joinOption join held (some v) :=
  foldlM_concat (fun held v => joinOption join held (some v)) held vs v

section Merge

variable (m n : Keyed κ α) (k : κ)

theorem joinAll_toList (a b : Option α) : joinAll join a b.toList = joinOption join a b := by
  cases b with
  | none => rw [Noted.joinOption_none_right]; rfl
  | some b => exact bind_pure _

theorem get?_merge :
    (merge join m n).value.get? k = (joinOption join (m.get? k) (n.get? k)).value := by
  rw [← joinAll_toList, ← valuesOf_entries]
  exact get?_absorbAll m n.entries k

theorem clean_merge :
    (merge join m n).clean = true ↔ ∀ k, (joinOption join (m.get? k) (n.get? k)).clean = true := by
  simp only [← joinAll_toList, ← valuesOf_entries]
  exact clean_absorbAll m n.entries

theorem keys_merge : (merge join m n).value.keys = (m.keys ++ n.keys).eraseDups :=
  keys_absorbAll m n.entries

theorem keys_merge_append :
    (merge join m n).value.keys = m.keys ++ n.keys.filter fun k => k ∉ m.keys := by
  rw [keys_merge, eraseDups_append_of_nodup m.keys_nodup n.keys_nodup]

theorem findings_merge :
    (merge join m n).findings = n.entries.flatMap fun e =>
    (joinOption join (m.get? e.1) (some e.2)).findings :=
  findings_absorbAll n.nodup m

theorem merge_empty : merge join empty m = pure m := by
  have h : (m.entries.map id).foldlM (fun m e => m.absorb join e.1 e.2) empty
      = (pure m : Noted (Keyed κ α)) :=
    foldlM_entries m fun e _ held he => absorb_of_not_mem he e.2
  rw [List.map_id] at h
  exact h

end Merge

theorem associative_merge (h : Noted.Associative join) :
    Noted.Associative (merge join : Keyed κ α → Keyed κ α → Noted (Keyed κ α)) where
  value a b c := by
    apply ext_get?
    · simp only [keys_merge, eraseDups_eraseDups_append, eraseDups_append_eraseDups,
        List.append_assoc]
    · intro k
      simp only [get?_merge, h.option.value]
  clean a b c := by
    rw [Bool.eq_iff_iff]
    simp only [Bool.and_eq_true, clean_merge, get?_merge, ← forall_and]
    refine forall_congr' fun k => ?_
    have hk := h.option.clean (a.get? k) (b.get? k) (c.get? k)
    simp only [← Bool.and_eq_true, hk]

section Idempotent

variable {m n : Keyed κ α}

theorem keys_merge_of_subset (h : n.keys ⊆ m.keys) : (merge join m n).value.keys = m.keys := by
  have hfilter : n.keys.filter (fun k => k ∉ m.keys) = [] :=
    List.filter_eq_nil_iff.2 fun k hk => by simpa using h hk
  rw [keys_merge_append, hfilter, List.append_nil]

theorem subset_keys_merge : n.keys ⊆ (merge join m n).value.keys := by
  intro k hk
  rw [keys_merge, List.mem_eraseDups]
  exact List.mem_append_right _ hk

theorem findings_merge_congr {m' : Keyed κ α}
    (h : ∀ k, joinOption join (m.get? k) (n.get? k) = joinOption join (m'.get? k) (n.get? k)) :
    (merge join m n).findings = (merge join m' n).findings := by
  rw [findings_merge, findings_merge]
  refine List.flatMap_congr fun e he => ?_
  have hk := h e.1
  rw [get?_eq_some_iff.2 he] at hk
  rw [hk]

theorem idempotent_merge (h : Noted.Idempotent join) :
    Noted.Idempotent (merge join : Keyed κ α → Keyed κ α → Noted (Keyed κ α)) where
  self m := by
    apply Noted.ext
    · refine ext_get? (keys_merge_of_subset (List.Subset.refl _)) fun k => ?_
      rw [get?_merge, h.option.self]
      rfl
    · rw [findings_merge]
      refine List.flatMap_eq_nil_iff.2 fun e he => ?_
      rw [get?_eq_some_iff.2 he, h.option.self]
      rfl
  again m n := by
    have hagain : ∀ k, joinOption join ((merge join m n).value.get? k) (n.get? k)
        = joinOption join (m.get? k) (n.get? k) := by
      intro k
      rw [get?_merge, h.option.again]
    apply Noted.ext
    · refine ext_get? (keys_merge_of_subset subset_keys_merge) fun k => ?_
      rw [get?_merge, hagain, get?_merge]
    · exact findings_merge_congr hagain

end Idempotent

end Avionics.Keyed
