import Mathlib.Data.List.Perm.Basic
import Mathlib.Data.List.Induction
import Mathlib.Data.List.Nodup

universe u

namespace Avionics

variable {α : Type u} [BEq α] [LawfulBEq α]

theorem nodup_eraseDups (l : List α) : l.eraseDups.Nodup := by
  induction h : l.length using Nat.strongRecOn generalizing l with
  | ind n ih =>
    cases l with
    | nil => simp
    | cons a l =>
      subst h
      rw [List.eraseDups_cons, List.nodup_cons]
      refine ⟨by simp [List.mem_eraseDups], ih _ ?_ _ rfl⟩
      exact Nat.lt_succ_of_le (List.length_filter_le _ l)

theorem eraseDups_of_nodup {l : List α} (h : l.Nodup) : l.eraseDups = l := by
  induction l with
  | nil => rfl
  | cons a l ih =>
    obtain ⟨ha, hl⟩ := List.nodup_cons.1 h
    have hfilter : l.filter (fun b => !b == a) = l :=
      List.filter_eq_self.2 fun b hb => by simpa using fun hba : b = a => ha (hba ▸ hb)
    rw [List.eraseDups_cons, hfilter, ih hl]

theorem eraseDups_append_cons_of_mem {l m : List α} {a : α} (h : a ∈ l) :
    (l ++ a :: m).eraseDups = (l ++ m).eraseDups := by
  rw [List.eraseDups_append, List.eraseDups_append]
  simp [List.removeAll, h]

@[simp] theorem eraseDups_eraseDups_append (l m : List α) :
    (l.eraseDups ++ m).eraseDups = (l ++ m).eraseDups := by
  have hmem : m.removeAll l.eraseDups = m.removeAll l := by simp [List.removeAll]
  rw [List.eraseDups_append, List.eraseDups_append, hmem, eraseDups_of_nodup (nodup_eraseDups l)]

theorem eraseDups_append_of_nodup {l m : List α} (hl : l.Nodup) (hm : m.Nodup) :
    (l ++ m).eraseDups = l ++ m.filter fun a => a ∉ l := by
  have hfilter : m.removeAll l = m.filter fun a => a ∉ l := by simp [List.removeAll]
  rw [List.eraseDups_append, hfilter, eraseDups_of_nodup hl, eraseDups_of_nodup (hm.filter _)]

theorem eraseDups_concat (l : List α) (a : α) :
    (l ++ [a]).eraseDups = if a ∈ l then l.eraseDups else l.eraseDups ++ [a] := by
  rw [List.eraseDups_append]
  split <;> simp_all [List.removeAll, List.eraseDups_cons]

theorem length_eraseDups_concat (l : List α) (a : α) :
    (l ++ [a]).eraseDups.length = if a ∈ l then l.eraseDups.length else l.eraseDups.length + 1 := by
  rw [eraseDups_concat]
  split
  · rfl
  · exact List.length_append

theorem eraseDups_map {β : Type u} [BEq β] [LawfulBEq β] {f : α → β} (hf : Function.Injective f)
    (l : List α) : (l.map f).eraseDups = l.eraseDups.map f := by
  induction l using List.reverseRec with
  | nil => rfl
  | append_singleton l a ih =>
    rw [List.map_append, List.map_singleton, eraseDups_concat, eraseDups_concat, ih]
    simp only [List.mem_map_of_injective hf]
    split
    · rfl
    · rw [List.map_append, List.map_singleton]

@[simp] theorem eraseDups_append_eraseDups (l m : List α) :
    (l ++ m.eraseDups).eraseDups = (l ++ m).eraseDups := by
  induction m using List.reverseRec with
  | nil => rfl
  | append_singleton m a ih =>
    rw [eraseDups_concat, ← List.append_assoc]
    split
    · next ha => rw [ih, eraseDups_concat, if_pos (List.mem_append_right l ha)]
    · rw [← List.append_assoc, ← eraseDups_eraseDups_append, ih, eraseDups_eraseDups_append]

theorem eraseDups_perm {l m : List α} (h : l.Perm m) : l.eraseDups.Perm m.eraseDups := by
  rw [List.perm_ext_iff_of_nodup (nodup_eraseDups l) (nodup_eraseDups m)]
  intro a
  rw [List.mem_eraseDups, List.mem_eraseDups, h.mem_iff]

end Avionics
