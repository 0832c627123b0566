import Avionics.Proofs.Exchange.Meaning
import Avionics.Proofs.Exchange.Warnings
import Avionics.Proofs.Keyed.Agreement

namespace Avionics

open Markup (Element)
open Exchange (Platform Schema Record RecordKind)

theorem head?_bind_perm {α β : Type} {l m : List α} (hperm : l.Perm m) {f : α → Option β}
    (hf : ∀ a ∈ l, ∀ b ∈ l, f a = f b) : l.head?.bind f = m.head?.bind f := by
  cases l with
  | nil => rw [hperm.nil_eq]
  | cons a l =>
    cases m with
    | nil => cases hperm.eq_nil
    | cons b m => exact hf a List.mem_cons_self b (hperm.mem_iff.2 List.mem_cons_self)

namespace Exchange.Schema

section Elements

variable {ds es : List Element} {s u : Schema}

theorem childrenOf_perm (hperm : ds.Perm es) (tag : String) :
    (childrenOf ds tag).Perm (childrenOf es tag) :=
  hperm.flatMap_right _

theorem childrenWith_perm (hperm : ds.Perm es) (tag key value : String) :
    (childrenWith ds tag key value).Perm (childrenWith es tag key value) :=
  (childrenOf_perm hperm tag).filter _

theorem Address.elements_perm (hperm : ds.Perm es) (a : Address s u) :
    (a.elements ds).Perm (a.elements es) := by
  induction a generalizing ds es with
  | here => exact hperm
  | first a ih => exact ih hperm
  | second a ih => exact ih hperm
  | group name a ih => exact ih (childrenWith_perm hperm _ _ _)
  | part a ih => exact ih (childrenOf_perm hperm _)
  | option a ih => exact ih (childrenOf_perm hperm _)
  | produced a ih => exact ih (childrenOf_perm hperm _)
  | consumed a ih => exact ih (childrenOf_perm hperm _)

theorem agreeing_perm (hperm : ds.Perm es) : s.Agreeing ds ↔ s.Agreeing es := by
  refine forall_congr' fun kind => forall_congr' fun a => forall_congr' fun key => ?_
  have hrecords : (a.records key ds).Perm (a.records key es) :=
    childrenWith_perm (a.elements_perm hperm) _ _ _
  simp only [hrecords.mem_iff]

end Elements

structure Alike (s : Schema) (c d : s.Content) : Prop where
  records : ∀ kind (a : Address s (records kind)),
    (Keyed.keys (a.content c)).Perm (Keyed.keys (a.content d))
  groups : ∀ tag t (a : Address s (group tag t)),
    (Keyed.keys (a.content c)).Perm (Keyed.keys (a.content d))
  options : ∀ tag t (a : Address s (option tag t)),
    Option.isSome (a.content c) = Option.isSome (a.content d)

variable {s : Schema} {ds es : List Element} {c d : s.Content}

theorem Describes.alike (hc : s.Describes ds c) (hd : s.Describes es d) (hperm : ds.Perm es) :
    s.Alike c d where
  records kind a := by
    rw [hc.recordOrder, hd.recordOrder]
    exact eraseDups_perm ((childrenOf_perm (a.elements_perm hperm) _).filterMap _)
  groups tag t a := by
    rw [hc.groupOrder, hd.groupOrder]
    exact eraseDups_perm ((childrenOf_perm (a.elements_perm hperm) _).filterMap _)
  options tag t a := by
    have hchildren := childrenOf_perm (a.elements_perm hperm) tag
    rw [Bool.eq_iff_iff, hc.present, hd.present, Ne, Ne, ← List.length_eq_zero_iff,
      ← List.length_eq_zero_iff, hchildren.length_eq]

/-- Without errors it does not matter either which record comes first. -/
theorem agrees_of_total (hperm : ds.Perm es) (hd : s.total ds = some (c, true))
    (he : s.total es = some (d, true)) : s.agrees c d = true := by
  induction s generalizing ds es with
  | records kind =>
    obtain ⟨-, hread, hget, hclean⟩ := total_records_eq_some hd
    obtain ⟨-, -, hget', -⟩ := total_records_eq_some he
    refine Keyed.agrees_iff.2 fun key => ?_
    rw [hget, hget']
    refine head?_bind_perm (childrenWith_perm hperm _ _ key) fun x hx y hy => ?_
    obtain ⟨r, hr⟩ := hread key x hx
    obtain ⟨r', hr'⟩ := hread key y hy
    rw [hr, hr', (Record.eq_iff_same hr hr').2 (hclean.1 rfl key x hx y hy)]
  | unsupported tag what key => rfl
  | both s t ihs iht =>
    obtain ⟨p, q, hs, ht, hpq⟩ := total_both_eq_some.1 hd
    obtain ⟨p', q', hs', ht', hpq'⟩ := total_both_eq_some.1 he
    obtain ⟨rfl, rfl⟩ := Bool.and_eq_true_iff.1 hpq
    obtain ⟨rfl, rfl⟩ := Bool.and_eq_true_iff.1 hpq'
    exact Bool.and_eq_true_iff.2 ⟨ihs hperm hs hs', iht hperm ht ht'⟩
  | group tag s ih =>
    obtain ⟨hkeys, clean, hnames, hclean⟩ := total_group_eq_some hd
    obtain ⟨hkeys', clean', hnames', hclean'⟩ := total_group_eq_some he
    have hmem : ∀ name, name ∈ c.keys ↔ name ∈ d.keys := by
      rw [hkeys, hkeys']
      exact fun name => (eraseDups_perm ((childrenOf_perm hperm tag).filterMap _)).mem_iff
    refine Keyed.agrees_iff_rel.2 fun name => ?_
    rcases hnames name with ⟨-, hnone, -⟩ | ⟨c', hsome, htotal⟩
    · rw [hnone, Keyed.get?_eq_none_iff.2 (mt (hmem name).2 (Keyed.get?_eq_none_iff.1 hnone))]
      exact .none
    · obtain ⟨d', hsome'⟩ := Keyed.mem_keys_iff.1 ((hmem name).1 (Keyed.mem_keys_iff.2 ⟨c', hsome⟩))
      rcases hnames' name with ⟨-, hnone', -⟩ | ⟨d'', hd'', htotal'⟩
      · cases hsome'.symm.trans hnone'
      · rw [hsome, hd'']
        rw [hclean.1 rfl name] at htotal
        rw [hclean'.1 rfl name] at htotal'
        exact .some (ih (childrenWith_perm hperm tag "Name" name) htotal htotal')
  | part tag s ih =>
    rw [total_part] at hd he
    exact ih (childrenOf_perm hperm tag) hd he
  | option tag s ih =>
    have hchildren := childrenOf_perm hperm tag
    rcases total_option_eq_some hd with ⟨hnil, rfl, -⟩ | ⟨hne, c', rfl, htotal⟩
    · rcases total_option_eq_some he with ⟨-, rfl, -⟩ | ⟨hne, -⟩
      · rfl
      · rw [hnil] at hchildren
        exact absurd hchildren.nil_eq.symm hne
    · rcases total_option_eq_some he with ⟨hnil, -⟩ | ⟨-, d', rfl, htotal'⟩
      · rw [hnil] at hchildren
        exact absurd hchildren.eq_nil hne
      · exact ih hchildren htotal htotal'
  | directional s ih =>
    obtain ⟨p, q, hc, hp, hpq⟩ := total_directional_eq_some hd
    obtain ⟨p', q', hc', hp', hpq'⟩ := total_directional_eq_some he
    obtain ⟨rfl, rfl⟩ := Bool.and_eq_true_iff.1 hpq
    obtain ⟨rfl, rfl⟩ := Bool.and_eq_true_iff.1 hpq'
    exact Bool.and_eq_true_iff.2
      ⟨ih (childrenOf_perm hperm _) hp hp', ih (childrenOf_perm hperm _) hc hc'⟩

end Exchange.Schema

namespace Exchange.Platform

def queuingRoot : Element :=
  let message : Element := { name := "QueuingMessage", attributes := .ofList [("Id", "7")] }
  let bus := (Schema.element "Bus" [message]).set "Name" "B"
  let exchange :=
    Schema.element "DataExchange" [Schema.element "CAN" [Schema.element "ConsumedData" [bus]]]
  (Schema.element rootName [exchange]).set "Name" "Q"

theorem accepted_queuingRoot : Accepted queuingRoot := ⟨_, rfl⟩

end Exchange.Platform

namespace Resolution

structure Reordered (merged other : Noted Platform) : Prop where
  errors : merged.findings.errors = 0 ↔ other.findings.errors = 0
  declared : Schema.platform.Alike merged.value.content other.value.content
  exchange : merged.findings.errors = 0 →
    Schema.optionalExchange.agrees merged.value.dataExchange other.value.dataExchange = true
  equipments : merged.findings.errors = 0 →
    Keyed.agrees Schema.equipment.agrees merged.value.equipments other.value.equipments = true
  warnings : merged.findings.warnings = other.findings.warnings

theorem MergesTo.reordered {roots others : List Element} {whole whole' : Noted Platform}
    (h : MergesTo roots whole)
    (h' : MergesTo others whole') (hperm : roots.Perm others) : Reordered whole whole' := by
  have hclean : whole.clean = true ↔ whole'.clean = true := by
    rw [Schema.clean_total_iff h.total, Schema.clean_total_iff h'.total, Schema.agreeing_perm hperm]
  have hagrees : whole.findings.errors = 0 →
      Schema.platform.agrees whole.value.content whole'.value.content = true := by
    intro herrors
    have htrue := Noted.clean_iff.2 herrors
    exact Schema.agrees_of_total hperm (htrue ▸ h.total) (hclean.1 htrue ▸ h'.total)
  have hwarnings := hperm.flatMap_right warningsOf
  exact {
    errors := by rw [← Noted.clean_iff, ← Noted.clean_iff, hclean]
    declared := (Schema.describes_of_total h.total).alike (Schema.describes_of_total h'.total) hperm
    exchange := fun herrors => (Bool.and_eq_true_iff.1 (hagrees herrors)).1
    equipments := fun herrors => (Bool.and_eq_true_iff.1 (hagrees herrors)).2
    warnings := by
      rw [Report.warnings_eq, Report.warnings_eq, warnings_mergePlatforms h.merged,
        warnings_mergePlatforms h'.merged, hwarnings.length_eq] }

theorem mergePlatforms_perm {roots others : List Element} (hperm : roots.Perm others)
    (h : ∀ root ∈ roots, Platform.Accepted root) : ∃ merged other, mergePlatforms roots = .ok merged
      ∧ mergePlatforms others = .ok other ∧ Reordered merged other := by
  obtain ⟨merged, hmerged⟩ := exists_mergesTo h
  obtain ⟨other, hother⟩ := exists_mergesTo fun root hroot => h root (hperm.mem_iff.2 hroot)
  exact ⟨merged, other, hmerged.merged, hother.merged, hmerged.reordered hother hperm⟩

theorem mergePlatforms_perm_queuing :
    (∀ root ∈ [Platform.signalRoot "a", Platform.queuingRoot], Platform.Accepted root)
    ∧ ∃ merged other, mergePlatforms [Platform.signalRoot "a", Platform.queuingRoot] = .ok merged
      ∧ mergePlatforms [Platform.queuingRoot, Platform.signalRoot "a"] = .ok other
      ∧ merged.findings.errors = 0 ∧ other.findings.errors = 0 ∧ other.findings.warnings = 1
      ∧ Schema.optionalExchange.agrees merged.value.dataExchange other.value.dataExchange
        = true := by
  have h : ∀ root ∈ [Platform.signalRoot "a", Platform.queuingRoot], Platform.Accepted root := by
    simp [Platform.accepted_signalRoot, Platform.accepted_queuingRoot]
  obtain ⟨merged, other, hmerged, hother, hreordered⟩ :=
    mergePlatforms_perm (.swap Platform.queuingRoot _ []) h
  have hcounts : (mergePlatforms [Platform.signalRoot "a", Platform.queuingRoot]).map
      (fun merged => (merged.findings.errors, merged.findings.warnings)) = .ok (0, 1) := rfl
  rw [hmerged] at hcounts
  obtain ⟨herrors, hwarnings⟩ := Prod.mk.inj (Except.ok.inj hcounts)
  exact ⟨h, merged, other, hmerged, hother, herrors, hreordered.errors.1 herrors,
    hreordered.warnings ▸ hwarnings,
    hreordered.exchange herrors⟩

end Resolution

end Avionics
