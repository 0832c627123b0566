import Avionics.Exchange.Schema
import Avionics.Proofs.Markup.Attribute
import Avionics.Proofs.Noted

namespace Avionics.Exchange

open Markup (Element)

namespace Values

variable {α : Type} {names : List String}

theorem collect_cons_eq_ok {f : String → Except Failure α} {name : String}
    {v : Values α (name :: names)} :
    collect f (name :: names) = .ok v ↔ ∃ a w, f name = .ok a ∧ collect f names = .ok w
      ∧ v = .cons a w := by
  rw [collect]
  cases f name with
  | error e => simp [bind, Except.bind]
  | ok a =>
    cases collect f names with
    | error e => simp [bind, Except.bind]
    | ok w => simp [bind, Except.bind, pure, Except.pure, eq_comm]

theorem get_collect {f : String → Except Failure α} {v : Values α names}
    (h : collect f names = .ok v) (i : Fin names.length) : f (names.get i) = .ok (v.get i) := by
  induction v with
  | nil => exact i.elim0
  | cons a w ih =>
    obtain ⟨a', w', ha, hw, hv⟩ := collect_cons_eq_ok.1 h
    cases hv
    obtain ⟨_ | i, hi⟩ := i
    · exact ha
    · exact ih hw ⟨i, Nat.lt_of_succ_lt_succ hi⟩

theorem exists_collect_iff {f : String → Except Failure α} :
    (∃ v, collect f names = .ok v) ↔ ∀ name ∈ names, ∃ a, f name = .ok a := by
  induction names with
  | nil => exact iff_of_true ⟨.nil, rfl⟩ (List.forall_mem_nil _)
  | cons name names ih =>
    rw [List.forall_mem_cons, ← ih]
    constructor
    · rintro ⟨v, hv⟩
      obtain ⟨a, w, ha, hw, -⟩ := collect_cons_eq_ok.1 hv
      exact ⟨⟨a, ha⟩, ⟨w, hw⟩⟩
    · rintro ⟨⟨a, ha⟩, ⟨w, hw⟩⟩
      exact ⟨.cons a w, collect_cons_eq_ok.2 ⟨a, w, ha, hw, rfl⟩⟩

theorem collect_congr {f g : String → Except Failure α} (h : ∀ name ∈ names, f name = g name) :
    collect f names = collect g names := by
  induction names with
  | nil => rfl
  | cons name names ih =>
    obtain ⟨hname, hnames⟩ := List.forall_mem_cons.1 h
    rw [collect, collect, hname, ih hnames]

theorem collect_eq_iff {f g : String → Except Failure α} {v w : Values α names}
    (hf : collect f names = .ok v)
    (hg : collect g names = .ok w) : v = w ↔ ∀ name ∈ names, f name = g name := by
  induction v with
  | nil =>
    cases w
    simp
  | cons a v ih =>
    obtain ⟨_, _, ha, hv, h⟩ := collect_cons_eq_ok.1 hf
    cases h
    obtain ⟨b, w', hb, hw, rfl⟩ := collect_cons_eq_ok.1 hg
    rw [List.forall_mem_cons, ← ih hv hw, ha, hb]
    simp

theorem ofNames_eq_iff {f g : String → α} :
    ofNames f names = ofNames g names ↔ ∀ name ∈ names, f name = g name := by
  induction names with
  | nil => simp [ofNames]
  | cons name names ih => simp [ofNames, ih]

end Values

def RecordKind.keyName (kind : RecordKind) : String := kind.required.get kind.key

namespace Record

variable {kind : RecordKind}

theorem read_eq_ok {e : Element} {r : Record kind} :
    read kind e = .ok r ↔ Values.collect e.required kind.required = .ok r.required
      ∧ r.optional = Values.ofNames e.attribute? kind.optional := by
  obtain ⟨v, w⟩ := r
  rw [read]
  cases Values.collect e.required kind.required with
  | error e => simp [bind, Except.bind]
  | ok a => simp [bind, Except.bind, pure, Except.pure, eq_comm]

theorem exists_read_iff {e : Element} :
    (∃ r, read kind e = .ok r) ↔ ∀ name ∈ kind.required, e.Has name := by
  simp only [← Element.exists_required_iff]
  rw [← Values.exists_collect_iff]
  constructor
  · rintro ⟨r, hr⟩
    exact ⟨r.required, (read_eq_ok.1 hr).1⟩
  · rintro ⟨v, hv⟩
    exact ⟨⟨v, _⟩, read_eq_ok.2 ⟨hv, rfl⟩⟩

theorem attribute?_keyName {e : Element} {r : Record kind} (h : read kind e = .ok r) :
    e.attribute? kind.keyName = some r.key :=
  Element.required_eq_ok.1 (Values.get_collect (read_eq_ok.1 h).1 kind.key)

def Same (kind : RecordKind) (d e : Element) : Prop :=
  ∀ name ∈ kind.required ++ kind.optional, d.attribute? name = e.attribute? name

theorem Same.refl (e : Element) : Same kind e e := fun _ _ => rfl

theorem Same.symm {d e : Element} (h : Same kind d e) : Same kind e d :=
  fun name hn => (h name hn).symm

theorem Same.trans {c d e : Element} (h : Same kind c d) (h' : Same kind d e) : Same kind c e :=
  fun name hn => (h name hn).trans (h' name hn)

theorem required_congr {d e : Element} {name v w : String} (hd : d.required name = .ok v)
    (he : e.required name = .ok w) :
    d.required name = e.required name ↔ d.attribute? name = e.attribute? name := by
  rw [hd, he, Element.required_eq_ok.1 hd, Element.required_eq_ok.1 he, Except.ok.injEq,
    Option.some.injEq]

theorem exists_required_of_mem {e : Element} {r : Record kind} (h : read kind e = .ok r)
    {name : String} (hn : name ∈ kind.required) : ∃ v, e.required name = .ok v :=
  Element.exists_required_iff.2 (exists_read_iff.1 ⟨r, h⟩ name hn)

theorem eq_iff_same {d e : Element} {r s : Record kind} (hd : read kind d = .ok r)
    (he : read kind e = .ok s) : r = s ↔ Same kind d e := by
  have hr := read_eq_ok.1 hd
  have hs := read_eq_ok.1 he
  have hrequired : r.required = s.required ↔ ∀ name ∈ kind.required,
      d.attribute? name = e.attribute? name := by
    rw [Values.collect_eq_iff hr.1 hs.1]
    refine forall₂_congr fun name hn => ?_
    obtain ⟨v, hv⟩ := exists_required_of_mem hd hn
    obtain ⟨w, hw⟩ := exists_required_of_mem he hn
    exact required_congr hv hw
  have hoptional : r.optional = s.optional ↔ ∀ name ∈ kind.optional,
      d.attribute? name = e.attribute? name := by
    rw [hr.2, hs.2, Values.ofNames_eq_iff]
  rw [Same, List.forall_mem_append, ← hrequired, ← hoptional]
  cases r
  cases s
  simp

@[simp] theorem value_join (held new : Record kind) : (held.join new).value = held := by
  rw [join]
  split <;> rfl

@[simp] theorem clean_join (held new : Record kind) :
    (held.join new).clean = decide (new = held) := by
  rw [join]
  split
  · next h => simp [h]
  · next h => simp [h, Noted.clean, Report.errors, Finding.isError, Finding.severity]

theorem associative_join :
    Noted.Associative (join : Record kind → Record kind → Noted (Record kind)) where
  value a b c := by simp
  clean a b c := by
    rw [Bool.eq_iff_iff]
    simp only [value_join, clean_join, Bool.and_eq_true, decide_eq_true_eq]
    constructor
    · rintro ⟨rfl, rfl⟩
      exact ⟨rfl, rfl⟩
    · rintro ⟨rfl, rfl⟩
      exact ⟨rfl, rfl⟩

end Record

end Avionics.Exchange
