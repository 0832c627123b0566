import Avionics.Exchange.Platform
import Avionics.Proofs.Exchange.Record
import Avionics.Proofs.Keyed.Gather

/-! What a description makes of a list of elements: the outcome of reading them one by one
and merging, taken apart along the description. -/

namespace Avionics.Exchange

open Markup (Element)

def Directional.equiv {α : Type} : α × α ≃ Directional α where
  toFun p := ⟨p.2, p.1⟩
  invFun d := (d.consumed, d.produced)
  left_inv _ := rfl
  right_inv _ := rfl

namespace Schema

def joining : (s : Schema) → Joining s.Content
  | records _ => .keyed Record.associative_join
  | unsupported .. => {
    join := fun _ _ => pure ()
    unit := ()
    associative := ⟨fun _ _ _ => rfl, fun _ _ _ => rfl⟩
    left_unit := fun _ => ⟨rfl, rfl⟩
    right_unit := fun _ => ⟨rfl, rfl⟩ }
  | both s t => .pair s.joining t.joining
  | group _ s => .keyed s.joining.associative
  | part _ s => s.joining
  | option _ s => .option s.joining.associative
  | directional s => (Joining.pair s.joining s.joining).transport Directional.equiv

theorem join_joining (s : Schema) : s.joining.join = s.merge := by
  induction s with
  | records kind => rfl
  | unsupported tag what key => rfl
  | both s t ihs iht =>
    funext ⟨c, d⟩ ⟨c', d'⟩
    show Noted.joinPair s.joining.join t.joining.join (c, d) (c', d') = _
    rw [ihs, iht]
    rfl
  | group tag s ih =>
    show Keyed.merge s.joining.join = _
    rw [ih]
    rfl
  | part tag s ih => exact ih
  | option tag s ih =>
    show Noted.joinOption s.joining.join = _
    rw [ih]
    funext held new
    cases held <;> cases new <;> rfl
  | directional s ih =>
    funext held new
    show Directional.equiv <$> Noted.joinPair s.joining.join s.joining.join _ _ = _
    rw [ih]
    apply Noted.ext
    · rfl
    · rw [Noted.findings_map]
      rfl

theorem unit_joining (s : Schema) : s.joining.unit = s.empty := by
  induction s with
  | records kind => rfl
  | unsupported tag what key => rfl
  | both s t ihs iht => exact congrArg₂ Prod.mk ihs iht
  | group tag s ih => rfl
  | part tag s ih => exact ih
  | option tag s ih => rfl
  | directional s ih => exact congrArg₂ Directional.mk ih ih

def outcome (s : Schema) (e : Element) : Option (s.Content × Bool) := Reading.outcome (s.read e)

def total (s : Schema) (es : List Element) : Option (s.Content × Bool) :=
  s.joining.gather (es.map s.outcome)

theorem outcome_readAll (s : Schema) (es : List Element) :
    Reading.outcome (s.readAll s.read es) = s.total es := by
  rw [readAll]
  rw [s.joining.outcome_foldlM s.read _ (fun held e => by rw [join_joining]), ← unit_joining,
    Joining.unit_combine]
  rfl

@[simp] theorem total_singleton (s : Schema) (e : Element) : s.total [e] = s.outcome e :=
  s.joining.combine_unit _

theorem total_append (s : Schema) (ds es : List Element) :
    s.total (ds ++ es) = s.joining.combine (s.total ds) (s.total es) := by
  rw [total, List.map_append, Joining.gather_append]
  rfl

def childrenOf (es : List Element) (tag : String) : List Element := es.flatMap (·.childrenNamed tag)

@[simp] theorem childrenOf_singleton (e : Element) (tag : String) :
    childrenOf [e] tag = e.childrenNamed tag :=
  List.flatMap_singleton ..

theorem total_of_children {s : Schema} {f : Element → Option (s.Content × Bool)} {tag : String}
    (h : ∀ e, s.outcome e = s.joining.gather ((e.childrenNamed tag).map f)) (es : List Element) :
    s.total es = s.joining.gather ((childrenOf es tag).map f) := by
  rw [total, childrenOf, List.map_flatMap, Joining.gather_flatMap]
  congr 1
  exact List.map_congr_left fun e _ => h e

theorem total_childrenOf (s : Schema) (es : List Element) (tag : String) :
    s.total (childrenOf es tag) = s.joining.gather
    (es.map fun e => s.total (e.childrenNamed tag)) := by
  rw [total, childrenOf, List.map_flatMap, Joining.gather_flatMap]
  rfl

section Constructors

variable (kind : RecordKind) (tag what key : String) (s t : Schema) (es : List Element)

def recordOutcome (c : Element) : Option (Record kind × Bool) :=
  (Record.read kind c).toOption.map (·, true)

variable {kind} in
theorem recordOutcome_eq_some {c : Element} {r : Record kind} {p : Bool} :
    recordOutcome kind c = some (r, p) ↔ Record.read kind c = .ok r ∧ p = true := by
  rw [recordOutcome]
  cases Record.read kind c <;> simp [Except.toOption, eq_comm]

theorem outcome_record (c : Element) :
    Reading.outcome (do
      let r ← Record.read kind c
      return Keyed.single r.key r) = Joining.entry (c.attribute? kind.keyName)
        (recordOutcome kind c) := by
  rw [Reading.outcome_bind, Reading.outcome_liftExcept, recordOutcome]
  cases h : Record.read kind c with
  | error e => cases c.attribute? kind.keyName <;> rfl
  | ok r =>
    rw [Record.attribute?_keyName h]
    rfl

theorem outcome_named (c : Element) :
    Reading.outcome (do
      let name ← c.required "Name"
      let new ← s.read c
      return Keyed.single name new) = Joining.entry (c.attribute? "Name") (s.outcome c) := by
  rw [Reading.outcome_bind, Reading.outcome_liftExcept, Element.toOption_required]
  cases c.attribute? "Name" with
  | none => rfl
  | some name =>
    rw [Option.map_some, Option.bind_some, Reading.outcome_bind, outcome]
    cases Reading.outcome (s.read c) with
    | none => rfl
    | some v => simp [Joining.entry]

theorem total_records : (records kind).total es
    = (Joining.keyed Record.associative_join).gather ((childrenOf es kind.tag).map fun c =>
        Joining.entry (c.attribute? kind.keyName) (recordOutcome kind c)) := by
  apply total_of_children
  intro e
  simp only [← outcome_record]
  apply Joining.outcome_foldlM_absorb
  intro held c
  simp only [bind_assoc, pure_bind, Joining.merge_single]

theorem outcome_unsupported (e : Element) :
    (unsupported tag what key).outcome e = some ((), true) := by
  show Reading.outcome (forM (m := Reading) (e.childrenNamed tag) fun c =>
    liftM (Noted.note (.unsupported what ((c.attribute? key).getD "")))) = _
  induction e.childrenNamed tag with
  | nil => rfl
  | cons c cs ih =>
    rw [List.forM_cons, Reading.outcome_bind, Reading.outcome_lift, Option.bind_some, ih]
    rfl

theorem total_unsupported : (unsupported tag what key).total es = some ((), true) := by
  induction es with
  | nil => rfl
  | cons e es ih =>
    rw [total, List.map_cons, Joining.gather_cons, outcome_unsupported]
    exact congrArg ((unsupported tag what key).joining.combine (some ((), true))) ih

theorem total_both : (both s t).total es = Joining.both (s.total es) (t.total es) := by
  have h : ∀ e, (both s t).outcome e = Joining.both (s.outcome e) (t.outcome e) :=
    fun e => Joining.outcome_pair (s.read e) (t.read e)
  rw [total, List.map_congr_left fun e _ => h e]
  exact Joining.gather_both ..

theorem total_group : (group tag s).total es
    = (Joining.keyed s.joining.associative).gather ((childrenOf es tag).map fun c =>
        Joining.entry (c.attribute? "Name") (s.outcome c)) := by
  apply total_of_children
  intro e
  simp only [← outcome_named]
  apply Joining.outcome_foldlM_absorb
  intro held c
  simp only [bind_assoc, pure_bind, Joining.merge_single, join_joining]

theorem total_part : (part tag s).total es = s.total (childrenOf es tag) := by
  refine total_of_children (s := part tag s) (f := s.outcome) (fun e => ?_) es
  exact outcome_readAll s (e.childrenNamed tag)

theorem outcome_option (e : Element) :
    (option tag s).outcome e = (option tag s).joining.gather
    ((e.childrenNamed tag).map fun c => Joining.present (s.outcome c)) := by
  refine Eq.trans ?_ (Joining.gather_present s.joining s.outcome (e.childrenNamed tag)).symm
  rw [outcome, read]
  cases e.childrenNamed tag with
  | nil => rfl
  | cons c cs =>
    refine (Joining.outcome_present (s.readAll s.read (c :: cs))).trans ?_
    rw [outcome_readAll, if_neg (by simp)]
    rfl

theorem total_option : (option tag s).total es
    = if childrenOf es tag = [] then some (none, true) else Joining.present
    (s.total (childrenOf es tag)) := by
  rw [total_of_children (outcome_option tag s)]
  exact Joining.gather_present s.joining s.outcome (childrenOf es tag)

theorem outcome_directional {α : Type} (x y : Reading α) :
    Reading.outcome (do
      let consumed ← x
      let produced ← y
      return (⟨produced, consumed⟩ : Directional α))
    = (Joining.both (Reading.outcome x) (Reading.outcome y)).map fun c =>
    (Directional.equiv c.1, c.2) := by
  rw [Reading.outcome_bind]
  cases Reading.outcome x with
  | none => rfl
  | some a =>
    rw [Option.bind_some, Reading.outcome_bind]
    cases Reading.outcome y with
    | none => rfl
    | some b => simp [Joining.both, Directional.equiv]

theorem total_directional : (directional s).total es
    = (Joining.both (s.total (childrenOf es "ConsumedData"))
      (s.total (childrenOf es "ProducedData"))).map
        fun c => (Directional.equiv c.1, c.2) := by
  have h : ∀ e, (directional s).outcome e
      = (Joining.both (s.total (e.childrenNamed "ConsumedData"))
        (s.total (e.childrenNamed "ProducedData"))).map
          fun c => (Directional.equiv c.1, c.2) := by
    intro e
    refine (outcome_directional (s.readAll s.read (e.childrenNamed "ConsumedData"))
      (s.readAll s.read (e.childrenNamed "ProducedData"))).trans ?_
    rw [outcome_readAll, outcome_readAll]
  rw [total, List.map_congr_left fun e _ => h e, total_childrenOf,
    total_childrenOf, ← Joining.gather_both,
    ← Joining.gather_transport, List.map_map]
  rfl

end Constructors

end Schema

theorem Platform.findings_merge (held new : Platform) :
    (held.merge new).findings = (Schema.platform.merge held.content new.content).findings :=
  List.append_nil _

end Avionics.Exchange
