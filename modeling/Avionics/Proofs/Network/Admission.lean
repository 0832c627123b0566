import Avionics.Proofs.Network.Grammar
import Avionics.Proofs.Network.Reading

namespace Avionics

open Markup (Element)

theorem ChannelType.tag_injective : Function.Injective tag := fun t u h =>
  Except.ok.inj ((ofTag_tag t).symm.trans (h ▸ ofTag_tag u))

namespace Document

open Allocator (serve allocate_unknown allocate_exhausted allocate_assigned serve_of_error
    serve_of_ok)

inductive Station
  | root (e : Element)
  | component (e : Element)
  | channel (e : Element)

def stations (root : Element) : List Station :=
  .root root :: (root.childrenNamed componentTag).flatMap fun e =>
    .component e :: e.children.map .channel

namespace Station

def Formed : Station → Prop
  | root e => e.name = rootName
  | component e => e.Has "Name"
  | channel e => Channel.Formed e

def carries (t : ChannelType) : Station → Bool
  | root _ | component _ => false
  | channel e => e.name = t.tag

def number (t : ChannelType) (ss : List Station) : Nat := ss.countP (carries t)

structure Passes (a : Allocator) (earlier : List Station) (s : Station) : Prop where
  formed : s.Formed
  room : ∀ t, s.carries t = true → ∃ base, a.peek t = some base
    ∧ base.port.toNat + number t earlier < 65535

def demands : Station → List (Except Failure ChannelType)
  | root e => if e.name ≠ rootName then [.error (.unexpectedRoot rootName e.name)] else []
  | component e =>
    match e.required "Name" with
    | .ok _ => []
    | .error f => [.error f]
  | channel e => [channelDemand e]

theorem number_concat (t : ChannelType) (ss : List Station) (s : Station) :
    number t (ss ++ [s]) = number t ss + if s.carries t then 1 else 0 := by
  rw [number, List.countP_append, List.countP_singleton]
  rfl

structure Reached (a : Allocator) (passed : List Station) (b : Allocator) : Prop where
  passes : ∀ earlier s later, passed = earlier ++ s :: later → s.Passes a earlier
  cursors : ∀ t, b.peek t = (a.peek t).map (·.advance (number t passed))
  room : ∀ t base, a.peek t = some base → base.port.toNat + number t passed ≤ 65535

namespace Reached

variable {a b c : Allocator} {passed : List Station} {s : Station}

theorem start (a : Allocator) : Reached a [] a where
  passes earlier s later h := by simp at h
  cursors t := by simp [number]
  room t base _ := Nat.le_of_lt_succ base.port.toNat_lt

theorem concat (h : Reached a passed b) (hs : s.Passes a passed)
    (hc : ∀ t, c.peek t = if s.carries t then (b.peek t).map (·.advance 1) else b.peek t) :
    Reached a (passed ++ [s]) c where
  passes earlier s' later heq := by
    rcases List.eq_nil_or_concat later with rfl | ⟨later, last, rfl⟩
    · obtain ⟨rfl, hlast⟩ := List.append_inj' heq rfl
      cases hlast
      exact hs
    · rw [List.concat_eq_append, ← List.cons_append, ← List.append_assoc] at heq
      exact h.passes earlier s' later (List.append_inj' heq rfl).1
  cursors t := by
    rw [hc, h.cursors, number_concat]
    split
    · rw [Option.map_map]
      simp only [Function.comp_def, Endpoint.advance_advance]
    · rfl
  room t base hbase := by
    rw [number_concat]
    split
    · next ht =>
      obtain ⟨_, hbase', hroom⟩ := hs.room t ht
      cases hbase.symm.trans hbase'
      omega
    · exact h.room t base hbase

/-- What becomes of the demands of the next station: they are served when it is passed,
and otherwise the cursors stay. -/
inductive Onward (a : Allocator) (passed : List Station) (b : Allocator) (s : Station)
    (served : Served) : Prop
  | gone : s.Passes a passed → served.failure = none → Reached a (passed ++ [s]) served.cursors →
      Onward a passed b s served
  | stopped : ¬s.Passes a passed → served.failure ≠ none → served.cursors = b →
      Onward a passed b s served

theorem onward_of_failure (hs : ¬s.Passes a passed) (f : Failure) (calls : List Call) :
    Onward a passed b s { calls := calls, failure := some f, cursors := b } :=
  .stopped hs (Option.some_ne_none f) rfl

theorem onward_of_formed (h : Reached a passed b) (hs : s.Formed)
    (hcarries : ∀ t, s.carries t = false) : Onward a passed b s { cursors := b } := by
  have hpasses : s.Passes a passed :=
    ⟨hs, fun t ht => absurd ((hcarries t).symm.trans ht) Bool.false_ne_true⟩
  exact .gone hpasses rfl (h.concat hpasses fun t => by rw [hcarries, if_neg Bool.false_ne_true])

theorem step_of_read (h : Reached a passed b) {e : Element} {read : Channel}
    (hread : Channel.read e = .ok read) :
    Onward a passed b (channel e) (serve [.ok read.type] b) := by
  have htype : e.name = read.type.tag := (Channel.read_eq_ok.1 hread).1
  have hcarries : ∀ t, (channel e).carries t = true ↔ t = read.type := fun t =>
    decide_eq_true_iff.trans ⟨fun ht => ChannelType.tag_injective (ht.symm.trans htype),
      fun ht => ht ▸ htype⟩
  have hcursor := h.cursors read.type
  cases hbase : a.peek read.type with
  | none =>
    rw [hbase] at hcursor
    rw [serve_of_error _ (allocate_unknown hcursor)]
    refine onward_of_failure (fun hpasses => ?_) _ _
    obtain ⟨base, hsome, -⟩ := hpasses.room read.type ((hcarries _).2 rfl)
    cases hbase.symm.trans hsome
  | some base =>
    rw [hbase, Option.map_some] at hcursor
    have hroom := h.room read.type base hbase
    have hport := Endpoint.toNat_port_advance hroom
    by_cases hlast : base.port.toNat + number read.type passed = 65535
    · rw [serve_of_error _ (allocate_exhausted hcursor (hport.trans hlast))]
      refine onward_of_failure (fun hpasses => ?_) _ _
      obtain ⟨_, hsome, hmore⟩ := hpasses.room read.type ((hcarries _).2 rfl)
      cases hbase.symm.trans hsome
      exact Nat.ne_of_lt hmore hlast
    · have hpasses : (channel e).Passes a passed := by
        refine ⟨Channel.exists_read_iff.1 ⟨read, hread⟩, fun t ht => ?_⟩
        cases (hcarries t).1 ht
        exact ⟨base, hbase, Nat.lt_of_le_of_ne hroom hlast⟩
      rw [serve_of_ok _ (allocate_assigned hcursor (hport ▸ hlast))]
      refine .gone hpasses rfl (h.concat hpasses fun t => ?_)
      show Keyed.get? (Keyed.insert b read.type _) t = _
      rw [Keyed.get?_insert]
      by_cases ht : t = read.type
      · rw [if_pos ht, ht, if_pos ((hcarries _).2 rfl), hcursor]
        rfl
      · rw [if_neg ht, if_neg (mt (hcarries t).1 ht)]
        rfl

theorem step (h : Reached a passed b) (s : Station) : Onward a passed b s (serve s.demands b) := by
  cases s with
  | root e =>
    rw [demands]
    by_cases hname : e.name = rootName
    · rw [if_neg (not_not.2 hname)]
      exact h.onward_of_formed hname fun _ => rfl
    · rw [if_pos hname]
      refine onward_of_failure (fun hpasses => ?_) _ _
      exact hname hpasses.formed
  | component e =>
    rw [demands]
    cases hname : e.required "Name" with
    | ok name => exact h.onward_of_formed ⟨name, Element.required_eq_ok.1 hname⟩ fun _ => rfl
    | error f =>
      refine onward_of_failure (fun hpasses => ?_) _ _
      obtain ⟨name, hok⟩ := Element.exists_required_iff.2 hpasses.formed
      cases hname.symm.trans hok
  | channel e =>
    rw [demands]
    cases hread : Channel.read e with
    | error f =>
      rw [channelDemand, hread]
      refine onward_of_failure (fun hpasses => ?_) _ _
      obtain ⟨read, hok⟩ := Channel.exists_read_iff.2 hpasses.formed
      cases hread.symm.trans hok
    | ok read =>
      rw [channelDemand_of_ok hread]
      exact h.step_of_read hread

end Reached

/-- The stations up to the first that is not passed, and the cursors behind them. -/
theorem exists_reached (ss : List Station) (a : Allocator) :
    ∃ passed, Reached a passed (serve (ss.flatMap demands) a).cursors
    ∧ ((serve (ss.flatMap demands) a).failure = none ∧ passed = ss
      ∨ (serve (ss.flatMap demands) a).failure ≠ none ∧ ∃ s later, ss = passed ++ s :: later
        ∧ ¬s.Passes a passed) := by
  induction ss using List.reverseRecOn with
  | nil => exact ⟨[], .start a, .inl ⟨rfl, rfl⟩⟩
  | append_singleton ss s ih =>
    obtain ⟨passed, hreached, hend⟩ := ih
    rw [List.flatMap_append, List.flatMap_singleton, Allocator.serve_append, Served.followed]
    rcases hend with ⟨hnone, rfl⟩ | ⟨hfailure, t, later, rfl, ht⟩
    · rw [hnone]
      cases hreached.step s with
      | gone _ hserved hnext => exact ⟨passed ++ [s], hnext, .inl ⟨hserved, rfl⟩⟩
      | stopped hs hfailure hsame =>
        exact ⟨passed, hsame.symm ▸ hreached, .inr ⟨hfailure, s, [], rfl, hs⟩⟩
    · -- What stopped the reading before stops it with more stations behind.
      obtain ⟨f, hf⟩ := Option.ne_none_iff_exists'.1 hfailure
      rw [hf]
      exact ⟨passed, hreached, .inr ⟨hfailure, t, later ++ [s], by simp, ht⟩⟩

end Station

theorem serve_demands (root : Element) (a : Allocator) :
    serve (demands root) a = serve ((stations root).flatMap Station.demands) a := by
  rw [demands, stations, List.flatMap_cons, Station.demands]
  split
  · rfl
  · rw [List.nil_append, List.flatMap_assoc]
    refine Allocator.serve_flatMap_congr (fun e a => ?_) _ a
    rw [List.flatMap_cons, List.flatMap_map, componentDemands, Station.demands]
    cases e.required "Name" with
    | error f => rfl
    | ok name => rw [List.nil_append, List.map_eq_flatMap]; rfl

theorem number_stations (t : ChannelType) (root : Element) :
    Station.number t (stations root) = declared t root := by
  rw [Station.number, stations, List.countP_cons_of_neg Bool.false_ne_true, declared,
    List.countP_flatMap, List.countP_flatMap]
  refine congrArg List.sum (List.map_congr_left fun e _ => ?_)
  show List.countP _ (_ :: _) = _
  rw [List.countP_cons_of_neg Bool.false_ne_true, List.countP_map]
  rfl

theorem forall_stations_iff {root : Element} : (∀ s ∈ stations root, s.Formed) ↔ Formed root := by
  simp only [stations, List.forall_mem_cons, List.forall_mem_flatMap, List.forall_mem_map]
  constructor
  · rintro ⟨hroot, hcomponents⟩
    exact ⟨hroot, fun e he => (hcomponents e he).1, fun e he => (hcomponents e he).2⟩
  · rintro ⟨hroot, hcomponents, hchannels⟩
    exact ⟨hroot, fun e he => ⟨hcomponents e he, hchannels e he⟩⟩

theorem exists_run_iff (root : Element) (a : Allocator) :
    (∃ d, ((read root).run.run a).1 = .ok d) ↔ Formed root
    ∧ ∀ t, declared t root ≠ 0 → ∃ base, a.peek t = some base
      ∧ base.port.toNat + declared t root ≤ 65535 := by
  obtain ⟨passed, hreached, hend⟩ := Station.exists_reached (stations root) a
  rw [((meets_read root).run_eq a).1, serve_demands, ← forall_stations_iff]
  simp only [← number_stations]
  rcases hend with ⟨hserved, rfl⟩ | ⟨hfailure, s, later, hstations, hs⟩
  · refine iff_of_true hserved ⟨fun s hs => ?_, fun t ht => ?_⟩
    · obtain ⟨earlier, later, hsplit⟩ := List.append_of_mem hs
      exact (hreached.passes earlier s later hsplit).formed
    · obtain ⟨s, hs, hcarries⟩ := List.countP_pos_iff.1 (Nat.pos_of_ne_zero ht)
      obtain ⟨earlier, later, hsplit⟩ := List.append_of_mem hs
      obtain ⟨base, hbase, -⟩ := (hreached.passes earlier s later hsplit).room t hcarries
      exact ⟨base, hbase, hreached.room t base hbase⟩
  · refine iff_of_false hfailure fun ⟨hformed, hroom⟩ => hs ⟨?_, fun t ht => ?_⟩
    · exact hformed s (hstations ▸ List.mem_append_right passed List.mem_cons_self)
    · have hnumber : Station.number t passed + 1 ≤ Station.number t (stations root) := by
        rw [hstations, Station.number, Station.number, List.countP_append,
          List.countP_cons_of_pos ht]
        omega
      obtain ⟨base, hbase, hbudget⟩ :=
        hroom t (Nat.ne_of_gt (Nat.lt_of_lt_of_le (Nat.succ_pos _) hnumber))
      exact ⟨base, hbase, by omega⟩

theorem read_admits (root : Element) (a : Allocator) :
    ((∃ d, ((read root).run.run a).1 = .ok d) ↔ Formed root
      ∧ ∀ t, declared t root ≠ 0 → ∃ base, a.peek t = some base
        ∧ base.port.toNat + declared t root ≤ 65535)
    ∧ read (essential root) = read root
    ∧ ∃ passed, Station.Reached a passed ((read root).run.run a).2
      ∧ ((∃ d, ((read root).run.run a).1 = .ok d) ∧ passed = stations root
        ∨ (∃ f, ((read root).run.run a).1 = .error f) ∧ ∃ s later,
          stations root = passed ++ s :: later ∧ ¬s.Passes a passed) := by
  refine ⟨exists_run_iff root a, read_essential root, ?_⟩
  obtain ⟨hok, hcursors⟩ := (meets_read root).run_eq a
  obtain ⟨passed, hreached, hend⟩ := Station.exists_reached (stations root) a
  rw [← serve_demands, ← hcursors] at hreached
  rw [← serve_demands, ← hok, ne_eq, ← hok] at hend
  refine ⟨passed, hreached, hend.imp_right fun ⟨hfailed, hstopped⟩ => ⟨?_, hstopped⟩⟩
  cases hresult : ((read root).run.run a).1 with
  | error f => exact ⟨f, rfl⟩
  | ok d => exact absurd ⟨d, hresult⟩ hfailed

end Document

end Avionics
