import Avionics.Network.Document
import Avionics.Proofs.Network.Allocation
import Avionics.Proofs.Related

/-! Reading flat documents with an allocator.  A document demands an endpoint for each of
its channels, in their order, until one cannot be read or its type has no endpoint left. -/

namespace Avionics

open Markup (Element)

namespace Allocating

variable {α β : Type} {x : Allocating α} {a c : Allocator}

theorem mapM_cons (f : α → Allocating β) (e : α) (es : List α) : (e :: es).mapM f = (do
    let v ← f e
    let vs ← es.mapM f
    return v :: vs) := List.mapM_cons

theorem forall₂_of_mapM {f : α → Allocating β} {es : List α} {vs : List β}
    (h : (es.mapM f).run.run a = (.ok vs, c)) :
    List.Forall₂ (fun e v => ∃ a c, (f e).run.run a = (.ok v, c)) es vs := by
  induction es generalizing a vs with
  | nil =>
    cases h
    exact .nil
  | cons e es ih =>
    rw [mapM_cons, Stateful.bind_eq_ok] at h
    obtain ⟨v, b, he, h⟩ := h
    obtain ⟨vs, d, hes, hvs⟩ := Stateful.bind_eq_ok.1 h
    cases hvs
    exact .cons ⟨a, b, he⟩ (ih hes)

end Allocating

structure Served where
  calls : List Call := []
  failure : Option Failure := none
  cursors : Allocator

def Served.followed (s : Served) (later : Allocator → Served) : Served :=
  match s.failure with
  | some _ => s
  | none => { later s.cursors with calls := s.calls ++ (later s.cursors).calls }

namespace Allocator

/-- Makes the calls for demands one by one, until one fails or a demand is itself a failure. -/
def serve : List (Except Failure ChannelType) → Allocator → Served
  | [], a => { cursors := a }
  | .error f :: _, a => { failure := some f, cursors := a }
  | .ok t :: ds, a =>
    match (allocate t).run.run a with
    | (.error f, b) => { calls := [⟨t, .error f⟩], failure := some f, cursors := b }
    | (.ok e, b) => { serve ds b with calls := ⟨t, .ok e⟩ :: (serve ds b).calls }

section Serve

variable {a b : Allocator} {t : ChannelType} (ds es : List (Except Failure ChannelType))

theorem serve_of_error {f : Failure} (h : (allocate t).run.run a = (.error f, b)) :
    serve (.ok t :: ds) a = { calls := [⟨t, .error f⟩], failure := some f, cursors := b } := by
  rw [serve, h]

theorem serve_of_ok {e : Endpoint} (h : (allocate t).run.run a = (.ok e, b)) :
    serve (.ok t :: ds) a = { serve ds b with calls := ⟨t, .ok e⟩ :: (serve ds b).calls } := by
  rw [serve, h]

theorem serve_append (a : Allocator) : serve (ds ++ es) a = (serve ds a).followed (serve es) := by
  induction ds generalizing a with
  | nil => rfl
  | cons d ds ih =>
    cases d with
    | error f => rfl
    | ok t =>
      rw [List.cons_append]
      rcases hrun : (allocate t).run.run a with ⟨f | e, b⟩
      · rw [serve_of_error _ hrun, serve_of_error _ hrun]
        rfl
      · rw [serve_of_ok _ hrun, serve_of_ok _ hrun, ih, Served.followed, Served.followed]
        cases (serve ds b).failure <;> rfl

theorem serve_flatMap_congr {γ : Type} {f g : γ → List (Except Failure ChannelType)}
    (h : ∀ c a, serve (f c) a = serve (g c) a)
    (cs : List γ) (a : Allocator) : serve (cs.flatMap f) a = serve (cs.flatMap g) a := by
  induction cs generalizing a with
  | nil => rfl
  | cons c cs ih =>
    rw [List.flatMap_cons, List.flatMap_cons, serve_append, serve_append, h, funext ih]

theorem calls_serve (a : Allocator) : Calls a (serve ds a).calls (serve ds a).cursors := by
  induction ds generalizing a with
  | nil => exact .start
  | cons d ds ih =>
    cases d with
    | error f => exact .start
    | ok t =>
      rcases hrun : (allocate t).run.run a with ⟨f | e, b⟩
      · rw [serve_of_error _ hrun]
        exact .single hrun
      · rw [serve_of_ok _ hrun]
        exact (Calls.single hrun).trans (ih b)

theorem serve_of_room {ts : List ChannelType}
    (hroom : ∀ t ∈ ts, ∃ base, a.peek t = some base ∧ base.port.toNat + ts.count t ≤ 65535) :
    (serve (ts.map .ok) a).failure = none := by
  induction ts generalizing a with
  | nil => rfl
  | cons t ts ih =>
    obtain ⟨base, hbase, hcount⟩ := hroom t List.mem_cons_self
    rw [List.count_cons_self] at hcount
    have hmore : base.port.toNat ≠ 65535 := by omega
    rw [List.map_cons, serve_of_ok _ (allocate_assigned hbase hmore)]
    refine ih fun u hu => ?_
    rw [peek, Keyed.get?_insert]
    by_cases hut : u = t
    · subst hut
      have hport : (base.advance 1).port.toNat = base.port.toNat + 1 :=
        Endpoint.toNat_port_advance (by omega)
      exact ⟨base.advance 1, if_pos rfl, by omega⟩
    · obtain ⟨other, hother, hcount⟩ := hroom u (List.mem_cons_of_mem t hu)
      rw [List.count_cons_of_ne (Ne.symm hut)] at hcount
      exact ⟨other, (if_neg hut).trans hother, hcount⟩

end Serve

/-- A computation makes the calls for some demands, which can be read off its result. -/
structure Meets {α : Type} (x : Allocating α) (demands : List (Except Failure ChannelType))
    (calls : α → List Call) : Prop where
  ok {a b : Allocator} {v : α} : x.run.run a = (.ok v, b) →
    serve demands a = { calls := calls v, cursors := b }
  error {a b : Allocator} {f : Failure} : x.run.run a = (.error f, b) →
    ∃ cs, serve demands a = { calls := cs, failure := some f, cursors := b }

/-- There is a result exactly when all is served, and the cursors are those of the service
in any case. -/
theorem Meets.run_eq {α : Type} {x : Allocating α} {demands : List (Except Failure ChannelType)}
    {calls : α → List Call} (h : Meets x demands calls) (a : Allocator) :
    ((∃ v, (x.run.run a).1 = .ok v) ↔ (serve demands a).failure = none)
      ∧ (x.run.run a).2 = (serve demands a).cursors := by
  rcases hrun : x.run.run a with ⟨f | v, b⟩
  · obtain ⟨cs, hcs⟩ := h.error hrun
    rw [hcs]
    exact ⟨iff_of_false nofun nofun, rfl⟩
  · rw [h.ok hrun]
    exact ⟨iff_of_true ⟨v, rfl⟩ rfl, rfl⟩

theorem Meets.exists_of_served {α : Type} {x : Allocating α}
    {demands : List (Except Failure ChannelType)}
    {calls : α → List Call} (h : Meets x demands calls) {a : Allocator}
    (hserved : (serve demands a).failure = none) : ∃ v b, x.run.run a = (.ok v, b) := by
  obtain ⟨v, hv⟩ := (h.run_eq a).1.2 hserved
  exact ⟨v, _, Prod.ext hv rfl⟩

theorem Meets.mapM {α β : Type} {f : α → Allocating β}
    {demands : α → List (Except Failure ChannelType)}
    {calls : β → List Call} (h : ∀ e, Meets (f e) (demands e) calls) (es : List α) :
    Meets (es.mapM f) (es.flatMap demands) (·.flatMap calls) := by
  induction es with
  | nil => exact ⟨fun hrun => by cases hrun; rfl, nofun⟩
  | cons e es ih =>
    rw [List.flatMap_cons, Allocating.mapM_cons]
    constructor
    · intro a c vs hrun
      obtain ⟨v, b, he, hrun⟩ := Stateful.bind_eq_ok.1 hrun
      obtain ⟨vs, d, hes, hvs⟩ := Stateful.bind_eq_ok.1 hrun
      cases hvs
      rw [serve_append, (h e).ok he, Served.followed, ih.ok hes]
      rfl
    · intro a c g hrun
      rw [serve_append]
      rcases Stateful.bind_eq_error.1 hrun with he | ⟨v, b, he, hrun⟩
      · obtain ⟨cs, hcs⟩ := (h e).error he
        rw [hcs]
        exact ⟨cs, rfl⟩
      · rcases Stateful.bind_eq_error.1 hrun with hes | ⟨vs, d, hes, hrun⟩
        · obtain ⟨cs, hcs⟩ := ih.error hes
          rw [(h e).ok he, Served.followed, hcs]
          exact ⟨_, rfl⟩
        · cases hrun

end Allocator

def Channel.call? (c : Channel) : Option Call := c.endpoint.map fun e => ⟨c.type, .ok e⟩

namespace Document

open Allocator (Meets serve allocate serve_of_ok serve_of_error)

def channelDemand (e : Element) : Except Failure ChannelType := (Channel.read e).map (·.type)

def componentDemands (e : Element) : List (Except Failure ChannelType) :=
  match e.required "Name" with
  | .ok _ => e.children.map channelDemand
  | .error f => [.error f]

def demands (root : Element) : List (Except Failure ChannelType) :=
  if root.name ≠ rootName then [.error (.unexpectedRoot rootName root.name)]
  else (root.childrenNamed componentTag).flatMap componentDemands

def channels (d : Document) : List Channel := d.components.flatMap (·.channels)

def calls (d : Document) : List Call :=
  d.components.flatMap fun c => c.channels.filterMap Channel.call?

theorem filterMap_call?_channels (d : Document) : d.channels.filterMap Channel.call? = d.calls :=
  List.filterMap_flatMap

section Read

variable {e root : Element} {a b : Allocator} {f : Failure}

theorem readChannel_eq_ok {c : Channel} : (readChannel e).run.run a = (.ok c, b) ↔ ∃ read endpoint,
    Channel.read e = .ok read ∧ (allocate read.type).run.run a = (.ok endpoint, b)
      ∧ { read with endpoint := some endpoint } = c := by
  constructor
  · intro hrun
    obtain ⟨read, _, hlift, hrun⟩ := Stateful.bind_eq_ok.1 hrun
    obtain ⟨hread, rfl⟩ := Stateful.liftM_eq.1 hlift
    obtain ⟨endpoint, _, hallocate, hpure⟩ := Stateful.bind_eq_ok.1 hrun
    cases hpure
    exact ⟨read, endpoint, hread, hallocate, rfl⟩
  · rintro ⟨read, endpoint, hread, hallocate, rfl⟩
    refine Stateful.bind_eq_ok.2 ⟨read, a, Stateful.liftM_eq.2 ⟨hread, rfl⟩, ?_⟩
    exact Stateful.bind_eq_ok.2 ⟨endpoint, b, hallocate, rfl⟩

theorem readChannel_eq_error : (readChannel e).run.run a = (.error f, b)
    ↔ Channel.read e = .error f ∧ a = b ∨ ∃ read, Channel.read e = .ok read
      ∧ (allocate read.type).run.run a = (.error f, b) := by
  constructor
  · intro hrun
    rcases Stateful.bind_eq_error.1 hrun with hlift | ⟨read, _, hlift, hrun⟩
    · exact .inl (Stateful.liftM_eq.1 hlift)
    · obtain ⟨hread, rfl⟩ := Stateful.liftM_eq.1 hlift
      rcases Stateful.bind_eq_error.1 hrun with hallocate | ⟨_, _, _, hrun⟩
      · exact .inr ⟨read, hread, hallocate⟩
      · cases hrun
  · rintro (⟨hread, rfl⟩ | ⟨read, hread, hallocate⟩)
    · exact Stateful.bind_eq_error.2 (.inl (Stateful.liftM_eq.2 ⟨hread, rfl⟩))
    · refine Stateful.bind_eq_error.2 (.inr ⟨read, a, Stateful.liftM_eq.2 ⟨hread, rfl⟩, ?_⟩)
      exact Stateful.bind_eq_error.2 (.inl hallocate)

theorem readComponent_eq_ok {c : Component} : (readComponent e).run.run a = (.ok c, b) ↔
    e.required "Name" = .ok c.name ∧ (e.children.mapM readChannel).run.run a
      = (.ok c.channels, b) := by
  constructor
  · intro hrun
    obtain ⟨name, _, hlift, hrun⟩ := Stateful.bind_eq_ok.1 hrun
    obtain ⟨hname, rfl⟩ := Stateful.liftM_eq.1 hlift
    obtain ⟨channels, _, hchannels, hpure⟩ := Stateful.bind_eq_ok.1 hrun
    cases hpure
    exact ⟨hname, hchannels⟩
  · rintro ⟨hname, hchannels⟩
    refine Stateful.bind_eq_ok.2 ⟨c.name, a, Stateful.liftM_eq.2 ⟨hname, rfl⟩, ?_⟩
    exact Stateful.bind_eq_ok.2 ⟨c.channels, b, hchannels, rfl⟩

theorem read_eq_ok {d : Document} : (read root).run.run a = (.ok d, b) ↔ root.name = rootName
    ∧ ((root.childrenNamed componentTag).mapM readComponent).run.run a = (.ok d.components, b) := by
  rw [read]
  by_cases hroot : root.name = rootName
  · rw [if_neg (not_not.2 hroot)]
    constructor
    · intro hrun
      obtain ⟨components, _, hcomponents, hrun⟩ := Stateful.bind_eq_ok.1 hrun
      cases hrun
      exact ⟨hroot, hcomponents⟩
    · rintro ⟨-, hcomponents⟩
      exact Stateful.bind_eq_ok.2 ⟨d.components, b, hcomponents, rfl⟩
  · rw [if_pos hroot]
    constructor
    · intro hrun
      obtain ⟨_, _, hrun, -⟩ := Stateful.bind_eq_ok.1 hrun
      cases hrun
    · rintro ⟨h, -⟩
      exact absurd h hroot

theorem channelDemand_of_ok {c : Channel} (h : Channel.read e = .ok c) :
    channelDemand e = .ok c.type := by
  rw [channelDemand, h]
  rfl

theorem meets_readChannel (e : Element) :
    Meets (readChannel e) [channelDemand e] fun c => c.call?.toList := by
  constructor
  · intro a b c hrun
    obtain ⟨read, endpoint, hread, hallocate, rfl⟩ := readChannel_eq_ok.1 hrun
    rw [channelDemand_of_ok hread, serve_of_ok _ hallocate]
    rfl
  · intro a b f hrun
    rcases readChannel_eq_error.1 hrun with ⟨hread, rfl⟩ | ⟨read, hread, hallocate⟩
    · rw [channelDemand, hread]
      exact ⟨[], rfl⟩
    · rw [channelDemand_of_ok hread, serve_of_error _ hallocate]
      exact ⟨_, rfl⟩

theorem meets_readComponent (e : Element) :
    Meets (readComponent e) (componentDemands e) fun c => c.channels.filterMap Channel.call? := by
  have hchannels : Meets (e.children.mapM readChannel) (e.children.map channelDemand)
      (·.filterMap Channel.call?) := by
    have h := Meets.mapM meets_readChannel e.children
    rw [← List.map_eq_flatMap] at h
    simpa only [List.filterMap_eq_flatMap_toList] using h
  constructor
  · intro a b c hrun
    obtain ⟨hname, hrun⟩ := readComponent_eq_ok.1 hrun
    rw [componentDemands, hname, hchannels.ok hrun]
  · intro a b f hrun
    rw [componentDemands]
    rcases Stateful.bind_eq_error.1 hrun with hlift | ⟨name, _, hlift, hrun⟩
    · obtain ⟨hname, rfl⟩ := Stateful.liftM_eq.1 hlift
      rw [hname]
      exact ⟨[], rfl⟩
    · obtain ⟨hname, rfl⟩ := Stateful.liftM_eq.1 hlift
      rw [hname]
      rcases Stateful.bind_eq_error.1 hrun with hrun | ⟨_, _, _, hrun⟩
      · exact hchannels.error hrun
      · cases hrun

theorem meets_read (root : Element) : Meets (read root) (demands root) calls := by
  have hcomponents := Meets.mapM meets_readComponent (root.childrenNamed componentTag)
  constructor
  · intro a b d hrun
    obtain ⟨hroot, hrun⟩ := read_eq_ok.1 hrun
    rw [demands, if_neg (not_not.2 hroot), hcomponents.ok hrun]
    rfl
  · intro a b f hrun
    rw [read] at hrun
    rw [demands]
    by_cases hroot : root.name = rootName
    · rw [if_neg (not_not.2 hroot)] at hrun
      rw [if_neg (not_not.2 hroot)]
      rcases Stateful.bind_eq_error.1 hrun with hrun | ⟨_, _, _, hrun⟩
      · exact hcomponents.error hrun
      · cases hrun
    · rw [if_pos hroot] at hrun
      rw [if_pos hroot]
      cases hrun
      exact ⟨[], rfl⟩

def ReadsChannel (e : Element) (c : Channel) : Prop :=
  ∃ read endpoint, Channel.read e = .ok read ∧ { read with endpoint := some endpoint } = c

def ReadsComponent (e : Element) (c : Component) : Prop :=
  e.required "Name" = .ok c.name ∧ List.Forall₂ ReadsChannel e.children c.channels

def Reads (root : Element) (d : Document) : Prop :=
  root.name = rootName ∧ List.Forall₂ ReadsComponent (root.childrenNamed componentTag) d.components

theorem reads_of_run {d : Document} (h : (read root).run.run a = (.ok d, b)) : Reads root d := by
  obtain ⟨hroot, hcomponents⟩ := read_eq_ok.1 h
  refine ⟨hroot, (Allocating.forall₂_of_mapM hcomponents).imp ?_⟩
  rintro e c ⟨a, b, hcomponent⟩
  obtain ⟨hname, hchannels⟩ := readComponent_eq_ok.1 hcomponent
  refine ⟨hname, (Allocating.forall₂_of_mapM hchannels).imp ?_⟩
  rintro e c ⟨a, b, hchannel⟩
  obtain ⟨read, endpoint, hread, -, hc⟩ := readChannel_eq_ok.1 hchannel
  exact ⟨read, endpoint, hread, hc⟩

theorem Reads.endpoint {d : Document} (h : Reads root d) :
    ∀ c ∈ d.channels, ∃ e, c.endpoint = some e := by
  intro c hc
  obtain ⟨component, hcomponent, hc⟩ := List.mem_flatMap.1 hc
  obtain ⟨_, _, _, hchannels⟩ := exists_left_of_forall₂ h.2 component hcomponent
  obtain ⟨_, _, read, endpoint, -, rfl⟩ := exists_left_of_forall₂ hchannels c hc
  exact ⟨endpoint, rfl⟩

end Read

end Document

end Avionics
