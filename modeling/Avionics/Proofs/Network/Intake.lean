import Avionics.Proofs.Network.Reading
import Avionics.Proofs.Network.Registry

namespace Avionics

open Allocator (Calls Answers allocate granted serve)
open Markup (Element)
open Network (declarations)

structure Intake where
  calls : List Call := []
  documents : List Document := []
  cursors : Allocator

namespace Network

theorem declarations_concat (docs : List Document) (d : Document) :
    declarations (docs ++ [d]) = declarations docs ++ d.channels := by
  rw [declarations, List.flatMap_append, List.flatMap_singleton, declarations, Document.channels]

end Network

namespace Intake

inductive Item
  | call (t : ChannelType)
  | document (root : Element)

def answer (x : Intake) : Item → Intake
  | .call t =>
    let (result, cursors) := (allocate t).run.run x.cursors
    { x with calls := x.calls ++ [⟨t, result⟩], cursors := cursors }
  | .document root =>
    let (result, cursors) := (Document.read root).run.run x.cursors
    { calls := x.calls ++ (serve (Document.demands root) x.cursors).calls
      documents := x.documents ++ result.toOption.toList
      cursors := cursors }

def ofItems (a : Allocator) (items : List Item) : Intake := items.foldl answer { cursors := a }

/-- The declared channels have the endpoints of their own calls, in the order of these. -/
structure Sound (a : Allocator) (x : Intake) : Prop where
  calls : Calls a x.calls x.cursors
  issued : ((declarations x.documents).filterMap Channel.call?).Sublist x.calls
  endpoint : ∀ c ∈ declarations x.documents, ∃ e, c.endpoint = some e

section Answer

variable {x : Intake} {root : Element} {b : Allocator}

theorem answer_call {t : ChannelType} {result : Except Failure Endpoint}
    (h : (allocate t).run.run x.cursors = (result, b)) :
    x.answer (.call t) = { x with calls := x.calls ++ [⟨t, result⟩], cursors := b } := by
  rw [answer, h]

theorem answer_of_error {f : Failure} (h : (Document.read root).run.run x.cursors = (.error f, b)) :
    ∃ cs, x.answer (.document root) = { x with calls := x.calls ++ cs, cursors := b }
      ∧ Calls x.cursors cs b := by
  obtain ⟨cs, hcs⟩ := (Document.meets_read root).error h
  have hcalls := Allocator.calls_serve (Document.demands root) x.cursors
  rw [hcs] at hcalls
  refine ⟨cs, ?_, hcalls⟩
  rw [answer, h, hcs]
  show Intake.mk _ (x.documents ++ []) _ = _
  rw [List.append_nil]

theorem answer_of_ok {d : Document} (h : (Document.read root).run.run x.cursors = (.ok d, b)) :
    x.answer (.document root)
      = { calls := x.calls ++ d.calls, documents := x.documents ++ [d], cursors := b }
      ∧ Calls x.cursors d.calls b := by
  have hserve := (Document.meets_read root).ok h
  have hcalls := Allocator.calls_serve (Document.demands root) x.cursors
  rw [hserve] at hcalls
  refine ⟨?_, hcalls⟩
  rw [answer, h, hserve]
  rfl

end Answer

section Sound

variable {a : Allocator} {x : Intake}

theorem Sound.answer (h : Sound a x) (item : Item) : Sound a (x.answer item) := by
  cases item with
  | call t =>
    rcases hrun : (allocate t).run.run x.cursors with ⟨result, b⟩
    rw [answer_call hrun]
    exact ⟨h.calls.call t hrun, h.issued.trans (List.sublist_append_left ..), h.endpoint⟩
  | document root =>
    rcases hrun : (Document.read root).run.run x.cursors with ⟨f | d, b⟩
    · obtain ⟨cs, hanswer, hcalls⟩ := answer_of_error hrun
      rw [hanswer]
      exact ⟨h.calls.trans hcalls, h.issued.trans (List.sublist_append_left ..), h.endpoint⟩
    · obtain ⟨hanswer, hcalls⟩ := answer_of_ok hrun
      rw [hanswer]
      refine ⟨h.calls.trans hcalls, ?_, ?_⟩
      · rw [Network.declarations_concat, List.filterMap_append, Document.filterMap_call?_channels]
        exact h.issued.append (.refl _)
      · rw [Network.declarations_concat]
        intro c hc
        rcases List.mem_append.1 hc with hc | hc
        · exact h.endpoint c hc
        · exact (Document.reads_of_run hrun).endpoint c hc

theorem sound_ofItems (a : Allocator) (items : List Item) : Sound a (ofItems a items) := by
  rw [ofItems]
  induction items using List.reverseRecOn with
  | nil => exact ⟨.start, .slnil, fun _ hc => (List.not_mem_nil hc).elim⟩
  | append_singleton items item ih =>
    rw [List.foldl_append, List.foldl_cons, List.foldl_nil]
    exact ih.answer item

theorem Sound.mem_calls (h : Sound a x) {c : Channel} (hc : c ∈ declarations x.documents) :
    ∃ e, c.endpoint = some e ∧ ⟨c.type, .ok e⟩ ∈ x.calls := by
  obtain ⟨e, he⟩ := h.endpoint c hc
  refine ⟨e, he, h.issued.subset (List.mem_filterMap.2 ⟨c, hc, ?_⟩)⟩
  rw [Channel.call?, he]
  rfl

theorem Sound.cursors (h : Sound a x) {t : ChannelType} {base : Endpoint}
    (hbase : a.peek t = some base) :
    ∃ e, x.cursors.peek t = some e ∧ e.ip = base.ip
      ∧ e.port.toNat = base.port.toNat + granted t x.calls := by
  obtain ⟨hpeek, hroom⟩ := h.calls.peek_eq t
  rw [hbase] at hpeek
  exact ⟨_, hpeek, rfl, Endpoint.toNat_port_advance (hroom base hbase)⟩

theorem Sound.sublist_calls (h : Sound a x) :
    ((declarations x.documents).map fun c => (c.type, c.endpoint)).Sublist
    (x.calls.map fun c => (c.type, c.result.toOption)) := by
  have hissued := h.issued.map fun c => (c.type, c.result.toOption)
  rw [List.map_filterMap] at hissued
  have hcall : ∀ c ∈ declarations x.documents,
      (c.call?.map fun c => (c.type, c.result.toOption)) = some (c.type, c.endpoint) := by
    intro c hc
    obtain ⟨e, he⟩ := h.endpoint c hc
    rw [Channel.call?, he]
    rfl
  rw [List.filterMap_congr hcall, List.filterMap_eq_map'] at hissued
  exact hissued

/-- Bases of different types among some channels have different addresses. -/
def Apart (a : Allocator) (cs : List Channel) : Prop :=
  ∀ c ∈ cs, ∀ d ∈ cs, c.type ≠ d.type → ∀ e f, a.peek c.type = some e →
    a.peek d.type = some f → e.ip ≠ f.ip

theorem peek_standard (t : ChannelType) :
    Allocator.standard.peek t = some (Allocator.defaultBase t) := by cases t <;> rfl

theorem ip_defaultBase_inj {t u : ChannelType}
    (h : (Allocator.defaultBase t).ip = (Allocator.defaultBase u).ip) : t = u := by
  cases t <;> cases u <;> first | rfl | simp [Allocator.defaultBase] at h

theorem apart_standard (cs : List Channel) : Apart .standard cs := by
  intro c _ d _ hne e f he hf hip
  cases (peek_standard c.type).symm.trans he
  cases (peek_standard d.type).symm.trans hf
  exact hne (ip_defaultBase_inj hip)

theorem Sound.nodup_endpoints (h : Sound a x) (hapart : Apart a (declarations x.documents)) :
    ((declarations x.documents).map (·.endpoint)).Nodup := by
  have hpairwise := h.calls.pairwise.sublist h.issued
  rw [List.pairwise_filterMap] at hpairwise
  rw [List.Nodup, List.pairwise_map]
  refine hpairwise.imp_of_mem fun {c d} hc hd hcd heq => ?_
  obtain ⟨e, he, hcall⟩ := h.mem_calls hc
  obtain ⟨e', he', hcall'⟩ := h.mem_calls hd
  obtain rfl : e = e' := Option.some.inj (he.symm.trans (heq.trans he'))
  have htype : c.type ≠ d.type := by
    refine hcd ⟨c.type, .ok e⟩ ?_ ⟨d.type, .ok e⟩ ?_ e rfl rfl
    · rw [Channel.call?, he]
      rfl
    · rw [Channel.call?, he']
      rfl
  obtain ⟨base, hbase, hip, -⟩ := h.calls.port_lt hcall
  obtain ⟨base', hbase', hip', -⟩ := h.calls.port_lt hcall'
  exact hapart c hc d hd htype base base' hbase hbase' (hip.symm.trans hip')

end Sound

/-- What holds of all calls of a run, and of the endpoints that the channels of its
documents have by them. -/
structure Allocation (a : Allocator) (x : Intake) : Prop where
  cursors : ∀ t base, a.peek t = some base →
    ∃ e, x.cursors.peek t = some e ∧ e.ip = base.ip
      ∧ e.port.toNat = base.port.toNat + granted t x.calls
  absent : ∀ t, a.peek t = none → x.cursors.peek t = none
  answers : ∀ earlier call later, x.calls = earlier ++ call :: later → ∃ before after,
    Calls a earlier before
    ∧ Answers (a.peek call.type) (granted call.type earlier) call before after
      ∧ Calls after later x.cursors
  lasting : ∀ earlier call later, x.calls = earlier ++ call :: later → ∀ f, call.result = .error f →
    ∀ c ∈ later, c.type = call.type → c.result = .error f
  last : ∀ t e, ⟨t, .ok e⟩ ∈ x.calls → e.port ≠ 65535
  issued : ((declarations x.documents).map fun c => (c.type, c.endpoint)).Sublist
    (x.calls.map fun c => (c.type, c.result.toOption))
  declared : ∀ c ∈ declarations x.documents, ∃ e, c.endpoint = some e
  distinct : Apart a (declarations x.documents) →
    ((declarations x.documents).map (·.endpoint)).Nodup
  stored : ∀ name c, (x.documents.foldlM Network.merge {}).value.channels.get? name = some c →
    ∃ first later, ((declarations x.documents).filter fun d => d.name = name) = first :: later
      ∧ c.endpoint = first.endpoint
  separate : Apart a (declarations x.documents) → ∀ name name' c c', name ≠ name' →
    (x.documents.foldlM Network.merge {}).value.channels.get? name = some c →
    (x.documents.foldlM Network.merge {}).value.channels.get? name' = some c' →
      c.endpoint ≠ c'.endpoint

section Stored

variable {docs : List Document} {name name' : String} {c c' : Channel}

theorem exists_first (hc : (docs.foldlM Network.merge {}).value.channels.get? name = some c) :
    ∃ first later,
    ((declarations docs).filter fun d => d.name = name) = first :: later
      ∧ c.endpoint = first.endpoint := by
  have hrun := Network.reaches_merge docs
  cases hfilter : (declarations docs).filter fun d => d.name = name with
  | nil =>
    rw [← Network.filterMap_channel?_events] at hfilter
    cases hc.symm.trans (hrun.get?_eq_none hfilter)
  | cons first later =>
    refine ⟨first, later, rfl, ?_⟩
    rw [← Network.filterMap_channel?_events] at hfilter
    cases hc.symm.trans (hrun.get?_eq_settled hfilter)
    rfl

theorem endpoint_ne (hnodup : ((declarations docs).map (·.endpoint)).Nodup) (hne : name ≠ name')
    (hc : (docs.foldlM Network.merge {}).value.channels.get? name = some c)
    (hc' : (docs.foldlM Network.merge {}).value.channels.get? name' = some c') :
    c.endpoint ≠ c'.endpoint := by
  obtain ⟨first, _, hfilter, hendpoint⟩ := exists_first hc
  obtain ⟨first', _, hfilter', hendpoint'⟩ := exists_first hc'
  obtain ⟨hmem, hname⟩ := Network.mem_of_filter_named hfilter first List.mem_cons_self
  obtain ⟨hmem', hname'⟩ := Network.mem_of_filter_named hfilter' first' List.mem_cons_self
  rw [hendpoint, hendpoint']
  intro heq
  have hfirst := List.inj_on_of_nodup_map hnodup hmem hmem' heq
  exact hne (hname.symm.trans ((congrArg Channel.name hfirst).trans hname'))

end Stored

theorem allocation_ofItems (a : Allocator) (items : List Item) :
    Allocation a (ofItems a items) := by
  have hsound := sound_ofItems a items
  exact {
    cursors := fun _ _ hbase => hsound.cursors hbase
    absent := fun t ht => by rw [(hsound.calls.peek_eq t).1, ht, Option.map_none]
    answers := fun _ _ _ hsplit => by
      have hcalls := hsound.calls
      rw [hsplit] at hcalls
      exact hcalls.answers
    lasting := fun _ _ _ hsplit _ hf => by
      have hcalls := hsound.calls
      rw [hsplit] at hcalls
      exact hcalls.lasting hf
    last := fun _ _ he hlast => hsound.calls.port_ne_last he (UInt16.toNat_inj.2 hlast)
    issued := hsound.sublist_calls
    declared := hsound.endpoint
    distinct := hsound.nodup_endpoints
    stored := fun _ _ hc => exists_first hc
    separate := fun hapart _ _ _ _ hne hc hc' =>
      endpoint_ne (hsound.nodup_endpoints hapart) hne hc hc' }

end Intake

end Avionics
