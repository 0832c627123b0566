import Avionics.Network.Allocator
import Avionics.Proofs.Keyed.Lookup
import Avionics.Proofs.Stateful
import Mathlib.Data.List.Induction

/-! Calls of an allocator, one after another.  Each type counts on from its base, whatever
happens to the other types, and gives nothing more once it has come to the last port. -/

namespace Avionics

namespace Endpoint

def advance (e : Endpoint) (k : Nat) : Endpoint :=
  { e with port := UInt16.ofNat (e.port.toNat + k) }

@[simp] theorem advance_zero (e : Endpoint) : e.advance 0 = e := by simp [advance]

theorem port_advance (e : Endpoint) (k : Nat) : (e.advance k).port = e.port + UInt16.ofNat k := by
  simp [advance, UInt16.ofNat_add]

theorem advance_advance (e : Endpoint) (j k : Nat) :
    (e.advance j).advance k = e.advance (j + k) := by
  have hport : ((e.advance j).advance k).port = (e.advance (j + k)).port := by
    rw [port_advance, port_advance, port_advance, UInt16.ofNat_add, UInt16.add_assoc]
  show Endpoint.mk e.ip ((e.advance j).advance k).port = _
  rw [hport]
  rfl

theorem toNat_port_advance {e : Endpoint} {k : Nat} (h : e.port.toNat + k ≤ 65535) :
    (e.advance k).port.toNat = e.port.toNat + k :=
  UInt16.toNat_ofNat_of_lt' (Nat.lt_succ_of_le h)

theorem next?_eq (e : Endpoint) :
    e.next? = if e.port.toNat = 65535 then none else some (e.advance 1) := by
  have hlast : e.port = 65535 ↔ e.port.toNat = 65535 := UInt16.toNat_inj.symm
  rw [next?]
  simp only [hlast]
  split
  · rfl
  · simp [advance, UInt16.ofNat_add]

end Endpoint

structure Call where
  type : ChannelType
  result : Except Failure Endpoint

namespace Allocator

def granted (t : ChannelType) (log : List Call) : Nat :=
  log.countP fun c => c.type = t && c.result.isOk

inductive Calls (a : Allocator) : List Call → Allocator → Prop
  | start : Calls a [] a
  | call {log : List Call} {b c : Allocator} {result : Except Failure Endpoint} (t : ChannelType) :
      Calls a log b → (allocate t).run.run b = (result, c) → Calls a (log ++ [⟨t, result⟩]) c

section Single

variable {a : Allocator} {t : ChannelType} {e : Endpoint}

theorem allocate_unknown (h : a.peek t = none) :
    (allocate t).run.run a = (.error (.unknownChannelType t.tag), a) := by
  refine Stateful.bind_eq_error.2 (.inr ⟨a, a, rfl, ?_⟩)
  rw [h]
  rfl

theorem allocate_exhausted (h : a.peek t = some e) (hlast : e.port.toNat = 65535) :
    (allocate t).run.run a = (.error (.portsExhausted t.tag), a) := by
  refine Stateful.bind_eq_error.2 (.inr ⟨a, a, rfl, ?_⟩)
  rw [h]
  simp only
  rw [Endpoint.next?_eq, if_pos hlast]
  rfl

theorem allocate_assigned (h : a.peek t = some e) (hmore : e.port.toNat ≠ 65535) :
    (allocate t).run.run a = (.ok e, a.insert t (e.advance 1)) := by
  refine Stateful.bind_eq_ok.2 ⟨a, a, rfl, ?_⟩
  rw [h]
  simp only
  rw [Endpoint.next?_eq, if_neg hmore]
  rfl

end Single

section Granted

@[simp] theorem granted_nil (t : ChannelType) : granted t [] = 0 := rfl

theorem granted_append (t : ChannelType) (log more : List Call) :
    granted t (log ++ more) = granted t log + granted t more :=
  List.countP_append

theorem granted_concat_error (t u : ChannelType) (log : List Call) (f : Failure) :
    granted t (log ++ [⟨u, .error f⟩]) = granted t log := by
  simp [granted, Except.isOk, Except.toBool]

theorem granted_concat_ok (t u : ChannelType) (log : List Call) (e : Endpoint) :
    granted t (log ++ [⟨u, .ok e⟩]) = granted t log + if u = t then 1 else 0 := by
  simp [granted, Except.isOk, Except.toBool, List.countP_singleton]

end Granted

/-- What a call comes to, by the base of its type and how often the type was given an
endpoint before. -/
structure Answers (base : Option Endpoint) (k : Nat) (call : Call)
    (before after : Allocator) : Prop where
  ran : (allocate call.type).run.run before = (call.result, after)
  unknown : base = none → call.result = .error (.unknownChannelType call.type.tag)
  exhausted : ∀ e, base = some e →
    (call.result = .error (.portsExhausted call.type.tag) ↔ e.port.toNat + k = 65535)
  assigned : ∀ e, base = some e → e.port.toNat + k ≠ 65535 →
    ∃ given, call.result = .ok given ∧ given.ip = e.ip ∧ given.port.toNat = e.port.toNat + k
  failed : ∀ f, call.result = .error f → after = before
  others : ∀ t, t ≠ call.type → after.peek t = before.peek t

namespace Calls

variable {a b c : Allocator} {log earlier later : List Call}

theorem trans (h : Calls a earlier b) (h' : Calls b later c) : Calls a (earlier ++ later) c := by
  induction h' with
  | start => rwa [List.append_nil]
  | call t _ hrun ih =>
    rw [← List.append_assoc]
    exact ih.call t hrun

theorem single {t : ChannelType} {result : Except Failure Endpoint}
    (h : (allocate t).run.run a = (result, b)) :
    Calls a [⟨t, result⟩] b := start.call t h

theorem eq_of_nil (h : Calls a [] b) : b = a := by
  generalize hlog : ([] : List Call) = log at h
  cases h with
  | start => rfl
  | call => simp at hlog

theorem run_of_single {t : ChannelType} {result : Except Failure Endpoint}
    (h : Calls a [⟨t, result⟩] b) : (allocate t).run.run a = (result, b) := by
  rw [← List.nil_append [Call.mk t result]] at h
  generalize hlog : [] ++ [Call.mk t result] = log at h
  cases h with
  | start => cases hlog
  | call u hnone hrun =>
    obtain ⟨rfl, hlast⟩ := List.append_inj' hlog rfl
    cases hlast
    rwa [hnone.eq_of_nil] at hrun

theorem split (h : Calls a (earlier ++ later) c) : ∃ b, Calls a earlier b ∧ Calls b later c := by
  induction later using List.reverseRecOn generalizing c with
  | nil => exact ⟨c, by rwa [List.append_nil] at h, start⟩
  | append_singleton later last ih =>
    rw [← List.append_assoc] at h
    generalize hall : earlier ++ later ++ [last] = all at h
    cases h with
    | start => simp at hall
    | @call log d _ result t hlog hrun =>
      obtain ⟨rfl, hlast⟩ := List.append_inj' hall rfl
      obtain ⟨b, hearlier, hlater⟩ := ih hlog
      cases List.singleton_inj.1 hlast
      exact ⟨b, hearlier, hlater.call t hrun⟩

theorem peek_eq (h : Calls a log b) (t : ChannelType) :
    b.peek t = (a.peek t).map (·.advance (granted t log))
    ∧ ∀ base, a.peek t = some base → base.port.toNat + granted t log ≤ 65535 := by
  induction h with
  | start => exact ⟨by simp, fun base _ => Nat.le_of_lt_succ base.port.toNat_lt⟩
  | @call log b c result u hlog hrun ih =>
    cases hu : b.peek u with
    | none =>
      cases (allocate_unknown hu).symm.trans hrun
      rwa [granted_concat_error]
    | some cursor =>
      by_cases hlast : cursor.port.toNat = 65535
      · cases (allocate_exhausted hu hlast).symm.trans hrun
        rwa [granted_concat_error]
      · cases (allocate_assigned hu hlast).symm.trans hrun
        rw [granted_concat_ok]
        by_cases ht : u = t
        · subst ht
          rw [if_pos rfl, peek, Keyed.get?_insert, if_pos rfl]
          rw [hu] at ih
          obtain ⟨base, hbase, hcursor⟩ := Option.map_eq_some_iff.1 ih.1.symm
          have hroom := ih.2 base hbase
          rw [← hcursor, Endpoint.toNat_port_advance hroom] at hlast
          rw [hbase, ← hcursor, Endpoint.advance_advance]
          refine ⟨rfl, fun _ h => ?_⟩
          cases h
          omega
        · rw [if_neg ht, peek, Keyed.get?_insert, if_neg (Ne.symm ht)]
          exact ih

theorem answers {call : Call} (h : Calls a (earlier ++ call :: later) c) :
    ∃ before after, Calls a earlier before
    ∧ Answers (a.peek call.type) (granted call.type earlier) call before after
      ∧ Calls after later c := by
  rw [List.append_cons] at h
  obtain ⟨after, hcall, hlater⟩ := h.split
  obtain ⟨before, hearlier, hcall⟩ := hcall.split
  refine ⟨before, after, hearlier, ?_, hlater⟩
  obtain ⟨t, result⟩ := call
  have hrun := hcall.run_of_single
  obtain ⟨hpeek, hroom⟩ := hearlier.peek_eq t
  cases hbase : a.peek t with
  | none =>
    rw [hbase] at hpeek
    cases (allocate_unknown hpeek).symm.trans hrun
    exact ⟨hrun, fun _ => rfl, nofun, nofun, fun _ _ => rfl, fun _ _ => rfl⟩
  | some base =>
    rw [hbase, Option.map_some] at hpeek
    have hport := Endpoint.toNat_port_advance (hroom base hbase)
    by_cases hlast : base.port.toNat + granted t earlier = 65535
    · cases (allocate_exhausted hpeek (hport.trans hlast)).symm.trans hrun
      refine ⟨hrun, nofun, ?_, ?_, fun _ _ => rfl, fun _ _ => rfl⟩
      · rintro _ ⟨⟩
        exact iff_of_true rfl hlast
      · rintro _ ⟨⟩ hmore
        exact absurd hlast hmore
    · cases (allocate_assigned hpeek (hport ▸ hlast)).symm.trans hrun
      refine ⟨hrun, nofun, ?_, ?_, nofun, fun u hu => ?_⟩
      · rintro _ ⟨⟩
        exact iff_of_false nofun hlast
      · rintro _ ⟨⟩ -
        exact ⟨_, rfl, rfl, hport⟩
      · rw [peek, Keyed.get?_insert, if_neg hu, peek]

section Amid

variable {call : Call} {t : ChannelType} {e : Endpoint}

theorem granted_le {base : Endpoint} (h : Calls a log b) (hbase : a.peek t = some base) :
    base.port.toNat + granted t log ≤ 65535 := (h.peek_eq t).2 base hbase

theorem lasting (h : Calls a (earlier ++ call :: later) c) {f : Failure}
    (hf : call.result = .error f) : ∀ d ∈ later, d.type = call.type → d.result = .error f := by
  intro d hd htype
  obtain ⟨between, behind, rfl⟩ := List.append_of_mem hd
  obtain ⟨_, _, _, hcall, _⟩ := h.answers
  rw [← List.cons_append, ← List.append_assoc] at h
  obtain ⟨before, _, hbefore, hlater, _⟩ := h.answers
  rw [htype] at hlater
  cases hbase : a.peek call.type with
  | none => rw [hlater.unknown hbase, htype, ← hcall.unknown hbase, hf]
  | some base =>
    -- The base is exhausted by what was given before the first refusal, and no more can be given.
    have hlast : base.port.toNat + granted call.type earlier = 65535 := by
      by_contra hmore
      obtain ⟨_, hgiven, _⟩ := hcall.assigned base hbase hmore
      rw [hf] at hgiven
      cases hgiven
    have hroom := hbefore.granted_le hbase
    have hcount := granted_append call.type earlier (call :: between)
    rw [((hlater.exhausted base hbase).2 (by omega)), htype, ← (hcall.exhausted base hbase).2 hlast,
      hf]

theorem given (h : Calls a (earlier ++ ⟨t, .ok e⟩ :: later) c) :
    ∃ base, a.peek t = some base ∧ e.ip = base.ip
    ∧ e.port.toNat = base.port.toNat + granted t earlier
    ∧ base.port.toNat + granted t earlier ≠ 65535 := by
  obtain ⟨_, _, _, hcall, _⟩ := h.answers
  cases hbase : a.peek t with
  | none => cases hcall.unknown hbase
  | some base =>
    have hmore : base.port.toNat + granted t earlier ≠ 65535 := fun hlast => by
      cases (hcall.exhausted base hbase).2 hlast
    obtain ⟨_, ⟨⟩, hip, hport⟩ := hcall.assigned base hbase hmore
    exact ⟨base, rfl, hip, hport, hmore⟩

theorem port_lt (h : Calls a log b) (he : ⟨t, .ok e⟩ ∈ log) :
    ∃ base, a.peek t = some base ∧ e.ip = base.ip
    ∧ e.port.toNat < base.port.toNat + granted t log := by
  obtain ⟨earlier, later, rfl⟩ := List.append_of_mem he
  obtain ⟨base, hbase, hip, hport, -⟩ := h.given
  have hcount : granted t (earlier ++ ⟨t, .ok e⟩ :: later) = granted t earlier + 1
      + granted t later := by
    rw [List.append_cons, granted_append, granted_concat_ok, if_pos rfl]
  exact ⟨base, hbase, hip, by omega⟩

theorem port_ne_last (h : Calls a log b) (he : ⟨t, .ok e⟩ ∈ log) : e.port.toNat ≠ 65535 := by
  obtain ⟨earlier, later, rfl⟩ := List.append_of_mem he
  obtain ⟨base, -, -, hport, hmore⟩ := h.given
  omega

theorem pairwise (h : Calls a log b) :
    log.Pairwise fun c d => ∀ e, c.result = .ok e → d.result = .ok e → c.type ≠ d.type := by
  induction h with
  | start => exact .nil
  | @call log b c result t hlog hrun ih =>
    refine List.pairwise_append.2 ⟨ih, List.pairwise_singleton .., ?_⟩
    rintro ⟨u, _⟩ hd _ hlast e rfl he rfl
    cases List.mem_singleton.1 hlast
    cases he
    obtain ⟨base, hbase, -, hlt⟩ := hlog.port_lt hd
    obtain ⟨base', hbase', -, hport, -⟩ := (hlog.call _ hrun).given
    cases hbase.symm.trans hbase'
    exact Nat.ne_of_lt hlt hport

end Amid

end Calls

end Allocator

end Avionics
