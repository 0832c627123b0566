import Avionics.Proofs.Network.Rendering
import Avionics.Proofs.Keyed.Agreement
import Mathlib.Algebra.GroupWithZero.Nat

namespace Avionics.Network

open Report (tally)

section Replay

def Event.apply (n : Network) : Event → Noted Network
  | .opened name => n.openComponent name
  | .declared name c => n.declare name c

def replay (h : List Event) : Noted Network := h.foldlM Event.apply {}

variable {h : List Event} {x : Noted Network}

theorem replay_concat (h : List Event) (e : Event) :
    replay (h ++ [e]) = replay h >>= fun n => e.apply n :=
  foldlM_concat Event.apply {} h e

theorem Reaches.eq_replay (hx : Reaches h x) : x = replay h := by
  induction hx with
  | start => rfl
  | opened name _ ih => rw [replay_concat, ← ih]; rfl
  | declared name c _ _ ih => rw [replay_concat, ← ih]; rfl

theorem replay_events (docs : List Document) : replay (events docs) = docs.foldlM merge {} :=
  (reaches_merge docs).eq_replay.symm

theorem Reaches.of_concat (hx : Reaches h x) {earlier : List Event} {e : Event}
    (hh : h = earlier ++ [e]) :
    Reaches earlier (replay earlier) ∧ ∀ name c, e = .declared name c →
    Event.opened name ∈ earlier := by
  cases hx with
  | start => simp at hh
  | opened name hx =>
    obtain ⟨rfl, ⟨⟩⟩ := List.append_inj' hh rfl
    refine ⟨hx.eq_replay ▸ hx, ?_⟩
    rintro _ _ ⟨⟩
  | declared name c hx hname =>
    obtain ⟨rfl, ⟨⟩⟩ := List.append_inj' hh rfl
    refine ⟨hx.eq_replay ▸ hx, ?_⟩
    rintro _ _ ⟨⟩
    exact hname

theorem Reaches.of_append {earlier later : List Event} (hx : Reaches (earlier ++ later) x) :
    Reaches earlier (replay earlier) := by
  induction later using List.reverseRecOn generalizing x with
  | nil =>
    rw [List.append_nil] at hx
    exact hx.eq_replay ▸ hx
  | append_singleton later e ih => exact ih (hx.of_concat (List.append_assoc ..).symm).1

end Replay

section Sizes

theorem map_snd_link? (h : List Event) (d : Direction) : (h.filterMap (Event.link? d)).map Prod.snd
    = ((h.filterMap Event.channel?).filter (·.direction = d)).map (·.name) := by
  induction h with
  | nil => rfl
  | cons e h ih =>
    cases e with
    | opened name => exact ih
    | declared name c =>
      by_cases hd : c.direction = d <;> simp [Event.link?, Event.channel?, hd, ih]

theorem length_link?_events (docs : List Document) (d : Direction) :
    ((events docs).filterMap (Event.link? d)).length = (declarations docs).countP
    (·.direction = d) := by
  have hnames := congrArg List.length (map_snd_link? (events docs) d)
  rwa [List.length_map, List.length_map, filterMap_channel?_events, ← List.countP_eq_length_filter]
    at hnames

def total (n : Network) (d : Direction) : Nat :=
  (n.components.values.map fun i => (i.side d).size).sum

theorem Reaches.total_eq {h : List Event} {x : Noted Network} (hx : Reaches h x) (d : Direction) :
    x.value.total d = (h.filterMap (Event.link? d)).eraseDups.length := by
  let listed := x.value.components.entries.flatMap fun e => (e.2.side d).keys.map (e.1, ·)
  have hnodup : listed.Nodup :=
    Keyed.nodup_flatMap x.value.components.nodup fun e _ => (e.2.side d).keys_nodup
  have hmem : ∀ l, l ∈ (h.filterMap (Event.link? d)).eraseDups ↔ l ∈ listed := by
    rintro ⟨component, name⟩
    rw [List.mem_eraseDups, hx.mem_link_iff, List.mem_flatMap]
    constructor
    · rintro ⟨i, hi, hname⟩
      exact ⟨(component, i), Keyed.get?_eq_some_iff.1 hi, List.mem_map_of_mem hname⟩
    · rintro ⟨⟨_, i⟩, he, hl⟩
      obtain ⟨_, hname, ⟨⟩⟩ := List.mem_map.1 hl
      exact ⟨i, Keyed.get?_eq_some_iff.2 he, hname⟩
  rw [((List.perm_ext_iff_of_nodup (nodup_eraseDups _) hnodup).2 hmem).length_eq, total,
    Keyed.values, List.map_map, List.length_flatMap]
  refine congrArg List.sum (List.map_congr_left fun e _ => ?_)
  rw [Function.comp_apply, Keyed.size_eq_length_keys, List.length_map]

end Sizes

section Findings

variable {h : List Event} {x : Noted Network}

theorem Reaches.tally_unsupported (hx : Reaches h x) : tally "unsupported" x.findings = 0 := by
  induction hx with
  | start => rfl
  | opened name _ ih =>
    rw [Noted.findings_bind, Report.tally_append, ih, tally_openComponent, if_neg (by simp)]
  | declared name c _ _ ih =>
    rw [Noted.findings_bind, Report.tally_append, ih, tally_declare_eq_zero _ _ _ (by decide)]

/-- A channel that a component has declared as an output is produced twice, not by several
components. -/
theorem Reaches.producer_ne (hx : Reaches h x) {name : String} (hname : Event.opened name ∈ h)
    (c : Channel) (channel : String) :
    Finding.multipleProducers channel name ∉ (x.value.declare name c).findings := by
  obtain ⟨held, hheld⟩ := hx.exists_component hname
  rw [declare_eq, Noted.findings_bind, List.mem_append, findings_link_channels hheld]
  rintro (habsorb | hlink)
  · rcases kind_of_mem_absorb c x.value.channels habsorb with hkind | hkind
      <;> simp [Finding.kind] at hkind
  · cases hd : c.direction with
    | input =>
      rw [link_input hheld hd] at hlink
      split at hlink <;> simp at hlink
    | output =>
      rw [link_output hheld hd] at hlink
      split at hlink
      · simp at hlink
      · next hnew =>
        obtain ⟨producer, hproducer, heq⟩ := List.mem_map.1 hlink
        obtain ⟨rfl, rfl⟩ := Finding.multipleProducers.inj heq
        obtain ⟨i, hi, houtput⟩ := hx.intact.exists_output (Option.mem_toList.1 hproducer)
        cases hheld.symm.trans hi
        exact hnew (Keyed.contains_iff.2 houtput)

end Findings

structure Accounted (docs : List Document) (x : Noted Network) : Prop where
  components : tally "duplicate_component" x.findings + x.value.components.size
    = (componentsOf docs).length
  consumed : tally "consumed_twice" x.findings + x.value.total .input
    = (declarations docs).countP (·.direction = .input)
  produced : tally "produced_twice" x.findings + x.value.total .output
    = (declarations docs).countP (·.direction = .output)
  producers : tally "multiple_producers" x.findings
    + (((declarations docs).filter (·.direction = .output)).map (·.name)).eraseDups.length
      = x.value.total .output
  unsupported : tally "unsupported" x.findings = 0
  others : ∀ earlier component c later, events docs = earlier ++ .declared component c :: later →
    ∀ channel, Finding.multipleProducers channel component
      ∉ ((replay earlier).value.declare component c).findings

/-- The run over some documents is the replay of their events, and what is not in its
network is in its report. -/
theorem merge_accounted (docs : List Document) :
    docs.foldlM merge {} = replay (events docs) ∧ Accounted docs (docs.foldlM merge {}) := by
  have hrun := reaches_merge docs
  refine ⟨(replay_events docs).symm, ?_, ?_, ?_, ?_, hrun.tally_unsupported, ?_⟩
  · have hduplicate := hrun.tally_duplicate
    rwa [← hrun.keys_components, ← Keyed.size_eq_length_keys, filterMap_opened?_events,
      List.length_map] at hduplicate
  · rw [hrun.total_eq, ← length_link?_events]
    exact hrun.tally_twice .input
  · rw [hrun.total_eq, ← length_link?_events]
    exact hrun.tally_twice .output
  · rw [hrun.total_eq, ← hrun.tally_multiple, map_snd_link?, filterMap_channel?_events]
  · intro earlier component c later hevents channel
    rw [hevents] at hrun
    have hsplit : Reaches ((earlier ++ [.declared component c]) ++ later)
        (docs.foldlM merge {}) := by
      rwa [List.append_assoc]
    obtain ⟨hearlier, hopened⟩ := hsplit.of_append.of_concat rfl
    exact hearlier.producer_ne (hopened component c rfl) c channel

end Avionics.Network
