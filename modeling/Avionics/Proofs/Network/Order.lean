import Avionics.Proofs.Network.Consistency

namespace Avionics.Network

open Report (tally)

def countedKinds : List String :=
  ["duplicate_component", "consumed_twice", "produced_twice", "multiple_producers"]

/-- Two runs over the same declarations that cannot be told apart but for orders, and for
which of several declarations of a channel was kept. -/
structure Agree (declared : List Channel) (x y : Noted Network) : Prop where
  errors : x.findings.errors = 0 ↔ y.findings.errors = 0
  tallies : ∀ kind ∈ countedKinds, tally kind x.findings = tally kind y.findings
  components : x.value.components.keys.Perm y.value.components.keys
  inputs : ∀ name i j, x.value.components.get? name = some i →
    y.value.components.get? name = some j →
    i.inputs.keys.Perm j.inputs.keys
  outputs : ∀ name i j, x.value.components.get? name = some i →
    y.value.components.get? name = some j →
    i.outputs.keys.Perm j.outputs.keys
  mismatch : x.findings.errors = 0 →
    (tally "header_mismatch" x.findings = 0 ↔ tally "header_mismatch" y.findings = 0)
  channels : x.findings.errors = 0 → x.value.channels.keys.Perm y.value.channels.keys
    ∧ ∀ name c d, x.value.channels.get? name = some c → y.value.channels.get? name = some d →
      c.compatible d = true
  producer : x.findings.errors = 0 → ∀ name producer,
    (declared.filter fun c => c.name = name && c.direction = .output) = [producer] →
      ∃ c d, x.value.channels.get? name = some c ∧ y.value.channels.get? name = some d
        ∧ c.header = producer.header ∧ d.header = producer.header

section Perm

variable {h h' : List Event} {x y : Noted Network}

theorem errors_perm (hp : h.Perm h') (hx : Reaches h x) (hy : Reaches h' y) :
    x.findings.errors = 0 ↔ y.findings.errors = 0 := by
  rw [← Noted.clean_iff, ← Noted.clean_iff, hx.clean_iff, hy.clean_iff, (hp.filterMap _).nodup_iff,
    consistent_perm (hp.filterMap _)]

theorem tally_perm (hp : h.Perm h') (hx : Reaches h x) (hy : Reaches h' y) {kind : String}
    (hk : kind ∈ countedKinds) : tally kind x.findings = tally kind y.findings := by
  have hopened := hp.filterMap Event.opened?
  have hlinks := fun d => hp.filterMap (Event.link? d)
  have hduplicate : tally "duplicate_component" x.findings
      = tally "duplicate_component" y.findings := by
    have := hx.tally_duplicate
    have := hy.tally_duplicate
    have := hopened.length_eq
    have := (eraseDups_perm hopened).length_eq
    omega
  have htwice : ∀ d, tally (twice d) x.findings = tally (twice d) y.findings := by
    intro d
    have := hx.tally_twice d
    have := hy.tally_twice d
    have := (hlinks d).length_eq
    have := (eraseDups_perm (hlinks d)).length_eq
    omega
  have hmultiple : tally "multiple_producers" x.findings
      = tally "multiple_producers" y.findings := by
    have := hx.tally_multiple
    have := hy.tally_multiple
    have := (eraseDups_perm (hlinks .output)).length_eq
    have := (eraseDups_perm ((hlinks .output).map Prod.snd)).length_eq
    omega
  simp only [countedKinds, List.mem_cons, List.not_mem_nil, or_false] at hk
  rcases hk with rfl | rfl | rfl | rfl
  · exact hduplicate
  · exact htwice .input
  · exact htwice .output
  · exact hmultiple

theorem keys_components_perm (hp : h.Perm h') (hx : Reaches h x) (hy : Reaches h' y) :
    x.value.components.keys.Perm y.value.components.keys := by
  rw [hx.keys_components, hy.keys_components]
  exact eraseDups_perm (hp.filterMap _)

theorem valuesOf_perm {es fs : List (String × String)} (hp : es.Perm fs) (k : String) :
    (Keyed.valuesOf k es).Perm (Keyed.valuesOf k fs) := (hp.filter _).map _

theorem keys_side_perm (hp : h.Perm h') (hx : Reaches h x) (hy : Reaches h' y) (d : Direction)
    {name : String} {i j : Interface} (hi : x.value.components.get? name = some i)
    (hj : y.value.components.get? name = some j) : (i.side d).keys.Perm (j.side d).keys := by
  rw [hx.keys_side d hi, hy.keys_side d hj]
  exact eraseDups_perm (valuesOf_perm (hp.filterMap _) name)

theorem mismatch_perm (hp : h.Perm h') (hx : Reaches h x) (hy : Reaches h' y)
    (hclean : x.findings.errors = 0) :
    tally "header_mismatch" x.findings = 0 ↔ tally "header_mismatch" y.findings = 0 := by
  rw [hx.tally_mismatch (Noted.clean_iff.2 hclean),
    hy.tally_mismatch (Noted.clean_iff.2 ((errors_perm hp hx hy).1 hclean)),
    consistent_perm (hp.filterMap _)]

theorem keys_channels_perm (hp : h.Perm h') (hx : Reaches h x) (hy : Reaches h' y) :
    x.value.channels.keys.Perm y.value.channels.keys := by
  rw [hx.keys_channels, hy.keys_channels]
  exact eraseDups_perm ((hp.filterMap _).map _)

theorem compatible_perm (hp : h.Perm h') (hx : Reaches h x) (hy : Reaches h' y)
    (hclean : x.findings.errors = 0)
    {name : String} {c d : Channel} (hc : x.value.channels.get? name = some c)
    (hd : y.value.channels.get? name = some d) : c.compatible d = true := by
  obtain ⟨c', hc', hcname, hcc'⟩ := hx.exists_declared hc
  obtain ⟨d', hd', hdname, hdd'⟩ := hy.exists_declared hd
  have hconsistent := (hx.clean_iff.1 (Noted.clean_iff.2 hclean)).2
  have hdeclared :=
    hconsistent c' hc' d' ((hp.filterMap _).mem_iff.2 hd') (hcname.trans hdname.symm)
  exact (Channel.compatible_congr hcc' hdd').trans hdeclared

theorem Reaches.header_of_producer (hx : Reaches h x) (hclean : x.findings.errors = 0)
    {name : String} {producer : Channel}
    (hproducer : ((h.filterMap Event.channel?).filter fun c =>
      c.name = name && c.direction = .output) = [producer]) :
    ∃ c, x.value.channels.get? name = some c ∧ c.header = producer.header := by
  have hconsistent := (hx.clean_iff.1 (Noted.clean_iff.2 hclean)).2
  have hsplit : ((h.filterMap Event.channel?).filter fun c => c.name = name).filter
      (fun c => c.direction = .output) = [producer] := by
    rw [← hproducer, List.filter_filter]
    exact List.filter_congr fun c _ => Bool.and_comm ..
  cases hfilter : (h.filterMap Event.channel?).filter fun c => c.name = name with
  | nil =>
    rw [hfilter] at hsplit
    cases hsplit
  | cons first later =>
    have hmem := mem_of_filter_named hfilter
    have hfirst := hmem first List.mem_cons_self
    rw [hfilter] at hsplit
    refine ⟨first.settled later, hx.get?_eq_settled hfilter,
      Channel.settledHeader_of_producer hsplit fun d hd => ?_⟩
    have hd := hmem d (List.mem_cons_of_mem first hd)
    exact hconsistent d hd.1 first hfirst.1 (hd.2.trans hfirst.2.symm)

theorem header_perm (hp : h.Perm h') (hx : Reaches h x) (hy : Reaches h' y)
    (hclean : x.findings.errors = 0) {name : String} {producer : Channel}
    (hproducer : ((h.filterMap Event.channel?).filter fun c =>
      c.name = name && c.direction = .output) = [producer]) :
    ∃ c d, x.value.channels.get? name = some c ∧ y.value.channels.get? name = some d
      ∧ c.header = producer.header ∧ d.header = producer.header := by
  have hproducer' : ((h'.filterMap Event.channel?).filter fun c =>
      c.name = name && c.direction = .output) = [producer] := by
    rw [← List.perm_singleton, ← hproducer]
    exact ((hp.filterMap _).filter _).symm
  obtain ⟨c, hc, hcheader⟩ := hx.header_of_producer hclean hproducer
  obtain ⟨d, hd, hdheader⟩ := hy.header_of_producer ((errors_perm hp hx hy).1 hclean) hproducer'
  exact ⟨c, d, hc, hd, hcheader, hdheader⟩

end Perm

theorem events_perm {docs docs' : List Document} (hp : docs.Perm docs') :
    (events docs).Perm (events docs') :=
  hp.flatMap_right _

/-- The order of the documents makes no difference beyond what `Agree` leaves open. -/
theorem merge_perm {docs docs' : List Document} (hp : docs.Perm docs') :
    Agree (declarations docs) (docs.foldlM merge {}) (docs'.foldlM merge {}) where
  errors := errors_perm (events_perm hp) (reaches_merge docs) (reaches_merge docs')
  tallies _ hk := tally_perm (events_perm hp) (reaches_merge docs) (reaches_merge docs') hk
  components := keys_components_perm (events_perm hp) (reaches_merge docs) (reaches_merge docs')
  inputs _ _ _ hi hj :=
    keys_side_perm (events_perm hp) (reaches_merge docs) (reaches_merge docs') .input hi hj
  outputs _ _ _ hi hj :=
    keys_side_perm (events_perm hp) (reaches_merge docs) (reaches_merge docs') .output hi hj
  mismatch hclean :=
    mismatch_perm (events_perm hp) (reaches_merge docs) (reaches_merge docs') hclean
  channels hclean :=
    ⟨keys_channels_perm (events_perm hp) (reaches_merge docs) (reaches_merge docs'),
    fun _ _ _ hc hd => compatible_perm (events_perm hp) (reaches_merge docs) (reaches_merge docs')
      hclean hc hd⟩
  producer hclean _ _ hproducer := by
    rw [← filterMap_channel?_events] at hproducer
    exact header_perm (events_perm hp) (reaches_merge docs) (reaches_merge docs') hclean hproducer

def sideDocument (component : String) (d : Direction) : Document where
  components := [{
    name := component
    channels := [{
      name := "X", type := .a429, direction := d, fifoSize := "1", messageMaxSize := "8"
      header := { sourceId := d = .output } }] }]

theorem merge_perm_sides : ∃ c d,
    ([sideDocument "A" .input, sideDocument "B" .output].foldlM merge {}).value.channels.get?
      "X" = some c
    ∧ ([sideDocument "B" .output, sideDocument "A" .input].foldlM merge {}).value.channels.get?
      "X" = some d
    ∧ c.header.sourceId = true ∧ d.header.sourceId = true := by
  have hagree := merge_perm (List.Perm.swap (sideDocument "B" .output) (sideDocument "A" .input) [])
  obtain ⟨c, d, hc, hd, hcheader, hdheader⟩ := hagree.producer rfl "X" _ rfl
  refine ⟨c, d, hc, hd, ?_, ?_⟩
  · rw [hcheader]
    rfl
  · rw [hdheader]
    rfl

end Avionics.Network
