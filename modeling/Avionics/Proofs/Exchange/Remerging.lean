import Avionics.Proofs.Exchange.Outcome

namespace Avionics.Exchange

theorem Record.idempotent_join {kind : RecordKind} :
    Noted.Idempotent (join : Record kind → Record kind → Noted (Record kind)) where
  self r := if_pos rfl
  again r s := by rw [value_join]

namespace Schema

theorem idempotent_joining (s : Schema) : Noted.Idempotent s.joining.join := by
  induction s with
  | records kind => exact Keyed.idempotent_merge Record.idempotent_join
  | unsupported tag what key => exact ⟨fun _ => rfl, fun _ _ => rfl⟩
  | both s t ihs iht => exact ihs.pair iht
  | group tag s ih => exact Keyed.idempotent_merge ih
  | part tag s ih => exact ih
  | option tag s ih => exact ih.option
  | directional s ih => exact Joining.idempotent_transport Directional.equiv (ih.pair ih)

theorem idempotent_merge (s : Schema) : Noted.Idempotent s.merge :=
  s.join_joining ▸ s.idempotent_joining

end Schema

namespace Platform

theorem merge_again (p q : Platform) :
    ((p.merge q).value.merge q).value.dataExchange = (p.merge q).value.dataExchange
      ∧ ((p.merge q).value.merge q).value.equipments = (p.merge q).value.equipments
      ∧ ((p.merge q).value.merge q).findings = (p.merge q).findings
      ∧ p.merge p = pure { p with names := p.names ++ p.names } := by
  have hagain := Schema.platform.idempotent_merge.again p.content q.content
  have hself := Schema.platform.idempotent_merge.self p.content
  have hcontent : ((p.merge q).value.merge q).value.content = (p.merge q).value.content :=
    congrArg Noted.value hagain
  refine ⟨congrArg Prod.fst hcontent, congrArg Prod.snd hcontent, ?_, ?_⟩
  · rw [findings_merge, findings_merge]
    exact congrArg Noted.findings hagain
  · rw [merge, hself]
    rfl

end Platform

end Avionics.Exchange
