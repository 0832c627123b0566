import Avionics.Proofs.Exchange.Folding
import Avionics.Proofs.Exchange.Writing

namespace Avionics.Exchange.Platform

open Markup (Element)

inductive Built : Platform → Prop
  | empty : Built {}
  | read {root : Element} {p : Platform} : (Platform.read root).run.value = .ok p → Built p
  | merge {p q : Platform} : Built p → Built q → Built (p.merge q).value

/-- However the merges were nested, there is a list of documents behind the contents. -/
theorem Built.exists_total {p : Platform} (h : p.Built) :
    ∃ roots b, Schema.platform.total roots = some (p.content, b) := by
  induction h with
  | empty => exact ⟨[], true, Schema.total_nil Schema.platform⟩
  | @read root p hread =>
    obtain ⟨name, c, -, hp, hc⟩ := Accepted.cases ⟨p, hread⟩
    cases hread.symm.trans hp
    exact ⟨[root], _, (Schema.total_singleton Schema.platform root).trans hc⟩
  | @merge p q _ _ ihp ihq =>
    obtain ⟨roots, b, hp⟩ := ihp
    obtain ⟨others, b', hq⟩ := ihq
    refine ⟨roots ++ others, b && b' && (Schema.platform.merge p.content q.content).clean, ?_⟩
    rw [Schema.total_append, hp, hq, Joining.some_combine_some, Schema.join_joining]
    rfl

theorem Built.coherent {p : Platform} (h : p.Built) : Schema.platform.Coherent p.content := by
  obtain ⟨roots, b, htotal⟩ := h.exists_total
  exact Schema.coherent_of_total htotal

theorem Built.merge_content {q : Platform} (h : q.Built) (held : Schema.platform.Content) :
    Schema.platform.merge held q.content = Schema.platform.mergeByKey held q.content :=
  Schema.merge_eq_mergeByKey h.coherent held

/-- What is left of a platform once it was written: the names of its documents are one name then. -/
def rewritten (p : Platform) : Platform := { p with names := [p.name] }

theorem name_rewritten (p : Platform) : p.rewritten.name = p.name := String.intercalate_singleton

theorem write_rewritten (p : Platform) : p.rewritten.write = p.write := by
  rw [write, name_rewritten]
  rfl

theorem read_write {p : Platform} (h : Schema.platform.Coherent p.content) :
    read p.write = pure p.rewritten := by
  have hname : p.write.required "Name" = .ok p.name := Element.required_eq_ok.2 p.attribute?_write
  rw [read, hname, read_content_write h]
  rfl

theorem parse_render_plain (p : Platform) : Element.parse p.write.render = .ok p.write := by
  rw [Element.parse_render_eq p.wellNamed_write, p.bare_write.trimmed_eq,
    Markup.Element.withoutTail_of_bare p.bare_write]

theorem Built.parse_render {p : Platform} (h : p.Built) : ∃ q : Platform,
    (∀ text ∈ [p.write.render, p.write.indent.render], ∃ root, Element.parse text = .ok root
      ∧ (Platform.read root).run.value = .ok q ∧ (Platform.read root).run.findings = [])
    ∧ q.names = [p.name] ∧ q.dataExchange = p.dataExchange ∧ q.equipments = p.equipments
    ∧ q.write.render = p.write.render ∧ q.write.indent.render = p.write.indent.render := by
  have hread := read_write h.coherent
  have hvalue : (Platform.read p.write).run.value = .ok p.rewritten
      ∧ (Platform.read p.write).run.findings = [] := by
    rw [hread]
    exact ⟨rfl, rfl⟩
  refine ⟨p.rewritten, ?_, rfl, rfl, rfl, ?_, ?_⟩
  · intro text htext
    rcases List.mem_pair.1 htext with rfl | rfl
    · exact ⟨p.write, p.parse_render_plain, hvalue⟩
    · exact ⟨p.write, p.parse_render_write, hvalue⟩
  · rw [write_rewritten]
  · rw [write_rewritten]

theorem Built.parse_render_signals :
    ∃ p q : Platform, p.Built ∧ p.names = ["<P>", "<P>"] ∧ q.names = ["<P>_<P>"]
    ∧ ∃ root, Element.parse p.write.indent.render = .ok root
      ∧ (Platform.read root).run.value = .ok q := by
  let root := (signalRoot "a").set "Name" "<P>"
  obtain ⟨d, hd, hnames⟩ : ∃ d, (Platform.read root).run.value = .ok d ∧ d.names = ["<P>"] :=
    ⟨_, rfl, rfl⟩
  have hbuilt := Built.merge (.merge .empty (.read hd)) (.read hd)
  obtain ⟨q, htexts, hq, -⟩ := Built.parse_render hbuilt
  obtain ⟨written, hparse, hread, -⟩ := htexts _ (List.mem_pair.2 (.inr rfl))
  have hmerged : ((Platform.merge (Platform.merge {} d).value d).value).names = ["<P>", "<P>"] := by
    show ([] ++ d.names) ++ d.names = _
    rw [hnames]
    rfl
  refine ⟨_, q, hbuilt, hmerged, ?_, written, hparse, hread⟩
  rw [hq, Platform.name, hmerged]
  rfl

end Avionics.Exchange.Platform
