import Avionics.Proofs.Exchange.Grammar
import Avionics.Proofs.Exchange.Writing
import Avionics.Proofs.Markup.Pruning

namespace Avionics.Exchange

open Markup (Element)

theorem Record.read_only {kind : RecordKind} (c : Element) :
    Record.read kind (c.only (kind.required ++ kind.optional) []) = Record.read kind c := by
  have hrequired : ∀ name ∈ kind.required,
      (c.only (kind.required ++ kind.optional) []).required name = c.required name :=
    fun name hname => Element.required_only (List.mem_append_left _ hname) c []
  have hoptional : ∀ name ∈ kind.optional,
      (c.only (kind.required ++ kind.optional) []).attribute? name = c.attribute? name :=
    fun name hname => Element.attribute?_only (List.mem_append_right _ hname) c []
  rw [read, Values.collect_congr hrequired, Values.ofNames_eq_iff.2 hoptional]
  rfl

namespace Schema

def keep : Schema → Element → Option Element
  | records kind, c => c.pick kind.tag fun c => c.only (kind.required ++ kind.optional) []
  | unsupported tag _ key, c => c.pick tag fun c => c.only [key] []
  | both s t, c => (s.keep c).or (t.keep c)
  | group tag s, c => c.pick tag fun c => c.only ["Name"] (c.children.filterMap s.keep)
  | part tag s, c | option tag s, c => c.pick tag fun c => c.only [] (c.children.filterMap s.keep)
  | directional s, c =>
    (c.pick "ProducedData" fun c => c.only [] (c.children.filterMap s.keep)).or
      (c.pick "ConsumedData" fun c => c.only [] (c.children.filterMap s.keep))

theorem name_of_keep {s : Schema} {c d : Element} (h : s.keep c = some d) : d.name = c.name := by
  induction s with
  | records kind | unsupported tag what key | group tag s ih | part tag s ih | option tag s ih =>
    exact Element.name_of_pick h fun _ => rfl
  | both s t ihs iht =>
    rcases Option.or_eq_some_iff.1 h with h | ⟨-, h⟩
    · exact ihs h
    · exact iht h
  | directional s ih =>
    rcases Option.or_eq_some_iff.1 h with h | ⟨-, h⟩
    · exact Element.name_of_pick h fun _ => rfl
    · exact Element.name_of_pick h fun _ => rfl

theorem keep_of_not_mem_heads {s : Schema} {c : Element} (h : c.name ∉ s.heads) :
    s.keep c = none := by
  induction s with
  | records kind | unsupported tag what key | group tag s ih | part tag s ih | option tag s ih =>
    exact Element.pick_of_ne (fun hname => h (List.mem_singleton.2 hname)) _
  | both s t ihs iht =>
    rw [heads, List.mem_append, not_or] at h
    rw [keep, ihs h.1, iht h.2]
    rfl
  | directional s ih =>
    simp only [heads, List.mem_cons, List.not_mem_nil, or_false, not_or] at h
    rw [keep, Element.pick_of_ne h.1, Element.pick_of_ne h.2]
    rfl

def Pruned (s : Schema) (d e : Element) : Prop :=
  ∀ tag ∈ s.heads, d.childrenNamed tag = (e.childrenNamed tag).filterMap s.keep

theorem pruned_only (s : Schema) (keys : List String) (e : Element) :
    s.Pruned (e.only keys (e.children.filterMap s.keep)) e := fun tag _ =>
  Element.filter_named_filterMap (fun _ _ => name_of_keep) tag e.children

section Pruned

variable {s t : Schema} {d e : Element}

theorem Pruned.first (h : (both s t).Pruned d e) (hst : s.heads.all (· ∉ t.heads) = true) :
    s.Pruned d e := by
  intro tag htag
  rw [h tag (List.mem_append_left _ htag)]
  -- Nothing of this name is kept for the second description.
  refine List.filterMap_congr fun c hc => ?_
  have hname : c.name = tag := Element.named_iff.1 (List.of_mem_filter hc)
  rw [keep, keep_of_not_mem_heads fun ht => disjoint_heads hst htag (hname ▸ ht), Option.or_none]

theorem Pruned.second (h : (both s t).Pruned d e) (hst : s.heads.all (· ∉ t.heads) = true) :
    t.Pruned d e := by
  intro tag htag
  rw [h tag (List.mem_append_right _ htag)]
  refine List.filterMap_congr fun c hc => ?_
  have hname : c.name = tag := Element.named_iff.1 (List.of_mem_filter hc)
  rw [keep, keep_of_not_mem_heads fun hs => disjoint_heads hst (hname ▸ hs) htag, Option.none_or]

theorem Pruned.childrenNamed_eq {tag : String} {f : Element → Element} (h : s.Pruned d e)
    (htag : tag ∈ s.heads) (hkeep : ∀ c, c.name = tag → s.keep c = some (f c)) :
    d.childrenNamed tag = (e.childrenNamed tag).map f :=
  (h tag htag).trans (Element.filterMap_named hkeep e.children)

theorem readAll_map {f : Element → Element} (h : ∀ c, s.read (f c) = s.read c) (cs : List Element) :
    s.readAll s.read (cs.map f) = s.readAll s.read cs :=
  foldlM_map_eq (fun held c => by rw [h]) cs s.empty

end Pruned

section Read

variable {kind : RecordKind} {tag what key : String} {s : Schema} {d e : Element}
    {f : Element → Element}

theorem read_records_of_map (h : d.childrenNamed kind.tag = (e.childrenNamed kind.tag).map f)
    (hf : ∀ c, Record.read kind (f c) = Record.read kind c) :
    (records kind).read d = (records kind).read e := by
  rw [read, h]
  exact foldlM_map_eq (fun held c => by rw [hf]) (e.childrenNamed kind.tag) Keyed.empty

theorem read_unsupported_of_map (h : d.childrenNamed tag = (e.childrenNamed tag).map f)
    (hf : ∀ c, (f c).attribute? key = c.attribute? key) :
    (unsupported tag what key).read d = (unsupported tag what key).read e := by
  rw [read, h]
  refine List.forM_map.trans ?_
  simp only [hf]
  rfl

theorem read_group_of_map (h : d.childrenNamed tag = (e.childrenNamed tag).map f)
    (hname : ∀ c, (f c).required "Name" = c.required "Name") (hf : ∀ c, s.read (f c) = s.read c) :
    (group tag s).read d = (group tag s).read e := by
  rw [read, h]
  exact foldlM_map_eq (fun held c => by rw [hname, hf]) (e.childrenNamed tag) Keyed.empty

theorem read_part_of_map (h : d.childrenNamed tag = (e.childrenNamed tag).map f)
    (hf : ∀ c, s.read (f c) = s.read c) : (part tag s).read d = (part tag s).read e := by
  rw [read, h]
  exact readAll_map hf (e.childrenNamed tag)

theorem read_option_of_map (h : d.childrenNamed tag = (e.childrenNamed tag).map f)
    (hf : ∀ c, s.read (f c) = s.read c) : (option tag s).read d = (option tag s).read e := by
  rw [read, h, read]
  cases e.childrenNamed tag with
  | nil => rfl
  | cons c cs => exact congrArg (· >>= fun all => pure (some all)) (readAll_map hf (c :: cs))

theorem read_directional_of_map
    (hc : d.childrenNamed "ConsumedData" = (e.childrenNamed "ConsumedData").map f)
    (hp : d.childrenNamed "ProducedData" = (e.childrenNamed "ProducedData").map f)
    (hf : ∀ c, s.read (f c) = s.read c) : (directional s).read d = (directional s).read e := by
  rw [read, hc, hp, readAll_map hf, readAll_map hf]
  rfl

end Read

theorem read_of_pruned {s : Schema} (hs : s.wellFormed = true) {d e : Element} (h : s.Pruned d e) :
    s.read d = s.read e := by
  induction s generalizing d e with
  | records kind =>
    exact read_records_of_map (h.childrenNamed_eq (List.mem_singleton_self _) fun c hc =>
      Element.pick_of_name hc _) Record.read_only
  | unsupported tag what key =>
    exact read_unsupported_of_map (h.childrenNamed_eq (List.mem_singleton_self _) fun c hc =>
      Element.pick_of_name hc _)
      fun c => Element.attribute?_only (List.mem_singleton_self key) c []
  | both s t ihs iht =>
    simp only [wellFormed, Bool.and_eq_true] at hs
    obtain ⟨⟨hs, ht⟩, hst⟩ := hs
    rw [read, ihs hs (h.first hst), iht ht (h.second hst)]
    rfl
  | group tag s ih =>
    simp only [wellFormed, Bool.and_eq_true] at hs
    exact read_group_of_map (h.childrenNamed_eq (List.mem_singleton_self _) fun c hc =>
      Element.pick_of_name hc _)
      (fun c => Element.required_only (List.mem_singleton_self "Name") c _) fun c =>
        ih hs.2 (pruned_only s ["Name"] c)
  | part tag s ih =>
    simp only [wellFormed, Bool.and_eq_true] at hs
    exact read_part_of_map (h.childrenNamed_eq (List.mem_singleton_self _) fun c hc =>
      Element.pick_of_name hc _)
      fun c => ih hs.2 (pruned_only s [] c)
  | option tag s ih =>
    simp only [wellFormed, Bool.and_eq_true] at hs
    exact read_option_of_map (h.childrenNamed_eq (List.mem_singleton_self _) fun c hc =>
      Element.pick_of_name hc _)
      fun c => ih hs.2 (pruned_only s [] c)
  | directional s ih =>
    refine read_directional_of_map
      (h.childrenNamed_eq (List.mem_cons_of_mem _ List.mem_cons_self) fun c hc => ?_)
      (h.childrenNamed_eq List.mem_cons_self fun c hc => ?_) fun c => ih hs (pruned_only s [] c)
    · rw [keep, Element.pick_of_ne (by rw [hc]; decide), Element.pick_of_name hc, Option.none_or]
    · rw [keep, Element.pick_of_name hc, Option.some_or]

end Schema

namespace Platform

def essential (root : Element) : Element :=
  root.only ["Name"] (root.children.filterMap Schema.platform.keep)

theorem read_essential (root : Element) : read (essential root) = read root := by
  have hname : (essential root).required "Name" = root.required "Name" :=
    Element.required_only (List.mem_singleton_self "Name") root _
  have hcontent : Schema.platform.read (essential root) = Schema.platform.read root :=
    Schema.read_of_pruned Schema.wellFormed_platform
      (Schema.pruned_only Schema.platform ["Name"] root)
  rw [read, hname, hcontent]
  rfl

theorem read_accepts (root : Element) :
    (Accepted root ↔ Formed root) ∧ read (essential root) = read root :=
  ⟨accepted_iff, read_essential root⟩

end Platform

end Avionics.Exchange
