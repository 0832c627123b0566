import Avionics.Exchange.Platform
import Avionics.Inversion
import Avionics.Proofs.Exchange.Record
import Avionics.Proofs.Keyed.Mapping
import Avionics.Proofs.Markup.Retagging

namespace Avionics

open Markup (Element Tag)

namespace Inversion

def invertedName (name : String) : String :=
  if name = "ProducedData" then "ConsumedData" else if name = "ConsumedData"
    then "ProducedData" else name

theorem invertExchangeTag_eq (t : Tag) :
    invertExchangeTag t = { t with name := invertedName t.name } := by
  rw [invertExchangeTag, invertedName]
  split
  · rfl
  · split
    · rfl
    · rfl

@[simp] theorem invertedName_invertedName (name : String) :
    invertedName (invertedName name) = name := by
  unfold invertedName
  split_ifs <;> simp_all

theorem invertedName_eq_iff {a b : String} : invertedName a = b ↔ a = invertedName b := by
  constructor
  · rintro rfl
    exact (invertedName_invertedName a).symm
  · rintro rfl
    exact invertedName_invertedName b

variable (e : Element)

theorem childrenNamed_invertExchange (tag : String) :
    (invertExchange e).childrenNamed tag = (e.childrenNamed (invertedName tag)).map
      invertExchange := by
  refine Element.childrenNamed_mapTags (fun t => ?_) e
  rw [invertExchangeTag_eq]
  exact invertedName_eq_iff

theorem name_invertExchange : (invertExchange e).name = invertedName e.name := by
  rw [invertExchange, Element.toTag_mapTags, invertExchangeTag_eq]

theorem attribute?_invertExchange (key : String) :
    (invertExchange e).attribute? key = e.attribute? key := by
  rw [invertExchange, Element.toTag_mapTags, invertExchangeTag_eq]
  rfl

variable {e} in
theorem toTag_invertExchange (h : invertedName e.name = e.name) :
    (invertExchange e).toTag = e.toTag := by
  rw [invertExchange, Element.toTag_mapTags, invertExchangeTag_eq, h]

theorem mirrors_required (key : String) :
    Reading.Mirrors id (liftM (e.required key)) (liftM ((invertExchange e).required key)) := by
  apply Reading.Mirrors.liftExcept
  rw [Element.toOption_required, Element.toOption_required, attribute?_invertExchange]

end Inversion

namespace Exchange

open Inversion

theorem Record.read_congr {kind : RecordKind} {d e : Element} (h : d.toTag = e.toTag) :
    read kind d = read kind e := by
  cases d
  cases e
  cases h
  rfl

namespace Schema

def inverted : (s : Schema) → s.Content → s.Content
  | records _, c => c
  | unsupported .., c => c
  | both s t, c => (s.inverted c.1, t.inverted c.2)
  | group _ s, c => Keyed.mapValues s.inverted c
  | part _ s, c => s.inverted c
  | option _ s, c => Option.map s.inverted c
  | directional s, c => ⟨s.inverted c.consumed, s.inverted c.produced⟩

def neutral : Schema → Bool
  | records _ => true
  | unsupported tag .. => invertedName tag = tag
  | both s t => s.neutral && t.neutral
  | group tag s | part tag s | option tag s => invertedName tag = tag && s.neutral
  | directional s => s.neutral

theorem neutral_platform : platform.neutral = true := by decide

theorem inverted_empty (s : Schema) : s.inverted s.empty = s.empty := by
  induction s with
  | records | unsupported | group | option => rfl
  | both s t ihs iht => exact congrArg₂ Prod.mk ihs iht
  | part tag s ih => exact ih
  | directional s ih => exact congrArg₂ Directional.mk ih ih

theorem mirrors_merge (s : Schema) (held new : s.Content) :
    Noted.Mirrors s.inverted (s.merge held new) (s.merge (s.inverted held) (s.inverted new)) := by
  induction s with
  | records kind => exact .refl _
  | unsupported tag what key => exact .refl _
  | both s t ihs iht =>
    exact (ihs held.1 new.1).bind fun c => (iht held.2 new.2).bind fun d =>
      .pure (both s t).inverted (c, d)
  | group tag s ih => exact Keyed.mirrors_merge ih held new
  | part tag s ih => exact ih held new
  | option tag s ih =>
    cases new with
    | none => exact .pure (option tag s).inverted held
    | some new =>
      cases held with
      | none => exact .pure (option tag s).inverted (some new)
      | some held => exact (ih held new).bind fun c => .pure (option tag s).inverted (some c)
  | directional s ih =>
    exact .swap (ih held.consumed new.consumed) (ih held.produced new.produced) fun _ _ => rfl

theorem mirrors_readAll {s : Schema}
    (h : ∀ e, Reading.Mirrors s.inverted (s.read e) (s.read (invertExchange e)))
    (es : List Element) :
    Reading.Mirrors s.inverted (s.readAll s.read es)
    (s.readAll s.read (es.map invertExchange)) := by
  rw [readAll, readAll]
  nth_rewrite 2 [← inverted_empty]
  refine Reading.Mirrors.foldlM (fun e _ held => ?_) s.empty
  exact (h e).bind fun new => .lift (s.mirrors_merge held new)

/-- Consumed data, which is read first, comes second in the inverted element. -/
theorem mirrors_read {s : Schema} (hs : s.neutral = true) (e : Element) :
    Reading.Mirrors s.inverted (s.read e) (s.read (invertExchange e)) := by
  induction s generalizing e with
  | records kind =>
    have hkind : invertedName kind.tag = kind.tag := by cases kind <;> decide
    rw [read, read, childrenNamed_invertExchange, hkind]
    refine Reading.Mirrors.foldlM (f := id) (fun c hc held => ?_)
      (Keyed.empty : Keyed String (Record kind))
    have hc : c.name = kind.tag := of_decide_eq_true (List.mem_filter.1 hc).2
    rw [Record.read_congr (toTag_invertExchange (hc ▸ hkind))]
    exact .refl _
  | unsupported tag what key =>
    have htag : invertedName tag = tag := of_decide_eq_true hs
    have hread : (unsupported tag what key).read (invertExchange e)
        = (unsupported tag what key).read e := by
      rw [read, read, childrenNamed_invertExchange, htag]
      refine (List.forM_map (m := Reading) ..).trans ?_
      simp only [attribute?_invertExchange]
      rfl
    rw [hread]
    exact .refl _
  | both s t ihs iht =>
    simp only [neutral, Bool.and_eq_true] at hs
    rw [read, read]
    exact (ihs hs.1 e).bind fun c => (iht hs.2 e).bind fun d => .pure (both s t).inverted (c, d)
  | group tag s ih =>
    simp only [neutral, Bool.and_eq_true, decide_eq_true_eq] at hs
    rw [read, read, childrenNamed_invertExchange, hs.1]
    refine Reading.Mirrors.foldlM (f := Keyed.mapValues s.inverted) (fun c _ held => ?_)
      (Keyed.empty : Keyed String s.Content)
    exact (mirrors_required c "Name").bind fun name => (ih hs.2 c).bind fun new =>
      .lift (Keyed.mirrors_absorb s.mirrors_merge held name new)
  | part tag s ih =>
    simp only [neutral, Bool.and_eq_true, decide_eq_true_eq] at hs
    rw [read, read, childrenNamed_invertExchange, hs.1]
    exact mirrors_readAll (ih hs.2) _
  | option tag s ih =>
    simp only [neutral, Bool.and_eq_true, decide_eq_true_eq] at hs
    rw [read, read, childrenNamed_invertExchange, hs.1]
    cases e.childrenNamed tag with
    | nil => exact .pure (option tag s).inverted none
    | cons c cs =>
      exact (mirrors_readAll (ih hs.2) (c :: cs)).bind fun all =>
        .pure (option tag s).inverted (some all)
  | directional s ih =>
    have hconsumed : invertedName "ConsumedData" = "ProducedData" := by decide
    have hproduced : invertedName "ProducedData" = "ConsumedData" := by decide
    rw [read, read, childrenNamed_invertExchange, childrenNamed_invertExchange,
      hconsumed, hproduced]
    exact .swap (mirrors_readAll (ih hs) _) (mirrors_readAll (ih hs) _) fun _ _ => rfl

end Schema

end Exchange

end Avionics
