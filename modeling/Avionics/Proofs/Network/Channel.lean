import Avionics.Network.Channel
import Avionics.Proofs.Keyed.Agreement
import Avionics.Proofs.Keyed.Merge
import Mathlib.Data.List.Induction

namespace Avionics.Channel

theorem compatible_iff {c d : Channel} :
    c.compatible d = true ↔ c.type = d.type ∧ c.fifoSize = d.fifoSize
    ∧ c.messageMaxSize = d.messageMaxSize ∧ ∀ name, c.signals.get? name = d.signals.get? name := by
  simp [compatible, Keyed.agrees_iff, and_assoc]

theorem compatible_refl (c : Channel) : c.compatible c = true :=
  compatible_iff.2 ⟨rfl, rfl, rfl, fun _ => rfl⟩

theorem compatible_symm {c d : Channel} (h : c.compatible d = true) : d.compatible c = true := by
  obtain ⟨ht, hf, hm, hs⟩ := compatible_iff.1 h
  exact compatible_iff.2 ⟨ht.symm, hf.symm, hm.symm, fun name => (hs name).symm⟩

theorem compatible_trans {c d e : Channel} (h : c.compatible d = true)
    (h' : d.compatible e = true) : c.compatible e = true := by
  obtain ⟨ht, hf, hm, hs⟩ := compatible_iff.1 h
  obtain ⟨ht', hf', hm', hs'⟩ := compatible_iff.1 h'
  exact compatible_iff.2 ⟨ht.trans ht', hf.trans hf', hm.trans hm', fun name =>
    (hs name).trans (hs' name)⟩

theorem equivalence_compatible : Equivalence fun c d : Channel => c.compatible d = true :=
  ⟨compatible_refl, compatible_symm, compatible_trans⟩

theorem compatible_congr {c c' d d' : Channel} (hc : c.compatible c' = true)
    (hd : d.compatible d' = true) : c.compatible d = c'.compatible d' := by
  rw [Bool.eq_iff_iff]
  constructor
  · intro h
    exact compatible_trans (compatible_trans (compatible_symm hc) h) hd
  · intro h
    exact compatible_trans (compatible_trans hc h) (compatible_symm hd)

/-- What may differ is the order of the signals, and all that is not about the link itself:
the name, the direction, the header and the endpoint. -/
structure Rearranged (c d : Channel) : Prop where
  type : c.type = d.type
  fifoSize : c.fifoSize = d.fifoSize
  messageMaxSize : c.messageMaxSize = d.messageMaxSize
  signals : c.signals.entries.Perm d.signals.entries

theorem Rearranged.compatible {c d : Channel} (h : c.Rearranged d) : c.compatible d = true :=
  compatible_iff.2 ⟨h.type, h.fifoSize, h.messageMaxSize, Keyed.get?_eq_of_perm h.signals⟩

/-- Two declarations can be of one link exactly when they lay out the same signals in the same way
and agree in what describes the link; in which order they list the signals does not matter. -/
theorem compatible_layout : (Equivalence fun c d : Channel => c.compatible d = true)
    ∧ (∀ c d : Channel, c.compatible d = true ↔ c.type = d.type ∧ c.fifoSize = d.fifoSize
      ∧ c.messageMaxSize = d.messageMaxSize ∧ ∀ name, c.signals.get? name = d.signals.get? name)
    ∧ ∀ c c' d d' : Channel, c.Rearranged c' → d.Rearranged d' →
    c.compatible d = c'.compatible d' :=
  ⟨equivalence_compatible, fun _ _ => compatible_iff, fun _ _ _ _ hc hd =>
    compatible_congr hc.compatible hd.compatible⟩

def listing (name : String) (direction : Direction) (names : List String) : Channel where
  name := name
  type := .a664
  direction := direction
  fifoSize := "4"
  messageMaxSize := "64"
  header := { sequenceNumber := direction = .output }
  signals := .ofList (names.map fun n => (n, { byteOffset := n }))

theorem compatible_layout_listing :
    (listing "C" .input ["0", "4"]).Rearranged (listing "D" .output ["4", "0"])
    ∧ (listing "E" .input ["4", "0"]).Rearranged (listing "F" .output ["0", "4"])
    ∧ (listing "C" .input ["0", "4"]).compatible (listing "E" .input ["4", "0"])
      = (listing "D" .output ["4", "0"]).compatible (listing "F" .output ["0", "4"])
    ∧ (listing "C" .input ["0", "4"]).compatible (listing "E" .input ["4", "0"]) = true
    ∧ (listing "C" .input ["0", "4"]).compatible (listing "E" .input ["4"]) = false := by
  obtain ⟨-, -, hcongr⟩ := compatible_layout
  have hc : (listing "C" .input ["0", "4"]).Rearranged (listing "D" .output ["4", "0"]) :=
    ⟨rfl, rfl, rfl, .swap ..⟩
  have hd : (listing "E" .input ["4", "0"]).Rearranged (listing "F" .output ["0", "4"]) :=
    ⟨rfl, rfl, rfl, .swap ..⟩
  exact ⟨hc, hd, hcongr _ _ _ _ hc hd, by decide, by decide⟩

def overrides (first new : Channel) : Bool := new.direction = .output && new.compatible first

def settledHeader (first : Channel) (later : List Channel) : Header :=
  if first.direction = .output then first.header
  else (later.filter first.overrides).getLast?.elim first.header header

def settled (first : Channel) (later : List Channel) : Channel :=
  { first with header := settledHeader first later }

def remark (first : Channel) (header : Header) (new : Channel) : Report :=
  let stored := { first with header := header }
  if new.compatible first then
    if new.header = header then [] else [.headerMismatch new.name new.display stored.display]
  else [.incompatible "channel" new.name new.display stored.display]

def remarks (first : Channel) (later : List Channel) : Report :=
  later.zipIdx.flatMap fun c => remark first (settledHeader first (later.take c.2)) c.1

@[simp] theorem settledHeader_nil (first : Channel) : settledHeader first [] = first.header := by
  rw [settledHeader]
  split <;> rfl

theorem settledHeader_concat (first : Channel) (later : List Channel) (new : Channel) :
    settledHeader first (later ++ [new])
      = if first.direction = .input ∧ first.overrides new = true then new.header
        else settledHeader first later := by
  unfold settledHeader
  cases first.direction with
  | output => simp
  | input => cases h : first.overrides new <;> simp [List.filter_append, h]

theorem remarks_concat (first : Channel) (later : List Channel) (new : Channel) :
    remarks first (later ++ [new]) = remarks first later ++ remark first
    (settledHeader first later) new := by
  have hearlier : later.zipIdx.flatMap
      (fun c => remark first (settledHeader first ((later ++ [new]).take c.2)) c.1)
      = remarks first later := by
    refine List.flatMap_congr fun c hc => ?_
    have hlt := (List.mem_zipIdx' hc).1
    rw [List.take_append_of_le_length (Nat.le_of_lt hlt)]
  rw [remarks, List.zipIdx_append, List.flatMap_append, hearlier, List.zipIdx_singleton,
    List.flatMap_singleton, Nat.zero_add, List.take_left]

section Join

variable (held first : Channel) (later : List Channel) (new : Channel)

theorem value_join : (held.join new).value
    = if held.direction = .input ∧ held.overrides new = true then { held with header := new.header }
      else held := by
  rw [join]
  split
  · next hcompatible =>
    have hoverrides : held.overrides new = true ↔ new.direction = .output := by
      simp [overrides, hcompatible]
    simp only [hoverrides]
    by_cases hdirection : held.direction = .input ∧ new.direction = .output
    · simp only [if_pos hdirection]
      split <;> rfl
    · simp only [if_neg hdirection]
      split <;> rfl
  · next hcompatible =>
    have hoverrides : ¬held.overrides new = true := by simp [overrides, hcompatible]
    rw [if_neg (fun h => hoverrides h.2)]
    rfl

theorem findings_join : (held.join new).findings = remark held held.header new := by
  rw [join, remark]
  split
  · by_cases hheader : new.header = held.header
    · rw [if_pos hheader, if_neg (not_not.2 hheader)]
      split <;> rfl
    · rw [if_neg hheader, if_pos hheader]
      split <;> rfl
  · rfl

theorem value_join_settled :
    ((settled first later).join new).value = settled first (later ++ [new]) := by
  have hoverrides : (settled first later).overrides new = first.overrides new := rfl
  rw [value_join, hoverrides, settled, settled, settledHeader_concat]
  split <;> rfl

theorem findings_join_settled :
    ((settled first later).join new).findings = remark first (settledHeader first later) new :=
  findings_join (settled first later) new

end Join

theorem joinAll_later (first : Channel) (later : List Channel) :
    (Keyed.joinAll join (some first) later).value = some (settled first later)
      ∧ (Keyed.joinAll join (some first) later).findings = remarks first later := by
  induction later using List.reverseRecOn with
  | nil => exact ⟨by rw [settled, settledHeader_nil]; rfl, rfl⟩
  | append_singleton later new ih =>
    obtain ⟨hvalue, hfindings⟩ := ih
    rw [Keyed.joinAll_concat]
    constructor
    · rw [Noted.value_bind, hvalue, Noted.joinOption_some, Noted.value_map, value_join_settled]
    · rw [Noted.findings_bind, hvalue, Noted.joinOption_some, Noted.findings_map,
        findings_join_settled, hfindings, remarks_concat]

theorem errors_remark {first : Channel} {header : Header} {new : Channel} :
    (remark first header new).errors = 0 ↔ new.compatible first = true := by
  rw [remark]
  split
  · next h =>
    refine iff_of_true ?_ h
    split <;> rfl
  · next h => exact iff_of_false (by simp [Report.errors, Finding.isError, Finding.severity]) h

theorem settledHeader_mem (first : Channel) (later : List Channel) :
    ∃ c ∈ first :: later, settledHeader first later = c.header := by
  rw [settledHeader]
  split
  · exact ⟨first, List.mem_cons_self, rfl⟩
  · cases h : (later.filter first.overrides).getLast? with
    | none => exact ⟨first, List.mem_cons_self, rfl⟩
    | some c =>
      exact ⟨c, List.mem_cons_of_mem _ (List.mem_of_mem_filter (List.mem_of_getLast? h)), rfl⟩

theorem settledHeader_of_producer {first producer : Channel} {later : List Channel}
    (hproducer : (first :: later).filter (fun c => c.direction = .output) = [producer])
    (hcompatible : ∀ c ∈ later, c.compatible first = true) :
    settledHeader first later = producer.header := by
  rw [settledHeader]
  cases hd : first.direction with
  | output =>
    rw [List.filter_cons_of_pos (by simp [hd])] at hproducer
    rw [if_pos rfl, (List.cons.inj hproducer).1]
  | input =>
    rw [List.filter_cons_of_neg (by simp [hd])] at hproducer
    have hoverrides : later.filter first.overrides = [producer] := by
      rw [← hproducer]
      exact List.filter_congr fun c hc => by simp [overrides, hcompatible c hc]
    rw [if_neg (by simp), hoverrides]
    rfl

end Avionics.Channel
