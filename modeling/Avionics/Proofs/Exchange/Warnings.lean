import Avionics.Proofs.Exchange.Folding

namespace Avionics

open Markup (Element)
open Exchange (Platform Schema)

namespace Exchange

theorem Record.notes_join {kind : RecordKind} (held new : Record kind) :
    (held.join new).Notes (·.isError = true) := by
  rw [join]
  split
  · exact .pure held
  · rintro f hf
    cases List.mem_singleton.1 hf
    rfl

theorem Schema.notes_merge (s : Schema) (held new : s.Content) :
    (s.merge held new).Notes (·.isError = true) := by
  induction s with
  | records kind => exact Keyed.notes_merge Record.notes_join held new
  | unsupported tag what key => exact .pure ()
  | both s t ihs iht =>
    exact (ihs held.1 new.1).bind fun c => (iht held.2 new.2).bind fun d => .pure (c, d)
  | group tag s ih => exact Keyed.notes_merge ih held new
  | part tag s ih => exact ih held new
  | option tag s ih =>
    cases new with
    | none => exact .pure held
    | some new =>
      cases held with
      | none => exact .pure (some new)
      | some held => exact (ih held new).bind fun c => .pure (some c)
  | directional s ih =>
    exact (ih held.consumed new.consumed).bind fun c =>
      (ih held.produced new.produced).bind fun p => .pure (Directional.mk p c)

theorem Platform.notes_merge (held new : Platform) : (held.merge new).Notes (·.isError = true) :=
  (Schema.platform.notes_merge held.content new.content).bind fun _ => .pure _

end Exchange

namespace Resolution

def warningsOf (root : Element) : Report :=
  (Platform.read root).run.findings.filter fun f => !f.isError

theorem addPlatform_warnings {held next : Noted Platform} {root : Element}
    (h : addPlatform held root = .ok next) :
    next.findings.filter (fun f => !f.isError) = held.findings.filter (fun f => !f.isError)
      ++ warningsOf root := by
  obtain ⟨p, hp, hnext⟩ := bind_eq_ok.1 h
  cases hnext
  have hmerge : (held.value.merge p).findings.filter (fun f => !f.isError) = [] := by
    rw [List.filter_eq_nil_iff]
    intro f hf
    simp [held.value.notes_merge p f hf]
  rw [List.filter_append, List.filter_append, hmerge, List.append_nil]
  rfl

theorem foldlM_addPlatform_warnings {roots : List Element} {held merged : Noted Platform}
    (h : roots.foldlM addPlatform held = .ok merged) : merged.findings.filter (fun f => !f.isError)
      = held.findings.filter (fun f => !f.isError) ++ roots.flatMap warningsOf := by
  induction roots generalizing held with
  | nil =>
    cases h
    exact (List.append_nil _).symm
  | cons root roots ih =>
    rw [List.foldlM_cons] at h
    obtain ⟨next, hnext, hrest⟩ := bind_eq_ok.1 h
    rw [ih hrest, addPlatform_warnings hnext, List.append_assoc, List.flatMap_cons]

theorem warnings_mergePlatforms {roots : List Element} {merged : Noted Platform}
    (h : mergePlatforms roots = .ok merged) :
    merged.findings.filter (fun f => !f.isError) = roots.flatMap warningsOf :=
  foldlM_addPlatform_warnings h

end Resolution

end Avionics
