import Avionics.Proofs.Resolution.Progress

namespace Avionics.Resolution

open Markup (Element)
open Storage (Location Path Volume)

namespace Procedure

variable {σ : Type} (P : Procedure σ)

structure Copied (before : Volume) (inputs done : List Path) (held : σ)
    (written : List (Path × String)) (w : Volume) (result : Except Failure Summary)
    (after : Volume) : Prop where
  progress : P.Progress before done held written w
  files : before.writeAll written = (.ok (), w)
  paths : written.map Prod.fst = P.copyPaths done
  /-- The next input, if there is one, could not be read or parsed, unless its copy could not be
  written. -/
  longest : ∃ rest, inputs = done ++ rest ∧ ∀ input ∈ rest.head?, ∃ f, result = .error f
    ∧ P.Stops w held input f after
    ∧ ((∀ next copy, P.receive w held input = .ok (next, copy) →
        before.Writable input.resolved copy.indent.render) →
      P.receive w held input = .error f ∧ after = w)

structure AllOrNothing (before : Volume) (inputs : List Path) (output : Path)
    (result : Except Failure Summary) (after : Volume) : Prop where
  missing : ¬Present before inputs → ∃ earlier input later, inputs = earlier ++ input :: later
    ∧ Present before earlier ∧ before.isFile input = false ∧ result = .error (.missingInput input)
    ∧ after = before
  /-- It is only by writing the output, once all inputs were taken in, that a run that fails can
  change it. -/
  failed : ∀ f, result = .error f → after.file? output = before.file? output
    ∨ ∃ held written w cause, P.Progress before inputs held written w ∧ f = .access output cause
      ∧ w.write output (P.merged held).indent.render = (.error cause, after)
  returned : ∀ summary, result = .ok summary → ∃ held written w,
    P.Progress before inputs held written w ∧ summary.report = P.report held
    ∧ summary.written = summary.succeeded
    ∧ after.file? output = if summary.written then some (.text (P.merged held).indent.render)
      else before.file? output
  copied : Present before inputs → ∃ done held written w,
    P.Copied before inputs done held written w result after
    ∧ (done = inputs → Finishes (P.report held) output (P.merged held).indent.render w result after)
  kept : Volume.Kept before (output :: P.copyPaths inputs) after

variable {P} {before w w' after : Volume} {inputs done : List Path} {input output : Path}
  {held : σ} {written : List (Path × String)} {f : Failure} {result : Except Failure Summary}

theorem file?_output (h : Volume.Kept before (P.copyPaths done) w)
    (hapart : P.copying = true → ∀ input ∈ done, before.Apart input.resolved output) :
    w.file? output = before.file? output := by
  refine h.file? fun p hp => ?_
  obtain ⟨hcopying, input, hinput, rfl⟩ := P.mem_copyPaths.1 hp
  exact hapart hcopying input hinput

namespace Stops

theorem kept (h : P.Stops w held input f w') : Volume.Kept w (P.copyPaths [input]) w' := by
  cases h with
  | refused => exact (Volume.Kept.refl w).mono (List.nil_subset _)
  | @unwritable _ copy _ _ _ hwrite =>
    rw [← P.map_fst_copies input copy]
    exact Volume.kept_of_writeAll hwrite

theorem receive_eq (h : P.Stops w held input f w')
    (hcopy : ∀ next copy, P.receive w held input = .ok (next, copy) →
      w.Writable input.resolved copy.indent.render) :
    P.receive w held input = .error f ∧ w' = w := by
  cases h with
  | refused h => exact ⟨h, rfl⟩
  | unwritable hreceive hwrite =>
    have hwritable := hcopy _ _ hreceive
    rw [copies] at hwrite
    split at hwrite
    · rw [Volume.writeAll_singleton] at hwrite
      rw [Volume.Writable, hwrite] at hwritable
      cases hwritable
    · cases hwrite

end Stops

theorem Finishes.kept {report : Report} {text : String}
    (h : Finishes report output text w result after) : Volume.Kept w [output] after := by
  cases h with
  | aborted => exact (Volume.Kept.refl w).mono (List.nil_subset _)
  | unwritable _ hwrite => exact Volume.kept_of_write hwrite
  | written _ hwrite => exact Volume.kept_of_write hwrite

theorem Progress.kept_of_stops (h : P.Progress before done held written w)
    (hstops : P.Stops w held input f w') :
    Volume.Kept before (P.copyPaths (done ++ [input])) w' := by
  rw [copyPaths_append]
  exact h.kept.trans hstops.kept

namespace Outcome

theorem kept (h : P.Outcome before inputs output result after) :
    Volume.Kept before (output :: P.copyPaths inputs) after := by
  cases h with
  | missing => exact (Volume.Kept.refl before).mono (List.nil_subset _)
  | @stopped done rest input _ _ _ _ _ _ hinputs hprogress hstops =>
    refine (hprogress.kept_of_stops hstops).mono fun p hp => ?_
    have hsplit : inputs = done ++ [input] ++ rest := by simp [hinputs]
    rw [hsplit, copyPaths_append]
    exact List.mem_cons_of_mem _ (List.mem_append_left _ hp)
  | finished _ hprogress hfinishes =>
    refine (hprogress.kept.trans hfinishes.kept).mono fun p hp => ?_
    simpa [or_comm] using hp

theorem allOrNothing (h : P.Outcome before inputs output result after)
    (hapart : P.copying = true → ∀ input ∈ inputs, before.Apart input.resolved output) :
    P.AllOrNothing before inputs output result after where
  missing hnot := by
    cases h with
    | missing hinputs hearlier hinput => exact ⟨_, _, _, hinputs, hearlier, hinput, rfl, rfl⟩
    | stopped hpresent => exact absurd hpresent hnot
    | finished hpresent => exact absurd hpresent hnot
  failed f hf := by
    cases h with
    | missing => exact .inl rfl
    | @stopped done rest _ _ _ _ _ _ _ hinputs hprogress hstops =>
      refine .inl (file?_output (hprogress.kept_of_stops hstops) fun hcopying input hinput => ?_)
      refine hapart hcopying input ?_
      rw [hinputs, List.append_cons]
      exact List.mem_append_left rest hinput
    | finished _ hprogress hfinishes =>
      cases hf
      cases hfinishes with
      | unwritable _ hwrite => exact .inr ⟨_, _, _, _, hprogress, rfl, hwrite⟩
  returned summary hsummary := by
    cases h with
    | missing => cases hsummary
    | stopped => cases hsummary
    | finished _ hprogress hfinishes =>
      refine ⟨_, _, _, hprogress, ?_⟩
      cases hfinishes with
      | aborted herrors =>
        cases hsummary
        exact ⟨rfl, (decide_eq_false herrors).symm, file?_output hprogress.kept hapart⟩
      | unwritable => cases hsummary
      | written herrors hwrite =>
        cases hsummary
        exact ⟨rfl, (decide_eq_true herrors).symm, Volume.file?_of_write hwrite⟩
  copied hpresent := by
    cases h with
    | missing hinputs _ hinput =>
      have hfile := hpresent _ (hinputs ▸ List.mem_append_right _ List.mem_cons_self)
      cases hinput.symm.trans hfile
    | stopped _ hinputs hprogress hstops =>
      refine ⟨_, _, _, _, ⟨hprogress, hprogress.writeAll_eq, hprogress.map_fst, _, hinputs, ?_⟩, ?_⟩
      · rintro _ ⟨⟩
        refine ⟨_, rfl, hstops, fun hcopy => hstops.receive_eq fun next copy hreceive => ?_⟩
        exact hprogress.kept.writable.2 (hcopy next copy hreceive)
      · intro hall
        rw [hall] at hinputs
        cases List.append_right_eq_self.1 hinputs.symm
    | finished _ hprogress hfinishes =>
      exact ⟨_, _, _, _, ⟨hprogress, hprogress.writeAll_eq, hprogress.map_fst, [],
        (List.append_nil _).symm, nofun⟩, fun _ => hfinishes⟩
  kept := h.kept

end Outcome

end Procedure

/-- Both resolutions are all or nothing, the flat one as long as copies and output are different
files. -/
theorem resolve_allOrNothing :
    (∀ (inputs : List Path) (output : Path) (s : Session) (result : Except Failure Summary)
      (after : Session), (resolvePlatform inputs output).run.run s = (result, after) →
      Procedure.platform.AllOrNothing s.volume inputs output result after.volume)
    ∧ ∀ (inputs : List Path) (output : Path) (allocator : Allocator) (writeResolved : Bool)
      (s : Session) (result : Except Failure Summary) (after : Session),
      (writeResolved = true → ∀ input ∈ inputs, s.volume.Apart input.resolved output) →
      (resolveNetwork inputs output allocator writeResolved).run.run s = (result, after) →
      (Procedure.network allocator writeResolved).AllOrNothing s.volume inputs output result
        after.volume := by
  constructor
  · intro inputs output s result after hrun
    have h := Procedure.outcome .platform inputs output s
    rw [← resolvePlatform_eq, hrun] at h
    exact h.allOrNothing nofun
  · intro inputs output allocator writeResolved s result after hapart hrun
    have h := Procedure.outcome (.network allocator writeResolved) inputs output s
    rw [← resolveNetwork_eq, hrun] at h
    exact h.allOrNothing hapart

def refusedSession : Session where
  volume := { files := .ofList [
    (["a.xml"], .text "<Network/>"), (["b.xml"], .text ""), (["o.xml"], .text "old")] }

theorem resolve_allOrNothing_refused : ∃ after,
    (∀ input ∈ (["a.xml", "b.xml"] : List Path), refusedSession.volume.Apart input.resolved "o.xml")
    ∧ (resolveNetwork ["a.xml", "b.xml"] "o.xml" .standard true).run.run refusedSession
      = (.error .emptyDocument, after)
    ∧ after.volume.file? "o.xml" = some (.text "old")
    ∧ after.volume.files.keys
      = ([["a.xml"], ["b.xml"], ["o.xml"], ["a_resolved.xml"]] : List Location) := by
  have hapart : ∀ input ∈ (["a.xml", "b.xml"] : List Path),
      refusedSession.volume.Apart input.resolved "o.xml" := by
    decide +kernel
  have hresult : ((resolveNetwork ["a.xml", "b.xml"] "o.xml" .standard true).run.run
      refusedSession).1
      = .error .emptyDocument := by
    decide +kernel
  have hkeys : ((resolveNetwork ["a.xml", "b.xml"] "o.xml" .standard true).run.run
      refusedSession).2.volume.files.keys
      = ([["a.xml"], ["b.xml"], ["o.xml"], ["a_resolved.xml"]] : List Location) := by
    decide +kernel
  have hbefore : refusedSession.volume.file? "o.xml" = some (.text "old") := by decide +kernel
  rcases hrun : (resolveNetwork ["a.xml", "b.xml"] "o.xml" .standard true).run.run refusedSession
    with ⟨result, after⟩
  rw [hrun] at hresult hkeys
  subst hresult
  have hall := resolve_allOrNothing.2 _ _ _ _ _ _ _ (fun _ => hapart) hrun
  refine ⟨after, hapart, rfl, ?_, hkeys⟩
  obtain hsame | ⟨_, _, _, _, _, ⟨⟩, _⟩ := hall.failed _ rfl
  exact hsame.trans hbefore

/-- With a dot in front the output is not the path of the copy, but still its file. -/
theorem not_allOrNothing_of_ne : ¬∀ (inputs : List Path) (output : Path) (s : Session),
    (∀ input ∈ inputs, input.resolved ≠ output) →
    (∀ input ∈ inputs, ∀ text, s.volume.Writable input.resolved text) →
    ∀ (f : Failure) (after : Session), (∀ path cause, f ≠ .access path cause) →
      (resolveNetwork inputs output .standard true).run.run s = (.error f, after) →
      after.volume.file? output = s.volume.file? output := by
  intro h
  have hpaths : ∀ input ∈ (["a.xml", "b.xml"] : List Path),
      input.resolved ≠ "./a_resolved.xml" := by
    decide +kernel
  have htargets : ∀ input ∈ (["a.xml", "b.xml"] : List Path),
      (refusedSession.volume.target? input.resolved).isSome := by
    decide +kernel
  have hresult : ((resolveNetwork ["a.xml", "b.xml"] "./a_resolved.xml" .standard true).run.run
      refusedSession).1 = .error .emptyDocument := by
    decide +kernel
  have hfile : ((resolveNetwork ["a.xml", "b.xml"] "./a_resolved.xml" .standard true).run.run
      refusedSession).2.volume.file? "./a_resolved.xml"
      ≠ refusedSession.volume.file? "./a_resolved.xml" := by
    decide +kernel
  rcases hrun : (resolveNetwork ["a.xml", "b.xml"] "./a_resolved.xml" .standard true).run.run
    refusedSession with ⟨result, after⟩
  rw [hrun] at hresult hfile
  subst hresult
  refine hfile (h _ _ _ hpaths (fun input hinput text => ?_) _ _ (fun _ _ h => by cases h) hrun)
  exact Volume.writable_iff.2 ⟨htargets input hinput, nofun⟩

end Avionics.Resolution
