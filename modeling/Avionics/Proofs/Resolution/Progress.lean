import Avionics.Proofs.Resolution.Procedure
import Mathlib.Data.List.Induction

/-! How far a run gets.  The inputs of a prefix were taken in, each with the files as the
copies before it have left them, and either that are all inputs or the next one stops the run. -/

namespace Avionics.Resolution.Procedure

open Markup (Element)
open Running
open Storage (Path Volume)

variable {σ : Type} (P : Procedure σ)

inductive Progress (v : Volume) : List Path → σ → List (Path × String) → Volume → Prop
  | start : Progress v [] P.start [] v
  | next {done : List Path} {held next : σ} {written : List (Path × String)} {w w' : Volume}
      {input : Path} {copy : Element} : Progress v done held written w →
      P.receive w held input = .ok (next, copy) →
      w.writeAll (P.copies input copy) = (.ok (), w') →
      Progress v (done ++ [input]) next (written ++ P.copies input copy) w'

/-- Why a run does not get past an input, and the files as it leaves them: the input cannot be
taken in, or its copy not written. -/
inductive Stops (w : Volume) (held : σ) (input : Path) : Failure → Volume → Prop
  | refused {f : Failure} : P.receive w held input = .error f → Stops w held input f w
  | unwritable {next : σ} {copy : Element} {cause : Refusal} {w' : Volume} :
      P.receive w held input = .ok (next, copy) →
      w.writeAll (P.copies input copy) = (.error cause, w') →
      Stops w held input (.access input.resolved cause) w'

inductive Finishes (report : Report) (output : Path) (text : String) (w : Volume) :
    Except Failure Summary → Volume → Prop
  | aborted : report.errors ≠ 0 → Finishes report output text w (.ok ⟨report, false⟩) w
  | unwritable {cause : Refusal} {w' : Volume} : report.errors = 0 →
      w.write output text = (.error cause, w') →
      Finishes report output text w (.error (.access output cause)) w'
  | written {w' : Volume} : report.errors = 0 → w.write output text = (.ok (), w') →
      Finishes report output text w (.ok ⟨report, true⟩) w'

def Present (v : Volume) (inputs : List Path) : Prop := ∀ input ∈ inputs, v.isFile input = true

inductive Outcome (v : Volume) (inputs : List Path) (output : Path) :
    Except Failure Summary → Volume → Prop
  | missing {earlier later : List Path} {input : Path} : inputs = earlier ++ input :: later →
      Present v earlier → v.isFile input = false →
      Outcome v inputs output (.error (.missingInput input)) v
  | stopped {done rest : List Path} {input : Path} {held : σ} {written : List (Path × String)}
      {w w' : Volume} {f : Failure} : Present v inputs → inputs = done ++ input :: rest →
      P.Progress v done held written w → P.Stops w held input f w' →
      Outcome v inputs output (.error f) w'
  | finished {held : σ} {written : List (Path × String)} {w w' : Volume}
      {result : Except Failure Summary} : Present v inputs → P.Progress v inputs held written w →
      Finishes (P.report held) output (P.merged held).indent.render w result w' →
      Outcome v inputs output result w'

namespace Progress

variable {P} {v w : Volume} {done : List Path} {held : σ} {written : List (Path × String)}

theorem writeAll_eq (h : P.Progress v done held written w) : v.writeAll written = (.ok (), w) := by
  induction h with
  | start => rfl
  | next _ _ hwrite ih =>
    rw [Volume.writeAll_append_of_ok ih]
    exact hwrite

theorem map_fst (h : P.Progress v done held written w) :
    written.map Prod.fst = P.copyPaths done := by
  induction h with
  | start => simp [copyPaths]
  | next _ _ _ ih => rw [List.map_append, ih, map_fst_copies, copyPaths_append]

theorem kept (h : P.Progress v done held written w) : Volume.Kept v (P.copyPaths done) w := by
  rw [← h.map_fst]
  exact Volume.kept_of_writeAll h.writeAll_eq

theorem or_stops (v : Volume) (inputs : List Path) :
    (∃ held written w, P.Progress v inputs held written w)
    ∨ ∃ done input rest held written w f w', inputs = done ++ input :: rest
      ∧ P.Progress v done held written w ∧ P.Stops w held input f w' := by
  -- From the end of the inputs, where progress goes on.
  induction inputs using List.reverseRecOn with
  | nil => exact .inl ⟨_, _, _, .start⟩
  | append_singleton inputs input ih =>
    obtain ⟨held, written, w, hprogress⟩
      | ⟨done, stop, rest, held, written, w, f, w', rfl, hprogress, hstops⟩ := ih
    · cases hreceive : P.receive w held input with
      | error f =>
        exact .inr ⟨inputs, input, [], held, written, w, f, w, rfl, hprogress, .refused hreceive⟩
      | ok taken =>
        obtain ⟨next, copy⟩ := taken
        rcases hwrite : w.writeAll (P.copies input copy) with ⟨cause | _, w'⟩
        · exact .inr ⟨inputs, input, [], held, written, w, _, w', rfl, hprogress,
            .unwritable hreceive hwrite⟩
        · exact .inl ⟨next, _, w', hprogress.next hreceive hwrite⟩
    · exact .inr ⟨done, stop, rest ++ [input], held, written, w, f, w', by simp, hprogress, hstops⟩

end Progress

section Run

variable {P} {v w w' : Volume} {s : Session} {done : List Path} {held : σ}
  {written : List (Path × String)}

theorem run_of_progress (h : P.Progress s.volume done held written w) :
    (done.foldlM P.step P.start).run.run s = (.ok held, { s with volume := w }) := by
  induction h with
  | start => rfl
  | next _ hreceive hwrite ih =>
    rw [foldlM_concat, Stateful.run_bind_of_ok ih, run_step, hreceive]
    dsimp only
    rw [hwrite]
    rfl

theorem run_of_stops {input : Path} {f : Failure} (h : P.Stops s.volume held input f w) :
    (P.step held input).run.run s = (.error f, { s with volume := w }) := by
  rw [run_step]
  cases h with
  | refused hreceive => rw [hreceive]
  | unwritable hreceive hwrite =>
    rw [hreceive]
    dsimp only
    rw [hwrite]
    rfl

theorem run_foldlM_of_stops {input : Path} {f : Failure}
    (h : P.Progress s.volume done held written w) (hstops : P.Stops w held input f w')
    (rest : List Path) : ((done ++ input :: rest).foldlM P.step P.start).run.run s
      = (.error f, { s with volume := w' }) := by
  rw [List.foldlM_append, Stateful.run_bind_of_ok (run_of_progress h), List.foldlM_cons]
  exact Stateful.run_bind_of_error (run_of_stops (s := { s with volume := w }) hstops)

theorem run_print {α : Type} (line : String) (k : Unit → Running α) (s : Session) :
    (print line >>= k).run.run s = (k ()).run.run { s with printed := s.printed ++ [line] } := rfl

theorem finishes (report : Report) (output : Path) (merged : Element) (s : Session) :
    Finishes report output merged.indent.render s.volume ((finish report output merged).run.run s).1
      ((finish report output merged).run.run s).2.volume := by
  rw [finish, run_print, run_print]
  by_cases herrors : report.errors = 0
  · rw [if_neg (by omega)]
    show Finishes report output merged.indent.render s.volume
      ((writeText output merged.indent.render >>= _).run.run _).1
      ((writeText output merged.indent.render >>= _).run.run _).2.volume
    rw [Stateful.run_bind, run_writeText]
    dsimp only
    rcases hwrite : s.volume.write output merged.indent.render with ⟨cause | _, w⟩
    · exact .unwritable herrors hwrite
    · exact .written herrors hwrite
  · rw [if_pos (by omega)]
    exact .aborted herrors

theorem run_checkInputs_of_present {inputs : List Path} (h : Present s.volume inputs) :
    (checkInputs inputs).run.run s = (.ok (), s) := by
  have hnone : inputs.find? (fun path => !s.volume.isFile path) = none := by
    simpa [Present] using h
  rw [run_checkInputs, hnone]

theorem run_resolve_of_progress (hpresent : Present s.volume done)
    (h : P.Progress s.volume done held written w) (output : Path) :
    (P.resolve done output).run.run s
      = (finish (P.report held) output (P.merged held)).run.run { s with volume := w } := by
  rw [resolve, Stateful.run_bind_of_ok (run_checkInputs_of_present hpresent),
    Stateful.run_bind_of_ok (run_of_progress h)]

theorem outcome (P : Procedure σ) (inputs : List Path) (output : Path) (s : Session) :
    P.Outcome s.volume inputs output ((P.resolve inputs output).run.run s).1
      ((P.resolve inputs output).run.run s).2.volume := by
  cases hmissing : inputs.find? fun path => !s.volume.isFile path with
  | some input =>
    rw [resolve, Stateful.run_bind, run_checkInputs, hmissing]
    obtain ⟨hinput, earlier, later, rfl, hearlier⟩ := List.find?_eq_some_iff_append.1 hmissing
    refine .missing rfl ?_ ?_
    · simpa [Present] using hearlier
    · simpa using hinput
  | none =>
    have hpresent : Present s.volume inputs := by simpa [Present] using hmissing
    obtain ⟨held, written, w, hprogress⟩
      | ⟨done, input, rest, held, written, w, f, w', rfl, hprogress, hstops⟩ :=
      Progress.or_stops (P := P) s.volume inputs
    · rw [run_resolve_of_progress hpresent hprogress]
      exact .finished hpresent hprogress
        (finishes (P.report held) output (P.merged held) { s with volume := w })
    · rw [resolve, Stateful.run_bind_of_ok (run_checkInputs_of_present hpresent),
        Stateful.run_bind_of_error (run_foldlM_of_stops hprogress hstops rest)]
      exact .stopped hpresent rfl hprogress hstops

end Run

end Avionics.Resolution.Procedure
