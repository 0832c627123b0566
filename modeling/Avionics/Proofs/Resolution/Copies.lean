import Avionics.Proofs.Resolution.Progress

/-! Copies are not observed: a run that writes them and one that does not come to the same
summary and the same output, as long as no input is read from a file that a copy went to. -/

namespace Avionics.Resolution

open Markup (Element)
open Storage (Location Path Volume)

namespace Procedure

variable {σ : Type} {P : Procedure σ} {v w : Volume} {s : Session} {done : List Path} {held : σ}
    {written : List (Path × String)}

def plain (P : Procedure σ) : Procedure σ := { P with copying := false }

theorem readTree_eq_ok {input : Path} {root : Element} : readTree v input = .ok root
    ↔ ∃ text, v.file? input = some (.text text) ∧ Element.parse text = .ok root := by
  rw [readTree, bind_eq_ok]
  refine exists_congr fun text => and_congr_left fun _ => ?_
  rw [← Volume.read_eq_ok]
  cases v.read input with
  | error cause => exact iff_of_false (by rintro ⟨⟩) (by rintro ⟨⟩)
  | ok text' =>
    rw [Except.mapError, Except.ok.injEq, Except.ok.injEq]

theorem receive_plain {input : Path} {taken : σ × Element} (h : P.receive w held input = .ok taken)
    (hfile : w.file? input = v.file? input) : P.plain.receive v held input = .ok taken := by
  obtain ⟨root, hroot, htake⟩ := bind_eq_ok.1 h
  obtain ⟨text, htext, hparse⟩ := readTree_eq_ok.1 hroot
  rw [hfile] at htext
  exact bind_eq_ok.2 ⟨root, readTree_eq_ok.2 ⟨text, htext, hparse⟩, htake⟩

theorem Progress.plain (h : P.Progress v done held written w)
    (hapart : done.Pairwise fun earlier later => v.Apart earlier.resolved later) :
    P.plain.Progress v done held [] v := by
  induction h with
  | start => exact .start
  | next hprogress hreceive _ ih =>
    obtain ⟨hdone, -, hinput⟩ := List.pairwise_append.1 hapart
    have hfile := hprogress.kept.file? fun p hp => by
      obtain ⟨-, earlier, hearlier, rfl⟩ := P.mem_copyPaths.1 hp
      exact hinput earlier hearlier _ List.mem_cons_self
    exact (ih hdone).next (receive_plain hreceive hfile) rfl

theorem Finishes.unobserved {report : Report} {output : Path} {text : String} {summary : Summary}
    {after plain : Volume}
    {result : Except Failure Summary} (h : Finishes report output text w (.ok summary) after)
    (h' : Finishes report output text v result plain)
    (hwritable : w.Writable output text ↔ v.Writable output text) :
    result = .ok summary ∧ (summary.written = true → after.file? output = some (.text text)
      ∧ plain.file? output = some (.text text)) := by
  cases h with
  | aborted herrors =>
    cases h' with
    | aborted => exact ⟨rfl, nofun⟩
    | unwritable hnone => exact absurd hnone herrors
    | written hnone => exact absurd hnone herrors
  | written hnone hwrite =>
    cases h' with
    | aborted herrors => exact absurd hnone herrors
    | unwritable _ hwrite' =>
      rw [Volume.Writable, Volume.Writable, hwrite, hwrite'] at hwritable
      cases hwritable.1 rfl
    | written _ hwrite' =>
      exact ⟨rfl, fun _ => ⟨Volume.file?_of_write hwrite, Volume.file?_of_write hwrite'⟩⟩

theorem Outcome.unobserved {inputs : List Path} {output : Path} {summary : Summary} {after : Volume}
    (h : P.Outcome s.volume inputs output (.ok summary) after)
    (hapart : inputs.Pairwise fun earlier later => s.volume.Apart earlier.resolved later)
    {result : Except Failure Summary} {plain : Session}
    (hplain : (P.plain.resolve inputs output).run.run s = (result, plain)) :
    result = .ok summary ∧ (summary.written = true → ∃ text, after.file? output = some (.text text)
      ∧ plain.volume.file? output = some (.text text)) := by
  cases h with
  | @finished held _ w _ _ hpresent hprogress hfinishes =>
    rw [run_resolve_of_progress hpresent (hprogress.plain hapart)] at hplain
    have hrun : (finish (P.report held) output (P.merged held)).run.run s = (result, plain) :=
      hplain
    have hfinishes' := finishes (P.report held) output (P.merged held) s
    rw [hrun] at hfinishes'
    obtain ⟨hresult, hwritten⟩ := hfinishes.unobserved hfinishes' hprogress.kept.writable
    exact ⟨hresult, fun h => ⟨_, hwritten h⟩⟩

end Procedure

/-- A run that writes copies comes to the summary and the output of one that does not, as long as
no input is the file that a copy of an earlier one went to. -/
theorem resolveNetwork_unobserved {inputs : List Path} {output : Path} {allocator : Allocator}
    {s after : Session} {summary : Summary} (hapart : inputs.Pairwise fun earlier later =>
      s.volume.Apart earlier.resolved later)
    (hrun : (resolveNetwork inputs output allocator true).run.run s = (.ok summary, after)) :
    ∃ plain, (resolveNetwork inputs output allocator false).run.run s = (.ok summary, plain)
      ∧ (summary.written = true → ∃ text, after.volume.file? output = some (.text text)
        ∧ plain.volume.file? output = some (.text text)) := by
  have houtcome := Procedure.outcome (.network allocator true) inputs output s
  rw [← resolveNetwork_eq, hrun] at houtcome
  rcases hplain : (resolveNetwork inputs output allocator false).run.run s with ⟨result, plain⟩
  rw [resolveNetwork_eq] at hplain
  obtain ⟨rfl, hwritten⟩ := houtcome.unobserved hapart hplain
  exact ⟨plain, rfl, hwritten⟩

def stampedSession : Session where
  volume := { files := .ofList [
    (["a.xml"], .text ("<Network><VirtualComponent Name='V'>"
      ++ "<A429_Channel Name='C' Direction='In' FifoSize='1' MessageMaxSize='8'>"
      ++ "<Socket/></A429_Channel></VirtualComponent></Network>")),
    (["b.xml"], .text "<Network/>")] }

theorem resolveNetwork_unobserved_stamped : ∃ after plain text,
    (["a.xml", "b.xml"] : List Path).Pairwise
    (fun earlier later => stampedSession.volume.Apart earlier.resolved later)
    ∧ (resolveNetwork ["a.xml", "b.xml"] "o.xml" .standard true).run.run stampedSession
      = (.ok ⟨[], true⟩, after)
    ∧ (resolveNetwork ["a.xml", "b.xml"] "o.xml" .standard false).run.run stampedSession
      = (.ok ⟨[], true⟩, plain)
    ∧ after.volume.file? "o.xml" = some (.text text)
      ∧ plain.volume.file? "o.xml" = some (.text text)
    ∧ after.volume.files.keys
      = ([["a.xml"], ["b.xml"], ["a_resolved.xml"], ["b_resolved.xml"], ["o.xml"]] :
        List Location) := by
  have hapart : (["a.xml", "b.xml"] : List Path).Pairwise
      (fun earlier later => stampedSession.volume.Apart earlier.resolved later) := by
    decide +kernel
  have hboth : ((resolveNetwork ["a.xml", "b.xml"] "o.xml" .standard true).run.run stampedSession).1
      = .ok ⟨[], true⟩
      ∧ ((resolveNetwork ["a.xml", "b.xml"] "o.xml" .standard true).run.run
        stampedSession).2.volume.files.keys
        = ([["a.xml"], ["b.xml"], ["a_resolved.xml"], ["b_resolved.xml"], ["o.xml"]] :
          List Location) := by
    decide +kernel
  obtain ⟨hresult, hkeys⟩ := hboth
  rcases hrun : (resolveNetwork ["a.xml", "b.xml"] "o.xml" .standard true).run.run
    stampedSession with ⟨result, after⟩
  rw [hrun] at hresult hkeys
  subst hresult
  obtain ⟨plain, hplain, hwritten⟩ := resolveNetwork_unobserved hapart hrun
  obtain ⟨text, hafter, hbefore⟩ := hwritten rfl
  exact ⟨after, plain, text, hapart, rfl, hplain, hafter, hbefore, hkeys⟩

def overwrittenSession : Session where
  volume := { files := .ofList [(["a.xml"], .text "<Network/>"), (["a_resolved.xml"], .text "")] }

/-- With a dot in front, an input is not the path of the copy, but still its file. -/
theorem not_unobserved_of_ne :
    ¬∀ (inputs : List Path) (output : Path) (allocator : Allocator) (s after : Session)
    (summary : Summary), inputs.Pairwise (fun earlier later => earlier.resolved ≠ later) →
    (resolveNetwork inputs output allocator true).run.run s = (.ok summary, after) →
    ∃ plain, (resolveNetwork inputs output allocator false).run.run s = (.ok summary, plain) := by
  intro h
  have hpaths : (["a.xml", "./a_resolved.xml"] : List Path).Pairwise
      (fun earlier later => earlier.resolved ≠ later) := by
    decide +kernel
  have hcopying : ((resolveNetwork ["a.xml", "./a_resolved.xml"] "o.xml" .standard true).run.run
      overwrittenSession).1
      = .ok ⟨[], true⟩ := by
    decide +kernel
  have hplain : ((resolveNetwork ["a.xml", "./a_resolved.xml"] "o.xml" .standard false).run.run
      overwrittenSession).1
      = .error .emptyDocument := by
    decide +kernel
  rcases hrun : (resolveNetwork ["a.xml", "./a_resolved.xml"] "o.xml" .standard true).run.run
    overwrittenSession
    with ⟨result, after⟩
  rw [hrun] at hcopying
  subst hcopying
  obtain ⟨plain, hsame⟩ := h _ _ _ _ _ _ hpaths hrun
  rw [hsame] at hplain
  cases hplain

end Avionics.Resolution
