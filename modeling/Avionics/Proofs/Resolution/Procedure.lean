import Avionics.Proofs.Stateful
import Avionics.Proofs.Storage.Volume
import Avionics.Resolution

namespace Avionics.Resolution

open Exchange (Platform)
open Markup (Element)
open Running
open Storage (Path Volume)

def readTree (v : Volume) (input : Path) : Except Failure Element := do
  Element.parse (← (v.read input).mapError (.access input))

/-- How documents are taken in, and what becomes of them. -/
structure Procedure (σ : Type) where
  start : σ
  take : σ → Element → Except Failure (σ × Element)
  copying : Bool
  report : σ → Report
  merged : σ → Element

namespace Procedure

def platform : Procedure (Noted Platform) where
  start := ⟨{}, []⟩
  take held root := do return (← addPlatform held root, root)
  copying := false
  report held := held.findings
  merged held := held.value.write

def network (allocator : Allocator) (writeResolved : Bool) :
    Procedure (Noted Network × Allocator) where
  start := (pure {}, allocator)
  take held root := do
    let (document, allocator) ← readDocument root held.2
    return ((do (← held.1).merge document, allocator), document.stamp root)
  copying := writeResolved
  report held := held.1.findings
  merged held := held.1.value.write

variable {σ : Type} (P : Procedure σ)

def writeCopy (input : Path) (copy : Element) : Running Unit :=
  if P.copying then writeElement input.resolved copy.indent else return

def step (held : σ) (input : Path) : Running σ := do
  let root ← readElement input
  let (next, copy) ← P.take held root
  P.writeCopy input copy
  return next

def resolve (inputs : List Path) (output : Path) : Running Summary := do
  checkInputs inputs
  let held ← inputs.foldlM P.step P.start
  finish (P.report held) output (P.merged held)

def receive (v : Volume) (held : σ) (input : Path) : Except Failure (σ × Element) := do
  P.take held (← readTree v input)

def copies (input : Path) (copy : Element) : List (Path × String) :=
  if P.copying then [(input.resolved, copy.indent.render)] else []

def copyPaths (inputs : List Path) : List Path :=
  if P.copying then inputs.map Path.resolved else []

theorem mem_copyPaths {inputs : List Path} {p : Path} :
    p ∈ P.copyPaths inputs ↔ P.copying = true ∧ ∃ input ∈ inputs, input.resolved = p := by
  rw [copyPaths]
  split
  · next h => simp [h]
  · next h => simp [h]

theorem copyPaths_append (inputs later : List Path) :
    P.copyPaths (inputs ++ later) = P.copyPaths inputs ++ P.copyPaths later := by
  simp only [copyPaths]
  split
  · exact List.map_append
  · rfl

theorem map_fst_copies (input : Path) (copy : Element) :
    (P.copies input copy).map Prod.fst = P.copyPaths [input] := by
  rw [copies, copyPaths]
  split
  · rfl
  · rfl

end Procedure

section Equations

theorem step_platform (held : Noted Platform) (input : Path) :
    Procedure.platform.step held input = (do
    let root ← readElement input
    addPlatform held root) := by
  refine bind_congr fun root => ?_
  show (do
    let (next, _) ← (do return (← addPlatform held root, root) : Except Failure
      (Noted Platform × Element))
    return next : Running (Noted Platform)) = _
  cases addPlatform held root with
  | error f => rfl
  | ok next => rfl

theorem writeCopy_bind {σ : Type} (P : Procedure σ) (input : Path) (copy : Element) (next : σ) : (do
      P.writeCopy input copy
      return next) = (if P.copying then do
      writeElement input.resolved copy.indent
      return next
    else return next) := by
  rw [Procedure.writeCopy]
  split
  · rfl
  · rfl

theorem step_network (allocator : Allocator) (writeResolved : Bool) :
    (Procedure.network allocator writeResolved).step = addNetwork writeResolved := by
  funext held input
  refine bind_congr fun root => ?_
  dsimp only [Procedure.network]
  cases readDocument root held.2 with
  | error f => rfl
  | ok read => exact writeCopy_bind (.network allocator writeResolved) input (read.1.stamp root) _

theorem resolvePlatform_eq (inputs : List Path) (output : Path) :
    resolvePlatform inputs output = Procedure.platform.resolve inputs output := by
  rw [Procedure.resolve, funext fun held => funext (step_platform held)]
  rfl

theorem resolveNetwork_eq (inputs : List Path) (output : Path) (allocator : Allocator)
    (writeResolved : Bool) : resolveNetwork inputs output allocator writeResolved
      = (Procedure.network allocator writeResolved).resolve inputs output := by
  rw [Procedure.resolve, step_network]
  rfl

end Equations

section Run

variable {σ : Type} (P : Procedure σ) (s : Session)

theorem run_readElement (input : Path) :
    (readElement input).run.run s = (readTree s.volume input, s) := by
  have hrun : (readText input).run.run s = ((s.volume.read input).mapError (.access input), s) := by
    cases hread : s.volume.read input with
    | error cause =>
      refine Stateful.bind_eq_error.2 (.inr ⟨s, s, rfl, ?_⟩)
      rw [hread]
      rfl
    | ok text =>
      refine Stateful.bind_eq_ok.2 ⟨s, s, rfl, ?_⟩
      rw [hread]
      rfl
  rw [readElement, Stateful.run_bind, hrun, readTree]
  cases (s.volume.read input).mapError (Failure.access input) with
  | error f => rfl
  | ok text => rfl

theorem run_writeText (path : Path) (text : String) : (writeText path text).run.run s
    = ((s.volume.write path text).1.mapError (.access path),
      { s with volume := (s.volume.write path text).2 }) := by
  refine (Stateful.run_bind_of_ok (a := s) (t := s) rfl).trans ?_
  rcases s.volume.write path text with ⟨_ | _, v⟩
  · rfl
  · rfl

theorem run_writeCopy (input : Path) (copy : Element) : (P.writeCopy input copy).run.run s
    = ((s.volume.writeAll (P.copies input copy)).1.mapError (.access input.resolved),
      { s with volume := (s.volume.writeAll (P.copies input copy)).2 }) := by
  rw [Procedure.writeCopy, Procedure.copies]
  cases P.copying with
  | false => rfl
  | true => rw [if_pos rfl, if_pos rfl, Volume.writeAll_singleton, writeElement, run_writeText]

theorem run_step (held : σ) (input : Path) : (P.step held input).run.run s
    = match P.receive s.volume held input with
      | .error f => (.error f, s)
      | .ok (next, copy) =>
        (((s.volume.writeAll (P.copies input copy)).1.mapError (.access input.resolved)).map
            fun _ => next,
          { s with volume := (s.volume.writeAll (P.copies input copy)).2 }) := by
  rw [Procedure.step, Stateful.run_bind, run_readElement, Procedure.receive]
  cases readTree s.volume input with
  | error f => rfl
  | ok root =>
    show (do
      let (next, copy) ← P.take held root
      P.writeCopy input copy
      return next : Running σ).run.run s
        = match P.take held root with | .error f => _ | .ok (next, copy) => _
    cases P.take held root with
    | error f => rfl
    | ok taken =>
      obtain ⟨next, copy⟩ := taken
      show (do
        P.writeCopy input copy
        return next : Running σ).run.run s = _
      rw [Stateful.run_bind, run_writeCopy]
      dsimp only
      rcases s.volume.writeAll (P.copies input copy) with ⟨_ | _, v⟩
      · rfl
      · rfl

theorem run_checkInputs (inputs : List Path) : (checkInputs inputs).run.run s
    = match inputs.find? fun path => !s.volume.isFile path with
      | some path => (.error (.missingInput path), s)
      | none => (.ok (), s) := by
  show (match inputs.find? fun path => !s.volume.isFile path with
    | some path => throw (.missingInput path)
    | none => return : Running Unit).run.run s = _
  cases inputs.find? fun path => !s.volume.isFile path with
  | none => rfl
  | some path => rfl

end Run

end Avionics.Resolution
