import Avionics.Network.Registry

/-! Runs of the flat merge as histories: components that are opened, one after another,
and the channels that they declare. -/

namespace Avionics.Network

inductive Event
  | opened (component : String)
  | declared (component : String) (channel : Channel)

namespace Event

def opened? : Event → Option String
  | opened name => some name
  | declared .. => none

def channel? : Event → Option Channel
  | opened _ => none
  | declared _ c => some c

def link? (d : Direction) : Event → Option (String × String)
  | opened _ => none
  | declared name c => if c.direction = d then some (name, c.name) else none

variable (h : List Event) (name : String) (c : Channel)

@[simp] theorem filterMap_channel?_opened :
    (h ++ [opened name]).filterMap channel? = h.filterMap channel? :=
  List.filterMap_append.trans (List.append_nil _)

@[simp] theorem filterMap_channel?_declared :
    (h ++ [declared name c]).filterMap channel? = h.filterMap channel? ++ [c] :=
  List.filterMap_append

@[simp] theorem filterMap_opened?_opened :
    (h ++ [opened name]).filterMap opened? = h.filterMap opened? ++ [name] :=
  List.filterMap_append

@[simp] theorem filterMap_opened?_declared :
    (h ++ [declared name c]).filterMap opened? = h.filterMap opened? :=
  List.filterMap_append.trans (List.append_nil _)

@[simp] theorem filterMap_link?_opened (d : Direction) :
    (h ++ [opened name]).filterMap (link? d) = h.filterMap (link? d) :=
  List.filterMap_append.trans (List.append_nil _)

theorem filterMap_link?_declared (d : Direction) : (h ++ [declared name c]).filterMap (link? d)
    = if c.direction = d then h.filterMap (link? d) ++ [(name, c.name)] else h.filterMap
    (link? d) := by
  rw [List.filterMap_append]
  split
  · next hd => simp [link?, hd]
  · next hd => simp [link?, hd]

end Event

def componentEvents (c : Component) : List Event :=
  .opened c.name :: c.channels.map (.declared c.name)

def events (docs : List Document) : List Event :=
  docs.flatMap fun d => d.components.flatMap componentEvents

/-- The history of a run that starts from nothing, with what the run has come to. -/
inductive Reaches : List Event → Noted Network → Prop
  | start : Reaches [] (pure {})
  | opened {h : List Event} {x : Noted Network} (name : String) :
      Reaches h x → Reaches (h ++ [.opened name]) (x >>= fun n => n.openComponent name)
  | declared {h : List Event} {x : Noted Network} (name : String) (c : Channel) :
      Reaches h x → Event.opened name ∈ h →
        Reaches (h ++ [.declared name c]) (x >>= fun n => n.declare name c)

namespace Reaches

variable {h : List Event} {x : Noted Network}

/-- A fold whose steps need something that the history so far already holds. -/
theorem foldlM {γ : Type} {P : List Event → Prop} {step : Network → γ → Noted Network}
    {history : γ → List Event} (hmore : ∀ h h', P h → P (h ++ h'))
    (hstep : ∀ {h x}, Reaches h x → P h → ∀ a, Reaches (h ++ history a) (x >>= fun n => step n a))
    (hx : Reaches h x) (hh : P h) (as : List γ) :
    Reaches (h ++ as.flatMap history) (x >>= fun n => as.foldlM step n) := by
  induction as generalizing h x with
  | nil =>
    rw [List.flatMap_nil, List.append_nil]
    simpa using hx
  | cons a as ih =>
    have hnext := ih (hstep hx hh a) (hmore h (history a) hh)
    rw [bind_assoc, List.append_assoc] at hnext
    exact hnext

theorem foldlM_declare (hx : Reaches h x) {name : String} (hname : Event.opened name ∈ h)
    (cs : List Channel) :
    Reaches (h ++ cs.map (.declared name)) (x >>= fun n => cs.foldlM (declare name) n) := by
  rw [List.map_eq_flatMap]
  exact hx.foldlM (P := (Event.opened name ∈ ·)) (fun _ _ => List.mem_append_left _)
    (fun hx hname c => hx.declared name c hname) hname cs

theorem mergeComponent (hx : Reaches h x) (c : Component) :
    Reaches (h ++ componentEvents c) (x >>= fun n => n.mergeComponent c) := by
  have hopen :=
    (hx.opened c.name).foldlM_declare (List.mem_append_right _ (List.mem_singleton_self _))
      c.channels
  rw [bind_assoc, List.append_assoc] at hopen
  exact hopen

theorem merge (hx : Reaches h x) (d : Document) :
    Reaches (h ++ d.components.flatMap componentEvents) (x >>= fun n => n.merge d) :=
  hx.foldlM (P := fun _ => True) (fun _ _ h => h) (fun hx _ c => hx.mergeComponent c)
    trivial d.components

end Reaches

theorem reaches_merge (docs : List Document) : Reaches (events docs) (docs.foldlM merge {}) := by
  have h := Reaches.start.foldlM (P := fun _ => True) (fun _ _ h => h) (fun hx _ d => hx.merge d)
    trivial docs
  rw [List.nil_append, pure_bind] at h
  exact h

end Avionics.Network
