import Avionics.Proofs.Fold
import Avionics.Proofs.Keyed.Lookup
import Avionics.Storage.Volume

namespace Avionics.Storage

namespace Place

def target? : Place → Option Location
  | file location | vacant location => some location
  | directory _ | slashed _ => none

inductive Grown (location : Location) : Place → Place → Prop
  | same (p : Place) : Grown location p p
  | filled : Grown location (vacant location) (file location)
  | shadowed : Grown location (slashed false) (slashed true)

theorem Grown.target?_eq {location : Location} {p q : Place} (h : Grown location p q) :
    q.target? = p.target? := by
  cases h with
  | same => rfl
  | filled => rfl
  | shadowed => rfl

end Place

namespace Volume

open Place (Grown)

variable {v w : Volume} {location : Location} {content : Content} {p q : Path}

def target? (v : Volume) (p : Path) : Option Location := (v.locate p).toOption.bind Place.target?

def file? (v : Volume) (p : Path) : Option Content := (v.target? p).bind v.files.get?

def Apart (v : Volume) (p q : Path) : Prop := ∀ location ∈ v.target? p, v.target? q ≠ some location

instance (v : Volume) (p q : Path) : Decidable (v.Apart p q) :=
  inferInstanceAs (Decidable (∀ location ∈ v.target? p, v.target? q ≠ some location))

theorem get?_put (v : Volume) (location : Location) (content : Content) (other : Location) :
    (v.put location content).files.get? other = if other = location then some content
      else v.files.get? other :=
  Keyed.get?_insert ..

theorem contains_put (v : Volume) (location : Location) (content : Content) (other : Location) :
    (v.put location content).files.contains other
      = (decide (other = location) || v.files.contains other) := by
  rw [Keyed.contains, get?_put, Keyed.contains]
  split
  · next h => simp [h]
  · next h => simp [h]

section Locate

theorem locate_eq_foldlM (p : Path) : (∃ r, ∀ v : Volume, v.locate p = .error r)
    ∨ ∃ (start : Location) (names : List Name), ∀ v : Volume,
      v.locate p = names.foldlM v.step (.directory start) := by
  by_cases hnowhere : p.segments = [.empty]
  · exact .inl ⟨.notFound, fun v => if_pos hnowhere⟩
  · by_cases hroot : p.segments.head? = some .empty
    · exact .inr ⟨.root, p.segments.tail, fun v => by rw [locate, if_neg hnowhere, if_pos hroot]⟩
    · exact .inr ⟨[], p.segments, fun v => by rw [locate, if_neg hnowhere, if_neg hroot]⟩

theorem target?_enter {other : Location} (h : (v.enter location).target? = some other) :
    other = location := by
  rw [enter] at h
  split_ifs at h
  · cases h
    rfl
  · cases h
  · cases h
    rfl

theorem get?_of_enter_vacant (h : v.enter location = .vacant location) :
    v.files.get? location = none := by
  cases hcontent : v.files.get? location with
  | none => rfl
  | some content =>
    rw [enter, if_pos (by rw [Keyed.contains, hcontent]; rfl)] at h
    cases h

theorem slashed_of_step {place next : Place} {name : Name} (h : v.step place name = .ok next) :
    (∃ start, place = .directory start) ∨ ∃ file, next = .slashed file := by
  cases place with
  | directory start => exact .inl ⟨start, rfl⟩
  | file | vacant | slashed =>
    rw [step] at h
    split_ifs at h
    cases h
    exact .inr ⟨_, rfl⟩

theorem enter_of_step {place next : Place} {name : Name} (h : v.step place name = .ok next)
    (hnext : next.target? = some location) : v.enter location = next := by
  obtain ⟨start, rfl⟩ | ⟨file, rfl⟩ := slashed_of_step h
  · rw [step] at h
    split_ifs at h
    · cases h
      cases hnext
    · cases h
      cases hnext
    · cases h
      rw [target?_enter hnext]
  · cases hnext

theorem enter_of_foldlM {place last : Place} {names : List Name}
    (h : names.foldlM v.step place = .ok last) (hplace : place.target? = none)
    (hlast : last.target? = some location) : v.enter location = last := by
  -- Whatever is on the way, it is the last step that arrives.
  obtain rfl | ⟨names, name, rfl⟩ := List.eq_nil_or_concat names
  · cases h
    rw [hplace] at hlast
    cases hlast
  · rw [List.concat_eq_append, foldlM_concat] at h
    obtain ⟨place, -, hstep⟩ := bind_eq_ok.1 h
    exact enter_of_step hstep hlast

theorem target?_eq_some : v.target? p = some location ↔ ∃ place, v.locate p = .ok place
    ∧ place.target? = some location := by
  rw [target?]
  cases v.locate p with
  | error r => exact iff_of_false nofun nofun
  | ok place =>
    constructor
    · intro h
      exact ⟨place, rfl, h⟩
    · rintro ⟨_, ⟨⟩, h⟩
      exact h

theorem locate_of_target? (h : v.target? p = some location) :
    v.locate p = .ok (v.enter location) ∧ (v.enter location).target? = some location := by
  obtain ⟨place, hplace, hlocation⟩ := target?_eq_some.1 h
  obtain ⟨r, hr⟩ | ⟨start, names, hnames⟩ := locate_eq_foldlM p
  · rw [hr] at hplace
    cases hplace
  · have henter := enter_of_foldlM ((hnames v).symm.trans hplace) rfl hlocation
    rw [henter]
    exact ⟨hplace, hlocation⟩

end Locate

section Put

variable (hlocation : (v.enter location).target? = some location)

include hlocation

theorem grown_enter (content : Content) (other : Location) :
    Grown location (v.enter other) ((v.put location content).enter other) := by
  by_cases hother : other = location
  · subst hother
    have hput : (v.put other content).enter other = .file other := if_pos (by simp [contains_put])
    rw [hput]
    rw [enter] at hlocation ⊢
    split_ifs at hlocation ⊢
    · exact .same _
    · cases hlocation
    · exact .filled
  · have hput : (v.put location content).enter other = v.enter other := by
      rw [enter, contains_put, decide_eq_false hother, Bool.false_or]
      rfl
    rw [hput]
    exact .same _

theorem grown_step (content : Content) {place place' : Place} (h : Grown location place place')
    (name : Name) : Option.Rel (Grown location) (v.step place name).toOption
      ((v.put location content).step place' name).toOption := by
  cases h with
  | same place =>
    cases place with
    | directory start =>
      rw [step, step]
      split_ifs
      · exact .some (.same _)
      · exact .some (.same _)
      · exact .some (grown_enter hlocation content _)
    | file | vacant | slashed =>
      rw [step, step]
      split_ifs
      · exact .some (.same _)
      · exact .none
  | filled =>
    rw [step, step]
    split_ifs
    · exact .some .shadowed
    · exact .none
  | shadowed =>
    rw [step, step]
    split_ifs
    · exact .some .shadowed
    · exact .none

theorem grown_foldlM (content : Content) {place place' : Place} (h : Grown location place place')
    (names : List Name) : Option.Rel (Grown location) (names.foldlM v.step place).toOption
      (names.foldlM (v.put location content).step place').toOption := by
  induction names generalizing place place' with
  | nil => exact .some h
  | cons name names ih =>
    rw [List.foldlM_cons, List.foldlM_cons]
    -- The step fails in both volumes or in none, though perhaps for another reason.
    have hstep := grown_step hlocation content h name
    cases hleft : v.step place name with
    | error r =>
      cases hright : (v.put location content).step place' name with
      | error r' => exact .none
      | ok next' =>
        rw [hleft, hright] at hstep
        cases hstep
    | ok next =>
      cases hright : (v.put location content).step place' name with
      | error r' =>
        rw [hleft, hright] at hstep
        cases hstep
      | ok next' =>
        rw [hleft, hright] at hstep
        cases hstep with
        | some hnext => exact ih hnext

theorem target?_put (content : Content) (p : Path) :
    (v.put location content).target? p = v.target? p := by
  obtain ⟨r, hr⟩ | ⟨start, names, hnames⟩ := locate_eq_foldlM p
  · rw [target?, target?, hr, hr]
  · have h := grown_foldlM hlocation content (.same (.directory start)) names
    rw [← hnames, ← hnames] at h
    rw [target?, target?]
    generalize (v.locate p).toOption = x, ((v.put location content).locate p).toOption = y at h
    cases h with
    | none => rfl
    | some h => exact h.target?_eq

end Put

section Access

variable {text : String} {writes : List (Path × String)}

theorem file?_eq {place : Place} (h : v.locate p = .ok place) :
    v.file? p = place.target?.bind v.files.get? := by
  rw [file?, target?, h]
  rfl

theorem read_eq_ok : v.read p = .ok text ↔ v.file? p = some (.text text) := by
  rw [read]
  cases hplace : v.locate p with
  | error r =>
    rw [file?, target?, hplace]
    exact iff_of_false nofun nofun
  | ok place =>
    rw [file?_eq hplace]
    cases place with
    | directory | slashed => exact iff_of_false nofun nofun
    | vacant location =>
      have henter := (locate_of_target? (target?_eq_some.2 ⟨_, hplace, rfl⟩)).1
      have hnone := get?_of_enter_vacant (Except.ok.inj (henter.symm.trans hplace))
      refine iff_of_false nofun fun h => ?_
      cases hnone.symm.trans h
    | file location =>
      show _ ↔ v.files.get? location = some (.text text)
      simp only [bind, Except.bind]
      split
      · next s hs =>
        rw [hs]
        exact ⟨fun h => by cases h; rfl, fun h => by cases h; rfl⟩
      · next hs => exact iff_of_false nofun (hs text)

def Fits (v : Volume) (text : String) : Prop := ∀ size ∈ v.capacity, text.utf8ByteSize ≤ size

/-- How a text is written under a path.  When it does not fit, what was in the file is lost. -/
inductive Writes (v : Volume) (p : Path) (text : String) : Except Refusal Unit → Volume → Prop
  | refused {r : Refusal} : v.target? p = none → Writes v p text (.error r) v
  | complete {location : Location} : v.target? p = some location → v.Fits text →
      Writes v p text (.ok ()) (v.put location (.text text))
  | cut {location : Location} {size : Nat} : v.target? p = some location → size ∈ v.capacity →
      size < text.utf8ByteSize →
      Writes v p text (.error .tooLarge) (v.put location (.ofBytes (text.toUTF8.extract 0 size)))

theorem writes_of_fill {result : Except Refusal Unit} (htarget : v.target? p = some location)
    (h : v.fill location text = (result, w)) : Writes v p text result w := by
  rw [fill] at h
  split at h
  · next hnone =>
    cases h
    exact .complete htarget fun size hsize => by simpa [Option.mem_def.1 hsize] using hnone
  · next size hsome =>
    cases h
    obtain ⟨hsize, hlt⟩ := Option.filter_eq_some_iff.1 hsome
    exact .cut htarget hsize (of_decide_eq_true hlt)

theorem writes_of_write {result : Except Refusal Unit} (h : v.write p text = (result, w)) :
    Writes v p text result w := by
  rw [write] at h
  cases hplace : v.locate p with
  | error r =>
    rw [hplace] at h
    cases h
    exact .refused (by rw [target?, hplace]; rfl)
  | ok place =>
    rw [hplace] at h
    cases place with
    | directory | slashed =>
      cases h
      exact .refused (by rw [target?, hplace]; rfl)
    | file location | vacant location => exact writes_of_fill (target?_eq_some.2 ⟨_, hplace, rfl⟩) h

def Writable (v : Volume) (p : Path) (text : String) : Prop := (v.write p text).1 = .ok ()

theorem writable_iff : v.Writable p text ↔ (v.target? p).isSome ∧ v.Fits text := by
  rcases hwrite : v.write p text with ⟨result, w⟩
  rw [Writable, hwrite]
  cases writes_of_write hwrite with
  | refused hnone => simp [hnone]
  | complete htarget hfits => simp [htarget, hfits]
  | cut htarget hsize hlt => exact iff_of_false nofun fun h => Nat.not_le_of_lt hlt (h.2 _ hsize)

theorem write_eq_ok : v.write p text = (.ok (), w)
    ↔ v.Fits text ∧ ∃ location, v.target? p = some location ∧ w = v.put location (.text text) := by
  constructor
  · intro h
    cases writes_of_write h with
    | complete htarget hfits => exact ⟨hfits, _, htarget, rfl⟩
  · rintro ⟨hfits, location, htarget, rfl⟩
    rcases hwrite : v.write p text with ⟨result, w⟩
    cases writes_of_write hwrite with
    | refused hnone => cases hnone.symm.trans htarget
    | complete htarget' => rw [Option.some.inj (htarget.symm.trans htarget')]
    | cut _ hsize hlt => exact absurd (hfits _ hsize) (Nat.not_le_of_lt hlt)

def writeAll (v : Volume) : List (Path × String) → Except Refusal Unit × Volume
  | [] => (.ok (), v)
  | (p, text) :: writes =>
    match v.write p text with
    | (.ok _, w) => w.writeAll writes
    | (.error r, w) => (.error r, w)

@[simp] theorem writeAll_singleton (v : Volume) (p : Path) (text : String) :
    v.writeAll [(p, text)] = v.write p text := by
  rw [writeAll]
  rcases v.write p text with ⟨_ | ⟨⟩, w⟩
  · rfl
  · rfl

theorem writeAll_append_of_ok (h : v.writeAll writes = (.ok (), w))
    (writes' : List (Path × String)) : v.writeAll (writes ++ writes') = w.writeAll writes' := by
  induction writes generalizing v with
  | nil =>
    cases h
    rfl
  | cons write writes ih =>
    rw [writeAll] at h
    rw [List.cons_append, writeAll]
    rcases hwrite : v.write write.1 write.2 with ⟨_ | _, u⟩
    · rw [hwrite] at h
      cases h
    · rw [hwrite] at h
      exact ih h

/-- Writing keeps where all paths lead, and everything but the files that the writes lead to. -/
structure Kept (v : Volume) (written : List Path) (w : Volume) : Prop where
  target? : ∀ p, w.target? p = v.target? p
  directories : w.directories = v.directories
  capacity : w.capacity = v.capacity
  get? : ∀ location, (∀ p ∈ written, v.target? p ≠ some location) →
    w.files.get? location = v.files.get? location

theorem kept_put (h : v.target? p = some location) (content : Content) :
    Kept v [p] (v.put location content) where
  target? := target?_put (locate_of_target? h).2 content
  directories := rfl
  capacity := rfl
  get? other hother := by
    rw [get?_put, if_neg]
    rintro rfl
    exact hother p List.mem_cons_self h

namespace Kept

theorem refl (v : Volume) : Kept v [] v where
  target? _ := rfl
  directories := rfl
  capacity := rfl
  get? _ _ := rfl

theorem trans {u : Volume} {written written' : List Path} (h : Kept u written v)
    (h' : Kept v written' w) : Kept u (written ++ written') w where
  target? p := (h'.target? p).trans (h.target? p)
  directories := h'.directories.trans h.directories
  capacity := h'.capacity.trans h.capacity
  get? location hlocation := by
    obtain ⟨hleft, hright⟩ := List.forall_mem_append.1 hlocation
    rw [h'.get? location fun p hp => by rw [h.target?]; exact hright p hp, h.get? location hleft]

theorem mono {written written' : List Path} (h : Kept v written w) (hsub : written ⊆ written') :
    Kept v written' w where
  target? := h.target?
  directories := h.directories
  capacity := h.capacity
  get? location hlocation := h.get? location fun p hp => hlocation p (hsub hp)

theorem file? {written : List Path} (h : Kept v written w) (hp : ∀ q ∈ written, v.Apart q p) :
    w.file? p = v.file? p := by
  rw [Volume.file?, Volume.file?, h.target?]
  refine Option.bind_congr fun location hlocation => h.get? location fun q hq hsame => ?_
  exact hp q hq location hsame hlocation

theorem writable {written : List Path} (h : Kept v written w) :
    w.Writable p text ↔ v.Writable p text := by
  rw [writable_iff, writable_iff, Fits, Fits, h.target?, h.capacity]

end Kept

theorem kept_of_write {result : Except Refusal Unit} (h : v.write p text = (result, w)) :
    Kept v [p] w := by
  cases writes_of_write h with
  | refused => exact (Kept.refl v).mono (List.nil_subset _)
  | complete htarget => exact kept_put htarget _
  | cut htarget => exact kept_put htarget _

theorem kept_of_writeAll {result : Except Refusal Unit} (h : v.writeAll writes = (result, w)) :
    Kept v (writes.map Prod.fst) w := by
  induction writes generalizing v with
  | nil =>
    cases h
    exact .refl _
  | cons write writes ih =>
    rw [writeAll] at h
    rcases hwrite : v.write write.1 write.2 with ⟨_ | _, u⟩
    · rw [hwrite] at h
      cases h
      exact (kept_of_write hwrite).mono (List.cons_subset_cons _ (List.nil_subset _))
    · rw [hwrite] at h
      exact (kept_of_write hwrite).trans (ih h)

theorem file?_of_write (h : v.write p text = (.ok (), w)) : w.file? p = some (.text text) := by
  rw [file?, (kept_of_write h).target?]
  obtain ⟨-, location, hlocation, rfl⟩ := write_eq_ok.1 h
  rw [hlocation, Option.bind_some, get?_put, if_pos rfl]

end Access

end Volume

end Avionics.Storage
