import Avionics.Proofs.Exchange.RoundTrip

/-! What one merge notes and what it leaves.  The records of contents are listed with their
places, in the order in which a merge comes to them: those that meet a different record
at their place are noted, and the others are stored or there already. -/

namespace Avionics.Exchange

namespace Schema

structure Entry (s : Schema) where
  kind : RecordKind
  place : Address s (records kind)
  key : String
  record : Record kind

namespace Entry

variable {s t : Schema}

def within (up : ∀ {u : Schema}, Address s u → Address t u) (e : Entry s) : Entry t :=
  ⟨e.kind, up e.place, e.key, e.record⟩

def held? (e : Entry s) (c : s.Content) : Option (Record e.kind) :=
  Keyed.get? (e.place.content c) e.key

def conflict? (e : Entry s) (held : s.Content) : Option Finding :=
  (e.held? held).bind fun r =>
    if e.record = r then none
    else some (.incompatible e.kind.family.tag e.key e.record.display r.display)

end Entry

/-- All records in the order of a merge: consumed data stand before produced data. -/
def entries : (s : Schema) → s.Content → List (Entry s)
  | records kind, c => (Keyed.entries c).map fun e => ⟨kind, .here, e.1, e.2⟩
  | unsupported .., _ => []
  | both s t, c => (s.entries c.1).map (.within .first) ++ (t.entries c.2).map (.within .second)
  | group _ s, c => (Keyed.entries c).flatMap fun e => (s.entries e.2).map (.within (.group e.1))
  | part _ s, c => (s.entries c).map (.within .part)
  | option _ s, c => (Option.toList c).flatMap fun d => (s.entries d).map (.within .option)
  | directional s, c =>
    (s.entries c.consumed).map (.within .consumed) ++ (s.entries c.produced).map (.within .produced)

def conflicts (s : Schema) (held new : s.Content) : List Finding :=
  (s.entries new).filterMap (·.conflict? held)

section Conflicts

variable {s t : Schema} {tag : String}

theorem held?_group (name : String) (m : Keyed String s.Content) (e : Entry s) :
    (e.within (.group name) : Entry (group tag s)).held? m = (m.get? name).bind e.held? := by
  show Keyed.get? (((m.get? name).map e.place.content).getD (records e.kind).empty) e.key = _
  cases m.get? name <;> rfl

theorem held?_option (c : Option s.Content) (e : Entry s) :
    (e.within .option : Entry (option tag s)).held? c = c.bind e.held? := by
  cases c <;> rfl

theorem conflict?_group (name : String) (m : Keyed String s.Content) (e : Entry s) :
    (e.within (.group name) : Entry (group tag s)).conflict? m = (m.get? name).bind e.conflict? :=
  (congrArg (Option.bind · _) (held?_group name m e)).trans (Option.bind_assoc ..)

theorem conflict?_option (c : Option s.Content) (e : Entry s) :
    (e.within .option : Entry (option tag s)).conflict? c = c.bind e.conflict? :=
  (congrArg (Option.bind · _) (held?_option c e)).trans (Option.bind_assoc ..)

theorem filterMap_within {up : ∀ {u : Schema}, Address s u → Address t u} {held : t.Content}
    {f : Entry s → Option Finding}
    (h : ∀ e, (e.within up).conflict? held = f e) (es : List (Entry s)) :
    (es.map (Entry.within up)).filterMap (·.conflict? held) = es.filterMap f := by
  rw [List.filterMap_map]
  exact List.filterMap_congr fun e _ => h e

theorem filterMap_bind (c : Option s.Content) (new : s.Content) :
    (s.entries new).filterMap (fun e => c.bind e.conflict?)
      = (c.map (s.conflicts · new)).getD [] := by
  cases c with
  | none => exact List.filterMap_eq_nil_iff.2 fun _ _ => rfl
  | some c => rfl

theorem conflicts_records {kind : RecordKind} (held new : Keyed String (Record kind)) :
    (records kind).conflicts held new
    = new.entries.flatMap fun e =>
    (Entry.conflict? (s := records kind) ⟨kind, .here, e.1, e.2⟩ held).toList := by
  show List.filterMap _ (new.entries.map _) = _
  rw [List.filterMap_map, List.filterMap_eq_flatMap_toList]
  rfl

theorem conflicts_both (held new : s.Content × t.Content) :
    (both s t).conflicts held new = s.conflicts held.1 new.1 ++ t.conflicts held.2 new.2 :=
  List.filterMap_append.trans
    (congrArg₂ (· ++ ·) (filterMap_within (fun _ => rfl) (s.entries new.1))
      (filterMap_within (fun _ => rfl) (t.entries new.2)))

theorem conflicts_group (held new : Keyed String s.Content) : (group tag s).conflicts held new
    = new.entries.flatMap fun e => ((held.get? e.1).map (s.conflicts · e.2)).getD [] := by
  refine List.filterMap_flatMap.trans (List.flatMap_congr fun e _ => ?_)
  rw [filterMap_within (conflict?_group e.1 held), filterMap_bind]

theorem conflicts_part (held new : s.Content) :
    (part tag s).conflicts held new = s.conflicts held new :=
  filterMap_within (fun _ => rfl) (s.entries new)

theorem conflicts_option (held : Option s.Content) (new : s.Content) :
    (option tag s).conflicts held (some new) = (held.map (s.conflicts · new)).getD [] := by
  show ((s.entries new).map (Entry.within .option) ++ []).filterMap _ = _
  rw [List.append_nil, filterMap_within (conflict?_option held), filterMap_bind]

theorem conflicts_directional (held new : Directional s.Content) :
    (directional s).conflicts held new
    = s.conflicts held.consumed new.consumed ++ s.conflicts held.produced new.produced :=
  List.filterMap_append.trans
    (congrArg₂ (· ++ ·) (filterMap_within (fun _ => rfl) (s.entries new.consumed))
    (filterMap_within (fun _ => rfl) (s.entries new.produced)))

end Conflicts

section Findings

theorem findings_join {kind : RecordKind} (held new : Record kind) :
    (held.join new).findings = if new = held then []
      else [.incompatible kind.family.tag new.key new.display held.display] := by
  rw [Record.join]
  split <;> rfl

theorem findings_joinOption {α : Type} (join : α → α → Noted α) (held : Option α) (new : α) :
    (Noted.joinOption join held (some new)).findings
      = (held.map fun a => (join a new).findings).getD [] := by
  cases held with
  | none => rfl
  | some a => exact Noted.findings_map ..

/-- Exactly the conflicts are noted, each where the merge comes to it. -/
theorem findings_merge {s : Schema} {new : s.Content} (hnew : s.Coherent new) (held : s.Content) :
    (s.merge held new).findings = s.conflicts held new := by
  induction s with
  | records kind =>
    refine (Keyed.findings_merge held new).trans (Eq.trans ?_ (conflicts_records held new).symm)
    refine List.flatMap_congr fun e he => ?_
    rw [findings_joinOption]
    show _ = Option.toList ((Keyed.get? held e.1).bind _)
    cases Keyed.get? held e.1 with
    | none => rfl
    | some r =>
      -- The finding has the record's own key, the entry the key that it stands under.
      show (r.join e.2).findings = Option.toList (if e.2 = r then none else some _)
      rw [findings_join, hnew e he]
      split <;> rfl
  | unsupported tag what key => rfl
  | both s t ihs iht =>
    refine Eq.trans ?_ (conflicts_both held new).symm
    rw [← ihs hnew.1, ← iht hnew.2]
    exact congrArg _ (List.append_nil _)
  | group tag s ih =>
    refine (Keyed.findings_merge held new).trans (Eq.trans ?_ (conflicts_group held new).symm)
    refine List.flatMap_congr fun e he => ?_
    rw [findings_joinOption]
    simp only [ih (hnew e he)]
  | part tag s ih => exact (ih hnew held).trans (conflicts_part (s := s) held new).symm
  | option tag s ih =>
    cases new with
    | none => rfl
    | some new =>
      refine Eq.trans ?_ (conflicts_option held new).symm
      cases held with
      | none => rfl
      | some held => exact (List.append_nil _).trans (ih (hnew new rfl) held)
  | directional s ih =>
    refine Eq.trans ?_ (conflicts_directional held new).symm
    rw [← ih hnew.2, ← ih hnew.1]
    exact congrArg _ (List.append_nil _)

end Findings

section Listing

variable {s t : Schema} {tag : String} {kind : RecordKind} {key : String} {r : Record kind}

section Within

variable (up : ∀ {u : Schema}, Address s u → Address t u) {es : List (Entry s)}

theorem mem_map_within (hup : ∀ u (a b : Address s u), up a = up b → a = b)
    {a : Address s (records kind)} :
    (⟨kind, up a, key, r⟩ : Entry t) ∈ es.map (Entry.within up) ↔ ⟨kind, a, key, r⟩ ∈ es := by
  rw [List.mem_map]
  constructor
  · rintro ⟨⟨_, b, _, _⟩, he, heq⟩
    obtain ⟨rfl, hplace, rfl, hr⟩ := Entry.mk.inj heq
    cases hup _ _ _ (eq_of_heq hplace)
    cases hr
    exact he
  · exact fun he => ⟨_, he, rfl⟩

theorem not_mem_map_within {a : Address t (records kind)} (ha : ∀ b, up b ≠ a) :
    (⟨kind, a, key, r⟩ : Entry t) ∉ es.map (Entry.within up) := by
  intro h
  obtain ⟨⟨_, b, _, _⟩, -, heq⟩ := List.mem_map.1 h
  obtain ⟨rfl, hplace, -, -⟩ := Entry.mk.inj heq
  exact ha b (eq_of_heq hplace)

theorem within_injective (hup : ∀ u (a b : Address s u), up a = up b → a = b) :
    Function.Injective (Entry.within up) := by
  rintro ⟨_, a, _, _⟩ ⟨_, b, _, _⟩ heq
  obtain ⟨rfl, hplace, rfl, hr⟩ := Entry.mk.inj heq
  cases hup _ _ _ (eq_of_heq hplace)
  cases hr
  rfl

theorem nodup_append_within {s' : Schema} {up : ∀ {u : Schema}, Address s u → Address t u}
    {up' : ∀ {u : Schema}, Address s' u → Address t u}
    (hne : ∀ u (a : Address s u) (b : Address s' u), up a ≠ up' b)
    {es : List (Entry s)} {es' : List (Entry s')} (h : (es.map (Entry.within up)).Nodup)
    (h' : (es'.map (Entry.within up')).Nodup) :
    (es.map (Entry.within up) ++ es'.map (Entry.within up')).Nodup := by
  refine List.nodup_append.2 ⟨h, h', ?_⟩
  rintro _ hleft _ hright rfl
  obtain ⟨e, -, rfl⟩ := List.mem_map.1 hleft
  exact not_mem_map_within up' (fun b hb => hne _ e.place b hb.symm) hright

end Within

theorem entries_some (c : s.Content) :
    (option tag s).entries (some c) = (s.entries c).map (.within .option) :=
  List.append_nil _

theorem mem_entries_group {m : Keyed String s.Content} {name : String}
    {a : Address s (records kind)} :
    ⟨kind, .group name a, key, r⟩ ∈ (group tag s).entries m ↔ ∃ c, m.get? name = some c
      ∧ ⟨kind, a, key, r⟩ ∈ s.entries c := by
  have hup (name : String) : ∀ u (a b : Address s u), (a.group name : Address (group tag s) u)
      = b.group name → a = b :=
    fun _ _ _ h => (Address.group.inj h).2
  refine List.mem_flatMap.trans ?_
  constructor
  · rintro ⟨⟨name', c⟩, hc, he⟩
    by_cases hname : name' = name
    · subst hname
      exact ⟨c, Keyed.get?_eq_some_iff.2 hc, (mem_map_within (.group name') (hup name')).1 he⟩
    · exact absurd he (not_mem_map_within (.group name') fun b h => hname (Address.group.inj h).1)
  · rintro ⟨c, hc, he⟩
    exact ⟨(name, c), Keyed.get?_eq_some_iff.1 hc, (mem_map_within (.group name) (hup name)).2 he⟩

theorem nodup_entries_group (hs : ∀ c : s.Content, (s.entries c).Nodup)
    (m : Keyed String s.Content) : ((group tag s).entries m).Nodup := by
  -- Entries of two groups may be equal below their names, so the names go with them.
  have hpairs := Keyed.nodup_flatMap m.nodup fun e _ => hs e.2
  have hinj : Function.Injective fun p : String × Entry s =>
      (p.2.within (.group p.1) : Entry (group tag s)) := by
    rintro ⟨_, _, a, _, _⟩ ⟨_, _, b, _, _⟩ heq
    obtain ⟨rfl, hplace, rfl, hr⟩ := Entry.mk.inj heq
    obtain ⟨rfl, rfl⟩ := Address.group.inj (eq_of_heq hplace)
    cases hr
    rfl
  refine Eq.mp (congrArg List.Nodup ?_) (hpairs.map hinj)
  rw [List.map_flatMap]
  refine List.flatMap_congr fun e _ => ?_
  rw [List.map_map]
  rfl

theorem mem_entries {s : Schema} {c : s.Content} (a : Address s (records kind)) :
    ⟨kind, a, key, r⟩ ∈ s.entries c ↔ Keyed.get? (a.content c) key = some r := by
  induction s with
  | records kind =>
    cases a with
    | here =>
      refine Iff.trans ?_ Keyed.get?_eq_some_iff.symm
      constructor
      · intro h
        obtain ⟨e, he, heq⟩ := List.mem_map.1 h
        cases heq
        exact he
      · exact fun h => List.mem_map.2 ⟨_, h, rfl⟩
  | unsupported tag what key => cases a
  | both s t ihs iht =>
    refine List.mem_append.trans ?_
    cases a with
    | first a =>
      refine (or_iff_left ?_).trans
        ((mem_map_within .first fun _ _ _ => Address.first.inj).trans (ihs a))
      exact not_mem_map_within .second nofun
    | second a =>
      refine (or_iff_right ?_).trans
        ((mem_map_within .second fun _ _ _ => Address.second.inj).trans (iht a))
      exact not_mem_map_within .first nofun
  | group tag s ih =>
    cases a with
    | group name a =>
      refine mem_entries_group.trans
        (Iff.trans ?_ (Eq.congr_left (held?_group name c ⟨kind, a, key, r⟩)).symm)
      refine Iff.trans ?_ Option.bind_eq_some_iff.symm
      exact exists_congr fun d => and_congr_right fun _ => ih a
  | part tag s ih =>
    cases a with
    | part a => exact (mem_map_within .part fun _ _ _ => Address.part.inj).trans (ih a)
  | option tag s ih =>
    cases a with
    | option a =>
      cases c with
      | none => exact iff_of_false List.not_mem_nil nofun
      | some c =>
        rw [entries_some]
        exact (mem_map_within .option fun _ _ _ => Address.option.inj).trans (ih a)
  | directional s ih =>
    refine List.mem_append.trans ?_
    cases a with
    | consumed a =>
      refine (or_iff_left ?_).trans
        ((mem_map_within .consumed fun _ _ _ => Address.consumed.inj).trans (ih a))
      exact not_mem_map_within .produced nofun
    | produced a =>
      refine (or_iff_right ?_).trans
        ((mem_map_within .produced fun _ _ _ => Address.produced.inj).trans (ih a))
      exact not_mem_map_within .consumed nofun

theorem nodup_entries {s : Schema} (c : s.Content) : (s.entries c).Nodup := by
  induction s with
  | records kind =>
    refine List.Nodup.map ?_ (List.Nodup.of_map _ (Keyed.nodup c))
    rintro ⟨key, r⟩ ⟨key', r'⟩ heq
    cases heq
    rfl
  | unsupported tag what key => exact .nil
  | both s t ihs iht =>
    exact nodup_append_within (by rintro _ _ _ ⟨⟩)
      ((ihs c.1).map (within_injective .first fun _ _ _ => Address.first.inj))
      ((iht c.2).map (within_injective .second fun _ _ _ => Address.second.inj))
  | group tag s ih => exact nodup_entries_group ih c
  | part tag s ih => exact (ih c).map (within_injective .part fun _ _ _ => Address.part.inj)
  | option tag s ih =>
    cases c with
    | none => exact .nil
    | some c =>
      rw [entries_some]
      exact (ih c).map (within_injective .option fun _ _ _ => Address.option.inj)
  | directional s ih =>
    exact nodup_append_within (by rintro _ _ _ ⟨⟩)
      ((ih c.consumed).map (within_injective .consumed fun _ _ _ => Address.consumed.inj))
      ((ih c.produced).map (within_injective .produced fun _ _ _ => Address.produced.inj))

end Listing

/-- The left of two contents, extended by what the right one has on top of it. -/
structure Extends (s : Schema) (held new merged : s.Content) : Prop where
  record : ∀ kind (a : Address s (records kind)) key,
    Keyed.get? (a.content merged) key = (Keyed.get? (a.content held) key).or
      (Keyed.get? (a.content new) key)
  recordOrder : ∀ kind (a : Address s (records kind)), Keyed.keys (a.content merged)
    = Keyed.keys (a.content held) ++ (Keyed.keys (a.content new)).filter fun k =>
      k ∉ Keyed.keys (a.content held)
  groupOrder : ∀ tag t (a : Address s (group tag t)), Keyed.keys (a.content merged)
    = Keyed.keys (a.content held) ++ (Keyed.keys (a.content new)).filter fun k =>
      k ∉ Keyed.keys (a.content held)
  present : ∀ tag t (a : Address s (option tag t)),
    Option.isSome (a.content merged)
      = (Option.isSome (a.content held) || Option.isSome (a.content new))

theorem value_merge_empty (s : Schema) (c : s.Content) : (s.merge c s.empty).value = c := by
  have h := (s.joining.right_unit c).1
  rwa [join_joining, unit_joining] at h

theorem content_joinOption {s u : Schema} {f : s.Content → u.Content}
    (h : ∀ c d, f (s.merge c d).value = (u.merge (f c) (f d)).value) (c d : Option s.Content) :
    ((Noted.joinOption s.merge c d).value.map f).getD u.empty
      = (u.merge ((c.map f).getD u.empty) ((d.map f).getD u.empty)).value := by
  cases c with
  | none =>
    rw [Noted.joinOption_none_left, Option.map_none, Option.getD_none, merge_empty]
    rfl
  | some c =>
    cases d with
    | none => exact (value_merge_empty u (f c)).symm
    | some d => exact h c d

theorem Address.content_merge {s u : Schema} (a : Address s u) (held new : s.Content) :
    a.content (s.merge held new).value = (u.merge (a.content held) (a.content new)).value := by
  induction a with
  | here => rfl
  | first a ih => exact ih held.1 new.1
  | second a ih => exact ih held.2 new.2
  | group name a ih =>
    refine Eq.trans (congrArg (fun c => (Option.map a.content c).getD _)
      (Keyed.get?_merge held new name)) ?_
    exact content_joinOption ih (Keyed.get? held name) (Keyed.get? new name)
  | part a ih => exact ih held new
  | option a ih =>
    refine Eq.trans ?_ (content_joinOption ih held new)
    cases held <;> cases new <;> rfl
  | produced a ih => exact ih held.produced new.produced
  | consumed a ih => exact ih held.consumed new.consumed

theorem get?_merge_join {kind : RecordKind} (m n : Keyed String (Record kind)) (key : String) :
    (Keyed.merge Record.join m n).value.get? key = (m.get? key).or (n.get? key) := by
  rw [Keyed.get?_merge]
  cases m.get? key with
  | none => rw [Noted.joinOption_none_left, Noted.value_pure, Option.none_or]
  | some r =>
    cases n.get? key with
    | none => rfl
    | some r' => exact congrArg some (Record.value_join r r')

theorem extends_merge (s : Schema) (held new : s.Content) :
    s.Extends held new (s.merge held new).value where
  record kind a key := by
    rw [a.content_merge]
    exact get?_merge_join (a.content held) (a.content new) key
  recordOrder kind a := by
    rw [a.content_merge]
    exact Keyed.keys_merge_append (a.content held) (a.content new)
  groupOrder tag t a := by
    rw [a.content_merge]
    exact Keyed.keys_merge_append (a.content held) (a.content new)
  present tag t a := by
    rw [a.content_merge]
    cases a.content held <;> cases a.content new <;> rfl

end Schema

namespace Platform

theorem merge_conflicts (p : Platform) {q : Platform} (hq : q.Built) :
    (p.merge q).findings = Schema.platform.conflicts p.content q.content
      ∧ (Schema.platform.entries q.content).Nodup
      ∧ (∀ e : Schema.Entry Schema.platform, e ∈ Schema.platform.entries q.content
        ↔ e.held? q.content = some e.record)
      ∧ Schema.platform.Extends p.content q.content (p.merge q).value.content := by
  refine ⟨?_, Schema.nodup_entries q.content, fun e => Schema.mem_entries e.place, ?_⟩
  · rw [findings_merge, Schema.findings_merge hq.coherent]
  · exact Schema.extends_merge Schema.platform p.content q.content

theorem merge_conflicts_signals :
    ∃ p q : Platform, q.Built ∧ (read (signalRoot "a")).run.value = .ok p
    ∧ (read (signalRoot "b")).run.value = .ok q ∧ (p.merge q).findings
      = [.incompatible "DISCRETE" "S" "Signal(Name=S, LocalName=b)"
        "Signal(Name=S, LocalName=a)"] := by
  obtain ⟨p, q, hp, hq, hconflicts⟩ : ∃ p q : Platform, (read (signalRoot "a")).run.value = .ok p
      ∧ (read (signalRoot "b")).run.value = .ok q ∧ Schema.platform.conflicts p.content q.content
        = [.incompatible "DISCRETE" "S" "Signal(Name=S, LocalName=b)"
          "Signal(Name=S, LocalName=a)"] := ⟨_, _, rfl, rfl, rfl⟩
  obtain ⟨hfindings, -⟩ := merge_conflicts p (.read hq)
  exact ⟨p, q, .read hq, hp, hq, hfindings.trans hconflicts⟩

end Platform

end Avionics.Exchange
