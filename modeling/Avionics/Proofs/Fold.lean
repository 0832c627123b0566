import Mathlib.Data.List.Forall2

universe u v w

namespace Avionics

variable {ε : Type u} {σ : Type v} {α : Type w} {step : σ → α → Except ε σ}

theorem foldlM_cons_of_ok {s t : σ} {a : α} (h : step s a = .ok t) (as : List α) :
    (a :: as).foldlM step s = as.foldlM step t := by
  rw [List.foldlM_cons, h]
  rfl

theorem foldlM_append_of_ok {s t : σ} {as : List α} (h : as.foldlM step s = .ok t) (bs : List α) :
    (as ++ bs).foldlM step s = bs.foldlM step t := by
  rw [List.foldlM_append, h]
  rfl

theorem foldlM_concat {m : Type u → Type v} [Monad m] [LawfulMonad m] {β : Type u} (f : β → α → m β)
    (b : β) (as : List α) (a : α) : (as ++ [a]).foldlM f b = as.foldlM f b >>= fun b => f b a := by
  simp

theorem foldlM_congr {m : Type u → Type v} [Monad m] {σ : Type u} {f g : σ → α → m σ} {as : List α}
    (h : ∀ a ∈ as, ∀ s, f s a = g s a) (s : σ) : as.foldlM f s = as.foldlM g s := by
  induction as generalizing s with
  | nil => rfl
  | cons a as ih =>
    obtain ⟨ha, has⟩ := List.forall_mem_cons.1 h
    rw [List.foldlM_cons, List.foldlM_cons, ha]
    exact bind_congr fun s => ih has s

theorem foldlM_map_eq {m : Type u → Type v} [Monad m] {σ : Type u} {γ : Type w}
    {step : σ → γ → m σ} {f : γ → γ} (h : ∀ s c, step s (f c) = step s c) (cs : List γ) (s : σ) :
    (cs.map f).foldlM step s = cs.foldlM step s := by
  rw [List.foldlM_map]
  simp only [h]

theorem mapM_eq_of_map_eq {m : Type u → Type v} [Monad m] [LawfulMonad m] {β : Type u} {f : α → m β}
    {as bs : List α} (h : as.map f = bs.map f) : as.mapM f = bs.mapM f := by
  calc
    as.mapM f = (as.map f).mapM id := by rw [List.mapM_map, Function.id_comp]
    _ = (bs.map f).mapM id := by rw [h]
    _ = bs.mapM f := by rw [List.mapM_map, Function.id_comp]

theorem mapM_map_eq {m : Type u → Type v} [Monad m] [LawfulMonad m] {β γ : Type u} {δ : Type w}
    {f : α → m β} {g : δ → m γ}
    {image : α → δ} {result : β → γ} {as : List α} (h : ∀ a ∈ as, g (image a) = result <$> f a) :
    (as.map image).mapM g = List.map result <$> as.mapM f := by
  induction as with
  | nil => simp
  | cons a as ih =>
    obtain ⟨ha, has⟩ := List.forall_mem_cons.1 h
    simp [ha, ih has]

/-- Two folds, the second over images of what the first is over, with states that stay related. -/
theorem foldlM_related {m n : Type u → Type v} [Monad m] [Monad n] {σ τ : Type u} {γ δ : Type w}
    {S : σ → τ → Prop} {R : m σ → n τ → Prop} (hpure : ∀ {s t}, S s t → R (pure s) (pure t))
    (hbind : ∀ {x : m σ} {y : n τ} {k : σ → m σ} {l : τ → n τ}, R x y →
      (∀ s t, S s t → R (k s) (l t)) → R (x >>= k) (y >>= l))
    {f : σ → γ → m σ} {g : τ → δ → n τ} {h : γ → δ} {cs : List γ}
    (hstep : ∀ c ∈ cs, ∀ s t, S s t → R (f s c) (g t (h c))) {s : σ} {t : τ} (hst : S s t) :
    R (cs.foldlM f s) ((cs.map h).foldlM g t) := by
  induction cs generalizing s t with
  | nil => exact hpure hst
  | cons c cs ih =>
    obtain ⟨hc, hcs⟩ := List.forall_mem_cons.1 hstep
    rw [List.map_cons, List.foldlM_cons, List.foldlM_cons]
    exact hbind (hc s t hst) fun s t hst => ih hcs hst

variable {β : Type w} {f : α → Except ε β}

theorem bind_eq_ok {x : Except ε α} {b : β} : (x >>= f) = .ok b ↔ ∃ a, x = .ok a ∧ f a = .ok b := by
  cases x with
  | error e => exact iff_of_false nofun nofun
  | ok a =>
    constructor
    · intro h
      exact ⟨a, rfl, h⟩
    · rintro ⟨_, ⟨⟩, h⟩
      exact h

theorem exists_foldlM_iff {P : α → Prop} (h : ∀ s a, (∃ t, step s a = .ok t) ↔ P a)
    (as : List α) (s : σ) : (∃ t, as.foldlM step s = .ok t) ↔ ∀ a ∈ as, P a := by
  induction as generalizing s with
  | nil => exact iff_of_true ⟨s, rfl⟩ (List.forall_mem_nil P)
  | cons a as ih =>
    rw [List.forall_mem_cons, ← h s, List.foldlM_cons]
    constructor
    · rintro ⟨t, ht⟩
      obtain ⟨u, hu, ht⟩ := bind_eq_ok.1 ht
      exact ⟨⟨u, hu⟩, (ih u).1 ⟨t, ht⟩⟩
    · rintro ⟨⟨u, hu⟩, has⟩
      obtain ⟨t, ht⟩ := (ih u).2 has
      exact ⟨t, bind_eq_ok.2 ⟨u, hu, ht⟩⟩

theorem mapM_eq_ok {as : List α} {bs : List β} :
    as.mapM f = .ok bs ↔ List.Forall₂ (fun a b => f a = .ok b) as bs := by
  induction as generalizing bs with
  | nil =>
    rw [List.forall₂_nil_left_iff]
    exact ⟨fun h => by cases h; rfl, fun h => by cases h; rfl⟩
  | cons a as ih =>
    rw [List.mapM_cons, bind_eq_ok, List.forall₂_cons_left_iff]
    constructor
    · rintro ⟨b, hb, h⟩
      obtain ⟨bs, hbs, h⟩ := bind_eq_ok.1 h
      cases h
      exact ⟨b, bs, hb, ih.1 hbs, rfl⟩
    · rintro ⟨b, bs, hb, hbs, rfl⟩
      exact ⟨b, hb, bind_eq_ok.2 ⟨bs, ih.2 hbs, rfl⟩⟩

theorem mapM_of_ok {as : List α} {g : α → β} (h : ∀ a ∈ as, f a = .ok (g a)) :
    as.mapM f = .ok (as.map g) := by
  induction as with
  | nil => rfl
  | cons a as ih =>
    obtain ⟨ha, has⟩ := List.forall_mem_cons.1 h
    rw [List.mapM_cons, ha, ih has]
    rfl

end Avionics
