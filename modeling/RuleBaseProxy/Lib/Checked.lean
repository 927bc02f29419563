import Mathlib.Data.List.Forall2

/-! # Loops that stop at the first error

What it takes for a computation with errors to succeed, for a sequence of steps
and for a loop over a list. A loop may thread a state; where no step changes what
a later one sees of the state, each step may be looked at by itself.
-/

namespace Checked

universe u v

variable {ε : Type u} {α β σ : Type v}

theorem bind_eq_ok {x : Except ε α} {f : α → Except ε β} {b : β} :
    (x >>= f) = .ok b ↔ ∃ a, x = .ok a ∧ f a = .ok b := by
  constructor
  · intro h
    cases x with
    | error err => cases h
    | ok a => exact ⟨a, rfl, h⟩
  · rintro ⟨a, rfl, h⟩
    exact h

theorem bind_eq_error {x : Except ε α} {f : α → Except ε β} {err : ε} :
    (x >>= f) = .error err ↔ x = .error err ∨ ∃ a, x = .ok a ∧ f a = .error err := by
  constructor
  · intro h
    cases x with
    | error e => exact Or.inl (congrArg Except.error (Except.error.inj h))
    | ok a => exact Or.inr ⟨a, rfl, h⟩
  · rintro (rfl | ⟨a, rfl, h⟩)
    · rfl
    · exact h

theorem map_eq_ok {x : Except ε α} {f : α → β} {b : β} :
    x.map f = .ok b ↔ ∃ a, x = .ok a ∧ f a = b := by
  constructor
  · intro h
    cases x with
    | error err => cases h
    | ok a => exact ⟨a, rfl, Except.ok.inj h⟩
  · rintro ⟨a, rfl, rfl⟩
    rfl

theorem mapM_eq_ok {f : α → Except ε β} {l : List α} {bs : List β} :
    l.mapM f = .ok bs ↔ List.Forall₂ (fun a b => f a = .ok b) l bs := by
  induction l generalizing bs with
  | nil =>
      rw [List.mapM_nil, List.forall₂_nil_left_iff]
      exact ⟨fun h => (Except.ok.inj h).symm, fun h => congrArg Except.ok h.symm⟩
  | cons a l ih =>
      rw [List.mapM_cons, bind_eq_ok, List.forall₂_cons_left_iff]
      constructor
      · rintro ⟨b, hb, hrest⟩
        obtain ⟨bs', hbs, h⟩ := bind_eq_ok.mp hrest
        exact ⟨b, bs', hb, ih.mp hbs, (Except.ok.inj h).symm⟩
      · rintro ⟨b, bs', hb, hbs, rfl⟩
        exact ⟨b, hb, bind_eq_ok.mpr ⟨bs', ih.mpr hbs, rfl⟩⟩

theorem mapM_eq_some {f : α → Option β} {l : List α} {bs : List β} :
    l.mapM f = some bs ↔ List.Forall₂ (fun a b => f a = some b) l bs := by
  induction l generalizing bs with
  | nil =>
      rw [List.mapM_nil, List.forall₂_nil_left_iff]
      exact ⟨fun h => (Option.some.inj h).symm, fun h => congrArg some h.symm⟩
  | cons a l ih =>
      simp only [List.mapM_cons, Option.bind_eq_bind, Option.bind_eq_some_iff, ih,
        List.forall₂_cons_left_iff, Option.pure_def, Option.some.injEq]
      constructor
      · rintro ⟨b, hb, bs', hbs, rfl⟩
        exact ⟨b, bs', hb, hbs, rfl⟩
      · rintro ⟨b, bs', hb, hbs, rfl⟩
        exact ⟨b, hb, bs', hbs, rfl⟩

theorem mem_of_mapM_eq_ok {f : α → Except ε β} {l : List α} {bs : List β} (h : l.mapM f = .ok bs)
    {b : β} : b ∈ bs ↔ ∃ a ∈ l, f a = .ok b := by
  rw [mapM_eq_ok] at h
  induction h with
  | nil => simp
  | cons ha _ ih =>
      simp only [List.mem_cons, exists_eq_or_imp, ih, ha, Except.ok.injEq]
      exact or_congr_left eq_comm

theorem map_of_mapM_eq_ok {γ : Type v} {f : α → Except ε β} {key : α → γ} {key' : β → γ}
    {l : List α} {bs : List β} (hkey : ∀ a b, f a = .ok b → key' b = key a)
    (h : l.mapM f = .ok bs) : bs.map key' = l.map key := by
  rw [mapM_eq_ok] at h
  induction h with
  | nil => rfl
  | cons ha _ ih => rw [List.map_cons, List.map_cons, hkey _ _ ha, ih]

theorem exists_mapM_eq_ok {f : α → Except ε β} {l : List α} :
    (∃ bs, l.mapM f = .ok bs) ↔ ∀ a ∈ l, ∃ b, f a = .ok b := by
  induction l with
  | nil => exact ⟨fun _ a ha => absurd ha List.not_mem_nil, fun _ => ⟨[], rfl⟩⟩
  | cons a l ih =>
      rw [List.forall_mem_cons, ← ih]
      simp only [mapM_eq_ok, List.forall₂_cons_left_iff]
      constructor
      · rintro ⟨_, b, bs, hb, hbs, rfl⟩
        exact ⟨⟨b, hb⟩, bs, hbs⟩
      · rintro ⟨⟨b, hb⟩, bs, hbs⟩
        exact ⟨b :: bs, b, bs, hb, hbs, rfl⟩

theorem exists_of_mapM_eq_error {f : α → Except ε β} {l : List α} {err : ε}
    (h : l.mapM f = .error err) : ∃ a ∈ l, f a = .error err := by
  induction l with
  | nil => cases h
  | cons a l ih =>
      rw [List.mapM_cons] at h
      obtain ha | ⟨b, -, h⟩ := bind_eq_error.mp h
      · exact ⟨a, List.mem_cons_self, ha⟩
      · obtain hl | ⟨bs, -, h⟩ := bind_eq_error.mp h
        · obtain ⟨a', ha', herr⟩ := ih hl
          exact ⟨a', List.mem_cons_of_mem a ha', herr⟩
        · cases h

theorem foldlM_cons_eq_ok {step : σ → α → Except ε σ} {a : α} {l : List α} {s t : σ} :
    (a :: l).foldlM step s = .ok t ↔ ∃ s', step s a = .ok s' ∧ l.foldlM step s' = .ok t := by
  rw [List.foldlM_cons, bind_eq_ok]

/-- A loop that fails does so at one of the elements, after those before it. -/
theorem exists_of_foldlM_eq_error {step : σ → α → Except ε σ} {l : List α} {s : σ} {err : ε}
    (h : l.foldlM step s = .error err) :
    ∃ done a rest s', l = done ++ a :: rest ∧ done.foldlM step s = .ok s' ∧
      step s' a = .error err := by
  induction l generalizing s with
  | nil => cases h
  | cons a l ih =>
      rw [List.foldlM_cons] at h
      obtain ha | ⟨s₁, hs₁, hl⟩ := bind_eq_error.mp h
      · exact ⟨[], a, l, s, rfl, rfl, ha⟩
      · obtain ⟨done, b, rest, s', rfl, hdone, hb⟩ := ih hl
        exact ⟨a :: done, b, rest, s', rfl, foldlM_cons_eq_ok.mpr ⟨s₁, hs₁, hdone⟩, hb⟩

/-! ## Panics -/

/-- A call does not come to its end: it returns an error, or panics. -/
inductive Failure (ε : Type u) where
  | error (err : ε)
  | panic

def lift (x : Except ε α) : Except (Failure ε) α := x.mapError .error

theorem lift_eq_ok {x : Except ε α} {a : α} : lift x = .ok a ↔ x = .ok a := by
  cases x with
  | error err => simp [lift, Except.mapError]
  | ok b => simp [lift, Except.mapError]

theorem lift_ne_panic {x : Except ε α} : lift x ≠ .error .panic := by
  intro h
  cases x with
  | error err => cases h
  | ok a => cases h

/-! ## Loops that thread a state -/

/-- The loop over a list with a state, which returns what each step returns. -/
def thread (f : σ → α → Except ε (β × σ)) : σ → List α → Except ε (List β × σ)
  | s, [] => .ok ([], s)
  | s, a :: l => do
      let (b, s) ← f s a
      let (bs, s) ← thread f s l
      .ok (b :: bs, s)

section Thread

variable {f : σ → α → Except ε (β × σ)} {s t : σ}

theorem thread_cons_eq_ok {a : α} {l : List α} {bs : List β} :
    thread f s (a :: l) = .ok (bs, t) ↔
      ∃ b s' rest, f s a = .ok (b, s') ∧ thread f s' l = .ok (rest, t) ∧ bs = b :: rest := by
  rw [thread, bind_eq_ok]
  constructor
  · rintro ⟨⟨b, s'⟩, hb, h⟩
    obtain ⟨⟨rest, t'⟩, hrest, h⟩ := bind_eq_ok.mp h
    cases h
    exact ⟨b, s', rest, hb, hrest, rfl⟩
  · rintro ⟨b, s', rest, hb, hrest, rfl⟩
    exact ⟨(b, s'), hb, bind_eq_ok.mpr ⟨(rest, t), hrest, rfl⟩⟩

theorem forall₂_of_thread_eq_ok {R : α → β → Prop} {l : List α} {bs : List β}
    (hR : ∀ s a b t, f s a = .ok (b, t) → R a b) (h : thread f s l = .ok (bs, t)) :
    List.Forall₂ R l bs := by
  induction l generalizing s bs with
  | nil =>
      cases h
      exact .nil
  | cons a l ih =>
      obtain ⟨b, s', rest, hb, hrest, rfl⟩ := thread_cons_eq_ok.mp h
      exact .cons (hR s a b s' hb) (ih hrest)

theorem exists_of_forall₂ {R : α → β → Prop} {l : List α} {bs : List β} (h : List.Forall₂ R l bs)
    {a : α} (ha : a ∈ l) : ∃ b ∈ bs, R a b := by
  induction h with
  | nil => cases ha
  | cons hab _ ih =>
      obtain rfl | ha := List.mem_cons.mp ha
      · exact ⟨_, List.mem_cons_self, hab⟩
      · obtain ⟨b, hb, hR⟩ := ih ha
        exact ⟨b, List.mem_cons_of_mem _ hb, hR⟩

theorem exists_of_thread_eq_error {l : List α} {err : ε} (h : thread f s l = .error err) :
    ∃ a ∈ l, ∃ s', f s' a = .error err := by
  induction l generalizing s with
  | nil => cases h
  | cons a l ih =>
      obtain ha | ⟨⟨b, s'⟩, -, h⟩ := bind_eq_error.mp h
      · exact ⟨a, List.mem_cons_self, s, ha⟩
      obtain hl | ⟨x, -, h⟩ := bind_eq_error.mp h
      · obtain ⟨a', ha', herr⟩ := ih hl
        exact ⟨a', List.mem_cons_of_mem a ha', herr⟩
      · cases h

/-- What a step sees of two states is the same, and steps leave what others see. -/
structure Independent (f : σ → α → Except ε (β × σ)) (Agree : α → σ → σ → Prop)
    (Leaves : α → α → Prop) : Prop where
  refl : ∀ a s, Agree a s s
  trans : ∀ a s s' s'', Agree a s s' → Agree a s' s'' → Agree a s s''
  result : ∀ a s s' b t, Agree a s s' → f s' a = .ok (b, t) → ∃ t', f s a = .ok (b, t')
  symm : ∀ a s s', Agree a s s' → Agree a s' s
  leaves : ∀ a a' s b t, Leaves a a' → f s a = .ok (b, t) → Agree a' s t

variable {Agree : α → σ → σ → Prop} {Leaves : α → α → Prop}

theorem Independent.forall₂_of_thread (h : Independent f Agree Leaves) {l : List α} {bs : List β}
    {s₀ : σ} (hl : l.Pairwise Leaves) (hs : ∀ a ∈ l, Agree a s₀ s)
    (hrun : thread f s l = .ok (bs, t)) :
    List.Forall₂ (fun a b => ∃ t, f s₀ a = .ok (b, t)) l bs := by
  induction l generalizing s bs with
  | nil =>
      cases hrun
      exact .nil
  | cons a l ih =>
      obtain ⟨b, s', rest, hb, hrest, rfl⟩ := thread_cons_eq_ok.mp hrun
      obtain ⟨hleaves, hl⟩ := List.pairwise_cons.mp hl
      refine .cons (h.result a s₀ s b s' (hs a List.mem_cons_self) hb) (ih hl ?_ hrest)
      intro a' ha'
      exact h.trans a' s₀ s s' (hs a' (List.mem_cons_of_mem a ha'))
        (h.leaves a a' s b s' (hleaves a' ha') hb)

theorem Independent.exists_thread (h : Independent f Agree Leaves) {l : List α} {s₀ : σ}
    (hl : l.Pairwise Leaves) (hs : ∀ a ∈ l, Agree a s₀ s)
    (hall : ∀ a ∈ l, ∃ b t, f s₀ a = .ok (b, t)) : ∃ bs t, thread f s l = .ok (bs, t) := by
  induction l generalizing s with
  | nil => exact ⟨[], s, rfl⟩
  | cons a l ih =>
      obtain ⟨hleaves, hl⟩ := List.pairwise_cons.mp hl
      obtain ⟨b, t₀, hb⟩ := hall a List.mem_cons_self
      obtain ⟨s', hs'⟩ := h.result a s s₀ b t₀ (h.symm a s₀ s (hs a List.mem_cons_self)) hb
      obtain ⟨bs, t, hrun⟩ := ih (s := s') hl
        (fun a' ha' => h.trans a' s₀ s s' (hs a' (List.mem_cons_of_mem a ha'))
          (h.leaves a a' s b s' (hleaves a' ha') hs'))
        (fun a' ha' => hall a' (List.mem_cons_of_mem a ha'))
      exact ⟨b :: bs, t, thread_cons_eq_ok.mpr ⟨b, s', bs, hs', hrun, rfl⟩⟩

end Thread

end Checked
