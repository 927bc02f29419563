import Mathlib.Data.List.Basic
import Mathlib.Logic.Function.Basic

/-! # Partial transition systems and guarded runs

A system is a partial step function: `step s a` is the state after action `a`,
or `none` where `a` is not enabled. A run is the list of the actions taken, so
an interleaving of several parties is one list. The rules below turn facts
about single steps into facts about every state of every run; the last one
also says exactly which runs keep a property.
-/

namespace TransitionSystem

structure System (σ : Type u) (α : Type v) where
  step : σ → α → Option σ

namespace System

variable {σ : Type u} {α : Type v} (S : System σ α)

/-- Take the actions one after another; `none` once one of them is not enabled. -/
def run : σ → List α → Option σ
  | s, [] => some s
  | s, a :: as => (S.step s a).bind fun t => run t as

/-- Every state the run passes through, first and last included, satisfies `P`.
A run stops at its first action that is not enabled. -/
def Always (P : σ → Prop) : σ → List α → Prop
  | s, [] => P s
  | s, a :: as => P s ∧ ∀ t, S.step s a = some t → Always P t as

/-- Every step the run takes meets `G` in the state before it. -/
def Guarded (G : σ → α → Prop) : σ → List α → Prop
  | _, [] => True
  | s, a :: as => ∀ t, S.step s a = some t → G s a ∧ Guarded G t as

theorem run_append (s : σ) (as bs : List α) :
    S.run s (as ++ bs) = (S.run s as).bind fun t => S.run t bs := by
  induction as generalizing s with
  | nil => rfl
  | cons a as ih =>
      rw [List.cons_append, run, run, Option.bind_assoc]
      exact congrArg _ (funext ih)

section Rules

variable {P Q Inv : σ → Prop} {G : σ → α → Prop}

theorem Always.head {s : σ} {as : List α} (h : S.Always P s as) : P s := by
  cases as with
  | nil => exact h
  | cons a as => exact h.1

theorem Always.mono (hPQ : ∀ s, P s → Q s) {s : σ} {as : List α}
    (h : S.Always P s as) : S.Always Q s as := by
  induction as generalizing s with
  | nil => exact hPQ s h
  | cons a as ih => exact ⟨hPQ s h.1, fun t ht => ih (h.2 t ht)⟩

/-- Along a run with an invariant, what is the same under the invariant is the same. -/
theorem Always.congr (hPQ : ∀ s, Inv s → (P s ↔ Q s)) {s : σ} {as : List α}
    (h : S.Always Inv s as) : S.Always P s as ↔ S.Always Q s as := by
  induction as generalizing s with
  | nil => exact hPQ s h
  | cons a as ih =>
      exact and_congr (hPQ s h.1) (forall_congr' fun t => forall_congr' fun ht => ih (h.2 t ht))

theorem Always.last {s t : σ} {as : List α} (h : S.Always P s as)
    (hrun : S.run s as = some t) : P t := by
  induction as generalizing s with
  | nil =>
      cases hrun
      exact h
  | cons a as ih =>
      obtain ⟨u, hu, hrest⟩ := Option.bind_eq_some_iff.mp hrun
      exact ih (h.2 u hu) hrest

theorem not_always_of_run {s : σ} {as : List α} (h : ∃ t, S.run s as = some t ∧ ¬ P t) :
    ¬ S.Always P s as := by
  obtain ⟨t, hrun, hbad⟩ := h
  exact fun halways => hbad (halways.last S hrun)

theorem Guarded.cons {s t : σ} {a : α} {as : List α} (hs : S.step s a = some t) (hg : G s a)
    (h : S.Guarded G t as) : S.Guarded G s (a :: as) := by
  intro u hu
  cases hs.symm.trans hu
  exact ⟨hg, h⟩

theorem guarded_of_forall {as : List α} (h : ∀ a ∈ as, ∀ s, G s a) (s : σ) :
    S.Guarded G s as := by
  induction as generalizing s with
  | nil => trivial
  | cons a as ih =>
      exact fun t _ => ⟨h a List.mem_cons_self s, ih (fun b hb => h b (List.mem_cons_of_mem a hb)) t⟩

/-- If every action is enabled, a guard that does not look at the state is met or not by the
actions alone. -/
theorem guarded_iff_forall {A : α → Prop} (htotal : ∀ s a, (S.step s a).isSome = true) (s : σ)
    (as : List α) : S.Guarded (fun _ a => A a) s as ↔ ∀ a ∈ as, A a := by
  constructor
  · intro h
    induction as generalizing s with
    | nil => exact fun a ha => nomatch ha
    | cons b as ih =>
        rcases Option.isSome_iff_exists.mp (htotal s b) with ⟨t, ht⟩
        intro a ha
        rcases List.mem_cons.mp ha with rfl | ha
        · exact (h t ht).1
        · exact ih t (h t ht).2 a ha
  · intro h
    exact S.guarded_of_forall (fun a ha _ => h a ha) s

/-- Invariant rule for guarded runs: what holds at the start and is kept by
every step that meets the guard holds in every state of a guarded run. -/
theorem always_of_guarded
    (hstep : ∀ s a t, Inv s → G s a → S.step s a = some t → Inv t)
    {s : σ} {as : List α} (hs : Inv s) (hG : S.Guarded G s as) : S.Always Inv s as := by
  induction as generalizing s with
  | nil => exact hs
  | cons a as ih =>
      refine ⟨hs, fun t ht => ?_⟩
      obtain ⟨hg, hrest⟩ := hG t ht
      exact ih (hstep s a t hs hg ht) hrest

theorem always_of_step (hstep : ∀ s a t, Inv s → S.step s a = some t → Inv t)
    {s : σ} (as : List α) (hs : Inv s) : S.Always Inv s as := by
  induction as generalizing s with
  | nil => exact hs
  | cons a as ih => exact ⟨hs, fun t ht => ih (hstep s a t hs ht)⟩

/-- Exactness rule. `Inv` is what the proof carries along a run on which `P`
has held so far. If from such a state a step leads to a state with `P` exactly
when it meets the guard, then a run keeps `P` exactly when it is guarded. -/
theorem always_iff_guarded
    (hInv : ∀ s a t, Inv s → P s → S.step s a = some t → G s a → Inv t)
    (hP : ∀ s a t, Inv s → P s → S.step s a = some t → (P t ↔ G s a))
    {s : σ} (as : List α) (hs : Inv s) (hp : P s) :
    S.Always P s as ↔ S.Guarded G s as := by
  induction as generalizing s with
  | nil => exact ⟨fun _ => trivial, fun _ => hp⟩
  | cons a as ih =>
      constructor
      · intro h t ht
        have hpt : P t := (h.2 t ht).head
        have hg : G s a := (hP s a t hs hp ht).mp hpt
        exact ⟨hg, (ih (hInv s a t hs hp ht hg) hpt).mp (h.2 t ht)⟩
      · intro h
        refine ⟨hp, fun t ht => ?_⟩
        obtain ⟨hg, hrest⟩ := h t ht
        have hpt : P t := (hP s a t hs hp ht).mpr hg
        exact (ih (hInv s a t hs hp ht hg) hpt).mpr hrest

end Rules

end System

/-! ## Parties by index

A state keeps its parties as a partial map, and a step of one party updates it.
-/

theorem eq_or_of_update {ι : Type u} {α : Type v} [DecidableEq ι] {f : ι → Option α} {i j : ι}
    {x : Option α} {y : α} (h : Function.update f i x j = some y) :
    j = i ∧ x = some y ∨ j ≠ i ∧ f j = some y := by
  by_cases hj : j = i
  · subst hj
    exact Or.inl ⟨rfl, by simpa using h⟩
  · exact Or.inr ⟨hj, by simpa [Function.update_of_ne hj] using h⟩

/-! ## Parties in a list

Counting the parties of a kind, while one of them moves.
-/

theorem countP_set_add {α : Type u} (p : α → Bool) {l : List α} {i : Nat} {a : α}
    (h : l[i]? = some a) (b : α) :
    (l.set i b).countP p + (if p a then 1 else 0) = l.countP p + if p b then 1 else 0 := by
  obtain ⟨hlt, rfl⟩ := List.getElem?_eq_some_iff.mp h
  have hpos : p l[i] = true → 0 < l.countP p := fun hp =>
    List.countP_pos_iff.mpr ⟨l[i], List.getElem_mem hlt, hp⟩
  rw [List.countP_set hlt]
  split
  case isTrue hp =>
    have := hpos hp
    omega
  case isFalse => omega

end TransitionSystem
