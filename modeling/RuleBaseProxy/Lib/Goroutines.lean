import RuleBaseProxy.Lib.Transition
import Mathlib.Algebra.BigOperators.Group.List.Basic
import Mathlib.Algebra.Group.Nat.Defs
import Mathlib.Algebra.Group.Prod
import Mathlib.Algebra.Order.Group.Multiset

/-! # Goroutines on shared state

A program says what one goroutine does to the state it shares with the others, section by
section. The others enter a proof only by their total: each goroutine is given a weight, and
an invariant relates the shared state to the sum of the weights. It is enough to look at one
goroutine at a time, next to any total of the rest.
-/

namespace Goroutines

open TransitionSystem

structure Program (σ : Type u) (π : Type v) (ε : Type w) where
  /-- Where a goroutine may begin. -/
  starts : π → Bool
  /-- `none` where the section is not the next one, waits, or panics. -/
  step : σ → π → ε → Option (σ × π)

structure Config (σ : Type u) (π : Type v) where
  shared : σ
  threads : List π

inductive Event (π : Type v) (ε : Type w) where
  | go (p : π)
  | act (i : Nat) (e : ε)

variable {σ : Type u} {π : Type v} {ε : Type w} {M : Type x} [AddCommMonoid M]

def Config.total (weight : π → M) (c : Config σ π) : M := (c.threads.map weight).sum

namespace Program

variable (P : Program σ π ε)

def next (c : Config σ π) : Event π ε → Option (Config σ π)
  | .go p => if P.starts p then some { c with threads := c.threads ++ [p] } else none
  | .act i e =>
      (c.threads[i]?).bind fun p =>
        (P.step c.shared p e).map fun r => ⟨r.1, c.threads.set i r.2⟩

def system : System (Config σ π) (Event π ε) := ⟨P.next⟩

/-- The sections of one goroutine, with nobody in between. -/
def alone : σ → π → List ε → Option (σ × π)
  | s, p, [] => some (s, p)
  | s, p, e :: es => (P.step s p e).bind fun r => alone r.1 r.2 es

variable {P}

theorem next_cases {c d : Config σ π} {e : Event π ε} (h : P.next c e = some d) :
    (∃ p, P.starts p = true ∧ d = { c with threads := c.threads ++ [p] }) ∨
      ∃ i p a s q, c.threads[i]? = some p ∧ P.step c.shared p a = some (s, q) ∧
        d = ⟨s, c.threads.set i q⟩ := by
  cases e with
  | go p =>
      obtain ⟨hp, ⟨⟩⟩ := Option.ite_none_right_eq_some.mp h
      exact Or.inl ⟨p, hp, rfl⟩
  | act i a =>
      obtain ⟨p, hp, h⟩ := Option.bind_eq_some_iff.mp h
      obtain ⟨⟨s, q⟩, hstep, rfl⟩ := Option.map_eq_some_iff.mp h
      exact Or.inr ⟨i, p, a, s, q, hp, hstep, rfl⟩

theorem run_alone {s s' : σ} {p p' : π} {es : List ε} (halone : P.alone s p es = some (s', p'))
    {threads : List π} {i : Nat} (hi : threads[i]? = some p) :
    P.system.run ⟨s, threads⟩ (es.map (.act i)) = some ⟨s', threads.set i p'⟩ := by
  induction es generalizing s p threads with
  | nil =>
      cases halone
      obtain ⟨hlt, rfl⟩ := List.getElem?_eq_some_iff.mp hi
      rw [List.set_getElem_self]
      rfl
  | cons e es ih =>
      obtain ⟨⟨t, q⟩, hstep, halone⟩ := Option.bind_eq_some_iff.mp halone
      have hlt : i < threads.length := (List.getElem?_eq_some_iff.mp hi).choose
      have hnext : P.system.step ⟨s, threads⟩ (.act i e) = some ⟨t, threads.set i q⟩ := by
        change (threads[i]?).bind _ = _
        rw [hi, Option.bind_some, hstep, Option.map_some]
      rw [List.map_cons, System.run, hnext, Option.bind_some,
        ih halone (List.getElem?_set_self hlt), List.set_set]

theorem isSome_next {c : Config σ π} {i : Nat} {p : π} (hi : c.threads[i]? = some p) {e : ε}
    (he : (P.step c.shared p e).isSome = true) : (P.system.step c (.act i e)).isSome = true := by
  change ((c.threads[i]?).bind _).isSome = true
  rw [hi, Option.bind_some, Option.isSome_map]
  exact he

end Program

/-! ## Totals -/

section Totals

variable (weight : π → M)

theorem total_nil (s : σ) : (⟨s, []⟩ : Config σ π).total weight = 0 := rfl

theorem total_append (s : σ) (threads : List π) (p : π) :
    (⟨s, threads ++ [p]⟩ : Config σ π).total weight =
      (⟨s, threads⟩ : Config σ π).total weight + weight p := by
  simp [Config.total]

theorem exists_total_set {threads : List π} {i : Nat} {p : π} (h : threads[i]? = some p) :
    ∃ rest : M, (∀ s : σ, (⟨s, threads⟩ : Config σ π).total weight = rest + weight p) ∧
      ∀ (s : σ) (q : π), (⟨s, threads.set i q⟩ : Config σ π).total weight = rest + weight q := by
  induction threads generalizing i with
  | nil => cases h
  | cons r threads ih =>
      cases i with
      | zero =>
          cases h
          refine ⟨(threads.map weight).sum, fun s => ?_, fun s q => ?_⟩
          · simp [Config.total, add_comm]
          · simp [Config.total, add_comm]
      | succ i =>
          obtain ⟨rest, htotal, hset⟩ := ih h
          refine ⟨weight r + rest, fun s => ?_, fun s q => ?_⟩
          · have heq := htotal s
            simp only [Config.total] at heq
            simp only [Config.total, List.map_cons, List.sum_cons, heq, add_assoc]
          · have heq := hset s q
            simp only [Config.total] at heq
            simp only [Config.total, List.set_cons_succ, List.map_cons, List.sum_cons, heq,
              add_assoc]

theorem total_prod {N : Type y} [AddCommMonoid N] (weight' : π → N) (c : Config σ π) :
    c.total (fun p => (weight p, weight' p)) = (c.total weight, c.total weight') := by
  obtain ⟨s, threads⟩ := c
  induction threads with
  | nil => rfl
  | cons p threads ih =>
      simp only [Config.total] at ih
      simp only [Config.total, List.map_cons, List.sum_cons, ih, Prod.mk_add_mk]

end Totals

/-! ## Invariants -/

section Invariants

variable {P : Program σ π ε} {weight : π → M} {J B : σ → M → Prop}

/-- What one goroutine keeps next to any rest is kept by all of them, as long as each step is
taken within the bound `B`. -/
theorem always_of_total_guarded
    (hgo : ∀ s n p, P.starts p = true → J s n → J s (n + weight p))
    (hstep : ∀ s n p e s' p', P.step s p e = some (s', p') → B s (n + weight p) →
      J s (n + weight p) → J s' (n + weight p'))
    {c : Config σ π} (hc : J c.shared (c.total weight)) {events : List (Event π ε)}
    (hB : P.system.Guarded (fun c _ => B c.shared (c.total weight)) c events) :
    P.system.Always (fun c => J c.shared (c.total weight)) c events := by
  have hkeep : ∀ (c : Config σ π) (e : Event π ε) (d : Config σ π), J c.shared (c.total weight) →
      B c.shared (c.total weight) → P.system.step c e = some d → J d.shared (d.total weight) := by
    intro c e d hJ hbound hd
    obtain ⟨s, threads⟩ := c
    rcases Program.next_cases hd with ⟨p, hp, rfl⟩ | ⟨i, p, a, s', q, hi, ha, rfl⟩
    · rw [total_append]
      exact hgo s _ p hp hJ
    · obtain ⟨rest, htotal, hset⟩ := exists_total_set (σ := σ) weight hi
      rw [htotal] at hJ hbound
      rw [hset]
      exact hstep s rest p a s' q ha hbound hJ
  exact P.system.always_of_guarded hkeep hc hB

theorem always_of_total
    (hgo : ∀ s n p, P.starts p = true → J s n → J s (n + weight p))
    (hstep : ∀ s n p e s' p', P.step s p e = some (s', p') → J s (n + weight p) →
      J s' (n + weight p'))
    {c : Config σ π} (hc : J c.shared (c.total weight)) (events : List (Event π ε)) :
    P.system.Always (fun c => J c.shared (c.total weight)) c events :=
  always_of_total_guarded (B := fun _ _ => True) hgo
    (fun s n p e s' p' hs _ hJ => hstep s n p e s' p' hs hJ) hc
    (P.system.guarded_of_forall (fun _ _ _ => trivial) c)

theorem le_total {weight : π → Nat} {c : Config σ π} {i : Nat} {p : π}
    (h : c.threads[i]? = some p) : weight p ≤ c.total weight := by
  obtain ⟨rest, htotal, -⟩ := exists_total_set (σ := σ) weight h
  have heq := htotal c.shared
  change c.total weight = _ at heq
  omega

theorem exists_of_total_pos {weight : π → Nat} {c : Config σ π} (h : 0 < c.total weight) :
    ∃ (i : Nat) (p : π), c.threads[i]? = some p ∧ 0 < weight p := by
  obtain ⟨s, threads⟩ := c
  induction threads with
  | nil => cases h
  | cons p threads ih =>
      by_cases hp : 0 < weight p
      · exact ⟨0, p, rfl, hp⟩
      · have hrest : 0 < (⟨s, threads⟩ : Config σ π).total weight := by
          simp only [Config.total, List.map_cons, List.sum_cons] at h ⊢
          omega
        obtain ⟨i, q, hi, hq⟩ := ih hrest
        exact ⟨i + 1, q, hi, hq⟩

/-- Where each goroutine brings some elements, they are those of all together. -/
theorem mem_total {α : Type x} {weight : π → Multiset α} {c : Config σ π} {a : α} :
    a ∈ c.total weight ↔ ∃ p ∈ c.threads, a ∈ weight p := by
  obtain ⟨s, threads⟩ := c
  induction threads with
  | nil => simp [total_nil]
  | cons p threads ih =>
      simp only [Config.total] at ih
      simp [Config.total, ih]

end Invariants

end Goroutines
