import Mathlib.Data.List.Lex
import Mathlib.Order.Defs.LinearOrder

/-! # Paths with wildcards and their priority

A path of labels stands for the label lists it covers: `star` stands for any one
label, and `dot`, which ends a path, for one or more. Of two paths the one with
the earlier literal label has priority, then the one with the earlier `star`. A
set of paths selects for a label list the path of highest priority that covers it.
-/

namespace WildcardPath

variable {L : Type u} (star dot : L)

inductive Covers : List L → List L → Prop where
  | nil : Covers [] []
  | label {l : L} {q ls : List L} : Covers q ls → Covers (l :: q) (l :: ls)
  | star {l : L} {q ls : List L} : Covers q ls → Covers (star :: q) (l :: ls)
  | dot {l : L} {ls : List L} : Covers [dot] (l :: ls)

variable {star dot} in
theorem covers_cons_iff {p : List L} {l : L} {ls : List L} :
    Covers star dot p (l :: ls) ↔
      (∃ q, p = l :: q ∧ Covers star dot q ls) ∨ (∃ q, p = star :: q ∧ Covers star dot q ls) ∨
        p = [dot] := by
  constructor
  · intro h
    cases h with
    | label h => exact Or.inl ⟨_, rfl, h⟩
    | star h => exact Or.inr (Or.inl ⟨_, rfl, h⟩)
    | dot => exact Or.inr (Or.inr rfl)
  · intro h
    rcases h with ⟨q, rfl, h⟩ | ⟨q, rfl, h⟩ | rfl
    · exact .label h
    · exact .star h
    · exact .dot

variable {star dot} in
theorem covers_nil_iff {p : List L} : Covers star dot p [] ↔ p = [] := by
  constructor
  · intro h
    cases h
    rfl
  · intro h
    rw [h]
    exact .nil

variable [DecidableEq L]

def rank (l : L) : Nat := if l = dot then 2 else if l = star then 1 else 0

/-- Strictly higher priority: lexicographic, by the ranks of the labels. -/
def Prior (p q : List L) : Prop := p.map (rank star dot) < q.map (rank star dot)

/-- `q` is the path of the set that has priority among those that cover `ls`. -/
structure Selects (S : List L → Prop) (ls q : List L) : Prop where
  mem : S q
  covers : Covers star dot q ls
  first : ∀ p, S p → Covers star dot p ls → ¬ Prior star dot p q

variable {star dot}

theorem not_prior_self (q : List L) : ¬ Prior star dot q q := List.lt_irrefl _

theorem prior_cons_iff {x y : L} {p q : List L} :
    Prior star dot (x :: p) (y :: q) ↔
      rank star dot x < rank star dot y ∨
        rank star dot x = rank star dot y ∧ Prior star dot p q := by
  simp [Prior, List.cons_lt_cons_iff]

theorem prior_cons_self {x : L} {p q : List L} :
    Prior star dot (x :: p) (x :: q) ↔ Prior star dot p q := by
  simp [prior_cons_iff]

/-- The labels at which two paths that cover the same list can part have
different ranks, unless the list has a `dot` itself. -/
theorem rank_lt_of_ne {l : L} (hl : l ≠ dot) (hstar : star ≠ dot) :
    rank star dot l < rank star dot dot ∧ rank star dot star < rank star dot dot ∧
      (l ≠ star → rank star dot l < rank star dot star) := by
  refine ⟨?_, ?_, fun hne => ?_⟩
  · simp only [rank, hl, if_false, if_true]
    split <;> decide
  · simp [rank, hstar]
  · simp [rank, hl, hne, hstar]

/-- Priority decides between any two paths that cover the same list. -/
theorem Covers.trichotomy (hstar : star ≠ dot) {ls : List L} (hls : dot ∉ ls) {p q : List L}
    (hp : Covers star dot p ls) (hq : Covers star dot q ls) :
    p = q ∨ Prior star dot p q ∨ Prior star dot q p := by
  induction ls generalizing p q with
  | nil =>
      rw [covers_nil_iff.mp hp, covers_nil_iff.mp hq]
      exact Or.inl rfl
  | cons l ls ih =>
      simp only [List.mem_cons, not_or] at hls
      obtain ⟨hl, hls⟩ := hls
      obtain ⟨hld, hsd, hlstar⟩ := rank_lt_of_ne (Ne.symm hl) hstar
      have hsame : ∀ {x : L} {p' q' : List L}, Covers star dot p' ls → Covers star dot q' ls →
          x :: p' = x :: q' ∨ Prior star dot (x :: p') (x :: q') ∨
            Prior star dot (x :: q') (x :: p') := by
        intro x p' q' hp' hq'
        simpa only [List.cons.injEq, true_and, prior_cons_self] using ih hls hp' hq'
      rcases covers_cons_iff.mp hp with ⟨p', rfl, hp'⟩ | ⟨p', rfl, hp'⟩ | rfl <;>
        rcases covers_cons_iff.mp hq with ⟨q', rfl, hq'⟩ | ⟨q', rfl, hq'⟩ | rfl
      · exact hsame hp' hq'
      · by_cases heq : l = star
        · subst heq
          exact hsame hp' hq'
        · exact Or.inr (Or.inl (prior_cons_iff.mpr (Or.inl (hlstar heq))))
      · exact Or.inr (Or.inl (prior_cons_iff.mpr (Or.inl hld)))
      · by_cases heq : l = star
        · subst heq
          exact hsame hp' hq'
        · exact Or.inr (Or.inr (prior_cons_iff.mpr (Or.inl (hlstar heq))))
      · exact hsame hp' hq'
      · exact Or.inr (Or.inl (prior_cons_iff.mpr (Or.inl hsd)))
      · exact Or.inr (Or.inr (prior_cons_iff.mpr (Or.inl hld)))
      · exact Or.inr (Or.inr (prior_cons_iff.mpr (Or.inl hsd)))
      · exact Or.inl rfl

theorem Selects.unique (hstar : star ≠ dot) {ls : List L} (hls : dot ∉ ls) {S : List L → Prop}
    {p q : List L} (hp : Selects star dot S ls p) (hq : Selects star dot S ls q) : p = q := by
  rcases hp.covers.trichotomy hstar hls hq.covers with heq | hprior | hprior
  · exact heq
  · exact (hq.first p hp.mem hp.covers hprior).elim
  · exact (hp.first q hq.mem hq.covers hprior).elim

end WildcardPath
