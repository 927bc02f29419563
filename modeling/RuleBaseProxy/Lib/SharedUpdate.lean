import RuleBaseProxy.Lib.Transition
import Mathlib.Logic.Function.Basic

/-! # Read-modify-write on a shared value

Each request reads the shared value once and later writes the value it computes
from what it has read. Reading and writing are separate steps. If every write
still finds the value its request has read, a run has the effect of the
requests one after another, in the order of their writes.
-/

namespace SharedUpdate

open TransitionSystem

inductive Phase (σ : Type u) where
  | idle
  | holding (v : σ)
  | done
deriving DecidableEq

structure State (ι : Type v) (σ : Type u) where
  shared : σ
  phase : ι → Phase σ

def State.init {ι : Type v} {σ : Type u} (v : σ) : State ι σ := ⟨v, fun _ => .idle⟩

inductive Action (ι : Type v) where
  | read (i : ι)
  | write (i : ι)

variable {ι : Type v} {σ : Type u} [DecidableEq ι] (f : ι → σ → σ)

def step (s : State ι σ) : Action ι → Option (State ι σ)
  | .read i =>
      match s.phase i with
      | .idle => some { s with phase := Function.update s.phase i (.holding s.shared) }
      | _ => none
  | .write i =>
      match s.phase i with
      | .holding v => some ⟨f i v, Function.update s.phase i .done⟩
      | _ => none

def system : System (State ι σ) (Action ι) := ⟨step f⟩

def serial (v : σ) (order : List ι) : σ := order.foldl (fun v i => f i v) v

def writes : List (Action ι) → List ι
  | [] => []
  | .read _ :: as => writes as
  | .write i :: as => i :: writes as

def Undisturbed (s : State ι σ) (a : Action ι) : Prop :=
  ∀ i v, a = .write i → s.phase i = .holding v → v = s.shared

variable {f} {s t : State ι σ}

theorem step_read {i : ι} (h : (system f).step s (.read i) = some t) :
    s.phase i = .idle ∧ t = { s with phase := Function.update s.phase i (.holding s.shared) } := by
  simp only [system, step] at h
  split at h
  · rename_i hphase
    exact ⟨hphase, (Option.some.inj h).symm⟩
  · cases h

theorem step_write {i : ι} (h : (system f).step s (.write i) = some t) :
    ∃ v, s.phase i = .holding v ∧ t = ⟨f i v, Function.update s.phase i .done⟩ := by
  simp only [system, step] at h
  split at h
  · rename_i v hphase
    exact ⟨v, hphase, (Option.some.inj h).symm⟩
  · cases h

/-- Reading and writing without interruption is one application. -/
theorem run_read_write (f : ι → σ → σ) {i : ι} (h : s.phase i = .idle) :
    (system f).run s [.read i, .write i] =
      some ⟨f i s.shared, Function.update s.phase i .done⟩ := by
  simp [System.run, system, step, h]

theorem shared_of_run {as : List (Action ι)} (hg : (system f).Guarded Undisturbed s as)
    (h : (system f).run s as = some t) : t.shared = serial f s.shared (writes as) := by
  induction as generalizing s with
  | nil =>
      cases h
      rfl
  | cons a as ih =>
      obtain ⟨u, hu, hrest⟩ := Option.bind_eq_some_iff.mp h
      obtain ⟨hfresh, hg⟩ := hg u hu
      rw [ih hg hrest]
      cases a with
      | read i =>
          obtain ⟨-, rfl⟩ := step_read hu
          rfl
      | write i =>
          obtain ⟨v, hv, rfl⟩ := step_write hu
          cases hfresh i v rfl hv
          rfl

theorem not_mem_writes_of_done {as : List (Action ι)} (h : (system f).run s as = some t) {i : ι}
    (hi : s.phase i = .done) : i ∉ writes as := by
  induction as generalizing s with
  | nil => simp [writes]
  | cons a as ih =>
      obtain ⟨u, hu, hrest⟩ := Option.bind_eq_some_iff.mp h
      cases a with
      | read j =>
          obtain ⟨hj, rfl⟩ := step_read hu
          have hne : i ≠ j := by
            rintro rfl
            simp [hi] at hj
          exact ih hrest (by simpa [Function.update_of_ne hne] using hi)
      | write j =>
          obtain ⟨v, hj, rfl⟩ := step_write hu
          have hne : i ≠ j := by
            rintro rfl
            simp [hi] at hj
          have hrec := ih hrest (by simpa [Function.update_of_ne hne] using hi)
          simp [writes, hne, hrec]

theorem nodup_writes {as : List (Action ι)} (h : (system f).run s as = some t) :
    (writes as).Nodup := by
  induction as generalizing s with
  | nil => exact List.nodup_nil
  | cons a as ih =>
      obtain ⟨u, hu, hrest⟩ := Option.bind_eq_some_iff.mp h
      cases a with
      | read j => exact ih hrest
      | write j =>
          obtain ⟨v, hj, rfl⟩ := step_write hu
          exact List.nodup_cons.mpr
            ⟨not_mem_writes_of_done hrest (by simp), ih hrest⟩

/-- A request that is done at the end was done at the start or has written. -/
theorem mem_writes_of_done {as : List (Action ι)} (h : (system f).run s as = some t) {i : ι}
    (hi : t.phase i = .done) : s.phase i = .done ∨ i ∈ writes as := by
  induction as generalizing s with
  | nil =>
      cases h
      exact Or.inl hi
  | cons a as ih =>
      obtain ⟨u, hu, hrest⟩ := Option.bind_eq_some_iff.mp h
      cases a with
      | read j =>
          obtain ⟨hj, rfl⟩ := step_read hu
          refine (ih hrest).imp_left fun hdone => ?_
          by_cases hij : i = j
          · subst hij
            simp at hdone
          · simpa [Function.update_of_ne hij] using hdone
      | write j =>
          obtain ⟨v, hj, rfl⟩ := step_write hu
          by_cases hij : i = j
          · exact Or.inr (by simp [writes, hij])
          · exact (ih hrest).imp (fun hdone => by simpa [Function.update_of_ne hij] using hdone)
              (fun hmem => by simp [writes, hmem])

end SharedUpdate
