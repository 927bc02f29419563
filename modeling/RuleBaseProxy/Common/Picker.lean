import RuleBaseProxy.Lib.Transition
import Mathlib.Data.List.Nodup
import Mathlib.Data.List.Range

/-! # The first of several calls

A `Picker` runs functions in goroutines, cancels their context once one of them has
succeeded and hands out that result when all have returned. A run is any interleaving of
`Go`, of the goroutines and of `Wait`.
-/

namespace RuleBaseProxy.Picker

open TransitionSystem

inductive Stage where
  | running
  /-- After `once.Do` or `errOnce.Do`, before `wg.Done`. -/
  | settled
  | finished
deriving DecidableEq, Repr

def Stage.pending (c : Stage) : Bool := c != .finished

/-- A picker and its goroutines, in the order of the calls of `Go`. What `once` guards is
written at most once, so it is done where there is a `result`; likewise `errOnce` and `err`. -/
structure State (ρ ε : Type) where
  calls : List Stage
  wg : Nat
  result : Option ρ
  err : Option ε
  cancelled : Bool

variable {ρ ε : Type}

def newPicker : State ρ ε := ⟨[], 0, none, none, false⟩

inductive Event (ρ ε : Type) where
  | go
  /-- The function of a call has returned, and its goroutine comes to the `Once`. What the
  function returns is up to the run. -/
  | settle (i : Nat) (ret : Except ε ρ)
  | done (i : Nat)
  | wait

namespace State

def settle (s : State ρ ε) : Except ε ρ → State ρ ε
  | .ok ret => if s.result.isSome then s else { s with result := some ret, cancelled := true }
  | .error err => if s.err.isSome then s else { s with err := some err }

def step (s : State ρ ε) : Event ρ ε → Option (State ρ ε)
  | .go => some { s with calls := s.calls ++ [.running], wg := s.wg + 1 }
  | .settle i ret =>
      if s.calls[i]? = some .running then
        some { s.settle ret with calls := s.calls.set i .settled }
      else none
  | .done i =>
      if s.calls[i]? = some .settled then
        -- a counter below zero is a panic
        if s.wg = 0 then none
        else some { s with calls := s.calls.set i .finished, wg := s.wg - 1 }
      else none
  | .wait => if s.wg = 0 then some { s with cancelled := true } else none

end State

def group : System (State ρ ε) (Event ρ ε) := ⟨State.step⟩

/-- With `n` calls of `Go`, whose functions return `out`, `Wait` can return `result` and
`Error` then `err`. -/
def Waits (n : Nat) (out : Nat → Except ε ρ) (result : Option ρ) (err : Option ε) : Prop :=
  ∃ events s t, group.run newPicker events = some s ∧ s.calls.length = n ∧
    (∀ i ret, .settle i ret ∈ events → ret = out i) ∧
    group.step s .wait = some t ∧ t.result = result ∧ t.err = err

/-! ## What a settled group holds -/

def Yields {α : Type} (n : Nat) (f : Nat → Option α) : Option α → Prop
  | some a => ∃ i < n, f i = some a
  | none => ∀ i < n, f i = none

def ok? : Except ε ρ → Option ρ
  | .ok ret => some ret
  | .error _ => none

def error? : Except ε ρ → Option ε
  | .ok _ => none
  | .error err => some err

theorem ok?_eq_none_or_error?_eq_none (ret : Except ε ρ) : ok? ret = none ∨ error? ret = none := by
  cases ret with
  | ok => exact Or.inr rfl
  | error => exact Or.inl rfl

@[simp] theorem State.settle_calls (s : State ρ ε) (ret : Except ε ρ) :
    (s.settle ret).calls = s.calls := by
  cases ret <;> simp only [settle] <;> split <;> rfl

@[simp] theorem State.settle_wg (s : State ρ ε) (ret : Except ε ρ) :
    (s.settle ret).wg = s.wg := by
  cases ret <;> simp only [settle] <;> split <;> rfl

@[simp] theorem State.settle_result (s : State ρ ε) (ret : Except ε ρ) :
    (s.settle ret).result = s.result.or (ok? ret) := by
  cases ret <;> simp only [settle, ok?] <;> cases h : s.result <;> simp [h] <;> split <;> simp [h]

@[simp] theorem State.settle_err (s : State ρ ε) (ret : Except ε ρ) :
    (s.settle ret).err = s.err.or (error? ret) := by
  cases ret <;> simp only [settle, error?] <;> cases h : s.err <;> simp [h] <;> split <;> simp [h]

/-- Some call that has come to its `Once` had the value, if any of these had one. -/
def Holds {α : Type} (calls : List Stage) (f : Nat → Option α) : Option α → Prop
  | some a => ∃ i < calls.length, f i = some a
  | none => ∀ i c, calls[i]? = some c → c ≠ .running → f i = none

theorem Holds.append {α : Type} {calls : List Stage} {f : Nat → Option α} {a : Option α}
    (h : Holds calls f a) : Holds (calls ++ [.running]) f a := by
  cases a with
  | some a =>
      obtain ⟨i, hi, ha⟩ := h
      exact ⟨i, by simp only [List.length_append]; omega, ha⟩
  | none =>
      intro i c hc hne
      rw [List.getElem?_append] at hc
      split at hc
      · exact h i c hc hne
      · rw [List.getElem?_singleton] at hc
        split at hc
        · cases hc
          exact absurd rfl hne
        · cases hc

/-- The value of a call joins when the call leaves `running`. -/
theorem Holds.set {α : Type} {calls : List Stage} {f : Nat → Option α} {a : Option α}
    (h : Holds calls f a) {i : Nat} (hi : i < calls.length) (c : Stage) :
    Holds (calls.set i c) f (a.or (f i)) := by
  cases a with
  | some a =>
      obtain ⟨j, hj, ha⟩ := h
      exact ⟨j, by simpa using hj, ha⟩
  | none =>
      rw [Option.none_or]
      cases hf : f i with
      | some b => exact ⟨i, by simpa using hi, hf⟩
      | none =>
          intro j c' hc hne
          rw [List.getElem?_set] at hc
          split at hc
          case isTrue hij => exact hij ▸ hf
          case isFalse => exact h j c' hc hne

theorem Holds.set_of_settled {α : Type} {calls : List Stage} {f : Nat → Option α} {a : Option α}
    (h : Holds calls f a) {i : Nat} (hi : calls[i]? = some .settled) (c : Stage) :
    Holds (calls.set i c) f a := by
  have hlt : i < calls.length := (List.getElem?_eq_some_iff.mp hi).choose
  cases a with
  | some a => exact h.set hlt c
  | none =>
      have hnone : f i = none := h i _ hi (by decide)
      have hset := h.set hlt c
      rwa [hnone] at hset

theorem Holds.yields {α : Type} {calls : List Stage} {f : Nat → Option α} {a : Option α}
    (h : Holds calls f a) (hcalls : ∀ c ∈ calls, c = .finished) : Yields calls.length f a := by
  cases a with
  | some a => exact h
  | none =>
      intro i hi
      refine h i calls[i] (List.getElem?_eq_getElem hi) ?_
      rw [hcalls _ (List.getElem_mem hi)]
      decide

/-- What holds in every state of a run in which the functions return `out`. -/
structure Inv (out : Nat → Except ε ρ) (s : State ρ ε) : Prop where
  wg : s.wg = s.calls.countP Stage.pending
  result : Holds s.calls (fun i => ok? (out i)) s.result
  err : Holds s.calls (fun i => error? (out i)) s.err

theorem inv_newPicker (out : Nat → Except ε ρ) : Inv out newPicker :=
  ⟨rfl, by rintro i c ⟨⟩, by rintro i c ⟨⟩⟩

theorem Inv.step {out : Nat → Except ε ρ} {s t : State ρ ε} {e : Event ρ ε} (h : Inv out s)
    (he : ∀ i ret, e = .settle i ret → ret = out i) (hstep : s.step e = some t) : Inv out t := by
  cases e with
  | go =>
      cases hstep
      exact ⟨by simp [h.wg, Stage.pending], h.result.append, h.err.append⟩
  | settle i ret =>
      obtain ⟨hi, ⟨⟩⟩ := Option.ite_none_right_eq_some.mp hstep
      obtain rfl := he i ret rfl
      have hlt : i < s.calls.length := (List.getElem?_eq_some_iff.mp hi).choose
      refine ⟨?_, ?_, ?_⟩
      · have hcount : (s.calls.set i .settled).countP Stage.pending + 1 =
            s.calls.countP Stage.pending + 1 := countP_set_add Stage.pending hi .settled
        change (s.settle (out i)).wg = (s.calls.set i .settled).countP Stage.pending
        rw [State.settle_wg, h.wg]
        omega
      · simpa using h.result.set hlt .settled
      · simpa using h.err.set hlt .settled
  | done i =>
      obtain ⟨hi, hstep⟩ := Option.ite_none_right_eq_some.mp hstep
      obtain ⟨-, ⟨⟩⟩ := Option.ite_none_left_eq_some.mp hstep
      refine ⟨?_, h.result.set_of_settled hi .finished, h.err.set_of_settled hi .finished⟩
      have hcount : (s.calls.set i .finished).countP Stage.pending + 1 =
          s.calls.countP Stage.pending + 0 := countP_set_add Stage.pending hi .finished
      change s.wg - 1 = (s.calls.set i .finished).countP Stage.pending
      rw [h.wg]
      omega
  | wait =>
      obtain ⟨-, ⟨⟩⟩ := Option.ite_none_right_eq_some.mp hstep
      exact ⟨h.wg, h.result, h.err⟩

theorem Inv.run {out : Nat → Except ε ρ} {s t : State ρ ε} {events : List (Event ρ ε)}
    (h : Inv out s) (he : ∀ i ret, .settle i ret ∈ events → ret = out i)
    (hrun : group.run s events = some t) : Inv out t := by
  have halways : group.Always (Inv out) s events :=
    group.always_of_guarded (G := fun _ e => ∀ i ret, e = .settle i ret → ret = out i)
      (fun _ _ _ hinv hg hstep => hinv.step hg hstep) h
      (group.guarded_of_forall (fun e hmem _ i ret heq => he i ret (by rwa [← heq])) s)
  exact halways.last group hrun

theorem Inv.finished {out : Nat → Except ε ρ} {s : State ρ ε} (h : Inv out s) (hwg : s.wg = 0) :
    ∀ c ∈ s.calls, c = .finished := by
  have hzero : s.calls.countP Stage.pending = 0 := by rw [← h.wg, hwg]
  intro c hc
  simpa [Stage.pending] using List.countP_eq_zero.mp hzero c hc

/-! ## Every choice has its schedule -/

theorem run_go (n : Nat) (s : State ρ ε) :
    group.run s (List.replicate n .go) =
      some { s with calls := s.calls ++ List.replicate n .running, wg := s.wg + n } := by
  induction n generalizing s with
  | zero => simp [System.run]
  | succ n ih =>
      rw [List.replicate_succ, System.run]
      change group.run _ _ = _
      rw [ih]
      simp [List.replicate_succ, Nat.add_assoc, Nat.add_comm 1 n]

/-- Calls that settle one after another: the first value counts. -/
theorem exists_run_settle (out : Nat → Except ε ρ) {l : List Nat} (hl : l.Nodup) {s : State ρ ε}
    (hs : ∀ i ∈ l, s.calls[i]? = some .running) :
    ∃ t, group.run s (l.map fun i => .settle i (out i)) = some t ∧ t.wg = s.wg ∧
      t.calls.length = s.calls.length ∧ (∀ i ∈ l, t.calls[i]? = some .settled) ∧
      (∀ i ∉ l, t.calls[i]? = s.calls[i]?) ∧
      t.result = s.result.or (l.findSome? fun i => ok? (out i)) ∧
      t.err = s.err.or (l.findSome? fun i => error? (out i)) := by
  induction l generalizing s with
  | nil => exact ⟨s, rfl, rfl, rfl, by simp, by simp, by simp, by simp⟩
  | cons i l ih =>
      obtain ⟨hi, hl⟩ := List.nodup_cons.mp hl
      have hrun := hs i List.mem_cons_self
      have hlt : i < s.calls.length := (List.getElem?_eq_some_iff.mp hrun).choose
      let u : State ρ ε := { s.settle (out i) with calls := s.calls.set i .settled }
      have hu : group.step s (.settle i (out i)) = some u := if_pos hrun
      have hne : ∀ j, j ≠ i → u.calls[j]? = s.calls[j]? := fun j hj =>
        List.getElem?_set_ne (Ne.symm hj)
      have hrest : ∀ j ∈ l, u.calls[j]? = some .running := by
        intro j hj
        rw [hne j (ne_of_mem_of_not_mem hj hi)]
        exact hs j (List.mem_cons_of_mem i hj)
      obtain ⟨t, ht, hwg, hlen, hmem, hnot, hresult, herr⟩ := ih hl hrest
      refine ⟨t, by simp [System.run, hu, ht], by simpa [u] using hwg, by simpa [u] using hlen,
        ?_, ?_, ?_, ?_⟩
      · intro j hj
        rcases List.mem_cons.mp hj with rfl | hj
        · rw [hnot j hi]
          exact List.getElem?_set_self hlt
        · exact hmem j hj
      · intro j hj
        rw [List.mem_cons, not_or] at hj
        rw [hnot j hj.2, hne j hj.1]
      · rw [hresult, List.findSome?_cons]
        simp only [u, State.settle_result]
        cases s.result <;> cases ok? (out i) <;> rfl
      · rw [herr, List.findSome?_cons]
        simp only [u, State.settle_err]
        cases s.err <;> cases error? (out i) <;> rfl

theorem exists_run_done {l : List Nat} (hl : l.Nodup) {s : State ρ ε}
    (hs : ∀ i ∈ l, s.calls[i]? = some .settled) (hwg : l.length ≤ s.wg) :
    ∃ t, group.run s (l.map .done) = some t ∧ t.wg = s.wg - l.length ∧
      t.calls.length = s.calls.length ∧ t.result = s.result ∧ t.err = s.err := by
  induction l generalizing s with
  | nil => exact ⟨s, rfl, rfl, rfl, rfl, rfl⟩
  | cons i l ih =>
      obtain ⟨hi, hl⟩ := List.nodup_cons.mp hl
      rw [List.length_cons] at hwg
      let u : State ρ ε := { s with calls := s.calls.set i .finished, wg := s.wg - 1 }
      have hu : group.step s (.done i) = some u := by
        change (if _ then _ else _) = _
        rw [if_pos (hs i List.mem_cons_self), if_neg (by omega)]
      have hrest : ∀ j ∈ l, u.calls[j]? = some .settled := by
        intro j hj
        change (s.calls.set i .finished)[j]? = _
        rw [List.getElem?_set_ne (Ne.symm (ne_of_mem_of_not_mem hj hi))]
        exact hs j (List.mem_cons_of_mem i hj)
      obtain ⟨t, ht, hwgt, hlen, hresult, herr⟩ := ih hl hrest (by simp only [u]; omega)
      refine ⟨t, by simp [System.run, hu, ht], ?_, by simpa [u] using hlen, hresult, herr⟩
      rw [hwgt, List.length_cons]
      simp only [u]
      omega

/-- An order of all numbers below `n` with a given beginning. -/
theorem exists_order_of_front {n : Nat} (front : List Nat) (hfront : front.Nodup)
    (hlt : ∀ i ∈ front, i < n) :
    ∃ l, (front ++ l).Nodup ∧ ∀ i, i ∈ front ++ l ↔ i < n := by
  refine ⟨(List.range n).filter (· ∉ front), ?_, fun i => ?_⟩
  · refine hfront.append (List.nodup_range.filter _) ?_
    intro i hi hmem
    have hnot : i ∉ front := by simpa using (List.mem_filter.mp hmem).2
    exact hnot hi
  · by_cases hi : i ∈ front
    · simp [hi, hlt i hi]
    · simp [hi]

theorem findSome?_of_none {α : Type} {n : Nat} {f : Nat → Option α} (h : Yields n f none)
    {l : List Nat} (hl : ∀ i ∈ l, i < n) : l.findSome? f = none :=
  List.findSome?_eq_none_iff.mpr fun i hi => h i (hl i hi)

theorem exists_order {α β : Type} {n : Nat} {f : Nat → Option α} {g : Nat → Option β}
    (hfg : ∀ i, f i = none ∨ g i = none) {a : Option α} {b : Option β} (hf : Yields n f a)
    (hg : Yields n g b) :
    ∃ l : List Nat, l.Nodup ∧ (∀ i, i ∈ l ↔ i < n) ∧ l.findSome? f = a ∧ l.findSome? g = b := by
  cases a with
  | none =>
      cases b with
      | none =>
          obtain ⟨l, hnodup, hmem⟩ := exists_order_of_front (n := n) [] List.nodup_nil (by simp)
          exact ⟨_, hnodup, hmem, findSome?_of_none hf fun i hi => (hmem i).mp hi,
            findSome?_of_none hg fun i hi => (hmem i).mp hi⟩
      | some b =>
          obtain ⟨j, hj, hb⟩ := hg
          obtain ⟨l, hnodup, hmem⟩ := exists_order_of_front [j] (List.nodup_singleton j) (by simpa)
          exact ⟨_, hnodup, hmem, findSome?_of_none hf fun i hi => (hmem i).mp hi, by simp [hb]⟩
  | some a =>
      obtain ⟨i, hi, ha⟩ := hf
      have hgi : g i = none := (hfg i).resolve_left (by simp [ha])
      cases b with
      | none =>
          obtain ⟨l, hnodup, hmem⟩ := exists_order_of_front [i] (List.nodup_singleton i) (by simpa)
          exact ⟨_, hnodup, hmem, by simp [ha], findSome?_of_none hg fun i hi => (hmem i).mp hi⟩
      | some b =>
          obtain ⟨j, hj, hb⟩ := hg
          have hij : i ≠ j := by
            rintro rfl
            simp [hgi] at hb
          obtain ⟨l, hnodup, hmem⟩ := exists_order_of_front (n := n) [i, j]
            (by simpa using hij) (by simp [hi, hj])
          exact ⟨_, hnodup, hmem, by simp [ha], by simp [hgi, hb]⟩

/-- Over all schedules: `Wait` returns the result of a call that succeeded, and nothing only if
every call failed; `Error` is the error of a call that failed, and nil only if none did. Each
such choice is that of some schedule. -/
theorem waits_iff (n : Nat) (out : Nat → Except ε ρ) (result : Option ρ) (err : Option ε) :
    Waits n out result err ↔
      Yields n (fun i => ok? (out i)) result ∧ Yields n (fun i => error? (out i)) err := by
  constructor
  · rintro ⟨events, s, t, hrun, rfl, he, hwait, rfl, rfl⟩
    have hinv : Inv out s := (inv_newPicker out).run he hrun
    obtain ⟨hwg, ⟨⟩⟩ := Option.ite_none_right_eq_some.mp hwait
    have hfinished := hinv.finished hwg
    exact ⟨hinv.result.yields hfinished, hinv.err.yields hfinished⟩
  · rintro ⟨hresult, herr⟩
    obtain ⟨l, hl, hmem, hfirst, hfirstErr⟩ := exists_order
      (fun i => ok?_eq_none_or_error?_eq_none (out i)) hresult herr
    have hlen : l.length = n := by
      have hperm : l.Perm (List.range n) :=
        (List.perm_ext_iff_of_nodup hl List.nodup_range).mpr fun i => by simp [hmem]
      simpa using hperm.length_eq
    have hgo := run_go n (newPicker : State ρ ε)
    obtain ⟨u, hu, huwg, hulen, husettled, -, huresult, huerr⟩ := exists_run_settle out hl
      (s := ⟨List.replicate n .running, n, none, none, false⟩) fun i hi => by
        simp [(hmem i).mp hi]
    obtain ⟨s, hs, hswg, hslen, hsresult, hserr⟩ := exists_run_done hl husettled
      (by simp [huwg, hlen])
    refine ⟨List.replicate n .go ++ ((l.map fun i => .settle i (out i)) ++ l.map .done), s,
      { s with cancelled := true }, ?_, ?_, ?_, ?_, ?_, ?_⟩
    · rw [System.run_append, hgo, Option.bind_some, System.run_append]
      simp only [newPicker, List.nil_append, Nat.zero_add]
      rw [hu, Option.bind_some, hs]
    · simp [hslen, hulen]
    · intro i ret hret
      simp only [List.mem_append, List.mem_replicate, List.mem_map, reduceCtorEq, and_false,
        exists_false, or_false, false_or, Event.settle.injEq] at hret
      obtain ⟨j, -, rfl, rfl⟩ := hret
      rfl
    · exact if_pos (by rw [hswg, huwg, hlen]; simp)
    · simpa [hsresult, huresult] using hfirst
    · simpa [hserr, huerr] using hfirstErr

end RuleBaseProxy.Picker
