import RuleBaseProxy.Lib.Goroutines
import RuleBaseProxy.Lib.GoString

/-! # Batches of calls

`Batch.Go` runs a function in a goroutine that waits for one of the permits of the batch;
`Wait` returns when all are done. The health check of a provider tests its proxies this way,
ten at a time.
-/

namespace RuleBaseProxy.Batch

open Go TransitionSystem Goroutines

variable {ν ε : Type}

structure Result (ν ε : Type) where
  value : ν
  err : Option ε

structure Queue where
  len : Nat
  cap : Nat

structure Shared (ν ε : Type) where
  result : Str → Option (Result ν ε)
  queue : Option Queue
  wg : Nat
  err : Option (Str × ε)
  /-- That the context of the batch is done. -/
  cancelled : Bool

/-- `New`, with `WithConcurrencyNum` or without. -/
def new (n : Option Nat) : Shared ν ε := ⟨fun _ => none, n.map fun n => ⟨n, n⟩, 0, none, false⟩

inductive Call (ν ε : Type) where
  /-- Before `wg.Add`, still in the goroutine of the caller. -/
  | called (key : Str)
  | waiting (key : Str)
  | running (key : Str)
  | returned (key : Str) (ret : Result ν ε)
  /-- After `once.Do`. -/
  | settled (key : Str) (ret : Result ν ε)
  | recorded (key : Str) (ret : Result ν ε)
  /-- The permit is back in the channel. -/
  | released (key : Str) (ret : Result ν ε)
  | done (key : Str) (ret : Result ν ε)

inductive Section (ν ε : Type) where
  | add
  | acquire
  | fn (ret : Result ν ε)
  | once
  | record
  | release
  | done

/-- `b.err` is written once. -/
def Shared.fail (s : Shared ν ε) (key : Str) (err : ε) : Shared ν ε :=
  if s.err.isSome then s else { s with err := some (key, err), cancelled := true }

def step (s : Shared ν ε) : Call ν ε → Section ν ε → Option (Shared ν ε × Call ν ε)
  | .called key, .add => some ({ s with wg := s.wg + 1 }, .waiting key)
  | .waiting key, .acquire =>
      match s.queue with
      | none => some (s, .running key)
      | some q =>
          if q.len = 0 then none
          else some ({ s with queue := some { q with len := q.len - 1 } }, .running key)
  | .running key, .fn ret => some (s, .returned key ret)
  | .returned key ret, .once => some (ret.err.elim s (s.fail key), .settled key ret)
  | .settled key ret, .record =>
      some ({ s with result := Function.update s.result key (some ret) }, .recorded key ret)
  | .recorded key ret, .release =>
      match s.queue with
      | none => some (s, .released key ret)
      | some q =>
          -- a full channel would be waited for
          if q.len = q.cap then none
          else some ({ s with queue := some { q with len := q.len + 1 } }, .released key ret)
  | .released key ret, .done =>
      -- a counter below zero is a panic
      if s.wg = 0 then none else some ({ s with wg := s.wg - 1 }, .done key ret)
  | _, _ => none

def Call.isCalled : Call ν ε → Bool
  | .called _ => true
  | _ => false

def Call.isDone : Call ν ε → Bool
  | .done _ _ => true
  | _ => false

def program (ν ε : Type) : Program (Shared ν ε) (Call ν ε) (Section ν ε) where
  starts := Call.isCalled
  step := step

variable {n : Option Nat} {s s' : Shared ν ε} {c c' : Call ν ε} {e : Section ν ε}

theorem Shared.fail_queue (s : Shared ν ε) (key : Str) (err : ε) :
    (s.fail key err).queue = s.queue := by
  unfold fail
  split <;> rfl

theorem Shared.fail_wg (s : Shared ν ε) (key : Str) (err : ε) : (s.fail key err).wg = s.wg := by
  unfold fail
  split <;> rfl

/-! ## The permits and the counter -/

def holding : Call ν ε → Nat
  | .running _ | .returned _ _ | .settled _ _ | .recorded _ _ => 1
  | .called _ | .waiting _ | .released _ _ | .done _ _ => 0

def pending : Call ν ε → Nat
  | .waiting _ | .running _ | .returned _ _ | .settled _ _ | .recorded _ _ | .released _ _ => 1
  | .called _ | .done _ _ => 0

def counts (c : Call ν ε) : Nat × Nat := (holding c, pending c)

/-- The permits are in the channel or held, and the counter counts the calls. -/
structure Counted (n : Option Nat) (s : Shared ν ε) (m : Nat × Nat) : Prop where
  cap : s.queue.map Queue.cap = n
  permits : ∀ q, s.queue = some q → q.len + m.1 = q.cap
  wg : s.wg = m.2

theorem Counted.step {m : Nat × Nat} (h : step s c e = some (s', c'))
    (hs : Counted n s (m + counts c)) : Counted n s' (m + counts c') := by
  obtain ⟨a, b⟩ := m
  unfold Batch.step at h
  split at h
  case h_1 =>
    cases h
    exact ⟨hs.cap, hs.permits, congrArg (· + 1) hs.wg⟩
  case h_2 =>
    split at h
    case h_1 hnone =>
      cases h
      exact ⟨hs.cap, fun q hq => (Option.some_ne_none q (hq.symm.trans hnone)).elim, hs.wg⟩
    case h_2 q hq =>
      obtain ⟨hlen, ⟨⟩⟩ := Option.ite_none_left_eq_some.mp h
      refine ⟨by rw [← hs.cap, hq]; rfl, ?_, hs.wg⟩
      rintro _ ⟨⟩
      have hpermits := hs.permits q hq
      simp only [counts, holding, Prod.mk_add_mk] at hpermits ⊢
      omega
  case h_4 key ret =>
    cases h
    cases ret.err with
    | none => exact ⟨hs.cap, hs.permits, hs.wg⟩
    | some err =>
        rw [Option.elim_some]
        refine ⟨?_, ?_, ?_⟩
        · rw [Shared.fail_queue]
          exact hs.cap
        · rw [Shared.fail_queue]
          exact hs.permits
        · rw [Shared.fail_wg]
          exact hs.wg
  case h_6 =>
    split at h
    case h_1 hnone =>
      cases h
      exact ⟨hs.cap, fun q hq => (Option.some_ne_none q (hq.symm.trans hnone)).elim, hs.wg⟩
    case h_2 q hq =>
      obtain ⟨-, ⟨⟩⟩ := Option.ite_none_left_eq_some.mp h
      refine ⟨by rw [← hs.cap, hq]; rfl, ?_, hs.wg⟩
      rintro _ ⟨⟩
      have hpermits := hs.permits q hq
      simp only [counts, holding, Prod.mk_add_mk] at hpermits ⊢
      omega
  case h_7 =>
    obtain ⟨-, ⟨⟩⟩ := Option.ite_none_left_eq_some.mp h
    refine ⟨hs.cap, hs.permits, ?_⟩
    have hwg := hs.wg
    simp only [counts, pending, Prod.mk_add_mk] at hwg ⊢
    omega
  case h_8 => cases h
  all_goals
    cases h
    exact ⟨hs.cap, hs.permits, hs.wg⟩

theorem always_counted (n : Option Nat) (events : List (Event (Call ν ε) (Section ν ε))) :
    (program ν ε).system.Always (fun c => Counted n c.shared (c.total counts))
      ⟨new n, []⟩ events := by
  refine always_of_total (J := Counted n) ?_ (fun s m p e s' p' h hs => hs.step h) ?_ events
  · intro s m p hp hs
    have hzero : counts p = 0 := by
      cases p with
      | called => rfl
      | _ => cases hp
    rwa [hzero, add_zero]
  · refine ⟨?_, ?_, rfl⟩
    · cases n <;> rfl
    · intro q hq
      obtain ⟨m, -, rfl⟩ := Option.map_eq_some_iff.mp hq
      rfl

theorem total_counts (d : Config (Shared ν ε) (Call ν ε)) :
    d.total counts = (d.total holding, d.total pending) := by
  rw [← total_prod]
  rfl

/-! ## Progress -/

theorem Counted.release {m : Nat × Nat} (hs : Counted n s m) (hm : 0 < m.1) (key : Str)
    (ret : Result ν ε) : (Batch.step s (.recorded key ret) .release).isSome = true := by
  simp only [Batch.step]
  cases hqueue : s.queue with
  | none => rfl
  | some q =>
      have hpermits := hs.permits q hqueue
      have hroom : q.len ≠ q.cap := by omega
      simp [hroom]

theorem Counted.step_of_holding {m : Nat × Nat} (hs : Counted n s m) (hm : 0 < m.1)
    (hc : 0 < holding c) (ret : Result ν ε) : ∃ e, (Batch.step s c e).isSome = true := by
  cases c with
  | running key => exact ⟨.fn ret, rfl⟩
  | returned key ret => exact ⟨.once, rfl⟩
  | settled key ret => exact ⟨.record, rfl⟩
  | recorded key ret => exact ⟨.release, hs.release hm key ret⟩
  | _ => cases hc

/-- As long as a call is not done, some call can go on. -/
theorem exists_next {d : Config (Shared ν ε) (Call ν ε)}
    (hd : Counted n d.shared (d.total counts)) (hn : n ≠ some 0) {i : Nat} {p : Call ν ε}
    (hi : d.threads[i]? = some p) (hp : p.isDone = false) (ret : Result ν ε) :
    ∃ j e, ((program ν ε).system.step d (.act j e)).isSome = true := by
  rw [total_counts] at hd
  have hholding : ∀ {j : Nat} {q : Call ν ε}, d.threads[j]? = some q → 0 < holding q →
      ∃ j e, ((program ν ε).system.step d (.act j e)).isSome = true := by
    intro j q hj hq
    obtain ⟨e, he⟩ := hd.step_of_holding (hq.trans_le (Goroutines.le_total hj)) hq ret
    exact ⟨j, e, Program.isSome_next hj he⟩
  cases p with
  | called key => exact ⟨i, .add, Program.isSome_next hi rfl⟩
  | waiting key =>
      cases hqueue : d.shared.queue with
      | none =>
          refine ⟨i, .acquire, Program.isSome_next hi ?_⟩
          simp only [program, step, hqueue, Option.isSome_some]
      | some q =>
          by_cases hlen : q.len = 0
          · have hpos : 0 < d.total holding := by
              have hpermits : q.len + d.total holding = q.cap := hd.permits q hqueue
              have hcap : q.cap ≠ 0 := by
                rintro hzero
                exact hn (by rw [← hd.cap, hqueue, Option.map_some, hzero])
              omega
            obtain ⟨j, r, hj, hr⟩ := exists_of_total_pos hpos
            exact hholding hj hr
          · refine ⟨i, .acquire, Program.isSome_next hi ?_⟩
            simp only [program, step, hqueue, if_neg hlen, Option.isSome_some]
  | running | returned | settled | recorded => exact hholding hi Nat.one_pos
  | released key r =>
      have hne : d.shared.wg ≠ 0 := by
        have hone : pending (.released key r) ≤ d.total pending := Goroutines.le_total hi
        change 1 ≤ _ at hone
        have hwg : d.shared.wg = d.total pending := hd.wg
        omega
      refine ⟨i, .done, Program.isSome_next hi ?_⟩
      simp only [program, step, if_neg hne, Option.isSome_some]
  | done => cases hp

/-! ## What is returned -/

def settled : Call ν ε → Multiset (Str × Result ν ε)
  | .settled key ret | .recorded key ret | .released key ret | .done key ret => {(key, ret)}
  | .called _ | .waiting _ | .running _ | .returned _ _ => 0

def recorded : Call ν ε → Multiset (Str × Result ν ε)
  | .recorded key ret | .released key ret | .done key ret => {(key, ret)}
  | .called _ | .waiting _ | .running _ | .returned _ _ | .settled _ _ => 0

def returns (c : Call ν ε) : Multiset (Str × Result ν ε) × Multiset (Str × Result ν ε) :=
  (settled c, recorded c)

/-- `err` is that of a call, and there is a result for each key. -/
structure Kept (s : Shared ν ε)
    (m : Multiset (Str × Result ν ε) × Multiset (Str × Result ν ε)) : Prop where
  err_mem : ∀ key err, s.err = some (key, err) → ∃ ret, (key, ret) ∈ m.1 ∧ ret.err = some err
  err_none : s.err = none → ∀ r ∈ m.1, r.2.err = none
  cancelled : s.cancelled = s.err.isSome
  result_mem : ∀ key ret, s.result key = some ret → (key, ret) ∈ m.2
  result_isSome : ∀ r ∈ m.2, (s.result r.1).isSome = true

section Kept

variable {a b : Multiset (Str × Result ν ε)}

theorem Kept.of_fail (hs : Kept s (a, b)) {key : Str} {ret : Result ν ε} {err : ε}
    (herr : ret.err = some err) : Kept (s.fail key err) (a + {(key, ret)}, b) := by
  have hnew : (key, ret) ∈ a + {(key, ret)} := by simp
  unfold Shared.fail
  split
  case isTrue hsome =>
    refine ⟨?_, fun hnone => ?_, hs.cancelled, hs.result_mem, hs.result_isSome⟩
    · intro k e hk
      obtain ⟨r, hr, hre⟩ := hs.err_mem k e hk
      exact ⟨r, Multiset.mem_add.mpr (Or.inl hr), hre⟩
    · rw [hnone] at hsome
      cases hsome
  case isFalse =>
    refine ⟨?_, ?_, rfl, hs.result_mem, hs.result_isSome⟩
    · rintro k e ⟨⟩
      exact ⟨ret, hnew, herr⟩
    · rintro ⟨⟩

theorem Kept.of_ok (hs : Kept s (a, b)) {key : Str} {ret : Result ν ε} (herr : ret.err = none) :
    Kept s (a + {(key, ret)}, b) := by
  refine ⟨?_, ?_, hs.cancelled, hs.result_mem, hs.result_isSome⟩
  · intro k e hk
    obtain ⟨r, hr, hre⟩ := hs.err_mem k e hk
    exact ⟨r, Multiset.mem_add.mpr (Or.inl hr), hre⟩
  · intro hnone r hr
    rcases Multiset.mem_add.mp hr with hr | hr
    · exact hs.err_none hnone r hr
    · rw [Multiset.mem_singleton.mp hr]
      exact herr

theorem Kept.record (hs : Kept s (a, b)) (key : Str) (ret : Result ν ε) :
    Kept { s with result := Function.update s.result key (some ret) } (a, b + {(key, ret)}) := by
  refine ⟨hs.err_mem, hs.err_none, hs.cancelled, ?_, ?_⟩
  · intro k r hk
    change Function.update s.result key (some ret) k = some r at hk
    by_cases hkey : k = key
    · subst hkey
      rw [Function.update_self] at hk
      cases hk
      simp
    · rw [Function.update_of_ne hkey] at hk
      exact Multiset.mem_add.mpr (Or.inl (hs.result_mem k r hk))
  · intro r hr
    change (Function.update s.result key (some ret) r.1).isSome = true
    by_cases hkey : r.1 = key
    · rw [hkey, Function.update_self]
      rfl
    · rw [Function.update_of_ne hkey]
      rcases Multiset.mem_add.mp hr with hr | hr
      · exact hs.result_isSome r hr
      · rw [Multiset.mem_singleton.mp hr] at hkey
        exact (hkey rfl).elim

theorem Kept.congr (hs : Kept s (a, b)) (herr : s'.err = s.err)
    (hcancelled : s'.cancelled = s.cancelled) (hresult : s'.result = s.result) :
    Kept s' (a, b) := by
  refine ⟨?_, ?_, ?_, ?_, ?_⟩
  · rw [herr]
    exact hs.err_mem
  · rw [herr]
    exact hs.err_none
  · rw [herr, hcancelled]
    exact hs.cancelled
  · rw [hresult]
    exact hs.result_mem
  · rw [hresult]
    exact hs.result_isSome

end Kept

theorem Kept.step {m : Multiset (Str × Result ν ε) × Multiset (Str × Result ν ε)}
    (h : step s c e = some (s', c')) (hs : Kept s (m + returns c)) :
    Kept s' (m + returns c') := by
  obtain ⟨a, b⟩ := m
  unfold Batch.step at h
  split at h
  case h_2 =>
    split at h
    case h_1 =>
      cases h
      exact hs
    case h_2 =>
      obtain ⟨-, ⟨⟩⟩ := Option.ite_none_left_eq_some.mp h
      exact hs.congr rfl rfl rfl
  case h_4 key ret =>
    cases h
    simp only [returns, settled, recorded, Prod.mk_add_mk, add_zero] at hs ⊢
    cases herr : ret.err with
    | none => exact hs.of_ok herr
    | some err => exact hs.of_fail herr
  case h_5 key ret =>
    cases h
    simp only [returns, settled, recorded, Prod.mk_add_mk, add_zero] at hs ⊢
    exact hs.record key ret
  case h_6 =>
    split at h
    case h_1 =>
      cases h
      exact hs
    case h_2 =>
      obtain ⟨-, ⟨⟩⟩ := Option.ite_none_left_eq_some.mp h
      exact hs.congr rfl rfl rfl
  case h_7 =>
    obtain ⟨-, ⟨⟩⟩ := Option.ite_none_left_eq_some.mp h
    exact hs.congr rfl rfl rfl
  case h_8 => cases h
  all_goals
    cases h
    exact hs.congr rfl rfl rfl

theorem always_kept (n : Option Nat) (events : List (Event (Call ν ε) (Section ν ε))) :
    (program ν ε).system.Always (fun c => Kept c.shared (c.total returns)) ⟨new n, []⟩ events := by
  refine always_of_total (J := Kept) ?_ (fun s m p e s' p' h hs => hs.step h) ?_ events
  · intro s m p hp hs
    have hzero : returns p = 0 := by
      cases p with
      | called => rfl
      | _ => cases hp
    rwa [hzero, add_zero]
  · refine ⟨?_, ?_, rfl, ?_, ?_⟩
    · rintro key err ⟨⟩
    · intro _ r hr
      cases Multiset.notMem_zero r hr
    · rintro key ret ⟨⟩
    · intro r hr
      cases Multiset.notMem_zero r hr

def Waited (d : Config (Shared ν ε) (Call ν ε)) : Prop :=
  d.shared.wg = 0 ∧ ∀ p ∈ d.threads, p.isCalled = false

theorem isDone_of_waited {d : Config (Shared ν ε) (Call ν ε)}
    (hd : Counted n d.shared (d.total counts)) (h : Waited d) {p : Call ν ε}
    (hp : p ∈ d.threads) : p.isDone = true := by
  rw [total_counts] at hd
  obtain ⟨i, hi⟩ := List.mem_iff_getElem?.mp hp
  have hzero : pending p = 0 := by
    have hle : pending p ≤ d.total pending := Goroutines.le_total hi
    have hwg : d.shared.wg = d.total pending := hd.wg
    have hwaited := h.1
    omega
  cases p with
  | called key => cases h.2 _ hp
  | done => rfl
  | _ => cases hzero

theorem total_returns (d : Config (Shared ν ε) (Call ν ε)) :
    d.total returns = (d.total settled, d.total recorded) := by
  rw [← total_prod]
  rfl

/-- Once all calls are done, what they brought is what they returned. -/
theorem mem_total_of_isDone {d : Config (Shared ν ε) (Call ν ε)}
    (hd : ∀ p ∈ d.threads, p.isDone = true)
    {weight : Call ν ε → Multiset (Str × Result ν ε)}
    (hweight : ∀ key r, weight (.done key r) = {(key, r)}) {key : Str} {r : Result ν ε} :
    (key, r) ∈ d.total weight ↔ .done key r ∈ d.threads := by
  rw [mem_total]
  constructor
  · rintro ⟨p, hp, hmem⟩
    have hdone := hd p hp
    cases p with
    | done k r' =>
        rw [hweight, Multiset.mem_singleton] at hmem
        cases hmem
        exact hp
    | _ => cases hdone
  · intro hp
    exact ⟨_, hp, by rw [hweight]; exact Multiset.mem_singleton_self _⟩

/-- What `Wait` and `Result` return of a batch whose calls returned what `Returned` says. -/
structure Reports (s : Shared ν ε) (Returned : Str → Result ν ε → Prop) : Prop where
  err_some : ∀ key err, s.err = some (key, err) → ∃ r, Returned key r ∧ r.err = some err
  err_none : s.err = none → ∀ key r, Returned key r → r.err = none
  result_some : ∀ key r, s.result key = some r → Returned key r
  result_none : ∀ key, s.result key = none → ∀ r, ¬ Returned key r

theorem Kept.reports {d : Config (Shared ν ε) (Call ν ε)}
    (hs : Kept d.shared (d.total returns)) (hd : ∀ p ∈ d.threads, p.isDone = true) :
    Reports d.shared (fun key r => .done key r ∈ d.threads) := by
  rw [total_returns] at hs
  have hsettled : ∀ {key r}, (key, r) ∈ d.total settled ↔ .done key r ∈ d.threads :=
    mem_total_of_isDone hd fun _ _ => rfl
  have hrecorded : ∀ {key r}, (key, r) ∈ d.total recorded ↔ .done key r ∈ d.threads :=
    mem_total_of_isDone hd fun _ _ => rfl
  refine ⟨?_, ?_, ?_, ?_⟩
  · intro key err herr
    obtain ⟨r, hr, hrerr⟩ := hs.err_mem key err herr
    exact ⟨r, hsettled.mp hr, hrerr⟩
  · intro hnone key r hr
    exact hs.err_none hnone (key, r) (hsettled.mpr hr)
  · intro key r hr
    exact hrecorded.mp (hs.result_mem key r hr)
  · intro key hnone r hr
    have hsome := hs.result_isSome (key, r) (hrecorded.mpr hr)
    rw [hnone] at hsome
    cases hsome

theorem Counted.total_le {d : Config (Shared ν ε) (Call ν ε)}
    (hd : Counted n d.shared (d.total counts)) {m : Nat} (hm : m ∈ n) : d.total holding ≤ m := by
  rw [total_counts] at hd
  rw [← hd.cap] at hm
  obtain ⟨q, hq, rfl⟩ := Option.map_eq_some_iff.mp hm
  have hpermits : q.len + d.total holding = q.cap := hd.permits q hq
  omega

/-- Over every interleaving of a batch: at most as many functions run at a time as there are
permits, while a call is not done some call can go on, and when `Wait` returns all calls are
done, the error is that of one of them and nil only if none failed, and the results are those
the calls returned, with one for each key. -/
theorem batch_runs (n : Option Nat) (hn : n ≠ some 0)
    (events : List (Event (Call ν ε) (Section ν ε))) (d : Config (Shared ν ε) (Call ν ε))
    (hrun : (program ν ε).system.run ⟨new n, []⟩ events = some d) (ret : Result ν ε) :
    (∀ m ∈ n, d.total holding ≤ m) ∧
      (∀ p ∈ d.threads, p.isDone = false →
        ∃ j e, ((program ν ε).system.step d (.act j e)).isSome = true) ∧
      (Waited d → (∀ p ∈ d.threads, p.isDone = true) ∧
        Reports d.shared (fun key r => .done key r ∈ d.threads)) := by
  have hcounted := (always_counted n events).last _ hrun
  have hkept := (always_kept n events).last _ hrun
  refine ⟨fun m hm => hcounted.total_le hm, fun p hp hnot => ?_, fun hwaited => ?_⟩
  · obtain ⟨i, hi⟩ := List.mem_iff_getElem?.mp hp
    exact exists_next hcounted hn hi hnot ret
  · have hdone : ∀ p ∈ d.threads, p.isDone = true := fun p hp => isDone_of_waited hcounted hwaited hp
    exact ⟨hdone, hkept.reports hdone⟩

/-- Two proxies of one name, one at a time; the second fails. -/
def twoCalls : List (Event (Call Unit Unit) (Section Unit Unit)) :=
  [.go (.called (str "a")), .go (.called (str "a")), .act 0 .add, .act 1 .add, .act 0 .acquire,
    .act 0 (.fn ⟨(), none⟩), .act 0 .once, .act 0 .record, .act 0 .release, .act 1 .acquire,
    .act 0 .done, .act 1 (.fn ⟨(), some ()⟩), .act 1 .once, .act 1 .record, .act 1 .release,
    .act 1 .done]

theorem batch_runs_two :
    ∃ d, (program Unit Unit).system.run ⟨new (some 1), []⟩ twoCalls = some d ∧
      Reports d.shared (fun key r => .done key r ∈ d.threads) := by
  refine ⟨_, rfl, ((batch_runs (some 1) (by decide) twoCalls _ rfl ⟨(), none⟩).2.2 ?_).2⟩
  refine ⟨rfl, ?_⟩
  rintro p (_ | ⟨_, _ | ⟨_, ⟨⟩⟩⟩) <;> rfl

end RuleBaseProxy.Batch
