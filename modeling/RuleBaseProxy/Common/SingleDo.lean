import RuleBaseProxy.Lib.Transition

/-! # Single flight with a result that is kept

`Single.Do` returns the result of the last execution while it is fresh, joins an
execution that is under way, and otherwise starts one. `Reset` forgets when the
last result was made; it does not know of the execution under way, which then
publishes its result as if nothing had happened.

A run is the list of the sections in the order they happen. What is between two
of them is outside the lock.
-/

namespace RuleBaseProxy.SingleDo

open TransitionSystem

/-! ## The sections -/

/-- Where a call of `Do` is. Executions of `fn` are numbered, as the source has a `call`
object for each. -/
inductive Phase where
  | called
  /-- The result was fresh; `s.result` is read outside the lock. -/
  | fresh
  | waiting (call : Nat)
  /-- `s.call` is set, `fn` has still to begin. -/
  | starting (call : Nat) (now : Nat)
  | running (call : Nat) (now : Nat)
  /-- `fn` has returned and `wg.Done` was called. -/
  | finished (call : Nat) (now : Nat)
  /-- It has returned the value of this execution. -/
  | returned (call : Nat)

structure Thread where
  /-- How often `Reset` had returned when `Do` was called. -/
  begun : Nat
  phase : Phase

structure State where
  threads : Nat → Option Thread
  call : Option Nat
  /-- `none` is the zero time. -/
  last : Option Nat
  result : Option Nat
  next : Nat
  /-- The executions whose `wg` is down to zero. -/
  done : Nat → Bool
  /-- How often `Reset` has returned: until now, when the execution began, when it was
  published. -/
  resets : Nat
  startedAt : Nat → Option Nat
  publishedAt : Nat → Option Nat

/-- `NewSingle`. -/
def start : State :=
  ⟨fun _ => none, none, none, none, 0, fun _ => false, 0, fun _ => none, fun _ => none⟩

inductive Action where
  | call (i : Nat)
  /-- The first section under the lock. -/
  | lock (i : Nat) (now : Nat)
  | read (i : Nat)
  | join (i : Nat)
  | begin (i : Nat)
  | finish (i : Nat)
  /-- The second section under the lock. -/
  | publish (i : Nat)
  | reset

def State.set (s : State) (i begun : Nat) (phase : Phase) : State :=
  { s with threads := Function.update s.threads i (some ⟨begun, phase⟩) }

/-- `now.Before(s.last.Add(s.wait))`. -/
def isFresh (wait : Nat) (last : Option Nat) (now : Nat) : Bool := last.any (now < · + wait)

theorem isFresh_self {wait : Nat} (hwait : 0 < wait) (now : Nat) :
    isFresh wait (some now) now = true := decide_eq_true (Nat.lt_add_of_pos_right hwait)

def lockStep (wait : Nat) (s : State) (i begun now : Nat) : State :=
  if isFresh wait s.last now then s.set i begun .fresh
  else
    match s.call with
    | some call => s.set i begun (.waiting call)
    | none => { s.set i begun (.starting s.next now) with call := some s.next, next := s.next + 1 }

def system (wait : Nat) : System State Action where
  step s
    | .call i =>
        match s.threads i with
        | none => some (s.set i s.resets .called)
        | some _ => none
    | .lock i now =>
        match s.threads i with
        | some ⟨begun, .called⟩ => some (lockStep wait s i begun now)
        | _ => none
    | .read i =>
        match s.threads i, s.result with
        | some ⟨begun, .fresh⟩, some call => some (s.set i begun (.returned call))
        | _, _ => none
    | .join i =>
        match s.threads i with
        | some ⟨begun, .waiting call⟩ =>
            if s.done call then some (s.set i begun (.returned call)) else none
        | _ => none
    | .begin i =>
        match s.threads i with
        | some ⟨begun, .starting call now⟩ =>
            some { s.set i begun (.running call now) with
              startedAt := Function.update s.startedAt call (some s.resets) }
        | _ => none
    | .finish i =>
        match s.threads i with
        | some ⟨begun, .running call now⟩ =>
            some { s.set i begun (.finished call now) with done := Function.update s.done call true }
        | _ => none
    | .publish i =>
        match s.threads i with
        | some ⟨begun, .finished call now⟩ =>
            some { s.set i begun (.returned call) with
              call := none
              result := some call
              last := some now
              publishedAt := Function.update s.publishedAt call (some s.resets) }
        | _ => none
    | .reset => some { s with last := none, resets := s.resets + 1 }

/-! ## What is asked of it -/

def AtMostOneRuns (s : State) : Prop :=
  ∀ i j b b' c c' now now', s.threads i = some ⟨b, .running c now⟩ →
    s.threads j = some ⟨b', .running c' now'⟩ → i = j

/-- No call returned the value of an execution that began before a `Reset` that had
returned when the call was made. -/
def NoneStale (s : State) : Prop :=
  ∀ i b c, s.threads i = some ⟨b, .returned c⟩ → ∀ n, s.startedAt c = some n → b ≤ n

/-! ## The invariant -/

/-- The execution a call of `Do` has started and not yet published. -/
def Phase.owns : Phase → Option Nat
  | .starting c _ => some c
  | .running c _ => some c
  | .finished c _ => some c
  | _ => none

def Fits (s : State) (t : Thread) : Prop :=
  t.begun ≤ s.resets ∧
    match t.phase with
    | .called => True
    | .fresh => ∃ c p, s.result = some c ∧ s.publishedAt c = some p ∧ t.begun ≤ p
    | .waiting c => ∀ p, s.publishedAt c = some p → t.begun ≤ p
    | .starting c _ => s.call = some c
    | .running c _ => s.call = some c
    | .finished c _ => s.call = some c
    | .returned c => ∀ p, s.publishedAt c = some p → t.begun ≤ p

structure Inv (s : State) : Prop where
  fits : ∀ i t, s.threads i = some t → Fits s t
  owner : ∀ i j t u, s.threads i = some t → s.threads j = some u →
    t.phase.owns.isSome → u.phase.owns.isSome → i = j
  call : ∀ c, s.call = some c → c < s.next ∧ s.publishedAt c = none
  published : ∀ c p, s.publishedAt c = some p → c < s.next ∧ p ≤ s.resets
  last : s.last.isSome → ∃ c, s.result = some c ∧ s.publishedAt c = some s.resets

theorem inv_start : Inv start := by
  constructor
  · intro i t h
    cases h
  · intro i j t u h
    cases h
  · intro c h
    cases h
  · intro c p h
    cases h
  · intro h
    cases h

theorem Fits.owns {s : State} {t : Thread} {c : Nat} (h : Fits s t) (hc : t.phase.owns = some c) :
    s.call = some c := by
  obtain ⟨begun, phase⟩ := t
  cases phase <;> cases hc <;> exact h.2

/-! ## What a step does -/

inductive Moves (wait : Nat) (s : State) : Action → State → Prop where
  | call {i} (hi : s.threads i = none) : Moves wait s (.call i) (s.set i s.resets .called)
  | fresh {i b now} (hi : s.threads i = some ⟨b, .called⟩) (hfresh : isFresh wait s.last now = true) :
      Moves wait s (.lock i now) (s.set i b .fresh)
  | wait {i b now c} (hi : s.threads i = some ⟨b, .called⟩) (hcall : s.call = some c) :
      Moves wait s (.lock i now) (s.set i b (.waiting c))
  | start {i b now} (hi : s.threads i = some ⟨b, .called⟩)
      (hold : isFresh wait s.last now = false) (hcall : s.call = none) :
      Moves wait s (.lock i now)
        { s.set i b (.starting s.next now) with call := some s.next, next := s.next + 1 }
  | read {i b c} (hi : s.threads i = some ⟨b, .fresh⟩) (hresult : s.result = some c) :
      Moves wait s (.read i) (s.set i b (.returned c))
  | join {i b c} (hi : s.threads i = some ⟨b, .waiting c⟩) (hdone : s.done c = true) :
      Moves wait s (.join i) (s.set i b (.returned c))
  | begin {i b c now} (hi : s.threads i = some ⟨b, .starting c now⟩) :
      Moves wait s (.begin i) { s.set i b (.running c now) with
        startedAt := Function.update s.startedAt c (some s.resets) }
  | finish {i b c now} (hi : s.threads i = some ⟨b, .running c now⟩) :
      Moves wait s (.finish i) { s.set i b (.finished c now) with
        done := Function.update s.done c true }
  | publish {i b c now} (hi : s.threads i = some ⟨b, .finished c now⟩) :
      Moves wait s (.publish i) { s.set i b (.returned c) with
        call := none
        result := some c
        last := some now
        publishedAt := Function.update s.publishedAt c (some s.resets) }
  | reset : Moves wait s .reset { s with last := none, resets := s.resets + 1 }

theorem moves_of_step {wait : Nat} {s t : State} {a : Action}
    (h : (system wait).step s a = some t) : Moves wait s a t := by
  cases a with
  | reset =>
      cases h
      exact .reset
  | lock i now =>
      simp only [system] at h
      split at h
      · rename_i hi
        cases h
        unfold lockStep
        cases hfresh : isFresh wait s.last now with
        | true => exact .fresh hi hfresh
        | false =>
            cases hcall : s.call with
            | some c => exact .wait hi hcall
            | none => exact .start hi hfresh hcall
      · cases h
  | join i =>
      simp only [system] at h
      split at h
      · rename_i hi
        split at h
        · rename_i hdone
          cases h
          exact .join hi hdone
        · cases h
      · cases h
  | read i =>
      simp only [system] at h
      split at h
      · rename_i hi hresult
        cases h
        exact .read hi hresult
      · cases h
  | call i =>
      simp only [system] at h
      split at h
      · rename_i hi
        cases h
        exact .call hi
      · cases h
  | begin i =>
      simp only [system] at h
      split at h
      · rename_i hi
        cases h
        exact .begin hi
      · cases h
  | finish i =>
      simp only [system] at h
      split at h
      · rename_i hi
        cases h
        exact .finish hi
      · cases h
  | publish i =>
      simp only [system] at h
      split at h
      · rename_i hi
        cases h
        exact .publish hi
      · cases h

section Steps

variable {s t : State} {i b c : Nat} {phase : Phase}

theorem Inv.fits_set (h : Inv s) (hfits : Fits s ⟨b, phase⟩) {j : Nat} {u : Thread}
    (hj : (s.set i b phase).threads j = some u) : Fits s u := by
  rcases eq_or_of_update hj with ⟨-, heq⟩ | ⟨-, hj⟩
  · cases heq
    exact hfits
  · exact h.fits j u hj

/-- A call goes on to a phase in which it owns no execution, and nothing else changes. -/
theorem Inv.set (h : Inv s) (hfits : Fits s ⟨b, phase⟩) (hown : phase.owns = none) :
    Inv (s.set i b phase) := by
  refine ⟨fun _ _ hj => h.fits_set hfits hj, ?_, h.call, h.published, h.last⟩
  intro j k u v hj hk hu hv
  rcases eq_or_of_update hj with ⟨rfl, heq⟩ | ⟨-, hj⟩
  · cases heq
    rw [hown] at hu
    cases hu
  · rcases eq_or_of_update hk with ⟨rfl, heq⟩ | ⟨-, hk⟩
    · cases heq
      rw [hown] at hv
      cases hv
    · exact h.owner j k u v hj hk hu hv

theorem Inv.advance {old : Phase} (h : Inv s) (hi : s.threads i = some ⟨b, old⟩)
    (hold : old.owns = some c) (hfits : Fits s ⟨b, phase⟩) : Inv (s.set i b phase) := by
  refine ⟨fun _ _ hj => h.fits_set hfits hj, ?_, h.call, h.published, h.last⟩
  intro j k u v hj hk hu hv
  have hsome : old.owns.isSome := by rw [hold]; rfl
  rcases eq_or_of_update hj with ⟨rfl, -⟩ | ⟨-, hj'⟩
  · rcases eq_or_of_update hk with ⟨rfl, -⟩ | ⟨-, hk'⟩
    · rfl
    · exact h.owner j k _ v hi hk' hsome hv
  · rcases eq_or_of_update hk with ⟨rfl, -⟩ | ⟨-, hk'⟩
    · exact h.owner j k u _ hj' hi hu hsome
    · exact h.owner j k u v hj' hk' hu hv

theorem Inv.no_owner (h : Inv s) (hcall : s.call = none) {u : Thread} (hi : s.threads i = some u) :
    u.phase.owns = none := by
  cases hown : u.phase.owns with
  | none => rfl
  | some c =>
      have := (h.fits i u hi).owns hown
      rw [hcall] at this
      cases this

theorem Inv.others_own_nothing {j : Nat} {u v : Thread} (h : Inv s) (hi : s.threads i = some u)
    (hu : u.phase.owns.isSome) (hj : s.threads j = some v) (hji : j ≠ i) : v.phase.owns = none := by
  cases hown : v.phase.owns with
  | none => rfl
  | some c => exact absurd (h.owner j i v u hj hi (by rw [hown]; rfl) hu) hji

/-- An execution that has an owner has not been published. -/
theorem Inv.call_of_owner {u : Thread} (h : Inv s) (hi : s.threads i = some u)
    (hu : u.phase.owns = some c) : s.call = some c ∧ c < s.next ∧ s.publishedAt c = none := by
  have hcall := (h.fits i u hi).owns hu
  exact ⟨hcall, h.call c hcall⟩

theorem Inv.start (h : Inv s) {now : Nat} (hi : s.threads i = some ⟨b, .called⟩)
    (hcall : s.call = none) :
    Inv { s.set i b (.starting s.next now) with call := some s.next, next := s.next + 1 } := by
  have hbegun := (h.fits i _ hi).1
  refine ⟨?_, ?_, ?_, ?_, h.last⟩
  · intro j u hj
    rcases eq_or_of_update hj with ⟨rfl, heq⟩ | ⟨-, hj⟩
    · cases heq
      exact ⟨hbegun, rfl⟩
    · have hfits := h.fits j u hj
      have hown := h.no_owner hcall hj
      obtain ⟨begun, phase⟩ := u
      cases phase with
      | starting c now => cases hown
      | running c now => cases hown
      | finished c now => cases hown
      | called => exact hfits
      | fresh => exact hfits
      | waiting c => exact hfits
      | returned c => exact hfits
  · intro j k u v hj hk hu hv
    rcases eq_or_of_update hj with ⟨rfl, -⟩ | ⟨-, hj⟩
    · rcases eq_or_of_update hk with ⟨rfl, -⟩ | ⟨-, hk⟩
      · rfl
      · rw [h.no_owner hcall hk] at hv
        cases hv
    · rw [h.no_owner hcall hj] at hu
      cases hu
  · intro c hc
    cases hc
    refine ⟨Nat.lt_succ_self _, ?_⟩
    show s.publishedAt s.next = none
    cases hp : s.publishedAt s.next with
    | none => rfl
    | some p => exact absurd (h.published _ p hp).1 (Nat.lt_irrefl _)
  · intro c p hp
    have := h.published c p hp
    exact ⟨Nat.lt_succ_of_lt this.1, this.2⟩

theorem Inv.publish (h : Inv s) {now : Nat} (hi : s.threads i = some ⟨b, .finished c now⟩) :
    Inv { s.set i b (.returned c) with
      call := none
      result := some c
      last := some now
      publishedAt := Function.update s.publishedAt c (some s.resets) } := by
  have hbegun : b ≤ s.resets := (h.fits i _ hi).1
  rcases h.call_of_owner hi rfl with ⟨-, hlt, hnone⟩
  have hbefore : ∀ u c', u ≤ s.resets → (∀ p, s.publishedAt c' = some p → u ≤ p) →
      ∀ p, Function.update s.publishedAt c (some s.resets) c' = some p → u ≤ p := by
    intro u c' hu hold p hp
    rcases eq_or_of_update hp with ⟨-, heq⟩ | ⟨-, hp⟩
    · cases heq
      exact hu
    · exact hold p hp
  refine ⟨?_, ?_, ?_, ?_, ?_⟩
  · intro j u hj
    rcases eq_or_of_update hj with ⟨rfl, heq⟩ | ⟨hji, hj⟩
    · cases heq
      refine ⟨hbegun, hbefore b c hbegun ?_⟩
      intro p hp
      cases hnone.symm.trans hp
    · have hfits := h.fits j u hj
      have hown := h.others_own_nothing hi rfl hj hji
      obtain ⟨begun, phase⟩ := u
      cases phase with
      | starting c now => cases hown
      | running c now => cases hown
      | finished c now => cases hown
      | called => exact hfits
      | fresh => exact ⟨hfits.1, c, s.resets, rfl, Function.update_self .., hfits.1⟩
      | waiting c' => exact ⟨hfits.1, hbefore begun c' hfits.1 hfits.2⟩
      | returned c' => exact ⟨hfits.1, hbefore begun c' hfits.1 hfits.2⟩
  · intro j k u v hj hk hu hv
    rcases eq_or_of_update hj with ⟨rfl, heq⟩ | ⟨hji, hj⟩
    · cases heq
      cases hu
    · exact absurd (h.owner j i u _ hj hi hu rfl) hji
  · intro c' hc'
    cases hc'
  · intro c' p hp
    rcases eq_or_of_update hp with ⟨rfl, heq⟩ | ⟨-, hp⟩
    · cases heq
      exact ⟨hlt, Nat.le_refl _⟩
    · exact h.published c' p hp
  · intro _
    exact ⟨c, rfl, Function.update_self ..⟩

theorem Inv.reset (h : Inv s) : Inv { s with last := none, resets := s.resets + 1 } := by
  refine ⟨?_, h.owner, h.call, ?_, ?_⟩
  · intro j u hj
    exact ⟨Nat.le_succ_of_le (h.fits j u hj).1, (h.fits j u hj).2⟩
  · intro c p hp
    exact ⟨(h.published c p hp).1, Nat.le_succ_of_le (h.published c p hp).2⟩
  · intro hlast
    cases hlast

/-- A fresh result was published after the last `Reset`. -/
theorem Inv.fits_fresh (h : Inv s) {wait now : Nat} (hb : b ≤ s.resets)
    (hfresh : isFresh wait s.last now = true) : Fits s ⟨b, .fresh⟩ := by
  have hlast : s.last.isSome := by
    cases hlast : s.last with
    | none =>
        rw [hlast] at hfresh
        cases hfresh
    | some t => rfl
  rcases h.last hlast with ⟨c, hresult, hp⟩
  exact ⟨hb, c, s.resets, hresult, hp, hb⟩

theorem Inv.step {wait : Nat} {a : Action} (h : Inv s) (hmoves : Moves wait s a t) : Inv t := by
  cases hmoves with
  | call hi => exact h.set ⟨Nat.le_refl _, trivial⟩ rfl
  | fresh hi hfresh => exact h.set (h.fits_fresh (h.fits _ _ hi).1 hfresh) rfl
  | wait hi hcall =>
      refine h.set ⟨(h.fits _ _ hi).1, ?_⟩ rfl
      intro p hp
      rw [(h.call _ hcall).2] at hp
      cases hp
  | start hi _ hcall => exact h.start hi hcall
  | read hi hresult =>
      rcases (h.fits _ _ hi).2 with ⟨c', p, hc', hp, hle⟩
      cases hresult.symm.trans hc'
      refine h.set ⟨(h.fits _ _ hi).1, ?_⟩ rfl
      intro p' hp'
      cases hp.symm.trans hp'
      exact hle
  | @join i b c hi _ =>
      have hfits : Fits s ⟨b, .returned c⟩ := ⟨(h.fits _ _ hi).1, (h.fits _ _ hi).2⟩
      exact h.set hfits rfl
  | @begin i b c now hi =>
      have hfits : Fits s ⟨b, .running c now⟩ := ⟨(h.fits _ _ hi).1, (h.fits _ _ hi).2⟩
      have hadv : Inv (s.set i b (.running c now)) := h.advance hi rfl hfits
      exact ⟨hadv.fits, hadv.owner, hadv.call, hadv.published, hadv.last⟩
  | @finish i b c now hi =>
      have hfits : Fits s ⟨b, .finished c now⟩ := ⟨(h.fits _ _ hi).1, (h.fits _ _ hi).2⟩
      have hadv : Inv (s.set i b (.finished c now)) := h.advance hi rfl hfits
      exact ⟨hadv.fits, hadv.owner, hadv.call, hadv.published, hadv.last⟩
  | publish hi => exact h.publish hi
  | reset => exact h.reset

end Steps

theorem inv_always (wait : Nat) (as : List Action) : (system wait).Always Inv start as :=
  (system wait).always_of_step (fun _ _ _ h hstep => h.step (moves_of_step hstep)) as inv_start

/-! ## Which values are stale -/

theorem Inv.atMostOneRuns {s : State} (h : Inv s) : AtMostOneRuns s :=
  fun i j _ _ _ _ _ _ hi hj => h.owner i j _ _ hi hj rfl rfl

/-- A call made after the `Reset` joins the execution that the `Reset` has found under way. -/
theorem do_returns_stale :
    ∃ s, (system 20).run start
        [.call 0, .lock 0 100, .begin 0, .reset, .call 1, .lock 1 101, .finish 0, .join 1] = some s ∧
      ¬ NoneStale s := by
  refine ⟨_, rfl, ?_⟩
  intro h
  exact absurd (h 1 1 0 rfl 0 rfl) (by decide)

/-! ## Resets between executions -/

/-- Every execution was begun and published with no `Reset` in between. -/
structure Undisturbed (s : State) : Prop where
  under_way : ∀ c n, s.startedAt c = some n → s.publishedAt c = none →
    s.call = some c ∧ n = s.resets
  published : ∀ c n p, s.startedAt c = some n → s.publishedAt c = some p → n = p

theorem Undisturbed.noneStale {s : State} (h : Undisturbed s) (hinv : Inv s) : NoneStale s := by
  intro i b c hi n hn
  obtain ⟨hbegun, hpublished⟩ := hinv.fits i _ hi
  cases hp : s.publishedAt c with
  | none =>
      rw [(h.under_way c n hn hp).2]
      exact hbegun
  | some p =>
      rw [h.published c n p hn hp]
      exact hpublished p hp

def QuietReset (s : State) (a : Action) : Prop := a = .reset → s.call = none

section Undisturbed

variable {s t : State} {i b c now : Nat}

theorem Undisturbed.begin (h : Undisturbed s) (hinv : Inv s)
    (hi : s.threads i = some ⟨b, .starting c now⟩) :
    Undisturbed { s.set i b (.running c now) with
      startedAt := Function.update s.startedAt c (some s.resets) } := by
  rcases hinv.call_of_owner hi rfl with ⟨hcall, -, hnone⟩
  constructor
  · intro c' n hn hp
    rcases eq_or_of_update hn with ⟨rfl, heq⟩ | ⟨-, hn⟩
    · cases heq
      exact ⟨hcall, rfl⟩
    · exact h.under_way c' n hn hp
  · intro c' n p hn hp
    rcases eq_or_of_update hn with ⟨rfl, -⟩ | ⟨-, hn⟩
    · cases hnone.symm.trans hp
    · exact h.published c' n p hn hp

theorem Undisturbed.publish (h : Undisturbed s) (hinv : Inv s)
    (hi : s.threads i = some ⟨b, .finished c now⟩) :
    Undisturbed { s.set i b (.returned c) with
      call := none
      result := some c
      last := some now
      publishedAt := Function.update s.publishedAt c (some s.resets) } := by
  rcases hinv.call_of_owner hi rfl with ⟨hcall, -, hnone⟩
  constructor
  · intro c' n hn hp
    have hne : c' ≠ c := by
      intro heq
      cases heq
      cases (Function.update_self ..).symm.trans hp
    have hp' : s.publishedAt c' = none := (Function.update_of_ne hne ..).symm.trans hp
    have hcall' := (h.under_way c' n hn hp').1
    cases hcall.symm.trans hcall'
    exact absurd rfl hne
  · intro c' n p hn hp
    rcases eq_or_of_update hp with ⟨rfl, heq⟩ | ⟨-, hp⟩
    · cases heq
      exact (h.under_way c' n hn hnone).2
    · exact h.published c' n p hn hp

/-- With no execution under way none has been begun that is not published. -/
theorem Undisturbed.all_published (h : Undisturbed s) (hcall : s.call = none) {n : Nat}
    (hn : s.startedAt c = some n) : s.publishedAt c ≠ none := by
  intro hp
  cases hcall.symm.trans (h.under_way c n hn hp).1

theorem Undisturbed.step {wait : Nat} {a : Action} (h : Undisturbed s) (hinv : Inv s)
    (hquiet : QuietReset s a) (hmoves : Moves wait s a t) : Undisturbed t := by
  cases hmoves with
  | call _ | fresh _ _ | wait _ _ | read _ _ | join _ _ | finish _ =>
      exact ⟨h.under_way, h.published⟩
  | start _ _ hcall => exact ⟨fun _ _ hn hp => absurd hp (h.all_published hcall hn), h.published⟩
  | begin hi => exact h.begin hinv hi
  | publish hi => exact h.publish hinv hi
  | reset => exact ⟨fun _ _ hn hp => absurd hp (h.all_published (hquiet rfl) hn), h.published⟩

end Undisturbed

theorem undisturbed_of_quiet_resets {wait : Nat} {as : List Action}
    (hquiet : (system wait).Guarded QuietReset start as) :
    (system wait).Always (fun s => Inv s ∧ Undisturbed s) start as := by
  apply (system wait).always_of_guarded _ _ hquiet
  · intro s a t ⟨hinv, hund⟩ hquiet hstep
    have hmoves := moves_of_step hstep
    exact ⟨hinv.step hmoves, hund.step hinv hquiet hmoves⟩
  · refine ⟨inv_start, ?_, ?_⟩
    · intro c n hn
      cases hn
    · intro c n p hn
      cases hn

/-- Over every interleaving: never do two executions run at a time, and if no `Reset` finds an
execution under way, no call returns a value from before a `Reset` that preceded it. -/
theorem noneStale_of_quiet_resets (wait : Nat) (as : List Action) :
    (system wait).Always AtMostOneRuns start as ∧
      ((system wait).Guarded QuietReset start as → (system wait).Always NoneStale start as) := by
  constructor
  · exact (inv_always wait as).mono _ fun _ h => h.atMostOneRuns
  · intro hquiet
    exact (undisturbed_of_quiet_resets hquiet).mono _ fun _ h => h.2.noneStale h.1

/-- A call, a `Reset` after it has published, and a call that executes anew. -/
theorem noneStale_after_reset :
    (system 20).Always NoneStale start
      [.call 0, .lock 0 100, .begin 0, .finish 0, .publish 0, .reset, .call 1, .lock 1 101,
        .begin 1, .finish 1, .publish 1] := by
  refine (noneStale_of_quiet_resets 20 _).2 ?_
  repeat' first
    | refine System.Guarded.cons _ rfl ?_ ?_
    | exact trivial
  all_goals rintro ⟨⟩
  rfl

/-! ## Calls that nobody interrupts -/

structure Single (ν : Type) where
  last : Option Nat
  result : Option ν

/-- A call of `Do` from its beginning to its end, with the value `fn` would have. The value
returned is that of `s.result`, a nil pointer before the first execution. -/
def Single.call {ν : Type} (wait : Nat) (s : Single ν) (now : Nat) (fn : ν) :
    Option ν × Single ν :=
  if isFresh wait s.last now then (s.result, s) else (some fn, ⟨some now, some fn⟩)

def State.single (s : State) : Single Nat := ⟨s.last, s.result⟩

/-- The sections of a call that finds no other one under way, taken in a row. -/
theorem run_call {wait : Nat} {s : State} (hinv : Inv s) {i : Nat} (hi : s.threads i = none)
    (hcall : s.call = none) (now : Nat) :
    ∃ as t c, (system wait).run s as = some t ∧ t.threads i = some ⟨s.resets, .returned c⟩ ∧
      t.call = none ∧ (some c, t.single) = s.single.call wait now s.next := by
  cases hfresh : isFresh wait s.last now with
  | true =>
      rcases (hinv.fits_fresh (Nat.le_refl _) hfresh).2 with ⟨c, p, hresult, -, -⟩
      refine ⟨[.call i, .lock i now, .read i], s.set i s.resets (.returned c), c, ?_, ?_, hcall, ?_⟩
      · simp [System.run, system, hi, State.set, lockStep, hfresh, hresult]
      · simp [State.set]
      · simp [Single.call, State.single, State.set, hfresh, hresult]
  | false =>
      let t : State :=
        { s.set i s.resets (.returned s.next) with
          last := some now
          result := some s.next
          next := s.next + 1
          done := Function.update s.done s.next true
          startedAt := Function.update s.startedAt s.next (some s.resets)
          publishedAt := Function.update s.publishedAt s.next (some s.resets) }
      refine ⟨[.call i, .lock i now, .begin i, .finish i, .publish i], t, s.next, ?_, ?_, hcall, ?_⟩
      · simp [t, System.run, system, hi, State.set, lockStep, hfresh, hcall]
      · simp [t, State.set]
      · simp [t, Single.call, State.single, hfresh]

end RuleBaseProxy.SingleDo
