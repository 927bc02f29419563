import RuleBaseProxy.Lib.Goroutines
import RuleBaseProxy.Lib.GoDuration
import RuleBaseProxy.OutboundGroup.UrlTest

/-! # Dials and tests of a proxy

`adapter.Proxy` is used by many goroutines at once: dials, which a proxy that keeps failing
limits to three at a time, tests, which append to a history of ten records, and the groups
that ask for the last delay. The history is locked for each access, not for a test as a whole.
-/

namespace RuleBaseProxy.Adapter

open Go TransitionSystem Goroutines
open OutboundGroup.URLTest (DelayHistory Proxy)

def defaultTCPTimeout : Nat := 5 * second

structure Shared where
  alive : Bool
  lastSuccessTime : Nat
  /-- How many tokens are in the channel `sem`. -/
  sem : Nat
  history : List DelayHistory

def newProxy (now : Nat) : Shared := ⟨true, now, 0, []⟩

def semCapacity : Nat := 3

/-! ## DialContext -/

/-- How far a call of `DialContext` is; it holds a token if it found the proxy failing. -/
inductive Dial where
  | entered
  | loaded (failing : Bool)
  | dialing (token : Bool)
  | dialed (token ok : Bool)
  /-- `alive` is stored, the time of the success is not. -/
  | stamping (token : Bool)
  /-- At the deferred function. -/
  | leaving (token : Bool)
  | returned
  /-- `ErrRateLimit` -/
  | limited
deriving DecidableEq

inductive DialEvent where
  | load (now : Nat)
  | acquire
  | adapter (ok : Bool)
  | store
  | stamp (now : Nat)
  | leave

def dialStep (p : Shared) : Dial → DialEvent → Option (Shared × Dial)
  | .entered, .load now =>
      some (p, .loaded (decide ((defaultTCPTimeout : Int) < now - p.lastSuccessTime)))
  | .loaded failing, .acquire =>
      if failing then
        if p.sem < semCapacity then some ({ p with sem := p.sem + 1 }, .dialing true)
        else some (p, .limited)
      else some (p, .dialing false)
  | .dialing token, .adapter ok => some (p, .dialed token ok)
  | .dialed token ok, .store =>
      some ({ p with alive := ok }, if ok then .stamping token else .leaving token)
  | .stamping token, .stamp now => some ({ p with lastSuccessTime := now }, .leaving token)
  | .leaving token, .leave =>
      if token then
        -- an empty channel would be waited for
        if p.sem = 0 then none else some ({ p with sem := p.sem - 1 }, .returned)
      else some (p, .returned)
  | _, _ => none

/-! ## URLTest -/

/-- How far a call of `URLTest` is, from the end of its probes on. -/
inductive Test where
  | testing
  | finished (t : Option UInt16)
  | marked (t : Option UInt16)
  /-- After `Put`, before `Len`. -/
  | recorded
  /-- `Len` was above ten; `Pop` reads the length without the lock. -/
  | popping
  | taking
  | done
deriving DecidableEq

inductive TestEvent where
  | finish (t : Option UInt16)
  | mark
  | put (now : Int)
  | check
  | len
  | take

def testStep (p : Shared) : Test → TestEvent → Option (Shared × Test)
  | .testing, .finish t => some (p, .finished t)
  | .finished t, .mark => some ({ p with alive := t.isSome }, .marked t)
  | .marked t, .put now =>
      some ({ p with history := p.history ++ [⟨now, t.getD 0⟩] }, .recorded)
  | .recorded, .check => some (p, if 10 < p.history.length then .popping else .done)
  | .popping, .len => some (p, if p.history.isEmpty then .done else .taking)
  | .taking, .take =>
      -- `items[0]` of an empty slice is a panic
      if p.history.isEmpty then none else some ({ p with history := p.history.tail }, .done)
  | _, _ => none

/-! ## LastDelay -/

inductive Read where
  | asked
  | living
  /-- `Last` has read the length without the lock. -/
  | nonEmpty
  | answered (delay : UInt16)
deriving DecidableEq

inductive ReadEvent where
  | alive
  | len
  | last

def readStep (p : Shared) : Read → ReadEvent → Option (Shared × Read)
  | .asked, .alive => some (p, if p.alive then .living else .answered Proxy.maxDelay)
  | .living, .len =>
      some (p, if p.history.isEmpty then .answered Proxy.maxDelay else .nonEmpty)
  | .nonEmpty, .last =>
      -- `items[-1]` is a panic
      p.history.getLast?.map fun h =>
        (p, .answered (if h.delay = 0 then Proxy.maxDelay else h.delay))
  | _, _ => none

/-! ## All of them -/

inductive Goroutine where
  | dial (d : Dial)
  | test (t : Test)
  | read (r : Read)
deriving DecidableEq

inductive Section where
  | dial (e : DialEvent)
  | test (e : TestEvent)
  | read (e : ReadEvent)

def step (p : Shared) : Goroutine → Section → Option (Shared × Goroutine)
  | .dial d, .dial e => (dialStep p d e).map fun r => (r.1, .dial r.2)
  | .test t, .test e => (testStep p t e).map fun r => (r.1, .test r.2)
  | .read r, .read e => (readStep p r e).map fun r => (r.1, .read r.2)
  | _, _ => none

def program : Program Shared Goroutine Section where
  starts g := g = .dial .entered ∨ g = .test .testing ∨ g = .read .asked
  step := step

theorem step_cases {p p' : Shared} {g g' : Goroutine} {e : Section}
    (h : program.step p g e = some (p', g')) :
    (∃ d a d', g = .dial d ∧ g' = .dial d' ∧ dialStep p d a = some (p', d')) ∨
      (∃ t a t', g = .test t ∧ g' = .test t' ∧ testStep p t a = some (p', t')) ∨
      ∃ r a r', g = .read r ∧ g' = .read r' ∧ readStep p r a = some (p', r') := by
  cases g with
  | dial d =>
      cases e with
      | dial a =>
          obtain ⟨⟨q, d'⟩, hd, ⟨⟩⟩ := Option.map_eq_some_iff.mp h
          exact Or.inl ⟨d, a, d', rfl, rfl, hd⟩
      | test | read => cases h
  | test t =>
      cases e with
      | test a =>
          obtain ⟨⟨q, t'⟩, ht, ⟨⟩⟩ := Option.map_eq_some_iff.mp h
          exact Or.inr (Or.inl ⟨t, a, t', rfl, rfl, ht⟩)
      | dial | read => cases h
  | read r =>
      cases e with
      | read a =>
          obtain ⟨⟨q, r'⟩, hr, ⟨⟩⟩ := Option.map_eq_some_iff.mp h
          exact Or.inr (Or.inr ⟨r, a, r', rfl, rfl, hr⟩)
      | dial | test => cases h

/-! ## The limit on dials -/

def Dial.token : Dial → Bool
  | .dialing token | .dialed token _ | .stamping token | .leaving token => token
  | .entered | .loaded _ | .returned | .limited => false

def tokens : Goroutine → Nat
  | .dial d => if d.token then 1 else 0
  | .test _ | .read _ => 0

theorem sem_dialStep {p p' : Shared} {d d' : Dial} {e : DialEvent}
    (h : dialStep p d e = some (p', d')) {n : Nat} (hsem : p.sem = n + tokens (.dial d))
    (hle : p.sem ≤ semCapacity) :
    p'.sem = n + tokens (.dial d') ∧ p'.sem ≤ semCapacity := by
  unfold dialStep at h
  split at h
  case h_1 =>
    cases h
    exact ⟨hsem, hle⟩
  case h_2 failing =>
    cases failing with
    | false =>
        cases h
        exact ⟨hsem, hle⟩
    | true =>
        simp only [if_true] at h
        split at h
        case isTrue hroom =>
          cases h
          simp only [tokens, Dial.token] at hsem ⊢
          simp at hsem
          exact ⟨by simp [hsem], hroom⟩
        case isFalse =>
          cases h
          exact ⟨hsem, hle⟩
  case h_3 =>
    cases h
    exact ⟨hsem, hle⟩
  case h_4 token ok =>
    cases h
    cases ok with
    | false => exact ⟨hsem, hle⟩
    | true => exact ⟨hsem, hle⟩
  case h_5 =>
    cases h
    exact ⟨hsem, hle⟩
  case h_6 token =>
    cases token with
    | false =>
        cases h
        exact ⟨hsem, hle⟩
    | true =>
        simp only [if_true] at h
        obtain ⟨hpos, ⟨⟩⟩ := Option.ite_none_left_eq_some.mp h
        simp only [tokens, Dial.token] at hsem ⊢
        simp at hsem ⊢
        omega
  case h_7 => cases h

theorem sem_testStep {p p' : Shared} {t t' : Test} {e : TestEvent}
    (h : testStep p t e = some (p', t')) : p'.sem = p.sem := by
  unfold testStep at h
  split at h
  case h_6 =>
    obtain ⟨-, ⟨⟩⟩ := Option.ite_none_left_eq_some.mp h
    rfl
  all_goals
    cases h
    try rfl

theorem readStep_shared {p p' : Shared} {r r' : Read} {e : ReadEvent}
    (h : readStep p r e = some (p', r')) : p' = p := by
  unfold readStep at h
  split at h
  case h_3 =>
    obtain ⟨x, -, hx⟩ := Option.map_eq_some_iff.mp h
    cases hx
    rfl
  all_goals
    cases h
    try rfl

theorem always_sem (now : Nat) (events : List (Event Goroutine Section)) :
    program.system.Always
      (fun c => c.shared.sem = c.total tokens ∧ c.shared.sem ≤ semCapacity)
      ⟨newProxy now, []⟩ events := by
  refine always_of_total (J := fun (p : Shared) n => p.sem = n ∧ p.sem ≤ semCapacity) ?_ ?_
    ⟨rfl, Nat.zero_le _⟩ events
  · intro p n g hg hJ
    have hzero : tokens g = 0 := by
      rcases of_decide_eq_true hg with rfl | rfl | rfl <;> rfl
    rwa [hzero]
  · rintro p n g e p' g' hstep ⟨hsem, hle⟩
    rcases step_cases hstep with ⟨d, a, d', rfl, rfl, hd⟩ | ⟨t, a, t', rfl, rfl, ht⟩ |
      ⟨r, a, r', rfl, rfl, hr⟩
    · exact sem_dialStep hd hsem hle
    · rw [sem_testStep ht]
      exact ⟨hsem, hle⟩
    · rw [readStep_shared hr]
      exact ⟨hsem, hle⟩

def owing : Goroutine → Nat
  | .test .recorded | .test .popping | .test .taking => 1
  | .test .testing | .test (.finished _) | .test (.marked _) | .test .done => 0
  | .dial _ | .read _ => 0

def popping : Goroutine → Nat
  | .test .popping | .test .taking => 1
  | .test .recorded | .test .testing | .test (.finished _) | .test (.marked _) | .test .done => 0
  | .dial _ | .read _ => 0

def reading : Goroutine → Nat
  | .read .nonEmpty => 1
  | .read .asked | .read .living | .read (.answered _) => 0
  | .dial _ | .test _ => 0

theorem history_dialStep {p p' : Shared} {d d' : Dial} {e : DialEvent}
    (h : dialStep p d e = some (p', d')) : p'.history = p.history := by
  unfold dialStep at h
  split at h
  case h_2 =>
    split at h
    · split at h
      · cases h
        rfl
      · cases h
        rfl
    · cases h
      rfl
  case h_6 =>
    split at h
    · obtain ⟨-, ⟨⟩⟩ := Option.ite_none_left_eq_some.mp h
      rfl
    · cases h
      rfl
  all_goals
    cases h
    try rfl

/-- Every record beyond ten has a test that owes its removal, and no test owes one that is not
there. -/
def Balanced (p : Shared) (n : Nat) : Prop := n ≤ p.history.length ∧ p.history.length ≤ 10 + n

theorem Balanced.testStep {p p' : Shared} {t t' : Test} {e : TestEvent}
    (h : testStep p t e = some (p', t')) {n : Nat} (hp : Balanced p (n + owing (.test t))) :
    Balanced p' (n + owing (.test t')) := by
  unfold Adapter.testStep at h
  unfold Balanced at hp ⊢
  split at h
  case h_1 | h_2 =>
    cases h
    exact hp
  case h_3 =>
    cases h
    simp only [owing, List.length_append, List.length_singleton] at hp ⊢
    omega
  case h_4 =>
    cases h
    split <;> simp only [owing] at hp ⊢ <;> omega
  case h_5 =>
    cases h
    split
    case isTrue hempty =>
      rw [List.isEmpty_iff] at hempty
      simp [owing, hempty] at hp
    case isFalse => exact hp
  case h_6 =>
    obtain ⟨hne, ⟨⟩⟩ := Option.ite_none_left_eq_some.mp h
    simp only [owing, List.length_tail] at hp ⊢
    omega
  case h_7 => cases h

theorem always_balanced (now : Nat) (events : List (Event Goroutine Section)) :
    program.system.Always (fun c => Balanced c.shared (c.total owing))
      ⟨newProxy now, []⟩ events := by
  refine always_of_total (J := Balanced) ?_ ?_ ⟨le_rfl, Nat.zero_le _⟩ events
  · intro p n g hg hJ
    have hzero : owing g = 0 := by
      rcases of_decide_eq_true hg with rfl | rfl | rfl <;> rfl
    rwa [hzero]
  · intro p n g e p' g' hstep hJ
    rcases step_cases hstep with ⟨d, a, d', rfl, rfl, hd⟩ | ⟨t, a, t', rfl, rfl, ht⟩ |
      ⟨r, a, r', rfl, rfl, hr⟩
    · unfold Balanced
      rw [history_dialStep hd]
      exact hJ
    · exact hJ.testStep ht
    · rw [readStep_shared hr]
      exact hJ

/-- With ten tests at most between `Put` and their end, a test that pops leaves a record, and a
record that was found is still there. -/
def Kept (p : Shared) (n : Nat × Nat × Nat) : Prop :=
  n.1 ≤ p.history.length ∧ (0 < n.2.1 → n.1 < p.history.length) ∧
    (0 < n.2.2 → 0 < p.history.length)

def weights (g : Goroutine) : Nat × Nat × Nat := (owing g, popping g, reading g)

theorem Kept.testStep {p p' : Shared} {t t' : Test} {e : TestEvent}
    (h : testStep p t e = some (p', t')) {n : Nat × Nat × Nat}
    (hfew : (n + weights (.test t)).1 ≤ 10) (hp : Kept p (n + weights (.test t))) :
    Kept p' (n + weights (.test t')) := by
  obtain ⟨o, k, r⟩ := n
  unfold Adapter.testStep at h
  simp only [Kept, weights, Prod.mk_add_mk, reading, Nat.add_zero] at hp hfew ⊢
  split at h
  case h_1 | h_2 =>
    cases h
    exact hp
  case h_3 =>
    cases h
    simp only [owing, popping, List.length_append, List.length_singleton] at hp ⊢
    omega
  case h_4 =>
    cases h
    simp only [owing, popping] at hp hfew
    split <;> simp only [owing, popping] <;> omega
  case h_5 =>
    cases h
    split
    case isTrue hempty =>
      rw [List.isEmpty_iff] at hempty
      simp [owing, hempty] at hp
    case isFalse => exact hp
  case h_6 =>
    obtain ⟨hne, ⟨⟩⟩ := Option.ite_none_left_eq_some.mp h
    simp only [owing, popping, List.length_tail] at hp ⊢
    omega
  case h_7 => cases h

theorem Kept.readStep {p p' : Shared} {r r' : Read} {e : ReadEvent}
    (h : readStep p r e = some (p', r')) {n : Nat × Nat × Nat}
    (hp : Kept p (n + weights (.read r))) : Kept p' (n + weights (.read r')) := by
  obtain ⟨o, k, m⟩ := n
  cases readStep_shared h
  unfold Adapter.readStep at h
  simp only [Kept, weights, Prod.mk_add_mk, owing, popping, Nat.add_zero] at hp ⊢
  split at h
  case h_1 =>
    cases h
    split <;> exact hp
  case h_2 =>
    cases h
    split
    case isTrue => exact hp
    case isFalse hne =>
      refine ⟨hp.1, hp.2.1, fun _ => List.length_pos_iff.mpr fun hnil => hne ?_⟩
      rw [hnil, List.isEmpty_nil]
  case h_3 =>
    obtain ⟨x, -, hx⟩ := Option.map_eq_some_iff.mp h
    cases hx
    refine ⟨hp.1, hp.2.1, fun hpos => hp.2.2 ?_⟩
    simp only [reading] at hpos ⊢
    omega
  case h_4 => cases h

theorem always_kept (now : Nat) {events : List (Event Goroutine Section)}
    (hfew : program.system.Guarded (fun c _ => c.total owing ≤ 10) ⟨newProxy now, []⟩ events) :
    program.system.Always (fun c => Kept c.shared (c.total weights)) ⟨newProxy now, []⟩ events := by
  have htotal : ∀ c : Config Shared Goroutine, (c.total weights).1 = c.total owing := by
    intro c
    exact congrArg Prod.fst (total_prod owing (fun g => (popping g, reading g)) c)
  refine always_of_total_guarded (J := Kept) (B := fun (_ : Shared) n => n.1 ≤ 10) ?_ ?_
    ⟨le_rfl, by simp [total_nil], by simp [total_nil]⟩ ?_
  · intro p n g hg hJ
    have hzero : weights g = 0 := by
      rcases of_decide_eq_true hg with rfl | rfl | rfl <;> rfl
    rwa [hzero, add_zero]
  · intro p n g e p' g' hstep hfew hJ
    rcases step_cases hstep with ⟨d, a, d', rfl, rfl, hd⟩ | ⟨t, a, t', rfl, rfl, ht⟩ |
      ⟨r, a, r', rfl, rfl, hr⟩
    · unfold Kept
      rw [history_dialStep hd]
      exact hJ
    · exact hJ.testStep ht hfew
    · exact hJ.readStep hr
  · simpa only [htotal] using hfew

/-- Over every interleaving: the history has ten records at most beside those that some test is
about to remove, and no test removes a record of an empty history. If never more than ten tests
are between `Put` and their end, `LastDelay` does not read past the end of the history either. -/
theorem history_safe (now : Nat) (events : List (Event Goroutine Section))
    (c : Config Shared Goroutine) (hrun : program.system.run ⟨newProxy now, []⟩ events = some c) :
    c.shared.history.length ≤ 10 + c.total owing ∧
      (∀ i : Nat, c.threads[i]? = some (Goroutine.test .taking) →
        (testStep c.shared .taking .take).isSome = true) ∧
      (program.system.Guarded (fun c _ => c.total owing ≤ 10) ⟨newProxy now, []⟩ events →
        ∀ i : Nat, c.threads[i]? = some (Goroutine.read .nonEmpty) →
          (readStep c.shared .nonEmpty .last).isSome = true) := by
  have hbalanced := (always_balanced now events).last _ hrun
  refine ⟨hbalanced.2, fun i hi => ?_, fun hfew i hi => ?_⟩
  · have hone : owing (.test .taking) ≤ c.total owing := Goroutines.le_total hi
    have hpos : 0 < c.shared.history.length := Nat.lt_of_lt_of_le hone hbalanced.1
    have hne : c.shared.history.isEmpty = false := by
      rw [List.isEmpty_eq_false_iff]
      exact List.ne_nil_of_length_pos hpos
    simp [testStep, hne]
  · have hkept := (always_kept now hfew).last _ hrun
    have htotal : c.total weights = (c.total owing, c.total popping, c.total reading) := by
      rw [← total_prod, ← total_prod]
      rfl
    rw [htotal] at hkept
    have hone : reading (.read .nonEmpty) ≤ c.total reading := Goroutines.le_total hi
    have hpos : 0 < c.shared.history.length := hkept.2.2 (Nat.lt_of_lt_of_le Nat.one_pos hone)
    obtain ⟨h, hlast⟩ := Option.isSome_iff_exists.mp
      (List.getLast?_isSome.mpr (List.ne_nil_of_length_pos hpos))
    simp [readStep, hlast]

/-- A test, and a call of `LastDelay` that finds its record. -/
theorem history_safe_after_test :
    let events : List (Event Goroutine Section) :=
      [.go (.test .testing), .go (.read .asked), .act 0 (.test (.finish (some 7))),
        .act 0 (.test .mark), .act 0 (.test (.put 1)), .act 1 (.read .alive), .act 1 (.read .len)]
    ∃ c, program.system.run ⟨newProxy 0, []⟩ events = some c ∧
      c.shared.history.length ≤ 10 + c.total owing ∧
      (readStep c.shared .nonEmpty .last).isSome = true := by
  intro events
  have hrun : program.system.run ⟨newProxy 0, []⟩ events =
      some ⟨⟨true, 0, 0, [⟨1, 7⟩]⟩, [.test .recorded, .read .nonEmpty]⟩ := rfl
  have hfew : program.system.Guarded (fun c _ => c.total owing ≤ 10) ⟨newProxy 0, []⟩ events := by
    repeat refine System.Guarded.cons _ rfl (by decide) ?_
    trivial
  obtain ⟨hlen, -, hread⟩ := history_safe 0 events _ hrun
  exact ⟨_, hrun, hlen, hread hfew 1 rfl⟩

/-! ## Tests one at a time

A test that nobody interrupts does what `Proxy.tested` says in one step. -/

def Shared.view (p : Shared) : Proxy := ⟨p.alive, p.history⟩

theorem alone_test (p : Shared) (t : Option UInt16) (now : Int) :
    ∃ sections p', program.alone p (.test .testing) sections = some (p', .test .done) ∧
      p'.view = p.view.tested now t ∧ p'.sem = p.sem ∧ p'.lastSuccessTime = p.lastSuccessTime := by
  by_cases hlen : 10 < (p.history ++ [(⟨now, t.getD 0⟩ : DelayHistory)]).length
  · refine ⟨[.test (.finish t), .test .mark, .test (.put now), .test .check, .test .len,
      .test .take], { p with
        alive := t.isSome
        history := (p.history ++ [(⟨now, t.getD 0⟩ : DelayHistory)]).tail }, ?_, ?_, rfl, rfl⟩
    · have hempty : (p.history ++ [(⟨now, t.getD 0⟩ : DelayHistory)]).isEmpty = false := by simp
      simp only [Program.alone, program, step, testStep, Option.map_some, Option.bind_some,
        if_pos hlen, hempty, Bool.false_eq_true, if_false]
    · exact congrArg (Proxy.mk t.isSome) (if_pos hlen).symm
  · refine ⟨[.test (.finish t), .test .mark, .test (.put now), .test .check], { p with
        alive := t.isSome
        history := p.history ++ [⟨now, t.getD 0⟩] }, ?_, ?_, rfl, rfl⟩
    · simp only [Program.alone, program, step, testStep, Option.map_some, Option.bind_some,
        if_neg hlen]
    · exact congrArg (Proxy.mk t.isSome) (if_neg hlen).symm

theorem run_test_alone (c : Config Shared Goroutine) {i : Nat}
    (hi : c.threads[i]? = some (Goroutine.test .testing)) (t : Option UInt16) (now : Int) :
    ∃ events d, program.system.run c events = some d ∧ d.shared.view = c.shared.view.tested now t ∧
      d.threads = c.threads.set i (.test .done) := by
  obtain ⟨sections, p', halone, hview, -⟩ := alone_test c.shared t now
  exact ⟨_, _, Program.run_alone halone hi, hview, rfl⟩

end RuleBaseProxy.Adapter
