import RuleBaseProxy.Lib.Transition

/-! # Dialing both families at once

`dualStackDialContext` starts two racers, one for IPv4 and one for IPv6. Each resolves the
host, dials, and then offers its result on an unbuffered channel. The collector takes results
from the channel until one of them has a connection or both have failed. It closes `returned`
when it leaves, and a racer whose offer was not taken then closes its own connection.

The model starts where the racers are started: an address that does not split into host and
port is an error before that.
-/

namespace RuleBaseProxy.Dialer

open TransitionSystem

inductive Racer where
  | v4
  | v6
  deriving DecidableEq

def Racer.ipv6 : Racer → Bool
  | .v4 => false
  | .v6 => true

def Racer.other : Racer → Racer
  | .v4 => .v6
  | .v6 => .v4

theorem Racer.eq_or_other (r q : Racer) : q = r ∨ q = r.other := by
  cases r <;> cases q <;> decide

theorem Racer.other_ne (r : Racer) : r.other ≠ r := by
  cases r <;> decide

variable {ε : Type}

/-- `dialResult`. A racer dials at most once, so a connection is named by its racer. -/
structure DialResult (ε : Type) where
  conn : Option Racer
  error : Option ε
  resolved : Bool
  ipv6 : Bool
  done : Bool

/-- Where a racer is. The last two are the ends of the deferred `select`. -/
inductive Progress (ε : Type) where
  | resolving
  | dialing
  | offering (result : DialResult ε)
  | handedOver (result : DialResult ε)
  | gaveUp (result : DialResult ε)

/-- Where the function itself is. It sends nothing and receives nothing between leaving the
loop and closing `returned`. -/
inductive Collector (ε : Type) where
  | receiving (primary fallback : DialResult ε)
  | received (res primary fallback : DialResult ε)
  | returning (conn : Option Racer) (error : Option ε)
  | returned (conn : Option Racer) (error : Option ε)

structure State (ε : Type) where
  racer : Racer → Progress ε
  collector : Collector ε
  /-- The connections that were closed. -/
  closed : Racer → Bool

def zeroResult : DialResult ε := ⟨none, none, false, false, false⟩

def start : State ε :=
  ⟨fun _ => .resolving, .receiving zeroResult zeroResult, fun _ => false⟩

inductive Action (ε : Type) where
  /-- The host is resolved, or not. -/
  | resolve (r : Racer) (error : Option ε)
  | dial (r : Racer) (error : Option ε)
  /-- `results <- result` meets `range results`. -/
  | send (r : Racer)
  /-- `<-returned` in the racer. -/
  | giveUp (r : Racer)
  /-- The body of the loop. -/
  | collect
  /-- The deferred `close(returned)`. -/
  | closeReturned

def resolved (error : Option ε) (r : Racer) : Progress ε :=
  match error with
  | some err => .offering ⟨none, some err, false, r.ipv6, true⟩
  | none => .dialing

def dialed (error : Option ε) (r : Racer) : Progress ε :=
  match error with
  | some err => .offering ⟨none, some err, true, r.ipv6, true⟩
  | none => .offering ⟨some r, none, true, r.ipv6, true⟩

def collect (res primary fallback : DialResult ε) : Collector ε :=
  if res.error.isNone then .returning res.conn none
  else
    let primary := if res.ipv6 then primary else res
    let fallback := if res.ipv6 then res else fallback
    if primary.done && fallback.done then
      if primary.resolved then .returning none primary.error
      else if fallback.resolved then .returning none fallback.error
      else .returning none primary.error
    else .receiving primary fallback

def closeConn (closed : Racer → Bool) : Option Racer → Racer → Bool
  | none => closed
  | some conn => Function.update closed conn true

namespace State

def setRacer (s : State ε) (r : Racer) (p : Progress ε) : State ε :=
  { s with racer := Function.update s.racer r p }

def step (s : State ε) : Action ε → Option (State ε)
  | .resolve r error =>
      match s.racer r with
      | .resolving => some (s.setRacer r (resolved error r))
      | _ => none
  | .dial r error =>
      match s.racer r with
      | .dialing => some (s.setRacer r (dialed error r))
      | _ => none
  | .send r =>
      match s.racer r, s.collector with
      | .offering res, .receiving primary fallback =>
          some { s.setRacer r (.handedOver res) with
            collector := .received res primary fallback }
      | _, _ => none
  | .giveUp r =>
      match s.racer r, s.collector with
      | .offering res, .returned _ _ =>
          some { s.setRacer r (.gaveUp res) with closed := closeConn s.closed res.conn }
      | _, _ => none
  | .collect =>
      match s.collector with
      | .received res primary fallback =>
          some { s with collector := collect res primary fallback }
      | _ => none
  | .closeReturned =>
      match s.collector with
      | .returning conn error => some { s with collector := .returned conn error }
      | _ => none

end State

def system : System (State ε) (Action ε) := ⟨State.step⟩

/-- What a step can be, with the states of the parties that take it. -/
inductive Moves (s : State ε) : State ε → Prop where
  | resolve (r : Racer) (error : Option ε) (hr : s.racer r = .resolving) :
      Moves s (s.setRacer r (resolved error r))
  | dial (r : Racer) (error : Option ε) (hr : s.racer r = .dialing) :
      Moves s (s.setRacer r (dialed error r))
  | send (r : Racer) {res primary fallback : DialResult ε} (hr : s.racer r = .offering res)
      (hc : s.collector = .receiving primary fallback) :
      Moves s { s.setRacer r (.handedOver res) with
        collector := .received res primary fallback }
  | giveUp (r : Racer) {res : DialResult ε} {conn : Option Racer} {error : Option ε}
      (hr : s.racer r = .offering res) (hc : s.collector = .returned conn error) :
      Moves s { s.setRacer r (.gaveUp res) with closed := closeConn s.closed res.conn }
  | collect {res primary fallback : DialResult ε}
      (hc : s.collector = .received res primary fallback) :
      Moves s { s with collector := collect res primary fallback }
  | closeReturned {conn : Option Racer} {error : Option ε}
      (hc : s.collector = .returning conn error) :
      Moves s { s with collector := .returned conn error }

theorem moves_of_step {s t : State ε} {a : Action ε} (hs : s.step a = some t) : Moves s t := by
  cases a with
  | resolve r error =>
      simp only [State.step] at hs
      split at hs
      · cases hs
        exact .resolve r error (by assumption)
      · cases hs
  | dial r error =>
      simp only [State.step] at hs
      split at hs
      · cases hs
        exact .dial r error (by assumption)
      · cases hs
  | send r =>
      simp only [State.step] at hs
      split at hs
      · rename_i hr hc
        cases hs
        exact .send r hr hc
      · cases hs
  | giveUp r =>
      simp only [State.step] at hs
      split at hs
      · rename_i hr hc
        cases hs
        exact .giveUp r hr hc
      · cases hs
  | collect =>
      simp only [State.step] at hs
      split at hs
      · cases hs
        exact .collect (by assumption)
      · cases hs
  | closeReturned =>
      simp only [State.step] at hs
      split at hs
      · cases hs
        exact .closeReturned (by assumption)
      · cases hs

/-! ## What should hold -/

def Progress.result : Progress ε → Option (DialResult ε)
  | .resolving => none
  | .dialing => none
  | .offering res => some res
  | .handedOver res => some res
  | .gaveUp res => some res

def Progress.finished : Progress ε → Bool
  | .handedOver _ => true
  | .gaveUp _ => true
  | _ => false

namespace State

def Dialed (s : State ε) (r : Racer) : Prop :=
  ∃ res, (s.racer r).result = some res ∧ res.conn = some r

def Failed (s : State ε) (r : Racer) : Prop :=
  ∃ res, (s.racer r).result = some res ∧ res.error.isSome = true

/-- The function has returned `conn, error` and its racers have finished. -/
def Finished (s : State ε) (conn : Option Racer) (error : Option ε) : Prop :=
  s.collector = .returned conn error ∧ ∀ r, (s.racer r).finished = true

def Errs (s : State ε) : Prop :=
  ∃ conn err, s.collector = .returning conn (some err) ∨ s.collector = .returned conn (some err)

/-- Each connection is returned or closed and not both, one is returned exactly when one was
dialed, and an error only after both racers failed. -/
structure Clean (s : State ε) : Prop where
  once : ∀ conn error, s.Finished conn error → ∀ r, s.Dialed r →
    conn = some r ∧ s.closed r = false ∨ conn ≠ some r ∧ s.closed r = true
  dialed : ∀ conn error, s.Finished conn error → ∀ r, conn = some r → s.Dialed r
  isSome_iff : ∀ conn error, s.Finished conn error →
    (conn.isSome = true ↔ ∃ r, s.Dialed r)
  error_iff : ∀ conn error, s.Finished conn error → (error.isSome = true ↔ conn = none)
  failed : s.Errs → ∀ r, s.Failed r

end State

/-! ## The invariant -/

def Progress.handed : Progress ε → Option (DialResult ε)
  | .handedOver res => some res
  | _ => none

def State.handed (s : State ε) : Racer → Option (DialResult ε) := Progress.handed ∘ s.racer

structure Valid (r : Racer) (res : DialResult ε) : Prop where
  ipv6 : res.ipv6 = r.ipv6
  done : res.done = true
  outcome : res.conn = some r ∧ res.error = none ∨ res.conn = none ∧ res.error.isSome = true

def slot (primary fallback : DialResult ε) : Racer → DialResult ε
  | .v4 => primary
  | .v6 => fallback

/-- The variable of a racer holds its failure, once that was taken from it. -/
def Kept (handed : Racer → Option (DialResult ε)) (primary fallback : DialResult ε)
    (r : Racer) : Prop :=
  (slot primary fallback r).done = false ∧ handed r = none ∨
    handed r = some (slot primary fallback r) ∧ (slot primary fallback r).error.isSome = true

/-- The result the function returns with: the connection of one racer, with nothing taken from
the other one but a failure, or an error after two failures. -/
inductive Decided (handed : Racer → Option (DialResult ε)) : Option Racer → Option ε → Prop where
  | conn (r : Racer) (res : DialResult ε) : handed r = some res → res.conn = some r →
      (∀ res', handed r.other = some res' → res'.conn = none) → Decided handed (some r) none
  | error (err : ε) : (∀ r, ∃ res, handed r = some res ∧ res.error.isSome = true) →
      Decided handed none (some err)

def Collects (handed : Racer → Option (DialResult ε)) : Collector ε → Prop
  | .receiving primary fallback =>
      (∀ r, Kept handed primary fallback r) ∧ ∃ r, (slot primary fallback r).done = false
  | .received res primary fallback =>
      ∃ r, handed r = some res ∧ (slot primary fallback r).done = false ∧
        Kept handed primary fallback r.other
  | .returning conn error => Decided handed conn error
  | .returned conn error => Decided handed conn error

structure Inv (s : State ε) : Prop where
  valid : ∀ r res, (s.racer r).result = some res → Valid r res
  closed : ∀ r, s.closed r = true ↔ ∃ res, s.racer r = .gaveUp res ∧ res.conn = some r
  collects : Collects s.handed s.collector
  gaveUp : ∀ r res, s.racer r = .gaveUp res → ∃ conn error, s.collector = .returned conn error

theorem inv_start : Inv (start : State ε) where
  valid r res h := nomatch h
  closed r := by simp [start]
  collects := ⟨fun r => Or.inl (by cases r <;> exact ⟨rfl, rfl⟩), .v4, rfl⟩
  gaveUp r res h := nomatch h

theorem Inv.valid_of_handed {s : State ε} (h : Inv s) {r : Racer} {res : DialResult ε}
    (hr : s.handed r = some res) : Valid r res := by
  apply h.valid r res
  cases hp : s.racer r <;> simp_all [State.handed, Progress.handed, Progress.result]

/-! ### The racers -/

@[simp] theorem racer_setRacer_self (s : State ε) (r : Racer) (p : Progress ε) :
    (s.setRacer r p).racer r = p := by
  simp [State.setRacer]

theorem racer_setRacer_of_ne (s : State ε) {r q : Racer} (hq : q ≠ r) (p : Progress ε) :
    (s.setRacer r p).racer q = s.racer q := by
  simp [State.setRacer, Function.update_of_ne hq]

theorem Inv.valid_setRacer {s : State ε} (h : Inv s) {r q : Racer} {p : Progress ε}
    (hp : ∀ res, p.result = some res → Valid r res) {res : DialResult ε}
    (hq : ((s.setRacer r p).racer q).result = some res) : Valid q res := by
  by_cases hqr : q = r
  · subst hqr
    rw [racer_setRacer_self] at hq
    exact hp res hq
  · rw [racer_setRacer_of_ne s hqr] at hq
    exact h.valid q res hq

theorem handed_setRacer (s : State ε) (r : Racer) (p : Progress ε) :
    (s.setRacer r p).handed = Function.update s.handed r p.handed :=
  Function.comp_update Progress.handed s.racer r p

/-- A racer that hands nothing over leaves what the collector has alone. -/
theorem handed_setRacer_of_eq {s : State ε} {r : Racer} {p : Progress ε}
    (h : p.handed = s.handed r) : (s.setRacer r p).handed = s.handed := by
  rw [handed_setRacer, h, Function.update_eq_self]

/-- A racer that goes on by itself: it has handed nothing over and closed nothing. -/
theorem Inv.setRacer {s : State ε} (h : Inv s) {r : Racer} {p : Progress ε}
    (hold : (s.racer r).finished = false) (hnew : p.finished = false)
    (hvalid : ∀ res, p.result = some res → Valid r res) : Inv (s.setRacer r p) where
  valid q res := h.valid_setRacer hvalid
  closed q := by
    have hclosed := h.closed q
    by_cases hqr : q = r
    · subst hqr
      rw [racer_setRacer_self]
      cases hp : s.racer q <;> cases p <;> simp_all [State.setRacer, Progress.finished]
    · rw [racer_setRacer_of_ne s hqr]
      exact hclosed
  collects := by
    have hhanded : p.handed = s.handed r := by
      cases hp : s.racer r <;> cases p <;>
        simp_all [Progress.finished, Progress.handed, State.handed]
    rw [handed_setRacer_of_eq hhanded]
    exact h.collects
  gaveUp q res hq := by
    by_cases hqr : q = r
    · subst hqr
      rw [racer_setRacer_self] at hq
      rw [hq] at hnew
      cases hnew
    · rw [racer_setRacer_of_ne s hqr] at hq
      exact h.gaveUp q res hq

theorem valid_resolved (error : Option ε) (r : Racer) {res : DialResult ε}
    (h : (resolved error r).result = some res) : Valid r res := by
  cases error with
  | none => nomatch h
  | some err =>
      cases h
      exact ⟨rfl, rfl, Or.inr ⟨rfl, rfl⟩⟩

theorem valid_dialed (error : Option ε) (r : Racer) {res : DialResult ε}
    (h : (dialed error r).result = some res) : Valid r res := by
  cases error with
  | none =>
      cases h
      exact ⟨rfl, rfl, Or.inl ⟨rfl, rfl⟩⟩
  | some err =>
      cases h
      exact ⟨rfl, rfl, Or.inr ⟨rfl, rfl⟩⟩

/-- The racer has its result taken: the collector's variable for it is still empty. -/
theorem Inv.send {s : State ε} (h : Inv s) {r : Racer} {res primary fallback : DialResult ε}
    (hr : s.racer r = .offering res) (hc : s.collector = .receiving primary fallback) :
    Inv { s.setRacer r (.handedOver res) with collector := .received res primary fallback } where
  valid q res' := h.valid_setRacer fun res' hres' => h.valid r res' (by rw [hr]; exact hres')
  closed q := by
    have hclosed := h.closed q
    show s.closed q = true ↔ ∃ res', (s.setRacer r (.handedOver res)).racer q = .gaveUp res' ∧ _
    by_cases hqr : q = r
    · subst hqr
      rw [hr] at hclosed
      simpa using hclosed
    · rw [racer_setRacer_of_ne s hqr]
      exact hclosed
  collects := by
    have hcollects := h.collects
    rw [hc] at hcollects
    have hnone : s.handed r = none := by simp [State.handed, hr, Progress.handed]
    have hother := hcollects.1 r.other
    show Collects (s.setRacer r (.handedOver res)).handed _
    rw [handed_setRacer]
    refine ⟨r, by simp [Progress.handed], ?_, ?_⟩
    · rcases hcollects.1 r with ⟨hdone, -⟩ | ⟨hsome, -⟩
      · exact hdone
      · rw [hnone] at hsome
        cases hsome
    · simpa [Kept, Function.update_of_ne r.other_ne] using hother
  gaveUp q res' hq := by
    have hq' : (s.setRacer r (.handedOver res)).racer q = .gaveUp res' := hq
    by_cases hqr : q = r
    · subst hqr
      rw [racer_setRacer_self] at hq'
      cases hq'
    · rw [racer_setRacer_of_ne s hqr] at hq'
      obtain ⟨conn, error, hret⟩ := h.gaveUp q res' hq'
      cases hc.symm.trans hret

/-- The racer finds `returned` closed and closes its connection, if it has one. -/
theorem Inv.giveUp {s : State ε} (h : Inv s) {r : Racer} {res : DialResult ε}
    (hr : s.racer r = .offering res) {conn : Option Racer} {error : Option ε}
    (hc : s.collector = .returned conn error) :
    Inv { s.setRacer r (.gaveUp res) with closed := closeConn s.closed res.conn } where
  valid q res' := h.valid_setRacer fun res' hres' => h.valid r res' (by rw [hr]; exact hres')
  closed q := by
    have hres : Valid r res := h.valid r res (by rw [hr]; rfl)
    have hclosed := h.closed q
    by_cases hqr : q = r
    · subst hqr
      rw [hr] at hclosed
      rcases hres.outcome with ⟨hconn, -⟩ | ⟨hconn, -⟩ <;>
        simp_all [State.setRacer, closeConn]
    · rcases hres.outcome with ⟨hconn, -⟩ | ⟨hconn, -⟩ <;>
        simp_all [State.setRacer, closeConn]
  collects := by
    have hhanded : (Progress.gaveUp res).handed = s.handed r := by
      simp [State.handed, hr, Progress.handed]
    show Collects (s.setRacer r (.gaveUp res)).handed _
    rw [handed_setRacer_of_eq hhanded]
    exact h.collects
  gaveUp q res' hq := ⟨conn, error, hc⟩

/-! ### The collector -/

theorem slot_collect {r : Racer} {res primary fallback : DialResult ε}
    (hv6 : res.ipv6 = r.ipv6) :
    slot (if res.ipv6 then primary else res) (if res.ipv6 then res else fallback) =
      Function.update (slot primary fallback) r res := by
  funext q
  rw [hv6]
  cases r <;> cases q <;> rfl

/-- With both variables filled the function may return the error of either. -/
theorem decided_of_kept {handed : Racer → Option (DialResult ε)}
    {primary fallback : DialResult ε} (h : ∀ r, Kept handed primary fallback r)
    (hdone : ∀ r, (slot primary fallback r).done = true) (r : Racer) :
    Decided handed none (slot primary fallback r).error := by
  have hfilled : ∀ q, handed q = some (slot primary fallback q) ∧
      (slot primary fallback q).error.isSome = true := by
    intro q
    rcases h q with ⟨hempty, -⟩ | hfilled
    · rw [hdone q] at hempty
      cases hempty
    · exact hfilled
  obtain ⟨err, herr⟩ := Option.isSome_iff_exists.mp (hfilled r).2
  rw [herr]
  exact .error err fun q => ⟨_, hfilled q⟩

theorem kept_update {handed : Racer → Option (DialResult ε)} {r : Racer}
    {res primary fallback primary' fallback' : DialResult ε}
    (hslot : slot primary' fallback' = Function.update (slot primary fallback) r res)
    (hr : handed r = some res) (herr : res.error.isSome = true)
    (hother : Kept handed primary fallback r.other) (q : Racer) :
    Kept handed primary' fallback' q := by
  unfold Kept at hother ⊢
  rw [hslot]
  rcases r.eq_or_other q with hq | hq
  · subst hq
    rw [Function.update_self]
    exact Or.inr ⟨hr, herr⟩
  · subst hq
    rw [Function.update_of_ne r.other_ne]
    exact hother

section Collect

variable {handed : Racer → Option (DialResult ε)} {r : Racer}
  {res primary fallback : DialResult ε}

/-- The first connection is returned; the other racer can only have failed by then. -/
theorem decided_of_conn (hvalid : ∀ r res, handed r = some res → Valid r res)
    (hr : handed r = some res) (hconn : res.conn = some r)
    (hother : Kept handed primary fallback r.other) : Decided handed (some r) none := by
  refine .conn r res hr hconn fun res' hres' => ?_
  rcases hother with ⟨-, hnone⟩ | ⟨hsome, hfailed⟩
  · rw [hnone] at hres'
    cases hres'
  · cases hsome.symm.trans hres'
    rcases (hvalid _ _ hsome).outcome with ⟨-, hok⟩ | ⟨hconn', -⟩
    · rw [hok] at hfailed
      cases hfailed
    · exact hconn'

/-- A failure ends the loop exactly when it is the second one. -/
theorem collects_of_kept (hkept : ∀ q, Kept handed primary fallback q) :
    Collects handed
      (if primary.done && fallback.done then
        if primary.resolved then .returning none primary.error
        else if fallback.resolved then .returning none fallback.error
        else .returning none primary.error
      else .receiving primary fallback) := by
  by_cases hdone : (primary.done && fallback.done) = true
  · rw [if_pos hdone]
    have hboth : ∀ q, (slot primary fallback q).done = true := by
      intro q
      cases q <;> simp_all [slot]
    have hprimary : Decided handed none primary.error := decided_of_kept hkept hboth .v4
    have hfallback : Decided handed none fallback.error := decided_of_kept hkept hboth .v6
    split
    · exact hprimary
    · split
      · exact hfallback
      · exact hprimary
  · rw [if_neg hdone]
    refine ⟨hkept, ?_⟩
    cases hp : primary.done with
    | false => exact ⟨.v4, hp⟩
    | true => exact ⟨.v6, by simpa [hp, slot] using hdone⟩

/-- The body of the loop keeps its variables and its return value right. -/
theorem collects_collect (hvalid : ∀ r res, handed r = some res → Valid r res)
    (h : Collects handed (.received res primary fallback)) :
    Collects handed (collect res primary fallback) := by
  obtain ⟨r, hr, -, hother⟩ := h
  have hres : Valid r res := hvalid r res hr
  unfold collect
  rcases hres.outcome with ⟨hconn, herr⟩ | ⟨-, herr⟩
  · rw [if_pos (by simp [herr]), hconn]
    exact decided_of_conn hvalid hr hconn hother
  · rw [if_neg (by simpa [Option.isNone_iff_eq_none, Option.isSome_iff_ne_none] using herr)]
    exact collects_of_kept (kept_update (slot_collect hres.ipv6) hr herr hother)

end Collect

theorem Inv.moves {s t : State ε} (h : Inv s) (hs : Moves s t) : Inv t := by
  cases hs with
  | resolve r error hr =>
      apply h.setRacer (by rw [hr]; rfl) _ fun res => valid_resolved error r
      cases error <;> rfl
  | dial r error hr =>
      apply h.setRacer (by rw [hr]; rfl) _ fun res => valid_dialed error r
      cases error <;> rfl
  | send r hr hc => exact h.send hr hc
  | giveUp r hr hc => exact h.giveUp hr hc
  | collect hc =>
      have hcollects := h.collects
      rw [hc] at hcollects
      refine ⟨h.valid, h.closed,
        collects_collect (fun _ _ => h.valid_of_handed) hcollects, fun r res hr => ?_⟩
      obtain ⟨conn, error, hret⟩ := h.gaveUp r res hr
      cases hc.symm.trans hret
  | closeReturned hc =>
      have hcollects := h.collects
      rw [hc] at hcollects
      exact ⟨h.valid, h.closed, hcollects, fun r res hr => ⟨_, _, rfl⟩⟩

theorem always_inv (as : List (Action ε)) : system.Always Inv start as :=
  system.always_of_step (fun _ _ _ h hs => h.moves (moves_of_step hs)) as inv_start

/-! ## Nothing is lost -/

section

variable {s : State ε} {r : Racer} {res : DialResult ε}

theorem racer_of_handed (hr : s.handed r = some res) : s.racer r = .handedOver res := by
  cases hp : s.racer r <;> simp_all [State.handed, Progress.handed]

theorem dialed_of_handed (hr : s.handed r = some res) : s.Dialed r ↔ res.conn = some r := by
  simp [State.Dialed, racer_of_handed hr, Progress.result]

theorem Inv.closed_of_handed (h : Inv s) (hr : s.handed r = some res) : s.closed r = false := by
  rw [← Bool.not_eq_true, h.closed, racer_of_handed hr]
  rintro ⟨res', hgaveUp, -⟩
  cases hgaveUp

theorem Inv.not_dialed_of_failed (h : Inv s) (hr : s.handed r = some res)
    (hfailed : res.error.isSome = true) : ¬ s.Dialed r := by
  rw [dialed_of_handed hr]
  rcases (h.valid_of_handed hr).outcome with ⟨-, hok⟩ | ⟨hconn, -⟩
  · rw [hok] at hfailed
    cases hfailed
  · simp [hconn]

/-- A finished racer whose result was not taken has closed what it dialed. -/
theorem Inv.closed_of_dialed (h : Inv s) (hfin : (s.racer r).finished = true)
    (hnone : s.handed r = none) (hdialed : s.Dialed r) : s.closed r = true := by
  obtain ⟨res, hres, hconn⟩ := hdialed
  rw [h.closed]
  cases hp : s.racer r with
  | gaveUp res' =>
      rw [hp] at hres
      cases hres
      exact ⟨res, rfl, hconn⟩
  | handedOver res' => simp [State.handed, hp, Progress.handed] at hnone
  | resolving => simp [hp, Progress.finished] at hfin
  | dialing => simp [hp, Progress.finished] at hfin
  | offering res' => simp [hp, Progress.finished] at hfin

end

theorem Inv.decided {s : State ε} (h : Inv s) {conn : Option Racer} {error : Option ε}
    (hc : s.collector = .returning conn error ∨ s.collector = .returned conn error) :
    Decided s.handed conn error := by
  have hcollects := h.collects
  rcases hc with hc | hc
  · rw [hc] at hcollects
    exact hcollects
  · rw [hc] at hcollects
    exact hcollects

/-- The other racer's connection is closed when this one's is returned. -/
theorem Inv.once_of_decided {s : State ε} (h : Inv s) {conn : Option Racer} {error : Option ε}
    (hd : Decided s.handed conn error) (hfin : ∀ r, (s.racer r).finished = true) {r : Racer}
    (hr : s.Dialed r) :
    conn = some r ∧ s.closed r = false ∨ conn ≠ some r ∧ s.closed r = true := by
  cases hd with
  | conn q res hq hconn hother =>
      rcases q.eq_or_other r with hrq | hrq
      · subst hrq
        exact Or.inl ⟨rfl, h.closed_of_handed hq⟩
      · subst hrq
        refine Or.inr ⟨fun heq => q.other_ne (Option.some.inj heq).symm, ?_⟩
        refine h.closed_of_dialed (hfin _) ?_ hr
        cases hhanded : s.handed q.other with
        | none => rfl
        | some res' =>
            rw [dialed_of_handed hhanded, hother res' hhanded] at hr
            cases hr
  | error err hfailed =>
      obtain ⟨res, hres, herr⟩ := hfailed r
      exact absurd hr (h.not_dialed_of_failed hres herr)

theorem Inv.clean {s : State ε} (h : Inv s) : s.Clean where
  once conn error hf r := h.once_of_decided (h.decided (Or.inr hf.1)) hf.2
  dialed conn error hf r hr := by
    cases h.decided (Or.inr hf.1) with
    | conn q res hq hconn hother =>
        cases hr
        exact (dialed_of_handed hq).mpr hconn
    | error err hfailed => cases hr
  isSome_iff conn error hf := by
    cases h.decided (Or.inr hf.1) with
    | conn q res hq hconn hother =>
        have hq' : s.Dialed q := (dialed_of_handed hq).mpr hconn
        exact ⟨fun _ => ⟨q, hq'⟩, fun _ => rfl⟩
    | error err hfailed =>
        constructor
        · intro hsome
          cases hsome
        intro ⟨r, hr⟩
        obtain ⟨res, hres, herr⟩ := hfailed r
        exact absurd hr (h.not_dialed_of_failed hres herr)
  error_iff conn error hf := by
    cases h.decided (Or.inr hf.1) with
    | conn q res hq hconn hother => simp
    | error err hfailed => simp
  failed := by
    rintro ⟨conn, err, hc⟩ r
    cases h.decided hc with
    | error err hfailed =>
        obtain ⟨res, hres, herr⟩ := hfailed r
        exact ⟨res, by rw [racer_of_handed hres]; rfl, herr⟩

/-- In every state of every run, whatever the racers meet and in whatever order the parties
move, no connection is lost and none is both returned and closed. -/
theorem dualStackDialContext_clean (as : List (Action ε)) :
    system.Always State.Clean start as :=
  (always_inv as).mono _ fun _ h => h.clean

/-! ## Every run ends

Each step brings a party further, and until the function has returned and both racers have
finished some party can move.
-/

def Progress.left : Progress ε → Nat
  | .resolving => 3
  | .dialing => 2
  | .offering _ => 1
  | .handedOver _ => 0
  | .gaveUp _ => 0

def Collector.left : Collector ε → Nat
  | .received _ _ _ => 3
  | .receiving _ _ => 2
  | .returning _ _ => 1
  | .returned _ _ => 0

def State.left (s : State ε) : Nat :=
  2 * ((s.racer .v4).left + (s.racer .v6).left) + s.collector.left

theorem left_setRacer {s : State ε} {r : Racer} {p : Progress ε}
    (h : p.left < (s.racer r).left) : (s.setRacer r p).left + 2 ≤ s.left := by
  cases r <;> simp [State.left, State.setRacer] <;> omega

theorem left_collect (res primary fallback : DialResult ε) :
    (collect res primary fallback).left ≤ 2 := by
  unfold collect
  dsimp only
  generalize (if res.ipv6 then primary else res) = primary'
  generalize (if res.ipv6 then res else fallback) = fallback'
  split
  · exact Nat.le_succ 1
  · split
    · split
      · exact Nat.le_succ 1
      · split <;> exact Nat.le_succ 1
    · exact Nat.le_refl 2

theorem left_moves {s t : State ε} (hs : Moves s t) : t.left + 1 ≤ s.left := by
  cases hs with
  | resolve r error hr =>
      have hlt : (resolved error r).left < (s.racer r).left := by
        rw [hr]
        cases error <;> simp [resolved, Progress.left]
      have := left_setRacer hlt
      omega
  | dial r error hr =>
      have hlt : (dialed error r).left < (s.racer r).left := by
        rw [hr]
        cases error <;> simp [dialed, Progress.left]
      have := left_setRacer hlt
      omega
  | @send r res primary fallback hr hc =>
      have hlt : (Progress.handedOver res).left < (s.racer r).left := by
        rw [hr]
        exact Nat.zero_lt_one
      have := left_setRacer hlt
      simp only [State.left, State.setRacer, hc, Collector.left] at this ⊢
      omega
  | @giveUp r res conn error hr hc =>
      have hlt : (Progress.gaveUp res).left < (s.racer r).left := by
        rw [hr]
        exact Nat.zero_lt_one
      have := left_setRacer hlt
      simp only [State.left, State.setRacer] at this ⊢
      omega
  | @collect res primary fallback hc =>
      have hnew := left_collect res primary fallback
      have hold : s.collector.left = 3 := by
        rw [hc]
        rfl
      simp only [State.left]
      omega
  | closeReturned hc => simp [State.left, hc, Collector.left]

/-- A racer that has not finished can move, unless it offers its result and the collector is
on its way to the next receive or to its end. -/
theorem racer_moves {s : State ε} {r : Racer} (hr : s.handed r = none)
    (hgaveUp : ∀ res, s.racer r ≠ .gaveUp res)
    (hc : (∃ primary fallback, s.collector = .receiving primary fallback) ∨
      ∃ conn error, s.collector = .returned conn error) : ∃ a, (s.step a).isSome = true := by
  cases hp : s.racer r with
  | resolving => exact ⟨.resolve r none, by simp [State.step, hp]⟩
  | dialing => exact ⟨.dial r none, by simp [State.step, hp]⟩
  | offering res =>
      rcases hc with ⟨primary, fallback, hc⟩ | ⟨conn, error, hc⟩
      · exact ⟨.send r, by simp [State.step, hp, hc]⟩
      · exact ⟨.giveUp r, by simp [State.step, hp, hc]⟩
  | handedOver res => simp [State.handed, hp, Progress.handed] at hr
  | gaveUp res => exact absurd hp (hgaveUp res)

theorem Inv.progress {s : State ε} (h : Inv s) :
    (∃ conn error, s.Finished conn error) ∨ ∃ a, (s.step a).isSome = true := by
  have hcollects := h.collects
  cases hc : s.collector with
  | receiving primary fallback =>
      rw [hc] at hcollects
      obtain ⟨r, hempty⟩ := hcollects.2
      have hnone : s.handed r = none := by
        rcases hcollects.1 r with ⟨-, hnone⟩ | ⟨hsome, -⟩
        · exact hnone
        · have hdone := (h.valid_of_handed hsome).done
          rw [hempty] at hdone
          cases hdone
      refine Or.inr (racer_moves hnone (fun res hres => ?_) (Or.inl ⟨primary, fallback, hc⟩))
      obtain ⟨conn, error, hret⟩ := h.gaveUp r res hres
      cases hc.symm.trans hret
  | received res primary fallback =>
      exact Or.inr ⟨.collect, by simp [State.step, hc]⟩
  | returning conn error =>
      exact Or.inr ⟨.closeReturned, by simp [State.step, hc]⟩
  | returned conn error =>
      by_cases hfin : ∀ r, (s.racer r).finished = true
      · exact Or.inl ⟨conn, error, hc, hfin⟩
      · obtain ⟨r, hr⟩ := not_forall.mp hfin
        have hnone : s.handed r = none := by
          cases hp : s.racer r <;> simp_all [State.handed, Progress.handed, Progress.finished]
        refine Or.inr (racer_moves hnone (fun res hres => ?_) (Or.inr ⟨conn, error, hc⟩))
        rw [hres] at hr
        exact hr rfl

theorem length_add_left_le {s t : State ε} {as : List (Action ε)}
    (hrun : system.run s as = some t) : as.length + t.left ≤ s.left := by
  induction as generalizing s with
  | nil =>
      cases hrun
      simp
  | cons a as ih =>
      obtain ⟨u, hu, hrest⟩ := Option.bind_eq_some_iff.mp hrun
      have hstep : u.left + 1 ≤ s.left := left_moves (moves_of_step hu)
      have hlen := ih hrest
      rw [List.length_cons]
      omega

/-- A run has at most fourteen steps, and one that cannot be continued has returned with both
racers finished: no racer is left waiting on the channel. -/
theorem run_ends {s : State ε} {as : List (Action ε)} (hrun : system.run start as = some s) :
    as.length ≤ 14 ∧ ((∃ conn error, s.Finished conn error) ∨ ∃ a, (s.step a).isSome = true) := by
  have hlen := length_add_left_le hrun
  have hstart : (start : State ε).left = 14 := rfl
  exact ⟨by omega, ((always_inv as).last _ hrun).progress⟩

/-- IPv4 wins, and the racer for IPv6 finds its offer not taken. -/
def v4First : List (Action Unit) :=
  [.resolve .v4 none, .dial .v4 none, .resolve .v6 none, .send .v4, .collect, .dial .v6 none,
    .closeReturned, .giveUp .v6]

theorem run_ends_v4_first :
    ∃ s, system.run start v4First = some s ∧ v4First.length ≤ 14 ∧
      ((∃ conn error, s.Finished conn error) ∨ ∃ a, (s.step a).isSome = true) :=
  ⟨_, rfl, run_ends rfl⟩

end RuleBaseProxy.Dialer
