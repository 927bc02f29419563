import RuleBaseProxy.Lib.Transition

/-! # Idle deadlines of a relay

An `IdleConn` moves the deadline of its connection when a read or a write comes
more than a quarter of the timeout after the last move. `StartDeadline` sets the
first one. The slow branch of `relay` calls it for the connection each copy loop
writes to; `noZeroCopyRelay` does not call it.
-/

namespace RuleBaseProxy.Tunnel.Idle

open TransitionSystem

/-- Times are nanoseconds. -/
structure IdleConn where
  timeout : Nat
  lastUpdated : Int
  /-- `none` until `SetDeadline` is called on the connection. -/
  deadline : Option Int

namespace IdleConn

/-- `NewIdleConn`. -/
def new (timeout : Nat) (now : Int) : IdleConn := ⟨timeout, now, none⟩

def startDeadline (c : IdleConn) (now : Int) : IdleConn :=
  { c with deadline := some (now + c.timeout) }

/-- Nothing comes between the load and the swap, so the swap succeeds. -/
def updateDeadline (c : IdleConn) (now : Int) : IdleConn :=
  if now - c.lastUpdated > (c.timeout / 4 : Nat) then
    { c with lastUpdated := now, deadline := some (now + c.timeout) }
  else c

end IdleConn

inductive Branch where
  | noZeroCopyRelay
  | slow
  deriving DecidableEq

/-- Which way `relay` takes; `none` is the copy inside the kernel. -/
def branchOf (zeroCopy leftIsTCP rightIsTCP : Bool) : Option Branch :=
  if !zeroCopy then some .noZeroCopyRelay
  else if leftIsTCP && rightIsTCP then none
  else some .slow

structure Conn where
  idle : IdleConn
  created : Int
  /-- When the loop that copies into it started. -/
  startedAt : Option Int
  /-- The times of its reads and writes, the last one first. -/
  ops : List Int

def Conn.new (timeout : Nat) (now : Int) : Conn := ⟨.new timeout now, now, none, []⟩

/-- The beginning of `copyFunc` for its destination. -/
def Conn.start (branch : Branch) (c : Conn) (now : Int) : Conn :=
  { c with
    idle := if branch = .slow then c.idle.startDeadline now else c.idle
    startedAt := some now }

/-- `Read` or `Write` without an error. -/
def Conn.op (c : Conn) (now : Int) : Conn :=
  { c with idle := c.idle.updateDeadline now, ops := now :: c.ops }

inductive Side where
  | left
  | right
  deriving DecidableEq

structure State where
  conns : Side → Conn
  clock : Int

/-- `relay` wraps the connections one after the other. -/
def start (timeout : Nat) (now : Int) (later : Nat) : State where
  conns
    | .left => .new timeout now
    | .right => .new timeout (now + later)
  clock := now + later

inductive Action where
  | start (dst : Side) (now : Int)
  | op (side : Side) (now : Int)

def State.set (s : State) (side : Side) (c : Conn) (now : Int) : State :=
  ⟨Function.update s.conns side c, now⟩

def system (branch : Branch) : System State Action where
  step s
    | .start dst now =>
        if s.clock ≤ now ∧ (s.conns dst).startedAt = none then
          some (s.set dst ((s.conns dst).start branch now) now)
        else none
    | .op side now =>
        if s.clock ≤ now then some (s.set side ((s.conns side).op now) now) else none

/-! ## What the deadlines should be -/

/-- The time of the last read or write, or of the start if that came later. -/
def Conn.active (c : Conn) (started : Int) : Int := max started (c.ops.head?.getD started)

/-- The connection has a deadline, at least three quarters of the timeout and at most the
whole timeout after its last activity. -/
def Conn.Armed (c : Conn) : Prop :=
  ∀ started, c.startedAt = some started → ∃ d, c.idle.deadline = some d ∧
    4 * c.active started + 3 * c.idle.timeout ≤ 4 * d ∧ d ≤ c.active started + c.idle.timeout

def BothStarted (s : State) : Prop := ∀ side, (s.conns side).startedAt.isSome

/-- Once both loops have started both connections are armed. -/
def ArmedOnceStarted (s : State) : Prop := BothStarted s → ∀ side, (s.conns side).Armed

/-- A read or a write has come late enough to move the deadline. -/
def Conn.Refreshed (c : Conn) : Prop := ∃ t ∈ c.ops, t - c.created > (c.idle.timeout / 4 : Nat)

/-- In `noZeroCopyRelay` a connection has to be refreshed, and the loop that copies into it
may not start much later than that. -/
def Conn.RefreshedInTime (c : Conn) : Prop :=
  c.Refreshed ∧ ∀ started, c.startedAt = some started →
    4 * started ≤ 4 * c.idle.lastUpdated + c.idle.timeout

def RefreshedOnceStarted (branch : Branch) (s : State) : Prop :=
  BothStarted s → branch = .slow ∨ ∀ side, (s.conns side).RefreshedInTime

/-! ## Along a run -/

/-- What the fields of a connection say about what has happened to it. -/
structure ConnInv (branch : Branch) (clock : Int) (c : Conn) : Prop where
  created_le : c.created ≤ c.idle.lastUpdated
  lastUpdated_le : c.idle.lastUpdated ≤ clock
  startedAt : ∀ t, c.startedAt = some t → c.created ≤ t ∧ t ≤ clock
  ops_le : ∀ t ∈ c.ops, t ≤ clock
  /-- The last read or write moved the deadline, or came soon after one that did. -/
  recent : ∀ t, c.ops.head? = some t →
    c.idle.lastUpdated ≤ t ∧ t - c.idle.lastUpdated ≤ (c.idle.timeout / 4 : Nat)
  unrefreshed : ¬ c.Refreshed → c.idle.lastUpdated = c.created
  /-- Without `StartDeadline` the first refresh sets the first deadline. -/
  noZeroCopy : branch = .noZeroCopyRelay →
    (c.Refreshed → c.idle.deadline = some (c.idle.lastUpdated + c.idle.timeout)) ∧
      (¬ c.Refreshed → c.idle.deadline = none)
  slow : branch = .slow → ∀ t, c.startedAt = some t →
    c.idle.deadline = some (max t c.idle.lastUpdated + c.idle.timeout)

section Connections

variable {branch : Branch} {clock now : Int} {c : Conn}

theorem connInv_new (branch : Branch) (timeout : Nat) {now : Int} (h : now ≤ clock) :
    ConnInv branch clock (Conn.new timeout now) where
  created_le := Int.le_refl now
  lastUpdated_le := h
  startedAt t ht := nomatch ht
  ops_le t ht := nomatch ht
  recent t ht := nomatch ht
  unrefreshed _ := rfl
  noZeroCopy _ := by
    constructor
    · intro ⟨t, ht, _⟩
      cases ht
    · intro _
      rfl
  slow _ t ht := nomatch ht

theorem ConnInv.mono (h : ConnInv branch clock c) (hnow : clock ≤ now) : ConnInv branch now c where
  created_le := h.created_le
  lastUpdated_le := Int.le_trans h.lastUpdated_le hnow
  startedAt t ht := ⟨(h.startedAt t ht).1, Int.le_trans (h.startedAt t ht).2 hnow⟩
  ops_le t ht := Int.le_trans (h.ops_le t ht) hnow
  recent := h.recent
  unrefreshed := h.unrefreshed
  noZeroCopy := h.noZeroCopy
  slow := h.slow

theorem ConnInv.start (h : ConnInv branch clock c) (hnow : clock ≤ now) :
    ConnInv branch now (c.start branch now) := by
  have hlater := h.mono hnow
  have hstarted : ∀ t, some now = some t → c.created ≤ t ∧ t ≤ now := by
    intro t ht
    cases ht
    exact ⟨Int.le_trans h.created_le hlater.lastUpdated_le, Int.le_refl now⟩
  cases branch with
  | noZeroCopyRelay =>
      exact { hlater with startedAt := hstarted, slow := fun hslow => nomatch hslow }
  | slow =>
      have hdeadline : ∀ t, some now = some t →
          some (now + (c.idle.timeout : Int)) =
            some (max t c.idle.lastUpdated + (c.idle.timeout : Int)) := by
        intro t ht
        cases ht
        rw [Int.max_eq_left hlater.lastUpdated_le]
      exact { hlater with
        startedAt := hstarted
        noZeroCopy := fun hno => nomatch hno
        slow := fun _ => hdeadline }

theorem refreshed_cons_iff {idle : IdleConn} (h : idle.timeout = c.idle.timeout) :
    Conn.Refreshed { c with idle := idle, ops := now :: c.ops } ↔
      now - c.created > (c.idle.timeout / 4 : Nat) ∨ c.Refreshed := by
  unfold Conn.Refreshed
  simp only [h]
  simp

theorem ConnInv.op_moved (h : ConnInv branch clock c) (hnow : clock ≤ now)
    (hmove : now - c.idle.lastUpdated > (c.idle.timeout / 4 : Nat)) :
    ConnInv branch now { c with
      idle := ⟨c.idle.timeout, now, some (now + c.idle.timeout)⟩
      ops := now :: c.ops } := by
  have hcreated := h.created_le
  have hlast := h.lastUpdated_le
  have hrefreshed : Conn.Refreshed { c with
      idle := ⟨c.idle.timeout, now, some (now + c.idle.timeout)⟩
      ops := now :: c.ops } := by
    refine (refreshed_cons_iff rfl).mpr (Or.inl ?_)
    omega
  refine ⟨?_, Int.le_refl now, ?_, ?_, ?_, ?_, ?_, ?_⟩
  · show c.created ≤ now
    omega
  · intro t ht
    exact ⟨(h.startedAt t ht).1, Int.le_trans (h.startedAt t ht).2 hnow⟩
  · intro t ht
    rcases List.mem_cons.mp ht with rfl | ht
    · exact Int.le_refl t
    · exact Int.le_trans (h.ops_le t ht) hnow
  · intro t ht
    cases ht
    show now ≤ now ∧ now - now ≤ _
    omega
  · intro hnot
    exact absurd hrefreshed hnot
  · intro _
    exact ⟨fun _ => rfl, fun hnot => absurd hrefreshed hnot⟩
  · intro _ t ht
    have hle := (h.startedAt t ht).2
    show some (now + (c.idle.timeout : Int)) = some (max t now + (c.idle.timeout : Int))
    rw [Int.max_eq_right (Int.le_trans hle hnow)]

theorem ConnInv.op_kept (h : ConnInv branch clock c) (hnow : clock ≤ now)
    (hkeep : now - c.idle.lastUpdated ≤ (c.idle.timeout / 4 : Nat)) :
    ConnInv branch now { c with ops := now :: c.ops } := by
  have hlast := h.lastUpdated_le
  have hrefreshed : Conn.Refreshed { c with ops := now :: c.ops } ↔ c.Refreshed := by
    refine (refreshed_cons_iff rfl).trans (or_iff_right_of_imp ?_)
    intro hlate
    by_contra hnot
    rw [h.unrefreshed hnot] at hkeep
    omega
  refine ⟨h.created_le, Int.le_trans hlast hnow, ?_, ?_, ?_, ?_, ?_, h.slow⟩
  · intro t ht
    exact ⟨(h.startedAt t ht).1, Int.le_trans (h.startedAt t ht).2 hnow⟩
  · intro t ht
    rcases List.mem_cons.mp ht with rfl | ht
    · exact Int.le_refl t
    · exact Int.le_trans (h.ops_le t ht) hnow
  · intro t ht
    cases ht
    exact ⟨Int.le_trans hlast hnow, hkeep⟩
  · intro hnot
    exact h.unrefreshed (fun href => hnot (hrefreshed.mpr href))
  · intro hbranch
    rw [hrefreshed]
    exact h.noZeroCopy hbranch

theorem ConnInv.op (h : ConnInv branch clock c) (hnow : clock ≤ now) :
    ConnInv branch now (c.op now) := by
  unfold Conn.op IdleConn.updateDeadline
  split
  · rename_i hmove
    exact h.op_moved hnow hmove
  · rename_i hkeep
    exact h.op_kept hnow (by omega)

/-! ## When a connection is armed -/

/-- Activity is the start or a recent read or write, and not before the last move. -/
theorem ConnInv.active_bounds (h : ConnInv branch clock c) {started : Int}
    (hstarted : c.startedAt = some started) :
    started ≤ c.active started ∧
      (c.active started = started ∨
        4 * c.active started ≤ 4 * c.idle.lastUpdated + c.idle.timeout) ∧
      (c.Refreshed → c.idle.lastUpdated ≤ c.active started) ∧
      max started c.idle.lastUpdated ≤ c.active started := by
  have hcreated := (h.startedAt started hstarted).1
  unfold Conn.active
  cases hops : c.ops with
  | nil =>
      have hnot : ¬ c.Refreshed := by
        intro ⟨t, ht, _⟩
        rw [hops] at ht
        cases ht
      have hlast := h.unrefreshed hnot
      refine ⟨?_, Or.inl ?_, fun href => absurd href hnot, ?_⟩
      · exact Int.le_max_left ..
      · exact Int.max_self started
      · simp only [List.head?_nil, Option.getD_none]
        omega
  | cons t ops =>
      have hrecent := h.recent t (by rw [hops]; rfl)
      simp only [List.head?_cons, Option.getD_some]
      omega

theorem ConnInv.armed_of_slow (h : ConnInv .slow clock c) : c.Armed := by
  intro started hstarted
  have hbounds := h.active_bounds hstarted
  refine ⟨_, h.slow rfl started hstarted, ?_⟩
  omega

theorem ConnInv.armed_iff_of_noZeroCopy (h : ConnInv .noZeroCopyRelay clock c)
    (hstarted : c.startedAt.isSome) : c.Armed ↔ c.RefreshedInTime := by
  rcases Option.isSome_iff_exists.mp hstarted with ⟨started, hstarted⟩
  have hbounds := h.active_bounds hstarted
  constructor
  · intro harmed
    rcases harmed started hstarted with ⟨d, hd, hlow, -⟩
    have hrefreshed : c.Refreshed := by
      by_contra hnot
      rw [(h.noZeroCopy rfl).2 hnot] at hd
      cases hd
    refine ⟨hrefreshed, ?_⟩
    intro started' hstarted'
    cases hstarted.symm.trans hstarted'
    rw [(h.noZeroCopy rfl).1 hrefreshed] at hd
    cases hd
    omega
  · intro ⟨hrefreshed, hstart⟩ started' hstarted'
    cases hstarted.symm.trans hstarted'
    have hle := hstart started hstarted
    have hlast := hbounds.2.2.1 hrefreshed
    refine ⟨_, (h.noZeroCopy rfl).1 hrefreshed, ?_⟩
    omega

end Connections

/-! ## The relay -/

def Inv (branch : Branch) (s : State) : Prop := ∀ side, ConnInv branch s.clock (s.conns side)

theorem inv_start (branch : Branch) (timeout : Nat) (now : Int) (later : Nat) :
    Inv branch (start timeout now later) := by
  intro side
  cases side with
  | left => exact connInv_new branch timeout (by show now ≤ now + later; omega)
  | right => exact connInv_new branch timeout (Int.le_refl _)

theorem Inv.set {branch : Branch} {s : State} {side : Side} {c : Conn} {now : Int}
    (h : Inv branch s) (hnow : s.clock ≤ now) (hc : ConnInv branch now c) :
    Inv branch (s.set side c now) := by
  intro side'
  by_cases hside : side' = side
  · subst hside
    show ConnInv branch now (Function.update s.conns side' c side')
    rwa [Function.update_self]
  · show ConnInv branch now (Function.update s.conns side c side')
    rw [Function.update_of_ne hside]
    exact (h side').mono hnow

theorem inv_step {branch : Branch} {s t : State} {a : Action} (h : Inv branch s)
    (hstep : (system branch).step s a = some t) : Inv branch t := by
  cases a with
  | start dst now =>
      simp only [system] at hstep
      split at hstep
      · rename_i hguard
        cases hstep
        exact h.set hguard.1 ((h dst).start hguard.1)
      · cases hstep
  | op side now =>
      simp only [system] at hstep
      split at hstep
      · rename_i hguard
        cases hstep
        exact h.set hguard ((h side).op hguard)
      · cases hstep

theorem Inv.armed_iff {branch : Branch} {s : State} (h : Inv branch s) :
    ArmedOnceStarted s ↔ RefreshedOnceStarted branch s := by
  unfold ArmedOnceStarted RefreshedOnceStarted
  refine forall_congr' fun hstarted => ?_
  cases branch with
  | slow => exact iff_of_true (fun side => (h side).armed_of_slow) (Or.inl rfl)
  | noZeroCopyRelay =>
      have hiff : (∀ side, (s.conns side).Armed) ↔ ∀ side, (s.conns side).RefreshedInTime :=
        forall_congr' fun side => (h side).armed_iff_of_noZeroCopy (hstarted side)
      rw [hiff, or_iff_right (by decide)]

theorem inv_always (branch : Branch) (timeout : Nat) (now : Int) (later : Nat) (as : List Action) :
    (system branch).Always (Inv branch) (start timeout now later) as :=
  (system branch).always_of_step (fun _ _ _ h hstep => inv_step h hstep) as
    (inv_start branch timeout now later)

/-- With `zeroCopy` every copy in user space is the slow branch, which arms both. -/
theorem armed_of_zeroCopy {leftIsTCP rightIsTCP : Bool} {branch : Branch}
    (hbranch : branchOf true leftIsTCP rightIsTCP = some branch) (timeout : Nat) (now : Int)
    (later : Nat) (as : List Action) :
    (system branch).Always ArmedOnceStarted (start timeout now later) as := by
  have hslow : branch = .slow := by
    simp only [branchOf, Bool.not_true, Bool.false_eq_true, if_false] at hbranch
    split at hbranch
    · cases hbranch
    · cases hbranch
      rfl
  apply (inv_always branch timeout now later as).mono
  intro s h
  exact h.armed_iff.mpr fun _ => Or.inl hslow

/-- Once both loops have started both connections have their deadline within the bounds in
the slow branch, whatever is read and written and when. In `noZeroCopyRelay` they have it
exactly if each connection has been refreshed in time. -/
theorem relay_armed_iff (branch : Branch) (timeout : Nat) (now : Int) (later : Nat)
    (as : List Action) :
    (system branch).Always ArmedOnceStarted (start timeout now later) as ↔
      (system branch).Always (RefreshedOnceStarted branch) (start timeout now later) as := by
  have hinv := inv_always branch timeout now later as
  exact System.Always.congr _ (fun s h => h.armed_iff) hinv

def idleTimeout : Nat := 300 * 1000000000

/-- Both loops of `noZeroCopyRelay` run, and nothing is ever sent. -/
theorem noZeroCopyRelay_sets_no_deadline :
    ∃ s, (system .noZeroCopyRelay).run (start idleTimeout 0 0) [.start .right 0, .start .left 0] =
        some s ∧ (s.conns .left).idle.deadline = none ∧ ¬ ArmedOnceStarted s := by
  refine ⟨_, rfl, rfl, ?_⟩
  intro harmed
  rcases harmed (fun side => by cases side <;> rfl) .left 0 rfl with ⟨d, hd, -⟩
  cases hd

end RuleBaseProxy.Tunnel.Idle
