import RuleBaseProxy.Lib.Transition
import RuleBaseProxy.Rule.Basic

/-! # Connection trackers

A tracker is joined to the manager before its connection is dialed, with a nil
`Conn`, and gets the connection when the dial returns. Meanwhile the API may
take a snapshot of the manager and call `Close` on what it finds there. Each
action is one such call or one stretch of a handler that others can observe;
a call of `Close` is one action.
-/

namespace RuleBaseProxy.Statistic

open Go Go.Net TransitionSystem

/-- The connection to the remote side, in the field `Conn` or `PacketConn`. -/
inductive Remote where
  | absent
  | opened
  | closed
deriving DecidableEq

def Remote.close : Remote → Remote
  | .absent => .absent
  | _ => .closed

inductive Phase where
  /-- Joined by `NewTCPTracker` or `NewUDPTracker`; the caller joins it again. -/
  | created
  | queued
  | disp
  | preh
  | mdns
  | dialing
  /-- Holds the dialed connection, before `relay` or the UDP reader. -/
  | attached
  | relaying
  /-- A `Close` of the handler is still to come. -/
  | closing
  | done
deriving DecidableEq

def Phase.pending : Phase → Bool
  | .created | .queued | .disp | .preh | .mdns | .dialing => true
  | _ => false

/-- A `tcpTracker` or a `udpTracker`, by its `netWork`. -/
structure Tracker where
  netWork : NetWork
  metadata : Metadata
  chain : List Str
  markGC : Bool
  conn : Remote
  phase : Phase
  /-- The API has called `Close` on it. -/
  apiClosed : Bool
  /-- The API had done so when the connection began to relay. -/
  startedClosed : Bool
deriving DecidableEq

def Tracker.isError (t : Tracker) : Bool := t.chain.getLast? == some (str "ERROR")

/-- `tcpTracker.Close` and `udpTracker.Close`: the tracker afterwards, and whether
it leaves the manager. -/
def Tracker.close (t : Tracker) : Tracker × Bool :=
  if t.isError && !t.markGC then ({ t with markGC := true }, false)
  else ({ t with conn := t.conn.close }, true)

/-- `NewTCPTracker` as `NewConnContext` calls it, and `NewUDPTracker` with the
proxy that was found for the metadata. -/
def Tracker.new (m : Metadata) (proxy : Str) : Tracker where
  netWork := m.netWork
  metadata := m
  chain := if m.netWork = .TCP then [str "INIT"] else [str "PRELOAD", proxy]
  markGC := false
  conn := .absent
  phase := .created
  apiClosed := false
  startedClosed := false

inductive Closer where
  /-- `closeConnection`. -/
  | connection (id : Nat)
  /-- `closeAllConnections`. -/
  | all
  /-- `CloseRuleMatchCon`. -/
  | ruleMatch (rule : Rule)
  /-- `updateProxy` of the selector with that name. -/
  | proxy (name : Str)

def Closer.selects (env : Env) (id : Nat) (t : Tracker) : Closer → Bool
  | .connection id' => id' == id
  | .all => true
  | .ruleMatch rule => rule.isMatch env t.metadata
  | .proxy name => t.chain.contains name

/-- An API call, with what it has not yet looked at of its snapshot. -/
structure Call where
  closer : Closer
  rest : List Nat

structure State where
  trackers : Nat → Option Tracker
  /-- `Manager.connections`, by the ids of the trackers. -/
  connections : List Nat
  calls : Nat → Option Call

def State.init : State := ⟨fun _ => none, [], fun _ => none⟩

def State.setTracker (s : State) (id : Nat) (t : Tracker) : State :=
  { s with trackers := Function.update s.trackers id (some t) }

def State.join (s : State) (id : Nat) : State :=
  { s with connections := id :: s.connections.filter (· != id) }

def State.leave (s : State) (id : Nat) : State :=
  { s with connections := s.connections.filter (· != id) }

/-- `Close` is called on tracker `id`, which is `t`. -/
def State.close (s : State) (id : Nat) (t : Tracker) : State :=
  if t.close.2 then (s.leave id).setTracker id t.close.1 else s.setTracker id t.close.1

/-- `Dial_type`, by the address type that was dialed. -/
def dialType (addrType : Int) : Str :=
  if addrType = atypIPv4 ∨ addrType = atypIPv6 then str "Dial-IP"
  else if addrType = atypDomainName then str "Dial-Domain"
  else str "Dial-Unkown"

/-- The chain that `handleTCPConn` sets before it dials. -/
def dialChain (rule : Option (Str × Str)) (proxy : Str) : List Str :=
  match rule with
  | some (type, payload) => [type, payload, proxy, str "DAIL", str "TRACE"]
  | none => [proxy, str "DAIL", str "TRACE"]

def errorChain (netWork : NetWork) (rule : Option (Str × Str)) (proxy error : Str) : List Str :=
  match netWork, rule with
  | .UDP, _ => [error, str "ERROR", proxy]
  | .TCP, some (type, payload) => [proxy, type, payload, error, str "ERROR"]
  | .TCP, none => [proxy, error, str "ERROR"]

/-- The chain after a dial through `proxy` and the groups it was reached by. -/
def connChain (netWork : NetWork) (proxy : Str) (groups : List Str) (addrType : Int) : List Str :=
  match netWork with
  | .UDP => proxy :: groups
  | .TCP => proxy :: groups ++ [dialType addrType]

/-- What `handleTCPConn`, or `handleUDPConn` and the reader it starts, does next. -/
inductive HandlerAction where
  | rejoin
  | dispatch
  | preHandle (m : Metadata)
  | resolve
  | reject
  | dial (m : Metadata) (rule : Option (Str × Str)) (proxy : Str)
  | dialFailed (rule : Option (Str × Str)) (proxy error : Str)
  | attach (proxy : Str) (groups : List Str) (addrType : Int)
  /-- The relay or the reader starts; the circuit breaker may end it at once. -/
  | relay (admitted : Bool)
  /-- One direction of the relay has ended, or a UDP write has failed. -/
  | shut
  | finish
  | close

inductive Action where
  | join (id : Nat) (m : Metadata) (proxy : Str)
  | handler (id : Nat) (a : HandlerAction)
  | snapshot (call : Nat) (closer : Closer)
  /-- It looks at one tracker of the snapshot and closes it if it is meant. -/
  | apiClose (call id : Nat)
  /-- `end_errors_conn` comes across a tracker. -/
  | gc (id : Nat)

def handlerStep (s : State) (id : Nat) (t : Tracker) : HandlerAction → Option State
  | .rejoin =>
      if t.phase = .created then
        let next := if t.netWork = .TCP then .queued else .dialing
        some ((s.join id).setTracker id { t with phase := next })
      else none
  | .dispatch =>
      if t.phase = .queued then
        some (s.setTracker id { t with phase := .disp, chain := [str "DISP", str "TRACE"] })
      else none
  | .preHandle m =>
      if t.phase = .disp then
        some (s.setTracker id
          { t with phase := .preh, metadata := m, chain := [str "PREH", str "TRACE"] })
      else none
  | .resolve =>
      if t.phase = .preh then
        some (s.setTracker id { t with phase := .mdns, chain := [str "MDNS", str "TRACE"] })
      else none
  | .reject =>
      if t.phase = .disp ∨ t.phase = .preh ∨ t.phase = .mdns then
        some (s.setTracker id { t with phase := .closing })
      else none
  | .dial m rule proxy =>
      if t.phase = .mdns then
        some (s.setTracker id
          { t with phase := .dialing, metadata := m, chain := dialChain rule proxy })
      else none
  | .dialFailed rule proxy error =>
      if t.phase = .dialing then
        some (s.setTracker id
          { t with phase := .closing, chain := errorChain t.netWork rule proxy error })
      else none
  | .attach proxy groups addrType =>
      if t.phase = .dialing then
        some (s.setTracker id
          { t with phase := .attached, conn := .opened,
                   chain := connChain t.netWork proxy groups addrType })
      else none
  | .relay admitted =>
      if t.phase = .attached then
        if admitted then
          some (s.setTracker id
            { t with phase := .relaying, startedClosed := t.apiClosed && t.conn == .opened })
        else some (s.setTracker id { t with phase := .closing })
      else none
  | .shut =>
      if t.phase = .relaying ∨ t.phase = .attached ∧ t.netWork = .UDP then some (s.close id t)
      else none
  | .finish =>
      if t.phase = .relaying then some (s.close id { t with phase := .closing }) else none
  | .close =>
      if t.phase = .closing then some (s.close id { t with phase := .done }) else none

def step (env : Env) (s : State) : Action → Option State
  | .join id m proxy =>
      match s.trackers id with
      | some _ => none
      | none => some ((s.join id).setTracker id (.new m proxy))
  | .handler id a => (s.trackers id).bind fun t => handlerStep s id t a
  | .snapshot call closer =>
      match s.calls call with
      | some _ => none
      | none => some { s with calls := Function.update s.calls call (some ⟨closer, s.connections⟩) }
  | .apiClose call id =>
      match s.calls call, s.trackers id with
      | some c, some t =>
          if id ∈ c.rest then
            let s := { s with calls := Function.update s.calls call (some ⟨c.closer, c.rest.erase id⟩) }
            if c.closer.selects env id t then some (s.close id { t with apiClosed := true })
            else some s
          else none
      | _, _ => none
  | .gc id =>
      (s.trackers id).bind fun t =>
        if id ∈ s.connections then some (if t.isError then s.close id t else s) else none

def system (env : Env) : System State Action := ⟨step env⟩

/-! ## Relaying connections are in the manager -/

def Tracker.relays (t : Tracker) : Bool := t.phase == .relaying && t.conn == .opened

/-- Every connection that relays is in the manager, and none began to after the
API had called `Close` on it. -/
def Controllable (s : State) : Prop :=
  ∀ id t, s.trackers id = some t → t.relays = true → id ∈ s.connections ∧ t.startedClosed = false

/-- The API calls `Close` on no tracker whose dial has not returned. Besides, no
proxy or group that a UDP connection goes through has the name that marks a
chain as failed. -/
def ClosesDialed (env : Env) (s : State) : Action → Prop
  | .join _ m proxy => m.netWork = .UDP → proxy ≠ str "ERROR"
  | .handler id (.attach proxy groups _) => ∀ t, s.trackers id = some t → t.netWork = .UDP →
      (proxy :: groups).getLast? ≠ some (str "ERROR")
  | .apiClose call id => ∀ c t, s.calls call = some c → s.trackers id = some t →
      c.closer.selects env id t = true → t.phase.pending = false
  | _ => True

/-- The connection relays, or will if its handler goes on. -/
def Tracker.mayRelay (t : Tracker) : Bool :=
  t.phase.pending || (t.phase == .attached || t.phase == .relaying) && t.conn == .opened

structure Tracker.Fits (connections : List Nat) (id : Nat) (t : Tracker) : Prop where
  joined : t.mayRelay = true → id ∈ connections
  unclosed : t.mayRelay = true → t.phase ≠ .relaying → t.apiClosed = false
  started : t.startedClosed = false
  noError : t.phase.pending = true ∨ t.phase = .attached → t.isError = false

def Tracked (s : State) : Prop := ∀ id t, s.trackers id = some t → t.Fits s.connections id

theorem tracked_init : Tracked .init := fun _ _ h => (nomatch h)

theorem Tracker.mayRelay_of_pending {t : Tracker} (h : t.phase.pending = true) :
    t.mayRelay = true := by
  simp [mayRelay, h]

theorem Tracker.attached_of_mayRelay {t : Tracker} (h : t.mayRelay = true)
    (hpending : t.phase.pending = false) (hphase : t.phase ≠ .relaying) : t.phase = .attached := by
  simp only [mayRelay, hpending, Bool.false_or, Bool.and_eq_true, Bool.or_eq_true, beq_iff_eq] at h
  exact h.1.resolve_right hphase

theorem Tracked.controllable {s : State} (h : Tracked s) : Controllable s := by
  intro id t ht hrelays
  refine ⟨(h id t ht).joined ?_, (h id t ht).started⟩
  simp only [Tracker.relays, Bool.and_eq_true, beq_iff_eq] at hrelays
  simp [Tracker.mayRelay, hrelays]

variable {s s' : State} {id : Nat} {t t' : Tracker}

theorem trackers_setTracker {id' : Nat} (h : (s.setTracker id t).trackers id' = some t') :
    id' = id ∧ t' = t ∨ id' ≠ id ∧ s.trackers id' = some t' := by
  rcases eq_or_of_update h with ⟨hid, heq⟩ | hold
  · exact Or.inl ⟨hid, (Option.some.inj heq).symm⟩
  · exact Or.inr hold

theorem Tracker.Fits.mono {connections connections' : List Nat} (h : t.Fits connections id)
    (hsub : id ∈ connections → id ∈ connections') : t.Fits connections' id :=
  ⟨fun hm => hsub (h.joined hm), h.unclosed, h.started, h.noError⟩

/-- A tracker is replaced, and the manager changes at most at its id. -/
theorem Tracked.set (h : Tracked s) {connections : List Nat}
    (hsame : ∀ id', id' ≠ id → id' ∈ s.connections → id' ∈ connections)
    (hfits : t.Fits connections id) :
    Tracked ({ s with connections := connections }.setTracker id t) := by
  intro id' t' ht'
  rcases trackers_setTracker ht' with ⟨rfl, rfl⟩ | ⟨hne, ht'⟩
  · exact hfits
  · exact (h id' t' ht').mono (hsame id' hne)

theorem Tracked.setTracker (h : Tracked s) (hfits : t.Fits s.connections id) :
    Tracked (s.setTracker id t) :=
  h.set (fun _ _ hmem => hmem) hfits

theorem Tracker.Fits.of_pending {connections : List Nat} (h : t.Fits connections id)
    (hpending : t.phase.pending = true) (hapi : t'.apiClosed = t.apiClosed)
    (hstarted : t'.startedClosed = t.startedClosed) (hno : t'.isError = false) :
    t'.Fits connections id where
  joined := fun _ => h.joined (mayRelay_of_pending hpending)
  unclosed := fun _ _ => by
    rw [hapi]
    refine h.unclosed (mayRelay_of_pending hpending) fun hphase => ?_
    simp [hphase, Phase.pending] at hpending
  started := hstarted.trans h.started
  noError := fun _ => hno

theorem Tracker.Fits.of_ended {connections : List Nat} (hphase : t.phase = .closing ∨ t.phase = .done)
    (hstarted : t.startedClosed = false) : t.Fits connections id := by
  have hmay : t.mayRelay = false := by
    rcases hphase with hphase | hphase <;> simp [mayRelay, hphase, Phase.pending]
  refine ⟨fun h => by simp [hmay] at h, fun h => by simp [hmay] at h, hstarted, fun h => ?_⟩
  rcases hphase with hphase | hphase <;> simp [hphase, Phase.pending] at h

theorem Tracked.close (h : Tracked s) (hpending : t.phase.pending = false)
    (hstarted : t.startedClosed = false) (hno : t.phase = .attached → t.isError = false)
    (hfits : t.isError = true → t.Fits s.connections id) : Tracked (s.close id t) := by
  unfold State.close Tracker.close
  split
  · rename_i hmark
    have herror : t.isError = true := (Bool.and_eq_true_iff.mp hmark).1
    obtain ⟨hjoined, hunclosed, -, hno'⟩ := hfits herror
    exact h.setTracker ⟨hjoined, hunclosed, hstarted, hno'⟩
  · have hclosed : t.conn.close ≠ .opened := by cases t.conn <;> nofun
    have hmay : Tracker.mayRelay { t with conn := t.conn.close } = false := by
      simp [Tracker.mayRelay, hpending, hclosed]
    refine h.set (fun id' hne hmem => by simp [hmem, hne]) ⟨?_, ?_, hstarted, ?_⟩
    · exact fun hm => by simp [hmay] at hm
    · exact fun hm => by simp [hmay] at hm
    · exact fun hp => hno (hp.resolve_left (by simp [hpending]))

theorem isError_dialChain (rule : Option (Str × Str)) (proxy : Str) :
    Tracker.isError { t with chain := dialChain rule proxy } = false := by
  cases rule <;> rfl

theorem dialType_ne_error (addrType : Int) : dialType addrType ≠ str "ERROR" := by
  unfold dialType
  split
  · decide
  · split <;> decide

theorem isError_connChain {proxy : Str} {groups : List Str} (addrType : Int)
    (hname : t.netWork = .UDP → (proxy :: groups).getLast? ≠ some (str "ERROR")) :
    Tracker.isError { t with chain := connChain t.netWork proxy groups addrType } = false := by
  cases hnet : t.netWork with
  | TCP =>
      have hlast : (connChain .TCP proxy groups addrType).getLast? = some (dialType addrType) :=
        List.getLast?_concat
      simp [Tracker.isError, hlast, dialType_ne_error]
  | UDP => simpa [Tracker.isError, connChain] using hname hnet

theorem Tracked.relay (h : Tracked s) (ht : s.trackers id = some t) (hphase : t.phase = .attached) :
    Tracked (s.setTracker id
      { t with phase := .relaying, startedClosed := t.apiClosed && t.conn == .opened }) := by
  have hfits := h id t ht
  have hmay : t.conn = .opened → t.mayRelay = true := fun hconn => by
    simp [Tracker.mayRelay, hphase, hconn]
  refine h.setTracker ⟨fun hm => hfits.joined (hmay ?_), fun _ hp => absurd rfl hp, ?_, nofun⟩
  · simpa [Tracker.mayRelay, Phase.pending] using hm
  · by_cases hconn : t.conn = .opened
    · simp [hfits.unclosed (hmay hconn) (by simp [hphase])]
    · simp [hconn]

theorem Tracked.handlerStep {env : Env} (h : Tracked s) (ht : s.trackers id = some t)
    {a : HandlerAction} (hg : ClosesDialed env s (.handler id a))
    (hs : handlerStep s id t a = some s') : Tracked s' := by
  have hfits := h id t ht
  cases a with
  | rejoin =>
      obtain ⟨hphase, ⟨⟩⟩ := Option.ite_none_right_eq_some.mp hs
      have hpending : t.phase.pending = true := by rw [hphase]; rfl
      refine h.set (fun id' hne hmem => by simp [hmem, hne]) ?_
      exact (hfits.mono fun _ => List.mem_cons_self).of_pending hpending rfl rfl
        (hfits.noError (Or.inl hpending))
  | dispatch | preHandle _ | resolve =>
      obtain ⟨hphase, ⟨⟩⟩ := Option.ite_none_right_eq_some.mp hs
      exact h.setTracker (hfits.of_pending (by rw [hphase]; rfl) rfl rfl rfl)
  | reject | dialFailed _ _ _ =>
      obtain ⟨hphase, ⟨⟩⟩ := Option.ite_none_right_eq_some.mp hs
      exact h.setTracker (.of_ended (Or.inl rfl) hfits.started)
  | dial m rule proxy =>
      obtain ⟨hphase, ⟨⟩⟩ := Option.ite_none_right_eq_some.mp hs
      exact h.setTracker
        (hfits.of_pending (by rw [hphase]; rfl) rfl rfl (isError_dialChain (t := t) rule proxy))
  | attach proxy groups addrType =>
      obtain ⟨hphase, ⟨⟩⟩ := Option.ite_none_right_eq_some.mp hs
      refine h.setTracker (hfits.of_pending (by rw [hphase]; rfl) rfl rfl ?_)
      exact isError_connChain (t := t) addrType (hg t ht)
  | relay admitted =>
      obtain ⟨hphase, hs⟩ := Option.ite_none_right_eq_some.mp hs
      cases admitted with
      | true =>
          cases hs
          exact h.relay ht hphase
      | false =>
          cases hs
          exact h.setTracker (.of_ended (Or.inl rfl) hfits.started)
  | shut =>
      obtain ⟨hphase, ⟨⟩⟩ := Option.ite_none_right_eq_some.mp hs
      refine h.close ?_ hfits.started (fun hp => hfits.noError (Or.inr hp)) (fun _ => hfits)
      rcases hphase with hphase | ⟨hphase, -⟩ <;> rw [hphase] <;> rfl
  | finish =>
      obtain ⟨hphase, ⟨⟩⟩ := Option.ite_none_right_eq_some.mp hs
      exact h.close rfl hfits.started nofun (fun _ => .of_ended (Or.inl rfl) hfits.started)
  | close =>
      obtain ⟨hphase, ⟨⟩⟩ := Option.ite_none_right_eq_some.mp hs
      exact h.close rfl hfits.started nofun (fun _ => .of_ended (Or.inr rfl) hfits.started)

theorem Tracker.Fits.new {connections : List Nat} {m : Metadata} {proxy : Str}
    (hname : m.netWork = .UDP → proxy ≠ str "ERROR") :
    (Tracker.new m proxy).Fits (id :: connections) id := by
  refine ⟨fun _ => List.mem_cons_self, fun _ _ => rfl, rfl, fun _ => ?_⟩
  cases hnet : m.netWork with
  | TCP =>
      have hinit : [str "INIT"].getLast? ≠ some (str "ERROR") := by decide
      simpa [Tracker.isError, Tracker.new, hnet] using hinit
  | UDP => simpa [Tracker.isError, Tracker.new, hnet] using hname hnet

theorem Tracked.apiClose (h : Tracked s) (ht : s.trackers id = some t)
    (hpending : t.phase.pending = false) : Tracked (s.close id { t with apiClosed := true }) := by
  have hfits := h id t ht
  have hno : t.phase = .attached → t.isError = false := fun hp => hfits.noError (Or.inr hp)
  refine h.close hpending hfits.started hno fun herror =>
    ⟨hfits.joined, fun hmay hphase => ?_, hfits.started, hfits.noError⟩
  have hattached : t.phase = .attached := Tracker.attached_of_mayRelay hmay hpending hphase
  have herror : t.isError = true := herror
  rw [hno hattached] at herror
  cases herror

theorem Tracked.gc (h : Tracked s) (ht : s.trackers id = some t) (herror : t.isError = true) :
    Tracked (s.close id t) := by
  have hfits := h id t ht
  refine h.close ?_ hfits.started (fun hp => hfits.noError (Or.inr hp)) (fun _ => hfits)
  by_contra hpending
  have hno := hfits.noError (Or.inl (by simpa using hpending))
  rw [herror] at hno
  cases hno

theorem tracked_step {env : Env} {a : Action} (h : Tracked s) (hg : ClosesDialed env s a)
    (hs : (system env).step s a = some s') : Tracked s' := by
  cases a with
  | join id m proxy =>
      simp only [system, step] at hs
      split at hs
      · cases hs
      · cases hs
        exact h.set (fun id' hne hmem => by simp [hmem, hne]) (.new hg)
  | handler id a =>
      obtain ⟨t, ht, hs⟩ := Option.bind_eq_some_iff.mp hs
      exact h.handlerStep ht hg hs
  | snapshot call closer =>
      simp only [system, step] at hs
      split at hs <;> cases hs
      exact h
  | apiClose call id =>
      simp only [system, step] at hs
      split at hs
      · rename_i c t hc ht
        obtain ⟨-, hs⟩ := Option.ite_none_right_eq_some.mp hs
        split at hs <;> cases hs
        · rename_i hsel
          exact Tracked.apiClose (s := { s with calls := _ }) h ht (hg c t hc ht hsel)
        · exact h
      · cases hs
  | gc id =>
      obtain ⟨t, ht, hs⟩ := Option.bind_eq_some_iff.mp hs
      obtain ⟨-, ⟨⟩⟩ := Option.ite_none_right_eq_some.mp hs
      split
      · rename_i herror
        exact h.gc ht herror
      · exact h

/-- In a run in which the API closes no connection before its dial has returned,
every connection that relays is in the manager, and none starts to relay after
the API has closed it. -/
theorem controllable_of_closesDialed (env : Env) (as : List Action)
    (hg : (system env).Guarded (ClosesDialed env) .init as) :
    (system env).Always Controllable .init as := by
  have htracked : (system env).Always Tracked .init as :=
    System.always_of_guarded _ (fun _ _ _ h hg hs => tracked_step h hg hs) tracked_init hg
  exact htracked.mono _ fun _ h => h.controllable

def tcpMetadata : Metadata :=
  ⟨.TCP, .SOCKS5, some (.v4 10 0 0 1), some (.v4 1 1 1 1), str "1234",
    str "443", atypIPv4, []⟩

/-- Connection 0 is accepted and about to be dialed through `B`. -/
def dialB : List Action :=
  [.join 0 tcpMetadata [], .handler 0 .rejoin, .handler 0 .dispatch,
    .handler 0 (.preHandle tcpMetadata), .handler 0 .resolve,
    .handler 0 (.dial tcpMetadata (some (str "MATCH", [])) (str "B"))]

/-- The connection is attached, relays, and is closed by a rule that matches it. -/
theorem controllable_closed_while_relaying :
    (system Env.bare).Always Controllable .init
      (dialB ++ [.handler 0 (.attach (str "B") [] atypIPv4), .handler 0 (.relay true),
        .snapshot 0 (.ruleMatch (.final (str "B") false)), .apiClose 0 0, .handler 0 .finish,
        .handler 0 .close]) := by
  refine controllable_of_closesDialed Env.bare _ ?_
  refine .cons _ rfl nofun (.cons _ rfl trivial (.cons _ rfl trivial (.cons _ rfl trivial ?_)))
  refine .cons _ rfl trivial (.cons _ rfl trivial (.cons _ rfl ?_ (.cons _ rfl trivial ?_)))
  · rintro t ⟨⟩
    nofun
  refine .cons _ rfl trivial (.cons _ rfl ?_ (.cons _ rfl trivial (.cons _ rfl trivial trivial)))
  rintro c t ⟨⟩ ⟨⟩ _
  rfl

/-- A rule that matches the connection closes it while it is being dialed: it
leaves the manager, and then relays all the same. -/
theorem closed_while_dialing_relays :
    ¬ (system Env.bare).Always Controllable .init
      (dialB ++ [.snapshot 0 (.ruleMatch (.final (str "B") false)), .apiClose 0 0,
        .handler 0 (.attach (str "B") [] atypIPv4), .handler 0 (.relay true)]) := by
  refine System.not_always_of_run _ ⟨_, rfl, fun h => ?_⟩
  have hmem := (h 0 ⟨.TCP, tcpMetadata, [str "B", str "Dial-IP"], false, .opened, .relaying, true,
    true⟩ rfl rfl).1
  cases hmem

end RuleBaseProxy.Statistic
