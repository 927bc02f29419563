import RuleBaseProxy.Lib.HostPort
import RuleBaseProxy.Lib.Transition

/-! # The listeners of the package

Nine variables hold the listeners that serve the inbound ports. A `ReCreate`
function closes what listens on another address and binds the new one; the TCP
and the UDP side can fail on their own. `GetPorts` reads the ports off the
variables.
-/

namespace RuleBaseProxy.ReCreate

open Go Go.Net TransitionSystem

inductive Var where
  | http
  | socks
  | socksUDP
  | redir
  | redirUDP
  | tproxy
  | tproxyUDP
  | mixed
  | mixedUDP
  deriving DecidableEq

structure Listener where
  id : Nat
  /-- `RawAddress`: what it was made with. -/
  addr : Str
  /-- `Address`: what it is bound to. -/
  bound : Str
  deriving DecidableEq

structure State where
  allowLan : Bool
  bindAddress : Str
  listeners : Var → Option Listener
  /-- The listeners that have not been closed, by number. -/
  isOpen : Nat → Bool
  next : Nat

def start : State := ⟨false, str "*", fun _ => none, fun _ => false, 0⟩

/-- What a call of `New` or `NewUDP` comes to: an error, or the address it is bound to. All
of them return a nil listener with an error. -/
abbrev Bind := Except Str Str

def genAddr (host : Str) (port : Int) (allowLan : Bool) : Str :=
  if allowLan then
    if host = str "*" then 58 :: itoa port else host ++ 58 :: itoa port
  else str "127.0.0.1:" ++ itoa port

def portIsZero (addr : Str) : Bool :=
  match splitHostPort addr with
  | none => true
  | some (_, port) => decide (port = str "0" ∨ port = [])

namespace State

/-- The variable is not nil and its listener was made with this address. -/
def holds (s : State) (v : Var) (addr : Str) : Bool := (s.listeners v).any (·.addr = addr)

def set (s : State) (v : Var) (l : Option Listener) : State :=
  { s with listeners := Function.update s.listeners v l }

def close (s : State) (l : Listener) : State :=
  { s with isOpen := Function.update s.isOpen l.id false }

/-- The variable is closed and set to nil, unless it is nil already. -/
def release (s : State) (v : Var) : State :=
  match s.listeners v with
  | none => s
  | some l => (s.close l).set v none

def made (s : State) (addr bound : Str) : Listener := ⟨s.next, addr, bound⟩

def bind (s : State) : State :=
  { s with isOpen := Function.update s.isOpen s.next true, next := s.next + 1 }

/-- `v, err = New(addr, in)`. -/
def assign (s : State) (v : Var) (addr : Str) : Bind → State
  | .error _ => s.set v none
  | .ok bound => s.bind.set v (some (s.made addr bound))

end State

/-! ## The functions -/

def reCreateHTTP (s : State) (port : Int) (tcp : Bind) : State × Option Str :=
  let addr := genAddr s.bindAddress port s.allowLan
  if s.holds .http addr then (s, none)
  else
    let s := s.release .http
    if portIsZero addr then (s, none)
    else
      match tcp with
      | .error err => (s.assign .http addr tcp, some err)
      | .ok _ => (s.assign .http addr tcp, none)

/-- `ReCreateSocks` keeps the new listeners to itself until both are bound. -/
def reCreateSocks (s : State) (port : Int) (tcp udp : Bind) : State × Option Str :=
  let addr := genAddr s.bindAddress port s.allowLan
  let shouldTCPIgnore := s.holds .socks addr
  let s := if shouldTCPIgnore then s else s.release .socks
  let shouldUDPIgnore := s.holds .socksUDP addr
  let s := if shouldUDPIgnore then s else s.release .socksUDP
  if shouldTCPIgnore && shouldUDPIgnore then (s, none)
  else if portIsZero addr then (s, none)
  else
    match tcp with
    | .error err => (s, some err)
    | .ok bound =>
        let tcpListener := s.made addr bound
        let s := s.bind
        match udp with
        | .error err => (s.close tcpListener, some err)
        | .ok bound =>
            let udpListener := s.made addr bound
            ((s.bind.set .socks (some tcpListener)).set .socksUDP (some udpListener), none)

/-- `ReCreateRedir` and `ReCreateTProxy`: a UDP side that cannot be bound is only logged. -/
def reCreatePair (tcpVar udpVar : Var) (s : State) (port : Int) (tcp udp : Bind) :
    State × Option Str :=
  let addr := genAddr s.bindAddress port s.allowLan
  if s.holds tcpVar addr then (s, none)
  else
    let s := s.release tcpVar
    if s.holds udpVar addr then (s, none)
    else
      let s := s.release udpVar
      if portIsZero addr then (s, none)
      else
        match tcp with
        | .error err => (s.assign tcpVar addr tcp, some err)
        | .ok _ => ((s.assign tcpVar addr tcp).assign udpVar addr udp, none)

def reCreateRedir : State → Int → Bind → Bind → State × Option Str := reCreatePair .redir .redirUDP

def reCreateTProxy : State → Int → Bind → Bind → State × Option Str :=
  reCreatePair .tproxy .tproxyUDP

/-- `ReCreateMixed` assigns the variables as it goes. Without the UDP side it closes the TCP
listener, and leaves it in its variable. -/
def reCreateMixed (s : State) (port : Int) (tcp udp : Bind) : State × Option Str :=
  let addr := genAddr s.bindAddress port s.allowLan
  let shouldTCPIgnore := s.holds .mixed addr
  let s := if shouldTCPIgnore then s else s.release .mixed
  let shouldUDPIgnore := s.holds .mixedUDP addr
  let s := if shouldUDPIgnore then s else s.release .mixedUDP
  if shouldTCPIgnore && shouldUDPIgnore then (s, none)
  else if portIsZero addr then (s, none)
  else
    match tcp with
    | .error err => (s.assign .mixed addr tcp, some err)
    | .ok bound =>
        let mixedListener := s.made addr bound
        let s := (s.assign .mixed addr tcp).assign .mixedUDP addr udp
        match udp with
        | .error err => (s.close mixedListener, some err)
        | .ok _ => (s, none)

/-- One of the ports of `GetPorts`; a variable that is nil leaves it zero. -/
def getPort (s : State) (v : Var) : Int :=
  match s.listeners v with
  | none => 0
  | some l => atoiValue (((splitHostPort l.bound).map (·.2)).getD [])

structure Ports where
  port : Int
  socksPort : Int
  redirPort : Int
  tproxyPort : Int
  mixedPort : Int

def getPorts (s : State) : Ports :=
  ⟨getPort s .http, getPort s .socks, getPort s .redir, getPort s .tproxy, getPort s .mixed⟩

inductive Action where
  | setAllowLan (al : Bool)
  | setBindAddress (host : Str)
  | reCreateHTTP (port : Int) (tcp : Bind)
  | reCreateSocks (port : Int) (tcp udp : Bind)
  | reCreateRedir (port : Int) (tcp udp : Bind)
  | reCreateTProxy (port : Int) (tcp udp : Bind)
  | reCreateMixed (port : Int) (tcp udp : Bind)

def apply (s : State) : Action → State
  | .setAllowLan al => { s with allowLan := al }
  | .setBindAddress host => { s with bindAddress := host }
  | .reCreateHTTP port tcp => (reCreateHTTP s port tcp).1
  | .reCreateSocks port tcp udp => (reCreateSocks s port tcp udp).1
  | .reCreateRedir port tcp udp => (reCreateRedir s port tcp udp).1
  | .reCreateTProxy port tcp udp => (reCreateTProxy s port tcp udp).1
  | .reCreateMixed port tcp udp => (reCreateMixed s port tcp udp).1

def system : System State Action := ⟨fun s a => some (apply s a)⟩

/-! ## What the variables should say -/

def AllOpen (s : State) : Prop := ∀ v l, s.listeners v = some l → s.isOpen l.id = true

def Served (s : State) (v : Var) (port : Int) : Prop :=
  port ≠ 0 → ∃ l, s.listeners v = some l ∧ s.isOpen l.id = true ∧
    port = atoiValue (((splitHostPort l.bound).map (·.2)).getD [])

/-- No closed listener stays registered, and no port is reported that nobody serves. -/
structure Honest (s : State) : Prop where
  allOpen : AllOpen s
  port : Served s .http (getPorts s).port
  socksPort : Served s .socks (getPorts s).socksPort
  redirPort : Served s .redir (getPorts s).redirPort
  tproxyPort : Served s .tproxy (getPorts s).tproxyPort
  mixedPort : Served s .mixed (getPorts s).mixedPort

theorem AllOpen.served {s : State} (h : AllOpen s) (v : Var) : Served s v (getPort s v) := by
  intro hport
  unfold getPort at hport ⊢
  cases hl : s.listeners v with
  | none =>
      rw [hl] at hport
      exact absurd rfl hport
  | some l => exact ⟨l, rfl, h v l hl, rfl⟩

theorem honest_iff {s : State} : Honest s ↔ AllOpen s :=
  ⟨fun h => h.allOpen, fun h => ⟨h, h.served _, h.served _, h.served _, h.served _, h.served _⟩⟩

/-- The variables hold different listeners, all of them made before. -/
structure Inv (s : State) : Prop where
  made : ∀ v l, s.listeners v = some l → l.id < s.next
  distinct : ∀ v w l l', s.listeners v = some l → s.listeners w = some l' → l.id = l'.id → v = w

structure Healthy (s : State) : Prop extends Inv s where
  allOpen : AllOpen s

/-! ## The parts of the functions -/

section Parts

variable {s : State} {v : Var} {l : Listener} {addr bound : Str}

theorem Healthy.clear (h : Healthy s) (v : Var) : Healthy (s.set v none) := by
  have hold : ∀ w l, (s.set v none).listeners w = some l → s.listeners w = some l := by
    intro w l hw
    rcases eq_or_of_update hw with ⟨-, heq⟩ | ⟨-, hw⟩
    · cases heq
    · exact hw
  refine ⟨⟨?_, ?_⟩, ?_⟩
  · intro w l hw
    exact h.made w l (hold w l hw)
  · intro w w' l l' hw hw' heq
    exact h.distinct w w' l l' (hold w l hw) (hold w' l' hw') heq
  · intro w l hw
    exact h.allOpen w l (hold w l hw)

theorem Healthy.close (h : Healthy s) (hnot : ∀ w l', s.listeners w = some l' → l'.id ≠ l.id) :
    Healthy (s.close l) := by
  refine ⟨⟨h.made, h.distinct⟩, ?_⟩
  intro w l' hw
  show Function.update s.isOpen l.id false l'.id = true
  rw [Function.update_of_ne (hnot w l' hw)]
  exact h.allOpen w l' hw

theorem Healthy.release (h : Healthy s) (v : Var) : Healthy (s.release v) := by
  unfold State.release
  cases hv : s.listeners v with
  | none => exact h
  | some l =>
      have hclear : Healthy (s.set v none) := h.clear v
      have hclose : Healthy ((s.set v none).close l) := by
        apply hclear.close
        intro w l' hw heq
        rcases eq_or_of_update hw with ⟨-, hnone⟩ | ⟨hne, hw⟩
        · cases hnone
        · exact hne (h.distinct w v l' l hw hv heq)
      exact hclose

theorem Healthy.bind (h : Healthy s) : Healthy s.bind := by
  refine ⟨⟨?_, h.distinct⟩, ?_⟩
  · intro w l hw
    exact Nat.lt_succ_of_lt (h.made w l hw)
  · intro w l hw
    have hlt := h.made w l hw
    show Function.update s.isOpen s.next true l.id = true
    rw [Function.update_of_ne (by omega)]
    exact h.allOpen w l hw

theorem Healthy.set (h : Healthy s) (hmade : l.id < s.next) (hopen : s.isOpen l.id = true)
    (hnew : ∀ w l', s.listeners w = some l' → l'.id ≠ l.id) : Healthy (s.set v (some l)) := by
  refine ⟨⟨?_, ?_⟩, ?_⟩
  · intro w l' hw
    rcases eq_or_of_update hw with ⟨-, heq⟩ | ⟨-, hw⟩
    · cases heq
      exact hmade
    · exact h.made w l' hw
  · intro w w' l' l'' hw hw' heq
    rcases eq_or_of_update hw with ⟨rfl, hl⟩ | ⟨-, hw₁⟩
    · cases hl
      rcases eq_or_of_update hw' with ⟨rfl, -⟩ | ⟨-, hw'₁⟩
      · rfl
      · exact absurd heq.symm (hnew w' l'' hw'₁)
    · rcases eq_or_of_update hw' with ⟨-, hl⟩ | ⟨-, hw'₁⟩
      · cases hl
        exact absurd heq (hnew w l' hw₁)
      · exact h.distinct w w' l' l'' hw₁ hw'₁ heq
  · intro w l' hw
    rcases eq_or_of_update hw with ⟨-, heq⟩ | ⟨-, hw⟩
    · cases heq
      exact hopen
    · exact h.allOpen w l' hw

theorem Healthy.bind_set (h : Healthy s) (v : Var) (addr bound : Str) :
    Healthy (s.bind.set v (some (s.made addr bound))) := by
  apply h.bind.set
  · exact Nat.lt_succ_self s.next
  · exact Function.update_self ..
  · intro w l' hw
    exact Nat.ne_of_lt (h.made w l' hw)

theorem Healthy.assign (h : Healthy s) (v : Var) (addr : Str) (bind : Bind) :
    Healthy (s.assign v addr bind) := by
  cases bind with
  | error err => exact h.clear v
  | ok bound => exact h.bind_set v addr bound

/-- What stays in the variable is on the right address; anything else is closed. -/
theorem Healthy.release_unless (h : Healthy s) (v : Var) (ignore : Bool) :
    Healthy (if ignore then s else s.release v) := by
  cases ignore with
  | true => exact h
  | false => exact h.release v

/-- Releasing one variable leaves the others as they are. -/
theorem holds_release_of_ne {w : Var} (hne : w ≠ v) (addr : Str) :
    (s.release v).holds w addr = s.holds w addr := by
  unfold State.holds State.release
  cases s.listeners v with
  | none => rfl
  | some l =>
      show (Function.update s.listeners v none w).any _ = _
      rw [Function.update_of_ne hne]

end Parts

/-! ## The functions keep the variables right -/

section Functions

variable {s : State}

theorem Healthy.reCreateHTTP (h : Healthy s) (port : Int) (tcp : Bind) :
    Healthy (reCreateHTTP s port tcp).1 := by
  unfold ReCreate.reCreateHTTP
  simp only
  split
  · exact h
  · have hrelease := h.release .http
    split
    · exact hrelease
    · cases tcp with
      | error err => exact hrelease.clear .http
      | ok bound => exact hrelease.assign .http _ (.ok bound)

theorem Healthy.reCreatePair (tcpVar udpVar : Var) (h : Healthy s) (port : Int) (tcp udp : Bind) :
    Healthy (reCreatePair tcpVar udpVar s port tcp udp).1 := by
  unfold ReCreate.reCreatePair
  simp only
  split
  · exact h
  · have htcp := h.release tcpVar
    split
    · exact htcp
    · have hudp := htcp.release udpVar
      split
      · exact hudp
      · cases tcp with
        | error err => exact hudp.clear tcpVar
        | ok bound => exact (hudp.assign tcpVar _ (.ok bound)).assign udpVar _ udp

theorem Healthy.set_both (h : Healthy s) (v w : Var) (addr bound bound' : Str) :
    Healthy ((s.bind.bind.set v (some (s.made addr bound))).set w
      (some (s.bind.made addr bound'))) := by
  have hopen : s.bind.bind.isOpen s.next = true := by
    show Function.update s.bind.isOpen (s.next + 1) true s.next = true
    rw [Function.update_of_ne (by omega)]
    exact Function.update_self ..
  have hfirst : Healthy (s.bind.bind.set v (some (s.made addr bound))) := by
    apply h.bind.bind.set
    · show s.next < s.next + 1 + 1
      omega
    · exact hopen
    · intro u l hu
      exact Nat.ne_of_lt (h.made u l hu)
  apply hfirst.set
  · exact Nat.lt_succ_self (s.next + 1)
  · exact Function.update_self ..
  · intro u l hu
    show l.id ≠ s.next + 1
    rcases eq_or_of_update hu with ⟨-, heq⟩ | ⟨-, hu⟩
    · cases heq
      exact Nat.ne_of_lt (Nat.lt_succ_self s.next)
    · have hlt : l.id < s.next := h.made u l hu
      omega

theorem Healthy.reCreateSocks (h : Healthy s) (port : Int) (tcp udp : Bind) :
    Healthy (reCreateSocks s port tcp udp).1 := by
  unfold ReCreate.reCreateSocks
  simp only
  have htcp := h.release_unless .socks (s.holds .socks (genAddr s.bindAddress port s.allowLan))
  generalize (if s.holds .socks (genAddr s.bindAddress port s.allowLan) = true then s
    else s.release .socks) = s₁ at htcp ⊢
  have hudp := htcp.release_unless .socksUDP
    (s₁.holds .socksUDP (genAddr s.bindAddress port s.allowLan))
  generalize (if s₁.holds .socksUDP (genAddr s.bindAddress port s.allowLan) = true then s₁
    else s₁.release .socksUDP) = s₂ at hudp ⊢
  split
  · exact hudp
  · split
    · exact hudp
    · cases tcp with
      | error err => exact hudp
      | ok bound =>
          cases udp with
          | error err =>
              apply hudp.bind.close
              intro w l hw
              exact Nat.ne_of_lt (hudp.made w l hw)
          | ok bound' => exact hudp.set_both ..

end Functions

/-! ## The mixed listener -/

/-- `ReCreateMixed` comes to bind its listeners: one of the two is not on this address yet,
and the port is not zero. -/
def MixedBinds (s : State) (port : Int) : Prop :=
  let addr := genAddr s.bindAddress port s.allowLan
  ¬ (s.holds .mixed addr = true ∧ s.holds .mixedUDP addr = true) ∧ portIsZero addr = false

/-- If the call binds the mixed TCP listener, it also binds the UDP one. -/
def BindsBoth (s : State) : Action → Prop
  | .reCreateMixed port tcp udp => MixedBinds s port → tcp.isOk = true → udp.isOk = true
  | _ => True

/-- The state in which `ReCreateMixed` binds its listeners. -/
def mixedReleased (s : State) (addr : Str) : State :=
  let s := if s.holds .mixed addr then s else s.release .mixed
  if s.holds .mixedUDP addr then s else s.release .mixedUDP

section Mixed

variable {s : State} {port : Int} {tcp udp : Bind}

theorem Healthy.mixedReleased (h : Healthy s) (addr : Str) : Healthy (mixedReleased s addr) :=
  (h.release_unless .mixed _).release_unless .mixedUDP _

theorem reCreateMixed_of_not_binds (h : ¬ MixedBinds s port) :
    (reCreateMixed s port tcp udp).1 =
      mixedReleased s (genAddr s.bindAddress port s.allowLan) := by
  unfold reCreateMixed mixedReleased
  unfold MixedBinds at h
  simp only at h ⊢
  generalize genAddr s.bindAddress port s.allowLan = addr at h ⊢
  by_cases hboth : s.holds .mixed addr = true ∧ s.holds .mixedUDP addr = true
  · rw [if_pos (by simp [hboth.1, hboth.2])]
  · have hzero : portIsZero addr = true := by
      cases hzero : portIsZero addr with
      | true => rfl
      | false => exact absurd ⟨hboth, hzero⟩ h
    rw [if_pos hzero, ite_self]

theorem reCreateMixed_of_binds (h : MixedBinds s port) :
    (reCreateMixed s port tcp udp).1 =
      let addr := genAddr s.bindAddress port s.allowLan
      let s := mixedReleased s addr
      match tcp with
      | .error _ => s.assign .mixed addr tcp
      | .ok bound =>
          let s' := (s.assign .mixed addr tcp).assign .mixedUDP addr udp
          match udp with
          | .error _ => s'.close (s.made addr bound)
          | .ok _ => s' := by
  unfold reCreateMixed mixedReleased
  unfold MixedBinds at h
  simp only at h ⊢
  generalize genAddr s.bindAddress port s.allowLan = addr at h ⊢
  have hudp : (if s.holds .mixed addr = true then s else s.release .mixed).holds .mixedUDP addr =
      s.holds .mixedUDP addr := by
    split
    · rfl
    · exact holds_release_of_ne (by decide) addr
  have hboth : (s.holds .mixed addr && s.holds .mixedUDP addr) = false := by
    simpa using h.1
  rw [hudp, hboth, h.2]
  cases tcp with
  | error err => rfl
  | ok bound => cases udp <;> rfl

theorem Healthy.reCreateMixed (h : Healthy s) (hboth : BindsBoth s (.reCreateMixed port tcp udp)) :
    Healthy (reCreateMixed s port tcp udp).1 := by
  have hreleased := h.mixedReleased (genAddr s.bindAddress port s.allowLan)
  by_cases hbinds : MixedBinds s port
  · rw [reCreateMixed_of_binds hbinds]
    cases tcp with
    | error err => exact hreleased.assign ..
    | ok bound =>
        cases udp with
        | error err => cases hboth hbinds rfl
        | ok bound' => exact (hreleased.assign ..).assign ..
  · rw [reCreateMixed_of_not_binds hbinds]
    exact hreleased

/-- Otherwise the closed listener stays in its variable. -/
theorem not_allOpen_reCreateMixed (hnot : ¬ BindsBoth s (.reCreateMixed port tcp udp)) :
    ¬ AllOpen (ReCreate.reCreateMixed s port tcp udp).1 := by
  have hbinds : MixedBinds s port := by
    by_contra hbinds
    exact hnot fun h => absurd h hbinds
  rw [reCreateMixed_of_binds hbinds]
  cases tcp with
  | error err => exact absurd (fun _ h => nomatch h) hnot
  | ok bound =>
      cases udp with
      | ok bound' => exact absurd (fun _ _ => rfl) hnot
      | error err =>
          intro hopen
          have hclosed := hopen .mixed
            ((mixedReleased s (genAddr s.bindAddress port s.allowLan)).made
              (genAddr s.bindAddress port s.allowLan) bound) rfl
          simp [State.close] at hclosed

end Mixed

theorem Healthy.apply {s : State} {a : Action} (h : Healthy s) (ha : BindsBoth s a) :
    Healthy (apply s a) := by
  cases a with
  | setAllowLan al => exact ⟨⟨h.made, h.distinct⟩, h.allOpen⟩
  | setBindAddress host => exact ⟨⟨h.made, h.distinct⟩, h.allOpen⟩
  | reCreateHTTP port tcp => exact h.reCreateHTTP port tcp
  | reCreateSocks port tcp udp => exact h.reCreateSocks port tcp udp
  | reCreateRedir port tcp udp => exact h.reCreatePair .redir .redirUDP port tcp udp
  | reCreateTProxy port tcp udp => exact h.reCreatePair .tproxy .tproxyUDP port tcp udp
  | reCreateMixed port tcp udp => exact h.reCreateMixed ha

theorem honest_apply_iff {s : State} {a : Action} (h : Healthy s) :
    Honest (apply s a) ↔ BindsBoth s a := by
  rw [honest_iff]
  constructor
  · intro hopen
    by_contra hnot
    cases a with
    | reCreateMixed port tcp udp => exact not_allOpen_reCreateMixed hnot hopen
    | setAllowLan _ | setBindAddress _ | reCreateHTTP _ _ | reCreateSocks _ _ _
    | reCreateRedir _ _ _ | reCreateTProxy _ _ _ => exact hnot trivial
  · intro ha
    exact (h.apply ha).allOpen

/-- After every call all registered listeners are open and every port reported is served,
exactly if `ReCreateMixed` never binds its TCP side without its UDP side. -/
theorem reCreate_honest_iff (as : List Action) :
    system.Always Honest start as ↔ system.Guarded BindsBoth start as := by
  have hstart : Healthy start := by
    refine ⟨⟨?_, ?_⟩, ?_⟩
    · intro v l h
      cases h
    · intro v w l l' h
      cases h
    · intro v l h
      cases h
  have hInv : ∀ s a t, Healthy s → Honest s → system.step s a = some t → BindsBoth s a →
      Healthy t := by
    intro s a t h _ hstep ha
    cases hstep
    exact h.apply ha
  have hP : ∀ s a t, Healthy s → Honest s → system.step s a = some t →
      (Honest t ↔ BindsBoth s a) := by
    intro s a t h _ hstep
    cases hstep
    exact honest_apply_iff h
  exact system.always_iff_guarded hInv hP as hstart (honest_iff.mpr hstart.allOpen)

/-- The TCP side of the mixed port is free and the UDP side is taken: the port is reported,
and nobody serves it. -/
theorem reCreateMixed_keeps_closed_listener :
    ∃ s, system.run start [.reCreateMixed 7890 (.ok (str "127.0.0.1:7890"))
        (.error (str "bind: address already in use"))] = some s ∧
      (getPorts s).mixedPort = 7890 ∧ ¬ Honest s := by
  refine ⟨_, rfl, by decide +kernel, ?_⟩
  intro h
  have hopen := h.allOpen .mixed ⟨0, str "127.0.0.1:7890", str "127.0.0.1:7890"⟩
    (by decide +kernel)
  exact absurd hopen (by decide +kernel)

end RuleBaseProxy.ReCreate
