import RuleBaseProxy.Lib.NetIP
import RuleBaseProxy.Lib.Transition

/-! # The name servers of an interface

`dhcpClient` asks DHCP for the name servers of an interface and keeps the resolver it
makes of them. `resolve` looks the interface up again once in `IfaceTTL`; it starts a new
query when the address of the interface has changed or the last query is older than
`DHCPTTL`. Both a failed lookup and a failed query are kept in `err`.

The lock makes every section of `resolve` and of the query's goroutine atomic. A run is the
list of these sections in the order in which the lock was taken.
-/

namespace RuleBaseProxy.Dns.Dhcp

open Go.Net TransitionSystem

/-- Times and durations are in nanoseconds; the zero `time.Time` is `0`. -/
def second : Nat := 1000000000

def ifaceTTL : Nat := 20 * second
def dhcpTTL : Nat := 3600 * second

structure IfaceAddr where
  ip : IP
  mask : List UInt8

/-- `IP.Equal` of the addresses and `bytes.Equal` of the masks. -/
def IfaceAddr.equal (a b : IfaceAddr) : Bool :=
  decide (a.ip.canon = b.ip.canon ∧ a.mask = b.mask)

variable {ρ ε : Type}

structure Client (ρ ε : Type) where
  ifaceInvalidate : Nat
  dnsInvalidate : Nat
  ifaceAddr : Option IfaceAddr
  /-- The channel `done` is not nil: a query is under way. -/
  done : Bool
  resolver : Option ρ
  err : Option ε

def newDHCPClient : Client ρ ε := ⟨0, 0, none, false, none, none⟩

/-- What `time.Now` gives at the four places `invalidate` asks for it. -/
structure Clock where
  iface : Nat
  renew : Nat
  dns : Nat
  expire : Nat

namespace Client

/-- `invalidate` looks the interface up only when the last lookup is old. -/
def LooksUp (d : Client ρ ε) (now : Clock) : Prop :=
  ¬ now.iface < d.ifaceInvalidate

instance (d : Client ρ ε) (now : Clock) : Decidable (d.LooksUp now) :=
  inferInstanceAs (Decidable (¬ _))

/-- `invalidate`; `lookup` is what `ResolveInterface` and `PickIPv4Addr` come to. The
address is nil only while `dnsInvalidate` is zero, so it is not dereferenced then. -/
def invalidate (d : Client ρ ε) (now : Clock) (lookup : Except ε IfaceAddr) :
    Except ε Bool × Client ρ ε :=
  if d.LooksUp now then
    let d := { d with ifaceInvalidate := now.renew + ifaceTTL }
    match lookup with
    | .error err => (.error err, d)
    | .ok addr =>
        if now.dns < d.dnsInvalidate ∧ d.ifaceAddr.any (·.equal addr) then (.ok false, d)
        else
          let d := { d with dnsInvalidate := now.expire + dhcpTTL, ifaceAddr := some addr }
          (.ok (!d.done), d)
  else (.ok false, d)

/-- What a caller of `resolve` sees when it looks at the client: a result, or nothing yet. -/
inductive Read (ρ ε : Type) where
  | initializing
  | returns (res : Option ρ) (err : Option ε)
  deriving DecidableEq

/-- One turn of the loop at the end of `resolve`. -/
def read (d : Client ρ ε) : Read ρ ε :=
  if d.resolver.isNone ∧ d.err.isNone then .initializing else .returns d.resolver d.err

/-- The end of the query's goroutine. -/
def complete (d : Client ρ ε) (result : Except ε ρ) : Client ρ ε :=
  match result with
  | .ok res => { d with done := false, resolver := some res, err := none }
  | .error err => { d with done := false, resolver := none, err := some err }

end Client

/-! ## Runs -/

structure State (ρ ε : Type) where
  client : Client ρ ε
  /-- Whether the most recent lookup of the interface succeeded. -/
  lookedUp : Option Bool
  /-- The address the query under way was started for. -/
  asked : Option IfaceAddr
  /-- The last query that was completed, and the address it was started for. -/
  answered : Option (Option IfaceAddr × Except ε ρ)
  /-- A lookup has failed since that query was completed. -/
  failedSince : Bool

def start : State ρ ε := ⟨newDHCPClient, none, none, none, false⟩

inductive Action (ρ ε : Type) where
  /-- The first section of `resolve`. -/
  | resolve (now : Clock) (lookup : Except ε IfaceAddr)
  /-- A query ends. -/
  | complete (result : Except ε ρ)

def lookedUp (s : State ρ ε) (now : Clock) (lookup : Except ε IfaceAddr) : Option Bool :=
  if s.client.LooksUp now then some lookup.isOk else s.lookedUp

def resolveStep (s : State ρ ε) (now : Clock) (lookup : Except ε IfaceAddr) : State ρ ε :=
  let s' := { s with lookedUp := lookedUp s now lookup }
  match s.client.invalidate now lookup with
  | (.error err, d) => { s' with client := { d with err := some err }, failedSince := true }
  | (.ok true, d) => { s' with client := { d with done := true }, asked := d.ifaceAddr }
  | (.ok false, d) => { s' with client := d }

/-- `invalidate` starts no query while one is under way, so there is at most one to end. -/
def completeStep (s : State ρ ε) (result : Except ε ρ) : Option (State ρ ε) :=
  if s.client.done then
    some { s with
      client := s.client.complete result
      answered := some (s.asked, result)
      failedSince := false }
  else none

def system : System (State ρ ε) (Action ρ ε) where
  step s
    | .resolve now lookup => some (resolveStep s now lookup)
    | .complete result => completeStep s result

/-! ## What `resolve` should return -/

/-- At `now` the client knows its resolver: the interface was found, the last query gave `r`
for the address the interface has, and the answer is not too old. -/
structure Settled (s : State ρ ε) (now : Nat) (r : ρ) : Prop where
  lookedUp : s.lookedUp = some true
  answered : ∃ addr cur, s.answered = some (some addr, .ok r) ∧
    s.client.ifaceAddr = some cur ∧ addr.equal cur = true
  fresh : now < s.client.dnsInvalidate

/-- No error outlives its cause: a client that knows its resolver returns it. -/
def ReturnsResolver (s : State ρ ε) : Prop :=
  ∀ now r, Settled s now r → s.client.read = .returns (some r) none

/-- A client that knows its resolver has seen no lookup fail since it got it. -/
def NoFailureSince (s : State ρ ε) : Prop :=
  ∀ now r, Settled s now r → s.failedSince = false

/-! ## The fields and the history -/

/-- `resolver` is the result of the last query, and `err` is set by its failure or by a lookup
that failed after it. -/
structure Inv (s : State ρ ε) : Prop where
  resolver : s.client.resolver = (s.answered.map Prod.snd).bind Except.toOption
  err : s.client.err.isSome = true ↔
    s.failedSince = true ∨ ∃ addr e, s.answered = some (addr, .error e)
  addr : s.client.ifaceAddr = none → s.client.dnsInvalidate = 0

theorem inv_start : Inv (start : State ρ ε) :=
  ⟨rfl, by simp [start, newDHCPClient], fun _ => rfl⟩

/-- `invalidate` touches neither the resolver nor the error. -/
theorem invalidate_keeps (d : Client ρ ε) (now : Clock) (lookup : Except ε IfaceAddr) :
    (d.invalidate now lookup).2.resolver = d.resolver ∧
      (d.invalidate now lookup).2.err = d.err := by
  unfold Client.invalidate
  by_cases hlook : d.LooksUp now
  · rw [if_pos hlook]
    cases lookup with
    | error err => exact ⟨rfl, rfl⟩
    | ok addr =>
        dsimp only
        split
        · exact ⟨rfl, rfl⟩
        · exact ⟨rfl, rfl⟩
  · rw [if_neg hlook]
    exact ⟨rfl, rfl⟩

theorem invalidate_addr (d : Client ρ ε) (now : Clock) (lookup : Except ε IfaceAddr)
    (h : d.ifaceAddr = none → d.dnsInvalidate = 0) :
    (d.invalidate now lookup).2.ifaceAddr = none →
      (d.invalidate now lookup).2.dnsInvalidate = 0 := by
  unfold Client.invalidate
  by_cases hlook : d.LooksUp now
  · rw [if_pos hlook]
    cases lookup with
    | error err => exact h
    | ok addr =>
        dsimp only
        split
        · exact h
        · exact fun hnone => nomatch hnone
  · rw [if_neg hlook]
    exact h

theorem Inv.resolveStep {s : State ρ ε} (h : Inv s) (now : Clock)
    (lookup : Except ε IfaceAddr) : Inv (resolveStep s now lookup) := by
  have hkeeps := invalidate_keeps s.client now lookup
  have haddr := invalidate_addr s.client now lookup h.addr
  unfold Dhcp.resolveStep
  rcases hinv : s.client.invalidate now lookup with ⟨result, d⟩
  rw [hinv] at hkeeps haddr
  have hresolver : d.resolver = (s.answered.map Prod.snd).bind Except.toOption :=
    hkeeps.1.trans h.resolver
  have herr : d.err.isSome = true ↔
      s.failedSince = true ∨ ∃ addr e, s.answered = some (addr, .error e) := by
    rw [hkeeps.2]
    exact h.err
  rcases result with err | invalidated
  · exact ⟨hresolver, by simp, haddr⟩
  · cases invalidated with
    | true => exact ⟨hresolver, herr, haddr⟩
    | false => exact ⟨hresolver, herr, haddr⟩

theorem Inv.step {s t : State ρ ε} {a : Action ρ ε} (h : Inv s)
    (hs : system.step s a = some t) : Inv t := by
  cases a with
  | resolve now lookup =>
      cases hs
      exact h.resolveStep now lookup
  | complete result =>
      have hcomplete : completeStep s result = some t := hs
      unfold completeStep at hcomplete
      split at hcomplete
      · cases hcomplete
        cases result with
        | ok res => exact ⟨rfl, by simp [Client.complete], h.addr⟩
        | error err => exact ⟨rfl, by simp [Client.complete], h.addr⟩
      · cases hcomplete

theorem always_inv (as : List (Action ρ ε)) : system.Always Inv start as :=
  system.always_of_step (fun _ _ _ h hs => h.step hs) as inv_start

/-- In a settled state the resolver is there, and it comes without an error exactly when no
lookup has failed since the query. -/
theorem Inv.read_iff {s : State ρ ε} (h : Inv s) {now : Nat} {r : ρ} (hs : Settled s now r) :
    s.client.read = .returns (some r) none ↔ s.failedSince = false := by
  obtain ⟨addr, cur, hanswered, -, -⟩ := hs.answered
  have hresolver : s.client.resolver = some r := by
    rw [h.resolver, hanswered]
    rfl
  have herr : s.client.err.isSome = true ↔ s.failedSince = true := by
    rw [h.err, hanswered]
    simp
  have hread : s.client.read = .returns (some r) s.client.err := by
    simp [Client.read, hresolver]
  rw [hread]
  cases hf : s.failedSince <;> cases he : s.client.err <;> simp_all

theorem Inv.returnsResolver_iff {s : State ρ ε} (h : Inv s) :
    ReturnsResolver s ↔ NoFailureSince s :=
  forall_congr' fun _ => forall_congr' fun _ => forall_congr' fun hs => h.read_iff hs

/-- A run returns the resolver in every state where it is known exactly when a lookup that
fails is always followed by a query before that. -/
theorem always_returnsResolver_iff (as : List (Action ρ ε)) :
    system.Always ReturnsResolver start as ↔ system.Always NoFailureSince start as :=
  System.Always.congr system (fun _ h => h.returnsResolver_iff) (always_inv as)

/-! ### The error that stays -/

def lanAddr : IfaceAddr := ⟨⟨[192, 168, 1, 2], Or.inl rfl⟩, [255, 255, 255, 0]⟩

def Clock.still (now : Nat) : Clock := ⟨now, now, now, now⟩

/-- A query gives the resolver `1`. The interface is away for one lookup, at second 30, and
back at second 60. -/
def flap : List (Action Nat Unit) :=
  [.resolve (.still second) (.ok lanAddr), .complete (.ok 1),
    .resolve (.still (30 * second)) (.error ()), .resolve (.still (60 * second)) (.ok lanAddr)]

/-- The interface is back with its address and the answer of DHCP is one minute old, but
`resolve` still returns the error of the lookup that failed. -/
theorem flap_keeps_error : ¬ system.Always ReturnsResolver start flap ∧
    ∃ s : State Nat Unit, system.run start flap = some s ∧ Settled s (60 * second) 1 ∧
      s.client.read = .returns (some 1) (some ()) := by
  have hrun : ∃ s : State Nat Unit, system.run start flap = some s ∧
      Settled s (60 * second) 1 ∧ s.client.read = .returns (some 1) (some ()) :=
    ⟨_, rfl, ⟨rfl, ⟨lanAddr, lanAddr, rfl, rfl, by decide⟩, by decide⟩, rfl⟩
  refine ⟨system.not_always_of_run ?_, hrun⟩
  obtain ⟨s, hs, hsettled, hread⟩ := hrun
  refine ⟨s, hs, fun h => ?_⟩
  have hclean : s.client.read = .returns (some 1) none := h _ _ hsettled
  rw [hread] at hclean
  cases hclean

end RuleBaseProxy.Dns.Dhcp
