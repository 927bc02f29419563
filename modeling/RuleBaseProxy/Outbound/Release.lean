import RuleBaseProxy.Lib.Deferred

/-! # Connections of a dial that fails

The outbounds that dial a server and shake hands with it close the connection by
`defer safeConnClose(c, err)`. The arguments are evaluated at the `defer` statement. In all but
one of the functions it stands right after the check that the dial succeeded, where `err` is nil.

What the network does is a parameter of each function: for every step the error it ends with, or
nil. The connections a call opens are the TCP connection to the server, a stream of the gRPC
transport, and the UDP socket of a socks5 association.
-/

namespace RuleBaseProxy.Outbound

open Deferred

inductive Sock where
  | tcp
  | gun
  | udp
  deriving DecidableEq

structure Net where
  opened : List Sock
  closed : List Sock

def Net.empty : Net := ⟨[], []⟩

def Net.open (s : Sock) (net : Net) : Net := { net with opened := s :: net.opened }

def Net.close (s : Sock) (net : Net) : Net := { net with closed := s :: net.closed }

variable {ε : Type}

def safeConnClose (c : Sock) (err : Option ε) (net : Net) : Net :=
  if err.isSome then net.close c else net

@[simp] theorem safeConnClose_none (c : Sock) (net : Net) :
    safeConnClose c (none : Option ε) net = net := rfl

inductive DialError (ε : Type) where
  /-- The error of a step as it is. -/
  | step (err : ε)
  /-- `%s connect error: %w` -/
  | connect (err : ε)
  /-- `client hanshake error: %w` -/
  | clientHandshake (err : ε)
  /-- `invalid UDP bind address` -/
  | invalidBindAddr
  /-- `can't resolve ip` -/
  | cannotResolve
  /-- `new vmess client error: %v` -/
  | vmessClient (err : DialError ε)

abbrev Result (ε : Type) := Option (DialError ε)

/-- The beginning of the functions that dial TCP. The deferred call gets the error of the dial,
which is nil where the call is deferred; `streamConn` is the rest of the function. -/
def dialTCP (err : Option ε) (streamConn : Func Net (Result ε)) : Func Net (Result ε) :=
  match err with
  | some e => return some (.connect e)
  | none => do
      Func.perform (Net.open .tcp)
      Func.postpone (safeConnClose .tcp err)
      streamConn

/-- A step of the transport libraries: some of them close the connection they were given when
they fail. -/
inductive Step (ε : Type) where
  | ok
  | failed (err : ε) (closed : Bool)

def Step.ofError : Option ε → Step ε
  | none => .ok
  | some err => .failed err false

def Step.run (c : Sock) : Step ε → Func Net (Result ε)
  | .ok => return none
  | .failed err closed => do
      Func.perform (fun net => if closed then net.close c else net)
      return some (.step err)

/-! ## The functions -/

namespace Http

/-- `tls` is nil without TLS. -/
structure Steps (ε : Type) where
  dial : Option ε
  tls : Option (Option ε)
  shakeHand : Option ε

def streamConn (s : Steps ε) : Result ε :=
  match s.tls with
  | some (some err) => some (.connect err)
  | _ => s.shakeHand.map .step

def dialContext (s : Steps ε) : Func Net (Result ε) := dialTCP s.dial (return streamConn s)

end Http

namespace Socks5

structure Steps (ε : Type) where
  dial : Option ε
  tls : Option (Option ε)
  clientHandshake : Option ε

def streamConn (s : Steps ε) : Result ε :=
  match s.tls with
  | some (some err) => some (.connect err)
  | _ => s.clientHandshake.map .step

def dialContext (s : Steps ε) : Func Net (Result ε) := dialTCP s.dial (return streamConn s)

inductive BindAddr where
  | invalid
  | unspecified
  | specified

structure UDPSteps (ε : Type) extends Steps ε where
  listenPacket : Option ε
  bindAddr : BindAddr
  /-- `resolveUDPAddr` of the server's own address. -/
  resolveUDPAddr : Option ε
  /-- The server has ended the association before the function returned, so the goroutine that
  watches for that has closed both connections. -/
  ended : Bool

def bindError (s : UDPSteps ε) : Result ε :=
  match s.bindAddr with
  | .invalid => some .invalidBindAddr
  | .unspecified => s.resolveUDPAddr.map .step
  | .specified => none

/-- The error of the TLS handshake is not looked at before the close is deferred. -/
def dialUDP (s : UDPSteps ε) : Func Net (Result ε) :=
  match s.dial with
  | some err => return some (.connect err)
  | none => do
      Func.perform (Net.open .tcp)
      Func.postpone (safeConnClose .tcp (s.tls.getD none))
      match s.clientHandshake with
      | some err => return some (.clientHandshake err)
      | none =>
          match s.listenPacket with
          | some err => return some (.step err)
          | none => do
              Func.perform (Net.open .udp)
              Func.perform fun net => if s.ended then (net.close .tcp).close .udp else net
              return bindError s

end Socks5

namespace Vmess

inductive Network where
  /-- Early data delays the WebSocket handshake to the first write. -/
  | ws (earlyData : Bool)
  | http
  | h2
  | grpc
  | tcp

structure Steps (ε : Type) where
  /-- The gRPC transport is in use. -/
  transport : Bool
  network : Network
  tls : Bool
  dial : Option ε
  handshake : Option ε
  websocket : Step ε
  h2Client : Step ε
  /-- `client.StreamConn`, which writes the request. -/
  request : Step ε

def streamTransport (s : Steps ε) : Step ε :=
  match s.network with
  | .ws earlyData => if earlyData then .ok else s.websocket
  | .http => if s.tls then .ofError s.handshake else .ok
  | .h2 =>
      match s.handshake with
      | some err => .failed err false
      | none => s.h2Client
  | .grpc => .ok
  | .tcp => if s.tls then .ofError s.handshake else .ok

def streamConn (s : Steps ε) : Step ε :=
  match streamTransport s with
  | .ok => s.request
  | .failed err closed => .failed err closed

/-- `StreamGunWithTransport` opens a stream and returns no error. -/
def streamGun (s : Steps ε) : Func Net (Result ε) := do
  Func.perform (Net.open .gun)
  Func.postpone (safeConnClose .gun (none : Option ε))
  s.request.run .gun

def dialContext (s : Steps ε) : Func Net (Result ε) :=
  if s.transport then streamGun s else dialTCP s.dial ((streamConn s).run .tcp)

/-- `resolve` is the error of `ResolveIP`, nil where the destination is resolved already. -/
def dialUDP (resolve : Option ε) (s : Steps ε) : Func Net (Result ε) :=
  match resolve with
  | some _ => return some .cannotResolve
  | none =>
      if s.transport then do
        let err ← streamGun s
        return err.map .vmessClient
      else
        dialTCP s.dial do
          let err ← (streamConn s).run .tcp
          return err.map .vmessClient

end Vmess

namespace Trojan

structure Steps (ε : Type) where
  transport : Bool
  dial : Option ε
  tls : Option ε
  writeHeader : Option ε

def streamConn (s : Steps ε) : Result ε :=
  match s.tls with
  | some err => some (.connect err)
  | none => s.writeHeader.map .step

/-- Over the gRPC transport the stream is closed where the header cannot be written. -/
def dialContext (s : Steps ε) : Func Net (Result ε) :=
  if s.transport then do
    Func.perform (Net.open .gun)
    match s.writeHeader with
    | some err => do
        Func.perform (Net.close .gun)
        return some (.step err)
    | none => return none
  else dialTCP s.dial (return streamConn s)

def dialUDP (s : Steps ε) : Func Net (Result ε) :=
  if s.transport then do
    Func.perform (Net.open .gun)
    Func.postpone (safeConnClose .gun (none : Option ε))
    return s.writeHeader.map .step
  else dialTCP s.dial (return streamConn s)

end Trojan

/-! ## Which failures leak -/

/-- A call of one of the functions, with what the network does in it. -/
inductive Call (ε : Type) where
  | httpDialContext (s : Http.Steps ε)
  | socks5DialContext (s : Socks5.Steps ε)
  | socks5DialUDP (s : Socks5.UDPSteps ε)
  | vmessDialContext (s : Vmess.Steps ε)
  | vmessDialUDP (resolve : Option ε) (s : Vmess.Steps ε)
  | trojanDialContext (s : Trojan.Steps ε)
  | trojanDialUDP (s : Trojan.Steps ε)

def Call.dial : Call ε → Func Net (Result ε)
  | httpDialContext s => Http.dialContext s
  | socks5DialContext s => Socks5.dialContext s
  | socks5DialUDP s => Socks5.dialUDP s
  | vmessDialContext s => Vmess.dialContext s
  | vmessDialUDP resolve s => Vmess.dialUDP resolve s
  | trojanDialContext s => Trojan.dialContext s
  | trojanDialUDP s => Trojan.dialUDP s

def Released (r : Result ε × Net) : Prop :=
  r.1.isSome = true → r.2.opened ⊆ r.2.closed

def Call.Releases (c : Call ε) : Prop := Released (c.dial.call Net.empty)

def Step.Leaks : Step ε → Prop
  | .ok => False
  | .failed _ closed => closed = false

/-- The calls that leave a connection open: those that fail after the dial, other than by a
step that closes the connection itself, by the TLS handshake of a socks5 association, or over
the gRPC transport of trojan. -/
def Call.Leaks : Call ε → Prop
  | httpDialContext s => s.dial = none ∧ (Http.streamConn s).isSome = true
  | socks5DialContext s => s.dial = none ∧ (Socks5.streamConn s).isSome = true
  | socks5DialUDP s => s.dial = none ∧
      ((s.clientHandshake.isSome = true ∨ s.listenPacket.isSome = true) ∧ s.tls.getD none = none ∨
        s.clientHandshake = none ∧ s.listenPacket = none ∧
          (Socks5.bindError s).isSome = true ∧ s.ended = false)
  | vmessDialContext s =>
      s.transport = true ∧ s.request.Leaks ∨
        s.transport = false ∧ s.dial = none ∧ (Vmess.streamConn s).Leaks
  | vmessDialUDP resolve s => resolve = none ∧
      (s.transport = true ∧ s.request.Leaks ∨
        s.transport = false ∧ s.dial = none ∧ (Vmess.streamConn s).Leaks)
  | trojanDialContext s =>
      s.transport = false ∧ s.dial = none ∧ (Trojan.streamConn s).isSome = true
  | trojanDialUDP s =>
      s.transport = true ∧ s.writeHeader.isSome = true ∨
        s.transport = false ∧ s.dial = none ∧ (Trojan.streamConn s).isSome = true

/-! ### One lemma for each shape -/

theorem call_dialTCP (err : Option ε) (streamConn : Func Net (Result ε)) (net : Net) :
    (dialTCP err streamConn).call net =
      match err with
      | some e => (some (.connect e), net)
      | none => streamConn.call (net.open .tcp) := by
  cases err <;> rfl

/-- A dial that fails has opened nothing. After it, only the rest of the function can release
the connection. -/
theorem released_dialTCP (err : Option ε) (streamConn : Func Net (Result ε)) :
    Released ((dialTCP err streamConn).call Net.empty) ↔
      (err = none → Released (streamConn.call (Net.empty.open .tcp))) := by
  rw [call_dialTCP]
  cases err <;> simp [Released, Net.empty]

/-- With one connection open and none closed there must be no error. -/
theorem released_open (err : Result ε) (c : Sock) :
    Released (err, Net.empty.open c) ↔ err = none := by
  simp [Released, Net.empty, Net.open]

theorem released_run (c : Sock) (s : Step ε) :
    Released ((s.run c).call (Net.empty.open c)) ↔ ¬ s.Leaks := by
  cases s with
  | ok => simp [Released, Step.run, Step.Leaks]
  | failed err closed =>
      cases closed <;> simp [Released, Step.run, Step.Leaks, Net.empty, Net.open, Net.close]

/-- Wrapping the error does not change what is released. -/
theorem released_map (r : Result ε × Net) (g : DialError ε → DialError ε) :
    Released (r.1.map g, r.2) ↔ Released r := by
  simp [Released]

theorem released_streamGun (s : Vmess.Steps ε) :
    Released ((Vmess.streamGun s).call Net.empty) ↔ ¬ s.request.Leaks :=
  released_run .gun s.request

/-- After the dial the TCP connection is closed at the exit exactly when its TLS handshake
failed; the UDP socket is opened only after the two steps before it. -/
theorem released_socks5DialUDP (s : Socks5.UDPSteps ε) :
    Released ((Socks5.dialUDP s).call Net.empty) ↔ ¬ (Call.socks5DialUDP s).Leaks := by
  unfold Socks5.dialUDP Call.Leaks
  cases hdial : s.dial with
  | some err => simp [Released, Net.empty, hdial]
  | none =>
      cases hshake : s.clientHandshake with
      | some err =>
          cases htls : s.tls.getD none <;>
            simp [Released, safeConnClose, Net.empty, Net.open, Net.close, hdial, hshake, htls]
      | none =>
          cases hlisten : s.listenPacket with
          | some err =>
              cases htls : s.tls.getD none <;>
                simp [Released, safeConnClose, Net.empty, Net.open, Net.close, hdial, hshake,
                  hlisten, htls]
          | none =>
              cases htls : s.tls.getD none <;> cases hended : s.ended <;>
                simp [Released, safeConnClose, Net.empty, Net.open, Net.close, hdial, hshake,
                  hlisten, hended]

theorem released_vmessDialContext (s : Vmess.Steps ε) :
    Released ((Vmess.dialContext s).call Net.empty) ↔ ¬ (Call.vmessDialContext s).Leaks := by
  unfold Vmess.dialContext Call.Leaks
  cases ht : s.transport with
  | true => simpa [ht] using released_streamGun s
  | false => simp [released_dialTCP, released_run, ht]

/-- Once the destination is resolved, the connections are those of `DialContext`. -/
theorem released_vmessDialUDP (resolve : Option ε) (s : Vmess.Steps ε) :
    Released ((Vmess.dialUDP resolve s).call Net.empty) ↔
      ¬ (Call.vmessDialUDP resolve s).Leaks := by
  unfold Vmess.dialUDP Call.Leaks
  cases resolve with
  | some err => simp [Released, Net.empty]
  | none =>
      cases ht : s.transport with
      | true => simpa [released_map, ht] using released_streamGun s
      | false => simp [released_dialTCP, released_map, released_run, ht]

theorem released_trojanDialContext (s : Trojan.Steps ε) :
    Released ((Trojan.dialContext s).call Net.empty) ↔ ¬ (Call.trojanDialContext s).Leaks := by
  unfold Trojan.dialContext Call.Leaks
  cases ht : s.transport with
  | true =>
      cases hw : s.writeHeader <;>
        simp [Released, Net.empty, Net.open, Net.close, ht]
  | false => simp [released_dialTCP, released_open, ht]

theorem released_trojanDialUDP (s : Trojan.Steps ε) :
    Released ((Trojan.dialUDP s).call Net.empty) ↔ ¬ (Call.trojanDialUDP s).Leaks := by
  unfold Trojan.dialUDP Call.Leaks
  cases ht : s.transport with
  | true => simp [released_open, ht]
  | false => simp [released_dialTCP, released_open, ht]

/-- For every function and whatever the network does, a call that returns an error has closed
what it opened exactly when it is not one of those above. -/
theorem releases_iff (c : Call ε) : c.Releases ↔ ¬ c.Leaks := by
  cases c with
  | httpDialContext s =>
      simp [Call.Releases, Call.dial, Call.Leaks, Http.dialContext, released_dialTCP, released_open]
  | socks5DialContext s =>
      simp [Call.Releases, Call.dial, Call.Leaks, Socks5.dialContext, released_dialTCP, released_open]
  | socks5DialUDP s => exact released_socks5DialUDP s
  | vmessDialContext s => exact released_vmessDialContext s
  | vmessDialUDP resolve s => exact released_vmessDialUDP resolve s
  | trojanDialContext s => exact released_trojanDialContext s
  | trojanDialUDP s => exact released_trojanDialUDP s

/-! ### A proxy that refuses -/

/-- The server is reached and answers the request with a refusal. -/
def refused : Http.Steps Unit := ⟨none, none, some ()⟩

theorem refused_not_released : ¬ (Call.httpDialContext refused).Releases ∧
    (Http.dialContext refused).call Net.empty = (some (.step ()), ⟨[.tcp], []⟩) := by
  refine ⟨fun h => ?_, rfl⟩
  have hclosed : Sock.tcp ∈ ([] : List Sock) := h rfl List.mem_cons_self
  cases hclosed

end RuleBaseProxy.Outbound
