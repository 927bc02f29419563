import RuleBaseProxy.Lib.Transition
import RuleBaseProxy.Outbound.Vmess

/-! # UDP packets and sessions

`handleUDPConn` looks a session up by the local address of the packet. Where
there is none, one goroutine per address dials, starts the reader and publishes
the session in `natTable`; the others wait for it. Writing and reading both
remove the entry of the address when they fail, each in its own goroutine.
Every access to `natTable` and every step another goroutine can observe is one
action here, and a run is any interleaving of them.
-/

namespace RuleBaseProxy.UDP

open Go Go.Net TransitionSystem

/-- How far a packet has come in `handleUDPConn` and `handleUDPToRemote`. -/
inductive Phase where
  /-- Found no session; its goroutine is about to call `udpSF.Do`. -/
  | wantDial
  /-- Runs the function of `udpSF.Do`, before the second lookup. -/
  | leading
  | dialing
  /-- `DialUDP` has returned a session; the reader is not started. -/
  | dialed (sid : Nat)
  /-- The reader is started; `natTable.Set` is to come. -/
  | started (sid : Nat)
  /-- The function is about to return, with or without an error. -/
  | returning (ok : Bool)
  /-- Waits for the result of the packet that leads. -/
  | waiting
  /-- `udpSF.Do` has returned without an error. -/
  | ready
  /-- In `handleUDPToRemote`, before the write. -/
  | toRemote (sid : Nat)
  /-- The write has failed; `natTable.Delete` is to come. -/
  | failing (sid : Nat)
  /-- `pc.Close` is to come. -/
  | closing (sid : Nat)
  | done
deriving DecidableEq

structure Packet where
  key : Str
  data : Str
  metadata : Metadata
  phase : Phase
deriving DecidableEq

/-- How far the reader `handleUDPToLocal` of a session has come. -/
inductive Reader where
  | notStarted
  /-- Started, the connection counter not yet increased. -/
  | spawned
  | running
  /-- Has left its loop; the deferred `Close` is to come. -/
  | closing
  | deleting
  | finished
deriving DecidableEq

def Reader.alive : Reader → Bool
  | .spawned => true
  | .running => true
  | _ => false

structure Session where
  key : Str
  dialed : Metadata
  /-- The packet connection of a vmess outbound; `none` for other outbounds. -/
  vmess : Option Vmess.PacketConn
  reader : Reader
  published : Bool
  writeFailed : Bool
  closed : Bool
deriving DecidableEq

/-- A datagram that `WriteTo` of a vmess session has accepted: the metadata of
its packet, where it went, and what it held. -/
structure Sent where
  metadata : Metadata
  wire : Vmess.DstAddr
  data : Str
deriving DecidableEq

structure State where
  /-- `natTable`. -/
  table : Str → Option Nat
  sessions : Nat → Option Session
  packets : Nat → Option Packet
  /-- The calls that `udpSF` has in flight, by the packet that leads. -/
  flight : Str → Option Nat
  currentConns : Int
  sent : List Sent

def State.init : State := ⟨fun _ => none, fun _ => none, fun _ => none, fun _ => none, 0, []⟩

def State.setPacket (s : State) (p : Nat) (pk : Packet) : State :=
  { s with packets := Function.update s.packets p (some pk) }

def State.setSession (s : State) (sid : Nat) (ses : Session) : State :=
  { s with sessions := Function.update s.sessions sid (some ses) }

/-- `natTable.Delete`. -/
def State.delete (s : State) (key : Str) : State :=
  { s with table := Function.update s.table key none }

inductive DialResult where
  | failed
  | vmess (sid : Nat)
  | other (sid : Nat)

/-- The destination address once a resolver has been asked for it. -/
def fill (m : Metadata) (ip : Option IP) : Metadata :=
  if m.dstIP.isNone then { m with dstIP := ip } else m

inductive PacketAction where
  /-- The call of `udpSF.Do`. -/
  | enter
  /-- The second lookup, by the packet that leads. -/
  | check
  /-- `resolveMetadata` and `DialUDP`; `ip` is what was resolved on the way. -/
  | dial (ip : Option IP) (result : DialResult)
  /-- `go handleUDPToLocal`. -/
  | spawn
  /-- `natTable.Set`. -/
  | publish
  /-- `udpSF.Do` returns to all its callers. -/
  | leave
  | reget
  /-- `handleUDPToRemote` up to the result of `WriteTo`. -/
  | write (ip : Option IP) (ok : Bool)
  | deleteEntry
  | closeSession

inductive ReaderAction where
  | count
  /-- `ReadFrom` or `WriteBack` fails in the reader. -/
  | readError
  /-- The deferred `Close` of the reader, after the counter is decreased. -/
  | close
  | delete
  /-- A close from outside, through the tracker. -/
  | apiClose

inductive Action where
  /-- `handleUDPConn` up to its first lookup, on metadata that has been checked
  and preprocessed. -/
  | arrive (p : Nat) (key data : Str) (m : Metadata)
  | packet (p : Nat) (a : PacketAction)
  | reader (sid : Nat) (a : ReaderAction)
  | others (change : Int)

def State.move (s : State) (p : Nat) (pk : Packet) (phase : Phase) : State :=
  s.setPacket p { pk with phase := phase }

def State.opened (s : State) (p : Nat) (pk : Packet) (sid : Nat) (vmess : Option Vmess.PacketConn) :
    State :=
  (s.setSession sid ⟨pk.key, pk.metadata, vmess, .notStarted, false, false, false⟩).move p pk
    (.dialed sid)

/-- `udpSF.Do` has returned to packet `p`: it and the packets that share its
call go on. -/
def release (p : Nat) (key : Str) (next : Phase) (q : Nat) (pk : Packet) : Packet :=
  if q = p ∨ pk.key = key ∧ pk.phase = .waiting then { pk with phase := next } else pk

/-- What a write on a session puts on the wire, as far as it is vmess. -/
def Session.sends (ses : Session) (pk : Packet) (addr : UDPAddr) : Option Sent :=
  (ses.vmess.map (·.writeTo pk.data addr)).map fun w => ⟨pk.metadata, w.1, w.2⟩

def packetStep (s : State) (p : Nat) (pk : Packet) : PacketAction → Option State
  | .enter =>
      if pk.phase = .wantDial then
        match s.flight pk.key with
        | none => some ({ s with flight := Function.update s.flight pk.key (some p) }.move p pk .leading)
        | some _ => some (s.move p pk .waiting)
      else none
  | .check =>
      if pk.phase = .leading then
        match s.table pk.key with
        | some _ => some (s.move p pk (.returning true))
        | none => some (s.move p pk .dialing)
      else none
  | .dial ip result =>
      if pk.phase = .dialing then
        let pk := { pk with metadata := fill pk.metadata ip }
        match result with
        | .failed => some (s.move p pk (.returning false))
        | .vmess sid =>
            match s.sessions sid, Vmess.dialUDP pk.metadata with
            | none, some pc => some (s.opened p pk sid (some pc))
            | _, _ => none
        | .other sid =>
            match s.sessions sid with
            | none => some (s.opened p pk sid none)
            | some _ => none
      else none
  | .spawn =>
      match pk.phase with
      | .dialed sid =>
          (s.sessions sid).map fun ses =>
            (s.setSession sid { ses with reader := .spawned }).move p pk (.started sid)
      | _ => none
  | .publish =>
      match pk.phase with
      | .started sid =>
          (s.sessions sid).map fun ses =>
            ({ s with table := Function.update s.table pk.key (some sid) }.setSession sid
              { ses with published := true }).move p pk (.returning true)
      | _ => none
  | .leave =>
      match pk.phase with
      | .returning ok =>
          some { s with
            flight := Function.update s.flight pk.key none
            packets := fun q =>
              (s.packets q).map (release p pk.key (if ok then .ready else .done) q) }
      | _ => none
  | .reget =>
      if pk.phase = .ready then
        match s.table pk.key with
        | some sid => some (s.move p pk (.toRemote sid))
        | none => some (s.move p pk .done)
      else none
  | .write ip ok =>
      match pk.phase with
      | .toRemote sid =>
          let pk := { pk with metadata := fill pk.metadata ip }
          match pk.metadata.udpAddr with
          | none => some (s.move p pk .done)
          | some addr =>
              match s.sessions sid, ok with
              | none, _ => none
              | some ses, true =>
                  if ses.closed then none
                  else some ({ s with sent := s.sent ++ (ses.sends pk addr).toList }.move p pk .done)
              | some ses, false =>
                  some ((s.setSession sid { ses with writeFailed := true }).move p pk (.failing sid))
      | _ => none
  | .deleteEntry =>
      match pk.phase with
      | .failing sid => some ((s.delete pk.key).move p pk (.closing sid))
      | _ => none
  | .closeSession =>
      match pk.phase with
      | .closing sid =>
          (s.sessions sid).map fun ses =>
            (s.setSession sid { ses with closed := true }).move p pk .done
      | _ => none

def readerStep (maxConns : Int) (s : State) (sid : Nat) (ses : Session) :
    ReaderAction → Option State
  | .count =>
      if ses.reader = .spawned then
        let count := s.currentConns + 1
        some ({ s with currentConns := count }.setSession sid
          { ses with reader := if count > maxConns then .closing else .running })
      else none
  | .readError =>
      if ses.reader = .running then some (s.setSession sid { ses with reader := .closing }) else none
  | .close =>
      if ses.reader = .closing then
        some ({ s with currentConns := s.currentConns - 1 }.setSession sid
          { ses with reader := .deleting, closed := true })
      else none
  | .delete =>
      if ses.reader = .deleting then
        some ((s.delete ses.key).setSession sid { ses with reader := .finished })
      else none
  | .apiClose => some (s.setSession sid { ses with closed := true })

def step (maxConns : Int) (s : State) : Action → Option State
  | .arrive p key data m =>
      match s.packets p with
      | some _ => none
      | none =>
          match s.table key with
          | some sid => some (s.setPacket p ⟨key, data, m, .toRemote sid⟩)
          | none => some (s.setPacket p ⟨key, data, m, .wantDial⟩)
  | .packet p a => (s.packets p).bind fun pk => packetStep s p pk a
  | .reader sid a => (s.sessions sid).bind fun ses => readerStep maxConns s sid ses a
  | .others change => some { s with currentConns := s.currentConns + change }

def system (maxConns : Int) : System State Action := ⟨step maxConns⟩

/-! ## The steps, one by one -/

inductive PacketStep (s : State) (p : Nat) (pk : Packet) : PacketAction → State → Prop where
  | lead (hphase : pk.phase = .wantDial) (hfree : s.flight pk.key = none) :
      PacketStep s p pk .enter
        ({ s with flight := Function.update s.flight pk.key (some p) }.move p pk .leading)
  | wait (hphase : pk.phase = .wantDial) : PacketStep s p pk .enter (s.move p pk .waiting)
  | found (hphase : pk.phase = .leading) :
      PacketStep s p pk .check (s.move p pk (.returning true))
  | missing (hphase : pk.phase = .leading) (hnone : s.table pk.key = none) :
      PacketStep s p pk .check (s.move p pk .dialing)
  | dialFailed {ip : Option IP} (hphase : pk.phase = .dialing) :
      PacketStep s p pk (.dial ip .failed)
        (s.move p { pk with metadata := fill pk.metadata ip } (.returning false))
  | dialVmess {ip : Option IP} {sid : Nat} {pc : Vmess.PacketConn} (hphase : pk.phase = .dialing)
      (hnew : s.sessions sid = none) (hpc : Vmess.dialUDP (fill pk.metadata ip) = some pc) :
      PacketStep s p pk (.dial ip (.vmess sid))
        (s.opened p { pk with metadata := fill pk.metadata ip } sid (some pc))
  | dialOther {ip : Option IP} {sid : Nat} (hphase : pk.phase = .dialing)
      (hnew : s.sessions sid = none) :
      PacketStep s p pk (.dial ip (.other sid))
        (s.opened p { pk with metadata := fill pk.metadata ip } sid none)
  | spawn {sid : Nat} {ses : Session} (hphase : pk.phase = .dialed sid)
      (hses : s.sessions sid = some ses) :
      PacketStep s p pk .spawn
        ((s.setSession sid { ses with reader := .spawned }).move p pk (.started sid))
  | publish {sid : Nat} {ses : Session} (hphase : pk.phase = .started sid)
      (hses : s.sessions sid = some ses) :
      PacketStep s p pk .publish
        (({ s with table := Function.update s.table pk.key (some sid) }.setSession sid
          { ses with published := true }).move p pk (.returning true))
  | leave {ok : Bool} (hphase : pk.phase = .returning ok) :
      PacketStep s p pk .leave
        { s with
          flight := Function.update s.flight pk.key none
          packets := fun q =>
            (s.packets q).map (release p pk.key (if ok then .ready else .done) q) }
  | again {sid : Nat} : PacketStep s p pk .reget (s.move p pk (.toRemote sid))
  | gone : PacketStep s p pk .reget (s.move p pk .done)
  | noAddr {ip : Option IP} {ok : Bool} (hnone : (fill pk.metadata ip).udpAddr = none) :
      PacketStep s p pk (.write ip ok)
        (s.move p { pk with metadata := fill pk.metadata ip } .done)
  | written {ip : Option IP} {sid : Nat} {ses : Session} {addr : UDPAddr}
      (hphase : pk.phase = .toRemote sid) (hses : s.sessions sid = some ses)
      (haddr : (fill pk.metadata ip).udpAddr = some addr) :
      PacketStep s p pk (.write ip true)
        ({ s with sent := s.sent ++
            (ses.sends { pk with metadata := fill pk.metadata ip } addr).toList }.move p
          { pk with metadata := fill pk.metadata ip } .done)
  | writeFailed {ip : Option IP} {sid : Nat} {ses : Session} (hses : s.sessions sid = some ses) :
      PacketStep s p pk (.write ip false)
        ((s.setSession sid { ses with writeFailed := true }).move p
          { pk with metadata := fill pk.metadata ip } (.failing sid))
  | deleteEntry {sid : Nat} (hphase : pk.phase = .failing sid) :
      PacketStep s p pk .deleteEntry ((s.delete pk.key).move p pk (.closing sid))
  | closeSession {sid : Nat} {ses : Session} (hses : s.sessions sid = some ses) :
      PacketStep s p pk .closeSession
        ((s.setSession sid { ses with closed := true }).move p pk .done)

theorem packetStep_cases {s s' : State} {p : Nat} {pk : Packet} {a : PacketAction}
    (h : packetStep s p pk a = some s') : PacketStep s p pk a s' := by
  cases a with
  | enter =>
      simp only [packetStep] at h
      split at h
      · rename_i hphase
        split at h
        · rename_i hfree
          cases h
          exact .lead hphase hfree
        · cases h
          exact .wait hphase
      · cases h
  | check =>
      simp only [packetStep] at h
      split at h
      · rename_i hphase
        split at h
        · cases h
          exact .found hphase
        · rename_i hnone
          cases h
          exact .missing hphase hnone
      · cases h
  | dial ip result =>
      simp only [packetStep] at h
      split at h
      · rename_i hphase
        split at h
        · cases h
          exact .dialFailed hphase
        · split at h
          · rename_i hnew hpc
            cases h
            exact .dialVmess hphase hnew hpc
          · cases h
        · split at h
          · rename_i hnew
            cases h
            exact .dialOther hphase hnew
          · cases h
      · cases h
  | spawn =>
      simp only [packetStep] at h
      split at h
      · rename_i hphase
        obtain ⟨ses, hses, rfl⟩ := Option.map_eq_some_iff.mp h
        exact .spawn hphase hses
      · cases h
  | publish =>
      simp only [packetStep] at h
      split at h
      · rename_i hphase
        obtain ⟨ses, hses, rfl⟩ := Option.map_eq_some_iff.mp h
        exact .publish hphase hses
      · cases h
  | leave =>
      simp only [packetStep] at h
      split at h
      · rename_i hphase
        cases h
        exact .leave hphase
      · cases h
  | reget =>
      simp only [packetStep] at h
      split at h
      · split at h <;> cases h
        · exact .again
        · exact .gone
      · cases h
  | write ip ok =>
      simp only [packetStep] at h
      split at h
      · rename_i hphase
        split at h
        · rename_i hnone
          cases h
          exact .noAddr hnone
        · rename_i haddr
          split at h
          · cases h
          · rename_i hses
            split at h
            · cases h
            · cases h
              exact .written hphase hses haddr
          · rename_i hses
            cases h
            exact .writeFailed hses
      · cases h
  | deleteEntry =>
      simp only [packetStep] at h
      split at h
      · rename_i hphase
        cases h
        exact .deleteEntry hphase
      · cases h
  | closeSession =>
      simp only [packetStep] at h
      split at h
      · obtain ⟨ses, hses, rfl⟩ := Option.map_eq_some_iff.mp h
        exact .closeSession hses
      · cases h

/-- The steps on a session: how it changes, and what else does. -/
inductive ReaderStep (s : State) (sid : Nat) (ses : Session) : ReaderAction → State → Prop where
  | count {n : Int} {reader : Reader} (hreader : ses.reader = .spawned)
      (hnext : reader = .closing ∨ reader = .running) :
      ReaderStep s sid ses .count
        ({ s with currentConns := n }.setSession sid { ses with reader := reader })
  | readError (hreader : ses.reader = .running) :
      ReaderStep s sid ses .readError (s.setSession sid { ses with reader := .closing })
  | close {n : Int} (hreader : ses.reader = .closing) :
      ReaderStep s sid ses .close
        ({ s with currentConns := n }.setSession sid { ses with reader := .deleting, closed := true })
  | delete (hreader : ses.reader = .deleting) :
      ReaderStep s sid ses .delete
        ((s.delete ses.key).setSession sid { ses with reader := .finished })
  | apiClose : ReaderStep s sid ses .apiClose (s.setSession sid { ses with closed := true })

theorem readerStep_cases {maxConns : Int} {s s' : State} {sid : Nat} {ses : Session}
    {a : ReaderAction} (h : readerStep maxConns s sid ses a = some s') :
    ReaderStep s sid ses a s' := by
  cases a with
  | count =>
      simp only [readerStep] at h
      split at h
      · rename_i hreader
        cases h
        refine .count hreader ?_
        split
        · exact Or.inl rfl
        · exact Or.inr rfl
      · cases h
  | readError =>
      simp only [readerStep] at h
      split at h
      · rename_i hreader
        cases h
        exact .readError hreader
      · cases h
  | close =>
      simp only [readerStep] at h
      split at h
      · rename_i hreader
        cases h
        exact .close hreader
      · cases h
  | delete =>
      simp only [readerStep] at h
      split at h
      · rename_i hreader
        cases h
        exact .delete hreader
      · cases h
  | apiClose =>
      cases h
      exact .apiClose

/-- The steps of the system. A packet that arrives goes to the session it finds,
or asks for one. -/
inductive Step (s : State) : Action → State → Prop where
  | arrive {p : Nat} {key data : Str} {m : Metadata} {phase : Phase}
      (hphase : phase = .wantDial ∨ ∃ sid, phase = .toRemote sid) :
      Step s (.arrive p key data m) (s.setPacket p ⟨key, data, m, phase⟩)
  | packet {p : Nat} {pk : Packet} {a : PacketAction} {s' : State} (hp : s.packets p = some pk)
      (hs : PacketStep s p pk a s') : Step s (.packet p a) s'
  | reader {sid : Nat} {ses : Session} {a : ReaderAction} {s' : State}
      (hses : s.sessions sid = some ses) (hs : ReaderStep s sid ses a s') :
      Step s (.reader sid a) s'
  | others {change n : Int} : Step s (.others change) { s with currentConns := n }

theorem step_cases {maxConns : Int} {s s' : State} {a : Action}
    (h : (system maxConns).step s a = some s') : Step s a s' := by
  cases a with
  | arrive p key data m =>
      simp only [system, step] at h
      split at h
      · cases h
      · split at h
        · rename_i sid _
          cases h
          exact .arrive (Or.inr ⟨sid, rfl⟩)
        · cases h
          exact .arrive (Or.inl rfl)
  | packet p a =>
      obtain ⟨pk, hp, h⟩ := Option.bind_eq_some_iff.mp h
      exact .packet hp (packetStep_cases h)
  | reader sid a =>
      obtain ⟨ses, hses, h⟩ := Option.bind_eq_some_iff.mp h
      exact .reader hses (readerStep_cases h)
  | others change =>
      cases h
      exact .others

/-! ## What holds throughout -/

/-- Between the entry into `udpSF.Do` and its return, on the leading side. -/
def Phase.inFlight : Phase → Bool
  | .leading => true
  | .dialing => true
  | .dialed _ => true
  | .started _ => true
  | .returning _ => true
  | _ => false

def Phase.beforeSet : Phase → Bool
  | .dialing => true
  | .dialed _ => true
  | .started _ => true
  | _ => false

def Phase.holds : Phase → Option Nat
  | .dialed sid => some sid
  | .started sid => some sid
  | _ => none

/-- Entries are published sessions of their address; one packet per address
dials, and it finds no entry until it sets its own. -/
structure Wf (s : State) : Prop where
  entry : ∀ key sid, s.table key = some sid →
    ∃ ses, s.sessions sid = some ses ∧ ses.key = key ∧ ses.published = true
  leads : ∀ p pk, s.packets p = some pk → pk.phase.inFlight = true → s.flight pk.key = some p
  absent : ∀ p pk, s.packets p = some pk → pk.phase.beforeSet = true → s.table pk.key = none
  holds : ∀ p pk sid, s.packets p = some pk → pk.phase.holds = some sid →
    ∃ ses, s.sessions sid = some ses ∧ ses.key = pk.key ∧ ses.published = false

theorem wf_init : Wf .init :=
  ⟨fun _ _ h => (nomatch h), fun _ _ h => (nomatch h), fun _ _ h => (nomatch h),
    fun _ _ _ h => (nomatch h)⟩

variable {s s' : State}

@[simp] theorem move_table (p : Nat) (pk : Packet) (phase : Phase) :
    (s.move p pk phase).table = s.table := rfl

@[simp] theorem move_sessions (p : Nat) (pk : Packet) (phase : Phase) :
    (s.move p pk phase).sessions = s.sessions := rfl

@[simp] theorem setSession_table (sid : Nat) (ses : Session) :
    (s.setSession sid ses).table = s.table := rfl

@[simp] theorem setSession_sessions (sid : Nat) (ses : Session) :
    (s.setSession sid ses).sessions = Function.update s.sessions sid (some ses) := rfl

@[simp] theorem delete_sessions (key : Str) : (s.delete key).sessions = s.sessions := rfl

structure Wf.Fits (s : State) (p : Nat) (pk : Packet) : Prop where
  leads : pk.phase.inFlight = true → s.flight pk.key = some p
  absent : pk.phase.beforeSet = true → s.table pk.key = none
  holds : ∀ sid, pk.phase.holds = some sid →
    ∃ ses, s.sessions sid = some ses ∧ ses.key = pk.key ∧ ses.published = false

theorem packets_setPacket {p q : Nat} {pk pk' : Packet}
    (h : (s.setPacket p pk).packets q = some pk') :
    q = p ∧ pk' = pk ∨ q ≠ p ∧ s.packets q = some pk' := by
  rcases eq_or_of_update h with ⟨hq, heq⟩ | hold
  · exact Or.inl ⟨hq, (Option.some.inj heq).symm⟩
  · exact Or.inr hold

theorem Wf.setPacket (h : Wf s) {p : Nat} {pk : Packet} (hfits : Wf.Fits s p pk) :
    Wf (s.setPacket p pk) where
  entry := h.entry
  leads := by
    intro q pk' hq hphase
    rcases packets_setPacket hq with ⟨rfl, rfl⟩ | ⟨-, hq⟩
    · exact hfits.leads hphase
    · exact h.leads q pk' hq hphase
  absent := by
    intro q pk' hq hphase
    rcases packets_setPacket hq with ⟨rfl, rfl⟩ | ⟨-, hq⟩
    · exact hfits.absent hphase
    · exact h.absent q pk' hq hphase
  holds := by
    intro q pk' sid hq hphase
    rcases packets_setPacket hq with ⟨rfl, rfl⟩ | ⟨-, hq⟩
    · exact hfits.holds sid hphase
    · exact h.holds q pk' sid hq hphase

theorem Wf.move (h : Wf s) {p : Nat} {pk : Packet} {phase : Phase}
    (hfits : Wf.Fits s p { pk with phase := phase }) : Wf (s.move p pk phase) :=
  h.setPacket hfits

theorem Wf.Fits.of_not_inFlight {p : Nat} {pk : Packet} (h : pk.phase.inFlight = false) :
    Wf.Fits s p pk := by
  obtain ⟨key, data, m, phase⟩ := pk
  cases phase <;> cases h <;> exact ⟨nofun, nofun, nofun⟩

/-- A session is opened, or changes in what it does but not in whose it is. -/
theorem Wf.setSession (h : Wf s) {sid : Nat} {ses' : Session}
    (hsame : ∀ ses, s.sessions sid = some ses → ses'.key = ses.key ∧ ses'.published = ses.published) :
    Wf (s.setSession sid ses') := by
  have hkeep : ∀ {sid' : Nat} {key : Str} {b : Bool},
      (∃ x, s.sessions sid' = some x ∧ x.key = key ∧ x.published = b) →
      ∃ x, (s.setSession sid ses').sessions sid' = some x ∧ x.key = key ∧ x.published = b := by
    rintro sid' key b ⟨x, hx, hxkey, hxpub⟩
    by_cases heq : sid' = sid
    · subst heq
      obtain ⟨hkey, hpub⟩ := hsame x hx
      exact ⟨ses', by simp, hkey.trans hxkey, hpub.trans hxpub⟩
    · exact ⟨x, by simpa [Function.update_of_ne heq] using hx, hxkey, hxpub⟩
  exact ⟨fun key sid' he => hkeep (h.entry key sid' he), h.leads, h.absent,
    fun q pk sid' hq hphase => hkeep (h.holds q pk sid' hq hphase)⟩

theorem Wf.changeSession (h : Wf s) {sid : Nat} {ses ses' : Session}
    (hses : s.sessions sid = some ses) (hkey : ses'.key = ses.key)
    (hpub : ses'.published = ses.published) : Wf (s.setSession sid ses') := by
  refine h.setSession fun x hx => ?_
  cases hses.symm.trans hx
  exact ⟨hkey, hpub⟩

theorem table_delete {key key' : Str} {sid : Nat} (h : (s.delete key).table key' = some sid) :
    key' ≠ key ∧ s.table key' = some sid := by
  by_cases hk : key' = key
  · subst hk
    simp [State.delete] at h
  · exact ⟨hk, by simpa [State.delete, Function.update_of_ne hk] using h⟩

theorem Wf.delete (h : Wf s) (key : Str) : Wf (s.delete key) where
  entry := fun key' sid he => h.entry key' sid (table_delete he).2
  leads := h.leads
  absent := by
    intro p pk hp hphase
    by_cases hk : pk.key = key
    · simp [State.delete, hk]
    · simpa [State.delete, Function.update_of_ne hk] using h.absent p pk hp hphase
  holds := h.holds

theorem Wf.leader_unique (h : Wf s) {p q : Nat} {pk pk' : Packet} (hp : s.packets p = some pk)
    (hq : s.packets q = some pk') (hphase : pk.phase.inFlight = true)
    (hphase' : pk'.phase.inFlight = true) (hkey : pk'.key = pk.key) : q = p := by
  have hlead := h.leads q pk' hq hphase'
  rw [hkey, h.leads p pk hp hphase] at hlead
  exact (Option.some.inj hlead).symm

theorem inFlight_of_beforeSet {phase : Phase} (h : phase.beforeSet = true) :
    phase.inFlight = true := by
  cases phase <;> first | rfl | cases h

theorem beforeSet_of_holds {phase : Phase} {sid : Nat} (h : phase.holds = some sid) :
    phase.beforeSet = true := by
  cases phase <;> first | rfl | cases h

theorem Wf.enter (h : Wf s) {p : Nat} {pk : Packet} (hfree : s.flight pk.key = none) :
    Wf ({ s with flight := Function.update s.flight pk.key (some p) }.move p pk .leading) := by
  have hflight : Wf { s with flight := Function.update s.flight pk.key (some p) } := by
    refine ⟨h.entry, fun q pk' hq hphase => ?_, h.absent, h.holds⟩
    have hlead := h.leads q pk' hq hphase
    have hne : pk'.key ≠ pk.key := by
      intro heq
      rw [heq, hfree] at hlead
      cases hlead
    simpa [Function.update_of_ne hne] using hlead
  exact hflight.move ⟨fun _ => by simp, nofun, nofun⟩

theorem Wf.publish (h : Wf s) {p sid : Nat} {pk : Packet} {ses : Session}
    (hp : s.packets p = some pk) (hphase : pk.phase = .started sid)
    (hs : s.sessions sid = some ses) :
    Wf (({ s with table := Function.update s.table pk.key (some sid) }.setSession sid
      { ses with published := true }).move p pk (.returning true)) := by
  have hlead : pk.phase.inFlight = true := by rw [hphase]; rfl
  obtain ⟨ses', hs', hkey, hpub⟩ := h.holds p pk sid hp (by rw [hphase]; rfl)
  cases hs.symm.trans hs'
  have hother : ∀ q pk', q ≠ p → s.packets q = some pk' → pk'.phase.beforeSet = true →
      pk'.key ≠ pk.key := fun q pk' hne hq hq' heq =>
    hne (h.leader_unique hp hq hlead (inFlight_of_beforeSet hq') heq)
  constructor
  · intro key sid' he
    by_cases hk : key = pk.key
    · subst hk
      obtain rfl : sid = sid' := by
        simpa using he
      exact ⟨{ ses with published := true }, by simp,
        hkey, rfl⟩
    · have he' : s.table key = some sid' := by
        simpa [Function.update_of_ne hk] using he
      obtain ⟨x, hx, hxkey, hxpub⟩ := h.entry key sid' he'
      have hne : sid' ≠ sid := by
        rintro rfl
        cases hs.symm.trans hx
        rw [hpub] at hxpub
        cases hxpub
      exact ⟨x, by simpa [Function.update_of_ne hne] using hx, hxkey, hxpub⟩
  · intro q pk' hq hq'
    rcases packets_setPacket hq with ⟨rfl, rfl⟩ | ⟨-, hq⟩
    · exact h.leads q pk hp hlead
    · exact h.leads q pk' hq hq'
  · intro q pk' hq hq'
    rcases packets_setPacket hq with ⟨rfl, rfl⟩ | ⟨hne, hq⟩
    · cases hq'
    · have hk := hother q pk' hne hq hq'
      simpa [Function.update_of_ne hk] using
        h.absent q pk' hq hq'
  · intro q pk' sid' hq hq'
    rcases packets_setPacket hq with ⟨rfl, rfl⟩ | ⟨hne, hq⟩
    · cases hq'
    · obtain ⟨x, hx, hxkey, hxpub⟩ := h.holds q pk' sid' hq hq'
      have hne' : sid' ≠ sid := by
        rintro rfl
        cases hs.symm.trans hx
        exact hother q pk' hne hq (beforeSet_of_holds hq') (hxkey.symm.trans hkey)
      exact ⟨x, by simpa [Function.update_of_ne hne'] using hx, hxkey, hxpub⟩

theorem release_cases {p q : Nat} {key : Str} {next : Phase} {pk pk' : Packet}
    (h : release p key next q pk = pk') :
    pk'.phase = next ∨ pk' = pk ∧ q ≠ p := by
  unfold release at h
  split at h
  · exact Or.inl (by rw [← h])
  · rename_i hno
    exact Or.inr ⟨h.symm, fun hq => hno (Or.inl hq)⟩

theorem Wf.leave (h : Wf s) {p : Nat} {pk : Packet} (hp : s.packets p = some pk)
    (hlead : pk.phase.inFlight = true) {next : Phase} (hnext : next.inFlight = false) :
    Wf { s with
      flight := Function.update s.flight pk.key none
      packets := fun q => (s.packets q).map (release p pk.key next q) } := by
  have hrelease : ∀ {q : Nat} {pk' : Packet},
      (s.packets q).map (release p pk.key next q) = some pk' → pk'.phase.inFlight = true →
      s.packets q = some pk' ∧ q ≠ p := by
    intro q pk' hq hphase
    obtain ⟨pk₀, hq₀, hrel⟩ := Option.map_eq_some_iff.mp hq
    rcases release_cases hrel with hpk | ⟨rfl, hne⟩
    · rw [hpk, hnext] at hphase
      cases hphase
    · exact ⟨hq₀, hne⟩
  constructor
  · exact h.entry
  · intro q pk' hq hphase
    obtain ⟨hq, hne⟩ := hrelease hq hphase
    have hk : pk'.key ≠ pk.key := fun heq => hne (h.leader_unique hp hq hlead hphase heq)
    simpa [Function.update_of_ne hk] using h.leads q pk' hq hphase
  · intro q pk' hq hphase
    exact h.absent q pk' (hrelease hq (inFlight_of_beforeSet hphase)).1 hphase
  · intro q pk' sid hq hphase
    have hflight := inFlight_of_beforeSet (beforeSet_of_holds hphase)
    exact h.holds q pk' sid (hrelease hq hflight).1 hphase

theorem Wf.opened (h : Wf s) {p sid : Nat} {pk : Packet} (hnew : s.sessions sid = none)
    (hlead : s.flight pk.key = some p) (habsent : s.table pk.key = none)
    {vmess : Option Vmess.PacketConn} : Wf (s.opened p pk sid vmess) := by
  refine Wf.move (h.setSession (by simp [hnew])) ⟨fun _ => hlead, fun _ => habsent, ?_⟩
  rintro _ ⟨⟩
  exact ⟨_, by rw [setSession_sessions, Function.update_self], rfl, rfl⟩

theorem Wf.packetStep (h : Wf s) {p : Nat} {pk : Packet} (hp : s.packets p = some pk)
    {a : PacketAction} (hs : PacketStep s p pk a s') : Wf s' := by
  have hlead : pk.phase.inFlight = true → s.flight pk.key = some p := h.leads p pk hp
  have habsent : pk.phase.beforeSet = true → s.table pk.key = none := h.absent p pk hp
  cases hs with
  | lead hphase hfree => exact h.enter hfree
  | wait hphase => exact h.move (.of_not_inFlight rfl)
  | found hphase => exact h.move ⟨fun _ => hlead (by rw [hphase]; rfl), nofun, nofun⟩
  | missing hphase hnone =>
      exact h.move ⟨fun _ => hlead (by rw [hphase]; rfl), fun _ => hnone, nofun⟩
  | dialFailed hphase => exact h.move ⟨fun _ => hlead (by rw [hphase]; rfl), nofun, nofun⟩
  | dialVmess hphase hnew _ | dialOther hphase hnew =>
      refine h.opened hnew ?_ ?_
      · exact hlead (by rw [hphase]; rfl)
      · exact habsent (by rw [hphase]; rfl)
  | @spawn sid ses hphase hses =>
      obtain ⟨ses', hses', hkey, hpub⟩ := h.holds p pk sid hp (by rw [hphase]; rfl)
      cases hses.symm.trans hses'
      refine Wf.move (h.changeSession hses ?_ ?_)
        ⟨fun _ => hlead (by rw [hphase]; rfl), fun _ => habsent (by rw [hphase]; rfl), ?_⟩
      · rfl
      · rfl
      · rintro _ ⟨⟩
        exact ⟨{ ses with reader := .spawned }, by simp, hkey, hpub⟩
  | publish hphase hses => exact h.publish hp hphase hses
  | @leave ok hphase =>
      refine h.leave hp (by rw [hphase]; rfl) ?_
      cases ok <;> rfl
  | again | gone | noAddr => exact h.move (.of_not_inFlight rfl)
  | written =>
      refine Wf.move ?_ (.of_not_inFlight rfl)
      exact ⟨h.entry, h.leads, h.absent, h.holds⟩
  | writeFailed hses | closeSession hses =>
      exact Wf.move (h.changeSession hses (by rfl) (by rfl)) (.of_not_inFlight (by rfl))
  | deleteEntry => exact Wf.move (h.delete pk.key) (.of_not_inFlight rfl)

theorem Wf.readerStep (h : Wf s) {sid : Nat} {ses : Session} (hses : s.sessions sid = some ses)
    {a : ReaderAction} (hs : ReaderStep s sid ses a s') : Wf s' := by
  have hcount : ∀ n : Int, Wf { s with currentConns := n } := fun n =>
    ⟨h.entry, h.leads, h.absent, h.holds⟩
  cases hs with
  | count | close => exact (hcount _).changeSession hses (by rfl) (by rfl)
  | readError | apiClose => exact h.changeSession hses (by rfl) (by rfl)
  | delete => exact (h.delete ses.key).changeSession hses (by rfl) (by rfl)

theorem wf_step {maxConns : Int} (h : Wf s) {a : Action}
    (hs : (system maxConns).step s a = some s') : Wf s' := by
  cases step_cases hs with
  | arrive hphase =>
      refine h.setPacket (.of_not_inFlight ?_)
      rcases hphase with rfl | ⟨sid, rfl⟩ <;> rfl
  | packet hp hs => exact h.packetStep hp hs
  | reader hses hs => exact h.readerStep hses hs
  | others => exact ⟨h.entry, h.leads, h.absent, h.holds⟩

end RuleBaseProxy.UDP
