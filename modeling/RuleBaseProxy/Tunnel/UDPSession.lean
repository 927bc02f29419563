import RuleBaseProxy.Tunnel.UDP

/-! # The life of a UDP session

What one step does to `natTable` and to the sessions is said once, in
`tableStep` and `sessionStep`. From it follow, for every interleaving, the
conditions under which a live session keeps its entry, a finished one has none,
and a datagram of a vmess session goes where its packet wants.
-/

namespace RuleBaseProxy.UDP

open Go Go.Net TransitionSystem

/-- Published, its reader in the loop, and no write on it has failed. -/
def Session.live (ses : Session) : Bool := ses.published && ses.reader.alive && !ses.writeFailed

/-- The session on which the packet has failed to write, before it deletes the entry. -/
def Phase.failed : Phase → Option Nat
  | .failing sid => some sid
  | _ => none

/-- The address whose entry the action deletes, and the session of the goroutine
that does it. The code has no use for the second. -/
def deletes (s : State) : Action → Option (Str × Nat)
  | .packet p .deleteEntry => (s.packets p).bind fun pk => pk.phase.failed.map (pk.key, ·)
  | .reader sid .delete => (s.sessions sid).map fun ses => (ses.key, sid)
  | _ => none

def publishes (s : State) : Action → Option (Str × Nat)
  | .packet p .publish => (s.packets p).bind fun pk => pk.phase.holds.map (pk.key, ·)
  | _ => none

/-! ## What a step does to the table -/

inductive TableStep (s : State) (a : Action) (s' : State) : Prop where
  | kept (hd : deletes s a = none) (hp : publishes s a = none) (ht : s'.table = s.table)
  | deleted (key : Str) (owner : Nat) (hd : deletes s a = some (key, owner))
      (hp : publishes s a = none) (ht : s'.table = Function.update s.table key none)
  | published (key : Str) (sid : Nat) (hd : deletes s a = none)
      (hp : publishes s a = some (key, sid)) (habsent : s.table key = none)
      (ht : s'.table = Function.update s.table key (some sid))

variable {s s' : State} {a : Action} {maxConns : Int}

theorem tableStep (hw : Wf s) (hs : (system maxConns).step s a = some s') :
    TableStep s a s' := by
  cases step_cases hs with
  | arrive | others => exact .kept rfl rfl rfl
  | @packet p pk a _ hp hs =>
      cases hs with
      | @publish sid ses hphase hses =>
          have habsent : s.table pk.key = none := hw.absent p pk hp (by rw [hphase]; rfl)
          exact .published pk.key sid rfl (by simp [publishes, hp, hphase, Phase.holds]) habsent rfl
      | @deleteEntry sid hphase =>
          exact .deleted pk.key sid (by simp [deletes, hp, hphase, Phase.failed]) rfl rfl
      | _ => exact .kept rfl rfl rfl
  | @reader sid ses a _ hses hs =>
      cases hs with
      | delete hreader => exact .deleted ses.key sid (by simp [deletes, hses]) rfl rfl
      | _ => exact .kept rfl rfl rfl

/-! ## What a step does to a session -/

structure Session.Next (s : State) (a : Action) (sid : Nat) (ses ses' : Session) : Prop where
  key : ses'.key = ses.key := by rfl
  dialed : ses'.dialed = ses.dialed := by rfl
  vmess : ses'.vmess = ses.vmess := by rfl
  writeFailed : ses.writeFailed = true → ses'.writeFailed = true := by exact fun h => h
  live : ses'.live = true → ses.live = true ∨ publishes s a = some (ses.key, sid)
  finished : ses'.reader = .finished → ses.reader = .finished ∨ deletes s a = some (ses.key, sid)
  /-- What deletes an entry does not end a live session. -/
  survives : deletes s a ≠ none → ses.live = true → ses'.live = true := by
    exact fun h => absurd rfl h
  reader : publishes s a ≠ none → ses'.reader = ses.reader := by exact fun h => absurd rfl h

structure Session.Fresh (ses : Session) : Prop where
  published : ses.published = false
  reader : ses.reader = .notStarted
  vmess : ∀ pc, ses.vmess = some pc → Vmess.dialUDP ses.dialed = some pc

inductive SessionStep (s : State) (a : Action) (s' : State) (sid : Nat) : Prop where
  | kept (h : s'.sessions sid = s.sessions sid)
  | changed {ses ses' : Session} (hses : s.sessions sid = some ses)
      (hses' : s'.sessions sid = some ses') (hnext : ses.Next s a sid ses')
  | opened {ses' : Session} (hnew : s.sessions sid = none) (hses' : s'.sessions sid = some ses')
      (hfresh : ses'.Fresh)

theorem SessionStep.of_update {sid₀ : Nat} {ses₀ : Session}
    (h : s'.sessions = Function.update s.sessions sid₀ (some ses₀))
    (h₀ : SessionStep s a s' sid₀) (sid : Nat) : SessionStep s a s' sid := by
  by_cases heq : sid = sid₀
  · exact heq ▸ h₀
  · exact .kept (by rw [h, Function.update_of_ne heq])

theorem SessionStep.of_next {sid₀ : Nat} {ses ses₀ : Session} (hses : s.sessions sid₀ = some ses)
    (h : s'.sessions = Function.update s.sessions sid₀ (some ses₀))
    (hnext : ses.Next s a sid₀ ses₀) (sid : Nat) : SessionStep s a s' sid :=
  of_update h (.changed hses (by rw [h, Function.update_self]) hnext) sid

theorem SessionStep.of_fresh {sid₀ : Nat} {ses₀ : Session} (hnew : s.sessions sid₀ = none)
    (h : s'.sessions = Function.update s.sessions sid₀ (some ses₀))
    (hfresh : ses₀.Fresh) (sid : Nat) : SessionStep s a s' sid :=
  of_update h (.opened hnew (by rw [h, Function.update_self]) hfresh) sid

theorem Session.live_iff {ses : Session} :
    ses.live = true ↔ ses.published = true ∧ ses.reader.alive = true ∧ ses.writeFailed = false := by
  simp [Session.live, and_assoc]

theorem Session.not_live_of_reader {ses : Session} (h : ses.reader.alive = false) :
    ses.live = false := by
  simp [Session.live, h]

theorem PacketStep.sessionStep (hw : Wf s) {p : Nat} {pk : Packet} (hp : s.packets p = some pk)
    {a : PacketAction} (hs : PacketStep s p pk a s') (sid : Nat) :
    SessionStep s (.packet p a) s' sid := by
  cases hs with
  | dialVmess hphase hnew hpc =>
      refine .of_fresh hnew rfl ?_ sid
      refine ⟨rfl, rfl, ?_⟩
      rintro pc ⟨⟩
      exact hpc
  | dialOther hphase hnew =>
      refine .of_fresh hnew rfl ?_ sid
      exact ⟨rfl, rfl, nofun⟩
  | @spawn sid₀ ses hphase hses =>
      obtain ⟨ses', hses', -, hpub⟩ := hw.holds p pk sid₀ hp (by rw [hphase]; rfl)
      cases hses.symm.trans hses'
      refine .of_next hses rfl ?_ sid
      exact { live := fun h => by simp [Session.live, hpub] at h, finished := nofun }
  | @publish sid₀ ses hphase hses =>
      obtain ⟨ses', hses', hkey, -⟩ := hw.holds p pk sid₀ hp (by rw [hphase]; rfl)
      cases hses.symm.trans hses'
      have hpub : publishes s (.packet p .publish) = some (ses.key, sid₀) := by
        simp [publishes, hp, hphase, Phase.holds, hkey]
      refine .of_next hses rfl ?_ sid
      exact { live := fun _ => Or.inr hpub, finished := Or.inl, reader := fun _ => rfl }
  | writeFailed hses =>
      refine .of_next hses rfl ?_ sid
      exact { live := fun h => by simp [Session.live] at h, finished := Or.inl,
              writeFailed := fun _ => rfl }
  | closeSession hses =>
      refine .of_next hses rfl ?_ sid
      exact { live := Or.inl, finished := Or.inl }
  | _ => exact .kept rfl

theorem ReaderStep.sessionStep {sid₀ : Nat} {ses : Session} (hses : s.sessions sid₀ = some ses)
    {a : ReaderAction} (hs : ReaderStep s sid₀ ses a s') (sid : Nat) :
    SessionStep s (.reader sid₀ a) s' sid := by
  cases hs with
  | count hreader hnext =>
      refine .of_next hses rfl ?_ sid
      refine { live := fun h => Or.inl ?_, finished := ?_ }
      · rw [Session.live_iff] at h ⊢
        exact ⟨h.1, by rw [hreader]; rfl, h.2.2⟩
      · rcases hnext with rfl | rfl <;> nofun
  | readError hreader =>
      refine .of_next hses rfl ?_ sid
      exact { live := fun h => by simp [Session.live, Reader.alive] at h,
              finished := nofun }
  | close hreader =>
      refine .of_next hses rfl ?_ sid
      exact { live := fun h => by simp [Session.live, Reader.alive] at h,
              finished := nofun }
  | delete hreader =>
      have hdead : ses.live = false := Session.not_live_of_reader (by rw [hreader]; rfl)
      refine .of_next hses rfl ?_ sid
      exact { live := fun h => by simp [Session.live, Reader.alive] at h,
              finished := fun _ => Or.inr (by simp [deletes, hses]),
              survives := fun _ h => by simp [hdead] at h }
  | apiClose =>
      refine .of_next hses rfl ?_ sid
      exact { live := Or.inl, finished := Or.inl }

theorem sessionStep (hw : Wf s) (hs : (system maxConns).step s a = some s') (sid : Nat) :
    SessionStep s a s' sid := by
  cases step_cases hs with
  | arrive | others => exact .kept rfl
  | packet hp hs => exact hs.sessionStep hw hp sid
  | reader hses hs => exact hs.sessionStep hses sid

theorem tableStep_of_publishes (hw : Wf s) (hs : (system maxConns).step s a = some s') {key : Str}
    {sid : Nat} (h : publishes s a = some (key, sid)) : s'.table key = some sid := by
  cases tableStep hw hs with
  | kept _ hp _ | deleted _ _ _ hp _ => simp [hp] at h
  | published key' sid' _ hp _ ht =>
      rw [hp] at h
      cases h
      rw [ht, Function.update_self]

/-! ## A live session is the entry of its address -/

def Registered (s : State) : Prop :=
  ∀ sid ses, s.sessions sid = some ses → ses.live = true → s.table ses.key = some sid

/-- A goroutine that deletes the entry of its address finds there its own
session, or one that is not live, if any. -/
def DeletesOwn (s : State) (a : Action) : Prop :=
  ∀ key owner sid ses, deletes s a = some (key, owner) → s.table key = some sid →
    s.sessions sid = some ses → sid = owner ∨ ses.live = false

/-- A packet is about to delete the entry only after a failed write. -/
def WriteFailed (s : State) : Prop :=
  ∀ p pk sid, s.packets p = some pk → pk.phase.failed = some sid →
    ∃ ses, s.sessions sid = some ses ∧ ses.writeFailed = true

theorem registered_init : Registered .init := fun _ _ h => (nomatch h)

theorem writeFailed_init : WriteFailed .init := fun _ _ _ h => (nomatch h)

theorem failed_move {p q sid : Nat} {pk pk' : Packet} {phase : Phase}
    (h : (s.move p pk phase).packets q = some pk') (hne : phase.failed = none)
    (hphase : pk'.phase.failed = some sid) : s.packets q = some pk' := by
  rcases packets_setPacket h with ⟨-, rfl⟩ | ⟨-, h⟩
  · simp [hne] at hphase
  · exact h

theorem PacketStep.failed_before {p q sid : Nat} {pk pk' : Packet} {a : PacketAction}
    (hs : PacketStep s p pk a s') (hq : s'.packets q = some pk')
    (hphase : pk'.phase.failed = some sid) :
    s.packets q = some pk' ∨ ∃ ses', s'.sessions sid = some ses' ∧ ses'.writeFailed = true := by
  cases hs with
  | @leave ok _ =>
      obtain ⟨pk₀, hq₀, hrel⟩ := Option.map_eq_some_iff.mp hq
      rcases release_cases hrel with hnext | ⟨rfl, -⟩
      · rw [hnext] at hphase
        cases ok <;> cases hphase
      · exact Or.inl hq₀
  | @writeFailed ip sid₀ ses hses =>
      rcases packets_setPacket hq with ⟨-, rfl⟩ | ⟨-, hq⟩
      · cases hphase
        exact Or.inr ⟨{ ses with writeFailed := true }, by simp, rfl⟩
      · exact Or.inl hq
  | _ => exact Or.inl (failed_move hq rfl hphase)

theorem failed_before (hs : (system maxConns).step s a = some s') {q sid : Nat} {pk' : Packet}
    (hq : s'.packets q = some pk') (hphase : pk'.phase.failed = some sid) :
    s.packets q = some pk' ∨ ∃ ses', s'.sessions sid = some ses' ∧ ses'.writeFailed = true := by
  cases step_cases hs with
  | arrive hnew =>
      rcases packets_setPacket hq with ⟨-, rfl⟩ | ⟨-, hq⟩
      · rcases hnew with rfl | ⟨sid, rfl⟩ <;> cases hphase
      · exact Or.inl hq
  | packet hp hs => exact hs.failed_before hq hphase
  | reader hses hs => cases hs <;> exact Or.inl hq
  | others => exact Or.inl hq

theorem writeFailed_step (hw : Wf s) (hf : WriteFailed s)
    (hs : (system maxConns).step s a = some s') : WriteFailed s' := by
  intro q pk' sid hq hphase
  rcases failed_before hs hq hphase with hq | hses'
  · obtain ⟨ses, hses, hfailed⟩ := hf q pk' sid hq hphase
    cases sessionStep hw hs sid with
    | kept h => exact ⟨ses, h.trans hses, hfailed⟩
    | @changed ses₀ ses' hses₀ h hnext =>
        cases hses.symm.trans hses₀
        exact ⟨ses', h, hnext.writeFailed hfailed⟩
    | opened hnew => simp [hnew] at hses
  · exact hses'

theorem owner_not_live (hf : WriteFailed s) (hs : (system maxConns).step s a = some s')
    {key : Str} {owner : Nat} (hd : deletes s a = some (key, owner)) {ses : Session}
    (hses : s.sessions owner = some ses) : ses.live = false := by
  cases step_cases hs with
  | arrive | others => cases hd
  | @packet p pk a _ hp hs =>
      cases hs with
      | @deleteEntry sid hphase =>
          obtain ⟨ses₀, hses₀, hfailed⟩ := hf p pk sid hp (by rw [hphase]; rfl)
          simp only [deletes, hp, hphase, Phase.failed, Option.bind_some, Option.map_some,
            Option.some.injEq, Prod.mk.injEq] at hd
          rw [hd.2, hses] at hses₀
          cases hses₀
          simp [Session.live, hfailed]
      | _ => cases hd
  | @reader sid ses₀ a _ hses₀ hs =>
      cases hs with
      | delete hreader =>
          simp only [deletes, hses₀, Option.map_some, Option.some.injEq, Prod.mk.injEq] at hd
          rw [hd.2, hses] at hses₀
          cases hses₀
          exact Session.not_live_of_reader (by rw [hreader]; rfl)
      | _ => cases hd

/-- A session that is live after the step was live before it, or is published by it. -/
theorem live_before (hw : Wf s) (hs : (system maxConns).step s a = some s') {sid : Nat}
    {ses' : Session} (hses' : s'.sessions sid = some ses') (hlive : ses'.live = true) :
    (∃ ses, s.sessions sid = some ses ∧ ses.key = ses'.key ∧ ses.live = true) ∨
      publishes s a = some (ses'.key, sid) := by
  cases sessionStep hw hs sid with
  | kept h => exact Or.inl ⟨ses', h.symm.trans hses', rfl, hlive⟩
  | @changed ses ses'' hses h hnext =>
      cases h.symm.trans hses'
      rcases hnext.live hlive with hl | hp
      · exact Or.inl ⟨ses, hses, hnext.key.symm, hl⟩
      · exact Or.inr (by rw [hp, hnext.key])
  | opened hnew h hfresh =>
      cases h.symm.trans hses'
      simp [Session.live, hfresh.published] at hlive

theorem live_after (hw : Wf s) (hs : (system maxConns).step s a = some s') {sid : Nat}
    {ses : Session} (hses : s.sessions sid = some ses) (hlive : ses.live = true)
    (hd : deletes s a ≠ none) :
    ∃ ses', s'.sessions sid = some ses' ∧ ses'.key = ses.key ∧ ses'.live = true := by
  cases sessionStep hw hs sid with
  | kept h => exact ⟨ses, h.trans hses, rfl, hlive⟩
  | @changed ses₀ ses' hses₀ h hnext =>
      cases hses.symm.trans hses₀
      exact ⟨ses', h, hnext.key, hnext.survives hd hlive⟩
  | opened hnew => simp [hnew] at hses

theorem deletesOwn_of_registered (hw : Wf s) (hs : (system maxConns).step s a = some s')
    (hr' : Registered s') : DeletesOwn s a := by
  intro key owner sid ses hd hentry hses
  right
  by_contra hlive
  have hlive : ses.live = true := by simpa using hlive
  obtain ⟨ses', hses', hkey, hlive'⟩ := live_after hw hs hses hlive (by simp [hd])
  have hgone := hr' sid ses' hses' hlive'
  obtain ⟨ses₀, hses₀, hkey₀, -⟩ := hw.entry key sid hentry
  cases hses.symm.trans hses₀
  cases tableStep hw hs with
  | kept hd' | published _ _ hd' => simp [hd'] at hd
  | deleted key' owner' hd' _ ht =>
      cases hd'.symm.trans hd
      simp [ht, hkey, hkey₀] at hgone

theorem registered_of_deletesOwn (hw : Wf s) (hf : WriteFailed s) (hr : Registered s)
    (hs : (system maxConns).step s a = some s') (hown : DeletesOwn s a) : Registered s' := by
  intro sid ses' hses' hlive'
  rcases live_before hw hs hses' hlive' with ⟨ses, hses, hkey, hlive⟩ | hp
  · have hentry := hr sid ses hses hlive
    rw [hkey] at hentry
    cases tableStep hw hs with
    | kept _ _ ht => rw [ht, hentry]
    | deleted key owner hd _ ht =>
        have hne : ses'.key ≠ key := by
          rintro rfl
          rcases hown _ owner sid ses hd hentry hses with rfl | hdead
          · simp [owner_not_live hf hs hd hses] at hlive
          · simp [hdead] at hlive
        rw [ht, Function.update_of_ne hne, hentry]
    | published key sid' _ _ habsent ht =>
        have hne : ses'.key ≠ key := by
          rintro rfl
          simp [habsent] at hentry
        rw [ht, Function.update_of_ne hne, hentry]
  · exact tableStep_of_publishes hw hs hp

/-- In a run every live session stays the entry of its address exactly when no
goroutine deletes the entry of a live session that is not its own. -/
theorem registered_always_iff (maxConns : Int) (as : List Action) :
    (system maxConns).Always Registered .init as ↔
      (system maxConns).Guarded DeletesOwn .init as := by
  have hkeep : ∀ s a s', Wf s ∧ WriteFailed s → Registered s →
      (system maxConns).step s a = some s' → DeletesOwn s a → Wf s' ∧ WriteFailed s' :=
    fun _ _ _ hinv _ hs _ => ⟨wf_step hinv.1 hs, writeFailed_step hinv.1 hinv.2 hs⟩
  refine System.always_iff_guarded _ hkeep ?_ as ⟨wf_init, writeFailed_init⟩ registered_init
  intro s a s' hinv hr hs
  exact ⟨deletesOwn_of_registered hinv.1 hs, registered_of_deletesOwn hinv.1 hinv.2 hr hs⟩

def datagramTo (n : UInt8) : Metadata :=
  ⟨.UDP, .SOCKS5, some (.v4 10 0 0 1), some (.v4 1 1 1 n), str "1234",
    str "53", atypIPv4, []⟩

/-- A packet that finds no session dials one and publishes it. -/
def openSession (p : Nat) (key : Str) (m : Metadata) (result : DialResult) : List Action :=
  [.arrive p key (str "hello") m, .packet p .enter, .packet p .check, .packet p (.dial none result),
    .packet p .spawn, .packet p .publish, .packet p .leave, .packet p .reget]

/-- The reader of session 0 fails and closes it. Before it deletes the entry, a
packet fails to write and does so too, and the next packet opens session 1.
Then the reader deletes the entry of session 1. -/
theorem late_delete_unregisters_live_session :
    ¬ (system 5000).Always Registered .init
      (openSession 0 (str "10.0.0.1:1234") (datagramTo 1) (.other 0) ++
        [.reader 0 .count, .reader 0 .readError, .reader 0 .close,
          .packet 0 (.write none false), .packet 0 .deleteEntry, .packet 0 .closeSession] ++
        openSession 1 (str "10.0.0.1:1234") (datagramTo 1) (.other 1) ++
        [.reader 1 .count, .reader 0 .delete]) := by
  refine System.not_always_of_run _ ⟨_, rfl, fun h => ?_⟩
  have hentry := h 1
    ⟨str "10.0.0.1:1234", datagramTo 1, none, .running, true, false, false⟩ rfl rfl
  cases hentry

/-! ## No entry refers to a session whose reader has ended -/

/-- The reader of no session in the table has run its deferred calls. -/
def NoneFinished (s : State) : Prop :=
  ∀ key sid ses, s.table key = some sid → s.sessions sid = some ses → ses.reader ≠ .finished

/-- `natTable.Set` runs before the reader of the session has ended. -/
def SetsInTime (s : State) (a : Action) : Prop :=
  ∀ key sid ses, publishes s a = some (key, sid) → s.sessions sid = some ses →
    ses.reader ≠ .finished

theorem noneFinished_init : NoneFinished .init := fun _ _ _ h => (nomatch h)

/-- A session whose reader has ended after the step was so before it, or the
step deletes the entry of its address. -/
theorem finished_before (hw : Wf s) (hs : (system maxConns).step s a = some s') {sid : Nat}
    {ses' : Session} (hses' : s'.sessions sid = some ses') (hfin : ses'.reader = .finished) :
    ∃ ses, s.sessions sid = some ses ∧ (ses.reader = .finished ∨ deletes s a = some (ses.key, sid)) := by
  cases sessionStep hw hs sid with
  | kept h => exact ⟨ses', h.symm.trans hses', Or.inl hfin⟩
  | @changed ses ses'' hses h hnext =>
      cases h.symm.trans hses'
      exact ⟨ses, hses, hnext.finished hfin⟩
  | opened hnew h hfresh =>
      cases h.symm.trans hses'
      rw [hfresh.reader] at hfin
      cases hfin

theorem reader_of_publishes (hw : Wf s) (hs : (system maxConns).step s a = some s') {sid : Nat}
    {ses : Session} (hses : s.sessions sid = some ses) (hp : publishes s a ≠ none) :
    ∃ ses', s'.sessions sid = some ses' ∧ ses'.reader = ses.reader := by
  cases sessionStep hw hs sid with
  | kept h => exact ⟨ses, h.trans hses, rfl⟩
  | @changed ses₀ ses' hses₀ h hnext =>
      cases hses.symm.trans hses₀
      exact ⟨ses', h, hnext.reader hp⟩
  | opened hnew => simp [hnew] at hses

theorem noneFinished_step_iff (hw : Wf s) (hn : NoneFinished s)
    (hs : (system maxConns).step s a = some s') : NoneFinished s' ↔ SetsInTime s a := by
  constructor
  · intro hn' key sid ses hp hses hfin
    obtain ⟨ses', hses', hreader⟩ := reader_of_publishes hw hs hses (by simp [hp])
    exact hn' key sid ses' (tableStep_of_publishes hw hs hp) hses' (hreader.trans hfin)
  · intro htime key sid ses' hentry' hses' hfin
    obtain ⟨ses, hses, hbefore⟩ := finished_before hw hs hses' hfin
    have hold : s.table key = some sid → deletes s a = some (key, sid) := by
      intro hentry
      obtain ⟨ses₀, hses₀, hkey₀, -⟩ := hw.entry key sid hentry
      cases hses.symm.trans hses₀
      rcases hbefore with hfin₀ | hd
      · exact absurd hfin₀ (hn key sid ses hentry hses)
      · rw [hd, hkey₀]
    cases tableStep hw hs with
    | kept hd _ ht =>
        rw [ht] at hentry'
        simp [hold hentry'] at hd
    | deleted key' owner hd _ ht =>
        by_cases hk : key = key'
        · simp [ht, hk] at hentry'
        · rw [ht, Function.update_of_ne hk] at hentry'
          cases (hold hentry').symm.trans hd
          exact hk rfl
    | published key' sid' hd hp _ ht =>
        by_cases hk : key = key'
        · subst hk
          rw [ht, Function.update_self] at hentry'
          cases hentry'
          rcases hbefore with hfin₀ | hd'
          · exact htime key sid ses hp hses hfin₀
          · simp [hd] at hd'
        · rw [ht, Function.update_of_ne hk] at hentry'
          simp [hold hentry'] at hd

/-- In a run no entry ever refers to a session whose reader has ended exactly
when every `natTable.Set` comes before the end of its reader. -/
theorem noneFinished_always_iff (maxConns : Int) (as : List Action) :
    (system maxConns).Always NoneFinished .init as ↔
      (system maxConns).Guarded SetsInTime .init as := by
  have hkeep : ∀ s a s', Wf s → NoneFinished s → (system maxConns).step s a = some s' →
      SetsInTime s a → Wf s' := fun _ _ _ hw _ hs _ => wf_step hw hs
  exact System.always_iff_guarded _ hkeep (fun _ _ _ hw hn hs => noneFinished_step_iff hw hn hs) as
    wf_init noneFinished_init

/-- The reader meets the limit, closes the session and deletes an entry that is
not there yet; then the session is published. -/
theorem set_after_breaker_publishes_finished :
    ¬ (system 5000).Always NoneFinished .init
      [.others 5000, .arrive 0 (str "10.0.0.1:1234") (str "hello") (datagramTo 1), .packet 0 .enter,
        .packet 0 .check, .packet 0 (.dial none (.other 0)), .packet 0 .spawn, .reader 0 .count,
        .reader 0 .close, .reader 0 .delete, .packet 0 .publish] := by
  refine System.not_always_of_run _ ⟨_, rfl, fun h => ?_⟩
  exact h (str "10.0.0.1:1234") 0
    ⟨str "10.0.0.1:1234", datagramTo 1, none, .finished, true, false, true⟩ rfl rfl rfl

/-! ## A vmess session sends where its packets want -/

/-- Every datagram that a vmess session has accepted went to the destination of
its own packet. -/
def Delivered (s : State) : Prop := ∀ e ∈ s.sent, e.wire = Vmess.parseVmessAddr e.metadata

/-- A packet that is written to a vmess session has the destination the session
was dialed with. -/
def SameDestination (s : State) : Action → Prop
  | .packet p (.write ip true) => ∀ pk sid ses, s.packets p = some pk → pk.phase = .toRemote sid →
      s.sessions sid = some ses → ses.vmess.isSome → (fill pk.metadata ip).udpAddr.isSome →
      Vmess.parseVmessAddr (fill pk.metadata ip) = Vmess.parseVmessAddr ses.dialed
  | _ => True

/-- The header of a vmess session names the destination it was dialed with. -/
def HeadersDialed (s : State) : Prop :=
  ∀ sid ses pc, s.sessions sid = some ses → ses.vmess = some pc →
    pc.header = Vmess.parseVmessAddr ses.dialed

theorem headersDialed_init : HeadersDialed .init := fun _ _ _ h => (nomatch h)

theorem headersDialed_step (hw : Wf s) (hh : HeadersDialed s)
    (hs : (system maxConns).step s a = some s') : HeadersDialed s' := by
  intro sid ses' pc hses' hpc
  cases sessionStep hw hs sid with
  | kept h => exact hh sid ses' pc (h.symm.trans hses') hpc
  | @changed ses ses'' hses h hnext =>
      cases h.symm.trans hses'
      rw [hnext.vmess] at hpc
      rw [hnext.dialed]
      exact hh sid ses pc hses hpc
  | opened hnew h hfresh =>
      cases h.symm.trans hses'
      exact Vmess.header_of_dialUDP (hfresh.vmess pc hpc)

theorem sent_of_step (hs : (system maxConns).step s a = some s') :
    s'.sent = s.sent ∧ SameDestination s a ∨
    ∃ p ip pk sid ses addr, a = .packet p (.write ip true) ∧ s.packets p = some pk ∧
      pk.phase = .toRemote sid ∧ s.sessions sid = some ses ∧
      (fill pk.metadata ip).udpAddr = some addr ∧
      s'.sent = s.sent ++ (ses.sends { pk with metadata := fill pk.metadata ip } addr).toList := by
  cases step_cases hs with
  | arrive | others => exact Or.inl ⟨rfl, trivial⟩
  | @packet p pk a _ hp hs =>
      cases hs with
      | @noAddr ip ok hnone =>
          refine Or.inl ⟨rfl, ?_⟩
          cases ok with
          | false => trivial
          | true =>
              intro pk' sid ses hp' _ _ _ haddr
              cases hp.symm.trans hp'
              simp [hnone] at haddr
      | @written ip sid ses addr hphase hses haddr =>
          exact Or.inr ⟨p, ip, pk, sid, ses, addr, rfl, hp, hphase, hses, haddr, rfl⟩
      | _ => exact Or.inl ⟨rfl, trivial⟩
  | reader hses hs => cases hs <;> exact Or.inl ⟨rfl, trivial⟩

theorem delivered_step_iff (hh : HeadersDialed s) (hd : Delivered s)
    (hs : (system maxConns).step s a = some s') : Delivered s' ↔ SameDestination s a := by
  rcases sent_of_step hs with ⟨hsent, hsame⟩ | ⟨p, ip, pk, sid, ses, addr, rfl, hp, hphase, hses,
    haddr, hsent⟩
  · simp only [Delivered, hsent]
    exact iff_of_true hd hsame
  · cases hpc : ses.vmess with
    | none =>
        have hsame : SameDestination s (.packet p (.write ip true)) := by
          intro pk' sid' ses' hp' hphase' hses' hvmess
          cases hp.symm.trans hp'
          cases hphase.symm.trans hphase'
          cases hses.symm.trans hses'
          simp [hpc] at hvmess
        simp only [Delivered, hsent, Session.sends, hpc]
        exact iff_of_true (by simpa [Delivered] using hd) hsame
    | some pc =>
        have hheader := hh sid ses pc hses hpc
        have hadd : Delivered s' ↔ pc.header = Vmess.parseVmessAddr (fill pk.metadata ip) := by
          simp only [Delivered, hsent, Session.sends, hpc, Option.map_some, Option.toList_some,
            List.mem_append, List.mem_singleton, Vmess.PacketConn.writeTo]
          exact ⟨fun h => h _ (Or.inr rfl), fun h e he => he.elim (hd e) (fun heq => heq ▸ h)⟩
        rw [hadd, hheader]
        constructor
        · intro heq pk' sid' ses' hp' hphase' hses' _ _
          cases hp.symm.trans hp'
          cases hphase.symm.trans hphase'
          cases hses.symm.trans hses'
          exact heq.symm
        · intro hsame
          exact (hsame pk sid ses hp hphase hses (by simp [hpc]) (by simp [haddr])).symm

/-- In a run every datagram of a vmess session goes to the destination of its
packet exactly when no packet is written to a session that was dialed for
another destination. -/
theorem delivered_always_iff (maxConns : Int) (as : List Action) :
    (system maxConns).Always Delivered .init as ↔
      (system maxConns).Guarded SameDestination .init as := by
  have hkeep : ∀ s a s', Wf s ∧ HeadersDialed s → Delivered s →
      (system maxConns).step s a = some s' → SameDestination s a → Wf s' ∧ HeadersDialed s' :=
    fun _ _ _ hinv _ hs _ => ⟨wf_step hinv.1 hs, headersDialed_step hinv.1 hinv.2 hs⟩
  have hinit : Delivered .init := fun _ h => (nomatch h)
  exact System.always_iff_guarded _ hkeep (fun _ _ _ hinv hd hs => delivered_step_iff hinv.2 hd hs)
    as ⟨wf_init, headersDialed_init⟩ hinit

/-- Two packets from one local address, the first to 1.1.1.1 and the second to
1.1.1.2: both go to 1.1.1.1. -/
theorem second_packet_follows_first :
    ¬ (system 5000).Always Delivered .init
      (openSession 0 (str "10.0.0.1:1234") (datagramTo 1) (.vmess 0) ++
        [.packet 0 (.write none true), .arrive 1 (str "10.0.0.1:1234") (str "hello") (datagramTo 2),
          .packet 1 (.write none true)]) := by
  refine System.not_always_of_run _ ⟨_, rfl, fun h => ?_⟩
  have hwire := h ⟨datagramTo 2, ⟨true, 1, [1, 1, 1, 1], 53⟩, str "hello"⟩
    (List.mem_cons_of_mem _ List.mem_cons_self)
  exact absurd hwire (by decide)

end RuleBaseProxy.UDP
