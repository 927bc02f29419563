import Mathlib.Algebra.BigOperators.Group.List.Basic
import Mathlib.Data.BitVec
import Mathlib.Tactic.Abel
import RuleBaseProxy.Lib.GoString
import RuleBaseProxy.Lib.Transition

/-! # Traffic counters

Three mechanisms move bytes into the totals of the manager: the tick of `handle`
adds what each tracker has counted since the tick before, `SetUploadTotal` and
`SetDownloadTotal` add to tracker and manager at once, and the tick passes over
trackers in zero-copy mode. Every call is one action, except that the tick is a
`Range` over a `sync.Map`, so one action for each tracker it comes to.
-/

namespace RuleBaseProxy.Statistic.Traffic

open Go TransitionSystem

/-- Go's `int64`; sums wrap around. -/
abbrev Int64 := BitVec 64

inductive Direction where
  | upload
  | download
deriving DecidableEq

/-- `UploadTotal` with `TempUpload`, or `DownloadTotal` with `TempDownload`. -/
structure Counter where
  total : Int64
  temp : Int64
deriving DecidableEq

structure TrackerInfo where
  chain : List Str
  upload : Counter
  download : Counter
  markGC : Bool
  modeZeroCopy : Bool
deriving DecidableEq

def TrackerInfo.counter (t : TrackerInfo) : Direction → Counter
  | .upload => t.upload
  | .download => t.download

def TrackerInfo.setCounter (t : TrackerInfo) (c : Counter) : Direction → TrackerInfo
  | .upload => { t with upload := c }
  | .download => { t with download := c }

/-- `tt.UploadTotal += n` and `tt.DownloadTotal += n`. -/
def TrackerInfo.count (t : TrackerInfo) (d : Direction) (n : Int64) : TrackerInfo :=
  t.setCounter { t.counter d with total := (t.counter d).total + n } d

/-- What `NewTCPTracker` is given: the chains of a dialed connection, or the name
of the proxy. -/
def TrackerInfo.new (conn : Option (List Str)) (proxy : Option Str) : TrackerInfo where
  chain :=
    match conn, proxy with
    | some chains, _ => chains
    | none, some name => [str "DISP", name]
    | none, none => [str "INIT"]
  upload := ⟨0, 0⟩
  download := ⟨0, 0⟩
  markGC := false
  modeZeroCopy := false

/-- `allTempUpload += tinfo.UploadTotal - tinfo.TempUpload`, likewise for downloads:
what the tick adds for the tracker. -/
def TrackerInfo.unticked (t : TrackerInfo) (d : Direction) : Int64 :=
  if t.modeZeroCopy then 0 else (t.counter d).total - (t.counter d).temp

def TrackerInfo.ticked (t : TrackerInfo) : TrackerInfo :=
  if t.modeZeroCopy then t
  else { t with
    upload := ⟨t.upload.total, t.upload.total⟩
    download := ⟨t.download.total, t.download.total⟩ }

structure Manager where
  connections : List Nat
  uploadBlip : Int64
  downloadBlip : Int64
  uploadTotal : Int64
  downloadTotal : Int64
deriving DecidableEq

def Manager.total (m : Manager) : Direction → Int64
  | .upload => m.uploadTotal
  | .download => m.downloadTotal

def Manager.addTotal (m : Manager) (n : Int64) : Direction → Manager
  | .upload => { m with uploadTotal := m.uploadTotal + n }
  | .download => { m with downloadTotal := m.downloadTotal + n }

/-- A tick that has begun. `Range` comes to every tracker that is in the map all
the time, to none twice, and perhaps to those that join or leave meanwhile. -/
structure Tick where
  start : List Nat
  joined : List Nat
  seen : List Nat
  allTempUpload : Int64
  allTemDownLoad : Int64
  /-- No transfer since it began. -/
  quiet : Bool
deriving DecidableEq

def Tick.all (k : Tick) : Direction → Int64
  | .upload => k.allTempUpload
  | .download => k.allTemDownLoad

/-- The trackers are all that ever joined, by their ids. -/
structure State where
  trackers : List TrackerInfo
  manager : Manager
  tick : Option Tick
deriving DecidableEq

def State.init : State := ⟨[], ⟨[], 0, 0, 0, 0⟩, none⟩

def State.setTracker (s : State) (id : Nat) (t : TrackerInfo) : State :=
  { s with trackers := s.trackers.set id t }

/-- A transfer takes place, also while the tick goes on. -/
def State.disturb (s : State) : State :=
  { s with tick := s.tick.map fun k => { k with quiet := false } }

/-- `Read` and `Write`, by the direction of the bytes. -/
def State.transfer (s : State) (d : Direction) (id : Nat) (n : Int64) : Option State :=
  s.trackers[id]?.map fun t => (s.setTracker id (t.count d n)).disturb

/-- `SetUploadTotal` and `SetDownloadTotal`. -/
def State.setTotal (s : State) (d : Direction) (id : Nat) (n : Int64) : Option State :=
  s.trackers[id]?.map fun t =>
    let s := (s.setTracker id (t.count d n)).disturb
    { s with manager := s.manager.addTotal n d }

inductive Action where
  | newTCPTracker (conn : Option (List Str)) (proxy : Option Str)
  /-- The tunnel sets the `Chain` of the tracker. -/
  | setChain (id : Nat) (chain : List Str)
  | read (id : Nat) (n : Int64)
  | write (id : Nat) (n : Int64)
  | setModeZeroCopy (id : Nat) (modeZeroCopy : Bool)
  | setUploadTotal (id : Nat) (upload : Int64)
  | setDownloadTotal (id : Nat) (download : Int64)
  | close (id : Nat)
  | tickStart
  | tickVisit (id : Nat)
  | tickEnd

def State.newTCPTracker (s : State) (conn : Option (List Str)) (proxy : Option Str) : State where
  trackers := s.trackers ++ [.new conn proxy]
  manager := { s.manager with connections := s.trackers.length :: s.manager.connections }
  tick := s.tick.map fun k => { k with joined := s.trackers.length :: k.joined }

/-- `tcpTracker.Close`: a failed connection is only marked the first time. An
empty chain is indexed out of range. -/
def State.close (s : State) (id : Nat) : Option State :=
  s.trackers[id]?.bind fun t => t.chain.getLast?.map fun last =>
    if last = str "ERROR" ∧ t.markGC = false then s.setTracker id { t with markGC := true }
    else
      let connections := s.manager.connections.filter (· ≠ id)
      { s with manager := { s.manager with connections := connections } }

def State.tickStart (s : State) : Option State :=
  match s.tick with
  | some _ => none
  | none => some { s with tick := some ⟨s.manager.connections, [], [], 0, 0, true⟩ }

def State.tickVisit (s : State) (id : Nat) : Option State :=
  s.tick.bind fun k => s.trackers[id]?.bind fun t =>
    if (id ∈ k.start ∨ id ∈ k.joined) ∧ id ∉ k.seen then
      let k := { k with
        seen := id :: k.seen
        allTempUpload := k.allTempUpload + t.unticked .upload
        allTemDownLoad := k.allTemDownLoad + t.unticked .download }
      some { s.setTracker id t.ticked with tick := some k }
    else none

def State.tickEnd (s : State) : Option State :=
  s.tick.bind fun k =>
    if ∀ id ∈ k.start, id ∈ s.manager.connections → id ∈ k.seen then
      some { s with
        tick := none
        manager := { s.manager with
          uploadBlip := k.allTempUpload
          downloadBlip := k.allTemDownLoad
          uploadTotal := s.manager.uploadTotal + k.allTempUpload
          downloadTotal := s.manager.downloadTotal + k.allTemDownLoad } }
    else none

def step (s : State) : Action → Option State
  | .newTCPTracker conn proxy => some (s.newTCPTracker conn proxy)
  | .setChain id chain => s.trackers[id]?.map fun t => s.setTracker id { t with chain := chain }
  | .read id n => s.transfer .download id n
  | .write id n => s.transfer .upload id n
  | .setModeZeroCopy id mode =>
      s.trackers[id]?.map fun t => s.setTracker id { t with modeZeroCopy := mode }
  | .setUploadTotal id n => s.setTotal .upload id n
  | .setDownloadTotal id n => s.setTotal .download id n
  | .close id => s.close id
  | .tickStart => s.tickStart
  | .tickVisit id => s.tickVisit id
  | .tickEnd => s.tickEnd

def system : System State Action := ⟨step⟩

/-! ## What the tick makes up for -/

theorem sum_map_set {β G : Type*} [AddCommGroup G] (f : β → G) {l : List β} {i : Nat} {x : β}
    (h : l[i]? = some x) (y : β) : ((l.set i y).map f).sum = (l.map f).sum + (f y - f x) := by
  induction l generalizing i with
  | nil => simp at h
  | cons z l ih =>
      cases i with
      | zero =>
          obtain rfl : z = x := by simpa using h
          simp only [List.set_cons_zero, List.map_cons, List.sum_cons]
          abel
      | succ i =>
          simp only [List.set_cons_succ, List.map_cons, List.sum_cons, ih (by simpa using h)]
          abel

def TrackerInfo.total (t : TrackerInfo) (d : Direction) : Int64 := (t.counter d).total

/-- Nothing has been counted that the tick has not come to. -/
def TrackerInfo.PickedUp (t : TrackerInfo) : Prop := ∀ d, (t.counter d).total = (t.counter d).temp

/-- The totals of the manager are the sums over all trackers that ever joined. -/
def Accounted (s : State) : Prop :=
  ∀ d, s.manager.total d = (s.trackers.map (·.total d)).sum

/-- Every tick that ends without a transfer since it began leaves the totals right. -/
def Settles (s : State) : Prop :=
  ∀ k s', s.tick = some k → k.quiet = true → s.tickEnd = some s' → Accounted s'

/-- Bytes are read and written while the tracker is in the manager and not in
zero-copy mode, and added to both totals only in that mode. The mode is changed,
and the tracker leaves, when the tick has come to all that was counted. -/
def Timely (s : State) : Action → Prop
  | .read id n | .write id n => ∀ t, s.trackers[id]? = some t →
      n = 0 ∨ id ∈ s.manager.connections ∧ t.modeZeroCopy = false
  | .setUploadTotal id n | .setDownloadTotal id n => ∀ t, s.trackers[id]? = some t →
      n = 0 ∨ t.modeZeroCopy = true
  | .setModeZeroCopy id mode => ∀ t, s.trackers[id]? = some t →
      mode = t.modeZeroCopy ∨ t.PickedUp
  | .close id => ∀ t, s.trackers[id]? = some t →
      (t.chain.getLast? = some (str "ERROR") → t.markGC = true) →
      t.modeZeroCopy = true ∨ t.PickedUp
  | _ => True

def State.inTick (s : State) (d : Direction) : Int64 := s.tick.elim 0 (·.all d)

structure Accounts (s : State) : Prop where
  balanced : ∀ d, s.manager.total d + s.inTick d + (s.trackers.map (·.unticked d)).sum =
    (s.trackers.map (·.total d)).sum
  /-- A tracker that has left has nothing for the tick. -/
  left : ∀ id t, s.trackers[id]? = some t → id ∉ s.manager.connections → ∀ d, t.unticked d = 0
  /-- In an undisturbed tick only what it has not come to is left to add. -/
  ahead : ∀ k, s.tick = some k → k.quiet = true → ∀ id t, s.trackers[id]? = some t →
    ∀ d, t.unticked d ≠ 0 → id ∈ k.start ∧ id ∉ k.seen

theorem accounts_init : Accounts .init where
  balanced := by
    intro d
    cases d <;> rfl
  left := by
    intro id t ht
    cases ht
  ahead := by
    intro k hk
    cases hk

section Trackers

variable (t : TrackerInfo)

theorem unticked_of_pickedUp {t : TrackerInfo} (h : t.PickedUp) (d : Direction) :
    t.unticked d = 0 := by
  simp [TrackerInfo.unticked, h d]

theorem unticked_of_zeroCopy {t : TrackerInfo} (h : t.modeZeroCopy = true) (d : Direction) :
    t.unticked d = 0 := by
  simp [TrackerInfo.unticked, h]

theorem modeZeroCopy_count (d : Direction) (n : Int64) :
    (t.count d n).modeZeroCopy = t.modeZeroCopy := by
  cases d <;> rfl

theorem total_count (d d' : Direction) (n : Int64) :
    (t.count d n).total d' = t.total d' + if d' = d then n else 0 := by
  cases d <;> cases d' <;> simp [TrackerInfo.count, TrackerInfo.total, TrackerInfo.setCounter,
    TrackerInfo.counter]

theorem unticked_count {t : TrackerInfo} (h : t.modeZeroCopy = false) (d d' : Direction)
    (n : Int64) : (t.count d n).unticked d' = t.unticked d' + if d' = d then n else 0 := by
  unfold TrackerInfo.unticked
  rw [modeZeroCopy_count, h]
  cases d <;> cases d' <;> simp [TrackerInfo.count, TrackerInfo.setCounter,
    TrackerInfo.counter, add_sub_right_comm]

theorem total_ticked (d : Direction) : t.ticked.total d = t.total d := by
  unfold TrackerInfo.ticked
  split
  · rfl
  · cases d <;> rfl

theorem unticked_ticked (d : Direction) : t.ticked.unticked d = 0 := by
  unfold TrackerInfo.ticked
  split
  · rename_i h
    exact unticked_of_zeroCopy h d
  · cases d <;> simp [TrackerInfo.unticked, TrackerInfo.counter]

theorem unticked_new (conn : Option (List Str)) (proxy : Option Str) (d : Direction) :
    (TrackerInfo.new conn proxy).unticked d = 0 := by
  cases d <;> simp [TrackerInfo.unticked, TrackerInfo.new, TrackerInfo.counter]

theorem total_new (conn : Option (List Str)) (proxy : Option Str) (d : Direction) :
    (TrackerInfo.new conn proxy).total d = 0 := by
  cases d <;> rfl

end Trackers

variable {s s' : State} {id : Nat} {t t' : TrackerInfo}

/-- One tracker is replaced, and what it takes from the tick or gains in its total
is made up for in the manager or in the tick. -/
theorem Accounts.update (h : Accounts s) (ht : s.trackers[id]? = some t) {m : Manager}
    {tick : Option Tick} (hconn : m.connections = s.manager.connections)
    (hsum : ∀ d, m.total d + tick.elim 0 (·.all d) + (t'.unticked d - t.unticked d) =
      s.manager.total d + s.inTick d + (t'.total d - t.total d))
    (hleft : id ∉ s.manager.connections → ∀ d, t'.unticked d = 0)
    (hahead : ∀ k', tick = some k' → k'.quiet = true →
      (∃ k, s.tick = some k ∧ k.quiet = true ∧ k.start = k'.start ∧
        ∀ id', id' ≠ id → id' ∉ k.seen → id' ∉ k'.seen) ∧
      ∀ d, t'.unticked d ≠ 0 → id ∈ k'.start ∧ id ∉ k'.seen) :
    Accounts ⟨s.trackers.set id t', m, tick⟩ := by
  have hlt : id < s.trackers.length := (List.getElem?_eq_some_iff.mp ht).1
  have hother : ∀ id' u, (s.trackers.set id t')[id']? = some u →
      id' = id ∧ u = t' ∨ id' ≠ id ∧ s.trackers[id']? = some u := by
    intro id' u hu
    by_cases heq : id' = id
    · subst heq
      rw [List.getElem?_set_self hlt] at hu
      exact Or.inl ⟨rfl, (Option.some.inj hu).symm⟩
    · rw [List.getElem?_set_ne (Ne.symm heq)] at hu
      exact Or.inr ⟨heq, hu⟩
  refine ⟨fun d => ?_, fun id' u hu hmem d => ?_, fun k' hk' hquiet id' u hu d hne => ?_⟩
  · have hbal := h.balanced d
    simp only [State.inTick, sum_map_set _ ht]
    calc m.total d + tick.elim 0 (·.all d) +
          ((s.trackers.map (·.unticked d)).sum + (t'.unticked d - t.unticked d))
        = m.total d + tick.elim 0 (·.all d) + (t'.unticked d - t.unticked d) +
          (s.trackers.map (·.unticked d)).sum := by abel
      _ = s.manager.total d + s.inTick d + (s.trackers.map (·.unticked d)).sum +
          (t'.total d - t.total d) := by rw [hsum d]; abel
      _ = (s.trackers.map (·.total d)).sum + (t'.total d - t.total d) := by rw [hbal]
  · simp only [hconn] at hmem
    rcases hother id' u hu with ⟨rfl, rfl⟩ | ⟨_, hu⟩
    · exact hleft hmem d
    · exact h.left id' u hu hmem d
  · obtain ⟨⟨k, hk, hkquiet, hstart, hseen⟩, hself⟩ := hahead k' hk' hquiet
    rcases hother id' u hu with ⟨rfl, rfl⟩ | ⟨hid, hu⟩
    · exact hself d hne
    · obtain ⟨hmem, hnot⟩ := h.ahead k hk hkquiet id' u hu d hne
      exact ⟨hstart ▸ hmem, hseen id' hid hnot⟩

theorem Accounts.setTracker (h : Accounts s) (ht : s.trackers[id]? = some t)
    (htotal : ∀ d, t'.total d = t.total d) (hunticked : ∀ d, t'.unticked d = t.unticked d) :
    Accounts (s.setTracker id t') := by
  refine h.update ht rfl (fun d => ?_) (fun hmem d => ?_) (fun k hk hquiet => ⟨?_, fun d hne => ?_⟩)
  · simp [State.inTick, htotal, hunticked]
  · rw [hunticked]
    exact h.left id t ht hmem d
  · exact ⟨k, hk, hquiet, rfl, fun _ _ hnot => hnot⟩
  · rw [hunticked] at hne
    exact h.ahead k hk hquiet id t ht d hne

theorem inTick_disturb (d : Direction) : s.disturb.inTick d = s.inTick d := by
  cases s with
  | mk trackers manager tick =>
      cases tick with
      | none => rfl
      | some k => cases d <;> rfl

/-- A transfer counts in the tracker and, by way of `m`, perhaps in the manager. -/
theorem Accounts.transfer (h : Accounts s) (ht : s.trackers[id]? = some t) {m : Manager}
    (hconn : m.connections = s.manager.connections)
    (hsum : ∀ d, m.total d + (t'.unticked d - t.unticked d) =
      s.manager.total d + (t'.total d - t.total d))
    (hleft : id ∉ s.manager.connections → ∀ d, t'.unticked d = 0) :
    Accounts { (s.setTracker id t').disturb with manager := m } := by
  refine h.update ht hconn (fun d => ?_) hleft fun k' hk' hquiet => ?_
  · have htick : (s.setTracker id t').disturb.inTick d = s.inTick d := inTick_disturb d
    unfold State.inTick at htick ⊢
    rw [htick, add_right_comm, hsum d, add_right_comm]
  · obtain ⟨k, _, rfl⟩ := Option.map_eq_some_iff.mp hk'
    cases hquiet

theorem total_addTotal (m : Manager) (n : Int64) (d d' : Direction) :
    (m.addTotal n d).total d' = m.total d' + if d' = d then n else 0 := by
  cases d <;> cases d' <;> simp [Manager.addTotal, Manager.total]

theorem count_zero (t : TrackerInfo) (d : Direction) : t.count d 0 = t := by
  cases d <;> simp [TrackerInfo.count, TrackerInfo.setCounter, TrackerInfo.counter]

theorem Accounts.readWrite (h : Accounts s) {d : Direction} {n : Int64}
    (hg : ∀ t, s.trackers[id]? = some t →
      n = 0 ∨ id ∈ s.manager.connections ∧ t.modeZeroCopy = false)
    (hs : s.transfer d id n = some s') : Accounts s' := by
  obtain ⟨t, ht, rfl⟩ := Option.map_eq_some_iff.mp hs
  rcases hg t ht with rfl | ⟨hmem, hmode⟩
  · rw [count_zero]
    exact h.transfer ht rfl (fun d' => by simp [State.setTracker])
      fun hnot => h.left id t ht hnot
  · refine h.transfer ht rfl (fun d' => ?_) fun hnot => absurd hmem hnot
    simp [State.setTracker, unticked_count hmode, total_count]

theorem Accounts.setTotal (h : Accounts s) {d : Direction} {n : Int64}
    (hg : ∀ t, s.trackers[id]? = some t → n = 0 ∨ t.modeZeroCopy = true)
    (hs : s.setTotal d id n = some s') : Accounts s' := by
  obtain ⟨t, ht, rfl⟩ := Option.map_eq_some_iff.mp hs
  have hconn : (s.manager.addTotal n d).connections = s.manager.connections := by cases d <;> rfl
  have hsame : ∀ d', (t.count d n).unticked d' = t.unticked d' := by
    intro d'
    rcases hg t ht with rfl | hmode
    · rw [count_zero]
    · rw [unticked_of_zeroCopy hmode, unticked_of_zeroCopy ((modeZeroCopy_count t d n).trans hmode)]
  refine h.transfer ht hconn (fun d' => ?_) fun hnot d' => (hsame d').trans (h.left id t ht hnot d')
  simp [State.setTracker, State.disturb, hsame, total_addTotal, total_count]

theorem Accounts.setModeZeroCopy (h : Accounts s) (ht : s.trackers[id]? = some t) {mode : Bool}
    (hg : mode = t.modeZeroCopy ∨ t.PickedUp) :
    Accounts (s.setTracker id { t with modeZeroCopy := mode }) := by
  rcases hg with rfl | hpicked
  · exact h.setTracker ht (fun _ => rfl) (fun _ => rfl)
  · have hpicked' : ({ t with modeZeroCopy := mode } : TrackerInfo).PickedUp := by
      intro d
      cases d with
      | upload => exact hpicked .upload
      | download => exact hpicked .download
    refine h.setTracker ht (fun d => ?_) fun d => ?_
    · cases d <;> rfl
    · rw [unticked_of_pickedUp hpicked, unticked_of_pickedUp hpicked']

theorem Accounts.leave (h : Accounts s) (ht : s.trackers[id]? = some t)
    (hnone : ∀ d, t.unticked d = 0) :
    Accounts { s with manager :=
      { s.manager with connections := s.manager.connections.filter (· ≠ id) } } := by
  refine ⟨fun d => ?_, fun id' u hu hmem d => ?_, h.ahead⟩
  · cases d with
    | upload => exact h.balanced .upload
    | download => exact h.balanced .download
  · by_cases heq : id' = id
    · subst heq
      cases ht.symm.trans hu
      exact hnone d
    · exact h.left id' u hu (fun hin => hmem (by simp [hin, heq])) d

theorem Accounts.close (h : Accounts s) (hg : Timely s (.close id)) (hs : s.close id = some s') :
    Accounts s' := by
  obtain ⟨t, ht, hs⟩ := Option.bind_eq_some_iff.mp hs
  obtain ⟨last, hlast, rfl⟩ := Option.map_eq_some_iff.mp hs
  split
  · exact h.setTracker ht (fun d => by cases d <;> rfl) (fun d => by cases d <;> rfl)
  · rename_i hmark
    have hmarked : t.chain.getLast? = some (str "ERROR") → t.markGC = true := by
      intro herror
      cases herror.symm.trans hlast
      simpa using hmark
    refine h.leave ht fun d => ?_
    rcases hg t ht hmarked with hmode | hpicked
    · exact unticked_of_zeroCopy hmode d
    · exact unticked_of_pickedUp hpicked d

theorem Accounts.newTCPTracker (h : Accounts s) (conn : Option (List Str)) (proxy : Option Str) :
    Accounts (s.newTCPTracker conn proxy) := by
  have hnew : ∀ (id' : Nat) (u : TrackerInfo),
      (s.newTCPTracker conn proxy).trackers[id']? = some u →
      s.trackers[id']? = some u ∨ u = .new conn proxy := by
    intro id' u hu
    simp only [State.newTCPTracker, List.getElem?_append] at hu
    split at hu
    · exact Or.inl hu
    · exact Or.inr (List.mem_singleton.mp (List.mem_of_getElem? hu))
  refine ⟨fun d => ?_, fun id' u hu hmem d => ?_, fun k' hk' hquiet id' u hu d hne => ?_⟩
  · have htick : (s.newTCPTracker conn proxy).inTick d = s.inTick d := by
      unfold State.inTick State.newTCPTracker
      cases s.tick with
      | none => rfl
      | some k => cases d <;> rfl
    have htotal : (s.newTCPTracker conn proxy).manager.total d = s.manager.total d := by
      cases d <;> rfl
    rw [htick, htotal]
    simpa [State.newTCPTracker, unticked_new, total_new] using h.balanced d
  · rcases hnew id' u hu with hu | rfl
    · exact h.left id' u hu (fun hin => hmem (List.mem_cons_of_mem _ hin)) d
    · exact unticked_new conn proxy d
  · obtain ⟨k, hk, rfl⟩ := Option.map_eq_some_iff.mp hk'
    rcases hnew id' u hu with hu | rfl
    · exact h.ahead k hk hquiet id' u hu d hne
    · exact absurd (unticked_new conn proxy d) hne

theorem Accounts.tickStart (h : Accounts s) (hs : s.tickStart = some s') : Accounts s' := by
  unfold State.tickStart at hs
  split at hs
  · cases hs
  · rename_i hidle
    cases hs
    refine ⟨fun d => ?_, h.left, fun k hk _ id t ht d hne => ?_⟩
    · have hzero : s.inTick d = 0 := by simp [State.inTick, hidle]
      rw [← h.balanced d, hzero]
      cases d <;> rfl
    · cases hk
      refine ⟨?_, List.not_mem_nil⟩
      by_contra hnot
      exact hne (h.left id t ht hnot d)

theorem Accounts.tickVisit (h : Accounts s) (hs : s.tickVisit id = some s') : Accounts s' := by
  obtain ⟨k, hk, hs⟩ := Option.bind_eq_some_iff.mp hs
  obtain ⟨t, ht, hs⟩ := Option.bind_eq_some_iff.mp hs
  obtain ⟨-, ⟨⟩⟩ := Option.ite_none_right_eq_some.mp hs
  refine h.update ht rfl (fun d => ?_) (fun _ d => unticked_ticked t d) fun k' hk' hquiet => ?_
  · have hall : s.inTick d = k.all d := by simp [State.inTick, hk]
    rw [hall, unticked_ticked, total_ticked]
    cases d <;> simp only [Option.elim_some, Tick.all, State.setTracker] <;> abel
  · cases hk'
    refine ⟨⟨k, hk, hquiet, rfl, fun id' hne hnot => ?_⟩, fun d hne => ?_⟩
    · exact List.not_mem_cons_of_ne_of_not_mem hne hnot
    · exact absurd (unticked_ticked t d) hne

theorem total_tickEnd (hs : s.tickEnd = some s') (d : Direction) :
    s'.manager.total d = s.manager.total d + s.inTick d ∧ s'.trackers = s.trackers ∧
      s'.manager.connections = s.manager.connections ∧ s'.tick = none := by
  obtain ⟨k, hk, hs⟩ := Option.bind_eq_some_iff.mp hs
  obtain ⟨-, ⟨⟩⟩ := Option.ite_none_right_eq_some.mp hs
  have hall : s.inTick d = k.all d := by simp [State.inTick, hk]
  rw [hall]
  cases d <;> exact ⟨rfl, rfl, rfl, rfl⟩

theorem Accounts.tickEnd (h : Accounts s) (hs : s.tickEnd = some s') : Accounts s' := by
  refine ⟨fun d => ?_, fun id t ht hmem d => ?_, fun k hk => ?_⟩
  · obtain ⟨htotal, htrackers, -, htick⟩ := total_tickEnd hs d
    simp [State.inTick, htick, htotal, htrackers, ← h.balanced d]
  · obtain ⟨-, htrackers, hconn, -⟩ := total_tickEnd hs d
    rw [htrackers] at ht
    rw [hconn] at hmem
    exact h.left id t ht hmem d
  · obtain ⟨-, -, -, htick⟩ := total_tickEnd hs .upload
    cases htick.symm.trans hk

theorem Accounts.settles (h : Accounts s) : Settles s := by
  intro k s' hk hquiet hs d
  obtain ⟨htotal, htrackers, -, -⟩ := total_tickEnd hs d
  obtain ⟨k', hk', hs⟩ := Option.bind_eq_some_iff.mp hs
  obtain ⟨hseen, -⟩ := Option.ite_none_right_eq_some.mp hs
  cases hk.symm.trans hk'
  have hnone : ∀ x ∈ s.trackers.map (·.unticked d), x = 0 := by
    intro x hx
    obtain ⟨t, ht, rfl⟩ := List.mem_map.mp hx
    obtain ⟨id, hid⟩ := List.getElem?_of_mem ht
    by_contra hne
    obtain ⟨hstart, hnot⟩ := h.ahead k hk hquiet id t hid d hne
    have hmem : id ∈ s.manager.connections := by
      by_contra hout
      exact hne (h.left id t hid hout d)
    exact hnot (hseen id hstart hmem)
  rw [htotal, htrackers, ← h.balanced d, List.sum_eq_zero hnone, add_zero]

theorem accounts_step {a : Action} (h : Accounts s) (hg : Timely s a)
    (hs : system.step s a = some s') : Accounts s' := by
  cases a with
  | newTCPTracker conn proxy =>
      cases hs
      exact h.newTCPTracker conn proxy
  | setChain id chain =>
      obtain ⟨t, ht, rfl⟩ := Option.map_eq_some_iff.mp hs
      exact h.setTracker ht (fun d => by cases d <;> rfl) (fun d => by cases d <;> rfl)
  | read id n => exact h.readWrite hg hs
  | write id n => exact h.readWrite hg hs
  | setModeZeroCopy id mode =>
      obtain ⟨t, ht, rfl⟩ := Option.map_eq_some_iff.mp hs
      exact h.setModeZeroCopy ht (hg t ht)
  | setUploadTotal id n => exact h.setTotal hg hs
  | setDownloadTotal id n => exact h.setTotal hg hs
  | close id => exact h.close hg hs
  | tickStart => exact h.tickStart hs
  | tickVisit id => exact h.tickVisit hs
  | tickEnd => exact h.tickEnd hs

/-- In a run in which transfers, changes of the mode and closes come in time for
the tick, every undisturbed tick leaves the totals of the manager equal to the
sums over all trackers that ever joined. -/
theorem settles_of_timely (as : List Action) (hg : system.Guarded Timely .init as) :
    system.Always Settles .init as := by
  have haccounts : system.Always Accounts .init as :=
    System.always_of_guarded _ (fun _ _ _ h hg hs => accounts_step h hg hs) accounts_init hg
  exact haccounts.mono _ fun _ h => h.settles

/-- One connection is read from, goes over to zero-copy mode after a tick, uploads
in that mode and is closed. -/
theorem settles_of_timely_zeroCopy :
    system.Always Settles .init
      [.newTCPTracker none none, .read 0 7, .tickStart, .tickVisit 0, .tickEnd,
        .setModeZeroCopy 0 true, .setUploadTotal 0 5, .close 0, .tickStart] := by
  refine settles_of_timely _ ?_
  refine .cons _ rfl trivial (.cons _ rfl ?_ (.cons _ rfl trivial (.cons _ rfl trivial ?_)))
  · intro t ht
    cases ht
    exact Or.inr ⟨List.mem_cons_self, rfl⟩
  refine .cons _ rfl trivial (.cons _ rfl ?_ (.cons _ rfl ?_ (.cons _ rfl ?_ ?_)))
  · intro t ht
    cases ht
    exact Or.inr fun d => by cases d <;> rfl
  · intro t ht
    cases ht
    exact Or.inr rfl
  · intro t ht _
    cases ht
    exact Or.inl rfl
  exact .cons _ rfl trivial trivial

/-- Five bytes are written and the connection is closed before the next tick. -/
theorem closed_before_tick_not_counted :
    ¬ system.Always Settles .init
      [.newTCPTracker none none, .write 0 5, .close 0, .tickStart] := by
  refine System.not_always_of_run _ ⟨_, rfl, fun h => ?_⟩
  have hupload := h ⟨[], [], [], 0, 0, true⟩ _ rfl rfl rfl .upload
  revert hupload
  decide

end RuleBaseProxy.Statistic.Traffic
