import RuleBaseProxy.Lib.Transition
import RuleBaseProxy.Lib.GoString
import RuleBaseProxy.Lib.GoDuration

/-! # The reverse mapping

`withMapping` writes the host of an answer into the mapping and sends the pair
through a queue of 500 to `processDnsMap`, which starts a goroutine for each pair;
that goroutine writes `Dm` and then the database. Every access to a shared map is
one step here, and a run is any interleaving of the calls and goroutines. The maps
are large enough to keep what is put into them.
-/

namespace RuleBaseProxy.Dns.Mapping

open Go TransitionSystem

/-! ## DnsPreCache -/

/-- The maps `Dm`, `Dm_se`, `Dm_se_domain` and `Dm_ttl` of the tunnel. -/
structure DnsCaches where
  dm : Str → Option Str
  dmSe : Str → Option Str
  dmSeDomain : Str → Option Str
  dmTtl : Str → Option Nat

namespace DnsCaches

def seKey (ip : Str) : Str := ip ++ str "_se"

/-- Another domain of the address moves to the second level. -/
def demote (c : DnsCaches) (domain ip : Str) (endTime : Nat) : DnsCaches :=
  match c.dm ip with
  | none => c
  | some seDomain =>
      if seDomain = domain then c
      else
        { c with
          dmSe := Function.update c.dmSe ip (some seDomain)
          dmSeDomain := Function.update c.dmSeDomain seDomain (some [])
          dmTtl := Function.update c.dmTtl (seKey ip) (some ((c.dmTtl ip).getD endTime)) }

/-- The second level of the address is dropped once its time is over. -/
def expire (c : DnsCaches) (domain ip : Str) (now : Nat) : DnsCaches :=
  match c.dmTtl (seKey ip) with
  | none => c
  | some seEndTime =>
      if seEndTime < now then
        { c with
          dmSe := Function.update c.dmSe ip none
          dmSeDomain :=
            match c.dmSe ip with
            | none => c.dmSeDomain
            | some endDomain =>
                if domain ≠ endDomain ∧ (c.dmTtl endDomain).any (· < now) then
                  Function.update c.dmSeDomain endDomain none
                else c.dmSeDomain
          dmTtl := Function.update c.dmTtl (seKey ip) none }
      else c

def dnsPreCache (c : DnsCaches) (domain ip : Str) (ttl : UInt32) (now : Nat) : DnsCaches :=
  let endTime := now + second * (if ttl < 2 then 2 else ttl).toNat
  let c := { c with dmTtl := Function.update c.dmTtl domain (some endTime) }
  let c := c.demote domain ip endTime
  let c :=
    { c with
      dm := Function.update c.dm ip (some domain)
      dmTtl := Function.update c.dmTtl ip (some endTime) }
  c.expire domain ip now

theorem dm_demote (c : DnsCaches) (domain ip : Str) (endTime : Nat) :
    (c.demote domain ip endTime).dm = c.dm := by
  unfold demote
  split
  · rfl
  · split <;> rfl

theorem dm_expire (c : DnsCaches) (domain ip : Str) (now : Nat) :
    (c.expire domain ip now).dm = c.dm := by
  unfold expire
  split
  · rfl
  · split <;> rfl

theorem dm_dnsPreCache (c : DnsCaches) (domain ip : Str) (ttl : UInt32) (now : Nat) :
    (c.dnsPreCache domain ip ttl now).dm = Function.update c.dm ip (some domain) := by
  rw [dnsPreCache, dm_expire, dm_demote]

end DnsCaches

/-! ## Calls, queue and handlers -/

/-- `ip.String()`, which is never empty. -/
abbrev IPText := { s : Str // s ≠ [] }

structure DnsMap where
  ipstr : IPText
  domain : Str
  ttl : UInt32
deriving DecidableEq

/-- How far a `withMapping` call is with the record it looks at. -/
inductive Stage where
  | next
  /-- After `mapping.Get`, with the value of `all_eq`. -/
  | got (ip : IPText) (ttl : UInt32) (allEq : Bool)
  /-- After `mapping.SetWithExpire`, before `DnsMapAdd`. -/
  | set (ip : IPText) (ttl : UInt32)
deriving DecidableEq

def Stage.ip? : Stage → Option IPText
  | .next => none
  | .got ip _ _ => some ip
  | .set ip _ => some ip

structure Call where
  host : Str
  /-- Addresses and TTLs of the A and AAAA records still to come. -/
  rest : List (IPText × UInt32)
  stage : Stage
deriving DecidableEq

/-- A `handleDnsMap` goroutine; `preCached` once `DnsPreCache` has returned. -/
structure Handler where
  dnsMap : DnsMap
  preCached : Bool
deriving DecidableEq

structure State where
  mapping : Str → Option Str
  calls : Nat → Option Call
  queue : List DnsMap
  handlers : Nat → Option Handler
  caches : DnsCaches
  db : Str → Option Str

def State.loaded (db : Str → Option Str) : State where
  mapping := db
  calls := fun _ => none
  queue := []
  handlers := fun _ => none
  caches := ⟨db, fun _ => none, fun _ => none, fun _ => none⟩
  db := db

inductive Action where
  /-- `next` has returned an answer to a request for addresses. -/
  | answer (i : Nat) (host : Str) (records : List (IPText × UInt32))
  | get (i : Nat)
  | set (i : Nat)
  | add (i : Nat)
  | ret (i : Nat)
  /-- `processDnsMap` takes a pair and starts handler `j`. -/
  | dequeue (j : Nat)
  | preCache (j : Nat) (now : Nat)
  | save (j : Nat)

def State.setCall (s : State) (i : Nat) (c : Option Call) : State :=
  { s with calls := Function.update s.calls i c }

def State.setHandler (s : State) (j : Nat) (h : Option Handler) : State :=
  { s with handlers := Function.update s.handlers j h }

def queueSize : Nat := 500

/-- `DnsMapAdd` drops the pair when the queue is full. -/
def dnsMapAdd (queue : List DnsMap) (dnsMap : DnsMap) : List DnsMap :=
  if queue.length < queueSize then queue ++ [dnsMap] else queue

def step (unsaveDNSDB : Bool) (s : State) : Action → Option State
  | .answer i host records =>
      match s.calls i with
      | none => some (s.setCall i (some ⟨host, records, .next⟩))
      | some _ => none
  | .get i =>
      match s.calls i with
      | some ⟨host, (ip, ttl) :: rest, .next⟩ =>
          some (s.setCall i (some ⟨host, rest, .got ip ttl (s.mapping ip.1 = some host)⟩))
      | _ => none
  | .set i =>
      match s.calls i with
      | some ⟨host, rest, .got ip ttl allEq⟩ =>
          some ({ s with mapping := Function.update s.mapping ip.1 (some host) }.setCall i
            (some ⟨host, rest, if allEq then .next else .set ip ttl⟩))
      | _ => none
  | .add i =>
      match s.calls i with
      | some ⟨host, rest, .set ip ttl⟩ =>
          some ({ s with queue := dnsMapAdd s.queue ⟨ip, host, ttl⟩ }.setCall i
            (some ⟨host, rest, .next⟩))
      | _ => none
  | .ret i =>
      match s.calls i with
      | some ⟨_, [], .next⟩ => some (s.setCall i none)
      | _ => none
  | .dequeue j =>
      match s.queue, s.handlers j with
      | d :: queue, none => some ({ s with queue := queue }.setHandler j (some ⟨d, false⟩))
      | _, _ => none
  | .preCache j now =>
      match s.handlers j with
      | some ⟨d, false⟩ =>
          if unsaveDNSDB = true ∨ d.ipstr.1 = [] then some (s.setHandler j none)
          else
            some ({ s with caches := s.caches.dnsPreCache d.domain d.ipstr.1 d.ttl now }.setHandler j
              (some ⟨d, true⟩))
      | _ => none
  | .save j =>
      match s.handlers j with
      | some ⟨d, true⟩ =>
          some ({ s with db := Function.update s.db d.ipstr.1 (some d.domain) }.setHandler j none)
      | _ => none

/-- `unsaveDNSDB` is set in builds for linux on arm64. -/
def system (unsaveDNSDB : Bool) : System State Action := ⟨step unsaveDNSDB⟩

structure State.Idle (s : State) : Prop where
  calls : ∀ i, s.calls i = none
  queue : s.queue = []
  handlers : ∀ j, s.handlers j = none

/-- Once nothing is under way, `Dm` and the database have the host of the mapping. -/
def Propagated (s : State) : Prop :=
  s.Idle → ∀ ip, s.caches.dm ip = s.mapping ip ∧ s.db ip = s.mapping ip

/-- Calls that work on one address at the same time have one host, no pair comes to a
full queue, and a handler starts when no other one has a different host for its
address. -/
def InOrder (unsaveDNSDB : Bool) (s : State) : Action → Prop
  | .get i =>
      ∀ host ip ttl rest, s.calls i = some ⟨host, (ip, ttl) :: rest, .next⟩ →
        ∀ j c, s.calls j = some c → c.stage.ip? = some ip → c.host = host
  | .add _ => s.queue.length < queueSize
  | .dequeue _ =>
      ∀ d queue, s.queue = d :: queue →
        ∀ j h, s.handlers j = some h → h.dnsMap.ipstr = d.ipstr → h.dnsMap.domain = d.domain
  | .preCache _ _ => unsaveDNSDB = false
  | _ => True

/-! ## What a step does -/

section Steps

variable {unsaveDNSDB : Bool} {s t : State} {i j : Nat}

theorem step_answer {host : Str} {records : List (IPText × UInt32)}
    (h : step unsaveDNSDB s (.answer i host records) = some t) :
    s.calls i = none ∧ t = s.setCall i (some ⟨host, records, .next⟩) := by
  simp only [step] at h
  split at h
  · rename_i hfree
    cases h
    exact ⟨hfree, rfl⟩
  · cases h

theorem step_get (h : step unsaveDNSDB s (.get i) = some t) :
    ∃ host ip ttl rest, s.calls i = some ⟨host, (ip, ttl) :: rest, .next⟩ ∧
      t = s.setCall i (some ⟨host, rest, .got ip ttl (s.mapping ip.1 = some host)⟩) := by
  simp only [step] at h
  split at h
  · rename_i host ip ttl rest hcall
    cases h
    exact ⟨host, ip, ttl, rest, hcall, rfl⟩
  · cases h

theorem step_set (h : step unsaveDNSDB s (.set i) = some t) :
    ∃ host rest ip ttl allEq, s.calls i = some ⟨host, rest, .got ip ttl allEq⟩ ∧
      t = { s with mapping := Function.update s.mapping ip.1 (some host) }.setCall i
        (some ⟨host, rest, if allEq then .next else .set ip ttl⟩) := by
  simp only [step] at h
  split at h
  · rename_i host rest ip ttl allEq hcall
    cases h
    exact ⟨host, rest, ip, ttl, allEq, hcall, rfl⟩
  · cases h

theorem step_add (h : step unsaveDNSDB s (.add i) = some t) :
    ∃ host rest ip ttl, s.calls i = some ⟨host, rest, .set ip ttl⟩ ∧
      t = { s with queue := dnsMapAdd s.queue ⟨ip, host, ttl⟩ }.setCall i
        (some ⟨host, rest, .next⟩) := by
  simp only [step] at h
  split at h
  · rename_i host rest ip ttl hcall
    cases h
    exact ⟨host, rest, ip, ttl, hcall, rfl⟩
  · cases h

theorem step_ret (h : step unsaveDNSDB s (.ret i) = some t) :
    ∃ host, s.calls i = some ⟨host, [], .next⟩ ∧ t = s.setCall i none := by
  simp only [step] at h
  split at h
  · rename_i host hcall
    cases h
    exact ⟨host, hcall, rfl⟩
  · cases h

theorem step_dequeue (h : step unsaveDNSDB s (.dequeue j) = some t) :
    ∃ d queue, s.queue = d :: queue ∧ s.handlers j = none ∧
      t = { s with queue := queue }.setHandler j (some ⟨d, false⟩) := by
  simp only [step] at h
  split at h
  · rename_i d queue hqueue hfree
    cases h
    exact ⟨d, queue, hqueue, hfree, rfl⟩
  · cases h

theorem step_preCache {now : Nat} (hsave : unsaveDNSDB = false)
    (h : step unsaveDNSDB s (.preCache j now) = some t) :
    ∃ d, s.handlers j = some ⟨d, false⟩ ∧
      t = { s with caches := s.caches.dnsPreCache d.domain d.ipstr.1 d.ttl now }.setHandler j
        (some ⟨d, true⟩) := by
  simp only [step] at h
  split at h
  · rename_i d hhandler
    rw [if_neg (by simp [hsave, d.ipstr.2])] at h
    cases h
    exact ⟨d, hhandler, rfl⟩
  · cases h

theorem step_save (h : step unsaveDNSDB s (.save j) = some t) :
    ∃ d, s.handlers j = some ⟨d, true⟩ ∧
      t = { s with db := Function.update s.db d.ipstr.1 (some d.domain) }.setHandler j none := by
  simp only [step] at h
  split at h
  · rename_i d hhandler
    cases h
    exact ⟨d, hhandler, rfl⟩
  · cases h

/-! ## Calls -/

def Call.Current (mapping : Str → Option Str) (c : Call) : Prop :=
  match c.stage with
  | .next => True
  | .got ip _ allEq => allEq = true → mapping ip.1 = some c.host
  | .set ip _ => mapping ip.1 = some c.host

structure CallsAgree (s : State) : Prop where
  /-- Calls at one address have one host. -/
  host : ∀ i c j c' ip, s.calls i = some c → s.calls j = some c' → c.stage.ip? = some ip →
    c'.stage.ip? = some ip → c.host = c'.host
  current : ∀ i c, s.calls i = some c → c.Current s.mapping

/-- A call goes on with a host that the other calls at its address have as well. -/
theorem CallsAgree.setCall (h : CallsAgree s) {c : Call} (hc : c.Current s.mapping)
    (hhost : ∀ j c' ip, s.calls j = some c' → c.stage.ip? = some ip → c'.stage.ip? = some ip →
      c'.host = c.host) :
    CallsAgree (s.setCall i (some c)) := by
  constructor
  · intro i₁ c₁ i₂ c₂ ip h₁ h₂ hip₁ hip₂
    rcases eq_or_of_update h₁ with ⟨-, ⟨⟩⟩ | ⟨-, h₁⟩
    · rcases eq_or_of_update h₂ with ⟨-, ⟨⟩⟩ | ⟨-, h₂⟩
      · rfl
      · exact (hhost i₂ c₂ ip h₂ hip₁ hip₂).symm
    · rcases eq_or_of_update h₂ with ⟨-, ⟨⟩⟩ | ⟨-, h₂⟩
      · exact hhost i₁ c₁ ip h₁ hip₂ hip₁
      · exact h.host i₁ c₁ i₂ c₂ ip h₁ h₂ hip₁ hip₂
  · intro j c' hj
    rcases eq_or_of_update hj with ⟨-, ⟨⟩⟩ | ⟨-, hj⟩
    · exact hc
    · exact h.current j c' hj

theorem CallsAgree.setCall_next (h : CallsAgree s) (host : Str) (rest : List (IPText × UInt32)) :
    CallsAgree (s.setCall i (some ⟨host, rest, .next⟩)) :=
  h.setCall trivial fun _ _ _ _ hip _ => nomatch hip

theorem CallsAgree.setCall_none (h : CallsAgree s) : CallsAgree (s.setCall i none) := by
  have hold : ∀ j c, (s.setCall i none).calls j = some c → s.calls j = some c := by
    intro j c hj
    rcases eq_or_of_update hj with ⟨-, ⟨⟩⟩ | ⟨-, hj⟩
    exact hj
  exact ⟨fun i₁ c₁ i₂ c₂ ip h₁ h₂ => h.host i₁ c₁ i₂ c₂ ip (hold i₁ c₁ h₁) (hold i₂ c₂ h₂),
    fun j c hj => h.current j c (hold j c hj)⟩

/-- Writing the mapping disturbs no other call: one at the address writes the same. -/
theorem CallsAgree.write (h : CallsAgree s) {c : Call} {ip : IPText} (hcall : s.calls i = some c)
    (hip : c.stage.ip? = some ip) :
    CallsAgree { s with mapping := Function.update s.mapping ip.1 (some c.host) } := by
  refine ⟨h.host, fun j c' hj => ?_⟩
  have hkeep : ∀ ip', c'.stage.ip? = some ip' → s.mapping ip'.1 = some c'.host →
      Function.update s.mapping ip.1 (some c.host) ip'.1 = some c'.host := by
    intro ip' hip' hmap
    by_cases heq : ip'.1 = ip.1
    · cases Subtype.ext heq
      rw [Function.update_self, h.host i c j c' _ hcall hj hip hip']
    · rwa [Function.update_of_ne heq]
  have hcurrent := h.current j c' hj
  obtain ⟨host, rest, stage⟩ := c'
  cases stage with
  | next => trivial
  | got ip' ttl allEq => exact fun heq => hkeep ip' rfl (hcurrent heq)
  | set ip' ttl => exact hkeep ip' rfl hcurrent

theorem callsAgree_step {a : Action} (h : CallsAgree s) (hg : InOrder unsaveDNSDB s a)
    (hs : step unsaveDNSDB s a = some t) : CallsAgree t := by
  cases a with
  | answer i host records =>
      obtain ⟨-, rfl⟩ := step_answer hs
      exact h.setCall_next host records
  | get i =>
      obtain ⟨host, ip, ttl, rest, hcall, rfl⟩ := step_get hs
      refine h.setCall (fun heq => of_decide_eq_true heq) fun j c ip' hj hip hip' => ?_
      cases hip
      exact hg host ip ttl rest hcall j c hj hip'
  | set i =>
      obtain ⟨host, rest, ip, ttl, allEq, hcall, rfl⟩ := step_set hs
      have hwrite := h.write hcall rfl
      cases allEq with
      | true => exact hwrite.setCall_next host rest
      | false =>
          refine hwrite.setCall (Function.update_self ..) fun j c ip' hj hip hip' => ?_
          exact h.host j c i ⟨host, rest, .got ip ttl false⟩ ip' hj hcall hip' hip
  | add i =>
      obtain ⟨host, rest, ip, ttl, -, rfl⟩ := step_add hs
      have hqueue : CallsAgree { s with queue := dnsMapAdd s.queue ⟨ip, host, ttl⟩ } :=
        ⟨h.host, h.current⟩
      exact hqueue.setCall_next host rest
  | ret i =>
      obtain ⟨host, -, rfl⟩ := step_ret hs
      exact h.setCall_none
  | dequeue j =>
      obtain ⟨d, queue, -, -, rfl⟩ := step_dequeue hs
      exact ⟨h.host, h.current⟩
  | preCache j now =>
      obtain ⟨d, -, rfl⟩ := step_preCache hg hs
      exact ⟨h.host, h.current⟩
  | save j =>
      obtain ⟨d, -, rfl⟩ := step_save hs
      exact ⟨h.host, h.current⟩

/-! ## Handlers and the queue -/

/-- The running handlers of an address leave `v` in `Dm` and in the database. -/
structure Leaves (s : State) (ip : Str) (v : Option Str) : Prop where
  running : ∀ j h, s.handlers j = some h → h.dnsMap.ipstr.1 = ip → v = some h.dnsMap.domain
  finished : (∀ j h, s.handlers j = some h → h.dnsMap.ipstr.1 ≠ ip) →
    s.caches.dm ip = v ∧ s.db ip = v

/-- The value of an address after the pairs of the queue, one after another. -/
def overwrite (queue : List DnsMap) (ip : Str) (v : Option Str) : Option Str :=
  queue.foldl (fun v d => if d.ipstr.1 = ip then some d.domain else v) v

def Sending (calls : Nat → Option Call) (ip : Str) : Prop :=
  ∃ i c ip' ttl, calls i = some c ∧ c.stage = .set ip' ttl ∧ ip'.1 = ip

structure StoresAgree (s : State) : Prop where
  preCached : ∀ j d, s.handlers j = some ⟨d, true⟩ → s.caches.dm d.ipstr.1 = some d.domain
  reaches : ∀ ip, ∃ v, Leaves s ip v ∧
    (¬ Sending s.calls ip → overwrite s.queue ip v = s.mapping ip)

theorem overwrite_append (queue : List DnsMap) (d : DnsMap) (ip : Str) (v : Option Str) :
    overwrite (queue ++ [d]) ip v =
      if d.ipstr.1 = ip then some d.domain else overwrite queue ip v :=
  List.foldl_append ..

theorem Sending.update {calls : Nat → Option Call} {ip : Str} (h : Sending calls ip)
    (hmoved : ∀ c ip' ttl, calls i = some c → c.stage = .set ip' ttl → ip'.1 ≠ ip)
    (c : Option Call) : Sending (Function.update calls i c) ip := by
  obtain ⟨j, c', ip', ttl, hj, hstage, hip⟩ := h
  have hne : j ≠ i := by
    rintro rfl
    exact hmoved c' ip' ttl hj hstage hip
  exact ⟨j, c', ip', ttl, by rw [Function.update_of_ne hne, hj], hstage, hip⟩

/-- A step of a call leaves the stores alone, so only what the queue brings has to be
compared with the mapping. -/
theorem StoresAgree.of_call (h : StoresAgree s) {mapping : Str → Option Str}
    {calls : Nat → Option Call} {queue : List DnsMap}
    (hreach : ∀ ip v, (¬ Sending s.calls ip → overwrite s.queue ip v = s.mapping ip) →
      ¬ Sending calls ip → overwrite queue ip v = mapping ip) :
    StoresAgree { s with mapping := mapping, calls := calls, queue := queue } := by
  refine ⟨h.preCached, fun ip => ?_⟩
  obtain ⟨v, hleaves, hold⟩ := h.reaches ip
  exact ⟨v, ⟨hleaves.running, hleaves.finished⟩, hreach ip v hold⟩

theorem StoresAgree.setCall (h : StoresAgree s)
    (hcall : ∀ c ip ttl, s.calls i = some c → c.stage ≠ .set ip ttl) (c : Option Call) :
    StoresAgree (s.setCall i c) := by
  refine h.of_call fun ip v hold hsend => hold fun hs => hsend ?_
  exact hs.update (fun c ip' ttl hc hstage => absurd hstage (hcall c ip' ttl hc)) c

theorem StoresAgree.set (h : StoresAgree s) (hc : CallsAgree s) {host : Str}
    {rest : List (IPText × UInt32)} {ip : IPText} {ttl : UInt32} {allEq : Bool}
    (hcall : s.calls i = some ⟨host, rest, .got ip ttl allEq⟩) :
    StoresAgree ({ s with mapping := Function.update s.mapping ip.1 (some host) }.setCall i
      (some ⟨host, rest, if allEq then .next else .set ip ttl⟩)) := by
  have hidle : ∀ c ip' ttl', s.calls i = some c → c.stage ≠ .set ip' ttl' := by
    intro c ip' ttl' hi hstage
    cases hcall.symm.trans hi
    cases hstage
  cases allEq with
  | true =>
      have hsame : Function.update s.mapping ip.1 (some host) = s.mapping :=
        Function.update_eq_self_iff.mpr (hc.current i _ hcall rfl).symm
      rw [hsame]
      exact h.setCall hidle _
  | false =>
      refine h.of_call fun ip' v hold hsend => ?_
      have hne : ip' ≠ ip.1 := by
        rintro rfl
        exact hsend ⟨i, _, ip, ttl, Function.update_self .., rfl, rfl⟩
      have hbefore : ¬ Sending s.calls ip' := fun hs => hsend
        (hs.update (fun c ip'' ttl' hi hstage => absurd hstage (hidle c ip'' ttl' hi)) _)
      exact (hold hbefore).trans (Function.update_of_ne hne ..).symm

theorem StoresAgree.add (h : StoresAgree s) (hc : CallsAgree s) {host : Str}
    {rest : List (IPText × UInt32)} {ip : IPText} {ttl : UInt32}
    (hcall : s.calls i = some ⟨host, rest, .set ip ttl⟩) :
    StoresAgree ({ s with queue := s.queue ++ [DnsMap.mk ip host ttl] }.setCall i
      (some ⟨host, rest, .next⟩)) := by
  refine h.of_call fun ip' v hold hsend => (overwrite_append ..).trans ?_
  by_cases hip : ip.1 = ip'
  · subst hip
    rw [if_pos rfl]
    exact (hc.current i _ hcall).symm
  · rw [if_neg hip]
    refine hold fun hs => hsend (hs.update (fun c ip'' ttl' hi hstage => ?_) _)
    cases hcall.symm.trans hi
    cases hstage
    exact hip

/-- Where handler `j` works on another address, the handlers of `ip` were the same before
its step. -/
theorem none_running {x : Handler} {y : Option Handler} {ip : Str} (hx : s.handlers j = some x)
    (hne : x.dnsMap.ipstr.1 ≠ ip)
    (hnone : ∀ k z, Function.update s.handlers j y k = some z → z.dnsMap.ipstr.1 ≠ ip) :
    ∀ k z, s.handlers k = some z → z.dnsMap.ipstr.1 ≠ ip := by
  intro k z hk
  by_cases hkj : k = j
  · subst hkj
    cases hx.symm.trans hk
    exact hne
  · exact hnone k z ((Function.update_of_ne hkj ..).trans hk)

theorem StoresAgree.dequeue (h : StoresAgree s) {d : DnsMap} {queue : List DnsMap}
    (hqueue : s.queue = d :: queue) (hfree : s.handlers j = none)
    (hdomain : ∀ k h, s.handlers k = some h → h.dnsMap.ipstr = d.ipstr →
      h.dnsMap.domain = d.domain) :
    StoresAgree ({ s with queue := queue }.setHandler j (some ⟨d, false⟩)) := by
  constructor
  · intro k d' hk
    rcases eq_or_of_update hk with ⟨-, ⟨⟩⟩ | ⟨-, hk⟩
    exact h.preCached k d' hk
  · intro ip
    obtain ⟨v, hleaves, hreach⟩ := h.reaches ip
    rw [hqueue] at hreach
    refine ⟨if d.ipstr.1 = ip then some d.domain else v, ⟨?_, ?_⟩, hreach⟩
    · intro k x hk hip
      rcases eq_or_of_update hk with ⟨-, ⟨⟩⟩ | ⟨-, hk⟩
      · exact if_pos hip
      · by_cases heq : d.ipstr.1 = ip
        · rw [if_pos heq, hdomain k x hk (Subtype.ext (hip.trans heq.symm))]
        · rw [if_neg heq]
          exact hleaves.running k x hk hip
    · intro hnone
      have hne : d.ipstr.1 ≠ ip := hnone j ⟨d, false⟩ (Function.update_self ..)
      rw [if_neg hne]
      refine hleaves.finished fun k x hk => hnone k x ?_
      have hkj : k ≠ j := by
        rintro rfl
        cases hfree.symm.trans hk
      exact (Function.update_of_ne hkj ..).trans hk

theorem StoresAgree.preCache (h : StoresAgree s) {d : DnsMap} {now : Nat}
    (hhandler : s.handlers j = some ⟨d, false⟩) :
    StoresAgree ({ s with caches := s.caches.dnsPreCache d.domain d.ipstr.1 d.ttl now }.setHandler j
      (some ⟨d, true⟩)) := by
  have hdm := DnsCaches.dm_dnsPreCache s.caches d.domain d.ipstr.1 d.ttl now
  have hpair : ∀ k x, Function.update s.handlers j (some ⟨d, true⟩) k = some x →
      ∃ y, s.handlers k = some y ∧ y.dnsMap = x.dnsMap := by
    intro k x hk
    rcases eq_or_of_update hk with ⟨rfl, ⟨⟩⟩ | ⟨-, hk⟩
    · exact ⟨_, hhandler, rfl⟩
    · exact ⟨x, hk, rfl⟩
  constructor
  · intro k d' hk
    refine (congrFun hdm _).trans ?_
    rcases eq_or_of_update hk with ⟨-, ⟨⟩⟩ | ⟨-, hk⟩
    · exact Function.update_self ..
    · by_cases heq : d'.ipstr.1 = d.ipstr.1
      · obtain ⟨v, hleaves, -⟩ := h.reaches d.ipstr.1
        rw [heq, Function.update_self, ← hleaves.running j _ hhandler rfl,
          hleaves.running k _ hk heq]
      · rw [Function.update_of_ne heq]
        exact h.preCached k d' hk
  · intro ip
    obtain ⟨v, hleaves, hreach⟩ := h.reaches ip
    refine ⟨v, ⟨?_, ?_⟩, hreach⟩
    · intro k x hk hip
      obtain ⟨y, hy, heq⟩ := hpair k x hk
      rw [← heq] at hip ⊢
      exact hleaves.running k y hy hip
    · intro hnone
      have hne : d.ipstr.1 ≠ ip := hnone j ⟨d, true⟩ (Function.update_self ..)
      obtain ⟨hcache, hdb⟩ := hleaves.finished (none_running hhandler hne hnone)
      exact ⟨(congrFun hdm ip).trans ((Function.update_of_ne hne.symm ..).trans hcache), hdb⟩

theorem StoresAgree.save (h : StoresAgree s) {d : DnsMap}
    (hhandler : s.handlers j = some ⟨d, true⟩) :
    StoresAgree ({ s with db := Function.update s.db d.ipstr.1 (some d.domain) }.setHandler j
      none) := by
  have hold : ∀ k x, Function.update s.handlers j none k = some x → s.handlers k = some x := by
    intro k x hk
    rcases eq_or_of_update hk with ⟨-, ⟨⟩⟩ | ⟨-, hk⟩
    exact hk
  refine ⟨fun k d' hk => h.preCached k d' (hold k _ hk), fun ip => ?_⟩
  obtain ⟨v, hleaves, hreach⟩ := h.reaches ip
  refine ⟨v, ⟨fun k x hk => hleaves.running k x (hold k x hk), fun hnone => ?_⟩, hreach⟩
  by_cases heq : d.ipstr.1 = ip
  · subst heq
    rw [hleaves.running j _ hhandler rfl]
    exact ⟨h.preCached j d hhandler, Function.update_self ..⟩
  · obtain ⟨hcache, hdb⟩ := hleaves.finished (none_running hhandler heq hnone)
    exact ⟨hcache, (Function.update_of_ne (Ne.symm heq) ..).trans hdb⟩

theorem storesAgree_step {a : Action} (h : StoresAgree s) (hc : CallsAgree s)
    (hg : InOrder unsaveDNSDB s a) (hs : step unsaveDNSDB s a = some t) : StoresAgree t := by
  cases a with
  | answer i host records =>
      obtain ⟨hfree, rfl⟩ := step_answer hs
      exact h.setCall (fun c ip ttl hi => nomatch hfree.symm.trans hi) _
  | get i =>
      obtain ⟨host, ip, ttl, rest, hcall, rfl⟩ := step_get hs
      refine h.setCall (fun c ip ttl hi hstage => ?_) _
      cases hcall.symm.trans hi
      cases hstage
  | set i =>
      obtain ⟨host, rest, ip, ttl, allEq, hcall, rfl⟩ := step_set hs
      exact h.set hc hcall
  | add i =>
      obtain ⟨host, rest, ip, ttl, hcall, rfl⟩ := step_add hs
      have hroom : s.queue.length < queueSize := hg
      rw [dnsMapAdd, if_pos hroom]
      exact h.add hc hcall
  | ret i =>
      obtain ⟨host, hcall, rfl⟩ := step_ret hs
      refine h.setCall (fun c ip ttl hi hstage => ?_) _
      cases hcall.symm.trans hi
      cases hstage
  | dequeue j =>
      obtain ⟨d, queue, hqueue, hfree, rfl⟩ := step_dequeue hs
      exact h.dequeue hqueue hfree (hg d queue hqueue)
  | preCache j now =>
      obtain ⟨d, hhandler, rfl⟩ := step_preCache hg hs
      exact h.preCache hhandler
  | save j =>
      obtain ⟨d, hhandler, rfl⟩ := step_save hs
      exact h.save hhandler

theorem callsAgree_loaded (db : Str → Option Str) : CallsAgree (State.loaded db) :=
  ⟨fun _ _ _ _ _ h => (nomatch h), fun _ _ h => nomatch h⟩

theorem storesAgree_loaded (db : Str → Option Str) : StoresAgree (State.loaded db) :=
  ⟨fun _ _ h => (nomatch h),
    fun ip => ⟨db ip, ⟨fun _ _ h => (nomatch h), fun _ => ⟨rfl, rfl⟩⟩, fun _ => rfl⟩⟩

theorem StoresAgree.propagated (h : StoresAgree s) : Propagated s := by
  intro hidle ip
  obtain ⟨v, hleaves, hreach⟩ := h.reaches ip
  have hsend : ¬ Sending s.calls ip := by
    rintro ⟨i, c, ip', ttl, hi, -⟩
    cases (hidle.calls i).symm.trans hi
  have hv : v = s.mapping ip := by
    have := hreach hsend
    rwa [hidle.queue] at this
  obtain ⟨hcache, hdb⟩ := hleaves.finished fun j x hj => nomatch (hidle.handlers j).symm.trans hj
  exact ⟨hcache.trans hv, hdb.trans hv⟩

end Steps

/-- As long as the updates of an address stay in order and none is lost, `Dm` and the
database follow the mapping. -/
theorem propagated_of_inOrder (unsaveDNSDB : Bool) (db : Str → Option Str) (as : List Action)
    (h : (system unsaveDNSDB).Guarded (InOrder unsaveDNSDB) (State.loaded db) as) :
    (system unsaveDNSDB).Always Propagated (State.loaded db) as := by
  have hstep : ∀ s a t, CallsAgree s ∧ StoresAgree s → InOrder unsaveDNSDB s a →
      (system unsaveDNSDB).step s a = some t → CallsAgree t ∧ StoresAgree t := by
    intro s a t hinv hg hs
    exact ⟨callsAgree_step hinv.1 hg hs, storesAgree_step hinv.2 hinv.1 hg hs⟩
  have halways := System.always_of_guarded _ hstep
    ⟨callsAgree_loaded db, storesAgree_loaded db⟩ h
  exact halways.mono _ fun s hinv => hinv.2.propagated

/-- An address changes its host and the update arrives. -/
theorem propagated_of_inOrder_update :
    (system false).Always Propagated (State.loaded fun _ => some (str "a"))
      [.answer 0 (str "b") [(⟨str "1.1.1.1", by decide⟩, 60)], .get 0, .set 0, .add 0, .ret 0,
        .dequeue 0, .preCache 0 0, .save 0] := by
  refine propagated_of_inOrder false _ _ ?_
  refine System.Guarded.cons _ rfl trivial (System.Guarded.cons _ rfl ?_ ?_)
  · intro host ip ttl rest _ j c hj hip
    rcases eq_or_of_update hj with ⟨-, ⟨⟩⟩ | ⟨-, ⟨⟩⟩
    cases hip
  refine System.Guarded.cons _ rfl trivial (System.Guarded.cons _ rfl ?_ ?_)
  · exact (by decide : 0 < queueSize)
  refine System.Guarded.cons _ rfl trivial (System.Guarded.cons _ rfl ?_ ?_)
  · intro d queue _ j x hj
    cases hj
  exact System.Guarded.cons _ rfl rfl (System.Guarded.cons _ rfl trivial trivial)

/-- Two answers give one address two hosts. Both pairs are taken from the queue before a
handler runs, and the handler of the first one runs last. -/
theorem first_host_wins_after_reordering :
    ¬ (system false).Always Propagated (State.loaded fun _ => none)
      [.answer 0 (str "a") [(⟨str "1.1.1.1", by decide⟩, 60)], .get 0, .set 0, .add 0, .ret 0,
        .answer 0 (str "b") [(⟨str "1.1.1.1", by decide⟩, 60)], .get 0, .set 0, .add 0, .ret 0,
        .dequeue 0, .dequeue 1, .preCache 1 0, .save 1, .preCache 0 0, .save 0] := by
  refine System.not_always_of_run _ ⟨_, rfl, fun h => ?_⟩
  refine absurd (h ⟨fun i => ?_, rfl, fun j => ?_⟩ (str "1.1.1.1")).1 (by decide +kernel)
  · rcases i with _ | i <;> rfl
  · rcases j with _ | _ | j <;> rfl

end RuleBaseProxy.Dns.Mapping
