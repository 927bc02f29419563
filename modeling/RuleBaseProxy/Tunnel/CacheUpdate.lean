import RuleBaseProxy.Tunnel.MatchCache

/-! # The match cache under reconfiguration

`matchHashMap` looks into the cache, scans under the read lock and stores after
the lock is released; `UpdateRules` replaces the rules and purges the cache in
one critical section. Each of these is one step here, and a run is any
interleaving of the steps of any number of calls. A store that comes after the
purge brings a rule of the old list back.
-/

namespace RuleBaseProxy.CacheUpdate

open Go TransitionSystem

inductive Stage where
  | missed (m : Metadata)
  | matched (m : Metadata) (res : MatchResult)
  | done (res : MatchResult)
deriving DecidableEq

/-- The rule the call has obtained, from the cache or from the scan. -/
def Stage.rule : Stage → Option Rule
  | .missed _ => none
  | .matched _ res => res.rule
  | .done res => res.rule

/-- A call, with the rule lists in force since it started, the latest first. -/
structure Call where
  stage : Stage
  lists : List (List Rule)
deriving DecidableEq

/-- A call that has not returned sees the new list come into force. -/
def Call.sees (newRules : List Rule) (c : Call) : Call :=
  match c.stage with
  | .done _ => c
  | _ => { c with lists := newRules :: c.lists }

structure State where
  tunnel : Tunnel
  cm : Cache
  calls : Nat → Option Call

def State.init (t : Tunnel) : State := ⟨t, Cache.empty, fun _ => none⟩

def State.setCall (s : State) (i : Nat) (c : Call) : State :=
  { s with calls := Function.update s.calls i (some c) }

inductive Action where
  /-- The lookups of call `i`. -/
  | start (i : Nat) (m : Metadata)
  /-- `match`, under the read lock. -/
  | scan (i : Nat)
  /-- `setMatchHashMap`, after the lock. -/
  | store (i : Nat)
  | updateRules (newRules : List Rule)
  | updateProxies (newProxies : Proxies)
  | evict (key : Str)

def step (s : State) : Action → Option State
  | .start i m =>
      match s.calls i with
      | some _ => none
      | none =>
          match s.tunnel.lookup s.cm m with
          | .hit res => some (s.setCall i ⟨.done res, [s.tunnel.rules]⟩)
          | .miss => some (s.setCall i ⟨.missed m, [s.tunnel.rules]⟩)
          | .panicked => none
  | .scan i =>
      match s.calls i with
      | some ⟨.missed m, lists⟩ =>
          (s.tunnel.doMatch m).map fun r => s.setCall i ⟨.matched m r.1, lists⟩
      | _ => none
  | .store i =>
      match s.calls i with
      | some ⟨.matched m res, lists⟩ =>
          some ({ s with cm := storeResult s.cm m res }.setCall i ⟨.done res, lists⟩)
      | _ => none
  | .updateRules newRules =>
      some ⟨{ s.tunnel with rules := newRules }, Cache.empty,
        fun i => (s.calls i).map (Call.sees newRules)⟩
  | .updateProxies newProxies => some { s with tunnel := { s.tunnel with proxies := newProxies } }
  | .evict key => some { s with cm := Function.update s.cm key none }

def system : System State Action := ⟨step⟩

/-- Without an interruption the three steps are `matchHashMap`. -/
theorem run_call {s : State} {i : Nat} {m : Metadata} {res : MatchResult} {cm : Cache}
    (hfree : s.calls i = none) (h : s.tunnel.matchHashMap s.cm m = some (res, cm)) :
    ∃ as, as <+: [.start i m, .scan i, .store i] ∧
      system.run s as = some ({ s with cm := cm }.setCall i ⟨.done res, [s.tunnel.rules]⟩) := by
  unfold Tunnel.matchHashMap at h
  split at h
  · rename_i hlookup
    cases h
    exact ⟨[.start i m], by simp, by simp [System.run, system, step, hfree, hlookup]⟩
  · cases h
  · rename_i hlookup
    obtain ⟨⟨res', md⟩, hscan, hpair⟩ := Option.map_eq_some_iff.mp h
    cases hpair
    refine ⟨[.start i m, .scan i, .store i], List.prefix_refl _, ?_⟩
    simp [System.run, system, step, hfree, hlookup, State.setCall, hscan]

/-! ## What has to hold -/

def CacheCurrent (s : State) : Prop :=
  ∀ k r, s.cm (ruleKey k) = some (.rule r) → r ∈ s.tunnel.rules

/-- The rule a call has obtained was in force at some time since the call started. -/
def Call.Justified (c : Call) : Prop := ∀ r, c.stage.rule = some r → ∃ rs ∈ c.lists, r ∈ rs

def Current (s : State) : Prop :=
  CacheCurrent s ∧ ∀ i c, s.calls i = some c → c.Justified

/-- A rule is stored only while it is in force: no `UpdateRules` has dropped it
since the scan. -/
def StoresInForce (s : State) (a : Action) : Prop :=
  ∀ i m res lists r, a = .store i → s.calls i = some ⟨.matched m res, lists⟩ →
    res.rule = some r → r ∈ s.tunnel.rules

/-- A call that has still to scan has seen the list in force. -/
def Watching (s : State) : Prop :=
  ∀ i m lists, s.calls i = some ⟨.missed m, lists⟩ → s.tunnel.rules ∈ lists

/-! ## What a step does -/

section Steps

variable {s s' : State}

theorem State.calls_setCall {i j : Nat} {c d : Call} (h : (s.setCall i c).calls j = some d) :
    d = c ∨ s.calls j = some d := by
  rcases eq_or_of_update h with ⟨-, heq⟩ | ⟨-, hj⟩
  · exact Or.inl (Option.some.inj heq).symm
  · exact Or.inr hj

theorem step_start {i : Nat} {m : Metadata} (h : step s (.start i m) = some s') :
    ∃ stage, s' = s.setCall i ⟨stage, [s.tunnel.rules]⟩ ∧
      (stage = .missed m ∨ ∃ res, stage = .done res ∧ s.tunnel.lookup s.cm m = .hit res) := by
  simp only [step] at h
  split at h
  · cases h
  · split at h
    · rename_i res hres
      cases h
      exact ⟨.done res, rfl, Or.inr ⟨res, rfl, hres⟩⟩
    · cases h
      exact ⟨.missed m, rfl, Or.inl rfl⟩
    · cases h

theorem step_scan {i : Nat} (h : step s (.scan i) = some s') :
    ∃ m lists res md, s.calls i = some ⟨.missed m, lists⟩ ∧ s.tunnel.doMatch m = some (res, md) ∧
      s' = s.setCall i ⟨.matched m res, lists⟩ := by
  simp only [step] at h
  split at h
  · rename_i m lists hcall
    obtain ⟨⟨res, md⟩, hscan, rfl⟩ := Option.map_eq_some_iff.mp h
    exact ⟨m, lists, res, md, hcall, hscan, rfl⟩
  · cases h

theorem step_store {i : Nat} (h : step s (.store i) = some s') :
    ∃ m res lists, s.calls i = some ⟨.matched m res, lists⟩ ∧
      s' = { s with cm := storeResult s.cm m res }.setCall i ⟨.done res, lists⟩ := by
  simp only [step] at h
  split at h
  · rename_i m res lists hcall
    cases h
    exact ⟨m, res, lists, hcall, rfl⟩
  · cases h

theorem cached_of_lookup {t : Tunnel} {cm : Cache} {m : Metadata} {res : MatchResult} {r : Rule}
    (h : t.lookup cm m = .hit res) (hr : res.rule = some r) :
    cm (ruleKey m.infoKey) = some (.rule r) := by
  unfold Tunnel.lookup at h
  split at h
  · rename_i hcached
    cases h
    obtain ⟨q, p, hentry, -, -, rfl⟩ := Tunnel.cachedRule_eq_some_iff.mp hcached
    cases hr
    exact hentry
  · split at h <;> cases h
    cases hr

theorem rule_mem_of_doMatch {t : Tunnel} {m md : Metadata} {res : MatchResult} {r : Rule}
    (h : t.doMatch m = some (res, md)) (hr : res.rule = some r) : r ∈ t.rules := by
  obtain ⟨sc, -, hscan⟩ := Option.map_eq_some_iff.mp h
  exact Tunnel.rule_mem_of_scan (s := sc) (by rw [hscan]; exact hr)

theorem Call.Justified.sees {c : Call} (h : c.Justified) (newRules : List Rule) :
    (c.sees newRules).Justified := by
  obtain ⟨stage, lists⟩ := c
  intro r hr
  cases stage with
  | missed m => cases hr
  | matched m res =>
      obtain ⟨rs, hrs, hmem⟩ := h r hr
      exact ⟨rs, List.mem_cons_of_mem _ hrs, hmem⟩
  | done res => exact h r hr

theorem watching_step {a : Action} (hw : Watching s) (h : step s a = some s') : Watching s' := by
  cases a with
  | start i m =>
      obtain ⟨stage, rfl, -⟩ := step_start h
      intro j m' lists hj
      rcases State.calls_setCall hj with heq | hj
      · cases heq
        exact List.mem_singleton_self _
      · exact hw j m' lists hj
  | scan i =>
      obtain ⟨m, lists, res, md, -, -, rfl⟩ := step_scan h
      intro j m' lists' hj
      rcases State.calls_setCall hj with heq | hj
      · cases heq
      · exact hw j m' lists' hj
  | store i =>
      obtain ⟨m, res, lists, -, rfl⟩ := step_store h
      intro j m' lists' hj
      rcases State.calls_setCall hj with heq | hj
      · cases heq
      · exact hw j m' lists' hj
  | updateRules newRules =>
      cases h
      intro j m lists hj
      obtain ⟨⟨stage, lists'⟩, -, hsees⟩ := Option.map_eq_some_iff.mp hj
      cases stage <;> cases hsees
      exact List.mem_cons_self
  | updateProxies newProxies =>
      cases h
      exact hw
  | evict key =>
      cases h
      exact hw

/-- Whatever the step, a call obtains a rule that is in force when it does. -/
theorem justified_step {a : Action} (hw : Watching s) (hc : Current s) (h : step s a = some s') :
    ∀ i c, s'.calls i = some c → c.Justified := by
  obtain ⟨hcache, hcalls⟩ := hc
  cases a with
  | start i m =>
      obtain ⟨stage, rfl, hstage⟩ := step_start h
      intro j c hj
      rcases State.calls_setCall hj with rfl | hj
      · intro r hr
        rcases hstage with rfl | ⟨res, rfl, hlookup⟩
        · cases hr
        · exact ⟨_, List.mem_singleton_self _, hcache _ r (cached_of_lookup hlookup hr)⟩
      · exact hcalls j c hj
  | scan i =>
      obtain ⟨m, lists, res, md, hcall, hscan, rfl⟩ := step_scan h
      intro j c hj
      rcases State.calls_setCall hj with rfl | hj
      · exact fun r hr => ⟨_, hw i m lists hcall, rule_mem_of_doMatch hscan hr⟩
      · exact hcalls j c hj
  | store i =>
      obtain ⟨m, res, lists, hcall, rfl⟩ := step_store h
      intro j c hj
      rcases State.calls_setCall hj with rfl | hj
      · exact fun r hr => hcalls i _ hcall r hr
      · exact hcalls j c hj
  | updateRules newRules =>
      cases h
      intro j c hj
      obtain ⟨c', hc', rfl⟩ := Option.map_eq_some_iff.mp hj
      exact (hcalls j c' hc').sees newRules
  | updateProxies newProxies =>
      cases h
      exact hcalls
  | evict key =>
      cases h
      exact hcalls

theorem storesInForce_of_ne {a : Action} (h : ∀ i, a ≠ .store i) : StoresInForce s a :=
  fun i _ _ _ _ ha => absurd ha (h i)

theorem cacheCurrent_store_iff (hc : CacheCurrent s) {i : Nat} {m : Metadata} {res : MatchResult}
    {lists : List (List Rule)} (hcall : s.calls i = some ⟨.matched m res, lists⟩) :
    (∀ k r, storeResult s.cm m res (ruleKey k) = some (.rule r) → r ∈ s.tunnel.rules) ↔
      StoresInForce s (.store i) := by
  constructor
  · intro h j m' res' lists' r hj hcall' hr
    cases hj
    rw [hcall] at hcall'
    cases hcall'
    exact h m.infoKey r (by rw [storeResult_of_rule hr, Function.update_self])
  · intro hg k r hentry
    cases hr : res.rule with
    | none =>
        rw [storeResult_of_no_rule hr, Function.update_of_ne (ruleKey_ne_proxyKey _ _)] at hentry
        exact hc k r hentry
    | some q =>
        rw [storeResult_of_rule hr] at hentry
        by_cases hk : k = m.infoKey
        · subst hk
          rw [Function.update_self] at hentry
          cases hentry
          exact hg i m res lists r rfl hcall hr
        · rw [Function.update_of_ne (fun e => hk (ruleKey_injective e))] at hentry
          exact hc k r hentry

theorem cacheCurrent_step_iff {a : Action} (hc : CacheCurrent s) (h : step s a = some s') :
    CacheCurrent s' ↔ StoresInForce s a := by
  cases a with
  | store i =>
      obtain ⟨m, res, lists, hcall, rfl⟩ := step_store h
      exact cacheCurrent_store_iff hc hcall
  | start i m =>
      obtain ⟨stage, rfl, -⟩ := step_start h
      exact ⟨fun _ => storesInForce_of_ne nofun, fun _ => hc⟩
  | scan i =>
      obtain ⟨m, lists, res, md, -, -, rfl⟩ := step_scan h
      exact ⟨fun _ => storesInForce_of_ne nofun, fun _ => hc⟩
  | updateRules newRules =>
      cases h
      exact ⟨fun _ => storesInForce_of_ne nofun, fun _ _ _ hentry => nomatch hentry⟩
  | updateProxies newProxies =>
      cases h
      exact ⟨fun _ => storesInForce_of_ne nofun, fun _ => hc⟩
  | evict key =>
      cases h
      refine ⟨fun _ => storesInForce_of_ne nofun, fun _ k r hentry => hc k r ?_⟩
      by_cases hk : ruleKey k = key
      · simp [hk] at hentry
      · simpa [Function.update_of_ne hk] using hentry

end Steps

/-- A run of calls and updates keeps every cached and returned rule in force
exactly when each of its stores meets the condition. -/
theorem current_always_iff (t : Tunnel) (as : List Action) :
    system.Always Current (.init t) as ↔ system.Guarded StoresInForce (.init t) as := by
  have hinit : Current (.init t) := ⟨fun _ _ h => (nomatch h), fun _ _ h => (nomatch h)⟩
  have hwatch : Watching (.init t) := fun _ _ _ h => nomatch h
  have hkeep : ∀ s a s', Watching s → Current s → system.step s a = some s' →
      StoresInForce s a → Watching s' := fun _ _ _ hw _ hs _ => watching_step hw hs
  refine System.always_iff_guarded _ hkeep ?_ as hwatch hinit
  intro s a s' hw hc hs
  rw [← cacheCurrent_step_iff hc.1 hs]
  exact ⟨And.left, fun hcache => ⟨hcache, justified_step hw hc hs⟩⟩

/-- A call scans, the rule is removed, the call stores: the rule is back in the
cache, and a call that starts afterwards returns it. -/
theorem store_after_purge_revives_rule :
    (system.run (.init Tunnel.finalTunnel)
        [.start 0 (Tunnel.connFrom (str "1234")), .scan 0, .updateRules [], .store 0,
          .start 1 (Tunnel.connFrom (str "1234"))]).map
      (fun s => (s.tunnel.rules, s.cm (ruleKey (Tunnel.connFrom (str "1234")).infoKey),
        s.calls 1)) =
    some ([], some (.rule (.final (str "B") false)),
      some ⟨.done ⟨some ⟨2, str "B", true⟩, some (.final (str "B") false)⟩, [[]]⟩) := by
  decide +kernel

end RuleBaseProxy.CacheUpdate
