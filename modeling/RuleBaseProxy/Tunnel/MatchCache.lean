import RuleBaseProxy.Lib.Transition
import RuleBaseProxy.Tunnel.Match

/-! # The match cache

`matchHashMap` puts a cache in front of `match`, keyed by `InfoKey`. A cached
rule is matched once more before it is returned; a cached adapter is returned
as it is. The key does not hold the source port, which some rules look at, and
the development ends with the exact rule lists for which the cache is
transparent nevertheless.
-/

namespace RuleBaseProxy

open Go Go.Net TransitionSystem

/-- What `Cm` holds: a rule, or an adapter that may be nil. -/
inductive CacheValue where
  | rule (r : Rule)
  | proxy (p : Option Proxy)
deriving DecidableEq

/-- `Cm`. -/
abbrev Cache := Str → Option CacheValue

def Cache.empty : Cache := fun _ => none

def ruleKey (infoKey : Str) : Str := infoKey ++ str "_rule"
def proxyKey (infoKey : Str) : Str := infoKey ++ str "_proxy"

def setMatchHashMap (cm : Cache) (key : Str) (value : CacheValue) : Cache :=
  Function.update cm key (some value)

/-- How `matchHashMap` stores what `match` returned. -/
def storeResult (cm : Cache) (m : Metadata) (res : MatchResult) : Cache :=
  match res.rule with
  | some r => setMatchHashMap cm (ruleKey m.infoKey) (.rule r)
  | none => setMatchHashMap cm (proxyKey m.infoKey) (.proxy res.adapter)

/-- The outcome of the two lookups at the head of `matchHashMap`. -/
inductive Lookup where
  | hit (res : MatchResult)
  | miss
  | panicked
deriving DecidableEq

namespace Tunnel

variable (t : Tunnel)

/-- The first lookup: the cached rule is matched again and its adapter looked up anew. -/
def cachedRule (cm : Cache) (m : Metadata) : Option MatchResult :=
  match cm (ruleKey m.infoKey) with
  | some (.rule r) =>
      match t.proxies.get r.adapter with
      | some p =>
          if r.isMatch t.env m then
            match m.netWork with
            | .TCP => some ⟨some p, some r⟩
            | .UDP => if p.supportUDP then some ⟨some p, some r⟩ else none
          else none
      | none => none
  | _ => none

/-- Both lookups. A rule under the second key would fail the type assertion. -/
def lookup (cm : Cache) (m : Metadata) : Lookup :=
  match t.cachedRule cm m with
  | some res => .hit res
  | none =>
      match cm (proxyKey m.infoKey) with
      | some (.proxy (some p)) => .hit ⟨some p, none⟩
      | some (.proxy none) => .miss
      | some (.rule _) => .panicked
      | none => .miss

/-- `matchHashMap`, with the cache as it leaves it; `none` for a panic. -/
def matchHashMap (cm : Cache) (m : Metadata) : Option (MatchResult × Cache) :=
  match t.lookup cm m with
  | .hit res => some (res, cm)
  | .panicked => none
  | .miss => (t.doMatch m).map fun r => (r.1, storeResult cm m r.1)

end Tunnel

/-- What happens to the cache while the configuration stays: calls, and
evictions at any moment. -/
inductive CacheEvent where
  | call (m : Metadata)
  | evict (key : Str)

def cacheSystem (t : Tunnel) : System Cache CacheEvent where
  step := fun cm e =>
    match e with
    | .call m => (t.matchHashMap cm m).map Prod.snd
    | .evict key => some (Function.update cm key none)

/-! ## The keys -/

theorem ruleKey_injective {k k' : Str} (h : ruleKey k = ruleKey k') : k = k' :=
  List.append_cancel_right h

theorem proxyKey_injective {k k' : Str} (h : proxyKey k = proxyKey k') : k = k' :=
  List.append_cancel_right h

theorem ruleKey_ne_proxyKey (k k' : Str) : ruleKey k ≠ proxyKey k' := by
  intro h
  have he : (str "_rule").getLast? = some 101 := by decide
  have hy : (str "_proxy").getLast? = some 121 := by decide
  have hlast := congrArg List.getLast? h
  simp [ruleKey, proxyKey, List.getLast?_append, he, hy] at hlast

theorem storeResult_of_rule {cm : Cache} {m : Metadata} {res : MatchResult} {r : Rule}
    (h : res.rule = some r) :
    storeResult cm m res = Function.update cm (ruleKey m.infoKey) (some (.rule r)) := by
  simp only [storeResult, h, setMatchHashMap]

theorem storeResult_of_no_rule {cm : Cache} {m : Metadata} {res : MatchResult}
    (h : res.rule = none) :
    storeResult cm m res = Function.update cm (proxyKey m.infoKey) (some (.proxy res.adapter)) := by
  simp only [storeResult, h, setMatchHashMap]

/-! ## Connections that differ only in the source port -/

structure Scan.Same (s s' : Scan) : Prop where
  info : s.metadata.SameInfo s'.metadata
  resolved : s.resolved = s'.resolved

private theorem isNone_congr {m m' : Metadata} (h : m.SameInfo m') :
    m.dstIP.isNone = m'.dstIP.isNone := by
  rw [← Option.isNone_map (f := IP.canon), h.dstIP, Option.isNone_map]

private theorem sameInfo_withDstIP {m m' : Metadata} (h : m.SameInfo m') (ip : Option IP) :
    Metadata.SameInfo { m with dstIP := ip } { m' with dstIP := ip } :=
  ⟨h.netWork, h.type, h.srcIP, rfl, h.dstPort, h.addrType, h.host⟩

/-- The metadata of the loop is the caller's, with a missing destination
address possibly filled in. -/
def Filled (m m' : Metadata) : Prop :=
  m' = m ∨ m.dstIP = none ∧ ∃ ip, m' = { m with dstIP := ip }

theorem Filled.trans {m m₁ m₂ : Metadata} (h₁ : Filled m m₁) (h₂ : Filled m₁ m₂) :
    Filled m m₂ := by
  rcases h₁ with rfl | ⟨hnone, ip, rfl⟩
  · exact h₂
  · rcases h₂ with rfl | ⟨_, ip', rfl⟩
    · exact Or.inr ⟨hnone, ip, rfl⟩
    · exact Or.inr ⟨hnone, ip', rfl⟩

theorem Filled.netWork {m m' : Metadata} (h : Filled m m') : m'.netWork = m.netWork := by
  rcases h with rfl | ⟨_, ip, rfl⟩ <;> rfl

theorem Filled.isMatch {env : Env} {m m' : Metadata} (h : Filled m m') {r : Rule}
    (hr : r.isMatch env m = true) : r.isMatch env m' = true := by
  rcases h with rfl | ⟨hnone, ip, rfl⟩
  · exact hr
  · exact Rule.isMatch_of_dstIP_none env hnone ip hr

theorem Filled.isMatch_of_readsSourcePort {env : Env} {m m' : Metadata} (h : Filled m m')
    {r : Rule} (hr : r.readsSourcePort = true) : r.isMatch env m' = r.isMatch env m := by
  rcases h with rfl | ⟨_, ip, rfl⟩
  · rfl
  · exact Rule.isMatch_dstIP_of_readsSourcePort env m ip hr

namespace Tunnel

variable {t : Tunnel}

theorem applyHosts_filled {m : Metadata} {s : Scan} (h : t.applyHosts m = some s) :
    Filled m s.metadata := by
  unfold applyHosts at h
  split at h
  · cases h
    exact Or.inl rfl
  · cases h
  · split at h
    · cases h
      exact Or.inl rfl
    · rename_i hnone
      split at h
      · cases h
      · cases h
        exact Or.inr ⟨by simpa using hnone, _, rfl⟩

theorem resolve_filled (r : Rule) (s : Scan) : Filled s.metadata (t.resolve r s).metadata := by
  unfold resolve
  split
  · split
    · exact Or.inl rfl
    · split
      · rename_i hnone
        exact Or.inr ⟨by simpa using hnone, _, rfl⟩
      · exact Or.inl rfl
  · exact Or.inl rfl

theorem after_filled (pre : List Rule) (s : Scan) : Filled s.metadata (t.after pre s).metadata := by
  induction pre generalizing s with
  | nil => exact Or.inl rfl
  | cons q pre ih => exact (resolve_filled q s).trans (ih (t.resolve q s))

theorem loop_filled {m : Metadata} {s : Scan} (hs : t.applyHosts m = some s) (pre : List Rule)
    (r : Rule) : Filled m (t.resolve r (t.after pre s)).metadata :=
  ((applyHosts_filled hs).trans (after_filled pre s)).trans (resolve_filled r _)

theorem usable_congr {m m' : Metadata} (h : m'.netWork = m.netWork) (r : Rule) :
    t.usable m' r = t.usable m r := by
  simp only [usable, h]

/-- A rule that matches the metadata as given also matches at its place in the loop. -/
theorem takes_of_isMatch {m : Metadata} {s : Scan} (hs : t.applyHosts m = some s) {r : Rule}
    (hr : r.isMatch t.env m = true) (pre : List Rule) : t.takes pre r s = t.usable m r := by
  have hfill := loop_filled hs pre r
  simp only [takes, hfill.isMatch hr, ↓reduceIte, usable_congr hfill.netWork]

theorem takes_of_readsSourcePort {m : Metadata} {s : Scan} (hs : t.applyHosts m = some s)
    {r : Rule} (hr : r.readsSourcePort = true) (pre : List Rule) :
    t.takes pre r s = if r.isMatch t.env m then t.usable m r else none := by
  have hfill := loop_filled hs pre r
  simp only [takes, hfill.isMatch_of_readsSourcePort hr, usable_congr hfill.netWork]

theorem applyHosts_same {m m' : Metadata} (h : m.SameInfo m') {s : Scan}
    (hs : t.applyHosts m = some s) : ∃ s', t.applyHosts m' = some s' ∧ s.Same s' := by
  have hsome : m.dstIP.isSome = m'.dstIP.isSome := by
    rw [← Option.not_isNone, ← Option.not_isNone, isNone_congr h]
  unfold applyHosts at hs ⊢
  rw [← h.host, ← hsome]
  split at hs
  · cases hs
    exact ⟨_, rfl, h, rfl⟩
  · cases hs
  · split at hs
    · rename_i hdst
      cases hs
      exact ⟨⟨m', true⟩, by simp [hdst], h, rfl⟩
    · rename_i hdst
      split at hs
      · cases hs
      · rename_i ip _ _
        cases hs
        exact ⟨⟨{ m' with dstIP := ip }, true⟩, by simp [hdst, h.host], sameInfo_withDstIP h ip, rfl⟩

theorem resolve_same (r : Rule) {s s' : Scan} (h : s.Same s') :
    (t.resolve r s).Same (t.resolve r s') := by
  have hnone := isNone_congr h.info
  have hask : shouldResolveIP r s.metadata = shouldResolveIP r s'.metadata := by
    simp only [shouldResolveIP, h.info.host, hnone]
  unfold resolve
  rw [← h.resolved, ← hask, ← h.info.host, ← hnone]
  split
  · split
    · exact ⟨h.info, rfl⟩
    · split
      · exact ⟨sameInfo_withDstIP h.info _, rfl⟩
      · exact ⟨h.info, rfl⟩
  · exact h

theorem after_same (pre : List Rule) {s s' : Scan} (h : s.Same s') :
    (t.after pre s).Same (t.after pre s') := by
  induction pre generalizing s s' with
  | nil => exact h
  | cons q pre ih => exact ih (resolve_same q h)

theorem takes_same {s s' : Scan} (h : s.Same s') (pre : List Rule) {r : Rule}
    (hr : r.readsSourcePort = false) : t.takes pre r s = t.takes pre r s' := by
  have hres := resolve_same (t := t) r (after_same (t := t) pre h)
  simp only [takes, Rule.isMatch_congr t.env hres.info hr, usable_congr hres.info.netWork]

/-! ## Entries and the calls that stored them -/

/-- A hit of the first lookup is a cached rule that matches and has a usable adapter. -/
theorem cachedRule_eq_some_iff {cm : Cache} {m : Metadata} {res : MatchResult} :
    t.cachedRule cm m = some res ↔ ∃ r p, cm (ruleKey m.infoKey) = some (.rule r) ∧
      r.isMatch t.env m = true ∧ t.usable m r = some p ∧ res = ⟨some p, some r⟩ := by
  unfold cachedRule usable
  constructor
  · intro h
    split at h
    · rename_i r hr
      split at h
      · rename_i p hp
        split at h
        · rename_i hmatch
          refine ⟨r, p, hr, hmatch, ?_⟩
          cases hnet : m.netWork with
          | TCP =>
              simp only [hnet, Option.some.injEq] at h
              simp [hp, h]
          | UDP =>
              simp only [hnet] at h
              split at h
              · rename_i hudp
                cases h
                simp [hp, hudp]
              · cases h
        · cases h
      · cases h
    · cases h
  · rintro ⟨r, p, hr, hmatch, hp, rfl⟩
    cases hget : t.proxies.get r.adapter with
    | none => simp [hget] at hp
    | some q =>
        simp only [hget] at hp
        split at hp
        · cases hp
        · rename_i hudp
          cases hp
          simp only [hr, hget, hmatch, ↓reduceIte]
          cases hnet : m.netWork with
          | TCP => rfl
          | UDP =>
              have hsup : p.supportUDP = true := by simpa [hnet] using hudp
              simp [hsup]

variable (t) in
/-- Every entry is what `match` once returned for a connection with its key. -/
structure Backed (cm : Cache) : Prop where
  rule : ∀ k v, cm (ruleKey k) = some v → ∃ m res md r, m.DecimalPort ∧ m.infoKey = k ∧
    t.doMatch m = some (res, md) ∧ res.rule = some r ∧ v = .rule r
  proxy : ∀ k v, cm (proxyKey k) = some v → ∃ m res md, m.DecimalPort ∧ m.infoKey = k ∧
    t.doMatch m = some (res, md) ∧ res.rule = none ∧ v = .proxy res.adapter

theorem Backed.empty : t.Backed Cache.empty :=
  ⟨fun _ _ h => (nomatch h), fun _ _ h => (nomatch h)⟩

theorem Backed.evict {cm : Cache} (h : t.Backed cm) (key : Str) :
    t.Backed (Function.update cm key none) := by
  have hsub : ∀ k v, Function.update cm key none k = some v → cm k = some v := by
    intro k v hk
    by_cases hkey : k = key
    · simp [hkey] at hk
    · rwa [Function.update_of_ne hkey] at hk
  exact ⟨fun k v hv => h.rule k v (hsub _ v hv), fun k v hv => h.proxy k v (hsub _ v hv)⟩

theorem Backed.storeResult {cm : Cache} (h : t.Backed cm) {m : Metadata} (hm : m.DecimalPort)
    {res : MatchResult} {md : Metadata} (hres : t.doMatch m = some (res, md)) :
    t.Backed (storeResult cm m res) := by
  cases hrule : res.rule with
  | some r =>
      rw [storeResult_of_rule hrule]
      refine ⟨fun k v hv => ?_, fun k v hv => ?_⟩
      · by_cases hk : k = m.infoKey
        · subst hk
          rw [Function.update_self] at hv
          exact ⟨m, res, md, r, hm, rfl, hres, hrule, (Option.some.inj hv).symm⟩
        · rw [Function.update_of_ne (fun e => hk (ruleKey_injective e))] at hv
          exact h.rule k v hv
      · rw [Function.update_of_ne (fun e => ruleKey_ne_proxyKey _ _ e.symm)] at hv
        exact h.proxy k v hv
  | none =>
      rw [storeResult_of_no_rule hrule]
      refine ⟨fun k v hv => ?_, fun k v hv => ?_⟩
      · rw [Function.update_of_ne (ruleKey_ne_proxyKey _ _)] at hv
        exact h.rule k v hv
      · by_cases hk : k = m.infoKey
        · subst hk
          rw [Function.update_self] at hv
          exact ⟨m, res, md, hm, rfl, hres, hrule, (Option.some.inj hv).symm⟩
        · rw [Function.update_of_ne (fun e => hk (proxyKey_injective e))] at hv
          exact h.proxy k v hv

theorem Backed.step {cm cm' : Cache} {e : CacheEvent} (h : t.Backed cm)
    (he : ∀ m, e = .call m → m.DecimalPort) (hstep : (cacheSystem t).step cm e = some cm') :
    t.Backed cm' := by
  cases e with
  | evict key =>
      cases hstep
      exact h.evict key
  | call m =>
      obtain ⟨⟨res, cm₁⟩, hcall, rfl⟩ := Option.map_eq_some_iff.mp hstep
      unfold matchHashMap at hcall
      split at hcall
      · cases hcall
        exact h
      · cases hcall
      · obtain ⟨⟨res', md⟩, hres, hpair⟩ := Option.map_eq_some_iff.mp hcall
        cases hpair
        exact h.storeResult (he m rfl) hres

theorem Backed.run {events : List CacheEvent} {cm : Cache}
    (he : ∀ m, CacheEvent.call m ∈ events → m.DecimalPort)
    (hrun : (cacheSystem t).run Cache.empty events = some cm) : t.Backed cm := by
  have hguard : (cacheSystem t).Guarded (fun _ e => ∀ m, e = .call m → m.DecimalPort)
      Cache.empty events := by
    apply System.guarded_of_forall
    rintro e hmem _ m rfl
    exact he m hmem
  exact (System.always_of_guarded _ (fun _ _ _ hb hg hs => Backed.step hb hg hs)
    Backed.empty hguard).last _ hrun

/-! ## When the cache is transparent -/

variable (t) in
/-- No rule that looks at the source port decides between two connections that
the key does not tell apart. Where such a rule applies to `m` and not to `m'`,
a rule before it applies to one of the two, or the first rule after it that
applies to `m'` does not match `m`. -/
def SourcePortBlind : Prop :=
  ∀ pre r post, t.rules = pre ++ r :: post → r.readsSourcePort = true →
    ∀ m m' : Metadata, m.DecimalPort → m'.DecimalPort → m.infoKey = m'.infoKey →
      t.Applies pre r m → ¬ t.Applies pre r m' →
      (∃ a q b, pre = a ++ q :: b ∧ (t.Applies a q m ∨ t.Applies a q m')) ∨
      ∃ a q b, post = a ++ q :: b ∧ t.Applies (pre ++ r :: a) q m' ∧
        (∀ c x d, a = c ++ x :: d → ¬ t.Applies (pre ++ r :: c) x m') ∧
        q.isMatch t.env m = false

variable (t) in
/-- After any calls and evictions, `matchHashMap` returns what `match` returns. -/
def CacheTransparent : Prop :=
  ∀ (events : List CacheEvent) (cm : Cache) (m : Metadata),
    (∀ m', CacheEvent.call m' ∈ events → m'.DecimalPort) → m.DecimalPort →
    (cacheSystem t).run Cache.empty events = some cm →
    (t.matchHashMap cm m).map Prod.fst = (t.doMatch m).map Prod.fst

/-- Where two connections with one key part, a rule that looks at the source
port stands. -/
theorem readsSourcePort_of_takes {s s' : Scan} (h : s.Same s') {pre : List Rule} {r : Rule}
    (hs : t.takes pre r s ≠ none) (hs' : t.takes pre r s' = none) : r.readsSourcePort = true := by
  by_contra hr
  rw [takes_same h pre (Bool.not_eq_true _ ▸ hr)] at hs
  exact hs hs'

/-- A connection stops at a rule which another one with its key has passed. By
`SourcePortBlind` the other one is stopped later, by a rule that does not match
the first. -/
theorem SourcePortBlind.later (hblind : t.SourcePortBlind) {m m' : Metadata} {s s' : Scan}
    (hm : m.DecimalPort) (hm' : m'.DecimalPort) (hkey : m.infoKey = m'.infoKey)
    (hs : t.applyHosts m = some s) (hs' : t.applyHosts m' = some s') (hsame : s.Same s')
    {pre post : List Rule} {r : Rule} {p : Proxy} (hrules : t.rules = pre ++ r :: post)
    (hstop : t.StopsAt pre r p s) (hpass : t.TakesNone (pre ++ [r]) s') :
    ∃ a q b p', post = a ++ q :: b ∧ t.StopsAt (pre ++ r :: a) q p' s' ∧
      q.isMatch t.env m = false := by
  have htakes : t.takes pre r s ≠ none := by rw [hstop.1]; exact Option.some_ne_none p
  have htakes' : t.takes pre r s' = none := hpass pre r [] rfl
  have hreads := readsSourcePort_of_takes hsame htakes htakes'
  rcases hblind pre r post hrules hreads m m' hm hm' hkey ((applies_iff hs pre r).mpr htakes)
    (fun h => (applies_iff hs' pre r).mp h htakes') with
    ⟨a, q, b, rfl, happ | happ⟩ | ⟨a, q, b, rfl, happ, hfirst, hmatch⟩
  · exact absurd (hstop.2 a q b rfl) ((applies_iff hs a q).mp happ)
  · exact absurd (hpass a q (b ++ [r]) (by simp)) ((applies_iff hs' a q).mp happ)
  · obtain ⟨p', hp'⟩ := Option.ne_none_iff_exists'.mp ((applies_iff hs' _ q).mp happ)
    refine ⟨a, q, b, p', rfl, ⟨hp', ?_⟩, hmatch⟩
    intro c x d hcd
    rcases places_cases hcd with ⟨e, rfl, rfl⟩ | ⟨rfl, rfl, rfl⟩ | ⟨e, rfl, -⟩
    · by_contra hx
      exact hfirst e x d rfl ((applies_iff hs' _ x).mpr hx)
    · exact htakes'
    · exact hpass c x (e ++ [r]) (by simp)

theorem cachedRule_correct (hblind : t.SourcePortBlind) {cm : Cache} (hb : t.Backed cm)
    {m : Metadata} (hm : m.DecimalPort) {res : MatchResult} (hit : t.cachedRule cm m = some res) :
    (t.doMatch m).map Prod.fst = some res := by
  obtain ⟨r, p, hentry, hmatch, husable, rfl⟩ := cachedRule_eq_some_iff.mp hit
  obtain ⟨m', res', md', r', hm', hkey, hres', hrule', hr'⟩ := hb.rule _ _ hentry
  cases hr'
  obtain ⟨s', hs', ⟨_, rfl⟩ | ⟨pre', q, post', p', hrules', hstop', rfl⟩⟩ := doMatch_cases hres'
  · cases hrule'
  cases hrule'
  obtain ⟨s, hs, hsame⟩ := applyHosts_same (Metadata.sameInfo_of_infoKey_eq hm' hm hkey) hs'
  have htakes : t.takes pre' r s = some p := (takes_of_isMatch hs hmatch pre').trans husable
  rcases scan_cases (t := t) t.rules s with ⟨hnone, -⟩ | ⟨pre, q, post, p₁, hrules, hstop, -⟩
  · rw [hnone pre' r post' hrules'] at htakes
    cases htakes
  rw [doMatch_of_stopsAt hs hrules hstop]
  rcases places_cases (hrules.symm.trans hrules') with ⟨b, rfl, rfl⟩ | ⟨rfl, rfl, rfl⟩ | ⟨b, rfl, -⟩
  · have hpass : t.TakesNone (pre ++ [q]) s' :=
      TakesNone.of_append b (by simpa using hstop'.2)
    obtain ⟨a, x, c, p'', hpost, hstop'', hx⟩ := hblind.later hm hm' hkey.symm hs hs'
      ⟨hsame.info.symm, hsame.resolved.symm⟩ hrules hstop hpass
    have hplaces : (pre ++ q :: b) ++ r :: post' = (pre ++ q :: a) ++ x :: c := by simp [hpost]
    obtain ⟨-, rfl, -⟩ := StopsAt.unique hplaces hstop' hstop''
    rw [hmatch] at hx
    cases hx
  · rw [hstop.1] at htakes
    rw [htakes]
  · rw [hstop.2 pre' r b rfl] at htakes
    cases htakes

theorem cachedProxy_correct (hblind : t.SourcePortBlind) {cm : Cache} (hb : t.Backed cm)
    {m : Metadata} (hm : m.DecimalPort) {p : Option Proxy}
    (hit : cm (proxyKey m.infoKey) = some (.proxy p)) :
    (t.doMatch m).map Prod.fst = some ⟨p, none⟩ := by
  obtain ⟨m', res', md', hm', hkey, hres', hrule', hp⟩ := hb.proxy _ _ hit
  obtain ⟨s', hs', ⟨hnone', rfl⟩ | ⟨_, _, _, _, _, _, rfl⟩⟩ := doMatch_cases hres'
  · cases hp
    obtain ⟨s, hs, hsame⟩ := applyHosts_same (Metadata.sameInfo_of_infoKey_eq hm' hm hkey) hs'
    rcases scan_cases (t := t) t.rules s with ⟨hnone, -⟩ | ⟨pre, r, post, p₁, hrules, hstop, -⟩
    · exact doMatch_of_takesNone hs hnone
    · have hpass : t.TakesNone (pre ++ [r]) s' :=
        TakesNone.of_append post (by simpa [hrules] using hnone')
      obtain ⟨a, q, b, p', rfl, hstop', -⟩ := hblind.later hm hm' hkey.symm hs hs'
        ⟨hsame.info.symm, hsame.resolved.symm⟩ hrules hstop hpass
      have hq := hnone' (pre ++ r :: a) q b (by rw [hrules]; simp)
      rw [hstop'.1] at hq
      cases hq
  · cases hrule'

theorem cacheTransparent_of_sourcePortBlind (hblind : t.SourcePortBlind) : t.CacheTransparent := by
  intro events cm m he hm hrun
  have hb : t.Backed cm := Backed.run he hrun
  unfold matchHashMap lookup
  cases hrule : t.cachedRule cm m with
  | some res => simp [cachedRule_correct hblind hb hm hrule]
  | none =>
      cases hproxy : cm (proxyKey m.infoKey) with
      | none => simp [Option.map_map, Function.comp_def]
      | some v =>
          cases v with
          | rule r =>
              obtain ⟨_, _, _, _, _, _, _, hv⟩ := hb.proxy _ _ hproxy
              cases hv
          | proxy p =>
              have hcorrect := cachedProxy_correct hblind hb hm hproxy
              cases p with
              | some p => simp [hcorrect]
              | none => simp [Option.map_map, Function.comp_def]

theorem usable_of_takes {m : Metadata} {s : Scan} (hs : t.applyHosts m = some s)
    {pre : List Rule} {r : Rule} {p : Proxy} (h : t.takes pre r s = some p) :
    t.usable m r = some p := by
  have hfill := loop_filled hs pre r
  simp only [takes] at h
  split at h
  · rwa [usable_congr hfill.netWork] at h
  · cases h

theorem run_call_empty {m : Metadata} {res : MatchResult}
    (h : (t.doMatch m).map Prod.fst = some res) :
    (cacheSystem t).run Cache.empty [.call m] = some (storeResult Cache.empty m res) := by
  obtain ⟨⟨res', md⟩, hres, rfl⟩ := Option.map_eq_some_iff.mp h
  have hlookup : t.lookup Cache.empty m = .miss := rfl
  simp [System.run, cacheSystem, matchHashMap, hlookup, hres]

/-- In a transparent cache the result of one call is what the next connection
with its key would be given by the scan, if the lookup gives it at all. -/
theorem CacheTransparent.second_call (htr : t.CacheTransparent) {m m' : Metadata}
    (hm : m.DecimalPort) (hm' : m'.DecimalPort) {res res' : MatchResult}
    (hres' : (t.doMatch m').map Prod.fst = some res')
    (hlookup : t.lookup (storeResult Cache.empty m' res') m = .hit res) :
    (t.doMatch m).map Prod.fst = some res := by
  have hsecond := htr [.call m'] _ m (by simpa using hm') hm (run_call_empty hres')
  rw [← hsecond]
  simp [matchHashMap, hlookup]

theorem sourcePortBlind_of_cacheTransparent (htr : t.CacheTransparent) : t.SourcePortBlind := by
  intro pre r post hrules hreads m m' hm hm' hkey ⟨s, hs, htake⟩ hnot
  obtain ⟨p, hp⟩ := Option.isSome_iff_exists.mp htake
  have hinfo : m.SameInfo m' := Metadata.sameInfo_of_infoKey_eq hm hm' hkey
  obtain ⟨s', hs', hsame⟩ := applyHosts_same hinfo hs
  rw [applies_iff hs', not_not] at hnot
  by_cases hpre : t.TakesNone pre s
  swap
  · rw [takesNone_iff hs] at hpre
    push Not at hpre
    obtain ⟨a, q, b, hab, happ⟩ := hpre
    exact Or.inl ⟨a, q, b, hab, Or.inl happ⟩
  have hscan := doMatch_of_stopsAt hs hrules ⟨hp, hpre⟩
  rcases scan_cases (t := t) t.rules s' with ⟨hnone', -⟩ | ⟨pre', q, post', p', hrules', hstop', -⟩
  · have hres' := doMatch_of_takesNone hs' hnone'
    have hhit : (t.doMatch m).map Prod.fst = some ⟨some t.proxies.direct, none⟩ :=
      htr.second_call hm hm' hres' (by
        rw [storeResult_of_no_rule rfl, ← hkey]
        simp [lookup, cachedRule, Function.update_of_ne (ruleKey_ne_proxyKey _ _), Cache.empty,
          t.proxies.get_direct])
    rw [hscan] at hhit
    simp at hhit
  rcases places_cases (hrules.symm.trans hrules') with ⟨a, rfl, rfl⟩ | ⟨rfl, rfl, rfl⟩ | ⟨b, rfl, rfl⟩
  · refine Or.inr ⟨a, q, post', rfl, (applies_iff hs' _ q).mpr (by simp [hstop'.1]), ?_, ?_⟩
    · rintro c x d rfl happ
      exact (applies_iff hs' _ x).mp happ (hstop'.2 (pre ++ r :: c) x d (by simp))
    · by_contra hmatch
      rw [Bool.not_eq_false] at hmatch
      have hres' := doMatch_of_stopsAt hs' hrules' hstop'
      have husable : t.usable m q = some p' := by
        rw [usable_congr (m := m') hinfo.netWork, usable_of_takes hs' hstop'.1]
      have hcached : t.cachedRule (storeResult Cache.empty m' ⟨some p', some q⟩) m =
          some ⟨some p', some q⟩ := by
        rw [storeResult_of_rule rfl, ← hkey]
        exact cachedRule_eq_some_iff.mpr ⟨q, p', by simp, hmatch, husable, rfl⟩
      have hhit : (t.doMatch m).map Prod.fst = some ⟨some p', some q⟩ :=
        htr.second_call hm hm' hres' (by simp [lookup, hcached])
      rw [hscan] at hhit
      obtain ⟨-, rfl⟩ : p = p' ∧ r = q := by simpa using hhit
      have hagain := hstop'.1
      rw [takes_of_readsSourcePort hs' hreads, ← takes_of_readsSourcePort hs' hreads pre,
        hnot] at hagain
      cases hagain
  · rw [hstop'.1] at hnot
    cases hnot
  · exact Or.inl ⟨pre', q, b, rfl, Or.inr ((applies_iff hs' _ q).mpr (by simp [hstop'.1]))⟩

/-- The cache is transparent for exactly the configurations in which no rule
that looks at the source port decides between connections with one key. -/
theorem cacheTransparent_iff_sourcePortBlind (t : Tunnel) :
    t.CacheTransparent ↔ t.SourcePortBlind :=
  ⟨sourcePortBlind_of_cacheTransparent, cacheTransparent_of_sourcePortBlind⟩

/-- Port 1234 goes to `A`, everything else to `B`. -/
def srcPortTunnel : Tunnel :=
  .bare [.port (str "1234") (str "A") true false, .final (str "B") false]
    (.ofList ⟨0, str "DIRECT", true⟩ [⟨1, str "A", true⟩, ⟨2, str "B", true⟩])

/-- After a call from port 9999, port 1234 is sent to `B`; the scan sends it to `A`. -/
theorem matchHashMap_ignores_srcPort :
    (((cacheSystem srcPortTunnel).run Cache.empty [.call (connFrom (str "9999"))]).bind fun cm =>
        (srcPortTunnel.matchHashMap cm (connFrom (str "1234"))).map Prod.fst) =
      some ⟨some ⟨2, str "B", true⟩, some (.final (str "B") false)⟩ ∧
    (srcPortTunnel.doMatch (connFrom (str "1234"))).map Prod.fst =
      some ⟨some ⟨1, str "A", true⟩, some (.port (str "1234") (str "A") true false)⟩ := by
  decide +kernel

end Tunnel

end RuleBaseProxy
