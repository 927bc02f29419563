import RuleBaseProxy.Component.Trie
import RuleBaseProxy.Rule.Basic

/-! # The rule scan

`match` walks the rule list under the read lock and returns the first rule that
applies, together with its adapter. The walk fills in the destination address
on the way, at the first rule that asks for it, so whether a rule applies
depends on the rules before it.
-/

namespace RuleBaseProxy

open Go Go.Net

/-- A `constant.Proxy`. The reference tells two objects of one description
apart: every configuration builds its own. -/
structure Proxy where
  ref : Nat
  name : Str
  supportUDP : Bool
deriving DecidableEq

/-- The `proxies` map. `parseProxies` puts `DIRECT` into every one it builds. -/
structure Proxies where
  get : Str → Option Proxy
  direct : Proxy
  get_direct : get (str "DIRECT") = some direct

def Proxies.ofList (direct : Proxy) (ps : List Proxy) : Proxies where
  get := fun name => if name = str "DIRECT" then some direct else ps.find? (·.name = name)
  direct := direct
  get_direct := by simp

/-- What a hosts entry may hold: `parseHosts` stores a bare address for
`localhost` and lists, possibly with nil addresses, for everything else. -/
inductive HostData where
  | ip (ip : IP)
  | ips (ips : List (Option IP))

/-- The package-level state that `match` reads, and the resolver it asks. -/
structure Tunnel where
  env : Env
  hosts : Trie.DomainTrie HostData
  resolveIP : Str → Option IP
  rules : List Rule
  proxies : Proxies

/-- A tunnel without hosts whose resolver answers nothing. -/
def Tunnel.bare (rules : List Rule) (proxies : Proxies) : Tunnel :=
  ⟨Env.bare, .new, fun _ => none, rules, proxies⟩

/-- The two results of `match` besides the error, which is always nil. -/
structure MatchResult where
  adapter : Option Proxy
  rule : Option Rule
deriving DecidableEq

/-- The state of the loop: the metadata as filled in so far, and `resolved`. -/
structure Scan where
  metadata : Metadata
  resolved : Bool

def shouldResolveIP (r : Rule) (m : Metadata) : Bool :=
  r.shouldResolveIP && m.host != [] && m.dstIP.isNone

namespace Tunnel

variable (t : Tunnel)

/-- The hosts lookup before the loop; `none` where the type assertion or the
index panics. -/
def applyHosts (m : Metadata) : Option Scan :=
  match t.hosts.search m.host with
  | none => some ⟨m, false⟩
  | some (.ip _) => none
  | some (.ips ips) =>
      if m.dstIP.isSome then some ⟨m, true⟩
      else
        match ips with
        | [] => none
        | ip :: _ => some ⟨{ m with dstIP := ip }, true⟩

def resolve (r : Rule) (s : Scan) : Scan :=
  if !s.resolved && shouldResolveIP r s.metadata then
    match t.resolveIP s.metadata.host with
    | none => ⟨s.metadata, true⟩
    | some ip =>
        ⟨if s.metadata.dstIP.isNone then { s.metadata with dstIP := some ip } else s.metadata, true⟩
  else s

/-- The adapter a matching rule is returned with, unless the loop continues. -/
def usable (m : Metadata) (r : Rule) : Option Proxy :=
  match t.proxies.get r.adapter with
  | none => none
  | some p => if m.netWork = .UDP ∧ p.supportUDP = false then none else some p

def scan : List Rule → Scan → MatchResult × Metadata
  | [], s => (⟨t.proxies.get (str "DIRECT"), none⟩, s.metadata)
  | r :: rs, s =>
      let s := t.resolve r s
      if r.isMatch t.env s.metadata then
        match t.usable s.metadata r with
        | some p => (⟨some p, some r⟩, s.metadata)
        | none => scan rs s
      else scan rs s

/-- `match`, with the metadata as it leaves it; `none` for a panic. -/
def doMatch (m : Metadata) : Option (MatchResult × Metadata) :=
  (t.applyHosts m).map (t.scan t.rules)

/-! ## A small configuration -/

def finalTunnel : Tunnel :=
  .bare [.final (str "B") false] (.ofList ⟨0, str "DIRECT", true⟩ [⟨2, str "B", true⟩])

def connFrom (srcPort : Str) : Metadata :=
  ⟨.TCP, .SOCKS5, some (.v4 10 0 0 1), some (.v4 1 1 1 1), srcPort,
    str "443", atypIPv4, []⟩

/-! ## Where the loop stops -/

def after (pre : List Rule) (s : Scan) : Scan := pre.foldl (fun s r => t.resolve r s) s

/-- The adapter with which the loop would stop at `r` once it has passed `pre`. -/
def takes (pre : List Rule) (r : Rule) (s : Scan) : Option Proxy :=
  let s := t.resolve r (t.after pre s)
  if r.isMatch t.env s.metadata then t.usable s.metadata r else none

@[simp] theorem takes_nil (r : Rule) (s : Scan) :
    t.takes [] r s =
      if r.isMatch t.env (t.resolve r s).metadata then t.usable (t.resolve r s).metadata r
      else none := rfl

@[simp] theorem takes_cons (q : Rule) (pre : List Rule) (r : Rule) (s : Scan) :
    t.takes (q :: pre) r s = t.takes pre r (t.resolve q s) := rfl

theorem scan_cons (r : Rule) (rs : List Rule) (s : Scan) :
    t.scan (r :: rs) s =
      match t.takes [] r s with
      | some p => (⟨some p, some r⟩, (t.resolve r s).metadata)
      | none => t.scan rs (t.resolve r s) := by
  simp only [scan, takes_nil]
  by_cases h : r.isMatch t.env (t.resolve r s).metadata
  · simp only [h, ↓reduceIte]
  · simp only [h, Bool.false_eq_true, ↓reduceIte]

def TakesNone (rs : List Rule) (s : Scan) : Prop :=
  ∀ a q b, rs = a ++ q :: b → t.takes a q s = none

def StopsAt (pre : List Rule) (r : Rule) (p : Proxy) (s : Scan) : Prop :=
  t.takes pre r s = some p ∧ t.TakesNone pre s

variable {t}

theorem TakesNone.nil (s : Scan) : t.TakesNone [] s := by
  intro a q b h
  simp at h

theorem TakesNone.cons {q : Rule} {rs : List Rule} {s : Scan} (hq : t.takes [] q s = none)
    (h : t.TakesNone rs (t.resolve q s)) : t.TakesNone (q :: rs) s := by
  intro a x b hab
  cases a with
  | nil =>
      simp only [List.nil_append, List.cons.injEq] at hab
      rw [← hab.1]
      exact hq
  | cons y a =>
      simp only [List.cons_append, List.cons.injEq] at hab
      rw [← hab.1, takes_cons]
      exact h a x b hab.2

/-- The loop either stops at the first rule that takes the connection or runs
to the end of the list. -/
theorem scan_cases (rs : List Rule) (s : Scan) :
    (t.TakesNone rs s ∧ (t.scan rs s).1 = ⟨t.proxies.get (str "DIRECT"), none⟩) ∨
    ∃ pre r post p, rs = pre ++ r :: post ∧ t.StopsAt pre r p s ∧
      (t.scan rs s).1 = ⟨some p, some r⟩ := by
  induction rs generalizing s with
  | nil => exact Or.inl ⟨TakesNone.nil s, rfl⟩
  | cons r rs ih =>
      rw [scan_cons]
      cases hr : t.takes [] r s with
      | some p => exact Or.inr ⟨[], r, rs, p, rfl, ⟨hr, TakesNone.nil s⟩, rfl⟩
      | none =>
          rcases ih (t.resolve r s) with ⟨hnone, hres⟩ | ⟨pre, q, post, p, rfl, hstop, hres⟩
          · exact Or.inl ⟨TakesNone.cons hr hnone, hres⟩
          · exact Or.inr ⟨r :: pre, q, post, p, rfl, ⟨hstop.1, TakesNone.cons hr hstop.2⟩, hres⟩

/-- Two places in one list: equal, or one inside the part before the other. -/
theorem places_cases {pre pre' post post' : List Rule} {r r' : Rule}
    (h : pre ++ r :: post = pre' ++ r' :: post') :
    (∃ b, pre' = pre ++ r :: b ∧ post = b ++ r' :: post') ∨ (pre = pre' ∧ r = r' ∧ post = post') ∨
      ∃ b, pre = pre' ++ r' :: b ∧ post' = b ++ r :: post := by
  rcases List.append_eq_append_iff.mp h with ⟨a, h1, h2⟩ | ⟨a, h1, h2⟩
  · cases a with
    | nil =>
        simp only [List.append_nil, List.nil_append, List.cons.injEq] at h1 h2
        exact Or.inr (Or.inl ⟨h1.symm, h2.1, h2.2⟩)
    | cons x a =>
        simp only [List.cons_append, List.cons.injEq] at h2
        exact Or.inl ⟨a, by rw [h1, h2.1], h2.2⟩
  · cases a with
    | nil =>
        simp only [List.append_nil, List.nil_append, List.cons.injEq] at h1 h2
        exact Or.inr (Or.inl ⟨h1, h2.1.symm, h2.2.symm⟩)
    | cons x a =>
        simp only [List.cons_append, List.cons.injEq] at h2
        exact Or.inr (Or.inr ⟨a, by rw [h1, h2.1], h2.2⟩)

theorem StopsAt.unique {pre pre' post post' : List Rule} {r r' : Rule} {p p' : Proxy} {s : Scan}
    (h : pre ++ r :: post = pre' ++ r' :: post') (hs : t.StopsAt pre r p s)
    (hs' : t.StopsAt pre' r' p' s) : pre = pre' ∧ r = r' ∧ p = p' := by
  rcases places_cases h with ⟨b, rfl, _⟩ | ⟨rfl, rfl, _⟩ | ⟨b, rfl, _⟩
  · have hnone := hs'.2 pre r b rfl
    rw [hs.1] at hnone
    cases hnone
  · exact ⟨rfl, rfl, Option.some.inj (hs.1.symm.trans hs'.1)⟩
  · have hnone := hs.2 pre' r' b rfl
    rw [hs'.1] at hnone
    cases hnone

theorem scan_of_stopsAt {pre post : List Rule} {r : Rule} {p : Proxy} {s : Scan}
    (h : t.StopsAt pre r p s) : (t.scan (pre ++ r :: post) s).1 = ⟨some p, some r⟩ := by
  rcases scan_cases (t := t) (pre ++ r :: post) s with ⟨hnone, _⟩ | ⟨pre', r', post', p', heq, hs, hres⟩
  · have htake := hnone pre r post rfl
    rw [h.1] at htake
    cases htake
  · obtain ⟨_, rfl, rfl⟩ := StopsAt.unique heq h hs
    exact hres

theorem scan_of_takesNone {rs : List Rule} {s : Scan} (h : t.TakesNone rs s) :
    (t.scan rs s).1 = ⟨t.proxies.get (str "DIRECT"), none⟩ := by
  rcases scan_cases (t := t) rs s with ⟨_, hres⟩ | ⟨pre, r, post, p, heq, hs, _⟩
  · exact hres
  · have htake := h pre r post heq
    rw [hs.1] at htake
    cases htake

theorem rule_mem_of_scan {rs : List Rule} {s : Scan} {r : Rule}
    (h : (t.scan rs s).1.rule = some r) : r ∈ rs := by
  rcases scan_cases (t := t) rs s with ⟨_, hres⟩ | ⟨pre, q, post, p, rfl, _, hres⟩
  · rw [hres] at h
    cases h
  · rw [hres] at h
    cases h
    simp

theorem TakesNone.of_append {rs : List Rule} (rs' : List Rule) {s : Scan} (h : t.TakesNone (rs ++ rs') s) :
    t.TakesNone rs s := by
  rintro a q b rfl
  exact h a q (b ++ rs') (by simp)

/-! ## The result of `match` -/

theorem doMatch_cases {m : Metadata} {res : MatchResult} {md : Metadata}
    (h : t.doMatch m = some (res, md)) : ∃ s, t.applyHosts m = some s ∧
      ((t.TakesNone t.rules s ∧ res = ⟨t.proxies.get (str "DIRECT"), none⟩) ∨
        ∃ pre r post p, t.rules = pre ++ r :: post ∧ t.StopsAt pre r p s ∧
          res = ⟨some p, some r⟩) := by
  obtain ⟨s, hs, hscan⟩ := Option.map_eq_some_iff.mp h
  have hres : (t.scan t.rules s).1 = res := by rw [hscan]
  refine ⟨s, hs, ?_⟩
  rw [← hres]
  exact scan_cases t.rules s

theorem doMatch_of_stopsAt {m : Metadata} {s : Scan} (hs : t.applyHosts m = some s)
    {pre post : List Rule} {r : Rule} {p : Proxy} (hrules : t.rules = pre ++ r :: post)
    (hstop : t.StopsAt pre r p s) : (t.doMatch m).map Prod.fst = some ⟨some p, some r⟩ := by
  simp only [doMatch, hs, hrules, Option.map_some, scan_of_stopsAt hstop]

theorem doMatch_of_takesNone {m : Metadata} {s : Scan} (hs : t.applyHosts m = some s)
    (hnone : t.TakesNone t.rules s) :
    (t.doMatch m).map Prod.fst = some ⟨t.proxies.get (str "DIRECT"), none⟩ := by
  simp only [doMatch, hs, Option.map_some, scan_of_takesNone hnone]

variable (t) in
/-- `r`, standing after the rules `pre`, applies to the connection: it matches
there, and its adapter exists and carries the connection's network. -/
def Applies (pre : List Rule) (r : Rule) (m : Metadata) : Prop :=
  ∃ s, t.applyHosts m = some s ∧ (t.takes pre r s).isSome

theorem applies_iff {m : Metadata} {s : Scan} (hs : t.applyHosts m = some s) (pre : List Rule)
    (r : Rule) : t.Applies pre r m ↔ t.takes pre r s ≠ none := by
  rw [Option.ne_none_iff_isSome]
  constructor
  · rintro ⟨s', hs', htake⟩
    rw [hs] at hs'
    cases hs'
    exact htake
  · exact fun htake => ⟨s, hs, htake⟩

theorem takesNone_iff {m : Metadata} {s : Scan} (hs : t.applyHosts m = some s) (rs : List Rule) :
    t.TakesNone rs s ↔ ∀ a q b, rs = a ++ q :: b → ¬ t.Applies a q m := by
  simp only [applies_iff hs, not_not]
  rfl

variable (t) in
def Unrouted (m : Metadata) : Prop := ∀ a q b, t.rules = a ++ q :: b → ¬ t.Applies a q m

variable (t) in
/-- `r` is the first rule that applies to the connection. -/
def RoutedBy (r : Rule) (m : Metadata) : Prop :=
  ∃ pre post, t.rules = pre ++ r :: post ∧ t.Applies pre r m ∧
    ∀ a q b, pre = a ++ q :: b → ¬ t.Applies a q m

theorem get_of_takes {s : Scan} {pre : List Rule} {r : Rule} {p : Proxy}
    (h : t.takes pre r s = some p) : t.proxies.get r.adapter = some p := by
  simp only [takes, usable] at h
  split at h
  · split at h
    · cases h
    · split at h
      · cases h
      · rename_i hget _
        cases h
        exact hget
  · cases h

theorem RoutedBy.result {r : Rule} {m : Metadata} (h : t.RoutedBy r m) :
    ∃ p, t.proxies.get r.adapter = some p ∧
      (t.doMatch m).map Prod.fst = some ⟨some p, some r⟩ := by
  obtain ⟨pre, post, hrules, ⟨s, hs, htake⟩, hfirst⟩ := h
  obtain ⟨p, hp⟩ := Option.isSome_iff_exists.mp htake
  exact ⟨p, get_of_takes hp, doMatch_of_stopsAt hs hrules ⟨hp, (takesNone_iff hs pre).mpr hfirst⟩⟩

theorem Unrouted.result {m : Metadata} (h : t.Unrouted m) {s : Scan}
    (hs : t.applyHosts m = some s) :
    (t.doMatch m).map Prod.fst = some ⟨some t.proxies.direct, none⟩ := by
  rw [doMatch_of_takesNone hs ((takesNone_iff hs t.rules).mpr h), t.proxies.get_direct]

/-- Where the hosts lookup does not panic, a connection is routed by one rule or
by none. -/
theorem unrouted_or_routedBy {m : Metadata} {s : Scan} (hs : t.applyHosts m = some s) :
    t.Unrouted m ∨ ∃ r, t.RoutedBy r m := by
  rcases scan_cases (t := t) t.rules s with ⟨hnone, -⟩ | ⟨pre, r, post, p, hrules, hstop, -⟩
  · exact Or.inl ((takesNone_iff hs t.rules).mp hnone)
  · refine Or.inr ⟨r, pre, post, hrules, (applies_iff hs pre r).mpr ?_,
      (takesNone_iff hs pre).mp hstop.2⟩
    rw [hstop.1]
    exact Option.some_ne_none p

end Tunnel

end RuleBaseProxy
