import RuleBaseProxy.Common.Picker
import RuleBaseProxy.Component.TrieLookup
import RuleBaseProxy.Dns.ResolveIP
import RuleBaseProxy.Lib.HostPort
import RuleBaseProxy.Rule.Basic

/-! # The servers of a query

`exchangeWithoutCache` chooses between the servers of a policy, the main servers and the
fallback servers by the name that is asked for, sends the query to all servers of the
choice at once and takes the first usable reply. With fallback servers the reply of a main
server is only trusted if its first address passes the filters.
-/

namespace RuleBaseProxy.Dns.Exchange

open Go Go.Net Trie WildcardPath

/-! ## Servers and their clients -/

structure Question where
  name : Str
  qtype : UInt16
  qclass : UInt16
deriving DecidableEq

def classINET : UInt16 := 1

def isIPRequest (q : Question) : Bool :=
  q.qclass == classINET && (q.qtype == typeA || q.qtype == typeAAAA)

structure NameServer where
  net : Str
  addr : Str
deriving DecidableEq

/-- The implementations of `dnsClient`. The resolver for the client's own host is given by
its servers; `none` is nil. -/
inductive DnsClient where
  | doh (url : Str) (r : Option (List NameServer))
  | dhcp (ifaceName : Str)
  | client (net host port : Str) (r : Option (List NameServer))
deriving DecidableEq

def newClient (resolver : Option (List NameServer)) (s : NameServer) : DnsClient :=
  if s.net = str "https" then .doh s.addr resolver
  else if s.net = str "dhcp" then .dhcp s.addr
  else
    -- the error of `SplitHostPort` is dropped
    let (host, port) := (splitHostPort s.addr).getD ([], [])
    .client s.net host port resolver

def transform (servers : List NameServer) (resolver : Option (List NameServer)) : List DnsClient :=
  servers.map (newClient resolver)

/-! ## The resolver -/

structure FallbackFilter where
  geoIP : Bool
  geoIPCode : Str
  ipcidr : List IPNet
  domain : List Str

/-- The map `Policy` in the order in which it is gone through. -/
structure Config where
  main : List NameServer
  fallback : List NameServer
  defaultServers : List NameServer
  fallbackFilter : FallbackFilter
  policy : List (Str × NameServer)

inductive FallbackIPFilter where
  | geoip (code : Str)
  | ipnet (ipnet : IPNet)

/-- The record of a nil address is empty, and no network contains it. -/
def FallbackIPFilter.isMatch (env : Env) (ip : Option IP) : FallbackIPFilter → Bool
  | .geoip code =>
      !equalFold env.unicode ((ip.map env.country).getD []) code && !ip.any IP.isPrivate
  | .ipnet net => ip.any net.contains

structure Resolver where
  main : List DnsClient
  /-- `none` is nil. -/
  fallback : Option (List DnsClient)
  fallbackDomainFilters : List (DomainTrie Str)
  fallbackIPFilters : List FallbackIPFilter
  policy : Option (DomainTrie (List DnsClient))

def newDomainFilter (domains : List Str) : DomainTrie Str :=
  DomainTrie.new.insertAll (domains.map (·, []))

def newResolver (config : Config) : Resolver where
  main := transform config.main (some config.defaultServers)
  fallback :=
    if config.fallback ≠ [] then some (transform config.fallback (some config.defaultServers))
    else none
  policy :=
    if config.policy ≠ [] then
      some (DomainTrie.new.insertAll
        (config.policy.map fun e => (e.1, transform [e.2] (some config.defaultServers))))
    else none
  fallbackIPFilters :=
    (if config.fallbackFilter.geoIP then [.geoip config.fallbackFilter.geoIPCode] else []) ++
      config.fallbackFilter.ipcidr.map .ipnet
  fallbackDomainFilters :=
    if config.fallbackFilter.domain ≠ [] then [newDomainFilter config.fallbackFilter.domain] else []

def msgToDomain (q : Question) : Str := q.name.rdropWhile (· == 46)

inductive Group where
  | policy
  | main
  | fallback
deriving DecidableEq

namespace Resolver

variable (r : Resolver)

def matchPolicy (q : Question) : List DnsClient :=
  match r.policy with
  | none => []
  | some tree =>
      let domain := msgToDomain q
      if domain = [] then [] else (tree.search domain).getD []

def shouldOnlyQueryFallback (q : Question) : Bool :=
  if r.fallback.isNone || r.fallbackDomainFilters.isEmpty then false
  else
    let domain := msgToDomain q
    if domain = [] then false
    else r.fallbackDomainFilters.any fun df => (df.search domain).isSome

def shouldIPFallback (env : Env) (ip : Option IP) : Bool :=
  r.fallbackIPFilters.any fun filter => filter.isMatch env ip

def clients (q : Question) : Group → List DnsClient
  | .policy => r.matchPolicy q
  | .main => r.main
  | .fallback => r.fallback.getD []

/-- The end of `ipExchange`: the result of the main servers, or that of the fallback servers. -/
def preferMain (env : Env) (main fallback : Except Str Response) : Except Str Response :=
  match main with
  | .error _ => fallback
  | .ok msg =>
      match msgToIP msg with
      | [] => fallback
      | ip :: _ => if !r.shouldIPFallback env ip then .ok msg else fallback

/-- `ipExchange` with the results of its batches: the batches it starts, and what it returns. -/
def ipExchange (env : Env) (q : Question) (res : Group → Except Str Response) :
    List Group × Except Str Response :=
  if (r.matchPolicy q).length ≠ 0 then ([.policy], res .policy)
  else if r.shouldOnlyQueryFallback q then ([.fallback], res .fallback)
  else
    match r.fallback with
    | none => ([.main], res .main)
    | some _ => ([.main, .fallback], r.preferMain env (res .main) (res .fallback))

/-- `exchangeWithoutCache`, without what it keeps of the result. -/
def exchangeWithoutCache (env : Env) (q : Question) (res : Group → Except Str Response) :
    List Group × Except Str Response :=
  if isIPRequest q then r.ipExchange env q res
  else if (r.matchPolicy q).length ≠ 0 then ([.policy], res .policy)
  else ([.main], res .main)

end Resolver

/-! ## A batch -/

def rcodeServerFailure : Nat := 2
def rcodeNameError : Nat := 3
def rcodeRefused : Nat := 5

/-- What the function of a goroutine makes of the reply to its client. -/
def judge : Except Str Response → Except Str Response
  | .error err => .error err
  | .ok result =>
      if result.rcode = rcodeServerFailure ∨ result.rcode = rcodeRefused ∨
          result.rcode = rcodeNameError then
        .error (str "server failure")
      else .ok result

def allFailed : Str := str "all DNS requests failed"
def firstError : Str := str ", first error: "

/-- What `batchExchange` makes of `Wait` and `Error`. -/
def batchResult (elm : Option Response) (fErr : Option Str) : Except Str Response :=
  match elm with
  | some msg => .ok msg
  | none =>
      match fErr with
      | some err => .error (allFailed ++ firstError ++ err)
      | none => .error allFailed

/-- What the function of the i-th goroutine returns, if its client gets the reply `reply i`. -/
def outcome (reply : Nat → DnsClient → Except Str Response) (clients : List DnsClient) (i : Nat) :
    Except Str Response :=
  (clients[i]?).elim (.error []) fun client => judge (reply i client)

def BatchExchange (clients : List DnsClient) (reply : Nat → DnsClient → Except Str Response)
    (out : Except Str Response) : Prop :=
  ∃ elm fErr, out = batchResult elm fErr ∧
    Picker.Waits clients.length (outcome reply clients) elm fErr

/-- The query is sent to the batches `asked`, and the result is `out`. -/
def Exchanged (env : Env) (r : Resolver) (q : Question)
    (reply : Group → Nat → DnsClient → Except Str Response) (asked : List Group)
    (out : Except Str Response) : Prop :=
  ∃ res : Group → Except Str Response,
    (∀ g ∈ asked, BatchExchange (r.clients q g) (reply g) (res g)) ∧
      r.exchangeWithoutCache env q res = (asked, out)

/-! ## What is promised -/

/-- The pattern that decides for the domain has this data. -/
def Governs {α : Type} (entries : List (Str × α)) (domain : Str) (x : α) : Prop :=
  ∃ ls k, labels domain = some ls ∧ Selected entries ls k ∧ lastData entries k = some x

def Usable (msg : Response) : Prop :=
  msg.rcode ≠ rcodeServerFailure ∧ msg.rcode ≠ rcodeRefused ∧ msg.rcode ≠ rcodeNameError

def Fails (rep : Except Str Response) (text : Str) : Prop :=
  rep = .error text ∨ ∃ msg, rep = .ok msg ∧ ¬ Usable msg ∧ text = str "server failure"

/-- A usable reply of one of the servers; if there is none, the error of one of them. -/
def First (resolver : Option (List NameServer)) (servers : List NameServer)
    (reply : Nat → DnsClient → Except Str Response) : Except Str Response → Prop
  | .ok msg => ∃ i s, servers[i]? = some s ∧ reply i (newClient resolver s) = .ok msg ∧ Usable msg
  | .error text =>
      (∀ i s, servers[i]? = some s → ∃ err, Fails (reply i (newClient resolver s)) err) ∧
        (servers = [] ∧ text = allFailed ∨
          ∃ i s err, servers[i]? = some s ∧ Fails (reply i (newClient resolver s)) err ∧
            text = allFailed ++ firstError ++ err)

/-- The country or a network of the filter speaks against the address. -/
def Suspect (env : Env) (filter : FallbackFilter) (ip : Option IP) : Prop :=
  filter.geoIP = true ∧
      equalFold env.unicode ((ip.map env.country).getD []) filter.geoIPCode = false ∧
      ip.any IP.isPrivate = false ∨
    ∃ ipnet ∈ filter.ipcidr, ip.any ipnet.contains = true

def Trusted (env : Env) (filter : FallbackFilter) (msg : Response) : Prop :=
  ∃ ip ips, msgToIP msg = ip :: ips ∧ ¬ Suspect env filter ip

/-- Where a query goes and what comes back, by the configuration. -/
inductive Answered (env : Env) (c : Config) (q : Question)
    (reply : Group → Nat → DnsClient → Except Str Response) :
    List Group → Except Str Response → Prop
  | policy {s out} : Governs c.policy (msgToDomain q) s →
      First (some c.defaultServers) [s] (reply .policy) out → Answered env c q reply [.policy] out
  | onlyFallback {out} : (∀ s, ¬ Governs c.policy (msgToDomain q) s) →
      isIPRequest q = true → c.fallback ≠ [] →
      (∃ x, Governs (c.fallbackFilter.domain.map (·, ())) (msgToDomain q) x) →
      First (some c.defaultServers) c.fallback (reply .fallback) out →
      Answered env c q reply [.fallback] out
  | onlyMain {out} : (∀ s, ¬ Governs c.policy (msgToDomain q) s) →
      (isIPRequest q = false ∨ c.fallback = []) →
      First (some c.defaultServers) c.main (reply .main) out →
      Answered env c q reply [.main] out
  | trusted {msg} : (∀ s, ¬ Governs c.policy (msgToDomain q) s) →
      isIPRequest q = true → c.fallback ≠ [] →
      (∀ x, ¬ Governs (c.fallbackFilter.domain.map (·, ())) (msgToDomain q) x) →
      First (some c.defaultServers) c.main (reply .main) (.ok msg) →
      Trusted env c.fallbackFilter msg → Answered env c q reply [.main, .fallback] (.ok msg)
  | distrusted {res out} : (∀ s, ¬ Governs c.policy (msgToDomain q) s) →
      isIPRequest q = true → c.fallback ≠ [] →
      (∀ x, ¬ Governs (c.fallbackFilter.domain.map (·, ())) (msgToDomain q) x) →
      First (some c.defaultServers) c.main (reply .main) res →
      (∀ msg, res = .ok msg → ¬ Trusted env c.fallbackFilter msg) →
      First (some c.defaultServers) c.fallback (reply .fallback) out →
      Answered env c q reply [.main, .fallback] out

/-! ## The tries -/

section Tries

variable {α β : Type} {entries : List (Str × α)} {domain : Str}

theorem search_eq_some_iff {x : α} :
    (DomainTrie.new.insertAll entries).search domain = some x ↔ Governs entries domain x := by
  constructor
  · exact exists_selected_of_search
  · rintro ⟨ls, k, hls, hk, hdata⟩
    rw [search_of_selected hls hk, hdata]

theorem not_governs_of_empty (h : domain = []) (x : α) : ¬ Governs entries domain x := by
  rintro ⟨ls, k, hls, -⟩
  rw [h] at hls
  cases hls

theorem not_governs_nil (x : α) : ¬ Governs ([] : List (Str × α)) domain x := by
  rintro ⟨ls, k, -, -, hdata⟩
  cases hdata

variable (f : α → β)

theorem inserted_map {k : List Str} :
    Inserted (entries.map fun e => (e.1, f e.2)) k ↔ Inserted entries k := by
  simp [Inserted]

theorem occurs_map (k : List Str) :
    Occurs (entries.map fun e => (e.1, f e.2)) k ↔ Occurs entries k := by
  simp only [Occurs, inserted_map]

theorem lastData_map (k : List Str) :
    lastData (entries.map fun e => (e.1, f e.2)) k = (lastData entries k).map f := by
  rw [lastData, lastData, ← List.map_reverse, List.find?_map, Option.map_map, Option.map_map]
  rfl

/-- The data of a pattern does not take part in the choice. -/
theorem governs_map {y : β} :
    Governs (entries.map fun e => (e.1, f e.2)) domain y ↔ ∃ x, Governs entries domain x ∧ f x = y := by
  have hselected : ∀ ls k, Selected (entries.map fun e => (e.1, f e.2)) ls k ↔
      Selected entries ls k := by
    intro ls k
    have hoccurs : Occurs (entries.map fun e => (e.1, f e.2)) = Occurs entries :=
      funext fun k => propext (occurs_map f k)
    rw [Selected, hoccurs]
  simp only [Governs, hselected, lastData_map, Option.map_eq_some_iff]
  constructor
  · rintro ⟨ls, k, hls, hk, x, hx, rfl⟩
    exact ⟨x, ⟨ls, k, hls, hk, hx⟩, rfl⟩
  · rintro ⟨x, ⟨ls, k, hls, hk, hx⟩, rfl⟩
    exact ⟨ls, k, hls, hk, x, hx, rfl⟩

end Tries

variable {env : Env} {c : Config} {q : Question}

theorem matchPolicy_of_governs {s : NameServer} (h : Governs c.policy (msgToDomain q) s) :
    (newResolver c).matchPolicy q = [newClient (some c.defaultServers) s] := by
  have hne : c.policy ≠ [] := by
    intro hnil
    rw [hnil] at h
    exact not_governs_nil s h
  have hdomain : msgToDomain q ≠ [] := fun hempty => not_governs_of_empty hempty s h
  have hsearch : (DomainTrie.new.insertAll
      (c.policy.map fun e => (e.1, transform [e.2] (some c.defaultServers)))).search
        (msgToDomain q) = some (transform [s] (some c.defaultServers)) :=
    search_eq_some_iff.mpr
      ((governs_map fun s => transform [s] (some c.defaultServers)).mpr ⟨s, h, rfl⟩)
  simp only [Resolver.matchPolicy, newResolver, if_pos hne, if_neg hdomain, hsearch]
  rfl

theorem matchPolicy_of_not_governs (h : ∀ s, ¬ Governs c.policy (msgToDomain q) s) :
    (newResolver c).matchPolicy q = [] := by
  by_cases hne : c.policy ≠ []
  · have hsearch : (DomainTrie.new.insertAll
        (c.policy.map fun e => (e.1, transform [e.2] (some c.defaultServers)))).search
          (msgToDomain q) = none := by
      rw [Option.eq_none_iff_forall_ne_some]
      intro clients hclients
      obtain ⟨s, hs, -⟩ := (governs_map fun s => transform [s] (some c.defaultServers)).mp
        (search_eq_some_iff.mp hclients)
      exact h s hs
    simp only [Resolver.matchPolicy, newResolver, if_pos hne, hsearch, Option.getD_none, ite_self]
  · simp only [Resolver.matchPolicy, newResolver, if_neg hne]

theorem shouldOnlyQueryFallback_iff :
    (newResolver c).shouldOnlyQueryFallback q = true ↔
      c.fallback ≠ [] ∧ ∃ x, Governs (c.fallbackFilter.domain.map (·, ())) (msgToDomain q) x := by
  have hsearch : ((newDomainFilter c.fallbackFilter.domain).search (msgToDomain q)).isSome = true ↔
      ∃ x, Governs (c.fallbackFilter.domain.map (·, ())) (msgToDomain q) x := by
    have hmap : c.fallbackFilter.domain.map (·, ([] : Str)) =
        (c.fallbackFilter.domain.map (·, ())).map fun e => (e.1, []) := by
      rw [List.map_map]
      rfl
    rw [newDomainFilter, hmap, Option.isSome_iff_exists]
    simp only [search_eq_some_iff, governs_map fun _ : Unit => ([] : Str)]
    constructor
    · rintro ⟨-, x, hx, -⟩
      exact ⟨x, hx⟩
    · rintro ⟨x, hx⟩
      exact ⟨_, x, hx, rfl⟩
  unfold Resolver.shouldOnlyQueryFallback
  by_cases hfallback : c.fallback = []
  · simp [newResolver, hfallback]
  · by_cases hdomains : c.fallbackFilter.domain = []
    · have hnone : ∀ x, ¬ Governs (c.fallbackFilter.domain.map (·, ())) (msgToDomain q) x := by
        rw [hdomains]
        exact not_governs_nil
      simp [newResolver, hfallback, hdomains] at hnone ⊢
      exact hnone
    · by_cases hempty : msgToDomain q = []
      · simp [newResolver, hfallback, hdomains, hempty, not_governs_of_empty]
      · simpa [newResolver, hfallback, hdomains, hempty] using hsearch

theorem shouldIPFallback_iff {ip : Option IP} :
    (newResolver c).shouldIPFallback env ip = true ↔ Suspect env c.fallbackFilter ip := by
  by_cases hgeo : c.fallbackFilter.geoIP = true
  · simp [Resolver.shouldIPFallback, newResolver, hgeo, Suspect, FallbackIPFilter.isMatch]
  · simp [Resolver.shouldIPFallback, newResolver, hgeo, Suspect, FallbackIPFilter.isMatch]

/-! ## A batch returns what the servers reply -/

theorem judge_eq_ok_iff {rep : Except Str Response} {msg : Response} :
    judge rep = .ok msg ↔ rep = .ok msg ∧ Usable msg := by
  cases rep with
  | error err => simp [judge]
  | ok result =>
      simp only [judge]
      split
      case isTrue h =>
        simp only [reduceCtorEq, Except.ok.injEq, false_iff, not_and]
        rintro rfl ⟨h2, h5, h3⟩
        rcases h with h | h | h
        · exact h2 h
        · exact h5 h
        · exact h3 h
      case isFalse h =>
        simp only [not_or] at h
        simp only [Except.ok.injEq]
        constructor
        · rintro rfl
          exact ⟨rfl, h⟩
        · exact And.left

theorem judge_eq_error_iff {rep : Except Str Response} {text : Str} :
    judge rep = .error text ↔ Fails rep text := by
  cases rep with
  | error err => simp [judge, Fails]
  | ok result =>
      simp only [judge, Fails, reduceCtorEq, Except.ok.injEq, false_or]
      split
      case isTrue h =>
        have hnot : ¬ Usable result := by
          rintro ⟨h2, h5, h3⟩
          rcases h with h | h | h
          · exact h2 h
          · exact h5 h
          · exact h3 h
        simp [hnot, eq_comm]
      case isFalse h =>
        simp only [not_or] at h
        simp only [reduceCtorEq, false_iff, not_exists]
        rintro msg ⟨rfl, hnot, -⟩
        exact hnot h

theorem ok?_eq_some_iff {rep : Except Str Response} {msg : Response} :
    Picker.ok? (judge rep) = some msg ↔ rep = .ok msg ∧ Usable msg := by
  rw [← judge_eq_ok_iff]
  cases judge rep <;> simp [Picker.ok?]

theorem error?_eq_some_iff {rep : Except Str Response} {text : Str} :
    Picker.error? (judge rep) = some text ↔ Fails rep text := by
  rw [← judge_eq_error_iff]
  cases judge rep <;> simp [Picker.error?]

section Batch

variable {resolver : Option (List NameServer)} {servers : List NameServer}
  {reply : Nat → DnsClient → Except Str Response}

theorem outcome_transform {i : Nat} {s : NameServer} (h : servers[i]? = some s) :
    outcome reply (transform servers resolver) i = judge (reply i (newClient resolver s)) := by
  rw [outcome, transform, List.getElem?_map, h]
  rfl

theorem yields_some_iff {α : Type} {g : Except Str Response → Option α} {a : α} :
    Picker.Yields (transform servers resolver).length
        (fun i => g (outcome reply (transform servers resolver) i)) (some a) ↔
      ∃ i s, servers[i]? = some s ∧ g (judge (reply i (newClient resolver s))) = some a := by
  have hlen : (transform servers resolver).length = servers.length := List.length_map _
  constructor
  · rintro ⟨i, hi, ha⟩
    rw [hlen] at hi
    have hs : servers[i]? = some servers[i] := List.getElem?_eq_getElem hi
    exact ⟨i, servers[i], hs, by rwa [← outcome_transform hs]⟩
  · rintro ⟨i, s, hs, ha⟩
    refine ⟨i, ?_, ?_⟩
    · rw [hlen]
      exact (List.getElem?_eq_some_iff.mp hs).choose
    · change g (outcome reply (transform servers resolver) i) = some a
      rwa [outcome_transform hs]

theorem yields_none_iff {α : Type} {g : Except Str Response → Option α} :
    Picker.Yields (transform servers resolver).length
        (fun i => g (outcome reply (transform servers resolver) i)) none ↔
      ∀ i s, servers[i]? = some s → g (judge (reply i (newClient resolver s))) = none := by
  have hlen : (transform servers resolver).length = servers.length := List.length_map _
  constructor
  · intro h i s hs
    rw [← outcome_transform hs]
    refine h i ?_
    rw [hlen]
    exact (List.getElem?_eq_some_iff.mp hs).choose
  · intro h i hi
    rw [hlen] at hi
    have hs : servers[i]? = some servers[i] := List.getElem?_eq_getElem hi
    change g (outcome reply (transform servers resolver) i) = none
    rw [outcome_transform hs]
    exact h i servers[i] hs

theorem ok?_eq_none_iff {rep : Except Str Response} :
    Picker.ok? (judge rep) = none ↔ ∃ text, Fails rep text := by
  simp only [← judge_eq_error_iff]
  cases judge rep <;> simp [Picker.ok?]

theorem exists_yields {α : Type} (n : Nat) (f : Nat → Option α) : ∃ a, Picker.Yields n f a := by
  by_cases h : ∃ a, ∃ i < n, f i = some a
  · rcases h with ⟨a, ha⟩
    exact ⟨some a, ha⟩
  · refine ⟨none, fun i hi => Option.eq_none_iff_forall_ne_some.mpr fun a ha => ?_⟩
    exact h ⟨a, i, hi, ha⟩

theorem batchExchange_iff {out : Except Str Response} :
    BatchExchange (transform servers resolver) reply out ↔ First resolver servers reply out := by
  have hwaits : BatchExchange (transform servers resolver) reply out ↔
      ∃ elm fErr, out = batchResult elm fErr ∧
        Picker.Yields (transform servers resolver).length
          (fun i => Picker.ok? (outcome reply (transform servers resolver) i)) elm ∧
        Picker.Yields (transform servers resolver).length
          (fun i => Picker.error? (outcome reply (transform servers resolver) i)) fErr := by
    simp only [BatchExchange, Picker.waits_iff]
  rw [hwaits]
  cases out with
  | ok msg =>
      constructor
      · rintro ⟨elm, fErr, hres, hok, -⟩
        cases elm with
        | none => cases fErr <;> cases hres
        | some m =>
            cases hres
            obtain ⟨i, s, hs, hi⟩ := yields_some_iff.mp hok
            exact ⟨i, s, hs, ok?_eq_some_iff.mp hi⟩
      · rintro ⟨i, s, hs, hrep⟩
        obtain ⟨fErr, herr⟩ := exists_yields (transform servers resolver).length
          fun i => Picker.error? (outcome reply (transform servers resolver) i)
        exact ⟨some msg, fErr, rfl, yields_some_iff.mpr ⟨i, s, hs, ok?_eq_some_iff.mpr hrep⟩, herr⟩
  | error text =>
      constructor
      · rintro ⟨elm, fErr, hres, hok, herr⟩
        cases elm with
        | some m => cases hres
        | none =>
            have hfails : ∀ i s, servers[i]? = some s →
                ∃ err, Fails (reply i (newClient resolver s)) err :=
              fun i s hs => ok?_eq_none_iff.mp (yields_none_iff.mp hok i s hs)
            refine ⟨hfails, ?_⟩
            cases fErr with
            | some err =>
                cases hres
                obtain ⟨i, s, hs, hi⟩ := yields_some_iff.mp herr
                exact Or.inr ⟨i, s, err, hs, error?_eq_some_iff.mp hi, rfl⟩
            | none =>
                cases hres
                refine Or.inl ⟨List.eq_nil_iff_forall_not_mem.mpr fun s hs => ?_, rfl⟩
                obtain ⟨i, hi⟩ := List.mem_iff_getElem?.mp hs
                obtain ⟨err, hfail⟩ := hfails i s hi
                have hnone := yields_none_iff.mp herr i s hi
                rw [error?_eq_some_iff.mpr hfail] at hnone
                cases hnone
      · rintro ⟨hfails, hcases⟩
        have hok : Picker.Yields (transform servers resolver).length
            (fun i => Picker.ok? (outcome reply (transform servers resolver) i)) none :=
          yields_none_iff.mpr fun i s hs => ok?_eq_none_iff.mpr (hfails i s hs)
        rcases hcases with ⟨rfl, rfl⟩ | ⟨i, s, err, hs, hfail, rfl⟩
        · refine ⟨none, none, rfl, hok, yields_none_iff.mpr ?_⟩
          rintro i s ⟨⟩
        · exact ⟨none, some err, rfl, hok,
            yields_some_iff.mpr ⟨i, s, hs, error?_eq_some_iff.mpr hfail⟩⟩

theorem exists_first (resolver : Option (List NameServer)) (servers : List NameServer)
    (reply : Nat → DnsClient → Except Str Response) : ∃ out, First resolver servers reply out := by
  obtain ⟨elm, helm⟩ := exists_yields (transform servers resolver).length
    fun i => Picker.ok? (outcome reply (transform servers resolver) i)
  obtain ⟨fErr, hfErr⟩ := exists_yields (transform servers resolver).length
    fun i => Picker.error? (outcome reply (transform servers resolver) i)
  exact ⟨batchResult elm fErr,
    batchExchange_iff.mp ⟨elm, fErr, rfl, (Picker.waits_iff _ _ _ _).mpr ⟨helm, hfErr⟩⟩⟩

end Batch

/-! ## The way of a query -/

theorem fallback_newResolver (h : c.fallback ≠ []) :
    (newResolver c).fallback = some (transform c.fallback (some c.defaultServers)) :=
  if_pos h

theorem fallback_newResolver_of_nil (h : c.fallback = []) : (newResolver c).fallback = none :=
  if_neg (not_not_intro h)

theorem exchangeWithoutCache_of_governs {s : NameServer}
    (h : Governs c.policy (msgToDomain q) s) (res : Group → Except Str Response) :
    (newResolver c).exchangeWithoutCache env q res = ([.policy], res .policy) := by
  have hlen : ((newResolver c).matchPolicy q).length ≠ 0 := by simp [matchPolicy_of_governs h]
  rw [Resolver.exchangeWithoutCache, Resolver.ipExchange, if_pos hlen, if_pos hlen, ite_self]

section NoPolicy

variable (hnone : ∀ s, ¬ Governs c.policy (msgToDomain q) s) (res : Group → Except Str Response)

include hnone

omit res in
theorem matchPolicy_length_eq_zero : ¬ ((newResolver c).matchPolicy q).length ≠ 0 := by
  rw [matchPolicy_of_not_governs hnone]
  exact not_not_intro rfl

theorem exchangeWithoutCache_of_onlyFallback (hip : isIPRequest q = true) (hfallback : c.fallback ≠ [])
    (hdomain : ∃ x, Governs (c.fallbackFilter.domain.map (·, ())) (msgToDomain q) x) :
    (newResolver c).exchangeWithoutCache env q res = ([.fallback], res .fallback) := by
  rw [Resolver.exchangeWithoutCache, if_pos hip, Resolver.ipExchange,
    if_neg (matchPolicy_length_eq_zero hnone),
    if_pos (shouldOnlyQueryFallback_iff.mpr ⟨hfallback, hdomain⟩)]

theorem exchangeWithoutCache_of_onlyMain (h : isIPRequest q = false ∨ c.fallback = []) :
    (newResolver c).exchangeWithoutCache env q res = ([.main], res .main) := by
  rw [Resolver.exchangeWithoutCache, Resolver.ipExchange,
    if_neg (matchPolicy_length_eq_zero hnone), if_neg (matchPolicy_length_eq_zero hnone)]
  rcases h with hip | hfallback
  · rw [if_neg (by simp [hip])]
  · have honly : ¬ (newResolver c).shouldOnlyQueryFallback q = true := fun h =>
      (shouldOnlyQueryFallback_iff.mp h).1 hfallback
    rw [if_neg honly, fallback_newResolver_of_nil hfallback, ite_self]

theorem exchangeWithoutCache_of_both (hip : isIPRequest q = true) (hfallback : c.fallback ≠ [])
    (hdomain : ∀ x, ¬ Governs (c.fallbackFilter.domain.map (·, ())) (msgToDomain q) x) :
    (newResolver c).exchangeWithoutCache env q res =
      ([.main, .fallback], (newResolver c).preferMain env (res .main) (res .fallback)) := by
  have honly : ¬ (newResolver c).shouldOnlyQueryFallback q = true := by
    intro h
    obtain ⟨-, x, hx⟩ := shouldOnlyQueryFallback_iff.mp h
    exact hdomain x hx
  rw [Resolver.exchangeWithoutCache, if_pos hip, Resolver.ipExchange,
    if_neg (matchPolicy_length_eq_zero hnone), if_neg honly,
    fallback_newResolver hfallback]

end NoPolicy

theorem preferMain_of_trusted {msg : Response} (h : Trusted env c.fallbackFilter msg)
    (fallback : Except Str Response) :
    (newResolver c).preferMain env (.ok msg) fallback = .ok msg := by
  obtain ⟨ip, ips, hips, hsuspect⟩ := h
  have hpass : (newResolver c).shouldIPFallback env ip = false :=
    Bool.eq_false_iff.mpr fun h => hsuspect (shouldIPFallback_iff.mp h)
  simp only [Resolver.preferMain, hips, hpass, Bool.not_false, if_true]

theorem preferMain_of_distrusted {main : Except Str Response}
    (h : ∀ msg, main = .ok msg → ¬ Trusted env c.fallbackFilter msg)
    (fallback : Except Str Response) :
    (newResolver c).preferMain env main fallback = fallback := by
  cases main with
  | error err => rfl
  | ok msg =>
      cases hips : msgToIP msg with
      | nil => simp only [Resolver.preferMain, hips]
      | cons ip ips =>
          have hsuspect : Suspect env c.fallbackFilter ip := by
            by_contra hnot
            exact h msg rfl ⟨ip, ips, hips, hnot⟩
          simp only [Resolver.preferMain, hips, shouldIPFallback_iff.mpr hsuspect, Bool.not_true,
            Bool.false_eq_true, if_false]

theorem batchExchange_main {reply : Nat → DnsClient → Except Str Response}
    {out : Except Str Response} :
    BatchExchange ((newResolver c).clients q .main) reply out ↔
      First (some c.defaultServers) c.main reply out :=
  batchExchange_iff

theorem batchExchange_fallback (h : c.fallback ≠ [])
    {reply : Nat → DnsClient → Except Str Response} {out : Except Str Response} :
    BatchExchange ((newResolver c).clients q .fallback) reply out ↔
      First (some c.defaultServers) c.fallback reply out := by
  rw [Resolver.clients, fallback_newResolver h]
  exact batchExchange_iff

theorem batchExchange_policy {s : NameServer} (h : Governs c.policy (msgToDomain q) s)
    {reply : Nat → DnsClient → Except Str Response} {out : Except Str Response} :
    BatchExchange ((newResolver c).clients q .policy) reply out ↔
      First (some c.defaultServers) [s] reply out := by
  rw [Resolver.clients, matchPolicy_of_governs h]
  change BatchExchange (transform [s] (some c.defaultServers)) reply out ↔ _
  exact batchExchange_iff

end RuleBaseProxy.Dns.Exchange
