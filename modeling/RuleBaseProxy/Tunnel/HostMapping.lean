import RuleBaseProxy.Dns.Handler
import RuleBaseProxy.Dns.MsgCache

/-! # Hosts of bare addresses

A connection to a bare address gets the host whose DNS answer had the address: the server
writes its answers into the mapping of the enhancer, `preHandleMetadata` reads it. A run is
any interleaving of the accesses of both to the mapping, each of which holds its lock.
-/

namespace RuleBaseProxy.HostMapping

open Go Go.Net Trie Cache Recency FakeIP TransitionSystem Dns Dns.Enhancer Dns.Server Dns.Exchange

/-! ## The enhancer -/

/-- The cache of `NewEnhancer`: as large as that of the resolver, and nothing in it ages, so
the clock is not read. -/
abbrev Mapping := LinkedLru Str Str Unit

def mappingGet (c : Mapping) (key : Str) : Option (Mapping × Option Str) :=
  (c.get cacheOptions (fun _ _ world => world) key 0 0).map fun (c, e) => (c, e.map (·.value))

def mappingSet (c : Mapping) (key host : Str) (expires : Int) : Option Mapping :=
  c.setWithExpire cacheOptions (fun _ _ world => world) key host expires 0

/-- `ResolverEnhancer` with its mapping. -/
structure HostMapper extends ResolverEnhancer where
  mapping : Option Mapping

/-- `NewEnhancer`. -/
def newHostMapper (mode : EnhancedMode) (pool : Option Pool) : HostMapper :=
  { newEnhancer mode pool with
    mapping := if mode ≠ .normal then some (LinkedLru.empty ()) else none }

namespace HostMapper

def mappingEnabled (h : HostMapper) : Bool := h.mode = .fakeip ∨ h.mode = .mapping

/-- `FindHostByIP` after the pool. -/
def findMapped (h : HostMapper) (ip : Option IP) : Option (HostMapper × Option Str) :=
  match h.mapping with
  | none => some (h, none)
  | some c =>
      (mappingGet c (ipString ip)).map fun (c, host) => ({ h with mapping := some c }, host)

def findHostByIP (h : HostMapper) (ip : Option IP) : Option (HostMapper × Option Str) :=
  match h.fakePool with
  | none => h.findMapped ip
  | some pool =>
      (pool.lookBack ip).bind fun (pool, host, existed) =>
        let h := { h with fakePool := some pool }
        if existed then some (h, some host) else h.findMapped ip

end HostMapper

/-! ## preHandleMetadata -/

/-- `resolver.DefaultHostMapper`, `Dm` and `resolver.DefaultHosts`. -/
structure Package where
  mapper : Option HostMapper
  dm : Str → Option Str
  defaultHosts : DomainTrie HostData

namespace Package

def mappingEnabled (p : Package) : Bool := p.mapper.any HostMapper.mappingEnabled

def fakeIPEnabled (p : Package) : Bool := p.mapper.any fun h => h.fakeIPEnabled

def isFakeIP (p : Package) (ip : Option IP) : Bool := p.mapper.any fun h => h.isFakeIP ip

def findHostByIP (p : Package) (ip : Option IP) : Option (Package × Option Str) :=
  match p.mapper with
  | none => some (p, none)
  | some h => (h.findHostByIP ip).map fun (h, host) => ({ p with mapper := some h }, host)

end Package

def parseHost (m : Metadata) : Metadata :=
  match parseIP m.host with
  | none => m
  | some ip =>
      { m with
        dstIP := some ip
        host := []
        addrType := if ip.to4.isSome then atypIPv4 else atypIPv6 }

def needLookupIP (p : Package) (m : Metadata) : Bool :=
  p.mappingEnabled && m.host == [] && m.dstIP.isSome

/-- The host, and the address type unless the client has named the destination. -/
def named (m : Metadata) (host : Str) : Metadata :=
  if m.type.string = str "HTTP" ∨ m.type.string = str "HTTP Connect" ∨
      m.type.string = str "Socks4" ∨ m.type.string = str "Socks5" then
    { m with host := host }
  else { m with host := host, addrType := atypDomainName }

/-- `node.Data.([]net.IP)[0]` -/
def firstHost : HostData → Option (Option IP)
  | .ip _ => none
  | .ips ips => ips.head?

/-- `none` is a panic. -/
def preHandleMetadata (p : Package) (m : Metadata) : Option (Package × Except Str Metadata) :=
  let m := parseHost m
  if !needLookupIP p m then some (p, .ok m)
  else
    (p.findHostByIP m.dstIP).bind fun (p, host) =>
      match host.or ((p.dm (ipString m.dstIP)).filter (· ≠ [])) with
      | some host =>
          let m := named m host
          if p.fakeIPEnabled then some (p, .ok { m with dstIP := none })
          else
            match p.defaultHosts.search host with
            | none => some (p, .ok m)
            | some data =>
                if m.dstIP.isNone then
                  (firstHost data).map fun ip => (p, .ok { m with dstIP := ip })
                else some (p, .ok m)
      | none =>
          if p.isFakeIP m.dstIP then
            some (p, .error (str "fake DNS record " ++ ipString m.dstIP ++ str " missing"))
          else some (p, .ok m)

/-! ## Interleavings -/

/-- A `withMapping` loop: what is left, and whether `mapping.Get` is done for the first. -/
structure Call where
  rest : List Write
  got : Bool

structure State where
  package : Package
  calls : Nat → Option Call

inductive Action where
  /-- The handler has come to the loop of `withMapping`, or past it. -/
  | serve (i : Nat) (r : Message) (w : World)
  | get (i : Nat) (key : Str)
  | set (i : Nat) (key host : Str) (now : Nat)
  | connect (m : Metadata)

/-- A call of the mapping. Where there is none the pointer is nil. -/
def Package.onMapping (p : Package) (f : Mapping → Option Mapping) : Option Package :=
  p.mapper.bind fun h =>
    h.mapping.bind fun c =>
      (f c).map fun c => { p with mapper := some { h with mapping := some c } }

def step (setup : Setup) (s : State) : Action → Option State
  | .serve i r w =>
      if (s.calls i).isSome then none
      else
        (handlerWithContext (newHandler setup w) r).map fun o =>
          { s with calls := Function.update s.calls i (some ⟨o.mapped, false⟩) }
  | .get i key =>
      (s.calls i).bind fun c =>
        c.rest.head?.bind fun wr =>
          if c.got = false ∧ key = ipString wr.ip then
            (s.package.onMapping fun c => (mappingGet c key).map (·.1)).map fun p =>
              ⟨p, Function.update s.calls i (some { c with got := true })⟩
          else none
  | .set i key host now =>
      (s.calls i).bind fun c =>
        c.rest.head?.bind fun wr =>
          if c.got = true ∧ key = ipString wr.ip ∧ host = wr.host then
            (s.package.onMapping fun c => mappingSet c key host (expiry now wr.ttl)).map fun p =>
              ⟨p, Function.update s.calls i (some ⟨c.rest.tail, false⟩)⟩
          else none
  | .connect m => (preHandleMetadata s.package m).map fun (p, _) => { s with package := p }

def system (setup : Setup) : System State Action := ⟨step setup⟩

def State.start (mode : EnhancedMode) (pool : Option Pool) (dm : Str → Option Str)
    (defaultHosts : DomainTrie HostData) : State :=
  ⟨⟨some (newHostMapper mode pool), dm, defaultHosts⟩, fun _ => none⟩

/-! ## One access -/

section Access

variable {c : Mapping} {l : RecencyList Str (Str × Int)}

theorem noExpiry_cacheOptions : LinkedLru.NoExpiry cacheOptions := Or.inl rfl

theorem mappingGet_spec (h : c.Refines l) (key : Str) :
    ∃ c', mappingGet c key = some (c', (l.find key).map Prod.fst) ∧ c'.Refines (l.access key) := by
  rcases h.get noExpiry_cacheOptions (fun _ _ world => world) key 0 0 with
    ⟨-, hfind, hget⟩ | ⟨c', v, x, hfind, hget, href, -⟩
  · refine ⟨c, ?_, by rwa [RecencyList.access_of_find_none hfind]⟩
    rw [mappingGet, hget, hfind]
    rfl
  · refine ⟨c', ?_, by rwa [RecencyList.access_of_find hfind]⟩
    rw [mappingGet, hget, hfind]
    rfl

theorem mappingSet_spec (h : c.Refines l) (key host : Str) (expires : Int) :
    ∃ c', mappingSet c key host expires = some c' ∧
      c'.Refines (l.put 4096 key (host, expires)) := by
  obtain ⟨c', hset, href, -⟩ := h.setWithExpire (by decide) noExpiry_cacheOptions
    (fun _ _ world => world) key host expires 0
  exact ⟨c', hset, href⟩

end Access

/-- The enhancer maps hosts, none of the pool's addresses is assigned, and the mapping holds
the list. -/
structure Holds (h : HostMapper) (l : RecencyList Str (Str × Int)) : Prop where
  mode : h.mode = .mapping
  unassigned : ∀ pool, h.fakePool = some pool → ∀ key, pool.cache.cache key = none
  mapping : ∃ c, h.mapping = some c ∧ c.Refines l

theorem lookBack_of_unassigned {pool : Pool} (h : ∀ key, pool.cache.cache key = none)
    (ip : Option IP) : pool.lookBack ip = some (pool, [], false) := by
  unfold Pool.lookBack
  cases hip : ip.bind IP.to4 with
  | none => rfl
  | some b =>
      obtain ⟨x, -, hx⟩ := Option.bind_eq_some_iff.mp hip
      obtain ⟨n, hn⟩ := exists_ipToUint (IP.length_of_to4 hx)
      have hget : pool.cacheGet (.offset (n - pool.min + 1)) = some (pool, none) := by
        simp only [Pool.cacheGet, LinkedLru.get, h, Option.map_some, Option.map_none]
      simp only [Pool.offsetOf, hn, Option.map_some, Option.bind_eq_bind, Option.bind_some, hget]

theorem holds_newHostMapper {mode : EnhancedMode} (hmode : mode ≠ .normal) {pool : Option Pool}
    (hpool : ∀ p, pool = some p → ∀ key, p.cache.cache key = none) :
    Holds (newHostMapper mode pool) RecencyList.empty := by
  refine ⟨?_, ?_, LinkedLru.empty (), if_pos hmode, LinkedLru.refines_empty ()⟩
  · cases mode with
    | normal => exact absurd rfl hmode
    | fakeip => rfl
    | mapping => rfl
  · cases mode with
    | normal => exact absurd rfl hmode
    | fakeip => exact hpool
    | mapping => exact hpool

section Lookup

variable {h : HostMapper} {l : RecencyList Str (Str × Int)}

theorem Holds.findHostByIP (hh : Holds h l) (ip : Option IP) :
    ∃ h', h.findHostByIP ip = some (h', (l.find (ipString ip)).map Prod.fst) ∧
      Holds h' (l.access (ipString ip)) := by
  obtain ⟨c, hc, href⟩ := hh.mapping
  obtain ⟨c', hget, href'⟩ := mappingGet_spec href (ipString ip)
  have hmapped : h.findMapped ip =
      some ({ h with mapping := some c' }, (l.find (ipString ip)).map Prod.fst) := by
    simp only [HostMapper.findMapped, hc, hget, Option.map_some]
  refine ⟨{ h with mapping := some c' }, ?_, hh.mode, hh.unassigned, c', rfl, href'⟩
  cases hpool : h.fakePool with
  | none => rw [HostMapper.findHostByIP, hpool, hmapped]
  | some pool =>
      have hsame : { h with fakePool := some pool } = h := by rw [← hpool]
      simp only [HostMapper.findHostByIP, hpool, lookBack_of_unassigned (hh.unassigned pool hpool),
        Option.bind_some, Bool.false_eq_true, if_false]
      rw [hsame, hmapped]

theorem preHandleMetadata_of_not_need {p : Package} {m : Metadata}
    (hneed : needLookupIP p (parseHost m) = false) :
    preHandleMetadata p m = some (p, .ok (parseHost m)) := by
  simp only [preHandleMetadata, hneed, Bool.not_false, if_true]

/-- Where it does, the host comes from the mapping, or else from `Dm`. -/
theorem preHandleMetadata_of_need {p : Package} {m : Metadata} (hp : p.mapper = some h)
    (hh : Holds h l) (hneed : needLookupIP p (parseHost m) = true) :
    ∃ h', Holds h' (l.access (ipString (parseHost m).dstIP)) ∧
      preHandleMetadata p m = some ({ p with mapper := some h' }, .ok
        ((((l.find (ipString (parseHost m).dstIP)).map Prod.fst).or
          ((p.dm (ipString (parseHost m).dstIP)).filter (· ≠ []))).elim (parseHost m)
            (named (parseHost m)))) := by
  obtain ⟨h', hfind, hh'⟩ := hh.findHostByIP (parseHost m).dstIP
  refine ⟨h', hh', ?_⟩
  have hfound : p.findHostByIP (parseHost m).dstIP = some ({ p with mapper := some h' },
      (l.find (ipString (parseHost m).dstIP)).map Prod.fst) := by
    simp only [Package.findHostByIP, hp, hfind, Option.map_some]
  have hfake : Package.fakeIPEnabled { p with mapper := some h' } = false := by
    simp [Package.fakeIPEnabled, ResolverEnhancer.fakeIPEnabled, hh'.mode]
  have hisFake : ∀ ip, Package.isFakeIP { p with mapper := some h' } ip = false := by
    intro ip
    simp [Package.isFakeIP, ResolverEnhancer.isFakeIP, ResolverEnhancer.fakeIPEnabled, hh'.mode]
  have hdst : (parseHost m).dstIP.isNone = false := by
    have hsome : (parseHost m).dstIP.isSome = true := by
      simp only [needLookupIP, Bool.and_eq_true] at hneed
      exact hneed.2
    simpa [Option.isNone_eq_false_iff] using hsome
  have hnamed : ∀ host, (named (parseHost m) host).dstIP = (parseHost m).dstIP := by
    intro host
    unfold named
    split <;> rfl
  simp only [preHandleMetadata, hneed, Bool.not_true, Bool.false_eq_true, if_false, hfound,
    Option.bind_some]
  cases ((l.find (ipString (parseHost m).dstIP)).map Prod.fst).or
      ((p.dm (ipString (parseHost m).dstIP)).filter (· ≠ [])) with
  | none => simp only [hisFake, Bool.false_eq_true, if_false, Option.elim_none]
  | some host =>
      simp only [hfake, Bool.false_eq_true, if_false, hnamed, hdst, Option.elim_some]
      cases p.defaultHosts.search host <;> rfl

end Lookup

/-! ## One step -/

def State.Holds (s : State) (l : RecencyList Str (Str × Int)) : Prop :=
  ∃ h, s.package.mapper = some h ∧ HostMapping.Holds h l

/-- What an action does to the keys of the mapping, where it is enabled: a connection uses its
address if `needLookupIP` holds. -/
def Action.Uses : Action → RecencyList.Use Str (Str × Int) → Prop
  | .serve .., _ => False
  | .get _ key, u => u = .access key
  | .set _ key host _, u => ∃ expires, u = .put key (host, expires)
  | .connect m, u =>
      (parseHost m).host = [] ∧ (parseHost m).dstIP.isSome = true ∧
        u = .access (ipString (parseHost m).dstIP)

section Step

variable {setup : Setup} {s t : State} {l : RecencyList Str (Str × Int)}

theorem onMapping_spec {p : Package} {h : HostMapper} {l' : RecencyList Str (Str × Int)}
    (hp : p.mapper = some h) (hh : Holds h l) {f : Mapping → Option Mapping}
    (hf : ∀ c : Mapping, c.Refines l → ∃ c', f c = some c' ∧ c'.Refines l') :
    ∃ h', Holds h' l' ∧ p.onMapping f = some { p with mapper := some h' } := by
  obtain ⟨c, hc, href⟩ := hh.mapping
  obtain ⟨c', hfc, href'⟩ := hf c href
  refine ⟨{ h with mapping := some c' }, ⟨hh.mode, hh.unassigned, c', rfl, href'⟩, ?_⟩
  simp only [Package.onMapping, hp, Option.bind_some, hc, hfc, Option.map_some]

theorem State.Holds.get (hs : s.Holds l) {i : Nat} {key : Str}
    (hstep : step setup s (.get i key) = some t) :
    t.Holds (l.access key) ∧ ∃ c, s.calls i = some c ∧
      t.calls = Function.update s.calls i (some { c with got := true }) := by
  obtain ⟨h, hp, hh⟩ := hs
  obtain ⟨c, hc, hstep⟩ := Option.bind_eq_some_iff.mp hstep
  obtain ⟨wr, -, hstep⟩ := Option.bind_eq_some_iff.mp hstep
  obtain ⟨-, hstep⟩ := Option.ite_none_right_eq_some.mp hstep
  have hget : ∀ c : Mapping, c.Refines l →
      ∃ c', (mappingGet c key).map (·.1) = some c' ∧ c'.Refines (l.access key) := by
    intro c href
    obtain ⟨c', hget, href'⟩ := mappingGet_spec href key
    exact ⟨c', by rw [hget, Option.map_some], href'⟩
  obtain ⟨h', hh', hmap⟩ := onMapping_spec hp hh hget
  rw [hmap] at hstep
  cases hstep
  exact ⟨⟨h', rfl, hh'⟩, c, hc, rfl⟩

theorem State.Holds.set (hs : s.Holds l) {i : Nat} {key host : Str} {now : Nat}
    (hstep : step setup s (.set i key host now) = some t) :
    ∃ c wr, s.calls i = some c ∧ wr ∈ c.rest ∧ key = ipString wr.ip ∧ host = wr.host ∧
      t.Holds (l.put 4096 key (host, expiry now wr.ttl)) ∧
      t.calls = Function.update s.calls i (some ⟨c.rest.tail, false⟩) := by
  obtain ⟨h, hp, hh⟩ := hs
  obtain ⟨c, hc, hstep⟩ := Option.bind_eq_some_iff.mp hstep
  obtain ⟨wr, hwr, hstep⟩ := Option.bind_eq_some_iff.mp hstep
  obtain ⟨⟨-, hkey, hhost⟩, hstep⟩ := Option.ite_none_right_eq_some.mp hstep
  obtain ⟨h', hh', hmap⟩ := onMapping_spec hp hh fun c href =>
    mappingSet_spec href key host (expiry now wr.ttl)
  rw [hmap] at hstep
  cases hstep
  exact ⟨c, wr, hc, List.mem_of_mem_head? hwr, hkey, hhost, ⟨h', rfl, hh'⟩, rfl⟩

theorem State.Holds.connect (hs : s.Holds l) {m : Metadata}
    (hstep : step setup s (.connect m) = some t) :
    (t.Holds l ∨ ∃ u, Action.Uses (.connect m) u ∧ t.Holds (l.use 4096 u)) ∧ t.calls = s.calls ∧
      t.package.dm = s.package.dm := by
  obtain ⟨h, hp, hh⟩ := hs
  obtain ⟨⟨p, res⟩, hpre, rfl⟩ := Option.map_eq_some_iff.mp hstep
  cases hneed : needLookupIP s.package (parseHost m) with
  | false =>
      rw [preHandleMetadata_of_not_need hneed] at hpre
      cases hpre
      exact ⟨Or.inl ⟨h, hp, hh⟩, rfl, rfl⟩
  | true =>
      obtain ⟨h', hh', hres⟩ := preHandleMetadata_of_need hp hh hneed
      rw [hres] at hpre
      cases hpre
      simp only [needLookupIP, Bool.and_eq_true, beq_iff_eq] at hneed
      exact ⟨Or.inr ⟨_, ⟨hneed.1.2, hneed.2, rfl⟩, h', rfl, hh'⟩, rfl, rfl⟩

theorem serve_cases {i : Nat} {r : Message} {w : World}
    (hstep : step setup s (.serve i r w) = some t) :
    ∃ o, handlerWithContext (newHandler setup w) r = some o ∧
      t = { s with calls := Function.update s.calls i (some ⟨o.mapped, false⟩) } := by
  obtain ⟨-, hstep⟩ := Option.ite_none_left_eq_some.mp hstep
  obtain ⟨o, ho, rfl⟩ := Option.map_eq_some_iff.mp hstep
  exact ⟨o, ho, rfl⟩

/-- The mapping changes by the action's use of a key, if at all. -/
theorem State.Holds.step (hs : s.Holds l) {a : Action} (hstep : step setup s a = some t) :
    t.Holds l ∨ ∃ u, a.Uses u ∧ t.Holds (l.use 4096 u) := by
  cases a with
  | serve i r w =>
      obtain ⟨o, -, rfl⟩ := serve_cases hstep
      exact Or.inl hs
  | get i key => exact Or.inr ⟨.access key, rfl, (hs.get hstep).1⟩
  | set i key host now =>
      obtain ⟨c, wr, -, -, -, -, ht, -⟩ := hs.set hstep
      exact Or.inr ⟨.put key (host, expiry now wr.ttl), ⟨_, rfl⟩, ht⟩
  | connect m => exact (hs.connect hstep).1

end Step

/-! ## The latest answer -/

section Latest

variable {setup : Setup} {s t : State}

theorem State.Holds.run {acts : List Action} {l : RecencyList Str (Str × Int)} (hs : s.Holds l)
    (hrun : (system setup).run s acts = some t) : ∃ l', t.Holds l' := by
  have hkeep : ∀ s a t, (∃ l, s.Holds l) → (system setup).step s a = some t → ∃ l, t.Holds l := by
    rintro s a t ⟨l, hs⟩ hstep
    rcases hs.step hstep with ht | ⟨u, -, ht⟩
    · exact ⟨_, ht⟩
    · exact ⟨_, ht⟩
  exact ((system setup).always_of_step hkeep acts ⟨l, hs⟩).last _ hrun

/-- What came with the key stays as long as fewer than 4096 other keys are used. -/
theorem recent_run {key : Str} {a : Str × Int} {others : List Str} (hfew : others.length < 4096)
    {acts : List Action}
    (hothers : ∀ b ∈ acts, ∀ u, b.Uses u → u.key ≠ key → u.key ∈ others)
    (hlast : ∀ b ∈ acts, ∀ i host now, b ≠ .set i key host now)
    (hs : ∃ l, s.Holds l ∧ l.Recent key a others) (hrun : (system setup).run s acts = some t) :
    ∃ l, t.Holds l ∧ l.Recent key a others := by
  have hguarded : (system setup).Guarded (fun _ b =>
      (∀ u, b.Uses u → u.key ≠ key → u.key ∈ others) ∧ ∀ i host now, b ≠ .set i key host now) s
      acts :=
    (system setup).guarded_of_forall (fun b hb _ => ⟨hothers b hb, hlast b hb⟩) s
  have hkeep : ∀ s b t, (∃ l, s.Holds l ∧ l.Recent key a others) →
      ((∀ u, b.Uses u → u.key ≠ key → u.key ∈ others) ∧ ∀ i host now, b ≠ .set i key host now) →
      (system setup).step s b = some t → ∃ l, t.Holds l ∧ l.Recent key a others := by
    rintro s b t ⟨l, hs, hrecent⟩ ⟨hother, hnot⟩ hstep
    rcases hs.step hstep with ht | ⟨u, hu, ht⟩
    · exact ⟨l, ht, hrecent⟩
    · refine ⟨_, ht, hrecent.use hfew (hother u hu) ?_⟩
      rintro x rfl
      cases b with
      | serve => exact hu
      | get => cases hu
      | connect => cases hu.2.2
      | set i k host now =>
          obtain ⟨expires, hput⟩ := hu
          cases hput
          exact hnot i host now rfl
  exact ((system setup).always_of_guarded hkeep hs hguarded).last _ hrun

/-- Over every interleaving: a connection to a bare address gets the host of the latest answer
with the address, as long as fewer than 4096 other addresses were answered or looked up since.
So rules on the host apply to it. -/
theorem preHandleMetadata_latest (setup : Setup) (start s : State)
    (hstart : ∃ l, start.Holds l) (earlier later : List Action) (i : Nat) (ip : IP) (host : Str)
    (now : Nat)
    (hrun : (system setup).run start (earlier ++ .set i ip.string host now :: later) = some s)
    (others : List Str) (hfew : others.length < 4096)
    (hothers : ∀ a ∈ later, ∀ u, a.Uses u → u.key ≠ ip.string → u.key ∈ others)
    (hlast : ∀ a ∈ later, ∀ i host now, a ≠ .set i ip.string host now)
    (m : Metadata) (hhost : (parseHost m).host = []) (hdst : (parseHost m).dstIP = some ip) :
    ∃ p, preHandleMetadata s.package m = some (p, .ok (named (parseHost m) host)) := by
  obtain ⟨l₀, hstart⟩ := hstart
  rw [System.run_append] at hrun
  obtain ⟨s₁, hrun₁, hrun⟩ := Option.bind_eq_some_iff.mp hrun
  obtain ⟨s₂, hset, hrun⟩ := Option.bind_eq_some_iff.mp hrun
  have hstep : step setup s₁ (.set i ip.string host now) = some s₂ := hset
  obtain ⟨l₁, hs₁⟩ := hstart.run hrun₁
  obtain ⟨c, wr, -, -, -, -, hs₂, -⟩ := hs₁.set hstep
  obtain ⟨l, ⟨h, hp, hh⟩, hrecent⟩ := recent_run hfew hothers hlast
    ⟨_, hs₂, RecencyList.recent_put (by decide) _ _ _ _⟩ hrun
  have hneed : needLookupIP s.package (parseHost m) = true := by
    simp [needLookupIP, hhost, hdst, Package.mappingEnabled, hp, HostMapper.mappingEnabled, hh.mode]
  obtain ⟨h', -, hres⟩ := preHandleMetadata_of_need hp hh hneed
  have hfind : l.find (ipString (parseHost m).dstIP) = some (host, (expiry now wr.ttl : Int)) := by
    rw [hdst]
    exact hrecent.find
  rw [hfind] at hres
  exact ⟨_, hres⟩

/-- A request for `a.io`, answered with the address, and a connection to another one. -/
theorem preHandleMetadata_latest_after_connection :
    let ip := IP.v4 1 2 3 4
    let q : Question := ⟨str "a.io.", typeA, classINET⟩
    let rr : Record := ⟨q.name, typeA, classINET, 60, .a (some ip) (forall_mem_some rfl)⟩
    let r : Message := { Message.zero with question := [q] }
    let w : World := ⟨fun r => .ok { r with answer := [rr] }, false, fun _ => false, fun _ => false,
      fun _ => ⟨ip, rfl⟩⟩
    let other : Metadata :=
      ⟨.TCP, .TPROXY, none, some (IP.v4 9 9 9 9), [], str "443", atypIPv4, []⟩
    let m : Metadata := { other with dstIP := some ip }
    ∃ s p, (system ⟨Library.plain, none, false, false, .mapping⟩).run
        (State.start .mapping none (fun _ => none) DomainTrie.new)
        ([.serve 0 r w, .get 0 ip.string] ++ .set 0 ip.string (str "a.io") 0 :: [.connect other]) =
          some s ∧
      preHandleMetadata s.package m =
        some (p, .ok { m with host := str "a.io", addrType := atypDomainName }) := by
  intro ip q rr r w other m
  have hsome : ((system ⟨Library.plain, none, false, false, .mapping⟩).run
      (State.start .mapping none (fun _ => none) DomainTrie.new)
      ([.serve 0 r w, .get 0 ip.string] ++ .set 0 ip.string (str "a.io") 0 ::
        [.connect other])).isSome = true := by decide +kernel
  obtain ⟨s, hs⟩ := Option.isSome_iff_exists.mp hsome
  obtain ⟨p, hp⟩ := preHandleMetadata_latest _ _ s
    ⟨_, _, rfl, holds_newHostMapper (by decide) (by rintro p ⟨⟩)⟩ _ _ _ _ _ _ hs [str "9.9.9.9"]
    (by decide)
    (by
      intro a ha u hu _
      cases List.mem_singleton.mp ha
      cases hu.2.2
      decide)
    (by
      intro a ha i host now heq
      cases List.mem_singleton.mp ha
      cases heq)
    m rfl rfl
  exact ⟨s, p, hs, hp⟩

end Latest

/-! ## Nothing but answers -/

section Origin

variable (setup : Setup)

def Requested (acts : List Action) (wr : Write) : Prop :=
  ∃ i r w o, .serve i r w ∈ acts ∧ handlerWithContext (newHandler setup w) r = some o ∧
    wr ∈ o.mapped

theorem Requested.mono {acts acts' : List Action} (h : ∀ a ∈ acts, a ∈ acts') {wr : Write}
    (hwr : Requested setup acts wr) : Requested setup acts' wr := by
  obtain ⟨i, r, w, o, hmem, ho, hwr⟩ := hwr
  exact ⟨i, r, w, o, h _ hmem, ho, hwr⟩

/-- Everything in the mapping, and everything still to be written, was requested. -/
structure Traced (acts : List Action) (s : State) (l : RecencyList Str (Str × Int)) : Prop where
  holds : s.Holds l
  calls : ∀ i c, s.calls i = some c → ∀ wr ∈ c.rest, Requested setup acts wr
  entries : ∀ e ∈ l.entries, ∃ wr, Requested setup acts wr ∧ e.1 = ipString wr.ip ∧ e.2.1 = wr.host

variable {setup}

theorem Traced.step {acts : List Action} {s t : State} {l : RecencyList Str (Str × Int)}
    (hs : Traced setup acts s l) {a : Action} (hstep : step setup s a = some t) :
    ∃ l', Traced setup (acts ++ [a]) t l' := by
  have hmono : ∀ wr, Requested setup acts wr → Requested setup (acts ++ [a]) wr := fun wr =>
    Requested.mono setup fun b hb => List.mem_append_left _ hb
  have hentries : ∀ e ∈ l.entries,
      ∃ wr, Requested setup (acts ++ [a]) wr ∧ e.1 = ipString wr.ip ∧ e.2.1 = wr.host := by
    intro e he
    obtain ⟨wr, hwr, heq⟩ := hs.entries e he
    exact ⟨wr, hmono wr hwr, heq⟩
  have haccess : ∀ key, ∀ e ∈ (l.access key).entries,
      ∃ wr, Requested setup (acts ++ [a]) wr ∧ e.1 = ipString wr.ip ∧ e.2.1 = wr.host :=
    fun key e he => hentries e (RecencyList.mem_access.mp he)
  have hupdate : ∀ {i : Nat} {c c' : Call}, s.calls i = some c → (∀ wr ∈ c'.rest, wr ∈ c.rest) →
      ∀ j d, Function.update s.calls i (some c') j = some d → ∀ wr ∈ d.rest,
        Requested setup (acts ++ [a]) wr := by
    intro i c c' hc hsub j d hd wr hwr
    rcases eq_or_of_update hd with ⟨-, hd⟩ | ⟨-, hd⟩
    · cases hd
      exact hmono wr (hs.calls i c hc wr (hsub wr hwr))
    · exact hmono wr (hs.calls j d hd wr hwr)
  cases a with
  | serve i r w =>
      obtain ⟨o, ho, rfl⟩ := serve_cases hstep
      refine ⟨l, hs.holds, ?_, hentries⟩
      intro j d hd wr hwr
      rcases eq_or_of_update hd with ⟨-, hd⟩ | ⟨-, hd⟩
      · cases hd
        exact ⟨i, r, w, o, List.mem_append_right _ List.mem_cons_self, ho, hwr⟩
      · exact hmono wr (hs.calls j d hd wr hwr)
  | get i key =>
      obtain ⟨ht, c, hc, hcalls⟩ := hs.holds.get hstep
      refine ⟨_, ht, ?_, haccess key⟩
      rw [hcalls]
      exact hupdate hc fun wr hwr => hwr
  | set i key host now =>
      obtain ⟨c, wr, hc, hwr, hkey, hhost, ht, hcalls⟩ := hs.holds.set hstep
      refine ⟨_, ht, ?_, ?_⟩
      · rw [hcalls]
        exact hupdate hc fun wr hwr => List.mem_of_mem_tail hwr
      · intro e he
        rcases RecencyList.mem_of_mem_put he with he | rfl
        · exact hentries e he
        · exact ⟨wr, hmono wr (hs.calls i c hc wr hwr), hkey, hhost⟩
  | connect m =>
      obtain ⟨ht, hcalls, -⟩ := hs.holds.connect hstep
      have hold : ∀ i c, t.calls i = some c → ∀ wr ∈ c.rest,
          Requested setup (acts ++ [.connect m]) wr := by
        rw [hcalls]
        exact fun i c hc wr hwr => hmono wr (hs.calls i c hc wr hwr)
      rcases ht with ht | ⟨u, ⟨-, -, rfl⟩, ht⟩
      · exact ⟨l, ht, hold, hentries⟩
      · exact ⟨_, ht, hold, haccess _⟩

theorem Traced.run {acts done : List Action} {s t : State} {l : RecencyList Str (Str × Int)}
    (hs : Traced setup done s l) (hrun : (system setup).run s acts = some t) :
    ∃ l', Traced setup (done ++ acts) t l' := by
  induction acts generalizing s l done with
  | nil =>
      cases hrun
      exact ⟨l, by rwa [List.append_nil]⟩
  | cons a acts ih =>
      obtain ⟨u, hstep, hrun⟩ := Option.bind_eq_some_iff.mp hrun
      obtain ⟨l', hu⟩ := hs.step hstep
      obtain ⟨l'', ht⟩ := ih hu hrun
      exact ⟨l'', by rwa [List.append_assoc] at ht⟩

/-- An answer of the run has the address, under the name that was asked for. -/
def Answered (setup : Setup) (acts : List Action) (ip : Option IP) (host : Str) : Prop :=
  ∃ i r w o msg q, .serve i r w ∈ acts ∧ handlerWithContext (newHandler setup w) r = some o ∧
    o.out = .ok msg ∧ r.question.head? = some q ∧ host = msgToDomain q ∧
    ∃ rr ∈ msg.answer, ∃ wr, rr.write host = some wr ∧ wr.ip.map IP.canon = ip.map IP.canon

theorem Requested.answered {acts : List Action} {wr : Write} (h : Requested setup acts wr)
    {ip : Option IP} (hip : ipString wr.ip = ipString ip) : Answered setup acts ip wr.host := by
  obtain ⟨i, r, w, o, hmem, ho, hwr⟩ := h
  unfold handlerWithContext at ho
  by_cases hr : r.question = []
  · rw [if_pos hr] at ho
    cases ho
    exact absurd hwr List.not_mem_nil
  · have ho' := ho
    rw [if_neg hr] at ho
    obtain ⟨q, hq, hmapped⟩ := mapped_newHandler ho
    obtain ⟨msg, hout, rr, hrr, hwrite⟩ := hmapped wr hwr
    have hhost : wr.host = msgToDomain q := by
      unfold Record.write at hwrite
      split at hwrite
      · cases hwrite
        rfl
      · cases hwrite
        rfl
      · cases hwrite
    exact ⟨i, r, w, o, msg, q, hmem, ho', hout, hq, hhost, rr, hrr, wr, by rwa [hhost],
      canon_eq_of_ipString_eq hip⟩

/-- Over every interleaving: `preHandleMetadata` returns, and a host that it adds is the name of
a request that the server answered with the address, or comes from `Dm`. -/
theorem preHandleMetadata_origin (setup : Setup) (mode : EnhancedMode) (hmode : mode ≠ .normal)
    (pool : Option Pool) (hpool : ∀ p, pool = some p → ∀ key, p.cache.cache key = none)
    (dm : Str → Option Str) (defaultHosts : DomainTrie HostData) (acts : List Action) (s : State)
    (hrun : (system setup).run (State.start mode pool dm defaultHosts) acts = some s)
    (m : Metadata) :
    ∃ p m', preHandleMetadata s.package m = some (p, .ok m') ∧
      (m' = parseHost m ∨ ∃ host, m' = named (parseHost m) host ∧
        (Answered setup acts (parseHost m).dstIP host ∨
          s.package.dm (ipString (parseHost m).dstIP) = some host)) := by
  have hstart : Traced setup [] (State.start mode pool dm defaultHosts) RecencyList.empty :=
    ⟨⟨_, rfl, holds_newHostMapper hmode hpool⟩, by rintro i c ⟨⟩, by rintro e ⟨⟩⟩
  obtain ⟨l, htraced⟩ := hstart.run hrun
  obtain ⟨h, hp, hh⟩ := htraced.holds
  cases hneed : needLookupIP s.package (parseHost m) with
  | false => exact ⟨_, _, preHandleMetadata_of_not_need hneed, Or.inl rfl⟩
  | true =>
      obtain ⟨h', -, hres⟩ := preHandleMetadata_of_need hp hh hneed
      refine ⟨_, _, hres, ?_⟩
      cases hfind : l.find (ipString (parseHost m).dstIP) with
      | some a =>
          obtain ⟨wr, hwr, hkey, hhost⟩ := htraced.entries _ (RecencyList.find_eq_some_iff.mp hfind)
          refine Or.inr ⟨a.1, rfl, Or.inl ?_⟩
          change a.1 = wr.host at hhost
          rw [hhost]
          exact hwr.answered hkey.symm
      | none =>
          cases hdm : (s.package.dm (ipString (parseHost m).dstIP)).filter (· ≠ []) with
          | none => exact Or.inl rfl
          | some host =>
              exact Or.inr ⟨host, rfl, Or.inr (Option.filter_eq_some_iff.mp hdm).1⟩

/-- The same request, and the name that comes of it. -/
theorem preHandleMetadata_origin_after_answer :
    let ip := IP.v4 1 2 3 4
    let q : Question := ⟨str "a.io.", typeA, classINET⟩
    let rr : Record := ⟨q.name, typeA, classINET, 60, .a (some ip) (forall_mem_some rfl)⟩
    let r : Message := { Message.zero with question := [q] }
    let w : World := ⟨fun r => .ok { r with answer := [rr] }, false, fun _ => false, fun _ => false,
      fun _ => ⟨ip, rfl⟩⟩
    let m : Metadata := ⟨.TCP, .TPROXY, none, some ip, [], str "443", atypIPv4, []⟩
    let acts : List Action := [.serve 0 r w, .get 0 ip.string, .set 0 ip.string (str "a.io") 0]
    ∃ s p m', (system ⟨Library.plain, none, false, false, .mapping⟩).run
        (State.start .fakeip none (fun _ => none) DomainTrie.new) acts = some s ∧
      preHandleMetadata s.package m = some (p, .ok m') ∧
      (m' = parseHost m ∨ ∃ host, m' = named (parseHost m) host ∧
        (Answered ⟨Library.plain, none, false, false, .mapping⟩ acts (some ip) host ∨
          s.package.dm ip.string = some host)) := by
  intro ip q rr r w m acts
  have hsome : ((system ⟨Library.plain, none, false, false, .mapping⟩).run
      (State.start .fakeip none (fun _ => none) DomainTrie.new) acts).isSome = true := by
    decide +kernel
  obtain ⟨s, hs⟩ := Option.isSome_iff_exists.mp hsome
  obtain ⟨p, m', hp⟩ := preHandleMetadata_origin _ .fakeip (by decide) none (by rintro p ⟨⟩) _ _ acts
    s hs m
  exact ⟨s, p, m', hs, hp⟩

end Origin

end RuleBaseProxy.HostMapping
