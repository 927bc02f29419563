import RuleBaseProxy.Component.FakeIPRange

/-! # Fake addresses and the enhancer

`IsFakeIP` recognises the addresses of the pool by their network, the gateway apart. It
does so for the addresses that `Lookup` has returned as long as the pool has not come to
the address of its gateway, and in the mode for fake addresses only. `NewEnhancer` replaces
that mode by another one.
-/

namespace RuleBaseProxy.Dns.Enhancer

open Go Go.Net FakeIP Cache

inductive EnhancedMode where
  | normal
  | fakeip
  | mapping
  deriving DecidableEq

/-- `ResolverEnhancer` without its `mapping`. -/
structure ResolverEnhancer where
  mode : EnhancedMode
  fakePool : Option Pool

namespace ResolverEnhancer

def fakeIPEnabled (h : ResolverEnhancer) : Bool := h.mode = .fakeip

/-- `none` is a panic. -/
def isExistFakeIP (h : ResolverEnhancer) (ip : Option IP) : Option Bool :=
  if !h.fakeIPEnabled then some false
  else
    match h.fakePool with
    | some pool => pool.exist ip
    | none => some false

/-- The address is `none` where its length is neither four nor sixteen; no network
contains it. -/
def isFakeIP (h : ResolverEnhancer) (ip : Option IP) : Bool :=
  if !h.fakeIPEnabled then false
  else
    match h.fakePool, ip with
    | some pool, some ip => pool.ipnet.contains ip && !decide (pool.gatewayIP.canon = ip.canon)
    | some _, none => false
    | none, _ => false

end ResolverEnhancer

/-- `NewEnhancer`, from the mode and the pool of the configuration. -/
def newEnhancer (mode : EnhancedMode) (pool : Option Pool) : ResolverEnhancer :=
  if mode ≠ .normal then
    if mode = .fakeip then ⟨.mapping, pool⟩ else ⟨mode, pool⟩
  else ⟨mode, none⟩

/-- Whatever the configuration says, fake addresses are not enabled. -/
theorem fakeIPEnabled_newEnhancer (mode : EnhancedMode) (pool : Option Pool) :
    (newEnhancer mode pool).fakeIPEnabled = false := by
  cases mode <;> rfl

theorem isFakeIP_newEnhancer (mode : EnhancedMode) (pool : Option Pool) (ip : Option IP) :
    (newEnhancer mode pool).isFakeIP ip = false ∧
      (newEnhancer mode pool).isExistFakeIP ip = some false := by
  unfold ResolverEnhancer.isFakeIP ResolverEnhancer.isExistFakeIP
  rw [fakeIPEnabled_newEnhancer]
  exact ⟨rfl, rfl⟩

/-! ## The addresses that were handed out -/

theorem canon_address (p : Pool) (o : UInt32) : (p.address o).canon = (p.address o).bytes := by
  rw [IP.canon, Pool.address, uintToIP_to4, Option.getD_some]

/-- An address of the pool is recognised unless it is that of the gateway. -/
theorem isFakeIP_address {ipnet : IPNet} {pool : Pool} (h : Covers ipnet pool) {mode : EnhancedMode}
    {offset o : UInt32} {cache : LinkedLru Key Value Unit} (ho : o < pool.max - pool.min) :
    ResolverEnhancer.isFakeIP ⟨mode, some (pool.after offset cache)⟩ (some (pool.address o)) = true ↔
      mode = .fakeip ∧ pool.address o ≠ pool.address 0 := by
  have hgateway : (pool.after offset cache).gatewayIP = pool.address 0 := h.gatewayIP_eq
  have hcontains : (pool.after offset cache).ipnet.contains (pool.address o) = true := by
    have hipnet : (pool.after offset cache).ipnet = ipnet := h.ipnet_eq
    rw [hipnet, h.contains_address ho]
  have hcanon : (pool.address 0).canon = (pool.address o).canon ↔ pool.address o = pool.address 0 := by
    rw [canon_address, canon_address]
    constructor
    · intro hbytes
      exact IP.eq_of_bytes_eq hbytes.symm
    · intro heq
      rw [heq]
  cases mode with
  | normal | mapping => simp [ResolverEnhancer.isFakeIP, ResolverEnhancer.fakeIPEnabled]
  | fakeip =>
      simp [ResolverEnhancer.isFakeIP, ResolverEnhancer.fakeIPEnabled, hgateway, hcontains, hcanon]

/-- Every address that `Lookup` returns lies inside its network, between the network address
and the broadcast address. None of them is the gateway, and all are recognised as fake,
exactly as long as fewer addresses have been assigned than the range has without these
three. -/
theorem lookups_recognised_iff (ipnet : IPNet) (size : Int) (pool : Pool)
    (hnew : new ipnet size = some (.ok pool)) (hlength : ipnet.ip.bytes.length = 4)
    (hmasked : maskBytes ipnet.ones ipnet.ip.bytes = ipnet.ip.bytes) (hosts : List Str) :
    ∃ p ips, pool.lookups hosts = some (p, ips) ∧
      (∀ ip ∈ ips, ipnet.contains ip = true ∧ ip ≠ ipnet.ip ∧ ip ≠ ipnet.broadcast) ∧
      ((∀ ip ∈ ips, ip ≠ p.gatewayIP) ↔ pool.assigned hosts + 3 < 2 ^ (32 - ipnet.ones)) ∧
      ∀ mode, (∀ ip ∈ ips, ResolverEnhancer.isFakeIP ⟨mode, some p⟩ (some ip) = true) ↔
        ips = [] ∨ mode = .fakeip ∧ pool.assigned hosts + 3 < 2 ^ (32 - ipnet.ones) := by
  have hcovers := covers_of_new hnew hlength hmasked
  have hspread : (pool.max - pool.min).toNat + 3 = 2 ^ (32 - ipnet.ones) := by
    rw [hcovers.spread, hostCount, hlength]
  rcases lookups_of_new hnew hosts with ⟨offset, cache, ips, hlookups, hips, hzero⟩
  have hgateway : (pool.after offset cache).gatewayIP = pool.address 0 := hcovers.gatewayIP_eq
  have hcount : (∀ ip ∈ ips, ip ≠ pool.address 0) ↔
      pool.assigned hosts + 3 < 2 ^ (32 - ipnet.ones) := by
    rw [hzero]
    omega
  have hfake : ∀ mode, ∀ ip ∈ ips,
      ResolverEnhancer.isFakeIP ⟨mode, some (pool.after offset cache)⟩ (some ip) = true ↔
        mode = .fakeip ∧ ip ≠ pool.address 0 := by
    intro mode ip hip
    rcases hips ip hip with ⟨o, ho, rfl⟩
    exact isFakeIP_address hcovers ho
  refine ⟨_, ips, hlookups, ?_, ?_, ?_⟩
  · intro ip hip
    rcases hips ip hip with ⟨o, ho, rfl⟩
    exact ⟨hcovers.contains_address ho, hcovers.address_ne_network ho,
      hcovers.address_ne_broadcast hmasked ho⟩
  · rw [hgateway]
    exact hcount
  · intro mode
    rw [← hcount]
    constructor
    · intro hall
      cases ips with
      | nil => exact Or.inl rfl
      | cons ip rest =>
          have hmode := ((hfake mode ip List.mem_cons_self).mp (hall ip List.mem_cons_self)).1
          exact Or.inr ⟨hmode, fun ip hip => ((hfake mode ip hip).mp (hall ip hip)).2⟩
    · intro hor ip hip
      rcases hor with rfl | ⟨hmode, hne⟩
      · cases hip
      · exact (hfake mode ip hip).mpr ⟨hmode, hne ip hip⟩

/-- Two hosts in `192.168.0.1/29`, which has room for four beside the gateway. -/
theorem lookups_recognised_two :
    ∃ ipnet pool p ips, parseCIDR (str "192.168.0.1/29") = some ipnet ∧
      new ipnet 1000 = some (.ok pool) ∧
      pool.lookups [str "foo.com", str "bar.com", str "foo.com"] = some (p, ips) ∧
      ∀ ip ∈ ips, ipnet.contains ip = true ∧ ip ≠ p.gatewayIP ∧
        ResolverEnhancer.isFakeIP ⟨.fakeip, some p⟩ (some ip) = true := by
  have hparse : parseCIDR (str "192.168.0.1/29") = some ⟨⟨[192, 168, 0, 0], Or.inl rfl⟩, 29⟩ := by
    decide
  rcases lookups_recognised_iff ⟨⟨[192, 168, 0, 0], Or.inl rfl⟩, 29⟩ 1000 _ rfl rfl
    (IPNet.masked_of_parseCIDR hparse) [str "foo.com", str "bar.com", str "foo.com"] with
    ⟨p, ips, hlookups, hrange, hgateway, hfake⟩
  refine ⟨_, _, p, ips, hparse, rfl, hlookups, ?_⟩
  intro ip hip
  exact ⟨(hrange ip hip).1, hgateway.mpr (by decide) ip hip,
    (hfake .fakeip).mpr (Or.inr ⟨rfl, by decide⟩) ip hip⟩

/-- In the smallest range the first address is the gateway, and is not recognised. -/
theorem lookup_returns_gateway :
    ∃ ipnet pool p, parseCIDR (str "192.168.0.1/30") = some ipnet ∧
      new ipnet 1000 = some (.ok pool) ∧
      pool.lookups [str "foo.com"] = some (p, [⟨[192, 168, 0, 1], Or.inl rfl⟩]) ∧
      p.gatewayIP = ⟨[192, 168, 0, 1], Or.inl rfl⟩ ∧
      ResolverEnhancer.isFakeIP ⟨.fakeip, some p⟩ (some ⟨[192, 168, 0, 1], Or.inl rfl⟩) = false := by
  have hparse : parseCIDR (str "192.168.0.1/30") = some ⟨⟨[192, 168, 0, 0], Or.inl rfl⟩, 30⟩ := by
    decide
  exact ⟨_, _, _, hparse, rfl, rfl, rfl, rfl⟩

end RuleBaseProxy.Dns.Enhancer
