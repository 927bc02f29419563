import RuleBaseProxy.Component.FakeIP

/-! # The addresses of the fake-ip pool

`Lookup` takes one offset after another. Up to the end of the range it has not come to
offset zero, where it started; the next offset is then zero, and the address of that
offset is the gateway. The number of addresses that have been assigned decides.
-/

namespace RuleBaseProxy.FakeIP

open Go Go.Net Cache Recency

namespace Pool

/-- `Gateway`. -/
def gatewayIP (p : Pool) : IP := uintToIP p.gateway

def address (p : Pool) (o : UInt32) : IP := uintToIP (p.min + o - 1)

def lookups (p : Pool) : List Str → Option (Pool × List IP)
  | [] => some (p, [])
  | host :: hosts => do
      let (p, ip) ← p.lookup host
      let (p, ips) ← p.lookups hosts
      some (p, ip :: ips)

/-- One if the host is not in the cache, so that `Lookup` assigns an address. -/
def fresh (p : Pool) (host : Str) : Nat := if (p.entry (.host host)).isSome then 0 else 1

def assigned (p : Pool) : List Str → Nat
  | [] => 0
  | host :: hosts =>
      p.fresh host +
        match p.lookup host with
        | some (p, _) => p.assigned hosts
        | none => 0

def after (p : Pool) (offset : UInt32) (cache : LinkedLru Key Value Unit) : Pool :=
  { p with offset := offset, cache := cache }

/-! ## Offsets in turn -/

/-- An offset that can be in use after `k` assignments. In the first round zero is not. -/
def Reached (p : Pool) (k : Nat) (o : UInt32) : Prop :=
  o < p.max - p.min ∧ (k < (p.max - p.min).toNat → 1 ≤ o.toNat ∧ o.toNat ≤ k)

def IsEntry (p : Pool) (o : UInt32) (e : Key × (Value × Int)) : Prop :=
  ∃ host, e = (.host host, .ip (p.address o), 0) ∨ e = (.offset o, .host host, 0)

theorem Reached.mono {p : Pool} {k k' : Nat} {o : UInt32} (h : p.Reached k o) (hle : k ≤ k') :
    p.Reached k' o := by
  refine ⟨h.1, fun hlt => ?_⟩
  have hbound := h.2 (Nat.lt_of_le_of_lt hle hlt)
  omega

theorem scan_next {p : Pool} (h : p.offset < p.max - p.min)
    (hfree : p.cacheExist (.offset ((p.offset + 1) % (p.max - p.min))) = false) :
    p.scan p.offset (p.max - p.min).toNat p.offset = some ((p.offset + 1) % (p.max - p.min)) := by
  have hlt : p.offset.toNat < (p.max - p.min).toNat := UInt32.lt_iff_toNat_lt.mp h
  cases hfuel : (p.max - p.min).toNat with
  | zero => omega
  | succ fuel =>
      rw [scan]
      by_cases hcurrent : (p.offset + 1) % (p.max - p.min) = p.offset
      · rw [if_pos hcurrent]
      · rw [if_neg hcurrent, if_pos (by rw [hfree, Bool.not_false])]

end Pool

structure Counted (pool : Pool) (k : Nat) (offset : UInt32) (cache : LinkedLru Key Value Unit) :
    Prop where
  maxAge : pool.options.maxAge = 0
  entries : ∃ l, cache.Refines l ∧ ∀ e ∈ l.entries, ∃ o, pool.Reached k o ∧ pool.IsEntry o e
  offset_lt : offset < pool.max - pool.min
  count : k < (pool.max - pool.min).toNat → offset.toNat = k

namespace Counted

variable {pool : Pool} {k : Nat} {offset : UInt32} {cache : LinkedLru Key Value Unit} {host : Str}

theorem nonzero (h : Counted pool k offset cache) : pool.max - pool.min ≠ 0 := by
  intro hzero
  have hlt := h.offset_lt
  rw [hzero, UInt32.lt_iff_toNat_lt, UInt32.toNat_zero] at hlt
  omega

theorem lookup_hit (h : Counted pool k offset cache)
    (hsome : ((pool.after offset cache).entry (.host host)).isSome = true) :
    ∃ cache' o, (pool.after offset cache).lookup host =
        some (pool.after offset cache', pool.address o) ∧
      Counted pool k offset cache' ∧ pool.Reached k o := by
  rcases h.entries with ⟨l, href, hentries⟩
  rw [Pool.entry_eq (p := pool.after offset cache) href, Option.isSome_map,
    Option.isSome_iff_exists] at hsome
  rcases hsome with ⟨w, hfind⟩
  rcases hentries _ (RecencyList.find_eq_some_iff.mp hfind) with ⟨o, hreached, host', heq | heq⟩
  · cases heq
    rcases Pool.lookup_of_find (p := pool.after offset cache) h.maxAge href hfind with
      ⟨cache', hlookup, href'⟩
    refine ⟨cache', o, hlookup, ⟨h.maxAge, ⟨_, href', ?_⟩, h.offset_lt, h.count⟩, hreached⟩
    intro e he
    rw [RecencyList.mem_access, RecencyList.mem_access] at he
    exact hentries e he
  · cases heq

theorem next_free (h : Counted pool k offset cache) (hk : k < (pool.max - pool.min).toNat) :
    (pool.after offset cache).cacheExist (.offset ((offset + 1) % (pool.max - pool.min))) = false := by
  rcases h.entries with ⟨l, href, hentries⟩
  have hnext := Pool.toNat_next h.offset_lt
  rw [h.count hk] at hnext
  rw [Pool.cacheExist_eq_false_iff (p := pool.after offset cache) href]
  cases hfind : l.find (.offset ((offset + 1) % (pool.max - pool.min))) with
  | none => rfl
  | some w =>
      rcases hentries _ (RecencyList.find_eq_some_iff.mp hfind) with ⟨o, hreached, host, heq | heq⟩
      · cases heq
      · have ho : (offset + 1) % (pool.max - pool.min) = o := Key.offset.inj (congrArg Prod.fst heq)
        have hbound := hreached.2 hk
        rw [← ho, hnext] at hbound
        rcases Nat.lt_or_ge (k + 1) (pool.max - pool.min).toNat with hlt | hge
        · rw [Nat.mod_eq_of_lt hlt] at hbound
          omega
        · have hend : k + 1 = (pool.max - pool.min).toNat := by omega
          rw [hend, Nat.mod_self] at hbound
          omega

/-- Where the loop of `get` ends; in the first round, one further. -/
theorem exists_scan (h : Counted pool k offset cache) :
    ∃ o, (pool.after offset cache).scan offset (pool.max - pool.min).toNat offset = some o ∧
      o < pool.max - pool.min ∧
      (k < (pool.max - pool.min).toNat → o.toNat = (k + 1) % (pool.max - pool.min).toNat) := by
  rcases Nat.lt_or_ge k (pool.max - pool.min).toNat with hk | hk
  · have hpos : 0 < pool.max - pool.min := by
      rw [UInt32.lt_iff_toNat_lt, UInt32.toNat_zero]
      omega
    refine ⟨(offset + 1) % (pool.max - pool.min), ?_, UInt32.mod_lt _ hpos, fun _ => ?_⟩
    · exact Pool.scan_next (p := pool.after offset cache) h.offset_lt (h.next_free hk)
    · rw [Pool.toNat_next h.offset_lt, h.count hk]
  · rcases Pool.scan_spec (p := pool.after offset cache) h.offset_lt with ⟨o, hscan, hlt, -⟩
    exact ⟨o, hscan, hlt, fun hlt' => by omega⟩

/-- A new host gets the offset where the loop ends. At the end of the first round it is zero. -/
theorem lookup_miss (h : Counted pool k offset cache)
    (hnone : ((pool.after offset cache).entry (.host host)).isSome = false) :
    ∃ cache' o, (pool.after offset cache).lookup host =
        some (pool.after o cache', pool.address o) ∧
      Counted pool (k + 1) o cache' ∧ pool.Reached (k + 1) o ∧
      (k + 1 = (pool.max - pool.min).toNat → o = 0) := by
  rcases h.entries with ⟨l, href, hentries⟩
  rcases h.exists_scan with ⟨o, hscan, hlt, hturn⟩
  rw [Pool.entry_eq (p := pool.after offset cache) href, Option.isSome_map, Option.isSome_eq_false_iff,
    Option.isNone_iff_eq_none] at hnone
  rcases Pool.lookup_of_scan (p := pool.after offset cache) h.maxAge href hnone h.nonzero hscan with
    ⟨cache', hlookup, href'⟩
  have hround : k + 1 < (pool.max - pool.min).toNat → o.toNat = k + 1 := by
    intro hk
    rw [hturn (by omega), Nat.mod_eq_of_lt hk]
  have hreached : pool.Reached (k + 1) o := by
    refine ⟨hlt, fun hk => ?_⟩
    have ho := hround hk
    omega
  refine ⟨cache', o, hlookup, ⟨h.maxAge, ⟨_, href', ?_⟩, hlt, hround⟩, hreached, ?_⟩
  · intro e he
    rcases RecencyList.mem_of_mem_insert he with he | rfl
    · rcases RecencyList.mem_of_mem_insert he with he | rfl
      · rcases hentries e he with ⟨x, hx, hentry⟩
        exact ⟨x, hx.mono (Nat.le_succ k), hentry⟩
      · exact ⟨o, hreached, host, Or.inr rfl⟩
    · exact ⟨o, hreached, host, Or.inl rfl⟩
  · intro hend
    rw [← UInt32.toNat_inj, hturn (by omega), hend, Nat.mod_self, UInt32.toNat_zero]

theorem lookup (h : Counted pool k offset cache) (host : Str) :
    ∃ offset' cache' o, (pool.after offset cache).lookup host =
        some (pool.after offset' cache', pool.address o) ∧
      Counted pool (k + (pool.after offset cache).fresh host) offset' cache' ∧
      pool.Reached (k + (pool.after offset cache).fresh host) o ∧
      (k < (pool.max - pool.min).toNat →
        (pool.max - pool.min).toNat ≤ k + (pool.after offset cache).fresh host → o = 0) := by
  rw [Pool.fresh]
  cases hentry : ((pool.after offset cache).entry (.host host)).isSome with
  | true =>
      rcases h.lookup_hit hentry with ⟨cache', o, hlookup, hcounted, hreached⟩
      exact ⟨offset, cache', o, hlookup, hcounted, hreached, fun hk hle => by simp at hle; omega⟩
  | false =>
      rcases h.lookup_miss hentry with ⟨cache', o, hlookup, hcounted, hreached, hzero⟩
      exact ⟨o, cache', o, hlookup, hcounted, hreached, fun hk hle => hzero (by simp at hle; omega)⟩

/-- The calls never fail. They return addresses of offsets that are reached, and with the
assignment that ends the first round the address of offset zero. -/
theorem lookups (h : Counted pool k offset cache) (hosts : List Str) :
    ∃ offset' cache' ips, (pool.after offset cache).lookups hosts =
        some (pool.after offset' cache', ips) ∧
      (∀ ip ∈ ips, ∃ o, pool.Reached (k + (pool.after offset cache).assigned hosts) o ∧
        ip = pool.address o) ∧
      (k < (pool.max - pool.min).toNat →
        (pool.max - pool.min).toNat ≤ k + (pool.after offset cache).assigned hosts →
        pool.address 0 ∈ ips) := by
  induction hosts generalizing k offset cache with
  | nil => exact ⟨offset, cache, [], rfl, nofun, fun hk hle => absurd hle (Nat.not_le.mpr hk)⟩
  | cons host hosts ih =>
      rcases h.lookup host with ⟨offset₁, cache₁, o, hlookup, hcounted, hreached, hzero⟩
      rcases ih hcounted with ⟨offset₂, cache₂, ips, hlookups, hips, hend⟩
      have hassigned : (pool.after offset cache).assigned (host :: hosts) =
          (pool.after offset cache).fresh host + (pool.after offset₁ cache₁).assigned hosts := by
        rw [Pool.assigned, hlookup]
      rw [hassigned, ← Nat.add_assoc]
      refine ⟨offset₂, cache₂, pool.address o :: ips, ?_, ?_, ?_⟩
      · simp only [Pool.lookups, hlookup, hlookups, Option.bind_eq_bind, Option.bind_some]
      · intro ip hip
        rcases List.mem_cons.mp hip with rfl | hip
        · exact ⟨o, hreached.mono (Nat.le_add_right _ _), rfl⟩
        · exact hips ip hip
      · intro hk hle
        rcases Nat.lt_or_ge (k + (pool.after offset cache).fresh host) (pool.max - pool.min).toNat with
          hlt | hge
        · exact List.mem_cons_of_mem _ (hend hlt hle)
        · rw [hzero hk hge]
          exact List.mem_cons_self

end Counted

theorem address_injective {p : Pool} {o o' : UInt32} (h : p.address o = p.address o') : o = o' := by
  have hnum := uintToIP_injective h
  grind

theorem lookups_of_new {ipnet : IPNet} {size : Int} {pool : Pool}
    (hnew : new ipnet size = some (.ok pool)) (hosts : List Str) :
    ∃ offset cache ips, pool.lookups hosts = some (pool.after offset cache, ips) ∧
      (∀ ip ∈ ips, ∃ o, o < pool.max - pool.min ∧ ip = pool.address o) ∧
      ((∀ ip ∈ ips, ip ≠ pool.address 0) ↔ pool.assigned hosts < (pool.max - pool.min).toNat) := by
  have hoffset := offset_lt_of_new hnew
  rcases new_cases hnew with ⟨n, -, -, hpool⟩
  have hstart : pool.offset = 0 := by rw [hpool]
  have hage : pool.options.maxAge = 0 := by rw [hpool]
  have hcache : pool.cache.Refines RecencyList.empty := by
    rw [hpool]
    exact LinkedLru.refines_empty ()
  have hcounted : Counted pool 0 pool.offset pool.cache :=
    ⟨hage, ⟨_, hcache, nofun⟩, hoffset, fun _ => by rw [hstart, UInt32.toNat_zero]⟩
  have hafter : pool.after pool.offset pool.cache = pool := rfl
  have hpos : 0 < (pool.max - pool.min).toNat := Nat.lt_of_le_of_lt (Nat.zero_le _)
    (UInt32.lt_iff_toNat_lt.mp hoffset)
  rcases hcounted.lookups hosts with ⟨offset, cache, ips, hlookups, hips, hend⟩
  rw [hafter, Nat.zero_add] at hips hend
  rw [hafter] at hlookups
  refine ⟨offset, cache, ips, hlookups, ?_, ?_, ?_⟩
  · intro ip hip
    rcases hips ip hip with ⟨o, hreached, heq⟩
    exact ⟨o, hreached.1, heq⟩
  · intro hne
    by_contra hge
    exact hne _ (hend hpos (Nat.le_of_not_lt hge)) rfl
  · intro hlt ip hip heq
    rcases hips ip hip with ⟨o, hreached, haddress⟩
    have hzero : o = 0 := address_injective (haddress.symm.trans heq)
    have hbound := hreached.2 hlt
    rw [hzero, UInt32.toNat_zero] at hbound
    omega

/-! ## The range -/

structure Covers (ipnet : IPNet) (pool : Pool) : Prop where
  length : ipnet.ip.bytes.length = 4
  min : pool.min.toNat = bytesNat ipnet.ip.bytes + 2
  gateway : pool.gateway = pool.min - 1
  ipnet_eq : pool.ipnet = ipnet
  spread : (pool.max - pool.min).toNat + 3 = hostCount ipnet.ones ipnet.ip.bytes
  fits : bytesNat ipnet.ip.bytes + hostCount ipnet.ones ipnet.ip.bytes ≤ 2 ^ 32
  masked : hostCount ipnet.ones ipnet.ip.bytes ∣ bytesNat ipnet.ip.bytes

theorem total_of_four {ipnet : IPNet} (h : ipnet.ip.bytes.length = 4) :
    total ipnet = hostCount ipnet.ones ipnet.ip.bytes - 2 := by
  have hle : hostCount ipnet.ones ipnet.ip.bytes ≤ 2 ^ 32 := by
    rw [hostCount, h]
    exact Nat.pow_le_pow_right (by decide) (Nat.sub_le _ _)
  have hcount : (2 : Int) ^ (8 * ipnet.ip.bytes.length - ipnet.ones) =
      hostCount ipnet.ones ipnet.ip.bytes := by
    rw [hostCount]
    push_cast
    rfl
  rw [total, hcount]
  exact Int.bmod_eq_of_le (by omega) (by omega)

theorem covers_of_new {ipnet : IPNet} {size : Int} {pool : Pool}
    (hnew : new ipnet size = some (.ok pool)) (hlength : ipnet.ip.bytes.length = 4)
    (hmasked : maskBytes ipnet.ones ipnet.ip.bytes = ipnet.ip.bytes) : Covers ipnet pool := by
  have hspread := spread_of_new hnew
  have htotal := total_of_four hlength
  have hcount := hostCount_pos ipnet.ones ipnet.ip.bytes
  have hfits := bytesNat_add_hostCount_le hmasked
  rw [hlength] at hfits
  rcases new_cases hnew with ⟨n, hn, hpos, rfl⟩
  have hnat : n.toNat = bytesNat ipnet.ip.bytes := by
    rcases ipToUint_toNat hlength with ⟨v, hv, hnat⟩
    cases hn.symm.trans hv
    exact hnat
  have hmin : (n + 2).toNat = bytesNat ipnet.ip.bytes + 2 := by
    have htwo : (2 : UInt32).toNat = 2 := rfl
    rw [UInt32.toNat_add, hnat, htwo, Nat.mod_eq_of_lt (by omega)]
  have hsize : (UInt32.ofInt (total ipnet)).toNat + 2 = hostCount ipnet.ones ipnet.ip.bytes := by
    rw [toNat_ofInt]
    omega
  refine ⟨hlength, hmin, rfl, rfl, ?_, hfits, hostCount_dvd_of_masked hmasked⟩
  rw [hspread, UInt32.toNat_sub_of_le _ _ (UInt32.le_iff_toNat_le.mpr _), UInt32.toNat_one]
  · omega
  · rw [UInt32.toNat_one]
    omega

namespace Covers

variable {ipnet : IPNet} {pool : Pool} {o : UInt32}

theorem gatewayIP_eq (h : Covers ipnet pool) : pool.gatewayIP = pool.address 0 := by
  rw [Pool.gatewayIP, Pool.address, h.gateway, UInt32.add_zero]

theorem bytesNat_address (h : Covers ipnet pool) (ho : o < pool.max - pool.min) :
    bytesNat (pool.address o).bytes = bytesNat ipnet.ip.bytes + 1 + o.toNat := by
  have hlt : o.toNat < (pool.max - pool.min).toNat := UInt32.lt_iff_toNat_lt.mp ho
  have hmin := h.min
  have hspread := h.spread
  have hfits := h.fits
  have hsum : (pool.min + o).toNat = bytesNat ipnet.ip.bytes + 2 + o.toNat := by
    rw [UInt32.toNat_add, hmin, Nat.mod_eq_of_lt (by omega)]
  rw [Pool.address, bytesNat_uintToIP, UInt32.toNat_sub_of_le _ _ (UInt32.le_iff_toNat_le.mpr _), hsum,
    UInt32.toNat_one]
  · omega
  · rw [hsum, UInt32.toNat_one]
    omega

theorem contains_address (h : Covers ipnet pool) (ho : o < pool.max - pool.min) :
    ipnet.contains (pool.address o) = true := by
  have hlt : o.toNat < (pool.max - pool.min).toNat := UInt32.lt_iff_toNat_lt.mp ho
  have hspread := h.spread
  rcases h.masked with ⟨q, hq⟩
  have hcount := hostCount_pos ipnet.ones ipnet.ip.bytes
  rw [IPNet.contains_iff_of_four h.length rfl, h.bytesNat_address ho, hq, Nat.add_assoc,
    Nat.mul_add_div hcount, Nat.div_eq_of_lt (by omega), Nat.mul_div_cancel_left _ hcount, Nat.add_zero]

theorem address_ne_network (h : Covers ipnet pool) (ho : o < pool.max - pool.min) :
    pool.address o ≠ ipnet.ip := by
  intro heq
  have hnat := h.bytesNat_address ho
  rw [heq] at hnat
  omega

theorem address_ne_broadcast (h : Covers ipnet pool)
    (hmasked : maskBytes ipnet.ones ipnet.ip.bytes = ipnet.ip.bytes) (ho : o < pool.max - pool.min) :
    pool.address o ≠ ipnet.broadcast := by
  intro heq
  have hlt : o.toNat < (pool.max - pool.min).toNat := UInt32.lt_iff_toNat_lt.mp ho
  have hspread := h.spread
  have hnat := h.bytesNat_address ho
  have hlast := IPNet.bytesNat_broadcast hmasked
  rw [heq] at hnat
  omega

end Covers

end RuleBaseProxy.FakeIP
