import RuleBaseProxy.Common.LinkedLru
import RuleBaseProxy.Lib.CyclicScan
import RuleBaseProxy.Lib.NetRange
import RuleBaseProxy.Lib.PairedRecency
import Mathlib.Data.List.Perm.Subperm

/-! # The fake-ip pool

A pool assigns addresses of a range to hosts. Both directions are entries of one
`LruCache`: the address under the host, the host under the offset of the address.
The cache is the one with its map and its linked list, and drops one entry at a time.
While the range has more offsets than the cache has room for pairs, the pool is a
recency list of pairs of a host and an offset.
-/

namespace RuleBaseProxy.FakeIP

open Go Go.Net Cache Recency

/-- Keys are strings or offsets; both go into one map. -/
inductive Key where
  | host (h : Str)
  | offset (o : UInt32)
  deriving DecidableEq

inductive Value where
  | host (h : Str)
  | ip (ip : IP)
  deriving DecidableEq

structure Pool where
  max : UInt32
  min : UInt32
  gateway : UInt32
  offset : UInt32
  ipnet : IPNet
  /-- The options of the cache, and the cache. -/
  options : Options
  cache : LinkedLru Key Value Unit

/-- `none` where the index is out of range. -/
def ipToUint : List UInt8 → Option UInt32
  | a :: b :: c :: d :: _ =>
      some ((a.toUInt32 <<< 24) + (b.toUInt32 <<< 16) + (c.toUInt32 <<< 8) + d.toUInt32)
  | _ => none

def uintToIP (v : UInt32) : IP :=
  ⟨[(v >>> 24).toUInt8, (v >>> 16).toUInt8, (v >>> 8).toUInt8, v.toUInt8], Or.inl rfl⟩

/-- `New`. The mask of the range is as long as its address; an `int` has 64 bits. -/
def new (ipnet : IPNet) (size : Int) : Option (Except Str Pool) :=
  (ipToUint ipnet.ip.bytes).map fun n =>
    let min := n + 2
    let bits := 8 * ipnet.ip.bytes.length
    let total : Int := Int.bmod (2 ^ (bits - ipnet.ones) - 2) (2 ^ 64)
    if total ≤ 0 then .error (str "ipnet don't have valid ip")
    else
      .ok
        { min := min
          max := min + UInt32.ofInt total - 1
          gateway := min - 1
          offset := 0
          ipnet := ipnet
          options := ⟨0, (Int.bmod (size * 2) (2 ^ 64)).toNat, false, false⟩
          cache := LinkedLru.empty () }

namespace Pool

/-! ## The calls of the cache

`none` is an element of its list without an entry. The entries do not age, so the clock
is not read, and there is no callback. -/

def cacheGet (p : Pool) (key : Key) : Option (Pool × Option Value) :=
  (p.cache.get p.options (fun _ _ world => world) key 0 0).map fun (c, e) =>
    ({ p with cache := c }, e.map (·.value))

def cacheSet (p : Pool) (key : Key) (value : Value) : Option Pool :=
  (p.cache.setWithExpire p.options (fun _ _ world => world) key value
    (LinkedLru.setExpires p.options 0) 0).map fun c => { p with cache := c }

def cacheExist (p : Pool) (key : Key) : Bool := (p.cache.cache key).isSome

/-! ## The methods

`none` is a panic, or a loop that does not end. -/

/-- The loop of `get`; a lap is enough. -/
def scan (p : Pool) (current : UInt32) : Nat → UInt32 → Option UInt32
  | 0, _ => none
  | fuel + 1, offset =>
      let offset := (offset + 1) % (p.max - p.min)
      if offset = current then some offset
      else if !p.cacheExist (.offset offset) then some offset
      else p.scan current fuel offset

def get (p : Pool) (host : Str) : Option (Pool × IP) := do
  -- the remainder by zero
  if p.max - p.min = 0 then none
  else
    let offset ← p.scan p.offset (p.max - p.min).toNat p.offset
    let p := { p with offset := offset }
    let ip := uintToIP (p.min + p.offset - 1)
    let p ← p.cacheSet (.offset p.offset) (.host host)
    some (p, ip)

def offsetOf (p : Pool) (ip : List UInt8) : Option UInt32 :=
  (ipToUint ip).map fun n => n - p.min + 1

/-- A value of the other type fails the type assertion. -/
def lookup (p : Pool) (host : Str) : Option (Pool × IP) := do
  let (p, elm) ← p.cacheGet (.host host)
  match elm with
  | some (.ip ip) =>
      let b ← ip.to4
      let offset ← p.offsetOf b
      let (p, _) ← p.cacheGet (.offset offset)
      some (p, ip)
  | some (.host _) => none
  | none =>
      let (p, ip) ← p.get host
      let p ← p.cacheSet (.host host) (.ip ip)
      some (p, ip)

/-- The address is `none` where its length is neither four nor sixteen. -/
def lookBack (p : Pool) (ip : Option IP) : Option (Pool × Str × Bool) :=
  match ip.bind IP.to4 with
  | none => some (p, [], false)
  | some b => do
      let offset ← p.offsetOf b
      let (p, elm) ← p.cacheGet (.offset offset)
      match elm with
      | some (.host host) =>
          let (p, _) ← p.cacheGet (.host host)
          some (p, host, true)
      | some (.ip _) => none
      | none => some (p, [], false)

def exist (p : Pool) (ip : Option IP) : Option Bool :=
  match ip.bind IP.to4 with
  | none => some false
  | some b => (p.offsetOf b).map fun offset => p.cacheExist (.offset offset)

end Pool

/-! ## Addresses and numbers -/

theorem ipToUint_toNat {b : List UInt8} (h : b.length = 4) :
    ∃ v, ipToUint b = some v ∧ v.toNat = bytesNat b := by
  match b, h with
  | [a, b, c, d], _ =>
      have ha := a.toNat_lt
      have hb := b.toNat_lt
      have hc := c.toNat_lt
      have hd := d.toNat_lt
      refine ⟨_, rfl, ?_⟩
      simp only [bytesNat, List.length_cons, List.length_nil, UInt32.toNat_add, UInt32.toNat_shiftLeft,
        UInt8.toNat_toUInt32, Nat.shiftLeft_eq, UInt32.toNat_ofNat, Nat.reducePow, Nat.reduceMod,
        Nat.reduceAdd]
      omega

theorem bytesNat_uintToIP (v : UInt32) : bytesNat (uintToIP v).bytes = v.toNat := by
  have hlt := v.toNat_lt
  simp only [uintToIP, bytesNat, List.length_cons, List.length_nil, UInt32.toNat_toUInt8,
    UInt32.toNat_shiftRight, Nat.shiftRight_eq_div_pow, UInt32.toNat_ofNat, Nat.reducePow,
    Nat.reduceMod, Nat.reduceAdd]
  omega

theorem ipToUint_uintToIP (v : UInt32) : ipToUint (uintToIP v).bytes = some v := by
  have hlength : (uintToIP v).bytes.length = 4 := rfl
  rcases ipToUint_toNat hlength with ⟨w, hw, hnat⟩
  rw [bytesNat_uintToIP] at hnat
  rw [hw, UInt32.toNat_inj.mp hnat]

theorem uintToIP_to4 (v : UInt32) : (uintToIP v).to4 = some (uintToIP v).bytes := by
  have hlength : (uintToIP v).bytes.length = 4 := rfl
  rw [IP.to4, if_pos hlength]

theorem uintToIP_injective {v w : UInt32} (h : uintToIP v = uintToIP w) : v = w := by
  have hv := ipToUint_uintToIP v
  rw [h, ipToUint_uintToIP] at hv
  exact (Option.some.inj hv).symm

theorem exists_ipToUint {b : List UInt8} (h : b.length = 4) :
    ∃ v, ipToUint b = some v ∧ (uintToIP v).bytes = b := by
  rcases ipToUint_toNat h with ⟨v, hv, hnat⟩
  refine ⟨v, hv, bytesNat_injective h.symm ?_⟩
  rw [bytesNat_uintToIP, hnat]

theorem offsetOf_uintToIP (p : Pool) (o : UInt32) :
    p.offsetOf (uintToIP (p.min + o - 1)).bytes = some o := by
  rw [Pool.offsetOf, ipToUint_uintToIP, Option.map_some, Option.some.injEq]
  grind

theorem exists_offsetOf (p : Pool) {b : List UInt8} (h : b.length = 4) :
    ∃ o, p.offsetOf b = some o ∧ (uintToIP (p.min + o - 1)).bytes = b := by
  rcases exists_ipToUint h with ⟨v, hv, hbytes⟩
  refine ⟨v - p.min + 1, by rw [Pool.offsetOf, hv, Option.map_some], ?_⟩
  have hback : p.min + (v - p.min + 1) - 1 = v := by grind
  rw [hback, hbytes]

theorem exists_offsetOf_to4 (p : Pool) {ip : Option IP} {b : List UInt8}
    (h : ip.bind IP.to4 = some b) :
    ∃ o, p.offsetOf b = some o ∧ (uintToIP (p.min + o - 1)).bytes = b := by
  rcases Option.bind_eq_some_iff.mp h with ⟨ip', -, hto4⟩
  exact exists_offsetOf p (IP.length_of_to4 hto4)

/-! ## The methods on the recency list of the cache -/

namespace Pool

variable {p : Pool} {l : RecencyList Key (Value × Int)} {key : Key} {host : Str} {o : UInt32}

theorem cacheGet_of_none (hage : p.options.maxAge = 0) (h : p.cache.Refines l)
    (hfind : l.find key = none) : p.cacheGet key = some (p, none) := by
  rcases h.get (Or.inl hage) (fun _ _ world => world) key 0 0 with ⟨-, -, hget⟩ | ⟨c, v, x, hsome, -⟩
  · rw [cacheGet, hget]
    rfl
  · rw [hfind] at hsome
    cases hsome

theorem cacheGet_eq (hage : p.options.maxAge = 0) (h : p.cache.Refines l) (key : Key) :
    ∃ c, p.cacheGet key = some ({ p with cache := c }, (l.find key).map Prod.fst) ∧
      c.Refines (l.access key) := by
  cases hfind : l.find key with
  | none =>
      exact ⟨p.cache, cacheGet_of_none hage h hfind, by rwa [RecencyList.access_of_find_none hfind]⟩
  | some w =>
      have hexpires : LinkedLru.getExpires p.options 0 w.2 = w.2 := by
        rw [LinkedLru.getExpires, hage]
        simp
      rcases h.get (Or.inl hage) (fun _ _ world => world) key 0 0 with
        ⟨-, hnone, -⟩ | ⟨c, v, x, hsome, hget, href, -⟩
      · rw [hfind] at hnone
        cases hnone
      · cases hfind.symm.trans hsome
        rw [hexpires] at hget href
        refine ⟨c, ?_, by rwa [RecencyList.access_of_find hfind]⟩
        rw [cacheGet, hget]
        rfl

theorem cacheSet_eq (hage : p.options.maxAge = 0) (h : p.cache.Refines l) (key : Key)
    (value : Value) :
    ∃ c, p.cacheSet key value = some { p with cache := c } ∧
      c.Refines (l.insert p.options.maxSize key (value, 0)) := by
  have hexpires : LinkedLru.setExpires p.options 0 = 0 := by
    rw [LinkedLru.setExpires, hage]
    simp
  rcases h.setWithExpire_insert (Or.inl hage) (fun _ _ world => world) key value 0 0 with
    ⟨c, hset, href⟩
  refine ⟨c, ?_, href⟩
  rw [cacheSet, hexpires, hset]
  rfl

theorem cacheExist_eq_false_iff (h : p.cache.Refines l) :
    p.cacheExist key = false ↔ l.find key = none := by
  rw [RecencyList.find_eq_none_iff, ← h.isSome_iff, cacheExist, Bool.not_eq_true]

/-! ### Looking for a free offset -/

theorem toNat_next {m offset : UInt32} (h : offset < m) :
    ((offset + 1) % m).toNat = (offset.toNat + 1) % m.toNat := by
  have hlt : offset.toNat < m.toNat := UInt32.lt_iff_toNat_lt.mp h
  have hm := m.toNat_lt
  have hsum : (offset + 1).toNat = offset.toNat + 1 := by
    rw [UInt32.toNat_add, UInt32.toNat_one, Nat.mod_eq_of_lt (by omega)]
  rw [UInt32.toNat_mod, hsum]

theorem scan_eq_find? (hm : 0 < p.max - p.min) (current : UInt32) (fuel : Nat) {offset : UInt32}
    (hoffset : offset < p.max - p.min) :
    p.scan current fuel offset =
      ((CyclicScan.walk (p.max - p.min).toNat fuel offset.toNat).find? fun x =>
        x == current.toNat || !p.cacheExist (.offset (UInt32.ofNat x))).map UInt32.ofNat := by
  induction fuel generalizing offset with
  | zero => rfl
  | succ fuel ih =>
      have hnext := toNat_next hoffset
      have hlt : (offset + 1) % (p.max - p.min) < p.max - p.min := UInt32.mod_lt _ hm
      have hback : UInt32.ofNat ((offset + 1) % (p.max - p.min)).toNat =
          (offset + 1) % (p.max - p.min) := UInt32.ofNat_toNat
      rw [Pool.scan, CyclicScan.walk, ← hnext, List.find?_cons, hback]
      generalize (offset + 1) % (p.max - p.min) = next at hlt hback ⊢
      by_cases hcurrent : next = current
      · rw [if_pos hcurrent, hcurrent, beq_self_eq_true, Bool.true_or]
        simp only [Option.map_some, UInt32.ofNat_toNat]
      · have hne : (next.toNat == current.toNat) = false := by
          rw [beq_eq_false_iff_ne, ne_eq, UInt32.toNat_inj]
          exact hcurrent
        rw [if_neg hcurrent, hne, Bool.false_or]
        cases hexist : p.cacheExist (.offset next) with
        | false => simp only [Bool.not_false, if_true, Option.map_some, hback]
        | true =>
            simp only [Bool.not_true, Bool.false_eq_true, if_false]
            exact ih hlt

/-- The loop of `get` ends at a free offset; if there is none, where it began. -/
theorem scan_spec (h : p.offset < p.max - p.min) :
    ∃ o, p.scan p.offset (p.max - p.min).toNat p.offset = some o ∧ o < p.max - p.min ∧
      (p.cacheExist (.offset o) = false ∨
        o = p.offset ∧ ∀ x, x < p.max - p.min → p.cacheExist (.offset x) = true) := by
  have hlt : p.offset.toNat < (p.max - p.min).toNat := UInt32.lt_iff_toNat_lt.mp h
  have hm : 0 < p.max - p.min := by
    rw [UInt32.lt_iff_toNat_lt, UInt32.toNat_zero]
    omega
  have hscan : p.scan p.offset (p.max - p.min).toNat p.offset =
      ((CyclicScan.lap (p.max - p.min).toNat p.offset.toNat).find? fun x =>
        x == p.offset.toNat || !p.cacheExist (.offset (UInt32.ofNat x))).map UInt32.ofNat :=
    scan_eq_find? hm p.offset _ h
  by_cases hgood : ∃ x, x < (p.max - p.min).toNat ∧
      (!p.cacheExist (.offset (UInt32.ofNat x))) = true
  · rcases CyclicScan.exists_find?_lap_or_start hlt hgood with ⟨y, hfind, hy, hstop⟩
    refine ⟨UInt32.ofNat y, by rw [hscan, hfind, Option.map_some], ?_, Or.inl (by simpa using hstop)⟩
    have hsmall : y < 2 ^ 32 := Nat.lt_trans hy (p.max - p.min).toNat_lt
    rw [UInt32.lt_iff_toNat_lt, UInt32.toNat_ofNat', Nat.mod_eq_of_lt hsmall]
    exact hy
  · have hbad : ∀ x, x < (p.max - p.min).toNat →
        (!p.cacheExist (.offset (UInt32.ofNat x))) = false := by
      intro x hx
      rw [← Bool.not_eq_true]
      exact fun hx' => hgood ⟨x, hx, hx'⟩
    refine ⟨p.offset, ?_, h, Or.inr ⟨rfl, fun x hx => ?_⟩⟩
    · rw [hscan, CyclicScan.find?_lap_eq_start hlt hbad, Option.map_some, UInt32.ofNat_toNat]
    · have hnot := hbad x.toNat (UInt32.lt_iff_toNat_lt.mp hx)
      rwa [UInt32.ofNat_toNat, Bool.not_eq_false'] at hnot

/-! ### Lookup -/

/-- A host that has an address gets it again. Both entries are used. -/
theorem lookup_of_find (hage : p.options.maxAge = 0) (h : p.cache.Refines l) {x : Int}
    (hfind : l.find (.host host) = some (.ip (uintToIP (p.min + o - 1)), x)) :
    ∃ c, p.lookup host = some ({ p with cache := c }, uintToIP (p.min + o - 1)) ∧
      c.Refines ((l.access (.host host)).access (.offset o)) := by
  rcases cacheGet_eq hage h (.host host) with ⟨c₁, hget₁, href₁⟩
  rcases cacheGet_eq (p := { p with cache := c₁ }) hage href₁ (.offset o) with ⟨c₂, hget₂, href₂⟩
  refine ⟨c₂, ?_, href₂⟩
  have hof := offsetOf_uintToIP { p with cache := c₁ } o
  rw [hfind, Option.map_some] at hget₁
  simp only [lookup, hget₁, Option.bind_eq_bind, Option.bind_some, uintToIP_to4]
  rw [hof, Option.bind_some, hget₂]
  rfl

/-- A host without address gets the one where the loop ends. -/
theorem lookup_of_scan (hage : p.options.maxAge = 0) (h : p.cache.Refines l)
    (hfind : l.find (.host host) = none) (hm : p.max - p.min ≠ 0)
    (hscan : p.scan p.offset (p.max - p.min).toNat p.offset = some o) :
    ∃ c, p.lookup host =
        some ({ p with offset := o, cache := c }, uintToIP (p.min + o - 1)) ∧
      c.Refines ((l.insert p.options.maxSize (.offset o) (.host host, 0)).insert p.options.maxSize
        (.host host) (.ip (uintToIP (p.min + o - 1)), 0)) := by
  have hget := cacheGet_of_none hage h hfind
  rcases cacheSet_eq (p := { p with offset := o }) hage h (.offset o) (.host host) with
    ⟨c₁, hset₁, href₁⟩
  rcases cacheSet_eq (p := { p with offset := o, cache := c₁ }) hage href₁ (.host host)
    (.ip (uintToIP (p.min + o - 1))) with ⟨c₂, hset₂, href₂⟩
  have hgetScan : p.get host = some ({ p with offset := o, cache := c₁ }, uintToIP (p.min + o - 1)) := by
    simp only [Pool.get, if_neg hm, hscan, Option.bind_eq_bind, Option.bind_some, hset₁]
  refine ⟨c₂, ?_, href₂⟩
  simp only [lookup, hget, Option.bind_eq_bind, Option.bind_some, hgetScan, hset₂]

end Pool

/-! ## The pool as a recency list of pairs -/

def halves (min : UInt32) : Halves Key (Value × Int) Str UInt32 where
  leftKey := .host
  rightKey := .offset
  leftContent _ o := (.ip (uintToIP (min + o - 1)), 0)
  rightContent h _ := (.host h, 0)
  left_inj h := Key.host.inj h
  right_inj h := Key.offset.inj h
  disjoint := nofun

/-- The pool stands for these pairs. Its cache has room for `n` of them, or has no limit
and `n` is out of reach. -/
structure Assigns (n : Nat) (p : Pool) (ps : RecencyList Str UInt32) : Prop where
  maxAge : p.options.maxAge = 0
  maxSize : p.options.maxSize = 2 * n ∨ p.options.maxSize = 0 ∧ 2 ^ 33 ≤ n
  entries : ∃ l, p.cache.Refines l ∧ Paired (halves p.min) l ps
  pos : 0 < n
  length : ps.entries.length ≤ n
  offset : p.offset < p.max - p.min

structure Represents (n : Nat) (p : Pool) (ps : RecencyList Str UInt32) : Prop where
  options : p.options = ⟨0, 2 * n, false, false⟩
  entries : ∃ l, p.cache.Refines l ∧ Paired (halves p.min) l ps
  pos : 0 < n
  length : ps.entries.length ≤ n
  room : n < (p.max - p.min).toNat
  offset : p.offset < p.max - p.min

def Represents.Free (ps : RecencyList Str UInt32) (o : UInt32) : Prop :=
  ∀ host, ps.find host ≠ some o

namespace Assigns

open Represents (Free)

variable {n : Nat} {p : Pool} {ps : RecencyList Str UInt32} {host : Str} {o : UInt32}

theorem nonzero (h : Assigns n p ps) : p.max - p.min ≠ 0 := by
  intro hzero
  have hlt := h.offset
  rw [hzero, UInt32.lt_iff_toNat_lt, UInt32.toNat_zero] at hlt
  omega

theorem length_lt (h : Assigns n p ps) : ps.entries.length ≤ 2 ^ 32 := by
  rcases h.entries with ⟨l, -, hpaired⟩
  have hnodup : (ps.entries.map fun e => e.2.toNat).Nodup := by
    have hmap := hpaired.rights.map (f := UInt32.toNat) fun a b hab => UInt32.toNat_inj.mp hab
    rwa [List.map_map] at hmap
  have hsub : (ps.entries.map fun e => e.2.toNat) ⊆ List.range (2 ^ 32) := by
    intro x hx
    rcases List.mem_map.mp hx with ⟨e, -, rfl⟩
    exact List.mem_range.mpr e.2.toNat_lt
  have hle := (hnodup.subperm hsub).length_le
  rwa [List.length_map, List.length_range] at hle

theorem cacheExist_offset (h : Assigns n p ps) :
    p.cacheExist (.offset o) = false ↔ Free ps o := by
  rcases h.entries with ⟨l, href, hpaired⟩
  rw [Pool.cacheExist_eq_false_iff href]
  constructor
  · intro hnone host hfind
    have hsome : l.find (.offset o) = some (.host host, 0) :=
      hpaired.find_right_iff.mpr ⟨host, hfind, rfl⟩
    rw [hnone] at hsome
    cases hsome
  · intro hfree
    exact hpaired.find_right_eq_none hfree

/-- Where there are more offsets than pairs, one is free. -/
theorem exists_free (h : Assigns n p ps) (hlt : ps.entries.length < (p.max - p.min).toNat) :
    ∃ x, x < p.max - p.min ∧ p.cacheExist (.offset x) = false := by
  by_contra hnone
  have hused : ∀ x, x < (p.max - p.min).toNat → x ∈ ps.entries.map (fun e => e.2.toNat) := by
    intro x hx
    have hlt : x < 2 ^ 32 := Nat.lt_trans hx (p.max - p.min).toNat_lt
    have hof : (UInt32.ofNat x).toNat = x := by
      rw [UInt32.toNat_ofNat', Nat.mod_eq_of_lt hlt]
    by_contra hmem
    refine hnone ⟨UInt32.ofNat x, UInt32.lt_iff_toNat_lt.mpr (by rwa [hof]), ?_⟩
    rw [h.cacheExist_offset]
    intro host hfind
    exact hmem (List.mem_map.mpr ⟨_, RecencyList.find_eq_some_iff.mp hfind, hof⟩)
  have hsub : List.range (p.max - p.min).toNat ⊆ ps.entries.map (fun e => e.2.toNat) :=
    fun x hx => hused x (List.mem_range.mp hx)
  have hle := (List.Nodup.subperm List.nodup_range hsub).length_le
  rw [List.length_range, List.length_map] at hle
  omega

theorem withCache (h : Assigns n p ps) {ps' : RecencyList Str UInt32}
    {c : LinkedLru Key Value Unit} {l : RecencyList Key (Value × Int)} (href : c.Refines l)
    (hpaired : Paired (halves p.min) l ps') (hlength : ps'.entries.length ≤ n) {offset : UInt32}
    (hoffset : offset < p.max - p.min) :
    Assigns n { p with offset := offset, cache := c } ps' :=
  ⟨h.maxAge, h.maxSize, ⟨l, href, hpaired⟩, h.pos, hlength, hoffset⟩

/-- A host that has an address gets it again, and the pair becomes the most recent one. -/
theorem lookup_hit (h : Assigns n p ps) (hfind : ps.find host = some o) :
    ∃ c, p.lookup host = some ({ p with cache := c }, uintToIP (p.min + o - 1)) ∧
      Assigns n { p with cache := c } (ps.touch host o) := by
  rcases h.entries with ⟨l, href, hpaired⟩
  have hhost : l.find (.host host) = some (.ip (uintToIP (p.min + o - 1)), 0) := by
    have hleft := hpaired.find_left (a := host)
    rw [hfind] at hleft
    exact hleft
  have hoffset : (l.touch (.host host) (.ip (uintToIP (p.min + o - 1)), 0)).find (.offset o) =
      some (.host host, 0) := by
    rw [RecencyList.find_touch_of_ne (show Key.offset o ≠ Key.host host from nofun)]
    exact hpaired.find_right_iff.mpr ⟨host, hfind, rfl⟩
  rcases Pool.lookup_of_find h.maxAge href hhost with ⟨c, hlookup, hrefc⟩
  rw [RecencyList.access_of_find hhost, RecencyList.access_of_find hoffset] at hrefc
  have hlength := RecencyList.length_touch_of_find hfind (b := o)
  exact ⟨c, hlookup,
    h.withCache hrefc (hpaired.touch_left hfind) (Nat.le_trans hlength h.length) h.offset⟩

/-- The limit of the cache does not matter to what two writes do. -/
theorem insert_insert_eq (h : Assigns n p ps) {l : RecencyList Key (Value × Int)}
    (hpaired : Paired (halves p.min) l ps) (k k' : Key) (v v' : Value × Int) :
    (l.insert p.options.maxSize k v).insert p.options.maxSize k' v' =
      (l.put (2 * n) k v).put (2 * n) k' v' := by
  have hpos := h.pos
  have hpairs := hpaired.pairs.length
  have hfew := h.length_lt
  have hsucc : (l.put (2 * n) k v).entries.length ≤ l.entries.length + 1 :=
    RecencyList.length_put_le_succ
  have hfirst : l.insert p.options.maxSize k v = l.put (2 * n) k v := by
    apply RecencyList.insert_eq_put (by omega)
    rcases h.maxSize with hmax | ⟨hzero, hfar⟩
    · exact Or.inl hmax
    · exact Or.inr ⟨hzero, by omega⟩
  rw [hfirst]
  apply RecencyList.insert_eq_put (by omega)
  rcases h.maxSize with hmax | ⟨hzero, hfar⟩
  · exact Or.inl hmax
  · exact Or.inr ⟨hzero, by omega⟩

/-- What a host without address gets, and the two entries that are written for it. -/
theorem lookup_of_scan (h : Assigns n p ps) (hfind : ps.find host = none)
    (hscan : p.scan p.offset (p.max - p.min).toNat p.offset = some o) :
    ∃ c l, p.lookup host = some ({ p with offset := o, cache := c }, uintToIP (p.min + o - 1)) ∧
      Paired (halves p.min) l ps ∧ p.cache.Refines l ∧
      c.Refines ((l.put (2 * n) (.offset o) (.host host, 0)).put (2 * n) (.host host)
        (.ip (uintToIP (p.min + o - 1)), 0)) := by
  rcases h.entries with ⟨l, href, hpaired⟩
  have hhost : l.find (.host host) = none := by
    have hleft := hpaired.find_left (a := host)
    rw [hfind] at hleft
    exact hleft
  rcases Pool.lookup_of_scan h.maxAge href hhost h.nonzero hscan with ⟨c, hlookup, hrefc⟩
  rw [h.insert_insert_eq hpaired] at hrefc
  exact ⟨c, l, hlookup, hpaired, href, hrefc⟩

/-- If an offset is free the loop of `get` ends at a free one. -/
theorem exists_scan_free (h : Assigns n p ps)
    (hfree : ∃ x, x < p.max - p.min ∧ p.cacheExist (.offset x) = false) :
    ∃ o, p.scan p.offset (p.max - p.min).toNat p.offset = some o ∧ o < p.max - p.min ∧ Free ps o := by
  rcases Pool.scan_spec h.offset with ⟨o, hscan, hlt, hfree' | ⟨-, htaken⟩⟩
  · exact ⟨o, hscan, hlt, h.cacheExist_offset.mp hfree'⟩
  · rcases hfree with ⟨x, hx, hx'⟩
    rw [htaken x hx] at hx'
    cases hx'

theorem lookup_free (h : Assigns n p ps) (hfind : ps.find host = none)
    (hscan : p.scan p.offset (p.max - p.min).toNat p.offset = some o) (hlt : o < p.max - p.min)
    (hfree : Free ps o) :
    ∃ c, p.lookup host = some ({ p with offset := o, cache := c }, uintToIP (p.min + o - 1)) ∧
      Assigns n { p with offset := o, cache := c } (ps.put n host o) := by
  rcases h.lookup_of_scan hfind hscan with ⟨c, l, hlookup, hpaired, -, hrefc⟩
  have hnew : host ∉ ps.keys := RecencyList.find_eq_none_iff.mp hfind
  exact ⟨c, hlookup, h.withCache hrefc (hpaired.put h.pos h.length hfind hfree)
    (RecencyList.length_put_le hnew h.length) hlt⟩

theorem lookBack_hit (h : Assigns n p ps) {ip : Option IP} {b : List UInt8}
    (hip : ip.bind IP.to4 = some b) (hoffset : p.offsetOf b = some o) (hfind : ps.find host = some o) :
    ∃ c, p.lookBack ip = some ({ p with cache := c }, host, true) ∧
      Assigns n { p with cache := c } (ps.touch host o) := by
  rcases h.entries with ⟨l, href, hpaired⟩
  have hright : l.find (.offset o) = some (.host host, 0) :=
    hpaired.find_right_iff.mpr ⟨host, hfind, rfl⟩
  have hhost : (l.touch (.offset o) (.host host, 0)).find (.host host) =
      some (.ip (uintToIP (p.min + o - 1)), 0) := by
    have hleft := hpaired.find_left (a := host)
    rw [hfind] at hleft
    rw [RecencyList.find_touch_of_ne (show Key.host host ≠ Key.offset o from nofun)]
    exact hleft
  rcases Pool.cacheGet_eq h.maxAge href (.offset o) with ⟨c₁, hget₁, href₁⟩
  rw [RecencyList.access_of_find hright] at href₁
  rcases Pool.cacheGet_eq (p := { p with cache := c₁ }) h.maxAge href₁ (.host host) with
    ⟨c₂, hget₂, href₂⟩
  rw [RecencyList.access_of_find hhost] at href₂
  rw [hright, Option.map_some] at hget₁
  refine ⟨c₂, ?_, ?_⟩
  · simp only [Pool.lookBack, hip, hoffset, hget₁, hget₂, Option.bind_eq_bind, Option.bind_some]
  · have hlength := RecencyList.length_touch_of_find hfind (b := o)
    exact h.withCache href₂ (hpaired.touch_right hfind) (Nat.le_trans hlength h.length) h.offset

theorem lookBack_miss (h : Assigns n p ps) {ip : Option IP} {b : List UInt8}
    (hip : ip.bind IP.to4 = some b) (hoffset : p.offsetOf b = some o) (hfree : Free ps o) :
    p.lookBack ip = some (p, [], false) := by
  rcases h.entries with ⟨l, href, hpaired⟩
  have hget : p.cacheGet (.offset o) = some (p, none) :=
    Pool.cacheGet_of_none h.maxAge href (hpaired.find_right_eq_none hfree)
  simp only [Pool.lookBack, hip, hoffset, hget, Option.bind_eq_bind, Option.bind_some]

/-- `LookBack` finds the host that has the address, and nothing else. -/
theorem lookBack_spec (h : Assigns n p ps) (ip : Option IP) :
    (p.lookBack ip = some (p, [], false)) ∨
      ∃ c host b o, ip.bind IP.to4 = some b ∧ p.offsetOf b = some o ∧ ps.find host = some o ∧
        p.lookBack ip = some ({ p with cache := c }, host, true) ∧
        Assigns n { p with cache := c } (ps.touch host o) := by
  cases hip : ip.bind IP.to4 with
  | none => exact Or.inl (by simp only [Pool.lookBack, hip])
  | some b =>
      rcases exists_offsetOf_to4 p hip with ⟨o, hoffset, -⟩
      by_cases hfree : Free ps o
      · exact Or.inl (h.lookBack_miss hip hoffset hfree)
      · rw [Free, not_forall] at hfree
        rcases hfree with ⟨host, hfind⟩
        rw [ne_eq, not_not] at hfind
        rcases h.lookBack_hit hip hoffset hfind with ⟨c, hlookBack, hassigns⟩
        exact Or.inr ⟨c, host, b, o, rfl, hoffset, hfind, hlookBack, hassigns⟩

end Assigns

theorem exist_ne_none (p : Pool) (ip : Option IP) : ∃ found, p.exist ip = some found := by
  cases hip : ip.bind IP.to4 with
  | none => exact ⟨false, by simp only [Pool.exist, hip]⟩
  | some b =>
      rcases exists_offsetOf_to4 p hip with ⟨o, hoffset, -⟩
      exact ⟨p.cacheExist (.offset o), by simp only [Pool.exist, hip, hoffset, Option.map_some]⟩

/-! ### With more offsets than room -/

namespace Represents

variable {n : Nat} {p : Pool} {ps : RecencyList Str UInt32} {host : Str} {o : UInt32}

theorem assigns (h : Represents n p ps) : Assigns n p ps :=
  ⟨by rw [h.options], Or.inl (by rw [h.options]), h.entries, h.pos, h.length, h.offset⟩

theorem of_assigns (h : Represents n p ps) {ps' : RecencyList Str UInt32}
    {c : LinkedLru Key Value Unit} {offset : UInt32}
    (ha : Assigns n { p with offset := offset, cache := c } ps') :
    Represents n { p with offset := offset, cache := c } ps' :=
  ⟨h.options, ha.entries, h.pos, ha.length, h.room, ha.offset⟩

/-- After `Lookup` the host has the address that was returned. -/
theorem lookup_spec (h : Represents n p ps) (host : Str) :
    ∃ p' ps' o, p.lookup host = some (p', uintToIP (p'.min + o - 1)) ∧ Represents n p' ps' ∧
      ps'.find host = some o := by
  cases hfind : ps.find host with
  | some o =>
      rcases h.assigns.lookup_hit hfind with ⟨c, hlookup, ha⟩
      exact ⟨_, _, o, hlookup, h.of_assigns ha, RecencyList.find_touch_self⟩
  | none =>
      have hlength := h.length
      have hroom := h.room
      rcases h.assigns.exists_scan_free (h.assigns.exists_free (by omega)) with
        ⟨o, hscan, hlt, hfree⟩
      rcases h.assigns.lookup_free hfind hscan hlt hfree with ⟨c, hlookup, ha⟩
      exact ⟨_, _, o, hlookup, h.of_assigns ha, RecencyList.find_put_self h.pos⟩

end Represents

/-! ## Whole runs -/

inductive Call where
  | lookup (host : Str)
  | lookBack (ip : Option IP)
  | exist (ip : Option IP)

def call (p : Pool) : Call → Option Pool
  | .lookup host => (p.lookup host).map (·.1)
  | .lookBack ip => (p.lookBack ip).map (·.1)
  | .exist ip => (p.exist ip).map fun _ => p

def pools : TransitionSystem.System Pool Call := ⟨call⟩

theorem Assigns.exists_call {n : Nat} {p : Pool} {ps : RecencyList Str UInt32} (h : Assigns n p ps)
    (c : Call) (hc : ∀ host, c ≠ .lookup host) :
    ∃ cache ps', FakeIP.call p c = some { p with cache := cache } ∧
      Assigns n { p with cache := cache } ps' := by
  cases c with
  | lookup host => exact absurd rfl (hc host)
  | lookBack ip =>
      rcases h.lookBack_spec ip with hmiss | ⟨cache, host, b, o, -, -, -, hhit, ha⟩
      · exact ⟨p.cache, ps, by rw [FakeIP.call, hmiss, Option.map_some], h⟩
      · exact ⟨cache, _, by rw [FakeIP.call, hhit, Option.map_some], ha⟩
  | exist ip =>
      rcases exist_ne_none p ip with ⟨found, hexist⟩
      exact ⟨p.cache, ps, by rw [FakeIP.call, hexist, Option.map_some], h⟩

theorem Represents.call {n : Nat} {p : Pool} {ps : RecencyList Str UInt32} (h : Represents n p ps)
    (c : Call) : ∃ p' ps', FakeIP.call p c = some p' ∧ Represents n p' ps' := by
  cases c with
  | lookup host =>
      rcases h.lookup_spec host with ⟨p', ps', o, hlookup, hrep, -⟩
      exact ⟨p', ps', by rw [FakeIP.call, hlookup, Option.map_some], hrep⟩
  | lookBack ip =>
      rcases h.assigns.exists_call (.lookBack ip) nofun with ⟨cache, ps', hcall, ha⟩
      exact ⟨_, ps', hcall, h.of_assigns ha⟩
  | exist ip =>
      rcases h.assigns.exists_call (.exist ip) nofun with ⟨cache, ps', hcall, ha⟩
      exact ⟨_, ps', hcall, h.of_assigns ha⟩

theorem Represents.run {n : Nat} {p : Pool} {ps : RecencyList Str UInt32} (h : Represents n p ps)
    (calls : List Call) : ∃ p' ps', pools.run p calls = some p' ∧ Represents n p' ps' := by
  induction calls generalizing p ps with
  | nil => exact ⟨p, ps, rfl, h⟩
  | cons c calls ih =>
      rcases h.call c with ⟨p₁, ps₁, hcall, hrep⟩
      rcases ih hrep with ⟨p₂, ps₂, hrun, hrep₂⟩
      refine ⟨p₂, ps₂, ?_, hrep₂⟩
      have hstep : pools.step p c = some p₁ := hcall
      rw [TransitionSystem.System.run, hstep, Option.bind_some, hrun]

def total (ipnet : IPNet) : Int :=
  Int.bmod (2 ^ (8 * ipnet.ip.bytes.length - ipnet.ones) - 2) (2 ^ 64)

theorem new_cases {ipnet : IPNet} {size : Int} {pool : Pool} (hnew : new ipnet size = some (.ok pool)) :
    ∃ n, ipToUint ipnet.ip.bytes = some n ∧ 0 < total ipnet ∧
      pool =
        { min := n + 2
          max := n + 2 + UInt32.ofInt (total ipnet) - 1
          gateway := n + 2 - 1
          offset := 0
          ipnet := ipnet
          options := ⟨0, (Int.bmod (size * 2) (2 ^ 64)).toNat, false, false⟩
          cache := LinkedLru.empty () } := by
  rcases Option.map_eq_some_iff.mp hnew with ⟨n, hn, hpool⟩
  dsimp only at hpool
  split at hpool
  · cases hpool
  · rename_i htotal
    refine ⟨n, hn, Int.not_le.mp htotal, ?_⟩
    exact (Except.ok.inj hpool).symm

theorem toNat_ofInt (x : Int) : (UInt32.ofInt x).toNat = (x % 2 ^ 32).toNat := by
  rw [UInt32.ofInt, UInt32.toNat_ofNat']
  omega

theorem spread_of_new {ipnet : IPNet} {size : Int} {pool : Pool}
    (hnew : new ipnet size = some (.ok pool)) :
    pool.max - pool.min = UInt32.ofInt (total ipnet) - 1 := by
  rcases new_cases hnew with ⟨n, -, -, rfl⟩
  grind

theorem offset_lt_of_new {ipnet : IPNet} {size : Int} {pool : Pool}
    (hnew : new ipnet size = some (.ok pool)) : pool.offset < pool.max - pool.min := by
  rcases new_cases hnew with ⟨n, -, htotal, hpool⟩
  have hstart : pool.offset = 0 := by rw [hpool]
  have heven : total ipnet % 2 = 0 := by
    have hmod : total ipnet % 2 = (2 ^ (8 * ipnet.ip.bytes.length - ipnet.ones) - 2) % 2 := by
      rw [total, Int.bmod_def]
      split <;> omega
    rw [hmod]
    cases hbits : 8 * ipnet.ip.bytes.length - ipnet.ones with
    | zero =>
        rw [total, hbits] at htotal
        exact absurd htotal (by decide)
    | succ k =>
        rw [Int.pow_succ]
        omega
  rw [hstart, spread_of_new hnew, UInt32.lt_iff_toNat_lt, UInt32.toNat_zero]
  by_contra hzero
  have hsub : UInt32.ofInt (total ipnet) - 1 = 0 := UInt32.toNat_inj.mp (by simpa using hzero)
  have hone : UInt32.ofInt (total ipnet) = 1 := by grind
  have htoNat := congrArg UInt32.toNat hone
  rw [toNat_ofInt, UInt32.toNat_one] at htoNat
  omega

theorem represents_new {ipnet : IPNet} {size : Int} {pool : Pool}
    (hnew : new ipnet size = some (.ok pool)) (hsize : 1 ≤ size)
    (hroom : size < (pool.max - pool.min).toNat) :
    Represents size.toNat pool RecencyList.empty := by
  have hlt := (pool.max - pool.min).toNat_lt
  have hoffset := offset_lt_of_new hnew
  have hmax : (Int.bmod (size * 2) (2 ^ 64)).toNat = 2 * size.toNat := by
    rw [Int.bmod_eq_of_le (by omega) (by omega)]
    omega
  rcases new_cases hnew with ⟨n, -, -, rfl⟩
  refine ⟨?_, ⟨RecencyList.empty, LinkedLru.refines_empty (), Paired.empty⟩, by omega,
    Nat.zero_le _, by omega, hoffset⟩
  simp only [hmax]

/-- Also where the cache has room for more pairs than there are offsets, or no limit. -/
theorem exists_assigns_new {ipnet : IPNet} {size : Int} {pool : Pool}
    (hnew : new ipnet size = some (.ok pool)) : ∃ n, Assigns n pool RecencyList.empty := by
  have hoffset := offset_lt_of_new hnew
  have heven : (Int.bmod (size * 2) (2 ^ 64)) % 2 = 0 := by
    rw [Int.bmod_def]
    split <;> omega
  rcases new_cases hnew with ⟨n, -, -, rfl⟩
  generalize Int.bmod (size * 2) (2 ^ 64) = limit at heven hoffset ⊢
  rcases Int.lt_or_le 0 limit with hpos | hneg
  · refine ⟨limit.toNat / 2, rfl, Or.inl ?_, ⟨_, LinkedLru.refines_empty (), Paired.empty⟩, ?_,
      Nat.zero_le _, hoffset⟩
    · show limit.toNat = 2 * (limit.toNat / 2)
      omega
    · omega
  · refine ⟨2 ^ 33, rfl, Or.inr ⟨?_, Nat.le_refl _⟩, ⟨_, LinkedLru.refines_empty (), Paired.empty⟩,
      by decide, Nat.zero_le _, hoffset⟩
    show limit.toNat = 0
    omega

def Pool.entry (p : Pool) (key : Key) : Option Value :=
  ((p.cache.cache key).bind p.cache.elems).map (·.value)

theorem Pool.entry_eq {p : Pool} {l : RecencyList Key (Value × Int)} (h : p.cache.Refines l)
    (key : Key) : p.entry key = (l.find key).map Prod.fst := by
  cases hcache : p.cache.cache key with
  | none =>
      have hfind := RecencyList.find_eq_none_iff.mpr (h.notMem_keys_of_cache_none hcache)
      rw [Pool.entry, hcache, hfind]
      rfl
  | some le =>
      rcases h.find_of_cache hcache with ⟨e, he, -, -, hfind⟩
      rw [Pool.entry, hcache, hfind, Option.bind_some, he]
      rfl

namespace Assigns

variable {n : Nat} {p : Pool} {ps : RecencyList Str UInt32}

theorem entry_host (h : Assigns n p ps) (host : Str) :
    p.entry (.host host) = (ps.find host).map fun o => .ip (uintToIP (p.min + o - 1)) := by
  rcases h.entries with ⟨l, href, hpaired⟩
  have hleft : l.find (.host host) = (ps.find host).map ((halves p.min).leftContent host) :=
    hpaired.find_left
  rw [Pool.entry_eq href, hleft, Option.map_map]
  rfl

theorem entry_offset (h : Assigns n p ps) {o : UInt32} {v : Value} :
    p.entry (.offset o) = some v ↔ ∃ host, ps.find host = some o ∧ v = .host host := by
  rcases h.entries with ⟨l, href, hpaired⟩
  have hright : ∀ w, l.find (.offset o) = some w ↔
      ∃ host, ps.find host = some o ∧ w = (.host host, 0) := fun w => hpaired.find_right_iff
  rw [Pool.entry_eq href, Option.map_eq_some_iff]
  constructor
  · intro ⟨w, hw, hv⟩
    rcases (hright w).mp hw with ⟨host, hfind, rfl⟩
    exact ⟨host, hfind, hv.symm⟩
  · intro ⟨host, hfind, hv⟩
    exact ⟨_, (hright _).mpr ⟨host, hfind, rfl⟩, hv.symm⟩

theorem entry_host_inj (h : Assigns n p ps) {host host' : Str} {ip : IP}
    (hentry : p.entry (.host host) = some (.ip ip)) (hentry' : p.entry (.host host') = some (.ip ip)) :
    host = host' := by
  rcases h.entries with ⟨l, -, hpaired⟩
  rw [h.entry_host, Option.map_eq_some_iff] at hentry hentry'
  rcases hentry with ⟨o, hfind, hip⟩
  rcases hentry' with ⟨o', hfind', hip'⟩
  have heq := uintToIP_injective (Value.ip.inj (hip.trans hip'.symm))
  have hsame : o = o' := by grind
  subst hsame
  exact hpaired.left_unique hfind hfind'

end Assigns

/-- The two directions in the cache are inverse to each other, and the methods follow them. -/
structure Bijective (p : Pool) : Prop where
  /-- The halves of a pair are there together. -/
  paired : ∀ (host : Str) (ip : IP) (offset : UInt32), ip.bytes.length = 4 →
    p.offsetOf ip.bytes = some offset →
    (p.entry (.host host) = some (.ip ip) ↔ p.entry (.offset offset) = some (.host host))
  /-- Under a host there is an IPv4 address, under an offset a host. -/
  typed : (∀ host v, p.entry (.host host) = some v → ∃ ip, v = .ip ip ∧ ip.bytes.length = 4) ∧
    ∀ offset v, p.entry (.offset offset) = some v → ∃ host, v = .host host
  distinct : ∀ (host host' : Str) (ip : IP), p.entry (.host host) = some (.ip ip) →
    p.entry (.host host') = some (.ip ip) → host = host'
  lookBack_lookup : ∀ host, ∃ p' ip p'', p.lookup host = some (p', ip) ∧
    p'.lookBack (some ip) = some (p'', host, true)
  /-- `LookBack` succeeds only on an address that is assigned. -/
  assigned : ∀ ip p' host, p.lookBack ip = some (p', host, true) →
    ∃ ip', ip.bind IP.to4 = some ip'.bytes ∧ p.entry (.host host) = some (.ip ip')

namespace Represents

variable {n : Nat} {p : Pool} {ps : RecencyList Str UInt32}

theorem entry_host_iff (h : Represents n p ps) {host : Str} {ip : IP} {offset : UInt32}
    (hlength : ip.bytes.length = 4) (hoffset : p.offsetOf ip.bytes = some offset) :
    p.entry (.host host) = some (.ip ip) ↔ ps.find host = some offset := by
  rcases exists_offsetOf p hlength with ⟨o, ho, hbytes⟩
  cases hoffset.symm.trans ho
  have hip : uintToIP (p.min + offset - 1) = ip := IP.eq_of_bytes_eq hbytes
  rw [h.assigns.entry_host, Option.map_eq_some_iff]
  constructor
  · intro ⟨o, hfind, hvalue⟩
    have heq : uintToIP (p.min + o - 1) = uintToIP (p.min + offset - 1) := by
      rw [hip]
      exact Value.ip.inj hvalue
    have hnum := uintToIP_injective heq
    have hsame : o = offset := by grind
    rwa [hsame] at hfind
  · intro hfind
    exact ⟨offset, hfind, congrArg Value.ip hip⟩

theorem bijective (h : Represents n p ps) : Bijective p := by
  refine ⟨?_, ⟨?_, ?_⟩, ?_, ?_, ?_⟩
  · intro host ip offset hlength hoffset
    rw [h.entry_host_iff hlength hoffset, h.assigns.entry_offset]
    constructor
    · intro hfind
      exact ⟨host, hfind, rfl⟩
    · intro ⟨host', hfind, hvalue⟩
      cases hvalue
      exact hfind
  · intro host v hentry
    rw [h.assigns.entry_host, Option.map_eq_some_iff] at hentry
    rcases hentry with ⟨o, -, rfl⟩
    exact ⟨_, rfl, rfl⟩
  · intro offset v hentry
    rcases h.assigns.entry_offset.mp hentry with ⟨host, -, hvalue⟩
    exact ⟨host, hvalue⟩
  · intro host host' ip hentry hentry'
    exact h.assigns.entry_host_inj hentry hentry'
  · intro host
    rcases h.lookup_spec host with ⟨p', ps', o, hlookup, hrep, hfind⟩
    have hto4 : (some (uintToIP (p'.min + o - 1))).bind IP.to4 =
        some (uintToIP (p'.min + o - 1)).bytes := uintToIP_to4 _
    rcases hrep.assigns.lookBack_hit hto4 (offsetOf_uintToIP p' o) hfind with ⟨c, hlookBack, -⟩
    exact ⟨p', _, _, hlookup, hlookBack⟩
  · intro ip p' host hlookBack
    rcases h.assigns.lookBack_spec ip with hmiss | ⟨c, host₁, b, o, hip, hoffset, hfind, hhit, -⟩
    · rw [hmiss] at hlookBack
      cases hlookBack
    · cases hhit.symm.trans hlookBack
      rcases exists_offsetOf_to4 p hip with ⟨o', ho', hbytes⟩
      cases hoffset.symm.trans ho'
      refine ⟨uintToIP (p.min + o - 1), ?_, ?_⟩
      · rw [hip, hbytes]
      · rw [h.assigns.entry_host, hfind, Option.map_some]

end Represents

/-- A pool with room for fewer hosts than its range has offsets assigns addresses one to one,
after any calls. None of the calls panics or loops. -/
theorem pool_bijective (ipnet : IPNet) (size : Int) (pool : Pool)
    (hnew : new ipnet size = some (.ok pool)) (hsize : 1 ≤ size)
    (hroom : size < (pool.max - pool.min).toNat) (calls : List Call) :
    ∃ p, pools.run pool calls = some p ∧ Bijective p := by
  rcases (represents_new hnew hsize hroom).run calls with ⟨p, ps, hrun, hrep⟩
  exact ⟨p, hrun, hrep.bijective⟩

/-- `192.168.0.0/29`, with room for two hosts. -/
theorem pool_bijective_29 :
    ∃ pool, new ⟨⟨[192, 168, 0, 0], Or.inl rfl⟩, 29⟩ 2 = some (.ok pool) ∧
      (2 : Int) < (pool.max - pool.min).toNat ∧
      ∃ p, pools.run pool [.lookup (str "foo.com"), .lookup (str "baz.com"),
        .lookup (str "foo.com"), .lookup (str "bar.com")] = some p ∧ Bijective p := by
  refine ⟨_, rfl, by decide, ?_⟩
  exact pool_bijective ⟨⟨[192, 168, 0, 0], Or.inl rfl⟩, 29⟩ 2 _ rfl (by decide) (by decide) _

end RuleBaseProxy.FakeIP
