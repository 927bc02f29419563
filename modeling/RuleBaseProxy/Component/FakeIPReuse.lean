import RuleBaseProxy.Component.FakeIP
import Mathlib.Data.Fintype.EquivFin

/-! # Addresses that are handed out again

When every offset of the range is taken, `get` takes the one where its loop began. The
entry under that offset is overwritten, and the entry under the host that had it stays,
unless it is the next one to be dropped. A run keeps the addresses of the hosts apart as
long as it takes no address in this way from a host that stays in the cache.
-/

namespace RuleBaseProxy.FakeIP

open Go Go.Net Cache Recency

def Distinct (p : Pool) : Prop :=
  ∀ (host host' : Str) (ip : IP), p.entry (.host host) = some (.ip ip) →
    p.entry (.host host') = some (.ip ip) → host = host'

def Pool.oldest (p : Pool) : Option (ListEntry Key Value) :=
  p.cache.lru.head?.bind p.cache.elems

/-- The cache is full, and the oldest of its entries belongs to this offset. -/
def Pool.Outgoing (p : Pool) (o : UInt32) : Prop :=
  p.cache.lru.length = p.options.maxSize ∧
    ∃ e, p.oldest = some e ∧ (e.key = .offset o ∨ e.value = .ip (uintToIP (p.min + o - 1)))

/-- `Lookup` has an address for the host, finds a free one, or takes the one of a host that
goes out of the cache. -/
def Harmless (p : Pool) : Call → Prop
  | .lookup host =>
      (p.entry (.host host)).isSome = true ∨
        (∃ o, o < p.max - p.min ∧ p.cacheExist (.offset o) = false) ∨ p.Outgoing p.offset
  | .lookBack _ => True
  | .exist _ => True

/-! ## The oldest pair -/

theorem Pool.oldest_eq {p : Pool} {l : RecencyList Key (Value × Int)} (h : p.cache.Refines l) :
    p.oldest.map ListEntry.pair = l.entries.head? := by
  rw [← h.entries_eq, LinkedLru.entries, Pool.oldest]
  have hlive := h.live
  cases hlru : p.cache.lru with
  | nil => rfl
  | cons le rest =>
      rcases hlive le (by rw [hlru]; exact List.mem_cons_self) with ⟨e, he, -⟩
      rw [List.head?_cons, Option.bind_some, List.filterMap_cons_some (by rw [he, Option.map_some]),
        List.head?_cons, he, Option.map_some]

namespace Assigns

open Represents (Free)

variable {n : Nat} {p : Pool} {ps : RecencyList Str UInt32} {host : Str} {o : UInt32}

theorem distinct (h : Assigns n p ps) : Distinct p :=
  fun _ _ _ hentry hentry' => h.entry_host_inj hentry hentry'

theorem exists_oldest (h : Assigns n p ps) {x : Str × UInt32} {rest : List (Str × UInt32)}
    (hps : ps.entries = x :: rest) :
    ∃ e, p.oldest = some e ∧
      (e.key = .offset o ∨ e.value = .ip (uintToIP (p.min + o - 1)) ↔ x.2 = o) := by
  rcases h.entries with ⟨l, href, hpaired⟩
  have hpairs := hpaired.pairs
  have holdest := Pool.oldest_eq href
  rw [hps] at hpairs
  generalize l.entries = entries at hpairs holdest
  cases hpairs with
  | leftFirst _ =>
      rcases Option.map_eq_some_iff.mp holdest with ⟨e, he, hpair⟩
      have hkey : e.key = .host x.1 := congrArg Prod.fst hpair
      have hvalue : e.value = .ip (uintToIP (p.min + x.2 - 1)) := congrArg (fun y => y.2.1) hpair
      refine ⟨e, he, ?_⟩
      rw [hkey, hvalue]
      constructor
      · intro hor
        rcases hor with hor | hor
        · cases hor
        · have hnum := uintToIP_injective (Value.ip.inj hor)
          grind
      · intro heq
        exact Or.inr (by rw [heq])
  | rightFirst _ =>
      rcases Option.map_eq_some_iff.mp holdest with ⟨e, he, hpair⟩
      have hkey : e.key = .offset x.2 := congrArg Prod.fst hpair
      have hvalue : e.value = .host x.1 := congrArg (fun y => y.2.1) hpair
      refine ⟨e, he, ?_⟩
      rw [hkey, hvalue]
      constructor
      · intro hor
        rcases hor with hor | hor
        · exact Key.offset.inj hor
        · cases hor
      · intro heq
        exact Or.inl (congrArg Key.offset heq)

theorem length_lru (h : Assigns n p ps) : p.cache.lru.length = 2 * ps.entries.length := by
  rcases h.entries with ⟨l, href, hpaired⟩
  rw [← href.toLinked.length_entries, href.entries_eq, hpaired.pairs.length]

theorem length_lru_eq_iff (h : Assigns n p ps) (hne : ps.entries ≠ []) :
    p.cache.lru.length = p.options.maxSize ↔ ps.entries.length = n := by
  have hpos : 0 < ps.entries.length := List.length_pos_iff.mpr hne
  have hfew := h.length_lt
  rw [h.length_lru]
  rcases h.maxSize with hmax | ⟨hzero, hfar⟩
  · omega
  · omega

theorem outgoing_iff (h : Assigns n p ps) :
    p.Outgoing o ↔ ps.entries.length = n ∧ ∃ host rest, ps.entries = (host, o) :: rest := by
  cases hps : ps.entries with
  | nil =>
      constructor
      · rintro ⟨-, e, he, -⟩
        have hlru := h.length_lru
        rw [hps, List.length_nil, Nat.mul_zero, List.length_eq_zero_iff] at hlru
        rw [Pool.oldest, hlru] at he
        cases he
      · rintro ⟨-, _, _, hcons⟩
        cases hcons
  | cons x rest =>
      have hfull := h.length_lru_eq_iff (by rw [hps]; exact List.cons_ne_nil x rest)
      rcases h.exists_oldest (o := o) hps with ⟨e, he, hof⟩
      rw [hps] at hfull
      rw [Pool.Outgoing, hfull]
      apply and_congr_right
      intro _
      constructor
      · intro ⟨e', he', hof'⟩
        cases he.symm.trans he'
        have hx := hof.mp hof'
        exact ⟨x.1, rest, by rw [← hx]⟩
      · intro ⟨host, rest', hcons⟩
        cases hcons
        exact ⟨e, he, hof.mpr rfl⟩

/-! ## One call -/

theorem isSome_entry_iff (h : Assigns n p ps) :
    (p.entry (.host host)).isSome = true ↔ (ps.find host).isSome = true := by
  rw [h.entry_host, Option.isSome_map]

/-- Without free offset the loop ends where it began, at the offset of some host. -/
theorem scan_taken (h : Assigns n p ps)
    (hfull : ¬ ∃ o, o < p.max - p.min ∧ p.cacheExist (.offset o) = false) :
    p.scan p.offset (p.max - p.min).toNat p.offset = some p.offset ∧
      ∃ host, ps.find host = some p.offset := by
  rcases Pool.scan_spec h.offset with ⟨o, hscan, hlt, hfree | ⟨rfl, htaken⟩⟩
  · exact absurd ⟨o, hlt, hfree⟩ hfull
  · refine ⟨hscan, ?_⟩
    by_contra hnone
    have hfree : Free ps p.offset := fun host hfind => hnone ⟨host, hfind⟩
    exact hfull ⟨p.offset, hlt, h.cacheExist_offset.mpr hfree⟩

theorem exists_lookup_of_exists_free (h : Assigns n p ps) (hfind : ps.find host = none)
    (hfree : ∃ o, o < p.max - p.min ∧ p.cacheExist (.offset o) = false) :
    ∃ p' ip ps', p.lookup host = some (p', ip) ∧ Assigns n p' ps' := by
  rcases h.exists_scan_free hfree with ⟨o, hscan, hlt, hfree'⟩
  rcases h.lookup_free hfind hscan hlt hfree' with ⟨c, hlookup, ha⟩
  exact ⟨_, _, _, hlookup, ha⟩

/-- The host that loses its address is the next one to go. -/
theorem exists_lookup_of_outgoing (h : Assigns n p ps) (hfind : ps.find host = none)
    (hfull : ¬ ∃ o, o < p.max - p.min ∧ p.cacheExist (.offset o) = false)
    (hout : p.Outgoing p.offset) :
    ∃ p' ip ps', p.lookup host = some (p', ip) ∧ Assigns n p' ps' := by
  rcases h.outgoing_iff.mp hout with ⟨hlength, host₀, rest, hps⟩
  rcases h.lookup_of_scan hfind (h.scan_taken hfull).1 with ⟨c, l, hlookup, hpaired, -, href⟩
  have hnew : host ∉ ps.keys := RecencyList.find_eq_none_iff.mp hfind
  refine ⟨_, _, ps.put n host p.offset, hlookup, ?_⟩
  exact h.withCache href (hpaired.put_oldest hps hlength hfind)
    (RecencyList.length_put_le hnew h.length) h.offset

/-- The host that loses its address stays, and so does its entry. -/
theorem exists_lookup_not_distinct (h : Assigns n p ps) (hfind : ps.find host = none)
    (hfull : ¬ ∃ o, o < p.max - p.min ∧ p.cacheExist (.offset o) = false)
    (hout : ¬ p.Outgoing p.offset) :
    ∃ p' ip, p.lookup host = some (p', ip) ∧ ¬ Distinct p' := by
  rcases h.scan_taken hfull with ⟨hscan, host₀, hfind₀⟩
  rcases h.lookup_of_scan hfind hscan with ⟨c, l, hlookup, hpaired, -, href⟩
  have hkeep : ps.entries.length < n ∨ ∃ x rest, ps.entries = x :: rest ∧ x.2 ≠ p.offset := by
    rcases Nat.lt_or_ge ps.entries.length n with hroom | hge
    · exact Or.inl hroom
    · have hlength : ps.entries.length = n := Nat.le_antisymm h.length hge
      have hmem := RecencyList.find_eq_some_iff.mp hfind₀
      cases hps : ps.entries with
      | nil =>
          rw [hps] at hmem
          cases hmem
      | cons x rest =>
          refine Or.inr ⟨x, rest, rfl, fun hx => hout (h.outgoing_iff.mpr ⟨hlength, x.1, rest, ?_⟩)⟩
          rw [hps, ← hx]
  have hold := hpaired.find_left_of_taken hfind₀ hfind hkeep
  refine ⟨_, _, hlookup, fun hdistinct => ?_⟩
  have hentry₀ : Pool.entry { p with offset := p.offset, cache := c } (.host host₀) =
      some (.ip (uintToIP (p.min + p.offset - 1))) := by
    rw [Pool.entry_eq href]
    exact congrArg (Option.map Prod.fst) hold
  have hentry : Pool.entry { p with offset := p.offset, cache := c } (.host host) =
      some (.ip (uintToIP (p.min + p.offset - 1))) := by
    have hpos := h.pos
    rw [Pool.entry_eq href, RecencyList.find_put_self (by omega)]
    rfl
  rw [hdistinct host₀ host _ hentry₀ hentry, hfind] at hfind₀
  cases hfind₀

theorem exists_call_of_harmless (h : Assigns n p ps) {c : Call} (hc : Harmless p c) :
    ∃ p' ps', FakeIP.call p c = some p' ∧ Assigns n p' ps' := by
  cases c with
  | lookup host =>
      cases hfind : ps.find host with
      | some o =>
          rcases h.lookup_hit hfind with ⟨c, hlookup, ha⟩
          exact ⟨_, _, by rw [FakeIP.call, hlookup, Option.map_some], ha⟩
      | none =>
          have hlookup : ∃ p' ip ps', p.lookup host = some (p', ip) ∧ Assigns n p' ps' := by
            by_cases hfree : ∃ o, o < p.max - p.min ∧ p.cacheExist (.offset o) = false
            · exact h.exists_lookup_of_exists_free hfind hfree
            · rcases hc with hsome | hfree' | hout
              · rw [h.isSome_entry_iff, hfind] at hsome
                cases hsome
              · exact absurd hfree' hfree
              · exact h.exists_lookup_of_outgoing hfind hfree hout
          rcases hlookup with ⟨p', ip, ps', hlookup, ha⟩
          exact ⟨p', ps', by rw [FakeIP.call, hlookup, Option.map_some], ha⟩
  | lookBack ip =>
      rcases h.exists_call (.lookBack ip) (by rintro _ ⟨⟩) with ⟨cache, ps', hcall, ha⟩
      exact ⟨_, ps', hcall, ha⟩
  | exist ip =>
      rcases h.exists_call (.exist ip) (by rintro _ ⟨⟩) with ⟨cache, ps', hcall, ha⟩
      exact ⟨_, ps', hcall, ha⟩

theorem exists_call_of_not_harmless (h : Assigns n p ps) {c : Call} (hc : ¬ Harmless p c) :
    ∃ p', FakeIP.call p c = some p' ∧ ¬ Distinct p' := by
  cases c with
  | lookup host =>
      rw [Harmless, not_or, not_or, h.isSome_entry_iff, Bool.not_eq_true, Option.isSome_eq_false_iff,
        Option.isNone_iff_eq_none] at hc
      rcases h.exists_lookup_not_distinct hc.1 hc.2.1 hc.2.2 with ⟨p', ip, hlookup, hnot⟩
      exact ⟨p', by rw [FakeIP.call, hlookup, Option.map_some], hnot⟩
  | lookBack ip => exact absurd trivial hc
  | exist ip => exact absurd trivial hc

end Assigns

/-! ## Whole runs -/

theorem Assigns.always_distinct_iff {n : Nat} {pool : Pool} {ps : RecencyList Str UInt32}
    (hassigns : Assigns n pool ps) (calls : List Call) :
    pools.Always Distinct pool calls ↔ pools.Guarded Harmless pool calls := by
  have hkeep : ∀ p c p', (∃ ps, Assigns n p ps) → Distinct p → pools.step p c = some p' →
      Harmless p c → ∃ ps, Assigns n p' ps := by
    intro p c p' ⟨ps, h⟩ _ hstep hc
    rcases h.exists_call_of_harmless hc with ⟨p₁, ps₁, hcall, ha⟩
    cases hcall.symm.trans hstep
    exact ⟨ps₁, ha⟩
  have hexact : ∀ p c p', (∃ ps, Assigns n p ps) → Distinct p → pools.step p c = some p' →
      (Distinct p' ↔ Harmless p c) := by
    intro p c p' hp hdistinct hstep
    constructor
    · intro hdistinct'
      by_contra hc
      rcases hp with ⟨ps, h⟩
      rcases h.exists_call_of_not_harmless hc with ⟨p₁, hcall, hnot⟩
      cases hcall.symm.trans hstep
      exact hnot hdistinct'
    · intro hc
      rcases hkeep p c p' hp hdistinct hstep hc with ⟨ps', ha⟩
      exact ha.distinct
  exact pools.always_iff_guarded hkeep hexact calls ⟨_, hassigns⟩ hassigns.distinct

/-- The hosts of the cache have distinct addresses, through all the calls, exactly if no
call takes an address from a host that stays in the cache. -/
theorem distinct_always_iff (ipnet : IPNet) (size : Int) (pool : Pool)
    (hnew : new ipnet size = some (.ok pool)) (calls : List Call) :
    pools.Always Distinct pool calls ↔ pools.Guarded Harmless pool calls := by
  rcases exists_assigns_new hnew with ⟨n, hassigns⟩
  exact hassigns.always_distinct_iff calls

/-- One address and room for one host: each new host takes it from the one that goes. -/
theorem distinct_always_of_one :
    ∃ pool, new ⟨⟨[192, 168, 0, 0], Or.inl rfl⟩, 30⟩ 1 = some (.ok pool) ∧
      pools.Always Distinct pool [.lookup (str "foo.com"), .lookup (str "baz.com"),
        .lookup (str "foo.com")] := by
  refine ⟨_, rfl, (distinct_always_iff ⟨⟨[192, 168, 0, 0], Or.inl rfl⟩, 30⟩ 1 _ rfl _).mpr ?_⟩
  apply TransitionSystem.System.Guarded.cons _ rfl
  · exact Or.inr (Or.inl ⟨0, by decide, rfl⟩)
  apply TransitionSystem.System.Guarded.cons _ rfl
  · exact Or.inr (Or.inr ⟨rfl, _, rfl, Or.inl rfl⟩)
  apply TransitionSystem.System.Guarded.cons _ rfl
  · exact Or.inr (Or.inr ⟨rfl, _, rfl, Or.inl rfl⟩)
  trivial

/-- One address and room for ten hosts: the second host gets the address of the first, and
both stay in the cache. -/
theorem lookup_shares_address :
    ∃ pool p, new ⟨⟨[192, 168, 0, 0], Or.inl rfl⟩, 30⟩ 10 = some (.ok pool) ∧
      pools.run pool [.lookup (str "foo.com"), .lookup (str "baz.com")] = some p ∧
      p.entry (.host (str "foo.com")) = some (.ip ⟨[192, 168, 0, 1], Or.inl rfl⟩) ∧
      p.entry (.host (str "baz.com")) = some (.ip ⟨[192, 168, 0, 1], Or.inl rfl⟩) ∧
      ¬ pools.Always Distinct pool [.lookup (str "foo.com"), .lookup (str "baz.com")] := by
  refine ⟨_, _, rfl, rfl, rfl, rfl, ?_⟩
  apply TransitionSystem.System.not_always_of_run
  refine ⟨_, rfl, fun hdistinct => ?_⟩
  have heq := hdistinct (str "foo.com") (str "baz.com") ⟨[192, 168, 0, 1], Or.inl rfl⟩ rfl rfl
  exact absurd heq (by decide)

/-! ## Which pools -/

namespace Assigns

variable {n : Nat} {p : Pool} {ps : RecencyList Str UInt32}

/-- With room for one pair the host that loses its address goes. -/
theorem harmless_of_one (h : Assigns 1 p ps) (c : Call) : Harmless p c := by
  cases c with
  | lookup host =>
      by_cases hfree : ∃ o, o < p.max - p.min ∧ p.cacheExist (.offset o) = false
      · exact Or.inr (Or.inl hfree)
      · refine Or.inr (Or.inr (h.outgoing_iff.mpr ?_))
        rcases (h.scan_taken hfree).2 with ⟨host₀, hfind⟩
        have hmem := RecencyList.find_eq_some_iff.mp hfind
        have hone : ps.entries.length = 1 := Nat.le_antisymm h.length (List.length_pos_of_mem hmem)
        rcases List.length_eq_one_iff.mp hone with ⟨x, hx⟩
        rw [hx, List.mem_singleton] at hmem
        exact ⟨hone, host₀, [], by rw [hx, hmem]⟩
  | lookBack ip => trivial
  | exist ip => trivial

end Assigns

/-- A pool with `i` hosts, none of which has been dropped. -/
structure Filled (n i : Nat) (p : Pool) (ps : RecencyList Str UInt32) : Prop where
  assigns : Assigns n p ps
  length : ps.entries.length = i
  below : ∀ e ∈ ps.entries, e.2 < p.max - p.min
  latest : 0 < i → ∃ rest host, ps.entries = rest ++ [(host, p.offset)]

namespace Filled

variable {n i : Nat} {p : Pool} {ps : RecencyList Str UInt32} {host : Str}

/-- One more host, while there is room for it in the cache and in the range. -/
theorem exists_lookup (h : Filled n i p ps) (hfind : ps.find host = none) (hroom : i < n)
    (hoffsets : i < (p.max - p.min).toNat) :
    ∃ p' ps', FakeIP.call p (.lookup host) = some p' ∧ Filled n (i + 1) p' ps' ∧
      p'.max - p'.min = p.max - p.min := by
  have hlength := h.length
  have hnew : host ∉ ps.keys := RecencyList.find_eq_none_iff.mp hfind
  rcases h.assigns.exists_scan_free (h.assigns.exists_free (by omega)) with ⟨o, hscan, hlt, hfree⟩
  rcases h.assigns.lookup_free hfind hscan hlt hfree with ⟨c, hlookup, ha⟩
  have hentries : (ps.put n host o).entries = ps.entries ++ [(host, o)] :=
    RecencyList.put_entries_of_lt hnew (by omega)
  refine ⟨_, _, by rw [FakeIP.call, hlookup, Option.map_some], ⟨ha, ?_, ?_, ?_⟩, rfl⟩
  · rw [hentries, List.length_append, hlength, List.length_singleton]
  · intro e he
    rw [hentries, List.mem_append, List.mem_singleton] at he
    rcases he with he | rfl
    · exact h.below e he
    · exact hlt
  · intro _
    exact ⟨ps.entries, host, hentries⟩

theorem not_exists_free (h : Filled n i p ps) (hoffsets : i = (p.max - p.min).toNat) :
    ¬ ∃ o, o < p.max - p.min ∧ p.cacheExist (.offset o) = false := by
  rintro ⟨o, ho, hfree⟩
  have hlength := h.length
  rcases h.assigns.entries with ⟨l, -, hpaired⟩
  have hnodup : ((o :: ps.entries.map Prod.snd).map UInt32.toNat).Nodup := by
    refine List.Nodup.map (fun a b hab => UInt32.toNat_inj.mp hab)
      (List.nodup_cons.mpr ⟨?_, hpaired.rights⟩)
    intro hmem
    rcases List.mem_map.mp hmem with ⟨e, he, rfl⟩
    exact h.assigns.cacheExist_offset.mp hfree e.1 (RecencyList.find_eq_some_iff.mpr he)
  have hsub : (o :: ps.entries.map Prod.snd).map UInt32.toNat ⊆
      List.range (p.max - p.min).toNat := by
    intro x hx
    rcases List.mem_map.mp hx with ⟨y, hy, rfl⟩
    rw [List.mem_range, ← UInt32.lt_iff_toNat_lt]
    rcases List.mem_cons.mp hy with rfl | hy
    · exact ho
    · rcases List.mem_map.mp hy with ⟨e, he, rfl⟩
      exact h.below e he
  have hle := (hnodup.subperm hsub).length_le
  rw [List.length_map, List.length_cons, List.length_map, List.length_range] at hle
  omega

/-- The offset assigned last is not the one that goes first. -/
theorem not_outgoing (h : Filled n i p ps) (hpos : 0 < i) (hn : 2 ≤ n) :
    ¬ p.Outgoing p.offset := by
  intro hout
  rcases h.assigns.entries with ⟨l, -, hpaired⟩
  have hrights := hpaired.rights
  rcases h.assigns.outgoing_iff.mp hout with ⟨hfull, host₁, rest₁, hfirst⟩
  rcases h.latest hpos with ⟨rest, host₂, hlast⟩
  cases rest with
  | nil =>
      rw [hlast, List.nil_append, List.length_singleton] at hfull
      omega
  | cons x rest =>
      have heq := hfirst.symm.trans hlast
      rw [List.cons_append, List.cons.injEq] at heq
      rw [hfirst, heq.2, List.map_cons, List.nodup_cons, List.map_append] at hrights
      exact hrights.1 (List.mem_append_right _ List.mem_cons_self)

/-- When every offset is taken, the next host is given the newest address. -/
theorem not_harmless (h : Filled n i p ps) (hfind : ps.find host = none)
    (hoffsets : i = (p.max - p.min).toNat) (hn : 2 ≤ n) : ¬ Harmless p (.lookup host) := by
  have hpos : 0 < i := by
    have hlt := UInt32.lt_iff_toNat_lt.mp h.assigns.offset
    omega
  intro hor
  rcases hor with hsome | hfree | hout
  · rw [h.assigns.isSome_entry_iff, hfind] at hsome
    cases hsome
  · exact h.not_exists_free hoffsets hfree
  · exact h.not_outgoing hpos hn hout

end Filled

theorem exists_fresh (ps : RecencyList Str UInt32) : ∃ host, ps.find host = none := by
  rcases Infinite.exists_notMem_finset ps.keys.toFinset with ⟨host, hhost⟩
  exact ⟨host, RecencyList.find_eq_none_iff.mpr (by simpa using hhost)⟩

theorem run_lookup {pool p p' : Pool} {calls : List Call} {host : Str}
    (hrun : pools.run pool calls = some p) (hcall : call p (.lookup host) = some p') :
    pools.run pool (calls ++ [.lookup host]) = some p' := by
  rw [pools.run_append, hrun, Option.bind_some]
  change (call p (.lookup host)).bind some = some p'
  rw [hcall, Option.bind_some]

theorem exists_filled {n : Nat} {pool : Pool} (h : Assigns n pool RecencyList.empty) (i : Nat)
    (hroom : i ≤ n) (hoffsets : i ≤ (pool.max - pool.min).toNat) :
    ∃ calls p ps, pools.run pool calls = some p ∧ Filled n i p ps ∧
      p.max - p.min = pool.max - pool.min := by
  induction i with
  | zero => exact ⟨[], pool, _, rfl, ⟨h, rfl, nofun, fun hpos => absurd hpos (Nat.lt_irrefl 0)⟩, rfl⟩
  | succ i ih =>
      rcases ih (by omega) (by omega) with ⟨calls, p, ps, hrun, hfilled, hspread⟩
      rcases exists_fresh ps with ⟨host, hfind⟩
      rcases hfilled.exists_lookup hfind hroom (by rw [hspread]; exact hoffsets) with
        ⟨p', ps', hcall, hfilled', hspread'⟩
      exact ⟨calls ++ [.lookup host], p', ps', run_lookup hrun hcall, hfilled',
        hspread'.trans hspread⟩

/-- A pool that has room for more than one host, and for as many as it has offsets, gives an
address twice. -/
theorem exists_not_always_distinct {n : Nat} {pool : Pool} (h : Assigns n pool RecencyList.empty)
    (hn : 2 ≤ n) (hoffsets : (pool.max - pool.min).toNat ≤ n) :
    ∃ calls, ¬ pools.Always Distinct pool calls := by
  rcases exists_filled h _ hoffsets (Nat.le_refl _) with ⟨calls, p, ps, hrun, hfilled, hspread⟩
  rcases exists_fresh ps with ⟨host, hfind⟩
  have hharm := hfilled.not_harmless hfind (by rw [hspread]) hn
  rcases hfilled.assigns.exists_call_of_not_harmless hharm with ⟨p', hcall, hnot⟩
  exact ⟨calls ++ [.lookup host],
    pools.not_always_of_run ⟨p', run_lookup hrun hcall, hnot⟩⟩

/-- The room of a cache is the size of the pool, unless doubling it overflows. -/
theorem Assigns.size_of_new {ipnet : IPNet} {size : Int} {pool : Pool} {n : Nat}
    {ps : RecencyList Str UInt32} (h : Assigns n pool ps) (hnew : new ipnet size = some (.ok pool))
    (hsize : 1 ≤ size) (hint : size < 2 ^ 63) : n = size ∨ 2 ^ 33 ≤ n ∧ 2 ^ 62 ≤ size := by
  rcases new_cases hnew with ⟨v, -, -, hpool⟩
  have hmax : pool.options.maxSize = (Int.bmod (size * 2) (2 ^ 64)).toNat := by rw [hpool]
  have hpos := h.pos
  rcases h.maxSize with heq | ⟨hzero, hfar⟩
  · left
    rw [Int.bmod_def] at hmax
    split at hmax <;> omega
  · refine Or.inr ⟨hfar, ?_⟩
    rw [Int.bmod_def] at hmax
    split at hmax <;> omega

/-- The pools that keep the addresses of their hosts apart whatever the calls: those with room
for fewer hosts than they have offsets, and those with room for one. -/
theorem always_distinct_forall_iff {ipnet : IPNet} {size : Int} {pool : Pool}
    (hnew : new ipnet size = some (.ok pool)) (hsize : 1 ≤ size) (hint : size < 2 ^ 63) :
    (∀ calls, pools.Always Distinct pool calls) ↔
      size < (pool.max - pool.min).toNat ∨ size = 1 := by
  have hlt := (pool.max - pool.min).toNat_lt
  rcases exists_assigns_new hnew with ⟨n, hassigns⟩
  have hn := hassigns.size_of_new hnew hsize hint
  constructor
  · intro hall
    by_contra hnot
    rcases exists_not_always_distinct hassigns (by omega) (by omega) with ⟨calls, hcalls⟩
    exact hcalls (hall calls)
  · intro hor calls
    rcases hor with hroom | hone
    · have hstep : ∀ p c p', (∃ ps, Represents size.toNat p ps) → pools.step p c = some p' →
          ∃ ps, Represents size.toNat p' ps := by
        intro p c p' ⟨ps, h⟩ hstep
        rcases h.call c with ⟨p₁, ps₁, hcall, hrep⟩
        cases hcall.symm.trans hstep
        exact ⟨ps₁, hrep⟩
      have halways := pools.always_of_step hstep calls ⟨_, represents_new hnew hsize hroom⟩
      exact halways.mono _ fun p ⟨ps, h⟩ => h.assigns.distinct
    · have hroom : n = 1 := by omega
      subst hroom
      have hstep : ∀ p c p', (∃ ps, Assigns 1 p ps) → pools.step p c = some p' →
          ∃ ps, Assigns 1 p' ps := by
        intro p c p' ⟨ps, h⟩ hstep
        rcases h.exists_call_of_harmless (h.harmless_of_one c) with ⟨p₁, ps₁, hcall, ha⟩
        cases hcall.symm.trans hstep
        exact ⟨ps₁, ha⟩
      have halways := pools.always_of_step hstep calls ⟨_, hassigns⟩
      exact halways.mono _ fun p ⟨ps, h⟩ => h.distinct

end RuleBaseProxy.FakeIP
