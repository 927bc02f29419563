import RuleBaseProxy.Lib.FloatRound
import RuleBaseProxy.Lib.HostPort
import RuleBaseProxy.Common.Murmur3
import RuleBaseProxy.Constant.Metadata

/-! # Load balancing by consistent hashing

`strategyConsistentHashing` hashes the destination and lets `jumpHash` pick a
bucket. The jumps of a key are computed in `float64` and do not depend on the
number of buckets, which only says where to stop; so a list that grows takes
keys from its old buckets to the new ones and moves none between the old ones.
-/

namespace RuleBaseProxy.OutboundGroup.LoadBalance

open Go Net FloatRound

/-! ## The jumps of a key -/

def float64 (n : Nat) : ℚ := round 53 n

def jump (key : UInt64) (b : Nat) : Nat :=
  ⌊round 53 (float64 (b + 1) * round 53 (float64 (2 ^ 31) / float64 ((key >>> 33).toNat + 1)))⌋₊

/-- The loop of `jumpHash`, so many rounds of it. -/
def jumpLoop (buckets : Int) : Nat → UInt64 → Nat → Nat → Option Nat
  | 0, _, _, _ => none
  | fuel + 1, key, b, j =>
      if (j : Int) < buckets then
        let b := j
        let key := key * 2862933555777941757 + 1
        jumpLoop buckets fuel key b (jump key b)
      else some b

/-- `j` grows in every round and ends at an `int32`. -/
def jumpHash (key : UInt64) (buckets : Int) : Option Nat := jumpLoop buckets (2 ^ 31) key 0 0

theorem float64_eq {n : Nat} (hpos : 0 < n) (hlt : n < 2 ^ 53) : float64 n = n :=
  round_of_fits (by exact_mod_cast hpos) (fits_natCast hlt)

theorem shiftRight_lt (key : UInt64) : (key >>> 33).toNat < 2 ^ 31 := by
  have hlt := key.toNat_lt
  rw [UInt64.toNat_shiftRight, Nat.shiftRight_eq_div_pow]
  exact Nat.div_lt_of_lt_mul (by simpa using hlt)

theorem quotient_bounds (key : UInt64) :
    1 ≤ round 53 (float64 (2 ^ 31) / float64 ((key >>> 33).toNat + 1)) ∧
      round 53 (float64 (2 ^ 31) / float64 ((key >>> 33).toNat + 1)) ≤ 2 ^ 31 := by
  have hkey := shiftRight_lt key
  generalize (key >>> 33).toNat = k at hkey
  rw [float64_eq (by decide) (by decide), float64_eq (Nat.succ_pos k) (by omega)]
  have hk : (0 : ℚ) < (k + 1 : ℕ) := by exact_mod_cast Nat.succ_pos k
  have hle : ((k + 1 : ℕ) : ℚ) ≤ (2 ^ 31 : ℕ) := by exact_mod_cast hkey
  have hone : 1 ≤ ((2 ^ 31 : ℕ) : ℚ) / (k + 1 : ℕ) := by
    rw [le_div_iff₀ hk, one_mul]
    exact hle
  constructor
  · exact le_round (by decide) one_pos (by simpa using fits_natCast (n := 1) (p := 53) (by decide)) hone
  · have hupper : ((2 ^ 31 : ℕ) : ℚ) / (k + 1 : ℕ) ≤ (2 ^ 31 : ℕ) :=
      div_le_self (by positivity) (by exact_mod_cast Nat.succ_pos k)
    exact_mod_cast round_le (by decide) (one_pos.trans_le hone)
      (fits_natCast (n := 2 ^ 31) (p := 53) (by decide)) hupper

theorem lt_jump (key : UInt64) {b : Nat} (hb : b < 2 ^ 31) : b < jump key b := by
  have hquot := (quotient_bounds key).1
  rw [jump, float64_eq (Nat.succ_pos b) (by omega)]
  refine Nat.lt_of_succ_le (Nat.le_floor (le_round (by decide) ?_ (fits_natCast (by omega)) ?_))
  · exact_mod_cast Nat.succ_pos b
  · exact le_mul_of_one_le_right (by positivity) hquot

/-! ## The bucket of a key -/

variable {key : UInt64} {fuel b j : Nat}

theorem jumpLoop_of_le {buckets : Int} (h : buckets ≤ j) :
    jumpLoop buckets (fuel + 1) key b j = some b := by
  rw [jumpLoop, if_neg (not_lt.mpr h)]

theorem jumpLoop_of_lt {buckets : Int} (h : (j : Int) < buckets) :
    jumpLoop buckets (fuel + 1) key b j =
      jumpLoop buckets fuel (key * 2862933555777941757 + 1) j
        (jump (key * 2862933555777941757 + 1) j) := by
  rw [jumpLoop, if_pos h]

def Enough (buckets : Int) (fuel j : Nat) : Prop := 0 < fuel ∧ buckets < j + fuel

theorem Enough.next {buckets : Int} (h : Enough buckets (fuel + 1) j) (hint : buckets < 2 ^ 31)
    (hj : (j : Int) < buckets) (key : UInt64) : Enough buckets fuel (jump key j) := by
  have hlt := lt_jump key (b := j) (by omega)
  unfold Enough at h ⊢
  omega

/-- With rounds enough the loop ends: at `b` or at a later jump, but before `buckets`. -/
theorem exists_jumpLoop (key : UInt64) (b : Nat) {buckets : Int} (hint : buckets < 2 ^ 31) (h : Enough buckets fuel j) :
    ∃ r, jumpLoop buckets fuel key b j = some r ∧
      (buckets ≤ j ∧ r = b ∨ j ≤ r ∧ (r : Int) < buckets) := by
  induction fuel generalizing key b j with
  | zero => exact absurd h.1 (lt_irrefl 0)
  | succ fuel ih =>
      by_cases hj : (j : Int) < buckets
      · rw [jumpLoop_of_lt hj]
        rcases ih _ _ (h.next hint hj _) with ⟨r, hr, hstop | hlater⟩
        · exact ⟨r, hr, Or.inr ⟨hstop.2.ge, by rw [hstop.2]; exact hj⟩⟩
        · have hlt := lt_jump (key * 2862933555777941757 + 1) (b := j) (by omega)
          exact ⟨r, hr, Or.inr ⟨hlt.le.trans hlater.1, hlater.2⟩⟩
      · exact ⟨b, jumpLoop_of_le (not_lt.mp hj), Or.inl ⟨not_lt.mp hj, rfl⟩⟩

/-- Both loops take the same jumps until the one with fewer buckets stops. -/
theorem jumpLoop_of_fewer (key : UInt64) (b : Nat) {m n : Int} (hmn : m ≤ n) (hint : n < 2 ^ 31) (h : Enough n fuel j) :
    ∃ a c, jumpLoop m fuel key b j = some a ∧ jumpLoop n fuel key b j = some c ∧
      (c = a ∨ m ≤ c) := by
  induction fuel generalizing key b j with
  | zero => exact absurd h.1 (lt_irrefl 0)
  | succ fuel ih =>
      by_cases hj : (j : Int) < m
      · rw [jumpLoop_of_lt hj, jumpLoop_of_lt (hj.trans_le hmn)]
        exact ih _ _ (h.next hint (hj.trans_le hmn) _)
      · rw [jumpLoop_of_le (not_lt.mp hj)]
        rcases exists_jumpLoop key b hint h with ⟨c, hc, hstop | hlater⟩
        · exact ⟨b, c, rfl, hc, Or.inl hstop.2⟩
        · exact ⟨b, c, rfl, hc, Or.inr (by omega)⟩

theorem enough_two_pow {buckets : Int} (hint : buckets < 2 ^ 31) : Enough buckets (2 ^ 31) 0 := by
  unfold Enough
  omega

theorem exists_jumpHash (key : UInt64) {buckets : Int} (hpos : 0 < buckets)
    (hint : buckets < 2 ^ 31) :
    ∃ r, jumpHash key buckets = some r ∧ (r : Int) < buckets := by
  rcases exists_jumpLoop key 0 hint (enough_two_pow hint) with ⟨r, hr, hstop | hlater⟩
  · omega
  · exact ⟨r, hr, hlater.2⟩

/-- Every key has a bucket, and when buckets are added it stays or moves to one of the new
ones. -/
theorem jumpHash_consistent (key : UInt64) {m n : Int} (hm : 0 < m) (hmn : m ≤ n)
    (hn : n < 2 ^ 31) :
    ∃ a c, jumpHash key m = some a ∧ jumpHash key n = some c ∧ (a : Int) < m ∧ (c : Int) < n ∧
      (c = a ∨ m ≤ c) := by
  rcases jumpLoop_of_fewer key 0 hmn hn (enough_two_pow hn) with ⟨a, c, ha, hc, hor⟩
  rcases exists_jumpHash key hm (by omega) with ⟨a', ha', hlt⟩
  rcases exists_jumpHash key (hm.trans_le hmn) hn with ⟨c', hc', hlt'⟩
  cases ha.symm.trans ha'
  cases hc.symm.trans hc'
  exact ⟨a, c, ha, hc, hlt, hlt', hor⟩

example : jumpHash 0xdead10cc 666 = some 361 := by decide +kernel

/-! ## The strategy -/

section Strategy

-- `EffectiveTLDPlusOne` of the public suffix list, and of a proxy only `Alive`
variable (effectiveTLDPlusOne : Str → Option Str) {π : Type u} (alive : π → Bool) (proxies : List π)

def getKey (metadata : Metadata) : Str :=
  let dst := match metadata.dstIP with
    | none => []
    | some ip => ip.string
  if metadata.host ≠ [] then
    match parseIP metadata.host with
    | some _ => metadata.host
    | none => (effectiveTLDPlusOne metadata.host).getD dst
  else dst

/-- The retries of `strategyConsistentHashing`; `none` is the panic of an index outside the
list. -/
def consistentLoop (buckets : Int) : Nat → UInt64 → Option π
  | 0, _ => proxies[0]?
  | i + 1, key =>
      (jumpHash key buckets).bind fun idx =>
        (proxies[idx]?).bind fun proxy =>
          if alive proxy then some proxy else consistentLoop buckets i (key + 1)

def maxRetry : Nat := 5

def strategyConsistentHashing (metadata : Metadata) : Option π :=
  let key := (Murmur3.sum32 (getKey effectiveTLDPlusOne metadata)).toUInt64
  let buckets := Int.bmod proxies.length (2 ^ 32)
  consistentLoop alive proxies buckets maxRetry key

variable {alive proxies} {key : UInt64}

theorem bmod_length (hint : proxies.length < 2 ^ 31) :
    Int.bmod proxies.length (2 ^ 32) = proxies.length := by
  rw [Int.bmod_def]
  split <;> omega

theorem exists_probe (hne : proxies ≠ []) (hint : proxies.length < 2 ^ 31) (key : UInt64) :
    ∃ idx p, jumpHash key proxies.length = some idx ∧ proxies[idx]? = some p := by
  have hpos := List.length_pos_of_ne_nil hne
  have hbuckets : (0 : Int) < proxies.length := by omega
  rcases exists_jumpHash key hbuckets (by omega) with ⟨idx, hidx, hlt⟩
  exact ⟨idx, proxies[idx], hidx, List.getElem?_eq_getElem (by omega)⟩

theorem exists_consistentLoop (alive : π → Bool) (hne : proxies ≠ []) (hint : proxies.length < 2 ^ 31) (i : Nat)
    (key : UInt64) : ∃ p ∈ proxies, consistentLoop alive proxies proxies.length i key = some p := by
  induction i generalizing key with
  | zero =>
      rcases List.exists_cons_of_ne_nil hne with ⟨p, rest, rfl⟩
      exact ⟨p, List.mem_cons_self, rfl⟩
  | succ i ih =>
      rcases exists_probe hne hint key with ⟨idx, p, hidx, hp⟩
      rw [consistentLoop, hidx, Option.bind_some, hp, Option.bind_some]
      split
      · exact ⟨p, List.mem_of_getElem? hp, rfl⟩
      · exact ih (key + 1)

/-- The same retries on a list that has grown, with some proxies dead by now: a retry goes to
the same proxy as before or to a new one. -/
theorem consistentLoop_append {alive' : π → Bool} {extra : List π} (hne : proxies ≠ [])
    (hint : (proxies ++ extra).length < 2 ^ 31) (hextra : ∀ p ∈ extra, alive' p = true)
    (hdied : ∀ p ∈ proxies, alive' p = true → alive p = true) (i : Nat) (key : UInt64) :
    consistentLoop alive' (proxies ++ extra) (proxies ++ extra).length i key =
        consistentLoop alive proxies proxies.length i key ∨
      (∃ p ∈ extra, consistentLoop alive' (proxies ++ extra) (proxies ++ extra).length i key =
        some p) ∨
      ∃ p ∈ proxies, consistentLoop alive proxies proxies.length i key = some p ∧
        alive' p = false := by
  have hpos := List.length_pos_of_ne_nil hne
  rw [List.length_append] at hint
  induction i generalizing key with
  | zero => exact Or.inl (List.getElem?_append_left hpos)
  | succ i ih =>
      rcases jumpHash_consistent key (m := proxies.length) (n := (proxies ++ extra).length)
        (by omega) (by rw [List.length_append]; omega) (by rw [List.length_append]; omega) with
        ⟨idx, idx', hidx, hidx', hlt, hlt', hor⟩
      rw [consistentLoop, consistentLoop, hidx, hidx', Option.bind_some, Option.bind_some]
      rw [List.length_append] at hlt'
      rcases hor with rfl | hnew
      · have hold : (proxies ++ extra)[idx']? = proxies[idx']? :=
          List.getElem?_append_left (by omega)
        have hget : proxies[idx']? = some proxies[idx'] := List.getElem?_eq_getElem (by omega)
        have hmem : proxies[idx'] ∈ proxies := List.getElem_mem _
        rw [hold, hget, Option.bind_some, Option.bind_some]
        by_cases halive : alive proxies[idx'] = true
        · rw [if_pos halive]
          by_cases halive' : alive' proxies[idx'] = true
          · exact Or.inl (if_pos halive')
          · exact Or.inr (Or.inr ⟨_, hmem, rfl, Bool.eq_false_iff.mpr halive'⟩)
        · rw [if_neg halive, if_neg (fun h => halive (hdied _ hmem h))]
          exact ih (key + 1)
      · have hget : (proxies ++ extra)[idx']? = some extra[idx' - proxies.length] := by
          rw [List.getElem?_append_right (by omega)]
          exact List.getElem?_eq_getElem (by omega)
        have hmem : extra[idx' - proxies.length] ∈ extra := List.getElem_mem _
        refine Or.inr (Or.inl ⟨_, hmem, ?_⟩)
        rw [hget, Option.bind_some, if_pos (hextra _ hmem)]

/-- A connection has a proxy of the list. When proxies are added at its end, and others have
died, it keeps that proxy unless it is dead by now or gives it up for a new one. -/
theorem strategyConsistentHashing_stable (alive alive' : π → Bool) (proxies extra : List π)
    (metadata : Metadata) (hne : proxies ≠ []) (hint : (proxies ++ extra).length < 2 ^ 31)
    (hextra : ∀ p ∈ extra, alive' p = true)
    (hdied : ∀ p ∈ proxies, alive' p = true → alive p = true) :
    ∃ p ∈ proxies, ∃ q ∈ proxies ++ extra,
      strategyConsistentHashing effectiveTLDPlusOne alive proxies metadata = some p ∧
      strategyConsistentHashing effectiveTLDPlusOne alive' (proxies ++ extra) metadata = some q ∧
      (q = p ∨ q ∈ extra ∨ alive' p = false) := by
  have hint' : proxies.length < 2 ^ 31 := by
    rw [List.length_append] at hint
    omega
  unfold strategyConsistentHashing
  rw [bmod_length hint, bmod_length hint']
  generalize (Murmur3.sum32 (getKey effectiveTLDPlusOne metadata)).toUInt64 = key
  rcases exists_consistentLoop alive hne hint' maxRetry key with ⟨p, hp, hloop⟩
  rcases exists_consistentLoop alive' (List.append_ne_nil_of_left_ne_nil hne extra) hint
    maxRetry key with ⟨q, hq, hloop'⟩
  refine ⟨p, hp, q, hq, hloop, hloop', ?_⟩
  have hcases := consistentLoop_append hne hint hextra hdied maxRetry key
  rw [hloop, hloop'] at hcases
  rcases hcases with hsame | ⟨r, hr, hnew⟩ | ⟨r, -, hold, hdead⟩
  · exact Or.inl (Option.some.inj hsame)
  · exact Or.inr (Or.inl (Option.some.inj hnew ▸ hr))
  · exact Or.inr (Or.inr (Option.some.inj hold ▸ hdead))

end Strategy

/-- One host that moves to the new proxy, and the old one dies. -/
theorem strategyConsistentHashing_stable_four :
    let metadata : Metadata :=
      ⟨.TCP, .SOCKS5, none, none, [], str "443", atypDomainName, str "e.io"⟩
    strategyConsistentHashing some (fun _ => true) [0, 1, 2] metadata = some 2 ∧
      strategyConsistentHashing some (fun n => n != 2) ([0, 1, 2] ++ [3]) metadata = some 3 ∧
      ∃ p ∈ [0, 1, 2], ∃ q ∈ [0, 1, 2] ++ [3],
        strategyConsistentHashing some (fun _ => true) [0, 1, 2] metadata = some p ∧
        strategyConsistentHashing some (fun n => n != 2) ([0, 1, 2] ++ [3]) metadata = some q ∧
        (q = p ∨ q ∈ [3] ∨ (p != 2) = false) :=
  ⟨by decide +kernel, by decide +kernel,
    strategyConsistentHashing_stable some (fun _ => true) (fun n => n != 2) [0, 1, 2] [3] _
      (by decide) (by decide) (by decide) (by decide)⟩

end RuleBaseProxy.OutboundGroup.LoadBalance
