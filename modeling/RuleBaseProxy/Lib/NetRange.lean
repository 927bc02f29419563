import RuleBaseProxy.Lib.NetCIDR

/-! # Networks as intervals

The bytes of an address are a number, the most significant byte first. A mask keeps the
quotient of that number by a power of two, so the addresses of a network are an interval:
from the network address, whose host bits are zero, to the broadcast address, whose host
bits are one.
-/

namespace Go.Net

def bytesNat : List UInt8 → Nat
  | [] => 0
  | b :: bs => b.toNat * 256 ^ bs.length + bytesNat bs

/-- The number of addresses that have the same first `n` bits. -/
def hostCount (n : Nat) (bs : List UInt8) : Nat := 2 ^ (8 * bs.length - n)

theorem bytesNat_lt (bs : List UInt8) : bytesNat bs < 256 ^ bs.length := by
  induction bs with
  | nil => exact Nat.one_pos
  | cons b bs ih =>
      have hb : b.toNat + 1 ≤ 256 := b.toNat_lt
      calc b.toNat * 256 ^ bs.length + bytesNat bs
          < b.toNat * 256 ^ bs.length + 256 ^ bs.length := Nat.add_lt_add_left ih _
        _ = (b.toNat + 1) * 256 ^ bs.length := (Nat.succ_mul _ _).symm
        _ ≤ 256 * 256 ^ bs.length := Nat.mul_le_mul_right _ hb
        _ = 256 ^ (bs.length + 1) := (Nat.pow_succ').symm

theorem bytesNat_injective {bs bs' : List UInt8} (hlength : bs.length = bs'.length)
    (h : bytesNat bs = bytesNat bs') : bs = bs' := by
  induction bs generalizing bs' with
  | nil => exact (List.length_eq_zero_iff.mp hlength.symm).symm
  | cons b bs ih =>
      cases bs' with
      | nil => cases hlength
      | cons b' bs' =>
          have htail : bs.length = bs'.length := Nat.succ.inj hlength
          have hlt := bytesNat_lt bs
          have hlt' := bytesNat_lt bs'
          rw [bytesNat, bytesNat, ← htail] at h
          rw [← htail] at hlt'
          have hpos : 0 < 256 ^ bs.length := Nat.pow_pos (by decide)
          have hhead : b.toNat = b'.toNat := by
            have hdiv := congrArg (· / 256 ^ bs.length) h
            simpa only [Nat.mul_comm _ (256 ^ bs.length), Nat.mul_add_div hpos, Nat.div_eq_of_lt hlt,
              Nat.div_eq_of_lt hlt', Nat.add_zero] using hdiv
          rw [hhead] at h
          rw [UInt8.toNat_inj.mp hhead, ih htail (Nat.add_left_cancel h)]

/-! ## Masks -/

theorem hostCount_pos (n : Nat) (bs : List UInt8) : 0 < hostCount n bs := Nat.two_pow_pos _

theorem hostCount_cons_of_le {n : Nat} (h : 8 ≤ n) (b : UInt8) (bs : List UInt8) :
    hostCount n (b :: bs) = hostCount (n - 8) bs := by
  rw [hostCount, hostCount, List.length_cons]
  congr 1
  omega

theorem hostCount_dvd (n : Nat) (bs : List UInt8) : hostCount n bs ∣ 256 ^ bs.length := by
  have hpow : 256 ^ bs.length = 2 ^ (8 * bs.length) := (Nat.pow_mul 2 8 bs.length).symm
  rw [hpow, hostCount]
  exact Nat.pow_dvd_pow 2 (Nat.sub_le _ _)

theorem hostCount_zero (bs : List UInt8) : hostCount 0 bs = 256 ^ bs.length :=
  Nat.pow_mul 2 8 bs.length

theorem hostCount_cons_of_lt {n : Nat} (h : n < 8) (b : UInt8) (bs : List UInt8) :
    hostCount n (b :: bs) = 256 ^ bs.length * 2 ^ (8 - n) := by
  rw [← hostCount_zero, hostCount, hostCount, ← Nat.pow_add, List.length_cons]
  congr 1
  omega

theorem bytesNat_maskBytes (n : Nat) (bs : List UInt8) :
    bytesNat (maskBytes n bs) = bytesNat bs / hostCount n bs * hostCount n bs := by
  induction bs generalizing n with
  | nil => simp [maskBytes, bytesNat]
  | cons b bs ih =>
      have hlt := bytesNat_lt bs
      have hpos : 0 < 256 ^ bs.length := Nat.pow_pos (by decide)
      rw [maskBytes, bytesNat, bytesNat, length_maskBytes, ih, toNat_maskByte]
      rcases Nat.lt_or_ge n 8 with hn | hn
      · have hzero : n - 8 = 0 := by omega
        rw [hzero, hostCount_zero, Nat.div_eq_of_lt hlt, hostCount_cons_of_lt hn, ← Nat.div_div_eq_div_mul,
          Nat.mul_comm b.toNat, Nat.mul_add_div hpos, Nat.div_eq_of_lt hlt]
        rw [Nat.zero_mul, Nat.add_zero, Nat.add_zero, Nat.mul_assoc, Nat.mul_comm (2 ^ (8 - n))]
      · have hone : 2 ^ (8 - n) = 1 := by rw [Nat.sub_eq_zero_of_le hn, Nat.pow_zero]
        rcases hostCount_dvd (n - 8) bs with ⟨q, hq⟩
        rw [hone, Nat.div_one, Nat.mul_one, hostCount_cons_of_le hn, hq, ← Nat.mul_assoc,
          Nat.mul_comm b.toNat, Nat.mul_assoc, Nat.mul_add_div (hostCount_pos _ _), Nat.add_mul,
          Nat.mul_comm (hostCount _ _)]

theorem maskBytes_eq_iff {n : Nat} {bs bs' : List UInt8} (hlength : bs.length = bs'.length) :
    maskBytes n bs = maskBytes n bs' ↔
      bytesNat bs / hostCount n bs = bytesNat bs' / hostCount n bs := by
  have hcount : hostCount n bs' = hostCount n bs := by rw [hostCount, hostCount, hlength]
  constructor
  · intro h
    have hnat := congrArg bytesNat h
    rw [bytesNat_maskBytes, bytesNat_maskBytes, hcount] at hnat
    exact Nat.eq_of_mul_eq_mul_right (hostCount_pos n bs) hnat
  · intro h
    apply bytesNat_injective
    · rw [length_maskBytes, length_maskBytes, hlength]
    · rw [bytesNat_maskBytes, bytesNat_maskBytes, hcount, h]

/-- The number of a network address is a multiple of the size of the network. -/
theorem hostCount_dvd_of_masked {n : Nat} {bs : List UInt8} (h : maskBytes n bs = bs) :
    hostCount n bs ∣ bytesNat bs := by
  have hnat := bytesNat_maskBytes n bs
  rw [h] at hnat
  exact ⟨_, hnat.trans (Nat.mul_comm _ _)⟩

theorem bytesNat_add_hostCount_le {n : Nat} {bs : List UInt8} (h : maskBytes n bs = bs) :
    bytesNat bs + hostCount n bs ≤ 256 ^ bs.length := by
  have hlt := bytesNat_lt bs
  rcases hostCount_dvd_of_masked h with ⟨q, hq⟩
  rcases hostCount_dvd n bs with ⟨m, hm⟩
  rw [hq, hm] at hlt ⊢
  have hqm : q + 1 ≤ m := Nat.lt_of_mul_lt_mul_left hlt
  exact Nat.mul_le_mul_left _ hqm

/-! ## The broadcast address -/

def fillBytes : Nat → List UInt8 → List UInt8
  | _, [] => []
  | n, b :: bs =>
      let low := 2 ^ (8 - n)
      UInt8.ofNat (b.toNat / low * low + (low - 1)) :: fillBytes (n - 8) bs

theorem length_fillBytes (n : Nat) (bs : List UInt8) : (fillBytes n bs).length = bs.length := by
  induction bs generalizing n with
  | nil => rfl
  | cons b bs ih => rw [fillBytes, List.length_cons, List.length_cons, ih]

theorem toNat_ofNat_fill (b : UInt8) (n : Nat) :
    (UInt8.ofNat (b.toNat / 2 ^ (8 - n) * 2 ^ (8 - n) + (2 ^ (8 - n) - 1))).toNat =
      b.toNat / 2 ^ (8 - n) * 2 ^ (8 - n) + (2 ^ (8 - n) - 1) := by
  rw [UInt8.toNat_ofNat', Nat.mod_eq_of_lt]
  have hdvd : 2 ^ (8 - n) ∣ 2 ^ 8 := Nat.pow_dvd_pow 2 (Nat.sub_le 8 n)
  have hlow : 0 < 2 ^ (8 - n) := Nat.two_pow_pos _
  have hquot : b.toNat / 2 ^ (8 - n) + 1 ≤ 2 ^ 8 / 2 ^ (8 - n) :=
    Nat.div_lt_div_of_lt_of_dvd hdvd b.toNat_lt
  have hmul := Nat.mul_le_mul_right (2 ^ (8 - n)) hquot
  rw [Nat.add_mul, Nat.one_mul, Nat.div_mul_cancel hdvd] at hmul
  omega

theorem bytesNat_fillBytes (n : Nat) (bs : List UInt8) :
    bytesNat (fillBytes n bs) + 1 = bytesNat (maskBytes n bs) + hostCount n bs := by
  induction bs generalizing n with
  | nil => simp [fillBytes, maskBytes, bytesNat, hostCount]
  | cons b bs ih =>
      have htail := ih (n - 8)
      rw [fillBytes, maskBytes, bytesNat, bytesNat, length_maskBytes, length_fillBytes, toNat_maskByte,
        toNat_ofNat_fill, Nat.add_mul, Nat.add_assoc, Nat.add_assoc, htail]
      rcases Nat.lt_or_ge n 8 with hn | hn
      · have hzero : n - 8 = 0 := by omega
        have hlow : 1 ≤ 2 ^ (8 - n) := Nat.one_le_two_pow
        rw [hzero, hostCount_zero, hostCount_cons_of_lt hn, Nat.sub_mul, Nat.one_mul,
          Nat.mul_comm (2 ^ (8 - n)) (256 ^ bs.length)]
        have hge : 256 ^ bs.length ≤ 256 ^ bs.length * 2 ^ (8 - n) := Nat.le_mul_of_pos_right _ hlow
        omega
      · have hone : 2 ^ (8 - n) = 1 := by rw [Nat.sub_eq_zero_of_le hn, Nat.pow_zero]
        rw [hone, hostCount_cons_of_le hn]
        omega

/-! ## Networks -/

namespace IPNet

variable {n : IPNet} {ip : IP}

def broadcast (n : IPNet) : IP :=
  ⟨fillBytes n.ones n.ip.bytes, by rw [length_fillBytes]; exact n.ip.length_bytes⟩

theorem bytesNat_broadcast (h : maskBytes n.ones n.ip.bytes = n.ip.bytes) :
    bytesNat n.broadcast.bytes + 1 = bytesNat n.ip.bytes + hostCount n.ones n.ip.bytes := by
  have hlast := bytesNat_fillBytes n.ones n.ip.bytes
  rw [h] at hlast
  exact hlast

theorem masked_of_parseCIDR {s : Str} (h : parseCIDR s = some n) :
    maskBytes n.ones n.ip.bytes = n.ip.bytes := by
  rw [parseCIDR] at h
  split at h
  · rcases Option.bind_eq_some_iff.mp h with ⟨addr, -, h⟩
    rcases Option.bind_eq_some_iff.mp h with ⟨ones, -, h⟩
    split at h
    · cases h
      exact maskBytes_maskBytes _ _
    · cases h
  · cases h

theorem numberAndMask_of_four (h : n.ip.bytes.length = 4) : n.numberAndMask = (n.ip, n.ones) := by
  have hto4 : n.ip.to4 = some n.ip.bytes := if_pos h
  unfold numberAndMask
  split
  · rename_i b hb
    cases hto4.symm.trans hb
    rw [if_pos h]
  · rename_i hnone
    cases hto4.symm.trans hnone

/-- A network of four bytes contains the addresses with its quotient. -/
theorem contains_iff_of_four (h : n.ip.bytes.length = 4) (hip : ip.bytes.length = 4) :
    n.contains ip = true ↔
      bytesNat ip.bytes / hostCount n.ones n.ip.bytes =
        bytesNat n.ip.bytes / hostCount n.ones n.ip.bytes := by
  have hcanon : ip.canon = ip.bytes := by rw [IP.canon, IP.to4, if_pos hip, Option.getD_some]
  have hcount : hostCount n.ones n.ip.bytes = hostCount n.ones ip.bytes := by
    rw [hostCount, hostCount, h, hip]
  rw [contains, numberAndMask_of_four h, decide_eq_true_eq, hcanon, hcount,
    ← maskBytes_eq_iff (hip.trans h.symm)]
  exact and_iff_right (hip.trans h.symm)

end IPNet

end Go.Net
