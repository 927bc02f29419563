import RuleBaseProxy.Lib.SegmentedRun
import Mathlib.Algebra.Group.Nat.Defs

/-! # Variable-length numbers

`PutUvarint` and `ReadUvarint` of `encoding/binary`: seven bits a byte, the lowest
first, and the high bit on every byte but the last. The reader takes at most ten
bytes and gives the number back as 64 bits.
-/

namespace Uvarint

open Duplex

/-- `PutUvarint` with room for `k + 1` bytes. -/
def putLoop : Nat → Nat → List UInt8
  | 0, x => [UInt8.ofNat x]
  | k + 1, x => if x < 0x80 then [UInt8.ofNat x] else (UInt8.ofNat x ||| 0x80) :: putLoop k (x / 128)

/-- `binary.PutUvarint` of a `uint64`, which has at most ten bytes. -/
def putUvarint (x : Nat) : List UInt8 := putLoop 9 x

/-- The loop of `ReadUvarint` with `k` bytes to go; `none` is an overflow. The shifts stay
within 64 bits, so that no bit is lost. -/
def readLoop : Nat → Nat → Nat → Prog UInt8 (Option Nat)
  | 0, _, _ => .done none
  | k + 1, x, s =>
      .read 1 fun bs =>
        let b := bs.getD 0 0
        if b < 0x80 then
          if k = 0 ∧ 1 < b then .done none else .done (some (x ||| b.toNat <<< s))
        else readLoop k (x ||| (b &&& 0x7f).toNat <<< s) (s + 7)

def readUvarint : Prog UInt8 (Option Nat) := readLoop 10 0 0

/-! ## The bits of a byte -/

theorem toNat_or_high (x : Nat) : (UInt8.ofNat x ||| 0x80).toNat = x % 128 + 128 := by
  have h : ∀ n < 256, (UInt8.ofNat n ||| 0x80).toNat = n % 128 + 128 := by decide +kernel
  have hx := h (x % 256) (Nat.mod_lt x (by decide))
  rwa [UInt8.ofNat_mod_size, Nat.mod_mod_of_dvd x (by decide)] at hx

theorem toNat_and_low (b : UInt8) : (b &&& 0x7f).toNat = b.toNat % 128 := by
  have h : ∀ n < 256, (UInt8.ofNat n &&& 0x7f).toNat = n % 128 := by decide +kernel
  have hb := h b.toNat b.toNat_lt
  rwa [UInt8.ofNat_toNat] at hb

theorem or_shiftLeft {x s : Nat} (h : x < 2 ^ s) (b : Nat) : x ||| b <<< s = x + 2 ^ s * b := by
  rw [Nat.or_comm, ← Nat.shiftLeft_add_eq_or_of_lt h, Nat.shiftLeft_eq, Nat.mul_comm, Nat.add_comm]

theorem add_mul_lt {x s b : Nat} (hx : x < 2 ^ s) (hb : b < 128) : x + 2 ^ s * b < 2 ^ (s + 7) := by
  have hmul : 2 ^ s * b ≤ 2 ^ s * 127 := Nat.mul_le_mul_left (2 ^ s) (Nat.le_of_lt_succ hb)
  rw [Nat.pow_add]
  omega

/-! ## Reading what was written -/

theorem exec_readLoop_last {k x y s : Nat} (hx : x < 2 ^ s) (hy : y < 128) (hone : k = 0 → y ≤ 1)
    (rest : List UInt8) :
    (readLoop (k + 1) x s).exec (UInt8.ofNat y :: rest) =
      ⟨.done (some (x + 2 ^ s * y)), rest, []⟩ := by
  have hb : (UInt8.ofNat y).toNat = y := by
    rw [UInt8.toNat_ofNat']
    omega
  have hlow : UInt8.ofNat y < 0x80 := by
    rw [UInt8.lt_iff_toNat_lt, hb]
    exact hy
  have hfits : ¬ (k = 0 ∧ 1 < UInt8.ofNat y) := by
    rw [UInt8.lt_iff_toNat_lt, hb]
    exact fun h => Nat.not_lt.mpr (hone h.1) h.2
  rw [← List.singleton_append, readLoop, exec_read_append _ List.length_singleton]
  simp only [List.getD_cons_zero, if_pos hlow, if_neg hfits, exec_done, or_shiftLeft hx, hb]

theorem exec_readLoop_more {k x s : Nat} (hx : x < 2 ^ s) (y : Nat) (rest : List UInt8) :
    (readLoop (k + 1) x s).exec ((UInt8.ofNat y ||| 0x80) :: rest) =
      (readLoop k (x + 2 ^ s * (y % 128)) (s + 7)).exec rest := by
  have hb := toNat_or_high y
  have hhigh : ¬ (UInt8.ofNat y ||| 0x80) < 0x80 := by
    rw [UInt8.lt_iff_toNat_lt, hb]
    simp
  have hbits : ((UInt8.ofNat y ||| 0x80) &&& 0x7f).toNat = y % 128 := by
    rw [toNat_and_low, hb]
    omega
  rw [← List.singleton_append, readLoop, exec_read_append _ List.length_singleton]
  simp only [List.getD_cons_zero, if_neg hhigh, hbits, or_shiftLeft hx]

theorem add_mul_mod_div (x s y : Nat) :
    x + 2 ^ s * (y % 128) + 2 ^ (s + 7) * (y / 128) = x + 2 ^ s * y := by
  rw [Nat.pow_add, Nat.add_assoc, Nat.mul_assoc, ← Nat.mul_add]
  congr 2
  omega

theorem exec_readLoop_putLoop {k x y s : Nat} (hx : x < 2 ^ s) (hy : y < 2 ^ (7 * k + 1))
    (rest : List UInt8) :
    (readLoop (k + 1) x s).exec (putLoop k y ++ rest) = ⟨.done (some (x + 2 ^ s * y)), rest, []⟩ := by
  induction k generalizing x y s with
  | zero =>
      have hsmall : y < 2 := hy
      exact exec_readLoop_last hx (by omega) (fun _ => by omega) rest
  | succ k ih =>
      rw [putLoop]
      split
      · rename_i hlt
        have hone : k + 1 = 0 → y ≤ 1 := fun h => absurd h (Nat.succ_ne_zero k)
        exact exec_readLoop_last hx hlt hone rest
      · have hx' : x + 2 ^ s * (y % 128) < 2 ^ (s + 7) :=
          add_mul_lt hx (Nat.mod_lt y (by decide))
        have hy' : y / 128 < 2 ^ (7 * k + 1) := by
          rw [Nat.div_lt_iff_lt_mul (by decide)]
          rw [show 7 * (k + 1) + 1 = 7 * k + 1 + 7 by omega, Nat.pow_add] at hy
          exact hy
        rw [List.cons_append, exec_readLoop_more hx, ih hx' hy', add_mul_mod_div]

theorem exec_readUvarint_putUvarint {x : Nat} (h : x < 2 ^ 64) (rest : List UInt8) :
    readUvarint.exec (putUvarint x ++ rest) = ⟨.done (some x), rest, []⟩ := by
  have hread := exec_readLoop_putLoop (k := 9) (x := 0) (s := 0) (Nat.one_pos) h rest
  rw [Nat.pow_zero, Nat.one_mul, Nat.zero_add] at hread
  exact hread

/-! ## What is read -/

theorem lt_of_exec_readLoop {k x s v : Nat} {input rest out : List UInt8} (hx : x < 2 ^ s)
    (hs : s + 7 * k = 70) (h : (readLoop k x s).exec input = ⟨.done (some v), rest, out⟩) :
    v < 2 ^ 64 := by
  induction k generalizing x s input with
  | zero => cases h
  | succ k ih =>
      rcases exec_read_done h with ⟨bs, input', -, -, hexec⟩
      simp only at hexec
      split at hexec
      · rename_i hlow
        split at hexec
        · cases hexec
        · rename_i hone
          cases hexec
          rw [or_shiftLeft hx]
          have hb : (bs.getD 0 0).toNat < 128 := UInt8.lt_iff_toNat_lt.mp hlow
          rcases Nat.eq_zero_or_pos k with hk | hk
          · have hle : (bs.getD 0 0).toNat ≤ 1 := by
              rw [UInt8.lt_iff_toNat_lt] at hone
              simpa [hk] using hone
            have hmul := Nat.mul_le_mul_left (2 ^ s) hle
            have hs63 : s = 63 := by omega
            subst hs63
            omega
          · exact Nat.lt_of_lt_of_le (add_mul_lt hx hb)
              (Nat.pow_le_pow_right (by decide) (by omega))
      · refine ih ?_ (by omega) hexec
        rw [or_shiftLeft hx, toNat_and_low]
        exact add_mul_lt hx (Nat.mod_lt _ (by decide))

theorem lt_of_exec_readUvarint {v : Nat} {input rest out : List UInt8}
    (h : readUvarint.exec input = ⟨.done (some v), rest, out⟩) : v < 2 ^ 64 :=
  lt_of_exec_readLoop (x := 0) (s := 0) Nat.one_pos rfl h

end Uvarint
