import Mathlib.Algebra.Group.Nat.Defs
import Mathlib.Data.Nat.Log

/-! # Seconds of a `time.Duration`

A duration is a number of nanoseconds. `Seconds` returns it as a `float64`: the
whole seconds and the fraction are added and the sum is rounded to 53 bits. From
`2^24` seconds on the last nanoseconds of a second can round up to the next one.
-/

namespace Go

def second : Nat := 10 ^ 9

/-- The fraction of `d` is so close to one that the sum rounds up. Half a unit in the
last place of `sec` is `2^(log2 sec - 53)`. -/
def RoundsUp (d : Nat) : Prop := (second - d % second) * 2 ^ 53 ≤ second * 2 ^ (d / second).log2

instance (d : Nat) : Decidable (RoundsUp d) := inferInstanceAs (Decidable (_ ≤ _))

def wholeSeconds (d : Nat) : Nat := if RoundsUp d then d / second + 1 else d / second

/-- `uint32(d.Seconds())`, which drops the fraction. A negative number of seconds is
out of range for the conversion; the low bits are what amd64 gives. -/
def uint32Seconds (d : Int) : UInt32 :=
  if 0 ≤ d then UInt32.ofNat (wholeSeconds d.natAbs) else - UInt32.ofNat (wholeSeconds d.natAbs)

theorem second_pos : 0 < second := by decide

theorem div_le_wholeSeconds (d : Nat) : d / second ≤ wholeSeconds d := by
  unfold wholeSeconds
  split <;> omega

theorem wholeSeconds_le (d : Nat) : wholeSeconds d ≤ d / second + 1 := by
  unfold wholeSeconds
  split <;> omega

theorem RoundsUp.of_le {d d' : Nat} (hle : d ≤ d') (hdiv : d / second = d' / second)
    (h : RoundsUp d) : RoundsUp d' := by
  unfold RoundsUp at h ⊢
  rw [← hdiv]
  have hd := Nat.div_add_mod d second
  have hd' := Nat.div_add_mod d' second
  rw [← hdiv] at hd'
  have hmod : second - d' % second ≤ second - d % second := by omega
  exact (Nat.mul_le_mul_right _ hmod).trans h

theorem wholeSeconds_mono {d d' : Nat} (h : d ≤ d') : wholeSeconds d ≤ wholeSeconds d' := by
  rcases (Nat.div_le_div_right (c := second) h).eq_or_lt with heq | hlt
  · unfold wholeSeconds
    by_cases hr : RoundsUp d
    · rw [if_pos hr, if_pos (hr.of_le h heq), heq]
    · rw [if_neg hr, heq]
      split <;> omega
  · have hup := wholeSeconds_le d
    have hdown := div_le_wholeSeconds d'
    omega

/-- Adding whole seconds adds at least as many; rounding only gets coarser. -/
theorem wholeSeconds_add_le (d a : Nat) :
    wholeSeconds d + a ≤ wholeSeconds (d + a * second) := by
  have hdiv : (d + a * second) / second = d / second + a := Nat.add_mul_div_right d a second_pos
  have hmod : (d + a * second) % second = d % second := Nat.add_mul_mod_self_right d a second
  by_cases hr : RoundsUp d
  · have hr' : RoundsUp (d + a * second) := by
      unfold RoundsUp at hr ⊢
      rw [hdiv, hmod]
      have hlog : (d / second).log2 ≤ (d / second + a).log2 := by
        rw [Nat.log2_eq_log_two, Nat.log2_eq_log_two]
        exact Nat.log_mono_right (Nat.le_add_right _ a)
      exact hr.trans (Nat.mul_le_mul_left _ (Nat.pow_le_pow_right (by decide) hlog))
    rw [wholeSeconds, wholeSeconds, if_pos hr, if_pos hr', hdiv]
    omega
  · have hdown := div_le_wholeSeconds (d + a * second)
    rw [wholeSeconds, if_neg hr]
    omega

/-- A number of seconds less a fraction of one: the second in progress counts unless
the fraction is lost in the rounding. -/
theorem wholeSeconds_sub {n frac : Nat} (hn : n + 1 < 2 ^ 53) (hfrac : frac < second) :
    wholeSeconds ((n + 1) * second - frac) =
      if frac * 2 ^ 53 ≤ second * 2 ^ n.log2 then n + 1 else n := by
  rcases Nat.eq_zero_or_pos frac with rfl | hpos
  · have hexact : ¬ RoundsUp ((n + 1) * second) := by
      unfold RoundsUp
      rw [Nat.mul_mod_left, Nat.mul_div_cancel _ second_pos, Nat.sub_zero, Nat.not_le]
      have hlog : (n + 1).log2 < 53 := (Nat.log2_lt (Nat.succ_ne_zero n)).mpr hn
      exact Nat.mul_lt_mul_of_pos_left (Nat.pow_lt_pow_right (by decide) hlog) second_pos
    rw [Nat.zero_mul, if_pos (Nat.zero_le _), Nat.sub_zero, wholeSeconds, if_neg hexact,
      Nat.mul_div_cancel _ second_pos]
  · have hsplit : (n + 1) * second - frac = n * second + (second - frac) := by
      rw [Nat.add_mul]
      omega
    have hdiv : ((n + 1) * second - frac) / second = n := by
      rw [hsplit, Nat.add_comm, Nat.add_mul_div_right _ _ second_pos,
        Nat.div_eq_of_lt (by omega), Nat.zero_add]
    have hmod : ((n + 1) * second - frac) % second = second - frac := by
      rw [hsplit, Nat.add_comm, Nat.add_mul_mod_self_right, Nat.mod_eq_of_lt (by omega)]
    have hback : second - (second - frac) = frac := by omega
    simp only [wholeSeconds, RoundsUp, hdiv, hmod, hback]

theorem toNat_uint32Seconds {d : Nat} (h : wholeSeconds d < 2 ^ 32) :
    (uint32Seconds d).toNat = wholeSeconds d := by
  rw [uint32Seconds, if_pos (Int.natCast_nonneg d), Int.natAbs_natCast]
  exact UInt32.toNat_ofNat_of_lt h

end Go
