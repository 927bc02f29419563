import Mathlib.Data.Rat.Floor
import Mathlib.Algebra.Order.Field.Power
import Mathlib.Tactic.Linarith
import Mathlib.Tactic.Ring

/-! # Rounding to a number of significant bits

`round p q` is the number of `p` significant bits next to a positive `q`; of two
that are equally near it is the even one. An operation of a binary floating-point
format returns the exact result rounded this way, as long as the exponent stays
in range. What an algorithm needs of it is mostly that it keeps the order and
leaves alone what has few enough bits.
-/

namespace FloatRound

/-! ## The nearest integer -/

def nearestEven (q : ℚ) : ℤ :=
  if q - ⌊q⌋ < 1 / 2 then ⌊q⌋
  else if 1 / 2 < q - ⌊q⌋ then ⌊q⌋ + 1
  else if ⌊q⌋ % 2 = 0 then ⌊q⌋ else ⌊q⌋ + 1

theorem floor_le_nearestEven (q : ℚ) : ⌊q⌋ ≤ nearestEven q := by
  unfold nearestEven
  split_ifs <;> omega

theorem nearestEven_le_floor_add_one (q : ℚ) : nearestEven q ≤ ⌊q⌋ + 1 := by
  unfold nearestEven
  split_ifs <;> omega

@[simp] theorem nearestEven_intCast (n : ℤ) : nearestEven n = n := by
  have hlt : (n : ℚ) - ⌊(n : ℚ)⌋ < 1 / 2 := by
    rw [Int.floor_intCast, sub_self]
    norm_num
  rw [nearestEven, if_pos hlt, Int.floor_intCast]

theorem nearestEven_mono {q r : ℚ} (h : q ≤ r) : nearestEven q ≤ nearestEven r := by
  rcases (Int.floor_mono h).eq_or_lt with heq | hlt
  · unfold nearestEven
    rw [← heq]
    split_ifs <;> first | omega | linarith
  · calc nearestEven q ≤ ⌊q⌋ + 1 := nearestEven_le_floor_add_one q
      _ ≤ ⌊r⌋ := hlt
      _ ≤ nearestEven r := floor_le_nearestEven r

/-! ## The exponent -/

/-- The power of two below `q`. The bits of numerator and denominator leave one doubt. -/
def exponent (q : ℚ) : ℤ :=
  let e : ℤ := (q.num.natAbs.log2 : ℤ) - q.den.log2
  if (2 : ℚ) ^ e ≤ q then e else e - 1

theorem two_zpow_pos (e : ℤ) : (0 : ℚ) < 2 ^ e := zpow_pos (by norm_num) e

theorem two_zpow_lt_iff {d e : ℤ} : (2 : ℚ) ^ d < 2 ^ e ↔ d < e :=
  zpow_lt_zpow_iff_right₀ (by norm_num)

theorem two_zpow_le_iff {d e : ℤ} : (2 : ℚ) ^ d ≤ 2 ^ e ↔ d ≤ e :=
  zpow_le_zpow_iff_right₀ (by norm_num)

theorem two_zpow_log2_le {n : ℕ} (h : n ≠ 0) : (2 : ℚ) ^ (n.log2 : ℤ) ≤ n := by
  rw [zpow_natCast]
  exact_mod_cast Nat.log2_self_le h

theorem lt_two_zpow_log2 (n : ℕ) : (n : ℚ) < 2 ^ ((n.log2 : ℤ) + 1) := by
  have h : n < 2 ^ (n.log2 + 1) := Nat.lt_log2_self
  rw [← Nat.cast_succ, zpow_natCast]
  exact_mod_cast h

variable {q r x : ℚ}

theorem natAbs_num_of_pos (hq : 0 < q) : (q.num.natAbs : ℚ) = q * q.den := by
  have hnum : (q.num.natAbs : ℤ) = q.num := Int.natAbs_of_nonneg (Rat.num_pos.mpr hq).le
  rw [Rat.mul_den_eq_num, ← Int.cast_natCast, hnum]

theorem exponent_spec (hq : 0 < q) : 2 ^ exponent q ≤ q ∧ q < 2 ^ (exponent q + 1) := by
  have hnum : q.num.natAbs ≠ 0 := Int.natAbs_ne_zero.mpr (Rat.num_pos.mpr hq).ne'
  have htwo : (2 : ℚ) ≠ 0 := by norm_num
  have hupper : q < 2 ^ ((q.num.natAbs.log2 : ℤ) - q.den.log2 + 1) := by
    rw [show (q.num.natAbs.log2 : ℤ) - q.den.log2 + 1 = q.num.natAbs.log2 + 1 - q.den.log2 by ring,
      zpow_sub₀ htwo, lt_div_iff₀ (two_zpow_pos _)]
    calc q * 2 ^ (q.den.log2 : ℤ) ≤ q * q.den :=
          mul_le_mul_of_nonneg_left (two_zpow_log2_le q.den_nz) hq.le
      _ = q.num.natAbs := (natAbs_num_of_pos hq).symm
      _ < 2 ^ ((q.num.natAbs.log2 : ℤ) + 1) := lt_two_zpow_log2 _
  have hlower : 2 ^ ((q.num.natAbs.log2 : ℤ) - q.den.log2 - 1) ≤ q := by
    rw [show (q.num.natAbs.log2 : ℤ) - q.den.log2 - 1 = q.num.natAbs.log2 - (q.den.log2 + 1) by ring,
      zpow_sub₀ htwo, div_le_iff₀ (two_zpow_pos _)]
    calc (2 : ℚ) ^ (q.num.natAbs.log2 : ℤ) ≤ q.num.natAbs := two_zpow_log2_le hnum
      _ = q * q.den := natAbs_num_of_pos hq
      _ ≤ q * 2 ^ ((q.den.log2 : ℤ) + 1) := mul_le_mul_of_nonneg_left (lt_two_zpow_log2 _).le hq.le
  unfold exponent
  dsimp only
  split
  case isTrue hle => exact ⟨hle, hupper⟩
  case isFalse hlt => exact ⟨hlower, by rw [sub_add_cancel]; exact not_le.mp hlt⟩

theorem le_exponent_iff (hq : 0 < q) {k : ℤ} : k ≤ exponent q ↔ 2 ^ k ≤ q := by
  constructor
  · intro h
    exact (two_zpow_le_iff.mpr h).trans (exponent_spec hq).1
  · intro h
    exact Int.lt_add_one_iff.mp (two_zpow_lt_iff.mp (h.trans_lt (exponent_spec hq).2))

theorem exponent_mono (hq : 0 < q) (h : q ≤ r) : exponent q ≤ exponent r :=
  (le_exponent_iff (hq.trans_le h)).mpr ((exponent_spec hq).1.trans h)

/-! ## Rounding -/

def lastPlace (p : ℕ) (q : ℚ) : ℚ := 2 ^ (exponent q + 1 - p)

def round (p : ℕ) (q : ℚ) : ℚ := nearestEven (q / lastPlace p q) * lastPlace p q

def Fits (p : ℕ) (q : ℚ) : Prop := ∃ (m : ℕ) (e : ℤ), m < 2 ^ p ∧ q = m * 2 ^ e

variable {p : ℕ}

theorem fits_natCast {n : ℕ} (h : n < 2 ^ p) : Fits p n := ⟨n, 0, h, by rw [zpow_zero, mul_one]⟩

theorem lastPlace_pos (p : ℕ) (q : ℚ) : 0 < lastPlace p q := two_zpow_pos _

theorem round_of_fits (hq : 0 < q) (h : Fits p q) : round p q = q := by
  rcases h with ⟨m, e, hm, rfl⟩
  have hexp : exponent (m * 2 ^ e) + 1 - p ≤ e := by
    have hlt : (m : ℚ) * 2 ^ e < 2 ^ ((p : ℤ) + e) := by
      rw [zpow_add₀ (by norm_num), zpow_natCast]
      exact mul_lt_mul_of_pos_right (by exact_mod_cast hm) (two_zpow_pos e)
    have := two_zpow_lt_iff.mp ((exponent_spec hq).1.trans_lt hlt)
    omega
  rcases Int.eq_ofNat_of_zero_le (sub_nonneg.mpr hexp) with ⟨k, hk⟩
  have hplace : (2 : ℚ) ^ e = 2 ^ k * lastPlace p (m * 2 ^ e) := by
    rw [lastPlace, ← zpow_natCast, ← zpow_add₀ (by norm_num)]
    congr 1
    omega
  have hquot : (m : ℚ) * 2 ^ e / lastPlace p (m * 2 ^ e) = ((m * 2 ^ k : ℕ) : ℤ) := by
    rw [div_eq_iff (lastPlace_pos p _).ne']
    conv_lhs => rw [hplace]
    push_cast
    ring
  rw [round, hquot, nearestEven_intCast, ← hquot, div_mul_cancel₀ _ (lastPlace_pos p _).ne']

theorem round_le_two_zpow (hq : 0 < q) : round p q ≤ 2 ^ (exponent q + 1) := by
  have hplace : (2 : ℚ) ^ (exponent q + 1) = ((2 ^ p : ℕ) : ℤ) * lastPlace p q := by
    rw [lastPlace]
    push_cast
    rw [← zpow_natCast, ← zpow_add₀ (by norm_num)]
    congr 1
    omega
  have hquot : q / lastPlace p q ≤ ((2 ^ p : ℕ) : ℤ) := by
    rw [div_le_iff₀ (lastPlace_pos p q), ← hplace]
    exact (exponent_spec hq).2.le
  have hnear : nearestEven (q / lastPlace p q) ≤ ((2 ^ p : ℕ) : ℤ) := by
    have hmono := nearestEven_mono hquot
    rwa [nearestEven_intCast] at hmono
  rw [round, hplace]
  exact mul_le_mul_of_nonneg_right (by exact_mod_cast hnear) (lastPlace_pos p q).le

theorem two_zpow_le_round (hp : 1 ≤ p) (hq : 0 < q) : 2 ^ exponent q ≤ round p q := by
  have hplace : (2 : ℚ) ^ exponent q = ((2 ^ (p - 1) : ℕ) : ℤ) * lastPlace p q := by
    rw [lastPlace]
    push_cast
    rw [← zpow_natCast, ← zpow_add₀ (by norm_num)]
    congr 1
    omega
  have hquot : ((2 ^ (p - 1) : ℕ) : ℤ) ≤ q / lastPlace p q := by
    rw [le_div_iff₀ (lastPlace_pos p q), ← hplace]
    exact (exponent_spec hq).1
  have hnear : ((2 ^ (p - 1) : ℕ) : ℤ) ≤ nearestEven (q / lastPlace p q) := by
    have hmono := nearestEven_mono hquot
    rwa [nearestEven_intCast] at hmono
  rw [round, hplace]
  exact mul_le_mul_of_nonneg_right (by exact_mod_cast hnear) (lastPlace_pos p q).le

theorem round_mono (hp : 1 ≤ p) (hq : 0 < q) (h : q ≤ r) : round p q ≤ round p r := by
  have hr := hq.trans_le h
  rcases (exponent_mono hq h).eq_or_lt with heq | hlt
  · have hplace : lastPlace p q = lastPlace p r := by rw [lastPlace, lastPlace, heq]
    have hquot : q / lastPlace p r ≤ r / lastPlace p r :=
      div_le_div_of_nonneg_right h (lastPlace_pos p r).le
    rw [round, round, hplace]
    exact mul_le_mul_of_nonneg_right (by exact_mod_cast nearestEven_mono hquot)
      (lastPlace_pos p r).le
  · calc round p q ≤ 2 ^ (exponent q + 1) := round_le_two_zpow hq
      _ ≤ 2 ^ exponent r := two_zpow_le_iff.mpr hlt
      _ ≤ round p r := two_zpow_le_round hp hr

theorem le_round (hp : 1 ≤ p) (hx : 0 < x) (hfits : Fits p x) (h : x ≤ q) : x ≤ round p q := by
  have hmono := round_mono hp hx h
  rwa [round_of_fits hx hfits] at hmono

theorem round_le (hp : 1 ≤ p) (hq : 0 < q) (hfits : Fits p x) (h : q ≤ x) : round p q ≤ x := by
  have hmono := round_mono hp hq h
  rwa [round_of_fits (hq.trans_le h) hfits] at hmono

end FloatRound
