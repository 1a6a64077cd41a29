import LogQuery.Arithmetic.Binary64
import Mathlib.Data.Int.Log
import Mathlib.Data.Rat.Floor
import Mathlib.Tactic.Linarith
import Mathlib.Tactic.Ring
/-!
# Rounding to double precision

A number of double precision is a whole number of less than 54 binary digits times a
power of two (`IsNumber`).  Rounding takes `q` to a multiple of the power of two that
is the place of the last digit of such numbers around `q` (`unit`).  So the result is
one of them, no other is nearer (`abs_round_sub_le_of_isNumber`), and of two that are
equally near it is the one whose digits are even (`exists_round`).

Two facts are for computations of several steps: rounding keeps the order
(`round_mono`), and up to a power of two it moves a number by no more than a fixed
part of that power (`abs_round_sub_le_of_abs_le`).
-/

namespace LogQuery.Binary64

/-! ### Powers of two -/

theorem power_eq (k : Int) : power k = 2 ^ k := by
  unfold power
  split
  · rename_i hk
    obtain ⟨n, rfl⟩ := Int.eq_ofNat_of_zero_le hk
    simp [Nat.one_shiftLeft, Rat.mkRat_one]
  · rename_i hk
    obtain ⟨n, hn⟩ := Int.eq_ofNat_of_zero_le (show 0 ≤ -k by omega)
    obtain rfl : k = -(n : Int) := by omega
    simp [Nat.one_shiftLeft, Rat.mkRat_eq_div]

theorem two_zpow_pos (k : Int) : (0 : Rat) < 2 ^ k := zpow_pos two_pos k

theorem two_zpow_le {k l : Int} (h : k ≤ l) : (2 : Rat) ^ k ≤ 2 ^ l :=
  zpow_le_zpow_right₀ one_le_two h

theorem two_zpow_add (k l : Int) : (2 : Rat) ^ (k + l) = 2 ^ k * 2 ^ l :=
  zpow_add₀ two_ne_zero k l

theorem zpow_log_le {r : Rat} (hr : 0 < r) : (2 : Rat) ^ Int.log 2 r ≤ r := by
  exact_mod_cast Int.zpow_log_le_self Nat.one_lt_two hr

theorem lt_zpow_log (r : Rat) : r < 2 ^ (Int.log 2 r + 1) := by
  exact_mod_cast Int.lt_zpow_succ_log_self Nat.one_lt_two r

theorem log_lt {r : Rat} {k : Int} (hr : 0 < r) (h : r < 2 ^ k) : Int.log 2 r < k :=
  (Int.lt_zpow_iff_log_lt Nat.one_lt_two hr).mp (by exact_mod_cast h)

theorem le_log {r : Rat} {k : Int} (hr : 0 < r) (h : 2 ^ k ≤ r) : k ≤ Int.log 2 r :=
  (Int.zpow_le_iff_le_log Nat.one_lt_two hr).mp (by exact_mod_cast h)

/-! ### The place of the last digit -/

theorem two_zpow_log2_le {n : Nat} (hn : n ≠ 0) : (2 : Rat) ^ (n.log2 : Int) ≤ n := by
  exact_mod_cast Nat.log2_self_le hn

theorem lt_two_zpow_log2 (n : Nat) : (n : Rat) < 2 ^ ((n.log2 : Int) + 1) := by
  exact_mod_cast Nat.lt_log2_self

/-- The lengths of the two parts of a fraction tell its leading digit up to one place. -/
theorem leading_eq {m n : Nat} (hm : m ≠ 0) (hn : n ≠ 0) :
    leading m n = Int.log 2 ((m : Rat) / n) := by
  have hm' : (0 : Rat) < m := Nat.cast_pos.mpr (Nat.pos_of_ne_zero hm)
  have hn' : (0 : Rat) < n := Nat.cast_pos.mpr (Nat.pos_of_ne_zero hn)
  have hpos : (0 : Rat) < m / n := div_pos hm' hn'
  have hbelow : (2 : Rat) ^ ((m.log2 : Int) - n.log2 - 1) ≤ m / n := by
    rw [le_div_iff₀ hn']
    calc (2 : Rat) ^ ((m.log2 : Int) - n.log2 - 1) * n
        ≤ 2 ^ ((m.log2 : Int) - n.log2 - 1) * 2 ^ ((n.log2 : Int) + 1) :=
          mul_le_mul_of_nonneg_left (lt_two_zpow_log2 n).le (two_zpow_pos _).le
      _ = 2 ^ (m.log2 : Int) := by rw [← two_zpow_add]; congr 1; omega
      _ ≤ m := two_zpow_log2_le hm
  have habove : (m : Rat) / n < 2 ^ ((m.log2 : Int) - n.log2 + 1) := by
    rw [div_lt_iff₀ hn']
    calc (m : Rat) < 2 ^ ((m.log2 : Int) + 1) := lt_two_zpow_log2 m
      _ = 2 ^ ((m.log2 : Int) - n.log2 + 1) * 2 ^ (n.log2 : Int) := by
          rw [← two_zpow_add]; congr 1; omega
      _ ≤ 2 ^ ((m.log2 : Int) - n.log2 + 1) * n :=
          mul_le_mul_of_nonneg_left (two_zpow_log2_le hn) (two_zpow_pos _).le
  have hlow := le_log hpos hbelow
  have hhigh := log_lt hpos habove
  rw [leading, power_eq, Rat.mkRat_eq_div, Int.cast_natCast]
  split
  · rename_i h
    have := le_log hpos h
    omega
  · rename_i h
    have := log_lt hpos (not_le.mp h)
    omega

/-- The place of the last digit of the numbers around `q`.  The first of their 53 digits
is in the place of the first of `q`, but no digit is below the place -1074. -/
def lastPlace (q : Rat) : Int := max (Int.log 2 |q| - 52) (-1074)

/-- What a one in the last place stands for. -/
def unit (q : Rat) : Rat := 2 ^ lastPlace q

theorem unit_pos (q : Rat) : 0 < unit q := two_zpow_pos _

theorem spacing_eq {q : Rat} (hq : q ≠ 0) : spacing q = unit q := by
  have hnum : q.num.natAbs ≠ 0 := Int.natAbs_ne_zero.mpr (Rat.num_ne_zero.mpr hq)
  have habs : (q.num.natAbs : Rat) / q.den = |q| := by
    rw [Nat.cast_natAbs, Int.cast_abs, ← Nat.abs_cast q.den, ← abs_div, Rat.num_div_den]
  rw [spacing, power_eq, leading_eq hnum q.den_nz, habs, unit, lastPlace]

/-! ### The nearest whole number -/

/-- No whole number is nearer, and halfway the number is even. -/
theorem nearest_spec (x : Rat) :
    |(nearest x : Rat) - x| < 1 / 2 ∨ |(nearest x : Rat) - x| = 1 / 2 ∧ Even (nearest x) := by
  have hlow : (x.floor : Rat) ≤ x := Int.floor_le x
  have hhigh : x < x.floor + 1 := Int.lt_floor_add_one x
  have hbelow : |(x.floor : Rat) - x| = x - x.floor := by
    rw [abs_sub_comm, abs_of_nonneg (by linarith)]
  have habove : |((x.floor + 1 : Int) : Rat) - x| = x.floor + 1 - x := by
    rw [Int.cast_add, Int.cast_one, abs_of_nonneg (by linarith)]
  rw [nearest, Rat.mkRat_eq_div, Int.cast_one, Nat.cast_ofNat]
  split_ifs with hless hmore heven
  · exact .inl (by rwa [hbelow])
  · exact .inl (by rw [habove]; linarith)
  · exact .inr ⟨by rw [hbelow]; linarith, Int.even_iff.mpr heven⟩
  · exact .inr ⟨by rw [habove]; linarith, Int.even_add_one.mpr (by rwa [Int.even_iff])⟩

theorem abs_nearest_sub_le (x : Rat) : |(nearest x : Rat) - x| ≤ 1 / 2 := by
  obtain h | ⟨h, -⟩ := nearest_spec x
  · exact h.le
  · exact h.le

theorem abs_nearest_sub_le_abs (x : Rat) (n : Int) : |(nearest x : Rat) - x| ≤ |(n : Rat) - x| := by
  by_cases hn : nearest x = n
  · rw [hn]
  have hapart : (1 : Rat) ≤ |(nearest x : Rat) - n| := by
    exact_mod_cast Int.one_le_abs (sub_ne_zero.mpr hn)
  have hsum := abs_sub_le (nearest x : Rat) x n
  rw [abs_sub_comm x] at hsum
  have hhalf := abs_nearest_sub_le x
  linarith

theorem nearest_intCast (n : Int) : nearest n = n := by
  have h := abs_nearest_sub_le_abs n n
  rw [sub_self, abs_zero, abs_nonpos_iff, sub_eq_zero] at h
  exact_mod_cast h

/-! ### Numbers of double precision -/

/-- A whole number of less than 54 binary digits times a power of two, from the smallest
power on. -/
def IsNumber (x : Rat) : Prop := ∃ m e : Int, |m| < 2 ^ 53 ∧ -1074 ≤ e ∧ x = m * 2 ^ e

theorem IsNumber.neg {x : Rat} (h : IsNumber x) : IsNumber (-x) := by
  obtain ⟨m, e, hm, he, rfl⟩ := h
  exact ⟨-m, e, by rwa [abs_neg], he, by push_cast; ring⟩

theorem isNumber_two_zpow {k : Int} (h : -1074 ≤ k) : IsNumber (2 ^ k) :=
  ⟨1, k, by decide, h, by rw [Int.cast_one, one_mul]⟩

/-! ### Rounding -/

theorem round_zero : round 0 = 0 := if_pos Rat.num_zero

theorem round_eq (q : Rat) : round q = nearest (q / unit q) * unit q := by
  by_cases hq : q = 0
  · have hnearest : nearest 0 = 0 := nearest_intCast 0
    rw [hq, round_zero, zero_div, hnearest, Int.cast_zero, zero_mul]
  · rw [round, if_neg (Rat.num_ne_zero.mpr hq), spacing_eq hq]

theorem abs_mul_unit_sub (m : Int) (q : Rat) :
    |m * unit q - q| = |(m : Rat) - q / unit q| * unit q := by
  have hunit := unit_pos q
  rw [← abs_of_pos hunit, ← abs_mul, abs_of_pos hunit, sub_mul, div_mul_cancel₀ q hunit.ne']

/-- Rounding moves a number by no more than half of the place of its last digit, and by
half of it only to an even multiple. -/
theorem exists_round (q : Rat) :
    ∃ m : Int, round q = m * unit q ∧
      (|round q - q| < unit q / 2 ∨ |round q - q| = unit q / 2 ∧ Even m) := by
  refine ⟨nearest (q / unit q), round_eq q, ?_⟩
  rw [round_eq, abs_mul_unit_sub]
  obtain h | ⟨h, heven⟩ := nearest_spec (q / unit q)
  · left
    linarith [mul_lt_mul_of_pos_right h (unit_pos q)]
  · right
    exact ⟨by rw [h]; ring, heven⟩

theorem abs_round_sub_le (q : Rat) : |round q - q| ≤ unit q / 2 := by
  obtain ⟨m, -, h | ⟨h, -⟩⟩ := exists_round q
  · exact h.le
  · exact h.le

/-- The number `q` has no more than 53 digits before the place `unit q`. -/
theorem abs_le_mul_unit (q : Rat) : |q| ≤ 2 ^ 53 * unit q := by
  calc |q| ≤ 2 ^ (Int.log 2 |q| + 1) := (lt_zpow_log _).le
    _ = 2 ^ 53 * 2 ^ (Int.log 2 |q| - 52) := by
        rw [← zpow_natCast, ← two_zpow_add]
        congr 1
        omega
    _ ≤ 2 ^ 53 * unit q :=
        mul_le_mul_of_nonneg_left (two_zpow_le (le_max_left _ _)) (pow_nonneg two_pos.le _)

theorem isNumber_round (q : Rat) : IsNumber (round q) := by
  have hnear : |(nearest (q / unit q) : Rat)| < 2 ^ 53 + 1 := by
    have hquotient : |q / unit q| ≤ 2 ^ 53 := by
      rw [abs_div, abs_of_pos (unit_pos q), div_le_iff₀ (unit_pos q)]
      exact abs_le_mul_unit q
    have hround := abs_nearest_sub_le (q / unit q)
    have htriangle := abs_sub_abs_le_abs_sub (nearest (q / unit q) : Rat) (q / unit q)
    linarith
  have hle : |nearest (q / unit q)| ≤ 2 ^ 53 := by
    have h : |nearest (q / unit q)| < 2 ^ 53 + 1 := by exact_mod_cast hnear
    omega
  rw [round_eq]
  obtain h | h := hle.lt_or_eq
  · exact ⟨_, _, h, le_max_right _ _, rfl⟩
  -- one digit more than there is room for: the next power of two
  · have hnumber : IsNumber (2 ^ 53 * unit q) := by
      rw [unit, ← zpow_natCast, ← two_zpow_add]
      exact isNumber_two_zpow (by rw [lastPlace]; omega)
    obtain h | h := (abs_eq (by decide)).mp h
    · rw [h]
      exact_mod_cast hnumber
    · rw [h, Int.cast_neg, neg_mul]
      exact_mod_cast hnumber.neg

theorem abs_round_sub_le_of_lastPlace_le {q : Rat} {e : Int} (he : lastPlace q ≤ e) (m : Int) :
    |round q - q| ≤ |m * 2 ^ e - q| := by
  obtain ⟨n, hn⟩ := Int.eq_ofNat_of_zero_le (sub_nonneg.mpr he)
  have hmultiple : (m : Rat) * 2 ^ e = ((m * 2 ^ n : Int) : Rat) * unit q := by
    rw [← sub_add_cancel e (lastPlace q), hn, two_zpow_add, zpow_natCast, unit, Int.cast_mul,
      Int.cast_pow, Int.cast_ofNat, mul_assoc]
  rw [hmultiple, round_eq, abs_mul_unit_sub, abs_mul_unit_sub]
  exact mul_le_mul_of_nonneg_right (abs_nearest_sub_le_abs _ _) (unit_pos q).le

/-- No number of double precision is nearer.  One with digits below the last place of `q`
is below the first digit of `q`, and the number of that digit alone lies between them. -/
theorem abs_round_sub_le_of_isNumber {x : Rat} (hx : IsNumber x) (q : Rat) :
    |round q - q| ≤ |x - q| := by
  obtain ⟨m, e, hm, he, rfl⟩ := hx
  by_cases hq : q = 0
  · rw [hq, round_zero, sub_self, abs_zero]
    exact abs_nonneg _
  obtain hlast | hlast := le_or_gt (lastPlace q) e
  · exact abs_round_sub_le_of_lastPlace_le hlast m
  have hplace : lastPlace q = Int.log 2 |q| - 52 := by
    unfold lastPlace at hlast ⊢
    omega
  have hx : |(m : Rat) * 2 ^ e| ≤ 2 ^ Int.log 2 |q| := by
    have hm' : |(m : Rat)| ≤ 2 ^ 53 := by exact_mod_cast hm.le
    calc |(m : Rat) * 2 ^ e| = |(m : Rat)| * 2 ^ e := by
          rw [abs_mul, abs_of_pos (two_zpow_pos e)]
      _ ≤ 2 ^ 53 * 2 ^ e := mul_le_mul_of_nonneg_right hm' (two_zpow_pos e).le
      _ = 2 ^ (53 + e) := by rw [two_zpow_add]; rfl
      _ ≤ 2 ^ Int.log 2 |q| := two_zpow_le (by omega)
  have hfirst := zpow_log_le (abs_pos.mpr hq)
  have hround : ∀ n : Int, |round q - q| ≤ |n * 2 ^ Int.log 2 |q| - q| :=
    abs_round_sub_le_of_lastPlace_le (by omega)
  obtain hpos | hneg := le_total 0 q
  · rw [abs_of_nonneg hpos] at hx hfirst hround
    refine (hround 1).trans ?_
    rw [Int.cast_one, one_mul, abs_sub_comm, abs_of_nonneg (sub_nonneg.mpr hfirst), abs_sub_comm]
    exact (sub_le_sub_left (abs_le.mp hx).2 q).trans (le_abs_self _)
  · rw [abs_of_nonpos hneg] at hx hfirst hround
    refine (hround (-1)).trans ?_
    rw [Int.cast_neg, Int.cast_one, neg_one_mul, abs_of_nonneg (by linarith)]
    exact (sub_le_sub_right (abs_le.mp hx).1 q).trans (le_abs_self _)

theorem round_of_isNumber {x : Rat} (hx : IsNumber x) : round x = x := by
  have h := abs_round_sub_le_of_isNumber hx x
  rwa [sub_self, abs_zero, abs_nonpos_iff, sub_eq_zero] at h

theorem round_mono {q r : Rat} (h : q ≤ r) : round q ≤ round r := by
  obtain rfl | hlt := h.eq_or_lt
  · exact le_rfl
  by_contra hnot
  -- the larger result would be the nearer one of the smaller number
  have hq := sq_le_sq.mpr (abs_round_sub_le_of_isNumber (isNumber_round r) q)
  have hr := sq_le_sq.mpr (abs_round_sub_le_of_isNumber (isNumber_round q) r)
  linarith [mul_pos (sub_pos.mpr (not_le.mp hnot)) (sub_pos.mpr hlt)]

theorem unit_le {q : Rat} {k : Int} (hk : -1022 ≤ k) (hq : q ≠ 0) (h : |q| < 2 ^ (k + 1)) :
    unit q ≤ 2 ^ (k - 52) := by
  have hlog := log_lt (abs_pos.mpr hq) h
  exact two_zpow_le (by rw [lastPlace]; omega)

theorem abs_round_sub_le_of_abs_le {q : Rat} {k : Int} (hk : -1022 ≤ k) (h : |q| ≤ 2 ^ (k + 1)) :
    |round q - q| ≤ 2 ^ (k - 53) := by
  have hexact : IsNumber q → |round q - q| ≤ 2 ^ (k - 53) := by
    intro hnumber
    rw [round_of_isNumber hnumber, sub_self, abs_zero]
    exact (two_zpow_pos _).le
  obtain hlt | heq := h.lt_or_eq
  · obtain rfl | hq := eq_or_ne q 0
    · exact hexact ⟨0, 0, by decide, by decide, by rw [Int.cast_zero, zero_mul]⟩
    · have hunit := unit_le hk hq hlt
      have hhalf : (2 : Rat) ^ (k - 52) = 2 * 2 ^ (k - 53) := by
        rw [show k - 52 = 1 + (k - 53) by omega, two_zpow_add, zpow_one]
      linarith [abs_round_sub_le q]
  · have hpower : IsNumber (2 ^ (k + 1)) := isNumber_two_zpow (by omega)
    obtain h | h := abs_eq_abs.mp (heq.trans (abs_of_pos (two_zpow_pos (k + 1))).symm)
    · exact hexact (h ▸ hpower)
    · exact hexact (h ▸ hpower.neg)

/-! ### The whole part -/

theorem truncate_of_nonneg {q : Rat} (hq : 0 ≤ q) : truncate q = ⌊q⌋ := by
  rw [truncate, Int.tdiv_eq_ediv_of_nonneg (Rat.num_nonneg.mpr hq), Rat.floor_def']

theorem truncate_neg (q : Rat) : truncate (-q) = -truncate q := by
  rw [truncate, Rat.num_neg_eq_neg_num, Rat.den_neg_eq_den, Int.neg_tdiv, truncate]

theorem truncate_of_nonpos {q : Rat} (hq : q ≤ 0) : truncate q = ⌈q⌉ := by
  rw [← neg_neg q, truncate_neg, truncate_of_nonneg (neg_nonneg.mpr hq), Int.ceil_neg]

theorem truncate_mono {q r : Rat} (h : q ≤ r) : truncate q ≤ truncate r := by
  obtain hq | hq := le_total 0 q
  · rw [truncate_of_nonneg hq, truncate_of_nonneg (hq.trans h)]
    exact Int.floor_mono h
  obtain hr | hr := le_total r 0
  · rw [truncate_of_nonpos hq, truncate_of_nonpos hr]
    exact Int.ceil_mono h
  · rw [truncate_of_nonpos hq, truncate_of_nonneg hr]
    exact (Int.ceil_nonpos.mpr hq).trans (Int.floor_nonneg.mpr hr)

theorem abs_truncate_sub_lt (q : Rat) : |(truncate q : Rat) - q| < 1 := by
  obtain hq | hq := le_total 0 q
  · rw [truncate_of_nonneg hq, abs_sub_lt_iff]
    constructor <;> linarith [Int.floor_le q, Int.lt_floor_add_one q]
  · rw [truncate_of_nonpos hq, abs_sub_lt_iff]
    constructor <;> linarith [Int.le_ceil q, Int.ceil_lt_add_one q]

end LogQuery.Binary64
