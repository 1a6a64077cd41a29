import LogQuery.Time.Timestamp
import LogQuery.Proofs.Binary64
import Mathlib.Tactic.NormNum
/-!
# Nanoseconds keep the order of times

The nanoseconds of a time are computed in double precision, where there is not one
number for each of them: the microseconds are divided to seconds and rounded, the
seconds multiplied and rounded, and the whole part taken.  Each step keeps the order
(`nanosecondsAt_mono`).  Up to 2 ^ 32 seconds after 1970 the two roundings move the
result by less than half a microsecond (`abs_nanosecondsAt_sub_lt`), so different
instants stay different (`nanosecondsAt_lt`).
-/

namespace LogQuery.Time

/-- The seconds of an instant in double precision. -/
def secondsAt (instant : Int) : Rat := Binary64.round (mkRat instant 1000000)

/-- The nanoseconds of an instant, given by its microseconds since 1970. -/
def nanosecondsAt (instant : Int) : Int :=
  Binary64.truncate (Binary64.round (secondsAt instant * mkRat 1000000000 1))

theorem nanoseconds?_eq {t : Timestamp} (h : t.offset.isSome) :
    t.nanoseconds? = some (nanosecondsAt t.instant) := by
  obtain ⟨o, ho⟩ := Option.isSome_iff_exists.mp h
  have hplaced : t.isPlaced = true := by rw [Timestamp.isPlaced, h, Bool.true_or]
  rw [Timestamp.nanoseconds?, if_pos hplaced, Timestamp.nanoseconds, Timestamp.seconds]
  simp only [ho]
  rfl

/-! ### Order -/

theorem secondsAt_eq (i : Int) : secondsAt i = Binary64.round (i / 1000000) := by
  rw [secondsAt, Rat.mkRat_eq_div, Nat.cast_ofNat]

theorem nanosecondsAt_eq (i : Int) :
    nanosecondsAt i = Binary64.truncate (Binary64.round (secondsAt i * 1000000000)) := by
  rw [nanosecondsAt, Rat.mkRat_eq_div, Nat.cast_one, div_one, Int.cast_ofNat]

theorem secondsAt_mono {i j : Int} (h : i ≤ j) : secondsAt i ≤ secondsAt j := by
  rw [secondsAt_eq, secondsAt_eq]
  refine Binary64.round_mono (div_le_div_of_nonneg_right ?_ (by norm_num))
  exact_mod_cast h

theorem nanosecondsAt_mono {i j : Int} (h : i ≤ j) : nanosecondsAt i ≤ nanosecondsAt j := by
  rw [nanosecondsAt_eq, nanosecondsAt_eq]
  refine Binary64.truncate_mono (Binary64.round_mono ?_)
  exact mul_le_mul_of_nonneg_right (secondsAt_mono h) (by norm_num)

/-! ### Accuracy -/

section
variable {i : Int} (hstart : 0 ≤ i) (hend : i ≤ 2 ^ 32 * 1000000)
include hstart hend

theorem seconds_mem : (0 : Rat) ≤ i / 1000000 ∧ (i / 1000000 : Rat) ≤ 2 ^ 32 := by
  constructor
  · exact div_nonneg (by exact_mod_cast hstart) (by norm_num)
  · rw [div_le_iff₀ (by norm_num)]
    exact_mod_cast hend

theorem secondsAt_mem : 0 ≤ secondsAt i ∧ secondsAt i ≤ 2 ^ 32 := by
  obtain ⟨hlow, hhigh⟩ := seconds_mem hstart hend
  have hbound : Binary64.IsNumber (2 ^ 32) := Binary64.isNumber_two_zpow (k := 32) (by decide)
  rw [secondsAt_eq]
  constructor
  · rw [← Binary64.round_zero]
    exact Binary64.round_mono hlow
  · rw [← Binary64.round_of_isNumber hbound]
    exact Binary64.round_mono hhigh

theorem abs_secondsAt_sub_le : |secondsAt i - i / 1000000| ≤ 1 / 2 ^ 22 := by
  obtain ⟨hlow, hhigh⟩ := seconds_mem hstart hend
  have hround : |secondsAt i - i / 1000000| ≤ 2 ^ ((31 : Int) - 53) := by
    rw [secondsAt_eq]
    refine Binary64.abs_round_sub_le_of_abs_le (by decide) ?_
    rw [abs_of_nonneg hlow]
    exact_mod_cast hhigh
  exact hround.trans_eq (by norm_num)

/-- The first rounding is off by less than 239 nanoseconds, the second by 256 at most,
and the whole part by less than one. -/
theorem abs_nanosecondsAt_sub_lt : |nanosecondsAt i - 1000 * i| < 500 := by
  obtain ⟨hlow, hhigh⟩ := secondsAt_mem hstart hend
  have hfirst := abs_le.mp (abs_secondsAt_sub_le hstart hend)
  rw [nanosecondsAt_eq]
  set x := secondsAt i * 1000000000 with hx
  have hround : |Binary64.round x - x| ≤ 2 ^ ((61 : Int) - 53) := by
    have hbound : x ≤ 2 ^ 62 := by linarith
    refine Binary64.abs_round_sub_le_of_abs_le (by decide) ?_
    rw [abs_of_nonneg (by linarith)]
    exact_mod_cast hbound
  have hsecond := abs_le.mp (hround.trans_eq (show _ = 256 by norm_num))
  have hwhole := abs_lt.mp (Binary64.abs_truncate_sub_lt (Binary64.round x))
  have hsum : |(Binary64.truncate (Binary64.round x) : Rat) - 1000 * i| < 500 := by
    rw [abs_lt]
    constructor <;> linarith
  exact_mod_cast hsum

end

theorem nanosecondsAt_lt {i j : Int} (hstart : 0 ≤ i) (h : i < j) (hend : j ≤ 2 ^ 32 * 1000000) :
    nanosecondsAt i < nanosecondsAt j := by
  have hi := abs_lt.mp (abs_nanosecondsAt_sub_lt hstart (h.le.trans hend))
  have hj := abs_lt.mp (abs_nanosecondsAt_sub_lt (hstart.trans h.le) hend)
  omega

/-- **Nanoseconds keep the order of times.**  The nanoseconds of a time are those of its
instant, whatever its offset is, and never go down from an instant to a later one.  Up to
2 ^ 32 seconds after 1970 they go up with every microsecond, and differ by less than 500
from 1000 times the microseconds. -/
theorem nanoseconds_keep_order :
    (∀ t : Timestamp, t.offset.isSome → t.nanoseconds? = some (nanosecondsAt t.instant)) ∧
    (∀ i j, i ≤ j → nanosecondsAt i ≤ nanosecondsAt j) ∧
    (∀ i j, 0 ≤ i → i < j → j ≤ 2 ^ 32 * 1000000 → nanosecondsAt i < nanosecondsAt j) ∧
    ∀ i, 0 ≤ i → i ≤ 2 ^ 32 * 1000000 → |nanosecondsAt i - 1000 * i| < 500 := by
  refine ⟨fun _ h => nanoseconds?_eq h, fun _ _ h => nanosecondsAt_mono h, ?_, ?_⟩
  · intro i j hstart h hend
    exact nanosecondsAt_lt hstart h hend
  · intro i hstart hend
    exact abs_nanosecondsAt_sub_lt hstart hend

/-- The time that is 2 ^ 32 seconds after 1970, on a clock an hour east of UTC. -/
def rangeEnd : Timestamp :=
  { Timestamp.midnight ⟨2106, 2, 7, by decide, by decide, by decide⟩ with
    hour := ⟨7, by decide⟩, minute := ⟨28, by decide⟩, second := ⟨16, by decide⟩
    offset := some ⟨60, by decide⟩ }

/-- The microsecond before it, in UTC. -/
def beforeRangeEnd : Timestamp :=
  { rangeEnd with
    hour := ⟨6, by decide⟩, second := ⟨15, by decide⟩, micro := ⟨999999, by decide⟩
    offset := some Offset.utc }

theorem nanoseconds_keep_order_rangeEnd :
    rangeEnd.instant = 2 ^ 32 * 1000000 ∧ beforeRangeEnd.instant + 1 = rangeEnd.instant ∧
    ∃ m n, beforeRangeEnd.nanoseconds? = some m ∧ rangeEnd.nanoseconds? = some n ∧ m < n := by
  obtain ⟨heq, -, hlt, -⟩ := nanoseconds_keep_order
  refine ⟨by decide, by decide, _, _, heq beforeRangeEnd rfl, heq rangeEnd rfl, ?_⟩
  exact hlt _ _ (by decide) (by decide) (by decide)

end LogQuery.Time
