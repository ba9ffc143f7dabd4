import MidiScore.Proofs.Binary64.Monotone

/-!
# How long ticks take at most

A number of at most 53 bits is its own rounding, whatever the power of two that it is moved
by.  Since rounding keeps order, a fraction on one side of such a number is rounded to a
size on the same side.  At one quarter note in a minute or more a tick therefore takes at
most `2 ^ 27` nanoseconds, `nanosOfTicks_le`.
-/

namespace MidiScore

namespace Binary64

/-! ## Few bits -/

theorem logQuotient_one_lt {value : Nat} (positive : 0 < value) (small : value < 2 ^ 53) :
    logQuotient value 1 < 53 := by
  have least := (logQuotient_spec positive Nat.one_pos).1
  rw [Nat.cast_one, div_one] at least
  have bounded : (value : ℚ) < 2 ^ (53 : Int) := by exact_mod_cast small
  exact (zpow_lt_zpow_iff_right₀ one_lt_two).mp (least.trans_lt bounded)

/-- A whole number of at most 53 bits is not rounded. -/
theorem size_ofQuotient_one {negative : Bool} {value : Nat} (small : value < 2 ^ 53)
    (shift : Int) : (ofQuotient negative value 1 shift).size = value * 2 ^ shift := by
  rcases Nat.eq_zero_or_pos value with rfl | positive
  · rw [size_ofQuotient_zero, Nat.cast_zero, zero_mul]
  · have fine : grid value 1 ≤ 0 := by
      have bits := logQuotient_one_lt positive small
      rw [grid, precision]
      omega
    have steps : rounded value 1 = value * 2 ^ (-grid value 1).toNat := by
      rw [rounded, Int.toNat_of_nonpos fine, Nat.pow_zero, Nat.mul_one, roundQuotient_one]
    have back : ((2 : ℚ) ^ (-grid value 1).toNat) * 2 ^ grid value 1 = 1 := by
      have scale := two_zpow_mul_pow_toNat (grid value 1)
      rwa [Int.toNat_of_nonpos fine, pow_zero, mul_comm] at scale
    rw [size_ofQuotient_of_pos positive, steps, zpow_add₀ two_ne_zero]
    push_cast
    rw [← mul_assoc, mul_assoc (value : ℚ), back, mul_one]

theorem size_ofNat {value : Nat} (small : value < 2 ^ 53) : (ofNat value).size = value := by
  rw [ofNat, size_ofQuotient_one small, zpow_zero, mul_one]

section

variable {negative : Bool} {numerator denominator bound : Nat} {shift boundShift : Int}

theorem size_ofQuotient_le (small : bound < 2 ^ 53) (denominatorPos : 0 < denominator)
    (order : (numerator : ℚ) / denominator * 2 ^ shift ≤ bound * 2 ^ boundShift) :
    (ofQuotient negative numerator denominator shift).size ≤ bound * 2 ^ boundShift := by
  rw [← @size_ofQuotient_one false bound small]
  refine size_ofQuotient_mono negative false denominatorPos Nat.one_pos ?_
  rwa [Nat.cast_one, div_one]

theorem le_size_ofQuotient (small : bound < 2 ^ 53) (denominatorPos : 0 < denominator)
    (order : bound * 2 ^ boundShift ≤ (numerator : ℚ) / denominator * 2 ^ shift) :
    bound * 2 ^ boundShift ≤ (ofQuotient negative numerator denominator shift).size := by
  rw [← @size_ofQuotient_one false bound small]
  refine size_ofQuotient_mono false negative Nat.one_pos denominatorPos ?_
  rwa [Nat.cast_one, div_one]

end

/-! ## Operations -/

section

variable {first second : Binary64} {bound : Nat} {shift : Int}

theorem size_mul_le (isFirst : first.IsMagnitude) (isSecond : second.IsMagnitude)
    (small : bound < 2 ^ 53) (order : first.size * second.size ≤ bound * 2 ^ shift) :
    (first * second).size ≤ bound * 2 ^ shift := by
  rcases isFirst with ⟨m, e, rfl⟩
  rcases isSecond with ⟨n, f, rfl⟩
  refine size_ofQuotient_le small Nat.one_pos (le_trans (le_of_eq ?_) order)
  rw [size, size, zpow_add₀ two_ne_zero]
  push_cast
  ring

theorem le_size_mul (isFirst : first.IsMagnitude) (isSecond : second.IsMagnitude)
    (small : bound < 2 ^ 53) (order : bound * 2 ^ shift ≤ first.size * second.size) :
    bound * 2 ^ shift ≤ (first * second).size := by
  rcases isFirst with ⟨m, e, rfl⟩
  rcases isSecond with ⟨n, f, rfl⟩
  refine le_size_ofQuotient small Nat.one_pos (order.trans (le_of_eq ?_))
  rw [size, size, zpow_add₀ two_ne_zero]
  push_cast
  ring

theorem size_div_le (isFirst : first.IsMagnitude) (isSecond : second.IsMagnitude)
    (positive : 0 < second.size) (small : bound < 2 ^ 53)
    (order : first.size / second.size ≤ bound * 2 ^ shift) :
    (first / second).IsMagnitude ∧ (first / second).size ≤ bound * 2 ^ shift := by
  rcases isFirst with ⟨m, e, rfl⟩
  rcases isSecond with ⟨n, f, rfl⟩
  have some : n ≠ 0 := by
    rintro rfl
    simp [size] at positive
  have divided : finite false m e / finite false n f = ofQuotient false m n (e - f) :=
    if_neg some
  rw [divided]
  refine ⟨isMagnitude_ofQuotient .., size_ofQuotient_le small (Nat.pos_of_ne_zero some) ?_⟩
  refine le_trans (le_of_eq ?_) order
  rw [size, size, zpow_sub₀ two_ne_zero]
  field_simp

theorem toInt64_le (isMagnitude : first.IsMagnitude) (order : first.size ≤ bound) :
    first.toInt64 ≤ bound := by
  rcases isMagnitude with ⟨m, e, rfl⟩
  rw [size] at order
  have whole : roundMagnitude m e ≤ bound := by
    rw [roundMagnitude_eq_floor]
    refine Nat.le_of_lt_succ ((Nat.floor_lt (by positivity)).mpr ?_)
    push_cast
    linarith
  exact (min_le_right _ _).trans (Int.ofNat_le.mpr whole)

end

end Binary64

/-- At one quarter note in a minute a tick takes `62500000` nanoseconds, which is less than
`2 ^ 27`, and at other tempos it takes less. -/
theorem nanosOfTicks_le {tempo ticks : Nat} (positive : 0 < tempo) (tempoSmall : tempo < 2 ^ 53)
    (ticksSmall : ticks < 2 ^ 32) : nanosOfTicks (.ofNat tempo) ticks ≤ 134217728 * ticks := by
  have ticksFew : ticks < 2 ^ 53 := ticksSmall.trans (by norm_num)
  have dividend : (Binary64.ofNat ticks * Binary64.ofNat nanosPerMinute).size ≤
      ticks * 2 ^ (36 : Int) := by
    refine Binary64.size_mul_le (Binary64.isMagnitude_ofNat _) (Binary64.isMagnitude_ofNat _)
      ticksFew ?_
    rw [Binary64.size_ofNat ticksFew, Binary64.size_ofNat (by decide)]
    gcongr
    norm_num [nanosPerMinute]
  have divisor : (512 : ℚ) ≤ (Binary64.ofNat tempo * Binary64.ofNat ticksPerQuarter).size := by
    have least := @Binary64.le_size_mul (.ofNat tempo) (.ofNat ticksPerQuarter) 512 0
      (Binary64.isMagnitude_ofNat _) (Binary64.isMagnitude_ofNat _) (by norm_num) ?_
    · simpa using least
    · rw [Binary64.size_ofNat tempoSmall, Binary64.size_ofNat (by decide)]
      have one : (1 : ℚ) ≤ tempo := by exact_mod_cast positive
      norm_num [ticksPerQuarter]
      linarith
  have quotient := @Binary64.size_div_le (Binary64.ofNat ticks * Binary64.ofNat nanosPerMinute)
    (Binary64.ofNat tempo * Binary64.ofNat ticksPerQuarter) ticks 27
    ((Binary64.isMagnitude_ofNat _).mul (Binary64.isMagnitude_ofNat _))
    ((Binary64.isMagnitude_ofNat _).mul (Binary64.isMagnitude_ofNat _))
    (by linarith) ticksFew ?_
  · rcases quotient with ⟨isMagnitude, bounded⟩
    have whole : ((134217728 * ticks : Nat) : ℚ) = ticks * 2 ^ (27 : Int) := by
      norm_num [mul_comm]
    have result := Binary64.toInt64_le isMagnitude (whole ▸ bounded)
    rwa [Int.natCast_mul] at result
  · calc _ ≤ (ticks * 2 ^ (36 : Int) : ℚ) / 512 := by gcongr
      _ = ticks * 2 ^ (27 : Int) := by ring

end MidiScore
