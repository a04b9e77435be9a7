import DynLisp.Arithmetic
import Mathlib.Data.Rat.Floor
import Mathlib.Tactic.Linarith
import Mathlib.Tactic.Ring

/-!
# Checked arithmetic is exact

The quotient of two integers is their exact quotient, a rational number, rounded toward zero
(`quotient_eq_roundTowardZero`).  The remainder is what the quotient leaves of the dividend.  It has
the sign of the dividend and is smaller in size than the divisor (`quotient_mul_add_remainder`,
`natAbs_remainder_lt`).  All of this is said of any two integers, and `IsDivision` puts it together.

Of two numbers of 32 bits the remainder is one as well, and so is the quotient, but for the least
number divided by `-1` (`inRange_quotient_iff`).  So an operator on numbers either has the exact
result, or this is no number and the operation is refused (`ArithOp.exact_or_refused`).
-/

namespace DynLisp

/-! ## Ranges -/

theorem inRange_of_checked {n m : Int} {subject : String} (h : checked n subject = .ok m) :
    inRange m = true := by
  rw [checked] at h
  split at h
  · next hrange =>
    obtain rfl := Except.ok.inj h
    exact hrange
  · cases h

theorem ArithOp.shown_ne_empty (op : ArithOp) (a b : Int) : op.shown a b ≠ "" := by
  intro h
  have hlist := congrArg String.toList h
  simp [shown] at hlist

/-- The exact result of an operation, where it is a number. -/
theorem checked_shown (n : Int) (op : ArithOp) (a b : Int) :
    checked n (op.shown a b) =
      if inRange n then .ok n else .error (.overflow (op.shown a b)) := by
  rw [checked, if_neg (op.shown_ne_empty a b)]

/-! ## Sizes and signs -/

@[simp] theorem natAbs_signed (negative : Bool) (size : Nat) :
    (signed negative size).natAbs = size := by
  cases negative
  · exact Int.natAbs_natCast size
  · exact (Int.natAbs_neg size).trans (Int.natAbs_natCast size)

/-- An integer is its size with its sign. -/
theorem signed_natAbs (a : Int) : signed (decide (a < 0)) a.natAbs = a := by
  by_cases ha : a < 0
  · simp only [signed, ha, decide_true, if_true]
    omega
  · simp only [signed, ha, decide_false, Bool.false_eq_true, if_false]
    omega

theorem signed_mul_signed (s t : Bool) (m n : Nat) :
    signed s m * signed t n = signed (s != t) (m * n) := by
  cases s <;> cases t <;> simp [signed]

theorem signed_add_signed (s : Bool) (m n : Nat) : signed s m + signed s n = signed s (m + n) := by
  cases s
  · simp [signed]
  · simp only [signed, if_true]
    omega

/-- The sign in front of a size that is not zero. -/
theorem sign_signed (s : Bool) (m : Nat) :
    m = 0 ∨ (signed s m).sign = if s then -1 else 1 := by
  rcases Nat.eq_zero_or_pos m with hm | hm
  · exact .inl hm
  · refine .inr ?_
    cases s
    · exact Int.sign_eq_one_of_pos (Int.natCast_pos.2 hm)
    · exact Int.sign_eq_neg_one_of_neg (Int.neg_neg_of_pos (Int.natCast_pos.2 hm))

/-! ## Quotient and remainder -/

theorem natAbs_quotient (a b : Int) : (quotient a b).natAbs = a.natAbs / b.natAbs :=
  natAbs_signed ..

theorem natAbs_remainder (a b : Int) : (remainder a b).natAbs = a.natAbs % b.natAbs :=
  natAbs_signed ..

theorem quotient_mul_add_remainder (a b : Int) : quotient a b * b + remainder a b = a := by
  have hproduct : quotient a b * b =
      signed (decide (a < 0)) (a.natAbs / b.natAbs * b.natAbs) := by
    conv_lhs => rw [quotient, ← signed_natAbs b, signed_mul_signed, signed_natAbs]
    congr 1
    cases decide (a < 0) <;> cases decide (b < 0) <;> rfl
  rw [hproduct, remainder, signed_add_signed, Nat.div_add_mod', signed_natAbs]

theorem natAbs_remainder_lt (a : Int) {b : Int} (hb : b ≠ 0) :
    (remainder a b).natAbs < b.natAbs := by
  rw [natAbs_remainder]
  exact Nat.mod_lt _ (Int.natAbs_pos.2 hb)

/-- A remainder is zero or on the side of the dividend. -/
theorem remainder_eq_zero_or_sign (a b : Int) :
    remainder a b = 0 ∨ (remainder a b).sign = a.sign := by
  rcases sign_signed (decide (a < 0)) (a.natAbs % b.natAbs) with hzero | hsign
  · exact .inl (by rw [← Int.natAbs_eq_zero, natAbs_remainder, hzero])
  · rcases sign_signed (decide (a < 0)) a.natAbs with ha | ha
    · exact .inl (by rw [← Int.natAbs_eq_zero, natAbs_remainder, ha, Nat.zero_mod])
    · rw [signed_natAbs] at ha
      exact .inr (hsign.trans ha.symm)

/-! ## Rounding toward zero -/

/-- A rational number rounded toward zero. -/
def roundTowardZero (x : ℚ) : ℤ := if 0 ≤ x then ⌊x⌋ else ⌈x⌉

theorem roundTowardZero_neg (x : ℚ) : roundTowardZero (-x) = -roundTowardZero x := by
  rcases lt_trichotomy x 0 with hx | rfl | hx
  · rw [roundTowardZero, roundTowardZero, if_pos (by linarith), if_neg (by linarith), Int.floor_neg]
  · simp [roundTowardZero]
  · rw [roundTowardZero, roundTowardZero, if_neg (by linarith), if_pos hx.le, Int.ceil_neg]

theorem roundTowardZero_natCast_div (m n : Nat) :
    roundTowardZero ((m : ℚ) / n) = (m / n : Nat) := by
  rw [roundTowardZero, if_pos (by positivity), Rat.floor_natCast_div_natCast]
  rfl

/-- The quotient of two integers is the rational number that they have as their quotient, rounded
toward zero. -/
theorem quotient_eq_roundTowardZero (a b : Int) :
    quotient a b = roundTowardZero ((a : ℚ) / b) := by
  have hround : ∀ negative : Bool, signed negative (a.natAbs / b.natAbs) =
      roundTowardZero (if negative then -((a.natAbs : ℚ) / b.natAbs) else a.natAbs / b.natAbs) := by
    rintro (_ | _)
    · exact (roundTowardZero_natCast_div a.natAbs b.natAbs).symm
    · simp only [if_true]
      rw [roundTowardZero_neg, roundTowardZero_natCast_div]
      rfl
  rw [quotient, hround]
  congr 1
  conv_rhs => rw [← signed_natAbs a, ← signed_natAbs b]
  cases decide (a < 0) <;> cases decide (b < 0) <;> simp [signed, div_neg, neg_div]

/-! ## Division of numbers -/

/-- `q` and `r` are what division of `a` by `b` gives: a quotient that is rounded toward zero, and
the remainder that it leaves. -/
structure IsDivision (a b q r : Int) : Prop where
  rounded : q = roundTowardZero ((a : ℚ) / b)
  recombined : q * b + r = a
  sign : r = 0 ∨ r.sign = a.sign
  smaller : |r| < |b|

theorem isDivision (a : Int) {b : Int} (hb : b ≠ 0) :
    IsDivision a b (quotient a b) (remainder a b) where
  rounded := quotient_eq_roundTowardZero a b
  recombined := quotient_mul_add_remainder a b
  sign := remainder_eq_zero_or_sign a b
  smaller := by
    rw [Int.abs_eq_natAbs, Int.abs_eq_natAbs]
    exact Int.ofNat_lt.2 (natAbs_remainder_lt a hb)

/-- A remainder is no further from zero than its dividend, and on the same side. -/
theorem inRange_remainder {a : Int} (b : Int) (ha : inRange a = true) :
    inRange (remainder a b) = true := by
  rw [inRange_iff, minNumber, maxNumber] at ha ⊢
  have hle : a.natAbs % b.natAbs ≤ a.natAbs := Nat.mod_le _ _
  rw [remainder, signed]
  by_cases hsign : a < 0
  · simp only [hsign, decide_true, if_true]
    omega
  · simp only [hsign, decide_false, Bool.false_eq_true, if_false]
    omega

/-- A quotient of numbers is a number, but for that of the least number by `-1`. -/
theorem inRange_quotient_iff {a b : Int} (ha : inRange a = true) (hb : b ≠ 0) :
    inRange (quotient a b) = true ↔ ¬(a = minNumber ∧ b = -1) := by
  rw [inRange_iff, minNumber, maxNumber] at ha ⊢
  have hsize := natAbs_quotient a b
  by_cases hone : b.natAbs = 1
  · have hrecombined := quotient_mul_add_remainder a b
    have hremainder := natAbs_remainder_lt a hb
    rcases Int.natAbs_eq b with hb' | hb' <;> rw [hone] at hb' <;> subst hb' <;> omega
  · -- a divisor of another size at least halves the dividend
    have hhalf : a.natAbs / b.natAbs ≤ a.natAbs / 2 := Nat.div_le_div_left (by omega) (by decide)
    omega

/-! ## Operators -/

theorem ArithOp.inRange_of_apply {op : ArithOp} {a b n : Int} (ha : inRange a = true)
    (h : op.apply a b = .ok n) : inRange n = true := by
  cases op with
  | add => exact inRange_of_checked h
  | sub => exact inRange_of_checked h
  | mul => exact inRange_of_checked h
  | div =>
    simp only [apply] at h
    split at h
    · cases h
    · exact inRange_of_checked h
  | mod =>
    simp only [apply] at h
    split at h
    · cases h
    · split at h
      · cases h
      · obtain rfl := Except.ok.inj h
        exact inRange_remainder b ha

/-- The quotient of numbers is refused where the remainder is, and nowhere else. -/
theorem ArithOp.div_apply {a : Int} (ha : inRange a = true) (b : Int) :
    div.apply a b =
      if b = 0 then .error (.divisionByZero a)
      else if a = minNumber ∧ b = -1 then .error (.overflow (div.shown a b))
      else .ok (quotient a b) := by
  rw [apply, checked_shown]
  by_cases hb : b = 0
  · rw [if_pos hb, if_pos hb]
  · rw [if_neg hb, if_neg hb]
    have hrange := inRange_quotient_iff ha hb
    by_cases hleast : a = minNumber ∧ b = -1
    · rw [if_pos hleast, if_neg (fun h => hrange.1 h hleast)]
    · rw [if_neg hleast, if_pos (hrange.2 hleast)]

/-- Quotients and remainders that are not refused belong together, whatever they are taken of. -/
theorem ArithOp.isDivision_of_apply {a b q r : Int} (hq : div.apply a b = .ok q)
    (hr : mod.apply a b = .ok r) : IsDivision a b q r := by
  have hb : b ≠ 0 := by
    rintro rfl
    cases hq
  rw [apply, if_neg hb, checked_shown] at hq
  rw [apply, if_neg hb] at hr
  split at hq
  · split at hr
    · cases hr
    · obtain rfl := Except.ok.inj hq
      obtain rfl := Except.ok.inj hr
      exact isDivision a hb
  · cases hq

/-- **Arithmetic is exact or refused.**  On numbers of 32 bits a sum, a difference and a product are
exact if they are numbers too, and refused as overflows otherwise.  A quotient and a remainder are
refused for the same numbers: for a divisor of zero, and for the least number divided by `-1`.  All
other numbers are divided: the quotient is rounded toward zero, and the remainder is a number, has
the sign of the dividend, is smaller in size than the divisor, and together with the quotient gives
back the dividend.  This is so of any integers whose quotient and remainder are not refused. -/
theorem arithmetic_exact :
    (∀ a b : Int, inRange a = true → inRange b = true →
      (∀ op n, (op, n) ∈ [(ArithOp.add, a + b), (.sub, a - b), (.mul, a * b)] →
        op.apply a b = if inRange n then .ok n else .error (.overflow (op.shown a b))) ∧
      ((∃ fault, ArithOp.div.apply a b = .error fault) ↔ b = 0 ∨ a = minNumber ∧ b = -1) ∧
      ((∃ fault, ArithOp.mod.apply a b = .error fault) ↔ b = 0 ∨ a = minNumber ∧ b = -1) ∧
      (¬(b = 0 ∨ a = minNumber ∧ b = -1) → ∃ q r, ArithOp.div.apply a b = .ok q ∧
        ArithOp.mod.apply a b = .ok r ∧ IsDivision a b q r ∧ inRange r = true)) ∧
    ∀ a b q r : Int, ArithOp.div.apply a b = .ok q → ArithOp.mod.apply a b = .ok r →
      IsDivision a b q r := by
  refine ⟨fun a b ha _ => ⟨?_, ?_, ?_, ?_⟩, fun a b q r => ArithOp.isDivision_of_apply⟩
  · intro op n hop
    rw [← checked_shown]
    simp only [List.mem_cons, Prod.mk.injEq, List.not_mem_nil, or_false] at hop
    rcases hop with ⟨rfl, rfl⟩ | ⟨rfl, rfl⟩ | ⟨rfl, rfl⟩ <;> rfl
  · rw [ArithOp.div_apply ha]
    split_ifs with hb hleast <;> simp [*]
  · rw [ArithOp.apply]
    split_ifs with hb hleast <;> simp [*]
  · intro hdivisible
    obtain ⟨hb, hleast⟩ := not_or.1 hdivisible
    have hq : ArithOp.div.apply a b = .ok (quotient a b) := by
      rw [ArithOp.div_apply ha, if_neg hb, if_neg hleast]
    have hr : ArithOp.mod.apply a b = .ok (remainder a b) := by
      rw [ArithOp.apply, if_neg hb, if_neg hleast]
    exact ⟨_, _, hq, hr, isDivision a hb, inRange_remainder b ha⟩

/-- The least number divided by `-1`, which is refused although the remainder would be zero; `-7`
divided by `2`; and an integer that is no number divided by `-3`. -/
theorem arithmetic_exact_signs :
    inRange minNumber = true ∧ inRange (-1) = true ∧
      (∃ fault, ArithOp.div.apply minNumber (-1) = .error fault) ∧
      (∃ fault, ArithOp.mod.apply minNumber (-1) = .error fault) ∧
      inRange (-7) = true ∧ inRange 2 = true ∧
      IsDivision (-7) 2 (-3) (-1) ∧
      ArithOp.div.apply 5000000000 (-3) = .ok (-1666666666) ∧
      ArithOp.mod.apply 5000000000 (-3) = .ok 2 ∧
      IsDivision 5000000000 (-3) (-1666666666) 2 := by
  obtain ⟨hnumbers, hall⟩ := arithmetic_exact
  have hleast : inRange minNumber = true := by decide
  have hminus : inRange (-1) = true := by decide
  have hseven : inRange (-7) = true := by decide
  have htwo : inRange 2 = true := by decide
  obtain ⟨-, hdiv, hmod, -⟩ := hnumbers minNumber (-1) hleast hminus
  obtain ⟨q, r, hq, hr, hdivision, -⟩ := (hnumbers (-7) 2 hseven htwo).2.2.2 (by decide)
  obtain rfl : q = -3 := (Except.ok.inj hq).symm
  obtain rfl : r = -1 := (Except.ok.inj hr).symm
  exact ⟨hleast, hminus, hdiv.2 (.inr ⟨rfl, rfl⟩), hmod.2 (.inr ⟨rfl, rfl⟩), hseven, htwo,
    hdivision, rfl, rfl, hall _ _ _ _ rfl rfl⟩

end DynLisp
