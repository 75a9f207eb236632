/-
  Doubles that stand for whole numbers.

  ==== Problem ====

  Values are looked up by number, so `1`, `1.0` and `true` are one key.  For that to be sensible, a
  double must be told by the whole number it stands for: two doubles with the same whole value are
  the same number (`same_of_toInt?`), and equal doubles have the same whole value or both have none
  (`toInt?_eq_of_same`).

  ==== Program ====

  A double is a bit pattern of three fields, and determined by them (`eq_of_fields`).  Its whole
  value is the significand, scaled, with the sign in front (`toInt?_spec`).  The bit pattern is not
  unique in one place only, zero, which has two signs.

  ==== The crux ====

  `scaled_eq`: a significand with its leading bit set lies in `[2^52, 2^53)`, so scaling it by
  another power of two leaves that range, and a number has one significand.  Without the leading bit
  a double is too small to be whole, unless it is zero (`significand_eq_zero`).
-/
import Mathlib.Tactic.Ring
import RouteAtlas.Decimal.Double

namespace RouteAtlas.Decimal.Double

/-! ## The three fields of a bit pattern

Sign, exponent and fraction, as numbers.  A double is determined by them. -/

/-- The exponent field. -/
def exponentField (x : Double) : Nat := x.bits.toNat / Nat.pow 2 52 % 2048

/-- The fraction field. -/
def fractionField (x : Double) : Nat := x.bits.toNat % Nat.pow 2 52

/-- The significand, with the implicit leading bit unless the exponent field is zero. -/
def significand (x : Double) : Nat :=
  if x.exponentField = 0 then x.fractionField else x.fractionField + Nat.pow 2 52

/-- The exponent of the significand's last bit. -/
def scale (x : Double) : Int :=
  if x.exponentField = 0 then -1074 else (x.exponentField : Int) - 1075

/-- Sign, exponent and fraction make up the bit pattern. -/
theorem eq_of_fields {x y : Double} (hs : x.isNegative = y.isNegative)
    (he : x.exponentField = y.exponentField) (hf : x.fractionField = y.fractionField) : x = y := by
  have hx := x.bits.toNat_lt
  have hy := y.bits.toNat_lt
  have h63 : Nat.pow 2 63 = 9223372036854775808 := rfl
  have h52 : Nat.pow 2 52 = 4503599627370496 := rfl
  have hs' : x.bits.toNat ≥ Nat.pow 2 63 ↔ y.bits.toNat ≥ Nat.pow 2 63 := by
    simpa [isNegative] using hs
  rw [exponentField, exponentField, h52] at he
  rw [fractionField, fractionField, h52] at hf
  rw [h63] at hs'
  have hbits : x.bits.toNat = y.bits.toNat := by omega
  cases x
  cases y
  exact congrArg Double.mk (UInt64.toNat_inj.mp hbits)

/-- What a double stands for, by its fields. -/
theorem magnitude_eq (x : Double) : x.magnitude =
    if x.exponentField = 2047 then (if x.fractionField = 0 then .infinite else .nan)
    else .finite x.significand x.scale := by
  rw [significand, scale]
  show (if x.exponentField = 2047 then _ else if x.exponentField = 0 then _ else _) = _
  split
  · rfl
  · split <;> rfl

/-- Without the greatest exponent it is finite. -/
theorem magnitude_of_exponentField {x : Double} (h : x.exponentField ≠ 2047) :
    x.magnitude = .finite x.significand x.scale := by
  rw [magnitude_eq, if_neg h]

theorem magnitude_of_exponentField_max {x : Double} (h : x.exponentField = 2047) :
    x.magnitude = .infinite ∨ x.magnitude = .nan := by
  rw [magnitude_eq, if_pos h]
  split
  · exact Or.inl rfl
  · exact Or.inr rfl

/-! ## Whole values

A double with a whole value is told by that value, but for the sign of zero. -/

/-- A double with a whole value: the significand, scaled, is the value's size, and the sign bit its
    sign. -/
theorem toInt?_spec {x : Double} {n : Int} (h : x.toInt? = some n) :
    x.exponentField ≠ 2047 ∧
      n = (if x.isNegative then -1 else 1) * (n.natAbs : Int) ∧
      x.significand * 2 ^ x.scale.toNat = n.natAbs * 2 ^ (-x.scale).toNat := by
  have he : x.exponentField ≠ 2047 := by
    intro hmax
    rcases magnitude_of_exponentField_max hmax with hm | hm <;> simp [toInt?, hm] at h
  rw [toInt?, magnitude_of_exponentField he] at h
  refine ⟨he, ?_⟩
  have hsize : ∀ v : Nat, n = (if x.isNegative then -1 else 1) * (v : Int) → n.natAbs = v := by
    intro v hv
    rw [hv]
    split <;> omega
  show _ ∧ x.significand * 2 ^ x.scale.toNat = _
  dsimp only at h
  split at h
  · rename_i hq
    have hn := (Option.some.inj h).symm
    rw [hsize _ hn]
    have hz : (-x.scale).toNat = 0 := by omega
    exact ⟨hn, by rw [hz, Nat.pow_zero, Nat.mul_one, Nat.pow_eq]⟩
  · rename_i hq
    split at h
    · rename_i hdvd
      have hn := (Option.some.inj h).symm
      rw [hsize _ hn]
      have hz : x.scale.toNat = 0 := by omega
      refine ⟨hn, ?_⟩
      rw [hz, Nat.pow_zero, Nat.mul_one]
      exact (Nat.div_mul_cancel (Nat.dvd_of_mod_eq_zero hdvd)).symm
    · exact absurd h (by simp)

/-- With a zero exponent field the only whole value is zero. -/
theorem significand_eq_zero {x : Double} {n : Int} (h : x.toInt? = some n)
    (he : x.exponentField = 0) : x.significand = 0 := by
  obtain ⟨-, -, hval⟩ := toInt?_spec h
  have hq : x.scale = -1074 := by rw [scale, if_pos he]
  have hlt : x.significand < Nat.pow 2 52 := by
    rw [significand, if_pos he]
    exact Nat.mod_lt _ (by decide)
  have hbig : Nat.pow 2 52 ≤ 2 ^ (-x.scale).toNat :=
    Nat.pow_le_pow_right (by decide) (by omega)
  have hone : x.scale.toNat = 0 := by omega
  rw [hone, Nat.pow_zero, Nat.mul_one] at hval
  rcases Nat.eq_zero_or_pos n.natAbs with hz | hpos
  · rw [hval, hz, Nat.zero_mul]
  · have hle := Nat.mul_le_mul_right (2 ^ (-x.scale).toNat) hpos
    omega

/-- Significands with their leading bit set that agree after scaling were scaled alike.  If one was
    scaled less, the other one times two would still be below twice the leading bit. -/
theorem scaled_eq {m m' i j : Nat} (hm : Nat.pow 2 52 ≤ m) (hm2 : m < 2 * Nat.pow 2 52)
    (hm' : Nat.pow 2 52 ≤ m') (hm2' : m' < 2 * Nat.pow 2 52) (h : m * 2 ^ i = m' * 2 ^ j) :
    i = j ∧ m = m' := by
  have step : ∀ {m m' i j : Nat}, Nat.pow 2 52 ≤ m' → m < 2 * Nat.pow 2 52 →
      m * 2 ^ i = m' * 2 ^ j → j ≤ i := by
    intro m m' i j hm' hm2 h
    rcases Nat.lt_or_ge i j with hlt | hge
    · exfalso
      obtain ⟨k, rfl⟩ := Nat.exists_eq_add_of_lt hlt
      have hpos : 0 < 2 ^ i := Nat.two_pow_pos i
      have hsplit : m' * 2 ^ (i + k + 1) = (m' * (2 ^ k * 2)) * 2 ^ i := by
        rw [pow_succ, pow_add]
        ring
      rw [hsplit] at h
      have hm : m = m' * (2 ^ k * 2) := Nat.eq_of_mul_eq_mul_right hpos h
      have hk : 1 ≤ 2 ^ k := Nat.two_pow_pos k
      have : m' * 2 ≤ m' * (2 ^ k * 2) := Nat.mul_le_mul_left m' (by omega)
      omega
    · exact hge
  have hij : i = j := Nat.le_antisymm (step hm hm2' h.symm) (step hm' hm2 h)
  subst hij
  exact ⟨rfl, Nat.eq_of_mul_eq_mul_right (Nat.two_pow_pos i) h⟩

/-- With a leading bit the significand has 53 bits. -/
theorem significand_bounds {x : Double} (he : x.exponentField ≠ 0) :
    Nat.pow 2 52 ≤ x.significand ∧ x.significand < 2 * Nat.pow 2 52 := by
  have hf : x.fractionField < Nat.pow 2 52 := Nat.mod_lt _ (by decide)
  rw [significand, if_neg he]
  omega

/-- A number other than zero tells the sign. -/
theorem isNegative_eq {x y : Double} {n : Int} (hn : ¬n.natAbs = 0)
    (hx : n = (if x.isNegative then -1 else 1) * (n.natAbs : Int))
    (hy : n = (if y.isNegative then -1 else 1) * (n.natAbs : Int)) : x.isNegative = y.isNegative := by
  cases hxn : x.isNegative with
  | true =>
    cases hyn : y.isNegative with
    | true => rfl
    | false =>
      rw [hxn, if_pos rfl] at hx
      rw [hyn, if_neg Bool.false_ne_true] at hy
      omega
  | false =>
    cases hyn : y.isNegative with
    | true =>
      rw [hxn, if_neg Bool.false_ne_true] at hx
      rw [hyn, if_pos rfl] at hy
      omega
    | false => rfl

/-- **A whole value tells its double**: two doubles that stand for the same whole number are the
    same number. -/
theorem same_of_toInt? {x y : Double} {n : Int} (hx : x.toInt? = some n) (hy : y.toInt? = some n) :
    x.same y = true := by
  obtain ⟨hxe, hxs, hxv⟩ := toInt?_spec hx
  obtain ⟨hye, hys, hyv⟩ := toInt?_spec hy
  have hzero : ∀ {z : Double}, z.exponentField ≠ 2047 → z.significand = 0 → z.isZero = true := by
    intro z hz h0
    rw [isZero, magnitude_of_exponentField hz, h0]
    rfl
  have hpos : ∀ k : Nat, 0 < 2 ^ k := Nat.two_pow_pos
  rw [same]
  by_cases hn : n.natAbs = 0
  -- two zeros are equal, whatever their signs
  · rw [hn, Nat.zero_mul] at hxv hyv
    have hx0 := (Nat.mul_eq_zero.mp hxv).resolve_right (Nat.ne_of_gt (hpos _))
    have hy0 := (Nat.mul_eq_zero.mp hyv).resolve_right (Nat.ne_of_gt (hpos _))
    rw [hzero hxe hx0, hzero hye hy0]
    exact Bool.or_true _
  · have hne : ∀ {z : Double}, z.toInt? = some n → z.exponentField ≠ 0 := by
      intro z hz h0
      have hv := (toInt?_spec hz).2.2
      rw [significand_eq_zero hz h0, Nat.zero_mul] at hv
      rcases Nat.mul_eq_zero.mp hv.symm with h | h
      · exact hn h
      · exact Nat.ne_of_gt (hpos _) h
    have hxe0 := hne hx
    have hye0 := hne hy
    obtain ⟨hx1, hx2⟩ := significand_bounds hxe0
    obtain ⟨hy1, hy2⟩ := significand_bounds hye0
    -- both are the same value, so they agree once they are scaled alike
    have hcross : x.significand * 2 ^ (x.scale.toNat + (-y.scale).toNat)
        = y.significand * 2 ^ (y.scale.toNat + (-x.scale).toNat) := by
      rw [pow_add, pow_add, ← Nat.mul_assoc, ← Nat.mul_assoc, hxv, hyv]
      ring
    obtain ⟨hscale, hsig⟩ := scaled_eq hx1 hx2 hy1 hy2 hcross
    have hexp : x.exponentField = y.exponentField := by
      rw [scale, if_neg hxe0, scale, if_neg hye0] at hscale
      omega
    have hfrac : x.fractionField = y.fractionField := by
      rw [significand, if_neg hxe0, significand, if_neg hye0] at hsig
      omega
    have hsign : x.isNegative = y.isNegative := isNegative_eq hn hxs hys
    rw [eq_of_fields hsign hexp hfrac]
    simp

/-- Equal numbers have the same whole value, or both have none. -/
theorem toInt?_eq_of_same {x y : Double} (h : x.same y = true) : x.toInt? = y.toInt? := by
  have hzero : ∀ {z : Double}, z.isZero = true → z.toInt? = some 0 := by
    intro z hz
    have he : z.exponentField ≠ 2047 := by
      intro hmax
      rcases magnitude_of_exponentField_max hmax with hm | hm <;> simp [isZero, hm] at hz
    rw [isZero, magnitude_of_exponentField he] at hz
    have h0 : z.significand = 0 := by
      cases hs : z.significand with
      | zero => rfl
      | succ k => simp [hs] at hz
    rw [toInt?, magnitude_of_exponentField he, h0]
    simp
  have hor : (x == y) = true ∨ (x.isZero = true ∧ y.isZero = true) := by
    rw [same, Bool.or_eq_true, Bool.and_eq_true] at h
    exact h
  rcases hor with heq | ⟨hx, hy⟩
  · rw [eq_of_beq heq]
  · rw [hzero hx, hzero hy]

end RouteAtlas.Decimal.Double
