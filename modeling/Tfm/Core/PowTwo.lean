import Mathlib.Data.Nat.Bitwise

/-!
# Powers of two

`smear` fills a 32-bit word with ones below its highest one, by five shifts. Code that rounds
to a power of two does it first.

A block of eight parts of `sub` bytes has some of its parts enabled. When their union is an
interval, it starts and ends between two parts.

Results:
* `smear_eq`: the word is one less than a power of two.
* `parts_of_interval`: the interval in numbers of parts.
-/
namespace Tfm.PowTwo

/-- `y` is `x` with ones up to `w - 1` places below each of its ones. -/
def Smeared (x w y : Nat) : Prop := ∀ i, y.testBit i = true ↔ ∃ j < w, x.testBit (i + j) = true

theorem Smeared.one (x : Nat) : Smeared x 1 x := by
  intro i
  constructor
  · intro h
    exact ⟨0, Nat.one_pos, h⟩
  · intro hx
    obtain ⟨j, hj, h⟩ := hx
    have hj : j = 0 := by omega
    rw [hj] at h
    exact h

theorem Smeared.double {x w y : Nat} (h : Smeared x w y) : Smeared x (w + w) (y ||| y >>> w) := by
  intro i
  rw [Nat.testBit_or, Nat.testBit_shiftRight, Bool.or_eq_true, h i, h (w + i)]
  constructor
  · intro hx
    obtain ⟨j, hj, hb⟩ | ⟨j, hj, hb⟩ := hx
    · exact ⟨j, by omega, hb⟩
    · refine ⟨w + j, by omega, ?_⟩
      rw [show i + (w + j) = w + i + j by omega]
      exact hb
  · intro hx
    obtain ⟨j, hj, hb⟩ := hx
    by_cases hjw : j < w
    · exact .inl ⟨j, hjw, hb⟩
    · refine .inr ⟨j - w, by omega, ?_⟩
      rw [show w + i + (j - w) = i + j by omega]
      exact hb

theorem Smeared.eq {x w y : Nat} (h : Smeared x w y) (hx : x ≠ 0) (hw : x < 2 ^ w) :
    y = 2 ^ (x.log2 + 1) - 1 := by
  apply Nat.eq_of_testBit_eq
  intro i
  rw [Nat.testBit_two_pow_sub_one, Bool.eq_iff_iff, h i, decide_eq_true_eq]
  have hlog := (Nat.log2_lt hx).2 hw
  constructor
  · intro he
    obtain ⟨j, -, hb⟩ := he
    by_contra hi
    have hlt : x < 2 ^ (i + j) :=
      Nat.lt_of_lt_of_le Nat.lt_log2_self (Nat.pow_le_pow_right Nat.two_pos (by omega))
    rw [Nat.testBit_lt_two_pow hlt] at hb
    cases hb
  · intro hi
    refine ⟨x.log2 - i, by omega, ?_⟩
    rw [show i + (x.log2 - i) = x.log2 by omega]
    exact Nat.testBit_log2 hx

/-- `x |= x >> 1; x |= x >> 2; x |= x >> 4; x |= x >> 8; x |= x >> 16` -/
def smear (x : Nat) : Nat :=
  let x := x ||| x >>> 1
  let x := x ||| x >>> 2
  let x := x ||| x >>> 4
  let x := x ||| x >>> 8
  x ||| x >>> 16

theorem smear_eq {x : Nat} (hx : x ≠ 0) (h : x < 2 ^ 32) : smear x = 2 ^ (x.log2 + 1) - 1 :=
  (Smeared.one x).double.double.double.double.double.eq hx h

section Parts

variable {a sub base size : Nat}

/-- The number of the part that has the byte at `d`. -/
theorem div_eq_of_between {d e : Nat} (hlo : e * sub ≤ d) (hhi : d < (e + 1) * sub) :
    d / sub = e := by
  rw [Nat.mul_comm] at hlo hhi
  exact Nat.div_eq_of_lt_le (by rwa [Nat.mul_comm]) (by rwa [Nat.mul_comm])

/-- The parts that make up an interval: `c` of them, after the first `f`. -/
theorem parts_of_interval (enabled : Nat → Prop) (hsub : 0 < sub) (hsize : 0 < size)
    (h : ∀ b, (a ≤ b ∧ b < a + 8 * sub ∧ enabled ((b - a) / sub)) ↔ base ≤ b ∧ b < base + size) :
    ∃ f c, f + c ≤ 8 ∧ 0 < c ∧ base = a + f * sub ∧ size = c * sub := by
  obtain ⟨hab, hbend, hfirst⟩ := (h base).2 ⟨Nat.le_refl _, by omega⟩
  obtain ⟨-, hlend, hlast⟩ := (h (base + size - 1)).2 ⟨by omega, by omega⟩
  have hf := Nat.div_add_mod (base - a) sub
  have hfmod := Nat.mod_lt (base - a) hsub
  have he := Nat.div_add_mod (base + size - 1 - a) sub
  have hemod := Nat.mod_lt (base + size - 1 - a) hsub
  have he8 : (base + size - 1 - a) / sub < 8 := Nat.div_lt_of_lt_mul (by rw [Nat.mul_comm]; omega)
  have hfe : (base - a) / sub ≤ (base + size - 1 - a) / sub := Nat.div_le_div_right (by omega)
  generalize hfdef : (base - a) / sub = f at *
  generalize hedef : (base + size - 1 - a) / sub = e at *
  rw [Nat.mul_comm] at hf he
  have hesub : (e + 1) * sub = e * sub + sub := Nat.succ_mul e sub
  have hfsub : (f + 1) * sub = f * sub + sub := Nat.succ_mul f sub
  -- the byte before the first is in another part, and so is the byte behind the last
  have hstart : base = a + f * sub := by
    by_contra hne
    have hpart : (base - 1 - a) / sub = f := div_eq_of_between (by omega) (by omega)
    have hin := (h (base - 1)).1 ⟨by omega, by omega, by rw [hpart]; exact hfirst⟩
    omega
  have hstop : base + size = a + (e + 1) * sub := by
    by_contra hne
    have hpart : (base + size - a) / sub = e := div_eq_of_between (by omega) (by omega)
    have hroom : (e + 1) * sub ≤ 8 * sub := Nat.mul_le_mul_right sub (by omega)
    have hin := (h (base + size)).1 ⟨by omega, by omega, by rw [hpart]; exact hlast⟩
    omega
  refine ⟨f, e + 1 - f, by omega, by omega, hstart, ?_⟩
  rw [Nat.sub_mul]
  omega

/-- The other way round. -/
theorem interval_of_parts {f c b : Nat} (hsub : 0 < sub) (hfc : f + c ≤ 8) :
    (a ≤ b ∧ b < a + 8 * sub ∧ f ≤ (b - a) / sub ∧ (b - a) / sub < f + c) ↔
      a + f * sub ≤ b ∧ b < a + f * sub + c * sub := by
  rw [Nat.le_div_iff_mul_le hsub, Nat.div_lt_iff_lt_mul hsub, Nat.add_mul]
  have hroom : (f + c) * sub ≤ 8 * sub := Nat.mul_le_mul_right sub hfc
  rw [Nat.add_mul] at hroom
  omega

end Parts

end Tfm.PowTwo
