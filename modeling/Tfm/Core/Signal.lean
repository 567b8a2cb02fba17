import Mathlib.Algebra.Group.Nat.Defs

/-!
# Signal words

A `psa_signal_t` is a set of at most 32 signals, a bit each. Facts about such
words that hold whatever the signals mean: when a word has exactly one bit, and
when two words share none, after setting or clearing the bits of a third.
-/
namespace Tfm

abbrev Signal := BitVec 32

namespace Signal

/-- `IS_ONLY_ONE_BIT_IN_UINT32`.
mirrors secure_fw/spm/include/bitops.h:13-14 -/
def onlyOneBit (x : Signal) : Bool := x != 0 && (x &&& (x - 1)) == 0

/-- The word of one signal. -/
def bit (i : Nat) : Signal := BitVec.twoPow 32 i

theorem getLsbD_bit {i j : Nat} (hi : i < 32) : (bit i).getLsbD j = decide (i = j) := by
  simp [bit, BitVec.getLsbD_twoPow, hi]

theorem bit_toNat {i : Nat} (hi : i < 32) : (bit i).toNat = 2 ^ i := by
  rw [bit, BitVec.toNat_twoPow, Nat.mod_eq_of_lt]
  exact Nat.pow_lt_pow_right (by decide) hi

theorem onlyOneBit_iff {x : Signal} : onlyOneBit x = true ↔ ∃ i < 32, x = bit i := by
  have hsub : x ≠ 0 → (x - 1).toNat = x.toNat - 1 := by
    intro hx
    have hpos : x.toNat ≠ 0 := fun h => hx (BitVec.eq_of_toNat_eq h)
    have hlt := x.isLt
    rw [BitVec.toNat_sub]
    have h1 : (1 : BitVec 32).toNat = 1 := rfl
    rw [h1]
    omega
  have hpow : onlyOneBit x = true ↔ x.toNat.isPowerOfTwo := by
    rw [← Nat.ne_zero_and_sub_one_eq_zero_iff_isPowerOfTwo]
    unfold onlyOneBit
    rw [Bool.and_eq_true, bne_iff_ne, beq_iff_eq]
    constructor
    · intro ⟨h0, hand⟩
      refine ⟨fun h => h0 (BitVec.eq_of_toNat_eq h), ?_⟩
      rw [← hsub h0, ← BitVec.toNat_and, hand]
      rfl
    · intro ⟨h0, hand⟩
      have hx : x ≠ 0 := by
        intro h
        exact h0 (by simp [h])
      refine ⟨hx, BitVec.eq_of_toNat_eq ?_⟩
      rw [BitVec.toNat_and, hsub hx, hand]
      rfl
  rw [hpow]
  constructor
  · intro ⟨i, hi⟩
    have hlt : i < 32 := by
      have hx := x.isLt
      rw [hi] at hx
      exact (Nat.pow_lt_pow_iff_right (by decide)).1 hx
    exact ⟨i, hlt, BitVec.eq_of_toNat_eq (hi.trans (bit_toNat hlt).symm)⟩
  · intro ⟨i, hi, hx⟩
    exact ⟨i, hx ▸ bit_toNat hi⟩

/-- A word that has the one bit of another in common with it. -/
theorem and_bit_ne_zero {x : Signal} {i : Nat} (hi : i < 32) :
    x &&& bit i ≠ 0 ↔ x.getLsbD i = true := by
  constructor
  · intro h
    cases hx : x.getLsbD i with
    | true => rfl
    | false =>
      refine absurd (BitVec.eq_of_getLsbD_eq fun j _ => ?_) h
      rw [BitVec.getLsbD_and, getLsbD_bit hi]
      by_cases hij : i = j
      · subst hij
        simp [hx]
      · simp [hij]
  · intro hx h
    have hbit := congrArg (BitVec.getLsbD · i) h
    simp [BitVec.getLsbD_and, getLsbD_bit hi, hx] at hbit

/-- No bit in common, after bits were set. -/
theorem or_and_eq_zero {a m x : Signal} : (a ||| x) &&& m = 0 ↔ a &&& m = 0 ∧ m &&& x = 0 := by
  constructor
  · intro h
    constructor
    · apply BitVec.eq_of_getLsbD_eq
      intro i hi
      have hbit := congrArg (BitVec.getLsbD · i) h
      simp at hbit ⊢
      grind
    · apply BitVec.eq_of_getLsbD_eq
      intro i hi
      have hbit := congrArg (BitVec.getLsbD · i) h
      simp at hbit ⊢
      grind
  · intro ⟨ha, hx⟩
    apply BitVec.eq_of_getLsbD_eq
    intro i hi
    have hbit := congrArg (BitVec.getLsbD · i) ha
    have hbit' := congrArg (BitVec.getLsbD · i) hx
    simp at hbit hbit' ⊢
    grind

/-- A part of a word is a part of it after bits were set. -/
theorem and_or_eq {v a : Signal} (x : Signal) (h : v &&& a = v) : v &&& (a ||| x) = v := by
  apply BitVec.eq_of_getLsbD_eq
  intro i hi
  have hbit := congrArg (BitVec.getLsbD · i) h
  simp at hbit ⊢
  grind

end Signal

end Tfm
