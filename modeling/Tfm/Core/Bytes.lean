import Mathlib.Data.Nat.ModEq
import Mathlib.Data.List.Basic

/-!
# Bytes in memory

Little-endian encoding of numbers, and circular buffers: `ringRead` and
`ringWrite` go through a buffer of `N` cells from a position that is taken modulo
`N`. Positions are not reduced in the statements, so that "after" and "before" are
plain inequalities: two windows are apart if one ends before the other starts and
the other ends before the first one comes around again.

Results: `ofLe_le`, `le_ofLe`, `ringRead_write`, `ringRead_write_of_apart`,
`ringRead_append`.
-/
namespace Tfm.Bytes

/-! ## Little-endian numbers -/

/-- The `n` low bytes of `x`, least significant first. -/
def le : Nat → Nat → List UInt8
  | 0, _ => []
  | n + 1, x => UInt8.ofNat x :: le n (x / 256)

def ofLe : List UInt8 → Nat
  | [] => 0
  | b :: l => b.toNat + 256 * ofLe l

@[simp] theorem length_le (n : Nat) : ∀ x, (le n x).length = n := by
  induction n with
  | zero => intro x; rfl
  | succ n ih => intro x; simp [le, ih]

theorem ofLe_le (n : Nat) : ∀ x, ofLe (le n x) = x % 256 ^ n := by
  induction n with
  | zero => intro x; simp [le, ofLe, Nat.mod_one]
  | succ n ih =>
    intro x
    calc _ = x % 256 + 256 * (x / 256 % 256 ^ n) := by rw [le, ofLe, ih, UInt8.toNat_ofNat']
      _ = x % (256 * 256 ^ n) := Nat.mod_mul.symm
      _ = x % 256 ^ (n + 1) := by rw [Nat.pow_succ']

theorem le_ofLe (l : List UInt8) : le l.length (ofLe l) = l := by
  induction l with
  | nil => rfl
  | cons b l ih =>
    have hb : b.toNat < 256 := b.toNat_lt
    have hmod : UInt8.ofNat (b.toNat + 256 * ofLe l) = b := by
      apply UInt8.toNat_inj.mp
      rw [UInt8.toNat_ofNat']
      omega
    have hdiv : (b.toNat + 256 * ofLe l) / 256 = ofLe l := by omega
    rw [List.length_cons, ofLe, le, hmod, hdiv, ih]

theorem ofLe_lt (l : List UInt8) : ofLe l < 256 ^ l.length := by
  induction l with
  | nil => exact Nat.one_pos
  | cons b l ih =>
    have hb : b.toNat < 256 := b.toNat_lt
    rw [ofLe, List.length_cons, Nat.pow_succ']
    omega

/-! ## Circular buffers -/

section Ring

variable {α : Type} {N : Nat}

/-- `n` cells from position `i`. -/
def ringRead (N : Nat) (b : Nat → α) (i n : Nat) : List α :=
  (List.range n).map fun k => b ((i + k) % N)

/-- The cells of `l`, one after the other, from position `i`. -/
def ringWrite (N : Nat) (b : Nat → α) (i : Nat) : List α → Nat → α
  | [] => b
  | x :: l => ringWrite N (fun j => if j = i % N then x else b j) (i + 1) l

@[simp] theorem length_ringRead (b : Nat → α) (i n : Nat) : (ringRead N b i n).length = n := by
  simp [ringRead]

/-- A position counts modulo the size. -/
theorem ringRead_mod (b : Nat → α) (i n : Nat) :
    ringRead N b (i % N) n = ringRead N b i n := by
  simp only [ringRead, Nat.mod_add_mod]

theorem ringWrite_mod (l : List α) : ∀ (b : Nat → α) (i : Nat),
    ringWrite N b (i % N) l = ringWrite N b i l := by
  induction l with
  | nil => intro b i; rfl
  | cons x l ih =>
    intro b i
    rw [ringWrite, ringWrite, Nat.mod_mod, ← ih _ (i % N + 1), Nat.mod_add_mod, ih]

theorem ringRead_succ (b : Nat → α) (i n : Nat) :
    ringRead N b i (n + 1) = b (i % N) :: ringRead N b (i + 1) n := by
  simp only [ringRead, List.range_succ_eq_map, List.map_cons, List.map_map, Nat.add_zero]
  congr 1
  apply List.map_congr_left
  intro k _
  simp only [Function.comp]
  congr 2
  omega

theorem ringRead_append (b : Nat → α) (m n : Nat) : ∀ i,
    ringRead N b i (m + n) = ringRead N b i m ++ ringRead N b (i + m) n := by
  induction m with
  | zero => intro i; simp [ringRead]
  | succ m ih =>
    intro i
    rw [show m + 1 + n = (m + n) + 1 by omega, ringRead_succ, ringRead_succ, ih,
      List.cons_append, show i + (m + 1) = i + 1 + m by omega]

theorem mod_ne_of_apart {i j : Nat} (h : j < i) (h' : i < j + N) : j % N ≠ i % N := by
  intro he
  have := Nat.le_of_dvd (by omega) ((Nat.modEq_iff_dvd' h.le).mp he)
  omega

/-- Cells outside of a write keep their contents. -/
theorem ringWrite_of_apart (l : List α) : ∀ (b : Nat → α) (i j : Nat), j < i →
    i + l.length ≤ j + N → ringWrite N b i l (j % N) = b (j % N) := by
  induction l with
  | nil => intro b i j _ _; rfl
  | cons x l ih =>
    intro b i j hj hl
    rw [List.length_cons] at hl
    rw [ringWrite, ih _ (i + 1) j (by omega) (by omega), if_neg]
    exact mod_ne_of_apart hj (by omega)

theorem ringRead_write_of_apart (b : Nat → α) (l : List α) {i j n : Nat} (h : j + n ≤ i)
    (h' : i + l.length ≤ j + N) : ringRead N (ringWrite N b i l) j n = ringRead N b j n := by
  apply List.map_congr_left
  intro k hk
  rw [List.mem_range] at hk
  exact ringWrite_of_apart l b i (j + k) (by omega) (by omega)

theorem ringRead_write (l : List α) : ∀ (b : Nat → α) (i : Nat), l.length ≤ N →
    ringRead N (ringWrite N b i l) i l.length = l := by
  induction l with
  | nil => intro b i _; rfl
  | cons x l ih =>
    intro b i hl
    rw [List.length_cons] at hl ⊢
    rw [ringRead_succ, ringWrite, ih _ (i + 1) (by omega),
      ringWrite_of_apart l _ (i + 1) i (by omega) (by omega), if_pos rfl]

end Ring

end Tfm.Bytes
