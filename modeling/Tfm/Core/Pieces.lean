import Mathlib.Algebra.GroupWithZero.Nat
import Mathlib.Data.List.Basic

/-!
# Ranges taken piece by piece

A range of addresses that is gone through from its start, a piece at a time: each
piece starts where the one before ended. A piece is a start and a length.

* `Consecutive.snoc`: the next piece.
* `flatMap_slice`: what consecutive pieces hold is what the range holds.
* `blit_inside`, `blit_outside`: a copy into memory.
* `blit_window`: a window that is read, changed in one place and written back.
-/
namespace Tfm.Pieces

def total (l : List (Nat × Nat)) : Nat := (l.map Prod.snd).sum

/-- Each piece starts where the one before ended, and the first at `a`. -/
def Consecutive : Nat → List (Nat × Nat) → Prop
  | _, [] => True
  | a, (b, n) :: l => b = a ∧ Consecutive (a + n) l

@[simp] theorem total_nil : total [] = 0 := rfl

@[simp] theorem total_cons (p : Nat × Nat) (l : List (Nat × Nat)) :
    total (p :: l) = p.2 + total l := by
  simp [total]

@[simp] theorem total_append (l l' : List (Nat × Nat)) : total (l ++ l') = total l + total l' := by
  simp [total]

theorem Consecutive.snoc {a : Nat} {l : List (Nat × Nat)} (h : Consecutive a l) {b : Nat}
    (hb : b = a + total l) (n : Nat) : Consecutive a (l ++ [(b, n)]) := by
  induction l generalizing a with
  | nil => exact ⟨by simpa using hb, trivial⟩
  | cons p l ih =>
    obtain ⟨hp, hl⟩ := h
    refine ⟨hp, ih hl ?_⟩
    rw [hb, total_cons]
    omega

section Memory

variable {α : Type}

def slice (mem : Nat → α) (a n : Nat) : List α := (List.range n).map fun i => mem (a + i)

@[simp] theorem length_slice (mem : Nat → α) (a n : Nat) : (slice mem a n).length = n := by
  simp [slice]

theorem slice_add (mem : Nat → α) (a m n : Nat) :
    slice mem a (m + n) = slice mem a m ++ slice mem (a + m) n := by
  simp [slice, List.range_add, Function.comp_def, Nat.add_assoc]

/-- The pieces together are the start of the range. -/
theorem flatMap_slice (mem : Nat → α) {a : Nat} {l : List (Nat × Nat)} (h : Consecutive a l) :
    l.flatMap (fun p => slice mem p.1 p.2) = slice mem a (total l) := by
  induction l generalizing a with
  | nil => rfl
  | cons p l ih =>
    obtain ⟨rfl, hl⟩ := h
    rw [List.flatMap_cons, ih hl, total_cons, slice_add]

/-- The memory with `l` at `a`. -/
def blit (mem : Nat → α) (a : Nat) (l : List α) : Nat → α := fun b =>
  if a ≤ b then (l[b - a]?).getD (mem b) else mem b

theorem blit_inside (mem : Nat → α) (a : Nat) (l : List α) (j : Nat) (h : j < l.length) :
    blit mem a l (a + j) = l.get ⟨j, h⟩ := by
  simp [blit, h]

theorem blit_outside (mem : Nat → α) (a : Nat) (l : List α) (b : Nat)
    (h : b < a ∨ a + l.length ≤ b) : blit mem a l b = mem b := by
  unfold blit
  split
  · rw [List.getElem?_eq_none (by omega)]
    rfl
  · rfl

/-- A copy from a memory, address by address. -/
theorem blit_slice (mem g : Nat → α) (a b n x : Nat) :
    blit mem a (slice g b n) x = if a ≤ x ∧ x < a + n then g (b + (x - a)) else mem x := by
  by_cases h : a ≤ x ∧ x < a + n
  · have hlt : x - a < (slice g b n).length := by
      rw [length_slice]
      omega
    have hin := blit_inside mem a (slice g b n) (x - a) hlt
    rw [Nat.add_sub_cancel' h.1] at hin
    rw [if_pos h, hin]
    simp [slice]
  · rw [if_neg h]
    apply blit_outside
    rw [length_slice]
    omega

/-- Two copies, one after the other. -/
theorem blit_append (mem : Nat → α) (a : Nat) (l l' : List α) :
    blit mem a (l ++ l') = blit (blit mem a l) (a + l.length) l' := by
  funext x
  by_cases h : a + l.length ≤ x
  · have hsub : x - a - l.length = x - (a + l.length) := by omega
    rw [blit, blit, if_pos (by omega), if_pos h, List.getElem?_append_right (by omega), hsub,
      blit_outside mem a l x (.inr h)]
  · rw [blit_outside _ _ l' x (.inl (by omega))]
    by_cases ha : a ≤ x
    · rw [blit, blit, if_pos ha, if_pos ha, List.getElem?_append_left (by omega)]
    · rw [blit_outside _ _ _ x (.inl (by omega)), blit_outside _ _ _ x (.inl (by omega))]

/-- A copy of what is there, around a range that is not touched by it. -/
theorem blit_slice_self {mem mem' : Nat → α} {a n : Nat}
    (h : ∀ x, a ≤ x → x < a + n → mem x = mem' x) : blit mem' a (slice mem a n) = mem' := by
  funext x
  rw [blit_slice]
  split
  · next hin => rw [Nat.add_sub_cancel' hin.1, h x hin.1 hin.2]
  · rfl

/-- **Read, modify, write.** A window that is read, changed in one place and
written back is a copy to that place. -/
theorem blit_window (mem : Nat → α) (a : Nat) {o n : Nat} {l : List α} (h : o + l.length ≤ n) :
    blit mem a ((slice mem a n).take o ++ l ++ (slice mem a n).drop (o + l.length)) =
      blit mem (a + o) l := by
  obtain ⟨r, hr⟩ : ∃ r, n = o + l.length + r := ⟨n - (o + l.length), by omega⟩
  have htake : (slice mem a n).take o = slice mem a o := by
    rw [hr, Nat.add_assoc, slice_add, List.take_left' (length_slice mem a o)]
  have hdrop : (slice mem a n).drop (o + l.length) = slice mem (a + (o + l.length)) r := by
    rw [hr, slice_add, List.drop_left' (length_slice mem a _)]
  have hplace : a + (slice mem a o ++ l).length = a + (o + l.length) := by
    rw [List.length_append, length_slice]
  rw [htake, hdrop, blit_append, hplace, blit_append, length_slice,
    blit_slice_self (fun _ _ _ => rfl), blit_slice_self]
  intro x hlow _
  exact (blit_outside mem (a + o) l x (.inr (by omega))).symm

end Memory

end Tfm.Pieces
