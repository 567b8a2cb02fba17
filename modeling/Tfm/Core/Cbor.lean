import Mathlib.Data.UInt
import Tfm.Core.Bytes

/-!
# CBOR

A data item starts with a head: the major type in the three high bits of the first byte, and a
number. Numbers below 24 stand in the low bits of that byte; for larger ones the low bits say
how many bytes follow, the most significant first. The contents of strings and the members of
arrays and maps come after their head.

`encode` writes every number in the shortest form.

Results: `ofBe_be`, `ofBe_cons`, `shortest_fits`, `initial_major`, `initial_info`.
-/
namespace Tfm.Cbor
open Tfm.Bytes

/-! ## Numbers, most significant byte first -/

def be (n x : Nat) : List UInt8 := (le n x).reverse

def ofBe (l : List UInt8) : Nat := ofLe l.reverse

@[simp] theorem length_be (n x : Nat) : (be n x).length = n := by simp [be]

@[simp] theorem be_zero (x : Nat) : be 0 x = [] := rfl

theorem be_succ (n x : Nat) : be (n + 1) x = be n (x / 256) ++ [UInt8.ofNat x] := by
  simp [be, le]

theorem ofBe_be {n x : Nat} (h : x < 256 ^ n) : ofBe (be n x) = x := by
  rw [ofBe, be, List.reverse_reverse, ofLe_le]
  exact Nat.mod_eq_of_lt h

theorem ofLe_append (l : List UInt8) : ∀ m, ofLe (l ++ m) = ofLe l + 256 ^ l.length * ofLe m := by
  induction l with
  | nil => intro m; simp [ofLe]
  | cons b l ih =>
    intro m
    rw [List.cons_append, ofLe, ih, ofLe, List.length_cons, Nat.pow_succ', Nat.mul_add,
      Nat.add_assoc, Nat.mul_assoc]

/-- The first byte is the most significant one. -/
theorem ofBe_cons (b : UInt8) (l : List UInt8) :
    ofBe (b :: l) = b.toNat * 256 ^ l.length + ofBe l := by
  rw [ofBe, List.reverse_cons, ofLe_append, List.length_reverse, ← ofBe]
  simp only [ofLe]
  rw [Nat.mul_zero, Nat.add_zero, Nat.mul_comm, Nat.add_comm]

/-! ## Heads -/

/-- How many bytes the number of a head has. -/
inductive Width
  | w0 | w1 | w2 | w4 | w8
  deriving DecidableEq, Repr

def Width.size : Width → Nat
  | .w0 => 0
  | .w1 => 1
  | .w2 => 2
  | .w4 => 4
  | .w8 => 8

/-- The low bits of the first byte. -/
def Width.info : Width → Nat → Nat
  | .w0, n => n
  | .w1, _ => 24
  | .w2, _ => 25
  | .w4, _ => 26
  | .w8, _ => 27

def Width.Fits : Width → Nat → Prop
  | .w0, n => n < 24
  | .w1, n => n < 256 ^ 1
  | .w2, n => n < 256 ^ 2
  | .w4, n => n < 256 ^ 4
  | .w8, n => n < 256 ^ 8

instance (w : Width) (n : Nat) : Decidable (w.Fits n) := by
  cases w <;> exact inferInstanceAs (Decidable (_ < _))

def shortest (n : Nat) : Width :=
  if n < 24 then .w0
  else if n < 256 then .w1
  else if n < 256 ^ 2 then .w2
  else if n < 256 ^ 4 then .w4
  else .w8

def headAs (w : Width) (major n : Nat) : List UInt8 :=
  UInt8.ofNat (32 * major + w.info n) :: be w.size n

def head (major n : Nat) : List UInt8 := headAs (shortest n) major n

theorem length_headAs (w : Width) (major n : Nat) : (headAs w major n).length = 1 + w.size := by
  simp [headAs, Nat.add_comm]

theorem shortest_fits {n : Nat} (h : n < 256 ^ 8) : (shortest n).Fits n := by
  unfold shortest
  split_ifs
  · assumption
  · simpa [Width.Fits] using ‹n < 256›
  · assumption
  · assumption
  · exact h

theorem Width.info_lt {w : Width} {n : Nat} (h : w.Fits n) : w.info n < 28 := by
  cases w with
  | w0 => exact Nat.lt_of_lt_of_le h (by decide)
  | w1 => simp [Width.info]
  | w2 => simp [Width.info]
  | w4 => simp [Width.info]
  | w8 => simp [Width.info]

/-- The first byte of a head holds the major type and the low bits. -/
theorem toNat_initial {major info : Nat} (hm : major < 8) (hi : info < 32) :
    (UInt8.ofNat (32 * major + info)).toNat = 32 * major + info := by
  rw [UInt8.toNat_ofNat']
  omega

theorem initial_major {major info : Nat} (hm : major < 8) (hi : info < 32) :
    (UInt8.ofNat (32 * major + info)).toNat / 32 = major := by
  rw [toNat_initial hm hi]
  omega

theorem initial_info {major info : Nat} (hm : major < 8) (hi : info < 32) :
    (UInt8.ofNat (32 * major + info)).toNat % 32 = info := by
  rw [toNat_initial hm hi]
  omega

theorem length_head_pos (major n : Nat) : 0 < (head major n).length := by
  rw [head, length_headAs]
  omega

theorem length_head_le (major n : Nat) : (head major n).length ≤ 9 := by
  rw [head, length_headAs]
  unfold shortest
  split_ifs <;> simp [Width.size]

/-! ## Items -/

/-- A data item. Members of maps are pairs of a label and a value. -/
inductive Item
  | uint (n : Nat)
  /-- The number −1 − `n`. -/
  | nint (n : Nat)
  | bytes (b : List UInt8)
  | text (b : List UInt8)
  | array (xs : List Item)
  | map (kvs : List (Item × Item))
  | tag (t : Nat) (x : Item)
  | simple (v : Nat)
  /-- A floating-point number, as the number its bits stand for. -/
  | float (w : Width) (bits : Nat)

/-- Simple values have no number, or one byte of at least 32; a float has two bytes or more. -/
def floatWidth : Width → Prop
  | .w2 => True
  | .w4 => True
  | .w8 => True
  | _ => False

mutual

/-- The number of heads around the innermost one. -/
def Item.depth : Item → Nat
  | .array xs => 1 + depthAll xs
  | .map kvs => 1 + depthPairs kvs
  | .tag _ x => x.depth
  | _ => 0

def depthAll : List Item → Nat
  | [] => 0
  | x :: xs => max x.depth (depthAll xs)

def depthPairs : List (Item × Item) → Nat
  | [] => 0
  | (k, v) :: kvs => max (max k.depth v.depth) (depthPairs kvs)

end

mutual

/-- Every number in its shortest form. -/
def encode : Item → List UInt8
  | .uint n => head 0 n
  | .nint n => head 1 n
  | .bytes b => head 2 b.length ++ b
  | .text b => head 3 b.length ++ b
  | .array xs => head 4 xs.length ++ encodeAll xs
  | .map kvs => head 5 kvs.length ++ encodePairs kvs
  | .tag t x => head 6 t ++ encode x
  | .simple v => head 7 v
  | .float w bits => headAs w 7 bits

def encodeAll : List Item → List UInt8
  | [] => []
  | x :: xs => encode x ++ encodeAll xs

def encodePairs : List (Item × Item) → List UInt8
  | [] => []
  | (k, v) :: kvs => encode k ++ (encode v ++ encodePairs kvs)

end

end Tfm.Cbor
