import Mathlib.Data.UInt
import Tfm.Core.Bytes

/-!
# A byte memory with accesses of three widths

A memory of bytes at 32-bit addresses, accessed by bytes, half-words and words;
a value of several bytes is little-endian, and addresses wrap. Every access is
logged with its width, so that alignment and footprint are statements about the
log.

A region is a start and a length: the address `x` is at place `(x - a).toNat` of
the region that starts at `a`. In these terms a copy that is under way is one
function (`PartCopied`), whether it goes up or down, and one lemma says what the
next access adds to it (`PartCopied.copy`). The source may overlap the
destination; what the step needs is that the bytes it reads are not copied over
yet.
-/
namespace Tfm.WordMem
open Tfm.Bytes

/-- `uint8_t`, `uint16_t` and `uint32_t` accesses. -/
inductive Width
  | byte
  | half
  | word
  deriving DecidableEq, Repr

def Width.bytes : Width → Nat
  | .byte => 1
  | .half => 2
  | .word => 4

inductive Dir
  | read
  | write
  deriving DecidableEq, Repr

structure Access where
  dir : Dir
  width : Width
  addr : UInt32
  deriving DecidableEq, Repr

/-- Naturally aligned. -/
def Access.Aligned (a : Access) : Prop := a.addr.toNat % a.width.bytes = 0

/-- Every byte of the access is in the `n` bytes from `r` on. -/
def Access.Inside (a : Access) (r : UInt32) (n : Nat) : Prop :=
  ∀ i < a.width.bytes, (a.addr + UInt32.ofNat i - r).toNat < n

structure Machine where
  mem : UInt32 → UInt8
  log : List Access

def bytesAt (mem : UInt32 → UInt8) (a : UInt32) (k : Nat) : List UInt8 :=
  (List.range k).map fun i => mem (a + UInt32.ofNat i)

namespace Machine

def load (w : Width) (a : UInt32) (m : Machine) : Nat × Machine :=
  (ofLe (bytesAt m.mem a w.bytes), { m with log := m.log ++ [⟨.read, w, a⟩] })

def store (w : Width) (a : UInt32) (v : Nat) (m : Machine) : Machine :=
  { mem := fun x => ((le w.bytes v)[(x - a).toNat]?).getD (m.mem x)
    log := m.log ++ [⟨.write, w, a⟩] }

/-- `*d = *s`: the value is loaded whole before it is stored. -/
def copy (w : Width) (d s : UInt32) (m : Machine) : Machine :=
  (m.load w s).2.store w d (m.load w s).1

variable (m : Machine)

@[simp] theorem load_mem (w : Width) (a : UInt32) : (m.load w a).2.mem = m.mem := rfl

@[simp] theorem log_copy (w : Width) (d s : UInt32) :
    (m.copy w d s).log = m.log ++ [⟨.read, w, s⟩] ++ [⟨.write, w, d⟩] := rfl

@[simp] theorem log_store (w : Width) (a : UInt32) (v : Nat) :
    (m.store w a v).log = m.log ++ [⟨.write, w, a⟩] := rfl

/-- The bytes of a stored value, and every other byte as it was. -/
theorem mem_store (w : Width) (a x : UInt32) {v : Nat} {l : List UInt8} (hv : le w.bytes v = l) :
    (m.store w a v).mem x = (l[(x - a).toNat]?).getD (m.mem x) := by
  rw [← hv, store]

theorem mem_copy (w : Width) (d s x : UInt32) :
    (m.copy w d s).mem x =
      if (x - d).toNat < w.bytes then m.mem (s + (x - d)) else m.mem x := by
  have hlen : (bytesAt m.mem s w.bytes).length = w.bytes := by simp [bytesAt]
  have hle : le w.bytes (ofLe (bytesAt m.mem s w.bytes)) = bytesAt m.mem s w.bytes := by
    have h := le_ofLe (bytesAt m.mem s w.bytes)
    rwa [hlen] at h
  rw [copy, show (m.load w s).1 = ofLe (bytesAt m.mem s w.bytes) from rfl,
    mem_store (m.load w s).2 w d x hle, bytesAt]
  by_cases h : (x - d).toNat < w.bytes
  · rw [if_pos h, List.getElem?_map, List.getElem?_range h]
    simp
  · rw [if_neg h, List.getElem?_eq_none (by simpa using h)]
    rfl

end Machine

/-! ## A copy under way -/

/-- The places `lo` to `hi` of the destination hold the bytes the source had;
all else is as it was. -/
def PartCopied (mem₀ mem : UInt32 → UInt8) (d s : UInt32) (lo hi : Nat) : Prop :=
  ∀ x, mem x =
    if lo ≤ (x - d).toNat ∧ (x - d).toNat < hi then mem₀ (s + (x - d)) else mem₀ x

theorem PartCopied.start (mem₀ : UInt32 → UInt8) (d s : UInt32) (k : Nat) :
    PartCopied mem₀ mem₀ d s k k := by
  intro x
  rw [if_neg]
  omega

/-- The place of an address in a region that starts further on. -/
theorem sub_add_toNat_lt {x d : UInt32} {t k : Nat} (h : t + k ≤ 2 ^ 32) :
    (x - (d + UInt32.ofNat t)).toNat < k ↔ t ≤ (x - d).toNat ∧ (x - d).toNat < t + k := by
  have hx := (x - d).toNat_lt
  have hsub : x - (d + UInt32.ofNat t) = x - d - UInt32.ofNat t := by
    grind
  by_cases hk : k = 0
  · omega
  · have ht : (UInt32.ofNat t).toNat = t := by
      rw [UInt32.toNat_ofNat', Nat.mod_eq_of_lt (by omega)]
    rw [hsub, UInt32.toNat_sub, ht]
    omega

/-- **One more access.** It reads bytes that are not copied over yet. -/
theorem PartCopied.copy {mem₀ : UInt32 → UInt8} {m : Machine} {d s : UInt32} {lo hi lo' hi' : Nat}
    (h : PartCopied mem₀ m.mem d s lo hi) (w : Width) (t : Nat) (hfit : t + w.bytes ≤ 2 ^ 32)
    (hsrc : ∀ k, t ≤ k → k < t + w.bytes →
      ¬ (lo ≤ (s + UInt32.ofNat k - d).toNat ∧ (s + UInt32.ofNat k - d).toNat < hi))
    (hjoin : ∀ k, lo' ≤ k ∧ k < hi' ↔ (lo ≤ k ∧ k < hi) ∨ (t ≤ k ∧ k < t + w.bytes)) :
    PartCopied mem₀ (m.copy w (d + UInt32.ofNat t) (s + UInt32.ofNat t)).mem d s lo' hi' := by
  intro x
  rw [Machine.mem_copy]
  by_cases hin : t ≤ (x - d).toNat ∧ (x - d).toNat < t + w.bytes
  · -- the byte is written now
    have hplace : s + UInt32.ofNat t + (x - (d + UInt32.ofNat t)) = s + (x - d) := by
      grind
    rw [if_pos ((sub_add_toNat_lt hfit).mpr hin), if_pos ((hjoin _).mpr (.inr hin)), hplace,
      h (s + (x - d)), if_neg]
    have hk := hsrc (x - d).toNat hin.1 hin.2
    rwa [UInt32.ofNat_toNat] at hk
  · rw [if_neg (fun hlt => hin ((sub_add_toNat_lt hfit).mp hlt)), h x]
    have hold : (lo' ≤ (x - d).toNat ∧ (x - d).toNat < hi') ↔
        (lo ≤ (x - d).toNat ∧ (x - d).toNat < hi) := by
      rw [hjoin]
      constructor
      · intro hor
        exact hor.resolve_right hin
      · exact .inl
    simp only [hold]

/-! ## A fill under way -/

/-- The first `hi` places hold `b`; all else is as it was. -/
def PartFilled (mem₀ mem : UInt32 → UInt8) (d : UInt32) (b : UInt8) (hi : Nat) : Prop :=
  ∀ x, mem x = if (x - d).toNat < hi then b else mem₀ x

theorem PartFilled.start (mem₀ : UInt32 → UInt8) (d : UInt32) (b : UInt8) :
    PartFilled mem₀ mem₀ d b 0 := by
  intro x
  rw [if_neg (Nat.not_lt_zero _)]

theorem PartFilled.store {mem₀ : UInt32 → UInt8} {m : Machine} {d : UInt32} {b : UInt8} {hi : Nat}
    (h : PartFilled mem₀ m.mem d b hi) (w : Width) {v : Nat}
    (hv : le w.bytes v = List.replicate w.bytes b) (hfit : hi + w.bytes ≤ 2 ^ 32) :
    PartFilled mem₀ (m.store w (d + UInt32.ofNat hi) v).mem d b (hi + w.bytes) := by
  intro x
  have hplace := sub_add_toNat_lt (x := x) (d := d) hfit
  rw [m.mem_store w _ x hv, List.getElem?_replicate]
  by_cases hin : (x - (d + UInt32.ofNat hi)).toNat < w.bytes
  · rw [if_pos hin, if_pos (hplace.mp hin).2, Option.getD_some]
  · rw [if_neg hin, Option.getD_none, h x]
    have hold : (x - d).toNat < hi + w.bytes ↔ (x - d).toNat < hi := by
      rw [hplace] at hin
      omega
    simp only [hold]

end Tfm.WordMem
