import Tfm.Core.While
import Tfm.Core.WordMem

/-!
# Memory functions of the partition runtime

Model of `memcpy`, `memmove`, `memset` and `memcmp` in
secure_fw/partitions/lib/sprt/crt_*.c, over a byte memory at 32-bit addresses
with a log of the accesses. The copies go by bytes until both addresses are
even, by half-words until both are multiples of four, then by words, then by
bytes; `memcpy_r` does the same downwards from the ends. One definition,
`Mover.run`, has the four loops; the two directions are the step that it takes.

Results:
* `Mover.run_rule`: what every step keeps, at addresses that are aligned to the
  width of the step, holds after the loops, and nothing is left to copy.
* `memcpy_moved`: a copy upwards is right wherever a byte is read before it is
  written over, which covers `dest ≤ src` and regions that are apart.
* `memcpyR_moved`, `memmove_moved`, `memset_filled`, `memcmp_sign`: the other
  functions, for all regions that do not wrap.
* `memcpy_aligned` and its siblings: all accesses are aligned.
-/
namespace Tfm.L2.Crt
open Tfm.Bytes Tfm.While Tfm.WordMem

/-- mirrors secure_fw/partitions/lib/sprt/crt_impl_private.h:14 -/
def bit0 (x : UInt32) : Bool := x &&& 1 != 0

/-- mirrors secure_fw/partitions/lib/sprt/crt_impl_private.h:15 -/
def bit1 (x : UInt32) : Bool := x &&& 2 != 0

/-! ## Copies -/

/-- The variables of a copy: what is left, and the two pointers. -/
structure Cur where
  n : Nat
  dest : UInt32
  src : UInt32
  m : Machine

/-- A width as an address difference. -/
def size (w : Width) : UInt32 := UInt32.ofNat w.bytes

/-- `*p_dest++ = *p_src++; n -= w`. -/
def Cur.up (w : Width) (c : Cur) : Cur :=
  { n := c.n - w.bytes, dest := c.dest + size w, src := c.src + size w
    m := c.m.copy w c.dest c.src }

/-- `*--p_dest = *--p_src; n -= w`. -/
def Cur.down (w : Width) (c : Cur) : Cur :=
  { n := c.n - w.bytes, dest := c.dest - size w, src := c.src - size w
    m := c.m.copy w (c.dest - size w) (c.src - size w) }

/-- A direction: a step of each width, which keeps what the addresses are
modulo the width. -/
structure Mover where
  step : Width → Cur → Cur
  step_n : ∀ w c, (step w c).n = c.n - w.bytes
  step_dest : ∀ w c, (step w c).dest.toNat % w.bytes = c.dest.toNat % w.bytes
  step_src : ∀ w c, (step w c).src.toNat % w.bytes = c.src.toNat % w.bytes

theorem bytes_pos (w : Width) : 0 < w.bytes := by
  cases w <;> decide

theorem add_size_mod (w : Width) (x : UInt32) :
    (x + size w).toNat % w.bytes = x.toNat % w.bytes := by
  have hx := x.toNat_lt
  cases w with
  | byte => exact (Nat.mod_one _).trans (Nat.mod_one _).symm
  | half =>
    rw [UInt32.toNat_add, show (size .half).toNat = 2 from rfl]
    show _ % 2 = _ % 2
    omega
  | word =>
    rw [UInt32.toNat_add, show (size .word).toNat = 4 from rfl]
    show _ % 4 = _ % 4
    omega

theorem sub_size_mod (w : Width) (x : UInt32) :
    (x - size w).toNat % w.bytes = x.toNat % w.bytes := by
  have h := add_size_mod w (x - size w)
  rw [UInt32.sub_add_cancel] at h
  exact h.symm

def upward : Mover where
  step := Cur.up
  step_n := fun _ _ => rfl
  step_dest := fun w c => add_size_mod w c.dest
  step_src := fun w c => add_size_mod w c.src

def downward : Mover where
  step := Cur.down
  step_n := fun _ _ => rfl
  step_dest := fun w c => sub_size_mod w c.dest
  step_src := fun w c => sub_size_mod w c.src

namespace Mover
variable (mv : Mover)

/-- A step of a width makes what is left smaller. -/
theorem step_lt (w : Width) (c : Cur) (h : w.bytes ≤ c.n) : (mv.step w c).n < c.n := by
  have hw := bytes_pos w
  rw [mv.step_n]
  omega

/-- Byte copy for an unaligned address. -/
def byteLoop : Cur → Cur :=
  whileDo (fun c => decide (1 ≤ c.n) && (bit0 c.dest || bit0 c.src)) (mv.step .byte) Cur.n
    fun c h => mv.step_lt .byte c (of_decide_eq_true (Bool.and_eq_true_iff.mp h).1)

/-- Double byte copy for aligned addresses. -/
def halfLoop : Cur → Cur :=
  whileDo (fun c => decide (2 ≤ c.n) && (bit1 c.dest || bit1 c.src)) (mv.step .half) Cur.n
    fun c h => mv.step_lt .half c (of_decide_eq_true (Bool.and_eq_true_iff.mp h).1)

/-- Quad byte copy for aligned addresses. -/
def wordLoop : Cur → Cur :=
  whileDo (fun c => decide (4 ≤ c.n)) (mv.step .word) Cur.n
    fun c h => mv.step_lt .word c (of_decide_eq_true h)

/-- Byte copy for the remaining bytes. -/
def restLoop : Cur → Cur :=
  whileDo (fun c => decide (1 ≤ c.n)) (mv.step .byte) Cur.n
    fun c h => mv.step_lt .byte c (of_decide_eq_true h)

def run (c : Cur) : Cur := mv.restLoop (mv.wordLoop (mv.halfLoop (mv.byteLoop c)))

end Mover

/-- mirrors secure_fw/partitions/lib/sprt/crt_memcpy.c:10-46 -/
def memcpy (dest src n : UInt32) (m : Machine) : UInt32 × Machine :=
  (dest, (upward.run { n := n.toNat, dest := dest, src := src, m := m }).m)

/-- mirrors secure_fw/partitions/lib/sprt/crt_memmove.c:11-46 -/
def memcpyR (dest src n : UInt32) (m : Machine) : UInt32 × Machine :=
  (dest, (downward.run { n := n.toNat, dest := dest + n, src := src + n, m := m }).m)

/-- mirrors secure_fw/partitions/lib/sprt/crt_memmove.c:52-66 -/
def memmove (dest src n : UInt32) (m : Machine) : UInt32 × Machine :=
  if src ≥ dest then (dest, (memcpy dest src n m).2) else (dest, (memcpyR dest src n m).2)

/-! ## Fill and compare -/

/-- The variables of `memset`. -/
structure Fill where
  n : Nat
  p : UInt32
  m : Machine

def Fill.put (w : Width) (v : Nat) (f : Fill) : Fill :=
  { n := f.n - w.bytes, p := f.p + size w, m := f.m.store w f.p v }

theorem Fill.put_lt (w : Width) (v : Nat) (f : Fill) (h : w.bytes ≤ f.n) :
    (f.put w v).n < f.n := by
  have hw := bytes_pos w
  show f.n - w.bytes < f.n
  omega

def quadPattern (b : UInt8) : UInt32 :=
  (b.toUInt32 <<< 24) ||| (b.toUInt32 <<< 16) ||| (b.toUInt32 <<< 8) ||| b.toUInt32

def fillHead (b : UInt8) : Fill → Fill :=
  whileDo (fun f => decide (1 ≤ f.n) && (f.p &&& 3 != 0)) (Fill.put .byte b.toNat) Fill.n
    fun f h => f.put_lt .byte _ (of_decide_eq_true (Bool.and_eq_true_iff.mp h).1)

def fillWords (b : UInt8) : Fill → Fill :=
  whileDo (fun f => decide (4 ≤ f.n)) (Fill.put .word (quadPattern b).toNat) Fill.n
    fun f h => f.put_lt .word _ (of_decide_eq_true h)

def fillRest (b : UInt8) : Fill → Fill :=
  whileDo (fun f => decide (1 ≤ f.n)) (Fill.put .byte b.toNat) Fill.n
    fun f h => f.put_lt .byte _ (of_decide_eq_true h)

/-- mirrors secure_fw/partitions/lib/sprt/crt_memset.c:10-34 -/
def memset (s : UInt32) (c : Int32) (n : UInt32) (m : Machine) : UInt32 × Machine :=
  let b : UInt8 := c.toUInt32.toUInt8
  (s, (fillRest b (fillWords b (fillHead b { n := n.toNat, p := s, m := m }))).m)

/-- The variables of `memcmp`. -/
structure Cmp where
  n : Nat
  p1 : UInt32
  p2 : UInt32
  result : Int
  m : Machine

/-- `*p1` and `*p2`, as bytes. -/
def Cmp.read (c : Cmp) : Nat × Nat × Machine :=
  let x := c.m.load .byte c.p1
  let y := x.2.load .byte c.p2
  (x.1, y.1, y.2)

/-- The body of the loop. The pointers stay where they are in the turn that
finds the difference. -/
def Cmp.turn (c : Cmp) : Cmp :=
  let (x, y, m) := c.read
  if x ≠ y ∧ c.result = 0 then
    let (x, y, m) := ({ c with m := m } : Cmp).read
    { c with n := c.n - 1, result := (x : Int) - (y : Int), m := m }
  else { c with n := c.n - 1, p1 := c.p1 + 1, p2 := c.p2 + 1, m := m }

theorem Cmp.turn_lt (c : Cmp) (h : decide (1 ≤ c.n) = true) : c.turn.n < c.n := by
  have hn : 1 ≤ c.n := of_decide_eq_true h
  have hturn : c.turn.n = c.n - 1 := by
    unfold Cmp.turn
    dsimp only
    split <;> rfl
  omega

/-- mirrors secure_fw/partitions/lib/sprt/crt_memcmp.c:11-25 -/
def memcmp (s1 s2 n : UInt32) (m : Machine) : Int × Machine :=
  let c := whileDo (fun c : Cmp => decide (1 ≤ c.n)) Cmp.turn Cmp.n Cmp.turn_lt
    { n := n.toNat, p1 := s1, p2 := s2, result := 0, m := m }
  (c.result, c.m)

/-! ## Alignment -/

theorem even_of_bit0 {x : UInt32} (h : bit0 x = false) : x.toNat % 2 = 0 := by
  have hz : x &&& 1 = 0 := by simpa [bit0] using h
  have hnat := congrArg UInt32.toNat hz
  rw [UInt32.toNat_and, show (1 : UInt32).toNat = 2 ^ 1 - 1 from rfl,
    Nat.and_two_pow_sub_one_eq_mod] at hnat
  exact hnat

theorem quad_of_bit1 {x : UInt32} (h2 : x.toNat % 2 = 0) (h : bit1 x = false) :
    x.toNat % 4 = 0 := by
  have hz : x &&& 2 = 0 := by simpa [bit1] using h
  have hnat := congrArg (fun y : UInt32 => y.toNat.testBit 1) hz
  have hbit : x.toNat.testBit 1 = false := by
    rw [UInt32.toNat_and, Nat.testBit_and, show (2 : UInt32).toNat.testBit 1 = true from rfl,
      Bool.and_true] at hnat
    exact hnat
  rw [Nat.testBit_eq_decide_div_mod_eq] at hbit
  have hdiv : ¬ x.toNat / 2 ^ 1 % 2 = 1 := of_decide_eq_false hbit
  omega

theorem quad_of_and3 {x : UInt32} (h : (x &&& 3 != 0) = false) : x.toNat % 4 = 0 := by
  have hz : x &&& 3 = 0 := by simpa using h
  have hnat := congrArg UInt32.toNat hz
  rw [UInt32.toNat_and, show (3 : UInt32).toNat = 2 ^ 2 - 1 from rfl,
    Nat.and_two_pow_sub_one_eq_mod] at hnat
  exact hnat

/-- Both addresses are aligned to the width. -/
def Cur.At (w : Width) (c : Cur) : Prop :=
  c.dest.toNat % w.bytes = 0 ∧ c.src.toNat % w.bytes = 0

theorem Cur.at_byte (c : Cur) : c.At .byte := ⟨Nat.mod_one _, Nat.mod_one _⟩

/-- A step of a width leaves the addresses aligned to it. -/
theorem Mover.at_step (mv : Mover) {w : Width} {c : Cur} (h : c.At w) : (mv.step w c).At w := by
  constructor
  · rw [mv.step_dest]
    exact h.1
  · rw [mv.step_src]
    exact h.2

/-- **The rule of the four loops.** An invariant has to be kept only by steps
at addresses that are aligned to the width of the step. -/
theorem Mover.run_rule (mv : Mover) (P : Cur → Prop)
    (keep : ∀ w c, P c → w.bytes ≤ c.n → c.At w → P (mv.step w c)) (c : Cur) (h : P c) :
    P (mv.run c) ∧ (mv.run c).n = 0 := by
  -- bytes, until nothing is left or both addresses are even
  have h1 : P (mv.byteLoop c) ∧ _ := whileDo_rule P
    (fun c hP hg =>
      keep .byte c hP (of_decide_eq_true (Bool.and_eq_true_iff.mp hg).1) c.at_byte) c h
  have heven : 2 ≤ (mv.byteLoop c).n → (mv.byteLoop c).At .half := by
    intro hn
    have hg := h1.2
    rw [Bool.and_eq_false_iff, decide_eq_false_iff_not, Bool.or_eq_false_iff] at hg
    have hbits := hg.resolve_left (fun hlt => hlt (Nat.le_of_succ_le hn))
    exact ⟨even_of_bit0 hbits.1, even_of_bit0 hbits.2⟩
  -- half-words, until one is not left or both addresses are multiples of four
  have h2 : (P (mv.halfLoop (mv.byteLoop c)) ∧ (2 ≤ (mv.halfLoop (mv.byteLoop c)).n →
      (mv.halfLoop (mv.byteLoop c)).At .half)) ∧ _ :=
    whileDo_rule (fun c => P c ∧ (2 ≤ c.n → c.At .half))
      (fun c hP hg => by
        have hn : 2 ≤ c.n := of_decide_eq_true (Bool.and_eq_true_iff.mp hg).1
        exact ⟨keep .half c hP.1 hn (hP.2 hn), fun _ => mv.at_step (hP.2 hn)⟩)
      (mv.byteLoop c) ⟨h1.1, heven⟩
  have hquad : 4 ≤ (mv.halfLoop (mv.byteLoop c)).n → (mv.halfLoop (mv.byteLoop c)).At .word := by
    intro hn
    have hhalf := h2.1.2 (by omega)
    have hg := h2.2
    rw [Bool.and_eq_false_iff, decide_eq_false_iff_not, Bool.or_eq_false_iff] at hg
    have htwo : 2 ≤ (mv.halfLoop (mv.byteLoop c)).n := by omega
    have hbits := hg.resolve_left (fun hlt => hlt htwo)
    exact ⟨quad_of_bit1 hhalf.1 hbits.1, quad_of_bit1 hhalf.2 hbits.2⟩
  -- words, then bytes
  have h3 : (P (mv.wordLoop (mv.halfLoop (mv.byteLoop c))) ∧ _) ∧ _ :=
    whileDo_rule (fun c => P c ∧ (4 ≤ c.n → c.At .word))
      (fun c hP hg => by
        have hn : 4 ≤ c.n := of_decide_eq_true hg
        exact ⟨keep .word c hP.1 hn (hP.2 hn), fun _ => mv.at_step (hP.2 hn)⟩)
      (mv.halfLoop (mv.byteLoop c)) ⟨h2.1.1, hquad⟩
  have h4 : P (mv.run c) ∧ _ := whileDo_rule P
    (fun c hP hg => keep .byte c hP (of_decide_eq_true hg) c.at_byte) _ h3.1.1
  refine ⟨h4.1, ?_⟩
  have hg : ¬ 1 ≤ (mv.run c).n := of_decide_eq_false h4.2
  omega

/-- All logged accesses are aligned. -/
def AllAligned (m : Machine) : Prop := ∀ a ∈ m.log, a.Aligned

theorem allAligned_copy {m : Machine} (h : AllAligned m) {w : Width} {d s : UInt32}
    (hd : d.toNat % w.bytes = 0) (hs : s.toNat % w.bytes = 0) :
    AllAligned (m.copy w d s) := by
  intro a ha
  rw [Machine.log_copy] at ha
  simp only [List.mem_append, List.mem_singleton] at ha
  obtain (ha | ha) | ha := ha
  · exact h a ha
  · rw [ha]
    exact hs
  · rw [ha]
    exact hd

theorem upward_aligned (c : Cur) (h : AllAligned c.m) :
    AllAligned (upward.run c).m := by
  apply (upward.run_rule (fun c => AllAligned c.m) _ c h).1
  intro w c hP _ hat
  exact allAligned_copy hP hat.1 hat.2

theorem downward_aligned (c : Cur) (h : AllAligned c.m) :
    AllAligned (downward.run c).m := by
  apply (downward.run_rule (fun c => AllAligned c.m) _ c h).1
  intro w c hP _ hat
  have hstep := downward.at_step hat
  exact allAligned_copy hP hstep.1 hstep.2

/-! ## Copies are right -/

/-- The destination holds the bytes the source had, and nothing else changed. -/
def Moved (mem mem' : UInt32 → UInt8) (dest src : UInt32) (n : Nat) : Prop :=
  (∀ i < n, mem' (dest + UInt32.ofNat i) = mem (src + UInt32.ofNat i)) ∧
    ∀ x, (∀ i < n, x ≠ dest + UInt32.ofNat i) → mem' x = mem x

/-- Going up, a byte is read before it is copied over. -/
def UpSafe (dest src : UInt32) (n : Nat) : Prop :=
  ∀ k < n, k ≤ (src + UInt32.ofNat k - dest).toNat

/-- Going down, a byte is read before it is copied over. -/
def DownSafe (dest src : UInt32) (n : Nat) : Prop :=
  ∀ k < n, (src + UInt32.ofNat k - dest).toNat ≤ k ∨ n ≤ (src + UInt32.ofNat k - dest).toNat

/-- Regions without a common address. -/
def Apart (dest src n : UInt32) : Prop :=
  dest.toNat + n.toNat ≤ src.toNat ∨ src.toNat + n.toNat ≤ dest.toNat

theorem toNat_ofNat_lt {k : Nat} (h : k < 2 ^ 32) : (UInt32.ofNat k).toNat = k := by
  rw [UInt32.toNat_ofNat', Nat.mod_eq_of_lt h]

/-- A place of the source, seen from the destination. -/
theorem place_toNat {dest src : UInt32} {k : Nat} (hk : k < 2 ^ 32) :
    (src + UInt32.ofNat k - dest).toNat =
      (src.toNat + k + (2 ^ 32 - dest.toNat)) % 2 ^ 32 := by
  have hd := dest.toNat_lt
  rw [UInt32.toNat_sub, UInt32.toNat_add, toNat_ofNat_lt hk]
  omega

theorem upSafe_of_le {dest src n : UInt32} (h : dest ≤ src)
    (hs : src.toNat + n.toNat ≤ 2 ^ 32) : UpSafe dest src n.toNat := by
  intro k hk
  have hle : dest.toNat ≤ src.toNat := UInt32.le_iff_toNat_le.mp h
  have hn := n.toNat_lt
  rw [place_toNat (by omega)]
  omega

theorem upSafe_of_apart {dest src n : UInt32} (h : Apart dest src n)
    (hs : src.toNat + n.toNat ≤ 2 ^ 32) : UpSafe dest src n.toNat := by
  cases h with
  | inl h =>
    exact upSafe_of_le (UInt32.le_iff_toNat_le.mpr (Nat.le_of_add_right_le h)) hs
  | inr h =>
    intro k hk
    have hn := n.toNat_lt
    have hd := dest.toNat_lt
    rw [place_toNat (by omega)]
    omega

theorem downSafe_of_le {dest src n : UInt32} (h : src ≤ dest)
    (hd : dest.toNat + n.toNat ≤ 2 ^ 32) : DownSafe dest src n.toNat := by
  intro k hk
  have hle : src.toNat ≤ dest.toNat := UInt32.le_iff_toNat_le.mp h
  have hn := n.toNat_lt
  rw [place_toNat (by omega)]
  omega

/-- All places copied is what the functions are for. -/
theorem moved_of_partCopied {mem mem' : UInt32 → UInt8} {dest src : UInt32} {n : Nat}
    (hn : n < 2 ^ 32) (h : PartCopied mem mem' dest src 0 n) : Moved mem mem' dest src n := by
  constructor
  · intro i hi
    have hsub : dest + UInt32.ofNat i - dest = UInt32.ofNat i := by
      rw [UInt32.add_comm, UInt32.add_sub_cancel]
    rw [h, hsub, if_pos ⟨Nat.zero_le _, by rwa [toNat_ofNat_lt (by omega)]⟩]
  · intro x hx
    rw [h x, if_neg]
    intro hin
    apply hx (x - dest).toNat hin.2
    rw [UInt32.ofNat_toNat, UInt32.add_comm, UInt32.sub_add_cancel]

/-- After `n - c.n` bytes upwards. -/
structure UpInv (m : Machine) (dest src : UInt32) (n : Nat) (c : Cur) : Prop where
  le : c.n ≤ n
  dest_eq : c.dest = dest + UInt32.ofNat (n - c.n)
  src_eq : c.src = src + UInt32.ofNat (n - c.n)
  part : PartCopied m.mem c.m.mem dest src 0 (n - c.n)

/-- Before the last `n - c.n` bytes, which are copied. -/
structure DownInv (m : Machine) (dest src : UInt32) (n : Nat) (c : Cur) : Prop where
  le : c.n ≤ n
  dest_eq : c.dest = dest + UInt32.ofNat c.n
  src_eq : c.src = src + UInt32.ofNat c.n
  part : PartCopied m.mem c.m.mem dest src c.n n

theorem add_size (a : UInt32) (w : Width) (k : Nat) :
    a + UInt32.ofNat k + size w = a + UInt32.ofNat (k + w.bytes) := by
  rw [size, UInt32.ofNat_add, UInt32.add_assoc]

theorem sub_size (a : UInt32) {w : Width} {k : Nat} (h : w.bytes ≤ k) :
    a + UInt32.ofNat k - size w = a + UInt32.ofNat (k - w.bytes) := by
  have hk := add_size a w (k - w.bytes)
  rw [Nat.sub_add_cancel h] at hk
  rw [← hk, UInt32.add_sub_cancel]

theorem UpInv.step {m : Machine} {dest src : UInt32} {n : Nat} {c : Cur} (hn : n < 2 ^ 32)
    (hsafe : UpSafe dest src n) (h : UpInv m dest src n c) {w : Width} (hw : w.bytes ≤ c.n) :
    UpInv m dest src n (c.up w) := by
  have hle := h.le
  have hnext : n - (c.n - w.bytes) = n - c.n + w.bytes := by omega
  refine ⟨Nat.le_trans (Nat.sub_le _ _) h.le, ?_, ?_, ?_⟩
  · show c.dest + size w = dest + UInt32.ofNat (n - (c.n - w.bytes))
    rw [h.dest_eq, add_size, hnext]
  · show c.src + size w = src + UInt32.ofNat (n - (c.n - w.bytes))
    rw [h.src_eq, add_size, hnext]
  · show PartCopied m.mem (c.m.copy w c.dest c.src).mem dest src 0 (n - (c.n - w.bytes))
    rw [h.dest_eq, h.src_eq, hnext]
    apply h.part.copy w (n - c.n) (by omega)
    · intro k hk hk' hin
      have hread := hsafe k (by omega)
      omega
    · intro k
      omega

theorem DownInv.step {m : Machine} {dest src : UInt32} {n : Nat} {c : Cur} (hn : n < 2 ^ 32)
    (hsafe : DownSafe dest src n) (h : DownInv m dest src n c) {w : Width} (hw : w.bytes ≤ c.n) :
    DownInv m dest src n (c.down w) := by
  have hle := h.le
  refine ⟨Nat.le_trans (Nat.sub_le _ _) h.le, ?_, ?_, ?_⟩
  · show c.dest - size w = dest + UInt32.ofNat (c.n - w.bytes)
    rw [h.dest_eq, sub_size dest hw]
  · show c.src - size w = src + UInt32.ofNat (c.n - w.bytes)
    rw [h.src_eq, sub_size src hw]
  · show PartCopied m.mem (c.m.copy w (c.dest - size w) (c.src - size w)).mem dest src
      (c.n - w.bytes) n
    rw [h.dest_eq, h.src_eq, sub_size dest hw, sub_size src hw]
    apply h.part.copy w (c.n - w.bytes) (by omega)
    · intro k hk hk' hin
      have hread := hsafe k (by omega)
      omega
    · intro k
      omega

theorem memcpy_moved {dest src n : UInt32} (m : Machine) (h : UpSafe dest src n.toNat) :
    Moved m.mem (memcpy dest src n m).2.mem dest src n.toNat := by
  have hn := n.toNat_lt
  have hstart : UpInv m dest src n.toNat { n := n.toNat, dest := dest, src := src, m := m } := by
    refine ⟨Nat.le_refl _, ?_, ?_, ?_⟩
    · simp
    · simp
    · rw [Nat.sub_self]
      exact PartCopied.start m.mem dest src 0
  have hrun := upward.run_rule (UpInv m dest src n.toNat)
    (fun w c hP hw _ => hP.step hn h hw) _ hstart
  apply moved_of_partCopied hn
  have hpart := hrun.1.part
  rwa [hrun.2] at hpart

theorem memcpyR_moved {dest src n : UInt32} (m : Machine) (h : DownSafe dest src n.toNat) :
    Moved m.mem (memcpyR dest src n m).2.mem dest src n.toNat := by
  have hn := n.toNat_lt
  have hstart : DownInv m dest src n.toNat
      { n := n.toNat, dest := dest + n, src := src + n, m := m } := by
    refine ⟨Nat.le_refl _, ?_, ?_, ?_⟩
    · simp
    · simp
    · exact PartCopied.start m.mem dest src n.toNat
  have hrun := downward.run_rule (DownInv m dest src n.toNat)
    (fun w c hP hw _ => hP.step hn h hw) _ hstart
  apply moved_of_partCopied hn
  have hpart := hrun.1.part
  rwa [hrun.2] at hpart

/-- The comparison of the addresses picks a direction that is safe. -/
theorem memmove_moved {dest src n : UInt32} (m : Machine)
    (hd : dest.toNat + n.toNat ≤ 2 ^ 32) (hs : src.toNat + n.toNat ≤ 2 ^ 32) :
    Moved m.mem (memmove dest src n m).2.mem dest src n.toNat := by
  unfold memmove
  split
  · next h => exact memcpy_moved m (upSafe_of_le h hs)
  · next h => exact memcpyR_moved m (downSafe_of_le (UInt32.le_of_lt (UInt32.not_le.mp h)) hd)

theorem memcpy_aligned (dest src n : UInt32) {m : Machine} (h : AllAligned m) :
    AllAligned (memcpy dest src n m).2 :=
  upward_aligned _ h

theorem memmove_aligned (dest src n : UInt32) {m : Machine} (h : AllAligned m) :
    AllAligned (memmove dest src n m).2 := by
  unfold memmove
  split
  · exact upward_aligned _ h
  · exact downward_aligned _ h

/-! ## Fills are right -/

/-- The `n` bytes from `s` on hold `b`, and nothing else changed. -/
def Filled (mem mem' : UInt32 → UInt8) (s : UInt32) (b : UInt8) (n : Nat) : Prop :=
  (∀ i < n, mem' (s + UInt32.ofNat i) = b) ∧
    ∀ x, (∀ i < n, x ≠ s + UInt32.ofNat i) → mem' x = mem x

theorem le_byte (b : UInt8) : le Width.byte.bytes b.toNat = List.replicate Width.byte.bytes b := by
  show [UInt8.ofNat b.toNat] = [b]
  rw [UInt8.ofNat_toNat]

/-- A disjoint or of a shifted byte is a sum. -/
theorem or_shift (a : Nat) {b k : Nat} (h : b < 2 ^ k) : a <<< k ||| b = 2 ^ k * a + b := by
  rw [Nat.shiftLeft_eq, Nat.mul_comm, ← Nat.two_pow_add_eq_or_of_lt h]

theorem quadPattern_toNat (b : UInt8) :
    (quadPattern b).toNat = b.toNat + 256 * (b.toNat + 256 * (b.toNat + 256 * b.toNat)) := by
  have hb : b.toNat < 256 := b.toNat_lt
  have hshift : ∀ k, k < 32 → b.toNat * 2 ^ k < 2 ^ 32 →
      (b.toUInt32 <<< UInt32.ofNat k).toNat = b.toNat <<< k := by
    intro k hk hlt
    rw [UInt32.toNat_shiftLeft, UInt8.toNat_toUInt32, toNat_ofNat_lt (by omega),
      Nat.mod_eq_of_lt hk, Nat.shiftLeft_eq, Nat.mod_eq_of_lt hlt]
  have h24 := hshift 24 (by decide) (by omega)
  have h16 := hshift 16 (by decide) (by omega)
  have h8 := hshift 8 (by decide) (by omega)
  have hlow : b.toNat <<< 8 ||| b.toNat = 2 ^ 8 * b.toNat + b.toNat := or_shift _ hb
  have hmid : b.toNat <<< 16 ||| (2 ^ 8 * b.toNat + b.toNat) =
      2 ^ 16 * b.toNat + (2 ^ 8 * b.toNat + b.toNat) := or_shift _ (by omega)
  have hhigh : b.toNat <<< 24 ||| (2 ^ 16 * b.toNat + (2 ^ 8 * b.toNat + b.toNat)) =
      2 ^ 24 * b.toNat + (2 ^ 16 * b.toNat + (2 ^ 8 * b.toNat + b.toNat)) := or_shift _ (by omega)
  calc (quadPattern b).toNat
      = b.toNat <<< 24 ||| (b.toNat <<< 16 ||| (b.toNat <<< 8 ||| b.toNat)) := by
        rw [quadPattern, UInt32.toNat_or, UInt32.toNat_or, UInt32.toNat_or, UInt8.toNat_toUInt32,
          Nat.or_assoc, Nat.or_assoc]
        exact congrArg₂ _ h24 (congrArg₂ _ h16 (congrArg₂ _ h8 rfl))
    _ = b.toNat + 256 * (b.toNat + 256 * (b.toNat + 256 * b.toNat)) := by
        rw [hlow, hmid, hhigh]
        omega

/-- The word holds the byte four times. -/
theorem le_quadPattern (b : UInt8) :
    le Width.word.bytes (quadPattern b).toNat = List.replicate Width.word.bytes b := by
  have hof : ofLe (List.replicate 4 b) = (quadPattern b).toNat := by
    rw [quadPattern_toNat]
    simp [List.replicate, ofLe]
  have h := le_ofLe (List.replicate 4 b)
  rw [List.length_replicate, hof] at h
  exact h

/-- After `n - f.n` bytes. -/
structure FillInv (m : Machine) (s : UInt32) (b : UInt8) (n : Nat) (f : Fill) : Prop where
  le : f.n ≤ n
  p_eq : f.p = s + UInt32.ofNat (n - f.n)
  part : PartFilled m.mem f.m.mem s b (n - f.n)
  aligned : AllAligned m → AllAligned f.m

theorem FillInv.put {m : Machine} {s : UInt32} {b : UInt8} {n : Nat} {f : Fill} (hn : n < 2 ^ 32)
    (h : FillInv m s b n f) {w : Width} {v : Nat} (hw : w.bytes ≤ f.n)
    (hv : Bytes.le w.bytes v = List.replicate w.bytes b) (hat : f.p.toNat % w.bytes = 0) :
    FillInv m s b n (f.put w v) := by
  have hle := h.le
  have hnext : n - (f.n - w.bytes) = n - f.n + w.bytes := by omega
  refine ⟨Nat.le_trans (Nat.sub_le _ _) h.le, ?_, ?_, ?_⟩
  · show f.p + size w = s + UInt32.ofNat (n - (f.n - w.bytes))
    rw [h.p_eq, add_size, hnext]
  · show PartFilled m.mem (f.m.store w f.p v).mem s b (n - (f.n - w.bytes))
    rw [h.p_eq, hnext]
    exact h.part.store w hv (by omega)
  · intro hm a ha
    have hmem : a ∈ f.m.log ++ [⟨.write, w, f.p⟩] := ha
    rw [List.mem_append, List.mem_singleton] at hmem
    cases hmem with
    | inl hold => exact h.aligned hm a hold
    | inr hnew =>
      rw [hnew]
      exact hat

theorem memset_inv (s : UInt32) (c : Int32) (n : UInt32) (m : Machine) :
    ∃ f : Fill, FillInv m s c.toUInt32.toUInt8 n.toNat f ∧ f.n = 0 ∧ (memset s c n m).2 = f.m := by
  have hn := n.toNat_lt
  obtain ⟨b, hb⟩ : ∃ b, b = c.toUInt32.toUInt8 := ⟨_, rfl⟩
  have hstart : FillInv m s b n.toNat { n := n.toNat, p := s, m := m } := by
    refine ⟨Nat.le_refl _, ?_, ?_, id⟩
    · simp
    · rw [Nat.sub_self]
      exact PartFilled.start m.mem s b
  -- bytes, until nothing is left or the address is a multiple of four
  have h1 : FillInv m s b n.toNat (fillHead b _) ∧ _ := whileDo_rule (FillInv m s b n.toNat)
    (fun f hP hg => hP.put hn (of_decide_eq_true (Bool.and_eq_true_iff.mp hg).1) (le_byte b)
      (Nat.mod_one _)) _ hstart
  have hquad : 4 ≤ (fillHead b { n := n.toNat, p := s, m := m }).n →
      (fillHead b { n := n.toNat, p := s, m := m }).p.toNat % 4 = 0 := by
    intro hfour
    have hg := h1.2
    rw [Bool.and_eq_false_iff, decide_eq_false_iff_not] at hg
    exact quad_of_and3 (hg.resolve_left (fun hlt => hlt (Nat.le_trans (by decide) hfour)))
  -- words, then bytes
  have h2 : (FillInv m s b n.toNat (fillWords b _) ∧ _) ∧ _ :=
    whileDo_rule (fun f => FillInv m s b n.toNat f ∧ (4 ≤ f.n → f.p.toNat % 4 = 0))
      (fun f hP hg => by
        have hfour : 4 ≤ f.n := of_decide_eq_true hg
        exact ⟨hP.1.put hn hfour (le_quadPattern b) (hP.2 hfour),
          fun _ => (add_size_mod .word f.p).trans (hP.2 hfour)⟩)
      _ ⟨h1.1, hquad⟩
  have h3 : FillInv m s b n.toNat (fillRest b _) ∧ _ := whileDo_rule (FillInv m s b n.toNat)
    (fun f hP hg => hP.put hn (of_decide_eq_true hg) (le_byte b) (Nat.mod_one _)) _ h2.1.1
  rw [← hb]
  refine ⟨_, h3.1, ?_, ?_⟩
  · have hg : ¬ 1 ≤ (fillRest b (fillWords b (fillHead b { n := n.toNat, p := s, m := m }))).n :=
      of_decide_eq_false h3.2
    exact Nat.lt_one_iff.mp (Nat.lt_of_not_le hg)
  · rw [memset, hb]

theorem memset_filled (s : UInt32) (c : Int32) (n : UInt32) (m : Machine) :
    Filled m.mem (memset s c n m).2.mem s c.toUInt32.toUInt8 n.toNat := by
  have hn := n.toNat_lt
  obtain ⟨f, hinv, hzero, hmem⟩ := memset_inv s c n m
  have hpart := hinv.part
  rw [hzero, Nat.sub_zero] at hpart
  rw [hmem]
  constructor
  · intro i hi
    have hsub : s + UInt32.ofNat i - s = UInt32.ofNat i := by
      rw [UInt32.add_comm, UInt32.add_sub_cancel]
    rw [hpart, hsub, if_pos]
    rwa [toNat_ofNat_lt (by omega)]
  · intro x hx
    rw [hpart, if_neg]
    intro hin
    apply hx (x - s).toNat hin
    rw [UInt32.ofNat_toNat, UInt32.add_comm, UInt32.sub_add_cancel]

theorem memset_aligned (s : UInt32) (c : Int32) (n : UInt32) {m : Machine} (h : AllAligned m) :
    AllAligned (memset s c n m).2 := by
  obtain ⟨f, hinv, -, hmem⟩ := memset_inv s c n m
  rw [hmem]
  exact hinv.aligned h

/-! ## Comparisons are right -/

/-- The first byte pair that differs is at place `j`. -/
def FirstDiff (mem : UInt32 → UInt8) (s1 s2 : UInt32) (j : Nat) : Prop :=
  (∀ i < j, mem (s1 + UInt32.ofNat i) = mem (s2 + UInt32.ofNat i)) ∧
    mem (s1 + UInt32.ofNat j) ≠ mem (s2 + UInt32.ofNat j)

/-- The difference of the byte pair at place `j`. -/
def diff (mem : UInt32 → UInt8) (s1 s2 : UInt32) (j : Nat) : Int :=
  (mem (s1 + UInt32.ofNat j)).toNat - (mem (s2 + UInt32.ofNat j)).toNat

/-- 0 if all byte pairs agree, else the sign of the first that does not. -/
def Compared (mem : UInt32 → UInt8) (s1 s2 : UInt32) (n : Nat) (result : Int) : Prop :=
  ((∀ i < n, mem (s1 + UInt32.ofNat i) = mem (s2 + UInt32.ofNat i)) ∧ result = 0) ∨
    ∃ j < n, FirstDiff mem s1 s2 j ∧ result.sign = (diff mem s1 s2 j).sign ∧ result ≠ 0

/-- An access of `memcmp`: a byte of one of the regions is read. -/
def ReadOf (s1 s2 : UInt32) (n : Nat) (a : Access) : Prop :=
  a.dir = .read ∧ a.width = .byte ∧ (a.Inside s1 n ∨ a.Inside s2 n)

theorem load_byte (a : UInt32) (m : Machine) : (m.load .byte a).1 = (m.mem a).toNat := by
  show (m.mem (a + UInt32.ofNat 0)).toNat + 256 * 0 = (m.mem a).toNat
  rw [show UInt32.ofNat 0 = 0 from rfl, UInt32.add_zero]
  rfl

theorem inside_byte {dir : Dir} {r : UInt32} {k n : Nat} (hk : k < n) (hn : n < 2 ^ 32) :
    Access.Inside ⟨dir, .byte, r + UInt32.ofNat k⟩ r n := by
  intro i hi
  have hzero : i = 0 := Nat.lt_one_iff.mp hi
  have hsub : r + UInt32.ofNat k + UInt32.ofNat 0 - r = UInt32.ofNat k := by
    rw [show UInt32.ofNat 0 = 0 from rfl, UInt32.add_zero, UInt32.add_comm, UInt32.add_sub_cancel]
  show (r + UInt32.ofNat k + UInt32.ofNat i - r).toNat < n
  rw [hzero, hsub, toNat_ofNat_lt (by omega)]
  exact hk

/-- After `n - c.n` turns. The pointers are one place behind once a difference is
found. -/
structure CmpInv (m : Machine) (s1 s2 : UInt32) (n : Nat) (c : Cmp) : Prop where
  le : c.n ≤ n
  mem_eq : c.m.mem = m.mem
  log : ∀ a ∈ c.m.log, a ∈ m.log ∨ ReadOf s1 s2 n a
  found : (c.result = 0 ∧ c.p1 = s1 + UInt32.ofNat (n - c.n) ∧
      c.p2 = s2 + UInt32.ofNat (n - c.n) ∧
      ∀ i < n - c.n, m.mem (s1 + UInt32.ofNat i) = m.mem (s2 + UInt32.ofNat i)) ∨
    (∃ j < n - c.n, FirstDiff m.mem s1 s2 j ∧ c.result = diff m.mem s1 s2 j) ∧
      c.p1 = s1 + UInt32.ofNat (n - c.n - 1) ∧ c.p2 = s2 + UInt32.ofNat (n - c.n - 1)

theorem diff_ne_zero {mem : UInt32 → UInt8} {s1 s2 : UInt32} {j : Nat}
    (h : mem (s1 + UInt32.ofNat j) ≠ mem (s2 + UInt32.ofNat j)) : diff mem s1 s2 j ≠ 0 := by
  intro hz
  apply h
  apply UInt8.toNat_inj.mp
  unfold diff at hz
  omega

namespace Cmp

theorem read_fst (c : Cmp) : c.read.1 = (c.m.mem c.p1).toNat := load_byte c.p1 c.m

theorem read_snd (c : Cmp) : c.read.2.1 = (c.m.mem c.p2).toNat := load_byte c.p2 _

@[simp] theorem read_mem (c : Cmp) : c.read.2.2.mem = c.m.mem := rfl

theorem read_log (c : Cmp) :
    c.read.2.2.log = c.m.log ++ [⟨.read, .byte, c.p1⟩] ++ [⟨.read, .byte, c.p2⟩] := rfl

end Cmp

/-- Both pointers are in their regions, so the reads of a turn are. -/
theorem CmpInv.place {m : Machine} {s1 s2 : UInt32} {n : Nat} {c : Cmp} (h : CmpInv m s1 s2 n c)
    (hc : 1 ≤ c.n) : ∃ k < n, c.p1 = s1 + UInt32.ofNat k ∧ c.p2 = s2 + UInt32.ofNat k := by
  have hle := h.le
  cases h.found with
  | inl h => exact ⟨n - c.n, by omega, h.2.1, h.2.2.1⟩
  | inr h => exact ⟨n - c.n - 1, by omega, h.2.1, h.2.2⟩

theorem CmpInv.read_log {m : Machine} {s1 s2 : UInt32} {n : Nat} {c : Cmp} (hn : n < 2 ^ 32)
    (h : CmpInv m s1 s2 n c) (hc : 1 ≤ c.n) :
    ∀ a ∈ c.read.2.2.log, a ∈ m.log ∨ ReadOf s1 s2 n a := by
  obtain ⟨k, hk, hp1, hp2⟩ := h.place hc
  intro a ha
  rw [Cmp.read_log] at ha
  simp only [List.mem_append, List.mem_singleton] at ha
  obtain (ha | ha) | ha := ha
  · exact h.log a ha
  · right
    rw [ha, hp1]
    exact ⟨rfl, rfl, .inl (inside_byte hk hn)⟩
  · right
    rw [ha, hp2]
    exact ⟨rfl, rfl, .inr (inside_byte hk hn)⟩

theorem add_one (a : UInt32) (k : Nat) : a + UInt32.ofNat k + 1 = a + UInt32.ofNat (k + 1) := by
  rw [UInt32.ofNat_add, UInt32.add_assoc]
  rfl

theorem CmpInv.turn {m : Machine} {s1 s2 : UInt32} {n : Nat} {c : Cmp} (hn : n < 2 ^ 32)
    (h : CmpInv m s1 s2 n c) (hc : 1 ≤ c.n) : CmpInv m s1 s2 n c.turn := by
  have hle := h.le
  have hnext : n - (c.n - 1) = n - c.n + 1 := by omega
  have hread := h.read_log hn hc
  have hx : c.read.1 = (m.mem c.p1).toNat := by rw [Cmp.read_fst, h.mem_eq]
  have hy : c.read.2.1 = (m.mem c.p2).toNat := by rw [Cmp.read_snd, h.mem_eq]
  have hagain : CmpInv m s1 s2 n { c with m := c.read.2.2 } :=
    ⟨h.le, h.mem_eq, hread, h.found⟩
  unfold Cmp.turn
  dsimp only
  split
  · next hcond =>
    -- the first difference: the bytes are read once more and the pointers stay
    obtain ⟨hzero, hp1, hp2, heq⟩ : c.result = 0 ∧ _ := by
      cases h.found with
      | inl hf => exact hf
      | inr hf =>
        obtain ⟨j, -, hfirst, hres⟩ := hf.1
        exact absurd (hres.symm.trans hcond.2) (diff_ne_zero hfirst.2)
    have hne : m.mem (s1 + UInt32.ofNat (n - c.n)) ≠ m.mem (s2 + UInt32.ofNat (n - c.n)) := by
      intro he
      apply hcond.1
      rw [hx, hy, hp1, hp2, he]
    have hagainx : (({ c with m := c.read.2.2 } : Cmp).read).1 = (m.mem c.p1).toNat := by
      rw [Cmp.read_fst, hagain.mem_eq]
    have hagainy : (({ c with m := c.read.2.2 } : Cmp).read).2.1 = (m.mem c.p2).toNat := by
      rw [Cmp.read_snd, hagain.mem_eq]
    refine ⟨Nat.le_trans (Nat.sub_le _ _) hle, h.mem_eq, hagain.read_log hn hc, .inr ⟨?_, ?_, ?_⟩⟩
    · refine ⟨n - c.n, by dsimp only; omega, ⟨heq, hne⟩, ?_⟩
      dsimp only
      rw [hagainx, hagainy, hp1, hp2]
      rfl
    · dsimp only
      rw [hp1, hnext, Nat.add_sub_cancel]
    · dsimp only
      rw [hp2, hnext, Nat.add_sub_cancel]
  · next hcond =>
    refine ⟨Nat.le_trans (Nat.sub_le _ _) hle, h.mem_eq, hread, ?_⟩
    dsimp only
    cases h.found with
    | inl hf =>
      obtain ⟨hzero, hp1, hp2, heq⟩ := hf
      -- no difference yet, so this pair agrees
      have hsame : m.mem (s1 + UInt32.ofNat (n - c.n)) = m.mem (s2 + UInt32.ofNat (n - c.n)) := by
        apply UInt8.toNat_inj.mp
        rw [← hp1, ← hp2, ← hx, ← hy]
        exact Decidable.not_not.mp (fun hne => hcond ⟨hne, hzero⟩)
      refine .inl ⟨hzero, ?_, ?_, ?_⟩
      · rw [hp1, add_one, hnext]
      · rw [hp2, add_one, hnext]
      · intro i hi
        by_cases hlast : i = n - c.n
        · rw [hlast]
          exact hsame
        · exact heq i (by omega)
    | inr hf =>
      obtain ⟨⟨j, hj, hfirst, hres⟩, hp1, hp2⟩ := hf
      refine .inr ⟨⟨j, by omega, hfirst, hres⟩, ?_, ?_⟩
      · rw [hp1, add_one, hnext]
        congr 2
        omega
      · rw [hp2, add_one, hnext]
        congr 2
        omega

theorem memcmp_inv (s1 s2 n : UInt32) (m : Machine) :
    ∃ c : Cmp, CmpInv m s1 s2 n.toNat c ∧ c.n = 0 ∧ memcmp s1 s2 n m = (c.result, c.m) := by
  have hn := n.toNat_lt
  have hstart : CmpInv m s1 s2 n.toNat
      { n := n.toNat, p1 := s1, p2 := s2, result := 0, m := m } := by
    refine ⟨Nat.le_refl _, rfl, fun a ha => .inl ha, .inl ⟨rfl, ?_, ?_, ?_⟩⟩
    · simp
    · simp
    · intro i hi
      rw [Nat.sub_self] at hi
      exact absurd hi (Nat.not_lt_zero i)
  have hrun : CmpInv m s1 s2 n.toNat
      (whileDo (fun c => decide (1 ≤ c.n)) Cmp.turn Cmp.n Cmp.turn_lt _) ∧ _ :=
    whileDo_rule (CmpInv m s1 s2 n.toNat)
      (fun c hP hg => hP.turn hn (of_decide_eq_true hg)) _ hstart
  refine ⟨_, hrun.1, ?_, rfl⟩
  exact Nat.lt_one_iff.mp (Nat.lt_of_not_le (of_decide_eq_false hrun.2))

theorem memcmp_sign (s1 s2 n : UInt32) (m : Machine) :
    Compared m.mem s1 s2 n.toNat (memcmp s1 s2 n m).1 := by
  obtain ⟨c, hinv, hzero, hret⟩ := memcmp_inv s1 s2 n m
  have hfound := hinv.found
  rw [hzero, Nat.sub_zero] at hfound
  rw [hret]
  cases hfound with
  | inl hf => exact .inl ⟨hf.2.2.2, hf.1⟩
  | inr hf =>
    obtain ⟨j, hj, hfirst, hres⟩ := hf.1
    refine .inr ⟨j, hj, hfirst, by rw [hres], ?_⟩
    rw [hres]
    exact diff_ne_zero hfirst.2

theorem memcmp_reads (s1 s2 n : UInt32) (m : Machine) :
    (memcmp s1 s2 n m).2.mem = m.mem ∧
      ∀ a ∈ (memcmp s1 s2 n m).2.log, a ∈ m.log ∨ ReadOf s1 s2 n.toNat a := by
  obtain ⟨c, hinv, -, hret⟩ := memcmp_inv s1 s2 n m
  rw [hret]
  exact ⟨hinv.mem_eq, hinv.log⟩

theorem memcmp_aligned (s1 s2 n : UInt32) {m : Machine} (h : AllAligned m) :
    AllAligned (memcmp s1 s2 n m).2 := by
  intro a ha
  cases (memcmp_reads s1 s2 n m).2 a ha with
  | inl hold => exact h a hold
  | inr hread =>
    unfold Access.Aligned
    rw [hread.2.1]
    exact Nat.mod_one _

/-! ## All of them -/

/-- **The memory functions are their byte-wise definitions.** For all regions
that do not wrap, whatever their overlap and alignment; and all accesses are
aligned. -/
theorem memory_functions (m : Machine) (hlog : m.log = []) (dest src n : UInt32) (c : Int32)
    (hd : dest.toNat + n.toNat ≤ 2 ^ 32) (hs : src.toNat + n.toNat ≤ 2 ^ 32) :
    Moved m.mem (memmove dest src n m).2.mem dest src n.toNat ∧
    (Apart dest src n ∨ dest ≤ src →
      Moved m.mem (memcpy dest src n m).2.mem dest src n.toNat) ∧
    Filled m.mem (memset dest c n m).2.mem dest c.toUInt32.toUInt8 n.toNat ∧
    Compared m.mem dest src n.toNat (memcmp dest src n m).1 ∧
    ((memcmp dest src n m).2.mem = m.mem ∧
      ∀ a ∈ (memcmp dest src n m).2.log, ReadOf dest src n.toNat a) ∧
    AllAligned (memmove dest src n m).2 ∧ AllAligned (memcpy dest src n m).2 ∧
      AllAligned (memset dest c n m).2 ∧ AllAligned (memcmp dest src n m).2 := by
  have hstart : AllAligned m := by
    intro a ha
    rw [hlog] at ha
    cases ha
  have hreads := memcmp_reads dest src n m
  refine ⟨memmove_moved m hd hs, ?_, memset_filled dest c n m, memcmp_sign dest src n m,
    ⟨hreads.1, ?_⟩, memmove_aligned dest src n hstart, memcpy_aligned dest src n hstart,
    memset_aligned dest c n hstart, memcmp_aligned dest src n hstart⟩
  · intro h
    cases h with
    | inl h => exact memcpy_moved m (upSafe_of_apart h hs)
    | inr h => exact memcpy_moved m (upSafe_of_le h hs)
  · intro a ha
    have hor := hreads.2 a ha
    rw [hlog] at hor
    exact hor.resolve_left List.not_mem_nil

/-- Nine bytes moved down by two, from an odd address to an odd address. -/
theorem memory_functions_overlap :
    let m : Machine := ⟨fun x => x.toUInt8, []⟩
    Moved m.mem (memmove 0x20000001 0x20000003 9 m).2.mem 0x20000001 0x20000003 9 ∧
      Moved m.mem (memcpy 0x20000001 0x20000003 9 m).2.mem 0x20000001 0x20000003 9 ∧
      AllAligned (memcpy 0x20000001 0x20000003 9 m).2 := by
  have h := memory_functions ⟨fun x => x.toUInt8, []⟩ rfl 0x20000001 0x20000003 9 0
    (by decide) (by decide)
  exact ⟨h.1, h.2.1 (.inr (by decide)), h.2.2.2.2.2.2.1⟩

end Tfm.L2.Crt
