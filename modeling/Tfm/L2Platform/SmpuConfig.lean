import Mathlib.Tactic.Ring
import Tfm.Core.PowTwo
import Tfm.L2Platform.Smpu

/-!
# PSoC 64 SMPU regions

The protected range comes from the provisioned policy. `calc_smpu_params` looks for a region
with some of its eight sub-regions disabled that covers this range, from the smallest region
size up. All arithmetic is on 32-bit words.

The loops have fuel, and `none` is a loop that does not end.

Results:
* `roundUpToPowerOfTwo_spec`, `roundDownToPowerOfTwo_eq`: the bounds of the search.
* `tryRegion_exact`: a region that is taken covers exactly the range.
* `tryRegion_of_covers`: a region that covers the range is taken, unless it ends at 4 GB.
* `calc_smpu_params_iff`: exactly then a range that has a region is refused.
-/
namespace Tfm.L2.Smpu
open Tfm.PowTwo

def w32 (x : Nat) : Nat := x % 2 ^ 32

theorem w32_of_lt {x : Nat} (h : x < 2 ^ 32) : w32 x = x := Nat.mod_eq_of_lt h

/-! ## The driver -/

/-- mirrors platform/ext/target/cypress/psoc64/driver_smpu.c:94-98 -/
def isWholePowerOfTwo (size : Nat) : Bool := w32 (size + (2 ^ 32 - 1)) &&& size == 0

/-- mirrors platform/ext/target/cypress/psoc64/driver_smpu.c:100-103 -/
def isAligned (base size : Nat) : Bool := base % size == 0

def bytesToRegionsizeFrom (size : Nat) : Nat → Nat → Option Nat
  | 0, _ => none
  | fuel + 1, ret =>
    if regionsizeToBytes ret < size then bytesToRegionsizeFrom size fuel (ret + 1) else some ret

/-- mirrors platform/ext/target/cypress/psoc64/driver_smpu.c:106-114 -/
def bytesToRegionsize (size : Nat) : Option Nat := bytesToRegionsizeFrom size 30 1

/-- mirrors platform/ext/target/cypress/psoc64/driver_smpu.c:116-128 -/
def roundUpToPowerOfTwo (x : Nat) : Nat := w32 (smear (w32 (x + (2 ^ 32 - 1))) + 1)

/-- mirrors platform/ext/target/cypress/psoc64/driver_smpu.c:130-140 -/
def roundDownToPowerOfTwo (x : Nat) : Nat := smear x - smear x >>> 1

/-- mirrors platform/ext/target/cypress/psoc64/driver_smpu.c:142-146 -/
def roundDownToMultiple (base regionSize : Nat) : Nat := w32 (regionSize * (base / regionSize))

def minRegionsize : Nat := 256

def maxRegionsize : Nat := 1 * 1024 * 1024 * 1024

/-- The fields of `cy_stc_smpu_cfg_t` that are calculated. -/
structure SlaveConfig where
  address : Nat
  regionSize : Nat
  subregions : Nat
  deriving DecidableEq, Repr

def disable (off : Nat → Bool) (mask num : Nat) : Nat := if off num then mask ||| 1 <<< num else mask

/-- The mask of the sub-regions to disable.
mirrors platform/ext/target/cypress/psoc64/driver_smpu.c:225-234 -/
def subregionMask (address subSize base size : Nat) : Nat :=
  (List.range numSubregions).foldl
    (disable fun num =>
      decide (w32 (address + num * subSize) < base) ||
        decide (w32 (address + num * subSize) ≥ w32 (base + size))) 0

/-- What the body of the loop does with a region size. -/
inductive Tried
  | failed
  | next
  | found (address mask : Nat)
  deriving DecidableEq

/-- mirrors platform/ext/target/cypress/psoc64/driver_smpu.c:186-238 -/
def tryRegion (base size regionSize : Nat) : Tried :=
  let subSize := regionSize / numSubregions
  if base % subSize ≠ 0 then .failed
  else if size % subSize ≠ 0 then .next
  else if size / subSize > numSubregions then .next
  else
    let address := roundDownToMultiple base regionSize
    if w32 (address + regionSize) < w32 (base + size) then .next
    else .found address (subregionMask address subSize base size)

/-- The inner `none` is `CY_PROT_FAILURE`. -/
def searchRegion (base size highRs : Nat) : Nat → Nat → Option (Option SlaveConfig)
  | 0, _ => none
  | fuel + 1, regionSize =>
    if regionSize ≤ highRs then
      match tryRegion base size regionSize with
      | .failed => some none
      | .next => searchRegion base size highRs fuel (w32 (regionSize <<< 1))
      | .found address mask =>
        (bytesToRegionsize regionSize).map fun rs => some ⟨address, rs, mask⟩
    else some none

/-- mirrors platform/ext/target/cypress/psoc64/driver_smpu.c:174,177-179 -/
def lowRs (size : Nat) : Nat :=
  if roundUpToPowerOfTwo size < minRegionsize then minRegionsize else roundUpToPowerOfTwo size

/-- mirrors platform/ext/target/cypress/psoc64/driver_smpu.c:175,181-183 -/
def highRs (size : Nat) : Nat :=
  if size > maxRegionsize / numSubregions then maxRegionsize
  else roundDownToPowerOfTwo (w32 (size * numSubregions))

/-- The range is a region of its own. -/
def simplest (base size : Nat) : Bool :=
  isWholePowerOfTwo size && isAligned base size && decide (size ≥ minRegionsize)

/-- mirrors platform/ext/target/cypress/psoc64/driver_smpu.c:158-247 -/
def calcSmpuParams (base size : Nat) : Option (Option SlaveConfig) :=
  if simplest base size then
    (bytesToRegionsize size).map fun rs => some ⟨base, rs, 0⟩
  else searchRegion base size (highRs size) 33 (lowRs size)

/-! ## What a configuration protects -/

def SlaveConfig.bytes (cfg : SlaveConfig) : Nat := regionsizeToBytes cfg.regionSize

/-- The byte is in a sub-region that is enabled. -/
def SlaveConfig.Covers (cfg : SlaveConfig) (b : Nat) : Prop :=
  cfg.address ≤ b ∧ b < cfg.address + cfg.bytes ∧
    cfg.subregions.testBit ((b - cfg.address) / (cfg.bytes / numSubregions)) = false

/-- The enabled sub-regions are the bytes of the range. -/
def Exact (cfg : SlaveConfig) (base size : Nat) : Prop :=
  cfg.address % cfg.bytes = 0 ∧ ∀ b, cfg.Covers b ↔ base ≤ b ∧ b < base + size

/-- A region of 256 bytes to 1 GB that covers the range. -/
def Describes (cfg : SlaveConfig) (base size : Nat) : Prop :=
  minRegionsize ≤ cfg.bytes ∧ cfg.bytes ≤ maxRegionsize ∧ Exact cfg base size

/-- A structure that holds the configuration decides the same bytes for the hardware. -/
theorem covers_of_config {m : SmpuStruct} {cfg : SlaveConfig} (he : m.enabled = true)
    (ha : m.addr24 <<< 8 = cfg.address) (hr : m.regionSize = cfg.regionSize)
    (hs : m.subregionDisable = cfg.subregions) (hal : cfg.address % cfg.bytes = 0) (b : Nat) :
    covers m b = true ↔ cfg.Covers b := by
  rw [SlaveConfig.bytes] at hal
  simp [covers, readRegion, he, ha, hr, hs, hal, SlaveConfig.Covers, SlaveConfig.bytes, and_assoc]

/-! ## Powers of two -/

theorem regionsizeToBytes_eq (x : Nat) : regionsizeToBytes x = 2 ^ (x + 1) := by
  rw [regionsizeToBytes, Nat.one_shiftLeft, Nat.add_comm]

theorem bytesToRegionsizeFrom_two_pow {k : Nat} :
    ∀ {fuel ret : Nat}, ret ≤ k → k < ret + fuel →
      bytesToRegionsizeFrom (2 ^ (k + 1)) fuel ret = some k
  | 0, ret, h, hf => by omega
  | fuel + 1, ret, h, hf => by
    rw [bytesToRegionsizeFrom, regionsizeToBytes_eq]
    by_cases hlt : ret = k
    · rw [hlt, if_neg (Nat.lt_irrefl _)]
    · have hpow : 2 ^ (ret + 1) < 2 ^ (k + 1) := Nat.pow_lt_pow_right (by decide) (by omega)
      rw [if_pos hpow, bytesToRegionsizeFrom_two_pow (by omega) (by omega)]

theorem bytesToRegionsize_two_pow {k : Nat} (h : 1 ≤ k) (hk : k ≤ 30) :
    bytesToRegionsize (2 ^ (k + 1)) = some k :=
  bytesToRegionsizeFrom_two_pow h (by omega)

theorem isWholePowerOfTwo_iff {size : Nat} (hs : 0 < size) (h : size < 2 ^ 32) :
    isWholePowerOfTwo size = true ↔ ∃ k, size = 2 ^ k := by
  have hpred : w32 (size + (2 ^ 32 - 1)) = size - 1 := by
    rw [w32]
    omega
  rw [isWholePowerOfTwo, hpred, beq_iff_eq, Nat.and_comm,
    Nat.and_sub_one_eq_zero_iff_isPowerOfTwo (by omega)]
  rfl

/-- Rounding up: the least power of two, if there is one below 4 GB. -/
theorem roundUpToPowerOfTwo_spec {x : Nat} (hx : 0 < x) (h : x < 2 ^ 32) :
    (roundUpToPowerOfTwo x = 0 ∧ 2 ^ 31 < x) ∨
      ∃ j, j ≤ 31 ∧ roundUpToPowerOfTwo x = 2 ^ j ∧ ∀ k, x ≤ 2 ^ k → j ≤ k := by
  have hpred : w32 (x + (2 ^ 32 - 1)) = x - 1 := by
    rw [w32]
    omega
  rw [roundUpToPowerOfTwo, hpred]
  by_cases hone : x = 1
  · refine .inr ⟨0, by omega, ?_, fun k _ => Nat.zero_le k⟩
    rw [hone]
    rfl
  · have hne : x - 1 ≠ 0 := by omega
    have hlow := Nat.log2_self_le hne
    have hlog := (Nat.log2_lt hne).2 (show x - 1 < 2 ^ 32 by omega)
    have hpos := Nat.two_pow_pos ((x - 1).log2 + 1)
    rw [smear_eq hne (by omega), Nat.sub_add_cancel hpos]
    by_cases htop : (x - 1).log2 = 31
    · rw [htop] at hlow ⊢
      exact .inl ⟨rfl, by omega⟩
    · refine .inr ⟨(x - 1).log2 + 1, by omega, w32_of_lt ?_, ?_⟩
      · exact Nat.pow_lt_pow_right (by decide) (by omega)
      · intro k hk
        exact (Nat.log2_lt hne).2 (by omega)

theorem roundDownToPowerOfTwo_eq {x : Nat} (hx : x ≠ 0) (h : x < 2 ^ 32) :
    roundDownToPowerOfTwo x = 2 ^ x.log2 := by
  rw [roundDownToPowerOfTwo, smear_eq hx h, Nat.shiftRight_eq_div_pow, Nat.pow_succ, Nat.pow_one]
  have hpos := Nat.two_pow_pos x.log2
  omega

/-! ## The bounds of the search -/

theorem lowRs_spec {size : Nat} (hs : 0 < size) (h : size < 2 ^ 32) :
    ∃ j, 8 ≤ j ∧ j ≤ 31 ∧ lowRs size = 2 ^ j ∧ ∀ k, 8 ≤ k → k ≤ 30 → size ≤ 2 ^ k → j ≤ k := by
  rw [lowRs, minRegionsize]
  rcases roundUpToPowerOfTwo_spec hs h with ⟨h0, hbig⟩ | ⟨j, hj, he, hleast⟩
  · refine ⟨8, Nat.le_refl 8, by omega, ?_, fun k hk _ _ => hk⟩
    rw [h0]
    rfl
  · rw [he]
    by_cases hj8 : j < 8
    · refine ⟨8, Nat.le_refl 8, by omega, ?_, fun k hk _ _ => hk⟩
      exact if_pos (Nat.pow_lt_pow_right (by decide) hj8)
    · refine ⟨j, by omega, hj, ?_, fun k _ _ hk => hleast k hk⟩
      have hmin : 2 ^ 8 ≤ 2 ^ j := Nat.pow_le_pow_right Nat.two_pos (by omega)
      exact if_neg (by omega)

theorem highRs_spec {size : Nat} (hs : 0 < size) :
    highRs size ≤ 2 ^ 30 ∧ ∀ k, k ≤ 30 → 2 ^ k ≤ size * 8 → 2 ^ k ≤ highRs size := by
  rw [highRs, maxRegionsize, numSubregions]
  by_cases hbig : size > 1 * 1024 * 1024 * 1024 / 8
  · rw [if_pos hbig]
    refine ⟨by decide, fun k hk _ => ?_⟩
    exact Nat.pow_le_pow_right Nat.two_pos hk
  · have hle : size * 8 ≤ 2 ^ 30 := by omega
    have hne : size * 8 ≠ 0 := by omega
    rw [if_neg hbig, w32_of_lt (by omega), roundDownToPowerOfTwo_eq hne (by omega)]
    refine ⟨Nat.le_trans (Nat.log2_self_le hne) hle, fun k _ hk => ?_⟩
    exact Nat.pow_le_pow_right Nat.two_pos ((Nat.le_log2 hne).2 hk)

/-! ## The body of the loop -/

theorem testBit_foldl_disable (off : Nat → Bool) (i : Nat) :
    ∀ (nums : List Nat) (mask : Nat), (nums.foldl (disable off) mask).testBit i =
      (mask.testBit i || (decide (i ∈ nums) && off i))
  | [], mask => by simp
  | num :: nums, mask => by
    rw [List.foldl_cons, testBit_foldl_disable off i nums]
    by_cases hi : i = num
    · subst hi
      by_cases hoff : off i = true
      · simp [disable, hoff]
      · simp [disable, hoff]
    · have hbit : (1 <<< num).testBit i = false := by
        rw [Nat.one_shiftLeft, Nat.testBit_two_pow]
        simpa using fun he => hi he.symm
      by_cases hoff : off num = true
      · simp [disable, hoff, hi, hbit]
      · simp [disable, hoff, hi]

theorem testBit_subregionMask {a sub base size i : Nat} (hi : i < 8) :
    (subregionMask a sub base size).testBit i =
      (decide (w32 (a + i * sub) < base) || decide (w32 (a + i * sub) ≥ w32 (base + size))) := by
  rw [subregionMask, testBit_foldl_disable, Nat.zero_testBit, Bool.false_or]
  simp [numSubregions, hi]

theorem two_pow_eighth {k : Nat} (hk : 8 ≤ k) : 2 ^ k = 8 * 2 ^ (k - 3) := by
  rw [show (8 : Nat) = 2 ^ 3 by decide, ← Nat.pow_add]
  congr 1
  omega

theorem two_pow_div_eight {k : Nat} (hk : 8 ≤ k) : 2 ^ k / numSubregions = 2 ^ (k - 3) := by
  rw [two_pow_eighth hk]
  exact Nat.mul_div_cancel_left _ (by decide)

theorem roundDown_parts {base sub q : Nat} (hsub : 0 < sub) (hbase : base < 2 ^ 32)
    (hq : base = q * sub) : roundDownToMultiple base (8 * sub) = 8 * sub * (q / 8) := by
  have hdiv : base / (8 * sub) = q / 8 := by
    rw [Nat.mul_comm, ← Nat.div_div_eq_div_mul, hq, Nat.mul_div_cancel _ hsub]
  have hle : 8 * sub * (q / 8) ≤ base := by
    rw [← hdiv]
    exact Nat.mul_div_le base (8 * sub)
  rw [roundDownToMultiple, hdiv, w32_of_lt (by omega)]

section Range

variable {base size : Nat} {cfg : SlaveConfig}

theorem tryRegion_eq_found {k address mask : Nat} (hk : 8 ≤ k) :
    tryRegion base size (2 ^ k) = .found address mask ↔
      base % 2 ^ (k - 3) = 0 ∧ size % 2 ^ (k - 3) = 0 ∧ size / 2 ^ (k - 3) ≤ 8 ∧
        w32 (base + size) ≤ w32 (roundDownToMultiple base (2 ^ k) + 2 ^ k) ∧
        roundDownToMultiple base (2 ^ k) = address ∧
        subregionMask (roundDownToMultiple base (2 ^ k)) (2 ^ (k - 3)) base size = mask := by
  simp only [tryRegion, two_pow_div_eight hk]
  split_ifs with h1 h2 h3 h4
  · simp [h1]
  · simp [h2]
  · simp only [numSubregions] at h3
    simp only [false_iff, not_and]
    intros
    omega
  · simp only [false_iff, not_and]
    intros
    omega
  · simp only [numSubregions, ne_eq, Decidable.not_not, Nat.not_lt] at h1 h2 h3 h4
    simp [h1, h2, h3, h4]

/-- A region that is taken: the range is some of its parts, and it ends below 4 GB. -/
theorem tryRegion_found {k address mask : Nat} (h : base + size < 2 ^ 32) (hs : 0 < size)
    (hk : 8 ≤ k) (hk' : k ≤ 30) (hf : tryRegion base size (2 ^ k) = .found address mask) :
    ∃ f c, f + c ≤ 8 ∧ base = address + f * 2 ^ (k - 3) ∧ size = c * 2 ^ (k - 3) ∧
      address % 2 ^ k = 0 ∧ address + 2 ^ k < 2 ^ 32 ∧
      mask = subregionMask address (2 ^ (k - 3)) base size := by
  have hsub := Nat.two_pow_pos (k - 3)
  have heighth := two_pow_eighth hk
  have hpow : 2 ^ k ≤ 2 ^ 30 := Nat.pow_le_pow_right Nat.two_pos hk'
  obtain ⟨hbase, hsize, hcount, hend, rfl, rfl⟩ := (tryRegion_eq_found hk).1 hf
  generalize 2 ^ (k - 3) = sub at *
  have hq := (Nat.div_mul_cancel (Nat.dvd_of_mod_eq_zero hbase)).symm
  have hc := (Nat.div_mul_cancel (Nat.dvd_of_mod_eq_zero hsize)).symm
  generalize base / sub = q at hq
  generalize size / sub = c at hc hcount
  have haddr := roundDown_parts hsub (show base < 2 ^ 32 by omega) hq
  rw [← heighth] at haddr
  rw [haddr] at hend ⊢
  have hqsub : base = 2 ^ k * (q / 8) + q % 8 * sub := by
    rw [heighth, hq]
    conv_lhs => rw [← Nat.div_add_mod q 8]
    ring
  -- the end of the region does not wrap, as the range is not empty
  have htop : 2 ^ k * (q / 8) + 2 ^ k < 2 ^ 32 := by
    by_contra hwrap
    have hdvd : 2 ^ k ∣ 2 ^ 32 := Nat.pow_dvd_pow 2 (by omega)
    obtain ⟨m, hm⟩ := hdvd
    have hlt : 2 ^ k * (q / 8) < 2 ^ k * m := by omega
    have hqm : q / 8 + 1 ≤ m := Nat.lt_of_mul_lt_mul_left hlt
    have hle : 2 ^ k * (q / 8 + 1) ≤ 2 ^ k * m := Nat.mul_le_mul_left _ hqm
    rw [Nat.mul_succ] at hle
    have heq : 2 ^ k * (q / 8) + 2 ^ k = 2 ^ 32 := by omega
    rw [heq, w32_of_lt h] at hend
    simp only [w32, Nat.mod_self] at hend
    omega
  rw [w32_of_lt htop, w32_of_lt h] at hend
  refine ⟨q % 8, c, ?_, hqsub, hc, Nat.mul_mod_right _ _, htop, rfl⟩
  have hroom : (q % 8 + c) * sub ≤ 8 * sub := by
    rw [Nat.add_mul]
    omega
  exact Nat.le_of_mul_le_mul_right hroom hsub

theorem exact_of_parts {k f c address : Nat} (h : base + size < 2 ^ 32) (hk : 8 ≤ k)
    (hfc : f + c ≤ 8) (hbase : base = address + f * 2 ^ (k - 3))
    (hsize : size = c * 2 ^ (k - 3)) (hal : address % 2 ^ k = 0)
    (htop : address + 2 ^ k < 2 ^ 32) :
    Exact ⟨address, k - 1, subregionMask address (2 ^ (k - 3)) base size⟩ base size := by
  have hbytes : regionsizeToBytes (k - 1) = 2 ^ k := by
    rw [regionsizeToBytes_eq]
    congr 1
    omega
  have hsub := Nat.two_pow_pos (k - 3)
  refine ⟨by simpa only [SlaveConfig.bytes, hbytes] using hal, fun b => ?_⟩
  simp only [SlaveConfig.Covers, SlaveConfig.bytes, hbytes, two_pow_div_eight hk]
  rw [two_pow_eighth hk] at htop ⊢
  generalize 2 ^ (k - 3) = sub at *
  have hparts := interval_of_parts (a := address) (b := b) hsub hfc
  rw [← hbase, ← hsize] at hparts
  rw [← hparts]
  have hbit : ∀ i, i < 8 → ((subregionMask address sub base size).testBit i = false ↔
      f ≤ i ∧ i < f + c) := by
    intro i hi
    have hroom : i * sub < 8 * sub := Nat.mul_lt_mul_of_pos_right hi hsub
    rw [testBit_subregionMask hi, w32_of_lt (by omega), w32_of_lt h, Bool.or_eq_false_iff,
      decide_eq_false_iff_not, decide_eq_false_iff_not, hbase, hsize, Nat.not_lt, ge_iff_le,
      Nat.not_le, Nat.add_assoc, ← Nat.add_mul]
    constructor
    · intro hx
      obtain ⟨hlo, hhi⟩ := hx
      exact ⟨Nat.le_of_mul_le_mul_right (Nat.le_of_add_le_add_left hlo) hsub,
        Nat.lt_of_mul_lt_mul_right (Nat.lt_of_add_lt_add_left hhi)⟩
    · intro hx
      obtain ⟨hlo, hhi⟩ := hx
      exact ⟨Nat.add_le_add_left (Nat.mul_le_mul_right sub hlo) address,
        Nat.add_lt_add_left (Nat.mul_lt_mul_of_pos_right hhi hsub) address⟩
  constructor
  · intro hx
    obtain ⟨hlo, hhi, hb⟩ := hx
    exact ⟨hlo, hhi, (hbit _ (Nat.div_lt_of_lt_mul (by rw [Nat.mul_comm]; omega))).1 hb⟩
  · intro hx
    obtain ⟨hlo, hhi, hb⟩ := hx
    exact ⟨hlo, hhi, (hbit _ (Nat.div_lt_of_lt_mul (by rw [Nat.mul_comm]; omega))).2 hb⟩

/-- The range in parts of a region that covers it. -/
theorem parts_of_describes (hs : 0 < size) (hd : Describes cfg base size) :
    ∃ k f c, 8 ≤ k ∧ k ≤ 30 ∧ cfg.bytes = 2 ^ k ∧ f + c ≤ 8 ∧ 0 < c ∧
      base = cfg.address + f * 2 ^ (k - 3) ∧ size = c * 2 ^ (k - 3) ∧ cfg.address % 2 ^ k = 0 := by
  obtain ⟨hmin, hmax, hal, hcov⟩ := hd
  have hbytes : cfg.bytes = 2 ^ (cfg.regionSize + 1) := regionsizeToBytes_eq _
  rw [hbytes] at hmin hmax hal
  have hk : 8 ≤ cfg.regionSize + 1 := (Nat.pow_le_pow_iff_right (a := 2) (by decide)).1 hmin
  have hk' : cfg.regionSize + 1 ≤ 30 := (Nat.pow_le_pow_iff_right (a := 2) (by decide)).1 hmax
  simp only [SlaveConfig.Covers, hbytes, two_pow_div_eight hk] at hcov
  simp only [two_pow_eighth hk] at hcov
  obtain ⟨f, c, hfc, hc, hbase, hsize⟩ := parts_of_interval
    (fun i => cfg.subregions.testBit i = false) (Nat.two_pow_pos _) hs hcov
  exact ⟨_, f, c, hk, hk', hbytes, hfc, hc, hbase, hsize, hal⟩

theorem tryRegion_of_parts {k f c address : Nat} (h : base + size < 2 ^ 32) (hk : 8 ≤ k)
    (hfc : f + c ≤ 8) (hc : 0 < c) (hbase : base = address + f * 2 ^ (k - 3))
    (hsize : size = c * 2 ^ (k - 3)) (hal : address % 2 ^ k = 0) (htop : address + 2 ^ k < 2 ^ 32) :
    ∃ mask, tryRegion base size (2 ^ k) = .found address mask := by
  have hsub := Nat.two_pow_pos (k - 3)
  have heighth := two_pow_eighth hk
  have haddr := (Nat.div_mul_cancel (Nat.dvd_of_mod_eq_zero hal)).symm
  have hq : base = (8 * (address / 2 ^ k) + f) * 2 ^ (k - 3) := by
    rw [hbase, Nat.add_mul, Nat.mul_right_comm, ← heighth, Nat.mul_comm (2 ^ k), ← haddr]
  have hdown : roundDownToMultiple base (2 ^ k) = address := by
    have hdiv : (8 * (address / 2 ^ k) + f) / 8 = address / 2 ^ k := by omega
    have hdown := roundDown_parts hsub (show base < 2 ^ 32 by omega) hq
    rw [← heighth, hdiv, Nat.mul_comm, ← haddr] at hdown
    exact hdown
  have hend : base + size ≤ address + 2 ^ k := by
    have hroom : (f + c) * 2 ^ (k - 3) ≤ 8 * 2 ^ (k - 3) := Nat.mul_le_mul_right _ hfc
    rw [Nat.add_mul] at hroom
    omega
  refine ⟨_, (tryRegion_eq_found hk).2 ⟨?_, ?_, ?_, ?_, hdown, rfl⟩⟩
  · rw [hq]
    exact Nat.mul_mod_left _ _
  · rw [hsize]
    exact Nat.mul_mod_left _ _
  · rw [hsize, Nat.mul_div_cancel _ hsub]
    omega
  · rw [hdown, w32_of_lt h, w32_of_lt htop]
    exact hend

/-- The loop does not give up before a region size whose parts `base` is a multiple of. -/
theorem tryRegion_ne_failed {j k : Nat} (hj : 8 ≤ j) (hjk : j ≤ k)
    (hbase : base % 2 ^ (k - 3) = 0) : tryRegion base size (2 ^ j) ≠ .failed := by
  have hdvd : 2 ^ (j - 3) ∣ base :=
    Nat.dvd_trans (Nat.pow_dvd_pow 2 (by omega)) (Nat.dvd_of_mod_eq_zero hbase)
  have hzero := Nat.mod_eq_zero_of_dvd hdvd
  simp only [tryRegion, two_pow_div_eight hj, hzero, ne_eq, not_true_eq_false, if_false]
  split_ifs <;> simp

/-! ## The loop -/

/-- The loop ends; it takes a region that the body takes, and it passes no such region whose
smaller ones do not fail. -/
theorem searchRegion_spec (base size : Nat) {high : Nat} (hhigh : high ≤ 2 ^ 30) :
    ∀ (fuel : Nat) {j : Nat}, 8 ≤ j → j ≤ 31 → 31 < j + fuel →
      ∃ out, searchRegion base size high fuel (2 ^ j) = some out ∧
        (∀ cfg, out = some cfg → ∃ k address mask, 8 ≤ k ∧ k ≤ 30 ∧
          tryRegion base size (2 ^ k) = .found address mask ∧ cfg = ⟨address, k - 1, mask⟩) ∧
        ∀ k address mask, j ≤ k → 2 ^ k ≤ high →
          (∀ i, j ≤ i → i ≤ k → tryRegion base size (2 ^ i) ≠ .failed) →
          tryRegion base size (2 ^ k) = .found address mask → out ≠ none
  | 0, j, _, _, hf => by omega
  | fuel + 1, j, hj, hj', hf => by
    by_cases hle : 2 ^ j ≤ high
    case neg =>
      refine ⟨none, by rw [searchRegion, if_neg hle], by simp, ?_⟩
      intro k _ _ hjk hk
      have hpow : 2 ^ j ≤ 2 ^ k := Nat.pow_le_pow_right Nat.two_pos hjk
      omega
    have hj30 : j ≤ 30 :=
      (Nat.pow_le_pow_iff_right (a := 2) (by decide)).1 (Nat.le_trans hle hhigh)
    cases ht : tryRegion base size (2 ^ j) with
    | failed =>
      refine ⟨none, by simp only [searchRegion, if_pos hle, ht], by simp, ?_⟩
      intro k _ _ hjk _ hok
      exact absurd ht (hok j (Nat.le_refl j) hjk)
    | next =>
      have hnext : w32 (2 ^ j <<< 1) = 2 ^ (j + 1) := by
        rw [Nat.shiftLeft_eq, Nat.pow_one, ← Nat.pow_succ]
        exact w32_of_lt (Nat.pow_lt_pow_right (by decide) (by omega))
      obtain ⟨out, hout, hsound, hcomplete⟩ :=
        searchRegion_spec base size hhigh fuel (j := j + 1) (by omega) (by omega) (by omega)
      refine ⟨out, by simp only [searchRegion, if_pos hle, ht, hnext, hout], hsound, ?_⟩
      intro k address mask hjk hk hok hfound
      have hne : j ≠ k := by
        intro h
        subst h
        rw [ht] at hfound
        cases hfound
      exact hcomplete k address mask (by omega) hk (fun i hi => hok i (by omega)) hfound
    | found address mask =>
      have hrs : bytesToRegionsize (2 ^ j) = some (j - 1) := by
        have hrs := bytesToRegionsize_two_pow (k := j - 1) (by omega) (by omega)
        rwa [Nat.sub_add_cancel (by omega)] at hrs
      refine ⟨some ⟨address, j - 1, mask⟩, ?_, ?_, by simp⟩
      · simp only [searchRegion, if_pos hle, ht, hrs, Option.map_some]
      · intro cfg hcfg
        cases hcfg
        exact ⟨j, address, mask, hj, hj30, ht, rfl⟩

/-! ## The result -/

/-- What is written covers exactly the range, and a range that some region covers is not
refused. -/
def CalcLaw (base size : Nat) : Prop :=
  ∃ out, calcSmpuParams base size = some out ∧ (∀ cfg, out = some cfg → Exact cfg base size) ∧
    ((∃ cfg, Describes cfg base size) → out ≠ none)

theorem calc_of_simplest (hs : 0 < size) (h : base + size < 2 ^ 32)
    (hsimple : simplest base size = true) :
    ∃ cfg, calcSmpuParams base size = some (some cfg) ∧ Exact cfg base size := by
  have hcalc : calcSmpuParams base size = (bytesToRegionsize size).map fun rs => some ⟨base, rs, 0⟩ :=
    if_pos hsimple
  simp only [simplest, Bool.and_eq_true, isAligned, beq_iff_eq, minRegionsize] at hsimple
  obtain ⟨⟨hpow, hal⟩, hmin⟩ := hsimple
  obtain ⟨m, rfl⟩ := (isWholePowerOfTwo_iff hs (by omega)).1 hpow
  have hm : 8 ≤ m := (Nat.pow_le_pow_iff_right (a := 2) (by decide)).1 (of_decide_eq_true hmin)
  have hm' : m < 32 := (Nat.pow_lt_pow_iff_right (a := 2) (by decide)).1 (by omega)
  have hrs := bytesToRegionsize_two_pow (k := m - 1) (by omega) (by omega)
  rw [Nat.sub_add_cancel (by omega)] at hrs
  have hbytes : regionsizeToBytes (m - 1) = 2 ^ m := by
    rw [regionsizeToBytes_eq, Nat.sub_add_cancel (by omega)]
  refine ⟨⟨base, m - 1, 0⟩, by rw [hcalc, hrs]; rfl, ?_, fun b => ?_⟩
  · simpa only [SlaveConfig.bytes, hbytes] using hal
  · simp [SlaveConfig.Covers, SlaveConfig.bytes, hbytes]

/-- What the loop takes covers exactly the range, and ends below 4 GB. -/
theorem calc_of_search (hs : 0 < size) (h : base + size < 2 ^ 32)
    (hsimple : ¬ simplest base size = true) :
    ∃ out, calcSmpuParams base size = some out ∧
      (∀ cfg, out = some cfg → Describes cfg base size ∧ cfg.address + cfg.bytes < 2 ^ 32) ∧
      ∀ cfg, Describes cfg base size → cfg.address + cfg.bytes < 2 ^ 32 → out ≠ none := by
  obtain ⟨j, hj, hj', hlow, hleast⟩ := lowRs_spec hs (show size < 2 ^ 32 by omega)
  obtain ⟨hhigh, hmost⟩ := highRs_spec hs
  obtain ⟨out, hout, hsound, hcomplete⟩ :=
    searchRegion_spec base size hhigh 33 hj hj' (by omega)
  refine ⟨out, by rw [calcSmpuParams, if_neg hsimple, hlow, hout], ?_, ?_⟩
  · intro cfg hcfg
    obtain ⟨k, address, mask, hk, hk', hfound, rfl⟩ := hsound cfg hcfg
    obtain ⟨f, c, hfc, hbase, hsize, hal, htop, rfl⟩ := tryRegion_found h hs hk hk' hfound
    have hbytes : regionsizeToBytes (k - 1) = 2 ^ k := by
      rw [regionsizeToBytes_eq, Nat.sub_add_cancel (by omega)]
    refine ⟨⟨?_, ?_, exact_of_parts h hk hfc hbase hsize hal htop⟩, ?_⟩
    · simp only [SlaveConfig.bytes, hbytes]
      exact Nat.pow_le_pow_right (n := 2) Nat.two_pos hk
    · simp only [SlaveConfig.bytes, hbytes]
      exact Nat.pow_le_pow_right (n := 2) Nat.two_pos hk'
    · simpa only [SlaveConfig.bytes, hbytes] using htop
  · intro cfg hd htop
    obtain ⟨k, f, c, hk, hk', hbytes, hfc, hc, hbase, hsize, hal⟩ := parts_of_describes hs hd
    rw [hbytes] at htop
    obtain ⟨mask, hfound⟩ := tryRegion_of_parts h hk hfc hc hbase hsize hal htop
    have hroom : c * 2 ^ (k - 3) ≤ 8 * 2 ^ (k - 3) := Nat.mul_le_mul_right _ (by omega)
    have hone : 1 * 2 ^ (k - 3) ≤ c * 2 ^ (k - 3) := Nat.mul_le_mul_right _ hc
    have heighth := two_pow_eighth hk
    have hzero := ((tryRegion_eq_found hk).1 hfound).1
    refine hcomplete k _ mask (hleast k hk hk' (by omega)) (hmost k hk' (by omega)) ?_ hfound
    intro i hi hik
    exact tryRegion_ne_failed (Nat.le_trans hj hi) hik hzero

/-- **A range is refused although a region covers it exactly if it is not a region of its own
and every such region ends at 4 GB.** Otherwise what is written covers exactly the range. -/
theorem calc_smpu_params_iff (base size : Nat) (hs : 0 < size) (h : base + size < 2 ^ 32) :
    CalcLaw base size ↔ simplest base size = true ∨ (∀ cfg, ¬ Describes cfg base size) ∨
      ∃ cfg, Describes cfg base size ∧ cfg.address + cfg.bytes < 2 ^ 32 := by
  by_cases hsimple : simplest base size = true
  · obtain ⟨cfg, hcalc, hexact⟩ := calc_of_simplest hs h hsimple
    have hlaw : CalcLaw base size := ⟨_, hcalc, by simpa using hexact, by simp⟩
    exact iff_of_true hlaw (.inl hsimple)
  obtain ⟨out, hout, hsound, hcomplete⟩ := calc_of_search hs h hsimple
  constructor
  · intro hx
    obtain ⟨out', hout', -, hall⟩ := hx
    rw [hout, Option.some.injEq] at hout'
    subst hout'
    by_cases hany : ∃ cfg, Describes cfg base size
    · cases hcfg : out with
      | none => exact absurd hcfg (hall hany)
      | some cfg => exact .inr (.inr ⟨cfg, hsound cfg hcfg⟩)
    · exact .inr (.inl fun cfg hd => hany ⟨cfg, hd⟩)
  · intro hcond
    refine ⟨out, hout, fun cfg hcfg => (hsound cfg hcfg).1.2.2, ?_⟩
    intro hx
    obtain ⟨cfg, hd⟩ := hx
    rcases hcond with hc | hc | ⟨cfg', hd', htop⟩
    · exact absurd hc hsimple
    · exact absurd hd (hc cfg)
    · exact hcomplete cfg' hd' htop

end Range

/-- 96 bytes behind 0x10040, which are three parts of 256 bytes behind 0x10000. -/
theorem calc_smpu_params_threeParts : CalcLaw 0x10040 96 := by
  refine (calc_smpu_params_iff 0x10040 96 (by decide) (by decide)).2 (.inr (.inr ?_))
  have hexact : Exact ⟨0x10000, 7, subregionMask 0x10000 32 0x10040 96⟩ 0x10040 96 :=
    exact_of_parts (k := 8) (f := 2) (c := 3) (by decide) (by decide) (by decide) (by decide)
      (by decide) (by decide) (by decide)
  exact ⟨_, ⟨by decide, by decide, hexact⟩, by decide⟩

/-- The first part of the last 256 bytes below 4 GB: the end of the region is 0, which is below
the end of the range. -/
theorem calc_smpu_params_refuses_top :
    0 < 32 ∧ 0xFFFFFF00 + 32 < 2 ^ 32 ∧ Describes ⟨0xFFFFFF00, 7, 0xFE⟩ 0xFFFFFF00 32 ∧
      ¬ CalcLaw 0xFFFFFF00 32 := by
  have hbits : ∀ i < 8, ((0xFE : Nat).testBit i = false ↔ i = 0) := by decide
  have hd : Describes ⟨0xFFFFFF00, 7, 0xFE⟩ 0xFFFFFF00 32 := by
    refine ⟨by decide, by decide, by decide, fun b => ?_⟩
    have hbytes : regionsizeToBytes 7 = 256 := by decide
    simp only [SlaveConfig.Covers, SlaveConfig.bytes, hbytes, numSubregions]
    constructor
    · intro h
      obtain ⟨hlo, hhi, hb⟩ := h
      have hfirst := (hbits _ (by omega)).1 hb
      omega
    · intro h
      obtain ⟨hlo, hhi⟩ := h
      exact ⟨hlo, by omega, (hbits _ (by omega)).2 (by omega)⟩
  refine ⟨by decide, by decide, hd, ?_⟩
  intro h
  obtain ⟨out, hout, -, hall⟩ := h
  have hrefused : calcSmpuParams 0xFFFFFF00 32 = some none := by decide +kernel
  rw [hrefused, Option.some.injEq] at hout
  exact hall ⟨_, hd⟩ hout.symm

end Tfm.L2.Smpu
