import Mathlib.Data.List.Basic
import Mathlib.Data.Fintype.Basic
import Mathlib.Data.Nat.Bitwise
import Mathlib.Tactic.Positivity
import Tfm.Core.Index

/-!
# PSoC 64 SMPU access rules

The SPM asks the SMPU driver what a protection context may do with a range of
memory. The driver walks the SMPU structures from the highest number down,
classifies the range against each of them, and combines the attributes of those
that cover a part of it.

A structure protects the sub-regions of its region that are not disabled. The
hardware decides each byte on its own: the highest-numbered enabled structure
that applies to the context and covers the byte.

Results:
* `regionCoverage_spec`: the classification of a range agrees with the bytes the
  structure decides.
* `accessLoop_passed`, `walk_cases`: what the walk collects and where it ends.
* `access_rules_sound_iff`: the rules that are returned are granted by the
  hardware for every byte exactly if no structure above the one that covers the
  whole range withholds what that one grants.
* `access_rules_unsound_on_nested`: a denied region inside an open one.
-/
namespace Tfm.L2.Smpu

/-- mirrors secure_fw/spm/cmsis_psa/tfm_multi_core.h:22-30 -/
structure MemAttr where
  isMpuEnabled : Bool
  isValid : Bool
  isXn : Bool
  isPrivRdAllow : Bool
  isPrivWrAllow : Bool
  isUnprivRdAllow : Bool
  isUnprivWrAllow : Bool
  deriving DecidableEq, Repr

/-- The fields of `ATT0` and `ADDR0` of a slave structure. `UX` is left out: no
code reads it. A region has at least one byte for each sub-region and is below
4 GB. -/
structure SmpuStruct where
  enabled : Bool
  regionSize : Nat
  pcMask15To1 : Nat
  pcMatch : Bool
  px : Bool
  pr : Bool
  pw : Bool
  ur : Bool
  uw : Bool
  addr24 : Nat
  subregionDisable : Nat
  regionSize_ok : 2 ≤ regionSize ∧ regionSize ≤ 30
  addr24_lt : addr24 < 2 ^ 24
  subregionDisable_lt : subregionDisable < 2 ^ 8

/-! ## The driver -/

def numSubregions : Nat := 8

def uintptrMax : Nat := 2 ^ 32 - 1

/-- mirrors platform/ext/target/cypress/psoc64/smpu_config.h:30 -/
def regionsizeToBytes (x : Nat) : Nat := 1 <<< (1 + x)

/-- mirrors secure_fw/spm/cmsis_psa/tfm_multi_core_mem_check.c:53-72 -/
def checkAddressRange (p s regionStart regionLimit : Nat) : Bool :=
  if p > uintptrMax - s then false
  else decide (p ≥ regionStart ∧ (p + s + uintptrMax) % 2 ^ 32 ≤ regionLimit)

/-- Address and size; `none` is a disabled SMPU.
mirrors platform/ext/target/cypress/psoc64/driver_smpu.c:326-352 -/
def readRegion (m : SmpuStruct) : Option (Nat × Nat) :=
  if !m.enabled then none
  else
    let size := regionsizeToBytes m.regionSize
    let address := m.addr24 <<< 8
    -- Some address bits may be ignored
    some (address - address % size, size)

/-- mirrors platform/ext/target/cypress/psoc64/driver_smpu.c:384-393 -/
def denyAllAccess : MemAttr := ⟨true, true, true, false, false, false, false⟩

/-- mirrors platform/ext/target/cypress/psoc64/driver_smpu.c:395-405 -/
def att0ToTfmAttr (m : SmpuStruct) : MemAttr := ⟨true, true, !m.px, m.pr, m.pw, m.ur, m.uw⟩

def pcInMask (m : SmpuStruct) (pc : Nat) : Bool := m.pcMask15To1.testBit (pc - 1)

/-- The attributes of a range that the structure covers. -/
def pcAttr (m : SmpuStruct) (pc : Nat) : MemAttr :=
  if pcInMask m pc then att0ToTfmAttr m else denyAllAccess

/-- Address, size and the mask of the sub-regions seen so far. -/
structure Window where
  address : Nat
  size : Nat
  mask : Nat
  deriving DecidableEq, Repr

/-- One of the two loops over the disabled sub-regions: `cut` takes a sub-region
off the window, and the loop stops at the first enabled one.
mirrors platform/ext/target/cypress/psoc64/driver_smpu.c:455-479 -/
def trim (subregions : Nat) (cut : Window → Window) : List Nat → Window → Window
  | [], w => w
  | i :: is, w =>
    if subregions.testBit i then
      trim subregions cut is { cut w with mask := w.mask ||| 1 <<< i }
    else w

def cutBase (subregionSize : Nat) (w : Window) : Window :=
  { w with address := w.address + subregionSize, size := w.size - subregionSize }

def cutTop (subregionSize : Nat) (w : Window) : Window := { w with size := w.size - subregionSize }

inductive Trimmed
  | panic
  | allDisabled
  | window (address size : Nat)
  deriving DecidableEq

/-- mirrors platform/ext/target/cypress/psoc64/driver_smpu.c:450-492 -/
def adjustSubregions (address size subregions : Nat) : Trimmed :=
  if subregions = 0 then .window address size
  else
    let subregionSize := size / numSubregions
    let up := trim subregions (cutBase subregionSize) (List.range numSubregions) ⟨address, size, 0⟩
    if up.size = 0 then .allDisabled
    else
      let down := trim subregions (cutTop subregionSize) (List.range numSubregions).reverse up
      if down.mask ≠ subregions then .panic else .window down.address down.size

inductive Coverage
  | notCovered
  | partlyCovered (attr : MemAttr)
  | fullyCovered (attr : MemAttr)
  deriving DecidableEq

/-- `none` is a panic.
mirrors platform/ext/target/cypress/psoc64/driver_smpu.c:412-529 -/
def regionCoverage (p s pc : Nat) (m : SmpuStruct) : Option Coverage :=
  match readRegion m with
  | none => some .notCovered
  | some (address, size) =>
    if !pcInMask m pc && m.pcMatch then some .notCovered
    else
      match adjustSubregions address size m.subregionDisable with
      | .panic => none
      | .allDisabled => some .notCovered
      | .window address size =>
        let limit := address + size - 1
        if checkAddressRange p s address limit then some (.fullyCovered (pcAttr m pc))
        else if s = 0 ∨ p > uintptrMax - s then some (.fullyCovered denyAllAccess)
        else if p ≤ limit ∧ address ≤ p + s - 1 then some (.partlyCovered (pcAttr m pc))
        else some .notCovered

/-- mirrors platform/ext/target/cypress/psoc64/driver_smpu.c:533-550 -/
def combineMemAttr (a b : MemAttr) : MemAttr :=
  if a.isValid && !b.isValid then b
  else if !a.isValid && b.isValid then a
  else
    { a with
      isMpuEnabled := if !a.isMpuEnabled then b.isMpuEnabled else a.isMpuEnabled
      isXn := if !a.isXn then b.isXn else a.isXn
      isPrivRdAllow := if a.isPrivRdAllow then b.isPrivRdAllow else a.isPrivRdAllow
      isPrivWrAllow := if a.isPrivWrAllow then b.isPrivWrAllow else a.isPrivWrAllow
      isUnprivRdAllow := if a.isUnprivRdAllow then b.isUnprivRdAllow else a.isUnprivRdAllow
      isUnprivWrAllow := if a.isUnprivWrAllow then b.isUnprivWrAllow else a.isUnprivWrAllow }

def allAccess : MemAttr := ⟨false, true, true, true, true, true, true⟩

/-- The loop over the structures in priority order. The first argument is `attr2`,
once a structure has covered the range partly.
mirrors platform/ext/target/cypress/psoc64/driver_smpu.c:566-612 -/
def accessLoop (p s pc : Nat) : Option MemAttr → List SmpuStruct → Option MemAttr
  | some attr2, [] => some attr2
  | none, [] => some allAccess
  | acc, m :: ms =>
    match regionCoverage p s pc m with
    | none => none
    | some .notCovered => accessLoop p s pc acc ms
    | some (.partlyCovered attr) =>
      match acc with
      | some attr2 => accessLoop p s pc (some (combineMemAttr attr2 attr)) ms
      | none => accessLoop p s pc (some attr) ms
    | some (.fullyCovered attr) => some attr

/-- `CY_PROT_PC1` to `CY_PROT_PC15` -/
def pcValid (pc : Nat) : Bool := decide (1 ≤ pc ∧ pc ≤ 15)

/-- The structures are given by number; higher numbers have priority.
mirrors platform/ext/target/cypress/psoc64/driver_smpu.c:552-613 -/
def getAccessRules (smpus : List SmpuStruct) (p s pc : Nat) : Option MemAttr :=
  if !pcValid pc then none else accessLoop p s pc none smpus.reverse

/-! ## The hardware -/

inductive Access
  | privRead
  | privWrite
  | unprivRead
  | unprivWrite
  deriving DecidableEq

def MemAttr.allows (a : MemAttr) : Access → Bool
  | .privRead => a.isPrivRdAllow
  | .privWrite => a.isPrivWrAllow
  | .unprivRead => a.isUnprivRdAllow
  | .unprivWrite => a.isUnprivWrAllow

/-- The byte is in a sub-region that is not disabled. -/
def covers (m : SmpuStruct) (b : Nat) : Bool :=
  match readRegion m with
  | none => false
  | some (address, size) =>
    decide (address ≤ b ∧ b < address + size) &&
      !m.subregionDisable.testBit ((b - address) / (size / numSubregions))

/-- With `PC_MATCH` a structure applies only to the contexts of its mask; without
it, the other contexts are denied. -/
def decides (pc b : Nat) (m : SmpuStruct) : Bool := (pcInMask m pc || !m.pcMatch) && covers m b

/-- What the structure grants to a context it applies to. -/
def grants (m : SmpuStruct) (pc : Nat) (x : Access) : Bool :=
  pcInMask m pc &&
    match x with
    | .privRead => m.pr
    | .privWrite => m.pw
    | .unprivRead => m.ur
    | .unprivWrite => m.uw

def hwAllows (smpus : List SmpuStruct) (pc b : Nat) (x : Access) : Bool :=
  match smpus.reverse.find? (decides pc b) with
  | none => true
  | some m => grants m pc x

/-- The enabled sub-regions are contiguous. -/
def Contiguous (m : SmpuStruct) : Prop :=
  ∀ i j k, i ≤ j → j ≤ k → k < numSubregions → m.subregionDisable.testBit i = false →
    m.subregionDisable.testBit k = false → m.subregionDisable.testBit j = false

/-- What the rules allow, the hardware allows for every byte of the range. -/
def Sound (smpus : List SmpuStruct) (p s pc : Nat) : Prop :=
  ∃ attr, getAccessRules smpus p s pc = some attr ∧
    ∀ x, attr.allows x = true → ∀ b, p ≤ b → b < p + s → hwAllows smpus pc b x = true

/-! ## Coverage -/

/-- The run of disabled sub-regions at the start of `is`. -/
def disabledRun (subregions : Nat) (is : List Nat) : List Nat := is.takeWhile (subregions.testBit ·)

def maskOf (acc : Nat) (is : List Nat) : Nat := is.foldl (fun k i => k ||| 1 <<< i) acc

theorem trim_cutBase (sub ss : Nat) (is : List Nat) : ∀ w : Window,
    trim sub (cutBase ss) is w =
      ⟨w.address + (disabledRun sub is).length * ss, w.size - (disabledRun sub is).length * ss,
        maskOf w.mask (disabledRun sub is)⟩ := by
  induction is with
  | nil => intro w; simp [trim, disabledRun, maskOf]
  | cons i is ih =>
    intro w
    by_cases h : sub.testBit i
    · rw [trim, if_pos h, ih]
      simp only [cutBase, disabledRun, List.takeWhile_cons, h, if_true, List.length_cons,
        Nat.succ_mul, maskOf, List.foldl_cons, Window.mk.injEq, and_true]
      omega
    · rw [trim, if_neg h]
      simp [disabledRun, h, maskOf]

theorem trim_cutTop (sub ss : Nat) (is : List Nat) : ∀ w : Window,
    trim sub (cutTop ss) is w =
      ⟨w.address, w.size - (disabledRun sub is).length * ss,
        maskOf w.mask (disabledRun sub is)⟩ := by
  induction is with
  | nil => intro w; simp [trim, disabledRun, maskOf]
  | cons i is ih =>
    intro w
    by_cases h : sub.testBit i
    · rw [trim, if_pos h, ih]
      simp only [cutTop, disabledRun, List.takeWhile_cons, h, if_true, List.length_cons,
        Nat.succ_mul, maskOf, List.foldl_cons, Window.mk.injEq, and_true, true_and]
      omega
    · rw [trim, if_neg h]
      simp [disabledRun, h, maskOf]

/-- Disabled sub-regions at the low end and at the high end. -/
def lowRun (sub : Nat) : Nat := (disabledRun sub (List.range numSubregions)).length

def highRun (sub : Nat) : Nat := (disabledRun sub (List.range numSubregions).reverse).length

/-- The two runs are all that is disabled. -/
def TwoRuns (sub : Nat) : Prop :=
  lowRun sub + highRun sub < 8 ∧
    maskOf (maskOf 0 (disabledRun sub (List.range numSubregions)))
      (disabledRun sub (List.range numSubregions).reverse) = sub ∧
    ∀ i < 8, (sub.testBit i = false ↔ lowRun sub ≤ i ∧ i < 8 - highRun sub)

instance (sub : Nat) : Decidable (TwoRuns sub) :=
  inferInstanceAs (Decidable (_ ∧ _ ∧ ∀ i < 8, (_ ↔ _)))

/-- All sub-regions are disabled, or one is between two that are not, or the two
runs are all. -/
theorem runs_or_gap : ∀ sub : Fin (2 ^ 8), sub.val = 255 ∨
    (lowRun sub ≤ 7 - highRun sub ∧ sub.val.testBit (lowRun sub) = false ∧
      sub.val.testBit (7 - highRun sub) = false ∧
      ∃ j : Fin 8, lowRun sub ≤ j ∧ j ≤ 7 - highRun sub ∧ sub.val.testBit j = true) ∨
    TwoRuns sub := by
  decide +kernel

theorem twoRuns_of_contiguous {m : SmpuStruct} (hc : Contiguous m) :
    m.subregionDisable = 255 ∨ TwoRuns m.subregionDisable := by
  obtain h | ⟨_, hl, hh, j, hlj, hjh, hj⟩ | h :=
    runs_or_gap ⟨m.subregionDisable, m.subregionDisable_lt⟩
  · exact .inl h
  · have := hc _ j _ hlj hjh (by simp only [numSubregions]; omega) hl hh
    simp_all
  · exact .inr h

/-- A region has eight sub-regions and is aligned to its size. -/
theorem readRegion_some {m : SmpuStruct} (he : m.enabled = true) :
    ∃ address ss, 0 < ss ∧ address + 8 * ss ≤ 2 ^ 32 ∧ readRegion m = some (address, 8 * ss) := by
  obtain ⟨h2, h30⟩ := m.regionSize_ok
  obtain ⟨k, hk⟩ : ∃ k, m.regionSize = k + 2 := ⟨m.regionSize - 2, by omega⟩
  have hsize : regionsizeToBytes m.regionSize = 8 * 2 ^ k := by
    rw [regionsizeToBytes, Nat.one_shiftLeft, hk, show 1 + (k + 2) = k + 3 by omega, pow_add]
    omega
  have hbase : m.addr24 <<< 8 < 2 ^ 32 := by
    have := m.addr24_lt
    rw [Nat.shiftLeft_eq]
    omega
  -- the size divides the address space, so an aligned region ends inside it
  have hdvd : 8 * 2 ^ k ∣ 2 ^ 32 := by
    rw [show (8 : Nat) = 2 ^ 3 by rfl, ← pow_add]
    exact pow_dvd_pow 2 (by omega)
  refine ⟨m.addr24 <<< 8 - m.addr24 <<< 8 % (8 * 2 ^ k), 2 ^ k, by positivity, ?_, ?_⟩
  · obtain ⟨c, hc⟩ := hdvd
    have hmod := Nat.div_add_mod (m.addr24 <<< 8) (8 * 2 ^ k)
    have hq : m.addr24 <<< 8 / (8 * 2 ^ k) + 1 ≤ c :=
      (Nat.div_lt_iff_lt_mul (by positivity)).mpr (by rw [Nat.mul_comm, ← hc]; exact hbase)
    calc _ = 8 * 2 ^ k * (m.addr24 <<< 8 / (8 * 2 ^ k) + 1) := by rw [Nat.mul_succ]; omega
      _ ≤ 8 * 2 ^ k * c := Nat.mul_le_mul_left _ hq
      _ = 2 ^ 32 := hc.symm
  · simp [readRegion, he, hsize]

theorem adjustSubregions_eq {sub ss : Nat} (address : Nat) (hss : 0 < ss) (h : TwoRuns sub) :
    adjustSubregions address (8 * ss) sub =
      .window (address + lowRun sub * ss) ((8 - lowRun sub - highRun sub) * ss) := by
  obtain ⟨hlt, hmask, _⟩ := h
  have hdiv : 8 * ss / numSubregions = ss := by simp [numSubregions]
  unfold adjustSubregions
  by_cases h0 : sub = 0
  · subst h0
    simp [show lowRun 0 = 0 by decide, show highRun 0 = 0 by decide]
  · have hne : 8 * ss - lowRun sub * ss ≠ 0 := by
      rw [← Nat.sub_mul]
      exact (Nat.mul_pos (by omega) hss).ne'
    simp only [if_neg h0, hdiv, trim_cutBase, trim_cutTop]
    rw [if_neg (by exact hne), if_neg (by exact not_not.mpr hmask), Nat.sub_mul, Nat.sub_mul]
    rfl

theorem adjustSubregions_allDisabled (address ss : Nat) :
    adjustSubregions address (8 * ss) 255 = .allDisabled := by
  have hdiv : 8 * ss / numSubregions = ss := by simp [numSubregions]
  have hl : (disabledRun 255 (List.range numSubregions)).length = 8 := by decide
  simp [adjustSubregions, hdiv, trim_cutBase, hl]

theorem covers_allDisabled {m : SmpuStruct} {address ss b : Nat} (hss : 0 < ss)
    (hr : readRegion m = some (address, 8 * ss)) (h : m.subregionDisable = 255) :
    covers m b = false := by
  have hall : ∀ i : Fin 8, (255 : Nat).testBit i = true := by decide
  have hdiv : 8 * ss / numSubregions = ss := by simp [numSubregions]
  simp only [covers, hr, h, hdiv, Bool.and_eq_false_iff, decide_eq_false_iff_not,
    Bool.not_eq_false']
  by_cases hb : address ≤ b ∧ b < address + 8 * ss
  · exact .inr (hall ⟨(b - address) / ss, (Nat.div_lt_iff_lt_mul hss).mpr (by omega)⟩)
  · exact .inl hb

/-- The bytes of a region that are in an enabled sub-region. -/
theorem covers_iff {m : SmpuStruct} {address ss b : Nat} (hss : 0 < ss)
    (hr : readRegion m = some (address, 8 * ss)) (h : TwoRuns m.subregionDisable) :
    covers m b = true ↔ address + lowRun m.subregionDisable * ss ≤ b ∧
      b < address + lowRun m.subregionDisable * ss +
        (8 - lowRun m.subregionDisable - highRun m.subregionDisable) * ss := by
  obtain ⟨hlt, _, hbit⟩ := h
  have hdiv : 8 * ss / numSubregions = ss := by simp [numSubregions]
  simp only [covers, hr, hdiv, Bool.and_eq_true, decide_eq_true_eq, Bool.not_eq_true']
  generalize lowRun m.subregionDisable = lo at *
  generalize highRun m.subregionDisable = hi at *
  have htop : lo * ss + (8 - lo - hi) * ss = (8 - hi) * ss := by
    rw [← Nat.add_mul]
    congr 1
    omega
  have h8 : (8 - hi) * ss ≤ 8 * ss := Nat.mul_le_mul_right _ (by omega)
  constructor
  · intro hx
    obtain ⟨⟨h1, h2⟩, h3⟩ := hx
    have hi8 : (b - address) / ss < 8 := (Nat.div_lt_iff_lt_mul hss).mpr (by omega)
    obtain ⟨h4, h5⟩ := (hbit _ hi8).mp h3
    have h6 := (Nat.le_div_iff_mul_le hss).mp h4
    have h7 := (Nat.div_lt_iff_lt_mul hss).mp h5
    omega
  · intro hx
    obtain ⟨h1, h2⟩ := hx
    have hi8 : (b - address) / ss < 8 := (Nat.div_lt_iff_lt_mul hss).mpr (by omega)
    refine ⟨by omega, (hbit _ hi8).mpr ⟨?_, ?_⟩⟩
    · exact (Nat.le_div_iff_mul_le hss).mpr (by omega)
    · exact (Nat.div_lt_iff_lt_mul hss).mpr (by omega)

/-- The range `[p, p + s)` meets a property at every byte. -/
def AllBytes (p s : Nat) (P : Nat → Prop) : Prop := ∀ b, p ≤ b → b < p + s → P b

/-- What the classification of a range says of the bytes that `m` decides. A range
up to the end of the address space is taken for one that wraps. -/
def Coverage.Says (p s pc : Nat) (m : SmpuStruct) : Coverage → Prop
  | .notCovered => AllBytes p s fun b => decides pc b m = false
  | .partlyCovered attr => p + s < 2 ^ 32 ∧ attr = pcAttr m pc ∧
      ¬ AllBytes p s fun b => decides pc b m = true
  | .fullyCovered attr =>
    if p + s < 2 ^ 32 then attr = pcAttr m pc ∧ AllBytes p s fun b => decides pc b m = true
    else attr = denyAllAccess

theorem checkAddressRange_iff {p s a n : Nat} (hs : 0 < s) (hs' : s < 2 ^ 32)
    (hps : p + s ≤ 2 ^ 32) (hn : 0 < n) :
    checkAddressRange p s a (a + n - 1) = true ↔ p + s < 2 ^ 32 ∧ a ≤ p ∧ p + s ≤ a + n := by
  unfold checkAddressRange uintptrMax
  split
  · simp only [Bool.false_eq_true, false_iff]
    omega
  · rename_i h
    have : (p + s + (2 ^ 32 - 1)) % 2 ^ 32 = p + s - 1 := by omega
    rw [this, decide_eq_true_iff]
    omega

theorem regionCoverage_spec {p s : Nat} (pc : Nat) {m : SmpuStruct} (hs : 0 < s) (hs' : s < 2 ^ 32)
    (hps : p + s ≤ 2 ^ 32) (hc : Contiguous m) :
    ∃ cov, regionCoverage p s pc m = some cov ∧ cov.Says p s pc m := by
  unfold regionCoverage
  by_cases he : m.enabled = true
  case neg =>
    have hr : readRegion m = none := by simp [readRegion, he]
    rw [hr]
    exact ⟨_, rfl, fun b _ _ => by simp [decides, covers, hr]⟩
  obtain ⟨address, ss, hss, hend, hr⟩ := readRegion_some he
  rw [hr]
  by_cases hpc : (!pcInMask m pc && m.pcMatch) = true
  · refine ⟨.notCovered, by simp [hpc], fun b _ _ => ?_⟩
    simp_all [decides]
  have happ : (pcInMask m pc || !m.pcMatch) = true := by
    cases h1 : pcInMask m pc <;> cases h2 : m.pcMatch <;> simp_all
  have hdec : ∀ b, decides pc b m = covers m b := by simp [decides, happ]
  simp only [if_neg hpc]
  obtain h255 | hruns := twoRuns_of_contiguous hc
  · rw [h255, adjustSubregions_allDisabled]
    refine ⟨_, rfl, fun b _ _ => ?_⟩
    exact (hdec b).trans (covers_allDisabled hss hr h255)
  · have hcov := fun b => covers_iff (b := b) hss hr hruns
    rw [adjustSubregions_eq _ hss hruns]
    have hn : 0 < (8 - lowRun m.subregionDisable - highRun m.subregionDisable) * ss :=
      Nat.mul_pos (by have := hruns.1; omega) hss
    simp only
    generalize address + lowRun m.subregionDisable * ss = a at *
    generalize (8 - lowRun m.subregionDisable - highRun m.subregionDisable) * ss = n at *
    by_cases hfull : checkAddressRange p s a (a + n - 1) = true
    · obtain ⟨h1, h2, h3⟩ := (checkAddressRange_iff hs hs' hps hn).mp hfull
      refine ⟨_, if_pos hfull, ?_⟩
      simp only [Coverage.Says, if_pos h1, true_and]
      intro b hb1 hb2
      rw [hdec, hcov]
      omega
    · rw [if_neg hfull]
      rw [checkAddressRange_iff hs hs' hps hn] at hfull
      by_cases hwrap : s = 0 ∨ p > uintptrMax - s
      · refine ⟨_, if_pos hwrap, ?_⟩
        unfold uintptrMax at hwrap
        rw [Coverage.Says, if_neg (by omega)]
      · rw [if_neg hwrap]
        unfold uintptrMax at hwrap
        split
        · rename_i hpart
          refine ⟨_, rfl, by omega, rfl, fun hall => hfull ⟨by omega, ?_, ?_⟩⟩
          · have := (hcov p).mp (by rw [← hdec]; exact hall p (by omega) (by omega))
            omega
          · have := (hcov (p + s - 1)).mp (by rw [← hdec]; exact hall _ (by omega) (by omega))
            omega
        · rename_i hpart
          refine ⟨_, rfl, fun b hb1 hb2 => ?_⟩
          show decides pc b m = false
          rw [hdec, Bool.eq_false_iff, ne_eq, hcov]
          omega

/-! ## The walk over the structures -/

theorem pcAttr_allows (m : SmpuStruct) (pc : Nat) (x : Access) :
    (pcAttr m pc).allows x = grants m pc x := by
  unfold pcAttr grants
  by_cases h : pcInMask m pc = true
  · cases x <;> simp [h, MemAttr.allows, att0ToTfmAttr]
  · cases x <;> simp [h, MemAttr.allows, denyAllAccess]

theorem pcAttr_isValid (m : SmpuStruct) (pc : Nat) : (pcAttr m pc).isValid = true := by
  unfold pcAttr
  split <;> rfl

theorem combineMemAttr_isValid {a b : MemAttr} (ha : a.isValid = true) (hb : b.isValid = true) :
    (combineMemAttr a b).isValid = true := by
  simp [combineMemAttr, ha, hb]

theorem combineMemAttr_allows {a b : MemAttr} (ha : a.isValid = true) (hb : b.isValid = true)
    (x : Access) : (combineMemAttr a b).allows x = (a.allows x && b.allows x) := by
  unfold combineMemAttr
  cases x <;> simp [ha, hb, MemAttr.allows] <;> split <;> simp_all

section Walk

variable {p s pc : Nat}

/-- The range is classified, and not as fully covered. -/
def Passed (p s pc : Nat) (m : SmpuStruct) : Prop :=
  ∃ cov, regionCoverage p s pc m = some cov ∧ cov.Says p s pc m ∧ ∀ a, cov ≠ .fullyCovered a

/-- What the attributes collected so far allow, each structure that decides a byte
of the range grants. -/
theorem accessLoop_passed {hi : List SmpuStruct} (h : ∀ m ∈ hi, Passed p s pc m) :
    ∀ acc : Option MemAttr, (∀ a ∈ acc, a.isValid = true) →
    ∃ acc', (∀ a ∈ acc', a.isValid = true) ∧
      (∀ rest, accessLoop p s pc acc (hi ++ rest) = accessLoop p s pc acc' rest) ∧
      ∀ x, (∀ a ∈ acc', a.allows x = true) → (∀ a ∈ acc, a.allows x = true) ∧
        ∀ m ∈ hi, ∀ b, p ≤ b → b < p + s → decides pc b m = true → grants m pc x = true := by
  induction hi with
  | nil =>
    intro acc hv
    refine ⟨acc, hv, fun rest => rfl, fun x hx => ⟨hx, fun m hm => by cases hm⟩⟩
  | cons m ms ih =>
    intro acc hv
    have ih := ih fun m' hm' => h m' (List.mem_cons_of_mem _ hm')
    obtain ⟨cov, hcov, hstate, hfull⟩ := h m List.mem_cons_self
    cases cov with
    | fullyCovered a => exact absurd rfl (hfull a)
    | notCovered =>
      obtain ⟨acc', hv', hloop, hallow⟩ := ih acc hv
      refine ⟨acc', hv', fun rest => ?_, fun x hx => ⟨(hallow x hx).1, ?_⟩⟩
      · rw [List.cons_append, accessLoop, hcov]
        exact hloop rest
      · intro m' hm' b hb1 hb2 hd
        obtain rfl | hm' := List.mem_cons.mp hm'
        · rw [hstate b hb1 hb2] at hd
          cases hd
        · exact (hallow x hx).2 m' hm' b hb1 hb2 hd
    | partlyCovered attr =>
      obtain ⟨_, rfl, _⟩ := hstate
      have hm := pcAttr_isValid m pc
      -- the attributes after this structure
      obtain ⟨acc₁, hv₁, hloop₁, hallow₁⟩ : ∃ acc₁ : Option MemAttr,
          (∀ a ∈ acc₁, a.isValid = true) ∧
          (∀ rest, accessLoop p s pc acc (m :: rest) = accessLoop p s pc acc₁ rest) ∧
          ∀ x, (∀ a ∈ acc₁, a.allows x = true) →
            (∀ a ∈ acc, a.allows x = true) ∧ grants m pc x = true := by
        cases acc with
        | none =>
          refine ⟨some (pcAttr m pc), by simpa using hm, fun rest => by rw [accessLoop, hcov], ?_⟩
          intro x hx
          exact ⟨fun a ha => (by cases ha), by simpa [pcAttr_allows] using hx⟩
        | some attr2 =>
          have h2 := hv attr2 rfl
          refine ⟨some (combineMemAttr attr2 (pcAttr m pc)),
            by simpa using combineMemAttr_isValid h2 hm, fun rest => by rw [accessLoop, hcov], ?_⟩
          intro x hx
          simpa [combineMemAttr_allows h2 hm, pcAttr_allows] using hx
      obtain ⟨acc', hv', hloop, hallow⟩ := ih acc₁ hv₁
      refine ⟨acc', hv', fun rest => ?_, fun x hx => ?_⟩
      · rw [List.cons_append, hloop₁, hloop]
      · obtain ⟨hx₁, hms⟩ := hallow x hx
        obtain ⟨hacc, hgm⟩ := hallow₁ x hx₁
        refine ⟨hacc, fun m' hm' b hb1 hb2 hd => ?_⟩
        obtain rfl | hm' := List.mem_cons.mp hm'
        · exact hgm
        · exact hms m' hm' b hb1 hb2 hd

theorem accessLoop_full {k : SmpuStruct} {attr : MemAttr} (acc : Option MemAttr)
    (lo : List SmpuStruct) (h : regionCoverage p s pc k = some (.fullyCovered attr)) :
    accessLoop p s pc acc (k :: lo) = some attr := by
  rw [accessLoop, h]

theorem accessLoop_nil (acc : Option MemAttr) :
    accessLoop p s pc acc [] = some (acc.getD allAccess) := by
  cases acc <;> rfl

/-- Every structure above the first one that decides the whole range grants, where
it decides a byte of the range, what that one grants. -/
def NoneWithheld (smpus : List SmpuStruct) (p s pc : Nat) : Prop :=
  ∀ hi k lo, smpus.reverse = hi ++ k :: lo → (AllBytes p s fun b => decides pc b k = true) →
    (∀ m ∈ hi, ¬ AllBytes p s fun b => decides pc b m = true) →
    ∀ m b, p ≤ b → b < p + s → hi.find? (decides pc b) = some m →
      ∀ x, grants k pc x = true → grants m pc x = true

theorem passed_of_not_all {m : SmpuStruct} (hs : 0 < s) (hs' : s < 2 ^ 32) (hps : p + s < 2 ^ 32)
    (hc : Contiguous m) (h : ¬ AllBytes p s fun b => decides pc b m = true) :
    Passed p s pc m := by
  obtain ⟨cov, hcov, hstate⟩ := regionCoverage_spec pc hs hs' hps.le hc
  refine ⟨cov, hcov, hstate, fun a ha => h ?_⟩
  rw [ha, Coverage.Says, if_pos hps] at hstate
  exact hstate.2

theorem full_of_all {m : SmpuStruct} (hs : 0 < s) (hs' : s < 2 ^ 32) (hps : p + s < 2 ^ 32)
    (hc : Contiguous m) (h : AllBytes p s fun b => decides pc b m = true) :
    regionCoverage p s pc m = some (.fullyCovered (pcAttr m pc)) := by
  obtain ⟨cov, hcov, hstate⟩ := regionCoverage_spec pc hs hs' hps.le hc
  cases cov with
  | notCovered =>
    have h0 := hstate p (by omega) (by omega)
    have h1 := h p (by omega) (by omega)
    simp_all
  | partlyCovered a => exact absurd h hstate.2.2
  | fullyCovered a =>
    rw [Coverage.Says, if_pos hps] at hstate
    rw [hcov, hstate.1]

/-- The first structure at which the walk ends, if there is one. -/
theorem walk_cases (pc : Nat) (hs : 0 < s) (hs' : s < 2 ^ 32) (hps : p + s ≤ 2 ^ 32) (ms : List SmpuStruct)
    (hc : ∀ m ∈ ms, Contiguous m) :
    (∀ m ∈ ms, Passed p s pc m) ∨
    ∃ hi k lo attr, ms = hi ++ k :: lo ∧ (∀ m ∈ hi, Passed p s pc m) ∧
      regionCoverage p s pc k = some (.fullyCovered attr) ∧
      (Coverage.fullyCovered attr).Says p s pc k := by
  induction ms with
  | nil => exact .inl fun m hm => by cases hm
  | cons m ms ih =>
    obtain ⟨cov, hcov, hstate⟩ := regionCoverage_spec pc hs hs' hps (hc m List.mem_cons_self)
    by_cases hfull : ∃ a, cov = .fullyCovered a
    · obtain ⟨a, rfl⟩ := hfull
      exact .inr ⟨[], m, ms, a, rfl, fun m hm => (by cases hm), hcov, hstate⟩
    · have hm : Passed p s pc m := ⟨cov, hcov, hstate, fun a ha => hfull ⟨a, ha⟩⟩
      obtain h | ⟨hi, k, lo, attr, rfl, hhi, hk⟩ :=
        ih fun m' hm' => hc m' (List.mem_cons_of_mem _ hm')
      · exact .inl (List.forall_mem_cons.mpr ⟨hm, h⟩)
      · exact .inr ⟨m :: hi, k, lo, attr, rfl, List.forall_mem_cons.mpr ⟨hm, hhi⟩, hk⟩

theorem sound_of_noneWithheld {smpus : List SmpuStruct} (hs : 0 < s) (hs' : s < 2 ^ 32)
    (hps : p + s ≤ 2 ^ 32) (hpc : pcValid pc = true) (hc : ∀ m ∈ smpus, Contiguous m)
    (h : p + s = 2 ^ 32 ∨ NoneWithheld smpus p s pc) : Sound smpus p s pc := by
  have hrules : getAccessRules smpus p s pc = accessLoop p s pc none smpus.reverse := by
    simp [getAccessRules, hpc]
  have hnone : ∀ a ∈ (none : Option MemAttr), a.isValid = true := fun a ha => by cases ha
  rw [Sound, hrules]
  obtain hall | ⟨hi, k, lo, attr, hsplit, hhi, hk, hstate⟩ :=
    walk_cases pc hs hs' hps smpus.reverse fun m hm => hc m (List.mem_reverse.mp hm)
  · -- no structure ends the walk: the attributes of all that decide a byte were combined
    obtain ⟨acc', _, hloop, hallow⟩ := accessLoop_passed hall none hnone
    have hend := hloop []
    rw [List.append_nil, accessLoop_nil] at hend
    refine ⟨_, hend, fun x hx b hb1 hb2 => ?_⟩
    have hx' : ∀ a ∈ acc', a.allows x = true := by
      intro a ha
      rw [Option.mem_def.mp ha] at hx
      exact hx
    unfold hwAllows
    split
    · rfl
    · rename_i m hm
      exact (hallow x hx').2 m (List.mem_of_find?_eq_some hm) b hb1 hb2 (List.find?_some hm)
  · obtain ⟨acc', _, hloop, _⟩ := accessLoop_passed hhi none hnone
    rw [hsplit, hloop, accessLoop_full acc' lo hk]
    refine ⟨attr, rfl, fun x hx b hb1 hb2 => ?_⟩
    by_cases hlt : p + s < 2 ^ 32
    case neg =>
      rw [Coverage.Says, if_neg hlt] at hstate
      subst hstate
      cases x <;> cases hx
    rw [Coverage.Says, if_pos hlt] at hstate
    obtain ⟨rfl, hcover⟩ := hstate
    rw [pcAttr_allows] at hx
    have hnot : ∀ m ∈ hi, ¬ AllBytes p s fun b => decides pc b m = true := by
      intro m hm hcm
      obtain ⟨cov, hcov, _, hne⟩ := hhi m hm
      have hmc := hc m (List.mem_reverse.mp (hsplit ▸ List.mem_append_left _ hm))
      rw [full_of_all hs hs' hlt hmc hcm] at hcov
      exact hne _ (Option.some.inj hcov).symm
    have hwith := (h.resolve_left hlt.ne) hi k lo hsplit hcover hnot
    rw [hwAllows, hsplit, List.find?_append]
    cases hf : hi.find? (decides pc b) with
    | none =>
      rw [Option.none_or, List.find?_cons_of_pos (hcover b hb1 hb2)]
      exact hx
    | some m => exact hwith m b hb1 hb2 hf x hx

/-- **When the rules that are returned hold for every byte.** For every array of
structures with contiguous sub-regions, every valid context and every range that
does not wrap: `SMPU_Get_Access_Rules` returns, and the hardware grants what it
allows at each byte of the range, exactly if the range ends at the top of the
address space (then nothing is allowed unless no structure applies) or no
structure above the one that covers the whole range withholds something. -/
theorem access_rules_sound_iff (smpus : List SmpuStruct) (p s pc : Nat) (hs : 0 < s)
    (hs' : s < 2 ^ 32) (hps : p + s ≤ 2 ^ 32) (hpc : pcValid pc = true)
    (hc : ∀ m ∈ smpus, Contiguous m) :
    Sound smpus p s pc ↔ p + s = 2 ^ 32 ∨ NoneWithheld smpus p s pc := by
  constructor
  · intro h
    obtain ⟨attr, hattr, hsound⟩ := h
    by_cases hlt : p + s < 2 ^ 32
    case neg => exact .inl (by omega)
    refine .inr fun hi k lo hsplit hcover hnot m b hb1 hb2 hf x hx => ?_
    have hmem : ∀ m ∈ hi ++ k :: lo, Contiguous m := fun m hm =>
      hc m (List.mem_reverse.mp (hsplit ▸ hm))
    have hk := full_of_all hs hs' hlt (hmem k (by simp)) hcover
    obtain ⟨acc', _, hloop, _⟩ := accessLoop_passed
      (fun m hm => passed_of_not_all hs hs' hlt (hmem m (List.mem_append_left _ hm)) (hnot m hm))
      none fun a ha => by cases ha
    have : attr = pcAttr k pc := by
      rw [getAccessRules, hpc, hsplit] at hattr
      simp only [Bool.not_true, Bool.false_eq_true, if_false] at hattr
      rw [hloop, accessLoop_full acc' lo hk] at hattr
      exact (Option.some.inj hattr).symm
    have hhw := hsound x (by rw [this, pcAttr_allows]; exact hx) b hb1 hb2
    rwa [hwAllows, hsplit, List.find?_append, hf, Option.some_or] at hhw
  · exact sound_of_noneWithheld hs hs' hps hpc hc

end Walk

/-- 512 bytes at 0x1000, open to every context. -/
def openRegion : SmpuStruct :=
  ⟨true, 8, 0x7FFF, false, true, true, true, true, true, 0x10, 0, by decide, by decide, by decide⟩

/-- 256 bytes at 0x1100, open to every context. -/
def openPage : SmpuStruct :=
  ⟨true, 7, 0x7FFF, false, true, true, true, true, true, 0x11, 0, by decide, by decide, by decide⟩

/-- 256 bytes at 0x1100, closed to every context. -/
def deniedPage : SmpuStruct :=
  { openPage with px := false, pr := false, pw := false, ur := false, uw := false }

theorem contiguous_of_all_enabled {m : SmpuStruct} (h : m.subregionDisable = 0) : Contiguous m := by
  intro i j k _ _ _ _ _
  rw [h, Nat.zero_testBit]

theorem access_rules_sound_on_open_page : Sound [openRegion, openPage] 0x1000 0x200 2 := by
  refine (access_rules_sound_iff _ _ _ _ (by decide) (by decide) (by decide) (by decide) ?_).mpr
    (.inr fun hi k lo hsplit _ _ m b _ _ hf x _ => ?_)
  · intro m hm
    simp only [List.mem_cons, List.not_mem_nil, or_false] at hm
    obtain rfl | rfl := hm
    · exact contiguous_of_all_enabled rfl
    · exact contiguous_of_all_enabled rfl
  · have hm : m ∈ [openPage, openRegion] := by
      rw [show [openPage, openRegion] = hi ++ k :: lo from hsplit]
      exact List.mem_append_left _ (List.mem_of_find?_eq_some hf)
    simp only [List.mem_cons, List.not_mem_nil, or_false] at hm
    obtain rfl | rfl := hm
    · cases x <;> decide
    · cases x <;> decide

/-- The structure with the lower number covers the whole range and opens it; the
higher one closes the upper half, and its attributes are dropped. -/
theorem access_rules_unsound_on_nested :
    (∀ m ∈ [openRegion, deniedPage], Contiguous m) ∧
      ¬ Sound [openRegion, deniedPage] 0x1000 0x200 2 := by
  constructor
  · intro m hm
    simp only [List.mem_cons, List.not_mem_nil, or_false] at hm
    obtain rfl | rfl := hm
    · exact contiguous_of_all_enabled rfl
    · exact contiguous_of_all_enabled rfl
  · intro h
    obtain ⟨attr, hattr, hsound⟩ := h
    have hrules : getAccessRules [openRegion, deniedPage] 0x1000 0x200 2 =
        some ⟨true, true, false, true, true, true, true⟩ := by decide
    rw [hrules] at hattr
    have := hsound .privRead (by rw [← Option.some.inj hattr]; rfl) 0x1100 (by decide) (by decide)
    exact absurd this (by decide)

end Tfm.L2.Smpu
