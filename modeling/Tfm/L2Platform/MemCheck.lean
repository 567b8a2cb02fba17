import Tfm.Core.Regions
import Tfm.L2Platform.Smpu

/-!
# Memory access check of the multi-core SPM

The SPM checks the buffers of a request against a map of regions: which world a range
is in, and what may be done with it at isolation level 1 or 2. The attributes of a
range are those of the first region that contains the range.

The attributes come from the HAL; `Hal.CallsGetters` says that it asks the getters of
this file.

Results: `covers_iff`, the check of an address range; `memory_check_sound`, what an
accepted range is.
-/
namespace Tfm.L2.MemCheck
open Tfm.Regions Tfm.L2.Smpu

/-! ## The regions -/

/-- `TFM_LVL` -/
inductive Level
  | one
  | two
  deriving DecidableEq, Repr

/-- The region between two symbols of the linker; the second one is behind it. -/
structure Symbols where
  base : Nat
  limit : Nat
  deriving DecidableEq, Repr

def Symbols.region (y : Symbols) : Region := ⟨y.base, (y.limit + uintptrMax) % 2 ^ 32⟩

/-- The regions of region_defs.h, and those of level 2 from the linker script. -/
structure Layout where
  nsData : Region
  nsCode : Region
  sData : Region
  sCode : Region
  /-- `TFM_UNPRIV_CODE` -/
  unprivCode : Symbols
  /-- `TFM_SP_META_PTR`, with `TFM_SP_META_PTR_ENABLE` -/
  spMetaPtr : Option Symbols
  /-- `TFM_APP_CODE_START`, `TFM_APP_CODE_END` -/
  appCode : Symbols
  /-- `TFM_APP_RW_STACK_START`, `TFM_APP_RW_STACK_END` -/
  appRwStack : Symbols
  deriving DecidableEq, Repr

/-- A range of `s` bytes from `p` on. -/
def covers (r : Region) (q : Nat × Nat) : Bool := checkAddressRange q.1 q.2 r.start r.limit

/-! ## The getters -/

/-- mirrors secure_fw/spm/cmsis_psa/tfm_multi_core.h:16-19 -/
structure SecurityAttr where
  isValid : Bool
  isSecure : Bool
  deriving DecidableEq, Repr

def Layout.worlds (L : Layout) : List (Region × Bool) :=
  [(L.nsData, false), (L.nsCode, false), (L.sData, true), (L.sCode, true)]

/-- mirrors secure_fw/spm/cmsis_psa/tfm_multi_core_mem_check.c:76-104 -/
def tfmGetMemRegionSecurityAttr (L : Layout) (p s : Nat) (a : SecurityAttr) : SecurityAttr :=
  match firstMatch covers L.worlds (p, s) with
  | some secure => { a with isValid := true, isSecure := secure }
  | none => { a with isValid := false }

/-- What a getter writes about a region. -/
structure Rights where
  privRd : Bool
  privWr : Bool
  unprivRd : Bool
  unprivWr : Bool
  xn : Bool
  deriving DecidableEq, Repr

/-- Data: it is read and written, unprivileged if `u`. -/
def Rights.data (u : Bool) : Rights := ⟨true, true, u, u, true⟩

/-- Code: it is read. -/
def Rights.code (u : Bool) : Rights := ⟨true, false, u, false, false⟩

def Rights.fill (r : Rights) (a : MemAttr) : MemAttr :=
  { a with
    isPrivRdAllow := r.privRd
    isPrivWrAllow := r.privWr
    isUnprivRdAllow := r.unprivRd
    isUnprivWrAllow := r.unprivWr
    isXn := r.xn }

/-- A getter of access attributes, over the regions in the order of its tests. -/
def getRegionAttr (t : List (Region × Rights)) (p s : Nat) (a : MemAttr) : MemAttr :=
  match firstMatch covers t (p, s) with
  | some r => r.fill { a with isMpuEnabled := false, isValid := true }
  | none => { a with isMpuEnabled := false, isValid := false }

def Layout.secureRegions (L : Layout) : Level → List (Region × Rights)
  | .one => [(L.sData, .data true), (L.sCode, .code true)]
  | .two =>
    (L.unprivCode.region, .code true) ::
    (L.spMetaPtr.toList.map fun y => (y.region, .data true)) ++
    [(L.appCode.region, .code true), (L.appRwStack.region, .data true),
      -- the rest of the secure sections is privileged
      (L.sData, .data false), (L.sCode, .code false)]

def Layout.nsRegions (L : Layout) : List (Region × Rights) :=
  [(L.nsData, .data true), (L.nsCode, .code true)]

/-- mirrors secure_fw/spm/cmsis_psa/tfm_multi_core_mem_check.c:119-231 -/
def tfmGetSecureMemRegionAttr (lvl : Level) (L : Layout) : Nat → Nat → MemAttr → MemAttr :=
  getRegionAttr (L.secureRegions lvl)

/-- mirrors secure_fw/spm/cmsis_psa/tfm_multi_core_mem_check.c:233-260 -/
def tfmGetNsMemRegionAttr (L : Layout) : Nat → Nat → MemAttr → MemAttr :=
  getRegionAttr L.nsRegions

/-! ## The check -/

def memCheckMpuReadwrite : Nat := 1 <<< 0x0
def memCheckAuNonsecure : Nat := 1 <<< 0x1
def memCheckMpuUnpriv : Nat := 1 <<< 0x2
def memCheckMpuRead : Nat := 1 <<< 0x3
def memCheckMpuNonsecure : Nat := 1 <<< 0x4
def memCheckNonsecure : Nat := memCheckAuNonsecure ||| memCheckMpuNonsecure

def tfmHalAccessReadable : Nat := 1 <<< 1
def tfmHalAccessWritable : Nat := 1 <<< 2
def tfmHalAccessUnprivileged : Nat := 1 <<< 3
def tfmHalAccessNs : Nat := 1 <<< 5

/-- A bit of a flag word is set. -/
def on (w bit : Nat) : Bool := w &&& bit != 0

/-- mirrors secure_fw/spm/cmsis_psa/tfm_multi_core_mem_check.c:262-273 -/
def securityAttrInit : SecurityAttr := ⟨false, true⟩

/-- mirrors secure_fw/spm/cmsis_psa/tfm_multi_core_mem_check.c:275-291 -/
def memAttrInit : MemAttr := ⟨false, false, true, false, false, false, false⟩

/-- mirrors secure_fw/spm/cmsis_psa/tfm_multi_core_mem_check.c:304-323 -/
def securityAttrCheck (a : SecurityAttr) (flags : Nat) : Bool :=
  if !a.isValid then false
  else
    let secureAccess := if on flags memCheckNonsecure then false else true
    secureAccess == a.isSecure

/-- mirrors secure_fw/spm/cmsis_psa/tfm_multi_core_mem_check.c:335-356 -/
def nsMemAttrCheck (a : MemAttr) (flags : Nat) : Bool :=
  if on flags memCheckMpuReadwrite && (a.isPrivRdAllow || a.isUnprivRdAllow) &&
      (a.isPrivWrAllow || a.isUnprivWrAllow) then true
  else if on flags memCheckMpuRead && (a.isPrivRdAllow || a.isUnprivRdAllow) then true
  else false

/-- Level 1 makes no difference between privileged and unprivileged, as the check of
non-secure regions.
mirrors secure_fw/spm/cmsis_psa/tfm_multi_core_mem_check.c:368-409 -/
def secureMemAttrCheck (lvl : Level) (a : MemAttr) (flags : Nat) : Bool :=
  match lvl with
  | .one =>
    if on flags memCheckMpuReadwrite && (a.isPrivRdAllow || a.isUnprivRdAllow) &&
        (a.isPrivWrAllow || a.isUnprivWrAllow) then true
    else if on flags memCheckMpuRead && (a.isPrivRdAllow || a.isUnprivRdAllow) then true
    else false
  | .two =>
    if on flags memCheckMpuUnpriv then
      if on flags memCheckMpuReadwrite && a.isUnprivRdAllow && a.isUnprivWrAllow then true
      else if on flags memCheckMpuRead && a.isUnprivRdAllow then true
      else false
    else
      if on flags memCheckMpuReadwrite && a.isPrivRdAllow && a.isPrivWrAllow then true
      else if on flags memCheckMpuRead && a.isPrivRdAllow then true
      else false

/-- mirrors secure_fw/spm/cmsis_psa/tfm_multi_core_mem_check.c:421-433 -/
def memAttrCheck (lvl : Level) (a : MemAttr) (flags : Nat) : Bool :=
  if !a.isValid then false
  else if on flags memCheckNonsecure then nsMemAttrCheck a flags
  else secureMemAttrCheck lvl a flags

/-- The attribute getters of the HAL. -/
structure Hal where
  getMemSecurityAttr : Nat → Nat → SecurityAttr → SecurityAttr
  getSecureAccessAttr : Nat → Nat → MemAttr → MemAttr
  getNsAccessAttr : Nat → Nat → MemAttr → MemAttr

inductive Outcome
  | success
  | errorGeneric
  | invalidInput
  | panic
  deriving DecidableEq, Repr

def Outcome.ofBool (ok : Bool) : Outcome := if ok then .success else .errorGeneric

/-- The flags of an access; `none` is an access that does not read.
mirrors secure_fw/spm/cmsis_psa/tfm_multi_core_mem_check.c:454-468 -/
def accessFlags (attr : Nat) : Option Nat :=
  let flags := 0
  let flags := if on attr tfmHalAccessUnprivileged then flags ||| memCheckMpuUnpriv else flags
  let flags := if on attr tfmHalAccessNs then flags ||| memCheckNonsecure else flags
  if on attr tfmHalAccessWritable && on attr tfmHalAccessReadable then
    some (flags ||| memCheckMpuReadwrite)
  else if on attr tfmHalAccessReadable then some (flags ||| memCheckMpuRead)
  else none

/-- `isPriv` is `tfm_arch_is_priv()`.
mirrors secure_fw/spm/cmsis_psa/tfm_multi_core_mem_check.c:435-497 -/
def tfmHasAccessToRegion (lvl : Level) (hal : Hal) (isPriv : Bool) (p s attr : Nat) : Outcome :=
  if p = 0 then .errorGeneric
  else if p > uintptrMax - s then .errorGeneric
  else if !isPriv then .panic
  else
    match accessFlags attr with
    | none => .invalidInput
    | some flags =>
      let securityAttr := hal.getMemSecurityAttr p s securityAttrInit
      if !securityAttrCheck securityAttr flags then .errorGeneric
      else if securityAttr.isSecure then
        let memAttr := hal.getSecureAccessAttr p s memAttrInit
        -- the secure MPU must be enabled in levels 2 and 3
        if lvl ≠ .one ∧ memAttr.isMpuEnabled = false then .panic
        else .ofBool (memAttrCheck lvl memAttr flags)
      else .ofBool (memAttrCheck lvl (hal.getNsAccessAttr p s memAttrInit) flags)

/-- mirrors platform/ext/target/cypress/psoc64/tfm_hal_isolation.c:112-124 -/
def tfmHalMemoryHasAccess (lvl : Level) (hal : Hal) (isPriv : Bool) (p s attr : Nat) : Bool :=
  tfmHasAccessToRegion lvl hal isPriv p s attr = .success

/-- `enum tfm_memory_access_e` -/
inductive MemoryAccess
  | ro
  | rw
  deriving DecidableEq, Repr

/-- The attributes that `tfm_memory_check` asks for.
mirrors secure_fw/spm/cmsis_psa/spm_ipc.c:628-643 -/
def checkAttr (nsCaller : Bool) (access : MemoryAccess) (unprivileged : Bool) : Nat :=
  (if access = .rw then tfmHalAccessReadable ||| tfmHalAccessWritable else tfmHalAccessReadable) |||
    (if unprivileged then tfmHalAccessUnprivileged else 0) |||
    if nsCaller then tfmHalAccessNs else 0

inductive CheckStatus
  | success
  | badParameters
  | memoryCheck
  deriving DecidableEq, Repr

/-- mirrors secure_fw/spm/cmsis_psa/spm_ipc.c:608-651 -/
def tfmMemoryCheck (lvl : Level) (hal : Hal) (isPriv : Bool) (buffer len : Nat) (nsCaller : Bool)
    (access : MemoryAccess) (unprivileged : Bool) : CheckStatus :=
  if len = 0 then .success
  else if buffer = 0 then .badParameters
  else if buffer > uintptrMax - len then .memoryCheck
  else if tfmHalMemoryHasAccess lvl hal isPriv buffer len (checkAttr nsCaller access unprivileged)
    then .success
  else .memoryCheck

/-! ## What the checks ask for -/

/-- The HAL asks the getters of this file; at level 2 it reports the MPU as enabled. -/
structure Hal.CallsGetters (hal : Hal) (lvl : Level) (L : Layout) : Prop where
  security : ∀ p s a, hal.getMemSecurityAttr p s a = tfmGetMemRegionSecurityAttr L p s a
  secure : ∀ p s a, ∃ on, (lvl = .two → on = true) ∧
    hal.getSecureAccessAttr p s a = { tfmGetSecureMemRegionAttr lvl L p s a with isMpuEnabled := on }
  ns : ∀ p s a, hal.getNsAccessAttr p s a = tfmGetNsMemRegionAttr L p s a

/-- What is asked of a region: privileged and unprivileged are told apart for secure
callers at level 2. -/
def Rights.Allows (r : Rights) (lvl : Level) (ns unpriv write : Bool) : Prop :=
  if lvl = .two ∧ ns = false then
    if unpriv then r.unprivRd = true ∧ (write = true → r.unprivWr = true)
    else r.privRd = true ∧ (write = true → r.privWr = true)
  else (r.privRd || r.unprivRd) = true ∧ (write = true → (r.privWr || r.unprivWr) = true)

/-- A region that allows what another one does. -/
def Rights.Better (r r' : Rights) : Prop := ∀ lvl ns unpriv write,
  r'.Allows lvl ns unpriv write → r.Allows lvl ns unpriv write

section Accept

variable {lvl : Level} {L : Layout} {hal : Hal} {isPriv : Bool} {p s attr flags : Nat}

theorem accessFlags_some (h : accessFlags attr = some flags) :
    on attr tfmHalAccessReadable = true ∧
      on flags memCheckNonsecure = on attr tfmHalAccessNs ∧
      on flags memCheckMpuUnpriv = on attr tfmHalAccessUnprivileged ∧
      on flags memCheckMpuReadwrite = on attr tfmHalAccessWritable ∧
      on flags memCheckMpuRead = !on attr tfmHalAccessWritable := by
  unfold accessFlags at h
  revert h
  generalize on attr tfmHalAccessReadable = r
  generalize on attr tfmHalAccessNs = n
  generalize on attr tfmHalAccessUnprivileged = u
  generalize on attr tfmHalAccessWritable = w
  intro h
  cases r with
  | false =>
    rw [Bool.and_false] at h
    cases h
  | true => cases n <;> cases u <;> cases w <;> cases h <;> decide

theorem accessFlags_isSome (h : on attr tfmHalAccessReadable = true) :
    ∃ flags, accessFlags attr = some flags := by
  unfold accessFlags
  dsimp only
  rw [h, Bool.and_true]
  split
  · exact ⟨_, rfl⟩
  · exact ⟨_, rfl⟩

/-- The attributes of a region, and what an access asks for. -/
theorem memAttrCheck_iff (h : accessFlags attr = some flags) (a : MemAttr) (r : Rights) :
    memAttrCheck lvl (r.fill a) flags = true ↔ a.isValid = true ∧
      r.Allows lvl (on attr tfmHalAccessNs) (on attr tfmHalAccessUnprivileged)
        (on attr tfmHalAccessWritable) := by
  obtain ⟨_, hns, hu, hw, hr⟩ := accessFlags_some h
  unfold memAttrCheck nsMemAttrCheck secureMemAttrCheck Rights.Allows Rights.fill
  dsimp only
  rw [hns, hu, hw, hr]
  cases on attr tfmHalAccessNs <;> cases on attr tfmHalAccessUnprivileged <;>
    cases on attr tfmHalAccessWritable <;> cases lvl <;> simp

/-- The regions that decide on an access. -/
def Layout.regions (L : Layout) (lvl : Level) (ns : Bool) : List (Region × Rights) :=
  if ns then L.nsRegions else L.secureRegions lvl

theorem getRegionAttr_check {t : List (Region × Rights)} (h : accessFlags attr = some flags)
    (a : MemAttr) (on' : Bool) :
    memAttrCheck lvl { getRegionAttr t p s a with isMpuEnabled := on' } flags = true ↔
      ∃ r, firstMatch covers t (p, s) = some r ∧
        r.Allows lvl (on attr tfmHalAccessNs) (on attr tfmHalAccessUnprivileged)
          (on attr tfmHalAccessWritable) := by
  unfold getRegionAttr
  cases firstMatch covers t (p, s) with
  | none =>
    constructor
    · intro hc
      unfold memAttrCheck at hc
      cases hc
    · intro hx
      obtain ⟨r, hr, _⟩ := hx
      cases hr
  | some r =>
    rw [show { r.fill { a with isMpuEnabled := false, isValid := true } with isMpuEnabled := on' } =
      r.fill { a with isMpuEnabled := on', isValid := true } from rfl, memAttrCheck_iff h]
    constructor
    · intro hx
      obtain ⟨_, hr⟩ := hx
      exact ⟨r, rfl, hr⟩
    · intro hx
      obtain ⟨r', hr, hall⟩ := hx
      cases hr
      exact ⟨rfl, hall⟩

theorem Outcome.ofBool_success {b : Bool} : Outcome.ofBool b = .success ↔ b = true := by
  cases b <;> simp [Outcome.ofBool]

/-- **An accepted range**: it is in a region of the caller's world, and the first region
that contains it allows the access. -/
theorem accepts_iff (hh : hal.CallsGetters lvl L) :
    tfmHasAccessToRegion lvl hal isPriv p s attr = .success ↔
      (p ≠ 0 ∧ p ≤ uintptrMax - s ∧ isPriv = true ∧ on attr tfmHalAccessReadable = true) ∧
      firstMatch covers L.worlds (p, s) = some (!on attr tfmHalAccessNs) ∧
      ∃ r, firstMatch covers (L.regions lvl (on attr tfmHalAccessNs)) (p, s) = some r ∧
        r.Allows lvl (on attr tfmHalAccessNs) (on attr tfmHalAccessUnprivileged)
          (on attr tfmHalAccessWritable) := by
  unfold tfmHasAccessToRegion
  by_cases hp : p = 0
  · rw [if_pos hp]
    exact ⟨nofun, fun hh => absurd hp hh.1.1⟩
  rw [if_neg hp]
  by_cases hwrap : p > uintptrMax - s
  · rw [if_pos hwrap]
    exact ⟨nofun, fun hh => absurd hh.1.2.1 (by omega)⟩
  rw [if_neg hwrap]
  cases isPriv with
  | false => exact ⟨nofun, fun hh => nomatch hh.1.2.2.1⟩
  | true =>
  cases hf : accessFlags attr with
  | none =>
    refine ⟨nofun, fun hh => ?_⟩
    obtain ⟨flags, hsome⟩ := accessFlags_isSome hh.1.2.2.2
    rw [hf] at hsome
    cases hsome
  | some flags =>
    obtain ⟨hread, hns, _⟩ := accessFlags_some hf
    have hpre : p ≠ 0 ∧ p ≤ uintptrMax - s ∧ true = true ∧ on attr tfmHalAccessReadable = true :=
      ⟨hp, by omega, rfl, hread⟩
    rw [if_neg (by decide)]
    dsimp only
    rw [hh.security]
    unfold tfmGetMemRegionSecurityAttr securityAttrCheck
    cases hw : firstMatch covers L.worlds (p, s) with
    | none => exact ⟨nofun, fun hh => nomatch hh.2.1⟩
    | some secure =>
      dsimp only
      rw [hns]
      have hsame : getRegionAttr L.nsRegions p s memAttrInit =
          { getRegionAttr L.nsRegions p s memAttrInit with isMpuEnabled := false } := by
        unfold getRegionAttr
        cases firstMatch covers L.nsRegions (p, s) <;> rfl
      obtain ⟨enabled, hon, hsec⟩ := hh.secure p s memAttrInit
      rw [hsec, hh.ns, tfmGetNsMemRegionAttr, hsame, tfmGetSecureMemRegionAttr]
      have hmpu : ¬ (lvl ≠ .one ∧ enabled = false) := by
        intro h
        obtain ⟨hl, he⟩ := h
        cases lvl with
        | one => exact hl rfl
        | two => exact nomatch he.symm.trans (hon rfl)
      cases hn : on attr tfmHalAccessNs with
      | false =>
        cases secure with
        | false => exact ⟨nofun, fun hh => nomatch hh.2.1⟩
        | true =>
          have hcheck : memAttrCheck lvl { getRegionAttr (L.secureRegions lvl) p s memAttrInit with
              isMpuEnabled := enabled } flags = true ↔ _ := getRegionAttr_check hf memAttrInit enabled
          rw [hn] at hcheck
          simp only [hmpu, if_false]
          exact Outcome.ofBool_success.trans ⟨fun hc => ⟨⟨hp, by omega, trivial, hread⟩, rfl,
            hcheck.1 hc⟩, fun hc => hcheck.2 hc.2.2⟩
      | true =>
        cases secure with
        | true => exact ⟨nofun, fun hh => nomatch hh.2.1⟩
        | false =>
          have hcheck : memAttrCheck lvl { getRegionAttr L.nsRegions p s memAttrInit with
              isMpuEnabled := false } flags = true ↔ _ := getRegionAttr_check hf memAttrInit false
          rw [hn] at hcheck
          exact Outcome.ofBool_success.trans ⟨fun hc => ⟨hpre, rfl, hcheck.1 hc⟩,
            fun hc => hcheck.2 hc.2.2⟩

end Accept

/-! ## Ranges and their bytes -/

section Ranges

variable {lvl : Level} {L : Layout} {hal : Hal} {isPriv : Bool} {p s attr i : Nat} {r : Region}

/-- **The check of an address range** accepts the ranges of which every byte is in the
region, and that do not reach the end of the address space. -/
theorem covers_iff (hs : 0 < s) (hs' : s ≤ uintptrMax) :
    covers r (p, s) = true ↔ p + s ≤ uintptrMax ∧ ∀ i < s, r.Has (p + i) := by
  unfold uintptrMax at hs'
  unfold covers checkAddressRange Region.Has uintptrMax
  dsimp only
  by_cases hwrap : p > 2 ^ 32 - 1 - s
  · rw [if_pos hwrap]
    exact ⟨nofun, fun hh => by omega⟩
  · rw [if_neg hwrap, decide_eq_true_eq, show p + s + (2 ^ 32 - 1) = p + s - 1 + 2 ^ 32 by omega,
      Nat.add_mod_right, Nat.mod_eq_of_lt (by omega)]
    constructor
    · intro hx
      obtain ⟨h1, h2⟩ := hx
      exact ⟨by omega, fun i hi => by omega⟩
    · intro hx
      obtain ⟨_, h⟩ := hx
      have h1 := h 0 hs
      have h2 := h (s - 1) (by omega)
      omega

/-- A byte of a range. -/
theorem covers_byte (hi : i < s) (hs : s ≤ uintptrMax) (h : covers r (p, s) = true) :
    covers r (p + i, 1) = true := by
  obtain ⟨h1, h2⟩ := (covers_iff (by omega) hs).1 h
  refine (covers_iff Nat.one_pos (by decide)).2 ⟨by omega, fun j hj => ?_⟩
  rw [Nat.add_assoc]
  exact h2 (i + j) (by omega)

/-- No region takes anything away from a later one that it meets. -/
def Graded {A : Type} (better : A → A → Prop) (t : List (Region × A)) : Prop :=
  t.Pairwise fun e e' => ∀ a, e.1.Has a → e'.1.Has a → better e.2 e'.2

/-- What is found for a byte of a range. -/
theorem Graded.byte {A : Type} {better : A → A → Prop} {t : List (Region × A)} {a : A}
    (h : Graded better t) (hrefl : ∀ a, better a a) (hi : i < s)
    (hs : s ≤ uintptrMax) (hf : firstMatch covers t (p, s) = some a) :
    ∃ a', firstMatch covers t (p + i, 1) = some a' ∧ better a' a := by
  refine firstMatch_sub hrefl (fun r => covers_byte hi hs) (h.imp fun hm h1 h2 => ?_) hf
  refine hm (p + i) ?_ (((covers_iff (by omega) hs).1 h2).2 i hi)
  have h0 := ((covers_iff Nat.one_pos (by decide)).1 h1).2 0 Nat.one_pos
  rwa [Nat.add_zero] at h0

end Ranges

/-! ## Accepted ranges -/

/-- The regions of unprivileged code. -/
def Layout.unprivCodeRegions (L : Layout) : List Region := [L.unprivCode.region, L.appCode.region]

/-- The regions of unprivileged data. -/
def Layout.unprivDataRegions (L : Layout) : List Region :=
  L.appRwStack.region :: L.spMetaPtr.toList.map Symbols.region

/-- What is assumed of the regions. -/
structure Layout.Sound (L : Layout) (lvl : Level) : Prop where
  data_code : Apart L.sData L.sCode
  ns_data_code : Apart L.nsData L.nsCode
  worlds : ∀ r ∈ [L.nsData, L.nsCode], ∀ r' ∈ [L.sData, L.sCode], Apart r r'
  unprivCode : lvl = .two → ∀ r ∈ L.unprivCodeRegions, Inside r L.sCode
  unprivData : lvl = .two → ∀ r ∈ L.unprivDataRegions, Inside r L.sData

/-- An address of code. -/
def Layout.Code (L : Layout) (a : Nat) : Prop := L.nsCode.Has a ∨ L.sCode.Has a

/-- An address of the non-secure world, or of the secure one. -/
def Layout.World (L : Layout) (ns : Bool) (a : Nat) : Prop :=
  if ns then L.nsData.Has a ∨ L.nsCode.Has a else L.sData.Has a ∨ L.sCode.Has a

/-- An address that is unprivileged at level 2. -/
def Layout.Unpriv (L : Layout) (a : Nat) : Prop :=
  ∃ r ∈ L.unprivCodeRegions ++ L.unprivDataRegions, r.Has a

section Sound

variable {lvl : Level} {L : Layout} {hal : Hal} {isPriv : Bool} {p s attr i : Nat} {r : Region}

theorem Rights.better_refl (r : Rights) : r.Better r := fun _ _ _ _ h => h

theorem Layout.Sound.worlds_graded (h : L.Sound lvl) : Graded (· = ·) L.worlds := by
  have hw : ∀ r ∈ [L.nsData, L.nsCode], ∀ r' ∈ [L.sData, L.sCode], ∀ a, r.Has a → ¬ r'.Has a :=
    h.worlds
  unfold Graded Layout.worlds
  simp only [List.mem_cons, List.not_mem_nil, or_false, forall_eq_or_imp, forall_eq] at hw
  simp only [List.pairwise_cons, List.mem_cons, List.not_mem_nil, or_false, forall_eq_or_imp,
    forall_eq, List.Pairwise.nil, and_true, implies_true, false_imp_iff]
  exact ⟨⟨trivial, fun a h1 h2 => (hw.1.1 a h1 h2).elim, fun a h1 h2 => (hw.1.2 a h1 h2).elim⟩,
    fun a h1 h2 => (hw.2.1 a h1 h2).elim, fun a h1 h2 => (hw.2.2 a h1 h2).elim⟩

theorem Rights.data_better (u : Bool) : (Rights.data true).Better (.data u) := by
  intro lvl ns unpriv write _
  simp [Rights.Allows, Rights.data]

theorem Rights.code_better (u : Bool) : (Rights.code true).Better (.code u) := by
  intro lvl ns unpriv write h
  cases write with
  | false => simp [Rights.Allows, Rights.code]
  | true => simp [Rights.Allows, Rights.code, imp_false] at h

/-- The section that a region with these rights is in. -/
def Layout.home (L : Layout) (ns : Bool) (r : Rights) : Region :=
  if r.privWr then (if ns then L.nsData else L.sData) else if ns then L.nsCode else L.sCode

/-- The regions that decide: the sections of a world, or an unprivileged part of one. -/
theorem regions_cases {ns : Bool} {e : Region × Rights} (he : e ∈ L.regions lvl ns) :
    (e.1 = L.home ns e.2 ∧ ∃ u, (e.2 = .data u ∨ e.2 = .code u) ∧
      (lvl = .two → ns = false → u = false)) ∨
    lvl = .two ∧ ns = false ∧
      (e.2 = .code true ∧ e.1 ∈ L.unprivCodeRegions ∨ e.2 = .data true ∧ e.1 ∈ L.unprivDataRegions) := by
  cases ns with
  | true =>
    simp only [Layout.regions, Layout.nsRegions, if_true, List.mem_cons, List.not_mem_nil,
      or_false] at he
    rcases he with rfl | rfl
    · exact .inl ⟨rfl, true, .inl rfl, nofun⟩
    · exact .inl ⟨rfl, true, .inr rfl, nofun⟩
  | false =>
    cases lvl with
    | one =>
      simp only [Layout.regions, Layout.secureRegions, Bool.false_eq_true, if_false, List.mem_cons,
        List.not_mem_nil, or_false] at he
      rcases he with rfl | rfl
      · exact .inl ⟨rfl, true, .inl rfl, nofun⟩
      · exact .inl ⟨rfl, true, .inr rfl, nofun⟩
    | two =>
      simp only [Layout.regions, Layout.secureRegions, Bool.false_eq_true, if_false, List.mem_cons,
        List.cons_append, List.mem_append, List.mem_map, List.not_mem_nil, or_false] at he
      rcases he with rfl | ⟨y, hy, rfl⟩ | rfl | rfl | rfl | rfl
      · exact .inr ⟨rfl, rfl, .inl ⟨rfl, List.mem_cons_self ..⟩⟩
      · exact .inr ⟨rfl, rfl, .inr ⟨rfl, List.mem_cons_of_mem _ (List.mem_map_of_mem hy)⟩⟩
      · exact .inr ⟨rfl, rfl, .inl ⟨rfl, List.mem_cons_of_mem _ (List.mem_cons_self ..)⟩⟩
      · exact .inr ⟨rfl, rfl, .inr ⟨rfl, List.mem_cons_self ..⟩⟩
      · exact .inl ⟨rfl, false, .inl rfl, fun _ _ => rfl⟩
      · exact .inl ⟨rfl, false, .inr rfl, fun _ _ => rfl⟩

theorem Layout.Sound.inside (h : L.Sound lvl) {ns : Bool} {e : Region × Rights}
    (he : e ∈ L.regions lvl ns) : Inside e.1 (L.home ns e.2) := by
  rcases regions_cases he with ⟨h1, _⟩ | ⟨hl, rfl, ⟨h2, hm⟩ | ⟨h2, hm⟩⟩
  · rw [← h1]
    exact fun _ ha => ha
  · rw [h2]
    exact h.unprivCode hl _ hm
  · rw [h2]
    exact h.unprivData hl _ hm

/-- Among the regions of a section, those with all rights come first. -/
theorem regions_rights (L : Layout) (lvl : Level) (ns : Bool) :
    (L.regions lvl ns).Pairwise fun e e' => e.2.privWr = e'.2.privWr → e.2.Better e'.2 := by
  have hd := Rights.data_better
  have hc := Rights.code_better
  have hdc : ∀ u u', (Rights.data u).privWr ≠ (Rights.code u').privWr := by decide
  have hcd : ∀ u u', (Rights.code u).privWr ≠ (Rights.data u').privWr := by decide
  cases ns with
  | true => simp [Layout.regions, Layout.nsRegions, hdc]
  | false =>
    cases lvl with
    | one => simp [Layout.regions, Layout.secureRegions, hdc]
    | two =>
      cases hm : L.spMetaPtr with
      | none => simp [Layout.regions, Layout.secureRegions, hm, hdc, hcd, hd, hc]
      | some y => simp [Layout.regions, Layout.secureRegions, hm, hdc, hcd, hd, hc]

theorem Layout.Sound.regions_graded (h : L.Sound lvl) (ns : Bool) :
    Graded Rights.Better (L.regions lvl ns) := by
  refine (regions_rights L lvl ns).imp_of_mem fun {e e'} he he' hb a ha ha' => hb ?_
  have h1 := h.inside he a ha
  have h2 := h.inside he' a ha'
  have hdc : ∀ ns : Bool, Apart (if ns then L.nsData else L.sData) (if ns then L.nsCode else L.sCode) := by
    intro ns
    cases ns with
    | true => exact h.ns_data_code
    | false => exact h.data_code
  unfold Layout.home at h1 h2
  by_contra hne
  cases hw : e.2.privWr with
  | false =>
    have hw' : e'.2.privWr = true := by simpa [hw] using hne
    rw [if_neg (by rw [hw]; decide)] at h1
    rw [if_pos hw'] at h2
    exact hdc ns a h2 h1
  | true =>
    have hw' : e'.2.privWr = false := by simpa [hw] using hne
    rw [if_pos hw] at h1
    rw [if_neg (by rw [hw']; decide)] at h2
    exact hdc ns a h1 h2

/-! ## What an accepted range is -/

/-- The range is in the caller's world, the unprivileged regions at level 2 if it is
accessed unprivileged, and has no code if it is written. -/
structure Confined (lvl : Level) (L : Layout) (ns unpriv write : Bool) (p s : Nat) : Prop where
  noWrap : p + s ≤ uintptrMax
  world : ∀ i < s, L.World ns (p + i)
  unpriv : lvl = .two → ns = false → unpriv = true → ∀ i < s, L.Unpriv (p + i)
  noCode : write = true → ∀ i < s, ¬ L.Code (p + i)

theorem Layout.home_world {ns : Bool} {q : Rights} {a : Nat} (h : (L.home ns q).Has a) :
    L.World ns a := by
  unfold Layout.home at h
  unfold Layout.World
  split at h
  · split at h
    · next hn => exact (if_pos hn).symm ▸ Or.inl h
    · next hn => exact (if_neg hn).symm ▸ Or.inl h
  · split at h
    · next hn => exact (if_pos hn).symm ▸ Or.inr h
    · next hn => exact (if_neg hn).symm ▸ Or.inr h

/-- Data of a world is no code. -/
theorem Layout.Sound.no_code (h : L.Sound lvl) {ns : Bool} {u : Bool} {a : Nat}
    (ha : (L.home ns (.data u)).Has a) : ¬ L.Code a := by
  have hw : ∀ r ∈ [L.nsData, L.nsCode], ∀ r' ∈ [L.sData, L.sCode], ∀ a, r.Has a → ¬ r'.Has a :=
    h.worlds
  simp only [List.mem_cons, List.not_mem_nil, or_false, forall_eq_or_imp, forall_eq] at hw
  intro hx
  obtain hc | hc := hx
  · cases ns with
    | true => exact h.ns_data_code a ha hc
    | false => exact hw.2.1 a hc ha
  · cases ns with
    | true => exact hw.1.2 a ha hc
    | false => exact h.data_code a ha hc

/-- Every byte of an accepted range is accepted. -/
theorem has_access_byte (hL : L.Sound lvl) (hh : hal.CallsGetters lvl L)
    (h : tfmHasAccessToRegion lvl hal isPriv p s attr = .success) (hi : i < s) :
    tfmHasAccessToRegion lvl hal isPriv (p + i) 1 attr = .success := by
  obtain ⟨⟨hp, hwrap, hpriv, hread⟩, hw, r, hr, hall⟩ := (accepts_iff hh).1 h
  have hs : s ≤ uintptrMax := by omega
  obtain ⟨secure, hw', rfl⟩ := hL.worlds_graded.byte (fun _ => rfl) hi hs hw
  obtain ⟨r', hr', hbetter⟩ := (hL.regions_graded _).byte Rights.better_refl hi hs hr
  exact (accepts_iff hh).2 ⟨⟨by omega, by unfold uintptrMax at *; omega, hpriv, hread⟩, hw', r', hr',
    hbetter _ _ _ _ hall⟩

/-- Where an accepted range is. -/
theorem has_access_confined (hL : L.Sound lvl) (hh : hal.CallsGetters lvl L) (hs : 0 < s)
    (h : tfmHasAccessToRegion lvl hal isPriv p s attr = .success) :
    Confined lvl L (on attr tfmHalAccessNs) (on attr tfmHalAccessUnprivileged)
      (on attr tfmHalAccessWritable) p s := by
  obtain ⟨⟨hp, hwrap, _⟩, hw, r, hr, hall⟩ := (accepts_iff hh).1 h
  have hs' : s ≤ uintptrMax := by omega
  obtain ⟨g, hg, hcover⟩ := firstMatch_mem hr
  have hin := ((covers_iff hs hs').1 hcover).2
  have hhome := hL.inside hg
  refine ⟨by omega, fun i hi => ?_, fun hl hns hu i hi => ?_, fun hwr i hi => ?_⟩
  · exact L.home_world (hhome _ (hin i hi))
  · rw [hl, hns, hu] at hall
    have hrd : r.unprivRd = true := hall.1
    rcases regions_cases hg with ⟨_, u, hru, hpriv⟩ | ⟨_, _, ⟨_, hm⟩ | ⟨_, hm⟩⟩
    · rw [hpriv hl hns] at hru
      rcases hru with rfl | rfl
      · cases hrd
      · cases hrd
    · exact ⟨g, List.mem_append_left _ hm, hin i hi⟩
    · exact ⟨g, List.mem_append_right _ hm, hin i hi⟩
  · rw [hwr] at hall
    have hdata : ∃ u, r = .data u := by
      have hno : ∀ u, r ≠ .code u := by
        intro u hx
        subst hx
        simp [Rights.Allows, Rights.code] at hall
      rcases regions_cases hg with ⟨_, u, hru, _⟩ | ⟨_, _, ⟨hr, _⟩ | ⟨hr, _⟩⟩
      · exact ⟨u, hru.resolve_right (hno u)⟩
      · exact absurd hr (hno true)
      · exact ⟨true, hr⟩
    obtain ⟨u, rfl⟩ := hdata
    exact hL.no_code (hhome _ (hin i hi))

/-- What `tfm_memory_check` asks for. -/
theorem checkAttr_bits (nsCaller : Bool) (access : MemoryAccess) (unprivileged : Bool) :
    on (checkAttr nsCaller access unprivileged) tfmHalAccessNs = nsCaller ∧
      on (checkAttr nsCaller access unprivileged) tfmHalAccessUnprivileged = unprivileged ∧
      on (checkAttr nsCaller access unprivileged) tfmHalAccessWritable = decide (access = .rw) := by
  cases nsCaller <;> cases access <;> cases unprivileged <;> decide

theorem tfmMemoryCheck_success {nsCaller : Bool} {access : MemoryAccess} {unprivileged : Bool}
    (hs : 0 < s) : tfmMemoryCheck lvl hal isPriv p s nsCaller access unprivileged = .success ↔
      tfmHasAccessToRegion lvl hal isPriv p s (checkAttr nsCaller access unprivileged) = .success := by
  unfold tfmMemoryCheck tfmHalMemoryHasAccess
  rw [if_neg (by omega)]
  by_cases hp : p = 0
  · rw [if_pos hp]
    refine ⟨nofun, fun h => ?_⟩
    unfold tfmHasAccessToRegion at h
    rw [if_pos hp] at h
    cases h
  · rw [if_neg hp]
    by_cases hw : p > uintptrMax - s
    · rw [if_pos hw]
      refine ⟨nofun, fun h => ?_⟩
      unfold tfmHasAccessToRegion at h
      rw [if_neg hp, if_pos hw] at h
      cases h
    · rw [if_neg hw]
      by_cases h : tfmHasAccessToRegion lvl hal isPriv p s
          (checkAttr nsCaller access unprivileged) = .success
      · simp [h]
      · simp [h]

end Sound

/-- **The memory check is sound.** Every byte of an accepted range is accepted with the
same attributes, and the range is where the caller may go; both for the check of the
file and for `tfm_memory_check`. -/
theorem memory_check_sound (lvl : Level) (L : Layout) (hal : Hal) (hL : L.Sound lvl)
    (hh : hal.CallsGetters lvl L) (isPriv : Bool) (p s : Nat) (hs : 0 < s) :
    (∀ attr, tfmHasAccessToRegion lvl hal isPriv p s attr = .success →
      (∀ i < s, tfmHasAccessToRegion lvl hal isPriv (p + i) 1 attr = .success) ∧
      Confined lvl L (on attr tfmHalAccessNs) (on attr tfmHalAccessUnprivileged)
        (on attr tfmHalAccessWritable) p s) ∧
    ∀ nsCaller access unprivileged,
      tfmMemoryCheck lvl hal isPriv p s nsCaller access unprivileged = .success →
      (∀ i < s, tfmMemoryCheck lvl hal isPriv (p + i) 1 nsCaller access unprivileged = .success) ∧
      Confined lvl L nsCaller unprivileged (decide (access = .rw)) p s := by
  refine ⟨fun attr h => ⟨fun i hi => has_access_byte hL hh h hi, has_access_confined hL hh hs h⟩,
    fun nsCaller access unprivileged h => ?_⟩
  have h' := (tfmMemoryCheck_success hs).1 h
  refine ⟨fun i hi => (tfmMemoryCheck_success Nat.one_pos).2 (has_access_byte hL hh h' hi), ?_⟩
  obtain ⟨h1, h2, h3⟩ := checkAttr_bits nsCaller access unprivileged
  have hc := has_access_confined hL hh hs h'
  rwa [h1, h2, h3] at hc

/-- The HAL of the assumption. -/
def Hal.ofGetters (lvl : Level) (L : Layout) : Hal where
  getMemSecurityAttr := tfmGetMemRegionSecurityAttr L
  getSecureAccessAttr p s a := { tfmGetSecureMemRegionAttr lvl L p s a with isMpuEnabled := true }
  getNsAccessAttr := tfmGetNsMemRegionAttr L

theorem Hal.ofGetters_calls (lvl : Level) (L : Layout) : (Hal.ofGetters lvl L).CallsGetters lvl L where
  security _ _ _ := rfl
  secure _ _ _ := ⟨true, fun _ => rfl, rfl⟩
  ns _ _ _ := rfl

/-- Four sections of 4 KB. -/
def fourSections : Layout where
  nsData := ⟨0x1000, 0x1FFF⟩
  nsCode := ⟨0x2000, 0x2FFF⟩
  sData := ⟨0x3000, 0x3FFF⟩
  sCode := ⟨0x4000, 0x4FFF⟩
  unprivCode := ⟨0x4100, 0x4200⟩
  spMetaPtr := some ⟨0x3000, 0x3010⟩
  appCode := ⟨0x4800, 0x4C00⟩
  appRwStack := ⟨0x3100, 0x3800⟩

theorem fourSections_sound : fourSections.Sound .two := by
  refine ⟨?_, ?_, ?_, fun _ => ?_, fun _ => ?_⟩
  · intro a h1 h2
    exact absurd (Nat.le_trans h2.1 h1.2) (by decide)
  · intro a h1 h2
    exact absurd (Nat.le_trans h2.1 h1.2) (by decide)
  · simp only [List.mem_cons, List.not_mem_nil, or_false, forall_eq_or_imp, forall_eq]
    refine ⟨⟨?_, ?_⟩, ?_, ?_⟩ <;> exact fun a h1 h2 => absurd (Nat.le_trans h2.1 h1.2) (by decide)
  · simp only [Layout.unprivCodeRegions, List.mem_cons, List.not_mem_nil, or_false,
      forall_eq_or_imp, forall_eq]
    refine ⟨?_, ?_⟩ <;>
      exact fun a h => ⟨Nat.le_trans (by decide) h.1, Nat.le_trans h.2 (by decide)⟩
  · simp only [Layout.unprivDataRegions, fourSections, Option.toList_some, List.map_cons,
      List.map_nil, List.mem_cons, List.not_mem_nil, or_false, forall_eq_or_imp, forall_eq]
    refine ⟨?_, ?_⟩ <;>
      exact fun a h => ⟨Nat.le_trans (by decide) h.1, Nat.le_trans h.2 (by decide)⟩

/-- A buffer on the stack of an unprivileged partition. -/
theorem memory_check_sound_stack : Confined .two fourSections false true true 0x3700 16 :=
  ((memory_check_sound .two fourSections (.ofGetters .two fourSections) fourSections_sound
    (Hal.ofGetters_calls _ _) true 0x3700 16 (by decide)).2 false .rw true (by decide +kernel)).2

/-- An unprivileged access of a non-secure caller stays outside the unprivileged regions. -/
theorem ns_unpriv_outside : ¬ ∀ (L : Layout) (hal : Hal), L.Sound .two → hal.CallsGetters .two L →
    ∀ (isPriv : Bool) (p s : Nat), 0 < s → ∀ nsCaller access,
      tfmMemoryCheck .two hal isPriv p s nsCaller access true = .success →
      ∀ i < s, L.Unpriv (p + i) := by
  intro h
  obtain ⟨r, hr, hin⟩ := h fourSections (.ofGetters .two fourSections) fourSections_sound
    (Hal.ofGetters_calls _ _) true 0x1000 4 (by decide) true .ro (by decide +kernel) 0 (by decide)
  have hno : ∀ r ∈ fourSections.unprivCodeRegions ++ fourSections.unprivDataRegions,
      ¬ r.Has (0x1000 + 0) := by decide +kernel
  exact hno r hr hin

end Tfm.L2.MemCheck
