import Mathlib.Data.Fin.Tuple.Basic
import Mathlib.Logic.Function.Basic
import Mathlib.Data.UInt
import Tfm.Core.LTS
import Tfm.Core.Psa

/-!
# Firmware update

The FWU partition keeps two tables. The request manager has an entry for each
image id in the update process; the MCUboot shim has one for each staging area
it has opened. An image id is 32 bits: the slot, the image type and a specific
id. The request manager compares the whole id, the shim only the type, so two ids
that differ in the specific id alone are two updates with one staging area.

A flash operation either does what it says or fails and leaves the area with any
contents; which one is an input of the request. The areas are those of
`FLASH_AREA_IMAGE_SECONDARY` and are named by the MCUboot image number. Requests
to accept an image and to reboot do not act on a staging area and are left out.

Results:
* `inv_inductive`: updates in process have areas of their own, which are open.
* `staging_protected`: in every run in which no request starts an update on an
  area that another update has, the image that an install has finished with is
  what the area holds until an abort, and no flash operation goes to a closed area.
* `staging_erased_by_alias`: two ids that differ in the specific id.
-/
namespace Tfm.L4.Fwu

/-- `psa_image_id_t`: slot, type and specific id.
mirrors interface/include/psa/update.h:58-63 -/
abbrev ImageId := UInt32

/-- mirrors interface/include/psa/update.h:47-48 -/
def imageType (id : ImageId) : UInt8 := (id >>> 8).toUInt8
def imageSlot (id : ImageId) : UInt8 := (id &&& 0x00FF).toUInt8

def slotActive : UInt8 := 0x01
def slotStage : UInt8 := 0x02

def typeNonsecure : UInt8 := 0x01
def typeSecure : UInt8 := 0x02
def typeFull : UInt8 := 0x03

/-- `PSA_FWU_MAX_BLOCK_SIZE` -/
def maxBlockSize : Nat := 1024

/-- mirrors interface/include/psa/update.h:50-56 -/
inductive ImageState
  | undefined
  | candidate
  | installed
  | rejected
  | pendingInstall
  | rebootNeeded
  deriving DecidableEq, Repr

inductive Reply
  | success
  | successReboot
  | currentlyInstalling
  | dependencyNeeded
  | error (e : PsaStatus)
  deriving DecidableEq, Repr

/-- mirrors interface/include/psa/update.h:65-70 -/
structure Version where
  major : UInt8
  minor : UInt8
  revision : UInt16
  buildNum : UInt32
  deriving DecidableEq, Repr

/-- MCUboot's `struct image_header`, as far as it is used here. -/
structure ImageHeader where
  ihMagic : UInt32
  ihHdrSize : UInt16
  ihProtectTlvSize : UInt16
  ihImgSize : UInt32
  ihVer : Version

structure ImageInfo where
  version : Version
  state : ImageState
  digest : List UInt8

/-- An area number is the number of the image in MCUboot. -/
abbrev Area := Nat

structure Cfg where
  /-- `TFM_FWU_MAX_IMAGES` -/
  maxImages : Nat
  /-- `MCUBOOT_IMAGE_NUMBER == 1` -/
  singleImage : Bool
  /-- `fa_size` -/
  areaSize : Area → Nat
  erased : UInt8
  /-- The image trailer that `boot_write_magic` writes: its offset and bytes. -/
  magicOff : Area → Nat
  magic : List UInt8
  /-- The header at the start of an area, in MCUboot's layout. -/
  imageHeader : (Nat → UInt8) → ImageHeader
  /-- `IMAGE_MAGIC` -/
  imageMagic : UInt32
  hash : List UInt8 → List UInt8
  /-- The versions of the running images, from the shared boot data. -/
  bootVersion : Area → Option Version

/-- An image in the area: its version, and the size of what is hashed, which is from
the header to the end of the protected TLVs, in 32 bits.
mirrors secure_fw/partitions/firmware_update/bootloader/mcuboot/tfm_mcuboot_fwu.c:431-448 -/
def Cfg.header (cfg : Cfg) (flash : Nat → UInt8) : Option (Version × Nat) :=
  let hdr := cfg.imageHeader flash
  if hdr.ihMagic = cfg.imageMagic then
    some (hdr.ihVer,
      (hdr.ihHdrSize.toUInt32 + hdr.ihImgSize + hdr.ihProtectTlvSize.toUInt32).toNat)
  else none

/-- mirrors secure_fw/partitions/firmware_update/tfm_fwu_req_mngr.c:22-26 -/
structure FwuCtx where
  imageId : ImageId
  imageState : ImageState
  inUse : Bool
  deriving DecidableEq

/-- mirrors secure_fw/partitions/firmware_update/bootloader/mcuboot/tfm_mcuboot_fwu.c:43-50 -/
structure McubootCtx where
  fap : Option Area
  mcubootImageId : Area
  loadedSize : Nat
  deriving DecidableEq

/-- What goes wrong in a way that no status code reports. -/
inductive Fault
  /-- A flash operation through a `NULL` area. -/
  | nullArea
  /-- `data_block` is overrun. -/
  | overrun
  deriving DecidableEq

/-- `installed` records the contents of the area when an install returned
`PSA_SUCCESS_REBOOT`, until the image is aborted. -/
structure St (cfg : Cfg) where
  fwuCtx : Fin cfg.maxImages → FwuCtx
  mcubootCtx : Fin cfg.maxImages → McubootCtx
  flash : Area → Nat → UInt8
  fault : Option Fault
  installed : List (ImageId × (Nat → UInt8))

variable {cfg : Cfg}

def St.init (cfg : Cfg) (flash : Area → Nat → UInt8) : St cfg where
  fwuCtx := fun _ => ⟨0, .undefined, false⟩
  mcubootCtx := fun _ => ⟨none, 0, 0⟩
  flash := flash
  fault := none
  installed := []

/-! ## Flash areas -/

inductive FlashRes
  | done
  | failed (left : Nat → UInt8)

/-- How the flash behaves during a request. -/
structure Env where
  openOk : Bool
  erase : FlashRes
  write : FlashRes
  magic : FlashRes
  readOk : Bool
  hashOk : Bool

def St.setArea (s : St cfg) (a : Area) (c : Nat → UInt8) : St cfg :=
  { s with flash := Function.update s.flash a c }

def St.setMcuboot (s : St cfg) (i : Fin cfg.maxImages) (c : McubootCtx) : St cfg :=
  { s with mcubootCtx := Function.update s.mcubootCtx i c }

def St.setFwu (s : St cfg) (i : Fin cfg.maxImages) (c : FwuCtx) : St cfg :=
  { s with fwuCtx := Function.update s.fwuCtx i c }

def overlay (c : Nat → UInt8) (off : Nat) (data : List UInt8) : Nat → UInt8 := fun i =>
  if off ≤ i then (data[i - off]?).getD (c i) else c i

/-- An operation on an area that would leave `c`. -/
def flashOp (s : St cfg) (a : Area) (c : Nat → UInt8) : FlashRes → Bool × St cfg
  | .done => (true, s.setArea a c)
  | .failed left => (false, s.setArea a left)

def flashAreaErase (s : St cfg) (a : Area) (r : FlashRes) : Bool × St cfg :=
  flashOp s a (fun _ => cfg.erased) r

def flashAreaWrite (s : St cfg) (a : Area) (off : Nat) (data : List UInt8) (r : FlashRes) :
    Bool × St cfg :=
  if cfg.areaSize a < off + data.length then (false, s)
  else flashOp s a (overlay (s.flash a) off data) r

def bootWriteMagic (s : St cfg) (a : Area) (r : FlashRes) : Bool × St cfg :=
  flashOp s a (overlay (s.flash a) (cfg.magicOff a) cfg.magic) r

/-! ## The MCUboot shim -/

/-- mirrors tfm_mcuboot_fwu.c:55-82 -/
def convertIdFromBlToMcuboot (cfg : Cfg) (bl : UInt8) : Option Area :=
  if cfg.singleImage then
    if bl ≠ typeFull then none else some 0
  else if bl = typeSecure then some 0
  else if bl = typeNonsecure then some 1
  else none

/-- mirrors tfm_mcuboot_fwu.c:121-130 -/
def getFlashImageIndex (s : St cfg) (mid : Area) : Option (Fin cfg.maxImages) :=
  Fin.find? fun i => (s.mcubootCtx i).mcubootImageId == mid

/-- mirrors tfm_mcuboot_fwu.c:132-141 -/
def getNextFreeArea (s : St cfg) : Option (Fin cfg.maxImages) :=
  Fin.find? fun i => (s.mcubootCtx i).fap.isNone

/-- mirrors tfm_mcuboot_fwu.c:159-194 -/
def stagingAreaInit (s : St cfg) (bl : UInt8) (e : Env) : Reply × St cfg :=
  match convertIdFromBlToMcuboot cfg bl with
  | none => (.error .invalidArgument, s)
  | some mid =>
    if !e.openOk then (.error .genericError, s)
    else
      match (getFlashImageIndex s mid).or (getNextFreeArea s) with
      | none => (.error .insufficientMemory, s)
      | some index =>
        match flashAreaErase (s.setMcuboot index ⟨some mid, mid, 0⟩) mid e.erase with
        | (false, s) => (.error .genericError, s)
        | (true, s) => (.success, s)

/-- The entry of an image and its open area, for the operations that need one. -/
def withArea (s : St cfg) (bl : UInt8)
    (f : Fin cfg.maxImages → Area → Reply × St cfg) : Reply × St cfg :=
  match convertIdFromBlToMcuboot cfg bl with
  | none => (.error .invalidArgument, s)
  | some mid =>
    match getFlashImageIndex s mid with
    | none => (.error .invalidArgument, s)
    | some index =>
      match (s.mcubootCtx index).fap with
      | none => (.error .genericError, { s with fault := some .nullArea })
      | some area => f index area

/-- mirrors tfm_mcuboot_fwu.c:196-231 -/
def loadImage (s : St cfg) (bl : UInt8) (off : Nat) (data : List UInt8) (e : Env) :
    Reply × St cfg :=
  withArea s bl fun index area =>
    match flashAreaWrite s area off data e.write with
    | (false, s) => (.error .genericError, s)
    | (true, s) =>
      let c := s.mcubootCtx index
      (.success, s.setMcuboot index { c with loadedSize := (c.loadedSize + data.length) % 2 ^ 32 })

/-- Only single image update is supported, so no dependency is required.
mirrors tfm_mcuboot_fwu.c:233-254 -/
def checkImageDependency (_mid : Area) : Bool := false

/-- mirrors tfm_mcuboot_fwu.c:256-308 -/
def installImage (s : St cfg) (bl : UInt8) (e : Env) : Reply × St cfg :=
  withArea s bl fun index area =>
    if checkImageDependency (s.mcubootCtx index).mcubootImageId then (.dependencyNeeded, s)
    else
      match bootWriteMagic s area e.magic with
      | (false, s) => (.error .genericError, s)
      | (true, s) => (.successReboot, s)

/-- The status of the erase is not looked at.
mirrors tfm_mcuboot_fwu.c:322-348 -/
def bootloaderAbort (s : St cfg) (bl : UInt8) (e : Env) : Reply × St cfg :=
  withArea s bl fun index area =>
    let s := (flashAreaErase s area e.erase).2
    (.success, s.setMcuboot index
      { s.mcubootCtx index with fap := none, loadedSize := 0 })

/-- mirrors tfm_mcuboot_fwu.c:389-460 -/
def getSecondaryImageInfo (s : St cfg) (mid : Area) (e : Env) : Except PsaStatus ImageInfo :=
  if !e.openOk then .error .genericError
  else if !e.readOk then .error .genericError
  else
    let size := match getFlashImageIndex s mid with
      | some index => some (⟨0, 0, 0, 0⟩, (s.mcubootCtx index).loadedSize)
      | none => cfg.header (s.flash mid)
    match size with
    | none => .error .doesNotExist
    | some (version, n) =>
      if e.hashOk then
        .ok ⟨version, .undefined, cfg.hash ((List.range n).map (s.flash mid))⟩
      else .error .genericError

/-- mirrors tfm_mcuboot_fwu.c:462-543 -/
def bootloaderGetImageInfo (s : St cfg) (bl : UInt8) (active : Bool) (e : Env) :
    Except PsaStatus ImageInfo :=
  match convertIdFromBlToMcuboot cfg bl with
  | none => .error .invalidArgument
  | some mid =>
    if active then
      match cfg.bootVersion mid with
      | some v => .ok ⟨v, .installed, List.replicate 32 0xFF⟩
      | none => .error .genericError
    else getSecondaryImageInfo s mid e

/-! ## The request manager -/

/-- mirrors tfm_fwu.c:13-25 -/
def internalInitialize (s : St cfg) (id : ImageId) (e : Env) : Reply × St cfg :=
  if imageSlot id ≠ slotStage then (.error .invalidArgument, s)
  else stagingAreaInit s (imageType id) e

/-- mirrors tfm_fwu.c:27-43 -/
def internalWrite (s : St cfg) (id : ImageId) (off : Nat) (data : List UInt8) (e : Env) :
    Reply × St cfg :=
  if imageSlot id ≠ slotStage then (.error .invalidArgument, s)
  else loadImage s (imageType id) off data e

/-- mirrors tfm_fwu.c:45-76 -/
def internalInstall (s : St cfg) (id : ImageId) (e : Env) : Reply × St cfg :=
  if imageSlot id ≠ slotStage then (.error .invalidArgument, s)
  else installImage s (imageType id) e

/-- mirrors tfm_fwu.c:78-88 -/
def internalAbort (s : St cfg) (id : ImageId) (e : Env) : Reply × St cfg :=
  if imageSlot id ≠ slotStage then (.error .invalidArgument, s)
  else bootloaderAbort s (imageType id) e

/-- mirrors tfm_fwu.c:90-109 -/
def internalQuery (s : St cfg) (id : ImageId) (e : Env) : Except PsaStatus ImageInfo :=
  if imageSlot id = slotStage then bootloaderGetImageInfo s (imageType id) false e
  else if imageSlot id = slotActive then bootloaderGetImageInfo s (imageType id) true e
  else .error .invalidArgument

/-- mirrors tfm_fwu_req_mngr.c:36-49 -/
def getImageIndex (s : St cfg) (id : ImageId) : Option (Fin cfg.maxImages) :=
  Fin.find? fun i => (s.fwuCtx i).inUse && (s.fwuCtx i).imageId == id

/-- mirrors tfm_fwu_req_mngr.c:54-63 -/
def getNextFreeIndex (s : St cfg) : Option (Fin cfg.maxImages) :=
  Fin.find? fun i => !(s.fwuCtx i).inUse

/-- `psa_read` fills `data_block` with as many bytes as the caller sent.
mirrors tfm_fwu_req_mngr.c:268-329 -/
def writeIpc (s : St cfg) (id : ImageId) (off : Nat) (data : List UInt8) (e : Env) :
    Reply × St cfg :=
  if maxBlockSize < data.length then (.error .genericError, { s with fault := some .overrun })
  else
    match getImageIndex s id with
    | some index =>
      if (s.fwuCtx index).imageState ≠ .candidate ∧ (s.fwuCtx index).imageState ≠ .rejected then
        (.currentlyInstalling, s)
      else internalWrite s id off data e
    | none =>
      match getNextFreeIndex s with
      | none => (.error .insufficientMemory, s)
      | some index =>
        match internalInitialize s id e with
        | (.success, s) => internalWrite (s.setFwu index ⟨id, .candidate, true⟩) id off data e
        | (r, s) => (r, s)

/-- mirrors tfm_fwu_req_mngr.c:331-377 -/
def installIpc (s : St cfg) (id : ImageId) (e : Env) : Reply × St cfg :=
  match getImageIndex s id with
  | none => (.error .invalidArgument, s)
  | some index =>
    if (s.fwuCtx index).imageState ≠ .candidate then (.error .invalidArgument, s)
    else
      let (r, s) := internalInstall s id e
      let c := s.fwuCtx index
      match r with
      | .success => (r, s.setFwu index { c with imageState := .installed, inUse := false })
      | .successReboot => (r, s.setFwu index { c with imageState := .rebootNeeded })
      | _ => (r, s.setFwu index { c with imageState := .rejected })

/-- mirrors tfm_fwu_req_mngr.c:379-410 -/
def queryIpc (s : St cfg) (id : ImageId) (e : Env) : Except PsaStatus ImageInfo :=
  match internalQuery s id e with
  | .error r => .error r
  | .ok info =>
    if info.state = .undefined then
      match getImageIndex s id with
      | some index => .ok { info with state := (s.fwuCtx index).imageState }
      | none => .ok info
    else .ok info

/-- mirrors tfm_fwu_req_mngr.c:427-464 -/
def abortIpc (s : St cfg) (id : ImageId) (e : Env) : Reply × St cfg :=
  match getImageIndex s id with
  | none => (.error .invalidArgument, s)
  | some index =>
    if (s.fwuCtx index).imageState = .candidate ∨ (s.fwuCtx index).imageState = .rebootNeeded ∨
        (s.fwuCtx index).imageState = .rejected then
      match internalAbort s id e with
      | (.success, s) => (.success, s.setFwu index ⟨0, .undefined, false⟩)
      | (r, s) => (r, s)
    else (.error .programmerError, s)

/-! ## Runs -/

inductive Req
  /-- A call whose vectors have the wrong sizes. -/
  | malformed
  | write (id : ImageId) (off : Nat) (data : List UInt8)
  | install (id : ImageId)
  | query (id : ImageId)
  | abort (id : ImageId)

structure Lbl where
  req : Req
  env : Env

def queryReply : Except PsaStatus ImageInfo → Reply
  | .ok _ => .success
  | .error e => .error e

/-- mirrors tfm_fwu_req_mngr.c:466-492 -/
def handle (s : St cfg) (l : Lbl) : Reply × St cfg :=
  match l.req with
  | .malformed => (.error .programmerError, s)
  | .write id off data => writeIpc s id off data l.env
  | .install id => installIpc s id l.env
  | .query id => (queryReply (queryIpc s id l.env), s)
  | .abort id => abortIpc s id l.env

/-- The staging area of an image id. -/
def stagingArea (cfg : Cfg) (id : ImageId) : Option Area :=
  convertIdFromBlToMcuboot cfg (imageType id)

/-- Keep the record of what was installed. -/
def record (l : Lbl) (rs : Reply × St cfg) : St cfg :=
  match l.req, rs with
  | .install id, (.successReboot, s) =>
    { s with installed := (id, s.flash ((stagingArea cfg id).getD 0)) :: s.installed }
  | .abort id, (.success, s) => { s with installed := s.installed.filter (·.1 ≠ id) }
  | _, (_, s) => s

def step (s : St cfg) (l : Lbl) : Option (St cfg) :=
  if s.fault.isSome then none else some (record l (handle s l))

def lts (cfg : Cfg) : LTS (St cfg) Lbl := LTS.ofFn (fun s => ∃ f, s = .init cfg f) step

/-! ## Areas -/

theorem convert_injective {bl bl' : UInt8} {a : Area}
    (h : convertIdFromBlToMcuboot cfg bl = some a) (h' : convertIdFromBlToMcuboot cfg bl' = some a) :
    bl = bl' := by
  unfold convertIdFromBlToMcuboot at h h'
  grind

/-- The shim has the area open. -/
def IsOpen (s : St cfg) (a : Area) : Prop :=
  ∃ k, getFlashImageIndex s a = some k ∧ (s.mcubootCtx k).fap = some a

theorem getFlashImageIndex_iff {s : St cfg} {a : Area} {k : Fin cfg.maxImages} :
    getFlashImageIndex s a = some k ↔ (s.mcubootCtx k).mcubootImageId = a ∧
      ∀ j < k, (s.mcubootCtx j).mcubootImageId ≠ a := by
  rw [getFlashImageIndex, Fin.find?_eq_some_iff]
  simp

/-- An entry that is rewritten for another area is not the entry of an open area, which
stays where it is. -/
theorem getFlashImageIndex_other {s : St cfg} {a b : Area} {i k : Fin cfg.maxImages}
    {c : McubootCtx} (hi : getFlashImageIndex s b = some i) (hfap : (s.mcubootCtx i).fap = some b)
    (hk : getFlashImageIndex s a = some k ∨ (s.mcubootCtx k).fap = none)
    (hc : c.mcubootImageId = a) (hab : b ≠ a) :
    i ≠ k ∧ getFlashImageIndex (s.setMcuboot k c) b = some i := by
  rw [getFlashImageIndex_iff] at hi
  have hik : i ≠ k := by
    intro h
    subst h
    obtain hk | hk := hk
    · rw [getFlashImageIndex_iff] at hk
      exact hab (hi.1.symm.trans hk.1)
    · rw [hk] at hfap
      cases hfap
  refine ⟨hik, getFlashImageIndex_iff.mpr ⟨?_, fun j hj => ?_⟩⟩
  · simp [St.setMcuboot, Function.update_of_ne hik, hi.1]
  · by_cases hjk : j = k
    · subst hjk
      simp only [St.setMcuboot, Function.update_self, hc]
      exact hab.symm
    · simp only [St.setMcuboot, Function.update_of_ne hjk]
      exact hi.2 j hj

/-- An entry that is rewritten for another area does not close an area. -/
theorem IsOpen.setMcuboot {s : St cfg} {a b : Area} {k : Fin cfg.maxImages} {c : McubootCtx}
    (h : IsOpen s b) (hk : getFlashImageIndex s a = some k ∨ (s.mcubootCtx k).fap = none)
    (hc : c.mcubootImageId = a) (hab : b ≠ a) : IsOpen (s.setMcuboot k c) b := by
  obtain ⟨i, hi, hfap⟩ := h
  obtain ⟨hik, hi'⟩ := getFlashImageIndex_other hi hfap hk hc hab
  exact ⟨i, hi', by simp [St.setMcuboot, Function.update_of_ne hik, hfap]⟩

/-- The entry of an area, after it is written. -/
theorem getFlashImageIndex_setMcuboot {s : St cfg} {a : Area} {k : Fin cfg.maxImages}
    {c : McubootCtx} (hk : getFlashImageIndex s a = some k ∨ getFlashImageIndex s a = none)
    (hc : c.mcubootImageId = a) : getFlashImageIndex (s.setMcuboot k c) a = some k := by
  refine getFlashImageIndex_iff.mpr ⟨by simp [St.setMcuboot, hc], fun j hj => ?_⟩
  simp only [St.setMcuboot, Function.update_of_ne hj.ne]
  obtain hk | hk := hk
  · exact (getFlashImageIndex_iff.mp hk).2 j hj
  · rw [getFlashImageIndex, Fin.find?_eq_none_iff] at hk
    simpa using hk j

/-- `s'` differs from `s` in what concerns the area `a` only. -/
structure Touch (a : Area) (s s' : St cfg) : Prop where
  fwuCtx : s'.fwuCtx = s.fwuCtx
  installed : s'.installed = s.installed
  fault : s'.fault = s.fault
  flash : ∀ b, b ≠ a → s'.flash b = s.flash b
  isOpen : ∀ b, b ≠ a → IsOpen s b → IsOpen s' b

theorem Touch.refl (a : Area) (s : St cfg) : Touch a s s :=
  ⟨rfl, rfl, rfl, fun _ _ => rfl, fun _ _ h => h⟩

theorem Touch.trans {a : Area} {s s' s'' : St cfg} (h : Touch a s s') (h' : Touch a s' s'') :
    Touch a s s'' where
  fwuCtx := h'.fwuCtx.trans h.fwuCtx
  installed := h'.installed.trans h.installed
  fault := h'.fault.trans h.fault
  flash b hb := (h'.flash b hb).trans (h.flash b hb)
  isOpen b hb ho := h'.isOpen b hb (h.isOpen b hb ho)

theorem touch_setArea (s : St cfg) (a : Area) (c : Nat → UInt8) : Touch a s (s.setArea a c) :=
  ⟨rfl, rfl, rfl, fun _ hb => Function.update_of_ne hb _ _, fun _ _ h => h⟩

theorem touch_setMcuboot {s : St cfg} {a : Area} {k : Fin cfg.maxImages} {c : McubootCtx}
    (hk : getFlashImageIndex s a = some k ∨ (s.mcubootCtx k).fap = none)
    (hc : c.mcubootImageId = a) : Touch a s (s.setMcuboot k c) :=
  ⟨rfl, rfl, rfl, fun _ _ => rfl, fun _ hb h => h.setMcuboot hk hc hb⟩

theorem flashOp_touch (s : St cfg) (a : Area) (c : Nat → UInt8) (r : FlashRes) :
    Touch a s (flashOp s a c r).2 ∧ (flashOp s a c r).2.mcubootCtx = s.mcubootCtx := by
  cases r <;> exact ⟨touch_setArea s a _, rfl⟩

theorem flashAreaWrite_touch (s : St cfg) (a : Area) (off : Nat) (data : List UInt8)
    (r : FlashRes) : Touch a s (flashAreaWrite s a off data r).2 ∧
      (flashAreaWrite s a off data r).2.mcubootCtx = s.mcubootCtx := by
  unfold flashAreaWrite
  split
  · exact ⟨.refl a s, rfl⟩
  · exact flashOp_touch s a _ r

/-- The open areas depend on the shim's table only. -/
theorem IsOpen.congr {s s' : St cfg} {a : Area} (h : IsOpen s a)
    (hm : s'.mcubootCtx = s.mcubootCtx) : IsOpen s' a := by
  obtain ⟨k, hk, hfap⟩ := h
  refine ⟨k, ?_, by rw [hm, hfap]⟩
  rw [getFlashImageIndex, hm]
  exact hk

/-! ## One request -/

section Shim

variable {s : St cfg} {bl : UInt8} {a : Area}

theorem withArea_open (hbl : convertIdFromBlToMcuboot cfg bl = some a) (ho : IsOpen s a)
    (f : Fin cfg.maxImages → Area → Reply × St cfg) :
    ∃ k, getFlashImageIndex s a = some k ∧ withArea s bl f = f k a := by
  obtain ⟨k, hk, hfap⟩ := ho
  exact ⟨k, hk, by simp only [withArea, hbl, hk, hfap]⟩

theorem stagingAreaInit_touch (e : Env) (hbl : convertIdFromBlToMcuboot cfg bl = some a) :
    Touch a s (stagingAreaInit s bl e).2 ∧
      ((stagingAreaInit s bl e).1 = .success → IsOpen (stagingAreaInit s bl e).2 a) := by
  unfold stagingAreaInit
  rw [hbl]
  dsimp only
  split
  · exact ⟨.refl a s, fun h => by cases h⟩
  cases hk : (getFlashImageIndex s a).or (getNextFreeArea s) with
  | none => exact ⟨.refl a s, fun h => by cases h⟩
  | some k =>
    -- the entry is the first of this image, or a free one if there is none
    have hk' : getFlashImageIndex s a = some k ∨
        getFlashImageIndex s a = none ∧ (s.mcubootCtx k).fap = none := by
      cases hi : getFlashImageIndex s a with
      | some i =>
        rw [hi, Option.some_or] at hk
        exact .inl hk
      | none =>
        rw [hi, Option.none_or] at hk
        exact .inr ⟨rfl, by simpa using Fin.eq_true_of_find?_eq_some hk⟩
    have ht : Touch a s (s.setMcuboot k ⟨some a, a, 0⟩) :=
      touch_setMcuboot (hk'.imp_right And.right) rfl
    have ho : IsOpen (s.setMcuboot k ⟨some a, a, 0⟩) a :=
      ⟨k, getFlashImageIndex_setMcuboot (hk'.imp_right And.left) rfl, by simp [St.setMcuboot]⟩
    obtain ⟨hte, hm⟩ := flashOp_touch (s.setMcuboot k ⟨some a, a, 0⟩) a (fun _ => cfg.erased) e.erase
    cases he : e.erase with
    | done =>
      rw [he] at hte hm
      exact ⟨ht.trans hte, fun _ => ho.congr hm⟩
    | failed left =>
      rw [he] at hte
      exact ⟨ht.trans hte, fun h => by cases h⟩

theorem loadImage_touch (off : Nat) (data : List UInt8) (e : Env)
    (hbl : convertIdFromBlToMcuboot cfg bl = some a) (ho : IsOpen s a) :
    Touch a s (loadImage s bl off data e).2 ∧ IsOpen (loadImage s bl off data e).2 a := by
  obtain ⟨k, hk, heq⟩ := withArea_open hbl ho fun index area =>
    match flashAreaWrite s area off data e.write with
    | (false, s) => (.error .genericError, s)
    | (true, s) =>
      let c := s.mcubootCtx index
      (.success, s.setMcuboot index { c with loadedSize := (c.loadedSize + data.length) % 2 ^ 32 })
  rw [loadImage, heq]
  obtain ⟨ht, hm⟩ := flashAreaWrite_touch s a off data e.write
  cases hw : flashAreaWrite s a off data e.write with
  | mk ok s₁ =>
    rw [hw] at ht hm
    have ho₁ := ho.congr hm
    cases ok with
    | false => exact ⟨ht, ho₁⟩
    | true =>
      dsimp only
      have hk₁ : getFlashImageIndex s₁ a = some k := by rw [getFlashImageIndex, hm]; exact hk
      have hid := (getFlashImageIndex_iff.mp hk₁).1
      refine ⟨ht.trans (touch_setMcuboot (.inl hk₁) hid), k,
        getFlashImageIndex_setMcuboot (.inl hk₁) hid, ?_⟩
      obtain ⟨k', hk', hfap⟩ := ho₁
      rw [hk₁] at hk'
      cases hk'
      simpa [St.setMcuboot] using hfap

theorem installImage_touch (e : Env) (hbl : convertIdFromBlToMcuboot cfg bl = some a)
    (ho : IsOpen s a) :
    Touch a s (installImage s bl e).2 ∧ IsOpen (installImage s bl e).2 a ∧
      (installImage s bl e).1 ≠ .success := by
  obtain ⟨k, _, heq⟩ := withArea_open hbl ho fun index area =>
    if checkImageDependency (s.mcubootCtx index).mcubootImageId then (.dependencyNeeded, s)
    else
      match bootWriteMagic s area e.magic with
      | (false, s) => (.error .genericError, s)
      | (true, s) => (.successReboot, s)
  rw [installImage, heq, checkImageDependency, if_neg Bool.false_ne_true]
  obtain ⟨ht, hm⟩ := flashOp_touch s a (overlay (s.flash a) (cfg.magicOff a) cfg.magic) e.magic
  cases hw : bootWriteMagic s a e.magic with
  | mk ok s₁ =>
    rw [bootWriteMagic] at hw
    rw [hw] at ht hm
    cases ok with
    | false => exact ⟨ht, ho.congr hm, by simp⟩
    | true => exact ⟨ht, ho.congr hm, by simp⟩

theorem bootloaderAbort_touch (e : Env) (hbl : convertIdFromBlToMcuboot cfg bl = some a)
    (ho : IsOpen s a) :
    (bootloaderAbort s bl e).1 = .success ∧ Touch a s (bootloaderAbort s bl e).2 := by
  obtain ⟨k, hk, heq⟩ := withArea_open hbl ho fun index area =>
    let s := (flashAreaErase s area e.erase).2
    (.success, s.setMcuboot index { s.mcubootCtx index with fap := none, loadedSize := 0 })
  rw [bootloaderAbort, heq]
  obtain ⟨ht, hm⟩ := flashOp_touch s a (fun _ => cfg.erased) e.erase
  have hk₁ : getFlashImageIndex (flashOp s a (fun _ => cfg.erased) e.erase).2 a = some k := by
    rw [getFlashImageIndex, hm]
    exact hk
  exact ⟨rfl, ht.trans (touch_setMcuboot (.inl hk₁) (getFlashImageIndex_iff.mp hk₁).1)⟩

end Shim

/-! ## Invariant -/

/-- The update at entry `i` of the request manager acts on `a`. -/
def Owns (s : St cfg) (i : Fin cfg.maxImages) (a : Area) : Prop :=
  (s.fwuCtx i).inUse = true ∧ stagingArea cfg (s.fwuCtx i).imageId = some a

structure Inv (s : St cfg) : Prop where
  fault : s.fault = none
  staged : ∀ i, (s.fwuCtx i).inUse = true →
    imageSlot (s.fwuCtx i).imageId = slotStage ∧ ∃ a, Owns s i a ∧ IsOpen s a
  apart : ∀ i j a, Owns s i a → Owns s j a → i = j
  installed : ∀ p ∈ s.installed, ∃ i a, Owns s i a ∧ (s.fwuCtx i).imageId = p.1 ∧
    (s.fwuCtx i).imageState = .rebootNeeded ∧ s.flash a = p.2

theorem inv_init (f : Area → Nat → UInt8) : Inv (.init cfg f) where
  fault := rfl
  staged i hi := by cases hi
  apart i j a hi hj := by cases hi.1
  installed p hp := by cases hp

/-- A change that concerns one area, which no installed image has. -/
theorem inv_touch {s s' : St cfg} {a : Area} (h : Inv s) (ht : Touch a s s')
    (hown : ∀ i, Owns s i a → IsOpen s' a ∧ (s.fwuCtx i).imageState ≠ .rebootNeeded) : Inv s' := by
  have howns : ∀ i b, Owns s' i b ↔ Owns s i b := fun i b => by rw [Owns, ht.fwuCtx, Owns]
  refine ⟨ht.fault.trans h.fault, fun i hi => ?_, fun i j b hi hj => ?_, fun p hp => ?_⟩
  · rw [ht.fwuCtx] at hi ⊢
    obtain ⟨hslot, b, hb, ho⟩ := h.staged i hi
    refine ⟨hslot, b, (howns i b).mpr hb, ?_⟩
    by_cases hba : b = a
    · exact hba ▸ (hown i (hba ▸ hb)).1
    · exact ht.isOpen b hba ho
  · exact h.apart i j b ((howns i b).mp hi) ((howns j b).mp hj)
  · rw [ht.installed] at hp
    obtain ⟨i, b, hb, hid, hst, hf⟩ := h.installed p hp
    have hba : b ≠ a := by
      intro hx
      subst hx
      exact (hown i hb).2 hst
    rw [ht.fwuCtx]
    exact ⟨i, b, (howns i b).mpr hb, hid, hst, (ht.flash b hba).trans hf⟩

/-- An entry that is not installed changes its state. -/
theorem inv_setState {s : St cfg} {i : Fin cfg.maxImages} (h : Inv s) (st : ImageState)
    (hst : (s.fwuCtx i).imageState ≠ .rebootNeeded) :
    Inv (s.setFwu i { s.fwuCtx i with imageState := st }) := by
  have hsame : ∀ j, ((s.setFwu i { s.fwuCtx i with imageState := st }).fwuCtx j).inUse =
      (s.fwuCtx j).inUse ∧ ((s.setFwu i { s.fwuCtx i with imageState := st }).fwuCtx j).imageId =
      (s.fwuCtx j).imageId := by
    intro j
    by_cases hj : j = i
    · subst hj
      simp [St.setFwu]
    · simp [St.setFwu, Function.update_of_ne hj]
  have howns : ∀ j b, Owns (s.setFwu i { s.fwuCtx i with imageState := st }) j b ↔ Owns s j b := by
    intro j b
    rw [Owns, (hsame j).1, (hsame j).2, Owns]
  refine ⟨h.fault, fun j hj => ?_, fun j k b hj hk => ?_, fun p hp => ?_⟩
  · rw [(hsame j).1] at hj
    rw [(hsame j).2]
    obtain ⟨hslot, b, hb, ho⟩ := h.staged j hj
    exact ⟨hslot, b, (howns j b).mpr hb, ho⟩
  · exact h.apart j k b ((howns j b).mp hj) ((howns k b).mp hk)
  · obtain ⟨j, b, hb, hid, hj, hf⟩ := h.installed p hp
    have hji : j ≠ i := by
      intro hx
      subst hx
      exact hst hj
    refine ⟨j, b, (howns j b).mpr hb, (hsame j).2.trans hid, ?_, hf⟩
    simpa [St.setFwu, Function.update_of_ne hji] using hj

/-- A new update, on an open area that no other update has. -/
theorem inv_start {s : St cfg} {i : Fin cfg.maxImages} {id : ImageId} {a : Area} (h : Inv s)
    (hfree : (s.fwuCtx i).inUse = false) (hslot : imageSlot id = slotStage)
    (ha : stagingArea cfg id = some a) (ho : IsOpen s a) (hown : ∀ j, ¬ Owns s j a) :
    Inv (s.setFwu i ⟨id, .candidate, true⟩) := by
  have hne : ∀ j, j ≠ i → (s.setFwu i ⟨id, .candidate, true⟩).fwuCtx j = s.fwuCtx j := fun j hj =>
    Function.update_of_ne hj _ _
  have hself : (s.setFwu i ⟨id, .candidate, true⟩).fwuCtx i = ⟨id, .candidate, true⟩ :=
    Function.update_self _ _ _
  have howns : ∀ j b, Owns (s.setFwu i ⟨id, .candidate, true⟩) j b →
      j = i ∧ b = a ∨ j ≠ i ∧ Owns s j b := by
    intro j b hj
    by_cases hji : j = i
    · subst hji
      rw [Owns, hself] at hj
      exact .inl ⟨rfl, Option.some.inj (hj.2.symm.trans ha)⟩
    · rw [Owns, hne j hji] at hj
      exact .inr ⟨hji, hj⟩
  refine ⟨h.fault, fun j hj => ?_, fun j k b hj hk => ?_, fun p hp => ?_⟩
  · by_cases hji : j = i
    · subst hji
      rw [hself]
      exact ⟨hslot, a, ⟨by rw [hself], by rw [hself]; exact ha⟩, ho⟩
    · rw [hne j hji] at hj ⊢
      obtain ⟨hs, b, hb, hob⟩ := h.staged j hj
      exact ⟨hs, b, by rw [Owns, hne j hji]; exact hb, hob⟩
  · obtain ⟨rfl, rfl⟩ | ⟨hji, hj'⟩ := howns j b hj
    · obtain ⟨rfl, -⟩ | ⟨-, hk'⟩ := howns k b hk
      · rfl
      · exact absurd hk' (hown k)
    · obtain ⟨rfl, rfl⟩ | ⟨-, hk'⟩ := howns k b hk
      · exact absurd hj' (hown j)
      · exact h.apart j k b hj' hk'
  · obtain ⟨j, b, hb, hid, hst, hf⟩ := h.installed p hp
    have hji : j ≠ i := by
      intro hx
      subst hx
      rw [hb.1] at hfree
      cases hfree
    exact ⟨j, b, by rw [Owns, hne j hji]; exact hb, by rw [hne j hji]; exact hid,
      by rw [hne j hji]; exact hst, hf⟩

theorem getImageIndex_some {s : St cfg} {id : ImageId} {i : Fin cfg.maxImages}
    (hi : getImageIndex s id = some i) : (s.fwuCtx i).inUse = true ∧ (s.fwuCtx i).imageId = id := by
  simpa using Fin.eq_true_of_find?_eq_some hi

/-- What the request manager knows of an image in process. -/
theorem Inv.found {s : St cfg} (h : Inv s) {id : ImageId} {i : Fin cfg.maxImages}
    (hi : getImageIndex s id = some i) : imageSlot id = slotStage ∧ ∃ a,
      convertIdFromBlToMcuboot cfg (imageType id) = some a ∧ Owns s i a ∧ IsOpen s a := by
  obtain ⟨huse, rfl⟩ := getImageIndex_some hi
  obtain ⟨hslot, a, ha, ho⟩ := h.staged i huse
  exact ⟨hslot, a, ha.2, ha, ho⟩

theorem inv_load {s : St cfg} {id : ImageId} {a : Area} {i : Fin cfg.maxImages} (h : Inv s)
    (off : Nat) (data : List UInt8) (e : Env) (hslot : imageSlot id = slotStage)
    (hbl : convertIdFromBlToMcuboot cfg (imageType id) = some a) (hi : Owns s i a)
    (ho : IsOpen s a) (hst : (s.fwuCtx i).imageState ≠ .rebootNeeded) :
    Inv (internalWrite s id off data e).2 := by
  rw [internalWrite, if_neg (not_not.mpr hslot)]
  obtain ⟨ht, ho'⟩ := loadImage_touch off data e hbl ho
  refine inv_touch h ht fun j hj => ⟨ho', ?_⟩
  rw [h.apart j i a hj hi]
  exact hst

/-- The block fits its buffer, and an update that starts has a staging area of its
own. -/
def StartsApart (s : St cfg) (l : Lbl) : Prop :=
  match l.req with
  | .write id _ data => data.length ≤ maxBlockSize ∧
      (getImageIndex s id = none → getNextFreeIndex s ≠ none → imageSlot id = slotStage →
        ∀ i, (s.fwuCtx i).inUse = true → imageType (s.fwuCtx i).imageId ≠ imageType id)
  | _ => True

theorem inv_write {s : St cfg} {id : ImageId} {off : Nat} {data : List UInt8} {e : Env} (h : Inv s)
    (hC : StartsApart s ⟨.write id off data, e⟩) : Inv (writeIpc s id off data e).2 := by
  obtain ⟨hlen, hC⟩ := hC
  rw [writeIpc, if_neg (by omega)]
  cases hi : getImageIndex s id with
  | some i =>
    dsimp only
    split
    · exact h
    · rename_i hst
      obtain ⟨hslot, a, hbl, hown, ho⟩ := h.found hi
      refine inv_load h off data e hslot hbl hown ho fun hr => hst ?_
      simp [hr]
  | none =>
    cases hk : getNextFreeIndex s with
    | none => exact h
    | some k =>
      dsimp only
      have hfree : (s.fwuCtx k).inUse = false := by simpa using Fin.eq_true_of_find?_eq_some hk
      rw [internalInitialize]
      by_cases hslot : imageSlot id = slotStage
      case neg =>
        rw [if_pos hslot]
        exact h
      rw [if_neg (not_not.mpr hslot)]
      cases hbl : convertIdFromBlToMcuboot cfg (imageType id) with
      | none =>
        simp only [stagingAreaInit, hbl]
        exact h
      | some a =>
        -- no update in process has the area, by the condition
        have hown : ∀ i, ¬ Owns s i a := fun i hi' =>
          hC hi (by rw [hk]; exact Option.some_ne_none k) hslot i hi'.1 (convert_injective hi'.2 hbl)
        obtain ⟨ht, ho⟩ := stagingAreaInit_touch (s := s) e hbl
        cases hinit : stagingAreaInit s (imageType id) e with
        | mk r s₁ =>
          rw [hinit] at ht ho
          have h₁ : Inv s₁ := inv_touch h ht fun i hi' => absurd hi' (hown i)
          cases r with
          | success =>
            dsimp only
            have ho₁ : IsOpen s₁ a := ho rfl
            have hown₁ : ∀ i, ¬ Owns s₁ i a := fun i hi' => by
              rw [Owns, ht.fwuCtx] at hi'
              exact hown i hi'
            have h₂ := inv_start h₁ (by rw [ht.fwuCtx]; exact hfree) hslot hbl ho₁ hown₁
            have hself : (s₁.setFwu k ⟨id, .candidate, true⟩).fwuCtx k = ⟨id, .candidate, true⟩ :=
              Function.update_self _ _ _
            refine inv_load (i := k) h₂ off data e hslot hbl ⟨by rw [hself], by rw [hself]; exact hbl⟩
              (ho₁.congr rfl) ?_
            rw [hself]
            exact ImageState.noConfusion
          | successReboot => exact h₁
          | currentlyInstalling => exact h₁
          | dependencyNeeded => exact h₁
          | error _ => exact h₁

theorem inv_install {s : St cfg} {id : ImageId} {e : Env} (h : Inv s) :
    Inv (record ⟨.install id, e⟩ (installIpc s id e)) := by
  rw [installIpc]
  cases hi : getImageIndex s id with
  | none => exact h
  | some i =>
    dsimp only
    split
    · exact h
    rename_i hst
    obtain ⟨hslot, a, hbl, hown, ho⟩ := h.found hi
    rw [internalInstall, if_neg (not_not.mpr hslot)]
    obtain ⟨ht, ho', hr⟩ := installImage_touch e hbl ho
    cases hinst : installImage s (imageType id) e with
    | mk r s₁ =>
      rw [hinst] at ht ho' hr
      have hst₁ : (s₁.fwuCtx i).imageState ≠ .rebootNeeded := by
        rw [ht.fwuCtx, not_not.mp hst]
        exact ImageState.noConfusion
      have h₁ : Inv s₁ := inv_touch h ht fun j hj => by
        rw [h.apart j i a hj hown, ← ht.fwuCtx]
        exact ⟨ho', hst₁⟩
      cases r with
      | success => exact absurd rfl hr
      | successReboot =>
        have h₂ := inv_setState h₁ .rebootNeeded hst₁
        dsimp only [record]
        refine ⟨h₂.fault, h₂.staged, h₂.apart, fun p hp => ?_⟩
        obtain rfl | hp := List.mem_cons.mp hp
        · have hid : (s₁.fwuCtx i).imageId = id := by
            rw [ht.fwuCtx]
            exact (getImageIndex_some hi).2
          refine ⟨i, a, ⟨?_, ?_⟩, ?_, ?_, ?_⟩
          · simp only [St.setFwu, Function.update_self]
            rw [ht.fwuCtx]
            exact hown.1
          · simp only [St.setFwu, Function.update_self, hid]
            exact hbl
          · simp only [St.setFwu, Function.update_self, hid]
          · simp only [St.setFwu, Function.update_self]
          · simp only [stagingArea, hbl, Option.getD_some]
        · exact h₂.installed p hp
      | currentlyInstalling => exact inv_setState h₁ .rejected hst₁
      | dependencyNeeded => exact inv_setState h₁ .rejected hst₁
      | error _ => exact inv_setState h₁ .rejected hst₁

/-- The entry of an aborted image is freed, and its area is closed. -/
theorem inv_end {s s₁ : St cfg} {i : Fin cfg.maxImages} {a : Area} (h : Inv s) (ht : Touch a s s₁)
    (hown : Owns s i a) :
    Inv { s₁.setFwu i ⟨0, .undefined, false⟩ with
      installed := s₁.installed.filter (·.1 ≠ (s.fwuCtx i).imageId) } := by
  have hne : ∀ j, j ≠ i → (s₁.setFwu i ⟨0, .undefined, false⟩).fwuCtx j = s.fwuCtx j := by
    intro j hj
    rw [← ht.fwuCtx]
    exact Function.update_of_ne hj _ _
  have huse : ∀ j, ((s₁.setFwu i ⟨0, .undefined, false⟩).fwuCtx j).inUse = true → j ≠ i := by
    intro j hj hx
    subst hx
    simp [St.setFwu] at hj
  refine ⟨ht.fault.trans h.fault, fun j hj => ?_, fun j k b hj hk => ?_, fun p hp => ?_⟩
  · have hji := huse j hj
    simp only [hne j hji] at hj ⊢
    obtain ⟨hs, b, hb, hob⟩ := h.staged j hj
    refine ⟨hs, b, by simp only [Owns, hne j hji]; exact hb, ?_⟩
    exact (ht.isOpen b (fun hba => hji (h.apart j i a (hba ▸ hb) hown)) hob).congr rfl
  · have hji := huse j hj.1
    have hki := huse k hk.1
    simp only [Owns, hne j hji] at hj
    simp only [Owns, hne k hki] at hk
    exact h.apart j k b hj hk
  · obtain ⟨hp, hpid⟩ := List.mem_filter.mp hp
    rw [ht.installed] at hp
    obtain ⟨j, b, hb, hid, hst, hf⟩ := h.installed p hp
    have hji : j ≠ i := by
      intro hx
      subst hx
      simp [hid] at hpid
    refine ⟨j, b, by simp only [Owns, hne j hji]; exact hb, by simp only [hne j hji]; exact hid,
      by simp only [hne j hji]; exact hst, ?_⟩
    exact (ht.flash b fun hba => hji (h.apart j i a (hba ▸ hb) hown)).trans hf

theorem inv_abort {s : St cfg} {id : ImageId} {e : Env} (h : Inv s) :
    Inv (record ⟨.abort id, e⟩ (abortIpc s id e)) := by
  rw [abortIpc]
  cases hi : getImageIndex s id with
  | none => exact h
  | some i =>
    dsimp only
    split
    · obtain ⟨hslot, a, hbl, hown, ho⟩ := h.found hi
      rw [internalAbort, if_neg (not_not.mpr hslot)]
      obtain ⟨hr, ht⟩ := bootloaderAbort_touch e hbl ho
      cases hab : bootloaderAbort s (imageType id) e with
      | mk r s₁ =>
        rw [hab] at hr ht
        cases hr
        have := inv_end h ht hown
        rw [(getImageIndex_some hi).2] at this
        exact this
    · exact h

theorem inv_step {s : St cfg} {l : Lbl} (h : Inv s) (hC : StartsApart s l) :
    Inv (record l (handle s l)) := by
  obtain ⟨req, e⟩ := l
  cases req with
  | malformed => exact h
  | write id off data => exact inv_write h hC
  | install id => exact inv_install h
  | query id => exact h
  | abort id => exact inv_abort h

theorem inv_inductive : ((lts cfg).restrict StartsApart).Inductive Inv where
  init := by
    intro s hx
    obtain ⟨f, rfl⟩ := hx
    exact inv_init f
  step := by
    intro s l s' h hx
    obtain ⟨hC, hs⟩ := hx
    simp only [lts, LTS.ofFn, step] at hs
    split at hs
    · cases hs
    · cases hs
      exact inv_step h hC

/-- What an installed image and the updates in process rely on. -/
structure Protected (s : St cfg) : Prop where
  /-- An installed image is still in its area. -/
  installed : ∀ p ∈ s.installed, ∀ a, stagingArea cfg p.1 = some a → s.flash a = p.2
  apart : ∀ i j, i ≠ j → (s.fwuCtx i).inUse = true → (s.fwuCtx j).inUse = true →
    stagingArea cfg (s.fwuCtx i).imageId ≠ stagingArea cfg (s.fwuCtx j).imageId
  openArea : s.fault ≠ some .nullArea

/-- **Staging areas are protected from the end of an install to the abort.** Over
every sequence of requests with any image ids and any behaviour of the flash: as
long as no write starts an update on an area that an update in process has, and no
block is longer than `PSA_FWU_MAX_BLOCK_SIZE`, an installed image stays in its area
byte for byte, no two updates share an area, and every flash operation goes to an
open area. -/
theorem staging_protected (cfg : Cfg) (s : St cfg)
    (h : ((lts cfg).restrict StartsApart).Reachable s) : Protected s := by
  have hinv := inv_inductive.reachable s h
  refine ⟨fun p hp a ha => ?_, fun i j hij hi hj he => hij ?_, ?_⟩
  · obtain ⟨i, b, hown, hid, _, hf⟩ := hinv.installed p hp
    have hab : a = b := by
      have hb := hown.2
      rw [hid, ha] at hb
      exact Option.some.inj hb
    rw [hab, hf]
  · obtain ⟨_, a, ha, _⟩ := hinv.staged i hi
    exact hinv.apart i j a ha ⟨hj, he ▸ ha.2⟩
  · rw [hinv.fault]
    exact nofun

instance (s : St cfg) (l : Lbl) : Decidable (StartsApart s l) :=
  match l with
  | ⟨.write _ _ _, _⟩ => inferInstanceAs (Decidable (_ ∧ (_ → _ → _ → ∀ _, _ → _)))
  | ⟨.malformed, _⟩ => isTrue trivial
  | ⟨.install _, _⟩ => isTrue trivial
  | ⟨.query _, _⟩ => isTrue trivial
  | ⟨.abort _, _⟩ => isTrue trivial

def uint16At (flash : Nat → UInt8) (off : Nat) : UInt16 :=
  (flash off).toUInt16 ||| (flash (off + 1)).toUInt16 <<< 8

def uint32At (flash : Nat → UInt8) (off : Nat) : UInt32 :=
  (uint16At flash off).toUInt32 ||| (uint16At flash (off + 2)).toUInt32 <<< 16

/-- Two images with areas of 64 bytes and a trailer of four. -/
def demoCfg : Cfg where
  maxImages := 2
  singleImage := false
  areaSize := fun _ => 64
  erased := 0xFF
  magicOff := fun _ => 60
  magic := [0x77, 0xC2, 0x95, 0xF3]
  imageHeader := fun f => ⟨uint32At f 0, uint16At f 8, uint16At f 10, uint32At f 12,
    ⟨f 20, f 21, uint16At f 22, uint32At f 24⟩⟩
  imageMagic := 0x96F3B83D
  hash := fun l => l.take 32
  bootVersion := fun _ => none

def goodFlash : Env := ⟨true, .done, .done, .done, true, true⟩

def secureId : ImageId := 0x00000202
def nonsecureId : ImageId := 0x00000102
/-- The secure image under another specific id. -/
def secureAlias : ImageId := 0x00010202

theorem staging_protected_after_install : ∃ s : St demoCfg, Protected s ∧
    (s.installed.map (·.1), s.flash 0 0, s.flash 0 60, s.flash 1 0) =
      ([secureId], 0xAA, 0x77, 0xBB) := by
  have hrun : (LTS.execC (fun s l => decide (StartsApart s l)) step (St.init demoCfg fun _ _ => 0)
      [⟨.write secureId 0 [0xAA], goodFlash⟩, ⟨.install secureId, goodFlash⟩,
        ⟨.write secureId 0 [0xCC], goodFlash⟩, ⟨.write nonsecureId 0 [0xBB], goodFlash⟩]).map
      (fun s => (s.installed.map (·.1), s.flash 0 0, s.flash 0 60, s.flash 1 0)) =
      some ([secureId], 0xAA, 0x77, 0xBB) := by decide +kernel
  obtain ⟨s, hs, hv⟩ := Option.map_eq_some_iff.mp hrun
  refine ⟨s, staging_protected demoCfg s ?_, hv⟩
  exact LTS.reachable_execC (fun _ _ => of_decide_eq_true) _ ⟨_, rfl⟩ hs

/-- An image is installed; a write under an alias of its id erases it, and after an
abort of the first id a write under the alias goes through a closed area. -/
theorem staging_erased_by_alias :
    (∃ s : St demoCfg, (lts demoCfg).Reachable s ∧ s.fault = none ∧
      (∃ p ∈ s.installed, stagingArea demoCfg p.1 = some 0 ∧ s.flash 0 ≠ p.2) ∧
      ¬ Protected s) ∧
    ∃ s : St demoCfg, (lts demoCfg).Reachable s ∧ s.fault = some .nullArea := by
  constructor
  · have hrun : (LTS.exec step (St.init demoCfg fun _ _ => 0)
        [⟨.write secureId 0 [0xAA], goodFlash⟩, ⟨.install secureId, goodFlash⟩,
          ⟨.write secureAlias 0 [0xCC], goodFlash⟩]).map
        (fun s => (s.installed.map fun p => (p.1, p.2 60), s.flash 0 60, s.fault)) =
        some ([(secureId, 0x77)], 0xFF, none) := by decide +kernel
    obtain ⟨s, hs, hv⟩ := Option.map_eq_some_iff.mp hrun
    simp only [Prod.mk.injEq] at hv
    obtain ⟨hl, hf, hfault⟩ := hv
    obtain ⟨p, hp, hpe⟩ := List.mem_map.mp (hl ▸ List.mem_singleton_self (secureId, (0x77 : UInt8)))
    have harea : stagingArea demoCfg p.1 = some 0 := by
      rw [(Prod.mk.inj hpe).1]
      decide
    have hne : s.flash 0 ≠ p.2 := by
      intro he
      rw [he, (Prod.mk.inj hpe).2] at hf
      exact absurd hf (by decide)
    refine ⟨s, LTS.reachable_exec _ (.init ⟨_, rfl⟩) hs, hfault, ⟨p, hp, harea, hne⟩, fun h => ?_⟩
    exact hne (h.installed p hp 0 harea)
  · have hrun : (LTS.exec step (St.init demoCfg fun _ _ => 0)
        [⟨.write secureId 0 [0xAA], goodFlash⟩, ⟨.write secureAlias 0 [0xCC], goodFlash⟩,
          ⟨.abort secureId, goodFlash⟩, ⟨.write secureAlias 4 [0xCC], goodFlash⟩]).map
        (fun s => s.fault) = some (some .nullArea) := by decide +kernel
    obtain ⟨s, hs, hv⟩ := Option.map_eq_some_iff.mp hrun
    exact ⟨s, LTS.reachable_exec _ (.init ⟨_, rfl⟩) hs, hv⟩

end Tfm.L4.Fwu
