import Tfm.L4Service.Fwu

/-!
# Firmware update: what a write message does

A write goes through three layers, and none of them looks at the size of the block:
the request manager reads it into `data_block` whatever its length, the id converter
looks at the slot, the shim leaves the range to `flash_area_write`, which comes after
the context is created and the slot erased. A message is refused as it should be where
one of the other checks happens to stop it first.

Results:
* `shimInv_inductive`: an entry of the shim with an area is an entry of that area.
* `write_validated_iff`: the messages for which the contract of `psa_fwu_write` holds.
* `write_too_long`: a block of 1025 bytes.
-/
namespace Tfm.L4.Fwu

variable {cfg : Cfg}

/-- The sizes of the first two vectors and what they hold, and the third vector. -/
structure WriteMsg where
  inSize0 : Nat
  inSize1 : Nat
  imageId : ImageId
  blockOffset : Nat
  block : List UInt8

/-- The sizes that the request manager checks. -/
def WriteMsg.Shaped (m : WriteMsg) : Prop := m.inSize0 = 4 ∧ m.inSize1 = 4

instance (m : WriteMsg) : Decidable m.Shaped := inferInstanceAs (Decidable (_ ∧ _))

/-- mirrors tfm_fwu_req_mngr.c:268-327 -/
def tfmFwuWriteIpc (s : St cfg) (m : WriteMsg) (e : Env) : Reply × St cfg :=
  if m.Shaped then writeIpc s m.imageId m.blockOffset m.block e
  else (.error .programmerError, s)

/-! ## The contract -/

def Reply.IsError : Reply → Prop
  | .success => False
  | .successReboot => False
  | _ => True

/-- A block that the interface rules out.
mirrors interface/include/psa/update.h:104-110 -/
def Bad (cfg : Cfg) (m : WriteMsg) : Prop :=
  m.block = [] ∨ maxBlockSize < m.block.length ∨
    ∃ a, stagingArea cfg m.imageId = some a ∧ cfg.areaSize a < m.blockOffset + m.block.length

/-- What the area of an image holds when a block comes to it. -/
def before (s : St cfg) (id : ImageId) (a : Area) : Nat → UInt8 :=
  if getImageIndex s id = none then fun _ => cfg.erased else s.flash a

/-- The bytes of the block are at its offset in the area, and nothing else has changed. -/
structure Stored (s : St cfg) (m : WriteMsg) (a : Area) (s' : St cfg) : Prop where
  inside : m.blockOffset + m.block.length ≤ cfg.areaSize a
  block : ∀ i (h : i < m.block.length), s'.flash a (m.blockOffset + i) = m.block.get ⟨i, h⟩
  rest : ∀ j, j < m.blockOffset ∨ m.blockOffset + m.block.length ≤ j →
    s'.flash a j = before s m.imageId a j
  others : ∀ b, b ≠ a → s'.flash b = s.flash b

/-- What a write promises, however the flash behaves. -/
structure WriteLaw (s : St cfg) (m : WriteMsg) : Prop where
  /-- `data_block` is not overrun, and no flash operation goes to a closed area. -/
  safe : ∀ e, (tfmFwuWriteIpc s m e).2.fault = none
  refused : Bad cfg m → ∀ e, (tfmFwuWriteIpc s m e).1.IsError ∧ (tfmFwuWriteIpc s m e).2 = s
  stored : ∀ e, (tfmFwuWriteIpc s m e).1 = .success →
    ∃ a, stagingArea cfg m.imageId = some a ∧ Stored s m a (tfmFwuWriteIpc s m e).2

/-! ## When it is kept -/

/-- The write is for an update in process that takes blocks, and the shim has the
entry `k` for it. -/
def Continues (s : St cfg) (id : ImageId) (k : Fin cfg.maxImages) : Prop :=
  (∃ i, getImageIndex s id = some i ∧
    ((s.fwuCtx i).imageState = .candidate ∨ (s.fwuCtx i).imageState = .rejected)) ∧
  imageSlot id = slotStage ∧ ∃ a, stagingArea cfg id = some a ∧ getFlashImageIndex s a = some k

/-- The write is for a new update, and both tables have room for it. -/
def Starts (s : St cfg) (id : ImageId) : Prop :=
  getImageIndex s id = none ∧ getNextFreeIndex s ≠ none ∧ imageSlot id = slotStage ∧
    ∃ a, stagingArea cfg id = some a ∧ (getFlashImageIndex s a).or (getNextFreeArea s) ≠ none

/-- What the handler relies on. -/
structure Expected (s : St cfg) (m : WriteMsg) : Prop where
  fits : m.block.length ≤ maxBlockSize
  /-- An empty block goes past the end of the area, and the area is open. -/
  continues : ∀ k, Continues s m.imageId k → (s.mcubootCtx k).fap ≠ none ∧
    (m.block = [] → ∀ a, stagingArea cfg m.imageId = some a → cfg.areaSize a < m.blockOffset)
  /-- The first block of an update is not empty and lies in the area. -/
  starts : Starts s m.imageId → m.block ≠ [] ∧ ∀ a, stagingArea cfg m.imageId = some a →
    m.blockOffset + m.block.length ≤ cfg.areaSize a

/-! ## The entries of the shim -/

/-- An entry with an area is an entry of that area. -/
def ShimInv (s : St cfg) : Prop :=
  ∀ k b, (s.mcubootCtx k).fap = some b → (s.mcubootCtx k).mcubootImageId = b

theorem shimInv_congr {s s' : St cfg} (h : ShimInv s) (hm : s'.mcubootCtx = s.mcubootCtx) :
    ShimInv s' := by
  intro k b hk
  rw [hm] at hk ⊢
  exact h k b hk

theorem shimInv_setMcuboot {s : St cfg} (h : ShimInv s) (k : Fin cfg.maxImages) (c : McubootCtx)
    (hc : ∀ b, c.fap = some b → c.mcubootImageId = b) : ShimInv (s.setMcuboot k c) := by
  intro j b hj
  by_cases hjk : j = k
  · subst hjk
    simp only [St.setMcuboot, Function.update_self] at hj ⊢
    exact hc b hj
  · simp only [St.setMcuboot, Function.update_of_ne hjk] at hj ⊢
    exact h j b hj

theorem shimInv_flashOp {s : St cfg} (h : ShimInv s) (a : Area) (c : Nat → UInt8) (r : FlashRes) :
    ShimInv (flashOp s a c r).2 :=
  shimInv_congr h (flashOp_touch s a c r).2

/-- An operation on the entry of an image keeps the invariant if what it does there
does. -/
theorem shimInv_withArea {s : St cfg} (h : ShimInv s) (bl : UInt8)
    (f : Fin cfg.maxImages → Area → Reply × St cfg) (hf : ∀ k a, ShimInv (f k a).2) :
    ShimInv (withArea s bl f).2 := by
  unfold withArea
  split
  · exact h
  split
  · exact h
  split
  · exact shimInv_congr h rfl
  · exact hf _ _

theorem shimInv_stagingAreaInit {s : St cfg} (h : ShimInv s) (bl : UInt8) (e : Env) :
    ShimInv (stagingAreaInit s bl e).2 := by
  unfold stagingAreaInit
  split
  · exact h
  rename_i mid _
  split
  · exact h
  split
  · exact h
  rename_i k _
  have hk := shimInv_setMcuboot h k ⟨some mid, mid, 0⟩ fun b hb => Option.some.inj hb
  have := shimInv_flashOp hk mid (fun _ => cfg.erased) e.erase
  rw [flashAreaErase]
  split
  all_goals
    rename_i heq
    rw [heq] at this
    exact this

theorem shimInv_loadImage {s : St cfg} (h : ShimInv s) (bl : UInt8) (off : Nat)
    (data : List UInt8) (e : Env) : ShimInv (loadImage s bl off data e).2 := by
  refine shimInv_withArea h bl _ fun k a => ?_
  have hw : ShimInv (flashAreaWrite s a off data e.write).2 :=
    shimInv_congr h (flashAreaWrite_touch s a off data e.write).2
  split
  · rename_i heq
    rw [heq] at hw
    exact hw
  · rename_i s₁ heq
    rw [heq] at hw
    exact shimInv_setMcuboot hw k _ fun b hb => hw k b hb

theorem shimInv_installImage {s : St cfg} (h : ShimInv s) (bl : UInt8) (e : Env) :
    ShimInv (installImage s bl e).2 := by
  refine shimInv_withArea h bl _ fun k a => ?_
  have hw := shimInv_flashOp h a (overlay (s.flash a) (cfg.magicOff a) cfg.magic) e.magic
  split
  · exact h
  rw [bootWriteMagic]
  split
  all_goals
    rename_i heq
    rw [heq] at hw
    exact hw

theorem shimInv_bootloaderAbort {s : St cfg} (h : ShimInv s) (bl : UInt8) (e : Env) :
    ShimInv (bootloaderAbort s bl e).2 := by
  refine shimInv_withArea h bl _ fun k a => ?_
  have hw := shimInv_flashOp h a (fun _ => cfg.erased) e.erase
  exact shimInv_setMcuboot hw k _ nofun

theorem shimInv_internalWrite {s : St cfg} (h : ShimInv s) (id : ImageId) (off : Nat)
    (data : List UInt8) (e : Env) : ShimInv (internalWrite s id off data e).2 := by
  rw [internalWrite]
  split
  · exact h
  · exact shimInv_loadImage h _ off data e

theorem shimInv_write {s : St cfg} (h : ShimInv s) (id : ImageId) (off : Nat) (data : List UInt8)
    (e : Env) : ShimInv (writeIpc s id off data e).2 := by
  rw [writeIpc]
  split
  · exact shimInv_congr h rfl
  split
  · split
    · exact h
    · exact shimInv_internalWrite h id off data e
  split
  · exact h
  have hinit : ShimInv (internalInitialize s id e).2 := by
    rw [internalInitialize]
    split
    · exact h
    · exact shimInv_stagingAreaInit h _ e
  split
  · rename_i j _ _ s₁ heq
    rw [heq] at hinit
    have hset : ShimInv (s₁.setFwu j ⟨id, .candidate, true⟩) := shimInv_congr hinit rfl
    exact shimInv_internalWrite hset id off data e
  · rename_i heq
    rw [heq] at hinit
    exact hinit

theorem shimInv_install {s : St cfg} (h : ShimInv s) (id : ImageId) (e : Env) :
    ShimInv (installIpc s id e).2 := by
  rw [installIpc]
  split
  · exact h
  split
  · exact h
  have hi : ShimInv (internalInstall s id e).2 := by
    rw [internalInstall]
    split
    · exact h
    · exact shimInv_installImage h _ e
  generalize internalInstall s id e = rs at hi
  obtain ⟨r, s₁⟩ := rs
  cases r <;> exact shimInv_congr hi rfl

theorem shimInv_abort {s : St cfg} (h : ShimInv s) (id : ImageId) (e : Env) :
    ShimInv (abortIpc s id e).2 := by
  rw [abortIpc]
  split
  · exact h
  split
  swap
  · exact h
  have ha : ShimInv (internalAbort s id e).2 := by
    rw [internalAbort]
    split
    · exact h
    · exact shimInv_bootloaderAbort h _ e
  split
  · rename_i heq
    rw [heq] at ha
    exact shimInv_congr ha rfl
  · rename_i heq
    rw [heq] at ha
    exact ha

theorem record_mcubootCtx (l : Lbl) (rs : Reply × St cfg) :
    (record l rs).mcubootCtx = rs.2.mcubootCtx := by
  unfold record
  split <;> rfl

theorem shimInv_step {s : St cfg} {l : Lbl} (h : ShimInv s) : ShimInv (record l (handle s l)) := by
  refine shimInv_congr ?_ (record_mcubootCtx l _)
  obtain ⟨req, e⟩ := l
  cases req with
  | malformed => exact h
  | write id off data => exact shimInv_write h id off data e
  | install id => exact shimInv_install h id e
  | query id => exact h
  | abort id => exact shimInv_abort h id e

theorem shimInv_inductive : (lts cfg).Inductive ShimInv where
  init := by
    intro s hx k b hk
    obtain ⟨f, rfl⟩ := hx
    cases hk
  step := by
    intro s l s' h hs
    simp only [lts, LTS.ofFn, step] at hs
    split at hs
    · cases hs
    · cases hs
      exact shimInv_step h

/-! ## One write -/

section Shim

variable {s : St cfg} {bl : UInt8} {a : Area} {k : Fin cfg.maxImages}

/-- The block at an entry whose area is open. -/
theorem loadImage_open {off : Nat} {data : List UInt8} {e : Env}
    (hbl : convertIdFromBlToMcuboot cfg bl = some a) (hk : getFlashImageIndex s a = some k)
    (hf : (s.mcubootCtx k).fap = some a) :
    loadImage s bl off data e =
      if cfg.areaSize a < off + data.length then (.error .genericError, s)
      else match e.write with
        | .done => (.success, (s.setArea a (overlay (s.flash a) off data)).setMcuboot k
            { s.mcubootCtx k with
              loadedSize := ((s.mcubootCtx k).loadedSize + data.length) % 2 ^ 32 })
        | .failed left => (.error .genericError, s.setArea a left) := by
  simp only [loadImage, withArea, hbl, hk, hf, flashAreaWrite]
  by_cases hsz : cfg.areaSize a < off + data.length
  · simp only [if_pos hsz]
  · simp only [if_neg hsz]
    cases e.write with
    | done => simp only [flashOp, St.setArea, hf]
    | failed left => rfl

/-- The entry of a new update. -/
theorem stagingAreaInit_entry {e : Env} (hbl : convertIdFromBlToMcuboot cfg bl = some a)
    (hk : (getFlashImageIndex s a).or (getNextFreeArea s) = some k) :
    stagingAreaInit s bl e =
      if e.openOk then
        match e.erase with
        | .done => (.success, (s.setMcuboot k ⟨some a, a, 0⟩).setArea a fun _ => cfg.erased)
        | .failed left => (.error .genericError, (s.setMcuboot k ⟨some a, a, 0⟩).setArea a left)
      else (.error .genericError, s) := by
  simp only [stagingAreaInit, hbl, hk, flashAreaErase]
  cases e.openOk with
  | false => rfl
  | true =>
    cases e.erase with
    | done => rfl
    | failed left => rfl

/-- The entry that is taken for a new update is the first of its image. -/
theorem getFlashImageIndex_entry {c : McubootCtx}
    (hk : (getFlashImageIndex s a).or (getNextFreeArea s) = some k) (hc : c.mcubootImageId = a) :
    getFlashImageIndex (s.setMcuboot k c) a = some k := by
  refine getFlashImageIndex_setMcuboot ?_ hc
  cases hi : getFlashImageIndex s a with
  | none => exact .inr rfl
  | some i =>
    rw [hi, Option.some_or] at hk
    exact .inl hk

end Shim

theorem overlay_block (c : Nat → UInt8) (off : Nat) (data : List UInt8) (i : Nat)
    (h : i < data.length) : overlay c off data (off + i) = data.get ⟨i, h⟩ := by
  simp [overlay, h]

theorem overlay_rest (c : Nat → UInt8) (off : Nat) (data : List UInt8) (j : Nat)
    (h : j < off ∨ off + data.length ≤ j) : overlay c off data j = c j := by
  unfold overlay
  split
  · rw [List.getElem?_eq_none (by omega)]
    rfl
  · rfl

section Write

variable {s : St cfg} {id : ImageId} {off : Nat} {data : List UInt8}

/-- A block of a legal size that does not get to an area. -/
theorem write_refused (off : Nat) (hlen : data.length ≤ maxBlockSize) (hc : ∀ k, ¬ Continues s id k)
    (hs : ¬ Starts s id) (e : Env) :
    (writeIpc s id off data e).1.IsError ∧ (writeIpc s id off data e).2 = s := by
  rw [writeIpc, if_neg (by omega)]
  cases hi : getImageIndex s id with
  | some i =>
    dsimp only
    by_cases hst : (s.fwuCtx i).imageState ≠ .candidate ∧ (s.fwuCtx i).imageState ≠ .rejected
    · rw [if_pos hst]
      exact ⟨trivial, rfl⟩
    rw [if_neg hst, internalWrite]
    by_cases hslot : imageSlot id = slotStage
    case neg =>
      rw [if_pos hslot]
      exact ⟨trivial, rfl⟩
    rw [if_neg (not_not.mpr hslot), loadImage, withArea]
    cases ha : convertIdFromBlToMcuboot cfg (imageType id) with
    | none => exact ⟨trivial, rfl⟩
    | some a =>
      dsimp only
      cases hk : getFlashImageIndex s a with
      | none => exact ⟨trivial, rfl⟩
      | some k =>
        -- the entry is there, so the write does get to an area
        have hst' : (s.fwuCtx i).imageState = .candidate ∨ (s.fwuCtx i).imageState = .rejected := by
          by_contra hn
          exact hst (not_or.mp hn)
        exact absurd ⟨⟨i, hi, hst'⟩, hslot, a, ha, hk⟩ (hc k)
  | none =>
    dsimp only
    cases hj : getNextFreeIndex s with
    | none => exact ⟨trivial, rfl⟩
    | some j =>
      dsimp only
      rw [internalInitialize]
      by_cases hslot : imageSlot id = slotStage
      case neg =>
        rw [if_pos hslot]
        exact ⟨trivial, rfl⟩
      rw [if_neg (not_not.mpr hslot), stagingAreaInit]
      cases ha : convertIdFromBlToMcuboot cfg (imageType id) with
      | none => exact ⟨trivial, rfl⟩
      | some a =>
        dsimp only
        cases e.openOk with
        | false => exact ⟨trivial, rfl⟩
        | true =>
          cases hk : (getFlashImageIndex s a).or (getNextFreeArea s) with
          | none => exact ⟨trivial, rfl⟩
          | some k =>
            refine absurd ⟨hi, ?_, hslot, a, ha, ?_⟩ hs
            · rw [hj]
              exact Option.some_ne_none j
            · rw [hk]
              exact Option.some_ne_none k

/-- A block of an update in process goes to the shim. -/
theorem write_continues (off : Nat) {k : Fin cfg.maxImages} (hlen : data.length ≤ maxBlockSize)
    (h : Continues s id k) (e : Env) :
    writeIpc s id off data e = loadImage s (imageType id) off data e := by
  obtain ⟨⟨i, hi, hst⟩, hslot, -⟩ := h
  rw [writeIpc, if_neg (by omega), hi]
  dsimp only
  rw [if_neg, internalWrite, if_neg (not_not.mpr hslot)]
  exact fun hn => hst.elim hn.1 hn.2

/-- A new update has an entry in both tables, and its area is erased. -/
def started (s : St cfg) (id : ImageId) (j k : Fin cfg.maxImages) (a : Area) : St cfg :=
  ((s.setMcuboot k ⟨some a, a, 0⟩).setArea a fun _ => cfg.erased).setFwu j ⟨id, .candidate, true⟩

theorem started_entry (id : ImageId) (j : Fin cfg.maxImages) {k : Fin cfg.maxImages} {a : Area}
    (hk : (getFlashImageIndex s a).or (getNextFreeArea s) = some k) :
    getFlashImageIndex (started s id j k a) a = some k ∧
      ((started s id j k a).mcubootCtx k).fap = some a :=
  ⟨getFlashImageIndex_entry hk rfl, by simp [started, St.setFwu, St.setArea, St.setMcuboot]⟩

theorem write_starts (off : Nat) (hlen : data.length ≤ maxBlockSize) (h : Starts s id) :
    ∃ a j k, stagingArea cfg id = some a ∧ (s.fwuCtx j).inUse = false ∧
      (getFlashImageIndex s a).or (getNextFreeArea s) = some k ∧
      ∀ e, writeIpc s id off data e =
        if e.openOk then
          match e.erase with
          | .done => loadImage (started s id j k a) (imageType id) off data e
          | .failed left => (.error .genericError, (s.setMcuboot k ⟨some a, a, 0⟩).setArea a left)
        else (.error .genericError, s) := by
  obtain ⟨hi, hj, hslot, a, ha, hk⟩ := h
  obtain ⟨j, hj⟩ := Option.ne_none_iff_exists'.mp hj
  obtain ⟨k, hk⟩ := Option.ne_none_iff_exists'.mp hk
  refine ⟨a, j, k, ha, by simpa using Fin.eq_true_of_find?_eq_some hj, hk, fun e => ?_⟩
  rw [writeIpc, if_neg (by omega), hi, hj]
  dsimp only
  rw [internalInitialize, if_neg (not_not.mpr hslot), stagingAreaInit_entry ha hk]
  cases e.openOk with
  | false => rfl
  | true =>
    cases e.erase with
    | done =>
      simp only [if_true]
      rw [internalWrite, if_neg (not_not.mpr hslot)]
      rfl
    | failed left => rfl

end Write

/-- What the shim leaves when it accepts the block of a message. -/
theorem loadImage_stored {s s₁ : St cfg} {m : WriteMsg} {a : Area} {k : Fin cfg.maxImages} {e : Env}
    (hbl : stagingArea cfg m.imageId = some a) (hk : getFlashImageIndex s₁ a = some k)
    (hf : (s₁.mcubootCtx k).fap = some a) (ha : s₁.flash a = before s m.imageId a)
    (ho : ∀ b, b ≠ a → s₁.flash b = s.flash b)
    (h : (loadImage s₁ (imageType m.imageId) m.blockOffset m.block e).1 = .success) :
    Stored s m a (loadImage s₁ (imageType m.imageId) m.blockOffset m.block e).2 := by
  rw [loadImage_open hbl hk hf] at h ⊢
  by_cases hsz : cfg.areaSize a < m.blockOffset + m.block.length
  · rw [if_pos hsz] at h
    cases h
  rw [if_neg hsz] at h ⊢
  cases he : e.write with
  | failed left =>
    rw [he] at h
    cases h
  | done =>
    have hflash : (s₁.setArea a (overlay (s₁.flash a) m.blockOffset m.block)).flash a =
        overlay (s₁.flash a) m.blockOffset m.block := Function.update_self _ _ _
    refine ⟨by omega, fun i hi => ?_, fun j hj => ?_, fun b hb => ?_⟩
    · exact (congrFun hflash _).trans (overlay_block _ _ _ i hi)
    · refine (congrFun hflash _).trans ?_
      rw [overlay_rest _ _ _ j hj, ha]
    · exact (Function.update_of_ne hb _ _).trans (ho b hb)

/-- The shim's write never has a fault when the area is open. -/
theorem loadImage_fault {s : St cfg} {bl : UInt8} {a : Area} {k : Fin cfg.maxImages} {off : Nat}
    {data : List UInt8} {e : Env} (hbl : convertIdFromBlToMcuboot cfg bl = some a)
    (hk : getFlashImageIndex s a = some k) (hf : (s.mcubootCtx k).fap = some a) :
    (loadImage s bl off data e).2.fault = s.fault := by
  rw [loadImage_open hbl hk hf]
  split
  · rfl
  · cases e.write <;> rfl

/-! ## The contract, message by message -/

section Law

variable {s : St cfg} {m : WriteMsg}

theorem tfmFwuWriteIpc_shaped (hm : m.Shaped) (e : Env) :
    tfmFwuWriteIpc s m e = writeIpc s m.imageId m.blockOffset m.block e := by
  rw [tfmFwuWriteIpc, if_pos hm]

theorem law_of_not_shaped (hf : s.fault = none) (hm : ¬ m.Shaped) : WriteLaw s m := by
  have heq : ∀ e, tfmFwuWriteIpc s m e = (.error .programmerError, s) := fun e => by
    rw [tfmFwuWriteIpc, if_neg hm]
  refine ⟨fun e => ?_, fun _ e => ?_, fun e h => ?_⟩
  · rw [heq]
    exact hf
  · rw [heq]
    exact ⟨trivial, rfl⟩
  · rw [heq] at h
    cases h

/-- A block that goes to the open area of an update in process. -/
theorem law_continues (hi : ShimInv s) (hf : s.fault = none) (hm : m.Shaped) (h : Expected s m)
    {k : Fin cfg.maxImages} (hc : Continues s m.imageId k) : WriteLaw s m := by
  have heq : ∀ e, tfmFwuWriteIpc s m e =
      loadImage s (imageType m.imageId) m.blockOffset m.block e := fun e => by
    rw [tfmFwuWriteIpc_shaped hm, write_continues _ h.fits hc]
  obtain ⟨hopen, hempty⟩ := h.continues k hc
  obtain ⟨⟨i, hidx, -⟩, -, a, ha, hk⟩ := hc
  have hfap : (s.mcubootCtx k).fap = some a := by
    obtain ⟨b, hb⟩ := Option.ne_none_iff_exists'.mp hopen
    rw [hb, ← hi k b hb, (getFlashImageIndex_iff.mp hk).1]
  refine ⟨fun e => ?_, fun hbad e => ?_, fun e hr => ⟨a, ha, ?_⟩⟩
  · rw [heq, loadImage_fault ha hk hfap, hf]
  · have hout : cfg.areaSize a < m.blockOffset + m.block.length := by
      obtain he | hlong | ⟨b, hb, hout⟩ := hbad
      · have := hempty he a ha
        omega
      · exact absurd h.fits (by omega)
      · rw [ha] at hb
        cases hb
        exact hout
    rw [heq, loadImage_open ha hk hfap, if_pos hout]
    exact ⟨trivial, rfl⟩
  · rw [heq] at hr ⊢
    refine loadImage_stored ha hk hfap ?_ (fun _ _ => rfl) hr
    rw [before, if_neg (by rw [hidx]; exact Option.some_ne_none i)]

/-- The first block of an update. -/
theorem law_starts (hf : s.fault = none) (hm : m.Shaped) (h : Expected s m)
    (hs : Starts s m.imageId) : WriteLaw s m := by
  obtain ⟨a, j, k, ha, -, hk, heq⟩ := write_starts m.blockOffset h.fits hs
  obtain ⟨hne, hin⟩ := h.starts hs
  obtain ⟨hk, hfap⟩ := started_entry m.imageId j hk
  have hflash : (started s m.imageId j k a).flash a = before s m.imageId a := by
    rw [before, if_pos hs.1]
    exact Function.update_self _ _ _
  have hother : ∀ b, b ≠ a → (started s m.imageId j k a).flash b = s.flash b := fun b hb =>
    Function.update_of_ne hb _ _
  refine ⟨fun e => ?_, fun hbad e => ?_, fun e hr => ⟨a, ha, ?_⟩⟩
  · rw [tfmFwuWriteIpc_shaped hm, heq]
    cases e.openOk with
    | false => exact hf
    | true =>
      cases e.erase with
      | failed left => exact hf
      | done => exact (loadImage_fault ha hk hfap).trans hf
  · obtain he | hlong | ⟨b, hb, hout⟩ := hbad
    · exact absurd he hne
    · exact absurd h.fits (by omega)
    · have := hin b hb
      omega
  · rw [tfmFwuWriteIpc_shaped hm, heq] at hr ⊢
    cases ho : e.openOk with
    | false =>
      rw [ho] at hr
      cases hr
    | true =>
      cases he : e.erase with
      | failed left =>
        rw [ho, he] at hr
        cases hr
      | done =>
        rw [ho, he] at hr
        exact loadImage_stored ha hk hfap hflash hother hr

theorem law_of_expected (hi : ShimInv s) (hf : s.fault = none) (hm : m.Shaped) (h : Expected s m) :
    WriteLaw s m := by
  by_cases hc : ∃ k, Continues s m.imageId k
  · obtain ⟨k, hk⟩ := hc
    exact law_continues hi hf hm h hk
  by_cases hs : Starts s m.imageId
  · exact law_starts hf hm h hs
  have hr : ∀ e, (tfmFwuWriteIpc s m e).1.IsError ∧ (tfmFwuWriteIpc s m e).2 = s := fun e => by
    rw [tfmFwuWriteIpc_shaped hm]
    exact write_refused _ h.fits (not_exists.mp hc) hs e
  refine ⟨fun e => ?_, fun _ => hr, fun e hsucc => ?_⟩
  · rw [(hr e).2, hf]
  · have := (hr e).1
    rw [hsucc] at this
    exact absurd this id

/-- With a flash that works, what breaks the expectations breaks the contract. -/
theorem expected_of_law (hi : ShimInv s) (hm : m.Shaped) (h : WriteLaw s m) : Expected s m := by
  have heq := tfmFwuWriteIpc_shaped (s := s) hm
  have hfits : m.block.length ≤ maxBlockSize := by
    by_contra hlong
    have := h.safe goodFlash
    rw [heq, writeIpc, if_pos (by omega)] at this
    cases this
  refine ⟨hfits, fun k hc => ?_, fun hs => ?_⟩
  · have hload := fun e => (heq e).trans (write_continues _ hfits hc e)
    obtain ⟨-, -, a, ha, hk⟩ := hc
    have hopen : (s.mcubootCtx k).fap ≠ none := by
      intro hnone
      have := h.safe goodFlash
      rw [hload] at this
      simp only [loadImage, withArea, stagingArea] at ha this
      simp only [ha, hk, hnone] at this
      cases this
    refine ⟨hopen, fun he b hb => ?_⟩
    rw [ha] at hb
    cases hb
    by_contra hin
    obtain ⟨b, hb⟩ := Option.ne_none_iff_exists'.mp hopen
    have hfap : (s.mcubootCtx k).fap = some a := by
      rw [hb, ← hi k b hb, (getFlashImageIndex_iff.mp hk).1]
    have hr := (h.refused (.inl he) goodFlash).1
    rw [hload, loadImage_open ha hk hfap, if_neg (by rw [he, List.length_nil]; omega)] at hr
    exact hr
  · -- the table of the request manager shows that the update has started
    obtain ⟨a, j, k, ha, hfree, hk, hst⟩ := write_starts m.blockOffset hfits hs
    have hbad : ¬ Bad cfg m := by
      intro hbad
      have hsame := (h.refused hbad goodFlash).2
      obtain ⟨hk, hfap⟩ := started_entry m.imageId j hk
      have hctx : (tfmFwuWriteIpc s m goodFlash).2.fwuCtx = (started s m.imageId j k a).fwuCtx := by
        rw [heq, hst]
        exact (loadImage_touch m.blockOffset m.block goodFlash ha ⟨k, hk, hfap⟩).1.fwuCtx
      rw [hsame] at hctx
      rw [hctx] at hfree
      simp [started, St.setFwu] at hfree
    refine ⟨fun he => hbad (.inl he), fun b hb => ?_⟩
    by_contra hout
    exact hbad (.inr (.inr ⟨b, hb, by omega⟩))

end Law

/-- **When a write is validated.** In every reachable state, and for a message with any
image id, offset and sizes of the vectors, the contract holds whatever the flash does
exactly when the first two vectors have the wrong size or: the block has at most
`PSA_FWU_MAX_BLOCK_SIZE` bytes; if it is for an update in process, the area is open and
the block is not empty, unless its offset is past the end; and if it starts an update,
it is not empty and lies in the area. -/
theorem write_validated_iff (cfg : Cfg) (s : St cfg) (h : (lts cfg).Reachable s)
    (hf : s.fault = none) (m : WriteMsg) : WriteLaw s m ↔ ¬ m.Shaped ∨ Expected s m := by
  have hi := shimInv_inductive.reachable s h
  constructor
  · intro hl
    by_cases hm : m.Shaped
    · exact .inr (expected_of_law hi hm hl)
    · exact .inl hm
  · intro hm
    by_cases hs : m.Shaped
    · exact law_of_expected hi hf hs (hm.resolve_left (not_not.mpr hs))
    · exact law_of_not_shaped hf hs

theorem write_validated_first :
    (tfmFwuWriteIpc (St.init demoCfg fun _ _ => 0) ⟨4, 4, secureId, 8, [0xAA]⟩ goodFlash).1 =
      .success ∧
    WriteLaw (St.init demoCfg fun _ _ => 0) ⟨4, 4, secureId, 8, [0xAA]⟩ := by
  refine ⟨by decide +kernel, ?_⟩
  refine (write_validated_iff demoCfg _ (.init ⟨_, rfl⟩) rfl _).mpr (.inr ⟨by decide, ?_, ?_⟩)
  · intro k h
    obtain ⟨⟨i, hi, -⟩, -⟩ := h
    have hnone : getImageIndex (St.init demoCfg fun _ _ => 0) secureId = none := by decide +kernel
    rw [hnone] at hi
    cases hi
  · intro _
    refine ⟨by decide, fun a _ => ?_⟩
    change 8 + 1 ≤ 64
    decide

/-- The first message of an update: a block of 1025 bytes overruns the buffer; one that
crosses the end of the area is answered with an error, but the area is erased; an empty
one is accepted. -/
theorem write_too_long :
    (tfmFwuWriteIpc (St.init demoCfg fun _ _ => 0) ⟨4, 4, secureId, 0, List.replicate 1025 0xAA⟩
      goodFlash).2.fault = some .overrun ∧
    ((tfmFwuWriteIpc (St.init demoCfg fun _ _ => 0) ⟨4, 4, secureId, 60, List.replicate 8 0xAA⟩
      goodFlash).1 = .error .genericError ∧
     (tfmFwuWriteIpc (St.init demoCfg fun _ _ => 0) ⟨4, 4, secureId, 60, List.replicate 8 0xAA⟩
      goodFlash).2.flash 0 0 = 0xFF) ∧
    (tfmFwuWriteIpc (St.init demoCfg fun _ _ => 0) ⟨4, 4, secureId, 0, []⟩ goodFlash).1 =
      .success ∧
    ¬ ∀ (cfg : Cfg) (s : St cfg), (lts cfg).Reachable s → s.fault = none →
      ∀ m : WriteMsg, WriteLaw s m := by
  have hlong : (tfmFwuWriteIpc (St.init demoCfg fun _ _ => 0)
      ⟨4, 4, secureId, 0, List.replicate 1025 0xAA⟩ goodFlash).2.fault = some .overrun := by
    decide +kernel
  refine ⟨hlong, by decide +kernel, by decide +kernel, fun h => ?_⟩
  have := (h demoCfg (St.init demoCfg fun _ _ => 0) (.init ⟨_, rfl⟩) rfl
    ⟨4, 4, secureId, 0, List.replicate 1025 0xAA⟩).safe goodFlash
  rw [hlong] at this
  cases this

end Tfm.L4.Fwu
