import Tfm.Core.ReadFault
import Tfm.L4Service.ItsService

/-!
# ITS where reads of the flash fail

Any of the reads of a `tfm_its_set` or `tfm_its_get_info` can fail: the driver reports an
error, and `its_flash_nor_read` and the others make `PSA_ERROR_STORAGE_FAILURE` of it.

The search for a file fails with the first read that fails. `its_flash_fs_file_get_info`
takes that for a file that is not there, and `tfm_its_set` then goes on. For the search of
`its_flash_fs_file_write` the two are not the same, but its second read of the entry, if
it fails, is also a file that is not there.

Results: the calls of the filesystem are strict (`strict_fileWrite`), so that one whose reads
fail leaves the flash as a power cut does (`runOn_strict`); which reads make the searches
miss a file that there is (`Mounted.faulty_fileGetInfo`, `Mounted.faulty_fileWrite`).
-/
namespace Tfm.L4.Its
open Tfm.BlockDev Tfm.Bytes

/-! ## After a read that failed -/

section Strict

variable (c : Cfg) {E : PsaStatus → Prop}

theorem strict_readFileMeta (h : E .storageFailure) (i : Nat) :
    Strict .storageFailure E (readFileMeta c i) :=
  strictTo_get fun _ => strict_bind (strict_call h _) fun _ =>
    strict_ite (fun _ => strictTo_throw) fun _ => strictTo_pure

theorem strict_readBlockMetadata (h : E .storageFailure) (l : Nat) :
    Strict .storageFailure E (readBlockMetadata c l) :=
  strictTo_get fun _ => strict_bind (strict_call h _) fun _ =>
    strict_ite (fun _ => strictTo_throw) fun _ => strictTo_pure

theorem strict_move (h : E .storageFailure) (dst src : Nat) (fuel : Nat) :
    ∀ doff soff size,
      Strict .storageFailure E (blockToBlockMoveLoop dst src fuel doff soff size) := by
  induction fuel with
  | zero => exact fun _ _ _ => strictTo_pure
  | succ fuel ih =>
    intro doff soff size
    refine strict_ite (fun _ => strictTo_pure) fun _ => ?_
    exact strict_bind (strict_call h _) fun _ => strict_bind (strict_call h _) fun _ => ih _ _ _

theorem strict_blockToBlockMove (h : E .storageFailure) (dst doff src soff size : Nat) :
    Strict .storageFailure E (blockToBlockMove dst doff src soff size) :=
  strict_move h dst src size doff soff size

theorem strict_eraseScratchBlocks (h : E .storageFailure) :
    Strict .storageFailure E (eraseScratchBlocks c) :=
  strictTo_get fun _ => strict_bind (strict_call h _) fun _ => strict_ite
    (fun _ => strict_bind (strict_call h _) fun _ => strictTo_pure) fun _ => strictTo_pure

theorem strict_writeScratchBlockMeta (h : E .storageFailure) (l : Nat) (m : BlockMeta) :
    Strict .storageFailure E (writeScratchBlockMeta c l m) :=
  strictTo_get fun _ => strict_bind (strict_call h _) fun _ => strictTo_pure

theorem strict_updateScratchFileMeta (h : E .storageFailure) (i : Nat) (m : FileMeta) :
    Strict .storageFailure E (updateScratchFileMeta c i m) :=
  strictTo_get fun _ => strict_bind (strict_call h _) fun _ => strictTo_pure

theorem strict_writeScratchMetaHeader (h : E .storageFailure) :
    Strict .storageFailure E (writeScratchMetaHeader c) :=
  strict_bind strictTo_modify fun _ => strictTo_get fun _ => strict_bind (strict_call h _)
    fun _ => strictTo_pure

theorem strict_cpFileMeta (h : E .storageFailure) (i j : Nat) :
    Strict .storageFailure E (cpFileMeta c i j) :=
  strictTo_get fun _ => strict_blockToBlockMove h _ _ _ _ _

theorem strict_findFileLoop (h : E .genericError) (p : FileMeta → Bool) (n : Nat) :
    ∀ i, Strict .storageFailure E (findFileLoop c p n i) := by
  induction n with
  | zero => exact fun _ => strictTo_throw
  | succ n ih =>
    intro i
    refine strict_bind (strict_recast (G := fun _ => True) (strict_readFileMeta c trivial i) h)
      fun m => strict_ite (fun _ => strictTo_pure) fun _ => ih (i + 1)

theorem strict_copyRemainingBlockMeta (h : E .storageFailure) (hg : E .genericError) (l : Nat) :
    Strict .storageFailure E (copyRemainingBlockMeta c l) := by
  refine strictTo_get fun x => ?_
  have hrest := strict_blockToBlockMove h x.scratchMetablock (c.blockMetaOffset (l + 1))
    x.activeMetablock (c.blockMetaOffset (l + 1))
    (sub32 (c.fileMetaOffset 0) (c.blockMetaOffset (l + 1)))
  dsimp only
  split
  · refine strict_bind (strict_recast (G := fun _ => True)
      (strict_readBlockMetadata c trivial 0) hg) fun m => strict_bind (strict_recast
        (G := fun _ => True) (strict_writeScratchBlockMeta c trivial 0 _) hg) fun _ => ?_
    split
    · exact strict_bind (strict_blockToBlockMove h _ _ _ _ _) fun _ => hrest
    · exact hrest
  · exact hrest

theorem strict_updateScratchBlockMeta (h : E .storageFailure) (hg : E .genericError) (l : Nat)
    (b : BlockMeta) : Strict .storageFailure E (updateScratchBlockMeta c l b) :=
  strictTo_get fun _ => strict_bind (strict_recast (G := fun _ => True)
    (strict_writeScratchBlockMeta c trivial _ _) hg) fun _ => strict_copyRemainingBlockMeta c h hg l

theorem strict_metaUpdateFinalize (h : E .storageFailure) :
    Strict .storageFailure E (metaUpdateFinalize c) :=
  strict_bind (strict_writeScratchMetaHeader c h) fun _ => strict_bind (strict_call h _) fun _ =>
    strict_bind strictTo_modify fun _ => strict_eraseScratchBlocks c h

theorem strict_migrate (h : E .storageFailure) :
    Strict .storageFailure E (migrateLb0DataToScratch c) :=
  strict_bind (strict_readBlockMetadata c h 0) fun _ => strictTo_get fun _ =>
    strict_blockToBlockMove h _ _ _ _ _

theorem strict_reserveLoop (hg : E .genericError) (fid size flags n : Nat) :
    ∀ i, Strict .storageFailure E (mblockReserveFileLoop c fid size flags n i) := by
  induction n with
  | zero => exact fun _ => strictTo_throw
  | succ n ih =>
    intro i
    refine strict_bind (strict_recast (G := fun _ => True)
      (strict_readBlockMetadata c trivial i) hg) fun b => ?_
    exact strict_ite (fun _ => strictTo_pure) fun _ => ih (i + 1)

theorem readsTo_readFileMeta (i : Nat) : ReadsTo (fun _ => True) (readFileMeta c i) := by
  refine readsTo_get fun x => readsTo_bind (P := fun _ => True) (readsTo_read fun _ => trivial)
    (fun l _ => ?_) fun _ _ => trivial
  dsimp only
  split
  · exact readsTo_throw trivial
  · exact readsTo_pure trivial

/-- The search for a free entry takes an entry that cannot be read for the end. -/
theorem readsTo_freeLoop (n : Nat) : ∀ spare i,
    ReadsTo (fun r => ∃ o, r = .ok o) (getFreeFileIndexLoop c spare n i) := by
  induction n with
  | zero => exact fun _ _ => readsTo_pure ⟨none, rfl⟩
  | succ n ih =>
    intro spare i
    refine readsTo_bind (P := fun r => ∃ a, r = .ok a) (readsTo_attempt
      (readsTo_readFileMeta c i) fun r _ => ⟨r, rfl⟩) (fun r _ => ?_) fun e' he => ?_
    · cases r with
      | error e' => exact readsTo_pure ⟨none, rfl⟩
      | ok m =>
        dsimp only
        split
        · exact ih spare (i + 1)
        · split
          · exact readsTo_pure ⟨some i, rfl⟩
          · exact ih true (i + 1)
    · obtain ⟨a, ha⟩ := he
      cases ha

theorem strictTo_freeLoop (n : Nat) : ∀ spare i,
    StrictTo .storageFailure (fun r => r = .ok none) (getFreeFileIndexLoop c spare n i) := by
  induction n with
  | zero => exact fun _ _ => strictTo_pure
  | succ n ih =>
    intro spare i
    refine strictTo_bind (P := fun r => ∃ e', r = .ok (.error e'))
      (strictTo_attempt (strict_readFileMeta c (E := fun _ => True) trivial i) fun r hr => ?_)
      (fun r hr => ?_) (fun e' he => ?_) fun r => ?_
    · obtain ⟨e', rfl, -⟩ := hr
      exact ⟨e', rfl⟩
    · obtain ⟨e', he⟩ := hr
      cases he
      exact readsTo_pure rfl
    · obtain ⟨e'', he⟩ := he
      cases he
    · cases r with
      | error e' => exact strictTo_pure
      | ok m =>
        dsimp only
        split
        · exact ih spare (i + 1)
        · split
          · exact strictTo_pure
          · exact ih true (i + 1)

theorem strict_reserveFile (hi : E .insufficientStorage) (fid : Nat) (spare : Bool)
    (size flags : Nat) : Strict .storageFailure E (reserveFile c fid spare size flags) := by
  refine strict_attempt (G := fun _ => True) (strict_reserveLoop c trivial fid size flags
    c.numActiveDblocks 0) (fun e' _ => ?_) fun res => ?_
  · refine readsTo_bind (readsTo_freeLoop c c.maxNumFiles spare 0) (fun idx _ => ?_)
      fun e'' he => ?_
    · exact readsTo_throw ⟨_, rfl, hi⟩
    · obtain ⟨o, ho⟩ := he
      cases ho
  · refine strictTo_bind (strictTo_freeLoop c c.maxNumFiles spare 0) (fun idx he => ?_)
      (fun e' he => nomatch he) fun idx => ?_
    · cases he
      cases res <;> exact readsTo_throw ⟨_, rfl, hi⟩
    · cases res with
      | error e' => exact strictTo_throw
      | ok r => cases idx <;> first | exact strictTo_throw | exact strictTo_pure

theorem strict_dblockWriteFile (h : E .storageFailure) (b : BlockMeta) (m : FileMeta)
    (offset size : Nat) (data : Nat → UInt8) :
    Strict .storageFailure E (dblockWriteFile c b m offset size data) := by
  refine strictTo_get fun x => strict_bind (strict_blockToBlockMove h _ _ _ _ _) fun _ =>
    strict_bind (strict_call h _) fun _ => strict_bind (strict_blockToBlockMove h _ _ _ _ _)
      fun _ => strict_ite (fun _ => ?_) fun _ => strictTo_pure
  exact strict_bind (strict_call h _) fun _ => strictTo_pure

theorem strict_dblockCompactBlock (h : E .storageFailure) (hg : E .genericError)
    (l freeSize src dst size : Nat) :
    Strict .storageFailure E (dblockCompactBlock c l freeSize src dst size) := by
  have hmove : ∀ scratch doff phys soff n, Strict .storageFailure E
      (recast .genericError (blockToBlockMove scratch doff phys soff n)) := fun _ _ _ _ _ =>
    strict_recast (G := fun _ => True) (strict_blockToBlockMove trivial _ _ _ _ _) hg
  have hdata : ∀ scratch b, Strict .storageFailure E
      (dblockCompactData scratch b src dst size) := by
    intro scratch b
    refine strict_ite (fun _ => strict_bind (hmove _ _ _ _ _) fun _ => ?_) fun _ => ?_
    · exact strict_ite (fun _ => hmove _ _ _ _ _) fun _ => strictTo_pure
    · exact strict_ite (fun _ => hmove _ _ _ _ _) fun _ => strictTo_pure
  refine strict_bind (strict_readBlockMetadata c h l) fun b => strictTo_get fun x =>
    strict_bind (hdata _ _) fun _ => strict_bind strictTo_modify fun _ => ?_
  refine strict_attempt (strict_updateScratchBlockMeta c h hg l _) (fun e' he => ?_) fun r => ?_
  · exact fun _ => ⟨e', rfl, he⟩
  · cases r with
    | error e' => exact strict_bind strictTo_modify fun _ => strictTo_throw
    | ok u =>
      refine strict_ite (fun _ => ?_) fun _ => strictTo_pure
      exact strict_bind (strict_call h _) fun _ => strictTo_pure

theorem strict_deleteIdxLoop (h : E .storageFailure) (del l dataIdx size n : Nat) :
    ∀ i src nbr, Strict .storageFailure E (deleteIdxLoop c del l dataIdx size n i src nbr) := by
  induction n with
  | zero => exact fun _ _ _ => strictTo_pure
  | succ n ih =>
    intro i src nbr
    refine strict_ite (fun _ => ih _ _ _) fun _ =>
      strict_bind (strict_readFileMeta c h i) fun m => ?_
    exact strict_bind (strict_updateScratchFileMeta c h _ _) fun _ => ih _ _ _

theorem strict_deleteIdx (h : E .storageFailure) (hg : E .genericError) (del : Nat) :
    Strict .storageFailure E (deleteIdx c del) := by
  have hlast : ∀ r : Nat × Nat, ∀ m : FileMeta, Strict .storageFailure E (do
      dblockCompactBlock c m.lblock m.maxSize r.1 m.dataIdx r.2
      if m.lblock ≠ 0 then recast .genericError (migrateLb0DataToScratch c)
      metaUpdateFinalize c) := by
    intro r m
    refine strict_bind (strict_dblockCompactBlock c h hg _ _ _ _ _) fun _ => ?_
    split
    · exact strict_bind (strict_recast (G := fun _ => True) (strict_migrate c trivial) hg)
        fun _ => strict_metaUpdateFinalize c h
    · exact strict_metaUpdateFinalize c h
  refine strict_bind (strict_readFileMeta c h del) fun m => ?_
  have hgo : Strict .storageFailure E (do
      updateScratchFileMeta c del .zero
      let r ← deleteIdxLoop c del m.lblock m.dataIdx m.maxSize c.maxNumFiles 0 c.blockSize 0
      dblockCompactBlock c m.lblock m.maxSize r.1 m.dataIdx r.2
      if m.lblock ≠ 0 then recast .genericError (migrateLb0DataToScratch c)
      metaUpdateFinalize c) :=
    strict_bind (strict_updateScratchFileMeta c h _ _) fun _ =>
      strict_bind (strict_deleteIdxLoop c h _ _ _ _ _ _ _ _) fun r => hlast r m
  dsimp only
  split
  · exact strict_bind strictTo_throw fun _ => hgo
  · exact hgo

theorem strict_fileWriteReserve (hg : E .genericError) (hi : E .insufficientStorage)
    (fid flags maxSize : Nat) (old : Option Nat) (reuse : Option (Nat × FileMeta)) :
    Strict .storageFailure E (fileWriteReserve c fid flags maxSize old reuse) := by
  cases reuse with
  | none =>
    refine strict_ite (fun _ => strict_bind strictTo_throw fun _ => ?_) fun _ => ?_
    · exact strict_reserveFile c hi fid _ maxSize flags
    · exact strict_reserveFile c hi fid _ maxSize flags
  | some r =>
    exact strict_bind (strict_recast (G := fun _ => True) (strict_readBlockMetadata c trivial _) hg)
      fun _ => strictTo_pure

theorem strict_fileWriteAlignedData (b : BlockMeta) (m : FileMeta) (offset size : Nat)
    (data : Nat → UInt8) :
    Strict .storageFailure (fun _ => True) (fileWriteAlignedData c b m offset size data) := by
  have hwrite := strict_dblockWriteFile c (E := fun _ => True) trivial b m offset
    (c.aligned size) data
  refine strict_ite (fun _ => strict_bind strictTo_throw fun _ => ?_) fun _ => ?_
  · refine strict_ite (fun _ => strict_bind strictTo_throw fun _ => ?_) fun _ => ?_
    · exact strict_ite (fun _ => strict_bind strictTo_throw fun _ => hwrite) fun _ => hwrite
    · exact strict_ite (fun _ => strict_bind strictTo_throw fun _ => hwrite) fun _ => hwrite
  · refine strict_ite (fun _ => strict_bind strictTo_throw fun _ => ?_) fun _ => ?_
    · exact strict_ite (fun _ => strict_bind strictTo_throw fun _ => hwrite) fun _ => hwrite
    · exact strict_ite (fun _ => strict_bind strictTo_throw fun _ => hwrite) fun _ => hwrite

theorem strict_fileWriteData (hg : E .genericError) (m : FileMeta) (b : BlockMeta)
    (dataSize offset : Nat) (data : Nat → UInt8) :
    Strict .storageFailure E (fileWriteData c m b dataSize offset data) := by
  refine strict_ite (fun _ => strictTo_pure) fun _ => ?_
  exact strict_bind (strict_recast (strict_fileWriteAlignedData c b m offset dataSize data) hg)
    fun _ => strictTo_get fun _ => strict_bind strictTo_modify fun _ => strictTo_pure

theorem strict_fileWriteTable (h : E .storageFailure) (old : Option Nat) (new : Nat)
    (m : FileMeta) : Strict .storageFailure E (fileWriteTable c old new m) := by
  refine strict_bind (strict_updateScratchFileMeta c h new m) fun _ => ?_
  have hcp := strict_cpFileMeta c h
  cases old with
  | none => exact strict_bind (hcp _ _) fun _ => hcp _ _
  | some old =>
    refine strict_bind (hcp _ _) fun _ => strict_ite (fun _ => ?_) fun _ => hcp _ _
    exact strict_bind (hcp _ _) fun _ => hcp _ _

/-- `its_flash_fs_file_write` after it looked for the old file.
mirrors secure_fw/partitions/internal_trusted_storage/flash_fs/its_flash_fs.c:319-439 -/
def fileWriteUpdate (fid flags maxSize dataSize offset : Nat) (data : Nat → UInt8)
    (r : Option Nat × Option (Nat × FileMeta)) : M Unit := do
  let (new, m, b) ← fileWriteReserve c fid flags maxSize r.1 r.2
  let (m, b) ← fileWriteData c m b dataSize offset data
  recast .genericError (updateScratchBlockMeta c m.lblock b)
  recast .genericError (fileWriteTable c r.1 new m)
  if m.lblock ≠ 0 ∨ dataSize = 0 then recast .genericError (migrateLb0DataToScratch c)
  metaUpdateFinalize c
  match r.1 with
  | some old => if old ≠ new then deleteIdx c old
  | none => pure ()

theorem fileWrite_eq (fid flags maxSize dataSize offset : Nat) (data : Nat → UInt8)
    (hf : flags &&& internalFlagsMask = 0) : fileWrite c fid flags maxSize dataSize offset data =
      fileWriteLookup c fid flags (c.aligned maxSize) >>=
        fileWriteUpdate c fid flags (c.aligned maxSize) dataSize offset data := by
  unfold fileWrite
  rw [if_neg (not_not.2 hf)]
  rfl

/-- No error of the update says that the file is not there. -/
theorem strict_fileWriteUpdate (h : E .storageFailure) (hg : E .genericError)
    (hi : E .insufficientStorage) (fid flags maxSize dataSize offset : Nat) (data : Nat → UInt8)
    (r : Option Nat × Option (Nat × FileMeta)) :
    Strict .storageFailure E (fileWriteUpdate c fid flags maxSize dataSize offset data r) := by
  have hend : ∀ new, Strict .storageFailure E (do
      metaUpdateFinalize c
      match r.1 with
      | some old => if old ≠ new then deleteIdx c old
      | none => pure ()) := by
    intro new
    refine strict_bind (strict_metaUpdateFinalize c h) fun _ => ?_
    split
    · exact strict_ite (fun _ => strict_deleteIdx c h hg _) fun _ => strictTo_pure
    · exact strictTo_pure
  refine strict_bind (strict_fileWriteReserve c hg hi _ _ _ _ _) fun p =>
    strict_bind (strict_fileWriteData c hg _ _ _ _ _) fun q => ?_
  refine strict_bind (strict_recast (strict_updateScratchBlockMeta c (E := fun _ => True) trivial
    trivial _ _) hg) fun _ => strict_bind (strict_recast (strict_fileWriteTable c
      (E := fun _ => True) trivial _ _ _) hg) fun _ => strict_ite (fun _ => ?_) fun _ => hend _
  exact strict_bind (strict_recast (strict_migrate c (E := fun _ => True) trivial) hg)
    fun _ => hend _

theorem strict_fileWriteLookup (hg : E .genericError) (hn : E .doesNotExist)
    (fid flags maxSize : Nat) :
    Strict .storageFailure E (fileWriteLookup c fid flags maxSize) := by
  refine strict_attempt (strict_findFileLoop c (E := fun e => e = .genericError) rfl _ _ _)
    (fun e' he => ?_) fun r => ?_
  · subst he
    exact readsTo_throw ⟨_, rfl, hg⟩
  · cases r with
    | ok old =>
      refine strict_bind (strict_recast (strict_readFileMeta c (E := fun _ => True) trivial _) hn)
        fun m => strict_ite (fun _ => strict_ite (fun _ => strictTo_pure) fun _ => ?_)
          fun _ => strictTo_pure
      exact strict_bind (strict_recast (strict_updateScratchFileMeta c (E := fun _ => True) trivial
        _ _) hg) fun _ => strictTo_pure
    | error e' =>
      by_cases he : e' = .doesNotExist
      · subst he
        exact strict_ite (fun _ => strictTo_throw) fun _ => strictTo_pure
      · cases e' <;> first | exact strictTo_throw | exact absurd rfl he

/-- **A write of the filesystem is strict.** -/
theorem strict_fileWrite (fid flags maxSize dataSize offset : Nat) (data : Nat → UInt8) :
    Strict .storageFailure (fun _ => True)
      (fileWrite c fid flags maxSize dataSize offset data) := by
  have hgo : Strict .storageFailure (fun _ => True)
      (fileWriteLookup c fid flags (c.aligned maxSize) >>=
        fileWriteUpdate c fid flags (c.aligned maxSize) dataSize offset data) :=
    strict_bind (strict_fileWriteLookup c trivial trivial _ _ _) fun _ =>
      strict_fileWriteUpdate c trivial trivial trivial _ _ _ _ _ _ _
  by_cases hf : flags &&& internalFlagsMask = 0
  · rw [fileWrite_eq c fid flags maxSize dataSize offset data hf]
    exact hgo
  · unfold fileWrite
    rw [if_pos hf]
    exact strict_bind strictTo_throw fun _ => hgo

theorem strict_setLoop (buf fid : Nat) (data : Nat → UInt8) (fuel : Nat) :
    ∀ flags n offset, Strict .storageFailure (fun _ => True)
      (setLoop c buf fid data fuel flags n offset) := by
  induction fuel with
  | zero => exact fun _ _ _ => strictTo_pure
  | succ fuel ih =>
    intro flags n offset
    refine strict_bind (strict_fileWrite c _ _ _ _ _ _) fun _ => ?_
    exact strict_ite (fun _ => ih _ _ _) fun _ => strictTo_pure

end Strict

/-! ## Flash with reads that fail -/

section Faulty

variable {c : Cfg} {F : Nat → Bool} {y : Sys (Flash × Nat)} {t : Tab} {α β : Type}

/-- Flash of which the reads fail that `F` says, and the number of the next read. -/
abbrev faultyOps (c : Config) (F : Nat → Bool) : Dev PsaStatus (Flash × Nat) :=
  (memOps c).faulty .storageFailure F

/-- The filesystem, without the count of the reads. -/
abbrev uncount (y : Sys (Flash × Nat)) : Sys Flash := (y.1, y.2.1)

theorem memOps_readsOnly (c : Config) : (memOps c).ReadsOnly := by
  intro f b off n
  unfold memOps
  dsimp only
  split <;> rfl

theorem runOn_recast {δ : Type} (D : Dev PsaStatus δ) (e : PsaStatus) (m : M α) (y : Sys δ) :
    runOn D (recast e m) y = ((runOn D m y).1.mapError fun _ => e, (runOn D m y).2) := by
  unfold runOn recast
  dsimp only
  rw [Io.run_bind]
  rfl

/-- **A strict program**: the reads that fail are not noticed, or it fails where it could
have been cut. -/
theorem runOn_strict {E : PsaStatus → Prop} {m : M α} (h : Strict .storageFailure E m)
    (y : Sys (Flash × Nat)) :
    ((runOn (faultyOps c.toConfig F) m y).1 = (runOn (memOps c.toConfig) m (uncount y)).1 ∧
      uncount (runOn (faultyOps c.toConfig F) m y).2 =
        (runOn (memOps c.toConfig) m (uncount y)).2) ∨
    ∃ e, (runOn (faultyOps c.toConfig F) m y).1 = .error e ∧ E e ∧
      CutOf c m (uncount y) (runOn (faultyOps c.toConfig F) m y).2.2.1 := by
  rcases (h y.1).run (memOps_readsOnly c.toConfig) (Flash.tear c.toConfig) (F := F)
    (d := y.2.1) (n := y.2.2) with ⟨n, hrun⟩ | ⟨a, d, n, hrun, ⟨e, ha, hE⟩, hcut⟩
  · left
    unfold runOn
    dsimp only
    rw [hrun]
    exact ⟨rfl, rfl⟩
  · right
    unfold runOn
    dsimp only
    rw [hrun]
    exact ⟨e, ha, hE, hcut⟩

/-- One of the reads from number `n` up to `n + k` fails. -/
def Fails (F : Nat → Bool) (n k : Nat) : Prop := ∃ j, j ≤ k ∧ F (n + j) = true

instance (F : Nat → Bool) (n k : Nat) : Decidable (Fails F n k) :=
  inferInstanceAs (Decidable (∃ j, j ≤ k ∧ _))

theorem runOn_get {δ : Type} (D : Dev PsaStatus δ) (g : Ctx → M α) (y : Sys δ) :
    runOn D (get >>= g) y = runOn D (g y.1) y := rfl

theorem Mounted.faulty_readFileMeta (h : Mounted c (uncount y) t) {i : Nat}
    (hi : i < c.maxNumFiles) : runOn (faultyOps c.toConfig F) (readFileMeta c i) y =
      (if F y.2.2 then .error .storageFailure else .ok (t.fm i), (y.1, (y.2.1, y.2.2 + 1))) := by
  have hactive : y.1.activeMetablock = t.active := h.table.active
  have hin : c.inArea y.1.activeMetablock (c.fileMetaOffset i) c.fileMetaSize :=
    ⟨Nat.lt_of_lt_of_le (hactive ▸ h.layout.sane.active) c.two_le,
      Nat.le_trans (c.fileMetaOffset_lt hi) c.metaEnd_le⟩
  have hm : FileMeta.ofBytes (y.2.1.read y.1.activeMetablock (c.fileMetaOffset i) c.fileMetaSize) =
      t.fm i := h.table.fm i hi
  have hv := h.layout.sane.file_valid hi
  have hcall : runOn (faultyOps c.toConfig F) (call (.read y.1.activeMetablock (c.fileMetaOffset i)
      c.fileMetaSize) : M (List UInt8)) y = (if F y.2.2 then .error .storageFailure else
        .ok (y.2.1.read y.1.activeMetablock (c.fileMetaOffset i) c.fileMetaSize),
        (y.1, (y.2.1, y.2.2 + 1))) := by
    unfold runOn call faultyOps Dev.faulty memOps
    simp only [Io.run, if_pos hin]
    split <;> rfl
  unfold readFileMeta
  rw [runOn_get, runOn_bind, hcall]
  cases hF : F y.2.2 with
  | true => rfl
  | false =>
    simp only [Bool.false_eq_true, if_false, hm, hv, Bool.not_true, Bool.and_false]
    rfl

/-- The search for an entry that there is. -/
theorem Mounted.faulty_found {p : FileMeta → Bool} {k : Nat} (n : Nat) :
    ∀ {i : Nat} {y : Sys (Flash × Nat)}, Mounted c (uncount y) t → i + n ≤ c.maxNumFiles →
      findIdx t.fm p n i = some k →
      (Fails F y.2.2 (k - i) → ∃ m, runOn (faultyOps c.toConfig F) (findFileLoop c p n i) y =
        (.error .genericError, (y.1, (y.2.1, m)))) ∧
      (¬ Fails F y.2.2 (k - i) → runOn (faultyOps c.toConfig F) (findFileLoop c p n i) y =
        (.ok k, (y.1, (y.2.1, y.2.2 + (k - i) + 1)))) := by
  induction n with
  | zero => exact fun _ _ hf => nomatch hf
  | succ n ih =>
    intro i y h hi hf
    unfold findFileLoop
    rw [runOn_bind, runOn_recast, h.faulty_readFileMeta (by omega)]
    obtain ⟨hik, -, -⟩ := findIdx_lt _ hf
    unfold findIdx at hf
    by_cases hF : F y.2.2 = true
    · -- the first read fails
      rw [if_pos hF]
      refine ⟨fun _ => ⟨_, rfl⟩, fun hno => ?_⟩
      exact absurd ⟨0, Nat.zero_le _, hF⟩ hno
    rw [if_neg hF]
    simp only [Except.mapError]
    by_cases hp : p (t.fm i) = true
    · rw [if_pos hp] at hf
      cases hf
      rw [if_pos hp, Nat.sub_self]
      refine ⟨fun hfail => ?_, fun _ => rfl⟩
      obtain ⟨j, hj, hFj⟩ := hfail
      rw [Nat.le_zero.1 hj] at hFj
      exact absurd hFj hF
    · rw [if_neg hp] at hf ⊢
      obtain ⟨hik', -, -⟩ := findIdx_lt _ hf
      have hiff : Fails F y.2.2 (k - i) ↔ Fails F (y.2.2 + 1) (k - (i + 1)) := by
        constructor
        · intro hfail
          obtain ⟨j, hj, hFj⟩ := hfail
          cases j with
          | zero => exact absurd hFj hF
          | succ j =>
            refine ⟨j, by omega, ?_⟩
            rwa [Nat.add_assoc, Nat.add_comm 1 j]
        · intro hfail
          obtain ⟨j, hj, hFj⟩ := hfail
          refine ⟨j + 1, by omega, ?_⟩
          rwa [Nat.add_comm j 1, ← Nat.add_assoc]
      have hrest := ih (i := i + 1) (y := (y.1, (y.2.1, y.2.2 + 1))) h (by omega) hf
      rw [hiff]
      refine ⟨hrest.1, fun hno => ?_⟩
      rw [hrest.2 hno]
      dsimp only
      rw [show y.2.2 + 1 + (k - (i + 1)) = y.2.2 + (k - i) by omega]

/-- The search for an entry that there is not. -/
theorem Mounted.faulty_absent {p : FileMeta → Bool} (n : Nat) :
    ∀ {i : Nat} {y : Sys (Flash × Nat)}, Mounted c (uncount y) t → i + n ≤ c.maxNumFiles →
      findIdx t.fm p n i = none → ∃ e m, runOn (faultyOps c.toConfig F) (findFileLoop c p n i) y =
        (.error e, (y.1, (y.2.1, m))) := by
  induction n with
  | zero => exact fun {_ y} _ _ _ => ⟨.doesNotExist, y.2.2, rfl⟩
  | succ n ih =>
    intro i y h hi hf
    unfold findFileLoop
    unfold findIdx at hf
    rw [runOn_bind, runOn_recast, h.faulty_readFileMeta (by omega)]
    by_cases hp : p (t.fm i) = true
    · rw [if_pos hp] at hf
      cases hf
    rw [if_neg hp] at hf
    by_cases hF : F y.2.2 = true
    · rw [if_pos hF]
      exact ⟨_, _, rfl⟩
    · rw [if_neg hF]
      simp only [Except.mapError, if_neg hp]
      exact ih (i := i + 1) (y := (y.1, (y.2.1, y.2.2 + 1))) h (by omega) hf

/-- `its_flash_fs_file_get_info` of a file that there is, with number `k`. -/
theorem Mounted.faulty_fileGetInfo (h : Mounted c (uncount y) t) {fid k : Nat}
    (hk : t.find c fid = some k) :
    ∃ m, runOn (faultyOps c.toConfig F) (fileGetInfo c fid) y =
      (if Fails F y.2.2 k then .error .doesNotExist
        else if F (y.2.2 + k + 1) then .error .storageFailure
        else .ok ⟨(t.fm k).curSize, (t.fm k).maxSize, (t.fm k).flags &&& userFlagsMask⟩,
        (y.1, (y.2.1, m))) := by
  obtain ⟨hlt, hid⟩ := Tab.find_some hk
  have hsearch := Mounted.faulty_found (F := F) (p := fun m => m.id = fid) c.maxNumFiles h
    (by omega) hk
  unfold fileGetInfo getFileIdx
  rw [runOn_bind, runOn_recast]
  by_cases hfail : Fails F y.2.2 k
  · obtain ⟨m, hm⟩ := hsearch.1 hfail
    rw [hm, if_pos hfail]
    exact ⟨m, rfl⟩
  · rw [hsearch.2 hfail, if_neg hfail]
    simp only [Except.mapError]
    rw [runOn_bind, Mounted.faulty_readFileMeta (y := (y.1, (y.2.1, y.2.2 + (k - 0) + 1))) h hlt]
    by_cases hF : F (y.2.2 + k + 1) = true
    · rw [if_pos hF]
      simp only [Nat.sub_zero, if_pos hF]
      exact ⟨_, rfl⟩
    · rw [if_neg hF]
      simp only [Nat.sub_zero, if_neg hF, hid, ne_eq, not_true_eq_false, if_false]
      exact ⟨_, rfl⟩

/-- And of one that there is not. -/
theorem Mounted.faulty_fileGetInfo_absent (h : Mounted c (uncount y) t) {fid : Nat}
    (hk : t.find c fid = none) : ∃ m, runOn (faultyOps c.toConfig F) (fileGetInfo c fid) y =
      (.error .doesNotExist, (y.1, (y.2.1, m))) := by
  obtain ⟨e, m, hm⟩ := Mounted.faulty_absent (F := F) (p := fun m => m.id = fid) c.maxNumFiles h
    (by omega) hk
  unfold fileGetInfo getFileIdx
  rw [runOn_bind, runOn_recast, hm]
  exact ⟨m, rfl⟩

/-- The search of `its_flash_fs_file_write` for a file that there is. -/
theorem Mounted.faulty_lookup (h : Mounted c (uncount y) t) {fid k : Nat} (flags maxSize : Nat)
    (hk : t.find c fid = some k) :
    (runOn (faultyOps c.toConfig F) (fileWriteLookup c fid flags maxSize) y).1 =
        .error .doesNotExist ↔ ¬ Fails F y.2.2 k ∧ F (y.2.2 + k + 1) = true := by
  obtain ⟨hlt, -⟩ := Tab.find_some hk
  have hsearch := Mounted.faulty_found (F := F) (p := fun m => m.id = fid) c.maxNumFiles h
    (by omega) hk
  unfold fileWriteLookup getFileIdx
  rw [runOn_bind, runOn_attempt]
  by_cases hfail : Fails F y.2.2 k
  · obtain ⟨m, hm⟩ := hsearch.1 hfail
    rw [hm]
    simp only [hfail, not_true_eq_false, false_and, iff_false]
    exact nofun
  · rw [hsearch.2 hfail]
    simp only [hfail, not_false_eq_true, true_and, Nat.sub_zero]
    rw [runOn_bind, runOn_recast,
      Mounted.faulty_readFileMeta (y := (y.1, (y.2.1, y.2.2 + k + 1))) h hlt]
    dsimp only
    by_cases hF : F (y.2.2 + k + 1) = true
    · simp only [hF, if_true, Except.mapError]
    · simp only [hF, Bool.false_eq_true, if_false, Except.mapError, iff_false]
      split
      · split
        · exact nofun
        · rw [runOn_bind, runOn_recast]
          cases (runOn (faultyOps c.toConfig F) (updateScratchFileMeta c k _) _).1 with
          | ok u => exact nofun
          | error e => exact nofun
      · exact nofun

/-- Where the error of a sequence comes from. -/
theorem error_of_bind {r : Except PsaStatus α} {g : α → Except PsaStatus β} {e : PsaStatus}
    (h : (r >>= g) = .error e) : r = .error e ∨ ∃ a, r = .ok a ∧ g a = .error e := by
  cases r with
  | ok a => exact .inr ⟨a, rfl, h⟩
  | error e' =>
    cases h
    exact .inl rfl

/-- A write does not say of a file that there is that it is not there. -/
theorem Tab.write_found {fill : Option UInt8} {fid flags maxSize dataSize offset k : Nat}
    {data : Nat → UInt8} (hk : t.find c fid = some k) :
    t.write c fill fid flags maxSize dataSize offset data ≠ .error .doesNotExist := by
  have hlook : t.lookup c fid flags (c.aligned maxSize) ≠ .error .doesNotExist := by
    unfold Tab.lookup
    rw [hk]
    dsimp only
    split
    · split <;> exact nofun
    · exact nofun
  have hres : ∀ old reuse, t.reserve c fid flags (c.aligned maxSize) old reuse ≠
      .error .doesNotExist := by
    intro old reuse
    unfold Tab.reserve
    split
    · exact nofun
    · split
      · exact nofun
      · split <;> exact nofun
  have hdata : ∀ m b, t.writeData c fill m b dataSize offset data ≠ .error .doesNotExist := by
    intro m b
    unfold Tab.writeData
    split
    · exact nofun
    · split <;> exact nofun
  have hfirst : t.firstUpdate c fill fid flags maxSize dataSize offset data ≠
      .error .doesNotExist := by
    unfold Tab.firstUpdate
    split
    · exact nofun
    · intro he
      rcases error_of_bind he with he | ⟨⟨old, reuse⟩, -, he⟩
      · exact hlook he
      rcases error_of_bind he with he | ⟨⟨new, m, b⟩, -, he⟩
      · exact hres old reuse he
      rcases error_of_bind he with he | ⟨⟨m', dl⟩, -, he⟩
      · exact hdata m b he
      · cases he
  intro he
  rcases error_of_bind he with he | ⟨⟨t', old⟩, -, he⟩
  · exact hfirst he
  · cases old <;> cases he

/-- A write of a file that there is. -/
theorem Mounted.faulty_fileWrite (h : Mounted c (uncount y) t) (a : WriteArgs c.toConfig) {k : Nat}
    (hf : a.flags &&& internalFlagsMask = 0) (hk : t.find c a.fid.id = some k) :
    (runOn (faultyOps c.toConfig F)
        (fileWrite c a.fid.id a.flags a.maxSize a.dataSize a.offset a.data) y).1 =
      .error .doesNotExist ↔ ¬ Fails F y.2.2 k ∧ F (y.2.2 + k + 1) = true := by
  have hplain : (runOn (memOps c.toConfig)
      (fileWrite c a.fid.id a.flags a.maxSize a.dataSize a.offset a.data) (uncount y)).1 ≠
        .error .doesNotExist := by
    have hwp := fsWp_fileWrite (a := a) (t := t) (C := fun _ => True)
      (Q := fun r _ => r ≠ .error .doesNotExist) trivial (fun _ _ => ⟨nofun, trivial⟩)
      fun e he hne => by
        cases hne
        exact Tab.write_found hk he
    obtain ⟨⟨t', -, hr⟩, -⟩ := hwp _ h
    exact hr
  rw [← h.faulty_lookup a.flags (c.aligned a.maxSize) hk]
  rw [fileWrite_eq c a.fid.id a.flags a.maxSize a.dataSize a.offset a.data hf,
    runOn_bind] at hplain ⊢
  have hlook := runOn_strict (c := c) (F := F) (strict_fileWriteLookup c (E := fun _ => True)
    trivial trivial a.fid.id a.flags (c.aligned a.maxSize)) y
  revert hlook
  cases hr : (runOn (faultyOps c.toConfig F)
      (fileWriteLookup c a.fid.id a.flags (c.aligned a.maxSize)) y).1 with
  | error e =>
    intro _
    simp only [Except.error.injEq]
  | ok r =>
    intro hlook
    refine ⟨fun he => ?_, nofun⟩
    dsimp only at he
    rcases hlook with ⟨h1, h2⟩ | ⟨e, h1, -⟩
    · -- the update fails as it would, or with an error of its own
      rw [← h1] at hplain
      have hstrict := strict_fileWriteUpdate c (E := fun e => e ≠ .doesNotExist) nofun nofun nofun
        a.fid.id a.flags (c.aligned a.maxSize) a.dataSize a.offset a.data r
      rcases runOn_strict (c := c) (F := F) hstrict (runOn (faultyOps c.toConfig F)
        (fileWriteLookup c a.fid.id a.flags (c.aligned a.maxSize)) y).2
        with ⟨h3, -⟩ | ⟨e, h3, hne, -⟩
      · rw [h2] at h3
        exact absurd (h3.symm.trans he) hplain
      · rw [h3] at he
        cases he
        exact absurd rfl hne
    · cases h1

/-- A strict program that succeeds did not notice the reads that failed. -/
theorem Mounted.faulty_ok {m : M α} {a : α} {Q : Except PsaStatus α → Tab → Prop}
    {C : Tab → Prop} (h : Mounted c (uncount y) t) (hm : Strict .storageFailure (fun _ => True) m)
    (hwp : fsWp c m t Q C) (hok : (runOn (faultyOps c.toConfig F) m y).1 = .ok a) :
    ∃ t', Mounted c (uncount (runOn (faultyOps c.toConfig F) m y).2) t' ∧ Q (.ok a) t' := by
  obtain ⟨⟨t', ht', hQ⟩, -⟩ := hwp _ h
  rcases runOn_strict (c := c) (F := F) hm y with ⟨h1, h2⟩ | ⟨e, h1, -⟩
  · rw [← h1, hok] at hQ
    exact ⟨t', h2 ▸ ht', hQ⟩
  · rw [hok] at h1
    cases h1

end Faulty

end Tfm.L4.Its
