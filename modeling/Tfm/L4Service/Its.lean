import Tfm.Core.BlockDev
import Tfm.Core.Bytes
import Tfm.Core.Psa

/-!
# The ITS flash filesystem

Model of the filesystem of the Internal Trusted Storage partition: metadata blocks
(its_flash_fs_mblock.c), data blocks (its_flash_fs_dblock.c) and the file
operations (its_flash_fs.c), as programs over the flash operations of
`struct its_flash_fs_ops_t`.

`size_t` and `uint32_t` are numbers below 2^32, and arithmetic that could wrap is
written with `add32` and `sub32`. A structure on flash is its fields, little endian,
and then padding up to its size; the padding is written as zeros.

`ITS_METADATA_INVALID_INDEX` is `none`.
-/
namespace Tfm.L4.Its
open Tfm.BlockDev Tfm.Bytes

/-! ## Numbers -/

def add32 (x y : Nat) : Nat := (x + y) % 2 ^ 32

def sub32 (x y : Nat) : Nat := (x + 2 ^ 32 - y) % 2 ^ 32

/-- `ITS_UTILS_ALIGN`.
mirrors secure_fw/partitions/internal_trusted_storage/its_utils.h:52-60 -/
def align (x a : Nat) : Nat := add32 x (a - 1) &&& (2 ^ 32 - a)

/-- `ITS_UTILS_IS_ALIGNED`. -/
def isAligned (x a : Nat) : Bool := x &&& (a - 1) = 0

/-- mirrors secure_fw/partitions/internal_trusted_storage/its_utils.c:10-28 -/
def checkContainedIn (supersetSize subsetOffset subsetSize : Nat) : Bool :=
  subsetOffset ≤ supersetSize && subsetSize ≤ supersetSize - subsetOffset

/-! ## Configuration -/

/-- `struct its_flash_fs_config_t`, and the two settings of the build:
`ITS_FLASH_MAX_ALIGNMENT` and `ITS_VALIDATE_METADATA_FROM_FLASH`.
mirrors secure_fw/partitions/internal_trusted_storage/flash_fs/its_flash_fs.h:49-65 -/
structure Config where
  blockSize : Nat
  numBlocks : Nat
  programUnit : Nat
  maxFileSize : Nat
  maxNumFiles : Nat
  eraseVal : UInt8
  maxAlign : Nat
  validate : Bool
  blockSize_lt : blockSize < 2 ^ 16
  numBlocks_lt : numBlocks < 2 ^ 16
  programUnit_lt : programUnit < 2 ^ 16
  maxFileSize_lt : maxFileSize < 2 ^ 16
  maxNumFiles_lt : maxNumFiles < 2 ^ 16
  /-- "Minimum size of a program operation" -/
  programUnit_pos : 0 < programUnit

/-- The size of a structure of natural size `n`: rounded up for alignments that
are larger than that of its fields.
mirrors secure_fw/partitions/internal_trusted_storage/flash_fs/its_flash_fs_mblock.h:46-110 -/
def Config.sizeOf (c : Config) (n : Nat) : Nat :=
  if 4 < c.maxAlign then (n + c.maxAlign - 1) / c.maxAlign * c.maxAlign else n

/-- `ITS_BLOCK_META_HEADER_SIZE` -/
def Config.headerSize (c : Config) : Nat := c.sizeOf 8

/-- `ITS_BLOCK_METADATA_SIZE` -/
def Config.blockMetaSize (c : Config) : Nat := c.sizeOf 12

/-- `ITS_FILE_METADATA_SIZE` -/
def Config.fileMetaSize (c : Config) : Nat := c.sizeOf 32

/-- `its_init_scratch_dblock`.
mirrors secure_fw/partitions/internal_trusted_storage/flash_fs/its_flash_fs_mblock.c:46-55 -/
def Config.initScratchDblock (c : Config) : Nat := if c.numBlocks = 2 then 1 else 2

/-- `its_init_dblock_start`.
mirrors secure_fw/partitions/internal_trusted_storage/flash_fs/its_flash_fs_mblock.c:65-73 -/
def Config.initDblockStart (c : Config) : Nat := if c.numBlocks = 2 then 0 else 3

/-- `its_num_dedicated_dblocks`.
mirrors secure_fw/partitions/internal_trusted_storage/flash_fs/its_flash_fs_mblock.c:83-91 -/
def Config.numDedicatedDblocks (c : Config) : Nat :=
  if c.numBlocks = 2 then 0 else c.numBlocks - c.initDblockStart

/-- `its_num_active_dblocks`.
mirrors secure_fw/partitions/internal_trusted_storage/flash_fs/its_flash_fs_mblock.c:100-108 -/
def Config.numActiveDblocks (c : Config) : Nat := c.numDedicatedDblocks + 1

/-- `its_mblock_block_meta_offset` -/
def Config.blockMetaOffset (c : Config) (lblock : Nat) : Nat :=
  c.headerSize + lblock * c.blockMetaSize

/-- `its_mblock_file_meta_offset` -/
def Config.fileMetaOffset (c : Config) (idx : Nat) : Nat :=
  c.headerSize + c.numActiveDblocks * c.blockMetaSize + idx * c.fileMetaSize

/-- `its_flash_fs_num_active_dblocks`, the copy in its_flash_fs.c.
mirrors secure_fw/partitions/internal_trusted_storage/flash_fs/its_flash_fs.c:58-80 -/
def Config.fsNumActiveDblocks (c : Config) : Nat := if c.numBlocks = 2 then 1 else c.numBlocks - 2

/-- `its_flash_fs_all_metadata_size` -/
def Config.allMetadataSize (c : Config) : Nat :=
  c.headerSize + c.fsNumActiveDblocks * c.blockMetaSize + c.maxNumFiles * c.fileMetaSize

/-- `its_flash_fs_validate_config`.
mirrors secure_fw/partitions/internal_trusted_storage/flash_fs/its_flash_fs.c:101-142 -/
def validateConfig (c : Config) : Bool :=
  !(c.numBlocks < 2 || c.numBlocks = 3) &&
  !(c.numBlocks = 2 && sub32 c.blockSize c.allMetadataSize < c.maxFileSize) &&
  !(c.blockSize < c.maxFileSize) &&
  !(c.blockSize < c.allMetadataSize)

/-- A configuration that `its_flash_fs_init_ctx` accepts. -/
structure Cfg extends Config where
  accepted : validateConfig toConfig = true

/-! ## Metadata -/

/-- `struct its_metadata_block_header_t` -/
structure Header where
  scratchDblock : Nat
  fsVersion : UInt8
  activeSwapCount : UInt8
  deriving DecidableEq, Repr

/-- `struct its_block_meta_t` -/
structure BlockMeta where
  phyId : Nat
  dataStart : Nat
  freeSize : Nat
  deriving DecidableEq, Repr

/-- `struct its_file_meta_t`; the twelve bytes of the id are one number. -/
structure FileMeta where
  lblock : Nat
  dataIdx : Nat
  curSize : Nat
  maxSize : Nat
  flags : Nat
  id : Nat
  deriving DecidableEq, Repr

def FileMeta.zero : FileMeta := ⟨0, 0, 0, 0, 0, 0⟩

/-- `its_utils_validate_fid`: a file id is valid if it is not zero. -/
def FileMeta.used (m : FileMeta) : Bool := m.id ≠ 0

def Header.bytes (h : Header) : List UInt8 :=
  le 4 h.scratchDblock ++ [h.fsVersion, h.activeSwapCount]

def BlockMeta.bytes (m : BlockMeta) : List UInt8 :=
  le 4 m.phyId ++ (le 4 m.dataStart ++ le 4 m.freeSize)

def FileMeta.bytes (m : FileMeta) : List UInt8 :=
  le 4 m.lblock ++ (le 4 m.dataIdx ++ (le 4 m.curSize ++ (le 4 m.maxSize ++
    (le 4 m.flags ++ le 12 m.id))))

def pad (n : Nat) (l : List UInt8) : List UInt8 := l ++ List.replicate (n - l.length) 0

/-- The field of `n` bytes at `off`. -/
def field (l : List UInt8) (off n : Nat) : Nat := ofLe ((l.drop off).take n)

def Header.ofBytes (l : List UInt8) : Header := ⟨field l 0 4, l.getD 4 0, l.getD 5 0⟩

def BlockMeta.ofBytes (l : List UInt8) : BlockMeta := ⟨field l 0 4, field l 4 4, field l 8 4⟩

def FileMeta.ofBytes (l : List UInt8) : FileMeta :=
  ⟨field l 0 4, field l 4 4, field l 8 4, field l 12 4, field l 16 4, field l 20 12⟩

/-- `struct its_flash_fs_ctx_t` without configuration and operations. -/
structure Ctx where
  header : Header
  activeMetablock : Nat
  scratchMetablock : Nat
  deriving DecidableEq, Repr

/-- `its_flash_fs_init_ctx` zeroes the context. -/
def Ctx.zero : Ctx := ⟨⟨0, 0, 0⟩, 0, 0⟩

abbrev M := Prog PsaStatus Ctx

/-- `ITS_OTHER_META_BLOCK` -/
def otherMetaBlock (b : Nat) : Nat := if b = 0 then 1 else 0

/-! ## Metadata blocks (its_flash_fs_mblock.c) -/

section Mblock

variable (c : Cfg)

/-- mirrors secure_fw/partitions/internal_trusted_storage/flash_fs/its_flash_fs_mblock.c:144-151 -/
def swapMetablocks : M Unit :=
  modify fun x => { x with
    scratchMetablock := x.activeMetablock, activeMetablock := x.scratchMetablock }

/-- `its_mblock_latest_meta_block`. The sum `rollover_val + 1` is an `int`.
mirrors secure_fw/partitions/internal_trusted_storage/flash_fs/its_flash_fs_mblock.c:162-213 -/
def latestMetaBlock (h0 h1 : Header) : Nat :=
  let rolloverVal := if c.eraseVal = 0 then 1 else 0
  let n0 := h0.activeSwapCount.toNat
  let n1 := h1.activeSwapCount.toNat
  if n1 = rolloverVal ∧ n0 ≠ rolloverVal + 1 then 1
  else if n0 = rolloverVal ∧ n1 ≠ rolloverVal + 1 then 0
  else if n1 > n0 then 1
  else 0

/-- mirrors secure_fw/partitions/internal_trusted_storage/flash_fs/its_flash_fs_mblock.c:227-273 -/
def validateFileMeta (m : FileMeta) : Bool :=
  m.lblock < c.numActiveDblocks &&
  (!m.used ||
    m.maxSize ≤ c.maxFileSize && m.curSize ≤ m.maxSize &&
    (m.lblock ≠ 0 || c.fileMetaOffset c.maxNumFiles ≤ m.dataIdx) &&
    checkContainedIn c.blockSize m.dataIdx m.maxSize)

/-- mirrors secure_fw/partitions/internal_trusted_storage/flash_fs/its_flash_fs_mblock.c:286-324 -/
def validateBlockMeta (m : BlockMeta) : Bool :=
  m.phyId < c.numBlocks && checkContainedIn c.blockSize m.dataStart m.freeSize &&
  m.dataStart = if m.phyId = 0 ∨ m.phyId = 1 then c.fileMetaOffset c.maxNumFiles else 0

/-- mirrors secure_fw/partitions/internal_trusted_storage/flash_fs/its_flash_fs_mblock.c:898-917 -/
def readFileMeta (idx : Nat) : M FileMeta := do
  let x ← get
  let l ← call (.read x.activeMetablock (c.fileMetaOffset idx) c.fileMetaSize)
  let m := FileMeta.ofBytes l
  if c.validate && !validateFileMeta c m then throw .dataCorrupt else pure m

/-- mirrors secure_fw/partitions/internal_trusted_storage/flash_fs/its_flash_fs_mblock.c:919-938 -/
def readBlockMetadata (lblock : Nat) : M BlockMeta := do
  let x ← get
  let l ← call (.read x.activeMetablock (c.blockMetaOffset lblock) c.blockMetaSize)
  let m := BlockMeta.ofBytes l
  if c.validate && !validateBlockMeta c m then throw .dataCorrupt else pure m

/-- The loop of `its_get_free_file_index`, at index `i` with `n` entries to go.
mirrors secure_fw/partitions/internal_trusted_storage/flash_fs/its_flash_fs_mblock.c:337-366 -/
def getFreeFileIndexLoop (useSpare : Bool) : Nat → Nat → M (Option Nat)
  | 0, _ => pure none
  | n + 1, i => do
    match ← attempt (readFileMeta c i) with
    | .error _ => pure none
    | .ok m =>
      if m.used then getFreeFileIndexLoop useSpare n (i + 1)
      else if useSpare then pure (some i)
      -- the first free entry is kept as a spare
      else getFreeFileIndexLoop true n (i + 1)

def getFreeFileIndex (useSpare : Bool) : M (Option Nat) :=
  getFreeFileIndexLoop c useSpare c.maxNumFiles 0

/-- mirrors secure_fw/partitions/internal_trusted_storage/flash_fs/its_flash_fs_mblock.c:747-757 -/
def curDataScratchId (x : Ctx) (lblock : Nat) : Nat :=
  if lblock = 0 then x.scratchMetablock else x.header.scratchDblock

/-- The loop of `its_flash_fs_block_to_block_move`; every iteration moves a byte
at least.
mirrors secure_fw/partitions/internal_trusted_storage/flash_fs/its_flash_fs_mblock.c:1103-1141 -/
def blockToBlockMoveLoop (dstBlock srcBlock : Nat) : Nat → Nat → Nat → Nat → M Unit
  | 0, _, _, _ => pure ()
  | fuel + 1, dstOffset, srcOffset, size =>
    if size = 0 then pure () else do
      -- ITS_MAX_BLOCK_DATA_COPY
      let bytesToMove := min size 256
      let l ← call (.read srcBlock srcOffset bytesToMove)
      let _ ← call (.write dstBlock dstOffset l)
      blockToBlockMoveLoop dstBlock srcBlock fuel (add32 dstOffset bytesToMove)
        (add32 srcOffset bytesToMove) (size - bytesToMove)

def blockToBlockMove (dstBlock dstOffset srcBlock srcOffset size : Nat) : M Unit :=
  blockToBlockMoveLoop dstBlock srcBlock size dstOffset srcOffset size

/-- mirrors secure_fw/partitions/internal_trusted_storage/flash_fs/its_flash_fs_mblock.c:375-404 -/
def eraseScratchBlocks : M Unit := do
  let x ← get
  -- metadata first: a cut between the two leaves no stale metadata
  let _ ← call (.erase x.scratchMetablock)
  if 2 < c.numBlocks then
    let _ ← call (.erase (curDataScratchId x 1))

/-- `its_mblock_update_scratch_block_meta`, the static one.
mirrors secure_fw/partitions/internal_trusted_storage/flash_fs/its_flash_fs_mblock.c:416-428 -/
def writeScratchBlockMeta (lblock : Nat) (m : BlockMeta) : M Unit := do
  let x ← get
  let _ ← call (.write x.scratchMetablock (c.blockMetaOffset lblock) (pad c.blockMetaSize m.bytes))

/-- mirrors secure_fw/partitions/internal_trusted_storage/flash_fs/its_flash_fs_mblock.c:438-503 -/
def copyRemainingBlockMeta (lblock : Nat) : M Unit := do
  let x ← get
  if lblock ≠ 0 then
    let m ← recast .genericError (readBlockMetadata c 0)
    recast .genericError (writeScratchBlockMeta c 0 { m with phyId := x.scratchMetablock })
    if 1 < lblock then
      let pos := c.blockMetaOffset 1
      blockToBlockMove x.scratchMetablock pos x.activeMetablock pos (c.blockMetaOffset lblock - pos)
  let pos := c.blockMetaOffset (lblock + 1)
  blockToBlockMove x.scratchMetablock pos x.activeMetablock pos (sub32 (c.fileMetaOffset 0) pos)

/-- mirrors secure_fw/partitions/internal_trusted_storage/flash_fs/its_flash_fs_mblock.c:513-534 -/
def validateSwapCount (swapCount : UInt8) : Bool := swapCount ≠ c.eraseVal

/-- `its_mblock_validate_header_meta`, with `its_mblock_validate_fs_version`.
mirrors secure_fw/partitions/internal_trusted_storage/flash_fs/its_flash_fs_mblock.c:543-577 -/
def validateHeaderMeta (h : Header) : Bool :=
  h.fsVersion = 1 && validateSwapCount c h.activeSwapCount

/-- The swap count of the next update. -/
def nextSwapCount (n : UInt8) : UInt8 :=
  if validateSwapCount c (n + 1) then n + 1 else n + 2

/-- mirrors secure_fw/partitions/internal_trusted_storage/flash_fs/its_flash_fs_mblock.c:586-606 -/
def writeScratchMetaHeader : M Unit := do
  modify fun x => { x with header :=
    { x.header with activeSwapCount := nextSwapCount c x.header.activeSwapCount } }
  let x ← get
  let _ ← call (.write x.scratchMetablock 0 (pad c.headerSize x.header.bytes))

/-- mirrors secure_fw/partitions/internal_trusted_storage/flash_fs/its_flash_fs_mblock.c:615-628 -/
def readMetaHeader : M Unit := do
  let x ← get
  let l ← call (.read x.activeMetablock 0 c.headerSize)
  modify fun x => { x with header := .ofBytes l }
  if validateHeaderMeta c (.ofBytes l) then pure () else throw .genericError

/-- The loop of `its_mblock_reserve_file`, at block `i` with `n` blocks to go.
mirrors secure_fw/partitions/internal_trusted_storage/flash_fs/its_flash_fs_mblock.c:640-671 -/
def mblockReserveFileLoop (fid size flags : Nat) : Nat → Nat → M (FileMeta × BlockMeta)
  | 0, _ => throw .insufficientStorage
  | n + 1, i => do
    let b ← recast .genericError (readBlockMetadata c i)
    if size ≤ b.freeSize then
      pure (⟨i, sub32 c.blockSize b.freeSize, 0, size, flags, fid⟩,
        { b with freeSize := b.freeSize - size })
    else mblockReserveFileLoop fid size flags n (i + 1)

/-- A header that can be read and is valid. -/
def readHeader (b : Nat) : M (Header × Bool) := do
  match ← attempt (call (.read b 0 c.headerSize)) with
  | .ok l => pure (.ofBytes l, validateHeaderMeta c (.ofBytes l))
  | .error _ => pure (⟨0, 0, 0⟩, false)

/-- `its_init_get_active_metablock`.
mirrors secure_fw/partitions/internal_trusted_storage/flash_fs/its_flash_fs_mblock.c:680-728 -/
def initGetActiveMetablock : M Unit := do
  let (h0, v0) ← readHeader c 0
  let (h1, v1) ← readHeader c 1
  if !v0 && !v1 then throw .genericError
  else
    let cur := if v0 && v1 then latestMetaBlock c h0 h1 else if v1 then 1 else 0
    modify fun x => { x with activeMetablock := cur, scratchMetablock := otherMetaBlock cur }

/-- `its_flash_fs_mblock_update_scratch_file_meta`.
mirrors secure_fw/partitions/internal_trusted_storage/flash_fs/its_flash_fs_mblock.c:1088-1101 -/
def updateScratchFileMeta (idx : Nat) (m : FileMeta) : M Unit := do
  let x ← get
  let _ ← call (.write x.scratchMetablock (c.fileMetaOffset idx) (pad c.fileMetaSize m.bytes))

/-- mirrors secure_fw/partitions/internal_trusted_storage/flash_fs/its_flash_fs_mblock.c:730-745 -/
def cpFileMeta (idxStart idxEnd : Nat) : M Unit := do
  let x ← get
  let posStart := c.fileMetaOffset idxStart
  let posEnd := c.fileMetaOffset idxEnd
  blockToBlockMove x.scratchMetablock posStart x.activeMetablock posStart (sub32 posEnd posStart)

/-- The loop of `its_flash_fs_mblock_get_file_idx` and
`its_flash_fs_mblock_get_file_idx_flag`: the first entry with `p`. -/
def findFileLoop (p : FileMeta → Bool) : Nat → Nat → M Nat
  | 0, _ => throw .doesNotExist
  | n + 1, i => do
    let m ← recast .genericError (readFileMeta c i)
    if p m then pure i else findFileLoop p n (i + 1)

/-- mirrors secure_fw/partitions/internal_trusted_storage/flash_fs/its_flash_fs_mblock.c:759-782 -/
def getFileIdx (fid : Nat) : M Nat := findFileLoop c (fun m => m.id = fid) c.maxNumFiles 0

/-- mirrors secure_fw/partitions/internal_trusted_storage/flash_fs/its_flash_fs_mblock.c:784-807 -/
def getFileIdxFlag (flags : Nat) : M Nat :=
  findFileLoop c (fun m => m.flags &&& flags ≠ 0) c.maxNumFiles 0

/-- mirrors secure_fw/partitions/internal_trusted_storage/flash_fs/its_flash_fs_mblock.c:809-830 -/
def mblockInit : M Unit := do
  let _ ← call .init
  recast .genericError (initGetActiveMetablock c)
  recast .genericError (readMetaHeader c)
  eraseScratchBlocks c

/-- mirrors secure_fw/partitions/internal_trusted_storage/flash_fs/its_flash_fs_mblock.c:832-854 -/
def metaUpdateFinalize : M Unit := do
  writeScratchMetaHeader c
  let _ ← call .flush
  swapMetablocks
  eraseScratchBlocks c

/-- mirrors secure_fw/partitions/internal_trusted_storage/flash_fs/its_flash_fs_mblock.c:856-877 -/
def migrateLb0DataToScratch : M Unit := do
  let b ← readBlockMetadata c 0
  let x ← get
  blockToBlockMove x.scratchMetablock b.dataStart x.activeMetablock b.dataStart
    (sub32 (sub32 c.blockSize b.dataStart) b.freeSize)

/-- `its_flash_fs_mblock_reserve_file`: the entry, the file and its block.
mirrors secure_fw/partitions/internal_trusted_storage/flash_fs/its_flash_fs_mblock.c:940-962 -/
def reserveFile (fid : Nat) (useSpare : Bool) (size flags : Nat) :
    M (Nat × FileMeta × BlockMeta) := do
  let res ← attempt (mblockReserveFileLoop c fid size flags c.numActiveDblocks 0)
  let idx ← getFreeFileIndex c useSpare
  match res, idx with
  | .ok (m, b), some i => pure (i, m, b)
  | _, _ => throw .insufficientStorage

/-- mirrors secure_fw/partitions/internal_trusted_storage/flash_fs/its_flash_fs_mblock.c:1054-1062 -/
def setDataScratch (phyId lblock : Nat) : M Unit :=
  modify fun x =>
    if lblock ≠ 0 then { x with header := { x.header with scratchDblock := phyId } } else x

/-- `its_flash_fs_mblock_update_scratch_block_meta`.
mirrors secure_fw/partitions/internal_trusted_storage/flash_fs/its_flash_fs_mblock.c:1064-1086 -/
def updateScratchBlockMeta (lblock : Nat) (b : BlockMeta) : M Unit := do
  let x ← get
  let b := if lblock = 0 then { b with phyId := x.scratchMetablock } else b
  recast .genericError (writeScratchBlockMeta c lblock b)
  copyRemainingBlockMeta c lblock

/-- The first loop of `its_flash_fs_mblock_reset_metablock`: the rest is erased
also after an error. -/
def eraseDblocks : Nat → Nat → M Bool
  | 0, _ => pure true
  | n + 1, i => do
    let res ← attempt (call (.erase (i + c.initDblockStart)))
    let rest ← eraseDblocks n (i + 1)
    pure (res.isOk && rest)

/-- The second loop of `its_flash_fs_mblock_reset_metablock`. -/
def resetBlockMetas : Nat → Nat → M Unit
  | 0, _ => pure ()
  | n + 1, i => do
    writeScratchBlockMeta c (i + 1) ⟨i + c.initDblockStart, 0, c.blockSize⟩
    resetBlockMetas n (i + 1)

/-- The third loop of `its_flash_fs_mblock_reset_metablock`. -/
def resetFileMetas : Nat → Nat → M Unit
  | 0, _ => pure ()
  | n + 1, i => do
    updateScratchFileMeta c i .zero
    resetFileMetas n (i + 1)

/-- mirrors secure_fw/partitions/internal_trusted_storage/flash_fs/its_flash_fs_mblock.c:964-1052 -/
def resetMetablock : M Unit := do
  let first ← match ← attempt (initGetActiveMetablock c) with
    -- the active metadata block is erased last
    | .ok () => do pure (← get).scratchMetablock
    | .error _ => pure 0
  let _ ← call (.erase first)
  let _ ← call (.erase (otherMetaBlock first))
  modify fun _ =>
    ⟨⟨c.initScratchDblock, 1, if c.eraseVal = 0 then 1 else 0⟩, 0, 1⟩
  let dataStart := c.fileMetaOffset c.maxNumFiles
  writeScratchBlockMeta c 0 ⟨0, dataStart, c.blockSize - dataStart⟩
  if !(← eraseDblocks c c.numDedicatedDblocks 0) then throw .storageFailure
  recast .genericError (resetBlockMetas c c.numDedicatedDblocks 0)
  recast .genericError (resetFileMetas c c.maxNumFiles 0)
  recast .genericError (writeScratchMetaHeader c)
  let _ ← call .flush
  swapMetablocks

end Mblock

/-! ## Data blocks (its_flash_fs_dblock.c) -/

section Dblock

variable (c : Cfg)

/-- The data of `its_flash_fs_dblock_compact_block`.
mirrors secure_fw/partitions/internal_trusted_storage/flash_fs/its_flash_fs_dblock.c:58-85 -/
def dblockCompactData (scratchId : Nat) (b : BlockMeta) (srcOffset dstOffset size : Nat) :
    M Unit := do
  if 0 < size then
    recast .genericError (blockToBlockMove scratchId dstOffset b.phyId srcOffset size)
  if b.dataStart < dstOffset then
    recast .genericError
      (blockToBlockMove scratchId b.dataStart b.phyId b.dataStart (dstOffset - b.dataStart))

/-- The metadata of `its_flash_fs_dblock_compact_block`: the scratch block becomes the
block of `lblock`.
mirrors secure_fw/partitions/internal_trusted_storage/flash_fs/its_flash_fs_dblock.c:87-112 -/
def dblockCompactMeta (lblock scratchId : Nat) (b : BlockMeta) : M Unit := do
  setDataScratch b.phyId lblock
  match ← attempt (updateScratchBlockMeta c lblock { b with phyId := scratchId }) with
  | .error e => do
    setDataScratch scratchId lblock
    throw e
  | .ok () =>
    if lblock ≠ 0 then
      let _ ← call .flush

/-- mirrors secure_fw/partitions/internal_trusted_storage/flash_fs/its_flash_fs_dblock.c:34-112 -/
def dblockCompactBlock (lblock freeSize srcOffset dstOffset size : Nat) : M Unit := do
  let b ← readBlockMetadata c lblock
  let b := { b with freeSize := add32 b.freeSize freeSize }
  let scratchId := curDataScratchId (← get) lblock
  dblockCompactData scratchId b srcOffset dstOffset size
  dblockCompactMeta c lblock scratchId b

/-- mirrors secure_fw/partitions/internal_trusted_storage/flash_fs/its_flash_fs_dblock.c:114-133 -/
def dblockReadFile (m : FileMeta) (offset size : Nat) : M (List UInt8) := do
  -- its_dblock_lo_to_phy
  let b ← recast .genericError (readBlockMetadata c m.lblock)
  call (.read b.phyId (add32 m.dataIdx offset) size)

/-- mirrors secure_fw/partitions/internal_trusted_storage/flash_fs/its_flash_fs_dblock.c:135-191 -/
def dblockWriteFile (b : BlockMeta) (m : FileMeta) (offset size : Nat) (data : Nat → UInt8) :
    M Unit := do
  let x ← get
  let scratchId := curDataScratchId x m.lblock
  let pos := add32 m.dataIdx offset
  blockToBlockMove scratchId b.dataStart b.phyId b.dataStart (sub32 pos b.dataStart)
  let _ ← call (.write scratchId pos ((List.range size).map data))
  let pos := add32 m.dataIdx m.maxSize
  blockToBlockMove scratchId pos b.phyId pos (sub32 (sub32 c.blockSize b.freeSize) pos)
  if m.lblock ≠ 0 then
    let _ ← call .flush

end Dblock

/-! ## Files (its_flash_fs.c) -/

/-- `ITS_FLASH_FS_USER_FLAGS_MASK` -/
def userFlagsMask : Nat := 2 ^ 16 - 1

/-- `ITS_FLASH_FS_FLAG_CREATE` -/
def flagCreate : Nat := 2 ^ 16

/-- `ITS_FLASH_FS_FLAG_TRUNCATE` -/
def flagTruncate : Nat := 2 ^ 17

/-- `ITS_FLASH_FS_FLAG_DELETE`: the file is to be deleted in the next block update. -/
def flagDelete : Nat := 2 ^ 24

/-- `ITS_FLASH_FS_INTERNAL_FLAGS_MASK` -/
def internalFlagsMask : Nat := 2 ^ 32 - 2 ^ 24

/-- `struct its_file_info_t` -/
structure FileInfo where
  sizeCurrent : Nat
  sizeMax : Nat
  flags : Nat
  deriving DecidableEq, Repr

section Files

variable (c : Cfg)

/-- `max_size` and `size` as the filesystem sees them, aligned with the program
unit. -/
def Config.aligned (c : Config) (n : Nat) : Nat :=
  if c.maxAlign ≠ 1 then align n c.programUnit else n

/-- mirrors secure_fw/partitions/internal_trusted_storage/flash_fs/its_flash_fs.c:25-56 -/
def fileWriteAlignedData (b : BlockMeta) (m : FileMeta) (offset size : Nat) (data : Nat → UInt8) :
    M Unit := do
  if c.maxAlign ≠ 1 ∧ !isAligned offset c.programUnit then throw .invalidArgument
  let size := c.aligned size
  if m.curSize < offset then throw .invalidArgument
  if !checkContainedIn m.maxSize offset size then throw .invalidArgument
  dblockWriteFile c b m offset size data

/-- What the loop of `its_flash_fs_delete_idx` makes of an entry of the table, when
a file of `size` bytes at `dataIdx` of block `lblock` is deleted. -/
def shifted (lblock dataIdx size : Nat) (m : FileMeta) : FileMeta :=
  if m.lblock = lblock ∧ m.used ∧ dataIdx < m.dataIdx then
    { m with dataIdx := sub32 m.dataIdx size }
  else m

/-- The loop of `its_flash_fs_delete_idx`, at index `i` with `n` entries to go;
`src` and `nbr` are `src_offset` and `nbr_bytes_to_move`.
mirrors secure_fw/partitions/internal_trusted_storage/flash_fs/its_flash_fs.c:480-523 -/
def deleteIdxLoop (del lblock dataIdx size : Nat) : Nat → Nat → Nat → Nat → M (Nat × Nat)
  | 0, _, src, nbr => pure (src, nbr)
  | n + 1, i, src, nbr =>
    if i = del then deleteIdxLoop del lblock dataIdx size n (i + 1) src nbr
    else do
      let m ← readFileMeta c i
      let later := m.lblock = lblock ∧ m.used ∧ dataIdx < m.dataIdx
      updateScratchFileMeta c i (shifted lblock dataIdx size m)
      deleteIdxLoop del lblock dataIdx size n (i + 1)
        (if later ∧ m.dataIdx < src then m.dataIdx else src)
        (if later then add32 nbr m.maxSize else nbr)

/-- mirrors secure_fw/partitions/internal_trusted_storage/flash_fs/its_flash_fs.c:441-551 -/
def deleteIdx (del : Nat) : M Unit := do
  let m ← readFileMeta c del
  if !m.used then throw .doesNotExist
  updateScratchFileMeta c del .zero
  let (src, nbr) ← deleteIdxLoop c del m.lblock m.dataIdx m.maxSize c.maxNumFiles 0 c.blockSize 0
  dblockCompactBlock c m.lblock m.maxSize src m.dataIdx nbr
  if m.lblock ≠ 0 then recast .genericError (migrateLb0DataToScratch c)
  metaUpdateFinalize c

/-- `its_flash_fs_prepare`.
mirrors secure_fw/partitions/internal_trusted_storage/flash_fs/its_flash_fs.c:166-189 -/
def prepare : M Unit := do
  mblockInit c
  match ← attempt (getFileIdxFlag c flagDelete) with
  | .ok idx => deleteIdx c idx
  | .error .doesNotExist => pure ()
  | .error e => throw e

/-- mirrors secure_fw/partitions/internal_trusted_storage/flash_fs/its_flash_fs.c:191-195 -/
def wipeAll : M Unit := resetMetablock c

/-- mirrors secure_fw/partitions/internal_trusted_storage/flash_fs/its_flash_fs.c:211-241 -/
def fileGetInfo (fid : Nat) : M FileInfo := do
  let idx ← recast .doesNotExist (getFileIdx c fid)
  let m ← readFileMeta c idx
  if m.id ≠ fid then throw .doesNotExist
  pure ⟨m.curSize, m.maxSize, m.flags &&& userFlagsMask⟩

/-- The first part of `its_flash_fs_file_write`, on a file that exists or not: the
index of the old file, and the entry that is written if that one is reused.
mirrors secure_fw/partitions/internal_trusted_storage/flash_fs/its_flash_fs.c:271-317 -/
def fileWriteLookup (fid flags maxSize : Nat) : M (Option Nat × Option (Nat × FileMeta)) := do
  match ← attempt (getFileIdx c fid) with
  | .ok oldIdx => do
    let m ← recast .doesNotExist (readFileMeta c oldIdx)
    if flags &&& flagTruncate ≠ 0 then
      if m.maxSize = maxSize then
        pure (some oldIdx, some (oldIdx, { m with curSize := 0, flags := flags }))
      else do
        -- the old file is deleted in a second update, or by the next prepare
        recast .genericError
          (updateScratchFileMeta c oldIdx { m with flags := m.flags ||| flagDelete })
        pure (some oldIdx, none)
    else pure (some oldIdx, some (oldIdx, m))
  | .error .doesNotExist =>
    if flags &&& flagCreate = 0 then throw .doesNotExist else pure (none, none)
  | .error e => throw e

/-- The second part: reserve a file, or read the block of the one that is reused.
mirrors secure_fw/partitions/internal_trusted_storage/flash_fs/its_flash_fs.c:319-346 -/
def fileWriteReserve (fid flags maxSize : Nat) (old : Option Nat)
    (reuse : Option (Nat × FileMeta)) : M (Nat × FileMeta × BlockMeta) :=
  match reuse with
  | none => do
    if c.maxFileSize < maxSize then throw .invalidArgument
    reserveFile c fid old.isSome maxSize flags
  | some (idx, m) => do
    let b ← recast .genericError (readBlockMetadata c m.lblock)
    pure (idx, m, b)

/-- The third part: write the data into the scratch data block, which becomes the
block of the file.
mirrors secure_fw/partitions/internal_trusted_storage/flash_fs/its_flash_fs.c:348-374 -/
def fileWriteData (m : FileMeta) (b : BlockMeta) (dataSize offset : Nat) (data : Nat → UInt8) :
    M (FileMeta × BlockMeta) := do
  if dataSize = 0 then pure (m, b)
  else do
    recast .genericError (fileWriteAlignedData c b m offset dataSize data)
    let x ← get
    setDataScratch b.phyId m.lblock
    pure (if m.curSize < add32 offset dataSize then { m with curSize := add32 offset dataSize } else m,
      { b with phyId := curDataScratchId x m.lblock })

/-- The fourth part: the file metadata table in the scratch metadata block.
mirrors secure_fw/partitions/internal_trusted_storage/flash_fs/its_flash_fs.c:384-417 -/
def fileWriteTable (old : Option Nat) (new : Nat) (m : FileMeta) : M Unit := do
  updateScratchFileMeta c new m
  match old with
  | none => do
    cpFileMeta c 0 new
    cpFileMeta c (new + 1) c.maxNumFiles
  | some old => do
    cpFileMeta c 0 (min new old)
    if old ≠ new then cpFileMeta c (min new old + 1) (max new old)
    cpFileMeta c (max new old + 1) c.maxNumFiles

/-- mirrors secure_fw/partitions/internal_trusted_storage/flash_fs/its_flash_fs.c:243-439 -/
def fileWrite (fid flags maxSize dataSize offset : Nat) (data : Nat → UInt8) : M Unit := do
  if flags &&& internalFlagsMask ≠ 0 then throw .invalidArgument
  let maxSize := c.aligned maxSize
  let (old, reuse) ← fileWriteLookup c fid flags maxSize
  let (new, m, b) ← fileWriteReserve c fid flags maxSize old reuse
  let (m, b) ← fileWriteData c m b dataSize offset data
  recast .genericError (updateScratchBlockMeta c m.lblock b)
  recast .genericError (fileWriteTable c old new m)
  if m.lblock ≠ 0 ∨ dataSize = 0 then recast .genericError (migrateLb0DataToScratch c)
  metaUpdateFinalize c
  match old with
  | some old => if old ≠ new then deleteIdx c old
  | none => pure ()

/-- mirrors secure_fw/partitions/internal_trusted_storage/flash_fs/its_flash_fs.c:553-567 -/
def fileDelete (fid : Nat) : M Unit := do
  let idx ← recast .doesNotExist (getFileIdx c fid)
  deleteIdx c idx

/-- mirrors secure_fw/partitions/internal_trusted_storage/flash_fs/its_flash_fs.c:569-606 -/
def fileRead (fid size offset : Nat) : M (List UInt8) := do
  let idx ← recast .doesNotExist (getFileIdx c fid)
  let m ← recast .genericError (readFileMeta c idx)
  if m.id ≠ fid then throw .doesNotExist
  if !checkContainedIn m.curSize offset size then throw .invalidArgument
  recast .genericError (dblockReadFile c m offset size)

end Files

end Tfm.L4.Its
