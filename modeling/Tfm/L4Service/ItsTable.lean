import Tfm.L4Service.ItsFlash

/-!
# A mounted ITS filesystem

What the filesystem is, without the bytes: the header, the block metadata, the file
table and the contents of the logical data blocks, of which a byte can be unknown.
The operations act on it as pure functions, and `Rep` says when a device and the
context hold it.

Results: metadata read back from flash is what was written (`FileMeta.ofBytes_of_has`
and its siblings); the metadata of a mounted filesystem stays where it is when only
the scratch blocks change (`Stored.frame`).
-/
namespace Tfm.L4.Its
open Tfm.BlockDev Tfm.Bytes

/-! ## Numbers -/

theorem add32_of_lt {x y : Nat} (h : x + y < 2 ^ 32) : add32 x y = x + y := Nat.mod_eq_of_lt h

theorem sub32_of_le {x y : Nat} (h : y ≤ x) (hx : x < 2 ^ 32) : sub32 x y = x - y := by
  unfold sub32
  rw [show x + 2 ^ 32 - y = x - y + 2 ^ 32 by omega, Nat.add_mod_right]
  exact Nat.mod_eq_of_lt (by omega)

/-! ## Sizes -/

section Sizes

variable (c : Config)

theorem Config.le_sizeOf (n : Nat) : n ≤ c.sizeOf n := by
  unfold Config.sizeOf
  split
  · next h =>
    have h1 := Nat.div_add_mod (n + c.maxAlign - 1) c.maxAlign
    have h2 := Nat.mod_lt (n + c.maxAlign - 1) (show c.maxAlign > 0 by omega)
    rw [Nat.mul_comm] at h1
    omega
  · exact Nat.le_refl n

theorem Config.le_headerSize : 8 ≤ c.headerSize := c.le_sizeOf 8

theorem Config.le_blockMetaSize : 12 ≤ c.blockMetaSize := c.le_sizeOf 12

theorem Config.le_fileMetaSize : 32 ≤ c.fileMetaSize := c.le_sizeOf 32

theorem Config.blockMetaOffset_succ (l : Nat) :
    c.blockMetaOffset (l + 1) = c.blockMetaOffset l + c.blockMetaSize := by
  unfold Config.blockMetaOffset
  rw [Nat.succ_mul, Nat.add_assoc]

theorem Config.fileMetaOffset_succ (i : Nat) :
    c.fileMetaOffset (i + 1) = c.fileMetaOffset i + c.fileMetaSize := by
  unfold Config.fileMetaOffset
  rw [Nat.succ_mul, ← Nat.add_assoc]

theorem Config.blockMetaOffset_mono {l k : Nat} (h : l ≤ k) :
    c.blockMetaOffset l ≤ c.blockMetaOffset k :=
  Nat.add_le_add_left (Nat.mul_le_mul_right _ h) _

theorem Config.fileMetaOffset_mono {i j : Nat} (h : i ≤ j) :
    c.fileMetaOffset i ≤ c.fileMetaOffset j :=
  Nat.add_le_add_left (Nat.mul_le_mul_right _ h) _

theorem Config.blockMetaOffset_lt {l k : Nat} (h : l < k) :
    c.blockMetaOffset l + c.blockMetaSize ≤ c.blockMetaOffset k := by
  rw [← c.blockMetaOffset_succ]
  exact c.blockMetaOffset_mono h

theorem Config.fileMetaOffset_lt {i j : Nat} (h : i < j) :
    c.fileMetaOffset i + c.fileMetaSize ≤ c.fileMetaOffset j := by
  rw [← c.fileMetaOffset_succ]
  exact c.fileMetaOffset_mono h

theorem Config.blockMetaOffset_zero : c.blockMetaOffset 0 = c.headerSize := by
  simp [Config.blockMetaOffset]

/-- The file table starts where the block metadata ends. -/
theorem Config.blockMetaOffset_active :
    c.blockMetaOffset c.numActiveDblocks = c.fileMetaOffset 0 := by
  simp [Config.blockMetaOffset, Config.fileMetaOffset]

theorem Config.headerSize_le : c.headerSize ≤ c.fileMetaOffset 0 := by
  rw [← c.blockMetaOffset_active, ← c.blockMetaOffset_zero]
  exact c.blockMetaOffset_mono (Nat.zero_le _)

theorem Config.numActiveDblocks_pos : 0 < c.numActiveDblocks := Nat.succ_pos _

end Sizes

/-- The end of the metadata, where logical block 0 starts. -/
def Config.metaEnd (c : Config) : Nat := c.fileMetaOffset c.maxNumFiles

theorem Config.fileMetaOffset_le (c : Config) : c.fileMetaOffset 0 ≤ c.metaEnd :=
  c.fileMetaOffset_mono (Nat.zero_le _)

section Accepted

variable (c : Cfg)

theorem Cfg.numBlocks_ok : c.numBlocks = 2 ∨ 4 ≤ c.numBlocks := by
  have h := c.accepted
  simp only [validateConfig, Bool.and_eq_true, Bool.not_eq_true', Bool.or_eq_false_iff,
    decide_eq_false_iff_not] at h
  omega

theorem Cfg.numActiveDblocks_eq : c.numActiveDblocks = c.fsNumActiveDblocks := by
  unfold Config.numActiveDblocks Config.numDedicatedDblocks Config.fsNumActiveDblocks
    Config.initDblockStart
  have h := c.numBlocks_ok
  by_cases h2 : c.numBlocks = 2
  · simp [h2]
  · simp only [h2, if_false]
    omega

theorem Cfg.metaEnd_le : c.metaEnd ≤ c.blockSize := by
  have h := c.accepted
  simp only [validateConfig, Bool.and_eq_true, Bool.not_eq_true', decide_eq_false_iff_not] at h
  unfold Config.metaEnd Config.fileMetaOffset
  rw [c.numActiveDblocks_eq]
  exact Nat.le_of_not_lt h.2

theorem Cfg.maxFileSize_le : c.maxFileSize ≤ c.blockSize := by
  have h := c.accepted
  simp only [validateConfig, Bool.and_eq_true, Bool.not_eq_true', decide_eq_false_iff_not] at h
  exact Nat.le_of_not_lt h.1.2

theorem Cfg.numActiveDblocks_lt (h : 2 < c.numBlocks) : c.numActiveDblocks = c.numBlocks - 2 := by
  rw [c.numActiveDblocks_eq, Config.fsNumActiveDblocks, if_neg (by omega)]

theorem Cfg.numActiveDblocks_two (h : c.numBlocks = 2) : c.numActiveDblocks = 1 := by
  rw [c.numActiveDblocks_eq, Config.fsNumActiveDblocks, if_pos h]

theorem Cfg.two_le : 2 ≤ c.numBlocks := by
  have := c.numBlocks_ok
  omega

/-- Where there is a logical block beside block 0, there is a scratch data block. -/
theorem Cfg.two_lt {l : Nat} (hl : 0 < l) (hl' : l < c.numActiveDblocks) : 2 < c.numBlocks := by
  have h1 := c.numBlocks_ok
  have h2 := c.numActiveDblocks_two
  omega

end Accepted

/-! ## Metadata and bytes -/

theorem field_left (a l : List UInt8) {n : Nat} (h : a.length = n) : field (a ++ l) 0 n = ofLe a := by
  subst h
  simp [field]

theorem field_right (a l : List UInt8) {n : Nat} (h : a.length = n) (off k : Nat) :
    field (a ++ l) (n + off) k = field l off k := by
  subst h
  simp [field, List.drop_append, List.drop_eq_nil_of_le]

theorem field_all (a : List UInt8) {n : Nat} (h : a.length = n) : field a 0 n = ofLe a := by
  subst h
  simp [field]

theorem field_take {l : List UInt8} {off n k : Nat} (h : off + n ≤ k) :
    field (l.take k) off n = field l off n := by
  unfold field
  rw [List.drop_take, List.take_take, Nat.min_eq_left (by omega)]

/-- A number that fits its field. -/
theorem ofLe_le_of_lt {n x : Nat} (h : x < 256 ^ n) : ofLe (le n x) = x := by
  rw [ofLe_le, Nat.mod_eq_of_lt h]

def Header.Fits (h : Header) : Prop := h.scratchDblock < 2 ^ 32

structure BlockMeta.Fits (m : BlockMeta) : Prop where
  phyId : m.phyId < 2 ^ 32
  dataStart : m.dataStart < 2 ^ 32
  freeSize : m.freeSize < 2 ^ 32

structure FileMeta.Fits (m : FileMeta) : Prop where
  lblock : m.lblock < 2 ^ 32
  dataIdx : m.dataIdx < 2 ^ 32
  curSize : m.curSize < 2 ^ 32
  maxSize : m.maxSize < 2 ^ 32
  flags : m.flags < 2 ^ 32
  id : m.id < 2 ^ 96

theorem Header.ofBytes_bytes {h : Header} (hf : h.Fits) : Header.ofBytes h.bytes = h := by
  have h4 : (256 : Nat) ^ 4 = 2 ^ 32 := by decide
  unfold Header.ofBytes Header.bytes
  rw [field_left _ _ (length_le 4 _), ofLe_le_of_lt (h4 ▸ hf)]
  simp

theorem BlockMeta.ofBytes_bytes {m : BlockMeta} (hf : m.Fits) : BlockMeta.ofBytes m.bytes = m := by
  have h4 : (256 : Nat) ^ 4 = 2 ^ 32 := by decide
  unfold BlockMeta.ofBytes BlockMeta.bytes
  rw [field_left _ _ (length_le 4 _), field_right _ _ (length_le 4 _) 0,
    field_left _ _ (length_le 4 _), show 8 = 4 + (4 + 0) by rfl,
    field_right _ _ (length_le 4 _), field_right _ _ (length_le 4 _), field_all _ (length_le 4 _),
    ofLe_le_of_lt (h4 ▸ hf.phyId), ofLe_le_of_lt (h4 ▸ hf.dataStart),
    ofLe_le_of_lt (h4 ▸ hf.freeSize)]

theorem FileMeta.ofBytes_bytes {m : FileMeta} (hf : m.Fits) : FileMeta.ofBytes m.bytes = m := by
  have h4 : (256 : Nat) ^ 4 = 2 ^ 32 := by decide
  have h12 : (256 : Nat) ^ 12 = 2 ^ 96 := by decide
  have hr : ∀ (x : Nat) (l : List UInt8) (off k : Nat),
      field (le 4 x ++ l) (4 + off) k = field l off k := fun x l off k =>
    field_right _ _ (length_le 4 x) off k
  have hl : ∀ (x : Nat) (l : List UInt8), x < 2 ^ 32 → field (le 4 x ++ l) 0 4 = x :=
    fun x l hx => by rw [field_left _ _ (length_le 4 x), ofLe_le_of_lt (h4 ▸ hx)]
  unfold FileMeta.ofBytes FileMeta.bytes
  rw [show 8 = 4 + (4 + 0) by rfl, show 12 = 4 + (4 + (4 + 0)) by rfl,
    show 16 = 4 + (4 + (4 + (4 + 0))) by rfl, show 20 = 4 + (4 + (4 + (4 + (4 + 0)))) by rfl]
  simp only [hr, hl _ _ hf.lblock, hl _ _ hf.curSize, hl _ _ hf.maxSize, hl _ _ hf.flags]
  rw [field_right _ _ (length_le 4 _) 0, hl _ _ hf.dataIdx, field_all _ (length_le 12 _),
    ofLe_le_of_lt (h12 ▸ hf.id)]

@[simp] theorem Header.length_bytes (h : Header) : h.bytes.length = 6 := by
  simp [Header.bytes]

@[simp] theorem BlockMeta.length_bytes (m : BlockMeta) : m.bytes.length = 12 := by
  simp [BlockMeta.bytes]

@[simp] theorem FileMeta.length_bytes (m : FileMeta) : m.bytes.length = 32 := by
  simp [FileMeta.bytes]

theorem length_pad {n : Nat} {l : List UInt8} (h : l.length ≤ n) : (pad n l).length = n := by
  simp [pad]
  omega

theorem pad_getElem? {n i : Nat} {l : List UInt8} {v : UInt8} (h : l[i]? = some v) :
    (pad n l)[i]? = some v := by
  rw [pad, List.getElem?_append_left (List.getElem?_eq_some_iff.mp h).1, h]

theorem Header.ofBytes_take (l : List UInt8) : Header.ofBytes (l.take 6) = Header.ofBytes l := by
  unfold Header.ofBytes
  rw [field_take (by decide)]
  simp [List.getD_eq_getElem?_getD]

theorem BlockMeta.ofBytes_take (l : List UInt8) :
    BlockMeta.ofBytes (l.take 12) = BlockMeta.ofBytes l := by
  unfold BlockMeta.ofBytes
  rw [field_take (by decide), field_take (by decide), field_take (by decide)]

theorem FileMeta.ofBytes_take (l : List UInt8) :
    FileMeta.ofBytes (l.take 32) = FileMeta.ofBytes l := by
  unfold FileMeta.ofBytes
  simp only [field_take (show 0 + 4 ≤ 32 by decide), field_take (show 4 + 4 ≤ 32 by decide),
    field_take (show 8 + 4 ≤ 32 by decide), field_take (show 12 + 4 ≤ 32 by decide),
    field_take (show 16 + 4 ≤ 32 by decide), field_take (show 20 + 12 ≤ 32 by decide)]

/-- What is read where the bytes `a` are. -/
theorem take_of_has {r : Rules} {s : Media} {b off n : Nat} {a l : List UInt8}
    (ha : s.HasAll r b off a) (hn : a.length ≤ n) (hl : l.length = n)
    (hv : ∀ i v, i < n → (s.cell b (off + i)).val = some v → l[i]? = some v) :
    l.take a.length = a := by
  apply List.ext_getElem?
  intro i
  rw [List.getElem?_take]
  by_cases hi : i < a.length
  · rw [if_pos hi]
    have hs : a[i]? = some a[i] := List.getElem?_eq_getElem hi
    rw [hs]
    exact hv i _ (by omega) (ha i _ hs).1
  · rw [if_neg hi, List.getElem?_eq_none (by omega)]

/-! ## The mounted filesystem -/

structure Tab where
  hdr : Header
  active : Nat
  bm : Nat → BlockMeta
  fm : Nat → FileMeta
  /-- the bytes of a logical data block -/
  data : Nat → Nat → Option UInt8

namespace Tab

variable (t : Tab)

/-- The scratch metadata block. -/
def sm : Nat := otherMetaBlock t.active

/-- The scratch data block. -/
def sd : Nat := t.hdr.scratchDblock

/-- Where the data of a logical block is. -/
def phys (l : Nat) : Nat := if l = 0 then t.active else (t.bm l).phyId

/-- `its_flash_fs_mblock_cur_data_scratch_id` -/
def scratchId (l : Nat) : Nat := if l = 0 then t.sm else t.sd

theorem sm_lt : t.sm < 2 := by
  unfold Tab.sm otherMetaBlock
  split <;> decide

end Tab

section Operations

variable (c : Cfg) (fill : Option UInt8)

/-- The first entry with `p`, from `i` on, `n` entries to go. -/
def findIdx (fm : Nat → FileMeta) (p : FileMeta → Bool) : Nat → Nat → Option Nat
  | 0, _ => none
  | n + 1, i => if p (fm i) then some i else findIdx fm p n (i + 1)

/-- A free entry; without `spare` the first one is left alone. -/
def freeIdx (fm : Nat → FileMeta) : Bool → Nat → Nat → Option Nat
  | _, 0, _ => none
  | spare, n + 1, i =>
    if (fm i).used then freeIdx fm spare n (i + 1)
    else if spare then some i else freeIdx fm true n (i + 1)

/-- The first block with `size` free bytes. -/
def freeBlock (bm : Nat → BlockMeta) (size : Nat) : Nat → Nat → Option Nat
  | 0, _ => none
  | n + 1, i => if size ≤ (bm i).freeSize then some i else freeBlock bm size n (i + 1)

/-- `later` of the loop of `its_flash_fs_delete_idx`. -/
def isLater (l d : Nat) (m : FileMeta) : Prop := m.lblock = l ∧ m.used ∧ d < m.dataIdx

instance (l d : Nat) (m : FileMeta) : Decidable (isLater l d m) :=
  inferInstanceAs (Decidable (_ ∧ _))

/-- `src_offset` and `nbr_bytes_to_move` of `its_flash_fs_delete_idx`. -/
def delScan (fm : Nat → FileMeta) (del l d : Nat) : Nat → Nat → Nat → Nat → Nat × Nat
  | 0, _, src, nbr => (src, nbr)
  | n + 1, i, src, nbr =>
    if i = del then delScan fm del l d n (i + 1) src nbr
    else delScan fm del l d n (i + 1)
      (if isLater l d (fm i) ∧ (fm i).dataIdx < src then (fm i).dataIdx else src)
      (if isLater l d (fm i) then add32 nbr (fm i).maxSize else nbr)

/-- The contents of logical block 0 after it moved with the metadata. -/
def Tab.moved0 (t : Tab) (o : Nat) : Option UInt8 :=
  if (t.bm 0).dataStart ≤ o ∧ o < c.blockSize - (t.bm 0).freeSize then t.data 0 o else fill

/-- One update of the metadata: block `l` gets the metadata `b`, and the contents
`dl` if its data was rewritten; the metadata blocks swap. -/
def Tab.update (t : Tab) (l : Nat) (b : BlockMeta) (fm : Nat → FileMeta)
    (dl : Option (Nat → Option UInt8)) : Tab where
  hdr :=
    { scratchDblock := if l ≠ 0 ∧ dl.isSome then (t.bm l).phyId else t.sd
      fsVersion := t.hdr.fsVersion
      activeSwapCount := nextSwapCount c t.hdr.activeSwapCount }
  active := t.sm
  bm k :=
    if k = l then
      { b with phyId := if l = 0 then t.sm else if dl.isSome then t.sd else (t.bm l).phyId }
    else if k = 0 then { t.bm 0 with phyId := t.sm }
    else t.bm k
  fm := fm
  data k o :=
    if k = l ∧ dl.isSome then (dl.getD fun _ => none) o
    else if k = 0 then t.moved0 c fill o
    else t.data k o

/-- The contents of a block in which `nbr` bytes from `src` on moved to `dst`. -/
def compacted (old : Nat → Option UInt8) (start src dst nbr : Nat) (o : Nat) : Option UInt8 :=
  if dst ≤ o ∧ o < dst + nbr then old (src + (o - dst))
  else if start ≤ o ∧ o < dst then old o
  else fill

/-- The contents of a block in which `size` bytes were written at `pos` to a file
that ends at `fileEnd`; the data of the block ends at `dataEnd`. -/
def rewritten (old : Nat → Option UInt8) (start pos size fileEnd dataEnd : Nat)
    (data : Nat → UInt8) (o : Nat) : Option UInt8 :=
  if start ≤ o ∧ o < pos then old o
  else if pos ≤ o ∧ o < pos + size then some (data (o - pos))
  else if fileEnd ≤ o ∧ o < dataEnd then old o
  else fill

/-- What `its_flash_fs_delete_idx` makes of the filesystem. -/
def Tab.deleteIdx (t : Tab) (i : Nat) : Tab :=
  let m := t.fm i
  let scan := delScan t.fm i m.lblock m.dataIdx c.maxNumFiles 0 c.blockSize 0
  t.update c fill m.lblock
    { t.bm m.lblock with freeSize := add32 (t.bm m.lblock).freeSize m.maxSize }
    (fun j => if j = i then .zero else shifted m.lblock m.dataIdx m.maxSize (t.fm j))
    (some (compacted fill (t.data m.lblock) (t.bm m.lblock).dataStart scan.1 m.dataIdx scan.2))

def Tab.find (t : Tab) (fid : Nat) : Option Nat :=
  findIdx t.fm (fun m => m.id = fid) c.maxNumFiles 0

def Tab.delete (t : Tab) (fid : Nat) : Except PsaStatus Tab :=
  match t.find c fid with
  | some i => .ok (t.deleteIdx c fill i)
  | none => .error .doesNotExist

/-- `fileWriteLookup` on a mounted filesystem. -/
def Tab.lookup (t : Tab) (fid flags maxSize : Nat) :
    Except PsaStatus (Option Nat × Option (Nat × FileMeta)) :=
  match t.find c fid with
  | some old =>
    if flags &&& flagTruncate ≠ 0 then
      if (t.fm old).maxSize = maxSize then
        .ok (some old, some (old, { t.fm old with curSize := 0, flags := flags }))
      else .ok (some old, none)
    else .ok (some old, some (old, t.fm old))
  | none => if flags &&& flagCreate = 0 then .error .doesNotExist else .ok (none, none)

/-- `fileWriteReserve` on a mounted filesystem. -/
def Tab.reserve (t : Tab) (fid flags maxSize : Nat) (old : Option Nat)
    (reuse : Option (Nat × FileMeta)) : Except PsaStatus (Nat × FileMeta × BlockMeta) :=
  match reuse with
  | some (idx, m) => .ok (idx, m, t.bm m.lblock)
  | none =>
    if c.maxFileSize < maxSize then .error .invalidArgument
    else
      match freeBlock t.bm maxSize c.numActiveDblocks 0,
          freeIdx t.fm old.isSome c.maxNumFiles 0 with
      | some l, some i =>
        .ok (i, ⟨l, c.blockSize - (t.bm l).freeSize, 0, maxSize, flags, fid⟩,
          { t.bm l with freeSize := (t.bm l).freeSize - maxSize })
      | _, _ => .error .insufficientStorage

/-- The checks of `its_flash_fs_file_write_aligned_data`. -/
def dataFits (m : FileMeta) (dataSize offset : Nat) : Bool :=
  (c.maxAlign = 1 || isAligned offset c.programUnit) && offset ≤ m.curSize &&
    checkContainedIn m.maxSize offset (c.aligned dataSize)

/-- `fileWriteData` on a mounted filesystem. -/
def Tab.writeData (t : Tab) (m : FileMeta) (b : BlockMeta) (dataSize offset : Nat)
    (data : Nat → UInt8) : Except PsaStatus (FileMeta × Option (Nat → Option UInt8)) :=
  if dataSize = 0 then .ok (m, none)
  else if dataFits c m dataSize offset then
    .ok ({ m with curSize := max m.curSize (offset + dataSize) },
      some (rewritten fill (t.data m.lblock) b.dataStart (m.dataIdx + offset)
        (c.aligned dataSize) (m.dataIdx + m.maxSize) (c.blockSize - b.freeSize) data))
  else .error .genericError

/-- The file table of an update: `new` gets `m`, and an old file with another entry
is marked for deletion. -/
def Tab.table (t : Tab) (old : Option Nat) (new : Nat) (m : FileMeta) (j : Nat) : FileMeta :=
  if j = new then m
  else if old = some j then { t.fm j with flags := (t.fm j).flags ||| flagDelete }
  else t.fm j

/-- The first update of a write, and the index of a file to be deleted by a second. -/
def Tab.firstUpdate (t : Tab) (fid flags maxSize dataSize offset : Nat) (data : Nat → UInt8) :
    Except PsaStatus (Tab × Option Nat) :=
  if flags &&& internalFlagsMask ≠ 0 then .error .invalidArgument
  else do
    let (old, reuse) ← t.lookup c fid flags (c.aligned maxSize)
    let (new, m, b) ← t.reserve c fid flags (c.aligned maxSize) old reuse
    let (m, dl) ← t.writeData c fill m b dataSize offset data
    pure (t.update c fill m.lblock b (t.table old new m) dl, old.filter (· ≠ new))

/-- What `its_flash_fs_file_write` makes of the filesystem. -/
def Tab.write (t : Tab) (fid flags maxSize dataSize offset : Nat) (data : Nat → UInt8) :
    Except PsaStatus Tab := do
  let (t', old) ← t.firstUpdate c fill fid flags maxSize dataSize offset data
  match old with
  | some old => pure (t'.deleteIdx c fill old)
  | none => pure t'

end Operations

/-! ## What a mounted filesystem is like -/

/-- The numbers of a mounted filesystem are in their ranges, and its physical blocks
are apart. -/
structure Sane (c : Cfg) (t : Tab) : Prop where
  active : t.active < 2
  version : t.hdr.fsVersion = 1
  swap : t.hdr.activeSwapCount ≠ c.eraseVal
  start0 : (t.bm 0).dataStart = c.metaEnd
  start : ∀ l, 0 < l → l < c.numActiveDblocks → (t.bm l).dataStart = 0
  free : ∀ l, l < c.numActiveDblocks → (t.bm l).dataStart + (t.bm l).freeSize ≤ c.blockSize
  phy0 : (t.bm 0).phyId < 2
  /-- block 0 is where the metadata is, or was never used -/
  home : (t.bm 0).phyId = t.active ∨
    (t.bm 0).dataStart + (t.bm 0).freeSize = c.blockSize ∧
      ∀ i, i < c.maxNumFiles → (t.fm i).used = false
  phy : ∀ l, 0 < l → l < c.numActiveDblocks →
    2 ≤ (t.bm l).phyId ∧ (t.bm l).phyId < c.numBlocks
  inj : ∀ l k, 0 < l → l < c.numActiveDblocks → 0 < k → k < c.numActiveDblocks →
    (t.bm l).phyId = (t.bm k).phyId → l = k
  scratch : 2 < c.numBlocks → 2 ≤ t.sd ∧ t.sd < c.numBlocks
  apart : ∀ l, 0 < l → l < c.numActiveDblocks → (t.bm l).phyId ≠ t.sd
  sd_lt : t.sd < 2 ^ 16
  file : ∀ i, i < c.maxNumFiles → (t.fm i).used = true →
    (t.fm i).lblock < c.numActiveDblocks ∧
    (t.bm (t.fm i).lblock).dataStart ≤ (t.fm i).dataIdx ∧
    (t.fm i).dataIdx + (t.fm i).maxSize ≤ c.blockSize - (t.bm (t.fm i).lblock).freeSize ∧
    (t.fm i).curSize ≤ (t.fm i).maxSize ∧ (t.fm i).maxSize ≤ c.maxFileSize ∧
    (t.fm i).flags < 2 ^ 32 ∧ (t.fm i).id < 2 ^ 96
  unused : ∀ i, i < c.maxNumFiles → (t.fm i).used = false → t.fm i = .zero

namespace Sane

variable {c : Cfg} {t : Tab} (h : Sane c t)

include h

theorem sm_ne : t.sm ≠ t.active := by
  have := h.active
  unfold Tab.sm otherMetaBlock
  split <;> omega

theorem other_sm : otherMetaBlock t.sm = t.active := by
  have := h.active
  unfold Tab.sm otherMetaBlock
  split
  · next h0 => simp [h0]
  · next h0 => simp; omega

theorem block_fits {l : Nat} (hl : l < c.numActiveDblocks) : (t.bm l).Fits := by
  have h1 := h.free l hl
  have h2 := c.blockSize_lt
  refine ⟨?_, by omega, by omega⟩
  rcases Nat.eq_zero_or_pos l with rfl | hp
  · have := h.phy0
    omega
  · have := (h.phy l hp hl).2
    have := c.numBlocks_lt
    omega

theorem block_valid {l : Nat} (hl : l < c.numActiveDblocks) : validateBlockMeta c (t.bm l) = true := by
  have h1 := h.free l hl
  have h2 := c.two_le
  simp only [validateBlockMeta, checkContainedIn, Bool.and_eq_true, decide_eq_true_eq]
  rcases Nat.eq_zero_or_pos l with rfl | hp
  · have h3 := h.phy0
    refine ⟨⟨by omega, by omega, by omega⟩, ?_⟩
    rw [if_pos (by omega)]
    exact h.start0
  · have h3 := h.phy l hp hl
    refine ⟨⟨h3.2, by omega, by omega⟩, ?_⟩
    rw [if_neg (by omega)]
    exact h.start l hp hl

theorem file_fits {i : Nat} (hi : i < c.maxNumFiles) : (t.fm i).Fits := by
  cases hu : (t.fm i).used with
  | false =>
    rw [h.unused i hi hu]
    exact ⟨by decide, by decide, by decide, by decide, by decide, by decide⟩
  | true =>
    obtain ⟨hl, hd, hm, hc, hx, hf, hid⟩ := h.file i hi hu
    have h1 := c.blockSize_lt
    have h2 : c.numActiveDblocks < 2 ^ 16 := by
      have := c.numBlocks_lt
      have := c.numBlocks_ok
      have := c.numActiveDblocks_two
      have := c.numActiveDblocks_lt
      omega
    exact ⟨by omega, by omega, by omega, by omega, hf, hid⟩

theorem file_valid {i : Nat} (hi : i < c.maxNumFiles) : validateFileMeta c (t.fm i) = true := by
  simp only [validateFileMeta, checkContainedIn, Bool.and_eq_true, decide_eq_true_eq,
    Bool.or_eq_true, Bool.not_eq_true']
  cases hu : (t.fm i).used with
  | false =>
    rw [h.unused i hi hu]
    exact ⟨c.numActiveDblocks_pos, .inl rfl⟩
  | true =>
    obtain ⟨hl, hd, hm, hc, hx, hf, hid⟩ := h.file i hi hu
    refine ⟨hl, .inr ⟨⟨⟨hx, hc⟩, ?_⟩, by omega, by omega⟩⟩
    by_cases h0 : (t.fm i).lblock = 0
    · rw [h0, h.start0] at hd
      exact .inr hd
    · exact .inl h0

theorem hdr_valid : validateHeaderMeta c t.hdr = true := by
  simp [validateHeaderMeta, validateSwapCount, h.version, h.swap]

theorem hdr_fits : t.hdr.Fits := by
  have := h.sd_lt
  unfold Tab.sd at this
  unfold Header.Fits
  omega

end Sane

/-! ## A device that holds it -/

section Held

variable (c : Cfg) (r : Rules)

/-- The scratch blocks. -/
def Tab.Scratch (t : Tab) : Nat → Nat → Prop := fun b _ => b = t.sm ∨ 2 < c.numBlocks ∧ b = t.sd

/-- The active metadata block and the data blocks hold `t`. -/
structure Stored (s : Media) (t : Tab) : Prop where
  hdr : s.HasAll r t.active 0 t.hdr.bytes
  block : ∀ l, l < c.numActiveDblocks →
    s.HasAll r t.active (c.blockMetaOffset l) (t.bm l).bytes
  file : ∀ i, i < c.maxNumFiles → s.HasAll r t.active (c.fileMetaOffset i) (t.fm i).bytes
  data : ∀ l, l < c.numActiveDblocks → ∀ o, (t.bm l).dataStart ≤ o → o < c.blockSize →
    ∀ v, t.data l o = some v → s.Has r (t.phys l) o v

/-- A start takes the header of `t`, and not a valid header `h` in the other metadata
block. -/
def Tab.Latest (t : Tab) (h : Header) : Prop :=
  if t.active = 0 then latestMetaBlock c t.hdr h = 0 else latestMetaBlock c h t.hdr = 1

/-- The header of the scratch metadata block does not count: it is not valid, or a
start does not take it. -/
def Stale (s : Media) (t : Tab) : Prop :=
  ∃ l : List UInt8, l.length = 6 ∧ (∀ i v, l[i]? = some v → (s.cell t.sm i).val = some v) ∧
    (validateHeaderMeta c (.ofBytes l) = false ∨ t.Latest c (.ofBytes l))

/-- The scratch blocks are erased and nothing is left to flush. A write that failed
may have left an entry of the file table in the scratch metadata block. -/
structure Clean (s : Media) (t : Tab) : Prop where
  sm : ∀ o, o < c.blockSize → (o < c.fileMetaOffset 0 ∨ c.metaEnd ≤ o ∨ r.buffered ∨ r.once) →
    s.cell t.sm o = r.blank
  sd : 2 < c.numBlocks → ∀ o, o < c.blockSize → s.cell t.sd o = r.blank
  pend : r.buffered → s.pend = none

/-- The device and the context hold `t`, between two operations. -/
structure Rep (x : Ctx) (s : Media) (t : Tab) : Prop where
  ctx : x = ⟨t.hdr, t.active, t.sm⟩
  stored : Stored c r s t
  clean : Clean c r s t

variable {c r}

/-- Blocks that hold data are no scratch blocks. -/
theorem Sane.phys_not_scratch {t : Tab} (h : Sane c t) {l : Nat} (hl : l < c.numActiveDblocks)
    (o : Nat) : ¬ t.Scratch c (t.phys l) o := by
  have h1 := h.sm_ne
  have h2 := t.sm_lt
  unfold Tab.phys
  split
  · intro hx
    obtain h3 | ⟨h3, h4⟩ := hx
    · exact h1 h3.symm
    · have := (h.scratch h3).1
      have := h.active
      omega
  · next hne =>
    have hp := h.phy l (by omega) hl
    intro hx
    obtain h3 | ⟨h3, h4⟩ := hx
    · omega
    · exact h.apart l (by omega) hl h4

theorem Sane.active_not_scratch {t : Tab} (h : Sane c t) (o : Nat) : ¬ t.Scratch c t.active o :=
  h.phys_not_scratch c.numActiveDblocks_pos o

theorem Stored.frame {s s' : Media} {t : Tab} {W : Nat → Nat → Prop} (h : Stored c r s t)
    (ht : Sane c t) (hf : Frame r W s s') (hW : ∀ b o, W b o → t.Scratch c b o) :
    Stored c r s' t := by
  have ha : ∀ o, ¬ W t.active o := fun o hw => ht.active_not_scratch o (hW _ _ hw)
  refine ⟨hf.hasAll (fun _ _ => ha _) h.hdr, fun l hl => hf.hasAll (fun _ _ => ha _) (h.block l hl),
    fun i hi => hf.hasAll (fun _ _ => ha _) (h.file i hi), ?_⟩
  intro l hl o ho ho' v hv
  exact hf.has (fun hw => ht.phys_not_scratch hl o (hW _ _ hw)) (h.data l hl o ho ho' v hv)

end Held

end Tfm.L4.Its
