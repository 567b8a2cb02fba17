import Tfm.L1Build.ParseManifest
import Tfm.L4Service.Spm

/-!
# Pools of chunks and user handles, for any geometry

Model of secure_fw/spm/cmsis_psa/tfm_pools.c and of the two conversions of
cmsis_psa/spm_ipc.c between a chunk's address and the value a client sees, in
the 32-bit wrapping arithmetic of the target. A pool is a static array: an
instance header, then chunks of one size, each a list node and its payload.
`Spm.lean` has the connection pool by its offsets; this module has every pool
that `TFM_POOL_DECLARE` can declare, at every address.

Results:
* `toHandleInstance_toUserHandle`: the conversions invert each other at every
  chunk and every value of the rolling index.
* `toUserHandle_ne_null`, `toUserHandle_not_static`: what a client sees is
  neither `PSA_NULL_HANDLE` nor a static handle.
* `isValid_iff`: what the membership check accepts, in plain arithmetic. Its
  lower bound is the first chunk, not the first payload, so an address in the
  first chunk's list node has its chunk address below the pool, where the
  difference wraps.
* `membership_iff`: the check says what it should for the pools whose end does
  not wrap, whose chunks are not empty and whose chunk size does not divide one
  of the eight differences that wrap.
* `connPool_exact`: the connection pool is one of them; `toUserHandle_connPool`,
  `toHandleInstance_connPool` and `isValid_connPool` are its functions in
  `Spm.lean`.
-/
namespace Tfm.L4.Pools
open Tfm.L1.Handles (isValidStaticHandle getIndexFromStaticHandle)

/-! ## The pool -/

/-- `sizeof(struct tfm_pool_instance_t)`. -/
def sizeofInstance : UInt32 := 16

/-- `sizeof(struct tfm_pool_chunk_t)`, the list node before the payload. -/
def sizeofChunk : UInt32 := 8

/-- `struct tfm_pool_instance_t` at its address; `chunksList` holds the
addresses of the chunks on the list.
mirrors secure_fw/spm/cmsis_psa/tfm_pools.h:18-30 -/
structure PoolInstance where
  addr : UInt32
  chunksz : UInt32
  chunkCount : UInt32
  chunksList : List UInt32

/-- `pool->chunks`. -/
def PoolInstance.chunks (pool : PoolInstance) : UInt32 := pool.addr + sizeofInstance

/-- The chunks the loop of `tfm_pool_init` puts on the list, `n` of them from
`pchunk` on. -/
def chainChunks (chunksz : UInt32) : Nat → UInt32 → List UInt32
  | 0, _ => []
  | n + 1, pchunk => pchunk :: chainChunks chunksz n (pchunk + sizeofChunk + chunksz)

/-- `none` is `SPM_ERROR_BAD_PARAMETERS`.
mirrors secure_fw/spm/cmsis_psa/tfm_pools.c:22-57 -/
def poolInit (pool poolsz chunksz num : UInt32) : Option PoolInstance :=
  if pool = 0 ∨ num = 0 then none
  else if poolsz ≠ (chunksz + sizeofChunk) * num + sizeofInstance then none
  else some
    { addr := pool, chunksz := chunksz, chunkCount := num
      chunksList := chainChunks chunksz num.toNat (pool + sizeofInstance) }

/-- mirrors secure_fw/spm/cmsis_psa/tfm_pools.c:86-110 -/
def isValidChunkDataInPool (pool : PoolInstance) (data : UInt32) : Bool :=
  let chunksStart := pool.chunks
  let chunksSize := pool.chunksz + sizeofChunk
  let chunksEnd := chunksStart + chunksSize * pool.chunkCount
  if data < chunksStart ∨ data ≥ chunksEnd then false
  else
    let poolChunkAddress := data - sizeofChunk
    if (poolChunkAddress - chunksStart) % chunksSize ≠ 0 then false else true

/-! ## User handles -/

def conversionFactorBitoffset : UInt32 := 3
def conversionFactorValue : UInt32 := 1 <<< conversionFactorBitoffset
def clientHandleValueMin : UInt32 := 1

/-- The user handle and the new `loop_index`; `pool` is `conn_handle_pool`.
mirrors secure_fw/spm/cmsis_psa/spm_ipc.c:89-100 -/
def toUserHandle (pool handleInstance loopIndex : UInt32) : UInt32 × UInt32 :=
  let loopIndex := (loopIndex + 1) % conversionFactorValue
  (((handleInstance - pool) <<< conversionFactorBitoffset) + clientHandleValueMin + loopIndex,
    loopIndex)

/-- mirrors secure_fw/spm/cmsis_psa/spm_ipc.c:117-130 -/
def toHandleInstance (pool userHandle : UInt32) : UInt32 :=
  if userHandle = 0 then 0
  else ((userHandle - clientHandleValueMin) >>> conversionFactorBitoffset) + pool

/-! ## Declared pools -/

/-- What `TFM_POOL_DECLARE` declares: a static array, so its size is a size,
with at least the one chunk `tfm_pool_init` asks for.
mirrors secure_fw/spm/cmsis_psa/tfm_pools.h:32-47 -/
structure PoolDecl where
  addr : UInt32
  chunksz : UInt32
  num : UInt32
  nonnull : addr ≠ 0
  pos : num ≠ 0
  fits : (chunksz.toNat + 8) * num.toNat + 16 < 2 ^ 32

namespace PoolDecl
variable (d : PoolDecl)

/-- `POOL_BUFFER_SIZE`. -/
def bufferSize : UInt32 := (d.chunksz + sizeofChunk) * d.num + sizeofInstance

/-- The chunk size with the list node, as a number. -/
def chunksSize : Nat := d.chunksz.toNat + 8

/-- The pool after `tfm_pool_init`. -/
def inst : PoolInstance :=
  { addr := d.addr, chunksz := d.chunksz, chunkCount := d.num
    chunksList := chainChunks d.chunksz d.num.toNat (d.addr + sizeofInstance) }

/-- The addresses `tfm_pool_alloc` can return: the payloads of the chunks. -/
def payloads : List UInt32 := d.inst.chunksList.map (· + sizeofChunk)

/-- The scaled pool offset of every chunk is in the documented range. -/
def Small : Prop := ∀ h ∈ d.payloads, 8 * (h - d.addr).toNat ≤ 0x3FFFFFFF

/-- The pools whose membership check is exact: the pool ends below the end of
the address space, a chunk has a payload, and no address in the list node of
the first chunk wraps to a multiple of the chunk size. -/
def Exact : Prop :=
  (d.addr + sizeofInstance).toNat + d.chunksSize * d.num.toNat < 2 ^ 32 ∧ 0 < d.chunksz.toNat ∧
    (2 ^ 32 % d.chunksSize = 0 ∨ 8 < 2 ^ 32 % d.chunksSize)

instance : Decidable d.Small :=
  List.decidableBAll (fun h => 8 * (h - d.addr).toNat ≤ 0x3FFFFFFF) d.payloads

theorem init : poolInit d.addr d.bufferSize d.chunksz d.num = some d.inst := by
  simp [poolInit, bufferSize, inst, d.nonnull, d.pos]

theorem num_pos : 0 < d.num.toNat := by
  apply Nat.pos_of_ne_zero
  intro h
  exact d.pos (UInt32.toNat_inj.mp h)

theorem fits' : d.chunksSize * d.num.toNat + 16 < 2 ^ 32 := d.fits

theorem chunksSize_lt : d.chunksSize < 2 ^ 32 := by
  have hle := Nat.le_mul_of_pos_right d.chunksSize d.num_pos
  have hfits := d.fits'
  omega

theorem chunksSize_pos : 8 ≤ d.chunksSize := Nat.le_add_left 8 _

@[simp] theorem toNat_chunksSize : (d.chunksz + sizeofChunk).toNat = d.chunksSize := by
  have h := d.chunksSize_lt
  rw [UInt32.toNat_add]
  exact Nat.mod_eq_of_lt h

theorem offset_le {k : Nat} (hk : k < d.num.toNat) :
    24 + d.chunksSize * k ≤ d.chunksSize * d.num.toNat + 16 := by
  have hmul : d.chunksSize * (k + 1) ≤ d.chunksSize * d.num.toNat :=
    Nat.mul_le_mul_left d.chunksSize hk
  have hpos := d.chunksSize_pos
  rw [Nat.mul_succ] at hmul
  omega

end PoolDecl

/-! ## The chunks -/

theorem mem_chainChunks (chunksz : UInt32) (n : Nat) (pchunk x : UInt32) :
    x ∈ chainChunks chunksz n pchunk ↔
      ∃ k < n, x.toNat = (pchunk.toNat + (chunksz.toNat + 8) * k) % 2 ^ 32 := by
  induction n generalizing pchunk with
  | zero => simp [chainChunks]
  | succ n ih =>
    have hnext : (pchunk + sizeofChunk + chunksz).toNat =
        (pchunk.toNat + (chunksz.toNat + 8)) % 2 ^ 32 := by
      have h8 : sizeofChunk.toNat = 8 := rfl
      simp only [UInt32.toNat_add, h8]
      omega
    -- moving on one chunk is one more factor
    have hmove : ∀ k, ((pchunk + sizeofChunk + chunksz).toNat + (chunksz.toNat + 8) * k) % 2 ^ 32 =
        (pchunk.toNat + (chunksz.toNat + 8) * (k + 1)) % 2 ^ 32 := by
      intro k
      rw [hnext, Nat.mod_add_mod, Nat.mul_succ]
      congr 1
      omega
    rw [chainChunks, List.mem_cons, ih]
    constructor
    · intro h
      cases h with
      | inl h =>
        refine ⟨0, Nat.succ_pos n, ?_⟩
        rw [h, Nat.mul_zero, Nat.add_zero, Nat.mod_eq_of_lt pchunk.toNat_lt]
      | inr h =>
        obtain ⟨k, hk, hx⟩ := h
        exact ⟨k + 1, Nat.succ_lt_succ hk, hx.trans (hmove k)⟩
    · intro h
      obtain ⟨k, hk, hx⟩ := h
      cases k with
      | zero =>
        left
        apply UInt32.toNat_inj.mp
        rw [hx, Nat.mul_zero, Nat.add_zero, Nat.mod_eq_of_lt pchunk.toNat_lt]
      | succ k => exact .inr ⟨k, Nat.lt_of_succ_lt_succ hk, hx.trans (hmove k).symm⟩

namespace PoolDecl
variable (d : PoolDecl)

/-- The payloads are at the offsets `24 + chunksSize * k`. -/
theorem mem_payloads (data : UInt32) :
    data ∈ d.payloads ↔
      ∃ k < d.num.toNat, data.toNat = (d.addr.toNat + (24 + d.chunksSize * k)) % 2 ^ 32 := by
  have h8 : sizeofChunk.toNat = 8 := rfl
  have h16 : sizeofInstance.toNat = 16 := rfl
  unfold payloads inst
  rw [List.mem_map]
  constructor
  · intro h
    obtain ⟨x, hx, hdata⟩ := h
    obtain ⟨k, hk, hnat⟩ := (mem_chainChunks _ _ _ _).mp hx
    refine ⟨k, hk, ?_⟩
    rw [← hdata, UInt32.toNat_add, hnat, UInt32.toNat_add, h8, h16]
    unfold chunksSize
    omega
  · intro h
    obtain ⟨k, hk, hdata⟩ := h
    refine ⟨data - sizeofChunk, (mem_chainChunks _ _ _ _).mpr ⟨k, hk, ?_⟩,
      UInt32.sub_add_cancel _ _⟩
    rw [UInt32.toNat_sub, hdata, UInt32.toNat_add, h8, h16]
    unfold chunksSize
    omega

end PoolDecl

/-! ## The conversions -/

theorem loopIndex_lt (loopIndex : UInt32) :
    ((loopIndex + 1) % conversionFactorValue).toNat < 8 := by
  rw [UInt32.toNat_mod]
  exact Nat.mod_lt _ (by decide)

theorem toNat_toUserHandle {pool h : UInt32} (hs : 8 * (h - pool).toNat ≤ 0x3FFFFFFF)
    (loopIndex : UInt32) :
    (toUserHandle pool h loopIndex).1.toNat =
      8 * (h - pool).toNat + 1 + ((loopIndex + 1) % conversionFactorValue).toNat := by
  have hi := loopIndex_lt loopIndex
  have hshift : ((h - pool) <<< conversionFactorBitoffset).toNat = 8 * (h - pool).toNat := by
    rw [UInt32.toNat_shiftLeft, show conversionFactorBitoffset.toNat % 32 = 3 from rfl,
      Nat.shiftLeft_eq]
    omega
  rw [toUserHandle]
  dsimp only
  rw [UInt32.toNat_add, UInt32.toNat_add, hshift, show clientHandleValueMin.toNat = 1 from rfl]
  omega

theorem toUserHandle_ne_null {pool h : UInt32} (hs : 8 * (h - pool).toNat ≤ 0x3FFFFFFF)
    (loopIndex : UInt32) : (toUserHandle pool h loopIndex).1 ≠ 0 := by
  intro h0
  have hnat := toNat_toUserHandle hs loopIndex
  rw [h0, UInt32.toNat_zero] at hnat
  omega

theorem toHandleInstance_toUserHandle {pool h : UInt32}
    (hs : 8 * (h - pool).toNat ≤ 0x3FFFFFFF) (loopIndex : UInt32) :
    toHandleInstance pool (toUserHandle pool h loopIndex).1 = h := by
  have hi := loopIndex_lt loopIndex
  have hnat := toNat_toUserHandle hs loopIndex
  have hback : ((toUserHandle pool h loopIndex).1 - clientHandleValueMin) >>>
      conversionFactorBitoffset = h - pool := by
    apply UInt32.toNat_inj.mp
    rw [UInt32.toNat_shiftRight, show conversionFactorBitoffset.toNat % 32 = 3 from rfl,
      Nat.shiftRight_eq_div_pow, UInt32.toNat_sub, hnat,
      show clientHandleValueMin.toNat = 1 from rfl]
    omega
  rw [toHandleInstance, if_neg (toUserHandle_ne_null hs loopIndex), hback]
  exact UInt32.sub_add_cancel h pool

/-- The indicator bit of a static handle is clear, except at `0x40000000`, which
has no index. -/
theorem toUserHandle_not_static {pool h : UInt32} (hs : 8 * (h - pool).toNat ≤ 0x3FFFFFFF)
    (loopIndex : UInt32) : isValidStaticHandle 32 (toUserHandle pool h loopIndex).1 = false := by
  have hi := loopIndex_lt loopIndex
  have hnat := toNat_toUserHandle hs loopIndex
  by_cases hlt : (toUserHandle pool h loopIndex).1.toNat < 2 ^ 30
  · have hbit : (toUserHandle pool h loopIndex).1 &&& 0x40000000 = 0 := by
      apply UInt32.toNat_inj.mp
      rw [UInt32.toNat_and, show (0x40000000 : UInt32).toNat = 2 ^ 30 from rfl,
        Nat.and_two_pow, Nat.testBit_lt_two_pow hlt]
      rfl
    simp [isValidStaticHandle, hbit]
  · have heq : (toUserHandle pool h loopIndex).1 = 0x40000000 := by
      apply UInt32.toNat_inj.mp
      rw [show (0x40000000 : UInt32).toNat = 2 ^ 30 from rfl]
      omega
    rw [heq]
    decide

/-! ## The membership check -/

namespace PoolDecl
variable (d : PoolDecl)

/-- `chunks_start`, as a number. -/
def start : Nat := (d.addr + sizeofInstance).toNat

theorem start_lt : d.start < 2 ^ 32 := UInt32.toNat_lt _

theorem toNat_chunksEnd :
    (d.inst.chunks + (d.inst.chunksz + sizeofChunk) * d.inst.chunkCount).toNat =
      (d.start + d.chunksSize * d.num.toNat) % 2 ^ 32 := by
  have hfits := d.fits'
  have hchunks : d.inst.chunks.toNat = d.start := rfl
  have hsize : (d.inst.chunksz + sizeofChunk).toNat = d.chunksSize := d.toNat_chunksSize
  have hmul : d.chunksSize * d.num.toNat % 2 ^ 32 = d.chunksSize * d.num.toNat :=
    Nat.mod_eq_of_lt (by omega)
  rw [UInt32.toNat_add, UInt32.toNat_mul, hchunks, hsize, show d.inst.chunkCount = d.num from rfl,
    hmul]

/-- **What the check accepts**, without wrapping arithmetic. -/
theorem isValid_iff (data : UInt32) :
    isValidChunkDataInPool d.inst data = true ↔
      d.start ≤ data.toNat ∧ data.toNat < (d.start + d.chunksSize * d.num.toNat) % 2 ^ 32 ∧
        (data.toNat + (2 ^ 32 - 8) + (2 ^ 32 - d.start)) % 2 ^ 32 % d.chunksSize = 0 := by
  have hchunks : d.inst.chunks.toNat = d.start := rfl
  have hlt : (data < d.inst.chunks) ↔ data.toNat < d.start := by
    rw [UInt32.lt_iff_toNat_lt, hchunks]
  have hge : (data ≥ d.inst.chunks + (d.inst.chunksz + sizeofChunk) * d.inst.chunkCount) ↔
      (d.start + d.chunksSize * d.num.toNat) % 2 ^ 32 ≤ data.toNat := by
    rw [ge_iff_le, UInt32.le_iff_toNat_le, toNat_chunksEnd]
  have hmod : ((data - sizeofChunk - d.inst.chunks) % (d.inst.chunksz + sizeofChunk) = 0) ↔
      (data.toNat + (2 ^ 32 - 8) + (2 ^ 32 - d.start)) % 2 ^ 32 % d.chunksSize = 0 := by
    have hstart := d.start_lt
    have hsize : (d.inst.chunksz + sizeofChunk).toNat = d.chunksSize := d.toNat_chunksSize
    have hsub : (data - sizeofChunk - d.inst.chunks).toNat =
        (data.toNat + (2 ^ 32 - 8) + (2 ^ 32 - d.start)) % 2 ^ 32 := by
      rw [UInt32.toNat_sub, UInt32.toNat_sub, hchunks, show sizeofChunk.toNat = 8 from rfl]
      omega
    rw [← UInt32.toNat_inj, UInt32.toNat_mod, hsub, hsize, UInt32.toNat_zero]
  unfold isValidChunkDataInPool
  dsimp only
  by_cases hin : data < d.inst.chunks ∨
      data ≥ d.inst.chunks + (d.inst.chunksz + sizeofChunk) * d.inst.chunkCount
  · rw [if_pos hin]
    rw [hlt, hge] at hin
    constructor
    · intro h
      cases h
    · intro h
      omega
  · rw [if_neg hin]
    rw [hlt, hge] at hin
    by_cases h0 : (data - sizeofChunk - d.inst.chunks) % (d.inst.chunksz + sizeofChunk) = 0
    · simp only [h0, ne_eq, not_true_eq_false, if_false, true_iff]
      exact ⟨by omega, by omega, hmod.mp h0⟩
    · simp only [h0, ne_eq, not_false_eq_true, if_true]
      constructor
      · intro h
        cases h
      · intro h
        exact absurd (hmod.mpr h.2.2) h0

theorem isValid_above {data : UInt32} (hend : d.start + d.chunksSize * d.num.toNat < 2 ^ 32)
    (hlow : d.start + 8 ≤ data.toNat) :
    isValidChunkDataInPool d.inst data = true ↔
      data.toNat < d.start + d.chunksSize * d.num.toNat ∧
        (data.toNat - d.start - 8) % d.chunksSize = 0 := by
  have hdata := data.toNat_lt
  have hsub : (data.toNat + (2 ^ 32 - 8) + (2 ^ 32 - d.start)) % 2 ^ 32 =
      data.toNat - d.start - 8 := by omega
  rw [isValid_iff, Nat.mod_eq_of_lt hend, hsub]
  constructor
  · intro h
    exact ⟨h.2.1, h.2.2⟩
  · intro h
    exact ⟨by omega, h.1, h.2⟩

/-- In the list node of the first chunk the difference wraps. -/
theorem isValid_below {data : UInt32} (hend : d.start + d.chunksSize * d.num.toNat < 2 ^ 32)
    (hlow : d.start ≤ data.toNat) (hhigh : data.toNat < d.start + 8) :
    isValidChunkDataInPool d.inst data = true ↔
      (2 ^ 32 - (d.start + 8 - data.toNat)) % d.chunksSize = 0 := by
  have hpos := d.chunksSize_pos
  have hmul := Nat.le_mul_of_pos_right d.chunksSize d.num_pos
  have hsub : (data.toNat + (2 ^ 32 - 8) + (2 ^ 32 - d.start)) % 2 ^ 32 =
      2 ^ 32 - (d.start + 8 - data.toNat) := by omega
  rw [isValid_iff, Nat.mod_eq_of_lt hend, hsub]
  constructor
  · intro h
    exact h.2.2
  · intro h
    exact ⟨hlow, by omega, h⟩

theorem mem_payloads_start (hend : d.start + d.chunksSize * d.num.toNat < 2 ^ 32)
    (data : UInt32) :
    data ∈ d.payloads ↔ ∃ k < d.num.toNat, data.toNat = d.start + 8 + d.chunksSize * k := by
  have haddr : d.start = (d.addr.toNat + 16) % 2 ^ 32 := by
    rw [start, UInt32.toNat_add]
    rfl
  rw [mem_payloads]
  constructor
  · intro h
    obtain ⟨k, hk, hdata⟩ := h
    have hle := d.offset_le hk
    exact ⟨k, hk, by omega⟩
  · intro h
    obtain ⟨k, hk, hdata⟩ := h
    have hle := d.offset_le hk
    have hlt := data.toNat_lt
    exact ⟨k, hk, by omega⟩

theorem not_all_of_wrap (hend : 2 ^ 32 ≤ d.start + d.chunksSize * d.num.toNat) :
    ∃ data ∈ d.payloads, isValidChunkDataInPool d.inst data = false := by
  have hstart := d.start_lt
  have hfits := d.fits'
  obtain ⟨h, hh⟩ : ∃ h, h ∈ d.payloads := by
    refine ⟨d.addr + 24, (d.mem_payloads _).mpr ⟨0, d.num_pos, ?_⟩⟩
    rw [UInt32.toNat_add]
    rfl
  refine ⟨h, hh, ?_⟩
  rw [← Bool.not_eq_true, isValid_iff]
  intro hin
  omega

/-- With an empty payload the last chunk's is at the end of the pool. -/
theorem not_all_of_empty (hend : d.start + d.chunksSize * d.num.toNat < 2 ^ 32)
    (hempty : d.chunksz.toNat = 0) :
    ∃ data ∈ d.payloads, isValidChunkDataInPool d.inst data = false := by
  have hpos := d.num_pos
  have hsize : d.chunksSize = 8 := by
    rw [chunksSize, hempty]
  rw [hsize] at hend
  have hnat : (UInt32.ofNat (d.start + 8 * d.num.toNat)).toNat = d.start + 8 * d.num.toNat := by
    rw [UInt32.toNat_ofNat', Nat.mod_eq_of_lt hend]
  refine ⟨UInt32.ofNat (d.start + 8 * d.num.toNat), ?_, ?_⟩
  · apply (d.mem_payloads_start (by rw [hsize]; exact hend) _).mpr
    refine ⟨d.num.toNat - 1, by omega, ?_⟩
    rw [hnat, hsize]
    omega
  · rw [← Bool.not_eq_true, isValid_iff, hnat, hsize, Nat.mod_eq_of_lt hend]
    intro h
    exact Nat.lt_irrefl _ h.2.1

theorem not_only_of_divides (hend : d.start + d.chunksSize * d.num.toNat < 2 ^ 32)
    (hdiv : 0 < 2 ^ 32 % d.chunksSize) (hle : 2 ^ 32 % d.chunksSize ≤ 8) :
    ∃ data, isValidChunkDataInPool d.inst data = true ∧ data ∉ d.payloads := by
  have hstart := d.start_lt
  have hsize := d.chunksSize_pos
  have hmul := Nat.le_mul_of_pos_right d.chunksSize d.num_pos
  obtain ⟨r, hr⟩ : ∃ r, r = 2 ^ 32 % d.chunksSize := ⟨_, rfl⟩
  rw [← hr] at hdiv hle
  have hnat : (UInt32.ofNat (d.start + 8 - r)).toNat = d.start + 8 - r := by
    rw [UInt32.toNat_ofNat', Nat.mod_eq_of_lt (by omega)]
  refine ⟨UInt32.ofNat (d.start + 8 - r), ?_, ?_⟩
  · apply (d.isValid_below hend (by omega) (by omega)).mpr
    rw [hnat, show d.start + 8 - (d.start + 8 - r) = r by omega, hr]
    exact Nat.sub_mod_eq_zero_of_mod_eq (Nat.mod_mod _ _).symm
  · intro hmem
    obtain ⟨k, -, hk⟩ := (d.mem_payloads_start hend _).mp hmem
    omega

/-- **The check is exact for the exact pools, and for no others.** -/
theorem membership_iff :
    (∀ data, isValidChunkDataInPool d.inst data = true ↔ data ∈ d.payloads) ↔ d.Exact := by
  constructor
  · intro h
    have hend : d.start + d.chunksSize * d.num.toNat < 2 ^ 32 := by
      apply Nat.lt_of_not_le
      intro hle
      obtain ⟨data, hmem, hno⟩ := d.not_all_of_wrap hle
      exact absurd ((h data).mpr hmem) (Bool.not_eq_true _ ▸ hno)
    refine ⟨hend, ?_, ?_⟩
    · apply Nat.pos_of_ne_zero
      intro hempty
      obtain ⟨data, hmem, hno⟩ := d.not_all_of_empty hend hempty
      exact absurd ((h data).mpr hmem) (Bool.not_eq_true _ ▸ hno)
    · apply Decidable.or_iff_not_imp_left.mpr
      intro hne
      apply Nat.lt_of_not_le
      intro hle
      obtain ⟨data, hyes, hmem⟩ := d.not_only_of_divides hend (Nat.pos_of_ne_zero hne) hle
      exact hmem ((h data).mp hyes)
  · intro h data
    obtain ⟨hend, hpos, hdiv⟩ := h
    have hend' : d.start + d.chunksSize * d.num.toNat < 2 ^ 32 := hend
    have hsize : 8 < d.chunksSize := Nat.lt_add_of_pos_left hpos
    by_cases hlow : d.start + 8 ≤ data.toNat
    · rw [d.isValid_above hend' hlow, d.mem_payloads_start hend']
      constructor
      · intro hin
        obtain ⟨k, hk⟩ := Nat.dvd_of_mod_eq_zero hin.2
        refine ⟨k, ?_, by omega⟩
        apply Nat.lt_of_mul_lt_mul_left
        show d.chunksSize * k < d.chunksSize * d.num.toNat
        omega
      · intro hin
        obtain ⟨k, hk, hdata⟩ := hin
        have hmul : d.chunksSize * (k + 1) ≤ d.chunksSize * d.num.toNat :=
          Nat.mul_le_mul_left d.chunksSize hk
        rw [Nat.mul_succ] at hmul
        refine ⟨by omega, ?_⟩
        rw [show data.toNat - d.start - 8 = d.chunksSize * k by omega]
        exact Nat.mul_mod_right _ _
    · -- below the first payload nothing is one, and nothing may be accepted
      have hnot : data ∉ d.payloads := by
        intro hmem
        obtain ⟨k, -, hk⟩ := (d.mem_payloads_start hend' _).mp hmem
        omega
      simp only [hnot, iff_false]
      intro hyes
      have hstart : d.start ≤ data.toNat := ((d.isValid_iff data).mp hyes).1
      have hzero := (d.isValid_below hend' hstart (by omega)).mp hyes
      obtain ⟨t, ht⟩ : ∃ t, t = d.start + 8 - data.toNat := ⟨_, rfl⟩
      rw [← ht] at hzero
      obtain ⟨q, hq⟩ := Nat.dvd_of_mod_eq_zero hzero
      have hrem : 2 ^ 32 % d.chunksSize = t := by
        rw [show 2 ^ 32 = d.chunksSize * q + t by omega, Nat.mul_add_mod, Nat.mod_eq_of_lt]
        omega
      omega

/-! ## Both together -/

/-- At every chunk and every value of the rolling index the conversions invert
each other, and the client sees neither `PSA_NULL_HANDLE` nor a static handle. -/
def HandlesInvert : Prop :=
  ∀ h ∈ d.payloads, ∀ loopIndex,
    toHandleInstance d.addr (toUserHandle d.addr h loopIndex).1 = h ∧
      (toUserHandle d.addr h loopIndex).1 ≠ 0 ∧
      isValidStaticHandle 32 (toUserHandle d.addr h loopIndex).1 = false

/-- The check accepts the payloads of the chunks and nothing else. -/
def MembershipExact : Prop :=
  ∀ data, isValidChunkDataInPool d.inst data = true ↔ data ∈ d.payloads

theorem handlesInvert (hs : d.Small) : d.HandlesInvert := by
  intro h hh loopIndex
  have hsmall := hs h hh
  exact ⟨toHandleInstance_toUserHandle hsmall loopIndex, toUserHandle_ne_null hsmall loopIndex,
    toUserHandle_not_static hsmall loopIndex⟩

end PoolDecl

/-- **Handles and membership of every small pool.** The handles are always right;
the membership check is right for the exact pools and for no others. -/
theorem pool_right_iff (d : PoolDecl) (hs : d.Small) :
    (d.HandlesInvert ∧ d.MembershipExact ↔ d.Exact) ∧ d.HandlesInvert := by
  have hinv := d.handlesInvert hs
  refine ⟨?_, hinv⟩
  constructor
  · intro h
    exact d.membership_iff.mp h.2
  · intro h
    exact ⟨hinv, d.membership_iff.mpr h⟩

/-- Four chunks of 20 bytes. -/
def unevenPool : PoolDecl where
  addr := 0x20000000
  chunksz := 20
  num := 4
  nonnull := by decide
  pos := by decide
  fits := by decide

theorem pool_right_iff_uneven :
    unevenPool.Small ∧
      (unevenPool.HandlesInvert ∧ unevenPool.MembershipExact ↔ unevenPool.Exact) :=
  ⟨by decide, (pool_right_iff unevenPool (by decide)).1⟩

/-- The first payload is at `0x20000018`. The check accepts `0x20000014`, inside
the list node of the first chunk: `2 ^ 32 - 4` is a multiple of 28. -/
theorem uneven_list_node :
    unevenPool.Small ∧ isValidChunkDataInPool unevenPool.inst 0x20000014 = true ∧
      0x20000014 ∉ unevenPool.payloads := by
  decide

/-! ## The connection pool -/

/-- `conn_handle_pool` at an address: 16 chunks of 168 bytes. -/
def connPool (addr : UInt32) (h : addr ≠ 0) : PoolDecl where
  addr := addr
  chunksz := 168
  num := 16
  nonnull := h
  pos := by decide
  fits := by decide

section ConnPool
variable (addr : UInt32) (h : addr ≠ 0)

/-- The check of the connection pool is exact, wherever it does not reach the
end of the address space. -/
theorem connPool_exact (hend : addr.toNat + 2832 < 2 ^ 32) : (connPool addr h).MembershipExact := by
  apply (connPool addr h).membership_iff.mpr
  have hstart : (addr + sizeofInstance).toNat = addr.toNat + 16 := by
    rw [UInt32.toNat_add, show sizeofInstance.toNat = 16 from rfl]
    omega
  refine ⟨?_, show 0 < 168 by decide, .inr (show 8 < 2 ^ 32 % 176 by decide)⟩
  show (addr + sizeofInstance).toNat + 176 * 16 < 2 ^ 32
  omega

theorem toUserHandle_connPool (k : Spm.Chunk) (loopIndex : UInt32) :
    (toUserHandle addr (addr + UInt32.ofNat (Spm.connOffset k)) loopIndex).1 =
      Spm.toUserHandle k ((loopIndex + 1) % conversionFactorValue).toNat := by
  have hk : k.val < 16 := k.isLt
  have hi := loopIndex_lt loopIndex
  have hoff : Spm.connOffset k = 24 + 176 * k.val := rfl
  have hsub : (addr + UInt32.ofNat (Spm.connOffset k) - addr).toNat = 24 + 176 * k.val := by
    rw [UInt32.add_comm, UInt32.add_sub_cancel, UInt32.toNat_ofNat', hoff]
    exact Nat.mod_eq_of_lt (by omega)
  apply UInt32.toNat_inj.mp
  rw [toNat_toUserHandle (by rw [hsub]; omega), hsub, Spm.toUserHandle, UInt32.toNat_ofNat', hoff,
    Nat.shiftLeft_eq]
  omega

theorem toHandleInstance_connPool (userHandle : UInt32) :
    toHandleInstance addr userHandle =
      (Spm.toHandleInstance userHandle).elim 0 fun off => UInt32.ofNat off + addr := by
  by_cases h0 : userHandle = 0
  · simp [toHandleInstance, Spm.toHandleInstance, h0]
  · rw [toHandleInstance, if_neg h0, Spm.toHandleInstance, if_neg h0, Option.elim_some,
      UInt32.ofNat_toNat]
    rfl

theorem isValid_connPool {off : Nat} (hoff : addr.toNat + off < 2 ^ 32)
    (hend : addr.toNat + 2832 < 2 ^ 32) :
    isValidChunkDataInPool (connPool addr h).inst (addr + UInt32.ofNat off) =
      Spm.isValidChunkDataInPool off := by
  have hstart : (connPool addr h).start = addr.toNat + 16 := by
    show (addr + sizeofInstance).toNat = addr.toNat + 16
    rw [UInt32.toNat_add, show sizeofInstance.toNat = 16 from rfl]
    omega
  have hdata : (addr + UInt32.ofNat off).toNat = addr.toNat + off := by
    rw [UInt32.toNat_add, UInt32.toNat_ofNat']
    omega
  have hsize : (connPool addr h).chunksSize * (connPool addr h).num.toNat = 176 * 16 := rfl
  have htop : (addr.toNat + 16 + 176 * 16) % 2 ^ 32 = addr.toNat + 2832 :=
    Nat.mod_eq_of_lt hend
  have hsub : (addr.toNat + off + (2 ^ 32 - 8) + (2 ^ 32 - (addr.toNat + 16))) % 2 ^ 32 =
      (off + 2 ^ 32 - 8 - 16) % 2 ^ 32 := by
    rw [show addr.toNat + off + (2 ^ 32 - 8) + (2 ^ 32 - (addr.toNat + 16)) =
      off + 2 ^ 32 - 8 - 16 + 2 ^ 32 by omega]
    exact Nat.add_mod_right _ _
  rw [Bool.eq_iff_iff, PoolDecl.isValid_iff, hstart, hdata, hsize,
    show (connPool addr h).chunksSize = 176 from rfl, htop, hsub]
  have hspm : Spm.isValidChunkDataInPool off = true ↔
      (16 ≤ off ∧ off < 16 + 176 * 16) ∧ (off + 2 ^ 32 - 8 - 16) % 2 ^ 32 % 176 = 0 := by
    rw [Spm.isValidChunkDataInPool, Bool.and_eq_true, Bool.and_eq_true, decide_eq_true_iff,
      decide_eq_true_iff, beq_iff_eq]
    rfl
  rw [hspm]
  constructor
  · intro hin
    exact ⟨⟨by omega, by omega⟩, hin.2.2⟩
  · intro hin
    exact ⟨by omega, by omega, hin.2⟩

end ConnPool

end Tfm.L4.Pools
