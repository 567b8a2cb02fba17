import Tfm.Core.Within
import Tfm.L4Service.ItsReach

/-!
# Calls inside of the flash area

With `ITS_VALIDATE_METADATA_FROM_FLASH` an entry of the metadata is checked when it is
read. The checks are about one entry: where the data of a file ends is compared with the
end of the block, not with where the free bytes of the block start, and the sizes of the
files of a block are not added up. On flash that the filesystem did not write, two of the
copies of an update can so leave the block: what is behind a file when it is written in
place, and what is behind a file that is deleted.

Results:
* `leads_deleteIdx`, `leads_fileWriteFirst`: an update on any metadata, if its copies fit.
* `keeps_fileRead`: a read on any metadata.
* `placed_prepare`: what a mount that is accepted says about the context.
* `calls_inside`: every run from any flash; `calls_outside_crowded`: a copy that does not fit.
-/
namespace Tfm.L4.Its
open Tfm.BlockDev Tfm.Bytes

/-! ## Devices and contexts -/

/-- `D` is a flash device, of which `look` is what is on the flash: a call changes the block
it is about only, and an erase outside of the area is refused. -/
structure Regular {δ : Type} (c : Config) (D : Dev PsaStatus δ) (look : δ → Flash) : Prop where
  read : ∀ d b off n l, (D d (.read b off n)).1 = .ok l → l = (look d).read b off n
  idle : ∀ d b off n, look (D d (.read b off n)).2 = look d
  write : ∀ d b off l b', b' ≠ b → look (D d (.write b off l)).2 b' = look d b'
  refused : ∀ d b l, (D d (.erase b)).1 = .ok l → b < c.numBlocks

/-- So is `D`, but nothing is said of a call that is not inside of the area. -/
structure Faithful {δ : Type} (c : Config) (D : Dev PsaStatus δ) (look : δ → Flash) : Prop where
  read : ∀ d b off n l, (Op.read b off n).Inside c.numBlocks c.blockSize →
    (D d (.read b off n)).1 = .ok l → l = (look d).read b off n
  idle : ∀ d b off n, (Op.read b off n).Inside c.numBlocks c.blockSize →
    look (D d (.read b off n)).2 = look d
  write : ∀ d b off l b', (Op.write b off l).Inside c.numBlocks c.blockSize → b' ≠ b →
    look (D d (.write b off l)).2 b' = look d b'

theorem Regular.faithful {δ : Type} {c : Config} {D : Dev PsaStatus δ} {look : δ → Flash}
    (h : Regular c D look) : Faithful c D look :=
  ⟨fun d b off n l _ => h.read d b off n l, fun d b off n _ => h.idle d b off n,
    fun d b off l b' _ => h.write d b off l b'⟩

/-- There is a scratch data block. -/
def Ctx.ScratchInside (c : Config) (x : Ctx) : Prop :=
  2 < c.numBlocks → x.header.scratchDblock < c.numBlocks

instance (c : Config) (x : Ctx) : Decidable (x.ScratchInside c) :=
  inferInstanceAs (Decidable (_ → _))

/-- The blocks that the context names are in the area, if it is `loose` the scratch data block
excepted. -/
structure Ctx.Placed (c : Config) (loose : Prop) (x : Ctx) : Prop where
  active : x.activeMetablock < 2
  scratch : x.scratchMetablock < 2
  apart : x.scratchMetablock ≠ x.activeMetablock
  dblock : loose ∨ x.ScratchInside c

/-- The call is inside of the flash area, if anything is asked of it. -/
def Allowed (c : Config) (free : Prop) (o : Op) : Prop := free ∨ o.Inside c.numBlocks c.blockSize

section States

variable {δ : Type} {c : Cfg} {D : Dev PsaStatus δ} {look : δ → Flash} {x₀ : Ctx} {d₀ : δ}
  {K : Ctx → δ → Prop} {loose : Prop}

/-- Whatever is on the flash. -/
def Proper (c : Cfg) (loose : Prop) (x : Ctx) (_ : δ) : Prop := x.Placed c.toConfig loose

/-- The context is `x₀`, and the active metadata block is as in `d₀`. -/
def Holding (look : δ → Flash) (x₀ : Ctx) (d₀ : δ) (x : Ctx) (d : δ) : Prop :=
  x = x₀ ∧ look d x₀.activeMetablock = look d₀ x₀.activeMetablock

/-- Reading, and writing the scratch metadata block, does not leave `K`. -/
structure Stays (c : Cfg) (loose : Prop) (D : Dev PsaStatus δ) (K : Ctx → δ → Prop) : Prop where
  placed : ∀ x d, K x d → x.Placed c.toConfig loose
  read : ∀ x d b off n, (Op.read b off n).Inside c.numBlocks c.blockSize → K x d →
    K x (D d (.read b off n)).2
  scratch : ∀ x d off l, (Op.write x.scratchMetablock off l).Inside c.numBlocks c.blockSize →
    K x d → K x (D d (.write x.scratchMetablock off l)).2

/-- All states of `K` have the metadata `t`. -/
def Shows (c : Cfg) (look : δ → Flash) (K : Ctx → δ → Prop) (t : Tab) : Prop :=
  ∀ x d, K x d → tableOf c (x, look d) = t

theorem stays_proper : Stays c loose D (Proper c loose) :=
  ⟨fun _ _ h => h, fun _ _ _ _ _ _ h => h, fun _ _ _ _ _ h => h⟩

theorem stays_holding (d₀ : δ) (hD : Faithful c.toConfig D look) (hx : x₀.Placed c.toConfig loose) :
    Stays c loose D (Holding look x₀ d₀) := by
  refine ⟨fun x d hK => hK.1 ▸ hx, fun x d b off n hin hK => ⟨hK.1, ?_⟩,
    fun x d off l hin hK => ⟨hK.1, ?_⟩⟩
  · rw [hD.idle _ _ _ _ hin]
    exact hK.2
  · rw [hD.write _ _ _ _ _ hin (hK.1 ▸ hx.apart.symm)]
    exact hK.2

theorem shows_holding : Shows c look (Holding look x₀ d₀) (tableOf c (x₀, look d₀)) := by
  intro x d hK
  obtain ⟨rfl, hb⟩ := hK
  unfold tableOf Flash.read
  dsimp only
  rw [hb]

theorem memRegular : Regular c.toConfig (memOps c.toConfig) id := by
  refine ⟨fun d b off n l h => ?_, fun d b off n => ?_, fun d b off l b' hb => ?_,
    fun d b l h => ?_⟩
  · unfold memOps at h
    dsimp only at h
    split at h
    · exact (Except.ok.inj h).symm
    · cases h
  · unfold memOps
    dsimp only
    split <;> rfl
  · unfold memOps
    dsimp only
    split
    · funext o
      exact if_neg fun h => hb h.1
    · rfl
  · unfold memOps at h
    dsimp only at h
    split at h
    · next hlt => exact hlt
    · cases h

end States

/-! ## Metadata -/

section Metadata

variable {δ : Type} {c : Cfg} {D : Dev PsaStatus δ} {look : δ → Flash} {K : Ctx → δ → Prop}
  {free loose : Prop} {α : Type} {R : α → Prop} {x : Ctx}

theorem allowed_write {b off : Nat} {l : List UInt8} (hb : b < c.numBlocks)
    (h : off + l.length ≤ c.blockSize) : Allowed c.toConfig free (.write b off l) := .inr ⟨hb, h⟩

theorem Ctx.Placed.active_lt (h : x.Placed c.toConfig loose) : x.activeMetablock < c.numBlocks :=
  Nat.lt_of_lt_of_le h.active c.two_le

theorem Ctx.Placed.scratch_lt (h : x.Placed c.toConfig loose) : x.scratchMetablock < c.numBlocks :=
  Nat.lt_of_lt_of_le h.scratch c.two_le

theorem Ctx.Placed.scratchId_lt (h : x.Placed c.toConfig loose) {l : Nat}
    (hl : l < c.numActiveDblocks) : loose ∨ curDataScratchId x l < c.numBlocks := by
  unfold curDataScratchId
  split
  · exact .inr h.scratch_lt
  · next hl0 => exact h.dblock.imp_right fun h => h (c.two_lt (Nat.pos_of_ne_zero hl0) hl)

theorem Cfg.blockMeta_le {l : Nat} (hl : l < c.numActiveDblocks) :
    c.blockMetaOffset l + c.blockMetaSize ≤ c.fileMetaOffset 0 := by
  rw [← c.blockMetaOffset_active]
  exact c.blockMetaOffset_lt hl

theorem Cfg.blockMeta_inside {l : Nat} (hl : l < c.numActiveDblocks) :
    c.blockMetaOffset l + c.blockMetaSize ≤ c.blockSize :=
  (Cfg.blockMeta_le hl).trans (c.fileMetaOffset_le.trans c.metaEnd_le)

theorem Cfg.fileMeta_inside {i : Nat} (hi : i < c.maxNumFiles) :
    c.fileMetaOffset i + c.fileMetaSize ≤ c.blockSize :=
  (c.fileMetaOffset_lt hi).trans c.metaEnd_le

theorem keeps_get {Q : Except PsaStatus α → Ctx → δ → Prop} {P : Op → Prop} {f : Ctx → M α}
    (hK : Stays c loose D K) (hf : ∀ x, x.Placed c.toConfig loose → Leads D P K (f x) Q) :
    Leads D P K (get >>= f) Q :=
  leads_get fun x => leads_assume (fun _ _ h => h.1 ▸ hK.placed _ _ h.2) fun hx =>
    (hf x hx).from fun _ _ h => h.2

/-- A read of the active metadata block. -/
theorem keeps_readActive (hD : Faithful c.toConfig D look) (hK : Stays c loose D K) {off n : Nat}
    (hin : off + n ≤ c.blockSize) {f : List UInt8 → M α}
    (hf : ∀ l, (∃ x d, K x d ∧ l = (look d).read x.activeMetablock off n) →
      Keeps D (Allowed c.toConfig free) K (f l) R) :
    Keeps D (Allowed c.toConfig free) K
      (get >>= fun x => call (.read x.activeMetablock off n) >>= f) R := by
  refine leads_get fun x => leads_assume (fun _ _ h => h.1 ▸ hK.placed _ _ h.2) fun hx => ?_
  have hinside : (Op.read x.activeMetablock off n).Inside c.numBlocks c.blockSize :=
    ⟨hx.active_lt, hin⟩
  refine (keeps_call (J := K) (.inr hinside) fun x' d h => ⟨hK.read _ _ _ _ _ hinside h.2,
    fun l hl => ?_⟩).andThen (fun _ _ => id) hf
  obtain ⟨rfl, hk⟩ := h
  exact ⟨x', d, hk, hD.read _ _ _ _ _ hinside hl⟩

/-- A write to the scratch metadata block. -/
theorem keeps_writeScratch (hK : Stays c loose D K) {off n : Nat} {l : List UInt8}
    (hl : l.length ≤ n) (hin : off + n ≤ c.blockSize) :
    Keeps D (Allowed c.toConfig free) K (do
      let x ← get
      let _ ← call (.write x.scratchMetablock off (pad n l))) fun _ => True := by
  refine leads_get fun x => leads_assume (fun _ _ h => h.1 ▸ hK.placed _ _ h.2) fun hx => ?_
  have hinside : (Op.write x.scratchMetablock off (pad n l)).Inside c.numBlocks c.blockSize := by
    refine ⟨hx.scratch_lt, ?_⟩
    rw [length_pad hl]
    exact hin
  refine (keeps_call (J := K) (R := fun _ => True) (.inr hinside)
    fun x' d h => ⟨?_, fun _ _ => trivial⟩).andThen (fun _ _ => id) fun _ _ => keeps_pure trivial
  obtain ⟨rfl, hk⟩ := h
  exact hK.scratch _ _ _ _ hinside hk

theorem keeps_readFileMeta (hv : c.validate = true) (hD : Faithful c.toConfig D look)
    (hK : Stays c loose D K) {i : Nat} (hi : i < c.maxNumFiles) :
    Keeps D (Allowed c.toConfig free) K (readFileMeta c i) fun m =>
      validateFileMeta c m = true ∧ ∀ t, Shows c look K t → m = t.fm i := by
  refine keeps_readActive hD hK (Cfg.fileMeta_inside hi) fun l hl => ?_
  refine leads_ite (fun _ => keeps_throw) fun h => keeps_pure ⟨?_, fun t ht => ?_⟩
  · simpa [hv] using h
  · obtain ⟨x, d, hk, rfl⟩ := hl
    rw [← ht x d hk]
    rfl

theorem keeps_readBlockMetadata (hv : c.validate = true) (hD : Faithful c.toConfig D look)
    (hK : Stays c loose D K) {l : Nat} (hl : l < c.numActiveDblocks) :
    Keeps D (Allowed c.toConfig free) K (readBlockMetadata c l) fun b =>
      validateBlockMeta c b = true ∧ ∀ t, Shows c look K t → b = t.bm l := by
  refine keeps_readActive hD hK (Cfg.blockMeta_inside hl) fun bytes hb => ?_
  refine leads_ite (fun _ => keeps_throw) fun h => keeps_pure ⟨?_, fun t ht => ?_⟩
  · simpa [hv] using h
  · obtain ⟨x, d, hk, rfl⟩ := hb
    rw [← ht x d hk]
    rfl

theorem keeps_updateScratchFileMeta (hK : Stays c loose D K) {i : Nat} (hi : i < c.maxNumFiles)
    (m : FileMeta) :
    Keeps D (Allowed c.toConfig free) K (updateScratchFileMeta c i m) fun _ => True :=
  keeps_writeScratch hK (m.length_bytes ▸ c.le_fileMetaSize) (Cfg.fileMeta_inside hi)

theorem keeps_writeScratchBlockMeta (hK : Stays c loose D K) {l : Nat} (hl : l < c.numActiveDblocks)
    (m : BlockMeta) :
    Keeps D (Allowed c.toConfig free) K (writeScratchBlockMeta c l m) fun _ => True :=
  keeps_writeScratch hK (m.length_bytes ▸ c.le_blockMetaSize) (Cfg.blockMeta_inside hl)

end Metadata

/-! ## Searches -/

section Searches

variable {δ : Type} {c : Cfg} {D : Dev PsaStatus δ} {look : δ → Flash} {K : Ctx → δ → Prop}
  {free loose : Prop}

theorem keeps_freeLoop (hv : c.validate = true) (hD : Faithful c.toConfig D look)
    (hK : Stays c loose D K) (n : Nat) : ∀ spare i, i + n ≤ c.maxNumFiles →
    Keeps D (Allowed c.toConfig free) K (getFreeFileIndexLoop c spare n i) fun r =>
      ∀ j, r = some j → j < c.maxNumFiles := by
  induction n with
  | zero =>
    intro spare i _
    refine keeps_pure fun j hj => ?_
    cases hj
  | succ n ih =>
    intro spare i hi
    refine keeps_bind (keeps_attempt (keeps_readFileMeta hv hD hK (by omega))) fun r _ => ?_
    cases r with
    | error e =>
      refine keeps_pure fun j hj => ?_
      cases hj
    | ok m =>
      refine leads_ite (fun _ => ih spare (i + 1) (by omega)) fun _ => ?_
      refine leads_ite (fun _ => keeps_pure fun j hj => ?_) fun _ => ih true (i + 1) (by omega)
      cases hj
      omega

/-- The first block with room: its checked metadata, and the file in it. -/
theorem keeps_reserveLoop (hv : c.validate = true) (hD : Faithful c.toConfig D look)
    (hK : Stays c loose D K) (fid size flags n : Nat) : ∀ i, i + n ≤ c.numActiveDblocks →
    Keeps D (Allowed c.toConfig free) K (mblockReserveFileLoop c fid size flags n i) fun r =>
      r.1.lblock < c.numActiveDblocks ∧ ∃ b, validateBlockMeta c b = true ∧ size ≤ b.freeSize ∧
        r.1.dataIdx = sub32 c.blockSize b.freeSize ∧ r.1.curSize = 0 ∧ r.1.maxSize = size ∧
        r.2 = { b with freeSize := b.freeSize - size } := by
  induction n with
  | zero => exact fun _ _ => keeps_throw
  | succ n ih =>
    intro i hi
    refine keeps_bind (keeps_recast (keeps_readBlockMetadata hv hD hK (by omega)))
      fun b hb => ?_
    refine leads_ite (fun hsize => keeps_pure ?_) fun _ => ih (i + 1) (by omega)
    exact ⟨by show i < _; omega, b, hb.1, hsize, rfl, rfl, rfl, rfl⟩

/-- The entry that is found, and the entries before it, are checked. -/
theorem keeps_findFileLoop (hv : c.validate = true) (hD : Faithful c.toConfig D look)
    (hK : Stays c loose D K) (p : FileMeta → Bool) (n : Nat) : ∀ i, i + n ≤ c.maxNumFiles →
    Keeps D (Allowed c.toConfig free) K (findFileLoop c p n i) fun j => j < c.maxNumFiles ∧
      ∀ t, Shows c look K t → findIdx t.fm p n i = some j ∧
        ∀ k, i ≤ k → k < j + 1 → validateFileMeta c (t.fm k) = true := by
  induction n with
  | zero => exact fun _ _ => keeps_throw
  | succ n ih =>
    intro i hi
    refine keeps_bind (keeps_recast (keeps_readFileMeta hv hD hK (by omega))) fun m hm => ?_
    refine leads_ite (fun hp => keeps_pure ⟨by omega, fun t ht => ⟨?_, fun k h1 h2 => ?_⟩⟩)
      fun hp => (ih (i + 1) (by omega)).weaken fun j hj =>
        ⟨hj.1, fun t ht => ⟨?_, fun k h1 h2 => ?_⟩⟩
    · unfold findIdx
      rw [if_pos (hm.2 t ht ▸ hp)]
    · have hk : k = i := by omega
      rw [hk, ← hm.2 t ht]
      exact hm.1
    · unfold findIdx
      rw [if_neg (hm.2 t ht ▸ hp)]
      exact (hj.2 t ht).1
    · by_cases hk : k = i
      · rw [hk, ← hm.2 t ht]
        exact hm.1
      · exact (hj.2 t ht).2 k (by omega) h2

end Searches

/-! ## Copies -/

section Copies

variable {δ : Type} {c : Cfg} {D : Dev PsaStatus δ} {look : δ → Flash} {free loose : Prop}

/-- The copy of `size` bytes is inside of the flash area. -/
structure CopyInside (c : Config) (dst doff src soff size : Nat) : Prop where
  dst : dst < c.numBlocks
  src : src < c.numBlocks
  doff : doff + size ≤ c.blockSize
  soff : soff + size ≤ c.blockSize

theorem CopyInside.read {dst doff src soff size n : Nat}
    (h : CopyInside c.toConfig dst doff src soff size) (hn : n ≤ size) :
    (Op.read src soff n).Inside c.numBlocks c.blockSize :=
  ⟨h.src, (Nat.add_le_add_left hn soff).trans h.soff⟩

theorem CopyInside.write {dst doff src soff size : Nat} {l : List UInt8}
    (h : CopyInside c.toConfig dst doff src soff size) (hn : l.length ≤ size) :
    (Op.write dst doff l).Inside c.numBlocks c.blockSize :=
  ⟨h.dst, (Nat.add_le_add_left hn doff).trans h.doff⟩

theorem CopyInside.rest {dst doff src soff size n : Nat}
    (h : CopyInside c.toConfig dst doff src soff size) (hn : n ≤ size) :
    CopyInside c.toConfig dst (add32 doff n) src (add32 soff n) (size - n) := by
  have hb := c.blockSize_lt
  have h1 := h.doff
  have h2 := h.soff
  refine ⟨h.dst, h.src, ?_, ?_⟩
  · rw [add32_of_lt (by omega)]
    omega
  · rw [add32_of_lt (by omega)]
    omega

theorem keeps_copyLoop (hD : Faithful c.toConfig D look) (dst src fuel : Nat) :
    ∀ doff soff size, free ∨ CopyInside c.toConfig dst doff src soff size →
    Keeps D (Allowed c.toConfig free) (Proper c loose)
      (blockToBlockMoveLoop dst src fuel doff soff size) fun _ => True := by
  induction fuel with
  | zero => exact fun _ _ _ _ => keeps_pure trivial
  | succ fuel ih =>
    intro doff soff size h
    refine leads_ite (fun _ => keeps_pure trivial) fun _ => ?_
    have hle : min size 256 ≤ size := Nat.min_le_left _ _
    refine keeps_bind (S := fun l => free ∨ l.length = min size 256)
      (keeps_call (h.imp_right fun h => h.read hle) fun x d hx => ⟨hx, fun l hl => ?_⟩)
      fun l hl => ?_
    · refine h.imp_right fun h => ?_
      rw [hD.read _ _ _ _ _ (h.read hle) hl]
      simp [Flash.read]
    · have hwrite : Allowed c.toConfig free (.write dst doff l) := by
        rcases h with h | h
        · exact .inl h
        · exact hl.imp_right fun hl => h.write (hl.trans_le hle)
      exact keeps_bind (S := fun _ => True) (keeps_call hwrite fun x d hx =>
        ⟨hx, fun _ _ => trivial⟩) fun _ _ => ih _ _ _ (h.imp_right fun h => h.rest hle)

theorem keeps_copy (hD : Faithful c.toConfig D look) {dst doff src soff size : Nat}
    (h : free ∨ CopyInside c.toConfig dst doff src soff size) :
    Keeps D (Allowed c.toConfig free) (Proper c loose) (blockToBlockMove dst doff src soff size)
      fun _ => True := keeps_copyLoop hD dst src size doff soff size h

end Copies

/-! ## The rest of an update -/

theorem validateBlockMeta_inside {c : Cfg} {b : BlockMeta} (h : validateBlockMeta c b = true) :
    b.phyId < c.numBlocks ∧ b.dataStart + b.freeSize ≤ c.blockSize := by
  simp only [validateBlockMeta, checkContainedIn, Bool.and_eq_true, decide_eq_true_eq] at h
  omega

theorem validateFileMeta_inside {c : Cfg} {m : FileMeta} (h : validateFileMeta c m = true) :
    m.lblock < c.numActiveDblocks ∧ (m.used = true → m.maxSize ≤ c.maxFileSize ∧
      m.curSize ≤ m.maxSize ∧ m.dataIdx + m.maxSize ≤ c.blockSize) := by
  simp only [validateFileMeta, checkContainedIn, Bool.and_eq_true, Bool.or_eq_true,
    decide_eq_true_eq, Bool.not_eq_true'] at h
  refine ⟨h.1, fun hu => ?_⟩
  rcases h.2 with hn | hm
  · rw [hu] at hn
    cases hn
  · omega

section Rest

variable {δ : Type} {c : Cfg} {D : Dev PsaStatus δ} {look : δ → Flash} {free loose : Prop} {x : Ctx}

theorem keeps_any {o : Op} (h : Allowed c.toConfig free o) :
    Keeps D (Allowed c.toConfig free) (Proper c loose) (call o) fun _ => True :=
  keeps_call h fun _ _ hx => ⟨hx, fun _ _ => trivial⟩

/-- Metadata is copied to where it was. -/
theorem keeps_copyMeta (hD : Faithful c.toConfig D look) (hx : x.Placed c.toConfig loose)
    {i j : Nat} (hij : i ≤ j) (hj : j ≤ c.blockSize) :
    Keeps D (Allowed c.toConfig free) (Proper c loose)
      (blockToBlockMove x.scratchMetablock i x.activeMetablock i (sub32 j i)) fun _ => True := by
  have hb := c.blockSize_lt
  rw [sub32_of_le hij (by omega)]
  exact keeps_copy hD (.inr ⟨hx.scratch_lt, hx.active_lt, by omega, by omega⟩)

theorem keeps_eraseScratchBlocks (hloose : loose → free) :
    Keeps D (Allowed c.toConfig free) (Proper c loose) (eraseScratchBlocks c) fun _ => True := by
  refine keeps_get stays_proper fun x hx => ?_
  refine keeps_bind (keeps_any (.inr hx.scratch_lt)) fun _ _ => ?_
  refine leads_ite (fun h2 => ?_) fun _ => keeps_pure trivial
  have hscratch : Allowed c.toConfig free (.erase (curDataScratchId x 1)) :=
    Or.imp hloose (fun h => h h2) hx.dblock
  exact keeps_bind (keeps_any hscratch) fun _ _ => keeps_pure trivial

theorem keeps_copyRemainingBlockMeta (hv : c.validate = true) (hD : Faithful c.toConfig D look)
    {l : Nat} (hl : l < c.numActiveDblocks) :
    Keeps D (Allowed c.toConfig free) (Proper c loose) (copyRemainingBlockMeta c l)
      fun _ => True := by
  refine keeps_get stays_proper fun x hx => ?_
  have hmeta : c.fileMetaOffset 0 ≤ c.blockSize := c.fileMetaOffset_le.trans c.metaEnd_le
  have hend : ∀ k, k ≤ c.numActiveDblocks → c.blockMetaOffset k ≤ c.fileMetaOffset 0 :=
    fun k hk => c.blockMetaOffset_active ▸ c.blockMetaOffset_mono hk
  have hrest : Keeps D (Allowed c.toConfig free) (Proper c loose) _ _ :=
    keeps_copyMeta hD hx (hend (l + 1) hl) hmeta
  dsimp only
  split
  · refine keeps_bind (keeps_recast (keeps_readBlockMetadata hv hD stays_proper
      c.numActiveDblocks_pos)) fun m _ => keeps_bind (keeps_recast
        (keeps_writeScratchBlockMeta stays_proper c.numActiveDblocks_pos _)) fun _ _ => ?_
    split
    · next hl1 =>
      have hle := c.blockMetaOffset_mono (Nat.le_of_lt hl1)
      have hcopy : Keeps D (Allowed c.toConfig free) (Proper c loose) _ _ :=
        keeps_copyMeta hD hx hle ((hend l (Nat.le_of_lt hl)).trans hmeta)
      have hb := c.blockSize_lt
      have hend := (hend l (Nat.le_of_lt hl)).trans hmeta
      rw [sub32_of_le hle (by omega)] at hcopy
      exact keeps_bind hcopy fun _ _ => hrest
    · exact hrest
  · exact hrest

theorem keeps_updateScratchBlockMeta (hv : c.validate = true) (hD : Faithful c.toConfig D look)
    {l : Nat} (hl : l < c.numActiveDblocks) (b : BlockMeta) :
    Keeps D (Allowed c.toConfig free) (Proper c loose) (updateScratchBlockMeta c l b)
      fun _ => True :=
  keeps_get stays_proper fun _ _ => keeps_bind (keeps_recast
    (keeps_writeScratchBlockMeta stays_proper hl _)) fun _ _ =>
      keeps_copyRemainingBlockMeta hv hD hl

theorem keeps_cpFileMeta (hD : Faithful c.toConfig D look) {i j : Nat} (hij : i ≤ j)
    (hj : j ≤ c.maxNumFiles) :
    Keeps D (Allowed c.toConfig free) (Proper c loose) (cpFileMeta c i j) fun _ => True :=
  keeps_get stays_proper fun _ hx => keeps_copyMeta hD hx (c.fileMetaOffset_mono hij)
    ((c.fileMetaOffset_mono hj).trans c.metaEnd_le)

theorem keeps_fileWriteTable (hD : Faithful c.toConfig D look) {old : Option Nat} {new : Nat}
    (hnew : new < c.maxNumFiles) (hold : ∀ i, old = some i → i < c.maxNumFiles) (m : FileMeta) :
    Keeps D (Allowed c.toConfig free) (Proper c loose) (fileWriteTable c old new m)
      fun _ => True := by
  refine keeps_bind (keeps_updateScratchFileMeta stays_proper hnew m) fun _ _ => ?_
  cases old with
  | none =>
    exact keeps_bind (keeps_cpFileMeta hD (Nat.zero_le _) (Nat.le_of_lt hnew)) fun _ _ =>
      keeps_cpFileMeta hD hnew (Nat.le_refl _)
  | some old =>
    have hold := hold old rfl
    have hlast : Keeps D (Allowed c.toConfig free) (Proper c loose) _ _ :=
      keeps_cpFileMeta hD (show max new old + 1 ≤ c.maxNumFiles by omega) (Nat.le_refl _)
    refine keeps_bind (keeps_cpFileMeta hD (Nat.zero_le _) (by omega)) fun _ _ =>
      leads_ite (fun hne => ?_) fun _ => hlast
    exact keeps_bind (keeps_cpFileMeta hD (by omega) (by omega)) fun _ _ => hlast

/-- The data of logical block 0 that is copied is what its checked metadata says. -/
theorem keeps_migrate (hv : c.validate = true) (hD : Faithful c.toConfig D look) :
    Keeps D (Allowed c.toConfig free) (Proper c loose) (migrateLb0DataToScratch c)
      fun _ => True := by
  refine keeps_bind (keeps_readBlockMetadata hv hD stays_proper c.numActiveDblocks_pos)
    fun b hb => keeps_get stays_proper fun x hx => ?_
  obtain ⟨-, hin⟩ := validateBlockMeta_inside hb.1
  have hlt := c.blockSize_lt
  rw [sub32_of_le (show b.dataStart ≤ c.blockSize by omega) (by omega),
    sub32_of_le (by omega) (by omega)]
  exact keeps_copy hD (.inr ⟨hx.scratch_lt, hx.active_lt, by omega, by omega⟩)

theorem keeps_writeScratchMetaHeader :
    Keeps D (Allowed c.toConfig free) (Proper c loose) (writeScratchMetaHeader c)
      fun _ => True := by
  have h0 : 0 + c.headerSize ≤ c.blockSize := by
    have h1 := c.headerSize_le
    have h2 := c.fileMetaOffset_le
    have h3 := c.metaEnd_le
    omega
  refine keeps_bind (keeps_modify fun x _ hx => ⟨hx.active, hx.scratch, hx.apart, hx.dblock⟩)
    fun _ _ => keeps_get stays_proper fun x hx => ?_
  refine keeps_bind (keeps_any (allowed_write hx.scratch_lt ?_)) fun _ _ => keeps_pure trivial
  rw [length_pad ((x.header.length_bytes.trans_le (by decide)).trans c.le_headerSize)]
  exact h0

theorem keeps_swapMetablocks :
    Keeps D (Allowed c.toConfig free) (Proper c loose) swapMetablocks fun _ => True :=
  keeps_modify fun _ _ hx => ⟨hx.scratch, hx.active, hx.apart.symm, hx.dblock⟩

theorem keeps_metaUpdateFinalize (hloose : loose → free) :
    Keeps D (Allowed c.toConfig free) (Proper c loose) (metaUpdateFinalize c) fun _ => True :=
  keeps_bind keeps_writeScratchMetaHeader fun _ _ => keeps_bind (keeps_any (.inr trivial))
    fun _ _ => keeps_bind keeps_swapMetablocks fun _ _ => keeps_eraseScratchBlocks hloose

theorem keeps_setDataScratch {b : Nat} (hb : loose ∨ b < c.numBlocks) (l : Nat) :
    Keeps D (Allowed c.toConfig free) (Proper c loose) (setDataScratch b l) fun _ => True := by
  refine keeps_modify fun x _ hx => ?_
  split
  · exact ⟨hx.active, hx.scratch, hx.apart, hb.imp_right fun hb _ => hb⟩
  · exact hx

theorem keeps_dblockCompactMeta (hv : c.validate = true) (hD : Faithful c.toConfig D look)
    {l scratchId : Nat} (hl : l < c.numActiveDblocks) (hs : loose ∨ scratchId < c.numBlocks)
    {b : BlockMeta} (hb : b.phyId < c.numBlocks) :
    Keeps D (Allowed c.toConfig free) (Proper c loose) (dblockCompactMeta c l scratchId b)
      fun _ => True := by
  refine keeps_bind (keeps_setDataScratch (.inr hb) l) fun _ _ =>
    keeps_bind (keeps_attempt (keeps_updateScratchBlockMeta hv hD hl _)) fun r _ => ?_
  cases r with
  | error e => exact keeps_bind (keeps_setDataScratch hs l) fun _ _ => keeps_throw
  | ok u =>
    refine leads_ite (fun _ => ?_) fun _ => keeps_pure trivial
    exact keeps_bind (keeps_any (.inr trivial)) fun _ _ => keeps_pure trivial

end Rest

/-! ## Deletions -/

section Deletes

variable {δ : Type} {c : Cfg} {D : Dev PsaStatus δ} {look : δ → Flash} {K : Ctx → δ → Prop}
  {free loose : Prop} {x₀ : Ctx} {d₀ : δ} {t : Tab}

/-- What moves when file `i` is deleted comes from the block and goes into the block. -/
def Tab.MoveFits (c : Cfg) (t : Tab) (i : Nat) : Prop :=
  let scan := delScan t.fm i (t.fm i).lblock (t.fm i).dataIdx c.maxNumFiles 0 c.blockSize 0
  0 < scan.2 → scan.1 + scan.2 ≤ c.blockSize ∧ (t.fm i).dataIdx + scan.2 ≤ c.blockSize

theorem keeps_deleteIdxLoop (hv : c.validate = true) (hD : Faithful c.toConfig D look)
    (hK : Stays c loose D K) (ht : Shows c look K t) (del l d size n : Nat) :
    ∀ i src nbr, i + n ≤ c.maxNumFiles →
    Keeps D (Allowed c.toConfig free) K (deleteIdxLoop c del l d size n i src nbr) fun r =>
      r = delScan t.fm del l d n i src nbr := by
  induction n with
  | zero => exact fun _ _ _ _ => keeps_pure rfl
  | succ n ih =>
    intro i src nbr hi
    unfold deleteIdxLoop delScan
    by_cases hdel : i = del
    · rw [if_pos hdel, if_pos hdel]
      exact ih (i + 1) src nbr (by omega)
    · rw [if_neg hdel, if_neg hdel]
      refine keeps_bind (keeps_readFileMeta hv hD hK (by omega)) fun m hm => ?_
      have hfm : m = t.fm i := hm.2 t ht
      refine keeps_bind (keeps_updateScratchFileMeta hK (by omega) _) fun _ _ => ?_
      rw [hfm]
      exact ih (i + 1) _ _ (by omega)

theorem keeps_dblockCompactData (hD : Faithful c.toConfig D look) {scratchId : Nat}
    (hs : free ∨ scratchId < c.numBlocks) {b : BlockMeta} (hb : b.phyId < c.numBlocks)
    {src dst size : Nat} (hdst : dst ≤ c.blockSize)
    (h : free ∨ (0 < size → src + size ≤ c.blockSize ∧ dst + size ≤ c.blockSize)) :
    Keeps D (Allowed c.toConfig free) (Proper c loose) (dblockCompactData scratchId b src dst size)
      fun _ => True := by
  have hfront : Keeps D (Allowed c.toConfig free) (Proper c loose)
      (if b.dataStart < dst then recast PsaStatus.genericError
        (blockToBlockMove scratchId b.dataStart b.phyId b.dataStart (dst - b.dataStart))
      else pure ()) fun _ => True := by
    refine leads_ite (fun hlt => keeps_recast (keeps_copy hD (hs.imp_right fun hs => ?_)))
      fun _ => keeps_pure trivial
    exact ⟨hs, hb, by omega, by omega⟩
  unfold dblockCompactData
  by_cases hsize : 0 < size
  · rw [if_pos hsize]
    refine keeps_bind (keeps_recast (keeps_copy hD ?_)) fun _ _ => hfront
    exact (or_and_left.2 ⟨hs, h⟩).imp_right fun h => ⟨h.1, hb, (h.2 hsize).2, (h.2 hsize).1⟩
  · rw [if_neg hsize]
    exact hfront

theorem keeps_dblockCompactBlock (hloose : loose → free) (hv : c.validate = true)
    (hD : Faithful c.toConfig D look) {l freeSize src dst size : Nat} (hl : l < c.numActiveDblocks)
    (hdst : dst ≤ c.blockSize)
    (h : free ∨ (0 < size → src + size ≤ c.blockSize ∧ dst + size ≤ c.blockSize)) :
    Keeps D (Allowed c.toConfig free) (Proper c loose)
      (dblockCompactBlock c l freeSize src dst size) fun _ => True := by
  refine keeps_bind (keeps_readBlockMetadata hv hD stays_proper hl) fun b hb => ?_
  obtain ⟨hphy, -⟩ := validateBlockMeta_inside hb.1
  refine keeps_get stays_proper fun x hx => ?_
  have hs := hx.scratchId_lt hl
  exact keeps_bind (keeps_dblockCompactData hD (hs.imp_left hloose) hphy hdst h) fun _ _ =>
    keeps_dblockCompactMeta hv hD hl hs hphy

/-- A deletion, on the metadata of `d₀`. -/
theorem leads_deleteIdx (hloose : loose → free) (hv : c.validate = true)
    (hD : Faithful c.toConfig D look)
    (hx : x₀.Placed c.toConfig loose) {i : Nat} (hi : i < c.maxNumFiles)
    (h : free ∨ (tableOf c (x₀, look d₀)).MoveFits c i) :
    Leads D (Allowed c.toConfig free) (Holding look x₀ d₀) (deleteIdx c i)
      (Ends (Proper c loose) fun _ => True) := by
  have hK := stays_holding d₀ hD hx
  have ht : Shows c look (Holding look x₀ d₀) (tableOf c (x₀, look d₀)) := shows_holding
  have hproper : ∀ x d, Holding look x₀ d₀ x d → Proper c loose x d := hK.placed
  refine (keeps_readFileMeta hv hD hK hi).andThen hproper fun m hm => ?_
  obtain ⟨hl, hin⟩ := validateFileMeta_inside hm.1
  have hfm : m = (tableOf c (x₀, look d₀)).fm i := hm.2 _ ht
  refine leads_ite (fun _ => keeps_throw.from hproper) fun hu => ?_
  have hused : m.used = true := by simpa using hu
  obtain ⟨-, -, hend⟩ := hin hused
  refine (keeps_updateScratchFileMeta hK hi _).andThen hproper fun _ _ => ?_
  refine (keeps_deleteIdxLoop hv hD hK ht i m.lblock m.dataIdx m.maxSize c.maxNumFiles 0 c.blockSize
    0 (by omega)).andThen hproper fun scan hscan => ?_
  -- from here on the metadata of `d₀` is not read any more
  refine Leads.from ?_ hproper
  have hmove : free ∨ (0 < scan.2 → scan.1 + scan.2 ≤ c.blockSize ∧
      m.dataIdx + scan.2 ≤ c.blockSize) := by
    rw [hscan, hfm]
    exact h
  refine keeps_bind (keeps_dblockCompactBlock hloose hv hD hl (by omega) hmove) fun _ _ => ?_
  by_cases hl0 : m.lblock = 0
  · rw [if_neg (not_not.2 hl0)]
    exact keeps_metaUpdateFinalize hloose
  · rw [if_pos hl0]
    exact keeps_bind (keeps_recast (keeps_migrate hv hD)) fun _ _ => keeps_metaUpdateFinalize hloose

end Deletes

/-! ## Writes -/

section Writes

variable {δ : Type} {c : Cfg} {D : Dev PsaStatus δ} {look : δ → Flash} {K : Ctx → δ → Prop}
  {free loose : Prop} {x₀ : Ctx} {d₀ : δ} {t : Tab}

/-- A file that is written in place starts behind the metadata, and ends before the free bytes of
its block. -/
def Tab.PlaceFits (c : Cfg) (t : Tab) (m : FileMeta) (dataSize offset : Nat) : Prop :=
  dataSize ≠ 0 → dataFits c m dataSize offset = true →
    (t.bm m.lblock).dataStart ≤ m.dataIdx + offset ∧
    m.dataIdx + m.maxSize + (t.bm m.lblock).freeSize ≤ c.blockSize

/-- The file that a write has to do with, and its block. -/
structure WriteTarget (c : Cfg) (free : Prop) (dataSize offset : Nat) (m : FileMeta)
    (b : BlockMeta) : Prop where
  lblock : m.lblock < c.numActiveDblocks
  phyId : b.phyId < c.numBlocks
  freeSize : b.freeSize ≤ c.blockSize
  dataEnd : m.dataIdx + m.maxSize ≤ c.blockSize
  place : free ∨ (dataSize ≠ 0 → dataFits c m dataSize offset = true →
    b.dataStart ≤ m.dataIdx + offset ∧ m.dataIdx + m.maxSize + b.freeSize ≤ c.blockSize)

theorem keeps_dblockWriteFile (hloose : loose → free) (hD : Faithful c.toConfig D look)
    {b : BlockMeta} {m : FileMeta}
    (hl : m.lblock < c.numActiveDblocks) (hb : b.phyId < c.numBlocks)
    (hfree : b.freeSize ≤ c.blockSize) (hend : m.dataIdx + m.maxSize ≤ c.blockSize)
    {offset size : Nat} (hsize : offset + size ≤ m.maxSize)
    (h : free ∨ b.dataStart ≤ m.dataIdx + offset ∧
      m.dataIdx + m.maxSize + b.freeSize ≤ c.blockSize) (data : Nat → UInt8) :
    Keeps D (Allowed c.toConfig free) (Proper c loose) (dblockWriteFile c b m offset size data)
      fun _ => True := by
  have hlt := c.blockSize_lt
  have hpos : add32 m.dataIdx offset = m.dataIdx + offset := add32_of_lt (by omega)
  have hfileEnd : add32 m.dataIdx m.maxSize = m.dataIdx + m.maxSize := add32_of_lt (by omega)
  refine keeps_get stays_proper fun x hx => ?_
  have hs := (hx.scratchId_lt hl).imp_left hloose
  have hfits := or_and_left.2 ⟨hs, h⟩
  refine keeps_bind (keeps_copy hD (hfits.imp_right fun h => ?_)) fun _ _ => ?_
  · rw [hpos, sub32_of_le h.2.1 (by omega)]
    exact ⟨h.1, hb, by omega, by omega⟩
  refine keeps_bind (keeps_any (hs.imp_right fun hs => ⟨hs, ?_⟩)) fun _ _ => ?_
  · rw [hpos, List.length_map, List.length_range]
    omega
  refine keeps_bind (keeps_copy hD (hfits.imp_right fun h => ?_)) fun _ _ => ?_
  · rw [hfileEnd, sub32_of_le hfree (by omega), sub32_of_le (by omega) (by omega)]
    exact ⟨h.1, hb, by omega, by omega⟩
  by_cases hl0 : m.lblock = 0
  · rw [if_neg (not_not.2 hl0)]
    exact keeps_pure trivial
  · rw [if_pos hl0]
    exact keeps_bind (keeps_any (.inr trivial)) fun _ _ => keeps_pure trivial

theorem keeps_fileWriteData (hloose : loose → free) (hD : Faithful c.toConfig D look)
    {b : BlockMeta} {m : FileMeta}
    {dataSize offset : Nat} (h : WriteTarget c free dataSize offset m b) (data : Nat → UInt8) :
    Keeps D (Allowed c.toConfig free) (Proper c loose) (fileWriteData c m b dataSize offset data)
      fun r => r.1.lblock = m.lblock := by
  refine leads_ite (fun _ => keeps_pure rfl) fun hsize => ?_
  have haligned : Keeps D (Allowed c.toConfig free) (Proper c loose)
      (fileWriteAlignedData c b m offset dataSize data) fun _ => True := by
    refine leads_ite (fun _ => keeps_throw) fun halign => leads_ite (fun _ => keeps_throw)
      fun hcur => leads_ite (fun _ => keeps_throw) fun hin => ?_
    have hcontained : checkContainedIn m.maxSize offset (c.aligned dataSize) = true := by
      simpa using hin
    have hfits : dataFits c m dataSize offset = true := by
      simp only [dataFits, Bool.and_eq_true, Bool.or_eq_true, decide_eq_true_eq, hcontained,
        and_true]
      refine ⟨?_, Nat.le_of_not_lt hcur⟩
      by_contra hno
      simp only [not_or, Bool.not_eq_true] at hno
      exact halign ⟨hno.1, by simp [hno.2]⟩
    have hle : offset + c.aligned dataSize ≤ m.maxSize := by
      simp only [checkContainedIn, Bool.and_eq_true, decide_eq_true_eq] at hcontained
      omega
    exact keeps_dblockWriteFile hloose hD h.lblock h.phyId h.freeSize h.dataEnd hle
      (h.place.imp_right fun hp => hp hsize hfits) data
  refine keeps_bind (keeps_recast haligned) fun _ _ => keeps_get stays_proper fun x _ =>
    keeps_bind (keeps_setDataScratch (.inr h.phyId) _) fun _ _ => keeps_pure ?_
  split <;> rfl

theorem keeps_getFileIdx (hv : c.validate = true) (hD : Faithful c.toConfig D look)
    (hK : Stays c loose D K) (ht : Shows c look K t) (fid : Nat) :
    Keeps D (Allowed c.toConfig free) K (getFileIdx c fid) fun i =>
      i < c.maxNumFiles ∧ t.find c fid = some i :=
  (keeps_findFileLoop hv hD hK _ c.maxNumFiles 0 (by omega)).weaken fun _ hi =>
    ⟨hi.1, (hi.2 t ht).1⟩

/-- What the first part of a write found. -/
structure Found (c : Cfg) (t : Tab) (fid flags maxSize : Nat)
    (r : Option Nat × Option (Nat × FileMeta)) : Prop where
  old : ∀ i, r.1 = some i → i < c.maxNumFiles
  reuse : ∀ i m, r.2 = some (i, m) → i < c.maxNumFiles ∧ t.lookup c fid flags maxSize = .ok r ∧
    m.lblock < c.numActiveDblocks ∧ m.dataIdx + m.maxSize ≤ c.blockSize

theorem keeps_fileWriteLookup (hv : c.validate = true) (hD : Faithful c.toConfig D look)
    (hK : Stays c loose D K) (ht : Shows c look K t) {fid : Nat} (hfid : fid ≠ 0)
    (flags maxSize : Nat) :
    Keeps D (Allowed c.toConfig free) K (fileWriteLookup c fid flags maxSize)
      (Found c t fid flags maxSize) := by
  refine keeps_bind (keeps_attempt (keeps_getFileIdx hv hD hK ht fid)) fun r hr => ?_
  cases r with
  | error e =>
    have hnone : Found c t fid flags maxSize (none, none) := ⟨nofun, nofun⟩
    cases e
    case doesNotExist => exact leads_ite (fun _ => keeps_throw) fun _ => keeps_pure hnone
    all_goals exact keeps_throw
  | ok i =>
    obtain ⟨hi, hfind⟩ := hr i rfl
    refine keeps_bind (keeps_recast (keeps_readFileMeta hv hD hK hi)) fun m hm => ?_
    obtain ⟨hl, hin⟩ := validateFileMeta_inside hm.1
    have hfm : m = t.fm i := hm.2 t ht
    have hused : m.used = true := by
      obtain ⟨-, hu, -⟩ := Tab.find_used hfid hfind
      rw [hfm]
      exact hu
    obtain ⟨-, -, hend⟩ := hin hused
    refine leads_ite (fun htrunc => leads_ite (fun hmax => keeps_pure ?_) fun hmax => ?_)
      fun htrunc => keeps_pure ?_
    · refine ⟨fun j h => Option.some.inj h ▸ hi, fun j m' h => ?_⟩
      injection h with h
      injection h with hj hm'
      subst hj hm'
      refine ⟨hi, ?_, hl, hend⟩
      rw [hfm] at hmax
      simp only [Tab.lookup, hfind, if_pos htrunc, if_pos hmax, hfm]
    · refine keeps_bind (keeps_recast (keeps_updateScratchFileMeta hK hi _)) fun _ _ =>
        keeps_pure ⟨fun j h => Option.some.inj h ▸ hi, fun j m' h => ?_⟩
      cases h
    · refine ⟨fun j h => Option.some.inj h ▸ hi, fun j m' h => ?_⟩
      injection h with h
      injection h with hj hm'
      subst hj hm'
      refine ⟨hi, ?_, hl, hend⟩
      simp only [Tab.lookup, hfind, if_neg htrunc, hfm]

/-- The files that are written in place fit. -/
def Tab.WriteFits (c : Cfg) (t : Tab) (fid flags maxSize dataSize offset : Nat) : Prop :=
  ∀ old i m, t.lookup c fid flags (c.aligned maxSize) = .ok (old, some (i, m)) →
    t.PlaceFits c m dataSize offset

theorem keeps_reserveFile (hv : c.validate = true) (hD : Faithful c.toConfig D look)
    (hK : Stays c loose D K) (fid : Nat) (spare : Bool) (size flags dataSize offset : Nat) :
    Keeps D (Allowed c.toConfig free) K (reserveFile c fid spare size flags) fun r =>
      r.1 < c.maxNumFiles ∧ WriteTarget c free dataSize offset r.2.1 r.2.2 := by
  have hlt := c.blockSize_lt
  refine keeps_bind (keeps_attempt (keeps_reserveLoop hv hD hK fid size flags c.numActiveDblocks 0
    (by omega))) fun res hres => ?_
  refine keeps_bind (keeps_freeLoop hv hD hK c.maxNumFiles spare 0 (by omega)) fun idx hidx => ?_
  cases res with
  | error e => exact keeps_throw
  | ok mb =>
    obtain ⟨m, b⟩ := mb
    obtain ⟨hl, b₀, hb₀, hsize, hdata, hcur, hmax, hb⟩ := hres _ rfl
    dsimp only at hl hdata hcur hmax hb
    obtain ⟨hphy, hin⟩ := validateBlockMeta_inside hb₀
    cases idx with
    | none => exact keeps_throw
    | some i =>
      have hidx₀ : m.dataIdx = c.blockSize - b₀.freeSize := by
        rw [hdata, sub32_of_le (by omega) (by omega)]
      refine keeps_pure ⟨hidx i rfl, hl, ?_, ?_, ?_, .inr fun _ hfits => ?_⟩
      · rw [hb]
        exact hphy
      · rw [hb]
        show b₀.freeSize - size ≤ c.blockSize
        omega
      · show m.dataIdx + m.maxSize ≤ c.blockSize
        omega
      · rw [hb]
        show b₀.dataStart ≤ m.dataIdx + offset ∧
          m.dataIdx + m.maxSize + (b₀.freeSize - size) ≤ c.blockSize
        omega

theorem keeps_fileWriteReserve (hv : c.validate = true) (hD : Faithful c.toConfig D look)
    (hK : Stays c loose D K) (ht : Shows c look K t) {fid flags maxSize dataSize offset : Nat}
    {r : Option Nat × Option (Nat × FileMeta)} (hr : Found c t fid flags (c.aligned maxSize) r)
    (h : free ∨ t.WriteFits c fid flags maxSize dataSize offset) :
    Keeps D (Allowed c.toConfig free) K (fileWriteReserve c fid flags (c.aligned maxSize) r.1 r.2)
      fun w => w.1 < c.maxNumFiles ∧ WriteTarget c free dataSize offset w.2.1 w.2.2 := by
  obtain ⟨old, reuse⟩ := r
  cases reuse with
  | none =>
    exact leads_ite (fun _ => keeps_throw) fun _ => keeps_reserveFile hv hD hK _ _ _ _ _ _
  | some im =>
    obtain ⟨i, m⟩ := im
    obtain ⟨hi, hlookup, hl, hend⟩ := hr.reuse i m rfl
    refine keeps_bind (keeps_recast (keeps_readBlockMetadata hv hD hK hl)) fun b hb => ?_
    obtain ⟨hphy, hin⟩ := validateBlockMeta_inside hb.1
    have hfree : b.freeSize ≤ c.blockSize := by omega
    refine keeps_pure ⟨hi, hl, hphy, hfree, hend, h.imp_right fun h => ?_⟩
    rw [hb.2 t ht]
    exact h old i m hlookup

variable (c) in
/-- The first update of a write; the file that is left to be deleted.
mirrors secure_fw/partitions/internal_trusted_storage/flash_fs/its_flash_fs.c:243-433 -/
def fileWriteFirst (fid flags maxSize dataSize offset : Nat) (data : Nat → UInt8) :
    M (Option Nat) := do
  if flags &&& internalFlagsMask ≠ 0 then throw .invalidArgument
  let maxSize := c.aligned maxSize
  let (old, reuse) ← fileWriteLookup c fid flags maxSize
  let (new, m, b) ← fileWriteReserve c fid flags maxSize old reuse
  let (m, b) ← fileWriteData c m b dataSize offset data
  recast .genericError (updateScratchBlockMeta c m.lblock b)
  recast .genericError (fileWriteTable c old new m)
  if m.lblock ≠ 0 ∨ dataSize = 0 then recast .genericError (migrateLb0DataToScratch c)
  metaUpdateFinalize c
  pure (old.filter (· ≠ new))

/-- The second update deletes the old file. -/
def deleteOld (c : Cfg) : Option Nat → M Unit
  | some old => deleteIdx c old
  | none => pure ()

theorem deleteOld_filter (old : Option Nat) (new : Nat) :
    (match old with
      | some old => if old ≠ new then deleteIdx c old else pure ()
      | none => pure ()) = deleteOld c (old.filter (· ≠ new)) := by
  cases old with
  | none => rfl
  | some old => by_cases hne : old = new <;> simp [hne, Option.filter, deleteOld]

theorem fileWrite_first (fid flags maxSize dataSize offset : Nat) (data : Nat → UInt8) :
    fileWrite c fid flags maxSize dataSize offset data =
      fileWriteFirst c fid flags maxSize dataSize offset data >>= deleteOld c := by
  unfold fileWrite fileWriteFirst
  by_cases hflags : flags &&& internalFlagsMask ≠ 0
  · simp only [if_pos hflags]
    rfl
  · simp only [if_neg hflags, bind_assoc]
    refine bind_congr fun r => bind_congr fun w => bind_congr fun v => bind_congr fun _ =>
      bind_congr fun _ => ?_
    have hold := deleteOld_filter (c := c) r.1 w.1
    by_cases hmigrate : v.1.lblock ≠ 0 ∨ dataSize = 0
    · simp only [if_pos hmigrate, bind_assoc, pure_bind]
      exact bind_congr fun _ => bind_congr fun _ => hold
    · simp only [if_neg hmigrate, bind_assoc, pure_bind]
      exact bind_congr fun _ => hold

/-- The first update, on the metadata of `d₀`. -/
theorem leads_fileWriteFirst (hloose : loose → free) (hv : c.validate = true)
    (hD : Faithful c.toConfig D look)
    (hx : x₀.Placed c.toConfig loose) {fid : Nat} (hfid : fid ≠ 0)
    (flags maxSize dataSize offset : Nat) (data : Nat → UInt8)
    (h : free ∨ (tableOf c (x₀, look d₀)).WriteFits c fid flags maxSize dataSize offset) :
    Leads D (Allowed c.toConfig free) (Holding look x₀ d₀)
      (fileWriteFirst c fid flags maxSize dataSize offset data)
      (Ends (Proper c loose) fun o => ∀ i, o = some i → i < c.maxNumFiles) := by
  have hK := stays_holding d₀ hD hx
  have ht : Shows c look (Holding look x₀ d₀) (tableOf c (x₀, look d₀)) := shows_holding
  have hproper : ∀ x d, Holding look x₀ d₀ x d → Proper c loose x d := hK.placed
  refine leads_ite (fun _ => keeps_throw.from hproper) fun _ => ?_
  refine (keeps_fileWriteLookup hv hD hK ht hfid flags _).andThen hproper fun r hr => ?_
  refine (keeps_fileWriteReserve hv hD hK ht hr h).andThen hproper fun w hw => ?_
  refine Leads.from ?_ hproper
  obtain ⟨new, m, b⟩ := w
  obtain ⟨hnew, htarget⟩ := hw
  refine keeps_bind (keeps_fileWriteData hloose hD htarget data) fun v hl => ?_
  have hlv : v.1.lblock < c.numActiveDblocks := hl ▸ htarget.lblock
  refine keeps_bind (keeps_recast (keeps_updateScratchBlockMeta hv hD hlv v.2)) fun _ _ => ?_
  refine keeps_bind (keeps_recast (keeps_fileWriteTable hD hnew hr.old v.1)) fun _ _ => ?_
  have hlast : Keeps D (Allowed c.toConfig free) (Proper c loose) (do
      metaUpdateFinalize c
      pure (r.1.filter (· ≠ new))) fun o => ∀ i, o = some i → i < c.maxNumFiles := by
    refine keeps_bind (keeps_metaUpdateFinalize hloose) fun _ _ => keeps_pure fun i hi => ?_
    exact hr.old i (Option.filter_eq_some_iff.1 hi).1
  refine leads_ite (fun _ => ?_) fun _ => hlast
  exact keeps_bind (keeps_recast (keeps_migrate hv hD)) fun _ _ => hlast

end Writes

/-! ## Reads -/

section Reads

variable {δ : Type} {c : Cfg} {D : Dev PsaStatus δ} {look : δ → Flash} {K : Ctx → δ → Prop}
  {free loose : Prop} {t : Tab}

theorem keeps_fileGetInfo (hv : c.validate = true) (hD : Faithful c.toConfig D look)
    (hK : Stays c loose D K) (ht : Shows c look K t) (fid : Nat) :
    Keeps D (Allowed c.toConfig free) K (fileGetInfo c fid) fun _ => True :=
  keeps_bind (keeps_recast (keeps_getFileIdx hv hD hK ht fid)) fun _ hi =>
    keeps_bind (keeps_readFileMeta hv hD hK hi.1) fun _ _ =>
      leads_ite (fun _ => keeps_throw) fun _ => keeps_pure trivial

theorem keeps_dblockReadFile (hv : c.validate = true) (hD : Faithful c.toConfig D look)
    (hK : Stays c loose D K) {m : FileMeta} (hl : m.lblock < c.numActiveDblocks) {offset size : Nat}
    (h : m.dataIdx + offset + size ≤ c.blockSize) :
    Keeps D (Allowed c.toConfig free) K (dblockReadFile c m offset size) fun _ => True := by
  have hlt := c.blockSize_lt
  refine keeps_bind (keeps_recast (keeps_readBlockMetadata hv hD hK hl)) fun b hb => ?_
  obtain ⟨hphy, -⟩ := validateBlockMeta_inside hb.1
  have hin : (Op.read b.phyId (add32 m.dataIdx offset) size).Inside c.numBlocks c.blockSize := by
    refine ⟨hphy, ?_⟩
    rw [add32_of_lt (by omega)]
    exact h
  exact keeps_call (.inr hin) fun x d hk => ⟨hK.read _ _ _ _ _ hin hk, fun _ _ => trivial⟩

/-- What is read is inside of the flash area, whatever the metadata says. -/
theorem keeps_fileRead (hv : c.validate = true) (hD : Faithful c.toConfig D look)
    (hK : Stays c loose D K) (ht : Shows c look K t) {fid : Nat} (hfid : fid ≠ 0)
    (size offset : Nat) :
    Keeps D (Allowed c.toConfig free) K (fileRead c fid size offset) fun _ => True := by
  refine keeps_bind (keeps_recast (keeps_getFileIdx hv hD hK ht fid)) fun i hi =>
    keeps_bind (keeps_recast (keeps_readFileMeta hv hD hK hi.1)) fun m hm => ?_
  refine leads_ite (fun _ => keeps_throw) fun hid => leads_ite (fun _ => keeps_throw) fun hin => ?_
  obtain ⟨hl, hfile⟩ := validateFileMeta_inside hm.1
  have hused : m.used = true := FileMeta.used_of_id (not_not.1 hid ▸ hfid)
  obtain ⟨-, hcur, hend⟩ := hfile hused
  have hcontained : checkContainedIn m.curSize offset size = true := by simpa using hin
  simp only [checkContainedIn, Bool.and_eq_true, decide_eq_true_eq] at hcontained
  exact keeps_recast (keeps_dblockReadFile hv hD hK hl (by omega))

end Reads

/-! ## Runs -/

section Runs

variable {δ : Type}

/-- The copies of the request are inside of the flash area. The second update of a write that
replaces a file starts where the first one ends. -/
def Req.Fits (c : Cfg) (D : Dev PsaStatus δ) (look : δ → Flash) (y : Sys δ) :
    Req c.toConfig → Prop
  | .write a =>
    (tableOf c (y.1, look y.2)).WriteFits c a.fid.id a.flags a.maxSize a.dataSize a.offset ∧
    ∀ i y', runOn D (fileWriteFirst c a.fid.id a.flags a.maxSize a.dataSize a.offset a.data) y =
      (.ok (some i), y') → (tableOf c (y'.1, look y'.2)).MoveFits c i
  | .delete fid => ∀ i, (tableOf c (y.1, look y.2)).find c fid.id = some i →
    (tableOf c (y.1, look y.2)).MoveFits c i
  | .read _ _ _ => True
  | .info _ => True
  | .prepare => False

/-- Any flash that `its_flash_fs_prepare` accepts, and requests after it. -/
def mountLts (c : Cfg) (D : Dev PsaStatus δ) : LTS (Sys δ) (Req c.toConfig) where
  init y := ∃ y₀, runOn D (prepare c) y₀ = (.ok (), y)
  step y q y' := y' = (serve c D q y).2

variable {c : Cfg} {D : Dev PsaStatus δ} {look : δ → Flash} {K : Ctx → δ → Prop} {x₀ : Ctx} {d₀ : δ}
  {free loose : Prop} {α : Type}

theorem leads_fileWrite (hloose : loose → free) (hv : c.validate = true)
    (hD : Faithful c.toConfig D look)
    (hx : x₀.Placed c.toConfig loose) (a : WriteArgs c.toConfig)
    (h : free ∨ (Req.write a).Fits c D look (x₀, d₀)) :
    Leads D (Allowed c.toConfig free) (fun x d => x = x₀ ∧ d = d₀)
      (fileWrite c a.fid.id a.flags a.maxSize a.dataSize a.offset a.data)
      (Ends (Proper c loose) fun _ => True) := by
  have hfirst := leads_fileWriteFirst hloose hv hD hx a.fid.valid a.flags a.maxSize a.dataSize
    a.offset a.data (h.imp_right fun h => h.1)
  rw [fileWrite_first]
  refine Leads.bind (hfirst.exactly ⟨rfl, rfl⟩) (fun e x d hS => ⟨hS.1.1, nofun⟩) fun o => ?_
  intro x d hS
  obtain ⟨⟨hproper, hi⟩, hrun⟩ := hS
  cases o with
  | none => exact ⟨hproper, fun _ _ => trivial⟩
  | some i =>
    refine leads_deleteIdx hloose hv hD hproper (hi _ rfl i rfl) (h.imp_right fun h => ?_) x d
      ⟨rfl, rfl⟩
    refine h.2 i (x, d) ?_
    unfold runOn
    rw [← hrun]

theorem leads_fileDelete (hloose : loose → free) (hv : c.validate = true)
    (hD : Faithful c.toConfig D look)
    (hx : x₀.Placed c.toConfig loose) (fid : Fid)
    (h : free ∨ (Req.delete fid).Fits c D look (x₀, d₀)) :
    Leads D (Allowed c.toConfig free) (Holding look x₀ d₀) (fileDelete c fid.id)
      (Ends (Proper c loose) fun _ => True) := by
  have hK := stays_holding d₀ hD hx
  refine (keeps_recast (keeps_getFileIdx hv hD hK shows_holding fid.id)).andThen hK.placed
    fun i hi => ?_
  exact leads_deleteIdx hloose hv hD hx hi.1 (h.imp_right fun h => h i hi.2)

/-- The calls of one request, from a context that names blocks of the area. -/
theorem leads_serve (hv : c.validate = true) (hD : Faithful c.toConfig D look)
    (hx : x₀.Placed c.toConfig False) {q : Req c.toConfig} (h : q.Fits c D look (x₀, d₀)) :
    Leads D (Allowed c.toConfig False) (fun x d => x = x₀ ∧ d = d₀) (q.prog c)
      (Ends (Proper c False) fun _ => True) := by
  have hK := stays_holding d₀ hD hx
  have hstart : ∀ x d, x = x₀ ∧ d = d₀ → Holding look x₀ d₀ x d := by
    intro x d he
    obtain ⟨rfl, rfl⟩ := he
    exact ⟨rfl, rfl⟩
  have hdone : ∀ {β : Type} (b : β), Leads D (Allowed c.toConfig False) (Proper c False)
      (pure b : M β) (Ends (Proper c False) fun _ => True) := fun b => keeps_pure trivial
  cases q with
  | write a =>
    exact (leads_fileWrite id hv hD hx a (.inr h)).andThen (fun _ _ => id) fun _ _ => hdone _
  | delete fid =>
    exact ((leads_fileDelete id hv hD hx fid (.inr h)).from hstart).andThen (fun _ _ => id)
      fun _ _ => hdone _
  | read fid size offset =>
    refine Leads.from ?_ hstart
    exact (keeps_fileRead hv hD hK shows_holding fid.valid size offset).andThen hK.placed
      fun _ _ => (hdone _).from hK.placed
  | info fid =>
    refine Leads.from ?_ hstart
    exact (keeps_fileGetInfo hv hD hK shows_holding fid.id).andThen hK.placed
      fun _ _ => (hdone _).from hK.placed
  | prepare => exact h.elim

/-! ### The first mount -/

/-- Where a context is not `loose`, an erase outside of the area is refused. -/
def Refuses (c : Cfg) (D : Dev PsaStatus δ) (loose : Prop) : Prop :=
  loose ∨ ∀ d b l, (D d (.erase b)).1 = .ok l → b < c.numBlocks

theorem onOk_any (m : M α) :
    Leads D (Allowed c.toConfig True) K m (OnOk fun _ _ => True) :=
  fun _ _ _ => (Io.within_iff _ _).mpr ⟨fun _ _ => .inl trivial, fun _ _ => trivial⟩

theorem latestMetaBlock_lt (h0 h1 : Header) : latestMetaBlock c h0 h1 < 2 := by
  unfold latestMetaBlock
  dsimp only
  split_ifs <;> decide

theorem otherMetaBlock_placed (b : Nat) : otherMetaBlock b < 2 ∧ otherMetaBlock b ≠ b := by
  unfold otherMetaBlock
  split_ifs <;> omega

/-- The metadata blocks of a start are the first two. -/
theorem placed_choice (r0 r1 : Header × Bool) {x : Ctx}
    (hx : loose ∨ x.ScratchInside c.toConfig) :
    Ctx.Placed c.toConfig loose { x with
      activeMetablock := if r0.2 && r1.2 then latestMetaBlock c r0.1 r1.1 else if r1.2 then 1 else 0
      scratchMetablock := otherMetaBlock (if r0.2 && r1.2 then latestMetaBlock c r0.1 r1.1
        else if r1.2 then 1 else 0) } := by
  have hlt : (if r0.2 && r1.2 then latestMetaBlock c r0.1 r1.1 else if r1.2 then 1 else 0) < 2 := by
    split_ifs
    · exact latestMetaBlock_lt _ _
    · decide
    · decide
  exact ⟨hlt, (otherMetaBlock_placed _).1, (otherMetaBlock_placed _).2, hx⟩

theorem metablocks_initGetActive :
    Leads D (Allowed c.toConfig True) K (initGetActiveMetablock c) (OnOk (Proper c True)) := by
  refine leads_onOk_bind (onOk_any _) fun r0 => leads_onOk_bind (onOk_any _) fun r1 => ?_
  refine leads_ite (fun _ => leads_throw fun _ _ _ => nofun) fun _ => ?_
  refine leads_modify fun x _ _ _ _ => ?_
  exact placed_choice r0 r1 (.inl trivial)

theorem metablocks_readMetaHeader :
    Leads D (Allowed c.toConfig True) (Proper c True) (readMetaHeader c)
      (OnOk (Proper c True)) := by
  have hcall : ∀ x : Ctx, Leads D (Allowed c.toConfig True)
      (fun x' d => x' = x ∧ Proper c True x' d) (call (.read x.activeMetablock 0 c.headerSize))
      (OnOk (Proper c True)) :=
    fun x => leads_call (.inl trivial) fun x' d h _ _ => h.2
  have hset : ∀ l : List UInt8, Leads D (Allowed c.toConfig True) (Proper c True)
      (modify fun x : Ctx => { x with header := .ofBytes l }) (OnOk (Proper c True)) :=
    fun l => leads_modify fun x d h _ _ => ⟨h.active, h.scratch, h.apart, .inl trivial⟩
  refine leads_get fun x => leads_onOk_bind (hcall x) fun l => leads_onOk_bind (hset l) fun _ => ?_
  exact leads_ite (fun _ => leads_pure fun _ _ h _ _ => h) fun _ => leads_throw fun _ _ _ => nofun

theorem onOk_recast {m : M Unit} {e : PsaStatus} {J : Ctx → δ → Prop}
    (h : Leads D (Allowed c.toConfig True) K m (OnOk J)) :
    Leads D (Allowed c.toConfig True) K (recast e m) (OnOk J) := by
  refine leads_recast (h.mono fun r x d hr a ha => ?_)
  cases r with
  | ok b => exact hr b rfl
  | error e' => cases ha

/-- Where the erase of the scratch data block was not refused, there is one. -/
theorem placed_eraseScratchBlocks (hrefused : Refuses c D loose) :
    Leads D (Allowed c.toConfig True) (Proper c True) (eraseScratchBlocks c)
      (OnOk (Proper c loose)) := by
  refine leads_get fun x => leads_assume (fun x' d h => h.1 ▸ h.2) fun hx => ?_
  have hmeta : Leads D (Allowed c.toConfig True) (fun x' d => x' = x ∧ Proper c True x' d)
      (call (.erase x.scratchMetablock)) (OnOk fun x' _ => x' = x) :=
    leads_call (.inl trivial) fun x' d h _ _ => h.1
  refine leads_onOk_bind hmeta fun _ => ?_
  by_cases h2 : 2 < c.numBlocks
  · have hdata : Leads D (Allowed c.toConfig True) (fun x' _ => x' = x)
        (call (.erase x.header.scratchDblock)) (OnOk (Proper c loose)) := by
      refine leads_call (.inl trivial) fun x' d h a hok => ?_
      subst h
      exact ⟨hx.active, hx.scratch, hx.apart, hrefused.imp_right fun h _ => h _ _ _ hok⟩
    rw [if_pos h2]
    exact leads_onOk_bind hdata fun _ => leads_pure fun x' d h _ _ => h
  · rw [if_neg h2]
    refine leads_pure fun x' d h _ _ => ?_
    subst h
    exact ⟨hx.active, hx.scratch, hx.apart, .inr fun h => absurd h h2⟩

theorem placed_mblockInit (hrefused : Refuses c D loose) :
    Leads D (Allowed c.toConfig True) K (mblockInit c) (OnOk (Proper c loose)) :=
  leads_onOk_bind (onOk_any _) fun _ =>
    leads_onOk_bind (onOk_recast metablocks_initGetActive) fun _ =>
      leads_onOk_bind (onOk_recast metablocks_readMetaHeader) fun _ =>
        placed_eraseScratchBlocks hrefused

/-- A deletion leaves the blocks where they are, whatever the metadata says. -/
theorem placed_deleteIdx (hv : c.validate = true) (hD : Faithful c.toConfig D look) {i : Nat}
    (hi : i < c.maxNumFiles) :
    Leads D (Allowed c.toConfig True) (Proper c loose) (deleteIdx c i) (OnOk (Proper c loose)) :=
  fun x d hx => Io.within_mono (fun _ _ h => h.onOk) _ _
    (leads_deleteIdx (fun _ => trivial) hv hD hx hi (.inl trivial) x d ⟨rfl, rfl⟩)

theorem placed_prepare (hv : c.validate = true) (hD : Faithful c.toConfig D look)
    (hrefused : Refuses c D loose) :
    Leads D (Allowed c.toConfig True) K (prepare c) (OnOk (Proper c loose)) := by
  refine leads_onOk_bind (placed_mblockInit hrefused) fun _ => ?_
  have hflag : Leads D (Allowed c.toConfig True) (Proper c loose)
      (attempt (getFileIdxFlag c flagDelete)) (Ends (Proper c loose) fun r =>
        ∀ i, r = .ok i → i < c.maxNumFiles) :=
    keeps_attempt ((keeps_findFileLoop hv hD stays_proper _ c.maxNumFiles 0 (by omega)).weaken
      fun _ hi => hi.1)
  refine Leads.bind hflag (fun e x d _ => nofun) fun r => ?_
  cases r with
  | ok i =>
    refine leads_assume (fun x d hS => hS.2 _ rfl i rfl) fun hi => ?_
    exact (placed_deleteIdx hv hD hi).from fun x d hS => hS.1
  | error e =>
    cases e
    case doesNotExist => exact leads_pure fun x d hS _ _ => hS.1
    all_goals exact leads_throw fun _ _ _ => nofun

/-! ### All runs -/

theorem placed_inductive (hv : c.validate = true) (hD : Regular c.toConfig D look) :
    ((mountLts c D).restrict fun y q => q.Fits c D look y).Inductive fun y =>
      y.1.Placed c.toConfig False where
  init y h := by
    obtain ⟨y₀, hrun⟩ := h
    have hprepare : Leads D (Allowed c.toConfig True) (fun _ _ => True) (prepare c)
        (OnOk (Proper c False)) :=
      placed_prepare hv hD.faithful (.inr hD.refused)
    have hends := hprepare.ends (x := y₀.1) (d := y₀.2) trivial
    unfold runOn at hrun
    injection hrun with hok hy
    subst hy
    exact hends () hok
  step y q y' hy hstep := by
    obtain ⟨hfits, rfl⟩ := hstep
    exact ((leads_serve hv hD.faithful hy hfits).ends ⟨rfl, rfl⟩).1

/-- **Whatever is on the flash: in every run after a mount that was accepted, in which the copies
of the updates fit, every call is inside of the flash area.** -/
theorem calls_inside (hv : c.validate = true) (hD : Regular c.toConfig D look) {y : Sys δ}
    (hr : ((mountLts c D).restrict fun y q => q.Fits c D look y).Reachable y)
    (q : Req c.toConfig) (hq : q.Fits c D look y) :
    ∀ o ∈ (q.prog c y.1).calls D y.2, o.Inside c.numBlocks c.blockSize := by
  intro o ho
  have hplaced := (placed_inductive hv hD).reachable y hr
  exact ((leads_serve hv hD.faithful hplaced hq).calls ⟨rfl, rfl⟩ o ho).resolve_left id

end Runs

/-! ### Files that overlap -/

/-- A metadata block 0 with these files, and nothing in the other one. -/
def imageOf (files : List FileMeta) : Flash := fun b o =>
  if b = 0 then
    (pad smallCfg.headerSize (Header.bytes ⟨0, 1, 1⟩) ++
      pad smallCfg.blockMetaSize (BlockMeta.bytes ⟨0, 116, 0⟩) ++
      files.flatMap fun m => pad smallCfg.fileMetaSize m.bytes).getD o 0
  else 0

/-- The system after the mount. -/
def mountedWith (files : List FileMeta) : Sys Flash :=
  (runOn (memOps smallCfg.toConfig) (prepare smallCfg) (.zero, imageOf files)).2

/-- Files 8 and 9 share their bytes with each other, and have room to move. -/
def sharing : List FileMeta := [⟨0, 116, 4, 4, 0, 7⟩, ⟨0, 120, 5, 5, 0, 8⟩, ⟨0, 122, 5, 5, 0, 9⟩]

/-- They have so many bytes that they do not. -/
def crowded : List FileMeta := [⟨0, 116, 4, 4, 0, 7⟩, ⟨0, 120, 5, 10, 0, 8⟩, ⟨0, 120, 5, 10, 0, 9⟩]

theorem calls_inside_sharing :
    (runOn (memOps smallCfg.toConfig) (prepare smallCfg) (.zero, imageOf sharing)).1 = .ok () ∧
      ∀ o ∈ ((Req.delete fid7).prog smallCfg (mountedWith sharing).1).calls
          (memOps smallCfg.toConfig) (mountedWith sharing).2,
        o.Inside smallCfg.numBlocks smallCfg.blockSize := by
  have hok : (runOn (memOps smallCfg.toConfig) (prepare smallCfg) (.zero, imageOf sharing)).1 =
      .ok () := by decide +kernel
  have hfind : (tableOf smallCfg (mountedWith sharing)).find smallCfg fid7.id = some 0 := by
    decide +kernel
  have hfits : (tableOf smallCfg (mountedWith sharing)).MoveFits smallCfg 0 := by
    unfold Tab.MoveFits
    decide +kernel
  refine ⟨hok, calls_inside rfl memRegular (.init ⟨(.zero, imageOf sharing), ?_⟩)
    (.delete fid7) fun i hi => ?_⟩
  · rw [← hok]
    rfl
  · have hzero := hfind.symm.trans hi
    injection hzero with hzero
    exact hzero ▸ hfits

/-- The metadata of each file is accepted, and a deletion reads behind the block. -/
theorem calls_outside_crowded :
    (runOn (memOps smallCfg.toConfig) (prepare smallCfg) (.zero, imageOf crowded)).1 = .ok () ∧
      ∃ o ∈ ((Req.delete fid7).prog smallCfg (mountedWith crowded).1).calls
          (memOps smallCfg.toConfig) (mountedWith crowded).2,
        ¬ o.Inside smallCfg.numBlocks smallCfg.blockSize := by
  decide +kernel

end Tfm.L4.Its
