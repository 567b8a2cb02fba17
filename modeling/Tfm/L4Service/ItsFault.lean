import Tfm.Core.CallFault
import Tfm.L4Service.ItsAccess
import Tfm.L4Service.ItsCrash

/-!
# ITS where calls of the flash driver fail

Any call of the flash driver can fail, and may have done a part of its work then. What a
failure does depends on where it is. `fileWriteEarly` and `deleteIdxEarly` are the first
parts of the updates, in which it does no harm: up to where the data blocks are swapped, or
to where the header is written if they are not.

Results: `spares_fileWriteEarly` and `stops_deleteIdxEarly`, where a call fails in them they
return an error, and neither the context nor anything outside of the scratch blocks has
changed; `stops_swapBack`, the scratch data block is put back; `fileWrite_early` and
`deleteIdx_early`, the updates are these and a rest.
-/
namespace Tfm.L4.Its
open Tfm.BlockDev Tfm.Bytes

/-! ## Devices -/

/-- The cells that a call is about. -/
def Config.Touches (c : Config) : Op → Nat → Nat → Prop
  | .write b off data, b', o =>
    c.inArea b off data.length ∧ b' = b ∧ off ≤ o ∧ o < off + data.length
  | .erase b, b', _ => b' = b
  | _, _, _ => False

/-- A flash driver that can fail: a call that it reports as done is done, and one that it
reports as failed changed some of the cells that it is about, or none. -/
structure Flaky {δ : Type} (c : Config) (D : Dev PsaStatus δ) (look : δ → Flash) : Prop where
  done : D.Imitates (memOps c) look
  failed : ∀ d o e b off, (D d o).1 = .error e → ¬ c.Touches o b off →
    look (D d o).2 b off = look d b off

section Frames

variable {δ : Type} {c : Config} {D : Dev PsaStatus δ} {look : δ → Flash}

theorem Config.memOps_frame {f : Flash} {o : Op} {b off : Nat} (h : ¬ c.Touches o b off) :
    (memOps c f o).2 b off = f b off := by
  unfold memOps
  cases o with
  | init | flush => rfl
  | read b' off' n =>
    dsimp only
    split <;> rfl
  | write b' off' data =>
    dsimp only
    split
    · next harea => exact if_neg fun hx => h ⟨harea, hx⟩
    · rfl
  | erase b' =>
    dsimp only
    split
    · exact if_neg h
    · rfl

theorem Flaky.frame (hD : Flaky c D look) {d : δ} {o : Op} {b off : Nat}
    (h : ¬ c.Touches o b off) : look (D d o).2 b off = look d b off := by
  cases hr : (D d o).1 with
  | error e => exact hD.failed d o e b off hr h
  | ok l =>
    have hdone := hD.done d o l hr
    have hframe := Config.memOps_frame (f := look d) h
    rw [hdone] at hframe
    exact hframe

/-- Memory of which some calls fail. -/
theorem flaky_failing (F : Nat → Bool) :
    Flaky c ((memOps c).failing .storageFailure F) Prod.fst := by
  refine ⟨failing_imitates, fun d o e b off hr h => ?_⟩
  unfold Dev.failing
  split
  · rfl
  · exact Config.memOps_frame h

end Frames

/-! ## The scratch blocks -/

/-- The context is `x₀`, and the flash is `f₀` but for the scratch blocks, whose header is that
of `f₀` too. -/
def Spared {δ : Type} (c : Cfg) (look : δ → Flash) (t : Tab) (f₀ : Flash) (x₀ x : Ctx) (d : δ) :
    Prop := x = x₀ ∧ ∀ b o, ¬ t.Body c b o → look d b o = f₀ b o

/-- The flash `f₀` has the metadata `t`, and so has the context its metadata blocks. -/
structure Shown (c : Cfg) (t : Tab) (f₀ : Flash) (x₀ : Ctx) : Prop where
  sane : Sane c t
  table : SameTable c (tableOf c (x₀, f₀)) t
  scratch : x₀.scratchMetablock = t.sm

section Calls

variable {δ : Type} {c : Cfg} {D : Dev PsaStatus δ} {look : δ → Flash} {t : Tab} {f₀ : Flash}
  {x₀ : Ctx} {α : Type} {R : α → Prop} {p : Prop}

/-- `Spared`, and no call failed, if `p`. -/
def Held (c : Cfg) (look : δ → Flash) (t : Tab) (f₀ : Flash) (x₀ : Ctx) (p : Prop) (x : Ctx)
    (d : δ × Bool) : Prop := Spared c look t f₀ x₀ x d.1 ∧ (p → d.2 = true)

/-- Whatever fails in `m`, all but the scratch blocks is left as it is; and where a call fails,
`m` does. -/
abbrev Spares (c : Cfg) (D : Dev PsaStatus δ) (look : δ → Flash) (t : Tab) (f₀ : Flash) (x₀ : Ctx)
    (p : Prop) (m : M α) (R : α → Prop) : Prop :=
  KeepsOr D.marked (fun _ => True) (Held c look t f₀ x₀ p)
    (fun _ x d => Spared c look t f₀ x₀ x d.1) m R

theorem spares_throw {e : PsaStatus} : Spares c D look t f₀ x₀ p (throw e) R :=
  keepsOr_throw fun _ _ h => h.1

theorem spares_call (hD : Flaky c.toConfig D look) {o : Op} {R : List UInt8 → Prop}
    (h : ∀ b off, c.Touches o b off → t.Body c b off)
    (hR : ∀ f l, (∀ b o, ¬ t.Body c b o → f b o = f₀ b o) →
      (memOps c.toConfig f o).1 = .ok l → R l) :
    Spares c D look t f₀ x₀ p (call o) R := by
  refine leads_call trivial fun x d hx => ?_
  have hspared : Spared c look t f₀ x₀ x (D d.1 o).2 :=
    ⟨hx.1.1, fun b off hb => (hD.frame fun ht => hb (h b off ht)).trans (hx.1.2 b off hb)⟩
  cases hr : (D d.1 o).1 with
  | error e =>
    simp only [Dev.marked, hr]
    exact hspared
  | ok l =>
    simp only [Dev.marked, hr]
    refine ⟨⟨hspared, fun hp => ?_⟩, hR (look d.1) l hx.1.2 ?_⟩
    · rw [hx.2 hp]
      rfl
    · rw [hD.done d.1 o l hr]

/-- What the rest of a program needs of the context. -/
theorem spares_get {f : Ctx → M α} (hf : Spares c D look t f₀ x₀ p (f x₀) R) :
    Spares c D look t f₀ x₀ p (get >>= f) R := by
  refine leads_get fun x => leads_assume (fun x' d h => h.1.symm.trans h.2.1.1) fun hx => ?_
  subst hx
  exact hf.from fun x' d h => h.2

theorem Sane.active_not_body (ht : Sane c t) (o : Nat) : ¬ t.Body c t.active o := fun h =>
  ht.phys_not_scratch c.numActiveDblocks_pos o (Tab.body_scratch _ _ h)

theorem Shown.active (h : Shown c t f₀ x₀) : x₀.activeMetablock = t.active := h.table.active

theorem spares_readActive (hD : Flaky c.toConfig D look) (ht : Shown c t f₀ x₀) (off n : Nat) :
    Spares c D look t f₀ x₀ p (call (.read x₀.activeMetablock off n))
      fun l => l = f₀.read x₀.activeMetablock off n := by
  refine spares_call hD (fun _ _ => False.elim) fun f l hf hl => ?_
  unfold memOps at hl
  dsimp only at hl
  split at hl
  · rw [← Except.ok.inj hl, ht.active]
    unfold Flash.read
    exact List.map_congr_left fun i _ => hf _ _ (ht.sane.active_not_body _)
  · cases hl

theorem spares_readFileMeta (hD : Flaky c.toConfig D look) (ht : Shown c t f₀ x₀) {i : Nat}
    (hi : i < c.maxNumFiles) :
    Spares c D look t f₀ x₀ p (readFileMeta c i) fun m => m = t.fm i := by
  refine spares_get (keepsOr_bind (spares_readActive hD ht _ _) fun l hl => ?_)
  refine leads_ite (fun _ => spares_throw) fun _ => keepsOr_pure ?_
  rw [hl]
  exact ht.table.fm i hi

theorem spares_readBlockMetadata (hD : Flaky c.toConfig D look) (ht : Shown c t f₀ x₀) {l : Nat}
    (hl : l < c.numActiveDblocks) :
    Spares c D look t f₀ x₀ p (readBlockMetadata c l) fun b => b = t.bm l := by
  refine spares_get (keepsOr_bind (spares_readActive hD ht _ _) fun bytes hb => ?_)
  refine leads_ite (fun _ => spares_throw) fun _ => keepsOr_pure ?_
  rw [hb]
  exact ht.table.bm l hl

/-- A write to a scratch block. -/
theorem spares_write (hD : Flaky c.toConfig D look) {b off : Nat} {l : List UInt8}
    (hb : ∀ o, off ≤ o → t.Body c b o) :
    Spares c D look t f₀ x₀ p (call (.write b off l)) fun _ => off + l.length ≤ c.blockSize := by
  refine spares_call hD (fun b' o h => ?_) fun f l' _ hl => ?_
  · obtain ⟨-, rfl, ho, -⟩ := h
    exact hb o ho
  · unfold memOps at hl
    dsimp only at hl
    split at hl
    · next harea => exact harea.2
    · cases hl

theorem spares_moveLoop (hD : Flaky c.toConfig D look) (dst src fuel : Nat) :
    ∀ doff soff size, (∀ o, doff ≤ o → t.Body c dst o) →
    Spares c D look t f₀ x₀ p (blockToBlockMoveLoop dst src fuel doff soff size) fun _ => True := by
  induction fuel with
  | zero => exact fun _ _ _ _ => keepsOr_pure trivial
  | succ fuel ih =>
    intro doff soff size hdst
    refine leads_ite (fun _ => keepsOr_pure trivial) fun _ => ?_
    have hread : Spares c D look t f₀ x₀ p (call (.read src soff (min size 256)))
        fun l => l.length = min size 256 := by
      refine spares_call hD (fun _ _ => False.elim) fun f l _ hl => ?_
      unfold memOps at hl
      dsimp only at hl
      split at hl
      · rw [← Except.ok.inj hl]
        simp [Flash.read]
      · cases hl
    refine keepsOr_bind hread fun l hlen => keepsOr_bind (spares_write hD hdst) fun _ hroom => ?_
    -- behind the block nothing is written, so the offset does not wrap
    refine ih _ _ _ fun o ho => hdst o ?_
    have hlt := c.blockSize_lt
    rw [add32_of_lt (by omega)] at ho
    omega

theorem spares_move (hD : Flaky c.toConfig D look) {dst doff : Nat} (src soff size : Nat)
    (hdst : ∀ o, doff ≤ o → t.Body c dst o) :
    Spares c D look t f₀ x₀ p (blockToBlockMove dst doff src soff size) fun _ => True :=
  spares_moveLoop hD dst src size doff soff size hdst

end Calls

/-! ## The metadata -/

section Metadata

variable {δ : Type} {c : Cfg} {D : Dev PsaStatus δ} {look : δ → Flash} {t : Tab} {f₀ : Flash}
  {x₀ : Ctx} {p : Prop}

theorem Shown.body (ht : Shown c t f₀ x₀) {off o : Nat} (h : c.headerSize ≤ off) (ho : off ≤ o) :
    t.Body c x₀.scratchMetablock o := .inl ⟨ht.scratch, Nat.le_trans h ho⟩

theorem Cfg.header_blockMeta (c : Cfg) (l : Nat) : c.headerSize ≤ c.blockMetaOffset l := by
  rw [← c.blockMetaOffset_zero]
  exact c.blockMetaOffset_mono (Nat.zero_le l)

theorem Cfg.header_fileMeta (c : Cfg) (i : Nat) : c.headerSize ≤ c.fileMetaOffset i :=
  c.headerSize_le.trans (c.fileMetaOffset_mono (Nat.zero_le i))

theorem Cfg.header_metaEnd (c : Cfg) : c.headerSize ≤ c.metaEnd :=
  c.headerSize_le.trans c.fileMetaOffset_le

/-- If it finds nothing, no call failed. -/
theorem holds_findFileLoop (hD : Flaky c.toConfig D look) (ht : Shown c t f₀ x₀)
    (found : FileMeta → Bool) (n : Nat) : ∀ i, i + n ≤ c.maxNumFiles →
    KeepsOr D.marked (fun _ => True) (Held c look t f₀ x₀ p)
      (fun e x d => Spared c look t f₀ x₀ x d.1 ∧ (e = .doesNotExist → Held c look t f₀ x₀ p x d))
      (findFileLoop c found n i) fun j => j < c.maxNumFiles ∧ found (t.fm j) = true := by
  induction n with
  | zero => exact fun _ _ => keepsOr_throw fun x d h => ⟨h.1, fun _ => h⟩
  | succ n ih =>
    intro i hi
    refine keepsOr_bind (keepsOr_recast ((spares_readFileMeta hD ht (i := i) (by omega)).weaken
      fun _ _ _ h => ⟨h, fun he => by cases he⟩)) fun m hm => ?_
    refine leads_ite (fun hp => keepsOr_pure ⟨by omega, hm ▸ hp⟩) fun _ => ih (i + 1) (by omega)

theorem spares_findFileLoop (hD : Flaky c.toConfig D look) (ht : Shown c t f₀ x₀)
    (found : FileMeta → Bool) :
    Spares c D look t f₀ x₀ p (findFileLoop c found c.maxNumFiles 0) fun j =>
      j < c.maxNumFiles ∧ found (t.fm j) = true :=
  (holds_findFileLoop hD ht found c.maxNumFiles 0 (by omega)).weaken fun _ _ _ h => h.1

/-- If it finds an entry, no call failed. -/
theorem leads_freeLoop (hD : Flaky c.toConfig D look) (ht : Shown c t f₀ x₀) (n : Nat) :
    ∀ spare i, i + n ≤ c.maxNumFiles →
    Leads D.marked (fun _ => True) (Held c look t f₀ x₀ p) (getFreeFileIndexLoop c spare n i)
      (Returns (fun idx => Held c look t f₀ x₀ (p ∧ idx.isSome = true))
        fun _ x d => Spared c look t f₀ x₀ x d.1) := by
  have hnone : ∀ x d, Spared c look t f₀ x₀ x (d : δ × Bool).1 →
      Held c look t f₀ x₀ (p ∧ (none : Option Nat).isSome = true) x d :=
    fun x d h => ⟨h, fun hp => by cases hp.2⟩
  have hsome : ∀ i x d, Held c look t f₀ x₀ p x d →
      Held c look t f₀ x₀ (p ∧ (some i : Option Nat).isSome = true) x d :=
    fun i x d h => ⟨h.1, fun hp => h.2 hp.1⟩
  induction n with
  | zero => exact fun _ _ _ => leads_pure fun x d h => hnone x d h.1
  | succ n ih =>
    intro spare i hi
    refine leads_seq (leads_attempt (spares_readFileMeta hD ht (by omega))) fun r => ?_
    cases r with
    | error e => exact leads_pure hnone
    | ok m =>
      refine Leads.from ?_ fun x d h => h.1
      refine leads_ite (fun _ => ih spare (i + 1) (by omega)) fun _ => ?_
      exact leads_ite (fun _ => leads_pure (hsome i)) fun _ => ih true (i + 1) (by omega)

theorem spares_updateScratchFileMeta (hD : Flaky c.toConfig D look) (ht : Shown c t f₀ x₀)
    (i : Nat) (m : FileMeta) :
    Spares c D look t f₀ x₀ p (updateScratchFileMeta c i m) fun _ => True :=
  spares_get (keepsOr_bind (spares_write hD fun _ => ht.body (c.header_fileMeta i)) fun _ _ =>
    keepsOr_pure trivial)

theorem spares_writeScratchBlockMeta (hD : Flaky c.toConfig D look) (ht : Shown c t f₀ x₀)
    (l : Nat) (m : BlockMeta) :
    Spares c D look t f₀ x₀ p (writeScratchBlockMeta c l m) fun _ => True :=
  spares_get (keepsOr_bind (spares_write hD fun _ => ht.body (c.header_blockMeta l)) fun _ _ =>
    keepsOr_pure trivial)

theorem spares_copyRemainingBlockMeta (hD : Flaky c.toConfig D look) (ht : Shown c t f₀ x₀)
    (l : Nat) :
    Spares c D look t f₀ x₀ p (copyRemainingBlockMeta c l) fun _ => True := by
  have hmove : ∀ i n, Spares c D look t f₀ x₀ p (blockToBlockMove x₀.scratchMetablock
      (c.blockMetaOffset i) x₀.activeMetablock (c.blockMetaOffset i) n) fun _ => True :=
    fun i n => spares_move hD _ _ _ fun _ => ht.body (c.header_blockMeta i)
  refine spares_get ?_
  dsimp only
  split
  · refine keepsOr_bind (keepsOr_recast (spares_readBlockMetadata hD ht c.numActiveDblocks_pos))
      fun m _ => ?_
    refine keepsOr_bind (keepsOr_recast (spares_writeScratchBlockMeta hD ht 0 _)) fun _ _ => ?_
    split
    · exact keepsOr_bind (hmove 1 _) fun _ _ => hmove _ _
    · exact hmove _ _
  · exact hmove _ _

theorem spares_updateScratchBlockMeta (hD : Flaky c.toConfig D look) (ht : Shown c t f₀ x₀)
    (l : Nat) (b : BlockMeta) :
    Spares c D look t f₀ x₀ p (updateScratchBlockMeta c l b) fun _ => True :=
  spares_get (keepsOr_bind (keepsOr_recast (spares_writeScratchBlockMeta hD ht l _)) fun _ _ =>
    spares_copyRemainingBlockMeta hD ht l)

theorem spares_cpFileMeta (hD : Flaky c.toConfig D look) (ht : Shown c t f₀ x₀) (i j : Nat) :
    Spares c D look t f₀ x₀ p (cpFileMeta c i j) fun _ => True :=
  spares_get (spares_move hD _ _ _ fun _ => ht.body (c.header_fileMeta i))

theorem spares_fileWriteTable (hD : Flaky c.toConfig D look) (ht : Shown c t f₀ x₀)
    (old : Option Nat) (new : Nat) (m : FileMeta) :
    Spares c D look t f₀ x₀ p (fileWriteTable c old new m) fun _ => True := by
  refine keepsOr_bind (spares_updateScratchFileMeta hD ht new m) fun _ _ => ?_
  cases old with
  | none =>
    exact keepsOr_bind (spares_cpFileMeta hD ht _ _) fun _ _ => spares_cpFileMeta hD ht _ _
  | some old =>
    refine keepsOr_bind (spares_cpFileMeta hD ht _ _) fun _ _ => ?_
    refine leads_ite (fun _ => ?_) fun _ => spares_cpFileMeta hD ht _ _
    exact keepsOr_bind (spares_cpFileMeta hD ht _ _) fun _ _ => spares_cpFileMeta hD ht _ _

theorem spares_migrate (hD : Flaky c.toConfig D look) (ht : Shown c t f₀ x₀) :
    Spares c D look t f₀ x₀ p (migrateLb0DataToScratch c) fun _ => True := by
  refine keepsOr_bind (spares_readBlockMetadata hD ht c.numActiveDblocks_pos) fun b hb => ?_
  refine spares_get (spares_move hD _ _ _ fun _ => ht.body ?_)
  rw [hb, ht.sane.start0]
  exact c.header_metaEnd

end Metadata

/-! ## Reads -/

section Reads

variable {δ : Type} {c : Cfg} {D : Dev PsaStatus δ} {look : δ → Flash} {t : Tab} {f₀ : Flash}
  {x₀ : Ctx} {p : Prop}

theorem spares_fileGetInfo (hD : Flaky c.toConfig D look) (ht : Shown c t f₀ x₀) (fid : Nat) :
    Spares c D look t f₀ x₀ p (fileGetInfo c fid) fun _ => True :=
  keepsOr_bind (keepsOr_recast (spares_findFileLoop hD ht _)) fun _ hi =>
    keepsOr_bind (spares_readFileMeta hD ht hi.1) fun _ _ =>
      leads_ite (fun _ => spares_throw) fun _ => keepsOr_pure trivial

theorem spares_fileRead (hD : Flaky c.toConfig D look) (ht : Shown c t f₀ x₀) {fid : Nat}
    (hfid : fid ≠ 0) (size offset : Nat) :
    Spares c D look t f₀ x₀ p (fileRead c fid size offset) fun _ => True := by
  refine keepsOr_bind (keepsOr_recast (spares_findFileLoop hD ht _))
    fun i hi => keepsOr_bind (keepsOr_recast (spares_readFileMeta hD ht hi.1)) fun m hm => ?_
  refine leads_ite (fun _ => spares_throw) fun hid => leads_ite (fun _ => spares_throw) fun _ => ?_
  have hu : (t.fm i).used = true := FileMeta.used_of_id (hm ▸ not_not.1 hid ▸ hfid)
  have hl : m.lblock < c.numActiveDblocks := hm ▸ (ht.sane.inRange hi.1 hu).lblock
  refine keepsOr_recast (keepsOr_bind (keepsOr_recast (spares_readBlockMetadata hD ht hl))
    fun b _ => ?_)
  exact spares_call hD (fun _ _ => False.elim) fun _ _ _ _ => trivial

end Reads

/-! ## The data -/

section Data

variable {δ : Type} {c : Cfg} {D : Dev PsaStatus δ} {look : δ → Flash} {t : Tab} {f₀ : Flash}
  {x₀ : Ctx} {p : Prop}

/-- The bytes of the file `m` are in its block, of which `b` says where the data starts. -/
structure Located (c : Cfg) (t : Tab) (m : FileMeta) (b : BlockMeta) : Prop where
  lblock : m.lblock < c.numActiveDblocks
  start : b.dataStart = (t.bm m.lblock).dataStart
  dataIdx : (t.bm m.lblock).dataStart ≤ m.dataIdx
  dataEnd : m.dataIdx + m.maxSize ≤ c.blockSize

theorem Located.header {m : FileMeta} {b : BlockMeta} (h : Located c t m b) (ht : Sane c t)
    (hl : m.lblock = 0) : c.headerSize ≤ b.dataStart := by
  rw [h.start, hl, ht.start0]
  exact c.header_metaEnd

theorem Shown.dataBody (ht : Shown c t f₀ x₀) (hsd : x₀.header.scratchDblock = t.sd) {l off o : Nat}
    (hl : l < c.numActiveDblocks) (h : l = 0 → c.headerSize ≤ off) (ho : off ≤ o) :
    t.Body c (curDataScratchId x₀ l) o := by
  unfold curDataScratchId
  split
  · next hl0 => exact ht.body (h hl0) ho
  · next hl0 => exact .inr ⟨c.two_lt (Nat.pos_of_ne_zero hl0) hl, hsd⟩

theorem spares_any (hD : Flaky c.toConfig D look) {o : Op}
    (h : ∀ b off, ¬ c.Touches o b off) : Spares c D look t f₀ x₀ p (call o) fun _ => True :=
  spares_call hD (fun b off hb => absurd hb (h b off)) fun _ _ _ _ => trivial

theorem spares_dblockWriteFile (hD : Flaky c.toConfig D look) (ht : Shown c t f₀ x₀)
    (hsd : x₀.header.scratchDblock = t.sd) {m : FileMeta} {b : BlockMeta} (h : Located c t m b)
    {offset size : Nat} (hsize : offset + size ≤ m.maxSize) (data : Nat → UInt8) :
    Spares c D look t f₀ x₀ p (dblockWriteFile c b m offset size data) fun _ => True := by
  have hlt := c.blockSize_lt
  have hend := h.dataEnd
  have hstart : b.dataStart ≤ m.dataIdx := h.start ▸ h.dataIdx
  have hbody : ∀ off, b.dataStart ≤ off → ∀ o, off ≤ o →
      t.Body c (curDataScratchId x₀ m.lblock) o := fun off hoff o =>
    ht.dataBody hsd h.lblock fun hl => (h.header ht.sane hl).trans hoff
  refine spares_get (keepsOr_bind (spares_move hD _ _ _ (hbody _ (Nat.le_refl _))) fun _ _ => ?_)
  refine keepsOr_bind (spares_write hD (hbody _ ?_)) fun _ _ => ?_
  · rw [add32_of_lt (by omega)]
    omega
  refine keepsOr_bind (spares_move hD _ _ _ (hbody _ ?_)) fun _ _ => ?_
  · rw [add32_of_lt (by omega)]
    omega
  · refine leads_ite (fun _ => ?_) fun _ => keepsOr_pure trivial
    exact keepsOr_bind (spares_any hD fun _ _ => id) fun _ _ => keepsOr_pure trivial

theorem spares_fileWriteAlignedData (hD : Flaky c.toConfig D look) (ht : Shown c t f₀ x₀)
    (hsd : x₀.header.scratchDblock = t.sd) {m : FileMeta} {b : BlockMeta} (h : Located c t m b)
    (offset size : Nat) (data : Nat → UInt8) :
    Spares c D look t f₀ x₀ p (fileWriteAlignedData c b m offset size data) fun _ => True := by
  refine leads_ite (fun _ => spares_throw) fun _ => leads_ite (fun _ => spares_throw) fun _ =>
    leads_ite (fun _ => spares_throw) fun hin => ?_
  refine spares_dblockWriteFile hD ht hsd h ?_ data
  have hcontained : checkContainedIn m.maxSize offset (c.aligned size) = true := by simpa using hin
  simp only [checkContainedIn, Bool.and_eq_true, decide_eq_true_eq] at hcontained
  omega

theorem spares_compactData (hD : Flaky c.toConfig D look) (ht : Shown c t f₀ x₀)
    (hsd : x₀.header.scratchDblock = t.sd) {m : FileMeta} {b : BlockMeta} (h : Located c t m b)
    (src size : Nat) :
    Spares c D look t f₀ x₀ p
      (dblockCompactData (curDataScratchId x₀ m.lblock) b src m.dataIdx size) fun _ => True := by
  have hbody : ∀ off, b.dataStart ≤ off → ∀ o, off ≤ o →
      t.Body c (curDataScratchId x₀ m.lblock) o := fun off hoff o =>
    ht.dataBody hsd h.lblock fun hl => (h.header ht.sane hl).trans hoff
  have hfront : Spares c D look t f₀ x₀ p
      (if b.dataStart < m.dataIdx then recast PsaStatus.genericError
        (blockToBlockMove (curDataScratchId x₀ m.lblock) b.dataStart b.phyId b.dataStart
          (m.dataIdx - b.dataStart))
      else pure ()) fun _ => True :=
    leads_ite (fun _ => keepsOr_recast (spares_move hD _ _ _ (hbody _ (Nat.le_refl _))))
      fun _ => keepsOr_pure trivial
  unfold dblockCompactData
  by_cases hsize : 0 < size
  · rw [if_pos hsize]
    exact keepsOr_bind (keepsOr_recast (spares_move hD _ _ _ (hbody _ (h.start ▸ h.dataIdx))))
      fun _ _ => hfront
  · rw [if_neg hsize]
    exact hfront

theorem spares_deleteIdxLoop (hD : Flaky c.toConfig D look) (ht : Shown c t f₀ x₀)
    (del l dataIdx size n : Nat) : ∀ i src nbr, i + n ≤ c.maxNumFiles →
    Spares c D look t f₀ x₀ p (deleteIdxLoop c del l dataIdx size n i src nbr) fun _ => True := by
  induction n with
  | zero => exact fun _ _ _ _ => keepsOr_pure trivial
  | succ n ih =>
    intro i src nbr hi
    unfold deleteIdxLoop
    split
    · exact ih (i + 1) _ _ (by omega)
    · refine keepsOr_bind (spares_readFileMeta hD ht (by omega)) fun m _ => ?_
      exact keepsOr_bind (spares_updateScratchFileMeta hD ht i _) fun _ _ =>
        ih (i + 1) _ _ (by omega)

/-- What a write found: the entries that it has to do with, and where the file is. -/
theorem Sane.located (ht : Sane c t) {i : Nat} (hi : i < c.maxNumFiles)
    (hu : (t.fm i).used = true) : Located c t (t.fm i) (t.bm (t.fm i).lblock) := by
  have hfile := ht.inRange hi hu
  exact ⟨hfile.lblock, rfl, hfile.start, hfile.fileEnd.trans (Nat.sub_le _ _)⟩

theorem spares_reserveLoop (hD : Flaky c.toConfig D look) (ht : Shown c t f₀ x₀)
    (fid size flags n : Nat) : ∀ i, i + n ≤ c.numActiveDblocks →
    Spares c D look t f₀ x₀ p (mblockReserveFileLoop c fid size flags n i) fun r =>
      Located c t r.1 r.2 := by
  have hlt := c.blockSize_lt
  induction n with
  | zero => exact fun _ _ => spares_throw
  | succ n ih =>
    intro i hi
    have hl : i < c.numActiveDblocks := by omega
    refine keepsOr_bind (keepsOr_recast (spares_readBlockMetadata hD ht hl)) fun b hb => ?_
    refine leads_ite (fun hsize => keepsOr_pure ?_) fun _ => ih (i + 1) (by omega)
    have hfree := ht.sane.free i hl
    subst hb
    have hidx : sub32 c.blockSize (t.bm i).freeSize = c.blockSize - (t.bm i).freeSize :=
      sub32_of_le (by omega) (by omega)
    refine ⟨hl, rfl, ?_, ?_⟩
    · show (t.bm i).dataStart ≤ sub32 c.blockSize (t.bm i).freeSize
      omega
    · show sub32 c.blockSize (t.bm i).freeSize + size ≤ c.blockSize
      omega

theorem spares_reserveFile (hD : Flaky c.toConfig D look) (ht : Shown c t f₀ x₀) (fid : Nat)
    (spare : Bool) (size flags : Nat) :
    Spares c D look t f₀ x₀ p (reserveFile c fid spare size flags) fun w =>
      Located c t w.2.1 w.2.2 := by
  refine leads_seq (leads_attempt (spares_reserveLoop hD ht fid size flags c.numActiveDblocks 0
    (by omega))) fun res => ?_
  cases res with
  | error e =>
    -- here a call may have failed; the entry that is found is not used
    refine leads_seq ((leads_freeLoop (p := False) hD ht c.maxNumFiles spare 0 (by omega)).from
      fun x d h => ⟨h, False.elim⟩) fun idx => leads_throw fun x d h => h.1
  | ok mb =>
    refine leads_assume (fun _ _ h => h.2) fun hmb => ?_
    refine leads_seq ((leads_freeLoop hD ht c.maxNumFiles spare 0 (by omega)).from
      fun x d h => h.1) fun idx => ?_
    cases idx with
    | none => exact leads_throw fun x d h => h.1
    | some i => exact leads_pure fun x d h => ⟨⟨h.1, fun hp => h.2 ⟨hp, rfl⟩⟩, hmb⟩

/-- The file that is written in place is one of the table. -/
def Reused (c : Cfg) (t : Tab) (m : FileMeta) : Prop :=
  ∃ i, i < c.maxNumFiles ∧ (t.fm i).used = true ∧ m.lblock = (t.fm i).lblock ∧
    m.dataIdx = (t.fm i).dataIdx ∧ m.maxSize = (t.fm i).maxSize

theorem Reused.located (ht : Sane c t) {m : FileMeta} (h : Reused c t m) :
    Located c t m (t.bm m.lblock) := by
  obtain ⟨i, hi, hu, hl, hidx, hmax⟩ := h
  have hi := ht.located hi hu
  refine ⟨hl ▸ hi.lblock, rfl, ?_, ?_⟩
  · rw [hl, hidx]
    exact hi.dataIdx
  · rw [hidx, hmax]
    exact hi.dataEnd

theorem spares_fileWriteLookup (hD : Flaky c.toConfig D look) (ht : Shown c t f₀ x₀) {fid : Nat}
    (hfid : fid ≠ 0) (flags maxSize : Nat) :
    Spares c D look t f₀ x₀ p (fileWriteLookup c fid flags maxSize) fun r =>
      ∀ i m, r.2 = some (i, m) → Reused c t m := by
  have hnone : ∀ o : Option Nat, Spares c D look t f₀ x₀ p
      (pure (o, none) : M (Option Nat × Option (Nat × FileMeta))) fun r =>
        ∀ i m, r.2 = some (i, m) → Reused c t m := fun o => keepsOr_pure fun i m h => by cases h
  refine leads_seq (leads_attempt (holds_findFileLoop hD ht _ c.maxNumFiles 0 (by omega)))
    fun r => ?_
  cases r with
  | error e =>
    cases e
    case doesNotExist =>
      exact (leads_ite (fun _ => spares_throw) fun _ => hnone none).from fun x d h => h.2 rfl
    all_goals exact leads_throw fun x d h => h.1
  | ok i =>
    refine leads_assume (fun _ _ h => h.2) fun hr => Leads.from ?_ fun x d h => h.1
    obtain ⟨hi, hid⟩ := hr
    have hu : (t.fm i).used = true := FileMeta.used_of_id (of_decide_eq_true hid ▸ hfid)
    refine keepsOr_bind (keepsOr_recast (spares_readFileMeta hD ht hi)) fun m hm => ?_
    subst hm
    refine leads_ite (fun _ => leads_ite (fun _ => keepsOr_pure ?_) fun _ => ?_) fun _ =>
      keepsOr_pure ?_
    · intro j m' h
      cases h
      exact ⟨i, hi, hu, rfl, rfl, rfl⟩
    · exact keepsOr_bind (keepsOr_recast (spares_updateScratchFileMeta hD ht i _)) fun _ _ =>
        hnone (some i)
    · intro j m' h
      cases h
      exact ⟨i, hi, hu, rfl, rfl, rfl⟩

theorem spares_fileWriteReserve (hD : Flaky c.toConfig D look) (ht : Shown c t f₀ x₀)
    (fid flags maxSize : Nat) (old : Option Nat) {reuse : Option (Nat × FileMeta)}
    (h : ∀ i m, reuse = some (i, m) → Reused c t m) :
    Spares c D look t f₀ x₀ p (fileWriteReserve c fid flags maxSize old reuse) fun w =>
      Located c t w.2.1 w.2.2 := by
  cases reuse with
  | none => exact leads_ite (fun _ => spares_throw) fun _ => spares_reserveFile hD ht _ _ _ _
  | some im =>
    obtain ⟨i, m⟩ := im
    have hloc := (h i m rfl).located ht.sane
    refine keepsOr_bind (keepsOr_recast (spares_readBlockMetadata hD ht hloc.lblock)) fun b hb =>
      keepsOr_pure ?_
    rw [hb]
    exact hloc

end Data

/-! ## The first part of an update -/

section Early

variable (c : Cfg)

/-- `its_flash_fs_file_write` up to where the scratch data block is swapped, or to where the
header of the scratch metadata block is written if it is not; whether it is to be swapped.
mirrors secure_fw/partitions/internal_trusted_storage/flash_fs/its_flash_fs.c:243-423 -/
def fileWriteEarly (fid flags maxSize dataSize offset : Nat) (data : Nat → UInt8) :
    M (Bool × Option Nat × Nat × FileMeta × BlockMeta) := do
  if flags &&& internalFlagsMask ≠ 0 then throw .invalidArgument
  let maxSize := c.aligned maxSize
  let (old, reuse) ← fileWriteLookup c fid flags maxSize
  let (new, m, b) ← fileWriteReserve c fid flags maxSize old reuse
  if dataSize ≠ 0 ∧ m.lblock ≠ 0 then
    recast .genericError (fileWriteAlignedData c b m offset dataSize data)
    pure (true, old, new, m, b)
  else
    let (m, b) ← fileWriteData c m b dataSize offset data
    recast .genericError (updateScratchBlockMeta c m.lblock b)
    recast .genericError (fileWriteTable c old new m)
    if m.lblock ≠ 0 ∨ dataSize = 0 then recast .genericError (migrateLb0DataToScratch c)
    pure (false, old, new, m, b)

/-- The rest of it. -/
def fileWriteLate (dataSize offset : Nat)
    (w : Bool × Option Nat × Nat × FileMeta × BlockMeta) : M Unit := do
  let (swap, old, new, m, b) := w
  if swap then
    let x ← get
    setDataScratch b.phyId m.lblock
    let m := if m.curSize < add32 offset dataSize then { m with curSize := add32 offset dataSize }
      else m
    recast .genericError (updateScratchBlockMeta c m.lblock
      { b with phyId := curDataScratchId x m.lblock })
    recast .genericError (fileWriteTable c old new m)
    recast .genericError (migrateLb0DataToScratch c)
  metaUpdateFinalize c
  deleteOld c (old.filter (· ≠ new))

/-- `its_flash_fs_delete_idx` up to the flush of the data block, or to where the header is
written; the block of the file.
mirrors secure_fw/partitions/internal_trusted_storage/flash_fs/its_flash_fs.c:441-528 -/
def deleteIdxEarly (del : Nat) : M Nat := do
  let m ← readFileMeta c del
  if !m.used then throw .doesNotExist
  updateScratchFileMeta c del .zero
  let (src, nbr) ← deleteIdxLoop c del m.lblock m.dataIdx m.maxSize c.maxNumFiles 0 c.blockSize 0
  let b ← readBlockMetadata c m.lblock
  let scratchId := curDataScratchId (← get) m.lblock
  dblockCompactData scratchId b src m.dataIdx nbr
  setDataScratch b.phyId m.lblock
  match ← attempt (updateScratchBlockMeta c m.lblock
      ⟨scratchId, b.dataStart, add32 b.freeSize m.maxSize⟩) with
  | .error e => do
    setDataScratch scratchId m.lblock
    throw e
  | .ok () => pure m.lblock

/-- The rest of it. -/
def deleteIdxLate (lblock : Nat) : M Unit := do
  if lblock ≠ 0 then
    let _ ← call .flush
    recast .genericError (migrateLb0DataToScratch c)
  metaUpdateFinalize c

theorem deleteIdx_early (del : Nat) :
    deleteIdx c del = deleteIdxEarly c del >>= deleteIdxLate c := by
  unfold deleteIdx deleteIdxEarly dblockCompactBlock dblockCompactMeta
  simp only [bind_assoc]
  refine bind_congr fun m => ?_
  by_cases hu : (!m.used) = true
  · simp only [if_pos hu]
    rfl
  simp only [if_neg hu, bind_assoc]
  refine bind_congr fun _ => bind_congr fun scan => bind_congr fun b => bind_congr fun x =>
    bind_congr fun _ => bind_congr fun _ => bind_congr fun r => ?_
  cases r with
  | error e => rfl
  | ok u =>
    unfold deleteIdxLate
    by_cases hl : m.lblock ≠ 0
    · simp only [if_pos hl, bind_assoc, pure_bind]
    · simp only [if_neg hl, pure_bind]

theorem fileWrite_early (fid flags maxSize dataSize offset : Nat) (data : Nat → UInt8) :
    fileWrite c fid flags maxSize dataSize offset data =
      fileWriteEarly c fid flags maxSize dataSize offset data >>=
        fileWriteLate c dataSize offset := by
  unfold fileWrite fileWriteEarly
  by_cases hflags : flags &&& internalFlagsMask ≠ 0
  · simp only [if_pos hflags]
    rfl
  simp only [if_neg hflags, bind_assoc]
  refine bind_congr fun r => bind_congr fun w => ?_
  have hold := deleteOld_filter (c := c) r.1 w.1
  by_cases hswap : dataSize ≠ 0 ∧ w.2.1.lblock ≠ 0
  · unfold fileWriteData
    simp only [if_pos hswap, if_neg hswap.1, bind_assoc, pure_bind, fileWriteLate, if_true]
    have hmigrate : w.2.1.lblock ≠ 0 ∨ dataSize = 0 := .inl hswap.2
    refine bind_congr fun _ => bind_congr fun x => bind_congr fun _ => ?_
    by_cases hcur : w.2.1.curSize < add32 offset dataSize
    · simp only [if_pos hcur, if_pos hmigrate]
      exact bind_congr fun _ => bind_congr fun _ => bind_congr fun _ => bind_congr fun _ => hold
    · simp only [if_neg hcur, if_pos hmigrate]
      exact bind_congr fun _ => bind_congr fun _ => bind_congr fun _ => bind_congr fun _ => hold
  · simp only [if_neg hswap, bind_assoc]
    refine bind_congr fun v => bind_congr fun _ => bind_congr fun _ => ?_
    by_cases hmigrate : v.1.lblock ≠ 0 ∨ dataSize = 0
    · simp only [if_pos hmigrate, bind_assoc, pure_bind, fileWriteLate, Bool.false_eq_true,
        if_false]
      exact bind_congr fun _ => bind_congr fun _ => hold
    · simp only [if_neg hmigrate, pure_bind, fileWriteLate, Bool.false_eq_true, if_false]
      exact bind_congr fun _ => hold

end Early

section EarlySpares

variable {δ : Type} {c : Cfg} {D : Dev PsaStatus δ} {look : δ → Flash} {t : Tab} {f₀ : Flash}
  {x₀ : Ctx} {p : Prop}

/-- The data blocks are not swapped for a file in logical block 0. -/
theorem spares_fileWriteData (hD : Flaky c.toConfig D look) (ht : Shown c t f₀ x₀)
    (hsd : x₀.header.scratchDblock = t.sd) {m : FileMeta} {b : BlockMeta} (h : Located c t m b)
    {dataSize : Nat} (hno : ¬ (dataSize ≠ 0 ∧ m.lblock ≠ 0)) (offset : Nat) (data : Nat → UInt8) :
    Spares c D look t f₀ x₀ p (fileWriteData c m b dataSize offset data) fun _ => True := by
  refine leads_ite (fun _ => keepsOr_pure trivial) fun hsize => ?_
  have hl : m.lblock = 0 := not_not.1 fun hl => hno ⟨hsize, hl⟩
  have hset : Spares c D look t f₀ x₀ p (setDataScratch b.phyId m.lblock) fun _ => True :=
    leads_modify fun x d hx => by
      rw [if_neg (not_not.2 hl)]
      exact ⟨hx, trivial⟩
  have hwrite := spares_fileWriteAlignedData (p := p) hD ht hsd h offset dataSize data
  exact keepsOr_bind (keepsOr_recast hwrite) fun _ _ =>
    spares_get (keepsOr_bind hset fun _ _ => keepsOr_pure trivial)

theorem Shown.of_metablocks (ht : Shown c t f₀ x₀) {x₁ : Ctx}
    (ha : x₁.activeMetablock = x₀.activeMetablock)
    (hs : x₁.scratchMetablock = x₀.scratchMetablock) : Shown c t f₀ x₁ := by
  refine ⟨ht.sane, ?_, hs.trans ht.scratch⟩
  have htable : tableOf c (x₁, f₀) = tableOf c (x₀, f₀) := by
    unfold tableOf
    rw [ha]
  rw [htable]
  exact ht.table

/-- What `its_flash_fs_mblock_set_data_scratch` makes of the context. -/
def Ctx.setScratch (x : Ctx) (phyId l : Nat) : Ctx :=
  if l ≠ 0 then { x with header := { x.header with scratchDblock := phyId } } else x

theorem leads_setDataScratch (phyId l : Nat) (J : PsaStatus → Ctx → δ × Bool → Prop) :
    Leads D.marked (fun _ => True) (Held c look t f₀ x₀ p) (setDataScratch phyId l)
      (Returns (fun _ => Held c look t f₀ (x₀.setScratch phyId l) p) J) :=
  leads_modify fun x d hx => by
    rw [hx.1.1]
    exact ⟨⟨rfl, hx.1.2⟩, hx.2⟩

/-- Where a call fails, `m` does, and all but the scratch blocks is left as it is. -/
abbrev Stops (c : Cfg) (D : Dev PsaStatus δ) (look : δ → Flash) (t : Tab) (f₀ : Flash) (x₀ : Ctx)
    (p : Prop) {α : Type} (m : M α) : Prop :=
  Leads D.marked (fun _ => True) (Held c look t f₀ x₀ p) m
    (Returns (fun _ _ d => p → d.2 = true) fun _ x d => Spared c look t f₀ x₀ x d.1)

section Stop

variable {α β : Type} {m : M β} {f : β → M α} {R : β → Prop}

theorem Spares.stops (h : Spares c D look t f₀ x₀ p m R) : Stops c D look t f₀ x₀ p m :=
  h.mono fun r x d hr => by
    cases r with
    | ok a => exact hr.1.2
    | error e => exact hr

theorem stops_bind (h : Spares c D look t f₀ x₀ p m R)
    (hf : ∀ b, R b → Stops c D look t f₀ x₀ p (f b)) : Stops c D look t f₀ x₀ p (m >>= f) :=
  leads_seq h fun b => leads_assume (fun _ _ hR => hR.2) fun hR => (hf b hR).from fun _ _ hK => hK.1

end Stop

/-- The scratch data block is put back, if the metadata of the block cannot be written. -/
theorem stops_swapBack (hD : Flaky c.toConfig D look) (ht : Shown c t f₀ x₀) {α : Type}
    (phyId l : Nat) (b : BlockMeta) (a : α) :
    Stops c D look t f₀ x₀ p (do
        setDataScratch phyId l
        match ← attempt (updateScratchBlockMeta c l b) with
        | .error e => do
          setDataScratch (curDataScratchId x₀ l) l
          throw e
        | .ok () => pure a) := by
  refine leads_seq (leads_setDataScratch phyId l _) fun _ => ?_
  have ht₁ : Shown c t f₀ (x₀.setScratch phyId l) := by
    refine ht.of_metablocks ?_ ?_
    · unfold Ctx.setScratch
      split <;> rfl
    · unfold Ctx.setScratch
      split <;> rfl
  have hback : (x₀.setScratch phyId l).setScratch (curDataScratchId x₀ l) l = x₀ := by
    unfold Ctx.setScratch curDataScratchId
    split <;> rfl
  refine leads_seq (leads_attempt (spares_updateScratchBlockMeta hD ht₁ l b)) fun r => ?_
  cases r with
  | ok u => exact leads_pure fun x d h => h.1.2
  | error e =>
    refine leads_seq ((leads_setDataScratch (p := False) (curDataScratchId x₀ l) l _).from
      fun x d h => ⟨h, False.elim⟩) fun _ => leads_throw fun x d h => ?_
    rw [hback] at h
    exact h.1

theorem spares_fileWriteEarly (hD : Flaky c.toConfig D look) (ht : Shown c t f₀ x₀)
    (hsd : x₀.header.scratchDblock = t.sd) {fid : Nat} (hfid : fid ≠ 0)
    (flags maxSize dataSize offset : Nat) (data : Nat → UInt8) :
    Spares c D look t f₀ x₀ p (fileWriteEarly c fid flags maxSize dataSize offset data)
      fun _ => True := by
  refine leads_ite (fun _ => spares_throw) fun _ => ?_
  refine keepsOr_bind (spares_fileWriteLookup hD ht hfid flags _) fun r hr => ?_
  refine keepsOr_bind (spares_fileWriteReserve hD ht _ _ _ r.1 hr) fun w hw => ?_
  refine leads_ite (fun _ => ?_) fun hno => ?_
  · exact keepsOr_bind (keepsOr_recast (spares_fileWriteAlignedData hD ht hsd hw _ _ _)) fun _ _ =>
      keepsOr_pure trivial
  · refine keepsOr_bind (spares_fileWriteData hD ht hsd hw hno offset data) fun v _ => ?_
    refine keepsOr_bind (keepsOr_recast (spares_updateScratchBlockMeta hD ht _ _)) fun _ _ => ?_
    refine keepsOr_bind (keepsOr_recast (spares_fileWriteTable hD ht _ _ _)) fun _ _ => ?_
    refine leads_ite (fun _ => ?_) fun _ => keepsOr_pure trivial
    exact keepsOr_bind (keepsOr_recast (spares_migrate hD ht)) fun _ _ => keepsOr_pure trivial

/-- A deletion puts the scratch data block back, if the metadata of the block cannot be written. -/
theorem stops_deleteIdxEarly (hD : Flaky c.toConfig D look) (ht : Shown c t f₀ x₀)
    (hsd : x₀.header.scratchDblock = t.sd) {i : Nat} (hi : i < c.maxNumFiles) :
    Stops c D look t f₀ x₀ p (deleteIdxEarly c i) := by
  refine stops_bind (spares_readFileMeta hD ht hi) fun m hm => ?_
  subst hm
  refine leads_ite (fun _ => leads_throw fun x d h => h.1) fun hu => ?_
  have hused : (t.fm i).used = true := by simpa using hu
  have hloc := ht.sane.located hi hused
  refine stops_bind (spares_updateScratchFileMeta hD ht i _) fun _ _ => ?_
  refine stops_bind (spares_deleteIdxLoop hD ht i _ _ _ c.maxNumFiles 0 _ _ (by omega))
    fun scan _ => ?_
  refine stops_bind (spares_readBlockMetadata hD ht hloc.lblock) fun b hb => ?_
  subst hb
  refine leads_get fun x => leads_assume (fun x' d h => h.1.symm.trans h.2.1.1) fun hx => ?_
  subst hx
  refine Leads.from ?_ fun x' d h => h.2
  exact stops_bind (spares_compactData hD ht hsd hloc _ _) fun _ _ => stops_swapBack hD ht _ _ _ _

end EarlySpares

end Tfm.L4.Its
