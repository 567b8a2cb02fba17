import Tfm.L4Service.ItsWrite

/-!
# What an accepted configuration promises

`its_flash_fs_validate_config` says that "the larger file must have enough space in
the ITS flash area to be created, at least, when the ITS flash area is empty". Over
every configuration that it accepts, the filesystem is made of any flash, and a first
file is created by one write.

Results: `creation_adequate`, the creation succeeds inside of the flash area exactly
where the sizes still fit after they are aligned. Sizes are aligned by masking, which
is right for a program unit that is a power of two (`aligned_fits`). The header of the
HAL means to check that it is one, but what it compares is `program_unit - 1` with 0, so
that every even program unit passes.
-/
namespace Tfm.L4.Its
open Tfm.BlockDev Tfm.Bytes

/-! ## Alignment -/

section Align

/-- The mask of `ITS_UTILS_ALIGN` clears the low bits. -/
theorem and_mask {n k : Nat} (hn : n < 2 ^ 32) : n &&& (2 ^ 32 - 2 ^ k) = n / 2 ^ k * 2 ^ k := by
  by_cases hk : k < 32
  · have hp := Nat.two_pow_pos k
    have hlt : 2 ^ k - 1 < 2 ^ 32 := by
      have := Nat.pow_lt_pow_right (show 1 < 2 by decide) hk
      omega
    rw [show 2 ^ 32 - 2 ^ k = 2 ^ 32 - (2 ^ k - 1 + 1) by omega]
    apply Nat.eq_of_testBit_eq
    intro i
    rw [Nat.testBit_and, Nat.testBit_two_pow_sub_succ hlt, Nat.testBit_two_pow_sub_one,
      Nat.testBit_mul_two_pow, Nat.testBit_div_two_pow]
    by_cases hi : i < 32
    · by_cases hki : k ≤ i
      · rw [Nat.sub_add_cancel hki]
        simp [hi, hki]
      · simp [hki, show i < k by omega]
    · have hb : n.testBit i = false :=
        Nat.testBit_lt_two_pow (Nat.lt_of_lt_of_le hn (Nat.pow_le_pow_right (by decide) (by omega)))
      rw [hb, Bool.false_and]
      by_cases hki : k ≤ i
      · rw [Nat.sub_add_cancel hki, hb, Bool.and_false]
      · simp [hki]
  · have hle : 2 ^ 32 ≤ 2 ^ k := Nat.pow_le_pow_right (by decide) (by omega)
    rw [Nat.sub_eq_zero_of_le hle, Nat.and_zero, Nat.div_eq_of_lt (by omega), Nat.zero_mul]

theorem align_two_pow {x k : Nat} (h : x + 2 ^ k ≤ 2 ^ 32) :
    align x (2 ^ k) = (x + (2 ^ k - 1)) / 2 ^ k * 2 ^ k := by
  have hp := Nat.two_pow_pos k
  unfold align
  rw [add32_of_lt (by omega), and_mask (by omega)]

/-- `ITS_UTILS_ALIGN`, where the alignment is a power of two: not more than any multiple. -/
theorem align_le {x m k : Nat} (h : x + 2 ^ k ≤ 2 ^ 32) (hx : x ≤ m) (hm : 2 ^ k ∣ m) :
    align x (2 ^ k) ≤ m := by
  have hp := Nat.two_pow_pos k
  obtain ⟨q, rfl⟩ := hm
  rw [align_two_pow h, Nat.mul_comm (2 ^ k) q]
  refine Nat.mul_le_mul_right _ (Nat.le_of_lt_succ ((Nat.div_lt_iff_lt_mul hp).mpr ?_))
  rw [Nat.succ_mul, Nat.mul_comm q]
  omega

theorem align_dvd {x k : Nat} (h : x + 2 ^ k ≤ 2 ^ 32) : 2 ^ k ∣ align x (2 ^ k) := by
  rw [align_two_pow h]
  exact Nat.dvd_mul_left _ _

/-- A program unit that is a power of two aligns the sizes as the configuration expects. -/
theorem aligned_fits {c : Config} {m n : Nat} (hu : c.maxAlign = 1 ∨ ∃ k, c.programUnit = 2 ^ k)
    (hdvd : c.programUnit ∣ c.maxFileSize) (hm : m ≤ c.maxFileSize) (hn : n ≤ m) :
    c.aligned m ≤ c.maxFileSize ∧ c.aligned n ≤ c.aligned m := by
  have hbuf : Buffer c m := by
    have := c.maxFileSize_lt
    have := c.programUnit_lt
    unfold Buffer
    omega
  have hle := Config.le_aligned hbuf
  unfold Config.aligned at hle ⊢
  by_cases h1 : c.maxAlign = 1
  · rw [if_neg (not_not.mpr h1), if_neg (not_not.mpr h1)]
    exact ⟨hm, hn⟩
  · obtain ⟨k, hk⟩ := hu.resolve_left h1
    unfold Buffer at hbuf
    rw [hk] at hbuf hdvd hle ⊢
    rw [if_pos h1] at hle ⊢
    rw [if_pos h1]
    exact ⟨align_le hbuf hm hdvd, align_le (by omega) (Nat.le_trans hn hle) (align_dvd hbuf)⟩

end Align

/-! ## The first file -/

section First

variable {c : Cfg} {fill : Option UInt8}

theorem Cfg.metaEnd_eq (c : Cfg) : c.metaEnd = c.allMetadataSize := by
  unfold Config.metaEnd Config.fileMetaOffset Config.allMetadataSize
  rw [c.numActiveDblocks_eq]

/-- The larger file fits the empty filesystem. -/
theorem Cfg.fresh_room (c : Cfg) :
    ∃ l, l < c.numActiveDblocks ∧ c.maxFileSize ≤ ((Tab.fresh c fill).bm l).freeSize := by
  have hbs := c.blockSize_lt
  rcases c.numBlocks_ok with h2 | h4
  · refine ⟨0, c.numActiveDblocks_pos, ?_⟩
    have hme := c.metaEnd_eq
    have hle := c.metaEnd_le
    have hacc := c.accepted
    unfold validateConfig at hacc
    rw [hme] at hle
    rw [sub32_of_le hle (by omega)] at hacc
    show c.maxFileSize ≤ c.blockSize - c.metaEnd
    rw [hme]
    simp only [Bool.and_eq_true, Bool.not_eq_true', Bool.and_eq_false_iff, decide_eq_false_iff_not,
      not_lt] at hacc
    exact hacc.1.1.2.resolve_left (not_not.mpr h2)
  · have h1 : 1 < c.numActiveDblocks := by
      rw [c.numActiveDblocks_lt (by omega)]
      omega
    refine ⟨1, h1, ?_⟩
    rw [fresh_bm Nat.one_pos]
    exact c.maxFileSize_le

theorem freeBlock_isSome {bm : Nat → BlockMeta} {size k : Nat} (hk : size ≤ (bm k).freeSize)
    (n : Nat) : ∀ {i : Nat}, i ≤ k → k < i + n → (freeBlock bm size n i).isSome = true := by
  induction n with
  | zero => exact fun h1 h2 => by omega
  | succ n ih =>
    intro i h1 h2
    unfold freeBlock
    split
    · rfl
    · next hi =>
      have hne : i ≠ k := fun he => hi (he ▸ hk)
      exact ih (by omega) (by omega)

theorem Tab.fresh_find {fid : Nat} (h : fid ≠ 0) : (Tab.fresh c fill).find c fid = none := by
  cases hf : (Tab.fresh c fill).find c fid with
  | none => rfl
  | some i =>
    have hid : decide (0 = fid) = true := (findIdx_lt _ hf).2.2
    exact absurd (of_decide_eq_true hid).symm h

theorem Tab.fresh_lookup {fid flags maxSize : Nat} (h : fid ≠ 0) (hcreate : flags &&& flagCreate ≠ 0) :
    (Tab.fresh c fill).lookup c fid flags maxSize = .ok (none, none) := by
  unfold Tab.lookup
  rw [Tab.fresh_find h]
  exact if_neg hcreate

/-- What a write needs to create the first file: its sizes fit, aligned. -/
def Fitting (c : Config) (a : WriteArgs c) : Prop :=
  c.aligned a.maxSize ≤ c.maxFileSize ∧
    (a.dataSize = 0 ∨ c.aligned a.dataSize ≤ c.aligned a.maxSize)

/-- The first file is created exactly where it fits. -/
theorem fresh_accepted {a : WriteArgs c.toConfig} (h2 : 2 ≤ c.maxNumFiles)
    (hcreate : a.flags &&& flagCreate ≠ 0) (hint : a.flags &&& internalFlagsMask = 0)
    (hoff : a.offset = 0) :
    (Req.write a).accepted c (Tab.fresh c fill) = true ↔ Fitting c.toConfig a := by
  have hlook : (Tab.fresh c fill).lookup c a.fid.id a.flags (c.aligned a.maxSize) =
      .ok (none, none) := Tab.fresh_lookup a.fid.valid hcreate
  have hidx : freeIdx (Tab.fresh c fill).fm false c.maxNumFiles 0 = some 1 := by
    obtain ⟨n, hn⟩ := Nat.exists_eq_add_of_le' h2
    rw [hn]
    rfl
  have hfits : ∀ m : FileMeta, dataFits c m a.dataSize 0 = true ↔
      c.aligned a.dataSize ≤ m.maxSize := by
    intro m
    simp [dataFits, isAligned, checkContainedIn]
  show ((Tab.fresh c fill).write c _ _ _ _ _ _ _).isOk = true ↔ _
  rw [Tab.write_isOk, hoff]
  unfold Fitting
  constructor
  · intro h
    obtain ⟨_, old, reuse, new, m, b, hl, hr, hd⟩ := h
    rw [hlook] at hl
    cases hl
    have hm : m.maxSize = c.aligned a.maxSize := (Tab.reserve_new hr).2.2.2.1
    rw [hfits, hm] at hd
    unfold Tab.reserve at hr
    dsimp only at hr
    split at hr
    · cases hr
    · next hle => exact ⟨by omega, hd⟩
  · intro h
    obtain ⟨hle, hd⟩ := h
    obtain ⟨l, hl, hfree⟩ : ∃ l, l < c.numActiveDblocks ∧ c.maxFileSize ≤
      ((Tab.fresh c fill).bm l).freeSize := c.fresh_room
    obtain ⟨l', hl'⟩ := Option.isSome_iff_exists.mp
      (freeBlock_isSome (Nat.le_trans hle hfree) c.numActiveDblocks (Nat.zero_le l) (by omega))
    have hr : (Tab.fresh c fill).reserve c a.fid.id a.flags (c.aligned a.maxSize) none none = .ok
        (1, ⟨l', c.blockSize - ((Tab.fresh c fill).bm l').freeSize, 0, c.aligned a.maxSize, a.flags,
          a.fid.id⟩, { (Tab.fresh c fill).bm l' with
            freeSize := ((Tab.fresh c fill).bm l').freeSize - c.aligned a.maxSize }) := by
      unfold Tab.reserve
      dsimp only
      rw [if_neg (by omega), hl', Option.isSome_none, hidx]
    exact ⟨hint, none, none, 1, _, _, hlook, hr, hd.imp id (hfits _).mpr⟩

/-- Block by block, what is behind the data and what is before it. -/
structure Spaced (c : Cfg) (t : Tab) : Prop where
  block : ∀ l, l < c.numActiveDblocks → (t.bm l).dataStart + (t.bm l).freeSize ≤ c.blockSize
  file : ∀ i, i < c.maxNumFiles → (t.fm i).used = true → (t.fm i).lblock < c.numActiveDblocks ∧
    (t.bm (t.fm i).lblock).dataStart ≤ (t.fm i).dataIdx ∧
    (t.fm i).dataIdx + (t.fm i).maxSize + (t.bm (t.fm i).lblock).freeSize ≤ c.blockSize

theorem Sane.spaced {t : Tab} (h : Sane c t) : Spaced c t where
  block := h.free
  file i hi hu := by
    obtain ⟨h1, h2, h3, _⟩ := h.file i hi hu
    have := h.free _ h1
    exact ⟨h1, h2, by omega⟩

theorem SameTable.spaced {t u : Tab} (h : SameTable c t u) (hu : Spaced c u) : Spaced c t where
  block l hl := by
    rw [h.bm l hl]
    exact hu.block l hl
  file i hi := by
    rw [h.fm i hi]
    intro hus
    obtain ⟨h1, h2⟩ := hu.file i hi hus
    rw [h.bm _ h1]
    exact ⟨h1, h2⟩

theorem fresh_spaced (l : Nat) : ((Tab.fresh c fill).bm l).dataStart +
    ((Tab.fresh c fill).bm l).freeSize = c.blockSize := by
  rcases Nat.eq_zero_or_pos l with rfl | h0
  · exact Nat.add_sub_cancel' c.metaEnd_le
  · rw [fresh_bm h0]
    exact Nat.zero_add _

/-- A file of `t'` is taken from the free bytes of a block of `t`. -/
def TakenFrom (c : Cfg) (t t' : Tab) (fid : Nat) : Prop :=
  ∃ i, i < c.maxNumFiles ∧ (t'.fm i).id = fid ∧
    (t'.fm i).maxSize ≤ (t.bm (t'.fm i).lblock).freeSize ∧
    (t.bm (t'.fm i).lblock).freeSize ≤ c.blockSize ∧
    (t'.fm i).dataIdx + (t.bm (t'.fm i).lblock).freeSize = c.blockSize ∧
    (t'.bm (t'.fm i).lblock).freeSize + (t'.fm i).maxSize = (t.bm (t'.fm i).lblock).freeSize

theorem SameTable.takenFrom {t u t' u' : Tab} {fid : Nat} (h : SameTable c t u)
    (h' : SameTable c t' u') (hu : Spaced c u') (hfid : fid ≠ 0) (ht : TakenFrom c u u' fid) :
    TakenFrom c t t' fid := by
  obtain ⟨i, hi, hid, hrest⟩ := ht
  have hused : (u'.fm i).used = true := by
    unfold FileMeta.used
    rw [hid]
    exact decide_eq_true hfid
  have hl := (hu.file i hi hused).1
  refine ⟨i, hi, ?_⟩
  rw [h'.fm i hi, h'.bm _ hl, h.bm _ hl]
  exact ⟨hid, hrest⟩

theorem fresh_taken {a : WriteArgs c.toConfig} {t' : Tab} (hcreate : a.flags &&& flagCreate ≠ 0)
    (hw : (Tab.fresh c fill).writeArgs c fill a = .ok t') :
    TakenFrom c (Tab.fresh c fill) t' a.fid.id := by
  have hlook : (Tab.fresh c fill).lookup c a.fid.id a.flags (c.aligned a.maxSize) =
      .ok (none, none) := Tab.fresh_lookup a.fid.valid hcreate
  obtain ⟨new, m, b, m', dl, hr, hd, _, rfl⟩ := Tab.write_new hlook nofun hw
  obtain ⟨hnew, _, _, _, _, hid, hblock⟩ := Tab.reserve_new hr
  obtain ⟨hidx, hmax, rfl⟩ := Tab.reserve_place hr
  obtain ⟨hm', _⟩ := Tab.writeData_cases hd
  have hl : m.lblock < c.numActiveDblocks := by
    have := (freeBlock_some _ hblock).2.1
    omega
  have hfree := (sane_fresh : Sane c (Tab.fresh c fill)).free _ hl
  unfold Tab.dataEnd at hidx
  have hfm : (Tab.table (Tab.fresh c fill) none new m') new = m' := if_pos rfl
  refine ⟨new, hnew, ?_⟩
  rw [Option.elim_none]
  unfold Tab.update
  dsimp only
  rw [hfm, if_pos rfl, hm']
  dsimp only
  exact ⟨hid, hmax, by omega, by omega, Nat.sub_add_cancel hmax⟩

end First

/-! ## The calls of a run -/

section Calls

variable {c : Cfg} {y : Sys Flash} {t : Tab}

/-- All flash calls of `m` are inside of the flash area. -/
def StaysInside {α : Type} (c : Cfg) (m : M α) (y : Sys Flash) : Prop :=
  ∀ o ∈ (m y.1).calls (memOps c.toConfig) y.2, o.Inside c.numBlocks c.blockSize

theorem boot_inside (x : Ctx) (f : Flash) : StaysInside c (boot c) (x, f) := by
  have hs : Agrees f ⟨fun _ _ => ⟨none, false⟩, none⟩ := fun _ _ _ hv => nomatch hv
  have hwp : wp (c.rules false false) (boot c) x ⟨fun _ _ => ⟨none, false⟩, none⟩
      (fun _ _ _ => True) fun _ => True := wp_boot nofun fun _ _ _ => trivial
  exact (memFollows c.toConfig).calls hs hwp

theorem boot_ok (x : Ctx) (f : Flash) :
    (runOn (memOps c.toConfig) (boot c) (x, f)).1 = .ok () := by
  have hs : Agrees f ⟨fun _ _ => ⟨none, false⟩, none⟩ := fun _ _ _ hv => nomatch hv
  have hwp : wp (c.rules false false) (boot c) x ⟨fun _ _ => ⟨none, false⟩, none⟩
      (fun r _ _ => r = .ok ()) fun _ => True := wp_boot nofun fun _ _ _ => rfl
  obtain ⟨_, h, _⟩ := (memFollows c.toConfig).run hs hwp
  exact h

/-- **Every call of a mounted filesystem** stays inside of the flash area. -/
theorem Mounted.inside (h : Mounted c y t) (q : Req c.toConfig) : StaysInside c (q.prog c) y := by
  obtain ⟨s, hs, hwp⟩ := h.wp_req q
  exact (memFollows c.toConfig).calls hs hwp

end Calls

/-! ## The creation -/

section Create

variable {c : Cfg}

/-- The wipe of the flash `f`, and the first write. -/
structure Creates (c : Cfg) (x : Ctx) (f : Flash) (a : WriteArgs c.toConfig) : Prop where
  made : (runOn (memOps c.toConfig) (boot c) (x, f)).1 = .ok ()
  created : (memServe c (.write a) (runOn (memOps c.toConfig) (boot c) (x, f)).2).1 = .ok .done
  bootInside : StaysInside c (boot c) (x, f)
  writeInside : StaysInside c ((Req.write a).prog c) (runOn (memOps c.toConfig) (boot c) (x, f)).2
  metadata : c.allMetadataSize ≤ c.blockSize ∧ c.metaEnd = c.allMetadataSize
  empty : ∀ l, l < c.numActiveDblocks →
    ((tableOf c (runOn (memOps c.toConfig) (boot c) (x, f)).2).bm l).dataStart +
      ((tableOf c (runOn (memOps c.toConfig) (boot c) (x, f)).2).bm l).freeSize = c.blockSize
  spaced : Spaced c (tableOf c
    (memServe c (.write a) (runOn (memOps c.toConfig) (boot c) (x, f)).2).2)
  taken : TakenFrom c (tableOf c (runOn (memOps c.toConfig) (boot c) (x, f)).2)
    (tableOf c (memServe c (.write a) (runOn (memOps c.toConfig) (boot c) (x, f)).2).2) a.fid.id

/-- **The larger file has enough space**, exactly where the sizes fit after they are
aligned; a program unit that is a power of two aligns them so. -/
theorem creation_adequate (c : Cfg) (h2 : 2 ≤ c.maxNumFiles)
    (hdvd : c.programUnit ∣ c.maxFileSize) (x : Ctx) (f : Flash) (a : WriteArgs c.toConfig)
    (hcreate : a.flags &&& flagCreate ≠ 0) (hint : a.flags &&& internalFlagsMask = 0)
    (hoff : a.offset = 0) (hmax : a.maxSize ≤ c.maxFileSize) (hsize : a.dataSize ≤ a.maxSize) :
    (Creates c x f a ↔ Fitting c.toConfig a) ∧
    (c.maxAlign = 1 ∨ (∃ k, c.programUnit = 2 ^ k) → Fitting c.toConfig a) := by
  have hb : Mounted c (runOn (memOps c.toConfig) (boot c) (x, f)).2 _ := mounted_boot x f
  obtain ⟨hreply, hb'⟩ := hb.serve (.write a)
  have hfresh : (Req.write a).accepted c (Tab.fresh c (some c.eraseVal)) = true ↔
      Fitting c.toConfig a := fresh_accepted h2 hcreate hint hoff
  refine ⟨⟨fun h => ?_, fun h => ?_⟩, fun hu => ?_⟩
  · rw [← hfresh]
    have hdone := hreply.symm.trans h.created
    unfold Req.accepted
    unfold Tab.serve at hdone
    dsimp only at hdone ⊢
    cases hw : (Tab.fresh c (some c.eraseVal)).writeArgs c (some c.eraseVal) a with
    | ok t' => rfl
    | error e =>
      rw [hw] at hdone
      cases hdone
  · rw [← hfresh] at h
    have hw : ∃ t', (Tab.fresh c (some c.eraseVal)).writeArgs c (some c.eraseVal) a = .ok t' := by
      unfold Req.accepted at h
      dsimp only at h
      cases hw : (Tab.fresh c (some c.eraseVal)).writeArgs c (some c.eraseVal) a with
      | ok t' => exact ⟨t', rfl⟩
      | error e =>
        rw [hw] at h
        cases h
    obtain ⟨t', hw⟩ := hw
    have ht' : ((Tab.fresh c (some c.eraseVal)).serve c (some c.eraseVal) (.write a)).2 = t' := by
      unfold Tab.serve
      dsimp only
      rw [hw]
      rfl
    rw [ht'] at hb'
    have hsp := (hb'.layout.sane).spaced
    exact
      { made := boot_ok x f
        created := hreply.trans (accepted_done h)
        bootInside := boot_inside x f
        writeInside := hb.inside _
        metadata := ⟨c.metaEnd_eq ▸ c.metaEnd_le, c.metaEnd_eq⟩
        empty := fun l hl => by
          rw [hb.table.bm l hl]
          exact fresh_spaced l
        spaced := hb'.table.spaced hsp
        taken := hb.table.takenFrom hb'.table hsp a.fid.valid (fresh_taken hcreate hw) }
  · obtain ⟨h3, h4⟩ := aligned_fits hu hdvd hmax hsize
    exact ⟨h3, .inr h4⟩

/-- A file of one byte, of five at most. -/
def oneOfFive : WriteArgs smallCfg.toConfig := createArgs smallCfg fid7 5 [1] (by decide)

/-- The small filesystem takes it. -/
theorem creation_adequate_small : Creates smallCfg .zero (fun _ _ => 0) oneOfFive :=
  (creation_adequate smallCfg (by decide) (by decide) _ _ _ (by decide) (by decide) rfl (by decide)
    (by decide)).1.mpr ⟨by decide, .inr (by decide)⟩

/-- Program units of six bytes, which tfm_hal_its.h accepts, with protected storage
on flash of program units of eight: `ITS_FLASH_MAX_ALIGNMENT` is 8. -/
def sixCfg : Cfg where
  blockSize := 114
  numBlocks := 2
  programUnit := 6
  maxFileSize := 24
  maxNumFiles := 2
  eraseVal := 0xFF
  maxAlign := 8
  validate := true
  blockSize_lt := by decide
  numBlocks_lt := smallCfg.numBlocks_lt
  programUnit_lt := by decide
  maxFileSize_lt := by decide
  maxNumFiles_lt := smallCfg.numBlocks_lt
  programUnit_pos := by decide
  accepted := by decide

/-- With program units of six bytes, a file of 21 bytes cannot be created: its size is
aligned to 26. -/
theorem larger_file_refused : ¬ ∀ (c : Cfg), 2 ≤ c.maxNumFiles → c.programUnit ∣ c.maxFileSize →
    c.programUnit ∣ c.blockSize → ∀ (x : Ctx) (f : Flash) (a : WriteArgs c.toConfig),
    a.flags &&& flagCreate ≠ 0 → a.flags &&& internalFlagsMask = 0 → a.offset = 0 →
    a.maxSize ≤ c.maxFileSize → a.dataSize ≤ a.maxSize →
    (memServe c (.write a) (runOn (memOps c.toConfig) (boot c) (x, f)).2).1 = .ok .done := by
  intro h
  have h' := h sixCfg (by decide) (by decide) (by decide) .zero (fun _ _ => 0)
    (createArgs sixCfg fid7 21 [] (by decide)) (by decide) (by decide) rfl (by decide) (by decide)
  have hno : (memServe sixCfg (.write (createArgs sixCfg fid7 21 [] (by decide)))
      (booted sixCfg)).1 ≠ .ok .done := by decide +kernel
  exact hno h'

end Create

end Tfm.L4.Its
