import Tfm.Core.Tiles
import Tfm.L4Service.ItsFile

/-!
# The layout of the ITS blocks

What the operations rely on in the metadata: the numbers are in their ranges
(`Sane`), the files of a logical block tile its data, no two files have one id, and
one entry of the file table is spare. Between the two updates of a write that
replaces a file the old one is marked for deletion, and the spare entry is in use.

Results: `Layout.update_old`, `Layout.update_new` and `Layout.deleteIdx`, each
update keeps the layout; `Layout.scanFits`, the bytes that a deletion moves lie in
the block.
-/
namespace Tfm.L4.Its
open Tfm.BlockDev Tfm.Bytes

/-! ## Ranges -/

section Ranges

variable {c : Cfg} {t : Tab} {fill : Option UInt8}

theorem nextSwapCount_ne (c : Cfg) (n : UInt8) : nextSwapCount c n ≠ c.eraseVal := by
  unfold nextSwapCount validateSwapCount
  split
  · next h => simpa using h
  · next h =>
    have h' : n + 1 = c.eraseVal := by simpa using h
    rw [← h']
    intro he
    have h1 := congrArg UInt8.toNat he
    simp only [UInt8.toNat_add, UInt8.toNat_ofNat] at h1
    omega

/-- What `Sane` says of a file. -/
structure FileMeta.InRange (c : Cfg) (bm : Nat → BlockMeta) (m : FileMeta) : Prop where
  lblock : m.lblock < c.numActiveDblocks
  start : (bm m.lblock).dataStart ≤ m.dataIdx
  fileEnd : m.dataIdx + m.maxSize ≤ c.blockSize - (bm m.lblock).freeSize
  cur : m.curSize ≤ m.maxSize
  size : m.maxSize ≤ c.maxFileSize
  flags : m.flags < 2 ^ 32
  id : m.id < 2 ^ 96

theorem Sane.inRange (h : Sane c t) {i : Nat} (hi : i < c.maxNumFiles)
    (hu : (t.fm i).used = true) : (t.fm i).InRange c t.bm := by
  obtain ⟨h1, h2, h3, h4, h5, h6, h7⟩ := h.file i hi hu
  exact ⟨h1, h2, h3, h4, h5, h6, h7⟩

theorem Tab.update_dataStart {l : Nat} {b : BlockMeta} {fm : Nat → FileMeta}
    {dl : Option (Nat → Option UInt8)} (h : b.dataStart = (t.bm l).dataStart) (k : Nat) :
    ((t.update c fill l b fm dl).bm k).dataStart = (t.bm k).dataStart := by
  simp only [Tab.update]
  split
  · next hk =>
    rw [hk]
    exact h
  · split
    · next h0 => rw [h0]
    · rfl

theorem Tab.update_freeSize {l : Nat} {b : BlockMeta} {fm : Nat → FileMeta}
    {dl : Option (Nat → Option UInt8)} (k : Nat) :
    ((t.update c fill l b fm dl).bm k).freeSize =
      if k = l then b.freeSize else (t.bm k).freeSize := by
  simp only [Tab.update]
  split
  · rfl
  · split
    · next h0 => rw [h0]
    · rfl

/-- An update keeps the ranges, if those of the block and of the new file table are
kept. -/
theorem Sane.update (h : Sane c t) {l : Nat} {b : BlockMeta} {fm : Nat → FileMeta}
    {dl : Option (Nat → Option UInt8)} (hl : l < c.numActiveDblocks)
    (hstart : b.dataStart = (t.bm l).dataStart) (hfree : b.dataStart + b.freeSize ≤ c.blockSize)
    (hfile : ∀ i, i < c.maxNumFiles → (fm i).used = true →
      (fm i).InRange c (t.update c fill l b fm dl).bm)
    (hunused : ∀ i, i < c.maxNumFiles → (fm i).used = false → fm i = .zero) :
    Sane c (t.update c fill l b fm dl) := by
  have hbm : ∀ k, (t.update c fill l b fm dl).bm k =
      if k = l then
        { b with phyId := if l = 0 then t.sm else if dl.isSome then t.sd else (t.bm l).phyId }
      else if k = 0 then { t.bm 0 with phyId := t.sm } else t.bm k := fun _ => rfl
  have hsd : (t.update c fill l b fm dl).sd =
      if l ≠ 0 ∧ dl.isSome then (t.bm l).phyId else t.sd := rfl
  -- the metadata of the data blocks: block `l` has the scratch block, if it was rewritten
  have hphys : ∀ k, 0 < k → k < c.numActiveDblocks →
      ((t.update c fill l b fm dl).bm k).phyId =
        if k = l ∧ dl.isSome then t.sd else (t.bm k).phyId := by
    intro k hk _
    rw [hbm]
    by_cases hkl : k = l
    · subst hkl
      simp [Nat.pos_iff_ne_zero.mp hk]
    · simp [hkl, Nat.pos_iff_ne_zero.mp hk]
  have hds := @Tab.update_dataStart c t fill l b fm dl hstart
  have hscratch : ∀ {k}, 0 < k → k < c.numActiveDblocks → 2 ≤ t.sd ∧ t.sd < c.numBlocks :=
    fun hk hk' => h.scratch (c.two_lt hk hk')
  refine ⟨t.sm_lt, h.version, nextSwapCount_ne c _, ?_, ?_, ?_, ?_, .inl ?_, ?_, ?_, ?_, ?_, ?_, ?_,
    hunused⟩
  · rw [hds]
    exact h.start0
  · intro k hk hk'
    rw [hds]
    exact h.start k hk hk'
  · intro k hk
    rw [hds]
    have hk' := h.free k hk
    rw [t.update_freeSize]
    split
    · next hkl =>
      rw [hkl, ← hstart]
      exact hfree
    · exact hk'
  · have hsm := t.sm_lt
    rw [hbm]
    by_cases h0 : 0 = l
    · subst h0
      exact hsm
    · simp only [if_neg h0, if_true]
      exact hsm
  · rw [hbm]
    by_cases h0 : 0 = l
    · subst h0
      rfl
    · simp only [if_neg h0, if_true]
      rfl
  · intro k hk hk'
    rw [hphys k hk hk']
    split
    · exact hscratch hk hk'
    · exact h.phy k hk hk'
  · intro j k hj hj' hk hk' he
    rw [hphys j hj hj', hphys k hk hk'] at he
    split at he
    · next h1 =>
      split at he
      · next h2 => exact h1.1.trans h2.1.symm
      · exact absurd he.symm (h.apart k hk hk')
    · split at he
      · exact absurd he (h.apart j hj hj')
      · exact h.inj j k hj hj' hk hk' he
  · intro h2
    rw [hsd]
    split
    · next hc => exact h.phy l (by omega) hl
    · exact h.scratch h2
  · intro k hk hk'
    rw [hphys k hk hk', hsd]
    by_cases hc : l ≠ 0 ∧ dl.isSome
    · rw [if_pos hc]
      by_cases hkl : k = l
      · rw [if_pos ⟨hkl, hc.2⟩]
        exact (h.apart l (by omega) hl).symm
      · rw [if_neg fun hh => hkl hh.1]
        exact fun he => hkl (h.inj k l hk hk' (by omega) hl he)
    · rw [if_neg hc, if_neg fun hh => hc ⟨by omega, hh.2⟩]
      exact h.apart k hk hk'
  · rw [hsd]
    split
    · next hc =>
      have := (h.phy l (by omega) hl).2
      have := c.numBlocks_lt
      omega
    · exact h.sd_lt
  · intro i hi hu
    obtain ⟨h1, h2, h3, h4, h5, h6, h7⟩ := hfile i hi hu
    exact ⟨h1, h2, h3, h4, h5, h6, h7⟩

theorem Next.of_sane {l : Nat} {b : BlockMeta} {fm : Nat → FileMeta}
    {dl : Option (Nat → Option UInt8)} (h : Sane c (t.update c fill l b fm dl)) :
    Next c t (t.update c fill l b fm dl) := ⟨h, rfl, rfl⟩

end Ranges

/-! ## Layout -/

/-- The end of the data of a logical block. -/
def Tab.dataEnd (c : Cfg) (t : Tab) (l : Nat) : Nat := c.blockSize - (t.bm l).freeSize

/-- The layout of a mounted filesystem; `del` is the file that is marked for
deletion, between the two updates of a write. -/
structure Layout (c : Cfg) (t : Tab) (del : Option Nat) : Prop where
  sane : Sane c t
  apart : ∀ i j, i < c.maxNumFiles → j < c.maxNumFiles → i ≠ j → (t.fm i).used = true →
    (t.fm j).used = true → (t.fm i).lblock = (t.fm j).lblock →
    Tiles.Apart (t.fm i).dataIdx (t.fm i).maxSize (t.fm j).dataIdx (t.fm j).maxSize
  cover : ∀ l o, l < c.numActiveDblocks → (t.bm l).dataStart ≤ o → o < t.dataEnd c l →
    ∃ i, i < c.maxNumFiles ∧ (t.fm i).used = true ∧ (t.fm i).lblock = l ∧
      (t.fm i).dataIdx ≤ o ∧ o < (t.fm i).dataIdx + (t.fm i).maxSize
  distinct : ∀ i j, i < c.maxNumFiles → j < c.maxNumFiles → (t.fm i).used = true →
    (t.fm i).id = (t.fm j).id → i = j ∨ del = some i ∨ del = some j
  flag : ∀ i, i < c.maxNumFiles → (t.fm i).used = true →
    ((t.fm i).flags &&& flagDelete ≠ 0 ↔ del = some i)
  target : ∀ i, del = some i → i < c.maxNumFiles ∧ (t.fm i).used = true
  spare : del = none → 0 < c.maxNumFiles → ∃ i, i < c.maxNumFiles ∧ (t.fm i).used = false

/-! ### The scan of a deletion -/

section Scan

variable {fm : Nat → FileMeta} {del l d : Nat}

theorem delScan_fst (n : Nat) : ∀ {i src nbr : Nat},
    let r := (delScan fm del l d n i src nbr).1
    r ≤ src ∧ (∀ k, i ≤ k → k < i + n → k ≠ del → isLater l d (fm k) → r ≤ (fm k).dataIdx) ∧
      (r = src ∨ ∃ k, i ≤ k ∧ k < i + n ∧ k ≠ del ∧ isLater l d (fm k) ∧ r = (fm k).dataIdx) := by
  induction n with
  | zero => exact fun {i src nbr} => ⟨Nat.le_refl _, fun k h1 h2 => by omega, .inl rfl⟩
  | succ n ih =>
    intro i src nbr
    simp only [delScan]
    split
    · next hi =>
      obtain ⟨h1, h2, h3⟩ := @ih (i + 1) src nbr
      refine ⟨h1, fun k hk hk' hne => h2 k (by omega) (by omega) hne, ?_⟩
      rcases h3 with h3 | ⟨k, hk, hk', hr⟩
      · exact .inl h3
      · exact .inr ⟨k, by omega, by omega, hr⟩
    · next hi =>
      generalize (if isLater l d (fm i) then add32 nbr (fm i).maxSize else nbr) = nbr'
      generalize hs : (if isLater l d (fm i) ∧ (fm i).dataIdx < src then (fm i).dataIdx else src) =
        src'
      obtain ⟨h1, h2, h3⟩ := @ih (i + 1) src' nbr'
      have hle : src' ≤ src ∧ (isLater l d (fm i) → src' ≤ (fm i).dataIdx) ∧
          (src' = src ∨ isLater l d (fm i) ∧ src' = (fm i).dataIdx) := by
        split at hs
        · next hc => exact ⟨by omega, fun _ => by omega, .inr ⟨hc.1, hs.symm⟩⟩
        · next hc =>
          refine ⟨by omega, fun hlat => ?_, .inl hs.symm⟩
          rw [← hs]
          exact Nat.le_of_not_lt fun hlt => hc ⟨hlat, hlt⟩
      refine ⟨by omega, fun k hk hk' hne hlat => ?_, ?_⟩
      · by_cases hki : k = i
        · subst hki
          have := hle.2.1 hlat
          omega
        · exact h2 k (by omega) (by omega) hne hlat
      · rcases h3 with h3 | ⟨k, hk, hk', hr⟩
        · rw [h3]
          rcases hle.2.2 with he | ⟨hlat, he⟩
          · exact .inl he
          · exact .inr ⟨i, Nat.le_refl i, by omega, hi, hlat, he⟩
        · exact .inr ⟨k, by omega, by omega, hr⟩

/-- The later files from index `i` on. -/
def laterFrom (fm : Nat → FileMeta) (del l d i n : Nat) : Finset Nat :=
  (Finset.Ico i (i + n)).filter fun k => k ≠ del ∧ isLater l d (fm k)

theorem laterFrom_succ (i n : Nat) : ∑ k ∈ laterFrom fm del l d i (n + 1), (fm k).maxSize =
    (if i ≠ del ∧ isLater l d (fm i) then (fm i).maxSize else 0) +
      ∑ k ∈ laterFrom fm del l d (i + 1) n, (fm k).maxSize := by
  have hset : Finset.Ico i (i + (n + 1)) = insert i (Finset.Ico (i + 1) (i + 1 + n)) := by
    ext k
    simp only [Finset.mem_Ico, Finset.mem_insert]
    omega
  unfold laterFrom
  rw [hset, Finset.filter_insert]
  split
  · rw [Finset.sum_insert]
    simp
  · rw [Nat.zero_add]

theorem delScan_snd (n : Nat) : ∀ {i src nbr : Nat},
    nbr + ∑ k ∈ laterFrom fm del l d i n, (fm k).maxSize < 2 ^ 32 →
    (delScan fm del l d n i src nbr).2 = nbr + ∑ k ∈ laterFrom fm del l d i n, (fm k).maxSize := by
  induction n with
  | zero =>
    intro i src nbr _
    simp [delScan, laterFrom]
  | succ n ih =>
    intro i src nbr h
    rw [laterFrom_succ] at h ⊢
    simp only [delScan]
    split
    · next hi =>
      rw [if_neg (show ¬ (i ≠ del ∧ _) from fun hh => hh.1 hi), Nat.zero_add] at h ⊢
      exact ih h
    · next hi =>
      by_cases hlat : isLater l d (fm i)
      · rw [if_pos (show i ≠ del ∧ isLater l d (fm i) from ⟨hi, hlat⟩)] at h ⊢
        rw [if_pos hlat, add32_of_lt (by omega), ih (by omega), Nat.add_assoc]
      · rw [if_neg (show ¬ (i ≠ del ∧ _) from fun hh => hlat hh.2), Nat.zero_add] at h ⊢
        rw [if_neg hlat]
        exact ih h

end Scan

section Shape

variable {c : Cfg} {t : Tab} {fill : Option UInt8} {del : Option Nat} {i : Nat}

/-- The files of the block of file `i` that start behind it. -/
def Tab.later (c : Cfg) (t : Tab) (i : Nat) : Finset Nat :=
  laterFrom t.fm i (t.fm i).lblock (t.fm i).dataIdx 0 c.maxNumFiles

theorem mem_later {k : Nat} : k ∈ t.later c i ↔ k < c.maxNumFiles ∧ k ≠ i ∧
    (t.fm k).lblock = (t.fm i).lblock ∧ (t.fm k).used = true ∧
      (t.fm i).dataIdx < (t.fm k).dataIdx := by
  unfold Tab.later laterFrom
  simp [isLater]

/-- What is scanned for the deletion of file `i`: the start of the later files, and
their size. -/
theorem Layout.scan (h : Layout c t del) (i : Nat) {r : Nat × Nat}
    (hr : delScan t.fm i (t.fm i).lblock (t.fm i).dataIdx c.maxNumFiles 0 c.blockSize 0 = r) :
    r.2 = ∑ k ∈ t.later c i, (t.fm k).maxSize ∧
      r.2 ≤ t.dataEnd c (t.fm i).lblock - r.1 ∧
      (∀ k ∈ t.later c i, r.1 ≤ (t.fm k).dataIdx) ∧
      (r.1 = c.blockSize ∧ t.later c i = ∅ ∨ ∃ k ∈ t.later c i, r.1 = (t.fm k).dataIdx) := by
  have hin : ∀ k ∈ t.later c i, ∀ lo, (∀ k ∈ t.later c i, lo ≤ (t.fm k).dataIdx) →
      lo ≤ (t.fm k).dataIdx ∧
        (t.fm k).dataIdx + (t.fm k).maxSize ≤ t.dataEnd c (t.fm i).lblock := by
    intro k hk lo hlo
    obtain ⟨hk1, _, hk2, hk3, _⟩ := mem_later.1 hk
    have := (h.sane.inRange hk1 hk3).fileEnd
    rw [hk2] at this
    exact ⟨hlo k hk, this⟩
  have hap : ∀ j ∈ t.later c i, ∀ k ∈ t.later c i, j ≠ k →
      Tiles.Apart (t.fm j).dataIdx (t.fm j).maxSize (t.fm k).dataIdx (t.fm k).maxSize := by
    intro j hj k hk hne
    obtain ⟨hj1, _, hj2, hj3, _⟩ := mem_later.1 hj
    obtain ⟨hk1, _, hk2, hk3, _⟩ := mem_later.1 hk
    exact h.apart j k hj1 hk1 hne hj3 hk3 (hj2.trans hk2.symm)
  have hsum := Tiles.sum_le hap fun k hk => hin k hk 0 fun _ _ => Nat.zero_le _
  have hbound : t.dataEnd c (t.fm i).lblock < 2 ^ 16 := by
    have := c.blockSize_lt
    unfold Tab.dataEnd
    omega
  have hsnd : r.2 = ∑ k ∈ t.later c i, (t.fm k).maxSize := by
    have hlt : 0 + ∑ k ∈ laterFrom t.fm i (t.fm i).lblock (t.fm i).dataIdx 0 c.maxNumFiles,
        (t.fm k).maxSize < 2 ^ 32 := by
      unfold Tab.later at hsum
      omega
    rw [← hr, delScan_snd _ hlt, Nat.zero_add]
    rfl
  obtain ⟨h1, h2, h3⟩ := @delScan_fst t.fm i (t.fm i).lblock (t.fm i).dataIdx c.maxNumFiles 0
    c.blockSize 0
  rw [hr] at h1 h2 h3
  have hmin : ∀ k ∈ t.later c i, r.1 ≤ (t.fm k).dataIdx := by
    intro k hk
    obtain ⟨hk1, hk2, hk3⟩ := mem_later.1 hk
    exact h2 k (Nat.zero_le k) (by omega) hk2 hk3
  refine ⟨hsnd, ?_, hmin, ?_⟩
  · rw [hsnd]
    exact Tiles.sum_le hap fun k hk => hin k hk _ hmin
  · rcases h3 with h3 | ⟨k, _, hk, hne, hlat, he⟩
    · by_cases hemp : t.later c i = ∅
      · exact .inl ⟨h3, hemp⟩
      · -- a later file starts within the block
        obtain ⟨k, hk⟩ := Finset.nonempty_iff_ne_empty.2 hemp
        obtain ⟨hk1, _, hk2, hk3, _⟩ := mem_later.1 hk
        have h4 := (h.sane.inRange hk1 hk3).fileEnd
        have h5 := hmin k hk
        rw [h3] at h5
        exact .inr ⟨k, hk, by rw [h3]; omega⟩
    · exact .inr ⟨k, mem_later.2 ⟨by omega, hne, hlat⟩, he⟩

/-- The bytes that a deletion moves lie in the block. -/
theorem Layout.scanFits (h : Layout c t del) (hi : i < c.maxNumFiles)
    (hu : (t.fm i).used = true) : t.ScanFits c i := by
  intro r hr
  obtain ⟨_, h2, _, h4⟩ := h.scan i hr
  have hfi := h.sane.inRange hi hu
  have hend : t.dataEnd c (t.fm i).lblock ≤ c.blockSize := Nat.sub_le _ _
  rcases h4 with ⟨h4, _⟩ | ⟨k, hk, h4⟩
  · exact ⟨fun hpos => by omega, by have := hfi.fileEnd; omega⟩
  · obtain ⟨hk1, _, hk2, hk3, hk4⟩ := mem_later.1 hk
    have := hfi.start
    have := hfi.fileEnd
    exact ⟨fun _ => by omega, by omega⟩

theorem shifted_used (l d n : Nat) (m : FileMeta) : (shifted l d n m).used = m.used := by
  unfold shifted
  split
  · simp only [FileMeta.used]
  · rfl

/-- The entry of a file after the deletion of `del`. -/
def FileMeta.closed (del m : FileMeta) : FileMeta :=
  { m with dataIdx :=
      if m.lblock = del.lblock then Tiles.close del.dataIdx del.maxSize m.dataIdx else m.dataIdx }

theorem Layout.shifted (h : Layout c t del) (hi : i < c.maxNumFiles)
    (hu : (t.fm i).used = true) {k : Nat} (hk : k < c.maxNumFiles) (hne : k ≠ i)
    (huk : (t.fm k).used = true) :
    Its.shifted (t.fm i).lblock (t.fm i).dataIdx (t.fm i).maxSize (t.fm k) =
      (t.fm i).closed (t.fm k) ∧
    ((t.fm k).lblock = (t.fm i).lblock →
      Tiles.Apart (t.fm k).dataIdx (t.fm k).maxSize (t.fm i).dataIdx (t.fm i).maxSize) := by
  have hap : (t.fm k).lblock = (t.fm i).lblock →
      Tiles.Apart (t.fm k).dataIdx (t.fm k).maxSize (t.fm i).dataIdx (t.fm i).maxSize :=
    fun hl => h.apart k i hk hi hne huk hu hl
  refine ⟨?_, hap⟩
  unfold Its.shifted FileMeta.closed
  by_cases hl : (t.fm k).lblock = (t.fm i).lblock
  · rw [if_pos hl]
    unfold Tiles.close
    by_cases hc : (t.fm i).dataIdx < (t.fm k).dataIdx
    · have hdk : (t.fm k).dataIdx < 2 ^ 32 := (h.sane.file_fits hk).dataIdx
      have := hap hl
      unfold Tiles.Apart at this
      rw [if_pos hc, if_pos ⟨hl, huk, hc⟩, sub32_of_le (by omega) hdk]
    · rw [if_neg hc, if_neg fun hh => hc hh.2.2]
  · rw [if_neg hl, if_neg fun hh => hl hh.1]

end Shape

/-! ## A deletion keeps the layout -/

section Delete

variable {c : Cfg} {t : Tab} {fill : Option UInt8} {del : Option Nat} {i : Nat}

/-- The file table after a deletion. -/
theorem Tab.deleteIdx_fm (j : Nat) : (t.deleteIdx c fill i).fm j =
    if j = i then .zero
    else shifted (t.fm i).lblock (t.fm i).dataIdx (t.fm i).maxSize (t.fm j) := rfl

theorem Tab.deleteIdx_dataStart (l : Nat) :
    ((t.deleteIdx c fill i).bm l).dataStart = (t.bm l).dataStart := by
  unfold Tab.deleteIdx
  apply t.update_dataStart
  rfl

theorem Tab.deleteIdx_used {j : Nat} (h : ((t.deleteIdx c fill i).fm j).used = true) :
    j ≠ i ∧ (t.fm j).used = true := by
  rw [Tab.deleteIdx_fm] at h
  split at h
  · cases h
  · next hne => exact ⟨hne, by rwa [shifted_used] at h⟩

theorem Layout.dataEnd_deleteIdx (h : Layout c t del) (hi : i < c.maxNumFiles)
    (hu : (t.fm i).used = true) (l : Nat) :
    (t.deleteIdx c fill i).dataEnd c l =
      if l = (t.fm i).lblock then t.dataEnd c l - (t.fm i).maxSize else t.dataEnd c l := by
  have hfi := h.sane.inRange hi hu
  have hfree : (t.bm (t.fm i).lblock).freeSize + (t.fm i).maxSize ≤ c.blockSize := by
    have := hfi.fileEnd
    have := h.sane.free _ hfi.lblock
    omega
  have hadd : add32 (t.bm (t.fm i).lblock).freeSize (t.fm i).maxSize =
      (t.bm (t.fm i).lblock).freeSize + (t.fm i).maxSize := by
    have := c.blockSize_lt
    exact add32_of_lt (by omega)
  unfold Tab.dataEnd Tab.deleteIdx
  rw [t.update_freeSize]
  split
  · next hl =>
    subst hl
    dsimp only
    omega
  · rfl

/-- A file that stays, after a deletion. -/
theorem Layout.deleteIdx_file (h : Layout c t del) (hi : i < c.maxNumFiles)
    (hu : (t.fm i).used = true) {k : Nat} (hk : k < c.maxNumFiles)
    (hku : ((t.deleteIdx c fill i).fm k).used = true) :
    k ≠ i ∧ (t.fm k).used = true ∧ (t.deleteIdx c fill i).fm k = (t.fm i).closed (t.fm k) ∧
    ((t.fm k).lblock = (t.fm i).lblock →
      Tiles.Apart (t.fm k).dataIdx (t.fm k).maxSize (t.fm i).dataIdx (t.fm i).maxSize) := by
  obtain ⟨hne, hu'⟩ := Tab.deleteIdx_used hku
  obtain ⟨h1, h2⟩ := h.shifted hi hu hk hne hu'
  refine ⟨hne, hu', ?_, h2⟩
  rw [Tab.deleteIdx_fm, if_neg hne]
  exact h1

theorem Layout.sane_deleteIdx (h : Layout c t del) (hi : i < c.maxNumFiles)
    (hu : (t.fm i).used = true) : Sane c (t.deleteIdx c fill i) := by
  have hfi := h.sane.inRange hi hu
  have hend := @Layout.dataEnd_deleteIdx c t fill del i h hi hu
  have hfree := h.sane.free _ hfi.lblock
  have hadd : add32 (t.bm (t.fm i).lblock).freeSize (t.fm i).maxSize =
      (t.bm (t.fm i).lblock).freeSize + (t.fm i).maxSize := by
    have := c.blockSize_lt
    have := hfi.fileEnd
    exact add32_of_lt (by omega)
  refine h.sane.update hfi.lblock rfl ?_ (fun k hk hku => ?_) fun k hk hku => ?_
  · have := hfi.start
    have := hfi.fileEnd
    dsimp only
    omega
  · obtain ⟨hne, huk, hfm, hap⟩ := h.deleteIdx_file hi hu hk hku
    have hfk := h.sane.inRange hk huk
    have hstart := @Tab.deleteIdx_dataStart c t fill i (t.fm k).lblock
    have hk' := hend (t.fm k).lblock
    change ((t.deleteIdx c fill i).fm k).InRange c (t.deleteIdx c fill i).bm
    rw [hfm]
    unfold Tab.dataEnd at hk'
    refine ⟨hfk.lblock, ?_, ?_, hfk.cur, hfk.size, hfk.flags, hfk.id⟩
    · simp only [FileMeta.closed]
      rw [hstart]
      have h1 := hfk.start
      split
      · next hl =>
        have h2 := hfi.start
        rw [hl] at h1 ⊢
        exact Tiles.le_close (hap hl) h1 h2
      · exact h1
    · simp only [FileMeta.closed]
      rw [hk']
      have h1 := hfk.fileEnd
      by_cases hl : (t.fm k).lblock = (t.fm i).lblock
      · rw [if_pos hl, if_pos hl]
        have h2 := hfi.fileEnd
        rw [hl] at h1 ⊢
        exact Tiles.close_end (hap hl) h1 h2
      · rw [if_neg hl, if_neg hl]
        exact h1
  · by_cases hki : k = i
    · exact if_pos hki
    · simp only [if_neg hki, shifted_used] at hku
      simp only [if_neg hki]
      unfold Its.shifted
      rw [if_neg fun hh => by rw [hku] at hh; cases hh.2.1]
      exact h.sane.unused k hk hku

/-- **A deletion keeps the layout.** -/
theorem Layout.deleteIdx (h : Layout c t del) (hi : i < c.maxNumFiles)
    (hu : (t.fm i).used = true) (hdel : del = none ∨ del = some i) :
    Layout c (t.deleteIdx c fill i) none := by
  have hfi := h.sane.inRange hi hu
  have hnot : ∀ {k}, k ≠ i → del ≠ some k := by
    intro k hne he
    rcases hdel with hd | hd
    · rw [hd] at he
      cases he
    · rw [hd] at he
      exact hne (Option.some.inj he).symm
  refine ⟨h.sane_deleteIdx hi hu, ?_, ?_, ?_, ?_, (fun _ hn => nomatch hn), fun _ _ => ⟨i, hi, ?_⟩⟩
  · intro j k hj hk hne hju hku hl
    obtain ⟨_, hju', hfj, haj⟩ := h.deleteIdx_file hi hu hj hju
    obtain ⟨_, hku', hfk, hak⟩ := h.deleteIdx_file hi hu hk hku
    rw [hfj, hfk] at hl ⊢
    simp only [FileMeta.closed] at hl ⊢
    have hap := h.apart j k hj hk hne hju' hku' hl
    by_cases hjl : (t.fm j).lblock = (t.fm i).lblock
    · rw [if_pos hjl, if_pos (hl ▸ hjl)]
      exact (haj hjl).close (hak (hl ▸ hjl)) hap
    · rw [if_neg hjl, if_neg (hl ▸ hjl)]
      exact hap
  · intro l o hl hlo hhi
    rw [t.deleteIdx_dataStart] at hlo
    rw [h.dataEnd_deleteIdx hi hu] at hhi
    -- a file that covered `o`, or what moved there
    have hcov : ∀ k, k < c.maxNumFiles → k ≠ i → (t.fm k).used = true →
        ((t.deleteIdx c fill i).fm k).used = true := by
      intro k _ hne huk
      rw [Tab.deleteIdx_fm, if_neg hne, shifted_used]
      exact huk
    by_cases hll : l = (t.fm i).lblock
    · rw [if_pos hll] at hhi
      have hie := hfi.fileEnd
      have hget : ∃ k, k < c.maxNumFiles ∧ (t.fm k).used = true ∧ (t.fm k).lblock = l ∧ k ≠ i ∧
          if o < (t.fm i).dataIdx then (t.fm k).dataIdx ≤ o ∧ o < (t.fm k).dataIdx + (t.fm k).maxSize
          else (t.fm k).dataIdx ≤ o + (t.fm i).maxSize ∧
            o + (t.fm i).maxSize < (t.fm k).dataIdx + (t.fm k).maxSize := by
        by_cases ho : o < (t.fm i).dataIdx
        · obtain ⟨k, hk, huk, hkl, h1, h2⟩ := h.cover l o hl hlo (by omega)
          refine ⟨k, hk, huk, hkl, ?_, by rw [if_pos ho]; exact ⟨h1, h2⟩⟩
          intro he
          subst he
          omega
        · obtain ⟨k, hk, huk, hkl, h1, h2⟩ := h.cover l (o + (t.fm i).maxSize) hl (by omega) (by omega)
          refine ⟨k, hk, huk, hkl, ?_, by rw [if_neg ho]; exact ⟨h1, h2⟩⟩
          intro he
          subst he
          omega
      obtain ⟨k, hk, huk, hkl, hne, ho⟩ := hget
      obtain ⟨_, _, hfk, _⟩ := h.deleteIdx_file hi hu hk (hcov k hk hne huk)
      have hkl' := hkl.trans hll
      refine ⟨k, hk, hcov k hk hne huk, ?_, ?_⟩
      · rw [hfk]
        exact hkl
      · rw [hfk]
        simp only [FileMeta.closed, if_pos hkl']
        exact Tiles.close_covers ho
    · rw [if_neg hll] at hhi
      obtain ⟨k, hk, huk, hkl, h1, h2⟩ := h.cover l o hl hlo hhi
      have hne : k ≠ i := fun he => hll (hkl.symm.trans (he ▸ rfl))
      obtain ⟨_, _, hfk, _⟩ := h.deleteIdx_file hi hu hk (hcov k hk hne huk)
      refine ⟨k, hk, hcov k hk hne huk, ?_, ?_⟩
      · rw [hfk]
        exact hkl
      · rw [hfk]
        simp only [FileMeta.closed, if_neg (hkl ▸ hll)]
        exact ⟨h1, h2⟩
  · intro j k hj hk hju hid
    obtain ⟨hji, hju', hfj, _⟩ := h.deleteIdx_file hi hu hj hju
    have hku : ((t.deleteIdx c fill i).fm k).used = true := by
      simp only [FileMeta.used, ← hid]
      exact hju
    obtain ⟨hki, hku', hfk, _⟩ := h.deleteIdx_file hi hu hk hku
    rw [hfj, hfk] at hid
    rcases h.distinct j k hj hk hju' hid with he | he | he
    · exact .inl he
    · exact absurd he (hnot hji)
    · exact absurd he (hnot hki)
  · intro k hk hku
    obtain ⟨hne, huk, hfk, _⟩ := h.deleteIdx_file hi hu hk hku
    rw [hfk]
    have hf := h.flag k hk huk
    exact ⟨fun hx => absurd (hf.1 hx) (hnot hne), fun hx => nomatch hx⟩
  · rw [Tab.deleteIdx_fm, if_pos rfl]
    rfl

end Delete

/-! ## A write keeps the layout -/

section Write

variable {c : Cfg} {t t1 : Tab} {fill : Option UInt8} {fid flags maxSize dataSize offset : Nat}
  {data : Nat → UInt8} {del : Option Nat}

theorem findIdx_none {fm : Nat → FileMeta} {p : FileMeta → Bool} (n : Nat) : ∀ {i : Nat},
    findIdx fm p n i = none → ∀ k, i ≤ k → k < i + n → p (fm k) = false := by
  induction n with
  | zero => exact fun _ k h1 h2 => by omega
  | succ n ih =>
    intro i h k h1 h2
    unfold findIdx at h
    split at h
    · cases h
    · next hp =>
      by_cases hk : k = i
      · rw [hk]
        simpa using hp
      · exact ih h k (by omega) (by omega)

theorem Tab.find_none (h : t.find c fid = none) {i : Nat} (hi : i < c.maxNumFiles) :
    (t.fm i).id ≠ fid := by
  simpa using findIdx_none _ h i (Nat.zero_le i) (by omega)

/-- Flags without internal flags do not mark a file. -/
theorem not_marked (h : ¬ flags &&& internalFlagsMask ≠ 0) : flags &&& flagDelete = 0 := by
  have h0 : flags &&& internalFlagsMask = 0 := by simpa using h
  have hsub : internalFlagsMask &&& flagDelete = flagDelete := by decide
  rw [← hsub, ← Nat.and_assoc, h0, Nat.zero_and]

theorem marked_flag (m : FileMeta) : m.marked.flags &&& flagDelete ≠ 0 := by
  have hor : (m.flags ||| flagDelete) &&& flagDelete = flagDelete := by
    apply Nat.eq_of_testBit_eq
    intro k
    simp only [Nat.testBit_and, Nat.testBit_or]
    cases m.flags.testBit k <;> cases flagDelete.testBit k <;> rfl
  unfold FileMeta.marked
  rw [hor]
  decide

/-- What the parts of a first update return. -/
theorem Tab.firstUpdate_eq
    (h : t.firstUpdate c fill fid flags maxSize dataSize offset data = .ok (t1, del)) :
    ¬ flags &&& internalFlagsMask ≠ 0 ∧ ∃ old reuse new m b m' dl,
      t.lookup c fid flags (c.aligned maxSize) = .ok (old, reuse) ∧
      t.reserve c fid flags (c.aligned maxSize) old reuse = .ok (new, m, b) ∧
      t.writeData c fill m b dataSize offset data = .ok (m', dl) ∧
      t1 = t.update c fill m'.lblock b (t.table old new m') dl ∧ del = old.filter (· ≠ new) := by
  unfold Tab.firstUpdate at h
  split at h
  · cases h
  · next hfl =>
    refine ⟨hfl, ?_⟩
    cases hl : t.lookup c fid flags (c.aligned maxSize) with
    | error e =>
      rw [hl] at h
      cases h
    | ok p =>
      obtain ⟨old, reuse⟩ := p
      rw [hl] at h
      cases hr : t.reserve c fid flags (c.aligned maxSize) old reuse with
      | error e =>
        simp only [bind, Except.bind, hr] at h
        cases h
      | ok q =>
        obtain ⟨new, m, b⟩ := q
        simp only [bind, Except.bind, hr] at h
        cases hd : t.writeData c fill m b dataSize offset data with
        | error e =>
          simp only [hd] at h
          cases h
        | ok u =>
          obtain ⟨m', dl⟩ := u
          simp only [hd] at h
          cases h
          exact ⟨old, reuse, new, m, b, m', dl, rfl, hr, hd, rfl, rfl⟩

/-- Data that fits a file keeps it in its place. -/
theorem Tab.writeData_file {m m' : FileMeta} {b : BlockMeta} {dl : Option (Nat → Option UInt8)}
    (hbuf : Buffer c.toConfig dataSize) (hm : m.curSize ≤ m.maxSize)
    (h : t.writeData c fill m b dataSize offset data = .ok (m', dl)) :
    m' = { m with curSize := m'.curSize } ∧ m.curSize ≤ m'.curSize ∧ m'.curSize ≤ m.maxSize := by
  unfold Tab.writeData at h
  split at h
  · cases h
    exact ⟨rfl, Nat.le_refl _, hm⟩
  · split at h
    · next hf =>
      cases h
      simp only [dataFits, checkContainedIn, Bool.and_eq_true, decide_eq_true_eq] at hf
      have hle := Config.le_aligned hbuf
      exact ⟨rfl, Nat.le_max_left _ _, Nat.max_le.2 ⟨hm, by omega⟩⟩
    · cases h

theorem Tab.table_self {old : Option Nat} {new : Nat} {m : FileMeta} :
    t.table old new m new = m := if_pos rfl

theorem Tab.table_ne {old : Option Nat} {new j : Nat} {m : FileMeta} (h : j ≠ new) :
    t.table old new m j = if old = some j then (t.fm j).marked else t.fm j := if_neg h

/-- An update of an entry in its place. -/
theorem Layout.update_old (h : Layout c t none) {o : Nat} (ho : o < c.maxNumFiles)
    (hu : (t.fm o).used = true) {m : FileMeta} {dl : Option (Nat → Option UInt8)}
    (hm : m = { t.fm o with curSize := m.curSize, flags := m.flags })
    (hcur : m.curSize ≤ (t.fm o).maxSize) (hflags : m.flags < 2 ^ 32)
    (hnot : m.flags &&& flagDelete = 0) :
    Layout c (t.update c fill m.lblock (t.bm m.lblock) (t.table (some o) o m) dl) none := by
  have hmu : m.used = true := by
    rw [hm]
    exact hu
  have hfo := h.sane.inRange ho hu
  have htab : ∀ j, t.table (some o) o m j = { t.fm j with
      curSize := (t.table (some o) o m j).curSize, flags := (t.table (some o) o m j).flags } := by
    intro j
    by_cases hj : j = o
    · subst hj
      rw [Tab.table_self]
      exact hm
    · rw [Tab.table_ne hj, if_neg fun he => hj (Option.some.inj he).symm]
  have hlb : m.lblock = (t.fm o).lblock := by rw [hm]
  have hused : ∀ j, (t.table (some o) o m j).used = (t.fm j).used := by
    intro j
    rw [htab j]
    rfl
  have hfree : ∀ k, ((t.update c fill m.lblock (t.bm m.lblock) (t.table (some o) o m) dl).bm k).freeSize =
      (t.bm k).freeSize := by
    intro k
    rw [t.update_freeSize]
    split
    · next hk => rw [hk]
    · rfl
  have hstart := @Tab.update_dataStart c t fill m.lblock (t.bm m.lblock) (t.table (some o) o m) dl rfl
  have hend : ∀ k, (t.update c fill m.lblock (t.bm m.lblock) (t.table (some o) o m) dl).dataEnd c k =
      t.dataEnd c k := by
    intro k
    unfold Tab.dataEnd
    rw [hfree]
  have hsane : Sane c (t.update c fill m.lblock (t.bm m.lblock) (t.table (some o) o m) dl) := by
    refine h.sane.update (hlb ▸ hfo.lblock) rfl (h.sane.free _ (hlb ▸ hfo.lblock)) ?_ ?_
    · intro j hj hju
      rw [hused] at hju
      have hfj := h.sane.inRange hj hju
      have hcf : (t.table (some o) o m j).curSize ≤ (t.fm j).maxSize ∧
          (t.table (some o) o m j).flags < 2 ^ 32 := by
        by_cases hjo : j = o
        · subst hjo
          rw [Tab.table_self]
          exact ⟨hcur, hflags⟩
        · rw [Tab.table_ne hjo, if_neg fun he => hjo (Option.some.inj he).symm]
          exact ⟨hfj.cur, hfj.flags⟩
      refine ⟨?_, ?_, ?_, ?_, ?_, hcf.2, ?_⟩
      · rw [htab j]
        exact hfj.lblock
      · rw [hstart, htab j]
        exact hfj.start
      · rw [hfree, htab j]
        exact hfj.fileEnd
      · rw [htab j]
        exact hcf.1
      · rw [htab j]
        exact hfj.size
      · rw [htab j]
        exact hfj.id
    · intro j hj hju
      have hjo : j ≠ o := by
        intro he
        subst he
        rw [Tab.table_self, hmu] at hju
        cases hju
      rw [hused] at hju
      rw [Tab.table_ne hjo, if_neg fun he => hjo (Option.some.inj he).symm]
      exact h.sane.unused j hj hju
  refine ⟨hsane, ?_, ?_, ?_, ?_, (fun _ hn => nomatch hn), fun _ hpos => ?_⟩
  · intro i j hi hj hne hiu hju hl
    change (t.table (some o) o m i).used = true at hiu
    change (t.table (some o) o m j).used = true at hju
    rw [hused] at hiu hju
    change (t.table (some o) o m i).lblock = (t.table (some o) o m j).lblock at hl
    change Tiles.Apart (t.table (some o) o m i).dataIdx (t.table (some o) o m i).maxSize
      (t.table (some o) o m j).dataIdx (t.table (some o) o m j).maxSize
    rw [htab i, htab j] at hl ⊢
    exact h.apart i j hi hj hne hiu hju hl
  · intro l p hl hlo hhi
    rw [hstart] at hlo
    rw [hend] at hhi
    obtain ⟨i, hi, hiu, hil, h1, h2⟩ := h.cover l p hl hlo hhi
    refine ⟨i, hi, ?_⟩
    change (t.table (some o) o m i).used = true ∧ (t.table (some o) o m i).lblock = l ∧
      (t.table (some o) o m i).dataIdx ≤ p ∧
      p < (t.table (some o) o m i).dataIdx + (t.table (some o) o m i).maxSize
    rw [htab i]
    exact ⟨hiu, hil, h1, h2⟩
  · intro i j hi hj hiu hid
    change (t.table (some o) o m i).used = true at hiu
    change (t.table (some o) o m i).id = (t.table (some o) o m j).id at hid
    rw [hused] at hiu
    rw [htab i, htab j] at hid
    exact h.distinct i j hi hj hiu hid
  · intro i hi hiu
    change (t.table (some o) o m i).used = true at hiu
    change (t.table (some o) o m i).flags &&& flagDelete ≠ 0 ↔ _
    rw [hused] at hiu
    by_cases hio : i = o
    · subst hio
      rw [Tab.table_self, hnot]
      exact ⟨fun hh => absurd rfl hh, fun hh => nomatch hh⟩
    · rw [Tab.table_ne hio, if_neg fun he => hio (Option.some.inj he).symm]
      exact h.flag i hi hiu
  · obtain ⟨i, hi, hiu⟩ := h.spare rfl hpos
    exact ⟨i, hi, (hused i).trans hiu⟩

/-- A new file behind the data of a block. -/
structure NewFile (c : Cfg) (t : Tab) (new : Nat) (m : FileMeta) : Prop where
  idx : new < c.maxNumFiles
  unused : (t.fm new).used = false
  lblock : m.lblock < c.numActiveDblocks
  place : m.dataIdx = t.dataEnd c m.lblock
  room : m.maxSize ≤ (t.bm m.lblock).freeSize
  size : m.maxSize ≤ c.maxFileSize
  cur : m.curSize ≤ m.maxSize
  flags : m.flags < 2 ^ 32
  plain : m.flags &&& flagDelete = 0
  used : m.used = true
  id : m.id < 2 ^ 96

/-- The block metadata with a file of `n` bytes more. -/
def BlockMeta.grown (b : BlockMeta) (n : Nat) : BlockMeta := { b with freeSize := b.freeSize - n }

/-- The update that adds a file; an old file with its id is marked. -/
theorem Layout.update_new (h : Layout c t none) {old : Option Nat} {new : Nat} {m : FileMeta}
    {dl : Option (Nat → Option UInt8)} (hm : NewFile c t new m)
    (hold : ∀ o, old = some o → o < c.maxNumFiles ∧ (t.fm o).used = true ∧ (t.fm o).id = m.id)
    (hnone : old = none → (∀ i, i < c.maxNumFiles → (t.fm i).id ≠ m.id) ∧
      ∃ k, k < c.maxNumFiles ∧ k ≠ new ∧ (t.fm k).used = false) :
    Layout c (t.update c fill m.lblock ((t.bm m.lblock).grown m.maxSize) (t.table old new m) dl)
      old := by
  have hfreeL := h.sane.free _ hm.lblock
  have hroom := hm.room
  have hplace := hm.place
  have hstart := @Tab.update_dataStart c t fill m.lblock ((t.bm m.lblock).grown m.maxSize)
    (t.table old new m) dl rfl
  have hfree : ∀ k, ((t.update c fill m.lblock ((t.bm m.lblock).grown m.maxSize) (t.table old new m)
      dl).bm k).freeSize = if k = m.lblock then (t.bm k).freeSize - m.maxSize else (t.bm k).freeSize := by
    intro k
    rw [t.update_freeSize]
    split
    · next hk =>
      rw [hk]
      rfl
    · rfl
  have hend : ∀ k, (t.update c fill m.lblock ((t.bm m.lblock).grown m.maxSize) (t.table old new m)
      dl).dataEnd c k = if k = m.lblock then t.dataEnd c k + m.maxSize else t.dataEnd c k := by
    intro k
    unfold Tab.dataEnd
    rw [hfree]
    split
    · next hk =>
      subst hk
      omega
    · rfl
  -- another entry keeps all but its flags
  have htab : ∀ j, j ≠ new → t.table old new m j =
      { t.fm j with flags := (t.table old new m j).flags } := by
    intro j hj
    rw [Tab.table_ne hj]
    split <;> rfl
  have hused : ∀ j, j ≠ new → (t.table old new m j).used = (t.fm j).used := by
    intro j hj
    rw [htab j hj]
    rfl
  have hflags : ∀ j, j ≠ new → (t.fm j).flags < 2 ^ 32 → (t.table old new m j).flags < 2 ^ 32 := by
    intro j hj hlt
    rw [Tab.table_ne hj]
    split
    · exact Nat.or_lt_two_pow hlt (by decide)
    · exact hlt
  have hne_old : ∀ o, old = some o → o ≠ new := by
    intro o ho he
    have := (hold o ho).2.1
    rw [he, hm.unused] at this
    cases this
  have hself : t.table old new m new = m := Tab.table_self
  have hsane : Sane c (t.update c fill m.lblock ((t.bm m.lblock).grown m.maxSize)
      (t.table old new m) dl) := by
    refine h.sane.update hm.lblock rfl ?_ ?_ ?_
    · simp only [BlockMeta.grown]
      omega
    · intro j hj hju
      by_cases hjn : j = new
      · rw [hjn, hself]
        refine ⟨hm.lblock, ?_, ?_, hm.cur, hm.size, hm.flags, hm.id⟩
        · rw [hstart, hplace]
          unfold Tab.dataEnd
          omega
        · rw [hfree, if_pos rfl, hplace]
          unfold Tab.dataEnd
          omega
      · rw [hused j hjn] at hju
        have hfj := h.sane.inRange hj hju
        have hf := hflags j hjn hfj.flags
        refine ⟨?_, ?_, ?_, ?_, ?_, hf, ?_⟩
        · rw [htab j hjn]
          exact hfj.lblock
        · rw [hstart, htab j hjn]
          exact hfj.start
        · rw [hfree, htab j hjn]
          have := hfj.fileEnd
          dsimp only
          split <;> omega
        · rw [htab j hjn]
          exact hfj.cur
        · rw [htab j hjn]
          exact hfj.size
        · rw [htab j hjn]
          exact hfj.id
    · intro j hj hju
      have hjn : j ≠ new := by
        intro he
        rw [he, hself, hm.used] at hju
        cases hju
      have hju' := hju
      rw [hused j hjn] at hju'
      have hjo : old ≠ some j := by
        intro he
        rw [(hold j he).2.1] at hju'
        cases hju'
      rw [Tab.table_ne hjn, if_neg hjo]
      exact h.sane.unused j hj hju'
  refine ⟨hsane, ?_, ?_, ?_, ?_, ?_, ?_⟩
  · -- files behind the data, and before
    have hbefore : ∀ j, j < c.maxNumFiles → j ≠ new → (t.table old new m j).used = true →
        (t.table old new m j).lblock = m.lblock →
        (t.table old new m j).dataIdx + (t.table old new m j).maxSize ≤ m.dataIdx := by
      intro j hj hjn hju hjl
      rw [hused j hjn] at hju
      rw [htab j hjn] at hjl ⊢
      have hfj := (h.sane.inRange hj hju).fileEnd
      dsimp only at hjl ⊢
      rw [hplace, ← hjl]
      exact hfj
    intro i j hi hj hne hiu hju hl
    change (t.table old new m i).used = true at hiu
    change (t.table old new m j).used = true at hju
    change (t.table old new m i).lblock = (t.table old new m j).lblock at hl
    change Tiles.Apart (t.table old new m i).dataIdx (t.table old new m i).maxSize
      (t.table old new m j).dataIdx (t.table old new m j).maxSize
    by_cases hin : i = new
    · have hjn : j ≠ new := fun he => hne (hin.trans he.symm)
      rw [hin, hself] at hl ⊢
      exact .inr (hbefore j hj hjn hju hl.symm)
    · by_cases hjn : j = new
      · rw [hjn, hself] at hl ⊢
        exact .inl (hbefore i hi hin hiu hl)
      · rw [hused i hin] at hiu
        rw [hused j hjn] at hju
        rw [htab i hin, htab j hjn] at hl ⊢
        exact h.apart i j hi hj hne hiu hju hl
  · intro l p hl hlo hhi
    rw [hstart] at hlo
    rw [hend] at hhi
    by_cases hp : p < t.dataEnd c l
    · obtain ⟨i, hi, hiu, hil, h1, h2⟩ := h.cover l p hl hlo hp
      have hin : i ≠ new := by
        intro he
        rw [he, hm.unused] at hiu
        cases hiu
      refine ⟨i, hi, ?_⟩
      change (t.table old new m i).used = true ∧ (t.table old new m i).lblock = l ∧
        (t.table old new m i).dataIdx ≤ p ∧
        p < (t.table old new m i).dataIdx + (t.table old new m i).maxSize
      rw [htab i hin]
      exact ⟨hiu, hil, h1, h2⟩
    · split at hhi
      · next hll =>
        refine ⟨new, hm.idx, ?_⟩
        change (t.table old new m new).used = true ∧ (t.table old new m new).lblock = l ∧
          (t.table old new m new).dataIdx ≤ p ∧
          p < (t.table old new m new).dataIdx + (t.table old new m new).maxSize
        rw [hself, hplace, ← hll]
        exact ⟨hm.used, rfl, by omega, hhi⟩
      · exact absurd hhi hp
  · -- the new file has the id of the old one, or a new id
    have hnew : ∀ j, j < c.maxNumFiles → j ≠ new → (t.table old new m j).used = true →
        (t.table old new m j).id = m.id → old = some j := by
      intro j hj hjn hju hid
      rw [hused j hjn] at hju
      rw [htab j hjn] at hid
      cases ho : old with
      | none => exact absurd hid ((hnone ho).1 j hj)
      | some o =>
        obtain ⟨ho1, ho2, ho3⟩ := hold o ho
        rcases h.distinct o j ho1 hj ho2 (ho3.trans hid.symm) with he | he | he
        · rw [he]
        · cases he
        · cases he
    intro i j hi hj hiu hid
    change (t.table old new m i).used = true at hiu
    change (t.table old new m i).id = (t.table old new m j).id at hid
    by_cases hin : i = new
    · by_cases hjn : j = new
      · exact .inl (hin.trans hjn.symm)
      · rw [hin, hself] at hid
        have hju : (t.table old new m j).used = true := by
          have hmu := hm.used
          simp only [FileMeta.used] at hmu ⊢
          rw [← hid]
          exact hmu
        exact .inr (.inr (hnew j hj hjn hju hid.symm))
    · by_cases hjn : j = new
      · rw [hjn, hself] at hid
        exact .inr (.inl (hnew i hi hin hiu hid))
      · rw [hused i hin] at hiu
        rw [htab i hin, htab j hjn] at hid
        rcases h.distinct i j hi hj hiu hid with he | he | he
        · exact .inl he
        · cases he
        · cases he
  · intro i hi hiu
    change (t.table old new m i).used = true at hiu
    change (t.table old new m i).flags &&& flagDelete ≠ 0 ↔ _
    by_cases hin : i = new
    · subst hin
      rw [hself, hm.plain]
      exact ⟨fun hh => absurd rfl hh, fun hh => absurd rfl (hne_old i hh)⟩
    · rw [hused i hin] at hiu
      rw [Tab.table_ne hin]
      split
      · next ho => exact ⟨fun _ => ho, fun _ => marked_flag _⟩
      · next ho =>
        refine ⟨fun hh => ?_, fun hh => absurd hh ho⟩
        have hnone := (h.flag i hi hiu).1 hh
        cases hnone
  · intro o ho
    obtain ⟨ho1, ho2, _⟩ := hold o ho
    exact ⟨ho1, (hused o (hne_old o ho)).trans ho2⟩
  · intro ho hpos
    obtain ⟨k, hk, hkn, hku⟩ := (hnone ho).2
    exact ⟨k, hk, (hused k hkn).trans hku⟩

/-- The arguments of a write: a valid file id and numbers of their types. -/
structure Args (c : Config) (fid flags dataSize : Nat) : Prop where
  valid : fid ≠ 0
  id : fid < 2 ^ 96
  flag : flags < 2 ^ 32
  buffer : Buffer c dataSize

/-- **A write keeps the layout**, up to the deletion of an old file. -/
theorem Layout.firstUpdate (h : Layout c t none) (ha : Args c.toConfig fid flags dataSize)
    (hu : t.firstUpdate c fill fid flags maxSize dataSize offset data = .ok (t1, del)) :
    Layout c t1 del := by
  obtain ⟨hfl, old, reuse, new, m, b, m', dl, hl, hr, hd, rfl, rfl⟩ := Tab.firstUpdate_eq hu
  obtain ⟨hnew, hfit⟩ := h.sane.fit_reserve ha.valid hl hr
  obtain ⟨hm', hge, hle⟩ := Tab.writeData_file ha.buffer hfit.cur hd
  cases reuse with
  | some im =>
    -- the entry of the old file
    obtain ⟨i, mi⟩ := im
    cases hr
    unfold Tab.lookup at hl
    split at hl
    · next o ho =>
      obtain ⟨h1, h2⟩ := Tab.find_some ho
      have hou := FileMeta.used_of_id (h2 ▸ ha.valid)
      have hofile := h.sane.inRange h1 hou
      have hcase : old = some o ∧ new = o ∧ m = { t.fm o with curSize := m.curSize, flags := m.flags } ∧
          m.flags < 2 ^ 32 ∧ m.flags &&& flagDelete = 0 := by
        split at hl
        · split at hl
          · cases hl
            exact ⟨rfl, rfl, rfl, ha.flag, not_marked hfl⟩
          · cases hl
        · cases hl
          refine ⟨rfl, rfl, rfl, hofile.flags, ?_⟩
          by_contra hne
          exact nomatch (h.flag _ h1 hou).1 hne
      obtain ⟨rfl, rfl, hmo, hmf, hmd⟩ := hcase
      have hmm : m' = { t.fm new with curSize := m'.curSize, flags := m'.flags } := by
        rw [hm', hmo]
      have hmfl : m'.flags = m.flags := by rw [hm']
      have hlb : m'.lblock = m.lblock := by rw [hm']
      have hms : m.maxSize = (t.fm new).maxSize := by rw [hmo]
      rw [← hlb]
      have hf : (some new).filter (· ≠ new) = none := by simp
      rw [hf]
      exact h.update_old h1 hou hmm (hms ▸ hle) (hmfl ▸ hmf) (hmfl ▸ hmd)
    · split at hl <;> cases hl
  | none =>
    have hrn := hr
    unfold Tab.reserve at hr
    dsimp only at hr
    split at hr
    · cases hr
    · next hsize =>
      split at hr
      · next l i hb hi =>
        cases hr
        obtain ⟨_, hbl, hbf⟩ := freeBlock_some _ hb
        obtain ⟨_, hil, hiu, hispare⟩ := freeIdx_some _ hi
        have hlb : m'.lblock = l := by rw [hm']
        have hms : m'.maxSize = c.aligned maxSize := by rw [hm']
        have hfields : m'.dataIdx = c.blockSize - (t.bm l).freeSize ∧ m'.flags = flags ∧ m'.id = fid := by
          rw [hm']
          exact ⟨rfl, rfl, rfl⟩
        obtain ⟨hidx, hflg, hid⟩ := hfields
        have hnf : NewFile c t new m' := by
          refine ⟨hnew, hiu, by omega, ?_, ?_, ?_, ?_, ?_, ?_, ?_, ?_⟩
          · rw [hidx, hlb]
            rfl
          · rw [hms, hlb]
            exact hbf
          · rw [hms]
            omega
          · rw [hms]
            exact hle
          · rw [hflg]
            exact ha.flag
          · rw [hflg]
            exact not_marked hfl
          · exact FileMeta.used_of_id (hid ▸ ha.valid)
          · rw [hid]
            exact ha.id
        have hold : ∀ o, old = some o → o < c.maxNumFiles ∧ (t.fm o).used = true ∧
            (t.fm o).id = m'.id := by
          intro o ho
          subst ho
          obtain ⟨h1, h2⟩ := Tab.find_some (Tab.lookup_some hl).1
          exact ⟨h1, FileMeta.used_of_id (h2 ▸ ha.valid), h2.trans hid.symm⟩
        have hnone : old = none → (∀ i, i < c.maxNumFiles → (t.fm i).id ≠ m'.id) ∧
            ∃ k, k < c.maxNumFiles ∧ k ≠ new ∧ (t.fm k).used = false := by
          intro ho
          subst ho
          refine ⟨fun i hi => ?_, ?_⟩
          · rw [hid]
            unfold Tab.lookup at hl
            split at hl
            · split at hl
              · split at hl <;> cases hl
              · cases hl
            · next hf => exact Tab.find_none hf hi
          · obtain ⟨k, _, hk, hku⟩ := hispare rfl
            exact ⟨k, by omega, by omega, hku⟩
        have hfilter : old.filter (· ≠ new) = old := by
          cases ho : old with
          | none => rfl
          | some o =>
            have : o ≠ new := by
              intro he
              have := (hold o ho).2.1
              rw [he, hiu] at this
              cases this
            simp [this]
        rw [hfilter]
        have hgrown : (t.bm l).grown (c.aligned maxSize) = (t.bm m'.lblock).grown m'.maxSize := by
          rw [hlb, hms]
        change Layout c (t.update c fill m'.lblock ((t.bm l).grown (c.aligned maxSize))
          (t.table old new m') dl) old
        rw [hgrown]
        exact h.update_new hnf hold hnone
      · cases hr

theorem Layout.next_firstUpdate (h : Layout c t none) (ha : Args c.toConfig fid flags dataSize)
    (hu : t.firstUpdate c fill fid flags maxSize dataSize offset data = .ok (t1, del)) :
    Next c t t1 := by
  have hs := (h.firstUpdate ha hu).sane
  obtain ⟨_, old, reuse, new, m, b, m', dl, _, _, _, rfl, rfl⟩ := Tab.firstUpdate_eq hu
  exact .of_sane hs

end Write

end Tfm.L4.Its
