import Tfm.L4Service.ItsUpdate

/-!
# Specifications of the ITS file operations

The file operations on a device that holds a mounted filesystem make of it what the
pure operations do, for every set of rules. Until the header of the scratch metadata
block is written, the old filesystem counts; from then on, the new one.

Results: `wp_deleteIdx`, `wp_fileWrite`.
-/
namespace Tfm.L4.Its
open Tfm.BlockDev Tfm.Bytes

section Rest

variable {c : Cfg} {bu on : Bool} {x : Ctx} {s s' : Media} {t : Tab}

/-- The scratch blocks without the header of the scratch metadata block. -/
def Tab.Body (c : Cfg) (t : Tab) : Nat → Nat → Prop := fun b o =>
  b = t.sm ∧ c.headerSize ≤ o ∨ 2 < c.numBlocks ∧ b = t.sd

theorem Tab.body_scratch (b o : Nat) (h : t.Body c b o) : t.Scratch c b o :=
  h.imp And.left id

theorem Tab.entry_body {i : Nat} (b o : Nat)
    (h : Reg t.sm (c.fileMetaOffset i) (c.fileMetaOffset (i + 1)) b o) : t.Body c b o :=
  .inl ⟨h.1, Nat.le_trans (Nat.le_trans c.headerSize_le (c.fileMetaOffset_mono (Nat.zero_le i))) h.2.1⟩

/-- As long as the header is not written, the old filesystem counts. -/
theorem Rep.counts (h : Rep c (c.rules bu on) x s t) (ht : Sane c t)
    (hf : Frame (c.rules bu on) (t.Body c) s s') : Counts c (c.rules bu on) s' t := by
  refine ⟨h.stored.frame ht hf Tab.body_scratch, fun hl =>
    stale_of_blank (r := c.rules bu on) rfl fun o ho => ?_⟩
  have h8 := c.le_headerSize
  have hm : c.headerSize ≤ c.fileMetaOffset 0 := by
    rw [← c.blockMetaOffset_active, ← c.blockMetaOffset_zero]
    exact c.blockMetaOffset_mono (Nat.zero_le _)
  have hsz : c.fileMetaOffset 0 ≤ c.blockSize :=
    Nat.le_trans (c.fileMetaOffset_mono (Nat.zero_le _)) c.metaEnd_le
  have hout : ¬ t.Body c t.sm o := by
    intro hx
    obtain ⟨_, h2⟩ | ⟨h2, h3⟩ := hx
    · omega
    · have := (ht.scratch h2).1
      have := t.sm_lt
      omega
  rw [hf.same t.sm o hout fun hl' => absurd (hl.symm.trans hl') (by decide)]
  exact h.clean.sm o (by omega) (.inl (by omega))

/-- A part of a scratch block that was not written yet can be written. -/
theorem Rep.canWrite (h : Rep c (c.rules bu on) x s t) {W : Nat → Nat → Prop}
    (hf : Frame (c.rules bu on) W s s') {b lo n : Nat} (hb : t.Scratch c b 0)
    (hbn : b < c.numBlocks) (hn : lo + n ≤ c.blockSize)
    (hW : ∀ o, lo ≤ o → o < lo + n → ¬ W b o)
    (hp : bu → s'.pend = some b ∨ s'.pend = none ∧ ∀ o, ¬ W b o) :
    CanWrite (c.rules bu on) s' b lo n := by
  have hblank : bu = true ∨ on = true → ∀ o, o < c.blockSize →
      (s.cell b o).prog = false := by
    intro hs o ho
    rcases hb with rfl | ⟨h2, rfl⟩
    · rw [h.clean.sm o ho (.inr (.inr hs))]
      rfl
    · rw [h.clean.sd h2 o ho]
      rfl
  refine ⟨hbn, hn, fun hbu => ?_, fun hon i hi => ?_⟩
  · refine (hp hbu).imp id fun ⟨h1, h2⟩ => ⟨h1, fun o ho => ?_⟩
    rw [hf.prog b o (h2 o)]
    exact hblank (.inl hbu) o ho
  · rw [hf.prog b (lo + i) (hW _ (by omega) (by omega))]
    exact hblank (.inr hon) _ (by omega)

theorem Rep.canWriteEntry (h : Rep c (c.rules bu on) x s t) {i : Nat} (hi : i < c.maxNumFiles) :
    CanWrite (c.rules bu on) s t.sm (c.fileMetaOffset i) c.fileMetaSize :=
  h.canWrite (W := fun _ _ => False) (.refl s) (.inl rfl) (Nat.lt_of_lt_of_le t.sm_lt c.two_le)
    (Nat.le_trans (c.fileMetaOffset_lt hi) c.metaEnd_le) (fun _ _ _ hf => hf)
    fun hb => .inr ⟨h.clean.pend hb, fun _ hf => hf⟩

/-- Where cells that are not written are known, they are blank. -/
theorem Rep.blank (h : Rep c (c.rules bu on) x s t) {W : Nat → Nat → Prop}
    (hf : Frame (c.rules bu on) W s s') {b o : Nat} (hb : t.Scratch c b 0) (ho : o < c.blockSize)
    (hm : b = t.sm → o < c.fileMetaOffset 0 ∨ c.metaEnd ≤ o) (hW : ¬ W b o)
    (hl : (c.rules bu on).loose = false) : s'.cell b o = (c.rules bu on).blank := by
  rw [hf.same b o hW fun hl' => absurd (hl.symm.trans hl') (by decide)]
  rcases hb with rfl | ⟨h2, rfl⟩
  · exact h.clean.sm o ho ((hm rfl).imp id .inl)
  · exact h.clean.sd h2 o ho

end Rest

section Delete

variable {c : Cfg} {bu on : Bool} {x : Ctx} {s : Media} {t : Tab} {C : Media → Prop}

theorem Sane.scratchId_cases (h : Sane c t) {l : Nat} (hl : l < c.numActiveDblocks) :
    l = 0 ∧ t.scratchId l = t.sm ∧ (t.bm l).dataStart = c.metaEnd ∨
    l ≠ 0 ∧ t.scratchId l = t.sd ∧ (t.bm l).dataStart = 0 ∧ 2 < c.numBlocks ∧ 2 ≤ t.sd ∧
      t.sd < c.numBlocks := by
  by_cases h0 : l = 0
  · exact .inl ⟨h0, by rw [Tab.scratchId, if_pos h0], by rw [h0, h.start0]⟩
  · have h2 := c.two_lt (by omega) hl
    exact .inr ⟨h0, by rw [Tab.scratchId, if_neg h0], h.start l (by omega) hl, h2, h.scratch h2⟩

/-- The last part of an update, when the scratch blocks hold the new filesystem but
for the header. -/
theorem wp_finishUpdate {Q : Except PsaStatus Unit → Ctx → Media → Prop} {l : Nat}
    {b : BlockMeta} {fm : Nat → FileMeta} {dl : Option (Nat → Option UInt8)} {x' : Ctx}
    {s' : Media} {W : Nat → Nat → Prop} (h : Rep c (c.rules bu on) x s t) (ht : Sane c t)
    (hn : Next c t (t.update c (c.rules bu on).fill l b fm dl)) (hl : l < c.numActiveDblocks)
    (hstart : b.dataStart = (t.bm l).dataStart) (hf : Frame (c.rules bu on) W s s')
    (hW : ∀ b o, W b o → t.Body c b o)
    (hblock : Blocked c (c.rules bu on) s' t
      (t.blocks l { b with phyId := if dl.isSome then t.scratchId l else (t.bm l).phyId }) 0
      c.numActiveDblocks)
    (hfile : Filed c (c.rules bu on) s' t fm 0 c.maxNumFiles)
    (hdl : ∀ d, dl = some d → ∀ o v, b.dataStart ≤ o → o < c.blockSize → d o = some v →
      s'.Has (c.rules bu on) (t.scratchId l) o v)
    (h0 : l ≠ 0 ∨ dl = none → ∀ o v, c.metaEnd ≤ o → o < c.blockSize →
      t.moved0 c (c.rules bu on).fill o = some v → s'.Has (c.rules bu on) t.sm o v)
    (hx : x' = ⟨⟨if l ≠ 0 ∧ dl.isSome then (t.bm l).phyId else t.sd, t.hdr.fsVersion,
      t.hdr.activeSwapCount⟩, t.active, t.sm⟩)
    (hp : bu → s'.pend = some t.sm)
    (hC0 : ∀ s', Counts c (c.rules bu on) s' t → C s')
    (hC1 : ∀ s', Counts c (c.rules bu on) s' (t.update c (c.rules bu on).fill l b fm dl) → C s')
    (hQ : ∀ x' s', Rep c (c.rules bu on) x' s' (t.update c (c.rules bu on).fill l b fm dl) →
      Q (.ok ()) x' s') :
    wp (c.rules bu on) (metaUpdateFinalize c) x' s' Q C := by
  have hsid := ht.scratchId_cases hl
  have hsm := t.sm_lt
  have h2 := c.two_le
  have hh0 : c.headerSize ≤ c.fileMetaOffset 0 := by
    rw [← c.blockMetaOffset_active, ← c.blockMetaOffset_zero]
    exact c.blockMetaOffset_mono (Nat.zero_le _)
  have hf0 : c.fileMetaOffset 0 ≤ c.metaEnd := c.fileMetaOffset_mono (Nat.zero_le _)
  have hme := c.metaEnd_le
  have hhead : ∀ o, o < c.headerSize → ¬ W t.sm o := by
    intro o ho hw
    rcases hW _ _ hw with ⟨_, h4⟩ | ⟨h3, h4⟩
    · omega
    · have := (ht.scratch h3).1
      omega
  have hlive : Live c bu on x' s' t := by
    subst hx
    exact ⟨ht, rfl, rfl, h.stored.frame ht hf fun b o hw => Tab.body_scratch b o (hW b o hw),
      fun hb b hb' => .inl (by rw [hp hb] at hb'; exact (Option.some.inj hb').symm)⟩
  refine wp_metaUpdateFinalize hlive hn ⟨?_, hfile, ?_⟩ (by rw [hx]; rfl) ?_ ?_ hC0 hC1 hQ
  · refine hblock.congr fun k _ hk => ?_
    unfold Tab.blocks Tab.update
    dsimp only
    by_cases hkl : k = l
    · subst hkl
      rw [if_pos rfl, if_pos rfl]
      by_cases hk0 : k = 0
      · rw [if_pos hk0, if_pos hk0]
      · rw [if_neg hk0, if_neg hk0, Tab.scratchId, if_neg hk0]
    · rw [if_neg hkl, if_neg hkl]
  · -- the contents of the blocks
    intro k hk o ho ho' v hv
    have hstart' : ((t.update c (c.rules bu on).fill l b fm dl).bm k).dataStart =
        (t.bm k).dataStart := by
      unfold Tab.update
      dsimp only
      split
      · next hkl => rw [hkl, hstart]
      · split
        · next hk0 => rw [hk0]
        · rfl
    rw [hstart'] at ho
    by_cases hkd : k = l ∧ dl.isSome
    · obtain ⟨rfl, hsome⟩ := hkd
      obtain ⟨d, rfl⟩ := Option.isSome_iff_exists.mp hsome
      have hph : (t.update c (c.rules bu on).fill k b fm (some d)).phys k = t.scratchId k := by
        unfold Tab.phys Tab.update Tab.scratchId
        by_cases hk0 : k = 0
        · simp [hk0]
        · simp [hk0]
      rw [hph]
      refine hdl d rfl o v (hstart ▸ ho) ho' ?_
      simpa [Tab.update] using hv
    · have hold : (t.update c (c.rules bu on).fill l b fm dl).data k o =
          if k = 0 then t.moved0 c (c.rules bu on).fill o else t.data k o := by
        unfold Tab.update
        dsimp only
        rw [if_neg hkd]
      rw [hold] at hv
      by_cases hk0 : k = 0
      · subst hk0
        rw [if_pos rfl] at hv
        rw [ht.start0] at ho
        refine h0 ?_ o v ho ho' hv
        by_cases hl0 : l = 0
        · refine .inr (Option.not_isSome_iff_eq_none.mp fun hs => hkd ⟨hl0.symm, hs⟩)
        · exact .inl hl0
      · rw [if_neg hk0] at hv
        have hph : (t.update c (c.rules bu on).fill l b fm dl).phys k = t.phys k := by
          unfold Tab.phys Tab.update
          dsimp only
          rw [if_neg hk0, if_neg hk0]
          split
          · next hkl =>
            subst hkl
            rw [if_neg hk0]
            have : dl.isSome = false := by
              simpa using fun hs => hkd ⟨rfl, hs⟩
            simp [this]
          · rfl
        rw [hph]
        refine hf.has (fun hw => ht.phys_not_scratch hk o (Tab.body_scratch _ _ (hW _ _ hw)))
          (h.stored.data k hk o ho ho' v hv)
  · refine h.canWrite hf (.inl rfl) (by omega) (by omega) (fun o _ ho => hhead o (by omega))
      fun hb => .inl (hp hb)
  · intro hlo o ho
    exact h.blank hf (.inl rfl) (by omega) (fun _ => .inl (by omega)) (hhead o ho) hlo

/-- The data that moves when file `i` is deleted lies in its block. -/
def Tab.ScanFits (c : Cfg) (t : Tab) (i : Nat) : Prop :=
  ∀ scan, delScan t.fm i (t.fm i).lblock (t.fm i).dataIdx c.maxNumFiles 0 c.blockSize 0 = scan →
    (0 < scan.2 → (t.bm (t.fm i).lblock).dataStart ≤ scan.1 ∧ scan.1 + scan.2 ≤ c.blockSize) ∧
    (t.fm i).dataIdx + scan.2 ≤ c.blockSize

theorem wp_deleteIdx {Q : Except PsaStatus Unit → Ctx → Media → Prop} {i : Nat}
    (h : Rep c (c.rules bu on) x s t) (ht : Sane c t) (hi : i < c.maxNumFiles)
    (hu : (t.fm i).used = true) (hbu : bu → (t.fm i).lblock = 0) (hsrc : t.ScanFits c i)
    (hn : Next c t (t.deleteIdx c (c.rules bu on).fill i))
    (hC0 : ∀ s', Counts c (c.rules bu on) s' t → C s')
    (hC1 : ∀ s', Counts c (c.rules bu on) s' (t.deleteIdx c (c.rules bu on).fill i) → C s')
    (hQ : ∀ x' s', Rep c (c.rules bu on) x' s' (t.deleteIdx c (c.rules bu on).fill i) →
      Q (.ok ()) x' s') :
    wp (c.rules bu on) (deleteIdx c i) x s Q C := by
  have hpre : ∀ {W : Nat → Nat → Prop} {s' : Media}, Frame (c.rules bu on) W s s' →
      (∀ b o, W b o → t.Body c b o) → C s' := fun hf hW => hC0 _ (h.counts ht (hf.mono hW))
  have hlive := h.live ht
  obtain ⟨hl, hidx, hend, _⟩ := ht.file i hi hu
  have hsid := ht.scratchId_cases hl
  have hscr := Tab.scratchId_scratch (c := c) (t := t) hl
  have hsm := t.sm_lt
  have h2 := c.two_le
  have hfree := ht.free _ hl
  have hbs := c.blockSize_lt
  have hme := c.metaEnd_le
  have hf0 : c.fileMetaOffset 0 ≤ c.metaEnd := c.fileMetaOffset_mono (Nat.zero_le _)
  have hh0 : c.headerSize ≤ c.fileMetaOffset 0 := by
    rw [← c.blockMetaOffset_active, ← c.blockMetaOffset_zero]
    exact c.blockMetaOffset_mono (Nat.zero_le _)
  have hphy : (t.bm (t.fm i).lblock).phyId = t.phys (t.fm i).lblock := by
    unfold Tab.phys
    split
    · next h0 =>
      rw [h0]
      refine ht.home.resolve_right fun hno => ?_
      rw [hno.2 i hi] at hu
      cases hu
    · rfl
  have hentry : ∀ k, k < c.maxNumFiles → c.fileMetaOffset 0 ≤ c.fileMetaOffset k ∧
      c.fileMetaOffset k + c.fileMetaSize ≤ c.metaEnd := fun k hk =>
    ⟨c.fileMetaOffset_mono (Nat.zero_le _), c.fileMetaOffset_lt hk⟩
  refine wp_bind (wp_readFileMeta hlive hi (hC0 s (h.counts ht (.refl s))) ?_)
  simp only [hu, Bool.not_true, Bool.false_eq_true, if_false]
  -- the file table
  have hcan0 : CanWrite (c.rules bu on) s t.sm (c.fileMetaOffset i) c.fileMetaSize :=
    h.canWrite (W := fun _ _ => False) (.refl s) (.inl rfl) (by omega)
      (by have := hentry i hi; omega) (fun _ _ _ hf => hf) fun hb => .inr ⟨h.clean.pend hb, fun _ hf => hf⟩
  have hsub0 : ∀ b o, Reg t.sm (c.fileMetaOffset i) (c.fileMetaOffset (i + 1)) b o →
      Reg t.sm (c.fileMetaOffset 0) c.metaEnd b o := by
    intro b o hx
    obtain ⟨h1, h2, h3⟩ := hx
    have := hentry i hi
    rw [c.fileMetaOffset_succ] at h3
    exact ⟨h1, by omega, by omega⟩
  have hbody : ∀ b o, Reg t.sm (c.fileMetaOffset 0) c.metaEnd b o → t.Body c b o := by
    intro b o hx
    obtain ⟨h1, h2, h3⟩ := hx
    exact .inl ⟨h1, by omega⟩
  refine wp_bind (wp_updateScratchFileMeta hlive.scratch hcan0
    (fun s' hf => hpre (hf.mono hsub0) hbody) fun s1 hf1 hm1 hp1 => ?_)
  have hF1 := hf1.mono hsub0
  have hcan1 : ∀ k, 0 ≤ k → k < 0 + c.maxNumFiles → k ≠ i →
      CanWrite (c.rules bu on) s1 t.sm (c.fileMetaOffset k) c.fileMetaSize := by
    intro k _ hk hki
    have hk' : k < c.maxNumFiles := by omega
    refine h.canWrite hf1 (.inl rfl) (by omega) (by have := hentry k hk'; omega) ?_ fun _ => .inl hp1
    intro o h1 h2 hx
    obtain ⟨_, h3, h4⟩ := hx
    rcases Nat.lt_or_gt_of_ne hki with hlt | hlt
    · have := c.fileMetaOffset_lt hlt
      omega
    · have := c.fileMetaOffset_mono (show i + 1 ≤ k from hlt)
      omega
  have hloop : ∀ b o, t.LoopReg c i 0 (0 + c.maxNumFiles) b o →
      Reg t.sm (c.fileMetaOffset 0) c.metaEnd b o := by
    intro b o hx
    obtain ⟨⟨h1, h2, h3⟩, _⟩ := hx
    rw [Nat.zero_add] at h3
    exact ⟨h1, h2, h3⟩
  refine wp_bind (wp_deleteIdxLoop c.maxNumFiles (hlive.sm hf1 (.inr hp1)) hp1 (by omega) hcan1
    (fun s' hf => hpre (hF1.step hf hloop) hbody) fun s2 hf2 hd2 hp2 => ?_)
  have hF2 := hF1.step hf2 hloop
  have hfiled : Filed c (c.rules bu on) s2 t (fun k => if k = i then .zero else
      shifted (t.fm i).lblock (t.fm i).dataIdx (t.fm i).maxSize (t.fm k)) 0 c.maxNumFiles := by
    intro k _ hk
    dsimp only
    split
    · next hki =>
      subst hki
      refine hf2.hasAll ?_ hm1
      intro j hj hx
      obtain ⟨_, h3⟩ := hx
      have := c.fileMetaOffset_succ k
      have := c.le_fileMetaSize
      rw [FileMeta.length_bytes] at hj
      omega
    · next hki => exact hd2 k (Nat.zero_le _) (by omega) hki
  dsimp only
  generalize hscan : delScan t.fm i (t.fm i).lblock (t.fm i).dataIdx c.maxNumFiles 0 c.blockSize 0 =
    scan at *
  obtain ⟨hsrc1, hsrc2⟩ := hsrc scan hscan
  have hdel : t.deleteIdx c (c.rules bu on).fill i = t.update c (c.rules bu on).fill (t.fm i).lblock
      { t.bm (t.fm i).lblock with
        freeSize := add32 (t.bm (t.fm i).lblock).freeSize (t.fm i).maxSize }
      (fun k => if k = i then .zero else
        shifted (t.fm i).lblock (t.fm i).dataIdx (t.fm i).maxSize (t.fm k))
      (some (compacted (c.rules bu on).fill (t.data (t.fm i).lblock) (t.bm (t.fm i).lblock).dataStart
        scan.1 (t.fm i).dataIdx scan.2)) := by
    rw [← hscan]
    rfl
  rw [hdel] at hn hC1 hQ
  generalize hlb : (t.fm i).lblock = l at *
  -- the data
  have hlive2 := hlive.sm hF2 (.inr hp2)
  refine wp_bind (wp_bind (wp_readBlockMetadata hlive2 hl (hpre hF2 hbody) (wp_get ?_)))
  rw [curDataScratchId_eq hlive2 (by rw [h.ctx]; rfl)]
  have hcan2 : CanWrite (c.rules bu on) s2 (t.scratchId l) (t.bm l).dataStart
      (c.blockSize - (t.bm l).dataStart) := by
    refine h.canWrite hF2 hscr (by omega) (by omega) ?_ fun hb => .inl ?_
    · intro o h1 h2 hx
      obtain ⟨h3, h4, h5⟩ := hx
      omega
    · rw [hp2, Tab.scratchId, if_pos (hbu hb)]
  have hblank2 : (c.rules bu on).loose = false → ∀ o, (t.bm l).dataStart ≤ o → o < c.blockSize →
      s2.cell (t.scratchId l) o = (c.rules bu on).blank := by
    intro hlo o ho ho'
    refine h.blank hF2 hscr ho' (fun he => ?_) ?_ hlo
    · omega
    · intro hx
      obtain ⟨h3, h4, h5⟩ := hx
      omega
  have hbody3 : ∀ b o, Reg (t.scratchId l) (t.bm l).dataStart c.blockSize b o → t.Body c b o := by
    intro b o hx
    obtain ⟨h1, h3, h4⟩ := hx
    rcases hsid with h5 | h5
    · exact .inl ⟨by omega, by omega⟩
    · exact .inr ⟨h5.2.2.2.1, by omega⟩
  refine wp_bind (wp_dblockCompactData hlive2 hl hphy rfl hsrc1 hidx hsrc2 ?_ hcan2 hblank2
    (fun s' hf => hpre (hF2.join hf) (fun b o hw => hw.elim (hbody b o) (hbody3 b o)))
    fun s3 hf3 hd3 hp3 => ?_)
  · intro hb
    rw [hp2, Tab.scratchId, if_pos (hbu hb)]
  replace hf3 : Frame (c.rules bu on) (Reg (t.scratchId l) (t.bm l).dataStart c.blockSize) s2 s3 :=
    hf3
  have hF3 := hF2.join hf3
  have hB3 : ∀ b o, Reg t.sm (c.fileMetaOffset 0) c.metaEnd b o ∨
      Reg (t.scratchId l) (t.bm l).dataStart c.blockSize b o → t.Body c b o :=
    fun b o hw => hw.elim (hbody b o) (hbody3 b o)
  have hp3' : bu → s3.pend = some t.sm := by
    intro hb
    have h0 := hbu hb
    rw [Tab.scratchId, if_pos h0] at hp3
    exact hp3.elim (fun hp => hp.trans hp2) id
  have hlive3 := hlive2.frame hf3 (fun b o hw => Tab.body_scratch b o (hbody3 b o hw))
    (hp3.imp id fun hp3 b hb => by
      rw [hp3] at hb
      exact Option.some.inj hb ▸ hscr)
  -- the block metadata
  have hcan3 : CanWrite (c.rules bu on) s3 t.sm c.headerSize (c.fileMetaOffset 0 - c.headerSize) := by
    refine h.canWrite hF3 (.inl rfl) (by omega) (by omega) ?_ fun hb => .inl (hp3' hb)
    intro o h1 h3 hx
    obtain ⟨h4, h5, h6⟩ | ⟨h4, h5, h6⟩ := hx
    · omega
    · omega
  have hbody4 : ∀ b o, Reg t.sm c.headerSize (c.fileMetaOffset 0) b o → t.Body c b o := by
    intro b o hx
    obtain ⟨h1, h3, h4⟩ := hx
    exact .inl ⟨h1, h3⟩
  refine wp_dblockCompactMeta hlive3 hl hbu hcan3
    (fun s' hf => hpre (hF3.join hf) fun b o hw => hw.elim (hB3 b o) (hbody4 b o))
    fun s4 hf4 hb4 hp4 => ?_
  have hF4 := hF3.join hf4
  have hB4 : ∀ b o, (Reg t.sm (c.fileMetaOffset 0) c.metaEnd b o ∨
      Reg (t.scratchId l) (t.bm l).dataStart c.blockSize b o) ∨
      Reg t.sm c.headerSize (c.fileMetaOffset 0) b o → t.Body c b o :=
    fun b o hw => hw.elim (hB3 b o) (hbody4 b o)
  have hfile4 := (hfiled.keep hf3 (fun o h1 h3 hr => by
    have hr1 := hr.1
    have hr2 := hr.2.1
    rw [show c.fileMetaOffset c.maxNumFiles = c.metaEnd from rfl] at h3
    omega)).keep hf4 fun o h1 h3 hr => by
    have hr3 := hr.2.2
    omega
  have hdata4 : ∀ o v, (t.bm l).dataStart ≤ o → o < c.blockSize →
      compacted (c.rules bu on).fill (t.data l) (t.bm l).dataStart scan.1 (t.fm i).dataIdx scan.2 o =
        some v → s4.Has (c.rules bu on) (t.scratchId l) o v := by
    intro o v ho ho' hv
    refine hf4.has ?_ (hd3 o v ho ho' hv)
    intro hx
    obtain ⟨h1, h3, h4⟩ := hx
    omega
  -- the new filesystem is complete but for the header
  have hfinish : ∀ {W : Nat → Nat → Prop} {s5 : Media}, Frame (c.rules bu on) W s s5 →
      (∀ b o, W b o → t.Body c b o) →
      Frame (c.rules bu on) (Reg t.sm c.metaEnd c.blockSize) s4 s5 → (l = 0 → s5 = s4) →
      (l ≠ 0 → ∀ o v, c.metaEnd ≤ o → o < c.blockSize →
        t.moved0 c (c.rules bu on).fill o = some v → s5.Has (c.rules bu on) t.sm o v) →
      wp (c.rules bu on) (metaUpdateFinalize c) (if l ≠ 0 then { x with header :=
        { x.header with scratchDblock := (t.bm l).phyId } } else x) s5 Q C := by
    intro W s5 hF5 hW5 hf5 heq hd5
    refine wp_finishUpdate h ht hn hl rfl hF5 hW5 ?_ ?_ ?_ (fun h0 => hd5 (by simpa using h0)) ?_ ?_
      hC0 hC1 hQ
    · refine hb4.keep hf5 fun o h1 h3 hr => ?_
      have := hr.2.1
      rw [c.blockMetaOffset_active] at h3
      omega
    · refine hfile4.keep hf5 fun o h1 h3 hr => ?_
      have := hr.2.1
      rw [show c.fileMetaOffset c.maxNumFiles = c.metaEnd from rfl] at h3
      omega
    · intro d hd o v ho ho' hv
      cases hd
      by_cases h0 : l = 0
      · rw [heq h0]
        exact hdata4 o v ho ho' hv
      · refine hf5.has ?_ (hdata4 o v ho ho' hv)
        intro hx
        obtain ⟨h1, h3, h4⟩ := hx
        omega
    · rw [h.ctx]
      by_cases h0 : l = 0
      · simp [h0, Tab.sd]
      · simp [h0]
    · intro hb
      rw [heq (hbu hb)]
      exact hp4 hb
  dsimp only
  split
  · next h0 =>
    rw [if_pos h0] at hfinish
    have hbu' : ¬ bu = true := fun hb => h0 (hbu hb)
    have hstored4 := h.stored.frame ht hF4 fun b o hw => Tab.body_scratch b o (hB4 b o hw)
    have hlive4 : Live c bu on
        { x with header := { x.header with scratchDblock := (t.bm l).phyId } } s4 t :=
      ⟨ht, hlive.active, hlive.scratch, hstored4, fun hb => absurd hb hbu'⟩
    have hout4 : ∀ o, c.metaEnd ≤ o → ¬ ((Reg t.sm (c.fileMetaOffset 0) c.metaEnd t.sm o ∨
        Reg (t.scratchId l) (t.bm l).dataStart c.blockSize t.sm o) ∨
        Reg t.sm c.headerSize (c.fileMetaOffset 0) t.sm o) := by
      rintro o ho ((⟨h1, h3, h4⟩ | ⟨h1, h3, h4⟩) | ⟨h1, h3, h4⟩) <;> omega
    have hcan4 : CanWrite (c.rules bu on) s4 t.sm c.metaEnd (c.blockSize - c.metaEnd) :=
      h.canWrite hF4 (.inl rfl) (by omega) (by omega) (fun o ho _ => hout4 o ho)
        fun hb => absurd hb hbu'
    have hbody5 : ∀ b o, Reg t.sm c.metaEnd c.blockSize b o → t.Body c b o := by
      intro b o hx
      obtain ⟨h1, h3, h4⟩ := hx
      exact .inl ⟨h1, by omega⟩
    have hC5 : ∀ s', Frame (c.rules bu on) (Reg t.sm c.metaEnd c.blockSize) s4 s' → C s' :=
      fun s' hf => hpre (hF4.join hf) fun b o hw => hw.elim (hB4 b o) (hbody5 b o)
    refine wp_bind (wp_recast (wp_migrateLb0 hlive4 hcan4 (fun hlo o ho ho' =>
      h.blank hF4 (.inl rfl) ho' (fun _ => .inr ho) (hout4 o ho) hlo) hC5
      fun s5 hf5 hd5 _ => ⟨?_, hC5 s5 hf5⟩))
    exact hfinish (hF4.join hf5) (fun b o hw => hw.elim (hB4 b o) (hbody5 b o)) hf5
      (fun h00 => absurd h00 h0) fun _ => hd5
  · next h0 =>
    rw [if_neg h0] at hfinish
    have h00 : l = 0 := by simpa using h0
    exact hfinish hF4 hB4 (.refl s4) (fun _ => rfl) fun hne => absurd h00 hne

end Delete

/-! ## Writing a file -/

section Write

variable {c : Cfg} {bu on : Bool} {x : Ctx} {s : Media} {t : Tab} {C : Media → Prop}

theorem findIdx_lt {fm : Nat → FileMeta} {p : FileMeta → Bool} (n : Nat) : ∀ {i j : Nat},
    findIdx fm p n i = some j → i ≤ j ∧ j < i + n ∧ p (fm j) = true := by
  induction n with
  | zero => intro i j h; cases h
  | succ n ih =>
    intro i j h
    unfold findIdx at h
    split at h
    · next hp =>
      cases h
      exact ⟨Nat.le_refl _, by omega, hp⟩
    · obtain ⟨h1, h2, h3⟩ := ih h
      exact ⟨by omega, by omega, h3⟩

theorem Tab.find_some {fid i : Nat} (h : t.find c fid = some i) :
    i < c.maxNumFiles ∧ (t.fm i).id = fid := by
  obtain ⟨_, h2, h3⟩ := findIdx_lt _ h
  exact ⟨by omega, by simpa using h3⟩

/-- The entry of a file that is to be deleted in a second update. -/
def FileMeta.marked (m : FileMeta) : FileMeta := { m with flags := m.flags ||| flagDelete }

theorem wp_fileWriteLookup
    {Q : Except PsaStatus (Option Nat × Option (Nat × FileMeta)) → Ctx → Media → Prop}
    {fid flags maxSize : Nat} (h : Live c bu on x s t)
    (hcan : ∀ o, t.lookup c fid flags maxSize = .ok (some o, none) →
      CanWrite (c.rules bu on) s t.sm (c.fileMetaOffset o) c.fileMetaSize)
    (hC : ∀ s', Frame (c.rules bu on) (t.Body c) s s' → C s')
    (hQ0 : (∀ o, t.lookup c fid flags maxSize ≠ .ok (some o, none)) →
      Q (t.lookup c fid flags maxSize) x s)
    (hQ1 : ∀ o s', t.lookup c fid flags maxSize = .ok (some o, none) → o < c.maxNumFiles →
      Frame (c.rules bu on) (Reg t.sm (c.fileMetaOffset o) (c.fileMetaOffset (o + 1))) s s' →
      s'.HasAll (c.rules bu on) t.sm (c.fileMetaOffset o) (t.fm o).marked.bytes →
      s'.pend = some t.sm → Q (.ok (some o, none)) x s') :
    wp (c.rules bu on) (fileWriteLookup c fid flags maxSize) x s Q C := by
  have hs := hC s (.refl s)
  refine wp_bind (wp_attempt (wp_getFileIdx h hs ⟨?_, hs⟩))
  unfold Tab.lookup at hcan hQ0 hQ1
  cases hfind : t.find c fid with
  | none =>
    simp only [hfind] at hQ0
    simp only [Option.elim]
    split
    · next hc =>
      simp only [hc, if_true] at hQ0
      exact wp_throw (hQ0 fun o => by simp) hs
    · next hc =>
      simp only [hc, if_false] at hQ0
      exact wp_pure (hQ0 fun o => by simp) hs
  | some old =>
    have hold := (Tab.find_some hfind).1
    simp only [hfind] at hcan hQ0 hQ1
    simp only [Option.elim]
    refine wp_bind (wp_recast (wp_readFileMeta h hold hs ⟨?_, hs⟩))
    simp only [Except.mapError]
    by_cases htr : flags &&& flagTruncate ≠ 0
    · simp only [if_pos htr] at hcan hQ0 hQ1 ⊢
      by_cases hmax : (t.fm old).maxSize = maxSize
      · simp only [if_pos hmax] at hQ0 hQ1 ⊢
        exact wp_pure (hQ0 fun o => by simp) hs
      · simp only [if_neg hmax] at hcan hQ0 hQ1 ⊢
        have hC' : ∀ s', Frame (c.rules bu on)
            (Reg t.sm (c.fileMetaOffset old) (c.fileMetaOffset (old + 1))) s s' → C s' :=
          fun s' hf => hC s' (hf.mono Tab.entry_body)
        refine wp_bind (wp_recast (wp_updateScratchFileMeta h.scratch (hcan old rfl) hC'
          fun s1 hf1 hm1 hp1 => ⟨?_, hC' s1 hf1⟩))
        exact wp_pure (hQ1 old s1 rfl hold hf1 hm1 hp1) (hC' s1 hf1)
    · simp only [if_neg htr] at hQ0 hQ1 ⊢
      exact wp_pure (hQ0 fun o => by simp) hs

theorem wp_fileWriteReserve {Q : Except PsaStatus (Nat × FileMeta × BlockMeta) → Ctx → Media → Prop}
    {fid flags maxSize : Nat} {old : Option Nat} {reuse : Option (Nat × FileMeta)}
    (h : Live c bu on x s t) (hreuse : ∀ i m, reuse = some (i, m) → m.lblock < c.numActiveDblocks)
    (hC : C s) (hQ : Q (t.reserve c fid flags maxSize old reuse) x s) :
    wp (c.rules bu on) (fileWriteReserve c fid flags maxSize old reuse) x s Q C := by
  unfold Tab.reserve at hQ
  unfold fileWriteReserve
  cases reuse with
  | some im =>
    obtain ⟨i, m⟩ := im
    refine wp_bind (wp_recast (wp_readBlockMetadata h (hreuse i m rfl) hC ⟨?_, hC⟩))
    exact wp_pure hQ hC
  | none =>
    dsimp only at hQ ⊢
    by_cases hmax : c.maxFileSize < maxSize
    · rw [if_pos hmax] at hQ ⊢
      exact wp_bind (wp_throw ⟨hQ, hC⟩ hC)
    · rw [if_neg hmax] at hQ ⊢
      exact wp_reserveFile h hC hQ

/-- A file and its block metadata, as an update of the file takes them. -/
structure Fit (c : Cfg) (t : Tab) (m : FileMeta) (b : BlockMeta) : Prop where
  lblock : m.lblock < c.numActiveDblocks
  phy : b.phyId = (t.bm m.lblock).phyId
  start : b.dataStart = (t.bm m.lblock).dataStart
  free : b.freeSize ≤ c.blockSize
  idx : b.dataStart ≤ m.dataIdx
  fileEnd : m.dataIdx + m.maxSize ≤ c.blockSize - b.freeSize
  cur : m.curSize ≤ m.maxSize
  home : b.phyId = t.phys m.lblock ∨
    m.curSize = 0 ∧ m.dataIdx = b.dataStart ∧ m.dataIdx + m.maxSize = c.blockSize - b.freeSize

/-- A buffer of `n` bytes in an address space of 32 bits, with room for one more
program unit. -/
def Buffer (c : Config) (n : Nat) : Prop := n + c.programUnit ≤ 2 ^ 32

/-- Clearing the bits of `m` takes away `m` at most. -/
theorem sub_le_and_not {w : Nat} (y m : BitVec w) : y.toNat - m.toNat ≤ (y &&& ~~~m).toNat := by
  have hz : (y &&& m) &&& (y &&& ~~~m) = 0#w := by
    ext i hi
    simp only [BitVec.getElem_and, BitVec.getElem_not, BitVec.getElem_zero]
    cases y[i] <;> cases m[i] <;> rfl
  have ho : (y &&& m) ||| (y &&& ~~~m) = y := by
    ext i hi
    simp only [BitVec.getElem_and, BitVec.getElem_not, BitVec.getElem_or]
    cases y[i] <;> cases m[i] <;> rfl
  have hadd := BitVec.toNat_add_of_and_eq_zero hz
  rw [BitVec.add_eq_or_of_and_eq_zero _ _ hz, ho] at hadd
  have hm : (y &&& m).toNat ≤ m.toNat := by
    rw [BitVec.toNat_and]
    exact Nat.and_le_right
  omega

theorem Config.le_aligned {c : Config} {n : Nat} (h : Buffer c n) : n ≤ c.aligned n := by
  unfold Config.aligned
  split
  · have hu := c.programUnit_pos
    have hlt := c.programUnit_lt
    unfold Buffer at h
    unfold align
    rw [add32_of_lt (by omega)]
    have hsub := sub_le_and_not (BitVec.ofNat 32 (n + (c.programUnit - 1)))
      (BitVec.ofNat 32 (c.programUnit - 1))
    rw [BitVec.toNat_and, BitVec.toNat_not, BitVec.toNat_ofNat, BitVec.toNat_ofNat,
      Nat.mod_eq_of_lt (by omega), Nat.mod_eq_of_lt (by omega),
      show 2 ^ 32 - 1 - (c.programUnit - 1) = 2 ^ 32 - c.programUnit by omega] at hsub
    omega
  · exact Nat.le_refl n

theorem freeBlock_some {bm : Nat → BlockMeta} {size : Nat} (n : Nat) : ∀ {i j : Nat},
    freeBlock bm size n i = some j → i ≤ j ∧ j < i + n ∧ size ≤ (bm j).freeSize := by
  induction n with
  | zero => intro i j h; cases h
  | succ n ih =>
    intro i j h
    unfold freeBlock at h
    split at h
    · next hp =>
      cases h
      exact ⟨Nat.le_refl _, by omega, hp⟩
    · obtain ⟨h1, h2, h3⟩ := ih h
      exact ⟨by omega, by omega, h3⟩

/-- Without `spare` another free entry comes before. -/
theorem freeIdx_some {fm : Nat → FileMeta} (n : Nat) : ∀ {spare : Bool} {i j : Nat},
    freeIdx fm spare n i = some j → i ≤ j ∧ j < i + n ∧ (fm j).used = false ∧
      (spare = false → ∃ k, i ≤ k ∧ k < j ∧ (fm k).used = false) := by
  induction n with
  | zero => intro spare i j h; cases h
  | succ n ih =>
    intro spare i j h
    unfold freeIdx at h
    split at h
    · obtain ⟨h1, h2, h3, h4⟩ := ih h
      refine ⟨by omega, by omega, h3, fun hs => ?_⟩
      obtain ⟨k, hk, hk', hu⟩ := h4 hs
      exact ⟨k, by omega, hk', hu⟩
    · next hu =>
      have hu' : (fm i).used = false := by simpa using hu
      split at h
      · next hs =>
        cases h
        exact ⟨Nat.le_refl _, by omega, hu', fun hf => by rw [hs] at hf; cases hf⟩
      · obtain ⟨h1, h2, h3, _⟩ := ih h
        exact ⟨by omega, by omega, h3, fun _ => ⟨i, Nat.le_refl _, by omega, hu'⟩⟩

theorem FileMeta.used_of_id {m : FileMeta} (h : m.id ≠ 0) : m.used = true := by
  simpa [FileMeta.used] using h

/-- Where a file is in use, block 0 is where the metadata is. -/
theorem Sane.phys_of_used (ht : Sane c t) {i l : Nat} (hi : i < c.maxNumFiles)
    (hu : (t.fm i).used = true) : (t.bm l).phyId = t.phys l := by
  unfold Tab.phys
  split
  · next h0 =>
    subst h0
    refine ht.home.resolve_right fun hno => ?_
    rw [hno.2 i hi] at hu
    cases hu
  · rfl

/-- The entry that a write uses again, in its place. -/
theorem Tab.lookup_reuse {fid flags maxSize i : Nat} {old : Option Nat} {m : FileMeta}
    (hl : t.lookup c fid flags maxSize = .ok (old, some (i, m))) :
    old = some i ∧ t.find c fid = some i ∧
      m = { t.fm i with curSize := m.curSize, flags := m.flags } ∧
      (m.curSize = 0 ∨ flags &&& flagTruncate = 0 ∧ m = t.fm i) := by
  unfold Tab.lookup at hl
  split at hl
  · next o ho =>
    split at hl
    · split at hl
      · cases hl
        exact ⟨rfl, ho, rfl, .inl rfl⟩
      · cases hl
    · next htr =>
      cases hl
      exact ⟨rfl, ho, rfl, .inr ⟨by simpa using htr, rfl⟩⟩
  · split at hl <;> cases hl

theorem Tab.lookup_replace {fid flags maxSize o : Nat}
    (hl : t.lookup c fid flags maxSize = .ok (some o, none)) :
    t.find c fid = some o ∧ flags &&& flagTruncate ≠ 0 ∧ (t.fm o).maxSize ≠ maxSize := by
  unfold Tab.lookup at hl
  split at hl
  · next o' ho =>
    split at hl
    · next htr =>
      split at hl
      · cases hl
      · next hmax =>
        cases hl
        exact ⟨ho, htr, hmax⟩
    · cases hl
  · split at hl <;> cases hl

theorem Sane.fit_reserve (ht : Sane c t) {fid flags maxSize new : Nat} {old : Option Nat}
    {reuse : Option (Nat × FileMeta)} {m : FileMeta} {b : BlockMeta} (hfid : fid ≠ 0)
    (hl : t.lookup c fid flags maxSize = .ok (old, reuse))
    (hr : t.reserve c fid flags maxSize old reuse = .ok (new, m, b)) :
    new < c.maxNumFiles ∧ Fit c t m b := by
  cases reuse with
  | some im =>
    obtain ⟨i, mi⟩ := im
    -- the entry of the old file, with its size and its place
    obtain ⟨_, hfind, hm, hcur⟩ := Tab.lookup_reuse hl
    obtain ⟨hi, hid⟩ := Tab.find_some hfind
    have hu := FileMeta.used_of_id (hid ▸ hfid)
    have h1 : mi.lblock = (t.fm i).lblock := by rw [hm]
    have h2 : mi.dataIdx = (t.fm i).dataIdx := by rw [hm]
    have h3 : mi.maxSize = (t.fm i).maxSize := by rw [hm]
    have h4 : mi.curSize ≤ (t.fm i).curSize := by
      rcases hcur with h0 | ⟨_, rfl⟩
      · omega
      · exact Nat.le_refl _
    obtain ⟨g1, g2, g3, g4, _⟩ := ht.file i hi hu
    cases hr
    refine ⟨hi, by omega, rfl, rfl, ?_, ?_, ?_, by omega, .inl (ht.phys_of_used hi hu)⟩
    · have := ht.free _ g1
      rw [h1]
      omega
    · rw [h1, h2]
      exact g2
    · rw [h1, h2, h3]
      exact g3
  | none =>
    unfold Tab.reserve at hr
    dsimp only at hr
    split at hr
    · cases hr
    · split at hr
      · next l i hb hf =>
        cases hr
        obtain ⟨_, h1, h2⟩ := freeBlock_some _ hb
        obtain ⟨_, h3, _⟩ := freeIdx_some _ hf
        have hfree := ht.free l (by omega)
        refine ⟨by omega, by dsimp only; omega, rfl, rfl, ?_, ?_, ?_, Nat.zero_le _, ?_⟩
        · dsimp only
          omega
        · dsimp only
          omega
        · dsimp only
          omega
        · by_cases h0 : l = 0
          · subst h0
            rcases ht.home with hh | ⟨hh, _⟩
            · exact .inl hh
            · exact .inr ⟨rfl, by dsimp only; omega, by dsimp only; omega⟩
          · refine .inl ?_
            unfold Tab.phys
            rw [if_neg h0]
      · cases hr

theorem Fit.phy_of_data {m : FileMeta} {b : BlockMeta} {offset : Nat} (h : Fit c t m b)
    (hoff : offset ≤ m.curSize) : b.phyId = t.phys m.lblock ∨
      m.dataIdx + offset = b.dataStart ∧ m.dataIdx + m.maxSize = c.blockSize - b.freeSize :=
  h.home.imp id fun ⟨h1, h2, h3⟩ => ⟨by omega, h3⟩

/-- The checks of `its_flash_fs_file_write_aligned_data`, before it writes. -/
theorem wp_fileWriteAlignedData {Q : Except PsaStatus Unit → Ctx → Media → Prop} {m : FileMeta}
    {b : BlockMeta} {dataSize offset : Nat} {data : Nat → UInt8} (hs : C s)
    (hno : dataFits c m dataSize offset = false → Q (.error .invalidArgument) x s)
    (hok : dataFits c m dataSize offset = true →
      wp (c.rules bu on) (dblockWriteFile c b m offset (c.aligned dataSize) data) x s Q C) :
    wp (c.rules bu on) (fileWriteAlignedData c b m offset dataSize data) x s Q C := by
  have hfail : dataFits c m dataSize offset = false → ∀ k : Unit → M Unit,
      wp (c.rules bu on) (throw .invalidArgument >>= k) x s Q C := fun hf k =>
    wp_bind (wp_throw ⟨hno hf, hs⟩ hs)
  unfold dataFits at hno hok hfail
  unfold fileWriteAlignedData
  dsimp only
  split
  · next h1 =>
    have hal : isAligned offset c.programUnit = false := by simpa using h1.2
    exact hfail (by simp [h1.1, hal]) _
  next h1 =>
  split
  · next h2 => exact hfail (by simp [show ¬ offset ≤ m.curSize by omega]) _
  next h2 =>
  split
  · next h3 =>
    have hcont : checkContainedIn m.maxSize offset (c.aligned dataSize) = false := by simpa using h3
    exact hfail (by simp [hcont]) _
  next h3 =>
  refine hok ?_
  have hcont : checkContainedIn m.maxSize offset (c.aligned dataSize) = true := by simpa using h3
  simp only [hcont, Bool.and_true, Bool.and_eq_true, Bool.or_eq_true, decide_eq_true_eq]
  refine ⟨?_, by omega⟩
  by_cases ha : c.maxAlign = 1
  · exact .inl ha
  · exact .inr (by simpa [ha] using h1)

theorem wp_fileWriteData {Q : Except PsaStatus (FileMeta × BlockMeta) → Ctx → Media → Prop}
    {m : FileMeta} {b : BlockMeta} {dataSize offset : Nat} {data : Nat → UInt8}
    (h : Live c bu on x s t) (hx : x.header.scratchDblock = t.sd) (hfit : Fit c t m b)
    (hbuf : Buffer c.toConfig dataSize)
    (hw : dataSize ≠ 0 → CanWrite (c.rules bu on) s (t.scratchId m.lblock) b.dataStart
      (c.blockSize - b.dataStart))
    (hb : (c.rules bu on).loose = false → ∀ o, b.dataStart ≤ o → o < c.blockSize →
      s.cell (t.scratchId m.lblock) o = (c.rules bu on).blank)
    (hC : ∀ s', Frame (c.rules bu on) (Reg (t.scratchId m.lblock) b.dataStart c.blockSize) s s' →
      C s')
    (hQe : ∀ e, t.writeData c (c.rules bu on).fill m b dataSize offset data = .error e →
      Q (.error e) x s)
    (hQ : ∀ m' dl s',
      t.writeData c (c.rules bu on).fill m b dataSize offset data = .ok (m', dl) →
      Frame (c.rules bu on) (Reg (t.scratchId m.lblock) b.dataStart c.blockSize) s s' →
      (∀ d, dl = some d → ∀ o v, b.dataStart ≤ o → o < c.blockSize → d o = some v →
        s'.Has (c.rules bu on) (t.scratchId m.lblock) o v) →
      (dl = none → s' = s) →
      (dl.isSome → s'.pend = if m.lblock = 0 then some t.sm else none) →
      Q (.ok (m', { b with phyId := if dl.isSome then t.scratchId m.lblock else b.phyId }))
        (if m.lblock ≠ 0 ∧ dl.isSome then
          { x with header := { x.header with scratchDblock := b.phyId } } else x) s') :
    wp (c.rules bu on) (fileWriteData c m b dataSize offset data) x s Q C := by
  unfold Tab.writeData at hQe hQ
  unfold fileWriteData
  have hs := hC s (.refl s)
  by_cases h0 : dataSize = 0
  · simp only [if_pos h0] at hQ ⊢
    have := hQ m none s rfl (.refl s) (fun d hd => by cases hd) (fun _ => rfl) fun hf => by cases hf
    exact wp_pure (by simpa using this) hs
  simp only [if_neg h0] at hQe hQ ⊢
  refine wp_bind (wp_recast (wp_fileWriteAlignedData hs (fun hf => ⟨?_, hs⟩) fun hf => ?_))
  · refine ⟨hQe _ ?_, hs⟩
    rw [hf]
    rfl
  rw [if_pos hf] at hQ
  simp only [dataFits, checkContainedIn, Bool.and_eq_true, decide_eq_true_eq] at hf
  have hle := Config.le_aligned hbuf
  have hbs := c.blockSize_lt
  have hend := hfit.fileEnd
  have hadd : add32 offset dataSize = offset + dataSize := add32_of_lt (by omega)
  refine wp_dblockWriteFile h hx hfit.lblock hfit.start hfit.free hfit.idx hfit.fileEnd (by omega)
    (by omega) (hfit.phy_of_data (by omega)) (hw h0) hb hC fun s' hf hd hp => ⟨?_, hC s' hf⟩
  refine wp_get (wp_modify (wp_pure ?_ (hC s' hf)))
  rw [curDataScratchId_eq h hx, hadd]
  have hm : (if m.curSize < offset + dataSize then { m with curSize := offset + dataSize } else m) =
      { m with curSize := max m.curSize (offset + dataSize) } := by
    split
    · next hlt => rw [Nat.max_eq_right (Nat.le_of_lt hlt)]
    · next hge => rw [Nat.max_eq_left (by omega)]
  rw [hm]
  have := hQ _ _ s' rfl hf (fun d hd' => by cases hd'; exact hd) (fun hno => by cases hno)
    fun _ => hp
  simpa using this

/-- A file is written, from the block metadata on: the data is in its scratch block,
and an old file with another entry is marked. -/
theorem wp_writeUpdate {Q : Except PsaStatus Unit → Ctx → Media → Prop} {k : M Unit}
    {old : Option Nat} {new dataSize : Nat} {m : FileMeta} {b : BlockMeta}
    {dl : Option (Nat → Option UInt8)} {s2 : Media} {W : Nat → Nat → Prop}
    (h : Rep c (c.rules bu on) x s t) (ht : Sane c t)
    (hn : Next c t (t.update c (c.rules bu on).fill m.lblock b (t.table old new m) dl))
    (hl : m.lblock < c.numActiveDblocks) (hphy : b.phyId = (t.bm m.lblock).phyId)
    (hstart : b.dataStart = (t.bm m.lblock).dataStart) (hnew : new < c.maxNumFiles)
    (hold : ∀ o, old = some o → o < c.maxNumFiles) (hdl0 : dl = none ↔ dataSize = 0)
    (hF : Frame (c.rules bu on) W s s2)
    (hW : ∀ b' p, W b' p →
      (∃ o, old = some o ∧ o ≠ new ∧ Reg t.sm (c.fileMetaOffset o) (c.fileMetaOffset (o + 1)) b' p) ∨
      dl.isSome ∧ Reg (t.scratchId m.lblock) b.dataStart c.blockSize b' p)
    (hp : bu → s2.pend = some t.sm ∨ s2.pend = none ∧ ∀ o, ¬ W t.sm o)
    (hflag : ∀ o, old = some o → o ≠ new →
      s2.HasAll (c.rules bu on) t.sm (c.fileMetaOffset o) (t.table old new m o).bytes)
    (hdl : ∀ d, dl = some d → ∀ o v, b.dataStart ≤ o → o < c.blockSize → d o = some v →
      s2.Has (c.rules bu on) (t.scratchId m.lblock) o v)
    (hC0 : ∀ s', Counts c (c.rules bu on) s' t → C s')
    (hC1 : ∀ s', Counts c (c.rules bu on) s'
      (t.update c (c.rules bu on).fill m.lblock b (t.table old new m) dl) → C s')
    (hQ : ∀ x' s', Rep c (c.rules bu on) x' s'
      (t.update c (c.rules bu on).fill m.lblock b (t.table old new m) dl) →
      wp (c.rules bu on) k x' s' Q C) :
    wp (c.rules bu on) (do
      recast .genericError (updateScratchBlockMeta c m.lblock
        { b with phyId := if dl.isSome then t.scratchId m.lblock else b.phyId })
      recast .genericError (fileWriteTable c old new m)
      if m.lblock ≠ 0 ∨ dataSize = 0 then recast .genericError (migrateLb0DataToScratch c)
      metaUpdateFinalize c
      k) (if m.lblock ≠ 0 ∧ dl.isSome then
        { x with header := { x.header with scratchDblock := b.phyId } } else x) s2 Q C := by
  have hsid := ht.scratchId_cases hl
  have hscr := Tab.scratchId_scratch (c := c) (t := t) hl
  have hsm := t.sm_lt
  have h2 := c.two_le
  have hh0 := c.headerSize_le
  have hf0 := c.fileMetaOffset_le
  have hme := c.metaEnd_le
  have hreg : ∀ o, o < c.maxNumFiles → c.fileMetaOffset 0 ≤ c.fileMetaOffset o ∧
      c.fileMetaOffset (o + 1) ≤ c.metaEnd := fun o ho =>
    ⟨c.fileMetaOffset_mono (Nat.zero_le _), c.fileMetaOffset_mono ho⟩
  have hbody : ∀ b' p, W b' p → t.Body c b' p := by
    intro b' p hw
    rcases hW b' p hw with ⟨o, ho, _, h3, h4, _⟩ | ⟨_, h3, h4, _⟩
    · have := hreg o (hold o ho)
      exact .inl ⟨h3, by omega⟩
    · rcases hsid with h5 | h5
      · exact .inl ⟨by omega, by omega⟩
      · exact .inr ⟨h5.2.2.2.1, by omega⟩
  have hpre : ∀ {W' : Nat → Nat → Prop} {s' : Media}, Frame (c.rules bu on) W' s s' →
      (∀ b o, W' b o → t.Body c b o) → C s' := fun hf hW' => hC0 _ (h.counts ht (hf.mono hW'))
  -- where the scratch metadata block is not written yet
  have hWsm : ∀ p, W t.sm p → (∃ o, old = some o ∧ o ≠ new ∧ c.fileMetaOffset o ≤ p ∧
      p < c.fileMetaOffset (o + 1)) ∨ dl.isSome ∧ m.lblock = 0 ∧ c.metaEnd ≤ p := by
    intro p hw
    rcases hW t.sm p hw with ⟨o, ho, h3, _, h4, h5⟩ | ⟨hs, h3, h4, _⟩
    · exact .inl ⟨o, ho, h3, h4, h5⟩
    · refine .inr ⟨hs, ?_⟩
      rcases hsid with h5 | h5
      · exact ⟨h5.1, by omega⟩
      · omega
  have hx2 : ∀ y, (if m.lblock ≠ 0 ∧ dl.isSome then
      { x with header := { x.header with scratchDblock := b.phyId } } else x) = y →
      y.activeMetablock = x.activeMetablock ∧ y.scratchMetablock = x.scratchMetablock := by
    intro y hy
    rw [← hy]
    split <;> exact ⟨rfl, rfl⟩
  generalize hx2e : (if m.lblock ≠ 0 ∧ dl.isSome then
      { x with header := { x.header with scratchDblock := b.phyId } } else x) = x2 at *
  obtain ⟨hxa, hxs⟩ := hx2 x2 rfl
  have hlive2 : Live c bu on x2 s2 t := by
    refine ⟨ht, ?_, ?_, h.stored.frame ht hF fun b o hw => Tab.body_scratch b o (hbody b o hw),
      fun hb b' hb' => .inl ?_⟩
    · rw [hxa, h.ctx]
    · rw [hxs, h.ctx]
    · rcases hp hb with hp | hp
      · rw [hp] at hb'
        exact (Option.some.inj hb').symm
      · rw [hp.1] at hb'
        cases hb'
  -- the block metadata
  have hcan2 : CanWrite (c.rules bu on) s2 t.sm c.headerSize (c.fileMetaOffset 0 - c.headerSize) := by
    refine h.canWrite hF (.inl rfl) (by omega) (by omega) (fun p h3 h4 hw => ?_) hp
    rcases hWsm p hw with ⟨o, ho, _, h5, _⟩ | ⟨_, _, h5⟩
    · have := (hreg o (hold o ho)).1
      omega
    · omega
  have hbody3 : ∀ b' o, Reg t.sm c.headerSize (c.fileMetaOffset 0) b' o → t.Body c b' o := by
    intro b' o hx
    obtain ⟨h3, h4, _⟩ := hx
    exact .inl ⟨h3, h4⟩
  refine wp_bind (wp_recast (wp_updateScratchBlockMeta hlive2 hl hcan2
    (fun s' hf => hpre (hF.join hf) fun b' o hw => hw.elim (hbody b' o) (hbody3 b' o))
    fun s3 hf3 hb3 hp3 => ⟨?_, hpre (hF.join hf3) fun b' o hw => hw.elim (hbody b' o) (hbody3 b' o)⟩))
  dsimp only [Except.mapError]
  have hF3 := hF.join hf3
  have hB3 : ∀ b' o, W b' o ∨ Reg t.sm c.headerSize (c.fileMetaOffset 0) b' o → t.Body c b' o :=
    fun b' o hw => hw.elim (hbody b' o) (hbody3 b' o)
  -- the file table
  have hlive3 := hlive2.sm hf3 (.inr hp3)
  have hbody4 : ∀ b' o, Reg t.sm (c.fileMetaOffset 0) c.metaEnd b' o → t.Body c b' o := by
    intro b' o hx
    obtain ⟨h3, h4, _⟩ := hx
    exact .inl ⟨h3, by omega⟩
  refine wp_bind (wp_recast (wp_fileWriteTable hlive3 hnew hold (fun _ => .inl hp3) ?_ ?_
    (fun s' hf => hpre (hF3.join hf) fun b' o hw => hw.elim (hB3 b' o) (hbody4 b' o))
    fun s4 hf4 hd4 hp4 => ⟨?_, hpre (hF3.join hf4) fun b' o hw => hw.elim (hB3 b' o) (hbody4 b' o)⟩))
  · intro hon p h3 h4 hout
    rw [hF3.prog t.sm p, h.clean.sm p (by omega) (.inr (.inr (.inr hon)))]
    · rfl
    · intro hx
      obtain hw | ⟨_, _, h5⟩ := hx
      · rcases hWsm p hw with ⟨o, ho, h5, h6, h7⟩ | ⟨_, _, h5⟩
        · have := hout o ho h5
          omega
        · omega
      · omega
  · intro o ho hne
    refine hf3.hasAll ?_ (hflag o ho hne)
    intro i _ hx
    obtain ⟨_, _, h5⟩ := hx
    have := (hreg o (hold o ho)).1
    omega
  dsimp only [Except.mapError]
  have hF4 := hF3.join hf4
  have hB4 : ∀ b' o, (W b' o ∨ Reg t.sm c.headerSize (c.fileMetaOffset 0) b' o) ∨
      Reg t.sm (c.fileMetaOffset 0) c.metaEnd b' o → t.Body c b' o :=
    fun b' o hw => hw.elim (hB3 b' o) (hbody4 b' o)
  have hlive4 := hlive3.sm hf4 (.inr hp4)
  have hb4 := hb3.keep hf4 fun o h3 h4 hr => by
    have := hr.2.1
    rw [c.blockMetaOffset_active] at h4
    omega
  have hdl4 : ∀ d, dl = some d → ∀ o v, b.dataStart ≤ o → o < c.blockSize → d o = some v →
      s4.Has (c.rules bu on) (t.scratchId m.lblock) o v := by
    intro d hd o v ho ho' hv
    refine hf4.has ?_ (hf3.has ?_ (hdl d hd o v ho ho' hv))
    · intro hx
      obtain ⟨h3, h4, h5⟩ := hx
      omega
    · intro hx
      obtain ⟨h3, h4, h5⟩ := hx
      omega
  -- the new filesystem is complete but for the header
  have hfinish : ∀ {W' : Nat → Nat → Prop} {s5 : Media}, Frame (c.rules bu on) W' s s5 →
      (∀ b o, W' b o → t.Body c b o) →
      Frame (c.rules bu on) (Reg t.sm c.metaEnd c.blockSize) s4 s5 →
      (dl.isSome → m.lblock = 0 → s5 = s4) → s5.pend = some t.sm →
      (m.lblock ≠ 0 ∨ dl = none → ∀ o v, c.metaEnd ≤ o → o < c.blockSize →
        t.moved0 c (c.rules bu on).fill o = some v → s5.Has (c.rules bu on) t.sm o v) →
      wp (c.rules bu on) (metaUpdateFinalize c >>= fun _ => k) x2 s5 Q C := by
    intro W' s5 hF5 hW5 hf5 heq hp5 hd5
    refine wp_bind (wp_finishUpdate h ht hn hl hstart hF5 hW5 ?_ ?_ ?_ hd5 ?_ (fun _ => hp5)
      hC0 hC1 hQ)
    · rw [← hphy]
      refine hb4.keep hf5 fun o h3 h4 hr => ?_
      have := hr.2.1
      rw [c.blockMetaOffset_active] at h4
      omega
    · refine hd4.keep hf5 fun o h3 h4 hr => ?_
      have := hr.2.1
      rw [show c.fileMetaOffset c.maxNumFiles = c.metaEnd from rfl] at h4
      omega
    · intro d hd o v ho ho' hv
      have hsome : dl.isSome := by rw [hd]; rfl
      by_cases h0 : m.lblock = 0
      · rw [heq hsome h0]
        exact hdl4 d hd o v ho ho' hv
      · refine hf5.has ?_ (hdl4 d hd o v ho ho' hv)
        intro hx
        obtain ⟨h3, h4, h5⟩ := hx
        omega
    · rw [← hx2e, h.ctx, ← hphy]
      split
      · rfl
      · rfl
  split
  · next hc =>
    have hc' : m.lblock ≠ 0 ∨ dl = none := hc.imp id hdl0.mpr
    have hout4 : ∀ o, c.metaEnd ≤ o → ¬ ((W t.sm o ∨ Reg t.sm c.headerSize (c.fileMetaOffset 0) t.sm o) ∨
        Reg t.sm (c.fileMetaOffset 0) c.metaEnd t.sm o) := by
      intro o ho hx
      obtain (hw | ⟨_, _, h5⟩) | ⟨_, _, h5⟩ := hx
      · rcases hWsm o hw with ⟨o', ho', _, _, h7⟩ | ⟨hs, h5, _⟩
        · have := (hreg o' (hold o' ho')).2
          omega
        · rcases hc' with hc' | hc'
          · exact hc' h5
          · rw [hc'] at hs
            cases hs
      · omega
      · omega
    have hcan4 : CanWrite (c.rules bu on) s4 t.sm c.metaEnd (c.blockSize - c.metaEnd) :=
      h.canWrite hF4 (.inl rfl) (by omega) (by omega) (fun o ho _ => hout4 o ho) fun _ => .inl hp4
    have hbody5 : ∀ b o, Reg t.sm c.metaEnd c.blockSize b o → t.Body c b o := by
      intro b o hx
      obtain ⟨h3, h4, _⟩ := hx
      exact .inl ⟨h3, by omega⟩
    have hB5 : ∀ b' o, ((W b' o ∨ Reg t.sm c.headerSize (c.fileMetaOffset 0) b' o) ∨
        Reg t.sm (c.fileMetaOffset 0) c.metaEnd b' o) ∨ Reg t.sm c.metaEnd c.blockSize b' o →
        t.Body c b' o := fun b' o hw => hw.elim (hB4 b' o) (hbody5 b' o)
    have hC5 : ∀ s', Frame (c.rules bu on) (Reg t.sm c.metaEnd c.blockSize) s4 s' → C s' :=
      fun s' hf => hpre (hF4.join hf) hB5
    refine wp_bind (wp_recast (wp_migrateLb0 hlive4 hcan4 (fun hlo o ho ho' =>
      h.blank hF4 (.inl rfl) ho' (fun _ => .inr ho) (hout4 o ho) hlo) hC5
      fun s5 hf5 hd5 hp5 => ⟨?_, hC5 s5 hf5⟩))
    refine hfinish (hF4.join hf5) hB5 hf5 (fun hs h0 => ?_) ?_ fun _ => hd5
    · rcases hc' with hc' | hc'
      · exact absurd h0 hc'
      · rw [hc'] at hs
        cases hs
    · rcases hp5 with hp5 | hp5
      · exact hp5.trans hp4
      · exact hp5
  · next hc =>
    refine hfinish hF4 hB4 (.refl s4) (fun _ _ => rfl) hp4 fun hc' => ?_
    exact absurd (hc'.imp id hdl0.mp) hc

/-- What a write that is refused may leave: an old file that is marked for deletion
in the scratch metadata block. -/
def Refused (c : Cfg) (r : Rules) (t : Tab) (s s' : Media) : Prop :=
  s' = s ∨ Frame r (Reg t.sm (c.fileMetaOffset 0) c.metaEnd) s s' ∧ s'.pend = some t.sm

/-- Entry `o` of the file table of the scratch metadata block is written, and nothing
else is. -/
def WritesEntry (c : Cfg) (r : Rules) (t : Tab) (o : Nat) (s s' : Media) : Prop :=
  Frame r (Reg t.sm (c.fileMetaOffset o) (c.fileMetaOffset (o + 1))) s s' ∧ s'.pend = some t.sm

theorem WritesEntry.refused {o : Nat} {s' : Media} (h : WritesEntry c (c.rules bu on) t o s s')
    (ho : o < c.maxNumFiles) : Refused c (c.rules bu on) t s s' := by
  refine .inr ⟨h.1.mono fun b p hr => ⟨hr.1, ?_, ?_⟩, h.2⟩
  · exact Nat.le_trans (c.fileMetaOffset_mono (Nat.zero_le o)) hr.2.1
  · exact Nat.lt_of_lt_of_le hr.2.2 (c.fileMetaOffset_mono ho)

theorem Tab.reserve_ne {fid flags maxSize new : Nat} {old : Option Nat} {m : FileMeta} {b : BlockMeta}
    (hr : t.reserve c fid flags maxSize old none = .ok (new, m, b)) :
    (t.fm new).used = false := by
  unfold Tab.reserve at hr
  dsimp only at hr
  split at hr
  · cases hr
  · split at hr
    · next hf =>
      cases hr
      exact (freeIdx_some _ hf).2.2.1
    · cases hr

theorem Tab.lookup_some {fid flags maxSize o : Nat} {reuse : Option (Nat × FileMeta)}
    (hl : t.lookup c fid flags maxSize = .ok (some o, reuse)) :
    t.find c fid = some o ∧ ∀ i m, reuse = some (i, m) → i = o := by
  unfold Tab.lookup at hl
  split at hl
  · next o' ho =>
    split at hl
    · split at hl
      · cases hl
        exact ⟨ho, fun i m hi => by cases hi; rfl⟩
      · cases hl
        exact ⟨ho, fun i m hi => by cases hi⟩
    · cases hl
      exact ⟨ho, fun i m hi => by cases hi; rfl⟩
  · split at hl <;> cases hl

theorem Tab.writeData_eq {fill : Option UInt8} {m m' : FileMeta} {b : BlockMeta}
    {dataSize offset : Nat} {data : Nat → UInt8} {dl : Option (Nat → Option UInt8)}
    (h : t.writeData c fill m b dataSize offset data = .ok (m', dl)) :
    m'.lblock = m.lblock ∧ (dl = none ↔ dataSize = 0) := by
  unfold Tab.writeData at h
  split at h
  · next h0 =>
    cases h
    exact ⟨rfl, iff_of_true rfl h0⟩
  · next h0 =>
    split at h
    · cases h
      exact ⟨rfl, iff_of_false (Option.some_ne_none _) h0⟩
    · cases h

/-- A write after the lookup, which may have marked an old file. -/
theorem wp_fileWriteRest {Q : Except PsaStatus Unit → Ctx → Media → Prop}
    {fid flags maxSize dataSize offset : Nat} {data : Nat → UInt8} {old : Option Nat}
    {reuse : Option (Nat × FileMeta)} {s1 : Media}
    (h : Rep c (c.rules bu on) x s t) (ht : Sane c t) (hfid : fid ≠ 0)
    (hbuf : Buffer c.toConfig dataSize) (hl : t.lookup c fid flags maxSize = .ok (old, reuse))
    (hs1 : s1 = s ∧ (old = none ∨ reuse ≠ none) ∨ ∃ o, old = some o ∧ reuse = none ∧
      Frame (c.rules bu on) (Reg t.sm (c.fileMetaOffset o) (c.fileMetaOffset (o + 1))) s s1 ∧
      s1.HasAll (c.rules bu on) t.sm (c.fileMetaOffset o) (t.fm o).marked.bytes ∧
      s1.pend = some t.sm)
    (hbu : bu → ∀ o new m b, old = some o → reuse = none →
      t.reserve c fid flags maxSize old none = .ok (new, m, b) →
      (dataSize = 0 ∨ m.lblock = 0) ∧ (t.fm o).lblock = 0)
    (hC0 : ∀ s', Counts c (c.rules bu on) s' t → C s')
    (hQr : ∀ e, t.reserve c fid flags maxSize old reuse = .error e → Q (.error e) x s1)
    (hQd : ∀ new m b e, t.reserve c fid flags maxSize old reuse = .ok (new, m, b) →
      t.writeData c (c.rules bu on).fill m b dataSize offset data = .error e → Q (.error e) x s1)
    (hnext : ∀ new m b m' dl t1, t.reserve c fid flags maxSize old reuse = .ok (new, m, b) →
      t.writeData c (c.rules bu on).fill m b dataSize offset data = .ok (m', dl) →
      t.update c (c.rules bu on).fill m'.lblock b (t.table old new m') dl = t1 →
      Next c t t1 ∧ (∀ s', Counts c (c.rules bu on) s' t1 → C s') ∧
      (old.filter (· ≠ new) = none → ∀ x' s', Rep c (c.rules bu on) x' s' t1 → Q (.ok ()) x' s') ∧
      ∀ o, old = some o → o ≠ new → t1.ScanFits c o ∧
        Next c t1 (t1.deleteIdx c (c.rules bu on).fill o) ∧
        (∀ s', Counts c (c.rules bu on) s' (t1.deleteIdx c (c.rules bu on).fill o) → C s') ∧
        ∀ x' s', Rep c (c.rules bu on) x' s' (t1.deleteIdx c (c.rules bu on).fill o) →
          Q (.ok ()) x' s') :
    wp (c.rules bu on) (do
      let (new, m, b) ← fileWriteReserve c fid flags maxSize old reuse
      let (m, b) ← fileWriteData c m b dataSize offset data
      recast .genericError (updateScratchBlockMeta c m.lblock b)
      recast .genericError (fileWriteTable c old new m)
      if m.lblock ≠ 0 ∨ dataSize = 0 then recast .genericError (migrateLb0DataToScratch c)
      metaUpdateFinalize c
      match old with
      | some old => if old ≠ new then deleteIdx c old
      | none => pure ()) x s1 Q C := by
  have hold : ∀ o, old = some o → o < c.maxNumFiles ∧ (t.fm o).used = true := by
    intro o ho
    obtain ⟨h1, h2⟩ := Tab.find_some (Tab.lookup_some (ho ▸ hl)).1
    exact ⟨h1, FileMeta.used_of_id (h2 ▸ hfid)⟩
  have hf0 := c.fileMetaOffset_le
  have hh0 := c.headerSize_le
  have hme := c.metaEnd_le
  have h2 := c.two_le
  have hsm := t.sm_lt
  -- what the lookup wrote
  let W1 : Nat → Nat → Prop := fun b p => reuse = none ∧
    ∃ o, old = some o ∧ Reg t.sm (c.fileMetaOffset o) (c.fileMetaOffset (o + 1)) b p
  have hf1 : Frame (c.rules bu on) W1 s s1 := by
    rcases hs1 with ⟨rfl, _⟩ | ⟨o, ho, hre, hf, _⟩
    · exact .refl s1
    · exact hf.mono fun b p hr => ⟨hre, o, ho, hr⟩
  have hW1 : ∀ b p, W1 b p → b = t.sm ∧ c.fileMetaOffset 0 ≤ p ∧ p < c.metaEnd := by
    intro b p hx
    obtain ⟨_, o, ho, h3, h4, h5⟩ := hx
    have h6 := c.fileMetaOffset_mono (Nat.zero_le o)
    have h7 : c.fileMetaOffset (o + 1) ≤ c.metaEnd := c.fileMetaOffset_mono (hold o ho).1
    exact ⟨h3, by omega, by omega⟩
  have hp1 : bu → s1.pend = some t.sm ∧ (∃ o, old = some o ∧ reuse = none) ∨
      s1.pend = none ∧ ∀ b p, ¬ W1 b p := by
    intro hb
    rcases hs1 with ⟨rfl, hno⟩ | ⟨o, ho, hre, _, _, hp⟩
    · refine .inr ⟨h.clean.pend hb, ?_⟩
      intro b p hx
      obtain ⟨hre, o, ho, _⟩ := hx
      rcases hno with hno | hno
      · rw [hno] at ho
        cases ho
      · exact hno hre
    · exact .inl ⟨hp, o, ho, hre⟩
  have hbody1 : ∀ b p, W1 b p → t.Body c b p := fun b p hw =>
    .inl ⟨(hW1 b p hw).1, by have := (hW1 b p hw).2.1; omega⟩
  have hC1 : C s1 := hC0 _ (h.counts ht (hf1.mono hbody1))
  have hlive1 : Live c bu on x s1 t := by
    refine ⟨ht, by rw [h.ctx], by rw [h.ctx], h.stored.frame ht hf1 fun b o hw =>
      Tab.body_scratch b o (hbody1 b o hw), fun hb b' hb' => .inl ?_⟩
    rcases hp1 hb with hp | hp
    · rw [hp.1] at hb'
      exact (Option.some.inj hb').symm
    · rw [hp.1] at hb'
      cases hb'
  refine wp_bind (wp_fileWriteReserve hlive1 ?_ hC1 ?_)
  · intro i m hre
    subst hre
    exact (ht.fit_reserve hfid hl rfl).2.lblock
  cases hr : t.reserve c fid flags maxSize old reuse with
  | error e => exact ⟨hQr e hr, hC1⟩
  | ok r =>
  obtain ⟨new, m, b⟩ := r
  obtain ⟨hnew, hfit⟩ := ht.fit_reserve hfid hl hr
  dsimp only
  have hsid := ht.scratchId_cases hfit.lblock
  have hscr := Tab.scratchId_scratch (c := c) (t := t) hfit.lblock
  have hlt := hfit.lblock
  have hphy := hfit.phy
  have hstart := hfit.start
  have hidx := hfit.idx
  have hend := hfit.fileEnd
  have hW1s : ∀ p, b.dataStart ≤ p → ¬ W1 (t.scratchId m.lblock) p := by
    intro p hp hw
    have := hW1 _ _ hw
    omega
  have hbodyd : ∀ b' p, Reg (t.scratchId m.lblock) b.dataStart c.blockSize b' p → t.Body c b' p := by
    intro b' p hx
    obtain ⟨h3, h4, _⟩ := hx
    rcases hsid with h5 | h5
    · exact .inl ⟨by omega, by omega⟩
    · exact .inr ⟨h5.2.2.2.1, by omega⟩
  refine wp_bind (wp_fileWriteData hlive1 (by rw [h.ctx]; rfl) hfit hbuf (fun h0 => ?_)
    (fun hlo o ho ho' => ?_) (fun s' hf => ?_) (fun e he => ⟨hQd new m b e hr he, hC1⟩)
    fun m' dl s2 hd hf2 hd2 hno hp2 => ?_)
  · refine h.canWrite hf1 hscr (by omega) (by omega) (fun o h3 _ => hW1s o h3) fun hb => ?_
    rcases hp1 hb with ⟨hp, o, ho, hre⟩ | ⟨hp, hW⟩
    · subst hre
      have := ((hbu hb o new m b ho rfl hr).1.resolve_left h0)
      rw [hp, Tab.scratchId, if_pos this]
      exact .inl rfl
    · exact .inr ⟨hp, fun o => hW _ o⟩
  · exact h.blank hf1 hscr ho' (fun he => by omega) (hW1s o ho) hlo
  · exact hC0 _ (h.counts ht ((hf1.join hf).mono fun b' o hw => hw.elim (hbody1 b' o) (hbodyd b' o)))
  obtain ⟨hlb, hdl0⟩ := Tab.writeData_eq hd
  obtain ⟨hn, hC1', hQ1, hdel⟩ := hnext new m b m' dl _ hr hd rfl
  -- the old file has another entry exactly if that one was not reused
  have hne : ∀ o, old = some o → o ≠ new → reuse = none := by
    intro o ho hon
    cases reuse with
    | none => rfl
    | some im =>
      have him := (Tab.lookup_some (ho ▸ hl)).2 im.1 im.2 rfl
      cases hr
      exact absurd him.symm hon
  have hWd : ∀ b' p, W1 b' p →
      ∃ o, old = some o ∧ o ≠ new ∧ Reg t.sm (c.fileMetaOffset o) (c.fileMetaOffset (o + 1)) b' p := by
    intro b' p hx
    obtain ⟨hre, o, ho, hr'⟩ := hx
    refine ⟨o, ho, fun he => ?_, hr'⟩
    subst hre
    have := Tab.reserve_ne hr
    rw [← he, (hold o ho).2] at this
    cases this
  dsimp only
  rw [← hlb] at hlt hphy hstart hsid hf2 hd2 hp2 ⊢
  refine wp_writeUpdate (W := fun b' p =>
      (∃ o, old = some o ∧ o ≠ new ∧ Reg t.sm (c.fileMetaOffset o) (c.fileMetaOffset (o + 1)) b' p) ∨
      dl.isSome ∧ Reg (t.scratchId m'.lblock) b.dataStart c.blockSize b' p)
    h ht hn hlt hphy hstart hnew (fun o ho => (hold o ho).1) hdl0 ?_
    (fun _ _ hw => hw) (fun hb => ?_) (fun o ho hon => ?_) hd2 hC0 hC1' fun x' s' hrep => ?_
  · cases dl with
    | none =>
      rw [hno rfl]
      exact hf1.mono fun b' p hw => .inl (hWd b' p hw)
    | some d =>
      exact (hf1.mono fun b' p hw => .inl (hWd b' p hw)).step hf2 fun b' p hw => .inr ⟨rfl, hw⟩
  · cases dl with
    | none =>
      rw [hno rfl]
      refine (hp1 hb).imp And.left fun hp => ⟨hp.1, ?_⟩
      intro p hx
      obtain ⟨o, ho, hon, hr'⟩ | ⟨hf, _⟩ := hx
      · exact hp.2 t.sm p ⟨hne o ho hon, o, ho, hr'⟩
      · cases hf
    | some d =>
      rw [hp2 rfl]
      split
      · exact .inl rfl
      · next h0 =>
        refine .inr ⟨rfl, ?_⟩
        intro p hx
        obtain ⟨o, ho, hon, _⟩ | ⟨_, h3, h4, _⟩ := hx
        · -- with a buffer, only data of block 0 is written after the mark
          have hre := hne o ho hon
          subst hre
          rcases (hbu hb o new m b ho rfl hr).1 with h5 | h5
          · have := hdl0.mpr h5
            cases this
          · exact h0 (hlb.trans h5)
        · rcases hsid with h5 | h5
          · exact h0 h5.1
          · omega
  · have hmark : t.table old new m' o = (t.fm o).marked := by
      unfold Tab.table
      rw [if_neg hon, if_pos ho]
      rfl
    rw [hmark]
    rcases hs1 with ⟨_, hno'⟩ | ⟨o', ho', _, _, hm, _⟩
    · rcases hno' with hno' | hno'
      · rw [hno'] at ho
        cases ho
      · exact absurd (hne o ho hon) hno'
    · have : o = o' := Option.some.inj (ho.symm.trans ho')
      subst this
      refine hf2.hasAll ?_ hm
      intro i hi hx
      obtain ⟨h3, h4, _⟩ := hx
      rw [FileMeta.length_bytes] at hi
      have h5 : c.fileMetaOffset o + c.fileMetaSize ≤ c.metaEnd := c.fileMetaOffset_lt (hold o ho).1
      have h6 := c.le_fileMetaSize
      omega
  · cases old with
    | none => exact wp_pure (hQ1 rfl x' s' hrep) (hC1' _ (hrep.counts hn.sane (.refl s')))
    | some o =>
      dsimp only
      split
      · next hon =>
        obtain ⟨hscan, hn2, hC2, hQ2⟩ := hdel o rfl hon
        have hmark : t.table (some o) new m' o = (t.fm o).marked := by
          unfold Tab.table
          rw [if_neg hon, if_pos rfl]
          rfl
        refine wp_deleteIdx hrep hn.sane (hold o rfl).1 ?_ (fun hb => ?_) hscan hn2 hC1' hC2 hQ2
        · show (t.table (some o) new m' o).used = true
          rw [hmark]
          exact (hold o rfl).2
        · show (t.table (some o) new m' o).lblock = 0
          rw [hmark]
          have hre := hne o rfl hon
          subst hre
          exact (hbu hb o new m b rfl rfl hr).2
      · next hon =>
        have hon' : o = new := by simpa using hon
        refine wp_pure (hQ1 ?_ x' s' hrep) (hC1' _ (hrep.counts hn.sane (.refl s')))
        simp [hon']

section Steps

variable {fill : Option UInt8} {fid flags maxSize dataSize offset : Nat} {data : Nat → UInt8}
  {old : Option Nat} {reuse : Option (Nat × FileMeta)} {new : Nat} {m m' : FileMeta}
  {b : BlockMeta} {dl : Option (Nat → Option UInt8)} {e : PsaStatus}

theorem Tab.firstUpdate_ok (hfl : ¬ flags &&& internalFlagsMask ≠ 0)
    (hl : t.lookup c fid flags (c.aligned maxSize) = .ok (old, reuse))
    (hr : t.reserve c fid flags (c.aligned maxSize) old reuse = .ok (new, m, b))
    (hd : t.writeData c fill m b dataSize offset data = .ok (m', dl)) :
    t.firstUpdate c fill fid flags maxSize dataSize offset data =
      .ok (t.update c fill m'.lblock b (t.table old new m') dl, old.filter (· ≠ new)) := by
  unfold Tab.firstUpdate
  simp only [if_neg hfl, hl, bind, Except.bind, hr, hd]
  rfl

theorem Tab.write_flags (hfl : flags &&& internalFlagsMask ≠ 0) :
    t.write c fill fid flags maxSize dataSize offset data = .error .invalidArgument := by
  unfold Tab.write Tab.firstUpdate
  rw [if_pos hfl]
  rfl

theorem Tab.write_lookup (hfl : ¬ flags &&& internalFlagsMask ≠ 0)
    (hl : t.lookup c fid flags (c.aligned maxSize) = .error e) :
    t.write c fill fid flags maxSize dataSize offset data = .error e := by
  unfold Tab.write Tab.firstUpdate
  simp only [if_neg hfl, hl, bind, Except.bind]

theorem Tab.write_reserve (hfl : ¬ flags &&& internalFlagsMask ≠ 0)
    (hl : t.lookup c fid flags (c.aligned maxSize) = .ok (old, reuse))
    (hr : t.reserve c fid flags (c.aligned maxSize) old reuse = .error e) :
    t.write c fill fid flags maxSize dataSize offset data = .error e := by
  unfold Tab.write Tab.firstUpdate
  simp only [if_neg hfl, hl, hr, bind, Except.bind]

theorem Tab.write_data (hfl : ¬ flags &&& internalFlagsMask ≠ 0)
    (hl : t.lookup c fid flags (c.aligned maxSize) = .ok (old, reuse))
    (hr : t.reserve c fid flags (c.aligned maxSize) old reuse = .ok (new, m, b))
    (hd : t.writeData c fill m b dataSize offset data = .error e) :
    t.write c fill fid flags maxSize dataSize offset data = .error e := by
  unfold Tab.write Tab.firstUpdate
  simp only [if_neg hfl, hl, hr, hd, bind, Except.bind]

/-- A write is its first update, and the deletion of the old file. -/
theorem Tab.write_ok {t1 : Tab} {del : Option Nat}
    (h : t.firstUpdate c fill fid flags maxSize dataSize offset data = .ok (t1, del)) :
    t.write c fill fid flags maxSize dataSize offset data =
      .ok (del.elim t1 (t1.deleteIdx c fill)) := by
  unfold Tab.write
  simp only [h, bind, Except.bind]
  cases del <;> rfl

end Steps

theorem wp_fileWrite {Q : Except PsaStatus Unit → Ctx → Media → Prop}
    {fid flags maxSize dataSize offset : Nat} {data : Nat → UInt8}
    (h : Rep c (c.rules bu on) x s t) (ht : Sane c t) (hfid : fid ≠ 0)
    (hbuf : Buffer c.toConfig dataSize)
    (hbu : bu → ∀ o new m b, t.lookup c fid flags (c.aligned maxSize) = .ok (some o, none) →
      t.reserve c fid flags (c.aligned maxSize) (some o) none = .ok (new, m, b) →
      (dataSize = 0 ∨ m.lblock = 0) ∧ (t.fm o).lblock = 0)
    (hn : ∀ t1 del, t.firstUpdate c (c.rules bu on).fill fid flags maxSize dataSize offset data =
      .ok (t1, del) → Next c t t1)
    (hd : ∀ t1 o, t.firstUpdate c (c.rules bu on).fill fid flags maxSize dataSize offset data =
      .ok (t1, some o) → t1.ScanFits c o ∧ Next c t1 (t1.deleteIdx c (c.rules bu on).fill o))
    (hC0 : ∀ s', Counts c (c.rules bu on) s' t → C s')
    (hC1 : ∀ t1 del s', t.firstUpdate c (c.rules bu on).fill fid flags maxSize dataSize offset data =
      .ok (t1, del) → Counts c (c.rules bu on) s' t1 → C s')
    (hC2 : ∀ t' s', t.write c (c.rules bu on).fill fid flags maxSize dataSize offset data = .ok t' →
      Counts c (c.rules bu on) s' t' → C s')
    (hQe : ∀ e s', t.write c (c.rules bu on).fill fid flags maxSize dataSize offset data = .error e →
      Refused c (c.rules bu on) t s s' → Q (.error e) x s')
    (hQ : ∀ x' s' t', t.write c (c.rules bu on).fill fid flags maxSize dataSize offset data = .ok t' →
      Rep c (c.rules bu on) x' s' t' → Q (.ok ()) x' s') :
    wp (c.rules bu on) (fileWrite c fid flags maxSize dataSize offset data) x s Q C := by
  have hpre : ∀ {W : Nat → Nat → Prop} {s' : Media}, Frame (c.rules bu on) W s s' →
      (∀ b o, W b o → t.Body c b o) → C s' := fun hf hW => hC0 _ (h.counts ht (hf.mono hW))
  have hs : C s := hpre (W := fun _ _ => False) (.refl s) fun _ _ hf => hf.elim
  by_cases hfl : flags &&& internalFlagsMask ≠ 0
  · unfold fileWrite
    simp only [if_pos hfl]
    exact wp_bind (wp_throw ⟨hQe _ s (Tab.write_flags hfl) (.inl rfl), hs⟩ hs)
  -- after the lookup
  have hrest : ∀ old reuse s1, t.lookup c fid flags (c.aligned maxSize) = .ok (old, reuse) →
      (s1 = s ∧ (old = none ∨ reuse ≠ none) ∨ ∃ o, old = some o ∧ reuse = none ∧
        Frame (c.rules bu on) (Reg t.sm (c.fileMetaOffset o) (c.fileMetaOffset (o + 1))) s s1 ∧
        s1.HasAll (c.rules bu on) t.sm (c.fileMetaOffset o) (t.fm o).marked.bytes ∧
        s1.pend = some t.sm) →
      wp (c.rules bu on) (do
        let (new, m, b) ← fileWriteReserve c fid flags (c.aligned maxSize) old reuse
        let (m, b) ← fileWriteData c m b dataSize offset data
        recast .genericError (updateScratchBlockMeta c m.lblock b)
        recast .genericError (fileWriteTable c old new m)
        if m.lblock ≠ 0 ∨ dataSize = 0 then recast .genericError (migrateLb0DataToScratch c)
        metaUpdateFinalize c
        match old with
        | some old => if old ≠ new then deleteIdx c old
        | none => pure ()) x s1 Q C := by
    intro old reuse s1 hl hs1
    have hrefused : Refused c (c.rules bu on) t s s1 := by
      rcases hs1 with ⟨rfl, _⟩ | ⟨o, ho, _, hf, _, hp⟩
      · exact .inl rfl
      · exact WritesEntry.refused ⟨hf, hp⟩ (Tab.find_some (Tab.lookup_some (ho ▸ hl)).1).1
    refine wp_fileWriteRest h ht hfid hbuf hl hs1 (fun hb o new m b ho hre hr => ?_) hC0
      (fun e hr => hQe e s1 (Tab.write_reserve hfl hl hr) hrefused)
      (fun new m b e hr hd => hQe e s1 (Tab.write_data hfl hl hr hd) hrefused)
      fun new m b m' dl t1 hr hdat ht1 => ?_
    · subst ho hre
      exact hbu hb o new m b hl hr
    have hfu := Tab.firstUpdate_ok hfl hl hr hdat
    rw [ht1] at hfu
    have hw := Tab.write_ok hfu
    refine ⟨hn t1 _ hfu, fun s' => hC1 t1 _ s' hfu, fun hno x' s' hrep => ?_, fun o ho hon => ?_⟩
    · rw [hno] at hw
      exact hQ x' s' t1 hw hrep
    · have hdel : old.filter (· ≠ new) = some o := by
        rw [ho]
        simp [hon]
      rw [hdel] at hw hfu
      obtain ⟨h1, h2⟩ := hd t1 o hfu
      exact ⟨h1, h2, fun s' => hC2 _ s' hw, fun x' s' => hQ x' s' _ hw⟩
  unfold fileWrite
  simp only [if_neg hfl]
  refine wp_bind (wp_fileWriteLookup (h.live ht) (fun o hl => ?_) (fun s' hf => hpre hf fun _ _ hw => hw)
    (fun hno => ?_) fun o s1 hl ho hf1 hm1 hp1 => ?_)
  · exact h.canWriteEntry (Tab.find_some (Tab.lookup_some hl).1).1
  · cases hl : t.lookup c fid flags (c.aligned maxSize) with
    | error e => exact ⟨hQe e s (Tab.write_lookup hfl hl) (.inl rfl), hs⟩
    | ok r =>
      obtain ⟨old, reuse⟩ := r
      refine hrest old reuse s hl (.inl ⟨rfl, ?_⟩)
      cases old with
      | none => exact .inl rfl
      | some o => exact .inr fun hre => hno o (hre ▸ hl)
  · exact hrest (some o) none s1 hl (.inr ⟨o, rfl, rfl, hf1, hm1, hp1⟩)

theorem wp_fileWriteData_refused {Q : Except PsaStatus (FileMeta × BlockMeta) → Ctx → Media → Prop}
    {m : FileMeta} {b : BlockMeta} {dataSize offset : Nat} {data : Nat → UInt8}
    {fill : Option UInt8} {e : PsaStatus} (hs : C s)
    (hd : t.writeData c fill m b dataSize offset data = .error e) (hQ : Q (.error e) x s) :
    wp (c.rules bu on) (fileWriteData c m b dataSize offset data) x s Q C := by
  unfold Tab.writeData at hd
  unfold fileWriteData
  by_cases h0 : dataSize = 0
  · rw [if_pos h0] at hd
    cases hd
  rw [if_neg h0] at hd ⊢
  by_cases hf : dataFits c m dataSize offset = true
  · rw [if_pos hf] at hd
    cases hd
  · rw [if_neg hf] at hd
    cases hd
    exact wp_bind (wp_recast (wp_fileWriteAlignedData hs (fun _ => ⟨⟨hQ, hs⟩, hs⟩)
      fun hok => absurd hok hf))

/-- A write that is refused, also where the file table of the scratch metadata block
was written before. -/
theorem wp_fileWrite_refused {Q : Except PsaStatus Unit → Ctx → Media → Prop}
    {fid flags maxSize dataSize offset : Nat} {data : Nat → UInt8} {e : PsaStatus}
    (h : Live c bu on x s t) (hfid : fid ≠ 0)
    (hw : t.write c (c.rules bu on).fill fid flags maxSize dataSize offset data = .error e)
    (hcan : flags &&& internalFlagsMask = 0 → ∀ o,
      t.lookup c fid flags (c.aligned maxSize) = .ok (some o, none) →
      CanWrite (c.rules bu on) s t.sm (c.fileMetaOffset o) c.fileMetaSize)
    (hC : ∀ s', Frame (c.rules bu on) (t.Body c) s s' → C s') (hQ : Q (.error e) x s)
    (hQm : flags &&& internalFlagsMask = 0 → ∀ o s',
      t.lookup c fid flags (c.aligned maxSize) = .ok (some o, none) →
      WritesEntry c (c.rules bu on) t o s s' → Q (.error e) x s') :
    wp (c.rules bu on) (fileWrite c fid flags maxSize dataSize offset data) x s Q C := by
  have hs := hC s (.refl s)
  by_cases hfl : flags &&& internalFlagsMask ≠ 0
  · rw [Tab.write_flags hfl] at hw
    cases hw
    unfold fileWrite
    simp only [if_pos hfl]
    exact wp_bind (wp_throw ⟨hQ, hs⟩ hs)
  have hfl0 : flags &&& internalFlagsMask = 0 := by simpa using hfl
  -- after the lookup
  have hrest : ∀ old reuse s1, t.lookup c fid flags (c.aligned maxSize) = .ok (old, reuse) →
      Live c bu on x s1 t → C s1 → Q (.error e) x s1 →
      wp (c.rules bu on) (do
        let (new, m, b) ← fileWriteReserve c fid flags (c.aligned maxSize) old reuse
        let (m, b) ← fileWriteData c m b dataSize offset data
        recast .genericError (updateScratchBlockMeta c m.lblock b)
        recast .genericError (fileWriteTable c old new m)
        if m.lblock ≠ 0 ∨ dataSize = 0 then recast .genericError (migrateLb0DataToScratch c)
        metaUpdateFinalize c
        match old with
        | some old => if old ≠ new then deleteIdx c old
        | none => pure ()) x s1 Q C := by
    intro old reuse s1 hl h1 hs1 hQ1
    refine wp_bind (wp_fileWriteReserve h1 (fun i m hre => ?_) hs1 ?_)
    · subst hre
      exact (h.sane.fit_reserve hfid hl rfl).2.lblock
    cases hr : t.reserve c fid flags (c.aligned maxSize) old reuse with
    | error e' =>
      rw [Tab.write_reserve hfl hl hr] at hw
      cases hw
      exact ⟨hQ1, hs1⟩
    | ok p =>
      obtain ⟨new, m, b⟩ := p
      cases hd : t.writeData c (c.rules bu on).fill m b dataSize offset data with
      | error e' =>
        rw [Tab.write_data hfl hl hr hd] at hw
        cases hw
        exact wp_bind (wp_fileWriteData_refused hs1 hd ⟨hQ1, hs1⟩)
      | ok p =>
        rw [Tab.write_ok (Tab.firstUpdate_ok hfl hl hr hd)] at hw
        cases hw
  unfold fileWrite
  simp only [if_neg hfl]
  refine wp_bind (wp_fileWriteLookup h (hcan hfl0) hC (fun hno => ?_) fun o s1 hl ho hf1 _ hp1 => ?_)
  · cases hl : t.lookup c fid flags (c.aligned maxSize) with
    | error e' =>
      rw [Tab.write_lookup hfl hl] at hw
      cases hw
      exact ⟨hQ, hs⟩
    | ok r =>
      obtain ⟨old, reuse⟩ := r
      exact hrest old reuse s hl h hs hQ
  · exact hrest (some o) none s1 hl (h.sm hf1 (.inr hp1)) (hC s1 (hf1.mono Tab.entry_body))
      (hQm hfl0 o s1 hl ⟨hf1, hp1⟩)

end Write

end Tfm.L4.Its
