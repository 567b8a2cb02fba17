import Tfm.L4Service.ItsSpec

/-!
# Updates of the ITS filesystem

An update writes the scratch blocks, commits with the header of the scratch metadata
block, and erases the blocks that became scratch. This file has the parts of it that
write data, the loop of a deletion, and the commit.

Results: `wp_dblockWriteFile`, `wp_dblockCompactBlock`, `wp_deleteIdxLoop`,
`wp_metaUpdateFinalize`.
-/
namespace Tfm.L4.Its
open Tfm.BlockDev Tfm.Bytes

section Data

variable {c : Cfg} {bu on : Bool} {x : Ctx} {s : Media} {t : Tab} {C : Media → Prop}

/-- A cell that is not written, where cells that are not written are known. -/
theorem has_of_fill {r : Rules} {s : Media} {b o : Nat} {v : UInt8}
    (hb : r.loose = false → s.cell b o = r.blank) (hv : r.fill = some v) : s.Has r b o v := by
  unfold Rules.fill at hv
  split at hv
  · cases hv
  · next hl =>
    have hl' : r.loose = false := by simpa using hl
    have hev := Option.some.inj hv
    unfold Media.Has
    rw [hb hl']
    exact ⟨by simp [Rules.blank, hev], fun h => absurd h hl⟩

/-- Data moves from the block that holds it to a scratch block. -/
theorem wp_moveData {Q : Except PsaStatus Unit → Ctx → Media → Prop}
    {l phy dst doff soff n : Nat} (h : Live c bu on x s t) (hl : l < c.numActiveDblocks)
    (hphy : n = 0 ∨ phy = t.phys l) (hdst : t.Scratch c dst 0)
    (hs : (t.bm l).dataStart ≤ soff) (hsn : soff + n ≤ c.blockSize)
    (hw : CanWrite (c.rules bu on) s dst doff n)
    (hC : ∀ s', Frame (c.rules bu on) (Reg dst doff (doff + n)) s s' → C s')
    (hQ : ∀ s', Frame (c.rules bu on) (Reg dst doff (doff + n)) s s' →
      (∀ i v, i < n → t.data l (soff + i) = some v → s'.Has (c.rules bu on) dst (doff + i) v) →
      s'.pend = (if n = 0 then s.pend else some dst) → Q (.ok ()) x s') :
    wp (c.rules bu on) (blockToBlockMove dst doff phy soff n) x s Q C := by
  by_cases hn : n = 0
  · subst hn
    exact wp_blockToBlockMove_zero (hC s (.refl s))
      (hQ s (.refl s) (fun i v hi => absurd hi (Nat.not_lt_zero i)) rfl)
  · have hp : phy = t.phys l := hphy.resolve_left hn
    have hne : t.phys l ≠ dst := fun he => h.sane.phys_not_scratch hl 0 (he ▸ hdst)
    rw [hp]
    refine wp_blockToBlockMove hne (h.canRead hl hsn) hw hC fun s' hf hc hp' => ?_
    refine hQ s' hf (fun i v hi hv => ?_) hp'
    exact hc i v hi (h.stored.data l hl (soff + i) (by omega) (by omega) v hv).1

theorem wp_migrateLb0 {Q : Except PsaStatus Unit → Ctx → Media → Prop}
    (h : Live c bu on x s t)
    (hw : CanWrite (c.rules bu on) s t.sm c.metaEnd (c.blockSize - c.metaEnd))
    (hb : (c.rules bu on).loose = false → ∀ o, c.metaEnd ≤ o → o < c.blockSize →
      s.cell t.sm o = (c.rules bu on).blank)
    (hC : ∀ s', Frame (c.rules bu on) (Reg t.sm c.metaEnd c.blockSize) s s' → C s')
    (hQ : ∀ s', Frame (c.rules bu on) (Reg t.sm c.metaEnd c.blockSize) s s' →
      (∀ o v, c.metaEnd ≤ o → o < c.blockSize →
        t.moved0 c (c.rules bu on).fill o = some v → s'.Has (c.rules bu on) t.sm o v) →
      (s'.pend = s.pend ∨ s'.pend = some t.sm) → Q (.ok ()) x s') :
    wp (c.rules bu on) (migrateLb0DataToScratch c) x s Q C := by
  have hfree := h.sane.free 0 c.numActiveDblocks_pos
  rw [h.sane.start0] at hfree
  have hbs := c.blockSize_lt
  refine wp_bind (wp_readBlockMetadata h c.numActiveDblocks_pos (hC s (.refl s)) (wp_get ?_))
  rw [h.active, h.scratch, h.sane.start0,
    sub32_of_le (x := c.blockSize) (y := c.metaEnd) (by omega) (by omega),
    sub32_of_le (by omega) (by omega)]
  generalize hn : c.blockSize - c.metaEnd - (t.bm 0).freeSize = n
  have hsub : ∀ b o, Reg t.sm c.metaEnd (c.metaEnd + n) b o →
      Reg t.sm c.metaEnd c.blockSize b o := by
    intro b o hx
    obtain ⟨h1, h2, h3⟩ := hx
    exact ⟨h1, h2, by omega⟩
  refine wp_moveData h c.numActiveDblocks_pos (.inr rfl) (.inl rfl)
    (Nat.le_of_eq h.sane.start0) (by omega) (hw.part (Nat.le_refl _) (by omega))
    (fun s' hf => hC s' (hf.mono hsub)) fun s' hf hd hp => ?_
  refine hQ s' (hf.mono hsub) (fun o v ho ho' hv => ?_) ?_
  · unfold Tab.moved0 at hv
    rw [h.sane.start0] at hv
    split at hv
    · have := hd (o - c.metaEnd) v (by omega)
      rw [Nat.add_sub_cancel' ho] at this
      exact this hv
    · next hr =>
      refine hf.has ?_ (has_of_fill (fun hl => hb hl o ho ho') hv)
      intro hx
      obtain ⟨_, h2, h3⟩ := hx
      omega
  · rw [hp]
    split
    · exact .inl rfl
    · exact .inr rfl

/-- The block that data of `l` is written to. -/
theorem Tab.scratchId_scratch {l : Nat} (hl : l < c.numActiveDblocks) :
    t.Scratch c (t.scratchId l) 0 := by
  unfold Tab.scratchId
  split
  · exact .inl rfl
  · exact .inr ⟨c.two_lt (by omega) hl, rfl⟩

theorem curDataScratchId_eq {l : Nat} (h : Live c bu on x s t)
    (hx : x.header.scratchDblock = t.sd) : curDataScratchId x l = t.scratchId l := by
  unfold curDataScratchId Tab.scratchId
  rw [h.scratch, hx]

theorem wp_dblockWriteFile {Q : Except PsaStatus Unit → Ctx → Media → Prop} {b : BlockMeta}
    {m : FileMeta} {offset size : Nat} {data : Nat → UInt8} (h : Live c bu on x s t)
    (hx : x.header.scratchDblock = t.sd) (hl : m.lblock < c.numActiveDblocks)
    (hstart : b.dataStart = (t.bm m.lblock).dataStart) (hfree : b.freeSize ≤ c.blockSize)
    (hidx : b.dataStart ≤ m.dataIdx) (hend : m.dataIdx + m.maxSize ≤ c.blockSize - b.freeSize)
    (hoff : offset + size ≤ m.maxSize) (hsize : 0 < size)
    (hphy : b.phyId = t.phys m.lblock ∨
      m.dataIdx + offset = b.dataStart ∧ m.dataIdx + m.maxSize = c.blockSize - b.freeSize)
    (hw : CanWrite (c.rules bu on) s (t.scratchId m.lblock) b.dataStart
      (c.blockSize - b.dataStart))
    (hb : (c.rules bu on).loose = false → ∀ o, b.dataStart ≤ o → o < c.blockSize →
      s.cell (t.scratchId m.lblock) o = (c.rules bu on).blank)
    (hC : ∀ s', Frame (c.rules bu on) (Reg (t.scratchId m.lblock) b.dataStart c.blockSize) s s' →
      C s')
    (hQ : ∀ s', Frame (c.rules bu on) (Reg (t.scratchId m.lblock) b.dataStart c.blockSize) s s' →
      (∀ o v, b.dataStart ≤ o → o < c.blockSize →
        rewritten (c.rules bu on).fill (t.data m.lblock) b.dataStart (m.dataIdx + offset) size
          (m.dataIdx + m.maxSize) (c.blockSize - b.freeSize) data o = some v →
        s'.Has (c.rules bu on) (t.scratchId m.lblock) o v) →
      s'.pend = (if m.lblock = 0 then some t.sm else none) → Q (.ok ()) x s') :
    wp (c.rules bu on) (dblockWriteFile c b m offset size data) x s Q C := by
  have hbs := c.blockSize_lt
  have hscr := Tab.scratchId_scratch (c := c) (t := t) hl
  generalize hdst : t.scratchId m.lblock = dst at *
  have hsub : ∀ {lo hi : Nat}, b.dataStart ≤ lo → hi ≤ c.blockSize → ∀ b' o,
      Reg dst lo hi b' o → Reg dst b.dataStart c.blockSize b' o := by
    intro lo hi h1 h2 b' o he
    obtain ⟨h3, h4, h5⟩ := he
    exact ⟨h3, by omega, by omega⟩
  have hlive : ∀ {s' : Media}, Frame (c.rules bu on) (Reg dst b.dataStart c.blockSize) s s' →
      s'.pend = s.pend ∨ s'.pend = some dst → Live c bu on x s' t := by
    intro s' hf hp
    refine h.frame hf (fun b' o hr => hr.1 ▸ hscr) (hp.imp id fun hp b' hb' => ?_)
    rw [hp] at hb'
    exact Option.some.inj hb' ▸ hscr
  refine wp_get ?_
  dsimp only
  rw [curDataScratchId_eq h hx, hdst, add32_of_lt (by omega), add32_of_lt (by omega),
    sub32_of_le (x := c.blockSize) (y := b.freeSize) (by omega) (by omega),
    sub32_of_le (by omega) (by omega), sub32_of_le (by omega) (by omega)]
  generalize hpos : m.dataIdx + offset = pos at *
  generalize hfe : m.dataIdx + m.maxSize = fileEnd at *
  -- the data before the file, and the part of the file before the new data
  have hreg1 : b.dataStart + (pos - b.dataStart) = pos := by omega
  refine wp_bind (wp_moveData h hl (by omega) hscr (Nat.le_of_eq hstart.symm) (by omega)
    (hw.part (Nat.le_refl _) (by omega)) (fun s' hf => hC s' (hf.mono (hsub (by omega) (by omega))))
    fun s1 hf1 hd1 hp1 => ?_)
  rw [hreg1] at hf1
  have hp1' : s1.pend = s.pend ∨ s1.pend = some dst := by
    rw [hp1]
    split
    · exact .inl rfl
    · exact .inr rfl
  -- the new data
  have hlen : ((List.range size).map data).length = size := by simp
  have hcw1 : CanWrite (c.rules bu on) s1 dst pos size := by
    have h0 := hw.part (o := pos) (m := size) (by omega) (by omega)
    refine ⟨h0.block, h0.room, ?_, fun ho i hi => ?_⟩
    · rcases hp1' with hp | hp
      · intro hbu
        rcases h0.opened hbu with h2 | ⟨h2, h3⟩
        · exact .inl (hp.trans h2)
        · by_cases hz : pos - b.dataStart = 0
          · rw [if_pos hz] at hp1
            refine .inr ⟨hp.trans h2, fun o ho => ?_⟩
            rw [hf1.prog dst o (by rintro ⟨_, h4, h5⟩; omega)]
            exact h3 o ho
          · rw [if_neg hz] at hp1
            exact .inl hp1
      · exact fun _ => .inl hp
    · rw [hf1.prog dst (pos + i) (by rintro ⟨_, h4, h5⟩; omega)]
      exact h0.once ho i hi
  refine wp_bind (wp_write (hlen.symm ▸ hcw1) (by omega) ?_ ?_)
  · intro s' hf
    rw [hlen] at hf
    exact hC s' ((hf1.mono (hsub (by omega) (by omega))).step hf (hsub (by omega) (by omega)))
  rw [hlen]
  intro s2 hf2 hd2 hp2
  have hF2 := (hf1.mono (hsub (Nat.le_refl _) (by omega))).step hf2 (hsub (by omega) (by omega))
  -- the data after the file
  have hreg3 : fileEnd + (c.blockSize - b.freeSize - fileEnd) = c.blockSize - b.freeSize := by omega
  have hcw2 : CanWrite (c.rules bu on) s2 dst fileEnd (c.blockSize - b.freeSize - fileEnd) := by
    have h0 := hw.part (o := fileEnd) (m := c.blockSize - b.freeSize - fileEnd) (by omega)
      (by omega)
    refine ⟨h0.block, h0.room, fun _ => .inl hp2, fun ho i hi => ?_⟩
    rw [hf2.prog dst (fileEnd + i) (by rintro ⟨_, h4, h5⟩; omega),
      hf1.prog dst (fileEnd + i) (by rintro ⟨_, h4, h5⟩; omega)]
    exact h0.once ho i hi
  refine wp_bind (wp_moveData (hlive hF2 (.inr hp2)) hl (by omega) hscr (by omega) (by omega) hcw2
    (fun s' hf => hC s' (hF2.step hf (hsub (by omega) (by omega)))) fun s3 hf3 hd3 hp3 => ?_)
  rw [hreg3] at hf3
  have hF3 := hF2.step hf3 (hsub (by omega) (by omega))
  have hp3' : s3.pend = some dst := by
    rw [hp3]
    split
    · exact hp2
    · rfl
  have hdata : ∀ o v, b.dataStart ≤ o → o < c.blockSize →
      rewritten (c.rules bu on).fill (t.data m.lblock) b.dataStart pos size fileEnd
        (c.blockSize - b.freeSize) data o = some v → s3.Has (c.rules bu on) dst o v := by
    intro o v ho ho' hv
    unfold rewritten at hv
    split at hv
    · next hr =>
      have := hd1 (o - b.dataStart) v (by omega)
      rw [Nat.add_sub_cancel' ho] at this
      refine hf3.has ?_ (hf2.has ?_ (this hv))
      · intro he
        obtain ⟨_, h2, h3⟩ := he
        omega
      · intro he
        obtain ⟨_, h2, h3⟩ := he
        omega
    · next hr1 =>
      split at hv
      · next hr =>
        have := hd2 (o - pos) v (by simpa [show o - pos < size by omega] using hv)
        rw [Nat.add_sub_cancel' hr.1] at this
        refine hf3.has ?_ this
        intro he
        obtain ⟨_, h2, h3⟩ := he
        omega
      · next hr2 =>
        split at hv
        · next hr =>
          have := hd3 (o - fileEnd) v (by omega)
          rw [Nat.add_sub_cancel' hr.1] at this
          exact this hv
        · next hr3 =>
          refine hf3.has ?_ (hf2.has ?_ (hf1.has ?_ (has_of_fill (fun hl => hb hl o ho ho') hv)))
          · intro he
            obtain ⟨_, h2, h3⟩ := he
            omega
          · intro he
            obtain ⟨_, h2, h3⟩ := he
            omega
          · intro he
            obtain ⟨_, h2, h3⟩ := he
            omega
  dsimp only
  split
  · next h0 =>
    have hfl : Frame (c.rules bu on) (Reg dst b.dataStart c.blockSize) s { s3 with pend := none } :=
      hF3.trans (.of_cell rfl)
    refine wp_bind (wp_flush (fun _ => ?_) (hC _ hF3) (hC _ hfl) ?_)
    · rw [hp3']
      exact Option.some_ne_none dst
    · refine wp_pure (hQ _ hfl hdata ?_) (hC _ hfl)
      rw [if_neg h0]
  · next h0 =>
    refine wp_pure (hQ s3 hF3 hdata ?_) (hC _ hF3)
    have h00 : m.lblock = 0 := by simpa using h0
    rw [if_pos h00, hp3', ← hdst, Tab.scratchId, if_pos h00]

theorem wp_dblockCompactData {Q : Except PsaStatus Unit → Ctx → Media → Prop} {b : BlockMeta}
    {l src dst nbr : Nat} (h : Live c bu on x s t) (hl : l < c.numActiveDblocks)
    (hphy : b.phyId = t.phys l) (hstart : b.dataStart = (t.bm l).dataStart)
    (hsrc : 0 < nbr → b.dataStart ≤ src ∧ src + nbr ≤ c.blockSize)
    (hdst : b.dataStart ≤ dst) (hdstn : dst + nbr ≤ c.blockSize)
    (hp : bu → s.pend = some (t.scratchId l))
    (hw : CanWrite (c.rules bu on) s (t.scratchId l) b.dataStart (c.blockSize - b.dataStart))
    (hb : (c.rules bu on).loose = false → ∀ o, b.dataStart ≤ o → o < c.blockSize →
      s.cell (t.scratchId l) o = (c.rules bu on).blank)
    (hC : ∀ s', Frame (c.rules bu on) (Reg (t.scratchId l) b.dataStart c.blockSize) s s' → C s')
    (hQ : ∀ s', Frame (c.rules bu on) (Reg (t.scratchId l) b.dataStart c.blockSize) s s' →
      (∀ o v, b.dataStart ≤ o → o < c.blockSize →
        compacted (c.rules bu on).fill (t.data l) b.dataStart src dst nbr o = some v →
        s'.Has (c.rules bu on) (t.scratchId l) o v) →
      (s'.pend = s.pend ∨ s'.pend = some (t.scratchId l)) → Q (.ok ()) x s') :
    wp (c.rules bu on) (dblockCompactData (t.scratchId l) b src dst nbr) x s Q C := by
  have hscr := Tab.scratchId_scratch (c := c) (t := t) hl
  generalize t.scratchId l = sid at *
  have hsub : ∀ {lo hi : Nat}, b.dataStart ≤ lo → hi ≤ c.blockSize → ∀ b' o,
      Reg sid lo hi b' o → Reg sid b.dataStart c.blockSize b' o := by
    intro lo hi h1 h2 b' o hx
    obtain ⟨h3, h4, h5⟩ := hx
    exact ⟨h3, by omega, by omega⟩
  -- the data before the file, after the data behind it
  have hsecond : ∀ s1, Frame (c.rules bu on) (Reg sid dst (dst + nbr)) s s1 →
      (∀ i v, i < nbr → t.data l (src + i) = some v → s1.Has (c.rules bu on) sid (dst + i) v) →
      (s1.pend = s.pend ∨ s1.pend = some sid) →
      wp (c.rules bu on) (if b.dataStart < dst then recast .genericError
          (blockToBlockMove sid b.dataStart b.phyId b.dataStart (dst - b.dataStart))
        else pure ()) x s1 Q C := by
    intro s1 hf1 hd1 hp1
    have hF1 := hf1.mono (hsub hdst hdstn)
    split
    · next hlt =>
      have hreg : b.dataStart + (dst - b.dataStart) = dst := by omega
      have hcw : CanWrite (c.rules bu on) s1 sid b.dataStart (dst - b.dataStart) := by
        refine (hw.part (Nat.le_refl _) (by omega)).kept hf1 ?_ fun hb' => ?_
        · intro i hi hx
          obtain ⟨_, h2, h3⟩ := hx
          omega
        · rcases hp1 with hp1 | hp1
          · exact hp1.trans (hp hb')
          · exact hp1
      have hlive1 := h.frame hf1 (fun b' o hr => hr.1 ▸ hscr) (hp1.imp id fun hp1 b' hb' => by
        rw [hp1] at hb'
        exact Option.some.inj hb' ▸ hscr)
      have hF : ∀ {s' : Media}, Frame (c.rules bu on) (Reg sid b.dataStart dst) s1 s' →
          Frame (c.rules bu on) (Reg sid b.dataStart c.blockSize) s s' := fun hf =>
        hF1.step hf (hsub (Nat.le_refl _) (by omega))
      refine wp_recast (wp_moveData hlive1 hl (.inr hphy) hscr (Nat.le_of_eq hstart.symm) (by omega)
        hcw (fun s' hf => hC s' (hF (hreg ▸ hf))) fun s2 hf2 hd2 hp2 => ?_)
      rw [hreg] at hf2
      refine ⟨hQ s2 (hF hf2) (fun o v ho ho' hv => ?_) ?_, hC s2 (hF hf2)⟩
      · unfold compacted at hv
        split at hv
        · next hr =>
          have := hd1 (o - dst) v (by omega) hv
          rw [Nat.add_sub_cancel' hr.1] at this
          refine hf2.has ?_ this
          intro hx
          obtain ⟨_, h2, h3⟩ := hx
          omega
        · next hr1 =>
          split at hv
          · next hr =>
            have := hd2 (o - b.dataStart) v (by omega)
            rw [Nat.add_sub_cancel' ho] at this
            exact this hv
          · next hr =>
            refine hf2.has ?_ (hf1.has ?_ (has_of_fill (fun hl => hb hl o ho ho') hv))
            · intro hx
              obtain ⟨_, h2, h3⟩ := hx
              omega
            · intro hx
              obtain ⟨_, h2, h3⟩ := hx
              omega
      · rw [hp2, if_neg (by omega)]
        exact .inr rfl
    · next hge =>
      refine wp_pure (hQ s1 hF1 (fun o v ho ho' hv => ?_) hp1) (hC s1 hF1)
      unfold compacted at hv
      split at hv
      · next hr =>
        have := hd1 (o - dst) v (by omega) hv
        rwa [Nat.add_sub_cancel' hr.1] at this
      · next hr1 =>
        rw [if_neg (by omega)] at hv
        refine hf1.has ?_ (has_of_fill (fun hl => hb hl o ho ho') hv)
        intro hx
        obtain ⟨_, h2, h3⟩ := hx
        omega
  unfold dblockCompactData
  dsimp only
  split
  · next hpos =>
    obtain ⟨hsrc1, hsrc2⟩ := hsrc hpos
    have hF : ∀ {s' : Media}, Frame (c.rules bu on) (Reg sid dst (dst + nbr)) s s' →
        Frame (c.rules bu on) (Reg sid b.dataStart c.blockSize) s s' := fun hf =>
      hf.mono (hsub hdst hdstn)
    refine wp_bind (wp_recast (wp_moveData h hl (.inr hphy) hscr (hstart ▸ hsrc1) hsrc2
      (hw.part hdst (by omega)) (fun s' hf => hC s' (hF hf))
      fun s1 hf1 hd1 hp1 => ⟨?_, hC s1 (hF hf1)⟩))
    refine hsecond s1 hf1 hd1 ?_
    rw [hp1, if_neg (by omega)]
    exact .inr rfl
  · next hz => exact hsecond s (.refl s) (fun i v hi => by omega) (.inl rfl)

theorem wp_dblockCompactMeta {Q : Except PsaStatus Unit → Ctx → Media → Prop} {b : BlockMeta}
    {l : Nat} (h : Live c bu on x s t) (hl : l < c.numActiveDblocks) (hbu : bu → l = 0)
    (hw : CanWrite (c.rules bu on) s t.sm c.headerSize (c.fileMetaOffset 0 - c.headerSize))
    (hC : ∀ s', Frame (c.rules bu on) (Reg t.sm c.headerSize (c.fileMetaOffset 0)) s s' → C s')
    (hQ : ∀ s', Frame (c.rules bu on) (Reg t.sm c.headerSize (c.fileMetaOffset 0)) s s' →
      Blocked c (c.rules bu on) s' t (t.blocks l { b with phyId := t.scratchId l }) 0
        c.numActiveDblocks → (bu → s'.pend = some t.sm) →
      Q (.ok ()) (if l ≠ 0 then { x with header := { x.header with scratchDblock := b.phyId } }
        else x) s') :
    wp (c.rules bu on) (dblockCompactMeta c l (t.scratchId l) b) x s Q C := by
  have hlive : Live c bu on
      (if l ≠ 0 then { x with header := { x.header with scratchDblock := b.phyId } } else x) s t := by
    split
    · exact ⟨h.sane, h.active, h.scratch, h.stored, h.pend⟩
    · exact h
  refine wp_modify (wp_bind (wp_attempt (wp_updateScratchBlockMeta hlive hl hw hC
    fun s1 hf1 hb1 hp1 => ⟨?_, hC s1 hf1⟩)))
  dsimp only
  split
  · next h0 =>
    have hfl : Frame (c.rules bu on) (Reg t.sm c.headerSize (c.fileMetaOffset 0)) s
        { s1 with pend := none } := hf1.trans (.of_cell rfl)
    refine wp_bind (wp_flush (fun hb => absurd (hbu hb) h0) (hC _ hf1) (hC _ hfl) ?_)
    refine wp_pure ?_ (hC _ hfl)
    have := hQ _ hfl hb1 fun hb => absurd (hbu hb) h0
    rwa [if_pos h0] at this
  · next h0 =>
    refine wp_pure ?_ (hC _ hf1)
    have := hQ s1 hf1 hb1 fun _ => hp1
    rwa [if_neg h0] at this

end Data

/-! ## The loop of a deletion -/

section Loop

variable {c : Cfg} {bu on : Bool} {x : Ctx} {t : Tab} {C : Media → Prop}

/-- Entries `i` up to `j` of the file table without entry `del`. -/
def Tab.LoopReg (c : Cfg) (t : Tab) (del i j : Nat) : Nat → Nat → Prop := fun b o =>
  Reg t.sm (c.fileMetaOffset i) (c.fileMetaOffset j) b o ∧
    (o < c.fileMetaOffset del ∨ c.fileMetaOffset (del + 1) ≤ o)

theorem wp_deleteIdxLoop {Q : Except PsaStatus (Nat × Nat) → Ctx → Media → Prop}
    {del l d size : Nat} (n : Nat) : ∀ {i src nbr : Nat} {s : Media}, Live c bu on x s t →
    s.pend = some t.sm → i + n ≤ c.maxNumFiles →
    (∀ k, i ≤ k → k < i + n → k ≠ del →
      CanWrite (c.rules bu on) s t.sm (c.fileMetaOffset k) c.fileMetaSize) →
    (∀ s', Frame (c.rules bu on) (t.LoopReg c del i (i + n)) s s' → C s') →
    (∀ s', Frame (c.rules bu on) (t.LoopReg c del i (i + n)) s s' →
      (∀ k, i ≤ k → k < i + n → k ≠ del → s'.HasAll (c.rules bu on) t.sm (c.fileMetaOffset k)
        (shifted l d size (t.fm k)).bytes) →
      s'.pend = some t.sm → Q (.ok (delScan t.fm del l d n i src nbr)) x s') →
    wp (c.rules bu on) (deleteIdxLoop c del l d size n i src nbr) x s Q C := by
  induction n with
  | zero =>
    intro i src nbr s h hp hi hcan hC hQ
    exact wp_pure (hQ s (.refl s) (fun k hk hk' => by omega) hp) (hC s (.refl s))
  | succ n ih =>
    intro i src nbr s h hp hi hcan hC hQ
    have hreg : i + 1 + n = i + (n + 1) := by omega
    have hsub : ∀ b o, t.LoopReg c del (i + 1) (i + 1 + n) b o →
        t.LoopReg c del i (i + (n + 1)) b o := by
      intro b o hx
      obtain ⟨⟨h1, h2, h3⟩, h4⟩ := hx
      have := c.fileMetaOffset_succ i
      rw [hreg] at h3
      exact ⟨⟨h1, by omega, h3⟩, h4⟩
    unfold deleteIdxLoop
    by_cases hd : i = del
    · rw [if_pos hd]
      refine ih h hp (by omega) (fun k hk hk' => hcan k (by omega) (by omega))
        (fun s' hf => hC s' (hf.mono hsub)) fun s' hf hall hp' => ?_
      have := hQ s' (hf.mono hsub) (fun k hk hk' hne => hall k (by omega) (by omega) hne) hp'
      unfold delScan at this
      rwa [if_pos hd] at this
    · rw [if_neg hd]
      have hsub1 : ∀ b o, Reg t.sm (c.fileMetaOffset i) (c.fileMetaOffset (i + 1)) b o →
          t.LoopReg c del i (i + (n + 1)) b o := by
        intro b o hx
        obtain ⟨h1, h2, h3⟩ := hx
        have := c.fileMetaOffset_mono (show i + 1 ≤ i + (n + 1) by omega)
        refine ⟨⟨h1, h2, by omega⟩, ?_⟩
        rcases Nat.lt_or_gt_of_ne hd with hlt | hlt
        · have := c.fileMetaOffset_mono (show i + 1 ≤ del from hlt)
          omega
        · have := c.fileMetaOffset_mono (show del + 1 ≤ i from hlt)
          omega
      refine wp_bind (wp_readFileMeta h (by omega) (hC s (.refl s)) ?_)
      refine wp_bind (wp_updateScratchFileMeta h.scratch (hcan i (Nat.le_refl _) (by omega) hd)
        (fun s' hf => hC s' (hf.mono hsub1)) fun s1 hf1 hm1 hp1 => ?_)
      refine ih (h.sm hf1 (.inr hp1)) hp1 (by omega) (fun k hk hk' hne => ?_)
        (fun s' hf => hC s' ((hf1.mono hsub1).step hf hsub)) fun s' hf hall hp' => ?_
      · refine (hcan k (by omega) (by omega) hne).after hf1 ?_ hp1
        intro j hj hx
        obtain ⟨_, h2, h3⟩ := hx
        have := c.fileMetaOffset_mono hk
        omega
      · have := hQ s' ((hf1.mono hsub1).step hf hsub) (fun k hk hk' hne => ?_) hp'
        · unfold delScan isLater at this
          rwa [if_neg hd] at this
        · by_cases hki : k = i
          · subst hki
            refine hf.hasAll ?_ hm1
            intro j hj hx
            obtain ⟨⟨_, h2, h3⟩, _⟩ := hx
            have h4 := c.fileMetaOffset_succ k
            have h5 := c.le_fileMetaSize
            rw [FileMeta.length_bytes] at hj
            omega
          · exact hall k (by omega) (by omega) hne

end Loop

/-! ## The commit -/

section Commit

variable {c : Cfg} {bu on : Bool} {x : Ctx} {s : Media} {t t1 : Tab} {C : Media → Prop}

/-- A header whose swap count is the erase value is not valid. -/
theorem not_valid_of_erased {h : Header} (he : h.activeSwapCount = c.eraseVal) :
    validateHeaderMeta c h = false := by
  simp [validateHeaderMeta, validateSwapCount, he]

/-- Erased cells are no header. -/
theorem stale_of_blank {r : Rules} (hev : r.ev = c.eraseVal)
    (hb : ∀ o, o < 6 → s.cell t.sm o = r.blank) : Stale c s t := by
  refine ⟨List.replicate 6 c.eraseVal, by simp, fun i v hi => ?_, .inl (not_valid_of_erased rfl)⟩
  rw [List.getElem?_replicate] at hi
  split at hi
  · next h6 =>
    rw [hb i h6]
    simpa [Rules.blank, hev] using hi
  · cases hi

/-- The header of an update is written up to byte `n`: the update counts from its
sixth byte, the swap count, on. -/
theorem stale_of_torn {h : Header} {n : Nat} (hn : n < 6)
    (hb : (c.rules bu on).loose = false ∧
      ∀ o, o < c.headerSize → s.cell t.sm o = (c.rules bu on).blank) :
    Stale c (s.write (c.rules bu on) t.sm 0 ((pad c.headerSize h.bytes).take n)) t := by
  have h8 := c.le_headerSize
  have hlen : ((pad c.headerSize h.bytes).take n).length = n := by
    rw [List.length_take, length_pad (by rw [Header.length_bytes]; omega)]
    omega
  generalize (pad c.headerSize h.bytes).take n = a at *
  refine ⟨a ++ List.replicate (6 - n) c.eraseVal, by simp [hlen]; omega, fun i v hi => ?_,
    .inl (not_valid_of_erased ?_)⟩
  · rw [List.getElem?_append] at hi
    split at hi
    · next hlt =>
      have := (hasAll_write (c.rules bu on) s t.sm 0 a i v hi).1
      rwa [Nat.zero_add] at this
    · next hge =>
      rw [List.getElem?_replicate] at hi
      split at hi
      · have hout : ¬ (0 ≤ i ∧ i < 0 + a.length) := by omega
        simp only [Media.write, if_true, if_neg hout, hb.1, Bool.false_eq_true, false_and, if_false]
        rw [hb.2 i (by omega)]
        exact hi
      · cases hi
  · show (a ++ List.replicate (6 - n) c.eraseVal).getD 5 0 = c.eraseVal
    rw [List.getD_eq_getElem?_getD, List.getElem?_append_right (by omega), List.getElem?_replicate,
      if_pos (by omega)]
    rfl

/-- The new metadata is complete in the scratch metadata block, but for its header. -/
structure Complete (c : Cfg) (r : Rules) (s : Media) (t t1 : Tab) : Prop where
  block : Blocked c r s t t1.bm 0 c.numActiveDblocks
  file : Filed c r s t t1.fm 0 c.maxNumFiles
  data : ∀ l, l < c.numActiveDblocks → ∀ o, (t1.bm l).dataStart ≤ o → o < c.blockSize →
    ∀ v, t1.data l o = some v → s.Has r (t1.phys l) o v

/-- `t1` is the next mounted filesystem after `t`. -/
structure Next (c : Cfg) (t t1 : Tab) : Prop where
  sane : Sane c t1
  active : t1.active = t.sm
  swap : t1.hdr.activeSwapCount = nextSwapCount c t.hdr.activeSwapCount

theorem Next.sm (h : Next c t t1) (ht : Sane c t) : t1.sm = t.active := by
  unfold Tab.sm
  rw [h.active]
  exact ht.other_sm

/-- Of two mounted filesystems, one update apart, a start takes one. -/
theorem Next.latest (h : Next c t t1) : t.Latest c t1.hdr ∨ t1.Latest c t.hdr := by
  have hcases : ∀ h0 h1, latestMetaBlock c h0 h1 = 0 ∨ latestMetaBlock c h0 h1 = 1 := by
    intro h0 h1
    unfold latestMetaBlock
    dsimp only
    generalize (if c.eraseVal = 0 then 1 else 0) = rollover
    split
    · exact .inr rfl
    · split
      · exact .inl rfl
      · split
        · exact .inr rfl
        · exact .inl rfl
  have hact : t1.active = otherMetaBlock t.active := h.active
  unfold Tab.Latest
  rw [hact]
  by_cases h0 : t.active = 0
  · rw [if_pos h0, h0]
    exact hcases t.hdr t1.hdr
  · have h1 : otherMetaBlock t.active = 0 := if_neg h0
    rw [if_neg h0, if_pos h1]
    exact (hcases t1.hdr t.hdr).symm

theorem Complete.stored {r : Rules} {s s' : Media} (h : Complete c r s t t1) (hn : Next c t t1)
    (hf : Frame r (Reg t.sm 0 c.headerSize) s s') (hh : s'.HasAll r t.sm 0 t1.hdr.bytes) :
    Stored c r s' t1 := by
  have hb0 := c.blockMetaOffset_zero
  have hf0 : c.blockMetaOffset 0 ≤ c.fileMetaOffset 0 := by
    rw [← c.blockMetaOffset_active]
    exact c.blockMetaOffset_mono (Nat.zero_le _)
  refine ⟨hn.active ▸ hh, fun l hl => ?_, fun i hi => ?_, fun l hl o ho ho' v hv => ?_⟩
  · rw [hn.active]
    refine hf.hasAll ?_ (h.block l (Nat.zero_le _) hl)
    intro j _ hx
    obtain ⟨_, _, h3⟩ := hx
    have := c.blockMetaOffset_mono (Nat.zero_le l)
    omega
  · rw [hn.active]
    refine hf.hasAll ?_ (h.file i (Nat.zero_le _) hi)
    intro j _ hx
    obtain ⟨_, _, h3⟩ := hx
    have := c.fileMetaOffset_mono (Nat.zero_le i)
    omega
  · refine hf.has ?_ (h.data l hl o ho ho' v hv)
    intro hx
    obtain ⟨h1, _, h3⟩ := hx
    -- the header is not data: block 0 starts behind the metadata, other blocks are elsewhere
    by_cases h0 : l = 0
    · rw [h0, hn.sane.start0] at ho
      have : c.fileMetaOffset 0 ≤ c.metaEnd := c.fileMetaOffset_mono (Nat.zero_le _)
      omega
    · unfold Tab.phys at h1
      rw [if_neg h0] at h1
      have := (hn.sane.phy l (by omega) hl).1
      have := t.sm_lt
      omega

/-- Where the power can be cut while `t` counts. -/
def Counts (c : Cfg) (r : Rules) (s : Media) (t : Tab) : Prop :=
  Stored c r s t ∧ (r.loose = false → Stale c s t)

theorem wp_eraseScratchBlocks {Q : Except PsaStatus Unit → Ctx → Media → Prop} (ht : Sane c t)
    (hx : x = ⟨t.hdr, t.active, t.sm⟩) (hs : Stored c (c.rules bu on) s t) (hs0 : C s)
    (hp : bu → s.pend = none) (hC : ∀ s', Counts c (c.rules bu on) s' t → C s')
    (hQ : ∀ s', Rep c (c.rules bu on) x s' t → Q (.ok ()) x s') :
    wp (c.rules bu on) (eraseScratchBlocks c) x s Q C := by
  have hwm : ∀ b o, Whole t.sm b o → t.Scratch c b o := fun b o hb => .inl hb
  have hstale : ∀ {s' : Media}, (∀ o, s'.cell t.sm o = (c.rules bu on).blank) → Stale c s' t :=
    fun hb => stale_of_blank rfl fun o _ => hb o
  refine wp_get ?_
  subst hx
  refine wp_bind (wp_erase (Nat.lt_of_lt_of_le t.sm_lt c.two_le) (fun hb => ?_) ?_
    fun s1 hf1 hb1 hp1 => ?_)
  · rw [hp hb]
    exact Option.some_ne_none t.sm ∘ Eq.symm
  · intro s' hf he
    obtain rfl | hb := he
    · exact hs0
    · exact hC _ ⟨hs.frame ht hf hwm, fun _ => hstale hb⟩
  have hs1 : Counts c (c.rules bu on) s1 t := ⟨hs.frame ht hf1 hwm, fun _ => hstale hb1⟩
  dsimp only
  split
  · next h2 =>
    have hwd : ∀ b o, Whole t.sd b o → t.Scratch c b o := fun b o hb => .inr ⟨h2, hb⟩
    have hsd := ht.scratch h2
    have hne : t.sm ≠ t.sd := by
      have := t.sm_lt
      omega
    have hsm : ∀ {s' : Media}, Frame (c.rules bu on) (Whole t.sd) s1 s' → ∀ o,
        s'.cell t.sm o = (c.rules bu on).blank := by
      intro s' hf o
      rw [hf.block (fun _ => hne)]
      exact hb1 o
    have hcount : ∀ {s' : Media}, Frame (c.rules bu on) (Whole t.sd) s1 s' →
        Counts c (c.rules bu on) s' t := fun hf =>
      ⟨hs1.1.frame ht hf hwd, fun _ => hstale (hsm hf)⟩
    have hid : curDataScratchId ⟨t.hdr, t.active, t.sm⟩ 1 = t.sd := rfl
    rw [hid]
    refine wp_bind (wp_erase hsd.2 (fun hb => ?_) (fun s' hf _ => hC _ (hcount hf))
      fun s2 hf2 hb2 hp2 => ?_)
    · rw [hp1, hp hb]
      exact Option.some_ne_none t.sd ∘ Eq.symm
    · refine wp_pure (hQ s2 ⟨rfl, (hcount hf2).1, fun o _ _ => hsm hf2 o, fun _ o _ => hb2 o, ?_⟩)
        (hC _ (hcount hf2))
      intro hb
      rw [hp2, hp1, hp hb]
  · next h2 =>
    refine wp_pure (hQ s1 ⟨rfl, hs1.1, fun o _ _ => hb1 o, fun h => absurd h h2, ?_⟩) (hC _ hs1)
    intro hb
    rw [hp1, hp hb]

theorem wp_metaUpdateFinalize {Q : Except PsaStatus Unit → Ctx → Media → Prop}
    (h : Live c bu on x s t) (hn : Next c t t1) (hcomp : Complete c (c.rules bu on) s t t1)
    (hx : x.header = { t1.hdr with activeSwapCount := t.hdr.activeSwapCount })
    (hw : CanWrite (c.rules bu on) s t.sm 0 c.headerSize)
    (hb : (c.rules bu on).loose = false → ∀ o, o < c.headerSize →
      s.cell t.sm o = (c.rules bu on).blank)
    (hC0 : ∀ s', Counts c (c.rules bu on) s' t → C s')
    (hC1 : ∀ s', Counts c (c.rules bu on) s' t1 → C s')
    (hQ : ∀ x' s', Rep c (c.rules bu on) x' s' t1 → Q (.ok ()) x' s') :
    wp (c.rules bu on) (metaUpdateFinalize c) x s Q C := by
  have h8 := c.le_headerSize
  have hlen : (pad c.headerSize t1.hdr.bytes).length = c.headerSize :=
    length_pad (by rw [Header.length_bytes]; omega)
  have hsm1 := hn.sm h.sane
  -- the header after `n` bytes of it were written
  have hframe : ∀ n, Frame (c.rules bu on) (Reg t.sm 0 c.headerSize) s
      (s.write (c.rules bu on) t.sm 0 ((pad c.headerSize t1.hdr.bytes).take n)) := by
    intro n
    apply Frame.write
    · intro o h1 h2
      rw [List.length_take, hlen] at h2
      exact ⟨rfl, h1, by omega⟩
    · exact ⟨0, rfl, Nat.le_refl _, by omega⟩
  -- with both headers valid, what the next start finds depends on their swap counts
  have hboth : ∀ {s' : Media}, Frame (c.rules bu on) (Reg t.sm 0 c.headerSize) s s' →
      s'.HasAll (c.rules bu on) t.sm 0 t1.hdr.bytes → C s' := by
    intro s' hf hh
    have hheld : ∀ {u : Tab}, s'.HasAll (c.rules bu on) u.active 0 u.hdr.bytes →
        ∀ i v, u.hdr.bytes[i]? = some v → (s'.cell u.active i).val = some v := by
      intro u hu i v hi
      have := (hu i v hi).1
      rwa [Nat.zero_add] at this
    have hold : Stored c (c.rules bu on) s' t := h.stored.frame h.sane hf Tab.reg_scratch
    have hnew : Stored c (c.rules bu on) s' t1 := hcomp.stored hn hf hh
    rcases hn.latest with hl | hl
    · refine hC0 _ ⟨hold, fun _ => ⟨t1.hdr.bytes, by simp, hn.active ▸ hheld hnew.hdr, .inr ?_⟩⟩
      rw [Header.ofBytes_bytes hn.sane.hdr_fits]
      exact hl
    · refine hC1 _ ⟨hnew, fun _ => ⟨t.hdr.bytes, by simp, hsm1 ▸ hheld hold.hdr, .inr ?_⟩⟩
      rw [Header.ofBytes_bytes h.sane.hdr_fits]
      exact hl
  have htorn : ∀ n, C (s.write (c.rules bu on) t.sm 0 ((pad c.headerSize t1.hdr.bytes).take n)) := by
    intro n
    by_cases h6 : n < 6
    · refine hC0 _ ⟨h.stored.frame h.sane (hframe n) Tab.reg_scratch, fun hl => ?_⟩
      exact stale_of_torn h6 ⟨hl, hb hl⟩
    · refine hboth (hframe n) fun i v hi => ?_
      have hi6 := (List.getElem?_eq_some_iff.mp hi).1
      rw [Header.length_bytes] at hi6
      refine hasAll_write (c.rules bu on) s t.sm 0 _ i v ?_
      rw [List.getElem?_take, if_pos (by omega)]
      exact pad_getElem? hi
  have htake : (pad c.headerSize t1.hdr.bytes).take c.headerSize = pad c.headerSize t1.hdr.bytes :=
    List.take_of_length_le (Nat.le_of_eq hlen)
  have hfull := htorn c.headerSize
  have hF := hframe c.headerSize
  rw [htake] at hfull hF
  have hall : (s.write (c.rules bu on) t.sm 0 (pad c.headerSize t1.hdr.bytes)).HasAll
      (c.rules bu on) t.sm 0 t1.hdr.bytes := fun i v hi =>
    hasAll_write (c.rules bu on) s t.sm 0 _ i v (pad_getElem? hi)
  have hs : C s :=
    hC0 s ⟨h.stored, fun hl => stale_of_blank rfl fun o ho => hb hl o (by omega)⟩
  refine wp_bind (wp_modify (wp_get ?_))
  have hx' : ({ x with header := { x.header with
      activeSwapCount := nextSwapCount c x.header.activeSwapCount } } : Ctx) =
      ⟨t1.hdr, t.active, t.sm⟩ := by
    rw [hx, h.active.symm, h.scratch.symm, ← hn.swap]
  rw [hx']
  refine wp_bind (wp_call htorn hs ⟨hw.block, hlen.symm ▸ hw.room, hw.opened,
    hlen.symm ▸ hw.once, ?_, hfull⟩)
  refine wp_pure ?_ hfull
  have hfl : Frame (c.rules bu on) (Reg t.sm 0 c.headerSize) s
      { s.write (c.rules bu on) t.sm 0 (pad c.headerSize t1.hdr.bytes) with pend := none } :=
    hF.trans (.of_cell rfl)
  have hmid := hboth hfl hall
  refine wp_bind (wp_flush (fun _ => Option.some_ne_none t.sm) hfull hmid ?_)
  refine wp_modify (wp_eraseScratchBlocks hn.sane ?_ (hcomp.stored hn hfl hall) hmid (fun _ => rfl)
    hC1 (hQ _))
  rw [hn.active, hsm1]

end Commit

end Tfm.L4.Its
