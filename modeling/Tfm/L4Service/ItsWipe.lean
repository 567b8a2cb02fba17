import Tfm.L4Service.ItsMount

/-!
# Making the ITS filesystem

`its_flash_fs_wipe_all` on any device, whatever it holds: the scratch metadata block
is written with the metadata of an empty filesystem.

Results: `Layout.fresh`, the empty filesystem is laid out; `wp_wipeAll`, the device
can be started with it.
-/
namespace Tfm.L4.Its
open Tfm.BlockDev Tfm.Bytes

/-- What `its_flash_fs_wipe_all` makes. The metadata is in block 1, but logical
block 0 is said to be in block 0. -/
def Tab.fresh (c : Cfg) (fill : Option UInt8) : Tab where
  hdr := ⟨c.initScratchDblock, 1, nextSwapCount c (if c.eraseVal = 0 then 1 else 0)⟩
  active := 1
  bm l :=
    if l = 0 then ⟨0, c.metaEnd, c.blockSize - c.metaEnd⟩
    else ⟨l - 1 + c.initDblockStart, 0, c.blockSize⟩
  fm _ := .zero
  data _ _ := fill

section Fresh

variable {c : Cfg} {fill : Option UInt8}

theorem fresh_bm {l : Nat} (hl : 0 < l) :
    (Tab.fresh c fill).bm l = ⟨l - 1 + c.initDblockStart, 0, c.blockSize⟩ := by
  unfold Tab.fresh
  dsimp only
  rw [if_neg (by omega)]

theorem Cfg.dblockStart_of_two_lt (h : 2 < c.numBlocks) :
    c.initDblockStart = 3 ∧ c.initScratchDblock = 2 := by
  unfold Config.initDblockStart Config.initScratchDblock
  rw [if_neg (by omega), if_neg (by omega)]
  exact ⟨rfl, rfl⟩

theorem sane_fresh : Sane c (Tab.fresh c fill) := by
  have hme := c.metaEnd_le
  have hphy : ∀ l, 0 < l → l < c.numActiveDblocks →
      ((Tab.fresh c fill).bm l).phyId = l + 2 ∧ l + 2 < c.numBlocks := by
    intro l h0 hl
    have h2 := c.two_lt h0 hl
    have hn := c.numActiveDblocks_lt h2
    rw [fresh_bm h0, (Cfg.dblockStart_of_two_lt h2).1]
    exact ⟨by dsimp only; omega, by omega⟩
  have hused : ∀ i, ((Tab.fresh c fill).fm i).used = false := fun _ => rfl
  refine
    { active := (by decide : 1 < 2)
      version := rfl
      swap := nextSwapCount_ne c _
      start0 := rfl
      start := fun l h0 _ => by rw [fresh_bm h0]
      free := fun l _ => ?_
      phy0 := (by decide : 0 < 2)
      home := .inr ⟨?_, fun i _ => hused i⟩
      phy := fun l h0 hl => ?_
      inj := fun l k h0 hl h0' hk he => ?_
      scratch := fun h2 => ?_
      apart := fun l h0 hl => ?_
      sd_lt := ?_
      file := fun i _ hu => ?_
      unused := fun i _ _ => rfl }
  · rcases Nat.eq_zero_or_pos l with rfl | h0
    · show c.metaEnd + (c.blockSize - c.metaEnd) ≤ c.blockSize
      omega
    · rw [fresh_bm h0]
      dsimp only
      omega
  · show c.metaEnd + (c.blockSize - c.metaEnd) = c.blockSize
    omega
  · have := hphy l h0 hl
    omega
  · have h1 := (hphy l h0 hl).1
    have h2 := (hphy k h0' hk).1
    omega
  · show 2 ≤ c.initScratchDblock ∧ c.initScratchDblock < c.numBlocks
    rw [(Cfg.dblockStart_of_two_lt h2).2]
    omega
  · rw [(hphy l h0 hl).1]
    show l + 2 ≠ c.initScratchDblock
    rw [(Cfg.dblockStart_of_two_lt (c.two_lt h0 hl)).2]
    omega
  · show c.initScratchDblock < 2 ^ 16
    unfold Config.initScratchDblock
    split <;> omega
  · rw [hused i] at hu
    cases hu

/-- **The empty filesystem is laid out.** -/
theorem Layout.fresh : Layout c (Tab.fresh c fill) none := by
  have hused : ∀ i, ((Tab.fresh c fill).fm i).used = false := fun _ => rfl
  have hme := c.metaEnd_le
  refine
    { sane := sane_fresh
      apart := fun i j _ _ _ hu => by
        rw [hused i] at hu
        cases hu
      cover := fun l o _ h1 h2 => ?_
      distinct := fun i j _ _ hu => by
        rw [hused i] at hu
        cases hu
      flag := fun i _ hu => by
        rw [hused i] at hu
        cases hu
      target := nofun
      spare := fun _ h => ⟨0, h, hused 0⟩ }
  unfold Tab.dataEnd at h2
  rcases Nat.eq_zero_or_pos l with rfl | h0
  · have h3 : c.metaEnd ≤ o := h1
    have h4 : o < c.blockSize - (c.blockSize - c.metaEnd) := h2
    omega
  · rw [fresh_bm h0] at h2
    dsimp only at h2
    omega

end Fresh

/-! ## The loops -/

section Loops

variable {c : Cfg} {bu on : Bool} {t : Tab}

theorem otherMetaBlock_lt (b : Nat) : otherMetaBlock b < 2 := by
  unfold otherMetaBlock
  split <;> decide

theorem wp_initGetActive_any {x : Ctx} {s : Media}
    {Q : Except PsaStatus Unit → Ctx → Media → Prop}
    (hp : (c.rules bu on).buffered → s.pend = none)
    (hQe : ∀ e, Q (.error e) x s)
    (hQ : ∀ x', x'.scratchMetablock < 2 → Q (.ok ()) x' s) :
    wp (c.rules bu on) (initGetActiveMetablock c) x s Q fun _ => True := by
  have hq : ∀ b, (c.rules bu on).buffered → s.pend ≠ some b := by
    intro b hb
    rw [hp hb]
    exact Option.some_ne_none b ∘ Eq.symm
  refine wp_bind (wp_readHeader (by decide) (hq 0) trivial fun l0 _ _ => ?_)
  refine wp_bind (wp_readHeader (by decide) (hq 1) trivial fun l1 _ _ => ?_)
  dsimp only
  split
  · exact wp_throw (hQe _) trivial
  · refine wp_pure (hQ _ ?_) trivial
    exact otherMetaBlock_lt _

theorem wp_eraseDblocks (n : Nat) : ∀ {i : Nat} {x : Ctx} {s : Media}
    {Q : Except PsaStatus Bool → Ctx → Media → Prop}, i + n + c.initDblockStart ≤ c.numBlocks →
    (bu → n = 0 ∨ ∀ b, s.pend = some b → b < c.initDblockStart) →
    (∀ s', Frame (c.rules bu on)
        (fun b _ => i + c.initDblockStart ≤ b ∧ b < i + n + c.initDblockStart) s s' →
      (∀ b o, i + c.initDblockStart ≤ b → b < i + n + c.initDblockStart →
        s'.cell b o = (c.rules bu on).blank) → s'.pend = s.pend → Q (.ok true) x s') →
    wp (c.rules bu on) (eraseDblocks c n i) x s Q fun _ => True := by
  induction n with
  | zero =>
    intro i x s Q _ _ hQ
    exact wp_pure (hQ s (.refl s) (fun b o h1 h2 => by omega) rfl) trivial
  | succ n ih =>
    intro i x s Q hn hp hQ
    have hb : i + c.initDblockStart < (c.rules bu on).blocks := by
      show i + c.initDblockStart < c.numBlocks
      omega
    have hp' : bu → ∀ b, s.pend = some b → b < c.initDblockStart := fun hbu =>
      (hp hbu).resolve_left (Nat.succ_ne_zero n)
    refine wp_bind (wp_attempt (wp_erase hb (fun hbu he => ?_) (fun _ _ _ => trivial)
      fun s1 hf1 hb1 hp1 => ⟨?_, trivial⟩))
    · have := hp' hbu _ he
      omega
    refine wp_bind (ih (by omega) (fun hbu => .inr (hp1 ▸ hp' hbu)) fun s2 hf2 hb2 hp2 => ?_)
    refine wp_pure (hQ s2 ((hf1.mono ?_).step hf2 ?_) (fun b o h1 h2 => ?_) (hp2.trans hp1)) trivial
    · intro b o hw
      have hw : b = i + c.initDblockStart := hw
      omega
    · intro b o hw
      omega
    · by_cases he : b = i + c.initDblockStart
      · subst he
        rw [hf2.block (fun o hw => by omega) o]
        exact hb1 o
      · exact hb2 b o (by omega) (by omega)

theorem wp_resetBlockMetas (fill : Option UInt8) (n : Nat) : ∀ {i : Nat} {x : Ctx} {s : Media}
    {Q : Except PsaStatus Unit → Ctx → Media → Prop}, x.scratchMetablock = t.sm →
    CanWrite (c.rules bu on) s t.sm (c.blockMetaOffset (i + 1))
      (c.blockMetaOffset (i + 1 + n) - c.blockMetaOffset (i + 1)) →
    (∀ s', Frame (c.rules bu on)
        (Reg t.sm (c.blockMetaOffset (i + 1)) (c.blockMetaOffset (i + 1 + n))) s s' →
      Blocked c (c.rules bu on) s' t (Tab.fresh c fill).bm (i + 1) (i + 1 + n) →
      (s'.pend = s.pend ∨ s'.pend = some t.sm) → Q (.ok ()) x s') →
    wp (c.rules bu on) (resetBlockMetas c n i) x s Q fun _ => True := by
  induction n with
  | zero =>
    intro i x s Q _ _ hQ
    exact wp_pure (hQ s (.refl s) (fun k h1 h2 => by omega) (.inl rfl)) trivial
  | succ n ih =>
    intro i x s Q hx hw hQ
    have hstep := c.blockMetaOffset_succ (i + 1)
    have hmono := c.blockMetaOffset_mono (show i + 1 + 1 ≤ i + 1 + (n + 1) by omega)
    refine wp_bind (wp_writeScratchBlockMeta hx (hw.part (Nat.le_refl _) (by omega))
      (fun _ _ => trivial) fun s1 hf1 hd1 hp1 => ?_)
    have hassoc : i + 1 + (n + 1) = i + 1 + 1 + n := by omega
    rw [hassoc] at hw hQ hmono
    have hone : Blocked c (c.rules bu on) s1 t (Tab.fresh c fill).bm (i + 1) (i + 1 + 1) := by
      refine Blocked.one ?_
      rw [fresh_bm (Nat.succ_pos i)]
      exact hd1
    refine ih hx ((hw.part (by omega) (by omega)).after hf1 ?_ hp1) fun s2 hf2 hd2 hp2 => ?_
    · intro k hk h
      obtain ⟨_, _, h3⟩ := h
      omega
    refine hQ s2 ?_ ((hone.frame hf2 (.inl (Nat.le_refl _))).append hd2) (.inr ?_)
    · refine (hf1.mono ?_).step hf2 ?_
      · intro b o h
        obtain ⟨h1, h2, h3⟩ := h
        exact ⟨h1, h2, by omega⟩
      · intro b o h
        obtain ⟨h1, h2, h3⟩ := h
        exact ⟨h1, by omega, h3⟩
    · exact hp2.elim (·.trans hp1) id

theorem wp_resetFileMetas (n : Nat) : ∀ {i : Nat} {x : Ctx} {s : Media}
    {Q : Except PsaStatus Unit → Ctx → Media → Prop}, x.scratchMetablock = t.sm →
    CanWrite (c.rules bu on) s t.sm (c.fileMetaOffset i)
      (c.fileMetaOffset (i + n) - c.fileMetaOffset i) →
    (∀ s', Frame (c.rules bu on) (Reg t.sm (c.fileMetaOffset i) (c.fileMetaOffset (i + n))) s s' →
      Filed c (c.rules bu on) s' t (fun _ => .zero) i (i + n) →
      (s'.pend = s.pend ∨ s'.pend = some t.sm) → Q (.ok ()) x s') →
    wp (c.rules bu on) (resetFileMetas c n i) x s Q fun _ => True := by
  induction n with
  | zero =>
    intro i x s Q _ _ hQ
    exact wp_pure (hQ s (.refl s) (fun k h1 h2 => by omega) (.inl rfl)) trivial
  | succ n ih =>
    intro i x s Q hx hw hQ
    have hstep := c.fileMetaOffset_succ i
    have hmono := c.fileMetaOffset_mono (show i + 1 ≤ i + (n + 1) by omega)
    refine wp_bind (wp_updateScratchFileMeta hx (hw.part (Nat.le_refl _) (by omega))
      (fun _ _ => trivial) fun s1 hf1 hd1 hp1 => ?_)
    have hassoc : i + (n + 1) = i + 1 + n := by omega
    rw [hassoc] at hw hQ hmono
    have hone : Filed c (c.rules bu on) s1 t (fun _ => .zero) i (i + 1) := Filed.one hd1
    refine ih hx ((hw.part (by omega) (by omega)).after hf1 ?_ hp1) fun s2 hf2 hd2 hp2 => ?_
    · intro k hk h
      obtain ⟨_, _, h3⟩ := h
      omega
    refine hQ s2 ?_ ((hone.frame hf2 (.inl (Nat.le_refl _))).append hd2) (.inr ?_)
    · refine (hf1.mono ?_).step hf2 ?_
      · intro b o h
        obtain ⟨h1, h2, h3⟩ := h
        exact ⟨h1, h2, by omega⟩
      · intro b o h
        obtain ⟨h1, h2, h3⟩ := h
        exact ⟨h1, by omega, h3⟩
    · exact hp2.elim (·.trans hp1) id

end Loops

/-! ## The wipe -/

section Wipe

variable {c : Cfg} {bu on : Bool} {x : Ctx} {s : Media}

theorem Cfg.dedicated_cases (c : Cfg) : c.numDedicatedDblocks = 0 ∧ c.initDblockStart = 0 ∨
    c.initDblockStart = 3 ∧ c.numDedicatedDblocks + 3 = c.numBlocks := by
  have hn := c.numBlocks_ok
  unfold Config.numDedicatedDblocks Config.initDblockStart
  rcases hn with h2 | h4
  · rw [if_pos h2, if_pos h2]
    exact .inl ⟨rfl, rfl⟩
  · rw [if_neg (by omega), if_neg (by omega)]
    omega

/-- `its_flash_fs_mblock_reset_metablock` from the first erasure on. -/
theorem wp_reset {Q : Except PsaStatus Unit → Ctx → Media → Prop} {first : Nat}
    (hfirst : first < 2) (hp : (c.rules bu on).buffered → s.pend = none)
    (hQ : ∀ x' s', Startable c (c.rules bu on) s' (Tab.fresh c (c.rules bu on).fill) →
      Q (.ok ()) x' s') :
    wp (c.rules bu on) (do
      let _ ← call (.erase first)
      let _ ← call (.erase (otherMetaBlock first))
      modify fun _ => ⟨⟨c.initScratchDblock, 1, if c.eraseVal = 0 then 1 else 0⟩, 0, 1⟩
      let dataStart := c.fileMetaOffset c.maxNumFiles
      writeScratchBlockMeta c 0 ⟨0, dataStart, c.blockSize - dataStart⟩
      if !(← eraseDblocks c c.numDedicatedDblocks 0) then throw .storageFailure
      recast .genericError (resetBlockMetas c c.numDedicatedDblocks 0)
      recast .genericError (resetFileMetas c c.maxNumFiles 0)
      recast .genericError (writeScratchMetaHeader c)
      let _ ← call .flush
      swapMetablocks) x s Q fun _ => True := by
  have h2 := c.two_le
  have hbs := c.blockSize_lt
  have hh8 := c.le_headerSize
  have hroom := c.header_room
  have hme := c.metaEnd_le
  have hf0 := c.fileMetaOffset_le
  have hbm0 := c.blockMetaOffset_zero
  have hbm1 := c.blockMetaOffset_lt (Nat.zero_lt_one)
  have hact := c.blockMetaOffset_active
  have hbm1' := c.blockMetaOffset_mono (show 1 ≤ c.numActiveDblocks from c.numActiveDblocks_pos)
  have hded := c.dedicated_cases
  have hnum : c.numActiveDblocks = 0 + 1 + c.numDedicatedDblocks := by
    show c.numDedicatedDblocks + 1 = _
    omega
  -- both metadata blocks are erased
  have hq : ∀ b, bu → s.pend ≠ some b := fun b hbu => by
    rw [hp hbu]
    exact Option.some_ne_none b ∘ Eq.symm
  refine wp_bind (wp_erase (Nat.lt_of_lt_of_le hfirst h2) (hq first) (fun _ _ _ => trivial)
    fun s1 hf1 hb1 hp1 => ?_)
  refine wp_bind (wp_erase (Nat.lt_of_lt_of_le (otherMetaBlock_lt first) h2) (hp1 ▸ hq _)
    (fun _ _ _ => trivial) fun s2 hf2 hb2 hp2 => wp_modify ?_)
  have hblank : ∀ b' o, b' < 2 → s2.cell b' o = (c.rules bu on).blank := by
    intro b' o hb'
    by_cases he : b' = otherMetaBlock first
    · rw [he]
      exact hb2 o
    · have hbb : b' = first := by
        unfold otherMetaBlock at he
        split at he <;> omega
      rw [hf2.block (fun o => he) o, hbb]
      exact hb1 o
  -- the scratch metadata block is block 1
  let u : Tab := { Tab.fresh c (c.rules bu on).fill with active := 0 }
  have hu : u.sm = 1 := rfl
  have hw0 : CanWrite (c.rules bu on) s2 u.sm 0 c.blockSize := by
    refine ⟨h2, Nat.le_of_eq (Nat.zero_add _), fun hbu => .inr ⟨?_, fun o _ => ?_⟩, fun _ i _ => ?_⟩
    · rw [hp2, hp1]
      exact hp hbu
    · rw [hu, hblank 1 o (by decide)]
      rfl
    · rw [hu, hblank 1 _ (by decide)]
      rfl
  refine wp_bind (wp_writeScratchBlockMeta (t := u) rfl (hw0.part (Nat.zero_le _) (by omega))
    (fun _ _ => trivial) fun s3 hf3 hd3 hp3 => ?_)
  refine wp_bind (wp_eraseDblocks c.numDedicatedDblocks (by omega) (fun _ => ?_)
    fun s4 hf4 hb4 hp4 => ?_)
  · refine hded.imp And.left fun h3 b' hb' => ?_
    rw [hp3] at hb'
    cases hb'
    omega
  simp only [Bool.not_true, Bool.false_eq_true, if_false]
  -- what is left of the metadata of block 1
  have hout3 : ∀ o, c.blockMetaOffset 1 ≤ o →
      ¬ Reg u.sm (c.blockMetaOffset 0) (c.blockMetaOffset (0 + 1)) u.sm o := by
    intro o ho hx
    obtain ⟨_, _, h3⟩ := hx
    rw [Nat.zero_add] at h3
    omega
  have hout4 : ∀ b' (o : Nat), b' < 2 → ¬ (0 + c.initDblockStart ≤ b' ∧
      b' < 0 + c.numDedicatedDblocks + c.initDblockStart) := by
    intro b' o hb'
    omega
  have hw4 : CanWrite (c.rules bu on) s4 u.sm (c.blockMetaOffset 1)
      (c.blockSize - c.blockMetaOffset 1) := by
    refine (hw0.part (Nat.zero_le _) (by omega)).kept (hf3.join hf4) ?_ fun _ => hp4.trans hp3
    intro i hi hx
    obtain h3 | h4 := hx
    · exact hout3 _ (Nat.le_add_right _ _) h3
    · exact hout4 1 0 (by decide) h4
  refine wp_bind (wp_recast (wp_resetBlockMetas (t := u) (c.rules bu on).fill _ rfl
    (hw4.part (by simp) ?_) fun s5 hf5 hd5 hp5 => ⟨?_, trivial⟩))
  · rw [← hnum, hact, Nat.zero_add]
    omega
  rw [← hnum, Nat.zero_add] at hd5
  rw [← hnum, hact, Nat.zero_add] at hf5
  have hp4' : s4.pend = some u.sm := hp4.trans hp3
  have hp5' : s5.pend = some u.sm := hp5.elim (·.trans hp4') id
  have hw5 : CanWrite (c.rules bu on) s5 u.sm (c.fileMetaOffset 0) (c.blockSize - c.fileMetaOffset 0) := by
    refine (hw4.part (by omega) (by omega)).after hf5 ?_ hp5'
    intro i _ hx
    obtain ⟨_, _, h3⟩ := hx
    omega
  refine wp_bind (wp_recast (wp_resetFileMetas (t := u) _ rfl (hw5.part (Nat.le_refl _) ?_)
    fun s6 hf6 hd6 hp6 => ⟨?_, trivial⟩))
  · rw [Nat.zero_add]
    show c.fileMetaOffset 0 + (c.metaEnd - c.fileMetaOffset 0) ≤ _
    omega
  rw [Nat.zero_add] at hf6 hd6
  have hp6' : s6.pend = some u.sm := hp6.elim (·.trans hp5') id
  -- all that was written, but for the header
  let W : Nat → Nat → Prop := fun b o => b = u.sm ∧ c.headerSize ≤ o ∧ o < c.metaEnd ∨ 3 ≤ b
  have hF : Frame (c.rules bu on) W s2 s6 := by
    refine (((hf3.mono ?_).step hf4 ?_).step hf5 ?_).step hf6 ?_
    · intro b' o hx
      obtain ⟨h3, h4, h5⟩ := hx
      rw [Nat.zero_add] at h5
      exact .inl ⟨h3, by omega, by omega⟩
    · intro b' o hw
      refine .inr ?_
      omega
    · intro b' o hx
      obtain ⟨h3, h4, h5⟩ := hx
      exact .inl ⟨h3, by omega, by omega⟩
    · intro b' o hx
      obtain ⟨h3, h4, h5⟩ := hx
      exact .inl ⟨h3, by omega, h5⟩
  refine wp_bind (wp_recast (wp_modify (wp_get (wp_bind (wp_writeMeta (a := _) ?_ ?_ ?_
    (fun _ _ => trivial) fun s7 hf7 hd7 hp7 => ?_)))))
  · rw [Header.length_bytes]
    omega
  · omega
  · refine (hw0.part (Nat.le_refl _) (by omega)).kept hF ?_ fun _ => hp6'
    intro i hi hx
    obtain ⟨_, h3, _⟩ | h3 := hx
    · omega
    · rw [hu] at h3
      omega
  refine wp_pure ⟨?_, trivial⟩ trivial
  have hp7' : s7.pend = some 1 := hp7
  refine wp_bind (wp_flush (fun _ => ?_) trivial trivial (wp_pure (hQ _ _ ?_) trivial))
  · rw [hp7']
    exact Option.some_ne_none 1
  have hF7 : Frame (c.rules bu on) (fun b o => b = u.sm ∧ o < c.metaEnd ∨ 3 ≤ b) s2 s7 := by
    refine (hF.mono ?_).step hf7 ?_
    · intro b' o hx
      obtain ⟨h3, _, h4⟩ | h3 := hx
      · exact .inl ⟨h3, h4⟩
      · exact .inr h3
    · intro b' o hx
      obtain ⟨h3, _, h4⟩ := hx
      exact .inl ⟨h3, by omega⟩
  have hblock5 : Blocked c (c.rules bu on) s5 u (Tab.fresh c (c.rules bu on).fill).bm 0
      c.numActiveDblocks := by
    have hone : Blocked c (c.rules bu on) s3 u (Tab.fresh c (c.rules bu on).fill).bm 0 1 :=
      Blocked.one hd3
    refine Blocked.append ((hone.keep hf4 fun o _ _ => hout4 1 o (by decide)).keep hf5 ?_) hd5
    intro o _ h3 hx
    obtain ⟨_, h4, _⟩ := hx
    omega
  have hzero : ∀ o, s7.cell 0 o = (c.rules bu on).blank := by
    intro o
    refine (hF7.block (fun o' hw => ?_) o).trans (hblank 0 o (by decide))
    rw [hu] at hw
    omega
  refine ⟨⟨hd7, fun l hl => ?_, fun i hi => ?_, fun l hl o ho ho' v hv => ?_⟩,
    stale_of_blank (r := c.rules bu on) rfl fun o _ => hzero o, fun _ => rfl⟩
  · refine ((hblock5.keep hf6 ?_).keep hf7 ?_) l (Nat.zero_le l) hl
    · intro o _ h3 hx
      obtain ⟨_, h4, _⟩ := hx
      omega
    · intro o h3 _ hx
      obtain ⟨_, _, h4⟩ := hx
      omega
  · refine (hd6.keep hf7 ?_) i (Nat.zero_le i) hi
    intro o h3 _ hx
    obtain ⟨_, _, h4⟩ := hx
    omega
  · refine has_of_fill (fun hlo => ?_) hv
    have hstill : ∀ b' o, ¬ (b' = u.sm ∧ o < c.metaEnd ∨ 3 ≤ b') →
        s7.cell b' o = s2.cell b' o := fun b' o hn => hF7.same b' o hn fun hr => by
      rw [hlo] at hr
      cases hr
    rcases Nat.eq_zero_or_pos l with rfl | h0
    · have ho : c.metaEnd ≤ o := ho
      refine (hstill 1 o ?_).trans (hblank 1 o (by decide))
      omega
    · have hd : ((Tab.fresh c (c.rules bu on).fill).phys l) = l - 1 + c.initDblockStart := by
        unfold Tab.phys
        rw [if_neg (by omega), fresh_bm h0]
      rw [hd]
      have hlast : Frame (c.rules bu on) (fun b _ => b = u.sm) s4 s7 :=
        ((hf5.mono fun _ _ h => h.1).step hf6 fun _ _ h => h.1).step hf7 fun _ _ h => h.1
      refine (hlast.block (fun _ he => ?_) o).trans (hb4 _ o (by omega) (by omega))
      rw [hu] at he
      omega

/-- **A wipe makes the empty filesystem.** -/
theorem wp_wipeAll {Q : Except PsaStatus Unit → Ctx → Media → Prop}
    (hp : (c.rules bu on).buffered → s.pend = none)
    (hQ : ∀ x' s', Startable c (c.rules bu on) s' (Tab.fresh c (c.rules bu on).fill) →
      Q (.ok ()) x' s') :
    wp (c.rules bu on) (wipeAll c) x s Q fun _ => True := by
  refine wp_bind (wp_attempt (wp_initGetActive_any hp (fun e => ⟨?_, trivial⟩)
    fun x' hx' => ⟨?_, trivial⟩))
  · exact wp_reset (Nat.zero_lt_two) hp hQ
  · exact wp_reset hx' hp hQ

end Wipe

end Tfm.L4.Its
