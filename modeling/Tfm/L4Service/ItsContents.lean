import Tfm.L4Service.ItsMount

/-!
# The contents of files in the ITS filesystem

What an update of a mounted filesystem does to the bytes of each file. `Kept` says
that an entry of the file table and the bytes it stands for are what they were.

A deletion finds the bytes to move by their data index. A file of `max_size` 0 has
the data index of the file behind it, which then is not seen as a later file: its
data is not moved, and overwritten by that of files behind it. `DeleteSafe` leaves
this out.

Results: `Layout.kept_deleteIdx`, a deletion keeps the other files; `Target.kept`
and `Target.own`, a write keeps them, and what it makes of its own file.
-/
namespace Tfm.L4.Its
open Tfm.BlockDev Tfm.Bytes

/-! ## What a deletion leaves -/

section Contents

variable {c : Cfg} {t : Tab} {fill : Option UInt8} {i k : Nat}
  {del : Option Nat}

/-- The files behind file `i` start where it ends, and all data behind it is theirs. -/
theorem Layout.scan_later (h : Layout c t del) (hi : i < c.maxNumFiles)
    (hu : (t.fm i).used = true) (hm : (t.fm i).maxSize ≠ 0) (hk : k ∈ t.later c i) {r : Nat × Nat}
    (hr : delScan t.fm i (t.fm i).lblock (t.fm i).dataIdx c.maxNumFiles 0 c.blockSize 0 = r) :
    r.1 = (t.fm i).dataIdx + (t.fm i).maxSize ∧
      r.2 = t.dataEnd c (t.fm i).lblock - ((t.fm i).dataIdx + (t.fm i).maxSize) := by
  have hfi := h.sane.inRange hi hu
  have hbehind : ∀ j ∈ t.later c i, (t.fm i).dataIdx + (t.fm i).maxSize ≤ (t.fm j).dataIdx ∧
      (t.fm j).dataIdx + (t.fm j).maxSize ≤ t.dataEnd c (t.fm i).lblock := by
    intro j hj
    obtain ⟨h1, h2, h3, h4, h5⟩ := mem_later.1 hj
    have hap := h.apart j i h1 hi h2 h4 hu h3
    have hend := (h.sane.inRange h1 h4).fileEnd
    rw [h3] at hend
    unfold Tiles.Apart at hap
    exact ⟨by omega, hend⟩
  -- every byte behind the file is in a later file
  have hcover : ∀ o, (t.fm i).dataIdx + (t.fm i).maxSize ≤ o → o < t.dataEnd c (t.fm i).lblock →
      ∃ j ∈ t.later c i, (t.fm j).dataIdx ≤ o ∧ o < (t.fm j).dataIdx + (t.fm j).maxSize := by
    intro o ho ho'
    have hstart := hfi.start
    obtain ⟨j, h1, h2, h3, h4, h5⟩ := h.cover _ o hfi.lblock (by omega) ho'
    have hne : j ≠ i := by
      intro hx
      subst hx
      omega
    have hap := h.apart j i h1 hi hne h2 hu h3
    unfold Tiles.Apart at hap
    exact ⟨j, mem_later.2 ⟨h1, hne, h3, h2, by omega⟩, h4, h5⟩
  have hap : ∀ j ∈ t.later c i, ∀ k ∈ t.later c i, j ≠ k →
      Tiles.Apart (t.fm j).dataIdx (t.fm j).maxSize (t.fm k).dataIdx (t.fm k).maxSize := by
    intro j hj k hk hne
    obtain ⟨h1, _, h2, h3, _⟩ := mem_later.1 hj
    obtain ⟨h4, _, h5, h6, _⟩ := mem_later.1 hk
    exact h.apart j k h1 h4 hne h3 h6 (h2.trans h5.symm)
  obtain ⟨hsum, _, hmin, hcase⟩ := h.scan i hr
  constructor
  · obtain ⟨j, hj, hsrc⟩ := hcase.resolve_left fun hno => by
      rw [hno.2] at hk
      cases hk
    have hge := (hbehind j hj).1
    by_contra hne
    have hend := (hbehind j hj).2
    obtain ⟨n, hn, h1, h2⟩ := hcover _ (Nat.le_refl _) (by omega)
    have := hmin n hn
    omega
  · rw [hsum]
    exact Tiles.sum_eq hap hbehind hcover

/-- **What a deletion leaves.** The bytes of the files that stay are where their
entries say, unless the deleted file had size 0. -/
theorem Layout.deleteIdx_data (h : Layout c t del) (hi : i < c.maxNumFiles)
    (hu : (t.fm i).used = true) (hk : k < c.maxNumFiles) (hne : k ≠ i)
    (huk : (t.fm k).used = true)
    (hsafe : (t.fm i).maxSize ≠ 0 ∨ ((t.fm k).lblock = (t.fm i).lblock →
      (t.fm i).dataIdx ≤ (t.fm k).dataIdx → (t.fm k).curSize = 0))
    {n : Nat} (hn : n < (t.fm k).curSize) :
    (t.deleteIdx c fill i).data (t.fm k).lblock (((t.deleteIdx c fill i).fm k).dataIdx + n) =
      t.data (t.fm k).lblock ((t.fm k).dataIdx + n) := by
  have hfi := h.sane.inRange hi hu
  have hfk := h.sane.inRange hk huk
  have hcur := hfk.cur
  have hend := hfk.fileEnd
  have hstart := hfk.start
  obtain ⟨hfm, hap⟩ := h.shifted hi hu hk hne huk
  have hidx : ((t.deleteIdx c fill i).fm k).dataIdx = ((t.fm i).closed (t.fm k)).dataIdx := by
    rw [Tab.deleteIdx_fm, if_neg hne, hfm]
  rw [hidx]
  unfold FileMeta.closed Tab.deleteIdx Tab.update
  dsimp only
  generalize hr : delScan t.fm i (t.fm i).lblock (t.fm i).dataIdx c.maxNumFiles 0 c.blockSize 0 = r
  by_cases hl : (t.fm k).lblock = (t.fm i).lblock
  · have hap := hap hl
    have hfis := hfi.start
    rw [if_pos hl, if_pos ⟨hl, rfl⟩]
    unfold Tiles.Apart at hap
    unfold Tiles.close compacted
    dsimp only [Option.getD_some]
    by_cases hlt : (t.fm i).dataIdx < (t.fm k).dataIdx
    · -- a later file moves
      have hm := hsafe.resolve_right fun hno => by
        have := hno hl (Nat.le_of_lt hlt)
        omega
      obtain ⟨h1, h2⟩ := h.scan_later hi hu hm (mem_later.2 ⟨hk, hne, hl, huk, hlt⟩) hr
      rw [hl] at hend
      unfold Tab.dataEnd at h2
      rw [if_pos hlt, if_pos (by omega), hl]
      congr 1
      omega
    · rw [if_neg hlt]
      by_cases heq : (t.fm k).dataIdx = (t.fm i).dataIdx
      · rcases hsafe with hm | hno
        · omega
        · have := hno hl (Nat.le_of_eq heq.symm)
          omega
      · rw [hl] at hstart
        rw [if_neg (by omega), if_pos (by omega), hl]
  · rw [if_neg hl, if_neg fun hh => hl hh.1]
    split
    · next h0 =>
      unfold Tab.moved0
      rw [h0] at hstart hend ⊢
      rw [if_pos (by omega)]
    · rfl

/-- The entry `k` and its contents are what they were. -/
structure Kept (t t' : Tab) (k : Nat) : Prop where
  id : (t'.fm k).id = (t.fm k).id
  cur : (t'.fm k).curSize = (t.fm k).curSize
  size : (t'.fm k).maxSize = (t.fm k).maxSize
  flags : (t'.fm k).flags = (t.fm k).flags
  data : ∀ n, n < (t.fm k).curSize → t'.data (t'.fm k).lblock ((t'.fm k).dataIdx + n) =
    t.data (t.fm k).lblock ((t.fm k).dataIdx + n)

theorem Kept.trans {t t' t'' : Tab} (h : Kept t t' k) (h' : Kept t' t'' k) : Kept t t'' k where
  id := h'.id.trans h.id
  cur := h'.cur.trans h.cur
  size := h'.size.trans h.size
  flags := h'.flags.trans h.flags
  data n hn := (h'.data n (h.cur ▸ hn)).trans (h.data n hn)

/-- A deletion of entry `i` finds the later files: it takes room, or no other file of
its block has contents in its place or behind it. -/
def DeleteSafe (c : Cfg) (t : Tab) (i : Nat) : Prop :=
  (t.fm i).maxSize ≠ 0 ∨ ∀ k, k < c.maxNumFiles → k ≠ i → (t.fm k).used = true →
    (t.fm k).lblock = (t.fm i).lblock → (t.fm i).dataIdx ≤ (t.fm k).dataIdx → (t.fm k).curSize = 0

theorem Layout.kept_one (h : Layout c t del) (hi : i < c.maxNumFiles) (hu : (t.fm i).used = true)
    (hk : k < c.maxNumFiles) (hne : k ≠ i) (huk : (t.fm k).used = true)
    (hsafe : (t.fm i).maxSize ≠ 0 ∨ ((t.fm k).lblock = (t.fm i).lblock →
      (t.fm i).dataIdx ≤ (t.fm k).dataIdx → (t.fm k).curSize = 0)) :
    Kept t (t.deleteIdx c fill i) k := by
  obtain ⟨hfm, _⟩ := h.shifted hi hu hk hne huk
  have hentry : (t.deleteIdx c fill i).fm k = (t.fm i).closed (t.fm k) := by
    rw [Tab.deleteIdx_fm, if_neg hne, hfm]
  refine ⟨?_, ?_, ?_, ?_, fun n hn => ?_⟩
  · rw [hentry]
    rfl
  · rw [hentry]
    rfl
  · rw [hentry]
    rfl
  · rw [hentry]
    rfl
  · have hdata : (t.deleteIdx c fill i).data (t.fm k).lblock
          (((t.deleteIdx c fill i).fm k).dataIdx + n) = t.data (t.fm k).lblock ((t.fm k).dataIdx + n) :=
      h.deleteIdx_data hi hu hk hne huk hsafe hn
    rw [← hdata, hentry]
    rfl

theorem Layout.kept_deleteIdx (h : Layout c t del) (hi : i < c.maxNumFiles)
    (hu : (t.fm i).used = true) (hsafe : DeleteSafe c t i) (hk : k < c.maxNumFiles) (hne : k ≠ i)
    (huk : (t.fm k).used = true) : Kept t (t.deleteIdx c fill i) k :=
  h.kept_one hi hu hk hne huk (hsafe.imp id fun hno => hno k hk hne huk)

end Contents

/-! ## What a write makes -/

section Writes

variable {c : Cfg} {t : Tab} {fill : Option UInt8} {fid flags maxSize dataSize offset new k : Nat}
  {data : Nat → UInt8} {old : Option Nat} {reuse : Option (Nat × FileMeta)} {m m' : FileMeta}
  {b : BlockMeta} {dl : Option (Nat → Option UInt8)}

/-- The place of the file that a write is about: its entry is `new`, and its room is
apart from that of the other files. -/
structure Target (c : Cfg) (t : Tab) (new : Nat) (m : FileMeta) (b : BlockMeta) : Prop where
  fit : Fit c t m b
  apart : ∀ k, k < c.maxNumFiles → k ≠ new → (t.fm k).used = true → (t.fm k).lblock = m.lblock →
    Tiles.Apart (t.fm k).dataIdx (t.fm k).maxSize m.dataIdx m.maxSize
  free : b.freeSize ≤ (t.bm m.lblock).freeSize
  old : m.curSize = 0 ∨ b = t.bm m.lblock

theorem Layout.writeTarget (h : Layout c t none) (hfid : fid ≠ 0)
    (hl : t.lookup c fid flags maxSize = .ok (old, reuse))
    (hr : t.reserve c fid flags maxSize old reuse = .ok (new, m, b)) : Target c t new m b := by
  obtain ⟨_, hfit⟩ := h.sane.fit_reserve hfid hl hr
  cases reuse with
  | some im =>
    obtain ⟨i, mi⟩ := im
    cases hr
    refine ⟨hfit, fun k hk hne hu hlb => ?_, Nat.le_refl _, .inr rfl⟩
    -- the entry has the place of the old file
    obtain ⟨_, hfind, hm, _⟩ := Tab.lookup_reuse hl
    obtain ⟨h1, h2, _⟩ := Tab.find_used hfid hfind
    have h3 : m.lblock = (t.fm new).lblock := by rw [hm]
    have h4 : m.dataIdx = (t.fm new).dataIdx := by rw [hm]
    have h5 : m.maxSize = (t.fm new).maxSize := by rw [hm]
    rw [h4, h5]
    exact h.apart k new hk h1 hne hu h2 (hlb.trans h3)
  | none =>
    unfold Tab.reserve at hr
    dsimp only at hr
    split at hr
    · cases hr
    · split at hr
      · next l i hb hi =>
        cases hr
        refine ⟨hfit, fun k hk _ hu hlb => .inl ?_, Nat.sub_le _ _, .inl rfl⟩
        have hend := (h.sane.inRange hk hu).fileEnd
        rw [hlb] at hend
        exact hend
      · cases hr

theorem Tab.writeData_cases (hd : t.writeData c fill m b dataSize offset data = .ok (m', dl)) :
    m' = { m with curSize := if dataSize = 0 then m.curSize else max m.curSize (offset + dataSize) } ∧
    (dataSize = 0 ∧ dl = none ∨ dataSize ≠ 0 ∧ offset ≤ m.curSize ∧
      offset + c.aligned dataSize ≤ m.maxSize ∧
      dl = some (rewritten fill (t.data m.lblock) b.dataStart (m.dataIdx + offset)
        (c.aligned dataSize) (m.dataIdx + m.maxSize) (c.blockSize - b.freeSize) data)) := by
  unfold Tab.writeData at hd
  split at hd
  · next h0 =>
    cases hd
    exact ⟨by rw [if_pos h0], .inl ⟨h0, rfl⟩⟩
  · next h0 =>
    split at hd
    · next hf =>
      cases hd
      simp only [dataFits, checkContainedIn, Bool.and_eq_true, decide_eq_true_eq] at hf
      exact ⟨by rw [if_neg h0], .inr ⟨h0, hf.1.2, by omega, rfl⟩⟩
    · cases hd

theorem Target.kept_data (h : Target c t new m b) (hl : Layout c t none) {fm : Nat → FileMeta}
    (hd : t.writeData c fill m b dataSize offset data = .ok (m', dl))
    (hk : k < c.maxNumFiles) (hne : k ≠ new) (hu : (t.fm k).used = true) {n : Nat}
    (hn : n < (t.fm k).curSize) :
    (t.update c fill m'.lblock b fm dl).data (t.fm k).lblock ((t.fm k).dataIdx + n) =
      t.data (t.fm k).lblock ((t.fm k).dataIdx + n) := by
  have hfk := hl.sane.inRange hk hu
  have hcur := hfk.cur
  have hend := hfk.fileEnd
  have hstart := hfk.start
  obtain ⟨hm', hdl⟩ := Tab.writeData_cases hd
  have hlb : m'.lblock = m.lblock := by rw [hm']
  rw [hlb]
  unfold Tab.update
  dsimp only
  split
  · next hc =>
    obtain ⟨_, hoff, hroom, rfl⟩ := hdl.resolve_left fun hno => by
      rw [hno.2] at hc
      cases hc.2
    have hap := h.apart k hk hne hu hc.1
    have hbs := h.fit.start
    have hfree := h.free
    unfold Tiles.Apart at hap
    rw [hc.1] at hstart hend
    rw [Option.getD_some, hc.1]
    unfold rewritten
    by_cases hlt : (t.fm k).dataIdx + n < m.dataIdx + offset
    · rw [if_pos (by omega)]
    · rw [if_neg (by omega), if_neg (by omega), if_pos (by omega)]
  · split
    · next h0 =>
      unfold Tab.moved0
      rw [h0] at hstart hend ⊢
      rw [if_pos (by omega)]
    · rfl

theorem Target.kept (h : Target c t new m b) (hl : Layout c t none)
    (hd : t.writeData c fill m b dataSize offset data = .ok (m', dl))
    (hk : k < c.maxNumFiles) (hne : k ≠ new) (hold : old ≠ some k) (hu : (t.fm k).used = true) :
    Kept t (t.update c fill m'.lblock b (t.table old new m') dl) k := by
  have hfm : (t.update c fill m'.lblock b (t.table old new m') dl).fm k = t.fm k :=
    (Tab.table_ne hne).trans (if_neg hold)
  refine ⟨by rw [hfm], by rw [hfm], by rw [hfm], by rw [hfm], fun n hn => ?_⟩
  rw [hfm]
  exact h.kept_data hl hd hk hne hu hn

/-- **What a write makes of its file.** -/
theorem Target.own_data (h : Target c t new m b) (hbuf : Buffer c.toConfig dataSize)
    {fm : Nat → FileMeta} (hd : t.writeData c fill m b dataSize offset data = .ok (m', dl)) {n : Nat}
    (hn : n < m'.curSize) :
    (t.update c fill m'.lblock b fm dl).data m'.lblock (m'.dataIdx + n) =
      if dataSize = 0 ∨ n < offset then t.data m.lblock (m.dataIdx + n)
      else if n < offset + c.aligned dataSize then some (data (n - offset)) else fill := by
  have hidx := h.fit.idx
  have hend := h.fit.fileEnd
  have hcur := h.fit.cur
  have hstart := h.fit.start
  obtain ⟨hm', hdl⟩ := Tab.writeData_cases hd
  have hlb : m'.lblock = m.lblock := by rw [hm']
  have hdi : m'.dataIdx = m.dataIdx := by rw [hm']
  rw [hlb, hdi]
  unfold Tab.update
  dsimp only
  rcases hdl with ⟨h0, rfl⟩ | ⟨h0, hoff, hroom, rfl⟩
  · have hn' : n < m.curSize := by
      rw [hm', if_pos h0] at hn
      exact hn
    have hb := h.old.resolve_left (by omega)
    rw [if_neg (fun hh => nomatch hh.2), if_pos (show dataSize = 0 ∨ n < offset from .inl h0)]
    split
    · next hl0 =>
      unfold Tab.moved0
      rw [hb, hl0] at hend hidx
      rw [hl0, if_pos (by omega)]
    · rfl
  · have hle := (Tab.writeData_file hbuf hcur hd).2.2
    rw [if_pos ⟨rfl, rfl⟩, Option.getD_some]
    unfold rewritten
    by_cases hlt : n < offset
    · rw [if_pos (by omega), if_pos (show dataSize = 0 ∨ n < offset from .inr hlt)]
    · rw [if_neg (by omega), if_neg (show ¬ (dataSize = 0 ∨ n < offset) by omega)]
      by_cases hin : n < offset + c.aligned dataSize
      · rw [if_pos (by omega), if_pos hin]
        congr 2
        omega
      · rw [if_neg (by omega), if_neg (by omega), if_neg hin]

end Writes

end Tfm.L4.Its
