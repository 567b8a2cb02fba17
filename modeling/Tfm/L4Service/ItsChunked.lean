import Tfm.L4Service.ItsService

/-!
# Chunked transfer of the ITS service

What `tfm_its_get` delivers after a `tfm_its_set`, for every size of the asset buffer,
every length of the data, and every part of it.

A `set` replaces an asset of another length by a new file, and deletes the old one in
the same call of the filesystem. The deletion of a file that takes no room does not
move what is behind it in its block, so that an asset of length 0 that is replaced by
data in the same block loses the data of the first chunk. `SetKeeps` leaves this out.

Results: `set_then_get`, when a `get` delivers what was set.
-/
namespace Tfm.L4.Its
open Tfm.BlockDev Tfm.Bytes

/-! ## A set on a mounted filesystem -/

section Pure

variable {c : Cfg} {t u : Tab} {buf : Nat} {f : Fid} {data : Nat → UInt8} {client : UInt32}
  {uid : UInt64} {flags : UInt32} {n : Nat}

/-- The loop of `tfm_its_set` on a mounted filesystem. -/
def Tab.setLoop (c : Cfg) (hb : Buffer c.toConfig buf) (f : Fid) (data : Nat → UInt8) :
    Nat → UInt32 → Nat → Nat → Tab → Except PsaStatus Unit × Tab
  | 0, _, _, _, t => (.ok (), t)
  | fuel + 1, fl, n, off, t =>
    match t.writeArgs c (some c.eraseVal) (chunk c hb f data fl n off) with
    | .error e => (.error e, t)
    | .ok t' =>
      if 0 < n - min n buf then
        Tab.setLoop c hb f data fuel (fl &&& ~~~createFlags) (n - min n buf) (off + min n buf) t'
      else (.ok (), t')

theorem fsWp_setLoop_eq (hb : Buffer c.toConfig buf) (fuel : Nat) :
    ∀ {fl : UInt32} {n off : Nat} {t : Tab} {Q : Except PsaStatus Unit → Tab → Prop},
      Q (Tab.setLoop c hb f data fuel fl n off t).1 (Tab.setLoop c hb f data fuel fl n off t).2 →
      fsWp c (setLoop c buf f.id data fuel fl n off) t Q fun _ => True := by
  induction fuel with
  | zero => exact fun hQ => fsWp_pure hQ trivial
  | succ fuel ih =>
    intro fl n off t Q hQ
    unfold Tab.setLoop at hQ
    refine fsWp_bind (fsWp_fileWrite (a := chunk c hb f data fl n off) trivial (fun t' hw => ?_)
      fun e he => ?_)
    · rw [hw] at hQ
      dsimp only at hQ
      by_cases hmore : 0 < n - min n buf
      · simp only [if_pos hmore] at hQ ⊢
        exact ⟨ih hQ, trivial⟩
      · simp only [if_neg hmore] at hQ ⊢
        exact ⟨fsWp_pure hQ trivial, trivial⟩
    · rw [he] at hQ
      exact ⟨hQ, trivial⟩

/-- What `tfm_its_set` answers on a mounted filesystem, and what it makes of it. -/
def Tab.set (c : Cfg) (hb : Buffer c.toConfig buf) (t : Tab) (client : UInt32) (uid : UInt64)
    (n : Nat) (flags : UInt32) (data : Nat → UInt8) : Except PsaStatus Unit × Tab :=
  if h : uid = 0 then (.error .invalidArgument, t)
  else if flags &&& ~~~supportedFlags ≠ 0 then (.error .notSupported, t)
  else
    match t.info c (getFid client uid) with
    | .ok (.info i) =>
      if i.flags &&& storageFlagWriteOnce.toNat ≠ 0 then (.error .notPermitted, t)
      else Tab.setLoop c hb (assetFid client uid h) data (n + 1) (flags ||| createFlags) n 0 t
    | _ => Tab.setLoop c hb (assetFid client uid h) data (n + 1) (flags ||| createFlags) n 0 t

theorem fsWp_set_eq (hb : Buffer c.toConfig buf) {Q : Except PsaStatus Unit → Tab → Prop}
    (hQ : Q (t.set c hb client uid n flags data).1 (t.set c hb client uid n flags data).2) :
    fsWp c (tfmItsSet c buf client uid n flags data) t Q fun _ => True := by
  unfold Tab.set at hQ
  refine fsWp_tfmItsSet trivial (fun hu => ?_) (fun hu hfl => ?_) (fun i hu hfl hi hw => ?_)
    fun hu hfl hgo => ?_
  · rw [dif_pos hu] at hQ
    exact hQ
  · rw [dif_neg hu, if_pos hfl] at hQ
    exact hQ
  · rw [dif_neg hu, if_neg (not_not.2 hfl), hi] at hQ
    dsimp only at hQ
    rw [if_pos hw] at hQ
    exact hQ
  · rw [dif_neg hu, if_neg (not_not.2 hfl)] at hQ
    refine fsWp_setLoop_eq (f := assetFid client uid hu) hb (n + 1) ?_
    rcases t.info_cases c (getFid client uid) with hi | ⟨i, hi⟩
    · rw [hi] at hQ
      exact hQ
    · rw [hi] at hQ
      dsimp only at hQ
      rw [if_neg (not_not.2 (hgo i hi))] at hQ
      exact hQ

/-! ## The data does not decide -/

/-- The metadata is the same. -/
def SameMeta (t u : Tab) : Prop := ∃ d, u = { t with data := d }

theorem SameMeta.update {fill : Option UInt8} {l : Nat} {b : BlockMeta} {fm : Nat → FileMeta}
    {dl dl' : Option (Nat → Option UInt8)} (h : SameMeta t u) (hdl : dl.isSome = dl'.isSome) :
    SameMeta (t.update c fill l b fm dl) (u.update c fill l b fm dl') := by
  obtain ⟨d, rfl⟩ := h
  refine ⟨(Tab.update c fill { t with data := d } l b fm dl').data, ?_⟩
  unfold Tab.update
  rw [hdl]
  rfl

theorem SameMeta.write {fid fl maxSize dataSize offset : Nat} {fill : Option UInt8}
    {data : Nat → UInt8} {t' : Tab} (h : SameMeta t u) (data' : Nat → UInt8)
    (hw : t.write c fill fid fl maxSize dataSize offset data = .ok t') :
    ∃ u', u.write c fill fid fl maxSize dataSize offset data' = .ok u' ∧ SameMeta t' u' := by
  obtain ⟨t1, del, hup, rfl⟩ := Tab.write_eq hw
  obtain ⟨hfl, old, reuse, new, m, b, m', dl, hl, hr, hd, rfl, rfl⟩ := Tab.firstUpdate_eq hup
  obtain ⟨d, rfl⟩ := h
  have hd' : ∃ dl', Tab.writeData c fill { t with data := d } m b dataSize offset data' =
      .ok (m', dl') ∧ dl.isSome = dl'.isSome := by
    unfold Tab.writeData at hd ⊢
    split at hd
    · next h0 =>
      cases hd
      exact ⟨none, by rw [if_pos h0], rfl⟩
    · next h0 =>
      split at hd
      · next hf =>
        cases hd
        rw [if_neg h0, if_pos hf]
        exact ⟨_, rfl, rfl⟩
      · cases hd
  obtain ⟨dl', hd', hsome⟩ := hd'
  refine ⟨_, Tab.write_ok (Tab.firstUpdate_ok hfl hl hr hd'), ?_⟩
  have h1 : SameMeta (t.update c fill m'.lblock b (t.table old new m') dl)
      (Tab.update c fill { t with data := d } m'.lblock b (t.table old new m') dl') :=
    SameMeta.update ⟨d, rfl⟩ hsome
  cases old.filter (· ≠ new) with
  | none => exact h1
  | some o =>
    obtain ⟨d1, h1⟩ := h1
    exact ⟨(Tab.deleteIdx c fill { t.update c fill m'.lblock b (t.table old new m') dl with
      data := d1 } o).data, congrArg (Tab.deleteIdx c fill · o) h1⟩

theorem SameMeta.setLoop {data data' : Nat → UInt8} (hb : Buffer c.toConfig buf) (fuel : Nat) :
    ∀ {fl : UInt32} {n off : Nat} {t u : Tab}, SameMeta t u →
      (Tab.setLoop c hb f data fuel fl n off t).1 = .ok () →
      (Tab.setLoop c hb f data' fuel fl n off u).1 = .ok () := by
  induction fuel with
  | zero => exact fun _ _ => rfl
  | succ fuel ih =>
    intro fl n off t u h hok
    unfold Tab.setLoop at hok ⊢
    cases hw : t.writeArgs c (some c.eraseVal) (chunk c hb f data fl n off) with
    | error e =>
      rw [hw] at hok
      cases hok
    | ok t' =>
      obtain ⟨u', hw', h'⟩ := h.write (fun k => data' (off + k)) hw
      rw [hw] at hok
      rw [show u.writeArgs c (some c.eraseVal) (chunk c hb f data' fl n off) = .ok u' from hw']
      dsimp only at hok ⊢
      split at hok
      · next hmore =>
        rw [if_pos hmore]
        exact ih h' hok
      · next hmore => rw [if_neg hmore]

theorem Tab.set_ok {data data' : Nat → UInt8} (hb : Buffer c.toConfig buf)
    (hok : (t.set c hb client uid n flags data).1 = .ok ()) :
    (t.set c hb client uid n flags data').1 = .ok () := by
  unfold Tab.set at hok ⊢
  split at hok
  · cases hok
  · split at hok
    · cases hok
    · next hu hfl =>
      rw [dif_neg hu, if_neg hfl]
      split at hok
      · split at hok
        · cases hok
        · next hw =>
          rw [if_neg hw]
          exact SameMeta.setLoop hb _ ⟨t.data, rfl⟩ hok
      · exact SameMeta.setLoop hb _ ⟨t.data, rfl⟩ hok

end Pure

/-! ## The contents after a set -/

section Contents

variable {c : Cfg} {t t' : Tab} {buf : Nat} {f : Fid} {client : UInt32} {uid : UInt64}
  {flags : UInt32} {n fid fl maxSize dataSize o : Nat} {data : Nat → UInt8} {ev : UInt8}

/-- The asset is not replaced, or its deletion leaves the new file alone. -/
def Tab.SetKeeps (c : Cfg) (buf : Nat) (t : Tab) (fid n : Nat) : Prop :=
  ∀ o, t.find c fid = some o → (t.fm o).maxSize ≠ c.aligned n →
    KeepsNew c t o (c.aligned n) (min n buf)

theorem SameTable.setKeeps {u : Tab} (h : SameTable c t u) :
    t.SetKeeps c buf fid n ↔ u.SetKeeps c buf fid n := by
  unfold Tab.SetKeeps KeepsNew
  rw [h.find, freeBlock_congr u.bm _ fun k _ hk => h.bm k (by omega)]
  constructor
  · intro hk o ho
    rw [← h.fm o (Tab.find_some ho).1]
    exact hk o ho
  · intro hk o ho
    rw [h.fm o (Tab.find_some ho).1]
    exact hk o ho

/-- A file of the data `data`, up to `off`. -/
def Tab.Written (c : Cfg) (fid : Nat) (data : Nat → UInt8) (off : Nat) (t : Tab) : Prop :=
  ∃ k, t.find c fid = some k ∧ t.contents k = (List.range off).map data

theorem chunk_appended (hb : Buffer c.toConfig buf) {m off size uflags : Nat} {fl : UInt32}
    (hl : Layout c t none) (hinfo : t.info c f.id = .ok (.info ⟨off, size, uflags⟩))
    (htr : fl.toNat &&& flagTruncate = 0)
    (hw : t.writeArgs c (some c.eraseVal) (chunk c hb f data fl m off) = .ok t') {k : Nat}
    (hk : t.find c f.id = some k) : t'.find c f.id = some k ∧
      t'.contents k = t.contents k ++ (List.range (min m buf)).map fun j => data (off + j) := by
  have hoff : off = (t.fm k).curSize := by
    unfold Tab.info at hinfo
    rw [hk] at hinfo
    simp only [Except.ok.injEq, Answer.info.injEq, FileInfo.mk.injEq] at hinfo
    exact hinfo.1.symm
  obtain ⟨h1, h2, _⟩ := hl.contents_appended (chunk c hb f data fl m off).args hk htr hoff hw
  exact ⟨h1, h2⟩

/-- **A set writes its data**, if the deletion of the old file leaves the new one alone. -/
theorem fsWp_set_written (hb : Buffer c.toConfig buf) (hpos : 0 < buf)
    (hkeep : t.SetKeeps c buf (getFid client uid) n) :
    fsWp c (tfmItsSet c buf client uid n flags data) t
      (fun r u => r = .ok () → uid ≠ 0 ∧ u.Written c (getFid client uid) data n) fun _ => True := by
  refine fsWp_tfmItsSet trivial (fun _ => nofun) (fun _ _ => nofun) (fun _ _ _ _ _ => nofun)
    fun hu hfl _ => ?_
  refine fsWp_setFile (f := assetFid client uid hu) hb hpos hfl
    (I := fun off u => u.Written c (getFid client uid) data off) trivial (fun _ _ _ => trivial)
    (fun u hl hw => ?_) (fun fl m off u u' hl hI hinfo htr hw => ?_) (fun u hI _ _ => ⟨hu, hI⟩)
    (fun _ _ => nofun) fun _ _ _ _ => nofun
  · obtain ⟨k, hk, hc⟩ := hl.contents_created
      (chunk c hb (assetFid client uid hu) data (flags ||| createFlags) n 0).args
        (.inr (first_truncates flags)) hkeep hw
    refine ⟨k, hk, hc.trans (List.map_congr_left fun j _ => ?_)⟩
    exact congrArg data (Nat.zero_add j)
  · obtain ⟨k, hk, hc⟩ := hI
    obtain ⟨hk', hc'⟩ := chunk_appended hb hl hinfo htr hw hk
    refine ⟨k, hk', ?_⟩
    rw [hc', hc, List.range_add, List.map_append, List.map_map]
    rfl

theorem writeData_tail {m m' : FileMeta} {b : BlockMeta} {dl : Option (Nat → Option UInt8)}
    {fm : Nat → FileMeta}
    (hd : t.writeData c (some ev) m b dataSize 0 data = .ok (m', dl)) (hn : dataSize ≠ 0)
    (hdata : ∀ k, dataSize ≤ k → data k = ev) {p : Nat} (h1 : dataSize ≤ p) (h2 : p < m.maxSize) :
    (t.update c (some ev) m'.lblock b fm dl).data m'.lblock (m.dataIdx + p) = some ev := by
  obtain ⟨hm', hdl⟩ := Tab.writeData_cases hd
  obtain ⟨_, _, _, rfl⟩ := hdl.resolve_left fun hno => hn hno.1
  have hlb : m'.lblock = m.lblock := by rw [hm']
  unfold Tab.update
  dsimp only
  rw [hlb, if_pos ⟨rfl, rfl⟩, Option.getD_some]
  unfold rewritten
  rw [if_neg (by omega)]
  split
  · rw [hdata _ (by omega)]
  · rw [if_neg (by omega)]

/-- What a deletion moves to a place was behind it. -/
theorem Layout.deleteIdx_behind {del : Option Nat} (hl : Layout c t del) {pos : Nat}
    (hpos : (t.fm o).dataIdx ≤ pos)
    (htail : ∀ q, pos < q → q < t.dataEnd c (t.fm o).lblock →
      t.data (t.fm o).lblock q = some ev) :
    (t.deleteIdx c (some ev) o).data (t.fm o).lblock pos = some ev := by
  unfold Tab.deleteIdx Tab.update
  dsimp only
  generalize hr : delScan t.fm o (t.fm o).lblock (t.fm o).dataIdx c.maxNumFiles 0 c.blockSize 0 = r
  rw [if_pos ⟨rfl, rfl⟩, Option.getD_some]
  unfold compacted
  by_cases hin : pos < (t.fm o).dataIdx + r.2
  · rw [if_pos ⟨hpos, hin⟩]
    obtain ⟨hsum, hle, _, hcase⟩ := hl.scan o hr
    -- what moves to the place lies behind it
    have hsrc : (t.fm o).dataIdx < r.1 := by
      rcases hcase with ⟨_, hemp⟩ | ⟨k, hk, he⟩
      · rw [hemp, Finset.sum_empty] at hsum
        omega
      · have := (mem_later.1 hk).2.2.2.2
        omega
    exact htail _ (by omega) (by omega)
  · rw [if_neg fun hh => hin hh.2, if_neg (by omega)]

/-- **An empty file that is replaced in its block** loses the data of the new one: its
last byte is one that was erased, or one behind the data. -/
theorem Layout.contents_lost (hl : Layout c t none) (ha : Args c.toConfig fid fl dataSize)
    (hf : t.find c fid = some o) (htr : fl &&& flagTruncate ≠ 0)
    (hsize : (t.fm o).maxSize ≠ c.aligned maxSize) (hz : (t.fm o).maxSize = 0) (hn : dataSize ≠ 0)
    (hblock : freeBlock t.bm (c.aligned maxSize) c.numActiveDblocks 0 = some (t.fm o).lblock)
    (hdata : ∀ k, dataSize ≤ k → data k = ev)
    (hw : t.write c (some ev) fid fl maxSize dataSize 0 data = .ok t') :
    ∃ k, t'.find c fid = some k ∧ (t'.contents k)[dataSize - 1]? = some ev := by
  have hlk : t.lookup c fid fl (c.aligned maxSize) = .ok (some o, none) := by
    unfold Tab.lookup
    rw [hf]
    dsimp only
    rw [if_pos htr, if_neg hsize]
  obtain ⟨ho, hou, hoid⟩ := Tab.find_used ha.valid hf
  have hl' := hl.write ha hw
  obtain ⟨new, m, b, m', dl, hr, hd, hu, rfl⟩ :=
    Tab.write_new hlk (fun o' ho' => by cases ho'; exact hou) hw
  obtain ⟨hnew, hunused, h0, hmax, _, hid, hlb⟩ := Tab.reserve_new hr
  have hlb : m.lblock = (t.fm o).lblock := Option.some.inj (hlb.symm.trans hblock)
  obtain ⟨hidx, hroom, hb⟩ := Tab.reserve_place hr
  have hT := hl.writeTarget ha.valid hlk hr
  have hl1 := hl.firstUpdate ha hu
  obtain ⟨hm', hdl⟩ := Tab.writeData_cases hd
  obtain ⟨_, _, hin, _⟩ := hdl.resolve_left fun hno => hn hno.1
  have hlb' : m'.lblock = m.lblock := by rw [hm']
  have hcur : m'.curSize = dataSize := by
    rw [hm']
    dsimp only
    rw [if_neg hn]
    omega
  have hno : new ≠ o := by
    intro h
    subst h
    rw [hunused] at hou
    cases hou
  -- the first update: the new file is behind all data, the old one is in front of it
  have hself : (t.update c (some ev) m'.lblock b (t.table (some o) new m') dl).fm new = m' :=
    Tab.table_self
  have hmark : (t.update c (some ev) m'.lblock b (t.table (some o) new m') dl).fm o =
      (t.fm o).marked := (Tab.table_ne hno.symm).trans (if_pos rfl)
  have hfile := (hl.sane.inRange ho hou).fileEnd
  have hfree := hl.sane.free m.lblock hT.fit.lblock
  have hend1 : (t.update c (some ev) m'.lblock b (t.table (some o) new m') dl).dataEnd c
      m.lblock = m.dataIdx + m.maxSize := by
    unfold Tab.dataEnd Tab.update at *
    dsimp only
    rw [hlb', if_pos rfl, hb]
    dsimp only
    omega
  have hpos : (t.fm o).dataIdx ≤ m.dataIdx := by
    rw [hidx, hlb]
    unfold Tab.dataEnd
    omega
  have htail : ∀ q, m.dataIdx + (dataSize - 1) < q → q < m.dataIdx + m.maxSize →
      (t.update c (some ev) m'.lblock b (t.table (some o) new m') dl).data m.lblock q = some ev := by
    intro q h1 h2
    have hq := (writeData_tail hd hn hdata (show dataSize ≤ q - m.dataIdx by omega) (by omega) :
      (t.update c (some ev) m'.lblock b (t.table (some o) new m') dl).data _ _ = _)
    rw [Nat.add_sub_of_le (by omega)] at hq
    rwa [← hlb']
  have hused : m'.used = true := FileMeta.used_of_id (by
    rw [hm']
    exact hid ▸ ha.valid)
  revert hl' hl1 hself hmark hend1 htail
  generalize t.update c (some ev) m'.lblock b (t.table (some o) new m') dl = t1
  intro hl' hl1 hself hmark hend1 htail
  -- the deletion of a file of size 0 moves no entry
  have hentry : (t1.deleteIdx c (some ev) o).fm new = m' := by
    rw [Tab.deleteIdx_fm, if_neg hno, (hl1.shifted ho (by rw [hmark]; exact hou) hnew hno
      (by rw [hself]; exact hused)).1, hmark, hself]
    unfold FileMeta.closed Tiles.close
    rw [show (t.fm o).marked.maxSize = 0 from hz, Nat.sub_zero, ite_self, ite_self]
  have hbyte : (t1.deleteIdx c (some ev) o).data m.lblock (m.dataIdx + (dataSize - 1)) =
      some ev := by
    have hmlb : (t1.fm o).lblock = m.lblock := by
      rw [hmark, hlb]
      rfl
    rw [← hmlb]
    refine hl1.deleteIdx_behind ?_ fun q h1 h2 => ?_
    · rw [hmark]
      exact Nat.le_trans hpos (Nat.le_add_right _ _)
    · rw [hmlb] at h2 ⊢
      exact htail q h1 (hend1 ▸ h2)
  refine ⟨new, hl'.find_eq ha.valid hnew ?_, ?_⟩
  · exact (congrArg FileMeta.id hentry).trans ((congrArg FileMeta.id hm').trans hid)
  · have hdi : m'.dataIdx = m.dataIdx := by rw [hm']
    change ((t1.deleteIdx c (some ev) o).contents new)[dataSize - 1]? = some ev
    rw [Tab.contents_getElem? (by rw [hentry, hcur]; omega), hentry, hlb', hdi, hbyte]
    rfl

/-- **A set that does not keep its data**: the last byte of the first chunk is lost. -/
theorem fsWp_set_lost (hb : Buffer c.toConfig buf) (hpos : 0 < buf)
    (hkeep : ¬ t.SetKeeps c buf (getFid client uid) n)
    (hdata : ∀ k, min n buf ≤ k → data k = c.eraseVal) :
    fsWp c (tfmItsSet c buf client uid n flags data) t
      (fun r u => r = .ok () → 0 < min n buf ∧ ∃ k, u.find c (getFid client uid) = some k ∧
        (u.contents k)[min n buf - 1]? = some c.eraseVal) fun _ => True := by
  obtain ⟨o, ho, hsize, hlost⟩ : ∃ o, t.find c (getFid client uid) = some o ∧
      (t.fm o).maxSize ≠ c.aligned n ∧ ¬ KeepsNew c t o (c.aligned n) (min n buf) := by
    unfold Tab.SetKeeps at hkeep
    push Not at hkeep
    exact hkeep
  unfold KeepsNew at hlost
  push Not at hlost
  obtain ⟨hz, hn, hblock⟩ := hlost
  have hpos' : 0 < min n buf := Nat.pos_of_ne_zero hn
  refine fsWp_tfmItsSet trivial (fun _ => nofun) (fun _ _ => nofun) (fun _ _ _ _ _ => nofun)
    fun hu hfl _ => ?_
  refine fsWp_setFile (f := assetFid client uid hu) hb hpos hfl
    (I := fun _ u => ∃ k, u.find c (getFid client uid) = some k ∧
      (u.contents k)[min n buf - 1]? = some c.eraseVal) trivial (fun _ _ _ => trivial)
    (fun u hl hw => ?_) (fun fl m off u u' hl hI hinfo htr hw => ?_)
    (fun u hI _ _ => ⟨hpos', hI⟩) (fun _ _ => nofun) fun _ _ _ _ => nofun
  · exact hl.contents_lost (chunk c hb (assetFid client uid hu) data (flags ||| createFlags) n
      0).args ho (first_truncates flags) hsize hz hn hblock
      (fun k hk => hdata _ (by rw [Nat.zero_add]; exact hk)) hw
  · -- what is appended comes behind it
    obtain ⟨k, hk, hc⟩ := hI
    obtain ⟨hk', hc'⟩ := chunk_appended hb hl hinfo htr hw hk
    refine ⟨k, hk', ?_⟩
    rw [hc', List.getElem?_append_left (List.getElem?_eq_some_iff.1 hc).1]
    exact hc

end Contents

/-! ## What a get delivers after a set -/

section Main

variable {P : Setup} {z : Stores}

theorem Tab.get_of_contents {c : Cfg} {t : Tab} {client : UInt32} {uid : UInt64} {k : Nat}
    (hu : uid ≠ 0) (hk : t.find c (getFid client uid) = some k) {l : List UInt8}
    (hl : t.contents k = l) (offset size : Nat) : t.get c client uid offset size =
      if l.length < offset then .error .invalidArgument
      else .ok (min size (l.length - offset), (l.drop offset).take size) := by
  subst hl
  unfold Tab.get
  rw [if_neg hu, hk, Tab.length_contents]

/-- What the next `get` has to answer: the part that was asked for, of the data that
was set. -/
def delivered (n : Nat) (data : Nat → UInt8) (offset size : Nat) : Except PsaStatus Result :=
  if n < offset then .error .invalidArgument
  else .ok (.data (min size (n - offset)) ((((List.range n).map data).drop offset).take size))

/-- The next `get`s deliver what was set. -/
def Setup.Delivers (P : Setup) (z : Stores) (client : UInt32) (uid : UInt64) (n : Nat)
    (flags : UInt32) (data : Nat → UInt8) : Prop :=
  (P.serve (.set client uid n flags data) z).1 = .ok .done → ∀ offset size,
    (P.serve (.get client uid offset size) (P.serve (.set client uid n flags data) z).2).1 =
      delivered n data offset size

section Calls

variable {client : UInt32} {uid : UInt64} {n : Nat} {flags : UInt32} {data : Nat → UInt8} {t : Tab}

theorem Setup.serve_set (ht : Mounted (P.cfg (P.getFsCtx client)) (z (P.getFsCtx client)) t)
    {R : Tab → Prop} (h : fsWp (P.cfg (P.getFsCtx client))
      (tfmItsSet (P.cfg (P.getFsCtx client)) P.buf client uid n flags data) t
      (fun r u => r = .ok () → R u) fun _ => True)
    (hok : (P.serve (.set client uid n flags data) z).1 = .ok .done) :
    ∃ u, Mounted (P.cfg (P.getFsCtx client))
      ((P.serve (.set client uid n flags data) z).2 (P.getFsCtx client)) u ∧ R u := by
  have hdone : ∀ r : Except PsaStatus Unit, r.map (fun _ => Result.done) = .ok .done → r = .ok () := by
    intro r hr
    cases r with
    | ok v => rfl
    | error e => cases hr
  obtain ⟨u, hu, hQ⟩ := P.serve_wp (q := .set client uid n flags data)
    (Q := fun r u => r = .ok .done → R u) ht
    (fsWp_map (fsWp_mono h (fun r u hr => ⟨fun hd => hr (hdone r hd), trivial⟩) fun _ h => h))
  exact ⟨u, hu, hQ hok⟩

theorem Setup.set_ok (ht : Mounted (P.cfg (P.getFsCtx client)) (z (P.getFsCtx client)) t)
    (data' : Nat → UInt8) (hok : (P.serve (.set client uid n flags data) z).1 = .ok .done) :
    (P.serve (.set client uid n flags data') z).1 = .ok .done := by
  have hb := P.buf_room (P.getFsCtx client)
  have hset : ∀ data, (P.serve (.set client uid n flags data) z).1 =
      (t.set (P.cfg (P.getFsCtx client)) hb client uid n flags data).1.map fun _ => .done := by
    intro data
    obtain ⟨_, _, hQ⟩ := P.serve_wp (q := .set client uid n flags data) (Q := fun r _ => r =
      (t.set (P.cfg (P.getFsCtx client)) hb client uid n flags data).1.map fun _ => .done)
      (C := fun _ => True) ht (fsWp_map (fsWp_set_eq hb ⟨rfl, trivial⟩))
    exact hQ
  rw [hset] at hok ⊢
  cases hr : (t.set (P.cfg (P.getFsCtx client)) hb client uid n flags data).1 with
  | error e =>
    rw [hr] at hok
    cases hok
  | ok v =>
    rw [Tab.set_ok hb hr]
    rfl

theorem Setup.delivers_of_keeps
    (ht : Mounted (P.cfg (P.getFsCtx client)) (z (P.getFsCtx client)) t)
    (hkeep : t.SetKeeps (P.cfg (P.getFsCtx client)) P.buf (getFid client uid) n) :
    P.Delivers z client uid n flags data := by
  intro hok offset size
  obtain ⟨u, hu, huid, k, hk, hc⟩ :=
    P.serve_set ht (fsWp_set_written (P.buf_room _) P.buf_pos hkeep) hok
  rw [P.serve_get hu, Tab.get_of_contents huid hk hc]
  unfold delivered
  rw [List.length_map, List.length_range]
  split <;> rfl

theorem Setup.keeps_of_delivers
    (ht : Mounted (P.cfg (P.getFsCtx client)) (z (P.getFsCtx client)) t)
    (hok : (P.serve (.set client uid n flags data) z).1 = .ok .done)
    (h : ∀ data, P.Delivers z client uid n flags data) :
    t.SetKeeps (P.cfg (P.getFsCtx client)) P.buf (getFid client uid) n := by
  by_contra hkeep
  -- data of the first chunk that flash never holds after an erase
  let bad : Nat → UInt8 := fun k =>
    if k < min n P.buf then (P.cfg (P.getFsCtx client)).eraseVal + 1
    else (P.cfg (P.getFsCtx client)).eraseVal
  have hok' := P.set_ok ht bad hok
  obtain ⟨u, hu, hpos, k, hk, hbyte⟩ := P.serve_set ht
    (fsWp_set_lost (P.buf_room _) P.buf_pos hkeep
      fun k hk => (if_neg (by omega) : bad k = _)) hok'
  have hget := h bad hok' 0 n
  rw [P.serve_get hu] at hget
  unfold Tab.get at hget
  split at hget
  · cases hget
  · rw [hk] at hget
    dsimp only at hget
    have hlen : min n P.buf - 1 < (u.contents k).length := (List.getElem?_eq_some_iff.1 hbyte).1
    have hcur : ¬ (u.fm k).curSize < 0 := Nat.not_lt_zero _
    unfold delivered at hget
    rw [if_neg hcur, if_neg (Nat.not_lt_zero n)] at hget
    simp only [Except.map, Except.ok.injEq, Result.data.injEq] at hget
    have hlast := congrArg (fun l => l[min n P.buf - 1]?) hget.2
    rw [List.drop_zero, List.drop_zero, List.getElem?_take_of_lt (by omega),
      List.getElem?_take_of_lt (by omega), hbyte, List.getElem?_map,
      List.getElem?_range (by omega)] at hlast
    have hbad : bad (min n P.buf - 1) = (P.cfg (P.getFsCtx client)).eraseVal + 1 :=
      if_pos (by omega)
    rw [Option.map_some, hbad] at hlast
    exact absurd (Option.some.inj hlast) (by simp)

end Calls

/-- **A set and the `get`s after it.** The data is delivered, in chunks of any size, if
the set replaces no empty file in its block; else some data is lost. -/
theorem set_then_get (P : Setup) (z : Stores) (h : (svcLts P).Reachable (.on z))
    (client : UInt32) (uid : UInt64) (n : Nat) (flags : UInt32) :
    (∀ data, P.Delivers z client uid n flags data) ↔
      (∀ data, (P.serve (.set client uid n flags data) z).1 ≠ .ok .done) ∨
        (tableOf (P.cfg (P.getFsCtx client)) (z (P.getFsCtx client))).SetKeeps
          (P.cfg (P.getFsCtx client)) P.buf (getFid client uid) n := by
  obtain ⟨t, ht⟩ := svc_mounted h client
  rw [ht.table.setKeeps]
  constructor
  · intro hall
    by_cases hok : ∃ data, (P.serve (.set client uid n flags data) z).1 = .ok .done
    · obtain ⟨data, hok⟩ := hok
      exact .inr (P.keeps_of_delivers ht hok hall)
    · exact .inl fun data hd => hok ⟨data, hd⟩
  · intro hx data
    obtain hno | hkeep := hx
    · exact fun hok => absurd hok (hno data)
    · exact P.delivers_of_keeps ht hkeep

/-- A partition with one filesystem, and a buffer of four bytes. -/
def smallSetup : Setup where
  cfg _ := smallCfg
  buf := 4
  psOn := false
  spPs := 0
  create _ := true
  buf_pos := by decide
  buf_aligned _ := by decide
  buf_room _ := by unfold Buffer; decide

/-- The partition on a flash that was just wiped. -/
def smallStores : Stores := fun _ => booted smallCfg

theorem smallStores_reachable : (svcLts smallSetup).Reachable (.on smallStores) :=
  .init ⟨_, rfl, fun _ _ => booted_init smallCfg⟩

/-- Six bytes in two chunks, and the last four of them in one. -/
theorem set_then_get_chunks :
    (smallSetup.serve (.get 5 7 2 10)
      (smallSetup.serve (.set 5 7 6 0 fun k => UInt8.ofNat k) smallStores).2).1 =
        .ok (.data 4 [2, 3, 4, 5]) :=
  (set_then_get smallSetup smallStores smallStores_reachable 5 7 6 0).2
    (.inr fun o ho => by
      have hno : (tableOf smallCfg (booted smallCfg)).find smallCfg (getFid 5 7) = none := by
        decide +kernel
      cases hno.symm.trans ho) (fun k => UInt8.ofNat k) (by decide +kernel) 2 10

/-- An empty asset gets a byte, and a `get` delivers another one. -/
theorem set_then_get_lost : ¬ ∀ (P : Setup) (z : Stores), (svcLts P).Reachable (.on z) →
    ∀ (client : UInt32) (uid : UInt64) (n : Nat) (flags : UInt32) (data : Nat → UInt8),
      P.Delivers z client uid n flags data := by
  intro h
  have hget := h smallSetup (smallSetup.serve (.set 5 7 0 0 fun _ => 0) smallStores).2
    (.step smallStores_reachable (.call (.set 5 7 0 0 fun _ => 0) _)) 5 7 1 0 (fun _ => 0x2A)
    (by decide +kernel) 0 1
  exact absurd hget (by decide +kernel)

end Main

end Tfm.L4.Its
