import Tfm.L4Service.ItsContents
import Tfm.L4Service.ItsRun

/-!
# Reachable states of the ITS filesystem

What holds in every state that a sequence of calls reaches from a wipe, over flash
that commits every write at once: how the blocks and files are laid out, and what
the deletion of a file leaves of the others.

`tableOf` is the metadata that is read from flash.

Results: `reachable_mounted`; `layout_reachable`, the layout; `delete_frame`, a
deletion leaves the other files alone, but for those in and behind the place of a
file of size 0.
-/
namespace Tfm.L4.Its
open Tfm.BlockDev Tfm.Bytes

/-! ## Runs over memory -/

section Memory

variable {c : Cfg} {y : Sys Flash} {t : Tab}

/-- The filesystem over flash that commits every write at once. -/
abbrev memLts (c : Cfg) : LTS (Sys Flash) (Req c.toConfig) :=
  fsLts c (memOps c.toConfig) fun _ => True

abbrev memServe (c : Cfg) : Req c.toConfig → Sys Flash → Reply × Sys Flash :=
  serve c (memOps c.toConfig)

/-- The filesystem holds `t`. -/
structure Mounted (c : Cfg) (y : Sys Flash) (t : Tab) : Prop where
  held : ∃ s, Agrees y.2 s ∧ Rep c (c.rules false false) y.1 s t
  layout : Layout c t none
  known : t.Known

/-- A call keeps the rules of the device. -/
theorem Mounted.wp_req (h : Mounted c y t) (q : Req c.toConfig) :
    ∃ s, Agrees y.2 s ∧ wp (c.rules false false) (q.prog c) y.1 s
      (fun r x' s' => r = (t.serve c (some c.eraseVal) q).1 ∧
        Rep c (c.rules false false) x' s' (t.serve c (some c.eraseVal) q).2) fun _ => True := by
  obtain ⟨s, hs, hrep⟩ := h.held
  refine ⟨s, hs, wp_serve hrep h.layout h.known.full nofun (fun _ _ => trivial)
    (fun e s' he hr => ?_) fun x' s' hrep' => ⟨rfl, hrep'⟩⟩
  change t.serve c (some c.eraseVal) q = (.error e, t) at he
  rw [he]
  exact ⟨rfl, hr.rep hrep h.layout.sane⟩

/-- **A call does what the mounted filesystem says.** -/
theorem Mounted.serve (h : Mounted c y t) (q : Req c.toConfig) :
    (memServe c q y).1 = (t.serve c (some c.eraseVal) q).1 ∧
      Mounted c (memServe c q y).2 (t.serve c (some c.eraseVal) q).2 := by
  obtain ⟨s, hs, hwp⟩ := h.wp_req q
  obtain ⟨s', ⟨h1, h2⟩, h3⟩ := (memFollows c.toConfig).run hs hwp
  exact ⟨h1, ⟨s', h3, h2⟩, h.layout.serve q, h.known.serve rfl q⟩

theorem mounted_boot (x : Ctx) (f : Flash) :
    Mounted c (runOn (memOps c.toConfig) (boot c) (x, f)).2 (Tab.fresh c (some c.eraseVal)) := by
  have hs : Agrees f ⟨fun _ _ => ⟨none, false⟩, none⟩ := fun _ _ _ hv => nomatch hv
  have hwp : wp (c.rules false false) (boot c) x ⟨fun _ _ => ⟨none, false⟩, none⟩
      (fun _ x' s' => Rep c (c.rules false false) x' s' (Tab.fresh c (some c.eraseVal)))
      fun _ => True := wp_boot nofun fun _ _ hrep => hrep
  obtain ⟨s', h1, h2⟩ := (memFollows c.toConfig).run hs hwp
  exact ⟨⟨s', h2, h1⟩, .fresh, fun _ _ => rfl⟩

theorem reachable_mounted (h : (memLts c).Reachable y) : ∃ t, Mounted c y t := by
  induction h with
  | init h =>
    obtain ⟨x, f, _, rfl⟩ := h
    exact ⟨_, mounted_boot x f⟩
  | @step y y' q _ hs ih =>
    obtain ⟨t, ht⟩ := ih
    obtain rfl : y' = _ := hs
    exact ⟨_, (ht.serve q).2⟩

theorem Mounted.serveAll (qs : List (Req c.toConfig)) : ∀ {y : Sys Flash} {t : Tab},
    Mounted c y t → (Its.serveAll c (memOps c.toConfig) qs y).1 =
        (t.serveAll c (some c.eraseVal) qs).1 ∧
      Mounted c (Its.serveAll c (memOps c.toConfig) qs y).2 (t.serveAll c (some c.eraseVal) qs).2 := by
  induction qs with
  | nil => exact fun h => ⟨rfl, h⟩
  | cons q qs ih =>
    intro y t h
    obtain ⟨h1, h2⟩ := h.serve q
    obtain ⟨h3, h4⟩ := ih h2
    unfold Its.serveAll Tab.serveAll
    exact ⟨congrArg₂ _ h1 h3, h4⟩

theorem reachable_serveAll (qs : List (Req c.toConfig)) : ∀ {y : Sys Flash},
    (memLts c).Reachable y → (memLts c).Reachable (Its.serveAll c (memOps c.toConfig) qs y).2 := by
  induction qs with
  | nil => exact fun h => h
  | cons q qs ih => exact fun h => ih (.step h rfl)

/-! ## The metadata on flash -/

/-- The metadata that is read from flash; the contents are those of the blocks. -/
def tableOf (c : Cfg) (y : Sys Flash) : Tab where
  hdr := .ofBytes (y.2.read y.1.activeMetablock 0 c.headerSize)
  active := y.1.activeMetablock
  bm l := .ofBytes (y.2.read y.1.activeMetablock (c.blockMetaOffset l) c.blockMetaSize)
  fm i := .ofBytes (y.2.read y.1.activeMetablock (c.fileMetaOffset i) c.fileMetaSize)
  data _ _ := none

/-- The metadata on flash is that of the mounted filesystem. -/
structure SameTable (c : Cfg) (t u : Tab) : Prop where
  hdr : t.hdr = u.hdr
  active : t.active = u.active
  bm : ∀ l, l < c.numActiveDblocks → t.bm l = u.bm l
  fm : ∀ i, i < c.maxNumFiles → t.fm i = u.fm i

theorem Stored.table {bu on : Bool} {s : Media} (h : Stored c (c.rules bu on) s t)
    (hact : y.1.activeMetablock = t.active) (hs : Agrees y.2 s) (hsane : Sane c t) :
    SameTable c (tableOf c y) t := by
  refine ⟨?_, hact, fun l hl => ?_, fun i hi => ?_⟩
  · show Header.ofBytes (y.2.read y.1.activeMetablock 0 c.headerSize) = t.hdr
    rw [hact]
    have hr := hs.read t.active 0 c.headerSize
    refine h.header hsane hr.1 fun i v hi hv => hr.2 i v hi ?_
    rwa [Nat.zero_add]
  · show BlockMeta.ofBytes (y.2.read y.1.activeMetablock _ _) = t.bm l
    rw [hact]
    have hr := hs.read t.active (c.blockMetaOffset l) c.blockMetaSize
    have ht := take_of_has (h.block l hl) (by simpa using c.le_blockMetaSize) hr.1 hr.2
    rw [BlockMeta.length_bytes] at ht
    rw [← BlockMeta.ofBytes_take, ht, BlockMeta.ofBytes_bytes (hsane.block_fits hl)]
  · show FileMeta.ofBytes (y.2.read y.1.activeMetablock _ _) = t.fm i
    rw [hact]
    have hr := hs.read t.active (c.fileMetaOffset i) c.fileMetaSize
    have ht := take_of_has (h.file i hi) (by simpa using c.le_fileMetaSize) hr.1 hr.2
    rw [FileMeta.length_bytes] at ht
    rw [← FileMeta.ofBytes_take, ht, FileMeta.ofBytes_bytes (hsane.file_fits hi)]

theorem Rep.table {bu on : Bool} {s : Media} (hrep : Rep c (c.rules bu on) y.1 s t)
    (hs : Agrees y.2 s) (hsane : Sane c t) : SameTable c (tableOf c y) t :=
  hrep.stored.table (by rw [hrep.ctx]) hs hsane

theorem Mounted.table (h : Mounted c y t) : SameTable c (tableOf c y) t := by
  obtain ⟨s, hs, hrep⟩ := h.held
  exact hrep.table hs h.layout.sane

end Memory

/-! ## The layout -/

section Layouts

variable {c : Cfg} {t u : Tab} {fill : Option UInt8}

/-- The layout of the metadata `t`. -/
structure LaidOut (c : Cfg) (t : Tab) : Prop where
  /-- logical block 0 is the active metadata block -/
  home : (t.bm 0).phyId = t.active
  /-- the data blocks and the scratch data block are the blocks from 2 on -/
  blocks : 2 < c.numBlocks → (t.sd :: (List.range c.numDedicatedDblocks).map fun l =>
    (t.bm (l + 1)).phyId).Perm (List.range' 2 (c.numBlocks - 2))
  inside : ∀ i, i < c.maxNumFiles → (t.fm i).used = true → (t.fm i).lblock < c.numActiveDblocks ∧
    (t.bm (t.fm i).lblock).dataStart ≤ (t.fm i).dataIdx ∧
    (t.fm i).dataIdx + (t.fm i).maxSize ≤ c.blockSize - (t.bm (t.fm i).lblock).freeSize
  apart : ∀ i j, i < c.maxNumFiles → j < c.maxNumFiles → i ≠ j → (t.fm i).used = true →
    (t.fm j).used = true → (t.fm i).lblock = (t.fm j).lblock →
    Tiles.Apart (t.fm i).dataIdx (t.fm i).maxSize (t.fm j).dataIdx (t.fm j).maxSize
  cover : ∀ l o, l < c.numActiveDblocks → (t.bm l).dataStart ≤ o →
    o < c.blockSize - (t.bm l).freeSize → ∃ i, i < c.maxNumFiles ∧ (t.fm i).used = true ∧
      (t.fm i).lblock = l ∧ (t.fm i).dataIdx ≤ o ∧ o < (t.fm i).dataIdx + (t.fm i).maxSize
  sizes : ∀ i, i < c.maxNumFiles → (t.fm i).used = true →
    (t.fm i).curSize ≤ (t.fm i).maxSize ∧ (t.fm i).maxSize ≤ c.maxFileSize
  distinct : ∀ i j, i < c.maxNumFiles → j < c.maxNumFiles → (t.fm i).used = true →
    (t.fm j).used = true → (t.fm i).id = (t.fm j).id → i = j
  spare : ((List.range c.maxNumFiles).filter fun i => (t.fm i).used).length ≤ c.maxNumFiles - 1

theorem Layout.perm (h : Layout c t none) (h2 : 2 < c.numBlocks) :
    (t.sd :: (List.range c.numDedicatedDblocks).map fun l => (t.bm (l + 1)).phyId).Perm
      (List.range' 2 (c.numBlocks - 2)) := by
  have hn := c.numActiveDblocks_lt h2
  have hact : c.numActiveDblocks = c.numDedicatedDblocks + 1 := rfl
  have hnodup : (t.sd :: (List.range c.numDedicatedDblocks).map fun l =>
      (t.bm (l + 1)).phyId).Nodup := by
    rw [List.nodup_cons]
    constructor
    · intro hmem
      obtain ⟨l, hl, he⟩ := List.mem_map.1 hmem
      rw [List.mem_range] at hl
      exact h.sane.apart (l + 1) (Nat.succ_pos l) (by omega) he
    · refine List.Nodup.map_on ?_ List.nodup_range
      intro l hl k hk he
      rw [List.mem_range] at hl hk
      have := h.sane.inj (l + 1) (k + 1) (Nat.succ_pos l) (by omega) (Nat.succ_pos k) (by omega) he
      omega
  refine (hnodup.subperm ?_).perm_of_length_le ?_
  · intro b hb
    rw [List.mem_range'_1]
    rcases List.mem_cons.1 hb with rfl | hb
    · have := h.sane.scratch h2
      omega
    · obtain ⟨l, hl, rfl⟩ := List.mem_map.1 hb
      rw [List.mem_range] at hl
      have := h.sane.phy (l + 1) (Nat.succ_pos l) (by omega)
      omega
  · simp only [List.length_range', List.length_cons, List.length_map, List.length_range]
    omega

/-- What is laid out, but for the place of block 0. -/
theorem Layout.laidOut (h : Layout c t none) (hhome : (t.bm 0).phyId = t.active) : LaidOut c t where
  home := hhome
  blocks := h.perm
  inside i hi hu := (h.sane.file i hi hu).imp id fun hf => ⟨hf.1, hf.2.1⟩
  apart := h.apart
  cover := h.cover
  sizes i hi hu := ⟨(h.sane.file i hi hu).2.2.2.1, (h.sane.file i hi hu).2.2.2.2.1⟩
  distinct i j hi hj hu _ he := (h.distinct i j hi hj hu he).elim id nofun
  spare := by
    rcases Nat.eq_zero_or_pos c.maxNumFiles with h0 | hpos
    · rw [h0]
      exact Nat.le_refl 0
    · obtain ⟨i, hi, hu⟩ := h.spare rfl hpos
      have hlt : ((List.range c.maxNumFiles).filter fun i => (t.fm i).used).length <
          (List.range c.maxNumFiles).length :=
        List.length_filter_lt_length_iff_exists.2 ⟨i, List.mem_range.2 hi, by simp [hu]⟩
      rw [List.length_range] at hlt
      omega

/-- It is a matter of the metadata. -/
theorem SameTable.laidOut (h : SameTable c t u) (hu : LaidOut c u) : LaidOut c t where
  home := by
    rw [h.bm 0 c.numActiveDblocks_pos, h.active]
    exact hu.home
  blocks h2 := by
    have hmap : ((List.range c.numDedicatedDblocks).map fun l => (t.bm (l + 1)).phyId) =
        (List.range c.numDedicatedDblocks).map fun l => (u.bm (l + 1)).phyId := by
      refine List.map_congr_left fun l hl => ?_
      rw [h.bm (l + 1) (Nat.succ_lt_succ (List.mem_range.1 hl))]
    have hsd : t.sd = u.sd := congrArg Header.scratchDblock h.hdr
    rw [hmap, hsd]
    exact hu.blocks h2
  inside i hi hused := by
    rw [h.fm i hi] at hused ⊢
    have hin := hu.inside i hi hused
    rw [h.bm _ hin.1]
    exact hin
  apart i j hi hj := by
    rw [h.fm i hi, h.fm j hj]
    exact hu.apart i j hi hj
  cover l o hl ho ho' := by
    rw [h.bm l hl] at ho ho'
    obtain ⟨i, hi, hc⟩ := hu.cover l o hl ho ho'
    exact ⟨i, hi, h.fm i hi ▸ hc⟩
  sizes i hi := by
    rw [h.fm i hi]
    exact hu.sizes i hi
  distinct i j hi hj := by
    rw [h.fm i hi, h.fm j hj]
    exact hu.distinct i j hi hj
  spare := by
    have hfilter : ((List.range c.maxNumFiles).filter fun i => (t.fm i).used) =
        (List.range c.maxNumFiles).filter fun i => (u.fm i).used := by
      refine List.filter_congr fun i hi => ?_
      rw [h.fm i (List.mem_range.1 hi)]
    rw [hfilter]
    exact hu.spare

theorem SameTable.symm (h : SameTable c t u) : SameTable c u t :=
  ⟨h.hdr.symm, h.active.symm, fun l hl => (h.bm l hl).symm, fun i hi => (h.fm i hi).symm⟩

/-! ## Calls that are accepted -/

theorem findIdx_congr {fm fm' : Nat → FileMeta} {p : FileMeta → Bool} (n : Nat) : ∀ {i : Nat},
    (∀ k, i ≤ k → k < i + n → p (fm k) = p (fm' k)) → findIdx fm p n i = findIdx fm' p n i := by
  induction n with
  | zero => exact fun _ => rfl
  | succ n ih =>
    intro i h
    unfold findIdx
    rw [h i (Nat.le_refl i) (by omega), ih fun k h1 h2 => h k (by omega) (by omega)]

theorem freeIdx_congr {fm : Nat → FileMeta} (fm' : Nat → FileMeta) (n : Nat) : ∀ {spare : Bool} {i : Nat},
    (∀ k, i ≤ k → k < i + n → fm k = fm' k) → freeIdx fm spare n i = freeIdx fm' spare n i := by
  induction n with
  | zero => exact fun _ => rfl
  | succ n ih =>
    intro spare i h
    unfold freeIdx
    rw [h i (Nat.le_refl i) (by omega), ih fun k h1 h2 => h k (by omega) (by omega),
      ih fun k h1 h2 => h k (by omega) (by omega)]

theorem freeBlock_congr {bm : Nat → BlockMeta} (bm' : Nat → BlockMeta) {size : Nat} (n : Nat) : ∀ {i : Nat},
    (∀ k, i ≤ k → k < i + n → bm k = bm' k) → freeBlock bm size n i = freeBlock bm' size n i := by
  induction n with
  | zero => exact fun _ => rfl
  | succ n ih =>
    intro i h
    unfold freeBlock
    rw [h i (Nat.le_refl i) (by omega), ih fun k h1 h2 => h k (by omega) (by omega)]

theorem SameTable.find (h : SameTable c t u) (fid : Nat) : t.find c fid = u.find c fid :=
  findIdx_congr _ fun k _ hk => by rw [h.fm k (by omega)]

theorem SameTable.lookup (h : SameTable c t u) (fid flags maxSize : Nat) :
    t.lookup c fid flags maxSize = u.lookup c fid flags maxSize := by
  unfold Tab.lookup
  rw [h.find fid]
  cases hf : u.find c fid with
  | none => rfl
  | some o =>
    dsimp only
    rw [h.fm o (Tab.find_some hf).1]

theorem SameTable.reserve (h : SameTable c t u) {fid flags maxSize : Nat} {old : Option Nat}
    {reuse : Option (Nat × FileMeta)}
    (hre : ∀ i m, reuse = some (i, m) → m.lblock < c.numActiveDblocks) :
    t.reserve c fid flags maxSize old reuse = u.reserve c fid flags maxSize old reuse := by
  unfold Tab.reserve
  cases reuse with
  | some im =>
    dsimp only
    rw [h.bm _ (hre im.1 im.2 rfl)]
  | none =>
    dsimp only
    rw [freeBlock_congr u.bm _ fun k _ hk => h.bm k (by omega),
      freeIdx_congr u.fm _ fun k _ hk => h.fm k (by omega)]
    split
    · rfl
    · split
      · next l i hl hi =>
        rw [h.bm l (by have := (freeBlock_some _ hl).2.1; omega)]
      · rfl

/-- The call is an update of the filesystem `t`. -/
def Req.accepted (c : Cfg) (t : Tab) : Req c.toConfig → Bool
  | .write a => (t.writeArgs c (some c.eraseVal) a).isOk
  | .delete fid => (t.find c fid.id).isSome
  | _ => false

/-- A write is accepted when all its parts are. -/
theorem Tab.write_isOk {fid flags maxSize dataSize offset : Nat} {data : Nat → UInt8} :
    (t.write c fill fid flags maxSize dataSize offset data).isOk = true ↔
      flags &&& internalFlagsMask = 0 ∧ ∃ old reuse new m b,
        t.lookup c fid flags (c.aligned maxSize) = .ok (old, reuse) ∧
        t.reserve c fid flags (c.aligned maxSize) old reuse = .ok (new, m, b) ∧
        (dataSize = 0 ∨ dataFits c m dataSize offset = true) := by
  constructor
  · intro hok
    cases hw : t.write c fill fid flags maxSize dataSize offset data with
    | error e =>
      rw [hw] at hok
      cases hok
    | ok t' =>
      obtain ⟨t1, del, hu, _⟩ := Tab.write_eq hw
      obtain ⟨hfl, old, reuse, new, m, b, m', dl, hl, hr, hd, _, _⟩ := Tab.firstUpdate_eq hu
      refine ⟨by simpa using hfl, old, reuse, new, m, b, hl, hr, ?_⟩
      unfold Tab.writeData at hd
      split at hd
      · next h0 => exact .inl h0
      · split at hd
        · next hf => exact .inr hf
        · cases hd
  · intro h
    obtain ⟨hfl, old, reuse, new, m, b, hl, hr, hf⟩ := h
    have hd : ∃ p, t.writeData c fill m b dataSize offset data = .ok p := by
      unfold Tab.writeData
      split
      · exact ⟨_, rfl⟩
      · next h0 =>
        rw [if_pos (hf.resolve_left h0)]
        exact ⟨_, rfl⟩
    obtain ⟨⟨m', dl⟩, hd⟩ := hd
    rw [Tab.write_ok (Tab.firstUpdate_ok (by simpa using hfl) hl hr hd)]
    rfl

theorem SameTable.accepted (h : SameTable c t u) (hu : Sane c u) (q : Req c.toConfig) :
    q.accepted c t = q.accepted c u := by
  cases q with
  | write a =>
    have hparts : ∀ old reuse,
        u.lookup c a.fid.id a.flags (c.aligned a.maxSize) = .ok (old, reuse) →
        t.reserve c a.fid.id a.flags (c.aligned a.maxSize) old reuse =
          u.reserve c a.fid.id a.flags (c.aligned a.maxSize) old reuse := by
      intro old reuse hl
      refine h.reserve fun i m hre => ?_
      subst hre
      exact (hu.fit_reserve a.fid.valid hl rfl).2.lblock
    unfold Req.accepted
    dsimp only
    rw [Bool.eq_iff_iff]
    unfold Tab.writeArgs
    rw [Tab.write_isOk, Tab.write_isOk, h.lookup]
    constructor
    · intro hx
      obtain ⟨hfl, old, reuse, new, m, b, hl, hr, hf⟩ := hx
      exact ⟨hfl, old, reuse, new, m, b, hl, hparts old reuse hl ▸ hr, hf⟩
    · intro hx
      obtain ⟨hfl, old, reuse, new, m, b, hl, hr, hf⟩ := hx
      exact ⟨hfl, old, reuse, new, m, b, hl, (hparts old reuse hl).symm ▸ hr, hf⟩
  | delete fid =>
    unfold Req.accepted
    dsimp only
    rw [h.find]
  | read | info | prepare => rfl

/-- The old file that a write marks for deletion, before it can be refused. -/
def Req.marks (c : Cfg) (t : Tab) : Req c.toConfig → Option Nat
  | .write a =>
    if a.flags &&& internalFlagsMask ≠ 0 then none
    else
      match t.lookup c a.fid.id a.flags (c.aligned a.maxSize) with
      | .ok (some o, none) => some o
      | _ => none
  | _ => none

theorem SameTable.marks (h : SameTable c t u) (q : Req c.toConfig) :
    q.marks c t = q.marks c u := by
  cases q with
  | write a =>
    unfold Req.marks
    dsimp only
    rw [h.lookup]
  | delete | read | info | prepare => rfl

theorem accepted_write {a : WriteArgs c.toConfig} {t' : Tab} (h : t.writeArgs c fill a = .ok t') :
    (Req.write a).accepted c t = true := by
  unfold Req.accepted
  dsimp only
  unfold Tab.writeArgs at h ⊢
  rw [Tab.write_isOk]
  exact Tab.write_isOk.1 (by rw [h]; rfl)

/-- An update that is accepted is done. -/
theorem accepted_done {q : Req c.toConfig} (h : q.accepted c t = true) :
    (t.serve c fill q).1 = .ok .done := by
  unfold Req.accepted at h
  unfold Tab.serve
  cases q with
  | write a =>
    dsimp only at h ⊢
    have hok : (t.writeArgs c fill a).isOk = true := by
      unfold Tab.writeArgs at h ⊢
      rw [Tab.write_isOk] at h ⊢
      exact h
    cases hw : t.writeArgs c fill a with
    | ok t' => rfl
    | error e =>
      rw [hw] at hok
      cases hok
  | delete fid =>
    unfold Tab.delete
    dsimp only at h ⊢
    cases hf : t.find c fid.id with
    | some i => rfl
    | none =>
      rw [hf] at h
      cases h
  | read | info | prepare => cases h

/-- An update that is not accepted changes nothing. -/
theorem serve_refused {q : Req c.toConfig} (h : q.accepted c t = false) :
    (t.serve c fill q).2 = t := by
  unfold Req.accepted at h
  unfold Tab.serve
  cases q with
  | write a =>
    dsimp only at h ⊢
    cases hw : t.writeArgs c fill a with
    | ok t' => exact absurd ((accepted_write hw).symm.trans h) (by decide)
    | error e => rfl
  | delete fid =>
    unfold Tab.delete
    dsimp only at h ⊢
    cases hf : t.find c fid.id with
    | some i =>
      rw [hf] at h
      cases h
    | none => rfl
  | read | info | prepare => rfl

/-- **A call that is no update** answers and leaves what there is: but for a mark of a
write that is refused, and what a start does. -/
theorem wp_refused {bu on : Bool} {x : Ctx} {s : Media}
    {Q : Except PsaStatus Answer → Ctx → Media → Prop} {q : Req c.toConfig}
    (h : Live c bu on x s t) (hst : Startable c (c.rules bu on) s t) (hl : Layout c t none)
    (hfull : t.Full c) (hq : q.accepted c t = false)
    (hcan : ∀ o ∈ q.marks c t, o < c.maxNumFiles →
      CanWrite (c.rules bu on) s t.sm (c.fileMetaOffset o) c.fileMetaSize)
    (hQ : q ≠ .prepare → Q (t.serve c (c.rules bu on).fill q).1 x s)
    (hQm : ∀ o s', o ∈ q.marks c t → WritesEntry c (c.rules bu on) t o s s' →
      Q (t.serve c (c.rules bu on).fill q).1 x s')
    (hQp : q = .prepare → ∀ x' s', Rep c (c.rules bu on) x' s' t →
      Q (t.serve c (c.rules bu on).fill q).1 x' s') :
    wp (c.rules bu on) (q.prog c) x s Q fun _ => True := by
  cases q with
  | write a =>
    have hQ := hQ (fun he => by cases he)
    unfold Req.accepted at hq
    dsimp only at hq
    cases hw : t.writeArgs c (c.rules bu on).fill a with
    | ok t' => exact absurd ((accepted_write hw).symm.trans hq) (by decide)
    | error e =>
      have hserve : (t.serve c (c.rules bu on).fill (.write a)).1 = .error e := by
        unfold Tab.serve
        simp only [hw, Tab.commit]
      rw [hserve] at hQ hQm
      have hmark : a.flags &&& internalFlagsMask = 0 → ∀ o,
          t.lookup c a.fid.id a.flags (c.aligned a.maxSize) = .ok (some o, none) →
          o ∈ (Req.write a).marks c t := by
        intro hfl o hlo
        unfold Req.marks
        simp [hfl, hlo]
      refine wp_bind (wp_fileWrite_refused h a.fid.valid hw (fun hfl o hlo => ?_)
        (fun _ _ => trivial) ⟨hQ, trivial⟩ fun hfl o s' hlo hr => ⟨?_, trivial⟩)
      · exact hcan o (hmark hfl o hlo) (Tab.find_some (Tab.lookup_some hlo).1).1
      · exact hQm o s' (hmark hfl o hlo) hr
  | delete fid =>
    have hQ := hQ (fun he => by cases he)
    unfold Req.accepted at hq
    unfold Tab.serve Tab.delete at hQ
    dsimp only at hq hQ
    cases hf : t.find c fid.id with
    | some i =>
      rw [hf] at hq
      cases hq
    | none =>
      rw [hf] at hQ
      refine wp_bind (wp_bind (wp_recast (wp_getFileIdx h trivial ?_)))
      rw [hf]
      exact ⟨⟨⟨hQ, trivial⟩, trivial⟩, trivial⟩
  | read fid size offset =>
    have hQ := hQ (fun he => by cases he)
    unfold Tab.serve Tab.read at hQ
    dsimp only at hQ
    refine wp_bind (wp_fileRead h fid.valid trivial (fun hn => ?_) (fun i hi hc => ?_)
      fun i l hi hc hlen hv => wp_pure ?_ trivial)
    · rw [hn] at hQ
      exact ⟨hQ, trivial⟩
    · rw [hi] at hQ
      simp only [hc] at hQ
      exact ⟨hQ, trivial⟩
    · obtain ⟨h1, h2, _⟩ := Tab.find_used fid.valid hi
      rw [hi] at hQ
      dsimp only at hQ
      rw [if_pos hc, ← hfull.bytes_eq h1 h2 hc hlen hv] at hQ
      exact hQ
  | info fid =>
    have hQ := hQ (fun he => by cases he)
    unfold Tab.serve Tab.info at hQ
    dsimp only at hQ
    refine wp_bind (wp_fileGetInfo h trivial (fun hn => ?_) fun i hi => wp_pure ?_ trivial)
    · rw [hn] at hQ
      exact ⟨hQ, trivial⟩
    · rw [hi] at hQ
      exact hQ
  | prepare =>
    refine wp_bind (wp_prepare hst hl (fun _ _ h0 => ?_) (fun _ _ => trivial) (fun _ h0 => ?_)
      fun x' s' hrep => wp_pure (hQp rfl x' s' hrep) trivial)
    · cases h0
    · cases h0

/-- An update puts logical block 0 where the metadata is. -/
theorem update_home {l : Nat} {b : BlockMeta} {fm : Nat → FileMeta}
    {dl : Option (Nat → Option UInt8)} :
    ((t.update c fill l b fm dl).bm 0).phyId = (t.update c fill l b fm dl).active := by
  unfold Tab.update
  dsimp only
  by_cases hl : 0 = l
  · rw [if_pos hl, if_pos hl.symm]
  · rw [if_neg hl, if_pos rfl]

theorem write_home {fid flags maxSize dataSize offset : Nat} {data : Nat → UInt8} {t' : Tab}
    (hw : t.write c fill fid flags maxSize dataSize offset data = .ok t') :
    (t'.bm 0).phyId = t'.active := by
  obtain ⟨t1, del, hu, rfl⟩ := Tab.write_eq hw
  cases del with
  | none =>
    obtain ⟨_, _, _, _, _, _, _, _, _, _, _, rfl, _⟩ := Tab.firstUpdate_eq hu
    exact update_home
  | some o => exact update_home

/-- Block 0 is where the metadata is from the first update on. -/
theorem serve_home (q : Req c.toConfig) :
    (((t.serve c (some c.eraseVal) q).2.bm 0).phyId = (t.serve c (some c.eraseVal) q).2.active) ↔
      (t.bm 0).phyId = t.active ∨ q.accepted c t = true := by
  cases q with
  | write a =>
    unfold Tab.serve Req.accepted
    dsimp only
    cases hw : t.writeArgs c (some c.eraseVal) a with
    | error e => exact ⟨.inl, fun hh => hh.resolve_right nofun⟩
    | ok t' => exact ⟨fun _ => .inr rfl, fun _ => write_home hw⟩
  | delete fid =>
    unfold Tab.serve Tab.delete Req.accepted
    dsimp only
    cases hf : t.find c fid.id with
    | none => exact ⟨.inl, fun hh => hh.resolve_right nofun⟩
    | some i => exact ⟨fun _ => .inr rfl, fun _ => update_home⟩
  | read | info | prepare => exact ⟨.inl, fun hh => hh.resolve_right nofun⟩

/-- Two metadata blocks of 130 bytes, three files. -/
def smallCfg : Cfg where
  blockSize := 130
  numBlocks := 2
  programUnit := 1
  maxFileSize := 10
  maxNumFiles := 3
  eraseVal := 0xFF
  maxAlign := 1
  validate := true
  blockSize_lt := by decide
  numBlocks_lt := by decide
  programUnit_lt := by decide
  maxFileSize_lt := by decide
  maxNumFiles_lt := by decide
  programUnit_pos := by decide
  accepted := by decide

/-- The filesystem over a device that commits every write at once, after a wipe. -/
abbrev memBooted (c : Cfg) (x : Ctx) (f : Flash) : Sys Flash :=
  (runOn (memOps c.toConfig) (boot c) (x, f)).2

/-- The system after a wipe of zeros. -/
def booted (c : Cfg) : Sys Flash := (runOn (memOps c.toConfig) (boot c) (.zero, fun _ _ => 0)).2

theorem booted_init (c : Cfg) : (memLts c).init (booted c) := ⟨_, _, trivial, rfl⟩

theorem booted_mounted (c : Cfg) : Mounted c (booted c) (Tab.fresh c (some c.eraseVal)) :=
  mounted_boot _ _

instance (c : Config) (n : Nat) : Decidable (Buffer c n) :=
  inferInstanceAs (Decidable (_ ≤ _))

theorem flagCreate_lt : flagCreate < 2 ^ 32 := by decide

/-- A file that is created by one write. -/
def createArgs (c : Cfg) (f : Fid) (maxSize : Nat) (l : List UInt8)
    (hl : Buffer c.toConfig l.length) : WriteArgs c.toConfig where
  fid := f
  flags := flagCreate
  maxSize := maxSize
  dataSize := l.length
  offset := 0
  data k := l.getD k 0
  flags_lt := flagCreate_lt
  buffer := hl

def fid7 : Fid := ⟨7, by decide, by decide⟩

def fid8 : Fid := ⟨8, by decide, by decide⟩

/-- File 7, and file 8 of five bytes behind it. -/
def twoFiles (size7 : Nat) : List (Req smallCfg.toConfig) :=
  [.write (createArgs smallCfg fid7 size7 [] (by decide)),
    .write (createArgs smallCfg fid8 5 [1, 2, 3, 4, 5] (by decide))]

def afterTwo (size7 : Nat) : Sys Flash :=
  (serveAll smallCfg (memOps smallCfg.toConfig) (twoFiles size7) (booted smallCfg)).2

theorem afterTwo_mounted (size7 : Nat) : Mounted smallCfg (afterTwo size7)
    (((Tab.fresh smallCfg (some 0xFF)).serveAll smallCfg (some 0xFF) (twoFiles size7)).2) :=
  ((booted_mounted smallCfg).serveAll (twoFiles size7)).2

/-- The runs of `memLts`, and whether an update was made since the wipe. -/
def updLts (c : Cfg) : LTS (Sys Flash × Bool) (Req c.toConfig) where
  init z := (memLts c).init z.1 ∧ z.2 = false
  step z q z' := (memLts c).step z.1 q z'.1 ∧ z'.2 = (z.2 || q.accepted c (tableOf c z.1))

/-- From the first update on, the flag stays. -/
theorem updated_serveAll (qs : List (Req c.toConfig)) : ∀ {y : Sys Flash},
    (updLts c).Reachable (y, true) →
      (updLts c).Reachable ((serveAll c (memOps c.toConfig) qs y).2, true) := by
  induction qs with
  | nil => exact fun h => h
  | cons q qs ih => exact fun h => ih (.step h ⟨rfl, rfl⟩)

/-- A run from a wipe whose first call is accepted. -/
theorem first_serveAll (q : Req c.toConfig) (qs : List (Req c.toConfig))
    (hq : q.accepted c (Tab.fresh c (some c.eraseVal)) = true) :
    (updLts c).Reachable ((serveAll c (memOps c.toConfig) (q :: qs) (booted c)).2, true) := by
  have hm := booted_mounted c
  rw [← hm.table.accepted hm.layout.sane] at hq
  have hinit : (updLts c).Reachable (booted c, false) := .init ⟨booted_init c, rfl⟩
  have hstep : (updLts c).Reachable ((memServe c q (booted c)).2, true) :=
    .step hinit ⟨rfl, hq.symm⟩
  exact updated_serveAll qs hstep

/-- **The layout.** It holds in every reachable state, from the first write or
deletion that is accepted on. Before, logical block 0 is said to be in block 0 while
the metadata is in block 1. -/
theorem layout_reachable (c : Cfg) (z : Sys Flash × Bool) (h : (updLts c).Reachable z) :
    LaidOut c (tableOf c z.1) ↔ z.2 = true := by
  have hinv : ∃ t, Mounted c z.1 t ∧ ((t.bm 0).phyId = t.active ↔ z.2 = true) := by
    induction h with
    | @init z h =>
      obtain ⟨⟨x, f, _, hy⟩, hu⟩ := h
      rw [hy, hu]
      refine ⟨_, mounted_boot x f, ?_⟩
      exact ⟨fun he => absurd (show (0 : Nat) = 1 from he) (by decide), nofun⟩
    | @step z z' q _ hs ih =>
      obtain ⟨t, ht, hu⟩ := ih
      obtain ⟨hy, hu'⟩ := hs
      have hy : z'.1 = (memServe c q z.1).2 := hy
      refine ⟨_, hy ▸ (ht.serve q).2, ?_⟩
      rw [serve_home, hu', Bool.or_eq_true, hu, ht.table.accepted ht.layout.sane q]
  obtain ⟨t, ht, hu⟩ := hinv
  rw [← hu]
  constructor
  · intro hlaid
    exact (ht.table.symm.laidOut hlaid).home
  · intro hhome
    exact ht.table.laidOut (ht.layout.laidOut hhome)

/-- Two files are created, and the first one is deleted. -/
theorem layout_reachable_small :
    let y := memServe smallCfg (.delete fid7) (afterTwo 1)
    y.1 = .ok .done ∧ (LaidOut smallCfg (tableOf smallCfg y.2) ↔ true = true) := by
  constructor
  · rw [((afterTwo_mounted 1).serve (.delete fid7)).1]
    decide +kernel
  · have htwo : (updLts smallCfg).Reachable (afterTwo 1, true) :=
      first_serveAll _ _ (by decide +kernel)
    exact layout_reachable smallCfg (_, true) (.step (l := .delete fid7) htwo ⟨rfl, rfl⟩)

/-- Right after a wipe, logical block 0 is not the active metadata block. -/
theorem wiped_not_laidOut :
    ¬ ∀ (c : Cfg) (y : Sys Flash), (memLts c).Reachable y → LaidOut c (tableOf c y) := by
  intro h
  have hlaid := h smallCfg (booted smallCfg) (.init (booted_init smallCfg))
  have hhome := ((booted_mounted smallCfg).table.symm.laidOut hlaid).home
  exact absurd hhome (by decide)

end Layouts

/-! ## Deletion -/

section Delete

variable {c : Cfg} {t t' : Tab} {g : Nat}

theorem Layout.find_eq (hl : Layout c t none) (hg : g ≠ 0) {k : Nat} (hk : k < c.maxNumFiles)
    (hid : (t.fm k).id = g) : t.find c g = some k := by
  cases hf : t.find c g with
  | none => exact absurd hid (Tab.find_none hf hk)
  | some j =>
    obtain ⟨h1, h2, h3⟩ := Tab.find_used hg hf
    rw [(hl.distinct j k h1 hk h2 (h3.trans hid.symm)).elim id nofun]

/-- What is read of file `g` is the same. -/
def Tab.Same (c : Cfg) (t t' : Tab) (g : Nat) : Prop :=
  t'.info c g = t.info c g ∧ ∀ size offset, t'.read c g size offset = t.read c g size offset

/-- What is read of a file whose entry is kept. -/
theorem same_of_kept (hl' : Layout c t' none) (hg : g ≠ 0)
    (hids : ∀ k, k < c.maxNumFiles → (t'.fm k).id = g → (t.fm k).id = g)
    (hkept : ∀ k, k < c.maxNumFiles → (t.fm k).id = g → Kept t t' k) : t.Same c t' g := by
  unfold Tab.Same Tab.info Tab.read
  cases hf : t.find c g with
  | none =>
    have hf' : t'.find c g = none := by
      cases hf' : t'.find c g with
      | none => rfl
      | some k =>
        obtain ⟨h1, h2⟩ := Tab.find_some hf'
        exact absurd (hids k h1 h2) (Tab.find_none hf h1)
    rw [hf']
    exact ⟨rfl, fun _ _ => rfl⟩
  | some k =>
    obtain ⟨h1, h2⟩ := Tab.find_some hf
    have hk := hkept k h1 h2
    rw [hl'.find_eq hg h1 (hk.id.trans h2)]
    dsimp only
    rw [hk.cur, hk.size, hk.flags]
    refine ⟨rfl, fun size offset => ?_⟩
    split
    · next hc =>
      simp only [checkContainedIn, Bool.and_eq_true, decide_eq_true_eq] at hc
      have hbytes : t'.bytes (t'.fm k).lblock ((t'.fm k).dataIdx + offset) size =
          t.bytes (t.fm k).lblock ((t.fm k).dataIdx + offset) size := by
        refine List.map_congr_left fun n hn => ?_
        have hn := List.mem_range.1 hn
        rw [Nat.add_assoc, hk.data (offset + n) (by omega), Nat.add_assoc]
      rw [hbytes]
    · rfl

/-- The other files are what they were. -/
def SameFile (c : Cfg) (y y' : Sys Flash) (g : Fid) : Prop :=
  (memServe c (.info g) y').1 = (memServe c (.info g) y).1 ∧
  ∀ size offset, (memServe c (.read g size offset) y').1 = (memServe c (.read g size offset) y).1

theorem Mounted.sameFile {y y' : Sys Flash} {g : Fid} (h : Mounted c y t) (h' : Mounted c y' t')
    (hsame : t.Same c t' g.id) : SameFile c y y' g := by
  refine ⟨?_, fun size offset => ?_⟩
  · rw [(h'.serve (.info g)).1, (h.serve (.info g)).1]
    exact hsame.1
  · rw [(h'.serve (.read g size offset)).1, (h.serve (.read g size offset)).1]
    exact hsame.2 size offset

/-- The deletion of a file finds the later files of its block. -/
def DeletesSafely (c : Cfg) (t : Tab) (f : Fid) : Prop :=
  ∀ i, t.find c f.id = some i → DeleteSafe c t i

theorem SameTable.deletesSafely {u : Tab} (h : SameTable c t u) {f : Fid}
    (hs : DeletesSafely c t f) : DeletesSafely c u f := by
  intro i hi
  have hi' := (h.find f.id).trans hi
  have hin := (Tab.find_some hi).1
  have hsafe := hs i hi'
  unfold DeleteSafe at hsafe ⊢
  rw [h.fm i hin] at hsafe
  exact hsafe.imp id fun hno k hk => h.fm k hk ▸ hno k hk

/-- A deletion leaves the other files alone. -/
theorem Layout.same_delete (hl : Layout c t none) {fid i : Nat} {fill : Option UInt8}
    (hfid : fid ≠ 0) (hf : t.find c fid = some i) (hsafe : DeleteSafe c t i) (hg : g ≠ 0)
    (hne : g ≠ fid) : t.Same c (t.deleteIdx c fill i) g := by
  obtain ⟨hi, hu, hid⟩ := Tab.find_used hfid hf
  refine same_of_kept (hl.deleteIdx hi hu (.inl rfl)) hg (fun k hk hkid => ?_) fun k hk hkid => ?_
  · obtain ⟨hki, hku, _⟩ := hl.deleteIdx_file hi hu hk (FileMeta.used_of_id (hkid ▸ hg))
    have hkept : Kept t (t.deleteIdx c fill i) k := hl.kept_deleteIdx hi hu hsafe hk hki hku
    exact hkept.id.symm.trans hkid
  · have hki : k ≠ i := by
      intro h
      subst h
      exact hne (hkid.symm.trans hid)
    exact hl.kept_deleteIdx hi hu hsafe hk hki (FileMeta.used_of_id (hkid ▸ hg))

/-- A deleted file does not exist. -/
theorem Layout.info_deleted (hl : Layout c t none) {fid i : Nat} {fill : Option UInt8}
    (hfid : fid ≠ 0) (hf : t.find c fid = some i) :
    (t.deleteIdx c fill i).info c fid = .error .doesNotExist := by
  obtain ⟨hi, hu, hid⟩ := Tab.find_used hfid hf
  unfold Tab.info
  cases hf' : (t.deleteIdx c fill i).find c fid with
  | none => rfl
  | some k =>
    obtain ⟨hk, hku, hkid⟩ := Tab.find_used hfid hf'
    obtain ⟨hne, hku', hkm, _⟩ := hl.deleteIdx_file hi hu hk hku
    have hkid' : (t.fm k).id = fid := (congrArg FileMeta.id hkm).symm.trans hkid
    exact absurd (hl.distinct k i hk hi hku' (hkid'.trans hid.symm)) (by simp [hne])

/-- **A deletion leaves the other files alone**, where it finds the later files. -/
theorem delete_frame (c : Cfg) (y : Sys Flash) (hy : (memLts c).Reachable y) (f : Fid)
    (hok : (memServe c (.delete f) y).1 = .ok .done) (hsafe : DeletesSafely c (tableOf c y) f) :
    (memServe c (.info f) (memServe c (.delete f) y).2).1 = .error .doesNotExist ∧
    ∀ g : Fid, g.id ≠ f.id → SameFile c y (memServe c (.delete f) y).2 g := by
  obtain ⟨t, ht⟩ := reachable_mounted hy
  obtain ⟨hrep, ht'⟩ := ht.serve (.delete f)
  rw [hok] at hrep
  have hsafe' := ht.table.deletesSafely hsafe
  unfold Tab.serve Tab.delete at hrep ht'
  dsimp only at hrep ht'
  cases hf : t.find c f.id with
  | none =>
    rw [hf] at hrep
    cases hrep
  | some i =>
    rw [hf] at ht'
    have ht' : Mounted c (memServe c (.delete f) y).2 (t.deleteIdx c (some c.eraseVal) i) := ht'
    constructor
    · rw [(ht'.serve (.info f)).1]
      exact ht.layout.info_deleted f.valid hf
    · intro g hg
      exact ht.sameFile ht' (ht.layout.same_delete f.valid hf (hsafe' i hf) g.valid hg)

/-- File 7 has size 1, and is deleted. -/
theorem delete_frame_small : SameFile smallCfg (afterTwo 1)
    (memServe smallCfg (.delete fid7) (afterTwo 1)).2 fid8 := by
  have hm := afterTwo_mounted 1
  refine (delete_frame smallCfg (afterTwo 1)
    (reachable_serveAll (twoFiles 1) (.init (booted_init smallCfg))) fid7 ?_ ?_).2 fid8 (by decide)
  · rw [(hm.serve (.delete fid7)).1]
    decide +kernel
  · refine hm.table.symm.deletesSafely fun i hi => .inl ?_
    have hi : some 1 = some i := (by decide +kernel : _ = some 1).symm.trans hi
    cases hi
    decide +kernel

/-- The deletion of a file of size 0 overwrites the file behind it. -/
theorem delete_corrupts : ¬ ∀ (c : Cfg) (y : Sys Flash) (f : Fid), (memLts c).Reachable y →
    (memServe c (.delete f) y).1 = .ok .done →
    (memServe c (.info f) (memServe c (.delete f) y).2).1 = .error .doesNotExist ∧
    ∀ (g : Fid) (i : FileInfo), g.id ≠ f.id → (memServe c (.info g) y).1 = .ok (.info i) →
      (memServe c (.info g) (memServe c (.delete f) y).2).1 = .ok (.info i) ∧
      ∀ size offset, offset + size ≤ i.sizeCurrent →
        (memServe c (.read g size offset) (memServe c (.delete f) y).2).1 =
          (memServe c (.read g size offset) y).1 := by
  intro h
  have hm := afterTwo_mounted 0
  have hm' := (hm.serve (.delete fid7)).2
  have hok : (memServe smallCfg (.delete fid7) (afterTwo 0)).1 = .ok .done := by
    rw [(hm.serve (.delete fid7)).1]
    decide +kernel
  have hinfo : (memServe smallCfg (.info fid8) (afterTwo 0)).1 = .ok (.info ⟨5, 5, 0⟩) := by
    rw [(hm.serve (.info fid8)).1]
    decide +kernel
  have hsame := ((h smallCfg (afterTwo 0) fid7
    (reachable_serveAll (twoFiles 0) (.init (booted_init smallCfg))) hok).2 fid8 _ (by decide)
    hinfo).2 5 0 (by decide)
  rw [(hm'.serve (.read fid8 5 0)).1, (hm.serve (.read fid8 5 0)).1] at hsame
  exact absurd hsame (by decide +kernel)

end Delete

end Tfm.L4.Its
