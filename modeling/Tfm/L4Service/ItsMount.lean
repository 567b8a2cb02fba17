import Tfm.Core.Within
import Tfm.L4Service.ItsLayout

/-!
# Starting the ITS filesystem

`its_flash_fs_prepare` on a device that holds a filesystem, whatever is in the
scratch blocks, and `its_flash_fs_wipe_all` on any device; and the operations that
need no more than the layout: deletion, reading.

Results: `latest_next`, of two valid headers, one update apart, the newer one is
chosen; `wp_prepare`, `wp_wipeAll`, `wp_fileDelete`, `wp_write`, `wp_fileRead`,
`wp_fileGetInfo`.
-/
namespace Tfm.L4.Its
open Tfm.BlockDev Tfm.Bytes

/-! ## Which header counts -/

section Latest

variable {c : Cfg}

theorem nextSwapCount_toNat (n : UInt8) : (nextSwapCount c n).toNat =
    if (n.toNat + 1) % 256 = c.eraseVal.toNat then (n.toNat + 2) % 256 else (n.toNat + 1) % 256 := by
  have h1 : (n + 1).toNat = (n.toNat + 1) % 256 := by simp
  have h2 : (n + 2).toNat = (n.toNat + 2) % 256 := by simp
  unfold nextSwapCount validateSwapCount
  by_cases h : n + 1 = c.eraseVal
  · have h' := congrArg UInt8.toNat h
    rw [h1] at h'
    simp [h, h', h2]
  · have h' : ¬ (n.toNat + 1) % 256 = c.eraseVal.toNat := fun he =>
      h (UInt8.toNat_inj.1 (h1.trans he))
    simp only [ne_eq, h, not_false_eq_true, decide_true, if_true, if_neg h', h1]

/-- **The newer header is chosen.** Of two valid headers whose swap counts are one
update apart, the newer one counts, also where the count starts over. The erase
value 1 is the exception. -/
theorem latest_next (hev : c.eraseVal ≠ 1) {h0 h1 : Header} (hv : h0.activeSwapCount ≠ c.eraseVal)
    (hn : h1.activeSwapCount = nextSwapCount c h0.activeSwapCount) :
    latestMetaBlock c h0 h1 = 1 ∧ latestMetaBlock c h1 h0 = 0 := by
  have hlt := h0.activeSwapCount.toNat_lt
  have hel := c.eraseVal.toNat_lt
  have hne1 : c.eraseVal.toNat ≠ 1 := fun he => hev (UInt8.toNat_inj.1 he)
  have hnv : h0.activeSwapCount.toNat ≠ c.eraseVal.toNat := fun he => hv (UInt8.toNat_inj.1 he)
  have hnx : h1.activeSwapCount.toNat = _ := (congrArg UInt8.toNat hn).trans (nextSwapCount_toNat _)
  have hroll : (if c.eraseVal = 0 then 1 else 0) = if c.eraseVal.toNat = 0 then 1 else 0 := by
    by_cases he : c.eraseVal = 0
    · simp [he]
    · have : c.eraseVal.toNat ≠ 0 := fun h => he (UInt8.toNat_inj.1 h)
      rw [if_neg he, if_neg this]
  unfold latestMetaBlock
  simp only [hroll, hnx]
  generalize h0.activeSwapCount.toNat = n at *
  generalize c.eraseVal.toNat = e at *
  -- the next count: one more, or over the erase value, or from the start
  generalize hm : (if (n + 1) % 256 = e then (n + 2) % 256 else (n + 1) % 256) = m
  generalize hr : (if e = 0 then 1 else 0) = r
  have hm' : m = n + 1 ∨ m = n + 2 ∧ e = n + 1 ∨ m = 0 ∧ e ≠ 0 ∧ 254 ≤ n ∨
      m = 1 ∧ e = 0 ∧ n = 255 := by
    split at hm <;> omega
  have hr' : e = 0 ∧ r = 1 ∨ e ≠ 0 ∧ r = 0 := by
    split at hr <;> omega
  constructor
  · by_cases h1 : m = r ∧ n ≠ r + 1
    · rw [if_pos h1]
    · rw [if_neg h1, if_neg (by omega), if_pos (by omega)]
  · rw [if_neg (by omega)]
    by_cases h1 : m = r ∧ n ≠ r + 1
    · rw [if_pos h1]
    · rw [if_neg h1, if_neg (by omega)]

end Latest

/-! ## Starting -/

section Start

variable {c : Cfg} {bu on : Bool} {x : Ctx} {s : Media} {t : Tab} {C : Media → Prop}

/-- The device holds `t`, whatever is in the scratch blocks. -/
structure Startable (c : Cfg) (r : Rules) (s : Media) (t : Tab) : Prop where
  stored : Stored c r s t
  stale : Stale c s t
  pend : r.buffered → s.pend = none

theorem Cfg.header_room (c : Cfg) : c.headerSize ≤ c.fileMetaOffset 0 ∧
    c.fileMetaOffset 0 ≤ c.blockSize := by
  have h1 := c.fileMetaOffset_le
  have h2 := c.metaEnd_le
  exact ⟨c.headerSize_le, by omega⟩

theorem Rep.startable (h : Rep c (c.rules bu on) x s t) : Startable c (c.rules bu on) s t := by
  have h8 := c.le_headerSize
  have hr := c.header_room
  have hb : ∀ o, o < 6 → s.cell t.sm o = (c.rules bu on).blank := fun o ho =>
    h.clean.sm o (by omega) (.inl (by omega))
  exact ⟨h.stored, stale_of_blank rfl hb, h.clean.pend⟩

/-- Where the power was cut. -/
theorem Counts.startable (h : Counts c (c.rules false on) s t) :
    Startable c (c.rules false on) s t :=
  ⟨h.1, h.2 rfl, nofun⟩

theorem wp_readHeader {Q : Except PsaStatus (Header × Bool) → Ctx → Media → Prop} {b : Nat}
    (hb : b < 2) (hp : (c.rules bu on).buffered → s.pend ≠ some b) (hC : C s)
    (hQ : ∀ l : List UInt8, l.length = c.headerSize →
      (∀ i v, i < c.headerSize → (s.cell b i).val = some v → l[i]? = some v) →
      Q (.ok (.ofBytes l, validateHeaderMeta c (.ofBytes l))) x s) :
    wp (c.rules bu on) (readHeader c b) x s Q C := by
  have hr := c.header_room
  have h2 := c.two_le
  have hcan : CanRead (c.rules bu on) s b 0 c.headerSize := by
    refine ⟨Nat.lt_of_lt_of_le hb h2, ?_, hp⟩
    show 0 + c.headerSize ≤ c.blockSize
    omega
  refine wp_bind (wp_attempt (wp_read hcan hC fun l hl hv => ⟨?_, hC⟩))
  refine wp_pure (hQ l hl fun i v hi hcell => hv i v hi ?_) hC
  rw [Nat.zero_add]
  exact hcell

theorem Stored.header (h : Stored c (c.rules bu on) s t) (ht : Sane c t) {l : List UInt8}
    (hl : l.length = c.headerSize)
    (hv : ∀ i v, i < c.headerSize → (s.cell t.active i).val = some v → l[i]? = some v) :
    Header.ofBytes l = t.hdr := by
  have h8 := c.le_headerSize
  have htake := take_of_has h.hdr (by simp; omega) hl fun i v hi hcell =>
    hv i v hi (by rwa [Nat.zero_add] at hcell)
  rw [Header.length_bytes] at htake
  rw [← Header.ofBytes_take, htake, Header.ofBytes_bytes ht.hdr_fits]

/-- The header of the scratch metadata block is not valid, or a start does not take it. -/
theorem Startable.other (h : Startable c (c.rules bu on) s t) {l : List UInt8}
    (hv : ∀ i v, i < c.headerSize → (s.cell t.sm i).val = some v → l[i]? = some v) :
    validateHeaderMeta c (.ofBytes l) = false ∨ t.Latest c (.ofBytes l) := by
  have h8 := c.le_headerSize
  obtain ⟨k, hk, hkv, hno⟩ := h.stale
  have htake : l.take 6 = k := by
    apply List.ext_getElem?
    intro i
    rw [List.getElem?_take]
    by_cases hi : i < 6
    · have hki : k[i]? = some k[i] := List.getElem?_eq_getElem (by omega)
      rw [if_pos hi, hki]
      exact hv i _ (by omega) (hkv i _ hki)
    · rw [if_neg hi, List.getElem?_eq_none (by omega)]
  rw [← Header.ofBytes_take, htake]
  exact hno

theorem wp_initGetActiveMetablock {Q : Except PsaStatus Unit → Ctx → Media → Prop}
    (h : Startable c (c.rules bu on) s t) (ht : Sane c t) (hC : C s)
    (hQ : Q (.ok ()) { x with activeMetablock := t.active, scratchMetablock := t.sm } s) :
    wp (c.rules bu on) (initGetActiveMetablock c) x s Q C := by
  have hp : ∀ b, (c.rules bu on).buffered → s.pend ≠ some b := by
    intro b hb
    rw [h.pend hb]
    exact Option.some_ne_none b ∘ Eq.symm
  refine wp_bind (wp_readHeader (by decide) (hp 0) hC fun l0 hl0 hv0 => ?_)
  refine wp_bind (wp_readHeader (by decide) (hp 1) hC fun l1 hl1 hv1 => ?_)
  have hact := ht.active
  have hval : validateHeaderMeta c t.hdr = true := ht.hdr_valid
  by_cases ha : t.active = 0
  · have hsm : t.sm = 1 := by rw [Tab.sm, ha]; rfl
    have e0 : Header.ofBytes l0 = t.hdr := h.stored.header ht hl0 fun i v hi hc => by
      rw [ha] at hc
      exact hv0 i v hi hc
    have e1 := h.other fun i v hi hc => by
      rw [hsm] at hc
      exact hv1 i v hi hc
    simp only [e0, hval, Bool.not_true, Bool.false_and, Bool.true_and, Bool.false_eq_true, if_false]
    rw [ha, hsm] at hQ
    cases hv : validateHeaderMeta c (.ofBytes l1) with
    | false =>
      simp only [Bool.false_eq_true, if_false]
      exact wp_pure hQ hC
    | true =>
      rw [hv] at e1
      have hle : latestMetaBlock c t.hdr (.ofBytes l1) = 0 :=
        (if_pos ha).mp (e1.resolve_left (by simp))
      simp only [if_true, hle]
      exact wp_pure hQ hC
  · have ha1 : t.active = 1 := by omega
    have hsm : t.sm = 0 := by rw [Tab.sm, ha1]; rfl
    have e1 : Header.ofBytes l1 = t.hdr := h.stored.header ht hl1 fun i v hi hc => by
      rw [ha1] at hc
      exact hv1 i v hi hc
    have e0 := h.other fun i v hi hc => by
      rw [hsm] at hc
      exact hv0 i v hi hc
    simp only [e1, hval, Bool.not_true, Bool.and_false, Bool.and_true, Bool.false_eq_true, if_false,
      if_true]
    rw [ha1, hsm] at hQ
    cases hv : validateHeaderMeta c (.ofBytes l0) with
    | false =>
      simp only [Bool.false_eq_true, if_false]
      exact wp_pure hQ hC
    | true =>
      rw [hv] at e0
      have hle : latestMetaBlock c (.ofBytes l0) t.hdr = 1 :=
        (if_neg ha).mp (e0.resolve_left (by simp))
      simp only [if_true, hle]
      exact wp_pure hQ hC

variable (c) in
/-- The first part of `its_flash_fs_mblock_init`: the header is in RAM. -/
def loadHeader : M Unit := do
  let _ ← call .init
  recast .genericError (initGetActiveMetablock c)
  recast .genericError (readMetaHeader c)

theorem mblockInit_load : mblockInit c = loadHeader c >>= fun _ => eraseScratchBlocks c := by
  unfold mblockInit loadHeader
  simp only [bind_assoc]

theorem wp_loadHeader {Q : Except PsaStatus Unit → Ctx → Media → Prop}
    (h : Startable c (c.rules bu on) s t) (ht : Sane c t) (hs : C s)
    (hQ : Q (.ok ()) ⟨t.hdr, t.active, t.sm⟩ s) :
    wp (c.rules bu on) (loadHeader c) x s Q C := by
  have hr := c.header_room
  have h2 := c.two_le
  have hact := ht.active
  refine wp_bind (wp_init hs ?_)
  refine wp_bind (wp_recast (wp_initGetActiveMetablock h ht hs ⟨?_, hs⟩))
  have hcan : CanRead (c.rules bu on) s t.active 0 c.headerSize := by
    refine ⟨Nat.lt_of_lt_of_le hact h2, ?_, fun hb => ?_⟩
    · show 0 + c.headerSize ≤ c.blockSize
      omega
    · rw [h.pend hb]
      exact Option.some_ne_none t.active ∘ Eq.symm
  refine wp_recast (wp_get (wp_bind (wp_read hcan hs fun l hl hv => ?_)))
  have he : Header.ofBytes l = t.hdr := h.stored.header ht hl fun i v hi hc =>
    hv i v hi (by rwa [Nat.zero_add])
  refine wp_modify ?_
  simp only [he, ht.hdr_valid, if_true]
  exact wp_pure ⟨hQ, hs⟩ hs

theorem wp_mblockInit {Q : Except PsaStatus Unit → Ctx → Media → Prop}
    (h : Startable c (c.rules bu on) s t) (ht : Sane c t)
    (hC : ∀ s', Counts c (c.rules bu on) s' t → C s')
    (hQ : ∀ x' s', Rep c (c.rules bu on) x' s' t → Q (.ok ()) x' s') :
    wp (c.rules bu on) (mblockInit c) x s Q C := by
  have hs := hC s ⟨h.stored, fun _ => h.stale⟩
  rw [mblockInit_load]
  refine wp_bind (wp_loadHeader h ht hs ?_)
  exact wp_eraseScratchBlocks ht rfl h.stored hs h.pend hC fun s' hrep => hQ _ s' hrep

theorem Layout.find_marked {del : Option Nat} (h : Layout c t del) :
    findIdx t.fm (fun m => m.flags &&& flagDelete ≠ 0) c.maxNumFiles 0 = del := by
  have hmark : ∀ i, i < c.maxNumFiles → (t.fm i).flags &&& flagDelete ≠ 0 → del = some i := by
    intro i hi hf
    cases hu : (t.fm i).used with
    | true => exact (h.flag i hi hu).1 hf
    | false =>
      rw [h.sane.unused i hi hu] at hf
      exact absurd rfl hf
  cases hfind : findIdx t.fm (fun m => m.flags &&& flagDelete ≠ 0) c.maxNumFiles 0 with
  | some i =>
    obtain ⟨_, h1, h2⟩ := findIdx_lt _ hfind
    exact (hmark i (by omega) (by simpa using h2)).symm
  | none =>
    cases hd : del with
    | none => rfl
    | some i =>
      obtain ⟨h1, h2⟩ := h.target i hd
      have hno := findIdx_none _ hfind i (Nat.zero_le i) (by omega)
      have hf := (h.flag i h1 h2).2 hd
      simp only [decide_eq_false_iff_not] at hno
      exact absurd hf hno

/-- **A start.** It completes the deletion of a file that is marked. -/
theorem wp_prepare {Q : Except PsaStatus Unit → Ctx → Media → Prop} {del : Option Nat}
    (h : Startable c (c.rules bu on) s t) (hl : Layout c t del)
    (hbu : bu → ∀ i, del = some i → (t.fm i).lblock = 0)
    (hC0 : ∀ s', Counts c (c.rules bu on) s' t → C s')
    (hC1 : ∀ i, del = some i → ∀ s',
      Counts c (c.rules bu on) s' (t.deleteIdx c (c.rules bu on).fill i) → C s')
    (hQ : ∀ x' s', Rep c (c.rules bu on) x' s' (del.elim t (t.deleteIdx c (c.rules bu on).fill)) →
      Q (.ok ()) x' s') :
    wp (c.rules bu on) (prepare c) x s Q C := by
  refine wp_bind (wp_mblockInit h hl.sane hC0 fun x' s' hrep => ?_)
  have hs' := hC0 s' (hrep.counts hl.sane (.refl s'))
  refine wp_bind (wp_attempt (wp_findFileLoop (hrep.live hl.sane) hs' _ 0 (by omega) ⟨?_, hs'⟩))
  rw [hl.find_marked]
  cases hd : del with
  | none =>
    rw [hd] at hQ
    exact wp_pure (hQ x' s' hrep) hs'
  | some i =>
    subst hd
    obtain ⟨hi, hu⟩ := hl.target i rfl
    have hn : Layout c (t.deleteIdx c (c.rules bu on).fill i) none := hl.deleteIdx hi hu (.inr rfl)
    exact wp_deleteIdx hrep hl.sane hi hu (fun hb => hbu hb i rfl) (hl.scanFits hi hu) (.of_sane hn.sane)
      hC0 (hC1 i rfl) hQ

end Start

/-! ## Operations -/

section Ops

variable {c : Cfg} {bu on : Bool} {x : Ctx} {s : Media} {t : Tab} {C : Media → Prop} {fid : Nat}

theorem Tab.find_used (hfid : fid ≠ 0) {i : Nat} (h : t.find c fid = some i) :
    i < c.maxNumFiles ∧ (t.fm i).used = true ∧ (t.fm i).id = fid := by
  obtain ⟨h1, h2⟩ := Tab.find_some h
  exact ⟨h1, FileMeta.used_of_id (h2 ▸ hfid), h2⟩

theorem wp_fileDelete {Q : Except PsaStatus Unit → Ctx → Media → Prop}
    (h : Rep c (c.rules bu on) x s t) (hl : Layout c t none) (hfid : fid ≠ 0)
    (hbu : bu → ∀ i, t.find c fid = some i → (t.fm i).lblock = 0)
    (hC0 : ∀ s', Counts c (c.rules bu on) s' t → C s')
    (hC1 : ∀ i, t.find c fid = some i → ∀ s',
      Counts c (c.rules bu on) s' (t.deleteIdx c (c.rules bu on).fill i) → C s')
    (hQe : t.find c fid = none → Q (.error .doesNotExist) x s)
    (hQ : ∀ i, t.find c fid = some i → ∀ x' s',
      Rep c (c.rules bu on) x' s' (t.deleteIdx c (c.rules bu on).fill i) → Q (.ok ()) x' s') :
    wp (c.rules bu on) (fileDelete c fid) x s Q C := by
  have hs := hC0 s (h.counts hl.sane (.refl s))
  refine wp_bind (wp_recast (wp_getFileIdx (h.live hl.sane) hs ⟨?_, hs⟩))
  cases hf : t.find c fid with
  | none => exact ⟨hQe hf, hs⟩
  | some i =>
    obtain ⟨hi, hu, _⟩ := Tab.find_used hfid hf
    have hn : Layout c (t.deleteIdx c (c.rules bu on).fill i) none := hl.deleteIdx hi hu (.inl rfl)
    exact wp_deleteIdx h hl.sane hi hu (fun hb => hbu hb i hf) (hl.scanFits hi hu) (.of_sane hn.sane)
      hC0 (hC1 i hf) (hQ i hf)

/-- `wp_fileWrite` with what the layout gives. -/
theorem wp_write {Q : Except PsaStatus Unit → Ctx → Media → Prop}
    {flags maxSize dataSize offset : Nat} {data : Nat → UInt8}
    (h : Rep c (c.rules bu on) x s t) (hl : Layout c t none)
    (ha : Args c.toConfig fid flags dataSize)
    (hbu : bu → ∀ o new m b, t.lookup c fid flags (c.aligned maxSize) = .ok (some o, none) →
      t.reserve c fid flags (c.aligned maxSize) (some o) none = .ok (new, m, b) →
      (dataSize = 0 ∨ m.lblock = 0) ∧ (t.fm o).lblock = 0)
    (hC0 : ∀ s', Counts c (c.rules bu on) s' t → C s')
    (hC1 : ∀ t1 del s', t.firstUpdate c (c.rules bu on).fill fid flags maxSize dataSize offset data =
      .ok (t1, del) → Counts c (c.rules bu on) s' t1 → C s')
    (hC2 : ∀ t' s', t.write c (c.rules bu on).fill fid flags maxSize dataSize offset data = .ok t' →
      Counts c (c.rules bu on) s' t' → C s')
    (hQe : ∀ e s', t.write c (c.rules bu on).fill fid flags maxSize dataSize offset data = .error e →
      Refused c (c.rules bu on) t s s' → Q (.error e) x s')
    (hQ : ∀ x' s' t', t.write c (c.rules bu on).fill fid flags maxSize dataSize offset data = .ok t' →
      Rep c (c.rules bu on) x' s' t' → Q (.ok ()) x' s') :
    wp (c.rules bu on) (fileWrite c fid flags maxSize dataSize offset data) x s Q C := by
  refine wp_fileWrite h hl.sane ha.valid ha.buffer hbu (fun t1 del hu => hl.next_firstUpdate ha hu)
    (fun t1 o hu => ?_) hC0 hC1 hC2 hQe hQ
  have hl1 := hl.firstUpdate ha hu
  obtain ⟨ho, hou⟩ := hl1.target o rfl
  have hn : Layout c (t1.deleteIdx c (c.rules bu on).fill o) none :=
    hl1.deleteIdx ho hou (.inr rfl)
  exact ⟨hl1.scanFits ho hou, .of_sane hn.sane⟩

theorem Tab.write_eq {fill : Option UInt8} {flags maxSize dataSize offset : Nat}
    {data : Nat → UInt8} {t' : Tab}
    (hw : t.write c fill fid flags maxSize dataSize offset data = .ok t') :
    ∃ t1 del, t.firstUpdate c fill fid flags maxSize dataSize offset data = .ok (t1, del) ∧
      del.elim t1 (t1.deleteIdx c fill) = t' := by
  cases hu : t.firstUpdate c fill fid flags maxSize dataSize offset data with
  | error e =>
    unfold Tab.write at hw
    rw [hu] at hw
    cases hw
  | ok p =>
    rw [Tab.write_ok hu] at hw
    exact ⟨p.1, p.2, rfl, Except.ok.inj hw⟩

theorem Layout.write {fill : Option UInt8} {flags maxSize dataSize offset : Nat}
    {data : Nat → UInt8} {t' : Tab} (hl : Layout c t none) (ha : Args c.toConfig fid flags dataSize)
    (hw : t.write c fill fid flags maxSize dataSize offset data = .ok t') : Layout c t' none := by
  obtain ⟨t1, del, hu, rfl⟩ := Tab.write_eq hw
  have hl1 := hl.firstUpdate ha hu
  cases del with
  | none => exact hl1
  | some o =>
    obtain ⟨ho, hou⟩ := hl1.target o rfl
    exact hl1.deleteIdx ho hou (.inr rfl)

theorem wp_fileGetInfo {Q : Except PsaStatus FileInfo → Ctx → Media → Prop}
    (h : Live c bu on x s t) (hC : C s)
    (hQe : t.find c fid = none → Q (.error .doesNotExist) x s)
    (hQ : ∀ i, t.find c fid = some i →
      Q (.ok ⟨(t.fm i).curSize, (t.fm i).maxSize, (t.fm i).flags &&& userFlagsMask⟩) x s) :
    wp (c.rules bu on) (fileGetInfo c fid) x s Q C := by
  refine wp_bind (wp_recast (wp_getFileIdx h hC ⟨?_, hC⟩))
  cases hf : t.find c fid with
  | none => exact ⟨hQe hf, hC⟩
  | some i =>
    obtain ⟨hi, hid⟩ := Tab.find_some hf
    refine wp_bind (wp_readFileMeta h hi hC ?_)
    simp only [hid, ne_eq, not_true_eq_false, if_false]
    exact wp_pure (hQ i hf) hC

theorem wp_fileRead {Q : Except PsaStatus (List UInt8) → Ctx → Media → Prop} {size offset : Nat}
    (h : Live c bu on x s t) (hfid : fid ≠ 0) (hC : C s)
    (hQe : t.find c fid = none → Q (.error .doesNotExist) x s)
    (hQb : ∀ i, t.find c fid = some i → checkContainedIn (t.fm i).curSize offset size = false →
      Q (.error .invalidArgument) x s)
    (hQ : ∀ i l, t.find c fid = some i → checkContainedIn (t.fm i).curSize offset size = true →
      l.length = size → (∀ k v, k < size →
        t.data (t.fm i).lblock ((t.fm i).dataIdx + offset + k) = some v → l[k]? = some v) →
      Q (.ok l) x s) :
    wp (c.rules bu on) (fileRead c fid size offset) x s Q C := by
  refine wp_bind (wp_recast (wp_getFileIdx h hC ⟨?_, hC⟩))
  cases hf : t.find c fid with
  | none => exact ⟨hQe hf, hC⟩
  | some i =>
    obtain ⟨hi, hid⟩ := Tab.find_some hf
    have hu := FileMeta.used_of_id (hid ▸ hfid)
    have hfile := h.sane.inRange hi hu
    refine wp_bind (wp_recast (wp_readFileMeta h hi hC ⟨?_, hC⟩))
    dsimp only [Except.mapError]
    rw [if_neg (not_not.2 hid)]
    cases hc : checkContainedIn (t.fm i).curSize offset size with
    | false =>
      rw [if_pos (by decide)]
      exact wp_bind (wp_throw ⟨hQb i hf hc, hC⟩ hC)
    | true =>
      rw [if_neg (by decide)]
      have hc' := hc
      simp only [checkContainedIn, Bool.and_eq_true, decide_eq_true_eq] at hc'
      have hcur := hfile.cur
      have hend := hfile.fileEnd
      have hbs := c.blockSize_lt
      have hadd : add32 (t.fm i).dataIdx offset = (t.fm i).dataIdx + offset :=
        add32_of_lt (by omega)
      refine wp_recast (wp_bind (wp_recast (wp_readBlockMetadata h hfile.lblock hC ⟨?_, hC⟩)))
      rw [hadd]
      dsimp only [Except.mapError]
      rw [h.sane.phys_of_used hi hu]
      refine wp_read (h.canRead hfile.lblock (by omega)) hC fun l hlen hv => ⟨?_, hC⟩
      refine hQ i l hf hc hlen fun k v hk hd => hv k v hk ?_
      have hstart := hfile.start
      exact (h.stored.data _ hfile.lblock _ (by omega) (by omega) v hd).1

end Ops

end Tfm.L4.Its
