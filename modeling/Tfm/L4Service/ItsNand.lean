import Tfm.L4Service.ItsWrite

/-!
# The ITS filesystem over NAND flash

`its_flash_nand.c` collects the writes to one block in a buffer, which `flush`
programs; what was not written of the block is programmed with zeros. The filesystem
over this device (`nandOps`) next to the one over a device that commits every write
at once (`memOps`).

A deletion in a logical block other than 0 writes the file table to the scratch
metadata block and then data to the scratch data block, without a flush between
them; so does a replacement with another maximal size. A write that is refused after
it marked the old file leaves the mark in the buffer. Bytes of a file that an update
does not write are erased on one device and zero on the other.

Results: `guardFollows`, the device that watches how it is used follows the rules;
`nand_refines`, a run of calls that do none of this is the same on both devices.
-/
namespace Tfm.L4.Its
open Tfm.BlockDev Tfm.Bytes

/-! ## The device, watched -/

section Guard

variable (c : Config)

/-- The NAND device, and whether it was misused. -/
structure Guarded where
  nand : Nand
  misused : Bool

/-- A write to another block than that of the buffer, or a read of that block. -/
def Nand.misuse (d : Nand) : Op → Bool
  | .write b _ _ => d.bufBlockId ≠ none ∧ d.bufBlockId ≠ some b
  | .read b _ _ => d.bufBlockId = some b
  | _ => false

def guardOps : Dev PsaStatus Guarded := fun g o =>
  let r := nandOps c g.nand o
  (r.1, ⟨r.2, g.misused || g.nand.misuse o⟩)

/-- The device after `its_flash_nand_init`; its buffer is in memory that is zero. -/
def Guarded.init (f : Flash) : Guarded := ⟨⟨f, fun _ => 0, none⟩, false⟩

structure Guards (g : Guarded) (s : Media) : Prop where
  buffers : Buffers c g.nand s
  proper : g.misused = false

theorem guardFollows {on : Bool} : Follows (c.rules true on) (guardOps c) (Guards c) where
  step {g s o K} h hd := by
    obtain ⟨s', hK, hB⟩ := (nandFollows c).step h.buffers hd
    have hpend := h.buffers.pend
    refine ⟨s', hK, hB, ?_⟩
    simp only [guardOps, h.proper, Bool.false_or]
    cases o with
    | read b off n =>
      have hp := hd.2.2.1 rfl
      simpa [Nand.misuse, hpend] using hp
    | write b off data =>
      rcases hd.2.2.1 rfl with hp | ⟨hp, _⟩
      · simp [Nand.misuse, hpend, hp]
      · simp [Nand.misuse, hpend, hp]
    | init | flush | erase => rfl

theorem guards_init (f : Flash) : Guards c (.init f) ⟨fun _ _ => ⟨none, false⟩, none⟩ where
  buffers := ⟨rfl, nofun, nofun, nofun, fun _ _ => rfl, nofun⟩
  proper := rfl

end Guard

/-! ## Contents that stay known -/

section Keeps

variable {c : Cfg} {t u : Tab} {fill : Option UInt8} {del old : Option Nat} {new i : Nat}
  {m m' : FileMeta} {b : BlockMeta} {dl : Option (Nat → Option UInt8)} {dataSize offset : Nat}
  {data : Nat → UInt8}

theorem Tab.Full.deleteIdx (h : t.Full c) (hl : Layout c t del) (hi : i < c.maxNumFiles)
    (hu : (t.fm i).used = true) (hsafe : DeleteSafe c t i) : (t.deleteIdx c fill i).Full c := by
  intro k hk hku n hn
  obtain ⟨hne, hku', _⟩ := hl.deleteIdx_file hi hu hk hku
  have hkept : Kept t (t.deleteIdx c fill i) k := hl.kept_deleteIdx hi hu hsafe hk hne hku'
  rw [hkept.cur] at hn
  rw [hkept.data n hn]
  exact h k hk hku' n hn

/-- After a write that reaches up to the end of its file. -/
theorem Tab.Full.update (h : t.Full c) (hl : Layout c t none) (hT : Target c t new m b)
    (hbuf : Buffer c.toConfig dataSize)
    (hd : t.writeData c fill m b dataSize offset data = .ok (m', dl))
    (hm : m.curSize = 0 ∨ new < c.maxNumFiles ∧ (t.fm new).used = true ∧ m = t.fm new)
    (hend : dataSize = 0 ∨ m.curSize ≤ offset + c.aligned dataSize) :
    (t.update c fill m'.lblock b (t.table old new m') dl).Full c := by
  have hold : ∀ n, n < m.curSize → (t.data m.lblock (m.dataIdx + n)).isSome = true := by
    intro n hn
    obtain ⟨h1, h2, h3⟩ := hm.resolve_left (by omega)
    rw [h3] at hn ⊢
    exact h new h1 h2 n hn
  obtain ⟨hm', hdata⟩ := Tab.writeData_cases hd
  intro k hk hku n hn
  by_cases hkn : k = new
  · subst hkn
    have hself : (t.update c fill m'.lblock b (t.table old k m') dl).fm k = m' := Tab.table_self
    rw [hself] at hn ⊢
    rw [hT.own_data hbuf hd hn]
    rw [hm'] at hn
    dsimp only at hn
    split
    · next hlt =>
      refine hold n ?_
      rcases hdata with ⟨h0, _⟩ | ⟨h0, hoff, _⟩
      · rw [if_pos h0] at hn
        exact hn
      · have := hlt.resolve_left h0
        omega
    · next hge =>
      have h0 : dataSize ≠ 0 := fun h0 => hge (.inl h0)
      have hle := Config.le_aligned hbuf
      have := hend.resolve_left h0
      rw [if_neg h0] at hn
      rw [if_pos (by omega)]
      rfl
  · -- the entry of the old file has another flag
    have hentry : ((t.update c fill m'.lblock b (t.table old new m') dl).fm k).used = (t.fm k).used ∧
        ((t.update c fill m'.lblock b (t.table old new m') dl).fm k).curSize = (t.fm k).curSize ∧
        ((t.update c fill m'.lblock b (t.table old new m') dl).fm k).lblock = (t.fm k).lblock ∧
        ((t.update c fill m'.lblock b (t.table old new m') dl).fm k).dataIdx = (t.fm k).dataIdx := by
      have hfm : (t.update c fill m'.lblock b (t.table old new m') dl).fm k =
          if old = some k then { t.fm k with flags := (t.fm k).flags ||| flagDelete }
          else t.fm k := Tab.table_ne hkn
      rw [hfm]
      split <;> exact ⟨rfl, rfl, rfl, rfl⟩
    obtain ⟨h1, h2, h3, h4⟩ := hentry
    rw [h1] at hku
    rw [h2] at hn
    rw [h3, h4, hT.kept_data hl hd hk hkn hku hn]
    exact h k hk hku n hn

/-- The updates of the call write every byte of the files they are about, or know
where it is: a file is written up to its end, and a deletion finds the later files. -/
def Req.Keeps (c : Cfg) (t : Tab) : Req c.toConfig → Prop
  | .write a => (∀ o, t.find c a.fid.id = some o → a.flags &&& flagTruncate = 0 →
      a.dataSize = 0 ∨ (t.fm o).curSize ≤ a.offset + c.aligned a.dataSize) ∧ ReplacesSafely c t a
  | .delete fid => DeletesSafely c t fid
  | _ => True

/-- **Contents stay known**, also where cells that are not written are not. -/
theorem Tab.Full.serve (h : t.Full c) (hl : Layout c t none) {q : Req c.toConfig}
    (hk : q.Keeps c t) : (t.serve c fill q).2.Full c := by
  cases q with
  | write a =>
    obtain ⟨hend, hsafe⟩ := hk
    unfold Tab.serve
    dsimp only
    cases hw : t.writeArgs c fill a with
    | error e => exact h
    | ok t' =>
      obtain ⟨t1, del, hu, _⟩ := Tab.write_eq hw
      obtain ⟨_, old, reuse, _, _, _, _, _, hlk, _, _, _, _⟩ := Tab.firstUpdate_eq hu
      cases reuse with
      | some im =>
        obtain ⟨i, m⟩ := im
        obtain ⟨rfl, hf, _, hm⟩ := Tab.lookup_reuse hlk
        obtain ⟨h1, h2, _⟩ := Tab.find_used a.fid.valid hf
        obtain ⟨m', dl, hd, rfl⟩ := Tab.write_reuse hlk hw
        refine h.update hl (hl.writeTarget a.fid.valid hlk rfl) a.buffer hd
          (hm.imp id fun hm => ⟨h1, h2, hm.2⟩) ?_
        rcases hm with h0 | ⟨htr, rfl⟩
        · exact .inr (by omega)
        · exact hend i hf htr
      | none =>
        have hold : ∀ o, old = some o → o < c.maxNumFiles ∧ (t.fm o).used = true ∧
            (t.fm o).id = a.fid.id := fun o ho => Tab.lookup_old (ho ▸ hlk)
        obtain ⟨new, m, b, m', dl, hr, hd, hu, rfl⟩ :=
          Tab.write_new hlk (fun o ho => (hold o ho).2.1) hw
        obtain ⟨_, hunused, h0, _, _, _, hblock⟩ := Tab.reserve_new hr
        have h1 : (t.update c _ m'.lblock b (t.table old new m') dl).Full c :=
          h.update hl (hl.writeTarget a.fid.valid hlk hr) a.buffer hd (.inl h0) (.inr (by omega))
        cases old with
        | none => exact h1
        | some o =>
          have hl1 := hl.firstUpdate a.args hu
          obtain ⟨g1, g2⟩ := hl1.target o rfl
          obtain ⟨hf, htr, hmax⟩ := Tab.lookup_replace hlk
          obtain ⟨hs1, hs2⟩ := hsafe o hf htr hmax
          refine h1.deleteIdx hl1 g1 g2 (deleteSafe_update hunused (hold o rfl).2.1 hd h0 hs1 ?_)
          exact hs2.imp id (Or.imp id fun hb hlb => hb (by rw [hblock, hlb]))
  | delete fid =>
    unfold Tab.serve Tab.delete
    dsimp only
    cases hf : t.find c fid.id with
    | none => exact h
    | some i =>
      obtain ⟨h1, h2, _⟩ := Tab.find_used fid.valid hf
      exact h.deleteIdx hl h1 h2 (hk i hf)
  | read | info | prepare => exact h

end Keeps

/-! ## A call on both devices -/

section Pair

variable {c : Cfg} {t u : Tab} {y : Sys Flash} {z : Sys Guarded} {q : Req c.toConfig}

/-- A call that does the same over a device with a write buffer. -/
structure Req.Plain (c : Cfg) (t : Tab) (q : Req c.toConfig) : Prop where
  direct : q.accepted c t = true → q.Direct c t
  unmarked : q.accepted c t = false → q.marks c t = none
  keeps : c.eraseVal ≠ 0 → q.accepted c t = true → q.Keeps c t

theorem SameTable.direct (h : SameTable c t u) (hq : q.Direct c t) : q.Direct c u := by
  cases q with
  | write a =>
    intro o new m b hlk hr
    have ho := (Tab.find_some (Tab.lookup_some hlk).1).1
    rw [← h.lookup] at hlk
    rw [← h.reserve fun i m' hre => by cases hre] at hr
    rw [← h.fm o ho]
    exact hq o new m b hlk hr
  | delete fid =>
    intro i hi
    rw [← h.fm i (Tab.find_some hi).1]
    rw [← h.find] at hi
    exact hq i hi
  | read | info | prepare => trivial

theorem SameTable.keeps (h : SameTable c t u) (hq : q.Keeps c t) : q.Keeps c u := by
  cases q with
  | write a =>
    refine ⟨fun o hf => ?_, h.replacesSafely hq.2⟩
    rw [← h.fm o (Tab.find_some hf).1]
    rw [← h.find] at hf
    exact hq.1 o hf
  | delete fid => exact h.deletesSafely hq
  | read | info | prepare => trivial

theorem SameTable.plain (h : SameTable c t u) (hu : Sane c u) (hq : q.Plain c t) :
    q.Plain c u where
  direct ha := h.direct (hq.direct (by rw [h.accepted hu, ha]))
  unmarked ha := by
    rw [← h.marks]
    exact hq.unmarked (by rw [h.accepted hu, ha])
  keeps hev ha := h.keeps (hq.keeps hev (by rw [h.accepted hu, ha]))

/-- **A call over a device that follows the rules of a write buffer.** -/
theorem serve_buffered {δ : Type} {D : Dev PsaStatus δ} {R : δ → Media → Prop}
    (hD : Follows (c.rules true false) D R) {w : Sys δ} {s : Media} (hR : R w.2 s)
    (hrep : Rep c (c.rules true false) w.1 s t) (hl : Layout c t none) (hfull : t.Full c)
    (hq : q.Plain c t) :
    (serve c D q w).1 = (t.serve c (c.rules true false).fill q).1 ∧ ∃ s', R (serve c D q w).2.2 s' ∧
      Rep c (c.rules true false) (serve c D q w).2.1 s' (t.serve c (c.rules true false).fill q).2 := by
  have hwp : wp (c.rules true false) (q.prog c) w.1 s
      (fun r x' s' => r = (t.serve c (c.rules true false).fill q).1 ∧
        Rep c (c.rules true false) x' s' (t.serve c (c.rules true false).fill q).2)
      fun _ => True := by
    cases ha : q.accepted c t with
    | true =>
      refine wp_serve hrep hl hfull (fun _ => hq.direct ha) (fun _ _ => trivial)
        (fun e s' he _ => ?_) fun x' s' hrep' => ⟨rfl, hrep'⟩
      exact absurd (accepted_done ha) (by rw [he]; exact nofun)
    | false =>
      have hno : ∀ o, o ∉ q.marks c t := fun o ho => by
        rw [hq.unmarked ha] at ho
        cases ho
      rw [serve_refused ha]
      exact wp_refused (hrep.live hl.sane) hrep.startable hl hfull ha
        (fun o ho => absurd ho (hno o)) (fun _ => ⟨rfl, hrep⟩) (fun o _ ho => absurd ho (hno o))
        fun _ x' s' hrep' => ⟨rfl, hrep'⟩
  obtain ⟨s', ⟨h1, h2⟩, h3⟩ := hD.run hR hwp
  exact ⟨h1, s', h3, h2⟩

/-- Both filesystems hold `t`, and no bytes of its files are lost. -/
structure Paired (c : Cfg) (y : Sys Flash) (z : Sys Guarded) (t : Tab) : Prop where
  direct : ∃ s, Agrees y.2 s ∧ Rep c (c.rules true false) y.1 s t
  buffered : ∃ s, Guards c.toConfig z.2 s ∧ Rep c (c.rules true false) z.1 s t
  layout : Layout c t none
  full : t.Full c
  known : c.eraseVal = 0 → t.Known

/-- If the erase value is 0, a buffer programs what is not written with that value. -/
theorem fill_zero (h : c.eraseVal = 0) : (c.rules true false).fill.isSome = true := by
  unfold Rules.fill Rules.loose
  simp [Config.rules, h]

theorem Paired.table (h : Paired c y z t) : SameTable c (tableOf c y) t := by
  obtain ⟨s, hs, hrep⟩ := h.direct
  exact hrep.table hs h.layout.sane

/-- **A call on both devices.** -/
theorem Paired.serve (h : Paired c y z t) (hq : q.Plain c (tableOf c y)) :
    (Its.serve c (guardOps c.toConfig) q z).1 = (memServe c q y).1 ∧
      Paired c (memServe c q y).2 (Its.serve c (guardOps c.toConfig) q z).2
        (t.serve c (c.rules true false).fill q).2 := by
  have hplain := h.table.plain h.layout.sane hq
  obtain ⟨s, hs, hrep⟩ := h.direct
  obtain ⟨s', hs', hrep'⟩ := h.buffered
  obtain ⟨h1, h2⟩ := serve_buffered (memFollows c.toConfig) hs hrep h.layout h.full hplain
  obtain ⟨h3, h4⟩ := serve_buffered (guardFollows c.toConfig) hs' hrep' h.layout h.full hplain
  have hknown : c.eraseVal = 0 → (t.serve c (c.rules true false).fill q).2.Known :=
    fun hev => (h.known hev).serve (fill_zero hev) q
  refine ⟨h3.trans h1.symm, h2, h4, h.layout.serve q, ?_, hknown⟩
  by_cases hev : c.eraseVal = 0
  · exact (hknown hev).full
  · cases ha : q.accepted c t with
    | true => exact h.full.serve h.layout (hplain.keeps hev ha)
    | false =>
      rw [serve_refused ha]
      exact h.full

theorem paired_boot (x : Ctx) (f : Flash) :
    Paired c (runOn (memOps c.toConfig) (boot c) (x, f)).2
      (runOn (guardOps c.toConfig) (boot c) (x, .init f)).2
      (Tab.fresh c (c.rules true false).fill) := by
  have hwp : wp (c.rules true false) (boot c) x ⟨fun _ _ => ⟨none, false⟩, none⟩
      (fun _ x' s' => Rep c (c.rules true false) x' s' (Tab.fresh c (c.rules true false).fill))
      fun _ => True := wp_boot (fun _ => rfl) fun _ _ hrep => hrep
  have hmem : Agrees f ⟨fun _ _ => ⟨none, false⟩, none⟩ := fun _ _ _ hv => nomatch hv
  obtain ⟨s, h1, h2⟩ := (memFollows c.toConfig).run hmem hwp
  obtain ⟨s', h3, h4⟩ := (guardFollows c.toConfig).run (guards_init c.toConfig f) hwp
  refine ⟨⟨s, h2, h1⟩, ⟨s', h4, h3⟩, .fresh, fun i _ hu => ?_, fun hev _ _ => fill_zero hev⟩
  exact absurd (show FileMeta.zero.used = true from hu) (by decide)

end Pair

/-! ## Runs -/

/-- The filesystem over the watched NAND device, after a wipe and a start. -/
abbrev nandBooted (c : Cfg) (x : Ctx) (f : Flash) : Sys Guarded :=
  (runOn (guardOps c.toConfig) (boot c) (x, .init f)).2

/-- Every call of a run meets `Req.Plain`. -/
def AllPlain (c : Cfg) : List (Req c.toConfig) → Sys Flash → Prop
  | [], _ => True
  | q :: qs, y => q.Plain c (tableOf c y) ∧ AllPlain c qs (memServe c q y).2

theorem Paired.serveAll {c : Cfg} (qs : List (Req c.toConfig)) : ∀ {y : Sys Flash} {z : Sys Guarded}
    {t : Tab}, Paired c y z t → AllPlain c qs y →
    (Its.serveAll c (guardOps c.toConfig) qs z).1 = (Its.serveAll c (memOps c.toConfig) qs y).1 ∧
      ∃ t', Paired c (Its.serveAll c (memOps c.toConfig) qs y).2
        (Its.serveAll c (guardOps c.toConfig) qs z).2 t' := by
  induction qs with
  | nil => exact fun h _ => ⟨rfl, _, h⟩
  | cons q qs ih =>
    intro y z t h hqs
    obtain ⟨h1, h2⟩ := h.serve hqs.1
    obtain ⟨h3, h4⟩ := ih h2 hqs.2
    unfold Its.serveAll
    exact ⟨congrArg₂ _ h1 h3, h4⟩

theorem plain_read {c : Cfg} {t : Tab} (g : Fid) (size offset : Nat) :
    (Req.read (c := c.toConfig) g size offset).Plain c t := ⟨nofun, fun _ => rfl, nofun⟩

theorem plain_info {c : Cfg} {t : Tab} (g : Fid) : (Req.info (c := c.toConfig) g).Plain c t :=
  ⟨nofun, fun _ => rfl, nofun⟩

theorem plain_create {c : Cfg} {t : Tab} {a : WriteArgs c.toConfig}
    (hf : t.find c a.fid.id = none) : (Req.write a).Plain c t where
  direct _ o new m b hl _ := by
    rw [(Tab.lookup_some hl).1] at hf
    cases hf
  unmarked _ := by
    unfold Req.marks Tab.lookup
    dsimp only
    rw [hf]
    dsimp only
    split
    · rfl
    · split
      · next hl =>
        split at hl <;> cases hl
      · rfl
  keeps _ _ := by
    refine ⟨fun o ho => ?_, fun o ho => ?_⟩
    · rw [ho] at hf
      cases hf
    · rw [ho] at hf
      cases hf

/-- A run from a wipe is the same on both devices: the replies, and what is read of
every file after it. No block is written while another one is in the buffer, and none
is read that is in it. -/
structure SameOnNand (c : Cfg) (x : Ctx) (f : Flash) (qs : List (Req c.toConfig)) : Prop where
  replies : (serveAll c (guardOps c.toConfig) qs (nandBooted c x f)).1 =
    (serveAll c (memOps c.toConfig) qs (memBooted c x f)).1
  proper : (serveAll c (guardOps c.toConfig) qs (nandBooted c x f)).2.2.misused = false
  info : ∀ g : Fid, (serve c (guardOps c.toConfig) (.info g)
      (serveAll c (guardOps c.toConfig) qs (nandBooted c x f)).2).1 =
    (memServe c (.info g) (serveAll c (memOps c.toConfig) qs (memBooted c x f)).2).1
  read : ∀ (g : Fid) (size offset : Nat), (serve c (guardOps c.toConfig) (.read g size offset)
      (serveAll c (guardOps c.toConfig) qs (nandBooted c x f)).2).1 =
    (memServe c (.read g size offset) (serveAll c (memOps c.toConfig) qs (memBooted c x f)).2).1

/-- **The NAND device does what a device without a buffer does**, in every run in which
each call meets `Req.Plain`. -/
theorem nand_refines (c : Cfg) (x : Ctx) (f : Flash) (qs : List (Req c.toConfig))
    (hqs : AllPlain c qs (memBooted c x f)) : SameOnNand c x f qs := by
  obtain ⟨hrep, t, ht⟩ := (paired_boot x f).serveAll qs hqs
  obtain ⟨s, hs, _⟩ := ht.buffered
  exact ⟨hrep, hs.proper, fun g => (ht.serve (plain_info g)).1,
    fun g size offset => (ht.serve (plain_read g size offset)).1⟩

/-- A file of one byte. -/
def oneByte (c : Cfg) (f : Fid) (h : Buffer c.toConfig 1) : Req c.toConfig :=
  .write (createArgs c f 1 [5] h)

/-- A file is created and read. -/
theorem nand_refines_created : SameOnNand smallCfg .zero (fun _ _ => 0)
    [oneByte smallCfg fid7 (by decide), .read fid7 1 0] :=
  nand_refines smallCfg .zero (fun _ _ => 0) _
    ⟨plain_create (by decide +kernel), plain_read fid7 1 0, trivial⟩

/-- Two metadata blocks without room for data, and two data blocks. -/
def dataCfg : Cfg where
  blockSize := 128
  numBlocks := 4
  programUnit := 1
  maxFileSize := 10
  maxNumFiles := 3
  eraseVal := 0xFF
  maxAlign := 1
  validate := true
  blockSize_lt := by decide
  numBlocks_lt := by decide
  programUnit_lt := smallCfg.programUnit_lt
  maxFileSize_lt := smallCfg.maxFileSize_lt
  maxNumFiles_lt := smallCfg.maxNumFiles_lt
  programUnit_pos := Nat.zero_lt_one
  accepted := by decide

/-- Two files in a data block, of which the first is deleted. -/
def deleteFirst : List (Req dataCfg.toConfig) :=
  [oneByte dataCfg fid7 (by decide), oneByte dataCfg fid8 (by decide), .delete fid7]

/-- On the NAND device, a deletion in a data block fails. -/
theorem nand_delete_fails : ¬ ∀ (c : Cfg) (x : Ctx) (f : Flash) (qs : List (Req c.toConfig)),
    SameOnNand c x f qs := by
  intro h
  have hrun := (h dataCfg .zero (fun _ _ => 0) deleteFirst).replies
  exact absurd hrun (by decide +kernel)

end Tfm.L4.Its
