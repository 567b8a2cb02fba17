import Tfm.L4Service.Its

/-!
# Flash devices of the ITS filesystem

The implementations of `struct its_flash_fs_ops_t`. `memOps` commits every write at
once and overwrites (its_flash_ram.c; its_flash_nor.c over a driver that does);
`norOps` is its_flash_nor.c over flash that can only move bits away from the erase
value; `nandOps` is its_flash_nand.c, which collects the writes to one block in a
buffer until `flush`. `trackOps` is `memOps` that also watches for bytes programmed
twice between two erases.

A call outside of the flash area is refused with `PSA_ERROR_STORAGE_FAILURE`, as a
driver does; sector erases of one block are one erase.

Results: `memFollows`, `trackFollows` and `nandFollows`, the devices follow the
rules of `Media`; `run_nor`, flash is overwriting memory for a run that programs
no byte twice.
-/
namespace Tfm.L4.Its
open Tfm.BlockDev

abbrev Flash := Nat → Nat → UInt8

section Devices

variable (c : Config)

def Config.inArea (b off n : Nat) : Prop := b < c.numBlocks ∧ off + n ≤ c.blockSize

instance (b off n : Nat) : Decidable (c.inArea b off n) :=
  inferInstanceAs (Decidable (_ ∧ _))

def Flash.read (f : Flash) (b off n : Nat) : List UInt8 :=
  (List.range n).map fun i => f b (off + i)

def Flash.write (f : Flash) (b off : Nat) (data : List UInt8) : Flash := fun b' o =>
  if b' = b ∧ off ≤ o ∧ o < off + data.length then data.getD (o - off) 0 else f b' o

def Flash.erase (f : Flash) (ev : UInt8) (b : Nat) : Flash := fun b' o =>
  if b' = b then ev else f b' o

/-- mirrors secure_fw/partitions/internal_trusted_storage/flash/its_flash_ram.c:29-81 -/
def memOps : Dev PsaStatus Flash := fun f o =>
  match o with
  | .init => (.ok [], f)
  | .read b off n =>
    if c.inArea b off n then (.ok (f.read b off n), f) else (.error .storageFailure, f)
  | .write b off data =>
    if c.inArea b off data.length then (.ok [], f.write b off data) else (.error .storageFailure, f)
  | .flush => (.ok [], f)
  | .erase b =>
    if b < c.numBlocks then (.ok [], f.erase c.eraseVal b) else (.error .storageFailure, f)

/-- A write of which `n` bytes were done. -/
def Flash.tear (f : Flash) : Op → Nat → Flash
  | .write b off data, n => if c.inArea b off data.length then f.write b off (data.take n) else f
  | _, _ => f

/-- Programming moves bits away from the erase value only. -/
def programByte (ev old new : UInt8) : UInt8 :=
  (old &&& new &&& ev) ||| ((old ||| new) &&& ~~~ ev)

def Flash.program (f : Flash) (ev : UInt8) (b off : Nat) (data : List UInt8) : Flash :=
  fun b' o =>
    if b' = b ∧ off ≤ o ∧ o < off + data.length then programByte ev (f b' o) (data.getD (o - off) 0)
    else f b' o

/-- mirrors secure_fw/partitions/internal_trusted_storage/flash/its_flash_nor.c:46-106 -/
def norOps : Dev PsaStatus Flash := fun f o =>
  match o with
  | .write b off data =>
    if c.inArea b off data.length then (.ok [], f.program c.eraseVal b off data)
    else (.error .storageFailure, f)
  | o => memOps c f o

structure Tracked where
  mem : Flash
  /-- programmed since the last erase -/
  programmed : Nat → Nat → Bool
  /-- some write touched a byte that was programmed -/
  twice : Bool

def trackOps : Dev PsaStatus Tracked := fun t o =>
  let x := memOps c t.mem o
  match o with
  | .write b off data =>
    if c.inArea b off data.length then
      (x.1, { mem := x.2
              programmed := fun b' o =>
                (b' = b ∧ off ≤ o ∧ o < off + data.length) || t.programmed b' o
              twice := t.twice || (List.range data.length).any fun i => t.programmed b (off + i) })
    else (x.1, { t with mem := x.2 })
  | .erase b =>
    if b < c.numBlocks then
      (x.1, { t with mem := x.2, programmed := fun b' o => if b' = b then false else t.programmed b' o })
    else (x.1, { t with mem := x.2 })
  | _ => (x.1, { t with mem := x.2 })

/-- `struct its_flash_nand_dev_t`; `none` is `ITS_BLOCK_INVALID_ID`. The buffer is
as large as a block, as `its_flash_nand_init` demands. -/
structure Nand where
  flash : Flash
  buf : Nat → UInt8
  bufBlockId : Option Nat

/-- mirrors secure_fw/partitions/internal_trusted_storage/flash/its_flash_nand.c:28-122 -/
def nandOps : Dev PsaStatus Nand := fun d o =>
  match o with
  | .init => (.ok [], d)
  | .read b off n =>
    if c.inArea b off n then (.ok (d.flash.read b off n), d) else (.error .storageFailure, d)
  | .write b off data =>
    if d.bufBlockId ≠ none ∧ d.bufBlockId ≠ some b then (.error .programmerError, d)
    else
      (.ok [], { d with
        bufBlockId := some b
        buf := fun o =>
          if off ≤ o ∧ o < off + data.length then data.getD (o - off) 0 else d.buf o })
  | .flush =>
    match d.bufBlockId with
    -- the address of ITS_BLOCK_INVALID_ID is not in the flash area
    | none => (.error .storageFailure, d)
    | some b =>
      if b < c.numBlocks then
        (.ok [], ⟨fun b' o => if b' = b ∧ o < c.blockSize then d.buf o else d.flash b' o,
          fun _ => 0, none⟩)
      else (.error .storageFailure, d)
  | .erase b =>
    if b < c.numBlocks then (.ok [], { d with flash := d.flash.erase c.eraseVal b })
    else (.error .storageFailure, d)

end Devices

/-! ## Devices follow the rules -/

section Follow

variable (c : Config) {bu on : Bool}

def Config.rules (bu on : Bool) : Rules := ⟨c.numBlocks, c.blockSize, c.eraseVal, bu, on⟩

/-- What is known of a cell is what the memory holds. -/
def Agrees (f : Flash) (s : Media) : Prop := ∀ b o v, (s.cell b o).val = some v → f b o = v

theorem Agrees.read {f : Flash} {s : Media} (h : Agrees f s) (b off n : Nat) :
    (f.read b off n).length = n ∧
    ∀ i v, i < n → (s.cell b (off + i)).val = some v → (f.read b off n)[i]? = some v := by
  constructor
  · simp [Flash.read]
  · intro i v hi hv
    simp [Flash.read, hi, h b (off + i) v hv]

theorem getD_of_getElem? {l : List UInt8} {i : Nat} {v : UInt8} (h : l[i]? = some v) :
    l.getD i 0 = v := by rw [List.getD_eq_getElem?_getD, h]; rfl

theorem Agrees.write {f : Flash} {s : Media} {r : Rules} (h : Agrees f s) (b off : Nat)
    (data : List UInt8) : Agrees (f.write b off data) (s.write r b off data) := by
  intro b' o v hv
  by_cases hb : b' = b
  · subst hb
    by_cases hr : off ≤ o ∧ o < off + data.length
    · simp only [Media.write, if_true, if_pos hr] at hv
      simp only [Flash.write, hr, and_self, if_true]
      exact getD_of_getElem? hv
    · simp only [Media.write, if_true, if_neg hr] at hv
      simp only [Flash.write, hr, and_false, if_false]
      split at hv
      · cases hv
      · exact h b' o v hv
  · simp only [Media.write, if_neg hb] at hv
    simp only [Flash.write, hb, false_and, if_false]
    exact h b' o v hv

theorem Agrees.erase {f : Flash} {s : Media} {r : Rules} (h : Agrees f s) (b : Nat) :
    Agrees (f.erase r.ev b) (s.erase r b) := by
  intro b' o v hv
  by_cases hb : b' = b
  · simp only [Media.erase, if_pos hb, Rules.blank, Option.some.injEq] at hv
    simp only [Flash.erase, if_pos hb, hv]
  · simp only [Media.erase, if_neg hb] at hv
    simp only [Flash.erase, if_neg hb]
    exact h b' o v hv

/-- **Overwriting memory follows the rules.** -/
theorem memFollows : Follows (c.rules bu on) (memOps c) Agrees where
  step {f s o K} h hd := by
    cases o with
    | init => exact ⟨s, hd, h⟩
    | read b off n =>
      obtain ⟨hb, hn, _, hK⟩ := hd
      have hin : c.inArea b off n := ⟨hb, hn⟩
      have hr := h.read b off n
      simp only [memOps, if_pos hin]
      exact ⟨s, hK _ hr.1 hr.2, h⟩
    | write b off data =>
      obtain ⟨hb, hn, _, _, hK⟩ := hd
      have hin : c.inArea b off data.length := ⟨hb, hn⟩
      simp only [memOps, if_pos hin]
      exact ⟨_, hK, h.write b off data⟩
    | flush => exact ⟨_, hd.2, h⟩
    | erase b =>
      obtain ⟨hb, _, hK⟩ := hd
      have hin : b < c.numBlocks := hb
      simp only [memOps, if_pos hin]
      exact ⟨_, hK, h.erase b⟩

theorem mem_tear {f : Flash} {s : Media} {o : Op} {K : Except PsaStatus (List UInt8) → Media → Prop}
    (n : Nat) (h : Agrees f s) (hd : demand (c.rules bu on) s K o) :
    Agrees (f.tear c o n) (s.tear (c.rules bu on) o n) := by
  cases o with
  | write b off data =>
    have hin : c.inArea b off data.length := ⟨hd.1, hd.2.1⟩
    simp only [Flash.tear, if_pos hin, Media.tear]
    exact h.write b off (data.take n)
  | init | read | flush | erase => exact h

/-- The watched memory: no byte was programmed twice. -/
structure Watches (t : Tracked) (s : Media) : Prop where
  mem : Agrees t.mem s
  prog : ∀ b o, t.programmed b o = (s.cell b o).prog
  once : t.twice = false

theorem trackFollows : Follows (c.rules bu true) (trackOps c) Watches where
  step {t s o K} h hd := by
    cases o with
    | init => exact ⟨s, hd, h⟩
    | read b off n =>
      have hin : c.inArea b off n := ⟨hd.1, hd.2.1⟩
      have hr := h.mem.read b off n
      simp only [trackOps, memOps, if_pos hin]
      exact ⟨s, hd.2.2.2 _ hr.1 hr.2, h⟩
    | write b off data =>
      obtain ⟨hb, hn, _, honce, hK⟩ := hd
      have hin : c.inArea b off data.length := ⟨hb, hn⟩
      simp only [trackOps, memOps, if_pos hin]
      refine ⟨_, hK, h.mem.write b off data, ?_, ?_⟩
      · intro b' o
        by_cases hb' : b' = b
        · subst hb'
          by_cases hr : off ≤ o ∧ o < off + data.length
          · simp [Media.write, hr]
          · simp only [Media.write, hr, h.prog, if_true, if_false]
            split
            · next hl => simpa using hl.2
            · simp
        · simp [Media.write, hb', h.prog]
      · simp only [h.once, Bool.false_or, List.any_eq_false, List.mem_range]
        intro i hi
        rw [h.prog, honce rfl i hi]
        simp
    | flush => exact ⟨_, hd.2, h.mem, h.prog, h.once⟩
    | erase b =>
      obtain ⟨hb, _, hK⟩ := hd
      have hin : b < c.numBlocks := hb
      simp only [trackOps, memOps, if_pos hin]
      refine ⟨_, hK, h.mem.erase b, ?_, h.once⟩
      intro b' o
      by_cases hb' : b' = b
      · simp [Media.erase, hb', Rules.blank]
      · simp [Media.erase, hb', h.prog]

/-- The NAND device: the buffer holds the block whose writes are not flushed. -/
structure Buffers (c : Config) (d : Nand) (s : Media) : Prop where
  pend : d.bufBlockId = s.pend
  area : ∀ b, s.pend = some b → b < c.numBlocks
  flash : ∀ b o v, s.pend ≠ some b → o < c.blockSize → (s.cell b o).val = some v → d.flash b o = v
  buf : ∀ b o v, s.pend = some b → o < c.blockSize → (s.cell b o).val = some v → d.buf o = v
  clear : s.pend = none → ∀ o, d.buf o = 0
  blank : ∀ b o v, (s.cell b o).prog = false → (s.cell b o).val = some v → v = c.eraseVal

theorem Buffers.write {d : Nand} {s : Media} {b off : Nat} {data : List UInt8}
    (h : Buffers c d s) (hb : b < c.numBlocks)
    (hopen : s.pend = some b ∨ s.pend = none ∧ s.Fresh (c.rules true on) b) :
    Buffers c { d with
      bufBlockId := some b
      buf := fun o => if off ≤ o ∧ o < off + data.length then data.getD (o - off) 0 else d.buf o }
      (s.write (c.rules true on) b off data) where
  pend := rfl
  area b' hb' := by
    have : b = b' := Option.some.inj hb'
    omega
  flash b' o v hp ho hv := by
    have hne : b' ≠ b := fun he => hp (by rw [he]; rfl)
    simp only [Media.write, if_neg hne] at hv
    refine h.flash b' o v ?_ ho hv
    rcases hopen with hs | hs
    · rw [hs]
      exact fun he => hne (Option.some.inj he).symm
    · rw [hs.1]
      exact Option.some_ne_none b' ∘ Eq.symm
  buf b' o v hp ho hv := by
    have he : b' = b := (Option.some.inj hp).symm
    subst he
    by_cases hr : off ≤ o ∧ o < off + data.length
    · simp only [Media.write, if_true, if_pos hr] at hv
      simp only [if_pos hr]
      exact getD_of_getElem? hv
    · simp only [Media.write, if_true, if_neg hr] at hv
      simp only [if_neg hr]
      split at hv
      · cases hv
      · next hl =>
        rcases hopen with hs | hs
        · exact h.buf b' o v hs ho hv
        · -- the first write to a block: the buffer is zero, and so is the erase value
          have hp := hs.2 o ho
          rw [h.clear hs.1 o, h.blank b' o v hp hv]
          have hev : c.eraseVal = 0 := by simpa [Rules.loose, Config.rules, hp] using hl
          exact hev.symm
  clear hp := by cases hp
  blank b' o v hp hv := by
    by_cases hb' : b' = b
    · subst hb'
      simp only [Media.write, if_true] at hp hv
      split at hp
      · cases hp
      · next hr =>
        rw [if_neg hr] at hv
        split at hp
        · next hl =>
          rw [if_pos hl] at hv
          cases hv
        · next hl =>
          rw [if_neg hl] at hv
          exact h.blank b' o v hp hv
    · simp only [Media.write, if_neg hb'] at hp hv
      exact h.blank b' o v hp hv

/-- **The buffered NAND device follows the rules.** -/
theorem nandFollows : Follows (c.rules true on) (nandOps c) (Buffers c) where
  step {d s o K} h hd := by
    cases o with
    | init => exact ⟨s, hd, h⟩
    | read b off n =>
      obtain ⟨hb, hn, hp, hK⟩ := hd
      have hin : c.inArea b off n := ⟨hb, hn⟩
      simp only [nandOps, if_pos hin]
      refine ⟨s, hK _ (by simp [Flash.read]) ?_, h⟩
      intro i v hi hv
      have ho : off + i < c.blockSize := Nat.lt_of_lt_of_le (Nat.add_lt_add_left hi off) hn
      simp [Flash.read, hi, h.flash b (off + i) v (hp rfl) ho hv]
    | write b off data =>
      obtain ⟨hb, hn, hopen, _, hK⟩ := hd
      have ho := hopen rfl
      have hid : ¬ (d.bufBlockId ≠ none ∧ d.bufBlockId ≠ some b) := by
        rw [h.pend]
        rcases ho with hs | hs
        · exact fun hn => hn.2 hs
        · exact fun hn => hn.1 hs.1
      simp only [nandOps, if_neg hid]
      exact ⟨_, hK, h.write c hb ho⟩
    | flush =>
      obtain ⟨hp, hK⟩ := hd
      obtain ⟨b, hb⟩ := Option.ne_none_iff_exists'.mp (hp rfl)
      have hin : b < c.numBlocks := h.area b hb
      simp only [nandOps, h.pend, hb, if_pos hin]
      refine ⟨_, hK, rfl, (fun b' hb' => nomatch hb'), ?_, (fun b' o v hb' => nomatch hb'),
        fun _ _ => rfl, h.blank⟩
      intro b' o v _ ho hv
      by_cases hb' : b' = b
      · subst hb'
        simp only [ho, and_self, if_true]
        exact h.buf b' o v hb ho hv
      · simp only [hb', false_and, if_false]
        refine h.flash b' o v ?_ ho hv
        rw [hb]
        exact fun he => hb' (Option.some.inj he).symm
    | erase b =>
      obtain ⟨hb, hp, hK⟩ := hd
      have hin : b < c.numBlocks := hb
      simp only [nandOps, if_pos hin]
      refine ⟨_, hK, h.pend, h.area, ?_, ?_, h.clear, ?_⟩
      · intro b' o v hp' ho hv
        by_cases hb' : b' = b
        · simp only [Media.erase, if_pos hb', Rules.blank, Option.some.injEq] at hv
          simp only [Flash.erase, if_pos hb', ← hv]
          rfl
        · simp only [Media.erase, if_neg hb'] at hv
          simp only [Flash.erase, if_neg hb']
          exact h.flash b' o v hp' ho hv
      · intro b' o v hp' ho hv
        have hne : b' ≠ b := fun he => hp rfl (he ▸ hp')
        simp only [Media.erase, if_neg hne] at hv
        exact h.buf b' o v hp' ho hv
      · intro b' o v hpr hv
        by_cases hb' : b' = b
        · simp only [Media.erase, if_pos hb', Rules.blank, Option.some.injEq] at hv
          exact hv.symm
        · simp only [Media.erase, if_neg hb'] at hpr hv
          exact h.blank b' o v hpr hv

/-! ## Flash and overwriting memory -/

theorem programByte_erased (ev v : UInt8) : programByte ev ev v = v := by
  apply UInt8.toBitVec_inj.mp
  ext i hi
  simp only [programByte, UInt8.toBitVec_or, UInt8.toBitVec_and, UInt8.toBitVec_not,
    BitVec.getElem_or, BitVec.getElem_and, BitVec.getElem_not]
  cases ev.toBitVec[i] <;> cases v.toBitVec[i] <;> rfl

theorem track_twice_mono {α : Type} (io : Io PsaStatus α) : ∀ t : Tracked,
    (io.run (trackOps c) t).2.twice = false → t.twice = false := by
  have hstep : ∀ (t : Tracked) (o : Op), (trackOps c t o).2.twice = false → t.twice = false := by
    intro t o h
    unfold trackOps at h
    dsimp only at h
    split at h
    · split at h
      · exact (Bool.or_eq_false_iff.mp h).1
      · exact h
    · split at h <;> exact h
    · exact h
  induction io with
  | ret a => exact fun t h => h
  | call o k ih => exact fun t h => hstep t o (ih _ _ h)

/-- Bytes that were not programmed since the last erase hold the erase value. -/
def Tracked.Sound (t : Tracked) : Prop :=
  ∀ b o, t.programmed b o = false → t.mem b o = c.eraseVal

theorem track_step {t : Tracked} (ht : t.Sound c) (o : Op)
    (h : (trackOps c t o).2.twice = false) :
    norOps c t.mem o = ((trackOps c t o).1, (trackOps c t o).2.mem) ∧
      (trackOps c t o).2.Sound c := by
  cases o with
  | init => exact ⟨rfl, ht⟩
  | read b off n =>
    by_cases hin : c.inArea b off n
    · simp only [norOps, trackOps, memOps, if_pos hin]
      exact ⟨trivial, ht⟩
    · simp only [norOps, trackOps, memOps, if_neg hin]
      exact ⟨trivial, ht⟩
  | write b off data =>
    by_cases hin : c.inArea b off data.length
    · simp only [trackOps, memOps, if_pos hin, Bool.or_eq_false_iff, List.any_eq_false,
        List.mem_range] at h
      simp only [norOps, trackOps, memOps, if_pos hin]
      constructor
      · -- every byte that is programmed holds the erase value
        congr 1
        funext b' o
        by_cases hr : b' = b ∧ off ≤ o ∧ o < off + data.length
        · have hp : t.programmed b o = false := by
            have := h.2 (o - off) (by omega)
            rw [Nat.add_sub_cancel' hr.2.1] at this
            simpa using this
          simp only [Flash.program, Flash.write, if_pos hr]
          rw [hr.1, ht b o hp, programByte_erased]
        · simp only [Flash.program, Flash.write, if_neg hr]
      · intro b' o hp
        simp only [Bool.or_eq_false_iff, decide_eq_false_iff_not] at hp
        simp only [Flash.write, if_neg hp.1]
        exact ht b' o hp.2
    · simp only [norOps, trackOps, memOps, if_neg hin]
      exact ⟨trivial, ht⟩
  | flush => exact ⟨rfl, ht⟩
  | erase b =>
    by_cases hin : b < c.numBlocks
    · simp only [norOps, trackOps, memOps, if_pos hin]
      refine ⟨trivial, ?_⟩
      intro b' o hp
      by_cases hb' : b' = b
      · simp only [Flash.erase, if_pos hb']
      · simp only [if_neg hb'] at hp
        simp only [Flash.erase, if_neg hb']
        exact ht b' o hp
    · simp only [norOps, trackOps, memOps, if_neg hin]
      exact ⟨trivial, ht⟩

/-- **Flash is overwriting memory for a run that programs no byte twice.** -/
theorem run_nor {α : Type} (io : Io PsaStatus α) : ∀ t : Tracked, t.Sound c →
    (io.run (trackOps c) t).2.twice = false →
    io.run (norOps c) t.mem = ((io.run (trackOps c) t).1, (io.run (trackOps c) t).2.mem) := by
  induction io with
  | ret a => exact fun t _ _ => rfl
  | call o k ih =>
    intro t ht h
    have hs := track_step c ht o (track_twice_mono c _ _ h)
    simp only [Io.run]
    rw [hs.1]
    exact ih _ _ hs.2 h

/-- Such a run keeps the flash sound. -/
theorem run_sound {α : Type} (io : Io PsaStatus α) : ∀ t : Tracked, t.Sound c →
    (io.run (trackOps c) t).2.twice = false → (io.run (trackOps c) t).2.Sound c := by
  induction io with
  | ret a => exact fun t ht _ => ht
  | call o k ih =>
    intro t ht h
    exact ih _ _ (track_step c ht o (track_twice_mono c _ _ h)).2 h

/-- Watching changes nothing. -/
theorem run_track {α : Type} (io : Io PsaStatus α) : ∀ t : Tracked,
    io.run (memOps c) t.mem = ((io.run (trackOps c) t).1, (io.run (trackOps c) t).2.mem) := by
  have hstep : ∀ (t : Tracked) (o : Op),
      memOps c t.mem o = ((trackOps c t o).1, (trackOps c t o).2.mem) := by
    intro t o
    cases o <;> simp only [trackOps] <;> (try split) <;> rfl
  induction io with
  | ret a => exact fun t => rfl
  | call o k ih =>
    intro t
    simp only [Io.run]
    rw [hstep]
    exact ih _ _

end Follow

end Tfm.L4.Its
