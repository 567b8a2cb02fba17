import Tfm.L4Service.ItsInside
import Tfm.L4Service.ItsNand
import Tfm.L4Service.ItsWipe

/-!
# Accesses on any flash

The runs of `ItsInside` with every operation of the filesystem in them: a start while it is
running, and a wipe. Nothing is asked of the device for a call outside of the area: flash that
is emulated in RAM carries it out.

The scratch data block of a header is not checked either. A start that loads one that is not
in the area erases it, and later updates write to it.

Results:
* `leads_prepare`, `keeps_wipeAll`: a start and a wipe, from any context.
* `accesses_inside`: every run from any flash that a start accepted.
* `accesses_leave_area`: files that are accepted, and a deletion; `accesses_leave_scratch`: a
  header that is accepted, and a file that is created.
-/
namespace Tfm.L4.Its
open Tfm.BlockDev Tfm.Bytes

/-! ## Starts -/

section Starts

variable {δ : Type} {c : Cfg} {D : Dev PsaStatus δ} {look : δ → Flash} {free loose : Prop}
  {x₀ : Ctx} {d₀ : δ}

theorem Cfg.header_inside {b : Nat} (hb : b < 2) :
    (Op.read b 0 c.headerSize).Inside c.numBlocks c.blockSize := by
  have h1 := c.headerSize_le
  have h2 := c.fileMetaOffset_le
  have h3 := c.metaEnd_le
  exact ⟨Nat.lt_of_lt_of_le hb c.two_le, by omega⟩

theorem keeps_readHeader {b : Nat} (hb : b < 2) :
    Keeps D (Allowed c.toConfig free) (Proper c loose) (readHeader c b) fun _ => True := by
  refine keeps_bind (keeps_attempt (keeps_any (.inr (Cfg.header_inside hb)))) fun r _ => ?_
  cases r with
  | ok l => exact keeps_pure trivial
  | error e => exact keeps_pure trivial

theorem keeps_initGetActive :
    Keeps D (Allowed c.toConfig free) (Proper c loose) (initGetActiveMetablock c)
      fun _ => True := by
  refine keeps_bind (keeps_readHeader (by decide)) fun r0 _ => ?_
  refine keeps_bind (keeps_readHeader (by decide)) fun r1 _ => ?_
  refine leads_ite (fun _ => keeps_throw) fun _ => keeps_modify fun x _ hx => ?_
  exact placed_choice r0 r1 hx.dblock

theorem keeps_readMetaHeader :
    Keeps D (Allowed c.toConfig free) (Proper c True) (readMetaHeader c) fun _ => True := by
  refine keeps_get stays_proper fun x hx => ?_
  refine keeps_bind (keeps_any (.inr (Cfg.header_inside hx.active))) fun l _ => ?_
  have hset : Keeps D (Allowed c.toConfig free) (Proper c True)
      (modify fun x : Ctx => { x with header := .ofBytes l }) fun _ => True :=
    keeps_modify fun x _ hx => ⟨hx.active, hx.scratch, hx.apart, .inl trivial⟩
  exact keeps_bind hset fun _ _ => leads_ite (fun _ => keeps_pure trivial) fun _ => keeps_throw

theorem keeps_loadHeader :
    Keeps D (Allowed c.toConfig free) (Proper c True) (loadHeader c) fun _ => True :=
  keeps_bind (keeps_any (.inr trivial)) fun _ _ =>
    keeps_bind (keeps_recast keeps_initGetActive) fun _ _ => keeps_recast keeps_readMetaHeader

theorem Ctx.Placed.tight {x : Ctx} (h : x.Placed c.toConfig True)
    (hs : x.ScratchInside c.toConfig) : x.Placed c.toConfig False :=
  ⟨h.active, h.scratch, h.apart, .inr hs⟩

theorem Ctx.Placed.loosen {x : Ctx} {loose : Prop} (h : x.Placed c.toConfig loose) :
    x.Placed c.toConfig True := ⟨h.active, h.scratch, h.apart, .inl trivial⟩

/-- The header that is loaded names a block of the area. -/
theorem leads_mblockInit (hx : x₀.Placed c.toConfig False)
    (hs : (runOn D (loadHeader c) (x₀, d₀)).2.1.ScratchInside c.toConfig) :
    Leads D (Allowed c.toConfig False) (fun x d => x = x₀ ∧ d = d₀) (mblockInit c)
      (Ends (Proper c False) fun _ => True) := by
  have hload : Keeps D (Allowed c.toConfig False) (Proper c True) (loadHeader c) fun _ => True :=
    keeps_loadHeader
  have htight : ∀ r x d, (Ends (Proper c True) (fun _ => True) r x d ∧
      ((r, x), d) = (loadHeader c x₀).run D d₀) → Proper c False x d := by
    intro r x d h
    refine Ctx.Placed.tight h.1.1 ?_
    unfold runOn at hs
    rw [← h.2] at hs
    exact hs
  rw [mblockInit_load]
  refine Leads.bind (hload.exactly (x := x₀) (d := d₀) hx.loosen)
    (fun e x d hS => ⟨htight _ x d hS, nofun⟩) fun _ => ?_
  exact (keeps_eraseScratchBlocks id).from fun x d hS => htight _ x d hS

/-- A file that is marked to be deleted. -/
def Tab.flagged (c : Config) (t : Tab) : Option Nat :=
  findIdx t.fm (fun m => m.flags &&& flagDelete ≠ 0) c.maxNumFiles 0

/-- A start, if its header is right and what it deletes fits. -/
theorem leads_prepare (hv : c.validate = true) (hD : Faithful c.toConfig D look)
    (hx : x₀.Placed c.toConfig False)
    (hs : (runOn D (loadHeader c) (x₀, d₀)).2.1.ScratchInside c.toConfig)
    (hfits : ∀ y i, runOn D (mblockInit c) (x₀, d₀) = (.ok (), y) →
      (tableOf c (y.1, look y.2)).flagged c.toConfig = some i →
      (tableOf c (y.1, look y.2)).MoveFits c i) :
    Leads D (Allowed c.toConfig False) (fun x d => x = x₀ ∧ d = d₀) (prepare c)
      (Ends (Proper c False) fun _ => True) := by
  refine Leads.bind ((leads_mblockInit hx hs).exactly ⟨rfl, rfl⟩)
    (fun e x d hS => ⟨hS.1.1, nofun⟩) fun _ => ?_
  intro x d hS
  obtain ⟨⟨hproper, -⟩, hrun⟩ := hS
  have hfit : ∀ i, (tableOf c (x, look d)).flagged c.toConfig = some i →
      (tableOf c (x, look d)).MoveFits c i := by
    refine fun i => hfits (x, d) i ?_
    unfold runOn
    rw [← hrun]
  have hK := stays_holding d hD hproper
  have hfind : Keeps D (Allowed c.toConfig False) (Holding look x d)
      (getFileIdxFlag c flagDelete) _ := keeps_findFileLoop hv hD hK
    (fun m => m.flags &&& flagDelete ≠ 0) c.maxNumFiles 0 (by omega)
  refine ((keeps_attempt hfind).andThen hK.placed fun r hr => ?_) x d ⟨rfl, rfl⟩
  cases r with
  | ok i =>
    obtain ⟨hi, hfound⟩ := hr i rfl
    exact leads_deleteIdx id hv hD hproper hi (.inr (hfit i (hfound _ shows_holding).1))
  | error e =>
    cases e
    case doesNotExist => exact (keeps_pure trivial).from hK.placed
    all_goals exact keeps_throw.from hK.placed

end Starts

/-! ## The wipe -/

section Wipe

variable {δ : Type} {c : Cfg} {D : Dev PsaStatus δ} {look : δ → Flash} {free : Prop}

theorem keeps_eraseDblocks (n : Nat) : ∀ i, i + n + c.initDblockStart ≤ c.numBlocks →
    Keeps D (Allowed c.toConfig free) (Proper c False) (eraseDblocks c n i) fun _ => True := by
  induction n with
  | zero => exact fun _ _ => keeps_pure trivial
  | succ n ih =>
    intro i hi
    have hin : (Op.erase (i + c.initDblockStart)).Inside c.numBlocks c.blockSize := by
      show i + c.initDblockStart < c.numBlocks
      omega
    exact keeps_bind (keeps_attempt (keeps_any (.inr hin))) fun _ _ =>
      keeps_bind (ih (i + 1) (by omega)) fun _ _ => keeps_pure trivial

theorem keeps_resetBlockMetas (n : Nat) : ∀ i, i + n ≤ c.numDedicatedDblocks →
    Keeps D (Allowed c.toConfig free) (Proper c False) (resetBlockMetas c n i) fun _ => True := by
  induction n with
  | zero => exact fun _ _ => keeps_pure trivial
  | succ n ih =>
    intro i hi
    have hl : i + 1 < c.numActiveDblocks := by
      show i + 1 < c.numDedicatedDblocks + 1
      omega
    exact keeps_bind (keeps_writeScratchBlockMeta stays_proper hl _) fun _ _ =>
      ih (i + 1) (by omega)

theorem keeps_resetFileMetas (n : Nat) : ∀ i, i + n ≤ c.maxNumFiles →
    Keeps D (Allowed c.toConfig free) (Proper c False) (resetFileMetas c n i) fun _ => True := by
  induction n with
  | zero => exact fun _ _ => keeps_pure trivial
  | succ n ih =>
    intro i hi
    exact keeps_bind (keeps_updateScratchFileMeta stays_proper (by omega) _) fun _ _ =>
      ih (i + 1) (by omega)

/-- What `its_flash_fs_mblock_reset_metablock` puts in RAM. -/
theorem placed_reset (swapCount : UInt8) :
    Ctx.Placed c.toConfig False ⟨⟨c.initScratchDblock, 1, swapCount⟩, 0, 1⟩ := by
  refine ⟨Nat.two_pos, Nat.one_lt_two, Nat.one_ne_zero, .inr fun h2 => ?_⟩
  show c.initScratchDblock < c.numBlocks
  unfold Config.initScratchDblock
  rw [if_neg (by omega)]
  exact h2

/-- The tables of an empty filesystem. -/
theorem keeps_resetTables :
    Keeps D (Allowed c.toConfig free) (Proper c False) (do
      recast .genericError (resetBlockMetas c c.numDedicatedDblocks 0)
      recast .genericError (resetFileMetas c c.maxNumFiles 0)
      recast .genericError (writeScratchMetaHeader c)
      let _ ← call .flush
      swapMetablocks) fun _ => True :=
  keeps_bind (keeps_recast (keeps_resetBlockMetas _ 0 (by omega))) fun _ _ =>
    keeps_bind (keeps_recast (keeps_resetFileMetas _ 0 (by omega))) fun _ _ =>
      keeps_bind (keeps_recast keeps_writeScratchMetaHeader) fun _ _ =>
        keeps_bind (keeps_any (.inr trivial)) fun _ _ => keeps_swapMetablocks

/-- `its_flash_fs_mblock_reset_metablock` from the first erasure on. -/
theorem keeps_reset {first : Nat} (hfirst : first < 2) :
    Keeps D (Allowed c.toConfig free) (Proper c False) (do
      let _ ← call (.erase first)
      let _ ← call (.erase (otherMetaBlock first))
      modify fun _ => ⟨⟨c.initScratchDblock, 1, if c.eraseVal = 0 then 1 else 0⟩, 0, 1⟩
      let dataStart := c.fileMetaOffset c.maxNumFiles
      writeScratchBlockMeta c 0 ⟨0, dataStart, c.blockSize - dataStart⟩
      if !(← eraseDblocks c c.numDedicatedDblocks 0) then throw .storageFailure
      recast .genericError (resetBlockMetas c c.numDedicatedDblocks 0)
      recast .genericError (resetFileMetas c c.maxNumFiles 0)
      recast .genericError (writeScratchMetaHeader c)
      let _ ← call .flush
      swapMetablocks) fun _ => True := by
  have hdedicated : 0 + c.numDedicatedDblocks + c.initDblockStart ≤ c.numBlocks := by
    have h2 := c.two_le
    rcases c.dedicated_cases with h | h <;> omega
  have herase : ∀ b, b < 2 → Keeps D (Allowed c.toConfig free) (Proper c False)
      (call (.erase b)) fun _ => True :=
    fun b hb => keeps_any (.inr (Nat.lt_of_lt_of_le hb c.two_le))
  have hset : Keeps D (Allowed c.toConfig free) (Proper c False) (modify fun _ =>
      ⟨⟨c.initScratchDblock, 1, if c.eraseVal = 0 then 1 else 0⟩, 0, 1⟩) fun _ => True :=
    keeps_modify fun _ _ _ => placed_reset _
  refine keeps_bind (herase first hfirst) fun _ _ => ?_
  refine keeps_bind (herase _ (otherMetaBlock_placed first).1) fun _ _ => ?_
  refine keeps_bind hset fun _ _ => ?_
  refine keeps_bind (keeps_writeScratchBlockMeta stays_proper c.numActiveDblocks_pos _)
    fun _ _ => ?_
  refine keeps_bind (keeps_eraseDblocks _ 0 hdedicated) fun erased _ => ?_
  exact leads_ite (fun _ => keeps_throw) fun _ => keeps_resetTables

/-- A wipe, whatever is on the flash. -/
theorem keeps_wipeAll :
    Keeps D (Allowed c.toConfig free) (Proper c False) (wipeAll c) fun _ => True := by
  refine keeps_bind (keeps_attempt keeps_initGetActive) fun r _ => ?_
  cases r with
  | ok _ => exact keeps_get stays_proper fun x hx => keeps_reset hx.scratch
  | error _ => exact keeps_reset Nat.two_pos

end Wipe

/-! ## Runs -/

/-- mirrors secure_fw/partitions/internal_trusted_storage/flash_fs/its_flash_fs.c:197-209 -/
def fileExist (c : Cfg) (fid : Nat) : M Unit := do
  let _ ← recast .doesNotExist (getFileIdx c fid)

/-- All operations of the filesystem. -/
inductive FsOp (c : Config)
  | request (q : Req c)
  | exist (fid : Fid)
  | wipe

def FsOp.prog (c : Cfg) : FsOp c.toConfig → M Answer
  | .request q => q.prog c
  | .exist fid => do
    fileExist c fid.id
    pure .done
  | .wipe => do
    wipeAll c
    pure .done

section Runs

variable {δ : Type} (c : Cfg) (D : Dev PsaStatus δ) (look : δ → Flash)

/-- The copies of the operation are inside of the flash area. A start is asked for the header it
loads, and for the file it deletes, on the metadata it finds. -/
def FsOp.Fits (y : Sys δ) : FsOp c.toConfig → Prop
  | .request .prepare =>
    (runOn D (loadHeader c) y).2.1.ScratchInside c.toConfig ∧
    ∀ y' i, runOn D (mblockInit c) y = (.ok (), y') →
      (tableOf c (y'.1, look y'.2)).flagged c.toConfig = some i →
      (tableOf c (y'.1, look y'.2)).MoveFits c i
  | .request q => q.Fits c D look y
  | .exist _ => True
  | .wipe => True

/-- What the operations do to the flash, whether they succeed or not. -/
def accesses : List (FsOp c.toConfig) → Sys δ → List Op
  | [], _ => []
  | o :: os, y => (o.prog c y.1).calls D y.2 ++ accesses os (runOn D (o.prog c) y).2

/-- Each operation fits in the state that it starts in. -/
def AllFit : List (FsOp c.toConfig) → Sys δ → Prop
  | [], _ => True
  | o :: os, y => o.Fits c D look y ∧ AllFit os (runOn D (o.prog c) y).2

variable {c D look} {x₀ : Ctx} {d₀ : δ}

/-- The calls of one operation, from a context that names blocks of the area. -/
theorem leads_op (hv : c.validate = true) (hD : Faithful c.toConfig D look)
    (hx : x₀.Placed c.toConfig False) {o : FsOp c.toConfig} (h : o.Fits c D look (x₀, d₀)) :
    Leads D (Allowed c.toConfig False) (fun x d => x = x₀ ∧ d = d₀) (o.prog c)
      (Ends (Proper c False) fun _ => True) := by
  have hdone : Leads D (Allowed c.toConfig False) (Proper c False) (pure Answer.done : M Answer)
      (Ends (Proper c False) fun _ => True) := keeps_pure trivial
  cases o with
  | request q =>
    cases q with
    | write a => exact leads_serve hv hD hx (q := .write a) h
    | delete fid => exact leads_serve hv hD hx (q := .delete fid) h
    | read fid size offset => exact leads_serve hv hD hx (q := .read fid size offset) h
    | info fid => exact leads_serve hv hD hx (q := .info fid) h
    | prepare =>
      exact (leads_prepare hv hD hx h.1 h.2).andThen (fun _ _ => id) fun _ _ => hdone
  | exist fid =>
    have hK := stays_holding d₀ hD hx
    refine Leads.from ?_ fun x d (he : x = x₀ ∧ d = d₀) =>
      (⟨he.1, he.2 ▸ rfl⟩ : Holding look x₀ d₀ x d)
    have hexist : Keeps D (Allowed c.toConfig False) (Holding look x₀ d₀) (fileExist c fid.id)
        fun _ => True :=
      keeps_bind (keeps_recast (keeps_getFileIdx hv hD hK shows_holding fid.id)) fun _ _ =>
        keeps_pure trivial
    exact hexist.andThen hK.placed fun _ _ => hdone.from hK.placed
  | wipe =>
    refine Leads.from ?_ fun x d (he : x = x₀ ∧ d = d₀) => (he.1 ▸ hx : Proper c False x d)
    exact keeps_wipeAll.andThen (fun _ _ => id) fun _ _ => hdone

theorem accesses_placed (hv : c.validate = true) (hD : Faithful c.toConfig D look)
    (ops : List (FsOp c.toConfig)) : ∀ y : Sys δ, y.1.Placed c.toConfig False →
    AllFit c D look ops y → ∀ o ∈ accesses c D ops y, o.Inside c.numBlocks c.blockSize := by
  induction ops with
  | nil => exact fun _ _ _ o ho => absurd ho List.not_mem_nil
  | cons op ops ih =>
    intro y hy hfit o ho
    have hop := leads_op hv hD hy hfit.1
    rcases List.mem_append.mp ho with ho | ho
    · exact (hop.calls ⟨rfl, rfl⟩ o ho).resolve_left id
    · exact ih (runOn D (op.prog c) y).2 (hop.ends ⟨rfl, rfl⟩).1 hfit.2 o ho

/-- **After a start that accepted the flash, whatever was on it: if the copies of the operations
fit, and the headers that are loaded name a block of the area, nothing outside of the area is
read, written or erased.** -/
theorem accesses_inside (hv : c.validate = true) (hD : Faithful c.toConfig D look) {y₀ y : Sys δ}
    (hmount : runOn D (prepare c) y₀ = (.ok (), y)) (hs : y.1.ScratchInside c.toConfig)
    (ops : List (FsOp c.toConfig)) (hfit : AllFit c D look ops y) :
    ∀ o ∈ accesses c D ops y, o.Inside c.numBlocks c.blockSize := by
  have hprepare : Leads D (Allowed c.toConfig True) (fun _ _ => True) (prepare c)
      (OnOk (Proper c True)) := placed_prepare hv hD (.inl trivial)
  have hends := hprepare.ends (x := y₀.1) (d := y₀.2) trivial
  unfold runOn at hmount
  injection hmount with hok hy
  subst hy
  exact accesses_placed hv hD ops _ ((hends () hok).tight hs) hfit

end Runs

/-! ### Flash that a start accepts -/

/-- Two metadata blocks of a sector, three files. -/
def sectorCfg : Cfg where
  blockSize := 4096
  numBlocks := 2
  programUnit := 1
  maxFileSize := 10
  maxNumFiles := 3
  eraseVal := 0xFF
  maxAlign := 1
  validate := true
  blockSize_lt := by decide
  numBlocks_lt := dataCfg.two_le.trans_lt dataCfg.numBlocks_lt
  programUnit_lt := dataCfg.programUnit_lt
  maxFileSize_lt := dataCfg.maxFileSize_lt
  maxNumFiles_lt := dataCfg.maxNumFiles_lt
  programUnit_pos := Nat.zero_lt_one
  accepted := by decide

/-- A start with these files in the first block. -/
def startWith (files : List FileMeta) : Except PsaStatus Unit × Sys Flash :=
  runOn (memOps sectorCfg.toConfig) (prepare sectorCfg) (.zero, imageOf files)

/-- A file is deleted, the device starts again, and is wiped. -/
def deleteStartWipe : List (FsOp sectorCfg.toConfig) :=
  [.request (.delete fid7), .request .prepare, .wipe]

theorem allFit_sharing : AllFit sectorCfg (memOps sectorCfg.toConfig) id deleteStartWipe
    (startWith sharing).2 := by
  have hfind : (tableOf sectorCfg (startWith sharing).2).find sectorCfg fid7.id = some 0 := by
    decide +kernel
  have hmove : (tableOf sectorCfg (startWith sharing).2).MoveFits sectorCfg 0 := by
    unfold Tab.MoveFits
    decide +kernel
  have hflag : (tableOf sectorCfg (runOn (memOps sectorCfg.toConfig) (mblockInit sectorCfg)
      (runOn (memOps sectorCfg.toConfig) ((Req.delete fid7).prog sectorCfg)
        (startWith sharing).2).2).2).flagged sectorCfg.toConfig = none := by decide +kernel
  refine ⟨fun i hi => ?_, ⟨?_, fun y' i hrun hi => ?_⟩, trivial, trivial⟩
  · have hzero := hfind.symm.trans hi
    injection hzero with hzero
    exact hzero ▸ hmove
  · exact fun h => absurd h (by decide)
  · have hy := congrArg Prod.snd hrun
    subst hy
    cases hflag.symm.trans hi

theorem accesses_inside_sharing : (startWith sharing).1 = .ok () ∧
    ∀ o ∈ accesses sectorCfg (memOps sectorCfg.toConfig) deleteStartWipe (startWith sharing).2,
      o.Inside sectorCfg.numBlocks sectorCfg.blockSize := by
  have hok : (startWith sharing).1 = .ok () := by decide +kernel
  have hmount : runOn (memOps sectorCfg.toConfig) (prepare sectorCfg) (.zero, imageOf sharing) =
      (.ok (), (startWith sharing).2) := by
    rw [← hok]
    rfl
  exact ⟨hok, accesses_inside rfl memRegular.faithful hmount (fun h => absurd h (by decide))
    deleteStartWipe allFit_sharing⟩

/-- Files 8 and 9 have the last ten bytes of the block both. -/
def lastBytes : List FileMeta :=
  [⟨0, 116, 4, 4, 0, 7⟩, ⟨0, 4086, 5, 10, 0, 8⟩, ⟨0, 4086, 5, 10, 0, 9⟩]

/-- The metadata of each file is accepted, and a deletion reads behind the block. -/
theorem accesses_leave_area : ¬ ∀ (c : Cfg) (y₀ y : Sys Flash) (ops : List (FsOp c.toConfig)),
    c.validate = true → runOn (memOps c.toConfig) (prepare c) y₀ = (.ok (), y) →
      ∀ o ∈ accesses c (memOps c.toConfig) ops y, o.Inside c.numBlocks c.blockSize := by
  intro h
  have hok : (startWith lastBytes).1 = .ok () := by decide +kernel
  have hall := h sectorCfg (.zero, imageOf lastBytes) (startWith lastBytes).2
    [.request (.delete fid7)] rfl (by rw [← hok]; rfl)
  revert hall
  decide +kernel

/-- Flash that is emulated in RAM does not check what is erased.
mirrors secure_fw/partitions/internal_trusted_storage/flash/its_flash_ram.c:66-75 -/
def ramOps (c : Config) : Dev PsaStatus Flash := fun f o =>
  match o with
  | .erase b => (.ok [], f.erase c.eraseVal b)
  | o => memOps c f o

/-- A filesystem of four blocks, whose header names a block 9. -/
def strayHeader : Flash :=
  let y := booted dataCfg
  y.2.write y.1.activeMetablock 0 (Header.bytes { y.1.header with scratchDblock := 9 })

def startStray : Except PsaStatus Unit × Sys Flash :=
  runOn (ramOps dataCfg.toConfig) (prepare dataCfg) (.zero, strayHeader)

/-- The header is accepted, and a file is written to that block. -/
theorem accesses_leave_scratch : startStray.1 = .ok () ∧
    ∃ o ∈ accesses dataCfg (ramOps dataCfg.toConfig)
        [.request (oneByte dataCfg fid7 (by decide))] startStray.2,
      ¬ o.Inside dataCfg.numBlocks dataCfg.blockSize := by
  decide +kernel

end Tfm.L4.Its
