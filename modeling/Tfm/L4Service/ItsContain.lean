import Tfm.L4Service.ItsFault

/-!
# Runs of ITS in which calls of the flash driver fail

Calls of the filesystem over a device of which any calls fail. `Req.early` is the first part
of a call, which `ItsFault` is about; after a failure in it the filesystem `Survives`: all
but the scratch blocks is as it was.

Results: `Survives.sparesLive`, the scratch blocks of the context hold no live data;
`faults_contained`, over runs in which the failures are in first parts;
`fault_not_contained`, a write that fails later makes the block of the file the scratch block.
-/
namespace Tfm.L4.Its
open Tfm.BlockDev Tfm.Bytes

/-! ## A filesystem that a failure left -/

section Survives

variable {δ : Type} {c : Cfg} {D : Dev PsaStatus δ} {look : δ → Flash} {t : Tab} {y : Sys Flash}

/-- The context and the flash hold `t`, whatever is in the scratch blocks. -/
structure Survives (c : Cfg) (y : Sys Flash) (t : Tab) : Prop where
  ctx : y.1 = ⟨t.hdr, t.active, t.sm⟩
  held : ∃ s, Agrees y.2 s ∧ Counts c (c.rules false false) s t
  layout : Layout c t none
  known : t.Known

theorem Mounted.survives (h : Mounted c y t) : Survives c y t := by
  obtain ⟨s, hs, hrep⟩ := h.held
  exact ⟨hrep.ctx, ⟨s, hs, hrep.counts h.layout.sane (.refl s)⟩, h.layout, h.known⟩

theorem Survives.shown (h : Survives c y t) : Shown c t y.2 y.1 := by
  obtain ⟨s, hs, hcounts⟩ := h.held
  refine ⟨h.layout.sane, ?_, by rw [h.ctx]⟩
  exact hcounts.1.table (by rw [h.ctx]) hs h.layout.sane

theorem Survives.scratch (h : Survives c y t) : y.1.header.scratchDblock = t.sd := by
  rw [h.ctx]
  rfl

instance (b o : Nat) : Decidable (t.Body c b o) := inferInstanceAs (Decidable (_ ∨ _))

/-- The header of the scratch metadata block is no part of its body. -/
theorem Sane.header_not_body (ht : Sane c t) {o : Nat} (ho : o < 6) : ¬ t.Body c t.sm o := by
  have h8 := c.le_headerSize
  have hsm := t.sm_lt
  intro hbody
  obtain ⟨-, h⟩ | ⟨h2, h⟩ := hbody
  · omega
  · have hsd := (ht.scratch h2).1
    omega

theorem Counts.forget {s : Media} (h : Counts c (c.rules false false) s t) (ht : Sane c t) :
    Counts c (c.rules false false) (s.forget (t.Body c)) t := by
  refine ⟨h.1.frame ht (Media.frame_forget s _) Tab.body_scratch, fun hloose => ?_⟩
  obtain ⟨l, hl, hcell, hno⟩ := h.2 hloose
  refine ⟨l, hl, fun i v hi => ?_, hno⟩
  have hi6 : i < 6 := hl ▸ (List.getElem?_eq_some_iff.mp hi).1
  rw [show (s.forget (t.Body c)).cell t.sm i = s.cell t.sm i from if_neg (ht.header_not_body hi6)]
  exact hcell i v hi

/-- **What a failure in the first part of a call leaves.** -/
theorem Survives.spared (h : Survives c y t) {x : Ctx} {d : δ}
    (hs : Spared c look t y.2 y.1 x d) : Survives c (x, look d) t := by
  obtain ⟨s, hagree, hcounts⟩ := h.held
  refine ⟨hs.1.trans h.ctx, ⟨_, fun b o v hv => ?_, hcounts.forget h.layout.sane⟩, h.layout,
    h.known⟩
  unfold Media.forget at hv
  dsimp only at hv
  split at hv
  · cases hv
  · next hb => exact (hs.2 b o hb).trans (hagree b o v hv)

/-- A call that reads answers as on the filesystem before the failure. -/
theorem Survives.reading (h : Survives c y t) {q : Req c.toConfig} (hq : q.reads = true) :
    (memServe c q y).1 = (t.serve c (some c.eraseVal) q).1 ∧ Survives c (memServe c q y).2 t := by
  obtain ⟨s, hs, hcounts⟩ := h.held
  have hlive : Live c false false y.1 s t := by
    refine ⟨h.layout.sane, ?_, ?_, hcounts.1, nofun⟩
    · rw [h.ctx]
    · rw [h.ctx]
  obtain ⟨s', ⟨hr, hx, rfl⟩, hagree⟩ := (memFollows c.toConfig).run hs
    (wp_reads (Q := fun r x' s' => r = (t.serve c (some c.eraseVal) q).1 ∧ x' = y.1 ∧ s' = s)
      (C := fun _ => True) hq hlive h.known.full trivial ⟨rfl, rfl, rfl⟩)
  exact ⟨hr, hx.trans h.ctx, ⟨s', hagree, hcounts⟩, h.layout, h.known⟩

theorem Survives.exposed (h : Survives c y t) (fid : Fid) : Its.exposed c y fid = t.exposed c fid :=
  exposed_of_reads (fun _ hq => (h.reading hq).1) fid

theorem Survives.recoverable (h : Survives c y t) : Recoverable c y.2 t := by
  obtain ⟨s, hs, hcounts⟩ := h.held
  exact ⟨s, hs, hcounts.recovers h.layout⟩

end Survives

/-! ## Where the scratch blocks are -/

section Persisted

variable {c : Cfg} {t : Tab} {y : Sys Flash}

/-- What a start would load of the flash. -/
def persisted (c : Cfg) (f : Flash) : Sys Flash :=
  (runOn (memOps c.toConfig) (loadHeader c) (.zero, f)).2

/-- The block `b` is that of the active metadata on the flash, or of a file of it. -/
def LiveBlock (c : Cfg) (f : Flash) (b : Nat) : Prop :=
  b = (persisted c f).1.activeMetablock ∨
    ∃ i, i < c.maxNumFiles ∧ ((tableOf c (persisted c f)).fm i).used = true ∧
      b = ((tableOf c (persisted c f)).bm ((tableOf c (persisted c f)).fm i).lblock).phyId

/-- The scratch blocks of the context are no live blocks. -/
def SparesLive (c : Cfg) (y : Sys Flash) : Prop :=
  ∀ b, LiveBlock c y.2 b → b ≠ y.1.scratchMetablock ∧
    (2 < c.numBlocks → b ≠ y.1.header.scratchDblock)

theorem Survives.persisted (h : Survives c y t) :
    SameTable c (tableOf c (persisted c y.2)) t := by
  obtain ⟨s, hs, hcounts⟩ := h.held
  obtain ⟨s', ⟨hctx, rfl⟩, hagree⟩ := (memFollows c.toConfig).run hs
    (wp_loadHeader (x := .zero) (Q := fun _ x' s' => x' = ⟨t.hdr, t.active, t.sm⟩ ∧ s' = s)
      (C := fun _ => True) hcounts.startable h.layout.sane trivial ⟨rfl, rfl⟩)
  refine hcounts.1.table ?_ hagree h.layout.sane
  exact congrArg Ctx.activeMetablock hctx

/-- A live block is one that holds the metadata `t` or data of it. -/
theorem Survives.live (h : Survives c y t) {b : Nat} (hb : LiveBlock c y.2 b) :
    ∃ l, l < c.numActiveDblocks ∧ b = t.phys l := by
  have htable := h.persisted
  have ht := h.layout.sane
  obtain rfl | ⟨i, hi, hu, rfl⟩ := hb
  · exact ⟨0, c.numActiveDblocks_pos, htable.active⟩
  · rw [htable.fm i hi] at hu ⊢
    have hl := (ht.inRange hi hu).lblock
    refine ⟨(t.fm i).lblock, hl, ?_⟩
    rw [htable.bm _ hl]
    exact ht.phys_of_used hi hu

theorem Survives.sparesLive (h : Survives c y t) : SparesLive c y := by
  intro b hb
  obtain ⟨l, hl, rfl⟩ := h.live hb
  have hno := h.layout.sane.phys_not_scratch hl 0
  rw [h.ctx]
  exact ⟨fun he => hno (.inl he), fun h2 he => hno (.inr ⟨h2, he⟩)⟩

end Persisted

/-! ## Calls that fail -/

section Calls

variable (c : Cfg)

/-- The first part of a call, in which a failure does no harm; it returns the rest. -/
def Req.early : Req c.toConfig → M (M Answer)
  | .write a => do
    let w ← fileWriteEarly c a.fid.id a.flags a.maxSize a.dataSize a.offset a.data
    pure (fileWriteLate c a.dataSize a.offset w >>= fun _ => pure .done)
  | .delete fid => do
    let idx ← recast .doesNotExist (getFileIdx c fid.id)
    let l ← deleteIdxEarly c idx
    pure (deleteIdxLate c l >>= fun _ => pure .done)
  | .read fid size offset => do
    let l ← fileRead c fid.id size offset
    pure (pure (.data l))
  | .info fid => do
    let i ← fileGetInfo c fid.id
    pure (pure (.info i))
  | .prepare => pure (Req.prog c .prepare)

theorem Req.prog_early (q : Req c.toConfig) : q.prog c = q.early c >>= id := by
  cases q with
  | write a =>
    simp only [Req.prog, Req.early, fileWrite_early, bind_assoc, pure_bind]
    rfl
  | delete fid =>
    simp only [Req.prog, Req.early, fileDelete, deleteIdx_early, bind_assoc, pure_bind]
    rfl
  | read fid size offset =>
    simp only [Req.prog, Req.early, bind_assoc, pure_bind]
    rfl
  | info fid =>
    simp only [Req.prog, Req.early, bind_assoc, pure_bind]
    rfl
  | prepare => rfl

end Calls

section Failures

variable {δ : Type} {c : Cfg} {D : Dev PsaStatus δ} {look : δ → Flash} {t : Tab} {y : Sys δ}

theorem stops_early (hD : Flaky c.toConfig D look) {f₀ : Flash} {x₀ : Ctx}
    (h : Survives c (x₀, f₀) t) (q : Req c.toConfig) (p : Prop) :
    Stops c D look t f₀ x₀ p (q.early c) := by
  have ht : Shown c t f₀ x₀ := h.shown
  have hsd : x₀.header.scratchDblock = t.sd := h.scratch
  have hpure : ∀ rest : M Answer, Stops c D look t f₀ x₀ p (pure rest) := fun rest =>
    leads_pure fun x d h => h.2
  cases q with
  | write a =>
    exact stops_bind (spares_fileWriteEarly hD ht hsd a.fid.valid _ _ _ _ _) fun _ _ => hpure _
  | delete fid =>
    refine stops_bind (keepsOr_recast (spares_findFileLoop hD ht _)) fun i hi => ?_
    exact leads_seq (stops_deleteIdxEarly hD ht hsd hi.1) fun _ => leads_pure fun _ _ h => h
  | read fid size offset =>
    exact stops_bind (spares_fileRead hD ht fid.valid size offset) fun _ _ => hpure _
  | info fid => exact stops_bind (spares_fileGetInfo hD ht fid.id) fun _ _ => hpure _
  | prepare => exact hpure _

/-- **A call that fails in its first part** returns an error, and leaves all but the scratch
blocks. -/
theorem Survives.stopped (hD : Flaky c.toConfig D look) (h : Survives c (y.1, look y.2) t)
    {q : Req c.toConfig} (hfail : (q.early c y.1).allOk D y.2 = false) :
    (∃ e, (serve c D q y).1 = .error e) ∧
      Spared c look t (look y.2) y.1 (serve c D q y).2.1 (serve c D q y).2.2 := by
  have hends := (stops_early hD h q True).ends (x := y.1) (d := (y.2, true))
    ⟨⟨rfl, fun _ _ _ => rfl⟩, fun _ => rfl⟩
  rw [Io.run_marked, hfail] at hends
  cases hrun : (q.early c y.1).run D y.2 with
  | mk r d =>
    obtain ⟨r, x⟩ := r
    rw [hrun] at hends
    cases r with
    | ok rest => exact absurd (hends trivial) Bool.false_ne_true
    | error e =>
      have hprog : (q.prog c y.1).run D y.2 = ((.error e, x), d) := by
        rw [Req.prog_early]
        exact run_error hrun
      unfold serve runOn
      rw [hprog]
      exact ⟨⟨e, rfl⟩, hends⟩

end Failures

/-! ## Runs -/

section Runs

variable {δ : Type} (c : Cfg) (D : Dev PsaStatus δ)

/-- No flash call of it fails. -/
def Req.runsOk (q : Req c.toConfig) (y : Sys δ) : Bool := (q.prog c y.1).allOk D y.2

/-- A flash call of its first part fails. -/
def Req.failsEarly (q : Req c.toConfig) (y : Sys δ) : Bool := !(q.early c y.1).allOk D y.2

def Req.starts {c : Config} : Req c → Bool
  | .prepare => true
  | .write .. | .delete .. | .read .. | .info .. => false

/-- A call, and whether a flash call failed since the last start. -/
def faultStep (z : Sys δ × Bool) (q : Req c.toConfig) : Sys δ × Bool :=
  ((serve c D q z.1).2, if q.runsOk c D z.1 then z.2 && !q.starts else true)

/-- Runs from a wipe and a start in which no flash call fails. -/
def faultLts : LTS (Sys δ × Bool) (Req c.toConfig) where
  init z := ∃ x d, (boot c x).allOk D d = true ∧ z = ((runOn D (boot c) (x, d)).2, false)
  step z q z' := z' = faultStep c D z q

/-- A failure is in the first part of the call, and after one there is no update before the
next start. -/
def Req.failsSafe (z : Sys δ × Bool) (q : Req c.toConfig) : Bool :=
  if q.runsOk c D z.1 then !z.2 || q.reads || q.starts else q.failsEarly c D z.1

end Runs

section Contained

variable {δ : Type} {c : Cfg} {D : Dev PsaStatus δ} {look : δ → Flash} {t : Tab} {y : Sys δ}
  {z : Sys δ × Bool}

/-- The system as it looks to calls that do not fail. -/
def view (look : δ → Flash) (y : Sys δ) : Sys Flash := (y.1, look y.2)

/-- After the failure, `y'` is no worse than `y`. -/
structure Contained (c : Cfg) (y y' : Sys Flash) : Prop where
  spares : SparesLive c y'
  untouched : ∀ b, LiveBlock c y.2 b → ∀ o, y'.2 b o = y.2 b o
  running : ∀ fid, exposed c y' fid = exposed c y fid
  restarted : ∀ x : Ctx, (memServe c .prepare (x, y'.2)).1 = .ok .done ∧
    ∀ fid, exposed c (memServe c .prepare (x, y'.2)).2 fid = exposed c y fid
  /-- after a start, all goes on as if the call had not been made -/
  later : ∀ (x : Ctx) (qs : List (Req c.toConfig)),
    let r := serveAll c (memOps c.toConfig) qs (memServe c .prepare (x, y.2)).2
    let r' := serveAll c (memOps c.toConfig) qs (memServe c .prepare (x, y'.2)).2
    r'.1 = r.1 ∧ ∀ fid, exposed c r'.2 fid = exposed c r.2 fid

theorem Survives.contained {y : Sys δ} (h : Survives c (view look y) t) {x : Ctx} {d : δ}
    (hs : Spared c look t (look y.2) y.1 x d) : Contained c (view look y) (view look (x, d)) := by
  have h' : Survives c (x, look d) t := h.spared hs
  have hstart := fun x' => h.recoverable.start h.layout h.known x'
  have hstart' := fun x' => h'.recoverable.start h.layout h.known x'
  refine ⟨h'.sparesLive, fun b hb o => ?_, fun fid => ?_, fun x' => ?_, fun x' qs => ?_⟩
  · obtain ⟨l, hl, rfl⟩ := h.live hb
    exact hs.2 _ o fun hbody => h.layout.sane.phys_not_scratch hl o (Tab.body_scratch _ _ hbody)
  · exact (h'.exposed fid).trans (h.exposed fid).symm
  · exact ⟨(hstart' x').1, fun fid => ((hstart' x').2.exposed fid).trans (h.exposed fid).symm⟩
  · obtain ⟨hanswers, hmounted⟩ := (hstart x').2.serveAll qs
    obtain ⟨hanswers', hmounted'⟩ := (hstart' x').2.serveAll qs
    exact ⟨hanswers'.trans hanswers.symm, fun fid =>
      (hmounted'.exposed fid).trans (hmounted.exposed fid).symm⟩

/-- A run in which no flash call fails is that over memory. -/
theorem runOn_imitates (hD : Flaky c.toConfig D look) {α : Type} {m : M α}
    (hok : (m y.1).allOk D y.2 = true) :
    runOn (memOps c.toConfig) m (view look y) = ((runOn D m y).1, view look (runOn D m y).2) := by
  have hrun := Io.run_imitates hD.done (m y.1) y.2 hok
  unfold runOn view
  dsimp only
  rw [hrun]

/-- The context and the flash hold a filesystem, and nothing else if no call failed. -/
def FaultInv (c : Cfg) (look : δ → Flash) (z : Sys δ × Bool) : Prop :=
  ∃ t, Survives c (view look z.1) t ∧ (z.2 = false → Mounted c (view look z.1) t)

theorem faultInv_boot (hD : Flaky c.toConfig D look) {x : Ctx} {d : δ}
    (hok : (boot c x).allOk D d = true) :
    FaultInv c look ((runOn D (boot c) (x, d)).2, false) := by
  have hboot := mounted_boot (c := c) x (look d)
  have hrun := runOn_imitates (y := (x, d)) hD hok
  unfold view at hrun
  dsimp only at hrun
  rw [hrun] at hboot
  exact ⟨_, hboot.survives, fun _ => hboot⟩

theorem FaultInv.step (hD : Flaky c.toConfig D look) (h : FaultInv c look z) {q : Req c.toConfig}
    (hq : q.failsSafe c D z = true) : FaultInv c look (faultStep c D z q) := by
  obtain ⟨t, hsurvives, hmounted⟩ := h
  unfold Req.failsSafe at hq
  unfold faultStep
  by_cases hok : q.runsOk c D z.1 = true
  · rw [if_pos hok] at hq ⊢
    have hrun : memServe c q (view look z.1) =
        ((serve c D q z.1).1, view look (serve c D q z.1).2) := runOn_imitates hD hok
    cases hz : z.2 with
    | false =>
      have hserve := ((hmounted hz).serve q).2
      rw [hrun] at hserve
      exact ⟨_, hserve.survives, fun _ => hserve⟩
    | true =>
      rw [hz] at hq
      cases hreads : q.reads with
      | true =>
        have hsame := (hsurvives.reading hreads).2
        rw [hrun] at hsame
        refine ⟨t, hsame, fun hstart => ?_⟩
        cases q <;> cases hreads <;> cases hstart
      | false =>
        have hstarts : q.starts = true := by simpa [hreads] using hq
        obtain rfl : q = .prepare := by
          cases q <;> first | rfl | cases hstarts
        have hstart := (hsurvives.recoverable.start hsurvives.layout hsurvives.known z.1.1).2
        rw [show (z.1.1, (view look z.1).2) = view look z.1 from rfl, hrun] at hstart
        exact ⟨t, hstart.survives, fun _ => hstart⟩
  · rw [if_neg hok] at hq ⊢
    have hfail : (q.early c z.1.1).allOk D z.1.2 = false := by
      unfold Req.failsEarly at hq
      simpa using hq
    have hspared := (hsurvives.stopped (y := z.1) hD hfail).2
    refine ⟨t, hsurvives.spared hspared, fun h => ?_⟩
    cases h

theorem faultInv_inductive (hD : Flaky c.toConfig D look) :
    ((faultLts c D).restrict fun z q => q.failsSafe c D z = true).Inductive (FaultInv c look) where
  init z hz := by
    obtain ⟨x, d, hok, rfl⟩ := hz
    exact faultInv_boot hD hok
  step z q z' h hs := by
    obtain ⟨hq, rfl⟩ := hs
    exact h.step hD hq

/-- **A failure of the flash is contained.** In the runs in which no start fails, each update that
fails does so in its first part, and after one there is no update before the next start, the scratch
blocks of the context are no live blocks, in every state. A call of which a flash call fails returns
an error and leaves the live blocks as they are, and so the files, both in the running system and
after a start. -/
theorem faults_contained (hD : Flaky c.toConfig D look)
    (hz : ((faultLts c D).restrict fun z q => q.failsSafe c D z = true).Reachable z) :
    SparesLive c (view look z.1) ∧
    ∀ q : Req c.toConfig, q.failsSafe c D z = true → q.runsOk c D z.1 = false →
      (∃ e, (serve c D q z.1).1 = .error e) ∧
        Contained c (view look z.1) (view look (serve c D q z.1).2) := by
  obtain ⟨t, hsurvives, -⟩ := (faultInv_inductive hD).reachable z hz
  refine ⟨hsurvives.sparesLive, fun q hq hfail => ?_⟩
  have hearly : (q.early c z.1.1).allOk D z.1.2 = false := by
    unfold Req.failsSafe Req.failsEarly at hq
    rw [hfail] at hq
    simpa using hq
  obtain ⟨herror, hspared⟩ := hsurvives.stopped (y := z.1) hD hearly
  exact ⟨herror, hsurvives.contained hspared⟩

end Contained

/-! ### Memory of which some calls fail -/

section Memory

theorem noFlags_lt : (0 : Nat) < 2 ^ 32 := by decide

theorem buffer_dataCfg : Buffer dataCfg.toConfig 1 := by decide

/-- A byte of a file that exists. -/
def rewriteByte (c : Cfg) (f : Fid) (v : UInt8) (h : Buffer c.toConfig 1) : Req c.toConfig :=
  .write { createArgs c f 1 [v] h with flags := 0, flags_lt := noFlags_lt }

/-- The flash of `dataCfg`; the calls `F` fail. -/
abbrev someFail (F : Nat → Bool) : Dev PsaStatus (Flash × Nat) :=
  (memOps dataCfg.toConfig).failing .storageFailure F

/-- A filesystem with a file of one byte. -/
def createdOn (F : Nat → Bool) : Sys (Flash × Nat) × Bool :=
  faultStep dataCfg (someFail F)
    ((runOn (someFail F) (boot dataCfg) (.zero, (fun _ _ => 0, 0))).2, false)
    (oneByte dataCfg fid7 buffer_dataCfg)

/-- The metadata of the block cannot be written in the deletion of the file, and then, after a
start, the data in a write. -/
def twoFail (n : Nat) : Bool := n = 52 || n = 66

theorem faults_contained_twice :
    let D := someFail twoFail
    let z := faultStep dataCfg D (faultStep dataCfg D (createdOn twoFail) (.delete fid7)) .prepare
    let q := rewriteByte dataCfg fid7 9 buffer_dataCfg
    SparesLive dataCfg (view Prod.fst z.1) ∧ (∃ e, (serve dataCfg D q z.1).1 = .error e) ∧
      Contained dataCfg (view Prod.fst z.1) (view Prod.fst (serve dataCfg D q z.1).2) :=
  have h := faults_contained (flaky_failing twoFail)
    (.step (.step (.step (.init ⟨.zero, _, by decide +kernel, rfl⟩) ⟨by decide +kernel, rfl⟩)
      ⟨by decide +kernel, rfl⟩) ⟨by decide +kernel, rfl⟩)
  ⟨h.1, h.2 (rewriteByte dataCfg fid7 9 buffer_dataCfg) (by decide +kernel) (by decide +kernel)⟩

/-- The metadata of the block cannot be written in a write in place. -/
def metaFails (n : Nat) : Bool := n = 49

/-- The scratch data block is not put back where a write fails, and is the block of the file. -/
theorem fault_not_contained : ¬ ∀ (F : Nat → Bool) (z : Sys (Flash × Nat) × Bool)
    (q : Req dataCfg.toConfig), (faultLts dataCfg (someFail F)).Reachable z →
      q.runsOk dataCfg (someFail F) z.1 = false →
      (∃ e, (serve dataCfg (someFail F) q z.1).1 = .error e) ∧
        Contained dataCfg (view Prod.fst z.1)
          (view Prod.fst (serve dataCfg (someFail F) q z.1).2) := by
  intro h
  have hfail := (h metaFails (createdOn metaFails) (rewriteByte dataCfg fid7 9 buffer_dataCfg)
    (.step (.init ⟨.zero, _, by decide +kernel, rfl⟩) rfl) (by decide +kernel)).2
  have hlive := hfail.spares 2 (.inr ⟨1, by decide, by decide +kernel, by decide +kernel⟩)
  exact hlive.2 (by decide) (by decide +kernel)

end Memory

end Tfm.L4.Its
