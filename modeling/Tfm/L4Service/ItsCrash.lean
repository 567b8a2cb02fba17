import Tfm.L4Service.ItsReach

/-!
# Power cuts in the ITS filesystem

The power is cut between any two calls of the flash driver that a call of the
filesystem makes, or inside of a write, of which any number of bytes may be done;
the context in RAM is lost. Then the filesystem is started, and these starts can be
cut in the same way, any number of times, until one is not.

Results: `power_cut_atomic`, this start finds the files as they were before the call, or
as they are after it.
-/
namespace Tfm.L4.Its
open Tfm.BlockDev Tfm.Bytes

section Crash

variable {c : Cfg} {y : Sys Flash} {t : Tab} {f f' : Flash}

/-- The flash where the power is cut in a call. -/
def CutIn (c : Cfg) (q : Req c.toConfig) (y : Sys Flash) (f : Flash) : Prop :=
  (q.prog c y.1).Cut (memOps c.toConfig) (Flash.tear c.toConfig) y.2 f

/-- The power is cut in a start, whatever was in RAM. -/
def CutStart (c : Cfg) (f f' : Flash) : Prop := ∃ x : Ctx, CutIn c .prepare (x, f) f'

/-- The user flags, the size and the contents of a file, as the filesystem tells. -/
def exposed (c : Cfg) (y : Sys Flash) (fid : Fid) : Option (Nat × Nat × List UInt8) :=
  match (memServe c (.info fid) y).1 with
  | .ok (.info i) =>
    match (memServe c (.read fid i.sizeCurrent 0) y).1 with
    | .ok (.data l) => some (i.flags, i.sizeCurrent, l)
    | _ => none
  | _ => none

def Tab.exposed (c : Cfg) (t : Tab) (fid : Fid) : Option (Nat × Nat × List UInt8) :=
  match t.info c fid.id with
  | .ok (.info i) =>
    match t.read c fid.id i.sizeCurrent 0 with
    | .ok (.data l) => some (i.flags, i.sizeCurrent, l)
    | _ => none
  | _ => none

theorem exposed_of_reads (h : ∀ q : Req c.toConfig, q.reads = true →
    (memServe c q y).1 = (t.serve c (some c.eraseVal) q).1) (fid : Fid) :
    Its.exposed c y fid = t.exposed c fid := by
  unfold Its.exposed Tab.exposed
  rw [h (.info fid) rfl]
  dsimp only [Tab.serve]
  split
  · rw [h (.read fid _ 0) rfl]
    rfl
  · rfl

theorem Mounted.exposed (h : Mounted c y t) (fid : Fid) :
    Its.exposed c y fid = t.exposed c fid := exposed_of_reads (fun q _ => (h.serve q).1) fid

/-- The next start makes `t` of the flash. -/
def Recoverable (c : Cfg) (f : Flash) (t : Tab) : Prop :=
  ∃ s, Agrees f s ∧ Recovers c (c.rules false false) s t

/-- **A cut in a call.** -/
theorem Mounted.cut (h : Mounted c y t) {q : Req c.toConfig} (hcut : CutIn c q y f) :
    Recoverable c f t ∨ Recoverable c f (t.serve c (some c.eraseVal) q).2 := by
  obtain ⟨s, hs, hrep⟩ := h.held
  have hwp : wp (c.rules false false) (q.prog c) y.1 s (fun _ _ _ => True) fun s' =>
      Recovers c (c.rules false false) s' t ∨
      Recovers c (c.rules false false) s' (t.serve c (some c.eraseVal) q).2 :=
    wp_serve hrep h.layout h.known.full nofun (fun _ hs' => hs') (fun _ _ _ _ => trivial)
      fun _ _ _ => trivial
  obtain ⟨s', hC, hs'⟩ := (memFollows c.toConfig).cut (fun n => mem_tear c.toConfig n) hs hwp hcut
  exact hC.imp (fun hr => ⟨s', hs', hr⟩) fun hr => ⟨s', hs', hr⟩

theorem Recoverable.cut (h : Recoverable c f t) (hcut : CutStart c f f') :
    Recoverable c f' t := by
  obtain ⟨s, hs, hrec⟩ := h
  obtain ⟨x, hx⟩ := hcut
  have hwp : wp (c.rules false false) (Req.prepare.prog c) x s (fun _ _ _ => True) fun s' =>
      Recovers c (c.rules false false) s' t :=
    wp_recover hrec (fun _ hs' => hs') fun _ _ _ => trivial
  obtain ⟨s', hC, hs'⟩ := (memFollows c.toConfig).cut (fun n => mem_tear c.toConfig n) hs hwp hx
  exact ⟨s', hs', hC⟩

theorem Recoverable.start (h : Recoverable c f t) (hl : Layout c t none)
    (hk : t.Known) (x : Ctx) : (memServe c .prepare (x, f)).1 = .ok .done ∧
      Mounted c (memServe c .prepare (x, f)).2 t := by
  obtain ⟨s, hs, hrec⟩ := h
  have hwp : wp (c.rules false false) (Req.prepare.prog c) x s
      (fun r x' s' => r = .ok .done ∧ Rep c (c.rules false false) x' s' t) fun _ => True :=
    wp_recover hrec (fun _ _ => trivial) fun _ _ hrep => ⟨rfl, hrep⟩
  obtain ⟨s', ⟨h1, h2⟩, h3⟩ := (memFollows c.toConfig).run hs hwp
  exact ⟨h1, ⟨s', h3, h2⟩, hl, hk⟩

theorem Mounted.no_mark (h : Mounted c y t) (i : Nat) (hi : i < c.maxNumFiles)
    (hu : ((tableOf c y).fm i).used = true) : ((tableOf c y).fm i).flags &&& flagDelete = 0 := by
  rw [h.table.fm i hi] at hu ⊢
  by_contra hne
  exact nomatch (h.layout.flag i hi hu).1 hne

/-- **Power cuts are atomic.** From every reachable state, wherever the power is cut in
a call, and then in any number of starts: the next start succeeds, the files it exposes
are those from before the call or those from after it, and no file is marked for
deletion. -/
theorem power_cut_atomic (c : Cfg) (_hev : c.eraseVal = 0x00 ∨ c.eraseVal = 0xFF) (y : Sys Flash)
    (h : (memLts c).Reachable y) (q : Req c.toConfig) (f f' : Flash) (hcut : CutIn c q y f)
    (hcuts : Relation.ReflTransGen (CutStart c) f f') (x : Ctx) :
    (memServe c .prepare (x, f')).1 = .ok .done ∧
    ((∀ fid, exposed c (memServe c .prepare (x, f')).2 fid = exposed c y fid) ∨
      ∀ fid, exposed c (memServe c .prepare (x, f')).2 fid =
        exposed c (memServe c q y).2 fid) ∧
    ∀ i, i < c.maxNumFiles →
      ((tableOf c (memServe c .prepare (x, f')).2).fm i).used = true →
      ((tableOf c (memServe c .prepare (x, f')).2).fm i).flags &&& flagDelete = 0 := by
  obtain ⟨t, ht⟩ := reachable_mounted h
  have hlater : ∀ u, Recoverable c f u → Recoverable c f' u := by
    intro u hu
    induction hcuts with
    | refl => exact hu
    | tail _ hlast ih => exact ih.cut hlast
  rcases ht.cut hcut with hr | hr
  · obtain ⟨h1, h2⟩ := (hlater _ hr).start ht.layout ht.known x
    exact ⟨h1, .inl fun fid => (h2.exposed fid).trans (ht.exposed fid).symm, h2.no_mark⟩
  · have hq := (ht.serve q).2
    obtain ⟨h1, h2⟩ := (hlater _ hr).start hq.layout hq.known x
    exact ⟨h1, .inr fun fid => (h2.exposed fid).trans (hq.exposed fid).symm, h2.no_mark⟩

/-- The flash where the power is cut in call number `k`, after `n` bytes of it. -/
def cutAt (c : Cfg) (q : Req c.toConfig) (y : Sys Flash) (k n : Nat) : Flash :=
  (q.prog c y.1).cutAt (memOps c.toConfig) (Flash.tear c.toConfig) k n y.2

theorem cutIn_cutAt (c : Cfg) (q : Req c.toConfig) (y : Sys Flash) (k n : Nat) :
    CutIn c q y (cutAt c q y k n) :=
  Io.cut_cutAt _ _ n _ k y.2

/-- The power is cut in the deletion of file 7, and in the start after it. -/
theorem power_cut_atomic_small :
    let y := afterTwo 1
    let f := cutAt smallCfg (.delete fid7) y 9 3
    let f' := cutAt smallCfg .prepare (.zero, f) 4 1
    (memServe smallCfg .prepare (.zero, f')).1 = .ok .done ∧
    ((∀ fid, exposed smallCfg (memServe smallCfg .prepare (.zero, f')).2 fid =
        exposed smallCfg y fid) ∨
      ∀ fid, exposed smallCfg (memServe smallCfg .prepare (.zero, f')).2 fid =
        exposed smallCfg (memServe smallCfg (.delete fid7) y).2 fid) :=
  have h := power_cut_atomic smallCfg (.inr rfl) (afterTwo 1)
    (reachable_serveAll (twoFiles 1) (.init (booted_init smallCfg))) (.delete fid7) _ _
    (cutIn_cutAt smallCfg (.delete fid7) (afterTwo 1) 9 3)
    (.single ⟨.zero, cutIn_cutAt smallCfg .prepare (.zero, _) 4 1⟩) .zero
  ⟨h.1, h.2.1⟩

end Crash

end Tfm.L4.Its
