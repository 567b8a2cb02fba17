import Tfm.L4Service.ItsReach

/-!
# How the ITS filesystem programs its flash

The filesystem over a device that watches for bytes programmed twice between two
erases (`trackOps`), next to the one over NOR flash (`norOps`) and the one over
memory that overwrites (`memOps`).

A write that replaces a file by one of another maximal size marks the old file for
deletion in the scratch metadata block, and can be refused after that: the mark
stays until the block is erased, by the next update or the next start, and the next
update programs it again. `Req.marked` is the list of the files with such a mark, from
the requests, and `Req.Unmarked` says that a call does not program one of them again.

Results: `Watched.serve`, what a call does to the watched filesystem: only the marks
are on the file table of the scratch block; `programs_once`, a run of such calls
programs no byte twice, and NOR flash is overwriting memory for it.
-/
namespace Tfm.L4.Its
open Tfm.BlockDev Tfm.Bytes

/-! ## Marks -/

section Marks

variable {c : Cfg} {t u : Tab} {m : List Nat} {q : Req c.toConfig}

/-- The call erases the scratch metadata block: an update, or a start. -/
def Req.erases (c : Cfg) (t : Tab) : Req c.toConfig → Bool
  | .prepare => true
  | q => q.accepted c t

/-- The files with a mark in the scratch metadata block after the call, `m` before. -/
def Req.marked (c : Cfg) (t : Tab) (m : List Nat) (q : Req c.toConfig) : List Nat :=
  if q.erases c t then [] else m ++ (q.marks c t).toList

/-- The call programs no mark again: there is none when it is an update, which programs
the whole file table, and the file that it marks has none. -/
def Req.Unmarked (c : Cfg) (t : Tab) (m : List Nat) (q : Req c.toConfig) : Prop :=
  (q.accepted c t = true → m = []) ∧ ∀ o ∈ q.marks c t, o ∉ m

instance (c : Cfg) (t : Tab) (m : List Nat) (q : Req c.toConfig) : Decidable (q.Unmarked c t m) :=
  inferInstanceAs (Decidable (_ ∧ _))

/-- Every call of a run meets `Req.Unmarked`. -/
def AllUnmarked (c : Cfg) : List (Req c.toConfig) → Sys Flash → List Nat → Prop
  | [], _, _ => True
  | q :: qs, y, m => q.Unmarked c (tableOf c y) m ∧
      AllUnmarked c qs (memServe c q y).2 (q.marked c (tableOf c y) m)

instance decidableAllUnmarked (c : Cfg) : ∀ (qs : List (Req c.toConfig)) (y : Sys Flash)
    (m : List Nat), Decidable (AllUnmarked c qs y m)
  | [], _, _ => inferInstanceAs (Decidable True)
  | _ :: qs, _, _ =>
    haveI := decidableAllUnmarked c qs
    inferInstanceAs (Decidable (_ ∧ _))

theorem erases_eq (hq : q ≠ .prepare) : q.erases c t = q.accepted c t := by
  cases q with
  | prepare => exact absurd rfl hq
  | write | delete | read | info => rfl

theorem marked_refused (h : q.accepted c t = false) (hq : q ≠ .prepare) :
    q.marked c t m = m ++ (q.marks c t).toList := by
  unfold Req.marked
  rw [erases_eq hq, h]
  exact if_neg Bool.false_ne_true

theorem SameTable.marked (h : SameTable c t u) (hu : Sane c u) :
    q.marked c t m = q.marked c u m := by
  have herases : q.erases c t = q.erases c u := by
    by_cases hq : q = .prepare
    · subst hq
      rfl
    · rw [erases_eq hq, erases_eq hq, h.accepted hu]
  unfold Req.marked
  rw [h.marks, herases]

theorem marks_lt {o : Nat} (h : o ∈ q.marks c t) : o < c.maxNumFiles := by
  cases q with
  | write a =>
    unfold Req.marks at h
    dsimp only at h
    split at h
    · cases h
    · split at h
      · next o' hl =>
        obtain rfl : o' = o := Option.some.inj h
        exact (Tab.find_some (Tab.lookup_some hl).1).1
      · cases h
  | delete | read | info | prepare => cases h

end Marks

/-! ## A call on the watched filesystem -/

section Watch

variable {c : Cfg} {d : Tracked} {s s' : Media} {t : Tab} {x : Ctx} {y : Sys Tracked}
  {m : List Nat}

/-- The watched filesystem, without the watch. -/
abbrev plain (y : Sys Tracked) : Sys Flash := (y.1, y.2.mem)

abbrev trackServe (c : Cfg) : Req c.toConfig → Sys Tracked → Reply × Sys Tracked :=
  serve c (trackOps c.toConfig)

/-- The memory does what the watched memory does. -/
theorem runOn_plain {α : Type} (p : M α) (y : Sys Tracked) :
    runOn (memOps c.toConfig) p (plain y) =
      ((runOn (trackOps c.toConfig) p y).1, plain (runOn (trackOps c.toConfig) p y).2) := by
  unfold runOn
  dsimp only
  rw [run_track]

/-- Every entry of the file table of the scratch metadata block is blank, but for those
of `m`. -/
def BlankBut (c : Cfg) (t : Tab) (m : List Nat) (s : Media) : Prop :=
  ∀ i, i < c.maxNumFiles → i ∉ m → ∀ o, c.fileMetaOffset i ≤ o → o < c.fileMetaOffset (i + 1) →
    (s.cell t.sm o).prog = false

theorem Rep.blankBut (h : Rep c (c.rules false true) x s t) : BlankBut c t m s := by
  intro i hi _ o _ ho
  have hend : c.fileMetaOffset (i + 1) ≤ c.metaEnd := c.fileMetaOffset_mono hi
  have hle := c.metaEnd_le
  rw [h.clean.sm o (by omega) (.inr (.inr (.inr rfl)))]
  rfl

/-- A mark is an entry of the list from then on. -/
theorem WritesEntry.blankBut {r : Rules} {o : Nat} (h : WritesEntry c r t o s s')
    (hb : BlankBut c t m s) : BlankBut c t (m ++ [o]) s' := by
  intro i hi hm p hp hp'
  have hio : i ≠ o := by
    intro hx
    subst hx
    exact hm (List.mem_append_right m List.mem_cons_self)
  rw [h.1.prog t.sm p, hb i hi (fun hin => hm (List.mem_append_left _ hin)) p hp hp']
  intro hx
  obtain ⟨-, h1, h2⟩ := hx
  rcases Nat.lt_or_gt_of_ne hio with hlt | hgt
  · have := c.fileMetaOffset_mono (show i + 1 ≤ o from hlt)
    omega
  · have := c.fileMetaOffset_mono (show o + 1 ≤ i from hgt)
    omega

/-- An offset in the file table is in one of its entries. -/
theorem exists_entry {o : Nat} : ∀ {n : Nat}, c.fileMetaOffset 0 ≤ o → o < c.fileMetaOffset n →
    ∃ i, i < n ∧ c.fileMetaOffset i ≤ o ∧ o < c.fileMetaOffset (i + 1)
  | 0, h0, hn => absurd hn (by omega)
  | n + 1, h0, hn => by
    by_cases ho : o < c.fileMetaOffset n
    · obtain ⟨i, hi, h⟩ := exists_entry h0 ho
      exact ⟨i, by omega, h⟩
    · exact ⟨n, by omega, by omega, hn⟩

/-- What is on the watched flash. -/
def Tracked.media (d : Tracked) : Media where
  cell b o := ⟨some (d.mem b o), d.programmed b o⟩
  pend := none

theorem watches_media (h : d.twice = false) : Watches d d.media where
  mem _ _ _ hv := Option.some.inj hv
  prog _ _ := rfl
  once := h

/-- What holds of a view of the flash holds of the flash. -/
theorem Watches.rep (hw : Watches d s) (h : Rep c (c.rules false false) x s t) :
    Rep c (c.rules false false) x d.media t := by
  have hhas : ∀ b o v, s.Has (c.rules false false) b o v →
      d.media.Has (c.rules false false) b o v :=
    fun b o v hv => ⟨congrArg some (hw.mem b o v hv.1), nofun⟩
  have hblank : ∀ b o, s.cell b o = (c.rules false false).blank →
      d.media.cell b o = (c.rules false false).blank := by
    intro b o hc
    have hm : d.mem b o = c.eraseVal := hw.mem b o c.eraseVal (by rw [hc]; rfl)
    have hp : d.programmed b o = false := by rw [hw.prog, hc]; rfl
    simp only [Tracked.media, hm, hp]
    rfl
  refine ⟨h.ctx, ⟨?_, ?_, ?_, ?_⟩, ?_, ?_, nofun⟩
  · exact fun i v hi => hhas _ _ v (h.stored.hdr i v hi)
  · exact fun l hl i v hi => hhas _ _ v (h.stored.block l hl i v hi)
  · exact fun i hi k v hk => hhas _ _ v (h.stored.file i hi k v hk)
  · exact fun l hl o h1 h2 v hv => hhas _ _ v (h.stored.data l hl o h1 h2 v hv)
  · exact fun o ho hout => hblank _ o (h.clean.sm o ho hout)
  · exact fun h2 o ho => hblank _ o (h.clean.sd h2 o ho)

/-- Without a buffer, what is stored does not depend on how often bytes are written. -/
theorem Stored.recount {on on' : Bool} (h : Stored c (c.rules false on) s t) :
    Stored c (c.rules false on') s t := ⟨h.hdr, h.block, h.file, h.data⟩

theorem Refused.recount (h : Refused c (c.rules false true) t s s') :
    Refused c (c.rules false false) t s s' :=
  h.imp id fun hf => ⟨⟨hf.1.prog, hf.1.same⟩, hf.2⟩

/-- Where bytes can be written twice, less is demanded of the scratch blocks. -/
theorem Rep.recount (h : Rep c (c.rules false true) x s t) : Rep c (c.rules false false) x s t :=
  ⟨h.ctx, h.stored.recount,
    ⟨fun o ho _ => h.clean.sm o ho (.inr (.inr (.inr rfl))), h.clean.sd, nofun⟩⟩

theorem Rep.live_once (h : Rep c (c.rules false false) x s t) (ht : Sane c t) :
    Live c false true x s t where
  sane := ht
  active := (h.live ht).active
  scratch := (h.live ht).scratch
  stored := h.stored.recount
  pend := nofun

theorem Startable.recount {on on' : Bool} (h : Startable c (c.rules false on) s t) :
    Startable c (c.rules false on') s t := ⟨h.stored.recount, h.stale, nofun⟩

/-- The watched filesystem holds `t`, no byte was programmed twice, and on the file table
of the scratch metadata block are the marks `m` only. -/
structure Watched (c : Cfg) (y : Sys Tracked) (t : Tab) (m : List Nat) : Prop where
  rep : Rep c (c.rules false false) y.1 y.2.media t
  blank : BlankBut c t m y.2.media
  layout : Layout c t none
  known : t.Known
  sound : y.2.Sound c.toConfig
  once : y.2.twice = false

theorem Watched.mounted (h : Watched c y t m) : Mounted c (plain y) t :=
  ⟨⟨y.2.media, (watches_media h.once).mem, h.rep⟩, h.layout, h.known⟩

theorem Watched.rep_once (h : Watched c y t []) :
    Rep c (c.rules false true) y.1 y.2.media t := by
  refine ⟨h.rep.ctx, h.rep.stored.recount, fun o ho _ => ?_, h.rep.clean.sd, nofun⟩
  by_cases hin : c.fileMetaOffset 0 ≤ o ∧ o < c.metaEnd
  · obtain ⟨i, hi, h1, h2⟩ := exists_entry hin.1 hin.2
    have hp : y.2.programmed t.sm o = false := h.blank i hi List.not_mem_nil o h1 h2
    simp only [Tracked.media, hp, h.sound t.sm o hp]
    rfl
  · exact h.rep.clean.sm o ho (by omega)

theorem Watched.canWrite (h : Watched c y t m) {i : Nat} (hi : i < c.maxNumFiles) (hm : i ∉ m) :
    CanWrite (c.rules false true) y.2.media t.sm (c.fileMetaOffset i) c.fileMetaSize where
  block := Nat.lt_of_lt_of_le t.sm_lt c.two_le
  room := Nat.le_trans (c.fileMetaOffset_lt hi) c.metaEnd_le
  opened := nofun
  once _ k hk :=
    h.blank i hi hm _ (Nat.le_add_right _ k) (by rw [c.fileMetaOffset_succ]; omega)

/-- The answer of a call, what is stored after it, and the marks. -/
def Serves (c : Cfg) (t : Tab) (m : List Nat) (q : Req c.toConfig) (r : Reply) (x' : Ctx)
    (s' : Media) : Prop :=
  r = (t.serve c (some c.eraseVal) q).1 ∧
    Rep c (c.rules false false) x' s' (t.serve c (some c.eraseVal) q).2 ∧
    BlankBut c (t.serve c (some c.eraseVal) q).2 (q.marked c t m) s'

theorem Watched.wp_accepted (h : Watched c y t []) {q : Req c.toConfig}
    (ha : q.accepted c t = true) :
    wp (c.rules false true) (q.prog c) y.1 y.2.media (Serves c t [] q) fun _ => True := by
  refine wp_serve h.rep_once h.layout h.known.full nofun (fun _ _ => trivial)
    (fun e s' he _ => ?_) fun x' s' hrep => ⟨rfl, hrep.recount, hrep.blankBut⟩
  change t.serve c (some c.eraseVal) q = (.error e, t) at he
  exact absurd (accepted_done ha) (by rw [he]; exact nofun)

theorem Watched.wp_refused (h : Watched c y t m) {q : Req c.toConfig} (hq : q.accepted c t = false)
    (hm : ∀ o ∈ q.marks c t, o ∉ m) :
    wp (c.rules false true) (q.prog c) y.1 y.2.media (Serves c t m q) fun _ => True := by
  have hsame : (t.serve c (some c.eraseVal) q).2 = t := serve_refused hq
  unfold Serves
  rw [hsame]
  refine Its.wp_refused (h.rep.live_once h.layout.sane) h.rep.startable.recount h.layout h.known.full hq
    (fun o ho hi => h.canWrite hi (hm o ho)) (fun hp => ?_) (fun o s' ho hw => ?_)
    fun hp x' s' hrep => ⟨rfl, hrep.recount, hrep.blankBut⟩
  · refine ⟨rfl, h.rep, fun i hi hin => h.blank i hi fun him => hin ?_⟩
    rw [marked_refused hq hp]
    exact List.mem_append_left _ him
  · have hp : q ≠ .prepare := by
      intro hx
      subst hx
      cases ho
    have hin : o < c.maxNumFiles := marks_lt ho
    have hmarks : q.marks c t = some o := ho
    refine ⟨rfl, (hw.refused hin).recount.rep h.rep h.layout.sane, ?_⟩
    rw [marked_refused hq hp, hmarks]
    exact hw.blankBut h.blank

/-- **A call on the watched filesystem.** -/
theorem Watched.serve (h : Watched c y t m) {q : Req c.toConfig}
    (hq : q.Unmarked c (tableOf c (plain y)) m) :
    (trackServe c q y).1 = (t.serve c (some c.eraseVal) q).1 ∧
      Watched c (trackServe c q y).2 (t.serve c (some c.eraseVal) q).2
        (q.marked c (tableOf c (plain y)) m) := by
  have htab := h.mounted.table
  have hwp : wp (c.rules false true) (q.prog c) y.1 y.2.media (Serves c t m q) fun _ => True := by
    obtain ⟨hu, hm⟩ := hq
    rw [htab.accepted h.layout.sane] at hu
    rw [htab.marks] at hm
    cases ha : q.accepted c t with
    | true =>
      obtain rfl := hu ha
      exact h.wp_accepted ha
    | false => exact h.wp_refused ha hm
  obtain ⟨s', ⟨h1, h2, hb⟩, h3⟩ := (trackFollows c.toConfig).run (watches_media h.once) hwp
  refine ⟨h1, h3.rep h2, ?_, h.layout.serve q, h.known.serve rfl q,
    run_sound c.toConfig _ _ h.sound h3.once, h3.once⟩
  rw [htab.marked h.layout.sane]
  exact fun i hi hm o h4 h5 => (h3.prog _ o).trans (hb i hi hm o h4 h5)

theorem watched_boot (x : Ctx) (hd : d.Sound c.toConfig) (ho : d.twice = false) :
    Watched c (runOn (trackOps c.toConfig) (boot c) (x, d)).2 (Tab.fresh c (some c.eraseVal)) [] := by
  have hwp : wp (c.rules false true) (boot c) x d.media
      (fun _ x' s' => Rep c (c.rules false true) x' s' (Tab.fresh c (some c.eraseVal)))
      fun _ => True := wp_boot nofun fun _ _ hrep => hrep
  obtain ⟨s', h1, h2⟩ := (trackFollows c.toConfig).run (watches_media ho) hwp
  exact ⟨h2.rep h1.recount, fun i hi hm o h3 h4 => (h2.prog _ o).trans (h1.blankBut i hi hm o h3 h4),
    .fresh, fun _ _ => rfl, run_sound c.toConfig _ _ hd h2.once, h2.once⟩

end Watch

/-! ## NOR flash and overwriting memory -/

section Nor

variable {c : Cfg} {d : Tracked} {t : Tab} {y : Sys Tracked}

/-- A program that programs no byte twice does the same on NOR flash and on memory. -/
theorem runOn_nor {α : Type} (m : M α) (x : Ctx) (hd : d.Sound c.toConfig)
    (h : (runOn (trackOps c.toConfig) m (x, d)).2.2.twice = false) :
    runOn (norOps c.toConfig) m (x, d.mem) = runOn (memOps c.toConfig) m (x, d.mem) := by
  unfold runOn
  dsimp only
  rw [run_nor c.toConfig _ d hd h, run_track]

theorem Watched.serveAll (qs : List (Req c.toConfig)) : ∀ {y : Sys Tracked} {t : Tab} {m : List Nat},
    Watched c y t m → AllUnmarked c qs (plain y) m →
    (Its.serveAll c (trackOps c.toConfig) qs y).2.2.twice = false ∧
      Its.serveAll c (norOps c.toConfig) qs (plain y) =
        Its.serveAll c (memOps c.toConfig) qs (plain y) := by
  induction qs with
  | nil => exact fun h _ => ⟨h.once, rfl⟩
  | cons q qs ih =>
    intro y t m h hq
    have hstep := (h.serve hq.1).2
    have hmem : (memServe c q (plain y)).2 = plain (trackServe c q y).2 :=
      congrArg Prod.snd (runOn_plain _ y)
    obtain ⟨h1, h2⟩ := ih hstep (hmem ▸ hq.2)
    have hnor : Its.serve c (norOps c.toConfig) q (plain y) = memServe c q (plain y) :=
      runOn_nor _ _ h.sound hstep.once
    refine ⟨h1, ?_⟩
    unfold Its.serveAll
    dsimp only
    rw [hnor, hmem, h2]

end Nor

/-! ## Runs -/

/-- The watched filesystem after a wipe and a start. -/
abbrev trackBooted (c : Cfg) (x : Ctx) (d : Tracked) : Sys Tracked :=
  (runOn (trackOps c.toConfig) (boot c) (x, d)).2

/-- The replies of a run from a wipe, and the context and the flash after it. -/
def runFrom (c : Cfg) (D : Dev PsaStatus Flash) (x : Ctx) (f : Flash) (qs : List (Req c.toConfig)) :
    List Reply × Sys Flash :=
  serveAll c D qs (runOn D (boot c) (x, f)).2

/-- Flash of zeros, all of it programmed. -/
def zeros : Tracked := ⟨fun _ _ => 0, fun _ _ => true, false⟩

theorem zeros_sound (c : Config) : zeros.Sound c := nofun

/-- A write of one byte to file 7 from `offset` on. -/
def byteArgs (flags maxSize offset : Nat) (hf : flags < 2 ^ 32) : WriteArgs smallCfg.toConfig where
  fid := fid7
  flags := flags
  maxSize := maxSize
  dataSize := 1
  offset := offset
  data _ := 1
  flags_lt := hf
  buffer := by decide

/-- File 7 is created with one byte, and is to be replaced by a file that is too large. -/
def replaced : List (Req smallCfg.toConfig) :=
  [.write (byteArgs flagCreate 5 0 flagCreate_lt),
    .write (byteArgs (flagCreate ||| flagTruncate) 11 0 (by decide))]

/-- A byte is appended to file 7. -/
def appended : List (Req smallCfg.toConfig) := [.write (byteArgs 0 5 1 (by decide))]

/-- **Every byte is programmed once.** From a wipe of any flash, a run in which every
call meets `Req.Unmarked` programs no byte twice between two erases, and gives the same
replies and the same contents on NOR flash and on memory. -/
theorem programs_once (c : Cfg) (x : Ctx) (d : Tracked) (hd : d.Sound c.toConfig)
    (ho : d.twice = false) (qs : List (Req c.toConfig))
    (hqs : AllUnmarked c qs (memBooted c x d.mem) []) :
    (serveAll c (trackOps c.toConfig) qs (trackBooted c x d)).2.2.twice = false ∧
      runFrom c (norOps c.toConfig) x d.mem qs = runFrom c (memOps c.toConfig) x d.mem qs := by
  have hboot := watched_boot x hd ho
  have hmem : memBooted c x d.mem = plain (trackBooted c x d) :=
    congrArg Prod.snd (runOn_plain (boot c) (x, d))
  obtain ⟨h1, h2⟩ := hboot.serveAll qs (hmem ▸ hqs)
  have hnor := runOn_nor (boot c) x hd hboot.once
  have hsame : serveAll c (norOps c.toConfig) qs (memBooted c x d.mem) =
      serveAll c (memOps c.toConfig) qs (memBooted c x d.mem) := by
    rw [hmem]
    exact h2
  refine ⟨h1, ?_⟩
  unfold runFrom
  rw [hnor]
  exact hsame

/-- After a replacement that is refused, the filesystem is started, and a byte is appended
to the file. -/
theorem programs_once_appended :
    (serveAll smallCfg (trackOps smallCfg.toConfig) (replaced ++ .prepare :: appended)
        (trackBooted smallCfg .zero zeros)).2.2.twice = false ∧
      runFrom smallCfg (norOps smallCfg.toConfig) .zero zeros.mem (replaced ++ .prepare :: appended) =
        runFrom smallCfg (memOps smallCfg.toConfig) .zero zeros.mem
          (replaced ++ .prepare :: appended) :=
  programs_once smallCfg .zero zeros (zeros_sound _) rfl _ (by decide +kernel)

/-- Without the start, the mark of the old file is programmed over: on NOR flash, the
size of the file is lost. -/
theorem refused_mark_programmed : ¬ ∀ (c : Cfg) (x : Ctx) (d : Tracked), d.Sound c.toConfig →
    d.twice = false → ∀ qs : List (Req c.toConfig),
    (serveAll c (trackOps c.toConfig) qs (trackBooted c x d)).2.2.twice = false ∧
      runFrom c (norOps c.toConfig) x d.mem qs = runFrom c (memOps c.toConfig) x d.mem qs := by
  intro h
  have hrun := (h smallCfg .zero zeros (zeros_sound _) rfl (replaced ++ appended)).1
  exact absurd hrun (by decide +kernel)

end Tfm.L4.Its
