import Tfm.L4Service.PsStore

/-!
# Protected Storage: RAM, storage and the next start

The table in RAM and the table that the next start selects, after operations that
failed or were cut.

The two part ways in three cases. With rollback protection, a call of
`ps_object_table_align_nv_counters` fails: the table was written by then, but the
entries in RAM are undone and the new file is removed. Without it, the swap count
that is written does not compare as newer than the one in the file, after some 253
saves that failed: the count in RAM advances with each of them. And a start on
storage without a table tagged with counter 1, which raises counters 2 and 3 over
the tag of the only table.

Results:
* `track_step`: otherwise the selected table is the one written last.
* `ram_matches_storage`: RAM and storage agree in every run without these cases.
* `selects_last_written`: without rollback protection, every start selects the
  table written last.
* `ram_differs_after_align_failure`, `selects_stale_after_failed_saves`: runs of
  the first and of the second case.
-/
namespace Tfm.L4.Ps
open Tfm.Crash

variable {n : Nat} {cfg : Cfg} {s : Sys n}

/-! ## The table that was written last -/

/-- The table that was written last, `t` being the one from before: an operation
writes at most one, and switches the table indices right after. -/
def lastOf (s s' : Sys n) (t : Table n) : Table n := if s'.active = s.active then t else s'.table

/-- The swap count of the next save is newer than the one in the file. -/
def SwapAhead (cfg : Cfg) (s : Sys n) : Prop :=
  cfg.rollback = false → ∀ t, tableAt s.files s.active = some t →
    newer cfg s.scratch (nextSwapCount s.table.body.swapCount) t.body.swapCount

/-- No call of the alignment fails. -/
def AlignOk (cfg : Cfg) (s : Sys n) (o : Op) (p : List Ev) : Prop :=
  cfg.rollback = true → ∀ k < alignLen s, p[o.alignStart s + k]? ≠ some .fail

theorem AlignOk.not_fails {o : Op} {p : List Ev} (h : AlignOk cfg s o p) :
    ¬ AlignFails cfg (fun k e => p[k]? = some e) (o.alignStart s) s := by
  intro hx
  obtain ⟨hr, k, hlo, hk, hf⟩ := hx
  refine h hr (k - o.alignStart s) (by omega) ?_
  rw [Nat.add_sub_cancel' hlo]
  exact hf

theorem Switched.lastOf {s' : Sys n} (h : Switched cfg s s') (hl : Live s) (t : Table n) :
    lastOf s s' t = s'.table := by
  unfold Ps.lastOf
  rw [if_neg]
  rw [h.active, hl.scratch]
  exact other_ne _

theorem Untouched.lastOf {s' : Sys n} (h : Untouched s s') (t : Table n) : lastOf s s' t = t :=
  if_pos h.active

section Op

variable {t : Table n} (hl : Live s) (ht : Settled cfg s t) (ha : SwapAhead cfg s)
include hl ht ha

/-- An operation that is not cut leaves RAM and storage in agreement. -/
theorem Done.settled {uid : Nat} {c : Int} {r : Option Obj} {s' : Sys n}
    (h : Done cfg s uid c r s') : Live s' ∧ Settled cfg s' (lastOf s s' t) := by
  have hahead : Ahead cfg s t := fun hr => ha hr t (tableAt_some.2 ht.holds.file)
  rw [h.toSwitched.lastOf hl]
  exact ⟨h.toSwitched.live hl, h.toSwitched.settled hl ht hahead h.aligned⟩

/-- An operation, whatever fails of it but the alignment. -/
theorem op_track {o : Op} {p : List Ev} (hal : AlignOk cfg s o p) :
    match o.run cfg s p with
    | .ok _ s' _ => Live s' ∧ Settled cfg s' (lastOf s s' t)
    | .err _ s' _ => Live s' ∧ Settled cfg s' (lastOf s s' t)
    | .cut s' => Holds cfg s'.files s'.nvc s'.active (lastOf s s' t) := by
  have hahead : Ahead cfg s t := fun hr => ha hr t (tableAt_some.2 ht.holds.file)
  have hrun := op_run cfg hl o p
  revert hrun
  cases o.run cfg s p with
  | ok a s' q => exact fun h => h.settled hl ht ha
  | err e s' q =>
    dsimp only
    intro hx
    obtain h | ⟨-, hf⟩ | h := hx
    · rw [h.toUntouched.lastOf]
      exact ⟨h.toUndone.live hl, h.settled ht⟩
    · exact absurd hf hal.not_fails
    · exact h.settled hl ht ha
  | cut s' =>
    dsimp only
    intro hx
    obtain h | h | hf := hx
    · rw [h.lastOf]
      exact h.holds ht
    · rw [h.lastOf hl]
      exact h.holds hl ht hahead
    · exact absurd hf hal.not_fails

end Op

/-! ## Runs -/

/-- The device and the table that was written last. -/
structure Track (cfg : Cfg) (d : Dev n) (t : Table n) : Prop where
  up : d.up = true → Live d.sys ∧ Settled cfg d.sys t
  down : d.up = false → ∃ a, Holds cfg d.sys.files d.sys.nvc a t

/-- The table that was written last, after a step. -/
def lastStep (cfg : Cfg) (d : Dev n) (t : Table n) : Lbl → Table n
  | .op o p => lastOf d.sys (o.run cfg d.sys p).state t
  | .boot _ | .off => t

/-- The steps that keep RAM and storage in agreement. -/
def Safe (cfg : Cfg) (d : Dev n) : Lbl → Prop
  | .op o p => SwapAhead cfg d.sys ∧ AlignOk cfg d.sys o p
  | .boot p => (∀ e ∈ p, e ≠ .fail) ∧ (cfg.rollback = true → Fresh d.sys)
  | .off => True

theorem Track.holds {d : Dev n} {t : Table n} (h : Track cfg d t) :
    ∃ a, Holds cfg d.sys.files d.sys.nvc a t := by
  cases hu : d.up with
  | true => exact ⟨_, (h.up hu).2.holds⟩
  | false => exact h.down hu

/-- The table is the one tagged with counter 1, if there is one. -/
theorem Holds.auth_of_fresh {a : Fin 2} {t : Table n} (h : Holds cfg s.files s.nvc a t)
    (hr : cfg.rollback = true) (hf : Fresh s) : t.auth (some (s.nvc .c1)) = true := by
  obtain ⟨b, u, hu, hauth⟩ := hf
  rw [tableAt_some] at hu
  by_cases hab : b = a
  · rw [hab, h.file] at hu
    cases hu
    exact hauth
  · have hb : b = other a := by
      match a, b with
      | 0, 0 => exact absurd rfl hab
      | 0, 1 => rfl
      | 1, 0 => rfl
      | 1, 1 => exact absurd rfl hab
    obtain ⟨v, -, -, hsel, hold⟩ := h.tag hr
    have hlt := hold u _ (hb ▸ hu) hauth
    have hle := h.le3
    omega

theorem track_boot {d d' : Dev n} {t : Table n} {p : List Ev} (h : Track cfg d t)
    (hp : ∀ e ∈ p, e ≠ .fail) (hfresh : cfg.rollback = true → Fresh d.sys)
    (hs : step cfg d (.boot p) = some d') : Track cfg d' t := by
  simp only [step] at hs
  split at hs
  · cases hs
  · obtain ⟨a, ha⟩ := h.holds
    have hauth : cfg.rollback = true → t.auth (some (d.sys.nvc .c1)) = true :=
      fun hr => ha.auth_of_fresh hr (hfresh hr)
    have hrun := tfmPsInit_prepared (prepare_holds (F := NoFail) (fun h => h rfl) ha)
      (fun _ _ h => h) p hp
    revert hs hrun
    cases tfmPsInit cfg d.sys p with
    | ok b s' q =>
      intro hs hrun
      cases hs
      have hs' := hrun.1
      subst hs'
      exact ⟨fun _ => ⟨startedSys_live ha, startedSys_settled ha hauth⟩, fun hd => by cases hd⟩
    | err e s' q => exact fun _ hrun => hrun.1.elim
    | cut s' =>
      intro hs hrun
      cases hs
      exact ⟨fun hd => (by cases hd), fun _ => ⟨a, hrun.2 hauth⟩⟩

theorem track_op {d d' : Dev n} {t : Table n} {o : Op} {p : List Ev} (h : Track cfg d t)
    (ha : SwapAhead cfg d.sys) (hal : AlignOk cfg d.sys o p)
    (hs : step cfg d (.op o p) = some d') : Track cfg d' (lastStep cfg d t (.op o p)) := by
  simp only [step] at hs
  split at hs
  · rename_i hu
    obtain ⟨hl, ht⟩ := h.up hu
    have hrun := op_track hl ht ha hal
    show Track cfg d' (lastOf d.sys (o.run cfg d.sys p).state t)
    revert hs hrun
    cases o.run cfg d.sys p with
    | ok b s' q =>
      intro hs hrun
      cases hs
      exact ⟨fun _ => hrun, fun hd => by cases hd⟩
    | err e s' q =>
      intro hs hrun
      cases hs
      exact ⟨fun _ => hrun, fun hd => by cases hd⟩
    | cut s' =>
      intro hs hrun
      cases hs
      exact ⟨fun hd => (by cases hd), fun _ => ⟨_, hrun⟩⟩
  · cases hs

theorem track_step {d d' : Dev n} {t : Table n} {l : Lbl} (h : Track cfg d t) (hl : Safe cfg d l)
    (hs : step cfg d l = some d') : Track cfg d' (lastStep cfg d t l) := by
  cases l with
  | op o p => exact track_op h hl.1 hl.2 hs
  | boot p => exact track_boot h hl.1 hl.2 hs
  | off =>
    simp only [step] at hs
    split at hs
    · cases hs
      exact ⟨fun hd => (by cases hd), fun _ => h.holds⟩
    · cases hs

theorem track_init (cfg : Cfg) (n : Nat) : Track cfg (init cfg n) (firstTable cfg n) :=
  ⟨fun h => (by cases h), fun _ => ⟨0, init_holds cfg n⟩⟩

/-! ## RAM and storage -/

/-- Every object of the table in RAM can be read. -/
def Readable (s : Sys n) : Prop :=
  ∀ uid c, uid ≠ 0 → getObjectEntryIdx s.table.body uid c ≠ none →
    ∃ o, s.view uid c = some o ∧
      ∀ offset size, psObjectRead uid c offset size s [] = readResult (some o) offset size s

/-- The next start selects the table in RAM, and its objects can be read now and
after that start. -/
structure Agree (cfg : Cfg) (s : Sys n) : Prop where
  selected : accepted cfg s.files s.nvc = some s.active
  scratch : s.scratch = other s.active
  table : ∃ t, tableAt s.files s.active = some t ∧ t.body.db = s.table.body.db
  now : Readable s
  reboot : ∃ s' p, psSystemPrepare cfg s.reset [] = .ok () s' p ∧
    s'.table.body.db = s.table.body.db ∧ s'.view = s.view ∧ Readable s'

theorem Live.readable (hl : Live s) : Readable s := by
  intro uid c hu hj
  cases hi : getObjectEntryIdx s.table.body uid c with
  | none => exact absurd hi hj
  | some j =>
    obtain ⟨o, ho, -⟩ := read_at hl hu hi
    exact ⟨o, ho, fun offset size => by rw [object_read_eq hl hu, ho]⟩

theorem Settled.agree {t : Table n} (hl : Live s) (h : Settled cfg s t) : Agree cfg s := by
  obtain ⟨p, hrun⟩ := prepare_quiet h.holds
  refine ⟨h.holds.accepted, hl.scratch, ⟨t, tableAt_some.2 h.holds.file, h.db⟩, hl.readable,
    _, p, hrun, h.db, ?_, (startedSys_live h.holds).readable⟩
  rw [startedSys_view]
  exact viewOf_db_congr h.db

/-- **RAM and storage agree.** In every run in which no call of the alignment
fails, the swap count of a save is newer than the one in the file, and the
partition starts on storage with a table tagged with counter 1 and no call of a
start fails: whenever the partition is running, also after operations that failed
at any of their calls, the next start selects the table in RAM, and every object
can be read, now and after that start. -/
theorem ram_matches_storage (cfg : Cfg) (n : Nat) (d : Dev n)
    (h : ((lts cfg n).restrict (Safe cfg)).Reachable d) (hu : d.up = true) : Agree cfg d.sys := by
  have hind : ((lts cfg n).restrict (Safe cfg)).Inductive fun d => ∃ t, Track cfg d t := by
    constructor
    · intro d hd
      exact ⟨_, hd ▸ track_init cfg n⟩
    · intro d l d' hx he
      obtain ⟨t, ht⟩ := hx
      obtain ⟨hsafe, hs⟩ := he
      exact ⟨_, track_step ht hsafe hs⟩
  obtain ⟨t, ht⟩ := hind.reachable d h
  obtain ⟨hl, hset⟩ := ht.up hu
  exact hset.agree hl

instance (cfg : Cfg) (s : Sys n) : Decidable (SwapAhead cfg s) :=
  decidable_of_iff (cfg.rollback = false → (tableAt s.files s.active).all fun t =>
      newer cfg s.scratch (nextSwapCount s.table.body.swapCount) t.body.swapCount) <| by
    simp [SwapAhead, Option.all_eq_true]

instance (cfg : Cfg) (s : Sys n) (o : Op) (p : List Ev) : Decidable (AlignOk cfg s o p) :=
  inferInstanceAs (Decidable (_ → _))

instance (cfg : Cfg) (d : Dev n) (l : Lbl) : Decidable (Safe cfg d l) :=
  match l with
  | .op _ _ => inferInstanceAs (Decidable (_ ∧ _))
  | .boot _ => inferInstanceAs (Decidable (_ ∧ _))
  | .off => isTrue trivial

/-- A create whose table file cannot be written, after one that succeeded. -/
theorem ram_matches_storage_after_failed_write :
    ∃ d, ((lts ⟨16, true, true⟩ 4).restrict (Safe ⟨16, true, true⟩)).Reachable d ∧ d.up = true ∧
      (d.sys.view 5 1).isSome = true ∧ d.sys.view 6 1 = none ∧ Agree ⟨16, true, true⟩ d.sys := by
  have he : (LTS.execC (fun d l => decide (Safe ⟨16, true, true⟩ d l)) (step ⟨16, true, true⟩)
      (init ⟨16, true, true⟩ 4)
      [.boot [], .op (.create 5 1 0 [1, 2]) [],
        .op (.create 6 1 0 [3]) (List.replicate 10 .ok ++ [.fail])]).map
      (fun d => (d.up, (d.sys.view 5 1).isSome, d.sys.view 6 1)) = some (true, true, none) := by
    decide +kernel
  obtain ⟨d, hd, hv⟩ := Option.map_eq_some_iff.1 he
  have hreach : ((lts ⟨16, true, true⟩ 4).restrict (Safe ⟨16, true, true⟩)).Reachable d :=
    LTS.reachable_execC (fun _ _ h => of_decide_eq_true h) _ rfl hd
  simp only [Prod.mk.injEq] at hv
  exact ⟨d, hreach, hv.1, hv.2.1, hv.2.2, ram_matches_storage ⟨16, true, true⟩ 4 d hreach hv.1⟩

/-- Without the condition: the first call of the alignment fails. The entry of the
new object is undone in RAM and its file is removed, and the table in the file, with
that entry, is the one the next start selects. -/
theorem ram_differs_after_align_failure :
    ¬ ∀ (cfg : Cfg) (n : Nat) (d : Dev n) (o : Op) (p : List Ev) (e : PsaStatus) (s' : Sys n)
        (q : List Ev), ((lts cfg n).restrict NoFault).Reachable d → d.up = true →
      p.count .fail = 1 → (∀ e ∈ p, e = .ok ∨ e = .fail) → o.run cfg d.sys p = .err e s' q →
      Agree cfg s' := by
  intro h
  have he : (LTS.execC (fun d l => decide (NoFault d l)) (step ⟨16, true, true⟩)
      (init ⟨16, true, true⟩ 3) [.boot []]).map (fun d =>
        let r := Op.run ⟨16, true, true⟩ (.create 5 1 0 [1, 2]) d.sys
          (List.replicate 11 .ok ++ [.fail])
        (d.up, r.failure.isSome, (tableAt r.state.files r.state.active).any fun t =>
          (t.body.db 1).uid ≠ (r.state.table.body.db 1).uid)) = some (true, true, true) := by
    decide +kernel
  obtain ⟨d, hd, hv⟩ := Option.map_eq_some_iff.1 he
  have hreach : ((lts ⟨16, true, true⟩ 3).restrict NoFault).Reachable d :=
    LTS.reachable_execC (fun _ _ h => of_decide_eq_true h) _ rfl hd
  simp only [Prod.mk.injEq] at hv
  obtain ⟨hup, hfail, hv⟩ := hv
  obtain ⟨e, hfail⟩ := Option.isSome_iff_exists.1 hfail
  obtain ⟨s', q, hrun⟩ := Res.of_failure hfail
  have hag := h ⟨16, true, true⟩ 3 d _ _ e s' q hreach hup (by decide) (by decide) hrun
  obtain ⟨t, ht, hdb⟩ := hag.table
  rw [hrun] at hv
  dsimp only [Res.state] at hv
  rw [ht] at hv
  simp [hdb] at hv

/-! ## The selected table, without rollback protection -/

/-- Runs of the device, with the table that was written last. -/
def trackStep (cfg : Cfg) (x : Dev n × Table n) (l : Lbl) : Option (Dev n × Table n) :=
  (step cfg x.1 l).map fun d => (d, lastStep cfg x.1 x.2 l)

def trackLts (cfg : Cfg) (n : Nat) : LTS (Dev n × Table n) Lbl :=
  LTS.ofFn (· = (init cfg n, firstTable cfg n)) (trackStep cfg)

/-- The calls of a start succeed; it may be cut. -/
def BootOk (_ : Dev n × Table n) : Lbl → Prop
  | .boot p => ∀ e ∈ p, e ≠ .fail
  | .op _ _ | .off => True

/-- Operations begin only while the swap count of a save is newer than the one in
the file. -/
def CountAhead (cfg : Cfg) (x : Dev n × Table n) : Lbl → Prop
  | .op _ _ => SwapAhead cfg x.1.sys
  | .boot _ | .off => True

instance (x : Dev n × Table n) (l : Lbl) : Decidable (BootOk x l) :=
  match l with
  | .boot _ => inferInstanceAs (Decidable (∀ e ∈ _, _))
  | .op _ _ | .off => isTrue trivial

instance (cfg : Cfg) (x : Dev n × Table n) (l : Lbl) : Decidable (CountAhead cfg x l) :=
  match l with
  | .op _ _ => inferInstanceAs (Decidable (SwapAhead _ _))
  | .boot _ | .off => isTrue trivial

/-- The next start selects the table `t`: it shows the objects of `t`, and they are
all there. -/
structure Selects (cfg : Cfg) (s : Sys n) (t : Table n) : Prop where
  selected : ∃ a, accepted cfg s.files s.nvc = some a ∧ tableAt s.files a = some t
  starts : ∃ s' p, psSystemPrepare cfg s.reset [] = .ok () s' p ∧ s'.table = t ∧
    s'.view = viewOf t.body s.files
  objects : ∀ i, (t.body.db i).uid ≠ 0 → ∃ o, s.files (objectFid i.val) = some (.object o) ∧
    (t.body.db i).tag = some ⟨o.iv, objectFid i.val, o.obj⟩

theorem Holds.selects {a : Fin 2} {t : Table n} (h : Holds cfg s.files s.nvc a t) :
    Selects cfg s t := by
  obtain ⟨p, hrun⟩ := prepare_quiet h
  exact ⟨⟨a, h.accepted, tableAt_some.2 h.file⟩, ⟨_, p, hrun, rfl, startedSys_view⟩, h.body.objs⟩

/-- **The last table is selected.** Without rollback protection, in every run of
any length in which the swap count of a save is newer than the one in the file, any
calls of the operations failing and the power cut anywhere: the next start selects
the table that was written last, and every object it names has its file. -/
theorem selects_last_written (cfg : Cfg) (hr : cfg.rollback = false) (n : Nat)
    (x : Dev n × Table n)
    (h : ((trackLts cfg n).restrict fun x l => BootOk x l ∧ CountAhead cfg x l).Reachable x) :
    Selects cfg x.1.sys x.2 := by
  have hno : cfg.rollback ≠ true := by
    rw [hr]
    exact Bool.false_ne_true
  have hind : ((trackLts cfg n).restrict fun x l => BootOk x l ∧ CountAhead cfg x l).Inductive
      fun x => Track cfg x.1 x.2 := by
    constructor
    · intro x hx
      rw [show x = _ from hx]
      exact track_init cfg n
    · intro x l x' hx he
      obtain ⟨⟨hb, hc⟩, hs⟩ := he
      obtain ⟨d, hd, rfl⟩ := Option.map_eq_some_iff.1 hs
      refine track_step hx ?_ hd
      cases l with
      | op o p => exact ⟨hc, fun h => absurd h hno⟩
      | boot p => exact ⟨hb, fun h => absurd h hno⟩
      | off => trivial
  obtain ⟨a, ha⟩ := (hind.reachable x h).holds
  exact ha.selects

/-- A delete whose table file cannot be written, then one that is cut after the
table was written, while the old table is still there. -/
theorem selects_last_written_on_cut_delete :
    ∃ x, ((trackLts ⟨16, false, true⟩ 3).restrict fun x l => BootOk x l ∧
        CountAhead ⟨16, false, true⟩ x l).Reachable x ∧ x.1.up = false ∧ x.2.body.swapCount = 4 ∧
      (∀ a, (tableAt x.1.sys.files a).isSome = true) ∧ Selects ⟨16, false, true⟩ x.1.sys x.2 := by
  have he : (LTS.execC (fun x l => decide (BootOk x l ∧ CountAhead ⟨16, false, true⟩ x l))
      (trackStep ⟨16, false, true⟩) (init ⟨16, false, true⟩ 3, firstTable ⟨16, false, true⟩ 3)
      [.boot [], .op (.create 5 1 0 [1]) [],
        .op (.delete 5 1) (List.replicate 7 .ok ++ [.fail]),
        .op (.delete 5 1) (List.replicate 8 .ok ++ [.cut 0])]).map
      (fun x => (x.1.up, x.2.body.swapCount, decide (∀ a, (tableAt x.1.sys.files a).isSome = true))) =
        some (false, 4, true) := by decide +kernel
  obtain ⟨x, hx, hv⟩ := Option.map_eq_some_iff.1 he
  have hreach : ((trackLts ⟨16, false, true⟩ 3).restrict fun x l => BootOk x l ∧
      CountAhead ⟨16, false, true⟩ x l).Reachable x :=
    LTS.reachable_execC (fun _ _ h => of_decide_eq_true h) _ rfl hx
  simp only [Prod.mk.injEq, decide_eq_true_eq] at hv
  exact ⟨x, hreach, hv.1, hv.2.1, hv.2.2, selects_last_written ⟨16, false, true⟩ rfl 3 x hreach⟩

/-- A create, 253 deletes whose table file cannot be written, and a delete that is
cut after the table was written. -/
def failedSaves : List Lbl :=
  [.boot [], .op (.create 5 1 0 [1]) []] ++
    List.replicate 253 (.op (.delete 5 1) (List.replicate 7 .ok ++ [.fail])) ++
    [.op (.delete 5 1) (List.replicate 8 .ok ++ [.cut 0])]

/-- Without the condition: the swap count is 2 in the old table and, after 254
increments, 1 in the new one. The next start selects the old table, with the object
that was deleted. -/
theorem selects_stale_after_failed_saves :
    ¬ ∀ (cfg : Cfg) (n : Nat) (x : Dev n × Table n), cfg.rollback = false →
      ((trackLts cfg n).restrict BootOk).Reachable x → Selects cfg x.1.sys x.2 := by
  intro h
  have he : (LTS.execC (fun x l => decide (BootOk x l)) (trackStep ⟨16, false, true⟩)
      (init ⟨16, false, true⟩ 3, firstTable ⟨16, false, true⟩ 3) failedSaves).map
      (fun x => (accepted ⟨16, false, true⟩ x.1.sys.files x.1.sys.nvc,
        (tableAt x.1.sys.files 1).map (·.body.swapCount), x.2.body.swapCount)) =
        some (some 1, some 2, 1) := by decide +kernel
  obtain ⟨x, hx, hv⟩ := Option.map_eq_some_iff.1 he
  have hreach : ((trackLts ⟨16, false, true⟩ 3).restrict BootOk).Reachable x :=
    LTS.reachable_execC (fun _ _ h => of_decide_eq_true h) _ rfl hx
  simp only [Prod.mk.injEq] at hv
  obtain ⟨a, ha, ht⟩ := (h ⟨16, false, true⟩ 3 x rfl hreach).selected
  rw [hv.1, Option.some.injEq] at ha
  subst ha
  have hcount := hv.2.1
  rw [ht, Option.map_some, Option.some.injEq, hv.2.2] at hcount
  omega

end Tfm.L4.Ps
