import Tfm.L4Service.PsRollback

/-!
# Wiping Protected Storage

`ps_system_wipe_all` makes an empty table and saves it, like every other table, at the
scratch index; it does not look at what is in the other table file. `tfm_ps_init` calls
it where the start of the partition fails, and then starts the partition again.

Results: `wipe_wipes`, where a wipe and a start that succeed leave no object: with
rollback protection always, since the other table is tagged with an older counter
value. Without it the new table has swap count 1, and an older table 1 is selected
over it.
-/
namespace Tfm.L4.Ps
open Tfm.Crash

variable {n : Nat} {cfg : Cfg} {s : Sys n}

/-! ## A start -/

section Start

/-- A start that succeeds, whatever fails in it, loads the table that it selects. -/
theorem prepare_chosen (h2 : s.nvc .c2 ≤ s.nvc .c1) (h3 : s.nvc .c3 ≤ s.nvc .c1)
    (hmax : s.nvc .c1 ≤ nvcMax) : wp AnyEv (psSystemPrepare cfg) s
      ⟨fun _ s' => ∃ a t, Chosen cfg s a t ∧ s' = startedSys cfg s a t, fun _ _ => True,
        fun _ => True⟩ := by
  refine wp_bind (select_chosen (fun a t hch => ?_) (fun _ _ => trivial) fun _ => trivial)
  refine wp_bind (wp_get ?_)
  have hrem : wp AnyEv (attempt (psaItsRemove (tableFid (other a))))
      { s with table := t, active := a, scratch := other a }
      ⟨fun r s₂ => r = .ok () ∨ r = .error .doesNotExist → s₂ = { s with
          table := t, active := a, scratch := other a
          files := Function.update s.files (tableFid (other a)) none }, fun _ _ => True,
        fun _ => True⟩ := by
    refine wp_attempt (wp_ext ?_ ?_ (fun _ => ?_) fun _ => trivial)
    · intro _ s' h
      split at h
      · cases h
        exact fun _ => rfl
      · cases h
    · intro e s' h
      split at h
      · cases h
      · next hnone =>
        cases h
        intro _
        dsimp only at hnone ⊢
        rw [← hnone, Function.update_eq_self]
    · rintro (h | h) <;> cases h
  refine wp_bind (wp_mono hrem ?_ (fun _ _ _ => trivial) fun _ _ => trivial)
  intro r s₂ hs₂
  have hend : wp AnyEv (initEnd (if cfg.rollback then some (s.nvc .c1) else none)) { s with
          table := t, active := a, scratch := other a
          files := Function.update s.files (tableFid (other a)) none }
      ⟨fun _ s' => ∃ a t, Chosen cfg s a t ∧ s' = startedSys cfg s a t, fun _ _ => True,
        fun _ => True⟩ := by
    cases hr : cfg.rollback with
    | false =>
      simp only [Bool.false_eq_true, if_false]
      refine wp_modify ?_
      refine ⟨a, t, hch, ?_⟩
      simp [startedSys, hr]
    | true =>
      refine wp_bind (wp_of_wpAt (i := 0) (align_at hmax h2 h3 rfl ?_
        (fun _ _ _ _ _ _ _ _ _ _ _ _ => trivial) fun _ _ _ _ _ _ => trivial))
      dsimp only
      refine wp_modify ?_
      refine ⟨a, t, hch, ?_⟩
      unfold startedSys setNvc
      simp only [hr, if_true, Sys.mk.injEq, and_true, true_and]
      funext c
      cases c <;> simp
  dsimp only
  split
  · rw [hs₂ (.inl rfl)]
    exact hend
  · rw [hs₂ (.inr rfl)]
    exact hend
  · exact wp_bind (wp_throw trivial)

/-- Without rollback protection, a start that cannot read table 0 takes a valid table 1. -/
theorem prepare_unread {t : Table n} (hr : cfg.rollback = false) (ht : tableAt s.files 1 = some t)
    (hauth : t.auth none = true) (hv : t.body.version = objectSystemVersion) :
    ∃ q, psSystemPrepare cfg s [.fail] = .ok () (startedSys cfg s 1 t) q := by
  have hread : psObjectTableFsReadTable 1 s [] = .ok (some t) s [] := by
    simp [psObjectTableFsReadTable, psaItsGet, bind, attempt, ext, call, tableAt_some.1 ht, pure]
  have hauths : authenticateTables cfg none (some t) s [] = .ok (.invalid, .valid, none) s [] := by
    simp [authenticateTables, hr, psObjectTableAuthenticateCtxTable, psCryptoAuthenticate, bind,
      attempt, ext, call, hauth, pure]
  have hset : psSetActiveObjectTable cfg none (some t) (validateVersion (n := n) none .invalid)
      (validateVersion (some t) .valid) s [] =
      .ok () { s with active := 1, scratch := 0, table := t } [] := by
    simp [psSetActiveObjectTable, validateVersion, hv, activeTable, Crash.modify]
  have hsel : psObjectTableSelect cfg s [.fail] =
      .ok none { s with active := 1, scratch := 0, table := t } [] := by
    have hread0 : psObjectTableFsReadTable 0 s [.fail] = .ok none s [] := rfl
    refine bind_run hread0 (bind_run rfl (bind_run hread (bind_run rfl ?_)))
    exact bind_run hauths (bind_run rfl (bind_run hset rfl))
  -- the table that could not be read is removed as the old one
  have hrem : ∃ r, (r = .ok () ∨ r = .error .doesNotExist) ∧
      attempt (psaItsRemove (tableFid 0)) { s with active := 1, scratch := 0, table := t } [] =
        .ok r { s with active := 1, scratch := 0, table := t,
                       files := Function.update s.files (tableFid 0) none } [] := by
    cases hf : s.files (tableFid 0) with
    | some f => exact ⟨.ok (), .inl rfl, by simp [attempt, psaItsRemove, ext, call, hf]⟩
    | none =>
      refine ⟨.error .doesNotExist, .inr rfl, ?_⟩
      rw [← hf, Function.update_eq_self]
      simp [attempt, psaItsRemove, ext, call, hf]
  obtain ⟨r, hr', hrem⟩ := hrem
  refine ⟨[], bind_run hsel (bind_run rfl (bind_run hrem ?_))⟩
  unfold startedSys
  rcases hr' with rfl | rfl <;> simp [Crash.modify, hr, other]

end Start

/-! ## Runs without faults -/

section Quiet

/-- The table in RAM was saved. -/
structure SavedAs (s s' : Sys n) (iv : Iv) : Prop where
  files : s'.files = Function.update s.files (tableFid s.scratch) (some (.table s'.table))
  active : s'.active = s.scratch
  scratch : s'.scratch = s.active
  db : s'.table.body.db = s.table.body.db
  iv : s'.iv = iv

theorem save_quiet {iv : Iv} (hn : s.iv.next = some iv) (h2 : s.nvc .c2 ≤ s.nvc .c1)
    (h3 : s.nvc .c3 ≤ s.nvc .c1) (hc : cfg.rollback = true → s.nvc .c1 < nvcMax) :
    wp Quiet (psObjectTableSaveTable cfg) s
      ⟨fun _ s' => SavedAs s s' iv, fun _ _ => False, fun _ => False⟩ := by
  have hF : ¬ Quiet .fail := fun h => by cases h
  have hnc : ∀ {P : Prop}, Cuts Quiet → P := fun h => absurd h not_cuts_quiet
  cases hr : cfg.rollback with
  | true =>
    have hlt := hc hr
    exact save_wp hF hr rfl hlt (by omega) (by omega) hn rfl rfl ⟨rfl, rfl, rfl, rfl, rfl⟩ hnc hnc hnc
  | false =>
    refine wp_bind ?_
    unfold saveStamp
    simp only [hr, Bool.false_eq_true, if_false]
    refine wp_bind (wp_modify ?_)
    dsimp only
    refine wp_pure ?_
    refine wp_bind (wp_setkey hF ?_ hnc)
    refine wp_bind (wp_attempt (generateAuthTag_wp hF hn ?_ hnc))
    refine wp_bind (wp_destroykey hF ?_ hnc)
    refine wp_bind (wp_bind (wp_get (wp_bind (wp_itsSet hF ?_ hnc))))
    dsimp only
    refine wp_modify ?_
    dsimp only
    exact wp_pure ⟨rfl, rfl, rfl, rfl, rfl⟩

/-- IVs for an object and its table, and a value of counter 1, are left. -/
structure Left (cfg : Cfg) (s : Sys n) : Prop where
  iv : s.iv.val + 2 < 2 ^ 96
  nvc : cfg.rollback = true → s.nvc .c1 < nvcMax

theorem tableFreeIdx_two {b : Body n} (hn : 2 ≤ n) (hb : ∀ i, (b.db i).uid = 0) :
    ∃ i, tableFreeIdx b 2 (List.finRange n) = some i := by
  obtain ⟨m, rfl⟩ := Nat.exists_eq_add_of_le' hn
  rw [List.finRange_succ, List.finRange_succ]
  exact ⟨_, by simp [tableFreeIdx, hb]; rfl⟩

/-- The running partition with an empty table. -/
structure Vacant (s : Sys n) : Prop where
  db : ∀ i, (s.table.body.db i).uid = 0
  file : ∃ f, s.files (tableFid s.active) = some f
  scratch : s.scratch = other s.active
  le2 : s.nvc .c2 ≤ s.nvc .c1
  le3 : s.nvc .c3 ≤ s.nvc .c1

theorem Vacant.idx (h : Vacant s) {uid : Nat} (hu : uid ≠ 0) (c : Int) :
    getObjectEntryIdx s.table.body uid c = none :=
  getObjectEntryIdx_none.2 fun i hi => hu (hi.1.symm.trans (h.db i))

theorem Vacant.view (h : Vacant s) : s.view = fun _ _ => none := by
  funext uid c
  unfold Sys.view viewOf lookup
  split
  · rfl
  · next hu => rw [h.idx hu]

theorem viewOf_only {f : Nat → Option (File n)} {b : Body n} {uid : Nat} {c : Int} {i : Fin n}
    {o : ObjFile} (hu : uid ≠ 0) (hi : b.db i = ⟨some ⟨o.iv, objectFid i.val, o.obj⟩, uid, c⟩)
    (hothers : ∀ j, j ≠ i → (b.db j).uid = 0) (hf : f (objectFid i.val) = some (.object o)) :
    viewOf b f uid c = some o.obj := by
  have hidx : getObjectEntryIdx b uid c = some i := by
    cases hj : getObjectEntryIdx b uid c with
    | none => exact absurd (by rw [hi]; exact ⟨rfl, rfl⟩) (getObjectEntryIdx_none.1 hj i)
    | some j =>
      by_cases hji : j = i
      · rw [hji]
      · exact absurd ((getObjectEntryIdx_some hj).1.symm.trans (hothers j hji)) hu
  unfold viewOf lookup
  rw [if_neg hu, hidx]
  simp [hf, hi]

theorem Vacant.create (h : Vacant s) (hn : 2 ≤ n) (hl : Left cfg s) {uid : Nat} (hu : uid ≠ 0)
    (c : Int) (flags : UInt32) {data : List UInt8} (hd : data.length ≤ cfg.maxData) :
    wp Quiet (psObjectCreate cfg uid c flags data) s
      ⟨fun _ s' => s'.view uid c = some ⟨data.length, flags, data⟩, fun _ _ => False,
        fun _ => False⟩ := by
  have hF : ¬ Quiet .fail := fun h => by cases h
  have hnc : ∀ {P : Prop}, Cuts Quiet → P := fun h => absurd h not_cuts_quiet
  obtain ⟨i, hi⟩ := tableFreeIdx_two hn h.db
  obtain ⟨iv, hiv⟩ : ∃ iv, s.iv.next = some iv := Iv.next_of_lt (by have := hl.iv; omega)
  obtain ⟨iv', hiv'⟩ : ∃ iv', iv.next = some iv' := Iv.next_of_lt (by
    have := hl.iv
    have := Iv.next_some hiv
    omega)
  unfold psObjectCreate
  rw [if_neg (by omega)]
  refine wp_bind (wp_get ?_)
  dsimp only
  rw [h.idx hu]
  dsimp only
  refine wp_bind (getFreeFid_wp hF hi ?_ hnc)
  refine wp_bind (objectWrite_wp hF hiv ?_ hnc)
  refine wp_bind (wp_attempt (setInfo_wp (wp_mono (save_quiet hiv' h.le2 h.le3 hl.nvc) ?_
    (fun _ _ h => h.elim) fun _ h => h)))
  intro _ s' hs'
  change SavedAs (stored { s with files := Function.update s.files (objectFid i.val) none } uid c i
    iv ⟨data.length, flags, data⟩) s' iv' at hs'
  have hne : tableFid s.active ≠ tableFid s.scratch := fun he => by
    rw [h.scratch] at he
    exact other_ne _ (tableFid_inj he).symm
  obtain ⟨f, hf⟩ := h.file
  have hold : s'.files (tableFid s'.scratch) = some f := by
    rw [hs'.files, hs'.scratch]
    show Function.update (Function.update (Function.update s.files _ _) _ _) (tableFid s.scratch) _
      (tableFid s.active) = _
    rw [Function.update_of_ne hne, Function.update_of_ne (tableFid_ne_objectFid _ _),
      Function.update_of_ne (tableFid_ne_objectFid _ _), hf]
  dsimp only
  refine wp_bind (wp_get (wp_itsRemove_some hF hold ?_ hnc))
  have hdb : s'.table.body.db = Function.update s.table.body.db i
      ⟨some ⟨iv, objectFid i.val, ⟨data.length, flags, data⟩⟩, uid, c⟩ := by
    rw [hs'.db]
    show ((cleared s.table.body uid c).set i _).db = _
    unfold cleared
    rw [h.idx hu]
    rfl
  refine viewOf_only (i := i) (o := ⟨iv, ⟨data.length, flags, data⟩⟩) hu ?_ (fun j hj => ?_) ?_
  · show s'.table.body.db i = _
    rw [hdb, Function.update_self]
  · show (s'.table.body.db j).uid = 0
    rw [hdb, Function.update_of_ne hj]
    exact h.db j
  · show Function.update s'.files _ none (objectFid i.val) = _
    rw [Function.update_of_ne (tableFid_ne_objectFid _ _).symm, hs'.files,
      Function.update_of_ne (tableFid_ne_objectFid _ _).symm]
    exact Function.update_self ..

end Quiet

/-! ## A wipe -/

section Wipe

/-- The context that `ps_object_table_create` saves. -/
def created (s : Sys n) : Sys n :=
  { s with
    table := { Table.zero n with body := emptyBody n }
    active := 1
    scratch := 0 }

/-- The table of before is in one of the files, or tagged with an earlier value. -/
abbrev Counted (s : Sys n) : Prop := Bounded (fun _ => False) 0 s

theorem Counted.created (h : Counted s) : Counted (created s) :=
  h.files rfl fun _ ht => ht

/-- A wipe that succeeds writes an empty table 0, whatever is in the other file. -/
theorem wipe_wrote (h : Counted s) : wp AnyEv (psSystemWipeAll cfg) s
    ⟨fun _ s' => Wrote cfg (created s) s' ∧
        (cfg.rollback = true → s'.nvc .c2 = s'.nvc .c1 ∧ s'.nvc .c3 = s'.nvc .c1),
      fun _ _ => True, fun _ => True⟩ := by
  refine wp_bind (wp_modify ?_)
  exact wp_of_wpAt (i := 0) (save_at (s := created s) h.le2 h.le3 (fun _ _ _ _ => trivial)
    (fun _ _ => trivial) h.max (fun _ _ hw he => ⟨hw, he⟩) fun _ _ _ _ _ _ _ _ _ => trivial)

theorem Counted.reset (h : Counted s) : Counted s.reset := h.files rfl fun _ ht => ht

theorem init_counted (cfg : Cfg) (n : Nat) : Counted (init cfg n).sys := by
  have hblank : Counted (blank n) :=
    ⟨Nat.le_refl _, Nat.le_refl _, Nat.zero_le _, Nat.le_refl _, fun _ ⟨_, ht⟩ => nomatch ht⟩
  exact Counted.reset (wipe_bounded.state hblank [])

end Wipe

/-! ## Runs with wipes -/

section Runs

inductive WipeAct
  | op (o : Op) (p : List Ev)
  | boot (p : List Ev)
  | off
  | wipe (p : List Ev)

/-- The partition after a run, up or not. -/
def ended {α : Type} (onOk onErr : Bool) : Res PsaStatus (Sys n) α → Sys n × Bool
  | .ok _ s _ => (s, onOk)
  | .err _ s _ => (s, onErr)
  | .cut s => (s.reset, false)

/-- The partition serves, starts, and is wiped at any time. What a start that fails
leaves in RAM is there for the wipe and the start after it, as in `tfm_ps_init`. -/
def wipeStep (cfg : Cfg) (x : Sys n × Bool) : WipeAct → Option (Sys n × Bool)
  | .op o p => if x.2 then some (ended true true (o.run cfg x.1 p)) else none
  | .boot p => if x.2 then none else some (ended true false (psSystemPrepare cfg x.1 p))
  | .off => some (x.1.reset, false)
  | .wipe p => some (ended x.2 x.2 (psSystemWipeAll cfg x.1 p))

def wipeLts (cfg : Cfg) (n : Nat) : LTS (Sys n × Bool) WipeAct :=
  LTS.ofFn (· = ((init cfg n).sys, false)) (wipeStep cfg)

theorem ended_counted {α : Type} {b b' : Bool} {r : Res PsaStatus (Sys n) α}
    (h : Counted r.state) : Counted (ended b b' r).1 := by
  cases r with
  | ok _ _ _ => exact h
  | err _ _ _ => exact h
  | cut _ => exact h.reset

theorem counted_step {x x' : Sys n × Bool} {l : WipeAct} (h : Counted x.1)
    (hs : wipeStep cfg x l = some x') : Counted x'.1 := by
  cases l with
  | op o p =>
    unfold wipeStep at hs
    dsimp only at hs
    split at hs
    · cases hs
      exact ended_counted ((op_bounded cfg o).state h p)
    · cases hs
  | boot p =>
    unfold wipeStep at hs
    dsimp only at hs
    split at hs
    · cases hs
    · cases hs
      exact ended_counted (wp_state (prepare_bounded h) p)
  | off =>
    cases hs
    exact h.reset
  | wipe p =>
    cases hs
    exact ended_counted (wipe_bounded.state h p)

theorem counted_inductive (cfg : Cfg) (n : Nat) :
    (wipeLts cfg n).Inductive fun x => Counted x.1 where
  init := fun _ hx => hx ▸ init_counted cfg n
  step := fun _ _ _ h hs => counted_step h hs

end Runs

/-! ## What is left after a wipe -/

section Left

/-- No object is visible, and every object can be created, as long as there are IVs and
values of counter 1. -/
structure Wiped (cfg : Cfg) (s : Sys n) : Prop where
  hidden : ∀ uid c, s.view uid c = none
  creatable : ∀ uid c flags (data : List UInt8), uid ≠ 0 → data.length ≤ cfg.maxData →
    Left cfg s → ∃ s' q, psObjectCreate cfg uid c flags data s [] = .ok () s' q ∧
      s'.view uid c = some ⟨data.length, flags, data⟩

/-- After every wipe that succeeds and every start that succeeds after it, with RAM as
it is or lost: nothing is left. The events are those of `F`. -/
def WipeWorks (F : Ev → Prop) (cfg : Cfg) (s : Sys n) : Prop :=
  ∀ p s₁ q s₀ p' s₂ q', (∀ e ∈ p, F e) → (∀ e ∈ p', F e) →
    psSystemWipeAll cfg s p = .ok () s₁ q → s₀ = s₁ ∨ s₀ = s₁.reset →
    psSystemPrepare cfg s₀ p' = .ok () s₂ q' → Wiped cfg s₂

/-- A valid table 1 that a start can take instead of the new table 0, which has swap
count 1, and an entry of it that shows an object, or is in the way of one. -/
def Revives (F : Ev → Prop) (s : Sys n) : Prop :=
  ∃ t, tableAt s.files 1 = some t ∧ t.auth none = true ∧ t.body.version = objectSystemVersion ∧
    (F .fail ∨ 1 < t.body.swapCount) ∧ ∃ uid c, uid ≠ 0 ∧
      getObjectEntryIdx t.body uid c ≠ none ∧
      (viewOf t.body s.files uid c ≠ none ∨ t.iv.val + 2 < 2 ^ 96)

theorem Vacant.wiped (h : Vacant s) (hn : 2 ≤ n) : Wiped cfg s where
  hidden uid c := by rw [h.view]
  creatable uid c flags data hu hd hl := by
    obtain ⟨_, s', q, hrun, hv⟩ := wp_quiet (h.create hn hl hu c flags hd) (fun _ _ h => h)
      fun _ h => h
    exact ⟨s', q, hrun, hv⟩

theorem startedSys_vacant {a : Fin 2} {t : Table n} (ht : tableAt s.files a = some t)
    (h2 : s.nvc .c2 ≤ s.nvc .c1) (h3 : s.nvc .c3 ≤ s.nvc .c1) (hdb : ∀ i, (t.body.db i).uid = 0) :
    Vacant (startedSys cfg s a t) where
  db := hdb
  file := ⟨_, (Function.update_of_ne (fun he => other_ne a (tableFid_inj he).symm) _ _).trans
    (tableAt_some.1 ht)⟩
  scratch := rfl
  le2 := by
    unfold startedSys
    dsimp only
    split
    · exact Nat.le_refl _
    · exact h2
  le3 := by
    unfold startedSys
    dsimp only
    split
    · exact Nat.le_refl _
    · exact h3

/-- The files after a wipe. -/
structure Rewritten (cfg : Cfg) (s s₀ : Sys n) (t : Table n) : Prop where
  files : s₀.files = Function.update s.files (tableFid 0) (some (.table t))
  db : ∀ i, (t.body.db i).uid = 0
  version : t.body.version = objectSystemVersion
  le2 : s₀.nvc .c2 ≤ s₀.nvc .c1
  le3 : s₀.nvc .c3 ≤ s₀.nvc .c1
  max : s₀.nvc .c1 ≤ nvcMax
  plain : cfg.rollback = false → t.auth none = true ∧ t.body.swapCount = 1
  raised : cfg.rollback = true → s.nvc .c1 < s₀.nvc .c1 ∧ s.nvc .c1 < s₀.nvc .c3

theorem Rewritten.table1 {s₀ : Sys n} {t : Table n} (h : Rewritten cfg s s₀ t) :
    tableAt s₀.files 1 = tableAt s.files 1 := by
  unfold tableAt
  rw [h.files, Function.update_of_ne (by decide)]

theorem Rewritten.table0 {s₀ : Sys n} {t : Table n} (h : Rewritten cfg s s₀ t) :
    tableAt s₀.files 0 = some t := by
  rw [tableAt_some, h.files, Function.update_self]

theorem wipe_rewritten (h : Counted s) {p q : List Ev} {s₁ s₀ : Sys n}
    (hrun : psSystemWipeAll cfg s p = .ok () s₁ q) (h0 : s₀ = s₁ ∨ s₀ = s₁.reset) :
    ∃ t, Rewritten cfg s s₀ t := by
  have hw := (wipe_wrote h : wp _ (psSystemWipeAll cfg) _ _) p fun _ _ => trivial
  have hk : Counted (psSystemWipeAll cfg s p).state := wipe_bounded.state h p
  rw [hrun] at hw hk
  obtain ⟨⟨hw, heq⟩, -⟩ := hw
  have hk : Counted s₁ := hk
  have hr1 : Rewritten cfg s s₁ s₁.table := by
    refine ⟨hw.files, fun i => ?_, hw.version, hk.le2, hk.le3, hk.max, fun hr => ?_, fun hr => ?_⟩
    · rw [hw.db]
      rfl
    · obtain ⟨h1, h2, -⟩ := hw.plain hr
      exact ⟨h1, h2⟩
    · obtain ⟨-, -, h1⟩ := hw.tag hr
      have h1 : s₁.nvc .c1 = s.nvc .c1 + 1 := h1
      have := (heq hr).2
      omega
  refine ⟨s₁.table, ?_⟩
  rcases h0 with rfl | rfl
  · exact hr1
  · exact ⟨hr1.files, hr1.db, hr1.version, hr1.le2, hr1.le3, hr1.max, hr1.plain, hr1.raised⟩

theorem Rewritten.newest {s₀ : Sys n} {t u : Table n} {a : Fin 2} (h : Rewritten cfg s s₀ t)
    (hs : Counted s) (hr : cfg.rollback = true) (hch : Chosen cfg s₀ a u) : a = 0 := by
  by_contra ha
  have ha : a = 1 := by omega
  subst ha
  have hfile := hch.file
  rw [h.table1] at hfile
  have htag : ∀ v, u.auth (some v) = true → v ≤ s.nvc .c1 := fun v hv =>
    (hs.tags u ⟨1, tableAt_some.1 hfile⟩).resolve_left id v hv
  obtain ⟨h1, h3⟩ := h.raised hr
  rcases (hch.accepts hr).auth with hv | hv
  · have := htag _ hv
    omega
  · have := htag _ hv
    omega

/-- Without it, and without faults, the new table is selected over a table 1 with swap
count 0 or 1. -/
theorem Rewritten.accepted {s₀ : Sys n} {t u : Table n} (h : Rewritten cfg s s₀ t)
    (hr : cfg.rollback = false) (hu : tableAt s.files 1 = some u) (hauth : u.auth none = true)
    (hv : u.body.version = objectSystemVersion) :
    Ps.accepted cfg s₀.files s₀.nvc = some (if 1 < u.body.swapCount then 1 else 0) := by
  obtain ⟨hta, hts⟩ := h.plain hr
  have hstate : ∀ w : Table n, w.auth none = true → w.body.version = objectSystemVersion →
      tableState cfg s₀.nvc (some w) = .valid := by
    intro w hw hwv
    simp [tableState, hr, plainState, hw, validateVersion, hwv]
  unfold Ps.accepted
  rw [h.table0, h.table1, hu, hstate t hta h.version, hstate u hauth hv]
  unfold activeTable swapCountOf
  simp [hr, hts]
  split <;> rfl

theorem save_no_iv (h : s.iv.next = none) : wp AnyEv (psObjectTableSaveTable cfg) s
    ⟨fun _ _ => False, fun _ _ => True, fun _ => True⟩ := by
  have hstamp : Keeps (fun t : Sys n => t.iv = s.iv) (saveStamp cfg) := by
    have hext : ∀ {α : Type} {e : PsaStatus} {f : Sys n → Except PsaStatus α × Sys n},
        (∀ t, (f t).2.iv = t.iv) → Keeps (fun t : Sys n => t.iv = s.iv) (ext e f) := fun hf =>
      .call (fun t ht => (hf t).trans ht) fun _ _ ht => ht
    unfold saveStamp
    split
    · exact .bind (hext fun t => by split <;> rfl) fun _ => .bind (hext fun _ => rfl) fun _ => .pure _
    · exact .bind (.modify fun _ ht => ht) fun _ => .pure _
  refine wp_bind (wp_mono (hstamp AnyEv s rfl) ?_ (fun _ _ _ => trivial) fun _ _ => trivial)
  intro v s₁ hs₁
  refine wp_bind (wp_ask (f := fun _ => .ok ()) (fun _ _ => ?_) (fun _ => trivial) trivial)
  refine wp_bind (wp_attempt (wp_bind (wp_bind (wp_get ?_))))
  have hno : s₁.iv.next = none := by
    rw [hs₁]
    exact h
  dsimp only
  rw [hno]
  refine wp_throw ?_
  dsimp only
  exact wp_bind (wp_attempt (wp_ask (f := fun _ => .ok ()) (fun _ _ => wp_throw trivial)
    (fun _ => wp_throw trivial) trivial))

/-- An entry whose object is not visible is in the way of its client. -/
theorem create_hidden {uid : Nat} {c : Int} (hu : uid ≠ 0)
    (hidx : getObjectEntryIdx s.table.body uid c ≠ none) (hv : s.view uid c = none)
    {flags : UInt32} {data : List UInt8} {p q : List Ev} {s' : Sys n} :
    psObjectCreate cfg uid c flags data s p ≠ .ok () s' q := by
  intro hrun
  obtain ⟨i, hi⟩ := Option.ne_none_iff_exists'.mp hidx
  have hwp : wp AnyEv (psObjectCreate cfg uid c flags data) s
      ⟨fun _ _ => False, fun _ _ => True, fun _ => True⟩ := by
    unfold psObjectCreate
    split
    · exact wp_throw trivial
    · refine wp_bind (wp_get ?_)
      dsimp only
      rw [hi]
      refine wp_bind (wp_mono (decrypt_any _ _) ?_ (fun _ _ _ => trivial) fun _ _ => trivial)
      intro o s₁ h
      obtain ⟨file, hfile, htag, -⟩ := h
      unfold Sys.view viewOf lookup at hv
      rw [if_neg hu, hi] at hv
      simp [hfile, htag] at hv
  have hp := hwp p fun _ _ => trivial
  rw [hrun] at hp
  exact hp.1

/-- Entries that are in nobody's way: they show no object, and no IVs are left to
create one. -/
theorem startedSys_wiped {a : Fin 2} {t : Table n} (hn : 2 ≤ n) (ht : tableAt s.files a = some t)
    (h2 : s.nvc .c2 ≤ s.nvc .c1) (h3 : s.nvc .c3 ≤ s.nvc .c1)
    (hold : ∀ uid c, uid ≠ 0 → getObjectEntryIdx t.body uid c ≠ none →
      viewOf t.body s.files uid c = none ∧ ¬ t.iv.val + 2 < 2 ^ 96) :
    Wiped cfg (startedSys cfg s a t) := by
  by_cases hdb : ∀ i, (t.body.db i).uid = 0
  · exact (startedSys_vacant ht h2 h3 hdb).wiped hn
  obtain ⟨i, hi⟩ := not_forall.1 hdb
  have hidx : getObjectEntryIdx t.body (t.body.db i).uid (t.body.db i).clientId ≠ none :=
    fun h => getObjectEntryIdx_none.1 h i ⟨rfl, rfl⟩
  have hiv := (hold _ _ hi hidx).2
  refine ⟨fun uid c => ?_, fun _ _ _ _ _ _ hl => absurd hl.iv hiv⟩
  rw [startedSys_view]
  by_cases hu : uid = 0
  · simp [viewOf, hu]
  by_cases hnone : getObjectEntryIdx t.body uid c = none
  · simp [viewOf, lookup, hu, hnone]
  · exact (hold uid c hu hnone).1

theorem Rewritten.wiped {s₀ s₂ : Sys n} {t : Table n} {F : Ev → Prop} {p q : List Ev}
    (h : Rewritten cfg s s₀ t) (hs : Counted s) (hn : 2 ≤ n)
    (hok : cfg.rollback = true ∨ ¬ Revives F s) (hp : ∀ e ∈ p, F e)
    (hrun : psSystemPrepare cfg s₀ p = .ok () s₂ q) : Wiped cfg s₂ := by
  have hch := (prepare_chosen h.le2 h.le3 h.max : wp _ (psSystemPrepare cfg) s₀ _) p
    fun _ _ => trivial
  rw [hrun] at hch
  obtain ⟨⟨a, u, hch, rfl⟩, -⟩ := hch
  by_cases ha : a = 0
  · subst ha
    obtain rfl : u = t := Option.some.inj (hch.file.symm.trans h.table0)
    exact (startedSys_vacant hch.file h.le2 h.le3 h.db).wiped hn
  have hr : cfg.rollback = false := by
    cases hr : cfg.rollback with
    | false => rfl
    | true => exact absurd (h.newest hs hr hch) ha
  have hno : ¬ Revives F s := hok.resolve_left (by simp [hr])
  obtain rfl : a = 1 := by omega
  have hfile : tableAt s.files 1 = some u := h.table1.symm.trans hch.file
  have hauth : u.auth none = true := by
    have := hch.trusted
    unfold Trusted at this
    simpa [hr] using this
  by_cases hsel : F .fail ∨ 1 < u.body.swapCount
  · refine startedSys_wiped hn hch.file h.le2 h.le3 fun uid c hu hidx => ?_
    have hview : viewOf u.body s₀.files = viewOf u.body s.files := by
      rw [h.files]
      exact viewOf_congr (sameObjs_table _ _ _ _)
    rw [hview]
    by_contra hcon
    refine hno ⟨u, hfile, hauth, hch.version, hsel, uid, c, hu, hidx, ?_⟩
    by_cases hv : viewOf u.body s.files uid c = none
    · exact .inr (by_contra fun hiv => hcon ⟨hv, hiv⟩)
    · exact .inl hv
  · have hF : ¬ F .fail := fun hF => hsel (.inl hF)
    have hacc := h.accepted hr hfile hauth hch.version
    rw [if_neg fun hs => hsel (.inr hs)] at hacc
    have hstart := prepare_accepted hF hr hacc h.table0 p hp
    rw [hrun] at hstart
    rw [hstart.1]
    exact (startedSys_vacant h.table0 h.le2 h.le3 h.db).wiped hn

theorem wipe_quiet {iv : Iv} (hiv : s.iv.next = some iv) (h : Counted s)
    (hr : cfg.rollback = false) : ∃ s₁ q, psSystemWipeAll cfg s [] = .ok () s₁ q := by
  have hc : ∀ {P : Prop}, cfg.rollback = true → P := fun hr' => by rw [hr] at hr'; cases hr'
  have hwp : wp Quiet (psSystemWipeAll cfg) s ⟨fun _ _ => True, fun _ _ => False, fun _ => False⟩ :=
    wp_bind (wp_modify (wp_mono (save_quiet (s := created s) hiv h.le2 h.le3 hc)
      (fun _ _ _ => trivial) (fun _ _ h => h) fun _ h => h))
  obtain ⟨_, s₁, q, hrun, -⟩ := wp_quiet hwp (fun _ _ h => h) fun _ h => h
  exact ⟨s₁, q, hrun⟩

/-- The start that revives table 1. -/
theorem Rewritten.revives {s₀ : Sys n} {t u : Table n} {F : Ev → Prop} (h : Rewritten cfg s s₀ t)
    (hr : cfg.rollback = false) (hu : tableAt s.files 1 = some u) (hauth : u.auth none = true)
    (hv : u.body.version = objectSystemVersion) (hsel : F .fail ∨ 1 < u.body.swapCount) :
    ∃ p q, (∀ e ∈ p, F e) ∧ psSystemPrepare cfg s₀ p = .ok () (startedSys cfg s₀ 1 u) q := by
  have hfile : tableAt s₀.files 1 = some u := h.table1.trans hu
  rcases hsel with hF | hswap
  · obtain ⟨q, hq⟩ := prepare_unread hr hfile hauth hv
    exact ⟨[.fail], q, fun e he => by rw [List.mem_singleton.1 he]; exact hF, hq⟩
  · have hacc := h.accepted hr hu hauth hv
    rw [if_pos hswap] at hacc
    obtain ⟨_, _, q, hq, rfl⟩ := wp_quiet (prepare_accepted (fun h => by cases h) hr hacc hfile)
      (fun _ _ h => h) fun _ h => not_cuts_quiet h.1
    exact ⟨[], q, fun e he => absurd he List.not_mem_nil, hq⟩

end Left

/-- **What a wipe leaves**: in every state that the partition can reach, whatever calls
failed or were cut, a wipe and a start that succeed leave no object and let every object
be created, if and only if the build has rollback protection, or there is no IV for the
wipe, or table 1 is not one that can win over the new table 0. -/
theorem wipe_wipes (cfg : Cfg) (F : Ev → Prop) (n : Nat) (hn : 2 ≤ n) (x : Sys n × Bool)
    (h : (wipeLts cfg n).Reachable x) :
    WipeWorks F cfg x.1 ↔
      cfg.rollback = true ∨ x.1.iv.next = none ∨ ¬ Revives F x.1 := by
  have hc : Counted x.1 := (counted_inductive cfg n).reachable x h
  refine ⟨fun hw => ?_, fun hok p s₁ q s₀ p' s₂ q' _ hp' hrun h0 hboot => ?_⟩
  · by_contra hcon
    obtain ⟨hr, hiv, hrev⟩ : cfg.rollback = false ∧ x.1.iv.next ≠ none ∧ Revives F x.1 := by
      simpa only [not_or, not_not, Bool.not_eq_true] using hcon
    obtain ⟨iv, hiv⟩ := Option.ne_none_iff_exists'.mp hiv
    obtain ⟨u, hu, hauth, hv, hsel, uid, c, huid, hidx, hvis⟩ := hrev
    obtain ⟨s₁, q, hrun⟩ := wipe_quiet hiv hc hr
    obtain ⟨t, ht⟩ := wipe_rewritten hc hrun (.inl rfl)
    obtain ⟨p', q', hp', hboot⟩ := ht.revives hr hu hauth hv hsel
    have hwiped := hw [] s₁ q s₁ p' _ q' (fun e he => by cases he) hp' hrun (.inl rfl) hboot
    have hview : (startedSys cfg s₁ 1 u).view = viewOf u.body x.1.files := by
      rw [startedSys_view, ht.files]
      exact viewOf_congr (sameObjs_table _ _ _ _)
    rcases hvis with hvis | hleft
    · exact hvis (by rw [← hview]; exact hwiped.hidden uid c)
    · obtain ⟨s', q'', hcreate, -⟩ := hwiped.creatable uid c 0 [] huid (Nat.zero_le _)
        ⟨hleft, fun hr' => by rw [hr] at hr'; cases hr'⟩
      exact create_hidden huid hidx (hwiped.hidden uid c) hcreate
  · obtain ⟨t, ht⟩ := wipe_rewritten hc hrun h0
    refine ht.wiped hc hn ?_ hp' hboot
    rcases hok with hr | hiv | hno
    · exact .inl hr
    · -- the wipe cannot have succeeded
      have hfail : wp AnyEv (psSystemWipeAll cfg) x.1
          ⟨fun _ _ => False, fun _ _ => True, fun _ => True⟩ :=
        wp_bind (wp_modify (save_no_iv (s := created x.1) hiv))
      have hfail := hfail p fun _ _ => trivial
      rw [hrun] at hfail
      exact hfail.1.elim
    · exact .inr hno

/-- Two objects, of which one was deleted; and two objects, without rollback protection. -/
theorem wipe_wipes_with_objects :
    (∃ x, (wipeLts ⟨16, true, true⟩ 3).Reachable x ∧ x.1.view 5 1 = some ⟨2, 0, [1, 2]⟩ ∧
      x.1.view 6 1 = none ∧ WipeWorks AnyEv ⟨16, true, true⟩ x.1) ∧
    ∃ x, (wipeLts ⟨16, false, true⟩ 3).Reachable x ∧ x.1.view 5 1 = some ⟨2, 0, [1, 2]⟩ ∧
      x.1.view 6 1 = some ⟨1, 1, [3]⟩ ∧ WipeWorks AnyEv ⟨16, false, true⟩ x.1 := by
  constructor
  · have he : (LTS.exec (wipeStep ⟨16, true, true⟩) ((init ⟨16, true, true⟩ 3).sys, false)
        [.boot [], .op (.create 5 1 0 [1, 2]) [], .op (.create 6 1 0 [3]) [],
          .op (.delete 6 1) []]).map (fun x => (x.1.view 5 1, x.1.view 6 1)) =
          some (some ⟨2, 0, [1, 2]⟩, none) := by decide +kernel
    obtain ⟨x, hx, hv⟩ := Option.map_eq_some_iff.1 he
    simp only [Prod.mk.injEq] at hv
    have hreach : (wipeLts ⟨16, true, true⟩ 3).Reachable x := LTS.reachable_exec _ (.init rfl) hx
    exact ⟨x, hreach, hv.1, hv.2,
      (wipe_wipes ⟨16, true, true⟩ AnyEv 3 (by decide) x hreach).mpr (.inl rfl)⟩
  · have he : (LTS.exec (wipeStep ⟨16, false, true⟩) ((init ⟨16, false, true⟩ 3).sys, false)
        [.boot [], .op (.create 5 1 0 [1, 2]) [], .op (.create 6 1 1 [3]) []]).map
          (fun x => (x.1.view 5 1, x.1.view 6 1, (tableAt x.1.files 1).isSome)) =
          some (some ⟨2, 0, [1, 2]⟩, some ⟨1, 1, [3]⟩, false) := by decide +kernel
    obtain ⟨x, hx, hv⟩ := Option.map_eq_some_iff.1 he
    simp only [Prod.mk.injEq] at hv
    obtain ⟨h5, h6, hnone⟩ := hv
    have hreach : (wipeLts ⟨16, false, true⟩ 3).Reachable x := LTS.reachable_exec _ (.init rfl) hx
    -- the second create wrote table 0 and removed table 1
    have hno : ¬ Revives AnyEv x.1 := by
      intro h
      obtain ⟨t, ht, -⟩ := h
      rw [ht] at hnone
      cases hnone
    exact ⟨x, hreach, h5, h6,
      (wipe_wipes ⟨16, false, true⟩ AnyEv 3 (by decide) x hreach).mpr (.inr (.inr hno))⟩

/-- What is seen of an object after a wipe and a start. -/
def viewAfterWipe {n : Nat} (cfg : Cfg) (s : Sys n) (uid : Nat) (c : Int) : Option Obj :=
  match psSystemWipeAll cfg s [] with
  | .ok _ s₁ _ =>
    match psSystemPrepare cfg s₁ [] with
    | .ok _ s₂ _ => s₂.view uid c
    | _ => none
  | _ => none

/-- The object that is there before the wipe is there after it: its table has swap
count 2, and the table of the wipe has swap count 1. -/
theorem object_survives_wipe :
    ¬ ∀ (cfg : Cfg) (n : Nat) (x : Sys n × Bool), 2 ≤ n → (wipeLts cfg n).Reachable x →
      WipeWorks Quiet cfg x.1 := by
  intro h
  have he : (LTS.exec (wipeStep ⟨16, false, true⟩) ((init ⟨16, false, true⟩ 3).sys, false)
      [.boot [], .op (.create 5 1 0 [1, 2]) []]).map
        (fun x => viewAfterWipe ⟨16, false, true⟩ x.1 5 1) =
        some (some ⟨2, 0, [1, 2]⟩) := by decide +kernel
  obtain ⟨x, hx, hv⟩ := Option.map_eq_some_iff.1 he
  have hreach : (wipeLts ⟨16, false, true⟩ 3).Reachable x := LTS.reachable_exec _ (.init rfl) hx
  revert hv
  unfold viewAfterWipe
  cases hrun : psSystemWipeAll ⟨16, false, true⟩ x.1 [] with
  | ok _ s₁ q =>
    dsimp only
    cases hboot : psSystemPrepare ⟨16, false, true⟩ s₁ [] with
    | ok _ s₂ q' =>
      intro hv
      dsimp only at hv
      have hw := (h ⟨16, false, true⟩ 3 x (by decide) hreach [] s₁ q s₁ [] s₂ q'
        (fun e he => by cases he) (fun e he => by cases he) hrun (.inl rfl) hboot).hidden 5 1
      rw [hw] at hv
      cases hv
    | err _ _ _ => intro hv; cases hv
    | cut _ => intro hv; cases hv
  | err _ _ _ => intro hv; cases hv
  | cut _ => intro hv; cases hv

end Tfm.L4.Ps
