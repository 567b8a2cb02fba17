import Tfm.L4Service.PsStore

/-!
# Protected Storage: rollback protection

An attacker who can replace the files of Protected Storage by any images that were
stored earlier, at any time. The tag of a table cannot be forged, and it binds the
value of counter 1 at the save. All three counters are at least one above that
value of every earlier table once an operation has returned success, so no start
accepts one of these tables again. An object is read only if its tag is the one in
the table.

Results:
* `op_raises`: the counters after an operation that succeeded.
* `prepare_accepts`: the tables a start can accept, whatever fails.
* `tfmPsInit_tagged`: the same when it creates the flash layout.
* `no_rollback`: no run accepts a table from before an operation that succeeded,
  and reads return what the table records.
-/
namespace Tfm.L4.Ps
open Tfm.Crash

variable {n : Nat} {cfg : Cfg} {F : Ev → Prop} {s : Sys n}

/-! ## Counter 1 never goes down -/

/-- The value of counter 1 on the way to the end of a run. -/
def NvcLe (s s' : Sys n) : Prop := s.nvc .c1 ≤ s'.nvc .c1

theorem NvcLe.refl (s : Sys n) : NvcLe s s := Nat.le_refl _

theorem NvcLe.trans (a b c : Sys n) : NvcLe a b → NvcLe b c → NvcLe a c := Nat.le_trans

section Steady

variable {α β : Type}

theorem ext_steady {e : PsaStatus} {f : Sys n → Except PsaStatus α × Sys n}
    (hf : ∀ s, (f s).2.nvc = s.nvc) : Steady NvcLe (ext e f) :=
  .call NvcLe.refl fun s => Nat.le_of_eq (congrFun (hf s) .c1).symm

theorem itsSet_steady (fid : Nat) (file : File n) : Steady NvcLe (itsSet fid file) := by
  show Steady NvcLe (psaItsSet fid file)
  exact ext_steady fun _ => rfl

theorem modify_steady {f : Sys n → Sys n} (hf : ∀ s, (f s).nvc = s.nvc) :
    Steady NvcLe (modify f : M n Unit) :=
  .modify fun s => Nat.le_of_eq (congrFun (hf s) .c1).symm

theorem bind_steady {m : M n β} {f : β → M n α} (hm : Steady NvcLe m)
    (hf : ∀ b, Steady NvcLe (f b)) : Steady NvcLe (m >>= f) :=
  .bind NvcLe.trans hm hf

theorem throw_steady (e : PsaStatus) : Steady NvcLe (throw e : M n α) := .throw NvcLe.refl e

theorem pure_steady (a : α) : Steady NvcLe (pure a : M n α) := .pure NvcLe.refl a

theorem inc_steady (c : Nvc) : Steady NvcLe (psIncrementNvCounter (n := n) c) := by
  refine .call NvcLe.refl fun s => ?_
  split
  · exact NvcLe.refl s
  · show s.nvc .c1 ≤ Function.update s.nvc c (s.nvc c + 1) .c1
    by_cases hc : c = .c1
    · subst hc
      rw [Function.update_self]
      omega
    · rw [Function.update_of_ne (Ne.symm hc)]

theorem increments_steady (c : Nvc) : ∀ k, Steady NvcLe (incrementNvCounter (n := n) c k) := by
  intro k
  induction k with
  | zero => exact pure_steady ()
  | succ k ih => exact bind_steady (inc_steady c) fun _ => ih

theorem align_steady (v : Nat) : Steady NvcLe (psObjectTableAlignNvCounters (n := n) v) := by
  have hread : ∀ c, Steady NvcLe (psReadNvCounter (n := n) c) := fun c => ext_steady fun _ => rfl
  exact bind_steady (bind_steady (hread .c2) fun x => increments_steady .c2 (v - x)) fun _ =>
    bind_steady (hread .c3) fun x => increments_steady .c3 (v - x)

theorem getIv_steady : Steady NvcLe (psCryptoGetIv (n := n)) := by
  refine bind_steady (.get NvcLe.refl) fun s => ?_
  split
  · exact throw_steady _
  · exact bind_steady (modify_steady fun _ => rfl) fun _ => pure_steady _

theorem setkey_steady : Steady NvcLe (psCryptoSetkey (n := n)) := ext_steady fun _ => rfl

theorem destroykey_steady : Steady NvcLe (psCryptoDestroykey (n := n)) := ext_steady fun _ => rfl

theorem objectWrite_steady (fid : Nat) (obj : Obj) :
    Steady NvcLe (psEncryptedObjectWrite (n := n) fid obj) := by
  refine bind_steady setkey_steady fun _ => bind_steady getIv_steady fun iv =>
    bind_steady (.attempt (ext_steady fun _ => rfl)) fun r => ?_
  cases r with
  | error e => exact bind_steady (.attempt destroykey_steady) fun _ => throw_steady _
  | ok tag =>
    exact bind_steady destroykey_steady fun _ => bind_steady (itsSet_steady _ _) fun _ =>
      pure_steady _

theorem saveTable_steady (cfg : Cfg) : Steady NvcLe (psObjectTableSaveTable (n := n) cfg) := by
  have hget : Steady NvcLe (get : M n (Sys n)) := .get NvcLe.refl
  have htag : ∀ nvc, Steady NvcLe (psObjectTableGenerateAuthTag (n := n) nvc) := fun nvc =>
    bind_steady getIv_steady fun iv => bind_steady (modify_steady fun _ => rfl) fun _ =>
      bind_steady hget fun _ => bind_steady (ext_steady fun _ => rfl) fun _ =>
        modify_steady fun _ => rfl
  refine bind_steady ?_ fun nvc => bind_steady setkey_steady fun _ =>
    bind_steady (htag nvc).attempt fun r => ?_
  · unfold saveStamp
    split
    · exact bind_steady (inc_steady .c1) fun _ => bind_steady (ext_steady fun _ => rfl) fun _ =>
        pure_steady _
    · exact bind_steady (modify_steady fun _ => rfl) fun _ => pure_steady _
  · cases r with
    | error e => exact bind_steady (.attempt destroykey_steady) fun _ => throw_steady e
    | ok _ =>
      refine bind_steady destroykey_steady fun _ => bind_steady ?_ fun _ => ?_
      · exact bind_steady hget fun _ => bind_steady (itsSet_steady _ _) fun _ =>
          modify_steady fun _ => rfl
      · cases nvc with
        | some v => exact align_steady v
        | none => exact pure_steady ()

theorem op_steady (cfg : Cfg) (o : Op) : Steady NvcLe (o.run (n := n) cfg) := by
  have hmade : Made (Basic cfg) _ (o.run (n := n) cfg) := op_made o
  refine hmade.steady NvcLe.refl NvcLe.trans fun {α m} h => ?_
  cases h with
  | itsGet fid => exact ext_steady fun s => by split <;> rfl
  | itsRemove fid => exact ext_steady fun s => by split <;> rfl
  | setkey => exact setkey_steady
  | destroykey => exact destroykey_steady
  | decrypt fid tag file => exact ext_steady fun s => by split <;> rfl
  | setBody b => exact modify_steady fun _ => rfl
  | objectWrite fid obj => exact objectWrite_steady fid obj
  | save => exact saveTable_steady cfg

theorem authenticate_steady (t : Table n) (v : Option Nat) :
    Steady NvcLe (attempt (psCryptoAuthenticate t v)) :=
  .attempt (ext_steady fun s => by split <;> rfl)

theorem tableAuthenticate_steady (t : Option (Table n)) (nvc1 nvc3 : Nat) :
    Steady NvcLe (psObjectTableAuthenticate t nvc1 nvc3) := by
  unfold psObjectTableAuthenticate
  split
  · exact pure_steady _
  refine bind_steady (authenticate_steady _ _) fun r => ?_
  split
  · exact pure_steady _
  split
  · exact pure_steady _
  refine bind_steady (authenticate_steady _ _) fun r => ?_
  split <;> exact pure_steady _

theorem ctxTable_steady (t : Option (Table n)) :
    Steady NvcLe (psObjectTableAuthenticateCtxTable t) := by
  unfold psObjectTableAuthenticateCtxTable
  split
  · exact pure_steady _
  refine bind_steady (authenticate_steady _ _) fun r => ?_
  split <;> exact pure_steady _

theorem authenticateTables_steady (cfg : Cfg) (t0 t1 : Option (Table n)) :
    Steady NvcLe (authenticateTables cfg t0 t1) := by
  have hread : ∀ c, Steady NvcLe (psReadNvCounter (n := n) c) := fun c => ext_steady fun _ => rfl
  unfold authenticateTables
  split
  · refine bind_steady (.attempt ?_) fun r => ?_
    · exact bind_steady (hread .c1) fun _ => bind_steady (hread .c2) fun _ =>
        bind_steady (hread .c3) fun _ => bind_steady (tableAuthenticate_steady _ _ _) fun _ =>
          bind_steady (tableAuthenticate_steady _ _ _) fun _ => pure_steady _
    · split
      · exact pure_steady _
      · exact bind_steady (.attempt destroykey_steady) fun _ => throw_steady _
  · exact bind_steady (ctxTable_steady _) fun _ => bind_steady (ctxTable_steady _) fun _ =>
      pure_steady _

theorem select_steady (cfg : Cfg) : Steady NvcLe (psObjectTableSelect (n := n) cfg) := by
  have hread : ∀ a, Steady NvcLe (psObjectTableFsReadTable (n := n) a) := fun a =>
    bind_steady (.attempt (ext_steady fun s => by split <;> rfl)) fun r => by
      split <;> exact pure_steady _
  refine bind_steady (hread 0) fun _ => bind_steady (modify_steady fun _ => rfl) fun _ =>
    bind_steady (hread 1) fun _ => bind_steady setkey_steady fun _ =>
      bind_steady (authenticateTables_steady cfg _ _) fun _ =>
        bind_steady destroykey_steady fun _ => bind_steady ?_ fun _ => pure_steady _
  unfold psSetActiveObjectTable
  split
  · exact throw_steady _
  · exact modify_steady fun _ => rfl
  · exact modify_steady fun _ => rfl

theorem prepare_steady (cfg : Cfg) : Steady NvcLe (psSystemPrepare (n := n) cfg) := by
  have hiv : Steady NvcLe (modify fun s : Sys n => { s with iv := s.table.iv } : M n Unit) :=
    modify_steady fun _ => rfl
  have hend : ∀ nvc1, Steady NvcLe (initEnd (n := n) nvc1) := fun nvc1 => by
    cases nvc1 with
    | none => exact hiv
    | some v => exact bind_steady (align_steady v) fun _ => hiv
  refine bind_steady (select_steady cfg) fun nvc1 => bind_steady (.get NvcLe.refl) fun s =>
    bind_steady (.attempt (ext_steady fun s => by split <;> rfl)) fun r => ?_
  dsimp only
  split
  · exact hend nvc1
  · exact hend nvc1
  · exact throw_steady _

theorem tfmPsInit_steady (cfg : Cfg) : Steady NvcLe (tfmPsInit (n := n) cfg) := by
  refine bind_steady (prepare_steady cfg).attempt fun r => ?_
  cases r with
  | ok _ => exact pure_steady ()
  | error e =>
    show Steady NvcLe (createFlashLayout (n := n) cfg e)
    unfold createFlashLayout
    split
    · exact bind_steady (bind_steady (modify_steady fun _ => rfl) fun _ => saveTable_steady cfg)
        fun _ => prepare_steady cfg
    · exact throw_steady e

end Steady

/-! ## Tags -/

/-- A table file. -/
def Image (files : Nat → Option (File n)) (t : Table n) : Prop :=
  ∃ a, files (tableFid a) = some (.table t)

theorem Image.remove {files : Nat → Option (File n)} {t : Table n} {fid : Nat}
    (h : Image (Function.update files fid none) t) : Image files t := by
  obtain ⟨a, ha⟩ := h
  by_cases hf : tableFid a = fid
  · rw [hf, Function.update_self] at ha
    cases ha
  · rw [Function.update_of_ne hf] at ha
    exact ⟨a, ha⟩

/-- During an operation: a table in a file is one of `S` or is tagged with a value
that counter 1 had. -/
structure Bounded (S : Table n → Prop) (b3 : Nat) (s : Sys n) : Prop where
  le2 : s.nvc .c2 ≤ s.nvc .c1
  le3 : s.nvc .c3 ≤ s.nvc .c1
  max : s.nvc .c1 ≤ nvcMax
  base : b3 ≤ s.nvc .c3
  tags : ∀ t, Image s.files t → S t ∨ ∀ v, t.auth (some v) = true → v ≤ s.nvc .c1

section Bounded

variable {S : Table n → Prop} {b3 : Nat}

theorem Bounded.files {s' : Sys n} (h : Bounded S b3 s) (hn : s'.nvc = s.nvc)
    (hf : ∀ t, Image s'.files t → Image s.files t) : Bounded S b3 s' := by
  refine ⟨?_, ?_, ?_, ?_, fun t ht => ?_⟩ <;> rw [hn]
  · exact h.le2
  · exact h.le3
  · exact h.max
  · exact h.base
  · exact h.tags t (hf t ht)

theorem Bounded.before {s' : Sys n} (h : Bounded S b3 s) (hb : Before s s') : Bounded S b3 s' := by
  have h2 := h.le2
  have h3 := h.le3
  have hb3 := h.base
  rcases hb.nvc with hn | ⟨hlt, hn⟩
  · exact h.files hn (by rw [hb.files]; exact fun _ ht => ht)
  · have hc1 : s'.nvc .c1 = s.nvc .c1 + 1 := by simp [hn, setNvc]
    have hc2 : s'.nvc .c2 = s.nvc .c2 := by simp [hn, setNvc]
    have hc3 : s'.nvc .c3 = s.nvc .c3 := by simp [hn, setNvc]
    refine ⟨by omega, by omega, by omega, by omega, fun t ht => ?_⟩
    rw [hb.files] at ht
    refine (h.tags t ht).imp (fun h => h) fun h v hv => ?_
    have := h v hv
    omega

theorem Bounded.wrote {s' : Sys n} (h : Bounded S b3 s) (hw : Wrote cfg s s') :
    Bounded S b3 s' := by
  have hnvc : s.nvc .c1 ≤ s'.nvc .c1 ∧ s'.nvc .c1 ≤ nvcMax ∧
      ∀ v, s'.table.auth (some v) = true → v ≤ s'.nvc .c1 := by
    have hmax := h.max
    cases hr : cfg.rollback with
    | true =>
      obtain ⟨hauth, hlt, hc1⟩ := hw.tag hr
      refine ⟨by omega, by omega, fun v hv => ?_⟩
      have := Option.some.inj (auth_inj hv hauth)
      omega
    | false =>
      obtain ⟨hauth, -, hn⟩ := hw.plain hr
      rw [hn]
      exact ⟨Nat.le_refl _, hmax, fun v hv => nomatch auth_inj hv hauth⟩
  have hle2 := hw.le2
  have hle3 := hw.le3
  have hb3 := h.base
  refine ⟨hle2.2, hle3.2, hnvc.2.1, by omega, fun t ht => ?_⟩
  obtain ⟨a, ha⟩ := ht
  rw [hw.files] at ha
  by_cases hf : tableFid a = tableFid s.scratch
  · rw [hf, Function.update_self] at ha
    cases ha
    exact .inr hnvc.2.2
  · rw [Function.update_of_ne hf] at ha
    refine (h.tags t ⟨a, ha⟩).imp (fun h => h) fun h v hv => ?_
    have := h v hv
    omega

theorem save_bounded : Keeps (Bounded S b3) (psObjectTableSaveTable (n := n) cfg) := by
  intro F s h
  refine wp_of_wpAt (i := 0) (save_at h.le2 h.le3 (fun _ _ _ hb => h.before hb) ?_ h.max
    (fun _ _ hw _ => h.wrote hw) fun _ _ _ _ hw _ _ _ _ => h.wrote hw)
  intro s' hx
  obtain hb | hw := hx
  · exact h.before hb
  · exact h.wrote hw

theorem op_bounded (cfg : Cfg) (o : Op) : Keeps (Bounded S b3) (o.run (n := n) cfg) := by
  have hmade : Made (Basic cfg) _ (o.run (n := n) cfg) := op_made o
  have hext : ∀ {α : Type} {e : PsaStatus} {f : Sys n → Except PsaStatus α × Sys n},
      (∀ s, (f s).2.nvc = s.nvc) → (∀ s t, Image (f s).2.files t → Image s.files t) →
        Keeps (Bounded S b3) (ext e f) :=
    fun hn hf => .call (fun s h => h.files (hn s) (hf s)) fun _ _ h => h
  have hsame : ∀ {α : Type} {e : PsaStatus} {f : Sys n → Except PsaStatus α × Sys n},
      (∀ s, (f s).2 = s) → Keeps (Bounded S b3) (ext e f) :=
    fun hf => hext (fun s => by rw [hf s]) fun s t ht => by rwa [hf s] at ht
  have hram : ∀ {f : Sys n → Sys n}, (∀ s, (f s).nvc = s.nvc) → (∀ s, (f s).files = s.files) →
      Keeps (Bounded S b3) (modify f : M n Unit) := fun hn hf =>
    .modify fun s h => h.files (hn s) fun t ht => by rwa [hf s] at ht
  refine hmade.keeps fun {α m} h => ?_
  cases h with
  | itsGet fid => exact hsame fun s => by split <;> rfl
  | itsRemove fid =>
    refine hext (fun s => by split <;> rfl) fun s t ht => ?_
    split at ht
    · exact ht.remove
    · exact ht
  | setkey => exact hsame fun _ => rfl
  | destroykey => exact hsame fun _ => rfl
  | decrypt fid tag file => exact hsame fun s => by split <;> rfl
  | setBody b => exact hram (fun _ => rfl) fun _ => rfl
  | objectWrite fid obj =>
    refine .bind (hsame fun _ => rfl) fun _ => .bind ?_ fun iv =>
      .bind (.attempt (hext (fun _ => rfl) fun _ _ ht => ht)) fun r => ?_
    · refine .get fun s => ?_
      split
      · exact .throw _
      · exact .bind (hram (fun _ => rfl) fun _ => rfl) fun _ => .pure _
    · cases r with
      | error e => exact .bind (.attempt (hsame fun _ => rfl)) fun _ => .throw _
      | ok tag =>
        refine .bind (hsame fun _ => rfl) fun _ => .bind ?_ fun _ => .pure _
        show Keeps (Bounded S b3) (psaItsSet fid _)
        refine hext (fun _ => rfl) ?_
        intro s t hx
        obtain ⟨a, ha⟩ := hx
        by_cases hf : tableFid a = fid
        · simp only [hf, Function.update_self] at ha
          cases ha
        · simp only [Function.update_of_ne hf] at ha
          exact ⟨a, ha⟩
  | save => exact save_bounded

end Bounded

/-! ## Success raises the counters -/

/-- The counters after a save. -/
def Raised (nvc nvc' : Nvc → Nat) : Prop :=
  nvc' .c1 = nvc .c1 + 1 ∧ nvc' .c2 = nvc' .c1 ∧ nvc' .c3 = nvc' .c1

/-- Whenever `m` succeeds, the counters were raised. -/
def Raises (x : Nvc → Nat) (m : M n Unit) : Prop :=
  ∀ s : Sys n, s.nvc = x →
    wp AnyEv m s ⟨fun _ s' => Raised x s'.nvc, fun _ _ => True, fun _ => True⟩

/-- `m` does not succeed. -/
def Fails (m : M n Unit) : Prop :=
  ∀ s : Sys n, wp AnyEv m s ⟨fun _ _ => False, fun _ _ => True, fun _ => True⟩

/-- The counters are left. -/
def Still {α : Type} (m : M n α) : Prop := ∀ x, Keeps (fun s : Sys n => s.nvc = x) m

section Raises

variable {x : Nvc → Nat} {α : Type}

theorem Fails.throw (e : PsaStatus) : Fails (throw e : M n Unit) := fun _ => wp_throw trivial

theorem Fails.bind {m : M n α} {f : α → M n Unit} (hf : ∀ a, Fails (f a)) : Fails (m >>= f) := by
  intro s
  refine wp_bind fun p _ => ?_
  cases m s p with
  | ok a s' q => exact ⟨hf a s', fun _ _ => trivial⟩
  | err e s' q => exact ⟨trivial, fun _ _ => trivial⟩
  | cut s' => trivial

theorem Fails.raises {m : M n Unit} (h : Fails m) : Raises x m := fun s _ =>
  wp_mono (h s) (fun _ _ h => h.elim) (fun _ _ h => h) fun _ h => h

theorem Raises.get {f : Sys n → M n Unit} (hf : ∀ s, Raises x (f s)) : Raises x (get >>= f) :=
  fun s hs => wp_bind (wp_get (hf s s hs))

theorem Still.raised {m : M n Unit} (hm : Still m) {s' : Sys n} (hs : Raised x s'.nvc) :
    wp AnyEv m s' ⟨fun _ s'' => Raised x s''.nvc, fun _ _ => True, fun _ => True⟩ := by
  refine wp_mono (hm s'.nvc AnyEv s' rfl) ?_ (fun _ _ _ => trivial) fun _ _ => trivial
  intro _ s'' hs''
  have hs'' : s''.nvc = s'.nvc := hs''
  show Raised x s''.nvc
  rw [hs'']
  exact hs

/-- Before the save. -/
theorem Raises.after {m : M n α} {f : α → M n Unit} (hm : Still m) (hf : ∀ a, Raises x (f a)) :
    Raises x (m >>= f) := fun s hs =>
  wp_bind (wp_mono (hm x AnyEv s hs) (fun a s' hs' => hf a s' hs') (fun _ _ _ => trivial)
    fun _ _ => trivial)

/-- The save, and what follows it. -/
theorem Raises.attempt {m : M n Unit} {f : Except PsaStatus Unit → M n Unit} (hm : Raises x m)
    (hok : Still (f (.ok ()))) (herr : ∀ e, Fails (f (.error e))) :
    Raises x (Crash.attempt m >>= f) := by
  intro s hs
  refine wp_bind (wp_attempt (wp_mono (hm s hs) ?_ ?_ fun _ _ => trivial))
  · exact fun _ s' hs' => hok.raised hs'
  · exact fun e s' _ => wp_mono (herr e s') (fun _ _ h => h.elim) (fun _ _ h => h) fun _ h => h

theorem Raises.bind {m : M n Unit} {f : Unit → M n Unit} (hm : Raises x m)
    (hf : ∀ a, Still (f a)) : Raises x (m >>= f) := fun s hs =>
  wp_bind (wp_mono (hm s hs) (fun a _ hs' => (hf a).raised hs') (fun _ _ _ => trivial)
    fun _ _ => trivial)

theorem Raises.save (hr : cfg.rollback = true) (h2 : x .c2 ≤ x .c1) (h3 : x .c3 ≤ x .c1)
    (hmax : x .c1 ≤ nvcMax) : Raises (n := n) x (psObjectTableSaveTable cfg) := by
  intro s h
  subst h
  refine wp_of_wpAt (i := 0) (save_at h2 h3 (fun _ _ _ _ => trivial) (fun _ _ => trivial) hmax ?_
    fun _ _ _ _ _ _ _ _ _ => trivial)
  intro s' _ hw hal
  exact ⟨(hw.tag hr).2.2, hal hr⟩

theorem ext_still {e : PsaStatus} {f : Sys n → Except PsaStatus α × Sys n}
    (hf : ∀ s, (f s).2.nvc = s.nvc) : Still (ext e f) :=
  fun _ => .call (fun s hs => (hf s).trans hs) fun _ _ hs => hs

theorem itsSet_still (fid : Nat) (file : File n) : Still (itsSet fid file) := by
  show Still (psaItsSet fid file)
  exact ext_still fun _ => rfl

theorem itsRemove_still (fid : Nat) : Still (psaItsRemove (n := n) fid) :=
  ext_still fun s => by split <;> rfl

theorem setBody_still (b : Body n) : Still (setBody b) := fun _ => .modify fun _ hs => hs

theorem deleteOldTable_still : Still (psObjectTableDeleteOldTable (n := n)) :=
  fun x => .get fun _ => itsRemove_still _ x

theorem removeOldData_still (fid : Nat) : Still (psRemoveOldData (n := n) fid) :=
  fun x => .bind (deleteOldTable_still x) fun _ => itsRemove_still fid x

theorem getFreeFid_still (num : Nat) : Still (psObjectTableGetFreeFid (n := n) num) := by
  intro x
  refine .get fun s => ?_
  split
  · exact .throw _
  · refine .bind (.attempt (itsRemove_still _ x)) fun r => ?_
    split
    · exact .pure _
    · exact .pure _
    · exact .throw _

theorem objectRead_still (fid : Nat) (tag : Option ObjTag) :
    Still (psEncryptedObjectRead (n := n) fid tag) := by
  intro x
  have hkey : Keeps (fun s : Sys n => s.nvc = x) psCryptoSetkey := ext_still (fun _ => rfl) x
  have hdestroy : Keeps (fun s : Sys n => s.nvc = x) psCryptoDestroykey :=
    ext_still (fun _ => rfl) x
  refine .bind (ext_still (fun s => by split <;> rfl) x) fun file => ?_
  cases file with
  | table _ => exact .throw _
  | object file =>
    refine hkey.bind fun _ => .bind (.attempt (ext_still (fun s => by split <;> rfl) x)) fun r => ?_
    cases r with
    | error _ => exact hdestroy.attempt.bind fun _ => .throw _
    | ok obj => exact hdestroy.bind fun _ => .pure obj

theorem objectWrite_still (fid : Nat) (obj : Obj) :
    Still (psEncryptedObjectWrite (n := n) fid obj) := by
  intro x
  have hkey : Keeps (fun s : Sys n => s.nvc = x) psCryptoSetkey := ext_still (fun _ => rfl) x
  have hdestroy : Keeps (fun s : Sys n => s.nvc = x) psCryptoDestroykey :=
    ext_still (fun _ => rfl) x
  refine hkey.bind fun _ => .bind (.get fun s => ?_) fun iv =>
    .bind (.attempt (ext_still (fun _ => rfl) x)) fun r => ?_
  · split
    · exact .throw _
    · exact .bind (.modify fun _ hs => hs) fun _ => .pure _
  · cases r with
    | error e => exact hdestroy.attempt.bind fun _ => .throw _
    | ok tag => exact hdestroy.bind fun _ => .bind (itsSet_still _ _ x) fun _ => .pure _

variable (hsave : Raises (n := n) x (psObjectTableSaveTable cfg))
include hsave

theorem setInfo_raises (uid : Nat) (c : Int) (fid : Nat) (tag : ObjTag) :
    Raises (n := n) x (psObjectTableSetObjTblInfo cfg uid c fid tag) := by
  refine .get fun s => .after (setBody_still _) fun _ => ?_
  split
  · refine .after (setBody_still _) fun _ => .attempt hsave (fun _ => .pure ()) fun e => ?_
    exact .bind fun _ => .bind fun _ => .throw e
  · exact (Fails.throw _).raises

theorem store_raises (num uid : Nat) (c : Int) (obj : Obj) (old : Option Nat) :
    Raises (n := n) x (storeObject cfg num uid c obj old) := by
  refine .after (getFreeFid_still num) fun fid => .after (objectWrite_still fid obj) fun tag =>
    .attempt (setInfo_raises hsave uid c fid tag) ?_ fun e => .bind fun _ => .throw e
  cases old with
  | none => exact deleteOldTable_still
  | some fid => exact removeOldData_still fid

theorem deleteObject_raises (uid : Nat) (c : Int) :
    Raises (n := n) x (psObjectTableDeleteObject cfg uid c) := by
  refine .get fun s => ?_
  dsimp only
  split
  · exact (Fails.throw _).raises
  · refine .after (setBody_still _) fun _ => .attempt hsave (fun _ => .pure ()) fun e => ?_
    exact .bind fun _ => .bind fun _ => .throw e

/-- An operation that succeeds. -/
theorem op_raises (o : Op) : Raises (n := n) x (o.run cfg) := by
  cases o with
  | create uid c flags data =>
    simp only [Op.run, psObjectCreate]
    split
    · exact (Fails.throw _).raises
    split
    · exact (Fails.throw _).raises
    split
    · exact (Fails.throw _).raises
    refine .get fun s => ?_
    split
    · refine .after (objectRead_still _ _) fun old => ?_
      split
      · exact (Fails.throw _).raises
      · exact store_raises hsave _ _ _ _ _
    · exact store_raises hsave _ _ _ _ _
  | write uid c offset data =>
    simp only [Op.run, psObjectWrite]
    split
    · exact (Fails.throw _).raises
    refine .get fun s => ?_
    split
    · exact (Fails.throw _).raises
    refine .after (objectRead_still _ _) fun old => ?_
    split
    · exact (Fails.throw _).raises
    split
    · exact (Fails.throw _).raises
    split
    · exact (Fails.throw _).raises
    · exact store_raises hsave _ _ _ _ _
  | delete uid c =>
    simp only [Op.run, psObjectDelete]
    split
    · exact (Fails.throw _).raises
    refine .get fun s => ?_
    split
    · exact (Fails.throw _).raises
    refine .after (objectRead_still _ _) fun old => ?_
    split
    · exact (Fails.throw _).raises
    · exact .bind (deleteObject_raises hsave uid c) fun _ => removeOldData_still _

end Raises

/-! ## What a start accepts -/

/-- A table that was found valid is tagged with counter 1 or counter 3. -/
def Genuine (nvc : Nvc → Nat) (t : Option (Table n)) (st : TableState) : Prop :=
  st ≠ .invalid → ∃ u, t = some u ∧ (u.auth (some (nvc .c1)) = true ∨ u.auth (some (nvc .c3)) = true)

/-- Storage and counters are left. -/
structure Unchanged (s s' : Sys n) : Prop where
  files : s'.files = s.files
  nvc : s'.nvc = s.nvc

theorem Unchanged.refl (s : Sys n) : Unchanged s s := ⟨rfl, rfl⟩

/-- A call that leaves the state, whatever it returns. -/
theorem wp_ask {α : Type} {e : PsaStatus} {f : Sys n → Except PsaStatus α}
    {Q : Post PsaStatus (Sys n) α} (hok : ∀ a, f s = .ok a → Q.ok a s) (herr : ∀ e, Q.err e s)
    (hcut : Q.cut s) : wp AnyEv (ext e fun s => (f s, s)) s Q := by
  refine wp_ext ?_ ?_ (fun _ => herr _) fun _ => hcut
  · intro a s' h
    simp only [Prod.mk.injEq] at h
    rw [← h.2]
    exact hok a h.1
  · intro e' s' h
    simp only [Prod.mk.injEq] at h
    rw [← h.2]
    exact herr e'

theorem readTable_any {idx : Fin 2} {Q : Post PsaStatus (Sys n) (Option (Table n))}
    (hok : ∀ r, r = none ∨ r = tableAt s.files idx → Q.ok r s) (hcut : Q.cut s) :
    wp AnyEv (psObjectTableFsReadTable idx) s Q := by
  have hnone : wp AnyEv (pure none) s Q := wp_pure (hok none (.inl rfl))
  refine wp_bind (wp_attempt (wp_ext ?_ ?_ (fun _ => hnone) fun _ => hcut))
  · intro file s' h
    split at h
    · rename_i file' hf
      cases h
      cases file with
      | table t => exact wp_pure (hok _ (.inr (tableAt_some.2 hf).symm))
      | object o => exact hnone
    · cases h
  · intro e s' h
    split at h
    · cases h
    · cases h
      exact hnone

theorem authenticate_any {t : Table n} {v : Option Nat}
    {Q : Post PsaStatus (Sys n) (Except PsaStatus Unit)}
    (hok : t.auth v = true → Q.ok (.ok ()) s) (herr : ∀ e, Q.ok (.error e) s)
    (hcut : Q.cut s) : wp AnyEv (attempt (psCryptoAuthenticate t v)) s Q := by
  refine wp_attempt (wp_ext ?_ ?_ (fun _ => herr _) fun _ => hcut)
  · intro a s' h
    split at h
    · rename_i ha
      cases h
      exact hok ha
    · cases h
  · intro e s' h
    split at h
    · cases h
    · cases h
      exact herr _

theorem tableAuthenticate_any {t : Option (Table n)} {x3 : Nat} (hx : x3 = 0 ∨ x3 = s.nvc .c3)
    {Q : Post PsaStatus (Sys n) TableState} (hok : ∀ st, Genuine s.nvc t st → Q.ok st s)
    (hcut : Q.cut s) : wp AnyEv (psObjectTableAuthenticate t (s.nvc .c1) x3) s Q := by
  have hinv : wp AnyEv (pure .invalid) s Q := wp_pure (hok _ fun h => absurd rfl h)
  cases t with
  | none => exact hinv
  | some t =>
    refine wp_bind (authenticate_any ?_ ?_ hcut)
    · exact fun ha => wp_pure (hok _ fun _ => ⟨t, rfl, .inl ha⟩)
    · intro e
      dsimp only
      split
      · exact hinv
      · rename_i h0
        refine wp_bind (authenticate_any ?_ (fun _ => hinv) hcut)
        intro ha
        refine wp_pure (hok _ fun _ => ⟨t, rfl, .inr ?_⟩)
        rcases hx with hx | hx
        · exact absurd hx h0
        · rw [← hx]
          exact ha

theorem nvcAuthenticate_any {t0 t1 : Option (Table n)}
    {Q : Post PsaStatus (Sys n) (TableState × TableState × Nat)}
    (hok : ∀ st0 st1, Genuine s.nvc t0 st0 → Genuine s.nvc t1 st1 →
      Q.ok (st0, st1, s.nvc .c1) s)
    (herr : ∀ e, Q.err e s) (hcut : Q.cut s) :
    wp AnyEv (psObjectTableNvcAuthenticate t0 t1) s Q := by
  have hread : ∀ {c : Nvc} {R : Post PsaStatus (Sys n) Nat}, R.ok (s.nvc c) s → (∀ e, R.err e s) →
      R.cut s → wp AnyEv (psReadNvCounter c) s R := fun hq he hc =>
    wp_ask (f := fun s => .ok (s.nvc _)) (fun a ha => by cases ha; exact hq) he hc
  refine wp_bind (hread ?_ herr hcut)
  refine wp_bind (hread ?_ herr hcut)
  refine wp_bind (hread ?_ herr hcut)
  have hx : (if s.nvc .c3 = s.nvc .c2 then s.nvc .c3 else 0) = 0 ∨
      (if s.nvc .c3 = s.nvc .c2 then s.nvc .c3 else 0) = s.nvc .c3 := by
    split
    · exact .inr rfl
    · exact .inl rfl
  refine wp_bind (tableAuthenticate_any hx (fun st0 h0 => ?_) hcut)
  refine wp_bind (tableAuthenticate_any hx (fun st1 h1 => ?_) hcut)
  exact wp_pure (hok st0 st1 h0 h1)

theorem authenticateTables_any (hr : cfg.rollback = true) {t0 t1 : Option (Table n)}
    {Q : Post PsaStatus (Sys n) (TableState × TableState × Option Nat)}
    (hok : ∀ st0 st1, Genuine s.nvc t0 st0 → Genuine s.nvc t1 st1 →
      Q.ok (st0, st1, some (s.nvc .c1)) s)
    (herr : ∀ e, Q.err e s) (hcut : Q.cut s) : wp AnyEv (authenticateTables cfg t0 t1) s Q := by
  unfold authenticateTables
  rw [if_pos hr]
  refine wp_bind (wp_attempt (nvcAuthenticate_any ?_ ?_ hcut))
  · exact fun st0 st1 h0 h1 => wp_pure (hok st0 st1 h0 h1)
  · intro e
    have hthrow : wp AnyEv (throw e) s Q := wp_throw (herr e)
    exact wp_bind (wp_attempt (wp_ask (f := fun _ => .ok ()) (fun _ _ => hthrow) (fun _ => hthrow)
      hcut))

/-- A table whose tag a start takes. -/
def Trusted (cfg : Cfg) (nvc : Nvc → Nat) (t : Table n) : Prop :=
  if cfg.rollback then t.auth (some (nvc .c1)) = true ∨ t.auth (some (nvc .c3)) = true
  else t.auth none = true

theorem ctxTable_any {t : Option (Table n)} {Q : Post PsaStatus (Sys n) TableState}
    (hok : ∀ st, (st ≠ .invalid → ∃ u, t = some u ∧ u.auth none = true) → Q.ok st s)
    (hcut : Q.cut s) : wp AnyEv (psObjectTableAuthenticateCtxTable t) s Q := by
  have hinv : wp AnyEv (pure .invalid) s Q := wp_pure (hok _ fun h => absurd rfl h)
  cases t with
  | none => exact hinv
  | some t =>
    exact wp_bind (authenticate_any (fun ha => wp_pure (hok _ fun _ => ⟨t, rfl, ha⟩))
      (fun _ => hinv) hcut)

theorem authenticateTables_trusted {t0 t1 : Option (Table n)}
    {Q : Post PsaStatus (Sys n) (TableState × TableState × Option Nat)}
    (hok : ∀ st0 st1, (st0 ≠ .invalid → ∃ u, t0 = some u ∧ Trusted cfg s.nvc u) →
      (st1 ≠ .invalid → ∃ u, t1 = some u ∧ Trusted cfg s.nvc u) →
      Q.ok (st0, st1, if cfg.rollback then some (s.nvc .c1) else none) s)
    (herr : ∀ e, Q.err e s) (hcut : Q.cut s) : wp AnyEv (authenticateTables cfg t0 t1) s Q := by
  unfold Trusted at hok
  cases hr : cfg.rollback with
  | true =>
    rw [hr] at hok
    exact authenticateTables_any hr hok herr hcut
  | false =>
    rw [hr] at hok
    unfold authenticateTables
    simp only [hr, Bool.false_eq_true, if_false]
    refine wp_bind (ctxTable_any (fun st0 h0 => ?_) hcut)
    refine wp_bind (ctxTable_any (fun st1 h1 => ?_) hcut)
    exact wp_pure (hok st0 st1 h0 h1)

theorem activeTable_valid {st0 st1 : TableState} {x y : Nat} {a : Fin 2}
    (h : activeTable cfg st0 st1 x y = some a) : (if a = 0 then st0 else st1) ≠ .invalid := by
  have hval : ∀ {b : Fin 2}, st0 ≠ .invalid → st1 ≠ .invalid →
      (if b = 0 then st0 else st1) ≠ .invalid := by
    intro b h0 h1
    split
    · exact h0
    · exact h1
  unfold activeTable at h
  split at h
  · cases h
  · rename_i hboth
    split at h
    · rename_i h0
      cases h
      exact fun h1 => hboth ⟨h0, h1⟩
    · rename_i h0
      split at h
      · cases h
        exact h0
      · rename_i h1
        exact hval h0 h1

theorem validateVersion_valid {t : Option (Table n)} {st : TableState}
    (h : validateVersion t st ≠ .invalid) :
    st ≠ .invalid ∧ ∀ u, t = some u → u.body.version = objectSystemVersion := by
  unfold validateVersion at h
  split at h
  · split at h
    · next hv => exact ⟨h, fun _ hu => Option.some.inj hu ▸ hv⟩
    · exact absurd rfl h
  · exact absurd rfl h

/-- The table `t` at `a`, after the checks of a start. -/
structure Chosen (cfg : Cfg) (s : Sys n) (a : Fin 2) (t : Table n) : Prop where
  file : tableAt s.files a = some t
  version : t.body.version = objectSystemVersion
  trusted : Trusted cfg s.nvc t

/-- What a start selects, whatever fails. -/
theorem select_chosen {Q : Post PsaStatus (Sys n) (Option Nat)}
    (hok : ∀ a t, Chosen cfg s a t → Q.ok (if cfg.rollback then some (s.nvc .c1) else none)
      { s with table := t, active := a, scratch := other a })
    (herr : ∀ e t, Q.err e { s with table := t }) (hcut : ∀ t, Q.cut { s with table := t }) :
    wp AnyEv (psObjectTableSelect cfg) s Q := by
  have hkey : ∀ {e : PsaStatus} {s' : Sys n} {R : Post PsaStatus (Sys n) Unit}, R.ok () s' →
      (∀ e, R.err e s') → R.cut s' → wp AnyEv (ext e fun s => (.ok (), s)) s' R := fun hq he hc =>
    wp_ask (f := fun _ => .ok ()) (fun _ _ => hq) he hc
  refine wp_bind (readTable_any (fun t0 h0 => ?_) (hcut s.table))
  refine wp_bind (wp_modify ?_)
  have he : ∀ e, Q.err e { s with table := t0.getD s.table } := fun e => herr e _
  refine wp_bind (readTable_any (fun t1 h1 => ?_) (hcut _))
  refine wp_bind (hkey ?_ he (hcut _))
  refine wp_bind (authenticateTables_trusted (fun st0 st1 hg0 hg1 => ?_) he (hcut _))
  refine wp_bind (hkey ?_ he (hcut _))
  refine wp_bind ?_
  unfold psSetActiveObjectTable
  -- the table that is set active was found valid, so it was read
  have hfound : ∀ (t : Option (Table n)) (st : TableState) (a : Fin 2),
      t = none ∨ t = tableAt s.files a → (st ≠ .invalid → ∃ u, t = some u ∧ Trusted cfg s.nvc u) →
        validateVersion t st ≠ .invalid → ∃ u, t = some u ∧ Chosen cfg s a u := by
    intro t st a ht hg hne
    obtain ⟨hst, hver⟩ := validateVersion_valid hne
    obtain ⟨u, rfl, htr⟩ := hg hst
    rcases ht with ht | ht
    · cases ht
    · exact ⟨u, rfl, ht.symm, hver u rfl, htr⟩
  cases hact : activeTable cfg (validateVersion t0 st0) (validateVersion t1 st1) (swapCountOf t0)
      (swapCountOf t1) with
  | none => exact wp_throw (herr _ _)
  | some a =>
    have hval := activeTable_valid hact
    match a, hval with
    | 0, hval =>
      obtain ⟨u, rfl, ha⟩ := hfound t0 st0 0 h0 hg0 hval
      exact wp_modify (wp_pure (hok 0 u ha))
    | 1, hval =>
      obtain ⟨u, rfl, ha⟩ := hfound t1 st1 1 h1 hg1 hval
      exact wp_modify (wp_pure (hok 1 u ha))

/-- The table `t` at `a` can be accepted. -/
structure Accepts (s : Sys n) (a : Fin 2) (t : Table n) : Prop where
  file : tableAt s.files a = some t
  auth : t.auth (some (s.nvc .c1)) = true ∨ t.auth (some (s.nvc .c3)) = true

theorem Chosen.accepts (hr : cfg.rollback = true) {a : Fin 2} {t : Table n}
    (h : Chosen cfg s a t) : Accepts s a t := by
  refine ⟨h.file, ?_⟩
  have htr := h.trusted
  unfold Trusted at htr
  rwa [if_pos hr] at htr

theorem select_any (hr : cfg.rollback = true) {Q : Post PsaStatus (Sys n) (Option Nat)}
    (hok : ∀ s', Unchanged s s' → Accepts s s'.active s'.table → Q.ok (some (s.nvc .c1)) s')
    (herr : ∀ e s', Unchanged s s' → Q.err e s') (hcut : ∀ s', Unchanged s s' → Q.cut s') :
    wp AnyEv (psObjectTableSelect cfg) s Q := by
  refine select_chosen (fun a t h => ?_) (fun e _ => herr e _ ⟨rfl, rfl⟩) fun _ => hcut _ ⟨rfl, rfl⟩
  rw [if_pos hr]
  exact hok _ ⟨rfl, rfl⟩ (h.accepts hr)

/-- A start, however it ends: no table is written, and counter 1 stays. -/
structure Booted (s s' : Sys n) : Prop where
  eq1 : s'.nvc .c1 = s.nvc .c1
  le2 : s'.nvc .c2 ≤ s.nvc .c1
  le3 : s'.nvc .c3 ≤ s.nvc .c1
  mono3 : s.nvc .c3 ≤ s'.nvc .c3
  images : ∀ t, Image s'.files t → Image s.files t

def startPost (s : Sys n) : Post PsaStatus (Sys n) Unit where
  ok _ s' := Booted s s' ∧ Accepts s s'.active s'.table
  err _ s' := Booted s s'
  cut s' := Booted s s'

section Prepare

variable (h2 : s.nvc .c2 ≤ s.nvc .c1) (h3 : s.nvc .c3 ≤ s.nvc .c1)
include h2 h3

theorem booted_of_nvc {s' : Sys n} (hn : s'.nvc = s.nvc)
    (hi : ∀ t, Image s'.files t → Image s.files t) : Booted s s' := by
  refine ⟨?_, ?_, ?_, ?_, hi⟩ <;> rw [hn]
  · exact h2
  · exact h3

/-- The end of a start: the counters are aligned. -/
theorem alignInit_any (hmax : s.nvc .c1 ≤ nvcMax) {s₂ : Sys n} (hn : s₂.nvc = s.nvc)
    (hi : ∀ t, Image s₂.files t → Image s.files t) (ha : Accepts s s₂.active s₂.table) :
    wp AnyEv (do
      psObjectTableAlignNvCounters (s.nvc .c1)
      modify fun s => { s with iv := s.table.iv }) s₂ (startPost s) := by
  have hboot : ∀ x2 x3, x2 ≤ s.nvc .c1 → s₂.nvc .c3 ≤ x3 → x3 ≤ s.nvc .c1 →
      Booted s (setNvc (setNvc s₂ .c2 x2) .c3 x3) := by
    intro x2 x3 hx2 hl3 hx3
    refine ⟨?_, ?_, ?_, ?_, hi⟩
    · simp [setNvc, hn]
    · simpa [setNvc] using hx2
    · simpa [setNvc] using hx3
    · simpa [setNvc, hn] using hl3
  have h3' : s₂.nvc .c3 ≤ s.nvc .c1 := by
    rw [hn]
    exact h3
  refine wp_bind (wp_of_wpAt (i := 0) (align_at hmax ?_ h3' rfl ?_ ?_ ?_))
  · rw [hn]
    exact h2
  · obtain ⟨b1, b2, b3, b4, b5⟩ := hboot _ _ (Nat.le_refl _) h3' (Nat.le_refl _)
    dsimp only
    refine wp_modify ?_
    exact ⟨⟨b1, b2, b3, b4, b5⟩, ha⟩
  · exact fun _ _ _ _ _ x2 x3 _ _ hx2 hl3 hx3 => hboot x2 x3 hx2 hl3 hx3
  · exact fun x2 x3 _ hx2 hl3 hx3 => hboot x2 x3 hx2 hl3 hx3

/-- The tables a start can accept, whatever fails. -/
theorem prepare_accepts (hr : cfg.rollback = true) (hmax : s.nvc .c1 ≤ nvcMax) :
    wp AnyEv (psSystemPrepare cfg) s (startPost s) := by
  have hun : ∀ s', Unchanged s s' → Booted s s' := fun s' hu =>
    booted_of_nvc h2 h3 hu.nvc (by rw [hu.files]; exact fun _ ht => ht)
  refine wp_bind (select_any hr ?_ (fun _ => hun) hun)
  intro s₁ hu ha
  refine wp_bind (wp_get ?_)
  -- what the removal of the scratch table leaves
  have hrem : wp AnyEv (attempt (psaItsRemove (tableFid s₁.scratch))) s₁
      ⟨fun _ s₂ => s₂.nvc = s.nvc ∧ (∀ t, Image s₂.files t → Image s.files t) ∧
          Accepts s s₂.active s₂.table, fun _ _ => False, Booted s⟩ := by
    refine wp_attempt (wp_of_wpAt (i := 0) (wpAt_mono (itsRemove_at (P := fun s₂ =>
      s₂.nvc = s.nvc ∧ (∀ t, Image s₂.files t → Image s.files t) ∧ Accepts s s₂.active s₂.table)
      ?_ ?_) (fun _ _ _ h => h) (fun _ _ _ h => h) fun _ h => booted_of_nvc h2 h3 h.1 h.2.1))
    · exact ⟨hu.nvc, by rw [hu.files]; exact fun _ ht => ht, ha⟩
    · refine ⟨hu.nvc, fun t ht => ?_, ha⟩
      rw [← hu.files]
      exact ht.remove
  refine wp_bind (wp_mono hrem ?_ (fun _ _ h => h.elim) fun _ h => h)
  intro r s₂ hx
  obtain ⟨hn, hi, ha⟩ := hx
  have halign := alignInit_any h2 h3 hmax hn hi ha
  dsimp only
  split
  · exact halign
  · exact halign
  · exact wp_bind (wp_throw (booted_of_nvc h2 h3 hn hi))

end Prepare

/-! ## Starts -/

section Start

variable {S : Table n → Prop} {b3 : Nat}

theorem Booted.bounded {s' : Sys n} (h : Bounded S b3 s) (hb : Booted s s') :
    Bounded S b3 s' := by
  have hmax := h.max
  refine ⟨?_, ?_, ?_, Nat.le_trans h.base hb.mono3, fun t ht => ?_⟩ <;> rw [hb.eq1]
  · exact hb.le2
  · exact hb.le3
  · exact hmax
  · exact h.tags t (hb.images t ht)

theorem prepare_bounded (h : Bounded S b3 s) : wp AnyEv (psSystemPrepare cfg) s
    ⟨fun _ => Bounded S b3, fun _ => Bounded S b3, Bounded S b3⟩ := by
  cases hr : cfg.rollback with
  | true =>
    exact wp_mono (prepare_accepts h.le2 h.le3 hr h.max) (fun _ _ hb => hb.1.bounded h)
      (fun _ _ hb => Booted.bounded h hb) fun _ hb => Booted.bounded h hb
  | false =>
    have hram : ∀ {s' : Sys n}, s'.nvc = s.nvc → s'.files = s.files → Bounded S b3 s' :=
      fun hn hf => h.files hn fun t ht => by rwa [hf] at ht
    refine wp_bind (select_chosen (fun a t _ => ?_) (fun _ _ => hram rfl rfl) fun _ => hram rfl rfl)
    refine wp_bind (wp_get (wp_bind (wp_attempt (wp_of_wpAt (i := 0) (wpAt_mono
      (itsRemove_at (P := Bounded S b3) (hram rfl rfl) ?_) ?_ ?_ fun _ hc => hc)))))
    · exact h.files rfl fun t ht => ht.remove
    · intro _ s' _ hs'
      simp only [hr, Bool.false_eq_true, if_false]
      exact wp_modify (hs'.files rfl fun _ ht => ht)
    · intro e s' _ hs'
      simp only [hr, Bool.false_eq_true, if_false]
      split
      · exact wp_modify (hs'.files rfl fun _ ht => ht)
      · exact wp_modify (hs'.files rfl fun _ ht => ht)
      · exact wp_bind (wp_throw hs')

theorem wipe_bounded : Keeps (Bounded S b3) (psSystemWipeAll (n := n) cfg) :=
  .bind (.modify fun _ h => h.files rfl fun _ ht => ht) fun _ => save_bounded

theorem tfmPsInit_bounded (h : Bounded S b3 s) : wp AnyEv (tfmPsInit cfg) s
    ⟨fun _ => Bounded S b3, fun _ => Bounded S b3, Bounded S b3⟩ := by
  refine tfmPsInit_wp (wp_mono (prepare_bounded h) (fun _ _ hok => hok) (fun e s' hs' => ?_)
    fun _ hc => hc)
  unfold createFlashLayout
  split
  · exact wp_bind (wp_mono (wipe_bounded AnyEv s' hs') (fun _ _ hw => prepare_bounded hw)
      (fun _ _ he => he) fun _ hc => hc)
  · exact wp_throw hs'

/-- The table a start loads, also after it created the flash layout. -/
theorem tfmPsInit_tagged (hr : cfg.rollback = true) (h : Bounded S b3 s) :
    wp AnyEv (tfmPsInit cfg) s
      ⟨fun _ s' => ∃ v, b3 ≤ v ∧ s'.table.auth (some v) = true, fun _ _ => True, fun _ => True⟩ := by
  have hload : ∀ s, Bounded S b3 s → wp AnyEv (psSystemPrepare cfg) s
      ⟨fun _ s' => ∃ v, b3 ≤ v ∧ s'.table.auth (some v) = true, fun _ s' => Bounded S b3 s',
        fun _ => True⟩ := by
    intro s h
    refine wp_mono (prepare_accepts h.le2 h.le3 hr h.max) ?_ (fun _ _ hb => Booted.bounded h hb)
      fun _ _ => trivial
    intro _ s' hx
    obtain ⟨-, ha⟩ := hx
    rcases ha.auth with ha | ha
    · exact ⟨_, Nat.le_trans h.base h.le3, ha⟩
    · exact ⟨_, h.base, ha⟩
  refine tfmPsInit_wp (wp_mono (hload s h) (fun _ _ hok => hok) (fun e s' hs' => ?_)
    fun _ hc => hc)
  unfold createFlashLayout
  split
  · exact wp_bind (wp_mono (wipe_bounded AnyEv s' hs') (fun _ s₂ hw => wp_mono (hload s₂ hw)
      (fun _ _ hok => hok) (fun _ _ _ => trivial) fun _ hc => hc) (fun _ _ _ => trivial)
      fun _ _ => trivial)
  · exact wp_throw trivial

end Start

/-! ## Reads -/

/-- An object that is read is in its file, under the tag of the entry. -/
theorem decrypt_any (fid : Nat) (tag : Option ObjTag) : wp AnyEv (psEncryptedObjectRead fid tag) s
    ⟨fun o _ => ∃ file, s.files fid = some (.object file) ∧ tag = some ⟨file.iv, fid, file.obj⟩ ∧
        o = file.obj, fun _ _ => True, fun _ => True⟩ := by
  refine wp_bind (wp_ext ?_ (fun _ _ _ => trivial) (fun _ => trivial) fun _ => trivial)
  intro f s₁ hget
  have hfile : s.files fid = some f := by
    split at hget
    · next hf =>
      cases hget
      exact hf
    · cases hget
  cases f with
  | table t => exact wp_throw trivial
  | object file =>
    refine wp_bind (wp_ext ?_ (fun _ _ _ => trivial) (fun _ => trivial) fun _ => trivial)
    intro _ s₂ _
    have hfail : ∀ s₃ Q, (∀ e s', Q.err e s') → Q.cut s₃ → wp AnyEv (do
        let _ ← attempt psCryptoDestroykey
        throw .genericError : M n Obj) s₃ Q := fun s₃ Q he hc =>
      wp_bind (wp_attempt (wp_ext (fun _ _ _ => wp_throw (he _ _)) (fun _ _ _ => wp_throw (he _ _))
        (fun _ => wp_throw (he _ _)) fun _ => hc))
    refine wp_bind (wp_attempt (wp_ext ?_ (fun _ _ _ => hfail _ _ (fun _ _ => trivial) trivial)
      (fun _ => hfail _ _ (fun _ _ => trivial) trivial) fun _ => trivial))
    intro obj s₃ hd
    split at hd
    · rename_i htag
      cases hd
      refine wp_bind (wp_ext ?_ (fun _ _ _ => trivial) (fun _ => trivial) fun _ => trivial)
      exact fun _ _ _ => wp_pure ⟨file, hfile, htag, rfl⟩
    · cases hd

theorem decrypt_ok {fid : Nat} {tag : Option ObjTag} {o : Obj} {s' : Sys n} {p q : List Ev}
    (h : psEncryptedObjectRead fid tag s p = .ok o s' q) : ∃ iv, tag = some ⟨iv, fid, o⟩ := by
  have hp := decrypt_any (s := s) fid tag p fun _ _ => trivial
  rw [h] at hp
  obtain ⟨⟨file, -, htag, rfl⟩, -⟩ := hp
  exact ⟨file.iv, htag⟩

/-- A read returns what the table records, whatever is in the files. -/
theorem read_recorded {uid offset size : Nat} {c : Int} {data : List UInt8} {s' : Sys n}
    {p q : List Ev} (h : psObjectRead uid c offset size s p = .ok data s' q) :
    ∃ i tag, getObjectEntryIdx s.table.body uid c = some i ∧ (s.table.body.db i).tag = some tag ∧
      data = (tag.obj.data.drop offset).take size := by
  cases hi : getObjectEntryIdx s.table.body uid c with
  | none =>
    rw [objectRead_none hi] at h
    cases h
  | some i =>
    rw [objectRead_some hi] at h
    simp only [bind] at h
    cases hr : psEncryptedObjectRead (objectFid i.val) (s.table.body.db i).tag s p with
    | ok o s₁ p₁ =>
      obtain ⟨iv, htag⟩ := decrypt_ok hr
      rw [hr] at h
      refine ⟨i, _, rfl, htag, ?_⟩
      dsimp only at h
      split at h
      · cases h
      · cases h
        rfl
    | err e s₁ p₁ =>
      rw [hr] at h
      cases h
    | cut s₁ =>
      rw [hr] at h
      cases h

/-! ## Runs with an attacker -/

/-- The device; as ghost state every table image that was ever stored, and those
that were stored before an operation that returned success. -/
structure Exposed (n : Nat) where
  sys : Sys n
  up : Bool
  stored : Table n → Prop
  old : Table n → Prop

inductive Act (n : Nat)
  | op (o : Op) (p : List Ev)
  | boot (p : List Ev)
  | off
  /-- the attacker replaces the files -/
  | replace (files : Nat → Option (File n))

/-- A moment of a run: where it could be cut, or its end. -/
def Moment {α : Type} (m : M n α) (s : Sys n) (p : List Ev) (s' : Sys n) : Prop :=
  s' = (m s p).state ∨ ∃ q, Initial q p ∧ s' = (m s (q ++ [.cut 0])).state

/-- The table images after a run. -/
def storedBy {α : Type} (m : M n α) (s : Sys n) (p : List Ev) (S : Table n → Prop) (t : Table n) :
    Prop :=
  S t ∨ ∃ s', Moment m s p s' ∧ Image s'.files t

/-- The device after a run of the partition: down if the power was cut. -/
def after {α : Type} : Res PsaStatus (Sys n) α → Sys n × Bool
  | .ok _ s _ => (s, true)
  | .err _ s _ => (s, true)
  | .cut s => (s.reset, false)

/-- The device after a start: down if it failed. -/
def afterBoot {α : Type} : Res PsaStatus (Sys n) α → Sys n × Bool
  | .ok _ s _ => (s, true)
  | .err _ s _ => (s.reset, false)
  | .cut s => (s.reset, false)

def Exposed.op (cfg : Cfg) (x : Exposed n) (o : Op) (p : List Ev) : Exposed n where
  sys := (after (o.run cfg x.sys p)).1
  up := (after (o.run cfg x.sys p)).2
  stored := storedBy (o.run cfg) x.sys p x.stored
  old t := x.old t ∨ ((o.run cfg x.sys p).isOk = true ∧ (x.stored t ∨ Image x.sys.files t))

def Exposed.boot (cfg : Cfg) (x : Exposed n) (p : List Ev) : Exposed n where
  sys := (afterBoot (tfmPsInit cfg x.sys p)).1
  up := (afterBoot (tfmPsInit cfg x.sys p)).2
  stored := storedBy (tfmPsInit cfg) x.sys p x.stored
  old := x.old

def Exposed.replace (x : Exposed n) (files : Nat → Option (File n)) : Exposed n :=
  { x with sys := { x.sys with files := files }, stored := fun t => x.stored t ∨ Image files t }

/-- Tables that the attacker stores were stored earlier, or no tag fits them; other
files are arbitrary. -/
def act (cfg : Cfg) (x : Exposed n) : Act n → Exposed n → Prop
  | .op o p, x' => x.up = true ∧ x' = x.op cfg o p
  | .boot p, x' => x.up = false ∧ x' = x.boot cfg p
  | .off, x' => x.up = true ∧ x' = { x with sys := x.sys.reset, up := false }
  | .replace files, x' =>
    (∀ t, Image files t → x.stored t ∨ ∀ v, t.auth v = false) ∧ x' = x.replace files

def exposed (cfg : Cfg) (n : Nat) : Exposed n :=
  ⟨(init cfg n).sys, false, Image (init cfg n).sys.files, fun _ => False⟩

def attackLts (cfg : Cfg) (n : Nat) : LTS (Exposed n) (Act n) := ⟨(· = exposed cfg n), act cfg⟩

structure ExposedInv (x : Exposed n) : Prop where
  le2 : x.sys.nvc .c2 ≤ x.sys.nvc .c1
  le3 : x.sys.nvc .c3 ≤ x.sys.nvc .c1
  max : x.sys.nvc .c1 ≤ nvcMax
  files : ∀ t, Image x.sys.files t → x.stored t
  tags : ∀ t, x.stored t → ∀ v, t.auth (some v) = true → v ≤ x.sys.nvc .c1
  old : ∀ t, x.old t → ∀ v, t.auth (some v) = true → v < x.sys.nvc .c3

theorem after_fst {α : Type} (r : Res PsaStatus (Sys n) α) :
    (after r).1.nvc = r.state.nvc ∧ (after r).1.files = r.state.files := by
  cases r <;> exact ⟨rfl, rfl⟩

theorem afterBoot_fst {α : Type} (r : Res PsaStatus (Sys n) α) :
    (afterBoot r).1.nvc = r.state.nvc ∧ (afterBoot r).1.files = r.state.files := by
  cases r <;> exact ⟨rfl, rfl⟩

theorem ExposedInv.bounded {x : Exposed n} (h : ExposedInv x) :
    Bounded x.stored (x.sys.nvc .c3) x.sys :=
  ⟨h.le2, h.le3, h.max, Nat.le_refl _, fun t ht => .inl (h.files t ht)⟩

/-- The table images after a run: at the moment one was stored its tag was at most
counter 1. -/
theorem storedBy_tags {α : Type} {m : M n α} {x : Exposed n} {p : List Ev} (h : ExposedInv x)
    (hm : Steady NvcLe m) (hb : ∀ p, Bounded x.stored (x.sys.nvc .c3) (m x.sys p).state)
    {t : Table n} (ht : storedBy m x.sys p x.stored t) {v : Nat} (hv : t.auth (some v) = true) :
    v ≤ (m x.sys p).state.nvc .c1 := by
  have hmono : x.sys.nvc .c1 ≤ (m x.sys p).state.nvc .c1 := hm.ends x.sys p
  rcases ht with ht | ⟨s', hs', ht⟩
  · have := h.tags t ht v hv
    omega
  · have hle : s'.nvc .c1 ≤ (m x.sys p).state.nvc .c1 ∧ Bounded x.stored (x.sys.nvc .c3) s' := by
      rcases hs' with rfl | ⟨q, hq, rfl⟩
      · exact ⟨Nat.le_refl _, hb p⟩
      · exact ⟨hm.state NvcLe.refl x.sys hq, hb _⟩
    rcases hle.2.tags t ht with hS | htag
    · have := h.tags t hS v hv
      omega
    · have := htag v hv
      omega

theorem inv_exposed_op (hr : cfg.rollback = true) {x x' : Exposed n} {o : Op} {p : List Ev}
    (h : ExposedInv x) (hs : act cfg x (.op o p) x') : ExposedInv x' := by
  obtain ⟨-, rfl⟩ := hs
  have hb : ∀ p, Bounded x.stored (x.sys.nvc .c3) (o.run cfg x.sys p).state := fun p =>
    (op_bounded cfg o).state h.bounded p
  have hend := hb p
  have hbase := hend.base
  have hn : (x.op cfg o p).sys.nvc = (o.run cfg x.sys p).state.nvc := (after_fst _).1
  have hf : (x.op cfg o p).sys.files = (o.run cfg x.sys p).state.files := (after_fst _).2
  refine ⟨hn ▸ hend.le2, hn ▸ hend.le3, hn ▸ hend.max, ?_, ?_, ?_⟩
  · exact fun t ht => .inr ⟨_, .inl rfl, hf ▸ ht⟩
  · intro t ht v hv
    rw [hn]
    exact storedBy_tags h (op_steady cfg o) hb ht hv
  · intro t ht v hv
    rw [hn]
    rcases ht with ht | ⟨hok, ht⟩
    · have := h.old t ht v hv
      omega
    · have hle : v ≤ x.sys.nvc .c1 := by
        rcases ht with ht | ht
        · exact h.tags t ht v hv
        · exact h.tags t (h.files t ht) v hv
      obtain ⟨a, q, hrun⟩ := Res.of_isOk hok
      have hraise := op_raises (.save hr h.le2 h.le3 h.max) o x.sys rfl p fun _ _ => trivial
      rw [hrun] at hraise
      obtain ⟨h1, -, h3⟩ := hraise.1
      omega

theorem inv_exposed_boot {x x' : Exposed n} {p : List Ev} (h : ExposedInv x)
    (hs : act cfg x (.boot p) x') : ExposedInv x' := by
  obtain ⟨-, rfl⟩ := hs
  have hb : ∀ p, Bounded x.stored (x.sys.nvc .c3) (tfmPsInit cfg x.sys p).state :=
    wp_state (tfmPsInit_bounded h.bounded)
  have hend := hb p
  have hbase := hend.base
  have hn : (x.boot cfg p).sys.nvc = (tfmPsInit cfg x.sys p).state.nvc := (afterBoot_fst _).1
  have hf : (x.boot cfg p).sys.files = (tfmPsInit cfg x.sys p).state.files := (afterBoot_fst _).2
  refine ⟨hn ▸ hend.le2, hn ▸ hend.le3, hn ▸ hend.max, ?_, ?_, ?_⟩
  · exact fun t ht => .inr ⟨_, .inl rfl, hf ▸ ht⟩
  · intro t ht v hv
    rw [hn]
    exact storedBy_tags h (tfmPsInit_steady cfg) hb ht hv
  · intro t ht v hv
    have := h.old t ht v hv
    rw [hn]
    omega

theorem inv_exposed_step (hr : cfg.rollback = true) {x x' : Exposed n} {l : Act n}
    (h : ExposedInv x) (hs : act cfg x l x') : ExposedInv x' := by
  cases l with
  | op o p => exact inv_exposed_op hr h hs
  | boot p => exact inv_exposed_boot h hs
  | off =>
    obtain ⟨-, rfl⟩ := hs
    exact ⟨h.le2, h.le3, h.max, h.files, h.tags, h.old⟩
  | replace files =>
    obtain ⟨hold, rfl⟩ := hs
    refine ⟨h.le2, h.le3, h.max, fun t ht => .inr ht, ?_, h.old⟩
    intro t hx v hv
    obtain ht | ht := hx
    · exact h.tags t ht v hv
    · rcases hold t ht with hS | hno
      · exact h.tags t hS v hv
      · rw [hno] at hv
        cases hv

theorem inv_exposed_init (hr : cfg.rollback = true) (n : Nat) : ExposedInv (exposed cfg n) := by
  obtain ⟨hfiles, hnvc⟩ := init_rollback (n := n) hr
  have himage : ∀ t, Image (init cfg n).sys.files t → t = firstTable cfg n := by
    intro t hx
    obtain ⟨a, ha⟩ := hx
    rw [hfiles] at ha
    by_cases h : tableFid a = tableFid 0
    · rw [h, Function.update_self] at ha
      cases ha
      rfl
    · rw [Function.update_of_ne h] at ha
      cases ha
  have hauth : (firstTable cfg n).auth (some 1) = true := by
    simp [firstTable, stampTable, Table.auth, hr]
  refine ⟨?_, ?_, ?_, fun _ ht => ht, ?_, fun _ ht => ht.elim⟩
  · show (init cfg n).sys.nvc .c2 ≤ (init cfg n).sys.nvc .c1
    rw [hnvc]
  · show (init cfg n).sys.nvc .c3 ≤ (init cfg n).sys.nvc .c1
    rw [hnvc]
  · show (init cfg n).sys.nvc .c1 ≤ nvcMax
    rw [hnvc]
    decide
  · intro t ht v hv
    rw [himage t ht] at hv
    show v ≤ (init cfg n).sys.nvc .c1
    rw [hnvc, Option.some.inj (auth_inj hv hauth)]

theorem inv_exposed_inductive (hr : cfg.rollback = true) (n : Nat) :
    (attackLts cfg n).Inductive ExposedInv where
  init := fun _ hx => hx ▸ inv_exposed_init hr n
  step := fun _ _ _ h hs => inv_exposed_step hr h hs

/-- **No rollback.** In every run with an attacker who replaces the files by earlier
images, calls failing and the power cut anywhere: a start that succeeds loads a
table that is in a table file and is none of those stored before an operation that
had returned success, nor does the start after a flash layout that it created; and
a read that succeeds returns what the loaded table records. -/
theorem no_rollback (cfg : Cfg) (hr : cfg.rollback = true) (n : Nat) (x : Exposed n)
    (h : (attackLts cfg n).Reachable x) :
    (∀ p s' q, psSystemPrepare cfg x.sys p = .ok () s' q →
      tableAt x.sys.files s'.active = some s'.table ∧ ¬ x.old s'.table) ∧
    (∀ p s' q, tfmPsInit cfg x.sys p = .ok () s' q → ¬ x.old s'.table) ∧
    ∀ uid c offset size p data s' q, psObjectRead uid c offset size x.sys p = .ok data s' q →
      ∃ i tag, getObjectEntryIdx x.sys.table.body uid c = some i ∧
        (x.sys.table.body.db i).tag = some tag ∧ data = (tag.obj.data.drop offset).take size := by
  have hinv := (inv_exposed_inductive hr n).reachable x h
  refine ⟨fun p s' q hrun => ?_, fun p s' q hrun hold => ?_,
    fun _ _ _ _ _ _ _ _ hrun => read_recorded hrun⟩
  · have hacc := prepare_accepts hinv.le2 hinv.le3 hr hinv.max p fun _ _ => trivial
    rw [hrun] at hacc
    obtain ⟨-, hfile, hauth⟩ := hacc.1
    refine ⟨hfile, fun hold => ?_⟩
    have hle := hinv.le3
    rcases hauth with ha | ha
    · have := hinv.old _ hold _ ha
      omega
    · have := hinv.old _ hold _ ha
      omega
  · have htag := tfmPsInit_tagged hr hinv.bounded p fun _ _ => trivial
    rw [hrun] at htag
    obtain ⟨⟨v, hle, ha⟩, -⟩ := htag
    have := hinv.old _ hold _ ha
    omega

/-- The attacker puts a table back after an operation that succeeded. -/
theorem reachable_replaced {x : Exposed n} {t : Table n} {o : Op} {p : List Ev}
    (hx : (attackLts cfg n).Reachable x) (hup : x.up = true) {files : Nat → Option (File n)}
    (hok : (o.run cfg x.sys p).isOk = true) (hfiles : ∀ t, Image files t → x.stored t)
    (ht : Image files t) :
    ∃ x', (attackLts cfg n).Reachable x' ∧ x'.sys.files = files ∧ x'.old t := by
  have hop : (attackLts cfg n).step x (.op o p) (x.op cfg o p) := ⟨hup, rfl⟩
  have hrep : (attackLts cfg n).step (x.op cfg o p) (.replace files)
      ((x.op cfg o p).replace files) := ⟨fun u hu => .inl (.inl (hfiles u hu)), rfl⟩
  exact ⟨_, .step (.step hx hop) hrep, rfl, .inr ⟨hok, .inl (hfiles t ht)⟩⟩

/-- The first table is put back after a create. -/
theorem no_rollback_after_replace :
    ∃ x, (attackLts ⟨16, true, true⟩ 3).Reachable x ∧
      (∃ a t, tableAt x.sys.files a = some t ∧ x.old t) ∧
      ∀ p s' q, psSystemPrepare ⟨16, true, true⟩ x.sys p = .ok () s' q → ¬ x.old s'.table := by
  have hfile := (init_holds ⟨16, true, true⟩ 3).file
  have hstep : (attackLts ⟨16, true, true⟩ 3).step (exposed ⟨16, true, true⟩ 3) (.boot [])
      ((exposed ⟨16, true, true⟩ 3).boot ⟨16, true, true⟩ []) := ⟨rfl, rfl⟩
  have hboot := LTS.Reachable.step (.init rfl) hstep
  obtain ⟨x, hx, hfiles, hold⟩ := reachable_replaced (o := .create 5 1 0 [1]) (p := []) hboot
    (by decide +kernel) (by decide +kernel) (fun t ht => .inl ht) ⟨0, hfile⟩
  refine ⟨x, hx, ⟨0, _, tableAt_some.2 ?_, hold⟩,
    fun p s' q hrun => ((no_rollback ⟨16, true, true⟩ rfl 3 x hx).1 p s' q hrun).2⟩
  rw [hfiles]
  exact hfile

end Tfm.L4.Ps
