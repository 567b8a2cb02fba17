import Tfm.L4Service.PsRecover

/-!
# Protected Storage: power cuts with rollback protection

An operation writes the object to a free file, saves a table that names it, and
then removes the old table and the old file. The table file is the commit point:
up to it storage starts with the old objects, from it on with the new ones.

Results:
* `commit_wp`: a save, with what storage holds at each place it can be cut.
* `op_wp`: every operation, cut anywhere, leaves storage that starts with the
  objects from before it or from after it.
* `crash_atomic`: in every run that starts the partition only on storage with a
  table tagged with counter 1, storage can be started, with the right objects.
* `crash_atomic_fails_on_second_boot`: a cut between the increment and the write,
  and two starts.
-/
namespace Tfm.L4.Ps
open Tfm.Crash

variable {n : Nat} {F : Ev → Prop} {s : Sys n}

/-! ## Changing files and entries -/

theorem sameObjs_object {b : Body n} {i : Fin n} (f : Nat → Option (File n))
    (hi : (b.db i).uid = 0) (x : Option (File n)) :
    SameObjs b f (Function.update f (objectFid i.val) x) := by
  intro j hj
  refine Function.update_of_ne (fun he => hj ?_) _ _
  rw [Fin.ext (objectFid_inj he)]
  exact hi

theorem Good.object {files : Nat → Option (File n)} {nvc : Nvc → Nat} {a : Fin 2} {t : Table n}
    {i : Fin n} (h : Good files nvc a t) (hi : (t.body.db i).uid = 0) (x : Option (File n)) :
    Good (Function.update files (objectFid i.val) x) nvc a t :=
  h.congr (Function.update_of_ne (tableFid_ne_objectFid _ _) _ _)
    (.inl (Function.update_of_ne (tableFid_ne_objectFid _ _) _ _))
    (sameObjs_object files hi x) rfl h.le2 h.le3

theorem BodyOk.clear {f : Nat → Option (File n)} {b : Body n} (h : BodyOk f b) (i : Fin n) :
    BodyOk f (b.set i .empty) := by
  refine ⟨h.version, fun j hj => ?_, fun j hj => ?_⟩
  · by_cases hij : j = i
    · subst hij
      simp [Body.set, Entry.empty] at hj
    · simp only [Body.set, Function.update_of_ne hij] at hj ⊢
      exact h.objs j hj
  · by_cases hij : j = i
    · subst hij
      simp [Body.set]
    · simp only [Body.set, Function.update_of_ne hij] at hj ⊢
      exact h.clean j hj

/-- A new entry for a file that was just written. -/
theorem BodyOk.insert {f : Nat → Option (File n)} {b : Body n} {i : Fin n} {o : ObjFile}
    (h : BodyOk f b) (hi : (b.db i).uid = 0) {uid : Nat} (hu : uid ≠ 0) (c : Int) :
    BodyOk (Function.update f (objectFid i.val) (some (.object o)))
      (b.set i ⟨some ⟨o.iv, objectFid i.val, o.obj⟩, uid, c⟩) := by
  have h' := h.congr (sameObjs_object f hi (some (.object o)))
  refine ⟨h.version, fun j hj => ?_, fun j hj => ?_⟩
  · by_cases hij : j = i
    · subst hij
      exact ⟨o, Function.update_self .., by simp [Body.set]⟩
    · simp only [Body.set, Function.update_of_ne hij] at hj ⊢
      exact h'.objs j hj
  · by_cases hij : j = i
    · subst hij
      exact absurd hj (by simpa [Body.set] using hu)
    · simp only [Body.set, Function.update_of_ne hij] at hj ⊢
      exact h'.clean j hj

theorem Up.recov (h : Up s) : Recov s.files s.nvc s.view := ⟨_, _, .inl h.base.good, rfl⟩

/-- A file that no entry names, and the IV. -/
theorem Up.object {i : Fin n} (h : Up s) (hi : (s.table.body.db i).uid = 0)
    (x : Option (File n)) (iv : Iv) (hiv : iv.val ≤ 2 * s.nvc .c1 ∨ s.nvc .c1 = nvcMax)
    (u : List Iv) :
    Up { s with files := Function.update s.files (objectFid i.val) x, iv := iv, used := u } ∧
      viewOf s.table.body (Function.update s.files (objectFid i.val) x) = s.view := by
  refine ⟨⟨⟨h.base.good.object hi x, h.base.scratch, h.base.eq2, h.base.eq3, hiv⟩, ?_⟩, ?_⟩
  · exact (Function.update_of_ne (tableFid_ne_objectFid _ _) _ _).trans h.absent
  · exact viewOf_congr (sameObjs_object s.files hi x)

/-! ## The commit point -/

/-- The table `t` is in its file, the other table file is gone, and the table in
RAM can be saved. -/
structure Ready (s : Sys n) (t : Table n) : Prop where
  good : Good s.files s.nvc s.active t
  scratch : s.scratch = other s.active
  absent : s.files (tableFid s.scratch) = none
  eq2 : s.nvc .c2 = s.nvc .c1
  eq3 : s.nvc .c3 = s.nvc .c1
  lt : s.nvc .c1 < nvcMax
  iv : s.iv.val ≤ 2 * s.nvc .c1 + 1
  body : BodyOk s.files s.table.body

/-- A save of the table in RAM was completed. -/
structure Committed (s s' : Sys n) : Prop where
  base : Base s'
  body : s'.table.body = s.table.body
  old : ∃ u, s'.files (tableFid s'.scratch) = some u
  objs : ∀ i, s'.files (objectFid i) = s.files (objectFid i)

theorem Ready.stale {t : Table n} (h : Ready s t) {nvc : Nvc → Nat}
    (hn : nvc = (setNvc s .c1 (s.nvc .c1 + 1)).nvc) : Stale s.files nvc s.active t := by
  have h1 : nvc .c1 = s.nvc .c1 + 1 := by simp [hn, setNvc]
  have h2 : nvc .c2 = s.nvc .c1 := by simp [hn, setNvc, h.eq2]
  have h3 : nvc .c3 = s.nvc .c1 := by simp [hn, setNvc, h.eq3]
  have hlt := h.lt
  refine ⟨h.good.file, ?_, ?_, h.good.body, ?_, ?_, ?_, ?_⟩
  · rw [h3]
    exact h.good.auth
  · rw [← h.scratch]
    exact h.absent
  · rw [h2, h3]
  · rw [h1, h3]
  · rw [h3]
    exact h.good.pos
  · omega

/-- The storage a save leaves, whatever counters 2 and 3 got to. -/
theorem Ready.written {t : Table n} (h : Ready s t) {iv : Iv} (hiv : s.iv.next = some iv)
    {nvc : Nvc → Nat} (h1 : nvc .c1 = s.nvc .c1 + 1) (h2 : nvc .c2 ≤ s.nvc .c1 + 1)
    (h3 : nvc .c3 ≤ s.nvc .c1 + 1) {u : Table n}
    (hu : stampTable iv (some (s.nvc .c1 + 1)) s.table.body = u) :
    Good (Function.update s.files (tableFid s.scratch) (some (.table u))) nvc s.scratch u := by
  have hlt := h.lt
  have hsiv := h.iv
  have hval := Iv.next_some hiv
  subst hu
  refine ⟨Function.update_self .., ?_, ?_, ?_, ?_, ?_, ?_, ?_, ?_⟩
  · rw [h1]
    simp [stampTable, Table.auth]
  · intro w hw
    rw [h.scratch, other_other] at hw
    rw [Function.update_of_ne (fun he => other_ne _ (tableFid_inj he).symm), h.good.file] at hw
    cases hw
    refine auth_false_of_ne h.good.auth fun he => ?_
    rw [h1, Option.some.injEq] at he
    omega
  · exact h.body.congr (sameObjs_table _ _ _ _)
  · omega
  · omega
  · omega
  · omega
  · show iv.val ≤ 2 * nvc .c1
    omega

section NoFail

variable (hF : ¬ F .fail)
include hF

/-- A save: up to the write of the table file storage starts with the old table,
and from then on with the new one. -/
theorem commit_wp {cfg : Cfg} (hr : cfg.rollback = true) {t : Table n} (h : Ready s t) :
    wp F (psObjectTableSaveTable cfg) s
      ⟨fun _ s' => Committed s s', fun _ _ => False,
        fun s' => Cuts F ∧ (Recov s'.files s'.nvc (viewOf t.body s.files) ∨
          Recov s'.files s'.nvc (viewOf s.table.body s.files))⟩ := by
  have hlt := h.lt
  have hsiv := h.iv
  have hbound : s.iv.val < 2 ^ 96 - 1 := by
    unfold nvcMax at hlt
    omega
  obtain ⟨iv, hiv⟩ := Iv.next_of_lt hbound
  have hval := Iv.next_some hiv
  refine save_wp hF hr rfl (by omega) (by rw [h.eq2]; omega) (by rw [h.eq3]; omega) hiv rfl rfl
    ?_ ?_ ?_ ?_
  · refine ⟨⟨h.written hiv rfl (Nat.le_refl _) (Nat.le_refl _) rfl, ?_, rfl, rfl, .inl ?_⟩, rfl,
      ?_, fun i => ?_⟩
    · show s.active = other s.scratch
      rw [h.scratch, other_other]
    · show iv.val ≤ 2 * (s.nvc .c1 + 1)
      omega
    · refine ⟨.table t, ?_⟩
      show Function.update s.files (tableFid s.scratch) _ (tableFid s.active) = _
      rw [h.scratch, Function.update_of_ne fun he => other_ne _ (tableFid_inj he).symm]
      exact h.good.file
    · exact Function.update_of_ne (tableFid_ne_objectFid _ _).symm _ _
  · exact fun hc => ⟨hc, .inl ⟨_, _, .inl h.good, rfl⟩⟩
  · intro hc s' hf hn
    refine ⟨hc, .inl ⟨s.active, t, .inr ?_, ?_⟩⟩
    · rw [hf]
      exact h.stale hn
    · rw [hf]
  · intro hc s' x2 x3 hx2 hx3 hf hn
    refine ⟨hc, .inr ⟨s.scratch, stampTable iv (some (s.nvc .c1 + 1)) s.table.body, .inl ?_, ?_⟩⟩
    · rw [hf]
      refine h.written hiv ?_ ?_ ?_ rfl
      · simp [hn, setNvc]
      · simpa [hn, setNvc] using hx2
      · simpa [hn, setNvc] using hx3
    · rw [hf]
      exact viewOf_congr (sameObjs_table _ _ _ _)

/-- Removing the old table after a save. -/
theorem deleteOldTable_wp {u : File n} (h : Base s) (hold : s.files (tableFid s.scratch) = some u) :
    wp F psObjectTableDeleteOldTable s
      ⟨fun _ s' => Up s' ∧ s'.table = s.table ∧
          ∀ i, s'.files (objectFid i) = s.files (objectFid i),
        fun _ _ => False, fun s' => Cuts F ∧ s' = s⟩ := by
  refine wp_bind (wp_get (wp_itsRemove_some hF hold ?_ fun hc => ⟨hc, rfl⟩))
  have hne : tableFid s.active ≠ tableFid s.scratch := fun he => by
    rw [h.scratch] at he
    exact other_ne _ (tableFid_inj he).symm
  refine ⟨⟨⟨?_, h.scratch, h.eq2, h.eq3, h.iv⟩, Function.update_self ..⟩, rfl, fun i => ?_⟩
  · refine h.good.congr (Function.update_of_ne hne _ _) (.inr ?_) (sameObjs_table _ _ _ _) rfl
      h.good.le2 h.good.le3
    show Function.update s.files (tableFid s.scratch) none (tableFid (other s.active)) = none
    rw [h.scratch]
    exact Function.update_self ..
  · exact Function.update_of_ne (tableFid_ne_objectFid _ _).symm _ _

/-- Removing a file that the table does not name any more. -/
theorem removeObject_wp {i : Fin n} {x : File n} (h : Up s) (hi : (s.table.body.db i).uid = 0)
    (hx : s.files (objectFid i.val) = some x) :
    wp F (psaItsRemove (objectFid i.val)) s
      ⟨fun _ s' => Up s' ∧ s'.view = s.view, fun _ _ => False, fun s' => Cuts F ∧ s' = s⟩ :=
  wp_itsRemove_some hF hx (h.object hi none s.iv h.base.iv s.used) fun hc => ⟨hc, rfl⟩

/-- The old table, and the file of the old object. -/
def finish (old : Option Nat) : M n Unit :=
  match old with
  | none => psObjectTableDeleteOldTable
  | some fid => psRemoveOldData fid

/-- The end of an operation. -/
theorem finish_wp {s₀ : Sys n} {old : Option (Fin n)} (h : Committed s₀ s)
    (hold : ∀ i ∈ old, (s₀.table.body.db i).uid = 0 ∧ ∃ x, s₀.files (objectFid i.val) = some x) :
    wp F (finish (old.map fun i => objectFid i.val)) s
      ⟨fun _ s' => Up s' ∧ s'.view = s.view, fun _ _ => False,
        fun s' => Cuts F ∧ Recov s'.files s'.nvc s.view⟩ := by
  obtain ⟨u, hu⟩ := h.old
  have hview : ∀ s' : Sys n, s'.table = s.table → (∀ i, s'.files (objectFid i) = s.files (objectFid i)) →
      s'.view = s.view := by
    intro s' ht hobjs
    unfold Sys.view
    rw [ht]
    exact viewOf_congr fun i _ => hobjs i.val
  have hdel := deleteOldTable_wp hF h.base hu
  cases old with
  | none =>
    refine wp_mono hdel ?_ (fun _ _ h => h) ?_
    · intro _ s' hs'
      exact ⟨hs'.1, hview s' hs'.2.1 hs'.2.2⟩
    · intro s' hs'
      exact ⟨hs'.1, s.active, s.table, .inl (hs'.2 ▸ h.base.good), by rw [hs'.2]; rfl⟩
  | some i =>
    obtain ⟨hi, x, hx⟩ := hold i rfl
    refine wp_bind (wp_mono hdel ?_ (fun _ _ h => h) ?_)
    · intro _ s' hs'
      have hv := hview s' hs'.2.1 hs'.2.2
      have hi' : (s'.table.body.db i).uid = 0 := by
        rw [hs'.2.1, h.body]
        exact hi
      have hx' : s'.files (objectFid i.val) = some x := by
        rw [hs'.2.2, h.objs]
        exact hx
      refine wp_mono (removeObject_wp hF hs'.1 hi' hx') ?_ (fun _ _ h => h) ?_
      · intro _ s'' hs''
        exact ⟨hs''.1, hs''.2.trans hv⟩
      · intro s'' hs''
        refine ⟨hs''.1, ?_⟩
        rw [hs''.2, ← hv]
        exact hs'.1.recov
    · intro s' hs'
      exact ⟨hs'.1, s.active, s.table, .inl (hs'.2 ▸ h.base.good), by rw [hs'.2]; rfl⟩

/-! ## Object files -/

theorem getFreeFid_wp {num : Nat} {i : Fin n} {Q : Post PsaStatus (Sys n) Nat}
    (hi : tableFreeIdx s.table.body num (List.finRange n) = some i)
    (hok : Q.ok (objectFid i.val)
      { s with files := Function.update s.files (objectFid i.val) none })
    (hcut : Cuts F → Q.cut s) : wp F (psObjectTableGetFreeFid num) s Q := by
  refine wp_bind (wp_get ?_)
  simp only [hi]
  refine wp_bind (wp_itsRemove hF ?_ hcut)
  intro r h
  obtain rfl | rfl := h
  · exact wp_pure hok
  · exact wp_pure hok

theorem objectWrite_wp {fid : Nat} {obj : Obj} {iv : Iv} {Q : Post PsaStatus (Sys n) ObjTag}
    (hn : s.iv.next = some iv)
    (hok : Q.ok ⟨iv, fid, obj⟩ { s with
      files := Function.update s.files fid (some (.object ⟨iv, obj⟩))
      iv := iv
      used := iv :: s.used })
    (hcut : Cuts F → ∀ s', s'.files = s.files → s'.nvc = s.nvc → Q.cut s') :
    wp F (psEncryptedObjectWrite fid obj) s Q := by
  refine wp_bind (wp_setkey hF ?_ fun hc => hcut hc _ rfl rfl)
  refine wp_bind (wp_getIv hn ?_)
  refine wp_bind (wp_attempt (wp_ext_ok hF rfl ?_ fun hc => hcut hc _ rfl rfl))
  refine wp_bind (wp_destroykey hF ?_ fun hc => hcut hc _ rfl rfl)
  refine wp_bind (wp_itsSet hF ?_ fun hc => hcut hc _ rfl rfl)
  exact wp_pure hok

/-- All IVs were used. -/
theorem objectWrite_none {fid : Nat} {obj : Obj} {Q : Post PsaStatus (Sys n) ObjTag}
    (hn : s.iv.next = none) (herr : Q.err .genericError s) (hcut : Cuts F → Q.cut s) :
    wp F (psEncryptedObjectWrite fid obj) s Q := by
  refine wp_bind (wp_setkey hF ?_ hcut)
  refine wp_bind (wp_bind (wp_get ?_))
  simp only [hn]
  exact wp_throw herr

end NoFail

theorem tableFreeIdx_some {b : Body n} {i : Fin n} : ∀ {num : Nat} {is : List (Fin n)},
    tableFreeIdx b num is = some i → (b.db i).uid = 0 := by
  intro num is
  induction is generalizing num with
  | nil => exact fun h => by cases h
  | cons j is ih =>
    intro h
    unfold tableFreeIdx at h
    split at h
    · split at h
      · cases h
        assumption
      · exact ih h
    · exact ih h

/-- The object of a live entry can be read. -/
theorem read_wp (h : Up s) {i : Fin n} (hi : (s.table.body.db i).uid ≠ 0) :
    ∃ o, ∀ {F : Ev → Prop} {Q : Post PsaStatus (Sys n) Obj}, ¬ F .fail → Q.ok o s →
      (Cuts F → Q.cut s) →
        wp F (psEncryptedObjectRead (objectFid i.val) (s.table.body.db i).tag) s Q := by
  obtain ⟨o, hf, ht⟩ := h.base.good.body.objs i hi
  refine ⟨o.obj, fun {F Q} hF hok hcut => ?_⟩
  refine wp_bind (wp_itsGet_some hF hf ?_ hcut)
  refine wp_bind (wp_setkey hF ?_ hcut)
  refine wp_bind (wp_attempt (wp_ext_ok hF (if_pos ht) ?_ hcut))
  refine wp_bind (wp_destroykey hF ?_ hcut)
  exact wp_pure hok

/-! ## Changing the table -/

/-- The table in RAM, with other contents. -/
def withBody (s : Sys n) (b : Body n) : Sys n := { s with table := { s.table with body := b } }

/-- The entries after the old entry of an object was cleared. -/
def cleared (b : Body n) (uid : Nat) (c : Int) : Body n :=
  match getObjectEntryIdx b uid c with
  | some j => b.set j .empty
  | none => b

/-- The old entry, put back after a save that failed. -/
def restored (b₀ b : Body n) (uid : Nat) (c : Int) (i : Fin n) : Body n :=
  (match getObjectEntryIdx b₀ uid c with
    | some j => b.set j (b₀.db j)
    | none => b).set i .empty

theorem setInfo_wp [ItsSet n] {cfg : Cfg} {uid : Nat} {c : Int} {i : Fin n} {tag : ObjTag}
    {Q : Post PsaStatus (Sys n) Unit}
    (h : wp F (psObjectTableSaveTable cfg)
      (withBody s ((cleared s.table.body uid c).set i ⟨some tag, uid, c⟩))
      ⟨Q.ok, fun e s' => Q.err e (withBody s' (restored s.table.body s'.table.body uid c i)),
        Q.cut⟩) :
    wp F (psObjectTableSetObjTblInfo cfg uid c (objectFid i.val) tag) s Q := by
  have hidx : objectFidToIdx (objectFid i.val) = i.val := by simp [objectFidToIdx, objectFid]
  refine wp_bind (wp_get (wp_bind (wp_modify ?_)))
  have hlt : objectFidToIdx (objectFid i.val) < n := by
    rw [hidx]
    exact i.isLt
  have hfin : (⟨objectFidToIdx (objectFid i.val), hlt⟩ : Fin n) = i := Fin.ext hidx
  rw [dif_pos hlt, hfin]
  refine wp_bind (wp_modify (wp_bind (wp_attempt (wp_mono h ?_ ?_ fun _ hq => hq))))
  · exact fun _ _ hq => wp_pure hq
  · intro e s' hq
    dsimp only
    refine wp_bind (wp_get ?_)
    dsimp only
    refine wp_bind (wp_modify ?_)
    exact wp_throw hq

theorem getObjectEntryIdx_ne {b : Body n} {uid : Nat} {c : Int} {i j : Fin n} (hu : uid ≠ 0)
    (hj : getObjectEntryIdx b uid c = some j) (hi : (b.db i).uid = 0) : j ≠ i := by
  intro h
  subst h
  rw [(getObjectEntryIdx_some hj).1] at hi
  exact hu hi

theorem cleared_free {b : Body n} {uid : Nat} (c : Int) {i : Fin n} (hu : uid ≠ 0)
    (hi : (b.db i).uid = 0) : ((cleared b uid c).db i).uid = 0 := by
  unfold cleared
  cases hj : getObjectEntryIdx b uid c with
  | none => exact hi
  | some j =>
    have hne := getObjectEntryIdx_ne hu hj hi
    simpa [Body.set, Function.update_of_ne hne.symm] using hi

theorem restored_eq {b : Body n} {uid : Nat} (c : Int) {i : Fin n} (hu : uid ≠ 0)
    (hi : b.db i = .empty) (e : Entry) :
    restored b ((cleared b uid c).set i e) uid c i = b := by
  unfold restored cleared
  cases hj : getObjectEntryIdx b uid c with
  | none =>
    simp only [Body.set, Function.update_idem]
    rw [← hi, Function.update_eq_self]
  | some j =>
    have hne := getObjectEntryIdx_ne hu hj (by rw [hi]; rfl)
    simp only [Body.set]
    rw [Function.update_comm hne, Function.update_idem, Function.update_comm hne.symm,
      Function.update_idem, Function.update_eq_self, ← hi, Function.update_eq_self]

/-- The first step of a save with counter 1 at its maximum. -/
theorem save_max {cfg : Cfg} (hr : cfg.rollback = true) (hF : ¬ F .fail)
    (hmax : s.nvc .c1 = nvcMax) {Q : Post PsaStatus (Sys n) Unit} (herr : Q.err .genericError s)
    (hcut : Cuts F → Q.cut s) : wp F (psObjectTableSaveTable cfg) s Q := by
  refine wp_bind ?_
  unfold saveStamp
  rw [if_pos hr]
  exact wp_bind (wp_ext_error hF (if_pos hmax) herr hcut)

/-! ## Operations -/

/-- `v` is what is visible after `m`. A cut leaves storage that starts with that,
or with what was visible before. -/
def opPost (F : Ev → Prop) (s : Sys n) (v : View) : Post PsaStatus (Sys n) Unit where
  ok _ s' := Up s' ∧ s'.view = v
  err _ s' := Up s' ∧ s'.view = v
  cut s' := Cuts F ∧ (Recov s'.files s'.nvc s.view ∨ Recov s'.files s'.nvc v)

def Atomic (s : Sys n) (m : M n Unit) : Prop :=
  ∃ v, ∀ F : Ev → Prop, ¬ F .fail → wp F m s (opPost F s v)

theorem Atomic.throw (h : Up s) (e : PsaStatus) : Atomic s (Crash.throw e) :=
  ⟨s.view, fun _ _ => wp_throw ⟨h, rfl⟩⟩

theorem Atomic.read (h : Up s) {i : Fin n} (hi : (s.table.body.db i).uid ≠ 0)
    {k : Obj → M n Unit} (hk : ∀ o, Atomic s (k o)) :
    Atomic s (psEncryptedObjectRead (objectFid i.val) (s.table.body.db i).tag >>= k) := by
  obtain ⟨o, ho⟩ := read_wp h hi
  obtain ⟨v, hv⟩ := hk o
  exact ⟨v, fun F hF => wp_bind (ho hF (hv F hF) fun hc => ⟨hc, .inl h.recov⟩)⟩

/-- A save and the end of the operation. -/
theorem finish_save {cfg : Cfg} (hr : cfg.rollback = true) {s₀ : Sys n} {t : Table n}
    (h : Ready s t) (hv : viewOf t.body s.files = s₀.view) (old : Option (Fin n))
    (hold : ∀ i ∈ old, (s.table.body.db i).uid = 0 ∧ ∃ x, s.files (objectFid i.val) = some x)
    (hF : ¬ F .fail) :
    wp F (psObjectTableSaveTable cfg) s
      ⟨fun _ s' => wp F (finish (old.map fun i => objectFid i.val)) s' (opPost F s₀ s.view),
        fun _ _ => False, (opPost F s₀ s.view).cut⟩ := by
  refine wp_mono (commit_wp hF hr h) ?_ (fun _ _ h => h) ?_
  · intro _ s' hs'
    have hview : s'.view = s.view := by
      unfold Sys.view
      rw [hs'.body]
      exact viewOf_congr fun i _ => hs'.objs i.val
    refine wp_mono (finish_wp hF hs' hold) ?_ (fun _ _ h => h.elim) ?_
    · intro _ s'' hs''
      exact ⟨hs''.1, hs''.2.trans hview⟩
    · intro s'' hs''
      refine ⟨hs''.1, .inr ?_⟩
      rw [← hview]
      exact hs''.2
  · intro s' hs'
    rw [hv] at hs'
    exact hs'

/-- The running partition with an object written to a free file and the entry of
the object changed in RAM. -/
def stored (s : Sys n) (uid : Nat) (c : Int) (i : Fin n) (iv : Iv) (obj : Obj) : Sys n :=
  withBody { s with
      files := Function.update s.files (objectFid i.val) (some (.object ⟨iv, obj⟩))
      iv := iv
      used := iv :: s.used }
    ((cleared s.table.body uid c).set i ⟨some ⟨iv, objectFid i.val, obj⟩, uid, c⟩)

theorem stored_ready (h : Up s) (hlt : s.nvc .c1 < nvcMax) {uid : Nat} (hu : uid ≠ 0) (c : Int)
    {i : Fin n} (hi : (s.table.body.db i).uid = 0) {iv : Iv} (hiv : s.iv.next = some iv)
    (obj : Obj) : Ready (stored s uid c i iv obj) s.table := by
  have hval := Iv.next_some hiv
  have hsiv : s.iv.val ≤ 2 * s.nvc .c1 := by
    rcases h.base.iv with hle | hmax
    · exact hle
    · omega
  refine ⟨h.base.good.object hi _, h.base.scratch, ?_, h.base.eq2, h.base.eq3, hlt, ?_, ?_⟩
  · exact (Function.update_of_ne (tableFid_ne_objectFid _ _) _ _).trans h.absent
  · show iv.val ≤ 2 * s.nvc .c1 + 1
    omega
  · have hclear : BodyOk s.files (cleared s.table.body uid c) := by
      unfold cleared
      cases getObjectEntryIdx s.table.body uid c with
      | none => exact h.base.good.body
      | some j => exact h.base.good.body.clear j
    exact hclear.insert (cleared_free c hu hi) hu c

/-- The old file of an object that was stored again. -/
theorem stored_old (h : Up s) {uid : Nat} (hu : uid ≠ 0) {c : Int} {i j : Fin n}
    (hi : (s.table.body.db i).uid = 0) (hj : getObjectEntryIdx s.table.body uid c = some j)
    (iv : Iv) (obj : Obj) : ((stored s uid c i iv obj).table.body.db j).uid = 0 ∧
      ∃ x, (stored s uid c i iv obj).files (objectFid j.val) = some x := by
  have hne := getObjectEntryIdx_ne hu hj hi
  have hlive : (s.table.body.db j).uid ≠ 0 := by
    rw [(getObjectEntryIdx_some hj).1]
    exact hu
  constructor
  · simp [stored, withBody, cleared, hj, Body.set, Function.update_of_ne hne, Entry.empty]
  · obtain ⟨o, ho, -⟩ := h.base.good.body.objs j hlive
    refine ⟨.object o, ?_⟩
    show Function.update s.files _ _ _ = _
    rw [Function.update_of_ne fun he => hne (Fin.ext (objectFid_inj he))]
    exact ho

/-- With counter 1 at its maximum no table can be saved, and the object is removed
again. -/
theorem store_max {cfg : Cfg} (hr : cfg.rollback = true) (h : Up s)
    (hmax : s.nvc .c1 = nvcMax) {num uid : Nat} (hu : uid ≠ 0) {c : Int} {obj : Obj}
    {old : Option Nat} {i : Fin n} {iv : Iv}
    (hfree : tableFreeIdx s.table.body num (List.finRange n) = some i)
    (hiv : s.iv.next = some iv) (hF : ¬ F .fail) :
    wp F (storeObject cfg num uid c obj old) s (opPost F s s.view) := by
  have hi := tableFreeIdx_some hfree
  have hfile : ∀ x iv' u, Recov (Function.update s.files (objectFid i.val) x) s.nvc s.view ∧
      Up { s with files := Function.update s.files (objectFid i.val) x, iv := iv', used := u } := by
    intro x iv' u
    have hx := h.object hi x iv' (.inr hmax) u
    exact ⟨hx.2 ▸ hx.1.recov, hx.1⟩
  have hb := restored_eq c hu (h.base.good.body.clean i hi) ⟨some ⟨iv, objectFid i.val, obj⟩, uid, c⟩
  refine wp_bind (getFreeFid_wp hF hfree ?_ fun hc => ⟨hc, .inl h.recov⟩)
  refine wp_bind (objectWrite_wp hF hiv ?_ ?_)
  · dsimp only
    rw [Function.update_idem]
    refine wp_bind (wp_attempt (setInfo_wp (save_max hr hF (by exact hmax) ?_ ?_)))
    · dsimp only [withBody]
      rw [hb]
      refine wp_bind (wp_itsRemove hF ?_ ?_)
      · intro r _
        dsimp only
        rw [Function.update_idem]
        refine wp_throw ⟨(hfile none iv (iv :: s.used)).2, ?_⟩
        exact viewOf_congr (sameObjs_object s.files hi none)
      · exact fun hc => ⟨hc, .inl (hfile _ iv []).1⟩
    · exact fun hc => ⟨hc, .inl (hfile _ iv []).1⟩
  · intro hc s' hf hn
    refine ⟨hc, .inl ?_⟩
    rw [hf, hn]
    exact (hfile _ iv []).1

/-- Otherwise the table that names the new file is saved. -/
theorem store_commit {cfg : Cfg} (hr : cfg.rollback = true) (h : Up s)
    (hlt : s.nvc .c1 < nvcMax) {num uid : Nat} (hu : uid ≠ 0) {c : Int} {obj : Obj}
    {old : Option (Fin n)} (hold : getObjectEntryIdx s.table.body uid c = old) {i : Fin n} {iv : Iv}
    (hfree : tableFreeIdx s.table.body num (List.finRange n) = some i)
    (hiv : s.iv.next = some iv) (hF : ¬ F .fail) :
    wp F (storeObject cfg num uid c obj (old.map fun i => objectFid i.val)) s
      (opPost F s (stored s uid c i iv obj).view) := by
  have hi := tableFreeIdx_some hfree
  refine wp_bind (getFreeFid_wp hF hfree ?_ fun hc => ⟨hc, .inl h.recov⟩)
  refine wp_bind (objectWrite_wp hF hiv ?_ ?_)
  · dsimp only
    rw [Function.update_idem]
    refine wp_bind (wp_attempt (setInfo_wp ?_))
    have hview : viewOf s.table.body (stored s uid c i iv obj).files = s.view :=
      viewOf_congr (sameObjs_object s.files hi _)
    have hfin := finish_save hr (stored_ready h hlt hu c hi hiv obj) hview old
      (fun j hj => stored_old h hu hi (hold.trans hj) iv obj) hF
    exact wp_mono hfin (fun _ _ hq => hq) (fun _ _ hq => hq.elim) fun _ hq => hq
  · intro hc s' hf hn
    have h₁ := h.object hi none s.iv h.base.iv s.used
    refine ⟨hc, .inl ?_⟩
    rw [hf, hn, ← h₁.2]
    exact h₁.1.recov

theorem Atomic.store {cfg : Cfg} (hr : cfg.rollback = true) (h : Up s) {num uid : Nat}
    (hu : uid ≠ 0) {c : Int} {obj : Obj} {old : Option (Fin n)}
    (hold : getObjectEntryIdx s.table.body uid c = old) :
    Atomic s (storeObject cfg num uid c obj (old.map fun i => objectFid i.val)) := by
  cases hfree : tableFreeIdx s.table.body num (List.finRange n) with
  | none =>
    refine ⟨s.view, fun F _ => wp_bind (wp_bind (wp_get ?_))⟩
    simp only [hfree]
    exact wp_throw ⟨h, rfl⟩
  | some i =>
    cases hiv : s.iv.next with
    | none =>
      have h₁ := h.object (tableFreeIdx_some hfree) none s.iv h.base.iv s.used
      refine ⟨s.view, fun F hF => ?_⟩
      refine wp_bind (getFreeFid_wp hF hfree ?_ fun hc => ⟨hc, .inl h.recov⟩)
      refine wp_bind (objectWrite_none hF hiv h₁ fun hc => ⟨hc, .inl ?_⟩)
      rw [← h₁.2]
      exact h₁.1.recov
    | some iv =>
      by_cases hmax : s.nvc .c1 = nvcMax
      · exact ⟨_, fun F hF => store_max hr h hmax hu hfree hiv hF⟩
      · have hlt : s.nvc .c1 < nvcMax := by
          have := h.base.good.max
          omega
        exact ⟨_, fun F hF => store_commit hr h hlt hu hold hfree hiv hF⟩

theorem delete_ready (h : Up s) (hlt : s.nvc .c1 < nvcMax) (i : Fin n) :
    Ready (withBody s (s.table.body.set i .empty)) s.table := by
  refine ⟨h.base.good, h.base.scratch, h.absent, h.base.eq2, h.base.eq3, hlt, ?_,
    h.base.good.body.clear i⟩
  show s.iv.val ≤ 2 * s.nvc .c1 + 1
  rcases h.base.iv with hle | hmax
  · omega
  · omega

theorem Atomic.delete {cfg : Cfg} (hr : cfg.rollback = true) (h : Up s) {uid : Nat}
    (hu : uid ≠ 0) {c : Int} {i : Fin n} (hi : getObjectEntryIdx s.table.body uid c = some i) :
    Atomic s (do psObjectTableDeleteObject cfg uid c; psRemoveOldData (objectFid i.val)) := by
  have hlive : (s.table.body.db i).uid ≠ 0 := by
    rw [(getObjectEntryIdx_some hi).1]
    exact hu
  by_cases hmax : s.nvc .c1 = nvcMax
  · refine ⟨s.view, fun F hF => wp_bind (wp_bind (wp_get ?_))⟩
    dsimp only
    rw [hi]
    dsimp only
    refine wp_bind (wp_modify ?_)
    refine wp_bind (wp_attempt (save_max hr hF (by exact hmax) ?_ fun hc => ⟨hc, .inl h.recov⟩))
    dsimp only
    refine wp_bind (wp_get ?_)
    dsimp only
    refine wp_bind (wp_modify (wp_throw ?_))
    have hb : (s.table.body.set i .empty).set i (s.table.body.db i) = s.table.body := by
      simp only [Body.set, Function.update_idem, Function.update_eq_self]
    dsimp only
    rw [hb]
    exact ⟨h, rfl⟩
  · have hlt : s.nvc .c1 < nvcMax := by
      have := h.base.good.max
      omega
    refine ⟨(withBody s (s.table.body.set i .empty)).view, fun F hF => wp_bind (wp_bind (wp_get ?_))⟩
    dsimp only
    rw [hi]
    dsimp only
    refine wp_bind (wp_modify ?_)
    obtain ⟨o, ho, -⟩ := h.base.good.body.objs i hlive
    have hfin := finish_save hr (delete_ready h hlt i) rfl (some i) (by
      intro j hj
      cases hj
      exact ⟨by simp [withBody, Body.set, Entry.empty], _, ho⟩) hF
    refine wp_bind (wp_attempt (wp_mono hfin ?_ (fun _ _ hq => hq.elim) fun _ hq => hq))
    exact fun _ _ hq => wp_pure hq

/-- Every operation, cut anywhere, leaves storage that starts with the objects
from before it or from after it. -/
theorem op_wp {cfg : Cfg} (hr : cfg.rollback = true) (h : Up s) (o : Op) :
    Atomic s (o.run cfg) := by
  have hget : ∀ {k : Sys n → M n Unit}, Atomic s (k s) → Atomic s (Crash.get >>= k) :=
    fun ⟨v, hv⟩ => ⟨v, fun F hF => wp_bind (wp_get (hv F hF))⟩
  have hlive : ∀ {uid : Nat} {c : Int} {i : Fin n}, uid ≠ 0 →
      getObjectEntryIdx s.table.body uid c = some i → (s.table.body.db i).uid ≠ 0 := by
    intro uid c i hu hi
    rw [(getObjectEntryIdx_some hi).1]
    exact hu
  cases o with
  | create uid c flags data =>
    simp only [Op.run, psObjectCreate]
    split
    · exact .throw h _
    rename_i hu
    split
    · exact .throw h _
    split
    · exact .throw h _
    refine hget ?_
    split
    · rename_i i hi
      refine .read h (hlive hu hi) fun old => ?_
      split
      · exact .throw h _
      · exact .store hr h hu hi
    · rename_i hi
      exact .store hr h hu hi
  | write uid c offset data =>
    simp only [Op.run, psObjectWrite]
    split
    · exact .throw h _
    rename_i hu
    refine hget ?_
    split
    · exact .throw h _
    rename_i i hi
    refine .read h (hlive hu hi) fun old => ?_
    split
    · exact .throw h _
    split
    · exact .throw h _
    split
    · exact .throw h _
    · exact .store hr h hu hi
  | delete uid c =>
    simp only [Op.run, psObjectDelete]
    split
    · exact .throw h _
    rename_i hu
    refine hget ?_
    split
    · exact .throw h _
    rename_i i hi
    refine .read h (hlive hu hi) fun old => ?_
    split
    · exact .throw h _
    · exact .delete hr h hu hi

/-! ## Runs -/

def Lbl.plan : Lbl → List Ev
  | .op _ p => p
  | .boot p => p
  | .off => []

/-- No call fails; the power may be cut anywhere. -/
def NoFault (_ : Dev n) (l : Lbl) : Prop := ∀ e ∈ l.plan, e ≠ .fail

/-- There is a table tagged with the value of counter 1. -/
def Fresh (s : Sys n) : Prop := ∃ a t, tableAt s.files a = some t ∧ t.auth (some (s.nvc .c1)) = true

/-- The partition is started only on storage with such a table. -/
def FreshBoot (d : Dev n) : Lbl → Prop
  | .boot _ => Fresh d.sys
  | _ => True

instance (d : Dev n) (l : Lbl) : Decidable (NoFault d l) :=
  inferInstanceAs (Decidable (∀ e ∈ l.plan, e ≠ .fail))

instance (s : Sys n) : Decidable (Fresh s) :=
  decidable_of_iff (∃ a, (tableAt s.files a).any (·.auth (some (s.nvc .c1))) = true) <| by
    simp [Fresh, Option.any_eq_true]

instance (d : Dev n) (l : Lbl) : Decidable (FreshBoot d l) :=
  match l with
  | .boot _ => inferInstanceAs (Decidable (Fresh d.sys))
  | .op _ _ | .off => isTrue trivial

/-- A start that is not cut succeeds, with the objects from before or from after
the interrupted operation. -/
def Recovers (cfg : Cfg) (d : Dev n) : Prop :=
  ∃ s' p, psSystemPrepare cfg d.sys.reset [] = .ok () s' p ∧
    (s'.view = d.before ∨ s'.view = d.after)

structure DevInv (d : Dev n) : Prop where
  up : d.up = true → Up d.sys ∧ d.before = d.sys.view ∧ d.after = d.sys.view
  down : d.up = false → Recov d.sys.files d.sys.nvc d.before ∨ Recov d.sys.files d.sys.nvc d.after

theorem DevInv.settled (h : Up s) : DevInv (.settled s) :=
  ⟨fun _ => ⟨h, rfl, rfl⟩, fun hd => by cases hd⟩

theorem DevInv.recov {d : Dev n} (h : DevInv d) :
    Recov d.sys.files d.sys.nvc d.before ∨ Recov d.sys.files d.sys.nvc d.after := by
  cases hu : d.up with
  | true =>
    obtain ⟨hup, hb, -⟩ := h.up hu
    rw [hb]
    exact .inl hup.recov
  | false => exact h.down hu

theorem Stale.not_fresh {a : Fin 2} {t : Table n} (h : Stale s.files s.nvc a t) : ¬ Fresh s := by
  intro hx
  obtain ⟨b, u, hu, hauth⟩ := hx
  rw [tableAt_some] at hu
  have heq := h.eq1
  by_cases hab : b = a
  · subst hab
    rw [h.file] at hu
    cases hu
    have := auth_inj h.auth hauth
    rw [Option.some.injEq] at this
    omega
  · have hb : b = other a := by
      match a, b with
      | 0, 0 => exact absurd rfl hab
      | 0, 1 => rfl
      | 1, 0 => rfl
      | 1, 1 => exact absurd rfl hab
    rw [hb, h.absent] at hu
    cases hu

/-- What completing the operation makes visible. -/
theorem op_quiet {m : M n Unit} {v : View} (h : wp Quiet m s (opPost Quiet s v)) :
    (m s []).state.view = v :=
  wp_quiet_state (P := fun s' => s'.view = v) h (fun _ _ h => h.2) (fun _ _ h => h.2)
    fun _ h => not_cuts_quiet h.1

/-- The table of a new flash layout. -/
def emptyBody (n : Nat) : Body n := { Body.zero n with version := objectSystemVersion }

theorem emptyBody_ok (f : Nat → Option (File n)) : BodyOk f (emptyBody n) :=
  ⟨rfl, fun _ h => absurd rfl h, fun _ _ => rfl⟩

theorem viewOf_emptyBody (f : Nat → Option (File n)) :
    viewOf (emptyBody n) f = fun _ _ => none := by
  funext uid c
  unfold viewOf lookup
  split
  · rfl
  · rename_i hu
    cases hi : getObjectEntryIdx (emptyBody n) uid c with
    | none => rfl
    | some i => exact absurd (getObjectEntryIdx_some hi).1.symm hu

section Rollback

variable {cfg : Cfg} (hr : cfg.rollback = true)
include hr

theorem inv_op {d d' : Dev n} {o : Op} {p : List Ev} (h : DevInv d) (hp : ∀ e ∈ p, e ≠ .fail)
    (hs : step cfg d (.op o p) = some d') : DevInv d' := by
  simp only [step] at hs
  split at hs
  · rename_i hu
    obtain ⟨v, hv⟩ := op_wp hr (h.up hu).1 o
    have hafter := op_quiet (hv Quiet (fun h => by cases h))
    have hrun := hv NoFail (fun h => h rfl) p hp
    revert hs hrun
    cases o.run cfg d.sys p with
    | ok a s' q =>
      intro hs hrun
      cases hs
      exact .settled hrun.1.1
    | err e s' q =>
      intro hs hrun
      cases hs
      exact .settled hrun.1.1
    | cut s' =>
      intro hs hrun
      cases hs
      refine ⟨fun hd => (by cases hd), fun _ => ?_⟩
      rw [hafter]
      exact hrun.2
  · cases hs

theorem inv_boot {d d' : Dev n} {p : List Ev} (h : DevInv d) (hp : ∀ e ∈ p, e ≠ .fail)
    (hfresh : Fresh d.sys) (hs : step cfg d (.boot p) = some d') : DevInv d' := by
  simp only [step] at hs
  split at hs
  · cases hs
  · rename_i hu
    have hgood : ∃ a t, Good d.sys.files d.sys.nvc a t ∧
        (viewOf t.body d.sys.files = d.before ∨ viewOf t.body d.sys.files = d.after) := by
      rcases h.recov with ⟨a, t, hg | hst, hv⟩ | ⟨a, t, hg | hst, hv⟩
      · exact ⟨a, t, hg, .inl hv⟩
      · exact absurd hfresh hst.not_fresh
      · exact ⟨a, t, hg, .inr hv⟩
      · exact absurd hfresh hst.not_fresh
    obtain ⟨a, t, hg, hv⟩ := hgood
    have hrun := tfmPsInit_prepared (boot_good (F := NoFail) (fun h => h rfl) hr hg)
      (fun _ _ h => h) p hp
    revert hs hrun
    cases tfmPsInit cfg d.sys p with
    | ok b s' q =>
      intro hs hrun
      cases hs
      exact .settled hrun.1.1
    | err e s' q => exact fun _ hrun => hrun.1.elim
    | cut s' =>
      intro hs hrun
      cases hs
      refine ⟨fun hd => (by cases hd), fun _ => ?_⟩
      rw [← hrun.2.2] at hv
      exact hv.imp (fun hv => ⟨a, t, .inl hrun.2.1, hv⟩) fun hv => ⟨a, t, .inl hrun.2.1, hv⟩

theorem inv_step {d d' : Dev n} {l : Lbl} (h : DevInv d) (hl : NoFault d l) (hb : FreshBoot d l)
    (hs : step cfg d l = some d') : DevInv d' := by
  cases l with
  | op o p => exact inv_op hr h hl hs
  | boot p => exact inv_boot hr h hl hb hs
  | off =>
    simp only [step] at hs
    split at hs
    · cases hs
      exact ⟨fun hd => (by cases hd), fun _ => h.recov⟩
    · cases hs

/-- The flash layout as `ps_system_wipe_all` creates it. -/
theorem wipeAll_wp : wp Quiet (psSystemWipeAll cfg) (blank n)
    ⟨fun _ s' => Recov s'.files s'.nvc fun _ _ => none, fun _ _ => False, fun _ => False⟩ := by
  have hnc : ∀ {P : Prop}, Cuts Quiet → P := fun h => absurd h not_cuts_quiet
  refine wp_bind (wp_modify ?_)
  refine save_wp (v := 1) (t := stampTable ⟨1, 0⟩ (some 1) (emptyBody n)) (fun h => by cases h) hr
    rfl (by decide) (Nat.zero_le 1) (Nat.zero_le 1) rfl rfl rfl ?_ hnc hnc hnc
  refine ⟨0, stampTable ⟨1, 0⟩ (some 1) (emptyBody n), .inl ?_, viewOf_emptyBody _⟩
  refine ⟨rfl, ?_, ?_, emptyBody_ok _, Nat.le_refl 1, Nat.le_refl 1, Nat.le_refl 1, ?_, ?_⟩
  · simp [stampTable, Table.auth, saved]
  · intro u hu
    cases hu
  · show 1 ≤ nvcMax
    decide
  · show Iv.val ⟨1, 0⟩ ≤ 2 * 1
    decide

theorem inv_init : DevInv (init cfg n) := by
  obtain ⟨a, s', p, hrun, hrec⟩ := wp_quiet (wipeAll_wp (n := n) hr) (fun _ _ h => h) fun _ h => h
  refine ⟨fun h => (by cases h), fun _ => .inl ?_⟩
  unfold init
  rw [hrun]
  exact hrec

theorem inv_inductive :
    ((lts cfg n).restrict fun d l => NoFault d l ∧ FreshBoot d l).Inductive DevInv where
  init := fun _ hd => hd ▸ inv_init hr
  step := fun _ _ _ h hs => inv_step hr h hs.1.1 hs.1.2 hs.2

theorem recov_starts {v : View} (h : Recov s.files s.nvc v) :
    ∃ s' p, psSystemPrepare cfg s.reset [] = .ok () s' p ∧ s'.view = v := by
  obtain ⟨a, t, hgs, rfl⟩ := h
  have hq : ¬ Quiet .fail := fun h => by cases h
  have hwp : wp Quiet (psSystemPrepare cfg) s.reset
      ⟨fun _ s' => s'.view = viewOf t.body s.files, fun _ _ => False, fun _ => Cuts Quiet⟩ := by
    rcases hgs with hg | hst
    · exact wp_mono (boot_good hq hr (s := s.reset) hg) (fun _ _ h => h.2) (fun _ _ h => h)
        fun _ h => h.1
    · exact boot_stale hq hr (s := s.reset) hst
  obtain ⟨_, s', p, hrun, hv⟩ := wp_quiet hwp (fun _ _ h => h) fun _ => not_cuts_quiet
  exact ⟨s', p, hrun, hv⟩

theorem DevInv.recovers {d : Dev n} (h : DevInv d) : Recovers cfg d := by
  rcases h.recov with hb | ha
  · obtain ⟨s', p, hs', hv⟩ := recov_starts hr hb
    exact ⟨s', p, hs', .inl hv⟩
  · obtain ⟨s', p, hs', hv⟩ := recov_starts hr ha
    exact ⟨s', p, hs', .inr hv⟩

end Rollback

/-- **Crash atomicity.** In every run without failing calls, with the power cut
anywhere, in which the partition is started only on storage with a table tagged
with counter 1: a start that is not cut succeeds, and what is visible is what was
visible before or after the interrupted operation. -/
theorem crash_atomic (cfg : Cfg) (hr : cfg.rollback = true) (n : Nat) (d : Dev n)
    (h : ((lts cfg n).restrict fun d l => NoFault d l ∧ FreshBoot d l).Reachable d) :
    Recovers cfg d :=
  (inv_inductive hr).reachable d h |>.recovers hr

/-- A create that is cut after the table file was written, and a start that is cut. -/
theorem crash_atomic_on_cut_create :
    ∃ d, ((lts ⟨16, true, true⟩ 3).restrict fun d l => NoFault d l ∧ FreshBoot d l).Reachable d ∧
      d.before 5 1 = none ∧ (d.after 5 1).isSome = true ∧ Recovers ⟨16, true, true⟩ d := by
  have he : (LTS.execC (fun d l => decide (NoFault d l ∧ FreshBoot d l)) (step ⟨16, true, true⟩)
      (init ⟨16, true, true⟩ 3)
      [.boot [], .op (.create 5 1 0 [1, 2]) (List.replicate 13 .ok ++ [.cut 0]),
        .boot [.cut 0]]).map (fun d => (d.before 5 1, (d.after 5 1).isSome)) = some (none, true) := by decide +kernel
  obtain ⟨d, hd, hv⟩ := Option.map_eq_some_iff.1 he
  have hreach : ((lts ⟨16, true, true⟩ 3).restrict
      fun d l => NoFault d l ∧ FreshBoot d l).Reachable d :=
    LTS.reachable_execC (fun _ _ h => of_decide_eq_true h) _ rfl hd
  simp only [Prod.mk.injEq] at hv
  exact ⟨d, hreach, hv.1, hv.2, crash_atomic ⟨16, true, true⟩ rfl 3 d hreach⟩

/-- Whether a start that is not cut succeeds. -/
def starts (cfg : Cfg) (s : Sys n) : Bool :=
  match psSystemPrepare cfg s.reset [] with
  | .ok _ _ _ => true
  | _ => false

theorem Recovers.starts {cfg : Cfg} {d : Dev n} (h : Recovers cfg d) : starts cfg d.sys = true := by
  obtain ⟨s', p, hs', -⟩ := h
  unfold Ps.starts
  rw [hs']

/-- Without the condition: an operation is cut after the increment of counter 1.
The next start accepts the old table and raises counters 2 and 3; then no start
succeeds. -/
theorem crash_atomic_fails_on_second_boot :
    ¬ ∀ (cfg : Cfg) (n : Nat) (d : Dev n), cfg.rollback = true →
      ((lts cfg n).restrict NoFault).Reachable d → Recovers cfg d := by
  intro h
  have he : (LTS.execC (fun d l => decide (NoFault d l)) (step ⟨16, true, true⟩)
      (init ⟨16, true, true⟩ 3)
      [.boot [], .op (.create 5 1 0 [1, 2]) (List.replicate 7 .ok ++ [.cut 0]), .boot []]).map
      (fun d => (d.up, starts ⟨16, true, true⟩ d.sys)) = some (true, false) := by decide +kernel
  obtain ⟨d, hd, hv⟩ := Option.map_eq_some_iff.1 he
  have hreach : ((lts ⟨16, true, true⟩ 3).restrict NoFault).Reachable d :=
    LTS.reachable_execC (fun _ _ h => of_decide_eq_true h) _ rfl hd
  have hs := (h ⟨16, true, true⟩ 3 d rfl hreach).starts
  simp only [Prod.mk.injEq] at hv
  rw [hs] at hv
  cases hv.2

end Tfm.L4.Ps
