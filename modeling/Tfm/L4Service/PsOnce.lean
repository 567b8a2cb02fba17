import Tfm.L4Service.PsRollback

/-!
# Protected Storage: write-once objects

`PSA_STORAGE_FLAG_WRITE_ONCE` is kept inside the encrypted object, so it is
enforced by reading the object first: an operation on it either cannot read it or
finds the flag. What remains is that no other operation takes the object away. The
create that returned success wrote the table that names the object and removed the
older table file, so from then on every table file names it, whichever one a start
selects; an operation on another object clears and sets other entries only, and a
new object goes to a file whose entry is free.

Nothing is assumed about the calls that fail: calls to ITS, to the crypto service
and to the counters, in operations and in starts. A start that fails and then creates
the flash layout gives the objects up.

Results:
* `save_once`, `store_once`, `op_once`: what a save and an operation keep.
* `prepare_once`: a start.
* `write_once`: in every run, an object that was created write-once is as it was
  created, and no operation on it succeeds.
-/
namespace Tfm.L4.Ps
open Tfm.Crash

variable {n : Nat} {cfg : Cfg} {s : Sys n}

/-! ## Objects that stay -/

/-- An object, its entry and its file. -/
structure Pin (n : Nat) where
  uid : Nat
  clientId : Int
  idx : Fin n
  file : ObjFile
  named : uid ≠ 0

def Pin.entry (p : Pin n) : Entry :=
  ⟨some ⟨p.file.iv, objectFid p.idx.val, p.file.obj⟩, p.uid, p.clientId⟩

/-- A table that names the objects. -/
structure Names (L : List (Pin n)) (b : Body n) : Prop where
  uniq : Uniq b
  entry : ∀ p ∈ L, b.db p.idx = p.entry

/-- Storage in which every table names the objects. -/
structure Fixed (L : List (Pin n)) (files : Nat → Option (File n)) : Prop where
  tables : ∀ a t, files (tableFid a) = some (.table t) → Names L t.body
  objs : ∀ p ∈ L, files (objectFid p.idx.val) = some (.object p.file)

/-- The running partition. -/
structure Keeping (L : List (Pin n)) (s : Sys n) : Prop where
  fixed : Fixed L s.files
  names : Names L s.table.body
  scratch : s.scratch ≠ s.active

variable {L : List (Pin n)}

theorem Names.congr {b b' : Body n} (h : Names L b) (hdb : b'.db = b.db) : Names L b' := by
  refine ⟨h.uniq.db_congr hdb, fun p hp => ?_⟩
  rw [hdb]
  exact h.entry p hp

theorem Names.not_free {b : Body n} (h : Names L b) {j : Fin n} (hj : (b.db j).uid = 0) :
    ∀ p ∈ L, p.idx ≠ j := by
  intro p hp he
  have hu := congrArg Entry.uid (h.entry p hp)
  rw [he, hj] at hu
  exact p.named hu.symm

theorem Names.not_other {b : Body n} (h : Names L b) {uid : Nat} {c : Int}
    (hL : ∀ p ∈ L, ¬ (p.uid = uid ∧ p.clientId = c)) {j : Fin n}
    (hj : getObjectEntryIdx b uid c = some j) : ∀ p ∈ L, p.idx ≠ j := by
  intro p hp he
  obtain ⟨hu, hc⟩ := getObjectEntryIdx_some hj
  rw [← he, h.entry p hp] at hu hc
  exact hL p hp ⟨hu, hc⟩

theorem Names.idx {b : Body n} (h : Names L b) {p : Pin n} (hp : p ∈ L) :
    getObjectEntryIdx b p.uid p.clientId = some p.idx := by
  refine getObjectEntryIdx_uniq h.uniq p.named ?_
  rw [h.entry p hp]
  exact ⟨rfl, rfl⟩

theorem Names.subset {L' : List (Pin n)} {b : Body n} (h : Names L' b) (hL : L ⊆ L') : Names L b :=
  ⟨h.uniq, fun p hp => h.entry p (hL hp)⟩

/-- Clearing an entry of another object. -/
theorem Names.clear {b : Body n} (h : Names L b) {j : Fin n} (hj : ∀ p ∈ L, p.idx ≠ j) :
    Names L (b.set j .empty) := by
  refine ⟨h.uniq.clear j, fun p hp => ?_⟩
  simp only [Body.set, Function.update_of_ne (hj p hp)]
  exact h.entry p hp

theorem Names.cleared {b : Body n} (h : Names L b) {uid : Nat} {c : Int}
    (hL : ∀ p ∈ L, ¬ (p.uid = uid ∧ p.clientId = c)) : Names L (cleared b uid c) := by
  unfold Ps.cleared
  cases hj : getObjectEntryIdx b uid c with
  | none => exact h
  | some j => exact h.clear (h.not_other hL hj)

/-- A new entry. -/
theorem Names.insert {b : Body n} (h : Names L b) {uid : Nat} {c : Int} (hu : uid ≠ 0)
    (hL : ∀ p ∈ L, ¬ (p.uid = uid ∧ p.clientId = c)) {j : Fin n} (hj : (b.db j).uid = 0)
    (tag : Option ObjTag) : Names L ((Ps.cleared b uid c).set j ⟨tag, uid, c⟩) := by
  have hcl := h.cleared hL
  refine ⟨hcl.uniq.insert (cleared_names h.uniq hu), fun p hp => ?_⟩
  simp only [Body.set, Function.update_of_ne (h.not_free hj p hp)]
  exact hcl.entry p hp

theorem Fixed.subset {L' : List (Pin n)} {f : Nat → Option (File n)} (h : Fixed L' f)
    (hL : L ⊆ L') : Fixed L f :=
  ⟨fun a t ht => (h.tables a t ht).subset hL, fun p hp => h.objs p (hL hp)⟩

theorem Fixed.table {f : Nat → Option (File n)} (h : Fixed L f) (a : Fin 2) {t : Table n}
    (ht : Names L t.body) : Fixed L (Function.update f (tableFid a) (some (.table t))) := by
  refine ⟨fun x u hx => ?_, fun p hp => ?_⟩
  · by_cases hxa : tableFid x = tableFid a
    · rw [hxa, Function.update_self] at hx
      cases hx
      exact ht
    · rw [Function.update_of_ne hxa] at hx
      exact h.tables x u hx
  · rw [Function.update_of_ne (tableFid_ne_objectFid _ _).symm]
    exact h.objs p hp

theorem Fixed.removeTable {f : Nat → Option (File n)} (h : Fixed L f) (a : Fin 2) :
    Fixed L (Function.update f (tableFid a) none) := by
  refine ⟨fun x u hx => ?_, fun p hp => ?_⟩
  · by_cases hxa : tableFid x = tableFid a
    · rw [hxa, Function.update_self] at hx
      cases hx
    · rw [Function.update_of_ne hxa] at hx
      exact h.tables x u hx
  · rw [Function.update_of_ne (tableFid_ne_objectFid _ _).symm]
    exact h.objs p hp

theorem Fixed.object {f : Nat → Option (File n)} (h : Fixed L f) {j : Fin n}
    (hj : ∀ p ∈ L, p.idx ≠ j) (x : Option (File n)) :
    Fixed L (Function.update f (objectFid j.val) x) := by
  refine ⟨fun a t ht => ?_, fun p hp => ?_⟩
  · rw [Function.update_of_ne (tableFid_ne_objectFid _ _)] at ht
    exact h.tables a t ht
  · have hne : objectFid p.idx.val ≠ objectFid j.val := fun he => hj p hp (Fin.ext (objectFid_inj he))
    rw [Function.update_of_ne hne]
    exact h.objs p hp

/-! ## A save -/

/-- What the table functions before and after the write of the table leave. -/
structure Same (s t : Sys n) : Prop where
  db : t.table.body.db = s.table.body.db
  files : t.files = s.files
  active : t.active = s.active
  scratch : t.scratch = s.scratch

theorem Same.refl (s : Sys n) : Same s s := ⟨rfl, rfl, rfl, rfl⟩

theorem Same.keeping {t : Sys n} (h : Same s t) (hs : Keeping L s) : Keeping L t := by
  refine ⟨?_, hs.names.congr h.db, ?_⟩
  · rw [h.files]
    exact hs.fixed
  · rw [h.scratch, h.active]
    exact hs.scratch

/-- A call that leaves tables, files and indices. -/
theorem ext_same {α : Type} {e : PsaStatus} {f : Sys n → Except PsaStatus α × Sys n}
    (hf : ∀ t, Same t (f t).2) : Keeps (Same s) (ext e f) := by
  refine .call (fun t ht => ?_) fun _ _ ht => ht
  obtain ⟨h1, h2, h3, h4⟩ := hf t
  exact ⟨h1.trans ht.db, h2.trans ht.files, h3.trans ht.active, h4.trans ht.scratch⟩

theorem modify_same {f : Sys n → Sys n} (hf : ∀ t, Same t (f t)) :
    Keeps (Same s) (modify f : M n Unit) := by
  refine .modify fun t ht => ?_
  obtain ⟨h1, h2, h3, h4⟩ := hf t
  exact ⟨h1.trans ht.db, h2.trans ht.files, h3.trans ht.active, h4.trans ht.scratch⟩

theorem inc_same (c : Nvc) : Keeps (Same s) (psIncrementNvCounter (n := n) c) := by
  refine ext_same fun t => ?_
  split
  · exact .refl t
  · exact ⟨rfl, rfl, rfl, rfl⟩

theorem readNvc_same (c : Nvc) : Keeps (Same s) (psReadNvCounter (n := n) c) :=
  ext_same fun t => .refl t

theorem setkey_same : Keeps (Same s) (psCryptoSetkey (n := n)) := ext_same fun t => .refl t

theorem destroykey_same : Keeps (Same s) (psCryptoDestroykey (n := n)) := ext_same fun t => .refl t

theorem saveStamp_same (cfg : Cfg) : Keeps (Same s) (saveStamp (n := n) cfg) := by
  unfold saveStamp
  split
  · exact (inc_same .c1).bind fun _ => (readNvc_same .c1).bind fun v => .pure _
  · refine .bind (modify_same ?_) fun _ => .pure _
    exact fun t => ⟨rfl, rfl, rfl, rfl⟩

theorem generateAuthTag_same (nvc : Option Nat) :
    Keeps (Same s) (psObjectTableGenerateAuthTag (n := n) nvc) := by
  have hiv : Keeps (Same s) (psCryptoGetIv (n := n)) := by
    refine .get fun t => ?_
    split
    · exact .throw _
    · refine .bind (modify_same ?_) fun _ => .pure _
      exact fun t => ⟨rfl, rfl, rfl, rfl⟩
  refine hiv.bind fun iv => .bind (modify_same ?_) fun _ => .get fun t => ?_
  · exact fun t => ⟨rfl, rfl, rfl, rfl⟩
  · refine .bind (ext_same ?_) fun tag => modify_same ?_
    · exact fun t => ⟨rfl, rfl, rfl, rfl⟩
    · exact fun t => ⟨rfl, rfl, rfl, rfl⟩

theorem align_same (v : Nat) : Keeps (Same s) (psObjectTableAlignNvCounters (n := n) v) := by
  have hinc : ∀ c k, Keeps (Same s) (incrementNvCounter (n := n) c k) := by
    intro c k
    induction k with
    | zero => exact .pure ()
    | succ k ih => exact (inc_same c).bind fun _ => ih
  have hal : ∀ c, Keeps (Same s) (alignNvCounter (n := n) c v) := fun c =>
    (readNvc_same c).bind fun x => hinc c _
  exact (hal .c2).bind fun _ => hal .c3

/-- A program that leaves tables, files and indices, and what comes after it. -/
theorem wp_same {α β : Type} {t : Sys n} {m : M n α} {f : α → M n β} {Q : Post PsaStatus (Sys n) β}
    (hm : Keeps (Same s) m) (ht : Same s t) (hok : ∀ a t', Same s t' → wp AnyEv (f a) t' Q)
    (herr : ∀ e t', Same s t' → Q.err e t') (hcut : ∀ t', Same s t' → Q.cut t') :
    wp AnyEv (m >>= f) t Q :=
  wp_bind (wp_mono (hm AnyEv t ht) hok herr hcut)

/-- The table in RAM was written, and no file of an object was touched. -/
structure Saved (s s' : Sys n) : Prop where
  db : s'.table.body.db = s.table.body.db
  files : ∃ t, t.body.db = s.table.body.db ∧
    s'.files = Function.update s.files (tableFid s.scratch) (some (.table t))
  active : s'.active = s.scratch
  scratch : s'.scratch = s.active

theorem Saved.keeping {s' : Sys n} (h : Saved s s') (hs : Keeping L s) : Keeping L s' := by
  obtain ⟨t, ht, hf⟩ := h.files
  refine ⟨?_, hs.names.congr h.db, ?_⟩
  · rw [hf]
    exact hs.fixed.table s.scratch (hs.names.congr ht)
  · rw [h.scratch, h.active]
    exact hs.scratch.symm

/-- A save, whatever fails: before or after the write of the table. -/
theorem save_once (cfg : Cfg) (s : Sys n) :
    wp AnyEv (psObjectTableSaveTable cfg) s
      ⟨fun _ s' => Saved s s', fun _ s' => Same s s' ∨ Saved s s',
        fun s' => Same s s' ∨ Saved s s'⟩ := by
  have hl : ∀ t, Same s t → Same s t ∨ Saved s t := fun _ h => .inl h
  refine wp_same (saveStamp_same cfg) (.refl s) (fun nvc t₁ h₁ => ?_) (fun _ => hl) hl
  refine wp_same setkey_same h₁ (fun _ t₂ h₂ => ?_) (fun _ => hl) hl
  refine wp_same (generateAuthTag_same nvc).attempt h₂ (fun r t₃ h₃ => ?_) (fun _ => hl) hl
  cases r with
  | error e =>
    exact wp_same destroykey_same.attempt h₃ (fun _ t₄ h₄ => wp_throw (hl t₄ h₄)) (fun _ => hl) hl
  | ok _ =>
    refine wp_same destroykey_same h₃ (fun _ t₄ h₄ => ?_) (fun _ => hl) hl
    refine wp_bind (wp_bind (wp_get (wp_bind ?_)))
    show wp AnyEv (psaItsSet _ _) t₄ _
    refine wp_ext ?_ ?_ (fun _ => hl t₄ h₄) fun _ => hl t₄ h₄
    · intro a t₅ ht
      cases ht
      dsimp only
      refine wp_modify ?_
      -- the table is written: what is left is the alignment of the counters
      have hw : ∀ t, Same { t₄ with
          files := Function.update t₄.files (tableFid t₄.scratch) (some (.table t₄.table))
          scratch := t₄.active
          active := t₄.scratch } t → Saved s t := by
        intro t ht
        refine ⟨ht.db.trans h₄.db, ⟨t₄.table, h₄.db, ?_⟩, ht.active.trans h₄.scratch,
          ht.scratch.trans h₄.active⟩
        rw [ht.files, h₄.files, h₄.scratch]
      cases nvc with
      | none => exact wp_pure (hw _ (.refl _))
      | some v =>
        exact wp_mono (align_same v AnyEv _ (.refl _)) (fun _ t h => hw t h)
          (fun _ t h => .inr (hw t h)) fun t h => .inr (hw t h)
    · intro e t₅ ht
      cases ht

/-! ## Removing files -/

theorem Keeping.subset {L' : List (Pin n)} (h : Keeping L' s) (hL : L ⊆ L') : Keeping L s :=
  ⟨h.fixed.subset hL, h.names.subset hL, h.scratch⟩

/-- The file of an object that is not one of `L`. -/
theorem removeObject_once (h : Keeping L s) {j : Fin n} (hj : ∀ p ∈ L, p.idx ≠ j) :
    wp AnyEv (psaItsRemove (objectFid j.val)) s
      ⟨fun _ => Keeping L, fun _ => Keeping L, fun s' => Fixed L s'.files⟩ := by
  refine wp_ext ?_ ?_ (fun _ => h) fun _ => h.fixed
  · intro a s' hs
    split at hs
    · cases hs
      exact ⟨h.fixed.object hj none, h.names, h.scratch⟩
    · cases hs
  · intro e s' hs
    split at hs
    · cases hs
    · cases hs
      exact h

/-- A table that names `L'` was saved; the one before it names `L`. -/
structure Due (L L' : List (Pin n)) (s : Sys n) : Prop where
  keeping : Keeping L s
  names : Names L' s.table.body
  objs : ∀ p ∈ L', s.files (objectFid p.idx.val) = some (.object p.file)
  active : ∃ t, s.files (tableFid s.active) = some (.table t) ∧ t.body.db = s.table.body.db
  sub : L ⊆ L'

theorem Due.removed {L' : List (Pin n)} (h : Due L L' s) :
    Fixed L' (Function.update s.files (tableFid s.scratch) none) := by
  refine ⟨fun a t ht => ?_, fun p hp => ?_⟩
  · obtain ⟨u, hu, hdb⟩ := h.active
    by_cases ha : a = s.scratch
    · rw [ha, Function.update_self] at ht
      cases ht
    · have hact : a = s.active := by
        have := h.keeping.scratch
        omega
      rw [Function.update_of_ne fun he => ha (tableFid_inj he), hact, hu] at ht
      cases ht
      exact h.names.congr hdb
  · rw [Function.update_of_ne (tableFid_ne_objectFid _ _).symm]
    exact h.objs p hp

/-- The table of before is removed: from then on every table is the one in RAM. -/
theorem deleteOldTable_once {L' : List (Pin n)} (h : Due L L' s) :
    wp AnyEv psObjectTableDeleteOldTable s
      ⟨fun _ => Keeping L', fun _ => Keeping L, fun s' => Fixed L s'.files⟩ := by
  refine wp_bind (wp_get (wp_ext ?_ ?_ (fun _ => h.keeping) fun _ => h.keeping.fixed))
  · intro a s' hs
    split at hs
    · cases hs
      exact ⟨h.removed, h.names, h.keeping.scratch⟩
    · cases hs
  · intro e s' hs
    split at hs
    · cases hs
    · cases hs
      exact h.keeping

/-- The end of an operation, after its save. -/
theorem finish_once {L' : List (Pin n)} (old : Option (Fin n)) (h : Due L L' s)
    (hold : ∀ j, old = some j → ∀ p ∈ L', p.idx ≠ j) :
    wp AnyEv (finish (old.map fun j => objectFid j.val)) s
      ⟨fun _ => Keeping L', fun _ => Keeping L, fun s' => Fixed L s'.files⟩ := by
  cases old with
  | none => exact deleteOldTable_once h
  | some j =>
    refine wp_bind (wp_mono (deleteOldTable_once h) (fun _ s₁ h₁ => ?_) (fun _ _ he => he)
      fun _ hc => hc)
    exact wp_mono (removeObject_once h₁ (hold j rfl)) (fun _ _ h₂ => h₂)
      (fun _ _ h₂ => h₂.subset h.sub) fun _ hc => hc.subset h.sub

/-! ## Storing -/

/-- The table after a save that failed: the entry of the new object is empty. -/
theorem restored_free {b b' : Body n} {uid : Nat} {c : Int} {j : Fin n} (hu : uid ≠ 0)
    (hj : (b.db j).uid = 0) {e : Entry} (hb : b'.db = ((cleared b uid c).set j e).db) :
    (restored b b' uid c j).db = (b.set j .empty).db := by
  unfold restored
  unfold cleared at hb
  cases hk : getObjectEntryIdx b uid c with
  | none =>
    rw [hk] at hb
    simp only [Body.set] at hb ⊢
    rw [hb, Function.update_idem]
  | some k =>
    rw [hk] at hb
    have hkj := getObjectEntryIdx_ne hu hk hj
    simp only [Body.set] at hb ⊢
    rw [hb, Function.update_comm hkj.symm, Function.update_idem, Function.update_idem,
      Function.update_eq_self]

theorem Keeping.withBody {b : Body n} (h : Keeping L s) (hb : Names L b) :
    Keeping L (withBody s b) := ⟨h.fixed, hb, h.scratch⟩

/-- A new object in the free entry `j`. -/
def Pin.new {uid : Nat} (hu : uid ≠ 0) (c : Int) (j : Fin n) (file : ObjFile) : Pin n :=
  ⟨uid, c, j, file, hu⟩

section Store

variable {uid : Nat} {c : Int} {j : Fin n} {file : ObjFile}

theorem Names.pin {b : Body n} (h : Names L b) (file : ObjFile) (hu : uid ≠ 0)
    (hL : ∀ p ∈ L, ¬ (p.uid = uid ∧ p.clientId = c)) (hj : (b.db j).uid = 0) :
    Names (.new hu c j file :: L)
      ((Ps.cleared b uid c).set j ⟨some ⟨file.iv, objectFid j.val, file.obj⟩, uid, c⟩) := by
  have hi := h.insert hu hL hj (some ⟨file.iv, objectFid j.val, file.obj⟩)
  refine ⟨hi.uniq, fun p hp => ?_⟩
  cases hp with
  | head =>
    simp only [Pin.new, Body.set, Function.update_self, Pin.entry]
  | tail _ hp => exact hi.entry p hp

/-- After the save of the new table. -/
theorem Saved.due {s' : Sys n} (hs : Keeping L s) (hu : uid ≠ 0)
    (hL : ∀ p ∈ L, ¬ (p.uid = uid ∧ p.clientId = c)) (hj : (s.table.body.db j).uid = 0)
    (hf : s.files (objectFid j.val) = some (.object file))
    (h : Saved (Ps.withBody s ((Ps.cleared s.table.body uid c).set j
      ⟨some ⟨file.iv, objectFid j.val, file.obj⟩, uid, c⟩)) s') :
    Due L (.new hu c j file :: L) s' := by
  have hn := hs.names.pin file hu hL hj
  obtain ⟨t, ht, hfiles⟩ := h.files
  refine ⟨h.keeping (hs.withBody (hn.subset (List.subset_cons_self _ _))), hn.congr h.db,
    fun p hp => ?_, ⟨t, ?_, ht.trans h.db.symm⟩, List.subset_cons_self _ _⟩
  · rw [hfiles, Function.update_of_ne (tableFid_ne_objectFid _ _).symm]
    cases hp with
    | head => exact hf
    | tail _ hp => exact hs.fixed.objs p hp
  · rw [hfiles, h.active, Function.update_self]

/-- The second half of a store: the table is saved, and the old files go. -/
theorem commit_once (cfg : Cfg) (h : Keeping L s) (hu : uid ≠ 0)
    (hL : ∀ p ∈ L, ¬ (p.uid = uid ∧ p.clientId = c)) (hj : (s.table.body.db j).uid = 0)
    (hf : s.files (objectFid j.val) = some (.object file)) :
    wp AnyEv (do
      match ← attempt (psObjectTableSetObjTblInfo cfg uid c (objectFid j.val)
          ⟨file.iv, objectFid j.val, file.obj⟩) with
      | .error e => do
        let _ ← attempt (psaItsRemove (objectFid j.val))
        throw e
      | .ok _ => finish ((getObjectEntryIdx s.table.body uid c).map fun i => objectFid i.val)) s
      ⟨fun _ => Keeping (.new hu c j file :: L), fun _ => Keeping L, fun s' => Fixed L s'.files⟩ := by
  have hn := h.names.pin file hu hL hj
  have hram := h.withBody (hn.subset (List.subset_cons_self _ _))
  have hany : ∀ s', Same _ s' ∨ Saved _ s' → Keeping L s' := fun s' hs' =>
    hs'.elim (fun hs' => hs'.keeping hram) fun hs' => hs'.keeping hram
  refine wp_bind (wp_attempt (setInfo_wp (wp_mono (save_once cfg _) ?_ ?_ ?_)))
  · intro _ s' hs'
    refine finish_once _ (hs'.due h hu hL hj hf) fun k hk p hp => ?_
    cases hp with
    | head => exact (getObjectEntryIdx_ne hu hk hj).symm
    | tail _ hp => exact h.names.not_other hL hk p hp
  · intro e s' hs'
    have hdb : s'.table.body.db = _ := hs'.elim Same.db Saved.db
    have hfree : ∀ p ∈ L, p.idx ≠ j := h.names.not_free hj
    have hk : Keeping L (Ps.withBody s' (restored s.table.body s'.table.body uid c j)) :=
      (hany s' hs').withBody ((h.names.clear hfree).congr (restored_free hu hj hdb))
    refine wp_bind (wp_attempt (wp_mono (removeObject_once hk hfree) ?_ ?_ fun _ hc => hc))
    · exact fun _ _ h' => wp_throw h'
    · exact fun _ _ h' => wp_throw h'
  · exact fun s' hs' => (hany s' hs').fixed

theorem store_once (cfg : Cfg) {num : Nat} {obj : Obj} (h : Keeping L s) (hu : uid ≠ 0)
    (hL : ∀ p ∈ L, ¬ (p.uid = uid ∧ p.clientId = c)) :
    wp AnyEv (storeObject cfg num uid c obj
        ((getObjectEntryIdx s.table.body uid c).map fun i => objectFid i.val)) s
      ⟨fun _ s' => ∃ j iv, Keeping (.new hu c j ⟨iv, obj⟩ :: L) s', fun _ => Keeping L,
        fun s' => Fixed L s'.files⟩ := by
  cases hj : tableFreeIdx s.table.body num (List.finRange n) with
  | none =>
    refine wp_bind (wp_bind (wp_get ?_))
    simp only [hj]
    exact wp_throw h
  | some j =>
    have hj0 := tableFreeIdx_some hj
    have hfree := h.names.not_free hj0
    have hset : ∀ x iv u, Keeping L { s with
        files := Function.update s.files (objectFid j.val) x, iv := iv, used := u } :=
      fun x iv u => ⟨h.fixed.object hfree x, h.names, h.scratch⟩
    refine wp_bind (wp_of_wpAt (i := 0) (getFreeFid_at hj ?_ (fun _ => h) h.fixed))
    refine wp_bind (wp_of_wpAt (i := 0) (objectWrite_at (fun iv => ?_) ?_ ?_))
    · dsimp only
      rw [Function.update_idem]
      have hf : Function.update s.files (objectFid j.val) (some (.object ⟨iv, obj⟩))
          (objectFid j.val) = some (.object ⟨iv, obj⟩) := Function.update_self ..
      have hcommit := commit_once cfg (hset (some (.object ⟨iv, obj⟩)) iv (iv :: s.used)) hu hL hj0 hf
      refine wp_mono hcommit ?_ (fun _ _ he => he) fun _ hc => hc
      exact fun _ s' hs' => ⟨j, iv, hs'⟩
    · exact fun e iv u _ => hset none iv u
    · exact fun iv u => (hset none iv u).fixed

end Store

/-! ## Operations -/

/-- The object of the client is read: it is the one its entry names. -/
theorem objectRead_any {fid : Nat} {tag : Option ObjTag} {Q : Post PsaStatus (Sys n) Obj}
    (hok : ∀ file, s.files fid = some (.object file) → Q.ok file.obj s) (herr : ∀ e, Q.err e s)
    (hcut : Q.cut s) : wp AnyEv (psEncryptedObjectRead fid tag) s Q := by
  have hthrow : ∀ e, wp AnyEv (throw e) s Q := fun e => wp_throw (herr e)
  refine wp_bind (wp_ext ?_ ?_ (fun _ => herr _) fun _ => hcut)
  · intro x s' hx
    split at hx
    · rename_i x' hf
      cases hx
      cases x with
      | table _ => exact hthrow _
      | object file =>
        refine wp_bind (wp_ask (fun _ _ => ?_) herr hcut)
        refine wp_bind (wp_attempt (wp_ext ?_ ?_ (fun _ => ?_) fun _ => hcut))
        · intro o t ht
          split at ht
          · cases ht
            exact wp_bind (wp_ask (fun _ _ => wp_pure (hok file hf)) herr hcut)
          · cases ht
        · intro e t ht
          split at ht
          · cases ht
          · cases ht
            exact wp_bind (wp_attempt (wp_ask (fun _ _ => hthrow _) (fun _ => hthrow _) hcut))
        · exact wp_bind (wp_attempt (wp_ask (fun _ _ => hthrow _) (fun _ => hthrow _) hcut))
    · cases hx
  · intro e s' hx
    split at hx
    · cases hx
    · cases hx
      exact herr _

/-- The objects of `L` were created write-once. -/
def Once (L : List (Pin n)) : Prop := ∀ p ∈ L, p.file.obj.flags &&& flagWriteOnce ≠ 0

/-- An object that was read without the flag is not one of `L`. -/
theorem Keeping.not_once (h : Keeping L s) (hL : Once L) {uid : Nat} {c : Int} {i : Fin n}
    (hi : getObjectEntryIdx s.table.body uid c = some i) {file : ObjFile}
    (hf : s.files (objectFid i.val) = some (.object file))
    (hflag : ¬ file.obj.flags &&& flagWriteOnce ≠ 0) :
    ∀ p ∈ L, ¬ (p.uid = uid ∧ p.clientId = c) := by
  intro p hp hn
  have hip := h.names.idx hp
  rw [hn.1, hn.2, hi] at hip
  cases hip
  rw [h.fixed.objs p hp] at hf
  cases hf
  exact hflag (hL p hp)

/-- The object that a successful operation creates. -/
def Op.creates : Op → Option Obj
  | .create _ _ flags data => some ⟨data.length, flags, data⟩
  | _ => none

/-- What an operation on `uid` leaves: on success it was not one of `L`, and the
object that it creates can join them. -/
def oncePost (L : List (Pin n)) (uid : Nat) (c : Int) (made : Option Obj) :
    Post PsaStatus (Sys n) Unit where
  ok _ s' := (∀ p ∈ L, ¬ (p.uid = uid ∧ p.clientId = c)) ∧ Keeping L s' ∧
    ∀ obj, made = some obj → ∃ p : Pin n, p.uid = uid ∧ p.clientId = c ∧ p.file.obj = obj ∧
      Keeping (p :: L) s'
  err _ s' := Keeping L s'
  cut s' := Fixed L s'.files

section Ops

variable {uid : Nat} {c : Int}

theorem store_oncePost (cfg : Cfg) (num : Nat) (obj : Obj) (made : Option Obj)
    (hmade : ∀ x, made = some x → x = obj) (h : Keeping L s) (hu : uid ≠ 0)
    (hL : ∀ p ∈ L, ¬ (p.uid = uid ∧ p.clientId = c)) :
    wp AnyEv (storeObject cfg num uid c obj
        ((getObjectEntryIdx s.table.body uid c).map fun i => objectFid i.val)) s
      (oncePost L uid c made) := by
  refine wp_mono (store_once cfg h hu hL) (fun _ s' hs' => ?_) (fun _ _ he => he) fun _ hc => hc
  obtain ⟨j, iv, hk⟩ := hs'
  refine ⟨hL, hk.subset (List.subset_cons_self _ _), fun x hx => ⟨_, rfl, rfl, ?_, hk⟩⟩
  exact (hmade x hx).symm

/-- The common start of the operations on an object that there is. -/
theorem readFirst_once {f : Obj → M n Unit} {made : Option Obj} {i : Fin n} (h : Keeping L s)
    (hL : Once L) (hi : getObjectEntryIdx s.table.body uid c = some i)
    (hf : ∀ old : Obj, ¬ old.flags &&& flagWriteOnce ≠ 0 →
      (∀ p ∈ L, ¬ (p.uid = uid ∧ p.clientId = c)) → wp AnyEv (f old) s (oncePost L uid c made)) :
    wp AnyEv (do
      let old ← psEncryptedObjectRead (objectFid i.val) (s.table.body.db i).tag
      if old.flags &&& flagWriteOnce ≠ 0 then throw .notPermitted else f old) s
      (oncePost L uid c made) := by
  have herr : ∀ e, (oncePost L uid c made).err e s := fun _ => h
  refine wp_bind (objectRead_any (fun file hfile => ?_) herr h.fixed)
  dsimp only
  split
  · exact wp_throw (herr _)
  · rename_i hflag
    exact hf file.obj hflag (h.not_once hL hi hfile hflag)

theorem create_once (cfg : Cfg) (flags : UInt32) (data : List UInt8) (h : Keeping L s)
    (hL : Once L) (hu : uid ≠ 0) :
    wp AnyEv (psObjectCreate cfg uid c flags data) s
      (oncePost L uid c (some ⟨data.length, flags, data⟩)) := by
  have hmade : ∀ x, some (⟨data.length, flags, data⟩ : Obj) = some x → x = ⟨data.length, flags, data⟩ :=
    fun x hx => (Option.some.inj hx).symm
  unfold psObjectCreate
  split
  · exact wp_throw h
  · refine wp_bind (wp_get ?_)
    dsimp only
    cases hi : getObjectEntryIdx s.table.body uid c with
    | none =>
      have hnone : ∀ p ∈ L, ¬ (p.uid = uid ∧ p.clientId = c) := by
        intro p hp hn
        have hip := h.names.idx hp
        rw [hn.1, hn.2, hi] at hip
        cases hip
      have hstore := store_oncePost cfg 2 _ _ hmade h hu hnone
      rwa [hi] at hstore
    | some i =>
      refine readFirst_once h hL hi fun old _ hn => ?_
      have hstore := store_oncePost cfg 1 _ _ hmade h hu hn
      rwa [hi] at hstore

theorem objectWrite_once (cfg : Cfg) (offset : Nat) (data : List UInt8) (h : Keeping L s)
    (hL : Once L) (hu : uid ≠ 0) :
    wp AnyEv (psObjectWrite cfg uid c offset data) s (oncePost L uid c none) := by
  refine wp_bind (wp_get ?_)
  dsimp only
  cases hi : getObjectEntryIdx s.table.body uid c with
  | none => exact wp_throw h
  | some i =>
    refine readFirst_once h hL hi fun old _ hn => ?_
    split
    · exact wp_throw h
    · split
      · exact wp_throw h
      · have hstore := store_oncePost cfg 1 { old with data := overwrite old.data offset data } none
          (fun _ hx => nomatch hx) h hu hn
        rwa [hi] at hstore

theorem deleteObject_once (cfg : Cfg) {i : Fin n} (h : Keeping L s)
    (hn : ∀ p ∈ L, ¬ (p.uid = uid ∧ p.clientId = c))
    (hi : getObjectEntryIdx s.table.body uid c = some i) :
    wp AnyEv (psObjectTableDeleteObject cfg uid c) s
      ⟨fun _ => Due L L, fun _ => Keeping L, fun s' => Fixed L s'.files⟩ := by
  have hpins := h.names.not_other hn hi
  have hclear := h.names.clear hpins
  have hram := h.withBody hclear
  have hany : ∀ s', Same _ s' ∨ Saved _ s' → Keeping L s' := fun s' hs' =>
    hs'.elim (fun hs' => hs'.keeping hram) fun hs' => hs'.keeping hram
  refine wp_bind (wp_get ?_)
  simp only [hi]
  refine wp_bind (wp_modify (wp_bind (wp_attempt (wp_mono (save_once cfg _) ?_ ?_ ?_))))
  · intro _ s' hs'
    obtain ⟨t, ht, hfiles⟩ := hs'.files
    refine wp_pure ⟨hs'.keeping hram, hclear.congr hs'.db, fun p hp => ?_, ⟨t, ?_, ?_⟩,
      List.Subset.refl _⟩
    · exact (hs'.keeping hram).fixed.objs p hp
    · rw [hfiles, hs'.active, Function.update_self]
    · exact ht.trans hs'.db.symm
  · intro e s' hs'
    have hdb : s'.table.body.db = _ := hs'.elim Same.db Saved.db
    dsimp only
    refine wp_bind (wp_get ?_)
    dsimp only
    refine wp_bind (wp_modify (wp_throw ?_))
    refine (hany s' hs').withBody (h.names.congr ?_)
    simp only [Body.set] at hdb ⊢
    rw [hdb, Function.update_idem, Function.update_eq_self]
  · exact fun s' hs' => (hany s' hs').fixed

theorem delete_once (cfg : Cfg) (h : Keeping L s) (hL : Once L) :
    wp AnyEv (psObjectDelete cfg uid c) s (oncePost L uid c none) := by
  refine wp_bind (wp_get ?_)
  dsimp only
  cases hi : getObjectEntryIdx s.table.body uid c with
  | none => exact wp_throw h
  | some i =>
    refine readFirst_once h hL hi fun old _ hn => ?_
    refine wp_bind (wp_mono (deleteObject_once cfg h hn hi) (fun _ s₁ h₁ => ?_) (fun _ _ he => he)
      fun _ hc => hc)
    have hpins := h.names.not_other hn hi
    refine wp_mono (finish_once (some i) h₁ ?_) (fun _ s₂ h₂ => ?_) (fun _ _ he => he)
      fun _ hc => hc
    · intro j hj
      cases hj
      exact hpins
    · exact ⟨hn, h₂, fun _ hx => nomatch hx⟩

end Ops

theorem op_once (cfg : Cfg) (h : Keeping L s) (hL : Once L) (o : Op) :
    wp AnyEv (o.run cfg) s (oncePost L o.uid o.clientId o.creates) := by
  have herr : ∀ e, wp AnyEv (throw e) s (oncePost L o.uid o.clientId o.creates) :=
    fun _ => wp_throw h
  cases o with
  | create uid c flags data =>
    simp only [Op.run]
    split
    · exact herr _
    · rename_i hu
      split
      · exact herr _
      · exact create_once cfg flags data h hL hu
  | write uid c offset data =>
    simp only [Op.run]
    split
    · exact herr _
    · rename_i hu
      exact objectWrite_once cfg offset data h hL hu
  | delete uid c =>
    simp only [Op.run]
    split
    · exact herr _
    · exact delete_once cfg h hL

/-! ## Starts -/

/-- Checks leave the state. -/
theorem authenticate_keeps (t : Table n) (nvc : Option Nat) :
    Keeps (· = s) (psCryptoAuthenticate t nvc) := ext_keeps fun _ => by split <;> rfl

theorem tableAuthenticate_keeps (t : Option (Table n)) (nvc1 nvc3 : Nat) :
    Keeps (· = s) (psObjectTableAuthenticate t nvc1 nvc3) := by
  cases t with
  | none => exact .pure _
  | some t =>
    refine (authenticate_keeps t _).attempt.bind fun r => ?_
    cases r with
    | ok _ => exact .pure _
    | error _ =>
      dsimp only
      split
      · exact .pure _
      · refine (authenticate_keeps t _).attempt.bind fun r => ?_
        cases r with
        | ok _ => exact .pure _
        | error _ => exact .pure _

theorem ctxTable_keeps (t : Option (Table n)) :
    Keeps (· = s) (psObjectTableAuthenticateCtxTable t) := by
  cases t with
  | none => exact .pure _
  | some t =>
    refine (authenticate_keeps t _).attempt.bind fun r => ?_
    cases r with
    | ok _ => exact .pure _
    | error _ => exact .pure _

theorem authenticateTables_keeps (cfg : Cfg) (t0 t1 : Option (Table n)) :
    Keeps (· = s) (authenticateTables cfg t0 t1) := by
  have hread : ∀ c, Keeps (· = s) (psReadNvCounter c) := fun c => ext_keeps fun _ => rfl
  unfold authenticateTables
  split
  · refine .bind (.attempt ?_) fun r => ?_
    · refine (hread _).bind fun v1 => (hread _).bind fun v2 => (hread _).bind fun v3 => ?_
      refine (tableAuthenticate_keeps _ _ _).bind fun st0 => ?_
      exact (tableAuthenticate_keeps _ _ _).bind fun st1 => .pure _
    · cases r with
      | ok _ => exact .pure _
      | error _ => exact .bind (.attempt (ext_keeps fun _ => rfl)) fun _ => .throw _
  · exact (ctxTable_keeps t0).bind fun st0 => (ctxTable_keeps t1).bind fun st1 => .pure _

/-- The table that a start works with is one of the files. -/
theorem select_once (cfg : Cfg) (h : Fixed L s.files) :
    wp AnyEv (psObjectTableSelect cfg) s
      ⟨fun _ => Keeping L, fun _ s' => Fixed L s'.files, fun s' => Fixed L s'.files⟩ := by
  have hask : ∀ {α : Type} {m : M n α} {f : α → M n (Option Nat)} {s₁ : Sys n},
      Keeps (· = s₁) m → Fixed L s₁.files →
      (∀ a, wp AnyEv (f a) s₁
        ⟨fun _ => Keeping L, fun _ s' => Fixed L s'.files, fun s' => Fixed L s'.files⟩) →
      wp AnyEv (m >>= f) s₁
        ⟨fun _ => Keeping L, fun _ s' => Fixed L s'.files, fun s' => Fixed L s'.files⟩ := by
    intro α m f s₁ hm h₁ hf
    refine wp_bind (wp_mono (hm AnyEv s₁ rfl) ?_ ?_ ?_)
    · intro a t ht
      rw [ht]
      exact hf a
    · intro e t ht
      rw [ht]
      exact h₁
    · intro t ht
      rw [ht]
      exact h₁
  refine wp_bind (readTable_any (fun t0 h0 => ?_) h)
  refine wp_bind (wp_modify ?_)
  refine wp_bind (readTable_any (fun t1 h1 => ?_) h)
  refine hask (ext_keeps fun _ => rfl) h fun _ => ?_
  refine hask (authenticateTables_keeps cfg t0 t1) h fun r => ?_
  obtain ⟨st0, st1, nvc1⟩ := r
  refine hask (ext_keeps fun _ => rfl) h fun _ => ?_
  have hnames : ∀ a t, tableAt s.files a = some t → Names L t.body := fun a t ht =>
    h.tables a t (tableAt_some.1 ht)
  have hvalid : ∀ (t : Option (Table n)) st, validateVersion t st ≠ .invalid → t ≠ none := by
    intro t st hne ht
    rw [ht] at hne
    exact hne rfl
  refine wp_bind ?_
  unfold psSetActiveObjectTable
  cases ha : activeTable cfg (validateVersion t0 st0) (validateVersion t1 st1) (swapCountOf t0)
      (swapCountOf t1) with
  | none => exact wp_throw h
  | some a =>
    have hne := activeTable_valid ha
    match a with
    | 0 =>
      have hne10 : (1 : Fin 2) ≠ 0 := by decide
      refine wp_modify (wp_pure ⟨h, ?_, hne10⟩)
      cases ht0 : t0 with
      | none => exact absurd ht0 (hvalid t0 st0 hne)
      | some t =>
        refine hnames 0 t ?_
        rcases h0 with h0 | h0
        · rw [h0] at ht0
          cases ht0
        · rw [← h0, ht0]
    | 1 =>
      have hne01 : (0 : Fin 2) ≠ 1 := by decide
      refine wp_modify (wp_pure ⟨h, ?_, hne01⟩)
      cases ht1 : t1 with
      | none => exact absurd ht1 (hvalid t1 st1 hne)
      | some t =>
        refine hnames 1 t ?_
        rcases h1 with h1 | h1
        · rw [h1] at ht1
          cases ht1
        · rw [← ht1, h1]

theorem prepare_once (cfg : Cfg) (h : Fixed L s.files) :
    wp AnyEv (psSystemPrepare cfg) s
      ⟨fun _ => Keeping L, fun _ s' => Fixed L s'.files, fun s' => Fixed L s'.files⟩ := by
  refine wp_bind (wp_mono (select_once cfg h) (fun nvc1 s₁ h₁ => ?_) (fun _ _ he => he)
    fun _ hc => hc)
  -- after the removal of the scratch file
  have hrest : ∀ s₂, Keeping L s₂ → wp AnyEv (initEnd nvc1) s₂
      ⟨fun _ => Keeping L, fun _ s' => Fixed L s'.files, fun s' => Fixed L s'.files⟩ := by
    intro s₂ h₂
    unfold initEnd
    have hiv : ∀ s₃, Same s₂ s₃ → wp AnyEv (modify fun s => { s with iv := s.table.iv } : M n Unit)
        s₃ ⟨fun _ => Keeping L, fun _ s' => Fixed L s'.files, fun s' => Fixed L s'.files⟩ := by
      intro s₃ h₃
      have hk := h₃.keeping h₂
      exact wp_modify ⟨hk.fixed, hk.names, hk.scratch⟩
    cases nvc1 with
    | none => exact hiv s₂ (.refl s₂)
    | some v =>
      refine wp_bind (wp_mono (align_same v AnyEv s₂ (.refl s₂)) ?_ ?_ ?_)
      · exact fun _ s₃ h₃ => hiv s₃ h₃
      · exact fun _ s₃ h₃ => (h₃.keeping h₂).fixed
      · exact fun s₃ h₃ => (h₃.keeping h₂).fixed
  refine wp_bind (wp_get ?_)
  dsimp only
  refine wp_bind (wp_attempt (wp_ext ?_ ?_ (fun _ => ?_) fun _ => h₁.fixed))
  · intro a s₂ hs
    split at hs
    · cases hs
      have h₂ : Keeping L { s₁ with files := Function.update s₁.files (tableFid s₁.scratch) none } :=
        ⟨h₁.fixed.removeTable s₁.scratch, h₁.names, h₁.scratch⟩
      exact wp_bind (wp_pure (hrest _ h₂))
    · cases hs
  · intro e s₂ hs
    split at hs
    · cases hs
    · cases hs
      exact wp_bind (wp_pure (hrest _ h₁))
  · exact wp_throw h₁.fixed

/-- The list of what is left of `L` when a start fails: a new flash layout has none. -/
def kept (cfg : Cfg) (L : List (Pin n)) : List (Pin n) := if cfg.createLayout then [] else L

theorem createFlashLayout_once (cfg : Cfg) (e : PsaStatus) (h : Fixed L s.files) :
    wp AnyEv (createFlashLayout cfg e) s
      ⟨fun _ => Keeping (kept cfg L), fun _ s' => Fixed (kept cfg L) s'.files,
        fun s' => Fixed (kept cfg L) s'.files⟩ := by
  unfold createFlashLayout kept
  split
  · have hempty : Keeping [] { s with
        table := { Table.zero n with body := emptyBody n }
        active := 1
        scratch := 0 } :=
      ⟨h.subset (List.nil_subset L), ⟨fun _ _ h => absurd rfl h, (fun _ h => nomatch h)⟩,
        fun h => by cases h⟩
    have hend : ∀ {t : Sys n}, Same _ t ∨ Saved _ t → Fixed [] t.files := fun ht =>
      ht.elim (fun ht => (ht.keeping hempty).fixed) fun ht => (ht.keeping hempty).fixed
    refine wp_bind (wp_bind (wp_modify (wp_mono (save_once cfg _) (fun _ s₁ h₁ => ?_)
      (fun _ _ => hend) fun _ => hend)))
    exact prepare_once cfg (h₁.keeping hempty).fixed
  · exact wp_throw h

/-! ## Every run -/

/-- The device; as ghost state the objects that a successful create made
write-once, since the flash layout was last created. -/
structure Ledger (n : Nat) where
  dev : Dev n
  created : List (Nat × Int × Obj)

/-- What a create that returns success adds. -/
def Lbl.writeOnce (cfg : Cfg) (s : Sys n) : Lbl → List (Nat × Int × Obj)
  | .op (.create uid clientId flags data) p =>
    if ((Op.create uid clientId flags data).run cfg s p).isOk ∧ flags &&& flagWriteOnce ≠ 0 then
      [(uid, clientId, ⟨data.length, flags, data⟩)]
    else []
  | _ => []

/-- A start that calls `ps_system_wipe_all`. -/
def Lbl.wipes (cfg : Cfg) (s : Sys n) : Lbl → Bool
  | .boot p =>
    match psSystemPrepare cfg s p with
    | .err _ _ _ => cfg.createLayout
    | _ => false
  | _ => false

def ledgerStep (cfg : Cfg) (x : Ledger n) (l : Lbl) : Option (Ledger n) :=
  (step cfg x.dev l).map fun d =>
    ⟨d, if l.wipes cfg x.dev.sys then [] else l.writeOnce cfg x.dev.sys ++ x.created⟩

def onceLts (cfg : Cfg) (n : Nat) : LTS (Ledger n) Lbl :=
  LTS.ofFn (· = ⟨init cfg n, []⟩) (ledgerStep cfg)

/-- The objects of the ledger are in place. -/
structure LedgerInv (x : Ledger n) : Prop where
  pins : ∃ L : List (Pin n), L.map (fun p => (p.uid, p.clientId, p.file.obj)) = x.created ∧
    Once L ∧ Fixed L x.dev.sys.files ∧ (x.dev.up = true → Keeping L x.dev.sys)

theorem writeOnce_failed {cfg : Cfg} {s : Sys n} {o : Op} {p : List Ev}
    (h : (o.run cfg s p).isOk = false) : (Lbl.op o p).writeOnce cfg s = [] := by
  cases o with
  | create uid c flags data =>
    simp only [Lbl.writeOnce, h]
    exact if_neg fun hf => nomatch hf.1
  | write uid c offset data => rfl
  | delete uid c => rfl

theorem writeOnce_cons {cfg : Cfg} {s : Sys n} {o : Op} {p : List Ev} {y : Nat × Int × Obj}
    {ys : List (Nat × Int × Obj)} (h : (Lbl.op o p).writeOnce cfg s = y :: ys) :
    ys = [] ∧ o.creates = some y.2.2 ∧ y.1 = o.uid ∧ y.2.1 = o.clientId ∧
      y.2.2.flags &&& flagWriteOnce ≠ 0 := by
  cases o with
  | create uid c flags data =>
    simp only [Lbl.writeOnce] at h
    split at h
    · rename_i hf
      cases h
      exact ⟨rfl, rfl, rfl, rfl, hf.2⟩
    · cases h
  | write uid c offset data => cases h
  | delete uid c => cases h

theorem inv_once_op {cfg : Cfg} {x : Ledger n} {d : Dev n} {o : Op} {p : List Ev}
    (h : LedgerInv x) (hs : step cfg x.dev (.op o p) = some d) :
    LedgerInv ⟨d, (Lbl.op o p).writeOnce cfg x.dev.sys ++ x.created⟩ := by
  obtain ⟨L, hL, honce, -, hkeep⟩ := h.pins
  simp only [step] at hs
  split at hs
  · rename_i hup
    have hrun := op_once cfg (hkeep hup) honce o p fun _ _ => trivial
    revert hs hrun
    cases hr : o.run cfg x.dev.sys p with
    | ok a s' q =>
      intro hs hx
      obtain ⟨⟨_, hk, hnew⟩, _⟩ := hx
      cases hs
      cases hw : (Lbl.op o p).writeOnce cfg x.dev.sys with
      | nil => exact ⟨L, hL, honce, hk.fixed, fun _ => hk⟩
      | cons y ys =>
        obtain ⟨rfl, hmade, hu, hc, hflag⟩ := writeOnce_cons hw
        obtain ⟨pin, hpu, hpc, hobj, hk'⟩ := hnew _ hmade
        refine ⟨pin :: L, ?_, fun q hq => ?_, hk'.fixed, fun _ => hk'⟩
        · rw [List.map_cons, hobj, hL, hpu, hpc, ← hu, ← hc]
          rfl
        · cases hq with
          | head =>
            rw [hobj]
            exact hflag
          | tail _ hq => exact honce q hq
    | err e s' q =>
      intro hs hx
      obtain ⟨hk, _⟩ := hx
      cases hs
      rw [writeOnce_failed (by rw [hr]; rfl)]
      exact ⟨L, hL, honce, hk.fixed, fun _ => hk⟩
    | cut s' =>
      intro hs hk
      cases hs
      rw [writeOnce_failed (by rw [hr]; rfl)]
      exact ⟨L, hL, honce, hk, fun hf => absurd hf Bool.false_ne_true⟩
  · cases hs

theorem inv_once_boot {cfg : Cfg} {x : Ledger n} {d : Dev n} {p : List Ev}
    (h : LedgerInv x) (hs : step cfg x.dev (.boot p) = some d) :
    LedgerInv ⟨d, if (Lbl.boot p).wipes cfg x.dev.sys then [] else x.created⟩ := by
  obtain ⟨L, hL, honce, hfixed, -⟩ := h.pins
  simp only [step] at hs
  split at hs
  · cases hs
  have hrun := prepare_once cfg hfixed p fun _ _ => trivial
  rw [tfmPsInit_run] at hs
  cases hr : psSystemPrepare cfg x.dev.sys p with
  | ok a s' q =>
    rw [hr] at hs hrun
    cases hs
    have hw : (Lbl.boot p).wipes cfg x.dev.sys = false := by simp only [Lbl.wipes, hr]
    rw [hw]
    exact ⟨L, hL, honce, hrun.1.fixed, fun _ => hrun.1⟩
  | cut s' =>
    rw [hr] at hs hrun
    cases hs
    have hw : (Lbl.boot p).wipes cfg x.dev.sys = false := by simp only [Lbl.wipes, hr]
    rw [hw]
    exact ⟨L, hL, honce, hrun, fun hf => absurd hf Bool.false_ne_true⟩
  | err e s' q =>
    rw [hr] at hs hrun
    have hw : (Lbl.boot p).wipes cfg x.dev.sys = cfg.createLayout := by simp only [Lbl.wipes, hr]
    rw [hw]
    have hmap : (kept cfg L).map (fun p => (p.uid, p.clientId, p.file.obj)) =
        if cfg.createLayout then [] else x.created := by
      unfold kept
      split
      · rfl
      · exact hL
    have honce' : Once (kept cfg L) := by
      unfold kept
      split
      · exact fun _ h => absurd h List.not_mem_nil
      · exact honce
    have hlay := createFlashLayout_once cfg e hrun.1 q fun _ _ => trivial
    dsimp only at hs
    revert hs hlay
    cases createFlashLayout cfg e s' q with
    | ok a s₂ q₂ =>
      intro hs hlay
      obtain ⟨hk₂, -⟩ := hlay
      cases hs
      exact ⟨_, hmap, honce', hk₂.fixed, fun _ => hk₂⟩
    | err e₂ s₂ q₂ =>
      intro hs hlay
      obtain ⟨hk₂, -⟩ := hlay
      cases hs
      exact ⟨_, hmap, honce', hk₂, fun hf => absurd hf Bool.false_ne_true⟩
    | cut s₂ =>
      intro hs hk₂
      cases hs
      exact ⟨_, hmap, honce', hk₂, fun hf => absurd hf Bool.false_ne_true⟩

theorem inv_once_step {cfg : Cfg} {x x' : Ledger n} {l : Lbl} (h : LedgerInv x)
    (hs : ledgerStep cfg x l = some x') : LedgerInv x' := by
  obtain ⟨d, hd, rfl⟩ := Option.map_eq_some_iff.1 hs
  cases l with
  | op o p => exact inv_once_op h hd
  | boot p => exact inv_once_boot h hd
  | off =>
    obtain ⟨L, hL, honce, hfixed, -⟩ := h.pins
    simp only [step] at hd
    split at hd
    · cases hd
      exact ⟨L, hL, honce, hfixed, fun hf => absurd hf Bool.false_ne_true⟩
    · cases hd

theorem init_files (cfg : Cfg) (n : Nat) : (init cfg n).sys.files =
    Function.update (fun _ => none) (tableFid 0) (some (.table (firstTable cfg n))) := by
  cases hr : cfg.rollback with
  | false => exact (init_plain hr).1
  | true => exact (init_rollback hr).1

theorem inv_once_init (cfg : Cfg) (n : Nat) : LedgerInv (⟨init cfg n, []⟩ : Ledger n) := by
  refine ⟨[], rfl, (fun _ h => nomatch h), ⟨fun a t ht => ?_, (fun _ h => nomatch h)⟩,
    fun h => nomatch h⟩
  rw [init_files] at ht
  by_cases ha : tableFid a = tableFid 0
  · rw [ha, Function.update_self] at ht
    cases ht
    exact ⟨fun _ _ h => absurd rfl h, (fun _ h => nomatch h)⟩
  · rw [Function.update_of_ne ha] at ht
    cases ht

theorem inv_once_inductive (cfg : Cfg) (n : Nat) : (onceLts cfg n).Inductive LedgerInv where
  init := fun _ hx => hx ▸ inv_once_init cfg n
  step := fun _ _ _ h hs => inv_once_step h hs

/-- Information that was returned is what the table records. -/
theorem getInfo_recorded {uid : Nat} {c : Int} {info : Nat × UInt32} {s' : Sys n} {p q : List Ev}
    (h : psObjectGetInfo uid c s p = .ok info s' q) :
    ∃ i tag, getObjectEntryIdx s.table.body uid c = some i ∧ (s.table.body.db i).tag = some tag ∧
      info = (tag.obj.data.length, tag.obj.flags) := by
  unfold psObjectGetInfo at h
  cases hi : getObjectEntryIdx s.table.body uid c with
  | none =>
    simp only [bind, Crash.get, hi] at h
    cases h
  | some i =>
    simp only [bind, Crash.get, hi] at h
    cases hr : psEncryptedObjectRead (objectFid i.val) (s.table.body.db i).tag s p with
    | ok o s₁ p₁ =>
      obtain ⟨iv, htag⟩ := decrypt_ok hr
      rw [hr] at h
      cases h
      exact ⟨i, _, rfl, htag, rfl⟩
    | err e s₁ p₁ =>
      rw [hr] at h
      cases h
    | cut s₁ =>
      rw [hr] at h
      cases h

/-- What holds of an object that was created write-once, while the partition is up:
it is as it was created, no operation on it succeeds, and what reads return of it
is what was created. -/
structure InPlace (cfg : Cfg) (s : Sys n) (uid : Nat) (clientId : Int) (obj : Obj) : Prop where
  view : s.view uid clientId = some obj
  refused : ∀ o : Op, o.uid = uid → o.clientId = clientId → ∀ p, (o.run cfg s p).isOk = false
  read : ∀ offset size p data s' q, psObjectRead uid clientId offset size s p = .ok data s' q →
    data = (obj.data.drop offset).take size
  info : ∀ p info s' q, psObjectGetInfo uid clientId s p = .ok info s' q →
    info = (obj.data.length, obj.flags)

theorem Keeping.inPlace (cfg : Cfg) (h : Keeping L s) (hL : Once L) {p : Pin n} (hp : p ∈ L) :
    InPlace cfg s p.uid p.clientId p.file.obj := by
  have hidx := h.names.idx hp
  have hentry := h.names.entry p hp
  refine ⟨?_, fun o hu hc q => ?_, fun offset size q data s' r hr => ?_, fun q info s' r hr => ?_⟩
  · simp only [Sys.view, viewOf, p.named, if_false, lookup, hidx, h.fixed.objs p hp, hentry,
      Pin.entry, if_true]
  · cases hr : o.run cfg s q with
    | ok a s' r =>
      have hrun := op_once cfg h hL o q fun _ _ => trivial
      rw [hr] at hrun
      exact absurd ⟨hu.symm, hc.symm⟩ (hrun.1.1 p hp)
    | err e s' r => rfl
    | cut s' => rfl
  · obtain ⟨i, tag, hi, ht, rfl⟩ := read_recorded hr
    rw [hidx] at hi
    cases hi
    rw [hentry] at ht
    cases ht
    rfl
  · obtain ⟨i, tag, hi, ht, rfl⟩ := getInfo_recorded hr
    rw [hidx] at hi
    cases hi
    rw [hentry] at ht
    cases ht
    rfl

/-- **Write-once objects.** In every run of operations and starts, calls failing and
the power cut anywhere: whenever the partition is up, every object that a successful
create made write-once, since the last start that wiped, is as it was created, every
create, write or delete on it fails, and every read of it that succeeds returns what
was created. -/
theorem write_once (cfg : Cfg) (n : Nat) (x : Ledger n) (h : (onceLts cfg n).Reachable x)
    (hup : x.dev.up = true) (uid : Nat) (clientId : Int) (obj : Obj)
    (hy : (uid, clientId, obj) ∈ x.created) : InPlace cfg x.dev.sys uid clientId obj := by
  obtain ⟨L, hL, honce, -, hkeep⟩ := ((inv_once_inductive cfg n).reachable x h).pins
  rw [← hL] at hy
  obtain ⟨p, hp, he⟩ := List.mem_map.1 hy
  cases he
  exact (hkeep hup).inPlace cfg honce hp

/-- A write-once object stays through a create whose save fails at the alignment of
the counters, a cut delete, and starts. -/
theorem write_once_cut :
    ∃ x : Ledger 3, (onceLts ⟨16, true, true⟩ 3).Reachable x ∧ x.dev.up = true ∧
    InPlace ⟨16, true, true⟩ x.dev.sys 5 1 ⟨2, 1, [7, 8]⟩ := by
  have he : (LTS.exec (ledgerStep ⟨16, true, true⟩) ⟨init ⟨16, true, true⟩ 3, []⟩
      [.boot [], .op (.create 5 1 1 [7, 8]) [],
        .op (.create 6 1 0 [1]) (List.replicate 12 .ok ++ [.fail]),
        .op (.create 6 1 0 [1]) [], .op (.delete 6 1) (List.replicate 12 .ok ++ [.cut 0]),
        .boot []]).map (fun x => decide (x.dev.up = true ∧ (5, 1, ⟨2, 1, [7, 8]⟩) ∈ x.created)) =
      some true := by
    decide +kernel
  obtain ⟨x, hx, hd⟩ := Option.map_eq_some_iff.1 he
  obtain ⟨hup, hy⟩ := of_decide_eq_true hd
  have hr : (onceLts ⟨16, true, true⟩ 3).Reachable x := LTS.reachable_exec _ (.init rfl) hx
  exact ⟨x, hr, hup, write_once ⟨16, true, true⟩ 3 x hr hup 5 1 _ hy⟩

end Tfm.L4.Ps
