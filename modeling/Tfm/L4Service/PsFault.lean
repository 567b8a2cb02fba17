import Tfm.L4Service.PsSave

/-!
# Protected Storage: operations with failing calls

What the operations do when calls fail, with and without rollback protection. The
object table in RAM and the object files agree whatever fails (`Live`). The table
that a start selects is the one in RAM (`Settled`) as long as no call of
`ps_object_table_align_nv_counters` fails, which comes after the table was written
and is undone as if it had not been, and as long as the swap count that is written
is preferred to the one it replaces (`Ahead`).

Results:
* `commit_at`: a save, and the end of the operation.
* `op_at`: every operation.
* `Idle`, `Undone`, `Switched`: the states it can leave, and what they keep.
-/
namespace Tfm.L4.Ps
open Tfm.Crash

variable {n : Nat} {G : Nat → Ev → Prop} {i : Nat} {s : Sys n}

/-! ## What RAM and storage hold -/

/-- One entry for each object. -/
def Uniq (b : Body n) : Prop :=
  ∀ i j, (b.db i).uid ≠ 0 → (b.db i).uid = (b.db j).uid →
    (b.db i).clientId = (b.db j).clientId → i = j

/-- The running partition: the objects of the table in RAM are in their files. -/
structure Live (s : Sys n) : Prop where
  body : BodyOk s.files s.table.body
  uniq : Uniq s.table.body
  scratch : s.scratch = other s.active
  le2 : s.nvc .c2 ≤ s.nvc .c1
  le3 : s.nvc .c3 ≤ s.nvc .c1
  max : s.nvc .c1 ≤ nvcMax

/-- Of two valid tables, the one at `a` with swap count `x` is selected over the
other one, with swap count `y`. -/
def newer (cfg : Cfg) (a : Fin 2) (x y : Nat) : Prop :=
  activeTable cfg .valid .valid (if a = 0 then x else y) (if a = 0 then y else x) = some a

instance (cfg : Cfg) (a : Fin 2) (x y : Nat) : Decidable (newer cfg a x y) :=
  inferInstanceAs (Decidable (_ = _))

/-- Storage from which a start selects the table `t` at `a`. -/
structure Holds (cfg : Cfg) (files : Nat → Option (File n)) (nvc : Nvc → Nat) (a : Fin 2)
    (t : Table n) : Prop where
  file : files (tableFid a) = some (.table t)
  body : BodyOk files t.body
  uniq : Uniq t.body
  le2 : nvc .c2 ≤ nvc .c1
  le3 : nvc .c3 ≤ nvc .c1
  max : nvc .c1 ≤ nvcMax
  plain : cfg.rollback = false → t.auth none = true ∧ ∀ u,
    files (tableFid (other a)) = some (.table u) → newer cfg a t.body.swapCount u.body.swapCount
  tag : cfg.rollback = true → ∃ v, t.auth (some v) = true ∧ 1 ≤ v ∧
    (v = nvc .c1 ∨ v = nvc .c3 ∧ nvc .c2 = nvc .c3) ∧
    ∀ u w, files (tableFid (other a)) = some (.table u) → u.auth (some w) = true → w < v

/-- A start selects the table in RAM. -/
structure Settled (cfg : Cfg) (s : Sys n) (t : Table n) : Prop where
  holds : Holds cfg s.files s.nvc s.active t
  db : t.body.db = s.table.body.db
  tag : cfg.rollback = true → t.auth (some (s.nvc .c3)) = true ∧ s.nvc .c2 = s.nvc .c3

/-- What was done of an operation was undone. -/
structure Undone (s s' : Sys n) : Prop where
  db : s'.table.body.db = s.table.body.db
  version : s'.table.body.version = s.table.body.version
  objs : SameObjs s.table.body s.files s'.files
  scratch : s'.scratch = other s'.active
  le2 : s'.nvc .c2 ≤ s'.nvc .c1
  le3 : s'.nvc .c3 ≤ s'.nvc .c1
  max : s'.nvc .c1 ≤ nvcMax

/-- No table was written, and no file of an object was changed. -/
structure Untouched (s s' : Sys n) : Prop where
  objs : SameObjs s.table.body s.files s'.files
  active : s'.active = s.active
  tables : ∀ a, s'.files (tableFid a) = s.files (tableFid a)
  eq2 : s'.nvc .c2 = s.nvc .c2
  eq3 : s'.nvc .c3 = s.nvc .c3
  le1 : s.nvc .c1 ≤ s'.nvc .c1
  max : s'.nvc .c1 ≤ nvcMax

structure Idle (s s' : Sys n) : Prop extends Undone s s', Untouched s s'

/-- The table in RAM was written, and the tables were switched. -/
structure Switched (cfg : Cfg) (s s' : Sys n) : Prop where
  active : s'.active = s.scratch
  scratch : s'.scratch = s.active
  file : s'.files (tableFid s.scratch) = some (.table s'.table)
  old : s'.files (tableFid s.active) = s.files (tableFid s.active) ∨
    s'.files (tableFid s.active) = none
  body : BodyOk s'.files s'.table.body
  uniq : Uniq s'.table.body
  plain : cfg.rollback = false → s'.table.auth none = true ∧
    s'.table.body.swapCount = nextSwapCount s.table.body.swapCount ∧ s'.nvc = s.nvc
  tag : cfg.rollback = true → s'.table.auth (some (s.nvc .c1 + 1)) = true ∧
    s.nvc .c1 < nvcMax ∧ s'.nvc .c1 = s.nvc .c1 + 1
  le2 : s'.nvc .c2 ≤ s'.nvc .c1
  le3 : s'.nvc .c3 ≤ s'.nvc .c1

theorem BodyOk.db_congr {f : Nat → Option (File n)} {b b' : Body n} (h : BodyOk f b)
    (hdb : b'.db = b.db) (hv : b'.version = b.version) : BodyOk f b' := by
  refine ⟨hv.trans h.version, ?_, ?_⟩
  · rw [hdb]
    exact h.objs
  · rw [hdb]
    exact h.clean

theorem Uniq.db_congr {b b' : Body n} (h : Uniq b) (hdb : b'.db = b.db) : Uniq b' := by
  unfold Uniq
  rw [hdb]
  exact h

theorem viewOf_db_congr {f : Nat → Option (File n)} {b b' : Body n} (hdb : b'.db = b.db) :
    viewOf b' f = viewOf b f := by
  unfold viewOf lookup getObjectEntryIdx
  rw [hdb]

theorem Undone.live {s' : Sys n} (h : Undone s s') (hl : Live s) : Live s' :=
  ⟨(hl.body.congr h.objs).db_congr h.db h.version, hl.uniq.db_congr h.db, h.scratch, h.le2, h.le3,
    h.max⟩

theorem Undone.view {s' : Sys n} (h : Undone s s') : s'.view = s.view := by
  unfold Sys.view
  rw [viewOf_db_congr h.db]
  exact viewOf_congr h.objs

theorem Untouched.holds {cfg : Cfg} {s' : Sys n} {t : Table n} (h : Untouched s s')
    (ht : Settled cfg s t) : Holds cfg s'.files s'.nvc s'.active t := by
  have hobjs : SameObjs t.body s.files s'.files := by
    unfold SameObjs
    rw [ht.db]
    exact h.objs
  have hle := h.le1
  have h2 := ht.holds.le2
  have h3 := ht.holds.le3
  refine ⟨?_, ht.holds.body.congr hobjs, ht.holds.uniq, ?_, ?_, h.max, ?_, ?_⟩
  · rw [h.active, h.tables]
    exact ht.holds.file
  · rw [h.eq2]
    omega
  · rw [h.eq3]
    omega
  · rw [h.active, h.tables]
    exact ht.holds.plain
  · intro hr
    obtain ⟨v, hv, hpos, -, hold⟩ := ht.holds.tag hr
    obtain ⟨h3, h23⟩ := ht.tag hr
    have hv3 : v = s.nvc .c3 := Option.some.inj (auth_inj hv h3)
    rw [h.active, h.tables, h.eq2, h.eq3]
    exact ⟨v, hv, hpos, .inr ⟨hv3, h23⟩, hold⟩

theorem Idle.settled {cfg : Cfg} {s' : Sys n} {t : Table n} (h : Idle s s')
    (ht : Settled cfg s t) : Settled cfg s' t := by
  refine ⟨h.toUntouched.holds ht, ht.db.trans h.db.symm, ?_⟩
  rw [h.eq2, h.eq3]
  exact ht.tag

/-- The next swap count is selected over the one of the table in the file. -/
def Ahead (cfg : Cfg) (s : Sys n) (t : Table n) : Prop :=
  cfg.rollback = false →
    newer cfg s.scratch (nextSwapCount s.table.body.swapCount) t.body.swapCount

theorem Switched.live {cfg : Cfg} {s' : Sys n} (h : Switched cfg s s') (hl : Live s) : Live s' := by
  refine ⟨h.body, h.uniq, ?_, h.le2, h.le3, ?_⟩
  · rw [h.scratch, h.active, hl.scratch, other_other]
  · cases hr : cfg.rollback with
    | false =>
      rw [(h.plain hr).2.2]
      exact hl.max
    | true =>
      have := h.tag hr
      omega

theorem Switched.holds {cfg : Cfg} {s' : Sys n} {t : Table n} (h : Switched cfg s s') (hl : Live s)
    (ht : Settled cfg s t) (ha : Ahead cfg s t) : Holds cfg s'.files s'.nvc s'.active s'.table := by
  have hlive := h.live hl
  have hother : ∀ u, s'.files (tableFid (other s'.active)) = some (.table u) → u = t := by
    intro u hu
    rw [h.active, hl.scratch, other_other] at hu
    rcases h.old with ho | ho
    · rw [ho, ht.holds.file] at hu
      cases hu
      rfl
    · rw [ho] at hu
      cases hu
  refine ⟨h.active ▸ h.file, h.body, h.uniq, h.le2, h.le3, hlive.max, fun hr => ?_, fun hr => ?_⟩
  · refine ⟨(h.plain hr).1, fun u hu => ?_⟩
    rw [hother u hu, h.active, (h.plain hr).2.1]
    exact ha hr
  · obtain ⟨hauth, -, hc1⟩ := h.tag hr
    refine ⟨_, hauth, by omega, .inl hc1.symm, fun u w hu hw => ?_⟩
    have hle := ht.holds.le3
    rw [hother u hu] at hw
    have := Option.some.inj (auth_inj hw (ht.tag hr).1)
    omega

theorem Switched.settled {cfg : Cfg} {s' : Sys n} {t : Table n} (h : Switched cfg s s')
    (hl : Live s) (ht : Settled cfg s t) (ha : Ahead cfg s t)
    (hc : cfg.rollback = true → s'.nvc .c2 = s'.nvc .c1 ∧ s'.nvc .c3 = s'.nvc .c1) :
    Settled cfg s' s'.table := by
  refine ⟨h.holds hl ht ha, rfl, fun hr => ?_⟩
  obtain ⟨hauth, -, hc1⟩ := h.tag hr
  obtain ⟨h2, h3⟩ := hc hr
  rw [h2, h3, hc1]
  exact ⟨hauth, rfl⟩

/-! ## Entries -/

def Entry.names (e : Entry) (uid : Nat) (c : Int) : Prop := e.uid = uid ∧ e.clientId = c

theorem getObjectEntryIdx_none {b : Body n} {uid : Nat} {c : Int} :
    getObjectEntryIdx b uid c = none ↔ ∀ i, ¬ (b.db i).names uid c := by
  simp [getObjectEntryIdx, List.find?_eq_none, Entry.names]

theorem getObjectEntryIdx_uniq {b : Body n} {uid : Nat} {c : Int} {i : Fin n} (h : Uniq b)
    (hu : uid ≠ 0) (hi : (b.db i).names uid c) : getObjectEntryIdx b uid c = some i := by
  cases hj : getObjectEntryIdx b uid c with
  | none => exact absurd hi (getObjectEntryIdx_none.1 hj i)
  | some j =>
    obtain ⟨hju, hjc⟩ := getObjectEntryIdx_some hj
    rw [h j i (by rw [hju]; exact hu) (hju.trans hi.1.symm) (hjc.trans hi.2.symm)]

/-- The object of an entry. -/
theorem viewOf_entry {f : Nat → Option (File n)} {b : Body n} {uid : Nat} {c : Int} {i : Fin n}
    {tag : ObjTag} (hb : BodyOk f b) (h : Uniq b) (hu : uid ≠ 0)
    (hi : b.db i = ⟨some tag, uid, c⟩) : viewOf b f uid c = some tag.obj := by
  have hidx := getObjectEntryIdx_uniq h hu (i := i) (c := c) (by rw [hi]; exact ⟨rfl, rfl⟩)
  obtain ⟨o, hf, ht⟩ := hb.objs i (by rw [hi]; exact hu)
  unfold viewOf lookup
  rw [if_neg hu, hidx]
  simp only [hf, ht, if_true]
  rw [hi] at ht
  cases ht
  rfl

/-- The entries that name an object, and their files, are the same. -/
theorem viewOf_names {f f' : Nat → Option (File n)} {b b' : Body n} {uid : Nat} {c : Int}
    (h : uid ≠ 0 → ∀ i, (b.db i).names uid c ∨ (b'.db i).names uid c →
      b'.db i = b.db i ∧ f' (objectFid i.val) = f (objectFid i.val)) :
    viewOf b' f' uid c = viewOf b f uid c := by
  unfold viewOf
  split
  · rfl
  · rename_i hu
    have hidx : getObjectEntryIdx b' uid c = getObjectEntryIdx b uid c := by
      unfold getObjectEntryIdx
      congr 1
      funext i
      by_cases hi : (b.db i).names uid c ∨ (b'.db i).names uid c
      · rw [(h hu i hi).1]
      · simp only [Entry.names, not_or, not_and] at hi
        rw [Bool.eq_iff_iff]
        simp only [Bool.and_eq_true, beq_iff_eq]
        exact ⟨fun hb => absurd hb.2 (hi.2 hb.1), fun hb => absurd hb.2 (hi.1 hb.1)⟩
    unfold lookup
    rw [hidx]
    cases hi : getObjectEntryIdx b uid c with
    | none => rfl
    | some i =>
      obtain ⟨hdb, hf⟩ := h hu i (.inl (getObjectEntryIdx_some hi))
      simp only [hdb, hf]

theorem Uniq.clear {b : Body n} (h : Uniq b) (i : Fin n) : Uniq (b.set i .empty) := by
  have hne : ∀ j, ((b.set i .empty).db j).uid ≠ 0 → j ≠ i := by
    intro j hj hji
    subst hji
    exact hj (by simp [Body.set, Entry.empty])
  intro j k hj hu hc
  have hj' := hne j hj
  have hk' := hne k (hu ▸ hj)
  simp only [Body.set, Function.update_of_ne hj', Function.update_of_ne hk'] at hj hu hc
  exact h j k hj hu hc

theorem Uniq.insert {b : Body n} (h : Uniq b) {i : Fin n} {e : Entry}
    (hfree : ∀ j, ¬ (b.db j).names e.uid e.clientId) : Uniq (b.set i e) := by
  intro j k hj hu hc
  simp only [Body.set] at hj hu hc
  by_cases hji : j = i
  · by_cases hki : k = i
    · rw [hji, hki]
    · subst hji
      rw [Function.update_self, Function.update_of_ne hki] at hu hc
      exact absurd ⟨hu.symm, hc.symm⟩ (hfree k)
  · by_cases hki : k = i
    · subst hki
      rw [Function.update_self, Function.update_of_ne hji] at hu hc
      exact absurd ⟨hu, hc⟩ (hfree j)
    · rw [Function.update_of_ne hji, Function.update_of_ne hki] at hu hc
      rw [Function.update_of_ne hji] at hj
      exact h j k hj hu hc

theorem cleared_names {b : Body n} (h : Uniq b) {uid : Nat} {c : Int} (hu : uid ≠ 0) (j : Fin n) :
    ¬ ((cleared b uid c).db j).names uid c := by
  unfold cleared
  cases hi : getObjectEntryIdx b uid c with
  | none => exact getObjectEntryIdx_none.1 hi j
  | some i =>
    by_cases hji : j = i
    · subst hji
      intro hx
      obtain ⟨h₁, -⟩ := hx
      exact hu (by simpa [Body.set, Entry.empty] using h₁.symm)
    · intro hn
      simp only [Body.set, Function.update_of_ne hji] at hn
      have := getObjectEntryIdx_uniq h hu hn
      rw [hi] at this
      exact hji (Option.some.inj this).symm

theorem cleared_uniq {b : Body n} (h : Uniq b) (uid : Nat) (c : Int) : Uniq (cleared b uid c) := by
  unfold cleared
  cases getObjectEntryIdx b uid c with
  | none => exact h
  | some i => exact h.clear i

theorem cleared_ok {f : Nat → Option (File n)} {b : Body n} (h : BodyOk f b) (uid : Nat) (c : Int) :
    BodyOk f (cleared b uid c) := by
  unfold cleared
  cases getObjectEntryIdx b uid c with
  | none => exact h
  | some i => exact h.clear i

/-- Entries of other objects. -/
theorem cleared_other {b : Body n} {uid u : Nat} {c c' : Int} (hne : ¬ (u = uid ∧ c' = c))
    (hu : u ≠ 0) {j : Fin n} (hj : (b.db j).names u c' ∨ ((cleared b uid c).db j).names u c') :
    (cleared b uid c).db j = b.db j := by
  unfold cleared at hj ⊢
  cases hi : getObjectEntryIdx b uid c with
  | none => rfl
  | some i =>
    rw [hi] at hj
    by_cases hji : j = i
    · subst hji
      obtain ⟨hiu, hic⟩ := getObjectEntryIdx_some hi
      rcases hj with ⟨h₁, h₂⟩ | ⟨h₁, -⟩
      · exact absurd ⟨h₁.symm.trans hiu, h₂.symm.trans hic⟩ hne
      · exact absurd (by simpa [Body.set, Entry.empty] using h₁.symm) hu
    · simp only [Body.set, Function.update_of_ne hji]

/-! ## The commit point -/

/-- The table in RAM can be saved: its objects are in their files. -/
structure Staged (s s₁ : Sys n) : Prop where
  nvc : s₁.nvc = s.nvc
  active : s₁.active = s.active
  scratch : s₁.scratch = s.scratch
  tables : ∀ a, s₁.files (tableFid a) = s.files (tableFid a)
  swapCount : s₁.table.body.swapCount = s.table.body.swapCount
  body : BodyOk s₁.files s₁.table.body
  uniq : Uniq s₁.table.body

/-- The operation is done: `r` is what it leaves under the uid and the client id. -/
structure Done (cfg : Cfg) (s : Sys n) (uid : Nat) (c : Int) (r : Option Obj) (s' : Sys n) : Prop
    extends Switched cfg s s' where
  aligned : cfg.rollback = true → s'.nvc .c2 = s'.nvc .c1 ∧ s'.nvc .c3 = s'.nvc .c1
  mine : s'.view uid c = r
  others : ∀ u c', ¬ (u = uid ∧ c' = c) → s'.view u c' = s.view u c'

/-- A call of the alignment can fail, the first one being call `lo`. -/
def AlignFails (cfg : Cfg) (G : Nat → Ev → Prop) (lo : Nat) (s : Sys n) : Prop :=
  cfg.rollback = true ∧ ∃ k, lo ≤ k ∧ k < lo + alignLen s ∧ G k .fail

/-- The ends of an operation whose alignment starts with call `lo`. -/
def opAt (cfg : Cfg) (G : Nat → Ev → Prop) (lo : Nat) (s : Sys n) (uid : Nat) (c : Int)
    (r : Option Obj) : PostAt PsaStatus (Sys n) Unit where
  ok _ s' _ := Done cfg s uid c r s'
  err _ s' _ := Idle s s' ∨ (Undone s s' ∧ AlignFails cfg G lo s) ∨ Done cfg s uid c r s'
  cut s' := Untouched s s' ∨ Switched cfg s s' ∨ AlignFails cfg G lo s

theorem Idle.refl (h : Live s) : Idle s s :=
  ⟨⟨rfl, rfl, fun _ _ => rfl, h.scratch, h.le2, h.le3, h.max⟩, rfl, fun _ => rfl, rfl, rfl,
    Nat.le_refl _⟩

section Commit

variable {cfg : Cfg} {s₁ s' : Sys n}

theorem Wrote.switched (hw : Wrote cfg s₁ s') (h : Staged s s₁) (hl : Live s) : Switched cfg s s' := by
  have hb : BodyOk s'.files s'.table.body := by
    refine BodyOk.db_congr ?_ hw.db hw.version
    rw [hw.files]
    exact h.body.congr (sameObjs_table _ _ _ _)
  have hne : tableFid s.active ≠ tableFid s₁.scratch := by
    intro he
    rw [h.scratch, hl.scratch] at he
    exact other_ne _ (tableFid_inj he).symm
  refine ⟨hw.active.trans h.scratch, hw.scratch.trans h.active, ?_, .inl ?_, hb,
    h.uniq.db_congr hw.db, fun hr => ?_, fun hr => ?_, hw.le2.2, hw.le3.2⟩
  · rw [hw.files, h.scratch, Function.update_self]
  · rw [hw.files, Function.update_of_ne hne, h.tables]
  · obtain ⟨h₁, h₂, h₃⟩ := hw.plain hr
    exact ⟨h₁, h₂.trans (congrArg nextSwapCount h.swapCount), h₃.trans h.nvc⟩
  · rw [← h.nvc]
    exact hw.tag hr

theorem Wrote.view (hw : Wrote cfg s₁ s') : s'.view = s₁.view := by
  unfold Sys.view
  rw [viewOf_db_congr hw.db, hw.files]
  exact viewOf_congr (sameObjs_table _ _ _ _)

/-- Files that the table does not name are removed. -/
theorem Done.remove {uid : Nat} {c : Int} {r : Option Obj} (h : Done cfg s uid c r s')
    {files : Nat → Option (File n)}
    (hnew : files (tableFid s.scratch) = s'.files (tableFid s.scratch))
    (hold : files (tableFid s.active) = s'.files (tableFid s.active) ∨
      files (tableFid s.active) = none)
    (hobjs : SameObjs s'.table.body s'.files files) : Done cfg s uid c r { s' with files := files } := by
  have hview : ({ s' with files := files } : Sys n).view = s'.view := viewOf_congr hobjs
  refine ⟨⟨h.active, h.scratch, hnew.trans h.file, ?_, h.body.congr hobjs, h.uniq, h.plain, h.tag,
    h.le2, h.le3⟩, h.aligned, ?_, ?_⟩
  · rcases hold with ho | ho
    · exact h.old.imp ho.trans ho.trans
    · exact .inr ho
  · rw [hview]
    exact h.mine
  · rw [hview]
    exact h.others

/-- A remove; `P` holds whether or not it was done. -/
theorem itsRemove_at {P : Sys n → Prop} {fid : Nat} (h : P s)
    (h' : P { s with files := Function.update s.files fid none }) :
    wpAt G i (psaItsRemove fid) s ⟨fun _ t _ => P t, fun _ t _ => P t, P⟩ := by
  refine wpAt_ext ?_ ?_ (fun _ => h) h
  · intro a t ht
    split at ht
    · cases ht
      exact h'
    · cases ht
  · intro e t ht
    split at ht
    · cases ht
    · cases ht
      exact h

/-- The end of an operation. -/
theorem finish_at {uid : Nat} {c : Int} {r : Option Obj} (hl : Live s) (h : Done cfg s uid c r s')
    (old : Option (Fin n)) (hold : ∀ j ∈ old, (s'.table.body.db j).uid = 0) :
    wpAt G i (finish (old.map fun j => objectFid j.val)) s'
      ⟨fun _ t _ => Done cfg s uid c r t, fun _ t _ => Done cfg s uid c r t,
        fun t => Done cfg s uid c r t⟩ := by
  have hne : tableFid s.scratch ≠ tableFid s'.scratch := by
    intro he
    rw [h.scratch, hl.scratch] at he
    exact other_ne _ (tableFid_inj he)
  have htab : Done cfg s uid c r
      { s' with files := Function.update s'.files (tableFid s'.scratch) none } := by
    refine h.remove (Function.update_of_ne hne _ _) (.inr ?_) (sameObjs_table _ _ _ _)
    rw [h.scratch]
    exact Function.update_self ..
  have hdel : ∀ i, wpAt G i psObjectTableDeleteOldTable s'
      ⟨fun _ t _ => Done cfg s uid c r t ∧ t.table = s'.table, fun _ t _ => Done cfg s uid c r t,
        fun t => Done cfg s uid c r t⟩ := fun i =>
    wpAt_bind (wpAt_get (wpAt_mono
      (itsRemove_at (P := fun t => Done cfg s uid c r t ∧ t.table = s'.table) ⟨h, rfl⟩ ⟨htab, rfl⟩)
      (fun _ _ _ ht => ht) (fun _ _ _ ht => ht.1) fun _ ht => ht.1))
  cases old with
  | none => exact wpAt_mono (hdel i) (fun _ _ _ ht => ht.1) (fun _ _ _ ht => ht) fun _ ht => ht
  | some j =>
    refine wpAt_bind (wpAt_mono (hdel i) ?_ (fun _ _ _ ht => ht) fun _ ht => ht)
    intro _ t k hx
    obtain ⟨ht, htable⟩ := hx
    have hj : (t.table.body.db j).uid = 0 := by
      rw [htable]
      exact hold j rfl
    exact itsRemove_at ht (ht.remove (Function.update_of_ne (tableFid_ne_objectFid _ _) _ _)
      (.inl (Function.update_of_ne (tableFid_ne_objectFid _ _) _ _)) (sameObjs_object t.files hj none))

/-- Up to the write of the table. -/
theorem Before.untouched (hb : Before s₁ s') (h : Staged s s₁) (hl : Live s)
    (hobjs : SameObjs s.table.body s.files s₁.files) : Untouched s s' := by
  have hc : s'.nvc .c2 = s.nvc .c2 ∧ s'.nvc .c3 = s.nvc .c3 ∧ s.nvc .c1 ≤ s'.nvc .c1 ∧
      s'.nvc .c1 ≤ nvcMax := by
    have hnvc := hb.nvc
    unfold setNvc at hnvc
    rw [h.nvc] at hnvc
    rcases hnvc with hn | ⟨hlt, hn⟩
    · rw [hn]
      exact ⟨rfl, rfl, Nat.le_refl _, hl.max⟩
    · rw [hn]
      simp
      omega
  refine ⟨?_, hb.active.trans h.active, ?_, hc.1, hc.2.1, hc.2.2.1, hc.2.2.2⟩
  · rw [hb.files]
    exact hobjs
  · rw [hb.files]
    exact h.tables

/-- A save. -/
theorem commit_at {uid : Nat} {c : Int} {r : Option Obj} (old : Option (Fin n)) (hl : Live s)
    (h : Staged s s₁) (hobjs : SameObjs s.table.body s.files s₁.files)
    (hmine : s₁.view uid c = r)
    (hothers : ∀ u c', ¬ (u = uid ∧ c' = c) → s₁.view u c' = s.view u c')
    (hold : ∀ j ∈ old, (s₁.table.body.db j).uid = 0) :
    wpAt G i (psObjectTableSaveTable cfg) s₁
      ⟨fun _ s' j => wpAt G j (finish (old.map fun j => objectFid j.val)) s'
          (opAt cfg G (i + 6) s uid c r),
        fun _ s' _ => Before s₁ s' ∨ (Wrote cfg s₁ s' ∧ AlignFails cfg G (i + 6) s),
        (opAt cfg G (i + 6) s uid c r).cut⟩ := by
  refine save_at ?_ ?_ (fun _ _ _ hb => .inl hb) ?_ ?_ ?_ ?_
  · rw [h.nvc]
    exact hl.le2
  · rw [h.nvc]
    exact hl.le3
  · intro s' hx
    obtain hb | hw := hx
    · exact .inl (hb.untouched h hl hobjs)
    · exact .inr (.inl (hw.switched h hl))
  · rw [h.nvc]
    exact hl.max
  · intro s' j hw hal
    have hdone : Done cfg s uid c r s' := by
      refine ⟨hw.switched h hl, hal, ?_, ?_⟩
      · rw [hw.view]
        exact hmine
      · rw [hw.view]
        exact hothers
    refine wpAt_mono (finish_at hl hdone old ?_) (fun _ _ _ ht => ht) (fun _ _ _ ht => .inr (.inr ht))
      fun _ ht => .inr (.inl ht.toSwitched)
    intro j hj
    rw [hw.db]
    exact hold j hj
  · intro e s' j k hw hr hlo hk hG
    refine .inr ⟨hw, hr, k, hlo, ?_, hG⟩
    unfold alignLen at hk ⊢
    rw [h.nvc] at hk
    exact hk

/-- The entries are put back after an error before the write. -/
theorem Before.idle (hb : Before s₁ s') (h : Staged s s₁) (hl : Live s)
    (hobjs : SameObjs s.table.body s.files s₁.files) {b : Body n}
    (hdb : b.db = s.table.body.db) (hv : b.version = s'.table.body.version) :
    Idle s (withBody s' b) := by
  have hu := hb.untouched h hl hobjs
  have hle := hu.le1
  have h2 := hl.le2
  have h3 := hl.le3
  refine ⟨⟨hdb, ?_, hu.objs, ?_, ?_, ?_, hu.max⟩, hu.active, hu.tables, hu.eq2, hu.eq3, hu.le1⟩
  · exact hv.trans (hb.version.trans (h.body.version.trans hl.body.version.symm))
  · show s'.scratch = other s'.active
    rw [hb.scratch, h.scratch, hl.scratch, hb.active, h.active]
  · show s'.nvc .c2 ≤ s'.nvc .c1
    rw [hu.eq2]
    omega
  · show s'.nvc .c3 ≤ s'.nvc .c1
    rw [hu.eq3]
    omega

/-- And after an error of the alignment. -/
theorem Wrote.undone (hw : Wrote cfg s₁ s') (h : Staged s s₁) (hl : Live s)
    (hobjs : SameObjs s.table.body s.files s₁.files) {b : Body n}
    (hdb : b.db = s.table.body.db) (hv : b.version = s'.table.body.version) :
    Undone s (withBody s' b) := by
  have hlive := (hw.switched h hl).live hl
  refine ⟨hdb, ?_, ?_, hlive.scratch, hlive.le2, hlive.le3, hlive.max⟩
  · exact hv.trans (hw.version.trans (h.body.version.trans hl.body.version.symm))
  · intro j hj
    show s'.files (objectFid j.val) = s.files (objectFid j.val)
    rw [hw.files, Function.update_of_ne (tableFid_ne_objectFid _ _).symm]
    exact hobjs j hj

theorem Undone.object (h : Undone s s') {j : Fin n} (hj : (s.table.body.db j).uid = 0)
    (x : Option (File n)) :
    Undone s { s' with files := Function.update s'.files (objectFid j.val) x } := by
  refine ⟨h.db, h.version, fun k hk => ?_, h.scratch, h.le2, h.le3, h.max⟩
  exact (sameObjs_object s'.files hj x k hk).trans (h.objs k hk)

theorem Idle.object (h : Idle s s') {j : Fin n} (hj : (s.table.body.db j).uid = 0)
    (x : Option (File n)) (iv : Iv) (u : List Iv) :
    Idle s { s' with files := Function.update s'.files (objectFid j.val) x, iv := iv, used := u } := by
  have hu := h.toUndone.object hj x
  refine ⟨⟨h.db, h.version, hu.objs, h.scratch, h.le2, h.le3, h.max⟩, h.active, fun a => ?_, h.eq2,
    h.eq3, h.le1⟩
  exact (Function.update_of_ne (tableFid_ne_objectFid _ _) _ _).trans (h.tables a)

end Commit

/-! ## Operations -/

section Ops

variable {cfg : Cfg}

theorem getFreeFid_at {num : Nat} {j : Fin n} {Q : PostAt PsaStatus (Sys n) Nat}
    (hj : tableFreeIdx s.table.body num (List.finRange n) = some j)
    (hok : Q.ok (objectFid j.val)
      { s with files := Function.update s.files (objectFid j.val) none } (i + 1))
    (herr : ∀ e, Q.err e s (i + 1)) (hcut : Q.cut s) :
    wpAt G i (psObjectTableGetFreeFid num) s Q := by
  refine wpAt_bind (wpAt_get ?_)
  simp only [hj]
  refine wpAt_bind (wpAt_attempt ?_)
  cases hf : s.files (objectFid j.val) with
  | none =>
    have hs : { s with files := Function.update s.files (objectFid j.val) none } = s := by
      rw [← hf, Function.update_eq_self]
    rw [hs] at hok
    refine wpAt_ext ?_ ?_ (fun _ => wpAt_throw (herr _)) hcut
    · intro a t ht
      simp [hf] at ht
    · intro e t ht
      simp only [hf, Prod.mk.injEq, Except.error.injEq] at ht
      obtain ⟨rfl, rfl⟩ := ht
      exact wpAt_pure hok
  | some file =>
    refine wpAt_ext_ok (a := ()) ?_ (wpAt_pure hok) (fun _ => wpAt_throw (herr _)) hcut
    simp only [hf]

theorem objectWrite_at {fid : Nat} {obj : Obj} {Q : PostAt PsaStatus (Sys n) ObjTag}
    (hok : ∀ iv, Q.ok ⟨iv, fid, obj⟩ { s with
      files := Function.update s.files fid (some (.object ⟨iv, obj⟩))
      iv := iv
      used := iv :: s.used } (i + 4))
    (herr : ∀ e iv u j, Q.err e { s with iv := iv, used := u } j)
    (hcut : ∀ iv u, Q.cut { s with iv := iv, used := u }) :
    wpAt G i (psEncryptedObjectWrite fid obj) s Q := by
  refine wpAt_bind (wpAt_ext_ok rfl ?_ (fun _ => herr _ s.iv s.used _) (hcut s.iv s.used))
  refine wpAt_bind (wpAt_bind (wpAt_get ?_))
  cases hn : s.iv.next with
  | none =>
    simp only [hn]
    exact wpAt_throw (herr _ s.iv s.used _)
  | some iv =>
    simp only [hn]
    refine wpAt_bind (wpAt_modify (wpAt_pure ?_))
    refine wpAt_bind (wpAt_attempt (wpAt_ext_ok rfl ?_ (fun _ => ?_) (hcut iv s.used)))
    · refine wpAt_bind (wpAt_ext_ok rfl ?_ (fun _ => herr _ iv (iv :: s.used) _)
        (hcut iv (iv :: s.used)))
      refine wpAt_bind (wpAt_itsSet ?_ (fun _ => herr _ iv (iv :: s.used) _)
        (hcut iv (iv :: s.used)))
      exact wpAt_pure (hok iv)
    · have hthrow : ∀ k, wpAt G k (throw PsaStatus.genericError) { s with iv := iv } Q :=
        fun k => wpAt_throw (herr _ iv s.used k)
      exact wpAt_bind (wpAt_attempt (wpAt_ext_ok rfl (hthrow _) (fun _ => hthrow _)
        (hcut iv s.used)))

theorem setInfo_at {uid : Nat} {c : Int} {j : Fin n} {tag : ObjTag}
    {Q : PostAt PsaStatus (Sys n) Unit}
    (h : wpAt G i (psObjectTableSaveTable cfg)
      (withBody s ((cleared s.table.body uid c).set j ⟨some tag, uid, c⟩))
      ⟨Q.ok, fun e s' k => Q.err e (withBody s' (restored s.table.body s'.table.body uid c j)) k,
        Q.cut⟩) :
    wpAt G i (psObjectTableSetObjTblInfo cfg uid c (objectFid j.val) tag) s Q := by
  have hidx : objectFidToIdx (objectFid j.val) = j.val := by simp [objectFidToIdx, objectFid]
  refine wpAt_bind (wpAt_get (wpAt_bind (wpAt_modify ?_)))
  have hlt : objectFidToIdx (objectFid j.val) < n := by
    rw [hidx]
    exact j.isLt
  have hfin : (⟨objectFidToIdx (objectFid j.val), hlt⟩ : Fin n) = j := Fin.ext hidx
  rw [dif_pos hlt, hfin]
  refine wpAt_bind (wpAt_modify (wpAt_bind (wpAt_attempt (wpAt_mono h ?_ ?_ fun _ hq => hq))))
  · exact fun _ _ _ hq => wpAt_pure hq
  · intro e s' k hq
    dsimp only
    refine wpAt_bind (wpAt_get ?_)
    dsimp only
    refine wpAt_bind (wpAt_modify ?_)
    exact wpAt_throw hq

theorem restored_db {b b' : Body n} {uid : Nat} {c : Int} {j : Fin n} (hu : uid ≠ 0)
    (hj : b.db j = .empty) {e : Entry} (hb : b'.db = ((cleared b uid c).set j e).db) :
    (restored b b' uid c j).db = b.db := by
  rw [← congrArg Body.db (restored_eq c hu hj e)]
  unfold restored
  cases getObjectEntryIdx b uid c with
  | none => simp only [Body.set, hb]
  | some k => simp only [Body.set, hb]

theorem restored_version (b b' : Body n) (uid : Nat) (c : Int) (j : Fin n) :
    (restored b b' uid c j).version = b'.version := by
  unfold restored
  cases getObjectEntryIdx b uid c with
  | none => rfl
  | some k => rfl

section Store

variable {uid : Nat} {j : Fin n}

theorem stored_staged (hl : Live s) (hu : uid ≠ 0) (hj : (s.table.body.db j).uid = 0) (c : Int)
    (iv : Iv) (obj : Obj) :
    Staged s (stored s uid c j iv obj) := by
  refine ⟨rfl, rfl, rfl, fun a => ?_, ?_, ?_, ?_⟩
  · exact Function.update_of_ne (tableFid_ne_objectFid _ _) _ _
  · show (cleared s.table.body uid c).swapCount = s.table.body.swapCount
    unfold cleared
    cases getObjectEntryIdx s.table.body uid c with
    | none => rfl
    | some k => rfl
  · exact (cleared_ok hl.body uid c).insert (cleared_free c hu hj) hu c
  · exact (cleared_uniq hl.uniq uid c).insert (cleared_names hl.uniq hu)

theorem stored_mine (hl : Live s) (hu : uid ≠ 0) (hj : (s.table.body.db j).uid = 0) (c : Int)
    (iv : Iv) (obj : Obj) : (stored s uid c j iv obj).view uid c = some obj := by
  have hst := stored_staged hl hu hj c iv obj
  have hentry : (stored s uid c j iv obj).table.body.db j =
      ⟨some ⟨iv, objectFid j.val, obj⟩, uid, c⟩ := by simp [stored, withBody, Body.set]
  exact viewOf_entry hst.body hst.uniq hu hentry

theorem stored_others (hj : (s.table.body.db j).uid = 0) {c : Int} (iv : Iv) (obj : Obj) {u : Nat}
    {c' : Int} (hne : ¬ (u = uid ∧ c' = c)) : (stored s uid c j iv obj).view u c' = s.view u c' := by
  refine viewOf_names fun hu k hk => ?_
  have hkj : k ≠ j := by
    intro h
    subst h
    rcases hk with ⟨h₁, -⟩ | ⟨h₁, h₂⟩
    · exact hu (h₁.symm.trans hj)
    · simp only [stored, withBody, Body.set, Function.update_self] at h₁ h₂
      exact hne ⟨h₁.symm, h₂.symm⟩
  have hdb : (stored s uid c j iv obj).table.body.db k = (cleared s.table.body uid c).db k := by
    simp only [stored, withBody, Body.set, Function.update_of_ne hkj]
  rw [hdb] at hk ⊢
  refine ⟨cleared_other hne hu hk, ?_⟩
  exact Function.update_of_ne (fun he => hkj (Fin.ext (objectFid_inj he))) _ _

/-- The common end of create and write. -/
theorem store_at (hl : Live s) (hu : uid ≠ 0) {c : Int} {obj : Obj} {num : Nat}
    {old : Option (Fin n)}
    (hold : getObjectEntryIdx s.table.body uid c = old) :
    wpAt G i (storeObject cfg num uid c obj (old.map fun k => objectFid k.val)) s
      (opAt cfg G (i + 11) s uid c (some obj)) := by
  have hrefl := Idle.refl hl
  cases hfree : tableFreeIdx s.table.body num (List.finRange n) with
  | none =>
    refine wpAt_bind (wpAt_bind (wpAt_get ?_))
    simp only [hfree]
    exact wpAt_throw (.inl hrefl)
  | some j =>
    have hj := tableFreeIdx_some hfree
    refine wpAt_bind (getFreeFid_at hfree ?_ (fun _ => .inl hrefl) (.inl hrefl.toUntouched))
    refine wpAt_bind (objectWrite_at ?_ ?_ ?_)
    · intro iv
      dsimp only
      rw [Function.update_idem]
      have hst := stored_staged hl hu hj c iv obj
      have hobjs : SameObjs s.table.body s.files (stored s uid c j iv obj).files :=
        sameObjs_object s.files hj _
      refine wpAt_bind (wpAt_attempt (setInfo_at (wpAt_mono (commit_at old hl hst hobjs
        (stored_mine hl hu hj c iv obj) (fun u c' => stored_others hj iv obj) ?_) ?_ ?_ ?_)))
      · intro k hk
        have hne := getObjectEntryIdx_ne hu (hold.trans hk) hj
        simp [withBody, cleared, hold.trans hk, Body.set, Function.update_of_ne hne, Entry.empty]
      · exact fun _ _ _ h => h
      · intro e s' k hs'
        have hdb : (restored s.table.body s'.table.body uid c j).db = s.table.body.db := by
          refine restored_db hu (hl.body.clean j hj)
            (e := ⟨some ⟨iv, objectFid j.val, obj⟩, uid, c⟩) ?_
          rcases hs' with hb | ⟨hw, -⟩
          · exact hb.db
          · exact hw.db
        have hv := restored_version s.table.body s'.table.body uid c j
        refine wpAt_bind (wpAt_attempt (wpAt_mono (itsRemove_at
          (P := fun t => Idle s t ∨ (Undone s t ∧ AlignFails cfg G (i + 11) s)) ?_ ?_) ?_ ?_ ?_))
        · rcases hs' with hb | ⟨hw, hal⟩
          · exact .inl (hb.idle hst hl hobjs hdb hv)
          · exact .inr ⟨hw.undone hst hl hobjs hdb hv, hal⟩
        · rcases hs' with hb | ⟨hw, hal⟩
          · exact .inl ((hb.idle hst hl hobjs hdb hv).object hj none _ _)
          · exact .inr ⟨(hw.undone hst hl hobjs hdb hv).object hj none, hal⟩
        · exact fun _ _ _ h => wpAt_throw (h.imp (fun h => h) fun h => .inl h)
        · exact fun _ _ _ h => wpAt_throw (h.imp (fun h => h) fun h => .inl h)
        · intro t hx
          obtain ht | ⟨-, hal⟩ := hx
          · exact .inl ht.toUntouched
          · exact .inr (.inr hal)
      · exact fun _ h => h
    · exact fun e iv u k => .inl (hrefl.object hj none iv u)
    · exact fun iv u => .inl (hrefl.object hj none iv u).toUntouched

end Store

theorem delete_staged (hl : Live s) (j : Fin n) :
    Staged s (withBody s (s.table.body.set j .empty)) :=
  ⟨rfl, rfl, rfl, fun _ => rfl, rfl, hl.body.clear j, hl.uniq.clear j⟩

theorem delete_at {uid : Nat} {c : Int} (hl : Live s) (hu : uid ≠ 0) {j : Fin n}
    (hj : getObjectEntryIdx s.table.body uid c = some j) :
    wpAt G i (do psObjectTableDeleteObject cfg uid c; psRemoveOldData (objectFid j.val)) s
      (opAt cfg G (i + 6) s uid c none) := by
  have hst := delete_staged hl j
  have hcl : cleared s.table.body uid c = s.table.body.set j .empty := by
    unfold cleared
    rw [hj]
  have hmine : (withBody s (s.table.body.set j .empty)).view uid c = none := by
    have hidx : getObjectEntryIdx (s.table.body.set j .empty) uid c = none := by
      rw [← hcl]
      exact getObjectEntryIdx_none.2 (cleared_names hl.uniq hu)
    unfold Sys.view viewOf lookup
    simp only [withBody, hidx, ite_self]
  have hothers : ∀ u c', ¬ (u = uid ∧ c' = c) →
      (withBody s (s.table.body.set j .empty)).view u c' = s.view u c' := by
    intro u c' hne
    refine viewOf_names fun hu k hk => ⟨?_, rfl⟩
    show (s.table.body.set j .empty).db k = s.table.body.db k
    rw [← hcl]
    refine cleared_other hne hu ?_
    rw [hcl]
    exact hk
  refine wpAt_bind (wpAt_bind (wpAt_get ?_))
  dsimp only
  rw [hj]
  dsimp only
  refine wpAt_bind (wpAt_modify ?_)
  refine wpAt_bind (wpAt_attempt (wpAt_mono (commit_at (some j) hl hst (fun _ _ => rfl) hmine
    hothers ?_) ?_ ?_ ?_))
  · intro k hk
    cases hk
    simp [Body.set, Entry.empty]
  · exact fun _ _ _ h => wpAt_pure h
  · intro e s' k hs'
    have hdb : (s'.table.body.set j (s.table.body.db j)).db = s.table.body.db := by
      have hs : s'.table.body.db = (s.table.body.set j .empty).db := by
        rcases hs' with hb | ⟨hw, -⟩
        · exact hb.db
        · exact hw.db
      simp only [Body.set, hs, Function.update_idem, Function.update_eq_self]
    dsimp only
    refine wpAt_bind (wpAt_get ?_)
    dsimp only
    refine wpAt_bind (wpAt_modify (wpAt_throw ?_))
    rcases hs' with hb | ⟨hw, hal⟩
    · exact .inl (hb.idle hst hl (fun _ _ => rfl) hdb rfl)
    · exact .inr (.inl ⟨hw.undone hst hl (fun _ _ => rfl) hdb rfl, hal⟩)
  · exact fun _ h => h

/-- Reading the object of an entry. -/
theorem read_at (hl : Live s) {uid : Nat} {c : Int} (hu : uid ≠ 0) {j : Fin n}
    (hj : getObjectEntryIdx s.table.body uid c = some j) :
    ∃ o, s.view uid c = some o ∧ ∀ {G : Nat → Ev → Prop} {i : Nat} {Q : PostAt PsaStatus (Sys n) Obj},
      Q.ok o s (i + 4) → (∀ e k, Q.err e s k) → Q.cut s →
        wpAt G i (psEncryptedObjectRead (objectFid j.val) (s.table.body.db j).tag) s Q := by
  have hlive : (s.table.body.db j).uid ≠ 0 := by
    rw [(getObjectEntryIdx_some hj).1]
    exact hu
  obtain ⟨o, hf, ht⟩ := hl.body.objs j hlive
  refine ⟨o.obj, ?_, fun {G i Q} hok herr hcut => ?_⟩
  · unfold Sys.view viewOf lookup
    simp only [if_neg hu, hj, hf, ht, if_true]
  · have hget : wpAt G i (psaItsGet (objectFid j.val)) s
        ⟨fun a s' k => k = i + 1 ∧ a = .object o ∧ s = s', fun _ s' _ => s = s', fun s' => s = s'⟩ := by
      refine wpAt_ext_ok (a := .object o) ?_ ⟨rfl, rfl, rfl⟩ (fun _ => rfl) rfl
      simp only [hf]
    refine wpAt_bind (wpAt_mono hget ?_ ?_ ?_)
    · intro _ _ _ h
      obtain ⟨rfl, rfl, rfl⟩ := h
      refine wpAt_bind (wpAt_ext_ok rfl ?_ (fun _ => herr _ _) hcut)
      refine wpAt_bind (wpAt_attempt (wpAt_ext_ok (if_pos ht) ?_ (fun _ => ?_) hcut))
      · exact wpAt_bind (wpAt_ext_ok rfl (wpAt_pure hok) (fun _ => herr _ _) hcut)
      · have hthrow : ∀ k, wpAt G k (throw PsaStatus.genericError) s Q :=
          fun k => wpAt_throw (herr _ k)
        exact wpAt_bind (wpAt_attempt (wpAt_ext_ok rfl (hthrow _) (fun _ => hthrow _) hcut))
    · intro e _ k h
      subst h
      exact herr e k
    · intro _ h
      subst h
      exact hcut

def Op.uid : Op → Nat
  | .create uid _ _ _ => uid
  | .write uid _ _ _ => uid
  | .delete uid _ => uid

def Op.clientId : Op → Int
  | .create _ c _ _ => c
  | .write _ c _ _ => c
  | .delete _ c => c

/-- The object that is left, `old` being the one from before. -/
def Op.result : Op → Option Obj → Option Obj
  | .create _ _ flags data, _ => some ⟨data.length, flags, data⟩
  | .write _ _ offset data, old => old.map fun o => { o with data := overwrite o.data offset data }
  | .delete _ _, _ => none

/-- The number of the first call of the alignment. -/
def Op.alignStart (o : Op) (s : Sys n) : Nat :=
  match o with
  | .create uid c _ _ => if (getObjectEntryIdx s.table.body uid c).isSome then 15 else 11
  | .write _ _ _ _ => 15
  | .delete _ _ => 10

/-- Every operation, whatever fails. -/
theorem op_at (cfg : Cfg) (hl : Live s) (o : Op) :
    wpAt G 0 (o.run cfg) s (opAt cfg G (o.alignStart s) s o.uid o.clientId
      (o.result (s.view o.uid o.clientId))) := by
  have hrefl := Idle.refl hl
  have hthrow : ∀ e k lo r, wpAt G k (throw e) s (opAt cfg G lo s o.uid o.clientId r) :=
    fun _ _ _ _ => wpAt_throw (.inl hrefl)
  cases o with
  | create uid c flags data =>
    simp only [Op.run, psObjectCreate]
    split
    · exact hthrow _ _ _ _
    rename_i hu
    split
    · exact hthrow _ _ _ _
    split
    · exact hthrow _ _ _ _
    refine wpAt_bind (wpAt_get ?_)
    dsimp only
    split
    · rename_i j hj
      obtain ⟨old, -, hread⟩ := read_at hl hu hj
      refine wpAt_bind (hread ?_ (fun _ _ => .inl hrefl) (.inl hrefl.toUntouched))
      dsimp only
      split
      · exact hthrow _ _ _ _
      · have hlo : Op.alignStart (.create uid c flags data) s = 15 := by
          simp [Op.alignStart, hj]
        rw [hlo]
        exact store_at hl hu hj
    · rename_i hj
      have hlo : Op.alignStart (.create uid c flags data) s = 11 := by
        simp [Op.alignStart, hj]
      rw [hlo]
      exact store_at hl hu hj
  | write uid c offset data =>
    simp only [Op.run, psObjectWrite]
    split
    · exact hthrow _ _ _ _
    rename_i hu
    refine wpAt_bind (wpAt_get ?_)
    dsimp only
    split
    · exact hthrow _ _ _ _
    rename_i j hj
    obtain ⟨old, hview, hread⟩ := read_at hl hu hj
    refine wpAt_bind (hread ?_ (fun _ _ => .inl hrefl) (.inl hrefl.toUntouched))
    dsimp only
    split
    · exact hthrow _ _ _ _
    split
    · exact hthrow _ _ _ _
    split
    · exact hthrow _ _ _ _
    · have hres : Op.result (.write uid c offset data) (s.view uid c) =
          some { old with data := overwrite old.data offset data } := by
        rw [hview]
        rfl
      simp only [Op.uid, Op.clientId]
      rw [hres]
      exact store_at hl hu hj
  | delete uid c =>
    simp only [Op.run, psObjectDelete]
    split
    · exact hthrow _ _ _ _
    rename_i hu
    refine wpAt_bind (wpAt_get ?_)
    dsimp only
    split
    · exact hthrow _ _ _ _
    rename_i j hj
    obtain ⟨old, -, hread⟩ := read_at hl hu hj
    refine wpAt_bind (hread ?_ (fun _ _ => .inl hrefl) (.inl hrefl.toUntouched))
    dsimp only
    split
    · exact hthrow _ _ _ _
    · exact delete_at hl hu hj

/-- How an operation ends on the schedule `p`. -/
theorem op_run (cfg : Cfg) (hl : Live s) (o : Op) (p : List Ev) :
    match o.run cfg s p with
    | .ok _ s' _ => Done cfg s o.uid o.clientId (o.result (s.view o.uid o.clientId)) s'
    | .err _ s' _ => Idle s s' ∨
        (Undone s s' ∧ AlignFails cfg (fun k e => p[k]? = some e) (o.alignStart s) s) ∨
        Done cfg s o.uid o.clientId (o.result (s.view o.uid o.clientId)) s'
    | .cut s' => Untouched s s' ∨ Switched cfg s s' ∨
        AlignFails cfg (fun k e => p[k]? = some e) (o.alignStart s) s := by
  have hrun := op_at (G := fun k e => p[k]? = some e) cfg hl o p
    fun k e hk => by simpa using hk
  revert hrun
  cases o.run cfg s p with
  | ok a s' q => exact fun ⟨_, h, _⟩ => h
  | err e s' q => exact fun ⟨_, h, _⟩ => h
  | cut s' => exact fun h => h

end Ops

end Tfm.L4.Ps
