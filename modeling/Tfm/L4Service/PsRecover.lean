import Tfm.L4Service.PsSpec

/-!
# Protected Storage: starting, with rollback protection

A save increments counter 1, writes the new table, tagged with the new value, to
the scratch file, and brings counters 2 and 3 up to counter 1. At the next start a
table is accepted if it is tagged with counter 1, or with counter 3 while
counters 2 and 3 are equal. So a table from before an interrupted save is still
accepted (`Stale`). But `ps_object_table_init` then brings counters 2 and 3 up to
counter 1 without tagging the table again: the start after that one finds no
table it can accept.

Results:
* `Good`, `Stale`: the storage of a device that starts.
* `boot_good`, `boot_stale`: what a start does on it.
-/
namespace Tfm.L4.Ps
open Tfm.Crash

variable {n : Nat} {F : Ev → Prop} {s : Sys n}

/-! ## File ids -/

theorem tableFid_inj {a b : Fin 2} (h : tableFid a = tableFid b) : a = b := by
  unfold tableFid at h
  exact Fin.ext (by omega)

theorem tableFid_ne_objectFid (a : Fin 2) (i : Nat) : tableFid a ≠ objectFid i := by
  have := a.isLt
  unfold tableFid objectFid
  omega

theorem objectFid_inj {i j : Nat} (h : objectFid i = objectFid j) : i = j := by
  unfold objectFid at h
  omega

theorem other_ne (a : Fin 2) : other a ≠ a := by
  match a with
  | 0 => decide
  | 1 => decide

theorem other_other (a : Fin 2) : other (other a) = a := by
  match a with
  | 0 => rfl
  | 1 => rfl

/-! ## Storage -/

/-- The objects of a table are in their files, under the tags of the table. -/
structure BodyOk (files : Nat → Option (File n)) (b : Body n) : Prop where
  version : b.version = objectSystemVersion
  objs : ∀ i, (b.db i).uid ≠ 0 → ∃ o, files (objectFid i.val) = some (.object o) ∧
    (b.db i).tag = some ⟨o.iv, objectFid i.val, o.obj⟩
  clean : ∀ i, (b.db i).uid = 0 → b.db i = .empty

/-- The files of the live entries are the same. -/
def SameObjs (b : Body n) (f f' : Nat → Option (File n)) : Prop :=
  ∀ i : Fin n, (b.db i).uid ≠ 0 → f' (objectFid i.val) = f (objectFid i.val)

theorem BodyOk.congr {f f' : Nat → Option (File n)} {b : Body n} (h : BodyOk f b)
    (hs : SameObjs b f f') : BodyOk f' b := by
  refine ⟨h.version, fun i hi => ?_, h.clean⟩
  rw [hs i hi]
  exact h.objs i hi

theorem getObjectEntryIdx_some {b : Body n} {uid : Nat} {c : Int} {i : Fin n}
    (h : getObjectEntryIdx b uid c = some i) : (b.db i).uid = uid ∧ (b.db i).clientId = c := by
  have := List.find?_some h
  simpa using this

theorem viewOf_congr {f f' : Nat → Option (File n)} {b : Body n} (hs : SameObjs b f f') :
    viewOf b f' = viewOf b f := by
  funext uid c
  unfold viewOf lookup
  split
  · rfl
  · rename_i hu
    cases hi : getObjectEntryIdx b uid c with
    | none => rfl
    | some i =>
      have hlive : (b.db i).uid ≠ 0 := by
        rw [(getObjectEntryIdx_some hi).1]
        exact hu
      simp only [hs i hlive]

/-- Storage with a table tagged with counter 1. -/
structure Good (files : Nat → Option (File n)) (nvc : Nvc → Nat) (a : Fin 2) (t : Table n) :
    Prop where
  file : files (tableFid a) = some (.table t)
  auth : t.auth (some (nvc .c1)) = true
  old : ∀ u, files (tableFid (other a)) = some (.table u) → u.auth (some (nvc .c1)) = false
  body : BodyOk files t.body
  le2 : nvc .c2 ≤ nvc .c1
  le3 : nvc .c3 ≤ nvc .c1
  pos : 1 ≤ nvc .c1
  max : nvc .c1 ≤ nvcMax
  iv : t.iv.val ≤ 2 * nvc .c1

/-- Storage after counter 1 was incremented for a table that was not written. -/
structure Stale (files : Nat → Option (File n)) (nvc : Nvc → Nat) (a : Fin 2) (t : Table n) :
    Prop where
  file : files (tableFid a) = some (.table t)
  auth : t.auth (some (nvc .c3)) = true
  absent : files (tableFid (other a)) = none
  body : BodyOk files t.body
  eq2 : nvc .c2 = nvc .c3
  eq1 : nvc .c1 = nvc .c3 + 1
  pos : 1 ≤ nvc .c3
  max : nvc .c1 ≤ nvcMax

/-- A tag is the tag for one counter value. -/
theorem auth_inj {t : Table n} {x y : Option Nat} (hx : t.auth x = true) (hy : t.auth y = true) :
    x = y := by
  unfold Table.auth at hx hy
  rw [beq_iff_eq] at hx hy
  rw [hx] at hy
  simpa using hy

theorem auth_false_of_ne {t : Table n} {x y : Option Nat} (hx : t.auth x = true) (hne : x ≠ y) :
    t.auth y = false := by
  by_contra hy
  exact hne (auth_inj hx (by simpa using hy))

theorem tableAt_some {files : Nat → Option (File n)} {a : Fin 2} {t : Table n} :
    tableAt files a = some t ↔ files (tableFid a) = some (.table t) := by
  unfold tableAt
  cases files (tableFid a) with
  | none => simp
  | some file => cases file <;> simp

theorem Good.accepted {cfg : Cfg} (hr : cfg.rollback = true) {files : Nat → Option (File n)}
    {nvc : Nvc → Nat} {a : Fin 2} {t : Table n} (h : Good files nvc a t) :
    Ps.accepted cfg files nvc = some a := by
  have ha : tableState cfg nvc (tableAt files a) = .nvc1Valid := by
    rw [tableAt_some.2 h.file]
    simp [tableState, hr, nvcState, h.auth, validateVersion, h.body.version]
  have hb : tableState cfg nvc (tableAt files (other a)) ≠ .nvc1Valid := by
    cases hu : tableAt files (other a) with
    | none => simp [tableState, validateVersion]
    | some u =>
      have hau := h.old u (tableAt_some.1 hu)
      simp only [tableState, hr, if_true, nvcState, hau, Bool.false_eq_true, if_false,
        validateVersion]
      repeat' split
      all_goals simp
  unfold Ps.accepted activeTable
  rcases Index.two_cases a with rfl | rfl
  · have hb : tableState cfg nvc (tableAt files 1) ≠ .nvc1Valid := hb
    simp [ha, hb, hr]
  · simp [ha, hr]

theorem Stale.accepted {cfg : Cfg} (hr : cfg.rollback = true) {files : Nat → Option (File n)}
    {nvc : Nvc → Nat} {a : Fin 2} {t : Table n} (h : Stale files nvc a t) :
    Ps.accepted cfg files nvc = some a := by
  have h3 : nvc .c3 ≠ 0 := by
    have := h.pos
    omega
  have h1 : t.auth (some (nvc .c1)) = false :=
    auth_false_of_ne h.auth fun he => by
      have := h.eq1
      simp only [Option.some.injEq] at he
      omega
  have ha : tableState cfg nvc (tableAt files a) = .nvc3Valid := by
    rw [tableAt_some.2 h.file]
    simp [tableState, hr, nvcState, h.auth, h1, h3, validateVersion, h.body.version, h.eq2]
  have hb : tableState cfg nvc (tableAt files (other a)) = .invalid := by
    have hn : tableAt files (other a) = none := by
      unfold tableAt
      rw [h.absent]
    simp [hn, tableState, validateVersion]
  unfold Ps.accepted activeTable
  rcases Index.two_cases a with rfl | rfl
  · have hb : tableState cfg nvc (tableAt files 1) = .invalid := hb
    simp [ha, hb]
  · have hb : tableState cfg nvc (tableAt files 0) = .invalid := hb
    simp [ha, hb]

/-- What a start finds. -/
def Recov (files : Nat → Option (File n)) (nvc : Nvc → Nat) (v : View) : Prop :=
  ∃ a t, (Good files nvc a t ∨ Stale files nvc a t) ∧ viewOf t.body files = v

/-! ## Starting -/

/-- The running partition, the file of the old table possibly still there. -/
structure Base (s : Sys n) : Prop where
  good : Good s.files s.nvc s.active s.table
  scratch : s.scratch = other s.active
  eq2 : s.nvc .c2 = s.nvc .c1
  eq3 : s.nvc .c3 = s.nvc .c1
  iv : s.iv.val ≤ 2 * s.nvc .c1 ∨ s.nvc .c1 = nvcMax

/-- The running partition between operations. -/
structure Up (s : Sys n) : Prop where
  base : Base s
  absent : s.files (tableFid s.scratch) = none

theorem sameObjs_table (b : Body n) (f : Nat → Option (File n)) (a : Fin 2) (x : Option (File n)) :
    SameObjs b f (Function.update f (tableFid a) x) := by
  intro i _
  exact Function.update_of_ne (tableFid_ne_objectFid a i.val).symm _ _

/-- Removing the other table, and raising counters 2 and 3. -/
theorem Good.congr {files files' : Nat → Option (File n)} {nvc nvc' : Nvc → Nat} {a : Fin 2}
    {t : Table n} (h : Good files nvc a t) (hf : files' (tableFid a) = files (tableFid a))
    (ho : files' (tableFid (other a)) = files (tableFid (other a)) ∨
      files' (tableFid (other a)) = none)
    (hs : SameObjs t.body files files') (h1 : nvc' .c1 = nvc .c1) (h2 : nvc' .c2 ≤ nvc .c1)
    (h3 : nvc' .c3 ≤ nvc .c1) : Good files' nvc' a t := by
  refine ⟨hf.trans h.file, ?_, ?_, h.body.congr hs, ?_, ?_, ?_, ?_, ?_⟩ <;> rw [h1]
  · exact h.auth
  · intro u hu
    rcases ho with ho | ho
    · exact h.old u (ho ▸ hu)
    · rw [ho] at hu
      cases hu
  · exact h2
  · exact h3
  · exact h.pos
  · exact h.max
  · exact h.iv

section NoFail

variable {cfg : Cfg} (hF : ¬ F .fail) (hr : cfg.rollback = true)
include hF hr

/-- The second half of `ps_object_table_init`. -/
theorem init_wp {a : Fin 2} {t : Table n} {f : Nat → Option (File n)} {v : Nat}
    (ha : accepted cfg s.files s.nvc = some a) (ht : s.files (tableFid a) = some (.table t))
    (hv : s.nvc .c1 = v) (hf : Function.update s.files (tableFid (other a)) none = f)
    (hmax : v ≤ nvcMax) (h2 : s.nvc .c2 ≤ v) (h3 : s.nvc .c3 ≤ v)
    {Q : Post PsaStatus (Sys n) Unit}
    (hok : Q.ok () ⟨f, fun _ => v, t, a, other a, t.iv, s.used⟩)
    (hcut₁ : Cuts F → ∀ s', s'.files = s.files → s'.nvc = s.nvc → Q.cut s')
    (hcut₂ : Cuts F → ∀ s' x2 x3, x2 ≤ v → x3 ≤ v → s'.files = f →
      s'.nvc = (setNvc (setNvc s .c2 x2) .c3 x3).nvc → Q.cut s') :
    wp F (psSystemPrepare cfg) s Q := by
  refine wp_bind (select_wp hF ha (tableAt_some.2 ht) ?_ fun h u => hcut₁ h _ rfl rfl)
  rw [if_pos hr, hv]
  refine wp_bind (wp_get ?_)
  refine wp_bind (wp_itsRemove hF ?_ fun h => hcut₁ h _ rfl rfl)
  intro r hrem
  have halign : wp F (psObjectTableAlignNvCounters v)
      ⟨f, s.nvc, t, a, other a, s.iv, s.used⟩
      ⟨fun _ s' => wp F (modify fun s => { s with iv := s.table.iv }) s' Q, Q.err, Q.cut⟩ := by
    refine align_wp hF hmax (by exact h2) (by exact h3) ?_ ?_
    · dsimp only
      refine wp_modify ?_
      refine cast (congrArg (Q.ok ()) ?_) hok
      simp only [setNvc, Sys.mk.injEq, and_true, true_and]
      funext c
      cases c <;> simp [hv]
    · intro h x2 hx2 x3 hx3
      exact hcut₂ h _ x2 x3 hx2 hx3 rfl rfl
  rcases hrem with rfl | rfl
  all_goals
    refine wp_bind ?_
    dsimp only
    rw [hf]
    exact halign

/-- Storage with a table tagged with counter 1 starts, and is still such after a
start that was cut. -/
theorem boot_good {a : Fin 2} {t : Table n} (h : Good s.files s.nvc a t) :
    wp F (psSystemPrepare cfg) s
      ⟨fun _ s' => Up s' ∧ s'.view = viewOf t.body s.files, fun _ _ => False,
        fun s' => Cuts F ∧ Good s'.files s'.nvc a t ∧
          viewOf t.body s'.files = viewOf t.body s.files⟩ := by
  have hsame := sameObjs_table t.body s.files (other a) none
  have hfa : Function.update s.files (tableFid (other a)) none (tableFid a) =
      s.files (tableFid a) :=
    Function.update_of_ne (fun he => other_ne a (tableFid_inj he).symm) _ _
  refine init_wp hF hr (h.accepted hr) h.file rfl rfl h.max h.le2 h.le3 ⟨⟨⟨?_, rfl, rfl, rfl, ?_⟩, ?_⟩, ?_⟩
    ?_ ?_
  · exact h.congr hfa (.inr (Function.update_self ..)) hsame rfl (Nat.le_refl _) (Nat.le_refl _)
  · exact .inl h.iv
  · exact Function.update_self ..
  · exact viewOf_congr hsame
  · intro hc s' hf hn
    dsimp only
    rw [hf, hn]
    exact ⟨hc, h, rfl⟩
  · intro hc s' x2 x3 hx2 hx3 hf hn
    dsimp only
    rw [hf, hn]
    refine ⟨hc, h.congr hfa (.inr (Function.update_self ..)) hsame ?_ ?_ ?_, viewOf_congr hsame⟩
    · simp [setNvc]
    · simpa [setNvc] using hx2
    · simpa [setNvc] using hx3

/-- So does storage after an interrupted save, if the start is not cut. -/
theorem boot_stale {a : Fin 2} {t : Table n} (h : Stale s.files s.nvc a t) :
    wp F (psSystemPrepare cfg) s
      ⟨fun _ s' => s'.view = viewOf t.body s.files, fun _ _ => False, fun _ => Cuts F⟩ := by
  have h1 := h.eq1
  have h2 := h.eq2
  refine init_wp hF hr (h.accepted hr) h.file rfl rfl h.max (by omega) (by omega)
    (viewOf_congr (sameObjs_table t.body s.files (other a) none)) ?_ ?_
  · exact fun hc _ _ _ => hc
  · exact fun hc _ _ _ _ _ _ _ => hc

end NoFail

end Tfm.L4.Ps
