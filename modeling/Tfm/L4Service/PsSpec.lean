import Tfm.L4Service.Ps

/-!
# Protected Storage: what the calls and the table functions do

One rule for each call out of the partition, for schedules in which no call
fails, and from them the specification of loading a table (`init_wp`) and saving
one (`save_wp`): the result, and every state in which the power can be cut. What
holds of each call and of a save, whatever fails, holds of the operations, which
are made of them (`op_made`).
-/
namespace Tfm.L4.Ps
open Tfm.Crash

variable {n : Nat} {F : Ev → Prop} {s : Sys n}

/-- The end of `psObjectTableInit`: the counters follow the first one, and the IV is that
of the table. -/
def initEnd (nvc1 : Option Nat) : M n Unit := do
  match nvc1 with
  | some v => psObjectTableAlignNvCounters v
  | none => pure ()
  modify fun s => { s with iv := s.table.iv }

/-! ## IVs -/

def Iv.val (iv : Iv) : Nat := iv.h.toNat * 2 ^ 64 + iv.l.toNat

theorem Iv.val_lt (iv : Iv) : iv.val < 2 ^ 96 := by
  have hl := iv.l.toNat_lt
  have hh := iv.h.toNat_lt
  unfold Iv.val
  omega

/-- `ps_crypto_get_iv` counts, across the two words. -/
theorem Iv.next_some {iv iv' : Iv} (h : iv.next = some iv') : iv'.val = iv.val + 1 := by
  have hl := iv.l.toNat_lt
  have hh := iv.h.toNat_lt
  simp only [Iv.next] at h
  split at h
  · rename_i hz
    split at h
    · cases h
    · rename_i hhz
      cases h
      have h₁ : (iv.l + 1).toNat = 0 := by rw [hz]; rfl
      rw [UInt64.toNat_add] at h₁
      have h₂ : (iv.h + 1).toNat ≠ 0 := fun he => hhz (UInt32.toNat_inj.1 he)
      rw [UInt32.toNat_add] at h₂
      simp only [Iv.val, UInt64.toNat_add, UInt32.toNat_add, UInt64.reduceToNat,
        UInt32.reduceToNat] at h₁ h₂ ⊢
      omega
  · rename_i hz
    cases h
    have h₁ : (iv.l + 1).toNat ≠ 0 := fun he => hz (UInt64.toNat_inj.1 he)
    rw [UInt64.toNat_add] at h₁
    simp only [Iv.val, UInt64.toNat_add, UInt64.reduceToNat] at h₁ ⊢
    omega

theorem Iv.next_of_lt {iv : Iv} (h : iv.val < 2 ^ 96 - 1) : ∃ iv', iv.next = some iv' := by
  have hl := iv.l.toNat_lt
  have hh := iv.h.toNat_lt
  simp only [Iv.next]
  split
  · rename_i hz
    split
    · rename_i hhz
      have h₁ : (iv.l + 1).toNat = 0 := by rw [hz]; rfl
      have h₂ : (iv.h + 1).toNat = 0 := by rw [hhz]; rfl
      rw [UInt64.toNat_add] at h₁
      rw [UInt32.toNat_add] at h₂
      simp only [Iv.val, UInt64.reduceToNat, UInt32.reduceToNat] at h₁ h₂ h
      omega
    · exact ⟨_, rfl⟩
  · exact ⟨_, rfl⟩

/-! ## Calls -/

theorem wp_ext {α : Type} {e : PsaStatus} {f : Sys n → Except PsaStatus α × Sys n}
    {Q : Post PsaStatus (Sys n) α} (hok : ∀ a s', f s = (.ok a, s') → Q.ok a s')
    (herr : ∀ e' s', f s = (.error e', s') → Q.err e' s') (hfail : F .fail → Q.err e s)
    (hcut : Cuts F → Q.cut s) : wp F (ext e f) s Q :=
  wp_call hok herr hfail fun k hk => hcut ⟨k, hk⟩

/-- A call that cannot return an error of its own. -/
theorem wp_ext_ok {α : Type} {e : PsaStatus} {f : Sys n → Except PsaStatus α × Sys n}
    {Q : Post PsaStatus (Sys n) α} {a : α} {s' : Sys n} (hF : ¬ F .fail)
    (hf : f s = (.ok a, s')) (hok : Q.ok a s') (hcut : Cuts F → Q.cut s) :
    wp F (ext e f) s Q := by
  refine wp_ext ?_ ?_ (fun h => absurd h hF) hcut
  · intro b t hb
    rw [hf] at hb
    cases hb
    exact hok
  · intro e' t hb
    rw [hf] at hb
    cases hb

theorem wp_ext_error {α : Type} {e e' : PsaStatus} {f : Sys n → Except PsaStatus α × Sys n}
    {Q : Post PsaStatus (Sys n) α} {s' : Sys n} (hF : ¬ F .fail)
    (hf : f s = (.error e', s')) (herr : Q.err e' s') (hcut : Cuts F → Q.cut s) :
    wp F (ext e f) s Q := by
  refine wp_ext ?_ ?_ (fun h => absurd h hF) hcut
  · intro b t hb
    rw [hf] at hb
    cases hb
  · intro e'' t hb
    rw [hf] at hb
    cases hb
    exact herr

section NoFail

variable (hF : ¬ F .fail)
include hF

theorem wp_readNvc {c : Nvc} {Q : Post PsaStatus (Sys n) Nat} (hok : Q.ok (s.nvc c) s)
    (hcut : Cuts F → Q.cut s) : wp F (psReadNvCounter c) s Q :=
  wp_ext_ok hF rfl hok hcut

theorem wp_incNvc {c : Nvc} {Q : Post PsaStatus (Sys n) Unit} (hlt : s.nvc c < nvcMax)
    (hok : Q.ok () { s with nvc := Function.update s.nvc c (s.nvc c + 1) })
    (hcut : Cuts F → Q.cut s) : wp F (psIncrementNvCounter c) s Q :=
  wp_ext_ok hF (if_neg (Nat.ne_of_lt hlt)) hok hcut

theorem wp_itsSet {fid : Nat} {file : File n} {Q : Post PsaStatus (Sys n) Unit}
    (hok : Q.ok () { s with files := Function.update s.files fid (some file) })
    (hcut : Cuts F → Q.cut s) : wp F (psaItsSet fid file) s Q :=
  wp_ext_ok hF rfl hok hcut

/-- A remove whose caller ignores that there is nothing to remove. -/
theorem wp_itsRemove {fid : Nat} {Q : Post PsaStatus (Sys n) (Except PsaStatus Unit)}
    (hok : ∀ r, r = .ok () ∨ r = .error .doesNotExist →
      Q.ok r { s with files := Function.update s.files fid none })
    (hcut : Cuts F → Q.cut s) : wp F (attempt (psaItsRemove fid)) s Q := by
  refine wp_attempt ?_
  cases hf : s.files fid with
  | none =>
    have hs : { s with files := Function.update s.files fid none } = s := by
      rw [← hf, Function.update_eq_self]
    have hq := hok (.error .doesNotExist) (.inr rfl)
    rw [hs] at hq
    exact wp_ext_error hF (by simp only [hf]) hq hcut
  | some file => exact wp_ext_ok hF (by simp only [hf]) (hok (.ok ()) (.inl rfl)) hcut

theorem wp_itsRemove_some {fid : Nat} {file : File n} {Q : Post PsaStatus (Sys n) Unit}
    (hf : s.files fid = some file)
    (hok : Q.ok () { s with files := Function.update s.files fid none })
    (hcut : Cuts F → Q.cut s) : wp F (psaItsRemove fid) s Q :=
  wp_ext_ok hF (by simp only [hf]) hok hcut

theorem wp_itsGet_some {fid : Nat} {file : File n} {Q : Post PsaStatus (Sys n) (File n)}
    (hf : s.files fid = some file) (hok : Q.ok file s) (hcut : Cuts F → Q.cut s) :
    wp F (psaItsGet fid) s Q := by
  refine wp_ext_ok hF (a := file) ?_ hok hcut
  simp only [hf]

theorem wp_itsGet_none {fid : Nat} {Q : Post PsaStatus (Sys n) (File n)}
    (hf : s.files fid = none) (herr : Q.err .doesNotExist s) (hcut : Cuts F → Q.cut s) :
    wp F (psaItsGet fid) s Q := by
  refine wp_ext_error hF ?_ herr hcut
  simp only [hf]

theorem wp_setkey {Q : Post PsaStatus (Sys n) Unit} (hok : Q.ok () s) (hcut : Cuts F → Q.cut s) :
    wp F psCryptoSetkey s Q :=
  wp_ext_ok hF rfl hok hcut

theorem wp_destroykey {Q : Post PsaStatus (Sys n) Unit} (hok : Q.ok () s)
    (hcut : Cuts F → Q.cut s) : wp F psCryptoDestroykey s Q :=
  wp_ext_ok hF rfl hok hcut

/-! ## Loading the table -/

/-- The table in a table file. -/
def tableAt (files : Nat → Option (File n)) (idx : Fin 2) : Option (Table n) :=
  match files (tableFid idx) with
  | some (.table t) => some t
  | _ => none

theorem wp_readTable {idx : Fin 2} {Q : Post PsaStatus (Sys n) (Option (Table n))}
    (hok : Q.ok (tableAt s.files idx) s) (hcut : Cuts F → Q.cut s) :
    wp F (psObjectTableFsReadTable idx) s Q := by
  refine wp_bind (wp_attempt ?_)
  unfold tableAt at hok
  cases hf : s.files (tableFid idx) with
  | none =>
    rw [hf] at hok
    exact wp_itsGet_none hF hf (wp_pure hok) hcut
  | some file =>
    rw [hf] at hok
    refine wp_itsGet_some hF hf ?_ hcut
    cases file with
    | table t => exact wp_pure hok
    | object o => exact wp_pure hok

theorem wp_authenticate {t : Table n} {nvc : Option Nat}
    {Q : Post PsaStatus (Sys n) (Except PsaStatus Unit)}
    (hok : Q.ok (if t.auth nvc then .ok () else .error .invalidSignature) s)
    (hcut : Cuts F → Q.cut s) : wp F (attempt (psCryptoAuthenticate t nvc)) s Q := by
  refine wp_attempt ?_
  by_cases ht : t.auth nvc = true
  · rw [if_pos ht] at hok
    exact wp_ext_ok hF (if_pos ht) hok hcut
  · rw [if_neg ht] at hok
    exact wp_ext_error hF (if_neg ht) hok hcut

/-- How a table file is authenticated with the counters. -/
def nvcState (t : Option (Table n)) (nvc1 nvc3 : Nat) : TableState :=
  match t with
  | none => .invalid
  | some t =>
    if t.auth (some nvc1) then .nvc1Valid
    else if nvc3 = 0 then .invalid
    else if t.auth (some nvc3) then .nvc3Valid
    else .invalid

theorem wp_tableAuthenticate {t : Option (Table n)} {nvc1 nvc3 : Nat}
    {Q : Post PsaStatus (Sys n) TableState} (hok : Q.ok (nvcState t nvc1 nvc3) s)
    (hcut : Cuts F → Q.cut s) : wp F (psObjectTableAuthenticate t nvc1 nvc3) s Q := by
  cases t with
  | none => exact wp_pure hok
  | some t =>
    refine wp_bind (wp_authenticate hF ?_ hcut)
    simp only [nvcState] at hok
    by_cases h₁ : t.auth (some nvc1) = true
    · simp only [h₁, if_true] at hok ⊢
      exact wp_pure hok
    · simp only [h₁, Bool.false_eq_true, if_false] at hok ⊢
      by_cases h₀ : nvc3 = 0
      · simp only [h₀, if_true] at hok ⊢
        exact wp_pure hok
      · simp only [h₀, if_false] at hok ⊢
        refine wp_bind (wp_authenticate hF ?_ hcut)
        by_cases h₃ : t.auth (some nvc3) = true
        · simp only [h₃, if_true] at hok ⊢
          exact wp_pure hok
        · simp only [h₃, Bool.false_eq_true, if_false] at hok ⊢
          exact wp_pure hok

/-- How a table file is authenticated without the counters. -/
def plainState (t : Option (Table n)) : TableState :=
  match t with
  | none => .invalid
  | some t => if t.auth none then .valid else .invalid

theorem wp_ctxTable {t : Option (Table n)} {Q : Post PsaStatus (Sys n) TableState}
    (hok : Q.ok (plainState t) s) (hcut : Cuts F → Q.cut s) :
    wp F (psObjectTableAuthenticateCtxTable t) s Q := by
  cases t with
  | none => exact wp_pure hok
  | some t =>
    refine wp_bind (wp_authenticate hF ?_ hcut)
    simp only [plainState] at hok
    by_cases h : t.auth none = true
    · simp only [h, if_true] at hok ⊢
      exact wp_pure hok
    · simp only [h, Bool.false_eq_true, if_false] at hok ⊢
      exact wp_pure hok

/-- The state of a table file. -/
def tableState (cfg : Cfg) (nvc : Nvc → Nat) (t : Option (Table n)) : TableState :=
  validateVersion t (if cfg.rollback then
    nvcState t (nvc .c1) (if nvc .c3 = nvc .c2 then nvc .c3 else 0) else plainState t)

/-- The table `ps_object_table_init` accepts. -/
def accepted (cfg : Cfg) (files : Nat → Option (File n)) (nvc : Nvc → Nat) : Option (Fin 2) :=
  activeTable cfg (tableState cfg nvc (tableAt files 0)) (tableState cfg nvc (tableAt files 1))
    (swapCountOf (tableAt files 0)) (swapCountOf (tableAt files 1))

theorem wp_authenticateTables {cfg : Cfg} {t0 t1 : Option (Table n)}
    {Q : Post PsaStatus (Sys n) (TableState × TableState × Option Nat)}
    (hok : ∀ st0 st1, validateVersion t0 st0 = tableState cfg s.nvc t0 →
      validateVersion t1 st1 = tableState cfg s.nvc t1 →
      Q.ok (st0, st1, if cfg.rollback then some (s.nvc .c1) else none) s)
    (hcut : Cuts F → Q.cut s) : wp F (authenticateTables cfg t0 t1) s Q := by
  unfold authenticateTables
  cases hr : cfg.rollback with
  | true =>
    rw [hr] at hok
    simp only [if_true]
    refine wp_bind (wp_attempt ?_)
    refine wp_bind (wp_readNvc hF ?_ hcut)
    refine wp_bind (wp_readNvc hF ?_ hcut)
    refine wp_bind (wp_readNvc hF ?_ hcut)
    refine wp_bind (wp_tableAuthenticate hF ?_ hcut)
    refine wp_bind (wp_tableAuthenticate hF ?_ hcut)
    refine wp_pure (wp_pure (hok _ _ ?_ ?_)) <;> simp only [tableState, hr, if_true]
  | false =>
    rw [hr] at hok
    simp only [Bool.false_eq_true, if_false]
    refine wp_bind (wp_ctxTable hF ?_ hcut)
    refine wp_bind (wp_ctxTable hF ?_ hcut)
    refine wp_pure (hok _ _ ?_ ?_) <;> simp only [tableState, hr, Bool.false_eq_true, if_false]

/-- The other table index. -/
def other (a : Fin 2) : Fin 2 := if a = 0 then 1 else 0

theorem select_wp {cfg : Cfg} {a : Fin 2} {t : Table n} {Q : Post PsaStatus (Sys n) (Option Nat)}
    (ha : accepted cfg s.files s.nvc = some a) (ht : tableAt s.files a = some t)
    (hok : Q.ok (if cfg.rollback then some (s.nvc .c1) else none)
      { s with table := t, active := a, scratch := other a })
    (hcut : Cuts F → ∀ u, Q.cut { s with table := u }) :
    wp F (psObjectTableSelect cfg) s Q := by
  refine wp_bind (wp_readTable hF ?_ fun h => hcut h s.table)
  refine wp_bind (wp_modify ?_)
  refine wp_bind (wp_readTable hF ?_ fun h => hcut h _)
  refine wp_bind (wp_setkey hF ?_ fun h => hcut h _)
  refine wp_bind (wp_authenticateTables hF ?_ fun h => hcut h _)
  intro st0 st1 h0 h1
  refine wp_bind (wp_destroykey hF ?_ fun h => hcut h _)
  refine wp_bind ?_
  have hact : activeTable cfg (validateVersion (tableAt s.files 0) st0)
      (validateVersion (tableAt s.files 1) st1) (swapCountOf (tableAt s.files 0))
      (swapCountOf (tableAt s.files 1)) = some a := by
    rw [h0, h1]
    exact ha
  simp only [psSetActiveObjectTable, hact]
  match a, ht, hok with
  | 0, ht, hok =>
    refine wp_modify (wp_pure ?_)
    rw [ht]
    exact hok
  | 1, ht, hok =>
    refine wp_modify (wp_pure ?_)
    rw [ht]
    exact hok

/-! ## Counters -/

def setNvc (s : Sys n) (c : Nvc) (x : Nat) : Sys n :=
  { s with nvc := Function.update s.nvc c x }

omit hF in
theorem setNvc_self (s : Sys n) (c : Nvc) : setNvc s c (s.nvc c) = s := by
  unfold setNvc
  rw [Function.update_eq_self]

omit hF in
theorem setNvc_set (s : Sys n) (c : Nvc) (x y : Nat) : setNvc (setNvc s c x) c y = setNvc s c y := by
  unfold setNvc
  dsimp only
  rw [Function.update_idem]

theorem inc_wp {c : Nvc} {v : Nat} (hmax : v ≤ nvcMax) {Q : Post PsaStatus (Sys n) Unit}
    (hok : Q.ok () (setNvc s c v)) (hcut : Cuts F → ∀ x ≤ v, Q.cut (setNvc s c x)) :
    ∀ (k x : Nat), x + k = v → wp F (incrementNvCounter c k) (setNvc s c x) Q := by
  intro k
  induction k with
  | zero =>
    intro x hx
    have hxv : x = v := by omega
    subst hxv
    exact wp_pure hok
  | succ k ih =>
    intro x hx
    have hnvc : (setNvc s c x).nvc c = x := by simp [setNvc]
    refine wp_bind (wp_incNvc hF ?_ ?_ fun h => hcut h x (by omega))
    · omega
    · show wp F (incrementNvCounter c k) (setNvc (setNvc s c x) c ((setNvc s c x).nvc c + 1)) Q
      rw [hnvc, setNvc_set]
      exact ih (x + 1) (by omega)

theorem alignNvCounter_wp {c : Nvc} {v : Nat} (hmax : v ≤ nvcMax) (hle : s.nvc c ≤ v)
    {Q : Post PsaStatus (Sys n) Unit} (hok : Q.ok () (setNvc s c v))
    (hcut : Cuts F → ∀ x ≤ v, Q.cut (setNvc s c x)) : wp F (alignNvCounter c v) s Q := by
  refine wp_bind (wp_readNvc hF ?_ ?_)
  · have h := inc_wp hF hmax hok hcut (v - s.nvc c) (s.nvc c) (by omega)
    rwa [setNvc_self] at h
  · intro h
    have hq := hcut h _ hle
    rwa [setNvc_self] at hq

theorem align_wp {v : Nat} (hmax : v ≤ nvcMax) (h2 : s.nvc .c2 ≤ v) (h3 : s.nvc .c3 ≤ v)
    {Q : Post PsaStatus (Sys n) Unit} (hok : Q.ok () (setNvc (setNvc s .c2 v) .c3 v))
    (hcut : Cuts F → ∀ x2 ≤ v, ∀ x3 ≤ v, Q.cut (setNvc (setNvc s .c2 x2) .c3 x3)) :
    wp F (psObjectTableAlignNvCounters v) s Q := by
  have h3' : ∀ x, (setNvc s .c2 x).nvc .c3 = s.nvc .c3 := fun x => by simp [setNvc]
  refine wp_bind (alignNvCounter_wp hF hmax h2 ?_ ?_)
  · exact alignNvCounter_wp hF hmax (by rw [h3']; exact h3) hok
      fun h x hx => hcut h v (Nat.le_refl v) x hx
  · intro h x hx
    have hq := hcut h x hx _ h3
    rw [← h3' x, setNvc_self] at hq
    exact hq

/-! ## Saving the table -/

/-- The table a save writes. -/
def stampTable (iv : Iv) (nvc : Option Nat) (body : Body n) : Table n :=
  ⟨iv, some ⟨iv, nvc, body⟩, body⟩

omit hF in
theorem wp_getIv {iv : Iv} {Q : Post PsaStatus (Sys n) Iv} (hn : s.iv.next = some iv)
    (hok : Q.ok iv { s with iv := iv }) : wp F psCryptoGetIv s Q := by
  refine wp_bind (wp_get ?_)
  simp only [hn]
  exact wp_bind (wp_modify (wp_pure hok))

/-- The state of a save after the table was tagged. -/
def tagged (s : Sys n) (iv : Iv) (nvc : Option Nat) : Sys n :=
  { s with iv := iv, table := stampTable iv nvc s.table.body, used := iv :: s.used }

theorem generateAuthTag_wp {iv : Iv} {nvc : Option Nat} {Q : Post PsaStatus (Sys n) Unit}
    (hn : s.iv.next = some iv) (hok : Q.ok () (tagged s iv nvc))
    (hcut : Cuts F → Q.cut { s with iv := iv, table := { s.table with iv := iv } }) :
    wp F (psObjectTableGenerateAuthTag nvc) s Q := by
  refine wp_bind (wp_getIv hn ?_)
  refine wp_bind (wp_modify (wp_bind (wp_get ?_)))
  refine wp_bind (wp_ext_ok hF rfl ?_ hcut)
  dsimp only
  refine wp_modify ?_
  exact hok

/-- The state after a save wrote the table `t`, the files being `f`. -/
def saved (s : Sys n) (f : Nat → Option (File n)) (v : Nat) (t : Table n) : Sys n where
  files := f
  nvc _ := v
  table := t
  active := s.scratch
  scratch := s.active
  iv := t.iv
  used := t.iv :: s.used

/-- A save with rollback protection, counter 1 not at its maximum. The power can
be cut before the increment of counter 1, between it and the write of the table
file, and after the write, with counters 2 and 3 anywhere up to counter 1. -/
theorem save_wp {cfg : Cfg} (hr : cfg.rollback = true) {iv : Iv} {v : Nat} {t : Table n}
    {f : Nat → Option (File n)} (hv : s.nvc .c1 + 1 = v) (hmax : v ≤ nvcMax)
    (h2 : s.nvc .c2 ≤ v) (h3 : s.nvc .c3 ≤ v) (hn : s.iv.next = some iv)
    (ht : stampTable iv (some v) s.table.body = t)
    (hf : Function.update s.files (tableFid s.scratch) (some (.table t)) = f)
    {Q : Post PsaStatus (Sys n) Unit}
    (hok : Q.ok () (saved s f v t))
    (hcut₁ : Cuts F → Q.cut s)
    (hcut₂ : Cuts F → ∀ s', s'.files = s.files → s'.nvc = (setNvc s .c1 v).nvc → Q.cut s')
    (hcut₃ : Cuts F → ∀ s' x2 x3, x2 ≤ v → x3 ≤ v → s'.files = f →
      s'.nvc = (setNvc (setNvc (setNvc s .c1 v) .c2 x2) .c3 x3).nvc → Q.cut s') :
    wp F (psObjectTableSaveTable cfg) s Q := by
  have hs₁ : { s with nvc := Function.update s.nvc .c1 (s.nvc .c1 + 1) } = setNvc s .c1 v := by
    rw [hv]
    rfl
  have hc1 : (setNvc s .c1 v).nvc .c1 = v := by simp [setNvc]
  refine wp_bind ?_
  unfold saveStamp
  rw [if_pos hr]
  refine wp_bind (wp_incNvc hF (by omega) ?_ hcut₁)
  rw [hs₁]
  refine wp_bind (wp_readNvc hF ?_ fun h => hcut₂ h _ rfl rfl)
  rw [hc1]
  refine wp_pure ?_
  refine wp_bind (wp_setkey hF ?_ fun h => hcut₂ h _ rfl rfl)
  refine wp_bind (wp_attempt (generateAuthTag_wp hF hn ?_ fun h => hcut₂ h _ rfl rfl))
  refine wp_bind (wp_destroykey hF ?_ fun h => hcut₂ h _ rfl rfl)
  refine wp_bind ?_
  refine wp_bind (wp_get ?_)
  refine wp_bind (wp_itsSet hF ?_ fun h => hcut₂ h _ rfl rfl)
  dsimp only
  refine wp_modify ?_
  have hft : Function.update s.files (tableFid s.scratch)
      (some (.table (stampTable iv (some v) s.table.body))) = f := by
    rw [ht]
    exact hf
  refine align_wp hF hmax ?_ ?_ ?_ ?_
  · simpa [tagged, setNvc] using h2
  · simpa [tagged, setNvc] using h3
  · refine cast (congrArg (Q.ok ()) ?_) hok
    have htiv : t.iv = iv := by rw [← ht]; rfl
    simp only [saved, tagged, setNvc, ht, htiv, Sys.mk.injEq, and_true]
    refine ⟨hf.symm, ?_⟩
    funext c
    cases c <;> simp
  · intro h x2 hx2 x3 hx3
    exact hcut₃ h _ x2 x3 hx2 hx3 hft rfl

end NoFail

/-! ## Starting -/

section Start

variable [ItsSet n]

theorem tfmPsInit_run (cfg : Cfg) (s : Sys n) (p : List Ev) :
    tfmPsInit cfg s p = match psSystemPrepare cfg s p with
      | .ok _ s' q => .ok () s' q
      | .err e s' q => createFlashLayout cfg e s' q
      | .cut s' => .cut s' := by
  simp only [tfmPsInit, bind, attempt]
  cases psSystemPrepare cfg s p <;> rfl

theorem tfmPsInit_wp {cfg : Cfg} {Q : Post PsaStatus (Sys n) Unit}
    (h : wp F (psSystemPrepare cfg) s
      ⟨Q.ok, fun e s' => wp F (createFlashLayout cfg e) s' Q, Q.cut⟩) :
    wp F (tfmPsInit cfg) s Q :=
  wp_bind (wp_attempt (wp_mono h (fun _ _ hok => wp_pure hok) (fun _ _ herr => herr)
    fun _ hcut => hcut))

/-- Where the objects are prepared, no flash layout is created. -/
theorem tfmPsInit_prepared {cfg : Cfg} {Q : Post PsaStatus (Sys n) Unit}
    (h : wp F (psSystemPrepare cfg) s Q) (herr : ∀ e s', ¬ Q.err e s') :
    wp F (tfmPsInit cfg) s Q :=
  tfmPsInit_wp (wp_mono h (fun _ _ hok => hok) (fun e s' he => absurd he (herr e s'))
    fun _ hcut => hcut)

end Start

/-! ## What the operations are made of -/

/-- The calls and the table functions of an operation. -/
inductive Basic (cfg : Cfg) : (α : Type) → M n α → Prop
  | itsGet (fid : Nat) : Basic cfg _ (psaItsGet fid)
  | itsRemove (fid : Nat) : Basic cfg _ (psaItsRemove fid)
  | setkey : Basic cfg _ psCryptoSetkey
  | destroykey : Basic cfg _ psCryptoDestroykey
  | decrypt (fid : Nat) (tag : Option ObjTag) (file : ObjFile) :
    Basic cfg _ (psCryptoAuthAndDecrypt fid tag file)
  | setBody (b : Body n) : Basic cfg _ (Ps.setBody b)
  | objectWrite (fid : Nat) (obj : Obj) : Basic cfg _ (psEncryptedObjectWrite fid obj)
  | save : Basic cfg _ (psObjectTableSaveTable cfg)

section Made

variable {cfg : Cfg}

theorem setInfo_made (uid : Nat) (c : Int) (fid : Nat) (tag : ObjTag) :
    Made (Basic (n := n) cfg) _ (psObjectTableSetObjTblInfo cfg uid c fid tag) := by
  refine .bind .get fun s => .bind (.base (.setBody _)) fun _ => ?_
  split
  · refine .bind (.base (.setBody _)) fun _ => .bind (.attempt (.base .save)) fun r => ?_
    cases r with
    | ok _ => exact .pure ()
    | error e => exact .bind .get fun _ => .bind (.base (.setBody _)) fun _ => .throw e
  · exact .throw _

theorem deleteObject_made (uid : Nat) (c : Int) :
    Made (Basic (n := n) cfg) _ (psObjectTableDeleteObject cfg uid c) := by
  refine .bind .get fun s => ?_
  dsimp only
  split
  · exact .throw _
  · refine .bind (.base (.setBody _)) fun _ => .bind (.attempt (.base .save)) fun r => ?_
    cases r with
    | ok _ => exact .pure ()
    | error e => exact .bind .get fun _ => .bind (.base (.setBody _)) fun _ => .throw e

theorem deleteOldTable_made : Made (Basic (n := n) cfg) _ psObjectTableDeleteOldTable :=
  .bind .get fun _ => .base (.itsRemove _)

theorem removeOldData_made (fid : Nat) : Made (Basic (n := n) cfg) _ (psRemoveOldData fid) :=
  .bind deleteOldTable_made fun _ => .base (.itsRemove fid)

theorem getFreeFid_made (num : Nat) :
    Made (Basic (n := n) cfg) _ (psObjectTableGetFreeFid num) := by
  refine .bind .get fun s => ?_
  split
  · exact .throw _
  · refine .bind (.attempt (.base (.itsRemove _))) fun r => ?_
    split
    · exact .pure _
    · exact .pure _
    · exact .throw _

theorem objectRead_made (fid : Nat) (tag : Option ObjTag) :
    Made (Basic (n := n) cfg) _ (psEncryptedObjectRead fid tag) := by
  refine .bind (.base (.itsGet fid)) fun file => ?_
  cases file with
  | table _ => exact .throw _
  | object file =>
    refine .bind (.base .setkey) fun _ => .bind (.attempt (.base (.decrypt fid tag file))) fun r => ?_
    cases r with
    | error _ => exact .bind (.attempt (.base .destroykey)) fun _ => .throw _
    | ok obj => exact .bind (.base .destroykey) fun _ => .pure obj

theorem store_made (num uid : Nat) (c : Int) (obj : Obj) (old : Option Nat) :
    Made (Basic (n := n) cfg) _ (storeObject cfg num uid c obj old) := by
  refine .bind (getFreeFid_made num) fun fid => .bind (.base (.objectWrite fid obj)) fun tag =>
    .bind (.attempt (setInfo_made uid c fid tag)) fun r => ?_
  cases r with
  | error e => exact .bind (.attempt (.base (.itsRemove fid))) fun _ => .throw e
  | ok _ =>
    cases old with
    | none => exact deleteOldTable_made
    | some fid => exact removeOldData_made fid

theorem op_made (o : Op) : Made (Basic (n := n) cfg) _ (o.run cfg) := by
  cases o with
  | create uid c flags data =>
    simp only [Op.run, psObjectCreate]
    split
    · exact .throw _
    split
    · exact .throw _
    split
    · exact .throw _
    refine .bind .get fun s => ?_
    split
    · refine .bind (objectRead_made _ _) fun old => ?_
      split
      · exact .throw _
      · exact store_made _ _ _ _ _
    · exact store_made _ _ _ _ _
  | write uid c offset data =>
    simp only [Op.run, psObjectWrite]
    split
    · exact .throw _
    refine .bind .get fun s => ?_
    split
    · exact .throw _
    refine .bind (objectRead_made _ _) fun old => ?_
    split
    · exact .throw _
    split
    · exact .throw _
    split
    · exact .throw _
    · exact store_made _ _ _ _ _
  | delete uid c =>
    simp only [Op.run, psObjectDelete]
    split
    · exact .throw _
    refine .bind .get fun s => ?_
    split
    · exact .throw _
    refine .bind (objectRead_made _ _) fun old => ?_
    split
    · exact .throw _
    · exact .bind (deleteObject_made uid c) fun _ => removeOldData_made _

end Made

end Tfm.L4.Ps
