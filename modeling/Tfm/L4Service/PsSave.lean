import Tfm.L4Service.PsCrash

/-!
# Protected Storage: saving the table, with failing calls

A save with and without rollback protection, any of its calls failing or cut. Up
to the write of the table file it changes RAM and counter 1 (`Before`); after it
the table is written (`Wrote`), also when a call of the alignment then fails.

Results:
* `align_at`: raising counters 2 and 3.
* `save_at`: a save.
-/
namespace Tfm.L4.Ps
open Tfm.Crash

variable {n : Nat} {G : Nat → Ev → Prop} {i : Nat} {s : Sys n}

/-! ## Calls -/

theorem wpAt_ext {α : Type} {e : PsaStatus} {f : Sys n → Except PsaStatus α × Sys n}
    {Q : PostAt PsaStatus (Sys n) α} (hok : ∀ a s', f s = (.ok a, s') → Q.ok a s' (i + 1))
    (herr : ∀ e' s', f s = (.error e', s') → Q.err e' s' (i + 1))
    (hfail : G i .fail → Q.err e s (i + 1)) (hcut : Q.cut s) : wpAt G i (ext e f) s Q :=
  wpAt_call hok herr hfail fun _ _ => hcut

/-- A call that cannot return an error of its own. -/
theorem wpAt_ext_ok {α : Type} {e : PsaStatus} {f : Sys n → Except PsaStatus α × Sys n}
    {Q : PostAt PsaStatus (Sys n) α} {a : α} {s' : Sys n} (hf : f s = (.ok a, s'))
    (hok : Q.ok a s' (i + 1)) (hfail : G i .fail → Q.err e s (i + 1)) (hcut : Q.cut s) :
    wpAt G i (ext e f) s Q := by
  refine wpAt_ext ?_ ?_ hfail hcut
  · intro b t hb
    rw [hf] at hb
    cases hb
    exact hok
  · intro e' t hb
    rw [hf] at hb
    cases hb

theorem wpAt_itsSet {Q : PostAt PsaStatus (Sys n) Unit} {fid : Nat} {file : File n}
    (hok : Q.ok () { s with files := Function.update s.files fid (some file) } (i + 1))
    (hfail : G i .fail → Q.err .storageFailure s (i + 1)) (hcut : Q.cut s) :
    wpAt G i (itsSet fid file) s Q := by
  show wpAt G i (psaItsSet fid file) s Q
  unfold psaItsSet
  exact wpAt_ext_ok rfl hok hfail hcut

/-! ## Counters -/

/-- Up to the write of the table file a save changes the stamp, the IV and the tag
in RAM, and counter 1. -/
structure Before (s s' : Sys n) : Prop where
  files : s'.files = s.files
  active : s'.active = s.active
  scratch : s'.scratch = s.scratch
  db : s'.table.body.db = s.table.body.db
  version : s'.table.body.version = s.table.body.version
  nvc : s'.nvc = s.nvc ∨ s.nvc .c1 < nvcMax ∧ s'.nvc = (setNvc s .c1 (s.nvc .c1 + 1)).nvc

/-- The save wrote the table. -/
structure Wrote (cfg : Cfg) (s s' : Sys n) : Prop where
  files : s'.files = Function.update s.files (tableFid s.scratch) (some (.table s'.table))
  active : s'.active = s.scratch
  scratch : s'.scratch = s.active
  db : s'.table.body.db = s.table.body.db
  version : s'.table.body.version = s.table.body.version
  plain : cfg.rollback = false → s'.table.auth none = true ∧
    s'.table.body.swapCount = nextSwapCount s.table.body.swapCount ∧ s'.nvc = s.nvc
  tag : cfg.rollback = true → s'.table.auth (some (s.nvc .c1 + 1)) = true ∧
    s.nvc .c1 < nvcMax ∧ s'.nvc .c1 = s.nvc .c1 + 1
  le2 : s.nvc .c2 ≤ s'.nvc .c2 ∧ s'.nvc .c2 ≤ s'.nvc .c1
  le3 : s.nvc .c3 ≤ s'.nvc .c3 ∧ s'.nvc .c3 ≤ s'.nvc .c1

/-- The calls of `ps_object_table_align_nv_counters` after counter 1 was
incremented. -/
def alignLen (s : Sys n) : Nat := 2 + (s.nvc .c1 + 1 - s.nvc .c2) + (s.nvc .c1 + 1 - s.nvc .c3)

section Align

variable {Q : PostAt PsaStatus (Sys n) Unit} {v lo hi : Nat}

/-- The increments of one counter up to `v`, in the calls up to `hi`. -/
theorem inc_at {c : Nvc} (hmax : v ≤ nvcMax) (hok : Q.ok () (setNvc s c v) hi)
    (hfail : ∀ k, lo ≤ k → k < hi → G k .fail →
      ∀ e x j, s.nvc c ≤ x → x ≤ v → Q.err e (setNvc s c x) j)
    (hcut : ∀ x, s.nvc c ≤ x → x ≤ v → Q.cut (setNvc s c x)) :
    ∀ k x i, x + k = v → i + k = hi → lo ≤ i → s.nvc c ≤ x →
      wpAt G i (incrementNvCounter c k) (setNvc s c x) Q := by
  intro k
  induction k with
  | zero =>
    intro x i hx hi' _ _
    have hxv : x = v := by omega
    have hij : i = hi := by omega
    subst hxv hij
    exact wpAt_pure hok
  | succ k ih =>
    intro x i hx hi' hlo hle
    have hnvc : (setNvc s c x).nvc c = x := by simp [setNvc]
    refine wpAt_bind (wpAt_ext_ok (a := ()) (if_neg (by omega)) ?_ ?_ (hcut x hle (by omega)))
    · show wpAt G (i + 1) (incrementNvCounter c k)
        (setNvc (setNvc s c x) c ((setNvc s c x).nvc c + 1)) Q
      rw [hnvc, setNvc_set]
      exact ih (x + 1) (i + 1) (by omega) (by omega) (by omega) (by omega)
    · exact fun h => hfail i hlo (by omega) h _ x _ hle (by omega)

theorem alignNvCounter_at {c : Nvc} (hmax : v ≤ nvcMax) (hle : s.nvc c ≤ v) (hlo : lo ≤ i)
    (hhi : i + 1 + (v - s.nvc c) = hi) (hok : Q.ok () (setNvc s c v) hi)
    (hfail : ∀ k, lo ≤ k → k < hi → G k .fail →
      ∀ e x j, s.nvc c ≤ x → x ≤ v → Q.err e (setNvc s c x) j)
    (hcut : ∀ x, s.nvc c ≤ x → x ≤ v → Q.cut (setNvc s c x)) :
    wpAt G i (alignNvCounter c v) s Q := by
  have hself := setNvc_self s c
  refine wpAt_bind (wpAt_ext_ok rfl ?_ ?_ ?_)
  · have h := inc_at hmax hok hfail hcut (v - s.nvc c) (s.nvc c) (i + 1) (by omega) (by omega)
      (by omega) (Nat.le_refl _)
    rwa [hself] at h
  · intro h
    have := hfail i hlo (by omega) h .genericError (s.nvc c) (i + 1) (Nat.le_refl _) hle
    rwa [hself] at this
  · have := hcut (s.nvc c) (Nat.le_refl _) hle
    rwa [hself] at this

/-- Counters 2 and 3, in the calls from `lo` to `hi`. -/
theorem align_at (hmax : v ≤ nvcMax) (h2 : s.nvc .c2 ≤ v) (h3 : s.nvc .c3 ≤ v)
    (hhi : lo + 2 + (v - s.nvc .c2) + (v - s.nvc .c3) = hi)
    (hok : Q.ok () (setNvc (setNvc s .c2 v) .c3 v) hi)
    (hfail : ∀ k, lo ≤ k → k < hi → G k .fail → ∀ e x2 x3 j, s.nvc .c2 ≤ x2 → x2 ≤ v →
      s.nvc .c3 ≤ x3 → x3 ≤ v → Q.err e (setNvc (setNvc s .c2 x2) .c3 x3) j)
    (hcut : ∀ x2 x3, s.nvc .c2 ≤ x2 → x2 ≤ v → s.nvc .c3 ≤ x3 → x3 ≤ v →
      Q.cut (setNvc (setNvc s .c2 x2) .c3 x3)) :
    wpAt G lo (psObjectTableAlignNvCounters v) s Q := by
  have h3' : ∀ x, (setNvc s .c2 x).nvc .c3 = s.nvc .c3 := fun x => by simp [setNvc]
  have hset : ∀ x, setNvc (setNvc s .c2 x) .c3 (s.nvc .c3) = setNvc s .c2 x := by
    intro x
    rw [← h3' x, setNvc_self]
  refine wpAt_bind (alignNvCounter_at hmax h2 (Nat.le_refl lo) rfl ?_ ?_ ?_)
  · refine alignNvCounter_at hmax (by rw [h3']; exact h3) (show lo ≤ _ by omega)
      (by rw [h3']; omega) hok ?_ ?_
    · intro k hlo hk hG e x j hx hxv
      rw [h3'] at hx
      exact hfail k hlo hk hG e v x j h2 (Nat.le_refl v) hx hxv
    · intro x hx hxv
      rw [h3'] at hx
      exact hcut v x h2 (Nat.le_refl v) hx hxv
  · intro k hlo hk hG e x j hx hxv
    have := hfail k hlo (by omega) hG e x (s.nvc .c3) j hx hxv (Nat.le_refl _) h3
    rwa [hset] at this
  · intro x hx hxv
    have := hcut x (s.nvc .c3) hx hxv (Nat.le_refl _) h3
    rwa [hset] at this

end Align

/-! ## Saving the table -/

section Save

variable {cfg : Cfg} {Q : PostAt PsaStatus (Sys n) Unit}

/-- The state of a save after the write. -/
def written (s : Sys n) (iv : Iv) (v : Option Nat) : Sys n :=
  { tagged s iv v with
    files := Function.update s.files (tableFid s.scratch)
      (some (.table (stampTable iv v s.table.body)))
    active := s.scratch
    scratch := s.active }

/-- Tagging the table and writing it, `v` being the counter value. -/
theorem write_at {v : Option Nat}
    (hok : ∀ iv, wpAt G (i + 4) (match v with
      | some v => psObjectTableAlignNvCounters v
      | none => pure ()) (written s iv v) Q)
    (herr : ∀ e t j, t.body = s.table.body →
      ∀ iv u, Q.err e { s with iv := iv, used := u, table := t } j)
    (hcut : ∀ t, t.body = s.table.body →
      ∀ iv u, Q.cut { s with iv := iv, used := u, table := t }) :
    wpAt G i (do
      psCryptoSetkey
      match ← attempt (psObjectTableGenerateAuthTag v) with
      | .error e => do
        let _ ← attempt psCryptoDestroykey
        throw e
      | .ok _ => do
        psCryptoDestroykey
        psObjectTableFsWriteTable
        match v with
        | some v => psObjectTableAlignNvCounters v
        | none => pure ()) s Q := by
  have hfail : ∀ e t iv u j, t.body = s.table.body →
      wpAt G j (do
        let _ ← attempt psCryptoDestroykey
        throw e) { s with iv := iv, used := u, table := t } Q := by
    intro e t iv u j ht
    have hthrow : ∀ k, wpAt G k (throw e) { s with iv := iv, used := u, table := t } Q :=
      fun k => wpAt_throw (herr e t k ht iv u)
    exact wpAt_bind (wpAt_attempt (wpAt_ext_ok rfl (hthrow _) (fun _ => hthrow _) (hcut t ht iv u)))
  refine wpAt_bind (wpAt_ext_ok rfl ?_ (fun _ => herr _ s.table _ rfl s.iv s.used)
    (hcut s.table rfl s.iv s.used))
  refine wpAt_bind (wpAt_attempt ?_)
  refine wpAt_bind (wpAt_bind (wpAt_get ?_))
  cases hn : s.iv.next with
  | none =>
    simp only [hn]
    exact wpAt_throw (hfail _ s.table s.iv s.used _ rfl)
  | some iv =>
    simp only [hn]
    refine wpAt_bind (wpAt_modify (wpAt_pure ?_))
    refine wpAt_bind (wpAt_modify (wpAt_bind (wpAt_get ?_)))
    refine wpAt_bind (wpAt_ext_ok rfl ?_ ?_ (hcut { s.table with iv := iv } rfl iv s.used))
    · dsimp only
      refine wpAt_modify ?_
      refine wpAt_bind (wpAt_ext_ok rfl ?_
        (fun _ => herr _ (stampTable iv v s.table.body) _ rfl iv (iv :: s.used))
        (hcut (stampTable iv v s.table.body) rfl iv (iv :: s.used)))
      refine wpAt_bind (wpAt_bind (wpAt_get ?_))
      refine wpAt_bind (wpAt_itsSet ?_
        (fun _ => herr _ (stampTable iv v s.table.body) _ rfl iv (iv :: s.used))
        (hcut (stampTable iv v s.table.body) rfl iv (iv :: s.used)))
      dsimp only
      exact wpAt_modify (hok iv)
    · exact fun _ => hfail _ { s.table with iv := iv } iv s.used _ rfl

theorem wrote_rollback (hr : cfg.rollback = true) (hlt : s.nvc .c1 < nvcMax) (iv : Iv)
    {x2 x3 : Nat} (hl2 : s.nvc .c2 ≤ x2) (hu2 : x2 ≤ s.nvc .c1 + 1) (hl3 : s.nvc .c3 ≤ x3)
    (hu3 : x3 ≤ s.nvc .c1 + 1) :
    Wrote cfg s (setNvc (setNvc (written (setNvc s .c1 (s.nvc .c1 + 1)) iv
      (some (s.nvc .c1 + 1))) .c2 x2) .c3 x3) := by
  refine ⟨rfl, rfl, rfl, rfl, rfl, ?_, fun _ => ⟨?_, hlt, ?_⟩, ⟨?_, ?_⟩, ?_, ?_⟩
  · intro h
    rw [hr] at h
    cases h
  · simp [Table.auth, written, tagged, stampTable, setNvc]
  · simp [written, tagged, setNvc]
  · simpa [written, tagged, setNvc] using hl2
  · simpa [written, tagged, setNvc] using hu2
  · simpa [written, tagged, setNvc] using hl3
  · simpa [written, tagged, setNvc] using hu3

section

variable (h2 : s.nvc .c2 ≤ s.nvc .c1) (h3 : s.nvc .c3 ≤ s.nvc .c1)
  (hbefore : ∀ e s' j, Before s s' → Q.err e s' j)
  (hcut : ∀ s', Before s s' ∨ Wrote cfg s s' → Q.cut s')
include h2 h3 hbefore hcut

theorem save_plain_at (hr : cfg.rollback = false) (hok : ∀ s' j, Wrote cfg s s' → Q.ok () s' j) :
    wpAt G i (psObjectTableSaveTable cfg) s Q := by
  refine wpAt_bind ?_
  unfold saveStamp
  simp only [hr, Bool.false_eq_true, if_false]
  refine wpAt_bind (wpAt_modify (wpAt_pure (write_at ?_ ?_ ?_)))
  · intro iv
    refine wpAt_pure (hok _ _ ⟨rfl, rfl, rfl, rfl, rfl, fun _ => ⟨?_, rfl, rfl⟩, ?_,
      ⟨Nat.le_refl _, h2⟩, ⟨Nat.le_refl _, h3⟩⟩)
    · simp [Table.auth, written, tagged, stampTable]
    · intro h
      rw [hr] at h
      cases h
  · intro e t j ht iv u
    exact hbefore e _ j ⟨rfl, rfl, rfl, by rw [ht], by rw [ht], .inl rfl⟩
  · intro t ht iv u
    exact hcut _ (.inl ⟨rfl, rfl, rfl, by rw [ht], by rw [ht], .inl rfl⟩)

theorem save_rollback_at (hr : cfg.rollback = true) (hmax : s.nvc .c1 ≤ nvcMax)
    (hok : ∀ s' j, Wrote cfg s s' → s'.nvc .c2 = s'.nvc .c1 → s'.nvc .c3 = s'.nvc .c1 →
      Q.ok () s' j)
    (hlate : ∀ e s' j k, Wrote cfg s s' → i + 6 ≤ k → k < i + 6 + alignLen s → G k .fail →
      Q.err e s' j) :
    wpAt G i (psObjectTableSaveTable cfg) s Q := by
  have hself : Before s s := ⟨rfl, rfl, rfl, rfl, rfl, .inl rfl⟩
  refine wpAt_bind ?_
  unfold saveStamp
  simp only [hr, if_true]
  by_cases hc : s.nvc .c1 = nvcMax
  · refine wpAt_bind (wpAt_ext ?_ ?_ (fun _ => hbefore _ _ _ hself) (hcut _ (.inl hself)))
    · intro a s' h
      rw [if_pos hc] at h
      cases h
    · intro e s' h
      rw [if_pos hc] at h
      cases h
      exact hbefore _ _ _ hself
  have hlt : s.nvc .c1 < nvcMax := by omega
  have hs₁ : { s with nvc := Function.update s.nvc .c1 (s.nvc .c1 + 1) } =
      setNvc s .c1 (s.nvc .c1 + 1) := rfl
  have hc1 : (setNvc s .c1 (s.nvc .c1 + 1)).nvc .c1 = s.nvc .c1 + 1 := by simp [setNvc]
  have hc2 : (setNvc s .c1 (s.nvc .c1 + 1)).nvc .c2 = s.nvc .c2 := by simp [setNvc]
  have hc3 : (setNvc s .c1 (s.nvc .c1 + 1)).nvc .c3 = s.nvc .c3 := by simp [setNvc]
  have hinc : Before s (setNvc s .c1 (s.nvc .c1 + 1)) :=
    ⟨rfl, rfl, rfl, rfl, rfl, .inr ⟨hlt, rfl⟩⟩
  refine wpAt_bind (wpAt_ext_ok (if_neg hc) ?_ (fun _ => hbefore _ _ _ hself)
    (hcut _ (.inl hself)))
  rw [hs₁]
  refine wpAt_bind (wpAt_ext_ok rfl ?_ (fun _ => hbefore _ _ _ hinc) (hcut _ (.inl hinc)))
  rw [hc1]
  refine wpAt_pure (write_at ?_ ?_ ?_)
  · intro iv
    refine align_at (by omega) ?_ ?_ rfl ?_ ?_ ?_
    · show (setNvc s .c1 (s.nvc .c1 + 1)).nvc .c2 ≤ _
      omega
    · show (setNvc s .c1 (s.nvc .c1 + 1)).nvc .c3 ≤ _
      omega
    · refine hok _ _ (wrote_rollback hr hlt iv (by omega) (Nat.le_refl _) (by omega)
        (Nat.le_refl _)) ?_ ?_
      · simp [setNvc, written, tagged]
      · simp [setNvc, written, tagged]
    · intro k hlo hk hG e x2 x3 j hl2 hu2 hl3 hu3
      refine hlate e _ j k (wrote_rollback hr hlt iv (hc2 ▸ hl2) hu2 (hc3 ▸ hl3) hu3)
        (by omega) ?_ hG
      have hlen : k < i + 1 + 1 + 4 + 2 + (s.nvc .c1 + 1 - (setNvc s .c1 (s.nvc .c1 + 1)).nvc .c2) +
        (s.nvc .c1 + 1 - (setNvc s .c1 (s.nvc .c1 + 1)).nvc .c3) := hk
      rw [hc2, hc3] at hlen
      unfold alignLen
      omega
    · intro x2 x3 hl2 hu2 hl3 hu3
      exact hcut _ (.inr (wrote_rollback hr hlt iv (hc2 ▸ hl2) hu2 (hc3 ▸ hl3) hu3))
  · intro e t j ht iv u
    exact hbefore e _ j ⟨rfl, rfl, rfl, by rw [ht]; rfl, by rw [ht]; rfl, .inr ⟨hlt, rfl⟩⟩
  · intro t ht iv u
    exact hcut _ (.inl ⟨rfl, rfl, rfl, by rw [ht]; rfl, by rw [ht]; rfl, .inr ⟨hlt, rfl⟩⟩)

/-- A save. Errors of the alignment come after the table was written. -/
theorem save_at (hmax : s.nvc .c1 ≤ nvcMax)
    (hok : ∀ s' j, Wrote cfg s s' →
      (cfg.rollback = true → s'.nvc .c2 = s'.nvc .c1 ∧ s'.nvc .c3 = s'.nvc .c1) → Q.ok () s' j)
    (hlate : ∀ e s' j k, Wrote cfg s s' → cfg.rollback = true → i + 6 ≤ k →
      k < i + 6 + alignLen s → G k .fail → Q.err e s' j) :
    wpAt G i (psObjectTableSaveTable cfg) s Q := by
  cases hr : cfg.rollback with
  | false =>
    refine save_plain_at h2 h3 hbefore hcut hr fun s' j hw => hok s' j hw fun h => ?_
    rw [hr] at h
    cases h
  | true =>
    exact save_rollback_at h2 h3 hbefore hcut hr hmax
      (fun s' j hw e2 e3 => hok s' j hw fun _ => ⟨e2, e3⟩)
      fun e s' j k hw => hlate e s' j k hw hr

end

end Save

end Tfm.L4.Ps
