import Mathlib.Algebra.Order.Interval.Finset.SuccPred
import Mathlib.Data.Nat.SuccPred
import Mathlib.Order.Interval.Finset.Nat
import Tfm.L4Service.ItsReach
import Tfm.L4Service.PsOnce
import Tfm.L4Service.PsWipe

/-!
# Protected Storage at capacity

The filesystem of Protected Storage has `PS_MAX_NUM_OBJECTS` file entries: one for each
asset, one for the object table, and two for the new table and the new object of an
update. The filesystem keeps one of its entries for the replacement of a file, so a new
file needs two free ones.

Results: `update_finds_entries`, when an update of an object is refused for want of a
file entry, in every state that the partition can reach on such a filesystem:
with `PS_NUM_ASSETS` objects there is no entry for the new table.
-/
namespace Tfm.L4.Its

/-! ## The file entries of a filesystem -/

section Entries

variable {c : Cfg} {t : Tab} {fill : Option UInt8}

/-- The free ones of the `n` entries from `i` on. -/
def freeEntries (fm : Nat → FileMeta) (i n : Nat) : Nat :=
  ((Finset.Ico i (i + n)).filter fun k => (fm k).used = false).card

theorem freeEntries_succ (fm : Nat → FileMeta) (i n : Nat) : freeEntries fm i (n + 1) =
    freeEntries fm (i + 1) n + if (fm i).used = false then 1 else 0 := by
  unfold freeEntries
  rw [show i + (n + 1) = i + 1 + n by omega, ← Finset.insert_Ico_add_one_left_eq_Ico (by omega),
    Finset.filter_insert]
  split
  · rw [Finset.card_insert_of_notMem (by simp)]
  · rfl

/-- The search for a free entry. -/
theorem freeIdx_isSome (fm : Nat → FileMeta) (n : Nat) : ∀ (spare : Bool) (i : Nat),
    (freeIdx fm spare n i).isSome = true ↔ (if spare then 1 else 2) ≤ freeEntries fm i n := by
  induction n with
  | zero =>
    intro spare i
    unfold freeIdx freeEntries
    cases spare <;> simp
  | succ n ih =>
    intro spare i
    unfold freeIdx
    rw [freeEntries_succ]
    cases hu : (fm i).used with
    | true => simpa using ih spare (i + 1)
    | false =>
      cases spare with
      | true => simp
      | false =>
        have h := ih true (i + 1)
        simp only [if_true] at h
        simp [h]

/-- **A new file**, on a filesystem that has room for it, is refused if and only if fewer
than two entries are free. -/
theorem create_entries {a : WriteArgs c.toConfig} (hint : a.flags &&& internalFlagsMask = 0)
    (hcreate : a.flags &&& flagCreate ≠ 0) (hno : t.find c a.fid.id = none) (hoff : a.offset = 0)
    (hmax : c.aligned a.maxSize ≤ c.maxFileSize)
    (hsize : c.aligned a.dataSize ≤ c.aligned a.maxSize)
    (hroom : (freeBlock t.bm (c.aligned a.maxSize) c.numActiveDblocks 0).isSome = true) :
    t.writeArgs c fill a = .error .insufficientStorage ↔ freeEntries t.fm 0 c.maxNumFiles < 2 := by
  obtain ⟨l, hl⟩ := Option.isSome_iff_exists.1 hroom
  have hlook : t.lookup c a.fid.id a.flags (c.aligned a.maxSize) = .ok (none, none) := by
    unfold Tab.lookup
    rw [hno]
    exact if_neg hcreate
  have hidx := freeIdx_isSome t.fm c.maxNumFiles false 0
  rw [if_neg (by decide)] at hidx
  have hfits : ∀ m : FileMeta, m.maxSize = c.aligned a.maxSize →
      dataFits c m a.dataSize a.offset = true := by
    intro m hm
    rw [hoff]
    simp [dataFits, isAligned, checkContainedIn, hm, hsize]
  unfold Tab.writeArgs Tab.write Tab.firstUpdate
  rw [if_neg (not_not.2 hint), hlook]
  simp only [bind, Except.bind]
  unfold Tab.reserve
  dsimp only
  rw [if_neg (by omega), hl]
  cases hi : freeIdx t.fm none.isSome c.maxNumFiles 0 with
  | none =>
    have hi : freeIdx t.fm false c.maxNumFiles 0 = none := hi
    rw [hi] at hidx
    simp at hidx
    simp
    omega
  | some i =>
    have hi : freeIdx t.fm false c.maxNumFiles 0 = some i := hi
    rw [hi] at hidx
    have := hidx.1 rfl
    dsimp only
    unfold Tab.writeData
    refine ⟨fun h => ?_, fun h => absurd h (by omega)⟩
    by_cases hd : a.dataSize = 0
    · rw [if_pos hd] at h
      cases h
    · rw [if_neg hd, if_pos (hfits _ rfl)] at h
      cases h

end Entries

end Tfm.L4.Its

namespace Tfm.L4.Ps
open Tfm.Crash

variable {n : Nat} {cfg : Cfg} {s : Sys n}

/-! ## A filesystem with a number of entries -/

/-- mirrors secure_fw/partitions/protected_storage/ps_object_defs.h:71-80 and
internal_trusted_storage/tfm_internal_trusted_storage.c:54-62 -/
def psMaxNumObjects (numAssets : Nat) : Nat := numAssets + 3

/-- The ids of the table files and the object files. -/
def fids (n : Nat) : Finset Nat := Finset.Icc 1 (n + 2)

def fileCount (f : Nat → Option (File n)) : Nat := ((fids n).filter fun i => (f i).isSome).card

/-- A new file leaves one entry free; the others find the entry that they have.
mirrors secure_fw/partitions/internal_trusted_storage/flash_fs/its_flash_fs_mblock.c:337-367 -/
def psaItsSetIn (slots fid : Nat) (file : File n) : M n Unit := do
  let s ← get
  if (s.files fid).isNone ∧ slots < fileCount s.files + 2 then throw .insufficientStorage
  else psaItsSet fid file

abbrev limited (slots : Nat) : ItsSet n := ⟨psaItsSetIn slots⟩

section Count

variable {f : Nat → Option (File n)} {fid : Nat}

theorem objectFid_mem (i : Fin n) : objectFid i.val ∈ fids n := by
  have := i.isLt
  simp only [fids, objectFid, Finset.mem_Icc]
  omega

/-- The files but one. -/
theorem fileCount_erase (h : fid ∈ fids n) :
    fileCount f = fileCount (Function.update f fid none) + if (f fid).isSome then 1 else 0 := by
  have hrest : ((fids n).filter fun i => (Function.update f fid none i).isSome) =
      ((fids n).filter fun i => (f i).isSome).erase fid := by
    ext i
    by_cases hi : i = fid
    · simp [hi]
    · simp [hi]
  unfold fileCount
  rw [hrest]
  split
  · next hs => exact (Finset.card_erase_add_one (Finset.mem_filter.2 ⟨h, hs⟩)).symm
  · next hs =>
    have hno : fid ∉ (fids n).filter fun i => (f i).isSome := fun hm => hs (Finset.mem_filter.1 hm).2
    rw [Finset.erase_eq_of_notMem hno, Nat.add_zero]

/-- A file is added, or replaced. -/
theorem fileCount_set (h : fid ∈ fids n) (file : File n) :
    fileCount (Function.update f fid (some file)) =
      fileCount f + if (f fid).isNone then 1 else 0 := by
  have h1 := fileCount_erase (f := f) h
  have h2 := fileCount_erase (f := Function.update f fid (some file)) h
  rw [Function.update_self, Function.update_idem] at h2
  rw [h2, h1]
  cases f fid <;> simp

end Count

/-! ## Errors of other calls -/

section Spares

variable {α β : Type}

/-- The program does not fail for want of a file entry. -/
def Spares (m : M n α) : Prop :=
  ∀ F s, wp F m s ⟨fun _ _ => True, fun e _ => e ≠ .insufficientStorage, fun _ => True⟩

theorem Spares.pure (a : α) : Spares (Pure.pure a : M n α) := fun _ _ => wp_pure trivial

theorem Spares.throw {e : PsaStatus} (h : e ≠ .insufficientStorage) :
    Spares (Crash.throw e : M n α) := fun _ _ => wp_throw h

theorem Spares.bind {m : M n β} {f : β → M n α} (hm : Spares m) (hf : ∀ b, Spares (f b)) :
    Spares (m >>= f) := fun F s =>
  wp_bind (wp_mono (hm F s) (fun b s' _ => hf b F s') (fun _ _ h => h) fun _ h => h)

theorem Spares.attempt {m : M n α} (hm : Spares m) : Spares (Crash.attempt m) := fun F s =>
  wp_attempt (wp_mono (hm F s) (fun _ _ _ => trivial) (fun _ _ _ => trivial) fun _ h => h)

theorem Spares.ext {e : PsaStatus} {f : Sys n → Except PsaStatus α × Sys n}
    (he : e ≠ .insufficientStorage) (hf : ∀ s e' s', f s = (.error e', s') → e' ≠ .insufficientStorage) :
    Spares (Ps.ext e f) := fun _ s =>
  wp_ext (fun _ _ _ => trivial) (fun _ _ h => hf s _ _ h) (fun _ => he) fun _ => trivial

/-- A call that cannot return an error of its own. -/
theorem Spares.call {e : PsaStatus} {g : Sys n → α} {k : Sys n → Sys n}
    (he : e ≠ .insufficientStorage) : Spares (Ps.ext e fun s => (.ok (g s), k s)) :=
  .ext he fun _ _ _ h => by cases h

theorem spares_itsRemove (fid : Nat) : Spares (n := n) (psaItsRemove fid) := by
  refine .ext (by decide) fun s e s' h => ?_
  split at h
  · cases h
  · cases h
    decide

theorem spares_increment (c : Nvc) (k : Nat) : Spares (n := n) (incrementNvCounter c k) := by
  induction k with
  | zero => exact .pure ()
  | succ k ih =>
    refine .bind (.ext (by decide) fun s e s' h => ?_) fun _ => ih
    split at h
    · cases h
      decide
    · cases h

theorem spares_align (v : Nat) : Spares (n := n) (psObjectTableAlignNvCounters v) :=
  .bind (.bind (.call (by decide)) fun _ => spares_increment _ _) fun _ =>
    .bind (.call (by decide)) fun _ => spares_increment _ _

theorem spares_removeOldData (fid : Nat) : Spares (n := n) (psRemoveOldData fid) :=
  .bind (.bind (fun _ _ => wp_get trivial) fun _ => spares_itsRemove _) fun _ => spares_itsRemove _

end Spares

/-! ## Writing on a limited filesystem -/

section Limited

variable {F : Ev → Prop} {slots : Nat}

/-- A new file finds fewer than two free entries. -/
def Full (slots : Nat) (f : Nat → Option (File n)) (fid : Nat) : Prop :=
  (f fid).isNone ∧ slots < fileCount f + 2

theorem wp_setIn {fid : Nat} {file : File n} {Q : Post PsaStatus (Sys n) Unit}
    (hok : ¬ Full slots s.files fid →
      Q.ok () { s with files := Function.update s.files fid (some file) })
    (hfull : Full slots s.files fid → Q.err .insufficientStorage s)
    (hfail : F .fail → ¬ Full slots s.files fid → Q.err .storageFailure s)
    (hcut : Cuts F → Q.cut s) : wp F (psaItsSetIn slots fid file) s Q := by
  refine wp_bind (wp_get ?_)
  dsimp only
  split
  · next h => exact wp_throw (hfull h)
  · next h =>
    exact wp_ext (fun _ _ hr => by cases hr; exact hok h) (fun _ _ hr => by cases hr)
      (fun hF => hfail hF h) hcut

/-- A call that cannot return an error of its own. -/
theorem wp_ext_pure {α : Type} {e : PsaStatus} {g : Sys n → α} {k : Sys n → Sys n}
    {Q : Post PsaStatus (Sys n) α} (hok : Q.ok (g s) (k s)) (hfail : F .fail → Q.err e s)
    (hcut : Cuts F → Q.cut s) : wp F (ext e fun s => (.ok (g s), k s)) s Q :=
  wp_ext (fun _ _ h => by cases h; exact hok) (fun _ _ h => by cases h) hfail hcut

/-- A new object file. -/
theorem objectWrite_in {fid : Nat} {obj : Obj} {Q : Post PsaStatus (Sys n) ObjTag}
    (hok : ∀ iv, s.iv.next = some iv → ¬ Full slots s.files fid → Q.ok ⟨iv, fid, obj⟩ { s with
      files := Function.update s.files fid (some (.object ⟨iv, obj⟩))
      iv := iv
      used := iv :: s.used })
    (hfull : ∀ iv used, s.iv.next ≠ none → Full slots s.files fid →
      Q.err .insufficientStorage { s with iv := iv, used := used })
    (herr : ∀ e iv used, F .fail ∨ s.iv.next = none → e ≠ .insufficientStorage →
      Q.err e { s with iv := iv, used := used })
    (hcut : ∀ iv used, Cuts F → Q.cut { s with iv := iv, used := used }) :
    wp F (@psEncryptedObjectWrite n (limited slots) fid obj) s Q := by
  have hgen : ∀ iv used, F .fail → Q.err .genericError { s with iv := iv, used := used } :=
    fun iv used hF => herr _ iv used (.inl hF) (by decide)
  refine wp_bind (wp_ext_pure ?_ (hgen s.iv s.used) (hcut s.iv s.used))
  refine wp_bind (wp_bind (wp_get ?_))
  cases hn : s.iv.next with
  | none =>
    simp only [hn]
    exact wp_throw (herr _ s.iv s.used (.inr hn) (by decide))
  | some iv =>
    have hne : s.iv.next ≠ none := by simp [hn]
    simp only [hn]
    refine wp_bind (wp_modify (wp_pure ?_))
    refine wp_bind (wp_attempt (wp_ext_pure ?_ (fun hF => ?_) (hcut iv s.used)))
    · refine wp_bind (wp_ext_pure ?_ (hgen iv (iv :: s.used)) (hcut iv (iv :: s.used)))
      exact wp_bind (wp_setIn (fun h => wp_pure (hok iv hn h))
        (fun h => hfull iv (iv :: s.used) hne h)
        (fun hF _ => herr _ iv (iv :: s.used) (.inl hF) (by decide)) (hcut iv (iv :: s.used)))
    · have hthrow : wp F (throw PsaStatus.genericError) { s with iv := iv } Q :=
        wp_throw (hgen iv s.used hF)
      exact wp_bind (wp_attempt (wp_ext_pure hthrow (fun _ => hthrow) (hcut iv s.used)))

theorem Same.trans {t u : Sys n} (h : Same s t) (h' : Same t u) : Same s u :=
  ⟨h'.db.trans h.db, h'.files.trans h.files, h'.active.trans h.active, h'.scratch.trans h.scratch⟩

theorem saveStamp_in : wp F (saveStamp cfg) s
    ⟨fun _ s' => (Same s s' ∧ s'.iv = s.iv) ∧ (cfg.rollback = true → s.nvc .c1 ≠ nvcMax),
      fun e s' => Same s s' ∧ e ≠ .insufficientStorage ∧
        (F .fail ∨ cfg.rollback = true ∧ s.nvc .c1 = nvcMax),
      fun s' => Same s s' ∧ Cuts F⟩ := by
  unfold saveStamp
  split
  · next hr =>
    refine wp_bind (wp_ext ?_ ?_ (fun hF => ⟨.refl s, by decide, .inl hF⟩) fun hc => ⟨.refl s, hc⟩)
    · intro _ s' h
      split at h
      · cases h
      · next hne =>
        cases h
        exact wp_bind (wp_ext_pure (wp_pure ⟨⟨⟨rfl, rfl, rfl, rfl⟩, rfl⟩, fun _ => hne⟩)
          (fun hF => ⟨⟨rfl, rfl, rfl, rfl⟩, by decide, .inl hF⟩) fun hc => ⟨⟨rfl, rfl, rfl, rfl⟩, hc⟩)
    · intro e s' h
      split at h
      · next hmax =>
        cases h
        exact ⟨.refl s, by decide, .inr ⟨hr, hmax⟩⟩
      · cases h
  · next hr =>
    exact wp_bind (wp_modify (wp_pure ⟨⟨⟨rfl, rfl, rfl, rfl⟩, rfl⟩, fun h => absurd h hr⟩))

theorem generateAuthTag_in {v : Option Nat} : wp F (psObjectTableGenerateAuthTag v) s
    ⟨fun _ s' => Same s s' ∧ s.iv.next ≠ none,
      fun e s' => Same s s' ∧ e ≠ .insufficientStorage ∧ (F .fail ∨ s.iv.next = none),
      fun s' => Same s s' ∧ Cuts F⟩ := by
  refine wp_bind (wp_bind (wp_get ?_))
  cases hn : s.iv.next with
  | none =>
    simp only [hn]
    exact wp_throw ⟨.refl s, by decide, .inr trivial⟩
  | some iv =>
    simp only [hn]
    refine wp_bind (wp_modify (wp_pure ?_))
    refine wp_bind (wp_modify (wp_bind (wp_get (wp_bind (wp_ext_pure ?_
      (fun hF => ⟨⟨rfl, rfl, rfl, rfl⟩, by decide, .inl hF⟩) fun hc => ⟨⟨rfl, rfl, rfl, rfl⟩, hc⟩)))))
    dsimp only
    refine wp_modify ?_
    exact ⟨⟨rfl, rfl, rfl, rfl⟩, by simp⟩

/-- What a save may have done when it fails. -/
structure Tried (s s' : Sys n) : Prop where
  db : s'.table.body.db = s.table.body.db
  files : s'.files = s.files ∨ ∃ t : Table n, t.body.db = s.table.body.db ∧
    s'.files = Function.update s.files (tableFid s.scratch) (some (.table t))

theorem Same.tried {s' : Sys n} (h : Same s s') : Tried s s' := ⟨h.db, .inl h.files⟩

/-- A save on a limited filesystem. -/
theorem save_in {Q : Post PsaStatus (Sys n) Unit}
    (hok : ∀ s', Tried s s' → ¬ Full slots s.files (tableFid s.scratch) → Q.ok () s')
    (hfull : ∀ s', Tried s s' → s.iv.next ≠ none → (cfg.rollback = true → s.nvc .c1 ≠ nvcMax) →
      Full slots s.files (tableFid s.scratch) → Q.err .insufficientStorage s')
    (herr : ∀ e s', Tried s s' → e ≠ .insufficientStorage →
      F .fail ∨ s.iv.next = none ∨ (cfg.rollback = true ∧ s.nvc .c1 = nvcMax) ∨
        ¬ Full slots s.files (tableFid s.scratch) → Q.err e s')
    (hcut : ∀ s', Tried s s' → Cuts F ∨ ¬ Full slots s.files (tableFid s.scratch) → Q.cut s') :
    wp F (@psObjectTableSaveTable n (limited slots) cfg) s Q := by
  have hkey : ∀ {s' : Sys n}, Same s s' → F .fail → Q.err .genericError s' := fun h hF =>
    herr _ _ h.tried (by decide) (.inl hF)
  have hoff : ∀ {s' : Sys n}, Same s s' → Cuts F → Q.cut s' := fun h hc => hcut _ h.tried (.inl hc)
  refine wp_bind (wp_mono saveStamp_in ?_ ?_ fun s' h => hoff h.1 h.2)
  · intro v s₁ hx
    obtain ⟨⟨h₁, hiv⟩, hmax⟩ := hx
    refine wp_bind (wp_ext_pure ?_ (hkey h₁) (hoff h₁))
    refine wp_bind (wp_attempt (wp_mono generateAuthTag_in ?_ ?_ ?_))
    · intro _ s₂ hx
      obtain ⟨h₂, hne⟩ := hx
      have h₂ := h₁.trans h₂
      rw [hiv] at hne
      refine wp_bind (wp_ext_pure ?_ (hkey h₂) (hoff h₂))
      refine wp_bind (wp_bind (wp_get (wp_bind (wp_setIn (fun hfit => ?_) (fun hf => ?_)
        (fun hF _ => herr _ _ h₂.tried (by decide) (.inl hF)) (hoff h₂)))))
      · rw [h₂.files, h₂.scratch] at hfit
        have hw : ∀ {t : Sys n}, Same { s₂ with
            files := Function.update s₂.files (tableFid s₂.scratch) (some (.table s₂.table))
            scratch := s₂.active
            active := s₂.scratch } t → Tried s t := by
          intro t ht
          refine ⟨ht.db.trans h₂.db, .inr ⟨s₂.table, h₂.db, ?_⟩⟩
          rw [ht.files, h₂.files, h₂.scratch]
        dsimp only
        refine wp_modify ?_
        cases v with
        | none => exact wp_pure (hok _ (hw (.refl _)) hfit)
        | some v =>
          exact wp_mono (wp_and (align_same v F _ (.refl _)) (spares_align v F _))
            (fun _ s' h => hok s' (hw h.1) hfit)
            (fun e s' h => herr e s' (hw h.1) h.2 (.inr (.inr (.inr hfit))))
            fun s' h => hcut s' (hw h.1) (.inr hfit)
      · rw [h₂.files, h₂.scratch] at hf
        exact hfull s₂ h₂.tried hne hmax hf
    · intro e s₂ hx
      obtain ⟨h₂, he, hwhy⟩ := hx
      have h₂ := h₁.trans h₂
      rw [hiv] at hwhy
      have hthrow : wp F (throw e) s₂ Q :=
        wp_throw (herr e s₂ h₂.tried he (hwhy.elim .inl fun h => .inr (.inl h)))
      exact wp_bind (wp_attempt (wp_ext_pure hthrow (fun _ => hthrow) (hoff h₂)))
    · exact fun s₂ h => hoff (h₁.trans h.1) h.2
  · intro e s' hx
    obtain ⟨h, he, hwhy⟩ := hx
    exact herr e s' h.tried he (hwhy.elim .inl fun h => .inr (.inr (.inl h)))

end Limited

/-! ## An update -/

section Update

variable {slots uid : Nat} {c : Int} {obj : Obj} {j : Fin n} {old : Nat}

/-- The files, without a left-over file under the id of the new object. -/
def others (s : Sys n) (j : Fin n) : Nat :=
  fileCount (Function.update s.files (objectFid j.val) none)

/-- There are too few entries for the new object `j`, or then for the new table; an IV
for each and a value of counter 1 are there. -/
def Crowded (cfg : Cfg) (slots : Nat) (s : Sys n) (j : Fin n) : Prop :=
  (s.iv.val + 1 < 2 ^ 96 ∧ slots < others s j + 2) ∨
    (s.iv.val + 2 < 2 ^ 96 ∧ (cfg.rollback = true → s.nvc .c1 ≠ nvcMax) ∧
      (s.files (tableFid s.scratch)).isNone ∧ slots < others s j + 3)

theorem next_ne_none {iv : Iv} : iv.next ≠ none ↔ iv.val + 1 < 2 ^ 96 := by
  constructor
  · intro h
    obtain ⟨iv', hiv⟩ := Option.ne_none_iff_exists'.1 h
    have := Iv.next_some hiv
    have := iv'.val_lt
    omega
  · intro h
    obtain ⟨iv', hiv⟩ := Iv.next_of_lt (show iv.val < 2 ^ 96 - 1 by omega)
    simp [hiv]

theorem full_object : Full slots (Function.update s.files (objectFid j.val) none) (objectFid j.val) ↔
    slots < others s j + 2 := by
  unfold Full others
  rw [Function.update_self]
  simp

theorem full_table (o : File n) : Full slots (Function.update (Function.update s.files
    (objectFid j.val) none) (objectFid j.val) (some o)) (tableFid s.scratch) ↔
    (s.files (tableFid s.scratch)).isNone ∧ slots < others s j + 3 := by
  unfold Full
  rw [fileCount_set (objectFid_mem j), Function.update_self,
    Function.update_of_ne (tableFid_ne_objectFid _ _), Function.update_of_ne (tableFid_ne_objectFid _ _)]
  exact Iff.rfl

/-- The id of a new object. -/
theorem getFreeFid_any {num : Nat} (hj : tableFreeIdx s.table.body num (List.finRange n) = some j) :
    wp AnyEv (psObjectTableGetFreeFid num) s
      ⟨fun fid s' => fid = objectFid j.val ∧
        s' = { s with files := Function.update s.files (objectFid j.val) none },
        fun e _ => e ≠ .insufficientStorage, fun _ => True⟩ := by
  refine wp_bind (wp_get ?_)
  simp only [hj]
  refine wp_bind (wp_attempt (wp_ext ?_ ?_ (fun _ => wp_throw nofun) fun _ => trivial))
  · intro _ s' h
    split at h
    · cases h
      exact wp_pure ⟨rfl, rfl⟩
    · cases h
  · intro e s' h
    split at h
    · cases h
    · next hnone =>
      cases h
      refine wp_pure ⟨rfl, ?_⟩
      rw [← hnone, Function.update_eq_self]

theorem store_spares (hj : tableFreeIdx s.table.body 1 (List.finRange n) = some j)
    (hno : ¬ Crowded cfg slots s j) :
    wp AnyEv (@storeObject n (limited slots) cfg 1 uid c obj (some old)) s
      ⟨fun _ _ => True, fun e _ => e ≠ .insufficientStorage, fun _ => True⟩ := by
  have hobj : ¬ (s.iv.val + 1 < 2 ^ 96 ∧ slots < others s j + 2) := fun h => hno (.inl h)
  have htab : ¬ (s.iv.val + 2 < 2 ^ 96 ∧ (cfg.rollback = true → s.nvc .c1 ≠ nvcMax) ∧
      (s.files (tableFid s.scratch)).isNone ∧ slots < others s j + 3) := fun h => hno (.inr h)
  refine wp_bind (wp_mono (getFreeFid_any hj) ?_ (fun _ _ h => h) fun _ h => h)
  intro fid s₁ hx
  obtain ⟨rfl, rfl⟩ := hx
  refine wp_bind (objectWrite_in (fun iv hiv _ => ?_) (fun _ _ hne hf => ?_)
    (fun _ _ _ _ he => he) fun _ _ _ => trivial)
  · have hval : iv.val = s.iv.val + 1 := Iv.next_some hiv
    have herr : ∀ {e : PsaStatus} (s' : Sys n), e ≠ .insufficientStorage → wp AnyEv (do
        let _ ← attempt (psaItsRemove (objectFid j.val))
        throw e) s' ⟨fun (_ : Unit) _ => True, fun e _ => e ≠ .insufficientStorage, fun _ => True⟩ :=
      fun s' he => Spares.bind (.attempt (spares_itsRemove _)) (fun _ => .throw he) AnyEv s'
    refine wp_bind (wp_attempt (@setInfo_wp n AnyEv _ (limited slots) _ _ _ _ _ _ (save_in
      (fun s' _ _ => spares_removeOldData _ AnyEv s') (fun s' _ hne hmax hf => ?_)
      (fun e s' _ he _ => herr _ he) fun _ _ _ => trivial)))
    refine absurd ⟨?_, hmax, (full_table _).1 hf⟩ htab
    have : iv.val + 1 < 2 ^ 96 := next_ne_none.1 hne
    omega
  · exact absurd ⟨next_ne_none.1 hne, full_object.1 hf⟩ hobj

theorem store_refused (hj : tableFreeIdx s.table.body 1 (List.finRange n) = some j)
    (h : Crowded cfg slots s j) :
    wp Quiet (@storeObject n (limited slots) cfg 1 uid c obj (some old)) s
      ⟨fun _ _ => False, fun e _ => e = .insufficientStorage, fun _ => False⟩ := by
  have hF : ¬ Quiet .fail := fun h => by cases h
  have hnc : ∀ {P : Prop}, Cuts Quiet → P := fun h => absurd h not_cuts_quiet
  have hiv : s.iv.next ≠ none := by
    rw [next_ne_none]
    rcases h with h | h
    · exact h.1
    · omega
  refine wp_bind (getFreeFid_wp hF hj ?_ hnc)
  refine wp_bind (objectWrite_in (fun iv hn hfit => ?_) (fun _ _ _ _ => rfl)
    (fun _ _ _ hwhy _ => hwhy.elim (fun hf => absurd hf hF) fun hn => absurd hn hiv) fun _ _ => hnc)
  rw [full_object] at hfit
  obtain ⟨hlt, hmax, hfull⟩ := h.resolve_left fun h => hfit h.2
  have hval : iv.val = s.iv.val + 1 := Iv.next_some hn
  have hne : iv.next ≠ none := next_ne_none.2 (by omega)
  have hfull := (full_table (.object ⟨iv, obj⟩)).2 hfull
  refine wp_bind (wp_attempt (@setInfo_wp n Quiet _ (limited slots) _ _ _ _ _ _ (save_in
    (fun _ _ hfit => absurd hfull hfit) (fun s' _ _ _ _ => ?_)
    (fun _ _ _ _ hwhy => ?_) fun _ _ hc => hc.elim hnc fun hfit => absurd hfull hfit)))
  · exact wp_bind (wp_itsRemove hF (fun _ _ => wp_throw rfl) hnc)
  · rcases hwhy with hf | hn | hm | hfit
    · exact absurd hf hF
    · exact absurd hn hne
    · exact absurd hm.2 (hmax hm.1)
    · exact absurd hfull hfit

/-- An update of an object that is visible and not write-once, with arguments that pass
the checks. -/
def Op.Overwrites (cfg : Cfg) (s : Sys n) : Op → Prop
  | .create uid c flags data => uid ≠ 0 ∧ flags &&& ~~~createFlags = 0 ∧
      data.length ≤ cfg.maxData ∧ ∃ o, s.view uid c = some o ∧ o.flags &&& flagWriteOnce = 0
  | .write uid c offset data => uid ≠ 0 ∧ ∃ o, s.view uid c = some o ∧
      o.flags &&& flagWriteOnce = 0 ∧ offset ≤ o.data.length ∧ offset + data.length ≤ o.maxSize
  | .delete .. => False

theorem view_some {uid : Nat} {c : Int} {o : Obj} (h : s.view uid c = some o) :
    ∃ k file, getObjectEntryIdx s.table.body uid c = some k ∧
      s.files (objectFid k.val) = some (.object file) ∧
      (s.table.body.db k).tag = some ⟨file.iv, objectFid k.val, file.obj⟩ ∧ file.obj = o := by
  unfold Sys.view viewOf lookup at h
  split at h
  · cases h
  · split at h
    · cases h
    · next k hk =>
      split at h
      · next file hf =>
        split at h
        · next ht => exact ⟨k, file, hk, hf, ht, Option.some.inj h⟩
        · cases h
      · cases h

variable {F : Ev → Prop}

/-- A visible object is read. -/
theorem objectRead_visible {fid : Nat} {file : ObjFile} {Q : Post PsaStatus (Sys n) Obj}
    (hf : s.files fid = some (.object file)) (hok : Q.ok file.obj s)
    (herr : ∀ e, F .fail → e ≠ .insufficientStorage → Q.err e s) (hcut : Cuts F → Q.cut s) :
    wp F (psEncryptedObjectRead fid (some ⟨file.iv, fid, file.obj⟩)) s Q := by
  have hgen : F .fail → Q.err .genericError s := fun hF => herr _ hF (by decide)
  refine wp_bind (wp_ext ?_ ?_ (fun hF => herr _ hF (by decide)) hcut)
  · intro a s' ha
    rw [hf] at ha
    cases ha
    refine wp_bind (wp_ext_pure ?_ hgen hcut)
    refine wp_bind (wp_attempt (wp_ext ?_ ?_ (fun hF => ?_) hcut))
    · intro o s' ho
      rw [if_pos rfl] at ho
      cases ho
      exact wp_bind (wp_ext_pure (wp_pure hok) hgen hcut)
    · intro e s' he
      rw [if_pos rfl] at he
      cases he
    · have hthrow : wp F (throw PsaStatus.genericError) s Q := wp_throw (hgen hF)
      exact wp_bind (wp_attempt (wp_ext_pure hthrow (fun _ => hthrow) hcut))
  · intro e s' he
    rw [hf] at he
    cases he

/-- An update reads its object and stores the new one. -/
theorem overwrites_wp [ItsSet n] {o : Op} {Q : Post PsaStatus (Sys n) Unit}
    (h : o.Overwrites cfg s)
    (hstore : ∀ uid c obj old, wp F (storeObject cfg 1 uid c obj (some old)) s Q)
    (herr : ∀ e, F .fail → e ≠ .insufficientStorage → Q.err e s) (hcut : Cuts F → Q.cut s) :
    wp F (o.run cfg) s Q := by
  cases o with
  | create uid c flags data =>
    obtain ⟨hu, hfl, hd, o, hv, honce⟩ := h
    obtain ⟨k, file, hk, hf, ht, rfl⟩ := view_some hv
    unfold Op.run psObjectCreate
    dsimp only
    rw [if_neg hu, if_neg (by simpa using hfl), if_neg (by omega)]
    refine wp_bind (wp_get ?_)
    dsimp only
    rw [hk]
    dsimp only
    rw [ht]
    refine wp_bind (objectRead_visible hf ?_ herr hcut)
    dsimp only
    rw [if_neg (by simpa using honce)]
    exact hstore _ _ _ _
  | write uid c offset data =>
    obtain ⟨hu, o, hv, honce, hoff, hmax⟩ := h
    obtain ⟨k, file, hk, hf, ht, rfl⟩ := view_some hv
    unfold Op.run psObjectWrite
    dsimp only
    rw [if_neg hu]
    refine wp_bind (wp_get ?_)
    dsimp only
    rw [hk]
    dsimp only
    rw [ht]
    refine wp_bind (objectRead_visible hf ?_ herr hcut)
    dsimp only
    rw [if_neg (by simpa using honce), if_neg (by omega), if_neg (by omega)]
    exact hstore _ _ _ _
  | delete uid c => exact h.elim

/-- **An update on a limited filesystem** is refused for want of an entry if and only if
there are too few. -/
theorem update_entries {o : Op} (h : o.Overwrites cfg s)
    (hj : tableFreeIdx s.table.body 1 (List.finRange n) = some j) :
    (∀ p e s' q, @Op.run n (limited slots) cfg o s p = .err e s' q → e ≠ .insufficientStorage) ↔
      ¬ Crowded cfg slots s j := by
  constructor
  · intro hall hc
    have hrun := @overwrites_wp n cfg s Quiet (limited slots) o _ h
      (fun _ _ _ _ => store_refused hj hc) (fun _ hF _ => by cases hF)
      (fun hc => absurd hc not_cuts_quiet) [] (fun e he => by cases he)
    revert hrun
    cases hr : @Op.run n (limited slots) cfg o s [] with
    | ok a s' q => exact fun hrun => hrun.1
    | err e s' q => exact fun hrun => hall [] e s' q hr hrun.1
    | cut s' => exact fun hrun => hrun
  · intro hno p e s' q hr
    have hrun := @overwrites_wp n cfg s AnyEv (limited slots) o _ h
      (fun _ _ _ _ => store_spares hj hno) (fun _ _ he => he) (fun _ => trivial) p
      (fun _ _ => trivial)
    rw [hr] at hrun
    exact hrun.1

end Update

/-! ## The object table has an entry left -/

section Spare

variable {slots : Nat}

def HasFree (db : Fin n → Entry) : Prop := ∃ i, (db i).uid = 0

/-- Every table in a file has a free entry. -/
def SpareFiles (s : Sys n) : Prop := ∀ t, Image s.files t → HasFree t.body.db

/-- The table in RAM, too. -/
structure Spare (s : Sys n) : Prop where
  table : HasFree s.table.body.db
  files : SpareFiles s

/-- An entry that was deleted. -/
theorem hasFree_empty (b : Body n) (k : Fin n) : HasFree (b.set k .empty).db :=
  ⟨k, by simp [Body.set, Entry.empty]⟩

theorem tableFreeIdx_one {b : Body n} : ∀ {l : List (Fin n)}, (∃ i ∈ l, (b.db i).uid = 0) →
    ∃ j, tableFreeIdx b 1 l = some j := by
  intro l
  induction l with
  | nil => rintro ⟨i, hi, _⟩; cases hi
  | cons k l ih =>
    intro h
    obtain ⟨i, hi, hfree⟩ := h
    unfold tableFreeIdx
    by_cases hk : (b.db k).uid = 0
    · exact ⟨k, by rw [if_pos hk, if_pos (Nat.le_refl 1)]⟩
    · rw [if_neg hk]
      refine ih ⟨i, (List.mem_cons.1 hi).resolve_left ?_, hfree⟩
      intro h
      subst h
      exact hk hfree

theorem HasFree.idx {b : Body n} (h : HasFree b.db) :
    ∃ j, tableFreeIdx b 1 (List.finRange n) = some j := by
  obtain ⟨i, hi⟩ := h
  exact tableFreeIdx_one ⟨i, List.mem_finRange i, hi⟩

theorem tableFreeIdx_mem {b : Body n} {j : Fin n} : ∀ {l : List (Fin n)} {num : Nat},
    tableFreeIdx b num l = some j → j ∈ l := by
  intro l
  induction l with
  | nil => intro num h; cases h
  | cons k l ih =>
    intro num h
    unfold tableFreeIdx at h
    split at h
    · split at h
      · cases h
        exact List.mem_cons_self
      · exact List.mem_cons_of_mem _ (ih h)
    · exact List.mem_cons_of_mem _ (ih h)

/-- A create asks for two free entries, and takes the second. -/
theorem tableFreeIdx_other {b : Body n} {j : Fin n} : ∀ {l : List (Fin n)}, l.Nodup →
    tableFreeIdx b 2 l = some j → ∃ i, i ≠ j ∧ (b.db i).uid = 0 := by
  intro l
  induction l with
  | nil => intro _ h; cases h
  | cons k l ih =>
    intro hl h
    unfold tableFreeIdx at h
    split at h
    · next hk =>
      rw [if_neg (by decide)] at h
      refine ⟨k, ?_, hk⟩
      intro hx
      subst hx
      exact (List.nodup_cons.1 hl).1 (tableFreeIdx_mem h)
    · exact ih (List.nodup_cons.1 hl).2 h

/-- The entry of a new object leaves one free. -/
theorem hasFree_stored {b : Body n} {uid : Nat} {c : Int} {num : Nat} {j : Fin n} (e : Entry)
    (hu : uid ≠ 0) (hj : tableFreeIdx b num (List.finRange n) = some j)
    (hnum : num = 2 ∨ getObjectEntryIdx b uid c ≠ none) :
    HasFree ((cleared b uid c).set j e).db := by
  have hother : ∀ {i}, i ≠ j → ((cleared b uid c).db i).uid = 0 →
      HasFree ((cleared b uid c).set j e).db := fun {i} hij hi =>
    ⟨i, by rwa [show ((cleared b uid c).set j e).db i = _ from Function.update_of_ne hij _ _]⟩
  by_cases hk : getObjectEntryIdx b uid c = none
  · obtain rfl : num = 2 := hnum.resolve_right fun h => h hk
    obtain ⟨i, hij, hi⟩ := tableFreeIdx_other (List.nodup_finRange n) hj
    exact hother hij (cleared_free c hu hi)
  · obtain ⟨k, hk⟩ := Option.ne_none_iff_exists'.1 hk
    refine hother (i := k) (getObjectEntryIdx_ne hu hk (tableFreeIdx_some hj)) ?_
    simp [cleared, hk, Body.set, Entry.empty]

theorem SpareFiles.image {s' : Sys n} (h : SpareFiles s)
    (hf : ∀ t, Image s'.files t → Image s.files t) : SpareFiles s' := fun t ht => h t (hf t ht)

theorem Image.object {f : Nat → Option (File n)} {t : Table n} {fid : Nat} {o : ObjFile}
    (h : Image (Function.update f fid (some (.object o))) t) : Image f t := by
  obtain ⟨a, ha⟩ := h
  by_cases hf : tableFid a = fid
  · rw [hf, Function.update_self] at ha
    cases ha
  · rw [Function.update_of_ne hf] at ha
    exact ⟨a, ha⟩

theorem Tried.files_spare {s' : Sys n} (h : Tried s s') (hs : Spare s) : SpareFiles s' := by
  intro t ⟨a, ha⟩
  rcases h.files with hf | ⟨u, hu, hf⟩
  · rw [hf] at ha
    exact hs.files t ⟨a, ha⟩
  · rw [hf] at ha
    by_cases hfid : tableFid a = tableFid s.scratch
    · rw [hfid, Function.update_self] at ha
      cases ha
      rw [hu]
      exact hs.table
    · rw [Function.update_of_ne hfid] at ha
      exact hs.files t ⟨a, ha⟩

theorem Tried.spare {s' : Sys n} (h : Tried s s') (hs : Spare s) : Spare s' :=
  ⟨h.db ▸ hs.table, h.files_spare hs⟩

/-- However a program ends, the tables have free entries. -/
def spareEnd {α : Type} : Post PsaStatus (Sys n) α :=
  ⟨fun _ => Spare, fun _ => Spare, SpareFiles⟩

theorem save_spare (h : Spare s) :
    wp AnyEv (@psObjectTableSaveTable n (limited slots) cfg) s spareEnd :=
  save_in (fun _ ht _ => ht.spare h) (fun _ ht _ _ _ => ht.spare h) (fun _ _ ht _ _ => ht.spare h)
    fun _ ht _ => ht.files_spare h

theorem itsRemove_spare (fid : Nat) (h : Spare s) : wp AnyEv (psaItsRemove fid) s spareEnd := by
  refine wp_ext ?_ ?_ (fun _ => h) fun _ => h.files
  · intro _ s' hr
    split at hr
    · cases hr
      exact ⟨h.table, h.files.image fun _ ht => ht.remove⟩
    · cases hr
  · intro e s' hr
    split at hr
    · cases hr
    · cases hr
      exact h

theorem removeOldData_spare (fid : Nat) (h : Spare s) :
    wp AnyEv (psRemoveOldData fid) s spareEnd :=
  wp_bind (wp_mono (wp_bind (wp_get (itsRemove_spare _ h))) (fun _ _ h => itsRemove_spare fid h)
    (fun _ _ h => h) fun _ h => h)

/-- `storeObject` in the free file `fid`. -/
def storeIn [ItsSet n] (cfg : Cfg) (fid uid : Nat) (c : Int) (obj : Obj) (old : Option Nat) :
    M n Unit := do
  let tag ← psEncryptedObjectWrite fid obj
  match ← attempt (psObjectTableSetObjTblInfo cfg uid c fid tag) with
  | .error e => do
    let _ ← attempt (psaItsRemove fid)
    throw e
  | .ok _ =>
    match old with
    | none => psObjectTableDeleteOldTable
    | some old => psRemoveOldData old

theorem store_spare {num uid : Nat} {c : Int} {obj : Obj} {old : Option Nat} (h : Spare s)
    (hu : uid ≠ 0) (hnum : num = 2 ∨ getObjectEntryIdx s.table.body uid c ≠ none) :
    wp AnyEv (@storeObject n (limited slots) cfg num uid c obj old) s spareEnd := by
  cases hj : tableFreeIdx s.table.body num (List.finRange n) with
  | none =>
    refine wp_bind (wp_bind (wp_get ?_))
    simp only [hj]
    exact wp_throw h
  | some j =>
    have hfree : Spare { s with files := Function.update s.files (objectFid j.val) none } :=
      ⟨h.table, h.files.image fun _ ht => ht.remove⟩
    refine wp_bind (wp_bind (wp_get ?_))
    simp only [hj]
    have hstore : wp AnyEv (@storeIn n (limited slots) cfg (objectFid j.val) uid c obj old)
        { s with files := Function.update s.files (objectFid j.val) none } spareEnd := by
      refine wp_bind (objectWrite_in (fun iv _ _ => ?_) (fun _ _ _ _ => ⟨hfree.table, hfree.files⟩)
        (fun _ _ _ _ _ => ⟨hfree.table, hfree.files⟩) fun _ _ _ => hfree.files)
      have hset : Spare (withBody { s with
          files := Function.update (Function.update s.files (objectFid j.val) none)
            (objectFid j.val) (some (.object ⟨iv, obj⟩))
          iv := iv
          used := iv :: s.used } ((cleared s.table.body uid c).set j
            ⟨some ⟨iv, objectFid j.val, obj⟩, uid, c⟩)) :=
        ⟨hasFree_stored _ hu hj hnum, hfree.files.image fun _ ht => ht.object⟩
      refine wp_bind (wp_attempt (@setInfo_wp n AnyEv _ (limited slots) _ _ _ _ _ _
        (wp_mono (save_spare hset) (fun _ s' hs => ?_) (fun e s' hs => ?_) fun _ hs => hs)))
      · dsimp only
        cases old with
        | none => exact wp_bind (wp_get (itsRemove_spare _ hs))
        | some fid => exact removeOldData_spare fid hs
      · have hback : Spare (withBody s' (restored s.table.body s'.table.body uid c j)) :=
          ⟨hasFree_empty _ j, hs.files⟩
        exact wp_bind (wp_attempt (wp_mono (itsRemove_spare _ hback) (fun _ _ h => wp_throw h)
          (fun _ _ h => wp_throw h) fun _ h => h))
    refine wp_bind (wp_attempt (wp_ext ?_ ?_ (fun _ => wp_throw h) fun _ => h.files))
    · intro _ s' hr
      split at hr
      · cases hr
        exact wp_pure hstore
      · cases hr
    · intro e s' hr
      split at hr
      · cases hr
      · next hnone =>
        cases hr
        rw [← hnone, Function.update_eq_self] at hstore
        exact wp_pure hstore

theorem deleteObject_spare {uid : Nat} {c : Int} (h : Spare s) :
    wp AnyEv (@psObjectTableDeleteObject n (limited slots) cfg uid c) s spareEnd := by
  refine wp_bind (wp_get ?_)
  dsimp only
  cases hk : getObjectEntryIdx s.table.body uid c with
  | none => exact wp_throw h
  | some k =>
    have hset : Spare (withBody s (s.table.body.set k .empty)) := ⟨hasFree_empty _ k, h.files⟩
    refine wp_bind (wp_modify (wp_bind (wp_attempt (save_in
      (fun _ ht _ => wp_pure (Tried.spare ht hset)) (fun s' ht _ _ _ => ?_)
      (fun e s' ht _ _ => ?_) fun _ ht _ => Tried.files_spare ht hset))))
    all_goals
      have hback : Spare (withBody s' (s'.table.body.set k (s.table.body.db k))) := by
        refine ⟨?_, ht.files_spare hset⟩
        show HasFree (Function.update s'.table.body.db k (s.table.body.db k))
        rw [ht.db]
        show HasFree (Function.update (Function.update s.table.body.db k Entry.empty) k _)
        rw [Function.update_idem, Function.update_eq_self]
        exact h.table
      dsimp only
      refine wp_bind (wp_get ?_)
      dsimp only
      refine wp_bind (wp_modify ?_)
      exact wp_throw hback

/-- **An operation** leaves a free entry in every table. -/
theorem op_spare (o : Op) (h : Spare s) :
    wp AnyEv (@Op.run n (limited slots) cfg o) s spareEnd := by
  cases o with
  | create uid c flags data =>
    unfold Op.run psObjectCreate
    dsimp only
    split
    · exact wp_throw h
    split
    · exact wp_throw h
    split
    · exact wp_throw h
    next hu _ _ =>
    refine wp_bind (wp_get ?_)
    dsimp only
    split
    · next k hk =>
      refine wp_bind (objectRead_any (fun file _ => ?_) (fun _ => h) h.files)
      dsimp only
      split
      · exact wp_throw h
      · exact store_spare h hu (.inr (by simp [hk]))
    · exact store_spare h hu (.inl rfl)
  | write uid c offset data =>
    unfold Op.run psObjectWrite
    dsimp only
    split
    · exact wp_throw h
    next hu =>
    refine wp_bind (wp_get ?_)
    dsimp only
    split
    · exact wp_throw h
    · next k hk =>
      refine wp_bind (objectRead_any (fun file _ => ?_) (fun _ => h) h.files)
      dsimp only
      split
      · exact wp_throw h
      split
      · exact wp_throw h
      split
      · exact wp_throw h
      · exact store_spare h hu (.inr (by simp [hk]))
  | delete uid c =>
    unfold Op.run psObjectDelete
    dsimp only
    split
    · exact wp_throw h
    refine wp_bind (wp_get ?_)
    dsimp only
    split
    · exact wp_throw h
    · refine wp_bind (objectRead_any (fun file _ => ?_) (fun _ => h) h.files)
      dsimp only
      split
      · exact wp_throw h
      · exact wp_bind (wp_mono (deleteObject_spare h) (fun _ _ h => removeOldData_spare _ h)
          (fun _ _ h => h) fun _ h => h)

theorem zero_spare (hn : 0 < n) : HasFree (Table.zero n).body.db := ⟨⟨0, hn⟩, rfl⟩

theorem Spare.reset (hn : 0 < n) (h : SpareFiles s) : Spare s.reset := ⟨zero_spare hn, h⟩

/-- A start takes one of the tables. -/
theorem prepare_spare (h : SpareFiles s) : wp AnyEv (psSystemPrepare cfg) s
    ⟨fun _ => Spare, fun _ => SpareFiles, SpareFiles⟩ := by
  refine wp_bind (select_chosen (fun a t hch => ?_) (fun _ _ => h) fun _ => h)
  have hs : Spare { s with table := t, active := a, scratch := other a } :=
    ⟨h t ⟨a, tableAt_some.1 hch.file⟩, h⟩
  refine wp_bind (wp_get (wp_bind (wp_attempt (wp_mono (itsRemove_spare _ hs) ?_ ?_
    fun _ h => h))))
  all_goals
    have hend : ∀ s' : Sys n, Spare s' →
        wp AnyEv (initEnd (if cfg.rollback then some (s.nvc .c1) else none)) s'
        ⟨fun _ => Spare, fun _ => SpareFiles, SpareFiles⟩ := by
      intro s' hs'
      unfold initEnd
      have hiv : ∀ t, Same s' t → Spare t := fun t ht =>
        ⟨ht.db ▸ hs'.table, hs'.files.image fun _ hi => by rwa [ht.files] at hi⟩
      cases hr : cfg.rollback with
      | false =>
        simp only [Bool.false_eq_true, if_false]
        refine wp_modify ?_
        exact ⟨hs'.table, hs'.files⟩
      | true =>
        refine wp_bind (wp_mono (align_same _ AnyEv s' (.refl s')) (fun _ t ht => ?_)
          (fun _ t ht => (hiv t ht).files) fun t ht => (hiv t ht).files)
        dsimp only
        refine wp_modify ?_
        exact ⟨(hiv t ht).table, (hiv t ht).files⟩
  · exact fun _ s' hs' => hend s' hs'
  · intro e s' hs'
    dsimp only
    split
    · exact hend s' hs'
    · exact hend s' hs'
    · exact wp_bind (wp_throw hs'.files)

theorem wipe_spare (hn : 0 < n) (h : SpareFiles s) :
    wp AnyEv (@psSystemWipeAll n (limited slots) cfg) s spareEnd :=
  wp_bind (wp_modify (save_spare ⟨zero_spare hn, h⟩))

theorem tfmPsInit_spare (hn : 0 < n) (h : SpareFiles s) :
    wp AnyEv (@tfmPsInit n (limited slots) cfg) s
      ⟨fun _ => Spare, fun _ => SpareFiles, SpareFiles⟩ := by
  refine @tfmPsInit_wp _ _ _ (limited slots) _ _ (wp_mono (prepare_spare h) (fun _ _ hok => hok)
    (fun e s' hs' => ?_) fun _ hc => hc)
  unfold createFlashLayout
  split
  · exact wp_bind (wp_mono (wipe_spare hn hs') (fun _ _ hw => prepare_spare hw.files)
      (fun _ _ he => he.files) fun _ hc => hc)
  · exact wp_throw hs'

/-- The device is down, or the table in RAM has a free entry too. -/
def SpareDev (d : Dev n) : Prop := SpareFiles d.sys ∧ (d.up = true → Spare d.sys)

theorem spareDev_step (hn : 0 < n) {d d' : Dev n} {l : Lbl} (h : SpareDev d)
    (hs : @step n (limited slots) cfg d l = some d') : SpareDev d' := by
  have hdown : ∀ {s : Sys n} {b a : View}, SpareFiles s → SpareDev ⟨s.reset, false, b, a⟩ :=
    fun hf => ⟨(Spare.reset hn hf).files, nofun⟩
  have hup : ∀ {s : Sys n}, Spare s → SpareDev (.settled s) := fun hs => ⟨hs.files, fun _ => hs⟩
  unfold step at hs
  cases l with
  | op o p =>
    dsimp only at hs
    split at hs
    · next hon =>
      have hp := (op_spare o (h.2 hon) : wp _ (@Op.run n (limited slots) cfg o) _ _) p
        fun _ _ => trivial
      cases hr : @Op.run n (limited slots) cfg o d.sys p with
      | ok _ s q =>
        rw [hr] at hp hs
        cases hs
        exact hup hp.1
      | err _ s q =>
        rw [hr] at hp hs
        cases hs
        exact hup hp.1
      | cut s =>
        rw [hr] at hp hs
        cases hs
        exact hdown hp
    · cases hs
  | boot p =>
    dsimp only at hs
    split at hs
    · cases hs
    · have hp := (tfmPsInit_spare hn h.1 : wp _ (@tfmPsInit n (limited slots) cfg) _ _) p
        fun _ _ => trivial
      cases hr : @tfmPsInit n (limited slots) cfg d.sys p with
      | ok _ s q =>
        rw [hr] at hp hs
        cases hs
        exact hup hp.1
      | err _ s q =>
        rw [hr] at hp hs
        cases hs
        exact hdown hp.1
      | cut s =>
        rw [hr] at hp hs
        cases hs
        exact hdown hp
  | off =>
    dsimp only at hs
    split at hs
    · cases hs
      exact hdown h.1
    · cases hs

theorem spareDev_inductive (hn : 0 < n) : (@lts cfg n (limited slots)).Inductive SpareDev where
  init := by
    intro _ hx
    subst hx
    have hblank : SpareFiles (blank n) := fun t ⟨a, ha⟩ => nomatch ha
    have hw : wp AnyEv (@psSystemWipeAll n (limited slots) cfg) (blank n) spareEnd :=
      wipe_spare hn hblank
    have hw := hw [] fun _ _ => trivial
    refine ⟨?_, nofun⟩
    show SpareFiles (@psSystemWipeAll n (limited slots) cfg (blank n) []).state
    revert hw
    cases @psSystemWipeAll n (limited slots) cfg (blank n) [] with
    | ok _ s q => exact fun hw => hw.1.files
    | err _ s q => exact fun hw => hw.1.files
    | cut s => exact fun hw => hw
  step := fun _ _ _ h hs => spareDev_step hn h hs

end Spare

/-- **Updates at capacity**: in every state that the partition can reach on a filesystem
for `numAssets` assets, whatever calls failed or were cut, there is a table entry `j` for
the new object of an update; the update is never refused for want of a file entry if and
only if the filesystem has the entries for the new object and for the new table. -/
theorem update_finds_entries (cfg : Cfg) (numAssets n : Nat) (d : Dev n)
    (h : (@lts cfg n (limited (psMaxNumObjects numAssets))).Reachable d) (hup : d.up = true)
    (o : Op) (ho : o.Overwrites cfg d.sys) :
    ∃ j, tableFreeIdx d.sys.table.body 1 (List.finRange n) = some j ∧
      ((∀ p e s' q, @Op.run n (limited (psMaxNumObjects numAssets)) cfg o d.sys p = .err e s' q →
        e ≠ .insufficientStorage) ↔ ¬ Crowded cfg (psMaxNumObjects numAssets) d.sys j) := by
  have hn : 0 < n := by
    cases o with
    | create uid c flags data =>
      obtain ⟨_, _, _, o, hv, _⟩ := ho
      obtain ⟨k, _⟩ := view_some hv
      exact k.pos
    | write uid c offset data =>
      obtain ⟨_, o, hv, _⟩ := ho
      obtain ⟨k, _⟩ := view_some hv
      exact k.pos
    | delete uid c => exact ho.elim
  obtain ⟨j, hj⟩ := (((spareDev_inductive hn).reachable d h).2 hup).table.idx
  exact ⟨j, hj, update_entries ho hj⟩

/-- One object where there is room for two. -/
theorem update_finds_entries_small :
    ∃ d : Dev 4, (@lts ⟨16, true, true⟩ 4 (limited (psMaxNumObjects 2))).Reachable d ∧ d.up = true ∧
      ∀ p e s' q, @Op.run 4 (limited (psMaxNumObjects 2)) ⟨16, true, true⟩ (.create 5 1 0 [3])
        d.sys p = .err e s' q → e ≠ .insufficientStorage := by
  have he : (LTS.exec (@step 4 (limited (psMaxNumObjects 2)) ⟨16, true, true⟩)
      (@init ⟨16, true, true⟩ 4 (limited (psMaxNumObjects 2)))
      [.boot [], .op (.create 5 1 0 [1, 2]) []]).map (fun d => (d.up, d.sys.view 5 1,
        (tableFreeIdx d.sys.table.body 1 (List.finRange 4)).map fun j => others d.sys j)) =
        some (true, some ⟨2, 0, [1, 2]⟩, some 2) := by decide +kernel
  obtain ⟨d, hd, hv⟩ := Option.map_eq_some_iff.1 he
  simp only [Prod.mk.injEq] at hv
  obtain ⟨hup, hview, hcount⟩ := hv
  have hreach : (@lts ⟨16, true, true⟩ 4 (limited (psMaxNumObjects 2))).Reachable d :=
    LTS.reachable_exec _ (.init rfl) hd
  obtain ⟨j, hj, hiff⟩ := update_finds_entries ⟨16, true, true⟩ 2 4 d hreach hup (.create 5 1 0 [3])
    ⟨by decide, by decide, by decide, _, hview, by decide⟩
  rw [hj, Option.map_some, Option.some.injEq] at hcount
  refine ⟨d, hreach, hup, hiff.2 fun hc => ?_⟩
  unfold Crowded psMaxNumObjects at hc
  omega

/-- One object, in a filesystem for one: there is no entry for the new table. -/
theorem update_refused_at_capacity :
    ¬ ∀ (cfg : Cfg) (numAssets n : Nat) (d : Dev n),
      (@lts cfg n (limited (psMaxNumObjects numAssets))).Reachable d → d.up = true →
      ∀ o, Op.Overwrites cfg d.sys o → ∀ p e s' q,
        @Op.run n (limited (psMaxNumObjects numAssets)) cfg o d.sys p = .err e s' q →
          e ≠ .insufficientStorage := by
  intro h
  have he : (LTS.exec (@step 4 (limited (psMaxNumObjects 1)) ⟨16, true, true⟩)
      (@init ⟨16, true, true⟩ 4 (limited (psMaxNumObjects 1)))
      [.boot [], .op (.create 5 1 0 [1, 2]) []]).map (fun d => (d.up, d.sys.view 5 1,
        (@Op.run 4 (limited (psMaxNumObjects 1)) ⟨16, true, true⟩ (.create 5 1 0 [3]) d.sys
          []).failure)) =
        some (true, some ⟨2, 0, [1, 2]⟩, some .insufficientStorage) := by decide +kernel
  obtain ⟨d, hd, hv⟩ := Option.map_eq_some_iff.1 he
  simp only [Prod.mk.injEq] at hv
  obtain ⟨hup, hview, hrun⟩ := hv
  have hreach : (@lts ⟨16, true, true⟩ 4 (limited (psMaxNumObjects 1))).Reachable d :=
    LTS.reachable_exec _ (.init rfl) hd
  obtain ⟨s', q, hr⟩ := Res.of_failure hrun
  exact h ⟨16, true, true⟩ 1 4 d hreach hup (.create 5 1 0 [3])
    ⟨by decide, by decide, by decide, _, hview, by decide⟩ [] _ s' q hr rfl

end Tfm.L4.Ps
