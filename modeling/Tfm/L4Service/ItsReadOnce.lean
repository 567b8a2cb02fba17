import Tfm.L4Service.ItsOnce
import Tfm.L4Service.ItsReadFault

/-!
# Write-once assets where reads fail

A `tfm_its_set` or a `tfm_its_get_info` of which any reads of the flash fail. The calls of
the filesystem in it are listed with where each starts and what it reports: a file is
found if the reads up to its entry succeed.

A set that misses a file goes on, and overwrites it.

Results: `Setup.honest_iff_finds`, what the filesystem says of a file is right exactly
where the file is found; `Setup.faulty_step`, the call leaves the flash as a complete one
or a power cut does then; `write_once_reads`, and a write-once asset is kept.
-/
namespace Tfm.L4.Its
open Tfm.BlockDev Tfm.Bytes

/-! ## The calls of the filesystem in a call of the service -/

/-- The functions of the filesystem that look for a file. -/
inductive FsFn
  | getInfo
  | write
  deriving DecidableEq, Repr

/-- A call of the filesystem: where it starts, and what it reports. -/
structure FsCall where
  fn : FsFn
  start : Sys (Flash × Nat)
  status : Except PsaStatus Unit

section FsCalls

variable (c : Cfg) (buf : Nat) (F : Nat → Bool)

/-- The writes of the loop of `tfm_its_set`. -/
def setLoopCalls (fid : Nat) (data : Nat → UInt8) :
    Nat → UInt32 → Nat → Nat → Sys (Flash × Nat) → List FsCall
  | 0, _, _, _, _ => []
  | fuel + 1, flags, dataLength, offset, y =>
    let writeSize := min dataLength buf
    let r := runOn (faultyOps c.toConfig F)
      (fileWrite c fid flags.toNat dataLength writeSize offset fun k => data (offset + k)) y
    ⟨.write, y, r.1⟩ :: match r.1 with
      | .ok () =>
        if 0 < dataLength - writeSize then
          setLoopCalls fid data fuel (flags &&& ~~~createFlags) (dataLength - writeSize)
            (offset + writeSize) r.2
        else []
      | .error _ => []

def infoCall (fid : Nat) (y : Sys (Flash × Nat)) : FsCall :=
  ⟨.getInfo, y, (runOn (faultyOps c.toConfig F) (fileGetInfo c fid) y).1.map fun _ => ()⟩

/-- The calls of `tfm_its_set` and `tfm_its_get_info`. -/
def fsCalls (q : Call) (y : Sys (Flash × Nat)) : List FsCall :=
  match q with
  | .set client uid n flags data =>
    if uid = 0 ∨ flags &&& ~~~supportedFlags ≠ 0 then []
    else
      let fid := getFid client uid
      let r := runOn (faultyOps c.toConfig F) (setCheck c fid) y
      infoCall c F fid y :: match r.1 with
        | .ok () => setLoopCalls c buf F fid data (n + 1) (flags ||| createFlags) n 0 r.2
        | .error _ => []
  | .getInfo client uid => if uid = 0 then [] else [infoCall c F (getFid client uid) y]
  | .get .. | .remove .. => []

theorem setLoopCalls_last (fid : Nat) (data : Nat → UInt8) (fuel : Nat) :
    ∀ flags n offset y,
      ((setLoopCalls c buf F fid data fuel flags n offset y).getLast?.map FsCall.status).getD
        (.ok ()) =
      (runOn (faultyOps c.toConfig F) (setLoop c buf fid data fuel flags n offset) y).1 := by
  induction fuel with
  | zero => exact fun _ _ _ _ => rfl
  | succ fuel ih =>
    intro flags n offset y
    unfold setLoopCalls setLoop
    dsimp only
    rw [runOn_bind]
    cases hr : (runOn (faultyOps c.toConfig F) (fileWrite c fid flags.toNat n (min n buf) offset
        fun k => data (offset + k)) y).1 with
    | error e => rfl
    | ok u =>
      dsimp only
      split
      · rw [← ih, List.getLast?_cons]
        cases (setLoopCalls c buf F fid data fuel (flags &&& ~~~createFlags) (n - min n buf)
          (offset + min n buf) (runOn (faultyOps c.toConfig F) (fileWrite c fid flags.toNat n
            (min n buf) offset fun k => data (offset + k)) y).2).getLast? with
        | none => rfl
        | some k => rfl
      · rfl

/-- It says that the file is not there only if no entry is the file's. -/
def FsCall.Honest (fid : Nat) (k : FsCall) : Prop :=
  k.status = .error .doesNotExist →
    ∀ i, i < c.maxNumFiles → ((tableOf c (uncount k.start)).fm i).id ≠ fid

/-- The file with entry `i` is found, from read number `n` on: the entries up to it can
be read; in a write the entry can be read again, or the search failed already. -/
def FsFn.Found (n i : Nat) : FsFn → Prop
  | .getInfo => ¬ Fails F n i
  | .write => F (n + i + 1) = true → Fails F n i

instance (n i : Nat) : (fn : FsFn) → Decidable (fn.Found F n i)
  | .getInfo => inferInstanceAs (Decidable (¬ _))
  | .write => inferInstanceAs (Decidable (_ → _))

/-- If the file is there, it is found. -/
def FsCall.Finds (fid : Nat) (k : FsCall) : Prop :=
  ∀ i ∈ (tableOf c (uncount k.start)).find c fid, k.fn.Found F k.start.2.2 i

instance (fid : Nat) (k : FsCall) : Decidable (k.Finds c F fid) :=
  inferInstanceAs (Decidable (∀ _ ∈ _, _))

end FsCalls

section Honest

variable {c : Cfg} {buf : Nat} {F : Nat → Bool} {y : Sys (Flash × Nat)} {t : Tab} {f : Fid}

/-- For a call whose status says when a file that there is is not found. -/
theorem honest_iff_finds {fid : Nat} {k : FsCall} (h : Mounted c (uncount k.start) t)
    (hs : ∀ i, t.find c fid = some i →
      (k.status = .error .doesNotExist ↔ ¬ k.fn.Found F k.start.2.2 i)) :
    k.Honest c fid ↔ k.Finds c F fid := by
  unfold FsCall.Honest FsCall.Finds
  have hfind := h.table.find fid
  cases hk : (tableOf c (uncount k.start)).find c fid with
  | none => exact ⟨fun _ _ hi => (nomatch hi), fun _ _ i hi => Tab.find_none hk hi⟩
  | some i =>
    obtain ⟨hlt, hid⟩ := Tab.find_some hk
    have hs := hs i (hfind ▸ hk)
    constructor
    · intro hh j hj
      cases hj
      by_contra hno
      exact hh (hs.2 hno) i hlt hid
    · intro hf hdne
      exact absurd (hf i rfl) (hs.1 hdne)

theorem infoCall_honest (h : Mounted c (uncount y) t) (fid : Nat) :
    (infoCall c F fid y).Honest c fid ↔ (infoCall c F fid y).Finds c F fid := by
  refine honest_iff_finds (k := infoCall c F fid y) h fun i hi => ?_
  obtain ⟨m, hm⟩ := h.faulty_fileGetInfo (F := F) hi
  unfold infoCall
  dsimp only
  rw [hm]
  by_cases hfail : Fails F y.2.2 i
  · simp [hfail, FsFn.Found, Except.map]
  · by_cases hF : F (y.2.2 + i + 1) = true
    · simp [hfail, hF, FsFn.Found, Except.map]
    · simp [hfail, hF, FsFn.Found, Except.map]

theorem setLoop_honest (hb : Buffer c.toConfig buf) (data : Nat → UInt8) (fuel : Nat) :
    ∀ {fl : UInt32} {n off : Nat} {y : Sys (Flash × Nat)} {t : Tab}, Mounted c (uncount y) t →
      fl.toNat &&& internalFlagsMask = 0 →
      ∀ k ∈ setLoopCalls c buf F f.id data fuel fl n off y, k.Honest c f.id ↔ k.Finds c F f.id := by
  induction fuel with
  | zero => exact fun _ _ _ hk => nomatch hk
  | succ fuel ih =>
    intro fl n off y t h hfl k hk
    have hwrite := fun i hi =>
      h.faulty_fileWrite (F := F) (chunk c hb f data fl n off) (k := i) hfl hi
    have hwp := fsWp_fileWrite (a := chunk c hb f data fl n off) (t := t) (C := fun _ => True)
      (Q := fun _ _ => True) trivial (fun _ _ => ⟨trivial, trivial⟩) fun _ _ => trivial
    have hok := fun a => h.faulty_ok (F := F) (a := a)
      (strict_fileWrite c f.id fl.toNat n (min n buf) off fun k => data (off + k)) hwp
    unfold setLoopCalls at hk
    dsimp only at hk
    rcases List.mem_cons.1 hk with rfl | hk
    · refine honest_iff_finds (k := ⟨.write, y, _⟩) h fun i hi => ?_
      refine (hwrite i hi).trans ?_
      simp only [FsFn.Found]
      rw [Classical.not_imp, and_comm]
    · revert hk
      cases hr : (runOn (faultyOps c.toConfig F) (fileWrite c f.id fl.toNat n (min n buf) off
          fun k => data (off + k)) y).1 with
      | error e => exact fun hk => nomatch hk
      | ok u =>
        intro hk
        dsimp only at hk
        split at hk
        · obtain ⟨t', ht', -⟩ := hok u hr
          refine ih ht' ?_ k hk
          rw [UInt32.toNat_and, Nat.and_assoc, Nat.and_comm _ internalFlagsMask, ← Nat.and_assoc,
            hfl, Nat.zero_and]
        · cases hk

end Honest

/-! ## What the service does of it -/

section Check

variable {c : Cfg} {buf : Nat} {F : Nat → Bool} {y : Sys (Flash × Nat)} {t : Tab} {α : Type}

/-- `its_flash_fs_file_get_info` on a mounted filesystem; it reads only. -/
theorem Mounted.run_fileGetInfo {y : Sys Flash} (h : Mounted c y t) (fid : Nat) :
    runOn (memOps c.toConfig) (fileGetInfo c fid) y =
      (match t.find c fid with
        | some k => .ok ⟨(t.fm k).curSize, (t.fm k).maxSize, (t.fm k).flags &&& userFlagsMask⟩
        | none => .error .doesNotExist, y) := by
  -- no read fails
  have hnever : ∀ n k, ¬ Fails (fun _ => false) n k := fun n k hf => nomatch hf.choose_spec.2
  obtain ⟨n, hn⟩ := Io.run_faulty (D := memOps c.toConfig) (F := fun _ => false)
    (e := .storageFailure) (fun _ => rfl) (fileGetInfo c fid y.1) y.2 0
  have hrun : ∀ r m, runOn (faultyOps c.toConfig fun _ => false) (fileGetInfo c fid)
      (y.1, (y.2, 0)) = (r, (y.1, (y.2, m))) →
      runOn (memOps c.toConfig) (fileGetInfo c fid) y = (r, y) := by
    intro r m hr
    unfold runOn faultyOps at hr
    dsimp only at hr
    rw [hn] at hr
    simp only [Prod.mk.injEq] at hr
    unfold runOn
    dsimp only
    rw [hr.1, hr.2.1, hr.2.2.1]
  cases hk : t.find c fid with
  | some k =>
    obtain ⟨m, hm⟩ := Mounted.faulty_fileGetInfo (F := fun _ => false) (y := (y.1, (y.2, 0))) h hk
    rw [if_neg (hnever _ _), if_neg Bool.false_ne_true] at hm
    exact hrun _ m hm
  | none =>
    obtain ⟨m, hm⟩ := Mounted.faulty_fileGetInfo_absent (F := fun _ => false)
      (y := (y.1, (y.2, 0))) h hk
    exact hrun _ m hm

theorem Mounted.setCheck_reads (h : Mounted c (uncount y) t) (fid : Nat) :
    ∃ r m, runOn (faultyOps c.toConfig F) (setCheck c fid) y = (r, (y.1, (y.2.1, m))) := by
  have hinfo : ∃ r m, runOn (faultyOps c.toConfig F) (fileGetInfo c fid) y =
      (r, (y.1, (y.2.1, m))) := by
    cases hk : t.find c fid with
    | none =>
      obtain ⟨m, hm⟩ := h.faulty_fileGetInfo_absent (F := F) hk
      exact ⟨_, m, hm⟩
    | some k =>
      obtain ⟨m, hm⟩ := h.faulty_fileGetInfo (F := F) hk
      exact ⟨_, m, hm⟩
  obtain ⟨r, m, hm⟩ := hinfo
  unfold setCheck
  rw [runOn_bind, runOn_attempt, hm]
  dsimp only
  split
  · split <;> exact ⟨_, m, rfl⟩
  · exact ⟨_, m, rfl⟩
  · exact ⟨_, m, rfl⟩

/-- The check of `tfm_its_set`, where a file that there is is found: it refuses, or it
does as if no read had failed. -/
theorem Mounted.faulty_setCheck (h : Mounted c (uncount y) t) {fid : Nat}
    (hfind : ∀ k, t.find c fid = some k → ¬ Fails F y.2.2 k) :
    ∃ r m, runOn (faultyOps c.toConfig F) (setCheck c fid) y = (r, (y.1, (y.2.1, m))) ∧
      ((∃ e, r = .error e) ∨ r = .ok () ∧
        runOn (memOps c.toConfig) (setCheck c fid) (uncount y) = (.ok (), uncount y) ∧
        ∀ i, t.info c fid = .ok (.info i) → i.flags &&& storageFlagWriteOnce.toNat = 0) := by
  have hmem := h.run_fileGetInfo fid
  unfold Tab.info
  unfold setCheck
  rw [runOn_bind, runOn_attempt, runOn_bind, runOn_attempt, hmem]
  cases hk : t.find c fid with
  | none =>
    obtain ⟨m, hm⟩ := h.faulty_fileGetInfo_absent (F := F) hk
    rw [hm]
    exact ⟨.ok (), m, rfl, .inr ⟨rfl, rfl, fun i hi => nomatch hi⟩⟩
  | some k =>
    obtain ⟨m, hm⟩ := h.faulty_fileGetInfo (F := F) hk
    rw [hm, if_neg (hfind k hk)]
    by_cases hF : F (y.2.2 + k + 1) = true
    · rw [if_pos hF]
      exact ⟨_, m, rfl, .inl ⟨_, rfl⟩⟩
    · rw [if_neg hF]
      dsimp only
      by_cases hw : (t.fm k).flags &&& userFlagsMask &&& storageFlagWriteOnce.toNat = 0
      · simp only [hw, ne_eq, not_true_eq_false, if_false]
        refine ⟨.ok (), m, rfl, .inr ⟨rfl, rfl, fun i hi => ?_⟩⟩
        cases hi
        exact hw
      · simp only [hw, ne_eq, not_false_eq_true, if_true]
        exact ⟨_, m, rfl, .inl ⟨_, rfl⟩⟩

theorem Mounted.faulty_set (h : Mounted c (uncount y) t) (buf : Nat) (client : UInt32)
    (uid : UInt64) (n : Nat) (flags : UInt32) (data : Nat → UInt8)
    (hfind : uid ≠ 0 → flags &&& ~~~supportedFlags = 0 →
      ∀ k, t.find c (getFid client uid) = some k → ¬ Fails F y.2.2 k) :
    (uncount (runOn (faultyOps c.toConfig F) (tfmItsSet c buf client uid n flags data) y).2 =
      (runOn (memOps c.toConfig) (tfmItsSet c buf client uid n flags data) (uncount y)).2) ∨
    CutOf c (tfmItsSet c buf client uid n flags data) (uncount y)
      (runOn (faultyOps c.toConfig F) (tfmItsSet c buf client uid n flags data) y).2.2.1 := by
  unfold tfmItsSet
  by_cases hu : uid = 0
  · simp only [if_pos hu]
    exact .inl rfl
  simp only [if_neg hu]
  by_cases hfl : flags &&& ~~~supportedFlags = 0
  · simp only [hfl, ne_eq, not_true_eq_false, if_false]
    obtain ⟨r, m, hrun, hr⟩ := h.faulty_setCheck (F := F) (hfind hu hfl)
    rw [runOn_bind, hrun]
    rcases hr with ⟨e, rfl⟩ | ⟨rfl, hmem, -⟩
    · exact .inr (.stop _ _)
    · dsimp only
      rcases runOn_strict (c := c) (F := F) (strict_setLoop c buf (getFid client uid) data (n + 1)
        (flags ||| createFlags) n 0) (y.1, (y.2.1, m)) with ⟨-, h2⟩ | ⟨e, -, -, hcut⟩
      · left
        rw [runOn_bind, hmem]
        exact h2
      · exact .inr (CutOf.append hmem hcut)
  · simp only [hfl, ne_eq, not_false_eq_true, if_true]
    exact .inl rfl

theorem Mounted.faulty_set_own (h : Mounted c (uncount y) t) {client : UInt32} {uid : UInt64}
    (buf n : Nat) (flags : UInt32) (data : Nat → UInt8) (hu : uid ≠ 0)
    (hfind : flags &&& ~~~supportedFlags = 0 →
      ∀ k, t.find c (getFid client uid) = some k → ¬ Fails F y.2.2 k)
    {i : FileInfo} (hi : t.info c (getFid client uid) = .ok (.info i))
    (hw : i.flags &&& storageFlagWriteOnce.toNat ≠ 0) :
    uncount (runOn (faultyOps c.toConfig F) (tfmItsSet c buf client uid n flags data) y).2 =
      uncount y := by
  unfold tfmItsSet
  simp only [if_neg hu]
  by_cases hfl : flags &&& ~~~supportedFlags = 0
  · simp only [hfl, ne_eq, not_true_eq_false, if_false]
    obtain ⟨r, m, hrun, hr⟩ := h.faulty_setCheck (F := F) (hfind hfl)
    rw [runOn_bind, hrun]
    rcases hr with ⟨e, rfl⟩ | ⟨rfl, -, hno⟩
    · rfl
    · exact absurd (hno i hi) hw
  · simp only [hfl, ne_eq, not_false_eq_true, if_true]
    rfl

end Check

section Service

variable {P : Setup} {F : Nat → Bool} {z : Stores} {q : Call} {t : Tab}

/-- The filesystem of a call, before its first read. -/
def Setup.counted (P : Setup) (q : Call) (z : Stores) : Sys (Flash × Nat) :=
  ((z (P.fsOf q)).1, ((z (P.fsOf q)).2, 0))

/-- A call of which the reads fail that `F` says. -/
def Setup.serveFaulty (P : Setup) (F : Nat → Bool) (q : Call) (z : Stores) :
    Except PsaStatus Result × Stores :=
  let r := runOn (faultyOps (P.cfg (P.fsOf q)).toConfig F) (P.prog q) (P.counted q z)
  (r.1, Function.update z (P.fsOf q) (uncount r.2))

/-- The calls of the filesystem in it. -/
def Setup.fsCalls (P : Setup) (F : Nat → Bool) (q : Call) (z : Stores) : List FsCall :=
  Its.fsCalls (P.cfg (P.fsOf q)) P.buf F q (P.counted q z)

def Call.SetsOrInforms : Call → Prop
  | .set .. | .getInfo .. => True
  | .get .. | .remove .. => False

/-- Every call of the filesystem says that the file is not there only if it is not. -/
def Setup.Honest (P : Setup) (F : Nat → Bool) (q : Call) (z : Stores) : Prop :=
  ∀ k ∈ P.fsCalls F q z, k.Honest (P.cfg (P.fsOf q)) (getFid q.client q.uid)

/-- Every call of the filesystem finds the file that is there. -/
def Setup.Finds (P : Setup) (F : Nat → Bool) (q : Call) (z : Stores) : Prop :=
  ∀ k ∈ P.fsCalls F q z, k.Finds (P.cfg (P.fsOf q)) F (getFid q.client q.uid)

/-- The asset is stored with `PSA_STORAGE_FLAG_WRITE_ONCE`. -/
def Setup.StoredOnce (P : Setup) (z : Stores) (client : UInt32) (uid : UInt64) (i : StorageInfo) :
    Prop :=
  (P.serve (.getInfo client uid) z).1 = .ok (.info i) ∧ i.flags &&& storageFlagWriteOnce.toNat ≠ 0

/-- The partition after the call and the next start. -/
def Setup.restarted (P : Setup) (F : Nat → Bool) (q : Call) (z : Stores) (x : Fs → Ctx) :
    Except PsaStatus Unit × Stores :=
  P.tfmItsInit fun s => (x s, (P.serveFaulty F q z).2.flash s)

/-- The call overwrites and deletes no write-once asset. -/
structure Setup.KeepsOnce (P : Setup) (F : Nat → Bool) (q : Call) (z : Stores) : Prop where
  /-- the asset that is set: nothing at all changes -/
  own : ∀ i, P.StoredOnce z q.client q.uid i → (P.serveFaulty F q z).2 = z
  /-- any asset: it is there after the next start, with its size and flags -/
  info : ∀ client uid i, P.StoredOnce z client uid i → ∀ x,
    (P.restarted F q z x).1 = .ok () ∧ P.StoredOnce (P.restarted F q z x).2 client uid i
  /-- and its data, where a file that is replaced is no empty one with others behind it -/
  data : q.Safe (P.cfg (P.fsOf q)) (P.buf_room _) (tableOf (P.cfg (P.fsOf q)) (z (P.fsOf q))) →
    ∀ client uid i, P.StoredOnce z client uid i → ∀ x offset size,
      (P.serve (.get client uid offset size) (P.restarted F q z x).2).1 =
        (P.serve (.get client uid offset size) z).1

theorem Setup.serve_getInfo {client : UInt32}
    (ht : Mounted (P.cfg (P.getFsCtx client)) (z (P.getFsCtx client)) t) (uid : UInt64) :
    (P.serve (.getInfo client uid) z).1 =
      (t.getInfo (P.cfg (P.getFsCtx client)) client uid).map .info := by
  obtain ⟨_, _, hr⟩ := P.serve_wp (q := .getInfo client uid) (Q := fun r _ => r =
    (t.getInfo (P.cfg (P.getFsCtx client)) client uid).map .info)
    (C := fun _ => True) ht (fsWp_map (fsWp_tfmItsGetInfo trivial ⟨rfl, trivial⟩))
  exact hr

theorem Setup.storedOnce_iff {client : UInt32} {uid : UInt64} {i : StorageInfo}
    (ht : Mounted (P.cfg (P.getFsCtx client)) (z (P.getFsCtx client)) t) :
    P.StoredOnce z client uid i ↔ uid ≠ 0 ∧ ∃ j : FileInfo,
      t.info (P.cfg (P.getFsCtx client)) (getFid client uid) = .ok (.info j) ∧
      i = ⟨j.sizeCurrent, j.sizeCurrent, j.flags⟩ ∧ j.flags &&& storageFlagWriteOnce.toNat ≠ 0 := by
  unfold Setup.StoredOnce
  rw [P.serve_getInfo ht uid]
  unfold Tab.getInfo
  by_cases hu : uid = 0
  · simp [hu, Except.map]
  rw [if_neg hu]
  rcases t.info_cases (P.cfg (P.getFsCtx client)) (getFid client uid) with hno | ⟨j, hj⟩
  · simp [hno, Except.map]
  · simp only [hj, Except.map, Except.ok.injEq, Result.info.injEq, Answer.info.injEq, hu, ne_eq,
      not_false_eq_true, true_and, exists_eq_left']
    constructor
    · intro h
      exact ⟨h.1.symm, by rw [← h.1] at h; exact h.2⟩
    · intro h
      exact ⟨h.1.symm, by rw [h.1]; exact h.2⟩

theorem Holds.off {I : Fs → Tab → Prop} (h : Holds P I (.on z)) : Holds P I (.off z.flash) := by
  intro s hs
  obtain ⟨t, ht, hI⟩ := h s hs
  exact ht.restores hI

/-- **The filesystem is right about a file exactly where it finds it.** -/
theorem Setup.honest_iff_finds (F : Nat → Bool)
    (ht : Mounted (P.cfg (P.fsOf q)) (z (P.fsOf q)) t) : P.Honest F q z ↔ P.Finds F q z := by
  have hall : ∀ k ∈ P.fsCalls F q z, k.Honest (P.cfg (P.fsOf q)) (getFid q.client q.uid) ↔
      k.Finds (P.cfg (P.fsOf q)) F (getFid q.client q.uid) := by
    intro k hk
    have hy : Mounted (P.cfg (P.fsOf q)) (uncount (P.counted q z)) t := ht
    unfold Setup.fsCalls Its.fsCalls at hk
    cases q with
    | get => cases hk
    | remove => cases hk
    | getInfo client uid =>
      dsimp only at hk
      split at hk
      · cases hk
      · cases List.mem_singleton.1 hk
        exact infoCall_honest hy _
    | set client uid n flags data =>
      dsimp only at hk
      split at hk
      · cases hk
      · next hno =>
        obtain ⟨hu, hfl⟩ := not_or.1 hno
        rcases List.mem_cons.1 hk with rfl | hk
        · exact infoCall_honest hy _
        · obtain ⟨r, m, hrun⟩ := hy.setCheck_reads (F := F) (getFid client uid)
          rw [show runOn (faultyOps (P.cfg (P.fsOf (.set client uid n flags data))).toConfig F) _
            (P.counted (.set client uid n flags data) z) = _ from hrun] at hk
          cases r with
          | error e => cases hk
          | ok u =>
            exact setLoop_honest (f := assetFid client uid hu) (P.buf_room _) data (n + 1)
              (y := ((P.counted _ z).1, ((P.counted _ z).2.1, m))) hy
              (first_internal (not_not.1 hfl)) k hk
  exact forall₂_congr hall

theorem flash_update (z : Stores) (s : Fs) (y : Sys Flash) :
    Stores.flash (Function.update z s y) = Function.update z.flash s y.2 := by
  funext s'
  by_cases hs : s' = s
  · subst hs
    simp [Stores.flash]
  · simp [Stores.flash, Function.update_of_ne hs]

theorem runOn_pure_snd {δ α β : Type} (D : Dev PsaStatus δ) (m : M α) (g : α → β) (y : Sys δ) :
    (runOn D (m >>= fun a => pure (g a)) y).2 = (runOn D m y).2 := by
  rw [runOn_bind]
  split
  · rfl
  · rfl

theorem Setup.prog_set_snd {δ : Type} (D : Dev PsaStatus δ) (client : UInt32) (uid : UInt64)
    (n : Nat) (flags : UInt32) (data : Nat → UInt8) (y : Sys δ) :
    (runOn D (P.prog (.set client uid n flags data)) y).2 =
      (runOn D (tfmItsSet (P.cfg (P.fsOf (.set client uid n flags data))) P.buf client uid n flags
        data) y).2 := runOn_pure_snd D _ (fun _ => Result.done) y

theorem Mounted.getInfo_reads {c : Cfg} {y : Sys (Flash × Nat)}
    (h : Mounted c (uncount y) t) (buf : Nat) (client : UInt32) (uid : UInt64) :
    uncount (runOn (faultyOps c.toConfig F) (Call.prog c buf (.getInfo client uid)) y).2 =
      uncount y := by
  have hinfo : uncount (runOn (faultyOps c.toConfig F) (fileGetInfo c (getFid client uid)) y).2 =
      uncount y := by
    cases hk : t.find c (getFid client uid) with
    | none =>
      obtain ⟨m, hm⟩ := h.faulty_fileGetInfo_absent (F := F) hk
      rw [hm]
    | some k =>
      obtain ⟨m, hm⟩ := h.faulty_fileGetInfo (F := F) hk
      rw [hm]
  unfold Call.prog
  rw [runOn_pure_snd]
  unfold tfmItsGetInfo
  by_cases hu : uid = 0
  · simp only [if_pos hu]
    rfl
  · simp only [if_neg hu]
    rw [runOn_pure_snd]
    exact hinfo

theorem Setup.finds_set {client : UInt32} {uid : UInt64} {n k : Nat} {flags : UInt32}
    {data : Nat → UInt8} (hf : P.Finds F (.set client uid n flags data) z)
    (ht : Mounted (P.cfg (P.fsOf (.set client uid n flags data)))
      (z (P.fsOf (.set client uid n flags data))) t) (hu : uid ≠ 0)
    (hfl : flags &&& ~~~supportedFlags = 0)
    (hk : t.find (P.cfg (P.fsOf (.set client uid n flags data))) (getFid client uid) = some k) :
    ¬ Fails F (P.counted (.set client uid n flags data) z).2.2 k := by
  refine hf (infoCall (P.cfg (P.fsOf (.set client uid n flags data))) F (getFid client uid)
    (P.counted (.set client uid n flags data) z)) ?_ k ((ht.table.find _).trans hk)
  unfold Setup.fsCalls Its.fsCalls
  dsimp only
  rw [if_neg (not_or.2 ⟨hu, not_not.2 hfl⟩)]
  exact List.mem_cons_self

/-- **A call whose reads fail leaves the flash as a complete call or a power cut does**, where
it finds the file. -/
theorem Setup.faulty_step (ht : Mounted (P.cfg (P.fsOf q)) (z (P.fsOf q)) t)
    (hq : q.SetsOrInforms) (hf : P.Finds F q z) :
    (P.serveFaulty F q z).2.flash = (P.serve q z).2.flash ∨
      P.CutFs (P.fsOf q) (P.prog q) z (P.serveFaulty F q z).2.flash := by
  have hy : Mounted (P.cfg (P.fsOf q)) (uncount (P.counted q z)) t := ht
  have hflash : (P.serveFaulty F q z).2.flash = Function.update z.flash (P.fsOf q)
      (runOn (faultyOps (P.cfg (P.fsOf q)).toConfig F) (P.prog q) (P.counted q z)).2.2.1 :=
    flash_update z _ _
  rw [hflash]
  cases q with
  | get => cases hq
  | remove => cases hq
  | getInfo client uid =>
    right
    have hr := hy.getInfo_reads (F := F) P.buf client uid
    exact ⟨_, (congrArg (CutOf _ _ _) (congrArg Prod.snd hr)).mpr (.stop _ _), rfl⟩
  | set client uid n flags data =>
    rw [P.prog_set_snd]
    rcases hy.faulty_set (F := F) P.buf client uid n flags data
      (fun hu hfl k hk => P.finds_set hf ht hu hfl hk) with hs | hs
    · left
      rw [show (P.serve (.set client uid n flags data) z).2.flash = _ from flash_update z _ _,
        P.prog_set_snd]
      exact congrArg (Function.update z.flash _) (congrArg Prod.snd hs)
    · exact .inr ⟨_, CutOf.bind hs _, rfl⟩

theorem Setup.faulty_own (ht : Mounted (P.cfg (P.fsOf q)) (z (P.fsOf q)) t)
    (hq : q.SetsOrInforms) (hf : P.Finds F q z) {i : StorageInfo}
    (hi : P.StoredOnce z q.client q.uid i) : (P.serveFaulty F q z).2 = z := by
  have hy : Mounted (P.cfg (P.fsOf q)) (uncount (P.counted q z)) t := ht
  have hsame : uncount (runOn (faultyOps (P.cfg (P.fsOf q)).toConfig F) (P.prog q)
      (P.counted q z)).2 = z (P.fsOf q) := by
    cases q with
    | get => cases hq
    | remove => cases hq
    | getInfo client uid => exact hy.getInfo_reads (F := F) P.buf client uid
    | set client uid n flags data =>
      obtain ⟨hu, j, hj, -, hw⟩ := (P.storedOnce_iff ht).1 hi
      rw [P.prog_set_snd]
      exact hy.faulty_set_own (F := F) P.buf n flags data hu
        (fun hfl k hk => P.finds_set hf ht hu hfl hk) hj hw
  unfold Setup.serveFaulty
  dsimp only
  rw [hsame, Function.update_eq_self]

/-- **Where the call finds the file, it keeps the write-once assets.** -/
theorem Setup.faulty_keeps (h : (svcLts P).Reachable (.on z)) (hq : q.SetsOrInforms)
    (hf : P.Finds F q z) : P.KeepsOnce F q z := by
  obtain ⟨t, ht⟩ := svc_mounted h q.client
  -- the write-once file of an asset is there after the next start
  have hseal : ∀ {client uid i} {S : Prop}, P.StoredOnce z client uid i →
      (S → P.Safe (.on z) (.call q)) → ∃ u j, uid ≠ 0 ∧
        Mounted (P.cfg (P.getFsCtx client)) (z (P.getFsCtx client)) u ∧
        i = ⟨j.sizeCurrent, j.sizeCurrent, j.flags⟩ ∧ j.flags &&& storageFlagWriteOnce.toNat ≠ 0 ∧
        Holds P (SealedIn P client (getFid client uid) j S u)
          (.off (P.serveFaulty F q z).2.flash) := by
    intro client uid i S hi hsafe
    obtain ⟨u, hu⟩ := svc_mounted h client
    obtain ⟨huid, j, hj, hij, hw⟩ := (P.storedOnce_iff hu).1 hi
    have hstart : Holds P (SealedIn P client (getFid client uid) j S u) (.on z) := by
      intro s hs
      by_cases hfs : s = P.getFsCtx client
      · subst hfs
        exact ⟨u, hu, fun _ => ⟨hj, fun _ => ⟨rfl, fun _ _ => rfl⟩⟩⟩
      · obtain ⟨v, hv, -⟩ := svc_holds h s hs
        exact ⟨v, hv, fun he => absurd he hfs⟩
    refine ⟨u, j, huid, hu, hij, hw, ?_⟩
    have hg := getFid_ne_zero client huid
    rcases P.faulty_step ht hq hf with he | hcut
    · rw [he]
      exact (sealed_step hg hw hstart (.call q z) hsafe).off
    · exact sealed_step hg hw hstart (.cut hcut) hsafe
  refine ⟨fun i hi => P.faulty_own ht hq hf hi, fun client uid i hi x => ?_,
    fun hsafe client uid i hi x offset size => ?_⟩
  · obtain ⟨u, j, huid, -, hij, hw, hoff⟩ := hseal hi False.elim
    obtain ⟨hok, hon, -⟩ := hoff.tfmItsInit x
    obtain ⟨v, hv, hvs⟩ := hon _ (P.has_getFsCtx client)
    exact ⟨hok, (P.storedOnce_iff hv).2 ⟨huid, j, (hvs rfl).info, hij, hw⟩⟩
  · obtain ⟨u, j, -, hu, -, -, hoff⟩ := hseal hi fun _ => hsafe
    obtain ⟨-, hon, -⟩ := hoff.tfmItsInit x
    obtain ⟨v, hv, hvs⟩ := hon _ (P.has_getFsCtx client)
    have hget := P.serve_get hv uid offset size
    rw [((hvs rfl).same trivial).get, ← P.serve_get hu] at hget
    exact hget

end Service

/-- **Reads that fail, exactly.** From every reachable state, for every pattern of reads
that fail in a `tfm_its_set` or a `tfm_its_get_info`: the filesystem says of no file that
is there that it is not, and no write-once asset is overwritten or deleted, if and only
if every call of the filesystem finds the file that is there. -/
theorem write_once_reads (P : Setup) (z : Stores) (h : (svcLts P).Reachable (.on z)) (q : Call)
    (hq : q.SetsOrInforms) (F : Nat → Bool) :
    P.Honest F q z ∧ P.KeepsOnce F q z ↔ P.Finds F q z := by
  obtain ⟨t, ht⟩ := svc_mounted h q.client
  rw [P.honest_iff_finds F ht]
  exact and_iff_left_of_imp fun hf => P.faulty_keeps h hq hf

/-- Asset 7 of client 5, write-once, with one byte. -/
def storedOnce : Stores :=
  (smallSetup.serve (.set 5 7 1 storageFlagWriteOnce fun _ => 0x2A) smallStores).2

theorem storedOnce_reachable : (svcLts smallSetup).Reachable (.on storedOnce) :=
  .step smallStores_reachable (.call (.set 5 7 1 storageFlagWriteOnce fun _ => 0x2A) smallStores)

/-- It is set again with two bytes. -/
def setTwo : Call := .set 5 7 2 0 fun _ => 0

theorem write_once_reads_later :
    smallSetup.KeepsOnce (fun n => n = 2) setTwo storedOnce :=
  ((write_once_reads smallSetup storedOnce storedOnce_reachable setTwo trivial fun n => n = 2).2
    (show ∀ k ∈ _, _ by decide +kernel)).2

/-- The first read fails: the asset is replaced. -/
theorem write_once_reads_first : ¬ ∀ (P : Setup) (z : Stores), (svcLts P).Reachable (.on z) →
    ∀ q : Call, q.SetsOrInforms → ∀ F : Nat → Bool, P.Honest F q z ∧ P.KeepsOnce F q z := by
  intro h
  have hkeeps := (h smallSetup storedOnce storedOnce_reachable setTwo trivial fun n => n = 0).2
  have hinfo := (hkeeps.info 5 7 ⟨1, 1, 1⟩ ⟨by decide +kernel, by decide⟩ fun _ => .zero).2.1
  exact absurd hinfo (by decide +kernel)

end Tfm.L4.Its
