import Tfm.L4Service.PsFault

/-!
# Protected Storage: an object store

The running partition is a map from uid and client id to objects. Between requests
the table in RAM has one entry for each object, every entry has its file, and a
request changes the object it names and no other one.

Results:
* `prepare_holds`: a start, with and without rollback protection.
* `object_read_eq`: what a read returns.
* `object_store_correct`: every state of every run of requests.
-/
namespace Tfm.L4.Ps
open Tfm.Crash

variable {n : Nat} {cfg : Cfg} {F : Ev → Prop} {s : Sys n}

/-! ## Starting -/

section Accepted

variable {files : Nat → Option (File n)} {nvc : Nvc → Nat} {a : Fin 2} {t : Table n}

/-- The table at `a` is selected if it is valid and the other one is not. -/
theorem accepted_of_invalid (ha : tableState cfg nvc (tableAt files a) ≠ .invalid)
    (hb : tableState cfg nvc (tableAt files (other a)) = .invalid) :
    accepted cfg files nvc = some a := by
  unfold accepted activeTable
  rcases Index.two_cases a with rfl | rfl
  · have hb : tableState cfg nvc (tableAt files 1) = .invalid := hb
    simp [ha, hb]
  · have hb : tableState cfg nvc (tableAt files 0) = .invalid := hb
    simp [ha, hb]

theorem Holds.accepted_plain (hr : cfg.rollback = false) (h : Holds cfg files nvc a t) :
    accepted cfg files nvc = some a := by
  obtain ⟨hauth, hold⟩ := h.plain hr
  have ha : tableState cfg nvc (tableAt files a) = .valid := by
    rw [tableAt_some.2 h.file]
    simp [tableState, hr, plainState, hauth, validateVersion, h.body.version]
  cases hu : tableAt files (other a) with
  | none =>
    refine accepted_of_invalid (by simp [ha]) ?_
    simp [hu, tableState, validateVersion]
  | some u =>
    by_cases hb : tableState cfg nvc (tableAt files (other a)) = .invalid
    · exact accepted_of_invalid (by simp [ha]) hb
    · have hb : tableState cfg nvc (tableAt files (other a)) = .valid := by
        revert hb
        rw [hu]
        simp only [tableState, hr, Bool.false_eq_true, if_false, plainState, validateVersion]
        repeat' split
        all_goals simp
      have hnew := hold u (tableAt_some.1 hu)
      unfold accepted
      unfold newer at hnew
      have hta := tableAt_some.2 h.file
      rcases Index.two_cases a with rfl | rfl
      · have hb : tableState cfg nvc (tableAt files 1) = .valid := hb
        have hu : tableAt files 1 = some u := hu
        rw [ha, hb, hta, hu]
        exact hnew
      · have hb : tableState cfg nvc (tableAt files 0) = .valid := hb
        have hu : tableAt files 0 = some u := hu
        rw [ha, hb, hta, hu]
        exact hnew

theorem Holds.accepted_rollback (hr : cfg.rollback = true) (h : Holds cfg files nvc a t) :
    accepted cfg files nvc = some a := by
  obtain ⟨v, hv, hpos, hsel, hold⟩ := h.tag hr
  have hle3 := h.le3
  have hlt : ∀ u, tableAt files (other a) = some u → ∀ w, v ≤ w → u.auth (some w) = false := by
    intro u hu w hw
    by_contra hauth
    have := hold u w (tableAt_some.1 hu) (by simpa using hauth)
    omega
  rcases hsel with hv1 | ⟨hv3, h23⟩
  · -- tagged with counter 1: the other table is not
    have ha : tableState cfg nvc (tableAt files a) = .nvc1Valid := by
      rw [tableAt_some.2 h.file]
      rw [hv1] at hv
      simp [tableState, hr, nvcState, hv, validateVersion, h.body.version]
    have hb : tableState cfg nvc (tableAt files (other a)) ≠ .nvc1Valid := by
      cases hu : tableAt files (other a) with
      | none => simp [tableState, validateVersion]
      | some u =>
        simp only [tableState, hr, if_true, nvcState, hlt u hu (nvc .c1) (by omega),
          Bool.false_eq_true, if_false, validateVersion]
        repeat' split
        all_goals simp
    unfold accepted activeTable
    rcases Index.two_cases a with rfl | rfl
    · have hb : tableState cfg nvc (tableAt files 1) ≠ .nvc1Valid := hb
      simp [ha, hb, hr]
    · simp [ha, hr]
  · -- tagged with counter 3: the other table is tagged with neither
    refine accepted_of_invalid ?_ ?_
    · rw [tableAt_some.2 h.file]
      have h3 : nvc .c3 ≠ 0 := by omega
      rw [hv3] at hv
      simp only [tableState, hr, if_true, nvcState, h23, validateVersion, h.body.version, hv, h3]
      split <;> simp
    · cases hu : tableAt files (other a) with
      | none => simp [tableState, validateVersion]
      | some u =>
        simp only [tableState, hr, if_true, nvcState, hlt u hu (nvc .c1) (by omega),
          Bool.false_eq_true, if_false, validateVersion, h23, hlt u hu (nvc .c3) (by omega)]
        repeat' split
        all_goals simp

theorem Holds.accepted (h : Holds cfg files nvc a t) : Ps.accepted cfg files nvc = some a := by
  cases hr : cfg.rollback with
  | false => exact h.accepted_plain hr
  | true => exact h.accepted_rollback hr

/-- Removing the other table, and raising counters 2 and 3 over a table that is
tagged with counter 1. -/
theorem Holds.congr {files' : Nat → Option (File n)} {nvc' : Nvc → Nat}
    (h : Holds cfg files nvc a t) (hf : files' (tableFid a) = files (tableFid a))
    (ho : files' (tableFid (other a)) = files (tableFid (other a)) ∨
      files' (tableFid (other a)) = none)
    (hs : SameObjs t.body files files') (h1 : nvc' .c1 = nvc .c1) (h2 : nvc' .c2 ≤ nvc .c1)
    (h3 : nvc' .c3 ≤ nvc .c1) (hauth : cfg.rollback = true → t.auth (some (nvc .c1)) = true) :
    Holds cfg files' nvc' a t := by
  have hother : ∀ u, files' (tableFid (other a)) = some (.table u) →
      files (tableFid (other a)) = some (.table u) := by
    intro u hu
    rcases ho with ho | ho
    · exact ho ▸ hu
    · rw [ho] at hu
      cases hu
  refine ⟨hf.trans h.file, h.body.congr hs, h.uniq, ?_, ?_, ?_, fun hr => ?_, fun hr => ?_⟩
  · rw [h1]
    exact h2
  · rw [h1]
    exact h3
  · rw [h1]
    exact h.max
  · exact ⟨(h.plain hr).1, fun u hu => (h.plain hr).2 u (hother u hu)⟩
  · obtain ⟨v, hv, hpos, -, hold⟩ := h.tag hr
    refine ⟨v, hv, hpos, .inl ?_, fun u w hu => hold u w (hother u hu)⟩
    rw [h1]
    exact Option.some.inj (auth_inj hv (hauth hr))

end Accepted

/-- The running partition after a start with the table `t` at `a`. -/
def startedSys (cfg : Cfg) (s : Sys n) (a : Fin 2) (t : Table n) : Sys n where
  files := Function.update s.files (tableFid (other a)) none
  nvc := if cfg.rollback then fun _ => s.nvc .c1 else s.nvc
  table := t
  active := a
  scratch := other a
  iv := t.iv
  used := s.used

section Started

variable {a : Fin 2} {t : Table n}

theorem startedSys_holds (h : Holds cfg s.files s.nvc a t)
    (hauth : cfg.rollback = true → t.auth (some (s.nvc .c1)) = true) :
    Holds cfg (startedSys cfg s a t).files (startedSys cfg s a t).nvc a t := by
  refine h.congr ?_ (.inr (Function.update_self ..)) (sameObjs_table _ _ _ _) ?_ ?_ ?_ hauth
  · exact Function.update_of_ne (fun he => other_ne a (tableFid_inj he).symm) _ _
  · cases hr : cfg.rollback <;> simp [startedSys, hr]
  · cases hr : cfg.rollback <;> simp [startedSys, hr, h.le2]
  · cases hr : cfg.rollback <;> simp [startedSys, hr, h.le3]

theorem startedSys_live (h : Holds cfg s.files s.nvc a t) : Live (startedSys cfg s a t) := by
  refine ⟨h.body.congr (sameObjs_table _ _ _ _), h.uniq, rfl, ?_, ?_, ?_⟩
  · cases hr : cfg.rollback <;> simp [startedSys, hr, h.le2]
  · cases hr : cfg.rollback <;> simp [startedSys, hr, h.le3]
  · cases hr : cfg.rollback <;> simp [startedSys, hr, h.max]

theorem startedSys_settled (h : Holds cfg s.files s.nvc a t)
    (hauth : cfg.rollback = true → t.auth (some (s.nvc .c1)) = true) :
    Settled cfg (startedSys cfg s a t) t := by
  refine ⟨startedSys_holds h hauth, rfl, fun hr => ?_⟩
  simpa [startedSys, hr] using hauth hr

theorem startedSys_view : (startedSys cfg s a t).view = viewOf t.body s.files :=
  viewOf_congr (sameObjs_table _ _ _ _)

/-- Without rollback protection, a start changes storage with its last call. -/
theorem prepare_accepted (hF : ¬ F .fail) (hr : cfg.rollback = false)
    (ha : accepted cfg s.files s.nvc = some a) (ht : tableAt s.files a = some t) :
    wp F (psSystemPrepare cfg) s
      ⟨fun _ s' => s' = startedSys cfg s a t, fun _ _ => False,
        fun s' => Cuts F ∧ s'.files = s.files ∧ s'.nvc = s.nvc⟩ := by
  refine wp_bind (select_wp hF ha ht ?_ fun hc _ => ⟨hc, rfl, rfl⟩)
  simp only [hr, Bool.false_eq_true, if_false]
  refine wp_bind (wp_get (wp_bind (wp_itsRemove hF ?_ fun hc => ⟨hc, rfl, rfl⟩)))
  intro r h
  obtain rfl | rfl := h
  all_goals
    dsimp only
    refine wp_modify ?_
    simp [startedSys, hr]

/-- A start selects the table. If it is cut, the next one does so too, unless the
alignment of the counters was begun for a table tagged with counter 3. -/
theorem prepare_holds (hF : ¬ F .fail) (h : Holds cfg s.files s.nvc a t) :
    wp F (psSystemPrepare cfg) s
      ⟨fun _ s' => s' = startedSys cfg s a t, fun _ _ => False,
        fun s' => Cuts F ∧ ((cfg.rollback = true → t.auth (some (s.nvc .c1)) = true) →
          Holds cfg s'.files s'.nvc a t)⟩ := by
  have hfa : Function.update s.files (tableFid (other a)) none (tableFid a) =
      s.files (tableFid a) :=
    Function.update_of_ne (fun he => other_ne a (tableFid_inj he).symm) _ _
  cases hr : cfg.rollback with
  | true =>
    refine init_wp hF hr h.accepted h.file rfl rfl h.max h.le2 h.le3 ?_ ?_ ?_
    · simp [startedSys, hr]
    · intro hc s' hf hn
      dsimp only
      rw [hf, hn]
      exact ⟨hc, fun _ => h⟩
    · intro hc s' x2 x3 hx2 hx3 hf hn
      dsimp only
      rw [hf, hn]
      refine ⟨hc, fun hauth => h.congr hfa (.inr (Function.update_self ..))
        (sameObjs_table _ _ _ _) ?_ ?_ ?_ (fun _ => hauth rfl)⟩
      · simp [setNvc]
      · simpa [setNvc] using hx2
      · simpa [setNvc] using hx3
  | false =>
    refine wp_mono (prepare_accepted hF hr h.accepted (tableAt_some.2 h.file)) (fun _ _ hs => hs)
      (fun _ _ hs => hs) ?_
    intro s' hx
    obtain ⟨hc, hf, hn⟩ := hx
    dsimp only
    rw [hf, hn]
    exact ⟨hc, fun _ => h⟩

/-- A start that is not cut. -/
theorem prepare_quiet (h : Holds cfg s.files s.nvc a t) :
    ∃ p, psSystemPrepare cfg s.reset [] = .ok () (startedSys cfg s a t) p := by
  have hwp := prepare_holds (F := Quiet) (s := s.reset) (fun h => by cases h) h
  obtain ⟨_, s', p, hrun, hs'⟩ := wp_quiet hwp (fun _ _ h => h) fun _ h => not_cuts_quiet h.1
  exact ⟨p, by rw [hrun, hs']; rfl⟩

end Started

/-- The table of a new flash layout. -/
def firstTable (cfg : Cfg) (n : Nat) : Table n :=
  stampTable ⟨1, 0⟩ (if cfg.rollback then some 1 else none)
    { emptyBody n with swapCount := if cfg.rollback then 0 else 1 }

theorem init_rollback (hr : cfg.rollback = true) :
    (init cfg n).sys.files =
      Function.update (fun _ => none) (tableFid 0) (some (.table (firstTable cfg n))) ∧
    (init cfg n).sys.nvc = fun _ => 1 := by
  have hnc : ∀ {P : Prop}, Cuts Quiet → P := fun h => absurd h not_cuts_quiet
  have ht : stampTable ⟨1, 0⟩ (some 1) (emptyBody n) = firstTable cfg n := by
    simp only [firstTable, hr, if_true]
    rfl
  have hwp : wp Quiet (psSystemWipeAll cfg) (blank n)
      ⟨fun _ s' => s'.files =
          Function.update (fun _ => none) (tableFid 0) (some (.table (firstTable cfg n))) ∧
          s'.nvc = fun _ => 1,
        fun _ _ => False, fun _ => False⟩ := by
    refine wp_bind (wp_modify ?_)
    exact save_wp (v := 1) (fun h => by cases h) hr rfl (by decide) (Nat.zero_le 1) (Nat.zero_le 1)
      rfl ht rfl ⟨rfl, rfl⟩ hnc hnc hnc
  obtain ⟨_, s', p, hrun, hs'⟩ := wp_quiet hwp (fun _ _ h => h) fun _ h => h
  unfold init
  rw [hrun]
  exact hs'

theorem init_plain (hr : cfg.rollback = false) :
    (init cfg n).sys.files =
      Function.update (fun _ => none) (tableFid 0) (some (.table (firstTable cfg n))) ∧
    (init cfg n).sys.nvc = fun _ => 0 := by
  obtain ⟨m, r⟩ := cfg
  cases hr
  exact ⟨rfl, rfl⟩

theorem init_holds (cfg : Cfg) (n : Nat) :
    Holds cfg (init cfg n).sys.files (init cfg n).sys.nvc 0 (firstTable cfg n) := by
  have hinit : (init cfg n).sys.files =
        Function.update (fun _ => none) (tableFid 0) (some (.table (firstTable cfg n))) ∧
      (init cfg n).sys.nvc = fun _ => if cfg.rollback then 1 else 0 := by
    cases hr : cfg.rollback with
    | false => exact init_plain hr
    | true => exact init_rollback hr
  obtain ⟨hfiles, hnvc⟩ := hinit
  have hother : ∀ u, (init cfg n).sys.files (tableFid (other 0)) ≠ some (.table u) := by
    intro u hu
    rw [hfiles] at hu
    cases hu
  refine ⟨?_, ?_, ?_, ?_, ?_, ?_, fun hr => ⟨?_, ?_⟩, fun hr => ⟨1, ?_, Nat.le_refl 1, .inl ?_, ?_⟩⟩
  · rw [hfiles]
    rfl
  · exact ⟨rfl, fun _ h => absurd rfl h, fun _ _ => rfl⟩
  · exact fun _ _ h => absurd rfl h
  · rw [hnvc]
  · rw [hnvc]
  · rw [hnvc]
    show (if cfg.rollback then 1 else 0) ≤ nvcMax
    unfold nvcMax
    split <;> omega
  · simp [firstTable, stampTable, Table.auth, hr]
  · exact fun u hu => absurd hu (hother u)
  · simp [firstTable, stampTable, Table.auth, hr]
  · simp only [hnvc, hr, if_true]
  · exact fun u w hu => absurd hu (hother u)

/-! ## Reading -/

/-- What a read of an object returns. -/
def readResult (x : Option Obj) (offset size : Nat) (s : Sys n) :
    Res PsaStatus (Sys n) (List UInt8) :=
  match x with
  | none => .err .doesNotExist s []
  | some o =>
    if o.data.length < offset then .err .invalidArgument s []
    else .ok ((o.data.drop offset).take size) s []

theorem objectRead_quiet {fid : Nat} {o : ObjFile} (hf : s.files fid = some (.object o)) :
    psEncryptedObjectRead fid (some ⟨o.iv, fid, o.obj⟩) s [] = .ok o.obj s [] := by
  have hget : psaItsGet fid s [] = .ok (.object o) s [] := by
    simp [psaItsGet, ext, call, hf]
  have hdec : attempt (psCryptoAuthAndDecrypt fid (some ⟨o.iv, fid, o.obj⟩) o) s [] =
      .ok (.ok o.obj) s [] := by
    simp [psCryptoAuthAndDecrypt, ext, call, attempt]
  unfold psEncryptedObjectRead
  simp only [bind, hget, psCryptoSetkey, ext, call, hdec, psCryptoDestroykey]
  rfl

theorem objectRead_none {uid offset size : Nat} {c : Int} {p : List Ev}
    (h : getObjectEntryIdx s.table.body uid c = none) :
    psObjectRead uid c offset size s p = .err .doesNotExist s p := by
  unfold psObjectRead
  simp only [bind, Crash.get, h]
  rfl

theorem objectRead_some {uid offset size : Nat} {c : Int} {i : Fin n} {p : List Ev}
    (h : getObjectEntryIdx s.table.body uid c = some i) :
    psObjectRead uid c offset size s p = (do
      let obj ← psEncryptedObjectRead (objectFid i.val) (s.table.body.db i).tag
      if obj.data.length < offset then throw .invalidArgument
      else pure ((obj.data.drop offset).take size) : M n (List UInt8)) s p := by
  unfold psObjectRead
  simp only [bind, Crash.get, h]

theorem object_read_eq (hl : Live s) {uid : Nat} {c : Int} (hu : uid ≠ 0) (offset size : Nat) :
    psObjectRead uid c offset size s [] = readResult (s.view uid c) offset size s := by
  unfold Sys.view viewOf lookup
  rw [if_neg hu]
  cases hj : getObjectEntryIdx s.table.body uid c with
  | none => exact objectRead_none hj
  | some j =>
    rw [objectRead_some hj]
    have hlive : (s.table.body.db j).uid ≠ 0 := by
      rw [(getObjectEntryIdx_some hj).1]
      exact hu
    obtain ⟨o, hf, ht⟩ := hl.body.objs j hlive
    have hread := objectRead_quiet hf
    simp only [hf, ht, if_true, readResult, bind, hread]
    split <;> rfl

theorem ext_keeps {α : Type} {e : PsaStatus} {f : Sys n → Except PsaStatus α × Sys n}
    (hf : ∀ t, (f t).2 = t) : Keeps (· = s) (ext e f) :=
  .call (fun t ht => (hf t).trans ht) fun _ _ ht => ht

/-- A read leaves the state, whatever fails. -/
theorem encryptedObjectRead_keeps (fid : Nat) (tag : Option ObjTag) :
    Keeps (· = s) (psEncryptedObjectRead fid tag) := by
  have hkey : Keeps (· = s) psCryptoSetkey := ext_keeps fun _ => rfl
  have hdestroy : Keeps (· = s) psCryptoDestroykey := ext_keeps fun _ => rfl
  refine .bind (ext_keeps fun t => by split <;> rfl) fun file => ?_
  cases file with
  | table _ => exact .throw _
  | object file =>
    refine hkey.bind fun _ => .bind (.attempt (ext_keeps fun t => by split <;> rfl)) fun r => ?_
    cases r with
    | error _ => exact hdestroy.attempt.bind fun _ => .throw _
    | ok obj => exact hdestroy.bind fun _ => .pure obj

theorem objectRead_keeps (uid : Nat) (c : Int) (offset size : Nat) :
    Keeps (· = s) (psObjectRead uid c offset size) := by
  refine .get fun t => ?_
  split
  · exact .throw _
  · refine .bind (encryptedObjectRead_keeps _ _) fun obj => ?_
    split
    · exact .throw _
    · exact .pure _

theorem objectGetInfo_keeps (uid : Nat) (c : Int) : Keeps (· = s) (psObjectGetInfo uid c) := by
  refine .get fun t => ?_
  split
  · exact .throw _
  · exact .bind (encryptedObjectRead_keeps _ _) fun obj => .pure _

/-! ## Runs of requests -/

inductive Req
  | op (o : Op)
  | get (uid : Nat) (clientId : Int) (offset size : Nat)
  | getInfo (uid : Nat) (clientId : Int)
  deriving DecidableEq, Repr

/-- mirrors secure_fw/partitions/protected_storage/tfm_protected_storage.c:49-139 -/
def Req.run (cfg : Cfg) : Req → M n Unit
  | .op o => o.run cfg
  | .get uid clientId offset size =>
    if uid = 0 then throw .invalidArgument
    else do
      let _ ← psObjectRead uid clientId offset size
      pure ()
  | .getInfo uid clientId =>
    if uid = 0 then throw .invalidArgument
    else do
      let _ ← psObjectGetInfo uid clientId
      pure ()

/-- The running partition on a request, calls of which may fail. -/
def serve (cfg : Cfg) (s : Sys n) (l : Req × List Ev) : Option (Sys n) :=
  match l.1.run cfg s l.2 with
  | .ok _ s' _ => some s'
  | .err _ s' _ => some s'
  | .cut _ => none

/-- A device with a new flash layout, started. -/
def started (cfg : Cfg) (n : Nat) : Sys n := (psSystemPrepare cfg (init cfg n).sys []).state

def storeLts (cfg : Cfg) (n : Nat) : LTS (Sys n) (Req × List Ev) :=
  LTS.ofFn (· = started cfg n) (serve cfg)

/-- What holds of the store between requests. -/
structure StoreOk (cfg : Cfg) (s : Sys n) : Prop where
  /-- at most one entry for a uid and client id -/
  uniq : ∀ i j uid c, uid ≠ 0 → (s.table.body.db i).names uid c → (s.table.body.db j).names uid c →
    i = j
  /-- a live entry has its file, under the tag of the entry -/
  files : ∀ i, (s.table.body.db i).uid ≠ 0 → ∃ o, s.files (objectFid i.val) = some (.object o) ∧
    (s.table.body.db i).tag = some ⟨o.iv, objectFid i.val, o.obj⟩
  /-- a free file id is none of a live object or of a table -/
  fid : ∀ num p fid s' q, psObjectTableGetFreeFid num s p = .ok fid s' q →
    (∀ a, fid ≠ tableFid a) ∧ ∀ i : Fin n, (s.table.body.db i).uid ≠ 0 → fid ≠ objectFid i.val
  /-- and no such file is removed to get one -/
  free : ∀ num p, (∀ a, (psObjectTableGetFreeFid num s p).state.files (tableFid a) =
      s.files (tableFid a)) ∧
    SameObjs s.table.body s.files (psObjectTableGetFreeFid num s p).state.files
  /-- after an operation that succeeded its object is what it says, and reads return it -/
  done : ∀ o p s' q, Op.run cfg o s p = .ok () s' q →
    s'.view o.uid o.clientId = o.result (s.view o.uid o.clientId) ∧
    ∀ offset size, psObjectRead o.uid o.clientId offset size s' [] =
      readResult (o.result (s.view o.uid o.clientId)) offset size s'
  /-- no operation changes another object -/
  others : ∀ o p s', serve cfg s (.op o, p) = some s' →
    ∀ uid c, ¬ (uid = o.uid ∧ c = o.clientId) → s'.view uid c = s.view uid c
  /-- reads change nothing -/
  reads : ∀ uid c offset size p, (psObjectRead uid c offset size s p).state = s ∧
    (psObjectGetInfo uid c s p).state = s

theorem uid_of_ok {o : Op} {p q : List Ev} {s' : Sys n} (h : o.run cfg s p = .ok () s' q) :
    o.uid ≠ 0 := by
  intro hu
  cases o with
  | create uid c flags data =>
    simp only [Op.run, show uid = 0 from hu, if_true] at h
    cases h
  | write uid c offset data =>
    simp only [Op.run, show uid = 0 from hu, if_true] at h
    cases h
  | delete uid c =>
    simp only [Op.run, show uid = 0 from hu, if_true] at h
    cases h

/-- Getting a free file id, whatever fails. -/
theorem getFreeFid_run (num : Nat) (p : List Ev) :
    (∃ e q, psObjectTableGetFreeFid num s p = .err e s q) ∨
    (∃ q, psObjectTableGetFreeFid num s p = .cut q ∧ q = s) ∨
    ∃ (i : Fin n) (q : List Ev), (s.table.body.db i).uid = 0 ∧
      psObjectTableGetFreeFid num s p = .ok (objectFid i.val)
        { s with files := Function.update s.files (objectFid i.val) none } q := by
  cases hi : tableFreeIdx s.table.body num (List.finRange n) with
  | none =>
    refine .inl ⟨.insufficientStorage, p, ?_⟩
    unfold psObjectTableGetFreeFid
    simp only [bind, Crash.get, hi]
    rfl
  | some i =>
    have hfree := tableFreeIdx_some hi
    have hrun := getFreeFid_at (G := fun _ _ => True) (i := 0)
      (Q := ⟨fun fid s' _ => fid = objectFid i.val ∧
          s' = { s with files := Function.update s.files (objectFid i.val) none },
        fun _ s' _ => s' = s, fun s' => s' = s⟩) hi ⟨rfl, rfl⟩ (fun _ => rfl) rfl p
      fun _ _ _ => trivial
    revert hrun
    cases hp : psObjectTableGetFreeFid num s p with
    | ok fid s' q =>
      intro hx
      obtain ⟨_, ⟨rfl, rfl⟩, -⟩ := hx
      exact .inr (.inr ⟨i, q, hfree, rfl⟩)
    | err e s' q =>
      intro hx
      obtain ⟨_, rfl, -⟩ := hx
      exact .inl ⟨e, q, rfl⟩
    | cut s' => exact fun h => .inr (.inl ⟨s', rfl, h⟩)

theorem Live.store (hl : Live s) : StoreOk cfg s where
  uniq := by
    intro i j uid c hu hi hj
    exact hl.uniq i j (by rw [hi.1]; exact hu) (hi.1.trans hj.1.symm) (hi.2.trans hj.2.symm)
  files := hl.body.objs
  fid := by
    intro num p fid s' q hrun
    rcases getFreeFid_run (s := s) num p with ⟨e, q', h⟩ | ⟨q', h, -⟩ | ⟨i, q', hi, h⟩
    · rw [h] at hrun
      cases hrun
    · rw [h] at hrun
      cases hrun
    · rw [h] at hrun
      cases hrun
      refine ⟨fun a he => tableFid_ne_objectFid a i.val he.symm, fun j hj he => hj ?_⟩
      rw [← Fin.ext (objectFid_inj he)]
      exact hi
  free := by
    intro num p
    rcases getFreeFid_run (s := s) num p with ⟨e, q', h⟩ | ⟨q', h, rfl⟩ | ⟨i, q', hi, h⟩
    · rw [h]
      exact ⟨fun _ => rfl, fun _ _ => rfl⟩
    · rw [h]
      exact ⟨fun _ => rfl, fun _ _ => rfl⟩
    · rw [h]
      exact ⟨fun a => Function.update_of_ne (tableFid_ne_objectFid _ _) _ _,
        sameObjs_object s.files hi none⟩
  done := by
    intro o p s' q hrun
    have hdone := op_run cfg hl o p
    rw [hrun] at hdone
    refine ⟨hdone.mine, fun offset size => ?_⟩
    rw [object_read_eq (hdone.toSwitched.live hl) (uid_of_ok hrun), hdone.mine]
  others := by
    intro o p s' hs uid c hne
    have hrun := op_run cfg hl o p
    simp only [serve, Req.run] at hs
    revert hs hrun
    cases o.run cfg s p with
    | ok a t q =>
      intro hs hrun
      cases hs
      exact hrun.others uid c hne
    | err e t q =>
      intro hs hrun
      cases hs
      rcases hrun with h | ⟨h, -⟩ | h
      · rw [h.toUndone.view]
      · rw [h.view]
      · exact h.others uid c hne
    | cut t => exact fun hs => by cases hs
  reads := fun uid c offset size p =>
    ⟨(objectRead_keeps uid c offset size).state rfl p, (objectGetInfo_keeps uid c).state rfl p⟩

theorem live_started (cfg : Cfg) (n : Nat) : Live (started cfg n) := by
  obtain ⟨p, hrun⟩ := prepare_quiet (init_holds cfg n)
  have hs : started cfg n = startedSys cfg (init cfg n).sys 0 (firstTable cfg n) :=
    congrArg Res.state hrun
  rw [hs]
  exact startedSys_live (init_holds cfg n)

theorem live_serve {s' : Sys n} {l : Req × List Ev} (hl : Live s)
    (hs : serve cfg s l = some s') : Live s' := by
  obtain ⟨r, p⟩ := l
  have hkeep : ∀ {m : M n Unit}, Keeps (· = s) m → (m s p).state = s := fun hm => hm.state rfl p
  have hread : Keeps (· = s) (r.run cfg) → Live s' := by
    intro hk
    have hst := hkeep hk
    revert hs hst
    unfold serve
    cases Req.run cfg r s p with
    | ok a t q =>
      intro hs hst
      cases hs
      have hst : s' = s := hst
      rw [hst]
      exact hl
    | err e t q =>
      intro hs hst
      cases hs
      have hst : s' = s := hst
      rw [hst]
      exact hl
    | cut t => exact fun hs => by cases hs
  cases r with
  | get uid c offset size =>
    refine hread ?_
    simp only [Req.run]
    split
    · exact .throw _
    · exact (objectRead_keeps uid c offset size).bind fun _ => .pure ()
  | getInfo uid c =>
    refine hread ?_
    simp only [Req.run]
    split
    · exact .throw _
    · exact (objectGetInfo_keeps uid c).bind fun _ => .pure ()
  | op o =>
    have hrun := op_run cfg hl o p
    simp only [serve, Req.run] at hs
    revert hs hrun
    cases o.run cfg s p with
    | ok a t q =>
      intro hs hrun
      cases hs
      exact hrun.toSwitched.live hl
    | err e t q =>
      intro hs hrun
      cases hs
      rcases hrun with h | ⟨h, -⟩ | h
      · exact h.toUndone.live hl
      · exact h.live hl
      · exact h.toSwitched.live hl
    | cut t => exact fun hs => by cases hs

theorem live_inductive (cfg : Cfg) (n : Nat) : (storeLts cfg n).Inductive Live where
  init := fun _ hs => hs ▸ live_started cfg n
  step := fun _ _ _ h hs => live_serve h hs

/-- **Object store.** In every state of every run of requests, by any clients and
with any calls failing: one entry for each object, every entry with its file,
free file ids free, and a successful operation changes its object to what it says
and no other one. -/
theorem object_store_correct (cfg : Cfg) (n : Nat) (s : Sys n) (h : (storeLts cfg n).Reachable s) :
    StoreOk cfg s :=
  ((live_inductive cfg n).reachable s h).store

/-- A create, a write into it, and a create by another client whose table file
cannot be written. -/
theorem object_store_correct_after_write :
    ∃ s, (storeLts ⟨16, true, true⟩ 4).Reachable s ∧
      (s.view 5 1).map Obj.data = some [1, 9, 3] ∧ s.view 5 2 = none ∧
      StoreOk ⟨16, true, true⟩ s := by
  have he : (LTS.exec (serve ⟨16, true, true⟩) (started ⟨16, true, true⟩ 4)
      [(.op (.create 5 1 0 [1, 2, 3]), []), (.op (.write 5 1 1 [9]), []),
        (.op (.create 5 2 0 [7]), List.replicate 10 .ok ++ [.fail]), (.get 5 1 0 8, [])]).map
      (fun s => ((s.view 5 1).map Obj.data, s.view 5 2)) = some (some [1, 9, 3], none) := by
    decide +kernel
  obtain ⟨s, hs, hv⟩ := Option.map_eq_some_iff.1 he
  have hreach : (storeLts ⟨16, true, true⟩ 4).Reachable s := LTS.reachable_exec _ (.init rfl) hs
  simp only [Prod.mk.injEq] at hv
  exact ⟨s, hreach, hv.1, hv.2, object_store_correct ⟨16, true, true⟩ 4 s hreach⟩

end Tfm.L4.Ps
