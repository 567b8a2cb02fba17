import Mathlib.Data.List.Nodup
import Tfm.Core.Index
import Tfm.Core.LTS
import Tfm.Core.Signal

/-!
# Calls and interrupts in the library model

How secure function calls and deprivileged interrupt handlers nest when there is
no scheduler (secure_fw/spm/cmsis_func/spm_func.c): `tfm_start_partition`,
`tfm_return_from_partition` and the two functions for interrupts, with the states
of the partitions, their caller indices and the stacks that keep both while a
partition is interrupted.

A run starts when the initialisation is over, with the non-secure partition
running. It is well nested: a return is the return from the innermost entry, by
the partition that runs. A secure function is called by the running partition,
which is what the request handler records. An error of any of the functions is a
panic, a step that does not exist. The number of partitions and the depth are
arbitrary, and so are the context stacks; what `tfm_start_partition` copies
between the stacks of caller and callee is left out.

Results:
* `nesting_sound`: at every moment the running partition is the one in a running
  state, the lock counts the calls that are under way, and the innermost return
  brings back states and callers as they were; the chain of callers ends exactly
  if no interrupt that is under way found its handler partition already active,
  and then it goes through suspended and blocked partitions only.
-/
namespace Tfm.L4.SpmFunc

/-- mirrors secure_fw/spm/cmsis_func/include/spm_func.h:17-23 -/
inductive PartState
  | uninit
  | idle
  | running
  | handlingIrq
  | suspended
  | blocked
  | closed
  deriving DecidableEq, Repr

/-- mirrors interface/include/tfm_api.h:51-58 -/
inductive TfmStatus
  | partitionNonReentrant
  | invalidExcMode
  | secureLockFailed
  | secureUnlockFailed
  | generic
  deriving DecidableEq, Repr

variable {n : Nat}

/-- A word of a context stack. -/
inductive Word (n : Nat)
  | state (st : PartState)
  | caller (idx : Option (Fin n))
  deriving DecidableEq, Repr

/-- `struct spm_partition_runtime_data_t`, the fields that nest. -/
structure Part (n : Nat) where
  partitionState : PartState
  /-- `none` is `SPM_INVALID_PARTITION_IDX` -/
  callerPartitionIdx : Option (Fin n)
  /-- the words below `ctx_stack_ptr`, the last one first -/
  ctxStack : List (Word n)
  deriving DecidableEq, Repr

/-- The other fields. -/
structure Ctx where
  callerClientId : Int
  stackPtr : Nat
  lr : Nat
  signalMask : Signal
  deriving DecidableEq, Repr

/-- `g_spm_partition_db`, with `tfm_secure_lock`. -/
structure Db (n : Nat) where
  part : Fin n → Part n
  runningPartitionIdx : Fin n
  secureLock : Int

/-- `struct spm_partition_static_data_t`. -/
structure Static (n : Nat) where
  appRot : Fin n → Bool
  partitionId : Fin n → Int

/-- An entry that is under way, with the database before it. -/
inductive Frame (n : Nat)
  | call (before : Db n)
  | irq (before : Db n) (handler : Fin n)

def Frame.before : Frame n → Db n
  | .call d => d
  | .irq d _ => d

structure St (n : Nat) where
  db : Db n
  ctx : Fin n → Ctx
  /-- ghost: the entries under way, the innermost first -/
  nest : List (Frame n)

/-! ## The database -/

def Db.setPart (d : Db n) (i : Fin n) (f : Part n → Part n) : Db n :=
  { d with part := Function.update d.part i (f (d.part i)) }

/-- mirrors secure_fw/spm/cmsis_func/spm_func.c:1361-1369 -/
def setState (d : Db n) (i : Fin n) (st : PartState) : Db n :=
  { d.setPart i (fun p => { p with partitionState := st }) with
    runningPartitionIdx :=
      if st = .running ∨ st = .handlingIrq then i else d.runningPartitionIdx }

/-- mirrors secure_fw/spm/cmsis_func/spm_func.c:1371-1376 -/
def setCallerPartitionIdx (d : Db n) (i : Fin n) (caller : Option (Fin n)) : Db n :=
  d.setPart i fun p => { p with callerPartitionIdx := caller }

/-- mirrors secure_fw/spm/cmsis_func/spm_func.c:1284-1295 -/
def pushInterruptedCtx (d : Db n) (i : Fin n) : Db n :=
  d.setPart i fun p => { p with ctxStack := .state p.partitionState :: p.ctxStack }

/-- mirrors secure_fw/spm/cmsis_func/spm_func.c:1297-1310 -/
def popInterruptedCtx (d : Db n) (i : Fin n) : Option (Db n) :=
  match (d.part i).ctxStack with
  | .state st :: rest => some (setState (d.setPart i fun p => { p with ctxStack := rest }) i st)
  | _ => none

/-- mirrors secure_fw/spm/cmsis_func/spm_func.c:1312-1325 -/
def pushHandlerCtx (d : Db n) (i : Fin n) : Db n :=
  d.setPart i fun p =>
    { p with ctxStack := .caller p.callerPartitionIdx :: .state p.partitionState :: p.ctxStack }

/-- mirrors secure_fw/spm/cmsis_func/spm_func.c:1327-1344 -/
def popHandlerCtx (d : Db n) (i : Fin n) : Option (Db n) :=
  match (d.part i).ctxStack with
  | .caller idx :: .state st :: rest =>
    some (setCallerPartitionIdx
      (setState (d.setPart i fun p => { p with ctxStack := rest }) i st) i idx)
  | _ => none

/-- mirrors secure_fw/spm/cmsis_func/spm_func.c:1397-1415 -/
def cleanupContext (d : Db n) (i : Fin n) : Db n :=
  setCallerPartitionIdx d i none

/-! ## Secure functions -/

/-- `struct tfm_sfn_req_s`, with the index its `sp_id` stands for, and what the
call finds: the stack pointer and `EXC_RETURN`, the client id of the non-secure
caller, and whether its iovecs could be set. -/
structure SfnReq (n : Nat) where
  partitionIdx : Fin n
  nsCaller : Bool
  psp : Nat
  excReturn : Nat
  currentClientId : Int
  iovecOk : Bool
  deriving DecidableEq, Repr

/-- mirrors secure_fw/spm/cmsis_func/spm_func.c:336-358 -/
def checkPartitionState (curr caller : PartState) : Except TfmStatus Unit :=
  if caller ≠ .running then .error .invalidExcMode
  else if curr = .running ∨ curr = .handlingIrq ∨ curr = .suspended ∨ curr = .blocked then
    .error .partitionNonReentrant
  else if curr ≠ .idle then .error .secureLockFailed
  else .ok ()

/-- mirrors secure_fw/spm/cmsis_func/spm_func.c:368-380 -/
def checkIrqPartitionState (called : PartState) : Except TfmStatus Unit :=
  if called = .idle ∨ called = .running ∨ called = .handlingIrq ∨ called = .suspended ∨
      called = .blocked then .ok ()
  else .error .secureLockFailed

def St.setCtx (s : St n) (i : Fin n) (f : Ctx → Ctx) : St n :=
  { s with ctx := Function.update s.ctx i (f (s.ctx i)) }

/-- mirrors secure_fw/spm/cmsis_func/spm_func.c:472-570 -/
def tfmStartPartition (st : Static n) (s : St n) (callerPartIdx : Fin n) (r : SfnReq n) :
    Except TfmStatus (St n) :=
  if st.appRot callerPartIdx ≠ !r.nsCaller then .error .secureLockFailed
  else
    match checkPartitionState (s.db.part r.partitionIdx).partitionState
        (s.db.part callerPartIdx).partitionState with
    | .error e => .error e
    | .ok _ =>
      let d := setCallerPartitionIdx s.db r.partitionIdx (some callerPartIdx)
      let s₁ := { s.setCtx callerPartIdx (fun c => { c with stackPtr := r.psp, lr := r.excReturn })
        with db := d }
      if !st.appRot callerPartIdx && decide (0 ≤ r.currentClientId) then .error .secureLockFailed
      else
        let clientId :=
          if st.appRot callerPartIdx then st.partitionId callerPartIdx else r.currentClientId
        let s₂ := s₁.setCtx r.partitionIdx fun c => { c with callerClientId := clientId }
        if r.nsCaller && !r.iovecOk then .error .generic
        else
          let d₂ := setState (setState d callerPartIdx .blocked) r.partitionIdx .running
          .ok { s₂ with db := { d₂ with secureLock := d₂.secureLock + 1 } }

/-- The state after it, with the stack pointer and `EXC_RETURN` of a caller that
is not an application RoT partition.
mirrors secure_fw/spm/cmsis_func/spm_func.c:630-690 -/
def tfmReturnFromPartition (st : Static n) (s : St n) :
    Except TfmStatus (St n × Option (Nat × Nat)) :=
  let current := s.db.runningPartitionIdx
  match (s.db.part current).callerPartitionIdx with
  | none => .error .secureUnlockFailed
  | some ret =>
    let d := { s.db with secureLock := s.db.secureLock - 1 }
    let ctx := if st.appRot ret then none else some ((s.ctx ret).stackPtr, (s.ctx ret).lr)
    .ok ({ s with db := setState (setState (cleanupContext d current) current .idle) ret .running },
      ctx)

/-! ## Interrupts -/

/-- mirrors secure_fw/spm/cmsis_func/spm_func.c:572-628 -/
def tfmStartPartitionForIrqHandling (s : St n) (handler : Fin n) (irqSignal : Signal) :
    Except TfmStatus (St n) :=
  let interrupted := s.db.runningPartitionIdx
  match checkIrqPartitionState (s.db.part handler).partitionState with
  | .error e => .error e
  | .ok _ =>
    let s₁ := s.setCtx handler fun c => { c with signalMask := c.signalMask ||| irqSignal }
    let d := pushHandlerCtx (pushInterruptedCtx s.db interrupted) handler
    let d := setCallerPartitionIdx d handler (some interrupted)
    .ok { s₁ with db := setState (setState d interrupted .suspended) handler .handlingIrq }

/-- `none` is a panic, or a frame that is not what was pushed.
mirrors secure_fw/spm/cmsis_func/spm_func.c:692-727 -/
def tfmReturnFromPartitionIrqHandling (s : St n) : Option (St n) :=
  let handler := s.db.runningPartitionIdx
  (s.db.part handler).callerPartitionIdx.bind fun interrupted =>
    (popHandlerCtx s.db handler).bind fun d =>
      (popInterruptedCtx d interrupted).map fun d => { s with db := d }

/-! ## Runs -/

inductive Lbl (n : Nat)
  | call (r : SfnReq n)
  | ret
  | irq (handler : Fin n) (irqSignal : Signal)
  | irqRet
  deriving DecidableEq, Repr

def step (st : Static n) (s : St n) : Lbl n → Option (St n)
  | .call r =>
    match tfmStartPartition st s s.db.runningPartitionIdx r with
    | .ok s' => some { s' with nest := .call s.db :: s.nest }
    | .error _ => none
  | .ret =>
    match s.nest, tfmReturnFromPartition st s with
    | .call _ :: rest, .ok (s', _) => some { s' with nest := rest }
    | _, _ => none
  | .irq handler irqSignal =>
    match tfmStartPartitionForIrqHandling s handler irqSignal with
    | .ok s' => some { s' with nest := .irq s.db handler :: s.nest }
    | .error _ => none
  | .irqRet =>
    match s.nest, tfmReturnFromPartitionIrqHandling s with
    | .irq _ _ :: rest, some s' => some { s' with nest := rest }
    | _, _ => none

/-- The database when the initialisation is over.
mirrors secure_fw/spm/cmsis_func/main.c:188-195 -/
structure Boot (d : Db n) : Prop where
  running : (d.part d.runningPartitionIdx).partitionState = .running
  others : ∀ i, i ≠ d.runningPartitionIdx →
    (d.part i).partitionState = .idle ∨ (d.part i).partitionState = .closed
  callers : ∀ i, (d.part i).callerPartitionIdx = none
  ctxStacks : ∀ i, (d.part i).ctxStack = []
  lock : d.secureLock = 0

def lts (st : Static n) : LTS (St n) (Lbl n) :=
  LTS.ofFn (fun s => Boot s.db ∧ s.nest = []) (step st)

/-! ## Entries and returns on the database -/

/-- What a call does to the database. -/
def enterCall (d : Db n) (k : Fin n) : Db n :=
  let d₁ := setCallerPartitionIdx d k (some d.runningPartitionIdx)
  let d₂ := setState (setState d₁ d.runningPartitionIdx .blocked) k .running
  { d₂ with secureLock := d₂.secureLock + 1 }

/-- What an interrupt does to it. -/
def enterIrq (d : Db n) (k : Fin n) : Db n :=
  let d₁ := pushHandlerCtx (pushInterruptedCtx d d.runningPartitionIdx) k
  let d₂ := setCallerPartitionIdx d₁ k (some d.runningPartitionIdx)
  setState (setState d₂ d.runningPartitionIdx .suspended) k .handlingIrq

variable {st : Static n} {s s' : St n} {d : Db n} {fs : List (Frame n)}

theorem checkPartitionState_ok {curr caller : PartState} (h : checkPartitionState curr caller = .ok ()) :
    caller = .running ∧ curr = .idle := by
  unfold checkPartitionState at h
  split at h
  · cases h
  next hc =>
  split at h
  · cases h
  split at h
  · cases h
  next hi => exact ⟨not_not.1 hc, not_not.1 hi⟩

theorem tfmStartPartition_ok {r : SfnReq n}
    (h : tfmStartPartition st s s.db.runningPartitionIdx r = .ok s') :
    (s.db.part s.db.runningPartitionIdx).partitionState = .running ∧
      (s.db.part r.partitionIdx).partitionState = .idle ∧
      s'.db = enterCall s.db r.partitionIdx := by
  unfold tfmStartPartition at h
  split at h
  · cases h
  split at h
  · cases h
  next hck =>
  obtain ⟨hr, hi⟩ := checkPartitionState_ok hck
  dsimp only at h
  split at h
  · cases h
  split at h
  · cases h
  · cases h
    exact ⟨hr, hi, rfl⟩

theorem tfmStartPartitionForIrqHandling_ok {k : Fin n} {irqSignal : Signal}
    (h : tfmStartPartitionForIrqHandling s k irqSignal = .ok s') :
    (s.db.part k).partitionState ≠ .uninit ∧ (s.db.part k).partitionState ≠ .closed ∧
      s'.db = enterIrq s.db k := by
  unfold tfmStartPartitionForIrqHandling checkIrqPartitionState at h
  dsimp only at h
  split at h
  · cases h
  next hck =>
  cases h
  refine ⟨?_, ?_, rfl⟩
  · intro he
    simp [he] at hck
  · intro he
    simp [he] at hck

theorem Db.ext_part {d e : Db n} (hp : ∀ i, d.part i = e.part i)
    (hr : d.runningPartitionIdx = e.runningPartitionIdx) (hl : d.secureLock = e.secureLock) :
    d = e := by
  cases d
  cases e
  cases hr
  cases hl
  congr 1
  exact funext hp

theorem enterCall_part (d : Db n) {k : Fin n} (hk : k ≠ d.runningPartitionIdx) (i : Fin n) :
    (enterCall d k).part i =
      if i = k then ⟨.running, some d.runningPartitionIdx, (d.part i).ctxStack⟩
      else if i = d.runningPartitionIdx then { d.part i with partitionState := .blocked }
      else d.part i := by
  unfold enterCall setState setCallerPartitionIdx Db.setPart
  by_cases hik : i = k
  · subst hik
    simp [hk]
  · by_cases hir : i = d.runningPartitionIdx
    · subst hir
      simp [hik]
    · simp [hik, hir]

theorem enterIrq_part (d : Db n) (k i : Fin n) :
    (enterIrq d k).part i =
      if i = k then
        ⟨.handlingIrq, some d.runningPartitionIdx,
          .caller (d.part i).callerPartitionIdx :: .state (d.part i).partitionState ::
            (if i = d.runningPartitionIdx then [.state (d.part i).partitionState] else []) ++
              (d.part i).ctxStack⟩
      else if i = d.runningPartitionIdx then
        ⟨.suspended, (d.part i).callerPartitionIdx,
          .state (d.part i).partitionState :: (d.part i).ctxStack⟩
      else d.part i := by
  unfold enterIrq setState setCallerPartitionIdx pushHandlerCtx pushInterruptedCtx Db.setPart
  by_cases hik : i = k
  · subst hik
    by_cases hir : i = d.runningPartitionIdx
    · simp [hir]
    · simp [hir]
  · by_cases hir : i = d.runningPartitionIdx
    · subst hir
      simp [hik]
    · simp [hik, hir]

theorem enterCall_running (d : Db n) (k : Fin n) : (enterCall d k).runningPartitionIdx = k := rfl
theorem enterIrq_running (d : Db n) (k : Fin n) : (enterIrq d k).runningPartitionIdx = k := rfl

/-- The two states of a partition that runs. -/
def Active (st : PartState) : Prop := st = .running ∨ st = .handlingIrq

instance (st : PartState) : Decidable (Active st) := by
  unfold Active
  infer_instance

theorem setPart_part (d : Db n) (j i : Fin n) (f : Part n → Part n) :
    (d.setPart j f).part i = if i = j then f (d.part i) else d.part i := by
  unfold Db.setPart
  by_cases hij : i = j
  · subst hij
    simp
  · simp [hij]

theorem setState_part (d : Db n) (j i : Fin n) (st : PartState) :
    (setState d j st).part i =
      if i = j then { d.part i with partitionState := st } else d.part i :=
  setPart_part d j i fun p => { p with partitionState := st }

theorem setCallerPartitionIdx_part (d : Db n) (j i : Fin n) (c : Option (Fin n)) :
    (setCallerPartitionIdx d j c).part i =
      if i = j then { d.part i with callerPartitionIdx := c } else d.part i :=
  setPart_part d j i fun p => { p with callerPartitionIdx := c }

/-- A return undoes the call it returns from. -/
theorem return_enterCall {k : Fin n} (h : s.db = enterCall d k) (hk : k ≠ d.runningPartitionIdx)
    (hr : (d.part d.runningPartitionIdx).partitionState = .running)
    (hi : (d.part k).partitionState = .idle) (hc : (d.part k).callerPartitionIdx = none) :
    ∃ ctx, tfmReturnFromPartition st s = .ok ({ s with db := d }, ctx) := by
  have hcaller : ((enterCall d k).part k).callerPartitionIdx = some d.runningPartitionIdx := by
    rw [enterCall_part d hk, if_pos rfl]
  have hundo : setState (setState (cleanupContext
      { enterCall d k with secureLock := (enterCall d k).secureLock - 1 } k) k .idle)
        d.runningPartitionIdx .running = d := by
    refine Db.ext_part (fun i => ?_) rfl (Int.add_sub_cancel ..)
    rw [setState_part, setState_part, cleanupContext, setCallerPartitionIdx_part]
    dsimp only
    rw [enterCall_part d hk i]
    by_cases hik : i = k
    · subst hik
      simp only [if_pos, if_neg hk]
      rw [← hi, ← hc]
    · by_cases hir : i = d.runningPartitionIdx
      · subst hir
        simp only [if_neg hik, if_pos]
        rw [← hr]
      · simp only [if_neg hik, if_neg hir]
  unfold tfmReturnFromPartition
  dsimp only
  rw [h, enterCall_running, hcaller]
  exact ⟨_, congrArg (fun e => Except.ok ({ s with db := e }, _)) hundo⟩

theorem popHandlerCtx_some {i : Fin n} {idx : Option (Fin n)} {ps : PartState}
    {rest : List (Word n)} (h : (d.part i).ctxStack = .caller idx :: .state ps :: rest) :
    popHandlerCtx d i = some (setCallerPartitionIdx
      (setState (d.setPart i fun p => { p with ctxStack := rest }) i ps) i idx) := by
  unfold popHandlerCtx
  rw [h]

theorem popInterruptedCtx_some {i : Fin n} {ps : PartState} {rest : List (Word n)}
    (h : (d.part i).ctxStack = .state ps :: rest) :
    popInterruptedCtx d i = some (setState (d.setPart i fun p => { p with ctxStack := rest }) i ps) := by
  unfold popInterruptedCtx
  rw [h]

/-- The return from an interrupt undoes the entry, also when the partition that
handled it is the one it interrupted. -/
theorem return_enterIrq {k : Fin n} (h : s.db = enterIrq d k)
    (hr : Active (d.part d.runningPartitionIdx).partitionState) :
    tfmReturnFromPartitionIrqHandling s = some { s with db := d } := by
  have hcaller : ((enterIrq d k).part k).callerPartitionIdx = some d.runningPartitionIdx := by
    rw [enterIrq_part, if_pos rfl]
  have hstack : ((enterIrq d k).part k).ctxStack =
      .caller (d.part k).callerPartitionIdx :: .state (d.part k).partitionState ::
        ((if k = d.runningPartitionIdx then [.state (d.part k).partitionState] else []) ++
          (d.part k).ctxStack) := by
    rw [enterIrq_part, if_pos rfl]
    rfl
  have hstack' : (k = d.runningPartitionIdx ∨
      ((enterIrq d k).part d.runningPartitionIdx).ctxStack =
        .state (d.part d.runningPartitionIdx).partitionState ::
          (d.part d.runningPartitionIdx).ctxStack) := by
    by_cases hk : k = d.runningPartitionIdx
    · exact .inl hk
    · right
      rw [enterIrq_part, if_neg (Ne.symm hk), if_pos rfl]
  unfold tfmReturnFromPartitionIrqHandling
  rw [h, enterIrq_running]
  dsimp only
  rw [hcaller, Option.bind_some, popHandlerCtx_some hstack, Option.bind_some]
  have hpop : ∀ e : Db n, (e.part d.runningPartitionIdx).ctxStack =
      .state (d.part d.runningPartitionIdx).partitionState ::
        (d.part d.runningPartitionIdx).ctxStack →
      (∀ i, i ≠ d.runningPartitionIdx → e.part i = d.part i) →
      (e.part d.runningPartitionIdx).callerPartitionIdx =
        (d.part d.runningPartitionIdx).callerPartitionIdx →
      e.secureLock = d.secureLock → popInterruptedCtx e d.runningPartitionIdx = some d := by
    intro e hst hother hca hl
    rw [popInterruptedCtx_some hst]
    refine congrArg some (Db.ext_part (fun i => ?_) ?_ hl)
    · rw [setState_part, setPart_part]
      by_cases hi : i = d.runningPartitionIdx
      · subst hi
        simp only [if_pos]
        rw [hca]
      · simp only [if_neg hi]
        exact hother i hi
    · exact if_pos hr
  rw [hpop, Option.map_some]
  · rw [setCallerPartitionIdx_part, setState_part, setPart_part]
    obtain hk | hk := hstack'
    · subst hk
      simp
    · by_cases hrk : d.runningPartitionIdx = k
      · subst hrk
        simp
      · simp only [if_neg hrk]
        exact hk
  · intro i hi
    rw [setCallerPartitionIdx_part, setState_part, setPart_part, enterIrq_part]
    by_cases hik : i = k
    · subst hik
      simp [hi]
    · simp [hik, hi]
  · rw [setCallerPartitionIdx_part, setState_part, setPart_part, enterIrq_part]
    by_cases hrk : d.runningPartitionIdx = k
    · subst hrk
      simp
    · simp [hrk]
  · rfl

/-! ## Nesting -/

/-- The database is what the entries under way made of the one at boot. -/
inductive Nested : Db n → List (Frame n) → Prop
  | boot {d : Db n} (h : Boot d) : Nested d []
  | call {d : Db n} {fs : List (Frame n)} {k : Fin n} (h : Nested d fs)
      (hr : (d.part d.runningPartitionIdx).partitionState = .running)
      (hi : (d.part k).partitionState = .idle) : Nested (enterCall d k) (.call d :: fs)
  | irq {d : Db n} {fs : List (Frame n)} {k : Fin n} (h : Nested d fs)
      (hu : (d.part k).partitionState ≠ .uninit) (hc : (d.part k).partitionState ≠ .closed) :
      Nested (enterIrq d k) (.irq d k :: fs)

/-- The states of a partition that takes no part in what is going on. -/
def Quiet (st : PartState) : Prop := st = .uninit ∨ st = .idle ∨ st = .closed

/-- The partitions that ran before the entries under way, the running one first. -/
def trail (d : Db n) (fs : List (Frame n)) : List (Fin n) :=
  d.runningPartitionIdx :: fs.map fun f => f.before.runningPartitionIdx

def Frame.isCall : Frame n → Bool
  | .call _ => true
  | .irq _ _ => false

structure NestInv (d : Db n) (fs : List (Frame n)) : Prop where
  active : ∀ i, Active (d.part i).partitionState ↔ i = d.runningPartitionIdx
  engaged : ∀ i, i ∈ trail d fs ↔ ¬ Quiet (d.part i).partitionState
  quiet : ∀ i, Quiet (d.part i).partitionState → (d.part i).callerPartitionIdx = none
  lock : d.secureLock = (fs.filter Frame.isCall).length

theorem trail_cons {d e : Db n} {k : Fin n} {f : Frame n} (hk : e.runningPartitionIdx = k)
    (hf : f.before = d) : trail e (f :: fs) = k :: trail d fs := by
  unfold trail
  rw [hk, List.map_cons, hf]

theorem nestInv_boot (h : Boot d) : NestInv d [] := by
  have hstate : ∀ i, i = d.runningPartitionIdx ∧ (d.part i).partitionState = .running ∨
      i ≠ d.runningPartitionIdx ∧ ((d.part i).partitionState = .idle ∨
        (d.part i).partitionState = .closed) := by
    intro i
    by_cases hi : i = d.runningPartitionIdx
    · subst hi
      exact .inl ⟨rfl, h.running⟩
    · exact .inr ⟨hi, h.others i hi⟩
  constructor
  · intro i
    obtain ⟨hi, hs⟩ | ⟨hi, hs | hs⟩ := hstate i
    · simp [hi, Active, h.running]
    · simp [hi, hs, Active]
    · simp [hi, hs, Active]
  · intro i
    obtain ⟨hi, hs⟩ | ⟨hi, hs | hs⟩ := hstate i
    · simp [hi, trail, Quiet, h.running]
    · simp [hi, hs, trail, Quiet]
    · simp [hi, hs, trail, Quiet]
  · exact fun i _ => h.callers i
  · simp [h.lock]

/-- What both kinds of entry do to states and callers. -/
structure Entered (d e : Db n) (k : Fin n) : Prop where
  running : e.runningPartitionIdx = k
  active : Active (e.part k).partitionState
  caller : (e.part k).callerPartitionIdx = some d.runningPartitionIdx
  waits : d.runningPartitionIdx ≠ k →
    (e.part d.runningPartitionIdx).partitionState = .suspended ∨
      (e.part d.runningPartitionIdx).partitionState = .blocked
  callers : ∀ i, i ≠ k → (e.part i).callerPartitionIdx = (d.part i).callerPartitionIdx
  states : ∀ i, i ≠ k → i ≠ d.runningPartitionIdx →
    (e.part i).partitionState = (d.part i).partitionState

theorem entered_call {k : Fin n} (hr : (d.part d.runningPartitionIdx).partitionState = .running)
    (hi : (d.part k).partitionState = .idle) : Entered d (enterCall d k) k := by
  have hk : k ≠ d.runningPartitionIdx := by
    intro he
    rw [he, hr] at hi
    cases hi
  have hpart := enterCall_part d hk
  constructor
  · rfl
  · rw [hpart, if_pos rfl]
    exact .inl rfl
  · rw [hpart, if_pos rfl]
  · intro hne
    rw [hpart, if_neg hne, if_pos rfl]
    exact .inr rfl
  · intro i hik
    rw [hpart, if_neg hik]
    split
    · rfl
    · rfl
  · intro i hik hir
    rw [hpart, if_neg hik, if_neg hir]

theorem entered_irq (d : Db n) (k : Fin n) : Entered d (enterIrq d k) k := by
  have hpart := enterIrq_part d k
  constructor
  · rfl
  · rw [hpart, if_pos rfl]
    exact .inr rfl
  · rw [hpart, if_pos rfl]
  · intro hne
    rw [hpart, if_neg hne, if_pos rfl]
    exact .inl rfl
  · intro i hik
    rw [hpart, if_neg hik]
    split
    · rfl
    · rfl
  · intro i hik hir
    rw [hpart, if_neg hik, if_neg hir]

theorem not_active_of_waits {st : PartState} (h : st = .suspended ∨ st = .blocked) :
    ¬ Active st ∧ ¬ Quiet st := by
  obtain rfl | rfl := h
  · exact ⟨by decide, by simp [Quiet]⟩
  · exact ⟨by decide, by simp [Quiet]⟩

theorem not_quiet_of_active {st : PartState} (h : Active st) : ¬ Quiet st := by
  obtain rfl | rfl := h
  · simp [Quiet]
  · simp [Quiet]

theorem nestInv_entered {e : Db n} {k : Fin n} {f : Frame n} (h : NestInv d fs)
    (he : Entered d e k) (hf : f.before = d)
    (hl : e.secureLock = d.secureLock + if f.isCall then 1 else 0) : NestInv e (f :: fs) := by
  have hrun : ¬ Quiet (d.part d.runningPartitionIdx).partitionState :=
    not_quiet_of_active ((h.active _).2 rfl)
  constructor
  · intro i
    rw [he.running]
    by_cases hik : i = k
    · exact iff_of_true (hik ▸ he.active) hik
    · refine iff_of_false ?_ hik
      by_cases hir : i = d.runningPartitionIdx
      · subst hir
        exact (not_active_of_waits (he.waits hik)).1
      · rw [he.states i hik hir]
        exact fun ha => hir ((h.active i).1 ha)
  · intro i
    rw [trail_cons he.running hf, List.mem_cons, h.engaged i]
    by_cases hik : i = k
    · exact iff_of_true (.inl hik) (hik ▸ not_quiet_of_active he.active)
    · by_cases hir : i = d.runningPartitionIdx
      · subst hir
        exact iff_of_true (.inr hrun) (not_active_of_waits (he.waits hik)).2
      · rw [he.states i hik hir]
        simp [hik]
  · intro i hq
    by_cases hik : i = k
    · exact absurd (hik ▸ hq) (not_quiet_of_active he.active)
    · rw [he.callers i hik]
      by_cases hir : i = d.runningPartitionIdx
      · subst hir
        exact absurd hq (not_active_of_waits (he.waits hik)).2
      · exact h.quiet i (he.states i hik hir ▸ hq)
  · rw [hl, h.lock, List.filter_cons]
    split
    · simp
    · simp

theorem Nested.inv (h : Nested d fs) : NestInv d fs := by
  induction h with
  | boot h => exact nestInv_boot h
  | call _ hr hi ih => exact nestInv_entered ih (entered_call hr hi) rfl rfl
  | irq _ _ _ ih => exact nestInv_entered ih (entered_irq _ _) rfl (Int.add_zero _).symm

/-! ## Returns -/

/-- The innermost entry can be returned from, and the return brings back the
database of before. -/
theorem Nested.ret (st : Static n) {b : Db n} (h : Nested s.db (.call b :: fs)) :
    ∃ ctx, tfmReturnFromPartition st s = .ok ({ s with db := b }, ctx) := by
  generalize hd : s.db = d at h
  cases h with
  | call h hr hi =>
    refine return_enterCall hd ?_ hr hi (h.inv.quiet _ (.inr (.inl hi)))
    intro he
    rw [he, hr] at hi
    cases hi

theorem Nested.irqRet {b : Db n} {k : Fin n} (h : Nested s.db (.irq b k :: fs)) :
    tfmReturnFromPartitionIrqHandling s = some { s with db := b } := by
  generalize hd : s.db = d at h
  cases h with
  | irq h _ _ => exact return_enterIrq hd ((h.inv.active _).2 rfl)

theorem Nested.before {f : Frame n} (h : Nested d (f :: fs)) : Nested f.before fs := by
  cases h with
  | call h _ _ => exact h
  | irq h _ _ => exact h

theorem nested_step {l : Lbl n} (h : Nested s.db s.nest) (hs : step st s l = some s') :
    Nested s'.db s'.nest := by
  cases l with
  | call r =>
    simp only [step] at hs
    split at hs
    · next hst =>
      cases hs
      obtain ⟨hr, hi, hdb⟩ := tfmStartPartition_ok hst
      dsimp only
      rw [hdb]
      exact .call h hr hi
    · cases hs
  | ret =>
    simp only [step] at hs
    split at hs
    · next hn hret =>
      cases hs
      rw [hn] at h
      obtain ⟨ctx, hok⟩ := h.ret st
      rw [hok] at hret
      cases hret
      exact h.before
    · cases hs
  | irq k sig =>
    simp only [step] at hs
    split at hs
    · next hst =>
      cases hs
      obtain ⟨hu, hc, hdb⟩ := tfmStartPartitionForIrqHandling_ok hst
      dsimp only
      rw [hdb]
      exact .irq h hu hc
    · cases hs
  | irqRet =>
    simp only [step] at hs
    split at hs
    · next hn hret =>
      cases hs
      rw [hn] at h
      rw [h.irqRet] at hret
      cases hret
      exact h.before
    · cases hs

theorem nested_reachable (h : (lts st).Reachable s) : Nested s.db s.nest := by
  refine LTS.Inductive.reachable (I := fun s => Nested s.db s.nest) ⟨?_, ?_⟩ s h
  · intro s ⟨hb, hn⟩
    rw [hn]
    exact .boot hb
  · intro s l s' hi hs
    exact nested_step hi hs

/-! ## The chain of callers -/

/-- `caller_partition_idx`, followed from the running partition. -/
def callerChain (d : Db n) : Nat → Option (Fin n)
  | 0 => some d.runningPartitionIdx
  | k + 1 => (callerChain d k).bind fun i => (d.part i).callerPartitionIdx

/-- An interrupt found its handler partition idle. -/
def Frame.Fresh : Frame n → Prop
  | .call _ => True
  | .irq d k => (d.part k).partitionState = .idle

theorem callerChain_some_of_le {i j : Nat} (hij : i ≤ j) (h : callerChain d j ≠ none) :
    callerChain d i ≠ none := by
  induction j with
  | zero =>
    rw [Nat.le_zero.1 hij]
    exact h
  | succ j ih =>
    obtain rfl | hlt := Nat.eq_or_lt_of_le hij
    · exact h
    · refine ih (Nat.le_of_lt_succ hlt) fun hn => h ?_
      simp [callerChain, hn]

/-- The partition entered is new: the chain gets longer by one. -/
theorem callerChain_new {e : Db n} {k : Fin n} (he : Entered d e k)
    (hk : ∀ j, callerChain d j ≠ some k) (j : Nat) :
    callerChain e (j + 1) = callerChain d j := by
  induction j with
  | zero => simp [callerChain, he.running, he.caller]
  | succ j ih =>
    rw [callerChain, ih, callerChain]
    cases hc : callerChain d j with
    | none => rfl
    | some i =>
      have hik : i ≠ k := fun h => hk j (h ▸ hc)
      exact he.callers i hik

/-- A set of partitions that the chain does not leave. -/
theorem callerChain_stays {P : Fin n → Prop} (h0 : P d.runningPartitionIdx)
    (hP : ∀ i, P i → ∃ j, (d.part i).callerPartitionIdx = some j ∧ P j) (k : Nat) :
    ∃ i, callerChain d k = some i ∧ P i := by
  induction k with
  | zero => exact ⟨_, rfl, h0⟩
  | succ k ih =>
    obtain ⟨i, hi, hPi⟩ := ih
    obtain ⟨j, hj, hPj⟩ := hP i hPi
    exact ⟨j, by rw [callerChain, hi]; exact hj, hPj⟩

/-- A chain without end has none after the next entry either. -/
theorem callerChain_endless {e : Db n} {k : Fin n} (he : Entered d e k)
    (h : ∀ j, callerChain d j ≠ none) (j : Nat) : callerChain e j ≠ none := by
  have hstay := callerChain_stays (d := e) (P := fun i => i = k ∨ ∃ m, callerChain d m = some i)
    (.inl he.running) ?_ j
  · obtain ⟨i, hi, _⟩ := hstay
    simp [hi]
  · intro i hi
    by_cases hik : i = k
    · subst hik
      exact ⟨_, he.caller, .inr ⟨0, rfl⟩⟩
    · obtain ⟨m, hm⟩ := hi.resolve_left hik
      obtain ⟨x, hx⟩ := Option.ne_none_iff_exists'.1 (h (m + 1))
      refine ⟨x, ?_, .inr ⟨m + 1, hx⟩⟩
      rw [callerChain, hm] at hx
      exact (he.callers i hik).trans hx

/-- Entering a partition of the chain closes a cycle. -/
theorem callerChain_cycle {e : Db n} {k : Fin n} {m : Nat} (he : Entered d e k)
    (hm : callerChain d m = some k) (j : Nat) : callerChain e j ≠ none := by
  have hstay := callerChain_stays (d := e) (P := fun i => ∃ a ≤ m, callerChain d a = some i)
    ⟨m, Nat.le_refl m, he.running ▸ hm⟩ ?_ j
  · obtain ⟨i, hi, _⟩ := hstay
    simp [hi]
  · intro i ⟨a, ha, hai⟩
    by_cases hik : i = k
    · subst hik
      exact ⟨_, he.caller, 0, Nat.zero_le m, rfl⟩
    · have hlt : a + 1 ≤ m := by
        refine Nat.lt_of_le_of_ne ha fun h => hik ?_
        subst h
        exact Option.some.inj (hai.symm.trans hm)
      obtain ⟨x, hx⟩ := Option.ne_none_iff_exists'.1
        (callerChain_some_of_le (d := d) hlt (by simp [hm]))
      refine ⟨x, ?_, a + 1, hlt, hx⟩
      rw [callerChain, hai] at hx
      exact (he.callers i hik).trans hx

/-- As long as every handler was idle, the chain is the trail. -/
def Direct (d : Db n) (fs : List (Frame n)) : Prop :=
  (trail d fs).Nodup ∧ ∀ j, callerChain d j = (trail d fs)[j]?

theorem direct_entered {e : Db n} {k : Fin n} {f : Frame n} (h : Direct d fs) (hi : NestInv d fs)
    (he : Entered d e k) (hf : f.before = d) (hk : Quiet (d.part k).partitionState) :
    Direct e (f :: fs) := by
  have hnew : k ∉ trail d fs := fun hm => (hi.engaged k).1 hm hk
  have htrail : trail e (f :: fs) = k :: trail d fs := trail_cons he.running hf
  refine ⟨?_, fun j => ?_⟩
  · rw [htrail]
    exact List.nodup_cons.2 ⟨hnew, h.1⟩
  · rw [htrail]
    cases j with
    | zero => simp [callerChain, he.running]
    | succ j =>
      rw [callerChain_new he (fun m hm => hnew ?_), h.2 j, List.getElem?_cons_succ]
      rw [h.2 m] at hm
      exact List.mem_of_getElem? hm

theorem Nested.chain (h : Nested d fs) :
    ((∀ f ∈ fs, f.Fresh) → Direct d fs) ∧
      ((∃ f ∈ fs, ¬ f.Fresh) → ∀ j, callerChain d j ≠ none) := by
  induction h with
  | @boot d h =>
    refine ⟨fun _ => ⟨List.nodup_singleton _, fun j => ?_⟩, fun ⟨f, hf, _⟩ => by cases hf⟩
    have h1 : callerChain d 1 = none := by simp [callerChain, h.callers]
    cases j with
    | zero => rfl
    | succ j =>
      have hnone : callerChain d (j + 1) = none := by
        by_contra hc
        exact callerChain_some_of_le (Nat.succ_le_succ (Nat.zero_le j)) hc h1
      rw [hnone]
      simp [trail]
  | @call d fs k h hr hi ih =>
    have he := entered_call hr hi
    refine ⟨fun hf => ?_, fun ⟨f, hf, hnf⟩ => ?_⟩
    · exact direct_entered (ih.1 fun f hm => hf f (List.mem_cons_of_mem _ hm)) h.inv he rfl
        (.inr (.inl hi))
    · obtain rfl | hf := List.mem_cons.1 hf
      · exact absurd trivial hnf
      · exact callerChain_endless he (ih.2 ⟨f, hf, hnf⟩)
  | @irq d fs k h hu hc ih =>
    have he := entered_irq d k
    refine ⟨fun hf => ?_, fun ⟨f, hf, hnf⟩ => ?_⟩
    · exact direct_entered (ih.1 fun f hm => hf f (List.mem_cons_of_mem _ hm)) h.inv he rfl
        (.inr (.inl (hf _ (List.mem_cons_self ..))))
    · by_cases hall : ∀ f ∈ fs, f.Fresh
      · obtain rfl | hf := List.mem_cons.1 hf
        · -- the handler is on the trail, which the chain follows
          have hm : k ∈ trail d fs := by
            rw [h.inv.engaged k]
            intro hq
            obtain hq | hq | hq := hq
            · exact hu hq
            · exact hnf hq
            · exact hc hq
          obtain ⟨m, hm⟩ := List.mem_iff_getElem?.1 hm
          exact callerChain_cycle he (((ih.1 hall).2 m).trans hm)
        · exact absurd (hall f hf) hnf
      · push Not at hall
        exact callerChain_endless he (ih.2 hall)

/-! ## Results -/

/-- The chain of callers ends. -/
def ChainEnds (d : Db n) : Prop := ∃ k, callerChain d k = none

/-- The partitions behind the running one in a chain that ends. -/
theorem Nested.chain_waits (h : Nested d fs) (hf : ∀ f ∈ fs, f.Fresh) {j : Nat} {i : Fin n}
    (hi : callerChain d (j + 1) = some i) :
    (d.part i).partitionState = .suspended ∨ (d.part i).partitionState = .blocked := by
  obtain ⟨hnodup, hchain⟩ := h.chain.1 hf
  rw [hchain, trail, List.getElem?_cons_succ] at hi
  have hmem := List.mem_of_getElem? hi
  have hne : i ≠ d.runningPartitionIdx := by
    intro he
    rw [he] at hmem
    exact (List.nodup_cons.1 hnodup).1 hmem
  have hna : ¬ Active (d.part i).partitionState := fun ha => hne ((h.inv.active i).1 ha)
  have hnq := (h.inv.engaged i).1 (List.mem_cons_of_mem _ hmem)
  cases hst : (d.part i).partitionState with
  | suspended => exact .inl rfl
  | blocked => exact .inr rfl
  | uninit => exact absurd (.inl hst) hnq
  | idle => exact absurd (.inr (.inl hst)) hnq
  | closed => exact absurd (.inr (.inr hst)) hnq
  | running => exact absurd (.inl hst) hna
  | handlingIrq => exact absurd (.inr hst) hna

/-- **Nesting**: in every state of a well-nested run, the running partition is the
one that is running or handling an interrupt, and no other is; the lock counts the
calls under way; the innermost entry can be returned from, and then the database
is as it was before; and the chain of callers ends exactly if every interrupt
under way found its handler partition idle, and then goes through suspended and
blocked partitions. -/
theorem nesting_sound (h : (lts st).Reachable s) :
    (∀ i, Active (s.db.part i).partitionState ↔ i = s.db.runningPartitionIdx) ∧
    s.db.secureLock = (s.nest.filter Frame.isCall).length ∧
    (ChainEnds s.db ↔ ∀ f ∈ s.nest, f.Fresh) ∧
    (ChainEnds s.db → ∀ j i, callerChain s.db (j + 1) = some i →
      (s.db.part i).partitionState = .suspended ∨ (s.db.part i).partitionState = .blocked) ∧
    ∀ f rest, s.nest = f :: rest → ∃ s' l, l = (if f.isCall then Lbl.ret else .irqRet) ∧
      step st s l = some s' ∧ s'.db = f.before ∧ s'.nest = rest := by
  have hn := nested_reachable h
  have hends : ChainEnds s.db ↔ ∀ f ∈ s.nest, f.Fresh := by
    constructor
    · intro ⟨k, hk⟩
      by_contra hc
      push Not at hc
      exact hn.chain.2 hc k hk
    · intro hf
      refine ⟨(trail s.db s.nest).length, ?_⟩
      rw [(hn.chain.1 hf).2]
      exact List.getElem?_eq_none (Nat.le_refl _)
  refine ⟨hn.inv.active, hn.inv.lock, hends, fun he j i hi => hn.chain_waits (hends.1 he) hi,
    fun f rest hf => ?_⟩
  rw [hf] at hn
  cases f with
  | call b =>
    obtain ⟨ctx, hret⟩ := hn.ret st
    exact ⟨{ s with db := b, nest := rest }, .ret, rfl, by simp [step, hf, hret], rfl, rfl⟩
  | irq b k =>
    exact ⟨{ s with db := b, nest := rest }, .irqRet, rfl, by simp [step, hf, hn.irqRet], rfl, rfl⟩

/-- Two partitions beside the non-secure one. -/
def exStatic : Static 3 := ⟨fun i => decide (i ≠ 0), fun i => i.val⟩

def exBoot : St 3 where
  db := ⟨fun i => ⟨if i = 0 then .running else .idle, none, []⟩, 0, 0⟩
  ctx _ := ⟨0, 0, 0, 0⟩
  nest := []

theorem boot_exBoot : Boot exBoot.db := by
  constructor <;> decide

/-- A call from the non-secure side. -/
def exCall (k : Fin 3) : Lbl 3 := .call ⟨k, true, 0, 0, -1, true⟩

/-- An interrupt during a call, handled by a partition that was idle: the chain
goes from the handler to the callee to the non-secure partition. -/
theorem nesting_sound_interrupted_call : ∃ s : St 3, s.db.runningPartitionIdx = 2 ∧
    s.db.secureLock = 1 ∧ callerChain s.db 1 = some 1 ∧ callerChain s.db 2 = some 0 ∧
    callerChain s.db 3 = none ∧ (ChainEnds s.db ↔ ∀ f ∈ s.nest, f.Fresh) := by
  have he : (LTS.exec (step exStatic) exBoot [exCall 1, .irq 2 16]).map
      (fun s => (s.db.runningPartitionIdx, s.db.secureLock, callerChain s.db 1,
        callerChain s.db 2, callerChain s.db 3)) = some (2, 1, some 1, some 0, none) := by
    decide +kernel
  obtain ⟨s, hs, hv⟩ := Option.map_eq_some_iff.1 he
  simp only [Prod.mk.injEq] at hv
  obtain ⟨h1, h2, h3, h4, h5⟩ := hv
  exact ⟨s, h1, h2, h3, h4, h5,
    (nesting_sound (LTS.reachable_exec _ (.init ⟨boot_exBoot, rfl⟩) hs)).2.2.1⟩

/-- **Counterexample**: an interrupt handled by the partition it interrupts makes
that partition its own caller. -/
theorem chain_has_cycle : ∃ s : St 3, (lts exStatic).Reachable s ∧
    callerChain s.db 1 = some s.db.runningPartitionIdx ∧ ¬ ChainEnds s.db := by
  have he : (LTS.exec (step exStatic) exBoot [exCall 1, .irq 1 16]).map
      (fun s => (s.db.runningPartitionIdx, (s.db.part 1).callerPartitionIdx)) =
      some (1, some 1) := by
    decide +kernel
  obtain ⟨s, hs, hv⟩ := Option.map_eq_some_iff.1 he
  simp only [Prod.mk.injEq] at hv
  obtain ⟨hrun, hcaller⟩ := hv
  have hchain : ∀ k, callerChain s.db k = some 1 := by
    intro k
    induction k with
    | zero => exact congrArg some hrun
    | succ k ih =>
      rw [callerChain, ih]
      exact hcaller
  refine ⟨s, LTS.reachable_exec _ (.init ⟨boot_exBoot, rfl⟩) hs, by rw [hchain, hrun],
    fun ⟨k, hk⟩ => ?_⟩
  rw [hchain k] at hk
  cases hk

end Tfm.L4.SpmFunc
