import Tfm.L4Service.Spm

/-!
# SPM: what one step can do

`Trans` lists the effects a step can have on the state, guards included, and
`step_trans` says that every step has one of them. The invariants of the
connection handles, of the messages and of the message types are proved by
cases on `Trans` and never unfold the client and service calls again.

Also here: the walk of `psa_get` over a message list that is one
(`findMsg_spec`).
-/
namespace Tfm.L4.Spm
open Tfm.BiList

variable {nS nP : Nat}

/-- The client, arguments and caller data of a `psa_call`, by either entry. -/
def Lbl.callReq : Lbl nP → Option (Caller nP × CallArgs × Option Nat)
  | .callSvc c _ _ a cd => some (c, a, cd)
  | .callRpc c a cd => some (.ns c, a, cd)
  | _ => none

/-- The checks of a `psa_call` that do not look at the SPM's state. -/
def Lbl.vetted (db : Db nS nP) : Lbl nP → Bool
  | .callSvc c pr ctrl a _ =>
    memoryCheck db ctrl 12 c.isNs true pr && decide (0 ≤ a.type) && a.countsOk &&
      vecsOk db a c.isNs pr
  | .callRpc _ a _ => a.countsOk && vecsOk db a true false
  | _ => true

/-- The chunk of a connection handle that passes the SPM's checks for the
client, `pass` being the check of its status. -/
def connTarget (s : St nS nP) (h : UInt32) (clientId : Int) (pass : Status → Bool) :
    Option Chunk :=
  if (staticIndex h).isSome then none
  else
    match validateConnHandle s h clientId with
    | some k => if pass (s.conn k).status && (s.conn k).service.isSome then some k else none
    | none => none

/-- The checks of a `psa_call` on its handle. -/
def handleOk (db : Db nS nP) (s : St nS nP) (caller : Caller nP) (h : UInt32) : Bool :=
  match staticIndex h with
  | some index =>
    match db.stateless index with
    | none => false
    | some v =>
      checkAuthorization db (db.service v).sid v caller &&
        checkClientVersion db v (staticVersion h) && (poolAlloc s).isSome
  | none => (connTarget s h (caller.id db) (· == .idle)).isSome

/-- A call with the static handle of a stateless service gets its chunk, and then
its vectors are refused. -/
def statelessBadVecs (db : Db nS nP) (s : St nS nP) (c : Caller nP) (pr : Bool) (a : CallArgs) :
    Bool :=
  a.countsOk && (staticIndex a.handle).isSome && handleOk db s c a.handle &&
    !vecsOk db a c.isNs pr

/-- The call takes a chunk and is refused. -/
def leaks (db : Db nS nP) (s : St nS nP) : Lbl nP → Bool
  | .callSvc c pr ctrl a _ =>
    memoryCheck db ctrl 12 c.isNs true pr && decide (0 ≤ a.type) && statelessBadVecs db s c pr a
  | .callRpc c a _ => statelessBadVecs db s (.ns c) false a
  | _ => false

/-- The state after a chunk was created for a stateless call. -/
def statelessConn (s : St nS nP) (k : Chunk) : St nS nP :=
  { s.setConn k (fun c => { c with rhandle := 0 }) with loopIndex := nextLoopIndex s.loopIndex }

/-- The state after `psa_get` took chunk `k` from its list. -/
def taken (s : St nS nP) (p : Fin nP) (signal : Nat) (m : Links (Node (Fin nP))) (clear : Bool)
    (k : Chunk) : St nS nP :=
  let s₁ := { s with
    msgs := m
    asserted := if clear then Function.update s.asserted p
      (Function.update (s.asserted p) signal false) else s.asserted }
  { s₁.setConn k (fun c => { c with status := .active }) with
    busy := Function.update s.busy k (.delivered (s.conn k).internalMsg.rid)
    delivered := (s.conn k).internalMsg.rid :: s.delivered }

/-- The state after `psa_reply` answered the message of chunk `k`; `s₁` is the
state after the switch on its type. -/
def replied (s s₁ : St nS nP) (k : Chunk) (ret : Int) : St nS nP :=
  { s₁.setConn k (fun c => { c with
      status := if ret = psaErrorProgrammerError then .connectError else .idle }) with
    busy := Function.update s.busy k .idle
    answered := (s.conn k).internalMsg.rid :: s.answered }

inductive Trans (db : Db nS nP) (s : St nS nP) : Lbl nP → St nS nP → Prop
  /-- refused, ignored, nothing to get, or a panic -/
  | stay (l : Lbl nP) (b : Bool) : Trans db s l { s with panicked := b }
  | connect {c : Caller nP} {sid version : Nat} {cd : Option Nat} {v : Fin nS} {k : Chunk}
      {s₁ : St nS nP} (hb : (db.service v).connectionBased = true)
      (hn : createConnHandle s v (c.id db) = some (k, s₁)) :
      Trans db s (.connect c sid version cd)
        (sendEvent db (fillMsg { s₁ with loopIndex := nextLoopIndex s₁.loopIndex } k v
          (toUserHandle k (nextLoopIndex s₁.loopIndex)) ipcConnect (c.id db) [] [] 0 cd .connect)
          v k)
  | call {l : Lbl nP} {c : Caller nP} {a : CallArgs} {cd : Option Nat} {k : Chunk} {v : Fin nS}
      (hq : l.callReq = some (c, a, cd)) (hvet : l.vetted db = true)
      (hs : staticIndex a.handle = none) (hk : validateConnHandle s a.handle (c.id db) = some k)
      (hst : (s.conn k).status = .idle) (hv : (s.conn k).service = some v) :
      Trans db s l (sendEvent db (fillMsg s k v a.handle a.type (c.id db) a.invecs a.outvecs
        a.outptr cd .call) v k)
  | callStatic {l : Lbl nP} {c : Caller nP} {a : CallArgs} {cd : Option Nat} {k : Chunk}
      {v : Fin nS} {s₁ : St nS nP} (hq : l.callReq = some (c, a, cd))
      (hvet : l.vetted db = true) (hok : handleOk db s c a.handle = true)
      (hs : ∃ i, staticIndex a.handle = some i ∧ db.stateless i = some v)
      (hn : createConnHandle s v (c.id db) = some (k, s₁)) :
      Trans db s l (sendEvent db (fillMsg (statelessConn s₁ k) k v
        (toUserHandle k (nextLoopIndex s₁.loopIndex)) a.type (c.id db) a.invecs a.outvecs
        a.outptr cd .call) v k)
  /-- a stateless call refused for its vectors: its chunk is not freed -/
  | leak {l : Lbl nP} {c : Caller nP} {k : Chunk} {v : Fin nS} {s₁ : St nS nP} (b : Bool)
      (hl : leaks db s l = true)
      (hn : createConnHandle s v (c.id db) = some (k, s₁)) :
      Trans db s l { statelessConn s₁ k with panicked := b }
  | close {c : Caller nP} {h : UInt32} {cd : Option Nat} {k : Chunk} {v : Fin nS}
      (hs : staticIndex h = none) (hk : validateConnHandle s h (c.id db) = some k)
      (hst : (s.conn k).status ≠ .active) (hv : (s.conn k).service = some v) :
      Trans db s (.close c h cd)
        { sendEvent db (fillMsg s k v h ipcDisconnect (c.id db) [] [] 0 cd .close) v k with
          granted := s.granted.filter (· != (c.id db, h)) }
  | get {p : Fin nP} {signal : Nat} {ok clear : Bool} {m : Links (Node (Fin nP))} {k : Chunk}
      (ha : s.asserted p signal = true) (hne : isEmpty s.msgs (.head p) = false)
      (hf : findMsg db s.conn p signal walkFuel s.msgs (s.msgs.next (.head p)) none =
        some (m, some k, clear)) :
      Trans db s (.get p signal ok) (taken s p signal m clear k)
  | getNone {p : Fin nP} {signal : Nat} {ok clear : Bool} {m : Links (Node (Fin nP))}
      (ha : s.asserted p signal = true) (hne : isEmpty s.msgs (.head p) = false)
      (hf : findMsg db s.conn p signal walkFuel s.msgs (s.msgs.next (.head p)) none =
        some (m, none, clear)) :
      Trans db s (.get p signal ok) { s with
        msgs := m
        asserted := if clear then Function.update s.asserted p
          (Function.update (s.asserted p) signal false) else s.asserted }
  | reply {p : Fin nP} {h : UInt32} {st ret : Int} {k : Chunk} {v : Fin nS} {s₁ : St nS nP}
      (hg : getMsgFromHandle db s p h = some (k, v))
      (hr : replyByType db s k v h st = some (s₁, ret)) :
      Trans db s (.reply p h st) (replied s s₁ k ret)

/-! ## Client calls -/

theorem finish_eq (s : St nS nP) (o : Outcome) :
    ∃ b, finish (s, o) = { s with panicked := b } := by
  unfold finish
  split
  · exact ⟨true, rfl⟩
  · exact ⟨s.panicked, rfl⟩

theorem finish_accepted (s : St nS nP) : finish (s, .accepted) = s := rfl

theorem trans_stay (db : Db nS nP) (s : St nS nP) (l : Lbl nP) (o : Outcome) :
    Trans db s l (finish (s, o)) := by
  obtain ⟨b, hb⟩ := finish_eq s o
  rw [hb]
  exact .stay l b

theorem connect_trans (db : Db nS nP) (s : St nS nP) (c : Caller nP) (sid version : Nat)
    (cd : Option Nat) :
    Trans db s (.connect c sid version cd) (finish (clientPsaConnect db s c sid version cd)) := by
  unfold clientPsaConnect
  split
  · exact trans_stay ..
  · rename_i v hv
    split
    · exact trans_stay ..
    · split
      · exact trans_stay ..
      · split
        · exact trans_stay ..
        · rename_i hb
          have hb : (db.service v).connectionBased = true := by simpa using hb
          split
          · exact trans_stay ..
          · rename_i k s₁ hn
            rw [finish_accepted]
            exact .connect hb hn

theorem connTarget_eq {s : St nS nP} {h : UInt32} {c : Int} {k : Chunk} {v : Fin nS}
    {pass : Status → Bool} (hs : staticIndex h = none) (hk : validateConnHandle s h c = some k)
    (hst : pass (s.conn k).status = true) (hv : (s.conn k).service = some v) :
    connTarget s h c pass = some k := by
  simp [connTarget, hs, hk, hst, hv]

theorem createConnHandle_isSome (s : St nS nP) (v : Fin nS) (c : Int) :
    (createConnHandle s v c).isSome = (poolAlloc s).isSome := by
  unfold createConnHandle
  split
  · rename_i ha
    rw [ha]
  · rename_i ha
    rw [ha]
    rfl

/-- What `resolveHandle` can find: it succeeds just when the handle passes the
checks. -/
theorem resolveHandle_cases (db : Db nS nP) (s : St nS nP) (c : Caller nP) (h : UInt32) :
    (∃ o, o ≠ .accepted ∧ handleOk db s c h = false ∧
      resolveHandle db s c h = (s, .error o)) ∨
    (∃ v k s₁, (∃ i, staticIndex h = some i ∧ db.stateless i = some v) ∧
      handleOk db s c h = true ∧ createConnHandle s v (c.id db) = some (k, s₁) ∧
      resolveHandle db s c h =
        (statelessConn s₁ k, .ok (k, v, toUserHandle k (nextLoopIndex s₁.loopIndex)))) ∨
    (∃ v k, staticIndex h = none ∧ validateConnHandle s h (c.id db) = some k ∧
      (s.conn k).status = .idle ∧ (s.conn k).service = some v ∧ handleOk db s c h = true ∧
      resolveHandle db s c h = (s, .ok (k, v, h))) := by
  have hpe : ∀ e, programmerError c.isNs e ≠ .accepted := by
    intro e
    unfold programmerError
    split <;> simp
  unfold resolveHandle
  split
  · rename_i i hi
    split
    · rename_i hst
      exact .inl ⟨_, by simp, by simp [handleOk, hi, hst], rfl⟩
    · rename_i v hst
      split
      · rename_i hau
        exact .inl ⟨_, hpe _, by simp_all [handleOk], rfl⟩
      · rename_i hau
        split
        · rename_i hver
          exact .inl ⟨_, hpe _, by simp_all [handleOk], rfl⟩
        · rename_i hver
          have hsome := createConnHandle_isSome s v (c.id db)
          split
          · rename_i hn
            rw [hn, Option.isSome_none] at hsome
            exact .inl ⟨_, hpe _, by simp [handleOk, hi, hst, ← hsome], rfl⟩
          · rename_i k s₁ hn
            rw [hn, Option.isSome_some] at hsome
            simp only [Bool.not_eq_eq_eq_not, Bool.not_true, Bool.not_eq_false] at hau hver
            refine .inr (.inl ⟨v, k, s₁, ⟨i, hi, hst⟩, ?_, hn, rfl⟩)
            simp [handleOk, hi, hst, hau, hver, ← hsome]
  · rename_i hi
    split
    · rename_i hk
      exact .inl ⟨_, hpe _, by simp [handleOk, connTarget, hi, hk], rfl⟩
    · rename_i k hk
      split
      · rename_i hst
        exact .inl ⟨_, hpe _, by simp [handleOk, connTarget, hi, hk, hst], rfl⟩
      · rename_i hst
        exact .inl ⟨_, by simp, by simp [handleOk, connTarget, hi, hk, hst], rfl⟩
      · rename_i hst
        split
        · rename_i hv
          exact .inl ⟨_, by simp, by simp [handleOk, connTarget, hi, hk, hv], rfl⟩
        · rename_i v hv
          have hct : connTarget s h (c.id db) (· == .idle) = some k :=
            connTarget_eq hi hk (by simp [hst]) hv
          refine .inr (.inr ⟨v, k, hi, hk, hst, hv, ?_, rfl⟩)
          simp [handleOk, hi, hct]

theorem call_trans {db : Db nS nP} {s : St nS nP} {l : Lbl nP} {c : Caller nP} {pr : Bool}
    {a : CallArgs} {cd : Option Nat} (hq : l.callReq = some (c, a, cd))
    (hvet : a.countsOk = true → vecsOk db a c.isNs pr = true → l.vetted db = true)
    (hleak : statelessBadVecs db s c pr a = true → leaks db s l = true) :
    Trans db s l (finish (clientPsaCall db s c pr a cd)) := by
  unfold clientPsaCall
  split
  · exact trans_stay ..
  · rename_i hcnt
    have hcnt : a.countsOk = true := by simpa using hcnt
    rcases resolveHandle_cases db s c a.handle with
      ⟨o, -, -, he⟩ | ⟨v, k, s₁, hsi, hok, hn, he⟩ | ⟨v, k, hi, hk, hst, hv, -, he⟩ <;> rw [he]
    · exact trans_stay ..
    · by_cases hvo : vecsOk db a c.isNs pr = true
      · simp only [hvo, Bool.not_true, Bool.false_eq_true, if_false, finish_accepted]
        exact .callStatic hq (hvet hcnt hvo) hok hsi hn
      · simp only [hvo, Bool.not_false, if_true]
        obtain ⟨b, hb⟩ := finish_eq (statelessConn s₁ k) (programmerError c.isNs .programmerError)
        rw [hb]
        obtain ⟨i, hi, -⟩ := hsi
        exact .leak b (hleak (by simp [statelessBadVecs, hcnt, hi, hok, hvo])) hn
    · by_cases hvo : vecsOk db a c.isNs pr = true
      · simp only [hvo, Bool.not_true, Bool.false_eq_true, if_false, finish_accepted]
        exact .call hq (hvet hcnt hvo) hi hk hst hv
      · simp only [hvo, Bool.not_false, if_true]
        exact trans_stay ..

theorem callSvc_trans (db : Db nS nP) (s : St nS nP) (c : Caller nP) (pr : Bool) (ctrl : Nat)
    (a : CallArgs) (cd : Option Nat) :
    Trans db s (.callSvc c pr ctrl a cd) (finish (spmPsaCall db s c pr ctrl a cd)) := by
  unfold spmPsaCall
  split
  · exact trans_stay ..
  · rename_i hm
    split
    · exact trans_stay ..
    · rename_i ht
      simp only [Bool.not_eq_eq_eq_not, Bool.not_true, Bool.not_eq_false] at hm
      refine call_trans rfl (fun hc hv => ?_) fun hb => ?_
      · simp [Lbl.vetted, hm, hc, hv, Int.not_lt.1 ht]
      · simp [leaks, hm, hb, Int.not_lt.1 ht]

theorem close_trans (db : Db nS nP) (s : St nS nP) (c : Caller nP) (h : UInt32)
    (cd : Option Nat) : Trans db s (.close c h cd) (finish (clientPsaClose db s c h cd)) := by
  unfold clientPsaClose
  split
  · exact trans_stay ..
  · split
    · exact trans_stay ..
    · rename_i hst
      have hst : staticIndex h = none := by simpa using hst
      split
      · exact trans_stay ..
      · rename_i k hk
        split
        · exact trans_stay ..
        · rename_i v hv
          split
          · exact trans_stay ..
          · rename_i hact
            rw [finish_accepted]
            exact .close hst hk hact hv

/-! ## Service calls -/

theorem get_trans {db : Db nS nP} {s s' : St nS nP} {p : Fin nP} {signal : Nat} {ok : Bool}
    (h : (psaGet db s p signal ok).map Prod.fst = some s') :
    Trans db s (.get p signal ok) s' := by
  unfold psaGet at h
  split at h
  · simp only [Option.map_some, Option.some.injEq] at h
    exact h ▸ .stay _ true
  · rename_i ha
    have ha : s.asserted p signal = true := by
      simp only [Bool.or_eq_true, Bool.not_eq_eq_eq_not, Bool.not_true, not_or,
        Bool.not_eq_false] at ha
      exact ha.2
    split at h
    · simp only [Option.map_some, Option.some.injEq] at h
      subst h
      exact .stay _ s.panicked
    · rename_i hne
      have hne : isEmpty s.msgs (.head p) = false := by simpa using hne
      split at h
      · simp at h
      · rename_i m msg clear hf
        cases msg with
        | none =>
          simp only [Option.map_some, Option.some.injEq] at h
          exact h ▸ .getNone ha hne hf
        | some k =>
          simp only [Option.map_some, Option.some.injEq] at h
          exact h ▸ .get ha hne hf

theorem reply_trans (db : Db nS nP) (s : St nS nP) (p : Fin nP) (h : UInt32) (st : Int) :
    Trans db s (.reply p h st) (psaReply db s p h st) := by
  unfold psaReply
  split
  · exact .stay _ true
  · rename_i k v hg
    split
    · exact .stay _ true
    · rename_i s₁ ret hr
      dsimp only
      split
      · exact .stay _ true
      · exact .reply hg hr

/-- What the switch of `psa_reply` can do, by message type. -/
theorem replyByType_cases {db : Db nS nP} {s s₁ : St nS nP} {k : Chunk} {v : Fin nS}
    {h : UInt32} {st ret : Int} (hr : replyByType db s k v h st = some (s₁, ret)) :
    ((s.conn k).internalMsg.type = ipcConnect ∧ st = psaSuccess ∧
      s₁ = { s with granted := ((s.conn k).internalMsg.clientId, h) :: s.granted }) ∨
    ((s.conn k).internalMsg.type = ipcConnect ∧ st = psaErrorConnectionRefused ∧
      s₁ = freeConnHandle s k) ∨
    ((s.conn k).internalMsg.type = ipcConnect ∧ st = psaErrorConnectionBusy ∧ s₁ = s) ∨
    ((s.conn k).internalMsg.type = ipcDisconnect ∧ s₁ = freeConnHandle s k) ∨
    (0 ≤ (s.conn k).internalMsg.type ∧ (db.service v).connectionBased = true ∧ s₁ = s) ∨
    (0 ≤ (s.conn k).internalMsg.type ∧ (db.service v).connectionBased = false ∧
      s₁ = freeConnHandle s k) := by
  simp only [replyByType] at hr
  split at hr
  · rename_i ht
    split at hr
    · rename_i hst
      cases hr
      exact .inl ⟨ht, hst, rfl⟩
    · split at hr
      · rename_i hst
        cases hr
        exact .inr (.inl ⟨ht, hst, rfl⟩)
      · split at hr
        · rename_i hst
          cases hr
          exact .inr (.inr (.inl ⟨ht, hst, rfl⟩))
        · cases hr
  · split at hr
    · rename_i ht
      cases hr
      exact .inr (.inr (.inr (.inl ⟨ht, rfl⟩)))
    · split at hr
      · rename_i ht
        split at hr
        · rename_i hb
          cases hr
          exact .inr (.inr (.inr (.inr (.inl ⟨ht, hb, rfl⟩))))
        · rename_i hb
          cases hr
          exact .inr (.inr (.inr (.inr (.inr ⟨ht, by simpa using hb, rfl⟩))))
      · cases hr

/-- `psa_reply` keeps the chunk, with at most one more handle granted, or frees it. -/
theorem replyByType_kept {db : Db nS nP} {s s₁ : St nS nP} {k : Chunk} {v : Fin nS}
    {h : UInt32} {st ret : Int} (hr : replyByType db s k v h st = some (s₁, ret)) :
    (∃ g, s₁ = { s with granted := g }) ∨ s₁ = freeConnHandle s k := by
  rcases replyByType_cases hr with ⟨-, -, he⟩ | ⟨-, -, he⟩ | ⟨-, -, he⟩ | ⟨-, he⟩ |
    ⟨-, -, he⟩ | ⟨-, -, he⟩
  · exact .inl ⟨_, he⟩
  · exact .inr he
  · exact .inl ⟨s.granted, he⟩
  · exact .inr he
  · exact .inl ⟨s.granted, he⟩
  · exact .inr he

/-- **Every step of the SPM has one of the effects of `Trans`.** -/
theorem step_trans {db : Db nS nP} {s s' : St nS nP} {l : Lbl nP}
    (h : step db s l = some s') : Trans db s l s' := by
  unfold step at h
  split at h
  · cases h
  · cases l with
    | connect c sid version cd => exact Option.some.inj h ▸ connect_trans db s c sid version cd
    | callSvc c pr ctrl a cd => exact Option.some.inj h ▸ callSvc_trans db s c pr ctrl a cd
    | callRpc c a cd =>
      refine Option.some.inj h ▸ call_trans rfl (fun hc hv => ?_) id
      have hv : vecsOk db a true false = true := hv
      simp [Lbl.vetted, hc, hv]
    | close c h' cd => exact Option.some.inj h ▸ close_trans db s c h' cd
    | get p signal ok => exact get_trans h
    | reply p h' st => exact Option.some.inj h ▸ reply_trans db s p h' st

/-! ## The walk of `psa_get` -/

/-- The signal of the service a chunk's message is for. -/
def signalOf (db : Db nS nP) (conn : Chunk → Conn nS) (k : Chunk) : Option Nat :=
  (conn k).internalMsg.service.map fun v => (db.service v).signal

section Walk

variable {db : Db nS nP} {conn : Chunk → Conn nS} {p : Fin nP} {signal : Nat}

/-- After a message was found, the walk looks for one more with the signal. -/
theorem findMsg_second {m : Links (Node (Fin nP))} (j : Chunk) (l : List Chunk)
    (hv : ∀ k ∈ l, (conn k).internalMsg.service ≠ none) :
    ∀ {node : Node (Fin nP)} {fuel : Nat}, Path m node (l.map .chunk) (.head p) →
      l.length < fuel → findMsg db conn p signal fuel m node (some j) =
        some (m, some j, l.all fun k => signalOf db conn k != some signal) := by
  induction l with
  | nil =>
    intro node fuel hp hf
    obtain ⟨fuel, rfl⟩ : ∃ f, fuel = f + 1 := ⟨fuel - 1, by simp at hf; omega⟩
    have hnode : node = .head p := hp
    simp [findMsg, hnode]
  | cons k l ih =>
    intro node fuel hp hf
    obtain ⟨fuel, rfl⟩ : ∃ f, fuel = f + 1 := ⟨fuel - 1, by simp at hf; omega⟩
    obtain ⟨rfl, hp⟩ := hp
    have hv' : ∀ k ∈ l, (conn k).internalMsg.service ≠ none :=
      fun x hx => hv x (List.mem_cons_of_mem _ hx)
    cases hsv : (conn k).internalMsg.service with
    | none => exact absurd hsv (hv k List.mem_cons_self)
    | some v =>
      by_cases hsig : (db.service v).signal = signal
      · simp [findMsg, hsv, hsig, signalOf]
      · have hrec := ih hv' hp (by simp at hf; omega : l.length < fuel)
        simp [findMsg, hsv, hsig, signalOf, hrec]

/-- The walk over the list `l₁ ++ l` from the first node of `l`, no node of
`l₁` having the signal. -/
theorem findMsg_first {m : Links (Node (Fin nP))} (l : List Chunk)
    (hv : ∀ k ∈ l, (conn k).internalMsg.service ≠ none) :
    ∀ {l₁ : List Chunk} {node : Node (Fin nP)} {fuel : Nat},
      IsList m (.head p) ((l₁ ++ l).map .chunk) → Path m node (l.map .chunk) (.head p) →
      l.length < fuel →
      ((∀ k ∈ l, signalOf db conn k ≠ some signal) ∧
        findMsg db conn p signal fuel m node none = some (m, none, true)) ∨
      ∃ l₂ k l₃, l = l₂ ++ k :: l₃ ∧ (∀ x ∈ l₂, signalOf db conn x ≠ some signal) ∧
        signalOf db conn k = some signal ∧
        findMsg db conn p signal fuel m node none = some (removeNode m (.chunk k), some k,
          l₃.all fun x => signalOf db conn x != some signal) := by
  induction l with
  | nil =>
    intro l₁ node fuel _ hp hf
    obtain ⟨fuel, rfl⟩ : ∃ f, fuel = f + 1 := ⟨fuel - 1, by simp at hf; omega⟩
    have hnode : node = .head p := hp
    left
    simp [findMsg, hnode]
  | cons k l ih =>
    intro l₁ node fuel hl hp hf
    obtain ⟨fuel, rfl⟩ : ∃ f, fuel = f + 1 := ⟨fuel - 1, by simp at hf; omega⟩
    obtain ⟨rfl, hp⟩ := hp
    have hlen : l.length < fuel := by simp at hf; omega
    have hv' : ∀ k ∈ l, (conn k).internalMsg.service ≠ none :=
      fun x hx => hv x (List.mem_cons_of_mem _ hx)
    cases hsv : (conn k).internalMsg.service with
    | none => exact absurd hsv (hv k List.mem_cons_self)
    | some v =>
      by_cases hsig : (db.service v).signal = signal
      · -- found: the walk goes on from the unlinked node
        right
        refine ⟨[], k, l, rfl, by simp, by simp [signalOf, hsv, hsig], ?_⟩
        rw [List.map_append, List.map_cons] at hl
        have hp' : Path (removeNode m (.chunk k)) ((removeNode m (.chunk k)).next (.chunk k))
            (l.map .chunk) (.head p) := by
          rw [hl.removeNode_next List.mem_cons_self]
          refine path_congr (fun y hy => ?_) hp
          exact hl.removeNode_next (List.mem_cons_of_mem _ hy)
        simp only [findMsg, hsv, hsig, if_true]
        exact findMsg_second k l hv' hp' hlen
      · have hl' : IsList m (.head p) (((l₁ ++ [k]) ++ l).map .chunk) := by
          rwa [List.append_assoc, List.singleton_append]
        have hk : signalOf db conn k ≠ some signal := by simp [signalOf, hsv, hsig]
        have hstep : findMsg db conn p signal (fuel + 1) m (.chunk k) none =
            findMsg db conn p signal fuel m (m.next (.chunk k)) none := by
          simp [findMsg, hsv, hsig]
        rw [hstep]
        rcases ih hv' hl' hp hlen with ⟨hno, he⟩ | ⟨l₂, j, l₃, rfl, hno, hj, he⟩
        · refine .inl ⟨fun x hx => ?_, he⟩
          rcases List.mem_cons.1 hx with rfl | hx
          · exact hk
          · exact hno x hx
        · refine .inr ⟨k :: l₂, j, l₃, rfl, fun x hx => ?_, hj, he⟩
          rcases List.mem_cons.1 hx with rfl | hx
          · exact hk
          · exact hno x hx

/-- `psa_get` on a message list: nothing has the signal, or the first message
with it is unlinked and the signal is cleared when no other message has it. -/
theorem findMsg_spec (db : Db nS nP) (signal : Nat) {m : Links (Node (Fin nP))} {l : List Chunk}
    (hv : ∀ k ∈ l, (conn k).internalMsg.service ≠ none)
    (hl : IsList m (.head p) (l.map .chunk)) :
    ((∀ k ∈ l, signalOf db conn k ≠ some signal) ∧
      findMsg db conn p signal walkFuel m (m.next (.head p)) none = some (m, none, true)) ∨
    ∃ l₂ k l₃, l = l₂ ++ k :: l₃ ∧ (∀ x ∈ l₂, signalOf db conn x ≠ some signal) ∧
      signalOf db conn k = some signal ∧
      findMsg db conn p signal walkFuel m (m.next (.head p)) none =
        some (removeNode m (.chunk k), some k,
          l₃.all fun x => signalOf db conn x != some signal) := by
  have hnd : l.Nodup := by
    have h := hl.nodup
    rw [List.nodup_cons] at h
    exact h.2.of_map
  have hlen : l.length < walkFuel := by
    have h := List.Nodup.length_le_card hnd
    simp only [Fintype.card_fin] at h
    simp only [walkFuel]
    omega
  have hl₀ : IsList m (.head p) (([] ++ l).map .chunk) := hl
  exact findMsg_first l hv hl₀ (seg_path hl.seg) hlen

end Walk

end Tfm.L4.Spm
