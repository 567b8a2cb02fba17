import Tfm.L4Service.SpmOneMsg

/-!
# SPM: the two entries of `psa_call` and the message types

A `psa_call` of a non-secure client reaches `tfm_spm_client_psa_call` through the
SVC handler or through the mailbox. The SVC entry rejects negative types, the
mailbox entry passes the type word on. Types -1 and -2 mark the messages that
`psa_connect` and `psa_close` make; `psa_reply` decides by them whether to grant
a handle, to free it or to panic.

Results:
* `clientPsaCall_accepted_iff`: when the shared part accepts a call.
* `entries_agree`: the two entries agree on a request just when its type is not
  negative or the shared part refuses it; in every run whose mailbox calls are
  such, the messages' types say which call made them, so that `psa_reply` to a
  `psa_call` neither frees a connection nor panics.
* `entries_differ_on_disconnect`: a mailbox `psa_call` of type -2 frees a
  connection its client still holds.
-/
namespace Tfm.L4.Spm
open Tfm.BiList

variable {nS nP : Nat}

/-! ## Acceptance -/

theorem programmerError_ne (ns : Bool) (e : PsaStatus) : programmerError ns e ≠ .accepted := by
  unfold programmerError
  split <;> simp

theorem clientPsaCall_accepted_iff (db : Db nS nP) (s : St nS nP) (c : Caller nP) (pr : Bool)
    (a : CallArgs) (cd : Option Nat) :
    (clientPsaCall db s c pr a cd).2 = .accepted ↔
      a.countsOk = true ∧ handleOk db s c a.handle = true ∧ vecsOk db a c.isNs pr = true := by
  unfold clientPsaCall
  by_cases hcnt : a.countsOk = true
  · simp only [hcnt, Bool.not_true, Bool.false_eq_true, if_false, true_and]
    rcases resolveHandle_cases db s c a.handle with
      ⟨o, ho, hno, he⟩ | ⟨v, k, s₁, -, hok, -, he⟩ | ⟨v, k, -, -, -, -, hok, he⟩ <;> rw [he]
    · simp [ho, hno]
    · by_cases hv : vecsOk db a c.isNs pr = true
      · simp [hv, hok]
      · simp [hv, programmerError_ne]
    · by_cases hv : vecsOk db a c.isNs pr = true
      · simp [hv, hok]
      · simp [hv, programmerError_ne]
  · simp [hcnt, programmerError_ne]

/-- A mailbox request whose type is not negative, or that the shared part
refuses for another reason. -/
def typeOk (db : Db nS nP) (s : St nS nP) (clientId : Int) (a : CallArgs) : Bool :=
  decide (0 ≤ a.type) ||
    !(a.countsOk && handleOk db s (.ns clientId) a.handle && vecsOk db a true false)

def typed (db : Db nS nP) (s : St nS nP) : Lbl nP → Bool
  | .callRpc c a _ => typeOk db s c a
  | _ => true

/-! ## Agreement of the entries -/

/-- Both entries accept the request or neither does, and then they leave the
same state, the same queued message included. -/
def EntriesAgree (db : Db nS nP) (s : St nS nP) (clientId : Int) (ctrlParam : Nat) (a : CallArgs)
    (cd : Option Nat) : Prop :=
  ((spmPsaCall db s (.ns clientId) false ctrlParam a cd).2 = .accepted ↔
    (rpcPsaCall db s clientId a cd).2 = .accepted) ∧
  ((rpcPsaCall db s clientId a cd).2 = .accepted →
    (spmPsaCall db s (.ns clientId) false ctrlParam a cd).1 = (rpcPsaCall db s clientId a cd).1)

theorem entriesAgree_iff {db : Db nS nP} {s : St nS nP} {c : Int} {ctrl : Nat} {a : CallArgs}
    {cd : Option Nat} (hctrl : memoryCheck db ctrl 12 true true false = true) :
    EntriesAgree db s c ctrl a cd ↔ typeOk db s c a = true := by
  have hrpc : (rpcPsaCall db s c a cd).2 = .accepted ↔ a.countsOk = true ∧
      handleOk db s (.ns c) a.handle = true ∧ vecsOk db a true false = true :=
    clientPsaCall_accepted_iff db s (.ns c) false a cd
  have hns : (Caller.ns c : Caller nP).isNs = true := rfl
  by_cases ht : 0 ≤ a.type
  · have he : spmPsaCall db s (.ns c) false ctrl a cd = rpcPsaCall db s c a cd := by
      simp only [spmPsaCall, hns, hctrl, Bool.not_true, Bool.false_eq_true, if_false,
        Int.not_lt.2 ht, rpcPsaCall]
    simp [EntriesAgree, he, typeOk, ht]
  · have hlt : a.type < 0 := Int.not_le.1 ht
    have he : (spmPsaCall db s (.ns c) false ctrl a cd).2 ≠ .accepted := by
      simp only [spmPsaCall, hns, hctrl, Bool.not_true, Bool.false_eq_true, if_false, hlt,
        if_true]
      exact programmerError_ne _ _
    have hty : typeOk db s c a = true ↔ ¬ (rpcPsaCall db s c a cd).2 = .accepted := by
      rw [hrpc]
      simp only [typeOk, ht, decide_false, Bool.false_or, Bool.not_eq_eq_eq_not, Bool.not_true,
        Bool.and_eq_false_iff]
      cases a.countsOk <;> cases handleOk db s (.ns c) a.handle <;>
        cases vecsOk db a true false <;> simp
    rw [hty]
    constructor
    · intro h hr
      exact he (h.1.2 hr)
    · intro h
      exact ⟨⟨fun hs => absurd hs he, fun hr => absurd hr h⟩, fun hr => absurd hr h⟩

/-! ## Message types -/

/-- The type word says which client call made a message. -/
structure MsgTyped (m : Msg nS) : Prop where
  connect : m.type = ipcConnect ↔ m.origin = .connect
  close : m.type = ipcDisconnect ↔ m.origin = .close
  call : m.origin = .call → 0 ≤ m.type

def TypeInv (conn : Chunk → Conn nS) : Prop := ∀ k, MsgTyped (conn k).internalMsg

theorem msgTyped_call {m : Msg nS} (ho : m.origin = .call) (ht : 0 ≤ m.type) : MsgTyped m := by
  refine ⟨?_, ?_, fun _ => ht⟩
  · simp only [ho, reduceCtorEq, iff_false, ipcConnect]
    omega
  · simp only [ho, reduceCtorEq, iff_false, ipcDisconnect]
    omega

theorem typeInv_update {conn : Chunk → Conn nS} {k : Chunk} {c : Conn nS} (h : TypeInv conn)
    (hc : MsgTyped c.internalMsg) : TypeInv (Function.update conn k c) := by
  intro x
  by_cases hx : x = k
  · subst hx
    rwa [Function.update_self]
  · rw [Function.update_of_ne hx]
    exact h x

theorem createConnHandle_conn {s s₁ : St nS nP} {v : Fin nS} {c : Int} {k : Chunk}
    (hn : createConnHandle s v c = some (k, s₁)) :
    s₁.conn = Function.update s.conn k
      { s.conn k with service := some v, status := .idle, clientId := c } := by
  unfold createConnHandle poolAlloc at hn
  split at hn
  · cases hn
  · rename_i k' s₀ ha
    cases hn
    split at ha
    · cases ha
    · split at ha
      · cases ha
        rfl
      · cases ha

theorem typeInv_create {s s₁ : St nS nP} {v : Fin nS} {c : Int} {k : Chunk}
    (h : TypeInv s.conn) (hn : createConnHandle s v c = some (k, s₁)) : TypeInv s₁.conn := by
  rw [createConnHandle_conn hn]
  exact typeInv_update h (h k)

theorem typeInv_free {s : St nS nP} {k : Chunk} (h : TypeInv s.conn) :
    TypeInv (freeConnHandle s k).conn :=
  typeInv_update h ⟨(h k).connect, (h k).close, (h k).call⟩

theorem call_type {db : Db nS nP} {s : St nS nP} {l : Lbl nP} {c : Caller nP} {a : CallArgs}
    {cd : Option Nat} (hx : typed db s l = true) (hq : l.callReq = some (c, a, cd))
    (hvet : l.vetted db = true) (hok : handleOk db s c a.handle = true) : 0 ≤ a.type := by
  cases l with
  | callSvc c' pr ctrl a' cd' =>
    cases hq
    simp only [Lbl.vetted, Bool.and_eq_true, decide_eq_true_eq] at hvet
    exact hvet.1.1.2
  | callRpc c' a' cd' =>
    cases hq
    simp only [Lbl.vetted, Bool.and_eq_true] at hvet
    simpa [typed, typeOk, hvet.1, hvet.2, hok] using hx
  | connect => cases hq
  | close => cases hq
  | get => cases hq
  | reply => cases hq

theorem handleOk_conn {db : Db nS nP} {s : St nS nP} {c : Caller nP} {h : UInt32} {k : Chunk}
    {v : Fin nS} (hs : staticIndex h = none) (hk : validateConnHandle s h (c.id db) = some k)
    (hst : (s.conn k).status = .idle) (hv : (s.conn k).service = some v) :
    handleOk db s c h = true := by
  have hct : connTarget s h (c.id db) (· == .idle) = some k :=
    connTarget_eq hs hk (by simp [hst]) hv
  simp [handleOk, hs, hct]

theorem typeInv_reply {db : Db nS nP} {s s₁ : St nS nP} {k : Chunk} {v : Fin nS} {hd : UInt32}
    {st ret : Int} (h : TypeInv s.conn) (hr : replyByType db s k v hd st = some (s₁, ret)) :
    TypeInv s₁.conn := by
  rcases replyByType_cases hr with ⟨-, -, he⟩ | ⟨-, -, he⟩ | ⟨-, -, he⟩ | ⟨-, he⟩ |
    ⟨-, -, he⟩ | ⟨-, -, he⟩ <;> rw [he]
  · exact h
  · exact typeInv_free h
  · exact h
  · exact typeInv_free h
  · exact h
  · exact typeInv_free h

theorem typeInv_trans {db : Db nS nP} {s s' : St nS nP} {l : Lbl nP} (h : TypeInv s.conn)
    (hx : typed db s l = true) (ht : Trans db s l s') : TypeInv s'.conn := by
  cases ht with
  | stay l b => exact h
  | connect hb hn =>
    have h₁ := typeInv_create h hn
    refine typeInv_update h₁ ⟨by simp, ?_, by simp⟩
    simp [ipcConnect, ipcDisconnect]
  | call hq hvet hs hk hst hv =>
    have hok := handleOk_conn hs hk hst hv
    exact typeInv_update h (msgTyped_call rfl (call_type hx hq hvet hok))
  | callStatic hq hvet hok hs hn =>
    have h₁ := typeInv_create h hn
    refine typeInv_update ?_ (msgTyped_call rfl (call_type hx hq hvet hok))
    exact typeInv_update h₁ (h₁ _)
  | leak b hl hn =>
    have h₁ := typeInv_create h hn
    exact typeInv_update h₁ (h₁ _)
  | close hs hk hst hv =>
    refine typeInv_update h ⟨?_, by simp, by simp⟩
    simp [ipcConnect, ipcDisconnect]
  | get _ _ hf => exact typeInv_update h (h _)
  | getNone _ _ hf => exact h
  | reply hg hr =>
    have h₁ : TypeInv _ := typeInv_reply h hr
    exact typeInv_update h₁ (h₁ _)

theorem typeInv_inductive (db : Db nS nP) :
    ((lts db).restrict fun s l => typed db s l = true).Inductive fun s => TypeInv s.conn where
  init := by
    intro s hx k
    subst hx
    exact msgTyped_call rfl (Int.le_refl _)
  step := by
    intro s l s' h hs
    exact typeInv_trans h hs.1 (step_trans hs.2)

/-! ## Results -/

/-- What the types guarantee: `psa_get` delivers typed messages, and `psa_reply`
panics or frees a chunk only as the call that made the message asks for. -/
structure TypesOk (db : Db nS nP) (s : St nS nP) : Prop where
  delivered : ∀ p signal ok s' m, psaGet db s p signal ok = some (s', some m) → MsgTyped m
  /-- `psa_reply` to a `psa_call` on a connection leaves the connection alone -/
  kept : ∀ p h k v st, getMsgFromHandle db s p h = some (k, v) →
    (s.conn k).internalMsg.origin = .call → (db.service v).connectionBased = true →
    replyByType db s k v h st = some (s, st)
  /-- the switch panics only for a connection request and a status that is no
  answer to one -/
  panics : ∀ p h k v st, getMsgFromHandle db s p h = some (k, v) →
    replyByType db s k v h st = none → (s.conn k).internalMsg.origin = .connect ∧
      st ≠ psaSuccess ∧ st ≠ psaErrorConnectionRefused ∧ st ≠ psaErrorConnectionBusy
  /-- a chunk is freed when its client closes it, when its connection is
  refused, and after a stateless call -/
  freed : ∀ p h k v st s₁ ret, getMsgFromHandle db s p h = some (k, v) →
    replyByType db s k v h st = some (s₁, ret) → s.alloc k = true → s₁.alloc k = false →
    (s.conn k).internalMsg.origin = .close ∨
      ((s.conn k).internalMsg.origin = .connect ∧ st = psaErrorConnectionRefused) ∨
      ((s.conn k).internalMsg.origin = .call ∧ (db.service v).connectionBased = false)

theorem psaGet_msg {db : Db nS nP} {s s' : St nS nP} {p : Fin nP} {signal : Nat} {ok : Bool}
    {m : Msg nS} (h : psaGet db s p signal ok = some (s', some m)) :
    ∃ k, m = (s.conn k).internalMsg := by
  unfold psaGet at h
  split at h
  · cases h
  · split at h
    · cases h
    · split at h
      · cases h
      · rename_i m' msg clear hf
        cases msg with
        | none => cases h
        | some k =>
          simp only [Option.some.injEq, Prod.mk.injEq] at h
          exact ⟨k, h.2.symm⟩

theorem typesOk_of_inv {db : Db nS nP} {s : St nS nP} (h : TypeInv s.conn) : TypesOk db s where
  delivered := by
    intro p signal ok s' m hg
    obtain ⟨k, rfl⟩ := psaGet_msg hg
    exact h k
  kept := by
    intro p hh k v st _ ho hb
    have ht := (h k).call ho
    have h₁ : (s.conn k).internalMsg.type ≠ ipcConnect := by
      simp only [ipcConnect]
      omega
    have h₂ : (s.conn k).internalMsg.type ≠ ipcDisconnect := by
      simp only [ipcDisconnect]
      omega
    have h₃ : ipcCall ≤ (s.conn k).internalMsg.type := ht
    simp [replyByType, h₁, h₂, h₃, hb]
  panics := by
    intro p hh k v st _ hr
    have hm := h k
    simp only [replyByType] at hr
    split at hr
    · rename_i ht
      refine ⟨hm.connect.1 ht, ?_⟩
      split at hr
      · cases hr
      · split at hr
        · cases hr
        · split at hr
          · cases hr
          · rename_i h₁ h₂ h₃
            exact ⟨h₁, h₂, h₃⟩
    · rename_i hc
      split at hr
      · cases hr
      · rename_i hd
        split at hr
        · split at hr <;> cases hr
        · rename_i hlt
          cases ho : (s.conn k).internalMsg.origin with
          | connect => exact absurd (hm.connect.2 ho) hc
          | close => exact absurd (hm.close.2 ho) hd
          | call => exact absurd (hm.call ho) hlt
  freed := by
    intro p hh k v st s₁ ret _ hr ha hf
    have hm := h k
    have hkeep : s₁ ≠ s := by
      intro hx
      subst hx
      rw [ha] at hf
      cases hf
    rcases replyByType_cases hr with ⟨-, -, he⟩ | ⟨ht, hst, -⟩ | ⟨-, -, he⟩ | ⟨ht, -⟩ |
      ⟨-, -, he⟩ | ⟨ht, hb, -⟩
    · rw [he] at hf
      rw [ha] at hf
      cases hf
    · exact .inr (.inl ⟨hm.connect.1 ht, hst⟩)
    · exact absurd he hkeep
    · exact .inl (hm.close.1 ht)
    · exact absurd he hkeep
    · cases ho : (s.conn k).internalMsg.origin with
      | connect =>
        have h₁ := hm.connect.2 ho
        simp only [ipcConnect] at h₁
        omega
      | close => exact .inl rfl
      | call => exact .inr (.inr ⟨rfl, hb⟩)

/-- **The SVC entry and the mailbox entry agree on a request just when its type
is not negative or the shared part refuses it, and in every run whose mailbox
requests are such, message types cannot be forged.** -/
theorem entries_agree (db : Db nS nP) :
    (∀ s c ctrl a cd, memoryCheck db ctrl 12 true true false = true →
      (EntriesAgree db s c ctrl a cd ↔ typeOk db s c a = true)) ∧
    (∀ s, ((lts db).restrict fun s l => typed db s l = true).Reachable s → TypesOk db s) :=
  ⟨fun _ _ _ _ _ hctrl => entriesAgree_iff hctrl,
    fun s hs => typesOk_of_inv ((typeInv_inductive db).reachable s hs)⟩

theorem entries_agree_call :
    ∃ s : St 1 1, s.delivered = [1, 0] ∧ TypesOk oneService s ∧
      EntriesAgree oneService s (-1) 0x1000 ⟨194, 3, 0, [], 0, []⟩ none := by
  have he : (LTS.execC (typed oneService) (step oneService) (init 1 1)
      (openConn ++ [callConn 3, .get 0 4 true])).map (fun s => s.delivered) = some [1, 0] := by
    decide +kernel
  obtain ⟨s, hs, hv⟩ := Option.map_eq_some_iff.1 he
  refine ⟨s, hv, (entries_agree oneService).2 s ?_, ?_⟩
  · exact LTS.reachable_execC (fun _ _ h => h) _ rfl hs
  · exact ((entries_agree oneService).1 s (-1) 0x1000 _ none (by decide)).2 rfl

/-- **Counterexample**: on an open connection the mailbox accepts a `psa_call` of
type -2, which the SVC entry refuses. It is delivered as a disconnect message
that no `psa_close` made, and the reply frees the chunk of a handle its client
still holds. -/
theorem entries_differ_on_disconnect :
    ∃ s s' : St 1 1, (lts oneService).Reachable s ∧ (lts oneService).Reachable s' ∧
      (-1, 194) ∈ s.granted ∧ memoryCheck oneService 0x1000 12 true true false = true ∧
      ¬ EntriesAgree oneService s (-1) 0x1000 ⟨194, -2, 0, [], 0, []⟩ none ∧
      (s'.conn 0).internalMsg.type = ipcDisconnect ∧ (s'.conn 0).internalMsg.origin = .call ∧
      (-1, 194) ∈ s'.granted ∧ s'.alloc 0 = false := by
  have he : (LTS.exec (step oneService) (init 1 1) openConn).map (fun s =>
      (s.granted, typeOk oneService s (-1) ⟨194, -2, 0, [], 0, []⟩)) =
      some ([(-1, 194)], false) := by decide +kernel
  have he' : (LTS.exec (step oneService) (init 1 1)
      (openConn ++ [callConn (-2), .get 0 4 true, .reply 0 194 0])).map (fun s =>
      ((s.conn 0).internalMsg.type, (s.conn 0).internalMsg.origin, s.granted, s.alloc 0)) =
      some (ipcDisconnect, .call, [(-1, 194)], false) := by decide +kernel
  obtain ⟨s, hs, hv⟩ := Option.map_eq_some_iff.1 he
  obtain ⟨s', hs', hv'⟩ := Option.map_eq_some_iff.1 he'
  simp only [Prod.mk.injEq] at hv hv'
  obtain ⟨hgr, hty⟩ := hv
  obtain ⟨ht, ho, hgr', ha⟩ := hv'
  have hctrl : memoryCheck oneService 0x1000 12 true true false = true := by decide
  refine ⟨s, s', LTS.reachable_exec _ (.init rfl) hs, LTS.reachable_exec _ (.init rfl) hs',
    by simp [hgr], hctrl, ?_, ht, ho, by simp [hgr'], ha⟩
  intro h
  have := (entriesAgree_iff hctrl).1 h
  rw [hty] at this
  cases this

end Tfm.L4.Spm
