import Tfm.L4Service.SpmPool

/-!
# SPM: what a rejected client call leaves behind

A client call can end early in about ten places. All of them come before the SPM
touches anything, except one: the static handle of a stateless service takes a
chunk from the pool before the vectors are checked, and a call refused for its
vectors returns without freeing it.

Results:
* `clientPsaCall_refused`: a refused `psa_call` changed nothing, or it is a
  stateless call with bad vectors.
* `rejected_reachable`: a non-secure client call that is not of that kind leaves
  the state alone when it is refused; in every run of owned requests it is so
  only then.
* `rejected_leaks`: sixteen such calls use the pool up.
-/
namespace Tfm.L4.Spm
open Tfm.BiList

variable {nS nP : Nat} {db : Db nS nP} {s : St nS nP}

/-! ## The property and its condition -/

def Lbl.isNs : Lbl nP → Bool
  | .connect c _ _ _ => c.isNs
  | .callSvc c _ _ _ _ => c.isNs
  | .callRpc _ _ _ => true
  | .close c _ _ => c.isNs
  | .get _ _ _ => false
  | .reply _ _ _ => false

/-- A client call: the state it leaves and its end. -/
def answer (db : Db nS nP) (s : St nS nP) : Lbl nP → St nS nP × Outcome
  | .connect c sid version cd => clientPsaConnect db s c sid version cd
  | .callSvc c pr ctrl a cd => spmPsaCall db s c pr ctrl a cd
  | .callRpc c a cd => rpcPsaCall db s c a cd
  | .close c h cd => clientPsaClose db s c h cd
  | .get _ _ _ => (s, .ignored)
  | .reply _ _ _ => (s, .ignored)

/-- The pool and its chunks, the handle lists, the message lists and the signal
words are the same. -/
structure Untouched (s s' : St nS nP) : Prop where
  pool : s'.pool = s.pool
  conn : s'.conn = s.conn
  handles : s'.handles = s.handles
  msgs : s'.msgs = s.msgs
  asserted : s'.asserted = s.asserted

/-- If the call is refused, it left the state alone. -/
def Rejects (db : Db nS nP) (s : St nS nP) (l : Lbl nP) : Prop :=
  ∀ e, (answer db s l).2 = .refused e → Untouched s (answer db s l).1

/-! ## Client calls -/

theorem untouched_refl : Untouched s s := ⟨rfl, rfl, rfl, rfl, rfl⟩

/-- A `psa_call` that is not accepted changed nothing, or it took a chunk for a
stateless call with bad vectors. -/
theorem clientPsaCall_refused (db : Db nS nP) (s : St nS nP) (c : Caller nP) (pr : Bool)
    (a : CallArgs) (cd : Option Nat) :
    (clientPsaCall db s c pr a cd).2 = .accepted ∨
    (statelessBadVecs db s c pr a = false ∧ (clientPsaCall db s c pr a cd).1 = s) ∨
    (statelessBadVecs db s c pr a = true ∧
      ∃ v k s₁, createConnHandle s v (c.id db) = some (k, s₁) ∧
        clientPsaCall db s c pr a cd =
          (statelessConn s₁ k, programmerError c.isNs .programmerError)) := by
  unfold clientPsaCall statelessBadVecs
  cases hcnt : a.countsOk with
  | false => exact .inr (.inl ⟨by simp, rfl⟩)
  | true =>
    simp only [Bool.not_true, Bool.false_eq_true, if_false, Bool.true_and]
    rcases resolveHandle_cases db s c a.handle with
      ⟨o, -, hno, he⟩ | ⟨v, k, s₁, ⟨i, hs, -⟩, hok, hn, he⟩ | ⟨v, k, hi, -, -, -, -, he⟩ <;> rw [he]
    · exact .inr (.inl ⟨by simp [hno], rfl⟩)
    · cases hv : vecsOk db a c.isNs pr with
      | true => exact .inl rfl
      | false => exact .inr (.inr ⟨by simp [hs, hok], v, k, s₁, hn, rfl⟩)
    · cases hv : vecsOk db a c.isNs pr with
      | true => exact .inl rfl
      | false => exact .inr (.inl ⟨by simp [hi], rfl⟩)

/-- A `psa_connect` or `psa_close` that is not accepted changed nothing. -/
theorem clientPsaConnect_refused (db : Db nS nP) (s : St nS nP) (c : Caller nP)
    (sid version : Nat) (cd : Option Nat) :
    (clientPsaConnect db s c sid version cd).2 = .accepted ∨
      (clientPsaConnect db s c sid version cd).1 = s := by
  unfold clientPsaConnect
  split
  · exact .inr rfl
  split
  · exact .inr rfl
  split
  · exact .inr rfl
  split
  · exact .inr rfl
  split
  · exact .inr rfl
  · exact .inl rfl

theorem clientPsaClose_refused (db : Db nS nP) (s : St nS nP) (c : Caller nP) (h : UInt32)
    (cd : Option Nat) :
    (clientPsaClose db s c h cd).2 = .accepted ∨ (clientPsaClose db s c h cd).1 = s := by
  unfold clientPsaClose
  split
  · exact .inr rfl
  split
  · exact .inr rfl
  split
  · exact .inr rfl
  split
  · exact .inr rfl
  split
  · exact .inr rfl
  · exact .inl rfl

theorem rejects_of_same {l : Lbl nP} (h : (answer db s l).2 = .accepted ∨ (answer db s l).1 = s) :
    Rejects db s l := by
  intro e he
  rcases h with h | h
  · rw [he] at h
    cases h
  · rw [h]
    exact untouched_refl

theorem rejects_call {l : Lbl nP} {c : Caller nP} {pr : Bool} {a : CallArgs} {cd : Option Nat}
    (hl : answer db s l = clientPsaCall db s c pr a cd)
    (hb : statelessBadVecs db s c pr a = false) : Rejects db s l := by
  refine rejects_of_same ?_
  rw [hl]
  rcases clientPsaCall_refused db s c pr a cd with h | ⟨-, h⟩ | ⟨h, -⟩
  · exact .inl h
  · exact .inr h
  · rw [hb] at h
    cases h

theorem rejects_of_not_leaks {l : Lbl nP} (h : leaks db s l = false) : Rejects db s l := by
  cases l with
  | connect c sid version cd => exact rejects_of_same (clientPsaConnect_refused db s c sid version cd)
  | close c hd cd => exact rejects_of_same (clientPsaClose_refused db s c hd cd)
  | get p signal ok => exact rejects_of_same (.inr rfl)
  | reply p hd st => exact rejects_of_same (.inr rfl)
  | callRpc c a cd => exact rejects_call (c := .ns c) (a := a) rfl h
  | callSvc c pr ctrl a cd =>
    cases hm : memoryCheck db ctrl 12 c.isNs true pr with
    | false => exact rejects_of_same (.inr (by simp [answer, spmPsaCall, hm]))
    | true =>
      by_cases ht : a.type < 0
      · exact rejects_of_same (.inr (by simp [answer, spmPsaCall, hm, ht]))
      · have hb : statelessBadVecs db s c pr a = false := by
          simpa [leaks, hm, Int.not_lt.1 ht] using h
        have he : answer db s (.callSvc c pr ctrl a cd) = clientPsaCall db s c pr a cd := by
          simp [answer, spmPsaCall, hm, ht]
        exact rejects_call he hb

/-! ## The leak -/

/-- Taking a chunk from a sound pool changes the free list. -/
theorem create_touches {s₁ : St nS nP} {v : Fin nS} {c : Int} {k : Chunk} (h : Inv db s)
    (hn : createConnHandle s v c = some (k, s₁)) : ¬ Untouched s (statelessConn s₁ k) := by
  obtain ⟨⟨free, hl, hpool⟩, -, -⟩ := h
  obtain ⟨free', rfl, rfl⟩ := createConnHandle_some hpool hn
  intro hu
  have hp : removeNode s.pool (.chunk k) = s.pool := hu.pool
  have hfree := hpool.pool
  rw [List.map_cons] at hfree
  have hnd := List.nodup_cons.1 (List.nodup_cons.1 hfree.nodup).2
  have hhead : s.pool.next (.head ()) = .chunk k := hfree.seg.1
  rw [← List.nil_append (_ :: _)] at hfree
  -- the successor of the head was the chunk and is one of the rest
  have hmem := hfree.removeNode.next_mem List.mem_cons_self
  rw [hp, hhead, List.nil_append, List.mem_cons] at hmem
  rcases hmem with hm | hm
  · cases hm
  · exact hnd.1 hm

theorem not_rejects_call {l : Lbl nP} {c : Caller nP} {pr : Bool} {a : CallArgs}
    {cd : Option Nat} (h : Inv db s) (hl : answer db s l = clientPsaCall db s c pr a cd)
    (hns : c.isNs = true) (hb : statelessBadVecs db s c pr a = true) : ¬ Rejects db s l := by
  intro hr
  rcases clientPsaCall_refused db s c pr a cd with ho | ⟨hno, -⟩ | ⟨-, v, k, s₁, hn, he⟩
  · simp only [statelessBadVecs, Bool.and_eq_true, Bool.not_eq_true'] at hb
    have hv := ((clientPsaCall_accepted_iff db s c pr a cd).1 ho).2.2
    rw [hb.2] at hv
    cases hv
  · rw [hb] at hno
    cases hno
  · have hu := hr .programmerError
    rw [hl, he, hns] at hu
    exact create_touches h hn (hu rfl)

theorem not_rejects_of_leaks {l : Lbl nP} (h : Inv db s) (hns : l.isNs = true)
    (hl : leaks db s l = true) : ¬ Rejects db s l := by
  cases l with
  | connect => cases hl
  | close => cases hl
  | get => cases hl
  | reply => cases hl
  | callRpc c a cd => exact not_rejects_call (c := .ns c) (a := a) h rfl rfl hl
  | callSvc c pr ctrl a cd =>
    simp only [leaks, Bool.and_eq_true, decide_eq_true_eq] at hl
    obtain ⟨⟨hm, ht⟩, hb⟩ := hl
    have he : answer db s (.callSvc c pr ctrl a cd) = clientPsaCall db s c pr a cd := by
      simp [answer, spmPsaCall, hm, Int.not_lt.2 ht]
    exact not_rejects_call h he hns hb

/-! ## Results -/

/-- **A rejected call of a non-secure client leaves the pool, the handle lists, the
message lists and the signals alone**, in every state and for every call that is not a
stateless call with bad vectors; in every run of owned requests a call has this
property exactly if it is not one. -/
theorem rejected_reachable (db : Db nS nP) (s : St nS nP) :
    (∀ l : Lbl nP, l.isNs = true → leaks db s l = false → Rejects db s l) ∧
    (((lts db).restrict fun s l => owned db s l = true).Reachable s →
      ∀ l : Lbl nP, l.isNs = true → (Rejects db s l ↔ leaks db s l = false)) := by
  refine ⟨fun l _ hl => rejects_of_not_leaks hl, fun ho l hns => ⟨fun hr => ?_, rejects_of_not_leaks⟩⟩
  cases hl : leaks db s l with
  | false => rfl
  | true =>
    have hi := ((poolAllInv_inductive db).reachable s ho).base
    exact absurd hr (not_rejects_of_leaks hi hns hl)

/-- A stateless service with the static handle 0x40000101, and memory that no one may
read above 0x8000. -/
def statelessService : Db 1 1 where
  service _ := ⟨0x1000, 0, 4, true, false, 1, .strict⟩
  partition _ := ⟨1, []⟩
  stateless i := if i = 0 then some 0 else none
  halMemoryHasAccess m := m.base < 0x8000

/-- A call of client -1 on it with one input vector. -/
def callStateless (base : Nat) : Lbl 1 :=
  .callRpc (-1) ⟨0x40000101, 0, 0x1000, [⟨base, 4⟩], 0x1000, []⟩ none

theorem rejected_reachable_close :
    ∃ s : St 1 1, s.granted = [(-1, 194)] ∧
      (answer oneService s (.close (.ns (-2)) 194 none)).2 = .refused .programmerError ∧
      Untouched s (answer oneService s (.close (.ns (-2)) 194 none)).1 := by
  have he : (LTS.exec (step oneService) (init 1 1) openConn).map (fun s =>
      (s.granted, (answer oneService s (.close (.ns (-2)) 194 none)).2)) =
      some ([(-1, 194)], .refused .programmerError) := by decide +kernel
  obtain ⟨s, hs, hv⟩ := Option.map_eq_some_iff.1 he
  simp only [Prod.mk.injEq] at hv
  exact ⟨s, hv.1, hv.2, (rejected_reachable oneService s).1 _ rfl rfl _ hv.2⟩

/-- **Counterexample**: client -1 calls the stateless service with a vector it may not
read. The call is refused and its chunk is gone; after sixteen of them a good call is
refused as well. -/
theorem rejected_leaks :
    ¬ Rejects statelessService (init 1 1) (callStateless 0x9000) ∧
      (answer statelessService (init 1 1) (callStateless 0x9000)).2 = .refused .programmerError ∧
      (answer statelessService (init 1 1) (callStateless 0x1000)).2 = .accepted ∧
      ∃ s : St 1 1, (lts statelessService).Reachable s ∧ s.accepted = [] ∧
        (answer statelessService s (callStateless 0x1000)).2 = .refused .connectionBusy := by
  have hl : leaks statelessService (init 1 1) (callStateless 0x9000) = true := by decide +kernel
  refine ⟨not_rejects_of_leaks (inv_init _) rfl hl, by decide +kernel, by decide +kernel, ?_⟩
  have he : (LTS.exec (step statelessService) (init 1 1)
      (List.replicate 16 (callStateless 0x9000))).map (fun s =>
      (s.accepted, (answer statelessService s (callStateless 0x1000)).2)) =
      some ([], .refused .connectionBusy) := by decide +kernel
  obtain ⟨s, hs, hv⟩ := Option.map_eq_some_iff.1 he
  simp only [Prod.mk.injEq] at hv
  exact ⟨s, LTS.reachable_exec _ (.init rfl) hs, hv.1, hv.2⟩

end Tfm.L4.Spm
