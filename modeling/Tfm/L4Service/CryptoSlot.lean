import Tfm.L4Service.CryptoAlloc

/-!
# Crypto operation slots: ownership, isolation and leaks

The slots of `CryptoAlloc` over any sequence of calls. The state has, next to the slots,
the handles each client holds and the client whose call took each slot into use.

`Effect` is what one call can do to the slots and which handle it hands back; everything
else is read off it.

Two things go wrong. `tfm_crypto_hash_clone` keeps the target slot when the back end
fails, and reports an error (`leak`). An entry point that fails before it writes its
output handle hands back zero: if the input handle named a slot, the slot stays in use
and the client has lost its handle (`lost`).

Results:
* `effect_call`: the effect of any call.
* `law_iff`: a call meets the rules for failing and allocating calls exactly if `safe`.
* `law_reachable`: in runs of safe calls every slot in use has a handle its owner holds.
* `isolated_reachable`: in every run a client can only find and release its own slots,
  its calls leave the slots of others alone, and free slots are blank.
-/
namespace Tfm.L4.CryptoAlloc
open Tfm.L4.CryptoKey

/-! ## The allocator -/

section Alloc

variable {cfg : Cfg} {s : Slots} {c : ClientId} {type : OpType} {h i j : Nat}

@[simp] theorem set_self (s : Slots) (i : Nat) (x : Slot) : s.set i x i = x := if_pos rfl

theorem set_ne (s : Slots) (x : Slot) (hne : j ≠ i) : s.set i x j = s j := if_neg hne

theorem set_set (s : Slots) (i : Nat) (x y : Slot) : (s.set i x).set i y = s.set i y := by
  funext j
  by_cases hj : j = i
  · simp [hj]
  · simp [set_ne _ _ hj]

theorem freeSlot_some (s : Slots) : ∀ n i j, freeSlot s n i = some j →
    i ≤ j ∧ j < i + n ∧ (s j).inUse = false := by
  intro n
  induction n with
  | zero => intro i j h; cases h
  | succ n ih =>
    intro i j h
    unfold freeSlot at h
    split at h
    · obtain ⟨hi, hj, hu⟩ := ih (i + 1) j h
      exact ⟨by omega, by omega, hu⟩
    · next hu =>
      cases h
      exact ⟨Nat.le_refl _, by omega, by simpa using hu⟩

theorem mine_iff : mine cfg s c h = true ↔
    ∃ i < cfg.concOperNum, h = i + 1 ∧ (s i).inUse = true ∧ (s i).owner = c := by
  simp only [mine, Bool.and_eq_true, decide_eq_true_eq]
  constructor
  · intro hx
    obtain ⟨⟨⟨h0, hn⟩, hu⟩, ho⟩ := hx
    exact ⟨h - 1, by omega, by omega, hu, ho⟩
  · intro hx
    obtain ⟨i, hi, rfl, hu, ho⟩ := hx
    exact ⟨⟨⟨by omega, by omega⟩, hu⟩, ho⟩

theorem mine_zero : mine cfg s c 0 = false := by simp [mine]

/-- A lookup finds the slot of the handle, in use by the client with that type. -/
theorem lookup_iff : operationLookup cfg s c type h = .ok i ↔
    i < cfg.concOperNum ∧ h = i + 1 ∧ (s i).inUse = true ∧ (s i).owner = c ∧ (s i).type = type := by
  unfold operationLookup
  constructor
  · intro hl
    split at hl
    · next hm =>
      cases hl
      obtain ⟨i, hi, rfl, hu, ho⟩ := mine_iff.mp hm.1
      exact ⟨hi, rfl, hu, ho, hm.2⟩
    · cases hl
  · intro hx
    obtain ⟨hi, rfl, hu, ho, ht⟩ := hx
    exact if_pos ⟨mine_iff.mpr ⟨i, hi, rfl, hu, ho⟩, ht⟩

/-- A release clears the slot of the handle, in use by the client. -/
theorem release_iff {s' : Slots} : operationRelease cfg s c h = (s', .ok ()) ↔
    ∃ i < cfg.concOperNum, h = i + 1 ∧ (s i).inUse = true ∧ (s i).owner = c ∧
      s' = s.set i ⟨false, 0, .none, (memsetOperationContext cfg s i i).operation⟩ := by
  unfold operationRelease
  constructor
  · intro hr
    split at hr
    · next hm =>
      obtain ⟨i, hi, rfl, hu, ho⟩ := mine_iff.mp hm
      refine ⟨i, hi, rfl, hu, ho, ?_⟩
      simp only [Nat.add_sub_cancel, Prod.mk.injEq, and_true] at hr
      rw [← hr, memsetOperationContext, set_set]
    · simp at hr
  · intro hx
    obtain ⟨i, hi, rfl, hu, ho, rfl⟩ := hx
    rw [if_pos (mine_iff.mpr ⟨i, hi, rfl, hu, ho⟩)]
    simp only [Nat.add_sub_cancel, memsetOperationContext, set_set]

/-- An allocation takes a free slot, for a handle that was invalid. -/
theorem alloc_ok {s' : Slots} {h' : Nat} (ha : operationAlloc cfg s c type h = (s', .ok h')) :
    ∃ i < cfg.concOperNum, h = 0 ∧ h' = i + 1 ∧ (s i).inUse = false ∧
      s' = s.set i { s i with inUse := true, owner := c, type := type } := by
  unfold operationAlloc at ha
  split at ha
  · simp at ha
  next h0 =>
  split at ha
  · next i hf =>
    obtain ⟨-, hi, hu⟩ := freeSlot_some s _ _ _ hf
    cases ha
    exact ⟨i, by omega, by omega, rfl, hu, rfl⟩
  · simp at ha

theorem alloc_error {s' : Slots} {e : PsaStatus}
    (ha : operationAlloc cfg s c type h = (s', .error e)) : s' = s := by
  unfold operationAlloc at ha
  split at ha
  · cases ha
    rfl
  · split at ha
    · cases ha
    · cases ha
      rfl

end Alloc

/-! ## The effect of a call -/

/-- The slot while a call works on it: `tfm_crypto_operation_alloc`, then the back end. -/
def Slots.taken (cfg : Cfg) (s : Slots) (c : ClientId) (type : OpType) (i : Nat) (a : Ans) : Slots :=
  (s.set i { s i with inUse := true, owner := c, type := type }).backend cfg i a

/-- A slot after `tfm_crypto_operation_release`. -/
def Slots.cleared (cfg : Cfg) (s : Slots) (i : Nat) : Slots :=
  s.set i ⟨false, 0, .none, (memsetOperationContext cfg s i i).operation⟩

/-- What a call of `c` can do. `inOut` is what the variable for the handle holds before the
call, `ok` that the call is one that keeps the rules. -/
inductive Effect (cfg : Cfg) (s : Slots) (c : ClientId) (inOut : Nat) (ok : Prop) : Out → Prop
  | same (st : Except PsaStatus Unit) (hd : Option Nat) (hh : hd = none ∨ hd = some inOut)
      (hk : ok) : Effect cfg s c inOut ok ⟨s, st, hd⟩
  | lost (e : PsaStatus) (hk : ok ↔ mine cfg s c inOut = false) :
      Effect cfg s c inOut ok ⟨s, .error e, some 0⟩
  | use (i : Nat) (a : Ans) (st : Except PsaStatus Unit) (hd : Option Nat)
      (hh : hd = none ∨ hd = some inOut) (hk : ok) (hm : mine cfg s c (i + 1) = true) :
      Effect cfg s c inOut ok ⟨s.backend cfg i a, st, hd⟩
  | alloc (i : Nat) (type : OpType) (a : Ans) (hi : i < cfg.concOperNum) (h0 : inOut = 0)
      (hk : ok) (hu : (s i).inUse = false) :
      Effect cfg s c inOut ok ⟨s.taken cfg c type i a, .ok (), some (i + 1)⟩
  | leak (i : Nat) (type : OpType) (a : Ans) (e : PsaStatus) (hi : i < cfg.concOperNum)
      (h0 : inOut = 0) (hk : ¬ ok) (hu : (s i).inUse = false) :
      Effect cfg s c inOut ok ⟨s.taken cfg c type i a, .error e, some (i + 1)⟩
  | undo (i : Nat) (type : OpType) (a : Ans) (e : PsaStatus) (hi : i < cfg.concOperNum)
      (h0 : inOut = 0) (hk : ok) (hu : (s i).inUse = false) :
      Effect cfg s c inOut ok ⟨(s.taken cfg c type i a).cleared cfg i, .error e, some 0⟩
  | release (i : Nat) (a : Ans) (st : Except PsaStatus Unit) (hi : inOut = i + 1) (hk : ok)
      (hm : mine cfg s c (i + 1) = true) :
      Effect cfg s c inOut ok ⟨(s.backend cfg i a).cleared cfg i, st, some 0⟩

section Shapes

variable {cfg : Cfg} {s : Slots} {c : ClientId} {type : OpType} {h : Nat} {a : Ans} {ok : Prop}

theorem mine_backend (i : Nat) : mine cfg (s.backend cfg i a) c h = mine cfg s c h := by
  by_cases hj : h - 1 = i
  · simp [mine, Slots.backend, hj]
  · simp [mine, Slots.backend, set_ne _ _ hj]

theorem mine_taken {i : Nat} (hi : i < cfg.concOperNum) :
    mine cfg (s.taken cfg c type i a) c (i + 1) = true := by
  rw [Slots.taken, mine_backend]
  exact mine_iff.mpr ⟨i, hi, rfl, by simp, by simp⟩

theorem operationRelease_mine {i : Nat} (hm : mine cfg s c (i + 1) = true) :
    operationRelease cfg s c (i + 1) = (s.cleared cfg i, .ok ()) := by
  obtain ⟨j, hj, he, hu, ho⟩ := mine_iff.mp hm
  obtain rfl : i = j := by omega
  exact release_iff.mpr ⟨i, hj, rfl, hu, ho, rfl⟩

theorem releaseOut_mine {i : Nat} (hm : mine cfg s c (i + 1) = true) :
    releaseOut cfg s c (i + 1) = (s.cleared cfg i, 0) := by
  simp only [releaseOut, operationRelease_mine hm]

theorem effect_refuse (hk : ok ↔ mine cfg s c h = false) : Effect cfg s c h ok (refuse s) :=
  .lost _ hk

/-- After a successful allocation the handle is initialised on every path. -/
theorem effect_setup {early : Nat} (hk : early = h ∧ ok ∨ early = 0 ∧ (ok ↔ mine cfg s c h = false)) :
    Effect cfg s c h ok (setup cfg s c type h a early) := by
  unfold setup
  split
  · next s' e ha =>
    obtain rfl := alloc_error ha
    rcases hk with ⟨rfl, hk⟩ | ⟨rfl, hk⟩
    · exact .same _ _ (.inr rfl) hk
    · exact .lost e hk
  next s' h' ha =>
  obtain ⟨i, hi, rfl, rfl, hu, rfl⟩ := alloc_ok ha
  have hok : ok := by
    rcases hk with ⟨-, hk⟩ | ⟨-, hk⟩
    · exact hk
    · exact hk.mpr mine_zero
  simp only [Nat.add_sub_cancel]
  cases a.status with
  | ok u => exact .alloc i type a hi rfl hok hu
  | error e =>
    have hm : mine cfg (s.taken cfg c type i a) c (i + 1) = true := mine_taken hi
    have hr := releaseOut_mine hm
    unfold Slots.taken at hr
    simp only [hr]
    exact .undo i type a e hi rfl hok hu

theorem lookup_mine {i : Nat} (hl : operationLookup cfg s c type h = .ok i) :
    h = i + 1 ∧ mine cfg s c (i + 1) = true := by
  obtain ⟨hi, rfl, hu, ho, -⟩ := lookup_iff.mp hl
  exact ⟨rfl, mine_iff.mpr ⟨i, hi, rfl, hu, ho⟩⟩

theorem effect_useOp (hk : ok) : Effect cfg s c h ok (useOp cfg s c type h a) := by
  unfold useOp
  split
  · exact .same _ _ (.inr rfl) hk
  · next i hl => exact .use i a _ _ (.inr rfl) hk (lookup_mine hl).2

theorem effect_finishOp (hk : ok) : Effect cfg s c h ok (finishOp cfg s c type h a) := by
  unfold finishOp
  split
  · exact .same _ _ (.inr rfl) hk
  next i hl =>
  obtain ⟨rfl, hm⟩ := lookup_mine hl
  cases ha : a.status with
  | error e => exact .use i a _ _ (.inr rfl) hk hm
  | ok u =>
    simp only [releaseOut_mine ((mine_backend i).trans hm)]
    exact .release i a _ rfl hk hm

theorem effect_abortOp (hk : ok) : Effect cfg s c h ok (abortOp cfg s c type h a) := by
  unfold abortOp
  split
  · exact .same _ _ (.inr rfl) hk
  next i hl =>
  obtain ⟨rfl, hm⟩ := lookup_mine hl
  have hm' : mine cfg (s.backend cfg i a) c (i + 1) = true := (mine_backend i).trans hm
  cases ha : a.status with
  | error e =>
    simp only [releaseOut_mine hm']
    exact .release i a _ rfl hk hm
  | ok u =>
    simp only [operationRelease_mine hm']
    exact .release i a _ rfl hk hm

theorem effect_deriveOp {pre mid : Except PsaStatus Unit} (hk : ok) :
    Effect cfg s c h ok (deriveOp cfg s c h a pre mid) := by
  unfold deriveOp
  split
  · exact .same _ _ (.inl rfl) hk
  split
  · exact .same _ _ (.inl rfl) hk
  next i hl =>
  split
  · exact .same _ _ (.inl rfl) hk
  · exact .use i a _ _ (.inl rfl) hk (lookup_mine hl).2

end Shapes

/-! ## The rules and the condition under which a call keeps them -/

/-- What the variable for the handle that is written back holds before the call: that of
the target of a clone is invalid. -/
def Call.inOut (l : Call) : Nat := if l.entry = .hashClone then 0 else l.h

/-- The call passes the checks of the dispatcher. -/
def Call.dispatched (cfg : Cfg) (l : Call) : Bool :=
  sizeofPackIovec ≤ l.inSize.getD 0 0 &&
    (allocScratch cfg ((l.inSize.take l.vecs.inLen).tail ++ l.outSize.take l.vecs.outLen) 0).isSome

/-- The client gave a vector for a handle. -/
def Call.handleVec (l : Call) : Bool := 1 ≤ l.vecs.outLen && l.vecs.out0 = 4

/-- The entry point hands back a handle. -/
def Entry.returnsHandle : Entry → Bool
  | .keyDerivationGetCapacity => false
  | .keyDerivationSetCapacity => false
  | .keyDerivationInputBytes => false
  | .keyDerivationOutputBytes => false
  | .keyDerivationInputKey => false
  | .keyDerivationOutputKey => false
  | .keyDerivationKeyAgreement => false
  | _ => true

/-- The largest numbers of input and output vectors. -/
def Entry.maxVecs : Entry → Nat × Nat
  | .hashUpdate => (2, 1)
  | .hashFinish => (1, 2)
  | .hashVerify => (2, 1)
  | .macUpdate => (2, 1)
  | .macSignFinish => (1, 2)
  | .macVerifyFinish => (2, 1)
  | .cipherGenerateIv => (1, 2)
  | .cipherSetIv => (2, 1)
  | .cipherUpdate => (2, 2)
  | .cipherFinish => (1, 2)
  | _ => (1, 1)

def Call.vecsOk (l : Call) : Bool :=
  checkHandleVecs l.vecs 1 l.entry.maxVecs.1 1 l.entry.maxVecs.2

/-- The source of a clone is found, there is a free slot for the target, and the back end
fails. -/
def cloneFails (cfg : Cfg) (s : Slots) (l : Call) : Bool :=
  l.vecsOk && (operationLookup cfg s l.clientId .hash l.h).isOk &&
    (freeSlot s cfg.concOperNum 0).isSome && !l.a.status.isOk

/-- The entry point writes its output handle before it can fail. -/
def writesFirst (l : Call) : Bool :=
  match l.entry with
  | .cipherEncryptSetup => false
  | .cipherDecryptSetup => false
  | .keyDerivationSetup => false
  | .macSignSetup => l.vecsOk && l.key.isOk
  | .macVerifySetup => l.vecsOk && l.key.isOk
  | _ => l.vecsOk

/-- The condition on a call: no clone whose back end fails, and no call with the handle of a
slot to an entry point that can fail before it writes that handle back. -/
def safe (cfg : Cfg) (s : Slots) (l : Call) : Bool :=
  !l.dispatched cfg || !l.handleVec || !l.entry.returnsHandle ||
    if l.entry = .hashClone then !cloneFails cfg s l
    else writesFirst l || !mine cfg s l.clientId l.h

def inUseCount (cfg : Cfg) (s : Slots) : Nat :=
  (List.range cfg.concOperNum).countP fun i => (s i).inUse

/-- All but the bytes of the context. -/
def Slot.tag (x : Slot) : Bool × ClientId × OpType := (x.inUse, x.owner, x.type)

/-- The rules for the end of a call of `c`: there are more slots in use only if the call
succeeds and hands over the new handle, and a failing call hands back the handle with its
slot intact or the invalid handle with its slot released. -/
structure Law (cfg : Cfg) (s : Slots) (c : ClientId) (inOut : Nat) (o : Out) : Prop where
  grows : inUseCount cfg s < inUseCount cfg o.slots →
    o.status = .ok () ∧ ∃ h, o.handle = some h ∧
      mine cfg s c h = false ∧ mine cfg o.slots c h = true
  fails : ∀ e, o.status = .error e → match o.handle with
    | none => ∀ i, (o.slots i).tag = (s i).tag
    | some h => (h = inOut ∧ (o.slots (h - 1)).tag = (s (h - 1)).tag) ∨
      (h = 0 ∧ mine cfg o.slots c inOut = false)

/-! ## The effect of a call -/

section Calls

variable {cfg : Cfg} {s : Slots}

/-- An entry point that checks its vectors and then writes its output handle. -/
theorem effect_checked {c : ClientId} {h : Nat} {ok : Prop} {v : Vecs} {inMax outMax : Nat}
    {o : Out} (hk : ok ↔ (checkHandleVecs v 1 inMax 1 outMax || !mine cfg s c h) = true)
    (hg : ok → Effect cfg s c h ok o) :
    Effect cfg s c h ok (if !checkHandleVecs v 1 inMax 1 outMax then refuse s else o) := by
  cases hv : checkHandleVecs v 1 inMax 1 outMax with
  | false => exact effect_refuse (by simpa [hv] using hk)
  | true => exact hg (by simpa [hv] using hk)

/-- An entry point that checks its vectors and the key, and writes its output handle once
there is a slot. -/
theorem effect_cipherSetup {c : ClientId} {x : Args} {ok : Prop}
    (hk : ok ↔ mine cfg s c x.h = false) : Effect cfg s c x.h ok (cipherSetup cfg s c x) := by
  unfold cipherSetup
  split
  · exact effect_refuse hk
  split
  · exact .lost _ hk
  · exact effect_setup (.inr ⟨rfl, hk⟩)

theorem effect_keyDerivationSetup {c : ClientId} {x : Args} {ok : Prop}
    (hk : ok ↔ mine cfg s c x.h = false) : Effect cfg s c x.h ok (keyDerivationSetup cfg s c x) := by
  unfold keyDerivationSetup
  split
  · exact effect_refuse hk
  · exact effect_setup (.inr ⟨rfl, hk⟩)

/-- The key is checked in between. -/
theorem effect_macSetup {c : ClientId} {x : Args} {ok : Prop}
    (hk : ok ↔ ((checkHandleVecs x.v 1 1 1 1 && x.key.isOk) || !mine cfg s c x.h) = true) :
    Effect cfg s c x.h ok (macSetup cfg s c x) := by
  unfold macSetup
  split
  · next hv =>
    rw [Bool.not_eq_true'] at hv
    exact effect_refuse (by simpa [hv] using hk)
  next hv =>
  rw [Bool.not_eq_true', Bool.not_eq_false] at hv
  split
  · next e he => exact .lost _ (by simpa [he, Except.isOk, Except.toBool] using hk)
  · next he => exact effect_setup (.inl ⟨rfl, hk.mpr (by simp [hv, he, Except.isOk, Except.toBool])⟩)

/-- A clone hands back the handle of its target. -/
theorem effect_hashClone {c : ClientId} {x : Args} {ok : Prop}
    (hk : ok ↔ (checkHandleVecs x.v 1 1 1 1 && (operationLookup cfg s c .hash x.h).isOk &&
      (freeSlot s cfg.concOperNum 0).isSome && !x.a.status.isOk) = false) :
    Effect cfg s c 0 ok (hashClone cfg s c x) := by
  unfold hashClone
  split
  · next hv =>
    rw [Bool.not_eq_true'] at hv
    exact .same _ _ (.inr rfl) (hk.mpr (by simp [hv]))
  next hv =>
  split
  · next e hl => exact .same _ _ (.inr rfl) (hk.mpr (by simp [hl, Except.isOk, Except.toBool]))
  next i hl =>
  cases hf : freeSlot s cfg.concOperNum 0 with
  | none =>
    simp only [operationAlloc, ne_eq, not_true_eq_false, if_false, hf]
    exact .same _ _ (.inr rfl) (hk.mpr (by simp [hf]))
  | some j =>
    obtain ⟨-, hj, hu⟩ := freeSlot_some s _ _ _ hf
    rw [Nat.zero_add] at hj
    rw [Bool.not_eq_true', Bool.not_eq_false] at hv
    simp only [hv, hl, hf, Except.isOk, Except.toBool, Option.isSome_some, Bool.and_true,
      Bool.true_and, Bool.not_eq_false'] at hk
    simp only [operationAlloc, ne_eq, not_true_eq_false, if_false, hf, Nat.add_sub_cancel]
    cases hs : x.a.status with
    | ok u => exact .alloc j .hash x.a hj rfl (hk.mpr (by rw [hs])) hu
    | error e => exact .leak j .hash x.a e hj rfl (fun h => by simpa [hs] using hk.mp h) hu

theorem deriveOp_handle (c : ClientId) (h : Nat) (a : Ans) (pre mid : Except PsaStatus Unit) :
    (deriveOp cfg s c h a pre mid).handle = none := by
  unfold deriveOp
  split
  · rfl
  split
  · rfl
  split
  · rfl
  · rfl

theorem effect_derive {c : ClientId} {x : Args} {e : Entry} {ok : Prop}
    (he : e.returnsHandle = false) (hk : ok) :
    Effect cfg s c x.h ok (sfidFunc cfg s c x e) ∧ (sfidFunc cfg s c x e).handle = none := by
  have hd : ∀ (b : Bool) (pre mid : Except PsaStatus Unit),
      Effect cfg s c x.h ok (if b then ⟨s, .error .programmerError, none⟩
        else deriveOp cfg s c x.h x.a pre mid) ∧
      (if b then ⟨s, .error .programmerError, none⟩
        else deriveOp cfg s c x.h x.a pre mid : Out).handle = none := by
    intro b pre mid
    cases b with
    | true => exact ⟨.same _ _ (.inl rfl) hk, rfl⟩
    | false => exact ⟨effect_deriveOp hk, deriveOp_handle _ _ _ _ _⟩
  cases e <;> first
    | exact absurd he Bool.noConfusion
    | exact hd _ _ _

/-- Without a vector for it, an entry point that hands back a handle does nothing. -/
theorem sfidFunc_refuse {c : ClientId} {x : Args} {e : Entry} (he : e.returnsHandle = true)
    (hv : (1 ≤ x.v.outLen && x.v.out0 = 4) = false) : sfidFunc cfg s c x e = refuse s := by
  have hc : ∀ inMax outMax, checkHandleVecs x.v 1 inMax 1 outMax = false := by
    intro inMax outMax
    simp only [Bool.and_eq_false_iff, decide_eq_false_iff_not] at hv
    simp only [checkHandleVecs, checkLength, Bool.and_eq_false_iff, decide_eq_false_iff_not]
    rcases hv with hv | hv
    · exact .inl (.inl (.inl (.inr hv)))
    · exact .inl (.inr hv)
  have hr : ∀ inMax outMax (o : Out),
      (if !checkHandleVecs x.v 1 inMax 1 outMax then refuse s else o) = refuse s := by
    intro inMax outMax o
    rw [hc]
    rfl
  cases e <;> first
    | exact absurd he Bool.noConfusion
    | exact hr _ _ _

theorem effect_sfid {l : Call} (hd : l.dispatched cfg = true) (hv : l.handleVec = true)
    (hr : l.entry.returnsHandle = true) :
    Effect cfg s l.clientId l.inOut (safe cfg s l = true)
      (sfidFunc cfg s l.clientId ⟨l.vecs, l.h, l.key, l.storage, l.a⟩ l.entry) := by
  have hsafe : safe cfg s l = if l.entry = .hashClone then !cloneFails cfg s l
      else writesFirst l || !mine cfg s l.clientId l.h := by
    simp only [safe, hd, hv, hr, Bool.not_true, Bool.false_or]
  by_cases hc : l.entry = .hashClone
  · rw [hsafe, if_pos hc, Call.inOut, if_pos hc, hc]
    refine effect_hashClone ?_
    rw [Bool.not_eq_true', cloneFails, Call.vecsOk, hc]
    rfl
  rw [hsafe, if_neg hc, Call.inOut, if_neg hc]
  clear hsafe
  obtain ⟨e, c, ins, outs, h, key, storage, a⟩ := l
  cases e
  case hashClone => exact absurd rfl hc
  case hashSetup => exact effect_checked .rfl fun hk => effect_setup (.inl ⟨rfl, hk⟩)
  case macSignSetup => exact effect_macSetup (x := ⟨_, h, key, storage, a⟩) .rfl
  case macVerifySetup => exact effect_macSetup (x := ⟨_, h, key, storage, a⟩) .rfl
  case cipherEncryptSetup => exact effect_cipherSetup (x := ⟨_, h, key, storage, a⟩) (by simp [writesFirst])
  case cipherDecryptSetup => exact effect_cipherSetup (x := ⟨_, h, key, storage, a⟩) (by simp [writesFirst])
  case keyDerivationSetup =>
    exact effect_keyDerivationSetup (x := ⟨_, h, key, storage, a⟩) (by simp [writesFirst])
  all_goals first
    | exact absurd hr Bool.noConfusion
    | exact effect_checked .rfl effect_useOp
    | exact effect_checked .rfl effect_finishOp
    | exact effect_checked .rfl effect_abortOp

theorem safe_skip {l : Call}
    (h : l.dispatched cfg = false ∨ l.handleVec = false ∨ l.entry.returnsHandle = false) :
    safe cfg s l = true := by
  rcases h with h | h | h <;> simp [safe, h]

theorem effect_call (l : Call) :
    Effect cfg s l.clientId l.inOut (safe cfg s l = true) (callSfn cfg s l) := by
  unfold callSfn
  split
  · next h0 =>
    have hle : decide (sizeofPackIovec ≤ l.inSize.getD 0 0) = false := decide_eq_false (by omega)
    exact .same _ _ (.inl rfl) (safe_skip (.inl (by simp only [Call.dispatched, hle, Bool.false_and])))
  next h0 =>
  split
  · next hs =>
    exact .same _ _ (.inl rfl) (safe_skip (.inl (by
      simp only [Call.dispatched, hs, Option.isSome_none, Bool.and_false])))
  next n hs =>
  have hd : l.dispatched cfg = true := by
    simp only [Call.dispatched, hs, Bool.and_eq_true, decide_eq_true_eq]
    exact ⟨by omega, rfl⟩
  cases hr : l.entry.returnsHandle with
  | false =>
    have hne : l.entry ≠ .hashClone := by
      intro he
      rw [he] at hr
      cases hr
    have hsafe : safe cfg s l = true := safe_skip (.inr (.inr hr))
    obtain ⟨heff, hnone⟩ := @effect_derive cfg s l.clientId
      ⟨l.vecs, l.h, l.key, l.storage, l.a⟩ l.entry _ hr hsafe
    simp only [Call.inOut, if_neg hne]
    generalize sfidFunc cfg s l.clientId _ l.entry = o at heff hnone
    obtain ⟨s', st, hh⟩ := o
    obtain rfl : hh = none := hnone
    simpa only [ite_self] using heff
  | true =>
    cases hv : l.handleVec with
    | false =>
      have hout : ¬ (1 ≤ l.vecs.outLen ∧ l.vecs.out0 = 4) := by simpa [Call.handleVec] using hv
      simp only [if_neg hout]
      rw [sfidFunc_refuse (x := ⟨l.vecs, l.h, l.key, l.storage, l.a⟩) hr hv]
      exact .same _ _ (.inl rfl) (safe_skip (.inr (.inl hv)))
    | true =>
      have hout : 1 ≤ l.vecs.outLen ∧ l.vecs.out0 = 4 := by simpa [Call.handleVec] using hv
      simp only [if_pos hout]
      exact effect_sfid hd hv hr

end Calls

/-! ## Slots in use -/

section Tags

variable {cfg : Cfg} {s s' : Slots} {c : ClientId} {type : OpType} {i j h : Nat} {a : Ans}

theorem backend_tag : ((s.backend cfg i a) j).tag = (s j).tag := by
  by_cases hj : j = i
  · subst hj
    simp [Slots.backend, Slot.tag]
  · rw [Slots.backend, set_ne _ _ hj]

theorem taken_self : ((s.taken cfg c type i a) i).tag = (true, c, type) := by
  rw [Slots.taken, backend_tag]
  simp [Slot.tag]

theorem taken_ne (hj : j ≠ i) : (s.taken cfg c type i a) j = s j := by
  rw [Slots.taken, Slots.backend, set_ne _ _ hj, set_ne _ _ hj]

theorem cleared_self : ((s.cleared cfg i) i).tag = (false, 0, .none) := by
  simp [Slots.cleared, Slot.tag]

theorem cleared_ne (hj : j ≠ i) : (s.cleared cfg i) j = s j := set_ne _ _ hj

theorem tag_inUse {x y : Slot} (ht : x.tag = y.tag) : x.inUse = y.inUse := congrArg (·.1) ht

theorem tag_owner {x y : Slot} (ht : x.tag = y.tag) : x.owner = y.owner := congrArg (·.2.1) ht

/-- What an allocation that is undone leaves behind. -/
theorem undo_inUse (hu : (s i).inUse = false) :
    (((s.taken cfg c type i a).cleared cfg i) j).inUse = (s j).inUse := by
  by_cases hj : j = i
  · subst hj
    exact (tag_inUse (y := ⟨false, 0, .none, fun _ => 0⟩) cleared_self).trans hu.symm
  · rw [cleared_ne hj, taken_ne hj]

theorem release_inUse (h : (((s.backend cfg i a).cleared cfg i) j).inUse = true) :
    j ≠ i ∧ (s j).inUse = true := by
  by_cases hj : j = i
  · subst hj
    have := tag_inUse (y := ⟨false, 0, .none, fun _ => 0⟩)
      (@cleared_self cfg (s.backend cfg j a) j)
    rw [this] at h
    cases h
  · rw [cleared_ne hj, tag_inUse backend_tag] at h
    exact ⟨hj, h⟩

theorem inUseCount_le (hu : ∀ i, (s' i).inUse = true → (s i).inUse = true) :
    inUseCount cfg s' ≤ inUseCount cfg s :=
  List.countP_mono_left fun i _ => hu i

end Tags

/-! ## The rules -/

section Rules

variable {cfg : Cfg} {s : Slots}

theorem not_grows {cfg : Cfg} {s s' : Slots} {P : Prop}
    (hu : ∀ i, (s' i).inUse = true → (s i).inUse = true) :
    inUseCount cfg s < inUseCount cfg s' → P := fun hlt =>
  absurd (inUseCount_le hu) (Nat.not_le_of_lt hlt)

theorem law_tags {c : ClientId} {inOut : Nat} {s' : Slots} {st : Except PsaStatus Unit}
    {hd : Option Nat} (hh : hd = none ∨ hd = some inOut) (ht : ∀ i, (s' i).tag = (s i).tag) :
    Law cfg s c inOut ⟨s', st, hd⟩ where
  grows := not_grows fun i hu => tag_inUse (ht i) ▸ hu
  fails e _ := by
    rcases hh with rfl | rfl
    · exact ht
    · exact .inl ⟨rfl, ht _⟩

theorem law_effect {c : ClientId} {inOut : Nat} {ok : Prop} {o : Out}
    (h : Effect cfg s c inOut ok o) : Law cfg s c inOut o ↔ ok := by
  cases h with
  | same st hd hh hk => exact iff_of_true (law_tags hh fun _ => rfl) hk
  | use i a st hd hh hk hm => exact iff_of_true (law_tags hh fun _ => backend_tag) hk
  | lost e hk =>
    rw [hk]
    constructor
    · intro hl
      rcases hl.fails e rfl with ⟨h0, -⟩ | ⟨-, hm⟩
      · rw [← h0]
        exact mine_zero
      · exact hm
    · exact fun hm => ⟨not_grows fun i hu => hu, fun e' _ => .inr ⟨rfl, hm⟩⟩
  | alloc i type a hi h0 hk hu =>
    refine iff_of_true ⟨fun _ => ⟨rfl, i + 1, rfl, ?_, mine_taken hi⟩, ?_⟩ hk
    · simp [mine, hu]
    · intro e he
      cases he
  | leak i type a e hi h0 hk hu =>
    refine iff_of_false (fun hl => ?_) hk
    rcases hl.fails e rfl with ⟨h1, -⟩ | ⟨h1, -⟩
    · omega
    · omega
  | undo i type a e hi h0 hk hu =>
    subst h0
    refine iff_of_true ⟨not_grows fun j hj => ?_, fun e' _ => .inr ⟨rfl, mine_zero⟩⟩ hk
    rw [undo_inUse hu] at hj
    exact hj
  | release i a st hi hk hm =>
    subst hi
    refine iff_of_true ⟨not_grows fun j hj => (release_inUse hj).2, fun e' _ => .inr ⟨rfl, ?_⟩⟩ hk
    simp [mine, Slots.cleared]

/-- **A call keeps the rules exactly if it is safe.** -/
theorem law_iff (l : Call) :
    Law cfg s l.clientId l.inOut (callSfn cfg s l) ↔ safe cfg s l = true :=
  law_effect (effect_call l)

end Rules

/-! ## Runs -/

/-- The slots, the handles each client holds, and the client whose call took a slot into
use. -/
structure St where
  slots : Slots
  held : ClientId → Nat → Bool
  allocBy : Nat → ClientId

def St.init : St := ⟨.init, fun _ _ => false, fun _ => 0⟩

/-- A client holds what is handed back in place of what its variable held. -/
def hand (held : Nat → Bool) (inOut : Nat) : Option Nat → Nat → Bool
  | none, x => held x
  | some h, x => x = h || (held x && x ≠ inOut)

def step (cfg : Cfg) (s : St) (l : Call) : Option St :=
  let o := callSfn cfg s.slots l
  some
    { slots := o.slots
      held := fun c => if c = l.clientId then hand (s.held c) l.inOut o.handle else s.held c
      allocBy := fun i =>
        if (s.slots i).inUse = false ∧ (o.slots i).inUse = true then l.clientId else s.allocBy i }

def lts (cfg : Cfg) : LTS St Call := LTS.ofFn (· = St.init) (step cfg)

/-- Every slot in use has a handle its owner holds. -/
def Held (cfg : Cfg) (s : St) : Prop :=
  ∀ i < cfg.concOperNum, (s.slots i).inUse = true → s.held (s.slots i).owner (i + 1) = true

section Runs

variable {cfg : Cfg} {s : St}

theorem hand_keep {held : Nat → Bool} {inOut x : Nat} {hd : Option Nat} (h : held x = true)
    (hne : ∀ h', hd = some h' → x = inOut → h' = x) : hand held inOut hd x = true := by
  cases hd with
  | none => exact h
  | some h' =>
    simp only [hand, h, Bool.true_and, Bool.or_eq_true, decide_eq_true_eq, ne_eq, decide_not,
      Bool.not_eq_true', decide_eq_false_iff_not]
    by_cases hx : x = inOut
    · exact .inl (hne h' rfl hx).symm
    · exact .inr hx

/-- A slot in use after a safe call was in use before and its handle is not overwritten, or
it is new and its handle is handed over. -/
theorem inUse_effect {s : Slots} {c : ClientId} {inOut : Nat} {ok : Prop} {o : Out} (hk : ok)
    (he : Effect cfg s c inOut ok o) {i : Nat} (hi : i < cfg.concOperNum)
    (hu : (o.slots i).inUse = true) :
    ((s i).inUse = true ∧ (o.slots i).owner = (s i).owner ∧
      ((s i).owner = c → ∀ h, o.handle = some h → i + 1 = inOut → h = i + 1)) ∨
    ((s i).inUse = false ∧ (o.slots i).owner = c ∧ o.handle = some (i + 1)) := by
  cases he with
  | same st hd hh hk =>
    refine .inl ⟨hu, rfl, fun _ h hh' hin => ?_⟩
    rcases hh with rfl | rfl
    · cases hh'
    · cases hh'
      exact hin.symm
  | lost e hk' =>
    refine .inl ⟨hu, rfl, fun ho h _ hin => ?_⟩
    have hm := hk'.mp hk
    rw [← hin, mine_iff.mpr ⟨i, hi, rfl, hu, ho⟩] at hm
    cases hm
  | use j a st hd hh hk hm =>
    rw [tag_inUse backend_tag] at hu
    refine .inl ⟨hu, tag_owner backend_tag, fun _ h hh' hin => ?_⟩
    rcases hh with rfl | rfl
    · cases hh'
    · cases hh'
      exact hin.symm
  | alloc j type a hj h0 hk hu' =>
    by_cases hij : i = j
    · subst hij
      exact .inr ⟨hu', tag_owner (y := ⟨true, c, type, fun _ => 0⟩) taken_self, rfl⟩
    · dsimp only at hu ⊢
      rw [taken_ne hij] at hu ⊢
      refine .inl ⟨hu, rfl, fun _ h _ hin => ?_⟩
      omega
  | leak j type a e hj h0 hk' hu' => exact absurd hk hk'
  | undo j type a e hj h0 hk hu' =>
    rw [undo_inUse hu'] at hu
    have hij : i ≠ j := by
      intro hx
      subst hx
      rw [hu] at hu'
      cases hu'
    dsimp only
    rw [cleared_ne hij, taken_ne hij]
    refine .inl ⟨hu, rfl, fun _ h _ hin => ?_⟩
    omega
  | release j a st hj hk hm =>
    obtain ⟨hij, hu⟩ := release_inUse hu
    dsimp only
    rw [cleared_ne hij, tag_owner backend_tag]
    refine .inl ⟨hu, rfl, fun _ h _ hin => ?_⟩
    omega

theorem held_step {l : Call} {s' : St} (hk : safe cfg s.slots l = true) (h : Held cfg s)
    (hs : step cfg s l = some s') : Held cfg s' := by
  cases hs
  intro i hi hu
  rcases inUse_effect hk (effect_call l) hi hu with ⟨hu', ho, hkeep⟩ | ⟨-, ho, hnew⟩
  · simp only [ho]
    by_cases hc : (s.slots i).owner = l.clientId
    · rw [if_pos hc]
      exact hand_keep (h i hi hu') (hkeep hc)
    · rw [if_neg hc]
      exact h i hi hu'
  · simp only [ho, if_true, hnew, hand, decide_true, Bool.true_or]

theorem held_inductive (cfg : Cfg) :
    ((lts cfg).restrict fun s l => safe cfg s.slots l = true).Inductive (Held cfg) where
  init := by
    intro s hx i hi hu
    subst hx
    cases hu
  step := fun s l s' h hs => held_step hs.1 h hs.2

/-- **No leak and no lost handle** in the runs in which no clone fails in the back end and
no handle of a slot is given to an entry point that fails before it writes it back. There
a call keeps the rules exactly if it is such a call, and every slot in use has a handle
its owner holds. -/
theorem law_reachable (cfg : Cfg) (s : St)
    (h : ((lts cfg).restrict fun s l => safe cfg s.slots l = true).Reachable s) :
    (∀ l : Call, Law cfg s.slots l.clientId l.inOut (callSfn cfg s.slots l) ↔
      safe cfg s.slots l = true) ∧
    ∀ i < cfg.concOperNum, (s.slots i).inUse = true → s.held (s.slots i).owner (i + 1) = true :=
  ⟨fun l => law_iff l, (held_inductive cfg).reachable s h⟩

def exCfg : Cfg where
  concOperNum := 4
  sizeOf := fun t => if t = .none then 0 else 8
  sizeOf_none := rfl
  iovecBufferSize := 1024

/-- A call of client 1 with the smallest vectors. The back end fills the context. -/
def exCall (e : Entry) (h : Nat) (st : Except PsaStatus Unit) : Call :=
  ⟨e, 1, [44], [4], h, .ok (), .ok (), ⟨st, fun _ => 7⟩⟩

/-- Client 1 clones a hash operation and aborts the first one. -/
def cloneTrace : List Call :=
  [exCall .hashSetup 0 (.ok ()), exCall .hashClone 1 (.ok ()), exCall .hashAbort 1 (.ok ())]

theorem law_cloned : ∃ s : St, s.held 1 2 = true ∧ (s.slots 1).inUse = true ∧
    Law exCfg s.slots 1 2 (callSfn exCfg s.slots (exCall .hashFinish 2 (.error .bufferTooSmall))) := by
  have he : (LTS.execC (fun s l => safe exCfg s.slots l) (step exCfg) .init cloneTrace).isSome =
      true := by decide +kernel
  obtain ⟨s, hs⟩ := Option.isSome_iff_exists.1 he
  obtain ⟨hlaw, hheld⟩ := law_reachable exCfg s
    (LTS.reachable_execC (fun _ _ h => h) cloneTrace rfl hs)
  have hv : (LTS.execC (fun s l => safe exCfg s.slots l) (step exCfg) .init cloneTrace).map
      (fun s => ((s.slots 1).tag, safe exCfg s.slots (exCall .hashFinish 2 (.error .bufferTooSmall)))) =
      some ((true, 1, .hash), true) := by decide +kernel
  rw [hs] at hv
  simp only [Option.map_some, Option.some.injEq, Prod.mk.injEq, Slot.tag] at hv
  have hh := hheld 1 (by decide) hv.1.1
  rw [hv.1.2.1] at hh
  exact ⟨s, hh, hv.1.1, (hlaw _).mpr hv.2⟩

/-- Client 1 sets a cipher operation up and uses its handle for another one. -/
def twiceSetup : List Call :=
  [exCall .cipherEncryptSetup 0 (.ok ()), exCall .cipherEncryptSetup 1 (.ok ())]

/-- **Counterexample**: a clone whose back end fails returns an error and keeps the slot of
the target; and a setup with the handle of an operation is refused and hands back the
invalid handle, so that no one holds the handle of the slot in use. -/
theorem leak_and_lost :
    (∃ s : St, (lts exCfg).Reachable s ∧
      ∃ l, l = exCall .hashClone 1 (.error .insufficientMemory) ∧
        (callSfn exCfg s.slots l).status = .error .insufficientMemory ∧
        inUseCount exCfg (callSfn exCfg s.slots l).slots = inUseCount exCfg s.slots + 1 ∧
        ¬ Law exCfg s.slots l.clientId l.inOut (callSfn exCfg s.slots l)) ∧
    ∃ s : St, (lts exCfg).Reachable s ∧ (s.slots 0).tag = (true, 1, .cipher) ∧
      s.held 1 1 = false := by
  constructor
  · have he : (LTS.exec (step exCfg) .init [exCall .hashSetup 0 (.ok ())]).isSome = true := by
      decide +kernel
    obtain ⟨s, hs⟩ := Option.isSome_iff_exists.1 he
    refine ⟨s, LTS.reachable_exec _ (.init rfl) hs, _, rfl, ?_⟩
    have hv : (LTS.exec (step exCfg) .init [exCall .hashSetup 0 (.ok ())]).map (fun s =>
        ((callSfn exCfg s.slots (exCall .hashClone 1 (.error .insufficientMemory))).status,
          inUseCount exCfg
            (callSfn exCfg s.slots (exCall .hashClone 1 (.error .insufficientMemory))).slots,
          inUseCount exCfg s.slots,
          safe exCfg s.slots (exCall .hashClone 1 (.error .insufficientMemory)))) =
        some (.error .insufficientMemory, 2, 1, false) := by decide +kernel
    rw [hs] at hv
    simp only [Option.map_some, Option.some.injEq, Prod.mk.injEq] at hv
    refine ⟨hv.1, by rw [hv.2.1, hv.2.2.1], fun hlaw => ?_⟩
    rw [law_iff, hv.2.2.2] at hlaw
    cases hlaw
  · have he : (LTS.exec (step exCfg) .init twiceSetup).isSome = true := by decide +kernel
    obtain ⟨s, hs⟩ := Option.isSome_iff_exists.1 he
    have hv : (LTS.exec (step exCfg) .init twiceSetup).map (fun s =>
        ((s.slots 0).tag, s.held 1 1)) = some ((true, 1, .cipher), false) := by decide +kernel
    rw [hs] at hv
    simp only [Option.map_some, Option.some.injEq, Prod.mk.injEq] at hv
    exact ⟨s, LTS.reachable_exec _ (.init rfl) hs, hv.1, hv.2⟩

/-! ## Isolation -/

/-- A slot in use is zero beyond the structure of its type, every other slot is blank. -/
structure Clean (cfg : Cfg) (s : Slots) : Prop where
  tail : ∀ i, (s i).inUse = true → ∀ o, cfg.sizeOf (s i).type ≤ o → (s i).operation o = 0
  blank : ∀ i, (s i).inUse = false → s i = .empty

theorem clean_set {s : Slots} {i : Nat} {x : Slot} (h : Clean cfg s)
    (ht : x.inUse = true → ∀ o, cfg.sizeOf x.type ≤ o → x.operation o = 0)
    (hb : x.inUse = false → x = .empty) : Clean cfg (s.set i x) where
  tail j := by
    by_cases hj : j = i
    · rw [hj, set_self]
      exact ht
    · rw [set_ne _ _ hj]
      exact h.tail j
  blank j := by
    by_cases hj : j = i
    · rw [hj, set_self]
      exact hb
    · rw [set_ne _ _ hj]
      exact h.blank j

theorem clean_backend {s : Slots} {i : Nat} {a : Ans} (h : Clean cfg s)
    (hu : (s i).inUse = true) : Clean cfg (s.backend cfg i a) := by
  refine clean_set h (fun _ o ho => ?_) fun hu' => absurd (hu.symm.trans hu') Bool.noConfusion
  exact (if_neg (Nat.not_lt_of_le ho)).trans (h.tail i hu o ho)

theorem clean_taken {s : Slots} {c : ClientId} {type : OpType} {i : Nat} {a : Ans}
    (h : Clean cfg s) (hu : (s i).inUse = false) : Clean cfg (s.taken cfg c type i a) := by
  refine clean_backend (clean_set h (fun _ o _ => ?_) fun hu' => by cases hu') (by rw [set_self])
  simp only [h.blank i hu]
  rfl

/-- The type of the slot is still there when its bytes are cleared, and there is nothing
beyond the structure of that type. -/
theorem clean_cleared {s : Slots} {i : Nat} (h : Clean cfg s) (hu : (s i).inUse = true) :
    Clean cfg (s.cleared cfg i) := by
  refine clean_set h (fun hu' => by cases hu') fun _ => ?_
  have hz : (memsetOperationContext cfg s i i).operation = fun _ => 0 := by
    funext o
    simp only [memsetOperationContext, set_self]
    split
    · rfl
    · next ho => exact h.tail i hu o (Nat.le_of_not_lt ho)
  rw [hz]
  rfl

theorem mine_inUse {s : Slots} {c : ClientId} {i : Nat} (h : mine cfg s c (i + 1) = true) :
    (s i).inUse = true ∧ (s i).owner = c := by
  obtain ⟨j, -, he, hu, ho⟩ := mine_iff.mp h
  obtain rfl : i = j := by omega
  exact ⟨hu, ho⟩

theorem taken_inUse {s : Slots} {c : ClientId} {type : OpType} {i : Nat} {a : Ans} :
    (s.taken cfg c type i a i).inUse = true :=
  tag_inUse (y := ⟨true, c, type, fun _ => 0⟩) taken_self

theorem clean_effect {s : Slots} {c : ClientId} {inOut : Nat} {ok : Prop} {o : Out}
    (he : Effect cfg s c inOut ok o) (h : Clean cfg s) : Clean cfg o.slots := by
  cases he with
  | same st hd hh hk => exact h
  | lost e hk => exact h
  | use i a st hd hh hk hm => exact clean_backend h (mine_inUse hm).1
  | alloc i type a hi h0 hk hu => exact clean_taken h hu
  | leak i type a e hi h0 hk hu => exact clean_taken h hu
  | undo i type a e hi h0 hk hu => exact clean_cleared (clean_taken h hu) taken_inUse
  | release i a st hi hk hm =>
    have hu := (mine_inUse hm).1
    exact clean_cleared (clean_backend h hu) ((tag_inUse backend_tag).trans hu)

/-- A call leaves the slots in use by other clients alone. -/
theorem frame_effect {s : Slots} {c : ClientId} {inOut : Nat} {ok : Prop} {o : Out}
    (he : Effect cfg s c inOut ok o) {i : Nat} (hu : (s i).inUse = true) (ho : (s i).owner ≠ c) :
    o.slots i = s i := by
  have hmine : ∀ j, mine cfg s c (j + 1) = true → i ≠ j := by
    intro j hm h
    subst h
    exact ho (mine_inUse hm).2
  have hfree : ∀ j, (s j).inUse = false → i ≠ j := by
    intro j hf h
    subst h
    rw [hu] at hf
    cases hf
  cases he with
  | same st hd hh hk => rfl
  | lost e hk => rfl
  | use j a st hd hh hk hm => exact set_ne _ _ (hmine j hm)
  | alloc j type a hj h0 hk hf => exact taken_ne (hfree j hf)
  | leak j type a e hj h0 hk hf => exact taken_ne (hfree j hf)
  | undo j type a e hj h0 hk hf =>
    exact (cleared_ne (hfree j hf)).trans (taken_ne (hfree j hf))
  | release j a st hj hk hm =>
    exact (cleared_ne (hmine j hm)).trans (set_ne _ _ (hmine j hm))

/-- A slot that a call takes into use belongs to the client of the call, one that stays in
use keeps its owner. -/
theorem owner_effect {s : Slots} {c : ClientId} {inOut : Nat} {ok : Prop} {o : Out}
    (he : Effect cfg s c inOut ok o) {i : Nat} (hu : (o.slots i).inUse = true) :
    (o.slots i).owner = if (s i).inUse = false then c else (s i).owner := by
  have hold : (s i).inUse = true →
      (s i).owner = if (s i).inUse = false then c else (s i).owner := by
    intro hu
    rw [if_neg (by simp [hu])]
  have htake : ∀ j type a, (s j).inUse = false → (s.taken cfg c type j a i).inUse = true →
      (s.taken cfg c type j a i).owner = if (s i).inUse = false then c else (s i).owner := by
    intro j type a hf hu
    by_cases hij : i = j
    · subst hij
      rw [if_pos hf]
      exact tag_owner (y := ⟨true, c, type, fun _ => 0⟩) taken_self
    · rw [taken_ne hij] at hu ⊢
      exact hold hu
  cases he with
  | same st hd hh hk => exact hold hu
  | lost e hk => exact hold hu
  | use j a st hd hh hk hm =>
    dsimp only at hu ⊢
    rw [tag_inUse backend_tag] at hu
    rw [tag_owner backend_tag]
    exact hold hu
  | alloc j type a hj h0 hk hf => exact htake j type a hf hu
  | leak j type a e hj h0 hk hf => exact htake j type a hf hu
  | undo j type a e hj h0 hk hf =>
    dsimp only at hu ⊢
    rw [undo_inUse hf] at hu
    have hij : i ≠ j := by
      intro h
      subst h
      rw [hu] at hf
      cases hf
    rw [cleared_ne hij, taken_ne hij]
    exact hold hu
  | release j a st hj hk hm =>
    obtain ⟨hij, hu⟩ := release_inUse hu
    dsimp only
    rw [cleared_ne hij, tag_owner backend_tag]
    exact hold hu

/-- The owner of a slot in use is the client whose call took it into use. -/
structure Iso (cfg : Cfg) (s : St) : Prop where
  clean : Clean cfg s.slots
  owner : ∀ i, (s.slots i).inUse = true → (s.slots i).owner = s.allocBy i

theorem iso_inductive (cfg : Cfg) : (lts cfg).Inductive (Iso cfg) where
  init := by
    intro s hx
    subst hx
    refine ⟨⟨fun i hu => ?_, fun i _ => rfl⟩, fun i hu => ?_⟩
    · cases hu
    · cases hu
  step := by
    intro s l s' h hs
    cases hs
    refine ⟨clean_effect (effect_call l) h.clean, fun i hu => ?_⟩
    dsimp only at hu ⊢
    rw [owner_effect (effect_call l) hu]
    cases hb : (s.slots i).inUse with
    | false => simp [hu]
    | true => simpa using h.owner i hb

/-- **Operation slots are isolated** in every run. At any point of a call a lookup or a
release succeeds only on a slot in use of the calling client, the lookup only on one of the
requested type; that client is the one whose call took the slot into use. A call changes
nothing in a slot in use by another client, and every slot that is not in use is blank, so
that an allocation starts from zero. -/
theorem isolated_reachable (cfg : Cfg) (s : St) (h : (lts cfg).Reachable s) :
    (∀ (t : Slots) (c : ClientId) (type : OpType) (hd i : Nat),
      operationLookup cfg t c type hd = .ok i →
        hd = i + 1 ∧ (t i).inUse = true ∧ (t i).type = type ∧ (t i).owner = c) ∧
    (∀ (t t' : Slots) (c : ClientId) (hd : Nat), operationRelease cfg t c hd = (t', .ok ()) →
      ∃ i, hd = i + 1 ∧ (t i).inUse = true ∧ (t i).owner = c) ∧
    (∀ i, (s.slots i).inUse = true → (s.slots i).owner = s.allocBy i) ∧
    (∀ (l : Call) (i : Nat), (s.slots i).inUse = true → s.allocBy i ≠ l.clientId →
      (callSfn cfg s.slots l).slots i = s.slots i) ∧
    (∀ (l : Call) (i : Nat), (s.slots i).inUse = true →
      ((callSfn cfg s.slots l).slots i).inUse = false →
      (callSfn cfg s.slots l).slots i = .empty) ∧
    ∀ (c : ClientId) (type : OpType) (hd h' : Nat) (t : Slots),
      operationAlloc cfg s.slots c type hd = (t, .ok h') →
      t (h' - 1) = ⟨true, c, type, fun _ => 0⟩ := by
  have hiso := (iso_inductive cfg).reachable s h
  refine ⟨fun t c type hd i hl => ?_, fun t t' c hd hr => ?_, hiso.owner, fun l i hu hne => ?_,
    fun l i _ hu => (clean_effect (effect_call l) hiso.clean).blank i hu,
    fun c type hd h' t ha => ?_⟩
  · obtain ⟨-, he, hu, ho, ht⟩ := lookup_iff.mp hl
    exact ⟨he, hu, ht, ho⟩
  · obtain ⟨i, -, he, hu, ho, -⟩ := release_iff.mp hr
    exact ⟨i, he, hu, ho⟩
  · exact frame_effect (effect_call l) hu (by rwa [hiso.owner i hu])
  · obtain ⟨i, -, -, rfl, hu, rfl⟩ := alloc_ok ha
    rw [Nat.add_sub_cancel, set_self, hiso.clean.blank i hu]
    rfl

/-- Client 1 holds slot 0 with a filled context; client 2 guesses its handle. -/
theorem isolated_guess : ∃ s : St, (s.slots 0).tag = (true, 1, .hash) ∧ (s.slots 0).operation 7 = 7 ∧
    (callSfn exCfg s.slots { exCall .hashAbort 1 (.ok ()) with clientId := 2 }).slots 0 =
      s.slots 0 := by
  have he : (LTS.exec (step exCfg) .init [exCall .hashSetup 0 (.ok ())]).isSome = true := by
    decide +kernel
  obtain ⟨s, hs⟩ := Option.isSome_iff_exists.1 he
  have hi := isolated_reachable exCfg s (LTS.reachable_exec _ (.init rfl) hs)
  have hv : (LTS.exec (step exCfg) .init [exCall .hashSetup 0 (.ok ())]).map (fun s =>
      ((s.slots 0).tag, (s.slots 0).operation 7, s.allocBy 0)) =
      some ((true, 1, .hash), 7, 1) := by decide +kernel
  rw [hs] at hv
  simp only [Option.map_some, Option.some.injEq, Prod.mk.injEq] at hv
  refine ⟨s, hv.1, hv.2.1, hi.2.2.2.1 _ 0 (congrArg (·.1) hv.1) ?_⟩
  rw [hv.2.2]
  decide

end Runs

end Tfm.L4.CryptoAlloc
