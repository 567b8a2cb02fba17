import Mathlib.Algebra.Group.Int.Defs
import Mathlib.Data.List.Nodup
import Mathlib.Data.List.Range
import Mathlib.Logic.Function.Basic

/-!
# Non-secure client contexts (library model)

The table of non-secure client ids behind the CMSIS context management veneers,
secure_fw/spm/cmsis_func/tfm_nspm_func.c with `TFM_NS_CLIENT_IDENTIFICATION`
and `CONFIG_TFM_ENABLE_CTX_MGMT`.

A slot holds a client id (`INVALID_CLIENT_ID` while the slot is free) and the
index of the next free slot; `free_index` starts the free list, and
`active_ns_client_idx` names the slot of the running client, slot 0 by default.
The non-secure side chooses the order of the calls.

`TZ_InitContextSystem_S` rebuilds the links and leaves `free_index` and the
active index alone; `TZ_FreeModuleContext_S` takes slot 0 like any other, and
freeing or storing the active client falls back to slot 0 whether it is in use
or not. So the table is sound only in some runs, and `table_sound_iff` says in
which: the first call builds the list, a later one does so only while every
slot but the default one is on it, and no call falls back to a free slot 0.

A call that would read or write a slot outside the table has no result.
-/
namespace Tfm.L4.Nspm

/-- mirrors secure_fw/spm/cmsis_func/tfm_nspm_func.c:21-26 -/
def invalidClientId : Int := 0
def defaultNsClientId : Int := -1
def invalidNsClientIdx : Int := -1
def defaultNsClientIdx : Int := 0

/-- mirrors secure_fw/spm/cmsis_func/tfm_nspm_func.c:29-32 -/
structure Slot where
  nsClientId : Int
  nextFreeIndex : Int
  deriving DecidableEq, Repr

structure St where
  /-- `NsClientIdList`; the entries behind the table's end are not part of it -/
  list : Nat → Slot
  freeIndex : Int
  activeNsClientIdx : Int
  /-- the static variable of `get_next_ns_client_id` -/
  nextNsClientId : Int

/-- The statically initialised state. -/
def static : St := ⟨fun _ => ⟨0, 0⟩, 0, invalidNsClientIdx, defaultNsClientId⟩

/-- `x--` of an `int32_t`. Below the least value it wraps around, as the test
for a positive id at the next call expects. -/
def decr32 (x : Int) : Int := if x = -2 ^ 31 then 2 ^ 31 - 1 else x - 1

/-- mirrors secure_fw/spm/cmsis_func/tfm_nspm_func.c:37-45 -/
def getNextNsClientId (s : St) : Int × St :=
  let next := if 0 < s.nextNsClientId then defaultNsClientId else s.nextNsClientId
  (next, { s with nextNsClientId := decr32 next })

/-- mirrors secure_fw/spm/cmsis_func/tfm_nspm_func.c:48-61 -/
def tfmNspmConfigureClients (n : Nat) (s : St) : St :=
  let (id, s₁) := getNextNsClientId s
  { s₁ with
    freeIndex := 1
    list := fun i =>
      if i = 0 then { s.list i with nsClientId := id }
      else if i < n then { s.list i with nsClientId := invalidClientId }
      else s.list i
    activeNsClientIdx := defaultNsClientIdx }

/-- mirrors secure_fw/spm/cmsis_func/tfm_nspm_func.c:63-74 -/
def tfmNspmGetCurrentClientId (s : St) : Int :=
  if s.activeNsClientIdx = invalidNsClientIdx then 0
  else (s.list s.activeNsClientIdx.toNat).nsClientId

/-- What `__get_active_exc_num()` says of the caller. -/
inductive Mode
  | thread
  | handler
  deriving DecidableEq, Repr

/-- `enum tfm_status_e`, as far as `tfm_register_client_id` uses it. -/
inductive TfmStatus
  | success
  | errorNsThreadModeCall
  | errorInvalidParameter
  | errorGeneric
  deriving DecidableEq, Repr

/-- The two loops of `TZ_InitContextSystem_S`: free every slot from 1 on, link
it to its neighbour, and end the list at the last.
mirrors secure_fw/spm/cmsis_func/tfm_nspm_func.c:95-103 -/
def relink (n : Nat) (list : Nat → Slot) : Nat → Slot :=
  let linked := fun i => if 1 ≤ i ∧ i < n then ⟨invalidClientId, (i : Int) + 1⟩ else list i
  let last := max 1 n - 1
  Function.update linked last { linked last with nextFreeIndex := invalidNsClientIdx }

/-- mirrors secure_fw/spm/cmsis_func/tfm_nspm_func.c:83-110 -/
def tzInitContextSystem (n : Nat) (mode : Mode) (s : St) : Option (Nat × St) :=
  match mode with
  | .thread => some (0, s)
  | .handler => some (1, { s with list := relink n s.list })

/-- mirrors secure_fw/spm/cmsis_func/tfm_nspm_func.c:117-142 -/
def tzAllocModuleContext (n : Nat) (mode : Mode) (_module : Nat) (s : St) : Option (Nat × St) :=
  match mode with
  | .thread => some (0, s)
  | .handler =>
    if s.freeIndex < 0 then some (0, s)
    else if s.freeIndex.toNat < n then
      let k := s.freeIndex.toNat
      let (id, s₁) := getNextNsClientId s
      some (k + 1, { s₁ with
        list := Function.update s₁.list k { s₁.list k with nsClientId := id }
        freeIndex := (s.list k).nextFreeIndex })
    else none

/-- The checks three of the calls make on their argument: the slot it names,
when that slot is in use. -/
def slotOf (n : Nat) (s : St) (id : Nat) : Option Nat :=
  if id = 0 ∨ n < id then none
  else if (s.list (id - 1)).nsClientId = invalidClientId then none
  else some (id - 1)

/-- mirrors secure_fw/spm/cmsis_func/tfm_nspm_func.c:149-188 -/
def tzFreeModuleContext (n : Nat) (mode : Mode) (id : Nat) (s : St) : Option (Nat × St) :=
  match mode with
  | .thread => some (0, s)
  | .handler =>
    match slotOf n s id with
    | none => some (0, s)
    | some index => some (1, { s with
        activeNsClientIdx :=
          if s.activeNsClientIdx = index then defaultNsClientIdx else s.activeNsClientIdx
        list := Function.update s.list index ⟨invalidClientId, s.freeIndex⟩
        freeIndex := index })

/-- mirrors secure_fw/spm/cmsis_func/tfm_nspm_func.c:195-225 -/
def tzLoadContext (n : Nat) (mode : Mode) (id : Nat) (s : St) : Option (Nat × St) :=
  match mode with
  | .thread => some (0, s)
  | .handler =>
    match slotOf n s id with
    | none => some (0, s)
    | some index => some (1, { s with activeNsClientIdx := index })

/-- mirrors secure_fw/spm/cmsis_func/tfm_nspm_func.c:232-270 -/
def tzStoreContext (n : Nat) (mode : Mode) (id : Nat) (s : St) : Option (Nat × St) :=
  match mode with
  | .thread => some (0, s)
  | .handler =>
    match slotOf n s id with
    | none => some (0, s)
    | some index =>
      if s.activeNsClientIdx ≠ index then some (0, s)
      else some (1, { s with activeNsClientIdx := defaultNsClientIdx })

/-- mirrors secure_fw/spm/cmsis_func/tfm_nspm_func.c:272-302 -/
def tfmRegisterClientId (n : Nat) (mode : Mode) (nsClientId : Int) (s : St) :
    Option (TfmStatus × St) :=
  match mode with
  | .thread => some (.errorNsThreadModeCall, s)
  | .handler =>
    if 0 ≤ nsClientId then some (.errorInvalidParameter, s)
    else if s.activeNsClientIdx < 0 then some (.errorGeneric, s)
    else if s.activeNsClientIdx.toNat < n then
      let k := s.activeNsClientIdx.toNat
      if 0 ≤ (s.list k).nsClientId then some (.errorInvalidParameter, s)
      else some (.success, { s with
        list := Function.update s.list k { s.list k with nsClientId := nsClientId } })
    else none

/-- A call of the non-secure side. -/
inductive Call
  | init
  | alloc (module : Nat)
  | free (id : Nat)
  | load (id : Nat)
  | store (id : Nat)
  | register (nsClientId : Int)
  deriving DecidableEq, Repr

inductive Ret
  | word (w : Nat)
  | status (e : TfmStatus)
  deriving DecidableEq, Repr

/-- A call and where it is made. -/
structure Event where
  mode : Mode
  call : Call
  deriving DecidableEq, Repr

def step (n : Nat) (s : St) (e : Event) : Option (Ret × St) :=
  match e.call with
  | .init => (tzInitContextSystem n e.mode s).map fun r => (.word r.1, r.2)
  | .alloc m => (tzAllocModuleContext n e.mode m s).map fun r => (.word r.1, r.2)
  | .free id => (tzFreeModuleContext n e.mode id s).map fun r => (.word r.1, r.2)
  | .load id => (tzLoadContext n e.mode id s).map fun r => (.word r.1, r.2)
  | .store id => (tzStoreContext n e.mode id s).map fun r => (.word r.1, r.2)
  | .register id => (tfmRegisterClientId n e.mode id s).map fun r => (.status r.1, r.2)

/-- The state `tfm_spm_db_init` leaves. -/
def boot (n : Nat) : St := tfmNspmConfigureClients n static

/-- The state after a sequence of calls. -/
def runs (n : Nat) : St → List Event → Option St
  | s, [] => some s
  | s, e :: es => (step n s e).bind fun r => runs n r.2 es

/-! ## What a sound table is -/

/-- The slots on the way from index `i` along `next_free_index`, up to a
negative index. -/
inductive FreePath (n : Nat) (list : Nat → Slot) : Int → List Nat → Prop
  | nil {i : Int} (h : i < 0) : FreePath n list i []
  | cons {k : Nat} {l : List Nat} (hk : k < n) (h : FreePath n list (list k).nextFreeIndex l) :
      FreePath n list k (k :: l)

/-- The free list ends, stays inside the table, visits no slot twice and
contains exactly the free slots. -/
def FreeListOk (n : Nat) (s : St) : Prop :=
  ∃ l, FreePath n s.list s.freeIndex l ∧ l.Nodup ∧
    ∀ k, k ∈ l ↔ k < n ∧ (s.list k).nsClientId = invalidClientId

/-- The active slot is in the table and holds a negative id. -/
def ActiveOk (n : Nat) (s : St) : Prop :=
  ∃ k, k < n ∧ s.activeNsClientIdx = k ∧ (s.list k).nsClientId < 0

def TableOk (n : Nat) (s : St) : Prop := FreeListOk n s ∧ ActiveOk n s

/-- The slot a call hands out, if it does, was free. -/
def HandsOutFree (s : St) (e : Event) (r : Ret) : Prop :=
  ∀ m w, e.call = .alloc m → r = .word (w + 1) → (s.list w).nsClientId = invalidClientId

/-- Every call of the run has a result, leaves a sound table and hands out free
slots only; the client id is then negative. -/
def Sound (n : Nat) : St → List Event → Prop
  | _, [] => True
  | s, e :: es => ∃ r s', step n s e = some (r, s') ∧ TableOk n s' ∧
      tfmNspmGetCurrentClientId s' < 0 ∧ HandsOutFree s e r ∧ Sound n s' es

/-- What a call must not do: rebuild the list while slots are out of it, or
fall back to slot 0 when that slot is or becomes free. -/
def CallOk (n : Nat) (s : St) (e : Event) : Prop :=
  e.mode = .handler →
    match e.call with
    | .init => s.freeIndex = 1 ∧ s.activeNsClientIdx = 0
    | .free id => ∀ k, slotOf n s id = some k → s.activeNsClientIdx = k →
        k ≠ 0 ∧ (s.list 0).nsClientId ≠ invalidClientId
    | .store id => ∀ k, slotOf n s id = some k → s.activeNsClientIdx = k →
        (s.list 0).nsClientId ≠ invalidClientId
    | _ => True

/-- `CallOk` along a run. -/
def Meets (n : Nat) : St → List Event → Prop
  | _, [] => True
  | s, e :: es => CallOk n s e ∧ ∀ r s', step n s e = some (r, s') → Meets n s' es

/-- `CallOk` along a run whose first call builds the list. -/
def Begins (n : Nat) (s : St) : List Event → Prop
  | [] => True
  | e :: es => e = ⟨.handler, .init⟩ ∧ 2 ≤ n ∧ ∀ r s', step n s e = some (r, s') → Meets n s' es

variable {n : Nat} {list list' : Nat → Slot} {s s' : St} {e : Event} {r : Ret}

/-! ## Paths -/

theorem FreePath.lt {i : Int} {l : List Nat} (h : FreePath n list i l) : ∀ k ∈ l, k < n := by
  induction h with
  | nil => simp
  | cons hk _ ih => exact fun k h => (List.mem_cons.1 h).elim (fun he => he ▸ hk) (ih k)

/-- A path depends on the links of its slots only. -/
theorem FreePath.congr {i : Int} {l : List Nat} (h : FreePath n list i l)
    (hl : ∀ k ∈ l, (list' k).nextFreeIndex = (list k).nextFreeIndex) : FreePath n list' i l := by
  induction h with
  | nil hi => exact .nil hi
  | cons hk _ ih =>
    refine .cons hk ?_
    rw [hl _ (by simp)]
    exact ih fun k h => hl k (by simp [h])

/-- There is one path from an index. -/
theorem FreePath.unique {i : Int} {l l' : List Nat} (h : FreePath n list i l)
    (h' : FreePath n list i l') : l = l' := by
  induction h generalizing l' with
  | nil hi =>
    cases h' with
    | nil => rfl
    | cons => omega
  | @cons k l hk _ ih =>
    generalize hj : (k : Int) = j at h'
    cases h' with
    | nil => omega
    | @cons k' l' _ h' =>
      have hkk : k = k' := by omega
      subst hkk
      rw [ih h']

/-- The list `TZ_InitContextSystem_S` builds, from any of its slots. -/
theorem relink_path (hn : 2 ≤ n) (m : Nat) : ∀ {k : Nat}, 1 ≤ k → k + m = n →
    FreePath n (relink n list) (if m = 0 then invalidNsClientIdx else (k : Int))
      (List.range' k m) := by
  induction m with
  | zero =>
    intro k _ _
    exact .nil (by simp [invalidNsClientIdx])
  | succ m ih =>
    intro k hk hkm
    rw [List.range'_succ, if_neg (Nat.succ_ne_zero m)]
    refine .cons (by omega) ?_
    have hnext : (relink n list k).nextFreeIndex =
        if m = 0 then invalidNsClientIdx else ((k + 1 : Nat) : Int) := by
      unfold relink
      by_cases hm : m = 0
      · have hlast : k = max 1 n - 1 := by omega
        rw [hlast]
        simp [hm]
      · have hlast : k ≠ max 1 n - 1 := by omega
        simp [Function.update_of_ne hlast, hk, show k < n by omega, hm]
    rw [hnext]
    exact ih (by omega) (by omega)

theorem relink_zero (hn : 2 ≤ n) : relink n list 0 = list 0 := by
  unfold relink
  rw [Function.update_of_ne (by omega)]
  simp

theorem relink_id {k : Nat} (hk : 1 ≤ k) (hkn : k < n) :
    (relink n list k).nsClientId = invalidClientId := by
  unfold relink
  by_cases hlast : k = max 1 n - 1
  · rw [← hlast]
    simp [hk, hkn]
  · simp [Function.update_of_ne hlast, hk, hkn]

/-! ## Ids -/

/-- No slot ever holds a positive id, and the next id is not 0. -/
def IdsOk (n : Nat) (s : St) : Prop :=
  (∀ k, k < n → (s.list k).nsClientId ≤ 0) ∧ s.nextNsClientId ≠ 0

theorem getNextNsClientId_neg (h : s.nextNsClientId ≠ 0) : (getNextNsClientId s).1 < 0 := by
  unfold getNextNsClientId
  dsimp only
  split
  · decide
  · omega

theorem getNextNsClientId_next (s : St) :
    (getNextNsClientId s).2.nextNsClientId ≠ 0 := by
  unfold getNextNsClientId decr32 defaultNsClientId
  dsimp only
  split <;> split <;> omega

theorem idsOk_boot : IdsOk n (boot n) := by
  refine ⟨fun k hk => ?_, by simp [boot, tfmNspmConfigureClients, getNextNsClientId, static,
    defaultNsClientId, decr32]⟩
  by_cases h0 : k = 0
  · simp [boot, tfmNspmConfigureClients, getNextNsClientId, static, defaultNsClientId, h0]
  · simp [boot, tfmNspmConfigureClients, h0, hk, invalidClientId]

theorem slotOf_eq {id k : Nat} : slotOf n s id = some k ↔
    id = k + 1 ∧ k < n ∧ (s.list k).nsClientId ≠ invalidClientId := by
  unfold slotOf
  constructor
  · intro h
    split at h
    · cases h
    · split at h
      · cases h
      · next hid =>
        cases h
        exact ⟨by omega, by omega, hid⟩
  · intro ⟨hid, hk, hinv⟩
    subst hid
    rw [if_neg (by omega), if_neg (by simpa using hinv)]
    simp

theorem IdsOk.neg (h : IdsOk n s) {k : Nat} (hk : k < n)
    (hid : (s.list k).nsClientId ≠ invalidClientId) : (s.list k).nsClientId < 0 := by
  have hle := h.1 k hk
  unfold invalidClientId at hid
  omega

theorem ActiveOk.current (h : ActiveOk n s) : tfmNspmGetCurrentClientId s < 0 := by
  obtain ⟨k, _, hact, hneg⟩ := h
  unfold tfmNspmGetCurrentClientId invalidNsClientIdx
  rw [if_neg (by omega), hact]
  simpa using hneg

/-! ## One call -/

theorem ids_step (h : IdsOk n s) (hs : step n s e = some (r, s')) : IdsOk n s' := by
  obtain ⟨mode, call⟩ := e
  cases mode with
  | thread => cases call <;> cases hs <;> exact h
  | handler =>
    cases call with
    | init =>
      cases hs
      refine ⟨fun k hk => ?_, h.2⟩
      by_cases h0 : k = 0
      · by_cases hn : 2 ≤ n
        · simpa only [h0, relink_zero hn] using h.1 0 (by omega)
        · have hlast : max 1 n - 1 = 0 := by omega
          simpa [relink, h0, hlast] using h.1 0 (by omega)
      · simp only [relink_id (by omega) hk]
        decide
    | alloc m =>
      simp only [step, tzAllocModuleContext] at hs
      split at hs
      · cases hs
        exact h
      · split at hs
        · cases hs
          refine ⟨fun k hk => ?_, getNextNsClientId_next _⟩
          have hneg := getNextNsClientId_neg h.2
          by_cases he : k = s.freeIndex.toNat
          · simp only [he, Function.update_self]
            omega
          · simpa only [Function.update_of_ne he, getNextNsClientId] using h.1 k hk
        · cases hs
    | free id =>
      simp only [step, tzFreeModuleContext] at hs
      split at hs
      · cases hs
        exact h
      · next index _ =>
        cases hs
        refine ⟨fun k hk => ?_, h.2⟩
        by_cases he : k = index
        · simp [he, invalidClientId]
        · simpa only [Function.update_of_ne he] using h.1 k hk
    | load id =>
      simp only [step, tzLoadContext] at hs
      split at hs <;> cases hs <;> exact h
    | store id =>
      simp only [step, tzStoreContext] at hs
      split at hs
      · cases hs
        exact h
      · split at hs <;> cases hs <;> exact h
    | register id =>
      simp only [step, tfmRegisterClientId] at hs
      split at hs
      · cases hs
        exact h
      · split at hs
        · cases hs
          exact h
        · split at hs
          · split at hs
            · cases hs
              exact h
            · cases hs
              refine ⟨fun k hk => ?_, h.2⟩
              by_cases he : k = s.activeNsClientIdx.toNat
              · simp only [he, Function.update_self]
                omega
              · simpa only [Function.update_of_ne he] using h.1 k hk
          · cases hs

/-- A list that starts with a free slot gives that slot away and stays right. -/
theorem freeList_pop {k : Nat} {id : Int} (h : FreeListOk n s) (hf : s.freeIndex = k)
    (hid : id ≠ invalidClientId) {t : St}
    (ht : t.list = Function.update s.list k { s.list k with nsClientId := id })
    (hft : t.freeIndex = (s.list k).nextFreeIndex) : FreeListOk n t := by
  obtain ⟨l, hp, hnd, hmem⟩ := h
  rw [hf] at hp
  generalize hj : (k : Int) = j at hp
  cases hp with
  | nil => omega
  | @cons k' l hk hp =>
    have hkk : k = k' := by omega
    subst hkk
    have hkl : k ∉ l := (List.nodup_cons.1 hnd).1
    refine ⟨l, ?_, (List.nodup_cons.1 hnd).2, fun i => ?_⟩
    · rw [hft, ht]
      refine hp.congr fun i hi => ?_
      have hik : i ≠ k := fun he => hkl (he ▸ hi)
      rw [Function.update_of_ne hik]
    · rw [ht]
      by_cases hik : i = k
      · simp [hik, hkl, hid]
      · rw [Function.update_of_ne hik, ← hmem i]
        simp [hik]

/-- A slot in use goes to the front of the list. -/
theorem freeList_push {k : Nat} (h : FreeListOk n s) (hk : k < n)
    (hid : (s.list k).nsClientId ≠ invalidClientId) {t : St}
    (ht : t.list = Function.update s.list k ⟨invalidClientId, s.freeIndex⟩)
    (hft : t.freeIndex = k) : FreeListOk n t := by
  obtain ⟨l, hp, hnd, hmem⟩ := h
  have hkl : k ∉ l := fun hkl => hid ((hmem k).1 hkl).2
  refine ⟨k :: l, ?_, List.nodup_cons.2 ⟨hkl, hnd⟩, fun i => ?_⟩
  · rw [hft, ht]
    refine .cons hk ?_
    rw [Function.update_self]
    refine hp.congr fun i hi => ?_
    have hik : i ≠ k := fun he => hkl (he ▸ hi)
    rw [Function.update_of_ne hik]
  · rw [ht]
    by_cases hik : i = k
    · simp [hik, hk]
    · rw [Function.update_of_ne hik, ← hmem i]
      simp [hik]

/-- A call that changes no link and frees or allocates no slot. -/
theorem freeList_keep (h : FreeListOk n s) {t : St} (hft : t.freeIndex = s.freeIndex)
    (hnext : ∀ k, (t.list k).nextFreeIndex = (s.list k).nextFreeIndex)
    (hid : ∀ k, k < n → ((t.list k).nsClientId = invalidClientId ↔
      (s.list k).nsClientId = invalidClientId)) : FreeListOk n t := by
  obtain ⟨l, hp, hnd, hmem⟩ := h
  refine ⟨l, ?_, hnd, fun k => ?_⟩
  · rw [hft]
    exact hp.congr fun k _ => hnext k
  · rw [hmem k]
    exact ⟨fun ⟨hk, hi⟩ => ⟨hk, (hid k hk).2 hi⟩, fun ⟨hk, hi⟩ => ⟨hk, (hid k hk).1 hi⟩⟩

/-- Rebuilding the list gives a sound table when it starts at slot 1 and the
default slot is active and in use. -/
theorem init_ok (hn : 2 ≤ n) (hf : s.freeIndex = 1) (ha : s.activeNsClientIdx = 0)
    (hneg : (s.list 0).nsClientId < 0) : TableOk n { s with list := relink n s.list } := by
  refine ⟨⟨List.range' 1 (n - 1), ?_, List.nodup_range', fun k => ?_⟩, 0, by omega, ha, ?_⟩
  · have hp : FreePath n (relink n s.list) _ _ := relink_path hn (n - 1) (Nat.le_refl 1) (by omega)
    rw [if_neg (by omega)] at hp
    simpa [hf] using hp
  · rw [List.mem_range'_1]
    by_cases h0 : k = 0
    · simp only [h0, relink_zero hn]
      unfold invalidClientId
      omega
    · refine ⟨fun h => ⟨by omega, relink_id (by omega) (by omega)⟩, fun h => by omega⟩
  · simpa only [relink_zero hn] using hneg

/-- And only then, of a sound table. -/
theorem init_only (hn : 2 ≤ n) (h : ActiveOk n s)
    (h' : TableOk n { s with list := relink n s.list }) :
    s.freeIndex = 1 ∧ s.activeNsClientIdx = 0 := by
  obtain ⟨k, hk, ha, hneg⟩ := h
  obtain ⟨⟨l, hp, _, hmem⟩, k', hk', ha', hneg'⟩ := h'
  have hkk : k' = k := by
    have : ((k' : Nat) : Int) = k := ha'.symm.trans ha
    omega
  have h0 : k = 0 := by
    by_contra hk0
    rw [hkk] at hneg'
    have hid : (relink n s.list k).nsClientId = invalidClientId := relink_id (by omega) hk
    simp [hid, invalidClientId] at hneg'
  subst h0
  refine ⟨?_, by simpa using ha⟩
  -- slot 1 is free, so it is on the list; a list that starts later misses it
  have h1 : 1 ∈ l := (hmem 1).2 ⟨by omega, relink_id (by omega) (by omega)⟩
  have h0 : 0 ∉ l := by
    intro h0
    have hi := ((hmem 0).1 h0).2
    simp only [relink_zero hn, invalidClientId] at hi
    omega
  dsimp only at hp
  generalize hj : s.freeIndex = j at hp
  cases hp with
  | nil => simp at h1
  | @cons f l hf hp =>
    have hf0 : f ≠ 0 := fun he => h0 (by simp [he])
    have hpath : FreePath n (relink n s.list) _ _ :=
      relink_path hn (n - f) (k := f) (by omega) (by omega)
    rw [if_neg (by omega)] at hpath
    rw [(FreePath.cons hf hp).unique hpath, List.mem_range'_1] at h1
    omega

theorem FreeListOk.head (h : FreeListOk n s) (hf : ¬ s.freeIndex < 0) :
    ∃ k : Nat, s.freeIndex = k ∧ k < n ∧ (s.list k).nsClientId = invalidClientId := by
  obtain ⟨l, hp, _, hmem⟩ := h
  generalize hj : s.freeIndex = j at hp
  cases hp with
  | nil h0 => omega
  | @cons k l hk hp => exact ⟨k, rfl, hk, ((hmem k).1 (by simp)).2⟩

/-- Every call on a sound table has a result. -/
theorem step_some (h : TableOk n s) (e : Event) : ∃ r s', step n s e = some (r, s') := by
  obtain ⟨mode, call⟩ := e
  obtain ⟨a, ha, hact, _⟩ := h.2
  cases mode with
  | thread => cases call <;> exact ⟨_, _, rfl⟩
  | handler =>
    cases call with
    | init => exact ⟨_, _, rfl⟩
    | alloc m =>
      simp only [step, tzAllocModuleContext]
      split
      · exact ⟨_, _, rfl⟩
      · next hf =>
        obtain ⟨k, hk, hkn, _⟩ := h.1.head hf
        rw [if_pos (by simpa [hk] using hkn)]
        exact ⟨_, _, rfl⟩
    | free id =>
      simp only [step, tzFreeModuleContext]
      split <;> exact ⟨_, _, rfl⟩
    | load id =>
      simp only [step, tzLoadContext]
      split <;> exact ⟨_, _, rfl⟩
    | store id =>
      simp only [step, tzStoreContext]
      split
      · exact ⟨_, _, rfl⟩
      · split <;> exact ⟨_, _, rfl⟩
    | register id =>
      simp only [step, tfmRegisterClientId]
      split
      · exact ⟨_, _, rfl⟩
      · split
        · exact ⟨_, _, rfl⟩
        · rw [if_pos (by simpa [hact] using ha)]
          split <;> exact ⟨_, _, rfl⟩

theorem handsOut_step (h : TableOk n s) (hs : step n s e = some (r, s')) : HandsOutFree s e r := by
  intro m w he hr
  subst hr
  obtain ⟨mode, call⟩ := e
  cases he
  cases mode with
  | thread => cases hs
  | handler =>
    simp only [step, tzAllocModuleContext] at hs
    split at hs
    · cases hs
    · next hf =>
      obtain ⟨k, hk, hkn, hid⟩ := h.1.head hf
      rw [if_pos (by simpa [hk] using hkn)] at hs
      cases hs
      simpa [hk] using hid

/-- **A call keeps a sound table sound exactly when it meets the condition.** -/
theorem table_step (hn : 2 ≤ n) (hi : IdsOk n s) (h : TableOk n s)
    (hs : step n s e = some (r, s')) : TableOk n s' ↔ CallOk n s e := by
  obtain ⟨mode, call⟩ := e
  obtain ⟨a, ha, hact, hneg⟩ := h.2
  cases mode with
  | thread =>
    have hsame : s' = s := by cases call <;> cases hs <;> rfl
    subst hsame
    simp [h, CallOk]
  | handler =>
    cases call with
    | init =>
      cases hs
      refine ⟨fun h' _ => init_only hn h.2 h', fun hok => ?_⟩
      obtain ⟨hf, ha0⟩ := hok rfl
      refine init_ok hn hf ha0 ?_
      have h0 : a = 0 := by omega
      exact h0 ▸ hneg
    | alloc m =>
      refine iff_of_true ?_ fun _ => trivial
      simp only [step, tzAllocModuleContext] at hs
      split at hs
      · cases hs
        exact h
      · next hf =>
        obtain ⟨k, hk, hkn, hid⟩ := h.1.head hf
        rw [if_pos (by simpa [hk] using hkn)] at hs
        have hlt := getNextNsClientId_neg hi.2
        cases hs
        have hak : a ≠ k := by
          intro he
          rw [he, hid] at hneg
          exact absurd hneg (by decide)
        refine ⟨freeList_pop h.1 hk (Int.ne_of_lt hlt) (by simp [hk, getNextNsClientId])
          (by simp [hk]), a, ha, hact, ?_⟩
        simpa [hk, Function.update_of_ne hak, getNextNsClientId] using hneg
    | free id =>
      simp only [step, tzFreeModuleContext] at hs
      split at hs
      · next hslot =>
        cases hs
        simp [h, CallOk, hslot]
      · next k hslot =>
        cases hs
        obtain ⟨_, hk, hid⟩ := slotOf_eq.1 hslot
        have hpush := fun t => freeList_push (t := t) h.1 hk hid
        by_cases hak : s.activeNsClientIdx = k
        · -- the active client: slot 0 takes over
          have hactive : ∀ t : St, t.activeNsClientIdx = 0 → ActiveOk n t →
              (t.list 0).nsClientId < 0 := by
            intro t h0 ⟨b, _, hb, hbneg⟩
            have : b = 0 := by omega
            exact this ▸ hbneg
          constructor
          · intro h' _ k' hslot' _
            have hkk : k' = k := Option.some.inj (hslot'.symm.trans hslot)
            subst hkk
            have h0 := hactive _ (by simp [hak, defaultNsClientIdx]) h'.2
            by_cases hk0 : k' = 0
            · simp [hk0, invalidClientId] at h0
            · refine ⟨hk0, ?_⟩
              dsimp only at h0
              rw [Function.update_of_ne (Ne.symm hk0)] at h0
              exact Int.ne_of_lt h0
          · intro hok
            obtain ⟨hk0, h0⟩ := hok rfl k hslot hak
            refine ⟨hpush _ rfl rfl, 0, by omega, by simp [hak, defaultNsClientIdx], ?_⟩
            dsimp only
            rw [Function.update_of_ne (Ne.symm hk0)]
            exact hi.neg (by omega) h0
        · refine iff_of_true ⟨hpush _ rfl rfl, a, ha, (if_neg hak).trans hact, ?_⟩ fun _ k' hslot' hak' => ?_
          · have hne : a ≠ k := fun he => hak (by rw [hact, he])
            simpa only [Function.update_of_ne hne] using hneg
          · have hkk : k' = k := Option.some.inj (hslot'.symm.trans hslot)
            exact absurd (hkk ▸ hak') hak
    | load id =>
      refine iff_of_true ?_ fun _ => trivial
      simp only [step, tzLoadContext] at hs
      split at hs
      · cases hs
        exact h
      · next k hslot =>
        cases hs
        obtain ⟨_, hk, hid⟩ := slotOf_eq.1 hslot
        exact ⟨freeList_keep h.1 rfl (fun _ => rfl) fun _ _ => Iff.rfl, k, hk, rfl, hi.neg hk hid⟩
    | store id =>
      simp only [step, tzStoreContext] at hs
      split at hs
      · next hslot =>
        cases hs
        simp [h, CallOk, hslot]
      · next k hslot =>
        obtain ⟨_, hk, hid⟩ := slotOf_eq.1 hslot
        split at hs
        · next hne =>
          cases hs
          refine iff_of_true h fun _ k' hslot' hak' => ?_
          have hkk : k' = k := Option.some.inj (hslot'.symm.trans hslot)
          exact absurd (hkk ▸ hak') hne
        · next hak =>
          cases hs
          constructor
          · intro h' _ _ _ _
            obtain ⟨b, _, hb, hbneg⟩ := h'.2
            have hb0 : b = 0 := by simpa [defaultNsClientIdx] using hb.symm
            subst hb0
            exact Int.ne_of_lt hbneg
          · intro hok
            have h0 := hok rfl k hslot (by simpa using hak)
            exact ⟨freeList_keep h.1 rfl (fun _ => rfl) fun _ _ => Iff.rfl, 0, by omega, rfl,
              hi.neg (by omega) h0⟩
    | register id =>
      refine iff_of_true ?_ fun _ => trivial
      simp only [step, tfmRegisterClientId] at hs
      split at hs
      · cases hs
        exact h
      · next hid =>
        split at hs
        · cases hs
          exact h
        · rw [if_pos (by simpa [hact] using ha)] at hs
          split at hs
          · cases hs
            exact h
          · cases hs
            refine ⟨freeList_keep h.1 rfl (fun k => ?_) fun k _ => ?_, a, ha, hact, ?_⟩
            · by_cases he : k = a <;> simp [hact, he]
            · by_cases he : k = a
              · simp only [hact, Int.toNat_natCast, he, Function.update_self]
                unfold invalidClientId
                omega
              · simp [hact, he]
            · simpa [hact] using hid

/-! ## Runs -/

theorem sound_iff (hn : 2 ≤ n) (es : List Event) :
    ∀ {s : St}, IdsOk n s → TableOk n s → (Sound n s es ↔ Meets n s es) := by
  induction es with
  | nil =>
    intro s _ _
    exact Iff.rfl
  | cons e es ih =>
    intro s hi h
    obtain ⟨r, s', hs⟩ := step_some h e
    have hi' := ids_step hi hs
    constructor
    · intro ⟨r₁, s₁, hs₁, h₁, _, _, hrest⟩
      have heq : (r₁, s₁) = (r, s') := Option.some.inj (hs₁.symm.trans hs)
      cases heq
      refine ⟨(table_step hn hi h hs).1 h₁, fun r₂ s₂ hs₂ => ?_⟩
      have heq : (r₂, s₂) = (r, s') := Option.some.inj (hs₂.symm.trans hs)
      cases heq
      exact (ih hi' h₁).1 hrest
    · intro ⟨hok, hrest⟩
      have h' := (table_step hn hi h hs).2 hok
      exact ⟨r, s', hs, h', h'.2.current, handsOut_step h hs, (ih hi' h').2 (hrest r s' hs)⟩

/-- The list as `tfm_nspm_configure_clients` leaves it leads from slot 1 to
slot 0, which is in use. -/
theorem boot_list (hf : s.freeIndex = 1) (hnext : (s.list 1).nextFreeIndex = 0)
    (hid : (s.list 0).nsClientId ≠ invalidClientId) : ¬ FreeListOk n s := by
  intro ⟨l, hp, _, hmem⟩
  rw [hf] at hp
  generalize hj : (1 : Int) = j at hp
  cases hp with
  | nil => omega
  | @cons k l hk hp =>
    have hk1 : k = 1 := by omega
    subst hk1
    rw [hnext] at hp
    generalize hi : (0 : Int) = i at hp
    cases hp with
    | nil => omega
    | @cons k l _ hp =>
      have hk0 : k = 0 := by omega
      subst hk0
      exact hid ((hmem 0).1 (by simp)).2

theorem boot_zero : ((boot n).list 0).nsClientId = -1 := by
  simp [boot, tfmNspmConfigureClients, getNextNsClientId, static, defaultNsClientId]

theorem boot_next (k : Nat) : ((boot n).list k).nextFreeIndex = 0 := by
  simp only [boot, tfmNspmConfigureClients, static]
  split
  · rfl
  · split <;> rfl

theorem boot_bad : ¬ FreeListOk n (boot n) :=
  boot_list rfl (boot_next 1) (by simp [boot_zero, invalidClientId])

theorem boot_slot {id k : Nat} (h : slotOf n (boot n) id = some k) : k = 0 := by
  obtain ⟨_, hk, hid⟩ := slotOf_eq.1 h
  by_contra h0
  exact hid (by simp [boot, tfmNspmConfigureClients, h0, hk])

/-- The first call has to build the list. -/
theorem first_init (hs : step n (boot n) e = some (r, s')) (h : TableOk n s') :
    e = ⟨.handler, .init⟩ ∧ 2 ≤ n := by
  have hz : ((boot n).list 0).nsClientId ≠ invalidClientId := by
    simp [boot_zero, invalidClientId]
  obtain ⟨mode, call⟩ := e
  cases mode with
  | thread =>
    have hsame : s' = boot n := by cases call <;> cases hs <;> rfl
    exact absurd (hsame ▸ h.1) boot_bad
  | handler =>
    cases call with
    | init =>
      refine ⟨rfl, ?_⟩
      cases hs
      obtain ⟨l, hp, _, _⟩ := h.1
      have hf : (boot n).freeIndex = 1 := rfl
      dsimp only at hp
      generalize hj : (boot n).freeIndex = j at hp
      cases hp with
      | nil => omega
      | cons hk => omega
    | alloc m =>
      have hf : (boot n).freeIndex = 1 := rfl
      simp only [step, tzAllocModuleContext, hf] at hs
      rw [if_neg (by omega)] at hs
      split at hs
      · cases hs
        have hne : (0 : Nat) ≠ Int.toNat 1 := by decide
        obtain ⟨k, hk, _, hid⟩ := h.1.head (by simp [boot_next])
        have hk0 : k = 0 := by simpa [boot_next] using hk.symm
        subst hk0
        dsimp only at hid
        rw [Function.update_of_ne hne] at hid
        exact absurd hid hz
      · cases hs
    | free id =>
      simp only [step, tzFreeModuleContext] at hs
      split at hs
      · cases hs
        exact absurd h.1 boot_bad
      · next k hslot =>
        have hk := boot_slot hslot
        subst hk
        cases hs
        obtain ⟨b, _, hb, hneg⟩ := h.2
        have hact : (boot n).activeNsClientIdx = 0 := rfl
        have hb0 : b = 0 := by simpa [hact, defaultNsClientIdx] using hb.symm
        simp [hb0, invalidClientId] at hneg
    | load id =>
      simp only [step, tzLoadContext] at hs
      split at hs
      · cases hs
        exact absurd h.1 boot_bad
      · cases hs
        exact absurd h.1 (boot_list rfl (boot_next 1) hz)
    | store id =>
      simp only [step, tzStoreContext] at hs
      split at hs
      · cases hs
        exact absurd h.1 boot_bad
      · split at hs
        · cases hs
          exact absurd h.1 boot_bad
        · cases hs
          exact absurd h.1 (boot_list rfl (boot_next 1) hz)
    | register id =>
      have hact : (boot n).activeNsClientIdx = 0 := rfl
      simp only [step, tfmRegisterClientId, hact] at hs
      split at hs
      · cases hs
        exact absurd h.1 boot_bad
      · next hid =>
        split at hs
        · cases hs
          exact absurd h.1 boot_bad
        · split at hs
          · split at hs
            · cases hs
              exact absurd h.1 boot_bad
            · cases hs
              refine absurd h.1 (boot_list rfl ?_ ?_)
              · simpa using boot_next 1
              · simp only [Int.toNat_zero, Function.update_self, invalidClientId]
                omega
          · cases hs

/-- **The table of client contexts**: as `tfm_nspm_configure_clients` leaves it,
its free list is never right, and every state of a run is sound exactly when
there are two slots, the first call builds the list and every later call meets
`CallOk`. -/
theorem table_sound_iff (n : Nat) : ¬ TableOk n (boot n) ∧
    ∀ es, Sound n (boot n) es ↔ Begins n (boot n) es := by
  refine ⟨fun h => boot_bad h.1, fun es => ?_⟩
  cases es with
  | nil => exact Iff.rfl
  | cons e es =>
    constructor
    · intro ⟨r, s', hs, h, _, _, hrest⟩
      obtain ⟨rfl, hn⟩ := first_init hs h
      refine ⟨rfl, hn, fun r₁ s₁ hs₁ => ?_⟩
      have heq : (r₁, s₁) = (r, s') := Option.some.inj (hs₁.symm.trans hs)
      cases heq
      exact (sound_iff hn es (ids_step idsOk_boot hs) h).1 hrest
    · intro ⟨he, hn, hrest⟩
      subst he
      have hs : step n (boot n) ⟨.handler, .init⟩ =
          some (.word 1, { boot n with list := relink n (boot n).list }) := rfl
      have h := init_ok (s := boot n) hn rfl rfl (by simp [boot_zero])
      refine ⟨_, _, hs, h, h.2.current, nofun, ?_⟩
      exact (sound_iff hn es (ids_step idsOk_boot hs) h).2 (hrest _ _ hs)

/-- Freeing the default slot while it is active, and rebuilding the list while
another client is active: the current client id is 0. -/
theorem default_freed :
    (runs 2 (boot 2) [⟨.handler, .init⟩, ⟨.handler, .free 1⟩]).map tfmNspmGetCurrentClientId =
        some 0 ∧
      (runs 3 (boot 3) [⟨.handler, .init⟩, ⟨.handler, .alloc 0⟩, ⟨.handler, .load 2⟩,
        ⟨.handler, .init⟩]).map tfmNspmGetCurrentClientId = some 0 := by
  decide

end Tfm.L4.Nspm
