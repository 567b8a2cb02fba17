import Tfm.Core.LTS
import Tfm.L4Service.CryptoKey

/-!
# Vendor-key redirection over whole histories

The transition system of the key calls of `CryptoKey`, run by any clients in
any order. The back end may answer a key-creating call with any id that no live
key of the same owner uses, in particular with the id of a key that was
destroyed before.

A ghost history records every handle a client obtained, how, and every
successful close, destroy or purge.

Redirection is decided by `key_id_mapping_table`, which is indexed by the bare
key id and never cleared: `tfm_crypto_close_key`, `tfm_crypto_destroy_key` and
`tfm_crypto_purge_key` clear `handle_owner` only. So after a vendor key was
opened as `k` and closed, the next client whose key gets the id `k` signs with
the vendor key (`redirect_after_close`).

Results:
* `inv_reachable`: in the runs in which the back end gives out no id that still
  has a mapping (`Fresh`), a used handle whose id has a mapping belongs to the
  client that opened that vendor key and still holds it, and no mapping exists
  for an id a client holds as an ordinary key.
* `redirect_bound`: in these runs every redirected operation is bound to the
  caller's own open vendor handle and every ordinary key is served by the
  back end as the caller's own.
-/
namespace Tfm.L4.VendorKey
open Tfm.L4.CryptoKey

/-- How a client came to hold a key id. -/
inductive Origin
  | vendor (fbKeyId : KeyId)
  | opened
  | imported
  | generated
  | copied
  | derived
  deriving DecidableEq, Repr

def Origin.isVendor : Origin → Bool
  | .vendor _ => true
  | _ => false

inductive HistEv
  | got (c : ClientId) (k : KeyId) (o : Origin)
  | released (c : ClientId) (k : KeyId)
  deriving DecidableEq, Repr

structure St where
  sys : Sys
  /-- ghost: handles obtained and released, latest first -/
  hist : List HistEv
  deriving DecidableEq, Repr

/-- `c` obtained `k` as `o` and has not closed, destroyed or purged `k` since. -/
def holds (c : ClientId) (k : KeyId) (o : Origin) : List HistEv → Bool
  | [] => false
  | .got c' k' o' :: h => decide (c' = c ∧ k' = k ∧ o' = o) || holds c k o h
  | .released c' k' :: h => !decide (c' = c ∧ k' = k) && holds c k o h

/-- The calls, each with the answers the back end and the flash-boot library
give during it. An answer to a call that the service does not make is not
used. -/
inductive Lbl
  | importKey (c : ClientId) (v : Vecs) (lt : Lifetime) (ans : Except PsaStatus KeyId)
  | generateKey (c : ClientId) (v : Vecs) (lt : Lifetime) (ans : Except PsaStatus KeyId)
  | copyKey (c : ClientId) (v : Vecs) (src : KeyId) (lt : Lifetime) (ans : Except PsaStatus KeyId)
  | deriveKey (c : ClientId) (v : Vecs) (lookup : Except PsaStatus Unit) (lt : Lifetime)
      (ans : Except PsaStatus KeyId)
  | openKey (c : ClientId) (v : Vecs) (id : KeyId) (va : VendorAns)
      (opened : Except PsaStatus KeyId)
  | closeKey (c : ClientId) (v : Vecs) (key : KeyId) (ans : Except PsaStatus Unit)
  | destroyKey (c : ClientId) (v : Vecs) (key : KeyId) (ans : Except PsaStatus Unit)
  | purgeKey (c : ClientId) (v : Vecs) (key : KeyId) (ans : Except PsaStatus Unit)

def got (c : ClientId) (o : Origin) (h : List HistEv) (r : Sys × Except PsaStatus KeyId) : St :=
  match r.2 with
  | .ok k => ⟨r.1, .got c k o :: h⟩
  | .error _ => ⟨r.1, h⟩

def released (c : ClientId) (k : KeyId) (h : List HistEv) (r : Sys × Except PsaStatus Unit) : St :=
  match r.2 with
  | .ok () => ⟨r.1, .released c k :: h⟩
  | .error _ => ⟨r.1, h⟩

/-- An id in the vendor range takes the vendor branch of `openKey`. -/
def openOrigin (id : KeyId) : Origin :=
  if keyIdVendorMin ≤ id ∧ id ≤ keyIdVendorMax then .vendor id else .opened

def call (cfg : Cfg) (s : St) : Lbl → St
  | .importKey c v lt ans => got c .imported s.hist (importKey s.sys c v lt ans)
  | .generateKey c v lt ans => got c .generated s.hist (generateKey s.sys c v lt ans)
  | .copyKey c v src lt ans => got c .copied s.hist (copyKey s.sys c v src lt ans)
  | .deriveKey c v lookup lt ans =>
    got c .derived s.hist (keyDerivationOutputKey cfg s.sys c v lookup lt ans)
  | .openKey c v id va opened =>
    got c (openOrigin id) s.hist (openKey cfg s.sys c v id va opened)
  | .closeKey c v key ans => released c key s.hist (closeKey s.sys c v key ans)
  | .destroyKey c v key ans => released c key s.hist (destroyKey s.sys c v key ans)
  | .purgeKey c v key ans => released c key s.hist (purgeKey s.sys c v key ans)

def Sys.isLive (s : Sys) (c : ClientId) (k : KeyId) : Bool :=
  s.live.any fun l => l.owner == c && l.key == k

/-- The back end may give a new key any id its owner does not use. -/
def newIdOk (s : Sys) (c : ClientId) : Except PsaStatus KeyId → Bool
  | .ok k => !Sys.isLive s c k
  | .error _ => true

/-- The answers the back end can give in `s`. -/
def backendOk (s : Sys) : Lbl → Bool
  | .importKey c _ _ ans => newIdOk s c ans
  | .generateKey c _ _ ans => newIdOk s c ans
  | .copyKey c _ _ _ ans => newIdOk s c ans
  | .deriveKey c _ _ _ ans => newIdOk s c ans
  | .openKey c _ id va opened =>
    newIdOk s c va.imported &&
      match opened with
      | .ok k => k == id && Sys.isLive s c id
      | .error _ => true
  | .closeKey .. => true
  | .destroyKey .. => true
  | .purgeKey .. => true

def step (cfg : Cfg) (s : St) (l : Lbl) : Option St :=
  if backendOk s.sys l then some (call cfg s l) else none

def init (cfg : Cfg) : St := ⟨Sys.init cfg, []⟩

def lts (cfg : Cfg) : LTS St Lbl := LTS.ofFn (· = init cfg) (step cfg)

/-! ## The property and the condition under which it holds -/

/-- The three operations that can be redirected. -/
inductive Op
  | signHash
  | verifyHash
  | exportPublicKey
  deriving DecidableEq, Repr

def serve (cfg : Cfg) (s : Sys) (c : ClientId) (v : Vecs) (k : KeyId) : Op → Served
  | .signHash => signHash cfg s c v k
  | .verifyHash => verifyHash cfg s c v k
  | .exportPublicKey => exportPublicKey cfg s c v k

/-- Redirection is bound to the open handle: an operation redirected to `f` is
called by a client that holds the id through opening `f`, and a key a client
imported, generated, copied or derived (or opened under an ordinary id) is only
ever served as that client's own key. -/
structure Bound (cfg : Cfg) (s : St) : Prop where
  vendor : ∀ c v k op f, serve cfg s.sys c v k op = .vendor f →
    holds c k (.vendor f) s.hist = true
  ordinary : ∀ c k o, o.isVendor = false → holds c k o s.hist = true →
    ∀ v op, (∃ e, serve cfg s.sys c v k op = .refused e) ∨
      serve cfg s.sys c v k op = .backend c k

/-- Some used slot of the mapping table has the id. -/
def Sys.mapped (s : Sys) (k : KeyId) : Bool :=
  s.keyIdMappingTable.any fun e => e.inUse && e.mbedcryptoKeyId == k

/-- An id given out for an ordinary key has no mapping. -/
def freshId (s : Sys) : Except PsaStatus KeyId → Bool
  | .ok k => !Sys.mapped s k
  | .error _ => true

/-- An id given out for the vendor key `f` is in no used handle, and has no
mapping; or its mapping is to `f` already and there is room for another. -/
def freshVendorId (s : Sys) (f : KeyId) : Except PsaStatus KeyId → Bool
  | .ok k =>
    s.handleOwner.all (fun h => !(h.inUse && h.key == k)) &&
      (!Sys.mapped s k ||
        (halKeyIdMappingMbedcrypto2Fb s k == f && s.keyIdMappingTable.any fun e => !e.inUse))
  | .error _ => true

/-- The condition on the back end's answer under which the stale mappings do no
harm. -/
def Fresh (s : St) : Lbl → Bool
  | .importKey _ _ _ ans => freshId s.sys ans
  | .generateKey _ _ _ ans => freshId s.sys ans
  | .copyKey _ _ _ _ ans => freshId s.sys ans
  | .deriveKey _ _ _ _ ans => freshId s.sys ans
  | .openKey _ _ id va opened =>
    if keyIdVendorMin ≤ id ∧ id ≤ keyIdVendorMax then freshVendorId s.sys id va.imported
    else freshId s.sys opened
  | .closeKey .. => true
  | .destroyKey .. => true
  | .purgeKey .. => true

/-! ## What a call can do to the tables -/

def freeAt (l : List HandleOwner) (i : Nat) : Prop := ∃ h, l[i]? = some h ∧ h.inUse = false

theorem checkKeyStorage_ok {s : Sys} {i : Nat} (h : checkKeyStorage s = .ok i) :
    freeAt s.handleOwner i := by
  unfold checkKeyStorage at h
  split at h
  · rename_i j hj
    cases h
    obtain ⟨hlt, hp, -⟩ := List.findIdx?_eq_some_iff_getElem.1 hj
    exact ⟨_, List.getElem?_eq_getElem hlt, by simpa using hp⟩
  · cases h

theorem scanOwner_ok {c : ClientId} {key : KeyId} (l : List HandleOwner) (i j : Nat)
    (h : scanOwner c key l i = .ok j) :
    ∃ n, j = i + n ∧ l[n]? = some ⟨c, key, true⟩ := by
  induction l generalizing i with
  | nil => simp [scanOwner] at h
  | cons a l ih =>
    unfold scanOwner at h
    split at h
    · rename_i hk
      split at h
      · rename_i ho
        cases h
        refine ⟨0, rfl, ?_⟩
        obtain ⟨o, k, u⟩ := a
        simp_all
      · cases h
    · obtain ⟨n, rfl, hn⟩ := ih (i + 1) h
      exact ⟨n + 1, by omega, by simpa using hn⟩

theorem checkHandleOwner_ok {s : Sys} {c : ClientId} {key : KeyId} {j : Nat}
    (h : checkHandleOwner s c key = .ok j) : s.handleOwner[j]? = some ⟨c, key, true⟩ := by
  obtain ⟨n, rfl, hn⟩ := scanOwner_ok _ _ _ h
  simpa using hn

/-- Every way a call changes the two tables and the history. -/
inductive Effect (cfg : Cfg) (s : St) : St → Prop
  | none {s' : St} (hh : s'.sys.handleOwner = s.sys.handleOwner)
      (hm : s'.sys.keyIdMappingTable = s.sys.keyIdMappingTable) (hi : s'.hist = s.hist) :
      Effect cfg s s'
  | store {s' : St} (c : ClientId) (k : KeyId) (i : Nat) (o : Origin) (ho : o.isVendor = false)
      (hf : freeAt s.sys.handleOwner i) (hk : Sys.mapped s.sys k = false)
      (hh : s'.sys.handleOwner = s.sys.handleOwner.set i ⟨c, k, true⟩)
      (hm : s'.sys.keyIdMappingTable = s.sys.keyIdMappingTable)
      (hi : s'.hist = .got c k o :: s.hist) : Effect cfg s s'
  | vendor {s' : St} (c : ClientId) (k f : KeyId) (i j : Nat)
      (hf : freeAt s.sys.handleOwner i) (hk : freshVendorId s.sys f (.ok k) = true)
      (hj : s.sys.keyIdMappingTable.findIdx? (fun e => !e.inUse) = some j)
      (hh : s'.sys.handleOwner = s.sys.handleOwner.set i ⟨c, k, true⟩)
      (hm : s'.sys.keyIdMappingTable = s.sys.keyIdMappingTable.set j ⟨k, f, true⟩)
      (hi : s'.hist = .got c k (.vendor f) :: s.hist) : Effect cfg s s'
  | vendorFull {s' : St} (c : ClientId) (k f : KeyId) (i : Nat)
      (hf : freeAt s.sys.handleOwner i) (hk : freshVendorId s.sys f (.ok k) = true)
      (hj : s.sys.keyIdMappingTable.findIdx? (fun e => !e.inUse) = Option.none)
      (hh : s'.sys.handleOwner = s.sys.handleOwner.set i ⟨c, k, true⟩)
      (hm : s'.sys.keyIdMappingTable = s.sys.keyIdMappingTable)
      (hi : s'.hist = s.hist) : Effect cfg s s'
  | release {s' : St} (c : ClientId) (k : KeyId) (i : Nat)
      (hu : s.sys.handleOwner[i]? = some ⟨c, k, true⟩)
      (hh : s'.sys.handleOwner = s.sys.handleOwner.set i .empty)
      (hm : s'.sys.keyIdMappingTable = s.sys.keyIdMappingTable)
      (hi : s'.hist = .released c k :: s.hist) : Effect cfg s s'

theorem effect_error {cfg : Cfg} {s : St} {c : ClientId} {o : Origin} {e : PsaStatus} :
    Effect cfg s (got c o s.hist (s.sys, .error e)) :=
  .none rfl rfl rfl

theorem effect_storeNewKey {cfg : Cfg} {s : St} {c : ClientId} {i : Nat} {lt : Lifetime}
    {ans : Except PsaStatus KeyId} {o : Origin} (ho : o.isVendor = false)
    (hi : checkKeyStorage s.sys = .ok i) (hk : freshId s.sys ans = true) :
    Effect cfg s (got c o s.hist (storeNewKey s.sys c i lt ans)) := by
  cases ans with
  | error e => exact effect_error
  | ok k =>
    exact .store c k i o ho (checkKeyStorage_ok hi) (by simpa [freshId] using hk) rfl rfl rfl

theorem effect_vendorKeyOpenKey {cfg : Cfg} {s : St} {c : ClientId} {id : KeyId} {va : VendorAns}
    (hk : freshVendorId s.sys id va.imported = true) :
    Effect cfg s (got c (.vendor id) s.hist (vendorKeyOpenKey cfg s.sys c id va)) := by
  unfold vendorKeyOpenKey
  split
  · exact effect_error
  split
  · exact effect_error
  rename_i index hidx
  have hf := checkKeyStorage_ok hidx
  split <;> try exact effect_error
  rename_i k hmeta hdata himp
  rw [himp] at hk
  by_cases hmax : cfg.maxKeyHandles ≤ index
  · simp only [setKeyStorage, if_pos hmax]
    exact .none rfl rfl rfl
  · simp only [setKeyStorage, if_neg hmax, halAddKeyIdMapping]
    cases hj : s.sys.keyIdMappingTable.findIdx? (fun e => !e.inUse) with
    | none =>
      simp only [Sys.setHandle, Sys.psaNewKey, hj]
      exact .vendorFull c k id index hf hk hj rfl rfl rfl
    | some j =>
      simp only [Sys.setHandle, Sys.psaNewKey, hj]
      exact .vendor c k id index j hf hk hj rfl rfl rfl

theorem effect_openKey {cfg : Cfg} {s : St} {c : ClientId} {v : Vecs} {id : KeyId} {va : VendorAns}
    {opened : Except PsaStatus KeyId} (hk : Fresh s (.openKey c v id va opened) = true) :
    Effect cfg s (call cfg s (.openKey c v id va opened)) := by
  simp only [call, openKey]
  split
  · exact effect_error
  split
  · exact effect_error
  split
  · exact effect_error
  rename_i i hidx
  simp only [Fresh] at hk
  split
  · rename_i hv
    rw [if_pos hv] at hk
    simp only [openOrigin, if_pos hv]
    exact effect_vendorKeyOpenKey hk
  · rename_i hv
    rw [if_neg hv] at hk
    simp only [openOrigin, if_neg hv]
    cases opened with
    | error e => exact effect_error
    | ok k =>
      exact .store c k i .opened rfl (checkKeyStorage_ok hidx) (by simpa [freshId] using hk)
        rfl rfl rfl

theorem effect_deriveKey {cfg : Cfg} {s : St} {c : ClientId} {v : Vecs}
    {lookup : Except PsaStatus Unit} {lt : Lifetime} {ans : Except PsaStatus KeyId}
    (hk : freshId s.sys ans = true) :
    Effect cfg s (call cfg s (.deriveKey c v lookup lt ans)) := by
  simp only [call, keyDerivationOutputKey]
  split
  · exact effect_error
  split
  · exact effect_error
  split
  · exact effect_error
  split
  · exact effect_error
  rename_i index hidx
  cases ans with
  | error e => exact effect_error
  | ok k =>
    by_cases hmax : cfg.maxKeyHandles ≤ index
    · simp only [setKeyStorage, if_pos hmax]
      exact .none rfl rfl rfl
    · simp only [setKeyStorage, if_neg hmax]
      exact .store c k index .derived rfl (checkKeyStorage_ok hidx) (by simpa [freshId] using hk)
        rfl rfl rfl

theorem effect_releaseKey {cfg : Cfg} {s : St} {c : ClientId} {v : Vecs} {key : KeyId}
    {backend : Sys → ClientId → KeyId → Except PsaStatus Unit → Sys} {ans : Except PsaStatus Unit}
    (hb : ∀ s c k a, (backend s c k a).handleOwner = s.handleOwner ∧
      (backend s c k a).keyIdMappingTable = s.keyIdMappingTable) :
    Effect cfg s (released c key s.hist (releaseKey s.sys c v key backend ans)) := by
  unfold releaseKey
  split
  · exact .none rfl rfl rfl
  split
  · exact .none rfl rfl rfl
  split
  · exact .none rfl rfl rfl
  rename_i index hidx
  cases ans with
  | error e => exact .none rfl rfl rfl
  | ok u =>
    obtain ⟨hh, hm⟩ := hb s.sys c key (.ok ())
    exact .release c key index (checkHandleOwner_ok hidx) (by simp [released, Sys.setHandle, hh])
      (by simp [released, Sys.setHandle, hm]) rfl

theorem psaCloseKey_tables (s : Sys) (c : ClientId) (k : KeyId) (a : Except PsaStatus Unit) :
    (s.psaCloseKey c k a).handleOwner = s.handleOwner ∧
      (s.psaCloseKey c k a).keyIdMappingTable = s.keyIdMappingTable := by
  cases a <;> exact ⟨rfl, rfl⟩

theorem psaDestroyKey_tables (s : Sys) (c : ClientId) (k : KeyId) (a : Except PsaStatus Unit) :
    (s.psaDestroyKey c k a).handleOwner = s.handleOwner ∧
      (s.psaDestroyKey c k a).keyIdMappingTable = s.keyIdMappingTable := by
  cases a <;> exact ⟨rfl, rfl⟩

/-- Inversion of one call under the freshness condition. -/
theorem effect_call {cfg : Cfg} {s : St} {l : Lbl} (hk : Fresh s l = true) :
    Effect cfg s (call cfg s l) := by
  cases l with
  | importKey c v lt ans =>
    simp only [call, importKey]
    split
    · exact effect_error
    split
    · exact effect_error
    split
    · exact effect_error
    · rename_i i hidx
      exact effect_storeNewKey rfl hidx hk
  | generateKey c v lt ans =>
    simp only [call, generateKey]
    split
    · exact effect_error
    split
    · exact effect_error
    split
    · exact effect_error
    · rename_i i hidx
      exact effect_storeNewKey rfl hidx hk
  | copyKey c v src lt ans =>
    simp only [call, copyKey]
    split
    · exact effect_error
    split
    · exact effect_error
    split
    · exact effect_error
    split
    · exact effect_error
    · rename_i i hidx _ _ _
      exact effect_storeNewKey rfl hidx hk
  | deriveKey c v lookup lt ans => exact effect_deriveKey hk
  | openKey c v id va opened => exact effect_openKey hk
  | closeKey c v key ans => exact effect_releaseKey psaCloseKey_tables
  | destroyKey c v key ans => exact effect_releaseKey psaDestroyKey_tables
  | purgeKey c v key ans => exact effect_releaseKey fun _ _ _ _ => ⟨rfl, rfl⟩

/-! ## Table lemmas -/

/-- Handle `i` is in use by `c` for `k`. -/
def Used (s : Sys) (i : Nat) (c : ClientId) (k : KeyId) : Prop :=
  s.handleOwner[i]? = some ⟨c, k, true⟩

/-- A used slot maps `k` to `f`. -/
def MapsTo (s : Sys) (k f : KeyId) : Prop := ⟨k, f, true⟩ ∈ s.keyIdMappingTable

theorem used_of_set {s s' : Sys} {i j : Nat} {c c' : ClientId} {k k' : KeyId}
    (hh : s'.handleOwner = s.handleOwner.set i ⟨c, k, true⟩) (hu : Used s' j c' k') :
    (j = i ∧ c' = c ∧ k' = k) ∨ (j ≠ i ∧ Used s j c' k') := by
  unfold Used at hu ⊢
  rw [hh, List.getElem?_set] at hu
  by_cases hij : i = j
  · left
    subst hij
    by_cases hl : i < s.handleOwner.length
    · simp only [if_true, hl, if_true, Option.some.injEq, HandleOwner.mk.injEq, and_true] at hu
      exact ⟨rfl, hu.1.symm, hu.2.symm⟩
    · simp [hl] at hu
  · right
    rw [if_neg hij] at hu
    exact ⟨Ne.symm hij, hu⟩

theorem used_set_self {s s' : Sys} {i : Nat} {c : ClientId} {k : KeyId}
    (hf : freeAt s.handleOwner i)
    (hh : s'.handleOwner = s.handleOwner.set i ⟨c, k, true⟩) : Used s' i c k := by
  obtain ⟨h, hi, -⟩ := hf
  have hl : i < s.handleOwner.length := (List.getElem?_eq_some_iff.1 hi).1
  unfold Used
  rw [hh, List.getElem?_set_self hl]

/-- Writing a free entry keeps the used ones. -/
theorem used_set_keep {s s' : Sys} {i j : Nat} {h : HandleOwner} {c : ClientId} {k : KeyId}
    (hf : freeAt s.handleOwner i) (hh : s'.handleOwner = s.handleOwner.set i h)
    (hu : Used s j c k) : Used s' j c k := by
  unfold Used at hu ⊢
  obtain ⟨g, hg, hfree⟩ := hf
  have hij : i ≠ j := by
    intro hx
    subst hx
    rw [hg, Option.some.injEq] at hu
    rw [hu] at hfree
    cases hfree
  rw [hh, List.getElem?_set_ne hij]
  exact hu

theorem used_of_clear {s s' : Sys} {i j : Nat} {c : ClientId} {k : KeyId}
    (hh : s'.handleOwner = s.handleOwner.set i .empty) (hu : Used s' j c k) :
    j ≠ i ∧ Used s j c k := by
  unfold Used at hu ⊢
  rw [hh, List.getElem?_set] at hu
  by_cases hij : i = j
  · subst hij
    by_cases hl : i < s.handleOwner.length <;> simp [hl, HandleOwner.empty] at hu
  · rw [if_neg hij] at hu
    exact ⟨Ne.symm hij, hu⟩

theorem used_clear_keep {s s' : Sys} {i j : Nat} {c : ClientId} {k : KeyId}
    (hh : s'.handleOwner = s.handleOwner.set i .empty) (hij : j ≠ i) (hu : Used s j c k) :
    Used s' j c k := by
  unfold Used at hu ⊢
  rw [hh, List.getElem?_set_ne hij.symm]
  exact hu

theorem mapped_iff {s : Sys} {k : KeyId} : Sys.mapped s k = true ↔ ∃ f, MapsTo s k f := by
  unfold Sys.mapped MapsTo
  rw [List.any_eq_true]
  constructor
  · intro hx
    obtain ⟨⟨k', f, u⟩, he, h⟩ := hx
    simp only [Bool.and_eq_true, beq_iff_eq] at h
    obtain ⟨rfl, rfl⟩ := h
    exact ⟨f, he⟩
  · intro hx
    obtain ⟨f, hf⟩ := hx
    exact ⟨_, hf, by simp⟩

/-- The id the lookup returns is that of a used slot, or `NULL` without one. -/
theorem mbedcrypto2Fb_cases (s : Sys) (k : KeyId) :
    MapsTo s k (halKeyIdMappingMbedcrypto2Fb s k) ∨
      (halKeyIdMappingMbedcrypto2Fb s k = 0 ∧ Sys.mapped s k = false) := by
  unfold halKeyIdMappingMbedcrypto2Fb
  split
  · rename_i e he
    left
    have hm := List.mem_of_find?_eq_some he
    have hp := List.find?_some he
    obtain ⟨k', f, u⟩ := e
    simp only [Bool.and_eq_true, beq_iff_eq] at hp
    obtain ⟨rfl, rfl⟩ := hp
    exact hm
  · rename_i hn
    right
    refine ⟨rfl, ?_⟩
    rw [List.find?_eq_none] at hn
    unfold Sys.mapped
    rw [List.any_eq_false]
    exact hn

theorem freshVendorId_used {s : Sys} {f k : KeyId} (h : freshVendorId s f (.ok k) = true)
    (i : Nat) (c : ClientId) : ¬ Used s i c k := by
  intro hu
  simp only [freshVendorId, Bool.and_eq_true, List.all_eq_true] at h
  have := h.1 _ (List.mem_of_getElem? hu)
  simp at this

theorem freshVendorId_maps {s : Sys} {f k f' : KeyId} (h : freshVendorId s f (.ok k) = true)
    (hfun : ∀ g g', MapsTo s k g → MapsTo s k g' → g = g') (hm : MapsTo s k f') :
    f' = f ∧ s.keyIdMappingTable.any (fun e => !e.inUse) = true := by
  have hk : Sys.mapped s k = true := mapped_iff.2 ⟨f', hm⟩
  simp only [freshVendorId, hk, Bool.not_true, Bool.false_or, Bool.and_eq_true, beq_iff_eq] at h
  obtain ⟨-, hf, hroom⟩ := h
  refine ⟨?_, hroom⟩
  rcases mbedcrypto2Fb_cases s k with hl | ⟨-, hl⟩
  · rw [hf] at hl
    exact hfun _ _ hm hl
  · rw [hk] at hl
    cases hl

/-! ## Invariant -/

structure Inv (s : St) : Prop where
  bound : ∀ i c k f, Used s.sys i c k → MapsTo s.sys k f → holds c k (.vendor f) s.hist = true
  single : ∀ i j c c' k f, Used s.sys i c k → Used s.sys j c' k → MapsTo s.sys k f → i = j
  functional : ∀ k f f', MapsTo s.sys k f → MapsTo s.sys k f' → f = f'
  entry : ∀ c k o, o.isVendor = false → holds c k o s.hist = true → ∃ i, Used s.sys i c k
  unmapped : ∀ c k o f, o.isVendor = false → holds c k o s.hist = true → ¬ MapsTo s.sys k f

theorem inv_init (cfg : Cfg) : Inv (init cfg) := by
  have hu : ∀ i c k, ¬ Used (init cfg).sys i c k := by
    intro i c k h
    have := List.eq_of_mem_replicate (List.mem_of_getElem? h)
    cases this
  exact ⟨fun i c k _ h => absurd h (hu i c k), fun i _ c _ k _ h => absurd h (hu i c k),
    fun k f _ h => by simp [init, Sys.init, MapsTo, List.mem_replicate] at h,
    fun c k o _ h => by simp [init, holds] at h, fun c k o _ _ h => by simp [init, holds] at h⟩

theorem inv_store {s s' : St} {c : ClientId} {k : KeyId} {i : Nat} {o : Origin}
    (h : Inv s) (hf : freeAt s.sys.handleOwner i)
    (hk : Sys.mapped s.sys k = false)
    (hh : s'.sys.handleOwner = s.sys.handleOwner.set i ⟨c, k, true⟩)
    (hm : s'.sys.keyIdMappingTable = s.sys.keyIdMappingTable)
    (hi : s'.hist = .got c k o :: s.hist) : Inv s' := by
  have hM : ∀ k f, MapsTo s'.sys k f ↔ MapsTo s.sys k f := fun k f => by unfold MapsTo; rw [hm]
  have hno : ∀ f, ¬ MapsTo s.sys k f := by
    intro f hf
    rw [mapped_iff.2 ⟨f, hf⟩] at hk
    cases hk
  refine ⟨?_, ?_, ?_, ?_, ?_⟩
  · intro j c' k' f hu hf'
    rw [hM] at hf'
    rw [hi, holds, Bool.or_eq_true]
    rcases used_of_set hh hu with ⟨-, -, rfl⟩ | ⟨-, hu⟩
    · exact absurd hf' (hno f)
    · exact .inr (h.bound _ _ _ _ hu hf')
  · intro a b c₁ c₂ k' f ha hb hf'
    rw [hM] at hf'
    rcases used_of_set hh ha with ⟨-, -, rfl⟩ | ⟨-, ha⟩
    · exact absurd hf' (hno f)
    rcases used_of_set hh hb with ⟨-, -, rfl⟩ | ⟨-, hb⟩
    · exact absurd hf' (hno f)
    exact h.single _ _ _ _ _ _ ha hb hf'
  · intro k' f f' h₁ h₂
    exact h.functional k' f f' ((hM _ _).1 h₁) ((hM _ _).1 h₂)
  · intro c' k' o' ho' hh'
    rw [hi, holds, Bool.or_eq_true, decide_eq_true_eq] at hh'
    rcases hh' with ⟨rfl, rfl, -⟩ | hh'
    · exact ⟨i, used_set_self hf hh⟩
    · obtain ⟨j, hj⟩ := h.entry c' k' o' ho' hh'
      exact ⟨j, used_set_keep hf hh hj⟩
  · intro c' k' o' f ho' hh' hf'
    rw [hM] at hf'
    rw [hi, holds, Bool.or_eq_true, decide_eq_true_eq] at hh'
    rcases hh' with ⟨rfl, rfl, -⟩ | hh'
    · exact hno f hf'
    · exact h.unmapped c' k' o' f ho' hh' hf'

theorem inv_vendor {s s' : St} {c : ClientId} {k f : KeyId} {i j : Nat} (h : Inv s)
    (hf : freeAt s.sys.handleOwner i) (hk : freshVendorId s.sys f (.ok k) = true)
    (hh : s'.sys.handleOwner = s.sys.handleOwner.set i ⟨c, k, true⟩)
    (hm : s'.sys.keyIdMappingTable = s.sys.keyIdMappingTable.set j ⟨k, f, true⟩)
    (hi : s'.hist = .got c k (.vendor f) :: s.hist) : Inv s' := by
  have hM : ∀ {k' f'}, MapsTo s'.sys k' f' → (k' = k ∧ f' = f) ∨ MapsTo s.sys k' f' := by
    intro k' f' hx
    unfold MapsTo at hx
    rw [hm] at hx
    rcases List.mem_or_eq_of_mem_set hx with hx | hx
    · exact .inr hx
    · simp only [IdMapping.mk.injEq, and_true] at hx
      exact .inl hx
  have hM' : ∀ {f'}, MapsTo s'.sys k f' → f' = f := by
    intro f' hx
    rcases hM hx with ⟨-, rfl⟩ | hx
    · rfl
    · exact (freshVendorId_maps hk (h.functional k) hx).1
  have hnew := freshVendorId_used hk
  refine ⟨?_, ?_, ?_, ?_, ?_⟩
  · intro a c' k' f' hu hf'
    rw [hi, holds, Bool.or_eq_true, decide_eq_true_eq]
    rcases used_of_set hh hu with ⟨-, rfl, rfl⟩ | ⟨-, hu⟩
    · exact .inl ⟨rfl, rfl, by rw [hM' hf']⟩
    · rcases hM hf' with ⟨rfl, -⟩ | hf'
      · exact absurd hu (hnew _ _)
      · exact .inr (h.bound _ _ _ _ hu hf')
  · intro a b c₁ c₂ k' f' ha hb hf'
    rcases used_of_set hh ha with ⟨rfl, -, hka⟩ | ⟨-, ha⟩
    · rcases used_of_set hh hb with ⟨rfl, -, -⟩ | ⟨-, hb⟩
      · rfl
      · exact absurd (hka ▸ hb) (hnew _ _)
    · rcases used_of_set hh hb with ⟨-, -, rfl⟩ | ⟨-, hb⟩
      · exact absurd ha (hnew _ _)
      · rcases hM hf' with ⟨rfl, -⟩ | hf'
        · exact absurd ha (hnew _ _)
        · exact h.single _ _ _ _ _ _ ha hb hf'
  · intro k' f₁ f₂ h₁ h₂
    by_cases hkk : k' = k
    · subst hkk
      rw [hM' h₁, hM' h₂]
    · rcases hM h₁ with ⟨rfl, -⟩ | h₁
      · exact absurd rfl hkk
      rcases hM h₂ with ⟨rfl, -⟩ | h₂
      · exact absurd rfl hkk
      exact h.functional _ _ _ h₁ h₂
  · intro c' k' o' ho' hh'
    rw [hi, holds, Bool.or_eq_true, decide_eq_true_eq] at hh'
    rcases hh' with ⟨-, -, rfl⟩ | hh'
    · cases ho'
    · obtain ⟨a, ha⟩ := h.entry c' k' o' ho' hh'
      exact ⟨a, used_set_keep hf hh ha⟩
  · intro c' k' o' f' ho' hh' hf'
    rw [hi, holds, Bool.or_eq_true, decide_eq_true_eq] at hh'
    rcases hh' with ⟨-, -, rfl⟩ | hh'
    · cases ho'
    rcases hM hf' with ⟨rfl, -⟩ | hf'
    · obtain ⟨a, ha⟩ := h.entry c' _ o' ho' hh'
      exact hnew _ _ ha
    · exact h.unmapped c' k' o' f' ho' hh' hf'

/-- A full mapping table: the handle is stored, the call fails, and the id has
no mapping at all. -/
theorem inv_vendorFull {s s' : St} {c : ClientId} {k f : KeyId} {i : Nat} (h : Inv s)
    (hf : freeAt s.sys.handleOwner i) (hk : freshVendorId s.sys f (.ok k) = true)
    (hj : s.sys.keyIdMappingTable.findIdx? (fun e => !e.inUse) = none)
    (hh : s'.sys.handleOwner = s.sys.handleOwner.set i ⟨c, k, true⟩)
    (hm : s'.sys.keyIdMappingTable = s.sys.keyIdMappingTable)
    (hi : s'.hist = s.hist) : Inv s' := by
  have hM : ∀ k f, MapsTo s'.sys k f ↔ MapsTo s.sys k f := fun k f => by unfold MapsTo; rw [hm]
  have hno : ∀ f, ¬ MapsTo s.sys k f := by
    intro f' hf'
    have hroom := (freshVendorId_maps hk (h.functional k) hf').2
    rw [List.any_eq_true] at hroom
    obtain ⟨e, he, hfree⟩ := hroom
    rw [List.findIdx?_eq_none_iff] at hj
    rw [hj e he] at hfree
    cases hfree
  refine ⟨?_, ?_, ?_, ?_, ?_⟩
  · intro a c' k' f' hu hf'
    rw [hM] at hf'
    rw [hi]
    rcases used_of_set hh hu with ⟨-, -, rfl⟩ | ⟨-, hu⟩
    · exact absurd hf' (hno f')
    · exact h.bound _ _ _ _ hu hf'
  · intro a b c₁ c₂ k' f' ha hb hf'
    rw [hM] at hf'
    rcases used_of_set hh ha with ⟨-, -, rfl⟩ | ⟨-, ha⟩
    · exact absurd hf' (hno f')
    rcases used_of_set hh hb with ⟨-, -, rfl⟩ | ⟨-, hb⟩
    · exact absurd hf' (hno f')
    exact h.single _ _ _ _ _ _ ha hb hf'
  · intro k' f₁ f₂ h₁ h₂
    exact h.functional k' f₁ f₂ ((hM _ _).1 h₁) ((hM _ _).1 h₂)
  · intro c' k' o' ho' hh'
    rw [hi] at hh'
    obtain ⟨a, ha⟩ := h.entry c' k' o' ho' hh'
    exact ⟨a, used_set_keep hf hh ha⟩
  · intro c' k' o' f' ho' hh' hf'
    rw [hi] at hh'
    exact h.unmapped c' k' o' f' ho' hh' ((hM _ _).1 hf')

theorem inv_release {s s' : St} {c : ClientId} {k : KeyId} {i : Nat} (h : Inv s)
    (hu : Used s.sys i c k) (hh : s'.sys.handleOwner = s.sys.handleOwner.set i .empty)
    (hm : s'.sys.keyIdMappingTable = s.sys.keyIdMappingTable)
    (hi : s'.hist = .released c k :: s.hist) : Inv s' := by
  have hM : ∀ k f, MapsTo s'.sys k f ↔ MapsTo s.sys k f := fun k f => by unfold MapsTo; rw [hm]
  refine ⟨?_, ?_, ?_, ?_, ?_⟩
  · intro a c' k' f ha hf
    rw [hM] at hf
    obtain ⟨hne, ha⟩ := used_of_clear hh ha
    rw [hi, holds, Bool.and_eq_true, Bool.not_eq_true', decide_eq_false_iff_not]
    refine ⟨?_, h.bound _ _ _ _ ha hf⟩
    -- a second used handle with a mapped id cannot exist
    intro hx
    obtain ⟨rfl, rfl⟩ := hx
    exact hne (h.single _ _ _ _ _ _ ha hu hf)
  · intro a b c₁ c₂ k' f ha hb hf
    exact h.single _ _ _ _ _ _ (used_of_clear hh ha).2 (used_of_clear hh hb).2 ((hM _ _).1 hf)
  · intro k' f₁ f₂ h₁ h₂
    exact h.functional k' f₁ f₂ ((hM _ _).1 h₁) ((hM _ _).1 h₂)
  · intro c' k' o' ho' hh'
    rw [hi, holds, Bool.and_eq_true, Bool.not_eq_true', decide_eq_false_iff_not] at hh'
    obtain ⟨hne, hh'⟩ := hh'
    obtain ⟨a, ha⟩ := h.entry c' k' o' ho' hh'
    refine ⟨a, used_clear_keep hh ?_ ha⟩
    intro hx
    subst hx
    unfold Used at ha hu
    rw [ha] at hu
    simp only [Option.some.injEq, HandleOwner.mk.injEq, and_true] at hu
    exact hne ⟨hu.1.symm, hu.2.symm⟩
  · intro c' k' o' f ho' hh' hf
    rw [hi, holds, Bool.and_eq_true] at hh'
    exact h.unmapped c' k' o' f ho' hh'.2 ((hM _ _).1 hf)

theorem inv_effect {cfg : Cfg} {s s' : St} (h : Inv s) (he : Effect cfg s s') : Inv s' := by
  cases he with
  | none hh hm hi =>
    have hU : ∀ i c k, Used s'.sys i c k ↔ Used s.sys i c k := fun i c k => by unfold Used; rw [hh]
    have hM : ∀ k f, MapsTo s'.sys k f ↔ MapsTo s.sys k f := fun k f => by unfold MapsTo; rw [hm]
    refine ⟨?_, ?_, ?_, ?_, ?_⟩ <;> simp only [hU, hM, hi]
    exacts [h.bound, h.single, h.functional, h.entry, h.unmapped]
  | store c k i o _ hf hk hh hm hi => exact inv_store h hf hk hh hm hi
  | vendor c k f i j hf hk _ hh hm hi => exact inv_vendor h hf hk hh hm hi
  | vendorFull c k f i hf hk hj hh hm hi => exact inv_vendorFull h hf hk hj hh hm hi
  | release c k i hu hh hm hi => exact inv_release h hu hh hm hi

/-- The runs in which every answer of the back end is fresh. -/
def freshLts (cfg : Cfg) : LTS St Lbl := (lts cfg).restrict fun s l => Fresh s l = true

theorem inv_inductive (cfg : Cfg) : (freshLts cfg).Inductive Inv where
  init := by
    intro s hs
    rw [hs]
    exact inv_init cfg
  step := by
    intro s l s' h hs
    obtain ⟨hfresh, hs⟩ := hs
    simp only [lts, LTS.ofFn, step] at hs
    split at hs
    · cases hs
      exact inv_effect h (effect_call hfresh)
    · cases hs

theorem inv_reachable (cfg : Cfg) (s : St) (h : (freshLts cfg).Reachable s) : Inv s :=
  (inv_inductive cfg).reachable s h

/-! ## Redirection -/

/-- Neither test accepts `NULL`, the answer of the lookup without a mapping. -/
theorem vendorKeyIsValid_mapped {cfg : Cfg} {s : Sys} {k : KeyId} {dev : Bool}
    (h : vendorKeyIsValid cfg s k dev = true) : MapsTo s k (halKeyIdMappingMbedcrypto2Fb s k) := by
  rcases mbedcrypto2Fb_cases s k with hm | ⟨h0, -⟩
  · exact hm
  · unfold vendorKeyIsValid at h
    rw [h0] at h
    cases dev with
    | false => simp [halIsValidKeyId, keyIdVendorMin] at h
    | true =>
      simp only [if_true, halIsDeviceKeyId, halGetDeviceKeyId, keyIdVendorMin, beq_iff_eq] at h
      have hn := congrArg UInt32.toNat h
      have hd := cfg.device_pos
      have hs := cfg.device_static
      have hl := cfg.static_le
      simp only [UInt32.toNat_sub, UInt32.toNat_add, UInt32.toNat_ofNat',
        UInt32.reduceToNat] at hn
      omega

/-- The three operations differ in their vector checks and in which mapped ids
they redirect. -/
theorem serve_cases (cfg : Cfg) (s : Sys) (c : ClientId) (v : Vecs) (k : KeyId) (op : Op) :
    (∃ e, serve cfg s c v k op = .refused e) ∨
      ∃ i dev, Used s i c k ∧ serve cfg s c v k op =
        if vendorKeyIsValid cfg s k dev then .vendor (halKeyIdMappingMbedcrypto2Fb s k)
        else .backend c k := by
  cases op
  all_goals
    simp only [serve, signHash, verifyHash, exportPublicKey]
    split
    · exact .inl ⟨_, rfl⟩
    split
    · exact .inl ⟨_, rfl⟩
    split
    · exact .inl ⟨_, rfl⟩
    rename_i i hi
    exact .inr ⟨i, _, checkHandleOwner_ok hi, rfl⟩

theorem bound_of_inv (cfg : Cfg) (s : St) (h : Inv s) : Bound cfg s where
  vendor := by
    intro c v k op f hs
    rcases serve_cases cfg s.sys c v k op with ⟨e, he⟩ | ⟨i, dev, hu, he⟩
    · rw [he] at hs
      cases hs
    · rw [he] at hs
      split at hs
      · rename_i hv
        cases hs
        exact h.bound i c k _ hu (vendorKeyIsValid_mapped hv)
      · cases hs
  ordinary := by
    intro c k o ho hh v op
    rcases serve_cases cfg s.sys c v k op with he | ⟨i, dev, -, he⟩
    · exact .inl he
    · right
      rw [he]
      split
      · rename_i hv
        exact absurd (vendorKeyIsValid_mapped hv) (h.unmapped c k o _ ho hh)
      · rfl

/-- **Redirection is bound to the open handle** in every run in which the back
end never gives out an id that still has a mapping: whoever is redirected to a
vendor key opened it under that id and still holds it, and an ordinary key is
never served by a vendor key. -/
theorem redirect_bound (cfg : Cfg) (s : St)
    (h : ((lts cfg).restrict fun s l => Fresh s l = true).Reachable s) : Bound cfg s :=
  bound_of_inv cfg s (inv_reachable cfg s h)

/-- `TFM_CRYPTO_MAX_KEY_HANDLES` of 32 and the device key in the first of eight
static slots. -/
def exCfg : Cfg := ⟨32, 8, 1, by decide, by decide, by decide⟩

def openVecs : Vecs := ⟨2, 1, 44, 4, 4⟩
def importVecs : Vecs := ⟨3, 1, 44, 24, 4⟩
def closeVecs : Vecs := ⟨1, 0, 44, 0, 0⟩
def signVecs : Vecs := ⟨2, 1, 44, 32, 64⟩

/-- Client 1 opens the device key, which is imported as `k`. -/
def openDevice (k : KeyId) : Lbl :=
  .openKey 1 openVecs keyIdVendorMin ⟨.ok (), .ok (), .ok k⟩ (.error .doesNotExist)

/-- Client 1 opens the device key as 5 and client 2 imports a key as 6. -/
theorem redirect_bound_device :
    ∃ s, Bound exCfg s ∧ signHash exCfg s.sys 1 signVecs 5 = .vendor keyIdVendorMin ∧
      signHash exCfg s.sys 2 signVecs 6 = .backend 2 6 := by
  let tr : List Lbl := [openDevice 5, .importKey 2 importVecs .volatile (.ok 6)]
  have he : (LTS.execC Fresh (step exCfg) (init exCfg) tr).isSome = true := by decide +kernel
  obtain ⟨s, hs⟩ := Option.isSome_iff_exists.1 he
  refine ⟨s, redirect_bound exCfg s (LTS.reachable_execC (fun _ _ h => h) tr rfl hs), ?_⟩
  have hv : (LTS.execC Fresh (step exCfg) (init exCfg) tr).map (fun s =>
      (signHash exCfg s.sys 1 signVecs 5, signHash exCfg s.sys 2 signVecs 6)) =
      some (.vendor keyIdVendorMin, .backend 2 6) := by decide +kernel
  rw [hs] at hv
  simpa using hv

/-- Open the device key as 5, close it, then client 2 imports a key that gets
the id 5 again. -/
def staleTrace : List Lbl :=
  [openDevice 5, .closeKey 1 closeVecs 5 (.ok ()), .importKey 2 importVecs .volatile (.ok 5)]

/-- **Counterexample**: the mapping outlives the handle. Client 2, which never
opened a vendor key, signs with the device key under the id of the key it
imported itself. -/
theorem redirect_after_close :
    ∃ s, (lts exCfg).Reachable s ∧ signHash exCfg s.sys 2 signVecs 5 = .vendor keyIdVendorMin ∧
      holds 2 5 .imported s.hist = true ∧ ¬ Bound exCfg s := by
  have he : (LTS.exec (step exCfg) (init exCfg) staleTrace).isSome = true := by decide +kernel
  obtain ⟨s, hs⟩ := Option.isSome_iff_exists.1 he
  have hv : (LTS.exec (step exCfg) (init exCfg) staleTrace).map (fun s =>
      (signHash exCfg s.sys 2 signVecs 5, holds 2 5 .imported s.hist,
        holds 2 5 (.vendor keyIdVendorMin) s.hist)) =
      some (.vendor keyIdVendorMin, true, false) := by decide +kernel
  rw [hs] at hv
  simp only [Option.map_some, Option.some.injEq, Prod.mk.injEq] at hv
  obtain ⟨hsign, himp, hven⟩ := hv
  refine ⟨s, LTS.reachable_exec staleTrace (.init rfl) hs, hsign, himp, fun hb => ?_⟩
  have := hb.vendor 2 signVecs 5 .signHash keyIdVendorMin hsign
  rw [hven] at this
  cases this

end Tfm.L4.VendorKey
