import Tfm.Core.Bytes
import Tfm.Core.Psa
import Mathlib.Data.UInt

/-!
# Reading an encrypted object of Protected Storage

Model of ps_encrypted_object_read and of the decryption it calls, byte for byte: the
object and the crypto buffer are arrays, and every copy, every buffer that is handed
to the AEAD and every unsigned subtraction is logged. The code goes on after a
subtraction that wraps and after a copy that leaves its buffer; what is read behind
the end of a buffer is arbitrary.

What ITS returns and the AEAD are parameters (`Ext`). An AEAD that accepts only what
`ps_encrypted_object_write` produced decrypts to an object with a header that the object
system made (`Written`).

Results: `object_read_iff`, when all accesses are in bounds and the object that is read
is consistent.
-/
namespace Tfm.L4.PsDecode
open Tfm.Bytes

/-! ## Sizes -/

/-- `PS_IV_LEN_BYTES` -/
def ivLen : Nat := 12

/-- `PS_TAG_LEN_BYTES` -/
def tagLen : Nat := 16

/-- `sizeof(union ps_crypto_t)`: the tag and behind it the IV. -/
def cryptoSize : Nat := tagLen + ivLen

/-- `sizeof(struct ps_object_info_t)` -/
def infoSize : Nat := 12

/-- `PS_OBJECT_HEADER_SIZE` -/
def headerSize : Nat := cryptoSize + infoSize

/-- `PS_MAX_OBJECT_DATA_SIZE` of a 32-bit system. -/
structure Sizes where
  maxData : Nat
  maxData_lt : maxData + headerSize + tagLen < 2 ^ 32

/-- mirrors secure_fw/partitions/protected_storage/ps_encrypted_object.c:22-23 -/
def encryptSize (n : Nat) : Nat := n + headerSize - cryptoSize

section Sizes

variable (S : Sizes)

/-- `sizeof(struct ps_object_t)`, a multiple of the alignment of its header. -/
def objSize : Nat := (headerSize + S.maxData + 3) / 4 * 4

/-- `PS_MAX_ENCRYPTED_OBJ_SIZE` -/
def maxEncryptedObjSize : Nat := encryptSize S.maxData

/-- `PS_CRYPTO_BUF_LEN`
mirrors secure_fw/partitions/protected_storage/ps_encrypted_object.c:29-38 -/
def cryptoBufLen : Nat := maxEncryptedObjSize S + if ivLen < tagLen then tagLen else ivLen

end Sizes

/-! ## Memory -/

inductive Buf
  | obj
  | crypto
  deriving DecidableEq, Repr

def Buf.size (S : Sizes) : Buf → Nat
  | .obj => objSize S
  | .crypto => cryptoBufLen S

inductive Access
  | read (b : Buf) (offset size : Nat)
  | write (b : Buf) (offset size : Nat)
  /-- an unsigned subtraction -/
  | sub (x y : Nat)
  deriving DecidableEq, Repr

/-- The access lies in its buffer, the subtraction does not wrap. -/
def Access.Ok (S : Sizes) : Access → Prop
  | .read b offset size | .write b offset size => offset + size ≤ b.size S
  | .sub x y => y ≤ x

instance (S : Sizes) (a : Access) : Decidable (a.Ok S) :=
  match a with
  | .read _ _ _ | .write _ _ _ | .sub _ _ => inferInstanceAs (Decidable (_ ≤ _))

/-- The bytes of the buffers, and what was done so far. -/
structure World where
  mem : Buf → Nat → UInt8
  log : List Access

/-- Straight-line code over the two buffers. -/
def Exec (α : Type) : Type := World → Except PsaStatus α × World

namespace Exec

instance : Monad Exec where
  pure a w := (.ok a, w)
  bind m f w := match m w with
    | (.ok a, w) => f a w
    | (.error e, w) => (.error e, w)

def fail {α : Type} (e : PsaStatus) : Exec α := fun w => (.error e, w)

/-- A status of a call out of the partition. -/
def ofStatus {α : Type} (r : Except PsaStatus α) : Exec α := fun w => (r, w)

def log (a : Access) : Exec Unit := fun w => (.ok (), { w with log := w.log ++ [a] })

def load (b : Buf) (offset size : Nat) : Exec (List UInt8) := do
  log (.read b offset size)
  fun w => (.ok ((List.range size).map fun i => w.mem b (offset + i)), w)

def store (b : Buf) (offset : Nat) (l : List UInt8) : Exec Unit := do
  log (.write b offset l.length)
  fun w => (.ok (), { w with mem := Function.update w.mem b fun o =>
    if offset ≤ o ∧ o < offset + l.length then l.getD (o - offset) 0 else w.mem b o })

def memcpy (dst : Buf) (dstOffset : Nat) (src : Buf) (srcOffset size : Nat) : Exec Unit := do
  let l ← load src srcOffset size
  store dst dstOffset l

/-- `x - y` of two `size_t`. -/
def sub (x y : Nat) : Exec Nat := do
  log (.sub x y)
  pure ((x + 2 ^ 32 - y) % 2 ^ 32)

end Exec

/-! ## The code -/

/-- The calls out of the partition: `psa_its_get` of the object file, the key of the
storage, the AEAD under it (IV, associated data, ciphertext and tag). -/
structure Ext where
  get : Except PsaStatus (List UInt8)
  setkey : Except PsaStatus Unit
  destroykey : Except PsaStatus Unit
  dec : List UInt8 → List UInt8 → List UInt8 → Option (List UInt8)

/-- The offsets of `header.crypto.ref.tag`, `header.crypto.ref.iv` and `header.info`. -/
def tagOffset : Nat := 0
def ivOffset : Nat := tagLen
def infoOffset : Nat := cryptoSize

section Code

open Exec

variable (S : Sizes) (E : Ext)

/-- `psa_aead_decrypt` from the crypto buffer to the object; it fails if there is no
room for the plaintext. -/
def psaAeadDecrypt (add : List UInt8) (inLen outSize : Nat) : Exec Nat := do
  let iv ← load .obj ivOffset ivLen
  let l ← load .crypto 0 inLen
  match E.dec iv add l with
  | none => fail .invalidSignature
  | some p =>
    if outSize < p.length then fail .bufferTooSmall
    else do
      store .obj infoOffset p
      pure p.length

/-- mirrors secure_fw/partitions/protected_storage/crypto/ps_crypto_interface.c:200-225 -/
def psCryptoAuthAndDecrypt (add : List UInt8) (inLen outSize : Nat) : Exec Nat := do
  memcpy .crypto inLen .obj tagOffset tagLen
  let inLen := (inLen + tagLen) % 2 ^ 32
  fun w => match psaAeadDecrypt E add inLen outSize w with
    | (.ok n, w) => (.ok n, w)
    | (.error _, w) => (.error .invalidSignature, w)

/-- mirrors secure_fw/partitions/protected_storage/ps_encrypted_object.c:53-92 -/
def psObjectAuthDecrypt (fid : UInt32) (curSize : Nat) : Exec Unit := do
  ofStatus E.setkey
  if cryptoBufLen S < curSize then fail .invalidArgument
  else do
    memcpy .crypto 0 .obj infoOffset curSize
    fun w =>
      match psCryptoAuthAndDecrypt E (le 4 fid.toNat) curSize (objSize S - cryptoSize) w with
      | (.ok outLen, w) => if outLen ≠ curSize then (.error .genericError, w) else (E.destroykey, w)
      | (.error _, w) => (.error .genericError, w)

/-- mirrors secure_fw/partitions/protected_storage/ps_encrypted_object.c:147-188 -/
def psEncryptedObjectRead (fid : UInt32) : Exec Unit := do
  if cryptoBufLen S < maxEncryptedObjSize S + ivLen then fail .genericError
  else do
    let l ← ofStatus E.get
    store .crypto 0 l
    let decryptSize ← sub l.length ivLen
    memcpy .obj infoOffset .crypto 0 decryptSize
    memcpy .obj ivOffset .crypto decryptSize ivLen
    psObjectAuthDecrypt S E fid decryptSize

end Code

/-! ## What is written -/

/-- `struct ps_object_info_t` -/
structure Info where
  currentSize : Nat
  maxSize : Nat
  createFlags : Nat
  deriving DecidableEq, Repr

def Info.bytes (i : Info) : List UInt8 := le 4 i.currentSize ++ le 4 i.maxSize ++ le 4 i.createFlags

/-- mirrors secure_fw/partitions/protected_storage/ps_utils.c:10-30 -/
def psUtilsCheckContainedIn (supersetSize subsetOffset subsetSize : Nat) : Bool :=
  if subsetOffset > supersetSize then false
  else decide (subsetSize ≤ supersetSize - subsetOffset)

/-- The headers that the object system hands to `ps_encrypted_object_write`: `ps_object_create`
and `ps_object_write`, of an object that was read.
mirrors secure_fw/partitions/protected_storage/ps_object_system.c:224-299
mirrors secure_fw/partitions/protected_storage/ps_object_system.c:339-409 -/
inductive Written (S : Sizes) : Info → Prop
  | create {size flags : Nat} (h : ¬ size > S.maxData) : Written S ⟨size, size, flags⟩
  | write {i : Info} {offset size : Nat} (hi : Written S i) (ho : ¬ offset > i.currentSize)
    (hc : psUtilsCheckContainedIn i.maxSize offset size = true) :
    Written S (if i.currentSize < offset + size then { i with currentSize := offset + size } else i)

/-- What `ps_encrypted_object_write` encrypts: `PS_ENCRYPT_SIZE` bytes from `header.info` on.
mirrors secure_fw/partitions/protected_storage/ps_encrypted_object.c:190-201 -/
def Info.plaintext (i : Info) (data : Nat → UInt8) : List UInt8 :=
  i.bytes ++ (List.range i.currentSize).map data

/-- The AEAD accepts only what `ps_encrypted_object_write` produced. -/
def Ext.OnlyWritten (E : Ext) (S : Sizes) : Prop := ∀ iv add l p, E.dec iv add l = some p →
  ∃ i data, Written S i ∧ p = i.plaintext data

theorem Written.sizes {S : Sizes} {i : Info} (h : Written S i) :
    i.currentSize ≤ i.maxSize ∧ i.maxSize ≤ S.maxData := by
  induction h with
  | create h => exact ⟨Nat.le_refl _, Nat.le_of_not_lt h⟩
  | @write i offset size _ ho hc ih =>
    unfold psUtilsCheckContainedIn at hc
    split at hc
    · cases hc
    · rw [decide_eq_true_eq] at hc
      split
      · exact ⟨by dsimp only; omega, ih.2⟩
      · exact ih

/-! ## Rules -/

section Rules

variable {S : Sizes} {α β : Type} {w : World} {b : Buf} {offset size : Nat}

/-- Everything that was done is in bounds. -/
def World.Safe (S : Sizes) (w : World) : Prop := ∀ a ∈ w.log, a.Ok S

theorem World.Safe.log (h : w.Safe S) {a : Access} (ha : a.Ok S) :
    World.Safe S { w with log := w.log ++ [a] } := by
  intro x hx
  rcases List.mem_append.1 hx with hx | hx
  · exact h x hx
  · rw [List.mem_singleton.1 hx]
    exact ha

/-- `m` ends in `Q`. -/
def Exec.wp (m : Exec α) (w : World) (Q : Except PsaStatus α → World → Prop) : Prop :=
  Q (m w).1 (m w).2

theorem wp_bind {m : Exec α} {f : α → Exec β} {Q : Except PsaStatus β → World → Prop}
    (h : m.wp w fun r w' => match r with
      | .ok a => (f a).wp w' Q
      | .error e => Q (.error e) w') : (m >>= f).wp w Q := by
  unfold Exec.wp at *
  change Q (match m w with
    | (.ok a, w) => f a w
    | (.error e, w) => (.error e, w)).1 (match m w with
    | (.ok a, w) => f a w
    | (.error e, w) => (.error e, w)).2
  revert h
  generalize m w = r
  obtain ⟨r, w'⟩ := r
  cases r with
  | ok a => exact id
  | error e => exact id

theorem wp_ofStatus {r : Except PsaStatus α} {Q : Except PsaStatus α → World → Prop} (h : Q r w) :
    (Exec.ofStatus r).wp w Q := h

theorem wp_load {Q : Except PsaStatus (List UInt8) → World → Prop} (h : w.Safe S)
    (hok : offset + size ≤ b.size S)
    (hQ : ∀ l w', l.length = size → w'.Safe S → w'.mem = w.mem → Q (.ok l) w') :
    (Exec.load b offset size).wp w Q := by
  refine wp_bind ?_
  exact hQ _ _ (by rw [List.length_map, List.length_range]) (h.log hok) rfl

theorem wp_store {l : List UInt8} {Q : Except PsaStatus Unit → World → Prop} (h : w.Safe S)
    (hok : offset + l.length ≤ b.size S)
    (hQ : ∀ w', w'.Safe S → (∀ i v, l[i]? = some v → w'.mem b (offset + i) = v) → Q (.ok ()) w') :
    (Exec.store b offset l).wp w Q := by
  refine wp_bind ?_
  refine hQ _ (fun x hx => h.log (a := .write b offset l.length) hok x hx) fun i v hv => ?_
  have hi := (List.getElem?_eq_some_iff.1 hv).1
  dsimp only
  rw [Function.update_self, if_pos (by omega), Nat.add_sub_cancel_left, List.getD_eq_getElem?_getD, hv]
  rfl

theorem wp_memcpy {src : Buf} {srcOffset : Nat} {Q : Except PsaStatus Unit → World → Prop}
    (h : w.Safe S) (hsrc : srcOffset + size ≤ src.size S) (hdst : offset + size ≤ b.size S)
    (hQ : ∀ w', w'.Safe S → Q (.ok ()) w') :
    (Exec.memcpy b offset src srcOffset size).wp w Q :=
  wp_bind (wp_load h hsrc fun l w' hl hw' _ =>
    wp_store hw' (by rw [hl]; exact hdst) fun w'' hw'' _ => hQ w'' hw'')

theorem wp_sub {x y : Nat} {Q : Except PsaStatus Nat → World → Prop} (h : w.Safe S) (hle : y ≤ x)
    (hx : x < 2 ^ 32) (hQ : ∀ w', w'.Safe S → Q (.ok (x - y)) w') : (Exec.sub x y).wp w Q := by
  have hsub : (x + 2 ^ 32 - y) % 2 ^ 32 = x - y := by
    rw [Nat.sub_add_comm hle, Nat.add_mod_right, Nat.mod_eq_of_lt (by omega)]
  refine wp_bind ?_
  show Q (.ok ((x + 2 ^ 32 - y) % 2 ^ 32)) _
  rw [hsub]
  exact hQ _ (h.log hle)

/-- What was done stays in the log. -/
def Exec.Keeps (m : Exec α) : Prop := ∀ w a, a ∈ w.log → a ∈ (m w).2.log

theorem keeps_bind {m : Exec α} {f : α → Exec β} (hm : m.Keeps) (hf : ∀ a, (f a).Keeps) :
    (m >>= f).Keeps := by
  intro w a ha
  have h := hm w a ha
  change a ∈ (match m w with
    | (.ok a, w) => f a w
    | (.error e, w) => (.error e, w)).2.log
  revert h
  generalize m w = r
  obtain ⟨r, w'⟩ := r
  cases r with
  | ok x => exact hf x w' a
  | error e => exact id

theorem keeps_log (a : Access) : (Exec.log a).Keeps := fun _ _ h => List.mem_append_left _ h

theorem keeps_load : (Exec.load b offset size).Keeps := keeps_bind (keeps_log _) fun _ _ _ h => h

theorem keeps_store {l : List UInt8} : (Exec.store b offset l).Keeps :=
  keeps_bind (keeps_log _) fun _ _ _ h => h

theorem keeps_memcpy {src : Buf} {srcOffset : Nat} :
    (Exec.memcpy b offset src srcOffset size).Keeps :=
  keeps_bind keeps_load fun _ => keeps_store

end Rules

/-! ## Reading an object -/

section Read

variable {S : Sizes} {E : Ext} {w : World} {fid : UInt32} {n : Nat}

/-- The header of the object in the buffer. -/
def World.info (w : World) : Info :=
  let bytes := fun o => (List.range 4).map fun i => w.mem .obj (infoOffset + o + i)
  ⟨ofLe (bytes 0), ofLe (bytes 4), ofLe (bytes 8)⟩

/-- The object fits its buffer. -/
def Info.Consistent (S : Sizes) (i : Info) : Prop :=
  i.currentSize ≤ i.maxSize ∧ i.currentSize ≤ S.maxData

/-- A plaintext of `psa_aead_decrypt` is as long as the ciphertext. -/
def Ext.Lengths (E : Ext) : Prop := ∀ iv add l p, E.dec iv add l = some p →
  p.length + tagLen = l.length

theorem sizes_eq (S : Sizes) : cryptoBufLen S = S.maxData + 28 ∧ maxEncryptedObjSize S = S.maxData + 12 ∧
    S.maxData + 40 ≤ objSize S := by
  unfold cryptoBufLen maxEncryptedObjSize encryptSize objSize headerSize cryptoSize infoSize tagLen ivLen
  refine ⟨?_, ?_, ?_⟩
  · simp
  · omega
  · omega

/-- A number in the header. -/
theorem ofLe_mem {x o : Nat} (hx : x < 2 ^ 32)
    (hw : ∀ k v, (le 4 x)[k]? = some v → w.mem .obj (infoOffset + o + k) = v) :
    ofLe ((List.range 4).map fun i => w.mem .obj (infoOffset + o + i)) = x := by
  have hbytes : ((List.range 4).map fun i => w.mem .obj (infoOffset + o + i)) = le 4 x := by
    refine List.ext_getElem? fun k => ?_
    by_cases hk : k < 4
    · obtain ⟨v, hv⟩ : ∃ v, (le 4 x)[k]? = some v :=
        ⟨_, List.getElem?_eq_getElem (by rwa [length_le])⟩
      rw [hv, List.getElem?_map, List.getElem?_range hk, Option.map_some, hw k v hv]
    · rw [List.getElem?_eq_none (by simp; omega), List.getElem?_eq_none (by simp; omega)]
  rw [hbytes, ofLe_le]
  exact Nat.mod_eq_of_lt hx

/-- The header of an object that was decrypted. -/
theorem info_of_plaintext {i : Info} {data : Nat → UInt8} (hi : Written S i)
    (hw : ∀ k v, (i.plaintext data)[k]? = some v → w.mem .obj (infoOffset + k) = v) :
    w.info.Consistent S := by
  obtain ⟨h1, h2⟩ := hi.sizes
  have hlt := S.maxData_lt
  have hcur : w.info.currentSize = i.currentSize := by
    refine ofLe_mem (o := 0) (by omega) fun k v hv => hw k v ?_
    have hk := (List.getElem?_eq_some_iff.1 hv).1
    rw [length_le] at hk
    unfold Info.plaintext Info.bytes
    rw [List.getElem?_append_left (by simp; omega), List.getElem?_append_left (by simp; omega),
      List.getElem?_append_left (by simp; omega), hv]
  have hmax : w.info.maxSize = i.maxSize := by
    refine ofLe_mem (o := 4) (by omega) fun k v hv => ?_
    have hk := (List.getElem?_eq_some_iff.1 hv).1
    rw [length_le] at hk
    rw [Nat.add_assoc]
    refine hw (4 + k) v ?_
    unfold Info.plaintext Info.bytes
    rw [List.getElem?_append_left (by simp; omega), List.getElem?_append_left (by simp; omega),
      List.getElem?_append_right (by simp), length_le, Nat.add_sub_cancel_left, hv]
  unfold Info.Consistent
  rw [hcur, hmax]
  exact ⟨h1, by omega⟩

theorem wp_psaAeadDecrypt {add : List UInt8} {outSize : Nat} (h : w.Safe S) (hl : E.Lengths)
    (hn : n ≤ cryptoBufLen S) (hw : E.OnlyWritten S) :
    (psaAeadDecrypt E add n outSize).wp w fun r w' => w'.Safe S ∧
      ∀ m, r = .ok m → m + tagLen = n ∧ w'.info.Consistent S := by
  obtain ⟨h1, h2, h3⟩ := sizes_eq S
  refine wp_bind (wp_load h ?_ fun iv w1 _ hs1 _ => wp_bind (wp_load hs1 ?_ fun l w2 hlen hs2 _ => ?_))
  · show ivOffset + ivLen ≤ objSize S
    unfold ivOffset ivLen tagLen
    omega
  · show 0 + n ≤ cryptoBufLen S
    omega
  · dsimp only
    cases hd : E.dec iv add l with
    | none => exact ⟨hs2, nofun⟩
    | some p =>
      have hp := hl iv add l p hd
      dsimp only
      split
      · exact ⟨hs2, nofun⟩
      · next hfits =>
        refine wp_bind (wp_store hs2 ?_ fun w3 hs3 hmem => ⟨hs3, fun m hm => ?_⟩)
        · show infoOffset + p.length ≤ objSize S
          unfold infoOffset cryptoSize tagLen ivLen at *
          omega
        · cases hm
          obtain ⟨i, data, hi, rfl⟩ := hw iv add l p hd
          exact ⟨hp.trans hlen, info_of_plaintext hi hmem⟩

theorem wp_psCryptoAuthAndDecrypt {add : List UInt8} {outSize : Nat} (h : w.Safe S)
    (hl : E.Lengths) (hn : n + tagLen ≤ cryptoBufLen S) (hw : E.OnlyWritten S) :
    (psCryptoAuthAndDecrypt E add n outSize).wp w fun r w' => w'.Safe S ∧
      ∀ m, r = .ok m → m = n ∧ w'.info.Consistent S := by
  obtain ⟨h1, h2, h3⟩ := sizes_eq S
  have hlt := S.maxData_lt
  have hlen : (n + tagLen) % 2 ^ 32 = n + tagLen := by
    unfold headerSize cryptoSize infoSize tagLen ivLen at hlt
    exact Nat.mod_eq_of_lt (by omega)
  refine wp_bind (wp_memcpy h ?_ hn fun w1 hs1 => ?_)
  · show tagOffset + tagLen ≤ objSize S
    unfold tagOffset tagLen
    omega
  · have hdec : (psaAeadDecrypt E add ((n + tagLen) % 2 ^ 32) outSize).wp w1 _ :=
      wp_psaAeadDecrypt hs1 hl (by rw [hlen]; exact hn) hw
    unfold Exec.wp at hdec ⊢
    dsimp only
    revert hdec
    generalize psaAeadDecrypt E add ((n + tagLen) % 2 ^ 32) outSize w1 = r
    obtain ⟨r, w2⟩ := r
    intro hx
    obtain ⟨hs2, hr⟩ := hx
    cases r with
    | error e => exact ⟨hs2, nofun⟩
    | ok m =>
      refine ⟨hs2, fun m' hm' => ?_⟩
      cases hm'
      obtain ⟨h4, h5⟩ := hr m rfl
      rw [hlen] at h4
      exact ⟨Nat.add_right_cancel h4, h5⟩

theorem wp_psObjectAuthDecrypt (h : w.Safe S) (hl : E.Lengths) (hn : n ≤ S.maxData + 12)
    (hw : E.OnlyWritten S) :
    (psObjectAuthDecrypt S E fid n).wp w fun r w' => w'.Safe S ∧
      (r = .ok () → w'.info.Consistent S) := by
  obtain ⟨h1, h2, h3⟩ := sizes_eq S
  refine wp_bind (wp_ofStatus ?_)
  cases E.setkey with
  | error e => exact ⟨h, nofun⟩
  | ok u =>
    dsimp only
    rw [if_neg (by omega)]
    refine wp_bind (wp_memcpy h ?_ ?_ fun w1 hs1 => ?_)
    · show infoOffset + n ≤ objSize S
      unfold infoOffset cryptoSize tagLen ivLen
      omega
    · show 0 + n ≤ cryptoBufLen S
      omega
    · have hdec : (psCryptoAuthAndDecrypt E (le 4 fid.toNat) n (objSize S - cryptoSize)).wp w1 _ :=
        wp_psCryptoAuthAndDecrypt hs1 hl (by unfold tagLen; omega) hw
      unfold Exec.wp at hdec ⊢
      dsimp only
      revert hdec
      generalize psCryptoAuthAndDecrypt E (le 4 fid.toNat) n (objSize S - cryptoSize) w1 = r
      obtain ⟨r, w2⟩ := r
      intro hx
      obtain ⟨hs2, hr⟩ := hx
      cases r with
      | error e => exact ⟨hs2, nofun⟩
      | ok m =>
        dsimp only
        split
        · exact ⟨hs2, nofun⟩
        · exact ⟨hs2, fun _ => (hr m rfl).2⟩

theorem wp_psEncryptedObjectRead (hget : ∀ l, E.get = .ok l →
      ivLen ≤ l.length ∧ l.length ≤ maxEncryptedObjSize S + ivLen) (hl : E.Lengths)
    (hw : E.OnlyWritten S) (h : w.Safe S) :
    (psEncryptedObjectRead S E fid).wp w fun r w' => w'.Safe S ∧
      (r = .ok () → w'.info.Consistent S) := by
  obtain ⟨h1, h2, h3⟩ := sizes_eq S
  have hlt := S.maxData_lt
  have hiv : ivLen = 12 := rfl
  unfold psEncryptedObjectRead
  rw [if_neg (by omega)]
  refine wp_bind (wp_ofStatus ?_)
  cases hg : E.get with
  | error e => exact ⟨h, nofun⟩
  | ok l =>
    obtain ⟨hge, hle⟩ := hget l hg
    dsimp only
    refine wp_bind (wp_store h ?_ fun w1 hs1 _ => wp_bind (wp_sub hs1 hge ?_ fun w2 hs2 =>
      wp_bind (wp_memcpy hs2 ?_ ?_ fun w3 hs3 => wp_bind (wp_memcpy hs3 ?_ ?_ fun w4 hs4 =>
        wp_psObjectAuthDecrypt hs4 hl (by omega) hw))))
    · show 0 + l.length ≤ cryptoBufLen S
      omega
    · have hh : headerSize = 40 := rfl
      omega
    · show 0 + (l.length - ivLen) ≤ cryptoBufLen S
      omega
    · show infoOffset + (l.length - ivLen) ≤ objSize S
      have ho : infoOffset = 28 := rfl
      omega
    · show l.length - ivLen + ivLen ≤ cryptoBufLen S
      omega
    · show ivOffset + ivLen ≤ objSize S
      have ho : ivOffset = 16 := rfl
      omega

theorem keeps_psaAeadDecrypt {add : List UInt8} {outSize : Nat} :
    (psaAeadDecrypt E add n outSize).Keeps := by
  refine keeps_bind keeps_load fun iv => keeps_bind keeps_load fun l => ?_
  cases E.dec iv add l with
  | none => exact fun _ _ h => h
  | some p =>
    dsimp only
    split
    · exact fun _ _ h => h
    · exact keeps_bind keeps_store fun _ _ _ h => h

theorem keeps_psObjectAuthDecrypt : (psObjectAuthDecrypt S E fid n).Keeps := by
  refine keeps_bind (fun _ _ h => h) fun _ => ?_
  split
  · exact fun _ _ h => h
  · refine keeps_bind keeps_memcpy fun _ w a ha => ?_
    have hdec : (psCryptoAuthAndDecrypt E (le 4 fid.toNat) n (objSize S - cryptoSize)).Keeps := by
      refine keeps_bind keeps_memcpy fun _ w a ha => ?_
      have h : a ∈ (psaAeadDecrypt E (le 4 fid.toNat) ((n + tagLen) % 2 ^ 32)
        (objSize S - cryptoSize) w).2.log := keeps_psaAeadDecrypt w a ha
      revert h
      generalize psaAeadDecrypt E (le 4 fid.toNat) ((n + tagLen) % 2 ^ 32) (objSize S - cryptoSize) w = r
      obtain ⟨r, w'⟩ := r
      cases r with
      | ok m => exact id
      | error e => exact id
    have h := hdec w a ha
    revert h
    generalize psCryptoAuthAndDecrypt E (le 4 fid.toNat) n (objSize S - cryptoSize) w = r
    obtain ⟨r, w'⟩ := r
    cases r with
    | error e => exact id
    | ok m =>
      dsimp only
      split
      · exact id
      · exact id

/-- The subtraction of the length of the IV is in the log. -/
theorem sub_logged {l : List UInt8} (hg : E.get = .ok l) :
    .sub l.length ivLen ∈ (psEncryptedObjectRead S E fid w).2.log := by
  obtain ⟨h1, h2, h3⟩ := sizes_eq S
  have hiv : ivLen = 12 := rfl
  unfold psEncryptedObjectRead
  rw [if_neg (by omega), hg]
  have hrest : ∀ n : Nat, (do
      Exec.memcpy .obj infoOffset .crypto 0 n
      Exec.memcpy .obj ivOffset .crypto n ivLen
      psObjectAuthDecrypt S E fid n : Exec Unit).Keeps := fun n =>
    keeps_bind keeps_memcpy fun _ => keeps_bind keeps_memcpy fun _ => keeps_psObjectAuthDecrypt
  exact hrest _ _ _ (List.mem_append_right _ (List.mem_singleton.2 rfl))

end Read

/-- **Reading an encrypted object** is in bounds and gives a consistent object or an error
exactly if the file that ITS returns is as long as an IV at least. -/
theorem object_read_iff (S : Sizes) (E : Ext) (fid : UInt32) (mem : Buf → Nat → UInt8)
    (hget : ∀ l, E.get = .ok l → l.length ≤ maxEncryptedObjSize S + ivLen) (hl : E.Lengths)
    (hw : E.OnlyWritten S) :
    ((psEncryptedObjectRead S E fid ⟨mem, []⟩).2.Safe S ∧
      ((psEncryptedObjectRead S E fid ⟨mem, []⟩).1 = .ok () →
        (psEncryptedObjectRead S E fid ⟨mem, []⟩).2.info.Consistent S)) ↔
    ∀ l, E.get = .ok l → ivLen ≤ l.length := by
  constructor
  · intro h l hg
    obtain ⟨hsafe, _⟩ := h
    exact hsafe _ (sub_logged hg)
  · intro hge
    exact wp_psEncryptedObjectRead (w := ⟨mem, []⟩) (fun l hg => ⟨hge l hg, hget l hg⟩) hl hw nofun

/-- Objects of four bytes. -/
def smallSizes : Sizes := ⟨4, by decide⟩

/-- An object of two bytes that was encrypted to itself, with a tag of zeros. -/
def stored : List UInt8 := Info.plaintext ⟨2, 2, 0⟩ fun k => UInt8.ofNat (k + 7)

/-- ITS returns `file`; the AEAD accepts `stored` and nothing else. -/
def extOf (file : List UInt8) : Ext where
  get := .ok file
  setkey := .ok ()
  destroykey := .ok ()
  dec _ _ l := if l = stored ++ List.replicate tagLen 0 then some stored else none

theorem extOf_lengths (file : List UInt8) : (extOf file).Lengths := by
  intro iv add l p hd
  obtain ⟨hl, hp⟩ : l = stored ++ List.replicate tagLen 0 ∧ stored = p := by
    simpa [extOf] using hd
  rw [hl, ← hp]
  rfl

theorem extOf_written (file : List UInt8) : (extOf file).OnlyWritten smallSizes := by
  intro iv add l p hd
  obtain ⟨_, hp⟩ : l = stored ++ List.replicate tagLen 0 ∧ stored = p := by
    simpa [extOf] using hd
  exact ⟨⟨2, 2, 0⟩, _, .create (by decide), hp.symm⟩

/-- The object is read from its file. -/
theorem object_read_stored :
    (psEncryptedObjectRead smallSizes (extOf (stored ++ List.replicate ivLen 1)) 5
      ⟨fun _ _ => 0, []⟩).2.Safe smallSizes :=
  ((object_read_iff smallSizes (extOf (stored ++ List.replicate ivLen 1)) 5 (fun _ _ => 0)
    (fun l hg => by cases hg; decide) (extOf_lengths _) (extOf_written _)).2
    fun l hg => by cases hg; decide).1

/-- A file of five bytes: the size of the ciphertext wraps. -/
theorem object_read_short : ¬ ∀ (S : Sizes) (E : Ext) (fid : UInt32) (mem : Buf → Nat → UInt8),
    (∀ l, E.get = .ok l → l.length ≤ maxEncryptedObjSize S + ivLen) → E.Lengths →
    E.OnlyWritten S → (psEncryptedObjectRead S E fid ⟨mem, []⟩).2.Safe S := by
  intro h
  have hsafe := h smallSizes (extOf [1, 2, 3, 4, 5]) 5 (fun _ _ => 0)
    (fun l hg => by cases hg; decide) (extOf_lengths _) (extOf_written _)
  exact absurd (hsafe _ (sub_logged rfl)) (by decide)

end Tfm.L4.PsDecode
