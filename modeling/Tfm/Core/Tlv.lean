import Mathlib.Data.UInt
import Tfm.Core.Bytes

/-!
# Sequences of TLV entries

An entry is its type, the length of its data and the data; types and lengths have 16 bits.
A sequence of entries lies in memory one after the other, and code walks over it with an
offset.

Results: what is read at the offset of an entry (`readType_at`, `readLen_at`, `slice_at`,
`data_at`), and what a write of its header does (`writeHeader_at`).
-/
namespace Tfm.Tlv
open Tfm.Bytes

structure Entry where
  type : UInt16
  data : List UInt8
  deriving DecidableEq, Repr

def headerSize : Nat := 4

def header (type len : Nat) : List UInt8 := le 2 type ++ le 2 len

def Entry.bytes (e : Entry) : List UInt8 := header e.type.toNat e.data.length ++ e.data

def encode (es : List Entry) : List UInt8 := es.flatMap Entry.bytes

/-- The length of every entry has 16 bits. -/
def Short (es : List Entry) : Prop := ∀ e ∈ es, e.data.length < 2 ^ 16

/-! ## Memory -/

def slice (mem : List UInt8) (off n : Nat) : List UInt8 := (mem.drop off).take n

def writeAt (mem : List UInt8) (off : Nat) (bs : List UInt8) : List UInt8 :=
  mem.take off ++ bs ++ mem.drop (off + bs.length)

def readType (mem : List UInt8) (off : Nat) : Nat := ofLe (slice mem off 2)

def readLen (mem : List UInt8) (off : Nat) : Nat := ofLe (slice mem (off + 2) 2)

/-! ## Sizes -/

@[simp] theorem length_header (type len : Nat) : (header type len).length = headerSize := by
  simp [header, headerSize]

@[simp] theorem length_bytes (e : Entry) : e.bytes.length = headerSize + e.data.length := by
  simp [Entry.bytes]

@[simp] theorem encode_nil : encode [] = [] := rfl

@[simp] theorem encode_cons (e : Entry) (es : List Entry) : encode (e :: es) = e.bytes ++ encode es := by
  simp [encode]

@[simp] theorem encode_append (es es' : List Entry) : encode (es ++ es') = encode es ++ encode es' := by
  simp [encode]

theorem short_cons {e : Entry} {es : List Entry} :
    Short (e :: es) ↔ e.data.length < 2 ^ 16 ∧ Short es := by
  simp [Short]

/-- Entries that fit into 64 KB are short. -/
theorem short_of_length {es : List Entry} (h : (encode es).length < 2 ^ 16) : Short es := by
  induction es with
  | nil => simp [Short]
  | cons e es ih =>
    rw [encode_cons, List.length_append, length_bytes] at h
    exact short_cons.2 ⟨by omega, ih (by omega)⟩

theorem length_le_encode (es : List Entry) : es.length ≤ (encode es).length := by
  induction es with
  | nil => simp
  | cons e es ih =>
    rw [encode_cons, List.length_append, length_bytes, List.length_cons, headerSize]
    omega

/-! ## At an entry -/

section At

variable {pre post : List UInt8} {e : Entry} {off : Nat}

theorem slice_append {mid : List UInt8} (hoff : off = pre.length) (n : Nat) :
    slice (pre ++ mid) off n = mid.take n := by
  rw [slice, hoff, List.drop_left]

theorem slice_inside {mid : List UInt8} (hoff : off = pre.length) :
    slice (pre ++ (mid ++ post)) off mid.length = mid := by
  rw [slice_append hoff, List.take_left]

/-- Bytes written over as many others. -/
theorem writeAt_inside {mid bs : List UInt8} (hoff : off = pre.length)
    (hlen : bs.length = mid.length) :
    writeAt (pre ++ (mid ++ post)) off bs = pre ++ (bs ++ post) := by
  have hdrop : (pre ++ (mid ++ post)).drop (off + bs.length) = post := by
    rw [hoff, hlen, ← List.length_append, ← List.append_assoc, List.drop_left]
  rw [writeAt, hdrop, hoff, List.take_left, List.append_assoc]

theorem ofLe_le_two (x : Nat) (h : x < 2 ^ 16) : ofLe (le 2 x) = x := by
  rw [ofLe_le]
  exact Nat.mod_eq_of_lt h

theorem readType_header {type len : Nat} (hoff : off = pre.length) (ht : type < 2 ^ 16) :
    readType (pre ++ (header type len ++ post)) off = type := by
  have hslice : slice (pre ++ (header type len ++ post)) off 2 = le 2 type := by
    rw [slice_append hoff, header]
    simp [le]
  rw [readType, hslice, ofLe_le_two _ ht]

theorem readLen_header {type len : Nat} (hoff : off = pre.length) (hl : len < 2 ^ 16) :
    readLen (pre ++ (header type len ++ post)) off = len := by
  have hslice : slice (pre ++ (header type len ++ post)) (off + 2) 2 = le 2 len := by
    have hpre : pre ++ (header type len ++ post) = (pre ++ le 2 type) ++ (le 2 len ++ post) := by
      simp [header, List.append_assoc]
    have hlen : off + 2 = (pre ++ le 2 type).length := by simp [hoff]
    have hin : slice ((pre ++ le 2 type) ++ (le 2 len ++ post)) (off + 2) (le 2 len).length =
        le 2 len := slice_inside hlen
    rw [length_le] at hin
    rw [hpre, hin]
  rw [readLen, hslice, ofLe_le_two _ hl]

theorem readType_at (hoff : off = pre.length) :
    readType (pre ++ (e.bytes ++ post)) off = e.type.toNat := by
  rw [Entry.bytes, List.append_assoc, readType_header hoff e.type.toNat_lt]

theorem readLen_at (hoff : off = pre.length) (he : e.data.length < 2 ^ 16) :
    readLen (pre ++ (e.bytes ++ post)) off = e.data.length := by
  rw [Entry.bytes, List.append_assoc, readLen_header hoff he]

/-- The whole entry. -/
theorem slice_at (hoff : off = pre.length) :
    slice (pre ++ (e.bytes ++ post)) off (headerSize + e.data.length) = e.bytes := by
  have hin : slice (pre ++ (e.bytes ++ post)) off e.bytes.length = e.bytes := slice_inside hoff
  rwa [length_bytes] at hin

theorem data_at (hoff : off = pre.length) :
    slice (pre ++ (e.bytes ++ post)) (off + headerSize) e.data.length = e.data := by
  have hpre : pre ++ (e.bytes ++ post) =
      (pre ++ header e.type.toNat e.data.length) ++ (e.data ++ post) := by
    simp [Entry.bytes, List.append_assoc]
  have hlen : off + headerSize = (pre ++ header e.type.toNat e.data.length).length := by
    simp [hoff]
  rw [hpre, slice_inside hlen]

/-- A header with another type. -/
theorem writeHeader_at (hoff : off = pre.length) (type : UInt16) :
    writeAt (pre ++ (e.bytes ++ post)) off (header type.toNat e.data.length) =
      pre ++ (Entry.bytes { e with type := type } ++ post) := by
  have hpre : pre ++ (e.bytes ++ post) =
      (pre ++ header e.type.toNat e.data.length) ++ (e.data ++ post) := by
    simp [Entry.bytes, List.append_assoc]
  have hlen : off + headerSize = (pre ++ header e.type.toNat e.data.length).length := by
    simp [hoff]
  rw [writeAt, length_header, hoff, List.take_left, ← hoff, hpre, hlen, List.drop_left]
  simp [Entry.bytes, List.append_assoc]

end At

end Tfm.Tlv
