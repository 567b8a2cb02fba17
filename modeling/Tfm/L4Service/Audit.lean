import Mathlib.Data.List.Infix
import Mathlib.Data.UInt
import Tfm.Core.Bytes
import Tfm.Core.LTS
import Tfm.Core.Psa

/-!
# Audit log

Lines of variable size in a circular byte buffer. A line is chained to the next
one by the size field in its header; the log state has the positions of the
oldest and of the newest line, the number of lines and the number of bytes.
Everything is a multiple of four bytes, so that a size field does not wrap, while
the line and its other fields may.

The log is a bounded first-in first-out queue of lines: an addition drops as many
of the oldest lines as it has to, and only the oldest can be deleted.

The record is the one that the caller's pointer gives: the size field and, after
it, as many bytes of the caller's memory as it says. Streaming to the UART is left
out.

Results:
* `evictLoop_spec`, `handle_refines`: eviction, and one call of any kind.
* `audit_log_refines_fifo`: in every state that a sequence of calls leads to, the
  buffer holds the lines of the queue after the same calls, and every call is
  answered as the queue answers it.
-/
namespace Tfm.L4.Audit
open Tfm.Bytes

def logSize : Nat := 1024
/-- mirrors secure_fw/partitions/audit_logging/audit_core.c:76-79 -/
def logFixedFieldSize : Nat := 8 + 4 + 4 + 4
def logMacSize : Nat := 4
/-- `offsetof(struct log_hdr, size)` -/
def sizeOffset : Nat := 16

/-- mirrors audit_core.c:111-141 -/
structure Log where
  logBuffer : Nat → UInt8
  firstElIdx : Nat
  lastElIdx : Nat
  numRecords : Nat
  storedSize : Nat
  globalTimestamp : Nat

/-- Numbers of vectors and their lengths. -/
structure Vecs where
  inLen : Nat
  outLen : Nat
  in0 : Nat
  out0 : Nat
  out1 : Nat
  deriving DecidableEq

/-- `in_vec[1]` where a token is expected. -/
structure Token where
  isNull : Bool
  size : Nat
  deriving DecidableEq

inductive Data
  | none
  | info (numRecords size : Nat)
  | size (n : Nat)
  | bytes (l : List UInt8)
  deriving DecidableEq

abbrev Reply := Except PsaStatus Data

/-! ## The log -/

/-- The four bytes at the size field are read as they are, without wrapping.
mirrors audit_core.c:166-170 -/
def sizeField (b : Nat → UInt8) (idx : Nat) : Nat :=
  let p := (idx + sizeOffset) % logSize
  ofLe [b p, b (p + 1), b (p + 2), b (p + 3)]

/-- mirrors audit_core.c:182-185 -/
def computeLogEntrySize (size : Nat) : Nat := logFixedFieldSize + size + logMacSize

/-- mirrors audit_core.c:196-200 -/
def getNextLogIndex (b : Nat → UInt8) (idx : Nat) : Nat :=
  (idx + computeLogEntrySize (sizeField b idx)) % logSize

/-- mirrors audit_core.c:212-227 -/
def updateState (s : Log) (first last stored num : Nat) : Log :=
  { s with firstElIdx := first, lastElIdx := last, numRecords := num, storedSize := stored }

/-- The state variables as the loop of `audit_replace_record` changes them. -/
structure Vars where
  first : Nat
  last : Nat
  num : Nat
  stored : Nat
  deriving DecidableEq

/-- The loop counts down the number of items.
mirrors audit_core.c:254-271 -/
def evictLoop (b : Nat → UInt8) (size : Nat) : (num first last stored : Nat) → Vars
  | 0, first, last, stored =>
    if size > logSize - stored then ⟨0, 0, 0, 0⟩ else ⟨first, last, 0, stored⟩
  | n + 1, first, last, stored =>
    if size > logSize - stored then
      evictLoop b size n (getNextLogIndex b first) last
        (stored - computeLogEntrySize (sizeField b first))
    else ⟨first, last, n + 1, stored⟩

/-- The position for the new line. `end` is not used by the caller.
mirrors audit_core.c:239-287 -/
def replaceRecord (s : Log) (size : Nat) : Nat × Log :=
  let v := evictLoop s.logBuffer size s.numRecords s.firstElIdx s.lastElIdx s.storedSize
  let startPos := if v.num = 0 then v.first else getNextLogIndex s.logBuffer v.last
  (startPos, updateState s v.first v.last v.stored v.num)

/-- mirrors audit_core.c:298-318 -/
def bufferCopy (s : Log) (src : List UInt8) (dest : Nat) : Except PsaStatus Log :=
  if dest ≥ logSize ∨ src.length > logSize then .error .bufferTooSmall
  else .ok { s with logBuffer := ringWrite logSize s.logBuffer dest src }

/-- A log line: time stamp, IV counter, partition, then `size + 4` bytes from the
record on, then the dummy MAC.
mirrors audit_core.c:352-396 -/
def formatBuffer (timestamp : Nat) (partitionId : Int) (size : Nat) (body : Nat → UInt8) :
    List UInt8 :=
  le 8 timestamp ++ le 4 0 ++ le 4 (partitionId % 2 ^ 32).toNat ++
    (le 4 size ++ (List.range size).map body) ++ (List.range logMacSize).map UInt8.ofNat

/-- mirrors audit_core.c:450-453 -/
def seek (b : Nat → UInt8) (first index : Nat) : Nat := (getNextLogIndex b)^[index] first

/-- mirrors audit_core.c:470-493 -/
def initLog (s : Log) : Log := updateState s 0 0 0 0

/-- mirrors audit_core.c:495-559 -/
def deleteRecord (s : Log) (v : Vecs) (index : Nat) (t : Token) : Reply × Log :=
  if v.inLen ≠ 2 ∨ v.outLen ≠ 0 then (.error .connectionRefused, s)
  else if v.in0 ≠ 4 then (.error .connectionRefused, s)
  else if index > 0 then (.error .notSupported, s)
  else if !t.isNull ∨ t.size ≠ 0 then (.error .notSupported, s)
  else if index ≥ s.numRecords then (.error .programmerError, s)
  else if s.numRecords = 1 then (.ok .none, updateState s 0 0 0 0)
  else
    let removed := computeLogEntrySize (sizeField s.logBuffer s.firstElIdx)
    (.ok .none, updateState s (getNextLogIndex s.logBuffer s.firstElIdx) s.lastElIdx
      (s.storedSize - removed) (s.numRecords - 1))

/-- mirrors audit_core.c:561-587 -/
def getInfo (s : Log) (v : Vecs) : Reply :=
  if v.inLen ≠ 0 ∨ v.outLen ≠ 2 then .error .connectionRefused
  else if v.out0 ≠ 4 ∨ v.out1 ≠ 4 then .error .connectionRefused
  else .ok (.info s.numRecords s.storedSize)

/-- The size of a record.
mirrors audit_core.c:437-460 -/
def recordInfo (s : Log) (index : Nat) : Except PsaStatus Nat :=
  if index ≥ s.numRecords then .error .programmerError
  else .ok (computeLogEntrySize (sizeField s.logBuffer (seek s.logBuffer s.firstElIdx index)))

/-- mirrors audit_core.c:589-629 -/
def getRecordInfo (s : Log) (v : Vecs) (index : Nat) : Reply :=
  if v.inLen ≠ 1 ∨ v.outLen ≠ 1 then .error .connectionRefused
  else if v.in0 ≠ 4 ∨ v.out0 ≠ 4 then .error .connectionRefused
  else (recordInfo s index).map .size

/-- `caller` is the answer of `tfm_core_get_caller_client_id`, `sizeofRecord` the
size of the fixed part of `struct psa_audit_record`.
mirrors audit_core.c:631-733 -/
def addRecord (s : Log) (v : Vecs) (caller : Option Int) (size : Nat) (body : Nat → UInt8) :
    Reply × Log :=
  if v.inLen ≠ 1 ∨ v.outLen ≠ 0 then (.error .connectionRefused, s)
  else if v.in0 ≠ 8 then (.error .connectionRefused, s)
  else
    match caller with
    | none => (.error .notPermitted, s)
    | some partitionId =>
      if partitionId < 0 then (.error .notPermitted, s)
      else if size % 4 ≠ 0 then (.error .notSupported, s)
      else if size > logSize - (logFixedFieldSize + logMacSize) then (.error .insufficientMemory, s)
      else
        let (startPos, s) :=
          if s.numRecords = 0 then (0, s) else replaceRecord s (computeLogEntrySize size)
        let line := formatBuffer s.globalTimestamp partitionId size body
        let s := { s with globalTimestamp := (s.globalTimestamp + 1) % 2 ^ 64 }
        match bufferCopy s (line.take (computeLogEntrySize size)) startPos with
        | .error e => (.error e, s)
        | .ok s => (.ok .none, updateState s s.firstElIdx startPos
            (s.storedSize + computeLogEntrySize size) (s.numRecords + 1))

/-- mirrors audit_core.c:735-801 -/
def retrieveRecord (s : Log) (v : Vecs) (index : Nat) (t : Token) : Reply :=
  if v.inLen ≠ 2 ∨ v.outLen ≠ 1 then .error .connectionRefused
  else if v.in0 ≠ 4 then .error .connectionRefused
  else if !t.isNull ∨ t.size ≠ 0 then .error .notSupported
  else
    match recordInfo s index with
    | .error e => .error e
    | .ok n =>
      if v.out0 < n then .error .bufferTooSmall
      else .ok (.bytes (ringRead logSize s.logBuffer (seek s.logBuffer s.firstElIdx index) n))

inductive Call
  | add (v : Vecs) (caller : Option Int) (size : UInt32) (body : Nat → UInt8)
  | delete (v : Vecs) (index : UInt32) (t : Token)
  | getInfo (v : Vecs)
  | getRecordInfo (v : Vecs) (index : UInt32)
  | retrieve (v : Vecs) (index : UInt32) (t : Token)

def handle (s : Log) : Call → Reply × Log
  | .add v caller size body => addRecord s v caller size.toNat body
  | .delete v index t => deleteRecord s v index.toNat t
  | .getInfo v => (Audit.getInfo s v, s)
  | .getRecordInfo v index => (Audit.getRecordInfo s v index.toNat, s)
  | .retrieve v index t => (retrieveRecord s v index.toNat t, s)

def run (s : Log) : List Call → List Reply × Log
  | [] => ([], s)
  | c :: cs => ((handle s c).1 :: (run (handle s c).2 cs).1, (run (handle s c).2 cs).2)

/-! ## The queue of lines -/

abbrev Line := List UInt8

/-- The lines, oldest first, and the time stamp of the next one. -/
structure Queue where
  lines : List Line
  timestamp : Nat

/-- Who may add a line, and which records have a line that fits. -/
def AddOk (v : Vecs) (caller : Option Int) (size : Nat) : Prop :=
  v.inLen = 1 ∧ v.outLen = 0 ∧ v.in0 = 8 ∧ (∃ p ∈ caller, 0 ≤ p) ∧ size % 4 = 0 ∧
    computeLogEntrySize size ≤ logSize

def DeleteOk (v : Vecs) (index : Nat) (t : Token) (q : Queue) : Prop :=
  v.inLen = 2 ∧ v.outLen = 0 ∧ v.in0 = 4 ∧ index = 0 ∧ t = ⟨true, 0⟩ ∧ q.lines ≠ []

def InfoOk (v : Vecs) : Prop := v.inLen = 0 ∧ v.outLen = 2 ∧ v.out0 = 4 ∧ v.out1 = 4

def RecordInfoOk (v : Vecs) : Prop := v.inLen = 1 ∧ v.outLen = 1 ∧ v.in0 = 4 ∧ v.out0 = 4

def RetrieveOk (v : Vecs) (t : Token) : Prop :=
  v.inLen = 2 ∧ v.outLen = 1 ∧ v.in0 = 4 ∧ t = ⟨true, 0⟩

/-- What a call does to the queue and what it is answered. An addition drops the
`k` oldest lines, where `k` is the least number that leaves room for the new one. -/
inductive Fifo (q : Queue) : Call → Reply → Queue → Prop
  | add {v : Vecs} {p : Int} {size : UInt32} {body : Nat → UInt8} (k : Nat)
    (h : AddOk v (some p) size.toNat)
    (hfit : computeLogEntrySize size.toNat + (q.lines.drop k).flatten.length ≤ logSize)
    (hmin : ∀ j < k, logSize < computeLogEntrySize size.toNat + (q.lines.drop j).flatten.length) :
    Fifo q (.add v (some p) size body) (.ok .none)
      ⟨q.lines.drop k ++ [formatBuffer q.timestamp p size.toNat body], (q.timestamp + 1) % 2 ^ 64⟩
  | addRejected {v : Vecs} {caller : Option Int} {size : UInt32} {body : Nat → UInt8} (e : PsaStatus)
    (h : ¬ AddOk v caller size.toNat) : Fifo q (.add v caller size body) (.error e) q
  | delete {v : Vecs} {index : UInt32} {t : Token} (h : DeleteOk v index.toNat t q) :
    Fifo q (.delete v index t) (.ok .none) { q with lines := q.lines.tail }
  | deleteRejected {v : Vecs} {index : UInt32} {t : Token} (e : PsaStatus)
    (h : ¬ DeleteOk v index.toNat t q) : Fifo q (.delete v index t) (.error e) q
  | getInfo {v : Vecs} (h : InfoOk v) :
    Fifo q (.getInfo v) (.ok (.info q.lines.length q.lines.flatten.length)) q
  | getInfoRejected {v : Vecs} (e : PsaStatus) (h : ¬ InfoOk v) : Fifo q (.getInfo v) (.error e) q
  | getRecordInfo {v : Vecs} {index : UInt32} {x : Line} (h : RecordInfoOk v)
    (hx : q.lines[index.toNat]? = some x) :
    Fifo q (.getRecordInfo v index) (.ok (.size x.length)) q
  | getRecordInfoRejected {v : Vecs} {index : UInt32} (e : PsaStatus)
    (h : RecordInfoOk v → q.lines[index.toNat]? = none) :
    Fifo q (.getRecordInfo v index) (.error e) q
  | retrieve {v : Vecs} {index : UInt32} {t : Token} {x : Line} (h : RetrieveOk v t)
    (hx : q.lines[index.toNat]? = some x) (hlen : x.length ≤ v.out0) :
    Fifo q (.retrieve v index t) (.ok (.bytes x)) q
  | retrieveRejected {v : Vecs} {index : UInt32} {t : Token} (e : PsaStatus)
    (h : RetrieveOk v t → ∀ x, q.lines[index.toNat]? = some x → v.out0 < x.length) :
    Fifo q (.retrieve v index t) (.error e) q

inductive FifoRun : Queue → List Call → List Reply → Queue → Prop
  | nil (q : Queue) : FifoRun q [] [] q
  | cons {q q' q'' : Queue} {c : Call} {cs : List Call} {r : Reply} {rs : List Reply}
    (h : Fifo q c r q') (hs : FifoRun q' cs rs q'') : FifoRun q (c :: cs) (r :: rs) q''

/-! ## Representation -/

/-- The size field of a line is right, and the line is a multiple of four bytes. -/
structure IsLine (x : Line) : Prop where
  size : computeLogEntrySize (ofLe ((x.drop sizeOffset).take 4)) = x.length
  aligned : x.length % 4 = 0

/-- The lines `L` are in the buffer, one after the other, from `first` on. -/
structure Chain (b : Nat → UInt8) (first : Nat) (L : List Line) : Prop where
  bytes : ringRead logSize b first L.flatten.length = L.flatten
  lines : ∀ x ∈ L, IsLine x
  lt : first < logSize
  aligned : first % 4 = 0

structure Represents (s : Log) (q : Queue) : Prop where
  chain : Chain s.logBuffer s.firstElIdx q.lines
  num : s.numRecords = q.lines.length
  stored : s.storedSize = q.lines.flatten.length
  fits : q.lines.flatten.length ≤ logSize
  last : ∀ l x, q.lines = l ++ [x] →
    s.lastElIdx = (s.firstElIdx + l.flatten.length) % logSize
  empty : q.lines = [] → s.firstElIdx = 0
  timestamp : s.globalTimestamp = q.timestamp

theorem formatBuffer_isLine (ts : Nat) {size : Nat} (p : Int) (body : Nat → UInt8) (hs : size % 4 = 0)
    (hsize : computeLogEntrySize size ≤ logSize) :
    IsLine (formatBuffer ts p size body) ∧
      (formatBuffer ts p size body).length = computeLogEntrySize size := by
  have hlen : (formatBuffer ts p size body).length = computeLogEntrySize size := by
    simp [formatBuffer, computeLogEntrySize, logFixedFieldSize, logMacSize]
    omega
  refine ⟨⟨?_, ?_⟩, hlen⟩
  · have hpre : (le 8 ts ++ le 4 0 ++ le 4 (p % 2 ^ 32).toNat).length = sizeOffset := by
      simp [sizeOffset]
    have hsz : ((formatBuffer ts p size body).drop sizeOffset).take 4 = le 4 size := by
      rw [formatBuffer, List.append_assoc _ (le 4 size ++ _), ← hpre, List.drop_left,
        List.append_assoc (le 4 size)]
      exact List.take_left' (length_le 4 size)
    rw [hsz, ofLe_le, hlen, Nat.mod_eq_of_lt]
    simp only [computeLogEntrySize, logFixedFieldSize, logMacSize, logSize] at hsize
    omega
  · rw [hlen, computeLogEntrySize, logFixedFieldSize, logMacSize]
    omega

/-- A line's size field, read where the line is in the buffer. The field does not
wrap, since lines start at multiples of four. -/
theorem sizeField_eq {b : Nat → UInt8} {i : Nat} {x : Line} (hi : i % 4 = 0) (hx : IsLine x)
    (hr : ringRead logSize b i x.length = x) :
    computeLogEntrySize (sizeField b i) = x.length := by
  have h20 : sizeOffset + 4 ≤ x.length := by
    have := hx.size
    simp only [computeLogEntrySize, logFixedFieldSize, logMacSize] at this
    simp only [sizeOffset]
    omega
  have hfield : (x.drop sizeOffset).take 4 = ringRead logSize b (i + sizeOffset) 4 := by
    obtain ⟨n, hn⟩ : ∃ n, x.length = sizeOffset + (4 + n) := ⟨x.length - sizeOffset - 4, by omega⟩
    rw [hn, ringRead_append, ringRead_append] at hr
    rw [← hr, List.drop_left' (length_ringRead b i sizeOffset), List.take_left' (length_ringRead _ _ _)]
  have hread : ringRead logSize b (i + sizeOffset) 4 =
      [b ((i + sizeOffset) % logSize), b ((i + sizeOffset) % logSize + 1),
        b ((i + sizeOffset) % logSize + 2), b ((i + sizeOffset) % logSize + 3)] := by
    have hk : ∀ k < 4, (i + sizeOffset + k) % logSize = (i + sizeOffset) % logSize + k := by
      intro k hk
      simp only [sizeOffset, logSize]
      omega
    simp [ringRead, List.range_succ, hk]
  rw [← hx.size, hfield, hread]
  rfl

section Chain

variable {b : Nat → UInt8} {first : Nat}

theorem chain_nil (b : Nat → UInt8) : Chain b 0 [] :=
  ⟨rfl, fun x hx => (by cases hx), by decide, rfl⟩

/-- The first line of a chain, and the chain after it. -/
theorem Chain.next {x : Line} {L : List Line} (h : Chain b first (x :: L)) :
    ringRead logSize b first x.length = x ∧
      computeLogEntrySize (sizeField b first) = x.length ∧
      getNextLogIndex b first = (first + x.length) % logSize ∧
      Chain b ((first + x.length) % logSize) L := by
  have hx := h.lines x List.mem_cons_self
  have hbytes := h.bytes
  rw [List.flatten_cons, List.length_append, ringRead_append] at hbytes
  obtain ⟨hfst, hrest⟩ := List.append_inj hbytes (by simp)
  have hsize := sizeField_eq h.aligned hx hfst
  refine ⟨hfst, hsize, by rw [getNextLogIndex, hsize], ?_, ?_, ?_, ?_⟩
  · rw [ringRead_mod, hrest]
  · exact fun y hy => h.lines y (List.mem_cons_of_mem _ hy)
  · exact Nat.mod_lt _ (by decide)
  · have := h.aligned
    have := hx.aligned
    simp only [logSize]
    omega

/-- Following the size fields over the lines of `l`. -/
theorem Chain.seek {l r : List Line} : ∀ {first : Nat}, Chain b first (l ++ r) →
    seek b first l.length = (first + l.flatten.length) % logSize ∧
      Chain b ((first + l.flatten.length) % logSize) r := by
  induction l with
  | nil =>
    intro first h
    simpa [Audit.seek, Nat.mod_eq_of_lt h.lt] using h
  | cons x l ih =>
    intro first h
    obtain ⟨_, _, hnext, hrest⟩ := h.next
    obtain ⟨hseek, hchain⟩ := ih hrest
    rw [Nat.mod_add_mod, Nat.add_assoc, ← List.length_append, ← List.flatten_cons] at hseek hchain
    refine ⟨?_, hchain⟩
    rw [← hseek, Audit.seek, List.length_cons, Function.iterate_succ_apply, hnext]
    rfl

/-- The line at an index, and where it is. -/
theorem Chain.get {L : List Line} {i : Nat} {x : Line} (h : Chain b first L) (hx : L[i]? = some x) :
    computeLogEntrySize (sizeField b (Audit.seek b first i)) = x.length ∧
      ringRead logSize b (Audit.seek b first i) x.length = x := by
  obtain ⟨hi, rfl⟩ := List.getElem?_eq_some_iff.mp hx
  have hsplit : L.take i ++ L[i] :: L.drop (i + 1) = L := by
    rw [List.getElem_cons_drop, List.take_append_drop]
  rw [← hsplit] at h
  obtain ⟨hseek, hrest⟩ := h.seek
  rw [List.length_take_of_le hi.le] at hseek
  obtain ⟨hread, hsize, _⟩ := hrest.next
  rw [hseek]
  exact ⟨hsize, hread⟩

/-- The loop drops lines as long as the new one does not fit. -/
theorem evictLoop_spec {size : Nat} (last : Nat) (hsize : size ≤ logSize) (M : List Line) :
    ∀ {first : Nat}, Chain b first M → M.flatten.length ≤ logSize →
    ∃ k ≤ M.length,
      evictLoop b size M.length first last M.flatten.length =
        ⟨(first + (M.take k).flatten.length) % logSize, last, (M.drop k).length,
          (M.drop k).flatten.length⟩ ∧
      size + (M.drop k).flatten.length ≤ logSize ∧
      ∀ j < k, logSize < size + (M.drop j).flatten.length := by
  induction M with
  | nil =>
    intro first h _
    refine ⟨0, le_refl _, ?_, by simpa using hsize, fun j hj => absurd hj (Nat.not_lt_zero j)⟩
    simp [evictLoop, Nat.mod_eq_of_lt h.lt, Nat.not_lt.mpr hsize]
  | cons x M ih =>
    intro first h hfits
    obtain ⟨_, hentry, hnext, hrest⟩ := h.next
    rw [List.length_cons, evictLoop]
    by_cases hgt : size > logSize - (x :: M).flatten.length
    · rw [if_pos hgt, hnext, hentry]
      have hlen : (x :: M).flatten.length = x.length + M.flatten.length := by simp
      obtain ⟨k, hk, heq, hfit, hmin⟩ := ih hrest (by omega)
      refine ⟨k + 1, by omega, ?_, by simpa using hfit, fun j hj => ?_⟩
      · rw [hlen, Nat.add_sub_cancel_left, heq, Nat.mod_add_mod]
        simp [Nat.add_assoc]
      · cases j with
        | zero =>
          rw [List.drop_zero]
          omega
        | succ j => exact hmin j (by omega)
    · rw [if_neg hgt]
      refine ⟨0, Nat.zero_le _, ?_, by rw [List.drop_zero]; omega,
        fun j hj => absurd hj (Nat.not_lt_zero j)⟩
      simp [Nat.mod_eq_of_lt h.lt]

/-- A new line after the last one. -/
theorem Chain.append {L : List Line} {x : Line} (h : Chain b first L) (hx : IsLine x)
    (hfits : x.length + L.flatten.length ≤ logSize) :
    Chain (ringWrite logSize b ((first + L.flatten.length) % logSize) x) first (L ++ [x]) where
  bytes := by
    have hflat : (L ++ [x]).flatten = L.flatten ++ x := by simp
    rw [hflat, List.length_append, ringRead_append, ringWrite_mod,
      ringRead_write_of_apart b x (le_refl _) (by omega), h.bytes,
      ringRead_write x b _ (by omega)]
  lines := by
    intro y hy
    obtain hy | hy := List.mem_append.mp hy
    · exact h.lines y hy
    · rw [List.mem_singleton.mp hy]
      exact hx
  lt := h.lt
  aligned := h.aligned

end Chain

/-! ## Refinement -/

section Calls

variable {s : Log} {q : Queue}

/-- Where the last line ends. -/
theorem Represents.next_last (h : Represents s q) (hne : q.lines ≠ []) :
    getNextLogIndex s.logBuffer s.lastElIdx =
      (s.firstElIdx + q.lines.flatten.length) % logSize := by
  obtain ⟨l, x, hl⟩ := (List.eq_nil_or_concat q.lines).resolve_left hne
  rw [List.concat_eq_append] at hl
  have hchain := h.chain
  rw [hl] at hchain
  obtain ⟨_, hx⟩ := hchain.seek
  rw [h.last l x hl, hx.next.2.2.1, Nat.mod_add_mod, hl]
  simp [Nat.add_assoc]

/-- The position of a new line and the lines that are left before it is written. -/
theorem place_spec (h : Represents s q) {n : Nat} (hn : n ≤ logSize) :
    ∃ k s₁, (if s.numRecords = 0 then (0, s) else replaceRecord s n) =
        ((s₁.firstElIdx + (q.lines.drop k).flatten.length) % logSize, s₁) ∧
      s₁.logBuffer = s.logBuffer ∧ s₁.globalTimestamp = s.globalTimestamp ∧
      Chain s.logBuffer s₁.firstElIdx (q.lines.drop k) ∧
      s₁.numRecords = (q.lines.drop k).length ∧
      s₁.storedSize = (q.lines.drop k).flatten.length ∧
      n + (q.lines.drop k).flatten.length ≤ logSize ∧
      ∀ j < k, logSize < n + (q.lines.drop j).flatten.length := by
  by_cases h0 : s.numRecords = 0
  · have hnil : q.lines = [] := List.length_eq_zero_iff.mp (h.num ▸ h0)
    refine ⟨0, s, ?_, rfl, rfl, h.chain, h.num, h.stored, by simpa [hnil] using hn,
      fun j hj => absurd hj (Nat.not_lt_zero j)⟩
    rw [if_pos h0, hnil, h.empty hnil]
    rfl
  · have hne : q.lines ≠ [] := fun hnil => h0 (by rw [h.num, hnil]; rfl)
    obtain ⟨k, hk, heq, hfit, hmin⟩ := evictLoop_spec s.lastElIdx hn q.lines h.chain h.fits
    have hcut : q.lines.take k ++ q.lines.drop k = q.lines := List.take_append_drop k _
    have hchain := h.chain
    rw [← hcut] at hchain
    obtain ⟨_, hrest⟩ := hchain.seek
    rw [if_neg h0, replaceRecord, h.num, h.stored, heq]
    refine ⟨k, _, Prod.ext ?_ rfl, rfl, rfl, hrest, rfl, rfl, hfit, hmin⟩
    simp only [updateState]
    split
    · rename_i hz
      rw [List.length_eq_zero_iff.mp hz]
      simp
    · rw [h.next_last hne, Nat.mod_add_mod, Nat.add_assoc, ← List.length_append,
        ← List.flatten_append, hcut]

theorem addRecord_ok {v : Vecs} {p : Int} {size : Nat} (body : Nat → UInt8) {startPos : Nat}
    {s₁ : Log} (hok : AddOk v (some p) size)
    (hplace : (if s.numRecords = 0 then (0, s) else replaceRecord s (computeLogEntrySize size)) =
      (startPos, s₁)) (hpos : startPos < logSize) :
    addRecord s v (some p) size body = (.ok .none,
      ⟨ringWrite logSize s₁.logBuffer startPos (formatBuffer s₁.globalTimestamp p size body),
        s₁.firstElIdx, startPos, s₁.numRecords + 1, s₁.storedSize + computeLogEntrySize size,
        (s₁.globalTimestamp + 1) % 2 ^ 64⟩) := by
  obtain ⟨h1, h2, h3, ⟨p', hp, hp0⟩, h4, h5⟩ := hok
  cases hp
  obtain ⟨_, hlen⟩ := formatBuffer_isLine s₁.globalTimestamp p body h4 h5
  have hsize : ¬ size > logSize - (logFixedFieldSize + logMacSize) := by
    simp only [computeLogEntrySize, logFixedFieldSize, logMacSize, logSize] at h5 ⊢
    omega
  have hcopy : ¬ (startPos ≥ logSize ∨ (formatBuffer s₁.globalTimestamp p size body).length >
      logSize) := by omega
  have htake : (formatBuffer s₁.globalTimestamp p size body).take (computeLogEntrySize size) =
      formatBuffer s₁.globalTimestamp p size body := by rw [← hlen, List.take_length]
  simp only [addRecord, h1, h2, h3, h4, hplace, if_neg hsize, if_neg (Int.not_lt.mpr hp0), ne_eq,
    not_true_eq_false, or_self, if_false, htake, bufferCopy, if_neg hcopy, updateState]

theorem addRecord_rejected {v : Vecs} {caller : Option Int} {size : Nat} (body : Nat → UInt8)
    (h : ¬ AddOk v caller size) : ∃ e, addRecord s v caller size body = (.error e, s) := by
  unfold addRecord
  split
  · exact ⟨_, rfl⟩
  split
  · exact ⟨_, rfl⟩
  cases caller with
  | none => exact ⟨_, rfl⟩
  | some p =>
    dsimp only
    split
    · exact ⟨_, rfl⟩
    split
    · exact ⟨_, rfl⟩
    split
    · exact ⟨_, rfl⟩
    · rename_i hv hin hp h4 h5
      refine absurd ⟨by omega, by omega, by omega, ⟨p, rfl, by omega⟩, by omega, ?_⟩ h
      simp only [computeLogEntrySize, logFixedFieldSize, logMacSize, logSize] at h5 ⊢
      omega

theorem add_refines (h : Represents s q) (v : Vecs) (caller : Option Int) (size : UInt32)
    (body : Nat → UInt8) : ∃ q',
      Fifo q (.add v caller size body) (addRecord s v caller size.toNat body).1 q' ∧
      Represents (addRecord s v caller size.toNat body).2 q' := by
  by_cases hok : AddOk v caller size.toNat
  case neg =>
    obtain ⟨e, he⟩ := addRecord_rejected (s := s) body hok
    rw [he]
    exact ⟨q, .addRejected e hok, h⟩
  obtain ⟨p, rfl, -⟩ := hok.2.2.2.1
  obtain ⟨k, s₁, hplace, hbuf, hts, hchain, hnum, hstored, hfit, hmin⟩ := place_spec h hok.2.2.2.2.2
  obtain ⟨hline, hlen⟩ :=
    formatBuffer_isLine s₁.globalTimestamp p body hok.2.2.2.2.1 hok.2.2.2.2.2
  rw [addRecord_ok body hok hplace (Nat.mod_lt _ (by decide))]
  refine ⟨_, .add k hok hfit hmin, ?_⟩
  rw [← h.timestamp, ← hts]
  rw [← hbuf] at hchain
  refine ⟨hchain.append hline (by omega), ?_, ?_, ?_, ?_, ?_, rfl⟩
  · simp [hnum]
  · simp only [hstored, List.flatten_append, List.flatten_cons, List.flatten_nil, List.append_nil,
      List.length_append, hlen]
  · simp only [List.flatten_append, List.flatten_cons, List.flatten_nil, List.append_nil,
      List.length_append, hlen]
    omega
  · intro l x hl
    rw [(List.append_inj' hl rfl).1]
  · intro hnil
    simp at hnil

theorem delete_refines (h : Represents s q) (v : Vecs) (index : UInt32) (t : Token) : ∃ q',
      Fifo q (.delete v index t) (deleteRecord s v index.toNat t).1 q' ∧
      Represents (deleteRecord s v index.toNat t).2 q' := by
  by_cases hok : DeleteOk v index.toNat t q
  case neg =>
    have hrej : ∃ e, deleteRecord s v index.toNat t = (.error e, s) := by
      unfold deleteRecord
      split
      · exact ⟨_, rfl⟩
      split
      · exact ⟨_, rfl⟩
      split
      · exact ⟨_, rfl⟩
      split
      · exact ⟨_, rfl⟩
      split
      · exact ⟨_, rfl⟩
      · rename_i hv hin hidx htok hnum
        refine absurd ⟨by omega, by omega, by omega, by omega, ?_, fun hnil => ?_⟩ hok
        · cases t
          simp_all
        · rw [h.num, hnil] at hnum
          simp at hnum
    obtain ⟨e, he⟩ := hrej
    rw [he]
    exact ⟨q, .deleteRejected e hok, h⟩
  obtain ⟨h1, h2, h3, h4, rfl, hne⟩ := hok
  obtain ⟨x, L, hL⟩ := List.exists_cons_of_ne_nil hne
  have hchain := h.chain
  have hnum := h.num
  have hstored := h.stored
  rw [hL] at hchain hnum hstored
  obtain ⟨_, hentry, hnext, hrest⟩ := hchain.next
  have heq : deleteRecord s v index.toNat ⟨true, 0⟩ = (.ok .none,
      if L = [] then updateState s 0 0 0 0
      else updateState s ((s.firstElIdx + x.length) % logSize) s.lastElIdx
        (s.storedSize - x.length) (s.numRecords - 1)) := by
    have hone : s.numRecords = 1 ↔ L = [] := by simp [hnum, List.length_eq_zero_iff]
    have hpos : ¬ 0 ≥ s.numRecords := by simp [hnum]
    simp only [deleteRecord, h1, h2, h3, h4, hpos, hone, hentry, hnext]
    by_cases hnil : L = []
    · simp [hnil]
    · simp [hnil]
  rw [heq]
  refine ⟨_, .delete ⟨h1, h2, h3, h4, rfl, hne⟩, ?_⟩
  rw [hL, List.tail_cons]
  dsimp only
  split
  · rename_i hnil
    subst hnil
    exact ⟨chain_nil s.logBuffer, rfl, rfl, Nat.zero_le _, fun l y hl => (by simp at hl),
      fun _ => rfl, h.timestamp⟩
  · rename_i hnil
    refine ⟨hrest, by simp [updateState, hnum], by simp [updateState, hstored], ?_, ?_,
      fun hn => absurd hn hnil, h.timestamp⟩
    · have := h.fits
      rw [hL, List.flatten_cons, List.length_append] at this
      exact le_trans (Nat.le_add_left _ _) this
    · intro l y hl
      simp only at hl
      have := h.last (x :: l) y (by rw [hL, hl]; rfl)
      simp only [updateState]
      rw [this, Nat.mod_add_mod]
      simp [Nat.add_assoc]

theorem recordInfo_some (h : Represents s q) {i : Nat} {x : Line} (hx : q.lines[i]? = some x) :
    recordInfo s i = .ok x.length := by
  obtain ⟨hi, -⟩ := List.getElem?_eq_some_iff.mp hx
  rw [recordInfo, if_neg (by rw [h.num]; omega), (h.chain.get hx).1]

theorem recordInfo_none (h : Represents s q) {i : Nat} (hx : q.lines[i]? = none) :
    recordInfo s i = .error .programmerError := by
  rw [recordInfo, if_pos]
  rw [h.num]
  exact List.getElem?_eq_none_iff.mp hx

theorem getInfo_refines (h : Represents s q) (v : Vecs) :
    Fifo q (.getInfo v) (getInfo s v) q := by
  unfold getInfo
  split
  · rename_i hv
    exact .getInfoRejected _ fun hok => by
      obtain ⟨h1, h2, -⟩ := hok
      omega
  split
  · rename_i hv
    exact .getInfoRejected _ fun hok => by
      obtain ⟨-, -, h3, h4⟩ := hok
      omega
  · rename_i hv hout
    rw [h.num, h.stored]
    exact .getInfo ⟨by omega, by omega, by omega, by omega⟩

theorem getRecordInfo_refines (h : Represents s q) (v : Vecs) (index : UInt32) :
    Fifo q (.getRecordInfo v index) (getRecordInfo s v index.toNat) q := by
  unfold getRecordInfo
  split
  · rename_i hv
    exact .getRecordInfoRejected _ fun hok => by
      obtain ⟨h1, h2, -⟩ := hok
      omega
  split
  · rename_i hv
    exact .getRecordInfoRejected _ fun hok => by
      obtain ⟨-, -, h3, h4⟩ := hok
      omega
  · rename_i hv hlen
    cases hx : q.lines[index.toNat]? with
    | none =>
      rw [recordInfo_none h hx]
      exact .getRecordInfoRejected _ fun _ => hx
    | some x =>
      rw [recordInfo_some h hx]
      exact .getRecordInfo ⟨by omega, by omega, by omega, by omega⟩ hx

theorem retrieve_refines (h : Represents s q) (v : Vecs) (index : UInt32) (t : Token) :
    Fifo q (.retrieve v index t) (retrieveRecord s v index.toNat t) q := by
  unfold retrieveRecord
  split
  · rename_i hv
    exact .retrieveRejected _ fun hok => by
      obtain ⟨h1, h2, -⟩ := hok
      omega
  split
  · rename_i hv
    exact .retrieveRejected _ fun hok => by
      obtain ⟨-, -, h3, -⟩ := hok
      omega
  split
  · rename_i ht
    exact .retrieveRejected _ fun hok => by
      obtain ⟨-, -, -, rfl⟩ := hok
      simp at ht
  · rename_i hv hin ht
    have hok : RetrieveOk v t := by
      refine ⟨by omega, by omega, by omega, ?_⟩
      cases t
      simp_all
    cases hx : q.lines[index.toNat]? with
    | none =>
      rw [recordInfo_none h hx]
      refine .retrieveRejected _ fun _ x hx' => ?_
      rw [hx] at hx'
      cases hx'
    | some x =>
      rw [recordInfo_some h hx]
      dsimp only
      split
      · rename_i hlt
        refine .retrieveRejected _ fun _ y hy => ?_
        rw [hx] at hy
        cases hy
        exact hlt
      · rename_i hge
        rw [(h.chain.get hx).2]
        exact .retrieve hok hx (by omega)

/-- One call of any kind. -/
theorem handle_refines (h : Represents s q) (c : Call) :
    ∃ q', Fifo q c (handle s c).1 q' ∧ Represents (handle s c).2 q' := by
  cases c with
  | add v caller size body => exact add_refines h v caller size body
  | delete v index t => exact delete_refines h v index t
  | getInfo v => exact ⟨q, getInfo_refines h v, h⟩
  | getRecordInfo v index => exact ⟨q, getRecordInfo_refines h v index, h⟩
  | retrieve v index t => exact ⟨q, retrieve_refines h v index t, h⟩

theorem run_refines (cs : List Call) : ∀ {s : Log} {q : Queue}, Represents s q →
    ∃ q', FifoRun q cs (run s cs).1 q' ∧ Represents (run s cs).2 q' := by
  induction cs with
  | nil =>
    intro s q h
    exact ⟨q, .nil q, h⟩
  | cons c cs ih =>
    intro s q h
    obtain ⟨q₁, hc, h₁⟩ := handle_refines h c
    obtain ⟨q₂, hcs, h₂⟩ := ih h₁
    exact ⟨q₂, .cons hc hcs, h₂⟩

theorem represents_init (s : Log) : Represents (initLog s) ⟨[], s.globalTimestamp⟩ :=
  ⟨chain_nil s.logBuffer, rfl, rfl, Nat.zero_le _, fun l y hl => (by simp at hl), fun _ => rfl, rfl⟩

/-- **The audit log is a bounded queue of lines.** For every sequence of calls
after the log is initialised, with any arguments: the answers are those that a
first-in first-out queue of lines gives to the same calls, and at the end the
buffer holds the lines of that queue. -/
theorem audit_log_refines_fifo (s : Log) (cs : List Call) :
    ∃ q, FifoRun ⟨[], s.globalTimestamp⟩ cs (run (initLog s) cs).1 q ∧
      Represents (run (initLog s) cs).2 q :=
  run_refines cs (represents_init s)

end Calls

end Tfm.L4.Audit
