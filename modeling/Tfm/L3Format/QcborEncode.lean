import Tfm.Core.Cbor
import Tfm.Core.Tlv

/-!
# The CBOR encoder (`lib/ext/qcbor`)

The encoder writes into the caller's buffer. When an array or a map is opened, nothing is
written: when it is closed, its head is inserted in front of what came since, which is slid to
the right. No call reports an error; `QCBOREncode_Finish` returns the one that was kept.

A buffer without storage (a null pointer) only counts, for callers that want to know the length.

Over the code stands a document: the bytes of every open level, on a stack. A call appends to the
innermost one, and closing a level appends it with its head to the one below.

Results:
* `Sim.step`, `Sim.run`: the encoder's buffer holds the document, or the document does not fit.
* `finish_run`: what `QCBOREncode_Finish` returns, after any calls.
-/
namespace Tfm.L3.Qcbor
open Tfm.Cbor

/-! ## The buffer -/

/-- mirrors lib/ext/qcbor/inc/UsefulBuf.h (`UsefulBufC`); `none` is the null pointer -/
structure UsefulBufC where
  ptr : Option (List UInt8)
  len : Nat
  deriving DecidableEq, Repr

def nullUsefulBufC : UsefulBufC := ⟨none, 0⟩

def ofBytes (b : List UInt8) : UsefulBufC := ⟨some b, b.length⟩

/-- mirrors lib/ext/qcbor/inc/UsefulBuf.h (`UsefulOutBuf`); `err` is its error flag -/
structure OutBuf where
  ptr : Option (List UInt8)
  len : Nat
  dataLen : Nat
  err : Bool
  deriving DecidableEq, Repr

/-- mirrors lib/ext/qcbor/inc/UsefulBuf.h:1579-1592 -/
def usefulBufTail (ub : UsefulBufC) (amount : Nat) : UsefulBufC :=
  if amount > ub.len then nullUsefulBufC
  else ⟨ub.ptr.map (·.drop amount), ub.len - amount⟩

/-- The bytes from the insertion point on move to the right, and the new ones go in between. -/
def moveAndInsert (mem : List UInt8) (dataLen pos : Nat) (new : UsefulBufC) : List UInt8 :=
  let moved :=
    if dataLen - pos ≠ 0 then Tlv.writeAt mem (pos + new.len) (Tlv.slice mem pos (dataLen - pos))
    else mem
  Tlv.writeAt moved pos ((new.ptr.getD []).take new.len)

/-- mirrors lib/ext/qcbor/src/UsefulBuf.c:208-272 -/
def OutBuf.insertUsefulBuf (me : OutBuf) (new : UsefulBufC) (pos : Nat) : OutBuf :=
  if me.err then me
  else if me.dataLen > me.len then { me with err := true }
  else if ¬ new.len ≤ me.len - me.dataLen then { me with err := true }
  else if pos > me.dataLen then { me with err := true }
  else
    { me with
      ptr := me.ptr.map fun mem => moveAndInsert mem me.dataLen pos new
      dataLen := me.dataLen + new.len }

/-- mirrors lib/ext/qcbor/src/UsefulBuf.c:308-320 -/
def OutBuf.outUBuf (me : OutBuf) : UsefulBufC :=
  if me.err then nullUsefulBufC else ⟨me.ptr, me.dataLen⟩

/-! ## The context -/

/-- mirrors lib/ext/qcbor/inc/qcbor.h (`QCBORError`) -/
inductive QcborError
  | success
  | bufferTooSmall
  | arrayNestingTooDeep
  | arrayTooLong
  | tooManyCloses
  | unsupported
  | hitEnd
  | bufferTooLarge
  | intOverflow
  | mapLabelType
  | arrayOrMapStillOpen
  | dateOverflow
  | badType7
  | badOptTag
  | extraBytes
  | closeMismatch
  | noStringAllocator
  | indefiniteStringChunk
  | stringAllocate
  | badBreak
  | tooManyTags
  | badInt
  | noMoreItems
  | badExpAndMantissa
  | stringTooLong
  deriving DecidableEq, Repr

/-- mirrors lib/ext/qcbor/inc/qcbor.h:220-270 (`CBOR_MAJOR_TYPE_XX`, `CBOR_MAJOR_NONE_TYPE_XX`) -/
inductive MajorType
  | positiveInt
  | negativeInt
  | byteString
  | textString
  | array
  | map
  | optional
  | simple
  | raw
  | bstrLenOnly
  | arrayIndefiniteLen
  | mapIndefiniteLen
  deriving DecidableEq, Repr

def MajorType.code : MajorType → Nat
  | .positiveInt => 0
  | .negativeInt => 1
  | .byteString => 2
  | .textString => 3
  | .array => 4
  | .map => 5
  | .optional => 6
  | .simple => 7
  | .raw => 9
  | .bstrLenOnly => 11
  | .arrayIndefiniteLen => 12
  | .mapIndefiniteLen => 13

def qcborMaxArrayNesting : Nat := 15

def qcborMaxArrayOffset : Nat := 2 ^ 32 - 1 - 100

def qcborMaxItemsInArray : Nat := 2 ^ 16 - 1 - 1

def cborSimpleBreak : Nat := 31

def cborSimplevReservedStart : Nat := 24

def cborSimplevReservedEnd : Nat := cborSimpleBreak

def lenIsOneByte : Nat := 24

def lenIsIndefinite : Nat := 31

/-- A nesting level: where it starts, what was added to it. -/
structure Nest where
  start : Nat
  count : Nat
  majorType : MajorType
  deriving DecidableEq, Repr

/-- mirrors lib/ext/qcbor/inc/qcbor.h (`QCBOREncodeContext`); `cur` is the current nesting level,
`outer` the ones around it, the innermost first -/
structure EncodeContext where
  out : OutBuf
  err : QcborError
  cur : Nest
  outer : List Nest
  deriving DecidableEq, Repr

/-- mirrors lib/ext/qcbor/src/qcbor_encode.c:248-253 -/
def encodeInit (storage : Option (List UInt8)) (len : Nat) : EncodeContext :=
  { out := { ptr := storage, len := len, dataLen := 0, err := false }
    err := .success
    cur := { start := 0, count := 0, majorType := .array }
    outer := [] }

/-- mirrors lib/ext/qcbor/src/qcbor_encode.c:131-140 -/
def nestingIncrement (count : Nat) : QcborError :=
  if 1 ≥ qcborMaxItemsInArray - count then .arrayTooLong else .success

def EncodeContext.increment (me : EncodeContext) : EncodeContext :=
  match nestingIncrement me.cur.count with
  | .success => { me with err := .success, cur := { me.cur with count := me.cur.count + 1 } }
  | e => { me with err := e }

/-- mirrors lib/ext/qcbor/src/qcbor_encode.c:142-158 -/
def getCount (majorType : MajorType) (count : Nat) : Nat :=
  if majorType = .map then count / 2 else count

/-- The inner loop: `n` bytes off the number, the last one first. -/
def takeBytes : Nat → Nat → List UInt8 → Nat × List UInt8
  | 0, number, bytes => (number, bytes)
  | n + 1, number, bytes => takeBytes n (number / 256) (UInt8.ofNat number :: bytes)

/-- The outer loop, over what is left of `aIterate`. -/
def iterate : List Nat → Nat → Nat → Nat → List UInt8 → Nat × List UInt8
  | [], i, _, _, bytes => (i, bytes)
  | n :: ns, i, number, minLen, bytes =>
    if number ≠ 0 ∨ minLen > 0 then
      let (number', bytes') := takeBytes n number bytes
      iterate ns (i + 1) number' (minLen - n) bytes'
    else (i, bytes)

def aIterate : List Nat := [1, 1, 2, 4]

def initialByte (majorType info : Nat) : UInt8 := UInt8.ofNat (majorType <<< 5 + info)

/-- mirrors lib/ext/qcbor/src/qcbor_encode.c:319-421 -/
def encodedTypeAndNumber (majorType : MajorType) (minLen number : Nat) : List UInt8 :=
  if majorType = .arrayIndefiniteLen then [initialByte MajorType.array.code lenIsIndefinite]
  else if majorType = .mapIndefiniteLen then [initialByte MajorType.map.code lenIsIndefinite]
  else if number < 24 ∧ minLen = 0 then [initialByte majorType.code number]
  else if majorType = .simple ∧ number = cborSimpleBreak then [initialByte majorType.code number]
  else
    let (i, bytes) := iterate aIterate 0 number minLen []
    initialByte majorType.code (lenIsOneByte - 1 + i) :: bytes

def EncodeContext.insertData (me : EncodeContext) (bytes : UsefulBufC) (pos : Nat) :
    EncodeContext :=
  { me with out := me.out.insertUsefulBuf bytes pos }

def EncodeContext.insertEncodedTypeAndNumber (me : EncodeContext) (majorType : MajorType)
    (minLen number pos : Nat) : EncodeContext :=
  me.insertData (ofBytes (encodedTypeAndNumber majorType minLen number)) pos

/-- mirrors lib/ext/qcbor/src/qcbor_encode.c:430-439 -/
def EncodeContext.appendEncodedTypeAndNumber (me : EncodeContext) (majorType : MajorType)
    (number : Nat) : EncodeContext :=
  me.insertEncodedTypeAndNumber majorType 0 number me.out.dataLen

/-! ## The calls -/

/-- mirrors lib/ext/qcbor/src/qcbor_encode.c:447-453 -/
def EncodeContext.addUInt64 (me : EncodeContext) (value : Nat) : EncodeContext :=
  if me.err = .success then (me.appendEncodedTypeAndNumber .positiveInt value).increment else me

/-- mirrors lib/ext/qcbor/src/qcbor_encode.c:459-477 -/
def EncodeContext.addInt64 (me : EncodeContext) (num : Int) : EncodeContext :=
  if me.err = .success then
    (if num < 0 then me.appendEncodedTypeAndNumber .negativeInt (-num - 1).toNat
      else me.appendEncodedTypeAndNumber .positiveInt num.toNat).increment
  else me

/-- mirrors lib/ext/qcbor/src/qcbor_encode.c:501-521 -/
def EncodeContext.addBuffer (me : EncodeContext) (majorType : MajorType) (bytes : UsefulBufC) :
    EncodeContext :=
  if me.err = .success then
    let me₁ :=
      if majorType ≠ .raw then
        me.appendEncodedTypeAndNumber
          (if majorType = .bstrLenOnly then .byteString else majorType) bytes.len
      else me
    let me₂ := if majorType ≠ .bstrLenOnly then me₁.insertData bytes me₁.out.dataLen else me₁
    me₂.increment
  else me

/-- mirrors lib/ext/qcbor/src/qcbor_encode.c:527-530 -/
def EncodeContext.addTag (me : EncodeContext) (tag : Nat) : EncodeContext :=
  me.appendEncodedTypeAndNumber .optional tag

/-- mirrors lib/ext/qcbor/src/qcbor_encode.c:539-560 -/
def EncodeContext.addType7 (me : EncodeContext) (size num : Nat) : EncodeContext :=
  if me.err = .success then
    if num ≥ cborSimplevReservedStart ∧ num ≤ cborSimplevReservedEnd then
      { me with err := .unsupported }
    else (me.insertEncodedTypeAndNumber .simple size num me.out.dataLen).increment
  else me

/-- mirrors lib/ext/qcbor/src/qcbor_encode.c:112-124 -/
def EncodeContext.increase (me : EncodeContext) (majorType : MajorType) (pos : Nat) :
    EncodeContext :=
  if me.outer.length = qcborMaxArrayNesting then { me with err := .arrayNestingTooDeep }
  else
    { me with
      err := .success
      cur := { start := pos, count := 0, majorType := majorType }
      outer := me.cur :: me.outer }

/-- mirrors lib/ext/qcbor/src/qcbor_encode.c:614-648; the error kept so far is not looked at -/
def EncodeContext.openMapOrArray (me : EncodeContext) (majorType : MajorType) : EncodeContext :=
  let me₁ := me.increment
  if me₁.err = .success then
    if me₁.out.dataLen ≥ qcborMaxArrayOffset then { me₁ with err := .bufferTooLarge }
    else me₁.increase majorType me₁.out.dataLen
  else me₁

/-- mirrors lib/ext/qcbor/src/qcbor_encode.c:657-663 -/
def EncodeContext.openMapOrArrayIndefiniteLength (me : EncodeContext) (majorType : MajorType) :
    EncodeContext :=
  (me.insertEncodedTypeAndNumber majorType 0 0 me.out.dataLen).openMapOrArray majorType

/-- mirrors lib/ext/qcbor/src/qcbor_encode.c:126-129 (`Nesting_Decrease`) -/
def EncodeContext.decrease (me : EncodeContext) : EncodeContext :=
  match me.outer with
  | [] => me
  | n :: ns => { me with cur := n, outer := ns }

/-- mirrors lib/ext/qcbor/src/qcbor_encode.c:670-727; with `*pWrappedCBOR`, where it is written -/
def EncodeContext.closeMapOrArray (me : EncodeContext) (majorType : MajorType) :
    EncodeContext × Option UsefulBufC :=
  if me.err = .success then
    if me.outer = [] then ({ me with err := .tooManyCloses }, none)
    else if me.cur.majorType ≠ majorType then ({ me with err := .closeMismatch }, none)
    else
      let lenOfEncodedMapOrArray := me.out.dataLen - me.cur.start
      let length :=
        if majorType = .byteString then lenOfEncodedMapOrArray
        else getCount me.cur.majorType me.cur.count
      let me₁ := me.insertEncodedTypeAndNumber majorType 0 length me.cur.start
      (me₁.decrease, some (usefulBufTail me₁.out.outUBuf me.cur.start))
  else (me, none)

/-- mirrors lib/ext/qcbor/src/qcbor_encode.c:733-767 -/
def EncodeContext.closeMapOrArrayIndefiniteLength (me : EncodeContext) (majorType : MajorType) :
    EncodeContext :=
  if me.err = .success then
    if me.outer = [] then { me with err := .tooManyCloses }
    else if me.cur.majorType ≠ majorType then { me with err := .closeMismatch }
    else
      (me.insertEncodedTypeAndNumber .simple 0 cborSimpleBreak me.out.dataLen).decrease
  else me

/-- mirrors lib/ext/qcbor/inc/qcbor.h:3505-3520; the error of the buffer is kept -/
def EncodeContext.getErrorState (me : EncodeContext) : EncodeContext :=
  if me.out.err then { me with err := .bufferTooSmall } else me

/-- mirrors lib/ext/qcbor/src/qcbor_encode.c:774-792; with `*pEncodedCBOR`, where it is written -/
def EncodeContext.finish (me : EncodeContext) : QcborError × Option UsefulBufC :=
  let me₁ := me.getErrorState
  if me₁.err ≠ .success then (me₁.err, none)
  else if me₁.outer ≠ [] then (.arrayOrMapStillOpen, none)
  else (.success, some me₁.out.outUBuf)

/-- A call of the encoder. -/
inductive Call
  | addUInt64 (value : Nat)
  | addInt64 (num : Int)
  | addBuffer (majorType : MajorType) (bytes : UsefulBufC)
  | addTag (tag : Nat)
  | addType7 (size num : Nat)
  | openMapOrArray (majorType : MajorType)
  | openMapOrArrayIndefiniteLength (majorType : MajorType)
  | closeMapOrArray (majorType : MajorType)
  | closeMapOrArrayIndefiniteLength (majorType : MajorType)
  deriving DecidableEq, Repr

def EncodeContext.step (me : EncodeContext) : Call → EncodeContext
  | .addUInt64 value => me.addUInt64 value
  | .addInt64 num => me.addInt64 num
  | .addBuffer majorType bytes => me.addBuffer majorType bytes
  | .addTag tag => me.addTag tag
  | .addType7 size num => me.addType7 size num
  | .openMapOrArray majorType => me.openMapOrArray majorType
  | .openMapOrArrayIndefiniteLength majorType => me.openMapOrArrayIndefiniteLength majorType
  | .closeMapOrArray majorType => (me.closeMapOrArray majorType).1
  | .closeMapOrArrayIndefiniteLength majorType => me.closeMapOrArrayIndefiniteLength majorType

def EncodeContext.run (me : EncodeContext) (calls : List Call) : EncodeContext :=
  calls.foldl EncodeContext.step me

@[simp] theorem EncodeContext.run_nil (me : EncodeContext) : me.run [] = me := rfl

@[simp] theorem EncodeContext.run_cons (me : EncodeContext) (c : Call) (cs : List Call) :
    me.run (c :: cs) = (me.step c).run cs := rfl

@[simp] theorem EncodeContext.run_append (me : EncodeContext) (cs cs' : List Call) :
    me.run (cs ++ cs') = (me.run cs).run cs' := List.foldl_append ..

/-! ## The document -/

/-- An open level: its bytes so far. -/
structure Level where
  majorType : MajorType
  count : Nat
  bytes : List UInt8
  deriving DecidableEq, Repr

/-- The levels on a stack, the innermost one first, and the error kept. -/
structure Doc where
  err : QcborError
  cur : Level
  outer : List Level
  deriving DecidableEq, Repr

def Doc.init : Doc := ⟨.success, ⟨.array, 0, []⟩, []⟩

/-- The bytes of some levels, the outermost first. -/
def contentsOf : List Level → List UInt8
  | [] => []
  | l :: ls => contentsOf ls ++ l.bytes

def Doc.contents (d : Doc) : List UInt8 := contentsOf (d.cur :: d.outer)

def Doc.total (d : Doc) : Nat := d.contents.length

def Doc.put (d : Doc) (bs : List UInt8) : Doc :=
  { d with cur := { d.cur with bytes := d.cur.bytes ++ bs } }

def Doc.increment (d : Doc) : Doc :=
  match nestingIncrement d.cur.count with
  | .success => { d with err := .success, cur := { d.cur with count := d.cur.count + 1 } }
  | e => { d with err := e }

/-- The bytes of a buffer. Those behind a null pointer are not read, only counted. -/
def UsefulBufC.contents (data : UsefulBufC) : List UInt8 :=
  (data.ptr.getD (List.replicate data.len 0)).take data.len

def Doc.add (d : Doc) (bs : List UInt8) : Doc :=
  if d.err = .success then (d.put bs).increment else d

def bufferBytes (majorType : MajorType) (data : UsefulBufC) : List UInt8 :=
  match majorType with
  | .raw => data.contents
  | .bstrLenOnly => encodedTypeAndNumber .byteString 0 data.len
  | _ => encodedTypeAndNumber majorType 0 data.len ++ data.contents

def int64Bytes (num : Int) : List UInt8 :=
  if num < 0 then encodedTypeAndNumber .negativeInt 0 (-num - 1).toNat
  else encodedTypeAndNumber .positiveInt 0 num.toNat

def Doc.addType7 (d : Doc) (size num : Nat) : Doc :=
  if d.err = .success ∧ num ≥ cborSimplevReservedStart ∧ num ≤ cborSimplevReservedEnd then
    { d with err := .unsupported }
  else d.add (encodedTypeAndNumber .simple size num)

/-- A new level, still empty. -/
def Doc.increase (d : Doc) (majorType : MajorType) : Doc :=
  ⟨.success, ⟨majorType, 0, []⟩, d.cur :: d.outer⟩

def Doc.open (d : Doc) (majorType : MajorType) : Doc :=
  let d₁ := d.increment
  if d₁.err = .success then
    if d₁.total ≥ qcborMaxArrayOffset then { d₁ with err := .bufferTooLarge }
    else if d₁.outer.length = qcborMaxArrayNesting then { d₁ with err := .arrayNestingTooDeep }
    else d₁.increase majorType
  else d₁

/-- The bytes of a level with its head. -/
def Level.closed (l : Level) : List UInt8 :=
  encodedTypeAndNumber l.majorType 0
    (if l.majorType = .byteString then l.bytes.length else getCount l.majorType l.count) ++ l.bytes

/-- Closing a level appends `close l` to the level below. -/
def Doc.closeWith (close : Level → List UInt8) (d : Doc) (majorType : MajorType) : Doc :=
  if d.err = .success then
    match d.outer with
    | [] => { d with err := .tooManyCloses }
    | l :: ls =>
      if d.cur.majorType ≠ majorType then { d with err := .closeMismatch }
      else ⟨d.err, { l with bytes := l.bytes ++ close d.cur }, ls⟩
  else d

def Level.broken (l : Level) : List UInt8 :=
  l.bytes ++ encodedTypeAndNumber .simple 0 cborSimpleBreak

def Doc.step (d : Doc) : Call → Doc
  | .addUInt64 value => d.add (encodedTypeAndNumber .positiveInt 0 value)
  | .addInt64 num => d.add (int64Bytes num)
  | .addBuffer majorType bytes => d.add (bufferBytes majorType bytes)
  | .addTag tag => d.put (encodedTypeAndNumber .optional 0 tag)
  | .addType7 size num => d.addType7 size num
  | .openMapOrArray majorType => d.open majorType
  | .openMapOrArrayIndefiniteLength majorType =>
    (d.put (encodedTypeAndNumber majorType 0 0)).open majorType
  | .closeMapOrArray majorType => d.closeWith Level.closed majorType
  | .closeMapOrArrayIndefiniteLength majorType => d.closeWith Level.broken majorType

def Doc.run (d : Doc) (calls : List Call) : Doc := calls.foldl Doc.step d

@[simp] theorem Doc.run_nil (d : Doc) : d.run [] = d := rfl

@[simp] theorem Doc.run_cons (d : Doc) (c : Call) (cs : List Call) :
    d.run (c :: cs) = (d.step c).run cs := rfl

@[simp] theorem Doc.run_append (d : Doc) (cs cs' : List Call) :
    d.run (cs ++ cs') = (d.run cs).run cs' := List.foldl_append ..

/-- What the caller gets, and how many bytes it takes. -/
def Doc.finish (d : Doc) : QcborError × Option (List UInt8) :=
  if d.err ≠ .success then (d.err, none)
  else if d.outer ≠ [] then (.arrayOrMapStillOpen, none)
  else (.success, some d.contents)

/-! ## The buffer holds the document -/

/-- The levels as the code keeps them. -/
def nestsOf : List Level → List Nest
  | [] => []
  | l :: ls => ⟨(contentsOf ls).length, l.count, l.majorType⟩ :: nestsOf ls

@[simp] theorem length_nestsOf (ls : List Level) : (nestsOf ls).length = ls.length := by
  induction ls with
  | nil => rfl
  | cons l ls ih => simp [nestsOf, ih]

/-- Data can be copied from where the caller says, or is only counted. -/
def Readable (storage : Option (List UInt8)) (data : UsefulBufC) : Prop :=
  match data.ptr with
  | none => data.len = 0 ∨ storage = none
  | some mem => data.len ≤ mem.length

instance (storage : Option (List UInt8)) (data : UsefulBufC) :
    Decidable (Readable storage data) := by
  unfold Readable
  cases data.ptr with
  | none => exact inferInstanceAs (Decidable (_ ∨ _))
  | some mem => exact inferInstanceAs (Decidable (_ ≤ _))

def Call.Readable (storage : Option (List UInt8)) : Call → Prop
  | .addBuffer _ data => Qcbor.Readable storage data
  | _ => True

instance (storage : Option (List UInt8)) (c : Call) : Decidable (c.Readable storage) := by
  cases c with
  | addBuffer majorType data => exact inferInstanceAs (Decidable (Qcbor.Readable storage data))
  | _ => exact inferInstanceAs (Decidable True)

theorem length_contents {storage : Option (List UInt8)} {data : UsefulBufC}
    (h : Readable storage data) : data.contents.length = data.len := by
  unfold Readable at h
  rw [UsefulBufC.contents, List.length_take]
  cases hptr : data.ptr with
  | none => simp
  | some mem =>
    rw [hptr] at h
    simpa using h

/-- What is copied is the contents, wherever there is storage. -/
theorem copied_eq {mem : List UInt8} {data : UsefulBufC} (h : Readable (some mem) data) :
    (data.ptr.getD []).take data.len = data.contents := by
  unfold Readable at h
  rw [UsefulBufC.contents]
  cases hptr : data.ptr with
  | none =>
    rw [hptr] at h
    obtain hlen | hstorage := h
    · simp [hlen]
    · cases hstorage
  | some mem => rfl

theorem readable_ofBytes (storage : Option (List UInt8)) (b : List UInt8) :
    Readable storage (ofBytes b) := Nat.le_refl _

@[simp] theorem contents_ofBytes (b : List UInt8) : (ofBytes b).contents = b := by
  simp [UsefulBufC.contents, ofBytes]

/-- The buffer holds the document, in front of what the storage held there. -/
structure Exact (storage : Option (List UInt8)) (cap : Nat) (me : EncodeContext) (d : Doc) :
    Prop where
  noErr : me.out.err = false
  len : me.out.len = cap
  fits : d.total ≤ cap
  dataLen : me.out.dataLen = d.total
  ptr : me.out.ptr = storage.map fun mem => d.contents ++ mem.drop d.total
  err : me.err = d.err
  nests : me.cur :: me.outer = nestsOf (d.cur :: d.outer)

/-- The buffer is full, and the document would not fit. -/
structure Full (storage : Option (List UInt8)) (cap : Nat) (me : EncodeContext) (d : Doc) :
    Prop where
  hasErr : me.out.err = true
  len : me.out.len = cap
  ptr : ∀ mem, me.out.ptr = some mem → mem.length = cap
  isSome : me.out.ptr.isSome = storage.isSome
  exceeds : cap < d.total

inductive Sim (storage : Option (List UInt8)) (cap : Nat) (me : EncodeContext) (d : Doc) : Prop
  | exact (h : Exact storage cap me d)
  | full (h : Full storage cap me d)

section Sim

variable {storage : Option (List UInt8)} {cap : Nat} {me : EncodeContext} {d : Doc}

theorem Exact.outer_length (h : Exact storage cap me d) : me.outer.length = d.outer.length := by
  have hlen : (me.cur :: me.outer).length = (d.cur :: d.outer).length := by
    rw [h.nests, length_nestsOf]
  simpa using hlen

theorem Exact.cur (h : Exact storage cap me d) :
    me.cur = ⟨(contentsOf d.outer).length, d.cur.count, d.cur.majorType⟩ :=
  List.head_eq_of_cons_eq h.nests

theorem Exact.outer (h : Exact storage cap me d) : me.outer = nestsOf d.outer :=
  List.tail_eq_of_cons_eq h.nests

/-- The storage keeps its size. -/
theorem Sim.length (h : Sim storage cap me d) (hs : ∀ mem, storage = some mem → mem.length = cap)
    (mem : List UInt8) (hm : me.out.ptr = some mem) : mem.length = cap := by
  cases h with
  | full h => exact h.ptr mem hm
  | exact h =>
    rw [h.ptr] at hm
    obtain ⟨mem₀, h₀, rfl⟩ := Option.map_eq_some_iff.1 hm
    have hfits := h.fits
    have hlen := hs mem₀ h₀
    simp only [List.length_append, List.length_drop, ← Doc.total.eq_1]
    omega

/-! ### Bytes -/

theorem moveAndInsert_eq (front back rest : List UInt8) {data : UsefulBufC} {bs : List UInt8}
    (hcopied : (data.ptr.getD []).take data.len = bs) (hlen : bs.length = data.len)
    (hroom : data.len ≤ rest.length) :
    moveAndInsert (front ++ back ++ rest) (front ++ back).length front.length data =
      front ++ (bs ++ back) ++ rest.drop data.len := by
  have hn : (front ++ back).length - front.length = back.length := by simp
  have hslice : Tlv.slice (front ++ back ++ rest) front.length back.length = back := by
    rw [List.append_assoc]
    exact Tlv.slice_inside rfl
  -- The bytes under the moved ones: `gap` of them stay where they were.
  obtain ⟨gap, last, hsplit, hgap⟩ : ∃ gap last, back ++ rest.take data.len = gap ++ last ∧
      gap.length = data.len := by
    refine ⟨(back ++ rest.take data.len).take data.len,
      (back ++ rest.take data.len).drop data.len, (List.take_append_drop _ _).symm, ?_⟩
    simp
    omega
  have hlast : back.length = last.length := by
    have hsum := congrArg List.length hsplit
    simp only [List.length_append, List.length_take] at hsum
    omega
  have hmem : front ++ back ++ rest = (front ++ gap) ++ (last ++ rest.drop data.len) := by
    calc front ++ back ++ rest = front ++ (back ++ (rest.take data.len ++ rest.drop data.len)) := by
          rw [List.take_append_drop, List.append_assoc]
      _ = front ++ ((back ++ rest.take data.len) ++ rest.drop data.len) := by
          rw [List.append_assoc back]
      _ = _ := by rw [hsplit]; simp
  have hmoved : Tlv.writeAt (front ++ back ++ rest) (front.length + data.len) back =
      front ++ (gap ++ (back ++ rest.drop data.len)) := by
    rw [hmem, Tlv.writeAt_inside (by simp [hgap]) hlast, List.append_assoc]
  have hwrite : Tlv.writeAt (front ++ (gap ++ (back ++ rest.drop data.len))) front.length bs =
      front ++ (bs ++ (back ++ rest.drop data.len)) :=
    Tlv.writeAt_inside rfl (by omega)
  unfold moveAndInsert
  rw [hn, hslice, hcopied]
  by_cases hback : back.length = 0
  · have hnil : back = [] := List.length_eq_zero_iff.1 hback
    subst hnil
    have hgap' : gap = rest.take data.len := by
      have : last = [] := List.length_eq_zero_iff.1 (by simpa using hlast.symm)
      simpa [this] using hsplit.symm
    rw [hgap'] at hwrite
    simpa using hwrite
  · simp only [ne_eq, hback, not_false_eq_true, if_true, hmoved, hwrite]
    simp

/-- Bytes are put in at a point of the document. -/
theorem Exact.insert (h : Exact storage cap me d) {data : UsefulBufC} (front back : List UInt8)
    {d' : Doc} (hs : ∀ mem, storage = some mem → mem.length = cap)
    (hdata : Readable storage data) (hsplit : d.contents = front ++ back)
    (hd' : d'.contents = front ++ (data.contents ++ back)) (herr : d'.err = d.err)
    (hnests : nestsOf (d'.cur :: d'.outer) = nestsOf (d.cur :: d.outer)) :
    Sim storage cap (me.insertData data front.length) d' := by
  have hlen : data.contents.length = data.len := length_contents hdata
  have htotal : d.total = front.length + back.length := by
    rw [Doc.total, hsplit, List.length_append]
  have htotal' : d'.total = d.total + data.len := by
    rw [Doc.total, hd', htotal]
    simp only [List.length_append, hlen]
    omega
  have hfits : d.total ≤ cap := h.fits
  have hpos : front.length ≤ d.total := by omega
  have hout : me.out.insertUsefulBuf data front.length =
      if data.len ≤ cap - d.total then
        { me.out with
          ptr := me.out.ptr.map fun mem => moveAndInsert mem me.out.dataLen front.length data
          dataLen := me.out.dataLen + data.len }
      else { me.out with err := true } := by
    simp only [OutBuf.insertUsefulBuf, h.noErr, h.len, h.dataLen]
    by_cases hroom : data.len ≤ cap - d.total
    · simp [hroom, Nat.not_lt.2 hfits, Nat.not_lt.2 hpos]
    · simp [hroom, Nat.not_lt.2 hfits]
  by_cases hroom : data.len ≤ cap - d.total
  · apply Sim.exact
    rw [if_pos hroom] at hout
    constructor
    · simpa only [EncodeContext.insertData, hout] using h.noErr
    · simpa only [EncodeContext.insertData, hout] using h.len
    · omega
    · simp only [EncodeContext.insertData, hout]
      rw [h.dataLen, htotal']
    · simp only [EncodeContext.insertData, hout, h.ptr, Option.map_map]
      cases hst : storage with
      | none => rfl
      | some mem =>
        have hmem : mem.length = cap := hs mem hst
        rw [hst] at hdata
        have hmove := moveAndInsert_eq front back (mem.drop d.total) (copied_eq hdata) hlen
          (by rw [List.length_drop]; omega)
        simp only [Option.map_some, Function.comp_apply, Option.some.injEq]
        have hl : d.total = (front ++ back).length := by rw [htotal, List.length_append]
        rw [h.dataLen, hd', hsplit, htotal', ← List.drop_drop, ← hmove, hl]
    · simpa only [EncodeContext.insertData, herr] using h.err
    · rw [hnests]
      exact h.nests
  · apply Sim.full
    rw [if_neg hroom] at hout
    constructor
    · simp only [EncodeContext.insertData, hout]
    · simpa only [EncodeContext.insertData, hout] using h.len
    · intro mem hm
      apply (Sim.exact h).length hs mem
      simpa only [EncodeContext.insertData, hout] using hm
    · simp only [EncodeContext.insertData, hout, h.ptr, Option.isSome_map]
    · omega

theorem Full.insertData (h : Full storage cap me d) (data : UsefulBufC) (pos : Nat) :
    me.insertData data pos = me := by
  rw [EncodeContext.insertData, OutBuf.insertUsefulBuf, if_pos h.hasErr]

@[simp] theorem contents_put (d : Doc) (bs : List UInt8) : (d.put bs).contents = d.contents ++ bs := by
  simp [Doc.contents, Doc.put, contentsOf]

@[simp] theorem total_put (d : Doc) (bs : List UInt8) : (d.put bs).total = d.total + bs.length := by
  simp [Doc.total]

/-- A full buffer stays so while the document does not shrink. -/
theorem Full.mono (h : Full storage cap me d) {d' : Doc} (hd : d.total ≤ d'.total) :
    Full storage cap me d' :=
  { h with exceeds := Nat.lt_of_lt_of_le h.exceeds hd }

/-- What a call does to anything but the buffer. -/
theorem Full.of_out (h : Full storage cap me d) {me' : EncodeContext} (hout : me'.out = me.out) :
    Full storage cap me' d := by
  constructor
  · rw [hout]; exact h.hasErr
  · rw [hout]; exact h.len
  · rw [hout]; exact h.ptr
  · rw [hout]; exact h.isSome
  · exact h.exceeds

theorem Sim.append (h : Sim storage cap me d) (hs : ∀ mem, storage = some mem → mem.length = cap)
    {data : UsefulBufC} (hdata : Readable storage data) :
    Sim storage cap (me.insertData data me.out.dataLen) (d.put data.contents) := by
  cases h with
  | exact h =>
    rw [h.dataLen]
    apply h.insert _ [] hs hdata (List.append_nil _).symm
    · simp
    · rfl
    · rfl
  | full h =>
    rw [h.insertData]
    apply Sim.full
    apply h.mono
    rw [total_put]
    omega

theorem Sim.appendHead (h : Sim storage cap me d)
    (hs : ∀ mem, storage = some mem → mem.length = cap) (majorType : MajorType)
    (minLen number : Nat) :
    Sim storage cap (me.insertEncodedTypeAndNumber majorType minLen number me.out.dataLen)
      (d.put (encodedTypeAndNumber majorType minLen number)) := by
  have happ := h.append hs (readable_ofBytes storage (encodedTypeAndNumber majorType minLen number))
  rwa [contents_ofBytes] at happ

/-! ### The rest of the context -/

@[simp] theorem out_increment (me : EncodeContext) : me.increment.out = me.out := by
  unfold EncodeContext.increment
  split <;> rfl

@[simp] theorem outer_increment (me : EncodeContext) : me.increment.outer = me.outer := by
  unfold EncodeContext.increment
  split <;> rfl

@[simp] theorem contents_increment (d : Doc) : d.increment.contents = d.contents := by
  unfold Doc.increment
  split <;> rfl

@[simp] theorem total_increment (d : Doc) : d.increment.total = d.total := by
  simp [Doc.total]

theorem Exact.increment (h : Exact storage cap me d) :
    Exact storage cap me.increment d.increment := by
  have hcur := h.cur
  have hcount : me.cur.count = d.cur.count := by rw [hcur]
  constructor
  · rw [out_increment]; exact h.noErr
  · rw [out_increment]; exact h.len
  · rw [total_increment]; exact h.fits
  · rw [out_increment, total_increment]; exact h.dataLen
  · rw [out_increment, total_increment, contents_increment]; exact h.ptr
  · unfold EncodeContext.increment Doc.increment
    rw [hcount]
    split <;> rfl
  · unfold EncodeContext.increment Doc.increment
    rw [hcount]
    split
    · simp only [nestsOf, h.outer, hcur]
    · exact h.nests

theorem Sim.increment (h : Sim storage cap me d) : Sim storage cap me.increment d.increment := by
  cases h with
  | exact h => exact .exact h.increment
  | full h =>
    apply Sim.full
    apply Full.of_out _ (out_increment me)
    apply h.mono
    rw [total_increment]

/-! ### Calls that add something -/

theorem Exact.add (h : Exact storage cap me d) {me' : EncodeContext} {bs : List UInt8}
    (hput : Sim storage cap me' (d.put bs)) :
    Sim storage cap (if me.err = .success then me'.increment else me) (d.add bs) := by
  unfold Doc.add
  rw [h.err]
  split
  · exact hput.increment
  · exact .exact h

theorem Exact.addUInt64 (h : Exact storage cap me d)
    (hs : ∀ mem, storage = some mem → mem.length = cap) (value : Nat) :
    Sim storage cap (me.addUInt64 value) (d.add (encodedTypeAndNumber .positiveInt 0 value)) := by
  apply h.add
  exact (Sim.exact h).appendHead hs .positiveInt 0 value

theorem Exact.addInt64 (h : Exact storage cap me d)
    (hs : ∀ mem, storage = some mem → mem.length = cap) (num : Int) :
    Sim storage cap (me.addInt64 num) (d.add (int64Bytes num)) := by
  apply h.add
  unfold int64Bytes
  split
  · exact (Sim.exact h).appendHead hs .negativeInt 0 _
  · exact (Sim.exact h).appendHead hs .positiveInt 0 _

theorem Exact.addBuffer (h : Exact storage cap me d)
    (hs : ∀ mem, storage = some mem → mem.length = cap) (majorType : MajorType)
    {data : UsefulBufC} (hdata : Readable storage data) :
    Sim storage cap (me.addBuffer majorType data) (d.add (bufferBytes majorType data)) := by
  apply h.add
  have hboth : ∀ m : MajorType, Sim storage cap
      ((me.appendEncodedTypeAndNumber m data.len).insertData data
        (me.appendEncodedTypeAndNumber m data.len).out.dataLen)
      (d.put (encodedTypeAndNumber m 0 data.len ++ data.contents)) := by
    intro m
    have happ := ((Sim.exact h).appendHead hs m 0 data.len).append hs hdata
    rw [EncodeContext.appendEncodedTypeAndNumber]
    simpa only [Doc.put, List.append_assoc] using happ
  cases majorType with
  | raw => exact (Sim.exact h).append hs hdata
  | bstrLenOnly => exact (Sim.exact h).appendHead hs .byteString 0 data.len
  | _ => exact hboth _

theorem Exact.addType7 (h : Exact storage cap me d)
    (hs : ∀ mem, storage = some mem → mem.length = cap) (size num : Nat) :
    Sim storage cap (me.addType7 size num) (d.addType7 size num) := by
  unfold EncodeContext.addType7 Doc.addType7
  by_cases hr : num ≥ cborSimplevReservedStart ∧ num ≤ cborSimplevReservedEnd
  · by_cases he : d.err = .success
    · rw [h.err, if_pos he, if_pos hr, if_pos ⟨he, hr⟩]
      exact .exact { h with err := rfl }
    · rw [h.err, if_neg he, if_neg (fun hh => he hh.1), Doc.add, if_neg he]
      exact .exact h
  · have hno : ¬ (d.err = .success ∧ num ≥ cborSimplevReservedStart ∧
        num ≤ cborSimplevReservedEnd) := fun hh => hr hh.2
    simp only [if_neg hr, if_neg hno]
    apply h.add
    exact (Sim.exact h).appendHead hs .simple size num

/-! ### Levels -/

@[simp] theorem contents_increase (d : Doc) (majorType : MajorType) :
    (d.increase majorType).contents = d.contents := List.append_nil _

@[simp] theorem total_increase (d : Doc) (majorType : MajorType) :
    (d.increase majorType).total = d.total := by
  simp [Doc.total]

theorem Exact.openMapOrArray (h : Exact storage cap me d) (majorType : MajorType) :
    Exact storage cap (me.openMapOrArray majorType) (d.open majorType) := by
  have h₁ : Exact storage cap me.increment d.increment := h.increment
  unfold EncodeContext.openMapOrArray Doc.open
  simp only [h₁.err, h₁.dataLen]
  by_cases he : d.increment.err = .success
  · rw [if_pos he, if_pos he]
    by_cases hoff : d.increment.total ≥ qcborMaxArrayOffset
    · rw [if_pos hoff, if_pos hoff]
      exact { h₁ with err := rfl }
    · rw [if_neg hoff, if_neg hoff]
      unfold EncodeContext.increase
      rw [h₁.outer_length]
      by_cases hdeep : d.increment.outer.length = qcborMaxArrayNesting
      · rw [if_pos hdeep, if_pos hdeep]
        exact { h₁ with err := rfl }
      · rw [if_neg hdeep, if_neg hdeep]
        constructor
        · exact h₁.noErr
        · exact h₁.len
        · rw [total_increase]; exact h₁.fits
        · rw [total_increase]; exact h₁.dataLen
        · rw [total_increase, contents_increase]; exact h₁.ptr
        · rfl
        · show _ :: me.increment.cur :: me.increment.outer = _
          rw [h₁.nests]
          rfl
  · rw [if_neg he, if_neg he]
    exact h₁

@[simp] theorem contents_open (d : Doc) (majorType : MajorType) :
    (d.open majorType).contents = d.contents := by
  unfold Doc.open
  simp only
  split_ifs
  · exact contents_increment d
  · exact contents_increment d
  · rw [contents_increase, contents_increment]
  · exact contents_increment d

theorem total_closeWith (close : Level → List UInt8) (hc : ∀ l, l.bytes.length ≤ (close l).length)
    (d : Doc) (majorType : MajorType) : d.total ≤ (d.closeWith close majorType).total := by
  unfold Doc.closeWith
  obtain ⟨err, cur, outer⟩ := d
  cases outer with
  | nil =>
    simp only
    split_ifs <;> exact Nat.le_refl _
  | cons l ls =>
    have hcur := hc cur
    simp only
    split_ifs
    · exact Nat.le_refl _
    · simp only [Doc.total, Doc.contents, contentsOf, List.length_append]
      omega
    · exact Nat.le_refl _

theorem length_le_closed (l : Level) : l.bytes.length ≤ l.closed.length := by
  simp [Level.closed]

theorem length_le_broken (l : Level) : l.bytes.length ≤ l.broken.length := by
  simp [Level.broken]

theorem total_add (d : Doc) (bs : List UInt8) : d.total ≤ (d.add bs).total := by
  unfold Doc.add
  split_ifs
  · simp
  · exact Nat.le_refl _

/-- The document only grows. -/
theorem total_le_step (d : Doc) (c : Call) : d.total ≤ (d.step c).total := by
  cases c with
  | addUInt64 value => exact total_add d _
  | addInt64 num => exact total_add d _
  | addBuffer majorType bytes => exact total_add d _
  | addTag tag => simp [Doc.step]
  | addType7 size num =>
    show _ ≤ (d.addType7 size num).total
    unfold Doc.addType7
    split_ifs
    · exact Nat.le_refl _
    · exact total_add d _
  | openMapOrArray majorType => simp [Doc.step, Doc.total]
  | openMapOrArrayIndefiniteLength majorType => simp [Doc.step, Doc.total]
  | closeMapOrArray majorType => exact total_closeWith _ length_le_closed d majorType
  | closeMapOrArrayIndefiniteLength majorType => exact total_closeWith _ length_le_broken d majorType

theorem out_insertData (h : me.out.err = true) (data : UsefulBufC) (pos : Nat) :
    me.insertData data pos = me := by
  rw [EncodeContext.insertData, OutBuf.insertUsefulBuf, if_pos h]

theorem out_decrease (me : EncodeContext) : me.decrease.out = me.out := by
  unfold EncodeContext.decrease
  split <;> rfl

theorem out_openMapOrArray (me : EncodeContext) (majorType : MajorType) :
    (me.openMapOrArray majorType).out = me.out := by
  unfold EncodeContext.openMapOrArray EncodeContext.increase
  simp only
  split_ifs <;> exact out_increment me

/-- A full buffer takes nothing more. -/
theorem out_step (h : me.out.err = true) (c : Call) : (me.step c).out = me.out := by
  have hhead : ∀ majorType minLen number pos,
      me.insertEncodedTypeAndNumber majorType minLen number pos = me :=
    fun _ _ _ _ => out_insertData h _ _
  have happend : ∀ majorType number, me.appendEncodedTypeAndNumber majorType number = me :=
    fun _ _ => out_insertData h _ _
  cases c with
  | addUInt64 value =>
    simp only [EncodeContext.step, EncodeContext.addUInt64, happend]
    split_ifs <;> simp
  | addInt64 num =>
    simp only [EncodeContext.step, EncodeContext.addInt64, happend, ite_self]
    split_ifs <;> simp
  | addBuffer majorType bytes =>
    simp only [EncodeContext.step, EncodeContext.addBuffer, happend, ite_self, out_insertData h]
    split_ifs <;> simp
  | addTag tag => simp only [EncodeContext.step, EncodeContext.addTag, happend]
  | addType7 size num =>
    simp only [EncodeContext.step, EncodeContext.addType7, hhead]
    split_ifs <;> simp
  | openMapOrArray majorType => exact out_openMapOrArray me majorType
  | openMapOrArrayIndefiniteLength majorType =>
    simp only [EncodeContext.step, EncodeContext.openMapOrArrayIndefiniteLength, hhead]
    exact out_openMapOrArray me majorType
  | closeMapOrArray majorType =>
    simp only [EncodeContext.step, EncodeContext.closeMapOrArray, hhead]
    split_ifs <;> simp [out_decrease]
  | closeMapOrArrayIndefiniteLength majorType =>
    simp only [EncodeContext.step, EncodeContext.closeMapOrArrayIndefiniteLength, hhead]
    split_ifs <;> simp [out_decrease]

/-! ### Closing a level -/

theorem Exact.setErr (h : Exact storage cap me d) (err : QcborError) :
    Exact storage cap { me with err := err } { d with err := err } :=
  { h with err := rfl }

/-- A level is closed: its bytes get a head in front, or a break behind. -/
theorem Exact.close {err : QcborError} {cur l : Level} {ls : List Level}
    (h : Exact storage cap me ⟨err, cur, l :: ls⟩) (close : Level → List UInt8)
    {me' : EncodeContext}
    (hsim : Sim storage cap me' ⟨err, { cur with bytes := close cur }, l :: ls⟩)
    (hout : me'.outer = me.outer) (herr : me'.err = me.err) :
    Sim storage cap me'.decrease ⟨err, { l with bytes := l.bytes ++ close cur }, ls⟩ := by
  have hcontents : Doc.contents ⟨err, { l with bytes := l.bytes ++ close cur }, ls⟩ =
      Doc.contents ⟨err, { cur with bytes := close cur }, l :: ls⟩ := by
    simp [Doc.contents, contentsOf]
  have htotal : Doc.total ⟨err, { l with bytes := l.bytes ++ close cur }, ls⟩ =
      Doc.total ⟨err, { cur with bytes := close cur }, l :: ls⟩ := by
    rw [Doc.total, hcontents, Doc.total]
  have hnest : me'.outer = ⟨(contentsOf ls).length, l.count, l.majorType⟩ :: nestsOf ls := by
    rw [hout, h.outer, nestsOf]
  have hdec : me'.decrease =
      { me' with cur := ⟨(contentsOf ls).length, l.count, l.majorType⟩, outer := nestsOf ls } := by
    simp only [EncodeContext.decrease, hnest]
  rw [hdec]
  cases hsim with
  | exact hx =>
    apply Sim.exact
    constructor
    · exact hx.noErr
    · exact hx.len
    · rw [htotal]; exact hx.fits
    · rw [htotal]; exact hx.dataLen
    · rw [htotal, hcontents]; exact hx.ptr
    · exact herr.trans h.err
    · rfl
  | full hx =>
    apply Sim.full
    apply (hx.mono (Nat.le_of_eq htotal.symm)).of_out
    rfl

/-- The head is inserted in front of the level's bytes. -/
theorem Exact.insertHead (h : Exact storage cap me d)
    (hs : ∀ mem, storage = some mem → mem.length = cap) :
    Sim storage cap
      (me.insertEncodedTypeAndNumber d.cur.majorType 0
        (if d.cur.majorType = .byteString then me.out.dataLen - me.cur.start
          else getCount d.cur.majorType me.cur.count) me.cur.start)
      { d with cur := { d.cur with bytes := d.cur.closed } } := by
  have hlen : me.out.dataLen - (contentsOf d.outer).length = d.cur.bytes.length := by
    rw [h.dataLen, Doc.total, Doc.contents, contentsOf, List.length_append]
    simp
  rw [h.cur, hlen]
  apply h.insert (contentsOf d.outer) d.cur.bytes hs (readable_ofBytes storage _) rfl
  · rw [contents_ofBytes]
    rfl
  · rfl
  · rfl

/-- The checks both ways of closing make. -/
def EncodeContext.closeWith (me closed : EncodeContext) (majorType : MajorType) : EncodeContext :=
  if me.err = .success then
    if me.outer = [] then { me with err := .tooManyCloses }
    else if me.cur.majorType ≠ majorType then { me with err := .closeMismatch }
    else closed.decrease
  else me

theorem closeMapOrArray_fst (me : EncodeContext) (majorType : MajorType) :
    (me.closeMapOrArray majorType).1 = me.closeWith
      (me.insertEncodedTypeAndNumber majorType 0
        (if majorType = .byteString then me.out.dataLen - me.cur.start
          else getCount me.cur.majorType me.cur.count) me.cur.start) majorType := by
  unfold EncodeContext.closeMapOrArray EncodeContext.closeWith
  split_ifs <;> rfl

theorem Exact.closeWith (h : Exact storage cap me d) (close : Level → List UInt8)
    {me' : EncodeContext} (majorType : MajorType)
    (hsim : d.cur.majorType = majorType →
      Sim storage cap me' { d with cur := { d.cur with bytes := close d.cur } })
    (hout : me'.outer = me.outer) (herr : me'.err = me.err) :
    Sim storage cap (me.closeWith me' majorType) (d.closeWith close majorType) := by
  unfold EncodeContext.closeWith Doc.closeWith
  by_cases he : d.err = .success
  · obtain ⟨err, cur, outer⟩ := d
    rw [h.err, if_pos he, if_pos he]
    cases outer with
    | nil =>
      have hnil : me.outer = [] := h.outer
      rw [if_pos hnil]
      exact .exact (h.setErr .tooManyCloses)
    | cons l ls =>
      have hcons : me.outer ≠ [] := by simp [h.outer, nestsOf]
      rw [if_neg hcons]
      by_cases hmt : cur.majorType = majorType
      · have hm : me.cur.majorType = majorType := by rw [h.cur, hmt]
        simp only [ne_eq, hmt, hm, not_true_eq_false, if_false]
        exact h.close close (hsim hmt) hout herr
      · have hm : me.cur.majorType ≠ majorType := by rw [h.cur]; exact hmt
        simp only [ne_eq, hmt, hm, not_false_eq_true, if_true]
        exact .exact (h.setErr .closeMismatch)
  · rw [h.err, if_neg he, if_neg he]
    exact .exact h

theorem Exact.closeMapOrArray (h : Exact storage cap me d)
    (hs : ∀ mem, storage = some mem → mem.length = cap) (majorType : MajorType) :
    Sim storage cap (me.closeMapOrArray majorType).1 (d.closeWith Level.closed majorType) := by
  rw [closeMapOrArray_fst]
  apply h.closeWith
  · intro hm
    have hhead := h.insertHead hs
    rw [h.cur] at hhead ⊢
    rwa [← hm]
  · rfl
  · rfl

theorem Full.step (h : Full storage cap me d) (c : Call) : Full storage cap (me.step c) (d.step c) :=
  (h.of_out (out_step h.hasErr c)).mono (total_le_step d c)

theorem Exact.step (h : Exact storage cap me d)
    (hs : ∀ mem, storage = some mem → mem.length = cap) (c : Call) (hc : c.Readable storage) :
    Sim storage cap (me.step c) (d.step c) := by
  cases c with
  | addUInt64 value => exact h.addUInt64 hs value
  | addInt64 num => exact h.addInt64 hs num
  | addBuffer majorType bytes => exact h.addBuffer hs majorType hc
  | addTag tag => exact (Sim.exact h).appendHead hs .optional 0 tag
  | addType7 size num => exact h.addType7 hs size num
  | openMapOrArray majorType => exact .exact (h.openMapOrArray majorType)
  | openMapOrArrayIndefiniteLength majorType =>
    have hput := (Sim.exact h).appendHead hs majorType 0 0
    cases hput with
    | exact hput => exact .exact (hput.openMapOrArray majorType)
    | full hput => exact .full (hput.step (.openMapOrArray majorType))
  | closeMapOrArray majorType => exact h.closeMapOrArray hs majorType
  | closeMapOrArrayIndefiniteLength majorType =>
    apply h.closeWith Level.broken
    · intro _
      exact (Sim.exact h).appendHead hs .simple 0 cborSimpleBreak
    · rfl
    · rfl

/-- One call, on the buffer and on the document. -/
theorem Sim.step (h : Sim storage cap me d) (hs : ∀ mem, storage = some mem → mem.length = cap)
    (c : Call) (hc : c.Readable storage) : Sim storage cap (me.step c) (d.step c) := by
  cases h with
  | exact h => exact h.step hs c hc
  | full h => exact .full (h.step c)

theorem Sim.run (hs : ∀ mem, storage = some mem → mem.length = cap) (cs : List Call) :
    ∀ {me d}, Sim storage cap me d → (∀ c ∈ cs, c.Readable storage) →
      Sim storage cap (me.run cs) (d.run cs) := by
  induction cs with
  | nil => intro me d h _; exact h
  | cons c cs ih =>
    intro me d h hcs
    rw [EncodeContext.run_cons, Doc.run_cons]
    apply ih (h.step hs c (hcs c List.mem_cons_self))
    intro c' hc'
    exact hcs c' (List.mem_cons_of_mem _ hc')

theorem sim_init (storage : Option (List UInt8)) (cap : Nat) :
    Sim storage cap (encodeInit storage cap) Doc.init := by
  apply Sim.exact
  constructor
  · rfl
  · rfl
  · exact Nat.zero_le _
  · rfl
  · simp [encodeInit, Doc.init, Doc.contents, Doc.total, contentsOf]
  · rfl
  · rfl

end Sim

/-! ## What the caller gets -/

/-- The document, at the start of the storage; without storage, only its length. -/
def resultOf (storage : Option (List UInt8)) (b : List UInt8) : UsefulBufC :=
  ⟨storage.map fun mem => b ++ mem.drop b.length, b.length⟩

theorem Exact.outUBuf {storage : Option (List UInt8)} {cap : Nat} {me : EncodeContext} {d : Doc}
    (h : Exact storage cap me d) : me.out.outUBuf = resultOf storage d.contents := by
  rw [OutBuf.outUBuf, h.noErr]
  simp only [Bool.false_eq_true, if_false]
  rw [h.ptr, h.dataLen]
  rfl

theorem finish_of_sim {storage : Option (List UInt8)} {cap : Nat} {me : EncodeContext} {d : Doc}
    (h : Sim storage cap me d) :
    me.finish = if cap < d.total then (.bufferTooSmall, none)
      else (d.finish.1, d.finish.2.map (resultOf storage)) := by
  cases h with
  | full h =>
    rw [if_pos h.exceeds]
    simp [EncodeContext.finish, EncodeContext.getErrorState, h.hasErr]
  | exact h =>
    rw [if_neg (Nat.not_lt.2 h.fits)]
    have houter : me.outer = [] ↔ d.outer = [] := by
      rw [← List.length_eq_zero_iff, h.outer_length, List.length_eq_zero_iff]
    have hout := h.outUBuf
    simp only [EncodeContext.finish, EncodeContext.getErrorState, h.noErr, Bool.false_eq_true,
      if_false, h.err, Doc.finish, ne_eq, houter]
    split_ifs
    · rw [hout]
      rfl
    · rfl
    · rfl

theorem sim_run (storage : Option (List UInt8)) (cap : Nat) (cs : List Call)
    (hs : ∀ mem, storage = some mem → mem.length = cap) (hc : ∀ c ∈ cs, c.Readable storage) :
    Sim storage cap ((encodeInit storage cap).run cs) (Doc.init.run cs) :=
  Sim.run hs cs (sim_init storage cap) hc

/-- Whatever is called, the encoder stays inside the storage, and returns the document of these
calls if that fits. -/
theorem finish_run (storage : Option (List UInt8)) (cap : Nat) (cs : List Call)
    (hs : ∀ mem, storage = some mem → mem.length = cap) (hc : ∀ c ∈ cs, c.Readable storage) :
    (∀ mem, ((encodeInit storage cap).run cs).out.ptr = some mem → mem.length = cap) ∧
    ((encodeInit storage cap).run cs).finish =
      if cap < (Doc.init.run cs).total then (.bufferTooSmall, none)
      else ((Doc.init.run cs).finish.1, (Doc.init.run cs).finish.2.map (resultOf storage)) := by
  have hsim := sim_run storage cap cs hs hc
  constructor
  · exact hsim.length hs
  · exact finish_of_sim hsim

/-- An array of two numbers, opened and closed in a buffer of eight bytes. -/
theorem finish_run_array :
    ((encodeInit (some (List.replicate 8 0)) 8).run
      [.openMapOrArray .array, .addUInt64 1, .addInt64 (-1), .closeMapOrArray .array]).finish =
      (.success, some ⟨some [0x82, 0x01, 0x20, 0, 0, 0, 0, 0], 3⟩) := by
  rw [(finish_run (some (List.replicate 8 0)) 8
    [.openMapOrArray .array, .addUInt64 1, .addInt64 (-1), .closeMapOrArray .array]
    (by intro mem h; cases h; rfl) (by decide)).2]
  decide

end Tfm.L3.Qcbor
