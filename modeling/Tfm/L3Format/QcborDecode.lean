import Tfm.L3Format.QcborEncode

/-!
# The CBOR decoder (`lib/ext/qcbor`)

The caller asks for one item after another. Arrays and maps are not returned as a whole: the item
that opens one says how many members follow, and every item says how deep it is nested and how
deep the next one will be. In a map the label and the value come as one item.

The decoder is the one its callers set up: no string allocator, so that strings of indefinite
length are refused, and no tag list of the caller's own.

Results:
* `getNext_keeps`, `getNext_takes`: what one call does to the input and the nesting, and where the
  strings come from.
* `getNextWithTags_fuel`: the length of the input is enough for the loops.
* `getNext_bound`: in every run, whatever the input is, every item takes at least one byte of it,
  every string points into it, and the nesting stays within its limit.
-/
namespace Tfm.L3.Qcbor
open Tfm.Cbor

/-! ## The input -/

def sizeMax : Nat := 2 ^ 32 - 1

/-- mirrors lib/ext/qcbor/inc/UsefulBuf.h (`UsefulInputBuf`); `err` is its error flag -/
structure InputBuf where
  ub : List UInt8
  cursor : Nat
  err : Bool
  deriving DecidableEq, Repr

/-- mirrors lib/ext/qcbor/inc/UsefulBuf.h:1902-1908 -/
def InputBuf.init (ub : List UInt8) : InputBuf := ⟨ub, 0, false⟩

/-- mirrors lib/ext/qcbor/inc/UsefulBuf.h:1916-1923 -/
def InputBuf.seek (me : InputBuf) (pos : Nat) : InputBuf :=
  if pos > me.ub.length then { me with err := true } else { me with cursor := pos }

/-- mirrors lib/ext/qcbor/inc/UsefulBuf.h:1926-1947 -/
def InputBuf.bytesUnconsumed (me : InputBuf) : Nat :=
  if me.cursor > me.ub.length then 0 else me.ub.length - me.cursor

/-- mirrors lib/ext/qcbor/src/UsefulBuf.c:347-365; `none` is the null pointer -/
def InputBuf.getBytes (me : InputBuf) (amount : Nat) : Option (List UInt8) × InputBuf :=
  if me.err then (none, me)
  else if ¬ me.bytesUnconsumed ≥ amount then (none, { me with err := true })
  else (some ((me.ub.drop me.cursor).take amount), { me with cursor := me.cursor + amount })

/-- mirrors lib/ext/qcbor/inc/UsefulBuf.h:1967-1975 -/
def InputBuf.getByte (me : InputBuf) : UInt8 × InputBuf :=
  match me.getBytes 1 with
  | (some (b :: _), buf) => (b, buf)
  | (_, buf) => (0, buf)

/-- mirrors lib/ext/qcbor/inc/UsefulBuf.h:1956-1964 -/
def InputBuf.getUsefulBuf (me : InputBuf) (num : Nat) : UsefulBufC × InputBuf :=
  match me.getBytes num with
  | (none, buf) => (nullUsefulBufC, buf)
  | (some result, buf) => (⟨some result, num⟩, buf)

/-! ## Floating-point numbers, by their bits -/

/-- The loop that brings the first significant bit of a half-precision number to its place; there
are ten bits. -/
def halfNormalize : Nat → Nat → Nat → Nat × Nat
  | 0, significand, exponent => (significand, exponent)
  | fuel + 1, significand, exponent =>
    let significand' := significand <<< 1
    if significand' &&& 0x400 = 0 then halfNormalize fuel significand' (exponent - 1)
    else (significand', exponent - 1)

/-- mirrors lib/ext/qcbor/src/ieee754.c:391-450 (`IEEE754_HalfToDouble`) -/
def halfToDouble (half : Nat) : Nat :=
  let significand := half &&& 0x3ff
  let exponent := (half >>> 10) &&& 0x1f
  let sign := (half >>> 15) &&& 1
  let (doubleSignificand, doubleExponent) :=
    if exponent = 0 then
      if significand = 0 then (0, 0)
      else
        let (s, e) := halfNormalize 10 significand (1023 - 15 + 1)
        ((s &&& 0x3ff) <<< 42, e)
    else if exponent = 31 then
      ((if significand = 0 then 0
        else (significand &&& 0x1ff) ||| (if significand &&& 0x200 = 0 then 0 else 1 <<< 51)), 2047)
    else (significand <<< 42, exponent + 1023 - 15)
  doubleSignificand ||| (doubleExponent <<< 52) ||| (sign <<< 63)

/-- The conversion of C from single to double precision. -/
def floatToDouble (single : Nat) : Nat :=
  let significand := single &&& 0x7fffff
  let exponent := (single >>> 23) &&& 0xff
  let sign := (single >>> 31) &&& 1
  let (doubleSignificand, doubleExponent) :=
    if exponent = 0 then
      if significand = 0 then (0, 0)
      -- the first significant bit becomes the hidden one
      else ((significand <<< (52 - significand.log2)) &&& (2 ^ 52 - 1),
        significand.log2 + 1023 - 149)
    else if exponent = 255 then
      (if significand = 0 then 0 else (significand <<< 29) ||| (1 <<< 51), 2047)
    else (significand <<< 29, exponent + 1023 - 127)
  doubleSignificand ||| (doubleExponent <<< 52) ||| (sign <<< 63)

/-- `d > (double)(INT64_MAX - 0x7ff)`; a number that is not one (NaN) is not larger. -/
def doubleExceedsInt64 (d : Nat) : Bool :=
  0x43DFFFFFFFFFFFFE < d && d ≤ 0x7FF0000000000000

/-- `(int64_t)d`: towards zero. -/
def doubleToInt64 (d : Nat) : Int :=
  let significand := (d &&& (2 ^ 52 - 1)) ||| (1 <<< 52)
  let exponent := (d >>> 52) &&& 0x7ff
  let magnitude : Nat :=
    if exponent < 1023 then 0
    else if exponent ≤ 1075 then significand >>> (1075 - exponent)
    else significand <<< (exponent - 1075)
  if (d >>> 63) &&& 1 = 0 then magnitude else -magnitude

/-! ## Items -/

/-- mirrors lib/ext/qcbor/inc/qcbor.h:976-982 (`expAndMantissa.Mantissa`) -/
inductive Mantissa
  | int (v : Int)
  | posBignum (s : UsefulBufC)
  | negBignum (s : UsefulBufC)
  deriving DecidableEq, Repr

/-- mirrors lib/ext/qcbor/inc/qcbor.h:807-888 (`QCBOR_TYPE_XXX`, with the value of that type) -/
inductive Val
  | none
  | int64 (v : Int)
  | uint64 (v : Nat)
  | array (count : Nat)
  | map (count : Nat)
  | mapAsArray (count : Nat)
  | byteString (s : UsefulBufC)
  | textString (s : UsefulBufC)
  | posBignum (s : UsefulBufC)
  | negBignum (s : UsefulBufC)
  | dateString (s : UsefulBufC)
  | dateEpoch (seconds : Int)
  | unknownSimple (v : Nat)
  | decimalFraction (exponent : Int) (mantissa : Mantissa)
  | bigfloat (exponent : Int) (mantissa : Mantissa)
  | simpleFalse
  | simpleTrue
  | simpleNull
  | simpleUndef
  | double (bits : Nat)
  | simpleBreak
  | optTag (t : Nat)
  deriving DecidableEq, Repr

/-- mirrors lib/ext/qcbor/inc/qcbor.h:987-997 (`label`, `uLabelType`) -/
inductive Label
  | none
  | int64 (v : Int)
  | uint64 (v : Nat)
  | textString (s : UsefulBufC)
  | byteString (s : UsefulBufC)
  deriving DecidableEq, Repr

/-- mirrors lib/ext/qcbor/inc/qcbor.h (`QCBORItem`) -/
structure QcborItem where
  val : Val
  nestingLevel : Nat := 0
  nextNestLevel : Nat := 0
  label : Label := .none
  tagBits : Nat := 0
  deriving DecidableEq, Repr

/-- mirrors lib/ext/qcbor/inc/qcbor.h (`QCBORDecodeMode`) -/
inductive DecodeMode
  | normal
  | mapStringsOnly
  | mapAsArray
  deriving DecidableEq, Repr

/-- mirrors lib/ext/qcbor/inc/qcbor.h (`QCBORDecodeNesting`): one open array or map -/
structure DecodeNest where
  majorType : MajorType
  count : Nat
  deriving DecidableEq, Repr

/-- mirrors lib/ext/qcbor/inc/qcbor.h (`QCBORDecodeContext`); `nesting` are the open arrays and
maps, the innermost first -/
structure DecodeContext where
  inBuf : InputBuf
  nesting : List DecodeNest
  decodeMode : DecodeMode
  deriving DecidableEq, Repr

/-- mirrors lib/ext/qcbor/src/qcbor_decode.c:400-410 -/
def decodeInit (encodedCbor : List UInt8) (mode : DecodeMode) : DecodeContext :=
  ⟨InputBuf.init encodedCbor, [], mode⟩

/-! ## Nesting -/

def uint16Max : Nat := 2 ^ 16 - 1

/-- mirrors lib/ext/qcbor/src/qcbor_decode.c:106-110 -/
def isIndefiniteLength (nesting : List DecodeNest) : Bool :=
  match nesting with
  | [] => false
  | n :: _ => n.count = uint16Max

/-- mirrors lib/ext/qcbor/src/qcbor_decode.c:120-128 -/
def typeIsMap (nesting : List DecodeNest) : Bool :=
  match nesting with
  | [] => false
  | n :: _ => n.majorType = .map

/-- mirrors lib/ext/qcbor/src/qcbor_decode.c:131-148 -/
def breakAscend (nesting : List DecodeNest) : Except QcborError (List DecodeNest) :=
  match nesting with
  | [] => .error .badBreak
  | n :: outer => if n.count ≠ uint16Max then .error .badBreak else .ok outer

def DecodeNest.decrement (n : DecodeNest) : DecodeNest :=
  if n.count = uint16Max then n else { n with count := (n.count + uint16Max) % 2 ^ 16 }

/-- mirrors lib/ext/qcbor/src/qcbor_decode.c:151-172 -/
def decrementCount : List DecodeNest → List DecodeNest
  | [] => []
  | n :: outer => if n.decrement.count ≠ 0 then n.decrement :: outer else decrementCount outer

/-- mirrors lib/ext/qcbor/src/qcbor_decode.c:175-208 -/
def descend (nesting : List DecodeNest) (majorType : MajorType) (count : Nat) :
    Except QcborError (List DecodeNest) :=
  if count = 0 then .ok nesting
  else if count ≠ uint16Max ∧ count > qcborMaxItemsInArray then .error .arrayTooLong
  else if nesting.length ≥ qcborMaxArrayNesting then .error .arrayNestingTooDeep
  else .ok (⟨majorType, count⟩ :: nesting)

/-! ## Tags -/

/-- mirrors lib/ext/qcbor/src/qcbor_decode.c:223-250 (`spBuiltInTagMap`) -/
def builtInTagMap : List Nat :=
  [0, 1, 2, 3, 4, 5, 16, 17, 18, 21, 22, 23, 24, 32, 33, 34, 35, 36, 37, 61, 96, 97, 98, 103, 55799]

/-- mirrors lib/ext/qcbor/src/qcbor_decode.c:280-303 -/
def tagMapperLookupBuiltIn (tag : Nat) : Option Nat :=
  if tag > uint16Max then none
  else if tag ∈ builtInTagMap then some (builtInTagMap.idxOf tag) else none

/-- mirrors lib/ext/qcbor/src/qcbor_decode.c:323-348; there is no list of the caller's -/
def tagBit (tag : Nat) : Nat :=
  match tagMapperLookupBuiltIn tag with
  | some index => 1 <<< index
  | none => 0

def tagMapperFirstSix : Nat := 0x3f

/-! ## One item -/

def int64Max : Nat := 2 ^ 63 - 1

/-- The loop over the bytes of the argument. -/
def getArgument : Nat → Nat → InputBuf → Nat × InputBuf
  | 0, argument, buf => (argument, buf)
  | n + 1, argument, buf =>
    let (b, buf) := buf.getByte
    getArgument n (((argument <<< 8) + b.toNat) % 2 ^ 64) buf

def decodeIterate : Nat → Nat
  | 24 => 1
  | 25 => 2
  | 26 => 4
  | _ => 8

/-- mirrors lib/ext/qcbor/src/qcbor_decode.c:460-511: the major type, the argument and the
additional info -/
def decodeTypeAndNumber (inBuf : InputBuf) : Except QcborError (Nat × Nat × Nat) × InputBuf :=
  let (initialByte, buf) := inBuf.getByte
  let majorType := initialByte.toNat >>> 5
  let additionalInfo := initialByte.toNat &&& 0x1f
  if additionalInfo ≥ 24 ∧ additionalInfo ≤ 27 then
    let (argument, buf) := getArgument (decodeIterate additionalInfo) 0 buf
    if buf.err then (.error .hitEnd, buf) else (.ok (majorType, argument, additionalInfo), buf)
  else if additionalInfo ≥ 28 ∧ additionalInfo ≤ 30 then (.error .unsupported, buf)
  else if buf.err then (.error .hitEnd, buf)
  else (.ok (majorType, additionalInfo, additionalInfo), buf)

/-- mirrors lib/ext/qcbor/src/qcbor_decode.c:532-564 -/
def decodeInteger (majorType number : Nat) : Except QcborError Val :=
  if majorType = MajorType.positiveInt.code then
    .ok (if number ≤ int64Max then .int64 number else .uint64 number)
  else if number ≤ int64Max then .ok (.int64 (-number - 1))
  else .error .intOverflow

/-- mirrors lib/ext/qcbor/src/qcbor_decode.c:598-655 -/
def decodeSimple (additionalInfo number : Nat) : Except QcborError Val :=
  match additionalInfo with
  | 25 => .ok (.double (halfToDouble number))
  | 26 => .ok (.double (floatToDouble number))
  | 27 => .ok (.double number)
  | 20 => .ok .simpleFalse
  | 21 => .ok .simpleTrue
  | 22 => .ok .simpleNull
  | 23 => .ok .simpleUndef
  | 31 => .ok .simpleBreak
  | 24 => if number ≤ cborSimpleBreak then .error .badType7 else .ok (.unknownSimple number)
  | _ => .ok (.unknownSimple number)

/-- mirrors lib/ext/qcbor/src/qcbor_decode.c:661-707 -/
def decodeBytes (majorType strLen : Nat) (inBuf : InputBuf) : Except QcborError Val × InputBuf :=
  if strLen > sizeMax - 4 then (.error .stringTooLong, inBuf)
  else
    let (bytes, buf) := inBuf.getUsefulBuf strLen
    if bytes.ptr.isNone then (.error .hitEnd, buf)
    else if majorType = MajorType.byteString.code then (.ok (.byteString bytes), buf)
    else (.ok (.textString bytes), buf)

/-- mirrors lib/ext/qcbor/src/qcbor_decode.c:733-823 -/
def getNextItem (inBuf : InputBuf) : Except QcborError Val × InputBuf :=
  match decodeTypeAndNumber inBuf with
  | (.error e, buf) => (.error e, buf)
  | (.ok (majorType, number, additionalInfo), buf) =>
    match majorType with
    | 0 | 1 =>
      if additionalInfo = lenIsIndefinite then (.error .badInt, buf)
      else (decodeInteger majorType number, buf)
    | 2 | 3 =>
      if additionalInfo = lenIsIndefinite then
        (.ok (if majorType = MajorType.byteString.code then .byteString ⟨none, sizeMax⟩
          else .textString ⟨none, sizeMax⟩), buf)
      else decodeBytes majorType number buf
    | 4 | 5 =>
      if number > qcborMaxItemsInArray then (.error .arrayTooLong, buf)
      else
        let count := if additionalInfo = lenIsIndefinite then uint16Max else number
        (.ok (if majorType = MajorType.array.code then .array count else .map count), buf)
    | 6 =>
      if additionalInfo = lenIsIndefinite then (.error .badInt, buf)
      else (.ok (.optTag number), buf)
    | 7 => (decodeSimple additionalInfo number, buf)
    | _ => (.error .unsupported, buf)

/-- The string length that stands for an indefinite one. -/
def Val.isIndefiniteString : Val → Bool
  | .byteString s => s.len = sizeMax
  | .textString s => s.len = sizeMax
  | _ => false

/-- mirrors lib/ext/qcbor/src/qcbor_decode.c:834-929, up to the allocator that there is none of -/
def getNextFullItem (me : DecodeContext) : Except QcborError Val × DecodeContext :=
  match getNextItem me.inBuf with
  | (.error e, buf) => (.error e, { me with inBuf := buf })
  | (.ok v, buf) =>
    (if v.isIndefiniteString then .error .noStringAllocator else .ok v, { me with inBuf := buf })

/-- mirrors lib/ext/qcbor/src/qcbor_decode.c:936-992; `fuel` is for the number of tags -/
def getNextTaggedItem : Nat → Nat → DecodeContext → Except QcborError QcborItem × DecodeContext
  | fuel, tagBits, me =>
    match getNextFullItem me with
    | (.error e, me) => (.error e, me)
    | (.ok v, me) =>
      match v with
      | .optTag t =>
        match fuel with
        -- the input ends before the fuel does
        | 0 => (.error .hitEnd, me)
        | fuel + 1 => getNextTaggedItem fuel (tagBits ||| tagBit t) me
      | v => (.ok { val := v, tagBits := tagBits }, me)

/-- The label of a map entry, from the item read as one; mirrors
lib/ext/qcbor/src/qcbor_decode.c:1028-1054 -/
def labelOfVal (mode : DecodeMode) : Val → Except QcborError Label
  | .textString s => .ok (.textString s)
  | .int64 v => if mode = .mapStringsOnly then .error .mapLabelType else .ok (.int64 v)
  | .uint64 v => if mode = .mapStringsOnly then .error .mapLabelType else .ok (.uint64 v)
  | .byteString s => if mode = .mapStringsOnly then .error .mapLabelType else .ok (.byteString s)
  | _ => .error .mapLabelType

/-- mirrors lib/ext/qcbor/src/qcbor_decode.c:999-1065 -/
def getNextMapEntry (me : DecodeContext) : Except QcborError QcborItem × DecodeContext :=
  match getNextTaggedItem me.inBuf.bytesUnconsumed 0 me with
  | (.error e, me) => (.error e, me)
  | (.ok item, me) =>
    if item.val = .simpleBreak then (.ok item, me)
    else if me.decodeMode ≠ .mapAsArray then
      if typeIsMap me.nesting then
        match getNextTaggedItem me.inBuf.bytesUnconsumed 0 me with
        | (.error e, me) => (.error e, me)
        | (.ok value, me) =>
          match labelOfVal me.decodeMode item.val with
          | .error e => (.error e, me)
          | .ok label => (.ok { value with label := label }, me)
      else (.ok item, me)
    else
      match item.val with
      | .map count => (.ok { item with val := .mapAsArray (count * 2 % 2 ^ 16) }, me)
      | _ => (.ok item, me)

/-! ## Maps and arrays -/

/-- The loop over the breaks that follow an item; every one takes a byte of the input. -/
def peekBreaks : Nat → DecodeContext → Except QcborError Unit × DecodeContext
  | 0, me => (.ok (), me)
  | fuel + 1, me =>
    if me.inBuf.bytesUnconsumed = 0 then (.ok (), me)
    else
      match getNextItem me.inBuf with
      | (.error e, buf) => (.error e, { me with inBuf := buf })
      | (.ok peek, buf) =>
        if peek ≠ .simpleBreak then (.ok (), { me with inBuf := buf.seek me.inBuf.cursor })
        else
          match breakAscend me.nesting with
          | .error e => (.error e, { me with inBuf := buf })
          | .ok nesting => peekBreaks fuel { me with inBuf := buf, nesting := nesting }

/-- What the item does to the nesting: it opens an array or a map, or it is one more member. -/
def enter (nesting : List DecodeNest) : Val → Except QcborError (List DecodeNest)
  | .array count =>
    if count = 0 then .ok (decrementCount nesting) else descend nesting .array count
  | .map count => if count = 0 then .ok (decrementCount nesting) else descend nesting .map count
  | _ => .ok (decrementCount nesting)

/-- mirrors lib/ext/qcbor/src/qcbor_decode.c:1071-1165 -/
def getNextMapOrArray (me : DecodeContext) : Except QcborError QcborItem × DecodeContext :=
  if me.inBuf.bytesUnconsumed = 0 ∧ me.nesting = [] then (.error .noMoreItems, me)
  else
    match getNextMapEntry me with
    | (.error e, me) => (.error e, me)
    | (.ok item, me) =>
      if item.val = .simpleBreak then (.error .badBreak, me)
      else
        match enter me.nesting item.val with
        | .error e => (.error e, me)
        | .ok nesting =>
          let (broken, after) :=
            if isIndefiniteLength nesting then
              peekBreaks me.inBuf.bytesUnconsumed { me with nesting := nesting }
            else (.ok (), { me with nesting := nesting })
          match broken with
          | .error e => (.error e, after)
          | .ok () =>
            (.ok { item with
              nestingLevel := me.nesting.length
              nextNestLevel := after.nesting.length }, after)

/-! ## Tagged items -/

/-- mirrors lib/ext/qcbor/src/qcbor_decode.c:1171-1182 -/
def decodeDateString (item : QcborItem) : Except QcborError QcborItem :=
  match item.val with
  | .textString s => .ok { item with val := .dateString s }
  | _ => .error .badOptTag

/-- mirrors lib/ext/qcbor/src/qcbor_decode.c:1188-1200 -/
def decodeBigNum (item : QcborItem) : Except QcborError QcborItem :=
  match item.val with
  | .byteString s =>
    .ok { item with val := if item.tagBits &&& 4 ≠ 0 then .posBignum s else .negBignum s }
  | _ => .error .badOptTag

/-- mirrors lib/ext/qcbor/src/qcbor_decode.c:1207-1268, less the fraction of a second -/
def decodeDateEpoch (item : QcborItem) : Except QcborError QcborItem :=
  match item.val with
  | .int64 v => .ok { item with val := .dateEpoch v }
  | .uint64 v =>
    if v > int64Max then .error .dateOverflow else .ok { item with val := .dateEpoch v }
  | .double d =>
    if doubleExceedsInt64 d then .error .dateOverflow
    else .ok { item with val := .dateEpoch (doubleToInt64 d) }
  | _ => .error .badOptTag

/-- mirrors lib/ext/qcbor/src/qcbor_decode.c:1282-1368; `getNextWithTags` reads the mantissa -/
def mantissaAndExponent
    (getNextWithTags : DecodeContext → Except QcborError QcborItem × DecodeContext)
    (me : DecodeContext) (item : QcborItem) : Except QcborError QcborItem × DecodeContext :=
  match item.val with
  | .array _ =>
    let nestLevel := item.nestingLevel + 1
    match getNextMapOrArray me with
    | (.error e, me) => (.error e, me)
    | (.ok exponentItem, me) =>
      if exponentItem.nestingLevel ≠ nestLevel then (.error .badExpAndMantissa, me)
      else
        match exponentItem.val with
        | .int64 exponent =>
          match getNextWithTags me with
          | (.error e, me) => (.error e, me)
          | (.ok mantissaItem, me) =>
            if mantissaItem.nestingLevel ≠ nestLevel then (.error .badExpAndMantissa, me)
            else
              let mantissa : Option Mantissa :=
                match mantissaItem.val with
                | .int64 v => some (.int v)
                | .posBignum s => some (.posBignum s)
                | .negBignum s => some (.negBignum s)
                | _ => none
              match mantissa with
              | none => (.error .badExpAndMantissa, me)
              | some m =>
                if mantissaItem.nextNestLevel = nestLevel then (.error .badExpAndMantissa, me)
                else if item.tagBits &&& 16 ≠ 0 then
                  (.ok { item with val := .decimalFraction exponent m }, me)
                else (.ok { item with val := .bigfloat exponent m }, me)
        | _ => (.error .badExpAndMantissa, me)
  | _ => (.error .badExpAndMantissa, me)

/-- mirrors lib/ext/qcbor/src/qcbor_decode.c:1375-1437; `fuel` is for the nesting of numbers in
numbers -/
def getNextWithTags : Nat → DecodeContext → Except QcborError QcborItem × DecodeContext
  | fuel, me =>
    match getNextMapOrArray me with
    | (.error e, me) => (.error e, me)
    | (.ok item, me) =>
      match item.tagBits &&& tagMapperFirstSix with
      | 0 => (.ok item, me)
      | 1 => (decodeDateString item, me)
      | 2 => (decodeDateEpoch item, me)
      | 4 | 8 => (decodeBigNum item, me)
      | 16 | 32 =>
        match fuel with
        -- the input ends before the fuel does
        | 0 => (.error .hitEnd, me)
        | fuel + 1 => mantissaAndExponent (getNextWithTags fuel) me item
      | _ => (.error .badOptTag, me)

/-- mirrors lib/ext/qcbor/src/qcbor_decode.c:1443-1446 -/
def DecodeContext.getNext (me : DecodeContext) : Except QcborError QcborItem × DecodeContext :=
  getNextWithTags me.inBuf.bytesUnconsumed me

/-- mirrors lib/ext/qcbor/src/qcbor_decode.c:1495-1510 -/
def isTagged (item : QcborItem) (tag : Nat) : Bool := tagBit tag &&& item.tagBits ≠ 0

/-- mirrors lib/ext/qcbor/src/qcbor_decode.c:1516-1537 -/
def DecodeContext.finish (me : DecodeContext) : QcborError :=
  if me.nesting ≠ [] then .arrayOrMapStillOpen
  else if me.inBuf.bytesUnconsumed ≠ 0 then .extraBytes
  else .success

/-! ## Progress -/

/-- From `buf` to `buf'` only the cursor moved on, inside the input. -/
structure InputBuf.Reads (buf buf' : InputBuf) : Prop where
  ub : buf'.ub = buf.ub
  le : buf.cursor ≤ buf'.cursor
  inside : buf.cursor ≤ buf.ub.length → buf'.cursor ≤ buf.ub.length

namespace InputBuf.Reads

theorem refl (buf : InputBuf) : buf.Reads buf := ⟨rfl, Nat.le_refl _, id⟩

theorem trans {a b c : InputBuf} (h : a.Reads b) (h' : b.Reads c) : a.Reads c where
  ub := h'.ub.trans h.ub
  le := Nat.le_trans h.le h'.le
  inside hin := by
    rw [← h.ub]
    apply h'.inside
    rw [h.ub]
    exact h.inside hin

theorem fail (buf : InputBuf) : buf.Reads { buf with err := true } := ⟨rfl, Nat.le_refl _, id⟩

end InputBuf.Reads

theorem bytesUnconsumed_eq (buf : InputBuf) :
    buf.bytesUnconsumed = buf.ub.length - buf.cursor := by
  unfold InputBuf.bytesUnconsumed
  split_ifs <;> omega

theorem getBytes_reads (buf : InputBuf) (n : Nat) : buf.Reads (buf.getBytes n).2 := by
  unfold InputBuf.getBytes
  rw [bytesUnconsumed_eq]
  split_ifs with herr hlen
  · exact .refl buf
  · refine ⟨rfl, Nat.le_add_right _ _, fun h => ?_⟩
    simp only
    omega
  · exact .fail buf

/-- Bytes that were read were there. -/
theorem getBytes_ok {buf : InputBuf} {n : Nat} (h : (buf.getBytes n).2.err = false) :
    buf.err = false ∧ (buf.getBytes n).2.cursor = buf.cursor + n := by
  unfold InputBuf.getBytes at h ⊢
  split_ifs at h ⊢ with herr hlen
  all_goals simp_all

theorem getByte_snd (buf : InputBuf) : buf.getByte.2 = (buf.getBytes 1).2 := by
  unfold InputBuf.getByte
  split <;> simp_all

theorem getByte_reads (buf : InputBuf) : buf.Reads buf.getByte.2 := by
  rw [getByte_snd]
  exact getBytes_reads buf 1

theorem getByte_ok {buf : InputBuf} (h : buf.getByte.2.err = false) :
    buf.err = false ∧ buf.getByte.2.cursor = buf.cursor + 1 := by
  rw [getByte_snd] at h ⊢
  exact getBytes_ok h

theorem getArgument_reads (n : Nat) : ∀ (argument : Nat) (buf : InputBuf),
    buf.Reads (getArgument n argument buf).2 := by
  induction n with
  | zero => intro argument buf; exact .refl buf
  | succ n ih => intro argument buf; exact (getByte_reads buf).trans (ih _ _)

theorem getArgument_ok (n : Nat) : ∀ argument buf,
    (getArgument n argument buf).2.err = false → buf.err = false := by
  induction n with
  | zero => intro argument buf h; exact h
  | succ n ih => intro argument buf h; exact (getByte_ok (ih _ _ h)).1

/-- What a step of the decoder does to the input: the cursor moves on, and if something was
returned, by a byte at least. -/
structure InputBuf.Steps {α : Type} (buf : InputBuf) (r : Except QcborError α × InputBuf) : Prop where
  reads : buf.Reads r.2
  ahead : ∀ a, r.1 = .ok a → buf.cursor < r.2.cursor

theorem decodeTypeAndNumber_steps (buf : InputBuf) : buf.Steps (decodeTypeAndNumber buf) := by
  have hread := getByte_reads buf
  unfold decodeTypeAndNumber
  simp only
  split_ifs with hlen herr hres herr
  · exact ⟨hread.trans (getArgument_reads _ _ _), fun a h => by cases h⟩
  · refine ⟨hread.trans (getArgument_reads _ _ _), fun a h => ?_⟩
    have hbyte := getByte_ok (getArgument_ok _ _ _ (by simpa using herr))
    have hle := (getArgument_reads (decodeIterate (buf.getByte.1.toNat &&& 0x1f)) 0 buf.getByte.2).le
    simp only
    omega
  · exact ⟨hread, fun a h => by cases h⟩
  · exact ⟨hread, fun a h => by cases h⟩
  · refine ⟨hread, fun a h => ?_⟩
    have hbyte := getByte_ok (by simpa using herr)
    simp only
    omega

theorem decodeBytes_reads (majorType n : Nat) (buf : InputBuf) :
    buf.Reads (decodeBytes majorType n buf).2 := by
  have hread := getBytes_reads buf n
  have hsnd : (buf.getUsefulBuf n).2 = (buf.getBytes n).2 := by
    unfold InputBuf.getUsefulBuf
    split <;> simp_all
  unfold decodeBytes
  simp only [hsnd]
  split_ifs
  · exact .refl buf
  all_goals exact hread

theorem getNextItem_steps (buf : InputBuf) : buf.Steps (getNextItem buf) := by
  have hstep := decodeTypeAndNumber_steps buf
  unfold getNextItem
  split
  · rename_i e buf' heq
    rw [heq] at hstep
    exact ⟨hstep.reads, fun a h => by cases h⟩
  · rename_i m n info buf' heq
    rw [heq] at hstep
    have hlt := hstep.ahead _ rfl
    have hsame : ∀ r : Except QcborError Val, buf.Steps (r, buf') :=
      fun r => ⟨hstep.reads, fun _ _ => hlt⟩
    have hbytes : ∀ majorType, buf.Steps (decodeBytes majorType n buf') := fun majorType =>
      have hread := decodeBytes_reads majorType n buf'
      ⟨hstep.reads.trans hread, fun _ _ => Nat.lt_of_lt_of_le hlt hread.le⟩
    split
    · split_ifs <;> apply hsame
    · split_ifs <;> apply hsame
    · split_ifs
      · apply hsame
      · apply hsame
      · exact hbytes 2
    · split_ifs
      · apply hsame
      · apply hsame
      · exact hbytes 3
    · split_ifs <;> apply hsame
    · split_ifs <;> apply hsame
    · split_ifs <;> apply hsame
    · apply hsame
    · apply hsame

/-- What a call of the decoder does: it reads on, and leaves the mode. -/
structure DecodeContext.Steps {α : Type} (me : DecodeContext)
    (r : Except QcborError α × DecodeContext) : Prop where
  reads : me.inBuf.Reads r.2.inBuf
  ahead : ∀ a, r.1 = .ok a → me.inBuf.cursor < r.2.inBuf.cursor
  mode : r.2.decodeMode = me.decodeMode

/-- One call after another. -/
theorem DecodeContext.Steps.then {α β : Type} {me : DecodeContext}
    {r : Except QcborError α × DecodeContext} {r' : Except QcborError β × DecodeContext}
    (h : me.Steps r) (h' : r.2.Steps r') : me.Steps r' where
  reads := h.reads.trans h'.reads
  ahead b hb := Nat.lt_of_le_of_lt h.reads.le (h'.ahead b hb)
  mode := h'.mode.trans h.mode

/-- The result is looked at, and the context is kept. -/
theorem DecodeContext.Steps.map {α β : Type} {me : DecodeContext} {a : α} {me' : DecodeContext}
    (h : me.Steps (Except.ok a, me')) (r : Except QcborError β) : me.Steps (r, me') :=
  ⟨h.reads, fun _ _ => h.ahead a rfl, h.mode⟩

theorem DecodeContext.Steps.error {α β : Type} {me : DecodeContext} {e : QcborError}
    {me' : DecodeContext} (h : me.Steps ((Except.error e : Except QcborError α), me')) :
    me.Steps ((Except.error e : Except QcborError β), me') :=
  ⟨h.reads, fun _ hb => (by cases hb), h.mode⟩

theorem getNextFullItem_steps (me : DecodeContext) :
    me.Steps (getNextFullItem me) ∧ (getNextFullItem me).2.nesting = me.nesting := by
  have hstep := getNextItem_steps me.inBuf
  unfold getNextFullItem
  split
  · rename_i e buf heq
    rw [heq] at hstep
    exact ⟨⟨hstep.reads, fun _ h => (by cases h), rfl⟩, rfl⟩
  · rename_i v buf heq
    rw [heq] at hstep
    exact ⟨⟨hstep.reads, fun _ _ => hstep.ahead v rfl, rfl⟩, rfl⟩

theorem getNextTaggedItem_steps (fuel : Nat) : ∀ (tagBits : Nat) (me : DecodeContext),
    me.Steps (getNextTaggedItem fuel tagBits me) ∧
      (getNextTaggedItem fuel tagBits me).2.nesting = me.nesting := by
  induction fuel with
  | zero =>
    intro tagBits me
    obtain ⟨hstep, hnest⟩ := getNextFullItem_steps me
    unfold getNextTaggedItem
    split
    · rename_i e me' heq
      rw [heq] at hstep hnest
      exact ⟨hstep.error, hnest⟩
    · rename_i v me' heq
      rw [heq] at hstep hnest
      split
      · exact ⟨hstep.map _, hnest⟩
      · exact ⟨hstep.map _, hnest⟩
  | succ fuel ih =>
    intro tagBits me
    obtain ⟨hstep, hnest⟩ := getNextFullItem_steps me
    unfold getNextTaggedItem
    split
    · rename_i e me' heq
      rw [heq] at hstep hnest
      exact ⟨hstep.error, hnest⟩
    · rename_i v me' heq
      rw [heq] at hstep hnest
      split
      · rename_i t
        obtain ⟨hstep', hnest'⟩ := ih (tagBits ||| tagBit t) me'
        exact ⟨hstep.then hstep', hnest'.trans hnest⟩
      · exact ⟨hstep.map _, hnest⟩

theorem getNextMapEntry_steps (me : DecodeContext) :
    me.Steps (getNextMapEntry me) ∧ (getNextMapEntry me).2.nesting = me.nesting := by
  obtain ⟨hstep, hnest⟩ := getNextTaggedItem_steps me.inBuf.bytesUnconsumed 0 me
  unfold getNextMapEntry
  split
  · rename_i e me' heq
    rw [heq] at hstep hnest
    exact ⟨hstep.error, hnest⟩
  · rename_i item me' heq
    rw [heq] at hstep hnest
    split_ifs
    · exact ⟨hstep.map _, hnest⟩
    · obtain ⟨hstep', hnest'⟩ := getNextTaggedItem_steps me'.inBuf.bytesUnconsumed 0 me'
      split
      · rename_i e me₂ heq'
        rw [heq'] at hstep' hnest'
        exact ⟨(hstep.then hstep').error, hnest'.trans hnest⟩
      · rename_i value me₂ heq'
        rw [heq'] at hstep' hnest'
        split
        · exact ⟨(hstep.then hstep').map _, hnest'.trans hnest⟩
        · exact ⟨(hstep.then hstep').map _, hnest'.trans hnest⟩
    · exact ⟨hstep.map _, hnest⟩
    · split
      · exact ⟨hstep.map _, hnest⟩
      · exact ⟨hstep.map _, hnest⟩

/-- The open arrays and maps: not too many, and each has a member to come. -/
structure Nests (nesting : List DecodeNest) : Prop where
  depth : nesting.length ≤ qcborMaxArrayNesting
  count : ∀ n ∈ nesting, n.count ≠ 0 ∧ n.count < 2 ^ 16

theorem Nests.nil : Nests [] := ⟨Nat.zero_le _, fun n h => by cases h⟩

theorem Nests.tail {n : DecodeNest} {outer : List DecodeNest} (h : Nests (n :: outer)) : Nests outer :=
  ⟨Nat.le_of_succ_le h.depth, fun m hm => h.count m (List.mem_cons_of_mem _ hm)⟩

theorem decrement_lt {n : DecodeNest} (h : n.count < 2 ^ 16) : n.decrement.count < 2 ^ 16 := by
  unfold DecodeNest.decrement
  split_ifs
  · exact h
  · exact Nat.mod_lt _ (Nat.two_pow_pos 16)

theorem Nests.decrementCount {nesting : List DecodeNest} (h : Nests nesting) :
    Nests (decrementCount nesting) := by
  induction nesting with
  | nil => exact .nil
  | cons n outer ih =>
    unfold Qcbor.decrementCount
    split_ifs with hz
    · refine ⟨h.depth, fun m hm => ?_⟩
      rcases List.mem_cons.1 hm with rfl | hm
      · exact ⟨hz, decrement_lt (h.count n (List.mem_cons_self ..)).2⟩
      · exact h.count m (List.mem_cons_of_mem _ hm)
    · exact ih h.tail

theorem Nests.descend {nesting nesting' : List DecodeNest} {m : MajorType} {count : Nat}
    (h : Nests nesting) (hd : descend nesting m count = .ok nesting') : Nests nesting' := by
  unfold Qcbor.descend at hd
  split_ifs at hd with hz hlong hdeep
  · cases hd
    exact h
  · cases hd
    refine ⟨Nat.lt_of_not_le hdeep, fun n hn => ?_⟩
    rcases List.mem_cons.1 hn with rfl | hn
    · simp only [uint16Max, qcborMaxItemsInArray] at hlong
      exact ⟨hz, by simp only; omega⟩
    · exact h.count n hn

theorem Nests.enter {nesting nesting' : List DecodeNest} {v : Val} (h : Nests nesting)
    (he : enter nesting v = .ok nesting') : Nests nesting' := by
  unfold Qcbor.enter at he
  split at he
  · split_ifs at he
    · cases he
      exact h.decrementCount
    · exact h.descend he
  · split_ifs at he
    · cases he
      exact h.decrementCount
    · exact h.descend he
  · cases he
    exact h.decrementCount

theorem peekBreaks_steps (fuel : Nat) : ∀ me : DecodeContext,
    me.inBuf.Reads (peekBreaks fuel me).2.inBuf ∧ (peekBreaks fuel me).2.decodeMode = me.decodeMode ∧
      (Nests me.nesting → Nests (peekBreaks fuel me).2.nesting) := by
  induction fuel with
  | zero => intro me; exact ⟨.refl _, rfl, id⟩
  | succ fuel ih =>
    intro me
    have hstep := getNextItem_steps me.inBuf
    unfold peekBreaks
    split_ifs with hend
    · exact ⟨.refl _, rfl, id⟩
    · split
      · rename_i e buf heq
        rw [heq] at hstep
        exact ⟨hstep.reads, rfl, id⟩
      · rename_i v buf heq
        rw [heq] at hstep
        split_ifs with hv
        · refine ⟨?_, rfl, id⟩
          -- the cursor goes back to where it was
          have hub := hstep.reads.ub
          unfold InputBuf.seek
          simp only
          split_ifs
          · exact hstep.reads.trans (.fail buf)
          · exact ⟨hub, Nat.le_refl _, id⟩
        · split
          · exact ⟨hstep.reads, rfl, id⟩
          · rename_i nesting hasc
            obtain ⟨hread, hmode, hnest⟩ := ih { me with inBuf := buf, nesting := nesting }
            refine ⟨hstep.reads.trans hread, hmode, fun h => hnest ?_⟩
            unfold breakAscend at hasc
            split at hasc
            · cases hasc
            · split_ifs at hasc
              cases hasc
              rename_i hn
              simp only
              rw [hn] at h
              exact h.tail

/-- What a call that returns an item keeps. -/
structure DecodeContext.Keeps (me : DecodeContext)
    (r : Except QcborError QcborItem × DecodeContext) : Prop extends me.Steps r where
  nests : Nests me.nesting → Nests r.2.nesting
  levels : Nests me.nesting → ∀ i, r.1 = .ok i →
    i.nestingLevel ≤ qcborMaxArrayNesting ∧ i.nextNestLevel ≤ qcborMaxArrayNesting

theorem getNextMapOrArray_keeps (me : DecodeContext) : me.Keeps (getNextMapOrArray me) := by
  obtain ⟨hstep, hnest⟩ := getNextMapEntry_steps me
  unfold getNextMapOrArray
  split_ifs with hend
  · exact ⟨⟨.refl _, fun a h => (by cases h), rfl⟩, id, fun _ _ h => (by cases h)⟩
  · split
    · rename_i e me' heq
      rw [heq] at hstep hnest
      refine ⟨hstep.error, fun h => ?_, fun _ _ h => (by cases h)⟩
      rwa [hnest]
    · rename_i item me' heq
      rw [heq] at hstep hnest
      split_ifs with hbreak
      · refine ⟨hstep.map _, fun h => ?_, fun _ _ h => (by cases h)⟩
        rwa [hnest]
      · split
        · refine ⟨hstep.map _, fun h => ?_, fun _ _ h => (by cases h)⟩
          rwa [hnest]
        · rename_i nesting henter
          have hafter : ∀ r : Except QcborError Unit × DecodeContext,
              r = (if isIndefiniteLength nesting then
                peekBreaks me'.inBuf.bytesUnconsumed { me' with nesting := nesting }
                else (.ok (), { me' with nesting := nesting })) →
              me'.inBuf.Reads r.2.inBuf ∧ r.2.decodeMode = me'.decodeMode ∧
                (Nests nesting → Nests r.2.nesting) := by
            intro r hr
            subst hr
            split_ifs
            · exact peekBreaks_steps _ { me' with nesting := nesting }
            · exact ⟨.refl _, rfl, id⟩
          generalize (if isIndefiniteLength nesting then
            peekBreaks me'.inBuf.bytesUnconsumed { me' with nesting := nesting }
            else (.ok (), { me' with nesting := nesting })) = r at hafter ⊢
          obtain ⟨hread, hmode, hkeep⟩ := hafter r rfl
          have hnests : Nests me.nesting → Nests r.2.nesting := fun h =>
            hkeep (Nests.enter (by rwa [hnest]) henter)
          have hreads := hstep.reads.trans hread
          have hlt := Nat.lt_of_lt_of_le (hstep.ahead item rfl) hread.le
          simp only
          split
          · exact ⟨⟨hreads, fun a h => (by cases h), hmode.trans hstep.mode⟩, hnests,
              fun _ _ h => (by cases h)⟩
          · refine ⟨⟨hreads, fun _ _ => hlt, hmode.trans hstep.mode⟩, hnests, fun h i hi => ?_⟩
            cases hi
            exact ⟨by simp only; rw [hnest]; exact h.depth, (hnests h).depth⟩

namespace DecodeContext.Keeps

variable {me me₁ me₂ : DecodeContext} {i j : QcborItem}

theorem error {e : QcborError} (h : me.Keeps (.error e, me₁)) (e' : QcborError) :
    me.Keeps (.error e', me₁) :=
  ⟨⟨h.reads, fun _ hb => (by cases hb), h.mode⟩, h.nests, fun _ _ hb => (by cases hb)⟩

/-- The item read is looked at: an error, or an item at the same level. -/
theorem map (h : me.Keeps (.ok i, me₁)) (r : Except QcborError QcborItem)
    (hr : ∀ j, r = .ok j → j.nestingLevel = i.nestingLevel ∧ j.nextNestLevel = i.nextNestLevel) :
    me.Keeps (r, me₁) := by
  refine ⟨h.toSteps.map r, h.nests, fun hn k hk => ?_⟩
  obtain ⟨h₁, h₂⟩ := hr k hk
  rw [h₁, h₂]
  exact h.levels hn i rfl

/-- Another item is read for the same one. -/
theorem after (h : me.Keeps (.ok i, me₁)) {r : Except QcborError QcborItem}
    (h' : me₁.Keeps (r, me₂)) : me.Keeps (.ok i, me₂) :=
  ⟨⟨h.reads.trans h'.reads, fun _ _ => Nat.lt_of_lt_of_le (h.ahead i rfl) h'.reads.le,
    h'.mode.trans h.mode⟩, fun hn => h'.nests (h.nests hn), h.levels⟩

theorem fail (h : me.Keeps (.ok i, me₁)) (e : QcborError) : me.Keeps (.error e, me₁) :=
  h.map _ fun _ hb => (by cases hb)

end DecodeContext.Keeps

theorem mantissaAndExponent_keeps {f : DecodeContext → Except QcborError QcborItem × DecodeContext}
    (hf : ∀ me : DecodeContext, me.Keeps (f me)) {me me₁ : DecodeContext} {item : QcborItem}
    (h : me.Keeps (.ok item, me₁)) : me.Keeps (mantissaAndExponent f me₁ item) := by
  have hexp := getNextMapOrArray_keeps me₁
  unfold mantissaAndExponent
  split
  · simp only
    split
    · rename_i e me₂ heq
      rw [heq] at hexp
      exact (h.after hexp).fail e
    · rename_i exponentItem me₂ heq
      rw [heq] at hexp
      have hman := hf me₂
      split
      · exact (h.after hexp).fail _
      · split
        · split
          · rename_i e me₃ heq'
            rw [heq'] at hman
            exact ((h.after hexp).after hman).fail e
          · rename_i mantissaItem me₃ heq'
            rw [heq'] at hman
            have hall := (h.after hexp).after hman
            split
            · exact hall.fail _
            · split
              · exact hall.fail _
              · split_ifs
                · exact hall.fail _
                · exact hall.map _ fun j hj => by cases hj; exact ⟨rfl, rfl⟩
                · exact hall.map _ fun j hj => by cases hj; exact ⟨rfl, rfl⟩
        · exact (h.after hexp).fail _
  · exact h.fail _

theorem decodeDateString_level {item j : QcborItem} (h : decodeDateString item = .ok j) :
    j.nestingLevel = item.nestingLevel ∧ j.nextNestLevel = item.nextNestLevel := by
  unfold decodeDateString at h
  split at h <;> cases h
  exact ⟨rfl, rfl⟩

theorem decodeBigNum_level {item j : QcborItem} (h : decodeBigNum item = .ok j) :
    j.nestingLevel = item.nestingLevel ∧ j.nextNestLevel = item.nextNestLevel := by
  unfold decodeBigNum at h
  split at h <;> cases h
  exact ⟨rfl, rfl⟩

theorem decodeDateEpoch_level {item j : QcborItem} (h : decodeDateEpoch item = .ok j) :
    j.nestingLevel = item.nestingLevel ∧ j.nextNestLevel = item.nextNestLevel := by
  unfold decodeDateEpoch at h
  split at h
  · cases h
    exact ⟨rfl, rfl⟩
  · split_ifs at h
    cases h
    exact ⟨rfl, rfl⟩
  · split_ifs at h
    cases h
    exact ⟨rfl, rfl⟩
  · cases h

theorem getNextWithTags_keeps (fuel : Nat) : ∀ me : DecodeContext,
    me.Keeps (getNextWithTags fuel me) := by
  induction fuel with
  | zero =>
    intro me
    have hkeep := getNextMapOrArray_keeps me
    unfold getNextWithTags
    split
    · rename_i e me' heq
      rw [heq] at hkeep
      exact hkeep.error e
    · rename_i item me' heq
      rw [heq] at hkeep
      split
      · exact hkeep
      · exact hkeep.map _ fun j => decodeDateString_level
      · exact hkeep.map _ fun j => decodeDateEpoch_level
      · exact hkeep.map _ fun j => decodeBigNum_level
      · exact hkeep.map _ fun j => decodeBigNum_level
      all_goals exact hkeep.fail _
  | succ fuel ih =>
    intro me
    have hkeep := getNextMapOrArray_keeps me
    unfold getNextWithTags
    split
    · rename_i e me' heq
      rw [heq] at hkeep
      exact hkeep.error e
    · rename_i item me' heq
      rw [heq] at hkeep
      split
      · exact hkeep
      · exact hkeep.map _ fun j => decodeDateString_level
      · exact hkeep.map _ fun j => decodeDateEpoch_level
      · exact hkeep.map _ fun j => decodeBigNum_level
      · exact hkeep.map _ fun j => decodeBigNum_level
      · exact mantissaAndExponent_keeps ih hkeep
      · exact mantissaAndExponent_keeps ih hkeep
      · exact hkeep.fail _

theorem getNext_keeps (me : DecodeContext) : me.Keeps me.getNext := getNextWithTags_keeps _ me

/-! ## Enough fuel

The loops of the decoder are given the length of what is left of the input. More changes nothing. -/

/-- What was returned took a byte of what was left. -/
theorem DecodeContext.Steps.lt {α : Type} {me me' : DecodeContext} {a : α}
    (h : me.Steps (.ok a, me')) (hin : me.inBuf.cursor ≤ me.inBuf.ub.length) :
    me'.inBuf.bytesUnconsumed < me.inBuf.bytesUnconsumed ∧
      me'.inBuf.cursor ≤ me'.inBuf.ub.length := by
  have hlt := h.ahead a rfl
  have hle := h.reads.inside hin
  simp only at hlt hle
  rw [bytesUnconsumed_eq, bytesUnconsumed_eq, h.reads.ub]
  omega

theorem getNextTaggedItem_fuel : ∀ (fuel fuel' tagBits : Nat) (me : DecodeContext),
    me.inBuf.cursor ≤ me.inBuf.ub.length → me.inBuf.bytesUnconsumed ≤ fuel →
    me.inBuf.bytesUnconsumed ≤ fuel' →
    getNextTaggedItem fuel tagBits me = getNextTaggedItem fuel' tagBits me := by
  intro fuel
  induction fuel with
  | zero =>
    intro fuel' tagBits me hin h0 h0'
    have hstep := (getNextFullItem_steps me).1
    unfold getNextTaggedItem
    split
    · rfl
    · rename_i v me' heq
      rw [heq] at hstep
      have hlt := (hstep.lt hin).1
      omega
  | succ fuel ih =>
    intro fuel' tagBits me hin hf hf'
    have hstep := (getNextFullItem_steps me).1
    unfold getNextTaggedItem
    split
    · rfl
    · rename_i v me' heq
      rw [heq] at hstep
      obtain ⟨hlt, hin'⟩ := hstep.lt hin
      obtain ⟨k, rfl⟩ : ∃ k, fuel' = k + 1 := ⟨fuel' - 1, by omega⟩
      cases v
      case optTag t => exact ih k _ me' hin' (by omega) (by omega)
      all_goals rfl

theorem mantissaAndExponent_congr {f g : DecodeContext → Except QcborError QcborItem × DecodeContext}
    {me : DecodeContext} (hin : me.inBuf.cursor ≤ me.inBuf.ub.length)
    (h : ∀ me' : DecodeContext, me'.inBuf.cursor ≤ me'.inBuf.ub.length →
      me'.inBuf.bytesUnconsumed < me.inBuf.bytesUnconsumed → f me' = g me') (item : QcborItem) :
    mantissaAndExponent f me item = mantissaAndExponent g me item := by
  have hkeep := getNextMapOrArray_keeps me
  unfold mantissaAndExponent
  split
  · simp only
    split
    · rfl
    · rename_i exponentItem me' heq
      rw [heq] at hkeep
      obtain ⟨hlt, hin'⟩ := hkeep.toSteps.lt hin
      rw [h me' hin' hlt]
  · rfl

theorem getNextWithTags_fuel : ∀ (fuel fuel' : Nat) (me : DecodeContext),
    me.inBuf.cursor ≤ me.inBuf.ub.length → me.inBuf.bytesUnconsumed ≤ fuel →
    me.inBuf.bytesUnconsumed ≤ fuel' → getNextWithTags fuel me = getNextWithTags fuel' me := by
  intro fuel
  induction fuel with
  | zero =>
    intro fuel' me hin h0 h0'
    have hkeep := getNextMapOrArray_keeps me
    unfold getNextWithTags
    split
    · rfl
    · rename_i item me' heq
      rw [heq] at hkeep
      have hlt := (hkeep.toSteps.lt hin).1
      omega
  | succ fuel ih =>
    intro fuel' me hin hf hf'
    have hkeep := getNextMapOrArray_keeps me
    unfold getNextWithTags
    split
    · rfl
    · rename_i item me' heq
      rw [heq] at hkeep
      obtain ⟨hlt, hin'⟩ := hkeep.toSteps.lt hin
      obtain ⟨k, rfl⟩ : ∃ k, fuel' = k + 1 := ⟨fuel' - 1, by omega⟩
      have hsame := mantissaAndExponent_congr hin'
        (fun me₂ hin₂ hlt₂ => ih k me₂ hin₂ (by omega) (by omega)) item
      simp only [hsame]

/-! ## Strings -/

def Mantissa.strings : Mantissa → List UsefulBufC
  | .int _ => []
  | .posBignum s => [s]
  | .negBignum s => [s]

def Val.strings : Val → List UsefulBufC
  | .byteString s => [s]
  | .textString s => [s]
  | .posBignum s => [s]
  | .negBignum s => [s]
  | .dateString s => [s]
  | .decimalFraction _ m => m.strings
  | .bigfloat _ m => m.strings
  | _ => []

def Label.strings : Label → List UsefulBufC
  | .textString s => [s]
  | .byteString s => [s]
  | _ => []

/-- The strings an item points to. -/
def QcborItem.strings (item : QcborItem) : List UsefulBufC := item.val.strings ++ item.label.strings

/-- The string is what the input holds somewhere between the two cursors. -/
def InputBuf.Took (buf buf' : InputBuf) (s : UsefulBufC) : Prop :=
  ∃ i, buf.cursor ≤ i ∧ i + s.len ≤ buf'.cursor ∧ s = ofBytes ((buf.ub.drop i).take s.len)

theorem InputBuf.Took.mono {a b c d : InputBuf} {s : UsefulBufC} (h : b.Took c s) (hab : a.Reads b)
    (hcd : c.Reads d) : a.Took d s := by
  obtain ⟨i, hlo, hhi, heq⟩ := h
  rw [hab.ub] at heq
  exact ⟨i, Nat.le_trans hab.le hlo, Nat.le_trans hhi hcd.le, heq⟩

theorem getUsefulBuf_took {buf : InputBuf} {n : Nat}
    (h : (buf.getUsefulBuf n).1.ptr.isNone = false) :
    buf.Took (buf.getUsefulBuf n).2 (buf.getUsefulBuf n).1 := by
  have hun := bytesUnconsumed_eq buf
  unfold InputBuf.getUsefulBuf InputBuf.getBytes at h ⊢
  split_ifs at h ⊢ with herr hlen
  · cases h
  · have htake : ((buf.ub.drop buf.cursor).take n).length = n := by
      rw [List.length_take, List.length_drop]
      omega
    refine ⟨buf.cursor, Nat.le_refl _, Nat.le_refl _, ?_⟩
    simp only [ofBytes, htake]
  · cases h

theorem decodeBytes_took {majorType n : Nat} {buf buf' : InputBuf} {v : Val}
    (h : decodeBytes majorType n buf = (.ok v, buf')) : ∀ s ∈ v.strings, buf.Took buf' s := by
  have htook := @getUsefulBuf_took buf n
  unfold decodeBytes at h
  simp only at h
  split_ifs at h with hlong hnone hbyte
  · cases h
  · cases h
  all_goals
    cases h
    intro s hs
    rw [List.mem_singleton.1 hs]
    exact htook (Bool.eq_false_of_not_eq_true hnone)

theorem decodeInteger_strings {majorType n : Nat} {v : Val} (h : decodeInteger majorType n = .ok v) :
    v.strings = [] := by
  unfold decodeInteger at h
  split_ifs at h <;> cases h <;> rfl

theorem decodeSimple_strings {info n : Nat} {v : Val} (h : decodeSimple info n = .ok v) :
    v.strings = [] := by
  unfold decodeSimple at h
  split at h
  case h_9 =>
    split_ifs at h
    cases h
    rfl
  all_goals
    cases h
    rfl

/-- A string of definite length is taken from the input. -/
theorem getNextItem_took {buf buf' : InputBuf} {v : Val} (h : getNextItem buf = (.ok v, buf'))
    (hdef : v.isIndefiniteString = false) : ∀ s ∈ v.strings, buf.Took buf' s := by
  have hstep := decodeTypeAndNumber_steps buf
  have hnone : v.strings = [] → ∀ s ∈ v.strings, buf.Took buf' s := by
    intro hv s hs
    rw [hv] at hs
    exact absurd hs List.not_mem_nil
  unfold getNextItem at h
  split at h
  · cases h
  · rename_i m n info buf₁ heq
    rw [heq] at hstep
    have hbytes : ∀ majorType, decodeBytes majorType n buf₁ = (.ok v, buf') →
        ∀ s ∈ v.strings, buf.Took buf' s := by
      intro majorType hb s hs
      exact (decodeBytes_took hb s hs).mono hstep.reads (.refl buf')
    split at h
    · split_ifs at h
      · cases h
      · exact hnone (decodeInteger_strings (Prod.mk.inj h).1)
    · split_ifs at h
      · cases h
      · exact hnone (decodeInteger_strings (Prod.mk.inj h).1)
    · split_ifs at h with hind hbyte
      · cases h
        cases hdef
      · cases h
        cases hdef
      · exact hbytes 2 h
    · split_ifs at h with hind hbyte
      · cases h
        cases hdef
      · cases h
        cases hdef
      · exact hbytes 3 h
    · split_ifs at h <;> cases h <;> exact hnone rfl
    · split_ifs at h <;> cases h <;> exact hnone rfl
    · split_ifs at h <;> cases h
      exact hnone rfl
    · exact hnone (decodeSimple_strings (Prod.mk.inj h).1)
    · cases h

theorem getNextFullItem_took {me me' : DecodeContext} {v : Val}
    (h : getNextFullItem me = (.ok v, me')) : ∀ s ∈ v.strings, me.inBuf.Took me'.inBuf s := by
  unfold getNextFullItem at h
  split at h
  · cases h
  · rename_i w buf heq
    obtain ⟨hv, rfl⟩ := Prod.mk.inj h
    split_ifs at hv with hind
    cases hv
    exact getNextItem_took heq (Bool.eq_false_of_not_eq_true hind)

/-- There is no label before a map entry is put together. -/
theorem getNextTaggedItem_took (fuel : Nat) : ∀ {tagBits : Nat} {me me' : DecodeContext}
    {item : QcborItem}, getNextTaggedItem fuel tagBits me = (.ok item, me') →
    item.label = .none ∧ ∀ s ∈ item.val.strings, me.inBuf.Took me'.inBuf s := by
  induction fuel with
  | zero =>
    intro tagBits me me' item h
    unfold getNextTaggedItem at h
    split at h
    · cases h
    · rename_i v me₁ heq
      split at h
      · cases h
      · cases h
        exact ⟨rfl, getNextFullItem_took heq⟩
  | succ fuel ih =>
    intro tagBits me me' item h
    have hstep := (getNextFullItem_steps me).1
    unfold getNextTaggedItem at h
    split at h
    · cases h
    · rename_i v me₁ heq
      rw [heq] at hstep
      split at h
      · obtain ⟨hlabel, htook⟩ := ih h
        exact ⟨hlabel, fun s hs => (htook s hs).mono hstep.reads (.refl _)⟩
      · cases h
        exact ⟨rfl, getNextFullItem_took heq⟩

theorem labelOfVal_strings {mode : DecodeMode} {v : Val} {l : Label}
    (h : labelOfVal mode v = .ok l) : ∀ s ∈ l.strings, s ∈ v.strings := by
  unfold labelOfVal at h
  split at h
  · cases h
    exact fun s hs => hs
  · split_ifs at h
    cases h
    exact fun s hs => hs
  · split_ifs at h
    cases h
    exact fun s hs => hs
  · split_ifs at h
    cases h
    exact fun s hs => hs
  · cases h

/-- All the strings of what was returned are taken from the input. -/
def DecodeContext.Takes (me : DecodeContext) (r : Except QcborError QcborItem × DecodeContext) : Prop :=
  ∀ item me', r = (.ok item, me') → ∀ s ∈ item.strings, me.inBuf.Took me'.inBuf s

theorem DecodeContext.Takes.mono {me me₁ me₂ : DecodeContext} {item : QcborItem}
    (h : me.Takes (.ok item, me₁)) (hread : me₁.inBuf.Reads me₂.inBuf) :
    ∀ s ∈ item.strings, me.inBuf.Took me₂.inBuf s :=
  fun s hs => (h item me₁ rfl s hs).mono (.refl _) hread

theorem getNextMapEntry_takes (me : DecodeContext) : me.Takes (getNextMapEntry me) := by
  intro item me' h
  have hstep := (getNextTaggedItem_steps me.inBuf.bytesUnconsumed 0 me).1
  unfold getNextMapEntry at h
  split at h
  · cases h
  · rename_i first me₁ heq
    rw [heq] at hstep
    obtain ⟨hlabel, htook⟩ := getNextTaggedItem_took _ heq
    have hfirst : ∀ s ∈ first.strings, me.inBuf.Took me₁.inBuf s := by
      intro s hs
      rw [QcborItem.strings, hlabel] at hs
      exact htook s (by simpa [Label.strings] using hs)
    split_ifs at h with hbreak hmode hmap
    · cases h
      exact hfirst
    · have hstep' := (getNextTaggedItem_steps me₁.inBuf.bytesUnconsumed 0 me₁).1
      split at h
      · cases h
      · rename_i value me₂ heq'
        rw [heq'] at hstep'
        obtain ⟨-, htook'⟩ := getNextTaggedItem_took _ heq'
        split at h
        · cases h
        · rename_i l hl
          cases h
          intro s hs
          rcases List.mem_append.1 hs with hs | hs
          · exact (htook' s hs).mono hstep.reads (.refl _)
          · exact (htook s (labelOfVal_strings hl s hs)).mono (.refl _) hstep'.reads
    · cases h
      exact hfirst
    · split at h
      · cases h
        intro s hs
        rw [QcborItem.strings, hlabel] at hs
        exact absurd hs List.not_mem_nil
      · cases h
        exact hfirst

theorem getNextMapOrArray_takes (me : DecodeContext) : me.Takes (getNextMapOrArray me) := by
  intro item me' h
  have htook := getNextMapEntry_takes me
  unfold getNextMapOrArray at h
  split_ifs at h with hend
  · cases h
  split at h
  · cases h
  · rename_i first me₁ heq
    rw [heq] at htook
    split_ifs at h with hbreak
    · cases h
    split at h
    · cases h
    · rename_i nesting henter
      simp only at h
      split_ifs at h with hind
      · have hread := (peekBreaks_steps me₁.inBuf.bytesUnconsumed { me₁ with nesting := nesting }).1
        split at h
        · cases h
        · cases h
          exact htook.mono hread
      · cases h
        exact htook.mono (.refl _)

theorem decodeDateString_strings {item j : QcborItem} (h : decodeDateString item = .ok j) :
    ∀ s ∈ j.strings, s ∈ item.strings := by
  unfold decodeDateString at h
  split at h <;> cases h
  rename_i hv
  simp [QcborItem.strings, hv, Val.strings]

theorem decodeBigNum_strings {item j : QcborItem} (h : decodeBigNum item = .ok j) :
    ∀ s ∈ j.strings, s ∈ item.strings := by
  unfold decodeBigNum at h
  split at h <;> cases h
  rename_i hv
  unfold QcborItem.strings
  simp only [hv]
  split_ifs <;> simp [Val.strings]

theorem decodeDateEpoch_strings {item j : QcborItem} (h : decodeDateEpoch item = .ok j) :
    ∀ s ∈ j.strings, s ∈ item.strings := by
  have hlabel : ∀ t, ∀ s ∈ ({ item with val := .dateEpoch t } : QcborItem).strings,
      s ∈ item.strings := fun t s hs => List.mem_append_right _ hs
  unfold decodeDateEpoch at h
  split at h
  · cases h
    exact hlabel _
  · split_ifs at h
    cases h
    exact hlabel _
  · split_ifs at h
    cases h
    exact hlabel _
  · cases h

theorem mantissa_strings {v : Val} {m : Mantissa}
    (h : (match v with
      | .int64 v => some (.int v)
      | .posBignum s => some (.posBignum s)
      | .negBignum s => some (.negBignum s)
      | _ => none) = some m) : ∀ s ∈ m.strings, s ∈ v.strings := by
  split at h <;> cases h
  all_goals exact fun s hs => hs

/-- The label is the array's, and the mantissa was read after it. -/
theorem mantissaAndExponent_takes {f : DecodeContext → Except QcborError QcborItem × DecodeContext}
    (hkeep : ∀ me : DecodeContext, me.Keeps (f me)) (hf : ∀ me : DecodeContext, me.Takes (f me))
    {me me₁ : DecodeContext} {item : QcborItem} (hme : me.Keeps (.ok item, me₁))
    (h : me.Takes (.ok item, me₁)) : me.Takes (mantissaAndExponent f me₁ item) := by
  intro j me' hj
  have hexp := getNextMapOrArray_keeps me₁
  unfold mantissaAndExponent at hj
  split at hj
  · simp only at hj
    split at hj
    · cases hj
    · rename_i exponentItem me₂ heq
      rw [heq] at hexp
      have hman := hkeep me₂
      have htook := hf me₂
      split at hj
      · cases hj
      split at hj
      · split at hj
        · cases hj
        · rename_i mantissaItem me₃ heq'
          rw [heq'] at hman htook
          split at hj
          · cases hj
          split at hj
          · cases hj
          · rename_i m hm
            have hstrings : ∀ s ∈ m.strings ++ item.label.strings, me.inBuf.Took me₃.inBuf s := by
              intro s hs
              rcases List.mem_append.1 hs with hs | hs
              · have hval := mantissa_strings hm s hs
                exact (htook _ _ rfl s (List.mem_append_left _ hval)).mono
                  (hme.reads.trans hexp.reads) (.refl _)
              · exact h.mono (hexp.reads.trans hman.reads) s (List.mem_append_right _ hs)
            split_ifs at hj
            · cases hj
            · cases hj
              exact hstrings
            · cases hj
              exact hstrings
      · cases hj
  · cases hj

theorem getNextWithTags_takes (fuel : Nat) : ∀ me : DecodeContext,
    me.Takes (getNextWithTags fuel me) := by
  induction fuel with
  | zero =>
    intro me j me' h
    have htook := getNextMapOrArray_takes me
    unfold getNextWithTags at h
    split at h
    · cases h
    · rename_i item me₁ heq
      rw [heq] at htook
      split at h
      · exact htook j me' h
      · obtain ⟨hj, rfl⟩ := Prod.mk.inj h
        exact fun s hs => htook item _ rfl s (decodeDateString_strings hj s hs)
      · obtain ⟨hj, rfl⟩ := Prod.mk.inj h
        exact fun s hs => htook item _ rfl s (decodeDateEpoch_strings hj s hs)
      · obtain ⟨hj, rfl⟩ := Prod.mk.inj h
        exact fun s hs => htook item _ rfl s (decodeBigNum_strings hj s hs)
      · obtain ⟨hj, rfl⟩ := Prod.mk.inj h
        exact fun s hs => htook item _ rfl s (decodeBigNum_strings hj s hs)
      all_goals cases h
  | succ fuel ih =>
    intro me j me' h
    have htook := getNextMapOrArray_takes me
    have hkeep := getNextMapOrArray_keeps me
    unfold getNextWithTags at h
    split at h
    · cases h
    · rename_i item me₁ heq
      rw [heq] at htook hkeep
      split at h
      · exact htook j me' h
      · obtain ⟨hj, rfl⟩ := Prod.mk.inj h
        exact fun s hs => htook item _ rfl s (decodeDateString_strings hj s hs)
      · obtain ⟨hj, rfl⟩ := Prod.mk.inj h
        exact fun s hs => htook item _ rfl s (decodeDateEpoch_strings hj s hs)
      · obtain ⟨hj, rfl⟩ := Prod.mk.inj h
        exact fun s hs => htook item _ rfl s (decodeBigNum_strings hj s hs)
      · obtain ⟨hj, rfl⟩ := Prod.mk.inj h
        exact fun s hs => htook item _ rfl s (decodeBigNum_strings hj s hs)
      · exact mantissaAndExponent_takes (getNextWithTags_keeps fuel) ih hkeep htook j me' h
      · exact mantissaAndExponent_takes (getNextWithTags_keeps fuel) ih hkeep htook j me' h
      · cases h

theorem getNext_takes (me : DecodeContext) : me.Takes me.getNext := getNextWithTags_takes _ me

/-! ## Many calls -/

/-- `n` calls of `QCBORDecode_GetNext`, also after one that failed. -/
def DecodeContext.run : Nat → DecodeContext → List (Except QcborError QcborItem) × DecodeContext
  | 0, me => ([], me)
  | n + 1, me =>
    let (r, me) := me.getNext
    let (rs, me) := DecodeContext.run n me
    (r :: rs, me)

def returned (rs : List (Except QcborError QcborItem)) : List QcborItem :=
  rs.filterMap Except.toOption

theorem run_reads (n : Nat) : ∀ me : DecodeContext, me.inBuf.Reads (me.run n).2.inBuf := by
  induction n with
  | zero => intro me; exact .refl _
  | succ n ih => intro me; exact (getNext_keeps me).reads.trans (ih me.getNext.2)

theorem run_keeps (n : Nat) : ∀ me : DecodeContext, Nests me.nesting →
    Nests (me.run n).2.nesting ∧
      me.inBuf.cursor + (returned (me.run n).1).length ≤ (me.run n).2.inBuf.cursor ∧
      ∀ i ∈ returned (me.run n).1,
        i.nestingLevel ≤ qcborMaxArrayNesting ∧ i.nextNestLevel ≤ qcborMaxArrayNesting := by
  induction n with
  | zero => intro me h; exact ⟨h, Nat.le_refl _, fun i hi => by cases hi⟩
  | succ n ih =>
    intro me h
    have hkeep := getNext_keeps me
    obtain ⟨hnests, hle, hlevels⟩ := ih me.getNext.2 (hkeep.nests h)
    refine ⟨hnests, ?_, ?_⟩
    · have hfirst := hkeep.reads.le
      have hahead := hkeep.ahead
      simp only [DecodeContext.run, returned, List.filterMap_cons] at hle ⊢
      cases hr : me.getNext.1 with
      | error e => simpa [Except.toOption] using Nat.le_trans (Nat.add_le_add_right hfirst _) hle
      | ok i =>
        have hlt := hahead i hr
        simp only [Except.toOption, List.length_cons]
        omega
    · intro i hi
      simp only [DecodeContext.run, returned, List.filterMap_cons] at hi hlevels
      cases hr : me.getNext.1 with
      | error e =>
        rw [hr] at hi
        exact hlevels i hi
      | ok j =>
        rw [hr] at hi
        rcases List.mem_cons.1 hi with rfl | hi
        · exact hkeep.levels h _ hr
        · exact hlevels i hi

theorem run_takes (n : Nat) : ∀ me : DecodeContext, ∀ i ∈ returned (me.run n).1,
    ∀ s ∈ i.strings, me.inBuf.Took (me.run n).2.inBuf s := by
  induction n with
  | zero => intro me i hi; exact absurd hi List.not_mem_nil
  | succ n ih =>
    intro me i hi
    have hfirst := (getNext_keeps me).reads
    have hrest : me.getNext.2.inBuf.Reads (me.run (n + 1)).2.inBuf := run_reads n me.getNext.2
    have hlater : ∀ i ∈ returned (me.getNext.2.run n).1,
        ∀ s ∈ i.strings, me.inBuf.Took (me.run (n + 1)).2.inBuf s := fun i hi s hs =>
      (ih me.getNext.2 i hi s hs).mono hfirst (.refl _)
    simp only [DecodeContext.run, returned, List.filterMap_cons] at hi
    cases hr : me.getNext.1 with
    | error e =>
      rw [hr] at hi
      exact hlater i hi
    | ok j =>
      rw [hr] at hi
      rcases List.mem_cons.1 hi with rfl | hi
      · intro s hs
        exact (getNext_takes me i _ (Prod.ext hr rfl) s hs).mono (.refl _) hrest
      · exact hlater i hi

theorem InputBuf.Took.inBuffer {buf buf' : InputBuf} {s : UsefulBufC} (h : buf.Took buf' s) :
    ∃ b, s = ofBytes b ∧ b <:+: buf.ub := by
  obtain ⟨i, -, -, heq⟩ := h
  have htake := (List.take_prefix s.len (buf.ub.drop i)).isInfix
  exact ⟨_, heq, htake.trans (List.drop_suffix i buf.ub).isInfix⟩

/-- Whatever the input and however often it is asked, the decoder takes a byte of it for every item,
so that it returns no more items than there are bytes, stays inside the input, points into it with
every string and keeps the nesting within its limit. -/
theorem getNext_bound (encodedCbor : List UInt8) (mode : DecodeMode) (n : Nat) :
    (returned ((decodeInit encodedCbor mode).run n).1).length ≤ encodedCbor.length ∧
      (∀ i ∈ returned ((decodeInit encodedCbor mode).run n).1,
        i.nestingLevel ≤ qcborMaxArrayNesting ∧ i.nextNestLevel ≤ qcborMaxArrayNesting ∧
          ∀ s ∈ i.strings, ∃ b, s = ofBytes b ∧ b <:+: encodedCbor) ∧
      ((decodeInit encodedCbor mode).run n).2.inBuf.ub = encodedCbor ∧
      ((decodeInit encodedCbor mode).run n).2.inBuf.cursor ≤ encodedCbor.length ∧
      Nests ((decodeInit encodedCbor mode).run n).2.nesting ∧
      ∀ i, ((decodeInit encodedCbor mode).run n).2.getNext.1 = .ok i →
        ((decodeInit encodedCbor mode).run n).2.inBuf.cursor <
          ((decodeInit encodedCbor mode).run n).2.getNext.2.inBuf.cursor := by
  obtain ⟨hnests, hle, hlevels⟩ := run_keeps n (decodeInit encodedCbor mode) .nil
  have hreads := run_reads n (decodeInit encodedCbor mode)
  have hin := hreads.inside (Nat.zero_le _)
  have hzero : (decodeInit encodedCbor mode).inBuf.cursor = 0 := rfl
  have hub : (decodeInit encodedCbor mode).inBuf.ub = encodedCbor := rfl
  rw [hub] at hin
  refine ⟨by omega, fun i hi => ⟨(hlevels i hi).1, (hlevels i hi).2, fun s hs => ?_⟩, hreads.ub, hin,
    hnests, (getNext_keeps _).ahead⟩
  exact (run_takes n _ i hi s hs).inBuffer

end Tfm.L3.Qcbor
