import Tfm.L3Format.QcborDecode
import Tfm.L3Format.QcborTree

/-!
# Reading back what was encoded

`visits` is the walk over a tree that the decoder's caller sees: every array, map and scalar in the
order of the encoding, a map entry with its label, and for each how deep it is nested and how deep
the one after it will be.

Results:
* `decode_encode`: the decoder walks over the shortest encoding of a tree, and ends with it.
-/
namespace Tfm.L3.Qcbor
open Tfm.Cbor

/-! ## The walk -/

def simpleVal : Nat → Val
  | 20 => .simpleFalse
  | 21 => .simpleTrue
  | 22 => .simpleNull
  | 23 => .simpleUndef
  | v => .unknownSimple v

def doubleOf : Width → Nat → Nat
  | .w2, bits => halfToDouble bits
  | .w4, bits => floatToDouble bits
  | _, bits => bits

/-- The value of an item, as far as its head and its own bytes tell. -/
def valOf : Item → Val
  | .uint n => if n ≤ int64Max then .int64 n else .uint64 n
  | .nint n => .int64 (-n - 1)
  | .bytes b => .byteString (ofBytes b)
  | .text b => .textString (ofBytes b)
  | .array xs => .array xs.length
  | .map kvs => .map kvs.length
  | .tag _ x => valOf x
  | .simple v => simpleVal v
  | .float w bits => .double (doubleOf w bits)

def labelOf : Item → Label
  | .uint n => if n ≤ int64Max then .int64 n else .uint64 n
  | .nint n => .int64 (-n - 1)
  | .bytes b => .byteString (ofBytes b)
  | .text b => .textString (ofBytes b)
  | .tag _ k => labelOf k
  | _ => .none

def bitsOf : Item → Nat
  | .tag t x => tagBit t ||| bitsOf x
  | _ => 0

/-- The nesting after the item that opens an array or a map, or that is a member. -/
def entered (nesting : List DecodeNest) : Val → List DecodeNest
  | .array (n + 1) => ⟨.array, n + 1⟩ :: nesting
  | .map (n + 1) => ⟨.map, n + 1⟩ :: nesting
  | _ => decrementCount nesting

def visit (l : Label) (x : Item) (nesting : List DecodeNest) : QcborItem where
  val := valOf x
  nestingLevel := nesting.length
  nextNestLevel := (entered nesting (valOf x)).length
  label := l
  tagBits := bitsOf x

mutual

/-- What is visited inside an item. -/
def visitsIn : Item → List DecodeNest → List QcborItem
  | .array xs, nesting => visitsAll xs nesting
  | .map kvs, nesting => visitsPairs kvs nesting
  | .tag _ x, nesting => visitsIn x nesting
  | _, _ => []

def visitsAll : List Item → List DecodeNest → List QcborItem
  | [], _ => []
  | x :: xs, nesting =>
    visit .none x nesting ::
      (visitsIn x (entered nesting (valOf x)) ++ visitsAll xs (decrementCount nesting))

def visitsPairs : List (Item × Item) → List DecodeNest → List QcborItem
  | [], _ => []
  | (k, v) :: kvs, nesting =>
    visit (labelOf k) v nesting ::
      (visitsIn v (entered nesting (valOf v)) ++ visitsPairs kvs (decrementCount nesting))

end

def visits (x : Item) : List QcborItem :=
  visit .none x [] :: visitsIn x (entered [] (valOf x))

/-- Numbers and strings are labels; tags on them are lost. -/
def IsLabel : Item → Prop
  | .uint _ => True
  | .nint _ => True
  | .bytes _ => True
  | .text _ => True
  | .tag _ k => IsLabel k
  | _ => False

mutual

/-- What the decoder can take: numbers that `int64_t` or `uint64_t` hold, 65534 members, labels that
are numbers or strings, and tags that it does not turn into a value of their own. -/
def Decodable : Item → Prop
  | .uint n => n < 256 ^ 8
  | .nint n => n ≤ int64Max
  | .bytes b => b.length ≤ sizeMax - 4
  | .text b => b.length ≤ sizeMax - 4
  | .array xs => xs.length ≤ qcborMaxItemsInArray ∧ DecodableAll xs
  | .map kvs => kvs.length ≤ qcborMaxItemsInArray ∧ DecodablePairs kvs
  | .tag t x => t < 256 ^ 8 ∧ 6 ≤ t ∧ Decodable x
  | .simple v => v < 256 ∧ ¬ (24 ≤ v ∧ v ≤ 31)
  | .float w bits => floatWidth w ∧ bits < 256 ^ w.size

def DecodableAll : List Item → Prop
  | [] => True
  | x :: xs => Decodable x ∧ DecodableAll xs

def DecodablePairs : List (Item × Item) → Prop
  | [] => True
  | (k, v) :: kvs => IsLabel k ∧ Decodable k ∧ Decodable v ∧ DecodablePairs kvs

end

/-! ## The bytes before the members -/

/-- The bytes of an item up to its members. -/
def opening : Item → List UInt8
  | .uint n => head 0 n
  | .nint n => head 1 n
  | .bytes b => head 2 b.length ++ b
  | .text b => head 3 b.length ++ b
  | .array xs => head 4 xs.length
  | .map kvs => head 5 kvs.length
  | .tag t x => head 6 t ++ opening x
  | .simple v => head 7 v
  | .float w bits => headAs w 7 bits

def members : Item → List UInt8
  | .array xs => encodeAll xs
  | .map kvs => encodePairs kvs
  | .tag _ x => members x
  | _ => []

theorem encode_eq (x : Item) : encode x = opening x ++ members x := by
  cases x with
  | uint _ => exact (List.append_nil _).symm
  | nint _ => exact (List.append_nil _).symm
  | bytes _ => exact (List.append_nil _).symm
  | text _ => exact (List.append_nil _).symm
  | array _ => rfl
  | map _ => rfl
  | tag t x => rw [encode, encode_eq x, opening, members, List.append_assoc]
  | simple _ => exact (List.append_nil _).symm
  | float _ _ => exact (List.append_nil _).symm

theorem members_label : ∀ {k : Item}, IsLabel k → members k = []
  | .uint _, _ => rfl
  | .nint _, _ => rfl
  | .bytes _, _ => rfl
  | .text _, _ => rfl
  | .tag _ k, h => members_label (k := k) h

theorem opening_label {k : Item} (h : IsLabel k) : opening k = encode k := by
  rw [encode_eq, members_label h, List.append_nil]

/-! ## The input, where it stands -/

/-- The input `front ++ back`, of which `front` was read. -/
def InputBuf.amid (front back : List UInt8) : InputBuf := ⟨front ++ back, front.length, false⟩

theorem getBytes_amid (front bs back : List UInt8) :
    (InputBuf.amid front (bs ++ back)).getBytes bs.length =
      (some bs, InputBuf.amid (front ++ bs) back) := by
  unfold InputBuf.getBytes
  rw [bytesUnconsumed_eq]
  simp [InputBuf.amid]

theorem getByte_amid (front : List UInt8) (b : UInt8) (back : List UInt8) :
    (InputBuf.amid front (b :: back)).getByte = (b, InputBuf.amid (front ++ [b]) back) := by
  have h := getBytes_amid front [b] back
  simp only [List.singleton_append, List.length_singleton] at h
  rw [InputBuf.getByte, h]

theorem getUsefulBuf_amid (front bs back : List UInt8) :
    (InputBuf.amid front (bs ++ back)).getUsefulBuf bs.length =
      (ofBytes bs, InputBuf.amid (front ++ bs) back) := by
  rw [InputBuf.getUsefulBuf, getBytes_amid]
  rfl

theorem getArgument_amid (l : List UInt8) : ∀ (argument : Nat) (front back : List UInt8),
    argument * 256 ^ l.length + ofBe l < 2 ^ 64 →
    getArgument l.length argument (InputBuf.amid front (l ++ back)) =
      (argument * 256 ^ l.length + ofBe l, InputBuf.amid (front ++ l) back) := by
  induction l with
  | nil =>
    intro argument front back _
    simp [getArgument, ofBe, Bytes.ofLe]
  | cons b l ih =>
    intro argument front back h
    rw [ofBe_cons, List.length_cons] at h ⊢
    have hsum : argument * 256 ^ (l.length + 1) + (b.toNat * 256 ^ l.length + ofBe l) =
        (argument * 256 + b.toNat) * 256 ^ l.length + ofBe l := by
      rw [Nat.pow_succ', Nat.add_mul, Nat.mul_assoc, Nat.add_assoc]
    rw [hsum] at h ⊢
    have hlt : argument * 256 + b.toNat < 2 ^ 64 :=
      calc argument * 256 + b.toNat
          ≤ (argument * 256 + b.toNat) * 256 ^ l.length :=
            Nat.le_mul_of_pos_right _ (Nat.pow_pos (by decide))
        _ ≤ (argument * 256 + b.toNat) * 256 ^ l.length + ofBe l := Nat.le_add_right _ _
        _ < 2 ^ 64 := h
    rw [getArgument, List.cons_append, getByte_amid]
    simp only
    rw [Nat.shiftLeft_eq, Nat.mod_eq_of_lt hlt, ih _ _ _ h, List.append_assoc, List.singleton_append]

theorem and_low (n : Nat) : n &&& 0x1f = n % 32 := Nat.and_two_pow_sub_one_eq_mod n 5

/-- A head is read back. -/
theorem decodeTypeAndNumber_head {w : Width} {major n : Nat} (hm : major < 8) (h : w.Fits n)
    (front back : List UInt8) :
    decodeTypeAndNumber (InputBuf.amid front (headAs w major n ++ back)) =
      (.ok (major, n, w.info n), InputBuf.amid (front ++ headAs w major n) back) := by
  have hinfo := Width.info_lt h
  unfold decodeTypeAndNumber headAs
  rw [List.cons_append, getByte_amid]
  simp only [and_low, Nat.shiftRight_eq_div_pow, Nat.reducePow]
  rw [initial_major hm (by omega), initial_info hm (by omega)]
  -- the number has bytes of its own
  have hlong : ∀ k, w.size = k → decodeIterate (w.info n) = k → n < 256 ^ k → k ≤ 8 →
      getArgument (decodeIterate (w.info n)) 0
        (InputBuf.amid (front ++ [UInt8.ofNat (32 * major + w.info n)]) (be w.size n ++ back)) =
      (n, InputBuf.amid (front ++ UInt8.ofNat (32 * major + w.info n) :: be w.size n) back) := by
    intro k hk hit hn hk8
    have hval := ofBe_be hn
    have hlt : n < 2 ^ 64 := Nat.lt_of_lt_of_le hn (Nat.pow_le_pow_right (by decide) hk8)
    have harg := getArgument_amid (be k n) 0 (front ++ [UInt8.ofNat (32 * major + w.info n)]) back
      (by rw [hval]; omega)
    rw [length_be, hval] at harg
    rw [hit, hk, harg]
    simp
  by_cases h24 : 24 ≤ w.info n
  · rw [if_pos (by omega)]
    cases w with
    | w0 => exact absurd h (Nat.not_lt.2 h24)
    | w1 => rw [hlong 1 rfl rfl h (by decide)]; rfl
    | w2 => rw [hlong 2 rfl rfl h (by decide)]; rfl
    | w4 => rw [hlong 4 rfl rfl h (by decide)]; rfl
    | w8 => rw [hlong 8 rfl rfl h (by decide)]; rfl
  · rw [if_neg (by omega), if_neg (by omega)]
    cases w with
    | w0 => rfl
    | w1 => exact absurd (Nat.le_refl 24) h24
    | w2 => exact absurd (by decide : 24 ≤ 25) h24
    | w4 => exact absurd (by decide : 24 ≤ 26) h24
    | w8 => exact absurd (by decide : 24 ≤ 27) h24

theorem decodeTypeAndNumber_shortest {major n : Nat} (hm : major < 8) (h : n < 256 ^ 8)
    (front back : List UInt8) :
    decodeTypeAndNumber (InputBuf.amid front (head major n ++ back)) =
      (.ok (major, n, (shortest n).info n), InputBuf.amid (front ++ head major n) back) :=
  decodeTypeAndNumber_head hm (shortest_fits h) front back

theorem shortest_definite {n : Nat} (h : n < 256 ^ 8) : (shortest n).info n ≠ lenIsIndefinite := by
  have hinfo := Width.info_lt (shortest_fits h)
  simp only [lenIsIndefinite]
  omega

/-! ## One item -/

theorem decodeSimple_eq {v : Nat} (h : v < 256 ∧ ¬ (24 ≤ v ∧ v ≤ 31)) :
    decodeSimple ((shortest v).info v) v = .ok (simpleVal v) := by
  have hsmall : ∀ v < 24, decodeSimple v v = .ok (simpleVal v) := by decide
  by_cases h24 : v < 24
  · rw [shortest, if_pos h24]
    exact hsmall v h24
  · have h32 : ¬ v ≤ cborSimpleBreak := by
      simp only [cborSimpleBreak]
      omega
    rw [shortest, if_neg h24, if_pos h.1, Width.info, decodeSimple, if_neg h32, simpleVal]
    all_goals omega

theorem decodeBytes_amid {majorType : Nat} {b : List UInt8} (h : b.length ≤ sizeMax - 4)
    (front back : List UInt8) :
    decodeBytes majorType b.length (InputBuf.amid front (b ++ back)) =
      (.ok (if majorType = MajorType.byteString.code then .byteString (ofBytes b)
        else .textString (ofBytes b)), InputBuf.amid (front ++ b) back) := by
  unfold decodeBytes
  rw [if_neg (Nat.not_lt.2 h), getUsefulBuf_amid]
  simp only [ofBytes, Option.isNone_some]
  split_ifs with hm <;> simp_all

theorem getNextItem_tag {t : Nat} (ht : t < 256 ^ 8) (front back : List UInt8) :
    getNextItem (InputBuf.amid front (head 6 t ++ back)) =
      (.ok (.optTag t), InputBuf.amid (front ++ head 6 t) back) := by
  unfold getNextItem
  rw [decodeTypeAndNumber_shortest (by decide) ht]
  simp only
  rw [if_neg (shortest_definite ht)]

theorem getNextItem_opening : ∀ {x : Item}, (∀ t y, x ≠ .tag t y) → Decodable x →
    ∀ front back, getNextItem (InputBuf.amid front (opening x ++ back)) =
      (.ok (valOf x), InputBuf.amid (front ++ opening x) back)
  | .uint n, _, h, front, back => by
    unfold getNextItem
    rw [opening, decodeTypeAndNumber_shortest (by decide) h]
    simp only
    rw [if_neg (shortest_definite h)]
    rfl
  | .nint n, _, h, front, back => by
    have hn : n ≤ int64Max := h
    have h64 : n < 256 ^ 8 := Nat.lt_of_le_of_lt hn (by decide)
    unfold getNextItem
    rw [opening, decodeTypeAndNumber_shortest (by decide) h64]
    simp only
    rw [if_neg (shortest_definite h64), decodeInteger, if_neg (by decide), if_pos hn, valOf]
  | .bytes b, _, h, front, back => by
    have h64 : b.length < 256 ^ 8 := Nat.lt_of_le_of_lt h (by decide)
    unfold getNextItem
    rw [opening, List.append_assoc, decodeTypeAndNumber_shortest (by decide) h64]
    simp only
    rw [if_neg (shortest_definite h64), decodeBytes_amid h, List.append_assoc]
    rfl
  | .text b, _, h, front, back => by
    have h64 : b.length < 256 ^ 8 := Nat.lt_of_le_of_lt h (by decide)
    unfold getNextItem
    rw [opening, List.append_assoc, decodeTypeAndNumber_shortest (by decide) h64]
    simp only
    rw [if_neg (shortest_definite h64), decodeBytes_amid h, List.append_assoc]
    rfl
  | .array xs, _, h, front, back => by
    have h64 : xs.length < 256 ^ 8 := Nat.lt_of_le_of_lt h.1 (by decide)
    unfold getNextItem
    rw [opening, decodeTypeAndNumber_shortest (by decide) h64]
    simp only
    rw [if_neg (Nat.not_lt.2 h.1), if_neg (shortest_definite h64)]
    rfl
  | .map kvs, _, h, front, back => by
    have h64 : kvs.length < 256 ^ 8 := Nat.lt_of_le_of_lt h.1 (by decide)
    unfold getNextItem
    rw [opening, decodeTypeAndNumber_shortest (by decide) h64]
    simp only
    rw [if_neg (Nat.not_lt.2 h.1), if_neg (shortest_definite h64)]
    rfl
  | .tag t y, hx, _, _, _ => absurd rfl (hx t y)
  | .simple v, _, h, front, back => by
    have h64 : v < 256 ^ 8 := Nat.lt_of_lt_of_le h.1 (by decide)
    unfold getNextItem
    rw [opening, decodeTypeAndNumber_shortest (by decide) h64]
    simp only
    rw [decodeSimple_eq h, valOf]
  | .float w bits, _, h, front, back => by
    unfold getNextItem
    rw [opening]
    obtain ⟨hw, hb⟩ := h
    cases w with
    | w0 => cases hw
    | w1 => cases hw
    | w2 => rw [decodeTypeAndNumber_head (w := .w2) (by decide) hb]; rfl
    | w4 => rw [decodeTypeAndNumber_head (w := .w4) (by decide) hb]; rfl
    | w8 => rw [decodeTypeAndNumber_head (w := .w8) (by decide) hb]; rfl

/-! ## Tags and labels -/

/-- The context that has read `front`. -/
def DecodeContext.amid (front back : List UInt8) (nesting : List DecodeNest) : DecodeContext :=
  ⟨InputBuf.amid front back, nesting, .normal⟩

/-- No tag, no break, no string of indefinite length. -/
def Val.isPlain : Val → Bool
  | .optTag _ => false
  | .simpleBreak => false
  | v => !v.isIndefiniteString

theorem Val.definite {v : Val} (h : v.isPlain = true) : v.isIndefiniteString = false := by
  cases v <;> first | rfl | simpa [Val.isPlain] using h

theorem Val.ne_break {v : Val} (h : v.isPlain = true) : v ≠ .simpleBreak := by
  intro hv
  rw [hv] at h
  cases h

theorem ofBytes_definite {b : List UInt8} (h : b.length ≤ sizeMax - 4) : (ofBytes b).len ≠ sizeMax := by
  have hmax : sizeMax = 2 ^ 32 - 1 := rfl
  simp only [ofBytes]
  omega

theorem valOf_plain : ∀ {x : Item}, Decodable x → (valOf x).isPlain = true
  | .uint n, _ => by
    unfold valOf
    split_ifs <;> rfl
  | .nint _, _ => rfl
  | .bytes _, h => by simpa [valOf, Val.isPlain, Val.isIndefiniteString] using ofBytes_definite h
  | .text _, h => by simpa [valOf, Val.isPlain, Val.isIndefiniteString] using ofBytes_definite h
  | .array _, _ => rfl
  | .map _, _ => rfl
  | .tag _ x, h => valOf_plain (x := x) h.2.2
  | .simple v, _ => by
    unfold valOf simpleVal
    split <;> rfl
  | .float _ _, _ => rfl

def tagsIn : Item → Nat
  | .tag _ x => tagsIn x + 1
  | _ => 0

theorem tagsIn_le : ∀ x, tagsIn x ≤ (opening x).length
  | .tag t x => by
    have hle := tagsIn_le x
    have hpos := length_head_pos 6 t
    rw [tagsIn, opening, List.length_append]
    omega
  | .uint _ => Nat.zero_le _
  | .nint _ => Nat.zero_le _
  | .bytes _ => Nat.zero_le _
  | .text _ => Nat.zero_le _
  | .array _ => Nat.zero_le _
  | .map _ => Nat.zero_le _
  | .simple _ => Nat.zero_le _
  | .float _ _ => Nat.zero_le _

theorem getNextFullItem_tag {t : Nat} (ht : t < 256 ^ 8) (front back : List UInt8)
    (nesting : List DecodeNest) :
    getNextFullItem (.amid front (head 6 t ++ back) nesting) =
      (.ok (.optTag t), .amid (front ++ head 6 t) back nesting) := by
  unfold getNextFullItem
  rw [DecodeContext.amid, getNextItem_tag ht]
  rfl

theorem getNextFullItem_opening {x : Item} (hx : ∀ t y, x ≠ .tag t y) (h : Decodable x)
    (front back : List UInt8) (nesting : List DecodeNest) :
    getNextFullItem (.amid front (opening x ++ back) nesting) =
      (.ok (valOf x), .amid (front ++ opening x) back nesting) := by
  unfold getNextFullItem
  rw [DecodeContext.amid, getNextItem_opening hx h]
  simp only
  rw [Val.definite (valOf_plain h)]
  rfl

theorem tag_or (x : Item) : (∃ t y, x = .tag t y) ∨ ∀ t y, x ≠ .tag t y := by
  cases x <;> simp

theorem bitsOf_untagged {x : Item} (hx : ∀ t y, x ≠ .tag t y) : bitsOf x = 0 := by
  unfold bitsOf
  split
  · exact absurd rfl (hx _ _)
  · rfl

theorem getNextTaggedItem_untagged {x : Item} (hx : ∀ t y, x ≠ .tag t y) (h : Decodable x)
    (fuel tagBits : Nat) (front back : List UInt8) (nesting : List DecodeNest) :
    getNextTaggedItem fuel tagBits (.amid front (opening x ++ back) nesting) =
      (.ok { val := valOf x, tagBits := tagBits ||| bitsOf x },
        .amid (front ++ opening x) back nesting) := by
  unfold getNextTaggedItem
  rw [getNextFullItem_opening hx h, bitsOf_untagged hx, Nat.or_zero]
  simp only
  split
  · rename_i t ht
    have hplain := valOf_plain h
    rw [ht] at hplain
    cases hplain
  · rfl

/-- Every tag takes one turn of the loop. -/
theorem getNextTaggedItem_opening (fuel : Nat) : ∀ {x : Item}, Decodable x → ∀ (tagBits : Nat)
    (front back : List UInt8) (nesting : List DecodeNest), tagsIn x ≤ fuel →
    getNextTaggedItem fuel tagBits (.amid front (opening x ++ back) nesting) =
      (.ok { val := valOf x, tagBits := tagBits ||| bitsOf x },
        .amid (front ++ opening x) back nesting) := by
  induction fuel with
  | zero =>
    intro x h tagBits front back nesting hf
    rcases tag_or x with ⟨t, y, rfl⟩ | hx
    · cases hf
    · exact getNextTaggedItem_untagged hx h _ _ _ _ _
  | succ fuel ih =>
    intro x h tagBits front back nesting hf
    rcases tag_or x with ⟨t, y, rfl⟩ | hx
    · unfold getNextTaggedItem
      rw [opening, List.append_assoc, getNextFullItem_tag h.1]
      simp only
      rw [ih h.2.2 _ _ _ _ (Nat.le_of_succ_le_succ hf), valOf, bitsOf, Nat.or_assoc,
        List.append_assoc]
    · exact getNextTaggedItem_untagged hx h _ _ _ _ _

/-- What stands before an item: in a map, its label. -/
inductive Entry (nesting : List DecodeNest) : Label → List UInt8 → Prop
  | plain (h : typeIsMap nesting = false) : Entry nesting .none []
  | labelled (h : typeIsMap nesting = true) {k : Item} (hk : IsLabel k) (hd : Decodable k) :
    Entry nesting (labelOf k) (encode k)

theorem labelOfVal_eq : ∀ {k : Item}, IsLabel k → labelOfVal .normal (valOf k) = .ok (labelOf k)
  | .uint n, _ => by
    unfold valOf labelOf
    split_ifs <;> rfl
  | .nint _, _ => rfl
  | .bytes _, _ => rfl
  | .text _, _ => rfl
  | .tag _ k, h => labelOfVal_eq (k := k) h

theorem bytesUnconsumed_amid (front back : List UInt8) :
    (InputBuf.amid front back).bytesUnconsumed = back.length := by
  rw [bytesUnconsumed_eq]
  simp [InputBuf.amid]

/-- The length of the input is enough for the tags. -/
theorem getNextTaggedItem_amid {x : Item} (h : Decodable x) (front back : List UInt8)
    (nesting : List DecodeNest) :
    getNextTaggedItem (DecodeContext.amid front (opening x ++ back) nesting).inBuf.bytesUnconsumed 0
        (.amid front (opening x ++ back) nesting) =
      (.ok { val := valOf x, tagBits := bitsOf x }, .amid (front ++ opening x) back nesting) := by
  have hle := tagsIn_le x
  rw [getNextTaggedItem_opening _ h, Nat.zero_or]
  rw [DecodeContext.amid, bytesUnconsumed_amid, List.length_append]
  omega

@[simp] theorem amid_nesting (front back : List UInt8) (nesting : List DecodeNest) :
    (DecodeContext.amid front back nesting).nesting = nesting := rfl

@[simp] theorem amid_mode (front back : List UInt8) (nesting : List DecodeNest) :
    (DecodeContext.amid front back nesting).decodeMode = .normal := rfl

theorem getNextMapEntry_opening {x : Item} (h : Decodable x) {nesting : List DecodeNest} {l : Label}
    {label : List UInt8} (hl : Entry nesting l label) (front back : List UInt8) :
    getNextMapEntry (.amid front (label ++ (opening x ++ back)) nesting) =
      (.ok { val := valOf x, label := l, tagBits := bitsOf x },
        .amid (front ++ (label ++ opening x)) back nesting) := by
  have hplain := Val.ne_break (valOf_plain h)
  cases hl with
  | plain hmap =>
    unfold getNextMapEntry
    rw [List.nil_append, getNextTaggedItem_amid h]
    simp [hplain, hmap]
  | @labelled hmap k hk hd =>
    have hbreak := Val.ne_break (valOf_plain hd)
    rw [← opening_label hk]
    unfold getNextMapEntry
    rw [getNextTaggedItem_amid hd]
    simp [hbreak, hmap, getNextTaggedItem_amid h, labelOfVal_eq hk]

/-! ## Levels -/

/-- Every open array or map says how many members are to come. -/
def Definite (nesting : List DecodeNest) : Prop :=
  ∀ n ∈ nesting, n.count ≠ 0 ∧ n.count ≤ qcborMaxItemsInArray

theorem definite_cons {m : MajorType} {c : Nat} {nesting : List DecodeNest} (h : Definite nesting)
    (hc : c + 1 ≤ qcborMaxItemsInArray) : Definite (⟨m, c + 1⟩ :: nesting) := by
  intro n hn
  rcases List.mem_cons.1 hn with rfl | hn
  · exact ⟨Nat.succ_ne_zero c, hc⟩
  · exact h n hn

theorem decrement_eq {m : MajorType} {c : Nat} (hc : c + 1 ≤ qcborMaxItemsInArray) :
    DecodeNest.decrement ⟨m, c + 1⟩ = ⟨m, c⟩ := by
  have hmax : qcborMaxItemsInArray = 65534 := rfl
  have huint : uint16Max = 65535 := rfl
  have hne : ¬ c + 1 = uint16Max := by omega
  have hmod : (c + 1 + uint16Max) % 2 ^ 16 = c := by omega
  unfold DecodeNest.decrement
  rw [if_neg hne, hmod]

theorem decrementCount_last (m : MajorType) (nesting : List DecodeNest) :
    decrementCount (⟨m, 1⟩ :: nesting) = decrementCount nesting := by
  rw [decrementCount, decrement_eq (by decide)]
  rfl

theorem decrementCount_more {m : MajorType} {c : Nat} (nesting : List DecodeNest)
    (hc : c + 2 ≤ qcborMaxItemsInArray) :
    decrementCount (⟨m, c + 2⟩ :: nesting) = ⟨m, c + 1⟩ :: nesting := by
  rw [decrementCount, decrement_eq hc]
  rfl

theorem Definite.decrementCount {nesting : List DecodeNest} (h : Definite nesting) :
    Definite (decrementCount nesting) := by
  induction nesting with
  | nil => exact h
  | cons n outer ih =>
    obtain ⟨hn, hc⟩ := h n (List.mem_cons_self ..)
    have houter : Definite outer := fun m hm => h m (List.mem_cons_of_mem _ hm)
    obtain ⟨m, c⟩ := n
    obtain ⟨d, rfl⟩ : ∃ d, c = d + 1 := ⟨c - 1, by simp only at hn; omega⟩
    simp only at hc
    cases d with
    | zero =>
      rw [decrementCount_last]
      exact ih houter
    | succ d =>
      rw [decrementCount_more outer hc]
      exact definite_cons houter (Nat.le_of_succ_le hc)

theorem Definite.not_indefinite {nesting : List DecodeNest} (h : Definite nesting) :
    isIndefiniteLength nesting = false := by
  cases nesting with
  | nil => rfl
  | cons n outer =>
    have hc := (h n (List.mem_cons_self ..)).2
    apply decide_eq_false
    simp only [qcborMaxItemsInArray] at hc
    simp only [uint16Max]
    omega

theorem Definite.entered : ∀ {x : Item}, Decodable x → ∀ {nesting : List DecodeNest},
    Definite nesting → Definite (entered nesting (valOf x))
  | .array [], _, _, h => h.decrementCount
  | .array (_ :: _), hx, _, h => definite_cons h hx.1
  | .map [], _, _, h => h.decrementCount
  | .map (_ :: _), hx, _, h => definite_cons h hx.1
  | .tag _ x, hx, _, h => Definite.entered (x := x) hx.2.2 h
  | .uint n, _, _, h => by
    unfold valOf
    split_ifs <;> exact h.decrementCount
  | .nint _, _, _, h => h.decrementCount
  | .bytes _, _, _, h => h.decrementCount
  | .text _, _, _, h => h.decrementCount
  | .simple v, _, _, h => by
    unfold valOf simpleVal
    split <;> exact h.decrementCount
  | .float _ _, _, _, h => h.decrementCount

theorem descend_eq {nesting : List DecodeNest} (m : MajorType) {c : Nat}
    (hc : c + 1 ≤ qcborMaxItemsInArray) (hdepth : nesting.length + 1 ≤ qcborMaxArrayNesting) :
    descend nesting m (c + 1) = .ok (⟨m, c + 1⟩ :: nesting) := by
  unfold descend
  rw [if_neg (Nat.succ_ne_zero c), if_neg (by omega), if_neg (by omega)]

theorem enter_eq : ∀ {x : Item}, Decodable x → ∀ {nesting : List DecodeNest},
    nesting.length + x.depth ≤ qcborMaxArrayNesting →
    enter nesting (valOf x) = .ok (entered nesting (valOf x))
  | .array [], _, _, _ => rfl
  | .array (_ :: _), hx, _, h => descend_eq .array hx.1 (by simp only [Item.depth] at h; omega)
  | .map [], _, _, _ => rfl
  | .map (_ :: _), hx, _, h => descend_eq .map hx.1 (by simp only [Item.depth] at h; omega)
  | .tag _ x, hx, _, h => enter_eq (x := x) hx.2.2 h
  | .uint n, _, _, _ => by
    unfold valOf
    split_ifs <;> rfl
  | .nint _, _, _, _ => rfl
  | .bytes _, _, _, _ => rfl
  | .text _, _, _, _ => rfl
  | .simple v, _, _, _ => by
    unfold valOf simpleVal
    split <;> rfl
  | .float _ _, _, _, _ => rfl

theorem opening_pos (x : Item) : 0 < (opening x).length := by
  cases x with
  | uint n => exact length_head_pos 0 n
  | nint n => exact length_head_pos 1 n
  | bytes b =>
    have hpos := length_head_pos 2 b.length
    rw [opening, List.length_append]
    omega
  | text b =>
    have hpos := length_head_pos 3 b.length
    rw [opening, List.length_append]
    omega
  | array xs => exact length_head_pos 4 xs.length
  | map kvs => exact length_head_pos 5 kvs.length
  | tag t x =>
    have hpos := length_head_pos 6 t
    rw [opening, List.length_append]
    omega
  | simple v => exact length_head_pos 7 v
  | float w bits =>
    rw [opening, length_headAs]
    omega

theorem getNextMapOrArray_opening {x : Item} (h : Decodable x) {nesting : List DecodeNest} {l : Label}
    {label : List UInt8} (hl : Entry nesting l label) (hn : Definite nesting)
    (hdepth : nesting.length + x.depth ≤ qcborMaxArrayNesting) (front back : List UInt8) :
    getNextMapOrArray (.amid front (label ++ (opening x ++ back)) nesting) =
      (.ok (visit l x nesting),
        .amid (front ++ (label ++ opening x)) back (entered nesting (valOf x))) := by
  have hpos := opening_pos x
  have hmore : (InputBuf.amid front (label ++ (opening x ++ back))).bytesUnconsumed ≠ 0 := by
    rw [bytesUnconsumed_amid, List.length_append, List.length_append]
    omega
  unfold getNextMapOrArray
  rw [if_neg (fun hz => hmore hz.1), getNextMapEntry_opening h hl]
  simp only [amid_nesting]
  rw [if_neg (Val.ne_break (valOf_plain h)), enter_eq h hdepth]
  simp only
  rw [(hn.entered h).not_indefinite]
  rfl

/-! ## Tags with a value of their own -/

theorem tagBit_low {t : Nat} (h : 6 ≤ t) : tagBit t &&& tagMapperFirstSix = 0 := by
  have hall : ∀ t ∈ builtInTagMap, 6 ≤ t → (1 <<< builtInTagMap.idxOf t) &&& tagMapperFirstSix = 0 := by
    decide
  unfold tagBit tagMapperLookupBuiltIn
  split_ifs with hbig hmem
  · exact Nat.zero_and _
  · exact hall t hmem h
  · exact Nat.zero_and _

theorem bitsOf_low : ∀ {x : Item}, Decodable x → bitsOf x &&& tagMapperFirstSix = 0
  | .tag t x, h => by
    rw [bitsOf, Nat.and_or_distrib_right, tagBit_low h.2.1, bitsOf_low h.2.2]
    rfl
  | .uint _, _ => Nat.zero_and _
  | .nint _, _ => Nat.zero_and _
  | .bytes _, _ => Nat.zero_and _
  | .text _, _ => Nat.zero_and _
  | .array _, _ => Nat.zero_and _
  | .map _, _ => Nat.zero_and _
  | .simple _, _ => Nat.zero_and _
  | .float _ _, _ => Nat.zero_and _

/-- One call reads what opens an item, after its label. -/
theorem getNext_opening {x : Item} (h : Decodable x) {nesting : List DecodeNest} {l : Label}
    {label : List UInt8} (hl : Entry nesting l label) (hn : Definite nesting)
    (hdepth : nesting.length + x.depth ≤ qcborMaxArrayNesting) (front back : List UInt8) :
    (DecodeContext.amid front (label ++ (opening x ++ back)) nesting).getNext =
      (.ok (visit l x nesting),
        .amid (front ++ (label ++ opening x)) back (entered nesting (valOf x))) := by
  unfold DecodeContext.getNext
  unfold getNextWithTags
  rw [getNextMapOrArray_opening h hl hn hdepth]
  simp only [visit]
  rw [bitsOf_low h]
  rfl

/-! ## Whole walks -/

/-- Calls from `me` to `me'` return `items`. -/
def Gets (me : DecodeContext) (items : List QcborItem) (me' : DecodeContext) : Prop :=
  me.run items.length = (items.map .ok, me')

namespace Gets

variable {me me₁ me₂ : DecodeContext} {i : QcborItem} {is js : List QcborItem}

theorem nil (me : DecodeContext) : Gets me [] me := rfl

theorem cons (h : me.getNext = (.ok i, me₁)) (h' : Gets me₁ is me₂) : Gets me (i :: is) me₂ := by
  rw [Gets, List.length_cons, DecodeContext.run, h]
  simp only
  rw [show me₁.run is.length = _ from h']
  rfl

theorem append (h : Gets me is me₁) (h' : Gets me₁ js me₂) : Gets me (is ++ js) me₂ := by
  induction is generalizing me with
  | nil =>
    have hme : me = me₁ := congrArg Prod.snd h
    rwa [hme]
  | cons i is ih =>
    rw [Gets, List.length_cons, DecodeContext.run] at h
    have hfst := congrArg Prod.fst h
    have hsnd := congrArg Prod.snd h
    simp only [List.map_cons, List.cons.injEq] at hfst hsnd
    exact cons (Prod.ext hfst.1 rfl) (ih (Prod.ext hfst.2 hsnd))

/-- The walk, and the call after it. -/
theorem ends (h : Gets me is me₁) {e : QcborError} (he : me₁.getNext = (.error e, me₂)) :
    me.run (is.length + 1) = (is.map .ok ++ [.error e], me₂) := by
  induction is generalizing me with
  | nil =>
    have hme : me = me₁ := congrArg Prod.snd h
    subst hme
    rw [List.length_nil, DecodeContext.run, he]
    rfl
  | cons i is ih =>
    rw [Gets, List.length_cons, DecodeContext.run] at h
    have hfst := congrArg Prod.fst h
    have hsnd := congrArg Prod.snd h
    simp only [List.map_cons, List.cons.injEq] at hfst hsnd
    rw [List.length_cons, DecodeContext.run]
    simp only
    rw [ih (Prod.ext hfst.2 hsnd), hfst.1]
    rfl

end Gets

/-- An item, once its members are known to be walked over. -/
theorem gets_item {x : Item} (h : Decodable x) {nesting : List DecodeNest} {l : Label}
    {label : List UInt8} (hl : Entry nesting l label) (hn : Definite nesting)
    (hdepth : nesting.length + x.depth ≤ qcborMaxArrayNesting) {front back : List UInt8}
    (hin : Gets (.amid (front ++ (label ++ opening x)) (members x ++ back) (entered nesting (valOf x)))
      (visitsIn x (entered nesting (valOf x)))
      (.amid (front ++ (label ++ opening x) ++ members x) back (decrementCount nesting))) :
    Gets (.amid front (label ++ (encode x ++ back)) nesting)
      (visit l x nesting :: visitsIn x (entered nesting (valOf x)))
      (.amid (front ++ (label ++ encode x)) back (decrementCount nesting)) := by
  have hfirst := getNext_opening h hl hn hdepth front (members x ++ back)
  have hgets := Gets.cons hfirst hin
  rw [encode_eq]
  simpa only [List.append_assoc] using hgets

mutual

/-- The walk over the members ends where the item does. -/
theorem gets_members : ∀ {x : Item}, Decodable x → ∀ {nesting : List DecodeNest}, Definite nesting →
    nesting.length + x.depth ≤ qcborMaxArrayNesting → ∀ front back,
    Gets (.amid front (members x ++ back) (entered nesting (valOf x)))
      (visitsIn x (entered nesting (valOf x)))
      (.amid (front ++ members x) back (decrementCount nesting))
  | .array [], _, nesting, _, _, front, back => by
    simpa [members, encodeAll, visitsIn, visitsAll, valOf, entered] using Gets.nil _
  | .array (x :: xs), h, nesting, hn, hdepth, front, back => by
    apply gets_all h.2 hn (Nat.succ_ne_zero _) h.1
    simp only [Item.depth] at hdepth
    omega
  | .map [], _, nesting, _, _, front, back => by
    simpa [members, encodePairs, visitsIn, visitsPairs, valOf, entered] using Gets.nil _
  | .map (kv :: kvs), h, nesting, hn, hdepth, front, back => by
    apply gets_pairs h.2 hn (Nat.succ_ne_zero _) h.1
    simp only [Item.depth] at hdepth
    omega
  | .tag _ x, h, nesting, hn, hdepth, front, back => gets_members (x := x) h.2.2 hn hdepth front back
  | .uint n, _, nesting, _, _, front, back => by
    have hval : entered nesting (valOf (.uint n)) = decrementCount nesting := by
      unfold valOf
      split_ifs <;> rfl
    simpa [members, visitsIn, hval] using Gets.nil _
  | .nint _, _, nesting, _, _, front, back => by
    simpa [members, visitsIn, valOf, entered] using Gets.nil _
  | .bytes _, _, nesting, _, _, front, back => by
    simpa [members, visitsIn, valOf, entered] using Gets.nil _
  | .text _, _, nesting, _, _, front, back => by
    simpa [members, visitsIn, valOf, entered] using Gets.nil _
  | .simple v, _, nesting, _, _, front, back => by
    have hval : entered nesting (valOf (.simple v)) = decrementCount nesting := by
      unfold valOf simpleVal
      split <;> rfl
    simpa [members, visitsIn, hval] using Gets.nil _
  | .float _ _, _, nesting, _, _, front, back => by
    simpa [members, visitsIn, valOf, entered] using Gets.nil _

theorem gets_all : ∀ {xs : List Item}, DecodableAll xs → ∀ {nesting : List DecodeNest},
    Definite nesting → xs.length ≠ 0 → xs.length ≤ qcborMaxItemsInArray →
    nesting.length + 1 + depthAll xs ≤ qcborMaxArrayNesting → ∀ front back : List UInt8,
    Gets (.amid front (encodeAll xs ++ back) (⟨.array, xs.length⟩ :: nesting))
      (visitsAll xs (⟨.array, xs.length⟩ :: nesting))
      (.amid (front ++ encodeAll xs) back (decrementCount nesting))
  | [], _, _, _, h0, _, _, _, _ => absurd rfl h0
  | [x], h, nesting, hn, _, hc, hdepth, front, back => by
    have hlast : Definite (⟨.array, 1⟩ :: nesting) := definite_cons hn (by decide)
    have hd : (⟨.array, 1⟩ :: nesting).length + x.depth ≤ qcborMaxArrayNesting := by
      simp only [depthAll] at hdepth
      simp only [List.length_cons]
      omega
    have hitem := gets_item h.1 (.plain rfl) hlast hd
      (gets_members h.1 hlast hd (front ++ ([] ++ opening x)) back)
    rw [decrementCount_last] at hitem
    simpa [encodeAll, visitsAll] using hitem
  | x :: y :: ys, h, nesting, hn, _, hc, hdepth, front, back => by
    have hmore : Definite (⟨.array, ys.length + 2⟩ :: nesting) := definite_cons hn hc
    have hd : (⟨.array, ys.length + 2⟩ :: nesting).length + x.depth ≤ qcborMaxArrayNesting := by
      simp only [depthAll] at hdepth
      simp only [List.length_cons]
      omega
    have hitem := gets_item h.1 (.plain rfl) hmore hd
      (gets_members h.1 hmore hd (front ++ ([] ++ opening x)) (encodeAll (y :: ys) ++ back))
    have hys : DecodableAll (y :: ys) := h.2
    have hrest := gets_all hys hn (Nat.succ_ne_zero _) (Nat.le_of_succ_le hc)
      (by simp only [depthAll] at hdepth ⊢; omega) (front ++ encode x) back
    rw [decrementCount_more nesting hc] at hitem
    have hall := hitem.append hrest
    rw [encodeAll, visitsAll, List.append_assoc, ← List.append_assoc, List.length_cons,
      List.length_cons, decrementCount_more nesting hc]
    simpa using hall

theorem gets_pairs : ∀ {kvs : List (Item × Item)}, DecodablePairs kvs →
    ∀ {nesting : List DecodeNest}, Definite nesting → kvs.length ≠ 0 →
    kvs.length ≤ qcborMaxItemsInArray →
    nesting.length + 1 + depthPairs kvs ≤ qcborMaxArrayNesting → ∀ front back : List UInt8,
    Gets (.amid front (encodePairs kvs ++ back) (⟨.map, kvs.length⟩ :: nesting))
      (visitsPairs kvs (⟨.map, kvs.length⟩ :: nesting))
      (.amid (front ++ encodePairs kvs) back (decrementCount nesting))
  | [], _, _, _, h0, _, _, _, _ => absurd rfl h0
  | [(k, v)], h, nesting, hn, _, hc, hdepth, front, back => by
    obtain ⟨hk, hkd, hv, _⟩ := h
    have hlast : Definite (⟨.map, 1⟩ :: nesting) := definite_cons hn (by decide)
    have hd : (⟨.map, 1⟩ :: nesting).length + v.depth ≤ qcborMaxArrayNesting := by
      simp only [depthPairs] at hdepth
      simp only [List.length_cons]
      omega
    have hitem := gets_item hv (.labelled rfl hk hkd) hlast hd
      (gets_members hv hlast hd (front ++ (encode k ++ opening v)) back)
    rw [decrementCount_last] at hitem
    simpa [encodePairs, visitsPairs] using hitem
  | (k, v) :: kv :: kvs, h, nesting, hn, _, hc, hdepth, front, back => by
    obtain ⟨hk, hkd, hv, hrest⟩ := h
    have hmore : Definite (⟨.map, kvs.length + 2⟩ :: nesting) := definite_cons hn hc
    have hd : (⟨.map, kvs.length + 2⟩ :: nesting).length + v.depth ≤ qcborMaxArrayNesting := by
      simp only [depthPairs] at hdepth
      simp only [List.length_cons]
      omega
    have hitem := gets_item hv (.labelled rfl hk hkd) hmore hd
      (gets_members hv hmore hd (front ++ (encode k ++ opening v)) (encodePairs (kv :: kvs) ++ back))
    have hkvs : DecodablePairs (kv :: kvs) := hrest
    have htail := gets_pairs hkvs hn (Nat.succ_ne_zero _) (Nat.le_of_succ_le hc)
      (by simp only [depthPairs] at hdepth ⊢; omega) (front ++ (encode k ++ encode v)) back
    rw [decrementCount_more nesting hc] at hitem
    have hall := hitem.append htail
    rw [encodePairs, visitsPairs, List.length_cons, List.length_cons, decrementCount_more nesting hc]
    simpa using hall

end

/-! ## Round trip -/

theorem getNext_end (bs : List UInt8) :
    (DecodeContext.amid bs [] []).getNext = (.error .noMoreItems, .amid bs [] []) := by
  have hend : (InputBuf.amid bs []).bytesUnconsumed = 0 := by
    rw [bytesUnconsumed_amid]
    rfl
  unfold DecodeContext.getNext getNextWithTags getNextMapOrArray
  rw [if_pos ⟨hend, rfl⟩]

theorem finish_end (bs : List UInt8) : (DecodeContext.amid bs [] []).finish = .success := by
  have hend : (InputBuf.amid bs []).bytesUnconsumed = 0 := by
    rw [bytesUnconsumed_amid]
    rfl
  unfold DecodeContext.finish
  rw [amid_nesting, if_neg (fun hne => hne rfl), if_neg (fun hne => hne hend)]

theorem run_encode {x : Item} (h : Decodable x) (hdepth : x.depth ≤ qcborMaxArrayNesting) :
    (decodeInit (encode x) .normal).run ((visits x).length + 1) =
      ((visits x).map .ok ++ [.error .noMoreItems], .amid (encode x) [] []) := by
  have hnil : Definite [] := fun n hn => by cases hn
  have hd : ([] : List DecodeNest).length + x.depth ≤ qcborMaxArrayNesting := by
    rw [List.length_nil]
    omega
  have hwalk := gets_item h (.plain rfl) hnil hd
    (gets_members h hnil hd ([] ++ ([] ++ opening x)) [])
  have hends := hwalk.ends (getNext_end _)
  simp only [List.nil_append, List.append_nil] at hends
  exact hends

theorem contents_resultOf (mem b : List UInt8) : (resultOf (some mem) b).contents = b := by
  simp [resultOf, UsefulBufC.contents]

/-- **What the encoder wrote for a tree, the decoder walks over**, and then there is nothing more. -/
theorem decode_encode (x : Item) (henc : Encodable x) (hdec : Decodable x)
    (hdepth : x.depth ≤ qcborMaxArrayNesting) (mem : List UInt8)
    (hfits : (encode x).length ≤ mem.length) (hoff : (encode x).length < qcborMaxArrayOffset) :
    ∃ out, ((encodeInit (some mem) mem.length).run (callsOf x)).finish = (.success, some out) ∧
      ((decodeInit out.contents .normal).run ((visits x).length + 1)).1 =
        (visits x).map .ok ++ [.error .noMoreItems] ∧
      ((decodeInit out.contents .normal).run ((visits x).length + 1)).2.finish = .success := by
  have hfin := (writes_item x henc).finish hdepth hoff (some mem) mem.length
    (fun m hm => by cases hm; rfl) (readable_item (some mem) x)
  rw [if_neg (Nat.not_lt.2 hfits)] at hfin
  refine ⟨resultOf (some mem) (encode x), hfin, ?_⟩
  rw [contents_resultOf, run_encode hdec hdepth]
  exact ⟨rfl, finish_end _⟩

/-- A tagged array of a map and a text: the walk goes down, up and out. -/
theorem decode_encode_tagged :
    ∃ out, ((encodeInit (some (List.replicate 12 0)) 12).run
        (callsOf (.tag 18 (.array [.map [(.uint 4, .bytes [1, 2])], .text [0x61]])))).finish =
          (.success, some out) ∧
      ((decodeInit out.contents .normal).run 5).1 =
        [.ok ⟨.array 2, 0, 1, .none, 256⟩, .ok ⟨.map 1, 1, 2, .none, 0⟩,
          .ok ⟨.byteString (ofBytes [1, 2]), 2, 1, .int64 4, 0⟩,
          .ok ⟨.textString (ofBytes [0x61]), 1, 0, .none, 0⟩, .error .noMoreItems] ∧
      ((decodeInit out.contents .normal).run 5).2.finish = .success :=
  decode_encode (.tag 18 (.array [.map [(.uint 4, .bytes [1, 2])], .text [0x61]]))
    (by simp [Encodable, EncodableAll, EncodablePairs, qcborMaxItemsInArray])
    (by simp [Decodable, DecodableAll, DecodablePairs, IsLabel, qcborMaxItemsInArray, sizeMax])
    (by decide) (List.replicate 12 0) (by decide) (by decide)

end Tfm.L3.Qcbor
