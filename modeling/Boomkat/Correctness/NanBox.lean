import Boomkat.Values.TaggedUnion
import Boomkat.Correctness.JsonNumber

/-! The NaN-boxed value as a faithful representation: what was stored is decoded again, one kind
fits, and the build with a tagged union gives the same answers except for one marker.
-/

namespace Boomkat.Correctness
open Machine

-----------------------------------------------------------------------------------------
-- The two fields of a box
-----------------------------------------------------------------------------------------

theorem payloadMask_eq : nanboxPayloadMask = BitVec.ofNat 64 (2 ^ 48 - 1) := rfl

theorem toNat_payload (v : TVal) : (nanboxGetPayload v).toNat = v.toNat % 2 ^ 48 := by
  rw [nanboxGetPayload, payloadMask_eq, BitVec.toNat_and, BitVec.toNat_ofNat,
    Nat.mod_eq_of_lt (by decide), Nat.and_two_pow_sub_one_eq_mod]

theorem toNat_tag (v : TVal) : (nanboxGetTag v).toNat = v.toNat / 2 ^ 48 := by
  rw [nanboxGetTag, BitVec.toNat_ushiftRight, Nat.shiftRight_eq_div_pow]

/-- A tag of 16 bits over the low 48 bits of a payload. -/
theorem toNat_encode {tag : BitVec 64} (small : tag.toNat < 2 ^ 16) (payload : BitVec 64)
    : (nanboxEncodeTagged tag payload).toNat = tag.toNat * 2 ^ 48 + payload.toNat % 2 ^ 48 := by
  have low := toNat_payload payload
  rw [nanboxGetPayload] at low
  rw [nanboxEncodeTagged, BitVec.toNat_or, low, BitVec.toNat_shiftLeft,
    Nat.mod_eq_of_lt (by rw [Nat.shiftLeft_eq]; omega),
    ← Nat.shiftLeft_add_eq_or_of_lt (Nat.mod_lt _ (by decide)), Nat.shiftLeft_eq]

theorem tag_encode {tag : BitVec 64} (small : tag.toNat < 2 ^ 16) (payload : BitVec 64)
    : nanboxGetTag (nanboxEncodeTagged tag payload) = tag := by
  rw [← BitVec.toNat_inj, toNat_tag, toNat_encode small]
  omega

theorem payload_encode {tag : BitVec 64} (small : tag.toNat < 2 ^ 16) (payload : BitVec 64)
    : (nanboxGetPayload (nanboxEncodeTagged tag payload)).toNat = payload.toNat % 2 ^ 48 := by
  rw [toNat_payload, toNat_encode small]
  omega

/-- A comparison with all bits is one with both fields. -/
theorem beq_shifted {tag : BitVec 64} (small : tag.toNat < 2 ^ 16) (v : TVal)
    : (v == tag <<< 48) = (nanboxGetTag v == tag && nanboxGetPayload v == 0) := by
  have shifted : (tag <<< 48).toNat = tag.toNat * 2 ^ 48 := by
    rw [BitVec.toNat_shiftLeft, Nat.shiftLeft_eq, Nat.mod_eq_of_lt (by omega)]
  have bound := v.isLt
  rw [Bool.eq_iff_iff, Bool.and_eq_true, beq_iff_eq, beq_iff_eq, beq_iff_eq,
    ← BitVec.toNat_inj, ← BitVec.toNat_inj, ← BitVec.toNat_inj, toNat_tag, toNat_payload,
    shifted]
  change _ ↔ _ ∧ _ = 0
  omega

theorem setFastint_encoded (n : Int)
    : TVal.setFastint n = nanboxEncodeTagged (tagBits .fastint) (BitVec.ofInt 64 n) := by
  rw [← BitVec.toNat_inj, toNat_encode (by decide), TVal.setFastint, BitVec.toNat_ofNat,
    BitVec.toNat_ofInt]
  change _ = 0xFFF1 * 2 ^ 48 + _
  simp only [tagFastint]
  omega

-----------------------------------------------------------------------------------------
-- Kinds and predicates
-----------------------------------------------------------------------------------------

/-- The kinds of values, with the marker of a binding that is not initialized. -/
inductive Kind where
  | undefined | null | deleted | boolean | number | fastint | string | object | buffer
  | pointer | lightfunc | bigint | tdzSentinel
  deriving DecidableEq

/-- The predicates on values: one for each kind, and three for several kinds. -/
inductive Predicate where
  | kind (kind : Kind)
  | nullish | numeric | heapAllocated

def Kind.onBox : Kind → TVal → Bool
  | undefined => TVal.isUndefined
  | null => TVal.isNull
  | deleted => TVal.isDeleted
  | boolean => TVal.isBoolean
  | number => TVal.isNumber
  | fastint => TVal.isFastint
  | string => TVal.isString
  | object => TVal.isObject
  | buffer => TVal.isBuffer
  | pointer => TVal.isPointer
  | lightfunc => TVal.isLightfunc
  | bigint => TVal.isBigint
  | tdzSentinel => TVal.isTdzSentinel

def Kind.onUnion : Kind → TaggedUnion → Bool
  | undefined => TaggedUnion.isUndefined
  | null => TaggedUnion.isNull
  | deleted => TaggedUnion.isDeleted
  | boolean => TaggedUnion.isBoolean
  | number => TaggedUnion.isNumber
  | fastint => TaggedUnion.isFastint
  | string => TaggedUnion.isString
  | object => TaggedUnion.isObject
  | buffer => TaggedUnion.isBuffer
  | pointer => TaggedUnion.isPointer
  | lightfunc => TaggedUnion.isLightfunc
  | bigint => TaggedUnion.isBigint
  | tdzSentinel => TaggedUnion.isTdzSentinel

def Predicate.onBox : Predicate → TVal → Bool
  | kind k => k.onBox
  | nullish => TVal.isNullish
  | numeric => TVal.isNumeric
  | heapAllocated => TVal.isHeapAllocated

def Predicate.onUnion : Predicate → TaggedUnion → Bool
  | kind k => k.onUnion
  | nullish => TaggedUnion.isNullish
  | numeric => TaggedUnion.isNumeric
  | heapAllocated => TaggedUnion.isHeapAllocated

/-- The predicates of one kind, on the two fields of a box. -/
def Kind.onFields (tag : BitVec 64) (bare : Bool) : Kind → Bool
  | undefined => tag == tagBits .undefined && bare
  | null => tag == tagBits .nullVal && bare
  | deleted => tag == tagBits .deleted && bare
  | boolean => tag == tagBits .boolean
  | number => decide (tag ≤ tagBits .number)
  | fastint => tag == tagBits .fastint
  | string => tag == tagBits .string
  | object => tag == tagBits .object
  | buffer => tag == tagBits .buffer
  | pointer => tag == tagBits .pointer
  | lightfunc => tag == tagBits .lightfunc
  | bigint => tag == tagBits .bigint
  | tdzSentinel => !decide (tag ≤ tagBits .number) && tag == tagBits .undefined && !bare

theorem isFastint_tag (v : TVal) : v.isFastint = (nanboxGetTag v == tagBits .fastint) := by
  rw [TVal.isFastint, Bool.eq_iff_iff, beq_iff_eq, beq_iff_eq, ← BitVec.toNat_inj, toNat_tag]
  exact Iff.rfl

theorem Kind.onBox_fields (k : Kind) (v : TVal)
    : k.onBox v = k.onFields (nanboxGetTag v) (nanboxGetPayload v == 0) := by
  cases k with
  | undefined | null | deleted => exact beq_shifted (by decide) v
  | fastint => exact isFastint_tag v
  | _ => rfl

/-- A box with no tag is a number and nothing else. -/
theorem Kind.onFields_double {tag : BitVec 64} (double : tag ≤ tagBits .number) (bare : Bool)
    (k : Kind)
    : k.onFields tag bare = decide (k = .number) := by
  have other {c : BitVec 64} (above : ¬c ≤ tagBits .number) : (tag == c) = false :=
    beq_eq_false_iff_ne.mpr fun same => above (same ▸ double)
  cases k <;> simp only [Kind.onFields, double, decide_true, Bool.not_true, Bool.false_and] <;>
    first
    | rfl
    | rw [other (by decide)]; rfl

/-- The predicates for several kinds are unions of those for one. -/
theorem isNullish_kinds (v : TVal) : v.isNullish = (v.isUndefined || v.isNull) := by
  have undefinedFields := Kind.onBox_fields .undefined v
  have nullFields := Kind.onBox_fields .null v
  simp only [Kind.onBox, Kind.onFields] at undefinedFields nullFields
  rw [undefinedFields, nullFields]
  change (decide (tagBits .undefined ≤ nanboxGetTag v)
    && decide (nanboxGetTag v ≤ tagBits .nullVal) && nanboxGetPayload v == 0) = _
  generalize nanboxGetTag v = tag
  cases nanboxGetPayload v == 0 with
  | false => simp
  | true =>
      simp only [Bool.and_true]
      rw [Bool.eq_iff_iff]
      simp only [Bool.and_eq_true, Bool.or_eq_true, decide_eq_true_eq, beq_iff_eq,
        BitVec.le_def, ← BitVec.toNat_inj]
      change 0xFFF3 ≤ tag.toNat ∧ tag.toNat ≤ 0xFFF4 ↔ tag.toNat = 0xFFF3 ∨ tag.toNat = 0xFFF4
      omega

theorem isNumeric_kinds (v : TVal) : v.isNumeric = (v.isNumber || v.isFastint) := by
  rw [isFastint_tag]
  change decide (nanboxGetTag v ≤ tagBits .fastint)
    = (decide (nanboxGetTag v ≤ tagBits .number) || _)
  generalize nanboxGetTag v = tag
  rw [Bool.eq_iff_iff]
  simp only [Bool.or_eq_true, decide_eq_true_eq, beq_iff_eq, BitVec.le_def, ← BitVec.toNat_inj]
  change tag.toNat ≤ 0xFFF1 ↔ tag.toNat ≤ 0xFFF0 ∨ tag.toNat = 0xFFF1
  omega

theorem isHeapAllocated_kinds (v : TVal)
    : v.isHeapAllocated = (v.isString || v.isObject || v.isBuffer || v.isBigint) := by
  change (decide (tagBits .string ≤ nanboxGetTag v) && decide (nanboxGetTag v ≤ tagBits .buffer)
      || nanboxGetTag v == tagBits .bigint)
    = (nanboxGetTag v == tagBits .string || nanboxGetTag v == tagBits .object
      || nanboxGetTag v == tagBits .buffer || nanboxGetTag v == tagBits .bigint)
  generalize nanboxGetTag v = tag
  rw [Bool.eq_iff_iff]
  simp only [Bool.and_eq_true, Bool.or_eq_true, decide_eq_true_eq, beq_iff_eq, BitVec.le_def,
    ← BitVec.toNat_inj]
  change (0xFFF8 ≤ tag.toNat ∧ tag.toNat ≤ 0xFFFA) ∨ tag.toNat = 0xFFF2
    ↔ ((tag.toNat = 0xFFF8 ∨ tag.toNat = 0xFFF9) ∨ tag.toNat = 0xFFFA) ∨ tag.toNat = 0xFFF2
  omega

/-- The test of two values in one branch is two tests. -/
theorem bothFastint_kinds (b c : TVal)
    : TVal.bothFastint b c = (b.isFastint && c.isFastint) := by
  have field (v : TVal)
      : (v ^^^ (tagBits .fastint <<< 48)) >>> 48 = nanboxGetTag v ^^^ tagBits .fastint := by
    rw [BitVec.ushiftRight_xor_distrib]
    rfl
  rw [TVal.bothFastint, BitVec.ushiftRight_or_distrib, field, field, isFastint_tag,
    isFastint_tag, Bool.eq_iff_iff, Bool.and_eq_true, beq_iff_eq, beq_iff_eq, beq_iff_eq]
  change _ = 0#64 ↔ _
  rw [BitVec.or_eq_zero_iff, BitVec.xor_eq_zero_iff, BitVec.xor_eq_zero_iff]

-----------------------------------------------------------------------------------------
-- The kind of a store
-----------------------------------------------------------------------------------------

def pointerKind : PointerKind → Kind
  | .string => .string
  | .object => .object
  | .buffer => .buffer
  | .pointer => .pointer
  | .lightfunc => .lightfunc
  | .bigint => .bigint

/-- An integer of 64 bits that is stored as one of 48. -/
def Fits48 (val : BitVec 64) : Prop := fastintMin ≤ val.toInt ∧ val.toInt ≤ fastintMax

instance (val : BitVec 64) : Decidable (Fits48 val) := inferInstanceAs (Decidable (_ ∧ _))

theorem store_fits {val : BitVec 64} (fits : Fits48 val)
    : TVal.store (.fastintOrNumber val) = TVal.setFastint val.toInt :=
  if_pos fits

theorem store_wide {val : BitVec 64} (wide : ¬Fits48 val)
    : TVal.store (.fastintOrNumber val) = TVal.setNumber (Double.ofInt val.toInt) :=
  if_neg wide

theorem union_fits {val : BitVec 64} (fits : Fits48 val)
    : TaggedUnion.store (.fastintOrNumber val) = ⟨.fastint, .fastint val.toInt⟩ :=
  if_pos fits

theorem union_wide {val : BitVec 64} (wide : ¬Fits48 val)
    : TaggedUnion.store (.fastintOrNumber val) = ⟨.number, .number (Double.ofInt val.toInt)⟩ :=
  if_neg wide

/-- The kind of the value after a store. -/
def storedKind : Store → Kind
  | .undefined => .undefined
  | .deleted => .deleted
  | .null => .null
  | .boolean _ => .boolean
  | .number _ => .number
  | .fastint _ => .fastint
  | .fastintOrNumber val => if Fits48 val then .fastint else .number
  | .pointer kind _ => pointerKind kind
  | .tdzSentinel => .tdzSentinel

theorem setFastint_kind (n : Int) (k : Kind)
    : k.onBox (TVal.setFastint n) = decide (k = .fastint) := by
  rw [Kind.onBox_fields, setFastint_encoded, tag_encode (by decide)]
  cases k <;> rfl

theorem setNumber_tag (d : Double) : nanboxGetTag (TVal.setNumber d) ≤ tagBits .number := by
  rw [BitVec.le_def, toNat_tag]
  change _ ≤ 0xFFF0
  unfold TVal.setNumber
  split
  · decide
  · rename_i untagged
    simp only [tagFastint] at untagged
    omega

theorem setNumber_kind (d : Double) (k : Kind)
    : k.onBox (TVal.setNumber d) = decide (k = .number) := by
  rw [Kind.onBox_fields, Kind.onFields_double (setNumber_tag d)]

theorem setPointer_kind (kind : PointerKind) (ptr : BitVec 64) (k : Kind)
    : k.onBox (TVal.setPointer kind ptr) = decide (k = pointerKind kind) := by
  rw [Kind.onBox_fields, TVal.setPointer, tag_encode (by cases kind <;> decide)]
  cases kind <;> cases k <;> rfl

/-- After a store, exactly the predicate of its kind holds. -/
theorem store_kind (s : Store) (k : Kind)
    : k.onBox (TVal.store s) = decide (k = storedKind s) := by
  cases s with
  | undefined | deleted | null | tdzSentinel => cases k <;> rfl
  | boolean val => cases val <;> cases k <;> rfl
  | number val => exact setNumber_kind val k
  | fastint val => exact setFastint_kind val.val k
  | fastintOrNumber val =>
      by_cases fits : Fits48 val
      · rw [store_fits fits, storedKind, if_pos fits]
        exact setFastint_kind val.toInt k
      · rw [store_wide fits, storedKind, if_neg fits]
        exact setNumber_kind _ k
  | pointer kind ptr => exact setPointer_kind kind _ k

/-- In the build with a tagged union, undefined also takes in the marker. -/
theorem union_kind (s : Store) (k : Kind)
    : k.onUnion (TaggedUnion.store s)
      = (decide (k = storedKind s) || (decide (k = .undefined) && decide (s = .tdzSentinel))) := by
  cases s with
  | undefined | deleted | null | tdzSentinel => cases k <;> rfl
  | boolean val => cases k <;> rfl
  | number val => cases k <;> rfl
  | fastint val => cases k <;> rfl
  | fastintOrNumber val =>
      by_cases fits : Fits48 val
      · rw [union_fits fits, storedKind, if_pos fits]
        cases k <;> rfl
      · rw [union_wide fits, storedKind, if_neg fits]
        cases k <;> rfl
  | pointer kind ptr => cases kind <;> cases k <;> rfl

-----------------------------------------------------------------------------------------
-- Getters
-----------------------------------------------------------------------------------------

/-- Two doubles are the same number; all NaNs are one. -/
def SameNumber (x y : Double) : Prop := x = y ∨ x.isNan = true ∧ y.isNan = true

theorem SameNumber.refl (x : Double) : SameNumber x x := .inl rfl

theorem setNumber_same (d : Double) : SameNumber (TVal.setNumber d) d := by
  cases number : d.isNan with
  | false => exact .inl (setNumber_number number).1
  | true =>
      unfold TVal.setNumber
      split
      · exact .inr ⟨by decide, number⟩
      · exact .inr ⟨number, number⟩

theorem setNumber_notFastint (d : Double) : (TVal.setNumber d).isFastint = false := by
  have kind := setNumber_kind d .fastint
  exact kind

theorem getHeapptr_setPointer (kind : PointerKind) (ptr : BitVec 48)
    : (TVal.setPointer kind (ptr.setWidth 64)).getHeapptr = ptr.setWidth 64 := by
  have bound := ptr.isLt
  rw [← BitVec.toNat_inj, TVal.getHeapptr, TVal.setPointer,
    payload_encode (by cases kind <;> decide), BitVec.toNat_setWidth]
  omega

/-- The tag is the one of the kind, which is undefined for the marker. -/
def Kind.tag : Kind → TValTag
  | undefined | tdzSentinel => .undefined
  | null => .nullVal
  | deleted => .deleted
  | boolean => .boolean
  | number => .number
  | fastint => .fastint
  | string => .string
  | object => .object
  | buffer => .buffer
  | pointer => .pointer
  | lightfunc => .lightfunc
  | bigint => .bigint

theorem getTag_of_tag {v : TVal} {tag : TValTag} (bits : nanboxGetTag v = tagBits tag)
    : v.getTag = tag := by
  have double : nanboxIsDouble v = decide (tagBits tag ≤ tagBits .number) := by
    rw [← bits]
    rfl
  unfold TVal.getTag
  rw [double, bits]
  cases tag <;> rfl

theorem getTag_setNumber (d : Double) : (TVal.setNumber d).getTag = .number := by
  have double := setNumber_kind d .number
  exact if_pos double

theorem getTag_setFastint (n : Int) : (TVal.setFastint n).getTag = .fastint := by
  refine getTag_of_tag ?_
  rw [setFastint_encoded, tag_encode (by decide)]

theorem store_getTag (s : Store) : (TVal.store s).getTag = (storedKind s).tag := by
  cases s with
  | undefined | deleted | null | tdzSentinel => rfl
  | boolean val => cases val <;> rfl
  | number val => exact getTag_setNumber val
  | fastint val => exact getTag_setFastint val.val
  | fastintOrNumber val =>
      by_cases fits : Fits48 val
      · rw [store_fits fits, storedKind, if_pos fits]
        exact getTag_setFastint val.toInt
      · rw [store_wide fits, storedKind, if_neg fits]
        exact getTag_setNumber _
  | pointer kind ptr =>
      have bits : nanboxGetTag (TVal.store (.pointer kind ptr)) = tagBits kind.tag :=
        tag_encode (by cases kind <;> decide) _
      rw [getTag_of_tag bits]
      cases kind <;> rfl

theorem union_getTag (s : Store) : (TaggedUnion.store s).getTag = (storedKind s).tag := by
  cases s with
  | fastintOrNumber val =>
      by_cases fits : Fits48 val
      · rw [union_fits fits, storedKind, if_pos fits]
        rfl
      · rw [union_wide fits, storedKind, if_neg fits]
        rfl
  | pointer kind ptr => cases kind <;> rfl
  | _ => rfl

-----------------------------------------------------------------------------------------
-- Faithful values
-----------------------------------------------------------------------------------------

/-- The getter of a kind gives back what was stored. -/
def Decodes : Store → TVal → Prop
  | .undefined, v => v.isUndefined = true
  | .deleted, v => v.isDeleted = true
  | .null, v => v.isNull = true
  | .boolean val, v => v.isBoolean = true ∧ v.getBoolean = val
  | .number val, v => v.isNumber = true ∧ SameNumber v.getNumber val
  | .fastint val, v => v.isFastint = true ∧ v.getFastint = val
  | .fastintOrNumber val, v =>
      if Fits48 val then v.isFastint = true ∧ v.getFastint = val.toInt
      else v.isNumber = true ∧ SameNumber v.getNumber (Double.ofInt val.toInt)
  | .pointer kind ptr, v =>
      (pointerKind kind).onBox v = true ∧ v.getHeapptr = ptr.setWidth 64
  | .tdzSentinel, v => v.isTdzSentinel = true

/-- The two builds answer alike. A getter of the tagged union has an answer when it reads the
member that was written.
-/
structure Agree (boxed : TVal) (union : TaggedUnion) : Prop where
  predicate : ∀ p : Predicate, p.onBox boxed = p.onUnion union
  tag : boxed.getTag = union.getTag
  boolean : ∀ val, union.getBoolean = some val → boxed.getBoolean = val
  number : ∀ val, union.getNumber = some val → SameNumber boxed.getNumber val
  fastint : ∀ val, union.getFastint = some val → boxed.getFastint = val
  heapptr : ∀ ptr, union.getHeapptr = some ptr → boxed.getHeapptr = ptr
  numberOrFastint
    : ∀ val, union.getNumberOrFastint = some val → SameNumber boxed.getNumberOrFastint val

theorem getFastint_stored (val : Fastint) : (TVal.setFastint val.val).getFastint = val.val :=
  (getFastint_eq_iff val.val).mpr val.property

theorem store_decodes (s : Store) : Decodes s (TVal.store s) := by
  have kind : (storedKind s).onBox (TVal.store s) = true := by
    rw [store_kind]
    exact decide_eq_true rfl
  cases s with
  | undefined | deleted | null | tdzSentinel => exact kind
  | boolean val => exact ⟨kind, by cases val <;> rfl⟩
  | number val => exact ⟨kind, setNumber_same val⟩
  | fastint val => exact ⟨kind, getFastint_stored val⟩
  | fastintOrNumber val =>
      simp only [Decodes]
      by_cases fits : Fits48 val
      · rw [if_pos fits]
        rw [storedKind, if_pos fits] at kind
        refine ⟨kind, ?_⟩
        rw [store_fits fits]
        exact (getFastint_eq_iff val.toInt).mpr fits
      · rw [if_neg fits]
        rw [storedKind, if_neg fits] at kind
        refine ⟨kind, ?_⟩
        rw [store_wide fits]
        exact setNumber_same _
  | pointer kind' ptr => exact ⟨kind, getHeapptr_setPointer kind' ptr⟩

/-- Both builds classify every store alike, but for the marker. -/
theorem kind_agrees {s : Store} (real : s ≠ .tdzSentinel) (k : Kind)
    : k.onBox (TVal.store s) = k.onUnion (TaggedUnion.store s) := by
  rw [store_kind, union_kind, decide_eq_false real, Bool.and_false, Bool.or_false]

theorem predicate_agrees {s : Store} (real : s ≠ .tdzSentinel) (p : Predicate)
    : p.onBox (TVal.store s) = p.onUnion (TaggedUnion.store s) := by
  have agrees := kind_agrees real
  cases p with
  | kind k => exact agrees k
  | nullish =>
      refine (isNullish_kinds _).trans ?_
      exact congrArg₂ or (agrees .undefined) (agrees .null)
  | numeric =>
      refine (isNumeric_kinds _).trans ?_
      exact congrArg₂ or (agrees .number) (agrees .fastint)
  | heapAllocated =>
      refine (isHeapAllocated_kinds _).trans ?_
      exact congrArg₂ or (congrArg₂ or (congrArg₂ or (agrees .string) (agrees .object))
        (agrees .buffer)) (agrees .bigint)

theorem getNumberOrFastint_setFastint {n : Int} (fits : fastintMin ≤ n ∧ n ≤ fastintMax)
    : (TVal.setFastint n).getNumberOrFastint = Double.ofInt n := by
  have kind : (TVal.setFastint n).isFastint = true := (getFastint_setFastint n).1
  rw [TVal.getNumberOrFastint, if_pos kind, (getFastint_eq_iff n).mpr fits]

theorem getNumberOrFastint_setNumber (d : Double)
    : SameNumber (TVal.setNumber d).getNumberOrFastint d := by
  have kind := setNumber_notFastint d
  rw [TVal.getNumberOrFastint, if_neg (by simp [kind])]
  exact setNumber_same d

/-- The answers of the getters after a store of an integer. -/
theorem agree_fastint {n : Int} (fits : fastintMin ≤ n ∧ n ≤ fastintMax)
    (predicate
      : ∀ p : Predicate,
        p.onBox (TVal.setFastint n) = p.onUnion ⟨.fastint, .fastint n⟩)
    : Agree (TVal.setFastint n) ⟨.fastint, .fastint n⟩ where
  predicate := predicate
  tag := getTag_setFastint n
  boolean := nofun
  number := nofun
  fastint := by
    rintro val ⟨⟩
    exact (getFastint_eq_iff n).mpr fits
  heapptr := nofun
  numberOrFastint := by
    rintro val ⟨⟩
    rw [getNumberOrFastint_setFastint fits]
    exact .refl _

theorem agree_number (d : Double)
    (predicate
      : ∀ p : Predicate,
        p.onBox (TVal.setNumber d) = p.onUnion ⟨.number, .number d⟩)
    : Agree (TVal.setNumber d) ⟨.number, .number d⟩ where
  predicate := predicate
  tag := getTag_setNumber d
  boolean := nofun
  number := by
    rintro val ⟨⟩
    exact setNumber_same d
  fastint := nofun
  heapptr := nofun
  numberOrFastint := by
    rintro val ⟨⟩
    exact getNumberOrFastint_setNumber d

theorem store_agrees {s : Store} (real : s ≠ .tdzSentinel)
    : Agree (TVal.store s) (TaggedUnion.store s) := by
  have predicate := predicate_agrees real
  have tag := (store_getTag s).trans (union_getTag s).symm
  cases s with
  | tdzSentinel => exact absurd rfl real
  | undefined | deleted | null =>
      refine ⟨predicate, tag, nofun, nofun, nofun, ?_, nofun⟩
      rintro ptr ⟨⟩
      rfl
  | boolean val =>
      refine ⟨predicate, tag, ?_, nofun, nofun, nofun, nofun⟩
      rintro b ⟨⟩
      cases val <;> rfl
  | number val => exact agree_number val predicate
  | fastint val => exact agree_fastint val.property predicate
  | fastintOrNumber val =>
      by_cases fits : Fits48 val
      · rw [store_fits fits, union_fits fits] at predicate ⊢
        exact agree_fastint fits predicate
      · rw [store_wide fits, union_wide fits] at predicate ⊢
        exact agree_number _ predicate
  | pointer kind ptr =>
      refine ⟨predicate, tag, nofun, nofun, nofun, ?_, ?_⟩
      · rintro p ⟨⟩
        exact getHeapptr_setPointer kind ptr
      · intro val read
        have unread
            : (TaggedUnion.store (.pointer kind ptr)).getNumberOrFastint = none := by
          cases kind <;> rfl
        exact absurd (unread.symm.trans read) nofun

-----------------------------------------------------------------------------------------
-- Sequences of stores
-----------------------------------------------------------------------------------------

/-- The box after stores into zeroed memory. -/
def boxedAfter (stores : List Store) : TVal := stores.foldl (fun _ s => TVal.store s) 0

/-- The tagged union after the same stores. -/
def unionAfter (stores : List Store) : TaggedUnion :=
  stores.foldl (fun _ s => TaggedUnion.store s) ⟨.undefined, .pointer 0⟩

theorem boxedAfter_append (stores : List Store) (last : Store)
    : boxedAfter (stores ++ [last]) = TVal.store last := by
  rw [boxedAfter, List.foldl_append]
  rfl

theorem unionAfter_append (stores : List Store) (last : Store)
    : unionAfter (stores ++ [last]) = TaggedUnion.store last := by
  rw [unionAfter, List.foldl_append]
  rfl

/-- The tests of two values at once agree in the two builds, for all values. -/
theorem pair_agrees (s s' : Store)
    : TVal.bothFastint (TVal.store s) (TVal.store s')
        = TaggedUnion.bothFastint (TaggedUnion.store s) (TaggedUnion.store s')
      ∧ TVal.eitherHeapAllocated (TVal.store s) (TVal.store s')
        = TaggedUnion.eitherHeapAllocated (TaggedUnion.store s) (TaggedUnion.store s') := by
  have fastint (s : Store)
      : (TVal.store s).isFastint = (TaggedUnion.store s).isFastint := by
    refine (store_kind s .fastint).trans ((union_kind s .fastint).trans ?_).symm
    exact Bool.or_false _
  have heap (s : Store)
      : (TVal.store s).isHeapAllocated = (TaggedUnion.store s).isHeapAllocated := by
    by_cases real : s = .tdzSentinel
    · subst real
      rfl
    · exact predicate_agrees real .heapAllocated
  constructor
  · rw [bothFastint_kinds, fastint, fastint]
    rfl
  · exact congrArg₂ or (heap s) (heap s')

/-- What a value is to do after stores: decode the last one, be of one kind, and answer as the
tagged union does, also in the tests of two values.
-/
structure Represented (stores : List Store) (last : Store) : Prop where
  decodes : Decodes last (boxedAfter (stores ++ [last]))
  oneKind : ∃! k : Kind, k.onBox (boxedAfter (stores ++ [last])) = true
  agree : Agree (boxedAfter (stores ++ [last])) (unionAfter (stores ++ [last]))
  pairs
    : ∀ (others : List Store) (other : Store),
      TVal.bothFastint (boxedAfter (stores ++ [last])) (boxedAfter (others ++ [other]))
          = TaggedUnion.bothFastint (unionAfter (stores ++ [last]))
            (unionAfter (others ++ [other]))
        ∧ TVal.eitherHeapAllocated (boxedAfter (stores ++ [last]))
            (boxedAfter (others ++ [other]))
          = TaggedUnion.eitherHeapAllocated (unionAfter (stores ++ [last]))
            (unionAfter (others ++ [other]))

/-- Every box decodes what was stored last and is of exactly one kind. The two builds agree on it
exactly if that is not the marker of an uninitialized binding, which the build with a tagged
union takes for undefined.
-/
theorem nanBox_faithful_iff (stores : List Store) (last : Store)
    : (Decodes last (boxedAfter (stores ++ [last]))
        ∧ ∃! k : Kind, k.onBox (boxedAfter (stores ++ [last])) = true)
      ∧ (Represented stores last ↔ last ≠ .tdzSentinel) := by
  have decodes : Decodes last (boxedAfter (stores ++ [last])) := by
    rw [boxedAfter_append]
    exact store_decodes last
  have oneKind : ∃! k : Kind, k.onBox (boxedAfter (stores ++ [last])) = true := by
    rw [boxedAfter_append]
    refine ⟨storedKind last, ?_, fun k holds => ?_⟩
    · exact (store_kind last _).trans (decide_eq_true rfl)
    · exact of_decide_eq_true ((store_kind last k).symm.trans holds)
  refine ⟨⟨decodes, oneKind⟩, fun faithful marker => ?_, fun real => ?_⟩
  · subst marker
    have agree := faithful.agree.predicate (.kind .undefined)
    rw [boxedAfter_append, unionAfter_append] at agree
    exact absurd agree (by decide)
  · refine ⟨decodes, oneKind, ?_, fun others other => ?_⟩
    · rw [boxedAfter_append, unionAfter_append]
      exact store_agrees real
    · rw [boxedAfter_append, unionAfter_append, boxedAfter_append, unionAfter_append]
      exact pair_agrees last other

/-- The marker of an uninitialized binding is neither undefined nor nullish in a box, and both
in a tagged union.
-/
theorem tdzSentinel_disagrees
    : ((TVal.store .tdzSentinel).isUndefined, (TVal.store .tdzSentinel).isNullish)
        = (false, false)
      ∧ ((TaggedUnion.store .tdzSentinel).isUndefined,
          (TaggedUnion.store .tdzSentinel).isNullish)
        = (true, true)
      ∧ ¬Agree (boxedAfter [.tdzSentinel]) (unionAfter [.tdzSentinel]) := by
  refine ⟨by decide, by decide, fun agree => ?_⟩
  exact absurd (agree.predicate (.kind .undefined)) (by decide)

end Boomkat.Correctness
