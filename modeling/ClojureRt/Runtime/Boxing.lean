import ClojureRt.Lib.TaggedWords

/-!
# Values in words

`RTValue.h` puts a double, an `int32_t`, a truth value, a keyword, a pointer,
nil and the null marker into one word.  The tags are those of the NaNs that no
operation yields, and every NaN is to be made the same one first.  It is
recognised by `d != d`, which the default build folds away.

A double is given by its bits.
-/

namespace ClojureRt
namespace Runtime
namespace Boxing

open TaggedWords

/-- `RTValue`, a word. -/
abbrev RTValue := BitVec 64

/-! ## `RTValue.h` -/

/-- `RT_TAG_MASK` -/
def tagMask : RTValue := 0xFFFF000000000000#64

/-- `RT_TAG_DOUBLE_START` -/
def tagDoubleStart : RTValue := 0xFFF1000000000000#64

/-- `RT_TAG_INT32` -/
def tagInt32 : RTValue := 0xFFFF000000000000#64

/-- `RT_TAG_PTR` -/
def tagPtr : RTValue := 0xFFFE000000000000#64

/-- `RT_TAG_BOOL` -/
def tagBool : RTValue := 0xFFFD000000000000#64

/-- `RT_TAG_KEYWORD` -/
def tagKeyword : RTValue := 0xFFFB000000000000#64

/-- `RT_TAG_NULL` -/
def tagNull : RTValue := 0xFFF9000000000000#64

/-- `RT_TAG_NIL` -/
def tagNil : RTValue := 0xFFFC000000000000#64

/-- `RT_isDouble`: doubles are the words below the tags. -/
def isDouble (v : RTValue) : Bool := decide (v < tagDoubleStart)

/-- `RT_isInt32` -/
def isInt32 (v : RTValue) : Bool := v &&& tagMask == tagInt32

/-- `RT_isPtr` -/
def isPtr (v : RTValue) : Bool := v &&& tagMask == tagPtr

/-- `RT_isBool` -/
def isBool (v : RTValue) : Bool := v &&& tagMask == tagBool

/-- `RT_isNil`, a comparison of whole words. -/
def isNil (v : RTValue) : Bool := v == tagNil

/-- `RT_isKeyword` -/
def isKeyword (v : RTValue) : Bool := v &&& tagMask == tagKeyword

/-- `RT_isNull`, a comparison of whole words. -/
def isNull (v : RTValue) : Bool := v == tagNull

/-- A NaN: all bits of the exponent are set, and one of the fraction. -/
def isNaN (d : BitVec 64) : Bool :=
  d.extractLsb' 52 11 == 0x7FF#11 && d.extractLsb' 0 52 != 0#52

/-- The quiet NaN that stands for all of them. -/
def canonicalNaN : BitVec 64 := 0x7FF8000000000000#64

/-- `CMAKE_BUILD_TYPE`.  If none is given the type is `Release`. -/
inductive BuildType
  | debug
  | release
  | relWithDebInfo
  | minSizeRel
  deriving DecidableEq

/-- `-Ofast`, which `Release` alone is compiled with, has the compiler assume
that no double is a NaN. -/
def BuildType.finiteMath : BuildType → Bool
  | release => true
  | _ => false

/-- `d != d`, as it is compiled. -/
def differsFromItself (build : BuildType) (d : BitVec 64) : Bool :=
  !build.finiteMath && isNaN d

/-- `RT_boxPtr` -/
def boxPtr (p : BitVec 64) : RTValue := p ||| tagPtr

/-- `RT_boxDouble` -/
def boxDouble (build : BuildType) (d : BitVec 64) : RTValue :=
  if differsFromItself build d then canonicalNaN else d

/-- `RT_boxInt32` -/
def boxInt32 (i : BitVec 32) : RTValue := i.setWidth 64 ||| tagInt32

/-- `RT_boxBool` -/
def boxBool (b : Bool) : RTValue := (if b then 1#64 else 0#64) ||| tagBool

/-- `RT_boxNil` -/
def boxNil : RTValue := tagNil

/-- `RT_boxNull` -/
def boxNull : RTValue := tagNull

/-- `RT_boxKeyword` -/
def boxKeyword (id : BitVec 32) : RTValue := id.setWidth 64 ||| tagKeyword

/-- `RT_unboxDouble`: the word itself. -/
def unboxDouble (v : RTValue) : BitVec 64 := v

/-- `RT_unboxInt32` -/
def unboxInt32 (v : RTValue) : BitVec 32 := (v &&& 0xFFFFFFFF#64).setWidth 32

/-- `RT_unboxPtr` -/
def unboxPtr (v : RTValue) : BitVec 64 := v &&& ~~~tagMask

/-- `RT_unboxBool`.  A conversion to `bool` compares with 0. -/
def unboxBool (v : RTValue) : Bool := v &&& 1#64 != 0#64

/-- `RT_unboxKeyword` -/
def unboxKeyword (v : RTValue) : BitVec 32 := (v &&& 0xFFFFFFFF#64).setWidth 32

/-- `getType`, with the type in the header of an object. -/
def getType (typeAt : BitVec 64 → Nat) (v : RTValue) : Nat :=
  if tagDoubleStart ≤ v then
    let tag := (v >>> 48).setWidth 16
    if tag ≠ (tagPtr >>> 48).setWidth 16 then (tag &&& 0xF#16).toNat
    else typeAt (unboxPtr v)
  else 2

/-! ## Tests of the tag -/

/-- The mask is that of the upper 16 bits. -/
theorem tagMask_eq : tagMask = TaggedWords.tagMask 64 48 := by decide

/-- The test for a tag. -/
theorem and_tagMask_beq_iff
    (tag : Nat)
    (fits : tag < 2 ^ 16)
    (v : RTValue) : (v &&& tagMask == tagWord 64 48 tag) = true ↔
    tagOf 48 v = tag := by
  rw [beq_iff_eq, tagMask_eq]
  apply and_tagMask_eq_iff
  omega

/-- The tag of ints. -/
theorem isInt32_iff (v : RTValue) : isInt32 v = true ↔ tagOf 48 v = 0xFFFF :=
  and_tagMask_beq_iff 0xFFFF (by decide) v

/-- The tag of pointers. -/
theorem isPtr_iff (v : RTValue) : isPtr v = true ↔ tagOf 48 v = 0xFFFE :=
  and_tagMask_beq_iff 0xFFFE (by decide) v

/-- The tag of booleans. -/
theorem isBool_iff (v : RTValue) : isBool v = true ↔ tagOf 48 v = 0xFFFD :=
  and_tagMask_beq_iff 0xFFFD (by decide) v

/-- The tag of keywords. -/
theorem isKeyword_iff (v : RTValue) : isKeyword v = true ↔
    tagOf 48 v = 0xFFFB :=
  and_tagMask_beq_iff 0xFFFB (by decide) v

/-- Nil is one word. -/
theorem isNil_iff (v : RTValue) : isNil v = true ↔ v = tagNil := beq_iff_eq

/-- Null is one word. -/
theorem isNull_iff (v : RTValue) : isNull v = true ↔ v = tagNull := beq_iff_eq

/-- All smaller tags belong to doubles. -/
theorem isDouble_iff (v : RTValue) : isDouble v = true ↔
    tagOf 48 v < 0xFFF1 := by
  have start : tagDoubleStart.toNat = 0xFFF1 * 2 ^ 48 := rfl
  rw [isDouble, decide_eq_true_iff, BitVec.lt_def, start, tagOf,
    Nat.div_lt_iff_lt_mul (by decide)]

/-! ## What is boxed -/

/-- A double with every NaN made the same one. -/
def canonicalDouble (d : BitVec 64) : BitVec 64 :=
  if isNaN d then canonicalNaN else d

/-- A pointer whose upper bits are zero. -/
structure Pointer where
  bits : BitVec 64
  small : bits.toNat < 2 ^ 48

/-- What has a word of its own. -/
inductive Boxable
  | double (d : BitVec 64)
  | int32 (i : BitVec 32)
  | bool (b : Bool)
  | keyword (id : BitVec 32)
  | ptr (p : Pointer)
  | nil
  | null

/-- What the tests tell apart. -/
inductive Kind
  | double
  | int32
  | bool
  | keyword
  | ptr
  | nil
  | null
  deriving DecidableEq

namespace Kind

/-- The test for a kind. -/
def test : Kind → RTValue → Bool
  | double => isDouble
  | int32 => isInt32
  | bool => isBool
  | keyword => isKeyword
  | ptr => isPtr
  | nil => isNil
  | null => isNull

/-- The upper bits of the words of a kind. -/
def HasTag : Kind → Nat → Prop
  | double, tag => tag < 0xFFF1
  | int32, tag => tag = 0xFFFF
  | bool, tag => tag = 0xFFFD
  | keyword, tag => tag = 0xFFFB
  | ptr, tag => tag = 0xFFFE
  | nil, tag => tag = 0xFFFC
  | null, tag => tag = 0xFFF9

/-- The `objectType` of the values of a kind, other than pointers. -/
def type : Kind → Nat
  | double => 2
  | int32 => 15
  | bool => 13
  | keyword => 11
  | ptr => 14
  | nil => 12
  | null => 9

/-- No tag belongs to two kinds. -/
theorem HasTag.unique
    {first second : Kind}
    {tag : Nat}
    (isFirst : first.HasTag tag)
    (isSecond : second.HasTag tag) : first = second := by
  cases first <;> cases second <;>
    simp only [HasTag] at isFirst isSecond <;> first | rfl | omega

end Kind

namespace Boxable

/-- The kind of a value. -/
def kind : Boxable → Kind
  | double _ => .double
  | int32 _ => .int32
  | bool _ => .bool
  | keyword _ => .keyword
  | ptr _ => .ptr
  | nil => .nil
  | null => .null

/-- The word of a value. -/
def box (build : BuildType) : Boxable → RTValue
  | double d => boxDouble build d
  | int32 i => boxInt32 i
  | bool b => boxBool b
  | keyword id => boxKeyword id
  | ptr p => boxPtr p.bits
  | nil => boxNil
  | null => boxNull

/-- What comes back: there is only one NaN. -/
def canonical : Boxable → Boxable
  | double d => double (canonicalDouble d)
  | value => value

/-- A build that assumes that there are no NaNs has none boxed but the canonical
one. -/
def Kept (build : BuildType) : Boxable → Prop
  | double d => build.finiteMath = true → isNaN d = true → d = canonicalNaN
  | _ => True

end Boxable

/-! ## Words and their kinds -/

/-- The tag of a small payload. -/
theorem tagOf_or
    (tag : Nat)
    (fits : tag < 2 ^ 16)
    {payload : RTValue}
    (small : payload.toNat < 2 ^ 48) :
    tagOf 48 (payload ||| tagWord 64 48 tag) = tag := by
  apply tagOf_or_tagWord _ small
  omega

/-- A payload of 32 bits is small. -/
theorem toNat_setWidth_lt (payload : BitVec 32) :
    (payload.setWidth 64).toNat < 2 ^ 48 := by
  have small := payload.isLt
  rw [BitVec.toNat_setWidth]
  omega

/-- A boolean is a small payload. -/
theorem toNat_bool_lt
    (b : Bool) : (if b then 1#64 else 0#64).toNat < 2 ^ 48 := by
  cases b <;> decide

/-- A double that is a number is below the tags, and so is the canonical NaN. -/
theorem tagOf_canonicalDouble (d : BitVec 64) : tagOf 48
    (canonicalDouble d) < 0xFFF1 := by
  unfold canonicalDouble
  cases isNumber : isNaN d with
  | true =>
      rw [if_pos rfl]
      decide
  | false =>
      rw [if_neg Bool.false_ne_true]
      by_contra tagged
      have inRange := d.isLt
      have bits : d.extractLsb' 52 11 = 0x7FF#11 ∧
          d.extractLsb' 0 52 ≠ 0#52 := by
        unfold tagOf at tagged
        constructor
        · apply BitVec.eq_of_toNat_eq
          rw [BitVec.extractLsb'_toNat, Nat.shiftRight_eq_div_pow,
            BitVec.toNat_ofNat]
          omega
        · intro noFraction
          have zero := congrArg BitVec.toNat noFraction
          rw [BitVec.extractLsb'_toNat, Nat.shiftRight_zero,
            BitVec.toNat_ofNat] at zero
          omega
      simp [isNaN, bits.1, bits.2] at isNumber

/-- A canonical double is boxed as it is, whatever is assumed. -/
theorem boxDouble_canonicalDouble (build : BuildType) (d : BitVec 64) :
    boxDouble build (canonicalDouble d) = canonicalDouble d := by
  unfold boxDouble canonicalDouble
  cases isNumber : isNaN d with
  | true => exact ite_self _
  | false => simp [differsFromItself, isNumber]

/-- A word is the bits of the double where a comparison with itself is folded
away. -/
theorem boxDouble_of_finiteMath
    {build : BuildType}
    (folded : build.finiteMath = true)
    (d : BitVec 64) : boxDouble build d = d := by
  simp [boxDouble, differsFromItself, folded]

namespace Boxable

variable {build : BuildType} {value : Boxable}

/-- Exactly what is kept has the word of what comes back. -/
theorem box_eq_canonical_iff : value.box build = value.canonical.box build ↔
    value.Kept build := by
  cases value with
  | double d =>
      rw [canonical, box, box, boxDouble_canonicalDouble]
      unfold Kept boxDouble canonicalDouble differsFromItself
      cases build.finiteMath <;> cases isNumber : isNaN d <;> simp [isNumber]
  | _ => exact iff_of_true rfl trivial

/-- The word of a value that is kept has the tag of its kind. -/
theorem hasTag_box (kept : value.Kept build) : value.kind.HasTag
    (tagOf 48 (value.box build)) := by
  rw [box_eq_canonical_iff.mpr kept]
  cases value with
  | double d =>
      rw [canonical, box, boxDouble_canonicalDouble]
      exact tagOf_canonicalDouble d
  | int32 i => exact tagOf_or 0xFFFF (by decide) (toNat_setWidth_lt i)
  | bool b => exact tagOf_or 0xFFFD (by decide) (toNat_bool_lt b)
  | keyword id => exact tagOf_or 0xFFFB (by decide) (toNat_setWidth_lt id)
  | ptr p => exact tagOf_or 0xFFFE (by decide) p.small
  | nil => exact (rfl : tagOf 48 tagNil = 0xFFFC)
  | null => exact (rfl : tagOf 48 tagNull = 0xFFF9)

end Boxable

/-- A word that passes the test of a kind has its tag. -/
theorem Kind.hasTag_of_test {kind : Kind} {v : RTValue}
    (passes : kind.test v = true) :
    kind.HasTag (tagOf 48 v) := by
  cases kind with
  | double => exact (isDouble_iff v).mp passes
  | int32 => exact (isInt32_iff v).mp passes
  | bool => exact (isBool_iff v).mp passes
  | keyword => exact (isKeyword_iff v).mp passes
  | ptr => exact (isPtr_iff v).mp passes
  | nil =>
      rw [(isNil_iff v).mp passes]
      rfl
  | null =>
      rw [(isNull_iff v).mp passes]
      rfl

/-- A word passes the test of the kind that it was boxed from, and no other
one. -/
theorem Boxable.test_box_iff
    {build : BuildType}
    {value : Boxable}
    (kept : value.Kept build)
    (kind : Kind) : kind.test (value.box build) = true ↔ kind = value.kind := by
  have hasTag := hasTag_box kept
  constructor
  · intro passes
    exact (Kind.hasTag_of_test passes).unique hasTag
  · rintro rfl
    cases value with
    | double d => exact (isDouble_iff _).mpr hasTag
    | int32 i => exact (isInt32_iff _).mpr hasTag
    | bool b => exact (isBool_iff _).mpr hasTag
    | keyword id => exact (isKeyword_iff _).mpr hasTag
    | ptr p => exact (isPtr_iff _).mpr hasTag
    | nil => rfl
    | null => rfl

/-- The type of a word that is no pointer stands in its tag. -/
theorem getType_of_tag
    {typeAt : BitVec 64 → Nat}
    {v : RTValue}
    {tag : Nat}
    (isTag : tagOf 48 v = tag)
    (tagged : 0xFFF1 ≤ tag)
    (notPointer : tag ≠ 0xFFFE) : getType typeAt v = tag % 16 := by
  have start : tagDoubleStart ≤ v := by
    have startNat : tagDoubleStart.toNat = 0xFFF1 * 2 ^ 48 := rfl
    rw [BitVec.le_def, startNat]
    unfold tagOf at isTag
    omega
  have tagNat : ((v >>> 48).setWidth 16).toNat = tag := by
    have inRange := v.isLt
    rw [BitVec.toNat_setWidth, BitVec.toNat_ushiftRight,
      Nat.shiftRight_eq_div_pow]
    unfold tagOf at isTag
    omega
  have different : (v >>> 48).setWidth 16 ≠ (tagPtr >>> 48).setWidth 16 := by
    intro same
    apply notPointer
    rw [← tagNat, same]
    rfl
  rw [getType, if_pos start, if_pos different, BitVec.toNat_and, tagNat]
  exact Nat.and_two_pow_sub_one_eq_mod tag 4

/-- The type of a word is that of the value that it was boxed from. -/
theorem Boxable.getType_box
    (typeAt : BitVec 64 → Nat)
    {build : BuildType}
    {value : Boxable}
    (kept : value.Kept build)
    (notPointer : value.kind ≠ .ptr) :
    getType typeAt (value.box build) = value.kind.type := by
  have hasTag := hasTag_box kept
  cases value with
  | double d =>
      have below : ¬ tagDoubleStart ≤ boxDouble build d := by
        have isDouble := (isDouble_iff _).mpr hasTag
        rwa [Boxing.isDouble, decide_eq_true_iff, ← BitVec.not_le] at isDouble
      exact if_neg below
  | int32 i => exact getType_of_tag hasTag (by decide) (by decide)
  | bool b => exact getType_of_tag hasTag (by decide) (by decide)
  | keyword id => exact getType_of_tag hasTag (by decide) (by decide)
  | ptr p => exact absurd rfl notPointer
  | nil => exact getType_of_tag hasTag (by decide) (by decide)
  | null => exact getType_of_tag hasTag (by decide) (by decide)

/-! ## Unboxing -/

/-- The number of the word for a pointer. -/
theorem toNat_boxPtr (p : Pointer) :
    (boxPtr p.bits).toNat = p.bits.toNat + 0xFFFE * 2 ^ 48 := by
  have fits : 0xFFFE * 2 ^ 48 < 2 ^ 64 := by decide
  exact toNat_or_tagWord fits p.small

/-- The payload of 32 bits comes back. -/
theorem setWidth_and_or_tagWord
    (tag : Nat)
    (fits : tag < 2 ^ 16)
    (payload : BitVec 32) :
    ((payload.setWidth 64 ||| tagWord 64 48 tag) &&& 0xFFFFFFFF#64).setWidth
    32 = payload := by
  apply BitVec.eq_of_toNat_eq
  have mask : (0xFFFFFFFF#64).toNat = 2 ^ 32 - 1 := rfl
  have small := payload.isLt
  rw [BitVec.toNat_setWidth, BitVec.toNat_and, mask,
    Nat.and_two_pow_sub_one_eq_mod,
    toNat_or_tagWord (by omega) (toNat_setWidth_lt payload),
    BitVec.toNat_setWidth]
  omega

/-- A boolean comes back. -/
theorem unboxBool_boxBool (b : Bool) : unboxBool (boxBool b) = b := by
  cases b <;> decide

/-- The lower 48 bits of the word. -/
theorem toNat_unboxPtr
    (v : RTValue) : (unboxPtr v).toNat = v.toNat % 2 ^ 48 := by
  rw [unboxPtr, tagMask_eq, toNat_and_not_tagMask (by decide)]

/-- A pointer comes back. -/
theorem unboxPtr_boxPtr (p : Pointer) : unboxPtr (boxPtr p.bits) = p.bits := by
  have small := p.small
  apply BitVec.eq_of_toNat_eq
  rw [toNat_unboxPtr, toNat_boxPtr]
  omega

/-- The type of a pointer is that of its object. -/
theorem getType_boxPtr
    (typeAt : BitVec 64 → Nat)
    (p : Pointer) : getType typeAt (boxPtr p.bits) = typeAt p.bits := by
  have small := p.small
  have asNat := toNat_boxPtr p
  have start : tagDoubleStart ≤ boxPtr p.bits := by
    have startNat : tagDoubleStart.toNat = 0xFFF1 * 2 ^ 48 := rfl
    rw [BitVec.le_def, startNat]
    omega
  have isTag : (boxPtr p.bits >>> 48).setWidth 16 = (tagPtr >>> 48).setWidth
      16 := by
    have tagNat : ((tagPtr >>> 48).setWidth 16).toNat = 0xFFFE := rfl
    apply BitVec.eq_of_toNat_eq
    rw [tagNat, BitVec.toNat_setWidth, BitVec.toNat_ushiftRight,
      Nat.shiftRight_eq_div_pow]
    omega
  rw [getType, if_pos start, if_neg (not_not_intro isTag), unboxPtr_boxPtr]

/-- The value of a kind that a word stands for. -/
def Kind.unbox : Kind → RTValue → Boxable
  | double, v => .double (unboxDouble v)
  | int32, v => .int32 (unboxInt32 v)
  | bool, v => .bool (unboxBool v)
  | keyword, v => .keyword (unboxKeyword v)
  | ptr, v => .ptr ⟨unboxPtr v, toNat_unboxPtr v ▸ Nat.mod_lt _ (by decide)⟩
  | nil, _ => .nil
  | null, _ => .null

/-- What is kept comes back. -/
theorem Boxable.unbox_box
    {build : BuildType}
    {value : Boxable}
    (kept : value.Kept build) :
    value.kind.unbox (value.box build) = value.canonical := by
  rw [box_eq_canonical_iff.mpr kept]
  cases value with
  | double d => exact congrArg double (boxDouble_canonicalDouble build d)
  | int32 i =>
      exact congrArg int32 (setWidth_and_or_tagWord 0xFFFF (by decide) i)
  | bool b => exact congrArg bool (unboxBool_boxBool b)
  | keyword id =>
      exact congrArg keyword (setWidth_and_or_tagWord 0xFFFB (by decide) id)
  | ptr p =>
      apply congrArg ptr
      rw [Pointer.mk.injEq]
      exact unboxPtr_boxPtr p
  | nil => rfl
  | null => rfl

/-- What comes back under a word is kept only if the word is that of the
canonical value. -/
theorem Boxable.kept_of_unbox_box
    {build : BuildType}
    {value : Boxable}
    (comesBack : value.kind.unbox (value.box build) = value.canonical) :
    value.Kept build := by
  cases value with
  | double d =>
      apply box_eq_canonical_iff.mp
      rw [canonical, box, box, boxDouble_canonicalDouble]
      exact (Boxable.double.injEq _ _).mp comesBack
  | _ => trivial

/-- Values that are kept and share a word are the same, up to NaNs. -/
theorem Boxable.eq_of_box_eq
    {build : BuildType}
    {first second : Boxable}
    (firstKept : first.Kept build)
    (secondKept : second.Kept build)
    (same : first.box build = second.box build) :
    first.kind = second.kind ∧ first.canonical = second.canonical := by
  have sameKind : first.kind = second.kind := by
    rw [← test_box_iff secondKept, ← same, test_box_iff firstKept]
  refine ⟨sameKind, ?_⟩
  rw [← unbox_box firstKept, sameKind, same, unbox_box secondKept]

end Boxing
end Runtime
end ClojureRt
