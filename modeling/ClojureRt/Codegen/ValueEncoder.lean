import ClojureRt.Codegen.CallableInvoke
import ClojureRt.Runtime.Boxing

/-!
# Boxing in emitted code

`ValueEncoder` emits the instructions that put a value into a word, take it out
again and test what it is.  They compute the words and the answers of
`RTValue.h`, but that emitted code does make all NaNs the same one.  Where the
type of a value is known no test is emitted.
-/

namespace ClojureRt
namespace Codegen

open ClojureRt.Runtime.Boxing
  (RTValue Boxable BuildType Kind canonicalDouble canonicalNaN isNaN tagMask
    tagDoubleStart tagInt32 tagPtr tagBool tagKeyword tagNil)

namespace ValueEncoder

/-! ## Emitted code -/

/-- A value that emitted code computes with.  Doubles are given by their
bits. -/
inductive Operand
  | i1 (b : Bool)
  | i32 (word : BitVec 32)
  | i64 (word : BitVec 64)
  | double (d : BitVec 64)
  | ptr (p : BitVec 64)
  deriving DecidableEq

/-- `llvm::Value`, as far as it is emitted here: what the encoder is given,
constants and instructions. -/
inductive IRValue
  | argument
  | getInt1 (b : Bool)
  | u64 (word : BitVec 64)
  | zExt (value : IRValue)
  | trunc1 (value : IRValue)
  | trunc32 (value : IRValue)
  | bitCast (value : IRValue)
  | ptrToInt64 (value : IRValue)
  | ptrToInt32 (value : IRValue)
  | intToPtr (value : IRValue)
  | or (first second : IRValue)
  | and (first second : IRValue)
  | iCmpULT (first second : IRValue)
  | iCmpEQ (first second : IRValue)
  | fCmpUNO (first second : IRValue)
  | select (condition first second : IRValue)

namespace IRValue

/-- What is computed.  An instruction on operands of another type has no
result. -/
def eval (given : Operand) : IRValue → Option Operand
  | argument => some given
  | getInt1 b => some (.i1 b)
  | u64 word => some (.i64 word)
  | zExt value =>
      match value.eval given with
      | some (.i1 b) => some (.i64 (if b then 1#64 else 0#64))
      | some (.i32 word) => some (.i64 (word.setWidth 64))
      | _ => none
  | trunc1 value =>
      match value.eval given with
      | some (.i64 word) => some (.i1 (word.getLsbD 0))
      | _ => none
  | trunc32 value =>
      match value.eval given with
      | some (.i64 word) => some (.i32 (word.setWidth 32))
      | _ => none
  | bitCast value =>
      match value.eval given with
      | some (.double d) => some (.i64 d)
      | some (.i64 word) => some (.double word)
      | _ => none
  | ptrToInt64 value =>
      match value.eval given with
      | some (.ptr p) => some (.i64 p)
      | _ => none
  | ptrToInt32 value =>
      match value.eval given with
      | some (.ptr p) => some (.i32 (p.setWidth 32))
      | _ => none
  | intToPtr value =>
      match value.eval given with
      | some (.i64 word) => some (.ptr word)
      | some (.i32 word) => some (.ptr (word.setWidth 64))
      | _ => none
  | or first second =>
      match first.eval given, second.eval given with
      | some (.i64 a), some (.i64 b) => some (.i64 (a ||| b))
      | _, _ => none
  | and first second =>
      match first.eval given, second.eval given with
      | some (.i64 a), some (.i64 b) => some (.i64 (a &&& b))
      | _, _ => none
  | iCmpULT first second =>
      match first.eval given, second.eval given with
      | some (.i64 a), some (.i64 b) => some (.i1 (decide (a < b)))
      | _, _ => none
  | iCmpEQ first second =>
      match first.eval given, second.eval given with
      | some (.i64 a), some (.i64 b) => some (.i1 (a == b))
      | _, _ => none
  | fCmpUNO first second =>
      match first.eval given, second.eval given with
      | some (.double a), some (.double b) => some (.i1 (isNaN a || isNaN b))
      | _, _ => none
  | select condition first second =>
      match condition.eval given with
      | some (.i1 true) => first.eval given
      | some (.i1 false) => second.eval given
      | _ => none

end IRValue

/-- `K_WORD_SIZE`, in bits. -/
inductive WordSize
  | bits32
  | bits64
  deriving DecidableEq

/-- `TypedValue` -/
structure TypedValue where
  types : ObjectTypeSet
  value : IRValue

end ValueEncoder

/-- The numbers of `objectType`. -/
def ObjectType.number : ObjectType → Nat
  | .stringType => 1
  | .doubleType => 2
  | .persistentListType => 3
  | .persistentVectorType => 4
  | .persistentVectorNodeType => 5
  | .concurrentHashMapType => 6
  | .functionType => 7
  | .bigIntegerType => 8
  | .nullType => 9
  | .symbolType => 10
  | .keywordType => 11
  | .nilType => 12
  | .booleanType => 13
  | .integerType => 15
  | .ratioType => 16
  | .classType => 17
  | .persistentArrayMapType => 18
  | .varType => 19
  | .objectRootType => 20
  | .exceptionType => 21
  | .bridgedObjectType => 22
  | .stringBuilderType => 23
  | .persistentVectorChunkedSeqType => 24
  | .arrayChunkType => 25
  | .persistentVectorReverseSeqType => 26
  | .executionContextType => 27
  | .concurrentHashMapNodeType => 28
  | .namespaceType => 29
  | .custom number => number

namespace ObjectTypeSet

variable (types : ObjectTypeSet)

/-- `isBoxedType(type)` -/
def isBoxedType (type : ObjectType) : Bool :=
  types.contains type && decide (types.internal.card = 1) && types.isBoxed &&
    !types.allTypes

/-- `isUnboxedType(type)` -/
def isUnboxedType (type : ObjectType) : Bool :=
  types.contains type && decide (types.internal.card = 1) && !types.isBoxed &&
    !types.allTypes

/-- `isUnboxedPointer` -/
def isUnboxedPointer : Bool :=
  !types.isScalar && !types.isBoxedScalar && !types.isBoxed

/-- `isBoxedPointer` -/
def isBoxedPointer : Bool :=
  types.isDetermined && !types.isScalar && !types.isBoxedScalar && types.isBoxed

end ObjectTypeSet

namespace ValueEncoder

/-! ## `ValueEncoder` -/

section Encoder

variable (wordSize : WordSize)

/-- `boxDouble`.  The comparison is emitted without fast-math flags. -/
def boxDouble (doubleVal : TypedValue) : TypedValue :=
  if !doubleVal.types.isUnboxedType .doubleType then doubleVal
  else
    let isNaN := IRValue.fCmpUNO doubleVal.value doubleVal.value
    let bitcast := IRValue.bitCast doubleVal.value
    ⟨doubleVal.types.boxed, .select isNaN (.u64 0x7FF8000000000000#64) bitcast⟩

/-- `boxInt32` -/
def boxInt32 (int32Val : TypedValue) : TypedValue :=
  if !int32Val.types.isUnboxedType .integerType then int32Val
  else ⟨int32Val.types.boxed, .or (.zExt int32Val.value) (.u64 tagInt32)⟩

/-- `boxBool` -/
def boxBool (boolVal : TypedValue) : TypedValue :=
  if !boolVal.types.isUnboxedType .booleanType then boolVal
  else ⟨boolVal.types.boxed, .or (.zExt boolVal.value) (.u64 tagBool)⟩

/-- `boxNil` -/
def boxNil : TypedValue :=
  ⟨.ofType .nilType true (some .nil), .u64 tagNil⟩

/-- `boxPointer` -/
def boxPointer (rawPtr : TypedValue) : TypedValue :=
  if !rawPtr.types.isUnboxedPointer then rawPtr
  else
    let ptrAsInt :=
      match wordSize with
      | .bits32 => IRValue.zExt (.ptrToInt32 rawPtr.value)
      | .bits64 => IRValue.ptrToInt64 rawPtr.value
    ⟨rawPtr.types.boxed, .or ptrAsInt (.u64 tagPtr)⟩

/-- `boxKeyword` -/
def boxKeyword (keywordId : TypedValue) : TypedValue :=
  if !keywordId.types.isUnboxedType .keywordType then keywordId
  else ⟨keywordId.types.boxed, .or (.zExt keywordId.value) (.u64 tagKeyword)⟩

/-- `box`, with no result where it throws. -/
def box (val : TypedValue) : Option TypedValue :=
  if val.types.isBoxed then some val
  else if val.types.isUnboxedPointer then some (boxPointer wordSize val)
  else if val.types.isUnboxedType .doubleType then some (boxDouble val)
  else if val.types.isUnboxedType .integerType then some (boxInt32 val)
  else if val.types.isUnboxedType .booleanType then some (boxBool val)
  else if val.types.isUnboxedType .keywordType then some (boxKeyword val)
  else if val.types.isUnboxedType .nilType then some boxNil
  else none

/-- A test that is only emitted if the type does not tell.  There is no result
where the assertion fails. -/
def emitTest (boxedVal : TypedValue) (isKnown : Bool)
    (test : IRValue) : Option TypedValue :=
  if !boxedVal.types.isBoxed then none
  else if isKnown then
    some ⟨.ofType .booleanType false (some (.boolean true)), .getInt1 true⟩
  else some ⟨.ofType .booleanType false none, test⟩

/-- The test of the tag of a word. -/
def testTag (tag : RTValue) (boxedVal : TypedValue) : IRValue :=
  .iCmpEQ (.and boxedVal.value (.u64 tagMask)) (.u64 tag)

/-- `isDouble` -/
def isDouble (boxedVal : TypedValue) : Option TypedValue :=
  emitTest boxedVal (boxedVal.types.isBoxedType .doubleType)
    (.iCmpULT boxedVal.value (.u64 tagDoubleStart))

/-- `isInt32` -/
def isInt32 (boxedVal : TypedValue) : Option TypedValue :=
  emitTest boxedVal (boxedVal.types.isBoxedType .integerType)
    (testTag tagInt32 boxedVal)

/-- `isBool` -/
def isBool (boxedVal : TypedValue) : Option TypedValue :=
  emitTest boxedVal (boxedVal.types.isBoxedType .booleanType)
    (testTag tagBool boxedVal)

/-- `isNil` -/
def isNil (boxedVal : TypedValue) : Option TypedValue :=
  emitTest boxedVal (boxedVal.types.isBoxedType .nilType)
    (.iCmpEQ boxedVal.value (.u64 tagNil))

/-- `isPointer` -/
def isPointer (boxedVal : TypedValue) : Option TypedValue :=
  emitTest boxedVal boxedVal.types.isBoxedPointer (testTag tagPtr boxedVal)

/-- `isKeyword` -/
def isKeyword (boxedVal : TypedValue) : Option TypedValue :=
  emitTest boxedVal (boxedVal.types.isBoxedType .keywordType)
    (testTag tagKeyword boxedVal)

/-- `unboxDouble` -/
def unboxDouble (boxedVal : TypedValue) : TypedValue :=
  if boxedVal.types.isUnboxedType .doubleType then boxedVal
  else ⟨.ofType .doubleType false none, .bitCast boxedVal.value⟩

/-- `unboxInt32` -/
def unboxInt32 (boxedVal : TypedValue) : TypedValue :=
  if boxedVal.types.isUnboxedType .integerType then boxedVal
  else ⟨.ofType .integerType false none, .trunc32 boxedVal.value⟩

/-- `unboxBool` -/
def unboxBool (boxedVal : TypedValue) : TypedValue :=
  if boxedVal.types.isUnboxedType .booleanType then boxedVal
  else ⟨.ofType .booleanType false none, .trunc1 boxedVal.value⟩

/-- `unboxPointer`.  The tag is masked off first. -/
def unboxPointer (boxedVal : TypedValue) : TypedValue :=
  if boxedVal.types.isUnboxedPointer then boxedVal
  else
    let cleanVal := IRValue.and boxedVal.value (.u64 (~~~tagMask))
    match wordSize with
    | .bits32 => ⟨boxedVal.types.unboxed, .intToPtr (.trunc32 cleanVal)⟩
    | .bits64 => ⟨boxedVal.types.unboxed, .intToPtr cleanVal⟩

/-- `unboxKeyword` -/
def unboxKeyword (boxedVal : TypedValue) : TypedValue :=
  if boxedVal.types.isUnboxedType .keywordType then boxedVal
  else ⟨.ofType .keywordType false none, .trunc32 boxedVal.value⟩

/-- `unbox`, with no result where it throws. -/
def unbox (val : TypedValue) : Option TypedValue :=
  if !val.types.isBoxed then some val
  else if val.types.isBoxedPointer then some (unboxPointer wordSize val)
  else if val.types.isBoxedType .doubleType then some (unboxDouble val)
  else if val.types.isBoxedType .integerType then some (unboxInt32 val)
  else if val.types.isBoxedType .booleanType then some (unboxBool val)
  else if val.types.isBoxedType .keywordType then some (unboxKeyword val)
  else if val.types.isBoxedType .nilType then some ⟨val.types.unboxed,
    val.value⟩
  else none

end Encoder

/-! ## What the operands and the types stand for -/

/-- The types in the headers of objects.  None is that of a value without a
header. -/
structure Headers where
  typeAt : BitVec 64 → Nat
  isHeapType : ∀ p, typeAt p ∉ [2, 11, 12, 13, 15]

/-- An operand of unboxed types holds a value.  Addresses have the size of a
word. -/
def Represents (wordSize : WordSize) (types : ObjectTypeSet) : Operand →
    Boxable → Prop
  | .double d, .double d' => types.isUnboxedType .doubleType = true ∧ d = d'
  | .i32 i, .int32 i' => types.isUnboxedType .integerType = true ∧ i = i'
  | .i1 b, .bool b' => types.isUnboxedType .booleanType = true ∧ b = b'
  | .i32 id, .keyword id' => types.isUnboxedType .keywordType = true ∧ id = id'
  | .ptr p, .ptr p' =>
      types.isUnboxedPointer = true ∧ p = p'.bits ∧
        (wordSize = .bits32 → p.toNat < 2 ^ 32)
  | _, .nil => types.isUnboxedType .nilType = true
  | _, _ => False

/-- Boxed types stand for a value.  None of them is that of the null marker. -/
def DescribesBoxed
    (headers : Headers)
    (build : BuildType)
    (types : ObjectTypeSet)
    (value : Boxable) : Prop :=
  types.isBoxed = true ∧
    (types.allTypes = true ∨
      value.kind ≠ .null ∧
        ObjectType.ofNumber
          (Runtime.Boxing.getType headers.typeAt (value.box build)) ∈
          types.internal)

/-- The operand that a value is unboxed to. -/
def operandOf (wordSize : WordSize) : Boxable → Option Operand
  | .double d => some (.double d)
  | .int32 i => some (.i32 i)
  | .bool b => some (.i1 b)
  | .keyword id => some (.i32 id)
  | .ptr p =>
      match wordSize with
      | .bits32 => some (.ptr ((p.bits.setWidth 32).setWidth 64))
      | .bits64 => some (.ptr p.bits)
  | .nil => none
  | .null => none

/-- The test that is emitted for a kind.  There is none for the null marker. -/
def isKind : Kind → TypedValue → Option TypedValue
  | .double => isDouble
  | .int32 => isInt32
  | .bool => isBool
  | .keyword => isKeyword
  | .ptr => isPointer
  | .nil => isNil
  | .null => fun _ => none

/-- What unboxes a kind.  Nothing is taken out of a nil. -/
def unboxKind (wordSize : WordSize) : Kind → TypedValue → Option TypedValue
  | .double => fun boxedVal => some (unboxDouble boxedVal)
  | .int32 => fun boxedVal => some (unboxInt32 boxedVal)
  | .bool => fun boxedVal => some (unboxBool boxedVal)
  | .keyword => fun boxedVal => some (unboxKeyword boxedVal)
  | .ptr => fun boxedVal => some (unboxPointer wordSize boxedVal)
  | .nil => fun _ => none
  | .null => fun _ => none

/-- The types tell the kind. -/
def isKnown : Kind → ObjectTypeSet → Bool
  | .double, types => types.isBoxedType .doubleType
  | .int32, types => types.isBoxedType .integerType
  | .bool, types => types.isBoxedType .booleanType
  | .keyword, types => types.isBoxedType .keywordType
  | .ptr, types => types.isBoxedPointer
  | .nil, types => types.isBoxedType .nilType
  | .null, _ => false

/-! ## Boxing -/

/-- The test for one type without a box. -/
theorem isUnboxedType_iff {types : ObjectTypeSet} {type : ObjectType} :
    types.isUnboxedType type = true ↔
      types.internal = {type} ∧ types.isBoxed = false ∧
        types.allTypes = false := by
  simp only [ObjectTypeSet.isUnboxedType, ObjectTypeSet.contains,
    Bool.and_eq_true, Bool.not_eq_true', Bool.or_eq_true, decide_eq_true_eq,
    Finset.card_eq_one]
  constructor
  · rintro ⟨⟨⟨contained, single, isSingle⟩, notBoxed⟩, notAll⟩
    rw [notAll, isSingle, Finset.mem_singleton] at contained
    have isType := contained.resolve_left Bool.false_ne_true
    exact ⟨isType ▸ isSingle, notBoxed, notAll⟩
  · rintro ⟨isSingle, notBoxed, notAll⟩
    exact ⟨⟨⟨.inr (isSingle ▸ Finset.mem_singleton_self type), type, isSingle⟩,
      notBoxed⟩, notAll⟩

/-- The test for one type in a box. -/
theorem isBoxedType_iff {types : ObjectTypeSet} {type : ObjectType} :
    types.isBoxedType type = true ↔
      types.internal = {type} ∧ types.isBoxed = true ∧
        types.allTypes = false := by
  simp only [ObjectTypeSet.isBoxedType, ObjectTypeSet.contains,
    Bool.and_eq_true, Bool.not_eq_true', Bool.or_eq_true, decide_eq_true_eq,
    Finset.card_eq_one]
  constructor
  · rintro ⟨⟨⟨contained, single, isSingle⟩, boxed⟩, notAll⟩
    rw [notAll, isSingle, Finset.mem_singleton] at contained
    have isType := contained.resolve_left Bool.false_ne_true
    exact ⟨isType ▸ isSingle, boxed, notAll⟩
  · rintro ⟨isSingle, boxed, notAll⟩
    exact ⟨⟨⟨.inr (isSingle ▸ Finset.mem_singleton_self type), type, isSingle⟩,
      boxed⟩, notAll⟩

/-- A scalar is boxed by its own function. -/
theorem isUnboxedPointer_of_isUnboxedType
    {types : ObjectTypeSet}
    {type : ObjectType}
    (isScalar :
      type ∈ [.integerType, .booleanType, .doubleType, .nilType, .keywordType])
    (isUnboxed : types.isUnboxedType type = true) :
    types.isUnboxedPointer = false := by
  obtain ⟨isSingle, notBoxed, notAll⟩ := isUnboxedType_iff.mp isUnboxed
  simp only [List.mem_cons, List.not_mem_nil, or_false] at isScalar
  rcases isScalar with rfl | rfl | rfl | rfl | rfl <;>
    simp [ObjectTypeSet.isUnboxedPointer, ObjectTypeSet.isScalar,
      ObjectTypeSet.isDeterminedScalar, ObjectTypeSet.isDeterminedAs,
      ObjectTypeSet.isDetermined, isSingle, notBoxed, notAll]

section Boxes

variable
  {wordSize : WordSize}
  {types : ObjectTypeSet}
  {value : IRValue}
  {given : Operand}

attribute [local simp] IRValue.eval

/-- A double is made a word. -/
theorem eval_boxDouble
    {d : BitVec 64}
    (isUnboxed : types.isUnboxedType .doubleType = true)
    (computes : value.eval given = some (.double d)) :
    (boxDouble ⟨types, value⟩).value.eval given =
    some (.i64 (canonicalDouble d)) := by
  cases isNumber : isNaN d <;>
    simp [boxDouble, isUnboxed, computes, isNumber, canonicalDouble,
      canonicalNaN]

/-- An int is made a word. -/
theorem eval_boxInt32
    {i : BitVec 32}
    (isUnboxed : types.isUnboxedType .integerType = true)
    (computes : value.eval given = some (.i32 i)) :
    (boxInt32 ⟨types, value⟩).value.eval given =
    some (.i64 (Runtime.Boxing.boxInt32 i)) := by
  simp [boxInt32, isUnboxed, computes, Runtime.Boxing.boxInt32]

/-- A boolean is made a word. -/
theorem eval_boxBool
    {b : Bool}
    (isUnboxed : types.isUnboxedType .booleanType = true)
    (computes : value.eval given = some (.i1 b)) :
    (boxBool ⟨types, value⟩).value.eval given =
    some (.i64 (Runtime.Boxing.boxBool b)) := by
  simp [boxBool, isUnboxed, computes, Runtime.Boxing.boxBool]

/-- A keyword is made a word. -/
theorem eval_boxKeyword
    {id : BitVec 32}
    (isUnboxed : types.isUnboxedType .keywordType = true)
    (computes : value.eval given = some (.i32 id)) :
    (boxKeyword ⟨types, value⟩).value.eval given =
    some (.i64 (Runtime.Boxing.boxKeyword id)) := by
  simp [boxKeyword, isUnboxed, computes, Runtime.Boxing.boxKeyword]

/-- A pointer is made a word. -/
theorem eval_boxPointer
    {p : BitVec 64}
    (isUnboxed : types.isUnboxedPointer = true)
    (fits : wordSize = .bits32 → p.toNat < 2 ^ 32)
    (computes : value.eval given = some (.ptr p)) :
    (boxPointer wordSize ⟨types, value⟩).value.eval given =
      some (.i64 (Runtime.Boxing.boxPtr p)) := by
  cases wordSize with
  | bits64 => simp [boxPointer, isUnboxed, computes, Runtime.Boxing.boxPtr]
  | bits32 =>
      have extended : (p.setWidth 32).setWidth 64 = p := by
        apply BitVec.eq_of_toNat_eq
        rw [BitVec.toNat_setWidth, BitVec.toNat_setWidth,
          Nat.mod_eq_of_lt (fits rfl), Nat.mod_eq_of_lt p.isLt]
      simp [boxPointer, isUnboxed, computes, Runtime.Boxing.boxPtr, extended]

/-- A value of one scalar type is boxed by the function for it. -/
theorem box_of_isUnboxedType
    {type : ObjectType}
    (isScalar :
      type ∈ [.integerType, .booleanType, .doubleType, .nilType, .keywordType])
    (isUnboxed : types.isUnboxedType type = true) :
    box wordSize ⟨types, value⟩ =
      some (
        if type = .doubleType then boxDouble ⟨types, value⟩
        else if type = .integerType then boxInt32 ⟨types, value⟩
        else if type = .booleanType then boxBool ⟨types, value⟩
        else if type = .keywordType then boxKeyword ⟨types, value⟩
        else boxNil) := by
  have notPointer := isUnboxedPointer_of_isUnboxedType isScalar isUnboxed
  obtain ⟨isSingle, notBoxed, notAll⟩ := isUnboxedType_iff.mp isUnboxed
  simp only [List.mem_cons, List.not_mem_nil, or_false] at isScalar
  rcases isScalar with rfl | rfl | rfl | rfl | rfl <;>
    simp [box, notPointer, ObjectTypeSet.isUnboxedType, ObjectTypeSet.contains,
      isSingle, notBoxed, notAll]

end Boxes

/-- What is emitted to box a value computes the word of what is to come back. -/
theorem Represents.box
    (build : BuildType)
    {wordSize : WordSize}
    {val : TypedValue}
    {given operand : Operand}
    {value : Boxable}
    (computes : val.value.eval given = some operand)
    (represents : Represents wordSize val.types operand value) :
    ∃ boxed, ValueEncoder.box wordSize val = some boxed ∧
      boxed.types.isBoxed = true ∧
      boxed.value.eval given = some (.i64 (value.canonical.box build)) := by
  obtain ⟨types, expression⟩ := val
  cases value with
  | double d =>
      cases operand with
      | double d' =>
          obtain ⟨isUnboxed, rfl⟩ := represents
          refine ⟨_, box_of_isUnboxedType (by decide) isUnboxed, ?_, ?_⟩
          · simp [boxDouble, isUnboxed, ObjectTypeSet.boxed]
          · rw [Boxable.canonical, Boxable.box,
              Runtime.Boxing.boxDouble_canonicalDouble]
            exact eval_boxDouble isUnboxed computes
      | _ => exact False.elim represents
  | int32 i =>
      cases operand with
      | i32 i' =>
          obtain ⟨isUnboxed, rfl⟩ := represents
          refine ⟨_, box_of_isUnboxedType (by decide) isUnboxed, ?_,
            eval_boxInt32 isUnboxed computes⟩
          simp [boxInt32, isUnboxed, ObjectTypeSet.boxed]
      | _ => exact False.elim represents
  | bool b =>
      cases operand with
      | i1 b' =>
          obtain ⟨isUnboxed, rfl⟩ := represents
          refine ⟨_, box_of_isUnboxedType (by decide) isUnboxed, ?_,
            eval_boxBool isUnboxed computes⟩
          simp [boxBool, isUnboxed, ObjectTypeSet.boxed]
      | _ => exact False.elim represents
  | keyword id =>
      cases operand with
      | i32 id' =>
          obtain ⟨isUnboxed, rfl⟩ := represents
          refine ⟨_, box_of_isUnboxedType (by decide) isUnboxed, ?_,
            eval_boxKeyword isUnboxed computes⟩
          simp [boxKeyword, isUnboxed, ObjectTypeSet.boxed]
      | _ => exact False.elim represents
  | ptr p =>
      cases operand with
      | ptr p' =>
          obtain ⟨isUnboxed, rfl, fits⟩ := represents
          have notBoxed : types.isBoxed = false := by
            simp only [ObjectTypeSet.isUnboxedPointer, Bool.and_eq_true,
              Bool.not_eq_true']
              at isUnboxed
            exact isUnboxed.2
          refine ⟨boxPointer wordSize ⟨types, expression⟩, ?_, ?_,
            eval_boxPointer isUnboxed fits computes⟩
          · simp [ValueEncoder.box, notBoxed, isUnboxed]
          · cases wordSize <;> simp [boxPointer, isUnboxed, ObjectTypeSet.boxed]
      | _ => exact False.elim represents
  | nil =>
      have isUnboxed : types.isUnboxedType .nilType = true := by
        cases operand <;> exact represents
      exact ⟨_, box_of_isUnboxedType (by decide) isUnboxed, rfl, rfl⟩
  | null => cases operand <;> exact False.elim represents

/-! ## Tests -/

/-- The number of a type that is given by its number. -/
theorem number_ofNumber (number : Nat) :
    ObjectType.number (ObjectType.ofNumber number) = number := by
  unfold ObjectType.ofNumber
  split <;> rfl

/-- Values with a header have other types than those without one. -/
theorem kind_eq_of_getType
    (headers : Headers)
    {build : BuildType}
    {value : Boxable}
    (kept : value.Kept build)
    {kind : Kind}
    (isScalar : kind.type ∈ [2, 11, 12, 13, 15])
    (sameType : Runtime.Boxing.getType headers.typeAt (value.box build) =
      kind.type) :
    kind = value.kind := by
  by_cases isPointer : value.kind = .ptr
  · cases value with
    | ptr p =>
        rw [Boxable.box, Runtime.Boxing.getType_boxPtr] at sameType
        exact absurd (sameType ▸ isScalar) (headers.isHeapType p.bits)
    | _ => cases isPointer
  · rw [Boxable.getType_box _ kept isPointer] at sameType
    generalize value.kind = other at isPointer sameType
    cases kind <;> cases other <;> first | rfl | cases sameType

section Described

variable
  {headers : Headers}
  {build : BuildType}
  {types : ObjectTypeSet}
  {value : Boxable}

/-- A word of one type has this type in its tag or in its header. -/
theorem DescribesBoxed.type_eq
    {type : ObjectType}
    (described : DescribesBoxed headers build types value)
    (isSingle : types.internal = {type})
    (notAll : types.allTypes = false) :
    value.kind ≠ .null ∧
      ObjectType.ofNumber
        (Runtime.Boxing.getType headers.typeAt (value.box build)) = type := by
  have contained := described.2
  rw [notAll, isSingle, Finset.mem_singleton] at contained
  exact contained.resolve_left Bool.false_ne_true

/-- A word of one scalar type has the kind of this type. -/
theorem DescribesBoxed.kind_eq_of_isBoxedType
    {type : ObjectType}
    {kind : Kind}
    (kept : value.Kept build)
    (described : DescribesBoxed headers build types value)
    (isScalar : kind.type ∈ [2, 11, 12, 13, 15])
    (isType : type.number = kind.type)
    (isBoxed : types.isBoxedType type = true) : kind = value.kind := by
  obtain ⟨isSingle, -, notAll⟩ := isBoxedType_iff.mp isBoxed
  apply kind_eq_of_getType headers kept isScalar
  rw [← isType, ← (described.type_eq isSingle notAll).2, number_ofNumber]

/-- A boxed pointer has one type, and it is not scalar. -/
theorem isBoxedPointer_single
    (isBoxed : types.isBoxedPointer = true) :
    ∃ type, types.internal = {type} ∧ types.allTypes = false ∧
      type ∉ [.integerType, .booleanType, .doubleType, .nilType,
        .keywordType] := by
  simp only [ObjectTypeSet.isBoxedPointer, ObjectTypeSet.isDetermined,
    ObjectTypeSet.isBoxedScalar, ObjectTypeSet.isDeterminedScalar,
    ObjectTypeSet.isDeterminedAs, Bool.and_eq_true, Bool.not_eq_true',
    decide_eq_true_eq, Finset.card_eq_one] at isBoxed
  obtain ⟨⟨⟨⟨⟨type, isSingle⟩, notAll⟩, -⟩, notScalar⟩, boxed⟩ := isBoxed
  refine ⟨type, isSingle, notAll, ?_⟩
  intro isScalar
  simp only [List.mem_cons, List.not_mem_nil, or_false] at isScalar
  rcases isScalar with rfl | rfl | rfl | rfl | rfl <;>
    simp [isSingle, notAll, boxed] at notScalar

/-- Types that tell the kind of a value tell it right. -/
theorem DescribesBoxed.kind_eq
    {kind : Kind}
    (kept : value.Kept build)
    (described : DescribesBoxed headers build types value)
    (known : isKnown kind types = true) : kind = value.kind := by
  cases kind with
  | double => exact described.kind_eq_of_isBoxedType kept (by decide) rfl known
  | int32 => exact described.kind_eq_of_isBoxedType kept (by decide) rfl known
  | bool => exact described.kind_eq_of_isBoxedType kept (by decide) rfl known
  | keyword => exact described.kind_eq_of_isBoxedType kept (by decide) rfl known
  | nil => exact described.kind_eq_of_isBoxedType kept (by decide) rfl known
  | null => cases known
  | ptr =>
      obtain ⟨type, isSingle, notAll, notScalar⟩ := isBoxedPointer_single known
      obtain ⟨notNull, isType⟩ := described.type_eq isSingle notAll
      by_contra notPointer
      rw [Boxable.getType_box _ kept (Ne.symm notPointer)] at isType
      apply notScalar
      generalize value.kind = kind at notPointer notNull isType
      rw [← isType]
      cases kind with
      | ptr => exact absurd rfl notPointer
      | null => exact absurd rfl notNull
      | _ => decide

end Described

/-- The code of a test, which is left out where the type tells the answer. -/
theorem eval_emitTest
    {boxedVal : TypedValue}
    {isKnown answer : Bool}
    {test : IRValue}
    {given : Operand}
    (isBoxed : boxedVal.types.isBoxed = true)
    (tells : isKnown = true → answer = true)
    (computes : test.eval given = some (.i1 answer)) :
    ∃ tested, emitTest boxedVal isKnown test = some tested ∧
      tested.value.eval given = some (.i1 answer) := by
  rw [emitTest, isBoxed]
  cases known : isKnown with
  | true =>
      rw [tells known]
      exact ⟨_, rfl, rfl⟩
  | false => exact ⟨_, rfl, computes⟩

/-- A test computes the answer of `RTValue.h`, given that the types tell the
kind right. -/
theorem eval_isKind
    {kind : Kind}
    (notNull : kind ≠ .null)
    {boxedVal : TypedValue}
    {given : Operand}
    {v : RTValue}
    (isBoxed : boxedVal.types.isBoxed = true)
    (tells : isKnown kind boxedVal.types = true → kind.test v = true)
    (computes : boxedVal.value.eval given = some (.i64 v)) :
    ∃ test, isKind kind boxedVal = some test ∧
      test.value.eval given = some (.i1 (kind.test v)) := by
  have ofTag (tag : RTValue) :
      (testTag tag boxedVal).eval given =
      some (.i1 (v &&& tagMask == tag)) := by
    simp [testTag, IRValue.eval, computes]
  cases kind with
  | double =>
      apply eval_emitTest isBoxed tells
      simp [IRValue.eval, computes, Kind.test, Runtime.Boxing.isDouble]
  | int32 => exact eval_emitTest isBoxed tells (ofTag tagInt32)
  | bool => exact eval_emitTest isBoxed tells (ofTag tagBool)
  | keyword => exact eval_emitTest isBoxed tells (ofTag tagKeyword)
  | ptr => exact eval_emitTest isBoxed tells (ofTag tagPtr)
  | nil =>
      apply eval_emitTest isBoxed tells
      simp [IRValue.eval, computes, Kind.test, Runtime.Boxing.isNil]
  | null => exact absurd rfl notNull

/-! ## Unboxing -/

/-- What is boxed is not unboxed. -/
theorem isUnboxedType_of_isBoxed
    {types : ObjectTypeSet}
    (isBoxed : types.isBoxed = true)
    (type : ObjectType) : types.isUnboxedType type = false := by
  simp [ObjectTypeSet.isUnboxedType, isBoxed]

/-- A mask of the lower half changes nothing that is kept. -/
theorem setWidth_and_mask
    (v : BitVec 64) : (v &&& 0xFFFFFFFF#64).setWidth 32 = v.setWidth 32 := by
  apply BitVec.eq_of_toNat_eq
  have mask : (0xFFFFFFFF#64).toNat = 2 ^ 32 - 1 := rfl
  rw [BitVec.toNat_setWidth, BitVec.toNat_and, mask,
    Nat.and_two_pow_sub_one_eq_mod, BitVec.toNat_setWidth, Nat.mod_mod]

/-- The lowest bit of the word. -/
theorem unboxBool_eq
    (v : BitVec 64) : Runtime.Boxing.unboxBool v = v.getLsbD 0 := by
  have asNat : (v &&& 1#64).toNat = v.toNat % 2 := by
    rw [BitVec.toNat_and]
    exact Nat.and_two_pow_sub_one_eq_mod v.toNat 1
  rw [Runtime.Boxing.unboxBool, Bool.eq_iff_iff, bne_iff_ne, ne_eq,
    ← BitVec.toNat_inj, asNat, BitVec.getLsbD, Nat.testBit_zero,
    decide_eq_true_iff]
  exact Nat.mod_two_ne_zero

/-- Every word is unboxed as `RTValue.h` unboxes it. -/
theorem eval_unboxKind
    (wordSize : WordSize)
    {kind : Kind}
    (taken : kind ≠ .nil ∧ kind ≠ .null)
    {boxedVal : TypedValue}
    {given : Operand}
    {v : RTValue}
    (isBoxed : boxedVal.types.isBoxed = true)
    (computes : boxedVal.value.eval given = some (.i64 v)) :
    ∃ unboxed, unboxKind wordSize kind boxedVal = some unboxed ∧
      unboxed.value.eval given = operandOf wordSize (kind.unbox v) := by
  have notUnboxed := isUnboxedType_of_isBoxed isBoxed
  have notPointer : boxedVal.types.isUnboxedPointer = false := by
    simp [ObjectTypeSet.isUnboxedPointer, isBoxed]
  cases kind with
  | double =>
      refine ⟨_, rfl, ?_⟩
      simp [unboxDouble, notUnboxed, IRValue.eval, computes, operandOf,
        Kind.unbox, Runtime.Boxing.unboxDouble]
  | int32 =>
      refine ⟨_, rfl, ?_⟩
      rw [Kind.unbox, Runtime.Boxing.unboxInt32, setWidth_and_mask]
      simp [unboxInt32, notUnboxed, IRValue.eval, computes, operandOf]
  | bool =>
      refine ⟨_, rfl, ?_⟩
      simp [unboxBool, notUnboxed, IRValue.eval, computes, operandOf,
        Kind.unbox, unboxBool_eq]
  | keyword =>
      refine ⟨_, rfl, ?_⟩
      rw [Kind.unbox, Runtime.Boxing.unboxKeyword, setWidth_and_mask]
      simp [unboxKeyword, notUnboxed, IRValue.eval, computes, operandOf]
  | ptr =>
      refine ⟨_, rfl, ?_⟩
      cases wordSize <;>
        simp [unboxPointer, notPointer, IRValue.eval, computes, operandOf,
          Kind.unbox, Runtime.Boxing.unboxPtr]
  | nil => exact absurd rfl taken.1
  | null => exact absurd rfl taken.2

/-- A word of one scalar type is unboxed by the function for it. -/
theorem unbox_of_isBoxedType
    {wordSize : WordSize}
    {val : TypedValue}
    {type : ObjectType}
    (isScalar :
      type ∈ [.integerType, .booleanType, .doubleType, .nilType, .keywordType])
    (isBoxed : val.types.isBoxedType type = true) :
    unbox wordSize val =
      some (
        if type = .doubleType then unboxDouble val
        else if type = .integerType then unboxInt32 val
        else if type = .booleanType then unboxBool val
        else if type = .keywordType then unboxKeyword val
        else ⟨val.types.unboxed, val.value⟩) := by
  obtain ⟨isSingle, boxed, notAll⟩ := isBoxedType_iff.mp isBoxed
  simp only [List.mem_cons, List.not_mem_nil, or_false] at isScalar
  rcases isScalar with rfl | rfl | rfl | rfl | rfl <;>
    simp [unbox, ObjectTypeSet.isBoxedType, ObjectTypeSet.isBoxedPointer,
      ObjectTypeSet.isScalar, ObjectTypeSet.isBoxedScalar,
      ObjectTypeSet.isDeterminedScalar, ObjectTypeSet.isDeterminedAs,
      ObjectTypeSet.isDetermined, ObjectTypeSet.contains, isSingle, boxed,
      notAll]

/-- The same, by the kind of the word. -/
theorem unbox_eq_unboxKind
    {wordSize : WordSize}
    {val : TypedValue}
    {kind : Kind}
    (notPointer : kind ≠ .ptr)
    (taken : kind ≠ .nil ∧ kind ≠ .null)
    (isBoxed : val.types.isBoxedType (.ofNumber kind.type) = true) :
    unbox wordSize val = unboxKind wordSize kind val := by
  cases kind with
  | double => exact unbox_of_isBoxedType (by decide) isBoxed
  | int32 => exact unbox_of_isBoxedType (by decide) isBoxed
  | bool => exact unbox_of_isBoxedType (by decide) isBoxed
  | keyword => exact unbox_of_isBoxedType (by decide) isBoxed
  | ptr => exact absurd rfl notPointer
  | nil => exact absurd rfl taken.1
  | null => exact absurd rfl taken.2

/-- A word of one other type is unboxed as a pointer. -/
theorem unbox_of_isBoxedPointer
    {wordSize : WordSize}
    {val : TypedValue}
    (isBoxed : val.types.isBoxedPointer = true) :
    unbox wordSize val = unboxKind wordSize .ptr val := by
  have boxed : val.types.isBoxed = true := by
    simp only [ObjectTypeSet.isBoxedPointer, Bool.and_eq_true] at isBoxed
    exact isBoxed.2
  simp [unbox, boxed, isBoxed, unboxKind]

/-- A boxed value of one type that is not scalar is a pointer. -/
theorem isBoxedPointer_of_single
    {types : ObjectTypeSet}
    {type : ObjectType}
    (isSingle : types.internal = {type})
    (boxed : types.isBoxed = true)
    (notAll : types.allTypes = false)
    (notScalar :
      type ∉ [.integerType, .booleanType, .doubleType, .nilType,
      .keywordType]) :
    types.isBoxedPointer = true := by
  simp only [List.mem_cons, List.not_mem_nil, or_false, not_or,
    ← ne_eq] at notScalar
  simp [ObjectTypeSet.isBoxedPointer, ObjectTypeSet.isScalar,
    ObjectTypeSet.isBoxedScalar, ObjectTypeSet.isDeterminedScalar,
    ObjectTypeSet.isDeterminedAs, ObjectTypeSet.isDetermined, isSingle, boxed,
    notAll, notScalar, Ne.symm]

/-- The type chooses what unboxes a value.  A nil remains a word. -/
theorem DescribesBoxed.unbox
    {headers : Headers}
    {build : BuildType}
    {wordSize : WordSize}
    {val : TypedValue}
    {given : Operand}
    {value : Boxable}
    (kept : value.Kept build)
    (described : DescribesBoxed headers build val.types value)
    (determined : val.types.isDetermined = true)
    (computes : val.value.eval given = some (.i64 (value.box build))) :
    ∃ unboxed, ValueEncoder.unbox wordSize val = some unboxed ∧
      unboxed.value.eval given =
        some ((operandOf wordSize value.canonical).getD
          (.i64 (value.box build))) := by
  have boxed := described.1
  simp only [ObjectTypeSet.isDetermined, Bool.and_eq_true, Bool.not_eq_true',
    decide_eq_true_eq, Finset.card_eq_one] at determined
  obtain ⟨⟨type, isSingle⟩, notAll⟩ := determined
  obtain ⟨notNull, isType⟩ := described.type_eq isSingle notAll
  by_cases isNil : value.kind = .nil
  · cases value with
    | nil =>
        rw [Boxable.getType_box _ kept (by decide)] at isType
        subst isType
        have isBoxed : val.types.isBoxedType .nilType = true :=
          isBoxedType_iff.mpr ⟨isSingle, boxed, notAll⟩
        exact ⟨_, unbox_of_isBoxedType (by decide) isBoxed, computes⟩
    | _ => cases isNil
  · have unboxes :
        ValueEncoder.unbox wordSize val = unboxKind wordSize value.kind
        val := by
      by_cases isPointer : value.kind = .ptr
      · rw [isPointer]
        apply unbox_of_isBoxedPointer
        apply isBoxedPointer_of_single isSingle boxed notAll
        cases value with
        | ptr p =>
            intro isScalar
            apply headers.isHeapType p.bits
            rw [Boxable.box, Runtime.Boxing.getType_boxPtr] at isType
            rw [← number_ofNumber (headers.typeAt p.bits), isType]
            simp only [List.mem_cons, List.not_mem_nil, or_false] at isScalar
            rcases isScalar with rfl | rfl | rfl | rfl | rfl <;> decide
        | _ => cases isPointer
      · rw [Boxable.getType_box _ kept isPointer] at isType
        apply unbox_eq_unboxKind isPointer ⟨isNil, notNull⟩
        exact isBoxedType_iff.mpr ⟨isType ▸ isSingle, boxed, notAll⟩
    obtain ⟨unboxed, isUnboxed, isOperand⟩ :=
      eval_unboxKind wordSize ⟨isNil, notNull⟩ boxed computes
    refine ⟨unboxed, unboxes.trans isUnboxed, ?_⟩
    rw [isOperand, Boxable.unbox_box kept]
    cases value with
    | nil => exact absurd rfl isNil
    | null => exact absurd rfl notNull
    | ptr p => cases wordSize <;> rfl
    | _ => rfl

/-! ## The encoder and the runtime -/

/-- The word of a value tells its kind, its type and its value, and emitted code
computes the same word and finds the same in it. -/
structure Readable (headers : Headers) (build : BuildType)
    (value : Boxable) : Prop where
  tests (kind : Kind) : kind.test (value.box build) = true ↔ kind = value.kind
  type : value.kind ≠ .ptr →
    Runtime.Boxing.getType headers.typeAt (value.box build) = value.kind.type
  comesBack : value.kind.unbox (value.box build) = value.canonical
  boxes (wordSize : WordSize) (val : TypedValue) (given operand : Operand) :
    val.value.eval given = some operand →
    Represents wordSize val.types operand value →
    ∃ boxed, box wordSize val = some boxed ∧ boxed.types.isBoxed = true ∧
      boxed.value.eval given = some (.i64 (value.box build))
  testsKnown (kind : Kind) (boxedVal : TypedValue) (given : Operand) :
    kind ≠ .null →
    DescribesBoxed headers build boxedVal.types value →
    boxedVal.value.eval given = some (.i64 (value.box build)) →
    ∃ test, isKind kind boxedVal = some test ∧
      test.value.eval given = some (.i1 (kind.test (value.box build)))
  takesOut (wordSize : WordSize) (val : TypedValue) (given : Operand) :
    DescribesBoxed headers build val.types value →
    val.types.isDetermined = true →
    val.value.eval given = some (.i64 (value.box build)) →
    ∃ unboxed, unbox wordSize val = some unboxed ∧
      unboxed.value.eval given =
        some ((operandOf wordSize value.canonical).getD
          (.i64 (value.box build)))

/-- A value has a word that can be read, and shares it with no other value. -/
structure Unambiguous (headers : Headers) (build : BuildType)
    (value : Boxable) : Prop
    extends Readable headers build value where
  alone (other : Boxable) :
    other.box build = value.box build →
      other.kind = value.kind ∧ other.canonical = value.canonical

/-- On every word, whatever it stands for, emitted code makes the tests of
`RTValue.h` and takes out what `RTValue.h` does. -/
structure SameFunctions : Prop where
  boxesNil (given : Operand) :
    boxNil.value.eval given = some (.i64 Runtime.Boxing.boxNil)
  tests (kind : Kind) (boxedVal : TypedValue) (given : Operand) (v : RTValue) :
    kind ≠ .null →
    boxedVal.types.isBoxed = true →
    isKnown kind boxedVal.types = false →
    boxedVal.value.eval given = some (.i64 v) →
    ∃ test, isKind kind boxedVal = some test ∧
      test.value.eval given = some (.i1 (kind.test v))
  unboxes
      (wordSize : WordSize)
      (kind : Kind)
      (boxedVal : TypedValue)
      (given : Operand)
      (v : RTValue) :
    kind ≠ .nil ∧ kind ≠ .null →
    boxedVal.types.isBoxed = true →
    boxedVal.value.eval given = some (.i64 v) →
    ∃ unboxed, unboxKind wordSize kind boxedVal = some unboxed ∧
      unboxed.value.eval given = operandOf wordSize (kind.unbox v)

/-- The generated code and the runtime compute the same, function by
function. -/
theorem sameFunctions : SameFunctions where
  boxesNil _ := rfl
  tests _ _ _ _ notNull isBoxed unknown computes := by
    apply eval_isKind notNull isBoxed _ computes
    intro known
    cases known.symm.trans unknown
  unboxes wordSize _ _ _ _ taken isBoxed computes :=
    eval_unboxKind wordSize taken isBoxed computes

section Builds

variable {headers : Headers} {build : BuildType} {value : Boxable}

/-- Exactly what is kept can be read. -/
theorem readable_iff_kept : Readable headers build value ↔
    value.Kept build := by
  constructor
  · intro readable
    exact Boxable.kept_of_unbox_box readable.comesBack
  · intro kept
    refine ⟨Boxable.test_box_iff kept, Boxable.getType_box headers.typeAt kept,
      Boxable.unbox_box kept, ?_, ?_, ?_⟩
    · intro _ _ _ _ computes represents
      rw [Boxable.box_eq_canonical_iff.mpr kept]
      exact represents.box build computes
    · intro kind _ _ notNull described computes
      apply eval_isKind notNull described.1 _ computes
      intro known
      exact (Boxable.test_box_iff kept kind).mpr (described.kind_eq kept known)
    · intro _ _ _ described determined computes
      exact described.unbox kept determined computes

/-- Where no NaN is made another one, a word with a tag is also that of a
double. -/
theorem double_of_alone
    (folded : build.finiteMath = true)
    (unambiguous : Unambiguous headers build value) : ∃ d,
    value = .double d := by
  have sharesWord : (Boxable.double (value.box build)).box build =
      value.box build :=
    Runtime.Boxing.boxDouble_of_finiteMath folded _
  have sameKind := (unambiguous.alone _ sharesWord).1
  cases value with
  | double d => exact ⟨d, rfl⟩
  | _ => cases sameKind

/-- A double that is kept where NaNs are not recognised shares its word with no
value. -/
theorem alone_of_double
    (folded : build.finiteMath = true)
    {d : BitVec 64}
    (kept : (Boxable.double d).Kept build)
    (other : Boxable)
    (same : other.box build = (Boxable.double d).box build) :
    other.kind = .double ∧ other.canonical = (Boxable.double d).canonical := by
  cases other with
  | double d' =>
      simp only [Boxable.box,
        Runtime.Boxing.boxDouble_of_finiteMath folded] at same
      rw [same]
      exact ⟨rfl, rfl⟩
  | _ => exact Boxable.eq_of_box_eq (by trivial) kept same

end Builds

/-- The words of a build that recognises NaNs are unambiguous.  In one that does
not, exactly the doubles other than NaNs, and the canonical NaN, have a word of
their own, but everything is unambiguous among what is kept. -/
theorem unambiguous_iff
    (headers : Headers)
    (build : BuildType) :
    (∀ value : Boxable,
      (Unambiguous headers build value ↔
        build.finiteMath = false ∨ ∃ d, value = .double d ∧
          (Boxable.double d).Kept build) ∧
      (Readable headers build value ↔ value.Kept build)) ∧
    (∀ first second : Boxable,
      first.Kept build →
      second.Kept build →
      first.box build = second.box build →
      first.kind = second.kind ∧ first.canonical = second.canonical) ∧
    SameFunctions := by
  refine ⟨?_, fun _ _ => Boxable.eq_of_box_eq, sameFunctions⟩
  intro value
  refine ⟨?_, readable_iff_kept⟩
  have keptOf (recognises : build.finiteMath = false) (value : Boxable) :
      value.Kept build := by
    cases value with
    | double d =>
        intro folded
        cases recognises.symm.trans folded
    | _ => trivial
  constructor
  · intro unambiguous
    cases folded : build.finiteMath with
    | false => exact .inl rfl
    | true =>
        obtain ⟨d, rfl⟩ := double_of_alone folded unambiguous
        exact .inr ⟨d, rfl, readable_iff_kept.mp unambiguous.toReadable⟩
  · rintro (recognises | ⟨d, rfl, kept⟩)
    · refine ⟨readable_iff_kept.mpr (keptOf recognises value), ?_⟩
      intro other same
      exact Boxable.eq_of_box_eq (keptOf recognises other)
        (keptOf recognises value) same
    · refine ⟨readable_iff_kept.mpr kept, ?_⟩
      intro other same
      cases folded : build.finiteMath with
      | false =>
          exact Boxable.eq_of_box_eq (keptOf folded other)
            (keptOf folded _) same
      | true => exact alone_of_double folded kept other same

/-- Every object is a string. -/
def stringHeaders : Headers where
  typeAt _ := 1
  isHeapType _ := by decide

/-- The default build boxes the negative quiet NaN as a word that no test knows,
and another NaN as the word of the integer 5. -/
theorem release_keeps_nan :
    (¬ Unambiguous stringHeaders .release (.double 0xFFF8000000000000#64)) ∧
    (∀ kind : Kind,
      kind.test ((Boxable.double 0xFFF8000000000000#64).box .release) = false) ∧
    (Boxable.double 0xFFFF000000000005#64).box .release =
      (Boxable.int32 5#32).box .release := by
  have noTest (kind : Kind) :
      kind.test ((Boxable.double 0xFFF8000000000000#64).box .release) =
        false := by
    cases kind <;> decide
  refine ⟨?_, noTest, by decide⟩
  intro unambiguous
  have passes := (unambiguous.tests .double).mpr rfl
  cases passes.symm.trans (noTest .double)

/-- A debug build boxes that NaN as the canonical one, and a pointer keeps its
own word. -/
theorem debug_words_unambiguous :
    Unambiguous stringHeaders .debug (.double 0xFFF8000000000000#64) ∧
    Unambiguous stringHeaders .debug (.ptr ⟨0x1000#64, by decide⟩) ∧
    ¬ Unambiguous stringHeaders .release (.ptr ⟨0x1000#64, by decide⟩) := by
  refine ⟨((unambiguous_iff stringHeaders .debug).1 _).1.mpr (.inl rfl),
    ((unambiguous_iff stringHeaders .debug).1 _).1.mpr (.inl rfl), ?_⟩
  intro unambiguous
  rcases ((unambiguous_iff stringHeaders .release).1 _).1.mp unambiguous with
    recognises | ⟨d, isDouble, -⟩
  · cases recognises
  · cases isDouble

end ValueEncoder
end Codegen
end ClojureRt
