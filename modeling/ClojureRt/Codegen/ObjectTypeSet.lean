import ClojureRt.Runtime.Numbers
import Mathlib.Data.Finset.Basic
import Mathlib.Data.Finset.Card

/-!
# Type sets of the code generator

The code generator describes what an expression can return by a set of object
types, a flag for "any type at all" and, where it is known, the one constant the
expression returns.  This module has the values of the runtime as far as such a
set tells them apart, and the operations of `ObjectTypeSet`.

The number of a registered class is the argument of `custom`.
-/

namespace ClojureRt
namespace Codegen

/-- `objectType`. -/
inductive ObjectType
  | stringType
  | doubleType
  | persistentListType
  | persistentVectorType
  | persistentVectorNodeType
  | concurrentHashMapType
  | functionType
  | bigIntegerType
  | nullType
  | symbolType
  | keywordType
  | nilType
  | booleanType
  | integerType
  | ratioType
  | classType
  | persistentArrayMapType
  | varType
  | objectRootType
  | exceptionType
  | bridgedObjectType
  | stringBuilderType
  | persistentVectorChunkedSeqType
  | arrayChunkType
  | persistentVectorReverseSeqType
  | executionContextType
  | concurrentHashMapNodeType
  | namespaceType
  | custom (id : Nat)
  deriving DecidableEq

/-- `ConstantMethod`.  The implementation is the address of an emitted
function. -/
structure ConstantMethod where
  fixedArity : BitVec 32
  isVariadic : Bool
  index : BitVec 32
  implementation : Nat
  deriving DecidableEq

/-- `ObjectTypeConstant` and its subclasses.  A ratio is canonical, so it is a
rational number.  A `ConstantFunction` tells functions apart by the methods they
were made of. -/
inductive Constant
  | nil
  | boolean (value : Bool)
  | integer (value : BitVec 32)
  | double (value : Runtime.Double)
  | bigInteger (value : Int)
  | ratio (value : Rat)
  | string (value : String)
  | symbol (value : String)
  | keyword (value : String)
  | className (value : String)
  | function (methods : List ConstantMethod) (once : Bool)
  deriving DecidableEq

/-- `constantType`. -/
def Constant.constantType : Constant → ObjectType
  | .nil => .nilType
  | .boolean _ => .booleanType
  | .integer _ => .integerType
  | .double _ => .doubleType
  | .bigInteger _ => .bigIntegerType
  | .ratio _ => .ratioType
  | .string _ => .stringType
  | .symbol _ => .symbolType
  | .keyword _ => .keywordType
  | .className _ => .classType
  | .function _ _ => .functionType

/-- A value at run time.  Values of the types that constants have are written as
constants, every other value by its type and address. -/
inductive Value
  | constant (known : Constant)
  | object
      (type : ObjectType)
      (address : Nat)
      (unnamed : ∀ known : Constant, known.constantType ≠ type)

namespace Value

/-- `getType` of the runtime. -/
def type : Value → ObjectType
  | .constant known => known.constantType
  | .object type _ _ => type

/-- `RT_isTruthy`. -/
def isTruthy : Value → Bool
  | .constant .nil => false
  | .constant (.boolean value) => value
  | _ => true

theorem eq_nil_of_type
    {value : Value}
    (isNil : value.type = .nilType) :
    value = .constant .nil := by
  cases value with
  | constant known => cases known <;> simp_all [type, Constant.constantType]
  | object type address unnamed => exact absurd isNil.symm (unnamed .nil)

/-- A value that is neither nil nor a boolean counts as true. -/
theorem isTruthy_of_type
    {value : Value}
    (notNil : value.type ≠ .nilType)
    (notBoolean : value.type ≠ .booleanType) :
    value.isTruthy = true := by
  cases value with
  | constant known =>
      cases known <;> simp_all [type, isTruthy, Constant.constantType]
  | object type address unnamed => rfl

end Value

/-- `ObjectTypeSet`. -/
structure ObjectTypeSet where
  internal : Finset ObjectType
  constant : Option Constant
  isBoxed : Bool
  allTypes : Bool

namespace ObjectTypeSet

/-- The set without types. -/
def empty : ObjectTypeSet := ⟨∅, none, false, false⟩

/-- `ObjectTypeSet(type, isBoxed, cons)`: nil is its own constant. -/
def ofType
    (type : ObjectType)
    (isBoxed : Bool)
    (constant : Option Constant) : ObjectTypeSet :=
  ⟨{type}, if constant.isNone ∧ type = .nilType then some .nil else constant,
    isBoxed, false⟩

/-- The type set of a literal. -/
def ofConstant (constant : Constant) (isBoxed : Bool) : ObjectTypeSet :=
  ofType constant.constantType isBoxed (some constant)

/-- `all`: the types with a name, and every other one. -/
def all : ObjectTypeSet where
  internal :=
    {.integerType, .stringType, .persistentListType, .persistentVectorType, .doubleType,
      .nilType, .booleanType, .symbolType, .keywordType, .functionType,
        .bigIntegerType,
      .ratioType, .classType, .persistentArrayMapType, .varType,
      .objectRootType,
      .exceptionType, .bridgedObjectType, .stringBuilderType,
      .persistentVectorChunkedSeqType, .persistentVectorReverseSeqType,
      .arrayChunkType,
      .namespaceType}
  constant := none
  isBoxed := true
  allTypes := true

/-- `dynamicType`. -/
def dynamicType : ObjectTypeSet := { all with isBoxed := true }

variable (types other : ObjectTypeSet)

/-- `isEmpty`. -/
def isEmpty : Bool :=
  decide (types.internal = ∅) && !types.allTypes

/-- `contains`. -/
def contains (type : ObjectType) : Bool :=
  types.allTypes || decide (type ∈ types.internal)

/-- `isDetermined`. -/
def isDetermined : Bool :=
  decide (types.internal.card = 1) && !types.allTypes

/-- `isDetermined() && determinedType() == type`. -/
def isDeterminedAs (type : ObjectType) : Bool :=
  types.isDetermined && decide (type ∈ types.internal)

/-- The test of `determinedType()` in `isScalar` and `isBoxedScalar`. -/
def isDeterminedScalar : Bool :=
  types.isDeterminedAs .integerType || types.isDeterminedAs .booleanType ||
    types.isDeterminedAs .doubleType || types.isDeterminedAs .nilType ||
    types.isDeterminedAs .keywordType

/-- `isScalar`. -/
def isScalar : Bool :=
  !types.isBoxed && types.isDeterminedScalar

/-- `isBoxedScalar`. -/
def isBoxedScalar : Bool :=
  types.isBoxed && types.isDeterminedScalar

/-- `unboxed`. -/
def unboxed : ObjectTypeSet :=
  if types.isDetermined then { types with isBoxed := false } else types

/-- `boxed`. -/
def boxed : ObjectTypeSet := { types with isBoxed := true }

/-- `expansion`.  Joining with a set that has every type returns before the
constant is removed. -/
def expansion : ObjectTypeSet :=
  if other.allTypes then
    { types with allTypes := true }
  else
    { internal := types.internal ∪ other.internal
      constant := none
      isBoxed := (types.isBoxed && !types.isEmpty) ||
        (other.isBoxed && !other.isEmpty) ||
        decide (1 < (types.internal ∪ other.internal).card)
      allTypes := types.allTypes }

/-- `operator==`, which does not compare constants. -/
def sameTypes : Bool :=
  decide (types.internal = other.internal) && types.isBoxed == other.isBoxed &&
    types.allTypes == other.allTypes

/-- `removeConst`.  The flag for every type is not copied. -/
def removeConst : ObjectTypeSet :=
  { internal := types.internal, constant := none, isBoxed := types.isBoxed, allTypes := false }

/-- `restriction`. -/
def restriction : ObjectTypeSet :=
  if other.allTypes then
    types
  else
    { internal := types.internal ∩ other.internal
      constant := types.constant.filter fun constant =>
        decide (constant.constantType ∈ types.internal ∩ other.internal)
      isBoxed := types.isBoxed
      allTypes := false }

/-- The values a type set stands for: those of its types, and where it carries a
constant only that constant. -/
def Describes (value : Value) : Prop :=
  types.contains value.type = true ∧
    ∀ constant, types.constant = some constant → value = .constant constant

variable {types other}

theorem contains_iff {type : ObjectType} :
    types.contains type = true ↔ types.allTypes = true ∨
      type ∈ types.internal := by
  simp [contains]

@[simp] theorem restriction_all : types.restriction all = types := rfl

theorem contains_boxed (type : ObjectType) :
    types.boxed.contains type = types.contains type :=
  rfl

/-- A join has the types of both sets. -/
theorem contains_expansion (type : ObjectType) :
    (types.expansion other).contains type =
    (types.contains type || other.contains type) := by
  unfold expansion
  split
  · next all => simp [contains, all]
  · next notAll => simp [contains, notAll, Bool.or_assoc]

/-- The type in a set of one type is the determined one. -/
theorem isDeterminedAs_of_contains
    {type : ObjectType}
    (determined : types.isDetermined = true)
    (contained : types.contains type = true) :
    types.isDeterminedAs type = true := by
  have notAll : types.allTypes = false := by
    simp only [isDetermined, Bool.and_eq_true, Bool.not_eq_true'] at determined
    exact determined.2
  rw [isDeterminedAs, determined, Bool.true_and]
  rwa [contains, notAll, Bool.false_or] at contained

theorem contains_of_isEmpty
    (isEmpty : types.isEmpty = true)
    (type : ObjectType) : types.contains type = false := by
  simp only [ObjectTypeSet.isEmpty, Bool.and_eq_true, decide_eq_true_eq,
    Bool.not_eq_true']
    at isEmpty
  simp [contains, isEmpty]

theorem describes_ofConstant (constant : Constant) (isBoxed : Bool) :
    (ofConstant constant isBoxed).Describes (.constant constant) := by
  constructor
  · simp [contains, ofConstant, ofType, Value.type]
  · intro carried isCarried
    simp only [ofConstant, ofType, Option.isNone_some, Bool.false_eq_true,
      false_and, if_false, Option.some.injEq] at isCarried
    rw [isCarried]

theorem describes_ofType
    {type : ObjectType}
    {value : Value}
    (typed : value.type = type)
    (isBoxed : Bool) :
    (ofType type isBoxed none).Describes value := by
  constructor
  · simp [contains, ofType, typed]
  · intro carried isCarried
    simp only [ofType, Option.isNone_none, true_and] at isCarried
    split at isCarried
    · next isNil =>
        rw [Value.eq_nil_of_type (typed.trans isNil), Option.some.inj isCarried]
    · simp at isCarried

theorem describes_dynamicType
    (value : Value) : dynamicType.Describes value := by
  constructor
  · simp [contains, dynamicType, all]
  · intro carried isCarried
    simp [dynamicType, all] at isCarried

/-- A set of one type only stands for values of that type. -/
theorem Describes.type_eq
    {value : Value}
    {type : ObjectType}
    (described : types.Describes value)
    (determined : types.isDeterminedAs type = true) :
    value.type = type := by
  simp only [isDeterminedAs, isDetermined, Bool.and_eq_true, decide_eq_true_eq,
    Bool.not_eq_true', Finset.card_eq_one] at determined
  obtain ⟨⟨⟨single, isSingle⟩, notAll⟩, isMember⟩ := determined
  have contained := described.1
  simp only [contains, notAll, Bool.false_or, decide_eq_true_eq] at contained
  rw [isSingle, Finset.mem_singleton] at contained isMember
  rw [contained, isMember]

/-- Values of the set that is expanded stay described: they already equal a
constant that is kept. -/
theorem Describes.expansion_left
    {value : Value}
    (described : types.Describes value) :
    (types.expansion other).Describes value := by
  obtain ⟨contained, isConstant⟩ := described
  unfold expansion
  split
  · exact ⟨by simp [contains], isConstant⟩
  · constructor
    · simp only [contains, Bool.or_eq_true, decide_eq_true_eq] at contained
      simp only [contains, Bool.or_eq_true, decide_eq_true_eq, Finset.mem_union]
      exact contained.imp_right Or.inl
    · intro carried isCarried
      simp at isCarried

/-- Values of the set joined in are described unless a constant of the expanded
set stays behind. -/
theorem Describes.expansion_right
    {value : Value}
    (described : other.Describes value)
    (kept :
      other.allTypes = true →
        ∀ constant, types.constant = some constant →
          value = .constant constant) :
    (types.expansion other).Describes value := by
  unfold expansion
  split
  · next allOther => exact ⟨by simp [contains], kept allOther⟩
  · next notAll =>
      constructor
      · have contained := described.1
        simp only [contains, Bool.or_eq_true, decide_eq_true_eq] at contained
        simp only [contains, Bool.or_eq_true, decide_eq_true_eq,
          Finset.mem_union]
        exact Or.inr (Or.inr (contained.resolve_left notAll))
      · intro carried isCarried
        simp at isCarried

end ObjectTypeSet

end Codegen
end ClojureRt
