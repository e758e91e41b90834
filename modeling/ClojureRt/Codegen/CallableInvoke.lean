import ClojureRt.Codegen.ObjectTypeSet
import ClojureRt.Runtime.ArrayMap.Equality

/-!
# Calling keywords, maps and vectors

If the type of a callee is known, the code generator emits the lookup itself.
Otherwise `RT_updateICSlot` chooses a global method by the type of the callee
and the number of arguments.  The two were written apart: a map with two
arguments is a lookup with a default for the one and an invalid arity for the
other.

Both test the result of a lookup for nil to see if the default is due, so the
default also takes the place of a stored nil.  An index that is known to be an
integer is passed as an `i32` to a function with a 64-bit parameter; what that
function finds above the 32 bits is a parameter here.
-/

namespace ClojureRt
namespace Codegen

open ClojureRt.Runtime.ArrayMap (RTValue boxNil boxNull rtValue)

/-- The numbers of `objectType`.  Tag 14 is that of pointers. -/
def ObjectType.ofNumber : Nat → ObjectType
  | 1 => .stringType
  | 2 => .doubleType
  | 3 => .persistentListType
  | 4 => .persistentVectorType
  | 5 => .persistentVectorNodeType
  | 6 => .concurrentHashMapType
  | 7 => .functionType
  | 8 => .bigIntegerType
  | 9 => .nullType
  | 10 => .symbolType
  | 11 => .keywordType
  | 12 => .nilType
  | 13 => .booleanType
  | 15 => .integerType
  | 16 => .ratioType
  | 17 => .classType
  | 18 => .persistentArrayMapType
  | 19 => .varType
  | 20 => .objectRootType
  | 21 => .exceptionType
  | 22 => .bridgedObjectType
  | 23 => .stringBuilderType
  | 24 => .persistentVectorChunkedSeqType
  | 25 => .arrayChunkType
  | 26 => .persistentVectorReverseSeqType
  | 27 => .executionContextType
  | 28 => .concurrentHashMapNodeType
  | 29 => .namespaceType
  | number => .custom number

namespace CallableInvoke

/-- A value with all that it holds. -/
abbrev Value (Object : Type*) := Runtime.ArrayMap.Value Object

/-- The objects other than maps.  They have types of the heap, and vectors have
elements. -/
structure Heap (Object : Type*) extends Runtime.ArrayMap.Objects Object where
  elements : Object → List (Value Object)
  isHeapType : ∀ object, type object ∉ [9, 11, 12, 13, 15, 18]

/-- The exceptions of an invocation. -/
inductive InvokeException
  /-- A rejection at compile time. -/
  | codeGeneration (message : String)
  | illegalState (message : String)
  | illegalArgument (message : String)
  | indexOutOfBounds (index : BitVec 64) (count : Nat)
  deriving DecidableEq

/-- What an invocation comes to. -/
inductive Outcome
  | value (result : RTValue)
  | raises (exception : InvokeException)
  deriving DecidableEq

/-- An argument: what the compiler knows of it, and its value. -/
structure Argument (Object : Type*) where
  types : ObjectTypeSet
  value : Value Object

variable {Object : Type*} (heap : Heap Object)

/-! ## The runtime -/

/-- `getType` -/
def getType : Value Object → ObjectType
  | .word bits =>
      if 0xFFF1000000000000#64 ≤ bits then .ofNumber
        ((bits >>> 48) &&& 0xF#64).toNat
      else .doubleType
  | .object object => .ofNumber (heap.type object)
  | .map _ _ => .persistentArrayMapType

/-- `RT_isInt32` -/
def isInt32 (value : Value Object) : Bool :=
  rtValue heap.toObjects value &&& 0xFFFF000000000000#64 ==
    0xFFFF000000000000#64

/-- `RT_unboxInt32` -/
def unboxInt32 (value : Value Object) : BitVec 32 :=
  (rtValue heap.toObjects value).setWidth 32

/-- The entries of an array map. -/
def entries : Value Object → List (Value Object × Value Object)
  | .map _ entries => entries
  | _ => []

/-- The elements of a vector. -/
def elements : Value Object → List (Value Object)
  | .object object => heap.elements object
  | _ => []

/-- `PersistentArrayMap_get` -/
def mapGet (self key : Value Object) : RTValue :=
  rtValue heap.toObjects
    (Runtime.ArrayMap.get heap.toObjects
      (Runtime.ArrayMap.equals heap.toObjects) (entries self) key)

/-- `PersistentArrayMap_dynamic_get` -/
def mapDynamicGet (self key : Value Object) : Outcome :=
  if getType heap self ≠ .persistentArrayMapType then
    .raises (.illegalArgument "Argument must be a PersistentArrayMap")
  else
    .value (mapGet heap self key)

/-- `PersistentVector_nth` -/
def vectorNth (self : Value Object) (index : BitVec 64) : Outcome :=
  match (elements heap self)[index.toNat]? with
  | some element => .value (rtValue heap.toObjects element)
  | none => .raises (.indexOutOfBounds index (elements heap self).length)

/-- `PersistentVector_dynamic_nth` -/
def vectorDynamicNth (self indexObject : Value Object) : Outcome :=
  if !isInt32 heap indexObject then
    .raises (.illegalArgument "Index must be an integer")
  else
    vectorNth heap self ((unboxInt32 heap indexObject).signExtend 64)

/-- `Keyword_invoke` -/
def keywordInvoke (self map : Value Object) (defaultVal : RTValue) : RTValue :=
  if getType heap map = .persistentArrayMapType then
    let res := mapGet heap map self
    if res = boxNil then defaultVal else res
  else
    defaultVal

/-! ## The dynamic path -/

/-- The methods for callees that are no functions. -/
inductive GlobalMethod
  | keywordMethod1
  | keywordMethod2
  | mapMethod1
  | vectorMethod1
  deriving DecidableEq

/-- `RT_updateICSlot` on a callee that is no function. -/
def updateICSlot
    (currentVal : Value Object)
    (argCount : Nat) : Except InvokeException GlobalMethod :=
  let method : Option GlobalMethod :=
    if getType heap currentVal = .keywordType then
      if argCount = 1 then some .keywordMethod1
      else if argCount = 2 then some .keywordMethod2
      else none
    else if getType heap currentVal = .persistentArrayMapType then
      if argCount = 1 then some .mapMethod1 else none
    else if getType heap currentVal = .persistentVectorType then
      if argCount = 1 then some .vectorMethod1 else none
    else
      none
  match method with
  | some method => .ok method
  | none => .error (.illegalState "Attempted to invoke non-callable value or invalid arity")

/-- `Baseline_Keyword_Invoke_1` and the others.  Of the five registers they read
the first two. -/
def GlobalMethod.run (self arg0 : Value Object)
    (arg1 : RTValue) : GlobalMethod → Outcome
  | .keywordMethod1 => .value (keywordInvoke heap self arg0 boxNil)
  | .keywordMethod2 => .value (keywordInvoke heap self arg0 arg1)
  | .mapMethod1 => mapDynamicGet heap self arg0
  | .vectorMethod1 => vectorDynamicNth heap self arg0

/-- `generateDynamicInvoke`.  An argument that is not there is nil. -/
def generateDynamicInvoke (callee : Value Object)
    (args : List (Argument Object)) : Outcome :=
  let register (index : Nat) : Value Object :=
    match args[index]? with
    | some argument => argument.value
    | none => .word boxNil
  match updateICSlot heap callee args.length with
  | .ok method =>
      method.run heap callee (register 0) (rtValue heap.toObjects (register 1))
  | .error exception => .raises exception

/-! ## The static path -/

/-- `generateStaticMapInvoke` -/
def generateStaticMapInvoke (map : Value Object) : List
    (Argument Object) → Outcome
  | [key] => .value (mapGet heap map key.value)
  | [key, default] =>
      let res := mapGet heap map key.value
      if res = boxNil then .value (rtValue heap.toObjects default.value)
      else .value res
  | _ => .raises (.codeGeneration "Map invoke must have 1 or 2 arguments")

/-- `generateStaticKeywordInvoke`.  It hands the keyword on as the key. -/
def generateStaticKeywordInvoke (keyword : Value Object) : List
    (Argument Object) → Outcome
  | [map] =>
      if map.types.isDetermined then
        if map.types.isDeterminedAs .persistentArrayMapType then
          generateStaticMapInvoke heap map.value
            [⟨.ofType .keywordType false none, keyword⟩]
        else
          .value boxNil
      else
        .value (keywordInvoke heap keyword map.value boxNil)
  | [map, default] =>
      if map.types.isDetermined then
        if map.types.isDeterminedAs .persistentArrayMapType then
          generateStaticMapInvoke heap map.value
            [⟨.ofType .keywordType false none, keyword⟩, default]
        else
          .value (rtValue heap.toObjects default.value)
      else
        .value (keywordInvoke heap keyword map.value
          (rtValue heap.toObjects default.value))
  | _ => .raises (.codeGeneration "Keyword invoke must have 1 or 2 arguments")

variable (widen : BitVec 32 → BitVec 64)

/-- `generateStaticVectorInvoke`.  The parameter is what a function finds in its
64-bit parameter when the caller passed 32 bits. -/
def generateStaticVectorInvoke (vector : Value Object) : List
    (Argument Object) → Outcome
  | [index] =>
      if index.types.isDeterminedAs .integerType then
        vectorNth heap vector (widen (unboxInt32 heap index.value))
      else
        vectorDynamicNth heap vector index.value
  | _ => .raises (.codeGeneration "Vector invoke must have 1 arguments")

/-- `codegen` of an `InvokeNode` whose callee has a known type, as far as
keywords, maps and vectors go. -/
def codegenInvoke
    (callee : Value Object)
    (args : List (Argument Object)) : Option Outcome :=
  match getType heap callee with
  | .keywordType => some (generateStaticKeywordInvoke heap callee args)
  | .persistentArrayMapType => some (generateStaticMapInvoke heap callee args)
  | .persistentVectorType =>
      some (generateStaticVectorInvoke heap widen callee args)
  | _ => none

/-! ## Agreement -/

/-- The dynamic path comes to the same as the static one.  A rejection at
compile time counts as any exception. -/
def SameOutcome (static dynamic : Outcome) : Prop :=
  static = dynamic ∨
    ∃ message exception, static = .raises (.codeGeneration message) ∧
      dynamic = .raises exception

/-- The map, the key and the default of an invocation that looks a key up. -/
def lookup
    (callee : Value Object)
    (args : List (Argument Object)) :
    Option (Value Object × Value Object × RTValue) :=
  match getType heap callee, args with
  | .keywordType, [map] => some (map.value, callee, boxNil)
  | .keywordType, [map, default] =>
      some (map.value, callee, rtValue heap.toObjects default.value)
  | .persistentArrayMapType, [key] => some (callee, key.value, boxNil)
  | .persistentArrayMapType, [key, default] =>
      some (callee, key.value, rtValue heap.toObjects default.value)
  | _, _ => none

/-- What a map has under a key.  Other values have nothing. -/
def stored (map key : Value Object) : Option RTValue :=
  (AssocList.get (Runtime.ArrayMap.equals heap.toObjects) key (entries map)).map
    (rtValue heap.toObjects)

/-- Where a key is looked up, the outcome is the default if the key is absent
and what is stored if it is there. -/
def LooksUp
    (callee : Value Object)
    (args : List (Argument Object))
    (outcome : Outcome) : Prop :=
  ∀ map key default, lookup heap callee args = some (map, key, default) →
    outcome = .value ((stored heap map key).getD default)

/-- The two paths agree, and both return the default exactly if the key is
absent. -/
def InvokesAlike (callee : Value Object)
    (args : List (Argument Object)) : Prop :=
  ∃ static, codegenInvoke heap widen callee args = some static ∧
    SameOutcome static (generateDynamicInvoke heap callee args) ∧
    LooksUp heap callee args static ∧
    LooksUp heap callee args (generateDynamicInvoke heap callee args)

/-- The index the function finds designates the element that the sign-extended
index designates.  If there is none, it is the same index. -/
def SameElement (vector : Value Object) (index : BitVec 32) : Prop :=
  let found := widen index
  let extended := index.signExtend 64
  found = extended ∨
    ∃ element other,
      (elements heap vector)[found.toNat]? = some element ∧
      (elements heap vector)[extended.toNat]? = some other ∧
      rtValue heap.toObjects element = rtValue heap.toObjects other

/-- When the two paths agree: a map has one argument, a nil found is the
default, and an index known to be an integer is still the same index as 64
bits. -/
structure Unambiguous (callee : Value Object) (args : List (Argument Object)) :
    Prop where
  arity : getType heap callee = .persistentArrayMapType → args.length = 1
  found : ∀ map key default,
    lookup heap callee args = some (map, key, default) →
    ∀ value, stored heap map key = some value → value = boxNil ∨
      value = boxNull →
      value = default
  index : getType heap callee = .persistentVectorType →
    ∀ index, args = [index] → index.types.isDeterminedAs .integerType = true →
      SameElement heap widen callee (unboxInt32 heap index.value)

/-! ## Types -/

theorem ObjectType.ofNumber_eq_integerType {number : Nat} :
    ObjectType.ofNumber number = .integerType ↔ number = 15 := by
  constructor
  · intro isInteger
    unfold ObjectType.ofNumber at isInteger
    split at isInteger
    all_goals first | rfl | cases isInteger
  · rintro rfl
    rfl

/-- A set of one type that has the type of a value is determined as that type
only. -/
theorem isDeterminedAs_iff
    {types : ObjectTypeSet}
    {type other : ObjectType}
    (contained : types.contains type = true)
    (determined : types.isDetermined = true) :
    types.isDeterminedAs other = true ↔ type = other := by
  unfold ObjectTypeSet.isDetermined at determined
  simp only [Bool.and_eq_true, decide_eq_true_eq, Bool.not_eq_true',
    Finset.card_eq_one]
    at determined
  obtain ⟨⟨single, isSingle⟩, notAll⟩ := determined
  rw [ObjectTypeSet.contains_iff, notAll, isSingle,
    Finset.mem_singleton] at contained
  have isType : type = single := contained.resolve_left Bool.false_ne_true
  simp [ObjectTypeSet.isDeterminedAs, ObjectTypeSet.isDetermined, notAll,
    isSingle, isType, eq_comm]

theorem mask_eq_of_tag
    {bits : RTValue}
    (tagged : 0xFFF1000000000000#64 ≤ bits)
    (tag : ((bits >>> 48) &&& 0xF#64).toNat = 15) :
    bits &&& 0xFFFF000000000000#64 = 0xFFFF000000000000#64 := by
  have upper : bits >>> 48 = 0xFFFF#64 := by
    apply BitVec.eq_of_toNat_eq
    have isLast : bits.toNat / 2 ^ 48 % 2 ^ 4 = 15 := by
      rw [← Nat.and_two_pow_sub_one_eq_mod, ← Nat.shiftRight_eq_div_pow]
      simpa using tag
    have isTagged : 0xFFF1000000000000 ≤ bits.toNat := tagged
    have inRange := bits.isLt
    simp only [BitVec.toNat_ushiftRight, Nat.shiftRight_eq_div_pow,
      BitVec.toNat_ofNat]
    omega
  have cleared : bits &&& 0xFFFF000000000000#64 = (bits >>> 48) <<< 48 := by
    have mask : 0xFFFF000000000000#64 = (BitVec.allOnes 64 >>> 48) <<< 48 := by
      decide
    rw [mask]
    ext index isIndex
    simp only [BitVec.getElem_and, BitVec.getElem_shiftLeft,
      BitVec.getElem_ushiftRight, BitVec.getLsbD_allOnes]
    by_cases below : index < 48
    · simp [below]
    · have shifted : 48 + (index - 48) = index := by omega
      simp only [below, shifted, isIndex, decide_true, decide_false,
        Bool.not_false, Bool.true_and, Bool.and_true]
      exact (BitVec.getLsbD_eq_getElem isIndex).symm
  rw [cleared, upper]
  decide

/-- What has the type of integers is tagged as one. -/
theorem isInt32_of_type
    {value : Value Object}
    (isInteger : getType heap value = .integerType) :
    isInt32 heap value = true := by
  cases value with
  | word bits =>
      simp only [getType] at isInteger
      split at isInteger
      · next tagged =>
          rw [isInt32, beq_iff_eq]
          exact mask_eq_of_tag tagged
            (ObjectType.ofNumber_eq_integerType.mp isInteger)
      · cases isInteger
  | object object =>
      have number := ObjectType.ofNumber_eq_integerType.mp isInteger
      exact absurd (by simp [number]) (heap.isHeapType object)
  | map bits entries => cases isInteger

/-! ## Lookups -/

/-- The default in place of a nil. -/
def orDefault (res default : RTValue) : RTValue :=
  if res = boxNil then default else res

@[simp]
theorem orDefault_nil (res : RTValue) : orDefault res boxNil = res := by
  unfold orDefault
  split
  · next isNil => exact isNil.symm
  · rfl

theorem mapGet_eq (map key : Value Object) :
    mapGet heap map key =
      if stored heap map key = none ∨
        stored heap map key = some boxNull then boxNil
      else (stored heap map key).getD boxNil := by
  have nilWord : rtValue heap.toObjects (.word boxNil) = boxNil := rfl
  have nullWord : rtValue heap.toObjects (.word boxNull) = boxNull := rfl
  unfold mapGet stored Runtime.ArrayMap.get
  cases AssocList.get (Runtime.ArrayMap.equals heap.toObjects) key
    (entries map) with
  | none => simp [nilWord, nullWord]
  | some value =>
      by_cases isNull : rtValue heap.toObjects value = boxNull
      · simp [isNull, nilWord]
      · simp [isNull]

/-- A lookup is right exactly if no nil is found that is not the default. -/
theorem orDefault_mapGet_iff (map key : Value Object) (default : RTValue) :
    orDefault (mapGet heap map key) default = (stored heap map key).getD
      default ↔
      ∀ value, stored heap map key = some value → value = boxNil ∨
        value = boxNull →
        value = default := by
  rw [mapGet_eq]
  cases stored heap map key with
  | none => simp [orDefault]
  | some value =>
      simp only [reduceCtorEq, Option.some.injEq, false_or, Option.getD_some]
      by_cases isNull : value = boxNull
      · simp [isNull, orDefault, eq_comm]
      · by_cases isNil : value = boxNil
        · simp [isNil, orDefault, eq_comm]
        · simp [isNull, isNil, orDefault]

theorem entries_of_type
    {value : Value Object}
    (notMap : getType heap value ≠ .persistentArrayMapType) :
    entries value = [] := by
  cases value with
  | word bits => rfl
  | object object => rfl
  | map bits entries => exact absurd rfl notMap

theorem stored_of_type
    {map : Value Object}
    (notMap : getType heap map ≠ .persistentArrayMapType)
    (key : Value Object) : stored heap map key = none := by
  simp [stored, entries_of_type heap notMap]

/-- `Keyword_invoke` finds nothing in what is no map. -/
theorem keywordInvoke_eq (self map : Value Object) (defaultVal : RTValue) :
    keywordInvoke heap self map defaultVal = orDefault (mapGet heap map self)
      defaultVal := by
  unfold keywordInvoke
  split
  · rfl
  · next notMap => simp [mapGet_eq, stored_of_type heap notMap, orDefault]

/-! ## Keywords -/

/-- Either way a keyword is looked up. -/
theorem generateStaticKeywordInvoke_one
    {keyword : Value Object}
    {map : Argument Object}
    (known : map.types.contains (getType heap map.value) = true) :
    generateStaticKeywordInvoke heap keyword [map] =
      .value (orDefault (mapGet heap map.value keyword) boxNil) := by
  simp only [generateStaticKeywordInvoke, keywordInvoke_eq]
  split
  · next determined =>
      simp only [isDeterminedAs_iff known determined, generateStaticMapInvoke,
        orDefault_nil]
      split
      · rfl
      · next notMap => simp [mapGet_eq, stored_of_type heap notMap]
  · rfl

theorem generateStaticKeywordInvoke_two
    {keyword : Value Object}
    {map default : Argument Object}
    (known : map.types.contains (getType heap map.value) = true) :
    generateStaticKeywordInvoke heap keyword [map, default] =
      .value (orDefault (mapGet heap map.value keyword)
        (rtValue heap.toObjects default.value)) := by
  simp only [generateStaticKeywordInvoke, keywordInvoke_eq]
  split
  · next determined =>
      simp only [isDeterminedAs_iff known determined, generateStaticMapInvoke]
      split
      · unfold orDefault
        split <;> rfl
      · next notMap => simp [mapGet_eq, stored_of_type heap notMap, orDefault]
  · rfl

/-- A lookup that both paths do alike. -/
theorem invokesAlike_of_lookup
    {callee map key : Value Object}
    {args : List (Argument Object)}
    {default : RTValue}
    (looksUp : lookup heap callee args = some (map, key, default))
    (static : codegenInvoke heap widen callee args =
      some (.value (orDefault (mapGet heap map key) default)))
    (dynamic : generateDynamicInvoke heap callee args =
      .value (orDefault (mapGet heap map key) default)) :
    InvokesAlike heap widen callee args ↔
      ∀ value, stored heap map key = some value → value = boxNil ∨
        value = boxNull →
        value = default := by
  rw [← orDefault_mapGet_iff]
  constructor
  · rintro ⟨outcome, isStatic, _, right, _⟩
    rw [static, Option.some.injEq] at isStatic
    have returned := right map key default looksUp
    rw [← isStatic] at returned
    exact Outcome.value.inj returned
  · intro right
    have looked :
        LooksUp heap callee args
        (.value (orDefault (mapGet heap map key) default)) := by
      intro otherMap otherKey otherDefault otherwise
      rw [looksUp, Option.some.injEq, Prod.mk.injEq, Prod.mk.injEq] at otherwise
      rw [← otherwise.1, ← otherwise.2.1, ← otherwise.2.2, right]
    exact ⟨_, static, Or.inl dynamic.symm, looked, dynamic ▸ looked⟩

/-- The condition for a lookup that has a valid arity. -/
theorem unambiguous_iff_of_lookup
    {callee map key : Value Object}
    {args : List (Argument Object)}
    {default : RTValue}
    (looksUp : lookup heap callee args = some (map, key, default))
    (notVector : getType heap callee ≠ .persistentVectorType)
    (arity : getType heap callee = .persistentArrayMapType → args.length = 1) :
    Unambiguous heap widen callee args ↔
      ∀ value, stored heap map key = some value → value = boxNil ∨
        value = boxNull →
        value = default := by
  constructor
  · intro unambiguous
    exact unambiguous.found map key default looksUp
  · intro found
    refine ⟨arity, ?_, fun isVector => absurd isVector notVector⟩
    intro otherMap otherKey otherDefault otherwise
    rw [looksUp, Option.some.injEq, Prod.mk.injEq, Prod.mk.injEq] at otherwise
    rw [← otherwise.1, ← otherwise.2.1, ← otherwise.2.2]
    exact found

theorem keyword_invokesAlike_iff
    {callee : Value Object}
    {args : List (Argument Object)}
    (isKeyword : getType heap callee = .keywordType)
    (argCount : args.length = 1 ∨ args.length = 2)
    (known : ∀ argument ∈ args,
      argument.types.contains (getType heap argument.value) = true) :
    InvokesAlike heap widen callee args ↔
      Unambiguous heap widen callee args := by
  have notVector : getType heap callee ≠ .persistentVectorType := by
    simp [isKeyword]
  have notMap : getType heap callee = .persistentArrayMapType →
      args.length = 1 := by
    simp [isKeyword]
  rcases argCount with one | two
  · obtain ⟨map, rfl⟩ := List.length_eq_one_iff.mp one
    have looksUp :
        lookup heap callee [map] = some (map.value, callee, boxNil) := by
      simp [lookup, isKeyword]
    rw [unambiguous_iff_of_lookup heap widen looksUp notVector notMap]
    apply invokesAlike_of_lookup heap widen looksUp
    · simp only [codegenInvoke, isKeyword]
      rw [generateStaticKeywordInvoke_one heap (known map (by simp))]
    · simp [generateDynamicInvoke, updateICSlot, isKeyword, GlobalMethod.run,
        keywordInvoke_eq]
  · obtain ⟨map, default, rfl⟩ := List.length_eq_two.mp two
    have looksUp : lookup heap callee [map, default] =
        some (map.value, callee, rtValue heap.toObjects default.value) := by
      simp [lookup, isKeyword]
    rw [unambiguous_iff_of_lookup heap widen looksUp notVector notMap]
    apply invokesAlike_of_lookup heap widen looksUp
    · simp only [codegenInvoke, isKeyword]
      rw [generateStaticKeywordInvoke_two heap (known map (by simp))]
    · simp [generateDynamicInvoke, updateICSlot, isKeyword, GlobalMethod.run,
        keywordInvoke_eq]

/-! ## Maps -/

/-- With two arguments there is a lookup for the one and an exception for the
other. -/
theorem map_not_invokesAlike
    {callee : Value Object}
    {key default : Argument Object}
    (isMap : getType heap callee = .persistentArrayMapType) :
    ¬ InvokesAlike heap widen callee [key, default] := by
  have dynamic : generateDynamicInvoke heap callee [key, default] =
      .raises (.illegalState "Attempted to invoke non-callable value or invalid arity") := by
    simp [generateDynamicInvoke, updateICSlot, isMap]
  rintro ⟨static, _, _, _, right⟩
  have looksUp : lookup heap callee [key, default] =
      some (callee, key.value, rtValue heap.toObjects default.value) := by
    simp [lookup, isMap]
  have returned := right _ _ _ looksUp
  rw [dynamic] at returned
  cases returned

theorem map_invokesAlike_iff
    {callee : Value Object}
    {args : List (Argument Object)}
    (isMap : getType heap callee = .persistentArrayMapType)
    (argCount : args.length = 1 ∨ args.length = 2) :
    InvokesAlike heap widen callee args ↔
      Unambiguous heap widen callee args := by
  rcases argCount with one | two
  · obtain ⟨key, rfl⟩ := List.length_eq_one_iff.mp one
    have looksUp :
        lookup heap callee [key] = some (callee, key.value, boxNil) := by
      simp [lookup, isMap]
    rw [unambiguous_iff_of_lookup heap widen looksUp (by simp [isMap])
      (fun _ => one)]
    apply invokesAlike_of_lookup heap widen looksUp
    · simp [codegenInvoke, isMap, generateStaticMapInvoke]
    · simp [generateDynamicInvoke, updateICSlot, isMap, GlobalMethod.run,
        mapDynamicGet]
  · obtain ⟨key, default, rfl⟩ := List.length_eq_two.mp two
    refine iff_of_false (map_not_invokesAlike heap widen isMap) ?_
    intro unambiguous
    cases unambiguous.arity isMap

/-! ## Vectors -/

/-- Two indices come to the same exactly if they designate the same element. -/
theorem vectorNth_eq_iff (vector : Value Object) (index : BitVec 32) :
    vectorNth heap vector (widen index) = vectorNth heap vector
      (index.signExtend 64) ↔
      SameElement heap widen vector index := by
  unfold SameElement
  by_cases same : widen index = index.signExtend 64
  · simp [same]
  · simp only [same, false_or]
    unfold vectorNth
    generalize (elements heap vector)[(widen index).toNat]? = found
    generalize (elements heap vector)[(index.signExtend 64).toNat]? = extended
    cases found <;> cases extended <;> simp [same]

theorem sameOutcome_vectorNth_iff
    (vector : Value Object)
    (index : BitVec 64)
    (dynamic : Outcome) :
    SameOutcome (vectorNth heap vector index) dynamic ↔
      vectorNth heap vector index = dynamic := by
  constructor
  · rintro (same | ⟨message, exception, isRejection, _⟩)
    · exact same
    · unfold vectorNth at isRejection
      split at isRejection <;> cases isRejection
  · exact Or.inl

theorem vector_invokesAlike_iff
    {callee : Value Object}
    {args : List (Argument Object)}
    (isVector : getType heap callee = .persistentVectorType)
    (argCount : args.length = 1 ∨ args.length = 2)
    (known : ∀ argument ∈ args,
      argument.types.contains (getType heap argument.value) = true) :
    InvokesAlike heap widen callee args ↔
      Unambiguous heap widen callee args := by
  have noLookup : lookup heap callee args = none := by
    simp [lookup, isVector]
  have looksUp (outcome : Outcome) : LooksUp heap callee args outcome := by
    intro map key default isLookup
    rw [noLookup] at isLookup
    cases isLookup
  have alike : InvokesAlike heap widen callee args ↔
      SameOutcome (generateStaticVectorInvoke heap widen callee args)
        (generateDynamicInvoke heap callee args) := by
    simp [InvokesAlike, codegenInvoke, isVector, looksUp]
  have unambiguous : Unambiguous heap widen callee args ↔
      ∀ index, args = [index] → index.types.isDeterminedAs .integerType = true →
        SameElement heap widen callee (unboxInt32 heap index.value) := by
    constructor
    · intro unambiguous
      exact unambiguous.index isVector
    · intro index
      exact ⟨by simp [isVector], by simp [noLookup], fun _ => index⟩
  rw [alike, unambiguous]
  rcases argCount with one | two
  · obtain ⟨index, rfl⟩ := List.length_eq_one_iff.mp one
    have dynamic : generateDynamicInvoke heap callee [index] =
        vectorDynamicNth heap callee index.value := by
      simp [generateDynamicInvoke, updateICSlot, isVector, GlobalMethod.run]
    rw [dynamic]
    simp only [generateStaticVectorInvoke]
    split
    · next isInteger =>
        have determined : index.types.isDetermined = true := by
          simp only [ObjectTypeSet.isDeterminedAs,
            Bool.and_eq_true] at isInteger
          exact isInteger.1
        have type :=
          (isDeterminedAs_iff (known index (by simp)) determined).mp isInteger
        rw [sameOutcome_vectorNth_iff, vectorDynamicNth,
          isInt32_of_type heap type]
        simp [vectorNth_eq_iff, isInteger]
    · next notInteger =>
        refine iff_of_true (Or.inl rfl) ?_
        rintro _ ⟨⟩ isInteger
        exact absurd isInteger notInteger
  · obtain ⟨index, other, rfl⟩ := List.length_eq_two.mp two
    have dynamic : generateDynamicInvoke heap callee [index, other] =
        .raises (.illegalState "Attempted to invoke non-callable value or invalid arity") := by
      simp [generateDynamicInvoke, updateICSlot, isVector]
    exact iff_of_true (Or.inr ⟨_, _, rfl, dynamic⟩) (by simp)

/-- The two paths agree, and the default is returned exactly for an absent key,
if and only if the invocation is unambiguous. -/
theorem invokesAlike_iff
    (callee : Value Object)
    (args : List (Argument Object))
    (callable : getType heap callee = .keywordType ∨
      getType heap callee = .persistentArrayMapType ∨
      getType heap callee = .persistentVectorType)
    (argCount : args.length = 1 ∨ args.length = 2)
    (known : ∀ argument ∈ args,
      argument.types.contains (getType heap argument.value) = true) :
    InvokesAlike heap widen callee args ↔
      Unambiguous heap widen callee args := by
  rcases callable with isKeyword | isMap | isVector
  · exact keyword_invokesAlike_iff heap widen isKeyword argCount known
  · exact map_invokesAlike_iff heap widen isMap argCount
  · exact vector_invokesAlike_iff heap widen isVector argCount known

/-- A runtime without objects other than maps. -/
def mapsOnly : Heap Empty where
  bits := Empty.elim
  type := Empty.elim
  hash := Empty.elim
  equals object _ := object.elim
  elements := Empty.elim
  isHeapType object := object.elim

/-- The keyword `:a`. -/
def keywordA : Value Empty := .word 0xFFFB000000000001#64

/-- `{:a 5}` -/
def fiveUnderA : Value Empty :=
  .map 0xFFFE000000001000#64 [(keywordA, .word 0xFFFF000000000005#64)]

/-- `(:a {:a 5})` -/
theorem keywordA_invokesAlike_iff :
    InvokesAlike mapsOnly (BitVec.setWidth 64) keywordA
        [⟨.ofType .persistentArrayMapType true none, fiveUnderA⟩] ↔
      Unambiguous mapsOnly (BitVec.setWidth 64) keywordA
        [⟨.ofType .persistentArrayMapType true none, fiveUnderA⟩] := by
  apply invokesAlike_iff
  · exact Or.inl (by decide)
  · exact Or.inl rfl
  · simp only [List.mem_singleton]
    rintro argument rfl
    decide

/-- `({:a 5} :a 7)` is 5 if the map is known to be one, and an exception
otherwise. -/
theorem fiveUnderA_not_invokesAlike :
    codegenInvoke mapsOnly (BitVec.setWidth 64) fiveUnderA
        [⟨.ofType .keywordType true none, keywordA⟩,
          ⟨.ofType .integerType true none, .word 0xFFFF000000000007#64⟩] =
      some (.value 0xFFFF000000000005#64) ∧
    generateDynamicInvoke mapsOnly fiveUnderA
        [⟨.ofType .keywordType true none, keywordA⟩,
          ⟨.ofType .integerType true none, .word 0xFFFF000000000007#64⟩] =
      .raises (.illegalState "Attempted to invoke non-callable value or invalid arity") ∧
    ¬ InvokesAlike mapsOnly (BitVec.setWidth 64) fiveUnderA
        [⟨.ofType .keywordType true none, keywordA⟩,
          ⟨.ofType .integerType true none, .word 0xFFFF000000000007#64⟩] :=
  ⟨by decide, by decide, map_not_invokesAlike mapsOnly _ rfl⟩

end CallableInvoke
end Codegen
end ClojureRt
