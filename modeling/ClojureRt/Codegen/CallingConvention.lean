import Mathlib.Data.List.Basic
import Mathlib.Data.List.Count
import Mathlib.Tactic.Cases

/-!
# The calling convention

A method compiled by `generateBaselineMethod` takes its first five parameters
from registers, the others from the array at the end of its frame, and its rest
parameter from `variadicSeq`.  Four callers fill these: `RT_invokeDynamic` in
the runtime, `generateRawMethodCall`, `generateStaticInvoke` and `recur`.

The count of arguments is a C `int` throughout and is not truncated; the arity
kept in a `FunctionMethod` is an `unsigned char`.  A call is taken to return;
the callee consumes what is bound to its parameters, and a list made by
`RT_createListFromArray` owns its items.
-/

namespace ClojureRt
namespace Codegen
namespace CallingConvention

/-- What the callers know of an `RTValue`. -/
structure Representation (Value : Type) where
  boxNil : Value
  isPtr : Value → Bool
  boxNil_not_isPtr : isPtr boxNil = false

/-- A method as it is compiled. -/
structure Method where
  fixedArity : Nat
  isVariadic : Bool
  deriving DecidableEq

/-- The field of the `FunctionMethod`, an `unsigned char`. -/
def Method.storedArity (method : Method) : Nat :=
  method.fixedArity % 256

/-- `params_size`. -/
def Method.numParams (method : Method) : Nat :=
  if method.isVariadic then method.fixedArity + 1 else method.fixedArity

/-- What a parameter is bound to: a value, a new list, or memory that nobody
wrote. -/
inductive Slot (Value : Type)
  | value (given : Value)
  | list (items : List Value)
  | undefined

/-- The references a callee gives up when it consumes a parameter. -/
def Slot.references {Value : Type} : Slot Value → List Value
  | .value given => [given]
  | .list items => items
  | .undefined => []

/-- The value stored at an index, if there is one. -/
def Slot.ofOption {Value : Type} : Option Value → Slot Value
  | some given => .value given
  | none => .undefined

/-- The part of a `Frame` that passes arguments.  The array `locals` has the
length its allocation gave it. -/
structure Frame (Value : Type) where
  variadicSeq : Slot Value
  locals : List Value

/-- What a callee is entered with. -/
structure Entry (Value : Type) where
  frame : Frame Value
  registers : List Value

variable {Value : Type}
variable (representation : Representation Value)

/-! ## The callee -/

/-- The value `generateBaselineMethod` binds to the parameter at an index. -/
def unpackParameter (method : Method) (entry : Entry Value)
    (index : Nat) : Slot Value :=
  if method.isVariadic = true ∧
    index = method.numParams - 1 then entry.frame.variadicSeq
  else if index < 5 then .ofOption entry.registers[index]?
  else .ofOption entry.frame.locals[index - 5]?

/-- The references consumed by the callee. -/
def consumedByCallee (method : Method) (entry : Entry Value) : List Value :=
  (List.range method.numParams).flatMap fun index =>
    (unpackParameter method entry index).references

/-! ## The callers -/

/-- An exact match, then a variadic one. -/
def selectMethod
    (arity : Method → Nat)
    (methods : List Method)
    (argCount : Nat) :
    Option Method :=
  (methods.find? fun method =>
    !method.isVariadic && arity method == argCount).or
    (methods.find? fun method =>
      method.isVariadic && decide (arity method ≤ argCount))

/-- `Function_extractMethod` on a function object. -/
def extractMethod (methods : List Method) (argCount : Nat) : Option Method :=
  selectMethod Method.storedArity methods argCount

/-- `RT_packVariadic`. -/
def packVariadic (args : List Value) (fixedArity : Nat) : Slot Value :=
  if args.length ≤ fixedArity then .value representation.boxNil
  else .list (args.drop fixedArity)

/-- The five arguments passed in registers. -/
def registerArguments (args : List Value) : List Value :=
  (List.range 5).map fun index => args.getD index representation.boxNil

/-- Stores into the locals of a frame.  What is stored beyond their end is not
in the frame. -/
def storeLocals : List Value → List Value → List Value
  | locals, [] => locals
  | [], _ => []
  | _ :: locals, value :: values => value :: storeLocals locals values

/-- How `RT_invokeMethodWithFrame` enters a method.  It copies all of the
arguments to the locals. -/
def invokeMethodWithFrame (method : Method) (args : List Value) :
    Entry Value where
  frame :=
    { variadicSeq :=
        if method.isVariadic then packVariadic representation args
          method.storedArity
        else .value representation.boxNil
      locals := args }
  registers := registerArguments representation args

/-- How `generateRawMethodCall` enters a method. -/
def rawMethodCall (method : Method) (args : List Value) : Entry Value where
  frame :=
    { variadicSeq :=
        if method.isVariadic then packVariadic representation args
          method.storedArity
        else .value representation.boxNil
      locals := args.drop 5 }
  registers := registerArguments representation args

/-- How `generateStaticInvoke` enters a method. -/
def staticInvoke (method : Method) (args : List Value) : Entry Value where
  frame :=
    { variadicSeq :=
        if method.isVariadic ∧ method.fixedArity < args.length then
          .list (args.drop method.fixedArity)
        else .value representation.boxNil
      locals := args.drop 5 }
  registers := registerArguments representation args

/-- How `recur` enters a method again, in the frame it has. -/
def recur (method : Method) (frame : Frame Value) (exprs : List Value) :
    Entry Value :=
  let newArgs := if method.isVariadic then exprs.dropLast else exprs
  { frame :=
      { variadicSeq :=
          if method.isVariadic then .ofOption exprs.getLast?
          else .value representation.boxNil
        locals := storeLocals frame.locals (newArgs.drop 5) }
    registers := registerArguments representation newArgs }

/-- The callers. -/
inductive Path (Value : Type)
  | invokeDynamic
  | rawMethodCall
  | staticInvoke
  | recur (frame : Frame Value)

/-- What the callee is entered with. -/
def Path.enter (method : Method) (args : List Value) : Path Value → Entry Value
  | .invokeDynamic => invokeMethodWithFrame representation method args
  | .rawMethodCall => CallingConvention.rawMethodCall representation method args
  | .staticInvoke => CallingConvention.staticInvoke representation method args
  | .recur frame => CallingConvention.recur representation method frame args

/-- What a caller releases when the callee has returned:
`RT_invokeMethodWithFrame` all of the arguments. -/
def Path.releases (args : List Value) : Path Value → List Value
  | .invokeDynamic => args
  | _ => []

mutual

/-- The arguments are handed to the method.  A `recur` passes the fixed
arguments and the rest, from a frame its method was entered with. -/
inductive Accepts (methods : List Method) (method : Method) : Path Value →
    List Value → Prop
  | invokeDynamic
      (args : List Value)
      (found : extractMethod methods args.length = some method) :
      Accepts methods method .invokeDynamic args
  | rawMethodCall
      (args : List Value)
      (found : extractMethod methods args.length = some method) :
      Accepts methods method .rawMethodCall args
  | staticInvoke
      (args : List Value)
      (found : selectMethod Method.fixedArity methods args.length =
        some method) :
      Accepts methods method .staticInvoke args
  | recur
      (frame : Frame Value)
      (exprs : List Value)
      (entered : Entered methods method frame)
      (count : exprs.length = method.numParams) :
      Accepts methods method (.recur frame) exprs

/-- The method has been entered with the frame. -/
inductive Entered (methods : List Method) (method : Method) : Frame Value → Prop
  | of_accepts
      (path : Path Value)
      (args : List Value)
      (accepted : Accepts methods method path args) :
      Entered methods method (path.enter representation method args).frame

end

/-! ## One convention -/

/-- What the rest parameter is to be bound to.  A `recur` gives the rest as it
is. -/
def Path.rest (method : Method) (args : List Value) : Path Value → Slot Value
  | .recur _ => .ofOption args[method.fixedArity]?
  | _ =>
      match args.drop method.fixedArity with
      | [] => .value representation.boxNil
      | remaining => .list remaining

/-- The parameters are bound to the arguments. -/
structure Binds
    (path : Path Value)
    (method : Method)
    (args : List Value)
    (entry : Entry Value) :
    Prop where
  fixed : ∀ index < method.fixedArity, ∃ argument,
    args[index]? = some argument ∧
    unpackParameter method entry index = .value argument
  rest : method.isVariadic = true →
    unpackParameter method entry method.fixedArity = path.rest representation
      method args

/-- The call binds the parameters to the arguments and consumes each reference
once. -/
structure Conforms [DecidableEq Value]
    (path : Path Value)
    (method : Method)
    (args : List Value) :
    Prop where
  binds : Binds representation path method args
    (path.enter representation method args)
  consumes : ∀ reference, representation.isPtr reference = true →
    (consumedByCallee method (path.enter representation method args) ++
      path.releases args).count reference = args.count reference

/-- When a caller conforms. -/
def Path.Condition (method : Method) (args : List Value) : Path Value → Prop
  | .invokeDynamic =>
      method.fixedArity < 256 ∧
        (∀ index, 5 ≤ index → index < method.fixedArity →
          args[index - 5]? = args[index]?) ∧
        ∀ argument ∈ args, representation.isPtr argument = false
  | .rawMethodCall => method.fixedArity < 256
  | .staticInvoke => True
  | .recur frame => method.fixedArity ≤ 5 + frame.locals.length

/-! ## Dispatch -/

theorem selectMethod_eq_some
    (arity : Method → Nat)
    (methods : List Method)
    (argCount : Nat)
    (method : Method)
    (found : selectMethod arity methods argCount = some method) :
    (method.isVariadic = false ∧ arity method = argCount) ∨
      (method.isVariadic = true ∧ arity method ≤ argCount) := by
  unfold selectMethod at found
  rcases Option.or_eq_some_iff.mp found with exactMatch | ⟨_, variadicMatch⟩
  · left
    simpa using List.find?_some exactMatch
  · right
    simpa using List.find?_some variadicMatch

/-- The stored arity is no greater than the arity. -/
theorem Method.storedArity_le (method : Method) :
    method.storedArity ≤ method.fixedArity :=
  Nat.mod_le _ _

theorem Method.storedArity_eq (method : Method)
    (fits : method.fixedArity < 256) :
    method.storedArity = method.fixedArity :=
  Nat.mod_eq_of_lt fits

theorem Method.storedArity_lt (method : Method)
    (large : 256 ≤ method.fixedArity) :
    method.storedArity < method.fixedArity :=
  Nat.lt_of_lt_of_le (Nat.mod_lt _ (by decide)) large

/-- A method that is not variadic gets no more arguments than it has
parameters. -/
theorem Accepts.length_le
    {methods : List Method}
    {method : Method}
    {path : Path Value}
    {args : List Value}
    (accepted : Accepts representation methods method path args)
    (notVariadic : method.isVariadic = false) :
    args.length ≤ method.fixedArity := by
  have stored := method.storedArity_le
  cases accepted with
  | invokeDynamic _ found | rawMethodCall _ found =>
      have exactMatch : method.storedArity = args.length := by
        simpa [notVariadic] using selectMethod_eq_some _ _ _ _ found
      omega
  | staticInvoke _ found =>
      have exactMatch : method.fixedArity = args.length := by
        simpa [notVariadic] using selectMethod_eq_some _ _ _ _ found
      omega
  | recur _ _ _ count =>
      rw [count, Method.numParams, notVariadic]
      simp

/-! ## What the callee reads -/

theorem unpackParameter_of_lt
    (method : Method)
    (entry : Entry Value)
    (index : Nat)
    (below : index < method.fixedArity) :
    unpackParameter method entry index =
      if index < 5 then .ofOption entry.registers[index]?
      else .ofOption entry.frame.locals[index - 5]? := by
  unfold unpackParameter Method.numParams
  apply if_neg
  rintro ⟨variadic, last⟩
  simp only [variadic, if_true] at last
  omega

theorem unpackParameter_rest
    (method : Method)
    (entry : Entry Value)
    (variadic : method.isVariadic = true) :
    unpackParameter method entry method.fixedArity =
      entry.frame.variadicSeq := by
  simp [unpackParameter, Method.numParams, variadic]

theorem getElem?_registerArguments
    (args : List Value)
    (index : Nat)
    (below : index < 5) :
    (registerArguments representation args)[index]? =
      some (args.getD index representation.boxNil) := by
  simp [registerArguments, below]

/-- A register holds its argument. -/
theorem getElem?_registerArguments_of_some
    (args : List Value)
    (index : Nat)
    (below : index < 5)
    (argument : Value)
    (given : args[index]? = some argument) :
    (registerArguments representation args)[index]? = some argument := by
  rw [getElem?_registerArguments representation args index below,
    List.getD_eq_getElem?_getD, given, Option.getD_some]

theorem Slot.references_ofOption (stored : Option Value) :
    (Slot.ofOption stored).references = stored.toList := by
  cases stored <;> rfl

/-- The rest that is to be bound, where it is not given by `recur`. -/
theorem Path.rest_eq
    (method : Method)
    (args : List Value)
    (path : Path Value)
    (notRecur : ∀ frame, path ≠ .recur frame) :
    path.rest representation method args =
      packVariadic representation args method.fixedArity := by
  have expected :
      (match args.drop method.fixedArity with
        | [] => Slot.value representation.boxNil
        | remaining => .list remaining) =
        packVariadic representation args method.fixedArity := by
    unfold packVariadic
    split
    · next empty => rw [if_pos (List.drop_eq_nil_iff.mp empty)]
    · next notEmpty =>
        rw [if_neg]
        intro short
        exact notEmpty (List.drop_eq_nil_of_le short)
  cases path with
  | recur frame => exact absurd rfl (notRecur frame)
  | _ => exact expected

/-- A callee whose parameters are bound to the arguments consumes them once. -/
theorem count_consumedByCallee [DecidableEq Value]
    {methods : List Method}
    {method : Method}
    {path : Path Value}
    {args : List Value}
    {entry : Entry Value}
    (accepted : Accepts representation methods method path args)
    (binds : Binds representation path method args entry)
    (reference : Value)
    (isPtr : representation.isPtr reference = true) :
    (consumedByCallee method entry).count reference = args.count reference := by
  have fixedPart : ∀ limit ≤ method.fixedArity,
      ((List.range limit).flatMap fun index =>
        (unpackParameter method entry index).references) = args.take limit := by
    intro limit
    induction limit with
    | zero => simp
    | succ limit inductionHypothesis =>
        intro bounded
        obtain ⟨argument, given, bound⟩ := binds.fixed limit bounded
        rw [List.range_succ, List.flatMap_append,
          inductionHypothesis (by omega),
          List.take_add_one, given]
        simp [bound, Slot.references]
  unfold consumedByCallee Method.numParams
  cases variadic : method.isVariadic with
  | false =>
      have short := accepted.length_le representation variadic
      rw [if_neg (by decide), fixedPart _ (Nat.le_refl _),
        List.take_of_length_le short]
  | true =>
      rw [if_pos rfl, List.range_succ, List.flatMap_append,
        fixedPart _ (Nat.le_refl _), List.flatMap_singleton,
        binds.rest variadic]
      have notNil : reference ≠ representation.boxNil := by
        rintro rfl
        simp [representation.boxNil_not_isPtr] at isPtr
      cases accepted with
      | recur _ _ _ count =>
          rw [Path.rest, Slot.references_ofOption, ← List.take_add_one,
            List.take_of_length_le]
          simp [count, Method.numParams, variadic]
      | _ =>
          rw [Path.rest_eq representation method args _ (by rintro frame ⟨⟩),
            packVariadic]
          split
          · next short =>
              rw [List.take_of_length_le short]
              simp [Slot.references, notNil.symm]
          · rw [Slot.references, List.take_append_drop]

/-- What is left to show once the parameters are bound to the arguments. -/
theorem conforms_iff_binds [DecidableEq Value]
    {methods : List Method}
    {method : Method}
    {path : Path Value}
    {args : List Value}
    (accepted : Accepts representation methods method path args) :
    Conforms representation path method args ↔
      Binds representation path method args
        (path.enter representation method args) ∧
        ∀ reference ∈ path.releases args,
          representation.isPtr reference = false := by
  constructor
  · intro conforms
    refine ⟨conforms.binds, ?_⟩
    intro reference released
    by_contra isPtr
    rw [Bool.not_eq_false] at isPtr
    have once := conforms.consumes reference isPtr
    rw [List.count_append,
      count_consumedByCallee representation accepted conforms.binds reference
        isPtr] at once
    have positive := List.count_pos_iff.mpr released
    omega
  · rintro ⟨binds, releasesNone⟩
    refine ⟨binds, ?_⟩
    intro reference isPtr
    have notReleased : reference ∉ path.releases args := by
      intro released
      rw [releasesNone reference released] at isPtr
      contradiction
    rw [List.count_append,
      count_consumedByCallee representation accepted binds reference isPtr,
      List.count_eq_zero_of_not_mem notReleased, Nat.add_zero]

/-- An arity that was truncated packs arguments of fixed parameters. -/
theorem packVariadic_storedArity_ne
    (method : Method)
    (args : List Value)
    (large : 256 ≤ method.fixedArity)
    (enough : method.fixedArity ≤ args.length) :
    packVariadic representation args method.storedArity ≠
      packVariadic representation args method.fixedArity := by
  have smaller := method.storedArity_lt large
  unfold packVariadic
  rw [if_neg (by omega)]
  split
  · intro same
    cases same
  · intro same
    have sameLength := congrArg List.length (Slot.list.inj same)
    rw [List.length_drop, List.length_drop] at sameLength
    omega

/-! ## The four callers -/

/-- A truncated arity never conforms: either a parameter has no argument or the
rest begins too early. -/
theorem not_binds_of_large
    {methods : List Method}
    {method : Method}
    {path : Path Value}
    {args : List Value}
    {entry : Entry Value}
    (notRecur : ∀ frame, path ≠ .recur frame)
    (found : extractMethod methods args.length = some method)
    (packed : method.isVariadic = true →
      entry.frame.variadicSeq = packVariadic representation args
        method.storedArity)
    (large : 256 ≤ method.fixedArity) :
    ¬ Binds representation path method args entry := by
  intro binds
  have smaller := method.storedArity_lt large
  by_cases enough : method.fixedArity ≤ args.length
  · rcases selectMethod_eq_some _ _ _ _ found with ⟨_, exactMatch⟩ |
      ⟨variadic, _⟩
    · omega
    · apply packVariadic_storedArity_ne representation method args large enough
      rw [← packed variadic, ← unpackParameter_rest method entry variadic,
        binds.rest variadic,
        Path.rest_eq representation method args path notRecur]
  · obtain ⟨argument, given, _⟩ := binds.fixed args.length (by omega)
    simp at given

/-- A caller that leaves the first five arguments out of the locals binds every
parameter. -/
theorem binds_of_overflow
    {method : Method}
    {path : Path Value}
    {args : List Value}
    {entry : Entry Value}
    (notRecur : ∀ frame, path ≠ .recur frame)
    (enough : method.fixedArity ≤ args.length)
    (registers : entry.registers = registerArguments representation args)
    (locals : entry.frame.locals = args.drop 5)
    (packed : method.isVariadic = true →
      entry.frame.variadicSeq = packVariadic representation args
        method.fixedArity) :
    Binds representation path method args entry := by
  constructor
  · intro index below
    have given : args[index]? = some args[index] :=
      List.getElem?_eq_getElem (by omega)
    refine ⟨args[index], given, ?_⟩
    rw [unpackParameter_of_lt method entry index below]
    split
    · next small =>
        rw [registers,
          getElem?_registerArguments_of_some representation args index small
            _ given]
        rfl
    · next large =>
        rw [locals, List.getElem?_drop,
          show 5 + (index - 5) = index by omega, given]
        rfl
  · intro variadic
    rw [unpackParameter_rest method entry variadic, packed variadic,
      Path.rest_eq representation method args path notRecur]

/-- The arguments cover the fixed parameters. -/
theorem le_length_of_selectMethod
    {arity : Method → Nat}
    {methods : List Method}
    {argCount : Nat}
    {method : Method}
    (found : selectMethod arity methods argCount = some method) :
    arity method ≤ argCount := by
  rcases selectMethod_eq_some _ _ _ _ found with ⟨_, exactMatch⟩ | ⟨_, enough⟩
  · exact Nat.le_of_eq exactMatch
  · exact enough

theorem binds_rawMethodCall_iff
    {methods : List Method}
    {method : Method}
    {args : List Value}
    (found : extractMethod methods args.length = some method) :
    Binds representation .rawMethodCall method args
        (rawMethodCall representation method args) ↔
      method.fixedArity < 256 := by
  constructor
  · intro binds
    by_contra large
    apply not_binds_of_large representation
      (by rintro frame ⟨⟩) found _ (by omega) binds
    intro variadic
    simp [rawMethodCall, variadic]
  · intro fits
    have enough := le_length_of_selectMethod found
    rw [method.storedArity_eq fits] at enough
    apply binds_of_overflow representation (by rintro frame ⟨⟩) enough rfl rfl
    intro variadic
    simp [rawMethodCall, variadic, method.storedArity_eq fits]

theorem binds_staticInvoke
    {methods : List Method}
    {method : Method}
    {args : List Value}
    (found : selectMethod Method.fixedArity methods args.length = some method) :
    Binds representation .staticInvoke method args
      (staticInvoke representation method args) := by
  apply binds_of_overflow representation (by rintro frame ⟨⟩)
    (le_length_of_selectMethod found) rfl rfl
  intro variadic
  by_cases surplus : method.fixedArity < args.length
  · simp [staticInvoke, packVariadic, variadic, surplus]
  · simp [staticInvoke, packVariadic, variadic, surplus,
      Nat.le_of_not_lt surplus]

/-- The runtime stores the arguments five places further than the callee reads
them. -/
theorem binds_invokeDynamic_iff
    {methods : List Method}
    {method : Method}
    {args : List Value}
    (found : extractMethod methods args.length = some method) :
    Binds representation .invokeDynamic method args
        (invokeMethodWithFrame representation method args) ↔
      method.fixedArity < 256 ∧
        ∀ index, 5 ≤ index → index < method.fixedArity →
          args[index - 5]? = args[index]? := by
  constructor
  · intro binds
    constructor
    · by_contra large
      apply not_binds_of_large representation
        (by rintro frame ⟨⟩) found _ (by omega) binds
      intro variadic
      simp [invokeMethodWithFrame, variadic]
    · intro index overflow below
      obtain ⟨argument, given, bound⟩ := binds.fixed index below
      rw [unpackParameter_of_lt _ _ _ below, if_neg (by omega),
        invokeMethodWithFrame] at bound
      rw [given]
      cases stored : args[index - 5]? with
      | none => simp [stored, Slot.ofOption] at bound
      | some other =>
          rw [stored, Slot.ofOption] at bound
          rw [Slot.value.inj bound]
  · rintro ⟨fits, repeated⟩
    have enough := le_length_of_selectMethod found
    rw [method.storedArity_eq fits] at enough
    constructor
    · intro index below
      have given : args[index]? = some args[index] :=
        List.getElem?_eq_getElem (by omega)
      refine ⟨args[index], given, ?_⟩
      rw [unpackParameter_of_lt _ _ _ below, invokeMethodWithFrame]
      split
      · next small =>
          rw [getElem?_registerArguments_of_some representation args index small
            _ given]
          rfl
      · next large =>
          rw [repeated index (by omega) below, given]
          rfl
    · intro variadic
      rw [unpackParameter_rest _ _ variadic,
        Path.rest_eq representation method args _ (by rintro frame ⟨⟩)]
      simp [invokeMethodWithFrame, variadic, method.storedArity_eq fits]

/-! ### `recur` -/

theorem length_storeLocals (locals values : List Value) :
    (storeLocals locals values).length = locals.length := by
  fun_induction storeLocals locals values <;> simp_all

theorem getElem?_storeLocals
    (locals values : List Value)
    (index : Nat)
    (below : index < values.length) :
    (storeLocals locals values)[index]? =
      if index < locals.length then values[index]? else none := by
  induction locals generalizing values index with
  | nil =>
      cases values with
      | nil => simp at below
      | cons value values => simp [storeLocals]
  | cons first locals inductionHypothesis =>
      cases values with
      | nil => simp at below
      | cons value values =>
          cases index with
          | zero => simp [storeLocals]
          | succ index =>
              simp only [List.length_cons, Nat.add_lt_add_iff_right] at below
              simp [storeLocals, inductionHypothesis values index below]

/-- The fixed arguments of a `recur`. -/
theorem recur_newArgs
    {method : Method}
    {exprs : List Value}
    (count : exprs.length = method.numParams) :
    (if method.isVariadic then exprs.dropLast else exprs) =
    exprs.take method.fixedArity := by
  unfold Method.numParams at count
  split
  · next variadic =>
      rw [if_pos variadic] at count
      rw [List.dropLast_eq_take, count, Nat.add_sub_cancel]
  · next notVariadic =>
      rw [if_neg notVariadic] at count
      rw [List.take_of_length_le (Nat.le_of_eq count)]

theorem binds_recur_iff
    {method : Method}
    {exprs : List Value}
    (frame : Frame Value)
    (count : exprs.length = method.numParams) :
    Binds representation (.recur frame) method exprs
        (recur representation method frame exprs) ↔
      method.fixedArity ≤ 5 + frame.locals.length := by
  have enough : method.fixedArity ≤ exprs.length := by
    rw [count, Method.numParams]
    split <;> omega
  have overflow : ∀ index, 5 ≤ index → index < method.fixedArity →
      (recur representation method frame exprs).frame.locals[index - 5]? =
        if index - 5 < frame.locals.length then exprs[index]? else none := by
    intro index large below
    simp only [recur, recur_newArgs count]
    rw [getElem?_storeLocals _ _ _ (by simp; omega), List.getElem?_drop,
      show 5 + (index - 5) = index by omega, List.getElem?_take_of_lt below]
  constructor
  · intro binds
    by_contra short
    obtain ⟨argument, _, bound⟩ :=
      binds.fixed (method.fixedArity - 1) (by omega)
    rw [unpackParameter_of_lt _ _ _ (by omega), if_neg (by omega),
      overflow _ (by omega) (by omega), if_neg (by omega)] at bound
    cases bound
  · intro wide
    constructor
    · intro index below
      have given : exprs[index]? = some exprs[index] :=
        List.getElem?_eq_getElem (by omega)
      refine ⟨exprs[index], given, ?_⟩
      rw [unpackParameter_of_lt _ _ _ below]
      split
      · next small =>
          have kept : (exprs.take method.fixedArity)[index]? =
              some exprs[index] := by
            rw [List.getElem?_take_of_lt below, given]
          simp only [recur, recur_newArgs count]
          rw [getElem?_registerArguments_of_some representation _ index
            small _ kept]
          rfl
      · next large =>
          rw [overflow index (by omega) below, if_pos (by omega), given]
          rfl
    · intro variadic
      rw [unpackParameter_rest _ _ variadic, Path.rest]
      rw [Method.numParams, if_pos variadic] at count
      simp [recur, variadic, List.getLast?_eq_getElem?, count]

/-- A frame that a method with a byte for its arity was entered with has room
for its parameters. -/
theorem Entered.fixedArity_le
    {methods : List Method}
    {method : Method}
    (fits : method.fixedArity < 256) :
    {frame : Frame Value} →
    Entered representation methods method frame →
      method.fixedArity ≤ 5 + frame.locals.length
  | _, .of_accepts _ _ (.invokeDynamic args found) => by
      have enough := le_length_of_selectMethod found
      rw [method.storedArity_eq fits] at enough
      simp only [Path.enter, invokeMethodWithFrame]
      omega
  | _, .of_accepts _ _ (.rawMethodCall args found) => by
      have enough := le_length_of_selectMethod found
      rw [method.storedArity_eq fits] at enough
      simp only [Path.enter, rawMethodCall, List.length_drop]
      omega
  | _, .of_accepts _ _ (.staticInvoke args found) => by
      have enough := le_length_of_selectMethod found
      simp only [Path.enter, staticInvoke, List.length_drop]
      omega
  | _, .of_accepts _ _ (.recur frame exprs entered count) => by
      have room := Entered.fixedArity_le fits entered
      simpa only [Path.enter, recur, length_storeLocals] using room

/-- A `recur` conforms in every frame its method can have, where the arity fits
a byte. -/
theorem recur_conforms [DecidableEq Value]
    {methods : List Method}
    {method : Method}
    {frame : Frame Value}
    {exprs : List Value}
    (fits : method.fixedArity < 256)
    (entered : Entered representation methods method frame)
    (count : exprs.length = method.numParams) :
    Conforms representation (.recur frame) method exprs := by
  rw [conforms_iff_binds representation (.recur frame exprs entered count)]
  refine ⟨(binds_recur_iff representation frame count).mpr ?_,
    by simp [Path.releases]⟩
  exact entered.fixedArity_le representation fits

/-! ## The callers compared -/

/-- Every caller but the runtime follows the convention for a method whose arity
fits a byte.  The runtime does so only where the parameters beyond the fifth
repeat the arguments five places before them and no argument is a counted
object: it releases the arguments once more. -/
theorem conforms_iff [DecidableEq Value]
    {methods : List Method}
    {method : Method}
    {path : Path Value}
    {args : List Value}
    (accepted : Accepts representation methods method path args) :
    Conforms representation path method args ↔
      path.Condition representation method args := by
  rw [conforms_iff_binds representation accepted]
  cases accepted with
  | invokeDynamic _ found =>
      rw [Path.enter, binds_invokeDynamic_iff representation found,
        Path.Condition, Path.releases, and_assoc]
  | rawMethodCall _ found =>
      rw [Path.enter, binds_rawMethodCall_iff representation found]
      simp [Path.Condition, Path.releases]
  | staticInvoke _ found =>
      have binds := binds_staticInvoke representation found
      simp [Path.enter, Path.Condition, Path.releases, binds]
  | recur frame _ _ count =>
      rw [Path.enter, binds_recur_iff representation frame count]
      simp [Path.Condition, Path.releases]

/-- Numbers from 100 stand for objects, and 0 for nil. -/
def numberRepresentation : Representation Nat where
  boxNil := 0
  isPtr value := decide (100 ≤ value)
  boxNil_not_isPtr := by decide

/-- Six integers and two objects passed to a method with six parameters and a
rest. -/
theorem conforms_rawMethodCall_six :
    Accepts numberRepresentation [⟨6, true⟩] ⟨6, true⟩ .rawMethodCall
        [1, 2, 3, 4, 5, 6, 100, 100] ∧
      Conforms numberRepresentation .rawMethodCall ⟨6, true⟩
        [1, 2, 3, 4, 5, 6, 100, 100] := by
  have accepted : Accepts numberRepresentation [⟨6, true⟩] ⟨6, true⟩
      .rawMethodCall
      [1, 2, 3, 4, 5, 6, 100, 100] := .rawMethodCall _ (by decide)
  refine ⟨accepted, (conforms_iff numberRepresentation accepted).mpr ?_⟩
  simp [Path.Condition]

/-- The runtime releases the one argument of a function a second time, and binds
the sixth parameter to the first argument. -/
theorem not_conforms_invokeDynamic :
    (Accepts numberRepresentation [⟨1, false⟩] ⟨1, false⟩ .invokeDynamic [100] ∧
      ¬ Conforms numberRepresentation .invokeDynamic ⟨1, false⟩ [100]) ∧
    (Accepts numberRepresentation [⟨6, false⟩] ⟨6, false⟩ .invokeDynamic
      [1, 2, 3, 4, 5, 6] ∧
      ¬ Conforms numberRepresentation .invokeDynamic ⟨6, false⟩
        [1, 2, 3, 4, 5, 6]) := by
  refine ⟨⟨.invokeDynamic _ (by decide), ?_⟩,
    ⟨.invokeDynamic _ (by decide), ?_⟩⟩
  · intro conforms
    have once := conforms.consumes 100 (by decide)
    revert once
    decide
  · intro conforms
    obtain ⟨argument, given, bound⟩ := conforms.binds.fixed 5 (by decide)
    have first : argument = 1 := (Slot.value.inj bound).symm
    have sixth : argument = 6 := (Option.some.inj given).symm
    omega

end CallingConvention
end Codegen
end ClojureRt
