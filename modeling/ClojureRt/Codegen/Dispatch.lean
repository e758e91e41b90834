import ClojureRt.Codegen.Intrinsics
import Mathlib.Data.List.Forall2

/-!
# Choosing the overload of a static call

`StaticCallNode` chooses among the overloads of a static method by the type sets
of the arguments.  If every type is determined, the first overload whose
argument types meet them is called.  Otherwise the overloads that no argument
rules out are tried in turn, by tests of the runtime types, at most two of them
if there is also an overload that takes anything.

An argument rules an overload out if the restriction of its type set is empty.
The restriction goes by the types a set enumerates, so an argument of any type
rules out an overload for a registered class.
-/

namespace ClojureRt
namespace Codegen

/-- `isDynamic`. -/
def ObjectTypeSet.isDynamic (types : ObjectTypeSet) : Bool :=
  decide (1 < types.internal.card) || types.allTypes

variable {Code : Type}

/-- `IntrinsicDescription`, for any number of arguments. -/
structure Overload (Code : Type) where
  argTypes : List ObjectTypeSet
  symbol : Code

/-- The exceptions of a static call. -/
inductive DispatchException
  /-- `No matching overload found for …`, at compile time. -/
  | noMatchingOverload
  /-- `No statically possible overloads found for …`, at compile time. -/
  | noStaticallyPossibleOverloads
  /-- `throwNoMatchingOverloadException_C`, at run time. -/
  | noMatchingOverloadAtRuntime
  deriving DecidableEq

/-- The code generated for a static call. -/
inductive StaticCallCode (Code : Type)
  /-- A call of one overload. -/
  | direct (id : Overload Code)
  /-- Tests for the specialized overloads, then the generic one or an
  exception. -/
  | dispatch (specialized : List (Overload Code))
      (generic : Option (Overload Code))

/-- What a static call comes to. -/
inductive StaticCallResult (Code : Type)
  | calls (id : Overload Code)
  | raises (exception : DispatchException)

/-! ## Compile time -/

/-- No argument rules the overload out. -/
def staticallyPossible (args : List ObjectTypeSet)
    (id : Overload Code) : Bool :=
  decide (id.argTypes.length = args.length) &&
    (args.zip id.argTypes).all fun (arg, argType) =>
      !(arg.restriction argType).isEmpty

/-- Every argument type is dynamic. -/
def isGeneric (id : Overload Code) : Bool :=
  id.argTypes.all ObjectTypeSet.isDynamic

/-- The loop over the overloads: the last generic one and the specialized
ones. -/
def collectOverloads (args : List ObjectTypeSet) :
    List (Overload Code) → Option (Overload Code) → List (Overload Code) →
      Option (Overload Code) × List (Overload Code)
  | [], generic, specialized => (generic, specialized)
  | id :: versions, generic, specialized =>
      if !staticallyPossible args id then
        collectOverloads args versions generic specialized
      else if isGeneric id then
        collectOverloads args versions (some id) specialized
      else
        collectOverloads args versions generic (specialized ++ [id])

/-- The code for a call whose argument types are not all determined. -/
def dynamicCall
    (versions : List (Overload Code))
    (args : List ObjectTypeSet) :
    Except DispatchException (StaticCallCode Code) :=
  let (generic, specialized) := collectOverloads args versions none []
  if specialized.isEmpty && generic.isNone then
    .error .noStaticallyPossibleOverloads
  else
    .ok (.dispatch (if generic.isSome then specialized.take 2 else specialized)
      generic)

/-- `codegen` of a `StaticCallNode` with the overloads of its method. -/
def codegenStaticCall
    (versions : List (Overload Code))
    (args : List ObjectTypeSet) :
    Except DispatchException (StaticCallCode Code) :=
  if args.all ObjectTypeSet.isDetermined then
    match versions.find?
      (staticallyPossible (args.map ObjectTypeSet.unboxed)) with
    | some id => .ok (.direct id)
    | none => .error .noMatchingOverload
  else
    dynamicCall versions args

/-! ## Run time -/

/-- The test of the runtime types for a specialized overload. -/
def runtimeMatch (types : List ObjectType) (id : Overload Code) : Bool :=
  (types.zip id.argTypes).all fun (type, argType) =>
    !argType.isDetermined || argType.isDeterminedAs type

/-- The code generated for a static call, run on arguments of some types. -/
def StaticCallCode.run (types : List ObjectType) : StaticCallCode Code →
    StaticCallResult Code
  | .direct id => .calls id
  | .dispatch specialized generic =>
      match specialized.find? (runtimeMatch types) with
      | some id => .calls id
      | none =>
          match generic with
          | some id => .calls id
          | none => .raises .noMatchingOverloadAtRuntime

/-- A static call, compiled for the type sets of its arguments and run. -/
def dispatchStaticCall
    (versions : List (Overload Code))
    (args : List ObjectTypeSet)
    (types : List ObjectType) : StaticCallResult Code :=
  match codegenStaticCall versions args with
  | .ok code => code.run types
  | .error exception => .raises exception

/-! ## What the choice should be -/

/-- The overload takes arguments of these types. -/
def Matches (id : Overload Code) (types : List ObjectType) : Prop :=
  List.Forall₂ (fun argType type => argType.contains type = true)
    id.argTypes types

/-- Every argument type is a single type or the dynamic one. -/
def WellTyped (versions : List (Overload Code)) : Prop :=
  ∀ id ∈ versions, ∀ argType ∈ id.argTypes,
    argType.isDetermined = true ∨ argType.allTypes = true

/-- The arguments have types in their static type sets. -/
def Admitted (args : List ObjectTypeSet) (types : List ObjectType) : Prop :=
  List.Forall₂ (fun arg type => arg.contains type = true) args types

/-- The call runs an overload for the types of the arguments, and an exception
means that there is none. -/
def DispatchesRightly
    (versions : List (Overload Code))
    (args : List ObjectTypeSet)
    (types : List ObjectType) : Prop :=
  match dispatchStaticCall versions args types with
  | .calls id =>
      id ∈ versions ∧ id.argTypes.length = args.length ∧ Matches id types
  | .raises _ => ∀ id ∈ versions, ¬ Matches id types

/-- Where only the flag for every type puts the type of an argument into its
set, the overload takes anything. -/
def Enumerated (id : Overload Code) (args : List ObjectTypeSet)
    (types : List ObjectType) :
    Prop :=
  ∀ entry ∈ (args.zip types).zip id.argTypes,
    entry.1.1.allTypes = true → entry.1.2 ∈ entry.1.1.internal ∨
      entry.2.allTypes = true

/-! ## One argument -/

namespace ObjectTypeSet

variable {arg argType : ObjectTypeSet} {type : ObjectType}

theorem isEmpty_eq_false_of_contains (contained : arg.contains type = true) :
    arg.isEmpty = false := by
  rcases contains_iff.mp contained with allTypes | enumerated
  · simp [isEmpty, allTypes]
  · simp [isEmpty, Finset.ne_empty_of_mem enumerated]

@[simp] theorem restriction_unboxed_isEmpty :
    (arg.unboxed.restriction argType).isEmpty =
    (arg.restriction argType).isEmpty := by
  unfold unboxed
  split
  · unfold restriction
    split <;> rfl
  · rfl

theorem contains_of_isDeterminedAs
    (determined : arg.isDeterminedAs type = true) :
    arg.contains type = true := by
  simp only [isDeterminedAs, Bool.and_eq_true, decide_eq_true_eq] at determined
  exact contains_iff.mpr (Or.inr determined.2)

/-- An argument does not rule out what it enumerates. -/
theorem restriction_nonempty
    (lies : arg.contains type = true)
    (takes : argType.contains type = true)
    (enumerated : arg.allTypes = true → type ∈ arg.internal ∨
      argType.allTypes = true) :
    (arg.restriction argType).isEmpty = false := by
  unfold restriction
  split
  · exact isEmpty_eq_false_of_contains lies
  · next notAll =>
      have inParameter := (contains_iff.mp takes).resolve_left notAll
      have inArgument : type ∈ arg.internal :=
        (contains_iff.mp lies).elim
          (fun allTypes => (enumerated allTypes).resolve_right notAll) id
      have shared : type ∈ arg.internal ∩ argType.internal :=
        Finset.mem_inter.mpr ⟨inArgument, inParameter⟩
      exact isEmpty_eq_false_of_contains (contains_iff.mpr (Or.inr shared))

theorem restriction_members
    (nonempty : (arg.restriction argType).isEmpty = false) :
    argType.allTypes = true ∨ ∃ type, type ∈ arg.internal ∧
      type ∈ argType.internal := by
  by_cases allTypes : argType.allTypes = true
  · exact Or.inl allTypes
  · rw [restriction, if_neg allTypes] at nonempty
    simp only [isEmpty, Bool.not_false, Bool.and_true,
      decide_eq_false_iff_not] at nonempty
    obtain ⟨type, member⟩ := Finset.nonempty_iff_ne_empty.mpr nonempty
    exact Or.inr ⟨type, Finset.mem_inter.mp member⟩

theorem eq_of_mem_determined
    {first second : ObjectType}
    (determined : arg.isDetermined = true)
    (firstMember : first ∈ arg.internal)
    (secondMember : second ∈ arg.internal) :
    first = second := by
  simp only [isDetermined, Bool.and_eq_true, decide_eq_true_eq] at determined
  exact Finset.card_le_one.mp determined.1.le first firstMember second
    secondMember

/-- What a determined argument does not rule out takes it. -/
theorem takes_of_determined
    (determined : arg.isDetermined = true)
    (lies : arg.contains type = true)
    (nonempty : (arg.restriction argType).isEmpty = false) :
    argType.contains type = true := by
  rw [contains_iff]
  refine (restriction_members nonempty).imp_right ?_
  rintro ⟨other, inArgument, inParameter⟩
  have member := isDeterminedAs_of_contains determined lies
  simp only [isDeterminedAs, Bool.and_eq_true, decide_eq_true_eq] at member
  rwa [eq_of_mem_determined determined member.2 inArgument]

/-- A parameter that an argument does not rule out and that takes its type is
one that the argument enumerates. -/
theorem enumerated_of_nonempty
    (single : argType.isDetermined = true ∨ argType.allTypes = true)
    (takes : argType.contains type = true)
    (nonempty : (arg.restriction argType).isEmpty = false) :
    type ∈ arg.internal ∨ argType.allTypes = true := by
  rcases restriction_members nonempty with allTypes |
    ⟨other, inArgument, inParameter⟩
  · exact Or.inr allTypes
  · rcases single with determined | allTypes
    · have member := isDeterminedAs_of_contains determined takes
      simp only [isDeterminedAs, Bool.and_eq_true, decide_eq_true_eq] at member
      rw [eq_of_mem_determined determined member.2 inParameter]
      exact Or.inl inArgument
    · exact Or.inr allTypes

end ObjectTypeSet

/-! ## All arguments -/

variable {versions : List (Overload Code)} {args : List ObjectTypeSet}
  {types : List ObjectType} {id : Overload Code}

theorem staticallyPossible_iff :
    staticallyPossible args id = true ↔
      List.Forall₂
        (fun arg argType => (arg.restriction argType).isEmpty = false) args
        id.argTypes := by
  simp only [staticallyPossible, Bool.and_eq_true, decide_eq_true_eq,
    List.all_eq_true, Bool.not_eq_true', List.forall₂_iff_zip, Prod.forall]
  exact and_congr_left' eq_comm

theorem Enumerated.cons_iff
    {arg argType : ObjectTypeSet}
    {type : ObjectType}
    {symbol : Code}
    {argTypes : List ObjectTypeSet} :
    Enumerated ⟨argType :: argTypes, symbol⟩ (arg :: args) (type :: types) ↔
      (arg.allTypes = true → type ∈ arg.internal ∨ argType.allTypes = true) ∧
        Enumerated ⟨argTypes, symbol⟩ args types := by
  simp [Enumerated]

/-- What the arguments enumerate is possible. -/
theorem possible_of_matches
    {symbol : Code}
    {argTypes : List ObjectTypeSet}
    (admitted : Admitted args types)
    (takes : Matches ⟨argTypes, symbol⟩ types)
    (enumerated : Enumerated ⟨argTypes, symbol⟩ args types) :
    List.Forall₂ (fun arg argType => (arg.restriction argType).isEmpty = false)
      args
      argTypes := by
  induction admitted generalizing argTypes with
  | nil =>
      cases takes
      exact .nil
  | cons lies _ inductionHypothesis =>
      cases takes with
      | cons first rest =>
          obtain ⟨firstEnumerated, restEnumerated⟩ :=
            Enumerated.cons_iff.mp enumerated
          exact .cons
            (ObjectTypeSet.restriction_nonempty lies first firstEnumerated)
            (inductionHypothesis rest restEnumerated)

/-- Of the possible overloads with single types, those that match are
enumerated. -/
theorem enumerated_of_possible
    {symbol : Code}
    {argTypes : List ObjectTypeSet}
    (single : ∀ argType ∈ argTypes, argType.isDetermined = true ∨
      argType.allTypes = true)
    (possible :
      List.Forall₂
      (fun arg argType => (arg.restriction argType).isEmpty = false)
      args argTypes)
    (takes : Matches ⟨argTypes, symbol⟩ types) :
    Enumerated ⟨argTypes, symbol⟩ args types := by
  induction possible generalizing types with
  | nil => simp [Enumerated]
  | cons nonempty _ inductionHypothesis =>
      cases takes with
      | cons first rest =>
          obtain ⟨firstSingle, restSingle⟩ := List.forall_mem_cons.mp single
          exact Enumerated.cons_iff.mpr
            ⟨fun _ => ObjectTypeSet.enumerated_of_nonempty firstSingle first
              nonempty,
              inductionHypothesis restSingle rest⟩

/-- An overload that determined arguments do not rule out matches them. -/
theorem matches_of_determined
    {symbol : Code}
    {argTypes : List ObjectTypeSet}
    (determined : ∀ arg ∈ args, arg.isDetermined = true)
    (admitted : Admitted args types)
    (possible :
      List.Forall₂
      (fun arg argType => (arg.restriction argType).isEmpty = false)
      args argTypes) :
    Matches ⟨argTypes, symbol⟩ types := by
  induction admitted generalizing argTypes with
  | nil =>
      cases possible
      exact .nil
  | cons lies _ inductionHypothesis =>
      cases possible with
      | cons nonempty rest =>
          obtain ⟨firstDetermined, restDetermined⟩ :=
            List.forall_mem_cons.mp determined
          exact .cons
            (ObjectTypeSet.takes_of_determined firstDetermined lies nonempty)
            (inductionHypothesis restDetermined rest)

/-- The test of the runtime types finds the overloads that match. -/
theorem runtimeMatch_iff
    {symbol : Code}
    {argTypes : List ObjectTypeSet}
    (single : ∀ argType ∈ argTypes, argType.isDetermined = true ∨
      argType.allTypes = true)
    (sameLength : types.length = argTypes.length) :
    runtimeMatch types ⟨argTypes, symbol⟩ = true ↔
      Matches ⟨argTypes, symbol⟩ types := by
  induction argTypes generalizing types with
  | nil =>
      rw [List.length_nil, List.length_eq_zero_iff] at sameLength
      simp [sameLength, runtimeMatch, Matches]
  | cons argType argTypes inductionHypothesis =>
      cases types with
      | nil => cases sameLength
      | cons type types =>
          obtain ⟨firstSingle, restSingle⟩ := List.forall_mem_cons.mp single
          have rest := inductionHypothesis restSingle (Nat.succ.inj sameLength)
          have first :
            (!argType.isDetermined || argType.isDeterminedAs type) = true ↔
              argType.contains type = true := by
            rw [Bool.or_eq_true, Bool.not_eq_true']
            constructor
            · rintro (notDetermined | isType)
              · exact ObjectTypeSet.contains_iff.mpr
                  (Or.inl (firstSingle.resolve_left (by simp [notDetermined])))
              · exact ObjectTypeSet.contains_of_isDeterminedAs isType
            · intro takes
              cases determined : argType.isDetermined with
              | false => exact Or.inl rfl
              | true =>
                  exact Or.inr
                    (ObjectTypeSet.isDeterminedAs_of_contains determined takes)
          simp only [runtimeMatch, Matches, List.zip_cons_cons, List.all_cons,
            Bool.and_eq_true, List.forall₂_cons] at rest ⊢
          exact and_congr first rest

/-! ## The loop over the overloads -/

theorem collectOverloads_eq
    (generic : Option (Overload Code))
    (specialized : List (Overload Code)) :
    collectOverloads args versions generic specialized =
      (((versions.filter (staticallyPossible args)).filter
        isGeneric).getLast?.or generic,
        specialized ++
          (versions.filter (staticallyPossible args)).filter fun id =>
            !isGeneric id) := by
  induction versions generalizing generic specialized with
  | nil => simp [collectOverloads]
  | cons id versions inductionHypothesis =>
      rw [collectOverloads]
      cases possible : staticallyPossible args id with
      | false => simp [possible, inductionHypothesis]
      | true =>
          cases takesAll : isGeneric id with
          | true =>
              simp only [possible, takesAll, Bool.not_true, Bool.false_eq_true,
                if_false, if_true, inductionHypothesis, List.filter_cons_of_pos,
                List.getLast?_cons, Prod.mk.injEq, Option.some_or,
                not_false_eq_true, List.filter_cons_of_neg, and_true]
              cases ((versions.filter (staticallyPossible args)).filter
                isGeneric).getLast? <;>
                rfl
          | false =>
              simp [possible, takesAll, inductionHypothesis]

/-- A generic overload with single or dynamic types takes anything. -/
theorem matches_of_isGeneric
    (single : ∀ argType ∈ id.argTypes, argType.isDetermined = true ∨
      argType.allTypes = true)
    (takesAll : isGeneric id = true)
    (sameLength : id.argTypes.length = types.length) :
    Matches id types := by
  refine List.forall₂_iff_zip.mpr ⟨sameLength, fun {argType type} member => ?_⟩
  have isArgument := (List.of_mem_zip member).1
  have dynamic := List.all_eq_true.mp takesAll argType isArgument
  refine ObjectTypeSet.contains_iff.mpr
    (Or.inl ((single argType isArgument).resolve_left ?_))
  intro determined
  simp only [ObjectTypeSet.isDetermined, ObjectTypeSet.isDynamic,
    Bool.and_eq_true, Bool.not_eq_true', Bool.or_eq_true,
    decide_eq_true_eq] at determined dynamic
  obtain ⟨isSingle, notAll⟩ := determined
  rw [notAll] at dynamic
  have several := dynamic.resolve_right Bool.false_ne_true
  omega

/-! ## The choice -/

/-- The overloads that a call can run. -/
structure Callable (versions : List (Overload Code)) (args : List ObjectTypeSet)
    (types : List ObjectType) (id : Overload Code) : Prop where
  mem : id ∈ versions
  possible : staticallyPossible args id = true
  takes : Matches id types

theorem Callable.length_eq (callable : Callable versions args types id) :
    id.argTypes.length = args.length :=
  (staticallyPossible_iff.mp callable.possible).length_eq.symm

/-- With determined arguments the call runs the first possible overload. -/
theorem dispatch_of_determined
    (determined : ∀ arg ∈ args, arg.isDetermined = true)
    (admitted : Admitted args types) :
    (∃ id, dispatchStaticCall versions args types = .calls id ∧
        Callable versions args types id) ∨
      (∃ exception,
        dispatchStaticCall versions args types = .raises exception) ∧
        ∀ id ∈ versions, staticallyPossible args id = false := by
  have samePossible : (staticallyPossible (args.map ObjectTypeSet.unboxed) :
      Overload Code → Bool) = staticallyPossible args := by
    funext id
    simp [staticallyPossible, List.zip_map_left, List.all_map,
      Function.comp_def]
  unfold dispatchStaticCall codegenStaticCall
  rw [if_pos (List.all_eq_true.mpr determined), samePossible]
  cases found : versions.find? (staticallyPossible args) with
  | some id =>
      have possible := List.find?_some found
      exact Or.inl ⟨id, rfl, List.mem_of_find?_eq_some found, possible,
        matches_of_determined determined admitted
          (staticallyPossible_iff.mp possible)⟩
  | none =>
      exact Or.inr ⟨⟨_, rfl⟩, fun id member =>
        Bool.eq_false_iff.mpr (List.find?_eq_none.mp found id member)⟩

/-- What a test of the specialized overloads finds is callable. -/
theorem callable_of_find
    (wellTyped : WellTyped versions)
    (admitted : Admitted args types)
    {tested : List (Overload Code)}
    (areTested : ∀ id ∈ tested,
      id ∈ versions ∧ staticallyPossible args id = true)
    (found : tested.find? (runtimeMatch types) = some id) :
    Callable versions args types id := by
  obtain ⟨member, possible⟩ := areTested id (List.mem_of_find?_eq_some found)
  have sameLength : types.length = id.argTypes.length :=
    admitted.length_eq.symm.trans (staticallyPossible_iff.mp possible).length_eq
  exact ⟨member, possible,
    (runtimeMatch_iff (wellTyped id member) sameLength).mp
    (List.find?_some found)⟩

/-- Without, it runs a possible overload that matches, and if there is none it
raises. -/
theorem dispatch_of_dynamic
    (wellTyped : WellTyped versions)
    (admitted : Admitted args types)
    (notDetermined : ¬ ∀ arg ∈ args, arg.isDetermined = true) :
    (∃ id, dispatchStaticCall versions args types = .calls id ∧
        Callable versions args types id) ∨
      (∃ exception,
        dispatchStaticCall versions args types = .raises exception) ∧
        ∀ id, ¬ Callable versions args types id := by
  have lengths : ∀ id : Overload Code, staticallyPossible args id = true →
      id.argTypes.length = types.length := fun id possible =>
    (staticallyPossible_iff.mp possible).length_eq.symm.trans admitted.length_eq
  unfold dispatchStaticCall codegenStaticCall dynamicCall
  rw [if_neg (by rwa [List.all_eq_true]), collectOverloads_eq, Option.or_none,
    List.nil_append]
  have specialized : ∀ id ∈ (versions.filter (staticallyPossible args)).filter
      (fun id => !isGeneric id),
      id ∈ versions ∧ staticallyPossible args id = true :=
    fun id member => List.mem_filter.mp (List.mem_filter.mp member).1
  cases last :
    ((versions.filter (staticallyPossible args)).filter isGeneric).getLast? with
  | some generic =>
      obtain ⟨candidate, takesAll⟩ :=
        List.mem_filter.mp (List.mem_of_getLast? last)
      obtain ⟨member, possible⟩ := List.mem_filter.mp candidate
      have isCallable :
        Callable versions args types generic := ⟨member, possible,
        matches_of_isGeneric (wellTyped generic member) takesAll
          (lengths generic possible)⟩
      simp only [Option.isNone_some, Bool.and_false, Bool.false_eq_true,
        if_false, Option.isSome_some, if_true, StaticCallCode.run]
      cases found : (((versions.filter (staticallyPossible args)).filter
          fun id => !isGeneric id).take 2).find? (runtimeMatch types) with
      | some id =>
          exact Or.inl ⟨id, rfl, callable_of_find wellTyped admitted
            (fun id member => specialized id (List.mem_of_mem_take member))
            found⟩
      | none => exact Or.inl ⟨generic, rfl, isCallable⟩
  | none =>
      -- Every callable overload is among the specialized ones and passes its test.
      have isTested : ∀ id : Overload Code, Callable versions args types id →
          id ∈ (versions.filter (staticallyPossible args)).filter
            (fun id => !isGeneric id) ∧
            runtimeMatch types id = true := by
        intro id callable
        have candidate := List.mem_filter.mpr ⟨callable.mem, callable.possible⟩
        refine ⟨List.mem_filter.mpr ⟨candidate, ?_⟩, ?_⟩
        · rw [List.getLast?_eq_none_iff, List.filter_eq_nil_iff] at last
          simpa using last id candidate
        · exact (runtimeMatch_iff (wellTyped id callable.mem)
            (lengths id callable.possible).symm).mpr callable.takes
      simp only [Option.isNone_none, Bool.and_true, Option.isSome_none,
        Bool.false_eq_true, if_false]
      by_cases isEmpty : ((versions.filter (staticallyPossible args)).filter
          fun id => !isGeneric id).isEmpty = true
      · rw [if_pos isEmpty]
        refine Or.inr ⟨⟨_, rfl⟩, fun id callable => ?_⟩
        have tested := (isTested id callable).1
        rw [List.isEmpty_iff.mp isEmpty] at tested
        cases tested
      · rw [if_neg isEmpty]
        simp only [StaticCallCode.run]
        cases found : ((versions.filter (staticallyPossible args)).filter
            fun id => !isGeneric id).find? (runtimeMatch types) with
        | some id =>
            exact Or.inl
              ⟨id, rfl, callable_of_find wellTyped admitted specialized found⟩
        | none =>
            refine Or.inr ⟨⟨_, rfl⟩, fun id callable => ?_⟩
            obtain ⟨tested, passes⟩ := isTested id callable
            exact List.find?_eq_none.mp found id tested passes

/-- The call runs a callable overload, and if there is none it raises. -/
theorem dispatch_callable
    (wellTyped : WellTyped versions)
    (admitted : Admitted args types) :
    (∃ id, dispatchStaticCall versions args types = .calls id ∧
        Callable versions args types id) ∨
      (∃ exception,
        dispatchStaticCall versions args types = .raises exception) ∧
        ∀ id, ¬ Callable versions args types id := by
  by_cases determined : ∀ arg ∈ args, arg.isDetermined = true
  · refine (dispatch_of_determined determined admitted).imp_right
      fun raised => ?_
    refine ⟨raised.1, fun id callable => ?_⟩
    exact absurd callable.possible (by simp [raised.2 id callable.mem])
  · exact dispatch_of_dynamic wellTyped admitted determined

theorem dispatches_rightly_iff
    (versions : List (Overload Code))
    (args : List ObjectTypeSet)
    (types : List ObjectType)
    (wellTyped : WellTyped versions)
    (admitted : Admitted args types) :
    DispatchesRightly versions args types ↔
      ((∃ id ∈ versions, Matches id types) →
        ∃ id ∈ versions, Matches id types ∧ Enumerated id args types) := by
  have callable_iff : ∀ id, Callable versions args types id ↔
      id ∈ versions ∧ Matches id types ∧ Enumerated id args types := by
    intro id
    constructor
    · rintro ⟨member, possible, takes⟩
      exact ⟨member, takes, enumerated_of_possible (wellTyped id member)
        (staticallyPossible_iff.mp possible) takes⟩
    · rintro ⟨member, takes, enumerated⟩
      exact ⟨member,
        staticallyPossible_iff.mpr
          (possible_of_matches admitted takes enumerated),
        takes⟩
  unfold DispatchesRightly
  rcases dispatch_callable wellTyped admitted with
    ⟨id, called, callable⟩ | ⟨⟨exception, raised⟩, noneCallable⟩
  · rw [called]
    exact iff_of_true ⟨callable.mem, callable.length_eq, callable.takes⟩
      fun _ => ⟨id, (callable_iff id).mp callable⟩
  · rw [raised]
    constructor
    · rintro noneMatches ⟨id, member, takes⟩
      exact absurd takes (noneMatches id member)
    · intro enumerated id member takes
      obtain ⟨other, isEnumerated⟩ := enumerated ⟨id, member, takes⟩
      exact noneCallable other ((callable_iff other).mpr isEnumerated)

/-- One overload for an int and an argument known to be one. -/
theorem dispatches_rightly_iff_int :
    DispatchesRightly [⟨[.ofType .integerType false none], 0⟩]
        [.ofType .integerType false none] [.integerType] ↔
      ((∃ id ∈ [(⟨[.ofType .integerType false none], 0⟩ : Overload Nat)],
          Matches id [.integerType]) →
        ∃ id ∈ [(⟨[.ofType .integerType false none], 0⟩ : Overload Nat)],
          Matches id [.integerType] ∧
            Enumerated id [.ofType .integerType false none] [.integerType]) :=
  dispatches_rightly_iff _ _ _ (by simp [WellTyped]; decide)
    (.cons (by decide) .nil)

/-- An argument of any type rules out the overload for its class. -/
theorem dispatch_misses_class :
    ¬ ∀ (versions : List (Overload Nat)) (args : List ObjectTypeSet)
      (types : List ObjectType),
      WellTyped versions → Admitted args types →
        DispatchesRightly versions args types := by
  intro allRight
  have right := allRight [⟨[.ofType (.custom 100) false none], 0⟩]
    [.dynamicType] [.custom 100]
    (by simp [WellTyped]; decide) (.cons (by decide) .nil)
  exact right _ (List.mem_singleton.mpr rfl) (.cons (by decide) .nil)

end Codegen
end ClojureRt
