import ClojureRt.Lib.SignedWords
import ClojureRt.Runtime.PersistentList.Calls

/-!
# The laws of lists

A list should have as many values as it was built from and deliver just these.
The lists of `fromArray` and `conj` deliver one more, the mark of the empty
list, which is no nil either; `createMany` turns `EMPTY_LIST` itself into the
list; `more` is the list as it was.

What a caller does with its references keeps `EMPTY_LIST` as it is, except for
`createMany` with arguments.
-/

namespace ClojureRt
namespace Runtime
namespace PersistentList

open RefCount RefCount.Program
open Sharing (Address RTValue)

/-! ## Laws -/

/-- `EMPTY_LIST` is empty, and the caller owns the values. -/
structure Ready (heap : ListHeap) (values : List RTValue) : Prop where
  isEmpty : heap.object? emptyList = some (.list emptyCell)
  areValues : boxNull ∉ values
  holds : Holds heap (emptyList :: addressesOf values)

/-- The empty list with values added, the last one first. -/
def conjReversed (values : List RTValue) : Code Address := do
  let list ← empty
  conjAll list values.reverse

/-- The list that is built has a count. -/
def Counted (build : Code Address) (heap : ListHeap) (length : Nat) : Prop :=
  Runs (do let list ← build; count list) heap fun result _ =>
    result.toInt = length

/-- The list that is built delivers some values, and then nil. -/
def Enumerated (build : Code Address) (heap : ListHeap)
    (values : List RTValue) : Prop :=
  ∃ enough, ∀ fuel, enough ≤ fuel →
    Runs (do let list ← build; enumerate fuel list) heap fun result _ =>
      result = values

/-- After the list is built, `EMPTY_LIST` is what it was. -/
def KeepsEmpty (build : Code Address) (heap : ListHeap) : Prop :=
  Runs build heap fun _ after =>
    after.object? emptyList = heap.object? emptyList

/-- The laws for one way to build a list. -/
structure Builds (build : Code Address) (heap : ListHeap)
    (values : List RTValue) : Prop where
  counted : Counted build heap values.length
  enumerated : Enumerated build heap values
  keepsEmpty : KeepsEmpty build heap

/-- `more` of the list is the rest of it. -/
def MoreIsRest (heap : ListHeap) (values : List RTValue) : Prop :=
  Runs (do let list ← fromArray values; more list) heap fun result after =>
    IsList after result values.tail

/-- `first` of the empty list is nil. -/
def FirstOfEmptyIsNil (heap : ListHeap) : Prop :=
  Runs (do let list ← empty; first list) heap fun result _ => result = .boxNil

/-- What is expected of the functions that build a list of values, and of the
first of none. -/
structure SequenceLaws (heap : ListHeap) (values : List RTValue) : Prop where
  createMany : Builds (createMany values) heap values
  fromArray : Builds (fromArray values) heap values
  conj : Builds (conjReversed values) heap values
  more : MoreIsRest heap values
  firstOfEmpty : FirstOfEmptyIsNil heap

/-! ## What the code does instead -/

/-- A program has one result. -/
theorem runs_value_iff
    {Result : Type}
    {program : Code Result}
    {heap : ListHeap}
    {value : Result}
    (runs : Runs program heap fun result _ => result = value)
    (holds : Result → Prop) :
    Runs program heap (fun result _ => holds result) ↔ holds value := by
  constructor
  · intro other
    obtain ⟨result, _, _, rfl, isHolding⟩ := runs.and other
    exact isHolding
  · intro isHolding
    apply runs.mono
    rintro result _ rfl
    exact isHolding

theorem IsList.unique
    {heap : ListHeap}
    {address : Address}
    {values others : List RTValue}
    (first : IsList heap address values)
    (second : IsList heap address others) : values = others := by
  induction values generalizing address others with
  | nil =>
      obtain ⟨metadata, found⟩ := first
      cases others with
      | nil => rfl
      | cons other others =>
          obtain ⟨_, _, _, isFound, _⟩ := second
          rw [found] at isFound
          cases isFound
  | cons value values inductionHypothesis =>
      obtain ⟨_, rest, metadata, found, restList⟩ := first
      cases others with
      | nil =>
          obtain ⟨_, isFound⟩ := second
          rw [found] at isFound
          cases isFound
      | cons other others =>
          obtain ⟨_, otherRest, _, isFound, otherList⟩ := second
          rw [found] at isFound
          simp only [Option.some.injEq, Object.list.injEq,
            Cell.mk.injEq] at isFound
          obtain ⟨rfl, rfl, -, -⟩ := isFound
          rw [inductionHypothesis restList otherList]

section Building

variable {heap : ListHeap} {values : List RTValue} {build : Code Address}

theorem Ready.emptyIsList (ready : Ready heap values) :
    IsList heap emptyList [] :=
  ⟨_, ready.isEmpty⟩

/-- What is known of `fromArray` and of `conj`: the list has the values, and
only new objects were written. -/
structure Lists (build : Code Address) (heap : ListHeap)
    (values : List RTValue) : Prop where
  runs : Runs build heap fun result after =>
    IsList after result values ∧
      Grows heap after (own result - owns (addressesOf values))

theorem Ready.lists_fromArray (ready : Ready heap values) :
    Lists (fromArray values) heap values :=
  ⟨runs_fromArray ready.emptyIsList ready.areValues ready.holds⟩

theorem Ready.lists_conjReversed (ready : Ready heap values) :
    Lists (conjReversed values) heap values :=
  ready.lists_fromArray

/-- The caller has the list, and the runtime the empty one. -/
theorem Ready.holds_built
    (ready : Ready heap values)
    {result : Address}
    {after : ListHeap}
    (grows : Grows heap after (own result - owns (addressesOf values))) :
    Holds after [result, emptyList] := by
  apply grows.holds ready.holds
  intro other
  simp only [owns_cons, owns_nil, Pi.add_apply, Pi.sub_apply, Pi.zero_apply]
  omega

theorem Lists.counted_iff (lists : Lists build heap values)
    (ready : Ready heap values) :
    Counted build heap values.length ↔ values.length < 2 ^ 31 := by
  rw [← SignedWords.toInt_ofNat_eq_iff]
  refine runs_value_iff ?_ fun result : BitVec 32 =>
    result.toInt = values.length
  apply Runs.bind
  apply lists.runs.mono
  rintro list after ⟨isList, grows⟩
  obtain ⟨cell, found, _, isCount⟩ := isList.cell
  apply (runs_count found (ready.holds_built grows).head).mono
  rintro result _ ⟨rfl, _⟩
  exact isCount

/-- One more is delivered than there are. -/
theorem Lists.enumerated (lists : Lists build heap values)
    (ready : Ready heap values) :
    Enumerated build heap (values ++ [boxNull]) := by
  refine ⟨values.length + 1, fun fuel enough => ?_⟩
  apply Runs.bind
  apply lists.runs.mono
  rintro list after ⟨isList, grows⟩
  apply (runs_enumerate_isList isList (ready.holds_built grows).head
    enough).mono
  rintro result _ ⟨isResult, _⟩
  exact isResult

theorem Lists.keepsEmpty (lists : Lists build heap values)
    (ready : Ready heap values) :
    KeepsEmpty build heap := by
  apply lists.runs.mono
  rintro list after ⟨_, grows⟩
  have holds := (ready.holds_built grows).tail
  rw [grows.kept ready.isEmpty (holds.present List.mem_cons_self),
    ready.isEmpty]

theorem Enumerated.unique
    {others : List RTValue}
    (first : Enumerated build heap values)
    (second : Enumerated build heap others) : values = others := by
  obtain ⟨enough, runs⟩ := first
  obtain ⟨enough', runs'⟩ := second
  have both := (runs (max enough enough') (Nat.le_max_left _ _)).and
    (runs' (max enough enough') (Nat.le_max_right _ _))
  obtain ⟨_, _, _, rfl, rfl⟩ := both
  rfl

theorem Lists.not_enumerated (lists : Lists build heap values)
    (ready : Ready heap values) :
    ¬ Enumerated build heap values := by
  intro enumerated
  have same := congrArg List.length (enumerated.unique (lists.enumerated ready))
  rw [List.length_append, List.length_singleton] at same
  omega

theorem counted_createMany_iff (ready : Ready heap values) :
    Counted (createMany values) heap values.length ↔ values = [] := by
  have zero : (0 : BitVec 32).toInt = values.length ↔ values = [] := by
    rw [← List.length_eq_zero_iff]
    simp [eq_comm]
  rw [← zero]
  refine runs_value_iff ?_ fun result : BitVec 32 =>
    result.toInt = values.length
  apply Runs.bind
  apply (runs_createMany ready.isEmpty ready.areValues ready.holds).mono
  rintro list after ⟨rfl, ⟨rest, found, _⟩, _, since⟩
  have holds : Holds after [emptyList] := by
    apply since.holds ready.holds
    intro other
    have := own_nonneg emptyList other
    simp only [owns_cons, owns_nil, Pi.add_apply, Pi.sub_apply, Pi.zero_apply]
    omega
  apply (runs_count found holds).mono
  rintro result _ ⟨rfl, _⟩
  rfl

theorem enumerated_createMany (ready : Ready heap values) :
    Enumerated (createMany values) heap (boxNull :: values) := by
  refine ⟨values.length + 1, fun fuel enough => ?_⟩
  apply Runs.bind
  apply (runs_createMany ready.isEmpty ready.areValues ready.holds).mono
  rintro list after ⟨rfl, _, ⟨cells, isChain, firsts⟩, since⟩
  have holds : Holds after [emptyList] := by
    apply since.holds ready.holds
    intro other
    have := own_nonneg emptyList other
    simp only [owns_cons, owns_nil, Pi.add_apply, Pi.sub_apply, Pi.zero_apply]
    omega
  have long : cells.length ≤ fuel := by
    have := congrArg List.length firsts
    rw [List.length_map, List.length_cons] at this
    omega
  apply (runs_enumerate isChain holds long).mono
  rintro result _ ⟨rfl, _⟩
  exact firsts

theorem keepsEmpty_createMany_iff (ready : Ready heap values) :
    KeepsEmpty (createMany values) heap ↔ values = [] := by
  have runs := runs_createMany ready.isEmpty ready.areValues ready.holds
  constructor
  · intro keeps
    obtain ⟨_, after, _, same, _, ⟨rest, found, isNone⟩, _⟩ := keeps.and runs
    rw [ready.isEmpty, found] at same
    cases same
    exact isNone.mp rfl
  · intro noValues
    apply runs.mono
    rintro _ after ⟨_, ⟨rest, found, isNone⟩, _⟩
    rw [found, isNone.mpr noValues, ready.isEmpty]
    rfl

theorem moreIsRest_iff (ready : Ready heap values) :
    MoreIsRest heap values ↔ values = [] := by
  have runs : Runs (do let list ← fromArray values; more list) heap
    fun result after =>
      IsList after result values := by
    apply Runs.bind
    apply ready.lists_fromArray.runs.mono
    rintro list after ⟨isList, _⟩
    exact Runs.pure isList
  constructor
  · intro isRest
    obtain ⟨_, _, _, whole, rest⟩ := runs.and isRest
    have same := congrArg List.length (whole.unique rest)
    rw [List.length_tail] at same
    exact List.length_eq_zero_iff.mp (by omega)
  · rintro rfl
    exact runs

theorem not_firstOfEmptyIsNil (ready : Ready heap values) :
    ¬ FirstOfEmptyIsNil heap := by
  have runs : Runs (do let list ← empty; first list) heap fun result _ =>
      result = boxNull := by
    apply Runs.bind
    apply (runs_empty ready.holds.head).mono
    rintro list after ⟨rfl, grows⟩
    have holds : Holds after [emptyList] := by
      apply grows.holds ready.holds.head
      intro other
      have := own_nonneg emptyList other
      omega
    have found := grows.kept ready.isEmpty (holds.present List.mem_cons_self)
    apply (runs_first found holds).mono
    rintro result _ ⟨rfl, _⟩
    rfl
  intro isNil
  obtain ⟨_, _, _, isNull, isNil⟩ := runs.and isNil
  rw [isNull] at isNil
  exact absurd isNil (by decide)

/-- The laws of `fromArray` and `conj`: only the enumeration is wrong. -/
theorem Lists.exact (lists : Lists build heap values)
    (ready : Ready heap values) :
    (Counted build heap values.length ↔ values.length < 2 ^ 31) ∧
      Enumerated build heap (values ++ [boxNull]) ∧
        ¬ Enumerated build heap values ∧
        KeepsEmpty build heap :=
  ⟨lists.counted_iff ready, lists.enumerated ready, lists.not_enumerated ready,
    lists.keepsEmpty ready⟩

/-- The laws of lists hold for no values.  `fromArray` and `conj` give lists
with the right count, which deliver the mark of the empty list after their
values; `createMany` has the right count, and leaves the empty list alone, only
without arguments; `more` is the rest of the empty list only; and `EMPTY_LIST`
is intact where no `createMany` had arguments. -/
theorem sequenceLaws_exact (ready : Ready heap values) :
    ¬ SequenceLaws heap values ∧
      ((Counted (createMany values) heap values.length ↔ values = []) ∧
        Enumerated (createMany values) heap (boxNull :: values) ∧
        (KeepsEmpty (createMany values) heap ↔ values = [])) ∧
      (∀ build ∈ [fromArray values, conjReversed values],
        (Counted build heap values.length ↔ values.length < 2 ^ 31) ∧
          Enumerated build heap (values ++ [boxNull]) ∧
            ¬ Enumerated build heap values ∧
            KeepsEmpty build heap) ∧
      (MoreIsRest heap values ↔ values = []) ∧
      ¬ FirstOfEmptyIsNil heap ∧
      ∀ state, Holdings.Reaches Call.Allowed state → state.EmptyIntact := by
  have notNil := not_firstOfEmptyIsNil ready
  refine ⟨fun laws => notNil laws.firstOfEmpty,
    ⟨counted_createMany_iff ready, enumerated_createMany ready,
      keepsEmpty_createMany_iff ready⟩,
    ?_, moreIsRest_iff ready, notNil,
    fun state reaches => (Holdings.emptyIntact_of_reaches reaches).1⟩
  intro build isOne
  rcases List.mem_cons.mp isOne with rfl | isOther
  · exact ready.lists_fromArray.exact ready
  · rw [List.mem_singleton.mp isOther]
    exact ready.lists_conjReversed.exact ready

end Building

/-! ## The heap of the start -/

theorem holds_initialHeap : Holds initialHeap [emptyList] := by
  have noReferences : Referencing.references (Object.list emptyCell) = [] := rfl
  have noExcess (address : Address) :
      (Heap.empty : ListHeap).excess address = 0 := by
    simp [Heap.excess, Heap.count, Heap.empty, Heap.incoming, Cell.countOf]
  intro address
  rw [initialHeap, Heap.excess_set, noExcess, owns_singleton]
  unfold own
  split <;> simp [Heap.count, Heap.empty, Heap.referencesAt,
    RefCount.Cell.countOf, RefCount.Cell.referencesOf, noReferences]

theorem ready_initialHeap : Ready initialHeap [.immediate 7] where
  isEmpty := rfl
  areValues := by decide
  holds := holds_initialHeap

theorem sequenceLaws_exact_seven :
    Ready initialHeap [.immediate 7] ∧
      (¬ Counted (createMany [.immediate 7]) initialHeap 1 ∧
        Enumerated (fromArray [.immediate 7]) initialHeap
          [.immediate 7, boxNull]) := by
  have exactly := sequenceLaws_exact ready_initialHeap
  refine ⟨ready_initialHeap, ?_, (exactly.2.2.1 _ List.mem_cons_self).2.1⟩
  intro counted
  exact absurd (exactly.2.1.1.mp counted) (List.cons_ne_nil _ _)

/-- A list that `createMany` makes of one value is counted as empty. -/
theorem createMany_counts_zero :
    ¬ ∀ heap values, Ready heap values → SequenceLaws heap values := by
  intro laws
  obtain ⟨result, after, isResult, isCount⟩ :=
    (laws initialHeap [.immediate 7] ready_initialHeap).createMany.counted
  have zero :
    ((do let list ← createMany [.immediate 7]; count list) initialHeap).map
    Prod.fst =
      some 0 := by
    decide
  rw [isResult, Option.map_some, Option.some.injEq] at zero
  have isZero : result = 0 := zero
  rw [isZero] at isCount
  exact absurd isCount (by decide)

end PersistentList
end Runtime
end ClojureRt
