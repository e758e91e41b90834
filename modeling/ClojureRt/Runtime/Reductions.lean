import ClojureRt.Runtime.OverRelease
import ClojureRt.Runtime.Vector.Operations

/-!
# Reductions as left folds

The reductions of vectors, of the seqs over them and of lists pass the elements
in order, each once, and give the left fold of the function, whoever else holds
the vector, the seq or the list.  Without an initial value the fold starts from
the first element.

They do so exactly if the releases of `RT_invokeMethodWithFrame` after each call
do no harm: the implementation has left the arguments, or there is nothing to
release.  And the header of a vector has to agree with its parts: `assoc` in the
trie shares the tail, and `conj` may write that tail in place, so that another
vector has more elements than it counts.
-/

namespace ClojureRt
namespace Runtime

open RefCount RefCount.Program
open Sharing (Address RTValue)

section Vectors

open VectorSeq

/-- A vector that is reduced from an initial value. -/
structure VectorInput
    (domain : RTValue → Prop)
    (f : RTValue)
    (heap : SeqHeap)
    (address : Address)
    (vector : Vector.PersistentVector)
    (layout : Vector.Layout)
    (start : RTValue) : Prop where
  shaped : Shaped (vectors heap) address vector layout
  elementsIn : ∀ value ∈ layout.elements, domain value
  startIn : domain start
  backed : Backed heap (own address + (Vector.refs start + Vector.refs f))

/-- The values are the elements of the vector in the order of their indices,
and the reductions of the vector and of the seqs over it are left folds over
them. -/
structure VectorFolds
    (impl : RTValue → RTValue → VectorSeq.Code RTValue)
    (invokeDynamic : VectorSeq.Code RTValue)
    (f : RTValue)
    (heap : SeqHeap)
    (address : Address)
    (vector : Vector.PersistentVector)
    (layout : Vector.Layout)
    (start : RTValue)
    (values : List RTValue) : Prop where
  length : values.length = vector.count
  nth : ∀ index value, values[index]? = some value →
    Runs (VectorSeq.nth address index) heap fun result _ => result = value
  reduce : Runs (VectorSeq.reduce (invokeMethodWithFrame impl) address f start)
    heap (Folded Vector.refs (Vector.refs f) (invokeMethodWithFrame impl) heap
      start values)
  reduce2 : Runs
    (VectorSeq.reduce2 (invokeMethodWithFrame impl) invokeDynamic address f)
    heap
    (FoldedFirst Vector.refs (Vector.refs f) (invokeMethodWithFrame impl)
      invokeDynamic values)
  seqReduce : ∀ seq it, heap.object? seq = some (.chunkedSeq it) →
    it.parent = address →
    Backed heap (own seq + (Vector.refs start + Vector.refs f)) →
    Runs (ChunkedSeq.reduce (invokeMethodWithFrame impl) seq f start) heap
      (Folded Vector.refs (Vector.refs f) (invokeMethodWithFrame impl)
        heap start (values.drop it.index))
  seqReduce2 : ∀ seq it, heap.object? seq = some (.chunkedSeq it) →
    it.parent = address →
    (it.index < values.length → At heap it vector layout it.index) →
    Backed heap (own seq + Vector.refs f) →
    Runs (ChunkedSeq.reduce2 (invokeMethodWithFrame impl) invokeDynamic seq f)
      heap (FoldedFirst Vector.refs (Vector.refs f) (invokeMethodWithFrame impl)
        invokeDynamic (values.drop it.index))

variable
  {domain : RTValue → Prop}
  {convention : Convention}
  {impl : RTValue → RTValue → VectorSeq.Code RTValue}
  {invokeDynamic : VectorSeq.Code RTValue}
  {f start : RTValue}
  {heap : SeqHeap}
  {self : Address}
  {vector : Vector.PersistentVector}
  {layout : Vector.Layout}

/-- The reductions of a vector that is laid out. -/
theorem vectorFolds_of_lays
    (implements : Implements Vector.refs (Vector.refs f) domain .consumes
      (invokeMethodWithFrame impl))
    (delivers : Delivers Vector.refs (Vector.refs f) domain invokeDynamic)
    (input : VectorInput domain f heap self vector layout start)
    (isCount : vector.count = layout.elements.length) :
    VectorFolds impl invokeDynamic f heap self vector layout start
      layout.elements := by
  have lays := lays_iff_shaped.mpr ⟨input.shaped, isCount⟩
  have selfNonneg := own_nonneg self
  have startNonneg := Vector.refs_nonneg start
  have functionNonneg := Vector.refs_nonneg f
  have selfBacked :=
    input.backed.left selfNonneg (nonneg_add startNonneg functionNonneg)
  constructor
  · exact isCount.symm
  · intro index value isElement
    apply VectorSeq.runs_nth lays isElement selfBacked
    exact fun _ _ => rfl
  · apply (VectorSeq.runs_reduce implements input.shaped input.startIn
      input.elementsIn input.backed).mono
    exact fun _ _ folded => folded.1
  · apply VectorSeq.runs_reduce2 implements delivers lays input.elementsIn
    apply input.backed.mono (nonneg_add selfNonneg functionNonneg)
    intro address
    have := startNonneg address
    simp only [Pi.add_apply]
    omega
  · rintro seq it found rfl backed
    apply (ChunkedSeq.runs_reduce implements found lays input.startIn
      input.elementsIn backed).mono
    exact fun _ _ folded => folded.1
  · rintro seq it found rfl isAt backed
    exact ChunkedSeq.runs_reduce2 implements delivers found lays isAt
      input.elementsIn backed

/-- Where the releases do no harm, it depends on the count. -/
theorem vectorFolds_iff_count
    (implements : Implements Vector.refs (Vector.refs f) domain .consumes
      (invokeMethodWithFrame impl))
    (delivers : Delivers Vector.refs (Vector.refs f) domain invokeDynamic)
    (input : VectorInput domain f heap self vector layout start) :
    (∃ values,
      VectorFolds impl invokeDynamic f heap self vector layout start values) ↔
      vector.count = layout.elements.length := by
  constructor
  · rintro ⟨values, folds⟩
    obtain ⟨reduction, after, isResult, folded, _⟩ := VectorSeq.runs_reduce
      implements input.shaped input.startIn input.elementsIn input.backed
    have same :=
      (folds.reduce.ensures.of_result reduction after isResult).passed
    rw [← folds.length, ← same, folded.passed]
  · exact fun isCount =>
      ⟨_, vectorFolds_of_lays implements delivers input isCount⟩

/-- A vector of one element, which is the initial value, too. -/
theorem vectorInput_copiesHeap
    {bound other : Address}
    {more : Nat}
    (below : other < bound)
    (isMore : (more : Int) = 1 + Vector.refs (.pointer other) other +
      Vector.refs f other)
    (beyond : ∀ address, bound ≤ address →
      Vector.refs (.pointer other) address = 0 ∧ Vector.refs f address = 0)
    (otherIn : domain (.pointer other)) :
    VectorInput domain f (copiesHeap bound other 1 more) (bound + 1)
      (leafHeader bound 1)
      (Vector.leafLayout bound [.pointer other] (by simp)) (.pointer other) := by
  have isAt : At (copiesHeap bound other 1 more) ⟨0, 0, some bound, bound + 1⟩
      _ _ 0 :=
    copiesHeap_at below (by decide) (by decide)
  have startNonneg := result_nonneg (Vector.refs_nonneg f) (.pointer other)
  refine ⟨(lays_iff_shaped.mp isAt.lays).1,
    List.forall_mem_singleton.mpr otherIn, otherIn, ?_⟩
  apply (copiesHeap_holds 1 below isMore beyond).mono
    (nonneg_add (own_nonneg _) startNonneg)
  intro address
  have := own_nonneg (bound + 2) address
  have := own_nonneg other address
  simp only [Pi.add_apply]
  omega

/-- The releases after the call take the reference to the result. -/
theorem not_vectorFolds_copiesHeap
    {bound other : Address}
    {more : Nat}
    {values : List RTValue}
    (implements : Implements Vector.refs (Vector.refs f) domain .consumes impl)
    (below : other < bound)
    (isMore : (more : Int) = 1 + Vector.refs (.pointer other) other +
      Vector.refs f other)
    (beyond : ∀ address, bound ≤ address →
      Vector.refs (.pointer other) address = 0 ∧ Vector.refs f address = 0)
    (otherIn : domain (.pointer other)) :
    ¬ VectorFolds impl invokeDynamic f (copiesHeap bound other 1 more)
      (bound + 1)
      (leafHeader bound 1) (Vector.leafLayout bound [.pointer other] (by simp))
      (.pointer other)
      values := by
  intro folds
  have seqBacked := (copiesHeap_seq_backed 1 below isMore beyond).left
    (nonneg_add (own_nonneg _)
      (result_nonneg (Vector.refs_nonneg f) (.pointer other)))
    (own_nonneg other)
  obtain ⟨reduction, after, isResult, folded⟩ := folds.seqReduce (bound + 2) _
    (copiesHeap_seq below) rfl seqBacked
  have excess := (ensures_reduce_copy implements below isMore beyond otherIn
    otherIn).of_result reduction after isResult
  have covered := folded.backed.le_excess other
  rw [excess, Vector.refs_pointer, own_self] at covered
  omega

/-- Where they do harm, a vector of one element shows it. -/
theorem harmless_of_vectorFolds
    (implements : Implements Vector.refs (Vector.refs f) domain convention impl)
    (folds : ∀ heap self vector layout start,
      VectorInput domain f heap self vector layout start →
      vector.count = layout.elements.length →
      ∃ values, VectorFolds impl invokeDynamic f heap self vector layout start
        values) :
    Harmless Vector.refs domain convention := by
  cases convention with
  | leaves => exact .inl rfl
  | consumes =>
      refine .inr fun value valueIn => ?_
      cases value with
      | immediate word => exact Vector.refs_immediate word
      | pointer other =>
          exfalso
          obtain ⟨bound, more, below, isMore, beyond⟩ :=
            exists_bound other (.pointer other) f
          obtain ⟨values, isFold⟩ := folds _ _ _ _ _
            (vectorInput_copiesHeap below isMore beyond valueIn) rfl
          exact not_vectorFolds_copiesHeap implements below isMore beyond
            valueIn isFold

end Vectors

section Lists

open PersistentList

/-- A list that is reduced from an initial value. -/
structure ListInput
    (domain : RTValue → Prop)
    (f : RTValue)
    (heap : ListHeap)
    (address : Address)
    (values : List RTValue)
    (start : RTValue) : Prop where
  isList : IsList heap address values
  valuesIn : ∀ value ∈ values, domain value
  startIn : domain start
  backed : Backed heap (own address + (refs start + refs f))

/-- The reductions of a list are left folds over its values. -/
structure ListFolds
    (impl : RTValue → RTValue → PersistentList.Code RTValue)
    (invokeDynamic : PersistentList.Code RTValue)
    (f : RTValue)
    (heap : ListHeap)
    (address : Address)
    (values : List RTValue)
    (start : RTValue) : Prop where
  reduce : Runs
    (PersistentList.reduce (invokeMethodWithFrame impl) address f start) heap
    (Folded refs (refs f) (invokeMethodWithFrame impl) heap start values)
  reduce2 : Runs
    (PersistentList.reduce2 (invokeMethodWithFrame impl) invokeDynamic
    address f) heap
    (FoldedFirst refs (refs f) (invokeMethodWithFrame impl)
      invokeDynamic values)

/-- The lists that are built by `conj` onto the empty one have the values that
were added. -/
structure ConjBuildsLists : Prop where
  ofEmpty : ∀ heap, heap.object? emptyList = some (.list emptyCell) →
    IsList heap emptyList []
  ofConj : ∀ heap self values value, IsList heap self values → value ≠ boxNull →
    Holds heap (self :: addresses value) →
    Runs (conj self value) heap fun result after =>
      IsList after result (value :: values)

variable
  {domain : RTValue → Prop}
  {convention : Convention}
  {impl : RTValue → RTValue → PersistentList.Code RTValue}
  {invokeDynamic : PersistentList.Code RTValue}
  {f : RTValue}

theorem conjBuildsLists : ConjBuildsLists where
  ofEmpty _ isEmpty := ⟨_, isEmpty⟩
  ofConj heap self values value isList isValue holds := by
    apply (PersistentList.runs_conj_isList isList isValue holds).mono
    exact fun _ _ built => built.1

theorem listFolds_of_consumes
    (implements : Implements refs (refs f) domain .consumes
      (invokeMethodWithFrame impl))
    (delivers : Delivers refs (refs f) domain invokeDynamic)
    {heap : ListHeap}
    {self : Address}
    {values : List RTValue}
    {start : RTValue}
    (input : ListInput domain f heap self values start) :
    ListFolds impl invokeDynamic f heap self values start := by
  constructor
  · apply (PersistentList.runs_reduce implements input.isList input.startIn
      input.valuesIn input.backed).mono
    exact fun _ _ folded => folded.1
  · apply PersistentList.runs_reduce2 implements delivers input.isList
      input.valuesIn
    apply input.backed.mono (nonneg_add (own_nonneg self) (refs_nonneg f))
    intro address
    have := refs_nonneg start address
    simp only [Pi.add_apply]
    omega

theorem harmless_of_listFolds
    (implements : Implements refs (refs f) domain convention impl)
    (folds : ∀ heap self values start,
      ListInput domain f heap self values start →
      ListFolds impl invokeDynamic f heap self values start) :
    Harmless refs domain convention := by
  cases convention with
  | leaves => exact .inl rfl
  | consumes =>
      refine .inr fun value valueIn => ?_
      cases value with
      | immediate word => exact refs_immediate word
      | pointer other =>
          exfalso
          obtain ⟨bound, more, below, isMore, beyond⟩ :=
            VectorSeq.exists_bound other .boxNil f
          rw [Vector.refs_boxNil, Pi.zero_apply, add_zero,
            ← refs_eq_vector] at isMore
          have outside (address : Address) (isBeyond : bound ≤ address) :
              refs f address = 0 := by
            rw [refs_eq_vector]
            exact (beyond address isBeyond).2
          have isValue : RTValue.pointer other ≠ boxNull := by
            intro same
            cases same
          have input : ListInput domain f (singleHeap bound other more) bound
              [.pointer other]
              (.pointer other) := by
            refine ⟨?_, List.forall_mem_singleton.mpr valueIn, valueIn,
              singleHeap_backed below isMore outside⟩
            exact ⟨isValue, emptyList, .boxNil, singleHeap_found below, .boxNil,
              singleHeap_end below⟩
          obtain ⟨reduction, after, isResult, folded⟩ :=
            (folds _ _ _ _ input).reduce
          have excess :=
            (ensures_reduce_singleHeap implements below isMore outside
            valueIn).of_result reduction after isResult
          exact Int.not_le.mpr excess (folded.backed.le_excess other)

end Lists

/-- `(fn [acc value] value)` as the compiler translates it: the arguments are
consumed. -/
def invokeSecond (acc value : RTValue) : VectorSeq.Code RTValue := do
  VectorSeq.releaseValue acc
  pure value

theorem implements_invokeSecond :
    Implements Vector.refs (Vector.refs .boxNil) (fun _ => True) .consumes
      invokeSecond := by
  constructor
  intro heap acc value _ _ backed
  have accNonneg := Vector.refs_nonneg acc
  have restNonneg :=
    nonneg_add (Vector.refs_nonneg value) (Vector.refs_nonneg .boxNil)
  rw [add_assoc] at backed ⊢
  apply Runs.bind
  apply VectorSeq.runs_releaseValue (backed.left accNonneg restNonneg)
  intro after release
  refine Runs.pure ⟨trivial, (release.keep restNonneg).of_eq rfl ?_⟩
  rw [Convention.left, zero_add, zero_add]

/-- A function that puts its arguments into a new object.  It leaves them to its
caller, as the functions in the tests of the runtime do, and retains what it
keeps. -/
def invokePair (acc value : RTValue) : VectorSeq.Code RTValue := do
  VectorSeq.retainValue acc
  VectorSeq.retainValue value
  let pair ← allocate
    (.runtime (.other (Vector.addresses acc ++ Vector.addresses value)))
  pure (.pointer pair)

/-- A value is retained by somebody who has a reference to it. -/
theorem runs_retainValue_among
    {heap : VectorSeq.SeqHeap}
    {value : RTValue}
    {owned : Address → Int}
    (backed : Backed heap owned)
    (isOwned : ∀ address, Vector.refs value address ≤ owned address)
    {post : Unit → VectorSeq.SeqHeap → Prop}
    (holds : ∀ after, Trade heap after owned (owned + Vector.refs value) →
      post () after) :
    Runs (VectorSeq.retainValue value) heap post := by
  cases value with
  | immediate word =>
      apply Runs.pure
      apply holds
      rw [Vector.refs_immediate, add_zero]
      exact Trade.refl heap owned
  | pointer address =>
      rw [Vector.refs_pointer] at holds isOwned
      have isOne := isOwned address
      rw [own_self] at isOne
      exact Runs.retain_among backed isOne fun after _ => holds after

theorem implements_invokePair :
    Implements Vector.refs (Vector.refs .boxNil) (fun _ => True) .leaves
      invokePair := by
  constructor
  intro heap acc value _ _ backed
  have accNonneg := Vector.refs_nonneg acc
  have valueNonneg := Vector.refs_nonneg value
  rw [Vector.refs_boxNil, add_zero] at backed ⊢
  have argumentsNonneg := nonneg_add accNonneg valueNonneg
  apply Runs.bind
  apply runs_retainValue_among backed
  · intro address
    have := valueNonneg address
    rw [Pi.add_apply]
    omega
  intro first retainAcc
  have firstBacked :=
    retainAcc.given_backed backed (nonneg_add argumentsNonneg accNonneg)
  apply Runs.bind
  apply runs_retainValue_among firstBacked
  · intro address
    have := accNonneg address
    simp only [Pi.add_apply]
    omega
  intro second retainValue
  have secondNonneg := nonneg_add firstBacked.nonneg valueNonneg
  apply Runs.bind
  apply Runs.allocate_trade
  intro after _ _ allocated
  apply Runs.pure
  refine ⟨trivial, ?_⟩
  have parts : owns (Referencing.references (VectorSeq.Object.runtime
      (.other (Vector.addresses acc ++ Vector.addresses value)))) =
        Vector.refs acc + Vector.refs value := owns_append _ _
  rw [parts] at allocated
  have kept := allocated.keep argumentsNonneg
  have retained := retainAcc.trans retainValue firstBacked.nonneg
  apply (retained.of_eq rfl _).trans (kept.of_eq rfl _) _
  · abel
  · rw [Vector.refs_pointer, Convention.left, add_zero]
  · exact nonneg_add argumentsNonneg argumentsNonneg

/-- `(fn [acc value] value)` where the arguments are left to the caller. -/
def listInvokeSecond (_ value : RTValue) : PersistentList.Code RTValue := do
  PersistentList.retainValue value
  pure value

theorem implements_listInvokeSecond :
    Implements PersistentList.refs (PersistentList.refs .boxNil)
      (fun _ => True) .leaves
      listInvokeSecond := by
  constructor
  intro heap acc value _ _ backed
  have accNonneg := PersistentList.refs_nonneg acc
  have valueNonneg := PersistentList.refs_nonneg value
  rw [PersistentList.refs_boxNil, add_zero] at backed ⊢
  have given : PersistentList.refs value + (Convention.leaves.left
      (PersistentList.refs acc + PersistentList.refs value) + 0) =
        PersistentList.refs acc + PersistentList.refs value +
          PersistentList.refs value := by
    rw [Convention.left, add_zero, add_comm]
  apply Runs.bind
  cases value with
  | immediate word =>
      apply Runs.pure
      apply Runs.pure
      refine ⟨trivial, (Trade.refl heap _).of_eq rfl ?_⟩
      rw [given, PersistentList.refs_immediate, add_zero, add_zero]
  | pointer address =>
      rw [PersistentList.refs_pointer] at given backed ⊢
      have isOwned : 1 ≤ (PersistentList.refs acc + own address) address := by
        have := accNonneg address
        rw [Pi.add_apply, own_self]
        omega
      apply Runs.retain_among backed isOwned
      intro after _ trade
      apply Runs.pure
      refine ⟨trivial, trade.of_eq rfl ?_⟩
      rw [PersistentList.refs_pointer, given]

theorem listInvokeSecond_computes
    (before : PersistentList.ListHeap)
    (acc value next : RTValue)
    (called : PersistentList.ListHeap)
    (calls : PersistentList.invokeMethodWithFrame listInvokeSecond acc value
      before =
      some (next, called)) : next = (fun _ value => value) acc value := by
  obtain ⟨middle, isResult⟩ := result_of_callAndRelease calls
  have ensures : Ensures (listInvokeSecond acc value) before fun result _ =>
      result = value :=
    Ensures.bind ⟨fun _ _ _ => Ensures.pure rfl⟩
  exact ensures.of_result next middle isResult

/-- Code that gives nil. -/
theorem delivers_nil
    {Object : Type}
    [Referencing Object]
    {refs : RTValue → Nat → Int}
    (none : refs .boxNil = 0) :
    Delivers refs (refs .boxNil) (fun _ => True)
      (pure .boxNil : Program Object RTValue) := by
  constructor
  intro heap _
  refine Runs.pure ⟨trivial, (Trade.refl heap (refs .boxNil)).of_eq rfl ?_⟩
  rw [none, zero_add]

/-! ## A vector and a list -/

/-- A vector of two elements. -/
def pairHeap : VectorSeq.SeqHeap :=
  (Heap.empty.set 0
    (some ⟨1, .runtime
    (.node ⟨.leafNode, 0, [.immediate 5, .immediate 7]⟩)⟩)).set 1
    (some ⟨1, .runtime (.vector ⟨2, 0, 0, some 0, none, .boxNil⟩)⟩)

/-- The layout of a vector of two elements. -/
def pairLayout : Vector.Layout :=
  Vector.leafLayout 0 [.immediate 5, .immediate 7] (by decide)

theorem lays_pairHeap : Vector.Lays (VectorSeq.vectors pairHeap) 1
    ⟨2, 0, 0, some 0, none, .boxNil⟩ pairLayout where
  found := rfl
  fits := ⟨rfl, rfl, rfl, rfl⟩
  isTrie := by simp [pairLayout, Vector.leafLayout]
  isTail := ⟨0, rfl⟩

theorem excess_empty {Object : Type} [Referencing Object] (address : Address) :
    (Heap.empty : Heap Object).excess address = 0 := by
  simp [Heap.excess, Heap.count, Heap.empty, Heap.incoming, Cell.countOf]

theorem backed_pairHeap : Backed pairHeap (own 1) where
  nonneg := own_nonneg 1
  le_excess := by
    have ofNode : Referencing.references (VectorSeq.Object.runtime
        (.node ⟨.leafNode, 0, [.immediate 5, .immediate 7]⟩)) = [] := rfl
    have ofVector : Referencing.references (VectorSeq.Object.runtime
        (.vector ⟨2, 0, 0, some 0, none, .boxNil⟩)) = [0] := rfl
    intro address
    rw [pairHeap, Heap.excess_set, Heap.excess_set, excess_empty]
    by_cases isNode : address = 0
    · subst isNode
      decide
    · simp [own, isNode, Ne.symm isNode, Heap.count, Heap.referencesAt,
        Heap.set, Heap.empty, Cell.countOf, Cell.referencesOf, ofNode, ofVector]

/-- A cell with one element. -/
def oneCell : PersistentList.Cell :=
  ⟨.immediate 7, some 0, 1, .boxNil⟩

/-- A list of one value over the empty list. -/
def oneHeap : PersistentList.ListHeap :=
  (Heap.empty.set 0 (some ⟨2, .list PersistentList.emptyCell⟩)).set 1
    (some ⟨1, .list oneCell⟩)

theorem isList_oneHeap : PersistentList.IsList oneHeap 1 [.immediate 7] :=
  ⟨by decide, 0, .boxNil, rfl, .boxNil, rfl⟩

theorem backed_oneHeap : Backed oneHeap (own 1) where
  nonneg := own_nonneg 1
  le_excess := by
    have ofEmpty :
      Referencing.references
      (PersistentList.Object.list PersistentList.emptyCell) =
        [] := rfl
    have ofCell : Referencing.references (PersistentList.Object.list oneCell) =
      [0] := rfl
    intro address
    rw [oneHeap, Heap.excess_set, Heap.excess_set, excess_empty]
    by_cases isEmpty : address = 0
    · subst isEmpty
      decide
    · simp [own, isEmpty, Ne.symm isEmpty, Heap.count, Heap.referencesAt,
        Heap.set, Heap.empty, Cell.countOf, Cell.referencesOf, ofEmpty, ofCell]

/-- Vectors on a heap without seqs. -/
def VectorSeq.ofVectors (heap : Vector.VectorHeap) : VectorSeq.SeqHeap where
  cells address := (heap.cells address).map fun cell =>
    ⟨cell.count, .runtime cell.object⟩
  next := heap.next
  bounded address beyond := by rw [heap.bounded address beyond, Option.map_none]

theorem VectorSeq.vectors_ofVectors_object (heap : Vector.VectorHeap)
    (address : Address) :
    (VectorSeq.vectors (VectorSeq.ofVectors heap)).object? address =
    heap.object? address := by
  simp only [Heap.object?, VectorSeq.vectors, VectorSeq.ofVectors,
    Option.map_map]
  rfl

/-- A vector of 33 elements is kept while another one is made from it by `assoc`
in the trie, which shares the tail, and `conj`, which writes the tail. -/
def shareTail : List Vector.Operation :=
  [.createMany (List.replicate 33 (.immediate 5)), .retain 3,
    .assoc 3 0 (.immediate 6),
    .conj 6 (.immediate 7)]

/-- The parts of the vector that is kept. -/
def sharedTailLayout : Vector.Layout where
  height := 0
  root := some ⟨2, List.replicate 32 (.immediate 5), [2]⟩
  tail := ⟨4, [.immediate 5, .immediate 7], [4]⟩
  flat := fun _ => rfl
  tight := by simp
  tailNodes := rfl
  atMost := by decide
  nonempty := by simp
  nodup := by decide

theorem sharedTail_reached :
    ∃ state, Vector.Reaches (fun _ _ => True) state ∧ 3 ∈ state.held ∧
      VectorInput (fun _ => True) .boxNil (VectorSeq.ofVectors state.heap) 3
        ⟨33, 0, 0, some 4, some 2, .boxNil⟩ sharedTailLayout .boxNil := by
  have computed :
      ((⟨Vector.initialHeap, 0, 1⟩ : Vector.State).performAll shareTail).any
      (fun state => 3 ∈ state.held ∧
        state.heap.object? 3 =
          some (.vector ⟨33, 0, 0, some 4, some 2, .boxNil⟩) ∧
        state.heap.object? 2 =
          some (.node ⟨.leafNode, 0, List.replicate 32 (.immediate 5)⟩) ∧
        state.heap.object? 4 =
          some (.node ⟨.leafNode, 0, [.immediate 5, .immediate 7]⟩) ∧
        3 < state.heap.next ∧
        (∀ source < state.heap.next,
          ∀ target ∈ (VectorSeq.ofVectors state.heap).referencesAt
          source, target < state.heap.next) ∧
        ∀ address < state.heap.next, own 3 address ≤
          (VectorSeq.ofVectors state.heap).excess address) = true := by
    decide +kernel
  obtain ⟨state, isResult, facts⟩ := (Option.any_eq_true _ _).mp computed
  obtain ⟨held, isVector, isRoot, isTail, below, closed, inside⟩ :=
    of_decide_eq_true facts
  refine ⟨state, ?_, held, ?_⟩
  · apply Vector.Reaches.performAll (fun _ _ _ => trivial) (.of_initial rfl)
      isResult
  · refine ⟨⟨?_, ⟨rfl, rfl, rfl, rfl⟩, ?_, 0, ?_⟩, fun _ _ => trivial,
      trivial, ?_⟩
    · rw [VectorSeq.vectors_ofVectors_object, isVector]
    · intro trie isTrie
      obtain rfl : _ = trie := Option.mem_toList.mp isTrie |> Option.some.inj
      refine ⟨0, ?_, rfl, rfl⟩
      rw [VectorSeq.vectors_ofVectors_object, isRoot]
    · rw [VectorSeq.vectors_ofVectors_object]
      exact isTail
    · rw [Vector.refs_boxNil, add_zero, add_zero]
      apply backed_of_inside (own_nonneg 3) closed inside
      intro address beyond
      exact own_of_ne (Nat.ne_of_gt (Nat.lt_of_lt_of_le below beyond))

/-- A vector of two objects that somebody else holds, too. -/
def objectsHeap : VectorSeq.SeqHeap :=
  (((Heap.empty.set 0 (some ⟨1, .runtime (.other [])⟩)).set 1
    (some ⟨1, .runtime (.other [])⟩)).set 2
    (some ⟨1, .runtime (.node ⟨.leafNode, 0, [.pointer 0, .pointer 1]⟩)⟩)).set 3
    (some ⟨2, .runtime (.vector (VectorSeq.leafHeader 2 2))⟩)

/-- The layout of a vector of two objects. -/
def objectsLayout : Vector.Layout :=
  Vector.leafLayout 2 [.pointer 0, .pointer 1] (by decide)

theorem vectorInput_objectsHeap :
    VectorInput (fun _ => True) .boxNil objectsHeap 3 (VectorSeq.leafHeader 2 2)
      objectsLayout .boxNil := by
  refine ⟨⟨rfl, ⟨rfl, rfl, rfl, rfl⟩, ?_, 0, rfl⟩, fun _ _ => trivial,
    trivial, ?_⟩
  · intro trie isTrie
    cases isTrie
  · rw [Vector.refs_boxNil, add_zero, add_zero]
    apply backed_of_inside (own_nonneg 3)
    · decide +kernel
    · decide +kernel
    · intro address beyond
      exact own_of_ne
        (Nat.ne_of_gt (Nat.lt_of_lt_of_le (by decide : 3 < 4) beyond))

end Runtime
end ClojureRt
