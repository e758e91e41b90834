import ClojureRt.Runtime.Reductions
import ClojureRt.Runtime.VectorSeq.Reverse

/-!
# Operations on seqs and the other references

An operation takes one reference to a seq.  Whatever the other references reach,
it leaves alone, with two exceptions.  The reduction without an initial value
advances the iterator in the seq, whoever else holds the seq.  And where the
function of a reduction consumes its arguments, `RT_invokeMethodWithFrame`
releases them once more, so that an element that is a seq loses a reference of
somebody else.
-/

open ClojureRt.Runtime.Vector
  (PersistentVector Layout leafLayout Lays refs refs_boxNil refs_nonneg
    refs_pointer refs_immediate)

namespace ClojureRt
namespace Runtime
namespace VectorSeq

open RefCount RefCount.Program
open Sharing (Address RTValue)

/-- The elements that are left of a seq. -/
inductive Denotes (heap : SeqHeap) (address : Address) : List RTValue → Prop
  | chunked
      {it : PersistentVectorIterator}
      {vector : PersistentVector}
      {layout : Layout}
      {position : Nat}
      (seqAt : SeqAt heap address it vector layout position) :
      Denotes heap address (layout.elements.drop position)
  | reverse
      {v : Address}
      {vector : PersistentVector}
      {layout : Layout}
      {position : Nat}
      (reverseAt : ReverseAt heap address v vector layout position) :
      Denotes heap address (backwards layout position)

/-- The operations on a chunked seq. -/
inductive ChunkedOperation
  | first
  | next
  | chunkedFirst
  | chunkedNext
  | drop (n : BitVec 32)
  | count
  | toString
  | reduce (start : RTValue)
  | reduce2
  deriving DecidableEq

/-- The operations on a reverse seq. -/
inductive ReverseOperation
  | first
  | next
  | count
  | toString
  deriving DecidableEq

/-- The operations on seqs. -/
inductive Operation
  | chunked (operation : ChunkedOperation)
  | reverse (operation : ReverseOperation)
  deriving DecidableEq

section Operations

variable
  (text : RTValue → String)
  (impl : RTValue → RTValue → Code RTValue)
  (invokeDynamic : Code RTValue)
  (f : RTValue)

/-- Runs an operation, which gives references to its result. -/
def giving
    {Result : Type}
    (given : Result → Address → Int)
    (code : Code Result) : Code (Address → Int) := do
  let result ← code
  pure (given result)

/-- An operation on a chunked seq, with the references that it gives to its
caller. -/
def ChunkedOperation.run
    (operation : ChunkedOperation)
    (self : Address) : Code (Address → Int) :=
  match operation with
  | first => giving refs (ChunkedSeq.first self)
  | next => giving refs (ChunkedSeq.next self)
  | chunkedFirst => giving refs (ChunkedSeq.chunkedFirst self)
  | chunkedNext => giving refs (ChunkedSeq.chunkedNext self)
  | drop n => giving refs (ChunkedSeq.drop self n)
  | count => giving (fun _ => 0) (ChunkedSeq.count self)
  | toString => giving (fun _ => 0) (ChunkedSeq.toString text self)
  | reduce start => giving (fun reduction => refs reduction.1)
      (ChunkedSeq.reduce (invokeMethodWithFrame impl) self f start)
  | reduce2 => giving (fun reduction => refs reduction.1)
      (ChunkedSeq.reduce2 (invokeMethodWithFrame impl) invokeDynamic self f)

/-- An operation on a reverse seq, with the references that it gives to its
caller. -/
def ReverseOperation.run
    (operation : ReverseOperation)
    (self : Address) : Code (Address → Int) :=
  match operation with
  | first => giving refs (ReverseSeq.first self)
  | next => giving refs (ReverseSeq.next self)
  | count => giving (fun _ => 0) (ReverseSeq.count self)
  | toString => giving (fun _ => 0) (ReverseSeq.toString text self)

/-- An operation, with the references that it gives to its caller. -/
def Operation.run (operation : Operation) (self : Address) : Code
    (Address → Int) :=
  match operation with
  | chunked operation => operation.run text impl invokeDynamic f self
  | reverse operation => operation.run text self

/-- The references that an operation consumes: one to the seq, and its
arguments. -/
def Operation.taken (operation : Operation) (self : Address) : Address → Int :=
  match operation with
  | chunked (.reduce start) => own self + (refs start + refs f)
  | chunked .reduce2 => own self + refs f
  | _ => own self

end Operations

/-- The operations that call the function. -/
def ChunkedOperation.Calls (operation : ChunkedOperation) : Prop :=
  match operation with
  | reduce _ | reduce2 => True
  | _ => False

/-- The operation calls a function for the elements. -/
def Operation.Calls (operation : Operation) : Prop :=
  match operation with
  | chunked operation => operation.Calls
  | reverse _ => False

/-- The initial value, if there is one, is in the domain of the function. -/
def Operation.StartIn (domain : RTValue → Prop)
    (operation : Operation) : Prop :=
  match operation with
  | chunked (.reduce start) => domain start
  | _ => True

/-- The reference is to a seq that the operation is for. -/
def Operation.For
    (domain : RTValue → Prop)
    (operation : Operation)
    (heap : SeqHeap)
    (self : Address) : Prop :=
  match operation with
  | chunked operation => ∃ it vector layout position,
      SeqAt heap self it vector layout position ∧
        (operation.Calls → ∀ value ∈ layout.elements, domain value)
  | reverse _ =>
      ∃ v vector layout position, ReverseAt heap self v vector layout position

/-- A reference to a seq, and the other references that are held. -/
structure Input
    (domain : RTValue → Prop)
    (f : RTValue)
    (operation : Operation)
    (heap : SeqHeap)
    (address : Address)
    (rest : Address → Int) : Prop where
  isFor : operation.For domain heap address
  restNonneg : ∀ other, 0 ≤ rest other
  backed : Backed heap (operation.taken f address + rest)

/-- Every seq that the other references reach denotes what it denoted.  Its
count covers these references and the ones that the operation has given. -/
def OthersKeep
    (heap : SeqHeap)
    (rest given : Address → Int)
    (after : SeqHeap) : Prop :=
  ∀ other elements, Reached heap rest other → Denotes heap other elements →
    Denotes after other elements ∧ (given + rest) other ≤ after.excess other

section Persistence

variable
  {heap after : SeqHeap}
  {self : Address}
  {taken given rest : Address → Int}

theorem othersKeep_of_objects
    (same : ∀ address, Reached heap rest address →
      after.object? address = heap.object? address)
    (backed : Backed after (given + rest)) :
    OthersKeep heap rest given after := by
  intro other elements reached denotes
  refine ⟨?_, backed.le_excess other⟩
  cases denotes with
  | chunked seqAt => exact .chunked (seqAt.of_reached same reached)
  | reverse reverseAt => exact .reverse (reverseAt.of_reached same reached)

theorem othersKeep_of_trade
    (trade : Trade heap after taken given)
    (givenNonneg : ∀ address, 0 ≤ given address)
    (restNonneg : ∀ address, 0 ≤ rest address)
    (backed : Backed heap (taken + rest)) : OthersKeep heap rest given after :=
  othersKeep_of_objects (trade.frame rest restNonneg backed)
    (trade.backed backed givenNonneg restNonneg)

theorem runs_giving
    {Result : Type}
    {given : Result → Address → Int}
    {code : Code Result}
    {post : (Address → Int) → SeqHeap → Prop}
    (runs : Runs code heap fun result after => post (given result) after) :
    Runs (giving given code) heap post := by
  unfold giving
  apply Runs.bind
  exact runs.mono fun _ _ holds => Runs.pure holds

/-- Code that trades leaves the other references alone. -/
theorem runs_trading
    {Result : Type}
    {given : Result → Address → Int}
    {code : Code Result}
    {post : Result → SeqHeap → Prop}
    (givenNonneg : ∀ result address, 0 ≤ given result address)
    (restNonneg : ∀ address, 0 ≤ rest address)
    (backed : Backed heap (taken + rest))
    (runs : Runs code heap post)
    (trades : ∀ result after, post result after →
      Trade heap after taken (given result)) :
    Runs (giving given code) heap (OthersKeep heap rest) := by
  apply runs_giving
  apply runs.mono
  intro result after holds
  exact othersKeep_of_trade (trades result after holds) (givenNonneg result)
    restNonneg backed

theorem runs_trading_value
    {code : Code RTValue}
    {post : RTValue → SeqHeap → Prop}
    (restNonneg : ∀ address, 0 ≤ rest address)
    (backed : Backed heap (taken + rest))
    (runs : Runs code heap post)
    (trades : ∀ result after, post result after →
      Trade heap after taken (refs result)) :
    Runs (giving refs code) heap (OthersKeep heap rest) :=
  runs_trading refs_nonneg restNonneg backed runs trades

/-- What the function and the caller hand over is backed. -/
theorem own_backed
    {more : Address → Int}
    (backed : Backed heap (own self + more + rest))
    (nonneg : ∀ address, 0 ≤ more address)
    (restNonneg : ∀ address, 0 ≤ rest address) :
    Backed heap (own self + more) :=
  backed.left (nonneg_add (own_nonneg self) nonneg) restNonneg

end Persistence

section Iff

variable
  {text : RTValue → String}
  {domain : RTValue → Prop}
  {convention : Convention}
  {impl : RTValue → RTValue → Code RTValue}
  {invokeDynamic : Code RTValue}
  {f : RTValue}
  {heap : SeqHeap}
  {self : Address}
  {it : PersistentVectorIterator}
  {vector : PersistentVector}
  {layout : Layout}
  {position : Nat}
  {rest : Address → Int}

theorem ReverseOperation.runs_keeping
    (operation : ReverseOperation)
    {v : Address}
    (reverseAt : ReverseAt heap self v vector layout position)
    (restNonneg : ∀ address, 0 ≤ rest address)
    (backed : Backed heap (own self + rest)) :
    Runs (operation.run text self) heap (OthersKeep heap rest) := by
  have selfBacked := backed.left (own_nonneg self) restNonneg
  have isElement := List.getElem?_eq_getElem reverseAt.inside
  have zeroNonneg {Result : Type} (_ : Result) (_ : Address) : (0 : Int) ≤ 0 :=
    le_rfl
  cases operation with
  | first =>
      apply runs_trading_value restNonneg backed
        (reverseAt.runs_first selfBacked isElement)
      rintro _ after ⟨rfl, trade⟩
      exact trade
  | next =>
      apply runs_trading_value restNonneg backed
        (reverseAt.runs_next selfBacked)
      exact fun _ _ moved => moved.1
  | count =>
      apply runs_trading zeroNonneg restNonneg backed
        (reverseAt.runs_count selfBacked)
      exact fun _ _ holds => holds.2
  | toString =>
      apply runs_trading zeroNonneg restNonneg backed
        (reverseAt.runs_toString text selfBacked)
      exact fun _ _ holds => holds.2

/-- The operations that do not call the function. -/
theorem ChunkedOperation.runs_keeping
    (operation : ChunkedOperation)
    (noCalls : ¬ operation.Calls)
    (seqAt : SeqAt heap self it vector layout position)
    (restNonneg : ∀ address, 0 ≤ rest address)
    (backed : Backed heap ((Operation.chunked operation).taken f self + rest)) :
    Runs (operation.run text impl invokeDynamic f self) heap
      (OthersKeep heap rest) := by
  have isElement := List.getElem?_eq_getElem seqAt.isAt.inside
  have zeroNonneg {Result : Type} (_ : Result) (_ : Address) : (0 : Int) ≤ 0 :=
    le_rfl
  have selfBacked : Backed heap (own self) := by
    cases operation with
    | reduce start => exact absurd trivial noCalls
    | reduce2 => exact absurd trivial noCalls
    | _ => exact backed.left (own_nonneg self) restNonneg
  cases operation with
  | first =>
      apply runs_trading_value restNonneg backed
        (seqAt.runs_first selfBacked isElement)
      rintro _ after ⟨rfl, trade⟩
      exact trade
  | next =>
      apply runs_trading_value restNonneg backed (seqAt.runs_next selfBacked)
      exact fun _ _ moved => moved.1
  | chunkedFirst =>
      apply runs_trading_value restNonneg backed
        (seqAt.runs_chunkedFirst selfBacked)
      rintro _ after ⟨chunk, _, rfl, _, trade⟩
      rwa [refs_pointer]
  | chunkedNext =>
      apply runs_trading_value restNonneg backed
        (seqAt.runs_chunkedNext selfBacked)
      exact fun _ _ moved => moved.1
  | drop n =>
      rcases lt_or_ge 0 n.toInt with positive | nothing
      · apply runs_trading_value restNonneg backed
          (seqAt.runs_drop selfBacked positive)
        exact fun _ _ moved => moved.1
      · apply runs_trading_value restNonneg backed
          (seqAt.runs_drop_nothing nothing)
        exact fun _ _ moved => moved.1
  | count =>
      apply runs_trading zeroNonneg restNonneg backed
        (seqAt.runs_count selfBacked)
      exact fun _ _ holds => holds.2
  | toString =>
      apply runs_trading zeroNonneg restNonneg backed
        (seqAt.runs_toString text selfBacked)
      exact fun _ _ holds => holds.2
  | reduce start => exact absurd trivial noCalls
  | reduce2 => exact absurd trivial noCalls

/-- A reduction from an initial value, if the calls take what they are given. -/
theorem runs_reduce_keeping
    {start : RTValue}
    (implements : Implements refs (refs f) domain .consumes
      (invokeMethodWithFrame impl))
    (startIn : domain start)
    (elementsIn : ∀ value ∈ layout.elements, domain value)
    (seqAt : SeqAt heap self it vector layout position)
    (restNonneg : ∀ address, 0 ≤ rest address)
    (backed : Backed heap (own self + (refs start + refs f) + rest)) :
    Runs (giving (fun reduction => refs reduction.1)
      (ChunkedSeq.reduce (invokeMethodWithFrame impl) self f start)) heap
      (OthersKeep heap rest) := by
  have taken :=
    own_backed backed (result_nonneg (refs_nonneg f) start) restNonneg
  apply runs_trading (fun reduction => refs_nonneg reduction.1)
    restNonneg backed
    (ChunkedSeq.runs_reduce implements seqAt.found seqAt.isAt.lays startIn
      elementsIn taken)
  exact fun _ _ folded => folded.2

/-- What is owned after a change of the excess. -/
theorem backed_of_excess
    {after : SeqHeap}
    {taken given : Address → Int}
    (backed : Backed heap (taken + rest))
    (excess : ∀ address, after.excess address =
      heap.excess address + (given address - taken address))
    (givenNonneg : ∀ address, 0 ≤ given address)
    (restNonneg : ∀ address, 0 ≤ rest address) :
    Backed after (given + rest) where
  nonneg := nonneg_add givenNonneg restNonneg
  le_excess := by
    intro address
    have owned := backed.le_excess address
    rw [Pi.add_apply] at owned
    rw [excess, Pi.add_apply]
    omega

/-- The seq as `reduce2` leaves it. -/
theorem not_denotes_of_advanced
    {after : SeqHeap}
    {given last : Address → Int}
    (seqAt : SeqAt heap self it vector layout position)
    (restNonneg : ∀ address, 0 ≤ rest address)
    (backed : Backed heap (own self + refs f + rest))
    (givenNonneg : ∀ address, 0 ≤ given address)
    (reached : Reached heap rest self)
    (advanced : Advanced heap self it (own self + refs f) given last after) :
    ¬ Denotes after self (layout.elements.drop position) := by
  obtain ⟨moved, written, stored, sameParent, isIndex, others, excess, trade⟩ :=
    advanced.stored
  have lays := seqAt.isAt.lays
  have inside := seqAt.isAt.inside
  have writtenBacked := backed_of_excess backed excess givenNonneg restNonneg
  have references (address : Address) (object : Object)
      (found : heap.object? address = some object) :
      ∃ other, written.object? address = some other ∧
        Referencing.references other = Referencing.references object := by
    by_cases isSelf : address = self
    · subst isSelf
      obtain rfl := Option.some.inj (seqAt.found.symm.trans found)
      exact ⟨_, stored, congrArg (fun parent => [parent]) sameParent⟩
    · exact ⟨object, by rw [others address isSelf, found], rfl⟩
  have selfReached := reached.of_references references
  have isSeq : after.object? self = some (.chunkedSeq moved) := by
    rw [trade.frame rest restNonneg writtenBacked self selfReached, stored]
  have parentReached :=
    selfReached.referred stored (List.mem_singleton_self moved.parent)
  have isVector :
      (vectors after).object? moved.parent = some (.vector vector) := by
    have distinct : it.parent ≠ self := by
      intro same
      have isObject := object_of_vector.mp lays.found
      rw [same, seqAt.found] at isObject
      cases isObject
    rw [vectors_eq (trade.frame rest restNonneg writtenBacked _ parentReached),
      sameParent, vectors_eq (others _ distinct), lays.found]
  intro denotes
  generalize same : layout.elements.drop position = elements at denotes
  cases denotes with
  | @chunked now other newLayout target nowAt =>
      obtain ⟨rfl⟩ : moved = now := by
        have isNow := isSeq.symm.trans nowAt.found
        simpa using isNow
      obtain ⟨rfl⟩ : vector = other := by
        have isOther := isVector.symm.trans nowAt.isAt.lays.found
        simpa using isOther
      have count := lays.fits.count.symm.trans nowAt.isAt.lays.fits.count
      have isTarget := nowAt.isAt.index.symm.trans isIndex
      rw [seqAt.isAt.index] at isTarget
      have length := congrArg List.length same
      rw [List.length_drop, List.length_drop] at length
      omega
  | reverse reverseAt =>
      have isReverse := isSeq.symm.trans reverseAt.found
      cases isReverse

/-- Where the calls take what they are given, `reduce2` leaves the others alone
exactly if none of them has the seq. -/
theorem runs_reduce2_keeping_iff
    (implements : Implements refs (refs f) domain .consumes
      (invokeMethodWithFrame impl))
    (elementsIn : ∀ value ∈ layout.elements, domain value)
    (seqAt : SeqAt heap self it vector layout position)
    (restNonneg : ∀ address, 0 ≤ rest address)
    (backed : Backed heap (own self + refs f + rest)) :
    Runs (giving (fun reduction => refs reduction.1)
      (ChunkedSeq.reduce2 (invokeMethodWithFrame impl) invokeDynamic self f))
        heap
      fun given after => OthersKeep heap rest given after ↔
        ¬ Reached heap rest self := by
  have isIndex := seqAt.isAt.index
  have taken := own_backed backed (refs_nonneg f) restNonneg
  have isAt := seqAt.isAt
  rw [← isIndex] at isAt
  obtain ⟨value, isElement⟩ : ∃ value,
      layout.elements[it.index]? = some value :=
    ⟨_, List.getElem?_eq_getElem isAt.inside⟩
  apply runs_giving
  apply (ChunkedSeq.runs_reduce2_at implements invokeDynamic seqAt.found isAt
    isElement elementsIn taken).mono
  rintro reduction after ⟨_, advanced⟩
  have givenNonneg :=
    nonneg_add (own_nonneg self) (result_nonneg (refs_nonneg f) value)
  constructor
  · intro keep reached
    apply not_denotes_of_advanced seqAt restNonneg backed givenNonneg reached
      advanced
    exact (keep self _ reached (.chunked seqAt)).1
  · intro unreached
    obtain ⟨moved, written, stored, sameParent, _, others, excess, trade⟩ :=
      advanced.stored
    have writtenBacked := backed_of_excess backed excess givenNonneg restNonneg
    have same (address : Address) (reached : Reached heap rest address) :
        written.object? address = heap.object? address := by
      apply others
      intro isSelf
      exact unreached (isSelf ▸ reached)
    apply othersKeep_of_objects
    · intro address reached
      rw [trade.frame rest restNonneg writtenBacked address
        (reached.of_kept same),
        same address reached]
    · exact trade.backed writtenBacked (refs_nonneg reduction.1) restNonneg

/-- The exception is the reduction without an initial value of a seq that
another reference leads to, if the releases after the calls do no harm. -/
theorem runs_keeping_iff
    (implements : Implements refs (refs f) domain convention impl)
    (operation : Operation)
    (startIn : operation.StartIn domain)
    (harmless : operation.Calls → Harmless refs domain convention)
    (input : Input domain f operation heap self rest) :
    Runs (operation.run text impl invokeDynamic f self) heap fun given after =>
      OthersKeep heap rest given after ↔
        ¬ (operation = .chunked .reduce2 ∧ Reached heap rest self) := by
  obtain ⟨isFor, restNonneg, backed⟩ := input
  have keeping
      (runs : Runs (operation.run text impl invokeDynamic f self) heap
        (OthersKeep heap rest))
      (isOther : operation ≠ .chunked .reduce2) :
      Runs (operation.run text impl invokeDynamic f self) heap
        fun given after =>
        OthersKeep heap rest given after ↔
          ¬ (operation = .chunked .reduce2 ∧ Reached heap rest self) :=
    runs.mono fun _ _ keep => iff_of_true keep fun both => isOther both.1
  cases operation with
  | reverse operation =>
      obtain ⟨v, vector, layout, position, reverseAt⟩ := isFor
      exact keeping (operation.runs_keeping reverseAt restNonneg backed)
        (by simp)
  | chunked operation =>
      obtain ⟨it, vector, layout, position, seqAt, elementsIn⟩ := isFor
      by_cases calls : operation.Calls
      · have consumes := implements.consuming releases_releaseValue refs_nonneg
          (refs_nonneg f) (harmless calls)
        cases operation with
        | reduce start =>
            apply keeping _ (by simp)
            exact runs_reduce_keeping consumes startIn (elementsIn calls) seqAt
              restNonneg backed
        | reduce2 =>
            apply (runs_reduce2_keeping_iff consumes (elementsIn calls) seqAt
              restNonneg backed).mono
            intro _ _ keep
            rw [keep, and_iff_right rfl]
        | _ => exact calls.elim
      · apply keeping (operation.runs_keeping calls seqAt restNonneg backed)
        rintro isReduce
        cases isReduce
        exact calls trivial

/-- A seq over copies of another seq, which somebody else holds. -/
theorem input_copiesHeap
    {operation : ChunkedOperation}
    {bound other : Address}
    {copies more : Nat}
    (below : other < bound)
    (nonempty : 0 < copies)
    (atMost : copies ≤ 32)
    (otherIn : domain (.pointer other))
    (backed : Backed (copiesHeap bound other copies more)
      ((Operation.chunked operation).taken f (bound + 2) + own other)) :
    Input domain f (.chunked operation) (copiesHeap bound other copies more)
      (bound + 2) (own other) where
  isFor := by
    refine ⟨_, _, _, 0,
      ⟨copiesHeap_seq below, copiesHeap_at below nonempty atMost⟩, ?_⟩
    intro _ value isElement
    obtain rfl := List.eq_of_mem_replicate isElement
    exact otherIn
  restNonneg := own_nonneg other
  backed := backed

/-- After a release too many the count of the other seq does not cover what is
left. -/
theorem not_othersKeep_copiesHeap
    {bound other : Address}
    {copies more : Nat}
    {given : Address → Int}
    {after : SeqHeap}
    (below : other < bound)
    (excess : after.excess other ≤ given other) :
    ¬ OthersKeep (copiesHeap bound other copies more) (own other) given
      after := by
  intro keep
  have covered := (keep other _ (Reached.of_own other)
    (.chunked ⟨copiesHeap_other, copiesHeap_other_at below⟩)).2
  rw [Pi.add_apply, own_self] at covered
  omega

theorem ensures_reduce_harms
    {start : RTValue}
    {bound other : Address}
    {more : Nat}
    (implements : Implements refs (refs f) domain .consumes impl)
    (below : other < bound)
    (isMore : (more : Int) = 1 + refs start other + refs f other)
    (beyond : ∀ address, bound ≤ address → refs start address = 0 ∧
      refs f address = 0)
    (otherIn : domain (.pointer other))
    (startIn : domain start) :
    Ensures (giving (fun reduction => refs reduction.1)
      (ChunkedSeq.reduce (invokeMethodWithFrame impl) (bound + 2) f start))
      (copiesHeap bound other 1 more) fun given after =>
        ¬ OthersKeep (copiesHeap bound other 1 more) (own other) given
          after := by
  apply Ensures.bind
  apply (ensures_reduce_copy implements below isMore beyond otherIn
    startIn).mono
  intro reduction after excess
  apply Ensures.pure
  apply not_othersKeep_copiesHeap below
  rw [excess]
  exact Int.sub_le_self _ (refs_nonneg start other)

theorem ensures_reduce2_harms
    {bound other : Address}
    {more : Nat}
    (implements : Implements refs (refs f) domain .consumes impl)
    (below : other < bound)
    (isMore : (more : Int) = 1 + refs .boxNil other + refs f other)
    (beyond : ∀ address, bound ≤ address → refs .boxNil address = 0 ∧
      refs f address = 0)
    (otherIn : domain (.pointer other)) :
    Ensures (giving (fun reduction => refs reduction.1)
      (ChunkedSeq.reduce2 (invokeMethodWithFrame impl) invokeDynamic
        (bound + 2) f))
      (copiesHeap bound other 2 more) fun given after =>
        ¬ OthersKeep (copiesHeap bound other 2 more) (own other) given
          after := by
  apply Ensures.bind
  apply (ensures_reduce2_copies implements invokeDynamic below isMore beyond
    otherIn).mono
  intro reduction after excess
  apply Ensures.pure
  apply not_othersKeep_copiesHeap below
  rw [excess]
  exact Int.sub_le_self _ Int.one_nonneg

/-- Where the releases do harm, the reduction of a seq of seqs shows it. -/
theorem harmless_of_keeping
    (implements : Implements refs (refs f) domain convention impl)
    (operation : Operation)
    (startIn : operation.StartIn domain)
    (calls : operation.Calls)
    (keeps : ∀ heap self rest, Input domain f operation heap self rest →
      Runs (operation.run text impl invokeDynamic f self) heap
        fun given after =>
        OthersKeep heap rest given after ↔
          ¬ (operation = .chunked .reduce2 ∧ Reached heap rest self)) :
    Harmless refs domain convention := by
  cases convention with
  | leaves => exact .inl rfl
  | consumes =>
      refine .inr fun value valueIn => ?_
      cases value with
      | immediate word => exact refs_immediate word
      | pointer other =>
          exfalso
          rcases operation with (operation | operation)
          · cases operation with
            | reduce start =>
                obtain ⟨bound, more, below, isMore, beyond⟩ :=
                  exists_bound other start f
                obtain ⟨given, after, isResult, keep⟩ := keeps _ _ _
                  (input_copiesHeap below (by decide) (by decide) valueIn
                    (copiesHeap_seq_backed 1 below isMore beyond))
                apply (ensures_reduce_harms implements below isMore
                  beyond valueIn startIn).of_result given after isResult
                exact keep.mpr (by simp)
            | reduce2 =>
                obtain ⟨bound, more, below, isMore, beyond⟩ :=
                  exists_bound other .boxNil f
                have backed := copiesHeap_seq_backed 2 below isMore beyond
                rw [refs_boxNil, zero_add] at backed
                obtain ⟨given, after, isResult, keep⟩ := keeps _ _ _
                  (input_copiesHeap below (by decide) (by decide)
                    valueIn backed)
                apply (ensures_reduce2_harms implements below isMore beyond
                  valueIn).of_result given after isResult
                exact keep.mpr fun both => copiesHeap_unreached below both.2
            | _ => exact calls
          · exact calls

end Iff

/-! ## Seqs that several references lead to -/

/-- A seq over a vector of two elements, with two references. -/
def sharedHeap : SeqHeap :=
  pairHeap.set 2 (some ⟨2, .chunkedSeq ⟨0, 0, some 0, 1⟩⟩)

theorem seqAt_sharedHeap : SeqAt sharedHeap 2 ⟨0, 0, some 0, 1⟩
    (leafHeader 0 2) (leafLayout 0 [.immediate 5, .immediate 7] (by decide)) 0
    where
  found := rfl
  isAt := by
    apply at_of_leaf
    · rfl
    · rfl
    · rfl
    · decide

theorem own_of_beyond
    {address bound other : Address}
    (below : address < bound)
    (beyond : bound ≤ other) : own address other = 0 :=
  own_of_ne (Nat.ne_of_gt (Nat.lt_of_lt_of_le below beyond))

theorem input_sharedHeap
    {operation : ChunkedOperation}
    (isTaken : (Operation.chunked operation).taken .boxNil 2 = own 2) :
    Input (fun _ => True) .boxNil (.chunked operation) sharedHeap 2
      (own 2) where
  isFor := ⟨_, _, _, _, seqAt_sharedHeap, fun _ _ _ => trivial⟩
  restNonneg := own_nonneg 2
  backed := by
    rw [isTaken]
    apply backed_of_inside (nonneg_add (own_nonneg 2) (own_nonneg 2))
    · decide +kernel
    · decide +kernel
    · intro address beyond
      rw [Pi.add_apply, own_of_beyond (by decide : 2 < 3) beyond, add_zero]

/-- A seq over a vector that has the seq at 2 as its first element.  There are
two more references to the seq at 2. -/
def seqsHeap : SeqHeap :=
  (((((Heap.empty.set 0
    (some ⟨1, .runtime
      (.node ⟨.leafNode, 0, [.immediate 5, .immediate 7]⟩)⟩)).set 1
    (some ⟨1, .runtime (.vector (leafHeader 0 2))⟩)).set 2
    (some ⟨3, .chunkedSeq ⟨0, 0, some 0, 1⟩⟩)).set 3
    (some ⟨1, .runtime (.node ⟨.leafNode, 0, [.pointer 2, .immediate 9]⟩)⟩)).set
      4
    (some ⟨1, .runtime (.vector (leafHeader 3 2))⟩)).set 5
    (some ⟨1, .chunkedSeq ⟨0, 0, some 3, 4⟩⟩)

theorem seqAt_seqsHeap : SeqAt seqsHeap 2 ⟨0, 0, some 0, 1⟩
    (leafHeader 0 2) (leafLayout 0 [.immediate 5, .immediate 7] (by decide)) 0
    where
  found := rfl
  isAt := by
    apply at_of_leaf
    · rfl
    · rfl
    · rfl
    · decide

/-- The seq over the vector with the seq at 2. -/
theorem seqAt_seqsHeap_self : SeqAt seqsHeap 5 ⟨0, 0, some 3, 4⟩
    (leafHeader 3 2)
    (leafLayout 3 [.pointer 2, .immediate 9] (by decide)) 0 where
  found := rfl
  isAt := by
    apply at_of_leaf
    · rfl
    · rfl
    · rfl
    · decide

theorem Denotes.object_isSome
    {heap : SeqHeap}
    {address : Address}
    {elements : List RTValue}
    (denotes : Denotes heap address elements) :
    (heap.object? address).isSome := by
  cases denotes with
  | chunked seqAt => rw [seqAt.found, Option.isSome_some]
  | reverse reverseAt => rw [reverseAt.found, Option.isSome_some]

theorem input_seqsHeap :
    Input (fun _ => True) .boxNil (.chunked (.reduce .boxNil)) seqsHeap 5
      (own 2 + own 2) where
  isFor := ⟨_, _, _, _, seqAt_seqsHeap_self, fun _ _ _ => trivial⟩
  restNonneg := nonneg_add (own_nonneg 2) (own_nonneg 2)
  backed := by
    rw [Operation.taken, refs_boxNil, add_zero, add_zero]
    apply backed_of_inside
      (nonneg_add (own_nonneg 5) (nonneg_add (own_nonneg 2) (own_nonneg 2)))
    · decide +kernel
    · decide +kernel
    · intro address beyond
      rw [Pi.add_apply, Pi.add_apply, own_of_beyond (by decide : 5 < 6) beyond,
        own_of_beyond (by decide : 2 < 6) beyond, add_zero, add_zero]

end VectorSeq
end Runtime
end ClojureRt
