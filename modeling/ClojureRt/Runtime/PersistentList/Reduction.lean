import ClojureRt.Lib.Calls
import ClojureRt.Runtime.PersistentList.Reversal

/-!
# Reduction of lists

`PersistentList_reduce` goes along the cells.  It takes a cell apart that it has
the only reference to, and otherwise retains the value and the link.  The calls
of the reducing function are a parameter; a reduction delivers the result and
what was passed, in order. What the runtime passes here is
`invokeMethodWithFrame` of the method's implementation.
-/

namespace ClojureRt
namespace Runtime
namespace PersistentList

open RefCount RefCount.Program LinkedList
open Sharing (Address RTValue)

/-- The result of a reduction, and the elements passed to the function. -/
abbrev Reduction := RTValue × List RTValue

/-- `RT_invokeMethodWithFrame` with two arguments.  The implementation of the
method is given as a function of the arguments that the frame is filled with. -/
def invokeMethodWithFrame (impl : RTValue → RTValue → Code RTValue) :
    RTValue → RTValue → Code RTValue :=
  callAndRelease releaseValue impl

section Defs

variable (invoke : RTValue → RTValue → Code RTValue)

/-- The loop of `PersistentList_reduce`. -/
def reduceCells : Nat → (current : Option Address) → (acc : RTValue) →
    Code Reduction
  | _, none, acc => pure (acc, [])
  | 0, some _, _ => undefined
  | fuel + 1, some current, acc => do
      let cell ← loadList current
      if cell.first = boxNull then do
        release current
        pure (acc, [])
      else do
        let reusable ← isReusable current
        if reusable then do
          store current (.list { cell with first := boxNull, rest := none })
          release current
          let acc ← invoke acc cell.first
          let rest ← reduceCells fuel cell.rest acc
          pure (rest.1, cell.first :: rest.2)
        else do
          retainValue cell.first
          retainPointer cell.rest
          let acc ← invoke acc cell.first
          release current
          let rest ← reduceCells fuel cell.rest acc
          pure (rest.1, cell.first :: rest.2)

/-- `PersistentList_reduce` -/
def reduce (self : Address) (f start : RTValue) : Code Reduction := do
  let reduction ← alongChain fun fuel =>
    reduceCells invoke fuel (some self) start
  releaseValue f
  pure reduction

/-- The first value and the rest, taken out of a cell. -/
def takeCell (self : Address) (cell : Cell) : Code Unit := do
  let reusable ← isReusable self
  if reusable then do
    store self (.list { cell with first := boxNull, rest := none })
    release self
  else do
    retainValue cell.first
    retainPointer cell.rest
    release self

/-- `PersistentList_reduce2`; the call without arguments is a parameter, too. -/
def reduce2 (invokeDynamic : Code RTValue) (self : Address)
    (f : RTValue) : Code Reduction := do
  let cell ← loadList self
  if cell.first = boxNull then do
    release self
    let result ← invokeDynamic
    pure (result, [])
  else do
    takeCell self cell
    match cell.rest with
    | none => do
        releaseValue f
        pure (cell.first, [])
    | some rest => reduce invoke rest f cell.first

end Defs

/-! ## Trades of values -/

section Rules

variable {heap after : ListHeap}

theorem runs_retainValue_trade
    (nonneg : ∀ other, 0 ≤ heap.excess other)
    {value : RTValue}
    (refers : ∀ address ∈ addresses value, ∃ source, heap.Refers source address)
    {post : Unit → ListHeap → Prop}
    (holds : ∀ after, after.object? = heap.object? →
      Trade heap after 0 (refs value) →
      post () after) :
    Runs (retainValue value) heap post := by
  cases value with
  | immediate word =>
      apply Runs.pure
      apply holds heap rfl
      rw [refs_immediate]
      exact Trade.refl heap 0
  | pointer address =>
      rw [refs_pointer] at holds
      obtain ⟨source, isReferred⟩ := refers address List.mem_cons_self
      exact Runs.retain_trade nonneg isReferred holds

theorem runs_releaseValue_trade
    {value : RTValue}
    (backed : Backed heap (refs value))
    {post : Unit → ListHeap → Prop}
    (holds : ∀ after, Trade heap after (refs value) 0 → post () after) :
    Runs (releaseValue value) heap post := by
  cases value with
  | immediate word =>
      apply Runs.pure
      apply holds heap
      rw [refs_immediate]
      exact Trade.refl heap 0
  | pointer address =>
      rw [refs_pointer] at backed holds
      exact Runs.release_trade backed fun after _ trade => holds after trade

/-- A list that others hold. -/
theorem IsList.traded
    {address : Address}
    {values : List RTValue}
    {taken given rest : Address → Int}
    (isList : IsList heap address values)
    (trade : Trade heap after taken given)
    (nonneg : ∀ other, 0 ≤ rest other)
    (backed : Backed heap (taken + rest))
    (reached : Reached heap rest address) : IsList after address values := by
  induction values generalizing address with
  | nil =>
      obtain ⟨metadata, found⟩ := isList
      exact ⟨metadata,
        by rw [trade.frame rest nonneg backed address reached, found]⟩
  | cons value values inductionHypothesis =>
      obtain ⟨isValue, next, metadata, found, nextList⟩ := isList
      have nextReached := reached.referred found
        (List.mem_append_left _
          (List.mem_append_left _ (List.mem_singleton_self next)))
      refine ⟨isValue, next, metadata, ?_,
        inductionHypothesis nextList nextReached⟩
      rw [trade.frame rest nonneg backed address reached, found]

/-- A write to an object that nothing on the heap refers to. -/
theorem IsList.of_unreferenced
    {address written : Address}
    {values : List RTValue}
    (isList : IsList heap address values)
    (others : ∀ other,
      other ≠ written → after.object? other = heap.object? other)
    (unreferenced : ∀ source object, heap.object? source = some object →
      written ∉ Referencing.references object)
    (distinct : address ≠ written) : IsList after address values := by
  induction values generalizing address with
  | nil =>
      obtain ⟨metadata, found⟩ := isList
      exact ⟨metadata, by rw [others address distinct, found]⟩
  | cons value values inductionHypothesis =>
      obtain ⟨isValue, next, metadata, found, nextList⟩ := isList
      refine ⟨isValue, next, metadata,
        by rw [others address distinct, found], ?_⟩
      apply inductionHypothesis nextList
      rintro rfl
      apply unreferenced address _ found
      exact List.mem_append_left _
        (List.mem_append_left _ (List.mem_singleton_self next))

/-- The way from a list to the end. -/
theorem IsList.segment
    {address : Address}
    {values : List RTValue}
    (isList : IsList heap address values) :
    ∃ path, path.length = values.length + 1 ∧
      Segment (link heap) (some address) path none := by
  induction values generalizing address with
  | nil =>
      obtain ⟨metadata, found⟩ := isList
      exact ⟨[address], rfl, rfl, none, link_of_found found, rfl⟩
  | cons value values inductionHypothesis =>
      obtain ⟨_, next, metadata, found, nextList⟩ := isList
      obtain ⟨path, isLength, segment⟩ := inductionHypothesis nextList
      exact ⟨address :: path,
        by simp [isLength], rfl, some next, link_of_found found, segment⟩

/-- The value and the rest of a cell are owned besides the cell. -/
structure Opened
    (heap opened : ListHeap)
    (current next : Address)
    (value : RTValue)
    (values : List RTValue) : Prop where
  trade : Trade heap opened (own current)
    (own current + (refs value + own next))
  rest : IsList opened next values

section Opening

variable
  {current next : Address}
  {value : RTValue}
  {values : List RTValue}
  {count : BitVec 32}
  {metadata : RTValue}

theorem parts_nonneg (value : RTValue) (next other : Address) :
    0 ≤ (refs value + own next) other :=
  Int.add_nonneg (refs_nonneg value other) (own_nonneg next other)

theorem next_mem_references :
    next ∈ Referencing.references
      (Object.list ⟨value, some next, count, metadata⟩) :=
  List.mem_append_left _ (List.mem_append_left _ (List.mem_singleton_self next))

/-- A cell with one reference is emptied. -/
theorem runs_storeEmptied
    (found : heap.object? current =
      some (.list ⟨value, some next, count, metadata⟩))
    (nextList : IsList heap next values)
    (isOne : heap.count current = 1)
    (backed : Backed heap (own current))
    {post : Unit → ListHeap → Prop}
    (holds : ∀ opened, Opened heap opened current next value values →
      post () opened) :
    Runs (store current (.list ⟨boxNull, none, count, metadata⟩)) heap
      post := by
  have owned := backed.le_excess current
  rw [own_self] at owned
  have unreferenced {source : Address} {object : Object}
      (isObject : heap.object? source = some object) :
      current ∉ Referencing.references object :=
    unreferenced_of_count_one isOne owned isObject
  apply Runs.store_trade found isOne
  intro opened _ others _ trade
  apply holds opened
  constructor
  · apply (trade 0 fun _ => le_rfl).of_eq (add_zero _)
    simp only [owns_references_list, owns_some, owns_none, refs_boxNull]
    abel
  · apply nextList.of_unreferenced others fun _ _ => unreferenced
    rintro rfl
    exact unreferenced found next_mem_references

/-- The value and the rest of a cell are retained. -/
theorem runs_retainParts
    {Result : Type}
    (found : heap.object? current =
      some (.list ⟨value, some next, count, metadata⟩))
    (nextList : IsList heap next values)
    (backed : Backed heap (own current))
    {continuation : Code Result}
    {post : Result → ListHeap → Prop}
    (runs : ∀ opened, Opened heap opened current next value values →
      Runs continuation opened post) :
    Runs (do retainValue value; retainPointer (some next); continuation) heap
      post := by
  apply Runs.bind
  apply runs_retainValue_trade backed.excess_nonneg
  · intro address isIn
    exact ⟨current, _, found,
      List.mem_append_left _ (List.mem_append_right _ isIn)⟩
  intro first sameFirst retainedValue
  have firstBacked := retainedValue.backed (backed.of_eq (zero_add _).symm)
    (refs_nonneg value) (own_nonneg current)
  apply Runs.bind
  apply Runs.retain_trade firstBacked.excess_nonneg
    ⟨_, by rw [sameFirst, found], next_mem_references⟩
  intro opened sameOpened retainedNext
  apply runs opened
  constructor
  · have parts := retainedValue.trans
      ((retainedNext.keep (refs_nonneg value)).of_eq (zero_add _) rfl)
      (refs_nonneg value)
    apply (parts.keep (own_nonneg current)).of_eq (zero_add _)
    abel
  · exact (nextList.of_objects sameFirst).of_objects sameOpened

end Opening

end Rules

/-! ## The fold -/

section Fold

variable
  {invoke : RTValue → RTValue → Code RTValue}
  {domain : RTValue → Prop}

theorem runs_reduceCells
    {held : Address → Int}
    (implements : Implements refs held domain .consumes invoke)
    (heldNonneg : ∀ address, 0 ≤ held address)
    {heap : ListHeap}
    {current : Address}
    {acc : RTValue}
    {values : List RTValue}
    {fuel : Nat}
    (isList : IsList heap current values)
    (accIn : domain acc)
    (valuesIn : ∀ value ∈ values, domain value)
    (backed : Backed heap (own current + (refs acc + held)))
    (enough : values.length < fuel) :
    Runs (reduceCells invoke fuel (some current) acc) heap
      (Folds refs held domain invoke heap (own current) acc values 0) := by
  have resultNonneg (value : RTValue) : ∀ address,
      0 ≤ (refs value + held) address :=
    nonneg_add (refs_nonneg value) heldNonneg
  have currentBacked := backed.left (own_nonneg current) (resultNonneg acc)
  induction values generalizing heap current acc fuel with
  | nil =>
      obtain ⟨fuel, rfl⟩ := Nat.exists_eq_succ_of_ne_zero (Nat.ne_of_gt enough)
      obtain ⟨metadata, found⟩ := isList
      rw [reduceCells]
      apply Runs.bind
      apply runs_loadList found
      rw [if_pos rfl]
      apply Runs.bind
      apply Runs.release_trade currentBacked
      intro after _ release
      apply Runs.pure
      exact Folds.nil resultNonneg accIn release backed
  | cons value values inductionHypothesis =>
      obtain ⟨fuel, rfl⟩ :=
        Nat.exists_eq_succ_of_ne_zero (Nat.ne_of_gt (Nat.zero_lt_of_lt enough))
      obtain ⟨isValue, next, metadata, found, nextList⟩ := isList
      rw [List.forall_mem_cons] at valuesIn
      have selfNonneg := own_nonneg current
      have nextNonneg := own_nonneg next
      have valueNonneg := refs_nonneg value
      have argumentsNonneg : ∀ address,
          0 ≤ (refs acc + refs value + held) address :=
        nonneg_add (nonneg_add (refs_nonneg acc) valueNonneg) heldNonneg
      -- after the call the rest is reduced
      have continues {called : ListHeap} {result : RTValue}
          (resultIn : domain result)
          (restList : IsList called next values)
          (calledBacked : Backed called (own next + (refs result + held))) :
          Runs (reduceCells invoke fuel (some next) result) called
            (Folds refs held domain invoke called (own next) result values 0) :=
        inductionHypothesis restList resultIn valuesIn.2 calledBacked
          (Nat.lt_of_succ_lt_succ enough)
          (calledBacked.left nextNonneg (resultNonneg result))
      rw [reduceCells]
      apply Runs.bind
      apply runs_loadList found
      rw [if_neg isValue]
      apply Runs.bind
      apply Runs.isReusable found
      split
      · next isOne =>
          apply Runs.bind
          apply runs_storeEmptied found nextList (beq_iff_eq.mp isOne)
            currentBacked
          intro opened isOpened
          have openedBacked := isOpened.trade.backed backed
            (nonneg_add selfNonneg (parts_nonneg value next)) (resultNonneg acc)
          have openedOwn := openedBacked.left
            (nonneg_add selfNonneg (parts_nonneg value next)) (resultNonneg acc)
          apply Runs.bind
          apply Runs.release_trade
            (openedOwn.left selfNonneg (parts_nonneg value next))
          intro released _ release
          have handed :
              Trade heap released (own current) (own next + refs value) := by
            apply isOpened.trade.trans _ openedOwn.nonneg
            apply (release.keep (parts_nonneg value next)).of_eq rfl
            abel
          have releasedList := isOpened.rest.traded (release.keep valueNonneg)
            nextNonneg
            (openedOwn.of_eq (add_assoc _ _ _).symm) (Reached.of_own next)
          have releasedBacked :
              Backed released (refs acc + refs value + held + own next) := by
            apply (handed.backed backed (nonneg_add nextNonneg valueNonneg)
              (resultNonneg acc)).of_eq
            abel
          apply Runs.bind
          apply implements.runs_call accIn valuesIn.1
            (releasedBacked.left argumentsNonneg nextNonneg)
          intro result called calls resultIn call
          have calledBacked :=
            call.backed releasedBacked (resultNonneg result) nextNonneg
          apply Runs.bind
          apply (continues resultIn
            (releasedList.traded call nextNonneg releasedBacked
            (Reached.of_own next)) (calledBacked.of_eq (add_comm _ _))).mono
          intro reduction after folds
          exact Runs.pure
            (Folds.cons resultNonneg handed backed valueNonneg nextNonneg
            calls call
            folds)
      · apply runs_retainParts found nextList currentBacked
        intro opened isOpened
        have handed := isOpened.trade.of_eq rfl
          (show own current + (refs value + own next) = own current + own next +
            refs value by abel)
        have bothNonneg := nonneg_add selfNonneg nextNonneg
        have openedBacked : Backed opened
            (refs acc + refs value + held + (own current + own next)) := by
          apply (handed.backed backed (nonneg_add bothNonneg valueNonneg)
            (resultNonneg acc)).of_eq
          abel
        apply Runs.bind
        apply implements.runs_call accIn valuesIn.1
          (openedBacked.left argumentsNonneg bothNonneg)
        intro result called calls resultIn call
        have calledBacked :=
          (call.backed openedBacked (resultNonneg result) bothNonneg).of_eq
          (add_comm _ _)
        have calledList : IsList called next values := by
          apply isOpened.rest.traded (call.keep selfNonneg) nextNonneg _
            (Reached.of_own next)
          exact openedBacked.of_eq (add_assoc _ _ _).symm
        have calledOwn := calledBacked.left bothNonneg (resultNonneg result)
        apply Runs.bind
        apply Runs.release_trade (calledOwn.left selfNonneg nextNonneg)
        intro released _ release
        have leaving := (release.keep nextNonneg).of_eq rfl (zero_add _)
        apply Runs.bind
        apply (continues resultIn
          (calledList.traded release nextNonneg calledOwn
          (Reached.of_own next))
            (leaving.backed calledBacked nextNonneg (resultNonneg _))).mono
        intro reduction after folds
        exact Runs.pure
          (Folds.cons resultNonneg handed backed valueNonneg bothNonneg
          calls call
          (Folds.precede resultNonneg leaving calledBacked nextNonneg folds))

/-- `reduce` is the left fold over the values of the list. -/
theorem runs_reduce
    {f : RTValue}
    (implements : Implements refs (refs f) domain .consumes invoke)
    {heap : ListHeap}
    {self : Address}
    {start : RTValue}
    {values : List RTValue}
    (isList : IsList heap self values)
    (startIn : domain start)
    (valuesIn : ∀ value ∈ values, domain value)
    (backed : Backed heap (own self + (refs start + refs f))) :
    Runs (reduce invoke self f start) heap fun reduction after =>
      Folded refs (refs f) invoke heap start values reduction after ∧
        Trade heap after (own self + (refs start + refs f))
          (refs reduction.1) := by
  obtain ⟨path, isLength, segment⟩ := isList.segment
  have atMost := length_le_next segment
  unfold reduce
  apply Runs.bind
  apply runs_alongChain
  apply (runs_reduceCells implements (refs_nonneg f) isList startIn
    valuesIn backed (by omega)).mono
  intro reduction folded folds
  have foldedBacked := folds.trade.given_backed backed
    (nonneg_add (fun _ => le_rfl)
      (nonneg_add (refs_nonneg reduction.1) (refs_nonneg f)))
  rw [zero_add] at foldedBacked
  apply Runs.bind
  apply runs_releaseValue_trade
    (foldedBacked.right (refs_nonneg _) (refs_nonneg f))
  intro after release
  exact Runs.pure (folds.finish backed refs_nonneg (refs_nonneg f) release)

theorem runs_takeCell
    {heap : ListHeap}
    {self next : Address}
    {value : RTValue}
    {values : List RTValue}
    {count : BitVec 32}
    {metadata : RTValue}
    (found : heap.object? self =
      some (.list ⟨value, some next, count, metadata⟩))
    (nextList : IsList heap next values)
    (backed : Backed heap (own self))
    {post : Unit → ListHeap → Prop}
    (holds : ∀ after, Trade heap after (own self) (refs value + own next) →
      IsList after next values → post () after) :
    Runs (takeCell self ⟨value, some next, count, metadata⟩) heap post := by
  have released {opened : ListHeap}
      (isOpened : Opened heap opened self next value values) :
      Runs (release self) opened post := by
    have openedBacked := isOpened.trade.given_backed backed
      fun other =>
        Int.add_nonneg (own_nonneg self other) (parts_nonneg value next other)
    apply Runs.release_trade
      (openedBacked.left (own_nonneg self) (parts_nonneg value next))
    intro after _ release
    have besides := (release.keep (parts_nonneg value next)).of_eq
      rfl (zero_add _)
    apply holds after (isOpened.trade.trans besides openedBacked.nonneg)
    rw [← add_assoc] at openedBacked
    have cellNonneg (other : Address) : 0 ≤ (own self + refs value) other :=
      Int.add_nonneg (own_nonneg self other) (refs_nonneg value other)
    have others := (release.keep (refs_nonneg value)).of_eq rfl (zero_add _)
    exact isOpened.rest.traded others (own_nonneg next) openedBacked
      (Reached.of_own next)
  unfold takeCell
  apply Runs.bind
  apply Runs.isReusable found
  split
  · next isOne =>
      apply Runs.bind
      apply runs_storeEmptied found nextList (beq_iff_eq.mp isOne) backed
      exact fun opened => released
  · exact runs_retainParts found nextList backed fun opened => released

/-- `reduce2` is the left fold from the first value on. -/
theorem runs_reduce2
    {f : RTValue}
    (implements : Implements refs (refs f) domain .consumes invoke)
    {invokeDynamic : Code RTValue}
    (delivers : Delivers refs (refs f) domain invokeDynamic)
    {heap : ListHeap}
    {self : Address}
    {values : List RTValue}
    (isList : IsList heap self values)
    (valuesIn : ∀ value ∈ values, domain value)
    (backed : Backed heap (own self + refs f)) :
    Runs (reduce2 invoke invokeDynamic self f) heap
      (FoldedFirst refs (refs f) invoke invokeDynamic values) := by
  have selfBacked := backed.left (own_nonneg self) (refs_nonneg f)
  unfold reduce2
  cases values with
  | nil =>
      obtain ⟨metadata, found⟩ := isList
      apply Runs.bind
      apply runs_loadList found
      rw [if_pos rfl]
      apply Runs.bind
      apply Runs.release_trade selfBacked
      intro released _ release
      have releasedBacked :=
        release.backed backed (fun _ => le_rfl) (refs_nonneg f)
      rw [zero_add] at releasedBacked
      apply Runs.bind
      apply (delivers.runs_foldedFirst refs_nonneg (refs_nonneg f)
        releasedBacked).mono
      exact fun _ _ folded => Runs.pure folded
  | cons value values =>
      obtain ⟨isValue, next, metadata, found, nextList⟩ := isList
      rw [List.forall_mem_cons] at valuesIn
      apply Runs.bind
      apply runs_loadList found
      rw [if_neg isValue]
      apply Runs.bind
      apply runs_takeCell found nextList selfBacked
      intro taken take takenList
      have takenBacked :=
        take.backed backed (parts_nonneg value next) (refs_nonneg f)
      rw [add_comm (refs value), add_assoc] at takenBacked
      apply (runs_reduce implements takenList valuesIn.1 valuesIn.2
        takenBacked).mono
      exact fun _ _ folded => ⟨taken, folded.1⟩

end Fold

end PersistentList
end Runtime
end ClojureRt
