import ClojureRt.Lib.Trade
import Mathlib.Tactic.Abel

/-!
# Calls of a function, and left folds

A function of two values is code that takes references to its arguments and
gives one to its result.  What it gives may depend on the heap, and it may
allocate.  The implementation of a function either consumes the references to
its arguments or leaves them to its caller.

A left fold is a sequence of calls, each with the result of the call before.
-/

namespace ClojureRt
namespace RefCount

variable {Object α β : Type}

namespace Program

/-- A program goes on like another one. -/
theorem Runs.of_eq
    {program other : Program Object α}
    {heap later : Heap Object}
    {post : α → Heap Object → Prop}
    (same : program heap = other later)
    (runs : Runs other later post) : Runs program heap post := by
  obtain ⟨value, after, result, holds⟩ := runs
  exact ⟨value, after, same.trans result, holds⟩

theorem Ensures.of_eq
    {program other : Program Object α}
    {heap later : Heap Object}
    {post : α → Heap Object → Prop}
    (same : program heap = other later)
    (ensures : Ensures other later post) : Ensures program heap post :=
  ⟨fun value after result =>
    ensures.of_result value after (same.symm.trans result)⟩

end Program

variable [Referencing Object]

/-- What is reached from some references is as it was. -/
def Untouched (heap after : Heap Object) (kept : Nat → Int) : Prop :=
  ∀ address, Reached heap kept address →
    after.object? address = heap.object? address

namespace Untouched

variable {heap middle after : Heap Object} {kept more : Nat → Int}

theorem refl (heap : Heap Object) (kept : Nat → Int) :
    Untouched heap heap kept :=
  fun _ _ => rfl

/-- What is not touched is reached afterwards, too. -/
theorem trans
    (first : Untouched heap middle kept)
    (second : Untouched middle after kept) : Untouched heap after kept := by
  intro address reached
  rw [second address (reached.of_kept first), first address reached]

end Untouched

/-- A trade does not touch what is held besides. -/
theorem Trade.untouched
    {heap after : Heap Object}
    {taken given kept : Nat → Int}
    (trade : Trade heap after taken given)
    (backed : Backed heap (taken + kept))
    (nonneg : ∀ address, 0 ≤ kept address) : Untouched heap after kept :=
  trade.frame kept nonneg backed

namespace Program

/-- What a release does, whether or not there is something to release. -/
theorem Ensures.release_any {heap : Heap Object} {address : Nat} :
    Ensures (Program.release address) heap fun _ after =>
      (∀ other, after.excess other = heap.excess other - own address other) ∧
        ∀ other object, after.object? other = some object →
          heap.object? other = some object := by
  constructor
  intro _ after result
  obtain ⟨released, isReleased, same⟩ := Option.map_eq_some_iff.mp result
  cases same
  refine ⟨fun other => ?_, fun _ _ => releaseAll_kept isReleased⟩
  rw [(releaseAll_effect isReleased).excess, Pi.neg_apply, owns_singleton]
  ring

end Program

/-! ## Calling conventions -/

/-- What an implementation does with the references to its arguments. -/
inductive Convention
  | leaves
  | consumes
  deriving DecidableEq

/-- What is left of the references to the arguments. -/
def Convention.left (convention : Convention) (arguments : Nat → Int) :
    Nat → Int :=
  match convention with
  | leaves => arguments
  | consumes => 0

section Conventions

variable
  {Value : Type}
  (refs : Value → Nat → Int)
  (held : Nat → Int)
  (domain : Value → Prop)

/-- The implementation of a function runs for all arguments in its domain that
its caller has references to, and gives a reference to its result.  It holds on
to the references of the function itself. -/
structure Implements
    (convention : Convention)
    (impl : Value → Value → Program Object Value) : Prop where
  runs : ∀ heap acc value, domain acc → domain value →
    Backed heap (refs acc + refs value + held) →
    Program.Runs (impl acc value) heap fun result after => domain result ∧
      Trade heap after (refs acc + refs value + held)
        (refs result + (convention.left (refs acc + refs value) + held))

/-- A call without arguments gives a reference to its result. -/
structure Delivers (code : Program Object Value) : Prop where
  runs : ∀ heap, Backed heap held →
    Program.Runs code heap fun result after => domain result ∧
      Trade heap after held (refs result + held)

/-- Code that takes a reference away, and may be run where there is none. -/
structure Releases (releaseValue : Value → Program Object Unit) : Prop where
  runs : ∀ heap value, Backed heap (refs value) →
    Program.Runs (releaseValue value) heap fun _ after =>
      Trade heap after (refs value) 0
  ensures : ∀ heap value,
    Program.Ensures (releaseValue value) heap fun _ after =>
    (∀ address,
      after.excess address = heap.excess address - refs value address) ∧
      ∀ address object, after.object? address = some object →
        heap.object? address = some object

/-- Releasing the arguments after a call does no harm: the implementation left
them, or there is nothing to release. -/
def Harmless (convention : Convention) : Prop :=
  convention = .leaves ∨ ∀ value, domain value → refs value = 0

end Conventions

/-- A call, after which the caller releases the arguments. -/
def callAndRelease
    {Value : Type}
    (releaseValue : Value → Program Object Unit)
    (impl : Value → Value → Program Object Value)
    (acc value : Value) : Program Object Value := do
  let result ← impl acc value
  releaseValue acc
  releaseValue value
  pure result

omit [Referencing Object] in
/-- The releases do not change what a call gives. -/
theorem result_of_callAndRelease
    {Value : Type}
    {releaseValue : Value → Program Object Unit}
    {impl : Value → Value → Program Object Value}
    {heap after : Heap Object}
    {acc value next : Value}
    (calls : callAndRelease releaseValue impl acc value heap =
      some (next, after)) :
    ∃ called, impl acc value heap = some (next, called) := by
  have ensures : Program.Ensures (callAndRelease releaseValue impl acc value)
    heap fun result _ =>
      ∃ called, impl acc value heap = some (result, called) := by
    apply Program.Ensures.bind
    refine ⟨fun result called isResult => ?_⟩
    apply Program.Ensures.bind
    refine ⟨fun _ _ _ => ?_⟩
    apply Program.Ensures.bind
    exact ⟨fun _ _ _ => Program.Ensures.pure ⟨called, isResult⟩⟩
  exact ensures.of_result next after calls

section Calls

variable
  {Value : Type}
  {refs : Value → Nat → Int}
  {held : Nat → Int}
  {domain : Value → Prop}
  {convention : Convention}
  {impl : Value → Value → Program Object Value}
  {releaseValue : Value → Program Object Unit}

open Program

/-- A call of a function that consumes its arguments. -/
theorem Implements.runs_call
    {invoke : Value → Value → Program Object Value}
    (implements : Implements refs held domain .consumes invoke)
    {heap : Heap Object}
    {acc value : Value}
    (accIn : domain acc)
    (valueIn : domain value)
    (backed : Backed heap (refs acc + refs value + held))
    {post : Value → Heap Object → Prop}
    (holds : ∀ next called, invoke acc value heap = some (next, called) →
      domain next →
      Trade heap called (refs acc + refs value + held) (refs next + held) →
        post next called) :
    Runs (invoke acc value) heap post := by
  apply Runs.with_result
  apply (implements.runs heap acc value accIn valueIn backed).mono
  rintro next called ⟨nextIn, call⟩ calls
  apply holds next called calls nextIn
  apply call.of_eq rfl
  rw [Convention.left, zero_add]

/-- Where it does no harm, the call and the releases together consume the
arguments. -/
theorem Implements.consuming
    (implements : Implements refs held domain convention impl)
    (releases : Releases refs releaseValue)
    (nonneg : ∀ value address, 0 ≤ refs value address)
    (heldNonneg : ∀ address, 0 ≤ held address)
    (harmless : Harmless refs domain convention) :
    Implements refs held domain .consumes
      (callAndRelease releaseValue impl) := by
  constructor
  intro heap acc value accIn valueIn backed
  apply Runs.bind
  apply (implements.runs heap acc value accIn valueIn backed).mono
  rintro result called ⟨resultIn, call⟩
  -- the arguments are left, whatever the convention
  have isLeft : convention.left (refs acc + refs value) = refs acc +
      refs value := by
    obtain rfl | none := harmless
    · rfl
    · rw [none acc accIn, none value valueIn, add_zero]
      cases convention <;> rfl
  have besidesNonneg := nonneg_add (nonneg result) heldNonneg
  have restNonneg := nonneg_add (nonneg value) besidesNonneg
  have rearranged :
    refs result + (convention.left (refs acc + refs value) + held) =
      refs acc + (refs value + (refs result + held)) := by
    rw [isLeft]
    abel
  rw [rearranged] at call
  have calledBacked :=
    call.given_backed backed (nonneg_add (nonneg acc) restNonneg)
  apply Runs.bind
  apply (releases.runs called acc
    (calledBacked.left (nonneg acc) restNonneg)).mono
  intro _ released release
  have releasing := (release.keep restNonneg).of_eq rfl (zero_add _)
  have releasedBacked := releasing.given_backed calledBacked restNonneg
  apply Runs.bind
  apply (releases.runs released value
    (releasedBacked.left (nonneg value) besidesNonneg)).mono
  intro _ after last
  apply Runs.pure
  refine ⟨resultIn, ?_⟩
  have lasting := (last.keep besidesNonneg).of_eq rfl (zero_add _)
  apply ((call.trans releasing calledBacked.nonneg).trans lasting
    releasedBacked.nonneg).of_eq rfl
  rw [Convention.left, zero_add]

/-- Where the implementation consumes the arguments, they are released once
more.  What others hold may go, but what is still there is as it was. -/
theorem Implements.ensures_callAndRelease
    (implements : Implements refs held domain .consumes impl)
    (releases : Releases refs releaseValue)
    {heap : Heap Object}
    {acc value : Value}
    {rest : Nat → Int}
    (accIn : domain acc)
    (valueIn : domain value)
    (argumentsNonneg : ∀ address, 0 ≤ (refs acc + refs value + held) address)
    (restNonneg : ∀ address, 0 ≤ rest address)
    (backed : Backed heap (refs acc + refs value + held + rest)) :
    Ensures (callAndRelease releaseValue impl acc value) heap
      fun result after =>
      (∀ address, after.excess address = heap.excess address +
        refs result address - 2 * (refs acc address + refs value address)) ∧
      ∀ address, Reached heap rest address → ∀ object,
        after.object? address = some object →
          heap.object? address = some object := by
  apply Ensures.bind_of_runs
  apply (implements.runs heap acc value accIn valueIn
    (backed.left argumentsNonneg restNonneg)).mono
  rintro result called ⟨resultIn, call⟩
  apply Ensures.bind
  apply (releases.ensures called acc).mono
  rintro _ released ⟨release, kept⟩
  apply Ensures.bind
  apply (releases.ensures released value).mono
  rintro _ after ⟨last, lastKept⟩
  apply Ensures.pure
  constructor
  · intro address
    rw [last, release, call.excess]
    simp only [Pi.add_apply, Convention.left, Pi.zero_apply]
    ring
  · intro address reached object found
    rw [← call.untouched backed restNonneg address reached]
    exact kept address object (lastKept address object found)

end Calls

/-! ## Left folds -/

/-- Calls with some values one after the other, each with the result of the
call before. Every call is made with references to its arguments, and what
is reached from a result and from the function itself is not touched before
the next call. -/
inductive LeftFold
    {Value : Type}
    (refs : Value → Nat → Int)
    (held : Nat → Int)
    (invoke : Value → Value → Program Object Value) :
    Heap Object → Value → List Value → Value → Heap Object → Prop
  | done
      {heap after : Heap Object}
      {acc : Value}
      (untouched : Untouched heap after (refs acc + held)) :
      LeftFold refs held invoke heap acc [] acc after
  | call
      {heap before called after : Heap Object}
      {acc value next result : Value}
      {values : List Value}
      (untouched : Untouched heap before (refs acc + held))
      (backed : Backed before (refs acc + refs value + held))
      (calls : invoke acc value before = some (next, called))
      (rest : LeftFold refs held invoke called next values result after) :
      LeftFold refs held invoke heap acc (value :: values) result after

namespace LeftFold

variable
  {Value : Type}
  {refs : Value → Nat → Int}
  {held : Nat → Int}
  {invoke : Value → Value → Program Object Value}
  {heap middle after : Heap Object}
  {acc result last : Value}
  {values more : List Value}

theorem precede
    (untouched : Untouched heap middle (refs acc + held))
    (fold : LeftFold refs held invoke middle acc values result after) :
    LeftFold refs held invoke heap acc values result after := by
  cases fold with
  | done kept => exact .done (untouched.trans kept)
  | call kept backed calls rest =>
      exact .call (untouched.trans kept) backed calls rest

theorem append
    (first : LeftFold refs held invoke heap acc values result middle)
    (second : LeftFold refs held invoke middle result more last after) :
    LeftFold refs held invoke heap acc (values ++ more) last after := by
  induction first with
  | done untouched => exact second.precede untouched
  | call untouched backed calls _ inductionHypothesis =>
      exact .call untouched backed calls (inductionHypothesis second)

theorem follow
    (fold : LeftFold refs held invoke heap acc values result middle)
    (untouched : Untouched middle after (refs result + held)) :
    LeftFold refs held invoke heap acc values result after := by
  rw [← List.append_nil values]
  exact fold.append (.done untouched)

/-- Where the calls compute a function, the result is the left fold of that
function. -/
theorem eq_foldl
    {function : Value → Value → Value}
    (computes : ∀ before acc value next called,
      invoke acc value before = some (next, called) → next = function acc value)
    (fold : LeftFold refs held invoke heap acc values result after) :
    result = values.foldl function acc := by
  induction fold with
  | done _ => rfl
  | call _ _ calls _ inductionHypothesis =>
      rw [inductionHypothesis, List.foldl_cons, computes _ _ _ _ _ calls]

end LeftFold

/-- A reduction passes values to a function.  It consists of the last result and
of what was passed.  What is owned besides the accumulated value and the
function is traded for something else. -/
structure Folds
    {Value : Type}
    (refs : Value → Nat → Int)
    (held : Nat → Int)
    (domain : Value → Prop)
    (invoke : Value → Value → Program Object Value)
    (heap : Heap Object)
    (besides : Nat → Int)
    (acc : Value)
    (values : List Value)
    (besides' : Nat → Int)
    (reduction : Value × List Value)
    (after : Heap Object) : Prop where
  passed : reduction.2 = values
  calls : LeftFold refs held invoke heap acc values reduction.1 after
  inDomain : domain reduction.1
  trade : Trade heap after (besides + (refs acc + held))
    (besides' + (refs reduction.1 + held))

namespace Folds

variable
  {Value : Type}
  {refs : Value → Nat → Int}
  {held : Nat → Int}
  {domain : Value → Prop}
  {invoke : Value → Value → Program Object Value}
  {heap before middle called after last : Heap Object}
  {besides besides' between : Nat → Int}
  {acc next value : Value}
  {values more : List Value}
  {reduction other : Value × List Value}
  (nonneg : ∀ value address, 0 ≤ (refs value + held) address)

theorem of_eq
    {taken given : Nat → Int}
    (folds : Folds refs held domain invoke heap besides acc values besides'
      reduction after)
    (sameTaken : besides = taken)
    (sameGiven : besides' = given) :
    Folds refs held domain invoke heap taken acc values given reduction after :=
  sameTaken ▸ sameGiven ▸ folds

include nonneg

/-- No value is passed. -/
theorem nil
    (accIn : domain acc)
    (trade : Trade heap after besides besides')
    (backed : Backed heap (besides + (refs acc + held))) :
    Folds refs held domain invoke heap besides acc [] besides' (acc, [])
      after where
  passed := rfl
  calls := .done (trade.untouched backed (nonneg acc))
  inDomain := accIn
  trade := trade.keep (nonneg acc)

/-- What is traded before the first value is passed. -/
theorem precede
    (trade : Trade heap middle besides between)
    (backed : Backed heap (besides + (refs acc + held)))
    (betweenNonneg : ∀ address, 0 ≤ between address)
    (folds : Folds refs held domain invoke middle between acc values besides'
      reduction after) :
    Folds refs held domain invoke heap besides acc values besides' reduction
      after where
  passed := folds.passed
  calls := folds.calls.precede (trade.untouched backed (nonneg acc))
  inDomain := folds.inDomain
  trade := (trade.keep (nonneg acc)).trans folds.trade
    (nonneg_add betweenNonneg (nonneg acc))

/-- A value is passed, and then others. -/
theorem cons
    (trade : Trade heap before besides (between + refs value))
    (backed : Backed heap (besides + (refs acc + held)))
    (valueNonneg : ∀ address, 0 ≤ refs value address)
    (betweenNonneg : ∀ address, 0 ≤ between address)
    (calls : invoke acc value before = some (next, called))
    (call : Trade before called (refs acc + refs value + held)
      (refs next + held))
    (folds : Folds refs held domain invoke called between next values besides'
      reduction after) :
    Folds refs held domain invoke heap besides acc (value :: values) besides'
      (reduction.1, value :: reduction.2) after := by
  have same : between + refs value + (refs acc + held) =
      refs acc + refs value + held + between := by abel
  have taking := (trade.keep (nonneg acc)).of_eq rfl same
  have takenNonneg :=
    nonneg_add (nonneg_add betweenNonneg valueNonneg) (nonneg acc)
  rw [same] at takenNonneg
  have takenBacked := taking.given_backed backed takenNonneg
  have calling := (call.keep betweenNonneg).of_eq rfl (add_comm _ _)
  constructor
  · rw [folds.passed]
  · refine .call (trade.untouched backed (nonneg acc))
      (takenBacked.left ?_ betweenNonneg) calls folds.calls
    intro address
    have := nonneg acc address
    have := valueNonneg address
    simp only [Pi.add_apply] at *
    omega
  · exact folds.inDomain
  · exact (taking.trans calling takenNonneg).trans folds.trade
      (nonneg_add betweenNonneg (nonneg next))

/-- Some values are passed, and then others. -/
theorem append
    (first : Folds refs held domain invoke heap besides acc values between
      reduction middle)
    (second : Folds refs held domain invoke middle between reduction.1 more
      besides' other after)
    (betweenNonneg : ∀ address, 0 ≤ between address) :
    Folds refs held domain invoke heap besides acc (values ++ more) besides'
      (other.1, reduction.2 ++ other.2) after where
  passed := by rw [first.passed, second.passed]
  calls := first.calls.append second.calls
  inDomain := second.inDomain
  trade := first.trade.trans second.trade (nonneg_add betweenNonneg (nonneg _))

/-- What is traded after the last value is passed. -/
theorem follow
    (folds : Folds refs held domain invoke heap besides acc values between
      reduction middle)
    (trade : Trade middle after between besides')
    (backed : Backed heap (besides + (refs acc + held)))
    (betweenNonneg : ∀ address, 0 ≤ between address) :
    Folds refs held domain invoke heap besides acc values besides' reduction
      after := by
  have givenNonneg := nonneg_add betweenNonneg (nonneg reduction.1)
  have middleBacked := folds.trade.given_backed backed givenNonneg
  constructor
  · exact folds.passed
  · exact folds.calls.follow (trade.untouched middleBacked (nonneg _))
  · exact folds.inDomain
  · exact folds.trade.trans (trade.keep (nonneg _)) givenNonneg

omit nonneg in
/-- What is kept besides all the time. -/
theorem keep
    {kept : Nat → Int}
    (folds : Folds refs held domain invoke heap besides acc values besides'
      reduction after)
    (keptNonneg : ∀ address, 0 ≤ kept address) :
    Folds refs held domain invoke heap (besides + kept) acc values
      (besides' + kept) reduction after where
  passed := folds.passed
  calls := folds.calls
  inDomain := folds.inDomain
  trade := by
    apply (folds.trade.keep keptNonneg).of_eq
    · abel
    · abel

end Folds

/-! ## Results of reductions -/

section Results

variable
  {Value : Type}
  (refs : Value → Nat → Int)
  (held : Nat → Int)
  (invoke : Value → Value → Program Object Value)

/-- A reduction is the left fold over some values.  Its result is what the last
call gave, and there is a reference to it. -/
structure Folded
    (heap : Heap Object)
    (start : Value)
    (values : List Value)
    (reduction : Value × List Value)
    (after : Heap Object) : Prop where
  passed : reduction.2 = values
  calls : ∃ last, LeftFold refs held invoke heap start values reduction.1 last ∧
    Untouched last after (refs reduction.1)
  backed : Backed after (refs reduction.1)

/-- The left fold from the first value on, or the result of a call without
arguments if there is none. -/
def FoldedFirst
    (invokeDynamic : Program Object Value)
    (values : List Value)
    (reduction : Value × List Value)
    (after : Heap Object) : Prop :=
  match values with
  | [] => reduction.2 = [] ∧ Backed after (refs reduction.1) ∧ ∃ before called,
      Backed before held ∧ invokeDynamic before = some (reduction.1, called) ∧
        Untouched called after (refs reduction.1)
  | first :: values =>
      ∃ begun, Folded refs held invoke begun first values reduction after

variable {refs held invoke}

theorem Folded.eq_foldl
    {heap after : Heap Object}
    {start : Value}
    {values : List Value}
    {reduction : Value × List Value}
    {function : Value → Value → Value}
    (computes : ∀ before acc value next called,
      invoke acc value before = some (next, called) → next = function acc value)
    (folded : Folded refs held invoke heap start values reduction after) :
    reduction = (values.foldl function start, values) := by
  obtain ⟨last, fold, _⟩ := folded.calls
  exact Prod.ext (fold.eq_foldl computes) folded.passed

/-- The function is released after the last call. -/
theorem Folds.finish
    {domain : Value → Prop}
    {heap middle after : Heap Object}
    {besides : Nat → Int}
    {start : Value}
    {values : List Value}
    {reduction : Value × List Value}
    (folds : Folds refs held domain invoke heap besides start values 0
      reduction middle)
    (backed : Backed heap (besides + (refs start + held)))
    (nonneg : ∀ value address, 0 ≤ refs value address)
    (heldNonneg : ∀ address, 0 ≤ held address)
    (trade : Trade middle after held 0) :
    Folded refs held invoke heap start values reduction after ∧
      Trade heap after (besides + (refs start + held)) (refs reduction.1) := by
  have passing := folds.trade.of_eq rfl ((zero_add _).trans (add_comm _ _))
  have middleBacked :=
    passing.given_backed backed (nonneg_add heldNonneg (nonneg _))
  have releasing := (trade.keep (nonneg reduction.1)).of_eq rfl (zero_add _)
  have whole := passing.trans releasing middleBacked.nonneg
  refine ⟨⟨folds.passed, ⟨middle, folds.calls, ?_⟩, ?_⟩, whole⟩
  · exact trade.untouched middleBacked (nonneg _)
  · exact whole.given_backed backed (nonneg _)

/-- The call without arguments. -/
theorem Delivers.runs_foldedFirst
    {domain : Value → Prop}
    {invokeDynamic : Program Object Value}
    (delivers : Delivers refs held domain invokeDynamic)
    {heap : Heap Object}
    (nonneg : ∀ value address, 0 ≤ refs value address)
    (heldNonneg : ∀ address, 0 ≤ held address)
    (backed : Backed heap held) :
    Program.Runs invokeDynamic heap fun result after =>
      FoldedFirst refs held invoke invokeDynamic [] (result, []) after := by
  apply Program.Runs.with_result
  apply (delivers.runs heap backed).mono
  rintro result after ⟨_, trade⟩ isResult
  have afterBacked :=
    trade.given_backed backed (nonneg_add (nonneg result) heldNonneg)
  exact ⟨rfl, afterBacked.left (nonneg result) heldNonneg, heap, after, backed,
    isResult,
    Untouched.refl after _⟩

end Results

end RefCount
end ClojureRt
