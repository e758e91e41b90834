import ClojureRt.Lib.TransitionSystem
import ClojureRt.Runtime.PersistentList.Reversal
import Mathlib.Data.Multiset.AddSub

/-!
# Calls on lists

A caller holds references and gives some of them to a call.  The runtime holds
one to `EMPTY_LIST`.  The cell of the empty list is written by a call in two
places: `reverse`, and `PersistentList_withMeta` where it reuses the cell, which
takes the only reference to it.
-/

namespace ClojureRt
namespace Runtime
namespace PersistentList

open RefCount RefCount.Program
open Sharing (Address RTValue)

/-! ## Metadata -/

/-- Metadata is attached in place to a cell with one reference, and else to a
copy. -/
theorem runs_withMeta
    {heap : ListHeap}
    {self : Address}
    {cell : Cell}
    {metadata : RTValue}
    (found : heap.object? self = some (.list cell))
    (holds : Holds heap (self :: addresses metadata)) :
    Runs (withMeta self metadata) heap fun result after =>
      Since heap after (own result - (own self + refs metadata))
        (fun address => address = self ∧ heap.count self = 1)
        fun address => (address = self ∧ heap.count self = 1) ∨
          heap.next ≤ address := by
  have owned (other : Address) :
      own self other + refs metadata other ≤ heap.excess other := by
    have := holds other
    rwa [owns_cons, Pi.add_apply] at this
  unfold withMeta
  apply Runs.bind
  apply runs_loadList found
  apply Runs.bind
  apply Runs.isReusable found
  cases isOne : heap.count self == 1 with
  | true =>
      rw [beq_iff_eq] at isOne
      simp only [if_true]
      apply Runs.bind
      apply Runs.store_since (Since.refl heap) found
      intro middle _ _ stored
      apply Runs.bind
      apply runs_releaseValue stored
      · intro other
        have := owned other
        have := own_nonneg self other
        simp only [owns_references_list, Pi.add_apply, Pi.sub_apply,
          Pi.zero_apply]
        omega
      intro after _ since
      apply Runs.pure
      apply since.weaken
      · simp only [owns_references_list]
        abel
      · rintro address (never | rfl)
        · exact never.elim
        · exact ⟨rfl, isOne⟩
      · rintro address (never | rfl)
        · exact never.elim
        · exact .inl ⟨rfl, isOne⟩
  | false =>
      simp only [if_false, Bool.false_eq_true]
      apply Runs.bind
      apply runs_retainValue (Since.refl heap)
      · intro address isIn
        apply holds.reference_present found
        exact List.mem_append_left _ (List.mem_append_right _ isIn)
      intro first sameFirst firstSince
      apply Runs.bind
      apply runs_retainPointer firstSince
      · intro address isIn
        rw [sameFirst]
        apply holds.reference_present found
        exact List.mem_append_left _ (List.mem_append_left _ isIn)
      intro second _ secondSince
      apply Runs.bind
      apply Runs.allocate_since secondSince
      intro third _ _ allocated
      apply Runs.bind
      apply Runs.release_since allocated
      · intro other
        have := owned other
        have := own_nonneg second.next other
        simp only [owns_references_list, Pi.add_apply, Pi.sub_apply,
          Pi.zero_apply]
        omega
      intro after _ since
      apply Runs.pure
      apply since.weaken
      · simp only [owns_references_list]
        abel
      · exact fun _ never => never.elim
      · rintro address (never | rfl)
        · exact never.elim
        · exact .inr secondSince.effect.next_le

/-! ## Calls -/

/-- What a caller does with its references. -/
inductive Call
  | createMany (args : List RTValue)
  | fromArray (args : List RTValue)
  | conj (self : Address) (other : RTValue)
  | first (self : Address)
  | next (self : Address)
  | more (self : Address)
  | pop (self : Address)
  | count (self : Address)
  | withMeta (self : Address) (metadata : RTValue)
  | getMeta (self : Address)
  | retain (address : Address)
  | release (address : Address)
  deriving DecidableEq

namespace Call

/-- The references that the caller gives. -/
def consumed : Call → List Address
  | createMany args => addressesOf args
  | fromArray args => addressesOf args
  | conj self other => self :: addresses other
  | first self => [self]
  | next self => [self]
  | more self => [self]
  | pop self => [self]
  | count self => [self]
  | withMeta self metadata => self :: addresses metadata
  | getMeta self => [self]
  | retain address => [address]
  | release address => [address]

/-- The list that is operated on. -/
def list? : Call → Option Address
  | conj self _ => some self
  | first self => some self
  | next self => some self
  | more self => some self
  | pop self => some self
  | count self => some self
  | withMeta self _ => some self
  | getMeta self => some self
  | _ => none

/-- The values that become elements. -/
def values : Call → List RTValue
  | createMany args => args
  | fromArray args => args
  | conj _ other => [other]
  | _ => []

/-- The code of a call, with the references that it gives back. -/
def run : Call → Code (List Address)
  | createMany args => do
      let result ← PersistentList.createMany args
      pure [result]
  | fromArray args => do
      let result ← PersistentList.fromArray args
      pure [result]
  | conj self other => do
      let result ← PersistentList.conj self other
      pure [result]
  | first self => do
      let result ← PersistentList.first self
      pure (addresses result)
  | next self => do
      let result ← PersistentList.next self
      pure (addresses result)
  | more self => do
      let result ← PersistentList.more self
      pure [result]
  | pop self => do
      let result ← PersistentList.pop self
      pure [result]
  | count self => do
      let _ ← PersistentList.count self
      pure []
  | withMeta self metadata => do
      let result ← PersistentList.withMeta self metadata
      pure [result]
  | getMeta self => do
      let result ← PersistentList.getMeta self
      pure (addresses result)
  | retain address => do
      Program.retain address
      pure [address, address]
  | release address => do
      Program.release address
      pure []

/-- No list of some elements is made by `createMany`. -/
def Allowed : Call → Prop
  | createMany args => args = []
  | _ => True

end Call

/-- The heap, and the references that the caller holds. -/
structure Holdings where
  heap : ListHeap
  held : Multiset Address

namespace Holdings

/-- The counts are large enough for what the runtime and the caller hold. -/
def Counted (state : Holdings) : Prop :=
  ∀ address,
    own emptyList address + state.held.count address ≤ state.heap.excess address

/-- `EMPTY_LIST` is the cell that `PersistentList_initialise` made. -/
def EmptyIntact (state : Holdings) : Prop :=
  state.heap.object? emptyList = some (.list emptyCell)

/-- The caller holds what it gives, which are a list and values. -/
structure Owns (state : Holdings) (call : Call) : Prop where
  held : (call.consumed : Multiset Address) ≤ state.held
  list : ∀ self ∈ call.list?, ∃ cell,
    state.heap.object? self = some (.list cell)
  values : boxNull ∉ call.values

/-- A step performs a call of what the caller owns that meets a condition. -/
inductive Step (condition : Call → Prop) : Holdings → Holdings → Prop
  | perform
      (before : Holdings)
      (call : Call)
      (owned : before.Owns call)
      (meets : condition call)
      (given : List Address)
      (after : ListHeap)
      (result : call.run before.heap = some (given, after)) :
      Step condition before ⟨after, before.held - call.consumed + given⟩

/-- The states from which runs start. -/
def Initial (state : Holdings) : Prop :=
  state.Counted ∧ state.EmptyIntact

/-- The states that calls which meet a condition lead to. -/
abbrev Reaches (condition : Call → Prop) : Holdings → Prop :=
  TransitionSystem.Reachable Initial (Step condition)

/-- What a call does: it takes and gives references, and leaves the cell of the
empty list as it is. -/
structure Performs (heap : ListHeap) (call : Call) (given : List Address)
    (after : ListHeap) :
    Prop where
  excess : ∀ address,
    after.excess address = heap.excess address +
      (owns given address - owns call.consumed address)
  kept : after.object? emptyList = heap.object? emptyList

section Calls

variable {state : Holdings}

theorem Counted.holds
    (counted : state.Counted)
    {call : Call}
    (owned : state.Owns call) :
    Holds state.heap (emptyList :: call.consumed) := by
  intro address
  have := counted address
  have := Multiset.count_le_of_le address owned.held
  rw [Multiset.coe_count] at this
  rw [owns_cons, Pi.add_apply]
  unfold owns
  omega

/-- A call that writes new objects only. -/
theorem Performs.of_grows
    (intact : state.EmptyIntact)
    (counted : state.Counted)
    {call : Call}
    (owned : state.Owns call)
    {given : List Address}
    {after : ListHeap}
    {change : Address → Int}
    (grows : Grows state.heap after change)
    (same : change = owns given - owns call.consumed) :
    Performs state.heap call given after where
  excess := by
    intro address
    rw [grows.effect.excess, same, Pi.sub_apply]
  kept := by
    have holds : Holds after [emptyList] := by
      apply grows.holds (counted.holds owned)
      intro other
      have := owns_nonneg given other
      rw [same, owns_singleton, owns_cons, Pi.add_apply, Pi.sub_apply]
      omega
    rw [grows.kept intact (holds.present List.mem_cons_self), intact]

/-- A call of a list has the effect of its code. -/
theorem runs_call
    (intact : state.EmptyIntact)
    (counted : state.Counted)
    {call : Call}
    (owned : state.Owns call)
    (allowed : call.Allowed) :
    Runs call.run state.heap (Performs state.heap call) := by
  have holds := counted.holds owned
  have emptyIsList : IsList state.heap emptyList [] := ⟨_, intact⟩
  cases call with
  | createMany args =>
      obtain rfl : args = [] := allowed
      apply Runs.bind
      apply (runs_createMany intact owned.values holds).mono
      rintro result after ⟨rfl, ⟨rest, found, isNone⟩, _, since⟩
      apply Runs.pure
      refine ⟨?_, ?_⟩
      · intro address
        rw [since.effect.excess, Pi.sub_apply, owns_singleton]
        rfl
      · rw [found, isNone.mpr rfl, intact]
        rfl
  | fromArray args =>
      apply Runs.bind
      apply (runs_fromArray emptyIsList owned.values holds).mono
      rintro result after ⟨_, grows⟩
      exact Runs.pure
        (.of_grows intact counted owned grows (by rw [owns_singleton]; rfl))
  | conj self other =>
      obtain ⟨cell, found⟩ := owned.list self rfl
      apply Runs.bind
      apply (runs_conj found
        (Ne.symm (List.ne_of_not_mem_cons owned.values))).mono
      rintro result after ⟨_, _, _, grows⟩
      apply Runs.pure
      apply Performs.of_grows intact counted owned grows
      rw [owns_singleton, Call.consumed, owns_cons, refs]
  | first self =>
      obtain ⟨cell, found⟩ := owned.list self rfl
      apply Runs.bind
      apply (runs_first found holds.tail).mono
      rintro result after ⟨rfl, grows⟩
      apply Runs.pure
      apply Performs.of_grows intact counted owned grows
      rw [Call.consumed, owns_singleton, refs]
  | next self =>
      obtain ⟨cell, found⟩ := owned.list self rfl
      apply Runs.bind
      apply (runs_next found holds.tail).mono
      rintro result after ⟨rfl, grows⟩
      apply Runs.pure
      apply Performs.of_grows intact counted owned grows
      rw [Call.consumed, owns_singleton, refs]
  | more self =>
      apply Runs.pure
      refine ⟨fun address => ?_, rfl⟩
      rw [Call.consumed, sub_self, add_zero]
  | pop self =>
      obtain ⟨cell, found⟩ := owned.list self rfl
      have both : Holds state.heap [self, emptyList] := by
        intro other
        have := holds other
        simp only [Call.consumed, owns_cons, Pi.add_apply] at this ⊢
        omega
      apply Runs.bind
      apply (runs_pop found both).mono
      rintro result after ⟨_, grows⟩
      apply Runs.pure
      apply Performs.of_grows intact counted owned grows
      rw [Call.consumed, owns_singleton, owns_singleton]
  | count self =>
      obtain ⟨cell, found⟩ := owned.list self rfl
      apply Runs.bind
      apply (runs_count found holds.tail).mono
      rintro result after ⟨_, grows⟩
      apply Runs.pure
      apply Performs.of_grows intact counted owned grows
      rw [Call.consumed, owns_singleton, owns_nil, zero_sub]
  | withMeta self metadata =>
      obtain ⟨cell, found⟩ := owned.list self rfl
      apply Runs.bind
      apply (runs_withMeta found holds.tail).mono
      rintro result after since
      apply Runs.pure
      -- the runtime's reference to the empty list keeps it from being reused
      have notEmpty : ¬ (emptyList = self ∧ state.heap.count self = 1) := by
        rintro ⟨rfl, isOne⟩
        have atEmpty := holds emptyList
        have := refs_nonneg metadata emptyList
        simp only [Call.consumed, owns_cons, Pi.add_apply, own_self] at atEmpty
        unfold refs at this
        unfold Heap.excess at atEmpty
        omega
      have unwritten : ¬ ((emptyList = self ∧ state.heap.count self = 1) ∨
          state.heap.next ≤ emptyList) := by
        rintro (reused | isNew)
        · exact notEmpty reused
        · exact absurd (Heap.lt_next_of_object intact) (Nat.not_lt.mpr isNew)
      have emptyHeld : Holds after [emptyList] := by
        apply since.holds holds
        intro other
        have := own_nonneg result other
        rw [owns_singleton, Call.consumed, owns_cons, owns_cons, refs]
        simp only [Pi.add_apply, Pi.sub_apply]
        omega
      refine ⟨?_,
        since.object_eq unwritten (emptyHeld.present List.mem_cons_self)⟩
      intro address
      rw [since.effect.excess, owns_singleton, Call.consumed, owns_cons, refs]
      rfl
  | getMeta self =>
      obtain ⟨cell, found⟩ := owned.list self rfl
      apply Runs.bind
      apply (runs_getMeta found holds.tail).mono
      rintro result after ⟨rfl, grows⟩
      apply Runs.pure
      apply Performs.of_grows intact counted owned grows
      rw [Call.consumed, owns_singleton, refs]
  | retain address =>
      apply Runs.bind
      apply Runs.retain_since (Since.refl state.heap)
        (holds.tail.present List.mem_cons_self)
      intro after _ since
      apply Runs.pure
      apply Performs.of_grows intact counted owned
        (.of_since since fun _ never => never.elim)
      rw [Call.consumed, owns_cons, zero_add, add_sub_cancel_right]
  | release address =>
      apply Runs.bind
      apply runs_release holds.tail
      intro after grows
      apply Runs.pure
      apply Performs.of_grows intact counted owned grows
      rw [Call.consumed, owns_singleton, owns_nil, zero_sub]

/-- The counts stay large enough. -/
theorem Counted.after
    (counted : state.Counted)
    {call : Call}
    (owned : state.Owns call)
    {given : List Address}
    {after : ListHeap}
    (performs : Performs state.heap call given after) :
    Counted ⟨after, state.held - call.consumed + given⟩ := by
  intro address
  have := counted address
  have isHeld := Multiset.count_le_of_le address owned.held
  rw [Multiset.coe_count] at isHeld
  simp only [Multiset.count_add, Multiset.count_sub, Multiset.coe_count,
    performs.excess]
  unfold owns
  omega

end Calls

/-- In every run without a `createMany` that has arguments, `EMPTY_LIST` stays
as it is, and every call has a result. -/
theorem emptyIntact_of_reaches
    {state : Holdings}
    (reaches : Reaches Call.Allowed state) :
    state.EmptyIntact ∧ state.Counted ∧
      ∀ call, state.Owns call → call.Allowed →
        Runs call.run state.heap fun _ _ => True := by
  have intact : state.Counted ∧ state.EmptyIntact := by
    apply reaches.invariant fun _ initially => initially
    rintro before _ _ ⟨counted, intact⟩ ⟨call, owned, allowed, given,
      after, result⟩
    have performs :=
      (runs_call intact counted owned allowed).ensures.of_result _ _ result
    refine ⟨counted.after owned performs, ?_⟩
    rw [EmptyIntact, performs.kept]
    exact intact
  refine ⟨intact.2, intact.1, fun call owned allowed => ?_⟩
  exact (runs_call intact.2 intact.1 owned allowed).mono fun _ _ _ => trivial

end Holdings

end PersistentList
end Runtime
end ClojureRt
