import ClojureRt.Codegen.ObjectTypeSet
import Mathlib.Data.Set.Basic

/-!
# Type sets as an abstraction

The meaning of a type set is the set of values it describes.  The sets of the
code generator are built by finitely many operations from the constructors,
`all` and `dynamicType`.  The operations lose nothing that the enumeration of
the types names; the flag for every type is where they can: `expansion` by such
a set keeps a constant and the boxed flag, and `removeConst` and `restriction`
go by the enumeration alone.
-/

namespace ClojureRt
namespace Codegen
namespace ObjectTypeSet

/-- The values a type set stands for. -/
def meaning (types : ObjectTypeSet) : Set Value :=
    {value | types.Describes value}

/-- The type sets that finitely many operations make, where a set is expanded by
another only if `expandable` says so. -/
inductive Reachable (expandable : ObjectTypeSet → ObjectTypeSet → Prop) :
    ObjectTypeSet → Prop
  | ofType (type : ObjectType) (isBoxed : Bool) (constant : Option Constant) :
      Reachable expandable (.ofType type isBoxed constant)
  | empty : Reachable expandable .empty
  | all : Reachable expandable .all
  | dynamicType : Reachable expandable .dynamicType
  | expansion
      {types other : ObjectTypeSet}
      (left : Reachable expandable types)
      (right : Reachable expandable other)
      (allowed : expandable types other) :
      Reachable expandable (types.expansion other)
  | restriction
      {types other : ObjectTypeSet}
      (left : Reachable expandable types)
      (right : Reachable expandable other) :
      Reachable expandable (types.restriction other)
  | removeConst {types : ObjectTypeSet} (reached : Reachable expandable types) :
      Reachable expandable types.removeConst
  | boxed {types : ObjectTypeSet} (reached : Reachable expandable types) :
      Reachable expandable types.boxed
  | unboxed {types : ObjectTypeSet} (reached : Reachable expandable types) :
      Reachable expandable types.unboxed

/-- The type sets of any composition of the operations. -/
abbrev Composed : ObjectTypeSet → Prop := Reachable fun _ _ => True

/-- The type sets of the compositions that never expand an unboxed set by one
with every type. -/
abbrev ComposedBoxed : ObjectTypeSet → Prop :=
  Reachable fun types other => other.allTypes = true → types.isBoxed = true

variable {types other : ObjectTypeSet} {value : Value}

theorem mem_meaning : value ∈ types.meaning ↔ types.Describes value := Iff.rfl

/-! ## One operation -/

/-- A value of both sets is one of the restricted set, unless only the flag of
the first set contains its type. -/
theorem Describes.restriction
    (left : types.Describes value)
    (right : other.Describes value)
    (enumerated : types.allTypes = true → other.allTypes = false →
      value.type ∈ types.internal) :
    (types.restriction other).Describes value := by
  unfold ObjectTypeSet.restriction
  split
  · exact left
  · next notAll =>
      have inRight := (contains_iff.mp right.1).resolve_left notAll
      have inLeft : value.type ∈ types.internal :=
        (contains_iff.mp left.1).elim
          (fun allLeft => enumerated allLeft (by simpa using notAll)) id
      refine ⟨contains_iff.mpr
        (Or.inr (Finset.mem_inter.mpr ⟨inLeft, inRight⟩)), ?_⟩
      intro constant isCarried
      exact left.2 constant (Option.filter_eq_some_iff.mp isCarried).1

theorem Describes.removeConst
    (described : types.Describes value)
    (enumerated : types.allTypes = true → value.type ∈ types.internal) :
    types.removeConst.Describes value := by
  refine ⟨contains_iff.mpr (Or.inr ?_),
    fun constant isCarried => by cases isCarried⟩
  exact (contains_iff.mp described.1).elim enumerated id

theorem describes_of_allTypes
    (allTypes : types.allTypes = true)
    (noConstant : types.constant = none) :
    types.Describes value :=
  ⟨contains_iff.mpr (Or.inl allTypes), fun constant isCarried => by
    rw [noConstant] at isCarried
    cases isCarried⟩

/-- What an expansion describes, as long as no constant stays behind. -/
theorem describes_expansion_iff
    (kept : other.allTypes = true → types.constant = none) :
    (types.expansion other).Describes value ↔
      types.contains value.type = true ∨ other.contains value.type = true := by
  by_cases allOther : other.allTypes = true
  · have everything : (types.expansion other).Describes value := by
      rw [expansion, if_pos allOther]
      exact describes_of_allTypes rfl (kept allOther)
    exact iff_of_true everything (Or.inr (contains_iff.mpr (Or.inl allOther)))
  · rw [expansion, if_neg allOther, Describes]
    simp only [contains_iff, Finset.mem_union, reduceCtorEq, false_implies,
      implies_true, and_true, allOther, false_or, or_assoc]

theorem meaning_expansion_comm
    (keptLeft : other.allTypes = true → types.constant = none)
    (keptRight : types.allTypes = true → other.constant = none) :
    (types.expansion other).meaning = (other.expansion types).meaning := by
  ext value
  rw [mem_meaning, mem_meaning, describes_expansion_iff keptLeft,
    describes_expansion_iff keptRight, or_comm]

/-! ## Any composition -/

/-- The types that `contains` finds without the flag for every type are at most
one in an unboxed set. -/
theorem Composed.card_le_one
    (composed : Composed types)
    (notBoxed : types.isBoxed = false) :
    types.internal.card ≤ 1 := by
  induction composed with
  | ofType type isBoxed constant => exact le_of_eq (Finset.card_singleton type)
  | empty => exact Nat.zero_le 1
  | all => cases notBoxed
  | dynamicType => cases notBoxed
  | @expansion types other left right allowed leftHypothesis rightHypothesis =>
      unfold ObjectTypeSet.expansion at notBoxed ⊢
      split at notBoxed
      · next allOther =>
          rw [if_pos allOther]
          exact leftHypothesis notBoxed
      · next notAll =>
          rw [if_neg notAll]
          simp only [Bool.or_eq_false_iff, decide_eq_false_iff_not,
            Nat.not_lt] at notBoxed
          exact notBoxed.2
  | @restriction types other left right leftHypothesis rightHypothesis =>
      unfold ObjectTypeSet.restriction at notBoxed ⊢
      split at notBoxed
      · next allOther =>
          rw [if_pos allOther]
          exact leftHypothesis notBoxed
      · next notAll =>
          rw [if_neg notAll]
          exact (Finset.card_le_card Finset.inter_subset_left).trans
            (leftHypothesis notBoxed)
  | removeConst reached inductionHypothesis =>
      exact inductionHypothesis notBoxed
  | boxed reached inductionHypothesis => cases notBoxed
  | @unboxed types reached inductionHypothesis =>
      unfold ObjectTypeSet.unboxed at notBoxed ⊢
      split at notBoxed
      · next determined =>
          rw [if_pos determined]
          simp only [isDetermined, Bool.and_eq_true,
            decide_eq_true_eq] at determined
          exact le_of_eq determined.1
      · next undetermined =>
          rw [if_neg undetermined]
          exact inductionHypothesis notBoxed

/-- In the compositions that expand only boxed sets by one with every type, the
sets with every type are boxed. -/
theorem ComposedBoxed.isBoxed
    (composed : ComposedBoxed types)
    (allTypes : types.allTypes = true) :
    types.isBoxed = true := by
  induction composed with
  | ofType => cases allTypes
  | empty => cases allTypes
  | all => rfl
  | dynamicType => rfl
  | @expansion types other left right allowed leftHypothesis rightHypothesis =>
      unfold ObjectTypeSet.expansion at allTypes ⊢
      split
      · next allOther => exact allowed allOther
      · next notAll =>
          rw [if_neg notAll] at allTypes
          have flag : types.allTypes = true := allTypes
          have notEmpty : types.isEmpty = false := by simp [isEmpty, flag]
          simp [leftHypothesis flag, notEmpty]
  | @restriction types other left right leftHypothesis rightHypothesis =>
      unfold ObjectTypeSet.restriction at allTypes ⊢
      split
      · next allOther =>
          rw [if_pos allOther] at allTypes
          exact leftHypothesis allTypes
      · next notAll =>
          rw [if_neg notAll] at allTypes
          cases allTypes
  | removeConst => cases allTypes
  | boxed => rfl
  | @unboxed types reached inductionHypothesis =>
      unfold ObjectTypeSet.unboxed at allTypes ⊢
      split
      · next determined =>
          rw [if_pos determined] at allTypes
          have flag : types.allTypes = true := allTypes
          simp [isDetermined, flag] at determined
      · next undetermined =>
          rw [if_neg undetermined] at allTypes
          exact inductionHypothesis allTypes

/-- A set of several types is boxed. -/
theorem Composed.isBoxed
    (composed : Composed types)
    (notDetermined : types.isDetermined = false)
    (notEmpty : types.isEmpty = false)
    (notAll : types.allTypes = false) :
    types.isBoxed = true := by
  by_contra notBoxed
  have atMostOne := composed.card_le_one (Bool.eq_false_of_not_eq_true notBoxed)
  simp only [isDetermined, isEmpty, notAll, Bool.not_false, Bool.and_true,
    decide_eq_false_iff_not] at notDetermined notEmpty
  have := Finset.card_pos.mpr (Finset.nonempty_iff_ne_empty.mpr notEmpty)
  omega

/-- Every law of the abstraction, for two type sets. -/
structure Abstracts (types other : ObjectTypeSet) : Prop where
  expansion : types.meaning ∪ other.meaning ⊆ (types.expansion other).meaning
  restriction : types.meaning ∩ other.meaning ⊆
    (types.restriction other).meaning
  removeConst : types.meaning ⊆ types.removeConst.meaning
  removeConst_constant : types.removeConst.constant = none
  expansion_comm : (types.expansion other).meaning =
    (other.expansion types).meaning
  isBoxed : types.isDetermined = false → types.isBoxed = true

/-- An object of a registered class. -/
def instanceOf (id address : Nat) : Value :=
  .object (.custom id) address fun known =>
    by cases known <;> simp [Constant.constantType]

/-- The empty set is neither determined nor boxed, and with the set of every
type the other laws fail: a literal that is expanded by it stays a literal and
unboxed, and an object of a registered class is lost by `restriction` and by
`removeConst`. -/
theorem not_abstracts :
    (¬ ∀ types other, Composed types → Composed other → Abstracts types other) ∧
      (empty.isDetermined = false ∧ empty.isBoxed = false) ∧
      (.constant (.integer 6) ∈ all.meaning ∧
        .constant (.integer 6) ∉
          ((ofConstant (.integer 5) false).expansion all).meaning ∧
        .constant (.integer 6) ∈
          (all.expansion (ofConstant (.integer 5) false)).meaning) ∧
      (((ofType .integerType false none).expansion all).isDetermined = false ∧
        ((ofType .integerType false none).expansion all).isBoxed = false) ∧
      (instanceOf 100 0 ∈ all.meaning ∩
        (ofType (.custom 100) true none).meaning ∧
        instanceOf 100 0 ∉
          (all.restriction (ofType (.custom 100) true none)).meaning) ∧
      instanceOf 100 0 ∉ all.removeConst.meaning := by
  have described : ∀ value, value ∈ all.meaning := describes_dynamicType
  refine ⟨fun allAbstract => ?_, ⟨rfl, rfl⟩, ⟨described _, fun kept => ?_, ?_⟩,
    ⟨rfl, rfl⟩,
    ⟨⟨described _, describes_ofType rfl true⟩, fun restricted => ?_⟩,
    fun removed => ?_⟩
  · have abstracts := allAbstract .empty .empty .empty .empty
    cases abstracts.isBoxed rfl
  · have same := Value.constant.inj (kept.2 (.integer 5) rfl)
    exact absurd same (by decide)
  · exact (describes_expansion_iff fun _ => rfl).mpr (Or.inl (described _).1)
  · exact absurd restricted.1 (by decide)
  · exact absurd removed.1 (by decide)

theorem composed_laws (types other : ObjectTypeSet) :
    Composed types → Composed other →
      types.meaning ⊆ (types.expansion other).meaning ∧
      ((other.allTypes = true → types.constant = none) →
        other.meaning ⊆ (types.expansion other).meaning) ∧
      (∀ value ∈ types.meaning ∩ other.meaning,
        (types.allTypes = true → other.allTypes = false →
          value.type ∈ types.internal) →
          value ∈ (types.restriction other).meaning) ∧
      types.removeConst.constant = none ∧
      (∀ value ∈ types.meaning,
        (types.allTypes = true → value.type ∈ types.internal) →
          value ∈ types.removeConst.meaning) ∧
      ((other.allTypes = true → types.constant = none) →
        (types.allTypes = true → other.constant = none) →
          (types.expansion other).meaning = (other.expansion types).meaning) ∧
      (types.isDetermined = false → types.isEmpty = false →
        (types.allTypes = true → ComposedBoxed types) →
        types.isBoxed = true) := by
  intro composed _
  refine ⟨fun value => Describes.expansion_left, fun kept value described => ?_,
    fun value described => described.1.restriction described.2, rfl,
    fun value => Describes.removeConst, meaning_expansion_comm,
    fun notDetermined notEmpty composedBoxed => ?_⟩
  · refine described.expansion_right fun allOther constant isCarried => ?_
    rw [kept allOther] at isCarried
    cases isCarried
  · cases flag : types.allTypes with
    | true => exact (composedBoxed flag).isBoxed flag
    | false => exact composed.isBoxed notDetermined notEmpty flag

/-- The type of a literal or a double, and the set of every type. -/
theorem composed_laws_literal :
    ∃ types other : ObjectTypeSet, Composed types ∧ Composed other ∧
      types.meaning ⊆ (types.expansion other).meaning ∧
      other.meaning ⊆ (types.expansion other).meaning ∧
      .constant (.integer 5) ∈ (types.restriction other).meaning ∧
      types.removeConst.constant = none ∧
      .constant (.integer 5) ∈ types.removeConst.meaning ∧
      (types.expansion other).meaning = (other.expansion types).meaning ∧
      types.isBoxed = true := by
  have composed : Composed ((ofConstant (.integer 5) false).expansion
      (ofType .doubleType false none)) :=
    .expansion (.ofType _ _ _) (.ofType _ _ _) trivial
  have described : Value.constant (.integer 5) ∈
      meaning ((ofConstant (.integer 5) false).expansion
        (ofType .doubleType false none)) :=
    ⟨by decide, fun _ isCarried => by cases isCarried⟩
  obtain ⟨left, right, restricted, noConstant, removed, comm, isBoxed⟩ :=
    composed_laws _ .all composed .all
  refine ⟨_, .all, composed, .all, left, right fun _ => rfl, ?_, noConstant,
    ?_, ?_, ?_⟩
  · exact restricted _
      ⟨described, by decide, fun _ isCarried => by cases isCarried⟩ nofun
  · exact removed _ described nofun
  · exact comm (fun _ => rfl) nofun
  · exact isBoxed (by decide) (by decide) nofun

end ObjectTypeSet
end Codegen
end ClojureRt
