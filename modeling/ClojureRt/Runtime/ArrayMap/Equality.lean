import ClojureRt.Lib.Matching
import ClojureRt.Runtime.ArrayMap.Entries
import ClojureRt.Runtime.String.Contents
import Mathlib.Algebra.BigOperators.Group.List.Basic
import Mathlib.Data.BitVec

/-!
# Equality of array maps

Two array maps are compared by hash, by count, and by looking up every key of
the one in the other.  The lookup returns nil for a missing key, so a key with
the value nil need not be in the other map at all; the hashes of the strings
"ab" and "ba" are the same, so the first test does not always notice.

Values are words that are no pointers, maps, and other objects.  What the
runtime does with other objects is given by a structure of its own.
-/

namespace ClojureRt
namespace Runtime
namespace ArrayMap

open Strings (Hash avalanche)

/-- `RTValue` -/
abbrev RTValue := BitVec 64

/-- `RT_boxNil` -/
def boxNil : RTValue := 0xFFFC000000000000#64

/-- `RT_boxNull` -/
def boxNull : RTValue := 0xFFF9000000000000#64

/-- What the runtime does with objects other than maps. -/
structure Objects (Object : Type*) where
  bits : Object → RTValue
  type : Object → Nat
  hash : Object → Hash
  equals : Object → Object → Bool

/-- A value with all that it holds. -/
inductive Value (Object : Type*)
  | word (bits : RTValue)
  | object (object : Object)
  | map (bits : RTValue) (entries : List (Value Object × Value Object))

namespace Value

variable {Object : Type*}

mutual

/-- How many maps and entries there are in a value. -/
def size : Value Object → Nat
  | .word _ => 0
  | .object _ => 0
  | .map _ entries => 1 + sizeEntries entries

/-- The size of the keys and the values of a map. -/
def sizeEntries : List (Value Object × Value Object) → Nat
  | [] => 0
  | (key, value) :: entries => key.size + value.size + sizeEntries entries

end

/-- An entry is no larger than all of them. -/
theorem size_le_sizeEntries
    {entry : Value Object × Value Object}
    {entries : List (Value Object × Value Object)}
    (isEntry : entry ∈ entries) :
    entry.1.size + entry.2.size ≤ sizeEntries entries := by
  induction entries with
  | nil => cases isEntry
  | cons first entries inductionHypothesis =>
      rw [sizeEntries]
      rcases List.mem_cons.mp isEntry with isFirst | isLater
      · subst isFirst
        omega
      · have := inductionHypothesis isLater
        omega

/-- A key is smaller than the map. -/
theorem size_key_lt
    {bits : RTValue}
    {entries : List (Value Object × Value Object)}
    {entry : Value Object × Value Object}
    (isEntry : entry ∈ entries) : entry.1.size < (map bits entries).size := by
  have := size_le_sizeEntries isEntry
  rw [size]
  omega

/-- A value is smaller than the map. -/
theorem size_value_lt
    {bits : RTValue}
    {entries : List (Value Object × Value Object)}
    {entry : Value Object × Value Object}
    (isEntry : entry ∈ entries) : entry.2.size < (map bits entries).size := by
  have := size_le_sizeEntries isEntry
  rw [size]
  omega

/-- What holds of a map if it holds of its keys and values holds of every
value. -/
@[elab_as_elim]
theorem rec_entries
    {motive : Value Object → Prop}
    (word : ∀ bits, motive (.word bits))
    (object : ∀ object, motive (.object object))
    (map : ∀ bits entries,
      (∀ entry ∈ entries, motive entry.1 ∧ motive entry.2) →
      motive (.map bits entries))
    (value : Value Object) : motive value := by
  generalize isSize : value.size = n
  induction n using Nat.strong_induction_on generalizing value with
  | _ n inductionHypothesis =>
      subst isSize
      cases value with
      | word bits => exact word bits
      | object isObject => exact object isObject
      | map bits entries =>
          apply map
          intro entry isEntry
          exact ⟨inductionHypothesis _ (size_key_lt isEntry) _ rfl,
            inductionHypothesis _ (size_value_lt isEntry) _ rfl⟩

end Value

section Definitions

variable {Object : Type*} (objects : Objects Object)

/-- The word that stands for the value. -/
def rtValue : Value Object → RTValue
  | .word bits => bits
  | .object object => objects.bits object
  | .map bits _ => bits

/-- `hash` of a number, a truth value, nil or a keyword.  An `int32_t` is
extended with its sign. -/
def wordHash (bits : RTValue) : Hash :=
  if bits &&& 0xFFFF000000000000#64 = 0xFFFF000000000000#64 then
    avalanche ((bits.setWidth 32).signExtend 64)
  else if bits &&& 0xFFFF000000000000#64 = 0xFFFD000000000000#64 then
    avalanche (bits &&& 1)
  else if bits = boxNil then
    0xDEADBEEF
  else if bits &&& 0xFFFF000000000000#64 = 0xFFFB000000000000#64 then
    avalanche (bits &&& 0xFFFFFFFF#64)
  else
    avalanche bits

mutual

/-- `hash` -/
def hash : Value Object → Hash
  | .word bits => wordHash bits
  | .object object => objects.hash object
  | .map _ entries => hashEntries 5381 entries

/-- The loop of `PersistentArrayMap_hash`. -/
def hashEntries (h : Hash) : List (Value Object × Value Object) → Hash
  | [] => h
  | (key, value) :: entries =>
      hashEntries (h + (hash key ^^^ hash value)) entries

end

section Comparison

variable (equals : Value Object → Value Object → Bool)

/-- `PersistentArrayMap_get` -/
def get (entries : List (Value Object × Value Object)) (key : Value Object) :
    Value Object :=
  let retVal := (AssocList.get equals key entries).getD (.word boxNull)
  if rtValue objects retVal = boxNull then .word boxNil else retVal

/-- `PersistentArrayMap_equals` -/
def mapEquals (entries others : List (Value Object × Value Object)) : Bool :=
  entries.length == others.length &&
    entries.all fun entry => equals (get objects equals others entry.1) entry.2

/-- `equals`, `Object_equals` -/
def equalsStep (self other : Value Object) : Bool :=
  if rtValue objects self = rtValue objects other then
    true
  else
    match self, other with
    | .object left, .object right =>
        objects.type left == objects.type right &&
          objects.hash left == objects.hash right && objects.equals left right
    | .map _ entries, .map _ others =>
        hash objects self == hash objects other && mapEquals objects equals
          entries others
    | _, _ => false

end Comparison

/-- Comparisons that nest less deep than the given number. -/
def equalsUpTo : Nat → Value Object → Value Object → Bool
  | 0, _, _ => false
  | depth + 1, self, other => equalsStep objects (equalsUpTo depth) self other

/-- `equals` -/
def equals (self other : Value Object) : Bool :=
  equalsUpTo objects (self.size + other.size + 1) self other

end Definitions

section Unfolding

variable {Object : Type*} (objects : Objects Object)

/-- What is looked up is no larger than the entries. -/
theorem get_size_le
    (equals : Value Object → Value Object → Bool)
    (entries : List (Value Object × Value Object))
    (key : Value Object) :
    (get objects equals entries key).size ≤ Value.sizeEntries entries := by
  unfold get
  dsimp only
  split
  · exact Nat.zero_le _
  · cases found : AssocList.get equals key entries with
    | none => exact Nat.zero_le _
    | some value =>
        obtain ⟨entry, isEntry, _, isValue⟩ := AssocList.exists_mem_of_get found
        have := Value.size_le_sizeEntries isEntry
        rw [Option.getD_some, ← isValue]
        omega

/-- A comparison depends on comparisons of smaller values only. -/
theorem equalsStep_congr
    {first second : Value Object → Value Object → Bool}
    {self other : Value Object}
    (agree : ∀ left right : Value Object,
      left.size + right.size < self.size + other.size →
      first left right = second left right) :
    equalsStep objects first self other = equalsStep objects second self
      other := by
  unfold equalsStep
  split
  · rfl
  cases self with
  | word bits => rfl
  | object isObject => cases other <;> rfl
  | map bits entries =>
      cases other with
      | word bits => rfl
      | object isObject => rfl
      | map otherBits others =>
          simp only [Value.size] at agree
          have sameEntries : mapEquals objects first entries others =
              mapEquals objects second entries others := by
            unfold mapEquals
            congr 1
            rw [Bool.eq_iff_iff, List.all_eq_true, List.all_eq_true]
            apply forall₂_congr
            intro entry isEntry
            have entrySize := Value.size_le_sizeEntries isEntry
            have sameLookup : get objects first others entry.1 =
                get objects second others entry.1 := by
              unfold get
              rw [AssocList.get_congr]
              intro found isFound
              have foundSize := Value.size_le_sizeEntries isFound
              exact agree _ _ (by omega)
            have lookupSize := get_size_le objects second others entry.1
            rw [sameLookup, agree _ _ (by omega)]
          simp only [sameEntries]

/-- The depth does not matter if it is enough. -/
theorem equalsUpTo_congr
    {depth otherDepth : Nat}
    {self other : Value Object}
    (enough : self.size + other.size < depth)
    (alsoEnough : self.size + other.size < otherDepth) :
    equalsUpTo objects depth self other = equalsUpTo objects otherDepth self
      other := by
  induction depth generalizing otherDepth self other with
  | zero => cases enough
  | succ depth inductionHypothesis =>
      cases otherDepth with
      | zero => cases alsoEnough
      | succ otherDepth =>
          rw [equalsUpTo, equalsUpTo]
          apply equalsStep_congr
          intro left right smaller
          exact inductionHypothesis (by omega) (by omega)

/-- The depth that `equals` allows for is enough. -/
theorem equals_eq (self other : Value Object) :
    equals objects self other = equalsStep objects (equals objects) self
      other := by
  rw [equals, equalsUpTo]
  apply equalsStep_congr
  intro left right smaller
  exact equalsUpTo_congr objects smaller (Nat.lt_succ_self _)

/-- The loop adds up the hashes of the entries. -/
theorem hashEntries_eq (h : Hash)
    (entries : List (Value Object × Value Object)) :
    hashEntries objects h entries =
      h + (entries.map fun entry =>
        hash objects entry.1 ^^^ hash objects entry.2).sum := by
  induction entries generalizing h with
  | nil => simp [hashEntries]
  | cons entry entries inductionHypothesis =>
      rw [hashEntries, inductionHypothesis, List.map_cons, List.sum_cons,
        BitVec.add_assoc]

end Unfolding

/-! ## Extensional equality -/

section Extensional

variable {Object : Type*}

/-- The same associations, up to a comparison of keys and values. -/
def SameAssociations
    (Same : Value Object → Value Object → Prop)
    (entries others : List (Value Object × Value Object)) : Prop :=
  (∀ entry ∈ entries, ∃ other ∈ others, Same entry.1 other.1 ∧
    Same entry.2 other.2) ∧
    ∀ other ∈ others, ∃ entry ∈ entries, Same entry.1 other.1 ∧
      Same entry.2 other.2

variable (objects : Objects Object)

/-- Two objects other than maps are equal. -/
def SameObject (left right : Object) : Prop :=
  left = right ∨
    (objects.type left = objects.type right ∧
      objects.hash left = objects.hash right ∧
      objects.equals left right = true)

/-- Two values stand for the same: maps are the same if their associations
are. -/
def Same : Value Object → Value Object → Prop
  | .word left, .word right => left = right
  | .object left, .object right => SameObject objects left right
  | .map _ entries, .map _ others =>
      (∀ entry, ∀ _ : entry ∈ entries, ∃ other, ∃ _ : other ∈ others,
        Same entry.1 other.1 ∧ Same entry.2 other.2) ∧
      ∀ other, ∀ _ : other ∈ others, ∃ entry, ∃ _ : entry ∈ entries,
        Same entry.1 other.1 ∧ Same entry.2 other.2
  | _, _ => False
termination_by left right => left.size + right.size
decreasing_by
  all_goals
    rename_i isEntry
    have := Value.size_le_sizeEntries ‹_ ∈ entries›
    have := Value.size_le_sizeEntries ‹_ ∈ others›
    simp only [Value.size]
    omega

/-- Maps are the same if they associate the same. -/
@[simp]
theorem same_map_iff
    {bits otherBits : RTValue}
    {entries others : List (Value Object × Value Object)} :
    Same objects (.map bits entries) (.map otherBits others) ↔
      SameAssociations (Same objects) entries others := by
  unfold SameAssociations
  rw [Same]
  simp only [exists_prop]

/-- Words are the same if they are equal. -/
@[simp]
theorem same_word_iff {left right : RTValue} :
    Same objects (.word left) (.word right) ↔ left = right := by
  rw [Same]

/-- Objects are the same as their type says. -/
@[simp]
theorem same_object_iff {left right : Object} :
    Same objects (.object left) (.object right) ↔
      SameObject objects left right := by
  rw [Same]

/-- Apart from identity, the comparison of other objects is symmetric and
transitive. -/
structure Comparable : Prop where
  symm : ∀ first second, SameObject objects first second →
    SameObject objects second first
  trans : ∀ first second third, SameObject objects first second →
    SameObject objects second third → SameObject objects first third

/-- By induction on the value. -/
theorem Same.refl (value : Value Object) : Same objects value value := by
  induction value using Value.rec_entries with
  | word bits => exact (same_word_iff objects).mpr rfl
  | object isObject => exact (same_object_iff objects).mpr (Or.inl rfl)
  | map bits entries inductionHypothesis =>
      rw [same_map_iff]
      exact ⟨fun entry isEntry =>
        ⟨entry, isEntry, inductionHypothesis entry isEntry⟩,
        fun entry isEntry =>
          ⟨entry, isEntry, inductionHypothesis entry isEntry⟩⟩

variable {objects}

/-- Only values of one kind are the same. -/
theorem same_cases
    {left right : Value Object}
    (same : Same objects left right) :
    (∃ bits, left = .word bits ∧ right = .word bits) ∨
    (∃ first second, left = .object first ∧ right = .object second ∧
      SameObject objects first second) ∨
    ∃ bits entries otherBits others, left = .map bits entries ∧
      right = .map otherBits others ∧
      SameAssociations (Same objects) entries others := by
  cases left <;> cases right
  case word.word bits otherBits =>
    rw [same_word_iff] at same
    exact Or.inl ⟨bits, rfl, by rw [same]⟩
  case object.object first second =>
    exact Or.inr
      (Or.inl ⟨first, second, rfl, rfl, (same_object_iff objects).mp same⟩)
  case map.map bits entries otherBits others =>
    exact Or.inr (Or.inr ⟨bits, entries, otherBits, others, rfl, rfl,
      (same_map_iff objects).mp same⟩)
  all_goals
    simp [Same] at same

/-- By induction on the values. -/
theorem Same.symm
    (comparable : Comparable objects)
    {left right : Value Object}
    (same : Same objects left right) : Same objects right left := by
  induction left using Value.rec_entries generalizing right with
  | word bits =>
      obtain ⟨_, isLeft, rfl⟩ | ⟨_, _, isLeft, _⟩ | ⟨_, _, _, _, isLeft, _⟩ :=
        same_cases same
      · cases isLeft
        exact same
      all_goals cases isLeft
  | object isObject =>
      obtain ⟨_, isLeft, _⟩ | ⟨_, second, isLeft, rfl, isSame⟩ |
          ⟨_, _, _, _, isLeft, _⟩ :=
        same_cases same
      · cases isLeft
      · cases isLeft
        exact (same_object_iff objects).mpr (comparable.symm _ _ isSame)
      · cases isLeft
  | map bits entries inductionHypothesis =>
      obtain ⟨_, isLeft, _⟩ | ⟨_, _, isLeft, _⟩ |
          ⟨_, _, _, others, isLeft, rfl, there, back⟩ :=
        same_cases same
      · cases isLeft
      · cases isLeft
      cases isLeft
      rw [same_map_iff]
      constructor
      · intro other isOther
        obtain ⟨entry, isEntry, sameKey, sameValue⟩ := back other isOther
        exact ⟨entry, isEntry, (inductionHypothesis entry isEntry).1 sameKey,
          (inductionHypothesis entry isEntry).2 sameValue⟩
      · intro entry isEntry
        obtain ⟨other, isOther, sameKey, sameValue⟩ := there entry isEntry
        exact ⟨other, isOther, (inductionHypothesis entry isEntry).1 sameKey,
          (inductionHypothesis entry isEntry).2 sameValue⟩

/-- By induction on the values. -/
theorem Same.trans
    (comparable : Comparable objects)
    {first second third : Value Object}
    (same : Same objects first second)
    (alsoSame : Same objects second third) : Same objects first third := by
  induction first using Value.rec_entries generalizing second third with
  | word bits =>
      obtain ⟨_, isFirst, rfl⟩ | ⟨_, _, isFirst, _⟩ |
          ⟨_, _, _, _, isFirst, _⟩ :=
        same_cases same
      · rwa [isFirst]
      all_goals cases isFirst
  | object isObject =>
      obtain ⟨_, isFirst, _⟩ | ⟨_, _, isFirst, rfl, isSame⟩ |
          ⟨_, _, _, _, isFirst, _⟩ :=
        same_cases same
      · cases isFirst
      · cases isFirst
        obtain ⟨_, isSecond, _⟩ | ⟨_, _, isSecond, rfl, alsoIsSame⟩ |
          ⟨_, _, _, _, isSecond, _⟩ := same_cases alsoSame
        · cases isSecond
        · cases isSecond
          exact (same_object_iff objects).mpr
            (comparable.trans _ _ _ isSame alsoIsSame)
        · cases isSecond
      · cases isFirst
  | map bits entries inductionHypothesis =>
      obtain ⟨_, isFirst, _⟩ | ⟨_, _, isFirst, _⟩ |
          ⟨_, _, _, others, isFirst, rfl, there, back⟩ :=
        same_cases same
      · cases isFirst
      · cases isFirst
      cases isFirst
      obtain ⟨_, isSecond, _⟩ | ⟨_, _, isSecond, _⟩ |
        ⟨_, _, _, others, isSecond, rfl, later, laterBack⟩ :=
          same_cases alsoSame
      · cases isSecond
      · cases isSecond
      cases isSecond
      rw [same_map_iff]
      constructor
      · intro entry isEntry
        obtain ⟨other, isOther, sameKey, sameValue⟩ := there entry isEntry
        obtain ⟨last, isLast, lastKey, lastValue⟩ := later other isOther
        exact ⟨last, isLast,
          (inductionHypothesis entry isEntry).1 sameKey lastKey,
          (inductionHypothesis entry isEntry).2 sameValue lastValue⟩
      · intro last isLast
        obtain ⟨other, isOther, lastKey, lastValue⟩ := laterBack last isLast
        obtain ⟨entry, isEntry, sameKey, sameValue⟩ := back other isOther
        exact ⟨entry, isEntry,
          (inductionHypothesis entry isEntry).1 sameKey lastKey,
          (inductionHypothesis entry isEntry).2 sameValue lastValue⟩

/-- The values that are compared, with everything in them.  A word or an address
stands for one value, a map has no key twice, and none of its values is the
marker for no value. -/
structure Family (objects : Objects Object) (values : Set (Value Object)) :
    Prop where
  nil : .word boxNil ∈ values
  entry : ∀ bits entries, .map bits entries ∈ values → ∀ entry ∈ entries,
    entry.1 ∈ values ∧ entry.2 ∈ values
  bits : ∀ left ∈ values, ∀ right ∈ values,
    rtValue objects left = rtValue objects right →
    left = right
  noNull : ∀ value ∈ values, rtValue objects value ≠ boxNull
  distinct : ∀ bits entries, .map bits entries ∈ values →
    entries.Pairwise fun first second => ¬ Same objects first.1 second.1

/-- Two entries have no common partner. -/
theorem partner_apart
    (comparable : Comparable objects)
    (first second partner : Value Object × Value Object)
    (isPartner : Same objects first.1 partner.1 ∧
      Same objects first.2 partner.2)
    (alsoPartner : Same objects second.1 partner.1 ∧
      Same objects second.2 partner.2) :
    Same objects first.1 second.1 :=
  isPartner.1.trans comparable (alsoPartner.1.symm comparable)

/-- Maps with the same associations have equally many entries. -/
theorem SameAssociations.length_eq
    (comparable : Comparable objects)
    {entries others : List (Value Object × Value Object)}
    (distinct : entries.Pairwise fun first second =>
      ¬ Same objects first.1 second.1)
    (otherDistinct : others.Pairwise fun first second =>
      ¬ Same objects first.1 second.1)
    (same : SameAssociations (Same objects) entries others) :
    entries.length = others.length := by
  apply Nat.le_antisymm
  · exact Matching.length_le (partner_apart comparable) distinct same.1
  · apply Matching.length_le (partner_apart comparable) otherDistinct
    intro other isOther
    obtain ⟨entry, isEntry, sameKey, sameValue⟩ := same.2 other isOther
    exact ⟨entry, isEntry, sameKey.symm comparable, sameValue.symm comparable⟩

/-- Values that are the same have the same hash. -/
theorem Same.hash_eq
    (comparable : Comparable objects)
    {values : Set (Value Object)}
    (family : Family objects values)
    {left right : Value Object}
    (isLeft : left ∈ values)
    (isRight : right ∈ values)
    (same : Same objects left right) :
    hash objects left = hash objects right := by
  induction left using Value.rec_entries generalizing right with
  | word bits =>
      obtain ⟨_, isWord, rfl⟩ | ⟨_, _, isWord, _⟩ | ⟨_, _, _, _, isWord, _⟩ :=
        same_cases same
      · rw [isWord]
      all_goals cases isWord
  | object isObject =>
      obtain ⟨_, isWord, _⟩ | ⟨_, _, isFirst, rfl, isSame⟩ |
          ⟨_, _, _, _, isMap, _⟩ :=
        same_cases same
      · cases isWord
      · cases isFirst
        rw [hash, hash]
        rcases isSame with identical | equal
        · rw [identical]
        · exact equal.2.1
      · cases isMap
  | map bits entries inductionHypothesis =>
      obtain ⟨_, isWord, _⟩ | ⟨_, _, isObject, _⟩ |
          ⟨_, _, _, others, isMap, rfl, associations⟩ :=
        same_cases same
      · cases isWord
      · cases isObject
      cases isMap
      have distinct := family.distinct _ _ isLeft
      have otherDistinct := family.distinct _ _ isRight
      have length := associations.length_eq comparable distinct otherDistinct
      obtain ⟨partners, permuted, matched⟩ := Matching.exists_perm
        (partner_apart comparable)
        distinct associations.1 (Nat.le_of_eq length.symm)
      rw [hash, hash, hashEntries_eq, hashEntries_eq, (permuted.map _).sum_eq]
      congr 2
      apply Matching.map_eq_map matched
      intro entry isEntry partner isPartner isSame
      have inValues := family.entry _ _ isLeft entry isEntry
      have partnerInValues :=
        family.entry _ _ isRight partner (permuted.mem_iff.mpr isPartner)
      rw [(inductionHypothesis entry isEntry).1 inValues.1 partnerInValues.1
        isSame.1,
        (inductionHypothesis entry isEntry).2 inValues.2 partnerInValues.2
        isSame.2]

/-! ## Lookups -/

/-- On values that are smaller than a pair, `equals` compares what values stand
for. -/
def AgreesBelow (objects : Objects Object) (values : Set (Value Object))
    (bound : Nat) : Prop :=
  ∀ left ∈ values, ∀ right ∈ values, left.size + right.size < bound →
    (equals objects left right = true ↔ Same objects left right)

/-- The key is not in the map. -/
def Missing
    (objects : Objects Object)
    (key : Value Object)
    (others : List (Value Object × Value Object)) : Prop :=
  ∀ other ∈ others, ¬ Same objects key other.1

section Lookups

variable
  {values : Set (Value Object)}
  {bits otherBits : RTValue}
  {entries others : List (Value Object × Value Object)}

/-- Only nil is the same as nil. -/
theorem same_nil_iff {value : Value Object} :
    Same objects (.word boxNil) value ↔ value = .word boxNil := by
  cases value with
  | word bits =>
      rw [same_word_iff, Value.word.injEq]
      exact eq_comm
  | object isObject => simp [Same]
  | map bits entries => simp [Same]

/-- The lookup finds the value of a key that is there. -/
theorem get_of_mem
    (comparable : Comparable objects)
    (family : Family objects values)
    {key : Value Object}
    (isOther : .map otherBits others ∈ values)
    (agrees : ∀ other ∈ others, equals objects key other.1 = true ↔
      Same objects key other.1)
    {other : Value Object × Value Object}
    (isEntry : other ∈ others)
    (same : Same objects key other.1) :
    get objects (equals objects) others key = other.2 := by
  have distinct := family.distinct _ _ isOther
  have noNull := family.noNull _ (family.entry _ _ isOther other isEntry).2
  have found : AssocList.get (equals objects) key others = some other.2 := by
    clear isOther noNull
    induction others with
    | nil => cases isEntry
    | cons first later inductionHypothesis =>
        rw [List.pairwise_cons] at distinct
        rw [AssocList.get_cons]
        rcases List.mem_cons.mp isEntry with isFirst | isLater
        · subst isFirst
          rw [if_pos ((agrees other List.mem_cons_self).mpr same)]
        · have notFirst : ¬ equals objects key first.1 = true := by
            rw [agrees first List.mem_cons_self]
            intro alsoSame
            exact distinct.1 other isLater
              ((alsoSame.symm comparable).trans comparable same)
          rw [if_neg notFirst]
          apply inductionHypothesis _ isLater distinct.2
          intro final isFinal
          exact agrees final (List.mem_cons_of_mem _ isFinal)
  unfold get
  rw [found]
  exact if_neg noNull

/-- A key that is missing gives nil. -/
theorem get_of_missing
    {key : Value Object}
    (agrees : ∀ other ∈ others, equals objects key other.1 = true ↔
      Same objects key other.1)
    (missing : Missing objects key others) :
    get objects (equals objects) others key = .word boxNil := by
  have notFound : AssocList.get (equals objects) key others = none := by
    rw [AssocList.get_eq_none_iff]
    intro other isOther
    rw [← Bool.not_eq_true, agrees other isOther]
    exact missing other isOther
  unfold get
  rw [notFound]
  rfl

/-- The comparison of maps: a key that is missing has the value nil. -/
theorem equals_map_iff
    (comparable : Comparable objects)
    (family : Family objects values)
    (isMap : .map bits entries ∈ values)
    (isOther : .map otherBits others ∈ values)
    (agrees : AgreesBelow objects values
      ((Value.map bits entries).size + (Value.map otherBits others).size)) :
    equals objects (.map bits entries) (.map otherBits others) = true ↔
      (Value.map bits entries = .map otherBits others ∨
        (hash objects (.map bits entries) =
          hash objects (.map otherBits others) ∧
          entries.length = others.length ∧
          ∀ entry ∈ entries,
            (∃ other ∈ others, Same objects entry.1 other.1 ∧
              Same objects entry.2 other.2) ∨
              (entry.2 = .word boxNil ∧ Missing objects entry.1 others))) := by
  have lookup (entry : Value Object × Value Object)
      (isEntry : entry ∈ entries) :
      equals objects (get objects (equals objects) others entry.1)
        entry.2 = true ↔
        ((∃ other ∈ others, Same objects entry.1 other.1 ∧
          Same objects entry.2 other.2) ∨
          (entry.2 = .word boxNil ∧ Missing objects entry.1 others)) := by
    have inValues := family.entry _ _ isMap entry isEntry
    have keySmall : entry.1.size < (Value.map bits entries).size :=
      Value.size_key_lt isEntry
    have valueSmall : entry.2.size < (Value.map bits entries).size :=
      Value.size_value_lt isEntry
    have keysAgree (other : Value Object × Value Object)
        (isAnother : other ∈ others) :
        equals objects entry.1 other.1 = true ↔ Same objects entry.1 other.1 :=
      agrees _ inValues.1 _ (family.entry _ _ isOther other isAnother).1
        (Nat.add_lt_add keySmall (Value.size_key_lt isAnother))
    by_cases missing : Missing objects entry.1 others
    · have nilAgrees :=
        agrees _ family.nil _ inValues.2 (by rw [Value.size]; omega)
      rw [get_of_missing keysAgree missing, nilAgrees, same_nil_iff]
      constructor
      · intro isNil
        exact Or.inr ⟨isNil, missing⟩
      · rintro (⟨other, isAnother, sameKey, _⟩ | ⟨isNil, _⟩)
        · exact absurd sameKey (missing other isAnother)
        · exact isNil
    · have valuesAgree (other : Value Object × Value Object)
          (isAnother : other ∈ others)
          (sameKey : Same objects entry.1 other.1) :
          equals objects (get objects (equals objects) others entry.1)
            entry.2 = true ↔
            Same objects other.2 entry.2 := by
        rw [get_of_mem comparable family isOther keysAgree isAnother sameKey]
        apply agrees _ (family.entry _ _ isOther other isAnother).2 _ inValues.2
        rw [Nat.add_comm]
        exact Nat.add_lt_add valueSmall (Value.size_value_lt isAnother)
      constructor
      · intro equal
        simp only [Missing, not_forall, not_not] at missing
        obtain ⟨other, isAnother, sameKey⟩ := missing
        have sameValue := (valuesAgree other isAnother sameKey).mp equal
        exact Or.inl ⟨other, isAnother, sameKey, sameValue.symm comparable⟩
      · rintro (⟨other, isAnother, sameKey, sameValue⟩ | ⟨_, isMissing⟩)
        · exact (valuesAgree other isAnother sameKey).mpr
            (sameValue.symm comparable)
        · exact absurd isMissing missing
  rw [equals_eq]
  unfold equalsStep
  by_cases same : Value.map bits entries = .map otherBits others
  · rw [if_pos (by rw [same])]
    exact iff_of_true rfl (Or.inl same)
  have different :
      rtValue objects (.map bits entries) ≠ rtValue objects
      (.map otherBits others) :=
    fun identical => same (family.bits _ isMap _ isOther identical)
  rw [if_neg different, or_iff_right same]
  change (_ && mapEquals objects (equals objects) entries others) = true ↔ _
  rw [Bool.and_eq_true, beq_iff_eq, mapEquals, Bool.and_eq_true, beq_iff_eq,
    List.all_eq_true]
  apply and_congr_right
  intro _
  apply and_congr_right
  intro _
  exact forall₂_congr lookup

end Lookups

/-! ## What goes wrong, and what does not -/

variable {values : Set (Value Object)}

/-- Two maps with one count and one hash that differ only in keys with the value
nil. -/
structure Confused
    (objects : Objects Object)
    (entries others : List (Value Object × Value Object)) : Prop where
  length : entries.length = others.length
  hash : hashEntries objects 5381 entries = hashEntries objects 5381 others
  found : ∀ entry ∈ entries,
    (∃ other ∈ others, Same objects entry.1 other.1 ∧
      Same objects entry.2 other.2) ∨
      (entry.2 = .word boxNil ∧ Missing objects entry.1 others)
  missing : ∃ entry ∈ entries, Missing objects entry.1 others

/-- `equals` is extensional on the maps of the family, symmetric and transitive,
and equal maps have equal hashes. -/
structure EqualityRight (objects : Objects Object)
    (values : Set (Value Object)) : Prop where
  extensional : ∀ bits entries otherBits others,
    .map bits entries ∈ values → .map otherBits others ∈ values →
    (equals objects (.map bits entries) (.map otherBits others) = true ↔
      SameAssociations (fun left right => equals objects left right = true)
        entries others)
  symm : ∀ bits entries otherBits others,
    .map bits entries ∈ values → .map otherBits others ∈ values →
    equals objects (.map bits entries) (.map otherBits others) = true →
    equals objects (.map otherBits others) (.map bits entries) = true
  trans : ∀ bits entries otherBits others lastBits last,
    .map bits entries ∈ values → .map otherBits others ∈ values →
      .map lastBits last ∈ values →
    equals objects (.map bits entries) (.map otherBits others) = true →
    equals objects (.map otherBits others) (.map lastBits last) = true →
    equals objects (.map bits entries) (.map lastBits last) = true
  hash : ∀ bits entries otherBits others,
    .map bits entries ∈ values → .map otherBits others ∈ values →
    equals objects (.map bits entries) (.map otherBits others) = true →
    hash objects (.map bits entries) = hash objects (.map otherBits others)

/-- If the comparison of maps is right where that of smaller values is, then it
is right. -/
theorem equals_iff_same_of_maps
    (family : Family objects values)
    (maps : ∀ bits entries otherBits others,
      .map bits entries ∈ values → .map otherBits others ∈ values →
      AgreesBelow objects values ((Value.map bits entries).size +
        (Value.map otherBits others).size) →
      (equals objects (.map bits entries) (.map otherBits others) = true ↔
        SameAssociations (Same objects) entries others))
    {left right : Value Object}
    (isLeft : left ∈ values)
    (isRight : right ∈ values) :
    equals objects left right = true ↔ Same objects left right := by
  generalize isSize : left.size + right.size = n
  induction n using Nat.strong_induction_on generalizing left right with
  | _ n inductionHypothesis =>
      by_cases same : left = right
      · subst same
        refine iff_of_true ?_ (Same.refl objects left)
        rw [equals_eq]
        unfold equalsStep
        rw [if_pos rfl]
      have different : rtValue objects left ≠ rtValue objects right :=
        fun identical => same (family.bits left isLeft right isRight identical)
      cases left <;> cases right
      case map.map bits entries otherBits others =>
        rw [same_map_iff]
        apply maps bits entries otherBits others isLeft isRight
        intro first isFirst second isSecond smaller
        exact inductionHypothesis _ (by omega) isFirst isSecond rfl
      all_goals
        rw [equals_eq]
        unfold equalsStep
        rw [if_neg different]
      case word.word bits otherBits =>
        rw [same_word_iff]
        exact iff_of_false (by simp) different
      case object.object first second =>
        have notIdentical : first ≠ second :=
          fun identical => same (by rw [identical])
        rw [same_object_iff, SameObject, or_iff_right notIdentical]
        simp [and_assoc]
      all_goals
        simp [Same]

/-- Without confused maps, `equals` compares what values stand for. -/
theorem equals_iff_same
    (comparable : Comparable objects)
    (family : Family objects values)
    (clear : ∀ bits entries otherBits others,
      .map bits entries ∈ values → .map otherBits others ∈ values →
      ¬ Confused objects entries others)
    {left right : Value Object}
    (isLeft : left ∈ values)
    (isRight : right ∈ values) :
    equals objects left right = true ↔ Same objects left right := by
  apply equals_iff_same_of_maps family ?_ isLeft isRight
  intro bits entries otherBits others isMap isOther agrees
  rw [equals_map_iff comparable family isMap isOther agrees,
    ← same_map_iff objects]
  constructor
  · rintro (identical | ⟨sameHash, length, found⟩)
    · rw [identical]
      exact Same.refl objects _
    have allFound (entry : Value Object × Value Object)
        (isEntry : entry ∈ entries) :
        ∃ other ∈ others, Same objects entry.1 other.1 ∧
          Same objects entry.2 other.2 := by
      rcases found entry isEntry with isFound | ⟨_, missing⟩
      · exact isFound
      · exact absurd ⟨length, sameHash, found, entry, isEntry, missing⟩
          (clear bits entries otherBits others isMap isOther)
    rw [same_map_iff]
    refine ⟨allFound, fun other isAnother => ?_⟩
    exact Matching.found_back (partner_apart comparable)
      (family.distinct _ _ isMap) allFound (Nat.le_of_eq length.symm) isAnother
  · intro same
    have associations := (same_map_iff objects).mp same
    refine Or.inr ⟨same.hash_eq comparable family isMap isOther, ?_, ?_⟩
    · exact associations.length_eq comparable (family.distinct _ _ isMap)
        (family.distinct _ _ isOther)
    · intro entry isEntry
      exact Or.inl (associations.1 entry isEntry)

/-- Where keys and values are compared rightly, maps have the same associations
either way. -/
theorem sameAssociations_equals_iff
    {bits otherBits : RTValue}
    {entries others : List (Value Object × Value Object)}
    (family : Family objects values)
    (isMap : .map bits entries ∈ values)
    (isOther : .map otherBits others ∈ values)
    (agrees : AgreesBelow objects values
      ((Value.map bits entries).size + (Value.map otherBits others).size)) :
    SameAssociations (fun left right => equals objects left right = true)
      entries others ↔
      SameAssociations (Same objects) entries others := by
  have agree (entry other : Value Object × Value Object)
      (isEntry : entry ∈ entries)
      (isAnother : other ∈ others) :
      (equals objects entry.1 other.1 = true ∧
        equals objects entry.2 other.2 = true) ↔
        (Same objects entry.1 other.1 ∧ Same objects entry.2 other.2) := by
    have inValues := family.entry _ _ isMap entry isEntry
    have otherInValues := family.entry _ _ isOther other isAnother
    apply and_congr
    · exact agrees _ inValues.1 _ otherInValues.1
        (Nat.add_lt_add (Value.size_key_lt isEntry)
          (Value.size_key_lt isAnother))
    · exact agrees _ inValues.2 _ otherInValues.2
        (Nat.add_lt_add (Value.size_value_lt isEntry)
          (Value.size_value_lt isAnother))
  apply and_congr
  · apply forall₂_congr
    intro entry isEntry
    apply exists_congr
    intro other
    apply and_congr_right
    exact agree entry other isEntry
  · apply forall₂_congr
    intro other isAnother
    apply exists_congr
    intro entry
    apply and_congr_right
    intro isEntry
    exact agree entry other isEntry isAnother

/-- Where `equals` is extensional, it compares what values stand for. -/
theorem EqualityRight.equals_iff_same
    (family : Family objects values)
    (right : EqualityRight objects values)
    {first second : Value Object}
    (isFirst : first ∈ values)
    (isSecond : second ∈ values) :
    equals objects first second = true ↔ Same objects first second := by
  apply equals_iff_same_of_maps family ?_ isFirst isSecond
  intro bits entries otherBits others isMap isOther agrees
  rw [right.extensional bits entries otherBits others isMap isOther]
  exact sameAssociations_equals_iff family isMap isOther agrees

/-- A family with confused maps is not compared rightly. -/
theorem EqualityRight.not_confused
    (comparable : Comparable objects)
    (family : Family objects values)
    (right : EqualityRight objects values)
    {bits otherBits : RTValue}
    {entries others : List (Value Object × Value Object)}
    (isMap : .map bits entries ∈ values)
    (isOther : .map otherBits others ∈ values) :
    ¬ Confused objects entries others := by
  intro confused
  have agree {first second : Value Object} (isFirst : first ∈ values)
      (isSecond : second ∈ values) :=
        right.equals_iff_same family isFirst isSecond
  have equal : equals objects (.map bits entries) (.map otherBits others) =
      true := by
    rw [equals_map_iff comparable family isMap isOther
      (fun _ isFirst _ isSecond _ => agree isFirst isSecond)]
    exact Or.inr ⟨confused.hash, confused.length, confused.found⟩
  rw [agree isMap isOther, same_map_iff] at equal
  obtain ⟨entry, isEntry, missing⟩ := confused.missing
  obtain ⟨other, isAnother, sameKey, _⟩ := equal.1 entry isEntry
  exact missing other isAnother sameKey

/-- `equals` is right on a family exactly if no two maps of it are confused. -/
theorem equalityRight_iff
    (comparable : Comparable objects)
    (family : Family objects values) :
    EqualityRight objects values ↔
      ∀ bits entries otherBits others,
        .map bits entries ∈ values → .map otherBits others ∈ values →
        ¬ Confused objects entries others := by
  constructor
  · intro right bits entries otherBits others isMap isOther
    exact right.not_confused comparable family isMap isOther
  · intro clear
    have agree {first second : Value Object} (isFirst : first ∈ values)
        (isSecond : second ∈ values) :=
      equals_iff_same comparable family clear isFirst isSecond
    constructor
    · intro bits entries otherBits others isMap isOther
      rw [agree isMap isOther, same_map_iff,
        sameAssociations_equals_iff family isMap isOther]
      exact fun _ isFirst _ isSecond _ => agree isFirst isSecond
    · intro bits entries otherBits others isMap isOther equal
      rw [agree isMap isOther] at equal
      rw [agree isOther isMap]
      exact equal.symm comparable
    · intro bits entries otherBits others lastBits last isMap isOther isLast equal alsoEqual
      rw [agree isMap isOther] at equal
      rw [agree isOther isLast] at alsoEqual
      rw [agree isMap isLast]
      exact equal.trans comparable alsoEqual
    · intro bits entries otherBits others isMap isOther equal
      rw [agree isMap isOther] at equal
      exact equal.hash_eq comparable family isMap isOther

end Extensional

/-! ## Maps with strings for keys -/

/-- Strings at an address.  Their comparison is that of their characters. -/
def strings : Objects (RTValue × List Strings.Byte) where
  bits string := string.1
  type _ := 1
  hash string := Strings.hashOf string.2
  equals left right := decide (left.2 = right.2)

/-- Strings are the same if their characters are. -/
theorem sameObject_strings_iff (left right : RTValue × List Strings.Byte) :
    SameObject strings left right ↔ left.2 = right.2 := by
  constructor
  · rintro (identical | ⟨_, _, equal⟩)
    · rw [identical]
    · exact of_decide_eq_true equal
  · intro equal
    refine Or.inr ⟨rfl, ?_, decide_eq_true equal⟩
    simp only [strings, equal]

/-- Strings compare as an equivalence, and with their hashes. -/
theorem comparable_strings : Comparable strings where
  symm := by
    intro first second same
    rw [sameObject_strings_iff] at same ⊢
    exact same.symm
  trans := by
    intro first second third same alsoSame
    rw [sameObject_strings_iff] at same alsoSame ⊢
    exact same.trans alsoSame

/-- The string "ab" -/
def ab : Value (RTValue × List Strings.Byte) :=
  .object (0xFFFE000000001000#64, [97, 98])

/-- The string "ba" -/
def ba : Value (RTValue × List Strings.Byte) :=
  .object (0xFFFE000000002000#64, [98, 97])

/-- `{"ab" nil}`, `{"ba" nil}` and what is in them. -/
def twoMaps : Set (Value (RTValue × List Strings.Byte)) := fun value =>
  value = .word boxNil ∨ value = ab ∨ value = ba ∨
    value = .map 0xFFFE000000003000#64 [(ab, .word boxNil)] ∨
    value = .map 0xFFFE000000004000#64 [(ba, .word boxNil)]

/-- The two maps, their keys and their values. -/
theorem family_twoMaps : Family strings twoMaps where
  nil := Or.inl rfl
  entry := by
    rintro bits entries (isNil | isAb | isBa | isFirst | isSecond)
    · cases isNil
    · cases isAb
    · cases isBa
    · cases isFirst
      intro entry isEntry
      rw [List.mem_singleton.mp isEntry]
      exact ⟨Or.inr (Or.inl rfl), Or.inl rfl⟩
    · cases isSecond
      intro entry isEntry
      rw [List.mem_singleton.mp isEntry]
      exact ⟨Or.inr (Or.inr (Or.inl rfl)), Or.inl rfl⟩
  bits := by
    rintro left (rfl | rfl | rfl | rfl | rfl) right (rfl | rfl | rfl |
      rfl | rfl)
    all_goals
      intro same
      first | rfl | exact absurd same (by decide)
  noNull := by
    rintro value (rfl | rfl | rfl | rfl | rfl) <;> decide
  distinct := by
    rintro bits entries (isNil | isAb | isBa | isFirst | isSecond)
    · cases isNil
    · cases isAb
    · cases isBa
    · cases isFirst
      exact List.pairwise_singleton _ _
    · cases isSecond
      exact List.pairwise_singleton _ _

/-- The two maps. -/
theorem equalityRight_iff_twoMaps :
    EqualityRight strings twoMaps ↔
      ∀ bits entries otherBits others,
        .map bits entries ∈ twoMaps → .map otherBits others ∈ twoMaps →
        ¬ Confused strings entries others :=
  equalityRight_iff comparable_strings family_twoMaps

/-- The key is missing in the other map. -/
theorem missing_ab : Missing strings ab [(ba, .word boxNil)] := by
  intro other isOther
  rw [List.mem_singleton.mp isOther, ab, ba, same_object_iff,
    sameObject_strings_iff]
  decide

/-- The strings have one hash, so the maps are equal for the code. -/
theorem twoMaps_not_equalityRight :
    ¬ ∀ values : Set (Value (RTValue × List Strings.Byte)),
      Family strings values → EqualityRight strings values := by
  intro right
  have confused :
      Confused strings [(ab, .word boxNil)] [(ba, .word boxNil)] := by
    refine ⟨rfl,
      by decide, ?_, (ab, .word boxNil), List.mem_singleton_self _, missing_ab⟩
    intro entry isEntry
    rw [List.mem_singleton.mp isEntry]
    exact Or.inr ⟨rfl, missing_ab⟩
  exact (right twoMaps family_twoMaps).not_confused comparable_strings
    family_twoMaps (Or.inr (Or.inr (Or.inr (Or.inl rfl))))
    (Or.inr (Or.inr (Or.inr (Or.inr rfl)))) confused

end ArrayMap
end Runtime
end ClojureRt
