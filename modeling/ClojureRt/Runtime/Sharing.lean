import Mathlib.Data.List.Basic
import Mathlib.Data.Nat.Bitwise
import Mathlib.Logic.Relation

/-!
# Promotion to shared objects

An object that other threads may see is counted atomically, which its lowest bit
of the count says.  `promoteToShared` sets the bit of an object and of what it
refers to, and stops at an object that has it.

The owned references of an object are those its destructor releases.  Promotion
does not follow all of them: it leaves out the metadata of vectors and lists,
everything a symbol or a compound string owns and the vector of a reverse seq.
-/

namespace ClojureRt
namespace Runtime
namespace Sharing

/-- The address of an object. -/
abbrev Address := Nat

/-- An `RTValue`: everything that is not a pointer is kept in the word
itself. -/
inductive RTValue
  | immediate (word : Nat)
  | pointer (address : Address)
  deriving DecidableEq

/-- The word of nil. -/
def RTValue.boxNil : RTValue :=
  .immediate 0

/-- The representations of a string; a compound one owns the vector of its
parts. -/
inductive SpecialisedString
  | staticString
  | dynamicString
  | compoundString (vector : Address)

/-- `NodeType` -/
inductive NodeType
  | leafNode
  | internalNode
  deriving DecidableEq

/-- An object by its type, with the fields that refer to others.  Of a function
there are the values closed over by each method, as far as its count reaches.
The types without a case of their own in `Object_promoteToShared`, other than
strings, symbols and reverse seqs, are `other`. -/
inductive Object
  | string (specialisation : SpecialisedString)
  | symbol (name : Address) (ns : Option Address) (metadata : RTValue)
  | persistentList (first : RTValue) (rest : Option Address)
      (metadata : RTValue)
  | persistentVector (transientID : Nat) (tail root : Option Address)
      (metadata : RTValue)
  | persistentVectorNode (type : NodeType) (transientID : Nat)
      (array : List RTValue)
  | persistentArrayMap (entries : List (RTValue × RTValue)) (metadata : RTValue)
  | function (once executed : Bool) (methods : List (List RTValue))
  | persistentVectorChunkedSeq (parent : Address)
  | arrayChunk (node : Address)
  | persistentVectorReverseSeq (v : Address)
  | namespace (name : Address) (mappings aliases : RTValue)
  | other (owned : List RTValue)

/-- A pointer that may be `NULL`. -/
def ofPointer : Option Address → List RTValue
  | some address => [.pointer address]
  | none => []

/-- What the destructor of an object releases.  A `:once` function that has run
has released what it closed over. -/
def Object.owned : Object → List RTValue
  | .string (.compoundString vector) => [.pointer vector]
  | .string _ => []
  | .symbol name ns metadata => .pointer name :: ofPointer ns ++ [metadata]
  | .persistentList first rest metadata => ofPointer rest ++ [first, metadata]
  | .persistentVector _ tail root metadata =>
      ofPointer root ++ ofPointer tail ++ [metadata]
  | .persistentVectorNode _ _ array => array
  | .persistentArrayMap entries metadata =>
      (entries.flatMap fun entry => [entry.1, entry.2]) ++ [metadata]
  | .function once executed methods =>
      if once && executed then [] else methods.flatten
  | .persistentVectorChunkedSeq parent => [.pointer parent]
  | .arrayChunk node => [.pointer node]
  | .persistentVectorReverseSeq v => [.pointer v]
  | .namespace name mappings aliases => [.pointer name, mappings, aliases]
  | .other owned => owned

/-- The objects and their reference counts. -/
structure Heap where
  objects : Address → Object
  rawRefCount : Address → Nat

/-- `SHARED_BIT`. -/
def sharedBit (count : Nat) : Bool :=
  count.testBit 0

/-- The lowest bit of the count says that an object is shared. -/
def Heap.Shared (heap : Heap) (address : Address) : Prop :=
  sharedBit (heap.rawRefCount address) = true

instance (heap : Heap) (address : Address) : Decidable (heap.Shared address) :=
  inferInstanceAs (Decidable (_ = _))

/-- The result of running C code: a normal return, an exception, a read of
memory that was freed or of another type, or no result within the fuel. -/
inductive Outcome
  | returned (heap : Heap)
  | thrown (message : String) (heap : Heap)
  | undefined
  | outOfFuel

/-- What comes next, where nothing was thrown. -/
def Outcome.bind (outcome : Outcome) (next : Heap → Outcome) : Outcome :=
  match outcome with
  | .returned heap => next heap
  | stopped => stopped

/-- `Object_promoteToSharedShallow`. -/
def promoteToSharedShallow (self : Address) (current : Nat)
    (heap : Heap) : Heap :=
  if sharedBit current then heap
  else { heap with rawRefCount := Function.update heap.rawRefCount self (current
    ||| 1) }

/-! ## The types that follow references -/

section Types

variable (promoteObject : Address → Heap → Outcome)

/-- `promoteToShared` on a value. -/
def promoteValue (value : RTValue) (heap : Heap) : Outcome :=
  match value with
  | .pointer address => promoteObject address heap
  | .immediate _ => .returned heap

/-- Values promoted one after the other. -/
def promoteAll : List RTValue → Heap → Outcome
  | [], heap => .returned heap
  | value :: values, heap =>
      (promoteValue promoteObject value heap).bind (promoteAll values)

/-- `PersistentVector_promoteToShared`. -/
def persistentVectorPromoteToShared
    (self : Address)
    (transientID : Nat)
    (tail root : Option Address)
    (current : Nat)
    (heap : Heap) :
    Outcome :=
  if sharedBit current then .returned heap
  else if transientID ≠ 0 then .thrown "Cannot share a transient vector" heap
  else
    (promoteAll promoteObject (ofPointer root) heap).bind fun heap =>
      (promoteAll promoteObject (ofPointer tail) heap).bind fun heap =>
        .returned (promoteToSharedShallow self current heap)

/-- `PersistentVectorNode_promoteToShared`.  Its loops for leaves and for inner
nodes are the same. -/
def persistentVectorNodePromoteToShared
    (self : Address)
    (type : NodeType)
    (transientID : Nat)
    (array : List RTValue)
    (current : Nat)
    (heap : Heap) :
    Outcome :=
  if sharedBit current then .returned heap
  else if transientID ≠ 0 then .thrown "Cannot share a transient vector node" heap
  else
    (match type with
      | .leafNode => promoteAll promoteObject array heap
      | .internalNode => promoteAll promoteObject array heap).bind fun heap =>
        .returned (promoteToSharedShallow self current heap)

/-- `PersistentArrayMap_promoteToShared`. -/
def persistentArrayMapPromoteToShared
    (self : Address)
    (entries : List (RTValue × RTValue))
    (metadata : RTValue)
    (current : Nat)
    (heap : Heap) :
    Outcome :=
  if sharedBit current then .returned heap
  else
    (promoteAll promoteObject (entries.flatMap fun entry => [entry.1, entry.2])
      heap).bind
      fun heap =>
        (promoteValue promoteObject metadata heap).bind fun heap =>
          .returned (promoteToSharedShallow self current heap)

/-- `Function_promoteToShared`.  `Function_cleanupOnce` has freed the arrays of
a `:once` function that has run. -/
def functionPromoteToShared
    (self : Address)
    (once executed : Bool)
    (methods : List (List RTValue))
    (count : Nat)
    (heap : Heap) :
    Outcome :=
  if once && executed && !methods.flatten.isEmpty then .undefined
  else
    (promoteAll promoteObject methods.flatten heap).bind fun heap =>
      .returned (promoteToSharedShallow self count heap)

/-- The cases for a chunked seq and an array chunk. -/
def promoteParentToShared
    (self parent : Address)
    (count : Nat)
    (heap : Heap) :
    Outcome :=
  (promoteObject parent heap).bind fun heap =>
    .returned (promoteToSharedShallow self count heap)

/-- `Namespace_promoteToShared`, which sets its own bit first. -/
def namespacePromoteToShared
    (self name : Address)
    (mappings aliases : RTValue)
    (count : Nat)
    (heap : Heap) :
    Outcome :=
  promoteAll promoteObject [.pointer name, mappings, aliases]
    (promoteToSharedShallow self count heap)

end Types

mutual

/-- `Object_promoteToShared`. -/
def objectPromoteToShared : Nat → Address → Heap → Outcome
  | 0, _, _ => .outOfFuel
  | fuel + 1, self, heap =>
      let count := heap.rawRefCount self
      if sharedBit count then .returned heap
      else
        match heap.objects self with
        | .persistentList .. =>
            persistentListPromoteToShared fuel (some self) count heap
        | .persistentArrayMap entries metadata =>
            persistentArrayMapPromoteToShared (objectPromoteToShared fuel) self
              entries metadata count heap
        | .persistentVector transientID tail root _ =>
            persistentVectorPromoteToShared (objectPromoteToShared fuel) self
              transientID tail root count heap
        | .persistentVectorNode type transientID array =>
            persistentVectorNodePromoteToShared (objectPromoteToShared fuel)
              self type transientID array count heap
        | .function once executed methods =>
            functionPromoteToShared (objectPromoteToShared fuel) self once
              executed methods count heap
        | .persistentVectorChunkedSeq parent =>
            promoteParentToShared (objectPromoteToShared fuel) self parent
              count heap
        | .arrayChunk node =>
            promoteParentToShared (objectPromoteToShared fuel) self node
              count heap
        | .namespace name mappings aliases =>
            namespacePromoteToShared (objectPromoteToShared fuel) self name
              mappings aliases count heap
        | _ => .returned (promoteToSharedShallow self count heap)

/-- The loop of `PersistentList_promoteToShared`. -/
def persistentListPromoteToShared : Nat → Option Address → Nat → Heap → Outcome
  | 0, _, _, _ => .outOfFuel
  | _ + 1, none, _, heap => .returned heap
  | fuel + 1, some iter, current, heap =>
      if sharedBit current then .returned heap
      else
        match heap.objects iter with
        | .persistentList first rest _ =>
            (promoteValue (objectPromoteToShared fuel) first heap).bind
            fun heap =>
              let heap := promoteToSharedShallow iter current heap
              match rest with
              | some next =>
                  persistentListPromoteToShared fuel (some next)
                    (heap.rawRefCount next) heap
              | none => persistentListPromoteToShared fuel none current heap
        | _ => .undefined

end

/-- `promoteToShared`. -/
def promoteToShared (fuel : Nat) (value : RTValue) (heap : Heap) : Outcome :=
  promoteValue (objectPromoteToShared fuel) value heap

/-! ## What promotion follows -/

/-- The references that promotion follows. -/
def Object.followed : Object → List RTValue
  | .persistentList first rest _ => first :: ofPointer rest
  | .persistentVector _ tail root _ => ofPointer root ++ ofPointer tail
  | .persistentVectorNode _ _ array => array
  | .persistentArrayMap entries metadata =>
      (entries.flatMap fun entry => [entry.1, entry.2]) ++ [metadata]
  | .function _ _ methods => methods.flatten
  | .persistentVectorChunkedSeq parent => [.pointer parent]
  | .arrayChunk node => [.pointer node]
  | .namespace name mappings aliases => [.pointer name, mappings, aliases]
  | _ => []

/-- The owned references that it does not. -/
def Object.missed : Object → List RTValue
  | .string (.compoundString vector) => [.pointer vector]
  | .symbol name ns metadata => .pointer name :: ofPointer ns ++ [metadata]
  | .persistentList _ _ metadata => [metadata]
  | .persistentVector _ _ _ metadata => [metadata]
  | .persistentVectorReverseSeq v => [.pointer v]
  | .other owned => owned
  | _ => []

/-- What promotion misses is owned. -/
theorem Object.missed_subset_owned (object : Object) :
    object.missed ⊆ object.owned := by
  intro value missed
  cases object with
  | string specialisation =>
      cases specialisation with
      | compoundString vector => exact missed
      | _ => cases missed
  | symbol | persistentVectorReverseSeq | other => exact missed
  | persistentList | persistentVector =>
      simp only [Object.missed, List.mem_singleton] at missed
      simp [Object.owned, missed]
  | _ => cases missed

/-- What is owned is followed or missed. -/
theorem Object.mem_followed_or_missed
    (object : Object)
    (value : RTValue)
    (owned : value ∈ object.owned) :
    value ∈ object.followed ∨ value ∈ object.missed := by
  cases object with
  | string specialisation =>
      cases specialisation with
      | compoundString vector => exact .inr owned
      | _ => cases owned
  | symbol | persistentVectorReverseSeq | other => exact .inr owned
  | persistentList | persistentVector =>
      simp only [Object.owned, Object.followed, Object.missed, List.mem_append,
        List.mem_cons]
        at owned ⊢
      tauto
  | function once executed methods =>
      left
      simp only [Object.owned] at owned
      split at owned
      · cases owned
      · exact owned
  | _ => exact .inl owned

/-- Promotion goes from an object that is not shared to what it follows. -/
def Heap.Follows (heap : Heap) (source target : Address) : Prop :=
  ¬ heap.Shared source ∧ .pointer target ∈ (heap.objects source).followed

/-- The objects promotion comes to from a value. -/
def Heap.Walks (heap : Heap) (value : RTValue) (address : Address) : Prop :=
  ∃ start, value = .pointer start ∧
    Relation.ReflTransGen heap.Follows start address

/-- What promoting some values does to the bits: it sets those of the objects it
walks to, and of what they refer to. -/
structure Promotes (before after : Heap) (values : List RTValue) : Prop where
  objects : after.objects = before.objects
  grows : ∀ address, before.Shared address → after.Shared address
  walked : ∀ address, after.Shared address →
    before.Shared address ∨ ∃ value ∈ values, before.Walks value address
  closed : ∀ address, after.Shared address → ¬ before.Shared address →
    ∀ target, .pointer target ∈ (before.objects address).followed →
      after.Shared target
  promoted : ∀ address, .pointer address ∈ values → after.Shared address

/-- Nothing is to be done for what is shared. -/
theorem Promotes.of_shared
    (heap : Heap)
    (values : List RTValue)
    (shared : ∀ address, .pointer address ∈ values → heap.Shared address) :
    Promotes heap heap values where
  objects := rfl
  grows := fun _ isShared => isShared
  walked := fun _ isShared => .inl isShared
  closed := fun _ isShared notShared => absurd isShared notShared
  promoted := shared

/-- A longer walk was possible when fewer objects were shared. -/
theorem Heap.Walks.mono
    {before after : Heap}
    (objects : after.objects = before.objects)
    (grows : ∀ address, before.Shared address → after.Shared address)
    {value : RTValue}
    {address : Address}
    (walks : after.Walks value address) :
    before.Walks value address := by
  obtain ⟨start, isStart, path⟩ := walks
  refine ⟨start, isStart, Relation.ReflTransGen.mono ?_ start address path⟩
  rintro source target ⟨notShared, followed⟩
  rw [objects] at followed
  exact ⟨fun shared => notShared (grows source shared), followed⟩

/-- Some values after others. -/
theorem Promotes.append
    {first second third : Heap}
    {values others : List RTValue}
    (left : Promotes first second values)
    (right : Promotes second third others) :
    Promotes first third (values ++ others) where
  objects := right.objects.trans left.objects
  grows := fun address shared => right.grows address (left.grows address shared)
  walked := by
    intro address shared
    rcases right.walked address shared with earlier | ⟨value, member, walks⟩
    · rcases left.walked address earlier with before | ⟨value, member, walks⟩
      · exact .inl before
      · exact .inr ⟨value, List.mem_append_left _ member, walks⟩
    · refine .inr ⟨value, List.mem_append_right _ member, ?_⟩
      exact walks.mono left.objects left.grows
  closed := by
    intro address shared notShared target followed
    by_cases earlier : second.Shared address
    · exact right.grows _
        (left.closed address earlier notShared target followed)
    · rw [← left.objects] at followed
      exact right.closed address shared earlier target followed
  promoted := by
    intro address member
    rcases List.mem_append.mp member with inValues | inOthers
    · exact right.grows _ (left.promoted address inValues)
    · exact right.promoted address inOthers

/-! ## One object -/

/-- The bit is set. -/
theorem sharedBit_or_one (count : Nat) : sharedBit (count ||| 1) = true := by
  simp [sharedBit]

/-- Only the bit changes. -/
theorem promoteToSharedShallow_objects (self : Address) (current : Nat)
    (heap : Heap) :
    (promoteToSharedShallow self current heap).objects = heap.objects := by
  unfold promoteToSharedShallow
  split <;> rfl

/-- Only the bit of the object changes. -/
theorem shared_promoteToSharedShallow_iff
    (self : Address)
    (current : Nat)
    (heap : Heap)
    (notShared : sharedBit current = false)
    (address : Address) :
    (promoteToSharedShallow self current heap).Shared address ↔
      address = self ∨ heap.Shared address := by
  unfold promoteToSharedShallow Heap.Shared
  rw [if_neg (by simp [notShared])]
  by_cases same : address = self
  · subst same
    simp [sharedBit_or_one]
  · simp [same]

/-- An object is promoted when its references are, some before its own bit is
set and some after. -/
theorem Promotes.object
    {before middle after : Heap}
    {self : Address}
    {current : Nat}
    {earlier later : List RTValue}
    (notShared : ¬ before.Shared self)
    (currentNotShared : sharedBit current = false)
    (followed : ∀ value, value ∈ (before.objects self).followed ↔
      value ∈ earlier ++ later)
    (first : Promotes before middle earlier)
    (second : Promotes (promoteToSharedShallow self current middle) after
      later) :
    Promotes before after [.pointer self] := by
  have marked :=
    shared_promoteToSharedShallow_iff self current middle currentNotShared
  have objects := promoteToSharedShallow_objects self current middle
  -- a walk from a reference of the object is a walk from the object
  have fromSelf : ∀ value ∈ earlier ++ later, ∀ address,
    before.Walks value address →
      before.Walks (.pointer self) address := by
    rintro value member address ⟨start, rfl, path⟩
    refine ⟨self, rfl, Relation.ReflTransGen.head ⟨notShared, ?_⟩ path⟩
    exact (followed _).mpr member
  constructor
  · rw [second.objects, objects, first.objects]
  · intro address shared
    apply second.grows
    exact (marked address).mpr (.inr (first.grows address shared))
  · intro address shared
    rcases second.walked address shared with shallow | ⟨value, member, walks⟩
    · rcases (marked address).mp shallow with rfl | middleShared
      · exact .inr ⟨_, List.mem_singleton_self _, address, rfl, .refl⟩
      · rcases first.walked address middleShared with earlierShared |
          ⟨value, member, walks⟩
        · exact .inl earlierShared
        · refine .inr ⟨_, List.mem_singleton_self _, ?_⟩
          exact fromSelf value (List.mem_append_left _ member) address walks
    · refine .inr ⟨_, List.mem_singleton_self _, ?_⟩
      apply fromSelf value (List.mem_append_right _ member) address
      apply walks.mono (objects.trans first.objects)
      intro other shared
      exact (marked other).mpr (.inr (first.grows other shared))
  · intro address shared notBefore target follows
    by_cases same : address = self
    · subst same
      rcases List.mem_append.mp ((followed _).mp follows) with inEarlier |
        inLater
      · apply second.grows
        exact (marked target).mpr (.inr (first.promoted target inEarlier))
      · exact second.promoted target inLater
    · by_cases inMiddle : middle.Shared address
      · apply second.grows
        exact (marked target).mpr
          (.inr (first.closed address inMiddle notBefore target follows))
      · apply second.closed address shared
        · rw [marked address]
          exact fun either => either.elim same inMiddle
        · rwa [objects, first.objects]
  · intro address member
    rw [List.mem_singleton, RTValue.pointer.injEq] at member
    subst member
    exact second.grows _ ((marked address).mpr (.inl rfl))

/-! ## Runs -/

/-- Both parts of a sequence returned. -/
theorem Outcome.bind_eq_returned
    {outcome : Outcome}
    {next : Heap → Outcome}
    {after : Heap}
    (result : outcome.bind next = .returned after) :
    ∃ middle, outcome = .returned middle ∧ next middle = .returned after := by
  cases outcome with
  | returned middle => exact ⟨middle, rfl, result⟩
  | _ => cases result

/-- A function that promotes the object it is given. -/
def PromotesObjects (promoteObject : Address → Heap → Outcome) : Prop :=
  ∀ address before after, promoteObject address before = .returned after →
    Promotes before after [.pointer address]

/-- A value, if objects are promoted. -/
theorem promoteValue_promotes
    {promoteObject : Address → Heap → Outcome}
    (objects : PromotesObjects promoteObject)
    {value : RTValue}
    {before after : Heap}
    (result : promoteValue promoteObject value before = .returned after) :
    Promotes before after [value] := by
  cases value with
  | immediate word =>
      cases result
      apply Promotes.of_shared
      simp
  | pointer address => exact objects address before after result

/-- By induction on the values. -/
theorem promoteAll_promotes
    {promoteObject : Address → Heap → Outcome}
    (objects : PromotesObjects promoteObject)
    {values : List RTValue}
    {before after : Heap}
    (result : promoteAll promoteObject values before = .returned after) :
    Promotes before after values := by
  induction values generalizing before with
  | nil =>
      cases result
      apply Promotes.of_shared
      simp
  | cons value values inductionHypothesis =>
      obtain ⟨middle, first, others⟩ := Outcome.bind_eq_returned result
      exact (promoteValue_promotes objects first).append
        (inductionHypothesis others)

/-- The types that set their own bit last. -/
theorem Promotes.object_last
    {before middle : Heap}
    {self : Address}
    {current : Nat}
    (notShared : ¬ before.Shared self)
    (currentNotShared : sharedBit current = false)
    (first : Promotes before middle (before.objects self).followed) :
    Promotes before (promoteToSharedShallow self current middle)
      [.pointer self] := by
  have nothing : Promotes (promoteToSharedShallow self current middle)
      (promoteToSharedShallow self current middle) [] := by
    apply Promotes.of_shared
    simp
  apply Promotes.object notShared currentNotShared _ first nothing
  simp

/-- A function with what its methods close over. -/
theorem functionPromoteToShared_promotes
    {promoteObject : Address → Heap → Outcome}
    (promotes : PromotesObjects promoteObject)
    {self : Address}
    {before after : Heap}
    {once executed : Bool}
    {methods : List (List RTValue)}
    (object : before.objects self = .function once executed methods)
    (notShared : ¬ before.Shared self)
    (result : functionPromoteToShared promoteObject self once executed methods
      (before.rawRefCount self) before = .returned after) :
    Promotes before after [.pointer self] := by
  unfold functionPromoteToShared at result
  split at result
  · cases result
  · obtain ⟨middle, children, last⟩ := Outcome.bind_eq_returned result
    cases last
    apply Promotes.object_last notShared
      (Bool.eq_false_of_not_eq_true notShared)
    rw [object]
    exact promoteAll_promotes promotes children

/-- A vector with its tail and its trie. -/
theorem persistentVectorPromoteToShared_promotes
    {promoteObject : Address → Heap → Outcome}
    (promotes : PromotesObjects promoteObject)
    {self : Address}
    {before after : Heap}
    {transientID : Nat}
    {tail root : Option Address}
    {metadata : RTValue}
    (object : before.objects self = .persistentVector transientID tail root
      metadata)
    (notShared : ¬ before.Shared self)
    (result : persistentVectorPromoteToShared promoteObject self transientID
      tail root (before.rawRefCount self) before = .returned after) :
    Promotes before after [.pointer self] := by
  unfold persistentVectorPromoteToShared at result
  rw [if_neg
    (show ¬ sharedBit (before.rawRefCount self) =
    true from notShared)] at result
  split at result
  · cases result
  · obtain ⟨middle, rootResult, result⟩ := Outcome.bind_eq_returned result
    obtain ⟨last, tailResult, result⟩ := Outcome.bind_eq_returned result
    cases result
    apply Promotes.object_last notShared
      (Bool.eq_false_of_not_eq_true notShared)
    rw [object]
    exact (promoteAll_promotes promotes rootResult).append
      (promoteAll_promotes promotes tailResult)

/-- A node with its entries. -/
theorem persistentVectorNodePromoteToShared_promotes
    {promoteObject : Address → Heap → Outcome}
    (promotes : PromotesObjects promoteObject)
    {self : Address}
    {before after : Heap}
    {type : NodeType}
    {transientID : Nat}
    {array : List RTValue}
    (object : before.objects self = .persistentVectorNode type
      transientID array)
    (notShared : ¬ before.Shared self)
    (result : persistentVectorNodePromoteToShared promoteObject self type
      transientID array (before.rawRefCount self) before = .returned after) :
    Promotes before after [.pointer self] := by
  unfold persistentVectorNodePromoteToShared at result
  rw [if_neg
    (show ¬ sharedBit (before.rawRefCount self) =
    true from notShared)] at result
  split at result
  · cases result
  · obtain ⟨middle, children, last⟩ := Outcome.bind_eq_returned result
    cases last
    apply Promotes.object_last notShared
      (Bool.eq_false_of_not_eq_true notShared)
    rw [object]
    cases type <;> exact promoteAll_promotes promotes children

/-- A map with its keys and its values. -/
theorem persistentArrayMapPromoteToShared_promotes
    {promoteObject : Address → Heap → Outcome}
    (promotes : PromotesObjects promoteObject)
    {self : Address}
    {before after : Heap}
    {entries : List (RTValue × RTValue)}
    {metadata : RTValue}
    (object : before.objects self = .persistentArrayMap entries metadata)
    (notShared : ¬ before.Shared self)
    (result : persistentArrayMapPromoteToShared promoteObject self entries
      metadata (before.rawRefCount self) before = .returned after) :
    Promotes before after [.pointer self] := by
  unfold persistentArrayMapPromoteToShared at result
  rw [if_neg
    (show ¬ sharedBit (before.rawRefCount self) =
    true from notShared)] at result
  obtain ⟨middle, entriesResult, result⟩ := Outcome.bind_eq_returned result
  obtain ⟨last, metadataResult, result⟩ := Outcome.bind_eq_returned result
  cases result
  apply Promotes.object_last notShared (Bool.eq_false_of_not_eq_true notShared)
  rw [object]
  exact (promoteAll_promotes promotes entriesResult).append
    (promoteValue_promotes promotes metadataResult)

/-- An object that refers to one other. -/
theorem promoteParentToShared_promotes
    {promoteObject : Address → Heap → Outcome}
    (promotes : PromotesObjects promoteObject)
    {self parent : Address}
    {before after : Heap}
    (followed : (before.objects self).followed = [.pointer parent])
    (notShared : ¬ before.Shared self)
    (result : promoteParentToShared promoteObject self parent
      (before.rawRefCount self) before = .returned after) :
    Promotes before after [.pointer self] := by
  obtain ⟨middle, parentResult, last⟩ := Outcome.bind_eq_returned result
  cases last
  apply Promotes.object_last notShared (Bool.eq_false_of_not_eq_true notShared)
  rw [followed]
  exact promotes parent before middle parentResult

/-- A namespace with its name and its maps. -/
theorem namespacePromoteToShared_promotes
    {promoteObject : Address → Heap → Outcome}
    (promotes : PromotesObjects promoteObject)
    {self name : Address}
    {before after : Heap}
    {mappings aliases : RTValue}
    (object : before.objects self = .namespace name mappings aliases)
    (notShared : ¬ before.Shared self)
    (result : namespacePromoteToShared promoteObject self name mappings aliases
      (before.rawRefCount self) before = .returned after) :
    Promotes before after [.pointer self] := by
  have nothing : Promotes before before [] := by
    apply Promotes.of_shared
    simp
  apply Promotes.object notShared (Bool.eq_false_of_not_eq_true notShared)
    _ nothing (promoteAll_promotes promotes result)
  simp [object, Object.followed]

/-- The types promotion follows nothing of. -/
theorem promoteToSharedShallow_promotes
    {self : Address}
    {before after : Heap}
    (followed : (before.objects self).followed = [])
    (notShared : ¬ before.Shared self)
    (result : Outcome.returned
      (promoteToSharedShallow self (before.rawRefCount self) before) =
      .returned after) :
    Promotes before after [.pointer self] := by
  cases result
  apply Promotes.object_last notShared (Bool.eq_false_of_not_eq_true notShared)
  rw [followed]
  apply Promotes.of_shared
  simp

/-- A pass of the loop over a list, and then the rest of it. -/
theorem persistentListPromoteToShared_promotes
    {fuel : Nat}
    (promotes : PromotesObjects (objectPromoteToShared fuel))
    (loop : ∀ self before after,
      persistentListPromoteToShared fuel (some self) (before.rawRefCount self)
        before =
        .returned after → Promotes before after [.pointer self])
    {self : Address}
    {before after : Heap}
    (result : persistentListPromoteToShared (fuel + 1) (some self)
      (before.rawRefCount self) before = .returned after) :
    Promotes before after [.pointer self] := by
  rw [persistentListPromoteToShared] at result
  split at result
  · next shared =>
      cases result
      apply Promotes.of_shared
      simpa [Heap.Shared] using shared
  · next notShared =>
      split at result
      · next first rest metadata object =>
          obtain ⟨middle, firstResult, result⟩ :=
            Outcome.bind_eq_returned result
          have firstPromotes := promoteValue_promotes promotes firstResult
          have restPromotes : Promotes
              (promoteToSharedShallow self (before.rawRefCount self) middle)
              after
              (ofPointer rest) := by
            cases rest with
            | some next => exact loop next _ _ result
            | none =>
                cases fuel with
                | zero => cases result
                | succ fuel =>
                    cases result
                    apply Promotes.of_shared
                    simp [ofPointer]
          apply Promotes.object notShared
            (Bool.eq_false_of_not_eq_true notShared) _
            firstPromotes restPromotes
          simp [object, Object.followed]
      · cases result

/-- By induction on the fuel, for objects and for the loop over a list. -/
theorem promotes_of_fuel (fuel : Nat) :
    PromotesObjects (objectPromoteToShared fuel) ∧
      ∀ self before after,
        persistentListPromoteToShared fuel (some self) (before.rawRefCount self)
          before =
          .returned after → Promotes before after [.pointer self] := by
  induction fuel with
  | zero =>
      constructor
      · intro address before after result
        cases result
      · intro self before after result
        cases result
  | succ fuel inductionHypothesis =>
      obtain ⟨promotes, loop⟩ := inductionHypothesis
      constructor
      · intro self before after result
        rw [objectPromoteToShared] at result
        split at result
        · next shared =>
            cases result
            apply Promotes.of_shared
            simpa [Heap.Shared] using shared
        · next notShared =>
            split at result
            · exact loop self before after result
            · next object =>
                exact persistentArrayMapPromoteToShared_promotes promotes object
                  notShared result
            · next object =>
                exact persistentVectorPromoteToShared_promotes promotes object
                  notShared result
            · next object =>
                exact persistentVectorNodePromoteToShared_promotes promotes
                  object notShared result
            · next object =>
                exact functionPromoteToShared_promotes promotes object
                  notShared result
            · next object =>
                apply promoteParentToShared_promotes promotes _ notShared result
                rw [object, Object.followed]
            · next object =>
                apply promoteParentToShared_promotes promotes _ notShared result
                rw [object, Object.followed]
            · next object =>
                exact namespacePromoteToShared_promotes promotes object
                  notShared result
            · apply promoteToSharedShallow_promotes _ notShared result
              unfold Object.followed
              split <;> grind
      · intro self before after result
        exact persistentListPromoteToShared_promotes promotes loop result

/-- The bits after a promotion that returns. -/
theorem shared_promoteToShared_iff
    {fuel : Nat}
    {value : RTValue}
    {before after : Heap}
    (result : promoteToShared fuel value before = .returned after)
    (address : Address) :
    after.Shared address ↔ before.Shared address ∨
      before.Walks value address := by
  have promotes := promoteValue_promotes (promotes_of_fuel fuel).1 result
  constructor
  · intro shared
    rcases promotes.walked address shared with earlier | ⟨walked, member, walks⟩
    · exact .inl earlier
    · rw [List.mem_singleton.mp member] at walks
      exact .inr walks
  · rintro (earlier | ⟨start, rfl, path⟩)
    · exact promotes.grows address earlier
    · induction path with
      | refl => exact promotes.promoted start (List.mem_singleton_self _)
      | tail _ step inductionHypothesis =>
          exact promotes.closed _ inductionHypothesis step.1 _ step.2

/-! ## How promotion ends -/

/-- An outcome that no object leads to by itself: neither a normal return nor
one of the other ends that the objects allow. -/
structure Avoidable (bad : Outcome → Prop) (objects : Address → Object) :
    Prop where
  returned : ∀ heap, ¬ bad (.returned heap)
  undefined : ¬ bad .undefined
  vectors : ∀ heap, ¬ bad (.thrown "Cannot share a transient vector" heap)
  nodes : ∀ address type transientID array heap,
    objects address = .persistentVectorNode type transientID array →
      transientID ≠ 0 →
      ¬ bad (.thrown "Cannot share a transient vector node" heap)

/-- Promotion of the objects among some values does not end badly. -/
def Avoids
    (bad : Outcome → Prop)
    (promoteObject : Address → Heap → Outcome)
    (objects : Address → Object)
    (values : List RTValue) : Prop :=
  ∀ address, .pointer address ∈ values → ∀ heap : Heap, heap.objects = objects →
    ¬ bad (promoteObject address heap)

/-- Neither part of a sequence ends badly. -/
theorem Outcome.bind_avoids
    {bad : Outcome → Prop}
    {outcome : Outcome}
    {next : Heap → Outcome}
    (first : ¬ bad outcome)
    (second : ∀ middle, outcome = .returned middle → ¬ bad (next middle)) :
    ¬ bad (outcome.bind next) := by
  cases outcome with
  | returned middle => exact second middle rfl
  | _ => exact first

section Avoids

variable {bad : Outcome → Prop}
variable {promoteObject : Address → Heap → Outcome}
variable {objects : Address → Object}

/-- A value, if its object does not end badly. -/
theorem promoteValue_avoids
    (avoidable : Avoidable bad objects)
    {value : RTValue}
    (avoids : Avoids bad promoteObject objects [value])
    (heap : Heap)
    (same : heap.objects = objects) :
    ¬ bad (promoteValue promoteObject value heap) := by
  cases value with
  | immediate word => exact avoidable.returned heap
  | pointer address =>
      exact avoids address (List.mem_singleton_self _) heap same

/-- By induction on the values. -/
theorem promoteAll_avoids
    (avoidable : Avoidable bad objects)
    (promotes : PromotesObjects promoteObject)
    {values : List RTValue}
    (avoids : Avoids bad promoteObject objects values)
    (heap : Heap)
    (same : heap.objects = objects) :
    ¬ bad (promoteAll promoteObject values heap) := by
  induction values generalizing heap with
  | nil => exact avoidable.returned heap
  | cons value values inductionHypothesis =>
      apply Outcome.bind_avoids
      · apply promoteValue_avoids avoidable _ heap same
        intro address member
        exact avoids address
          (List.mem_cons.mpr (.inl (List.mem_singleton.mp member)))
      · intro middle result
        apply inductionHypothesis
        · intro address member
          exact avoids address (List.mem_cons_of_mem _ member)
        · rw [(promoteValue_promotes promotes result).objects, same]

/-- Promotion of an object that is not a list does not end badly when that of
what it follows does not. -/
theorem promoteType_avoids
    {fuel : Nat}
    (promotes : PromotesObjects (objectPromoteToShared fuel))
    (self : Address)
    (heap : Heap)
    (avoidable : Avoidable bad heap.objects)
    (notList : ∀ first rest metadata,
      heap.objects self ≠ .persistentList first rest metadata)
    (avoids : Avoids bad (objectPromoteToShared fuel) heap.objects
      (heap.objects self).followed) :
    ¬ bad (objectPromoteToShared (fuel + 1) self heap) := by
  have returned := avoidable.returned
  rw [objectPromoteToShared]
  split
  · exact returned heap
  · next notShared =>
      split
      · next object => exact absurd object (notList _ _ _)
      · next object =>
          rw [object] at avoids
          unfold persistentArrayMapPromoteToShared
          rw [if_neg notShared]
          apply Outcome.bind_avoids
          · apply promoteAll_avoids avoidable promotes _ heap rfl
            exact fun address member =>
              avoids address (List.mem_append_left _ member)
          · intro middle result
            apply Outcome.bind_avoids _ fun _ _ => returned _
            apply promoteValue_avoids avoidable _ middle
              (promoteAll_promotes promotes result).objects
            exact fun address member =>
              avoids address (List.mem_append_right _ member)
      · next object =>
          rw [object] at avoids
          unfold persistentVectorPromoteToShared
          rw [if_neg notShared]
          split
          · exact avoidable.vectors heap
          · apply Outcome.bind_avoids
            · apply promoteAll_avoids avoidable promotes _ heap rfl
              exact fun address member =>
                avoids address (List.mem_append_left _ member)
            · intro middle result
              apply Outcome.bind_avoids _ fun _ _ => returned _
              apply promoteAll_avoids avoidable promotes _ middle
                (promoteAll_promotes promotes result).objects
              exact fun address member =>
                avoids address (List.mem_append_right _ member)
      · next type _ _ object =>
          unfold persistentVectorNodePromoteToShared
          rw [if_neg notShared]
          split
          · next stamped => exact avoidable.nodes self _ _ _ heap object stamped
          · rw [object] at avoids
            apply Outcome.bind_avoids _ fun _ _ => returned _
            cases type <;> exact promoteAll_avoids avoidable promotes avoids
              heap rfl
      · next object =>
          rw [object] at avoids
          unfold functionPromoteToShared
          split
          · exact avoidable.undefined
          · apply Outcome.bind_avoids _ fun _ _ => returned _
            exact promoteAll_avoids avoidable promotes avoids heap rfl
      · next parent object =>
          rw [object] at avoids
          apply Outcome.bind_avoids _ fun _ _ => returned _
          exact avoids parent (List.mem_singleton_self _) heap rfl
      · next node object =>
          rw [object] at avoids
          apply Outcome.bind_avoids _ fun _ _ => returned _
          exact avoids node (List.mem_singleton_self _) heap rfl
      · next object =>
          rw [object] at avoids
          apply promoteAll_avoids avoidable promotes avoids
          rw [promoteToSharedShallow_objects]
      · exact returned _

/-- A pass of the loop over a list does not end badly when promotion of the
first element and the rest of the loop do not. -/
theorem promoteList_avoids
    {fuel : Nat}
    (promotes : PromotesObjects (objectPromoteToShared fuel))
    (self : Address)
    (heap : Heap)
    (avoidable : Avoidable bad heap.objects)
    (first : ∀ value ∈ (heap.objects self).followed,
      Avoids bad (objectPromoteToShared fuel) heap.objects [value])
    (rest : ∀ next current (later : Heap),
      .pointer next ∈ (heap.objects self).followed →
      later.objects = heap.objects →
      ¬ bad (persistentListPromoteToShared fuel (some next) current later))
    (last : ∀ current later,
      ¬ bad (persistentListPromoteToShared fuel none current later))
    (current : Nat) :
    ¬ bad (persistentListPromoteToShared (fuel + 1) (some self) current
      heap) := by
  rw [persistentListPromoteToShared]
  split
  · exact avoidable.returned heap
  · split
    · next firstValue restPointer metadata object =>
        simp only [object, Object.followed] at first rest
        apply Outcome.bind_avoids
        · exact promoteValue_avoids avoidable
            (first firstValue List.mem_cons_self) heap rfl
        · intro middle result
          cases restPointer with
          | none => exact last _ _
          | some next =>
              apply rest next
              · simp [ofPointer]
              · rw [promoteToSharedShallow_objects]
                exact (promoteValue_promotes promotes result).objects
    · exact avoidable.undefined

end Avoids

/-- Without a cycle in what it follows, promotion returns, throws or is
undefined. -/
theorem promoteToShared_ne_outOfFuel
    (objects : Address → Object)
    (rank : Address → Nat)
    (acyclic : ∀ source target, .pointer target ∈ (objects source).followed →
      rank target < rank source)
    (fuel : Nat)
    (self : Address)
    (enough : 2 * rank self + 3 ≤ fuel)
    (heap : Heap)
    (same : heap.objects = objects) :
    promoteToShared fuel (.pointer self) heap ≠ .outOfFuel := by
  have avoidable : Avoidable (· = .outOfFuel) objects := by
    constructor <;> intros <;> simp
  have both : ∀ fuel self, 2 * rank self + 2 ≤ fuel → ∀ heap : Heap,
    heap.objects = objects →
      objectPromoteToShared (fuel + 1) self heap ≠ .outOfFuel ∧
        ∀ current,
          persistentListPromoteToShared fuel (some self) current heap ≠
          .outOfFuel := by
    intro fuel
    induction fuel using Nat.strong_induction_on with
    | _ fuel inductionHypothesis =>
        intro self enough heap same
        obtain ⟨less, rfl⟩ : ∃ less, fuel = less + 2 := ⟨fuel - 2, by omega⟩
        have children : ∀ fuel target, less ≤ fuel → fuel ≤ less + 1 →
            .pointer target ∈ (heap.objects self).followed →
              2 * rank target + 2 ≤ fuel := by
          intro fuel target atLeast atMost follows
          rw [same] at follows
          have smaller := acyclic self target follows
          omega
        have avoidableHere : Avoidable (· = .outOfFuel) heap.objects := by
          rw [same]
          exact avoidable
        have list : ∀ current,
            persistentListPromoteToShared (less + 2) (some self) current heap ≠
              .outOfFuel := by
          apply promoteList_avoids (promotes_of_fuel _).1 self heap
            avoidableHere
          · intro value member address isValue later sameLater
            rw [List.mem_singleton] at isValue
            subst isValue
            have room := children less address le_rfl (by omega) member
            exact (inductionHypothesis less (by omega) address room later
              (sameLater.trans same)).1
          · intro next current later follows sameLater
            have room := children (less + 1) next (by omega) le_rfl follows
            exact (inductionHypothesis (less + 1) (by omega) next room later
              (sameLater.trans same)).2 current
          · intro current later
            simp [persistentListPromoteToShared]
        refine ⟨?_, list⟩
        by_cases isList : ∃ first rest metadata,
            heap.objects self = .persistentList first rest metadata
        · obtain ⟨first, rest, metadata, object⟩ := isList
          rw [objectPromoteToShared]
          split
          · simp
          · simp only [object]
            exact list _
        · apply promoteType_avoids (promotes_of_fuel _).1 self heap
            avoidableHere
          · intro first rest metadata object
            exact isList ⟨first, rest, metadata, object⟩
          · intro address member later sameLater
            have room := children (less + 1) address (by omega) le_rfl member
            exact (inductionHypothesis (less + 1) (by omega) address room later
              (sameLater.trans same)).1
  obtain ⟨less, rfl⟩ : ∃ less, fuel = less + 1 := ⟨fuel - 1, by omega⟩
  exact (both less self (by omega) heap same).1

/-- The exception for a node with a transient id. -/
def Outcome.RefusesNode (outcome : Outcome) : Prop :=
  ∃ heap, outcome = .thrown "Cannot share a transient vector node" heap

/-- Promotion refuses no node where none has a transient id. -/
theorem promoteToShared_ne_thrown
    (objects : Address → Object)
    (unstamped : ∀ address type transientID array,
      objects address = .persistentVectorNode type transientID array →
        transientID = 0)
    (fuel : Nat)
    (value : RTValue)
    (heap after : Heap)
    (same : heap.objects = objects) :
    promoteToShared fuel value heap ≠
      .thrown "Cannot share a transient vector node" after := by
  have avoidable : Avoidable Outcome.RefusesNode objects := by
    constructor
    · simp [Outcome.RefusesNode]
    · simp [Outcome.RefusesNode]
    · simp [Outcome.RefusesNode]
    · intro address type transientID array heap object stamped
      exact absurd (unstamped address type transientID array object) stamped
  have both : ∀ fuel self (heap : Heap), heap.objects = objects →
      ¬ (objectPromoteToShared fuel self heap).RefusesNode ∧
        ∀ current,
          ¬ (persistentListPromoteToShared fuel (some self) current
            heap).RefusesNode := by
    intro fuel
    induction fuel with
    | zero =>
        intro self heap _
        simp [objectPromoteToShared, persistentListPromoteToShared,
          Outcome.RefusesNode]
    | succ fuel inductionHypothesis =>
        intro self heap same
        have avoidableHere : Avoidable Outcome.RefusesNode heap.objects := by
          rw [same]
          exact avoidable
        constructor
        · by_cases isList : ∃ first rest metadata,
              heap.objects self = .persistentList first rest metadata
          · obtain ⟨first, rest, metadata, object⟩ := isList
            rw [objectPromoteToShared]
            split
            · exact avoidable.returned heap
            · simp only [object]
              exact (inductionHypothesis self heap same).2 _
          · apply promoteType_avoids (promotes_of_fuel _).1 self heap
              avoidableHere
            · intro first rest metadata object
              exact isList ⟨first, rest, metadata, object⟩
            · intro address _ later sameLater
              exact (inductionHypothesis address later (sameLater.trans same)).1
        · apply promoteList_avoids (promotes_of_fuel _).1 self heap
            avoidableHere
          · intro value _ address _ later sameLater
            exact (inductionHypothesis address later (sameLater.trans same)).1
          · intro next current later _ sameLater
            exact (inductionHypothesis next later (sameLater.trans same)).2
              current
          · intro current later
            cases fuel <;> simp [persistentListPromoteToShared,
              Outcome.RefusesNode]
  intro thrown
  cases value with
  | immediate word => cases thrown
  | pointer address => exact (both fuel address heap same).1 ⟨after, thrown⟩

/-! ## Deep promotion -/

/-- One object owns a reference to another. -/
def Heap.Owns (heap : Heap) (source target : Address) : Prop :=
  .pointer target ∈ (heap.objects source).owned

instance (heap : Heap) (source target : Address) : Decidable
    (heap.Owns source target) :=
  inferInstanceAs (Decidable (_ ∈ _))

/-- What is reachable from a shared object is shared: it is enough to say it of
one reference. -/
def Heap.SharedClosed (heap : Heap) : Prop :=
  ∀ source target, heap.Shared source → heap.Owns source target →
    heap.Shared target

/-- Everything reachable from a value is shared. -/
def Heap.DeeplyShared (heap : Heap) (value : RTValue) : Prop :=
  ∀ start target, value = .pointer start →
    Relation.ReflTransGen heap.Owns start target →
    heap.Shared target

/-- No object that promotion walks to owns, by a reference promotion does
not follow, an object that is not shared and that promotion does not walk to
either. -/
def Heap.NothingMissed (heap : Heap) (value : RTValue) : Prop :=
  ∀ source target, heap.Walks value source → ¬ heap.Shared source →
    .pointer target ∈ (heap.objects source).missed →
      heap.Shared target ∨ heap.Walks value target

/-- Promotion changes no object. -/
theorem promoteToShared_objects
    {fuel : Nat}
    {value : RTValue}
    {before after : Heap}
    (result : promoteToShared fuel value before = .returned after) :
    after.objects = before.objects :=
  (promoteValue_promotes (promotes_of_fuel fuel).1 result).objects

/-- Where sharing is closed, what is shared is so deeply. -/
theorem Heap.SharedClosed.deeplyShared
    {heap : Heap}
    {value : RTValue}
    (closed : heap.SharedClosed)
    (shared : ∀ start, value = .pointer start → heap.Shared start) :
    heap.DeeplyShared value := by
  intro start target isStart path
  induction path with
  | refl => exact shared start isStart
  | tail _ owns inductionHypothesis => exact closed _ _ inductionHypothesis owns

/-- Promotion shares everything reachable from a value, and keeps the heap
closed, exactly when it leaves no unshared object behind a reference it does not
follow. -/
theorem promoteToShared_deep_iff
    (fuel : Nat)
    (value : RTValue)
    (before after : Heap)
    (closed : before.SharedClosed)
    (result : promoteToShared fuel value before = .returned after) :
    after.DeeplyShared value ∧ after.SharedClosed ↔
      before.NothingMissed value := by
  have shared := shared_promoteToShared_iff result
  have objects := promoteToShared_objects result
  constructor
  · rintro ⟨_, stillClosed⟩ source target walks _ missed
    rw [← shared target]
    apply stillClosed source target ((shared source).mpr (.inr walks))
    unfold Heap.Owns
    rw [objects]
    exact Object.missed_subset_owned _ missed
  · intro nothingMissed
    have stillClosed : after.SharedClosed := by
      intro source target isShared owns
      unfold Heap.Owns at owns
      rw [objects] at owns
      rw [shared target]
      by_cases earlier : before.Shared source
      · exact .inl (closed source target earlier owns)
      · have walks := ((shared source).mp isShared).resolve_left earlier
        rcases Object.mem_followed_or_missed _ _ owns with followed | missed
        · obtain ⟨start, isStart, path⟩ := walks
          exact .inr ⟨start, isStart, path.tail ⟨earlier, followed⟩⟩
        · exact nothingMissed source target walks earlier missed
    refine ⟨stillClosed.deeplyShared ?_, stillClosed⟩
    intro start isStart
    exact (shared start).mpr (.inr ⟨start, isStart, .refl⟩)

/-- A vector of one string, with the given metadata, and an empty map.  Nothing
is shared. -/
def oneElementVector (metadata : RTValue) : Heap where
  objects address :=
    match address with
    | 0 => .persistentVector 0 (some 1) none metadata
    | 1 => .persistentVectorNode .leafNode 0 [.pointer 3]
    | 2 => .persistentArrayMap [] .boxNil
    | _ => .string .staticString
  rawRefCount _ := 2

/-- Nothing is shared yet. -/
theorem oneElementVector_not_shared (metadata : RTValue) (address : Address) :
    ¬ (oneElementVector metadata).Shared address := by
  simp [Heap.Shared, oneElementVector, sharedBit]

/-- A vector without metadata is promoted with its node and its element. -/
theorem promoteToShared_deep_plain :
    ∃ after, promoteToShared 4 (.pointer 0) (oneElementVector .boxNil) =
      .returned after ∧
      after.DeeplyShared (.pointer 0) ∧ after.SharedClosed := by
  have closed : (oneElementVector .boxNil).SharedClosed := by
    intro source target shared
    exact absurd shared (oneElementVector_not_shared _ _)
  refine ⟨_, rfl, ?_⟩
  rw [promoteToShared_deep_iff 4 (.pointer 0) (oneElementVector .boxNil) _
    closed rfl]
  intro source target _ _ missed
  rcases source with _ | _ | _ | source <;>
    simp [oneElementVector, Object.missed, RTValue.boxNil] at missed

/-- The metadata of a vector stays behind. -/
theorem promoteToShared_not_deep :
    (oneElementVector (.pointer 2)).SharedClosed ∧
      ∃ after, promoteToShared 4 (.pointer 0) (oneElementVector (.pointer 2)) =
          .returned after ∧
        ¬ after.DeeplyShared (.pointer 0) ∧ ¬ after.SharedClosed := by
  constructor
  · intro source target shared
    exact absurd shared (oneElementVector_not_shared _ _)
  · refine ⟨_, rfl, ?_, ?_⟩
    · intro deep
      exact absurd (deep 0 2 rfl (.single (by decide))) (by decide)
    · intro closed
      exact absurd (closed 0 2 rfl (by decide)) (by decide)

end Sharing
end Runtime
end ClojureRt
