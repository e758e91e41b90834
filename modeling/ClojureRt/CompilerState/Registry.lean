import ClojureRt.Codegen.ObjectTypeSet
import ClojureRt.Lib.AssocList
import ClojureRt.Lib.RefCount

/-!
# The class registries

Classes are counted objects.  A registry of the compiler state finds them by
name and by number, and owns one reference for each entry.

The entries of an `unordered_map` are kept in the order in which their keys
came. Promoting an object to a shared one changes neither its count nor its
fields, and is left out, as are the strings of a class.
-/

namespace ClojureRt
namespace CompilerState

open Codegen RefCount RefCount.Program

/-- `std::unordered_map::find` -/
def find {Key Value : Type} [DecidableEq Key] (key : Key)
    (entries : List (Key × Value)) :
    Option Value :=
  AssocList.get (fun first second => decide (first = second)) key entries

/-- `entries[key] = value` -/
def insert {Key Value : Type} [DecidableEq Key] (key : Key) (value : Value)
    (entries : List (Key × Value)) : List (Key × Value) :=
  AssocList.assoc (fun first second => decide (first = second)) key
    value entries

/-! ## Classes -/

/-- The fields of an `IntrinsicDescription` that are compared. -/
structure IntrinsicDescription where
  argTypes : List ObjectTypeSet
  isInstance : Bool

/-- The versions of methods by the names of the methods. -/
abbrev Methods := List (String × List IntrinsicDescription)

/-- A `ClassDescription` as it is parsed.  The type is the number of a
determined type. -/
structure ClassDescription where
  type : Option Int
  name : String
  parentName : String
  parentNames : List String
  instanceFns : Methods
  implements : List (String × Methods)

/-- A class.  Where there is no list of implemented protocols, the list here is
empty. What the field `extends` of the description comes to point to is stored
beside it. -/
structure Class where
  registerId : Int
  superclasses : List Nat
  implementedProtocols : List Nat
  compilerExtension : Option ClassDescription
  extendsClass : Option Nat

/-- What `Class_destroy` and the destructor of the description release. -/
instance : Referencing Class where
  references self :=
    self.superclasses ++ self.implementedProtocols ++ self.extendsClass.toList

/-- A heap of classes. -/
abbrev ClassHeap := Heap Class

/-- Code of the compiler state, as far as it works on classes. -/
abbrev Code (Result : Type) := Program Class Result

/-! ## Registries -/

/-- `ThreadsafeRegistry<Class>`, which manages the memory of its classes. -/
structure ThreadsafeRegistry where
  registry : List (String × Nat)
  indexedRegistry : List (Int × Nat)
  currentIndex : Int

namespace ThreadsafeRegistry

/-- What an entry that is replaced held. -/
def releaseReplaced : Option Nat → Code Unit
  | some old => release old
  | none => pure ()

/-- `registerObject` with a name -/
def registerName (self : ThreadsafeRegistry) (name : String) (newDef : Nat) :
    Code ThreadsafeRegistry := do
  releaseReplaced (find name self.registry)
  return { self with registry := insert name newDef self.registry }

/-- The index that `registerObject` chooses, and the next one. -/
def chooseIndex (self : ThreadsafeRegistry) (requiredIndex : Int) : Int × Int :=
  if requiredIndex = -1 then (self.currentIndex, self.currentIndex + 1)
  else (requiredIndex, self.currentIndex)

/-- `registerObject` with an index, where -1 asks for the next free one -/
def registerObject (self : ThreadsafeRegistry) (newDef : Nat)
    (requiredIndex : Int) :
    Code (Int × ThreadsafeRegistry) := do
  let chosen := self.chooseIndex requiredIndex
  releaseReplaced (find chosen.1 self.indexedRegistry)
  return (chosen.1,
    { self with
      indexedRegistry := insert chosen.1 newDef self.indexedRegistry
      currentIndex := if chosen.2 ≤ chosen.1 then chosen.1 + 1 else chosen.2 })

/-- `getCurrent` with a name -/
def getCurrent (self : ThreadsafeRegistry) (name : String) : Code
    (Option Nat) :=
  match find name self.registry with
  | some found => do
      retain found
      return some found
  | none => return none

/-- The references that a registry owns. -/
def roots (self : ThreadsafeRegistry) : List Nat :=
  self.registry.map Prod.snd ++ self.indexedRegistry.map Prod.snd

end ThreadsafeRegistry

/-- The class and protocol registries of the `ThreadsafeCompilerState`, and
`globalMethodICEpoch`. -/
structure ThreadsafeCompilerState where
  classRegistry : ThreadsafeRegistry
  protocolRegistry : ThreadsafeRegistry
  globalMethodICEpoch : UInt64

/-- The references that the compiler state owns. -/
def ThreadsafeCompilerState.roots (self : ThreadsafeCompilerState) : List Nat :=
  self.classRegistry.roots ++ self.protocolRegistry.roots

/-! ## What an update does to the references -/

theorem insert_eq_append
    {Key Value : Type}
    [DecidableEq Key]
    {key : Key}
    {value : Value}
    {entries : List (Key × Value)}
    (absent : key ∉ entries.map Prod.fst) :
    insert key value entries = entries ++ [(key, value)] := by
  induction entries with
  | nil => rfl
  | cons entry entries inductionHypothesis =>
      rw [List.map_cons, List.mem_cons, not_or] at absent
      unfold insert at inductionHypothesis ⊢
      rw [AssocList.assoc_cons, if_neg (by simpa using absent.1),
        inductionHypothesis absent.2]
      rfl

theorem find_insert
    {Key Value : Type}
    [DecidableEq Key]
    (key other : Key)
    (value : Value)
    (entries : List (Key × Value)) :
    find other (insert key value entries) =
      if other = key then some value else find other entries := by
  unfold find insert
  rw [AssocList.get_assoc AssocList.IsEquivalence.of_decidableEq]
  simp

theorem owns_insert
    {Key : Type}
    [DecidableEq Key]
    (key : Key)
    (value : Nat)
    (entries : List (Key × Nat)) :
    owns ((insert key value entries).map Prod.snd) +
      owns (find key entries).toList =
      owns (entries.map Prod.snd) + own value := by
  induction entries with
  | nil => simp [insert, find, owns_cons]
  | cons entry entries inductionHypothesis =>
      unfold insert find at inductionHypothesis ⊢
      rw [AssocList.assoc_cons, AssocList.get_cons]
      by_cases same : key = entry.1
      · simp only [same, decide_true, if_true, List.map_cons,
          Option.toList_some, owns_cons, owns_nil]
        funext other
        simp only [Pi.add_apply, Pi.zero_apply]
        ring
      · simp only [same, decide_false, Bool.false_eq_true, if_false,
          List.map_cons, owns_cons]
        rw [add_assoc, inductionHypothesis, add_assoc]

theorem mem_roots_of_find
    {Key : Type}
    [DecidableEq Key]
    {key : Key}
    {value : Nat}
    {entries : List (Key × Nat)}
    (found : find key entries = some value) : value ∈ entries.map Prod.snd := by
  obtain ⟨entry, isEntry, _, isValue⟩ := AssocList.exists_mem_of_get found
  exact List.mem_map.mpr ⟨entry, isEntry, isValue⟩

end CompilerState
end ClojureRt
