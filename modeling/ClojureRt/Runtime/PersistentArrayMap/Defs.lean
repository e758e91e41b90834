import ClojureRt.Lib.RefCount
import ClojureRt.Lib.TransitionSystem
import ClojureRt.Runtime.ArrayMap.Entries
import Mathlib.Data.Multiset.AddSub

/-!
# Persistent array maps

`PersistentArrayMap_assoc` and `PersistentArrayMap_dissoc` consume a reference
to a map. They change it in place if that was the only one, and copy it
otherwise; a copy retains the keys and values that it shares with the map, but
skips the entries whose key is a word of zeros.  That word is the double 0.0.

Keys are compared by a function that may look at the heap.  An object that the
source allocates and then fills is allocated with its fields, and where the
source releases a field just before it writes it, the field is written first.
-/

namespace ClojureRt
namespace Runtime
namespace PersistentArrayMap

open RefCount RefCount.Program

/-- The address of an object. -/
abbrev Address := Nat

/-- An `RTValue`: a pointer to an object, or any other word. -/
inductive RTValue
  | word (bits : BitVec 64)
  | pointer (address : Address)
  deriving DecidableEq

/-- `RT_boxNil` -/
def RTValue.boxNil : RTValue := .word 0xFFFC000000000000#64

/-- `RT_boxNull` -/
def RTValue.boxNull : RTValue := .word 0xFFF9000000000000#64

/-- `RT_boxInt32` -/
def RTValue.boxInt32 (i : BitVec 32) : RTValue :=
  .word (0xFFFF000000000000#64 ||| i.setWidth 64)

/-- The arrays `keys` and `values`, up to `count`. -/
abbrev Entries := List (RTValue × RTValue)

/-- `PersistentArrayMap`.  The entries are as many as its count. -/
structure ArrayMap where
  entries : Entries
  metadata : RTValue
  deriving DecidableEq

/-- What is on the heap: maps, and objects that are only counted and compared
here. -/
inductive Object
  | map (map : ArrayMap)
  | other (content : Nat) (references : List Address)
  deriving DecidableEq

/-- The address in a value, if it is a pointer. -/
def addresses : RTValue → List Address
  | .pointer address => [address]
  | .word _ => []

/-- The addresses in entries. -/
def entryAddresses (entries : Entries) : List Address :=
  entries.flatMap fun entry => addresses entry.1 ++ addresses entry.2

instance : Referencing Object where
  references
    | .map map => entryAddresses map.entries ++ addresses map.metadata
    | .other _ references => references

/-- A heap with maps and other objects. -/
abbrev MapHeap := Heap Object

/-- Code of the runtime. -/
abbrev Code := Program Object

/-- What the operations throw. -/
inductive Exception
  | unsupportedOperation (message : String)
  deriving DecidableEq

/-- The exception of `assoc` for a map without room. -/
def tooLarge : Exception :=
  .unsupportedOperation "Maps of size > 128 not supported yet"

/-! ## Access -/

/-- The map at an address. -/
def loadMap (address : Address) : Code ArrayMap := do
  match ← load address with
  | .map map => pure map
  | .other _ _ => undefined

/-- `retain` of the runtime. -/
def retainValue : RTValue → Code Unit
  | .pointer address => retain address
  | .word _ => pure ()

/-- `release` of the runtime. -/
def releaseValue : RTValue → Code Unit
  | .pointer address => release address
  | .word _ => pure ()

/-- The entry at an index. -/
def entryAt (entries : Entries) (index : Nat) : Code (RTValue × RTValue) :=
  match entries[index]? with
  | some entry => pure entry
  | none => undefined

/-- A value as a condition: the word of zeros is false. -/
def isTrue (value : RTValue) : Bool :=
  value != .word 0

/-! ## Creation -/

/-- The address of `EMPTY_ARRAY_MAP`. -/
def emptyArrayMap : Address := 0

/-- `PersistentArrayMap_empty` -/
def empty : Code Address := do
  retain emptyArrayMap
  pure emptyArrayMap

/-- `PersistentArrayMap_createMany` -/
def createMany (pairs : Entries) : Code (Except Exception Address) :=
  if ArrayMap.hashtableThreshold < pairs.length then
    pure (.error tooLarge)
  else do
    let self ← allocate (.map ⟨pairs, .boxNil⟩)
    pure (.ok self)

/-- `PersistentArrayMap_copy`, with the entries that the caller writes into the
copy. -/
def copy (other : ArrayMap) (entries : Entries) : Code Address := do
  let self ← allocate (.map ⟨entries, other.metadata⟩)
  retainValue other.metadata
  pure self

/-- The loop of `PersistentArrayMap_retainChildren`, from an index on. -/
def retainChildren : Entries → Nat → Option Nat → Code Unit
  | [], _, _ => pure ()
  | (foundKey, value) :: entries, i, except =>
      if isTrue foundKey && except != some i then do
        retainValue foundKey
        retainValue value
        retainChildren entries (i + 1) except
      else
        retainChildren entries (i + 1) except

/-! ## Lookups and updates -/

section Operations

variable (equals : MapHeap → RTValue → RTValue → Bool)

/-- The loop of `PersistentArrayMap_indexOf`. -/
def searchIndex (key : RTValue) (entries : Entries) : Code (Option Nat) :=
  fun heap => some (AssocList.indexOf (equals heap) key entries, heap)

/-- The loop of `PersistentArrayMap_get`. -/
def searchValue (key : RTValue) (entries : Entries) : Code (Option RTValue) :=
  fun heap => some (AssocList.get (equals heap) key entries, heap)

/-- `PersistentArrayMap_indexOf` -/
def indexOf (self : Address) (key : RTValue) : Code (Option Nat) := do
  let map ← loadMap self
  let retVal ← searchIndex equals key map.entries
  release self
  releaseValue key
  pure retVal

/-- `PersistentArrayMap_get` -/
def get (self : Address) (key : RTValue) : Code RTValue := do
  let map ← loadMap self
  let found ← searchValue equals key map.entries
  let retVal := found.getD .boxNull
  retainValue retVal
  release self
  releaseValue key
  pure (if retVal = .boxNull then .boxNil else retVal)

/-- `PersistentArrayMap_assoc` -/
def assoc (self : Address) (key value : RTValue) : Code
    (Except Exception Address) := do
  retain self
  retainValue key
  let found ← indexOf equals self key
  let reusable ← isReusable self
  let map ← loadMap self
  match found with
  | none =>
      if ArrayMap.hashtableThreshold ≤ map.entries.length then do
        release self
        releaseValue key
        releaseValue value
        pure (.error tooLarge)
      else
        let entries := map.entries ++ [(key, value)]
        if reusable then do
          store self (.map { map with entries })
          pure (.ok self)
        else do
          let retVal ← copy map entries
          retainChildren entries 0 (some map.entries.length)
          release self
          pure (.ok retVal)
  | some index => do
      let old ← entryAt map.entries index
      let entries := map.entries.modify index fun entry => (entry.1, value)
      if reusable then do
        store self (.map { map with entries })
        releaseValue old.2
        releaseValue key
        pure (.ok self)
      else do
        let retVal ← copy map entries
        retainChildren entries 0 (some index)
        retainValue old.1
        release self
        releaseValue key
        pure (.ok retVal)

/-- `PersistentArrayMap_dissoc` -/
def dissoc (self : Address) (key : RTValue) : Code Address := do
  retain self
  let found ← indexOf equals self key
  match found with
  | none => pure self
  | some index => do
      let reusable ← isReusable self
      let map ← loadMap self
      let old ← entryAt map.entries index
      let entries := map.entries.eraseIdx index
      if reusable then do
        store self (.map { map with entries })
        releaseValue old.1
        releaseValue old.2
        pure self
      else do
        let retVal ← copy map entries
        retainChildren entries 0 none
        release self
        pure retVal

end Operations

/-! ## What a caller does -/

/-- What a caller does with the references that it holds. -/
inductive Operation
  | newObject (content : Nat) (references : List Address)
  | empty
  | createMany (pairs : Entries)
  | assoc (self : Address) (key value : RTValue)
  | dissoc (self : Address) (key : RTValue)
  | get (self : Address) (key : RTValue)
  | indexOf (self : Address) (key : RTValue)
  | retain (address : Address)
  | release (address : Address)
  deriving DecidableEq

/-- What the caller gets: references, or an exception. -/
inductive Outcome
  | gives (references : List Address)
  | throws (exception : Exception)
  deriving DecidableEq

namespace Outcome

/-- The references that an operation gave back. -/
def references : Outcome → List Address
  | gives references => references
  | throws _ => []

/-- The outcome of code that returns a map. -/
def ofResult : Except Exception Address → Outcome
  | .ok address => gives [address]
  | .error exception => throws exception

end Outcome

namespace Operation

/-- The references an operation takes from the caller. -/
def consumed : Operation → List Address
  | newObject _ references => references
  | empty => []
  | createMany pairs => entryAddresses pairs
  | assoc self key value => self :: (addresses key ++ addresses value)
  | dissoc self key => self :: addresses key
  | get self key => self :: addresses key
  | indexOf self key => self :: addresses key
  | retain address => [address]
  | release address => [address]

/-- The code of an operation. -/
def run (equals : MapHeap → RTValue → RTValue → Bool) : Operation → Code Outcome
  | newObject content references => do
      let address ← allocate (.other content references)
      pure (.gives [address])
  | empty => do
      let address ← PersistentArrayMap.empty
      pure (.gives [address])
  | createMany pairs => do
      let result ← PersistentArrayMap.createMany pairs
      pure (.ofResult result)
  | assoc self key value => do
      let result ← PersistentArrayMap.assoc equals self key value
      pure (.ofResult result)
  | dissoc self key => do
      let address ← PersistentArrayMap.dissoc equals self key
      pure (.gives [address])
  | get self key => do
      let value ← PersistentArrayMap.get equals self key
      pure (.gives (addresses value))
  | indexOf self key => do
      let _ ← PersistentArrayMap.indexOf equals self key
      pure (.gives [])
  | retain address => do
      Program.retain address
      pure (.gives [address, address])
  | release address => do
      Program.release address
      pure (.gives [])

end Operation

/-- The heap after `PersistentArrayMap_initialise`. -/
def initialHeap : MapHeap :=
  Heap.empty.set emptyArrayMap (some ⟨1, .map ⟨[], .boxNil⟩⟩)

/-- The heap, the references that the caller holds, and what its maps should
be. -/
structure State where
  heap : MapHeap
  held : Multiset Address
  expected : Address → Entries

/-- The initial heap, without a map in any variable. -/
def State.Initial (state : State) : Prop :=
  state = ⟨initialHeap, 0, fun _ => []⟩

/-- A finite map after the operation, in the order of insertion. -/
def State.expect
    (equals : MapHeap → RTValue → RTValue → Bool)
    (state : State)
    (operation : Operation)
    (outcome : Outcome) : Address → Entries :=
  match operation, outcome with
  | .empty, .gives [address] => Function.update state.expected address []
  | .createMany pairs, .gives [address] =>
      Function.update state.expected address pairs
  | .assoc self key value, .gives [address] =>
      Function.update state.expected address
        (AssocList.assoc (equals state.heap) key value (state.expected self))
  | .dissoc self key, .gives [address] =>
      Function.update state.expected address
        (AssocList.dissoc (equals state.heap) key (state.expected self))
  | _, _ => state.expected

/-- An operation on references that the caller holds.  There is no result where
the operation uses an object that has been freed. -/
def State.perform
    (equals : MapHeap → RTValue → RTValue → Bool)
    (state : State)
    (operation : Operation) : Option (Outcome × State) :=
  if (operation.consumed : Multiset Address) ≤ state.held then
    match operation.run equals state.heap with
    | some (outcome, heap) =>
        some (outcome,
          ⟨heap, state.held - operation.consumed + outcome.references,
            state.expect equals operation outcome⟩)
    | none => none
  else none

/-- A step runs an operation that meets a condition. -/
inductive Step
    (equals : MapHeap → RTValue → RTValue → Bool)
    (condition : State → Operation → Prop) : State → State → Prop
  | perform
      (before after : State)
      (operation : Operation)
      (outcome : Outcome)
      (meets : condition before operation)
      (result : before.perform equals operation = some (outcome, after)) :
      Step equals condition before after

/-- The states that operations which meet a condition lead to. -/
abbrev Reaches
    (equals : MapHeap → RTValue → RTValue → Bool)
    (condition : State → Operation → Prop) : State → Prop :=
  TransitionSystem.Reachable State.Initial (Step equals condition)

end PersistentArrayMap
end Runtime
end ClojureRt
