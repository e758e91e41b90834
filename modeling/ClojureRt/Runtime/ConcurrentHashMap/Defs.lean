import Mathlib.Data.Nat.Bitwise
import Mathlib.Logic.Function.Basic

/-!
# The leapfrog hash table

One table of `2 ^ e` cells.  A cell holds a key, a value, the hash of the key
and two relative links: `longLeap` leads from the home cell of a bucket to the
second cell of that bucket's chain, `shortLeap` from any later cell of a chain
to the next one.  The hash `0` marks a cell that was never claimed; a deleted
entry keeps its key and its hash and loses its value only.

This module follows the code of one thread.  Reference counts, the promotion of
keys and values to shared objects and the memory orders are left out: none of
them decides what an operation returns.  A loop of the source that may spin
forever is given fuel, and `none` is a call that has not returned yet.
-/

namespace ClojureRt
namespace Runtime
namespace ConcurrentHashMap

/-- Keys with the `equals` and `hash` of the runtime.  The fields state what the
table relies on: `equals` is an equivalence and equal keys have equal hashes. -/
structure KeyType (K : Type*) where
  /-- Content equality of two keys. -/
  equals : K → K → Bool
  /-- The hash of a key as an unsigned word. -/
  hash : K → Nat
  equals_refl : ∀ key, equals key key = true
  equals_symm : ∀ left right, equals left right = true →
    equals right left = true
  equals_trans : ∀ first second third,
    equals first second = true → equals second third = true →
      equals first third = true
  hash_eq_of_equals : ∀ left right, equals left right = true →
    hash left = hash right

/-- `ConcurrentHashMapEntry`.  The null marker of the runtime is `none`. -/
structure Entry (K V : Type*) where
  key : Option K
  value : Option V
  keyHash : Nat
  shortLeap : Nat
  longLeap : Nat
  deriving DecidableEq

/-- `ConcurrentHashMapNode`, less the fields for resizing that nothing reads. -/
structure Node (K V : Type*) where
  sizeMask : Nat
  resizingThreshold : Nat
  array : Nat → Entry K V

/-- `ConcurrentHashMap_create`.  `rounded` stands for the floating-point value
`round(pow(initialSize, 0.33))`. -/
def create (initialSizeExponent rounded : Nat) : Node K V where
  sizeMask := 2 ^ initialSizeExponent - 1
  resizingThreshold := min rounded 128
  array := fun _ => ⟨none, none, 0, 0, 0⟩

namespace Node

/-- The cell `root->array[idx & sizeMask]`. -/
def cellAt (node : Node K V) (idx : Nat) : Entry K V :=
  node.array (idx &&& node.sizeMask)

/-- Overwrite one cell. -/
def setCell (node : Node K V) (cell : Nat) (entry : Entry K V) : Node K V :=
  { node with array := Function.update node.array cell entry }

/-- The link a search follows out of a cell. -/
def leap (node : Node K V) (useShortLeap : Bool) (cell : Nat) : Nat :=
  if useShortLeap then (node.array cell).shortLeap
  else (node.array cell).longLeap

/-- `atomic_store(prevLink, desiredDelta)`: the link is one unsigned char. -/
def storeLeap
    (node : Node K V)
    (useShortLeap : Bool)
    (cell delta : Nat) : Node K V :=
  node.setCell cell <|
    if useShortLeap then { node.array cell with shortLeap := delta % 256 }
    else { node.array cell with longLeap := delta % 256 }

/-- Claim an empty cell by writing the hash of the new key. -/
def storeKeyHash (node : Node K V) (cell keyHash : Nat) : Node K V :=
  node.setCell cell { node.array cell with keyHash := keyHash }

/-- Write the value of a cell; `none` deletes the entry. -/
def storeValue (node : Node K V) (cell : Nat) (value : Option V) : Node K V :=
  node.setCell cell { node.array cell with value := value }

/-- Publish the key of a claimed cell. -/
def storeKey (node : Node K V) (cell : Nat) (key : K) : Node K V :=
  node.setCell cell { node.array cell with key := some key }

end Node

variable (keys : KeyType K)

/-- The hash stored for a key: `0` is reserved for an empty cell. -/
def keyHashOf (key : K) : Nat :=
  if keys.hash key = 0 then 1 else keys.hash key

/-- `isSameKey`: spins until the key of a claimed cell is published. -/
def isSameKey (entry : Entry K V) (key : K) : Option Bool :=
  entry.key.map fun encounteredKey => keys.equals encounteredKey key

/-- `tryGettingFromEntry`; the inner `none` is the null marker. -/
def tryGettingFromEntry
    (entry : Entry K V)
    (key : K)
    (keyHash : Nat) : Option (Option V) :=
  if entry.keyHash ≠ keyHash then some none
  else
    match isSameKey keys entry key with
    | none => none
    | some same => some (if same then entry.value else none)

/-- What `tryDeletingFromEntry` reports. -/
inductive Deletion
  | nothingToDelete
  | deleted
  | notHere
  deriving DecidableEq

/-- `tryDeletingFromEntry`: both ways to answer `true` are kept apart, because
only one of them clears the value. -/
def tryDeletingFromEntry
    (entry : Entry K V)
    (key : K)
    (keyHash : Nat) : Option Deletion :=
  if entry.keyHash = 0 then some .nothingToDelete
  else if entry.keyHash = keyHash then
    match isSameKey keys entry key with
    | none => none
    | some same => some (if same then .deleted else .notHere)
  else some .notHere

/-- How the linear search behind the end of a chain stops. -/
inductive Probe
  | claim (idx : Nat)
  | found (idx : Nat)
  | sameBucket (idx : Nat)
  | exhausted (idx : Nat)
  deriving DecidableEq

/-- The `while (linearProbesRemaining-- > 0)` loop of `insertOrFind`. -/
def linearProbe
    (node : Node K V)
    (keyHash : Nat)
    (key : K) : (linearProbesRemaining idx : Nat) → Option Probe
  | 0, idx => some (.exhausted (idx + 1))
  | remaining + 1, idx =>
      let probeHash := (node.cellAt (idx + 1)).keyHash
      if probeHash = 0 then some (.claim (idx + 1))
      else
        let x := probeHash ^^^ keyHash
        let afterKeyTest : Option Probe :=
          if x &&& node.sizeMask = 0 then some (.sameBucket (idx + 1))
          else linearProbe node keyHash key remaining (idx + 1)
        if x = 0 then
          match isSameKey keys (node.cellAt (idx + 1)) key with
          | none => none
          | some true => some (.found (idx + 1))
          | some false => afterKeyTest
        else afterKeyTest

/-- `ConcurrentHashMapInsertResult` with the cell it is about. -/
inductive InsertResult
  | alreadyFound (cell : Nat)
  | insertedNew (cell : Nat)
  | overflow (overflowIdx : Nat)
  deriving DecidableEq

/-- The `followLink` loop of `insertOrFind`. -/
def followLink
    (keyHash : Nat)
    (key : K) : (fuel : Nat) → Node K V → (idx : Nat) → (useShortLeap : Bool) →
      Option (InsertResult × Node K V)
  | 0, _, _, _ => none
  | fuel + 1, node, idx, useShortLeap =>
      let prevCell := idx &&& node.sizeMask
      let probeDelta := node.leap useShortLeap prevCell
      if 0 < probeDelta then
        let next := idx + probeDelta
        let probeHash := (node.cellAt next).keyHash
        -- A linked cell whose hash is not visible yet is waited for.
        if probeHash = 0 then none
        else if probeHash = keyHash then
          match isSameKey keys (node.cellAt next) key with
          | none => none
          | some true => some (.alreadyFound (next &&& node.sizeMask), node)
          | some false => followLink keyHash key fuel node next true
        else followLink keyHash key fuel node next true
      else
        match linearProbe keys node keyHash key node.resizingThreshold idx with
        | none => none
        | some (.claim i) =>
            some (.insertedNew (i &&& node.sizeMask),
              (node.storeKeyHash (i &&& node.sizeMask) keyHash).storeLeap
                useShortLeap prevCell (i - idx))
        | some (.found i) => some (.alreadyFound (i &&& node.sizeMask), node)
        | some (.sameBucket i) =>
            followLink keyHash key fuel
              (node.storeLeap useShortLeap prevCell (i - idx)) i true
        | some (.exhausted i) => some (.overflow i, node)

/-- `insertOrFind`. -/
def insertOrFind
    (fuel : Nat)
    (node : Node K V)
    (keyHash : Nat)
    (key : K) : Option (InsertResult × Node K V) :=
  let cell := keyHash &&& node.sizeMask
  let probeHash := (node.array cell).keyHash
  if probeHash = 0 then some (.insertedNew cell, node.storeKeyHash cell keyHash)
  else if probeHash = keyHash then
    match isSameKey keys (node.array cell) key with
    | none => none
    | some true => some (.alreadyFound cell, node)
    | some false => followLink keys keyHash key fuel node keyHash false
  else followLink keys keyHash key fuel node keyHash false

/-- What an operation hands back: a value or nil, or the exception it throws. -/
abbrev Response (V : Type*) := Except String (Option V)

/-- `ConcurrentHashMap_assoc`. -/
def assoc
    (fuel : Nat)
    (node : Node K V)
    (key : K)
    (value : V) : Option (Response V × Node K V) :=
  match insertOrFind keys fuel node (keyHashOf keys key) key with
  | none => none
  | some (.alreadyFound cell, node) =>
      some (.ok none, node.storeValue cell (some value))
  | some (.insertedNew cell, node) =>
      some (.ok none, (node.storeValue cell (some value)).storeKey cell key)
  | some (.overflow _, node) =>
      some (.error
        "ConcurrentHashMap_assoc - overcrowded - resizing not yet supported", node)

/-- `ConcurrentHashMap_putIfAbsent`. -/
def putIfAbsent
    (fuel : Nat)
    (node : Node K V)
    (key : K)
    (value : V) : Option (Response V × Node K V) :=
  match insertOrFind keys fuel node (keyHashOf keys key) key with
  | none => none
  | some (.alreadyFound cell, node) =>
      match (node.array cell).value with
      | none => some (.ok none, node.storeValue cell (some value))
      | some oldVal => some (.ok (some oldVal), node)
  | some (.insertedNew cell, node) =>
      some (.ok none, (node.storeValue cell (some value)).storeKey cell key)
  | some (.overflow _, node) =>
      some (.error
        "ConcurrentHashMap_putIfAbsent - overcrowded - resizing not yet supported",
        node)

/-- `ConcurrentHashMap_getOrCreate`. -/
def getOrCreate
    (fuel : Nat)
    (node : Node K V)
    (key : K)
    (value : V) : Option (Response V × Node K V) :=
  match putIfAbsent keys fuel node key value with
  | none => none
  | some (.ok none, node) => some (.ok (some value), node)
  | some (response, node) => some (response, node)

/-- The `while (jump > 0)` loop of `ConcurrentHashMap_dissoc`. -/
def dissocChain
    (keyHash : Nat)
    (key : K) : (fuel : Nat) → Node K V → (index jump : Nat) → Option (Node K V)
  | 0, _, _, _ => none
  | fuel + 1, node, index, jump =>
      if 0 < jump then
        let next := (index + jump) &&& node.sizeMask
        match tryDeletingFromEntry keys (node.array next) key keyHash with
        | none => none
        | some .nothingToDelete => some node
        | some .deleted => some (node.storeValue next none)
        | some .notHere =>
            dissocChain keyHash key fuel node next (node.array next).shortLeap
      else some node

/-- `ConcurrentHashMap_dissoc`. -/
def dissoc
    (fuel : Nat)
    (node : Node K V)
    (key : K) : Option (Response V × Node K V) :=
  let keyHash := keyHashOf keys key
  let index := keyHash &&& node.sizeMask
  let result :=
    match tryDeletingFromEntry keys (node.array index) key keyHash with
    | none => none
    | some .nothingToDelete => some node
    | some .deleted => some (node.storeValue index none)
    | some .notHere =>
        dissocChain keys keyHash key fuel node index (node.array index).longLeap
  result.map fun node => (.ok none, node)

/-- The `while (jump > 0)` loop of `ConcurrentHashMap_get`. -/
def getChain
    (node : Node K V)
    (keyHash : Nat)
    (key : K) : (fuel index jump : Nat) → Option (Option V)
  | 0, _, _ => none
  | fuel + 1, index, jump =>
      if 0 < jump then
        let next := (index + jump) &&& node.sizeMask
        match tryGettingFromEntry keys (node.array next) key keyHash with
        | none => none
        | some (some value) => some (some value)
        | some none =>
            getChain node keyHash key fuel next (node.array next).shortLeap
      else some none

/-- `ConcurrentHashMap_get`. -/
def get
    (fuel : Nat)
    (node : Node K V)
    (key : K) : Option (Response V × Node K V) :=
  let keyHash := keyHashOf keys key
  let index := keyHash &&& node.sizeMask
  let result :=
    match tryGettingFromEntry keys (node.array index) key keyHash with
    | none => none
    | some (some value) => some (some value)
    | some none =>
        getChain keys node keyHash key fuel index (node.array index).longLeap
  result.map fun value => (.ok value, node)

/-- One call on the map. -/
inductive Operation (K V : Type*)
  | assoc (key : K) (value : V)
  | putIfAbsent (key : K) (value : V)
  | getOrCreate (key : K) (value : V)
  | dissoc (key : K)
  | get (key : K)

/-- Run one call. -/
def Operation.step
    (fuel : Nat)
    (node : Node K V) : Operation K V → Option (Response V × Node K V)
  | .assoc key value => ConcurrentHashMap.assoc keys fuel node key value
  | .putIfAbsent key value =>
      ConcurrentHashMap.putIfAbsent keys fuel node key value
  | .getOrCreate key value =>
      ConcurrentHashMap.getOrCreate keys fuel node key value
  | .dissoc key => ConcurrentHashMap.dissoc keys fuel node key
  | .get key => ConcurrentHashMap.get keys fuel node key

/-- Run calls in order and collect what they return.  The result is `none` as
soon as one call throws or has not returned within its fuel. -/
def runOperations
    (fuel : Nat) : Node K V → List (Operation K V) →
      Option (List (Option V) × Node K V)
  | node, [] => some ([], node)
  | node, operation :: rest =>
      match operation.step keys fuel node with
      | some (.ok response, node) =>
          (runOperations fuel node rest).map fun (responses, node) =>
            (response :: responses, node)
      | _ => none

end ConcurrentHashMap
end Runtime
end ClojureRt
