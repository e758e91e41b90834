import Mathlib.Data.List.Basic
import Mathlib.Data.Nat.Digits.Defs

/-!
# Strings of the runtime

A string is one block of characters with a NUL behind them, or a vector of such
blocks. The model follows the release build, where assertions are compiled out.
What C leaves undefined (a read outside a block or of a byte that was never
written) is a failure here, and a hash that was never stored is `none`.

The blocks of a compound string are a list: the vector that holds them is only
extended with `PersistentVector_conj` and read through its iterator.
-/

namespace ClojureRt
namespace Runtime
namespace Strings

/-- `char` -/
abbrev Byte := BitVec 8

/-- `uword_t`, as a hash. -/
abbrev Hash := BitVec 64

/-- Bytes in memory; `none` was not initialised. -/
abbrev Memory := List (Option Byte)

/-- How a call can fail to return. -/
inductive Failure
  | threw
  | undefined
  -- a bound on a loop of the model, not of the source
  | outOfFuel
  deriving DecidableEq

/-- What a function on strings comes to. -/
abbrev Outcome (α : Type) := Except Failure α

theorem bind_eq_ok
    {α β : Type}
    {outcome : Outcome α}
    {next : α → Outcome β}
    {result : β}
    (bound : (outcome >>= next) = .ok result) :
    ∃ value, outcome = .ok value ∧ next value = .ok result := by
  cases outcome with
  | error failure => cases bound
  | ok value => exact ⟨value, rfl, bound⟩

/-- `*(memory + index)` -/
def read (memory : Memory) (index : Nat) : Outcome Byte :=
  match memory[index]? with
  | some (some c) => .ok c
  | _ => .error .undefined

/-- `memcpy(memory + start, source, count)` -/
def memcpy (memory : Memory) (start : Int) (source : Memory)
    (count : Nat) : Outcome Memory :=
  if count = 0 then
    .ok memory
  else if start < 0 ∨ (memory.length : Int) < start + count ∨
    source.length < count then
    .error .undefined
  else
    .ok (memory.take start.toNat ++ source.take count ++
      memory.drop (start.toNat + count))

/-! ## Hashes -/

/-- `avalanche_64` -/
def avalanche64 (h : Hash) : Hash :=
  let h := h ^^^ (h >>> 33)
  let h := h * 0xff51afd7ed558ccd#64
  let h := h ^^^ (h >>> 33)
  let h := h * 0xc4ceb9fe1a85ec53#64
  h ^^^ (h >>> 33)

/-- `avalanche`, on a machine with 64 bits. -/
def avalanche (h : Hash) : Hash :=
  avalanche64 h ||| (1#64 <<< 63)

/-- The loop of `String_computeHash`.  A `char` is signed. -/
def hashFrom (h : Hash) : Memory → Outcome Hash
  | some c :: rest =>
      if c = 0 then .ok h else hashFrom (h + avalanche (c.signExtend 64)) rest
  | _ => .error .undefined

/-- `String_computeHash` -/
def computeHash (str : Memory) : Outcome Hash :=
  hashFrom 5381 str

/-! ## Representations -/

/-- Whether the characters of a block stand in the object or elsewhere. -/
inductive Specialisation
  | staticString
  | dynamicString
  deriving DecidableEq

/-- A static or dynamic string, with the memory that its characters are in. -/
structure Block where
  specialisation : Specialisation
  count : Nat
  hash : Option Hash
  memory : Memory

/-- `String` -/
inductive Str
  | block (block : Block)
  | compound (count : Nat) (hash : Option Hash) (blocks : List Block)

namespace Str

/-- The field `count`. -/
def count : Str → Nat
  | .block flat => flat.count
  | .compound count _ _ => count

/-- `String_hash` -/
def hash : Str → Option Hash
  | .block flat => flat.hash
  | .compound _ hash _ => hash

/-- The blocks, which the vector of a compound string holds. -/
def blocks : Str → List Block
  | .block flat => [flat]
  | .compound _ _ blocks => blocks

end Str

/-- A C string, without its NUL. -/
structure CString where
  chars : List Byte
  noNul : 0 ∉ chars

/-- The memory of a string of C. -/
def CString.memory (string : CString) : Memory :=
  string.chars.map some ++ [some 0]

/-- `String_createStatic`, `String_create` -/
def create (string : CString) : Outcome Str := do
  let hash ← computeHash string.memory
  return .block ⟨.staticString, string.chars.length, some hash, string.memory⟩

/-- `String_createDynamic` -/
def createDynamic (size : Nat) : Block :=
  ⟨.dynamicString, size, none, List.replicate (size + 1) none⟩

/-- `String_createDynamicStr` -/
def createDynamicStr (string : CString) : Outcome Str := do
  let hash ← computeHash string.memory
  return .block ⟨.dynamicString, string.chars.length, some hash, string.memory⟩

/-- The hash that `String_createCompound` stores. -/
def compoundHash (left right : Option Hash) : Option Hash := do
  let leftHash ← left
  let rightHash ← right
  let emptyHash ← (computeHash [some 0]).toOption
  return leftHash + rightHash - emptyHash

/-- `String_createCompound`, `String_concat` -/
def concat (left right : Str) : Str :=
  .compound (left.count + right.count) (compoundHash left.hash right.hash)
    (left.blocks ++ right.blocks)

/-! ## Iterators -/

/-- `StringIterator`.  The vector iterator is the list of the blocks behind the
current one. -/
structure Iterator where
  index : Nat
  inBlockIndex : Nat
  blockLength : Nat
  count : Nat
  later : List Block
  block : Memory

/-- `String_iterator` -/
def iterator : Str → Outcome Iterator
  | .block block => .ok ⟨0, 0, block.count, block.count, [], block.memory⟩
  | .compound count _ (child :: later) =>
      .ok ⟨0, 0, child.count, count, later, child.memory⟩
  | .compound _ _ [] => .error .undefined

/-- `*String_iteratorGet` -/
def iteratorGet (it : Iterator) : Outcome Byte :=
  read it.block it.inBlockIndex

/-- `String_iteratorNext`, and whether it returns a pointer.  `blockLength - 1`
is unsigned: in an empty block it is the largest word, and every index is below
it. -/
def iteratorNext (it : Iterator) : Outcome (Iterator × Bool) :=
  if it.blockLength = 0 ∨ it.inBlockIndex < it.blockLength - 1 then
    .ok ({ it with index := it.index + 1, inBlockIndex := it.inBlockIndex + 1 },
      true)
  else if it.count = it.index + 1 then
    .ok (it, false)
  else
    match it.later with
    | [] => .error .undefined
    | child :: later =>
        .ok (⟨it.index + 1, 0, child.count, it.count, later, child.memory⟩,
          true)

/-- `String_iteratorNext`, a number of times. -/
def skip : Nat → Iterator → Outcome Iterator
  | 0, it => .ok it
  | n + 1, it => do
      let (next, _) ← iteratorNext it
      skip n next

/-! ## Operations -/

/-- `String_charAt` -/
def charAt (self : Str) (index : Nat) : Outcome Byte :=
  if self.count ≤ index then
    .error .threw
  else do
    let it ← iterator self
    let it ← skip index it
    iteratorGet it

/-- The loop of `String_subs` that fills `dest`. -/
def copyChars : Nat → Iterator → Outcome (List Byte)
  | 0, _ => .ok []
  | n + 1, it => do
      let c ← iteratorGet it
      let (next, _) ← iteratorNext it
      let rest ← copyChars n next
      return c :: rest

/-- `String_subs` -/
def subs (self : Str) (start stop : Nat) : Outcome Str :=
  if stop < start ∨ self.count < stop then
    .error .threw
  else do
    let it ← iterator self
    let it ← skip start it
    let dest ← copyChars (stop - start) it
    let memory : Memory := dest.map some ++ [some 0]
    let hash ← computeHash memory
    return .block ⟨.dynamicString, stop - start, some hash, memory⟩

/-- The loop of `String_compactify`.  `start` is an `int`. -/
def copyBlocks : List Block → BitVec 32 → Memory → Outcome Memory
  | [], _, output => .ok output
  | block :: blocks, start, output => do
      let output ← memcpy output start.toInt block.memory block.count
      copyBlocks blocks (start + BitVec.ofNat 32 block.count) output

/-- `String_compactify` -/
def compactify : Str → Outcome Block
  | .block block => .ok block
  | .compound count _ blocks => do
      let output ← copyBlocks blocks 0 (createDynamic count).memory
      let output := output.set count (some 0)
      let hash ← computeHash output
      return ⟨.dynamicString, count, some hash, output⟩

/-- `strcmp(left, right) == 0` -/
def strcmpEqual : Memory → Memory → Outcome Bool
  | some left :: lefts, some right :: rights =>
      if left ≠ right then .ok false
      else if left = 0 then .ok true
      else strcmpEqual lefts rights
  | _, _ => .error .undefined

/-- `String_iteratorNext`, and the character there or 0 at the end. -/
def nextChar (it : Iterator) : Outcome (Iterator × Byte) := do
  let (next, isChar) ← iteratorNext it
  if isChar then do
    let c ← iteratorGet next
    return (next, c)
  else
    return (next, 0)

/-- The loop of `String_equals`. -/
def compareFrom : Nat → Iterator → Iterator → Byte → Byte → Outcome Bool
  | 0, _, _, _, _ => .error .outOfFuel
  | fuel + 1, left, right, leftChar, rightChar =>
      if leftChar = 0 then
        .ok true
      else if leftChar ≠ rightChar then
        .ok false
      else do
        let (left, leftChar) ← nextChar left
        let (right, rightChar) ← nextChar right
        compareFrom fuel left right leftChar rightChar

/-- `String_equals` -/
def equals (self other : Str) : Outcome Bool :=
  if self.count ≠ other.count then
    .ok false
  else
    match self, other with
    | .block left, .block right => strcmpEqual left.memory right.memory
    | _, _ => do
        let left ← iterator self
        let right ← iterator other
        let leftChar ← iteratorGet left
        let rightChar ← iteratorGet right
        compareFrom (self.count + 1) left right leftChar rightChar

/-! ## Search -/

section Search

variable (source target : Memory) (first : Byte) (max : Int) (otherCount : Nat)

/-- `while (++i <= max && source[i] != first)` -/
def skipOthers : Nat → Nat → Outcome Nat
  | 0, _ => .error .outOfFuel
  | fuel + 1, i =>
      if ((i + 1 : Nat) : Int) ≤ max then do
        let c ← read source (i + 1)
        if c ≠ first then skipOthers fuel (i + 1) else .ok (i + 1)
      else
        .ok (i + 1)

/-- `while (j < end && source[j] == target[k])`, with `end - j` for the counter.
The result says whether `j` reaches `end`. -/
def matchRest : Nat → Nat → Nat → Outcome Bool
  | 0, _, _ => .ok true
  | n + 1, j, k => do
      let c ← read source j
      let d ← read target k
      if c = d then matchRest n (j + 1) (k + 1) else .ok false

/-- The loop of `String_indexOfFrom`. -/
def searchFrom : Nat → Nat → Outcome Int
  | 0, _ => .error .outOfFuel
  | fuel + 1, i =>
      if (i : Int) ≤ max then do
        let c ← read source i
        let i ←
          if c ≠ first then skipOthers source first max (fuel + 1) i
          else .ok i
        if (i : Int) ≤ max then do
          let found ← matchRest source target (otherCount - 1) (i + 1) 1
          if found then .ok i else searchFrom fuel (i + 1)
        else
          searchFrom fuel (i + 1)
      else
        .ok (-1)

end Search

/-- `String_indexOfFrom` -/
def indexOfFrom (self other : Str) (fromIndex : Int) : Outcome Int :=
  if (self.count : Int) ≤ fromIndex then
    .ok (if other.count = 0 then self.count else -1)
  else
    let fromIndex := if fromIndex < 0 then 0 else fromIndex
    if other.count = 0 then
      .ok fromIndex
    else do
      let compactSelf ← compactify self
      let compactOther ← compactify other
      let first ← read compactOther.memory 0
      searchFrom compactSelf.memory compactOther.memory first
        ((self.count : Int) - other.count) other.count (self.count + 2)
        fromIndex.toNat

/-- `String_indexOf` -/
def indexOf (self other : Str) : Outcome Int :=
  indexOfFrom self other 0

/-- `String_contains` -/
def contains (self other : Str) : Outcome Bool := do
  let index ← indexOf self other
  return decide (-1 < index)

/-! ## Replacement and numbers -/

/-- The loop of `String_replace`, over the characters of `retVal`. -/
def replaceFrom (targetChar replacementChar : Byte) : Nat → Iterator →
    Outcome Memory
  | 0, _ => .error .outOfFuel
  | fuel + 1, it => do
      let c ← iteratorGet it
      let block :=
        if c = targetChar then
          it.block.set it.inBlockIndex (some replacementChar)
        else it.block
      let (next, isChar) ← iteratorNext { it with block := block }
      if isChar then replaceFrom targetChar replacementChar fuel next
      else .ok next.block

/-- `String_replace`.  Nothing stores a hash in the string that it returns. -/
def replace (self target replacement : Str) : Outcome Str := do
  let same ← equals target replacement
  if same then
    return self
  else if target.count ≠ 1 ∨ replacement.count ≠ 1 then
    .error .threw
  else do
    let compactified ← compactify self
    let retVal := createDynamic compactified.count
    let memory ← memcpy retVal.memory 0 compactified.memory compactified.count
    let memory := memory.set compactified.count (some 0)
    let targetIterator ← iterator target
    let replacementIterator ← iterator replacement
    let targetChar ← iteratorGet targetIterator
    let replacementChar ← iteratorGet replacementIterator
    let retValIterator ← iterator (.block { retVal with memory := memory })
    let memory ← replaceFrom targetChar replacementChar (compactified.count + 2)
      retValIterator
    return .block { retVal with memory := memory }

/-- What `snprintf` writes for `%d`. -/
def decimal (value : Int) : List Byte :=
  let digits := if value = 0 then [0] else (Nat.digits 10 value.natAbs).reverse
  (if value < 0 then [45] else []) ++ digits.map fun digit =>
    BitVec.ofNat 8 (48 + digit)

/-- `Integer_toString` -/
def integerToString (value : BitVec 32) : Outcome Str := do
  let chars := decimal value.toInt
  let retVal := createDynamic 20
  let memory ← memcpy retVal.memory 0 (chars.map some ++ [some 0])
    (chars.length + 1)
  let memory := memory.set 20 (some 0)
  let hash ← computeHash memory
  return .block
    { retVal with count := chars.length, hash := some hash, memory := memory }

end Strings
end Runtime
end ClojureRt
