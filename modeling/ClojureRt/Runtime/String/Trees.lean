import ClojureRt.Runtime.String.Comparison
import ClojureRt.Runtime.String.Compaction
import Mathlib.Data.Nat.Digits.Lemmas

/-!
# Strings built by the runtime

A tree of calls says how a string was built, and which characters it should
have.  What goes wrong is found at single calls: a slice that an empty block
hides, a block that compaction misplaces, a replacement without a hash.
-/

namespace ClojureRt
namespace Runtime
namespace Strings

/-- How a string is built. -/
inductive Tree
  | create (string : CString)
  | createDynamicStr (string : CString)
  | integerToString (value : BitVec 32)
  | concat (left right : Tree)
  | subs (self : Tree) (start stop : Nat)
  | compactify (self : Tree)
  | replace (self target replacement : Tree)

namespace Tree

/-- The calls. -/
def run : Tree → Outcome Str
  | create string => Strings.create string
  | createDynamicStr string => Strings.createDynamicStr string
  | integerToString value => Strings.integerToString value
  | concat left right => do
      let leftStr ← left.run
      let rightStr ← right.run
      return Strings.concat leftStr rightStr
  | subs self start stop => do
      let str ← self.run
      Strings.subs str start stop
  | compactify self => do
      let str ← self.run
      let block ← Strings.compactify str
      return .block block
  | replace self target replacement => do
      let str ← self.run
      let targetStr ← target.run
      let replacementStr ← replacement.run
      Strings.replace str targetStr replacementStr

/-- The characters that the string should have; slices are in range, and a
replacement is one of characters. -/
def denote : Tree → Option (List Byte)
  | create string => some string.chars
  | createDynamicStr string => some string.chars
  | integerToString value => some (decimal value.toInt)
  | concat left right => do
      let leftChars ← left.denote
      let rightChars ← right.denote
      return leftChars ++ rightChars
  | subs self start stop => do
      let chars ← self.denote
      if start ≤ stop ∧ stop ≤ chars.length then
        some ((chars.drop start).take (stop - start))
      else
        none
  | compactify self => self.denote
  | replace self target replacement =>
      match target.denote, replacement.denote with
      | some [x], some [y] =>
          self.denote.map (List.map fun c => if c = x then y else c)
      | _, _ => none

/-- The lengths of the blocks that the string is made of, where a replacement
returns its first argument. -/
def lengths : Tree → List Nat
  | create string => [string.chars.length]
  | createDynamicStr string => [string.chars.length]
  | integerToString value => [(decimal value.toInt).length]
  | concat left right => left.lengths ++ right.lengths
  | subs _ start stop => [stop - start]
  | compactify self => [self.lengths.sum]
  | replace self _ _ => self.lengths

/-- The property holds of the tree and of every tree that it is built from. -/
def Everywhere (property : Tree → Prop) : Tree → Prop
  | create string => property (create string)
  | createDynamicStr string => property (createDynamicStr string)
  | integerToString value => property (integerToString value)
  | concat left right =>
      property (concat left right) ∧ left.Everywhere property ∧
        right.Everywhere property
  | subs self start stop =>
      property (subs self start stop) ∧ self.Everywhere property
  | compactify self => property (compactify self) ∧ self.Everywhere property
  | replace self target replacement =>
      property (replace self target replacement) ∧ self.Everywhere property ∧
        target.Everywhere property ∧ replacement.Everywhere property

/-- The property holds of every tree that the tree is built from. -/
def Below (property : Tree → Prop) : Tree → Prop
  | concat left right => left.Everywhere property ∧ right.Everywhere property
  | subs self _ _ => self.Everywhere property
  | compactify self => self.Everywhere property
  | replace self target replacement =>
      self.Everywhere property ∧ target.Everywhere property ∧
        replacement.Everywhere property
  | _ => True

/-- The tree itself, and what it is built from. -/
theorem everywhere_iff (property : Tree → Prop) (tree : Tree) :
    tree.Everywhere property ↔ property tree ∧ tree.Below property := by
  cases tree <;> simp [Everywhere, Below]

/-- A property spreads over a tree if it holds of a tree whenever it holds
below. -/
theorem Everywhere.spread
    {given property : Tree → Prop}
    (step : ∀ tree, tree.Below property → given tree → property tree)
    {tree : Tree}
    (all : tree.Everywhere given) :
    tree.Everywhere property := by
  have whole (tree : Tree) (all : tree.Everywhere given)
      (below : tree.Below property) :
      tree.Everywhere property :=
    (everywhere_iff property tree).mpr
      ⟨step tree below ((everywhere_iff given tree).mp all).1, below⟩
  induction tree with
  | create string => exact whole _ all trivial
  | createDynamicStr string => exact whole _ all trivial
  | integerToString value => exact whole _ all trivial
  | concat left right leftHypothesis rightHypothesis =>
      exact whole _ all ⟨leftHypothesis all.2.1, rightHypothesis all.2.2⟩
  | subs self start stop inductionHypothesis =>
      exact whole _ all (inductionHypothesis all.2)
  | compactify self inductionHypothesis =>
      exact whole _ all (inductionHypothesis all.2)
  | replace self target replacement selfHypothesis targetHypothesis
      replacementHypothesis =>
      exact whole _ all ⟨selfHypothesis all.2.1, targetHypothesis all.2.2.1,
        replacementHypothesis all.2.2.2⟩

/-- Two properties at once. -/
theorem Everywhere.and
    {first second : Tree → Prop}
    {tree : Tree}
    (isFirst : tree.Everywhere first)
    (isSecond : tree.Everywhere second) :
    tree.Everywhere fun u => first u ∧ second u := by
  induction tree with
  | create string => exact ⟨isFirst, isSecond⟩
  | createDynamicStr string => exact ⟨isFirst, isSecond⟩
  | integerToString value => exact ⟨isFirst, isSecond⟩
  | concat left right leftHypothesis rightHypothesis =>
      exact ⟨⟨isFirst.1, isSecond.1⟩, leftHypothesis isFirst.2.1 isSecond.2.1,
        rightHypothesis isFirst.2.2 isSecond.2.2⟩
  | subs self start stop inductionHypothesis =>
      exact ⟨⟨isFirst.1, isSecond.1⟩, inductionHypothesis isFirst.2 isSecond.2⟩
  | compactify self inductionHypothesis =>
      exact ⟨⟨isFirst.1, isSecond.1⟩, inductionHypothesis isFirst.2 isSecond.2⟩
  | replace self target replacement selfHypothesis targetHypothesis
      replacementHypothesis =>
      exact ⟨⟨isFirst.1, isSecond.1⟩, selfHypothesis isFirst.2.1 isSecond.2.1,
        targetHypothesis isFirst.2.2.1 isSecond.2.2.1,
        replacementHypothesis isFirst.2.2.2 isSecond.2.2.2⟩

/-- A property that implies another one. -/
theorem Everywhere.imp
    {given property : Tree → Prop}
    (implies : ∀ tree, given tree → property tree)
    {tree : Tree}
    (all : tree.Everywhere given) :
    tree.Everywhere property :=
  all.spread fun tree _ => implies tree

/-- A property that implies another one. -/
theorem Below.imp
    {given property : Tree → Prop}
    (implies : ∀ tree, given tree → property tree)
    {tree : Tree}
    (below : tree.Below given) :
    tree.Below property := by
  cases tree with
  | concat left right =>
      exact ⟨Everywhere.imp implies below.1, Everywhere.imp implies below.2⟩
  | subs self start stop => exact Everywhere.imp implies below
  | compactify self => exact Everywhere.imp implies below
  | replace self target replacement =>
      exact ⟨Everywhere.imp implies below.1, Everywhere.imp implies below.2.1,
        Everywhere.imp implies below.2.2⟩
  | _ => trivial

/-- What the last call of a tree must meet: the slice is behind no empty block,
the blocks to compact fit an `int`, and `String_equals` reports target and
replacement equal, when the replacement has nothing to do. -/
def Local : Tree → Prop
  | subs self start stop => start = stop ∨ Readable stop self.lengths
  | compactify self => Addressable 0 self.lengths
  | replace self target replacement =>
      ∃ targetStr replacementStr, target.run = .ok targetStr ∧
        replacement.run = .ok replacementStr ∧
          equals targetStr replacementStr = .ok true ∧
        (replace self target replacement).denote = self.denote
  | _ => True

/-- The call returns a string with these characters and their hash. -/
structure Built (tree : Tree) (chars : List Byte) (s : Str) : Prop where
  run : tree.run = .ok s
  hash : s.hash = some (hashOf chars)
  represents : ∃ parts, Represents s parts ∧ parts.flatten = chars ∧
    parts.map List.length = tree.lengths

/-! ## Leaves -/

/-- A block with the characters of a C string. -/
theorem represents_cstring
    (specialisation : Specialisation)
    (string : CString)
    (hash : Option Hash) :
    Represents
      (.block ⟨specialisation, string.chars.length, hash, string.memory⟩)
      [string.chars] where
  blocks := .cons ⟨rfl, ⟨[], rfl, fun _ => rfl⟩, string.noNul⟩ .nil
  count := by simp [Str.count]
  nonempty := by simp

/-- `String_create` stores the characters. -/
theorem built_create (string : CString) :
    ∃ s, Built (create string) string.chars s := by
  have run : (create string).run =
      .ok (.block ⟨.staticString, string.chars.length,
      some (hashOf string.chars), string.memory⟩) := by
    rw [Tree.run, Strings.create, CString.memory,
      computeHash_eq string.noNul []]
    rfl
  exact ⟨_, run, rfl, [string.chars], represents_cstring _ string _,
    by simp, rfl⟩

/-- `String_createDynamicStr` stores the characters. -/
theorem built_createDynamicStr (string : CString) :
    ∃ s, Built (createDynamicStr string) string.chars s := by
  have run : (createDynamicStr string).run =
      .ok (.block ⟨.dynamicString, string.chars.length,
      some (hashOf string.chars), string.memory⟩) := by
    rw [Tree.run, Strings.createDynamicStr, CString.memory,
      computeHash_eq string.noNul []]
    rfl
  exact ⟨_, run, rfl, [string.chars], represents_cstring _ string _,
    by simp, rfl⟩

/-- No digit and no sign is NUL. -/
theorem decimal_noNul (value : Int) : 0 ∉ decimal value := by
  have digit (d : Nat) (small : d < 10) : BitVec.ofNat 8 (48 + d) ≠ 0 := by
    intro isNul
    have isZero : (48 + d) % 2 ^ 8 = 0 := congrArg BitVec.toNat isNul
    omega
  intro isNul
  rcases List.mem_append.mp isNul with sign | isDigit
  · split at sign
    · cases List.mem_singleton.mp sign
    · cases sign
  · obtain ⟨d, member, isNul⟩ := List.mem_map.mp isDigit
    refine digit d ?_ isNul
    split at member
    · rw [List.mem_singleton.mp member]
      decide
    · exact Nat.digits_lt_base (by decide) (List.mem_reverse.mp member)

/-- A number has a digit. -/
theorem decimal_ne_nil (value : Int) : decimal value ≠ [] := by
  intro none
  have noDigits := (List.append_eq_nil_iff.mp none).2
  rw [List.map_eq_nil_iff] at noDigits
  split at noDigits
  · cases noDigits
  next nonzero =>
      rw [List.reverse_eq_nil_iff, Nat.digits_eq_nil_iff_eq_zero] at noDigits
      exact nonzero (Int.natAbs_eq_zero.mp noDigits)

/-- A number of 32 bits has up to 11 characters. -/
theorem length_decimal_le (value : BitVec 32) :
    (decimal value.toInt).length ≤ 11 := by
  have small : value.toInt.natAbs < 10 ^ 10 := by
    have lower := value.le_toInt
    have upper := value.toInt_lt
    omega
  have digits :=
    (Nat.digits_length_le_iff (by decide) value.toInt.natAbs).mpr small
  unfold decimal
  rw [List.length_append, List.length_map]
  have sign :
      (if value.toInt < 0 then [45] else [] : List Byte).length ≤ 1 := by
    split <;> simp
  have rest :
      (if value.toInt =
      0 then [0] else (Nat.digits 10 value.toInt.natAbs).reverse).length
      ≤ 10 := by
    split
    · decide
    · rw [List.length_reverse]
      exact digits
  omega

/-- The buffer is large enough for the number. -/
theorem built_integerToString (value : BitVec 32) :
    ∃ s, Built (integerToString value) (decimal value.toInt) s := by
  have short := length_decimal_le value
  have noNul := decimal_noNul value.toInt
  generalize isChars : decimal value.toInt = chars at short noNul
  have fits : (chars ++ [0]).length ≤ 21 := by
    rw [List.length_append, List.length_singleton]
    omega
  have printed : memcpy (createDynamic 20).memory 0 (chars.map some ++ [some 0])
      (chars.length + 1) = .ok (chars.map some ++ some 0 ::
        List.replicate (20 - chars.length) none) := by
    simpa [createDynamic] using memcpy_append [] (chars ++ [0]) fits []
  obtain ⟨rest, isMemory⟩ : ∃ rest, ((chars.map some ++ some 0 ::
      List.replicate (20 - chars.length) none : Memory).set 20 (some 0)) =
        chars.map some ++ some 0 :: rest := by
    obtain ⟨behind, isBehind⟩ : ∃ behind, 20 - chars.length = behind + 1 :=
      ⟨19 - chars.length, by omega⟩
    rw [List.set_append_right _ _ (by simp; omega), List.length_map, isBehind,
      List.set_cons_succ]
    exact ⟨_, rfl⟩
  have run : (integerToString value).run =
      .ok (.block ⟨.dynamicString, chars.length,
      some (hashOf chars), chars.map some ++ some 0 :: rest⟩) := by
    rw [Tree.run, Strings.integerToString, isChars, printed]
    simp only [bind, Except.bind, isMemory, computeHash_eq noNul rest]
    rfl
  refine ⟨_, run, rfl, [chars], ?_, by simp, by rw [Tree.lengths, isChars]; rfl⟩
  constructor
  · refine .cons ⟨rfl, ⟨rest, rfl, ?_⟩, noNul⟩ .nil
    intro isEmpty
    rw [isEmpty] at isChars
    exact absurd isChars (decimal_ne_nil _)
  · simp [Str.count]
  · simp

/-! ## Calls -/

section Calls

variable {self left right : Tree} {chars leftChars rightChars : List Byte}

/-- A string that was built has no NUL. -/
theorem Built.noNul {s : Str} (built : Built self chars s) : 0 ∉ chars := by
  obtain ⟨parts, represents, isContent, _⟩ := built.represents
  rw [← isContent]
  exact holds_noNul represents.blocks

/-- A string that was built has its characters. -/
theorem Built.content {s : Str} (built : Built self chars s) :
    s.content = some chars := by
  obtain ⟨parts, represents, isContent, _⟩ := built.represents
  rw [represents.content_eq, isContent]

/-- A compound string has the characters of both. -/
theorem built_concat
    (leftBuilt : ∃ s, Built left leftChars s)
    (rightBuilt : ∃ s, Built right rightChars s) :
    ∃ s, Built (concat left right) (leftChars ++ rightChars) s := by
  obtain ⟨leftStr, leftRun, leftHash, leftParts, leftRep, isLeft,
    leftLengths⟩ := leftBuilt
  obtain ⟨rightStr, rightRun, rightHash, rightParts, rightRep, isRight,
      rightLengths⟩ :=
    rightBuilt
  refine ⟨Strings.concat leftStr rightStr, ?_, ?_, leftParts ++ rightParts,
    leftRep.concat rightRep, ?_, ?_⟩
  · rw [Tree.run, leftRun, rightRun]
    rfl
  · rw [Strings.concat, Str.hash, leftHash, rightHash, compoundHash_eq]
  · rw [List.flatten_append, isLeft, isRight]
  · rw [List.map_append, leftLengths, rightLengths, Tree.lengths]

/-- A slice that the iterator can read has its characters. -/
theorem built_subs
    (built : ∃ s, Built self chars s)
    {start stop : Nat}
    (ordered : start ≤ stop)
    (inside : stop ≤ chars.length)
    (readable : start = stop ∨ Readable stop self.lengths) :
    ∃ s, Built (subs self start stop)
      ((chars.drop start).take (stop - start)) s := by
  obtain ⟨str, run, _, parts, represents, isContent, lengths⟩ := built
  subst isContent
  rw [← lengths] at readable
  have isLength : ((parts.flatten.drop start).take (stop - start)).length =
      stop - start := by
    rw [List.length_take, List.length_drop]
    omega
  have noNul : 0 ∉ (parts.flatten.drop start).take (stop - start) :=
    fun isNul =>
    holds_noNul represents.blocks
      (List.mem_of_mem_drop (List.mem_of_mem_take isNul))
  have isSlice := subs_eq represents ordered inside readable
  have isRepresented := represents_dynamic noNul
    (some (hashOf ((parts.flatten.drop start).take (stop - start))))
  rw [isLength] at isRepresented
  refine ⟨_, ?_, rfl, [_], isRepresented, by simp,
    by rw [Tree.lengths, List.map_singleton, isLength]⟩
  rw [Tree.run, run]
  exact isSlice

/-- Blocks at offsets that fit an `int` are copied. -/
theorem built_compactify
    (built : ∃ s, Built self chars s)
    (addressable : Addressable 0 self.lengths) :
    ∃ s, Built (compactify self) chars s := by
  obtain ⟨str, run, hash, parts, represents, isContent, lengths⟩ := built
  subst isContent
  rw [← lengths] at addressable
  obtain ⟨block, compacted, holds, keepsHash⟩ :=
    compactify_addressable represents addressable
  refine ⟨.block block, ?_, keepsHash hash, [parts.flatten], ?_, by simp, ?_⟩
  · rw [Tree.run, run]
    simp only [bind, Except.bind, compacted]
    rfl
  · exact ⟨.cons holds .nil, by simp [Str.count, holds.count], by simp⟩
  · rw [Tree.lengths, ← lengths, List.map_singleton, List.length_flatten]

/-- A replacement that `String_equals` finds nothing to do for. -/
theorem built_replace
    {target replacement : Tree}
    (built : ∃ s, Built self chars s)
    {targetStr replacementStr : Str}
    (targetRun : target.run = .ok targetStr)
    (replacementRun : replacement.run = .ok replacementStr)
    (same : equals targetStr replacementStr = .ok true) :
    ∃ s, Built (replace self target replacement) chars s := by
  obtain ⟨str, run, hash, represents⟩ := built
  refine ⟨str, ?_, hash, represents⟩
  rw [Tree.run, run, targetRun, replacementRun]
  simp only [bind, Except.bind, Strings.replace, same, if_true]
  rfl

end Calls

/-- A slice has characters only within the string. -/
theorem denote_subs_eq_some
    {self : Tree}
    {start stop : Nat}
    {chars : List Byte}
    (denotes : (subs self start stop).denote = some chars) :
    ∃ all, self.denote = some all ∧ start ≤ stop ∧ stop ≤ all.length ∧
      chars = (all.drop start).take (stop - start) := by
  obtain ⟨all, isAll, isSlice⟩ := Option.bind_eq_some_iff.mp denotes
  split at isSlice
  next inRange =>
    exact ⟨all, isAll, inRange.1, inRange.2, (Option.some.inj isSlice).symm⟩
  · cases isSlice

/-- What a tree is built from denotes characters if the tree does. -/
theorem Everywhere.of_denotes
    {property : Tree → Prop}
    {tree : Tree}
    (all : tree.Everywhere fun u => ∀ chars, u.denote = some chars → property u)
    {chars : List Byte}
    (denotes : tree.denote = some chars) :
    tree.Everywhere property := by
  induction tree generalizing chars with
  | create string => exact all chars denotes
  | createDynamicStr string => exact all chars denotes
  | integerToString value => exact all chars denotes
  | concat left right leftHypothesis rightHypothesis =>
      obtain ⟨leftChars, isLeft, rest⟩ := Option.bind_eq_some_iff.mp denotes
      obtain ⟨rightChars, isRight, _⟩ := Option.bind_eq_some_iff.mp rest
      exact ⟨all.1 chars denotes, leftHypothesis all.2.1 isLeft,
        rightHypothesis all.2.2 isRight⟩
  | subs self start stop inductionHypothesis =>
      obtain ⟨whole, isWhole, _⟩ := denote_subs_eq_some denotes
      exact ⟨all.1 chars denotes, inductionHypothesis all.2 isWhole⟩
  | compactify self inductionHypothesis =>
      exact ⟨all.1 chars denotes, inductionHypothesis all.2 denotes⟩
  | replace self target replacement selfHypothesis targetHypothesis
      replacementHypothesis =>
      have isReplaced := denotes
      rw [denote] at isReplaced
      split at isReplaced
      next x y isTarget isReplacement =>
          obtain ⟨whole, isWhole, _⟩ := Option.map_eq_some_iff.mp isReplaced
          exact ⟨all.1 chars denotes, selfHypothesis all.2.1 isWhole,
            targetHypothesis all.2.2.1 isTarget,
            replacementHypothesis all.2.2.2 isReplacement⟩
      · cases isReplaced

/-- Where the calls below meet their conditions and the last call does, the
string is built. -/
theorem built_of_below
    {tree : Tree}
    (below : tree.Below fun u => ∀ chars, u.denote = some chars → ∃ s,
      Built u chars s)
    (isLocal : tree.Local)
    {chars : List Byte}
    (denotes : tree.denote = some chars) :
    ∃ s, Built tree chars s := by
  have here {u : Tree} {chars : List Byte}
      (all : u.Everywhere fun u => ∀ chars, u.denote = some chars → ∃ s,
        Built u chars s)
      (isChars : u.denote = some chars) : ∃ s, Built u chars s :=
    ((everywhere_iff _ u).mp all).1 chars isChars
  cases tree with
  | create string =>
      cases denotes
      exact built_create string
  | createDynamicStr string =>
      cases denotes
      exact built_createDynamicStr string
  | integerToString value =>
      cases denotes
      exact built_integerToString value
  | concat left right =>
      obtain ⟨leftChars, isLeft, rest⟩ := Option.bind_eq_some_iff.mp denotes
      obtain ⟨rightChars, isRight, isBoth⟩ := Option.bind_eq_some_iff.mp rest
      cases isBoth
      exact built_concat (here below.1 isLeft) (here below.2 isRight)
  | subs self start stop =>
      obtain ⟨all, isAll, ordered, inside, isSlice⟩ :=
        denote_subs_eq_some denotes
      rw [isSlice]
      exact built_subs (here below isAll) ordered inside isLocal
  | compactify self => exact built_compactify (here below denotes) isLocal
  | replace self target replacement =>
      obtain ⟨targetStr, replacementStr, targetRun, replacementRun, same,
        isSame⟩ := isLocal
      rw [isSame] at denotes
      exact built_replace (here below.1 denotes) targetRun replacementRun same

/-- Where every call meets its condition, every string is built. -/
theorem built_everywhere
    {tree : Tree}
    (sound : tree.Everywhere Local) :
    tree.Everywhere fun u => ∀ chars, u.denote = some chars → ∃ s,
      Built u chars s :=
  sound.spread fun _ below isLocal _ => built_of_below below isLocal

/-- By induction on the tree. -/
theorem built_of_local
    {tree : Tree}
    (sound : tree.Everywhere Local)
    {chars : List Byte}
    (denotes : tree.denote = some chars) :
    ∃ s, Built tree chars s :=
  ((everywhere_iff _ tree).mp (built_everywhere sound)).1 chars denotes

/-! ## Hashes -/

/-- The string has the characters that it should have, and the hash that is
stored in it is the one that `String_computeHash` gives for them. -/
def HashRight (tree : Tree) : Prop :=
  ∃ chars s hash, tree.denote = some chars ∧ tree.run = .ok s ∧
    s.content = some chars ∧
    s.hash = some hash ∧ computeHash (chars.map some ++ [some 0]) = .ok hash

/-- The hash of a string that was built is that of its characters. -/
theorem Built.hashRight
    {tree : Tree}
    {chars : List Byte}
    {s : Str}
    (built : Built tree chars s)
    (denotes : tree.denote = some chars) :
    HashRight tree :=
  ⟨chars, s, _, denotes, built.run, built.content, built.hash,
    computeHash_eq built.noNul []⟩

/-- A replacement that is carried out leaves no hash. -/
theorem replace_eq_ok
    {self target replacement result : Str}
    (replaced : Strings.replace self target replacement = .ok result)
    {hash : Hash}
    (hasHash : result.hash = some hash) :
    equals target replacement = .ok true ∧ result = self := by
  obtain ⟨isSame, same, rest⟩ := bind_eq_ok replaced
  cases isSame with
  | true =>
      cases rest
      exact ⟨same, rfl⟩
  | false =>
      exfalso
      rw [if_neg (by simp)] at rest
      split at rest
      · cases rest
      · obtain ⟨compactified, _, rest⟩ := bind_eq_ok rest
        obtain ⟨copied, _, rest⟩ := bind_eq_ok rest
        obtain ⟨targetIterator, _, rest⟩ := bind_eq_ok rest
        obtain ⟨replacementIterator, _, rest⟩ := bind_eq_ok rest
        obtain ⟨targetChar, _, rest⟩ := bind_eq_ok rest
        obtain ⟨replacementChar, _, rest⟩ := bind_eq_ok rest
        obtain ⟨retValIterator, _, rest⟩ := bind_eq_ok rest
        obtain ⟨memory, _, rest⟩ := bind_eq_ok rest
        cases rest
        cases hasHash

/-- A string with the right characters and hash meets the condition of its last
call, if the strings it is built from are right. -/
theorem local_of_hashRight
    {tree : Tree}
    (below : tree.Below Local)
    (right : HashRight tree) :
    tree.Local := by
  obtain ⟨chars, s, hash, denotes, run, content, hasHash, _⟩ := right
  cases tree with
  | subs self start stop =>
      obtain ⟨all, isAll, ordered, inside, isSlice⟩ :=
        denote_subs_eq_some denotes
      obtain ⟨str, built⟩ := built_of_local below isAll
      obtain ⟨parts, represents, isContent, lengths⟩ := built.represents
      have noNul := built.noNul
      by_contra notLocal
      rw [Local, not_or, ← lengths] at notLocal
      rw [← isContent] at inside
      rw [Tree.run, built.run] at run
      obtain ⟨got, isGot, isNul⟩ := subs_not_readable represents
        (Nat.lt_of_le_of_ne ordered notLocal.1) inside notLocal.2 run
      rw [content] at isGot
      cases isGot
      rw [isSlice] at isNul
      exact noNul (List.mem_of_mem_drop (List.mem_of_mem_take isNul))
  | compactify self =>
      obtain ⟨str, built⟩ := built_of_local below denotes
      obtain ⟨parts, represents, _, lengths⟩ := built.represents
      by_contra notLocal
      rw [Local, ← lengths] at notLocal
      rw [Tree.run, built.run] at run
      simp only [bind, Except.bind,
        compactify_not_addressable represents notLocal] at run
      cases run
  | replace self target replacement =>
      obtain ⟨str, selfRun, rest⟩ := bind_eq_ok run
      obtain ⟨targetStr, targetRun, rest⟩ := bind_eq_ok rest
      obtain ⟨replacementStr, replacementRun, replaced⟩ := bind_eq_ok rest
      obtain ⟨same, isSelf⟩ := replace_eq_ok replaced hasHash
      refine ⟨targetStr, replacementStr, targetRun, replacementRun, same, ?_⟩
      have isReplaced := denotes
      rw [denote] at isReplaced
      split at isReplaced
      next x y _ _ =>
          obtain ⟨all, isAll, _⟩ := Option.map_eq_some_iff.mp isReplaced
          obtain ⟨built, isBuilt⟩ := built_of_local below.1 isAll
          have sameStr : built = str :=
            Except.ok.inj (isBuilt.run.symm.trans selfRun)
          rw [isSelf, ← sameStr, isBuilt.content] at content
          rw [denotes, isAll, content]
      · cases isReplaced
  | _ => trivial

/-- All strings of a tree have the right hash exactly if all calls meet their
conditions: slices are taken behind no empty block, compaction fits an `int`,
and a replacement has nothing to do.  Then strings with one content have one
hash. -/
theorem hashRight_iff_local (tree : Tree) {chars : List Byte}
    (denotes : tree.denote = some chars) :
    (tree.Everywhere HashRight ↔ tree.Everywhere Local) ∧
      (tree.Everywhere Local → ∀ other : Tree, other.Everywhere Local →
        other.denote = some chars → ∀ s t, tree.run = .ok s →
          other.run = .ok t →
          s.hash = t.hash) := by
  constructor
  · constructor
    · intro right
      exact right.spread fun _ => local_of_hashRight
    · intro sound
      refine Everywhere.of_denotes
        (Everywhere.spread ?_ (built_everywhere sound)) denotes
      intro u _ builds chars isChars
      obtain ⟨s, built⟩ := builds chars isChars
      exact built.hashRight isChars
  · intro sound other otherSound otherDenotes s t isRun isOtherRun
    obtain ⟨str, built⟩ := built_of_local sound denotes
    obtain ⟨otherStr, otherBuilt⟩ := built_of_local otherSound otherDenotes
    rw [← Except.ok.inj (built.run.symm.trans isRun),
      ← Except.ok.inj (otherBuilt.run.symm.trans isOtherRun), built.hash,
      otherBuilt.hash]

/-- "ab" -/
def ab : CString := ⟨[97, 98], by decide⟩

/-- A string, a slice of it behind its first character, and their sum. -/
theorem hashRight_iff_local_slice :
    ((concat (create ab) (subs (create ab) 1 2)).Everywhere HashRight ↔
        (concat (create ab) (subs (create ab) 1 2)).Everywhere Local) ∧
      ((concat (create ab) (subs (create ab) 1 2)).Everywhere Local →
        ∀ other : Tree, other.Everywhere Local →
          other.denote = some [97, 98, 98] →
          ∀ s t, (concat (create ab) (subs (create ab) 1 2)).run = .ok s →
            other.run = .ok t → s.hash = t.hash) :=
  hashRight_iff_local (concat (create ab) (subs (create ab) 1 2)) rfl

/-- Replacing a character by another leaves a string without a hash. -/
theorem replace_not_hashRight :
    ¬ ∀ (tree : Tree) (chars : List Byte), tree.denote = some chars →
      HashRight tree := by
  intro right
  obtain ⟨chars, s, hash, _, run, _, hasHash, _⟩ :=
    right (replace (create ⟨[97], by decide⟩) (create ⟨[97], by decide⟩)
      (create ⟨[98], by decide⟩)) [98] rfl
  obtain ⟨str, selfRun, rest⟩ := bind_eq_ok run
  obtain ⟨targetStr, targetRun, rest⟩ := bind_eq_ok rest
  obtain ⟨replacementStr, replacementRun, replaced⟩ := bind_eq_ok rest
  obtain ⟨same, _⟩ := replace_eq_ok replaced hasHash
  cases targetRun
  cases replacementRun
  exact absurd same (by decide)

/-! ## Contents -/

/-- The string is built without `String_replace`. -/
def WithoutReplace : Tree → Prop
  | replace _ _ _ => False
  | _ => True

/-- The string behaves as the characters that it should have. -/
structure BehavesAs (chars : List Byte) (s : Str) : Prop where
  content : s.content = some chars
  count : s.count = chars.length
  charAt : ∀ index (inside : index < chars.length),
    Strings.charAt s index = .ok chars[index]
  subs : ∀ start stop, start ≤ stop → stop ≤ chars.length →
    ∃ slice, Strings.subs s start stop = .ok slice ∧
      slice.content = some ((chars.drop start).take (stop - start))
  compactify : ∃ block, Strings.compactify s = .ok block ∧
    (Str.block block).content = some chars

/-- Building the string gives one that behaves as the characters of the tree. -/
def Behaves (tree : Tree) : Prop :=
  ∃ chars s, tree.denote = some chars ∧ tree.run = .ok s ∧ BehavesAs chars s

/-- No empty block stands before characters, and blocks with characters begin at
offsets that fit an `int`. -/
def Tidy (tree : Tree) : Prop :=
  Readable tree.lengths.sum tree.lengths ∧ Addressable 0 tree.lengths

/-- The blocks have all characters. -/
theorem Built.sum_lengths
    {tree : Tree}
    {chars : List Byte}
    {s : Str}
    (built : Built tree chars s) :
    tree.lengths.sum = chars.length := by
  obtain ⟨parts, _, isContent, lengths⟩ := built.represents
  rw [← lengths, ← isContent, List.length_flatten]

/-- A tidy string that was built behaves as its characters. -/
theorem Built.behavesAs
    {tree : Tree}
    {chars : List Byte}
    {s : Str}
    (built : Built tree chars s)
    (tidy : Tidy tree) :
    BehavesAs chars s := by
  obtain ⟨readable, addressable⟩ := tidy
  have content := built.content
  rw [built.sum_lengths] at readable
  obtain ⟨parts, represents, isContent, lengths⟩ := built.represents
  subst isContent
  rw [← lengths] at readable addressable
  constructor
  · exact content
  · exact represents.count
  · intro index inside
    exact charAt_readable represents inside (readable.mono inside)
  · intro start stop ordered inside
    refine ⟨_,
      subs_eq represents ordered inside (Or.inr (readable.mono inside)), ?_⟩
    have isLength : ((parts.flatten.drop start).take (stop - start)).length =
        stop - start := by
      rw [List.length_take, List.length_drop]
      omega
    have noNul : 0 ∉ (parts.flatten.drop start).take (stop - start) :=
      fun isNul =>
      holds_noNul represents.blocks
        (List.mem_of_mem_drop (List.mem_of_mem_take isNul))
    have isRepresented := represents_dynamic noNul
      (some (hashOf ((parts.flatten.drop start).take (stop - start))))
    rw [isLength] at isRepresented
    rw [isRepresented.content_eq]
    simp
  · obtain ⟨block, compacted, holds, _⟩ :=
      compactify_addressable represents addressable
    have isRepresented : Represents (.block block) [parts.flatten] :=
      ⟨.cons holds .nil, by simp [Str.count, holds.count], by simp⟩
    refine ⟨block, compacted, ?_⟩
    rw [isRepresented.content_eq]
    simp

/-- A tidy string meets the conditions of the calls on it. -/
theorem local_of_tidy
    {tree : Tree}
    (below : tree.Below fun u => u.Tidy ∧ u.Local)
    (plain : tree.WithoutReplace)
    {chars : List Byte}
    (denotes : tree.denote = some chars) :
    tree.Local := by
  cases tree with
  | subs self start stop =>
      obtain ⟨all, isAll, _, inside, _⟩ := denote_subs_eq_some denotes
      have sound : self.Everywhere Local := below.spread fun u _ both => both.2
      obtain ⟨s, built⟩ := built_of_local sound isAll
      obtain ⟨⟨readable, _⟩, _⟩ := ((everywhere_iff _ self).mp below).1
      rw [built.sum_lengths] at readable
      exact Or.inr (readable.mono inside)
  | compactify self => exact ((everywhere_iff _ self).mp below).1.1.2
  | replace self target replacement => exact absurd plain id
  | _ => trivial

/-- A string that behaves as its characters is tidy. -/
theorem tidy_of_behaves
    {tree : Tree}
    (sound : tree.Everywhere Local)
    (behaves : Behaves tree) :
    Tidy tree := by
  obtain ⟨chars, s, denotes, run, behavesAs⟩ := behaves
  obtain ⟨str, built⟩ := built_of_local sound denotes
  have same : str = s := Except.ok.inj (built.run.symm.trans run)
  subst same
  have noNul := built.noNul
  have isSum := built.sum_lengths
  obtain ⟨parts, represents, isContent, lengths⟩ := built.represents
  subst isContent
  constructor
  · by_contra notReadable
    rw [isSum, ← lengths] at notReadable
    have positive : 0 < parts.flatten.length := by
      rcases Nat.eq_zero_or_pos parts.flatten.length with isZero | positive
      · rw [isZero] at notReadable
        exact absurd (Readable.zero _) notReadable
      · exact positive
    have inside : parts.flatten.length - 1 < parts.flatten.length := by omega
    have isNul := charAt_not_readable represents inside
      (by rwa [Nat.sub_add_cancel positive]) (behavesAs.charAt _ inside)
    apply noNul
    rw [← isNul]
    exact List.getElem_mem inside
  · by_contra notAddressable
    rw [← lengths] at notAddressable
    obtain ⟨block, compacted, _⟩ := behavesAs.compactify
    rw [compactify_not_addressable represents notAddressable] at compacted
    cases compacted

/-- `String_equals` says whether two strings should have the same characters. -/
def ComparesRight (tree other : Tree) : Prop :=
  ∃ s t, tree.run = .ok s ∧ other.run = .ok t ∧
    equals s t = .ok (decide (tree.denote = other.denote))

/-- Tidy strings are compared as their characters. -/
theorem comparesRight_of_tidy
    {tree other : Tree}
    (sound : tree.Everywhere Local)
    (otherSound : other.Everywhere Local)
    (tidy : Tidy tree)
    (otherTidy : Tidy other)
    {chars otherChars : List Byte}
    (denotes : tree.denote = some chars)
    (otherDenotes : other.denote = some otherChars) :
    ComparesRight tree other := by
  obtain ⟨s, built⟩ := built_of_local sound denotes
  obtain ⟨t, otherBuilt⟩ := built_of_local otherSound otherDenotes
  refine ⟨s, t, built.run, otherBuilt.run, ?_⟩
  have readable := tidy.1
  have otherReadable := otherTidy.1
  rw [built.sum_lengths] at readable
  rw [otherBuilt.sum_lengths] at otherReadable
  rw [denotes, otherDenotes]
  obtain ⟨parts, represents, isContent, lengths⟩ := built.represents
  obtain ⟨otherParts, otherRepresents, otherContent, otherLengths⟩ :=
    otherBuilt.represents
  subst isContent otherContent
  rw [← lengths] at readable
  rw [← otherLengths] at otherReadable
  rw [equals_readable represents otherRepresents readable otherReadable]
  simp

/-- What behaves is tidy, by induction on the tree. -/
theorem tidy_and_local_of_behaves
    {tree : Tree}
    (plain : tree.Everywhere WithoutReplace)
    (behaves : tree.Everywhere Behaves) :
    tree.Everywhere fun u => Tidy u ∧ Local u := by
  refine Everywhere.spread ?_ (behaves.and plain)
  intro u below both
  obtain ⟨behavesHere, plainHere⟩ := both
  obtain ⟨chars, s, denotes, _⟩ := id behavesHere
  have isLocal := local_of_tidy below plainHere denotes
  have sound : u.Everywhere Local :=
    (everywhere_iff Local u).mpr ⟨isLocal, below.imp fun _ both => both.2⟩
  exact ⟨tidy_of_behaves sound behavesHere, isLocal⟩

/-- Tidy parts meet what each call asks for. -/
theorem local_everywhere_of_tidy
    {tree : Tree}
    (plain : tree.Everywhere WithoutReplace)
    (tidy : tree.Everywhere Tidy)
    {chars : List Byte}
    (denotes : tree.denote = some chars) :
    tree.Everywhere Local := by
  have all : tree.Everywhere fun u => ∃ chars, u.denote = some chars :=
    Everywhere.of_denotes
      (plain.imp fun _ _ chars isChars => ⟨chars, isChars⟩) denotes
  have both : tree.Everywhere fun u => Tidy u ∧ Local u := by
    refine Everywhere.spread ?_ ((tidy.and plain).and all)
    intro u below given
    obtain ⟨⟨tidyHere, plainHere⟩, chars, denotesHere⟩ := given
    exact ⟨tidyHere, local_of_tidy below plainHere denotesHere⟩
  exact both.imp fun _ isBoth => isBoth.2

/-- Tidy parts behave. -/
theorem behaves_of_tidy
    {tree : Tree}
    (plain : tree.Everywhere WithoutReplace)
    (tidy : tree.Everywhere Tidy)
    {chars : List Byte}
    (denotes : tree.denote = some chars) :
    tree.Everywhere Behaves := by
  have sound := local_everywhere_of_tidy plain tidy denotes
  have builds := built_everywhere sound
  refine Everywhere.of_denotes (Everywhere.imp ?_ (tidy.and builds)) denotes
  intro u both chars isChars
  obtain ⟨s, built⟩ := both.2 chars isChars
  exact ⟨chars, s, isChars, built.run, built.behavesAs both.1⟩

/-- Two strings, and all strings that they are built from, behave as the
characters they should have exactly if all of them are tidy. -/
theorem behaves_iff_tidy
    (tree other : Tree)
    (plain : tree.Everywhere WithoutReplace)
    (otherPlain : other.Everywhere WithoutReplace)
    {chars otherChars : List Byte}
    (denotes : tree.denote = some chars)
    (otherDenotes : other.denote = some otherChars) :
    (tree.Everywhere Behaves ∧ other.Everywhere Behaves ∧
      ComparesRight tree other) ↔
      tree.Everywhere Tidy ∧ other.Everywhere Tidy := by
  constructor
  · rintro ⟨behaves, otherBehaves, _⟩
    exact ⟨(tidy_and_local_of_behaves plain behaves).imp fun _ both => both.1,
      (tidy_and_local_of_behaves otherPlain otherBehaves).imp
      fun _ both => both.1⟩
  · rintro ⟨tidy, otherTidy⟩
    refine ⟨behaves_of_tidy plain tidy denotes,
      behaves_of_tidy otherPlain otherTidy otherDenotes, ?_⟩
    exact comparesRight_of_tidy (local_everywhere_of_tidy plain tidy denotes)
      (local_everywhere_of_tidy otherPlain otherTidy otherDenotes)
      ((everywhere_iff Tidy tree).mp tidy).1
      ((everywhere_iff Tidy other).mp otherTidy).1
      denotes otherDenotes

/-- A compound string and a flat one. -/
theorem behaves_iff_tidy_compound :
    ((concat (create ab) (create ab)).Everywhere Behaves ∧
      (create ab).Everywhere Behaves ∧
        ComparesRight (concat (create ab) (create ab)) (create ab)) ↔
      (concat (create ab) (create ab)).Everywhere Tidy ∧
      (create ab).Everywhere Tidy :=
  behaves_iff_tidy (concat (create ab) (create ab)) (create ab)
    ⟨trivial, trivial, trivial⟩ trivial
    rfl rfl

/-- Behind an empty block there is no character. -/
theorem concat_empty_not_behaves :
    ¬ ∀ (tree : Tree) (chars : List Byte), tree.Everywhere WithoutReplace →
      tree.denote = some chars → Behaves tree := by
  intro behaves
  let tree := concat (create ⟨[], by decide⟩) (create ⟨[97], by decide⟩)
  obtain ⟨chars, s, denotes, run, behavesAs⟩ :=
    behaves tree [97] ⟨trivial, trivial, trivial⟩ rfl
  cases denotes
  cases run
  have isChar := behavesAs.charAt 0 (by decide)
  exact absurd isChar (by decide)

end Tree

end Strings
end Runtime
end ClojureRt
