import ClojureRt.Runtime.String.Defs
import Mathlib.Data.List.Forall2

/-!
# The content of a string

The content of a string is what its blocks hold, one after the other.  An
iterator walks over it block by block; an empty block stops it, unless only
empty blocks follow.
-/

namespace ClojureRt
namespace Runtime
namespace Strings

/-- The block holds the characters, with a NUL behind them. -/
structure Block.Holds (block : Block) (chars : List Byte) : Prop where
  count : block.count = chars.length
  memory : ∃ rest, block.memory = chars.map some ++ some 0 :: rest ∧
    (chars = [] → rest = [])
  noNul : 0 ∉ chars

/-- The blocks of the string hold these parts of its content. -/
structure Represents (s : Str) (parts : List (List Byte)) : Prop where
  blocks : List.Forall₂ Block.Holds s.blocks parts
  count : s.count = parts.flatten.length
  nonempty : parts ≠ []

/-- What the block holds, if all of it was written. -/
def Block.content (block : Block) : Option (List Byte) :=
  if block.count ≤ block.memory.length then (block.memory.take block.count).mapM
    id else none

/-- The content of a string. -/
def Str.content (s : Str) : Option (List Byte) :=
  (s.blocks.mapM Block.content).map List.flatten

/-- An iterator reads the first `count` characters of blocks of the given
lengths: it meets no empty block before. -/
def Readable (count : Nat) : List Nat → Prop
  | [] => True
  | length :: lengths =>
      count = 0 ∨ (0 < length ∧ Readable (count - length) lengths)

/-- Nothing is always read. -/
theorem Readable.zero (lengths : List Nat) : Readable 0 lengths := by
  cases lengths with
  | nil => trivial
  | cons length lengths => exact Or.inl rfl

/-- A first block is read if it is not empty. -/
theorem readable_cons_iff {count length : Nat} {lengths : List Nat}
    (positive : 0 < count) :
    Readable count (length :: lengths) ↔ 0 < length ∧
      Readable (count - length) lengths := by
  have nonzero : count ≠ 0 := by omega
  simp [Readable, nonzero]

/-- Fewer characters are read as well. -/
theorem Readable.mono {count other : Nat} {lengths : List Nat}
    (readable : Readable count lengths)
    (le : other ≤ count) :
    Readable other lengths := by
  induction lengths generalizing count other with
  | nil => trivial
  | cons length lengths inductionHypothesis =>
      rcases Nat.eq_zero_or_pos other with isZero | positive
      · exact Or.inl isZero
      · obtain ⟨nonempty, later⟩ :=
          (readable_cons_iff (Nat.lt_of_lt_of_le positive le)).mp readable
        exact Or.inr ⟨nonempty, inductionHypothesis later (by omega)⟩

/-! ## Blocks -/

/-- A character before the NUL is read. -/
theorem read_of_lt
    {chars : List Byte}
    {rest : Memory}
    {index : Nat}
    (inside : index < chars.length) :
    read (chars.map some ++ some 0 :: rest) index = .ok chars[index] := by
  unfold read
  rw [List.getElem?_append_left (by simpa using inside), List.getElem?_map,
    List.getElem?_eq_getElem inside]
  rfl

/-- Every character is there. -/
theorem mapM_id_map_some (chars : List Byte) :
    (chars.map some).mapM id = some chars := by
  induction chars with
  | nil => rfl
  | cons c chars inductionHypothesis =>
      rw [List.map_cons, List.mapM_cons, inductionHypothesis]
      rfl

/-- The content of a block. -/
theorem Block.Holds.content_eq {block : Block} {chars : List Byte}
    (holds : block.Holds chars) :
    block.content = some chars := by
  obtain ⟨rest, isMemory, _⟩ := holds.memory
  unfold Block.content
  rw [if_pos (by rw [isMemory, holds.count]; simp), isMemory, holds.count]
  rw [List.take_append_of_le_length (by simp), List.take_of_length_le (by simp)]
  exact mapM_id_map_some chars

/-- The content of a string is that of its blocks. -/
theorem Represents.content_eq
    {s : Str}
    {parts : List (List Byte)}
    (represents : Represents s parts) :
    s.content = some parts.flatten := by
  have all {blocks : List Block} {parts : List (List Byte)}
      (holds : List.Forall₂ Block.Holds blocks parts) :
      blocks.mapM Block.content = some parts := by
    induction holds with
    | nil => rfl
    | cons first _ inductionHypothesis =>
        rw [List.mapM_cons, first.content_eq, inductionHypothesis]
        rfl
  rw [Str.content, all represents.blocks]
  rfl

/-- Blocks have no NUL. -/
theorem holds_noNul
    {blocks : List Block}
    {parts : List (List Byte)}
    (holds : List.Forall₂ Block.Holds blocks parts) :
    0 ∉ parts.flatten := by
  induction holds with
  | nil => simp
  | cons first _ inductionHypothesis =>
      rw [List.flatten_cons, List.mem_append, not_or]
      exact ⟨first.noNul, inductionHypothesis⟩

/-! ## Iterators -/

/-- The iterator stands `done` characters behind the beginning; the first of the
parts is what is left of its block. -/
structure Reads (it : Iterator) (done : Nat) (parts : List (List Byte)) :
    Prop where
  index : it.index = done
  count : it.count = done + parts.flatten.length
  parts : ∃ chars rest here later, parts = here :: later ∧
    it.block = chars.map some ++ some 0 :: rest ∧ (chars = [] → rest = []) ∧
    it.blockLength = chars.length ∧ chars.drop it.inBlockIndex = here ∧
    it.inBlockIndex ≤ chars.length ∧ (here = [] → chars = []) ∧
    List.Forall₂ Block.Holds it.later later ∧ 0 ∉ here

/-- The iterator stands in or behind an empty block. -/
structure Stuck (it : Iterator) : Prop where
  blockLength : it.blockLength = 0
  block : it.block = [some 0]

/-- A new iterator stands at the beginning. -/
theorem reads_iterator
    {s : Str}
    {parts : List (List Byte)}
    (represents : Represents s parts) :
    ∃ it, iterator s = .ok it ∧ Reads it 0 parts := by
  have count := represents.count
  cases s with
  | block flat =>
      cases represents.blocks with
      | cons holds rest =>
          cases rest
          obtain ⟨junk, isMemory, exact⟩ := holds.memory
          refine ⟨_, rfl, rfl, by simpa [Str.count] using count, ?_⟩
          exact ⟨_, junk, _, [], rfl, isMemory, exact, holds.count, rfl,
            Nat.zero_le _, id, .nil,
            holds.noNul⟩
  | compound total hash blocks =>
      have isBlocks := represents.blocks
      cases blocks with
      | nil =>
          cases isBlocks
          exact absurd rfl represents.nonempty
      | cons child later =>
          cases isBlocks with
          | cons holds rest =>
              obtain ⟨junk, isMemory, exact⟩ := holds.memory
              refine ⟨_, rfl, rfl, by simpa [Str.count] using count, ?_⟩
              exact ⟨_, junk, _, _, rfl, isMemory, exact, holds.count, rfl,
                Nat.zero_le _, id,
                rest, holds.noNul⟩

section Reads

variable {it : Iterator} {done : Nat} {parts : List (List Byte)}

/-- The iterator gives the next character. -/
theorem Reads.get {c : Byte} {cs : List Byte}
    (reads : Reads it done ((c :: cs) :: parts)) :
    iteratorGet it = .ok c := by
  obtain ⟨chars, rest, here, later, isParts, isBlock, _, _, isHere, _⟩ :=
    reads.parts
  cases isParts
  have inside : it.inBlockIndex < chars.length := by
    by_contra beyond
    rw [List.drop_of_length_le (by omega)] at isHere
    cases isHere
  have isChar : chars[it.inBlockIndex] = c := by
    rw [List.drop_eq_getElem_cons inside] at isHere
    exact (List.cons.inj isHere).1
  rw [iteratorGet, isBlock, read_of_lt inside, isChar]

/-- A step within a block. -/
theorem Reads.next_within
    {c d : Byte}
    {cs : List Byte}
    (reads : Reads it done ((c :: d :: cs) :: parts)) :
    ∃ next, iteratorNext it = .ok (next, true) ∧
      Reads next (done + 1) ((d :: cs) :: parts) := by
  obtain ⟨chars, rest, here, later, isParts, isBlock, exact, isLength, isHere,
    _, _, laterHolds,
    noNul⟩ := reads.parts
  cases isParts
  have inside : it.inBlockIndex + 1 < chars.length := by
    by_contra beyond
    have short := congrArg List.length isHere
    simp only [List.length_drop, List.length_cons] at short
    omega
  have isNext : chars.drop (it.inBlockIndex + 1) = d :: cs := by
    rw [← List.drop_drop, isHere]
    rfl
  refine ⟨_, by rw [iteratorNext, if_pos (by omega)], ?_⟩
  refine ⟨by rw [reads.index], ?_, ?_⟩
  · have := reads.count
    simp only [List.flatten_cons, List.length_append,
      List.length_cons] at this ⊢
    omega
  · refine ⟨chars, rest, _, _, rfl, isBlock, exact, isLength, isNext,
      Nat.le_of_lt inside, ?_,
      laterHolds, fun isNul => noNul (List.mem_cons_of_mem c isNul)⟩
    intro impossible
    cases impossible

/-- At the last character of a block. -/
theorem Reads.not_within {c : Byte} (reads : Reads it done ([c] :: parts)) :
    ¬ (it.blockLength = 0 ∨ it.inBlockIndex < it.blockLength - 1) := by
  obtain ⟨chars, rest, here, later, isParts, _, _, isLength, isHere, _⟩ :=
    reads.parts
  cases isParts
  have last := congrArg List.length isHere
  simp only [List.length_drop, List.length_cons, List.length_nil] at last
  omega

/-- At the end of the content. -/
theorem Reads.next_end
    {c : Byte}
    (reads : Reads it done ([c] :: parts))
    (last : parts.flatten = []) :
    iteratorNext it = .ok (it, false) := by
  have isCount := reads.count
  rw [List.flatten_cons, last] at isCount
  rw [iteratorNext, if_neg reads.not_within,
    if_pos (by rw [reads.index, isCount]; rfl)]

/-- From one block to the next. -/
theorem Reads.next_block
    {c : Byte}
    {part : List Byte}
    (reads : Reads it done ([c] :: part :: parts))
    (more : (part :: parts).flatten ≠ []) :
    ∃ next, iteratorNext it = .ok (next, true) ∧
      Reads next (done + 1) (part :: parts) := by
  have isCount := reads.count
  have positive := List.length_pos_of_ne_nil more
  rw [List.flatten_cons, List.length_append] at isCount
  obtain ⟨chars, rest, here, later, isParts, _, _, _, _, _, _, laterHolds, _⟩ :=
    reads.parts
  cases isParts
  cases isLater : it.later with
  | nil =>
      rw [isLater] at laterHolds
      cases laterHolds
  | cons child others =>
      rw [isLater] at laterHolds
      cases laterHolds with
      | cons holds othersHold =>
          obtain ⟨junk, isMemory, exact⟩ := holds.memory
          have notLast : it.count ≠ it.index + 1 := by
            rw [reads.index, isCount, List.length_singleton]
            omega
          refine ⟨_,
            by rw [iteratorNext, if_neg reads.not_within, if_neg notLast,
              isLater],
            by rw [reads.index], ?_, ?_⟩
          · simp only [isCount, List.length_singleton]
            omega
          · exact ⟨_, junk, _, _, rfl, isMemory, exact, holds.count, rfl,
              Nat.zero_le _, id,
              othersHold, holds.noNul⟩

/-- At an empty block the iterator is stuck. -/
theorem Reads.stuck (reads : Reads it done ([] :: parts)) : Stuck it := by
  obtain ⟨chars, rest, here, later, isParts, isBlock, exact, isLength, isHere,
      _, empty, _⟩ :=
    reads.parts
  cases isParts
  have isEmpty := empty rfl
  subst isEmpty
  rw [exact rfl] at isBlock
  exact ⟨isLength, isBlock⟩

/-- A stuck iterator stays in the empty block. -/
theorem Stuck.next (stuck : Stuck it) :
    ∃ next, iteratorNext it = .ok (next, true) ∧ Stuck next := by
  refine ⟨{ it with index := it.index + 1, inBlockIndex := it.inBlockIndex + 1 }, ?_,
    stuck.blockLength, stuck.block⟩
  rw [iteratorNext, if_pos (Or.inl stuck.blockLength)]

/-- A stuck iterator gives NUL. -/
theorem Stuck.get (stuck : Stuck it) {c : Byte} (got : iteratorGet it = .ok c) :
    c = 0 := by
  rw [iteratorGet, stuck.block] at got
  cases isIndex : it.inBlockIndex with
  | zero =>
      rw [isIndex] at got
      cases got
      rfl
  | succ index =>
      rw [isIndex] at got
      simp [read] at got

/-- A stuck iterator stays stuck. -/
theorem Stuck.skip
    (stuck : Stuck it)
    {n : Nat}
    {after : Iterator}
    (skipped : skip n it = .ok after) :
    Stuck after := by
  induction n generalizing it with
  | zero =>
      cases skipped
      exact stuck
  | succ n inductionHypothesis =>
      obtain ⟨next, isNext, nextStuck⟩ := stuck.next
      rw [Strings.skip, isNext] at skipped
      exact inductionHypothesis nextStuck skipped

/-- A readable character is reached. -/
theorem Reads.skip_readable
    (reads : Reads it done parts)
    {n : Nat}
    (inside : n < parts.flatten.length)
    (readable : Readable (n + 1) (parts.map List.length)) :
    ∃ after c cs later, skip n it = .ok after ∧
      Reads after (done + n) ((c :: cs) :: later) ∧
      parts.flatten.drop n = c :: cs ++ later.flatten ∧
      ∀ count, Readable (n + count) (parts.map List.length) →
        Readable count (((c :: cs) :: later).map List.length) := by
  induction n generalizing it done parts with
  | zero =>
      cases parts with
      | nil => cases inside
      | cons part parts =>
          rw [List.map_cons, readable_cons_iff Nat.one_pos] at readable
          cases part with
          | nil => exact absurd readable.1 (Nat.lt_irrefl 0)
          | cons c cs =>
              refine ⟨it, c, cs, parts, rfl, reads, by simp, ?_⟩
              intro count isReadable
              rwa [Nat.zero_add] at isReadable
  | succ n inductionHypothesis =>
      cases parts with
      | nil => cases inside
      | cons part parts =>
          have atStart := readable
          rw [List.map_cons, readable_cons_iff (Nat.succ_pos _)] at atStart
          obtain ⟨nonempty, readableLater⟩ := atStart
          match part, nonempty, readableLater, reads, inside with
          | [c], _, readableLater, reads, inside =>
              have more : parts.flatten ≠ [] := by
                intro none
                rw [List.flatten_cons, none] at inside
                simp at inside
              cases parts with
              | nil => exact absurd rfl more
              | cons part parts =>
                  obtain ⟨next, isNext, readsNext⟩ := reads.next_block more
                  have insideNext : n < (part :: parts).flatten.length := by
                    simpa using inside
                  obtain ⟨after, d, ds, later, skipped, readsAfter, isDrop,
                      keeps⟩ :=
                    inductionHypothesis readsNext insideNext readableLater
                  refine ⟨after, d, ds, later, ?_, ?_, ?_, ?_⟩
                  · rw [skip, isNext]
                    exact skipped
                  · rwa [Nat.add_assoc, Nat.add_comm 1] at readsAfter
                  · simpa using isDrop
                  · intro count isReadable
                    apply keeps
                    rw [List.map_cons,
                      readable_cons_iff (by omega)] at isReadable
                    have isCount : n + 1 + count - [c].length = n + count := by
                      rw [List.length_singleton]
                      omega
                    rw [isCount] at isReadable
                    exact isReadable.2
          | c :: d :: cs, _, readableLater, reads, inside =>
              obtain ⟨next, isNext, readsNext⟩ := reads.next_within
              have insideNext : n < ((d :: cs) :: parts).flatten.length := by
                simp only [List.flatten_cons, List.length_append,
                  List.length_cons] at inside ⊢
                omega
              have shorter (count : Nat)
                  (isReadable :
                    Readable (n + 1 + count) (((c :: d :: cs) :: parts).map
                    List.length)) :
                  Readable (n + count)
                    (((d :: cs) :: parts).map List.length) := by
                rw [List.map_cons, readable_cons_iff (by omega)] at isReadable
                refine Or.inr ⟨Nat.succ_pos _, ?_⟩
                apply isReadable.2.mono
                simp only [List.length_cons]
                omega
              obtain ⟨after, e, es, later, skipped, readsAfter, isDrop,
                  keeps⟩ :=
                inductionHypothesis readsNext insideNext (shorter 1 readable)
              refine ⟨after, e, es, later, ?_, ?_, ?_, ?_⟩
              · rw [skip, isNext]
                exact skipped
              · rwa [Nat.add_assoc, Nat.add_comm 1] at readsAfter
              · simpa using isDrop
              · intro count isReadable
                exact keeps count (shorter count isReadable)

/-- What is read behind an empty block is no character. -/
theorem Reads.skip_not_readable
    (reads : Reads it done parts)
    {n : Nat}
    (inside : n < parts.flatten.length)
    (notReadable : ¬ Readable (n + 1) (parts.map List.length))
    {after : Iterator}
    (skipped : skip n it = .ok after)
    {c : Byte}
    (got : iteratorGet after = .ok c) :
    c = 0 := by
  induction n generalizing it done parts with
  | zero =>
      cases parts with
      | nil => cases inside
      | cons part parts =>
          cases skipped
          cases part with
          | nil => exact reads.stuck.get got
          | cons d cs =>
              refine absurd (Or.inr ⟨Nat.succ_pos _, ?_⟩) notReadable
              rw [Nat.sub_eq_zero_of_le (by simp)]
              exact Readable.zero _
  | succ n inductionHypothesis =>
      cases parts with
      | nil => cases inside
      | cons part parts =>
          match part, reads, inside, notReadable with
          | [], reads, _, _ => exact (reads.stuck.skip skipped).get got
          | [d], reads, inside, notReadable =>
              have more : parts.flatten ≠ [] := by
                intro none
                rw [List.flatten_cons, none] at inside
                simp at inside
              cases parts with
              | nil => exact absurd rfl more
              | cons part parts =>
                  obtain ⟨next, isNext, readsNext⟩ := reads.next_block more
                  have insideNext : n < (part :: parts).flatten.length := by
                    simpa using inside
                  rw [skip, isNext] at skipped
                  refine inductionHypothesis readsNext insideNext ?_ skipped
                  intro readable
                  exact notReadable (Or.inr ⟨Nat.one_pos, readable⟩)
          | d :: e :: cs, reads, inside, notReadable =>
              obtain ⟨next, isNext, readsNext⟩ := reads.next_within
              have insideNext : n < ((e :: cs) :: parts).flatten.length := by
                simp only [List.flatten_cons, List.length_append,
                  List.length_cons] at inside ⊢
                omega
              rw [skip, isNext] at skipped
              refine inductionHypothesis readsNext insideNext ?_ skipped
              intro readable
              rw [List.map_cons, readable_cons_iff (Nat.succ_pos n)] at readable
              refine notReadable (Or.inr ⟨Nat.succ_pos _, ?_⟩)
              apply readable.2.mono
              simp only [List.length_cons]
              omega

/-- An iterator never runs out of blocks. -/
theorem Reads.next_ok (reads : Reads it done parts) :
    ∃ next isChar, iteratorNext it = .ok (next, isChar) ∧
      (Stuck next ∨ ∃ done parts, Reads next done parts) := by
  obtain ⟨_, _, here, later, isParts, _⟩ := reads.parts
  subst isParts
  match here, reads with
  | [], reads =>
      obtain ⟨next, isNext, stuck⟩ := reads.stuck.next
      exact ⟨next, true, isNext, Or.inl stuck⟩
  | [c], reads =>
      by_cases last : later.flatten = []
      · exact ⟨it, false, reads.next_end last, Or.inr ⟨done, _, reads⟩⟩
      · cases later with
        | nil => exact absurd rfl last
        | cons part parts =>
            obtain ⟨next, isNext, readsNext⟩ := reads.next_block last
            exact ⟨next, true, isNext, Or.inr ⟨_, _, readsNext⟩⟩
  | c :: d :: cs, reads =>
      obtain ⟨next, isNext, readsNext⟩ := reads.next_within
      exact ⟨next, true, isNext, Or.inr ⟨_, _, readsNext⟩⟩

/-- Skipping always returns. -/
theorem Reads.skip_ok (reads : Reads it done parts) (n : Nat) :
    ∃ after, skip n it = .ok after := by
  have all (n : Nat) (it : Iterator) (stands : Stuck it ∨ ∃ done parts,
      Reads it done parts) :
      ∃ after, skip n it = .ok after := by
    induction n generalizing it with
    | zero => exact ⟨it, rfl⟩
    | succ n inductionHypothesis =>
        have step : ∃ next isChar, iteratorNext it = .ok (next, isChar) ∧
            (Stuck next ∨ ∃ done parts, Reads next done parts) := by
          rcases stands with stuck | ⟨_, _, reads⟩
          · obtain ⟨next, isNext, nextStuck⟩ := stuck.next
            exact ⟨next, true, isNext, Or.inl nextStuck⟩
          · exact reads.next_ok
        obtain ⟨next, isChar, isNext, nextStands⟩ := step
        obtain ⟨after, skipped⟩ := inductionHypothesis next nextStands
        exact ⟨after, by rw [skip, isNext]; exact skipped⟩
  exact all n it (Or.inr ⟨done, parts, reads⟩)

/-- Skipping in two steps. -/
theorem skip_add (m n : Nat) (it : Iterator) : skip
    (m + n) it = skip m it >>= skip n := by
  induction m generalizing it with
  | zero =>
      rw [Nat.zero_add]
      rfl
  | succ m inductionHypothesis =>
      rw [Nat.succ_add, skip, skip]
      cases iteratorNext it with
      | error failure => rfl
      | ok stepped => exact inductionHypothesis stepped.1

/-- Characters that are readable are copied. -/
theorem Reads.copyChars_readable
    {c : Byte}
    {cs : List Byte}
    (reads : Reads it done ((c :: cs) :: parts))
    {n : Nat}
    (inside : n ≤ (c :: cs ++ parts.flatten).length)
    (readable : Readable n (((c :: cs) :: parts).map List.length)) :
    copyChars n it = .ok ((c :: cs ++ parts.flatten).take n) := by
  induction n generalizing it done parts c cs with
  | zero => rfl
  | succ n inductionHypothesis =>
      rw [copyChars, reads.get]
      obtain ⟨next, isChar, isNext, _⟩ := reads.next_ok
      cases n with
      | zero =>
          rw [isNext]
          rfl
      | succ n =>
          rw [List.map_cons, readable_cons_iff (Nat.succ_pos _)] at readable
          match cs, reads, inside, readable.2 with
          | [], reads, inside, readableLater =>
              have more : parts.flatten ≠ [] := by
                intro none
                rw [none] at inside
                simp at inside
              cases parts with
              | nil => exact absurd rfl more
              | cons part parts =>
                  obtain ⟨next, isNext, readsNext⟩ := reads.next_block more
                  have atStart :
                      Readable (n + 1) ((part :: parts).map List.length) :=
                    readableLater
                  rw [List.map_cons,
                    readable_cons_iff (Nat.succ_pos _)] at atStart
                  cases part with
                  | nil => exact absurd atStart.1 (Nat.lt_irrefl 0)
                  | cons d ds =>
                      have copied := inductionHypothesis readsNext
                        (by simpa using inside) readableLater
                      rw [isNext]
                      simp only [bind, Except.bind, copied]
                      rfl
          | d :: ds, reads, inside, readableLater =>
              obtain ⟨next, isNext, readsNext⟩ := reads.next_within
              have readableNext :
                  Readable (n + 1) (((d :: ds) :: parts).map List.length) := by
                refine Or.inr ⟨Nat.succ_pos _, ?_⟩
                apply readableLater.mono
                simp only [List.length_cons]
                omega
              have copied := inductionHypothesis readsNext
                (by simpa using inside) readableNext
              rw [isNext]
              simp only [bind, Except.bind, copied]
              rfl

/-- Every character that is copied was read after as many steps. -/
theorem copyChars_get
    {n : Nat}
    {dest : List Byte}
    (copied : copyChars n it = .ok dest) :
    dest.length = n ∧ ∀ k, k < n → ∃ after c, skip k it = .ok after ∧
      iteratorGet after = .ok c ∧ dest[k]? = some c := by
  induction n generalizing it dest with
  | zero =>
      cases copied
      exact ⟨rfl, by intro _ impossible; cases impossible⟩
  | succ n inductionHypothesis =>
      rw [copyChars] at copied
      cases got : iteratorGet it with
      | error failure =>
          rw [got] at copied
          cases copied
      | ok c =>
          cases stepped : iteratorNext it with
          | error failure =>
              rw [got, stepped] at copied
              cases copied
          | ok next =>
              cases later : copyChars n next.1 with
              | error failure =>
                  simp only [got, stepped, bind, Except.bind, later] at copied
                  cases copied
              | ok rest =>
                  simp only [got, stepped, bind, Except.bind, later] at copied
                  cases copied
                  obtain ⟨isLength, each⟩ := inductionHypothesis later
                  refine ⟨by rw [List.length_cons, isLength], ?_⟩
                  intro k below
                  cases k with
                  | zero => exact ⟨it, c, rfl, got, rfl⟩
                  | succ k =>
                      obtain ⟨after, d, skipped, isGet, isChar⟩ :=
                        each k (by omega)
                      refine ⟨after, d, ?_, isGet, isChar⟩
                      rw [skip, stepped]
                      exact skipped

end Reads

/-! ## Hashes -/

/-- The sum of what characters add to a hash. -/
def charSum : List Byte → Hash
  | [] => 0
  | c :: cs => avalanche (c.signExtend 64) + charSum cs

/-- The hash of a content. -/
def hashOf (chars : List Byte) : Hash :=
  5381 + charSum chars

/-- The sums of two lists are added. -/
theorem charSum_append (first second : List Byte) :
    charSum (first ++ second) = charSum first + charSum second := by
  induction first with
  | nil => simp [charSum]
  | cons c cs inductionHypothesis =>
      rw [List.cons_append, charSum, charSum, inductionHypothesis,
        BitVec.add_assoc]

/-- The loop adds up the characters. -/
theorem hashFrom_eq
    {chars : List Byte}
    (noNul : 0 ∉ chars)
    (h : Hash)
    (rest : Memory) :
    hashFrom h (chars.map some ++ some 0 :: rest) =
      .ok (h + charSum chars) := by
  induction chars generalizing h with
  | nil => simp [hashFrom, charSum]
  | cons c cs inductionHypothesis =>
      rw [List.mem_cons, not_or] at noNul
      rw [List.map_cons, List.cons_append, hashFrom, if_neg (Ne.symm noNul.1),
        inductionHypothesis noNul.2, charSum, BitVec.add_assoc]

/-- The hash of a block. -/
theorem computeHash_eq {chars : List Byte} (noNul : 0 ∉ chars) (rest : Memory) :
    computeHash (chars.map some ++ some 0 :: rest) = .ok (hashOf chars) :=
  hashFrom_eq noNul 5381 rest

/-- A byte that was never written is met before any NUL. -/
theorem hashFrom_undefined
    {memory : Memory}
    {index : Nat}
    (unwritten : memory[index]? = some none)
    (noNul : ∀ k, k < index → memory[k]? ≠ some (some 0))
    (h : Hash) :
    hashFrom h memory = .error .undefined := by
  induction memory generalizing index h with
  | nil => cases unwritten
  | cons byte memory inductionHypothesis =>
      cases byte with
      | none => rfl
      | some c =>
          cases index with
          | zero => cases unwritten
          | succ index =>
              have notNul : c ≠ 0 := by
                intro isNul
                exact noNul 0 (Nat.succ_pos _) (by rw [isNul]; rfl)
              rw [hashFrom, if_neg notNul]
              apply inductionHypothesis unwritten
              intro k below
              exact noNul (k + 1) (Nat.succ_lt_succ below)

/-- Two hashes have the initial value twice. -/
theorem add_add_sub (initial left right : Hash) :
    initial + left + (initial + right) - initial = initial +
      (left + right) := by
  bv_omega

/-- The hash of a compound string is that of its characters. -/
theorem compoundHash_eq (left right : List Byte) :
    compoundHash (some (hashOf left)) (some (hashOf right)) =
      some (hashOf (left ++ right)) := by
  have emptyHash : computeHash [some 0] = .ok 5381 := rfl
  simp only [compoundHash, emptyHash, Except.toOption, Option.pure_def,
    Option.bind_eq_bind, Option.bind_some, hashOf, charSum_append, add_add_sub]

/-! ## Characters and slices -/

section Operations

variable {s : Str} {parts : List (List Byte)}

/-- A character that the iterator comes to. -/
theorem charAt_readable
    (represents : Represents s parts)
    {index : Nat}
    (inside : index < parts.flatten.length)
    (readable : Readable (index + 1) (parts.map List.length)) :
    charAt s index = .ok parts.flatten[index] := by
  obtain ⟨it, isIterator, reads⟩ := reads_iterator represents
  obtain ⟨after, c, cs, later, skipped, readsAfter, isDrop, _⟩ :=
    reads.skip_readable inside readable
  have isChar : parts.flatten[index] = c := by
    rw [List.drop_eq_getElem_cons inside] at isDrop
    exact (List.cons.inj isDrop).1
  have below : ¬ s.count ≤ index := by
    rw [represents.count]
    omega
  rw [charAt, if_neg below, isIterator]
  simp only [bind, Except.bind, skipped, readsAfter.get, isChar]

/-- Behind an empty block there is only NUL. -/
theorem charAt_not_readable
    (represents : Represents s parts)
    {index : Nat}
    (inside : index < parts.flatten.length)
    (notReadable : ¬ Readable (index + 1) (parts.map List.length))
    {c : Byte}
    (isChar : charAt s index = .ok c) :
    c = 0 := by
  obtain ⟨it, isIterator, reads⟩ := reads_iterator represents
  obtain ⟨after, skipped⟩ := reads.skip_ok index
  have below : ¬ s.count ≤ index := by
    rw [represents.count]
    omega
  rw [charAt, if_neg below, isIterator] at isChar
  simp only [bind, Except.bind, skipped] at isChar
  exact reads.skip_not_readable inside notReadable skipped isChar

/-- The block that `String_subs` makes. -/
theorem represents_dynamic
    {chars : List Byte}
    (noNul : 0 ∉ chars)
    (hash : Option Hash) :
    Represents
      (.block ⟨.dynamicString, chars.length, hash, chars.map some ++ [some 0]⟩)
      [chars] where
  blocks := .cons ⟨rfl, ⟨[], rfl, fun _ => rfl⟩, noNul⟩ .nil
  count := by simp [Str.count]
  nonempty := by simp

/-- The blocks of both strings. -/
theorem Represents.concat
    {left right : Str}
    {leftParts rightParts : List (List Byte)}
    (leftRepresents : Represents left leftParts)
    (rightRepresents : Represents right rightParts) :
    Represents (Strings.concat left right) (leftParts ++ rightParts) where
  blocks := List.rel_append leftRepresents.blocks rightRepresents.blocks
  count := by
    rw [Strings.concat, Str.count, leftRepresents.count, rightRepresents.count,
      List.flatten_append, List.length_append]
  nonempty :=
    fun none => leftRepresents.nonempty (List.append_eq_nil_iff.mp none).1

/-- A slice is copied into a block of its own. -/
theorem subs_eq
    (represents : Represents s parts)
    {start stop : Nat}
    (ordered : start ≤ stop)
    (inside : stop ≤ parts.flatten.length)
    (readable : start = stop ∨ Readable stop (parts.map List.length)) :
    subs s start stop = .ok (.block ⟨.dynamicString, stop - start,
      some (hashOf ((parts.flatten.drop start).take (stop - start))),
      ((parts.flatten.drop start).take (stop - start)).map some ++
      [some 0]⟩) := by
  obtain ⟨it, isIterator, reads⟩ := reads_iterator represents
  have noNul : 0 ∉ (parts.flatten.drop start).take (stop - start) :=
    fun isNul =>
    holds_noNul represents.blocks
      (List.mem_of_mem_drop (List.mem_of_mem_take isNul))
  have inRange : ¬ (stop < start ∨ s.count < stop) := by
    rw [represents.count]
    omega
  have copied : ∃ after, skip start it = .ok after ∧
      copyChars (stop - start) after =
        .ok ((parts.flatten.drop start).take (stop - start)) := by
    rcases Nat.eq_or_lt_of_le ordered with same | less
    · obtain ⟨after, skipped⟩ := reads.skip_ok start
      refine ⟨after, skipped, ?_⟩
      rw [same, Nat.sub_self]
      rfl
    · have isReadable : Readable stop (parts.map List.length) := by
        rcases readable with same | isReadable
        · omega
        · exact isReadable
      obtain ⟨after, c, cs, later, skipped, readsAfter, isDrop, keeps⟩ :=
        reads.skip_readable (Nat.lt_of_lt_of_le less inside)
          (isReadable.mono less)
      refine ⟨after, skipped, ?_⟩
      rw [isDrop]
      apply readsAfter.copyChars_readable
      · rw [← isDrop, List.length_drop]
        omega
      · apply keeps
        rwa [Nat.add_sub_cancel' ordered]
  obtain ⟨after, skipped, isCopied⟩ := copied
  rw [subs, if_neg inRange, isIterator]
  simp only [bind, Except.bind, skipped, isCopied, computeHash_eq noNul []]
  rfl

/-- A slice that is not readable has a NUL in it, if it is made at all. -/
theorem subs_not_readable
    (represents : Represents s parts)
    {start stop : Nat}
    (less : start < stop)
    (inside : stop ≤ parts.flatten.length)
    (notReadable : ¬ Readable stop (parts.map List.length))
    {result : Str}
    (isResult : subs s start stop = .ok result) :
    ∃ chars, result.content = some chars ∧ 0 ∈ chars := by
  obtain ⟨it, isIterator, reads⟩ := reads_iterator represents
  obtain ⟨after, skipped⟩ := reads.skip_ok start
  have inRange : ¬ (stop < start ∨ s.count < stop) := by
    rw [represents.count]
    omega
  rw [subs, if_neg inRange, isIterator] at isResult
  simp only [bind, Except.bind, skipped] at isResult
  cases copied : copyChars (stop - start) after with
  | error failure =>
      rw [copied] at isResult
      cases isResult
  | ok dest =>
      rw [copied] at isResult
      simp only at isResult
      split at isResult
      · cases isResult
      · cases isResult
        obtain ⟨isLength, each⟩ := copyChars_get copied
        refine ⟨dest, ?_, ?_⟩
        · rw [Str.content, Str.blocks, List.mapM_cons, Block.content]
          simp only [List.length_append, List.length_map, isLength,
            List.length_singleton]
          rw [if_pos (Nat.le_succ _),
            List.take_append_of_le_length (by simp [isLength]),
            List.take_of_length_le (by simp [isLength]), mapM_id_map_some]
          simp
        · obtain ⟨last, c, skippedLast, got, isLast⟩ :=
            each (stop - start - 1) (by omega)
          have together : skip (stop - 1) it = .ok last := by
            have sum : stop - 1 = start + (stop - start - 1) := by omega
            rw [sum, skip_add, skipped]
            exact skippedLast
          have isNul : c = 0 := by
            apply reads.skip_not_readable (n := stop - 1) (by omega) ?_
              together got
            rwa [Nat.sub_add_cancel (by omega)]
          rw [isNul] at isLast
          exact List.mem_of_getElem? isLast

end Operations

end Strings
end Runtime
end ClojureRt
