import ClojureRt.Runtime.String.Contents

/-!
# Compaction

`String_compactify` copies the blocks of a compound string one behind the other.
It keeps the place to copy to in an `int`, so a block that begins at 2 ^ 31 or
later does not get where it belongs; then the last character is never written.
-/

namespace ClojureRt
namespace Runtime
namespace Strings

/-- Every block with characters begins at an offset that fits an `int`. -/
def Addressable : Nat → List Nat → Prop
  | _, [] => True
  | offset, length :: lengths =>
      (length = 0 ∨ offset < 2 ^ 31) ∧ Addressable (offset + length) lengths

theorem toInt_ofNat_of_lt {offset : Nat} (small : offset < 2 ^ 31) :
    (BitVec.ofNat 32 offset).toInt = offset := by
  rw [BitVec.toInt_eq_toNat_cond, BitVec.toNat_ofNat]
  split <;> omega

theorem toInt_ofNat_le
    (offset : Nat) : (BitVec.ofNat 32 offset).toInt ≤ offset := by
  rw [BitVec.toInt_eq_toNat_cond, BitVec.toNat_ofNat]
  split <;> omega

theorem toInt_ofNat_lt
    (offset : Nat) : (BitVec.ofNat 32 offset).toInt < 2 ^ 31 := by
  rw [BitVec.toInt_eq_toNat_cond, BitVec.toNat_ofNat]
  split <;> omega

/-! ## Blocks that fit -/

/-- A block is copied behind what was written so far. -/
theorem memcpy_append
    (done chars : List Byte)
    {free : Nat}
    (fits : chars.length ≤ free)
    (rest : Memory) :
    memcpy (done.map some ++ List.replicate free none) done.length
        (chars.map some ++ rest) chars.length =
      .ok ((done ++ chars).map some ++ List.replicate (free - chars.length)
        none) := by
  unfold memcpy
  split
  next isEmpty =>
      have noChars : chars = [] := List.eq_nil_of_length_eq_zero isEmpty
      simp [noChars]
  next =>
      have inside : ¬ ((done.length : Int) < 0 ∨
          (((done.map some ++ List.replicate free none : Memory).length : Nat) :
            Int) <
            done.length + chars.length ∨
          (chars.map some ++ rest).length < chars.length) := by
        simp only [List.length_append, List.length_map, List.length_replicate]
        omega
      rw [if_neg inside, Int.toNat_natCast]
      congr 1
      rw [List.take_append_of_le_length (by simp),
        List.take_of_length_le (by simp),
        List.take_append_of_le_length (by simp),
        List.take_of_length_le (by simp),
        List.drop_append, List.drop_of_length_le (by simp), List.length_map,
        Nat.add_sub_cancel_left, List.drop_replicate, List.map_append]
      simp

theorem copyBlocks_addressable
    {blocks : List Block}
    {parts : List (List Byte)}
    (holds : List.Forall₂ Block.Holds blocks parts)
    (done : List Byte)
    {free : Nat}
    (fits : parts.flatten.length ≤ free)
    (addressable : Addressable done.length (parts.map List.length)) :
    copyBlocks blocks (BitVec.ofNat 32 done.length)
        (done.map some ++ List.replicate free none) =
      .ok ((done ++ parts.flatten).map some ++
        List.replicate (free - parts.flatten.length) none) := by
  induction holds generalizing done free with
  | nil => simp [copyBlocks]
  | @cons block chars blocks parts first _ inductionHypothesis =>
      obtain ⟨rest, isMemory, _⟩ := first.memory
      obtain ⟨begins, later⟩ := addressable
      rw [List.flatten_cons, List.length_append] at fits
      have copied : memcpy (done.map some ++ List.replicate free none)
          (BitVec.ofNat 32 done.length).toInt block.memory block.count =
            .ok ((done ++ chars).map some ++
              List.replicate (free - chars.length) none) := by
        rw [first.count, isMemory]
        rcases begins with isEmpty | small
        · have noChars : chars = [] := List.eq_nil_of_length_eq_zero isEmpty
          simp [memcpy, noChars]
        · rw [toInt_ofNat_of_lt small]
          exact memcpy_append done chars (by omega) _
      have next : BitVec.ofNat 32 done.length + BitVec.ofNat 32 block.count =
          BitVec.ofNat 32 (done ++ chars).length := by
        rw [first.count, List.length_append, BitVec.ofNat_add]
      rw [← List.length_append] at later
      rw [copyBlocks, copied]
      simp only [bind, Except.bind, next]
      rw [inductionHypothesis (done ++ chars) (by omega) later,
        List.flatten_cons,
        List.append_assoc, List.length_append, Nat.sub_sub]

/-! ## Blocks that do not fit -/

/-- Nothing was written from an offset on, and no NUL anywhere. -/
structure Fresh (offset : Nat) (output : Memory) : Prop where
  unwritten : ∀ k, offset ≤ k → k < output.length → output[k]? = some none
  noNul : some 0 ∉ output

theorem getElem?_memcpy
    {output source result : Memory}
    {start : Int}
    {count : Nat}
    (copied : memcpy output start source count = .ok result)
    {k : Nat}
    (behind : start + count ≤ k) :
    result[k]? = output[k]? := by
  unfold memcpy at copied
  split at copied
  · cases copied
    rfl
  · split at copied
    · cases copied
    next inside =>
        cases copied
        rw [not_or, not_or] at inside
        have isStart : (start.toNat : Int) = start :=
          Int.toNat_of_nonneg (by omega)
        rw [List.getElem?_append_right (by simp; omega), List.getElem?_drop]
        congr 1
        simp only [List.length_append, List.length_take]
        omega

theorem length_memcpy
    {output source result : Memory}
    {start : Int}
    {count : Nat}
    (copied : memcpy output start source count = .ok result) :
    result.length = output.length := by
  unfold memcpy at copied
  split at copied
  · cases copied
    rfl
  · split at copied
    · cases copied
    next inside =>
        cases copied
        simp only [List.length_append, List.length_take, List.length_drop]
        omega

theorem memcpy_noNul
    {output source result : Memory}
    {start : Int}
    {count : Nat}
    (copied : memcpy output start source count = .ok result)
    (outputNoNul : some 0 ∉ output)
    (sourceNoNul : some 0 ∉ source.take count) :
    some 0 ∉ result := by
  unfold memcpy at copied
  split at copied
  · cases copied
    exact outputNoNul
  · split at copied
    · cases copied
    · cases copied
      rw [List.mem_append, List.mem_append]
      rintro ((before | copied) | behind)
      · exact outputNoNul (List.mem_of_mem_take before)
      · exact sourceNoNul copied
      · exact outputNoNul (List.mem_of_mem_drop behind)

theorem memcpy_error
    {output source : Memory}
    {start : Int}
    {count : Nat}
    {failure : Failure}
    (failed : memcpy output start source count = .error failure) :
    failure = .undefined := by
  unfold memcpy at failed
  split at failed
  · cases failed
  · split at failed
    · cases failed
      rfl
    · cases failed

section Gap

variable {output result : Memory} {block : Block} {chars : List Byte}
  {offset : Nat}

theorem Fresh.memcpy
    (fresh : Fresh offset output)
    (holds : block.Holds chars)
    (copied : memcpy output (BitVec.ofNat 32 offset).toInt block.memory
      block.count =
      .ok result) :
    Fresh (offset + chars.length) result where
  unwritten := by
    intro k behind inside
    have notBefore := toInt_ofNat_le offset
    rw [getElem?_memcpy copied (by rw [holds.count]; omega)]
    rw [length_memcpy copied] at inside
    exact fresh.unwritten k (by omega) inside
  noNul := by
    obtain ⟨rest, isMemory, _⟩ := holds.memory
    apply memcpy_noNul copied fresh.noNul
    rw [isMemory, holds.count, List.take_append_of_le_length (by simp),
      List.take_of_length_le (by simp)]
    intro isNul
    obtain ⟨c, member, isC⟩ := List.mem_map.mp isNul
    cases isC
    exact holds.noNul member

/-- The last character of a block that begins too late is not written. -/
theorem Fresh.memcpy_late
    (fresh : Fresh offset output)
    (holds : block.Holds chars)
    (nonempty : 0 < chars.length)
    (late : 2 ^ 31 ≤ offset)
    (inside : offset + chars.length ≤ output.length)
    (copied : Strings.memcpy output (BitVec.ofNat 32 offset).toInt block.memory
      block.count =
      .ok result) :
    result[offset + chars.length - 1]? = some none := by
  have early := toInt_ofNat_lt offset
  rw [getElem?_memcpy copied (by rw [holds.count]; omega)]
  exact fresh.unwritten _ (by omega) (by omega)

/-- What is left unwritten behind a block that begins too late. -/
structure Gap (offset : Nat) (output : Memory) : Prop where
  fresh : Fresh offset output
  late : 2 ^ 31 ≤ offset
  unwritten : output[offset - 1]? = some none

theorem copyBlocks_gap
    {blocks : List Block}
    {parts : List (List Byte)}
    (holds : List.Forall₂ Block.Holds blocks parts)
    (gap : Gap offset output)
    (inside : offset + parts.flatten.length ≤ output.length)
    (copied : copyBlocks blocks (BitVec.ofNat 32 offset) output = .ok result) :
    Gap (offset + parts.flatten.length) result ∧
      result.length = output.length := by
  induction holds generalizing offset output with
  | nil =>
      cases copied
      exact ⟨gap, rfl⟩
  | @cons block chars blocks parts first _ inductionHypothesis =>
      rw [List.flatten_cons, List.length_append] at inside ⊢
      rw [copyBlocks] at copied
      cases written : Strings.memcpy output (BitVec.ofNat 32 offset).toInt
          block.memory block.count with
      | error failure =>
          rw [written] at copied
          cases copied
      | ok next =>
          rw [written] at copied
          simp only [bind, Except.bind] at copied
          rw [first.count, ← BitVec.ofNat_add] at copied
          have isLength := length_memcpy written
          have late := gap.late
          have nextGap : Gap (offset + chars.length) next := by
            refine ⟨gap.fresh.memcpy first written, by omega, ?_⟩
            rcases Nat.eq_zero_or_pos chars.length with isEmpty | nonempty
            · rw [first.count, isEmpty, Strings.memcpy, if_pos rfl] at written
              cases written
              rw [isEmpty, Nat.add_zero]
              exact gap.unwritten
            · exact gap.fresh.memcpy_late first nonempty late (by omega) written
          obtain ⟨atEnd, sameLength⟩ :=
            inductionHypothesis nextGap (by omega) copied
          rw [← Nat.add_assoc]
          exact ⟨atEnd, sameLength.trans isLength⟩

theorem copyBlocks_not_addressable
    {blocks : List Block}
    {parts : List (List Byte)}
    (holds : List.Forall₂ Block.Holds blocks parts)
    (fresh : Fresh offset output)
    (notAddressable : ¬ Addressable offset (parts.map List.length))
    (inside : offset + parts.flatten.length ≤ output.length)
    (copied : copyBlocks blocks (BitVec.ofNat 32 offset) output = .ok result) :
    Gap (offset + parts.flatten.length) result ∧
      result.length = output.length := by
  induction holds generalizing offset output with
  | nil => exact absurd trivial notAddressable
  | @cons block chars blocks parts first laterHold inductionHypothesis =>
      rw [List.flatten_cons, List.length_append] at inside ⊢
      rw [copyBlocks] at copied
      cases written : Strings.memcpy output (BitVec.ofNat 32 offset).toInt
          block.memory block.count with
      | error failure =>
          rw [written] at copied
          cases copied
      | ok next =>
          rw [written] at copied
          simp only [bind, Except.bind] at copied
          rw [first.count, ← BitVec.ofNat_add] at copied
          have isLength := length_memcpy written
          have nextFresh := fresh.memcpy first written
          rw [← Nat.add_assoc, ← isLength]
          by_cases begins : chars.length = 0 ∨ offset < 2 ^ 31
          · have later :
                ¬ Addressable (offset + chars.length) (parts.map List.length) :=
              fun addressable => notAddressable ⟨begins, addressable⟩
            exact inductionHypothesis nextFresh later (by omega) copied
          · rw [not_or] at begins
            have late : 2 ^ 31 ≤ offset := Nat.le_of_not_lt begins.2
            have gap : Gap (offset + chars.length) next :=
              ⟨nextFresh, by omega,
                fresh.memcpy_late first (Nat.pos_of_ne_zero begins.1) late
                  (by omega) written⟩
            exact copyBlocks_gap laterHold gap (by omega) copied

theorem copyBlocks_error
    {blocks : List Block}
    {start : BitVec 32}
    {failure : Failure}
    (failed : copyBlocks blocks start output = .error failure) :
    failure = .undefined := by
  induction blocks generalizing start output with
  | nil => cases failed
  | cons block blocks inductionHypothesis =>
      rw [copyBlocks] at failed
      cases written : Strings.memcpy output start.toInt block.memory
        block.count with
      | error other =>
          rw [written] at failed
          cases failed
          exact memcpy_error written
      | ok next =>
          rw [written] at failed
          exact inductionHypothesis failed

end Gap

/-! ## `String_compactify` -/

section Compactify

variable {s : Str} {parts : List (List Byte)}

/-- What `String_compactify` returns: a block with the content, and with its
hash if the string had that. -/
structure Compacted (s : Str) (chars : List Byte) (block : Block) : Prop where
  holds : block.Holds chars
  hash : s.hash = some (hashOf chars) → block.hash = some (hashOf chars)

theorem set_terminator (chars : List Byte) :
    (chars.map some ++ [none]).set chars.length (some 0) = chars.map some ++
    [some 0] := by
  rw [List.set_append_right _ _ (by simp), List.length_map, Nat.sub_self]
  rfl

theorem compactify_addressable
    (represents : Represents s parts)
    (addressable : Addressable 0 (parts.map List.length)) :
    ∃ block, compactify s = .ok block ∧ Compacted s parts.flatten block := by
  cases s with
  | block flat =>
      cases represents.blocks with
      | cons holds rest =>
          cases rest
          refine ⟨flat, rfl, ?_, id⟩
          simpa using holds
  | compound count hash blocks =>
      have isCount : count = parts.flatten.length := represents.count
      have copied : copyBlocks blocks 0 (createDynamic count).memory =
          .ok (parts.flatten.map some ++ [none]) := by
        have all :=
          copyBlocks_addressable represents.blocks [] (Nat.le_succ _)
            addressable
        rw [Nat.succ_sub (Nat.le_refl _), Nat.sub_self] at all
        rw [createDynamic, isCount]
        exact all
      have noNul := holds_noNul represents.blocks
      refine ⟨⟨.dynamicString, count, some (hashOf parts.flatten),
        parts.flatten.map some ++ [some 0]⟩, ?_, ?_⟩
      · rw [compactify, copied]
        simp only [bind, Except.bind, isCount, set_terminator,
          computeHash_eq noNul []]
        rfl
      · exact ⟨⟨isCount, ⟨[], rfl, fun _ => rfl⟩, noNul⟩, fun _ => rfl⟩

theorem compactify_not_addressable
    (represents : Represents s parts)
    (notAddressable : ¬ Addressable 0 (parts.map List.length)) :
    compactify s = .error .undefined := by
  cases s with
  | block flat =>
      cases represents.blocks with
      | cons holds rest =>
          cases rest
          exact absurd ⟨Or.inr (by omega), trivial⟩ notAddressable
  | compound count hash blocks =>
      have isCount : count = parts.flatten.length := represents.count
      have fresh : Fresh 0 (createDynamic count).memory := by
        constructor
        · intro k _ inside
          rw [createDynamic, List.length_replicate] at inside
          rw [createDynamic, List.getElem?_replicate, if_pos inside]
        · intro isNul
          cases List.eq_of_mem_replicate isNul
      have enough :
          0 + parts.flatten.length ≤ (createDynamic count).memory.length := by
        rw [createDynamic, List.length_replicate]
        omega
      rw [compactify]
      cases copied : copyBlocks blocks 0 (createDynamic count).memory with
      | error failure =>
          rw [copyBlocks_error copied]
          rfl
      | ok output =>
          obtain ⟨gap, sameLength⟩ :=
            copyBlocks_not_addressable represents.blocks fresh notAddressable
              enough copied
          have late := gap.late
          have undefinedHash : computeHash (output.set count (some 0)) =
              .error .undefined := by
            have unwritten := gap.unwritten
            rw [Nat.zero_add,
              ← List.getElem?_set_ne (show count ≠ _ by omega)] at unwritten
            apply hashFrom_undefined unwritten
            · intro k below isNul
              rw [List.getElem?_set_ne (by omega)] at isNul
              exact gap.fresh.noNul (List.mem_of_getElem? isNul)
          simp only [bind, Except.bind, undefinedHash]

end Compactify

end Strings
end Runtime
end ClojureRt
