import ClojureRt.Runtime.String.Contents

/-!
# Comparison

`String_equals` compares two flat strings with `strcmp` and others through their
iterators, up to the first NUL.
-/

namespace ClojureRt
namespace Runtime
namespace Strings

/-- The iterator reads these characters, from the one it stands at. -/
def Stands (it : Iterator) (chars : List Byte) : Prop :=
  ∃ done c cs later, Reads it done ((c :: cs) :: later) ∧
    chars = c :: cs ++ later.flatten ∧
    Readable chars.length (((c :: cs) :: later).map List.length)

section Stands

variable {it : Iterator} {c d : Byte} {cs : List Byte}

theorem Stands.get (stands : Stands it (c :: cs)) : iteratorGet it = .ok c := by
  obtain ⟨done, first, others, later, reads, isChars, _⟩ := stands
  rw [List.cons_append] at isChars
  rw [(List.cons.inj isChars).1]
  exact reads.get

theorem Stands.nextChar_end (stands : Stands it [c]) : nextChar it = .ok
    (it, 0) := by
  obtain ⟨done, first, others, later, reads, isChars, _⟩ := stands
  rw [List.cons_append] at isChars
  obtain ⟨noOthers, noLater⟩ :=
    List.append_eq_nil_iff.mp (List.cons.inj isChars).2.symm
  subst noOthers
  rw [nextChar, reads.next_end noLater]
  rfl

theorem Stands.nextChar_more (stands : Stands it (c :: d :: cs)) :
    ∃ next, nextChar it = .ok (next, d) ∧ Stands next (d :: cs) := by
  obtain ⟨done, first, others, later, reads, isChars, readable⟩ := stands
  have moved : ∃ next, iteratorNext it = .ok (next, true) ∧
      Stands next (d :: cs) := by
    rw [List.cons_append] at isChars
    obtain ⟨_, isRest⟩ := List.cons.inj isChars
    rw [List.map_cons, readable_cons_iff (by simp)] at readable
    obtain ⟨_, readableLater⟩ := readable
    cases others with
    | nil =>
        cases later with
        | nil => cases isRest
        | cons part later =>
            have more : (part :: later).flatten ≠ [] := by
              intro none
              rw [List.nil_append, none] at isRest
              cases isRest
            obtain ⟨next, isNext, readsNext⟩ := reads.next_block more
            have readableNext :
                Readable (d :: cs).length ((part :: later).map List.length) :=
              readableLater
            have atStart := readableNext
            rw [List.map_cons, readable_cons_iff (by simp)] at atStart
            cases part with
            | nil => exact absurd atStart.1 (Nat.lt_irrefl 0)
            | cons e es =>
                exact ⟨next, isNext, _, e, es, later, readsNext, isRest,
                  readableNext⟩
    | cons e es =>
        obtain ⟨next, isNext, readsNext⟩ := reads.next_within
        refine ⟨next, isNext, _, e, es, later, readsNext, isRest, ?_⟩
        refine Or.inr ⟨Nat.succ_pos _, ?_⟩
        apply readableLater.mono
        simp only [List.length_cons]
        omega
  obtain ⟨next, isNext, standsNext⟩ := moved
  refine ⟨next, ?_, standsNext⟩
  rw [nextChar, isNext]
  simp only [bind, Except.bind, if_true, standsNext.get]
  rfl

end Stands

/-- The comparison of contents of one length. -/
theorem compareFrom_eq
    {left right : Iterator}
    {c d : Byte}
    {cs ds : List Byte}
    (leftStands : Stands left (c :: cs))
    (rightStands : Stands right (d :: ds))
    (sameLength : cs.length = ds.length)
    (noNul : 0 ∉ c :: cs)
    {fuel : Nat}
    (enough : cs.length + 1 < fuel) :
    compareFrom fuel left right c d = .ok (decide (c :: cs = d :: ds)) := by
  induction cs generalizing left right c d ds fuel with
  | nil =>
      match fuel, enough with
      | fuel + 2, _ =>
          have noOthers : ds = [] :=
            List.eq_nil_of_length_eq_zero sameLength.symm
          subst noOthers
          have notNul : c ≠ 0 :=
            fun isNul => noNul (by rw [isNul]; exact List.mem_cons_self)
          rw [compareFrom, if_neg notNul]
          by_cases same : c = d
          · subst same
            simp only [ne_eq, not_true_eq_false, if_false,
              leftStands.nextChar_end, rightStands.nextChar_end, bind,
              Except.bind, compareFrom, if_true, decide_true]
          · simp [same]
  | cons e es inductionHypothesis =>
      match fuel, enough, ds, sameLength, rightStands with
      | fuel + 1, enough, f :: fs, sameLength, rightStands =>
          have notNul : c ≠ 0 :=
            fun isNul => noNul (by rw [isNul]; exact List.mem_cons_self)
          rw [compareFrom, if_neg notNul]
          by_cases same : c = d
          · subst same
            obtain ⟨leftNext, isLeft, leftNextStands⟩ :=
              leftStands.nextChar_more
            obtain ⟨rightNext, isRight, rightNextStands⟩ :=
              rightStands.nextChar_more
            have rest := inductionHypothesis leftNextStands rightNextStands
              (Nat.succ.inj sameLength)
              (fun isNul => noNul (List.mem_cons_of_mem c isNul))
              (Nat.lt_of_succ_lt_succ enough)
            simp only [ne_eq, not_true_eq_false, if_false, isLeft, isRight,
              bind, Except.bind, rest, List.cons.injEq, true_and]
          · simp [same]

theorem strcmpEqual_eq
    {left right : List Byte}
    (leftNoNul : 0 ∉ left)
    (rightNoNul : 0 ∉ right)
    (leftRest rightRest : Memory) :
    strcmpEqual (left.map some ++ some 0 :: leftRest)
      (right.map some ++ some 0 :: rightRest) =
      .ok (decide (left = right)) := by
  induction left generalizing right with
  | nil =>
      cases right with
      | nil => rfl
      | cons d ds =>
          rw [List.mem_cons, not_or] at rightNoNul
          have notNul : (0 : Byte) ≠ d := rightNoNul.1
          rw [List.map_cons, List.cons_append, List.map_nil, List.nil_append,
            strcmpEqual,
            if_pos notNul, decide_eq_false (by simp)]
  | cons c cs inductionHypothesis =>
      rw [List.mem_cons, not_or] at leftNoNul
      cases right with
      | nil =>
          have notNul : c ≠ (0 : Byte) := Ne.symm leftNoNul.1
          rw [List.map_cons, List.cons_append, List.map_nil, List.nil_append,
            strcmpEqual,
            if_pos notNul, decide_eq_false (by simp)]
      | cons d ds =>
          rw [List.mem_cons, not_or] at rightNoNul
          rw [List.map_cons, List.map_cons, List.cons_append, List.cons_append,
            strcmpEqual]
          by_cases same : c = d
          · subst same
            rw [if_neg (by simp), if_neg (Ne.symm leftNoNul.1),
              inductionHypothesis leftNoNul.2 rightNoNul.2]
            simp
          · simp [same]

theorem Reads.get_empty
    {it : Iterator}
    {done : Nat}
    {parts : List (List Byte)}
    (reads : Reads it done ([] :: parts)) :
    iteratorGet it = .ok 0 := by
  obtain ⟨chars, rest, here, later, isParts, isBlock, _, _, _, atMost, empty,
    _⟩ := reads.parts
  cases isParts
  have isEmpty := empty rfl
  subst isEmpty
  have atStart : it.inBlockIndex = 0 := Nat.le_zero.mp atMost
  rw [iteratorGet, isBlock, atStart]
  rfl

section Equals

variable {s t : Str} {parts others : List (List Byte)}

/-- The iterator of a string that is readable and not empty. -/
theorem stands_iterator
    (represents : Represents s parts)
    (readable : Readable parts.flatten.length (parts.map List.length))
    {c : Byte}
    {cs : List Byte}
    (isContent : parts.flatten = c :: cs) :
    ∃ it, iterator s = .ok it ∧ Stands it (c :: cs) := by
  obtain ⟨it, isIterator, reads⟩ := reads_iterator represents
  refine ⟨it, isIterator, ?_⟩
  rw [isContent] at readable
  cases parts with
  | nil => cases isContent
  | cons part parts =>
      have atStart := readable
      rw [List.map_cons, readable_cons_iff (by simp)] at atStart
      cases part with
      | nil => exact absurd atStart.1 (Nat.lt_irrefl 0)
      | cons d ds => exact ⟨0, d, ds, parts, reads, isContent.symm, readable⟩

theorem get_iterator_of_empty
    (represents : Represents s parts)
    (isEmpty : parts.flatten = []) :
    ∃ it, iterator s = .ok it ∧ iteratorGet it = .ok 0 := by
  obtain ⟨it, isIterator, reads⟩ := reads_iterator represents
  refine ⟨it, isIterator, ?_⟩
  cases parts with
  | nil => exact absurd rfl represents.nonempty
  | cons part parts =>
      rw [List.flatten_cons] at isEmpty
      have noPart := (List.append_eq_nil_iff.mp isEmpty).1
      subst noPart
      exact reads.get_empty

/-- Strings are compared by their contents if an iterator can read them. -/
theorem equals_readable
    (represents : Represents s parts)
    (otherRepresents : Represents t others)
    (readable : Readable parts.flatten.length (parts.map List.length))
    (otherReadable : Readable others.flatten.length (others.map List.length)) :
    equals s t = .ok (decide (parts.flatten = others.flatten)) := by
  have noNul := holds_noNul represents.blocks
  have otherNoNul := holds_noNul otherRepresents.blocks
  by_cases sameCount : s.count = t.count
  swap
  · have different : parts.flatten ≠ others.flatten := by
      intro same
      rw [represents.count, otherRepresents.count, same] at sameCount
      exact sameCount rfl
    unfold equals
    rw [if_pos sameCount, decide_eq_false different]
  have sameLength : parts.flatten.length = others.flatten.length := by
    rw [← represents.count, ← otherRepresents.count]
    exact sameCount
  have walked : (do
      let left ← iterator s
      let right ← iterator t
      let leftChar ← iteratorGet left
      let rightChar ← iteratorGet right
      compareFrom (s.count + 1) left right leftChar rightChar) =
        .ok (decide (parts.flatten = others.flatten)) := by
    cases isContent : parts.flatten with
    | nil =>
        have otherEmpty : others.flatten = [] := by
          rw [isContent] at sameLength
          exact List.eq_nil_of_length_eq_zero sameLength.symm
        obtain ⟨left, isLeft, leftGet⟩ :=
          get_iterator_of_empty represents isContent
        obtain ⟨right, isRight, rightGet⟩ :=
          get_iterator_of_empty otherRepresents otherEmpty
        simp [isLeft, isRight, leftGet, rightGet, bind, Except.bind,
          compareFrom, otherEmpty]
    | cons c cs =>
        cases otherContent : others.flatten with
        | nil =>
            rw [isContent, otherContent] at sameLength
            cases sameLength
        | cons d ds =>
            obtain ⟨left, isLeft, leftStands⟩ :=
              stands_iterator represents readable isContent
            obtain ⟨right, isRight, rightStands⟩ :=
              stands_iterator otherRepresents otherReadable otherContent
            rw [isContent, otherContent] at sameLength
            rw [isContent] at noNul
            have enough : cs.length + 1 < s.count + 1 := by
              rw [represents.count, isContent, List.length_cons]
              omega
            have compared := compareFrom_eq leftStands rightStands
              (Nat.succ.inj sameLength) noNul enough
            simp only [isLeft, isRight, leftStands.get, rightStands.get, bind,
              Except.bind, compared]
  have notDifferent : ¬ s.count ≠ t.count :=
    fun different => different sameCount
  unfold equals
  rw [if_neg notDifferent]
  cases s with
  | compound count hash blocks => exact walked
  | block left =>
      cases t with
      | compound count hash blocks => exact walked
      | block right =>
          cases represents.blocks with
          | cons leftHolds leftRest =>
              cases leftRest
              cases otherRepresents.blocks with
              | cons rightHolds rightRest =>
                  cases rightRest
                  obtain ⟨_, isLeft, _⟩ := leftHolds.memory
                  obtain ⟨_, isRight, _⟩ := rightHolds.memory
                  change strcmpEqual left.memory right.memory = _
                  rw [isLeft, isRight,
                    strcmpEqual_eq leftHolds.noNul rightHolds.noNul]
                  simp

end Equals

end Strings
end Runtime
end ClojureRt
