import ClojureRt.Lib.LinkedList
import ClojureRt.Runtime.PersistentList.Sequences

/-!
# Reversal in place

`reverse` turns the links around and numbers the cells from 0 on.  The chain of
a list ends in the cell without a value, which comes first afterwards; for a
list over `EMPTY_LIST` that is the cell of all lists.
-/

namespace ClojureRt
namespace Runtime
namespace PersistentList

open RefCount RefCount.Program LinkedList
open Sharing (Address RTValue)

/-- The link in the cell at an address. -/
def link (heap : ListHeap) (address : Address) : Option (Option Address) :=
  match heap.object? address with
  | some (.list cell) => some cell.rest
  | _ => none

theorem link_eq_some
    {heap : ListHeap}
    {address : Address}
    {rest : Option Address}
    (isLink : link heap address = some rest) :
    ∃ cell, heap.object? address = some (.list cell) ∧ cell.rest = rest := by
  unfold link at isLink
  split at isLink
  · next cell found =>
      cases isLink
      exact ⟨cell, found, rfl⟩
  · cases isLink

theorem link_of_found
    {heap : ListHeap}
    {address : Address}
    {cell : Cell}
    (found : heap.object? address = some (.list cell)) :
    link heap address = some cell.rest := by
  unfold link
  rw [found]

/-- Only the links of some cells have changed. -/
structure Relinked (before after : ListHeap) (among : Address → Prop) :
    Prop where
  cell : ∀ address cell, before.object? address = some (.list cell) →
    ∃ rest, after.object? address = some (.list { cell with rest })
  others : ∀ address,
    ¬ among address → after.object? address = before.object? address

namespace Relinked

variable {before middle after : ListHeap} {among among' : Address → Prop}

theorem refl (heap : ListHeap) (among : Address → Prop) :
    Relinked heap heap among where
  cell _ cell found := ⟨cell.rest, found⟩
  others _ _ := rfl

theorem trans
    (first : Relinked before middle among)
    (second : Relinked middle after among') :
    Relinked before after fun address => among address ∨ among' address where
  cell := by
    intro address cell found
    obtain ⟨rest, foundMiddle⟩ := first.cell address cell found
    exact second.cell address { cell with rest } foundMiddle
  others := by
    intro address outside
    rw [not_or] at outside
    rw [second.others address outside.2, first.others address outside.1]

theorem weaken
    (relinked : Relinked before after among)
    (more : ∀ address, among address → among' address) :
    Relinked before after among' where
  cell := relinked.cell
  others address outside := relinked.others address fun isAmong =>
    outside (more address isAmong)

/-- One link is stored. -/
theorem of_store
    {address : Address}
    {cell : Cell}
    {rest : Option Address}
    (found : before.object? address = some (.list cell))
    (stored : after.object? address = some (.list { cell with rest }))
    (others : ∀ other,
      other ≠ address → after.object? other = before.object? other) :
    Relinked before after (· = address) where
  cell := by
    intro other otherCell isOther
    by_cases same : other = address
    · subst same
      rw [found] at isOther
      cases isOther
      exact ⟨rest, stored⟩
    · refine ⟨otherCell.rest, ?_⟩
      rw [others other same, isOther]
  others := others

end Relinked

/-- The first loop moves the cells in front of those that it has passed. -/
theorem runs_reverseLinks
    {base heap : ListHeap}
    {change : Address → Int}
    {changed written : Address → Prop}
    (since : Since base heap change changed written)
    {fuel : Nat}
    {current prev : Option Address}
    {toDo passed : List Address}
    (toDoSegment : Segment (link heap) current toDo none)
    (passedSegment : Segment (link heap) prev passed none)
    (nodup : (toDo ++ passed).Nodup)
    (enough : toDo.length ≤ fuel) :
    Runs (reverseLinks fuel current prev) heap fun result after =>
      Segment (link after) result (toDo.reverse ++ passed) none ∧
        Relinked heap after (· ∈ toDo) ∧
        Since base after
          (change + (owns result.toList -
            (owns current.toList + owns prev.toList)))
          (fun address => changed address ∨ address ∈ toDo)
          (fun address => written address ∨ address ∈ toDo) := by
  induction toDo generalizing heap change changed written fuel current prev
    passed with
  | nil =>
      obtain rfl : current = none := toDoSegment
      rw [reverseLinks]
      apply Runs.pure
      refine ⟨passedSegment, Relinked.refl heap _,
        since.weaken ?_ (fun _ => .inl) fun _ => .inl⟩
      rw [owns_none]
      abel
  | cons address toDo inductionHypothesis =>
      obtain ⟨rfl, rest, isLink, restSegment⟩ := toDoSegment
      obtain ⟨cell, found, rfl⟩ := link_eq_some isLink
      cases fuel with
      | zero => exact absurd enough (Nat.not_succ_le_zero _)
      | succ fuel =>
          have notLater : address ∉ toDo ∧ address ∉ passed := by
            rw [List.cons_append, List.nodup_cons, List.mem_append,
              not_or] at nodup
            exact nodup.1
          rw [reverseLinks]
          apply Runs.bind
          apply runs_loadList found
          apply Runs.bind
          apply Runs.store_since since found
          intro middle stored others storedSince
          have sameLink (other : Address) (distinct : other ≠ address) :
              link middle other = link heap other := by
            unfold link
            rw [others other distinct]
          have toDoAfter : Segment (link middle) cell.rest toDo none :=
            restSegment.frame fun other isIn =>
              sameLink other fun same => notLater.1 (same ▸ isIn)
          have passedAfter :
              Segment (link middle) (some address) (address :: passed)
              none := by
            refine ⟨rfl, prev, link_of_found stored, ?_⟩
            exact passedSegment.frame fun other isIn =>
              sameLink other fun same => notLater.2 (same ▸ isIn)
          have nodupAfter : (toDo ++ address :: passed).Nodup :=
            List.perm_middle.nodup_iff.mpr nodup
          apply (inductionHypothesis storedSince toDoAfter passedAfter
            nodupAfter (Nat.le_of_succ_le_succ enough)).mono
          rintro result after ⟨resultSegment, relinked, resultSince⟩
          refine ⟨?_, ?_, resultSince.weaken ?_ ?_ ?_⟩
          · rw [List.reverse_cons, List.append_assoc]
            exact resultSegment
          · apply ((Relinked.of_store found stored others).trans
              relinked).weaken
            rintro other (rfl | isLater)
            · exact List.mem_cons_self
            · exact List.mem_cons_of_mem _ isLater
          · simp only [owns_references_list, owns_some]
            abel
          · rintro other ((isChanged | rfl) | isLater)
            · exact .inl isChanged
            · exact .inr List.mem_cons_self
            · exact .inr (List.mem_cons_of_mem _ isLater)
          · rintro other ((isWritten | rfl) | isLater)
            · exact .inl isWritten
            · exact .inr List.mem_cons_self
            · exact .inr (List.mem_cons_of_mem _ isLater)

/-- The second loop gives every cell its index for a count. -/
theorem runs_renumber
    {base heap : ListHeap}
    {change : Address → Int}
    {changed written : Address → Prop}
    (since : Since base heap change changed written)
    {fuel runningCount : Nat}
    {temp : Option Address}
    {path : List Address}
    (segment : Segment (link heap) temp path none)
    (enough : path.length ≤ fuel) :
    Runs (renumber fuel temp runningCount) heap fun _ after =>
      (∀ index address cell, path[index]? = some address →
        heap.object? address = some (.list cell) →
          after.object? address = some (.list
            { cell with count := BitVec.ofNat 32 (runningCount + index) })) ∧
        (∀ address,
          address ∉ path → after.object? address = heap.object? address) ∧
        Since base after change
          (fun address => changed address ∨ address ∈ path)
          fun address => written address ∨ address ∈ path := by
  induction path generalizing heap change changed written fuel runningCount
    temp with
  | nil =>
      obtain rfl : temp = none := segment
      rw [renumber]
      apply Runs.pure
      refine ⟨?_, fun _ _ => rfl,
        since.weaken rfl (fun _ => .inl) fun _ => .inl⟩
      intro index address cell isIn
      cases isIn
  | cons address path inductionHypothesis =>
      have notLater := (List.nodup_cons.mp segment.nodup_of_none).1
      obtain ⟨rfl, rest, isLink, restSegment⟩ := segment
      obtain ⟨cell, found, rfl⟩ := link_eq_some isLink
      cases fuel with
      | zero => exact absurd enough (Nat.not_succ_le_zero _)
      | succ fuel =>
          rw [renumber]
          apply Runs.bind
          apply runs_loadList found
          apply Runs.bind
          apply Runs.store_since since found
          intro middle stored others storedSince
          have restAfter : Segment (link middle) cell.rest path none := by
            apply restSegment.frame
            intro other isIn
            unfold link
            rw [others other fun same => notLater (same ▸ isIn)]
          apply (inductionHypothesis storedSince restAfter
            (Nat.le_of_succ_le_succ enough)).mono
          rintro _ after ⟨numbered, unchanged, afterSince⟩
          refine ⟨?_, ?_, afterSince.weaken ?_ ?_ ?_⟩
          · intro index other otherCell isIn isOther
            cases index with
            | zero =>
                cases isIn
                rw [found] at isOther
                cases isOther
                rw [unchanged address notLater, stored, Nat.add_zero]
            | succ index =>
                have isLater : path[index]? = some other := isIn
                have distinct : other ≠ address := by
                  rintro rfl
                  exact notLater (List.mem_of_getElem? isLater)
                have otherMiddle :
                    middle.object? other = some (.list otherCell) := by
                  rw [others other distinct, isOther]
                rw [numbered index other otherCell isLater otherMiddle,
                  Nat.succ_add]
                rfl
          · intro other outside
            rw [List.mem_cons, not_or] at outside
            rw [unchanged other outside.2, others other outside.1]
          · simp only [owns_references_list]
            abel
          · rintro other ((isChanged | rfl) | isLater)
            · exact .inl isChanged
            · exact .inr List.mem_cons_self
            · exact .inr (List.mem_cons_of_mem _ isLater)
          · rintro other ((isWritten | rfl) | isLater)
            · exact .inl isWritten
            · exact .inr List.mem_cons_self
            · exact .inr (List.mem_cons_of_mem _ isLater)

/-! ## The whole reversal -/

theorem runs_alongChain
    {Result : Type}
    {heap : ListHeap}
    {loop : Nat → Code Result}
    {post : Result → ListHeap → Prop}
    (runs : Runs (loop (heap.next + 1)) heap post) :
    Runs (alongChain loop) heap post :=
  runs

/-- There are no more cells on the way to the end than addresses. -/
theorem length_le_next
    {heap : ListHeap}
    {start : Option Address}
    {path : List Address}
    (segment : Segment (link heap) start path none) :
    path.length ≤ heap.next := by
  have below : path.toFinset ⊆ Finset.range heap.next := by
    intro address isIn
    obtain ⟨_, _, -, next, isLink, _⟩ :=
      segment.from_mem (List.mem_toFinset.mp isIn)
    obtain ⟨cell, found, _⟩ := link_eq_some isLink
    exact Finset.mem_range.mpr (Heap.lt_next_of_object found)
  rw [← List.toFinset_card_of_nodup segment.nodup_of_none,
    ← Finset.card_range heap.next]
  exact Finset.card_le_card below

/-- Everything on the way to the end is a cell. -/
theorem found_of_mem
    {heap : ListHeap}
    {start : Option Address}
    {path : List Address}
    (segment : Segment (link heap) start path none)
    {address : Address}
    (isIn : address ∈ path) : ∃ cell,
    heap.object? address = some (.list cell) := by
  obtain ⟨_, _, -, next, isLink, _⟩ := segment.from_mem isIn
  obtain ⟨cell, found, _⟩ := link_eq_some isLink
  exact ⟨cell, found⟩

/-- `reverse` turns a chain around and numbers it from its new start. -/
theorem runs_reverse
    {heap : ListHeap}
    {self : Address}
    {path : List Address}
    (segment : Segment (link heap) (some self) path none) :
    Runs (reverse self) heap fun result after =>
      Segment (link after) (some result) path.reverse none ∧
        (∀ (index : Nat) (address : Address) (cell : Cell),
          path.reverse[index]? = some address →
          heap.object? address = some (.list cell) → ∃ rest,
            after.object? address = some (.list
              { cell with rest, count := BitVec.ofNat 32 index })) ∧
        (∀ address,
          address ∉ path → after.object? address = heap.object? address) ∧
        Since heap after (own result - own self) (· ∈ path) (· ∈ path) := by
  have nodup : (path ++ []).Nodup := by
    rw [List.append_nil]
    exact segment.nodup_of_none
  unfold reverse
  apply Runs.bind
  apply runs_alongChain
  apply (runs_reverseLinks (Since.refl heap) segment
    (show Segment _ none [] none from rfl) nodup
    ((length_le_next segment).trans (Nat.le_succ _))).mono
  rintro prev middle ⟨reversed, relinked, linkSince⟩
  rw [List.append_nil] at reversed
  apply Runs.bind
  apply runs_alongChain
  apply (runs_renumber linkSince reversed
    ((length_le_next reversed).trans (Nat.le_succ _))).mono
  rintro _ after ⟨numbered, unchanged, since⟩
  obtain ⟨rest, isPath⟩ := segment.eq_cons_of_start
  have isIn (address : Address) : address ∈ path.reverse → address ∈ path :=
    List.mem_reverse.mp
  have numberedCell (index : Nat) (address : Address) (cell : Cell)
      (isAt : path.reverse[index]? = some address)
      (found : heap.object? address = some (.list cell)) :
      ∃ rest, middle.object? address = some (.list { cell with rest }) ∧
        after.object? address = some (.list
          { cell with rest, count := BitVec.ofNat 32 index }) := by
    obtain ⟨rest, foundMiddle⟩ := relinked.cell address cell found
    have foundAfter := numbered index address _ isAt foundMiddle
    rw [Nat.zero_add] at foundAfter
    exact ⟨rest, foundMiddle, foundAfter⟩
  have sameLinks (address : Address) (isMet : address ∈ path.reverse) :
      link after address = link middle address := by
    obtain ⟨index, isAt⟩ := List.mem_iff_getElem?.mp isMet
    obtain ⟨cell, found⟩ := found_of_mem segment (isIn address isMet)
    obtain ⟨rest, foundMiddle, foundAfter⟩ :=
      numberedCell index address cell isAt found
    rw [link_of_found foundMiddle, link_of_found foundAfter]
  cases prev with
  | none =>
      have isNil := reversed.eq_nil_of_none
      rw [List.reverse_eq_nil_iff, isPath] at isNil
      cases isNil
  | some result =>
      apply Runs.pure
      refine ⟨reversed.frame sameLinks, ?_, ?_, since.weaken ?_ ?_ ?_⟩
      · intro index address cell isAt found
        obtain ⟨rest, _, foundAfter⟩ :=
          numberedCell index address cell isAt found
        exact ⟨rest, foundAfter⟩
      · intro address outside
        rw [unchanged address (fun isMet => outside (isIn address isMet)),
          relinked.others address outside]
      · rw [owns_some, owns_some, owns_none]
        abel
      · rintro address ((never | isMet) | isMet)
        · exact never.elim
        · exact isMet
        · exact isIn address isMet
      · rintro address ((never | isMet) | isMet)
        · exact never.elim
        · exact isMet
        · exact isIn address isMet

/-! ## `createMany` -/

/-- The value in the cell at an address. -/
def firstAt (heap : ListHeap) (address : Address) : RTValue :=
  match heap.object? address with
  | some (.list cell) => cell.first
  | _ => boxNull

theorem firstAt_of_found
    {heap : ListHeap}
    {address : Address}
    {cell : Cell}
    (found : heap.object? address = some (.list cell)) :
    firstAt heap address = cell.first := by
  unfold firstAt
  rw [found]

theorem Cells.of_segment
    {heap : ListHeap}
    {start : Option Address}
    {path : List Address}
    (segment : Segment (link heap) start path none) :
    ∃ cells, Cells heap start cells ∧
      cells.map Cell.first = path.map (firstAt heap) := by
  induction path generalizing start with
  | nil =>
      obtain rfl : start = none := segment
      exact ⟨[], trivial, rfl⟩
  | cons address path inductionHypothesis =>
      obtain ⟨rfl, rest, isLink, restSegment⟩ := segment
      obtain ⟨cell, found, rfl⟩ := link_eq_some isLink
      obtain ⟨cells, isChain, firsts⟩ := inductionHypothesis restSegment
      refine ⟨cell :: cells, ⟨found, isChain⟩, ?_⟩
      rw [List.map_cons, List.map_cons, firsts, firstAt_of_found found]

/-- Only new cells lie in front of a list that values are added to. -/
theorem runs_conjAll_path
    {heap : ListHeap}
    {self : Address}
    {cell : Cell}
    {args : List RTValue}
    (found : heap.object? self = some (.list cell))
    (areValues : boxNull ∉ args) :
    Runs (conjAll self args) heap fun result after =>
      (∀ other < heap.next, after.object? other = heap.object? other) ∧
        ∃ path, Segment (link after) (some result) path (some self) ∧
          path.map (firstAt after) = args.reverse ∧ ∀ address ∈ path,
            heap.next ≤ address := by
  induction args generalizing heap self cell with
  | nil =>
      apply Runs.pure
      exact ⟨fun _ _ => rfl, [], rfl, rfl,
        fun _ isIn => absurd isIn List.not_mem_nil⟩
  | cons arg args inductionHypothesis =>
      obtain ⟨isValue, others⟩ := List.ne_and_not_mem_of_not_mem_cons areValues
      rw [conjAll]
      apply Runs.bind
      apply (runs_conj found (Ne.symm isValue)).mono
      rintro next middle ⟨stored, unchanged, isNext, _⟩
      have below := Heap.lt_next_of_object stored
      apply (inductionHypothesis stored others).mono
      rintro result after ⟨unchangedAfter, path, segment, firsts, areNew⟩
      have storedAfter := (unchangedAfter next below).trans stored
      refine ⟨?_, path ++ [next],
        segment.concat (link_of_found storedAfter), ?_, ?_⟩
      · intro other isOld
        have isBelow : other < middle.next := isOld.trans (isNext ▸ below)
        rw [unchangedAfter other isBelow, unchanged other isOld]
      · rw [List.map_append, firsts, List.reverse_cons, List.map_singleton,
          firstAt_of_found storedAfter]
      · intro address isIn
        rcases List.mem_append.mp isIn with isLater | isLast
        · have isOld : heap.next ≤ middle.next := isNext ▸ Nat.le_of_lt below
          exact isOld.trans (areNew address isLater)
        · rw [List.mem_singleton.mp isLast, isNext]

/-- `createMany` delivers the cell of all lists, with the values after it. -/
theorem runs_createMany
    {heap : ListHeap}
    {metadata : RTValue}
    {args : List RTValue}
    (isEmpty : heap.object? emptyList =
      some (.list ⟨boxNull, none, 0, metadata⟩))
    (areValues : boxNull ∉ args)
    (holds : Holds heap (emptyList :: addressesOf args)) :
    Runs (createMany args) heap fun result after =>
      result = emptyList ∧
        (∃ rest, after.object? emptyList =
          some (.list ⟨boxNull, rest, 0, metadata⟩) ∧
          (rest = none ↔ args = [])) ∧
        (∃ cells, Cells after (some emptyList) cells ∧
          cells.map Cell.first = boxNull :: args) ∧
        Since heap after (own result - owns (addressesOf args))
          (fun address => address = emptyList ∨ heap.next ≤ address)
          fun address => address = emptyList ∨ heap.next ≤ address := by
  have emptyIsList : IsList heap emptyList [] := ⟨metadata, isEmpty⟩
  unfold createMany
  apply Runs.bind
  apply (runs_empty holds.head).mono
  rintro list start ⟨rfl, emptyGrows⟩
  have startHolds :
      Holds start (emptyList :: emptyList :: addressesOf args) := by
    apply emptyGrows.holds holds
    intro other
    rw [owns_cons emptyList (emptyList :: _), Pi.add_apply]
    omega
  have emptyStart :=
    emptyGrows.kept isEmpty (startHolds.present List.mem_cons_self)
  have startIsList :=
    emptyGrows.isList emptyIsList startHolds List.mem_cons_self
  apply Runs.bind
  apply ((runs_conjAll startIsList areValues startHolds.tail).and
    (runs_conjAll_path emptyStart areValues)).mono
  rintro list middle ⟨⟨_, grows⟩, unchanged, path, segment, firsts, areNew⟩
  have emptyMiddle :
      middle.object? emptyList = some (.list ⟨boxNull, none, 0, metadata⟩) := by
    rw [unchanged emptyList (Heap.lt_next_of_object emptyStart), emptyStart]
  have wholeSegment := segment.concat (link_of_found emptyMiddle)
  apply (runs_reverse wholeSegment).mono
  rintro result after ⟨reversed, numbered, _, since⟩
  rw [List.reverse_append, List.reverse_singleton] at reversed numbered
  obtain ⟨isResult, rest, isLink, restSegment⟩ := reversed
  rw [Option.some.injEq] at isResult
  subst isResult
  obtain ⟨emptyRest, emptyAfter⟩ := numbered 0 emptyList _ rfl emptyMiddle
  rw [link_of_found emptyAfter, Option.some.injEq] at isLink
  subst isLink
  have sameFirst (address : Address) (isMet : address ∈ path) :
      firstAt after address = firstAt middle address := by
    obtain ⟨cell, found⟩ :=
      found_of_mem wholeSegment (List.mem_append_left _ isMet)
    obtain ⟨index, isAt⟩ :=
      List.mem_iff_getElem?.mp (List.mem_reverse.mpr isMet)
    obtain ⟨_, foundAfter⟩ := numbered (index + 1) address cell isAt found
    rw [firstAt_of_found found, firstAt_of_found foundAfter]
  have onPath (address : Address) (isMet : address ∈ path ++ [emptyList]) :
      address = emptyList ∨ heap.next ≤ address := by
    rcases List.mem_append.mp isMet with isNew | isLast
    · exact .inr (emptyGrows.effect.next_le.trans (areNew address isNew))
    · exact .inl (List.mem_singleton.mp isLast)
  refine ⟨rfl, ⟨emptyRest, emptyAfter, ?_⟩, ?_, ?_⟩
  · constructor
    · rintro rfl
      have noPath := List.reverse_eq_nil_iff.mp restSegment.eq_nil_of_none
      rw [noPath, List.map_nil] at firsts
      exact List.reverse_eq_nil_iff.mp firsts.symm
    · rintro rfl
      have noPath := List.map_eq_nil_iff.mp firsts
      rw [noPath] at restSegment
      exact restSegment
  · have emptySegment :
        Segment (link after) (some emptyList)
        (emptyList :: path.reverse) none :=
      ⟨rfl, emptyRest, link_of_found emptyAfter, restSegment⟩
    obtain ⟨cells, isChain, cellFirsts⟩ := Cells.of_segment emptySegment
    refine ⟨cells, isChain, ?_⟩
    rw [cellFirsts, List.map_cons, firstAt_of_found emptyAfter,
      List.map_reverse, List.map_congr_left sameFirst, firsts,
      List.reverse_reverse]
  · apply ((Since.trans (emptyGrows.trans grows) since).weaken ?_ ?_ ?_)
    · abel
    · rintro address (never | isMet)
      · exact never.elim
      · exact onPath address isMet
    · rintro address (isNew | isMet)
      · exact .inr isNew
      · exact onPath address isMet

end PersistentList
end Runtime
end ClojureRt
