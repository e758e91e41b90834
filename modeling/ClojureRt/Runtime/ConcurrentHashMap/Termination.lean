import Mathlib
import ClojureRt.Lib.TransitionSystem
import ClojureRt.Runtime.ConcurrentHashMap.Refinement

/-!
# When the operations return

A search follows links, and links are only ever added.  A link to a cell that
has just been claimed cannot close a cycle; a link to an older cell of the same
bucket does, since that cell is on the chain already.  The linear search of a
single thread meets such a cell only by running around a full table, back into
the chain it came from.  As long as no insertion does so, every operation
returns, and an insertion that gives up has changed nothing.
-/

namespace ClojureRt
namespace Runtime
namespace ConcurrentHashMap

/-! ## Tables without cycles -/

/-- The rank of a position on a chain falls along every link. -/
def Ranked (node : Node K V) (rank : Bool → Nat → Nat) : Prop :=
  ∀ short cell, node.leap short cell ≠ 0 →
    rank true ((cell + node.leap short cell) &&& node.sizeMask) <
      rank short cell

/-- No walk along the links runs in a cycle. -/
def Acyclic (node : Node K V) : Prop :=
  ∃ rank, Ranked node rank

theorem acyclic_create (initialSizeExponent rounded : Nat) :
    Acyclic (create initialSizeExponent rounded : Node K V) :=
  ⟨fun _ _ => 0, fun short cell nonzero =>
    absurd (by simp [create, Node.leap]) nonzero⟩

theorem Ahead.rank_lt
    {node : Node K V}
    {rank : Bool → Nat → Nat}
    (ahead : Ahead node short start cell)
    (ranked : Ranked node rank) :
    rank true cell < rank short start := by
  induction ahead with
  | next short start nonzero => exact ranked short start nonzero
  | later short start cell nonzero _ inductionHypothesis =>
      exact inductionHypothesis.trans (ranked short start nonzero)

/-- No cell of a chain is met again behind itself. -/
theorem Acyclic.not_ahead_self
    {node : Node K V}
    (acyclic : Acyclic node)
    (cell : Nat) :
    ¬ Ahead node true cell cell := by
  obtain ⟨rank, ranked⟩ := acyclic
  exact fun ahead => lt_irrefl _ (ahead.rank_lt ranked)

/-- Acyclicity is about links only. -/
theorem Acyclic.of_same
    {node changed : Node K V}
    (acyclic : Acyclic node)
    (maskEqual : changed.sizeMask = node.sizeMask)
    (leapEqual : ∀ short cell, changed.leap short cell = node.leap short cell) :
    Acyclic changed := by
  obtain ⟨rank, ranked⟩ := acyclic
  refine ⟨rank, fun short cell nonzero => ?_⟩
  rw [leapEqual] at nonzero ⊢
  rw [maskEqual]
  exact ranked short cell nonzero

/-- A link to a cell that was empty closes no cycle: the new cell ends the
chain. -/
theorem Acyclic.claim
    {node : Node K V}
    (acyclic : Acyclic node)
    (linked : Linked node)
    (deltaSmall : delta ≤ 128)
    (claimed : (node.array cell).keyHash ≠ 0)
    (targetEmpty :
      (node.array ((cell + delta) &&& node.sizeMask)).keyHash = 0) :
    Acyclic ((node.storeKeyHash ((cell + delta) &&& node.sizeMask)
      keyHash).storeLeap short cell delta) := by
  obtain ⟨rank, ranked⟩ := acyclic
  set target := (cell + delta) &&& node.sizeMask with targetEqual
  refine ⟨fun useShort other => if useShort = true ∧ other = target then 0
    else rank useShort other + 1, fun useShort other nonzero => ?_⟩
  rw [Node.storeLeap_leap, Node.storeKeyHash_leap] at nonzero ⊢
  simp only [Node.storeLeap_sizeMask, Node.storeKeyHash_sizeMask]
  have otherNe : other ≠ target := by
    rintro rfl
    split at nonzero
    · rename_i same
      exact claimed (same.2 ▸ targetEmpty)
    · exact nonzero (linked.empty_leap useShort target targetEmpty)
  have sourceRank :
    (if useShort = true ∧ other = target then 0 else rank useShort other + 1) =
      rank useShort other + 1 := if_neg fun same => otherNe same.2
  rw [sourceRank]
  by_cases same : useShort = short ∧ other = cell
  · rw [if_pos same, same.2, Nat.mod_eq_of_lt (by omega), ← targetEqual,
      if_pos ⟨trivial, rfl⟩]
    omega
  · rw [if_neg same] at nonzero ⊢
    have falls := ranked useShort other nonzero
    split <;> omega

/-! ## Searches that return -/

variable {keys : KeyType K} {map : MapModel K V}

/-- The chain of a bucket ends at this position. -/
structure ChainEnd
    (node : Node K V)
    (home : Nat)
    (short : Bool)
    (cell : Nat) : Prop where
  position : AtChain node home short cell
  ended : node.leap short cell = 0

/-- The linear search behind the chain of a hash runs, before it meets a free
cell, into a cell of the same bucket. -/
def RunsIntoChain (node : Node K V) (keyHash : Nat) : Prop :=
  ∃ short cell distance,
    ChainEnd node (keyHash &&& node.sizeMask) short cell ∧
    0 < distance ∧ distance ≤ node.resizingThreshold ∧
    (∀ nearer, 0 < nearer → nearer ≤ distance →
      (node.cellAt (cell + nearer)).keyHash ≠ 0) ∧
    (node.cellAt (cell + distance)).keyHash &&& node.sizeMask =
      keyHash &&& node.sizeMask

/-- The key of a claimed cell is there. -/
theorem Represents.isSameKey_eq_some
    {node : Node K V}
    (represents : Represents keys node map)
    (claimed : (node.array cell).keyHash ≠ 0)
    (key : K) :
    ∃ same, isSameKey keys (node.array cell) key = some same := by
  obtain ⟨stored, keyEqual, -⟩ := represents.claimed_slot cell claimed
  exact ⟨keys.equals stored key, by rw [isSameKey, keyEqual, Option.map_some]⟩

/-- The linear search ends, and every cell it has passed is claimed. -/
theorem linearProbe_returns
    {node : Node K V}
    (represents : Represents keys node map)
    (keyHash : Nat)
    (key : K)
    (remaining idx : Nat) :
    ∃ probe, linearProbe keys node keyHash key remaining idx = some probe ∧
      ∀ i, probe = .sameBucket i →
        ∀ passed, idx < passed → passed ≤ i →
          (node.cellAt passed).keyHash ≠ 0 := by
  induction remaining generalizing idx with
  | zero => exact ⟨_, rfl, fun i equal => by cases equal⟩
  | succ remaining inductionHypothesis =>
      rw [linearProbe]
      by_cases empty : (node.cellAt (idx + 1)).keyHash = 0
      · exact ⟨.claim (idx + 1), by simp [empty], fun i equal => by cases equal⟩
      · have passesThis : ∀ probe, (∀ i, probe = Probe.sameBucket i →
            ∀ passed, idx + 1 < passed → passed ≤ i →
              (node.cellAt passed).keyHash ≠ 0) →
            ∀ i, probe = .sameBucket i →
              ∀ passed, idx < passed → passed ≤ i →
                (node.cellAt passed).keyHash ≠ 0 := by
          intro probe further i equal passed after within
          by_cases isNext : passed = idx + 1
          · rw [isNext]
            exact empty
          · exact further i equal passed (by omega) within
        have goesOn : ∃ probe,
            (if ((node.cellAt (idx + 1)).keyHash ^^^ keyHash) &&&
              node.sizeMask = 0 then
              some (Probe.sameBucket (idx + 1))
            else linearProbe keys node keyHash key remaining (idx + 1)) =
              some probe ∧
            ∀ i, probe = .sameBucket i →
              ∀ passed, idx < passed → passed ≤ i →
                (node.cellAt passed).keyHash ≠ 0 := by
          split
          · refine ⟨_, rfl, passesThis _ fun i equal passed after within => ?_⟩
            cases equal
            omega
          · obtain ⟨probe, returned, further⟩ := inductionHypothesis (idx + 1)
            exact ⟨probe, returned, passesThis probe further⟩
        simp only [if_neg empty]
        split
        · obtain ⟨same, known⟩ := represents.isSameKey_eq_some empty key
          cases same with
          | true => exact ⟨.found (idx + 1), by simp [Node.cellAt, known],
              fun i equal => by cases equal⟩
          | false => simpa [Node.cellAt, known] using goesOn
        · exact goesOn

/-- How a search ends that does not run into its own chain. -/
def CleanResult
    (keys : KeyType K)
    (node : Node K V)
    (key : K)
    (result : InsertResult × Node K V) : Prop :=
  (∃ cell, Holds keys node key cell ∧ result = (.alreadyFound cell, node)) ∨
    (∃ cell changed, (∀ other, ¬ Holds keys node key other) ∧
      (node.array cell).keyHash = 0 ∧
      (changed.array cell).keyHash = keyHashOf keys key ∧
      SameSlots node changed ∧ Acyclic changed ∧
        result = (.insertedNew cell, changed)) ∨
    ∃ overflowIdx, (∀ other, ¬ Holds keys node key other) ∧
      result = (.overflow overflowIdx, node)

/-- A search that has just read the end of its chain and finds a cell of the
same bucket has run into the chain. -/
theorem runsIntoChain_of_sameBucket
    {node : Node K V}
    (chained : Chained node)
    (position : AtChain node (keyHash &&& node.sizeMask) short
      (idx &&& node.sizeMask))
    (ended : node.leap short (idx &&& node.sizeMask) = 0)
    (after : idx < i)
    (within : i ≤ idx + node.resizingThreshold)
    (sameBucket : ((node.cellAt i).keyHash ^^^ keyHash) &&& node.sizeMask = 0)
    (passed : ∀ other, idx < other → other ≤ i →
      (node.cellAt other).keyHash ≠ 0) :
    RunsIntoChain node keyHash := by
  obtain ⟨e, maskEqual⟩ := chained.mask
  have sameCell : ∀ distance,
      node.cellAt ((idx &&& node.sizeMask) + distance) =
        node.cellAt (idx + distance) := by
    intro distance
    rw [Node.cellAt, Node.cellAt, maskEqual, and_mask_add]
  refine ⟨short, idx &&& node.sizeMask, i - idx, ⟨position, ended⟩,
    by omega, by omega,
    fun nearer positive nearEnough => ?_, ?_⟩
  · rw [sameCell]
    exact passed _ (by omega) (by omega)
  · rw [sameCell, Nat.add_sub_cancel' after.le]
    rwa [maskEqual, xor_and_mask_eq_zero_iff, ← maskEqual] at sameBucket

/-- Following links takes no more steps than the rank of the position allows. -/
theorem followLink_returns
    {node : Node K V}
    {rank : Bool → Nat → Nat}
    (represents : Represents keys node map)
    (ranked : Ranked node rank)
    (position : AtChain node (keyHashOf keys key &&& node.sizeMask) short
      (idx &&& node.sizeMask))
    (unobstructed :
      (∃ cell, Holds keys node key cell ∧
        Ahead node short (idx &&& node.sizeMask) cell) ∨
        ¬ RunsIntoChain node (keyHashOf keys key))
    (enough : rank short (idx &&& node.sizeMask) < fuel) :
    ∃ result, followLink keys (keyHashOf keys key) key fuel node idx short =
      some result := by
  induction fuel generalizing idx short with
  | zero => omega
  | succ fuel inductionHypothesis =>
      obtain ⟨e, maskEqual⟩ := represents.chained.mask
      rw [followLink]
      by_cases ended : node.leap short (idx &&& node.sizeMask) = 0
      · obtain ⟨probe, probed, passed⟩ := linearProbe_returns represents
          (keyHashOf keys key) key node.resizingThreshold idx
        simp only [ended, lt_irrefl, if_false, probed]
        cases probe with
        | claim i => exact ⟨_, rfl⟩
        | found i => exact ⟨_, rfl⟩
        | exhausted i => exact ⟨_, rfl⟩
        | sameBucket i =>
            obtain ⟨after, within, -, sameBucket⟩ :=
              linearProbe_post keys probed
            rcases unobstructed with ⟨cell, -, ahead⟩ | clear
            · exact absurd ended ahead.leap_ne_zero
            · exact absurd
                (runsIntoChain_of_sameBucket represents.chained position
                ended after
                within sameBucket (passed i rfl)) clear
      · have onward := position.advance represents.chained.toLinked ended
        have falls := ranked short _ ended
        have nextCell :
            ((idx &&& node.sizeMask) + node.leap short (idx &&& node.sizeMask))
            &&&
                node.sizeMask =
              (idx + node.leap short (idx &&& node.sizeMask)) &&&
              node.sizeMask := by
          rw [maskEqual, and_mask_add]
        rw [nextCell] at onward falls
        have goesOn : ¬ Holds keys node key
              ((idx + node.leap short (idx &&& node.sizeMask)) &&&
                node.sizeMask) →
            ∃ result, followLink keys (keyHashOf keys key) key fuel node
              (idx + node.leap short (idx &&& node.sizeMask)) true =
              some result := by
          intro notHere
          refine inductionHypothesis onward ?_ (by omega)
          refine unobstructed.imp_left ?_
          rintro ⟨cell, holds, ahead⟩
          refine ⟨cell, holds, ?_⟩
          have advanced := ahead.advance
          rw [nextCell] at advanced
          rcases advanced with here | further
          · exact absurd (here ▸ holds) notHere
          · exact further
        obtain ⟨same, known⟩ := represents.isSameKey_eq_some onward.claimed key
        have sameIff := isSameKey_eq_some_true_iff keys node key
          ((idx + node.leap short (idx &&& node.sizeMask)) &&& node.sizeMask)
        simp only [Nat.pos_of_ne_zero ended, if_true, Node.cellAt,
          if_neg onward.claimed, known]
        split
        · cases same with
          | true => exact ⟨_, rfl⟩
          | false =>
              exact goesOn fun holds => by simp [sameIff.mpr holds] at known
        · rename_i hashDiffers
          exact goesOn fun holds => hashDiffers (represents.keyHash_eq holds)

/-- A search for an absent key that does not run into its own chain. -/
theorem followLink_clean
    {node : Node K V}
    (represents : Represents keys node map)
    (acyclic : Acyclic node)
    (absent : ∀ cell, ¬ Holds keys node key cell)
    (clear : ¬ RunsIntoChain node (keyHashOf keys key))
    (position : AtChain node (keyHashOf keys key &&& node.sizeMask) short
      (idx &&& node.sizeMask))
    (returned :
      followLink keys (keyHashOf keys key) key fuel node idx short =
        some result) :
    CleanResult keys node key result := by
  induction fuel generalizing idx short with
  | zero => simp [followLink] at returned
  | succ fuel inductionHypothesis =>
      obtain ⟨e, maskEqual⟩ := represents.chained.mask
      have cellAdd : ∀ delta,
          ((idx &&& node.sizeMask) + delta) &&& node.sizeMask =
            (idx + delta) &&& node.sizeMask := by
        intro delta
        rw [maskEqual, and_mask_add]
      simp only [followLink] at returned
      split at returned
      · rename_i positive
        have onward :=
          position.advance represents.chained.toLinked (Nat.ne_of_gt positive)
        rw [cellAdd] at onward
        split at returned
        · cases returned
        · split at returned
          · split at returned
            · cases returned
            · rename_i same
              exact absurd
                ((isSameKey_eq_some_true_iff keys node key _).mp same)
                (absent _)
            · exact inductionHypothesis onward returned
          · exact inductionHypothesis onward returned
      · rename_i notPositive
        have ended : node.leap short (idx &&& node.sizeMask) = 0 := by omega
        have thresholdSmall := represents.chained.threshold
        obtain ⟨probe, probed, passed⟩ := linearProbe_returns represents
          (keyHashOf keys key) key node.resizingThreshold idx
        have post := linearProbe_post keys probed
        rw [probed] at returned
        cases probe with
        | claim i =>
            obtain ⟨after, within, empty⟩ := post
            cases returned
            have target : ((idx &&& node.sizeMask) + (i - idx)) &&&
              node.sizeMask =
                i &&& node.sizeMask := by
              rw [cellAdd, Nat.add_sub_cancel' after.le]
            refine .inr
              (.inl ⟨i &&& node.sizeMask, _, absent, empty, ?_,
              fun _ => by simp, ?_,
              rfl⟩)
            · rw [Node.storeLeap_keyHash, Node.storeKeyHash_keyHash, if_pos rfl]
            · rw [← target]
              exact acyclic.claim represents.chained.toLinked (by omega)
                position.claimed (target.symm ▸ empty)
        | found i => exact absurd post (absent _)
        | sameBucket i =>
            obtain ⟨after, within, -, sameBucket⟩ := post
            exact absurd
              (runsIntoChain_of_sameBucket represents.chained position
              ended after
              within sameBucket (passed i rfl)) clear
        | exhausted i =>
            cases returned
            exact .inr (.inr ⟨i, absent, rfl⟩)

/-- A key can be inserted: it is in the table, or the search for it does not run
into its own chain. -/
def Insertable (keys : KeyType K) (node : Node K V) (key : K) : Prop :=
  (∃ cell, Holds keys node key cell) ∨ ¬ RunsIntoChain node (keyHashOf keys key)

theorem insertOrFind_returns
    {node : Node K V}
    (represents : Represents keys node map)
    (acyclic : Acyclic node)
    (insertable : Insertable keys node key) :
    ∃ fuel result,
      insertOrFind keys fuel node (keyHashOf keys key) key = some result := by
  obtain ⟨rank, ranked⟩ := acyclic
  by_cases empty :
    (node.array (keyHashOf keys key &&& node.sizeMask)).keyHash = 0
  · exact ⟨0, _, by rw [insertOrFind, if_pos empty]⟩
  · refine ⟨rank false (keyHashOf keys key &&& node.sizeMask) + 1, ?_⟩
    have goesOn : ¬ Holds keys node key (keyHashOf keys key &&& node.sizeMask) →
        ∃ result, followLink keys (keyHashOf keys key) key
          (rank false (keyHashOf keys key &&& node.sizeMask) + 1) node
          (keyHashOf keys key) false = some result := by
      intro notHere
      refine followLink_returns represents ranked
        ⟨empty, rfl, fun impossible => by cases impossible⟩ ?_ (by omega)
      refine insertable.imp_left ?_
      rintro ⟨cell, holds⟩
      refine ⟨cell, holds, ?_⟩
      refine (represents.home_or_ahead holds).resolve_left ?_
      rintro rfl
      exact notHere holds
    obtain ⟨same, known⟩ := represents.isSameKey_eq_some empty key
    have sameIff := isSameKey_eq_some_true_iff keys node key
      (keyHashOf keys key &&& node.sizeMask)
    simp only [insertOrFind, if_neg empty, known]
    split
    · cases same with
      | true => exact ⟨_, rfl⟩
      | false => exact goesOn fun holds => by simp [sameIff.mpr holds] at known
    · rename_i hashDiffers
      exact goesOn fun holds => hashDiffers (represents.keyHash_eq holds)

theorem insertOrFind_clean
    {node : Node K V}
    (represents : Represents keys node map)
    (acyclic : Acyclic node)
    (insertable : Insertable keys node key)
    (returned :
      insertOrFind keys fuel node (keyHashOf keys key) key = some result) :
    CleanResult keys node key result := by
  by_cases held : ∃ cell, Holds keys node key cell
  · obtain ⟨cell, holds⟩ := held
    exact .inl ⟨cell, holds, insertOrFind_eq_of_holds represents holds returned⟩
  · have absent : ∀ cell, ¬ Holds keys node key cell :=
      fun cell holds => held ⟨cell, holds⟩
    have search :
      (node.array (keyHashOf keys key &&& node.sizeMask)).keyHash ≠ 0 →
        followLink keys (keyHashOf keys key) key fuel node
          (keyHashOf keys key) false =
          some result → CleanResult keys node key result := fun claimed =>
      followLink_clean represents acyclic absent (insertable.resolve_left held)
        ⟨claimed, rfl, fun impossible => by cases impossible⟩
    simp only [insertOrFind] at returned
    split at returned
    · rename_i empty
      cases returned
      refine .inr (.inl ⟨_, _, absent, empty, ?_, fun _ => by simp, ?_, rfl⟩)
      · rw [Node.storeKeyHash_keyHash, if_pos rfl]
      · exact acyclic.of_same rfl (node.storeKeyHash_leap _ _)
    · rename_i claimed
      split at returned
      · split at returned
        · cases returned
        · rename_i same
          exact absurd ((isSameKey_eq_some_true_iff keys node key _).mp same)
            (absent _)
        · exact search claimed returned
      · exact search claimed returned

/-! ## Walks along a chain -/

/-- The part of `get` behind the home cell ends. -/
theorem getChain_returns
    (short : Bool)
    {node : Node K V}
    {rank : Bool → Nat → Nat}
    (represents : Represents keys node map)
    (ranked : Ranked node rank)
    (key : K)
    (enough : rank short index < fuel) :
    ∃ response, getChain keys node (keyHashOf keys key) key fuel index
      (node.leap short index) = some response := by
  induction fuel generalizing index short with
  | zero => omega
  | succ fuel inductionHypothesis =>
      rw [getChain]
      split
      · rename_i positive
        have falls := ranked short index (Nat.ne_of_gt positive)
        have goesOn := inductionHypothesis true (by omega :
          rank true ((index + node.leap short index) &&& node.sizeMask) < fuel)
        rcases tryGettingFromEntry_eq represents key
          ((index + node.leap short index) &&& node.sizeMask) with ⟨-, entry⟩ |
          ⟨-, entry⟩
        · simp only [entry]
          cases (node.array
            ((index + node.leap short index) &&& node.sizeMask)).value with
          | some value => exact ⟨_, rfl⟩
          | none => exact goesOn
        · simp only [entry]
          exact goesOn
      · exact ⟨none, rfl⟩

/-- The part of `dissoc` behind the home cell ends. -/
theorem dissocChain_returns
    (short : Bool)
    {node : Node K V}
    {rank : Bool → Nat → Nat}
    (represents : Represents keys node map)
    (ranked : Ranked node rank)
    (key : K)
    (enough : rank short index < fuel) :
    ∃ changed, dissocChain keys (keyHashOf keys key) key fuel node index
      (node.leap short index) = some changed := by
  induction fuel generalizing index short with
  | zero => omega
  | succ fuel inductionHypothesis =>
      rw [dissocChain]
      split
      · rename_i positive
        have falls := ranked short index (Nat.ne_of_gt positive)
        have goesOn := inductionHypothesis true (by omega :
          rank true ((index + node.leap short index) &&& node.sizeMask) < fuel)
        rcases tryDeletingFromEntry_cases represents key
          ((index + node.leap short index) &&& node.sizeMask) with
          ⟨-, entry⟩ | ⟨-, entry⟩ | ⟨-, -, entry⟩
        · simp only [entry]
          exact ⟨_, rfl⟩
        · simp only [entry]
          exact ⟨_, rfl⟩
        · simp only [entry]
          exact goesOn
      · exact ⟨node, rfl⟩

theorem get_returns
    {node : Node K V}
    (represents : Represents keys node map)
    (acyclic : Acyclic node)
    (key : K) :
    ∃ fuel response, get keys fuel node key = some (.ok response, node) := by
  obtain ⟨rank, ranked⟩ := acyclic
  obtain ⟨response, onward⟩ := getChain_returns false represents ranked key
    (Nat.lt_succ_self (rank false (keyHashOf keys key &&& node.sizeMask)))
  refine ⟨rank false (keyHashOf keys key &&& node.sizeMask) + 1, ?_⟩
  have goesOn : ∃ answer, (getChain keys node (keyHashOf keys key) key
      (rank false (keyHashOf keys key &&& node.sizeMask) + 1)
      (keyHashOf keys key &&& node.sizeMask)
      (node.array (keyHashOf keys key &&& node.sizeMask)).longLeap).map
        (fun value => ((.ok value : Response V), node)) =
        some (.ok answer, node) :=
    ⟨response, Option.map_eq_some_iff.mpr ⟨response, onward, rfl⟩⟩
  simp only [get]
  rcases tryGettingFromEntry_eq represents key
    (keyHashOf keys key &&& node.sizeMask) with
    ⟨-, entry⟩ | ⟨-, entry⟩
  · simp only [entry]
    cases (node.array (keyHashOf keys key &&& node.sizeMask)).value with
    | some value => exact ⟨some value, rfl⟩
    | none => exact goesOn
  · simp only [entry]
    exact goesOn

theorem dissoc_returns
    {node : Node K V}
    (represents : Represents keys node map)
    (acyclic : Acyclic node)
    (key : K) :
    ∃ fuel changed, dissoc keys fuel node key = some (.ok none, changed) := by
  obtain ⟨rank, ranked⟩ := acyclic
  obtain ⟨changed, onward⟩ := dissocChain_returns false represents ranked key
    (Nat.lt_succ_self (rank false (keyHashOf keys key &&& node.sizeMask)))
  refine ⟨rank false (keyHashOf keys key &&& node.sizeMask) + 1, ?_⟩
  simp only [dissoc]
  rcases tryDeletingFromEntry_cases represents key
    (keyHashOf keys key &&& node.sizeMask) with
    ⟨-, entry⟩ | ⟨-, entry⟩ | ⟨-, -, entry⟩
  · simp only [entry]
    exact ⟨_, rfl⟩
  · simp only [entry]
    exact ⟨_, rfl⟩
  · simp only [entry]
    exact ⟨changed, Option.map_eq_some_iff.mpr ⟨changed, onward, rfl⟩⟩

/-! ## Runs -/

/-- An insertion can be carried out; deletions and lookups always can. -/
def Operation.Unobstructed (keys : KeyType K)
    (node : Node K V) : Operation K V → Prop
  | .assoc key _ => Insertable keys node key
  | .putIfAbsent key _ => Insertable keys node key
  | .getOrCreate key _ => Insertable keys node key
  | .dissoc _ => True
  | .get _ => True

/-- One operation after which the thread goes on, whether it threw or not. -/
def Steps (keys : KeyType K) (node changed : Node K V) : Prop :=
  ∃ operation : Operation K V, operation.Unobstructed keys node ∧
    ∃ fuel response, operation.step keys fuel node = some (response, changed)


theorem storeKey_leap (node : Node K V) (cell : Nat) (key : K) (short : Bool)
    (other : Nat) :
    (node.storeKey cell key).leap short other = node.leap short other := by
  simp only [Node.leap, Node.storeKey, Node.setCell_array]
  split <;> split <;> simp_all

theorem Acyclic.storeValue
    {node : Node K V}
    (acyclic : Acyclic node)
    (cell : Nat)
    (value : Option V) :
    Acyclic (node.storeValue cell value) :=
  acyclic.of_same rfl (storeValue_leap node value cell)

theorem Acyclic.fill
    {node : Node K V}
    (acyclic : Acyclic node)
    (cell : Nat)
    (key : K)
    (value : Option V) :
    Acyclic ((node.storeValue cell value).storeKey cell key) :=
  (acyclic.storeValue cell value).of_same rfl (storeKey_leap _ cell key)

/-- What an operation leaves behind: links without cycles, and the old table if
it threw. -/
def LeavesTame (node : Node K V) (response : Response V)
    (changed : Node K V) : Prop :=
  Acyclic changed ∧ ∀ message, response = .error message → changed = node

theorem assoc_leavesTame
    {node : Node K V}
    (represents : Represents keys node map)
    (acyclic : Acyclic node)
    (insertable : Insertable keys node key)
    (returned : assoc keys fuel node key value = some (response, changed)) :
    LeavesTame node response changed := by
  unfold assoc at returned
  cases searched : insertOrFind keys fuel node (keyHashOf keys key) key with
  | none => simp [searched] at returned
  | some result =>
      rw [searched] at returned
      rcases insertOrFind_clean represents acyclic insertable searched with
        ⟨cell, -, rfl⟩ | ⟨cell, claimed, -, -, -, -, claimedAcyclic, rfl⟩ |
        ⟨_, -, rfl⟩
      · cases returned
        exact ⟨acyclic.storeValue _ _, fun message equal => by cases equal⟩
      · cases returned
        exact ⟨claimedAcyclic.fill _ _ _, fun message equal => by cases equal⟩
      · cases returned
        exact ⟨acyclic, fun _ _ => rfl⟩

theorem putIfAbsent_leavesTame
    {node : Node K V}
    (represents : Represents keys node map)
    (acyclic : Acyclic node)
    (insertable : Insertable keys node key)
    (returned : putIfAbsent keys fuel node key value =
      some (response, changed)) :
    LeavesTame node response changed := by
  unfold putIfAbsent at returned
  cases searched : insertOrFind keys fuel node (keyHashOf keys key) key with
  | none => simp [searched] at returned
  | some result =>
      rw [searched] at returned
      rcases insertOrFind_clean represents acyclic insertable searched with
        ⟨cell, -, rfl⟩ | ⟨cell, claimed, -, -, -, -, claimedAcyclic, rfl⟩ |
        ⟨_, -, rfl⟩
      · cases stored : (node.array cell).value with
        | none =>
            simp only [stored] at returned
            cases returned
            exact ⟨acyclic.storeValue _ _, fun message equal => by cases equal⟩
        | some oldVal =>
            simp only [stored] at returned
            cases returned
            exact ⟨acyclic, fun _ _ => rfl⟩
      · cases returned
        exact ⟨claimedAcyclic.fill _ _ _, fun message equal => by cases equal⟩
      · cases returned
        exact ⟨acyclic, fun _ _ => rfl⟩

theorem getOrCreate_leavesTame
    {node : Node K V}
    (represents : Represents keys node map)
    (acyclic : Acyclic node)
    (insertable : Insertable keys node key)
    (returned : getOrCreate keys fuel node key value =
      some (response, changed)) :
    LeavesTame node response changed := by
  unfold getOrCreate at returned
  cases put : putIfAbsent keys fuel node key value with
  | none => simp [put] at returned
  | some result =>
      obtain ⟨answer, afterPut⟩ := result
      obtain ⟨afterAcyclic, unchanged⟩ :=
        putIfAbsent_leavesTame represents acyclic insertable put
      rw [put] at returned
      cases answer with
      | error message =>
          cases returned
          exact ⟨afterAcyclic, unchanged⟩
      | ok stored =>
          cases stored with
          | none =>
              cases returned
              exact ⟨afterAcyclic, fun message equal => by cases equal⟩
          | some oldVal =>
              cases returned
              exact ⟨afterAcyclic, unchanged⟩

/-- Deletions keep all links. -/
theorem dissocChain_acyclic
    {node : Node K V}
    (acyclic : Acyclic node)
    (returned : dissocChain keys keyHash key fuel node index jump =
      some changed) :
    Acyclic changed := by
  induction fuel generalizing index jump with
  | zero => simp [dissocChain] at returned
  | succ fuel inductionHypothesis =>
      simp only [dissocChain] at returned
      split at returned
      · split at returned
        · cases returned
        · cases returned
          exact acyclic
        · cases returned
          exact acyclic.storeValue _ _
        · exact inductionHypothesis returned
      · cases returned
        exact acyclic

theorem dissoc_leavesTame
    {node : Node K V}
    (acyclic : Acyclic node)
    (returned : dissoc keys fuel node key = some (response, changed)) :
    LeavesTame node response changed := by
  simp only [dissoc, Option.map_eq_some_iff, Prod.mk.injEq] at returned
  obtain ⟨result, resultEqual, rfl, rfl⟩ := returned
  refine ⟨?_, fun message equal => by cases equal⟩
  split at resultEqual
  · cases resultEqual
  · cases resultEqual
    exact acyclic
  · cases resultEqual
    exact acyclic.storeValue _ _
  · exact dissocChain_acyclic acyclic resultEqual

/-- One operation keeps the links without cycles. -/
theorem step_leavesTame
    {node : Node K V}
    (represents : Represents keys node map)
    (acyclic : Acyclic node)
    (operation : Operation K V)
    (unobstructed : operation.Unobstructed keys node)
    (returned : operation.step keys fuel node = some (response, changed)) :
    LeavesTame node response changed := by
  cases operation with
  | assoc key value =>
      exact assoc_leavesTame represents acyclic unobstructed returned
  | putIfAbsent key value =>
      exact putIfAbsent_leavesTame represents acyclic unobstructed returned
  | getOrCreate key value =>
      exact getOrCreate_leavesTame represents acyclic unobstructed returned
  | dissoc key => exact dissoc_leavesTame acyclic returned
  | get key =>
      simp only [Operation.step, get, Option.map_eq_some_iff,
        Prod.mk.injEq] at returned
      obtain ⟨result, -, rfl, rfl⟩ := returned
      exact ⟨acyclic, fun message equal => by cases equal⟩

/-- An operation that is not obstructed returns. -/
theorem step_returns
    {node : Node K V}
    (represents : Represents keys node map)
    (acyclic : Acyclic node)
    (operation : Operation K V)
    (unobstructed : operation.Unobstructed keys node) :
    ∃ fuel response changed,
      operation.step keys fuel node = some (response, changed) := by
  have inserts : ∀ key, Insertable keys node key → ∃ fuel result,
      insertOrFind keys fuel node (keyHashOf keys key) key = some result :=
    fun key => insertOrFind_returns represents acyclic
  have puts : ∀ key value, Insertable keys node key → ∃ fuel result,
      putIfAbsent keys fuel node key value = some result := by
    intro key value insertable
    obtain ⟨fuel, ⟨kind, changed⟩, searched⟩ := inserts key insertable
    refine ⟨fuel, ?_⟩
    rw [putIfAbsent, searched]
    cases kind with
    | alreadyFound cell =>
        cases stored : (changed.array cell).value with
        | none =>
            simp only [stored]
            exact ⟨_, rfl⟩
        | some oldVal =>
            simp only [stored]
            exact ⟨_, rfl⟩
    | insertedNew cell => exact ⟨_, rfl⟩
    | overflow overflowIdx => exact ⟨_, rfl⟩
  cases operation with
  | assoc key value =>
      obtain ⟨fuel, ⟨kind, changed⟩, searched⟩ := inserts key unobstructed
      refine ⟨fuel, ?_⟩
      rw [Operation.step, assoc, searched]
      cases kind with
      | alreadyFound cell => exact ⟨_, _, rfl⟩
      | insertedNew cell => exact ⟨_, _, rfl⟩
      | overflow overflowIdx => exact ⟨_, _, rfl⟩
  | putIfAbsent key value =>
      obtain ⟨fuel, ⟨response, changed⟩, returned⟩ :=
        puts key value unobstructed
      exact ⟨fuel, response, changed, returned⟩
  | getOrCreate key value =>
      obtain ⟨fuel, ⟨response, changed⟩, returned⟩ :=
        puts key value unobstructed
      refine ⟨fuel, ?_⟩
      rw [Operation.step, getOrCreate, returned]
      match response with
      | .ok none => exact ⟨_, _, rfl⟩
      | .ok (some oldVal) => exact ⟨_, _, rfl⟩
      | .error message => exact ⟨_, _, rfl⟩
  | dissoc key =>
      obtain ⟨fuel, changed, returned⟩ := dissoc_returns represents acyclic key
      exact ⟨fuel, _, changed, returned⟩
  | get key =>
      obtain ⟨fuel, response, returned⟩ := get_returns represents acyclic key
      exact ⟨fuel, _, node, returned⟩

/-- The state of a run whose insertions are not obstructed. -/
theorem tame_of_reachable
    {initialSizeExponent rounded : Nat}
    {node : Node K V}
    (reached :
      TransitionSystem.Reachable (· = create initialSizeExponent rounded)
      (Steps keys) node) :
    (∃ map, Represents keys node map) ∧ Acyclic node := by
  let Tame : Node K V → Prop := fun node => (∃ map, Represents keys node map) ∧
    Acyclic node
  suffices tame : Tame node from tame
  refine reached.invariant ?_ ?_
  · rintro _ rfl
    exact ⟨⟨_, represents_create initialSizeExponent rounded⟩,
      acyclic_create initialSizeExponent rounded⟩
  · rintro before after - ⟨⟨map, represents⟩, acyclic⟩
      ⟨operation, unobstructed, fuel, response, returned⟩
    obtain ⟨afterAcyclic, unchanged⟩ :=
      step_leavesTame represents acyclic operation unobstructed returned
    refine ⟨?_, afterAcyclic⟩
    cases response with
    | ok answer => exact ⟨_, (step_represents represents operation returned).2⟩
    | error message => exact ⟨map, unchanged message rfl ▸ represents⟩

/-- In every run of one thread on a fresh table whose insertions never run
into their own chain: links form no cycle, operations return, and one that
throws has changed nothing; a search finds the key, claims a free cell for
it, or gives up. -/
theorem operations_return
    (keys : KeyType K)
    (initialSizeExponent rounded : Nat)
    (node : Node K V)
    (reached :
      TransitionSystem.Reachable (· = create initialSizeExponent rounded)
      (Steps keys) node) :
    (∀ cell, ¬ Ahead node true cell cell) ∧
      (∀ operation : Operation K V, operation.Unobstructed keys node →
        ∃ fuel response changed,
          operation.step keys fuel node = some (response, changed) ∧
          ∀ message, response = .error message → changed = node) ∧
      ∀ key, Insertable keys node key →
        ∃ fuel result,
          insertOrFind keys fuel node (keyHashOf keys key) key = some result ∧
          CleanResult keys node key result := by
  obtain ⟨⟨map, represents⟩, acyclic⟩ := tame_of_reachable reached
  refine ⟨acyclic.not_ahead_self, fun operation unobstructed => ?_,
    fun key insertable => ?_⟩
  · obtain ⟨fuel, response, changed, returned⟩ :=
      step_returns represents acyclic operation unobstructed
    exact ⟨fuel, response, changed, returned,
      (step_leavesTame represents acyclic operation unobstructed returned).2⟩
  · obtain ⟨fuel, result, returned⟩ :=
      insertOrFind_returns represents acyclic insertable
    exact ⟨fuel, result, returned,
      insertOrFind_clean represents acyclic insertable returned⟩

theorem numbers_refl (number : Nat) : (number == number) = true :=
  beq_self_eq_true number

theorem numbers_symm (left right : Nat) (equal : (left == right) = true) :
    (right == left) = true := by
  rw [eq_of_beq equal, beq_self_eq_true]

theorem numbers_trans
    (left middle right : Nat)
    (first : (left == middle) = true)
    (second : (middle == right) = true) : (left == right) = true := by
  rw [eq_of_beq first, second]

/-- Numbers as keys that all have one hash. -/
def collidingKeys : KeyType Nat where
  equals := fun left right => left == right
  hash := fun _ => 2
  equals_refl := numbers_refl
  equals_symm := numbers_symm
  equals_trans := numbers_trans
  hash_eq_of_equals := fun _ _ _ => rfl

/-- The table of two cells with one of them claimed. -/
theorem operations_return_one_key :
    ∃ node : Node Nat Nat,
      assoc collidingKeys 20 (create 1 1) 0 7 = some (.ok none, node) ∧
      ∃ fuel response changed,
        (Operation.assoc 1 8).step collidingKeys fuel node =
        some (response, changed) ∧
          ∀ message, response = .error message → changed = node := by
  have first : ∃ node,
    assoc collidingKeys 20 (create 1 1) 0 7 = some (.ok none, node) ∧
      Insertable collidingKeys node 1 := by
    refine ⟨_, rfl, .inr ?_⟩
    rintro ⟨short, cell, distance, ⟨position, -⟩, positive, within, claimed, -⟩
    have isHome : cell = 0 := by
      cases short with
      | false => exact position.bucket
      | true => exact absurd rfl (position.reached rfl).leap_ne_zero
    subst isHome
    exact claimed 1 Nat.one_pos positive rfl
  obtain ⟨node, returned, insertable⟩ := first
  refine ⟨node, returned, ?_⟩
  have step : Steps collidingKeys (create 1 1) node := by
    refine ⟨.assoc 0 7, .inr ?_, 20, .ok none, returned⟩
    rintro ⟨short, cell, distance, ⟨position, -⟩, -⟩
    exact position.claimed rfl
  exact (operations_return collidingKeys 1 1 node
    ⟨create 1 1, rfl, .single step⟩).2.1 (.assoc 1 8) insertable

/-- A search in a full ring of links between two cells never ends. -/
theorem followLink_spins
    {node : Node K V}
    (maskEqual : node.sizeMask = 1)
    (ring : ∀ cell, cell < 2 → (node.array cell).shortLeap = 1 ∧
      (node.array cell).keyHash = keyHash ∧
      isSameKey keys (node.array cell) key = some false)
    (fuel idx : Nat) :
    followLink keys keyHash key fuel node idx true = none := by
  induction fuel generalizing idx with
  | zero => rfl
  | succ fuel inductionHypothesis =>
      have inRing : ∀ other, other &&& node.sizeMask < 2 := by
        intro other
        rw [maskEqual, Nat.and_one_is_mod]
        omega
      obtain ⟨leap, -, -⟩ := ring _ (inRing idx)
      obtain ⟨-, hashEqual, different⟩ := ring _ (inRing (idx + 1))
      rw [followLink]
      simp only [Node.leap, if_true, leap, Node.cellAt, hashEqual, different,
        inductionHypothesis]
      simp

/-- The third insertion into a table of two cells does not return. -/
theorem third_insertion_spins :
    ∃ node : Node Nat Nat,
      runOperations collidingKeys 20 (create 1 1) [.assoc 0 7, .assoc 1 8] =
        some ([none, none], node) ∧
      ∀ fuel, (Operation.assoc 2 9).step collidingKeys fuel node = none := by
  refine ⟨_, rfl, fun fuel => ?_⟩
  generalize tableEqual : Node.storeKey _ _ _ = table
  have ring : ∀ cell, cell < 2 →
      (((table.storeLeap true 1 1).storeLeap true 0 1).array cell).shortLeap =
      1 ∧
      (((table.storeLeap true 1 1).storeLeap true 0 1).array cell).keyHash = 2 ∧
      isSameKey collidingKeys
        (((table.storeLeap true 1 1).storeLeap true 0 1).array cell) 2 =
        some false := by
    subst table
    decide
  -- Two links are added before the search runs in the ring.
  have spins : ∀ fuel, insertOrFind collidingKeys fuel table 2 2 = none := by
    intro fuel
    match fuel with
    | 0 => subst table; rfl
    | 1 => subst table; rfl
    | 2 => subst table; rfl
    | fuel + 3 =>
        refine Eq.trans ?_ (followLink_spins (by subst table; rfl) ring fuel 5)
        subst table
        rfl
  have hashEqual : keyHashOf collidingKeys 2 = 2 := rfl
  rw [Operation.step, assoc, hashEqual, spins]

end ConcurrentHashMap
end Runtime
end ClojureRt
