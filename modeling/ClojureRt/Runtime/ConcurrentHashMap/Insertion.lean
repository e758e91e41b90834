import ClojureRt.Runtime.ConcurrentHashMap.Chains

/-!
# What `insertOrFind` does to the table

A search that returns either found the key, or claimed one empty cell and linked
it behind the chain of its bucket, or gave up.  It never touches a key or a
value, and it keeps the chains.  A key that is in the table is always found,
and then nothing is changed at all.
-/

namespace ClojureRt
namespace Runtime
namespace ConcurrentHashMap

/-! ## Adding links -/

/-- A link to a claimed cell of the right bucket keeps the local facts. -/
theorem Linked.storeLeap
    {node : Node K V}
    (linked : Linked node)
    (claimed : (node.array cell).keyHash ≠ 0)
    (deltaPositive : 0 < delta)
    (deltaSmall : delta ≤ 128)
    (targetClaimed :
      (node.array ((cell + delta) &&& node.sizeMask)).keyHash ≠ 0)
    (targetBucket :
      (node.array ((cell + delta) &&& node.sizeMask)).keyHash &&&
      node.sizeMask =
        node.bucketOf short cell) :
    Linked (node.storeLeap short cell delta) where
  mask := linked.mask
  threshold := linked.threshold
  claimed_inRange := by simpa using linked.claimed_inRange
  empty_leap := by
    intro otherShort other empty
    rw [Node.storeLeap_keyHash] at empty
    rw [Node.storeLeap_leap, if_neg]
    · exact linked.empty_leap otherShort other empty
    · rintro ⟨-, rfl⟩
      exact claimed empty
  leap_bucket := by
    have deltaMod : delta % 256 = delta := Nat.mod_eq_of_lt (by omega)
    have bucketKept : ∀ otherShort other,
        (node.storeLeap short cell delta).bucketOf otherShort other =
          node.bucketOf otherShort other := by
      intro otherShort other
      simp [Node.bucketOf]
    intro otherShort other nonzero
    rw [Node.storeLeap_leap] at nonzero ⊢
    rw [bucketKept]
    simp only [Node.storeLeap_keyHash, Node.storeLeap_sizeMask]
    split at nonzero
    · rename_i same
      obtain ⟨rfl, rfl⟩ := same
      simp only [and_self, if_true, deltaMod]
      exact ⟨targetClaimed, targetBucket⟩
    · rename_i different
      rw [if_neg different]
      exact linked.leap_bucket otherShort other nonzero

/-- Claiming an empty cell of the table keeps the local facts. -/
theorem Linked.storeKeyHash
    {node : Node K V}
    (linked : Linked node)
    (empty : (node.array cell).keyHash = 0)
    (inRange : cell &&& node.sizeMask = cell)
    (hashNonzero : keyHash ≠ 0) :
    Linked (node.storeKeyHash cell keyHash) where
  mask := linked.mask
  threshold := linked.threshold
  claimed_inRange := by
    intro other claimed
    rw [Node.storeKeyHash_keyHash] at claimed
    split at claimed
    · subst other
      exact inRange
    · exact linked.claimed_inRange other claimed
  empty_leap := by
    intro short other otherEmpty
    rw [Node.storeKeyHash_keyHash] at otherEmpty
    rw [Node.storeKeyHash_leap]
    split at otherEmpty
    · exact absurd otherEmpty hashNonzero
    · exact linked.empty_leap short other otherEmpty
  leap_bucket := by
    intro short other nonzero
    rw [Node.storeKeyHash_leap] at nonzero ⊢
    obtain ⟨targetClaimed, targetBucket⟩ :=
      linked.leap_bucket short other nonzero
    -- Neither end of an existing link is the empty cell.
    have targetNe : (other + node.leap short other) &&& node.sizeMask ≠
        cell := by
      intro equal
      exact targetClaimed (equal ▸ empty)
    have otherNe : other ≠ cell := by
      intro equal
      exact nonzero (linked.empty_leap short other (equal ▸ empty))
    simp only [Node.storeKeyHash_sizeMask, Node.bucketOf,
      Node.storeKeyHash_keyHash, if_neg targetNe, if_neg otherNe]
    exact ⟨targetClaimed, targetBucket⟩

/-- Writing a link where there was none keeps every cell ahead. -/
theorem Ahead.storeLeap
    {node : Node K V}
    (free : node.leap short cell = 0)
    (ahead : Ahead node otherShort start other) :
    Ahead (node.storeLeap short cell delta) otherShort start other := by
  refine ahead.mono rfl fun someShort someCell nonzero => ?_
  rw [Node.storeLeap_leap, if_neg]
  rintro ⟨rfl, rfl⟩
  exact nonzero free

/-- Claiming a cell leaves all links alone. -/
theorem Ahead.storeKeyHash
    {node : Node K V}
    (ahead : Ahead node short start other) :
    Ahead (node.storeKeyHash cell keyHash) short start other :=
  ahead.mono rfl fun _ _ _ => node.storeKeyHash_leap _ _ _ _

/-- A new link at the end of a chain leads to its target. -/
theorem AtChain.ahead_storeLeap
    {node : Node K V}
    (position : AtChain node home short cell)
    (free : node.leap short cell = 0)
    (deltaPositive : 0 < delta)
    (deltaSmall : delta ≤ 128) :
    Ahead (node.storeLeap short cell delta) false home
      ((cell + delta) &&& node.sizeMask) := by
  have stored : (node.storeLeap short cell delta).leap short cell = delta := by
    rw [Node.storeLeap_leap, if_pos ⟨rfl, rfl⟩]
    exact Nat.mod_eq_of_lt (by omega)
  have nonzero : (node.storeLeap short cell delta).leap short cell ≠ 0 := by
    omega
  cases short with
  | false =>
      have homeCell : cell = home := position.bucket
      subst homeCell
      have step := Ahead.next false cell nonzero
      rwa [stored] at step
  | true =>
      have step := ((position.reached rfl).storeLeap free).snoc nonzero
      rwa [stored] at step

/-- Linking a claimed cell of the same bucket behind a chain. -/
theorem Chained.storeLeap
    {node : Node K V}
    (chained : Chained node)
    (position : AtChain node home short cell)
    (free : node.leap short cell = 0)
    (deltaPositive : 0 < delta)
    (deltaSmall : delta ≤ 128)
    (targetClaimed :
      (node.array ((cell + delta) &&& node.sizeMask)).keyHash ≠ 0)
    (targetBucket :
      (node.array ((cell + delta) &&& node.sizeMask)).keyHash &&&
      node.sizeMask =
        home) :
    Chained (node.storeLeap short cell delta) where
  toLinked := chained.toLinked.storeLeap position.claimed deltaPositive
    deltaSmall targetClaimed (targetBucket.trans position.bucket.symm)
  home_or_ahead := by
    intro other claimed
    rw [Node.storeLeap_keyHash] at claimed ⊢
    rcases chained.home_or_ahead other claimed with atHome | ahead
    · exact .inl atHome
    · exact .inr (ahead.storeLeap free)

/-- Claiming an empty cell and linking it behind the chain of its bucket. -/
theorem Chained.claim
    {node : Node K V}
    (chained : Chained node)
    (position : AtChain node home short cell)
    (free : node.leap short cell = 0)
    (deltaPositive : 0 < delta)
    (deltaSmall : delta ≤ 128)
    (targetEmpty :
      (node.array ((cell + delta) &&& node.sizeMask)).keyHash = 0)
    (hashNonzero : keyHash ≠ 0)
    (hashHome : keyHash &&& node.sizeMask = home) :
    Chained ((node.storeKeyHash ((cell + delta) &&& node.sizeMask)
      keyHash).storeLeap short cell delta) := by
  obtain ⟨e, maskEqual⟩ := chained.mask
  set target := (cell + delta) &&& node.sizeMask with targetEqual
  have targetInRange : target &&& node.sizeMask = target := by
    rw [targetEqual, maskEqual, and_mask_idem]
  have cellNe : cell ≠ target := by
    intro equal
    exact position.claimed (equal ▸ targetEmpty)
  have claimed :=
    chained.toLinked.storeKeyHash targetEmpty targetInRange hashNonzero
  have bucketKept :
      (node.storeKeyHash target keyHash).bucketOf short cell =
        node.bucketOf short cell := by
    simp [Node.bucketOf, Node.storeKeyHash_keyHash, cellNe]
  have claimedPosition :
      AtChain (node.storeKeyHash target keyHash) home short cell := by
    refine ⟨?_, ?_, fun isShort => (position.reached isShort).storeKeyHash⟩
    · rw [Node.storeKeyHash_keyHash, if_neg cellNe]
      exact position.claimed
    · rw [bucketKept, position.bucket]
  have claimedFree :
      (node.storeKeyHash target keyHash).leap short cell = 0 := by
    rw [Node.storeKeyHash_leap, free]
  refine ⟨claimed.storeLeap claimedPosition.claimed deltaPositive deltaSmall
    ?_ ?_, ?_⟩
  · rw [Node.storeKeyHash_sizeMask, ← targetEqual, Node.storeKeyHash_keyHash,
      if_pos rfl]
    exact hashNonzero
  · rw [Node.storeKeyHash_sizeMask, ← targetEqual, Node.storeKeyHash_keyHash,
      if_pos rfl, hashHome, claimedPosition.bucket]
  · intro other otherClaimed
    rw [Node.storeLeap_keyHash, Node.storeKeyHash_keyHash] at otherClaimed ⊢
    by_cases isTarget : other = target
    · rw [if_pos isTarget]
      right
      have ahead :=
        claimedPosition.ahead_storeLeap claimedFree deltaPositive deltaSmall
      rw [Node.storeKeyHash_sizeMask, ← targetEqual] at ahead
      rw [Node.storeLeap_sizeMask, Node.storeKeyHash_sizeMask, hashHome,
        isTarget]
      exact ahead
    · rw [if_neg isTarget] at otherClaimed ⊢
      rcases chained.home_or_ahead other otherClaimed with atHome | ahead
      · exact .inl atHome
      · exact .inr (ahead.storeKeyHash.storeLeap claimedFree)

/-- Claiming the empty home cell of a bucket. -/
theorem Chained.claimHome
    {node : Node K V}
    (chained : Chained node)
    (homeEmpty : (node.array (keyHash &&& node.sizeMask)).keyHash = 0)
    (hashNonzero : keyHash ≠ 0) :
    Chained (node.storeKeyHash (keyHash &&& node.sizeMask) keyHash) := by
  obtain ⟨e, maskEqual⟩ := chained.mask
  have inRange :
      (keyHash &&& node.sizeMask) &&& node.sizeMask =
        keyHash &&& node.sizeMask := by
    rw [maskEqual, and_mask_idem]
  refine ⟨chained.toLinked.storeKeyHash homeEmpty inRange hashNonzero, ?_⟩
  intro other otherClaimed
  rw [Node.storeKeyHash_keyHash] at otherClaimed ⊢
  split at otherClaimed
  · rename_i isHome
    rw [if_pos isHome]
    exact .inl isHome
  · rename_i notHome
    rw [if_neg notHome]
    rcases chained.home_or_ahead other otherClaimed with atHome | ahead
    · exact .inl atHome
    · exact .inr ahead.storeKeyHash

/-! ## The linear search -/

variable (keys : KeyType K)

/-- The cell holds a key equal to `key`, live or deleted. -/
def Holds (node : Node K V) (key : K) (cell : Nat) : Prop :=
  ∃ stored, (node.array cell).key = some stored ∧ keys.equals stored key = true

theorem isSameKey_eq_some_true_iff (node : Node K V) (key : K) (cell : Nat) :
    isSameKey keys (node.array cell) key = some true ↔
      Holds keys node key cell := by
  simp [isSameKey, Holds, Option.map_eq_some_iff]

/-- What the linear search reports about the cell it stops at. -/
def ProbePost
    (node : Node K V)
    (keyHash : Nat)
    (key : K)
    (remaining idx : Nat) : Probe → Prop
  | .claim i => idx < i ∧ i ≤ idx + remaining ∧ (node.cellAt i).keyHash = 0
  | .found i => Holds keys node key (i &&& node.sizeMask)
  | .sameBucket i =>
      idx < i ∧ i ≤ idx + remaining ∧ (node.cellAt i).keyHash ≠ 0 ∧
      ((node.cellAt i).keyHash ^^^ keyHash) &&& node.sizeMask = 0
  | .exhausted _ => True

theorem linearProbe_post
    {node : Node K V}
    (returned : linearProbe keys node keyHash key remaining idx = some probe) :
    ProbePost keys node keyHash key remaining idx probe := by
  induction remaining generalizing idx with
  | zero =>
      simp only [linearProbe, Option.some.injEq] at returned
      subst probe
      trivial
  | succ remaining inductionHypothesis =>
      -- A search that goes on reports for a window inside this one.
      have weaken : ∀ probe,
        ProbePost keys node keyHash key remaining (idx + 1) probe →
          ProbePost keys node keyHash key (remaining + 1) idx probe := by
        intro probe post
        cases probe with
        | claim i =>
            exact ⟨by have := post.1; omega, by
              have := post.2.1; omega, post.2.2⟩
        | found i => exact post
        | sameBucket i =>
            exact ⟨by have := post.1; omega, by
              have := post.2.1; omega, post.2.2⟩
        | exhausted i => trivial
      have afterKeyTest :
          (node.cellAt (idx + 1)).keyHash ≠ 0 →
          (if ((node.cellAt (idx + 1)).keyHash ^^^ keyHash) &&&
            node.sizeMask = 0 then
            some (Probe.sameBucket (idx + 1))
          else linearProbe keys node keyHash key remaining (idx + 1)) =
            some probe →
          ProbePost keys node keyHash key (remaining + 1) idx probe := by
        intro claimed result
        split at result
        · rename_i same
          cases result
          exact ⟨by omega, by omega, claimed, same⟩
        · exact weaken probe (inductionHypothesis result)
      simp only [linearProbe] at returned
      split at returned
      · rename_i empty
        cases returned
        exact ⟨by omega, by omega, empty⟩
      · rename_i claimed
        split at returned
        · split at returned
          · cases returned
          · rename_i same
            cases returned
            exact (isSameKey_eq_some_true_iff keys node key _).mp same
          · exact afterKeyTest claimed returned
        · exact afterKeyTest claimed returned

/-! ## The whole search -/

/-- Two tables with the same keys and values. -/
def SameSlots (node changed : Node K V) : Prop :=
  ∀ cell, (changed.array cell).key = (node.array cell).key ∧
    (changed.array cell).value = (node.array cell).value

/-- What `insertOrFind` guarantees when it returns. -/
def InsertPost
    (node : Node K V)
    (keyHash : Nat)
    (key : K)
    (result : InsertResult × Node K V) : Prop :=
  Chained result.2 ∧ result.2.sizeMask = node.sizeMask ∧
    SameSlots node result.2 ∧
    match result.1 with
    | .alreadyFound cell =>
        Holds keys node key cell ∧
          ∀ other, (result.2.array other).keyHash = (node.array other).keyHash
    | .insertedNew cell =>
        (node.array cell).keyHash = 0 ∧
          ∀ other, (result.2.array other).keyHash =
            if other = cell then keyHash else (node.array other).keyHash
    | .overflow _ =>
        ∀ other, (result.2.array other).keyHash = (node.array other).keyHash

/-- A search from a table that only got new links reports about the old one. -/
theorem InsertPost.of_storeLeap
    {node : Node K V}
    (post : InsertPost keys (node.storeLeap short cell delta) keyHash key
      result) :
    InsertPost keys node keyHash key result := by
  obtain ⟨chained, maskEqual, slots, outcome⟩ := post
  refine ⟨chained, maskEqual, fun other => ?_, ?_⟩
  · have slot := slots other
    simpa using slot
  · cases kind : result.1 with
    | alreadyFound found => simpa [kind, Holds] using outcome
    | insertedNew claimed => simpa [kind] using outcome
    | overflow overflowIdx => simpa [kind] using outcome

theorem followLink_post
    {node : Node K V}
    (chained : Chained node)
    (hashNonzero : keyHash ≠ 0)
    (hashHome : keyHash &&& node.sizeMask = home)
    (position : AtChain node home short (idx &&& node.sizeMask))
    (returned : followLink keys keyHash key fuel node idx short = some result) :
    InsertPost keys node keyHash key result := by
  induction fuel generalizing node idx short with
  | zero => simp [followLink] at returned
  | succ fuel inductionHypothesis =>
      obtain ⟨e, maskEqual⟩ := chained.mask
      have cellAdd : ∀ delta,
          ((idx &&& node.sizeMask) + delta) &&& node.sizeMask =
            (idx + delta) &&& node.sizeMask := by
        intro delta
        rw [maskEqual, and_mask_add]
      simp only [followLink] at returned
      split at returned
      · -- The chain goes on.
        rename_i positive
        have onward := position.advance chained.toLinked (Nat.ne_of_gt positive)
        rw [cellAdd] at onward
        have goOn := fun rest =>
          inductionHypothesis chained hashHome onward rest
        split at returned
        · cases returned
        · split at returned
          · split at returned
            · cases returned
            · rename_i same
              cases returned
              refine ⟨chained, rfl, fun _ => ⟨rfl, rfl⟩, ?_, fun _ => rfl⟩
              exact (isSameKey_eq_some_true_iff keys node key _).mp same
            · exact goOn returned
          · exact goOn returned
      · -- The end of the chain: search linearly behind it.
        rename_i notPositive
        have free : node.leap short (idx &&& node.sizeMask) = 0 := by omega
        have thresholdSmall := chained.threshold
        split at returned
        · cases returned
        · rename_i i probed
          obtain ⟨after, within, empty⟩ := linearProbe_post keys probed
          cases returned
          have target : ((idx &&& node.sizeMask) + (i - idx)) &&&
            node.sizeMask =
              i &&& node.sizeMask := by
            rw [cellAdd, Nat.add_sub_cancel' after.le]
          have claimed := chained.claim position free (by omega : 0 < i - idx)
            (by omega) (target.symm ▸ empty) hashNonzero hashHome
          rw [target] at claimed
          refine ⟨claimed, rfl, fun _ => by simp, empty, fun other => ?_⟩
          rw [Node.storeLeap_keyHash, Node.storeKeyHash_keyHash]
        · rename_i i probed
          cases returned
          exact ⟨chained, rfl, fun _ => ⟨rfl, rfl⟩,
            linearProbe_post keys probed, fun _ => rfl⟩
        · rename_i i probed
          obtain ⟨after, within, claimed, sameBucket⟩ :=
            linearProbe_post keys probed
          have target : ((idx &&& node.sizeMask) + (i - idx)) &&&
            node.sizeMask =
              i &&& node.sizeMask := by
            rw [cellAdd, Nat.add_sub_cancel' after.le]
          have bucket : (node.array (i &&& node.sizeMask)).keyHash &&&
            node.sizeMask =
              home := by
            rw [maskEqual, xor_and_mask_eq_zero_iff, ← maskEqual,
              hashHome] at sameBucket
            exact sameBucket
          have linked := chained.storeLeap position free
            (by omega : 0 < i - idx)
            (by omega) (target.symm ▸ claimed) (target.symm ▸ bucket)
          have ahead :=
            position.ahead_storeLeap free (by omega : 0 < i - idx) (by omega)
          rw [target] at ahead
          apply InsertPost.of_storeLeap
          refine inductionHypothesis linked hashHome ⟨?_, ?_, fun _ => ahead⟩
            returned
          · simpa [Node.cellAt] using claimed
          · simpa [Node.bucketOf] using bucket
        · cases returned
          exact ⟨chained, rfl, fun _ => ⟨rfl, rfl⟩, fun _ => rfl⟩

/-- A search that returns keeps the chains, and keys and values in place. -/
theorem insertOrFind_post
    {node : Node K V}
    (chained : Chained node)
    (hashNonzero : keyHash ≠ 0)
    (returned : insertOrFind keys fuel node keyHash key = some result) :
    InsertPost keys node keyHash key result := by
  simp only [insertOrFind] at returned
  split at returned
  · rename_i empty
    cases returned
    refine ⟨chained.claimHome empty hashNonzero, rfl,
      fun _ => by simp, empty, ?_⟩
    intro other
    rw [Node.storeKeyHash_keyHash]
  · rename_i claimed
    have position : AtChain node (keyHash &&& node.sizeMask) false
        (keyHash &&& node.sizeMask) :=
      ⟨claimed, rfl, fun impossible => by cases impossible⟩
    have search :
        followLink keys keyHash key fuel node keyHash false = some result →
          InsertPost keys node keyHash key result :=
      followLink_post keys chained hashNonzero rfl position
    split at returned
    · split at returned
      · cases returned
      · rename_i same
        cases returned
        exact ⟨chained, rfl, fun _ => ⟨rfl, rfl⟩,
          (isSameKey_eq_some_true_iff keys node key _).mp same, fun _ => rfl⟩
      · exact search returned
    · exact search returned

end ConcurrentHashMap
end Runtime
end ClojureRt
