import ClojureRt.Runtime.ConcurrentHashMap.Insertion

/-!
# The table refines a finite map

`MapModel` is a map on keys up to `equals`, and `Operation.model` says what each
call does to it and returns.  `Represents` relates a table to such a map: every
claimed cell stores a key under its own hash, no two cells store equal keys, and
a key is mapped to the value of the cell that holds it.  Each call that returns
normally keeps the relation and answers as the map does, hence so does every
run.
-/

namespace ClojureRt
namespace Runtime
namespace ConcurrentHashMap

/-! ## The map the table stands for -/

/-- A finite map on keys; `none` is nil, the answer for an absent key. -/
abbrev MapModel (K V : Type*) := K → Option V

variable (keys : KeyType K)

/-- Map every key equal to `key` to `value`. -/
def MapModel.assign
    (map : MapModel K V)
    (key : K)
    (value : Option V) : MapModel K V :=
  fun other => if keys.equals key other then value else map other

/-- The meaning of a call: its answer and the new map. -/
def Operation.model
    (map : MapModel K V) : Operation K V → Option V × MapModel K V
  | .assoc key value => (none, map.assign keys key (some value))
  | .putIfAbsent key value =>
      match map key with
      | none => (none, map.assign keys key (some value))
      | some oldVal => (some oldVal, map)
  | .getOrCreate key value =>
      match map key with
      | none => (some value, map.assign keys key (some value))
      | some oldVal => (some oldVal, map)
  | .dissoc key => (none, map.assign keys key none)
  | .get key => (map key, map)

/-- The answers of a run of calls on the map. -/
def modelResponses : MapModel K V → List (Operation K V) → List (Option V)
  | _, [] => []
  | map, operation :: rest =>
      (operation.model keys map).1 ::
        modelResponses (operation.model keys map).2 rest

/-! ## Tables that represent a map -/

/-- The table `node` stands for `map`. -/
structure Represents (node : Node K V) (map : MapModel K V) : Prop where
  chained : Chained node
  empty_slot : ∀ cell, (node.array cell).keyHash = 0 →
    (node.array cell).key = none ∧ (node.array cell).value = none
  claimed_slot : ∀ cell, (node.array cell).keyHash ≠ 0 →
    ∃ stored, (node.array cell).key = some stored ∧
      (node.array cell).keyHash = keyHashOf keys stored
  unique : ∀ key left right, Holds keys node key left →
    Holds keys node key right →
    left = right
  lookup : ∀ key cell, Holds keys node key cell →
    map key = (node.array cell).value
  absent : ∀ key, (∀ cell, ¬ Holds keys node key cell) → map key = none

variable {keys}

theorem keyHashOf_ne_zero (key : K) : keyHashOf keys key ≠ 0 := by
  unfold keyHashOf
  split <;> simp_all

theorem keyHashOf_eq_of_equals
    (same : keys.equals left right = true) :
    keyHashOf keys left = keyHashOf keys right := by
  unfold keyHashOf
  rw [keys.hash_eq_of_equals left right same]

/-- Equal keys are held by the same cells. -/
theorem Holds.congr
    {node : Node K V}
    (holds : Holds keys node left cell)
    (same : keys.equals left right = true) :
    Holds keys node right cell := by
  obtain ⟨stored, keyEqual, equal⟩ := holds
  exact ⟨stored, keyEqual, keys.equals_trans _ _ _ equal same⟩

/-- Two keys held by one cell are equal. -/
theorem Holds.equals
    {node : Node K V}
    (leftHolds : Holds keys node left cell)
    (rightHolds : Holds keys node right cell) :
    keys.equals left right = true := by
  obtain ⟨stored, storedEqual, leftEqual⟩ := leftHolds
  obtain ⟨other, otherEqual, rightEqual⟩ := rightHolds
  obtain rfl : stored = other := by
    rw [storedEqual] at otherEqual
    exact Option.some.inj otherEqual
  exact keys.equals_trans _ _ _ (keys.equals_symm _ _ leftEqual) rightEqual

theorem represents_create (initialSizeExponent rounded : Nat) :
    Represents keys (create initialSizeExponent rounded : Node K V)
      (fun _ => none) where
  chained := chained_create initialSizeExponent rounded
  empty_slot := by simp [create]
  claimed_slot := by simp [create]
  unique := by simp [Holds, create]
  lookup := by simp [create]
  absent := by simp

namespace Represents

/-- The hash stored in the cell that holds a key is the hash of the key. -/
theorem keyHash_eq
    {node : Node K V}
    (represents : Represents keys node map)
    (holds : Holds keys node key cell) :
    (node.array cell).keyHash = keyHashOf keys key := by
  obtain ⟨stored, keyEqual, same⟩ := holds
  have claimed : (node.array cell).keyHash ≠ 0 := by
    intro empty
    rw [(represents.empty_slot cell empty).1] at keyEqual
    cases keyEqual
  obtain ⟨claimedKey, claimedEqual, hashEqual⟩ :=
    represents.claimed_slot cell claimed
  obtain rfl : claimedKey = stored := by
    rw [claimedEqual] at keyEqual
    exact Option.some.inj keyEqual
  rw [hashEqual, keyHashOf_eq_of_equals same]

/-- A held key sits in its home cell or ahead of it. -/
theorem home_or_ahead
    {node : Node K V}
    (represents : Represents keys node map)
    (holds : Holds keys node key cell) :
    cell = keyHashOf keys key &&& node.sizeMask ∨
      Ahead node false (keyHashOf keys key &&& node.sizeMask) cell := by
  have hashEqual := represents.keyHash_eq holds
  have claimed : (node.array cell).keyHash ≠ 0 :=
    hashEqual ▸ keyHashOf_ne_zero key
  have reached := represents.chained.home_or_ahead cell claimed
  rwa [hashEqual] at reached

/-- A map that answers for absent keys only with nil. -/
theorem map_eq_none_or_holds
    {node : Node K V}
    (represents : Represents keys node map)
    (key : K) :
    map key = none ∨ ∃ cell, Holds keys node key cell := by
  by_cases held : ∃ cell, Holds keys node key cell
  · exact .inr held
  · exact .inl (represents.absent key fun cell holds => held ⟨cell, holds⟩)

end Represents

/-! ## Writing values -/

/-- The chains only look at hashes, links and the two constants. -/
theorem Chained.of_same
    {node changed : Node K V}
    (chained : Chained node)
    (maskEqual : changed.sizeMask = node.sizeMask)
    (thresholdEqual : changed.resizingThreshold = node.resizingThreshold)
    (hashEqual : ∀ cell,
      (changed.array cell).keyHash = (node.array cell).keyHash)
    (leapEqual : ∀ short cell, changed.leap short cell = node.leap short cell) :
    Chained changed where
  mask := maskEqual ▸ chained.mask
  threshold := thresholdEqual ▸ chained.threshold
  claimed_inRange := by
    simp only [hashEqual, maskEqual]
    exact chained.claimed_inRange
  empty_leap := by
    simp only [hashEqual, leapEqual]
    exact chained.empty_leap
  leap_bucket := by
    simp only [hashEqual, leapEqual, maskEqual, Node.bucketOf]
    exact chained.leap_bucket
  home_or_ahead := by
    simp only [hashEqual, maskEqual]
    intro cell claimed
    rcases chained.home_or_ahead cell claimed with atHome | ahead
    · exact .inl atHome
    · exact .inr
        (ahead.mono maskEqual fun short start _ => leapEqual short start)

theorem storeValue_keyHash (node : Node K V) (value : Option V)
    (cell other : Nat) :
    ((node.storeValue cell value).array other).keyHash =
      (node.array other).keyHash := by
  rw [Node.storeValue, Node.setCell_array]
  split
  · subst other
    rfl
  · rfl

theorem storeValue_key (node : Node K V) (value : Option V) (cell other : Nat) :
    ((node.storeValue cell value).array other).key =
    (node.array other).key := by
  rw [Node.storeValue, Node.setCell_array]
  split
  · subst other
    rfl
  · rfl

theorem storeValue_value (node : Node K V) (value : Option V)
    (cell other : Nat) :
    ((node.storeValue cell value).array other).value =
      if other = cell then value else (node.array other).value := by
  rw [Node.storeValue, Node.setCell_array]
  split <;> rfl

theorem storeValue_leap
    (node : Node K V) (value : Option V) (cell : Nat) (short : Bool)
    (other : Nat) :
    (node.storeValue cell value).leap short other = node.leap short other := by
  simp only [Node.leap, Node.storeValue, Node.setCell_array]
  split <;> split <;> simp_all

/-- Writing the value of the cell that holds a key assigns the key. -/
theorem Represents.storeValue
    {node : Node K V}
    (represents : Represents keys node map)
    (holds : Holds keys node key cell)
    (value : Option V) :
    Represents keys (node.storeValue cell value)
      (map.assign keys key value) := by
  have holdsIff : ∀ otherKey other,
      Holds keys (node.storeValue cell value) otherKey other ↔
        Holds keys node otherKey other := by
    intro otherKey other
    simp [Holds, storeValue_key]
  have claimed : (node.array cell).keyHash ≠ 0 :=
    represents.keyHash_eq holds ▸ keyHashOf_ne_zero key
  refine ⟨represents.chained.of_same rfl rfl
    (storeValue_keyHash node value cell)
    (storeValue_leap node value cell), ?_, ?_, ?_, ?_, ?_⟩
  · intro other empty
    rw [storeValue_keyHash] at empty
    have otherNe : other ≠ cell := fun equal => claimed (equal ▸ empty)
    rw [storeValue_key, storeValue_value, if_neg otherNe]
    exact represents.empty_slot other empty
  · intro other otherClaimed
    rw [storeValue_keyHash] at otherClaimed ⊢
    rw [storeValue_key]
    exact represents.claimed_slot other otherClaimed
  · intro otherKey left right leftHolds rightHolds
    exact represents.unique otherKey left right ((holdsIff _ _).mp leftHolds)
      ((holdsIff _ _).mp rightHolds)
  · intro otherKey other otherHolds
    rw [holdsIff] at otherHolds
    rw [storeValue_value, MapModel.assign]
    by_cases same : keys.equals key otherKey = true
    · have sameCell : other = cell :=
        represents.unique otherKey other cell otherHolds (holds.congr same)
      rw [if_pos same, if_pos sameCell]
    · have otherNe : other ≠ cell := by
        intro equal
        subst equal
        exact same (holds.equals otherHolds)
      rw [if_neg same, if_neg otherNe]
      exact represents.lookup otherKey other otherHolds
  · intro otherKey otherAbsent
    have notHeld : ∀ other, ¬ Holds keys node otherKey other := by
      intro other otherHolds
      exact otherAbsent other ((holdsIff _ _).mpr otherHolds)
    have different : ¬ keys.equals key otherKey = true :=
      fun same => notHeld cell (holds.congr same)
    rw [MapModel.assign, if_neg different]
    exact represents.absent otherKey notHeld

/-- Filling the cell that was claimed for an absent key. -/
theorem Represents.fillClaimed
    {node claimed : Node K V}
    (represents : Represents keys node map)
    (absent : ∀ cell, ¬ Holds keys node key cell)
    (chained : Chained claimed)
    (slots : SameSlots node claimed)
    (empty : (node.array cell).keyHash = 0)
    (hashes : ∀ other, (claimed.array other).keyHash =
      if other = cell then keyHashOf keys key else (node.array other).keyHash)
    (value : V) :
    Represents keys ((claimed.storeValue cell (some value)).storeKey cell key)
      (map.assign keys key (some value)) := by
  have filled : ∀ other,
      ((claimed.storeValue cell (some value)).storeKey cell key).array other =
        if other = cell then
          { claimed.array cell with key := some key, value := some value }
        else claimed.array other := by
    intro other
    simp only [Node.storeKey, Node.storeValue, Node.setCell_array]
    split <;> simp
  have holdsCell : ∀ otherKey,
      Holds keys ((claimed.storeValue cell (some value)).storeKey cell key)
        otherKey cell ↔ keys.equals key otherKey = true := by
    intro otherKey
    simp [Holds, filled]
  have holdsOther : ∀ otherKey other, other ≠ cell →
      (Holds keys ((claimed.storeValue cell (some value)).storeKey cell key)
        otherKey other ↔ Holds keys node otherKey other) := by
    intro otherKey other otherNe
    simp [Holds, filled, otherNe, (slots other).1]
  have notHeldByCell : ∀ otherKey, ¬ Holds keys node otherKey cell := by
    rintro otherKey ⟨stored, keyEqual, -⟩
    rw [(represents.empty_slot cell empty).1] at keyEqual
    cases keyEqual
  refine ⟨chained.of_same rfl rfl ?_ ?_, ?_, ?_, ?_, ?_, ?_⟩
  · intro other
    rw [filled]
    split
    · subst other
      rfl
    · rfl
  · intro short other
    simp only [Node.leap, filled]
    split <;> split <;> simp_all
  · intro other otherEmpty
    rw [filled] at otherEmpty ⊢
    split at otherEmpty
    · have hashed := hashes cell
      rw [if_pos rfl] at hashed
      exact absurd (hashed.symm.trans otherEmpty) (keyHashOf_ne_zero key)
    · rename_i otherNe
      rw [hashes, if_neg otherNe] at otherEmpty
      rw [if_neg otherNe, (slots other).1, (slots other).2]
      exact represents.empty_slot other otherEmpty
  · intro other otherClaimed
    rw [filled] at otherClaimed ⊢
    split at otherClaimed
    · rename_i isCell
      rw [if_pos isCell]
      refine ⟨key, rfl, ?_⟩
      have hashed := hashes cell
      rwa [if_pos rfl] at hashed
    · rename_i otherNe
      rw [hashes, if_neg otherNe] at otherClaimed
      rw [if_neg otherNe, (slots other).1, hashes, if_neg otherNe]
      exact represents.claimed_slot other otherClaimed
  · intro otherKey left right leftHolds rightHolds
    by_cases leftCell : left = cell <;> by_cases rightCell : right = cell
    · rw [leftCell, rightCell]
    · subst left
      have same := (holdsCell otherKey).mp leftHolds
      have held := (holdsOther otherKey right rightCell).mp rightHolds
      exact absurd (held.congr (keys.equals_symm _ _ same)) (absent right)
    · subst right
      have same := (holdsCell otherKey).mp rightHolds
      have held := (holdsOther otherKey left leftCell).mp leftHolds
      exact absurd (held.congr (keys.equals_symm _ _ same)) (absent left)
    · exact represents.unique otherKey left right
        ((holdsOther otherKey left leftCell).mp leftHolds)
        ((holdsOther otherKey right rightCell).mp rightHolds)
  · intro otherKey other otherHolds
    by_cases isCell : other = cell
    · subst other
      rw [MapModel.assign, if_pos ((holdsCell otherKey).mp otherHolds), filled,
        if_pos rfl]
    · have held := (holdsOther otherKey other isCell).mp otherHolds
      have different : ¬ keys.equals key otherKey = true := fun same =>
        absent other (held.congr (keys.equals_symm _ _ same))
      rw [MapModel.assign, if_neg different, filled, if_neg isCell,
        (slots other).2]
      exact represents.lookup otherKey other held
  · intro otherKey otherAbsent
    have different : ¬ keys.equals key otherKey = true := fun same =>
      otherAbsent cell ((holdsCell otherKey).mpr same)
    rw [MapModel.assign, if_neg different]
    refine represents.absent otherKey fun other held => ?_
    by_cases isCell : other = cell
    · exact notHeldByCell otherKey (isCell ▸ held)
    · exact otherAbsent other ((holdsOther otherKey other isCell).mpr held)

/-! ## Searches -/

/-- A search for a key that is ahead finds it and changes nothing. -/
theorem followLink_eq_of_ahead
    {node : Node K V}
    (represents : Represents keys node map)
    (holds : Holds keys node key cell)
    (ahead : Ahead node short (idx &&& node.sizeMask) cell)
    (returned :
      followLink keys (keyHashOf keys key) key fuel node idx short =
        some result) :
    result = (.alreadyFound cell, node) := by
  induction fuel generalizing idx short with
  | zero => simp [followLink] at returned
  | succ fuel inductionHypothesis =>
      obtain ⟨e, maskEqual⟩ := represents.chained.mask
      have nextCell :
          ((idx &&& node.sizeMask) + node.leap short (idx &&& node.sizeMask))
          &&&
              node.sizeMask =
            (idx + node.leap short (idx &&& node.sizeMask)) &&&
            node.sizeMask := by
        rw [maskEqual, and_mask_add]
      have advanced := ahead.advance
      rw [nextCell] at advanced
      simp only [followLink] at returned
      rw [if_pos (Nat.pos_of_ne_zero ahead.leap_ne_zero)] at returned
      rcases advanced with found | further
      · have same : isSameKey keys
            (node.cellAt (idx + node.leap short (idx &&& node.sizeMask))) key =
              some true :=
          (isSameKey_eq_some_true_iff keys node key _).mpr (found ▸ holds)
        have hashEqual :
            (node.cellAt
              (idx + node.leap short (idx &&& node.sizeMask))).keyHash =
              keyHashOf keys key := by
          rw [Node.cellAt, ← found]
          exact represents.keyHash_eq holds
        rw [hashEqual, if_neg (keyHashOf_ne_zero key), if_pos rfl,
          same] at returned
        cases returned
        rw [found]
      · split at returned
        · cases returned
        · split at returned
          · split at returned
            · cases returned
            · rename_i same
              cases returned
              have other := (isSameKey_eq_some_true_iff keys node key _).mp same
              rw [represents.unique key _ _ holds other]
            · exact inductionHypothesis further returned
          · exact inductionHypothesis further returned

/-- A key in the table is always found where it is. -/
theorem insertOrFind_eq_of_holds
    {node : Node K V}
    (represents : Represents keys node map)
    (holds : Holds keys node key cell)
    (returned :
      insertOrFind keys fuel node (keyHashOf keys key) key = some result) :
    result = (.alreadyFound cell, node) := by
  have homeClaimed :
      (node.array (keyHashOf keys key &&& node.sizeMask)).keyHash ≠ 0 := by
    rcases represents.home_or_ahead holds with atHome | ahead
    · rw [← atHome, represents.keyHash_eq holds]
      exact keyHashOf_ne_zero key
    · intro empty
      exact ahead.leap_ne_zero (represents.chained.empty_leap false _ empty)
  have search :
      (¬ cell = keyHashOf keys key &&& node.sizeMask) →
      followLink keys (keyHashOf keys key) key fuel node
        (keyHashOf keys key) false =
        some result → result = (.alreadyFound cell, node) := by
    intro notHome
    refine followLink_eq_of_ahead represents holds ?_
    exact (represents.home_or_ahead holds).resolve_left notHome
  simp only [insertOrFind] at returned
  rw [if_neg homeClaimed] at returned
  by_cases atHome : cell = keyHashOf keys key &&& node.sizeMask
  · have same := (isSameKey_eq_some_true_iff keys node key cell).mpr holds
    have hashEqual := represents.keyHash_eq holds
    rw [atHome] at same hashEqual
    rw [if_pos hashEqual, same] at returned
    cases returned
    rw [atHome]
  · split at returned
    · split at returned
      · cases returned
      · rename_i same
        cases returned
        have other := (isSameKey_eq_some_true_iff keys node key _).mp same
        rw [represents.unique key _ _ holds other]
      · exact search atHome returned
    · exact search atHome returned

/-- The outcomes of a search that returns and does not overflow. -/
theorem insertOrFind_cases
    {node : Node K V}
    (represents : Represents keys node map)
    (returned :
      insertOrFind keys fuel node (keyHashOf keys key) key = some result) :
    (∃ cell, Holds keys node key cell ∧ result = (.alreadyFound cell, node)) ∨
      (∃ cell claimed, result = (.insertedNew cell, claimed) ∧ map key = none ∧
        ∀ value, Represents keys
          ((claimed.storeValue cell (some value)).storeKey cell key)
          (map.assign keys key (some value))) ∨
      ∃ overflowIdx changed, result = (.overflow overflowIdx, changed) := by
  by_cases held : ∃ cell, Holds keys node key cell
  · obtain ⟨cell, holds⟩ := held
    exact .inl ⟨cell, holds, insertOrFind_eq_of_holds represents holds returned⟩
  · have absent : ∀ cell, ¬ Holds keys node key cell :=
      fun cell holds => held ⟨cell, holds⟩
    have post :=
      insertOrFind_post keys represents.chained (keyHashOf_ne_zero key) returned
    obtain ⟨kind, changed⟩ := result
    obtain ⟨chained, -, slots, outcome⟩ := post
    cases kind with
    | alreadyFound cell => exact absurd outcome.1 (absent cell)
    | insertedNew cell =>
        refine .inr
          (.inl ⟨cell, changed, rfl, represents.absent key absent, ?_⟩)
        exact represents.fillClaimed absent chained slots outcome.1 outcome.2
    | overflow overflowIdx => exact .inr (.inr ⟨overflowIdx, changed, rfl⟩)

/-- What `tryGettingFromEntry` returns for a claimed cell. -/
theorem tryGettingFromEntry_eq
    {node : Node K V}
    (represents : Represents keys node map)
    (key : K)
    (cell : Nat) :
    (Holds keys node key cell ∧
        tryGettingFromEntry keys (node.array cell) key (keyHashOf keys key) =
          some (node.array cell).value) ∨
      (¬ Holds keys node key cell ∧
        tryGettingFromEntry keys (node.array cell) key (keyHashOf keys key) =
          some none) := by
  have sameIff := isSameKey_eq_some_true_iff keys node key cell
  by_cases holds : Holds keys node key cell
  · left
    refine ⟨holds, ?_⟩
    have hashEqual := represents.keyHash_eq holds
    simp [tryGettingFromEntry, hashEqual, sameIff.mpr holds]
  · right
    refine ⟨holds, ?_⟩
    unfold tryGettingFromEntry
    split
    · rfl
    · rename_i hashEqual
      have hashEqual : (node.array cell).keyHash = keyHashOf keys key := by
        simpa using hashEqual
      obtain ⟨stored, keyEqual, -⟩ := represents.claimed_slot cell
        (hashEqual ▸ keyHashOf_ne_zero key)
      have different : keys.equals stored key = false := by
        cases same : keys.equals stored key with
        | false => rfl
        | true => exact absurd ⟨stored, keyEqual, same⟩ holds
      simp [isSameKey, keyEqual, different]

/-- The part of `get` behind the home cell. -/
theorem getChain_eq
    (short : Bool)
    {node : Node K V}
    (represents : Represents keys node map)
    (located : ∀ cell, Holds keys node key cell →
      (node.array cell).value ≠ none →
      Ahead node short index cell)
    (returned :
      getChain keys node (keyHashOf keys key) key fuel index
        (node.leap short index) = some response) :
    response = map key := by
  induction fuel generalizing index short with
  | zero => simp [getChain] at returned
  | succ fuel inductionHypothesis =>
      simp only [getChain] at returned
      split at returned
      · rcases tryGettingFromEntry_eq represents key
          ((index + node.leap short index) &&& node.sizeMask) with
          ⟨holds, entry⟩ | ⟨absent, entry⟩
        · rw [entry] at returned
          have mapped := represents.lookup key _ holds
          cases value : (node.array
              ((index + node.leap short index) &&& node.sizeMask)).value with
          | some stored =>
              rw [value] at returned
              cases returned
              rw [mapped, value]
          | none =>
              -- The entry is deleted, and no other cell holds the key.
              rw [value] at returned
              refine inductionHypothesis true ?_ returned
              intro cell cellHolds live
              obtain rfl := represents.unique key _ _ holds cellHolds
              exact absurd value live
        · rw [entry] at returned
          refine inductionHypothesis true ?_ returned
          intro cell cellHolds live
          rcases (located cell cellHolds live).advance with here | further
          · exact absurd (here ▸ cellHolds) absent
          · exact further
      · rename_i ended
        cases returned
        rcases represents.map_eq_none_or_holds key with unmapped | ⟨cell, holds⟩
        · exact unmapped.symm
        · rw [represents.lookup key cell holds]
          by_contra live
          have ahead := located cell holds fun none => live none.symm
          exact ended (Nat.pos_of_ne_zero ahead.leap_ne_zero)

/-- What `tryDeletingFromEntry` reports for a cell. -/
theorem tryDeletingFromEntry_cases
    {node : Node K V}
    (represents : Represents keys node map)
    (key : K)
    (cell : Nat) :
    (Holds keys node key cell ∧
        tryDeletingFromEntry keys (node.array cell) key (keyHashOf keys key) =
          some .deleted) ∨
      ((node.array cell).keyHash = 0 ∧
        tryDeletingFromEntry keys (node.array cell) key (keyHashOf keys key) =
          some .nothingToDelete) ∨
      ((node.array cell).keyHash ≠ 0 ∧ ¬ Holds keys node key cell ∧
        tryDeletingFromEntry keys (node.array cell) key (keyHashOf keys key) =
          some .notHere) := by
  have sameIff := isSameKey_eq_some_true_iff keys node key cell
  by_cases holds : Holds keys node key cell
  · left
    have hashEqual := represents.keyHash_eq holds
    refine ⟨holds, ?_⟩
    simp [tryDeletingFromEntry, hashEqual, keyHashOf_ne_zero, sameIff.mpr holds]
  · right
    by_cases empty : (node.array cell).keyHash = 0
    · left
      exact ⟨empty, by simp [tryDeletingFromEntry, empty]⟩
    · right
      refine ⟨empty, holds, ?_⟩
      obtain ⟨stored, keyEqual, -⟩ := represents.claimed_slot cell empty
      have different : keys.equals stored key = false := by
        cases same : keys.equals stored key with
        | false => rfl
        | true => exact absurd ⟨stored, keyEqual, same⟩ holds
      simp [tryDeletingFromEntry, empty, isSameKey, keyEqual, different]

/-- Removing an absent key changes no answer. -/
theorem Represents.assign_none_of_absent
    {node : Node K V}
    (represents : Represents keys node map)
    (absent : ∀ cell, ¬ Holds keys node key cell) :
    map.assign keys key none = map := by
  funext other
  unfold MapModel.assign
  split
  · rename_i same
    refine (represents.absent other fun cell holds => ?_).symm
    exact absent cell (holds.congr (keys.equals_symm _ _ same))
  · rfl

/-- The part of `dissoc` behind the home cell. -/
theorem dissocChain_represents
    (short : Bool)
    {node : Node K V}
    (represents : Represents keys node map)
    (located : ∀ cell, Holds keys node key cell → Ahead node short index cell)
    (returned :
      dissocChain keys (keyHashOf keys key) key fuel node index
        (node.leap short index) = some changed) :
    Represents keys changed (map.assign keys key none) := by
  induction fuel generalizing index short with
  | zero => simp [dissocChain] at returned
  | succ fuel inductionHypothesis =>
      simp only [dissocChain] at returned
      split at returned
      · rename_i positive
        have claimed := (represents.chained.leap_bucket short index
          (Nat.ne_of_gt positive)).1
        rcases tryDeletingFromEntry_cases represents key
          ((index + node.leap short index) &&& node.sizeMask) with
          ⟨holds, entry⟩ | ⟨empty, -⟩ | ⟨-, absent, entry⟩
        · rw [entry] at returned
          cases returned
          exact represents.storeValue holds none
        · exact absurd empty claimed
        · rw [entry] at returned
          refine inductionHypothesis true ?_ returned
          intro cell holds
          rcases (located cell holds).advance with here | further
          · exact absurd (here ▸ holds) absent
          · exact further
      · rename_i ended
        cases returned
        rw [represents.assign_none_of_absent]
        · exact represents
        · intro cell holds
          exact ended (Nat.pos_of_ne_zero (located cell holds).leap_ne_zero)

/-! ## Calls and runs -/

theorem assoc_represents
    {node : Node K V}
    (represents : Represents keys node map)
    (returned : assoc keys fuel node key value = some (.ok response, changed)) :
    response = none ∧
      Represents keys changed (map.assign keys key (some value)) := by
  unfold assoc at returned
  cases searched : insertOrFind keys fuel node (keyHashOf keys key) key with
  | none => simp [searched] at returned
  | some result =>
      rcases insertOrFind_cases represents searched with
        ⟨cell, holds, rfl⟩ | ⟨cell, claimed, rfl, -, filled⟩ | ⟨_, _, rfl⟩
      · simp only [searched, Option.some.injEq, Prod.mk.injEq,
          Except.ok.injEq] at returned
        obtain ⟨rfl, rfl⟩ := returned
        exact ⟨rfl, represents.storeValue holds (some value)⟩
      · simp only [searched, Option.some.injEq, Prod.mk.injEq,
          Except.ok.injEq] at returned
        obtain ⟨rfl, rfl⟩ := returned
        exact ⟨rfl, filled value⟩
      · simp [searched] at returned

theorem putIfAbsent_represents
    {node : Node K V}
    (represents : Represents keys node map)
    (returned : putIfAbsent keys fuel node key value =
      some (.ok response, changed)) :
    response = map key ∧
      Represents keys changed
        (if map key = none then map.assign keys key (some value) else map) := by
  unfold putIfAbsent at returned
  cases searched : insertOrFind keys fuel node (keyHashOf keys key) key with
  | none => simp [searched] at returned
  | some result =>
      rcases insertOrFind_cases represents searched with
        ⟨cell, holds, rfl⟩ | ⟨cell, claimed, rfl, unmapped, filled⟩ |
        ⟨_, _, rfl⟩
      · have mapped := represents.lookup key cell holds
        rw [mapped]
        cases stored : (node.array cell).value with
        | none =>
            simp only [searched, stored, Option.some.injEq, Prod.mk.injEq,
              Except.ok.injEq] at returned
            obtain ⟨rfl, rfl⟩ := returned
            exact ⟨rfl, by simpa using represents.storeValue holds (some value)⟩
        | some oldVal =>
            simp only [searched, stored, Option.some.injEq, Prod.mk.injEq,
              Except.ok.injEq] at returned
            obtain ⟨rfl, rfl⟩ := returned
            exact ⟨rfl, by simpa using represents⟩
      · simp only [searched, Option.some.injEq, Prod.mk.injEq,
          Except.ok.injEq] at returned
        obtain ⟨rfl, rfl⟩ := returned
        rw [unmapped]
        exact ⟨rfl, by simpa using filled value⟩
      · simp [searched] at returned

theorem getOrCreate_represents
    {node : Node K V}
    (represents : Represents keys node map)
    (returned : getOrCreate keys fuel node key value =
      some (.ok response, changed)) :
    response = some ((map key).getD value) ∧
      Represents keys changed
        (if map key = none then map.assign keys key (some value) else map) := by
  unfold getOrCreate at returned
  cases put : putIfAbsent keys fuel node key value with
  | none => simp [put] at returned
  | some result =>
      obtain ⟨answer, afterPut⟩ := result
      cases answer with
      | error message => simp [put] at returned
      | ok stored =>
          obtain ⟨storedEqual, kept⟩ := putIfAbsent_represents represents put
          rw [storedEqual] at put
          cases mapped : map key with
          | none =>
              simp only [put, mapped, Option.some.injEq, Prod.mk.injEq,
                Except.ok.injEq] at returned
              obtain ⟨rfl, rfl⟩ := returned
              exact ⟨rfl, by rwa [mapped] at kept⟩
          | some oldVal =>
              simp only [put, mapped, Option.some.injEq, Prod.mk.injEq,
                Except.ok.injEq] at returned
              obtain ⟨rfl, rfl⟩ := returned
              exact ⟨rfl, by rwa [mapped] at kept⟩

theorem get_represents
    {node : Node K V}
    (represents : Represents keys node map)
    (returned : get keys fuel node key = some (.ok response, changed)) :
    response = map key ∧ changed = node := by
  have onward : ∀ result,
      (∀ cell, Holds keys node key cell → (node.array cell).value ≠ none →
        cell ≠ keyHashOf keys key &&& node.sizeMask) →
      getChain keys node (keyHashOf keys key) key fuel
          (keyHashOf keys key &&& node.sizeMask)
          (node.array (keyHashOf keys key &&& node.sizeMask)).longLeap =
        some result → result = map key := by
    intro result elsewhere chainReturned
    refine getChain_eq false represents ?_ chainReturned
    intro cell holds live
    exact (represents.home_or_ahead holds).resolve_left
      (elsewhere cell holds live)
  simp only [get, Option.map_eq_some_iff, Prod.mk.injEq,
    Except.ok.injEq] at returned
  obtain ⟨result, resultEqual, rfl, rfl⟩ := returned
  refine ⟨?_, rfl⟩
  rcases tryGettingFromEntry_eq represents key
    (keyHashOf keys key &&& node.sizeMask) with ⟨holds, entry⟩ | ⟨absent, entry⟩
  · rw [entry] at resultEqual
    cases value : (node.array (keyHashOf keys key &&& node.sizeMask)).value with
    | some stored =>
        rw [value] at resultEqual
        cases resultEqual
        rw [represents.lookup key _ holds, value]
    | none =>
        rw [value] at resultEqual
        refine onward result ?_ resultEqual
        rintro cell - live rfl
        exact live value
  · rw [entry] at resultEqual
    refine onward result ?_ resultEqual
    rintro cell holds - rfl
    exact absent holds

theorem dissoc_represents
    {node : Node K V}
    (represents : Represents keys node map)
    (returned : dissoc keys fuel node key = some (.ok response, changed)) :
    response = none ∧ Represents keys changed (map.assign keys key none) := by
  simp only [dissoc, Option.map_eq_some_iff, Prod.mk.injEq,
    Except.ok.injEq] at returned
  obtain ⟨result, resultEqual, rfl, rfl⟩ := returned
  refine ⟨rfl, ?_⟩
  rcases tryDeletingFromEntry_cases represents key
    (keyHashOf keys key &&& node.sizeMask) with
    ⟨holds, entry⟩ | ⟨empty, entry⟩ | ⟨-, absent, entry⟩
  · rw [entry] at resultEqual
    cases resultEqual
    exact represents.storeValue holds none
  · -- An empty home cell has no chain, so its bucket is empty.
    rw [entry] at resultEqual
    cases resultEqual
    rw [represents.assign_none_of_absent]
    · exact represents
    · intro cell holds
      rcases represents.home_or_ahead holds with atHome | ahead
      · have hashEqual := represents.keyHash_eq holds
        rw [atHome, empty] at hashEqual
        exact keyHashOf_ne_zero key hashEqual.symm
      · exact ahead.leap_ne_zero (represents.chained.empty_leap false _ empty)
  · rw [entry] at resultEqual
    refine dissocChain_represents false represents ?_ resultEqual
    intro cell holds
    refine (represents.home_or_ahead holds).resolve_left ?_
    rintro rfl
    exact absent holds

/-- One call that returns normally answers as the map and keeps the relation. -/
theorem step_represents
    {node : Node K V}
    (represents : Represents keys node map)
    (operation : Operation K V)
    (returned : operation.step keys fuel node = some (.ok response, changed)) :
    response = (operation.model keys map).1 ∧
      Represents keys changed (operation.model keys map).2 := by
  cases operation with
  | assoc key value => exact assoc_represents represents returned
  | putIfAbsent key value =>
      obtain ⟨rfl, kept⟩ := putIfAbsent_represents represents returned
      simp only [Operation.model]
      cases mapped : map key with
      | none => exact ⟨rfl, by simpa [mapped] using kept⟩
      | some oldVal => exact ⟨rfl, by simpa [mapped] using kept⟩
  | getOrCreate key value =>
      obtain ⟨rfl, kept⟩ := getOrCreate_represents represents returned
      simp only [Operation.model]
      cases mapped : map key with
      | none => exact ⟨rfl, by simpa [mapped] using kept⟩
      | some oldVal => exact ⟨rfl, by simpa [mapped] using kept⟩
  | dissoc key => exact dissoc_represents represents returned
  | get key =>
      obtain ⟨rfl, rfl⟩ := get_represents represents returned
      exact ⟨rfl, represents⟩

/-- A run in which every call returns normally answers as the map. -/
theorem runOperations_represents
    {node : Node K V}
    (represents : Represents keys node map)
    (returned : runOperations keys fuel node operations =
      some (responses, final)) :
    responses = modelResponses keys map operations := by
  induction operations generalizing node map responses with
  | nil =>
      simp only [runOperations, Option.some.injEq, Prod.mk.injEq] at returned
      exact returned.1.symm
  | cons operation rest inductionHypothesis =>
      simp only [runOperations] at returned
      split at returned
      · rename_i response changed stepped
        obtain ⟨answer, kept⟩ := step_represents represents operation stepped
        simp only [Option.map_eq_some_iff] at returned
        obtain ⟨⟨restResponses, restFinal⟩, restReturned, equal⟩ := returned
        cases equal
        rw [modelResponses, ← answer, ← inductionHypothesis kept restReturned]
      · cases returned

variable (keys)

/-- Every run of calls on a fresh table of any size in which each call returns
normally gives the answers of a finite map. -/
theorem runOperations_refines_map
    (initialSizeExponent rounded fuel : Nat)
    (operations : List (Operation K V))
    (responses : List (Option V))
    (final : Node K V)
    (returned :
      runOperations keys fuel (create initialSizeExponent rounded) operations =
        some (responses, final)) :
    responses = modelResponses keys (fun _ => none) operations :=
  runOperations_represents (represents_create initialSizeExponent rounded)
    returned

/-- Numbers as keys, with a hash that sends every second number to one
bucket. -/
def parityKeys : KeyType Nat where
  equals := fun left right => left == right
  hash := fun key => 2 + key % 2
  equals_refl := by simp
  equals_symm := by simp_all
  equals_trans := by simp_all
  hash_eq_of_equals := by simp_all

/-- A run with colliding buckets, a deletion and a second insertion. -/
theorem runOperations_refines_map_parity :
    [none, none, none, none, some 8, none, none, some 5, some 6] =
      modelResponses parityKeys (fun _ => none)
        [.assoc 0 7, .assoc 2 8, .assoc 1 9, .dissoc 0, .get 2, .get 0,
          .putIfAbsent 0 5, .get 0, .getOrCreate 3 6] :=
  runOperations_refines_map parityKeys 3 2 20 _ _ _ (Eq.trans rfl rfl)

end ConcurrentHashMap
end Runtime
end ClojureRt
