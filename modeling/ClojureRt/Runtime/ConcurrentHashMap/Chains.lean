import ClojureRt.Runtime.ConcurrentHashMap.Defs

/-!
# Bucket chains

The links of the table form one chain for every bucket: the home cell leads on
by its `longLeap`, every later cell by its `shortLeap`.  `Chained` collects the
facts about hashes and links that every operation keeps.  All but one of them
look at a single link; the last one says that each claimed cell is its own home
or is reached from its home.  Acyclicity is not among them: a chain that wraps
into itself makes a search spin, and a search that returns never closed a cycle.
-/

namespace ClojureRt
namespace Runtime
namespace ConcurrentHashMap

/-! ## Cells and stores -/

theorem and_mask_add (e idx delta : Nat) :
    ((idx &&& (2 ^ e - 1)) + delta) &&& (2 ^ e - 1) =
      (idx + delta) &&& (2 ^ e - 1) := by
  simp only [Nat.and_two_pow_sub_one_eq_mod, Nat.mod_add_mod]

theorem and_mask_idem (e idx : Nat) :
    (idx &&& (2 ^ e - 1)) &&& (2 ^ e - 1) = idx &&& (2 ^ e - 1) := by
  rw [Nat.land_assoc, Nat.and_self]

/-- The test `(x & sizeMask) == 0` of the linear search compares home cells. -/
theorem xor_and_mask_eq_zero_iff (e left right : Nat) :
    (left ^^^ right) &&& (2 ^ e - 1) = 0 ↔
      left &&& (2 ^ e - 1) = right &&& (2 ^ e - 1) := by
  rw [Nat.and_xor_distrib_right, Nat.xor_eq_zero_iff]

namespace Node

variable (node : Node K V)

@[simp] theorem setCell_sizeMask (cell : Nat) (entry : Entry K V) :
    (node.setCell cell entry).sizeMask = node.sizeMask := rfl

@[simp] theorem setCell_resizingThreshold (cell : Nat) (entry : Entry K V) :
    (node.setCell cell entry).resizingThreshold = node.resizingThreshold := rfl

theorem setCell_array (cell other : Nat) (entry : Entry K V) :
    (node.setCell cell entry).array other =
      if other = cell then entry else node.array other :=
  Function.update_apply _ _ _ _

@[simp] theorem storeLeap_sizeMask (useShortLeap : Bool) (cell delta : Nat) :
    (node.storeLeap useShortLeap cell delta).sizeMask = node.sizeMask := rfl

@[simp] theorem storeLeap_resizingThreshold
    (useShortLeap : Bool) (cell delta : Nat) :
    (node.storeLeap useShortLeap cell delta).resizingThreshold =
      node.resizingThreshold := rfl

@[simp] theorem storeLeap_keyHash
    (useShortLeap : Bool) (cell delta other : Nat) :
    ((node.storeLeap useShortLeap cell delta).array other).keyHash =
      (node.array other).keyHash := by
  rw [storeLeap, setCell_array]
  split
  · subst other
    cases useShortLeap <;> rfl
  · rfl

@[simp] theorem storeLeap_key
    (useShortLeap : Bool) (cell delta other : Nat) :
    ((node.storeLeap useShortLeap cell delta).array other).key =
      (node.array other).key := by
  rw [storeLeap, setCell_array]
  split
  · subst other
    cases useShortLeap <;> rfl
  · rfl

@[simp] theorem storeLeap_value
    (useShortLeap : Bool) (cell delta other : Nat) :
    ((node.storeLeap useShortLeap cell delta).array other).value =
      (node.array other).value := by
  rw [storeLeap, setCell_array]
  split
  · subst other
    cases useShortLeap <;> rfl
  · rfl

theorem storeLeap_leap
    (useShortLeap : Bool) (cell delta : Nat) (short : Bool) (other : Nat) :
    (node.storeLeap useShortLeap cell delta).leap short other =
      if short = useShortLeap ∧ other = cell then delta % 256
      else node.leap short other := by
  simp only [leap, storeLeap, setCell_array]
  by_cases sameCell : other = cell
  · subst other
    cases useShortLeap <;> cases short <;> simp
  · simp [sameCell]

@[simp] theorem storeKeyHash_sizeMask (cell keyHash : Nat) :
    (node.storeKeyHash cell keyHash).sizeMask = node.sizeMask := rfl

@[simp] theorem storeKeyHash_resizingThreshold (cell keyHash : Nat) :
    (node.storeKeyHash cell keyHash).resizingThreshold =
      node.resizingThreshold := rfl

theorem storeKeyHash_keyHash (cell keyHash other : Nat) :
    ((node.storeKeyHash cell keyHash).array other).keyHash =
      if other = cell then keyHash else (node.array other).keyHash := by
  rw [storeKeyHash, setCell_array]
  split <;> rfl

@[simp] theorem storeKeyHash_key (cell keyHash other : Nat) :
    ((node.storeKeyHash cell keyHash).array other).key =
      (node.array other).key := by
  rw [storeKeyHash, setCell_array]
  split
  · subst other
    rfl
  · rfl

@[simp] theorem storeKeyHash_value (cell keyHash other : Nat) :
    ((node.storeKeyHash cell keyHash).array other).value =
      (node.array other).value := by
  rw [storeKeyHash, setCell_array]
  split
  · subst other
    rfl
  · rfl

@[simp] theorem storeKeyHash_leap
    (cell keyHash : Nat) (short : Bool) (other : Nat) :
    (node.storeKeyHash cell keyHash).leap short other =
    node.leap short other := by
  simp only [leap, storeKeyHash, setCell_array]
  split <;> split <;> simp_all

end Node

/-! ## Following links -/

/-- `Ahead node short from cell`: a search that stands on `from` and reads the
link selected by `short` visits `cell` later on. -/
inductive Ahead (node : Node K V) : Bool → Nat → Nat → Prop
  | next (short : Bool) (start : Nat) :
      node.leap short start ≠ 0 →
      Ahead node short start ((start + node.leap short start) &&& node.sizeMask)
  | later (short : Bool) (start cell : Nat) :
      node.leap short start ≠ 0 →
      Ahead node true ((start + node.leap short start) &&& node.sizeMask) cell →
      Ahead node short start cell

/-- Nothing is ahead of the end of a chain. -/
theorem Ahead.leap_ne_zero
    {node : Node K V}
    (ahead : Ahead node short start cell) :
    node.leap short start ≠ 0 := by
  cases ahead <;> assumption

/-- Following one link either reaches the cell or keeps it ahead. -/
theorem Ahead.advance
    {node : Node K V}
    (ahead : Ahead node short start cell) :
    cell = (start + node.leap short start) &&& node.sizeMask ∨
      Ahead node true
        ((start + node.leap short start) &&& node.sizeMask) cell := by
  cases ahead with
  | next => exact .inl rfl
  | later _ _ _ _ rest => exact .inr rest

/-- Links that are only added keep every cell ahead. -/
theorem Ahead.mono
    {node extended : Node K V}
    (ahead : Ahead node short start cell)
    (maskEqual : extended.sizeMask = node.sizeMask)
    (leapsKept : ∀ short cell, node.leap short cell ≠ 0 →
      extended.leap short cell = node.leap short cell) :
    Ahead extended short start cell := by
  induction ahead with
  | next short start nonzero =>
      have kept := leapsKept short start nonzero
      have step : Ahead extended short start _ :=
        Ahead.next short start (kept ▸ nonzero)
      rwa [kept, maskEqual] at step
  | later short start cell nonzero _ inductionHypothesis =>
      have kept := leapsKept short start nonzero
      refine Ahead.later short start cell (kept ▸ nonzero) ?_
      rwa [kept, maskEqual]

/-- A chain may be extended behind any cell it reaches. -/
theorem Ahead.snoc
    {node : Node K V}
    (ahead : Ahead node short start cell)
    (nonzero : node.leap true cell ≠ 0) :
    Ahead node short start
      ((cell + node.leap true cell) &&& node.sizeMask) := by
  induction ahead with
  | next short start startNonzero =>
      exact .later short start _ startNonzero (.next true _ nonzero)
  | later short start cell startNonzero _ inductionHypothesis =>
      exact .later short start _ startNonzero (inductionHypothesis nonzero)

/-! ## The invariant of hashes and links -/

/-- The bucket whose chain uses the selected link of a cell: a `longLeap`
belongs to the bucket at home there, a `shortLeap` to the bucket of the key. -/
def Node.bucketOf (node : Node K V) (short : Bool) (cell : Nat) : Nat :=
  if short then (node.array cell).keyHash &&& node.sizeMask else cell

/-- The facts about single cells and single links. -/
structure Linked (node : Node K V) : Prop where
  mask : ∃ e, node.sizeMask = 2 ^ e - 1
  threshold : node.resizingThreshold ≤ 128
  claimed_inRange : ∀ cell, (node.array cell).keyHash ≠ 0 →
    cell &&& node.sizeMask = cell
  empty_leap : ∀ short cell, (node.array cell).keyHash = 0 →
    node.leap short cell = 0
  leap_bucket : ∀ short cell, node.leap short cell ≠ 0 →
    let target := (cell + node.leap short cell) &&& node.sizeMask
    (node.array target).keyHash ≠ 0 ∧
      (node.array target).keyHash &&& node.sizeMask = node.bucketOf short cell

/-- Every claimed cell is reached from the home cell of its hash. -/
structure Chained (node : Node K V) : Prop extends Linked node where
  home_or_ahead : ∀ cell, (node.array cell).keyHash ≠ 0 →
    let home := (node.array cell).keyHash &&& node.sizeMask
    cell = home ∨ Ahead node false home cell

/-- The empty table has no links. -/
theorem chained_create (initialSizeExponent rounded : Nat) :
    Chained (create initialSizeExponent rounded : Node K V) where
  mask := ⟨initialSizeExponent, rfl⟩
  threshold := min_le_right _ _
  claimed_inRange := by simp [create]
  empty_leap := by simp [create, Node.leap]
  leap_bucket := by simp [create, Node.leap]
  home_or_ahead := by simp [create]

/-- Position of a search that works for the bucket `home`: it stands on the home
cell and will read its `longLeap`, or on a claimed cell of the chain. -/
structure AtChain
    (node : Node K V)
    (home : Nat)
    (short : Bool)
    (cell : Nat) : Prop where
  claimed : (node.array cell).keyHash ≠ 0
  bucket : node.bucketOf short cell = home
  reached : short = true → Ahead node false home cell

/-- Following a link of the chain stays on the chain. -/
theorem AtChain.advance
    {node : Node K V}
    (linked : Linked node)
    (position : AtChain node home short cell)
    (nonzero : node.leap short cell ≠ 0) :
    AtChain node home true
      ((cell + node.leap short cell) &&& node.sizeMask) := by
  obtain ⟨targetClaimed, targetBucket⟩ := linked.leap_bucket short cell nonzero
  refine ⟨targetClaimed, ?_, fun _ => ?_⟩
  · rw [← position.bucket, ← targetBucket]
    rfl
  · cases short with
    | false =>
        have homeCell : cell = home := position.bucket
        subst homeCell
        exact .next false cell nonzero
    | true => exact (position.reached rfl).snoc nonzero

end ConcurrentHashMap
end Runtime
end ClojureRt
