import ClojureRt.Runtime.String.Compaction

/-!
# Search

`String_indexOfFrom` compacts both strings and looks for the first character of
`other`; from there it compares the rest.  It finds the least occurrence, and
reads nothing outside the two blocks, whose memory may end at the NUL.
-/

namespace ClojureRt
namespace Runtime
namespace Strings

/-- The result is the least index from `start` on at which the pattern occurs,
or -1. -/
def Least (text pattern : List Byte) (start : Nat) (result : Int) : Prop :=
  (∃ i : Nat, result = i ∧ start ≤ i ∧ pattern <+: text.drop i ∧
    ∀ j, start ≤ j → j < i → ¬ pattern <+: text.drop j) ∨
  (result = -1 ∧ ∀ j, start ≤ j → ¬ pattern <+: text.drop j)

/-- The index that `String_indexOfFrom` should return. -/
def IndexRight (text pattern : List Byte) (fromIndex result : Int) : Prop :=
  (pattern = [] → result = min (max fromIndex 0) text.length) ∧
    (pattern ≠ [] → Least text pattern (max fromIndex 0).toNat result)

section Loops

variable {text pattern : List Byte} {textRest patternRest : Memory}

/-- The loop over the rest of the pattern. -/
theorem matchRest_eq
    {n j k : Nat}
    (textInside : j + n ≤ text.length)
    (patternInside : k + n ≤ pattern.length) :
    matchRest (text.map some ++ some 0 :: textRest)
        (pattern.map some ++ some 0 :: patternRest) n j k =
      .ok (decide ((text.drop j).take n = (pattern.drop k).take n)) := by
  induction n generalizing j k with
  | zero => simp [matchRest]
  | succ n inductionHypothesis =>
      have textBelow : j < text.length := by omega
      have patternBelow : k < pattern.length := by omega
      rw [matchRest, read_of_lt textBelow, read_of_lt patternBelow]
      simp only [bind, Except.bind]
      rw [List.drop_eq_getElem_cons textBelow,
        List.drop_eq_getElem_cons patternBelow, List.take_succ_cons,
        List.take_succ_cons]
      by_cases same : text[j] = pattern[k]
      · rw [if_pos same, inductionHypothesis (by omega) (by omega)]
        simp [same]
      · rw [if_neg same, decide_eq_false]
        intro equal
        exact same (List.cons.inj equal).1

/-- An occurrence of a pattern begins with its first character. -/
theorem prefix_drop_iff
    {first : Byte}
    {others : List Byte}
    {i : Nat}
    (below : i < text.length) :
    (first :: others) <+: text.drop i ↔
      text[i] = first ∧ (text.drop (i + 1)).take others.length = others := by
  rw [List.drop_eq_getElem_cons below, List.cons_prefix_cons,
    List.prefix_iff_eq_take]
  constructor
  · rintro ⟨same, isTake⟩
    exact ⟨same.symm, isTake.symm⟩
  · rintro ⟨same, isTake⟩
    exact ⟨same.symm, isTake.symm⟩

theorem add_length_le_of_prefix
    {i : Nat}
    (occurs : pattern <+: text.drop i)
    (nonempty : pattern ≠ []) :
    i + pattern.length ≤ text.length := by
  have short := occurs.length_le
  have positive := List.length_pos_of_ne_nil nonempty
  rw [List.length_drop] at short
  omega

/-- The loop that looks for the first character. -/
theorem skipOthers_spec
    {first : Byte}
    {max : Int}
    (inside : max < text.length)
    {fuel i : Nat}
    (positive : 0 < fuel)
    (enough : max < i + fuel) :
    ∃ next, skipOthers (text.map some ++ some 0 :: textRest) first max fuel i =
      .ok next ∧
      i < next ∧
      (∀ k (below : k < text.length), i < k → k < next → (k : Int) ≤ max →
        text[k] ≠ first) ∧
      ((next : Int) ≤ max → ∃ below : next < text.length,
        text[next] = first) := by
  induction fuel generalizing i with
  | zero => cases positive
  | succ fuel inductionHypothesis =>
      rw [skipOthers]
      by_cases more : ((i + 1 : Nat) : Int) ≤ max
      · have below : i + 1 < text.length := by omega
        rw [if_pos more, read_of_lt below]
        simp only [bind, Except.bind]
        by_cases same : text[i + 1] = first
        · refine ⟨i + 1,
            by simp [same], Nat.lt_succ_self i, ?_, fun _ => ⟨below, same⟩⟩
          intro k _ behind before _
          omega
        · obtain ⟨next, isNext, behind, others, found⟩ := inductionHypothesis
            (i := i + 1)
            (by omega) (by omega)
          refine ⟨next, by rw [if_pos same, isNext], by omega, ?_, found⟩
          intro k kBelow kBehind before atMost
          rcases Nat.eq_or_lt_of_le (Nat.succ_le_of_lt kBehind) with here |
            later
          · subst here
            exact same
          · exact others k kBelow later before atMost
      · rw [if_neg more]
        refine ⟨i + 1, rfl, Nat.lt_succ_self i, ?_,
          fun impossible => absurd impossible more⟩
        intro k _ behind before _
        omega

/-- From an index on, the next one at which the pattern may occur. -/
theorem nextCandidate_spec
    {first : Byte}
    {max : Int}
    (inside : max < text.length)
    {fuel i : Nat}
    (more : (i : Int) ≤ max)
    (enough : max < i + fuel) :
    ∃ next,
      (do
        let c ← read (text.map some ++ some 0 :: textRest) i
        if c ≠ first then
          skipOthers (text.map some ++ some 0 :: textRest) first max fuel i
        else .ok i) = (.ok next : Outcome Nat) ∧
      i ≤ next ∧
      (∀ k (below : k < text.length), i ≤ k → k < next → (k : Int) ≤ max →
        text[k] ≠ first) ∧
      ((next : Int) ≤ max → ∃ below : next < text.length,
        text[next] = first) := by
  have below : i < text.length := by omega
  rw [read_of_lt below]
  simp only [bind, Except.bind]
  by_cases same : text[i] = first
  · refine ⟨i,
      by rw [if_neg (not_not_intro same)], Nat.le_refl i, ?_, fun _ => ⟨below,
        same⟩⟩
    intro k _ behind before _
    omega
  · have positive : 0 < fuel := by omega
    obtain ⟨next, isNext, behind, others, found⟩ :=
      skipOthers_spec inside positive enough
    refine ⟨next, by rw [if_pos same, isNext], Nat.le_of_lt behind, ?_, found⟩
    intro k kBelow kBehind before atMost
    rcases Nat.eq_or_lt_of_le kBehind with here | later
    · subst here
      exact same
    · exact others k kBelow later before atMost

/-- One round of the search. -/
theorem searchFrom_succ
    {source target : Memory}
    {first : Byte}
    {max : Int}
    {otherCount fuel i next : Nat}
    (more : (i : Int) ≤ max)
    (isNext :
      (do
        let c ← read source i
        if c ≠ first then skipOthers source first max (fuel + 1) i else .ok i) =
          (.ok next : Outcome Nat)) :
    searchFrom source target first max otherCount (fuel + 1) i =
      if (next : Int) ≤ max then do
        let found ← matchRest source target (otherCount - 1) (next + 1) 1
        if found then .ok next
        else searchFrom source target first max otherCount fuel (next + 1)
      else
        searchFrom source target first max otherCount fuel (next + 1) := by
  obtain ⟨c, isRead, isNext⟩ := bind_eq_ok isNext
  rw [searchFrom, if_pos more, isRead]
  simp only [bind, Except.bind]
  split at isNext
  next differs =>
      rw [if_pos differs, isNext]
  next same =>
      cases isNext
      rw [if_neg same]

/-- Without an occurrence before `next`, the search may go on from there. -/
theorem Least.of_later
    {i next : Nat}
    {result : Int}
    (later : i ≤ next)
    (notBefore : ∀ j, i ≤ j → j < next → ¬ pattern <+: text.drop j)
    (least : Least text pattern next result) : Least text pattern i result := by
  have absent (bound j : Nat) (behind : i ≤ j) (others : next ≤ j → j < bound →
      ¬ pattern <+: text.drop j) (before : j < bound) :
        ¬ pattern <+: text.drop j := by
    rcases Nat.lt_or_ge j next with early | late
    · exact notBefore j behind early
    · exact others late before
  rcases least with ⟨index, isIndex, behind, occurs, others⟩ | ⟨isNone, others⟩
  · refine Or.inl ⟨index, isIndex, Nat.le_trans later behind, occurs, ?_⟩
    intro j fromHere before
    exact absent index j fromHere (others j) before
  · refine Or.inr ⟨isNone, ?_⟩
    intro j fromHere
    exact absent (j + 1) j fromHere (fun late _ => others j late)
      (Nat.lt_succ_self j)

/-- The search from an index on. -/
theorem searchFrom_spec
    {first : Byte}
    {others : List Byte}
    {fuel i : Nat}
    (positive : 0 < fuel)
    (enough : text.length + 1 < i + (first :: others).length + fuel) :
    ∃ result,
      searchFrom (text.map some ++ some 0 :: textRest)
          ((first :: others).map some ++ some 0 :: patternRest) first
          ((text.length : Int) - (first :: others).length)
          (first :: others).length fuel i =
        .ok result ∧
      Least text (first :: others) i result := by
  generalize isMax : (text.length : Int) - (first :: others).length = max
  have length : (first :: others).length = others.length + 1 := rfl
  have inside : max < text.length := by omega
  have late (j : Nat) (behind : ¬ (j : Int) ≤ max) :
      ¬ (first :: others) <+: text.drop j := by
    intro occurs
    have fits := add_length_le_of_prefix occurs (List.cons_ne_nil first others)
    omega
  induction fuel generalizing i with
  | zero => cases positive
  | succ fuel inductionHypothesis =>
      by_cases more : (i : Int) ≤ max
      swap
      · refine ⟨-1, by rw [searchFrom, if_neg more], Or.inr ⟨rfl, ?_⟩⟩
        intro j behind
        exact late j (by omega)
      have boundOk : max < i + (fuel + 1 : Nat) := by omega
      obtain ⟨next, isNext, behind, skipped, found⟩ :=
        nextCandidate_spec inside more boundOk
      have notBefore (j : Nat) (fromHere : i ≤ j) (before : j < next) :
          ¬ (first :: others) <+: text.drop j := by
        by_cases early : (j : Int) ≤ max
        · have below : j < text.length := by omega
          rw [prefix_drop_iff below]
          intro occurs
          exact skipped j below fromHere before early occurs.1
        · exact late j early
      have goOn (absent : ¬ (first :: others) <+: text.drop next)
          (atMost : (i : Int) ≤ max) :
          ∃ result,
            searchFrom (text.map some ++ some 0 :: textRest)
                ((first :: others).map some ++ some 0 :: patternRest) first max
                (first :: others).length fuel (next + 1) = .ok result ∧
              Least text (first :: others) i result := by
        obtain ⟨result, isResult, least⟩ :=
          inductionHypothesis (i := next + 1) (by omega) (by omega)
        refine ⟨result, isResult, least.of_later (by omega) ?_⟩
        intro j fromHere before
        rcases Nat.eq_or_lt_of_le (Nat.le_of_lt_succ before) with here | earlier
        · rwa [here]
        · exact notBefore j fromHere earlier
      rw [searchFrom_succ more isNext]
      by_cases candidate : (next : Int) ≤ max
      swap
      · rw [if_neg candidate]
        exact goOn (late next candidate) more
      obtain ⟨below, isFirst⟩ := found candidate
      have occurs_iff : (first :: others) <+: text.drop next ↔
          (text.drop (next + 1)).take others.length =
            ((first :: others).drop 1).take others.length := by
        rw [prefix_drop_iff below, List.drop_one, List.tail_cons,
          List.take_length]
        exact and_iff_right isFirst
      rw [if_pos candidate, length, Nat.add_sub_cancel,
        matchRest_eq (by omega) (by rw [length]; omega), ← length]
      simp only [bind, Except.bind, decide_eq_true_eq, ← occurs_iff]
      by_cases occurs : (first :: others) <+: text.drop next
      · rw [if_pos occurs]
        exact ⟨next, rfl, Or.inl ⟨next, rfl, behind, occurs, notBefore⟩⟩
      · rw [if_neg occurs]
        exact goOn occurs more

end Loops

/-! ## The whole search -/

section Whole

variable {s t : Str} {parts others : List (List Byte)}

/-- No string that takes part in the search begins a block behind the range of
an `int`. -/
def Searchable (s t : Str) (fromIndex : Int) : Prop :=
  (s.count : Int) ≤ fromIndex ∨ t.count = 0 ∨
    (Addressable 0 (s.blocks.map Block.count) ∧
      Addressable 0 (t.blocks.map Block.count))

theorem Represents.map_count (represents : Represents s parts) :
    s.blocks.map Block.count = parts.map List.length := by
  have all {blocks : List Block} {parts : List (List Byte)}
      (holds : List.Forall₂ Block.Holds blocks parts) :
      blocks.map Block.count = parts.map List.length := by
    induction holds with
    | nil => rfl
    | cons first _ inductionHypothesis =>
        rw [List.map_cons, List.map_cons, first.count, inductionHypothesis]
  exact all represents.blocks

theorem not_prefix_drop_of_length_le
    {text pattern : List Byte}
    (nonempty : pattern ≠ [])
    {j : Nat}
    (outside : text.length ≤ j) : ¬ pattern <+: text.drop j := by
  rw [List.drop_of_length_le outside, List.prefix_nil]
  exact nonempty

/-- Both strings are compacted, and the blocks are searched. -/
theorem indexOfFrom_addressable
    (represents : Represents s parts)
    (otherRepresents : Represents t others)
    (addressable : Addressable 0 (parts.map List.length))
    (otherAddressable : Addressable 0 (others.map List.length))
    {fromIndex : Int}
    (inside : fromIndex < s.count)
    (nonempty : others.flatten ≠ []) :
    ∃ result, indexOfFrom s t fromIndex = .ok result ∧
      Least parts.flatten others.flatten (max fromIndex 0).toNat result := by
  have notBehind : ¬ (s.count : Int) ≤ fromIndex := by omega
  have hasChars : t.count ≠ 0 := by
    rw [otherRepresents.count]
    exact fun isEmpty => nonempty (List.eq_nil_of_length_eq_zero isEmpty)
  have start : (if fromIndex < 0 then 0 else fromIndex).toNat =
      (max fromIndex 0).toNat := by
    split <;> omega
  obtain ⟨compactSelf, isCompact, compacted⟩ :=
    compactify_addressable represents addressable
  obtain ⟨compactOther, otherIsCompact, otherCompacted⟩ :=
    compactify_addressable otherRepresents otherAddressable
  obtain ⟨textRest, isMemory, _⟩ := compacted.holds.memory
  obtain ⟨patternRest, otherIsMemory, _⟩ := otherCompacted.holds.memory
  unfold indexOfFrom
  rw [if_neg notBehind, if_neg hasChars, start, isCompact, otherIsCompact]
  simp only [bind, Except.bind]
  rw [isMemory, otherIsMemory, represents.count, otherRepresents.count]
  obtain ⟨first, rest, isPattern⟩ := List.exists_cons_of_ne_nil nonempty
  rw [isPattern, read_of_lt (Nat.zero_lt_succ _)]
  exact searchFrom_spec (Nat.zero_lt_succ _) (by omega)

/-- Without a copy there is no search. -/
theorem searchable_of_ok
    (represents : Represents s parts)
    (otherRepresents : Represents t others)
    {fromIndex result : Int}
    (found : indexOfFrom s t fromIndex = .ok result) :
    Searchable s t fromIndex := by
  unfold Searchable
  rw [represents.map_count, otherRepresents.map_count, or_iff_not_imp_left,
    or_iff_not_imp_left]
  intro notBehind hasChars
  unfold indexOfFrom at found
  rw [if_neg notBehind, if_neg hasChars] at found
  obtain ⟨compactSelf, isCompact, found⟩ := bind_eq_ok found
  obtain ⟨compactOther, otherIsCompact, _⟩ := bind_eq_ok found
  constructor
  · by_contra notAddressable
    rw [compactify_not_addressable represents notAddressable] at isCompact
    cases isCompact
  · by_contra notAddressable
    rw [compactify_not_addressable otherRepresents
      notAddressable] at otherIsCompact
    cases otherIsCompact

/-- The search finds the right index exactly if the copies that it searches are
right. -/
theorem indexOfFrom_iff
    (represents : Represents s parts)
    (otherRepresents : Represents t others)
    (fromIndex : Int) :
    (∃ result, indexOfFrom s t fromIndex = .ok result ∧
        IndexRight parts.flatten others.flatten fromIndex result) ↔
      Searchable s t fromIndex := by
  refine ⟨fun ⟨_, found, _⟩ =>
    searchable_of_ok represents otherRepresents found, ?_⟩
  intro searchable
  have count := represents.count
  have isEmpty_iff : t.count = 0 ↔ others.flatten = [] := by
    rw [otherRepresents.count, List.length_eq_zero_iff]
  by_cases behind : (s.count : Int) ≤ fromIndex
  · refine ⟨_, by rw [indexOfFrom, if_pos behind], ?_, ?_⟩
    · intro isEmpty
      rw [if_pos (isEmpty_iff.mpr isEmpty)]
      omega
    · intro nonempty
      rw [if_neg (mt isEmpty_iff.mp nonempty)]
      refine Or.inr ⟨rfl, ?_⟩
      intro j (late : (max fromIndex 0).toNat ≤ j)
      have outside : parts.flatten.length ≤ j := by omega
      exact not_prefix_drop_of_length_le nonempty outside
  by_cases isEmpty : t.count = 0
  · refine ⟨if fromIndex < 0 then 0 else fromIndex,
      by rw [indexOfFrom, if_neg behind, if_pos isEmpty], ?_, ?_⟩
    · intro _
      split <;> omega
    · intro nonempty
      exact absurd (isEmpty_iff.mp isEmpty) nonempty
  unfold Searchable at searchable
  rw [or_iff_right behind, or_iff_right isEmpty, represents.map_count,
    otherRepresents.map_count] at searchable
  have nonempty : others.flatten ≠ [] := mt isEmpty_iff.mpr isEmpty
  have inside : fromIndex < s.count := by omega
  obtain ⟨result, found, least⟩ := indexOfFrom_addressable represents
    otherRepresents searchable.1 searchable.2 inside nonempty
  exact ⟨result, found, fun noChars => absurd noChars nonempty, fun _ => least⟩

/-- A right index from the beginning says whether the pattern occurs at all. -/
theorem IndexRight.neg_one_lt_iff
    {text pattern : List Byte}
    {result : Int}
    (right : IndexRight text pattern 0 result) : -1 < result ↔
    pattern <:+: text := by
  by_cases isEmpty : pattern = []
  · have atStart := right.1 isEmpty
    rw [isEmpty]
    exact iff_of_true (by omega) (List.nil_infix)
  rw [List.infix_iff_prefix_suffix]
  rcases right.2 isEmpty with ⟨i, isIndex, _, occurs, _⟩ | ⟨isNone, nowhere⟩
  · exact iff_of_true (by omega) ⟨text.drop i, occurs, List.drop_suffix i text⟩
  · refine iff_of_false (by omega) ?_
    rintro ⟨suffix, occurs, isSuffix⟩
    rw [List.suffix_iff_eq_drop] at isSuffix
    rw [isSuffix] at occurs
    exact nowhere (text.length - suffix.length) (Nat.zero_le _) occurs

/-- `String_indexOfFrom`, `String_indexOf` and `String_contains` are right
exactly if the strings that they compact are searchable. -/
theorem search_iff_searchable
    (represents : Represents s parts)
    (otherRepresents : Represents t others) :
    (∀ fromIndex : Int,
      (∃ result, indexOfFrom s t fromIndex = .ok result ∧
          IndexRight parts.flatten others.flatten fromIndex result) ↔
        Searchable s t fromIndex) ∧
    ((∃ result, indexOf s t = .ok result ∧
        IndexRight parts.flatten others.flatten 0 result) ↔ Searchable s t 0) ∧
    ((∃ found, contains s t = .ok found ∧
        (found = true ↔ others.flatten <:+: parts.flatten)) ↔
          Searchable s t 0) := by
  have index := indexOfFrom_iff represents otherRepresents
  refine ⟨index, index 0, ?_⟩
  constructor
  · rintro ⟨found, isFound, _⟩
    obtain ⟨result, isResult, _⟩ := bind_eq_ok isFound
    exact searchable_of_ok represents otherRepresents isResult
  · intro searchable
    obtain ⟨result, isResult, right⟩ := (index 0).mpr searchable
    refine ⟨decide (-1 < result), ?_, ?_⟩
    · rw [contains, indexOf, isResult]
      rfl
    · rw [decide_eq_true_iff, right.neg_one_lt_iff]

end Whole

/-- A dynamic string of these characters. -/
def dynamicStr (chars : List Byte) : Str :=
  .block ⟨.dynamicString, chars.length, some (hashOf chars),
    chars.map some ++ [some 0]⟩

theorem represents_dynamicStr {chars : List Byte} (noNul : 0 ∉ chars) :
    Represents (dynamicStr chars) [chars] :=
  represents_dynamic noNul (some (hashOf chars))

/-- A string of two blocks, and a flat one. -/
theorem search_iff_searchable_compound :
    (∀ fromIndex : Int,
      (∃ result,
          indexOfFrom (concat (dynamicStr [97]) (dynamicStr [98]))
            (dynamicStr [98]) fromIndex =
            .ok result ∧
          IndexRight [97, 98] [98] fromIndex result) ↔
        Searchable (concat (dynamicStr [97]) (dynamicStr [98]))
          (dynamicStr [98]) fromIndex) ∧
    ((∃ result,
        indexOf (concat (dynamicStr [97]) (dynamicStr [98])) (dynamicStr [98]) =
          .ok result ∧
        IndexRight [97, 98] [98] 0 result) ↔
      Searchable (concat (dynamicStr [97]) (dynamicStr [98]))
        (dynamicStr [98]) 0) ∧
    ((∃ found,
        contains (concat (dynamicStr [97]) (dynamicStr [98]))
          (dynamicStr [98]) = .ok found ∧
        (found = true ↔ ([98] : List Byte) <:+: [97, 98])) ↔
      Searchable (concat (dynamicStr [97]) (dynamicStr [98])) (dynamicStr [98])
        0) := by
  have first : Represents (dynamicStr [97]) [[97]] :=
    represents_dynamicStr (by decide)
  have last : Represents (dynamicStr [98]) [[98]] :=
    represents_dynamicStr (by decide)
  exact search_iff_searchable (first.concat last) last

theorem not_searchable_of_long
    {chars last : List Byte}
    (long : 2 ^ 31 ≤ chars.length)
    (nonempty : last ≠ []) :
    ¬ Searchable (concat (dynamicStr chars) (dynamicStr last))
      (dynamicStr last) 0 := by
  have positive : last.length ≠ 0 := mt List.eq_nil_of_length_eq_zero nonempty
  rintro (behind | isEmpty | ⟨⟨_, begins, _⟩, _⟩)
  · change ((chars.length + last.length : Nat) : Int) ≤ 0 at behind
    omega
  · exact positive isEmpty
  · change last.length = 0 ∨ 0 + chars.length < 2 ^ 31 at begins
    omega

/-- Behind a block of 2 ^ 31 characters nothing is found. -/
theorem indexOfFrom_long_not_right :
    ¬ ∀ (s t : Str) (parts others : List (List Byte)) (fromIndex : Int),
      Represents s parts → Represents t others →
      ∃ result, indexOfFrom s t fromIndex = .ok result ∧
        IndexRight parts.flatten others.flatten fromIndex result := by
  intro right
  have noNul : (0 : Byte) ∉ List.replicate (2 ^ 31) 97 := by
    intro isNul
    exact absurd (List.eq_of_mem_replicate isNul) (by decide)
  have long : 2 ^ 31 ≤ (List.replicate (2 ^ 31) (97 : Byte)).length := by
    rw [List.length_replicate]
  have last : Represents (dynamicStr [98]) [[98]] :=
    represents_dynamicStr (by decide)
  have whole := (represents_dynamicStr noNul).concat last
  obtain ⟨result, found, _⟩ := right _ _ _ _ 0 whole last
  exact not_searchable_of_long long (List.cons_ne_nil 98 [])
    (searchable_of_ok whole last found)

end Strings
end Runtime
end ClojureRt
