import Mathlib.Data.List.Basic

/-!
# Association lists

Entries are kept in the order in which their keys came, and keys are compared by
a given function.  Where it is an equivalence, an association list is a finite
map.
-/

namespace ClojureRt
namespace AssocList

variable {Key Value : Type*}

/-- The comparison of keys is an equivalence. -/
structure IsEquivalence (equals : Key → Key → Bool) : Prop where
  refl : ∀ key, equals key key = true
  symm : ∀ first second, equals first second = true → equals second first = true
  trans : ∀ first second third, equals first second = true →
    equals second third = true →
    equals first third = true

/-- The comparison is an equivalence among some keys. -/
structure IsEquivalenceOn (domain : Key → Prop) (equals : Key → Key → Bool) :
    Prop where
  refl : ∀ key, domain key → equals key key = true
  symm : ∀ first second, domain first → domain second →
    equals first second = true →
    equals second first = true
  trans : ∀ first second third, domain first → domain second → domain third →
    equals first second = true → equals second third = true →
      equals first third = true

theorem IsEquivalence.on
    {equals : Key → Key → Bool}
    (equivalence : IsEquivalence equals)
    (domain : Key → Prop) : IsEquivalenceOn domain equals where
  refl key _ := equivalence.refl key
  symm first second _ _ := equivalence.symm first second
  trans first second third _ _ _ := equivalence.trans first second third

theorem IsEquivalenceOn.congr
    {domain : Key → Prop}
    {equals : Key → Key → Bool}
    (equivalence : IsEquivalenceOn domain equals)
    {first second third : Key}
    (isFirst : domain first)
    (isSecond : domain second)
    (isThird : domain third)
    (equal : equals first second = true) :
    equals third first = equals third second := by
  rw [Bool.eq_iff_iff]
  constructor
  · intro same
    exact equivalence.trans third first second isThird isFirst isSecond
      same equal
  · intro same
    exact equivalence.trans third second first isThird isSecond isFirst same
      (equivalence.symm first second isFirst isSecond equal)

theorem IsEquivalence.of_decidableEq [DecidableEq Key] :
    IsEquivalence (fun first second : Key => decide (first = second)) where
  refl := by simp
  symm := by simp +contextual [eq_comm]
  trans := by simp +contextual

section Operations

variable (equals : Key → Key → Bool) (key : Key)

/-- The index of the first entry with the key. -/
def indexOf (entries : List (Key × Value)) : Option Nat :=
  entries.findIdx? fun entry => equals key entry.1

/-- The value of the first entry with the key. -/
def get (entries : List (Key × Value)) : Option Value :=
  (entries.find? fun entry => equals key entry.1).map Prod.snd

/-- The value becomes that of the key.  A new key comes last. -/
def assoc (value : Value) (entries : List (Key × Value)) : List (Key × Value) :=
  match indexOf equals key entries with
  | some index => entries.modify index fun entry => (entry.1, value)
  | none => entries ++ [(key, value)]

/-- The entries without the first one with the key. -/
def dissoc (entries : List (Key × Value)) : List (Key × Value) :=
  match indexOf equals key entries with
  | some index => entries.eraseIdx index
  | none => entries

/-- No two keys are equal. -/
def Distinct (entries : List (Key × Value)) : Prop :=
  entries.Pairwise fun first second => equals first.1 second.1 = false

/-! ## Equations -/

@[simp]
theorem get_nil : get equals key ([] : List (Key × Value)) = none := rfl

theorem get_cons (entry : Key × Value) (entries : List (Key × Value)) :
    get equals key (entry :: entries) =
      if equals key entry.1 then some entry.2 else get equals key entries := by
  cases same : equals key entry.1 <;> simp [get, same]

@[simp]
theorem assoc_nil (value : Value) : assoc equals key value
    [] = [(key, value)] := rfl

theorem assoc_cons (value : Value) (entry : Key × Value)
    (entries : List (Key × Value)) :
    assoc equals key value (entry :: entries) =
      if equals key entry.1 then (entry.1, value) :: entries
      else entry :: assoc equals key value entries := by
  unfold assoc indexOf
  rw [List.findIdx?_cons]
  cases equals key entry.1 with
  | true => simp
  | false =>
      cases entries.findIdx? (fun entry => equals key entry.1) with
      | none => simp
      | some index => simp

@[simp]
theorem dissoc_nil : dissoc equals key ([] : List (Key × Value)) = [] := rfl

theorem dissoc_cons (entry : Key × Value) (entries : List (Key × Value)) :
    dissoc equals key (entry :: entries) =
      if equals key entry.1 then entries
      else entry :: dissoc equals key entries := by
  unfold dissoc indexOf
  rw [List.findIdx?_cons]
  cases equals key entry.1 with
  | true => simp
  | false =>
      cases entries.findIdx? (fun entry => equals key entry.1) with
      | none => simp
      | some index => simp

end Operations

theorem get_congr
    {first second : Key → Key → Bool}
    {key : Key}
    {entries : List (Key × Value)}
    (agree : ∀ entry ∈ entries, first key entry.1 = second key entry.1) :
    get first key entries = get second key entries := by
  induction entries with
  | nil => rfl
  | cons entry entries inductionHypothesis =>
      rw [get_cons, get_cons, agree entry List.mem_cons_self,
        inductionHypothesis fun other isOther =>
          agree other (List.mem_cons_of_mem _ isOther)]

/-- What is found is the value of an entry with the key. -/
theorem exists_mem_of_get
    {equals : Key → Key → Bool}
    {key : Key}
    {value : Value}
    {entries : List (Key × Value)}
    (found : get equals key entries = some value) :
    ∃ entry ∈ entries, equals key entry.1 = true ∧ entry.2 = value := by
  obtain ⟨entry, isFirst, isValue⟩ := Option.map_eq_some_iff.mp found
  have isKey := List.find?_some isFirst
  exact ⟨entry, List.mem_of_find?_eq_some isFirst, isKey, isValue⟩

theorem get_eq_none_iff
    {equals : Key → Key → Bool}
    {key : Key}
    {entries : List (Key × Value)} :
    get equals key entries = none ↔ ∀ entry ∈ entries,
      equals key entry.1 = false := by
  rw [get, Option.map_eq_none_iff, List.find?_eq_none]
  simp only [Bool.not_eq_true]

/-! ## Lookups after updates -/

section Lookups

variable {equals : Key → Key → Bool}

/-- The keys of the entries are in a domain. -/
def Within (domain : Key → Prop) (entries : List (Key × Value)) : Prop :=
  ∀ entry ∈ entries, domain entry.1

theorem get_assoc_on
    {domain : Key → Prop}
    (equivalence : IsEquivalenceOn domain equals)
    {key other : Key}
    (isKey : domain key)
    (isOther : domain other)
    (value : Value)
    {entries : List (Key × Value)}
    (within : Within domain entries) :
    get equals other (assoc equals key value entries) =
      if equals other key then some value else get equals other entries := by
  induction entries with
  | nil => simp [get_cons]
  | cons entry entries inductionHypothesis =>
      have isEntry := within entry List.mem_cons_self
      rw [assoc_cons]
      cases found : equals key entry.1 with
      | true =>
          rw [equivalence.congr isKey isEntry isOther found]
          simp only [if_true, get_cons]
          split <;> rfl
      | false =>
          rw [if_neg (by simp), get_cons, get_cons,
            inductionHypothesis fun later isLater =>
              within later (List.mem_cons_of_mem _ isLater)]
          cases same : equals other entry.1 with
          | false => rfl
          | true =>
              have notKey : equals other key = false := by
                by_contra isSame
                rw [Bool.not_eq_false] at isSame
                have := equivalence.trans key other entry.1 isKey
                  isOther isEntry
                  (equivalence.symm other key isOther isKey isSame) same
                rw [found] at this
                cases this
              simp [notKey]

theorem get_dissoc_on
    {domain : Key → Prop}
    (equivalence : IsEquivalenceOn domain equals)
    {key other : Key}
    (isKey : domain key)
    (isOther : domain other)
    {entries : List (Key × Value)}
    (within : Within domain entries)
    (distinct : Distinct equals entries) :
    get equals other (dissoc equals key entries) =
      if equals other key then none else get equals other entries := by
  induction entries with
  | nil => simp
  | cons entry entries inductionHypothesis =>
      have isEntry := within entry List.mem_cons_self
      have laterWithin : Within domain entries :=
        fun later isLater => within later (List.mem_cons_of_mem _ isLater)
      obtain ⟨apart, laterDistinct⟩ := List.pairwise_cons.mp distinct
      rw [dissoc_cons, get_cons]
      cases found : equals key entry.1 with
      | true =>
          rw [← equivalence.congr isKey isEntry isOther found, if_pos rfl]
          cases same : equals other key with
          | false => rfl
          | true =>
              rw [if_pos rfl, get_eq_none_iff]
              intro later isLater
              rw [← apart later isLater]
              have isLaterKey := laterWithin later isLater
              rw [Bool.eq_iff_iff]
              have equal :=
                equivalence.trans other key entry.1 isOther isKey isEntry
                  same found
              constructor
              · exact equivalence.trans entry.1 other later.1 isEntry isOther
                  isLaterKey
                  (equivalence.symm other entry.1 isOther isEntry equal)
              · exact equivalence.trans other entry.1 later.1 isOther isEntry
                  isLaterKey equal
      | false =>
          rw [if_neg (by simp), get_cons,
            inductionHypothesis laterWithin laterDistinct]
          cases same : equals other entry.1 with
          | false => rfl
          | true =>
              have notKey : equals other key = false := by
                by_contra isSame
                rw [Bool.not_eq_false] at isSame
                have := equivalence.trans key other entry.1 isKey
                  isOther isEntry
                  (equivalence.symm other key isOther isKey isSame) same
                rw [found] at this
                cases this
              simp [notKey]

theorem get_assoc
    (equivalence : IsEquivalence equals)
    (key other : Key)
    (value : Value)
    (entries : List (Key × Value)) :
    get equals other (assoc equals key value entries) =
      if equals other key then some value else get equals other entries :=
  get_assoc_on (equivalence.on fun _ => True) trivial trivial value
    fun _ _ => trivial

theorem get_dissoc_of_ne
    (equivalence : IsEquivalence equals)
    {key other : Key}
    (different : equals other key = false)
    (entries : List (Key × Value)) :
    get equals other (dissoc equals key entries) =
      get equals other entries := by
  induction entries with
  | nil => rfl
  | cons entry entries inductionHypothesis =>
      rw [dissoc_cons, get_cons]
      cases found : equals key entry.1 with
      | true =>
          rw [← (equivalence.on fun _ => True).congr trivial trivial trivial
            found, different]
          rfl
      | false =>
          rw [if_neg (by simp), get_cons, inductionHypothesis]

end Lookups

/-! ## Keys after updates -/

section Keys

variable {equals : Key → Key → Bool}

/-- An entry after an update is an old one, or it has the new value. -/
theorem mem_assoc
    {key : Key}
    {value : Value}
    {entries : List (Key × Value)}
    {entry : Key × Value}
    (isEntry : entry ∈ assoc equals key value entries) :
    entry ∈ entries ∨
      (entry.2 = value ∧
        ((∃ old ∈ entries, old.1 = entry.1) ∨ entry.1 = key)) := by
  induction entries with
  | nil =>
      rw [assoc_nil, List.mem_singleton] at isEntry
      rw [isEntry]
      exact Or.inr ⟨rfl, Or.inr rfl⟩
  | cons first entries inductionHypothesis =>
      rw [assoc_cons] at isEntry
      split at isEntry
      · rcases List.mem_cons.mp isEntry with isFirst | isLater
        · rw [isFirst]
          exact Or.inr ⟨rfl, Or.inl ⟨first, List.mem_cons_self, rfl⟩⟩
        · exact Or.inl (List.mem_cons_of_mem _ isLater)
      · rcases List.mem_cons.mp isEntry with isFirst | isLater
        · rw [isFirst]
          exact Or.inl List.mem_cons_self
        · rcases inductionHypothesis isLater with isOld |
            ⟨isValue, ⟨old, isOld, same⟩ | isKey⟩
          · exact Or.inl (List.mem_cons_of_mem _ isOld)
          · exact Or.inr
              ⟨isValue, Or.inl ⟨old, List.mem_cons_of_mem _ isOld, same⟩⟩
          · exact Or.inr ⟨isValue, Or.inr isKey⟩

/-- Keys come from the entries, or are the new one. -/
theorem key_of_mem_assoc
    {key : Key}
    {value : Value}
    {entries : List (Key × Value)}
    {entry : Key × Value}
    (isEntry : entry ∈ assoc equals key value entries) :
    (∃ old ∈ entries, old.1 = entry.1) ∨ entry.1 = key := by
  rcases mem_assoc isEntry with isOld | ⟨_, isKey⟩
  · exact Or.inl ⟨entry, isOld, rfl⟩
  · exact isKey

/-- The entry with the key, where there is one. -/
theorem getElem?_indexOf
    {key : Key}
    {entries : List (Key × Value)}
    {index : Nat}
    (found : indexOf equals key entries = some index) :
    ∃ entry, entries[index]? = some entry ∧ equals key entry.1 = true := by
  obtain ⟨below, isKey, _⟩ := List.findIdx?_eq_some_iff_getElem.mp found
  exact ⟨entries[index], List.getElem?_eq_getElem below, isKey⟩

/-- No other entry has the key. -/
theorem eq_false_of_ne_indexOf
    {domain : Key → Prop}
    (equivalence : IsEquivalenceOn domain equals)
    {key : Key}
    (isKey : domain key)
    {entries : List (Key × Value)}
    (within : Within domain entries)
    (distinct : Distinct equals entries)
    {index other : Nat}
    {entry : Key × Value}
    (found : indexOf equals key entries = some index)
    (different : other ≠ index)
    (isEntry : entries[other]? = some entry) : equals key entry.1 = false := by
  obtain ⟨first, isFirst, firstEqual⟩ := getElem?_indexOf found
  obtain ⟨below, rfl⟩ := List.getElem?_eq_some_iff.mp isFirst
  obtain ⟨otherBelow, rfl⟩ := List.getElem?_eq_some_iff.mp isEntry
  have isFirstKey := within _ (List.getElem_mem below)
  have isOtherKey := within _ (List.getElem_mem otherBelow)
  rw [← Bool.not_eq_true]
  intro equal
  have there := equivalence.trans _ _ _ isFirstKey isKey isOtherKey
    (equivalence.symm _ _ isKey isFirstKey firstEqual) equal
  rcases Nat.lt_or_gt_of_ne different with before | behind
  · have apart :=
      List.pairwise_iff_getElem.mp distinct other index otherBelow below before
    rw [equivalence.symm _ _ isFirstKey isOtherKey there] at apart
    cases apart
  · have apart :=
      List.pairwise_iff_getElem.mp distinct index other below otherBelow behind
    rw [there] at apart
    cases apart

theorem distinct_assoc
    {domain : Key → Prop}
    (equivalence : IsEquivalenceOn domain equals)
    {key : Key}
    (isKey : domain key)
    (value : Value)
    {entries : List (Key × Value)}
    (within : Within domain entries)
    (distinct : Distinct equals entries) :
    Distinct equals (assoc equals key value entries) := by
  induction entries with
  | nil => exact List.pairwise_singleton _ _
  | cons entry entries inductionHypothesis =>
      obtain ⟨apart, laterDistinct⟩ := List.pairwise_cons.mp distinct
      rw [assoc_cons]
      split
      · exact List.pairwise_cons.mpr ⟨apart, laterDistinct⟩
      · next notFound =>
          apply List.pairwise_cons.mpr
          refine ⟨fun later isLater => ?_, inductionHypothesis
            (fun old isOld => within old (List.mem_cons_of_mem _ isOld))
            laterDistinct⟩
          rcases key_of_mem_assoc isLater with ⟨old, isOld, same⟩ | isNew
          · rw [← same]
            exact apart old isOld
          · rw [isNew, ← Bool.not_eq_true]
            intro equal
            exact notFound
              (equivalence.symm entry.1 key
              (within entry List.mem_cons_self) isKey
              equal)

theorem dissoc_sublist (key : Key) (entries : List (Key × Value)) :
    (dissoc equals key entries).Sublist entries := by
  unfold dissoc
  split
  · exact List.eraseIdx_sublist _ _
  · exact List.Sublist.refl _

/-- Distinctness depends on the comparison of the keys only. -/
theorem distinct_congr
    {first second : Key → Key → Bool}
    {entries : List (Key × Value)}
    (agree : ∀ entry ∈ entries, ∀ other ∈ entries,
      first entry.1 other.1 = second entry.1 other.1)
    (distinct : Distinct first entries) : Distinct second entries := by
  apply distinct.imp_of_mem
  intro entry other isEntry isOther apart
  rwa [← agree entry isEntry other isOther]

end Keys

end AssocList
end ClojureRt
