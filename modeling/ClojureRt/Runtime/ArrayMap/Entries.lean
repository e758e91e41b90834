import ClojureRt.Lib.AssocList

/-!
# The entries of an array map

`PersistentArrayMap` keeps its keys and values in two arrays; entry `i` is the
pair at index `i`.
-/

namespace ClojureRt
namespace Runtime
namespace ArrayMap

/-- `HASHTABLE_THRESHOLD` -/
def hashtableThreshold : Nat := 128

/-- The entries after `PersistentArrayMap_assoc`, which throws when a new key
does not fit. -/
def assocEntries
    {Key Value : Type*}
    (equals : Key → Key → Bool)
    (key : Key)
    (value : Value)
    (entries : List (Key × Value)) : Option (List (Key × Value)) :=
  if AssocList.indexOf equals key entries = none ∧
    hashtableThreshold ≤ entries.length then
    none
  else
    some (AssocList.assoc equals key value entries)

theorem eq_assoc_of_assocEntries
    {Key Value : Type*}
    {equals : Key → Key → Bool}
    {key : Key}
    {value : Value}
    {entries after : List (Key × Value)}
    (associated : assocEntries equals key value entries = some after) :
    after = AssocList.assoc equals key value entries := by
  unfold assocEntries at associated
  split at associated
  · cases associated
  · exact (Option.some.inj associated).symm

end ArrayMap
end Runtime
end ClojureRt
