import HyperBackup.Lib.HashMap

/-!
# Ledgers of references

A ledger says for every owner which items it refers to; an owner may refer to
an item several times.  `occurrences` is the number of references to an item
over all owners.  A reference counter is right if it equals that number, and
the lemmas here say how the number changes when an owner comes or goes.
-/

namespace Lib

universe u v

/-- The references of every owner. -/
abbrev Ledger (ι : Type u) (α : Type v) : Type (max u v) :=
  HashMap ι (List α)

namespace Ledger

variable {ι : Type u} {α : Type v} [DecidableEq α]

/-- The number of references to an item over all owners. -/
def occurrences (ledger : Ledger ι α) (a : α) : Nat :=
  (ledger.entries.map fun e => e.2.count a).sum

variable [DecidableEq ι]

/-- A new owner adds its references. -/
theorem occurrences_insert
    {ledger : Ledger ι α} {v : ι} (hv : ledger.lookup v = none)
    (l : List α) (a : α) :
    occurrences (ledger.insert v l) a = l.count a + occurrences ledger a :=
  HashMap.total_insert hv _ l

/-- An owner that leaves takes its references with it. -/
theorem occurrences_erase
    {ledger : Ledger ι α} {v : ι} {l : List α}
    (hv : ledger.lookup v = some l) (a : α) :
    occurrences (ledger.erase v) a + l.count a = occurrences ledger a :=
  HashMap.total_erase hv _

theorem count_le_occurrences
    {ledger : Ledger ι α} {v : ι} {l : List α}
    (hv : ledger.lookup v = some l) (a : α) :
    l.count a ≤ occurrences ledger a := by
  have h := occurrences_erase hv a
  omega

end Ledger

end Lib
