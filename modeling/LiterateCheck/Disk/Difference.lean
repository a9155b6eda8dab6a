import LiterateCheck.Disk.Basic

/-!
# The difference of two disks

What turns one disk into another: the locations that go, and the entries that are new or differ.
-/

namespace LiterateCheck.Disk

/-- The locations that a later disk lacks, those inside a directory before the directory. -/
def removed (before after : Disk) : List (Location × Entry) :=
  (before.entries.filter fun item => after.entryAt? item.1 |>.isNone).mergeSort
    fun a b => b.1.length ≤ a.1.length

/-- The entries of a later disk that are not those of an earlier one, a directory before those
inside it. -/
def changed (before after : Disk) : List (Location × Entry) :=
  (after.entries.filter fun item => before.entryAt? item.1 != some item.2).mergeSort
    fun a b => a.1.length ≤ b.1.length

end LiterateCheck.Disk
