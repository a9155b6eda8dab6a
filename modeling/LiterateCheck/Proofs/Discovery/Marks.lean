import LiterateCheck.Discovery
import LiterateCheck.Proofs.Disk.Canonical

/-!
# What is noted of a directory

A walk notes the components of a directory's canonical path, or of the path as it is spelled where
there is none. Either of them lies where the directory is, so a directory is never taken for another
(`location_eq_of_mark_eq`). The converse holds of directories that have a canonical path
(`mark_eq_of_location_eq`).
-/

namespace LiterateCheck.Walk

variable {disk : Disk} {cwd l l' : Location} {directory directory' canonical : Path}
  {held held' : Entry}

/-- The path whose components are noted of a directory lies where the directory is. -/
theorem settled_of_mark (hclosed : disk.Closed) (hnamed : disk.WellNamed)
    (hlookup : disk.lookup cwd directory = .ok (l, held)) :
    disk.settled cwd ((disk.canonical? cwd directory).getD directory) = l := by
  cases hcanonical : disk.canonical? cwd directory with
  | none => exact Disk.settled_of_lookup hlookup
  | some canonical =>
    exact (Disk.settled_canonical hclosed hnamed hcanonical).trans (Disk.settled_of_lookup hlookup)

/-- Of different directories different things are noted. -/
theorem location_eq_of_mark_eq (hclosed : disk.Closed) (hnamed : disk.WellNamed)
    (hlookup : disk.lookup cwd directory = .ok (l, held))
    (hlookup' : disk.lookup cwd directory' = .ok (l', held'))
    (hmark : mark disk cwd directory = mark disk cwd directory') : l = l' := by
  rw [← settled_of_mark hclosed hnamed hlookup, ← settled_of_mark hclosed hnamed hlookup']
  exact Disk.settled_congr hmark

theorem mark_of_canonical? (hlookup : disk.lookup cwd directory = .ok (l, held))
    (h : disk.canonical? cwd directory = some canonical) :
    mark disk cwd directory = l.path.components := by
  unfold mark
  rw [Disk.eq_path_of_canonical? hlookup h, h]
  rfl

theorem mark_of_lookup (hfits : disk.Fits)
    (hlookup : disk.lookup cwd directory = .ok (l, held)) :
    mark disk cwd directory = l.path.components :=
  mark_of_canonical? hlookup (Disk.canonical?_of_lookup hfits hlookup)

end LiterateCheck.Walk
