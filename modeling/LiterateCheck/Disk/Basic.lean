import LiterateCheck.Association
import LiterateCheck.Path

/-!
# A disk

A disk holds files, directories and symbolic links, each at a location: the names from the root down
to it. It is a finite table with one entry for each location. The entries of a directory are listed
in the order in which the table holds them.
-/

namespace LiterateCheck

/-- The names from the root down. -/
abbrev Location := List String

/-- The absolute path of a location. -/
def Location.path (location : Location) : Path :=
  ⟨"/" ++ "/".intercalate location⟩

/-- The number of bytes of that path, a separator before each name. -/
def Location.size : Location → Nat
  | [] => 0
  | name :: names => Text.rawSize name + 1 + size names

/-- What stands at a location. -/
inductive Entry where
  | file (content : ByteArray) (executable : Bool)
  | directory
  | link (target : Path)
  deriving BEq

namespace Entry

def isFile : Entry → Bool
  | file .. => true
  | _ => false

def isDirectory : Entry → Bool
  | directory => true
  | _ => false

theorem any_isDirectory {held? : Option Entry} :
    held?.any isDirectory = true ↔ held? = some directory := by
  rcases held? with _ | ⟨_, _⟩ | _ | _ <;> simp [isDirectory]

end Entry

/-- Files, directories and links by their locations. -/
structure Disk where
  entries : List (Location × Entry)
  distinct : (entries.map Prod.fst).Nodup

/-- Puts an entry in place of the one at its location, or at the end. -/
def putEntry (location : Location) (entry : Entry) :
    List (Location × Entry) → List (Location × Entry)
  | [] => [(location, entry)]
  | (l, e) :: others =>
    if l = location then (location, entry) :: others
    else (l, e) :: putEntry location entry others

theorem fst_mem_putEntry {location l : Location} {entry : Entry}
    {entries : List (Location × Entry)} :
    l ∈ (putEntry location entry entries).map Prod.fst ↔
      l = location ∨ l ∈ entries.map Prod.fst := by
  induction entries with
  | nil => simp [putEntry]
  | cons head others ih =>
    simp only [putEntry]
    split
    · rename_i h
      subst h
      simp
    · simp only [List.map_cons, List.mem_cons, ih]
      constructor <;> rintro (h | h | h) <;> simp_all

theorem nodup_putEntry (location : Location) (entry : Entry) {entries : List (Location × Entry)}
    (h : (entries.map Prod.fst).Nodup) :
    ((putEntry location entry entries).map Prod.fst).Nodup := by
  induction entries with
  | nil => simp [putEntry]
  | cons head others ih =>
    obtain ⟨hnot, hothers⟩ := List.nodup_cons.1 (List.map_cons ▸ h)
    simp only [putEntry]
    split
    · rename_i heq
      subst heq
      exact List.nodup_cons.2 ⟨hnot, hothers⟩
    · rename_i hne
      refine List.nodup_cons.2 ⟨?_, ih hothers⟩
      rw [fst_mem_putEntry]
      rintro (heq | hmem)
      · exact hne heq
      · exact hnot hmem

theorem lookup_putEntry (location : Location) (entry : Entry) (l : Location)
    (entries : List (Location × Entry)) :
    (putEntry location entry entries).lookup l =
      if l = location then some entry else entries.lookup l := by
  induction entries with
  | nil => simp [putEntry, lookup_cons_eq_ite]
  | cons head others ih =>
    obtain ⟨l', e⟩ := head
    simp only [putEntry]
    split
    · rename_i heq
      subst heq
      simp only [lookup_cons_eq_ite]
      split <;> rfl
    · rename_i hne
      simp only [lookup_cons_eq_ite, ih]
      by_cases h : l = l'
      · subst h
        simp [hne]
      · simp [h]

namespace Disk

/-- The disk with nothing but its root. -/
def empty : Disk := ⟨[], .nil⟩

instance : Inhabited Disk := ⟨empty⟩

/-- What stands at a location. The root is always a directory. -/
def entryAt? (disk : Disk) (location : Location) : Option Entry :=
  if location = [] then some .directory else disk.entries.lookup location

/-- Puts an entry at a location. -/
def put (disk : Disk) (location : Location) (entry : Entry) : Disk :=
  ⟨putEntry location entry disk.entries, nodup_putEntry location entry disk.distinct⟩

/-- Keeps the entries whose locations satisfy `p`. -/
def keep (disk : Disk) (p : Location → Bool) : Disk :=
  ⟨disk.entries.filter fun item => p item.1,
    disk.distinct.sublist ((List.filter_sublist (l := disk.entries)).map Prod.fst)⟩

/-- Whether a location lies strictly below another. -/
def isBelow (base location : Location) : Bool :=
  base.isPrefixOf location && base.length < location.length

/-- Removes what lies below a location. -/
def removeBelow (disk : Disk) (location : Location) : Disk :=
  disk.keep fun other => !isBelow location other

/-- Removes a location and what lies below it. -/
def remove (disk : Disk) (location : Location) : Disk :=
  disk.keep fun other => !location.isPrefixOf other

/-- The entries of a directory, by name. -/
def children (disk : Disk) (location : Location) : List (String × Entry) :=
  disk.entries.filterMap fun (other, entry) =>
    match other.getLast? with
    | some name => if other.dropLast = location then some (name, entry) else none
    | none => none

/-- Everything below a location, each with the names that lead to it. -/
def below (disk : Disk) (location : Location) : List (Location × Entry) :=
  disk.entries.filterMap fun (other, entry) =>
    if isBelow location other then some (other.drop location.length, entry) else none

/-! ## What stands at a location after a change -/

theorem entryAt?_nil (disk : Disk) : disk.entryAt? [] = some .directory := rfl

theorem entryAt?_put (disk : Disk) (location : Location) (entry : Entry) {l : Location}
    (h : l ≠ []) :
    (disk.put location entry).entryAt? l =
      if l = location then some entry else disk.entryAt? l := by
  simp [entryAt?, put, h, lookup_putEntry]

theorem entryAt?_keep (disk : Disk) (p : Location → Bool) {l : Location} (h : l ≠ []) :
    (disk.keep p).entryAt? l = if p l then disk.entryAt? l else none := by
  simp [entryAt?, keep, h, lookup_filter_fst]

theorem entryAt?_removeBelow (disk : Disk) (location : Location) {l : Location} (h : l ≠ []) :
    (disk.removeBelow location).entryAt? l =
      if isBelow location l then none else disk.entryAt? l := by
  rw [removeBelow, entryAt?_keep _ _ h]
  cases isBelow location l <;> rfl

theorem entryAt?_remove (disk : Disk) (location : Location) {l : Location} (h : l ≠ []) :
    (disk.remove location).entryAt? l =
      if location.isPrefixOf l then none else disk.entryAt? l := by
  rw [remove, entryAt?_keep _ _ h]
  cases location.isPrefixOf l <;> rfl

end Disk

end LiterateCheck
