import LiterateCheck.Text.Utf8

/-!
# Names that are not UTF-8

The system takes any bytes for a name, but a NUL and a separator. Names and paths are texts here, and
a byte of a name that belongs to no character is a stray one. It is written as two characters, a NUL
and the character with the number of the byte. A name of the system holds no NUL of its own, so what
is written for a stray byte is never taken for anything else in it.
-/

namespace LiterateCheck.Text

/-- A character of a name, or a stray byte. -/
inductive Piece where
  | char (c : Char)
  | stray (b : UInt8)
  deriving DecidableEq, Repr

/-- Whether a character stands for a byte when a NUL is before it. -/
def standsForByte (c : Char) : Bool :=
  0x80 ≤ c.toNat && c.toNat ≤ 0xFF

/-- What a name is made of. -/
def pieces : List Char → List Piece
  | [] => []
  | [c] => [.char c]
  | c :: d :: rest =>
    if c == '\x00' && standsForByte d then .stray (.ofNat d.toNat) :: pieces rest
    else .char c :: pieces (d :: rest)

def Piece.isChar : Piece → Bool
  | char _ => true
  | stray _ => false

def Piece.bytes : Piece → List UInt8
  | char c => String.utf8EncodeChar c
  | stray b => [b]

/-- The bytes of a name. -/
def rawBytes (name : String) : List UInt8 :=
  (pieces name.toList).flatMap Piece.bytes

/-- The number of bytes of a name. -/
def rawSize (name : String) : Nat :=
  (rawBytes name).length

/-- Whether a name has a NUL that stands for itself. The system takes no such name. -/
def holdsNul (name : String) : Bool :=
  (pieces name.toList).contains (.char '\x00')

/-- Whether a name has no stray bytes. -/
def isUtf8 (name : String) : Bool :=
  (pieces name.toList).all Piece.isChar

/-- A name as a text, when it is UTF-8. -/
def utf8? (name : String) : Option String :=
  if isUtf8 name then some name else none

/-- No byte of a character is awaited. -/
def LeadByte.nothing : LeadByte := ⟨0, 0, 0, 0⟩

/-- The text of some pieces, with U+FFFD in place of each longest run of stray bytes that could begin
a character, and of each that begins none. The first argument says which bytes still belong to the
last U+FFFD. -/
def shownFrom : LeadByte → List Piece → List Char
  | _, [] => []
  | _, .char c :: rest => c :: shownFrom .nothing rest
  | lead, .stray b :: rest =>
    if 0 < lead.following && lead.low ≤ b.toNat && b.toNat ≤ lead.high then
      shownFrom ⟨0, lead.following - 1, 0x80, 0xBF⟩ rest
    else '\uFFFD' :: shownFrom ((LeadByte.ofNat? b.toNat).getD .nothing) rest

/-- A name as it is shown. -/
def shown (name : String) : String :=
  String.ofList (shownFrom .nothing (pieces name.toList))

/-- The name that some bytes make. -/
def ofRaw : List UInt8 → List Char
  | [] => []
  | b :: rest =>
    match LeadByte.ofNat? b.toNat with
    | none => '\x00' :: Char.ofNat b.toNat :: ofRaw rest
    | some lead =>
      let tail := following lead.bits lead.following lead.low lead.high rest
      match tail.1 with
      | none => '\x00' :: Char.ofNat b.toNat :: ofRaw rest
      | some value => Char.ofNat value :: ofRaw tail.2
  termination_by bytes => bytes.length
  decreasing_by
    · simp
    · simp
    · have := length_following_le lead.bits lead.following lead.low lead.high rest
      simp only [List.length_cons]
      omega

end LiterateCheck.Text
