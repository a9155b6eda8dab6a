/-!
# Reading bytes as text

Bytes that are not UTF-8 are read with U+FFFD in place of each longest run that could begin a
character but does not finish one, and of each byte that begins none.
-/

namespace LiterateCheck.Text

/-- What the first byte of a character announces: its own bits, how many bytes follow, and the
range of the first of them. -/
structure LeadByte where
  bits : Nat
  following : Nat
  low : Nat
  high : Nat

/-- The shape of a character by its first byte. The range of the second byte shuts out long forms,
surrogates and numbers above the last code point. -/
def LeadByte.ofNat? (b : Nat) : Option LeadByte :=
  if b < 0x80 then some ⟨b, 0, 0x80, 0xBF⟩
  else if b < 0xC2 then none
  else if b < 0xE0 then some ⟨b - 0xC0, 1, 0x80, 0xBF⟩
  else if b == 0xE0 then some ⟨0, 2, 0xA0, 0xBF⟩
  else if b == 0xED then some ⟨0xD, 2, 0x80, 0x9F⟩
  else if b < 0xF0 then some ⟨b - 0xE0, 2, 0x80, 0xBF⟩
  else if b == 0xF0 then some ⟨0, 3, 0x90, 0xBF⟩
  else if b < 0xF4 then some ⟨b - 0xF0, 3, 0x80, 0xBF⟩
  else if b == 0xF4 then some ⟨4, 3, 0x80, 0x8F⟩
  else none

/-- Reads the bytes that follow a first byte. Gives the code point, if the character is complete,
and the bytes that are left. -/
def following (value count low high : Nat) (bytes : List UInt8) : Option Nat × List UInt8 :=
  match count, bytes with
  | 0, bytes => (some value, bytes)
  | _ + 1, [] => (none, [])
  | count + 1, b :: rest =>
    if low ≤ b.toNat && b.toNat ≤ high then
      following (value * 64 + b.toNat % 64) count 0x80 0xBF rest
    else (none, b :: rest)

theorem length_following_le (value count low high : Nat) (bytes : List UInt8) :
    (following value count low high bytes).2.length ≤ bytes.length := by
  fun_induction following value count low high bytes with
  | case1 => simp
  | case2 => simp
  | case3 value low high count b rest h ih => simp only [List.length_cons]; omega
  | case4 => simp

/-- The text of some bytes, with U+FFFD for what is not UTF-8. -/
def decodeLossy : List UInt8 → List Char
  | [] => []
  | b :: rest =>
    match LeadByte.ofNat? b.toNat with
    | none => '\uFFFD' :: decodeLossy rest
    | some lead =>
      let tail := following lead.bits lead.following lead.low lead.high rest
      (tail.1.elim '\uFFFD' Char.ofNat) :: decodeLossy tail.2
  termination_by bytes => bytes.length
  decreasing_by
    · simp
    · have := length_following_le lead.bits lead.following lead.low lead.high rest
      simp only [List.length_cons]
      omega

end LiterateCheck.Text
