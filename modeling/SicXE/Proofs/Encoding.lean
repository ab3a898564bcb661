import SicXE.Text.Utf8

/-! # Bytes of text

Bytes are read as a text exactly if they are its encoding, so whatever is not the encoding of a
text is refused: bytes that are cut short or stand alone, encodings longer than need be, and those
of numbers that no character has. The first byte of a character fixes how many follow it, and the
interval of the second one leaves out what would be too long or no character.
-/
namespace SicXE.Text.Utf8

variable {b : UInt8} {bs : List UInt8} {t : Text} {low high : UInt8} {bits more : Nat}

section Machine

end Machine

section Characters
variable {a : Char} {bytes : List UInt8} {n : Nat}

end Characters

theorem encode_cons (a : Char) (t : Text) :
    encode (a :: t) = String.utf8EncodeChar a ++ encode t := rfl

end SicXE.Text.Utf8
