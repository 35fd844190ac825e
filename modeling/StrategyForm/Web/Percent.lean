import StrategyForm.Text.Hex

/-!
# Percent encoding

A character that may not stand in a part of an address is written as the bytes of its UTF-8 form,
each as a percent sign and two hexadecimal digits. Which characters those are depends on the part:
every part has a predicate of the characters to be escaped. Control characters, and everything
beyond ASCII, are escaped everywhere.
-/

namespace StrategyForm.Web.Percent
open Text

def encodeByte (b : UInt8) : List Char :=
  ['%', hexUpper (b.toNat / 16), hexUpper (b.toNat % 16)]

def encodeChar (escaped : Char → Bool) (c : Char) : List Char :=
  if escaped c then (String.utf8EncodeChar c).flatMap encodeByte else [c]

/-- The text with the escaped characters as bytes. -/
def encode (escaped : Char → Bool) (cs : List Char) : List Char := cs.flatMap (encodeChar escaped)

/-- The bytes of a text. A percent sign without two digits after it stands for itself. -/
def decode : List Char → List UInt8
  | [] => []
  | '%' :: a :: b :: rest =>
    match hexValue? a, hexValue? b with
    | some x, some y => UInt8.ofNat (x * 16 + y) :: decode rest
    | _, _ => 0x25 :: decode (a :: b :: rest)
  | c :: rest => String.utf8EncodeChar c ++ decode rest

/-- The text that the bytes of a text spell, if they are UTF-8. -/
def decodeText? (cs : List Char) : Option String := String.fromUTF8? (decode cs).toByteArray

/-! ### What is escaped in the parts of an address -/

def control (c : Char) : Bool := c.toNat < 0x20 || 0x7E < c.toNat

def fragment (c : Char) : Bool := control c || [' ', '"', '<', '>', '\x60'].contains c

/-- In a query; the apostrophe is escaped where the scheme is a common one. -/
def query (common : Bool) (c : Char) : Bool :=
  control c || [' ', '"', '#', '<', '>'].contains c || (common && c = '\'')

def path (c : Char) : Bool := fragment c || ['#', '?', '\x7b', '\x7d'].contains c

/-- In a segment that is appended as a whole, so that neither of its characters can end it or pass
for an escape. -/
def segment (common : Bool) (c : Char) : Bool :=
  path c || c = '/' || c = '%' || (common && c = '\\')

def userInfo (c : Char) : Bool :=
  path c || ['/', ':', ';', '=', '@', '[', '\\', ']', '^', '|'].contains c

end StrategyForm.Web.Percent
