import LazyFrame.Number.Reader

/-!
# Percent encoding

A text is written into the target of a call byte by byte: letters, digits and a few marks stand for
themselves, and any other byte of its UTF-8 form is a percent sign with two hexadecimal digits.
Reading puts the bytes back together. It fails on a percent sign without its digits and on bytes
that are no text.
-/

namespace LazyFrame.Text.Percent

/-- The marks that stand for themselves. -/
def marks : List Char := ['-', '_', '.', '!', '~', '*', '\'', '(', ')']

/-- Whether a byte stands for itself. -/
def isPlain (b : UInt8) : Bool :=
  let c := Char.ofNat b.toNat
  b.toNat < 128 && (c.isAlphanum || marks.contains c)

/-- A hexadecimal digit. -/
def hexDigit (n : Nat) : Char := Char.ofNat (if n < 10 then 48 + n else 55 + n)

/-- The code of a byte: a percent sign and two digits. -/
def encodeCode (n : Nat) : List Char := ['%', hexDigit (n / 16), hexDigit (n % 16)]

/-- The characters of a byte. -/
def encodeByte (b : UInt8) : List Char :=
  if isPlain b then [Char.ofNat b.toNat] else encodeCode b.toNat

/-- The characters of bytes. -/
def encodeBytes (bytes : List UInt8) : List Char := bytes.flatMap encodeByte

/-- A text as it is written into a target. -/
def encode (s : String) : String :=
  String.ofList (encodeBytes (s.toList.flatMap String.utf8EncodeChar))

/-- The byte that two hexadecimal digits spell. -/
def byte? (high low : Char) : Option UInt8 :=
  if Number.isDigitOf 16 high && Number.isDigitOf 16 low then
    some (UInt8.ofNat (Number.digitsValue 16 [high, low]))
  else none

/-- The bytes that characters stand for. -/
def decodeBytes? : List Char → Option (List UInt8)
  | [] => some []
  | '%' :: high :: low :: rest =>
    match byte? high low, decodeBytes? rest with
    | some b, some others => some (b :: others)
    | _, _ => none
  | c :: rest => if c = '%' then none else (decodeBytes? rest).map (String.utf8EncodeChar c ++ ·)

/-- The text that characters stand for. -/
def decode? (cs : List Char) : Option String :=
  (decodeBytes? cs).bind fun bytes => String.fromUTF8? ⟨bytes.toArray⟩

end LazyFrame.Text.Percent
