import RegisterTransfer.Text.Printable
set_option autoImplicit false

/-!
# Quoted text

A text in double quotes on one line of printable characters.  The quote, the backslash and the
seven control characters with a name of their own are escaped by a letter; other control
characters of ASCII by two hexadecimal digits; what else is not printable by its code point.
-/

namespace RegisterTransfer.Text

/-- A number in lower-case hexadecimal digits, padded with zeros to a width. -/
def hexadecimal (width n : Nat) : String :=
  let digits := Nat.toDigits 16 n
  String.ofList (List.replicate (width - digits.length) '0' ++ digits)

/-- A character as it stands between double quotes. -/
def quotedChar (c : Char) : String :=
  if c = '"' then "\\\""
  else if c = '\\' then "\\\\"
  else if isPrintable c then c.toString
  else
    match c.toNat with
    | 0x07 => "\\a"
    | 0x08 => "\\b"
    | 0x0C => "\\f"
    | 0x0A => "\\n"
    | 0x0D => "\\r"
    | 0x09 => "\\t"
    | 0x0B => "\\v"
    | n =>
      if n < 0x20 ∨ n = 0x7F then "\\x" ++ hexadecimal 2 n
      else if n < 0x10000 then "\\u" ++ hexadecimal 4 n
      else "\\U" ++ hexadecimal 8 n

/-- A text in double quotes. -/
def quoted (s : String) : String := "\"" ++ String.join (s.toList.map quotedChar) ++ "\""

end RegisterTransfer.Text
