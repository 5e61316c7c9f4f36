import MethodPack.Number.Digits
import MethodPack.Text.Hidden

/-! Quoted text: between double quotes, with a backslash before a quote or a
backslash, short names for four controls, and the number of every other hidden
character. Each character is written on its own, whatever stands next to it. -/
namespace MethodPack.Text

/-- The quoted form of one character. -/
def quoteChar (c : Char) : String :=
  match c with
  | '"' => "\\\""
  | '\\' => "\\\\"
  | '\n' => "\\n"
  | '\r' => "\\r"
  | '\t' => "\\t"
  | '\x00' => "\\0"
  | c => if isHidden c then "\\u\x7b" ++ Number.hex c.toNat ++ "\x7d" else c.toString

/-- The quoted form of a text. -/
def quote (s : String) : String := "\"" ++ String.join (s.toList.map quoteChar) ++ "\""

end MethodPack.Text
