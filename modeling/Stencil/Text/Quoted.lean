import Stencil.Text.Hex
import Stencil.Text.Printable

/-! Texts in double quotes, as messages show them: `"`, `\` and the usual controls by a letter, every other
character that is not printable by its number, and the rest as they are. -/

namespace Stencil.Text

def quoteChar (c : Char) : String :=
  match c with
  | '"' => "\\\""
  | '\\' => "\\\\"
  | '\n' => "\\n"
  | '\r' => "\\r"
  | '\t' => "\\t"
  | '\x00' => "\\0"
  | c => if isPrintable c then c.toString else "\\u\x7b" ++ hex c.toNat ++ "\x7d"

def quote (s : String) : String := "\"" ++ String.join (s.toList.map quoteChar) ++ "\""

example : quote "a'\"\n\u200b" = "\"a'\\\"\\n\\u\x7b200b\x7d\"" := by decide +kernel

end Stencil.Text
