import DebugBridge.Text.Hex
import DebugBridge.Text.Unprintable

/-!
# Text/Quoted — texts as they stand in messages

A quoted text stands between double quotes. The quote and the backslash follow a backslash, the
common controls have letters of their own, and an unprintable character is given by its code in
hexadecimal digits between braces. An apostrophe needs no escape.
-/

namespace DebugBridge

namespace Text

/-- A character as it stands in a quoted text. -/
def quotedChar (c : Char) : List Char :=
  match c with
  | '"' => ['\\', '"']
  | '\\' => ['\\', '\\']
  | '\t' => ['\\', 't']
  | '\r' => ['\\', 'r']
  | '\n' => ['\\', 'n']
  | '\x00' => ['\\', '0']
  | c =>
    if isUnprintable c then ['\\', 'u', '\x7b'] ++ Hex.ofNat c.toNat ++ ['\x7d'] else [c]

/-- A text between double quotes, with what is not plain in it escaped. -/
def quoted (text : String) : String :=
  String.ofList ('"' :: text.toList.flatMap quotedChar ++ ['"'])

end Text

end DebugBridge
