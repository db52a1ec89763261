/-!
# Quoted text

The inspection form of texts and characters: quotes around, the usual escapes
for the quote itself, backslash and line controls, and code points for the
other control characters.
-/

namespace MultiDispatch.Text

def isControl (character : Char) : Bool :=
  character.toNat < 0x20 || (0x7F ≤ character.toNat && character.toNat < 0xA0)

def escapeWithin (quote character : Char) : List Char :=
  match character with
  | '\x00' => ['\\', '0']
  | '\t' => ['\\', 't']
  | '\r' => ['\\', 'r']
  | '\n' => ['\\', 'n']
  | '\\' => ['\\', '\\']
  | _ =>
      if character = quote then ['\\', quote]
      else if isControl character then
        ['\\', 'u', '\x7b'] ++ Nat.toDigits 16 character.toNat ++ ['\x7d']
      else [character]

def quoted (text : String) : String :=
  String.ofList ('"' :: text.toList.flatMap (escapeWithin '"') ++ ['"'])

def quotedChar (character : Char) : String :=
  String.ofList ('\'' :: escapeWithin '\'' character ++ ['\''])

end MultiDispatch.Text
