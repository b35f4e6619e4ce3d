/-
This file writes text in double quotes, for messages that have to show exactly what a text holds.
Quotes and backslashes get a backslash, the common controls their short escapes, and every other
character that cannot be seen on its own its code in braces.
-/

import AssetPipeline.Text.Basic
import AssetPipeline.Text.Visible

namespace AssetPipeline.Text

/-- A character as it stands between the quotes. -/
def escape (character : Char) : Text :=
  if character = '\x00' then ['\\', '0']
  else if character = '\t' then ['\\', 't']
  else if character = '\r' then ['\\', 'r']
  else if character = '\n' then ['\\', 'n']
  else if character = '"' then ['\\', '"']
  else if character = '\\' then ['\\', '\\']
  else if Unicode.isExtending character || Unicode.isInvisible character then
    ['\\', 'u', '{'] ++ Nat.toDigits 16 character.toNat ++ ['}']
  else [character]

def quoted (text : Text) : Text := '"' :: text.flatMap escape ++ ['"']

end AssetPipeline.Text
