/-
This file splits the parameter part of a command into its parameters.

Spaces separate parameters. A double quote opens a span in which spaces belong to the parameter;
the next double quote ends the span and the parameter with it. Quotes are never part of a
parameter, a quote that is never closed takes the rest of the line, and two quotes side by side
make an empty parameter. Blanks of any kind are skipped in front of a parameter.
-/

import AssetPipeline.Text.Blank

namespace AssetPipeline.Parameters

/-- Where the scan of a parameter text stands. -/
inductive Position where
  /-- In front of a parameter. -/
  | between
  /-- In a parameter that began with `word`. -/
  | inWord (word : Text)
  /-- In a quoted span of a parameter that began with `word`. -/
  | inQuotes (word : Text)
  deriving DecidableEq

def scan : Position → Text → List Text
  | .between, [] => []
  | .between, head :: rest =>
    if isBlank head then scan .between rest
    else if head = '"' then scan (.inQuotes []) rest
    else scan (.inWord [head]) rest
  | .inWord word, [] => [word]
  | .inWord word, head :: rest =>
    if head = ' ' then word :: scan .between rest
    else if head = '"' then scan (.inQuotes word) rest
    else scan (.inWord (word ++ [head])) rest
  | .inQuotes word, [] => [word]
  | .inQuotes word, head :: rest =>
    if head = '"' then word :: scan .between rest
    else scan (.inQuotes (word ++ [head])) rest

/-- The parameters written in a text. Blanks at either end of it do not count. -/
def split (raw : Text) : List Text := scan .between raw.trim

end AssetPipeline.Parameters
