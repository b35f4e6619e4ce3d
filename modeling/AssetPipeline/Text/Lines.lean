/-
This file cuts a text into lines. A line ends at a line feed; a carriage return right before the
line feed belongs to the line end, any other carriage return belongs to the line. A text that
ends with a line feed has no empty line after it.
-/

import AssetPipeline.Text.Basic

namespace AssetPipeline.Text

/-- A line as it stood before its line feed, without the carriage return of the line end. -/
def dropReturn (line : Text) : Text :=
  if line.getLast? = some '\r' then line.dropLast else line

/-- The lines of the text whose first characters, already read, are `current`. -/
def linesFrom (current : Text) : Text → List Text
  | [] => if current = [] then [] else [current]
  | head :: rest =>
    if head = '\n' then dropReturn current :: linesFrom [] rest
    else linesFrom (current ++ [head]) rest

def lines (text : Text) : List Text := linesFrom [] text

end AssetPipeline.Text
