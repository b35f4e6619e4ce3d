/-
This file says which characters are blank and trims them. Blank is Unicode's property
`White_Space`: the ASCII blanks, the next line and no-break space, and the spaces and separators
of the general punctuation and ideographic blocks. Every character that core counts as
whitespace is blank.
-/

import AssetPipeline.Text.Basic

namespace AssetPipeline

/-- The characters with the Unicode property `White_Space`. -/
def isBlank (character : Char) : Bool :=
  let code := character.toNat
  (9 ≤ code && code ≤ 13) || code == 0x20 || code == 0x85 || code == 0xA0 || code == 0x1680 ||
    (0x2000 ≤ code && code ≤ 0x200A) || code == 0x2028 || code == 0x2029 || code == 0x202F ||
    code == 0x205F || code == 0x3000

theorem isBlank_space : isBlank ' ' = true := rfl

namespace Text

/-- Without the blanks at the front. -/
def trimStart (text : Text) : Text := text.dropWhile isBlank

def trimEnd (text : Text) : Text := (text.reverse.dropWhile isBlank).reverse

/-- Without the blanks at either end. -/
def trim (text : Text) : Text := trimEnd (trimStart text)

end Text

end AssetPipeline
