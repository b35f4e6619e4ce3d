/-
This file takes texts apart into octets, the bytes of their UTF-8 form. An octet is held as the
character with its code, so that texts of octets can be scanned, cut and compared like other
texts. Octets that are not the form of any text are read as far as they are; each one that is no
part of a character is shown by the replacement character.
-/

import AssetPipeline.Text.Basic

namespace AssetPipeline.Text

/-- The characters that bytes encode in UTF-8, if they do. -/
def ofBytes? (bytes : Bytes) : Option Text :=
  (String.fromUTF8? ⟨bytes.toArray⟩).map String.toList

/-- The bytes that encode a text in UTF-8. -/
def toBytes (text : Text) : Bytes := (String.ofList text).toUTF8.toList

def octetsOfBytes (bytes : Bytes) : Text := bytes.map fun byte => Char.ofNat byte.toNat

def bytesOfOctets (octets : Text) : Bytes := octets.map fun octet => octet.toNat.toUInt8

def octets (text : Text) : Text := octetsOfBytes text.toBytes

/-- What stands for bytes that are no part of a character. -/
def replacement : Char := '\uFFFD'

/-- The character at the front of bytes, and the number of bytes it takes. -/
def frontCharacter (bytes : Bytes) : Text × Nat :=
  let found := [1, 2, 3, 4].findSome? fun size =>
    (ofBytes? (bytes.take size)).map fun character => (character, size)
  found.getD ([replacement], 1)

/-- The text of bytes, character by character. -/
def ofBytesWithin : Nat → Bytes → Text
  | 0, _ => []
  | fuel + 1, bytes =>
    if bytes = [] then []
    else
      let (character, size) := frontCharacter bytes
      character ++ ofBytesWithin fuel (bytes.drop size)

def ofBytes (bytes : Bytes) : Text := (ofBytes? bytes).getD (ofBytesWithin bytes.length bytes)

def ofOctets (octets : Text) : Text := ofBytes (bytesOfOctets octets)

end AssetPipeline.Text
