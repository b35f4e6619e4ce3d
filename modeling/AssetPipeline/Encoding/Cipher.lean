/-
This file holds the cipher that data files are encoded with: every byte is combined by exclusive
or with the next byte of a key that repeats for ever. The place in the key goes on from one piece
of data to the next, so it does not matter how data is cut into pieces. Encoding twice with one
key gives back the data.
-/

import AssetPipeline.Text.Basic

namespace AssetPipeline

/-- The number of bytes of a key. -/
def keyLength : Nat := 19

/-- A key. -/
structure Key where
  bytes : Bytes
  length_bytes : bytes.length = keyLength
  deriving DecidableEq

namespace Key

/-- The key that game clients know. -/
def standard : Key where
  bytes := [240, 59, 117, 142, 148, 192, 244, 244, 25, 47, 54, 229, 223, 162, 66, 201, 28, 251, 16]
  length_bytes := rfl

/-- The key of these bytes, if there are as many as a key has. -/
def ofBytes? (bytes : Bytes) : Option Key :=
  if length : bytes.length = keyLength then some ⟨bytes, length⟩ else none

def byteAt (key : Key) (position : Nat) : UInt8 := key.bytes.getD position 0

/-- A key from the next bytes of a source of random bytes, and what is left of it. -/
def generate? (random : Bytes) : Option (Key × Bytes) :=
  (ofBytes? (random.take keyLength)).map fun key => (key, random.drop keyLength)

/-- The bytes of a key as a list of numbers, each followed by a comma and a space. -/
def render (bytes : Bytes) : Text :=
  bytes.flatMap fun byte => (toString byte.toNat).toList ++ [',', ' ']

end Key

/-- A cipher in use: the key, and the place of the next byte in it. -/
structure Cipher where
  key : Key
  position : Nat
  deriving DecidableEq

namespace Cipher

def start (key : Key) : Cipher := ⟨key, 0⟩

/-- The cipher after one byte. -/
def next (cipher : Cipher) : Cipher := ⟨cipher.key, (cipher.position + 1) % keyLength⟩

/-- Encode bytes, and go on with the cipher behind them. -/
def apply (cipher : Cipher) : Bytes → Bytes × Cipher
  | [] => ([], cipher)
  | byte :: rest =>
    let encoded := cipher.next.apply rest
    ((byte ^^^ cipher.key.byteAt cipher.position) :: encoded.1, encoded.2)

/-- Encode pieces one after the other. -/
def applyAll (cipher : Cipher) : List Bytes → List Bytes × Cipher
  | [] => ([], cipher)
  | chunk :: rest =>
    let first := cipher.apply chunk
    let others := first.2.applyAll rest
    (first.1 :: others.1, others.2)

/-- The encoded form of whole data. -/
def encoding (key : Key) (data : Bytes) : Bytes := ((start key).apply data).1

end Cipher

end AssetPipeline
