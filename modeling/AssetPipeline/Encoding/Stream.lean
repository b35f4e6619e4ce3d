/-
This file encodes a stream. A reader gives the data piece by piece: a read may be interrupted, in
which case it is simply tried again, and it may fail. A writer takes the encoded data; it may take
less than it is offered at a time, and it may have room for so much and no more. Encoding reads a
piece of at most a thousand and twenty-four bytes, encodes it, writes all of it, and goes on until
the reader has no more.
-/

import AssetPipeline.Encoding.Cipher

namespace AssetPipeline

/-- What one read gives. -/
inductive Read (Failure : Type) where
  /-- These bytes. No bytes at all are the end. -/
  | bytes (data : Bytes)
  /-- Nothing this time. -/
  | interrupted
  | failed (failure : Failure)
  deriving DecidableEq

/-- A writer: what it took so far, how much it takes at a time, and how much it has room for. -/
structure Writer (Failure : Type) where
  taken : Bytes
  /-- The most that the writer takes, write by write; afterwards it takes all it is offered. -/
  portions : List Nat
  /-- How many bytes more it takes, and how it fails then; without a limit it never fails. -/
  room? : Option (Nat × Failure)

namespace Writer

variable {Failure : Type}

/-- A writer that has taken nothing and takes everything. -/
def unlimited : Writer Failure := ⟨[], [], none⟩

/-- The most the writer takes of `offered` bytes in one write. -/
def portion (writer : Writer Failure) (offered : Nat) : Nat :=
  let wanted := min offered ((writer.portions.head?.map (max 1)).getD offered)
  match writer.room? with
  | none => wanted
  | some (room, _) => min wanted room

/-- One write of some bytes: how many of them the writer took. -/
def write (writer : Writer Failure) (data : Bytes) : Except Failure (Nat × Writer Failure) :=
  match writer.room? with
  | some (0, failure) => .error failure
  | _ =>
    let count := writer.portion data.length
    .ok (count, {
      taken := writer.taken ++ data.take count
      portions := writer.portions.drop 1
      room? := writer.room?.map fun (room, failure) => (room - count, failure) })

/-- Write everything, in as many writes as it takes. Every write takes at least a byte, so
there are no more writes than bytes. -/
def writeWithin : Nat → Writer Failure → Bytes → Writer Failure × Except Failure Unit
  | _, writer, [] => (writer, .ok ())
  | 0, writer, _ :: _ => (writer, .ok ())
  | fuel + 1, writer, data@(_ :: _) =>
    match writer.write data with
    | .error failure => (writer, .error failure)
    | .ok (count, writer) => writeWithin fuel writer (data.drop count)

def writeAll (writer : Writer Failure) (data : Bytes) : Writer Failure × Except Failure Unit :=
  writeWithin data.length writer data

end Writer

namespace Stream

variable {Failure : Type}

/-- The most that is read at a time. -/
def portionSize : Nat := 1024

/-- Data in pieces that fit the buffer. -/
def fittingWithin : Nat → Bytes → List Bytes
  | 0, data => [data]
  | fuel + 1, data =>
    if data.length ≤ portionSize then [data]
    else data.take portionSize :: fittingWithin fuel (data.drop portionSize)

/-- The reads as they arrive: what does not fit the buffer comes with the next read. -/
def fit (reads : List (Read Failure)) : List (Read Failure) :=
  reads.flatMap fun
    | .bytes data => (fittingWithin data.length data).map .bytes
    | read => [read]

/-- Encode what is read, from this state of cipher and writer on, `total` bytes having been read
so far. Answers with the writer and the number of bytes, or the failure. A count of sixty-four bits
holds the number as long as there are fewer than 2 ^ 64 bytes. -/
def encodeFrom (cipher : Cipher) (writer : Writer Failure) (total : Nat) :
    List (Read Failure) → Writer Failure × Except Failure Nat
  | [] => (writer, .ok total)
  | .interrupted :: rest => encodeFrom cipher writer total rest
  | .failed failure :: _ => (writer, .error failure)
  | .bytes [] :: _ => (writer, .ok total)
  | .bytes data@(_ :: _) :: rest =>
    let encoded := cipher.apply data
    match writer.writeAll encoded.1 with
    | (writer, .error failure) => (writer, .error failure)
    | (writer, .ok ()) => encodeFrom encoded.2 writer (total + data.length) rest

def encode (key : Key) (reads : List (Read Failure)) (writer : Writer Failure) :
    Writer Failure × Except Failure Nat :=
  encodeFrom (.start key) writer 0 (fit reads)

end Stream

end AssetPipeline
