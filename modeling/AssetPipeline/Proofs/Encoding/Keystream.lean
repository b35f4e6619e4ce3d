/-
This file says what the cipher does to whole data. The byte at each place is combined with the byte
of the key at that place, counted round the key, so data may be cut into pieces anywhere without a
difference, the encoded data is as long as the data, and encoding it once more gives it back. A
cipher that takes the pieces one after the other keeps the place in the key from piece to piece.
-/

import AssetPipeline.Encoding.Cipher

namespace AssetPipeline

namespace Key

/-- Data combined with a key that repeats, place by place, the first byte with the byte of the key
at `start`. -/
def maskFrom (key : Key) (start : Nat) (data : Bytes) : Bytes :=
  data.mapIdx fun place byte => byte ^^^ key.byteAt ((start + place) % keyLength)

/-- Data combined with a key that repeats, place by place. -/
def mask (key : Key) (data : Bytes) : Bytes :=
  data.mapIdx fun place byte => byte ^^^ key.byteAt (place % keyLength)

variable {key : Key}

theorem maskFrom_zero (data : Bytes) : key.maskFrom 0 data = key.mask data := by
  unfold maskFrom mask
  simp only [Nat.zero_add]

theorem maskFrom_cons (start : Nat) (byte : UInt8) (rest : Bytes) :
    key.maskFrom start (byte :: rest) =
      (byte ^^^ key.byteAt (start % keyLength)) :: key.maskFrom (start + 1) rest := by
  unfold maskFrom
  rw [List.mapIdx_cons, Nat.add_zero]
  simp only [Nat.add_assoc, Nat.add_comm 1]

theorem maskFrom_append (start : Nat) (first second : Bytes) :
    key.maskFrom start (first ++ second) =
      key.maskFrom start first ++ key.maskFrom (start + first.length) second := by
  unfold maskFrom
  rw [List.mapIdx_append]
  simp only [Nat.add_assoc, Nat.add_comm first.length]

theorem length_maskFrom (start : Nat) (data : Bytes) :
    (key.maskFrom start data).length = data.length :=
  List.length_mapIdx

theorem length_mask (data : Bytes) : (key.mask data).length = data.length :=
  List.length_mapIdx

/-- Combining twice with one key gives the data back. -/
theorem mask_mask (data : Bytes) : key.mask (key.mask data) = data := by
  unfold mask
  rw [List.mapIdx_mapIdx]
  refine List.ext_getElem? fun place => ?_
  rw [List.getElem?_mapIdx]
  cases data[place]? with
  | none => rfl
  | some byte =>
    have back : byte ^^^ key.byteAt (place % keyLength) ^^^ key.byteAt (place % keyLength) =
        byte := by
      rw [UInt8.xor_assoc, UInt8.xor_self, UInt8.xor_zero]
    exact congrArg some back

/-- A key that changes the first byte leaves no data as it is. -/
theorem eq_nil_of_mask_eq (changes : key.byteAt 0 ≠ 0) {data : Bytes}
    (same : key.mask data = data) : data = [] := by
  cases data with
  | nil => rfl
  | cons byte rest =>
    rw [← maskFrom_zero, maskFrom_cons] at same
    obtain ⟨first, -⟩ := List.cons.inj same
    rw [Nat.zero_mod] at first
    exact absurd ((UInt8.xor_right_inj byte).mp (first.trans UInt8.xor_zero.symm)) changes

theorem mask_injective : Function.Injective key.mask := fun first second same => by
  rw [← key.mask_mask first, same, mask_mask]

end Key

namespace Cipher

/-- A cipher goes on from its place in the key, and moves on by a byte for each byte. -/
theorem apply_eq (key : Key) (position : Nat) (data : Bytes) :
    (Cipher.mk key (position % keyLength)).apply data =
      (key.maskFrom position data, ⟨key, (position + data.length) % keyLength⟩) := by
  induction data generalizing position with
  | nil => rfl
  | cons byte rest inductionHypothesis =>
    have moved : (Cipher.mk key (position % keyLength)).next =
        ⟨key, (position + 1) % keyLength⟩ := by
      unfold next
      rw [Nat.mod_add_mod]
    unfold apply
    rw [moved, inductionHypothesis, Key.maskFrom_cons, List.length_cons, Nat.add_assoc,
      Nat.add_comm 1]

theorem encoding_eq_mask (key : Key) (data : Bytes) : encoding key data = key.mask data := by
  rw [← Key.maskFrom_zero]
  exact congrArg Prod.fst (apply_eq key 0 data)

/-! ### Data in pieces -/

theorem length_apply (cipher : Cipher) (data : Bytes) :
    (cipher.apply data).1.length = data.length := by
  induction data generalizing cipher with
  | nil => rfl
  | cons byte rest inductionHypothesis => exact congrArg (· + 1) (inductionHypothesis cipher.next)

/-- Each piece is as long when it is encoded. -/
theorem length_applyAll (cipher : Cipher) (chunks : List Bytes) :
    (cipher.applyAll chunks).1.map List.length = chunks.map List.length := by
  induction chunks generalizing cipher with
  | nil => rfl
  | cons chunk rest inductionHypothesis =>
    unfold applyAll
    rw [List.map_cons, List.map_cons, length_apply, inductionHypothesis]

/-- The key goes on from piece to piece as it does from byte to byte. -/
theorem applyAll_eq (key : Key) (position : Nat) (chunks : List Bytes) :
    ((Cipher.mk key (position % keyLength)).applyAll chunks).1.flatten =
        key.maskFrom position chunks.flatten ∧
      ((Cipher.mk key (position % keyLength)).applyAll chunks).2 =
        ⟨key, (position + chunks.flatten.length) % keyLength⟩ := by
  induction chunks generalizing position with
  | nil => exact ⟨rfl, rfl⟩
  | cons chunk rest inductionHypothesis =>
    obtain ⟨encoded, left⟩ := inductionHypothesis (position + chunk.length)
    unfold applyAll
    rw [apply_eq, List.flatten_cons, List.flatten_cons]
    dsimp only
    rw [encoded, left, Key.maskFrom_append, List.length_append, Nat.add_assoc]
    exact ⟨rfl, rfl⟩

theorem flatten_applyAll (key : Key) (chunks : List Bytes) :
    ((start key).applyAll chunks).1.flatten = key.mask chunks.flatten := by
  rw [← Key.maskFrom_zero]
  exact (applyAll_eq key 0 chunks).1

theorem applyAll_left (key : Key) (chunks : List Bytes) :
    ((start key).applyAll chunks).2 = ⟨key, chunks.flatten.length % keyLength⟩ := by
  have left := (applyAll_eq key 0 chunks).2
  rwa [Nat.zero_add] at left

/-- The cipher stands inside the key, also within a piece. -/
theorem position_lt (key : Key) (before : List Bytes) (part : Bytes) :
    (((start key).applyAll before).2.apply part).2.position < keyLength := by
  rw [applyAll_left, apply_eq]
  exact Nat.mod_lt _ (by decide)

/-- A cipher that encodes pieces one after the other stands inside the key before every byte, and in
the end as many bytes on as there were, counted round the key. The encoded pieces are those of the
data encoded as a whole. Encoded once more with the same key, cut into whatever pieces, they give
the data back. -/
theorem applyAll_carries_over (key : Key) (chunks : List Bytes) :
    let encoded := (start key).applyAll chunks
    (∀ before part, (((start key).applyAll before).2.apply part).2.position < keyLength) ∧
      encoded.2 = ⟨key, chunks.flatten.length % keyLength⟩ ∧
      encoded.1.map List.length = chunks.map List.length ∧
      encoded.1.flatten = ((start key).apply chunks.flatten).1 ∧
      ∀ others : List Bytes, others.flatten = encoded.1.flatten →
        ((start key).applyAll others).1.flatten = chunks.flatten := by
  intro encoded
  have whole : encoded.1.flatten = key.mask chunks.flatten := flatten_applyAll key chunks
  refine ⟨position_lt key, applyAll_left key chunks, length_applyAll _ chunks, ?_,
    fun others same => ?_⟩
  · rw [whole]
    exact (encoding_eq_mask key chunks.flatten).symm
  · rw [flatten_applyAll, same, whole, Key.mask_mask]

/-- The second piece is empty, and the third goes round the key. -/
theorem applyAll_carries_over_roundKey :
    let chunks : List Bytes := [[1, 2], [], List.replicate 18 7]
    let encoded := (start .standard).applyAll chunks
    let others := [encoded.1.flatten.take 5, encoded.1.flatten.drop 5]
    encoded.2 = ⟨.standard, 1⟩ ∧ others.flatten = encoded.1.flatten ∧
      ((start .standard).applyAll others).1.flatten = chunks.flatten := by
  intro chunks encoded others
  obtain ⟨-, left, -, -, back⟩ := applyAll_carries_over .standard chunks
  have same : others.flatten = encoded.1.flatten := by decide +kernel
  exact ⟨left.trans (by decide +kernel), same, back others same⟩

end Cipher

end AssetPipeline
