/-
This file reads printed keys. A printed key is a list of decimal numbers with a comma and a space
behind each. Cut at the commas it falls into the numbers again, with a space in front of all but the
first and a piece without a number at the end, and a number says which byte it stands for. So every
list of bytes comes back from its print, whatever its length, and no two lists print alike.
-/

import AssetPipeline.Encoding.Cipher
import AssetPipeline.Proofs.Text.Pieces
import AssetPipeline.Proofs.Text.Trimming

namespace AssetPipeline

/-! ### Decimal numbers -/

/-- The number that a text writes in decimal digits. There has to be a digit, and nothing else. -/
def Text.decimal? (text : Text) : Option Nat :=
  if !text.isEmpty && text.all Char.isDigit then some (Nat.ofDigitChars 10 text 0) else none

theorem isDigit_of_mem_toDigits {number : Nat} {character : Char}
    (member : character ∈ Nat.toDigits 10 number) : character.isDigit = true :=
  Nat.isDigit_of_mem_toDigits (by decide) (Nat.le_refl 10) member

theorem Text.decimal?_toDigits (number : Nat) :
    Text.decimal? (Nat.toDigits 10 number) = some number := by
  have digits : (Nat.toDigits 10 number).all Char.isDigit = true :=
    List.all_eq_true.mpr fun _ => isDigit_of_mem_toDigits
  have there : (Nat.toDigits 10 number).isEmpty = false :=
    List.isEmpty_eq_false_iff.mpr Nat.toDigits_ne_nil
  unfold decimal?
  rw [digits, there, Nat.ofDigitChars_ten_toDigits]
  rfl

theorem isBlank_of_isDigit {character : Char} (digit : character.isDigit = true) :
    isBlank character = false := by
  have code : 48 ≤ character.toNat ∧ character.toNat ≤ 57 := by
    simpa [Char.isDigit, UInt32.le_iff_toNat_le] using digit
  unfold isBlank
  simp only [Bool.or_eq_false_iff, Bool.and_eq_false_imp, decide_eq_true_eq,
    decide_eq_false_iff_not, beq_eq_false_iff_ne]
  omega

namespace Key

/-! ### Printed bytes -/

/-- The digits of a byte. -/
def digits (byte : UInt8) : Text := Nat.toDigits 10 byte.toNat

/-- The byte whose number a text writes. -/
def byteOf? (piece : Text) : Option UInt8 :=
  piece.decimal?.bind fun number => if number < 256 then some (UInt8.ofNat number) else none

/-- The pieces of a printed key that have something in them: what stands between two commas, without
the blanks around it. -/
def piecesOf (text : Text) : List Text :=
  ((Text.splitOn ',' text).map Text.trim).filter (· != [])

/-- The bytes of a printed key. -/
def read? (text : Text) : Option Bytes := (piecesOf text).mapM byteOf?

theorem byteOf?_digits (byte : UInt8) : byteOf? (digits byte) = some byte := by
  unfold byteOf? digits
  rw [Text.decimal?_toDigits, Option.bind_some, if_pos byte.toNat_lt, UInt8.ofNat_toNat]

theorem render_cons (byte : UInt8) (rest : Bytes) :
    render (byte :: rest) = digits byte ++ ',' :: ' ' :: render rest := by
  simp [render, digits]

theorem render_append (first second : Bytes) :
    render (first ++ second) = render first ++ render second :=
  List.flatMap_append

/-! ### Reading -/

theorem trim_digits (byte : UInt8) : (digits byte).trim = digits byte :=
  Text.trim_eq_self
    (fun _ first => isBlank_of_isDigit (isDigit_of_mem_toDigits (List.mem_of_head? first)))
    fun _ last => isBlank_of_isDigit (isDigit_of_mem_toDigits (List.mem_of_getLast? last))

/-- The pieces of a printed key are the digits of its bytes, also behind blanks such as the space
that stands between a byte and the comma before. -/
theorem piecesOf_append_render {blanks : Text}
    (blank : ∀ character ∈ blanks, isBlank character = true) (bytes : Bytes) :
    piecesOf (blanks ++ render bytes) = bytes.map digits := by
  induction bytes generalizing blanks with
  | nil =>
    have uncut : ',' ∉ blanks := fun member => absurd (blank ',' member) (by decide)
    have nothing : Text.trim blanks = [] := by
      rw [← List.append_nil blanks, Text.trim_blanks_append blank]
      rfl
    rw [render, List.flatMap_nil, List.append_nil]
    unfold piecesOf
    rw [Text.splitOn_of_not_mem uncut]
    simp [nothing]
  | cons byte rest inductionHypothesis =>
    have uncut : ',' ∉ blanks ++ digits byte := by
      rw [List.mem_append, not_or]
      exact ⟨fun member => absurd (blank ',' member) (by decide),
        fun member => absurd (isDigit_of_mem_toDigits member) (by decide)⟩
    have there : digits byte ≠ [] := Nat.toDigits_ne_nil
    have others : piecesOf ([' '] ++ render rest) = rest.map digits :=
      inductionHypothesis fun _ member => List.mem_singleton.mp member ▸ isBlank_space
    have spaced : ' ' :: render rest = [' '] ++ render rest := rfl
    rw [render_cons, ← List.append_assoc, spaced]
    unfold piecesOf at others ⊢
    rw [Text.splitOn_append_cons, Text.splitOn_of_not_mem uncut, List.map_append,
      List.filter_append, others, List.map_singleton, Text.trim_blanks_append blank, trim_digits]
    simp [there]

theorem mapM_byteOf?_digits (bytes : Bytes) : (bytes.map digits).mapM byteOf? = some bytes := by
  induction bytes with
  | nil => rfl
  | cons byte rest inductionHypothesis =>
    rw [List.map_cons, List.mapM_cons, byteOf?_digits, inductionHypothesis]
    rfl

theorem read?_render (bytes : Bytes) : read? (render bytes) = some bytes := by
  have pieces := @piecesOf_append_render [] nofun bytes
  rw [List.nil_append] at pieces
  unfold read?
  rw [pieces, mapM_byteOf?_digits]

/-- A printed list of bytes is read back as it was, at any length. So no two lists print alike, and
lists that are put together print as their prints do. -/
theorem print_reads_back :
    (∀ bytes, read? (render bytes) = some bytes) ∧
      Function.Injective render ∧
      ∀ first second, render (first ++ second) = render first ++ render second := by
  refine ⟨read?_render, fun first second same => ?_, render_append⟩
  have both : some first = some second := by
    rw [← read?_render first, same, read?_render]
  exact Option.some.inj both

example : render [7, 42, 255] = "7, 42, 255, ".toList := by decide +kernel

end Key

end AssetPipeline
