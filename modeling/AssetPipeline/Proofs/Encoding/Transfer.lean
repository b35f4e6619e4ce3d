/-
This file says what becomes of a stream under any behaviour of its reader and its writer. The
reader delivers data up to its end or its first failure, cut as it likes and with interruptions
anywhere; the writer takes it in portions as it likes, up to its limit. The key is moved on by a
byte for each byte delivered, so what has been written is always a beginning of the delivered data
in its encoded form, and all of it when the writer does not fail. To say that nothing is read once
the writer has failed, the encoder is followed together with the reads it leaves over.
-/

import AssetPipeline.Encoding.Stream
import AssetPipeline.Proofs.Encoding.Keystream

namespace AssetPipeline

variable {Failure : Type}

namespace Writer

/-- There is room for all of the data. -/
def Accepts (writer : Writer Failure) (data : Bytes) : Prop :=
  ∀ room failure, writer.room? = some (room, failure) → data.length ≤ room

/-- A writer after some data: it has taken the data, and has as much less room. -/
structure After (writer later : Writer Failure) (data : Bytes) : Prop where
  taken : later.taken = writer.taken ++ data
  room? : later.room? = writer.room?.map fun (room, failure) => (room - data.length, failure)

theorem After.refl (writer : Writer Failure) : After writer writer [] where
  taken := (List.append_nil _).symm
  room? := by cases writer.room? <;> rfl

theorem After.trans {writer between later : Writer Failure} {first second : Bytes}
    (one : After writer between first) (two : After between later second) :
    After writer later (first ++ second) where
  taken := by rw [two.taken, one.taken, List.append_assoc]
  room? := by
    rw [two.room?, one.room?, Option.map_map, List.length_append]
    simp only [Function.comp_def, Nat.sub_sub]

theorem After.room?_eq_some {writer later : Writer Failure} {data : Bytes} {left : Nat}
    {failure : Failure} (after : After writer later data) (accepted : writer.Accepts data)
    (limited : later.room? = some (left, failure)) :
    writer.room? = some (data.length + left, failure) := by
  rw [after.room?, Option.map_eq_some_iff] at limited
  obtain ⟨⟨room, other⟩, before, same⟩ := limited
  obtain ⟨rfl, rfl⟩ := Prod.mk.inj same
  rw [before, Nat.add_sub_cancel' (accepted room other before)]

theorem Accepts.append {writer later : Writer Failure} {first second : Bytes}
    (accepted : writer.Accepts first) (after : After writer later first)
    (more : later.Accepts second) : writer.Accepts (first ++ second) := by
  intro room failure limited
  have fits := accepted room failure limited
  have left := more (room - first.length) failure (by rw [after.room?, limited]; rfl)
  rw [List.length_append]
  omega

/-- What the encoded data comes to when the writer has no room for it: the writer has failed, and
has taken as much as it had room for. -/
structure Full (writer later : Writer Failure) (data : Bytes) (room : Nat) (failure : Failure) :
    Prop where
  limit : writer.room? = some (room, failure)
  short : room < data.length
  taken : later.taken = writer.taken ++ data.take room

theorem Full.append {writer between later : Writer Failure} {first second : Bytes} {room : Nat}
    {failure : Failure} (after : After writer between first) (accepted : writer.Accepts first)
    (full : Full between later second room failure) :
    Full writer later (first ++ second) (first.length + room) failure where
  limit := after.room?_eq_some accepted full.limit
  short := by
    have := full.short
    rw [List.length_append]
    omega
  taken := by
    rw [full.taken, after.taken, List.append_assoc, List.take_length_add_append]

theorem Full.of_isPrefix {writer later : Writer Failure} {first second : Bytes} {room : Nat}
    {failure : Failure} (full : Full writer later first room failure) :
    Full writer later (first ++ second) room failure where
  limit := full.limit
  short := Nat.lt_of_lt_of_le full.short (List.length_append ▸ Nat.le_add_right _ _)
  taken := by rw [full.taken, List.take_append_of_le_length (Nat.le_of_lt full.short)]

theorem Full.not_accepts {writer later : Writer Failure} {data : Bytes} {room : Nat}
    {failure : Failure} (full : Full writer later data room failure) : ¬ writer.Accepts data :=
  fun accepts => absurd (accepts room failure full.limit) (Nat.not_le_of_gt full.short)

/-! ### Writing everything -/

/-- A write that does not fail takes at least a byte, and no more than there is room for. -/
theorem write_ok {writer later : Writer Failure} {data : Bytes} {count : Nat} (given : data ≠ [])
    (written : writer.write data = .ok (count, later)) :
    0 < count ∧ After writer later (data.take count) ∧ writer.Accepts (data.take count) := by
  have long := List.length_pos_iff.mpr given
  have wanted : 0 < min data.length ((writer.portions.head?.map (max 1)).getD data.length) := by
    cases writer.portions.head? with
    | none => simpa using long
    | some portion =>
      simp only [Option.map_some, Option.getD_some]
      omega
  unfold write at written
  split at written
  · cases written
  next unfailed =>
  obtain ⟨rfl, rfl⟩ := Prod.mk.inj (Except.ok.inj written)
  obtain ⟨some, within, fits⟩ : 0 < writer.portion data.length ∧
      writer.portion data.length ≤ data.length ∧
      ∀ room failure, writer.room? = .some (room, failure) →
        writer.portion data.length ≤ room := by
    unfold portion
    rcases limit : writer.room? with _ | ⟨room, failure⟩
    · exact ⟨wanted, Nat.min_le_left _ _, fun _ _ same => nomatch same⟩
    · have unfilled : room ≠ 0 := fun full => unfailed failure (full ▸ limit)
      refine ⟨by dsimp only; omega, by dsimp only; omega, fun other _ same => ?_⟩
      obtain ⟨rfl, -⟩ := Prod.mk.inj (Option.some.inj same)
      exact Nat.min_le_right _ _
  have length : (data.take (writer.portion data.length)).length = writer.portion data.length :=
    List.length_take_of_le within
  refine ⟨some, ⟨rfl, ?_⟩, fun room failure limited => ?_⟩
  · rw [length]
  · rw [length]
    exact fits room failure limited

/-- Writing everything takes all of the data where there is room for it. Else the writer fails with
as much of the data as it had room for. -/
theorem writeWithin_cases {fuel : Nat} {data : Bytes} (enough : data.length ≤ fuel)
    (writer : Writer Failure) :
    (writer.Accepts data ∧ (writeWithin fuel writer data).2 = .ok () ∧
        After writer (writeWithin fuel writer data).1 data) ∨
      ∃ room failure, (writeWithin fuel writer data).2 = .error failure ∧
        Full writer (writeWithin fuel writer data).1 data room failure := by
  induction fuel generalizing data writer with
  | zero =>
    obtain rfl := List.length_eq_zero_iff.mp (Nat.le_zero.mp enough)
    exact Or.inl ⟨fun _ _ _ => Nat.zero_le _, rfl, .refl writer⟩
  | succ fuel inductionHypothesis =>
    cases data with
    | nil => exact Or.inl ⟨fun _ _ _ => Nat.zero_le _, rfl, .refl writer⟩
    | cons head tail =>
      unfold writeWithin
      cases written : writer.write (head :: tail) with
      | error failure =>
        dsimp only
        unfold write at written
        split at written
        · next limit =>
          obtain rfl := Except.error.inj written
          exact Or.inr ⟨0, _, rfl, limit, Nat.zero_lt_succ _, (List.append_nil _).symm⟩
        · cases written
      | ok answer =>
        obtain ⟨count, between⟩ := answer
        dsimp only
        obtain ⟨some, after, accepted⟩ := write_ok (List.cons_ne_nil head tail) written
        have shorter : ((head :: tail).drop count).length ≤ fuel := by
          rw [List.length_drop]
          omega
        have whole := List.take_append_drop count (head :: tail)
        rcases inductionHypothesis shorter between with
          ⟨more, done, rest⟩ | ⟨room, failure, failed, full⟩
        · have fits := accepted.append after more
          have both := after.trans rest
          rw [whole] at fits both
          exact Or.inl ⟨fits, done, both⟩
        · have both := full.append after accepted
          rw [whole] at both
          exact Or.inr ⟨_, failure, failed, both⟩

theorem writeAll_cases (writer : Writer Failure) (data : Bytes) :
    (writer.Accepts data ∧ (writer.writeAll data).2 = .ok () ∧
        After writer (writer.writeAll data).1 data) ∨
      ∃ room failure, (writer.writeAll data).2 = .error failure ∧
        Full writer (writer.writeAll data).1 data room failure :=
  writeWithin_cases (Nat.le_refl _) writer

end Writer

namespace Stream

/-! ### What a reader delivers -/

/-- The data that reads deliver, up to the end or the first failure. -/
def delivered : List (Read Failure) → Bytes
  | [] => []
  | .interrupted :: rest => delivered rest
  | .failed _ :: _ => []
  | .bytes [] :: _ => []
  | .bytes data@(_ :: _) :: rest => data ++ delivered rest

/-- How reads end: with a failure, or with the end of the data. -/
def failure? : List (Read Failure) → Option Failure
  | [] => none
  | .interrupted :: rest => failure? rest
  | .failed failure :: _ => some failure
  | .bytes [] :: _ => none
  | .bytes (_ :: _) :: rest => failure? rest

theorem delivered_bytes {data : Bytes} (given : data ≠ []) (rest : List (Read Failure)) :
    delivered (.bytes data :: rest) = data ++ delivered rest := by
  cases data with
  | nil => exact absurd rfl given
  | cons head tail => rfl

theorem failure?_bytes {data : Bytes} (given : data ≠ []) (rest : List (Read Failure)) :
    failure? (.bytes data :: rest) = failure? rest := by
  cases data with
  | nil => exact absurd rfl given
  | cons head tail => rfl

/-- Data that is not empty is delivered the same in pieces that fit the buffer. -/
theorem delivered_fittingWithin (fuel : Nat) {data : Bytes} (given : data ≠ [])
    (rest : List (Read Failure)) :
    delivered ((fittingWithin fuel data).map .bytes ++ rest) = data ++ delivered rest ∧
      failure? ((fittingWithin fuel data).map .bytes ++ rest) = failure? rest := by
  induction fuel generalizing data with
  | zero => exact ⟨delivered_bytes given rest, failure?_bytes given rest⟩
  | succ fuel inductionHypothesis =>
    unfold fittingWithin
    split
    · exact ⟨delivered_bytes given rest, failure?_bytes given rest⟩
    next long =>
    have long := Nat.lt_of_not_le long
    have first : data.take portionSize ≠ [] := by
      simp [portionSize, given]
    have later : data.drop portionSize ≠ [] := by
      simpa [portionSize, List.drop_eq_nil_iff] using long
    obtain ⟨sameData, sameFailure⟩ := inductionHypothesis later
    rw [List.map_cons, List.cons_append, delivered_bytes first, failure?_bytes first, sameData,
      sameFailure, ← List.append_assoc, List.take_append_drop]
    exact ⟨rfl, rfl⟩

/-- Cutting reads to the size of the buffer changes nothing of what is delivered. -/
theorem delivered_fit (reads : List (Read Failure)) :
    delivered (fit reads) = delivered reads ∧ failure? (fit reads) = failure? reads := by
  induction reads with
  | nil => exact ⟨rfl, rfl⟩
  | cons read rest inductionHypothesis =>
    cases read with
    | interrupted => exact inductionHypothesis
    | failed failure => exact ⟨rfl, rfl⟩
    | bytes data =>
      by_cases given : data = []
      · subst given
        exact ⟨rfl, rfl⟩
      · obtain ⟨same, sameEnd⟩ := delivered_fittingWithin data.length given (fit rest)
        rw [delivered_bytes given, failure?_bytes given, ← inductionHypothesis.1,
          ← inductionHypothesis.2]
        exact ⟨same, sameEnd⟩

/-! ### The reads that are left over -/

/-- Where a stream stands when its encoding has stopped: the writer, the reads that were not taken,
and the number of bytes or the failure. -/
structure Stop (Failure : Type) where
  writer : Writer Failure
  unread : List (Read Failure)
  result : Except Failure Nat

/-- Encoding that keeps the reads it does not take. -/
def stopFrom (cipher : Cipher) (writer : Writer Failure) (total : Nat) :
    List (Read Failure) → Stop Failure
  | [] => ⟨writer, [], .ok total⟩
  | .interrupted :: rest => stopFrom cipher writer total rest
  | .failed failure :: rest => ⟨writer, rest, .error failure⟩
  | .bytes [] :: rest => ⟨writer, rest, .ok total⟩
  | .bytes data@(_ :: _) :: rest =>
    let encoded := cipher.apply data
    match writer.writeAll encoded.1 with
    | (writer, .error failure) => ⟨writer, rest, .error failure⟩
    | (writer, .ok ()) => stopFrom encoded.2 writer (total + data.length) rest

/-- It is the same encoding. -/
theorem encodeFrom_eq_stopFrom (cipher : Cipher) (writer : Writer Failure) (total : Nat)
    (reads : List (Read Failure)) : encodeFrom cipher writer total reads =
      ((stopFrom cipher writer total reads).writer,
        (stopFrom cipher writer total reads).result) := by
  induction reads generalizing cipher writer total with
  | nil => rfl
  | cons read rest inductionHypothesis =>
    rcases read with (_ | ⟨head, tail⟩) | _ | failure
    · rfl
    · unfold encodeFrom stopFrom
      dsimp only
      rcases writer.writeAll (cipher.apply (head :: tail)).1 with ⟨later, failure | done⟩
      · rfl
      · exact inductionHypothesis _ _ _
    · exact inductionHypothesis _ _ _
    · rfl

/-- The reads up to the one that the writer had no room for, and those that were not taken. -/
def Overflows (reads unread : List (Read Failure)) (room : Nat) : Prop :=
  ∃ before data, reads = before ++ .bytes data :: unread ∧ (delivered before).length ≤ room ∧
    room < (delivered (before ++ [.bytes data])).length

theorem Overflows.cons {reads unread : List (Read Failure)} {room : Nat} {data : Bytes}
    (given : data ≠ []) (overflows : Overflows reads unread room) :
    Overflows (.bytes data :: reads) unread (data.length + room) := by
  obtain ⟨before, last, rfl, fits, short⟩ := overflows
  refine ⟨.bytes data :: before, last, rfl, ?_, ?_⟩
  · rw [delivered_bytes given, List.length_append]
    omega
  · rw [List.cons_append, delivered_bytes given, List.length_append]
    omega

/-- Encoding from any place in the key on: with room for everything, all that is delivered is
written and the reader decides how it ends; without, it ends with the writer's failure, and the read
that there was no room for is the last that is taken. -/
theorem stopFrom_cases (key : Key) (position total : Nat) (writer : Writer Failure)
    (reads : List (Read Failure)) :
    let stop := stopFrom ⟨key, position % keyLength⟩ writer total reads
    let coded := key.maskFrom position (delivered reads)
    (writer.Accepts coded ∧ writer.After stop.writer coded ∧
        stop.result = match failure? reads with
          | none => .ok (total + (delivered reads).length)
          | some failure => .error failure) ∨
      ∃ room failure, stop.result = .error failure ∧ writer.Full stop.writer coded room failure ∧
        Overflows reads stop.unread room := by
  induction reads generalizing position total writer with
  | nil => exact Or.inl ⟨fun _ _ _ => Nat.zero_le _, .refl writer, rfl⟩
  | cons read rest inductionHypothesis =>
    rcases read with (_ | ⟨head, tail⟩) | _ | failure
    · exact Or.inl ⟨fun _ _ _ => Nat.zero_le _, .refl writer, rfl⟩
    · have given := List.cons_ne_nil head tail
      rw [delivered_bytes given, failure?_bytes given, Key.maskFrom_append]
      unfold stopFrom
      rw [Cipher.apply_eq]
      dsimp only
      generalize head :: tail = data at given
      have length : (key.maskFrom position data).length = data.length := Key.length_maskFrom _ _
      rcases writer.writeAll_cases (key.maskFrom position data) with
        ⟨accepted, done, after⟩ | ⟨room, failure, failed, full⟩
      · rcases written : writer.writeAll (key.maskFrom position data) with ⟨between, answer⟩
        rw [written] at done after
        obtain rfl : answer = .ok () := done
        dsimp only
        rcases inductionHypothesis (position + data.length) (total + data.length) between with
          ⟨more, all, ends⟩ | ⟨room, failure, failed, full, overflows⟩
        · refine Or.inl ⟨accepted.append after more, after.trans all, ?_⟩
          rw [List.length_append, ← Nat.add_assoc]
          exact ends
        · refine Or.inr ⟨_, failure, failed, full.append after accepted, ?_⟩
          rw [length]
          exact overflows.cons given
      · rcases written : writer.writeAll (key.maskFrom position data) with ⟨between, answer⟩
        rw [written] at failed full
        obtain rfl : answer = .error failure := failed
        refine Or.inr ⟨room, failure, rfl, full.of_isPrefix, [], data, rfl, Nat.zero_le _, ?_⟩
        have short := full.short
        rw [length] at short
        rwa [List.nil_append, delivered_bytes given, delivered, List.append_nil]
    · rcases inductionHypothesis position total writer with
        all | ⟨room, failure, failed, full, before, data, whole, fits, short⟩
      · exact Or.inl all
      · exact Or.inr ⟨room, failure, failed, full, .interrupted :: before, data,
          congrArg _ whole, fits, short⟩
    · exact Or.inl ⟨fun _ _ _ => Nat.zero_le _, .refl writer, rfl⟩

/-! ### What becomes of a stream -/

/-- What an encoding comes to that stopped as `stop`. -/
structure Account (key : Key) (reads : List (Read Failure)) (writer : Writer Failure)
    (stop : Stop Failure) : Prop where
  /-- A beginning of the encoded data is written. -/
  written : ∃ part, part <+: key.mask (delivered reads) ∧ stop.writer.taken = writer.taken ++ part
  /-- All of it is written exactly when the writer has room for it. -/
  complete : stop.writer.taken = writer.taken ++ key.mask (delivered reads) ↔
    writer.Accepts (key.mask (delivered reads))
  /-- It succeeds exactly when the reader does not fail and all is written, and then answers with
  the number of bytes. -/
  succeeds : ∀ count, stop.result = .ok count ↔ failure? reads = none ∧
    stop.writer.taken = writer.taken ++ key.mask (delivered reads) ∧
    count = (delivered reads).length
  /-- When the reader fails and all is written, it ends with that failure. -/
  readerFails : ∀ failure, failure? reads = some failure →
    stop.writer.taken = writer.taken ++ key.mask (delivered reads) → stop.result = .error failure
  /-- When not all is written, it ends with the failure of the writer, which is full, and takes no
  read after the one that there was no room for. -/
  writerFails : stop.writer.taken ≠ writer.taken ++ key.mask (delivered reads) →
    ∃ room failure, stop.result = .error failure ∧ room < (delivered reads).length ∧
      writer.room? = some (room, failure) ∧
      stop.writer.taken = writer.taken ++ (key.mask (delivered reads)).take room ∧
      Overflows (fit reads) stop.unread room

theorem account (key : Key) (reads : List (Read Failure)) (writer : Writer Failure) :
    Account key reads writer (stopFrom (.start key) writer 0 (fit reads)) := by
  have ways := stopFrom_cases key 0 0 writer (fit reads)
  have start : Cipher.mk key (0 % keyLength) = .start key := rfl
  rw [start, (delivered_fit reads).1, (delivered_fit reads).2, Key.maskFrom_zero] at ways
  dsimp only at ways
  generalize stopFrom (.start key) writer 0 (fit reads) = stop at ways
  rcases ways with ⟨accepts, after, ends⟩ | ⟨room, failure, failed, full, overflows⟩
  · refine ⟨⟨_, List.prefix_rfl, after.taken⟩, iff_of_true after.taken accepts, fun count => ?_,
      fun failure same _ => by rw [ends, same], fun part => absurd after.taken part⟩
    rw [ends, Nat.zero_add]
    cases failure? reads with
    | none => simp [after.taken, eq_comm]
    | some failure => simp
  · have part : stop.writer.taken ≠ writer.taken ++ key.mask (delivered reads) := by
      rw [full.taken]
      intro same
      have short := full.short
      have long := congrArg List.length (List.append_cancel_left same)
      rw [List.length_take] at long
      omega
    refine ⟨⟨_, List.take_prefix _ _, full.taken⟩, iff_of_false part full.not_accepts,
      fun count => iff_of_false (by simp [failed]) fun all => part all.2.1,
      fun _ _ all => absurd all part, fun _ => ⟨room, failure, failed, ?_, full.limit, full.taken,
        overflows⟩⟩
    rw [← @Key.length_mask key]
    exact full.short

/-- Whatever the reader and the writer do, the encoding of a stream comes to what the account says
of the reads, and encoding once more what it wrote gives back the data, however that is cut. -/
theorem encode_account (key : Key) (reads : List (Read Failure)) (writer : Writer Failure) :
    let stop := stopFrom (.start key) writer 0 (fit reads)
    encode key reads writer = (stop.writer, stop.result) ∧ Account key reads writer stop ∧
      ∀ (count : Nat) (others : List (Read Failure)) (more : Writer Failure),
        stop.result = .ok count → stop.writer.taken = writer.taken ++ delivered others →
          failure? others = none → more.Accepts (delivered reads) →
            (encode key others more).2 = .ok count ∧
              (encode key others more).1.taken = more.taken ++ delivered reads := by
  refine ⟨encodeFrom_eq_stopFrom _ _ _ _, account key reads writer, ?_⟩
  intro count others more done output ends accepts
  obtain ⟨-, all, length⟩ := ((account key reads writer).succeeds count).mp done
  have coded : delivered others = key.mask (delivered reads) :=
    List.append_cancel_left (output.symm.trans all)
  have back : key.mask (delivered others) = delivered reads := by
    rw [coded, Key.mask_mask]
  have again := account key others more
  have taken := again.complete.mpr (back ▸ accepts)
  unfold encode
  rw [encodeFrom_eq_stopFrom]
  refine ⟨(again.succeeds count).mpr ⟨ends, taken, ?_⟩, back ▸ taken⟩
  rw [length, coded, Key.length_mask]

/-- A read is interrupted, and the writer, which takes three bytes, a single one at first, has no
room for the second piece. The last read is never taken. -/
example :
    stopFrom (.start .standard) ⟨[], [1, 5], some (3, "full")⟩ 0
        [.bytes [240], .interrupted, .bytes [59, 117, 0], .bytes [1]] =
      ⟨⟨[0, 0, 0], [], some (0, "full")⟩, [.bytes [1]], .error "full"⟩ :=
  rfl

end Stream

end AssetPipeline
