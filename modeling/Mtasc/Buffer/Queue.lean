import Mtasc.Lib.Fifo
import Mtasc.Buffer.ReadBuffer

/-!
# `readBuffer` is a FIFO byte queue

What the buffer is for, said without pointers: bytes enter at the back and
leave at the front (`FifoHistory`). Each of the three ways in which
`M_ensureWriteableBytes` finds space keeps the readable bytes
(`WellFormed.ensureWriteableBytes_spec`), so an append adds exactly its data
behind them; the refinement of whole runs then follows by `Refines.run`.
-/

namespace Mtasc.ReadBuffer

open Lib

/-! ## What one append does -/

variable {b : ReadBuffer}

/-- The buffer after space for `n` bytes has been made: same readable bytes,
free tail of `n` bytes. -/
structure MadeRoom (b : ReadBuffer) (n : ℕ) (b' : ReadBuffer) : Prop where
  wellFormed : b'.WellFormed
  readable : b'.readable = b.readable
  room : b'.writePointer + n ≤ b'.buffer.length
  write_le : b'.writePointer ≤ b.writePointer
  size_le : b'.buffer.length ≤ max b.buffer.length (b.writePointer + n)

/-- Space strategy 2: the readable bytes move to the front of the vector. -/
theorem WellFormed.compact_spec (h : b.WellFormed) {n : ℕ}
    (hn : n ≤ b.readPointer + (b.buffer.length - b.writePointer)) :
    ∃ v, memmove b.buffer 0 b.readPointer b.readableBytes = .ok v ∧
      MadeRoom b n ⟨v, 0, b.readableBytes⟩ := by
  have hrw := h.read_le
  have hws := h.write_le
  have hrb := h.readableBytes_eq
  have hsrc : b.readPointer + b.readableBytes = b.writePointer := by omega
  have hlen : (slice b.buffer b.readPointer b.writePointer).length =
      b.readableBytes := by rw [slice_length hws, hrb]
  refine ⟨overwrite b.buffer 0 (slice b.buffer b.readPointer b.writePointer),
    ?_, ?_⟩
  · simp only [memmove, memcpy, hsrc, if_pos hws, hlen]
    rw [if_pos (by omega)]
  · have hsize : (overwrite b.buffer 0
        (slice b.buffer b.readPointer b.writePointer)).length =
        b.buffer.length := overwrite_length (by omega)
    have hwf : WellFormed ⟨overwrite b.buffer 0
        (slice b.buffer b.readPointer b.writePointer), 0, b.readableBytes⟩ :=
      ⟨Nat.zero_le _, by simp only [hsize]; omega,
        by simp only [hsize]; exact h.size_le⟩
    refine ⟨hwf, ?_, ?_, ?_, ?_⟩
    · rw [hwf.readable_eq, h.readable_eq]
      have := slice_overwrite (slice b.buffer b.readPointer b.writePointer)
        (Nat.le_refl 0) (Nat.zero_le b.buffer.length)
      rw [Nat.zero_add, hlen, slice_self] at this
      exact this
    · simp only [hsize]
      omega
    · show b.readableBytes ≤ b.writePointer
      omega
    · simp only [hsize]
      exact Nat.le_max_left _ _

/-- Space strategy 3: the vector grows to the write pointer plus the request. -/
theorem WellFormed.grow_spec (h : b.WellFormed) {n : ℕ}
    (hn : b.buffer.length - b.writePointer < n)
    (hroom : b.writePointer + n ≤ maxSize) :
    ∃ v, resize b.buffer (wadd 64 b.writePointer n) = .ok v ∧
      MadeRoom b n { b with buffer := v } := by
  have hws := h.write_le
  have hadd : wadd 64 b.writePointer n = b.writePointer + n :=
    wadd_of_lt (by simp only [maxSize] at hroom; omega)
  have hext : b.buffer.take (b.writePointer + n) = b.buffer :=
    List.take_of_length_le (by omega)
  refine ⟨b.buffer ++ List.replicate (b.writePointer + n - b.buffer.length) 0,
    ?_, ?_⟩
  · simp only [resize, hadd, if_pos hroom, hext]
  · have hwf : WellFormed ⟨b.buffer ++
        List.replicate (b.writePointer + n - b.buffer.length) 0,
        b.readPointer, b.writePointer⟩ :=
      ⟨h.read_le, by simp; omega, by simp; omega⟩
    refine ⟨hwf, ?_, ?_, Nat.le_refl _, ?_⟩
    · rw [hwf.readable_eq, h.readable_eq]
      exact slice_append_left hws
    · simp
      omega
    · simp
      omega

/-- Whatever space strategy is taken, `M_ensureWriteableBytes` makes room and
keeps the readable bytes; it fails only where the vector cannot grow. -/
theorem WellFormed.ensureWriteableBytes_spec (h : b.WellFormed) {n : ℕ}
    (hn : n ≤ maxSize) :
    (∃ b', b.ensureWriteableBytes n = .ok b' ∧ MadeRoom b n b') ∨
      b.ensureWriteableBytes n = .error .lengthError ∧
        maxSize < b.writePointer + n := by
  have hws := h.write_le
  unfold ensureWriteableBytes
  rw [h.reclaim_eq, h.space_eq]
  split
  · next hfree =>
    exact Or.inl ⟨b, rfl, h, rfl, by omega, Nat.le_refl _, Nat.le_max_left _ _⟩
  · next hfree =>
    split
    · next hmove =>
      obtain ⟨v, hv, hroom⟩ := h.compact_spec hmove
      exact Or.inl ⟨_, by rw [hv]; rfl, hroom⟩
    · next hmove =>
      by_cases hroom : b.writePointer + n ≤ maxSize
      · obtain ⟨v, hv, hmade⟩ := h.grow_spec (by omega) hroom
        exact Or.inl ⟨_, by rw [hv]; rfl, hmade⟩
      · refine Or.inr ⟨?_, by omega⟩
        have hadd : wadd 64 b.writePointer n = b.writePointer + n := by
          refine wadd_of_lt ?_
          have := h.size_le
          simp only [maxSize] at *
          omega
        rw [hadd, resize, if_neg hroom]
        rfl

/-- The buffer after `data` has been appended. -/
structure Appended (b : ReadBuffer) (data : Bytes) (b' : ReadBuffer) : Prop where
  wellFormed : b'.WellFormed
  readable : b'.readable = b.readable ++ data
  size_le : b'.buffer.length ≤
    max b.buffer.length (b.writePointer + data.length)

theorem MadeRoom.append {data : Bytes} {b' : ReadBuffer}
    (hb : MadeRoom b data.length b') :
    ∃ v, memcpy b'.buffer b'.writePointer data = .ok v ∧
      Appended b data { b' with
        buffer := v, writePointer := wadd 64 b'.writePointer data.length } := by
  have hroom := hb.room
  have hsize := hb.wellFormed.size_le
  have hadd : wadd 64 b'.writePointer data.length =
      b'.writePointer + data.length :=
    wadd_of_lt (by simp only [maxSize] at hsize; omega)
  have hlen : (overwrite b'.buffer b'.writePointer data).length =
      b'.buffer.length := overwrite_length hroom
  refine ⟨overwrite b'.buffer b'.writePointer data,
    by rw [memcpy, if_pos hroom], ?_⟩
  rw [hadd]
  have hwf : WellFormed { b' with
      buffer := overwrite b'.buffer b'.writePointer data
      writePointer := b'.writePointer + data.length } := by
    have := hb.wellFormed.read_le
    exact ⟨by simp only; omega, by simp only [hlen]; omega,
      by simp only [hlen]; omega⟩
  refine ⟨hwf, ?_, ?_⟩
  · rw [hwf.readable_eq, ← hb.readable, hb.wellFormed.readable_eq]
    exact slice_overwrite _ hb.wellFormed.read_le hb.wellFormed.write_le
  · simp only [hlen]
    exact hb.size_le

/-- An append to a well-formed buffer adds exactly its data behind the
readable bytes, or asks for more than a vector can hold. It never copies
outside the vector. -/
theorem WellFormed.appendTobuffer_spec (h : b.WellFormed) (data : Bytes)
    (hn : data.length ≤ maxSize) :
    (∃ b', b.appendTobuffer data = .ok b' ∧ Appended b data b') ∨
      b.appendTobuffer data = .error .lengthError ∧
        maxSize < b.writePointer + data.length := by
  rcases h.ensureWriteableBytes_spec hn with ⟨b₁, hb₁, hmade⟩ | ⟨herr, hbig⟩
  · obtain ⟨v, hv, happ⟩ := hmade.append
    refine Or.inl ⟨_, ?_, happ⟩
    simp only [appendTobuffer, hb₁, bind, Except.bind, hv]
    rfl
  · refine Or.inr ⟨?_, hbig⟩
    simp only [appendTobuffer, herr, bind, Except.bind]

/-! ## What one retrieval does -/

theorem retrieveData_buffer (n : ℕ) :
    (b.retrieveData n).buffer = b.buffer := by
  simp only [retrieveData]
  split <;> rfl

theorem WellFormed.retrieveData_spec (h : b.WellFormed) {n : ℕ}
    (hn : n ≤ b.readableBytes) :
    (b.retrieveData n).WellFormed ∧
      (b.retrieveData n).readable = b.readable.drop n := by
  have hrw := h.read_le
  have hws := h.write_le
  have hsize := h.size_le
  rw [h.readableBytes_eq] at hn
  have hadd : wadd 64 b.readPointer n = b.readPointer + n :=
    wadd_of_lt (by simp only [maxSize] at hsize; omega)
  simp only [retrieveData, hadd]
  split
  · next hall =>
    -- exact exhaustion: both pointers go back to the front
    have hwf : WellFormed { b with readPointer := 0, writePointer := 0 } :=
      ⟨Nat.le_refl _, Nat.zero_le _, hsize⟩
    refine ⟨hwf, ?_⟩
    rw [hwf.readable_eq, h.readable_eq, drop_slice, hall, slice_self,
      slice_self]
  · next hsome =>
    have hwf : WellFormed { b with readPointer := b.readPointer + n } :=
      ⟨by simp only; omega, hws, hsize⟩
    refine ⟨hwf, ?_⟩
    rw [hwf.readable_eq, h.readable_eq, drop_slice]

/-! ## Runs -/

inductive Op where
  | append (data : Bytes)
  | retrieve (dataLen : ℕ)

def apply (b : ReadBuffer) : Op → Except BufferFault ReadBuffer
  | .append data => b.appendTobuffer data
  | .retrieve n => .ok (b.retrieveData n)

/-- The caller's side of the contract: retrieve only what is readable. -/
def Allowed (b : ReadBuffer) : Op → Prop
  | .append _ => True
  | .retrieve n => n ≤ b.readableBytes

instance (b : ReadBuffer) : ∀ o, Decidable (b.Allowed o)
  | .append _ => isTrue trivial
  | .retrieve n => inferInstanceAs (Decidable (n ≤ b.readableBytes))

/-- The operands of the `size_t` subtractions of one operation. -/
def subtractions (b : ReadBuffer) : Op → List (ℕ × ℕ)
  | .append data => b.appendSubtractions data.length
  | .retrieve _ => []

/-- All bytes appended by a list of operations, in order. -/
def appended (ops : List Op) : Bytes :=
  ops.flatMap fun
    | .append data => data
    | .retrieve _ => []

/-- The number of bytes retrieved by a list of operations. -/
def retrieved (ops : List Op) : ℕ :=
  (ops.map fun
    | .append _ => 0
    | .retrieve n => n).sum

/-- The same operation on the queue. -/
def queueStep (q : FifoHistory UInt8) : Op → FifoHistory UInt8
  | .append data => q.enter data
  | .retrieve n => q.leave n

/-- The buffer holds what the queue holds, in a vector no larger than what
ever entered. -/
structure Holds (b : ReadBuffer) (q : FifoHistory UInt8) : Prop where
  wellFormed : b.WellFormed
  readable : b.readable = q.contents
  size_le : b.buffer.length ≤ q.entered.length

/-- `Holds` in the middle of a run that appends `input` and retrieves `total`
bytes altogether, with `ops` still to come. -/
structure HoldsFor (input : Bytes) (total : ℕ) (ops : List Op)
    (b : ReadBuffer) (q : FifoHistory UInt8) : Prop where
  holds : b.Holds q
  entered : q.entered ++ appended ops = input
  left : q.left + retrieved ops = total

theorem appended_cons (o : Op) (ops : List Op) :
    appended (o :: ops) = appended [o] ++ appended ops := by
  simp [appended]

theorem retrieved_cons (o : Op) (ops : List Op) :
    retrieved (o :: ops) = retrieved [o] + retrieved ops := by
  simp [retrieved]

theorem appended_append (ops ops' : List Op) :
    appended (ops ++ ops') = appended ops ++ appended ops' := by
  simp [appended]

/-- **Refinement step**: an allowed operation succeeds on the buffer and does
to the readable bytes what it does to the queue. -/
theorem apply_refines {input : Bytes} {total : ℕ}
    (hinput : input.length ≤ maxSize) :
    Refines apply queueStep Allowed (HoldsFor input total) := by
  rintro o ops b q ⟨h, hentered, hleft⟩ ho
  rw [appended_cons, ← List.append_assoc] at hentered
  rw [retrieved_cons, ← Nat.add_assoc] at hleft
  cases o with
  | append data =>
      have hone : appended [Op.append data] = data := by simp [appended]
      rw [hone] at hentered
      have hfit : q.entered.length + data.length ≤ maxSize := by
        rw [← hentered] at hinput
        simp only [List.length_append] at hinput
        omega
      have hwb := h.wellFormed.write_le
      have hbq := h.size_le
      rcases h.wellFormed.appendTobuffer_spec data (by omega) with
        ⟨b', hb', happ⟩ | ⟨-, hbig⟩
      · refine ⟨b', hb', ⟨happ.wellFormed, ?_, ?_⟩, hentered, hleft⟩
        · show b'.readable = (q.enter data).contents
          rw [happ.readable, h.readable, q.contents_enter]
        · have := happ.size_le
          show b'.buffer.length ≤ (q.entered ++ data).length
          rw [List.length_append]
          omega
      · omega
  | retrieve n =>
      obtain ⟨hwf, hread⟩ := h.wellFormed.retrieveData_spec ho
      have hn : n ≤ q.contents.length := by
        rw [← h.readable, h.wellFormed.readable_length]
        exact ho
      refine ⟨_, rfl, ⟨hwf, ?_, ?_⟩, ?_, ?_⟩
      · show (b.retrieveData n).readable = (q.leave n).contents
        rw [hread, h.readable, q.contents_leave]
      · rw [retrieveData_buffer]
        exact h.size_le
      · simpa [appended, queueStep, FifoHistory.leave] using hentered
      · show q.left + min n q.contents.length + retrieved ops = total
        rw [Nat.min_eq_left hn]
        simpa [retrieved] using hleft

theorem valueInit_holdsFor (ops : List Op) :
    HoldsFor (appended ops) (retrieved ops) ops valueInit FifoHistory.empty :=
  ⟨⟨valueInit_wellFormed, rfl, Nat.le_refl _⟩, rfl, Nat.zero_add _⟩

/-- **`readBuffer` refines a FIFO byte queue.** In every run of appends and
allowed retrievals from a value-initialised buffer in which less than 2 ^ 63
bytes enter, and at every point of that run: no copy has left the vector (the
run has a result), the pointers are in order inside the vector, the readable
bytes are what was appended less what was retrieved, and no `size_t`
subtraction of the next operation wraps. -/
theorem readBuffer_refines_queue (ops ops' : List Op)
    (hallowed : LegalRun apply Allowed valueInit (ops ++ ops'))
    (htotal : (appended (ops ++ ops')).length < 2 ^ 63) :
    ∃ b, runOps apply valueInit ops = .ok b ∧
      (b.readPointer ≤ b.writePointer ∧ b.writePointer ≤ b.buffer.length) ∧
      b.readable = (appended ops).drop (retrieved ops) ∧
      b.readableBytes = b.readable.length ∧
      ∀ o ∈ ops'.head?, ∀ p ∈ b.subtractions o, p.2 ≤ p.1 := by
  have hinput : (appended ops).length ≤ maxSize := by
    rw [appended_append, List.length_append] at htotal
    simp only [maxSize]
    omega
  obtain ⟨b, hrun, hholds, hentered, hleft⟩ :=
    (apply_refines hinput).run ops _ _ (valueInit_holdsFor ops) hallowed.left
  have hwf := hholds.wellFormed
  refine ⟨b, hrun, ⟨hwf.read_le, hwf.write_le⟩, ?_, hwf.readable_length.symm,
    ?_⟩
  · rw [hholds.readable, FifoHistory.contents]
    simp only [appended, retrieved, List.flatMap_nil, List.append_nil,
      List.map_nil, List.sum_nil, Nat.add_zero] at hentered hleft ⊢
    rw [hentered, hleft]
  · intro o _ p hp
    cases o with
    | append data => exact hwf.appendSubtractions_le data.length p hp
    | retrieve n => simp [subtractions] at hp

/-- Append, part retrieval, and an append that has to move the rest to the
front of the vector. -/
theorem readBuffer_refines_queue_compaction :
    ∃ b, runOps apply valueInit
        [.append [1, 2, 3], .retrieve 2, .append [4, 5]] = .ok b ∧
      (b.readPointer ≤ b.writePointer ∧ b.writePointer ≤ b.buffer.length) ∧
      b.readable = (appended [.append [1, 2, 3], .retrieve 2,
        .append [4, 5]]).drop 2 ∧
      b.readableBytes = b.readable.length ∧
      ∀ o ∈ [Op.append [6]].head?, ∀ p ∈ b.subtractions o, p.2 ≤ p.1 :=
  readBuffer_refines_queue
    [.append [1, 2, 3], .retrieve 2, .append [4, 5]] [.append [6]]
    (by decide) (by decide)

end Mtasc.ReadBuffer
