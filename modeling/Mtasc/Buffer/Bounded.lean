import Mtasc.Buffer.Queue

/-!
# The vector does not grow with the traffic

The vector of a `readBuffer` never shrinks, and when it grows it grows behind
the write pointer, so the bytes that have already been taken count too. What
bounds it is the test before the growth: the readable bytes are moved to the
front whenever that makes room, so the vector only grows under an append that
is longer than everything taken so far (`appendTobuffer_size`). Hence a run
that never holds more than `B` readable bytes and appends at most `L` at a
time needs `B + L` bytes of vector, whatever passes through in total.

An append whose `resize` throws has changed nothing yet, and the caller may go
on with the buffer: such a call is part of a history too (`call`).
-/

namespace Mtasc.ReadBuffer

open Lib

variable {b b' : ReadBuffer} {data : Bytes}

/-- The buffer behind one call. `std::length_error` leaves it as it was. -/
def call (b : ReadBuffer) (o : Op) : Except BufferFault ReadBuffer :=
  match b.apply o with
  | .error .lengthError => .ok b
  | result => result

/-- Appends of at most `L` bytes, and retrievals of what is readable. -/
def AllowedUpTo (L : ℕ) (b : ReadBuffer) : Op → Prop
  | .append data => data.length ≤ L
  | .retrieve n => n ≤ b.readableBytes

instance (L : ℕ) (b : ReadBuffer) : ∀ o, Decidable (b.AllowedUpTo L o)
  | .append data => inferInstanceAs (Decidable (data.length ≤ L))
  | .retrieve n => inferInstanceAs (Decidable (n ≤ b.readableBytes))

/-! ## The size of the vector -/

theorem resize_length {v v' : Bytes} {n : ℕ} (h : resize v n = .ok v') :
    v'.length = n ∧ n ≤ maxSize := by
  unfold resize at h
  split at h
  · next hn =>
    cases h
    refine ⟨?_, hn⟩
    simp only [List.length_append, List.length_take, List.length_replicate]
    omega
  · cases h

theorem memcpy_length {v v' xs : Bytes} {dst : ℕ}
    (h : memcpy v dst xs = .ok v') :
    v'.length = v.length ∧ dst + xs.length ≤ v.length := by
  unfold memcpy at h
  split at h
  · next hfit =>
    cases h
    exact ⟨overwrite_length hfit, hfit⟩
  · cases h

theorem memmove_length {v v' : Bytes} {dst src n : ℕ}
    (h : memmove v dst src n = .ok v') : v'.length = v.length := by
  unfold memmove at h
  split at h
  · exact (memcpy_length h).1
  · cases h

/-- The vector keeps its size unless the request exceeds the bytes taken and
the free tail together. -/
theorem WellFormed.ensureWriteableBytes_size (h : b.WellFormed) {n : ℕ}
    (hb : b.ensureWriteableBytes n = .ok b') :
    b'.buffer.length ≤ maxSize ∧
      (b'.buffer.length = b.buffer.length ∨
        b.readPointer < n ∧ b'.writePointer = b.writePointer ∧
          b'.buffer.length = wadd 64 b.writePointer n) := by
  unfold ensureWriteableBytes at hb
  rw [h.reclaim_eq] at hb
  split at hb
  · -- the free tail is enough
    cases hb
    exact ⟨h.size_le, Or.inl rfl⟩
  · split at hb
    · -- compaction
      cases hv : memmove b.buffer 0 b.readPointer b.readableBytes with
      | error e =>
          rw [hv] at hb
          cases hb
      | ok v =>
          rw [hv] at hb
          cases hb
          have hlength := memmove_length hv
          exact ⟨hlength ▸ h.size_le, Or.inl hlength⟩
    · next hmove =>
      -- growth, since compaction would not make room
      cases hv : resize b.buffer (wadd 64 b.writePointer n) with
      | error e =>
          rw [hv] at hb
          cases hb
      | ok v =>
          rw [hv] at hb
          cases hb
          obtain ⟨hlength, hle⟩ := resize_length hv
          refine ⟨hlength ▸ hle, Or.inr ⟨?_, rfl, hlength⟩⟩
          omega

/-- An append that grows the vector is longer than all that has been taken. -/
theorem WellFormed.appendTobuffer_size (h : b.WellFormed)
    (hb : b.appendTobuffer data = .ok b') :
    data.length ≤ maxSize ∧
      (b'.buffer.length = b.buffer.length ∨
        b.readPointer < data.length ∧
          b'.buffer.length = b.writePointer + data.length) := by
  unfold appendTobuffer at hb
  cases hroom : b.ensureWriteableBytes data.length with
  | error e =>
      rw [hroom] at hb
      cases hb
  | ok room =>
      rw [hroom] at hb
      change (memcpy room.buffer room.writePointer data >>= _) = _ at hb
      cases hv : memcpy room.buffer room.writePointer data with
      | error e =>
          rw [hv] at hb
          cases hb
      | ok v =>
          rw [hv] at hb
          cases hb
          obtain ⟨hlength, hfit⟩ := memcpy_length hv
          obtain ⟨hmax, hsize⟩ := h.ensureWriteableBytes_size hroom
          refine ⟨by omega, ?_⟩
          show v.length = _ ∨ _ ∧ v.length = _
          rw [hlength]
          rcases hsize with hsame | ⟨htaken, hwrite, hgrown⟩
          · exact Or.inl hsame
          · refine Or.inr ⟨htaken, ?_⟩
            -- the copy fits, so the sum has not wrapped
            have hwrap : wadd 64 b.writePointer data.length ≤
                b.writePointer + data.length := Nat.mod_le _ _
            omega

/-! ## Runs -/

/-- A well-formed buffer with a vector of at most `n` bytes. -/
structure Within (n : ℕ) (b : ReadBuffer) : Prop where
  wellFormed : b.WellFormed
  size_le : b.buffer.length ≤ n

theorem Within.afterAppend {B L : ℕ} (h : Within (B + L) b)
    (hdata : data.length ≤ L) (hb : b.appendTobuffer data = .ok b')
    (hreadable : b'.readableBytes ≤ B) : Within (B + L) b' := by
  obtain ⟨hmax, hsize⟩ := h.wellFormed.appendTobuffer_size hb
  have happ : Appended b data b' := by
    rcases h.wellFormed.appendTobuffer_spec data hmax with
      ⟨b₁, hb₁, happ⟩ | ⟨herr, -⟩
    · rw [hb] at hb₁
      cases hb₁
      exact happ
    · rw [hb] at herr
      cases herr
  refine ⟨happ.wellFormed, ?_⟩
  rcases hsize with hsame | ⟨htaken, hgrown⟩
  · rw [hsame]
    exact h.size_le
  · -- the bytes taken are fewer than `L`; the others are readable now
    have hnow : b'.readableBytes = b.readableBytes + data.length := by
      rw [← happ.wellFormed.readable_length, happ.readable, List.length_append,
        h.wellFormed.readable_length]
    have hread := h.wellFormed.read_le
    rw [h.wellFormed.readableBytes_eq] at hnow
    omega

/-- One call keeps the bound, if no more than `B` bytes are readable after. -/
theorem Within.afterCall {B L : ℕ} {o : Op} (h : Within (B + L) b)
    (ho : b.AllowedUpTo L o) (hcall : b.call o = .ok b')
    (hreadable : b'.readableBytes ≤ B) : Within (B + L) b' := by
  cases o with
  | append data =>
      unfold call at hcall
      cases hb : b.apply (.append data) with
      | ok b₁ =>
          rw [hb] at hcall
          cases hcall
          exact h.afterAppend ho hb hreadable
      | error e =>
          rw [hb] at hcall
          cases e with
          | outOfBounds => cases hcall
          | lengthError =>
              cases hcall
              exact h
  | retrieve n =>
      cases hcall
      refine ⟨(h.wellFormed.retrieveData_spec ho).1, ?_⟩
      rw [retrieveData_buffer]
      exact h.size_le

/-- A call with data that fits a vector has a result: it copies nothing
outside the vector. -/
theorem WellFormed.call_ok (h : b.WellFormed) {o : Op} {L : ℕ}
    (hL : L ≤ maxSize) (ho : b.AllowedUpTo L o) :
    ∃ b', b.call o = .ok b' ∧ b'.WellFormed := by
  cases o with
  | append data =>
      rcases h.appendTobuffer_spec data (Nat.le_trans ho hL) with
        ⟨b', hb', happ⟩ | ⟨herr, -⟩
      · refine ⟨b', ?_, happ.wellFormed⟩
        unfold call
        rw [show b.apply (.append data) = .ok b' from hb']
      · refine ⟨b, ?_, h⟩
        unfold call
        rw [show b.apply (.append data) = .error .lengthError from herr]
  | retrieve n => exact ⟨_, rfl, (h.retrieveData_spec ho).1⟩

/-- A history of appends that fit a vector gets through: it never copies
outside the vector. -/
theorem call_history_ok {L : ℕ} (hL : L ≤ maxSize) (ops : List Op)
    (hlegal : LegalRun call (AllowedUpTo L) valueInit ops) :
    ∃ b, runOps call valueInit ops = .ok b ∧ b.WellFormed := by
  have hkeeps : Refines call (fun q (_ : Op) => q) (AllowedUpTo L)
      (fun _ b (_ : Unit) => b.WellFormed) := by
    intro o _ b _ hb ho
    exact hb.call_ok hL ho
  exact hkeeps.run ops valueInit () valueInit_wellFormed hlegal

/-- **The vector does not grow with the traffic.** In every history of appends
of at most `L` bytes and allowed retrievals from a value-initialised buffer:
if no more than `B` bytes are readable at any point of it, then at no point of
it is the vector larger than `B + L` bytes. -/
theorem buffer_size_bounded (B L : ℕ) (ops : List Op)
    (hlegal : LegalRun call (AllowedUpTo L) valueInit ops)
    (hreadable : ∀ pre b, pre <+: ops →
      runOps call valueInit pre = .ok b → b.readableBytes ≤ B) :
    ∀ pre b, pre <+: ops → runOps call valueInit pre = .ok b →
      b.buffer.length ≤ B + L := by
  intro pre b hpre hrun
  have hstart : Within (B + L) valueInit :=
    ⟨valueInit_wellFormed, Nat.zero_le _⟩
  have hwithin : Within (B + L) b :=
    LegalRun.guarded (fun _ _ _ h ho hcall hgood => h.afterCall ho hcall hgood)
      ops valueInit hstart hlegal hreadable pre b hpre hrun
  exact hwithin.size_le

/-- Seven bytes, never more than four of them readable: the second append moves
a byte to the front, the last one grows the vector behind a byte that has been
taken. -/
theorem buffer_size_bounded_seven :
    ∃ b, runOps call valueInit [.append [1, 2, 3], .retrieve 2, .append [4],
        .retrieve 1, .append [5, 6, 7]] = .ok b ∧ b.buffer.length ≤ 4 + 3 := by
  have hall : ∀ pre ∈ List.inits [.append [1, 2, 3], .retrieve 2, .append [4],
      .retrieve 1, .append [5, 6, 7]],
      ∀ b ∈ (runOps call valueInit pre).toOption, b.readableBytes ≤ 4 := by
    decide
  refine ⟨_, rfl, ?_⟩
  apply buffer_size_bounded 4 3 [.append [1, 2, 3], .retrieve 2, .append [4],
    .retrieve 1, .append [5, 6, 7]] (by decide) ?_ _ _ List.prefix_rfl rfl
  intro pre b hpre hrun
  apply hall pre ((List.mem_inits _ _).mpr hpre) b
  rw [hrun]
  rfl

end Mtasc.ReadBuffer
