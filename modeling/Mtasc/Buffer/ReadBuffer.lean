import Mtasc.Lib.Word
import Mtasc.Lib.Splice

/-!
# `readBuffer`

The receive buffer of the client: a `std::vector<char>` with a read and a
write pointer. Both pointers are `size_t`, so their sums and differences are
64-bit words. A `memcpy` or `memmove` that leaves the vector is a fault of the
model, and so is a `resize` past `max_size()`, which throws
`std::length_error`; any other allocation is taken to succeed.
-/

namespace Mtasc

open Lib

abbrev Bytes : Type := List UInt8

structure ReadBuffer where
  buffer : Bytes
  readPointer : ℕ
  writePointer : ℕ
deriving DecidableEq, Repr

inductive BufferFault where
  | outOfBounds
  | lengthError
deriving DecidableEq, Repr

/-- `std::vector<char>::max_size()`. -/
def maxSize : ℕ := 2 ^ 63 - 1

/-- `std::vector<char>::resize`: cut, or extended with zero bytes. -/
def resize (v : Bytes) (n : ℕ) : Except BufferFault Bytes :=
  if n ≤ maxSize then .ok (v.take n ++ List.replicate (n - v.length) 0)
  else .error .lengthError

/-- `memcpy` of `xs` to offset `dst` of the vector. -/
def memcpy (v : Bytes) (dst : ℕ) (xs : Bytes) : Except BufferFault Bytes :=
  if dst + xs.length ≤ v.length then .ok (overwrite v dst xs)
  else .error .outOfBounds

/-- `memmove` of `n` bytes inside the vector; source and target may overlap. -/
def memmove (v : Bytes) (dst src n : ℕ) : Except BufferFault Bytes :=
  if src + n ≤ v.length then memcpy v dst (slice v src (src + n))
  else .error .outOfBounds

namespace ReadBuffer

/-- `std::make_shared<readBuffer>()`: value-initialised. -/
def valueInit : ReadBuffer := ⟨[], 0, 0⟩

def readableBytes (b : ReadBuffer) : ℕ := wsub 64 b.writePointer b.readPointer

/-- The bytes of the vector from `peekData()` on. -/
def peekData (b : ReadBuffer) : Bytes := b.buffer.drop b.readPointer

/-- The readable bytes: `readableBytes()` of them, from `peekData()` on. -/
def readable (b : ReadBuffer) : Bytes := b.peekData.take b.readableBytes

def ensureWriteableBytes (b : ReadBuffer) (dataLen : ℕ) :
    Except BufferFault ReadBuffer :=
  if dataLen ≤ wsub 64 b.buffer.length b.writePointer then
    .ok b
  else if dataLen ≤
      wadd 64 b.readPointer (wsub 64 b.buffer.length b.writePointer) then do
    let v ← memmove b.buffer 0 b.readPointer b.readableBytes
    return { buffer := v, readPointer := 0, writePointer := b.readableBytes }
  else do
    let v ← resize b.buffer (wadd 64 b.writePointer dataLen)
    return { b with buffer := v }

def appendTobuffer (b : ReadBuffer) (data : Bytes) :
    Except BufferFault ReadBuffer := do
  let b' ← b.ensureWriteableBytes data.length
  let v ← memcpy b'.buffer b'.writePointer data
  return { b' with
    buffer := v, writePointer := wadd 64 b'.writePointer data.length }

def retrieveData (b : ReadBuffer) (dataLen : ℕ) : ReadBuffer :=
  let readPointer := wadd 64 b.readPointer dataLen
  if readPointer = b.writePointer then
    { b with readPointer := 0, writePointer := 0 }
  else
    { b with readPointer := readPointer }

/-- The operands of every `size_t` subtraction that an append of `dataLen`
bytes evaluates, in the order of the source. -/
def appendSubtractions (b : ReadBuffer) (dataLen : ℕ) : List (ℕ × ℕ) :=
  let space := (b.buffer.length, b.writePointer)
  let stored := (b.writePointer, b.readPointer)
  if dataLen ≤ wsub 64 b.buffer.length b.writePointer then
    [space]
  else if dataLen ≤
      wadd 64 b.readPointer (wsub 64 b.buffer.length b.writePointer) then
    [space, space, stored, stored]
  else
    [space, space]

/-! ## Well-formed buffers -/

/-- `M_read_pointer ≤ M_write_pointer ≤ M_buffer_.size()`, and the vector is
not larger than a vector can be. -/
structure WellFormed (b : ReadBuffer) : Prop where
  read_le : b.readPointer ≤ b.writePointer
  write_le : b.writePointer ≤ b.buffer.length
  size_le : b.buffer.length ≤ maxSize

theorem valueInit_wellFormed : valueInit.WellFormed :=
  ⟨Nat.le_refl _, Nat.le_refl _, Nat.zero_le _⟩

section

variable {b : ReadBuffer}

theorem WellFormed.readableBytes_eq (h : b.WellFormed) :
    b.readableBytes = b.writePointer - b.readPointer :=
  wsub_of_le h.read_le (by
    have := h.write_le
    have := h.size_le
    simp only [maxSize] at *
    omega)

theorem WellFormed.space_eq (h : b.WellFormed) :
    wsub 64 b.buffer.length b.writePointer = b.buffer.length - b.writePointer :=
  wsub_of_le h.write_le (by
    have := h.size_le
    simp only [maxSize] at *
    omega)

theorem WellFormed.reclaim_eq (h : b.WellFormed) :
    wadd 64 b.readPointer (wsub 64 b.buffer.length b.writePointer) =
      b.readPointer + (b.buffer.length - b.writePointer) := by
  rw [h.space_eq]
  refine wadd_of_lt ?_
  have := h.read_le
  have := h.write_le
  have := h.size_le
  simp only [maxSize] at *
  omega

theorem WellFormed.readable_eq (h : b.WellFormed) :
    b.readable = slice b.buffer b.readPointer b.writePointer := by
  rw [readable, h.readableBytes_eq]
  rfl

theorem WellFormed.readable_length (h : b.WellFormed) :
    b.readable.length = b.readableBytes := by
  rw [h.readable_eq, slice_length h.write_le, h.readableBytes_eq]

/-- No subtraction of an append wraps on a well-formed buffer. -/
theorem WellFormed.appendSubtractions_le (h : b.WellFormed) (dataLen : ℕ) :
    ∀ p ∈ b.appendSubtractions dataLen, p.2 ≤ p.1 := by
  intro p hp
  have hspace : p = (b.buffer.length, b.writePointer) ∨
      p = (b.writePointer, b.readPointer) := by
    unfold appendSubtractions at hp
    split at hp
    · simp_all
    · split at hp <;> simp at hp <;> tauto
  rcases hspace with rfl | rfl
  · exact h.write_le
  · exact h.read_le

end

end ReadBuffer

end Mtasc
