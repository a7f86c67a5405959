import Mtasc.Buffer.Queue
import Mtasc.Client.Context

/-!
# A byte stream in chunks

What a reader gets from a stream that arrives in chunks: each read takes the
next chunk, or as much of it as it has room for. `streamAfter cs j` is what a
first read of 4096 bytes and `j` further reads of 1086 bytes have collected,
with the chunks that are still to come.
-/

namespace Mtasc

open Lib

/-! ## Chunks -/

/-- A read of at most `size` bytes, and the chunks it leaves. -/
def takeChunk (size : ℕ) : List Bytes → Bytes × List Bytes
  | [] => ([], [])
  | c :: cs =>
      if c.length ≤ size then (c, cs) else (c.take size, c.drop size :: cs)

def streamAfter (cs : List Bytes) : ℕ → Bytes × List Bytes
  | 0 => takeChunk 4096 cs
  | j + 1 =>
      let s := streamAfter cs j
      let next := takeChunk 1086 s.2
      (s.1 ++ next.1, next.2)

section

variable {size : ℕ} {cs : List Bytes}

theorem takeChunk_append (size : ℕ) (cs : List Bytes) :
    (takeChunk size cs).1 ++ (takeChunk size cs).2.flatten = cs.flatten := by
  cases cs with
  | nil => rfl
  | cons c cs =>
      simp only [takeChunk]
      split
      · rfl
      · simp only [List.flatten_cons, ← List.append_assoc,
          List.take_append_drop]

theorem takeChunk_length_le (size : ℕ) (cs : List Bytes) :
    (takeChunk size cs).1.length ≤ size := by
  cases cs with
  | nil => exact Nat.zero_le _
  | cons c cs =>
      simp only [takeChunk]
      split
      · assumption
      · exact List.length_take_le _ _

/-- What is left of non-empty chunks is non-empty chunks. -/
theorem takeChunk_rest_ne (hcs : ∀ c ∈ cs, c ≠ []) :
    ∀ c ∈ (takeChunk size cs).2, c ≠ [] := by
  cases cs with
  | nil => exact hcs
  | cons c cs =>
      simp only [takeChunk]
      split
      · exact fun x hx => hcs x (List.mem_cons_of_mem _ hx)
      · next hlong =>
        intro x hx
        rcases List.mem_cons.mp hx with rfl | hx
        · intro hnil
          have := List.drop_eq_nil_iff.mp hnil
          omega
        · exact hcs x (List.mem_cons_of_mem _ hx)

theorem takeChunk_ne (hsize : 0 < size) (hcs : ∀ c ∈ cs, c ≠ [])
    (hne : cs ≠ []) : (takeChunk size cs).1 ≠ [] := by
  cases cs with
  | nil => exact absurd rfl hne
  | cons c cs =>
      have hc := hcs c List.mem_cons_self
      simp only [takeChunk]
      split
      · exact hc
      · intro hnil
        rcases List.take_eq_nil_iff.mp hnil with h | h
        · omega
        · exact hc h

theorem streamAfter_append (cs : List Bytes) (j : ℕ) :
    (streamAfter cs j).1 ++ (streamAfter cs j).2.flatten = cs.flatten := by
  induction j with
  | zero => exact takeChunk_append 4096 cs
  | succ j ih =>
      simp only [streamAfter]
      rw [List.append_assoc, takeChunk_append, ih]

theorem streamAfter_rest_ne (hcs : ∀ c ∈ cs, c ≠ []) (j : ℕ) :
    ∀ c ∈ (streamAfter cs j).2, c ≠ [] := by
  induction j with
  | zero => exact takeChunk_rest_ne hcs
  | succ j ih => exact takeChunk_rest_ne ih

theorem streamAfter_length_le (cs : List Bytes) (j : ℕ) :
    (streamAfter cs j).1.length ≤ 4096 + 1086 * j := by
  induction j with
  | zero => exact takeChunk_length_le 4096 cs
  | succ j ih =>
      have := takeChunk_length_le 1086 (streamAfter cs j).2
      simp only [streamAfter, List.length_append]
      omega

/-- The whole stream has been collected when no chunk is to come. -/
theorem streamAfter_eq_flatten (hcs : ∀ c ∈ cs, c ≠ []) {j : ℕ} :
    (streamAfter cs j).1 = cs.flatten ↔ (streamAfter cs j).2 = [] := by
  have happ := streamAfter_append cs j
  constructor
  · intro heq
    rw [heq, List.append_right_eq_self, List.flatten_eq_nil_iff] at happ
    exact List.eq_nil_iff_forall_not_mem.mpr fun c hc =>
      streamAfter_rest_ne hcs j c hc (happ c hc)
  · intro hnil
    rwa [hnil, List.flatten_nil, List.append_nil] at happ

/-- Reads after the end of the stream collect nothing. -/
theorem streamAfter_end {i j : ℕ} (hend : (streamAfter cs i).2 = [])
    (hij : i ≤ j) : streamAfter cs j = streamAfter cs i := by
  induction j, hij using Nat.le_induction with
  | base => rfl
  | succ j _ ih =>
      simp only [streamAfter, ih, hend, takeChunk, List.append_nil]
      exact Prod.ext rfl hend.symm

end

/-! ## The socket a stream arrives at -/

/-- What a call leaves of the chunks. -/
@[simp] def Trace.consume : Call → List Bytes → List Bytes
  | .recv _ size, cs => (takeChunk size cs).2
  | .read _ size, cs => (takeChunk size cs).2
  | _, cs => cs

/-- The chunks still to come. -/
def Trace.pending (cs : List Bytes) (h : Trace) : List Bytes :=
  h.foldl (fun cs e => consume e.1 cs) cs

@[simp] theorem Trace.pending_nil {cs : List Bytes} :
    Trace.pending cs [] = cs := rfl

@[simp] theorem Trace.pending_snoc {cs : List Bytes} {h : Trace} {q : Call}
    {r : q.Reply} :
    Trace.pending cs (h ++ [⟨q, r⟩]) = consume q (Trace.pending cs h) := by
  simp [Trace.pending]

/-- The result of a read from the chunks `cs`. When they are used up it is
anything, or `-1` if the socket is `silent` then. -/
def ReadsChunk (silent : Prop) (size : ℕ) (cs : List Bytes)
    (r : Option Bytes) : Prop :=
  (cs ≠ [] → r = some (takeChunk size cs).1) ∧ (cs = [] → silent → r = none)

/-- `select` reports readiness, the chunks arrive one by one, and `errno` is
`e` all the time. -/
def StreamContract (silent : Prop) (cs : List Bytes) (e : ℤ) :
    Trace → (q : Call) → q.Reply → Prop
  | _, .select _ _, r => 0 < r
  | h, .recv _ size, r => ReadsChunk silent size (h.pending cs) r
  | h, .read _ size, r => ReadsChunk silent size (h.pending cs) r
  | _, .errno, r => r = e
  | _, _, _ => True

/-- The socket that is silent after the stream. -/
def silentStream (cs : List Bytes) (e : ℤ) : Oracle Call Call.Reply :=
  fun h q =>
    match q with
    | .select _ _ => (1 : ℤ)
    | .recv _ size =>
        if Trace.pending cs h = [] then none
        else some (takeChunk size (Trace.pending cs h)).1
    | .read _ size =>
        if Trace.pending cs h = [] then none
        else some (takeChunk size (Trace.pending cs h)).1
    | .write _ _ => (0 : ℤ)
    | .errno => e
    | .sslRead _ => none
    | .sslGetError _ => (0 : ℤ)
    | .pastVector _ => []
    | .submit _ => ()

theorem silentStream_obeys (silent : Prop) (cs : List Bytes) (e : ℤ) :
    (silentStream cs e).Obeys (StreamContract silent cs e) := by
  intro h q
  cases q with
  | select fd t => exact Int.one_pos
  | recv fd size => exact ⟨fun hne => if_neg hne, fun heq _ => if_pos heq⟩
  | read fd size => exact ⟨fun hne => if_neg hne, fun heq _ => if_pos heq⟩
  | errno => rfl
  | _ => trivial

/-! ## The delimiter -/

/-- The scan of given bytes. -/
def delimiterIn (delimiter bytes : Bytes) : Bool :=
  scan bytes.length delimiter fun i => memcmpEq bytes i delimiter

/-- The scan reads nothing but the readable bytes. -/
theorem ReadBuffer.WellFormed.findDelimiter_eq {b : ReadBuffer}
    (h : b.WellFormed) (delimiter : Bytes) :
    b.findDelimiter delimiter = delimiterIn delimiter b.readable := by
  have hcmp : ∀ i < min (b.readableBytes + 1 - delimiter.length) 2147483648,
      memcmpEq b.peekData i delimiter = memcmpEq b.readable i delimiter := by
    intro i hi
    have hle : i + delimiter.length ≤ b.readableBytes := by omega
    rw [memcmpEq, memcmpEq, slice, slice, ReadBuffer.readable, List.drop_take,
      List.take_take, Nat.min_eq_left (by omega)]
  rw [ReadBuffer.findDelimiter, delimiterIn, h.readable_length, scan, scan]
  exact Bool.eq_iff_iff.mpr (by
    simp only [List.any_eq_true, List.mem_range]
    exact exists_congr fun i => and_congr_right fun hi => by rw [hcmp i hi])

theorem delimiterIn_nil {delimiter : Bytes} (hd : delimiter ≠ []) :
    delimiterIn delimiter [] = false := by
  have hpos := List.length_pos_iff.mpr hd
  have hzero : min (0 + 1 - delimiter.length) 2147483648 = 0 := by omega
  rw [delimiterIn, scan, List.length_nil, hzero]
  rfl

/-! ## Buffers that have only been appended to -/

/-- The buffer whose vector is exactly the bytes appended to it. -/
def ReadBuffer.filled (bytes : Bytes) : ReadBuffer := ⟨bytes, 0, bytes.length⟩

theorem ReadBuffer.valueInit_eq_filled :
    ReadBuffer.valueInit = ReadBuffer.filled [] := rfl

section

variable {bytes data : Bytes}

theorem ReadBuffer.filled_wellFormed (h : bytes.length ≤ maxSize) :
    (ReadBuffer.filled bytes).WellFormed :=
  ⟨Nat.zero_le _, Nat.le_refl _, h⟩

theorem ReadBuffer.filled_readable (h : bytes.length ≤ maxSize) :
    (ReadBuffer.filled bytes).readable = bytes := by
  rw [(ReadBuffer.filled_wellFormed h).readable_eq, slice]
  exact List.take_length

theorem ReadBuffer.filled_readableBytes (h : bytes.length ≤ maxSize) :
    (ReadBuffer.filled bytes).readableBytes = bytes.length := by
  rw [← (ReadBuffer.filled_wellFormed h).readable_length,
    ReadBuffer.filled_readable h]

theorem ReadBuffer.filled_findDelimiter (h : bytes.length ≤ maxSize)
    (delimiter : Bytes) :
    (ReadBuffer.filled bytes).findDelimiter delimiter =
      delimiterIn delimiter bytes := by
  rw [(ReadBuffer.filled_wellFormed h).findDelimiter_eq,
    ReadBuffer.filled_readable h]

/-- Each append grows the vector by just the bytes appended, as long as a
vector can hold them. -/
theorem ReadBuffer.filled_append (h : bytes.length ≤ maxSize)
    (hdata : data ≠ []) (hlen : data.length ≤ 4096) :
    (ReadBuffer.filled bytes).appendTobuffer data =
      if bytes.length + data.length ≤ maxSize then
        .ok (ReadBuffer.filled (bytes ++ data))
      else .error .lengthError := by
  have hpos := List.length_pos_iff.mpr hdata
  have hspace : wsub 64 bytes.length bytes.length = 0 := by
    rw [wsub_of_le (Nat.le_refl _) (by unfold maxSize at h; omega),
      Nat.sub_self]
  have hadd : wadd 64 bytes.length data.length = bytes.length + data.length :=
    wadd_of_lt (by unfold maxSize at h; omega)
  have hgrow : (ReadBuffer.filled bytes).ensureWriteableBytes data.length =
      (resize bytes (bytes.length + data.length) >>= fun v =>
        pure ⟨v, 0, bytes.length⟩) := by
    have hnone : ¬ data.length ≤ 0 := by omega
    have hzero : wadd 64 0 0 = 0 := rfl
    simp only [ReadBuffer.ensureWriteableBytes, ReadBuffer.filled, hspace,
      hadd, hzero, if_neg hnone]
  rw [ReadBuffer.appendTobuffer, hgrow, resize]
  split
  · next hle =>
    -- the zeros of the `resize` are just what the `memcpy` overwrites
    have hroom : bytes.length + data.length ≤
        (bytes ++ List.replicate data.length (0 : UInt8)).length := by simp
    have hover : overwrite (bytes ++ List.replicate data.length 0)
        bytes.length data = bytes ++ data := by
      simp [overwrite]
    have htake : bytes.take (bytes.length + data.length) = bytes :=
      List.take_of_length_le (by omega)
    rw [htake, Nat.add_sub_cancel_left]
    simp only [bind, Except.bind, pure, Except.pure, memcpy, if_pos hroom,
      hover, hadd]
    simp only [ReadBuffer.filled, List.length_append]
  · rfl

/-- The append to the buffer of a context. -/
theorem ClientContext.appendTobuffer_filled {ctx : ClientContext}
    (hb : ctx.clientReadBuffer = some (.filled bytes))
    (h : bytes.length ≤ maxSize) (hdata : data ≠ [])
    (hlen : data.length ≤ 4096) :
    ctx.appendTobuffer data =
      if bytes.length + data.length ≤ maxSize then
        .ok { ctx with clientReadBuffer := some (.filled (bytes ++ data)) }
      else .error .threw := by
  rw [ClientContext.appendTobuffer, hb]
  simp only [ReadBuffer.filled_append h hdata hlen]
  by_cases hle : bytes.length + data.length ≤ maxSize
  · rw [if_pos hle, if_pos hle]
  · rw [if_neg hle, if_neg hle]

end

end Mtasc
