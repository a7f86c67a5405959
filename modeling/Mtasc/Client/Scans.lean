import Mtasc.Client.ReadTls

/-!
# The four scans for the delimiter

`async_read_until`, `async_read_until_tls` and their two helpers have a copy of
one loop each. Three compare the delimiter with the readable bytes at every
offset. The fourth adds the number of readable bytes to its base, where it ought
to add the offset: it compares what lies behind them.
-/

namespace Mtasc

open Lib

/-- What a scan has found, and the offsets from `peekData()` at which it has
compared. -/
structure ScanResult where
  found : Bool
  compared : List ℕ
deriving DecidableEq, Repr

/-- The `for` of a scan over the values of its `int`, with `memcmp` at `offset`
of each. -/
def scanAt (mem : Bytes) (delimiter : Bytes) (offset : ℕ → ℕ) :
    List ℕ → ScanResult
  | [] => ⟨false, []⟩
  | i :: is =>
      if memcmpEq mem (offset i) delimiter then ⟨true, [offset i]⟩
      else
        let rest := scanAt mem delimiter offset is
        ⟨rest.found, offset i :: rest.compared⟩

/-- The values the `int` takes while `int + M_delimiter.size()` is at most
`readableBytes`. From `2 ^ 31` on it is negative. -/
def scanIndices (readableBytes : ℕ) (delimiter : Bytes) : List ℕ :=
  List.range (min (readableBytes + 1 - delimiter.length) 2147483648)

/-- `case VERIFY` of `async_read_until`. -/
def readUntilScan (b : ReadBuffer) (delimiter : Bytes) : ScanResult :=
  scanAt b.peekData delimiter (fun i => i) (scanIndices b.readableBytes delimiter)

/-- The scan of `M_retryTcpRead_until`. -/
def retryTcpReadUntilScan (b : ReadBuffer) (delimiter : Bytes) : ScanResult :=
  scanAt b.peekData delimiter (fun i => i) (scanIndices b.readableBytes delimiter)

/-- `case VERIFY` of `async_read_until_tls`. -/
def readUntilTlsScan (b : ReadBuffer) (past delimiter : Bytes) : ScanResult :=
  scanAt (b.peekData ++ past) delimiter (fun _ => b.readableBytes)
    (scanIndices b.readableBytes delimiter)

/-- The scan of `M_ssl_read_until_retry`. -/
def sslReadUntilRetryScan (b : ReadBuffer) (delimiter : Bytes) : ScanResult :=
  scanAt b.peekData delimiter (fun i => i) (scanIndices b.readableBytes delimiter)

inductive DelimiterScan where
  | readUntil
  | retryTcpReadUntil
  | readUntilTls
  | sslReadUntilRetry
deriving DecidableEq, Repr

/-- A scan of the buffer `b`, behind whose vector the memory is `past`. -/
def DelimiterScan.run (b : ReadBuffer) (past delimiter : Bytes) :
    DelimiterScan → ScanResult
  | .readUntil => readUntilScan b delimiter
  | .retryTcpReadUntil => retryTcpReadUntilScan b delimiter
  | .readUntilTls => readUntilTlsScan b past delimiter
  | .sslReadUntilRetry => sslReadUntilRetryScan b delimiter

/-- A scan finds what occurs in the readable bytes, and compares only these. -/
structure FindsReadable (b : ReadBuffer) (delimiter : Bytes) (r : ScanResult) :
    Prop where
  found : r.found = true ↔ delimiter <:+: b.readable
  inside : ∀ i ∈ r.compared, i + delimiter.length ≤ b.readableBytes

section

variable {mem delimiter past bytes : Bytes} {offset : ℕ → ℕ} {is : List ℕ}
variable {b : ReadBuffer}

/-! ## The loop -/

theorem scanAt_found :
    (scanAt mem delimiter offset is).found =
      is.any fun i => memcmpEq mem (offset i) delimiter := by
  induction is with
  | nil => rfl
  | cons i is ih =>
      rw [scanAt, List.any_cons]
      split
      · next heq => rw [heq, Bool.true_or]
      · next hne =>
        rw [ih, Bool.eq_false_iff.mpr hne, Bool.false_or]

theorem scanAt_compared : ∀ j ∈ (scanAt mem delimiter offset is).compared,
    ∃ i ∈ is, j = offset i := by
  induction is with
  | nil =>
      intro j hj
      cases hj
  | cons i is ih =>
      intro j hj
      rw [scanAt] at hj
      split at hj
      · exact ⟨i, List.mem_cons_self, List.mem_singleton.mp hj⟩
      · rcases List.mem_cons.mp hj with rfl | hj
        · exact ⟨i, List.mem_cons_self, rfl⟩
        · obtain ⟨i', hi', heq⟩ := ih j hj
          exact ⟨i', List.mem_cons_of_mem _ hi', heq⟩

/-- The first value of the `int` is always compared at. -/
theorem scanAt_first {i : ℕ} :
    offset i ∈ (scanAt mem delimiter offset (i :: is)).compared := by
  rw [scanAt]
  split
  · exact List.mem_singleton_self _
  · exact List.mem_cons_self

/-! ## What is found -/

/-- What a scan of given bytes finds occurs in them. -/
theorem delimiterIn_sound (h : delimiterIn delimiter bytes = true) :
    delimiter <:+: bytes := by
  rw [delimiterIn, scan, List.any_eq_true] at h
  obtain ⟨i, -, heq⟩ := h
  rw [memcmpEq, beq_iff_eq, slice] at heq
  rw [← heq]
  exact (List.take_prefix _ _).isInfix.trans (List.drop_suffix i bytes).isInfix

/-- Of fewer than `2 ^ 31` bytes a scan leaves no offset out. -/
theorem delimiterIn_iff (hlen : bytes.length < 2 ^ 31) :
    delimiterIn delimiter bytes = true ↔ delimiter <:+: bytes := by
  constructor
  · exact delimiterIn_sound
  · intro hocc
    obtain ⟨i, hle, heq⟩ := infix_iff_slice.mp hocc
    rw [delimiterIn, scan, List.any_eq_true]
    refine ⟨i, ?_, ?_⟩
    · rw [List.mem_range, lt_min_iff]
      omega
    · rw [memcmpEq, beq_iff_eq]
      exact heq

theorem ReadBuffer.WellFormed.findDelimiter_sound (hwf : b.WellFormed)
    (h : b.findDelimiter delimiter = true) : delimiter <:+: b.readable := by
  rw [hwf.findDelimiter_eq] at h
  exact delimiterIn_sound h

/-- The scans are those of the operations. -/
theorem DelimiterScan.run_found (s : DelimiterScan) (b : ReadBuffer)
    (past delimiter : Bytes) :
    (s.run b past delimiter).found =
      if s = .readUntilTls then
        scan b.readableBytes delimiter fun _ =>
          memcmpEq (b.peekData ++ past) b.readableBytes delimiter
      else b.findDelimiter delimiter := by
  cases s with
  | readUntil => exact scanAt_found
  | retryTcpReadUntil => exact scanAt_found
  | readUntilTls => exact scanAt_found
  | sslReadUntilRetry => exact scanAt_found

/-- A scan at the values of its `int`. -/
theorem findsReadable_offsets (hwf : b.WellFormed)
    (hlen : b.readableBytes < 2 ^ 31) (hd : delimiter ≠ []) :
    FindsReadable b delimiter (scanAt b.peekData delimiter (fun i => i)
      (scanIndices b.readableBytes delimiter)) := by
  have hpos := List.length_pos_iff.mpr hd
  constructor
  · rw [scanAt_found, ← delimiterIn_iff (hwf.readable_length ▸ hlen),
      ← hwf.findDelimiter_eq]
    exact Iff.rfl
  · intro j hj
    obtain ⟨i, hi, rfl⟩ := scanAt_compared j hj
    rw [scanIndices, List.mem_range, lt_min_iff] at hi
    omega

/-- The scan behind the readable bytes is harmless where it does not begin. -/
theorem readUntilTlsScan_iff (hwf : b.WellFormed)
    (hlen : b.readableBytes < 2 ^ 31) (hd : delimiter ≠ []) :
    FindsReadable b delimiter (readUntilTlsScan b past delimiter) ↔
      b.readableBytes < delimiter.length := by
  have hpos := List.length_pos_iff.mpr hd
  constructor
  · intro hfinds
    by_contra hlong
    have hfirst : scanIndices b.readableBytes delimiter =
        0 :: (List.range (min (b.readableBytes + 1 - delimiter.length)
          2147483648 - 1)).map Nat.succ := by
      rw [scanIndices, ← List.range_succ_eq_map]
      congr 1
      omega
    have hbehind := hfinds.inside b.readableBytes (by
      rw [readUntilTlsScan, hfirst]
      exact scanAt_first)
    omega
  · intro hshort
    have hnone : scanIndices b.readableBytes delimiter = [] := by
      rw [scanIndices, List.range_eq_nil]
      omega
    rw [readUntilTlsScan, hnone]
    refine ⟨iff_of_false Bool.false_ne_true fun hocc => ?_, nofun⟩
    have hle := hocc.length_le
    rw [hwf.readable_length] at hle
    omega

/-- **When a scan is right.** For every well-formed buffer with fewer than
`2 ^ 31` readable bytes and every delimiter: three of the scans find it exactly
if it occurs in the readable bytes and compare nothing else; the one of
`async_read_until_tls` does so if and only if the delimiter is longer than what
is readable. -/
theorem delimiterScan_iff (s : DelimiterScan) (b : ReadBuffer)
    (hwf : b.WellFormed) (hlen : b.readableBytes < 2 ^ 31)
    (past delimiter : Bytes) (hd : delimiter ≠ []) :
    FindsReadable b delimiter (s.run b past delimiter) ↔
      s ≠ .readUntilTls ∨ b.readableBytes < delimiter.length := by
  have hoffsets := findsReadable_offsets hwf hlen hd
  cases s with
  | readUntil => exact iff_of_true hoffsets (Or.inl (by decide))
  | retryTcpReadUntil => exact iff_of_true hoffsets (Or.inl (by decide))
  | sslReadUntilRetry => exact iff_of_true hoffsets (Or.inl (by decide))
  | readUntilTls =>
      rw [DelimiterScan.run, readUntilTlsScan_iff hwf hlen hd]
      simp

/-- `GET` and an end of line. -/
def lineBuffer : ReadBuffer := .filled [71, 69, 84, 10]

theorem delimiterScan_iff_line :
    FindsReadable lineBuffer [10] (DelimiterScan.run lineBuffer [] [10]
      .readUntil) ↔
      DelimiterScan.readUntil ≠ .readUntilTls ∨
        lineBuffer.readableBytes < ([10] : Bytes).length :=
  delimiterScan_iff .readUntil lineBuffer
    (ReadBuffer.filled_wellFormed (by decide)) (by decide) [] [10] (by decide)

/-- The end of the line is there, and the scan of `async_read_until_tls` compares
behind it, four times. A stale one behind a single readable byte is found. -/
theorem delimiterScan_behind :
    DelimiterScan.run lineBuffer [] [10] .readUntilTls =
        ⟨false, [4, 4, 4, 4]⟩ ∧
      DelimiterScan.run ⟨[65, 10], 0, 1⟩ [] [10] .readUntilTls = ⟨true, [1]⟩ ∧
      ¬ ∀ (s : DelimiterScan) (b : ReadBuffer) (past delimiter : Bytes),
        b.WellFormed → b.readableBytes < 2 ^ 31 → delimiter ≠ [] →
        FindsReadable b delimiter (s.run b past delimiter) := by
  refine ⟨by decide +kernel, by decide +kernel, fun hall => ?_⟩
  have hfinds := hall .readUntilTls lineBuffer [] [10]
    (ReadBuffer.filled_wellFormed (by decide)) (by decide) (by decide)
  have hfound := hfinds.found.mpr (by decide)
  exact absurd hfound (by decide +kernel)

end

end Mtasc
