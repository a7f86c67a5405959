import Mtasc.Client.Failures
import Mtasc.Lib.Lockstep

/-!
# The attempts of `M_retryTcpConnect`

What the replies of an oracle hold for so many attempts to connect, without
the helper's loop. The helper, given enough iterations, comes to that for the
attempts which its count leaves, and leaves its flag as it found it where none
of them connects.
-/

namespace Mtasc

open Lib ConnectTrace

/-- What an attempt comes to: a connection, an `errno` of 0, after which there
are no others, or none of both. -/
inductive AttemptEnd where
  | connected
  | unset
  | refused
deriving DecidableEq, Repr

section

variable (o : Oracle ConnectCall ConnectCall.Reply) (fd : ℤ) (addr : Addrinfo)

/-- An attempt after the history `h`: what it comes to, and the history behind
it. -/
def attempt (h : ConnectTrace) : AttemptEnd × ConnectTrace :=
  let errno : ℤ := o h .errno
  let h := h ++ [⟨.errno, errno⟩]
  if errno = eisconn then
    (.connected, h)
  else if errno = 0 then
    (.unset, h)
  else
    let result : ℤ := o h (.connect fd addr)
    (if result < 0 then .refused else .connected,
      h ++ [⟨.connect fd addr, result⟩])

/-- At most `k` attempts, up to the first that is not refused. -/
def attempts : ℕ → ConnectTrace → AttemptEnd × ConnectTrace
  | 0, h => (.refused, h)
  | k + 1, h =>
    match attempt o fd addr h with
    | (.refused, h) => attempts k h
    | settled => settled

variable {o fd addr} {k l : ℕ} {h : ConnectTrace}

theorem attempt_length (h : ConnectTrace) :
    h.length < (attempt o fd addr h).2.length := by
  have hsnoc : ∀ (h : ConnectTrace) e, h.length < (h ++ [e]).length := by
    intro h e
    rw [List.length_append]
    exact Nat.lt_succ_self _
  rw [attempt]
  dsimp only
  split
  · exact hsnoc h _
  · split
    · exact hsnoc h _
    · exact (hsnoc h _).trans (hsnoc _ _)

theorem attempts_refused (ha : (attempt o fd addr h).1 = .refused) :
    attempts o fd addr (k + 1) h =
      attempts o fd addr k (attempt o fd addr h).2 := by
  rw [attempts]
  split
  · rename_i hattempt
    rw [hattempt]
  · rename_i hother
    exact (hother _ (Prod.ext ha rfl)).elim

theorem attempts_settled (ha : (attempt o fd addr h).1 ≠ .refused) :
    attempts o fd addr (k + 1) h = attempt o fd addr h := by
  rw [attempts]
  split
  · rename_i hattempt
    rw [hattempt] at ha
    exact absurd rfl ha
  · rfl

theorem attempts_length_le (k : ℕ) (h : ConnectTrace) :
    h.length ≤ (attempts o fd addr k h).2.length := by
  induction k generalizing h with
  | zero => exact Nat.le_refl _
  | succ k ih =>
      by_cases ha : (attempt o fd addr h).1 = .refused
      · rw [attempts_refused ha]
        exact (attempt_length h).le.trans (ih _)
      · rw [attempts_settled ha]
        exact (attempt_length h).le

/-- Attempts that have come to something are not followed by others. -/
theorem attempts_of_settled (hkl : k ≤ l)
    (hv : (attempts o fd addr k h).1 ≠ .refused) :
    attempts o fd addr l h = attempts o fd addr k h := by
  induction k generalizing l h with
  | zero => exact absurd rfl hv
  | succ k ih =>
      obtain ⟨l, rfl⟩ := Nat.exists_eq_add_of_lt hkl
      by_cases ha : (attempt o fd addr h).1 = .refused
      · rw [attempts_refused ha] at hv
        rw [attempts_refused ha, attempts_refused ha]
        exact ih (Nat.le_add_right k l) hv
      · rw [attempts_settled ha, attempts_settled ha]

/-- Attempts that have all been refused are followed by another. -/
theorem attempts_of_refused (hkl : k < l)
    (hv : (attempts o fd addr k h).1 = .refused) :
    (attempts o fd addr k h).2.length < (attempts o fd addr l h).2.length := by
  induction k generalizing l h with
  | zero =>
      obtain ⟨l, rfl⟩ := Nat.exists_eq_succ_of_ne_zero hkl.ne'
      by_cases ha : (attempt o fd addr h).1 = .refused
      · rw [attempts_refused ha]
        exact (attempt_length h).trans_le (attempts_length_le l _)
      · rw [attempts_settled ha]
        exact attempt_length h
  | succ k ih =>
      obtain ⟨l, rfl⟩ := Nat.exists_eq_succ_of_ne_zero (Nat.ne_zero_of_lt hkl)
      by_cases ha : (attempt o fd addr h).1 = .refused
      · rw [attempts_refused ha] at hv
        rw [attempts_refused ha, attempts_refused ha]
        exact ih (Nat.lt_of_succ_lt_succ hkl) hv
      · rw [attempts_settled ha] at hv
        exact absurd hv ha

/-! ## The helper -/

/-- The attempts that the count leaves. -/
def ClientContext.attemptsLeft (ctx : ClientContext) : ℕ :=
  (ctx.retryLimit - ctx.connectRetyCount).toNat

variable {c : ClientContext} {rest : List Addrinfo}

/-- How an iteration goes on after an attempt. -/
def afterAttempt (c : ClientContext) :
    AttemptEnd → Iter ClientContext (Except CallEnd ClientContext)
  | .connected => .done (.ok { c with isRetrySuccess := true })
  | .unset => .done (.ok c)
  | .refused =>
    if c.maxRetyCount = c.connectRetyCount then .done (.ok c) else .next c

/-- **An iteration is an attempt.** -/
theorem retryTcpConnectStep_exec (hlt : c.connectRetyCount < c.maxRetyCount)
    (haddrs : c.resovlerAddrs = addr :: rest) (h : ConnectTrace) :
    ∃ d : ClientContext, d.isRetrySuccess = c.isRetrySuccess ∧
      ((attempt o c.socketfd addr h).1 = .refused →
        d = { c with connectRetyCount := c.connectRetyCount + 1 }) ∧
      (retryTcpConnectStep c).exec o h =
        (.done (afterAttempt d (attempt o c.socketfd addr h).1),
          (attempt o c.socketfd addr h).2) := by
  rw [retryTcpConnectStep, if_pos hlt, Prog.exec_perform_bind]
  by_cases hconn : (o h .errno : ℤ) = 106
  · have ha : attempt o c.socketfd addr h =
        (.connected, h ++ [⟨.errno, o h .errno⟩]) := if_pos hconn
    refine ⟨c, rfl, fun hr => ?_, ?_⟩
    · rw [ha] at hr
      cases hr
    · rw [if_pos hconn, ha]
      rfl
  · by_cases hunset : (o h .errno : ℤ) = 0
    · have ha : attempt o c.socketfd addr h =
          (.unset, h ++ [⟨.errno, o h .errno⟩]) := by
        rw [attempt]
        dsimp only
        rw [if_neg hconn, if_pos hunset]
      refine ⟨c, rfl, fun hr => ?_, ?_⟩
      · rw [ha] at hr
        cases hr
      · rw [if_neg hconn, if_neg, ha]
        · rfl
        · rw [hunset]
          simp
    · -- any other `errno` leads to a `connect`
      refine ⟨{ c with connectRetyCount := c.connectRetyCount + 1 }, rfl,
        fun _ => rfl, ?_⟩
      have hretry : (o h .errno : ℤ) = eagain ∨ (o h .errno : ℤ) = eintr ∨
          (o h .errno : ℤ) = etimedout ∨
          (o h .errno : ℤ) ≠ 0 ∧ c.maxRetyCount > c.connectRetyCount :=
        Or.inr (Or.inr (Or.inr ⟨hunset, hlt⟩))
      rw [if_neg hconn, if_pos hretry, attempt]
      dsimp only
      rw [if_neg hconn, if_neg hunset, haddrs]
      dsimp only
      rw [Prog.exec_perform_bind]
      generalize o (h ++ _) (.connect c.socketfd addr) = result
      by_cases hresult : result < 0
      · rw [if_pos hresult, if_pos hresult, afterAttempt]
        by_cases hlast : c.maxRetyCount = c.connectRetyCount + 1
        · rw [if_pos hlast, if_pos hlast]
          rfl
        · rw [if_neg hlast, if_neg hlast]
          rfl
      · rw [if_neg hresult, if_neg hresult]
        rfl

/-- `M_is_retry_success` of what a helper returns. -/
def succeeded {ε : Type} : Except ε ClientContext → Except ε Bool :=
  Except.map ClientContext.isRetrySuccess

/-- The flag that a helper returns which has found it at `success`. -/
def AttemptEnd.flag (v : AttemptEnd) (success : Bool) : Bool :=
  v = .connected || success

/-- The loop, with `k` attempts left. -/
theorem retryTcpConnectLoop_exec (haddrs : c.resovlerAddrs = addr :: rest)
    (hleft : (c.maxRetyCount - c.connectRetyCount).toNat = k) {n : ℕ}
    (hfuel : k < n) (h : ConnectTrace) :
    ∃ d : ClientContext, d.isRetrySuccess =
        (attempts o c.socketfd addr k h).1.flag c.isRetrySuccess ∧
      (Prog.iterate retryTcpConnectStep n c).exec o h =
        (.done (.ok d), (attempts o c.socketfd addr k h).2) := by
  induction k generalizing c n h with
  | zero =>
      obtain ⟨n, rfl⟩ := Nat.exists_eq_succ_of_ne_zero hfuel.ne'
      -- the limit is reached, and the `while` not entered
      have hdone : ¬ c.connectRetyCount < c.maxRetyCount := by omega
      refine ⟨c, rfl, Prog.exec_iterate_done ?_ n⟩
      rw [retryTcpConnectStep, if_neg hdone]
      rfl
  | succ k ih =>
      obtain ⟨n, rfl⟩ := Nat.exists_eq_succ_of_ne_zero (Nat.ne_zero_of_lt hfuel)
      have hlt : c.connectRetyCount < c.maxRetyCount := by omega
      obtain ⟨d, hflag, hnext, hstep⟩ :=
        retryTcpConnectStep_exec (o := o) hlt haddrs h
      cases hv : (attempt o c.socketfd addr h).1 with
      | connected =>
          have hsettled : attempts o c.socketfd addr (k + 1) h =
              attempt o c.socketfd addr h :=
            attempts_settled (by rw [hv]; decide)
          rw [hv] at hstep
          rw [hsettled, hv]
          exact ⟨_, rfl, Prog.exec_iterate_done hstep n⟩
      | unset =>
          have hsettled : attempts o c.socketfd addr (k + 1) h =
              attempt o c.socketfd addr h :=
            attempts_settled (by rw [hv]; decide)
          rw [hv] at hstep
          rw [hsettled, hv]
          exact ⟨d, hflag, Prog.exec_iterate_done hstep n⟩
      | refused =>
          obtain rfl := hnext hv
          rw [hv, afterAttempt] at hstep
          rw [attempts_refused hv]
          -- the last attempt leaves by `break`, and the count would do as well
          by_cases hlast : c.maxRetyCount = c.connectRetyCount + 1
          · rw [if_pos hlast] at hstep
            obtain rfl : k = 0 := by omega
            exact ⟨{ c with connectRetyCount := c.connectRetyCount + 1 }, rfl,
              Prog.exec_iterate_done hstep n⟩
          · rw [if_neg hlast] at hstep
            rw [Prog.exec_iterate_next hstep]
            have hrest : (c.maxRetyCount - (c.connectRetyCount + 1)).toNat = k := by
              omega
            exact ih (c := { c with connectRetyCount := c.connectRetyCount + 1 })
              haddrs hrest (Nat.lt_of_succ_lt_succ hfuel) _

/-- **What `M_retryTcpConnect` comes to.** -/
theorem retryTcpConnect_observe {fuel : ℕ}
    (haddrs : c.resovlerAddrs = addr :: rest) (hfuel : c.connectBound ≤ fuel)
    (errnoCopy : ℤ) (h : ConnectTrace) :
    (retryTcpConnect fuel c errnoCopy).observe succeeded o h =
      (.done (.ok ((attempts o c.socketfd addr c.attemptsLeft h).1.flag
          c.isRetrySuccess)),
        (attempts o c.socketfd addr c.attemptsLeft h).2) := by
  have hloop : ∀ d : ClientContext, d = { c with maxRetyCount := c.retryLimit } →
      ∃ e : ClientContext, e.isRetrySuccess =
          (attempts o c.socketfd addr c.attemptsLeft h).1.flag
            c.isRetrySuccess ∧
        (Prog.iterate retryTcpConnectStep fuel d).exec o h =
          (.done (.ok e),
            (attempts o c.socketfd addr c.attemptsLeft h).2) := by
    rintro d rfl
    exact retryTcpConnectLoop_exec (c := { c with maxRetyCount := c.retryLimit })
      haddrs rfl hfuel h
  obtain ⟨e, hflag, hexec⟩ := hloop
    (if c.maxRetyCount ≤ 0 then { c with maxRetyCount := 10 } else c) (by
      rw [ClientContext.retryLimit]
      split <;> rfl)
  rw [Prog.observe, retryTcpConnect, Prog.exec_bind_done hexec]
  exact Prod.ext (congrArg (fun b => Status.done (Except.ok b)) hflag) rfl

/-! ## Two runs of it -/

/-- The same comes of `k` attempts and of more for helpers that have found
their flags at `success` and `success'`. -/
theorem attempts_same_iff_of_le (hkl : k ≤ l) (success success' : Bool) :
    ((attempts o fd addr k h).1.flag success =
          (attempts o fd addr l h).1.flag success' ∧
        (attempts o fd addr k h).2 = (attempts o fd addr l h).2) ↔
      (attempts o fd addr k h).1 = .connected ∨
        success = success' ∧
          ((attempts o fd addr k h).1 = .unset ∨ k = l) := by
  cases hv : (attempts o fd addr k h).1 with
  | connected =>
      have hsame : attempts o fd addr l h = attempts o fd addr k h :=
        attempts_of_settled hkl (by rw [hv]; decide)
      rw [hsame, hv]
      exact iff_of_true ⟨rfl, rfl⟩ (Or.inl rfl)
  | unset =>
      have hsame : attempts o fd addr l h = attempts o fd addr k h :=
        attempts_of_settled hkl (by rw [hv]; decide)
      rw [hsame, hv]
      constructor
      · rintro ⟨hflag, -⟩
        exact Or.inr ⟨hflag, Or.inl rfl⟩
      · rintro (hconn | ⟨hflag, -⟩)
        · cases hconn
        · exact ⟨hflag, rfl⟩
  | refused =>
      constructor
      · rintro ⟨hflag, hcalls⟩
        rcases hkl.eq_or_lt with rfl | hlt
        · rw [hv] at hflag
          exact Or.inr ⟨hflag, Or.inr rfl⟩
        · have hmore := attempts_of_refused hlt hv
          rw [hcalls] at hmore
          exact absurd hmore (Nat.lt_irrefl _)
      · rintro (hconn | ⟨hflag, hunset | hsame⟩)
        · cases hconn
        · cases hunset
        · rw [← hsame, hv, hflag]
          exact ⟨rfl, rfl⟩

/-- For two allowances in any order, the smaller one decides. -/
theorem attempts_same_iff (k l : ℕ) (success success' : Bool) :
    ((attempts o fd addr k h).1.flag success =
          (attempts o fd addr l h).1.flag success' ∧
        (attempts o fd addr k h).2 = (attempts o fd addr l h).2) ↔
      (attempts o fd addr (min k l) h).1 = .connected ∨
        success = success' ∧
          ((attempts o fd addr (min k l) h).1 = .unset ∨ k = l) := by
  rcases le_total k l with hkl | hlk
  · rw [min_eq_left hkl]
    exact attempts_same_iff_of_le hkl success success'
  · rw [min_eq_right hlk, eq_comm, eq_comm (a := (attempts o fd addr k h).2),
      attempts_same_iff_of_le hlk, eq_comm (a := success), eq_comm (a := k)]

end

end Mtasc
