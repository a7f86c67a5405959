import Mtasc.Client.Context

/-!
# Handing a context on

Between two operations a context is copied into a callback's parameter, moved
into a task and moved out of it again. A copy is faithful. The two moves are
written out field by field: neither names `M_connect_rety_count`, and both
take `M_timeout` through a `uint16_t`.
-/

namespace Mtasc

open Lib

/-- One hand-over: into a new context by copy or by move, or onto a context
that is already there. -/
inductive Transfer where
  | copyConstruct
  | moveConstruct
  | moveAssign (target : ClientContext)
deriving DecidableEq

namespace Transfer

def apply (ctx : ClientContext) : Transfer → ClientContext
  | .copyConstruct => ctx
  | .moveConstruct => ctx.moveConstruct
  | .moveAssign target => target.moveAssign ctx

/-- What a move leaves in `M_connect_rety_count`. -/
def leftCount : Transfer → Option ℤ
  | .copyConstruct => none
  | .moveConstruct => some 0
  | .moveAssign target => some target.connectRetyCount

end Transfer

/-- A sequence of hand-overs. -/
def transfer (ctx : ClientContext) (ts : List Transfer) : ClientContext :=
  ts.foldl Transfer.apply ctx

/-- The retry count that the last move of a sequence leaves. -/
def lastCount (ts : List Transfer) : Option ℤ :=
  (ts.filterMap Transfer.leftCount).getLast?

/-- Nothing is moved; or the timeout fits into a `uint16_t`, and the last move
leaves just the retry count that is handed on. -/
def KeepsContext (ctx : ClientContext) (ts : List Transfer) : Prop :=
  ∀ count, lastCount ts = some count →
    (0 ≤ ctx.timeout ∧ ctx.timeout < 65536) ∧ count = ctx.connectRetyCount

/-- What is left of a context by its last move. -/
def ClientContext.moved (ctx : ClientContext) : Option ℤ → ClientContext
  | none => ctx
  | some count =>
      { ctx with timeout := ctx.timeout % 65536, connectRetyCount := count }

section

variable {ctx : ClientContext} {ts : List Transfer}

/-- A `size_t` keeps every `int`. -/
theorem messageLength_cast {n : ℤ} (h : -2 ^ 31 ≤ n) (h' : n < 2 ^ 31) :
    wrapInt (toSizeT n) = n := by
  have hcast : (toSizeT n : ℤ) = n % 18446744073709551616 := by
    unfold toSizeT
    omega
  unfold wrapInt
  rw [hcast, Int.bmod_eq_iff (by omega)]
  omega

/-- Both moves are written with a `size_t` for `M_clientMessageLength`. It makes
no difference to what they leave. -/
theorem moves_cast (target : ClientContext)
    (h : -2 ^ 31 ≤ ctx.clientMessageLength)
    (h' : ctx.clientMessageLength < 2 ^ 31) :
    let cast := { ctx with
      clientMessageLength := wrapInt (toSizeT ctx.clientMessageLength) }
    cast.moveConstruct = ctx.moveConstruct ∧
      target.moveAssign cast = target.moveAssign ctx := by
  rw [messageLength_cast h h']
  exact ⟨rfl, rfl⟩

@[simp] theorem transfer_snoc {t : Transfer} :
    transfer ctx (ts ++ [t]) = t.apply (transfer ctx ts) := by
  simp [transfer]

theorem lastCount_snoc (ts : List Transfer) (t : Transfer) :
    lastCount (ts ++ [t]) = t.leftCount.or (lastCount ts) := by
  unfold lastCount
  rw [List.filterMap_append]
  cases ht : t.leftCount with
  | none => simp [ht]
  | some count => simp [ht]

/-- A second move truncates no more than the first. -/
theorem apply_moved (t : Transfer) (last : Option ℤ) :
    t.apply (ctx.moved last) = ctx.moved (t.leftCount.or last) := by
  have hmod : ctx.timeout % 65536 % 65536 = ctx.timeout % 65536 :=
    Int.emod_emod_of_dvd _ (Int.dvd_refl _)
  cases t <;> cases last <;>
    simp [Transfer.apply, Transfer.leftCount, ClientContext.moved,
      ClientContext.moveConstruct, ClientContext.moveAssign, hmod]

/-- Only the last move of a sequence matters. -/
theorem transfer_eq_moved : transfer ctx ts = ctx.moved (lastCount ts) := by
  induction ts using List.reverseRecOn with
  | nil => rfl
  | append_singleton ts t ih =>
      rw [transfer_snoc, ih, apply_moved, lastCount_snoc]

theorem moved_eq_iff {count : ℤ} :
    ctx.moved (some count) = ctx ↔
      (0 ≤ ctx.timeout ∧ ctx.timeout < 65536) ∧
        count = ctx.connectRetyCount := by
  constructor
  · intro h
    have htimeout : ctx.timeout % 65536 = ctx.timeout :=
      congrArg ClientContext.timeout h
    have hcount : count = ctx.connectRetyCount :=
      congrArg ClientContext.connectRetyCount h
    exact ⟨by omega, hcount⟩
  · rintro ⟨⟨hnonneg, hlt⟩, hcount⟩
    show { ctx with
      timeout := ctx.timeout % 65536, connectRetyCount := count } = ctx
    rw [Int.emod_eq_of_lt hnonneg hlt, hcount]

/-- **When a context is handed on unchanged.** It is, by copies alone; with a
move among the hand-overs exactly if its timeout is a `uint16_t` and the last
move leaves its retry count. -/
theorem transfer_eq_iff (ctx : ClientContext) (ts : List Transfer) :
    transfer ctx ts = ctx ↔ KeepsContext ctx ts := by
  rw [transfer_eq_moved]
  unfold KeepsContext
  cases hlast : lastCount ts with
  | none =>
      constructor
      · intro _ count hcount
        cases hcount
      · intro _
        rfl
  | some count =>
      rw [moved_eq_iff]
      constructor
      · rintro h count' hcount
        cases hcount
        exact h
      · intro h
        exact h count rfl

/-- The context of the TLS test, whose timeout is 5000000, does not survive
its first move. -/
theorem transfer_truncates :
    (transfer { connected with timeout := 5000000 } [.moveConstruct]).timeout =
        19264 ∧
      ¬ ∀ (ctx : ClientContext) (ts : List Transfer), transfer ctx ts = ctx := by
  refine ⟨by decide, fun hall => ?_⟩
  have h := hall { connected with timeout := 5000000 } [.moveConstruct]
  exact absurd h (by decide)

end

end Mtasc
