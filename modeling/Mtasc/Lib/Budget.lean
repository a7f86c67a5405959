import Mtasc.Lib.Interact

/-!
# Loops with a budget of calls

`callsOf kind h` is the number of calls of a kind that a history has. A loop
keeps to a budget when every iteration pays for the calls it makes: `left s`
is what the state `s` can still pay for, and it falls from one iteration to
the next. Then the calls of the loop are bounded, and so are its iterations
(`sat_iterate_budget`): a program that `KeepsBudget` is cut off only where it
has been granted no more iterations than its budget. What keeps it to what is
defined is a condition `p` of its end, and not of its calls.
-/

namespace Mtasc.Lib

variable {Q : Type} {R : Q → Type} {α β σ ρ : Type}

/-- The number of calls of a kind. -/
def callsOf (kind : Q → Bool) (h : History Q R) : ℕ :=
  h.countP fun e => kind e.1

/-- A program with `n` calls of a kind to spend, and with `fuel` iterations:
it has spent no more, all it has done is defined if `p` holds, and what it
ends with is `good`. -/
structure KeepsBudget (kind : Q → Bool) (n fuel : ℕ) (p : Prop)
    (good : History Q R → α → Prop) (h : History Q R) (st : Status α) :
    Prop where
  calls : callsOf kind h ≤ n
  stuck : st = .stuck → fuel ≤ n
  defined : st = .undefined → ¬ p
  good : ∀ a, st = .done a → good h a

/-- The next state of a loop, after an iteration from a state that could pay
for `m` calls. -/
structure Paid (kind : Q → Bool) (n : ℕ) (left : σ → ℕ)
    (I : σ → History Q R → Prop) (m : ℕ) (s : σ) (h : History Q R) : Prop where
  inv : I s h
  falls : left s < m
  affords : callsOf kind h + left s ≤ n

/-- What an iteration of such a loop establishes. -/
abbrev PaidIter (kind : Q → Bool) (n fuel : ℕ) (p : Prop)
    (good : History Q R → ρ → Prop) (left : σ → ℕ)
    (I : σ → History Q R → Prop) (m : ℕ) :
    History Q R → Status (Iter σ ρ) → Prop :=
  Prog.andThen (KeepsBudget kind n fuel p good)
    (Prog.afterIter (KeepsBudget kind n fuel p good) (Paid kind n left I m))

section

variable {kind : Q → Bool} {n fuel : ℕ} {p : Prop} {h : History Q R}
variable {good : History Q R → α → Prop}
variable {ok : History Q R → (q : Q) → R q → Prop}

/-! ## Counting -/

@[simp] theorem callsOf_nil : callsOf kind ([] : History Q R) = 0 := rfl

theorem callsOf_snoc {q : Q} {r : R q} :
    callsOf kind (h ++ [⟨q, r⟩]) = callsOf kind h + if kind q then 1 else 0 := by
  simp [callsOf, List.countP_append, List.countP_singleton]

theorem callsOf_other {q : Q} (hq : kind q = false) (r : R q) :
    callsOf kind (h ++ [⟨q, r⟩]) = callsOf kind h := by
  rw [callsOf_snoc, hq]
  rfl

theorem callsOf_one {q : Q} (hq : kind q = true) (r : R q) :
    callsOf kind (h ++ [⟨q, r⟩]) = callsOf kind h + 1 := by
  rw [callsOf_snoc, hq]
  rfl

section

variable {φ : History Q R → Status α → Prop} {q : Q} {f : R q → Prog Q R α}

/-- A call of another kind. -/
theorem sat_call_free (kind : Q → Bool) (hq : kind q = false)
    (hcalling : φ h .calling)
    (hnext : ∀ r, ok h q r → callsOf kind (h ++ [⟨q, r⟩]) = callsOf kind h →
      (f r).Sat ok φ (h ++ [⟨q, r⟩])) :
    (Prog.perform q >>= f).Sat ok φ h := by
  refine Prog.sat_perform_bind.mpr ⟨hcalling, ?_⟩
  intro r hr
  exact hnext r hr (callsOf_other hq r)

/-- A call of the kind. -/
theorem sat_call_paid (kind : Q → Bool) (hq : kind q = true)
    (hcalling : φ h .calling)
    (hnext : ∀ r, ok h q r →
      callsOf kind (h ++ [⟨q, r⟩]) = callsOf kind h + 1 →
      (f r).Sat ok φ (h ++ [⟨q, r⟩])) :
    (Prog.perform q >>= f).Sat ok φ h := by
  refine Prog.sat_perform_bind.mpr ⟨hcalling, ?_⟩
  intro r hr
  exact hnext r hr (callsOf_one hq r)

end

/-! ## Within the budget -/

theorem KeepsBudget.calling (hcalls : callsOf kind h ≤ n) :
    KeepsBudget kind n fuel p good h .calling := by
  refine ⟨hcalls, ?_, ?_, ?_⟩
  · intro hst
    cases hst
  · intro hst
    cases hst
  · intro a hst
    cases hst

theorem KeepsBudget.done {a : α} (hcalls : callsOf kind h ≤ n)
    (hgood : good h a) : KeepsBudget kind n fuel p good h (.done a) := by
  refine ⟨hcalls, ?_, ?_, ?_⟩
  · intro hst
    cases hst
  · intro hst
    cases hst
  · intro a' hst
    cases hst
    exact hgood

theorem KeepsBudget.cutOff (hcalls : callsOf kind h ≤ n) (hfuel : fuel ≤ n) :
    KeepsBudget kind n fuel p good h .stuck := by
  refine ⟨hcalls, fun _ => hfuel, ?_, ?_⟩
  · intro hst
    cases hst
  · intro a hst
    cases hst

theorem KeepsBudget.undefined (hcalls : callsOf kind h ≤ n) (hp : ¬ p) :
    KeepsBudget kind n fuel p good h .undefined := by
  refine ⟨hcalls, ?_, fun _ => hp, ?_⟩
  · intro hst
    cases hst
  · intro a hst
    cases hst

theorem KeepsBudget.mono {p' : Prop} {good' : History Q R → α → Prop}
    {st : Status α} (hk : KeepsBudget kind n fuel p good h st)
    (hp : p' → p) (hgood : ∀ a, good h a → good' h a) :
    KeepsBudget kind n fuel p' good' h st where
  calls := hk.calls
  stuck := hk.stuck
  defined := fun hst hp' => hk.defined hst (hp hp')
  good := fun a hst => hgood a (hk.good a hst)

/-- What follows a program makes no more calls. -/
theorem sat_map_budget {good' : History Q R → β → Prop} {prog : Prog Q R α}
    {f : α → β} (hp : prog.Sat ok (KeepsBudget kind n fuel p good) h)
    (hgood : ∀ h a, good h a → good' h (f a)) :
    (prog >>= fun a => (pure (f a) : Prog Q R β)).Sat ok
      (KeepsBudget kind n fuel p good') h := by
  refine hp.bind ?_ ?_ ?_ ?_
  · intro h hk
    exact .calling hk.calls
  · intro h hk
    exact .cutOff hk.calls (hk.stuck rfl)
  · intro a h hk
    exact .done hk.calls (hgood h a (hk.good a rfl))
  · intro h hk
    exact .undefined hk.calls (hk.defined rfl)

/-- **The rule for a loop that pays for its calls.** -/
theorem sat_iterate_budget {body : σ → Prog Q R (Iter σ ρ)}
    {good : History Q R → ρ → Prop} (left : σ → ℕ)
    (I : σ → History Q R → Prop)
    (hstep : ∀ s h, I s h → callsOf kind h + left s ≤ n →
      (body s).Sat ok (PaidIter kind n fuel p good left I (left s)) h)
    {s : σ} (hI : I s h) (hleft : callsOf kind h + left s ≤ n) :
    (Prog.iterate body fuel s).Sat ok (KeepsBudget kind n fuel p good) h := by
  -- with `k` iterations to go, `fuel - k` have been paid for
  refine Prog.sat_iterate (fun k s h => I s h ∧ callsOf kind h + left s ≤ n ∧
    left s + fuel ≤ n + k) ?_ ?_ fuel s h ⟨hI, hleft, by omega⟩
  · rintro s h ⟨-, hleft, hpaid⟩
    exact .cutOff (by omega) (by omega)
  · rintro k s h ⟨hI, hleft, hpaid⟩
    refine (hstep s h hI hleft).mono fun h' st hst => ?_
    cases st with
    | calling => exact hst
    | stuck => exact hst
    | undefined => exact hst
    | done it =>
        cases it with
        | done r => exact hst
        | next s' =>
            have hnext : Paid kind n left I (left s) s' h' := hst
            refine ⟨hnext.inv, hnext.affords, ?_⟩
            have hfalls := hnext.falls
            omega

/-- **What a budget is good for**: with more iterations than that a run comes
to its end, if all it does is defined. -/
theorem KeepsBudget.ends {o : Oracle Q R} {prog : Prog Q R α}
    (hsat : prog.Sat ok (KeepsBudget kind n fuel p good) h) (ho : o.Obeys ok)
    (hfuel : n < fuel) :
    (prog.exec o h).1 ≠ .stuck ∧
      (p → ∃ a, (prog.exec o h).1 = .done a ∧ good (prog.exec o h).2 a) := by
  rcases hsat.exec_ends ho with
    ⟨h', hrun, hk⟩ | ⟨h', hrun, hk⟩ | ⟨a, h', hrun, hk⟩
  · have hle := hk.stuck rfl
    omega
  · rw [hrun]
    exact ⟨nofun, fun hp => absurd hp (hk.defined rfl)⟩
  · rw [hrun]
    exact ⟨nofun, fun _ => ⟨a, rfl, hk.good a rfl⟩⟩

end

end Mtasc.Lib
