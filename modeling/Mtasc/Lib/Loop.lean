import Mathlib

/-!
# Loops with a counted number of iterations

`loop step n s` runs at most `n` iterations of a loop body from state `s`.
`Reaches step k s s'` says that the first `k` iterations from `s` lead to
`s'`, so that stretches of a run are put end to end by adding their counts.
`firstIn P a b` is the first index of the interval from `a` to `b` where `P`
holds, and `b` when there is none: what a scanning loop stops at.
-/

namespace Mtasc.Lib

/-- An iteration ends the loop with a result or leaves the next state. -/
inductive Iter (σ ρ : Type*) where
  | done (r : ρ)
  | next (s : σ)

section Loop

variable {σ ρ : Type*} (step : σ → Iter σ ρ)

def loop : ℕ → σ → Option ρ
  | 0, _ => none
  | n + 1, s =>
      match step s with
      | .done r => some r
      | .next s' => loop n s'

def Reaches (k : ℕ) (s s' : σ) : Prop :=
  ∀ n, loop step (k + n) s = loop step n s'

variable {step}

theorem Reaches.refl (s : σ) : Reaches step 0 s s := fun n => by
  rw [Nat.zero_add]

theorem Reaches.single {s s' : σ} (h : step s = .next s') :
    Reaches step 1 s s' := fun n => by
  rw [Nat.add_comm, loop, h]

theorem Reaches.trans {k l : ℕ} {s s' s'' : σ} (h : Reaches step k s s')
    (h' : Reaches step l s' s'') : Reaches step (k + l) s s'' := fun n => by
  rw [Nat.add_assoc, h, h']

/-- A scanning stretch: the state moves along `c` while the index counts up. -/
theorem Reaches.scan (c : ℕ → σ) {a b : ℕ} (hab : a ≤ b)
    (h : ∀ i, a ≤ i → i < b → step (c i) = .next (c (i + 1))) :
    Reaches step (b - a) (c a) (c b) := by
  induction b, hab using Nat.le_induction with
  | base =>
      rw [Nat.sub_self]
      exact .refl _
  | succ b hab ih =>
      have hb : b + 1 - a = (b - a) + 1 := by omega
      rw [hb]
      exact (ih fun i hi hib => h i hi (by omega)).trans
        (.single (h b hab (by omega)))

/-- A loop that reaches an ending iteration within its budget returns. -/
theorem Reaches.returns {k n : ℕ} {s s' : σ} {r : ρ}
    (h : Reaches step k s s') (hr : step s' = .done r) (hk : k < n) :
    loop step n s = some r := by
  obtain ⟨m, rfl⟩ : ∃ m, n = k + (m + 1) := ⟨n - k - 1, by omega⟩
  rw [h, loop, hr]

theorem loop_unique : ∀ {n m : ℕ} {s : σ} {r r' : ρ},
    loop step n s = some r → loop step m s = some r' → r = r'
  | 0, _, _, _, _, h, _ => by cases h
  | _ + 1, 0, _, _, _, _, h' => by cases h'
  | n + 1, m + 1, s, r, r', h, h' => by
      rw [loop] at h h'
      cases hs : step s with
      | done q =>
          rw [hs] at h h'
          exact Option.some.inj (h.symm.trans h')
      | next s' =>
          rw [hs] at h h'
          exact loop_unique h h'

/-- The image of an iteration. -/
def Iter.map {σ' ρ' : Type*} (φ : σ → σ') (ψ : ρ → ρ') : Iter σ ρ → Iter σ' ρ'
  | .done r => .done (ψ r)
  | .next s => .next (φ s)

/-- A loop that each iteration commutes with a map of the states runs alike
from the image. -/
theorem loop_map {σ' ρ' : Type*} {step' : σ' → Iter σ' ρ'} (φ : σ → σ')
    (ψ : ρ → ρ') (h : ∀ s, step' (φ s) = (step s).map φ ψ) :
    ∀ n s, loop step' n (φ s) = (loop step n s).map ψ
  | 0, _ => rfl
  | n + 1, s => by
      rw [loop, loop, h]
      cases step s with
      | done r => rfl
      | next t => exact loop_map φ ψ h n t

/-! ## The states a loop passes through -/

variable (step) in
/-- The state after `n` iterations, if the loop has not ended before. -/
def after : ℕ → σ → Option σ
  | 0, s => some s
  | n + 1, s =>
      match step s with
      | .done _ => none
      | .next s' => after n s'

theorem after_reaches : ∀ {n : ℕ} {s s' : σ}, after step n s = some s' →
    Reaches step n s s'
  | 0, s, s', h => by
      cases h
      exact .refl s
  | n + 1, s, s', h => by
      rw [after] at h
      cases hs : step s with
      | done r =>
          rw [hs] at h
          cases h
      | next t =>
          rw [hs] at h
          have := (Reaches.single hs).trans (after_reaches h)
          rwa [Nat.add_comm] at this

theorem after_add : ∀ {n : ℕ} {s s' : σ}, after step n s = some s' → ∀ m,
    after step (n + m) s = after step m s'
  | 0, s, s', h, m => by
      cases h
      rw [Nat.zero_add]
  | n + 1, s, s', h, m => by
      rw [after] at h
      rw [Nat.add_right_comm, after]
      cases hs : step s with
      | done r =>
          rw [hs] at h
          cases h
      | next t =>
          rw [hs] at h
          exact after_add h m

theorem after_trans {n m : ℕ} {s s' s'' : σ} (h : after step n s = some s')
    (h' : after step m s' = some s'') : after step (n + m) s = some s'' :=
  (after_add h m).trans h'

theorem after_single {s s' : σ} (h : step s = .next s') :
    after step 1 s = some s' := by
  rw [after, h]
  rfl

/-- A scanning stretch, as in `Reaches.scan`. -/
theorem after_scan (c : ℕ → σ) {a b : ℕ} (hab : a ≤ b)
    (h : ∀ i, a ≤ i → i < b → step (c i) = .next (c (i + 1))) :
    after step (b - a) (c a) = some (c b) := by
  induction b, hab using Nat.le_induction with
  | base =>
      rw [Nat.sub_self]
      rfl
  | succ b hab ih =>
      have hb : b + 1 - a = (b - a) + 1 := by omega
      rw [hb, after_add (ih fun i hi hib => h i hi (by omega)), after,
        h b hab (Nat.lt_succ_self b)]
      rfl

/-- What one iteration preserves holds in every state passed through. -/
theorem after_invariant {I : σ → Prop}
    (hstep : ∀ s s', I s → step s = .next s' → I s') :
    ∀ {n : ℕ} {s s' : σ}, I s → after step n s = some s' → I s'
  | 0, s, s', hI, h => by
      cases h
      exact hI
  | n + 1, s, s', hI, h => by
      rw [after] at h
      cases hs : step s with
      | done r =>
          rw [hs] at h
          cases h
      | next t =>
          rw [hs] at h
          exact after_invariant hstep (hstep s t hI hs) h

/-- **The rule of divergence.** A loop that goes on from every state of an
invariant does not end, however many iterations it is granted. -/
theorem loop_diverges {I : σ → Prop}
    (hstep : ∀ s, I s → ∃ s', step s = .next s' ∧ I s') :
    ∀ (n : ℕ) {s : σ}, I s → loop step n s = none := by
  intro n
  induction n with
  | zero =>
      intro s _
      rfl
  | succ n ih =>
      intro s hI
      obtain ⟨s', hs, hI'⟩ := hstep s hI
      rw [loop, hs]
      exact ih hI'

end Loop

/-! ## The first index with a property -/

/-- The first of the `k` indices from `a` on with `P`; `a + k` if none. -/
def firstFrom (P : ℕ → Bool) : ℕ → ℕ → ℕ
  | a, 0 => a
  | a, k + 1 => if P a then a else firstFrom P (a + 1) k

/-- The first index in `[a, b)` with `P`; `b` if there is none. -/
def firstIn (P : ℕ → Bool) (a b : ℕ) : ℕ := firstFrom P a (b - a)

variable {P : ℕ → Bool}

theorem firstFrom_bounds : ∀ (k a : ℕ),
    a ≤ firstFrom P a k ∧ firstFrom P a k ≤ a + k
  | 0, a => ⟨Nat.le_refl a, Nat.le_refl a⟩
  | k + 1, a => by
      have ih := firstFrom_bounds k (a + 1)
      unfold firstFrom
      split <;> omega

theorem firstFrom_before : ∀ (k a i : ℕ), a ≤ i → i < firstFrom P a k →
    P i = false
  | 0, a, i, ha, hi => by
      simp only [firstFrom] at hi
      omega
  | k + 1, a, i, ha, hi => by
      unfold firstFrom at hi
      split at hi
      · omega
      · next hPa =>
        rcases Nat.eq_or_lt_of_le ha with rfl | hlt
        · simpa using hPa
        · exact firstFrom_before k (a + 1) i hlt hi

theorem firstFrom_hit : ∀ (k a : ℕ), firstFrom P a k < a + k →
    P (firstFrom P a k) = true
  | 0, a, h => by
      simp only [firstFrom] at h
      omega
  | k + 1, a, h => by
      unfold firstFrom at h ⊢
      split
      · assumption
      · next hPa =>
        rw [if_neg hPa] at h
        exact firstFrom_hit k (a + 1) (by omega)

theorem le_firstIn {a b : ℕ} : a ≤ firstIn P a b :=
  (firstFrom_bounds _ _).1

theorem firstIn_le {a b : ℕ} (hab : a ≤ b) : firstIn P a b ≤ b := by
  have := (firstFrom_bounds (P := P) (b - a) a).2
  unfold firstIn
  omega

theorem firstIn_before {a b i : ℕ} (ha : a ≤ i) (hi : i < firstIn P a b) :
    P i = false :=
  firstFrom_before _ _ i ha hi

theorem firstIn_hit {a b : ℕ} (h : firstIn P a b < b) :
    P (firstIn P a b) = true := by
  have := le_firstIn (P := P) (a := a) (b := b)
  exact firstFrom_hit _ _ (by unfold firstIn at *; omega)

/-- The first hit is where `P` holds and nothing before it does. -/
theorem firstIn_eq {a b i : ℕ} (ha : a ≤ i) (hib : i ≤ b)
    (hbefore : ∀ j, a ≤ j → j < i → P j = false)
    (hi : i = b ∨ P i = true) : firstIn P a b = i := by
  have hle := firstIn_le (P := P) (Nat.le_trans ha hib)
  rcases Nat.lt_trichotomy (firstIn P a b) i with hlt | heq | hgt
  · have hhit := firstIn_hit (P := P) (a := a) (b := b) (by omega)
    rw [hbefore _ le_firstIn hlt] at hhit
    exact Bool.noConfusion hhit
  · exact heq
  · rcases hi with rfl | hP
    · omega
    · rw [firstIn_before ha hgt] at hP
      exact Bool.noConfusion hP

/-- A scan that has not passed the first hit stands on it, if it stands on a
hit, and can go on if it does not. -/
theorem firstIn_eq_of_hit {a b i : ℕ} (ha : a ≤ i) (hle : i ≤ firstIn P a b)
    (h : P i = true) : firstIn P a b = i := by
  rcases Nat.eq_or_lt_of_le hle with heq | hlt
  · exact heq.symm
  · rw [firstIn_before ha hlt] at h
    cases h

theorem succ_le_firstIn {a b i : ℕ} (hib : i < b) (hle : i ≤ firstIn P a b)
    (h : P i = false) : i + 1 ≤ firstIn P a b := by
  rcases Nat.eq_or_lt_of_le hle with heq | hlt
  · have hhit := firstIn_hit (P := P) (a := a) (b := b) (by omega)
    rw [← heq, h] at hhit
    cases hhit
  · exact hlt

end Mtasc.Lib
