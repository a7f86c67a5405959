import Mathlib

/-!
# Resources and their ledger

What a program does to resources that it acquires and has to give back. The
ledger keeps what is live, with multiplicity, and whether every use and every
release so far was of something live. A resource may come back under the same
name after its release.
-/

namespace Mtasc.Lib

inductive Use (ρ : Type) where
  | acquire (r : ρ)
  | use (r : ρ)
  | release (r : ρ)
  /-- A release by the wrong means. -/
  | misuse (r : ρ)
deriving DecidableEq

structure Ledger (ρ : Type) where
  live : List ρ := []
  sound : Bool := true
deriving DecidableEq

namespace Ledger

variable {ρ : Type} [DecidableEq ρ]

def step (l : Ledger ρ) : Use ρ → Ledger ρ
  | .acquire r => { l with live := r :: l.live }
  | .use r => { l with sound := l.sound && decide (r ∈ l.live) }
  | .release r =>
      { live := l.live.erase r, sound := l.sound && decide (r ∈ l.live) }
  | .misuse _ => { l with sound := false }

def run (l : Ledger ρ) (us : List (Use ρ)) : Ledger ρ := us.foldl step l

@[simp] theorem run_nil (l : Ledger ρ) : l.run [] = l := rfl

@[simp] theorem run_append (l : Ledger ρ) (us vs : List (Use ρ)) :
    l.run (us ++ vs) = (l.run us).run vs := List.foldl_append

@[simp] theorem run_cons (l : Ledger ρ) (u : Use ρ) (us : List (Use ρ)) :
    l.run (u :: us) = (l.step u).run us := rfl

/-- A resource that is acquired and then released leaves no trace. -/
theorem acquire_release (l : Ledger ρ) (r : ρ) :
    (l.step (.acquire r)).step (.release r) = l := by
  simp [step]

/-- Using what is live changes nothing. -/
theorem run_use {l : Ledger ρ} {rs : List ρ} (h : ∀ r ∈ rs, r ∈ l.live) :
    l.run (rs.map .use) = l := by
  induction rs with
  | nil => rfl
  | cons r rs ih =>
      have hstep : l.step (.use r) = l := by
        simp [step, h r List.mem_cons_self]
      rw [List.map_cons, run_cons, hstep]
      exact ih fun r' hr' => h r' (List.mem_cons_of_mem r hr')

/-- What has been unsound once stays unsound. -/
theorem step_unsound {l : Ledger ρ} (h : l.sound = false) (u : Use ρ) :
    (l.step u).sound = false := by
  cases u <;> simp [step, h]

theorem run_unsound {l : Ledger ρ} (h : l.sound = false) (us : List (Use ρ)) :
    (l.run us).sound = false := by
  induction us generalizing l with
  | nil => exact h
  | cons u us ih => exact ih (step_unsound h u)

end Ledger

end Mtasc.Lib
