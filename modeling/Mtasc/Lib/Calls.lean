import Mtasc.Lib.Interact

/-!
# Which calls a program makes

`p.Calls P post`: every call that `p` can make is one of `P`, and every result
it can have is one of `post`, whatever the replies are. It says nothing of the
order of the calls, so that its rules need no history; what a history keeps
from call to call of `P` holds of every run.
-/

namespace Mtasc.Lib.Prog

variable {Q : Type} {R : Q → Type} {α β σ ρ : Type}
variable {P P' : Q → Prop} {post post' : α → Prop}

def Calls (P : Q → Prop) (post : α → Prop) : Prog Q R α → Prop
  | .ret a => post a
  | .call q k => P q ∧ ∀ r, (k r).Calls P post
  | .stuck => True
  | .undefined => True

@[simp] theorem calls_pure {a : α} :
    (pure a : Prog Q R α).Calls P post ↔ post a := Iff.rfl

@[simp] theorem calls_ret {a : α} :
    (ret a : Prog Q R α).Calls P post ↔ post a := Iff.rfl

theorem calls_perform_bind {q : Q} {f : R q → Prog Q R α} :
    (perform q >>= f).Calls P post ↔ P q ∧ ∀ r, (f r).Calls P post := Iff.rfl

theorem Calls.mono {p : Prog Q R α} (hp : p.Calls P post)
    (hcalls : ∀ q, P q → P' q) (hpost : ∀ a, post a → post' a) :
    p.Calls P' post' := by
  induction p with
  | ret a => exact hpost a hp
  | call q k ih => exact ⟨hcalls q hp.1, fun r => ih r (hp.2 r)⟩
  | stuck => trivial
  | undefined => trivial

theorem Calls.bind {post' : β → Prop} {p : Prog Q R α} {f : α → Prog Q R β}
    (hp : p.Calls P post) (hf : ∀ a, post a → (f a).Calls P post') :
    (p >>= f).Calls P post' := by
  show (p.bind f).Calls P post'
  induction p with
  | ret a => exact hf a hp
  | call q k ih => exact ⟨hp.1, fun r => ih r (hp.2 r)⟩
  | stuck => trivial
  | undefined => trivial

/-- What one iteration leaves: a result, or a state for the next. -/
def iterPost (post : ρ → Prop) (J : σ → Prop) : Iter σ ρ → Prop
  | .done r => post r
  | .next s => J s

theorem calls_iterate {post : ρ → Prop} {body : σ → Prog Q R (Iter σ ρ)}
    (J : σ → Prop) (hstep : ∀ s, J s → (body s).Calls P (iterPost post J)) :
    ∀ n s, J s → (iterate body n s).Calls P post := by
  intro n
  induction n with
  | zero => exact fun _ _ => trivial
  | succ n ih =>
      intro s hs
      rw [iterate]
      refine (hstep s hs).bind fun it hit => ?_
      cases it with
      | done r => exact hit
      | next s' => exact ih s' hit

/-! ## Runs -/

/-- What a history keeps from call to call. -/
theorem Calls.sat {ok : History Q R → (q : Q) → R q → Prop}
    {I : History Q R → Prop} {p : Prog Q R α} {h : History Q R}
    (hp : p.Calls P post)
    (hkept : ∀ h q r, I h → P q → I (h ++ [⟨q, r⟩])) (hI : I h) :
    p.Sat ok (fun h _ => I h) h := by
  induction p generalizing h with
  | ret a => exact hI
  | call q k ih =>
      exact ⟨hI, fun r _ => ih r (hp.2 r) (hkept h q r hI hp.1)⟩
  | stuck => exact hI
  | undefined => exact hI

/-- Every call of a run, from its first on, at every moment. -/
theorem Calls.exec {o : Oracle Q R} {p : Prog Q R α} (hp : p.Calls P post)
    {h : History Q R} (hle : h <+: (p.exec o []).2) : ∀ e ∈ h, P e.1 := by
  have hsat : p.Sat (fun _ _ _ => True) (fun h _ => ∀ e ∈ h, P e.1) [] := by
    refine hp.sat ?_ (by simp)
    intro h q r hall hq e he
    rcases List.mem_append.mp he with he | he
    · exact hall e he
    · rw [List.mem_singleton.mp he]
      exact hq
  exact hsat.moments (fun _ _ => trivial) List.nil_prefix hle

/-- What the oracle promises of each reply holds of all of a run. -/
theorem exec_replies {now : (q : Q) → R q → Prop} {o : Oracle Q R}
    (ho : o.Obeys fun _ => now) (p : Prog Q R α) {h : History Q R}
    (hh : ∀ e ∈ h, now e.1 e.2) : ∀ e ∈ (p.exec o h).2, now e.1 e.2 := by
  induction p generalizing h with
  | ret a => exact hh
  | call q k ih =>
      refine ih _ fun e he => ?_
      rcases List.mem_append.mp he with he | he
      · exact hh e he
      · rw [List.mem_singleton.mp he]
        exact ho h q
  | stuck => exact hh
  | undefined => exact hh

end Mtasc.Lib.Prog
