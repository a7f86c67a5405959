import Mtasc.Parser.Paramter

/-!
# What the query-parameter scan asks of its string

`parserQueryParamter` is `noexcept`, so a `substr` that starts behind the end
would end the process. Its counts are differences of positions that a search
returned: where the search found nothing, `npos` stands for the end and the
count only works because `substr` clamps it. `paramterAccess` lists what one
iteration asks for; a position that the search did not find is left as it is,
so that clamping is told apart from a count that is exact.
-/

namespace Mtasc

open Lib

/-- A call `substr(pos, count)` that is meant to reach up to `stop`. -/
structure SubstrCall where
  pos : ℕ
  stop : ℕ
  count : ℕ

/-- What one iteration reads by index, and its calls of `substr`. -/
structure ParamterAccess where
  indexed : ℕ
  calls : List SubstrCall

/-- The call for the key: up to the next `=`, wherever that is. -/
def keyCall (s : Text) (ops : ℕ) : SubstrCall where
  pos := ops
  stop := find s '=' ops
  count := wsub 64 (find s '=' ops) ops

/-- The call for the value: from behind the `=` up to `&`. -/
def valueCall (eqOps ampOps : ℕ) : SubstrCall where
  pos := wadd 64 eqOps 1
  stop := ampOps
  count := wsub 64 (wsub 64 ampOps eqOps) 1

def paramterAccess (s : Text) (parserOps : ℕ) : ParamterAccess :=
  let ops := if charAt s parserOps = '?' then parserOps + 1 else parserOps
  let eqOps := find s '=' ops
  let ampFound := find s '&' ops
  let ampOps := if ampFound = npos then s.length else ampFound
  { indexed := parserOps
    calls :=
      if eqOps ≠ npos ∧ eqOps < ampOps then
        [keyCall s ops, valueCall eqOps ampOps]
      else [keyCall s ops] }

/-- The call starts in the string, and its count is either the exact distance
to a position of the string, or the search found nothing and the count reaches
at least to the end, where `substr` clamps it. -/
structure SubstrCall.Sound (s : Text) (c : SubstrCall) : Prop where
  pos_le : c.pos ≤ s.length
  count : c.stop ≤ s.length ∧ c.pos + c.count = c.stop ∨
    c.stop = npos ∧ s.length ≤ c.pos + c.count

structure ParamterAccess.Sound (s : Text) (a : ParamterAccess) : Prop where
  indexed_lt : a.indexed < s.length
  calls : ∀ c ∈ a.calls, c.Sound s

section

variable {s : Text}

/-! ## The two calls -/

theorem keyCall_sound {ops : ℕ} (hs : s.length < 2 ^ 63) (h : ops ≤ s.length) :
    (keyCall s ops).Sound s := by
  refine ⟨h, ?_⟩
  by_cases hfound : find s '=' ops = npos
  · -- `npos - ops` does not wrap, and is far behind the end
    have hcount : wsub 64 npos ops = npos - ops :=
      wsub_of_le (by unfold npos; omega) (by unfold npos; omega)
    refine Or.inr ⟨hfound, ?_⟩
    simp only [keyCall, hfound, hcount]
    unfold npos
    omega
  · obtain ⟨hle, hlt⟩ := le_find hfound
    have hcount : wsub 64 (find s '=' ops) ops = find s '=' ops - ops :=
      wsub_of_le hle (by omega)
    refine Or.inl ⟨Nat.le_of_lt hlt, ?_⟩
    simp only [keyCall, hcount]
    omega

theorem valueCall_sound {eqOps ampOps : ℕ} (hs : s.length < 2 ^ 63)
    (hlt : eqOps < ampOps) (hamp : ampOps ≤ s.length) :
    (valueCall eqOps ampOps).Sound s := by
  have hpos : wadd 64 eqOps 1 = eqOps + 1 := wadd_of_lt (by omega)
  have hcount : wsub 64 (wsub 64 ampOps eqOps) 1 = ampOps - eqOps - 1 := by
    rw [wsub_of_le (Nat.le_of_lt hlt) (by omega),
      wsub_of_le (by omega) (by omega)]
  constructor
  · simp only [valueCall, hpos]
    omega
  · refine Or.inl ⟨hamp, ?_⟩
    simp only [valueCall, hpos, hcount]
    omega

/-! ## One iteration -/

theorem paramterAccess_sound {parserOps : ℕ} (hs : s.length < 2 ^ 63)
    (h : parserOps < s.length) : (paramterAccess s parserOps).Sound s := by
  obtain ⟨-, hskip⟩ := skipMark_bounds h
  obtain ⟨-, hend⟩ := segmentEnd_bounds hskip
  have hkey := keyCall_sound hs hskip
  refine ⟨h, ?_⟩
  intro c hc
  change c ∈ if find s '=' (skipMark s parserOps) ≠ npos ∧
      find s '=' (skipMark s parserOps) < segmentEnd s (skipMark s parserOps)
    then [keyCall s (skipMark s parserOps),
      valueCall (find s '=' (skipMark s parserOps))
        (segmentEnd s (skipMark s parserOps))]
    else [keyCall s (skipMark s parserOps)] at hc
  split at hc
  · next heq =>
    rcases List.mem_cons.mp hc with rfl | hc
    · exact hkey
    · rw [List.mem_singleton.mp hc]
      exact valueCall_sound hs heq.2 hend
  · rw [List.mem_singleton.mp hc]
    exact hkey

/-- The calls are those of the loop: an iteration throws exactly where one of
them starts behind the end. -/
theorem paramterStep_throws_iff {c : ParamterCursor} (h : c.ops < s.length) :
    paramterStep s c = .done none ↔
      ∃ call ∈ (paramterAccess s c.ops).calls, s.length < call.pos := by
  dsimp only [paramterStep, paramterAccess, substr]
  rw [if_pos h]
  generalize (if charAt s c.ops = '?' then c.ops + 1 else c.ops) = ops
  generalize (if find s '&' ops = npos then s.length else find s '&' ops) =
    ampOps
  by_cases hkey : ops ≤ s.length
  · rw [if_pos hkey]
    dsimp only
    by_cases heq : find s '=' ops ≠ npos ∧ find s '=' ops < ampOps
    · rw [if_pos heq, if_pos heq]
      by_cases hvalue : wadd 64 (find s '=' ops) 1 ≤ s.length
      · rw [if_pos hvalue]
        simp [keyCall, valueCall, hkey, hvalue]
      · rw [if_neg hvalue]
        simp [keyCall, valueCall, Nat.lt_of_not_le hvalue]
    · rw [if_neg heq, if_neg heq]
      simp [keyCall, hkey]
  · rw [if_neg hkey]
    dsimp only
    apply iff_of_true rfl
    refine ⟨keyCall s ops, ?_, Nat.lt_of_not_le hkey⟩
    split
    · exact List.mem_cons_self
    · exact List.mem_cons_self

/-- An iteration moves forward. -/
theorem paramterStep_forward {c c' : ParamterCursor} (hs : s.length < 2 ^ 63)
    (h : c.ops < s.length) (hstep : paramterStep s c = .next c') :
    c.ops < c'.ops := by
  obtain ⟨hle, hskip⟩ := skipMark_bounds h
  obtain ⟨hfrom, -⟩ := segmentEnd_bounds hskip
  rw [paramterStep_next hs h] at hstep
  cases hstep
  exact Nat.lt_succ_of_le (Nat.le_trans hle hfrom)

end

/-! ## The loop -/

/-- **The query-parameter scan neither throws nor hangs.** In every iteration
the indexed character is in the string, every `substr` starts in the string,
its count is exact or clamps to the end, nothing is thrown, and the position
increases; and the function returns a map. -/
theorem parserQueryParamter_sound (s : Text) (hs : s.length < 2 ^ 63) :
    (∀ n c, after (paramterStep s) n ⟨0, ∅⟩ = some c → c.ops < s.length →
      (paramterAccess s c.ops).Sound s ∧
        ∃ c', paramterStep s c = .next c' ∧ c.ops < c'.ops) ∧
      ∃ m, parserQueryParamter s = some (some m) := by
  refine ⟨?_, parserQueryParamter_returns hs⟩
  intro n c _ hlt
  refine ⟨paramterAccess_sound hs hlt, ?_⟩
  have hstep := paramterStep_next hs hlt
  exact ⟨_, hstep, paramterStep_forward hs hlt hstep⟩

/-- A mark, an empty segment, and a key whose `=` comes behind the next `&`. -/
theorem parserQueryParamter_sound_marks :
    (∀ n c, after (paramterStep "?&a&b=?".toList) n ⟨0, ∅⟩ = some c →
      c.ops < 7 →
      (paramterAccess "?&a&b=?".toList c.ops).Sound "?&a&b=?".toList ∧
        ∃ c', paramterStep "?&a&b=?".toList c = .next c' ∧ c.ops < c'.ops) ∧
      ∃ m, parserQueryParamter "?&a&b=?".toList = some (some m) :=
  parserQueryParamter_sound "?&a&b=?".toList (by decide)

end Mtasc
