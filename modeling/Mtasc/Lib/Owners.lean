import Mtasc.Lib.Ledger

/-!
# Owners that copy their pointers

Objects with pointer fields whose destructor releases what the fields point to.
A move copies the fields and leaves the source as it is; storing a new resource
overwrites a field without a release. A resource may come back under the same
name once it has been released, but not before.

`Clean` is what one wants of a run: nothing is released twice or used after its
release, and nothing is left. As long as a run does not both share and overwrite
pointers, it is clean exactly if it does neither and uses nothing late
(`run_clean_iff`). The invariant of the runs that do neither is `Unique`. One
that shares is `Doomed` to a second release, one that overwrites has an
`Orphaned` resource; neither can be undone.
-/

namespace Mtasc.Lib

/-! ## Runs and what they are seen as -/

section

variable {σ τ α β : Type} {step : σ → α → σ} {step' : τ → β → τ}

/-- No step of a run is one of these. -/
def Never (step : σ → α → σ) (P : σ → α → Prop) : σ → List α → Prop
  | _, [] => True
  | s, a :: as => ¬ P s a ∧ Never step P (step s a) as

/-- What every other step keeps, such a run keeps. -/
theorem foldl_of_never {P : σ → α → Prop} {I : σ → Prop}
    (hstep : ∀ s a, I s → ¬ P s a → I (step s a)) {s : σ} (hs : I s)
    {as : List α} (hnever : Never step P s as) : I (as.foldl step s) := by
  induction as generalizing s with
  | nil => exact hs
  | cons a as ih => exact ih (hstep s a hs hnever.1) hnever.2

/-- What a run is seen as, if some of its steps are seen. -/
def seenAs (step : σ → α → σ) (see : σ → α → Option β) : σ → List α → List β
  | _, [] => []
  | s, a :: as => (see s a).toList ++ seenAs step see (step s a) as

variable {f : σ → τ} {see : σ → α → Option β}

theorem foldl_seenAs
    (hstep : ∀ s a, f (step s a) = (see s a).elim (f s) (step' (f s))) (s : σ)
    (as : List α) :
    f (as.foldl step s) = (seenAs step see s as).foldl step' (f s) := by
  induction as generalizing s with
  | nil => rfl
  | cons a as ih =>
      rw [List.foldl_cons, ih, hstep, seenAs, List.foldl_append]
      cases see s a <;> rfl

theorem never_seenAs {P : σ → α → Prop} {P' : τ → β → Prop}
    (hstep : ∀ s a, f (step s a) = (see s a).elim (f s) (step' (f s)))
    (hP : ∀ s a, P s a ↔ ∃ b ∈ see s a, P' (f s) b) (s : σ) (as : List α) :
    Never step P s as ↔ Never step' P' (f s) (seenAs step see s as) := by
  induction as generalizing s with
  | nil => exact Iff.rfl
  | cons a as ih =>
      rw [Never, seenAs, ih, hstep, hP]
      cases see s a <;> simp [Never]

end

/-! ## Releasing several resources -/

namespace Ledger

variable {ρ : Type} [DecidableEq ρ] {l : Ledger ρ}

@[simp] theorem run_release_live (rs : List ρ) :
    (l.run (rs.map .release)).live = l.live.diff rs := by
  induction rs generalizing l with
  | nil => rfl
  | cons r rs ih =>
      rw [List.map_cons, run_cons, ih, List.diff_cons]
      rfl

theorem run_release_sound {rs : List ρ} (hs : l.sound = true) (hrs : rs.Nodup)
    (hlive : ∀ r ∈ rs, r ∈ l.live) : (l.run (rs.map .release)).sound = true := by
  induction rs generalizing l with
  | nil => exact hs
  | cons r rs ih =>
      obtain ⟨hr, hrs⟩ := List.nodup_cons.mp hrs
      rw [List.map_cons, run_cons]
      refine ih ?_ hrs fun r' hr' => ?_
      · simp [step, hs, hlive r List.mem_cons_self]
      · have hne : r' ≠ r := fun heq => hr (heq ▸ hr')
        exact (List.mem_erase_of_ne hne).mpr
          (hlive r' (List.mem_cons_of_mem r hr'))

/-- Releasing what is not live. -/
theorem run_release_unsound {rs : List ρ} {r : ρ} (hr : r ∈ rs)
    (hlive : r ∉ l.live) : (l.run (rs.map .release)).sound = false := by
  induction rs generalizing l with
  | nil => cases hr
  | cons r' rs ih =>
      rw [List.map_cons, run_cons]
      by_cases heq : r = r'
      · subst heq
        exact run_unsound (by simp [step, hlive]) _
      · exact ih ((List.mem_cons.mp hr).resolve_left heq) fun hmem =>
          hlive (List.mem_of_mem_erase hmem)

/-- Releasing what is live once twice. -/
theorem run_release_twice {rs : List ρ} (hnodup : l.live.Nodup)
    (hrs : ¬ rs.Nodup) : (l.run (rs.map .release)).sound = false := by
  induction rs generalizing l with
  | nil => exact absurd List.nodup_nil hrs
  | cons r rs ih =>
      rw [List.map_cons, run_cons]
      by_cases hr : r ∈ rs
      · exact run_release_unsound hr hnodup.not_mem_erase
      · exact ih (hnodup.erase r) fun hrest =>
          hrs (List.nodup_cons.mpr ⟨hr, hrest⟩)

end Ledger

/-! ## Owners -/

structure Owners (κ ρ : Type) where
  field : ℕ → κ → Option ρ := fun _ _ => none
  ledger : Ledger ρ := {}

inductive OwnerStep (κ ρ : Type) where
  /-- A new resource, kept in a field. -/
  | store (i : ℕ) (k : κ) (r : ρ)
  /-- The fields of `j` become those of `i`. -/
  | copy (i j : ℕ)
  | use (r : ρ)
  | destroy (i : ℕ)

namespace Owners

section

variable {κ ρ : Type}

/-- What the destructor of an object releases, in the order of its fields. -/
def holds (order : List κ) (w : Owners κ ρ) (i : ℕ) : List ρ :=
  order.filterMap (w.field i)

/-! ## What goes wrong -/

/-- A field is overwritten that points to something. -/
def Overwrites (w : Owners κ ρ) : OwnerStep κ ρ → Prop
  | .store i k r => r ∉ w.ledger.live ∧ w.field i k ≠ none
  | .copy i j => i ≠ j ∧ ∃ k, w.field j k ≠ none
  | _ => False

/-- A pointer to something is copied. -/
def Shares (w : Owners κ ρ) : OwnerStep κ ρ → Prop
  | .copy i j => i ≠ j ∧ ∃ k, w.field i k ≠ none
  | _ => False

/-- A resource is used that is not live. -/
def Late (w : Owners κ ρ) : OwnerStep κ ρ → Prop
  | .use r => r ∉ w.ledger.live
  | _ => False

variable {order : List κ} {w : Owners κ ρ} {i i' j : ℕ} {k k' : κ} {r : ρ}

theorem mem_holds (hall : ∀ k, k ∈ order) :
    r ∈ w.holds order i ↔ ∃ k, w.field i k = some r := by
  rw [holds, List.mem_filterMap]
  exact exists_congr fun k => and_iff_right (hall k)

/-- Two fields of an object that point to the same resource. -/
theorem holds_twice (hall : ∀ k, k ∈ order) (hne : k ≠ k')
    (hk : w.field i k = some r) (hk' : w.field i k' = some r) :
    ¬ (w.holds order i).Nodup := by
  intro hnodup
  have hpairs : order.Pairwise fun k k' => ∀ r, w.field i k = some r →
      ∀ r', w.field i k' = some r' → r ≠ r' :=
    List.pairwise_filterMap.mp hnodup
  have hsymm : Std.Symm fun k k' => ∀ r, w.field i k = some r →
      ∀ r', w.field i k' = some r' → r ≠ r' :=
    ⟨fun k k' h r hr r' hr' => (h r' hr' r hr).symm⟩
  exact hpairs.forall (hall k) (hall k') hne r hk r hk' rfl

/-! ## States -/

/-- Every field points to something live of its own, and to nothing else there
is to own. -/
structure Unique (w : Owners κ ρ) : Prop where
  nodup : w.ledger.live.Nodup
  sound : w.ledger.sound = true
  owned : ∀ r, r ∈ w.ledger.live ↔ ∃ i k, w.field i k = some r
  unique : ∀ i k i' k' r, w.field i k = some r → w.field i' k' = some r →
    i = i' ∧ k = k'

/-- Something live that no field points to. -/
def Orphaned (w : Owners κ ρ) : Prop :=
  ∃ r ∈ w.ledger.live, ∀ i k, w.field i k ≠ some r

/-- A release or a use has gone wrong, or a field points to something that
another one points to as well or that is not live any more. -/
structure Doomed (w : Owners κ ρ) : Prop where
  nodup : w.ledger.live.Nodup
  shared : w.ledger.sound = false ∨ ∃ r i k, w.field i k = some r ∧
    (r ∉ w.ledger.live ∨ ∃ i' k', ¬ (i' = i ∧ k' = k) ∧ w.field i' k' = some r)

/-- Everything has been released once and nothing has been used late. -/
def Clean (w : Owners κ ρ) : Prop := w.ledger = {}

theorem Orphaned.not_clean (hw : w.Orphaned) : ¬ w.Clean := by
  obtain ⟨r, hr, -⟩ := hw
  intro hclean
  rw [hclean] at hr
  cases hr

theorem not_clean_of_unsound (hw : w.ledger.sound = false) : ¬ w.Clean := by
  intro hclean
  rw [hclean] at hw
  cases hw

/-- At the end no field points to anything. -/
theorem Doomed.not_clean (hw : w.Doomed) (hend : ∀ i k, w.field i k = none) :
    ¬ w.Clean := by
  rcases hw.shared with hunsound | ⟨r, i, k, heq, -⟩
  · exact not_clean_of_unsound hunsound
  · rw [hend] at heq
    cases heq

theorem unique_init : Unique ({} : Owners κ ρ) :=
  ⟨List.nodup_nil, rfl, fun r => ⟨fun h => (by cases h),
    fun ⟨_, _, h⟩ => (by cases h)⟩, fun _ _ _ _ _ h => (by cases h)⟩

/-! ## Steps -/

variable [DecidableEq κ] [DecidableEq ρ]

def step (order : List κ) (w : Owners κ ρ) : OwnerStep κ ρ → Owners κ ρ
  | .store i k r =>
      -- a name that is in use is not given out
      if r ∈ w.ledger.live then w
      else
        { field := Function.update w.field i
            (Function.update (w.field i) k (some r))
          ledger := w.ledger.step (.acquire r) }
  | .copy i j => { w with field := Function.update w.field j (w.field i) }
  | .use r => { w with ledger := w.ledger.step (.use r) }
  | .destroy i =>
      { field := Function.update w.field i fun _ => none
        ledger := w.ledger.run ((w.holds order i).map .release) }

def run (order : List κ) (w : Owners κ ρ) (as : List (OwnerStep κ ρ)) :
    Owners κ ρ :=
  as.foldl (step order) w

/-! ## What a step does to the fields -/

theorem field_store (hr : r ∉ w.ledger.live) :
    (w.step order (.store i k r)).field i' k' =
      if i' = i ∧ k' = k then some r else w.field i' k' := by
  rw [step, if_neg hr]
  by_cases hi : i' = i
  · subst hi
    by_cases hk : k' = k
    · simp [hk]
    · simp [hk, Function.update_of_ne]
  · simp [hi, Function.update_of_ne]

theorem live_store (hr : r ∉ w.ledger.live) :
    (w.step order (.store i k r)).ledger =
      { w.ledger with live := r :: w.ledger.live } := by
  rw [step, if_neg hr]
  rfl

theorem field_copy : (w.step order (.copy i j)).field i' k' =
    if i' = j then w.field i k' else w.field i' k' := by
  by_cases hi : i' = j
  · subst hi
    simp [step]
  · simp [step, hi]

theorem field_destroy : (w.step order (.destroy i)).field i' k' =
    if i' = i then none else w.field i' k' := by
  by_cases hi : i' = i
  · subst hi
    simp [step]
  · simp [step, hi]

theorem live_destroy (i : ℕ) : (w.step order (.destroy i)).ledger.live =
    w.ledger.live.diff (w.holds order i) := Ledger.run_release_live _

/-! ## Unique owners -/

theorem Unique.step (hall : ∀ k, k ∈ order) (horder : order.Nodup)
    (hw : w.Unique) (a : OwnerStep κ ρ) (hover : ¬ w.Overwrites a)
    (hshare : ¬ w.Shares a) (hlate : ¬ w.Late a) : (w.step order a).Unique := by
  cases a with
  | store i k r =>
      by_cases hr : r ∈ w.ledger.live
      · rw [Owners.step, if_pos hr]
        exact hw
      · have hfree : w.field i k = none := by
          by_contra hne
          exact hover ⟨hr, hne⟩
        have hnew : ∀ i' k', w.field i' k' ≠ some r := fun i' k' heq =>
          hr ((hw.owned r).mpr ⟨i', k', heq⟩)
        refine ⟨?_, ?_, fun r' => ?_, fun i₁ k₁ i₂ k₂ r' h₁ h₂ => ?_⟩
        · rw [live_store hr]
          exact List.nodup_cons.mpr ⟨hr, hw.nodup⟩
        · rw [live_store hr]
          exact hw.sound
        · rw [live_store hr, List.mem_cons, hw.owned]
          constructor
          · rintro (rfl | ⟨i', k', heq⟩)
            · exact ⟨i, k, by simp [field_store hr]⟩
            · refine ⟨i', k', ?_⟩
              rw [field_store hr, if_neg]
              · exact heq
              · rintro ⟨rfl, rfl⟩
                rw [hfree] at heq
                cases heq
          · rintro ⟨i', k', heq⟩
            rw [field_store hr] at heq
            split at heq
            · exact Or.inl (Option.some.inj heq).symm
            · exact Or.inr ⟨i', k', heq⟩
        · rw [field_store hr] at h₁ h₂
          split at h₁
          · next heq₁ =>
            obtain rfl := Option.some.inj h₁
            split at h₂
            · next heq₂ =>
              exact ⟨heq₁.1.trans heq₂.1.symm, heq₁.2.trans heq₂.2.symm⟩
            · exact absurd h₂ (hnew _ _)
          · split at h₂
            · obtain rfl := Option.some.inj h₂
              exact absurd h₁ (hnew _ _)
            · exact hw.unique _ _ _ _ _ h₁ h₂
  | copy i j =>
      have hsame : w.step order (.copy i j) = w := by
        have hfield : Function.update w.field j (w.field i) = w.field := by
          by_cases hij : i = j
          · rw [hij, Function.update_eq_self]
          · refine Function.update_eq_self_iff.mpr (funext fun k => ?_)
            have hi : w.field i k = none := by
              by_contra hne
              exact hshare ⟨hij, k, hne⟩
            have hj : w.field j k = none := by
              by_contra hne
              exact hover ⟨hij, k, hne⟩
            rw [hi, hj]
        rw [Owners.step, hfield]
      rw [hsame]
      exact hw
  | use r =>
      have hr : r ∈ w.ledger.live := not_not.mp hlate
      have hsame : w.step order (.use r) = w := by
        rw [Owners.step, Ledger.step]
        simp [hr]
      rw [hsame]
      exact hw
  | destroy i =>
      have hlive : ∀ r ∈ w.holds order i, r ∈ w.ledger.live := by
        intro r hr
        obtain ⟨k, hk⟩ := (mem_holds hall).mp hr
        exact (hw.owned r).mpr ⟨i, k, hk⟩
      have hnodup : (w.holds order i).Nodup := by
        refine horder.filterMap fun k₁ k₂ r h₁ h₂ => ?_
        exact (hw.unique _ _ _ _ _ (Option.mem_def.mp h₁)
          (Option.mem_def.mp h₂)).2
      refine ⟨?_, ?_, fun r => ?_, fun i₁ k₁ i₂ k₂ r h₁ h₂ => ?_⟩
      · rw [live_destroy]
        exact hw.nodup.diff
      · exact Ledger.run_release_sound hw.sound hnodup hlive
      · rw [live_destroy, hw.nodup.mem_sdiff_iff, hw.owned, mem_holds hall]
        constructor
        · rintro ⟨⟨i', k', heq⟩, hnot⟩
          refine ⟨i', k', ?_⟩
          rw [field_destroy, if_neg]
          · exact heq
          · rintro rfl
            exact hnot ⟨k', heq⟩
        · rintro ⟨i', k', heq⟩
          rw [field_destroy] at heq
          split at heq
          · cases heq
          · next hne =>
            refine ⟨⟨i', k', heq⟩, ?_⟩
            rintro ⟨k'', heq'⟩
            exact hne (hw.unique _ _ _ _ _ heq heq').1
      · rw [field_destroy] at h₁ h₂
        split at h₁
        · cases h₁
        · split at h₂
          · cases h₂
          · exact hw.unique _ _ _ _ _ h₁ h₂

/-! ## What cannot be undone -/

theorem Orphaned.step (hall : ∀ k, k ∈ order) (hw : w.Orphaned)
    (a : OwnerStep κ ρ) : (w.step order a).Orphaned := by
  obtain ⟨r, hr, hnone⟩ := hw
  cases a with
  | store i k r' =>
      by_cases hr' : r' ∈ w.ledger.live
      · rw [Owners.step, if_pos hr']
        exact ⟨r, hr, hnone⟩
      · refine ⟨r, ?_, fun i' k' => ?_⟩
        · rw [live_store hr']
          exact List.mem_cons_of_mem r' hr
        · rw [field_store hr']
          split
          · intro heq
            exact hr' (Option.some.inj heq ▸ hr)
          · exact hnone i' k'
  | copy i j =>
      refine ⟨r, hr, fun i' k' => ?_⟩
      rw [field_copy]
      split
      · exact hnone i k'
      · exact hnone i' k'
  | use r' => exact ⟨r, hr, hnone⟩
  | destroy i =>
      refine ⟨r, ?_, fun i' k' => ?_⟩
      · rw [live_destroy]
        refine List.mem_diff_of_mem hr fun hmem => ?_
        obtain ⟨k, hk⟩ := (mem_holds hall).mp hmem
        exact hnone i k hk
      · rw [field_destroy]
        split
        · intro heq
          cases heq
        · exact hnone i' k'

theorem Doomed.step (hall : ∀ k, k ∈ order) (hw : w.Doomed)
    (a : OwnerStep κ ρ) (hover : ¬ w.Overwrites a) :
    (w.step order a).Doomed := by
  obtain ⟨hnodup, hshared⟩ := hw
  cases a with
  | store i₀ k₀ r₀ =>
      by_cases hr₀ : r₀ ∈ w.ledger.live
      · rw [Owners.step, if_pos hr₀]
        exact ⟨hnodup, hshared⟩
      · have hfree : w.field i₀ k₀ = none := by
          by_contra hne
          exact hover ⟨hr₀, hne⟩
        -- the fields that point to something point to it still
        have hkeep : ∀ {i k r}, w.field i k = some r →
            (w.step order (.store i₀ k₀ r₀)).field i k = some r := by
          intro i k r heq
          rw [field_store hr₀, if_neg]
          · exact heq
          · rintro ⟨rfl, rfl⟩
            rw [hfree] at heq
            cases heq
        refine ⟨?_, ?_⟩
        · rw [live_store hr₀]
          exact List.nodup_cons.mpr ⟨hr₀, hnodup⟩
        · rw [live_store hr₀]
          refine hshared.imp_right ?_
          rintro ⟨r, i, k, heq, hdead | ⟨i', k', hne, heq'⟩⟩
          · refine ⟨r, i, k, hkeep heq, ?_⟩
            by_cases hr : r = r₀
            · -- the name has come back, in another field
              subst hr
              refine Or.inr ⟨i₀, k₀, ?_, by simp [field_store hr₀]⟩
              rintro ⟨rfl, rfl⟩
              rw [hfree] at heq
              cases heq
            · refine Or.inl fun hmem => ?_
              rcases List.mem_cons.mp hmem with hmem | hmem
              · exact hr hmem
              · exact hdead hmem
          · exact ⟨r, i, k, hkeep heq, Or.inr ⟨i', k', hne, hkeep heq'⟩⟩
  | copy i₀ j₀ =>
      have hkeep : ∀ {i k r}, w.field i k = some r →
          (w.step order (.copy i₀ j₀)).field i k = some r := by
        intro i k r heq
        rw [field_copy]
        split
        · next hi =>
          subst hi
          by_cases hij : i₀ = i
          · rw [hij]
            exact heq
          · refine absurd ⟨hij, k, ?_⟩ hover
            rw [heq]
            exact Option.some_ne_none r
        · exact heq
      refine ⟨hnodup, hshared.imp_right ?_⟩
      rintro ⟨r, i, k, heq, hdead | ⟨i', k', hne, heq'⟩⟩
      · exact ⟨r, i, k, hkeep heq, Or.inl hdead⟩
      · exact ⟨r, i, k, hkeep heq, Or.inr ⟨i', k', hne, hkeep heq'⟩⟩
  | use r₀ =>
      refine ⟨hnodup, ?_⟩
      rcases hshared with hunsound | hshared
      · exact Or.inl (Ledger.step_unsound hunsound _)
      · exact Or.inr hshared
  | destroy i₀ =>
      have hkeep : ∀ {i k r}, i ≠ i₀ → w.field i k = some r →
          (w.step order (.destroy i₀)).field i k = some r := by
        intro i k r hi heq
        rw [field_destroy, if_neg hi]
        exact heq
      have hgone : ∀ {r}, r ∉ w.ledger.live →
          r ∉ (w.step order (.destroy i₀)).ledger.live := by
        intro r hr hmem
        rw [live_destroy] at hmem
        exact hr (List.diff_subset _ _ hmem)
      have hreleased : ∀ {k r}, w.field i₀ k = some r →
          r ∉ (w.step order (.destroy i₀)).ledger.live := by
        intro k r heq hmem
        rw [live_destroy] at hmem
        exact (hnodup.mem_sdiff_iff.mp hmem).2 ((mem_holds hall).mpr ⟨k, heq⟩)
      refine ⟨?_, ?_⟩
      · rw [live_destroy]
        exact hnodup.diff
      rcases hshared with hunsound | ⟨r, i, k, heq, hcase⟩
      · exact Or.inl (Ledger.run_unsound hunsound _)
      by_cases hi : i = i₀
      · subst hi
        rcases hcase with hdead | ⟨i', k', hne, heq'⟩
        · exact Or.inl (Ledger.run_release_unsound
            ((mem_holds hall).mpr ⟨k, heq⟩) hdead)
        · by_cases hi' : i' = i
          · -- both fields belong to the object
            subst hi'
            have hkk' : k ≠ k' := fun hkk' => hne ⟨rfl, hkk'.symm⟩
            exact Or.inl (Ledger.run_release_twice hnodup
              (holds_twice hall hkk' heq heq'))
          · exact Or.inr ⟨r, i', k', hkeep hi' heq', Or.inl (hreleased heq)⟩
      · refine Or.inr ⟨r, i, k, hkeep hi heq, ?_⟩
        rcases hcase with hdead | ⟨i', k', hne, heq'⟩
        · exact Or.inl (hgone hdead)
        · by_cases hi' : i' = i₀
          · subst hi'
            exact Or.inl (hreleased heq')
          · exact Or.inr ⟨i', k', hne, hkeep hi' heq'⟩

/-! ## The step that goes wrong -/

/-- Where pointers are not shared, what is overwritten is orphaned. -/
theorem Unique.orphaned (hw : w.Unique) (a : OwnerStep κ ρ)
    (hover : w.Overwrites a) (hshare : ¬ w.Shares a) :
    (w.step order a).Orphaned := by
  cases a with
  | store i k r₀ =>
      obtain ⟨hr₀, hne⟩ := hover
      obtain ⟨r, hr⟩ := Option.ne_none_iff_exists'.mp hne
      have hlive : r ∈ w.ledger.live := (hw.owned r).mpr ⟨i, k, hr⟩
      refine ⟨r, ?_, fun i' k' => ?_⟩
      · rw [live_store hr₀]
        exact List.mem_cons_of_mem r₀ hlive
      · rw [field_store hr₀]
        split
        · intro heq
          exact hr₀ (Option.some.inj heq ▸ hlive)
        · next hother =>
          intro heq
          exact hother (hw.unique _ _ _ _ _ heq hr)
  | copy i j =>
      obtain ⟨hij, k, hne⟩ := hover
      obtain ⟨r, hr⟩ := Option.ne_none_iff_exists'.mp hne
      refine ⟨r, (hw.owned r).mpr ⟨j, k, hr⟩, fun i' k' => ?_⟩
      rw [field_copy]
      split
      · intro heq
        refine hshare ⟨hij, k', ?_⟩
        rw [heq]
        exact Option.some_ne_none r
      · next hother =>
        intro heq
        exact hother (hw.unique _ _ _ _ _ heq hr).1
  | use r => exact hover.elim
  | destroy i => exact hover.elim

/-- Where nothing is overwritten, what is shared is pointed to twice. -/
theorem Unique.doomed (hw : w.Unique) (a : OwnerStep κ ρ)
    (hshare : w.Shares a) (hover : ¬ w.Overwrites a) :
    (w.step order a).Doomed := by
  cases a with
  | store i k r => exact hshare.elim
  | copy i j =>
      obtain ⟨hij, k, hne⟩ := hshare
      obtain ⟨r, hr⟩ := Option.ne_none_iff_exists'.mp hne
      refine ⟨hw.nodup, Or.inr ⟨r, i, k, ?_, Or.inr ⟨j, k, ?_, ?_⟩⟩⟩
      · rw [field_copy, if_neg hij]
        exact hr
      · rintro ⟨rfl, -⟩
        exact hij rfl
      · rw [field_copy, if_pos rfl]
        exact hr
  | use r => exact hshare.elim
  | destroy i => exact hshare.elim

/-! ## Runs -/

theorem Orphaned.run (hall : ∀ k, k ∈ order) (hw : w.Orphaned)
    (as : List (OwnerStep κ ρ)) : (w.run order as).Orphaned := by
  induction as generalizing w with
  | nil => exact hw
  | cons a as ih => exact ih (hw.step hall a)

theorem Doomed.run (hall : ∀ k, k ∈ order) (hw : w.Doomed)
    {as : List (OwnerStep κ ρ)}
    (hover : Never (Owners.step order) Overwrites w as) : (w.run order as).Doomed := by
  induction as generalizing w with
  | nil => exact hw
  | cons a as ih => exact ih (hw.step hall a hover.1) hover.2

theorem run_unsound (hw : w.ledger.sound = false) (as : List (OwnerStep κ ρ)) :
    (w.run order as).ledger.sound = false := by
  induction as generalizing w with
  | nil => exact hw
  | cons a as ih =>
      refine ih ?_
      cases a with
      | store i k r =>
          rw [step]
          split
          · exact hw
          · exact Ledger.step_unsound hw _
      | copy i j => exact hw
      | use r => exact Ledger.step_unsound hw _
      | destroy i => exact Ledger.run_unsound hw _

theorem Unique.run_clean_iff (hall : ∀ k, k ∈ order) (horder : order.Nodup)
    (hw : w.Unique) {as : List (OwnerStep κ ρ)}
    (hend : ∀ i k, (w.run order as).field i k = none)
    (hone : Never (Owners.step order) Overwrites w as ∨ Never (Owners.step order) Shares w as) :
    (w.run order as).Clean ↔ Never (Owners.step order) Overwrites w as ∧
      Never (Owners.step order) Shares w as ∧ Never (Owners.step order) Late w as := by
  induction as generalizing w with
  | nil =>
      refine iff_of_true ?_ ⟨trivial, trivial, trivial⟩
      have hlive : w.ledger.live = [] := by
        refine List.eq_nil_iff_forall_not_mem.mpr fun r hr => ?_
        obtain ⟨i, k, heq⟩ := (hw.owned r).mp hr
        rw [show w.field i k = none from hend i k] at heq
        cases heq
      show w.ledger = {}
      calc w.ledger = ⟨w.ledger.live, w.ledger.sound⟩ := rfl
        _ = {} := by rw [hlive, hw.sound]
  | cons a as ih =>
      by_cases hlate : w.Late a
      · refine iff_of_false (not_clean_of_unsound ?_) fun h => h.2.2.1 hlate
        refine run_unsound ?_ as
        cases a with
        | use r =>
            have hr : r ∉ w.ledger.live := hlate
            simp [Owners.step, Ledger.step, hr]
        | store i k r => exact hlate.elim
        | copy i j => exact hlate.elim
        | destroy i => exact hlate.elim
      by_cases hover : w.Overwrites a
      · -- nothing is shared in this run
        have hnever := hone.resolve_left fun h => h.1 hover
        refine iff_of_false (Orphaned.not_clean ?_) fun h => h.1.1 hover
        exact (hw.orphaned a hover hnever.1).run hall as
      by_cases hshare : w.Shares a
      · have hnever := hone.resolve_right fun h => h.1 hshare
        refine iff_of_false (Doomed.not_clean ?_ hend) fun h => h.2.1.1 hshare
        exact (hw.doomed a hshare hover).run hall hnever.2
      have hnext := ih (hw.step hall horder a hover hshare hlate) hend
        (hone.imp And.right And.right)
      refine hnext.trans ?_
      simp only [Never, hover, hshare, hlate, not_false_eq_true, true_and]

/-- **Which runs are clean.** At the end of a run that has destroyed all its
objects, and has not both overwritten and shared pointers, everything has been
released exactly once and nothing has been used late if and only if no step has
overwritten a pointer, shared one or used anything late. -/
theorem run_clean_iff (hall : ∀ k, k ∈ order) (horder : order.Nodup)
    {as : List (OwnerStep κ ρ)}
    (hend : ∀ i k, (run order {} as).field i k = none)
    (hone : Never (Owners.step order) Overwrites {} as ∨ Never (Owners.step order) Shares {} as) :
    (run order {} as).Clean ↔ Never (Owners.step order) Overwrites {} as ∧
      Never (Owners.step order) Shares {} as ∧ Never (Owners.step order) Late {} as :=
  unique_init.run_clean_iff hall horder hend hone

end

end Owners

end Mtasc.Lib
