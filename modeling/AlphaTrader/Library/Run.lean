import Mathlib

/-!
# Runs of a partial step function

A system is a step function that may get stuck; a run is the step function folded over a list of
actions. A condition on single steps is required along a run, so that it constrains each step in the
state in which that step is taken. What one step preserves or simulates, a run then does too.
-/

namespace Run

variable {σ τ α : Type*} {step : σ → α → Option σ} {P : σ → α → Prop}

/-- Every step of the run meets the condition in the state in which it is taken. -/
def Along (step : σ → α → Option σ) (P : σ → α → Prop) : σ → List α → Prop
  | _, [] => True
  | s, a :: l => P s a ∧ ∀ s', step s a = some s' → Along step P s' l

instance Along.decidable [∀ s a, Decidable (P s a)] :
    ∀ s l, Decidable (Along step P s l)
  | _, [] => isTrue trivial
  | s, a :: l =>
      match hstep : step s a with
      | none => decidable_of_iff (P s a) ⟨fun h => ⟨h, by simp [hstep]⟩, fun h => h.1⟩
      | some s' =>
          have : Decidable (Along step P s' l) := Along.decidable s' l
          decidable_of_iff (P s a ∧ Along step P s' l)
            ⟨fun h => ⟨h.1, fun s'' hs'' => Option.some.inj (hstep.symm.trans hs'') ▸ h.2⟩,
              fun h => ⟨h.1, h.2 s' hstep⟩⟩

/-- A condition on the actions alone. -/
theorem Along.of_forall_mem {l : List α} (h : ∀ a ∈ l, ∀ s, P s a) (s : σ) : Along step P s l := by
  induction l generalizing s with
  | nil => trivial
  | cons a l ih =>
      exact ⟨h a (by simp) s, fun s' _ => ih (fun b hb => h b (by simp [hb])) s'⟩

theorem Along.imp_of_mem {Q : σ → α → Prop} {s : σ} {l : List α} (halong : Along step P s l)
    (himp : ∀ a ∈ l, ∀ s, P s a → Q s a) : Along step Q s l := by
  induction l generalizing s with
  | nil => trivial
  | cons a l ih =>
      obtain ⟨hP, hrest⟩ := halong
      refine ⟨himp a (by simp) s hP, fun s' hs' => ih (hrest s' hs') ?_⟩
      exact fun b hb => himp b (by simp [hb])

theorem along_append {s : σ} {l l' : List α} :
    Along step P s (l ++ l')
      ↔ Along step P s l ∧ ∀ s', l.foldlM step s = some s' → Along step P s' l' := by
  induction l generalizing s with
  | nil => simp [Along]
  | cons a l ih =>
      simp only [List.cons_append, Along, ih, List.foldlM_cons, Option.bind_eq_bind,
        Option.bind_eq_some_iff]
      constructor
      · rintro ⟨hP, hrest⟩
        exact ⟨⟨hP, fun m hm => (hrest m hm).1⟩, fun s' ⟨m, hm, hrun⟩ => (hrest m hm).2 s' hrun⟩
      · rintro ⟨⟨hP, hrest⟩, hlater⟩
        exact ⟨hP, fun m hm => ⟨hrest m hm, fun s' hrun => hlater s' ⟨m, hm, hrun⟩⟩⟩

/-- **Invariant rule**, for an invariant that may depend on the number of steps to come. -/
theorem invariant_within (Inv : Nat → σ → Prop)
    (hstep : ∀ n s a s', Inv (n + 1) s → P s a → step s a = some s' → Inv n s')
    {s s' : σ} {l : List α} (hinv : Inv l.length s) (halong : Along step P s l)
    (hrun : l.foldlM step s = some s') : Inv 0 s' := by
  induction l generalizing s with
  | nil =>
      obtain rfl : s = s' := by simpa using hrun
      exact hinv
  | cons a l ih =>
      obtain ⟨hP, hrest⟩ := halong
      rw [List.foldlM_cons] at hrun
      obtain ⟨m, hm, hrun⟩ := Option.bind_eq_some_iff.mp hrun
      exact ih (hstep l.length s a m hinv hP hm) (hrest m hm) hrun

/-- **Invariant rule.** What every step meeting the condition preserves, every such run preserves. -/
theorem invariant {Inv : σ → Prop}
    (hstep : ∀ s a s', Inv s → P s a → step s a = some s' → Inv s')
    {s s' : σ} {l : List α} (hinv : Inv s) (halong : Along step P s l)
    (hrun : l.foldlM step s = some s') : Inv s' :=
  invariant_within (fun _ => Inv) (fun _ => hstep) hinv halong hrun

/-- **Simulation rule.** If every step meeting the condition succeeds and is matched by a step of a
total system, then so is every such run. The relation may depend on the number of steps to come. -/
theorem simulation {R : Nat → σ → τ → Prop} (astep : τ → α → τ)
    (hstep : ∀ n s t a, R (n + 1) s t → P s a → ∃ s', step s a = some s' ∧ R n s' (astep t a))
    {s : σ} {t : τ} {l : List α} (hrel : R l.length s t) (halong : Along step P s l) :
    ∃ s', l.foldlM step s = some s' ∧ R 0 s' (l.foldl astep t) := by
  induction l generalizing s t with
  | nil => exact ⟨s, rfl, hrel⟩
  | cons a l ih =>
      obtain ⟨hP, hrest⟩ := halong
      obtain ⟨m, hm, hrel'⟩ := hstep l.length s t a hrel hP
      obtain ⟨s', hrun, hrel''⟩ := ih hrel' (hrest m hm)
      refine ⟨s', ?_, hrel''⟩
      rw [List.foldlM_cons, hm]
      exact hrun

/-- **Progress rule.** If every step meeting the condition succeeds and preserves the invariant, then
so does every such run. -/
theorem progress {Inv : σ → Prop}
    (hstep : ∀ s a, Inv s → P s a → ∃ s', step s a = some s' ∧ Inv s')
    {s : σ} {l : List α} (hinv : Inv s) (halong : Along step P s l) :
    ∃ s', l.foldlM step s = some s' ∧ Inv s' := by
  let R : Nat → σ → Unit → Prop := fun _ s _ => Inv s
  let stay : Unit → α → Unit := fun t _ => t
  have hsim : ∀ n s t a, R (n + 1) s t → P s a → ∃ s', step s a = some s' ∧ R n s' (stay t a) :=
    fun _ s _ a hinv hP => hstep s a hinv hP
  exact simulation stay hsim (t := ()) hinv halong

/-- What the invariant and the condition on a step give, holds along the run. -/
theorem Along.of_invariant (Inv : σ → Prop) {Q : σ → α → Prop}
    (hstep : ∀ s a s', Inv s → P s a → step s a = some s' → Inv s')
    (hholds : ∀ s a, Inv s → P s a → Q s a) {s : σ} {l : List α} (hinv : Inv s)
    (halong : Along step P s l) : Along step Q s l := by
  induction l generalizing s with
  | nil => trivial
  | cons a l ih =>
      obtain ⟨hP, hrest⟩ := halong
      exact ⟨hholds s a hinv hP, fun s' hs' => ih (hstep s a s' hinv hP hs') (hrest s' hs')⟩

/-- Where the invariant makes two conditions the same, a run meets the one exactly if it meets the
other. -/
theorem along_congr (Inv : σ → Prop) {Q : σ → α → Prop}
    (hstep : ∀ s a s', Inv s → Q s a → step s a = some s' → Inv s')
    (hiff : ∀ s a, Inv s → (P s a ↔ Q s a)) {s : σ} {l : List α} (hinv : Inv s) :
    Along step P s l ↔ Along step Q s l := by
  constructor
  · refine Along.of_invariant Inv (fun s a s' hinv hP => hstep s a s' hinv ((hiff s a hinv).mp hP)) ?_ hinv
    exact fun s a hinv => (hiff s a hinv).mp
  · exact Along.of_invariant Inv hstep (fun s a hinv => (hiff s a hinv).mpr) hinv

/-- **Exact invariant rule.** If the condition says exactly which of the steps succeed and preserve the
invariant, then a run succeeds with the invariant in every state exactly when every step meets the
condition. -/
theorem invariant_iff {Inv : σ → Prop} {Q : α → Prop}
    (hstep : ∀ s a, Q a → Inv s → ((∃ s', step s a = some s' ∧ Inv s') ↔ P s a))
    {s : σ} {l : List α} (hactions : ∀ a ∈ l, Q a) (hinv : Inv s) :
    (∀ l', l' <+: l → ∃ s', l'.foldlM step s = some s' ∧ Inv s') ↔ Along step P s l := by
  induction l generalizing s with
  | nil => simpa [Along] using hinv
  | cons a l ih =>
      have hiff := hstep s a (hactions a (by simp)) hinv
      have hrest : ∀ b ∈ l, Q b := fun b hmem => hactions b (by simp [hmem])
      have hrun : ∀ {m}, step s a = some m → ∀ l', (a :: l').foldlM step s = l'.foldlM step m :=
        fun hm l' => by rw [List.foldlM_cons, hm, Option.bind_eq_bind, Option.bind_some]
      constructor
      · intro hall
        obtain ⟨m, hm, hinv'⟩ := hall [a] (by simp)
        replace hm : step s a = some m := by simpa using hm
        refine ⟨hiff.mp ⟨m, hm, hinv'⟩, fun s' hs' => ?_⟩
        obtain rfl := Option.some.inj (hm.symm.trans hs')
        refine (ih hrest hinv').mp fun l' hprefix => ?_
        rw [← hrun hm]
        exact hall (a :: l') (by simpa using hprefix)
      · rintro ⟨hP, halong⟩ l' hprefix
        obtain ⟨m, hm, hinv'⟩ := hiff.mpr hP
        cases l' with
        | nil => exact ⟨s, rfl, hinv⟩
        | cons b l' =>
            obtain ⟨rfl, htail⟩ := List.cons_prefix_cons.mp hprefix
            rw [hrun hm]
            exact (ih hrest hinv').mpr (halong m hm) l' htail

/-! ### Total step functions -/

/-- A total step function never gets stuck. -/
def total (step : σ → α → σ) (s : σ) (a : α) : Option σ := some (step s a)

theorem foldlM_total (step : σ → α → σ) (s : σ) (l : List α) :
    l.foldlM (total step) s = some (l.foldl step s) := by
  induction l generalizing s with
  | nil => rfl
  | cons a l ih =>
      rw [List.foldlM_cons, total, Option.bind_eq_bind, Option.bind_some, ih, List.foldl_cons]

/-- **Invariant rule** for a total step function. -/
theorem invariant_total {step : σ → α → σ} (Inv : σ → Prop)
    (hstep : ∀ s a, Inv s → P s a → Inv (step s a))
    {s : σ} {l : List α} (hinv : Inv s) (halong : Along (total step) P s l) :
    Inv (l.foldl step s) := by
  refine invariant ?_ hinv halong (foldlM_total step s l)
  intro s a s' hinv hP heq
  obtain rfl := Option.some.inj heq
  exact hstep s a hinv hP

theorem along_total_append {step : σ → α → σ} {s : σ} {l l' : List α} :
    Along (total step) P s (l ++ l')
      ↔ Along (total step) P s l ∧ Along (total step) P (l.foldl step s) l' := by
  induction l generalizing s with
  | nil => simp [Along]
  | cons a l ih =>
      simp only [List.cons_append, List.foldl_cons, Along, total, Option.some.injEq, forall_eq',
        and_assoc]
      rw [← ih]

/-- **Exact invariant rule** for a total step function. -/
theorem invariant_total_iff {step : σ → α → σ} (Inv : σ → Prop)
    (hstep : ∀ s a, Inv s → (Inv (step s a) ↔ P s a)) {s : σ} {l : List α} (hinv : Inv s) :
    (∀ l', l' <+: l → Inv (l'.foldl step s)) ↔ Along (total step) P s l := by
  have hexact : ∀ s a, True → Inv s → ((∃ s', total step s a = some s' ∧ Inv s') ↔ P s a) := by
    intro s a _ hinv
    simp only [total, Option.some.injEq, exists_eq_left', hstep s a hinv]
  rw [← invariant_iff hexact (fun _ _ => trivial) hinv]
  simp only [foldlM_total, Option.some.injEq, exists_eq_left']

end Run
