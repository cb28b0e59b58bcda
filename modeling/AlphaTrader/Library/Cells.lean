import Mathlib

/-!
# Steps on independent cells

A step acts on one cell of the state, chosen by the key of its action, and what it does there depends
on that cell alone. Then the order of actions matters cell by cell only: two lists of actions with the
same actions for every key, in the same order, lead to the same cells.
-/

namespace Cells

variable {σ α κ : Type*} [DecidableEq κ] {step : σ → α → Option σ} {key : α → κ}
  {same : κ → σ → σ → Prop}

/-- Every step acts on the cell of its key. States are compared cell by cell. -/
structure Independent (step : σ → α → Option σ) (key : α → κ) (same : κ → σ → σ → Prop) : Prop where
  equivalence : ∀ k, Equivalence (same k)
  frame : ∀ {s s' a k}, step s a = some s' → k ≠ key a → same k s s'
  act : ∀ {s s' t a}, step s a = some s' → same (key a) s t →
    ∃ t', step t a = some t' ∧ same (key a) s' t'

/-- The same actions for every key, in the same order. -/
def SameOrder (key : α → κ) (l l' : List α) : Prop :=
  ∀ k, l.filter (fun a => key a = k) = l'.filter fun a => key a = k

namespace SameOrder

variable {l l' m m' : List α}

theorem refl (key : α → κ) (l : List α) : SameOrder key l l := fun _ => rfl

theorem trans {l'' : List α} (h : SameOrder key l l') (h' : SameOrder key l' l'') :
    SameOrder key l l'' := fun k => (h k).trans (h' k)

theorem append (h : SameOrder key l l') (h' : SameOrder key m m') :
    SameOrder key (l ++ m) (l' ++ m') := fun k => by
  rw [List.filter_append, List.filter_append, h k, h' k]

/-- Only the keys that occur need a look. -/
theorem iff_forall_mem : SameOrder key l l' ↔
    ∀ a ∈ l ++ l', l.filter (fun b => key b = key a) = l'.filter fun b => key b = key a := by
  constructor
  · exact fun h a _ => h (key a)
  · intro h k
    by_cases hmem : ∃ a ∈ l ++ l', key a = k
    · obtain ⟨a, hmem, rfl⟩ := hmem
      exact h a hmem
    · have hnone : ∀ a ∈ l ++ l', ¬ key a = k := fun a ha heq => hmem ⟨a, ha, heq⟩
      rw [List.filter_eq_nil_iff.mpr, List.filter_eq_nil_iff.mpr]
      · exact fun a ha => by simpa using hnone a (List.mem_append_right _ ha)
      · exact fun a ha => by simpa using hnone a (List.mem_append_left _ ha)

instance decidable [DecidableEq α] (l l' : List α) : Decidable (SameOrder key l l') :=
  decidable_of_iff _ iff_forall_mem.symm

end SameOrder

namespace Independent

variable (hstep : Independent step key same) {s s' t : σ} {l l' : List α}

include hstep

/-- A step that one state takes, every state with the same cells takes too. -/
theorem step_same {a : α} (hsame : ∀ k, same k s t) (hs : step s a = some s') :
    ∃ t', step t a = some t' ∧ ∀ k, same k s' t' := by
  obtain ⟨t', ht, hkey⟩ := hstep.act hs (hsame (key a))
  refine ⟨t', ht, fun k => ?_⟩
  by_cases heq : k = key a
  · exact heq ▸ hkey
  · have hleft := (hstep.equivalence k).symm (hstep.frame hs heq)
    have hright := hstep.frame ht heq
    exact (hstep.equivalence k).trans hleft ((hstep.equivalence k).trans (hsame k) hright)

/-- The actions of one key do to its cell what the whole run does. -/
theorem foldlM_filter {k : κ} (hsame : same k s t) (hrun : l.foldlM step s = some s') :
    ∃ t', (l.filter fun a => key a = k).foldlM step t = some t' ∧ same k s' t' := by
  induction l generalizing s t with
  | nil =>
      obtain rfl : s = s' := by simpa using hrun
      exact ⟨t, rfl, hsame⟩
  | cons a l ih =>
      rw [List.foldlM_cons] at hrun
      obtain ⟨m, hm, hrun⟩ := Option.bind_eq_some_iff.mp hrun
      by_cases heq : key a = k
      · subst heq
        obtain ⟨m', hm', hsame'⟩ := hstep.act hm hsame
        obtain ⟨t', ht', hsame''⟩ := ih hsame' hrun
        refine ⟨t', ?_, hsame''⟩
        rw [List.filter_cons_of_pos (by simp), List.foldlM_cons, hm']
        exact ht'
      · rw [List.filter_cons_of_neg (by simpa using heq)]
        have hback := (hstep.equivalence k).symm (hstep.frame hm (Ne.symm heq))
        exact ih ((hstep.equivalence k).trans hback hsame) hrun

/-- Runs on the single cells make up a run on all of them. -/
theorem foldlM_of_filter (before after : κ → σ) (hsame : ∀ k, same k s (before k))
    (hruns : ∀ k, (l.filter fun a => key a = k).foldlM step (before k) = some (after k)) :
    ∃ s', l.foldlM step s = some s' ∧ ∀ k, same k s' (after k) := by
  induction l generalizing s before with
  | nil =>
      refine ⟨s, rfl, fun k => ?_⟩
      obtain heq : before k = after k := by simpa using hruns k
      exact heq ▸ hsame k
  | cons a l ih =>
      have hkey := hruns (key a)
      rw [List.filter_cons_of_pos (by simp), List.foldlM_cons] at hkey
      obtain ⟨m, hm, hrest⟩ := Option.bind_eq_some_iff.mp hkey
      obtain ⟨s₁, hs₁, hsame₁⟩ := hstep.act hm ((hstep.equivalence _).symm (hsame (key a)))
      have hnext : ∀ k, same k s₁ (Function.update before (key a) m k) := by
        intro k
        by_cases heq : k = key a
        · subst heq
          rw [Function.update_self]
          exact (hstep.equivalence _).symm hsame₁
        · rw [Function.update_of_ne heq]
          have hback := (hstep.equivalence k).symm (hstep.frame hs₁ heq)
          exact (hstep.equivalence k).trans hback (hsame k)
      have hruns' : ∀ k, (l.filter fun b => key b = k).foldlM step
          (Function.update before (key a) m k) = some (after k) := by
        intro k
        by_cases heq : k = key a
        · subst heq
          rw [Function.update_self]
          exact hrest
        · have hk := hruns k
          rw [List.filter_cons_of_neg (by simpa using Ne.symm heq)] at hk
          rw [Function.update_of_ne heq]
          exact hk
      obtain ⟨s', hrun, hafter⟩ := ih _ hnext hruns'
      refine ⟨s', ?_, hafter⟩
      rw [List.foldlM_cons, hs₁]
      exact hrun

/-- **Reordering.** The same actions for every key lead to the same cells. -/
theorem foldlM_sameOrder (horder : SameOrder key l l') (hsame : ∀ k, same k s t)
    (hrun : l.foldlM step s = some s') :
    ∃ t', l'.foldlM step t = some t' ∧ ∀ k, same k s' t' := by
  choose after hruns hafter using fun k => hstep.foldlM_filter (hsame k) hrun
  simp only [horder _] at hruns
  obtain ⟨t', hrun', hsame'⟩ :=
    hstep.foldlM_of_filter (fun _ => t) after (fun k => (hstep.equivalence k).refl t) hruns
  exact ⟨t', hrun', fun k =>
    (hstep.equivalence k).trans (hafter k) ((hstep.equivalence k).symm (hsame' k))⟩

end Independent

end Cells
