import Mathlib

/-!
# Loops with fuel

A loop runs its body until the body is done. The body may get stuck. A condition on the states in
which the body runs is required along the loop, as for the steps of a run. Fuel is no restriction
where a measure goes down with every pass.
-/

namespace Loop

variable {σ ρ : Type*} {body : σ → Option (σ ⊕ ρ)} {P : σ → Prop}

/-- Runs the body until it is done; without fuel the loop is stuck. -/
def run (body : σ → Option (σ ⊕ ρ)) : Nat → σ → Option ρ
  | 0, _ => none
  | fuel + 1, s =>
      match body s with
      | none => none
      | some (.inl s') => run body fuel s'
      | some (.inr r) => some r

/-- The states in which the body runs. -/
def visited (body : σ → Option (σ ⊕ ρ)) : Nat → σ → List σ
  | 0, _ => []
  | fuel + 1, s =>
      s :: match body s with
        | some (.inl s') => visited body fuel s'
        | _ => []

/-- The body runs only in states that meet the condition. -/
def During (body : σ → Option (σ ⊕ ρ)) (P : σ → Prop) : Nat → σ → Prop
  | 0, _ => True
  | fuel + 1, s => P s ∧ ∀ s', body s = some (.inl s') → During body P fuel s'

instance During.decidable [DecidablePred P] : ∀ fuel s, Decidable (During body P fuel s)
  | 0, _ => isTrue trivial
  | fuel + 1, s =>
      match hbody : body s with
      | none => decidable_of_iff (P s) ⟨fun h => ⟨h, by simp [hbody]⟩, fun h => h.1⟩
      | some (.inr _) => decidable_of_iff (P s) ⟨fun h => ⟨h, by simp [hbody]⟩, fun h => h.1⟩
      | some (.inl s') =>
          have : Decidable (During body P fuel s') := During.decidable fuel s'
          decidable_of_iff (P s ∧ During body P fuel s')
            ⟨fun h => ⟨h.1, fun s'' hs'' =>
              Sum.inl.inj (Option.some.inj (hbody.symm.trans hs'')) ▸ h.2⟩,
              fun h => ⟨h.1, h.2 s' hbody⟩⟩

theorem During.of_forall (hall : ∀ s, P s) (fuel : Nat) (s : σ) : During body P fuel s := by
  induction fuel generalizing s with
  | zero => trivial
  | succ fuel ih => exact ⟨hall s, fun s' _ => ih s'⟩

/-- What the invariant and the condition give, holds in every state in which the body runs. -/
theorem During.of_invariant (Inv : σ → Prop) {Q : σ → Prop}
    (hbody : ∀ s s', Inv s → P s → body s = some (.inl s') → Inv s')
    (hholds : ∀ s, Inv s → P s → Q s) {fuel : Nat} {s : σ} (hinv : Inv s)
    (hduring : During body P fuel s) : During body Q fuel s := by
  induction fuel generalizing s with
  | zero => trivial
  | succ fuel ih =>
      obtain ⟨hP, hrest⟩ := hduring
      exact ⟨hholds s hinv hP, fun s' hs' => ih (hbody s s' hinv hP hs') (hrest s' hs')⟩

/-- **Loop rule.** What every pass preserves and the last pass turns into the postcondition. -/
theorem post (Inv : σ → Prop) (Post : ρ → Prop)
    (hbody : ∀ s next, Inv s → P s → body s = some next → next.elim Inv Post)
    {fuel : Nat} {s : σ} {r : ρ} (hinv : Inv s) (hduring : During body P fuel s)
    (hrun : run body fuel s = some r) : Post r := by
  induction fuel generalizing s with
  | zero => cases hrun
  | succ fuel ih =>
      obtain ⟨hP, hrest⟩ := hduring
      unfold run at hrun
      split at hrun
      case h_1 => cases hrun
      case h_2 s' hagain => exact ih (hbody s _ hinv hP hagain) (hrest s' hagain) hrun
      case h_3 r' hdone =>
          obtain rfl := Option.some.inj hrun
          exact hbody s _ hinv hP hdone

/-! ### Fuel -/

section Measure

variable (measure : σ → Nat)
  (hdecreases : ∀ s s', body s = some (.inl s') → measure s' < measure s)
  {fuel fuel' : Nat} {s : σ} (hfuel : measure s < fuel) (hfuel' : measure s < fuel')

include hdecreases hfuel hfuel'

/-- **Fuel is no restriction** once it exceeds a measure that goes down with every pass. -/
theorem run_eq_of_measure : run body fuel s = run body fuel' s := by
  induction fuel generalizing s fuel' with
  | zero => omega
  | succ fuel ih =>
      obtain ⟨fuel', rfl⟩ : ∃ n, fuel' = n + 1 := ⟨fuel' - 1, by omega⟩
      unfold run
      cases hbody : body s with
      | none => rfl
      | some next =>
          cases next with
          | inr r => rfl
          | inl s' =>
              have hless := hdecreases s s' hbody
              exact ih (by omega) (by omega)

theorem visited_eq_of_measure : visited body fuel s = visited body fuel' s := by
  induction fuel generalizing s fuel' with
  | zero => omega
  | succ fuel ih =>
      obtain ⟨fuel', rfl⟩ : ∃ n, fuel' = n + 1 := ⟨fuel' - 1, by omega⟩
      unfold visited
      cases hbody : body s with
      | none => rfl
      | some next =>
          cases next with
          | inr r => rfl
          | inl s' =>
              have hless := hdecreases s s' hbody
              exact congrArg (s :: ·) (ih (by omega) (by omega))

end Measure

/-! ### Loops over related states -/

section Map

variable {σ' ρ' : Type*} {body' : σ' → Option (σ' ⊕ ρ')} (f : σ → σ') (g : ρ → ρ')
  (hbody : ∀ s, body' (f s) = (body s).map (Sum.map f g))

include hbody

theorem run_map (fuel : Nat) (s : σ) : run body' fuel (f s) = (run body fuel s).map g := by
  induction fuel generalizing s with
  | zero => rfl
  | succ fuel ih =>
      unfold run
      rw [hbody]
      cases body s with
      | none => rfl
      | some next =>
          cases next with
          | inr r => rfl
          | inl s' => exact ih s'

theorem visited_map (fuel : Nat) (s : σ) :
    visited body' fuel (f s) = (visited body fuel s).map f := by
  induction fuel generalizing s with
  | zero => rfl
  | succ fuel ih =>
      unfold visited
      rw [hbody, List.map_cons]
      cases body s with
      | none => rfl
      | some next =>
          cases next with
          | inr r => rfl
          | inl s' => exact congrArg (f s :: ·) (ih s')

end Map

end Loop
