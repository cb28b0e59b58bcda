import AlphaTrader.Library.Loop

/-!
# Parsers that are fed in pieces

A parser is a loop over a buffer: a pass takes something off the front of the buffer, or the parser
stops and waits. If no pass is affected by what follows the data it has seen, and waiting leaves no
trace, then the pieces in which the data arrives do not matter.
-/

namespace Incremental

variable {σ α β : Type*} {body : σ × List α → Option ((σ × List α) ⊕ (σ × List α))}

/-- The passes are not affected by data that arrives later. -/
structure Stable (body : σ × List α → Option ((σ × List α) ⊕ (σ × List α))) : Prop where
  shrinks : ∀ state state', body state = some (.inl state') → state'.2.length < state.2.length
  stuck : ∀ {s data} more, body (s, data) = none → body (s, data ++ more) = none
  goes : ∀ {s data s' rest} more, body (s, data) = some (.inl (s', rest)) →
    body (s, data ++ more) = some (.inl (s', rest ++ more))
  waits : ∀ {s data s' rest} more, body (s, data) = some (.inr (s', rest)) →
    rest = data ∧ body (s', data ++ more) = body (s, data ++ more)

/-- A pass that waits unchanged, is stuck whatever follows, or takes something off the front whatever
follows. -/
def Settled (body : σ × List α → Option ((σ × List α) ⊕ (σ × List α))) (s : σ) (data : List α) : Prop :=
  body (s, data) = some (.inr (s, data)) ∨ (∀ more, body (s, data ++ more) = none)
    ∨ ∃ s' rest, rest.length < data.length
      ∧ ∀ more, body (s, data ++ more) = some (.inl (s', rest ++ more))

theorem Stable.of_settled (hsettled : ∀ s data, Settled body s data) : Stable body := by
  have hnil : ∀ {s data}, body (s, data) = body (s, data ++ []) := by simp
  constructor
  · rintro ⟨s, data⟩ state' hgo
    obtain hwait | hstuck | ⟨s', rest, hless, hgoes⟩ := hsettled s data
    · rw [hwait] at hgo
      cases hgo
    · rw [hnil, hstuck] at hgo
      cases hgo
    · rw [hnil, hgoes] at hgo
      obtain rfl := Sum.inl.inj (Option.some.inj hgo)
      simpa using hless
  · intro s data more hnone
    obtain hwait | hstuck | ⟨s', rest, -, hgoes⟩ := hsettled s data
    · rw [hwait] at hnone
      cases hnone
    · exact hstuck more
    · rw [hnil, hgoes] at hnone
      cases hnone
  · intro s data s' rest more hgo
    obtain hwait | hstuck | ⟨s'', rest', -, hgoes⟩ := hsettled s data
    · rw [hwait] at hgo
      cases hgo
    · rw [hnil, hstuck] at hgo
      cases hgo
    · rw [hnil, hgoes, List.append_nil] at hgo
      obtain ⟨rfl, rfl⟩ := Prod.mk.inj (Sum.inl.inj (Option.some.inj hgo))
      exact hgoes more
  · intro s data s' rest more hstop
    obtain hwait | hstuck | ⟨s'', rest', -, hgoes⟩ := hsettled s data
    · rw [hwait] at hstop
      obtain ⟨rfl, rfl⟩ := Prod.mk.inj (Sum.inr.inj (Option.some.inj hstop))
      exact ⟨rfl, rfl⟩
    · rw [hnil, hstuck] at hstop
      cases hstop
    · rw [hnil, hgoes] at hstop
      cases hstop

/-- Runs the passes over the data; what is left of the data is returned. -/
def parse (body : σ × List α → Option ((σ × List α) ⊕ (σ × List α))) (s : σ) (data : List α) :
    Option (σ × List α) :=
  Loop.run body (data.length + 1) (s, data)

/-- The states of the parser before each pass. -/
def states (body : σ × List α → Option ((σ × List α) ⊕ (σ × List α))) (s : σ) (data : List α) :
    List (σ × List α) :=
  Loop.visited body (data.length + 1) (s, data)

/-! ### One pass -/

section Pass

variable {s s' : σ} {data rest : List α}

theorem parse_of_stuck (hbody : body (s, data) = none) : parse body s data = none := by
  simp [parse, Loop.run, hbody]

theorem parse_of_wait {done : σ × List α} (hbody : body (s, data) = some (.inr done)) :
    parse body s data = some done := by
  simp [parse, Loop.run, hbody]

theorem parse_of_go (h : Stable body) (hbody : body (s, data) = some (.inl (s', rest))) :
    parse body s data = parse body s' rest := by
  have hless := h.shrinks _ _ hbody
  have hpass : parse body s data = Loop.run body data.length (s', rest) := by
    simp [parse, Loop.run, hbody]
  rw [hpass]
  exact Loop.run_eq_of_measure (fun state => state.2.length) h.shrinks hless (Nat.lt_succ_self _)

theorem mem_states_self : (s, data) ∈ states body s data := List.mem_cons_self

theorem states_of_stop (hbody : ∀ state, body (s, data) ≠ some (.inl state)) :
    states body s data = [(s, data)] := by
  unfold states Loop.visited
  split
  case h_1 state hstate => exact absurd hstate (hbody state)
  case h_2 => rfl

theorem states_of_go (h : Stable body) (hbody : body (s, data) = some (.inl (s', rest))) :
    states body s data = (s, data) :: states body s' rest := by
  have hless := h.shrinks _ _ hbody
  have hpass : states body s data = (s, data) :: Loop.visited body data.length (s', rest) := by
    simp [states, Loop.visited, hbody]
  rw [hpass]
  exact congrArg _ (Loop.visited_eq_of_measure (fun state => state.2.length) h.shrinks hless
    (Nat.lt_succ_self _))

/-- Parsers that agree on the next pass agree. -/
theorem parse_congr (hbody : body (s, data) = body (s', data)) :
    parse body s data = parse body s' data := by
  simp only [parse, Loop.run, hbody]

end Pass

/-- A parser whose passes are never stuck gets to the end of what it can use. -/
theorem exists_parse_eq (h : Stable body) (hgoes : ∀ state, body state ≠ none) (s : σ) (data : List α) :
    ∃ done, parse body s data = some done := by
  induction hlength : data.length using Nat.strong_induction_on generalizing s data with
  | _ n ih =>
      match hbody : body (s, data) with
      | none => exact absurd hbody (hgoes _)
      | some (.inl (s', rest)) =>
          have hless : rest.length < data.length := h.shrinks _ _ hbody
          rw [parse_of_go h hbody]
          exact ih _ (hlength ▸ hless) s' rest rfl
      | some (.inr done) => exact ⟨done, parse_of_wait hbody⟩

/-! ### Data in two pieces -/

/-- **Resumption.** A parser that has waited goes on as if all data had been there. -/
theorem parse_append (h : Stable body) (s : σ) (data more : List α) :
    parse body s (data ++ more) =
      (parse body s data).bind fun done => parse body done.1 (done.2 ++ more) := by
  induction hlength : data.length using Nat.strong_induction_on generalizing s data with
  | _ n ih =>
      match hbody : body (s, data) with
      | none =>
          rw [parse_of_stuck hbody, parse_of_stuck (h.stuck more hbody), Option.bind_none]
      | some (.inl (s', rest)) =>
          have hless : rest.length < data.length := h.shrinks _ _ hbody
          rw [parse_of_go h hbody, parse_of_go h (h.goes more hbody)]
          exact ih _ (hlength ▸ hless) s' rest rfl
      | some (.inr (s', rest)) =>
          obtain ⟨rfl, hsame⟩ := h.waits more hbody
          rw [parse_of_wait hbody, Option.bind_some]
          exact parse_congr hsame.symm

/-! ### Results in a list -/

/-- The passes only add to a list of results, whatever stands in front of it. -/
def Appending (body : List β × List α → Option ((List β × List α) ⊕ (List β × List α))) : Prop :=
  ∀ front results data, body (front ++ results, data) =
    (body (results, data)).map (Sum.map (Prod.map (front ++ ·) id) (Prod.map (front ++ ·) id))

section Results

variable {body : List β × List α → Option ((List β × List α) ⊕ (List β × List α))}

theorem parse_front (h : Stable body) (happending : Appending body) (front results : List β) (data : List α) :
    parse body (front ++ results) data = (parse body results data).map (Prod.map (front ++ ·) id) := by
  induction hlength : data.length using Nat.strong_induction_on generalizing results data with
  | _ n ih =>
      have hfront := happending front results data
      match hbody : body (results, data) with
      | none =>
          rw [hbody, Option.map_none] at hfront
          rw [parse_of_stuck hbody, parse_of_stuck hfront, Option.map_none]
      | some (.inl (results', rest)) =>
          have hless : rest.length < data.length := h.shrinks _ _ hbody
          rw [hbody, Option.map_some] at hfront
          rw [parse_of_go h hbody, parse_of_go h hfront]
          exact ih _ (hlength ▸ hless) results' rest rfl
      | some (.inr done) =>
          rw [hbody, Option.map_some] at hfront
          rw [parse_of_wait hbody, parse_of_wait hfront, Option.map_some]

/-- **Two readings.** What is read first, and then what is left together with what arrives later, make up
what is read if all arrives at once. -/
theorem parse_later (h : Stable body) (happending : Appending body) {data more rest last : List α}
    {first all : List β} (hfirst : parse body [] data = some (first, rest))
    (hall : parse body [] (data ++ more) = some (all, last)) :
    ∃ later, parse body [] (rest ++ more) = some (later, last) ∧ all = first ++ later := by
  rw [parse_append h, hfirst, Option.bind_some] at hall
  have hfront := parse_front h happending first [] (rest ++ more)
  rw [List.append_nil] at hfront
  dsimp only at hall
  rw [hfront] at hall
  obtain ⟨⟨later, last'⟩, hlater, heq⟩ := Option.map_eq_some_iff.mp hall
  obtain ⟨rfl, rfl⟩ := Prod.mk.inj heq
  exact ⟨later, hlater, rfl⟩

end Results

/-- What the passes emit over the data. -/
def emits (body : σ × List α → Option ((σ × List α) ⊕ (σ × List α)))
    (emit : σ × List α → Option β) (s : σ) (data : List α) : List β :=
  (states body s data).filterMap emit

/-- What a pass emits does not depend on data that arrives later, and waiting emits nothing. -/
structure StableEmit (body : σ × List α → Option ((σ × List α) ⊕ (σ × List α)))
    (emit : σ × List α → Option β) : Prop where
  stuck : ∀ {s data} more, body (s, data) = none → emit (s, data ++ more) = emit (s, data)
  goes : ∀ {s data next} more, body (s, data) = some (.inl next) →
    emit (s, data ++ more) = emit (s, data)
  waits : ∀ {s data s' rest} more, body (s, data) = some (.inr (s', rest)) →
    emit (s, data) = none ∧ emit (s', data ++ more) = emit (s, data ++ more)

theorem emits_of_go (h : Stable body) (emit : σ × List α → Option β) {s s' : σ} {data rest : List α}
    (hbody : body (s, data) = some (.inl (s', rest))) :
    emits body emit s data = (emit (s, data)).toList ++ emits body emit s' rest := by
  rw [emits, states_of_go h hbody, List.filterMap_cons]
  cases emit (s, data) <;> rfl

theorem emits_of_stop (emit : σ × List α → Option β) {s : σ} {data : List α}
    (hbody : ∀ state, body (s, data) ≠ some (.inl state)) :
    emits body emit s data = (emit (s, data)).toList := by
  rw [emits, states_of_stop hbody, List.filterMap_cons]
  cases emit (s, data) <;> rfl

theorem emits_congr {emit : σ × List α → Option β} {s s' : σ} {data : List α}
    (hbody : body (s, data) = body (s', data)) (hemit : emit (s, data) = emit (s', data)) :
    emits body emit s data = emits body emit s' data := by
  unfold emits states Loop.visited
  rw [hbody, List.filterMap_cons, List.filterMap_cons, hemit]

/-- A parser that has waited emits the rest as if all data had been there. -/
theorem emits_append (h : Stable body) {emit : σ × List α → Option β} (hemit : StableEmit body emit)
    (s : σ) (data more : List α) :
    emits body emit s (data ++ more) = emits body emit s data
      ++ (parse body s data).elim [] fun done => emits body emit done.1 (done.2 ++ more) := by
  induction hlength : data.length using Nat.strong_induction_on generalizing s data with
  | _ n ih =>
      match hbody : body (s, data) with
      | none =>
          have hstop : ∀ state, body (s, data) ≠ some (.inl state) := by simp [hbody]
          have hstop' : ∀ state, body (s, data ++ more) ≠ some (.inl state) := by
            simp [h.stuck more hbody]
          rw [parse_of_stuck hbody, emits_of_stop emit hstop, emits_of_stop emit hstop',
            hemit.stuck more hbody]
          exact (List.append_nil _).symm
      | some (.inl (s', rest)) =>
          have hless : rest.length < data.length := h.shrinks _ _ hbody
          rw [parse_of_go h hbody, emits_of_go h emit hbody, emits_of_go h emit (h.goes more hbody),
            hemit.goes more hbody, List.append_assoc]
          exact congrArg _ (ih _ (hlength ▸ hless) s' rest rfl)
      | some (.inr (s', rest)) =>
          obtain ⟨rfl, hsame⟩ := h.waits more hbody
          obtain ⟨hnone, hlater⟩ := hemit.waits more hbody
          have hstop : ∀ state, body (s, rest) ≠ some (.inl state) := by simp [hbody]
          rw [parse_of_wait hbody, emits_of_stop emit hstop, hnone]
          exact emits_congr hsame.symm hlater.symm

/-! ### Data in any number of pieces -/

section Chunks

variable {step : σ → List α → Option σ} {emit : σ → List α → List β}

/-- What the steps emit over the pieces. -/
def emitted (step : σ → List α → Option σ) (emit : σ → List α → List β) :
    σ → List (List α) → List β
  | _, [] => []
  | s, chunk :: chunks => emit s chunk ++ (step s chunk).elim [] fun s' => emitted step emit s' chunks

theorem foldlM_chunks
    (hstep : ∀ s data more, step s (data ++ more) = (step s data).bind fun s' => step s' more)
    (s : σ) (first : List α) (chunks : List (List α)) :
    (first :: chunks).foldlM step s = step s (first :: chunks).flatten := by
  induction chunks generalizing s first with
  | nil => simp
  | cons second chunks ih =>
      rw [List.foldlM_cons, List.flatten_cons, hstep]
      exact congrArg _ (funext fun s' => ih s' second)

theorem emitted_chunks
    (hemit : ∀ s data more, emit s (data ++ more) =
      emit s data ++ (step s data).elim [] fun s' => emit s' more)
    (s : σ) (first : List α) (chunks : List (List α)) :
    emitted step emit s (first :: chunks) = emit s (first :: chunks).flatten := by
  induction chunks generalizing s first with
  | nil => cases h : step s first <;> simp [emitted, h]
  | cons second chunks ih =>
      rw [emitted, List.flatten_cons, hemit]
      exact congrArg (fun rest => emit s first ++ (step s first).elim [] rest)
        (funext fun s' => ih s' second)

end Chunks

end Incremental
