import Mathlib

/-!
# Intrusive doubly linked lists

Nodes carry their own forward and backward pointers. A segment is a list of nodes linked in order,
between a node before it and a node after it; a whole list is a segment with nothing at either end.
Appending segments splits their links at the seam, which reduces every update to the nodes whose
pointers it rewrites.
-/

namespace Intrusive

variable {α : Type*}

structure Links (α : Type*) where
  next : α → Option α
  prev : α → Option α

/-- The nodes `l` are linked in this order: the first points back to `p`, the last forward to `q`. -/
def Segment (links : Links α) : Option α → List α → Option α → Prop
  | _, [], _ => True
  | p, a :: l, q =>
      links.prev a = p ∧ links.next a = l.head?.or q ∧ Segment links (some a) l q

theorem segment_append (links : Links α) (p q : Option α) (l₁ l₂ : List α) :
    Segment links p (l₁ ++ l₂) q ↔
      Segment links p l₁ (l₂.head?.or q) ∧ Segment links (l₁.getLast?.or p) l₂ q := by
  induction l₁ generalizing p with
  | nil => simp [Segment]
  | cons a l₁ ih =>
      have hlast : (a :: l₁).getLast?.or p = l₁.getLast?.or (some a) := by
        rw [List.getLast?_cons]
        cases l₁.getLast? <;> rfl
      rw [List.cons_append, Segment, Segment, ih, List.head?_append, Option.or_assoc, hlast]
      simp only [and_assoc]

/-- A segment depends on the pointers of its own nodes only. -/
theorem segment_congr {links links' : Links α} {l : List α}
    (hnext : ∀ a ∈ l, links'.next a = links.next a)
    (hprev : ∀ a ∈ l, links'.prev a = links.prev a) (p q : Option α) :
    Segment links' p l q ↔ Segment links p l q := by
  induction l generalizing p with
  | nil => simp [Segment]
  | cons a l ih =>
      simp only [Segment]
      rw [hnext a (by simp), hprev a (by simp),
        ih (fun b hb => hnext b (by simp [hb])) (fun b hb => hprev b (by simp [hb]))]

theorem segment_neighbours {links : Links α} {l₁ l₂ : List α} {x : α}
    (hseg : Segment links none (l₁ ++ x :: l₂) none) :
    links.prev x = l₁.getLast? ∧ links.next x = l₂.head? := by
  rw [segment_append] at hseg
  obtain ⟨-, hprev, hnext, -⟩ := hseg
  exact ⟨by simpa using hprev, by simpa using hnext⟩

theorem segment_prev_head {links : Links α} {l : List α} {x : α}
    (hseg : Segment links none l none) (hhead : l.head? = some x) : links.prev x = none := by
  obtain ⟨rest, rfl⟩ := List.head?_eq_some_iff.mp hhead
  exact hseg.1

theorem segment_next_last {links : Links α} {l : List α} {x : α}
    (hseg : Segment links none l none) (hlast : l.getLast? = some x) : links.next x = none := by
  obtain ⟨rest, rfl⟩ := List.getLast?_eq_some_iff.mp hlast
  exact (segment_neighbours hseg).2

section Walk

/-- The nodes met when following the forward pointers, or `none` if the end is not met within
`fuel` steps. -/
def walk (next : α → Option α) : Nat → Option α → Option (List α)
  | _, none => some []
  | 0, some _ => none
  | fuel + 1, some a => (walk next fuel (next a)).map (a :: ·)

theorem walk_segment {links : Links α} {l : List α} {p : Option α}
    (hseg : Segment links p l none) {fuel : Nat} (hfuel : l.length ≤ fuel) :
    walk links.next fuel l.head? = some l := by
  induction l generalizing p fuel with
  | nil => cases fuel <;> rfl
  | cons a l ih =>
      obtain ⟨-, hnext, htail⟩ := hseg
      cases fuel with
      | zero => simp at hfuel
      | succ fuel =>
          simp only [List.head?_cons, walk, hnext, Option.or_none]
          rw [ih htail (by simpa using hfuel)]
          rfl

end Walk

variable [DecidableEq α]

def Links.setNext (links : Links α) (a : α) (q : Option α) : Links α :=
  { links with next := Function.update links.next a q }

def Links.setPrev (links : Links α) (a : α) (p : Option α) : Links α :=
  { links with prev := Function.update links.prev a p }

theorem segment_setNext_of_notMem {links : Links α} {p q r : Option α} {l : List α} {a : α}
    (hnotMem : a ∉ l) :
    Segment (links.setNext a r) p l q ↔ Segment links p l q := by
  refine segment_congr ?_ ?_ p q
  · intro b hb
    have hne : b ≠ a := fun heq => hnotMem (heq ▸ hb)
    simp [Links.setNext, hne]
  · intro b _
    rfl

theorem segment_setPrev_of_notMem {links : Links α} {p q r : Option α} {l : List α} {a : α}
    (hnotMem : a ∉ l) :
    Segment (links.setPrev a r) p l q ↔ Segment links p l q := by
  refine segment_congr ?_ ?_ p q
  · intro b _
    rfl
  · intro b hb
    have hne : b ≠ a := fun heq => hnotMem (heq ▸ hb)
    simp [Links.setPrev, hne]

/-- Redirecting the last node's forward pointer moves the far end of the segment. -/
theorem segment_setNext_last {links : Links α} {p q r : Option α} {l : List α} {a : α}
    (hseg : Segment links p (l ++ [a]) q) (hnotMem : a ∉ l) :
    Segment (links.setNext a r) p (l ++ [a]) r := by
  rw [segment_append] at hseg ⊢
  refine ⟨?_, ?_⟩
  · exact (segment_setNext_of_notMem hnotMem).mpr hseg.1
  · simpa [Segment, Links.setNext] using hseg.2.1

/-- Redirecting the first node's backward pointer moves the near end of the segment. -/
theorem segment_setPrev_head {links : Links α} {p q r : Option α} {l : List α} {a : α}
    (hseg : Segment links p (a :: l) q) (hnotMem : a ∉ l) :
    Segment (links.setPrev a r) r (a :: l) q := by
  obtain ⟨-, hnext, htail⟩ := hseg
  refine ⟨by simp [Links.setPrev], by simpa [Links.setPrev] using hnext, ?_⟩
  exact (segment_setPrev_of_notMem hnotMem).mpr htail

/-! ### Taking a node out and adding one at the end

The two updates of an intrusive list, as the pointer writes that perform them. -/

/-- What points forward to `x` points behind it. -/
def Links.unlinkNext (links : Links α) (x : α) : Links α :=
  match links.prev x with
  | some y => links.setNext y (links.next x)
  | none => links

/-- What points back to `x` points before it. -/
def Links.unlinkPrev (links : Links α) (x : α) : Links α :=
  match links.next x with
  | some z => links.setPrev z (links.prev x)
  | none => links

/-- The writes that take `x` out of its list: its neighbours are joined, `x` keeps its pointers. -/
def Links.unlink (links : Links α) (x : α) : Links α :=
  (links.unlinkNext x).unlinkPrev x

/-- The writes that add `x` behind the last node `tail`. An empty list has no last node, and then
nothing is written: `x` keeps whatever pointers it had. -/
def Links.pushBack (links : Links α) (tail : Option α) (x : α) : Links α :=
  match tail with
  | some t => (links.setPrev x (some t)).setNext t (some x)
  | none => links

theorem segment_unlink {links : Links α} {l₁ l₂ : List α} {x : α}
    (hseg : Segment links none (l₁ ++ x :: l₂) none) (hnodup : (l₁ ++ x :: l₂).Nodup) :
    Segment (links.unlink x) none (l₁ ++ l₂) none := by
  obtain ⟨hprev, hnext⟩ := segment_neighbours hseg
  rw [segment_append] at hseg
  obtain ⟨hleft, -, -, hright⟩ := hseg
  have hnodupRight : (x :: l₂).Nodup := hnodup.of_append_right
  have hdisjoint : ∀ a ∈ l₁, a ∉ x :: l₂ := fun a ha => List.disjoint_of_nodup_append hnodup ha
  rcases List.eq_nil_or_concat' l₁ with rfl | ⟨l, y, rfl⟩
  · cases l₂ with
    | nil => simp [Segment]
    | cons z l₂ =>
        have hz : z ∉ l₂ := (List.nodup_cons.mp (List.nodup_cons.mp hnodupRight).2).1
        have hunlink : links.unlink x = links.setPrev z none := by
          simp only [List.getLast?_nil] at hprev
          simp only [List.head?_cons] at hnext
          simp [Links.unlink, Links.unlinkNext, Links.unlinkPrev, hprev, hnext]
        rw [hunlink]
        exact segment_setPrev_head hright hz
  · have hnodupLeft : (l ++ [y]).Nodup := hnodup.of_append_left
    have hy : y ∉ l := fun hmem =>
      List.disjoint_of_nodup_append hnodupLeft hmem (List.mem_singleton_self y)
    have hyRight : y ∉ x :: l₂ := hdisjoint y (by simp)
    have hyx : y ≠ x := fun heq => hyRight (by simp [heq])
    simp only [List.getLast?_append, List.getLast?_singleton, Option.some_or] at hprev
    have hjoined := segment_setNext_last (r := l₂.head?) hleft hy
    cases l₂ with
    | nil =>
        simp only [List.head?_nil] at hnext hjoined
        have hunlink : links.unlink x = links.setNext y none := by
          simp [Links.unlink, Links.unlinkNext, Links.unlinkPrev, hprev, hnext, Links.setNext,
            Function.update_of_ne (Ne.symm hyx)]
        rw [hunlink, List.append_nil]
        exact hjoined
    | cons z l₂ =>
        simp only [List.head?_cons] at hnext hjoined
        have hz : z ∉ l₂ := (List.nodup_cons.mp (List.nodup_cons.mp hnodupRight).2).1
        have hzLeft : z ∉ l ++ [y] := fun hmem => hdisjoint z hmem (by simp)
        have hyTail : y ∉ z :: l₂ := fun hmem => hyRight (List.mem_cons_of_mem x hmem)
        have hunlink : links.unlink x = (links.setNext y (some z)).setPrev z (some y) := by
          simp [Links.unlink, Links.unlinkNext, Links.unlinkPrev, hprev, hnext, Links.setNext,
            Function.update_of_ne (Ne.symm hyx)]
        rw [hunlink, segment_append]
        refine ⟨?_, ?_⟩
        · rw [segment_setPrev_of_notMem hzLeft]
          simpa using hjoined
        · have htail := segment_setPrev_head (r := some y)
            ((segment_setNext_of_notMem (r := some z) hyTail).mpr hright) hz
          simpa using htail

theorem Links.unlink_next_self {links : Links α} {x : α} (hprev : links.prev x ≠ some x) :
    (links.unlink x).next x = links.next x := by
  have hnext : (links.unlinkNext x).next x = links.next x := by
    unfold unlinkNext
    cases hp : links.prev x with
    | none => rfl
    | some y =>
        have hne : x ≠ y := fun heq => hprev (by rw [hp, heq])
        simp [setNext, hne]
  unfold unlink unlinkPrev
  split
  · exact hnext
  · exact hnext

theorem Links.unlink_prev_self {links : Links α} {x : α} (hprev : links.prev x ≠ some x)
    (hnext : links.next x ≠ some x) : (links.unlink x).prev x = links.prev x := by
  have hback : (links.unlinkNext x).prev x = links.prev x := by
    unfold unlinkNext
    split <;> rfl
  have hforward : (links.unlinkNext x).next x = links.next x := by
    unfold unlinkNext
    cases hp : links.prev x with
    | none => rfl
    | some y =>
        have hne : x ≠ y := fun heq => hprev (by rw [hp, heq])
        simp [setNext, hne]
  unfold unlink unlinkPrev
  rw [hforward]
  cases hn : links.next x with
  | none => exact hback
  | some z =>
      have hne : x ≠ z := fun heq => hnext (by rw [hn, heq])
      simp [setPrev, hne, hback]

/-- Unlinking writes to the nodes beside `x` only. -/
theorem segment_unlink_of_disjoint {links : Links α} {l₁ l₂ l : List α} {x : α}
    {p q : Option α} (hseg : Segment links none (l₁ ++ x :: l₂) none)
    (hdisjoint : ∀ a ∈ l, a ∉ l₁ ++ x :: l₂) :
    Segment (links.unlink x) p l q ↔ Segment links p l q := by
  obtain ⟨hprev, hnext⟩ := segment_neighbours hseg
  have hnotMem : ∀ a ∈ l₁ ++ x :: l₂, a ∉ l := fun a ha hmem => hdisjoint a hmem ha
  have hjoined : ∀ y, links.prev x = some y → y ∉ l := by
    intro y hy
    rw [hprev] at hy
    exact hnotMem y (List.mem_append_left _ (List.mem_of_getLast? hy))
  have hfar : ∀ z, links.next x = some z → z ∉ l := by
    intro z hz
    rw [hnext] at hz
    exact hnotMem z (List.mem_append_right _ (List.mem_cons_of_mem _ (List.mem_of_head? hz)))
  unfold Links.unlink Links.unlinkPrev Links.unlinkNext
  cases hp : links.prev x with
  | none =>
      cases hn : links.next x with
      | none => simp
      | some z =>
          simp only
          exact segment_setPrev_of_notMem (hfar z hn)
  | some y =>
      have hxy : (links.setNext y (links.next x)).next x = links.next x := by
        by_cases hxy : x = y
        · subst hxy
          simp [Links.setNext]
        · simp [Links.setNext, hxy]
      simp only [hxy]
      cases hn : links.next x with
      | none => exact segment_setNext_of_notMem (hjoined y hp)
      | some z =>
          simp only
          rw [segment_setPrev_of_notMem (hfar z hn), segment_setNext_of_notMem (hjoined y hp)]

/-- Adding a node leaves its own forward pointer as it was. -/
theorem Links.pushBack_next_self {links : Links α} {tail : Option α} {x : α}
    (htail : tail ≠ some x) : (links.pushBack tail x).next x = links.next x := by
  cases tail with
  | none => rfl
  | some t =>
      have hne : x ≠ t := fun heq => htail (by rw [heq])
      simp [Links.pushBack, Links.setNext, Links.setPrev, hne]

theorem segment_pushBack {links : Links α} {l : List α} {x : α}
    (hseg : Segment links none l none) (hnodup : l.Nodup) (hnotMem : x ∉ l)
    (hnext : links.next x = none) (hprev : l = [] → links.prev x = none) :
    Segment (links.pushBack l.getLast? x) none (l ++ [x]) none := by
  rcases List.eq_nil_or_concat' l with rfl | ⟨l, t, rfl⟩
  · exact ⟨hprev rfl, by simpa [Links.pushBack] using hnext, trivial⟩
  · have ht : t ∉ l := fun hmem =>
      List.disjoint_of_nodup_append hnodup hmem (List.mem_singleton_self t)
    have hxt : x ≠ t := fun heq => hnotMem (by simp [heq])
    have hback : Segment (links.setPrev x (some t)) none (l ++ [t]) none :=
      (segment_setPrev_of_notMem hnotMem).mpr hseg
    have hjoined := segment_setNext_last (r := some x) hback ht
    rw [segment_append]
    refine ⟨by simpa [Links.pushBack] using hjoined, ?_⟩
    refine ⟨?_, ?_, trivial⟩
    · simp [Links.pushBack, Links.setNext, Links.setPrev]
    · simpa [Links.pushBack, Links.setNext, Links.setPrev, hxt] using hnext

/-- Adding at the end writes to the new node and the last one only. -/
theorem segment_pushBack_of_disjoint {links : Links α} {l : List α} {tail : Option α} {x : α}
    {p q : Option α} (htail : ∀ t, tail = some t → t ∉ l) (hnotMem : x ∉ l) :
    Segment (links.pushBack tail x) p l q ↔ Segment links p l q := by
  cases tail with
  | none => rfl
  | some t =>
      simp only [Links.pushBack]
      rw [segment_setNext_of_notMem (htail t rfl), segment_setPrev_of_notMem hnotMem]

end Intrusive
