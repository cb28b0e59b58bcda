import Mathlib

/-!
# Tables with a key

A table is an array searched from the front for the first record with a key. A search splits the
table at the record it finds; a write through the result changes that record in place, and removal
moves the last record into the gap. Where the keys are distinct, what the search finds is the record
of its key.
-/

namespace Table

variable {α κ : Type*} [DecidableEq κ] {key : α → κ} {k : κ} {l : List α} {i : Nat} {x y : α}

/-- The first record with a key, and where it is. -/
def find (key : α → κ) (k : κ) : List α → Option (Nat × α)
  | [] => none
  | x :: l => if key x = k then some (0, x) else (find key k l).map fun found => (found.1 + 1, found.2)

/-- Removal that moves the last record into the gap. -/
def removeAt (l : List α) (i : Nat) : List α :=
  match l.getLast? with
  | none => []
  | some last => (l.set i last).dropLast

theorem find_eq_none_iff : find key k l = none ↔ ∀ x ∈ l, key x ≠ k := by
  induction l with
  | nil => simp [find]
  | cons y l ih =>
      by_cases hkey : key y = k
      · simp [find, hkey]
      · simp [find, hkey, ih]

theorem find_isSome_iff : (find key k l).isSome ↔ k ∈ l.map key := by
  rw [← not_iff_not, Option.not_isSome_iff_eq_none, find_eq_none_iff, List.mem_map, not_exists]
  exact forall_congr' fun x => not_and.symm

/-- What a search found: the table is split at the record, and no record before it has the key. -/
theorem exists_split_of_find (hfind : find key k l = some (i, x)) :
    ∃ before after, l = before ++ x :: after ∧ before.length = i ∧ key x = k
      ∧ ∀ y ∈ before, key y ≠ k := by
  induction l generalizing i with
  | nil => cases hfind
  | cons y l ih =>
      by_cases hkey : key y = k
      · obtain ⟨rfl, rfl⟩ : 0 = i ∧ y = x := by simpa [find, hkey] using hfind
        exact ⟨[], l, rfl, rfl, hkey, by simp⟩
      · obtain ⟨⟨j, z⟩, hfind', heq⟩ : ∃ found, find key k l = some found
            ∧ (found.1 + 1, found.2) = (i, x) := by
          simpa [find, hkey] using hfind
        obtain ⟨rfl, rfl⟩ := Prod.mk.injEq .. ▸ heq
        obtain ⟨before, after, rfl, rfl, hfound, hskipped⟩ := ih hfind'
        refine ⟨y :: before, after, rfl, rfl, hfound, ?_⟩
        simpa [hkey] using hskipped

theorem find_append_of_notMem (hnone : ∀ y ∈ l, key y ≠ k) (l' : List α) :
    find key k (l ++ l') = (find key k l').map fun found => (found.1 + l.length, found.2) := by
  induction l with
  | nil => simp
  | cons y l ih =>
      rw [List.cons_append, find, if_neg (hnone y (by simp)),
        ih fun z hz => hnone z (by simp [hz]), Option.map_map]
      congr 1

omit [DecidableEq κ] in
/-- With distinct keys, a table splits at a record into others. -/
theorem exists_split_of_mem (hnodup : (l.map key).Nodup) (hmem : x ∈ l) :
    ∃ before after, l = before ++ x :: after ∧ ∀ y ∈ before ++ after, key y ≠ key x := by
  obtain ⟨before, after, rfl⟩ := List.append_of_mem hmem
  rw [List.map_append, List.map_cons, List.nodup_middle, List.nodup_cons, ← List.map_append] at hnodup
  exact ⟨before, after, rfl, fun y hy heq => hnodup.1 (heq ▸ List.mem_map_of_mem hy)⟩

/-- With distinct keys, the search finds the record of the key wherever it is. -/
theorem find_of_mem (hnodup : (l.map key).Nodup) (hmem : x ∈ l) :
    ∃ i, find key (key x) l = some (i, x) := by
  obtain ⟨before, after, rfl, hothers⟩ := exists_split_of_mem hnodup hmem
  have hbefore : ∀ y ∈ before, key y ≠ key x := fun y hy => hothers y (by simp [hy])
  exact ⟨_, by rw [find_append_of_notMem hbefore, find, if_pos rfl]; rfl⟩

/-! ### Writes at a split -/

theorem find_split (before after : List α) (hskipped : ∀ y ∈ before, key y ≠ k)
    (hkey : key x = k) : find key k (before ++ x :: after) = some (before.length, x) := by
  rw [find_append_of_notMem hskipped, find, if_pos hkey]
  simp

/-- A record without the key does not take part in the search. -/
theorem find_split_of_ne (before after : List α) (hx : key x ≠ k) (hy : key y ≠ k) :
    find key k (before ++ x :: after) = find key k (before ++ y :: after) := by
  induction before with
  | nil => simp [find, hx, hy]
  | cons z before ih =>
      rw [List.cons_append, List.cons_append, find, find, ih]

theorem find_concat_of_ne (l : List α) (hx : key x ≠ k) : find key k (l ++ [x]) = find key k l := by
  induction l with
  | nil => simp [find, hx]
  | cons z l ih => rw [List.cons_append, find, find, ih]

@[simp]
theorem set_split (before after : List α) (x y : α) :
    (before ++ x :: after).set before.length y = before ++ y :: after := by
  simp

/-- A record written in the place of some others. -/
theorem forall_mem_split {P : α → Prop} {before others after : List α}
    (hsplit : l = before ++ others ++ after) (hold : ∀ y ∈ l, P y) (hx : P x) :
    ∀ y ∈ before ++ x :: after, P y := by
  intro y hmem
  rcases List.mem_append.mp hmem with hbefore | hrest
  · exact hold y (by simp [hsplit, hbefore])
  · rcases List.mem_cons.mp hrest with rfl | hafter
    · exact hx
    · exact hold y (by simp [hsplit, hafter])

/-- A write to the records with a key changes the one record that has it. -/
theorem map_update_split (before after : List α) (hothers : ∀ y ∈ before ++ after, key y ≠ k)
    (hkey : key x = k) (f : α → α) :
    ((before ++ x :: after).map fun y => if key y = k then f y else y) = before ++ f x :: after := by
  have hsame : ∀ l' : List α, (∀ y ∈ l', key y ≠ k) →
      (l'.map fun y => if key y = k then f y else y) = l' := by
    intro l' hne
    nth_rewrite 2 [← List.map_id l']
    apply List.map_congr_left
    intro y hy
    exact if_neg (hne y hy)
  rw [List.map_append, List.map_cons, if_pos hkey, hsame before fun y hy => hothers y (by simp [hy]),
    hsame after fun y hy => hothers y (by simp [hy])]

/-- What replaces a record in the middle joins the rest. -/
theorem perm_replace {before middle after rest l' : List α}
    (hold : (before ++ x :: after).Perm (x :: rest))
    (hnew : l'.Perm (before ++ middle ++ after)) : l'.Perm (middle ++ rest) := by
  have hrest : (before ++ after).Perm rest := (List.perm_middle.symm.trans hold).cons_inv
  refine hnew.trans (List.Perm.trans ?_ (hrest.append_left middle))
  rw [← List.append_assoc]
  exact List.perm_append_comm.append_right after

theorem removeAt_split (before after : List α) (x : α) :
    (removeAt (before ++ x :: after) before.length).Perm (before ++ after) := by
  rcases List.eq_nil_or_concat' after with rfl | ⟨rest, last, rfl⟩
  · simp [removeAt]
  · have hlast : (before ++ x :: (rest ++ [last])).getLast? = some last := by
      rw [← List.cons_append, ← List.append_assoc, List.getLast?_concat]
    have hremove : removeAt (before ++ x :: (rest ++ [last])) before.length =
        before ++ last :: rest := by
      rw [removeAt, hlast]
      simp only [set_split]
      rw [← List.cons_append, ← List.append_assoc, List.dropLast_concat]
    rw [hremove]
    exact (List.perm_append_left_iff before).mpr (List.perm_append_singleton last rest).symm

omit [DecidableEq κ] in
/-- A write that keeps the key of a record keeps the keys of the table. -/
theorem map_set_of_key_eq (hget : l[i]? = some x) (hkey : key y = key x) :
    (l.set i y).map key = l.map key := by
  obtain ⟨hlt, rfl⟩ := List.getElem?_eq_some_iff.mp hget
  rw [List.map_set, hkey, ← List.map_set, List.set_getElem_self]

/-! ### The map of a table -/

/-- The record of a key. -/
def lookup (key : α → κ) (l : List α) (k : κ) : Option α := (find key k l).map Prod.snd

theorem key_of_find (hfind : find key k l = some (i, x)) : key x = k := by
  obtain ⟨before, after, -, -, hkey, -⟩ := exists_split_of_find hfind
  exact hkey

/-- A record that keeps its key, written where a search has found it. -/
theorem lookup_set_of_find (hfind : find key k l = some (i, x)) (hkey : key y = k) (k' : κ) :
    lookup key (l.set i y) k' = if k' = k then some y else lookup key l k' := by
  obtain ⟨before, after, rfl, rfl, hfound, hskipped⟩ := exists_split_of_find hfind
  rw [set_split, lookup, lookup]
  by_cases hk : k' = k
  · rw [if_pos hk, hk, find_split before after hskipped hkey]
    rfl
  · rw [if_neg hk, find_split_of_ne before after (x := y) (y := x)
      (fun heq => hk (heq.symm.trans hkey)) fun heq => hk (heq.symm.trans hfound)]

/-- With distinct keys, a record is found where it is. -/
theorem index_of_find {j : Nat} (hnodup : (l.map key).Nodup) (hfind : find key (key x) l = some (i, y))
    (hget : l[j]? = some x) : i = j := by
  obtain ⟨before, after, rfl, rfl, hkey, -⟩ := exists_split_of_find hfind
  have hget' : ((before ++ y :: after).map key)[before.length]? = some (key x) := by
    simp [hkey]
  have hgetx : ((before ++ y :: after).map key)[j]? = some (key x) := by
    rw [List.getElem?_map, hget]
    rfl
  obtain ⟨hlt, hat⟩ := List.getElem?_eq_some_iff.mp hget'
  obtain ⟨hltj, hatj⟩ := List.getElem?_eq_some_iff.mp hgetx
  exact (hnodup.getElem_inj_iff).mp (hat.trans hatj.symm)

theorem lookup_eq_none_iff : lookup key l k = none ↔ ∀ x ∈ l, key x ≠ k := by
  rw [lookup, Option.map_eq_none_iff, find_eq_none_iff]

theorem lookup_eq_some_iff (hnodup : (l.map key).Nodup) :
    lookup key l k = some x ↔ x ∈ l ∧ key x = k := by
  constructor
  · intro hlookup
    obtain ⟨⟨i, y⟩, hfind, rfl⟩ := Option.map_eq_some_iff.mp hlookup
    obtain ⟨before, after, rfl, -, hkey, -⟩ := exists_split_of_find hfind
    exact ⟨by simp, hkey⟩
  · rintro ⟨hmem, rfl⟩
    obtain ⟨i, hfind⟩ := find_of_mem hnodup hmem
    simp [lookup, hfind]

theorem lookup_cons (x : α) (l : List α) :
    lookup key (x :: l) = Function.update (lookup key l) (key x) (some x) := by
  funext k
  by_cases hk : key x = k
  · subst hk
    simp [lookup, find]
  · rw [Function.update_of_ne (Ne.symm hk), lookup, find, if_neg hk, Option.map_map]
    rfl

/-- With distinct keys the order of the table does not matter. -/
theorem lookup_perm {l' : List α} (hnodup : (l.map key).Nodup) (hperm : l.Perm l') :
    lookup key l = lookup key l' := by
  have hnodup' : (l'.map key).Nodup := (hperm.map key).nodup_iff.mp hnodup
  funext k
  apply Option.ext
  intro x
  rw [lookup_eq_some_iff hnodup, lookup_eq_some_iff hnodup', hperm.mem_iff]

omit [DecidableEq κ] in
theorem nodup_split_iff {before after : List α} :
    ((before ++ x :: after).map key).Nodup ↔
      (∀ y ∈ before ++ after, key y ≠ key x) ∧ ((before ++ after).map key).Nodup := by
  rw [List.map_append, List.map_cons, List.nodup_middle, List.nodup_cons, ← List.map_append, List.mem_map,
    not_exists]
  simp only [not_and]

/-- Taking out a record forgets its key. -/
theorem lookup_erase {before after : List α} (hnodup : ((before ++ x :: after).map key).Nodup) :
    lookup key (before ++ after) = Function.update (lookup key (before ++ x :: after)) (key x) none := by
  have hothers : ∀ y ∈ before ++ after, key y ≠ key x := (nodup_split_iff.mp hnodup).1
  rw [lookup_perm hnodup List.perm_middle, lookup_cons, Function.update_idem,
    ← lookup_eq_none_iff.mpr hothers, Function.update_eq_self]

theorem setOf_lookup_ne_none : {k | lookup key l k ≠ none} = ↑(l.map key).toFinset := by
  ext k
  simp only [ne_eq, lookup_eq_none_iff, Set.mem_ofPred_eq, List.coe_toFinset, List.mem_map]
  push Not
  rfl

/-- As many keys as records. -/
theorem ncard_lookup (hnodup : (l.map key).Nodup) : {k | lookup key l k ≠ none}.ncard = l.length := by
  rw [setOf_lookup_ne_none, Set.ncard_coe_finset, List.toFinset_card_of_nodup hnodup, List.length_map]

/-- A sum over the records is a sum over the map. -/
theorem sum_eq_finsum {M : Type*} [AddCommMonoid M] (hnodup : (l.map key).Nodup) (f : α → M) :
    (l.map f).sum = ∑ᶠ k, (lookup key l k).elim 0 f := by
  have hsupport : Function.support (fun k => (lookup key l k).elim 0 f) ⊆ ↑(l.map key).toFinset := by
    rw [← setOf_lookup_ne_none]
    intro k hk hnone
    apply hk
    simp only [hnone, Option.elim_none]
  rw [finsum_eq_sum_of_support_subset _ hsupport, List.sum_toFinset _ hnodup, List.map_map]
  refine congrArg List.sum (List.map_congr_left fun x hx => ?_)
  rw [Function.comp_apply, (lookup_eq_some_iff hnodup).mpr ⟨hx, rfl⟩, Option.elim_some]

end Table
