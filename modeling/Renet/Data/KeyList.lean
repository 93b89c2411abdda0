import Mathlib.Data.List.Basic

/-!
# Association lists

A hash map whose iteration order is never observed, as a list of bindings. Lookups and updates
act on the first binding of a key; the maps built here bind each key once, and `set` keeps the
keys in place.

## Main definitions

* `KeyList.find?`, `KeyList.set`, `KeyList.erase`, `KeyList.insert`.
-/

namespace KeyList

variable {κ ν : Type} [DecidableEq κ]

/-- The value of the first binding of `k`. -/
def find? (k : κ) : List (κ × ν) → Option ν
  | [] => none
  | (k', v) :: l => if k' = k then some v else find? k l

/-- Replace the value of the first binding of `k`; without one, nothing changes. -/
def set (k : κ) (v : ν) : List (κ × ν) → List (κ × ν)
  | [] => []
  | (k', v') :: l => if k' = k then (k', v) :: l else (k', v') :: set k v l

/-- `remove`: drop the first binding of `k`. -/
def erase (k : κ) : List (κ × ν) → List (κ × ν)
  | [] => []
  | (k', v) :: l => if k' = k then l else (k', v) :: erase k l

/-- `insert`: replace the value of `k`, or bind it at the end. -/
def insert (k : κ) (v : ν) (l : List (κ × ν)) : List (κ × ν) :=
  if (find? k l).isSome then set k v l else l ++ [(k, v)]

@[simp] theorem find?_nil (k : κ) : find? k ([] : List (κ × ν)) = none := rfl

theorem find?_append (k : κ) (l l' : List (κ × ν)) :
    find? k (l ++ l') = (find? k l).or (find? k l') := by
  induction l with
  | nil => rfl
  | cons e l ih =>
    obtain ⟨k', v⟩ := e
    by_cases hk : k' = k
    · simp [find?, hk]
    · simp [find?, hk, ih]

theorem find?_set_of_isSome {k : κ} {l : List (κ × ν)} (h : (find? k l).isSome) (v : ν) :
    find? k (set k v l) = some v := by
  induction l with
  | nil => simp at h
  | cons e l ih =>
    obtain ⟨k', v'⟩ := e
    by_cases hk : k' = k
    · simp [set, find?, hk]
    · simp only [find?, hk, if_false] at h
      simp [set, find?, hk, ih h]

theorem find?_set_of_ne {k k' : κ} (h : k' ≠ k) (v : ν) (l : List (κ × ν)) :
    find? k' (set k v l) = find? k' l := by
  induction l with
  | nil => rfl
  | cons e l ih =>
    obtain ⟨k'', v'⟩ := e
    by_cases hk : k'' = k
    · subst hk
      simp [set, find?, Ne.symm h]
    · simp only [set, hk, if_false, find?]
      split_ifs <;> simp [ih]

@[simp] theorem map_fst_set (k : κ) (v : ν) (l : List (κ × ν)) :
    (set k v l).map Prod.fst = l.map Prod.fst := by
  induction l with
  | nil => rfl
  | cons e l ih =>
    obtain ⟨k', v'⟩ := e
    by_cases hk : k' = k
    · simp [set, hk]
    · simp [set, hk, ih]

theorem find?_isSome_iff {k : κ} {l : List (κ × ν)} :
    (find? k l).isSome ↔ k ∈ l.map Prod.fst := by
  induction l with
  | nil => simp
  | cons e l ih =>
    obtain ⟨k', v⟩ := e
    by_cases hk : k' = k
    · simp [find?, hk]
    · simp [find?, hk, ih, Ne.symm hk]

/-- Setting a key to the value it has changes nothing. -/
theorem set_of_find? {k : κ} {v : ν} {l : List (κ × ν)} (h : find? k l = some v) :
    set k v l = l := by
  induction l with
  | nil => rfl
  | cons e l ih =>
    obtain ⟨k', v'⟩ := e
    by_cases hk : k' = k
    · simp only [find?, hk, if_true, Option.some.injEq] at h
      simp [set, hk, h]
    · simp only [find?, hk, if_false] at h
      simp [set, hk, ih h]

theorem insert_of_isSome {k : κ} {l : List (κ × ν)} (h : (find? k l).isSome) (v : ν) :
    insert k v l = set k v l := if_pos h

theorem insert_of_none {k : κ} {l : List (κ × ν)} (h : find? k l = none) (v : ν) :
    insert k v l = l ++ [(k, v)] := by
  simp [insert, h]

@[simp] theorem set_set (k : κ) (v v' : ν) (l : List (κ × ν)) :
    set k v (set k v' l) = set k v l := by
  induction l with
  | nil => rfl
  | cons e l ih =>
    obtain ⟨k', v''⟩ := e
    by_cases hk : k' = k
    · simp [set, hk]
    · simp [set, hk, ih]

/-! ### The keys of a list -/

theorem map_fst_insert_of_none {k : κ} {l : List (κ × ν)} (h : find? k l = none) (v : ν) :
    (insert k v l).map Prod.fst = l.map Prod.fst ++ [k] := by
  rw [insert_of_none h, List.map_append, List.map_singleton]

/-- `erase` drops one key and keeps the others in order. -/
theorem map_fst_erase_sublist (k : κ) (l : List (κ × ν)) :
    List.Sublist ((erase k l).map Prod.fst) (l.map Prod.fst) := by
  induction l with
  | nil => exact .slnil
  | cons e l ih =>
    obtain ⟨k', v⟩ := e
    by_cases hk : k' = k
    · simp only [erase, hk, if_true, List.map_cons]
      exact (List.Sublist.refl _).cons _
    · simp only [erase, hk, if_false, List.map_cons]
      exact ih.cons_cons _

/-- On a list binding each key once, `erase` unbinds its key and only it. -/
theorem mem_map_fst_erase {k k' : κ} {l : List (κ × ν)} (hnodup : (l.map Prod.fst).Nodup) :
    k' ∈ (erase k l).map Prod.fst ↔ k' ≠ k ∧ k' ∈ l.map Prod.fst := by
  induction l with
  | nil => simp [erase]
  | cons e l ih =>
    obtain ⟨k'', v⟩ := e
    rw [List.map_cons, List.nodup_cons] at hnodup
    by_cases hk : k'' = k
    · subst hk
      simp only [erase, if_true, List.map_cons, List.mem_cons]
      constructor
      · intro hmem
        exact ⟨fun heq => hnodup.1 (heq ▸ hmem), .inr hmem⟩
      · rintro ⟨hne, heq | hmem⟩
        · exact absurd heq hne
        · exact hmem
    · simp only [erase, hk, if_false, List.map_cons, List.mem_cons, ih hnodup.2]
      constructor
      · rintro (rfl | ⟨hne, hmem⟩)
        · exact ⟨hk, .inl rfl⟩
        · exact ⟨hne, .inr hmem⟩
      · rintro ⟨hne, rfl | hmem⟩
        · exact .inl rfl
        · exact .inr ⟨hne, hmem⟩

end KeyList
