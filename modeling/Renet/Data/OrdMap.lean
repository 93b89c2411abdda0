import Mathlib
import Renet.Data.Outcome

/-!
# Finite maps as sorted association lists

`OrdMap κ ν` is a finite map from keys in a linear order, kept as the list of its entries in
increasing order of keys. Sortedness is a field of the structure, so every map that can be built
has it. This is the model of Rust's `BTreeMap<K, V>`, whose iteration visits the entries in
increasing key order and whose `pop_first` removes the least key, and, with values in `Unit`,
of `BTreeSet<K>`.

## Main definitions

* `OrdMap.empty`, `OrdMap.find?`, `OrdMap.contains`, `OrdMap.insert`, `OrdMap.erase`,
  `OrdMap.popFirst`, `OrdMap.keys`.
* `OrdMap.withEntries`, `OrdMap.mapAccumM`: a map whose entries are recomputed with the same
  keys, as an `iter_mut` loop does.
* `OrdMap.sumValues`: a sum over the values, such as the bytes a map of messages holds.
* `OrdMap.Pointwise R m m'`: `m'` has the keys of `m` with values related by `R`.

## Main results

* `OrdMap.find?_insert`, `OrdMap.find?_erase`: lookups after an update.
* `OrdMap.mem_entries`: an entry of the list is exactly a successful lookup.
* `OrdMap.popFirst_eq_some`: `pop_first` returns the entry of least key and erases it.
* `OrdMap.sumValues_insert`, `OrdMap.sumValues_erase_of_find?`: sums after an update, and
  `OrdMap.sumValues_insert_le`, `OrdMap.sumValues_foldl_erase_le`: their bounds.
* `OrdMap.mapAccumM_pointwise`: an `iter_mut` loop whose every step keeps a state invariant
  and relates the new value to the old one.
* `OrdMap.mapAccumM_log`: the same, when each step relates them through what it adds to a log
  under its own key.
-/

/-- A finite map whose entries are listed in strictly increasing order of keys. -/
structure OrdMap (κ ν : Type) [LinearOrder κ] where
  entries : List (κ × ν)
  sorted : entries.Pairwise fun a b => a.1 < b.1

namespace OrdMap

variable {κ ν ν' : Type} [LinearOrder κ]

/-- `BTreeMap::new()`. -/
def empty : OrdMap κ ν := ⟨[], .nil⟩

/-- The value of the first entry of `l` with key `k`. -/
def findIn (k : κ) : List (κ × ν) → Option ν
  | [] => none
  | (k', v) :: rest => if k = k' then some v else findIn k rest

/-- `get`: the value at `k`. -/
def find? (m : OrdMap κ ν) (k : κ) : Option ν := findIn k m.entries

/-- `contains_key`. -/
def contains (m : OrdMap κ ν) (k : κ) : Bool := (m.find? k).isSome

/-- The keys, in increasing order. -/
def keys (m : OrdMap κ ν) : List κ := m.entries.map Prod.fst

/-- `is_empty`. -/
def isEmpty (m : OrdMap κ ν) : Bool := m.entries.isEmpty

/-- `len`. -/
def size (m : OrdMap κ ν) : Nat := m.entries.length

/-- Insert `(k, v)` into a sorted list, replacing the entry at `k` if there is one. -/
def insertIn (k : κ) (v : ν) : List (κ × ν) → List (κ × ν)
  | [] => [(k, v)]
  | (k', v') :: rest =>
    if k < k' then (k, v) :: (k', v') :: rest
    else if k = k' then (k, v) :: rest
    else (k', v') :: insertIn k v rest

theorem findIn_eq_none_of_lt {k : κ} {l : List (κ × ν)}
    (h : ∀ e ∈ l, k < e.1) : findIn k l = none := by
  induction l with
  | nil => rfl
  | cons e l ih =>
    obtain ⟨k', v'⟩ := e
    have hk : k ≠ k' := ne_of_lt (h _ List.mem_cons_self)
    simp only [findIn, hk, if_false]
    exact ih fun e he => h e (List.mem_cons_of_mem _ he)

theorem mem_insertIn {k : κ} {v : ν} {l : List (κ × ν)} {e : κ × ν} (he : e ∈ insertIn k v l) :
    e = (k, v) ∨ e ∈ l := by
  induction l with
  | nil => simpa [insertIn] using he
  | cons e' l ih =>
    obtain ⟨k', v'⟩ := e'
    unfold insertIn at he
    split_ifs at he
    · simpa using he
    · simp only [List.mem_cons] at he ⊢
      tauto
    · simp only [List.mem_cons] at he ⊢
      rcases he with rfl | he
      · exact Or.inr (Or.inl rfl)
      · rcases ih he with h | h
        · exact Or.inl h
        · exact Or.inr (Or.inr h)

theorem insertIn_sorted {k : κ} {v : ν} {l : List (κ × ν)}
    (h : l.Pairwise fun a b => a.1 < b.1) : (insertIn k v l).Pairwise fun a b => a.1 < b.1 := by
  induction l with
  | nil => simp [insertIn]
  | cons e l ih =>
    obtain ⟨k', v'⟩ := e
    obtain ⟨hhead, htail⟩ := List.pairwise_cons.mp h
    unfold insertIn
    split_ifs with hlt heq
    · refine List.Pairwise.cons (fun e he => ?_) h
      rcases List.mem_cons.mp he with rfl | he
      · exact hlt
      · exact lt_trans hlt (hhead e he)
    · subst heq
      exact List.Pairwise.cons hhead htail
    · refine List.Pairwise.cons (fun e he => ?_) (ih htail)
      rcases mem_insertIn he with rfl | he
      · exact lt_of_le_of_ne (not_lt.mp hlt) (Ne.symm heq)
      · exact hhead e he

theorem findIn_insertIn (k k' : κ) (v : ν) (l : List (κ × ν)) :
    findIn k' (insertIn k v l) = if k' = k then some v else findIn k' l := by
  induction l with
  | nil => simp [insertIn, findIn]
  | cons e l ih =>
    obtain ⟨k'', v''⟩ := e
    unfold insertIn
    split_ifs with h1 h2 h3 h4 h5 <;> simp_all [findIn]

/-- `insert`: the map with `k` sent to `v`. -/
def insert (m : OrdMap κ ν) (k : κ) (v : ν) : OrdMap κ ν :=
  ⟨insertIn k v m.entries, insertIn_sorted m.sorted⟩

/-- `remove`: the map without the key `k`. -/
def erase (m : OrdMap κ ν) (k : κ) : OrdMap κ ν :=
  ⟨m.entries.filter fun e => e.1 ≠ k, m.sorted.filter _⟩

/-- `pop_first`: the entry of least key and the map without it. -/
def popFirst (m : OrdMap κ ν) : Option ((κ × ν) × OrdMap κ ν) :=
  match m with
  | ⟨[], _⟩ => none
  | ⟨e :: rest, h⟩ => some (e, ⟨rest, (List.pairwise_cons.mp h).2⟩)

/-- A map with the entries `l`, which have the keys of `m` in the same order: the map an
`iter_mut` loop over `m` leaves. -/
def withEntries (m : OrdMap κ ν) (l : List (κ × ν')) (h : l.map Prod.fst = m.keys) :
    OrdMap κ ν' :=
  ⟨l, by
    have hs := List.pairwise_map.mpr m.sorted
    rw [keys] at h
    rw [← h] at hs
    exact List.pairwise_map.mp hs⟩

/-- Run `f` over the entries of `l` in order, threading a state and replacing each value; the
keys come out unchanged. -/
def mapAccumIn {m : Type → Type} [Monad m] {σ : Type} (f : σ → κ → ν → m (σ × ν')) :
    (l : List (κ × ν)) → σ →
      m (σ × {l' : List (κ × ν') // l'.map Prod.fst = l.map Prod.fst})
  | [], s => pure (s, ⟨[], rfl⟩)
  | (k, v) :: rest, s => do
    let (s, v') ← f s k v
    let (s, ⟨rest', h⟩) ← mapAccumIn f rest s
    pure (s, ⟨(k, v') :: rest', by simp [h]⟩)

/-- An `iter_mut` loop over a map: `f` runs on the entries in increasing key order, threading a
state, and replaces each value. -/
def mapAccumM {m : Type → Type} [Monad m] {σ : Type} (f : σ → κ → ν → m (σ × ν'))
    (mp : OrdMap κ ν) (s : σ) : m (σ × OrdMap κ ν') := do
  let (s, ⟨l, h⟩) ← mapAccumIn f mp.entries s
  pure (s, mp.withEntries l h)

/-! ### Lookups -/

@[simp] theorem find?_empty (k : κ) : (empty : OrdMap κ ν).find? k = none := rfl

@[simp] theorem isEmpty_empty : (empty : OrdMap κ ν).isEmpty = true := rfl

@[simp] theorem find?_insert (m : OrdMap κ ν) (k k' : κ) (v : ν) :
    (m.insert k v).find? k' = if k' = k then some v else m.find? k' :=
  findIn_insertIn k k' v m.entries

theorem findIn_filter (k k' : κ) (l : List (κ × ν)) :
    findIn k' (l.filter fun e => e.1 ≠ k) = if k' = k then none else findIn k' l := by
  induction l with
  | nil => simp [findIn]
  | cons e l ih =>
    obtain ⟨k'', v''⟩ := e
    by_cases h : k'' = k <;> by_cases h' : k' = k'' <;> simp_all [findIn]

@[simp] theorem find?_erase (m : OrdMap κ ν) (k k' : κ) :
    (m.erase k).find? k' = if k' = k then none else m.find? k' :=
  findIn_filter k k' m.entries

theorem contains_iff {m : OrdMap κ ν} {k : κ} : m.contains k = true ↔ ∃ v, m.find? k = some v :=
  Option.isSome_iff_exists

theorem mem_entries {m : OrdMap κ ν} {k : κ} {v : ν} : (k, v) ∈ m.entries ↔ m.find? k = some v := by
  obtain ⟨l, hl⟩ := m
  simp only [find?]
  induction l with
  | nil => simp [findIn]
  | cons e l ih =>
    obtain ⟨k', v'⟩ := e
    obtain ⟨hhead, htail⟩ := List.pairwise_cons.mp hl
    by_cases hk : k = k'
    · subst hk
      have hnone : findIn k l = none :=
        findIn_eq_none_of_lt fun e he => hhead e he
      have hnot : (k, v) ∉ l := fun hm => lt_irrefl k (hhead _ hm)
      simp [findIn, hnot, eq_comm]
    · simp [findIn, hk, ih htail]

theorem mem_keys {m : OrdMap κ ν} {k : κ} : k ∈ m.keys ↔ m.contains k = true := by
  simp only [keys, List.mem_map, contains_iff, ← mem_entries]
  constructor
  · rintro ⟨⟨k', v⟩, he, rfl⟩
    exact ⟨v, he⟩
  · rintro ⟨v, he⟩
    exact ⟨(k, v), he, rfl⟩

/-- A key is among the keys of the entries a filter keeps exactly when its entry passes it. -/
theorem mem_map_fst_filter_entries {m : OrdMap κ ν} {p : κ × ν → Bool} {k : κ} {v : ν}
    (hfind : m.find? k = some v) : k ∈ (m.entries.filter p).map Prod.fst ↔ p (k, v) = true := by
  constructor
  · rintro hmem
    obtain ⟨⟨k', v'⟩, he, rfl⟩ := List.mem_map.mp hmem
    obtain ⟨he, hp⟩ := List.mem_filter.mp he
    rw [mem_entries, hfind] at he
    cases he
    exact hp
  · intro hp
    exact List.mem_map.mpr ⟨(k, v), List.mem_filter.mpr ⟨mem_entries.mpr hfind, hp⟩, rfl⟩

theorem popFirst_eq_some {m m' : OrdMap κ ν} {k : κ} {v : ν}
    (h : m.popFirst = some ((k, v), m')) :
    m.find? k = some v ∧ m' = m.erase k ∧ ∀ k' ∈ m'.keys, k < k' := by
  obtain ⟨l, hl⟩ := m
  cases l with
  | nil => cases h
  | cons e l =>
    simp only [popFirst, Option.some.injEq, Prod.mk.injEq] at h
    obtain ⟨rfl, rfl⟩ := h
    have hhead := (List.pairwise_cons.mp hl).1
    refine ⟨by simp [find?, findIn], ?_, ?_⟩
    · have hfilter : ((k, v) :: l).filter (fun e => e.1 ≠ k) = l := by
        rw [List.filter_cons_of_neg (by simp), List.filter_eq_self]
        intro e he
        simpa using ne_of_gt (hhead e he)
      simp only [erase, hfilter]
    · intro k' hk'
      obtain ⟨e, he, rfl⟩ := List.mem_map.mp hk'
      exact hhead e he

theorem length_filter_ne {k : κ} {l : List (κ × ν)} (hs : l.Pairwise fun a b => a.1 < b.1)
    (h : (findIn k l).isSome) : (l.filter fun e => e.1 ≠ k).length + 1 = l.length := by
  induction l with
  | nil => simp [findIn] at h
  | cons e l ih =>
    obtain ⟨k', v'⟩ := e
    obtain ⟨hhead, htail⟩ := List.pairwise_cons.mp hs
    by_cases hk : k = k'
    · subst hk
      -- the other keys are all above `k`, so the filter drops the head only
      have hkeep : l.filter (fun e => e.1 ≠ k) = l :=
        List.filter_eq_self.mpr fun e he => by simpa using (hhead e he).ne'
      rw [List.filter_cons_of_neg (by simp), hkeep, List.length_cons]
    · simp only [findIn, hk, if_false] at h
      rw [List.filter_cons_of_pos (by simpa using Ne.symm hk), List.length_cons, List.length_cons,
        ih htail h]

/-- Erasing a present key removes exactly one entry. -/
theorem size_erase_of_contains {m : OrdMap κ ν} {k : κ} (h : m.contains k = true) :
    (m.erase k).size + 1 = m.size :=
  length_filter_ne m.sorted h

theorem contains_eq_false_of_size_eq_zero {m : OrdMap κ ν} (h : m.size = 0) (k : κ) :
    m.contains k = false := by
  obtain ⟨l, hl⟩ := m
  cases l with
  | nil => rfl
  | cons e l => simp [size] at h

theorem find?_foldl_erase (m : OrdMap κ ν) (ks : List κ) (k : κ) :
    (ks.foldl erase m).find? k = if k ∈ ks then none else m.find? k := by
  induction ks generalizing m with
  | nil => simp
  | cons k' ks ih =>
    rw [List.foldl_cons, ih, find?_erase]
    by_cases h : k ∈ ks <;> by_cases h' : k = k' <;> simp [h, h']

theorem nodup_keys (m : OrdMap κ ν) : m.keys.Nodup :=
  (List.pairwise_map.mpr m.sorted).imp ne_of_lt

/-! ### Sums over the values -/

/-- The sum of `f` over the values of the map. -/
def sumValues (f : ν → Nat) (m : OrdMap κ ν) : Nat := (m.entries.map fun e => f e.2).sum

/-- A key below every key of a sorted list is no key of it: filtering it out keeps the list. -/
theorem filter_ne_of_lt {k : κ} {l : List (κ × ν)} (h : ∀ e ∈ l, k < e.1) :
    (l.filter fun e => e.1 ≠ k) = l :=
  List.filter_eq_self.mpr fun e he => by simpa using (h e he).ne'

theorem sum_insertIn (f : ν → Nat) (k : κ) (v : ν) {l : List (κ × ν)}
    (hs : l.Pairwise fun a b => a.1 < b.1) :
    ((insertIn k v l).map fun e => f e.2).sum =
      f v + ((l.filter fun e => e.1 ≠ k).map fun e => f e.2).sum := by
  induction l with
  | nil => simp [insertIn]
  | cons e l ih =>
    obtain ⟨k', v'⟩ := e
    obtain ⟨hhead, htail⟩ := List.pairwise_cons.mp hs
    unfold insertIn
    split_ifs with hlt heq
    · -- `k` goes first; every key of the list is above it
      rw [filter_ne_of_lt fun e he => ?_]
      · simp
      · rcases List.mem_cons.mp he with rfl | he
        · exact hlt
        · exact lt_trans hlt (hhead e he)
    · subst heq
      rw [List.filter_cons_of_neg (by simp), filter_ne_of_lt hhead]
      simp
    · rw [List.filter_cons_of_pos (by simpa using Ne.symm heq)]
      simp only [List.map_cons, List.sum_cons, ih htail]
      omega

/-- Inserting at `k` counts the new value in place of the old one. -/
theorem sumValues_insert (f : ν → Nat) (m : OrdMap κ ν) (k : κ) (v : ν) :
    (m.insert k v).sumValues f = f v + (m.erase k).sumValues f :=
  sum_insertIn f k v m.sorted

theorem sum_filter_ne (f : ν → Nat) {k : κ} {v : ν} {l : List (κ × ν)}
    (hs : l.Pairwise fun a b => a.1 < b.1) (h : findIn k l = some v) :
    ((l.filter fun e => e.1 ≠ k).map fun e => f e.2).sum + f v =
      (l.map fun e => f e.2).sum := by
  induction l with
  | nil => simp [findIn] at h
  | cons e l ih =>
    obtain ⟨k', v'⟩ := e
    obtain ⟨hhead, htail⟩ := List.pairwise_cons.mp hs
    by_cases hk : k = k'
    · subst hk
      simp only [findIn, if_true, Option.some.injEq] at h
      subst h
      rw [List.filter_cons_of_neg (by simp), filter_ne_of_lt hhead]
      simp only [List.map_cons, List.sum_cons]
      omega
    · simp only [findIn, hk, if_false] at h
      rw [List.filter_cons_of_pos (by simpa using Ne.symm hk)]
      simp only [List.map_cons, List.sum_cons, ← ih htail h]
      omega

/-- Erasing a key that holds `v` takes `f v` off the sum. -/
theorem sumValues_erase_of_find? (f : ν → Nat) {m : OrdMap κ ν} {k : κ} {v : ν}
    (h : m.find? k = some v) : (m.erase k).sumValues f + f v = m.sumValues f :=
  sum_filter_ne f m.sorted h

theorem le_sumValues_of_find? (f : ν → Nat) {m : OrdMap κ ν} {k : κ} {v : ν}
    (h : m.find? k = some v) : f v ≤ m.sumValues f := by
  rw [← sumValues_erase_of_find? f h]
  exact Nat.le_add_left _ _

/-- Inserting at a key with no value adds the new value to the sum. -/
theorem sumValues_insert_of_find?_none (f : ν → Nat) {m : OrdMap κ ν} {k : κ}
    (h : m.find? k = none) (v : ν) : (m.insert k v).sumValues f = m.sumValues f + f v := by
  have herase : (m.erase k).entries = m.entries := by
    refine List.filter_eq_self.mpr fun e he => ?_
    have hfind : m.find? e.1 = some e.2 := mem_entries.mp he
    have hne : e.1 ≠ k := fun hk => by rw [hk, h] at hfind; cases hfind
    simpa using hne
  rw [sumValues_insert, Nat.add_comm]
  unfold sumValues
  rw [herase]

omit [LinearOrder κ] in
/-- Filtering entries out never adds to a sum over the values. -/
theorem sum_filter_le (f : ν → Nat) (p : κ × ν → Bool) (l : List (κ × ν)) :
    ((l.filter p).map fun e => f e.2).sum ≤ (l.map fun e => f e.2).sum := by
  induction l with
  | nil => simp
  | cons e l ih =>
    by_cases hp : p e
    · simp only [List.filter_cons_of_pos hp, List.map_cons, List.sum_cons]
      omega
    · simp only [List.filter_cons_of_neg hp, List.map_cons, List.sum_cons]
      omega

theorem sumValues_erase_le (f : ν → Nat) (m : OrdMap κ ν) (k : κ) :
    (m.erase k).sumValues f ≤ m.sumValues f :=
  sum_filter_le f _ m.entries

theorem sumValues_foldl_erase_le (f : ν → Nat) (m : OrdMap κ ν) (ks : List κ) :
    (ks.foldl erase m).sumValues f ≤ m.sumValues f := by
  induction ks generalizing m with
  | nil => exact Nat.le_refl _
  | cons k ks ih => exact Nat.le_trans (ih (m.erase k)) (sumValues_erase_le f m k)

/-- Inserting adds at most the new value to the sum. -/
theorem sumValues_insert_le (f : ν → Nat) (m : OrdMap κ ν) (k : κ) (v : ν) :
    (m.insert k v).sumValues f ≤ m.sumValues f + f v := by
  rw [sumValues_insert, Nat.add_comm]
  exact Nat.add_le_add_right (sumValues_erase_le f m k) _

/-- A sum over values that all count zero is zero. -/
theorem sumValues_eq_zero (f : ν → Nat) {m : OrdMap κ ν}
    (h : ∀ {k v}, m.find? k = some v → f v = 0) : m.sumValues f = 0 := by
  have hzero : ∀ e ∈ m.entries, f e.2 = 0 := fun e he => h (mem_entries.mp he)
  unfold sumValues
  generalize m.entries = l at hzero
  induction l with
  | nil => rfl
  | cons e l ih =>
    simp only [List.map_cons, List.sum_cons, hzero e List.mem_cons_self, Nat.zero_add]
    exact ih fun e' he' => hzero e' (List.mem_cons_of_mem _ he')

/-! ### Maps with the same keys -/

/-- `m'` has the keys of `m`, in the same order, with each value related to the old one. -/
def Pointwise (R : κ → ν → ν' → Prop) (m : OrdMap κ ν) (m' : OrdMap κ ν') : Prop :=
  List.Forall₂ (fun e e' => e'.1 = e.1 ∧ R e.1 e.2 e'.2) m.entries m'.entries

theorem forall₂_findIn {R : κ → ν → ν' → Prop} {l : List (κ × ν)} {l' : List (κ × ν')}
    (h : List.Forall₂ (fun e e' => e'.1 = e.1 ∧ R e.1 e.2 e'.2) l l') (k : κ) :
    Option.Rel (R k) (findIn k l) (findIn k l') := by
  induction h with
  | nil => exact .none
  | @cons e e' l l' he _ ih =>
    obtain ⟨k', v⟩ := e
    obtain ⟨k'', v'⟩ := e'
    obtain ⟨rfl, hR⟩ := he
    by_cases hk : k = k''
    · subst hk
      simpa [findIn] using Option.Rel.some hR
    · simpa [findIn, hk] using ih

theorem Pointwise.refl {R : κ → ν → ν → Prop} (hR : ∀ k v, R k v v) (m : OrdMap κ ν) :
    Pointwise R m m :=
  List.forall₂_same.mpr fun e _ => ⟨rfl, hR e.1 e.2⟩

/-- The lookups of two pointwise related maps are related. -/
theorem Pointwise.find? {R : κ → ν → ν' → Prop} {m : OrdMap κ ν} {m' : OrdMap κ ν'}
    (h : Pointwise R m m') (k : κ) : Option.Rel (R k) (m.find? k) (m'.find? k) :=
  forall₂_findIn h k

theorem Pointwise.exists_of_find? {R : κ → ν → ν' → Prop} {m : OrdMap κ ν} {m' : OrdMap κ ν'}
    (h : Pointwise R m m') {k : κ} {v' : ν'} (hk : m'.find? k = some v') :
    ∃ v, m.find? k = some v ∧ R k v v' := by
  have hrel := h.find? k
  rw [hk] at hrel
  cases hv : m.find? k with
  | none =>
    rw [hv] at hrel
    cases hrel
  | some v =>
    rw [hv] at hrel
    cases hrel with
    | some hR => exact ⟨v, rfl, hR⟩

/-- A key missing from one of two pointwise related maps is missing from the other. -/
theorem Pointwise.find?_eq_none {R : κ → ν → ν' → Prop} {m : OrdMap κ ν} {m' : OrdMap κ ν'}
    (h : Pointwise R m m') {k : κ} (hk : m'.find? k = none) : m.find? k = none := by
  have hrel := h.find? k
  rw [hk] at hrel
  cases hv : m.find? k with
  | none => rfl
  | some v =>
    rw [hv] at hrel
    cases hrel

theorem Pointwise.sumValues {R : κ → ν → ν' → Prop} {m : OrdMap κ ν} {m' : OrdMap κ ν'}
    (h : Pointwise R m m') {f : ν → Nat} {f' : ν' → Nat}
    (hf : ∀ k v v', R k v v' → f' v' = f v) : m'.sumValues f' = m.sumValues f := by
  obtain ⟨l, hl⟩ := m
  obtain ⟨l', hl'⟩ := m'
  change List.Forall₂ _ l l' at h
  show (l'.map fun e => f' e.2).sum = (l.map fun e => f e.2).sum
  clear hl hl'
  induction h with
  | nil => rfl
  | cons he _ ih => simp [ih, hf _ _ _ he.2]

omit [LinearOrder κ] in
theorem mapAccumIn_pointwise {ε σ : Type} {f : σ → κ → ν → Outcome ε (σ × ν')}
    (P : σ → Prop) (R : κ → ν → ν' → Prop) :
    ∀ {l : List (κ × ν)} {s s' : σ} {l' : {l' : List (κ × ν') // l'.map Prod.fst = l.map Prod.fst}},
    (∀ s k v s' v', (k, v) ∈ l → P s → f s k v = .ok (s', v') → P s' ∧ R k v v') →
    P s → mapAccumIn f l s = .ok (s', l') →
      P s' ∧ List.Forall₂ (fun e e' => e'.1 = e.1 ∧ R e.1 e.2 e'.2) l l'.1
  | [], s, s', l', _, hs, h => by
    simp only [mapAccumIn, Outcome.pure_eq, Outcome.ok.injEq, Prod.mk.injEq] at h
    obtain ⟨rfl, rfl⟩ := h
    exact ⟨hs, .nil⟩
  | (k, v) :: l, s, s', l', hf, hs, h => by
    obtain ⟨⟨s₁, v'⟩, h₁, h⟩ := Outcome.bind_eq_ok.mp h
    obtain ⟨⟨s₂, ⟨l₂, hl₂⟩⟩, h₂, h⟩ := Outcome.bind_eq_ok.mp h
    simp only [Outcome.pure_eq, Outcome.ok.injEq, Prod.mk.injEq] at h
    obtain ⟨rfl, rfl⟩ := h
    obtain ⟨hs₁, hR⟩ := hf s k v s₁ v' List.mem_cons_self hs h₁
    obtain ⟨hs₂, hrest⟩ := mapAccumIn_pointwise P R
      (fun s k v s' v' he => hf s k v s' v' (List.mem_cons_of_mem _ he)) hs₁ h₂
    exact ⟨hs₂, .cons ⟨rfl, hR⟩ hrest⟩

/-- An `iter_mut` loop whose every step, on an entry of the map, keeps the state invariant `P`
and relates the new value to the old by `R`, keeps `P` and leaves a pointwise related map. -/
theorem mapAccumM_pointwise {ε σ : Type} {f : σ → κ → ν → Outcome ε (σ × ν')} {m : OrdMap κ ν}
    {s s' : σ} {m' : OrdMap κ ν'} (P : σ → Prop) (R : κ → ν → ν' → Prop)
    (hf : ∀ s k v s' v', (k, v) ∈ m.entries → P s → f s k v = .ok (s', v') → P s' ∧ R k v v')
    (hs : P s) (h : m.mapAccumM f s = .ok (s', m')) : P s' ∧ Pointwise R m m' := by
  obtain ⟨⟨s₁, ⟨l, hl⟩⟩, h₁, h⟩ := Outcome.bind_eq_ok.mp h
  simp only [Outcome.pure_eq, Outcome.ok.injEq, Prod.mk.injEq] at h
  obtain ⟨rfl, rfl⟩ := h
  exact mapAccumIn_pointwise P R hf hs h₁

/-- An `iter_mut` loop whose steps add to a log only items tagged with the step's key, and
relate the new value to the old through the items they add. As no other step adds an item of
that key, each value is so related to the old one through the final log. `R` looks at the log
only through the items of its key. -/
theorem mapAccumIn_log {ε σ α : Type} {f : σ → κ → ν → Outcome ε (σ × ν')}
    (P : σ → Prop) (log : σ → α → Prop) (tag : α → κ) (R : κ → ν → ν' → (α → Prop) → Prop)
    (hloc : ∀ k v v' S S', (∀ a, tag a = k → (S a ↔ S' a)) → R k v v' S → R k v v' S') :
    ∀ {l : List (κ × ν)} {s s' : σ}
      {l' : {l' : List (κ × ν') // l'.map Prod.fst = l.map Prod.fst}},
    (∀ s k v s' v', (k, v) ∈ l → P s → f s k v = .ok (s', v') →
      P s' ∧ ∃ S : α → Prop, (∀ a, log s' a ↔ log s a ∨ S a) ∧ (∀ a, S a → tag a = k) ∧
        R k v v' S) →
    l.Pairwise (fun a b => a.1 < b.1) → (∀ a, log s a → ∀ e ∈ l, tag a ≠ e.1) → P s →
    mapAccumIn f l s = .ok (s', l') →
      P s' ∧ (∀ a, log s a → log s' a) ∧ (∀ a, log s' a → log s a ∨ ∃ e ∈ l, tag a = e.1) ∧
        List.Forall₂ (fun e e' => e'.1 = e.1 ∧ R e.1 e.2 e'.2 (log s')) l l'.1
  | [], s, s', l', _, _, _, hs, h => by
    simp only [mapAccumIn, Outcome.pure_eq, Outcome.ok.injEq, Prod.mk.injEq] at h
    obtain ⟨rfl, rfl⟩ := h
    exact ⟨hs, fun _ ha => ha, fun _ ha => .inl ha, .nil⟩
  | (k, v) :: l, s, s', l', hf, hsorted, hfresh, hs, h => by
    obtain ⟨⟨s₁, v'⟩, h₁, h⟩ := Outcome.bind_eq_ok.mp h
    obtain ⟨⟨s₂, ⟨l₂, hl₂⟩⟩, h₂, h⟩ := Outcome.bind_eq_ok.mp h
    simp only [Outcome.pure_eq, Outcome.ok.injEq, Prod.mk.injEq] at h
    obtain ⟨rfl, rfl⟩ := h
    obtain ⟨hs₁, S, hlog₁, htag, hR⟩ := hf s k v s₁ v' List.mem_cons_self hs h₁
    obtain ⟨hkl, hsorted'⟩ := List.pairwise_cons.mp hsorted
    -- after the first step the log holds nothing of a later key
    have hfresh₁ : ∀ a, log s₁ a → ∀ e ∈ l, tag a ≠ e.1 := by
      intro a ha e he
      rcases (hlog₁ a).mp ha with ha | ha
      · exact hfresh a ha e (List.mem_cons_of_mem _ he)
      · rw [htag a ha]
        exact (hkl e he).ne
    obtain ⟨hs₂, hgrow, hsrc, hrest⟩ := mapAccumIn_log P log tag R hloc
      (fun s k v s' v' he => hf s k v s' v' (List.mem_cons_of_mem _ he)) hsorted' hfresh₁ hs₁ h₂
    refine ⟨hs₂, fun a ha => hgrow a ((hlog₁ a).mpr (.inl ha)), fun a ha => ?_,
      .cons ⟨rfl, hloc k v v' S _ (fun a hk => ⟨fun hS => hgrow a ((hlog₁ a).mpr (.inr hS)),
        fun ha => ?_⟩) hR⟩ hrest⟩
    · rcases hsrc a ha with ha | ⟨e, he, hae⟩
      · rcases (hlog₁ a).mp ha with ha | ha
        · exact .inl ha
        · exact .inr ⟨(k, v), List.mem_cons_self, htag a ha⟩
      · exact .inr ⟨e, List.mem_cons_of_mem _ he, hae⟩
    · -- an item of key `k` in the final log was added by the first step
      rcases hsrc a ha with ha | ⟨e, he, hae⟩
      · rcases (hlog₁ a).mp ha with ha | ha
        · exact absurd hk (hfresh a ha (k, v) List.mem_cons_self)
        · exact ha
      · exact absurd (hk.symm.trans hae) (hkl e he).ne

/-- `mapAccumIn_log` for a loop over a whole map, from a state whose log holds no item of its
keys. -/
theorem mapAccumM_log {ε σ α : Type} {f : σ → κ → ν → Outcome ε (σ × ν')} {m : OrdMap κ ν}
    {s s' : σ} {m' : OrdMap κ ν'} (P : σ → Prop) (log : σ → α → Prop) (tag : α → κ)
    (R : κ → ν → ν' → (α → Prop) → Prop)
    (hloc : ∀ k v v' S S', (∀ a, tag a = k → (S a ↔ S' a)) → R k v v' S → R k v v' S')
    (hf : ∀ s k v s' v', (k, v) ∈ m.entries → P s → f s k v = .ok (s', v') →
      P s' ∧ ∃ S : α → Prop, (∀ a, log s' a ↔ log s a ∨ S a) ∧ (∀ a, S a → tag a = k) ∧
        R k v v' S)
    (hfresh : ∀ a, log s a → ∀ e ∈ m.entries, tag a ≠ e.1) (hs : P s)
    (h : m.mapAccumM f s = .ok (s', m')) :
    P s' ∧ (∀ a, log s' a → log s a ∨ ∃ e ∈ m.entries, tag a = e.1) ∧
      Pointwise (fun k v v' => R k v v' (log s')) m m' := by
  obtain ⟨⟨s₁, ⟨l, hl⟩⟩, h₁, h⟩ := Outcome.bind_eq_ok.mp h
  simp only [Outcome.pure_eq, Outcome.ok.injEq, Prod.mk.injEq] at h
  obtain ⟨rfl, rfl⟩ := h
  obtain ⟨hs', -, hsrc, hrel⟩ := mapAccumIn_log P log tag R hloc hf m.sorted hfresh hs h₁
  exact ⟨hs', hsrc, hrel⟩

end OrdMap
