import Mathlib.Data.List.Chain
import Mathlib.Tactic.Tauto

/-!
# Half-open ranges of natural numbers

`Span` is the half-open range `[start, stop)`, Rust's `Range<u64>`; its `end` field is `stop`
here, `end` being a keyword of Lean. A list of spans is *separated* when every span is non-empty
and each one ends strictly before the next one starts: a canonical description of a finite set
of numbers as maximal runs, in increasing order.

## Main definitions

* `Span`, membership `x ∈ r`, `Span.contains`, `Span.isEmpty`, `Span.single`.
* `Span.Covered R x`: some span of `R` holds `x`.
* `Span.Separated R`.

## Main results

* `Span.separated_cons`, `Span.separated_cons_cons`: separation of a list, one link at a time.
* `Span.separated_reverse`: a list built from its last span backwards is separated when every
  span ends before the one built before it.
-/

/-- The half-open range `[start, stop)` of natural numbers. -/
structure Span where
  start : Nat
  stop : Nat
deriving DecidableEq, Repr

namespace Span

instance : Membership Nat Span := ⟨fun r x => r.start ≤ x ∧ x < r.stop⟩

@[simp] theorem mem_iff {x : Nat} {r : Span} : x ∈ r ↔ r.start ≤ x ∧ x < r.stop := Iff.rfl

instance (x : Nat) (r : Span) : Decidable (x ∈ r) :=
  inferInstanceAs (Decidable (r.start ≤ x ∧ x < r.stop))

/-- `Range::contains`. -/
def contains (r : Span) (x : Nat) : Bool := decide (x ∈ r)

@[simp] theorem contains_iff {r : Span} {x : Nat} : r.contains x = true ↔ x ∈ r := by
  simp [contains]

/-- `Range::is_empty`: the range holds no number. -/
def isEmpty (r : Span) : Bool := decide (r.stop ≤ r.start)

/-- The range `x..x + 1` holding `x` alone. -/
def single (x : Nat) : Span := ⟨x, x + 1⟩

@[simp] theorem mem_single {x y : Nat} : y ∈ single x ↔ y = x := by
  simp [single]
  omega

/-- Some span of `R` holds `x`. -/
def Covered (R : List Span) (x : Nat) : Prop := ∃ r ∈ R, x ∈ r

@[simp] theorem not_covered_nil (x : Nat) : ¬ Covered [] x := by simp [Covered]

@[simp] theorem covered_cons {r : Span} {R : List Span} {x : Nat} :
    Covered (r :: R) x ↔ x ∈ r ∨ Covered R x := by
  simp [Covered]

@[simp] theorem covered_append {R R' : List Span} {x : Nat} :
    Covered (R ++ R') x ↔ Covered R x ∨ Covered R' x := by
  simp [Covered, or_and_right, exists_or]

/-- Every span of `R` is non-empty, and each ends strictly before the next one starts. -/
def Separated (R : List Span) : Prop :=
  (∀ r ∈ R, r.start < r.stop) ∧ R.IsChain fun a b => a.stop < b.start

@[simp] theorem separated_nil : Separated [] := ⟨by simp, .nil⟩

@[simp] theorem separated_singleton {r : Span} : Separated [r] ↔ r.start < r.stop := by
  simp [Separated]

theorem separated_cons_cons {r s : Span} {R : List Span} :
    Separated (r :: s :: R) ↔ r.start < r.stop ∧ r.stop < s.start ∧ Separated (s :: R) := by
  simp only [Separated, List.mem_cons, forall_eq_or_imp, List.isChain_cons_cons]
  tauto

/-- Separation of a list, at its first link. -/
theorem separated_cons {r : Span} {R : List Span} :
    Separated (r :: R) ↔
      r.start < r.stop ∧ (∀ t ∈ R.head?, r.stop < t.start) ∧ Separated R := by
  cases R with
  | nil => simp
  | cons s R => simp [separated_cons_cons]

theorem Separated.tail {r : Span} {R : List Span} (h : Separated (r :: R)) : Separated R :=
  ⟨fun s hs => h.1 s (List.mem_cons_of_mem r hs), h.2.tail⟩

/-- In a separated list every later span starts after the first one ends. -/
theorem Separated.stop_lt_start {r : Span} {R : List Span} (h : Separated (r :: R)) :
    ∀ s ∈ R, r.stop < s.start := by
  induction R generalizing r with
  | nil => simp
  | cons s R ih =>
    obtain ⟨hr, hrs, hs⟩ := separated_cons_cons.mp h
    intro t ht
    rcases List.mem_cons.mp ht with rfl | ht
    · exact hrs
    · have hst := ih hs t ht
      have := hs.1 s List.mem_cons_self
      omega

/-- What a separated list covers after its first span lies above that span. -/
theorem Separated.stop_lt_of_covered {r : Span} {R : List Span} (h : Separated (r :: R))
    {x : Nat} (hx : Covered R x) : r.stop < x := by
  obtain ⟨t, ht, hxt⟩ := hx
  have := h.stop_lt_start t ht
  simp only [mem_iff] at hxt
  omega

/-- What a separated list covers starts at its first span. -/
theorem Separated.start_le_of_covered {r : Span} {R : List Span} (h : Separated (r :: R))
    {x : Nat} (hx : Covered (r :: R) x) : r.start ≤ x := by
  rcases covered_cons.mp hx with hx | hx
  · exact hx.1
  · have := h.stop_lt_of_covered hx
    have := h.1 r List.mem_cons_self
    omega

/-- A span above every span of a separated list extends it. -/
theorem Separated.append_singleton {R : List Span} {t : Span} (h : Separated R)
    (ht : t.start < t.stop) (hlt : ∀ r ∈ R, r.stop < t.start) : Separated (R ++ [t]) := by
  induction R with
  | nil => simpa using ht
  | cons r R ih =>
    obtain ⟨hr, hhead, hR⟩ := separated_cons.mp h
    refine separated_cons.mpr ⟨hr, fun u hu => ?_, ih hR fun r' hr' => hlt r' (.tail _ hr')⟩
    -- the span after `r` is `t` itself, or the first span of `R`
    cases R with
    | nil =>
      obtain rfl : t = u := by simpa using hu
      exact hlt r List.mem_cons_self
    | cons r' R =>
      obtain rfl : r' = u := by simpa using hu
      exact hhead r' rfl

/-- Separated spans that start at `b` or later and end at `n` or earlier are at most `n - b`
many: each takes at least one number of `[b, n)` of its own. -/
theorem Separated.length_le_sub {n : Nat} :
    ∀ {R : List Span} {b : Nat}, Separated R → (∀ r ∈ R, b ≤ r.start ∧ r.stop ≤ n) →
      R.length ≤ n - b
  | [], _, _, _ => Nat.zero_le _
  | r :: R, b, h, hbounds => by
    obtain ⟨hb, hn⟩ := hbounds r List.mem_cons_self
    have hr := h.1 r List.mem_cons_self
    rw [List.length_cons]
    cases R with
    | nil =>
      rw [List.length_nil]
      omega
    | cons s R =>
      -- the spans after `r` start past its end, and the next one ends by `n`
      have hrest := Separated.length_le_sub (b := r.stop + 1) h.tail fun t ht =>
        ⟨h.stop_lt_start t ht, (hbounds t (List.mem_cons_of_mem r ht)).2⟩
      have hs := h.stop_lt_start s List.mem_cons_self
      have hsn := (hbounds s (List.mem_cons_of_mem r List.mem_cons_self)).2
      have hs' := h.tail.1 s List.mem_cons_self
      omega

theorem Separated.length_le {R : List Span} (h : Separated R) {n : Nat}
    (hstop : ∀ r ∈ R, r.stop ≤ n) : R.length ≤ n :=
  h.length_le_sub (b := 0) fun r hr => ⟨Nat.zero_le _, hstop r hr⟩

/-- Separation of a reversed list, the order in which the `Ack` decoder builds its ranges. -/
theorem separated_reverse {R : List Span} :
    Separated R.reverse ↔
      (∀ r ∈ R, r.start < r.stop) ∧ R.IsChain fun a b => b.stop < a.start := by
  simp only [Separated, List.mem_reverse, List.isChain_reverse]

end Span
