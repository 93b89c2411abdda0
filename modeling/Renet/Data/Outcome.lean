import Mathlib

/-!
# Outcomes of code that returns a result or panics

Rust code returns `Result<α, ε>` and may, besides, panic: on an index out of bounds, on an
`unwrap` of `None`, on `unreachable!`, on a failed `assert!`, or on arithmetic overflow in a
build with overflow checks (debug builds and fuzzing builds). `Outcome ε α` is what running such
code gives: a value `ok a`, an error `err e`, or `panic`. It is a monad whose `bind` stops at the
first error or panic, so a Rust body with `?` reads as a `do` block.

Code that never returns an error is an `Outcome Empty α`.

## Main definitions

* `Outcome`, with its `Monad` and `LawfulMonad` instances.
* `Outcome.ofOption` (an `unwrap` or an index), `Outcome.assert` (a panic guard),
  `Outcome.ofExcept` (a `?` on a computation that cannot panic),
  `Outcome.checkedSub`, `Outcome.checkedAdd` (arithmetic with overflow checks).

## Main results

* `Outcome.bind_eq_ok`: how a `bind` came to its value, the inversion lemma every proof about a
  modelled function starts from.
-/

/-- The outcome of running code that returns `Result<α, ε>` and may panic. -/
inductive Outcome (ε α : Type) where
  | ok (a : α)
  | err (e : ε)
  | panic
deriving DecidableEq, Repr

namespace Outcome

variable {ε ε' α β γ : Type}

/-- Run `f` on the value of `x`; an error or a panic of `x` is the outcome of the whole. -/
def bind : Outcome ε α → (α → Outcome ε β) → Outcome ε β
  | ok a, f => f a
  | err e, _ => err e
  | panic, _ => panic

instance : Monad (Outcome ε) where
  pure := ok
  bind := Outcome.bind

@[simp] theorem pure_eq (a : α) : (pure a : Outcome ε α) = ok a := rfl

@[simp] theorem ok_bind (a : α) (f : α → Outcome ε β) : (ok a >>= f) = f a := rfl

@[simp] theorem err_bind (e : ε) (f : α → Outcome ε β) : (err e >>= f) = err e := rfl

@[simp] theorem panic_bind (f : α → Outcome ε β) : ((panic : Outcome ε α) >>= f) = panic := rfl

instance : LawfulMonad (Outcome ε) :=
  LawfulMonad.mk' (Outcome ε) (fun x => by cases x <;> rfl) (fun _ _ => rfl)
    (fun x _ _ => by cases x <;> rfl)

theorem bind_eq_ok {x : Outcome ε α} {f : α → Outcome ε β} {b : β} :
    (x >>= f) = ok b ↔ ∃ a, x = ok a ∧ f a = ok b := by
  cases x <;> simp

/-! ### Loops -/

/-- A `foldlM` loop keeps an invariant that every iteration on an element of the list keeps. -/
theorem foldlM_inv {β : Type} (P : β → Prop) {f : β → α → Outcome ε β} {l : List α} {b b' : β}
    (hf : ∀ b a b', a ∈ l → P b → f b a = ok b' → P b') (hb : P b)
    (h : l.foldlM f b = ok b') : P b' := by
  induction l generalizing b with
  | nil =>
    simp only [List.foldlM_nil, pure_eq, ok.injEq] at h
    exact h ▸ hb
  | cons a l ih =>
    obtain ⟨b₁, h₁, h⟩ := bind_eq_ok.mp h
    exact ih (fun b a' b' ha => hf b a' b' (List.mem_cons_of_mem a ha))
      (hf b a b₁ List.mem_cons_self hb h₁) h

/-- A `foldlM` loop returns, keeping an invariant, when every iteration from the invariant
returns and keeps it. -/
theorem foldlM_exists {β : Type} (P : β → Prop) {f : β → α → Outcome ε β} {l : List α} {b : β}
    (hf : ∀ b a, a ∈ l → P b → ∃ b', f b a = ok b' ∧ P b') (hb : P b) :
    ∃ b', l.foldlM f b = ok b' ∧ P b' := by
  induction l generalizing b with
  | nil => exact ⟨b, rfl, hb⟩
  | cons a l ih =>
    obtain ⟨b₁, h₁, hb₁⟩ := hf b a List.mem_cons_self hb
    obtain ⟨b', h, hb'⟩ := ih (fun b a' ha => hf b a' (List.mem_cons_of_mem a ha)) hb₁
    exact ⟨b', by rw [List.foldlM_cons, h₁, ok_bind, h], hb'⟩

/-- A `mapM` that returns relates each element to its image. -/
theorem mapM_forall₂ {f : α → Outcome ε β} :
    ∀ {l : List α} {l' : List β}, l.mapM f = ok l' → List.Forall₂ (fun a b => f a = ok b) l l'
  | [], l', h => by
    rw [List.mapM_nil, pure_eq, ok.injEq] at h
    subst h
    exact .nil
  | a :: l, l', h => by
    rw [List.mapM_cons] at h
    obtain ⟨b, hb, h⟩ := bind_eq_ok.mp h
    obtain ⟨bs, hbs, h⟩ := bind_eq_ok.mp h
    rw [pure_eq, ok.injEq] at h
    subst h
    exact .cons hb (mapM_forall₂ hbs)

/-- A `mapM` whose every call keeps some view of its element keeps the list of views. -/
theorem map_of_mapM {f : α → Outcome ε β} {g : β → γ} {g' : α → γ}
    (hf : ∀ {a b}, f a = ok b → g b = g' a) {l : List α} {l' : List β} (h : l.mapM f = ok l') :
    l'.map g = l.map g' := by
  have hall := mapM_forall₂ h
  clear h
  induction hall with
  | nil => rfl
  | cons hab _ ih => rw [List.map_cons, List.map_cons, hf hab, ih]

/-- A call that pairs a fixed key with a computed value returns that key. -/
theorem fst_of_bind_pair {x : Outcome ε α} {c : γ} {p : γ × α}
    (h : (x >>= fun a => pure (c, a)) = ok p) : p.1 = c := by
  obtain ⟨a, -, h⟩ := bind_eq_ok.mp h
  rw [pure_eq, ok.injEq] at h
  subst h
  rfl

/-! ### Panics -/

/-- The value of an `Option` that the code unwraps or indexes: `None` panics. -/
def ofOption : Option α → Outcome ε α
  | some a => ok a
  | none => panic

@[simp] theorem ofOption_some (a : α) : (ofOption (some a) : Outcome ε α) = ok a := rfl

@[simp] theorem ofOption_none : (ofOption none : Outcome ε α) = panic := rfl

theorem ofOption_eq_ok {o : Option α} {a : α} : (ofOption o : Outcome ε α) = ok a ↔ o = some a := by
  cases o <;> simp

/-- `assert!(c)`: panic unless `c` holds. -/
def assert (c : Prop) [Decidable c] : Outcome ε Unit :=
  if c then ok () else panic

@[simp] theorem assert_of_pos {c : Prop} [Decidable c] (h : c) :
    (assert c : Outcome ε Unit) = ok () := if_pos h

@[simp] theorem assert_of_neg {c : Prop} [Decidable c] (h : ¬ c) :
    (assert c : Outcome ε Unit) = panic := if_neg h

/-- `a - b` on an unsigned integer with overflow checks: panics below zero. -/
def checkedSub (a b : Nat) : Outcome ε Nat :=
  if b ≤ a then ok (a - b) else panic

/-- `a + b` on an unsigned integer of `w` bits with overflow checks. -/
def checkedAdd (w a b : Nat) : Outcome ε Nat :=
  if a + b < 2 ^ w then ok (a + b) else panic

theorem checkedSub_of_le {a b : Nat} (h : b ≤ a) : (checkedSub a b : Outcome ε Nat) = ok (a - b) :=
  if_pos h

theorem checkedSub_of_lt {a b : Nat} (h : a < b) : (checkedSub a b : Outcome ε Nat) = panic :=
  if_neg (Nat.not_le.mpr h)

theorem checkedSub_eq_ok {a b c : Nat} (h : (checkedSub a b : Outcome ε Nat) = ok c) :
    b ≤ a ∧ c = a - b := by
  by_cases hle : b ≤ a
  · rw [checkedSub_of_le hle] at h
    exact ⟨hle, (ok.inj h).symm⟩
  · rw [checkedSub_of_lt (Nat.lt_of_not_le hle)] at h
    cases h

theorem checkedAdd_of_lt {w a b : Nat} (h : a + b < 2 ^ w) :
    (checkedAdd w a b : Outcome ε Nat) = ok (a + b) :=
  if_pos h

theorem checkedAdd_eq_ok {w a b c : Nat} (h : (checkedAdd w a b : Outcome ε Nat) = ok c) :
    a + b < 2 ^ w ∧ c = a + b := by
  by_cases hlt : a + b < 2 ^ w
  · rw [checkedAdd_of_lt hlt] at h
    exact ⟨hlt, (ok.inj h).symm⟩
  · rw [checkedAdd, if_neg hlt] at h
    cases h

/-! ### Errors -/

/-- Change the error of an outcome: a `map_err`, or the `From` conversion behind a `?`. -/
def mapErr (g : ε → ε') : Outcome ε α → Outcome ε' α
  | ok a => ok a
  | err e => err (g e)
  | panic => panic

@[simp] theorem mapErr_ok (g : ε → ε') (a : α) : mapErr g (ok a) = ok a := rfl

@[simp] theorem mapErr_err (g : ε → ε') (e : ε) : mapErr g (err e : Outcome ε α) = err (g e) := rfl

@[simp] theorem mapErr_panic (g : ε → ε') : mapErr g (panic : Outcome ε α) = panic := rfl

theorem mapErr_eq_ok {g : ε → ε'} {x : Outcome ε α} {a : α} : mapErr g x = ok a ↔ x = ok a := by
  cases x <;> simp

/-- The `?` on a `Result` of code that cannot panic, its error converted by `g`. -/
def ofExcept (g : ε' → ε) : Except ε' α → Outcome ε α
  | .ok a => ok a
  | .error e => err (g e)

@[simp] theorem ofExcept_ok (g : ε' → ε) (a : α) : ofExcept g (.ok a : Except ε' α) = ok a := rfl

@[simp] theorem ofExcept_error (g : ε' → ε) (e : ε') :
    ofExcept g (.error e : Except ε' α) = err (g e) := rfl

end Outcome
