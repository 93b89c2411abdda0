import Mathlib.Data.List.ReduceOption

/-!
# Arrays of optional slots

A fixed-size array `[Option T; N]`, as a list of options: the occupied slots are its
`reduceOption`, and writing a slot is `List.set`. A key of the occupants is unique when the keys
of `reduceOption` have no duplicate; writing a fresh key into any slot keeps that.

## Main results

* `Slots.nodup_map_reduceOption_set`: a write of an occupant with a fresh key keeps the keys
  unique.
* `Slots.mem_reduceOption_set`: the occupants after a write are the new one and old ones.
-/

namespace Slots

variable {α β : Type}

theorem mem_reduceOption_set {l : List (Option α)} {i : Nat} {x a : α}
    (ha : a ∈ (l.set i (some x)).reduceOption) : a = x ∨ a ∈ l.reduceOption := by
  rw [List.reduceOption_mem_iff] at ha ⊢
  rcases List.mem_or_eq_of_mem_set ha with h | h
  · exact .inr h
  · exact .inl (Option.some.inj h)

/-- Writing an occupant whose key no occupant has keeps the keys unique, whichever slot it
overwrites. -/
theorem nodup_map_reduceOption_set {f : α → β} {l : List (Option α)}
    (hl : (l.reduceOption.map f).Nodup) {x : α} (hx : ∀ a ∈ l.reduceOption, f a ≠ f x)
    (i : Nat) : ((l.set i (some x)).reduceOption.map f).Nodup := by
  induction l generalizing i with
  | nil => simp
  | cons o l ih =>
    -- the tail's keys are unique and avoid `f x`, whatever the head holds
    have htail : (l.reduceOption.map f).Nodup := by
      cases o with
      | none => simpa [List.reduceOption_cons_of_none] using hl
      | some a => exact (List.nodup_cons.mp (by simpa [List.reduceOption_cons_of_some] using hl)).2
    have hxtail : ∀ a ∈ l.reduceOption, f a ≠ f x := fun a ha =>
      hx a (by rw [List.reduceOption_mem_iff] at ha ⊢; exact List.mem_cons_of_mem _ ha)
    cases i with
    | zero =>
      rw [List.set_cons_zero, List.reduceOption_cons_of_some, List.map_cons, List.nodup_cons]
      exact ⟨fun h => by
        obtain ⟨a, ha, hfa⟩ := List.mem_map.mp h
        exact hxtail a ha hfa, htail⟩
    | succ i =>
      rw [List.set_cons_succ]
      cases o with
      | none =>
        rw [List.reduceOption_cons_of_none]
        exact ih htail hxtail i
      | some a =>
        rw [List.reduceOption_cons_of_some, List.map_cons, List.nodup_cons]
        have hhead : f a ∉ l.reduceOption.map f :=
          (List.nodup_cons.mp (by simpa [List.reduceOption_cons_of_some] using hl)).1
        have hax : f a ≠ f x := hx a (by simp [List.reduceOption_cons_of_some])
        refine ⟨fun h => ?_, ih htail hxtail i⟩
        obtain ⟨b, hb, hfb⟩ := List.mem_map.mp h
        rcases mem_reduceOption_set hb with rfl | hb
        · exact hax hfb.symm
        · exact hhead (List.mem_map.mpr ⟨b, hb, hfb⟩)

end Slots
