import Renet.Netcode.Serialize
import Mathlib.Logic.Function.Basic

/-!
# Replay protection

`renetcode/src/replay_protection.rs`. A connection remembers the largest sequence it has
accepted and, in a ring of 256 slots indexed by `sequence % 256`, the last sequence accepted in
each slot; `u64::MAX` marks a slot nothing has filled. `already_received` rejects a sequence
that is 256 or more below the largest, or no larger than the one in its slot. It computes
`sequence + 256` on a `u64`, which panics from `u64::MAX - 255` on.

What the ring is for: a filter that rejects every sequence it has accepted and accepts every
sequence above all of them. `Window rp accepted` says that `rp` is such a filter for the list
`accepted`; it holds of `new` with nothing accepted and is kept by `advance_sequence` of a
sequence the filter let through. Between the two it may reject more, such as old sequences that
have fallen out of the ring.

## Main definitions

* `Renetcode.ReplayProtection` with `new`, `alreadyReceived`, `advanceSequence`.
* `Renetcode.ReplayProtection.Window`.
* `Renetcode.ReplayProtection.Exact`, `ReplayProtection.Checked`: the ring as it is meant to be
  after a history, and the check-before-advance discipline of a history.

## Main results

* `ReplayProtection.alreadyReceived_of_mem`: an accepted sequence is rejected.
* `ReplayProtection.alreadyReceived_of_gt`: a sequence above all accepted ones is let through.
* `ReplayProtection.window_advanceSequence`, `ReplayProtection.window_new`.
* `ReplayProtection.alreadyReceived_eq_panic`: the overflow, exactly when `sequence + 256`
  does not fit in a `u64`.
* `ReplayProtection.alreadyReceived_advanceSequences`: after sequences passed to
  `advance_sequence` each once `already_received` let it through, the ring is exact: it
  reports exactly the accepted sequences and those 256 or more below the largest.
-/

namespace Renetcode

/-- `NETCODE_REPLAY_BUFFER_SIZE`. -/
def netcodeReplayBufferSize : Nat := 256

/-- `ReplayProtection`; `receivedPacket` is the ring `[u64; NETCODE_REPLAY_BUFFER_SIZE]`. -/
structure ReplayProtection where
  mostRecentSequence : Nat
  receivedPacket : Fin netcodeReplayBufferSize → Nat

namespace ReplayProtection

/-- `EMPTY`: `u64::MAX`, the mark of a slot no sequence has filled. -/
def empty : Nat := 2 ^ 64 - 1

/-- The slot of a sequence: `sequence as usize % NETCODE_REPLAY_BUFFER_SIZE`. -/
def index (sequence : Nat) : Fin netcodeReplayBufferSize :=
  ⟨sequence % netcodeReplayBufferSize, Nat.mod_lt _ (by decide)⟩

/-- `ReplayProtection::new`. -/
def new : ReplayProtection := ⟨0, fun _ => empty⟩

/-- `ReplayProtection::already_received`. -/
def alreadyReceived (rp : ReplayProtection) (sequence : Nat) : Outcome Empty Bool := do
  let bound ← Outcome.checkedAdd 64 sequence netcodeReplayBufferSize
  if bound ≤ rp.mostRecentSequence then pure true
  else if rp.receivedPacket (index sequence) = empty then pure false
  else if rp.receivedPacket (index sequence) ≥ sequence then pure true
  else pure false

/-- `ReplayProtection::advance_sequence`. -/
def advanceSequence (rp : ReplayProtection) (sequence : Nat) : ReplayProtection where
  mostRecentSequence :=
    if sequence > rp.mostRecentSequence then sequence else rp.mostRecentSequence
  receivedPacket := Function.update rp.receivedPacket (index sequence) sequence

@[simp] theorem index_mod (sequence : Nat) :
    index (sequence % netcodeReplayBufferSize) = index sequence := by
  simp [index]

theorem alreadyReceived_eq_panic {rp : ReplayProtection} {sequence : Nat} :
    rp.alreadyReceived sequence = .panic ↔ 2 ^ 64 ≤ sequence + netcodeReplayBufferSize := by
  unfold alreadyReceived Outcome.checkedAdd
  split
  · simp only [Outcome.ok_bind]
    constructor
    · intro h
      split at h <;> (try split at h) <;> (try split at h) <;> cases h
    · omega
  · simp only [Outcome.panic_bind, true_iff]
    omega

/-- The outcome of `already_received` below the overflow, as a condition on the state. -/
theorem alreadyReceived_eq_ok {rp : ReplayProtection} {sequence : Nat}
    (h : sequence + netcodeReplayBufferSize < 2 ^ 64) :
    rp.alreadyReceived sequence =
      .ok (decide (sequence + netcodeReplayBufferSize ≤ rp.mostRecentSequence ∨
        (rp.receivedPacket (index sequence) ≠ empty ∧
          sequence ≤ rp.receivedPacket (index sequence)))) := by
  rw [alreadyReceived, Outcome.checkedAdd_of_lt h, Outcome.ok_bind]
  by_cases hbound : sequence + netcodeReplayBufferSize ≤ rp.mostRecentSequence
  · simp [hbound]
  · by_cases hempty : rp.receivedPacket (index sequence) = empty
    · simp [hbound, hempty]
    · by_cases hle : sequence ≤ rp.receivedPacket (index sequence)
      · simp [hbound, hempty, hle]
      · simp [hbound, hempty, hle]

/-! ### The filter the ring implements -/

/-- `rp` rejects every sequence of `accepted` and lets through every sequence above them. -/
structure Window (rp : ReplayProtection) (accepted : List Nat) : Prop where
  /-- Every accepted sequence fits below the overflow of `already_received`. -/
  lt_of_mem : ∀ s ∈ accepted, s + netcodeReplayBufferSize < 2 ^ 64
  /-- The largest sequence is an accepted one, or the initial `0`. -/
  mostRecent_mem : rp.mostRecentSequence = 0 ∨ rp.mostRecentSequence ∈ accepted
  le_mostRecent : ∀ s ∈ accepted, s ≤ rp.mostRecentSequence
  /-- A filled slot holds an accepted sequence. -/
  slot_mem : ∀ i, rp.receivedPacket i = empty ∨ rp.receivedPacket i ∈ accepted
  /-- An accepted sequence is out of the ring, or below what its slot holds. -/
  covered : ∀ s ∈ accepted, s + netcodeReplayBufferSize ≤ rp.mostRecentSequence ∨
    (rp.receivedPacket (index s) ≠ empty ∧ s ≤ rp.receivedPacket (index s))

variable {rp : ReplayProtection} {accepted : List Nat} {sequence : Nat}

/-- The filter depends on the accepted sequences only through their membership. -/
theorem Window.of_mem_iff {accepted' : List Nat} (hw : Window rp accepted)
    (h : ∀ s, s ∈ accepted ↔ s ∈ accepted') : Window rp accepted' where
  lt_of_mem s hs := hw.lt_of_mem s ((h s).mpr hs)
  mostRecent_mem := hw.mostRecent_mem.imp id fun hm => (h _).mp hm
  le_mostRecent s hs := hw.le_mostRecent s ((h s).mpr hs)
  slot_mem i := (hw.slot_mem i).imp id fun hm => (h _).mp hm
  covered s hs := hw.covered s ((h s).mpr hs)

theorem window_new : Window new [] where
  lt_of_mem := by simp
  mostRecent_mem := .inl rfl
  le_mostRecent := by simp
  slot_mem _ := .inl rfl
  covered := by simp

/-- A call of `already_received` that returns did not overflow. -/
theorem lt_of_alreadyReceived_eq_ok {b : Bool} (h : rp.alreadyReceived sequence = .ok b) :
    sequence + netcodeReplayBufferSize < 2 ^ 64 := by
  by_contra hge
  rw [alreadyReceived_eq_panic.mpr (by omega)] at h
  cases h

theorem alreadyReceived_of_mem (hw : Window rp accepted) (hmem : sequence ∈ accepted) :
    rp.alreadyReceived sequence = .ok true := by
  rw [alreadyReceived_eq_ok (hw.lt_of_mem _ hmem)]
  simpa using hw.covered _ hmem

theorem alreadyReceived_of_gt (hw : Window rp accepted) (hgt : ∀ s ∈ accepted, s < sequence)
    (hfit : sequence + netcodeReplayBufferSize < 2 ^ 64) :
    rp.alreadyReceived sequence = .ok false := by
  rw [alreadyReceived_eq_ok hfit]
  -- the largest sequence and the slot's sequence are accepted ones, hence below `sequence`
  have hmost : rp.mostRecentSequence < sequence + netcodeReplayBufferSize := by
    rcases hw.mostRecent_mem with h | h
    · simp [h, netcodeReplayBufferSize]
    · have := hgt _ h
      omega
  have hslot : rp.receivedPacket (index sequence) = empty ∨
      rp.receivedPacket (index sequence) < sequence := by
    rcases hw.slot_mem (index sequence) with h | h
    · exact .inl h
    · exact .inr (hgt _ h)
  simp only [Outcome.ok.injEq, decide_eq_false_iff_not, not_or, not_and, not_le]
  refine ⟨by omega, fun hne => ?_⟩
  rcases hslot with h | h
  · exact absurd h hne
  · exact h

/-- The ring after `advance_sequence`, slot by slot. -/
theorem receivedPacket_advanceSequence (i : Fin netcodeReplayBufferSize) :
    (rp.advanceSequence sequence).receivedPacket i =
      if i = index sequence then sequence else rp.receivedPacket i := by
  show Function.update rp.receivedPacket (index sequence) sequence i = _
  exact Function.update_apply _ _ _ _

theorem le_mostRecentSequence_advanceSequence :
    rp.mostRecentSequence ≤ (rp.advanceSequence sequence).mostRecentSequence ∧
      sequence ≤ (rp.advanceSequence sequence).mostRecentSequence := by
  simp only [advanceSequence]
  split <;> omega

/-- `advance_sequence` of a sequence the filter let through keeps it a filter, for the list
with that sequence added. -/
theorem window_advanceSequence (hw : Window rp accepted)
    (hnew : rp.alreadyReceived sequence = .ok false) :
    Window (rp.advanceSequence sequence) (sequence :: accepted) := by
  have hfit := lt_of_alreadyReceived_eq_ok hnew
  -- what letting `sequence` through says about the state
  rw [alreadyReceived_eq_ok hfit] at hnew
  simp only [Outcome.ok.injEq, decide_eq_false_iff_not, not_or, not_and, not_le] at hnew
  obtain ⟨hbound, hslot⟩ := hnew
  obtain ⟨hmost, hseq⟩ := @le_mostRecentSequence_advanceSequence rp sequence
  have hne : sequence ≠ empty := by
    unfold empty
    unfold netcodeReplayBufferSize at hfit
    omega
  constructor
  · intro s hs
    rcases List.mem_cons.mp hs with rfl | hs
    · exact hfit
    · exact hw.lt_of_mem s hs
  · simp only [advanceSequence]
    split
    · exact .inr List.mem_cons_self
    · rcases hw.mostRecent_mem with h | h
      · exact .inl h
      · exact .inr (List.mem_cons_of_mem _ h)
  · intro s hs
    rcases List.mem_cons.mp hs with rfl | hs
    · exact hseq
    · exact (hw.le_mostRecent s hs).trans hmost
  · intro i
    rw [receivedPacket_advanceSequence]
    split
    · exact .inr List.mem_cons_self
    · rcases hw.slot_mem i with h | h
      · exact .inl h
      · exact .inr (List.mem_cons_of_mem _ h)
  · intro s hs
    rcases List.mem_cons.mp hs with rfl | hs
    · right
      simp [receivedPacket_advanceSequence, hne]
    · rw [receivedPacket_advanceSequence]
      by_cases hi : index s = index sequence
      · -- `s` shares the slot of `sequence`: it was out of the ring, or below the sequence the
        -- slot held, which is below `sequence`
        rw [if_pos hi]
        rcases hw.covered s hs with h | ⟨hfilled, hle⟩
        · exact .inl (h.trans hmost)
        · rw [hi] at hfilled hle
          exact .inr ⟨hne, (hle.trans (hslot hfilled).le)⟩
      · rw [if_neg hi]
        rcases hw.covered s hs with h | h
        · exact .inl (h.trans hmost)
        · exact .inr h

/-! ### What the ring holds exactly

Under the discipline of `Packet::decode`, which checks a sequence with `already_received` and
only then passes it to `advance_sequence`, the ring is exact: the largest sequence is the largest
accepted, and each slot holds the largest accepted sequence of its residue class. A sequence is
let through only above the largest minus 256 and above what its slot holds, so a sequence of the
class accepted later is at least 256 above an earlier one, and `already_received` answers for
the accepted sequences and those out of the ring and for no other. -/

/-- `max(H ∪ {0})`. -/
def largest (H : List Nat) : Nat := H.max?.getD 0

/-- The largest sequence of `H` in slot `i`, or `EMPTY` when none is. -/
def largestInSlot (H : List Nat) (i : Fin netcodeReplayBufferSize) : Nat :=
  (H.filter fun s => index s = i).max?.getD empty

theorem index_eq_index_iff {a b : Nat} :
    index a = index b ↔ a % netcodeReplayBufferSize = b % netcodeReplayBufferSize :=
  Fin.ext_iff

theorem largest_eq_iff {H : List Nat} {m : Nat} :
    largest H = m ↔ (m = 0 ∨ m ∈ H) ∧ ∀ s ∈ H, s ≤ m := by
  unfold largest
  cases h : H.max? with
  | none =>
    rw [List.max?_eq_none_iff.mp h]
    simp [eq_comm]
  | some a =>
    obtain ⟨ha, hmax⟩ := List.max?_eq_some_iff.mp h
    simp only [Option.getD_some]
    constructor
    · rintro rfl
      exact ⟨.inr ha, hmax⟩
    · rintro ⟨hm, hle⟩
      have : m ≤ a := by
        rcases hm with rfl | hm
        · exact Nat.zero_le a
        · exact hmax m hm
      exact Nat.le_antisymm (hle a ha) this

theorem le_largest {H : List Nat} {s : Nat} (hs : s ∈ H) : s ≤ largest H :=
  (largest_eq_iff.mp rfl).2 s hs

theorem largest_append_singleton (H : List Nat) (s : Nat) :
    largest (H ++ [s]) = max (largest H) s := by
  obtain ⟨hmem, hle⟩ := largest_eq_iff.mp (rfl : largest H = largest H)
  refine largest_eq_iff.mpr ⟨?_, fun t ht => ?_⟩
  · rcases Nat.le_total (largest H) s with h | h
    · exact .inr (by simp [Nat.max_eq_right h])
    · rw [Nat.max_eq_left h]
      exact hmem.imp id fun hm => List.mem_append_left _ hm
  · rcases List.mem_append.mp ht with ht | ht
    · exact (hle t ht).trans (Nat.le_max_left _ _)
    · rw [List.mem_singleton.mp ht]
      exact Nat.le_max_right _ _

theorem largestInSlot_eq_iff {H : List Nat} {i : Fin netcodeReplayBufferSize} {v : Nat} :
    largestInSlot H i = v ↔
      (v = empty ∧ ∀ s ∈ H, index s ≠ i) ∨
        (v ∈ H ∧ index v = i ∧ ∀ s ∈ H, index s = i → s ≤ v) := by
  unfold largestInSlot
  cases h : (H.filter fun s => index s = i).max? with
  | none =>
    have hnone : ∀ s ∈ H, index s ≠ i := by simpa using List.max?_eq_none_iff.mp h
    simp only [Option.getD_none]
    constructor
    · rintro rfl
      exact .inl ⟨rfl, hnone⟩
    · rintro (⟨rfl, -⟩ | ⟨hv, hi, -⟩)
      · rfl
      · exact absurd hi (hnone v hv)
  | some a =>
    obtain ⟨ha, hmax⟩ := List.max?_eq_some_iff.mp h
    simp only [List.mem_filter, decide_eq_true_eq] at ha hmax
    simp only [Option.getD_some]
    constructor
    · rintro rfl
      exact .inr ⟨ha.1, ha.2, fun s hs hi => hmax s ⟨hs, hi⟩⟩
    · rintro (⟨-, hnone⟩ | ⟨hv, hi, hle⟩)
      · exact absurd ha.2 (hnone a ha.1)
      · exact Nat.le_antisymm (hle a ha.1 ha.2) (hmax v ⟨hv, hi⟩)

theorem largestInSlot_append_of_ne {H : List Nat} {s : Nat} {i : Fin netcodeReplayBufferSize}
    (h : index s ≠ i) : largestInSlot (H ++ [s]) i = largestInSlot H i := by
  simp [largestInSlot, List.filter_append, h]

/-- `rp` is the ring after accepting exactly the sequences of `H`. -/
structure Exact (rp : ReplayProtection) (H : List Nat) : Prop where
  lt_of_mem : ∀ s ∈ H, s + netcodeReplayBufferSize < 2 ^ 64
  mostRecent_eq : rp.mostRecentSequence = largest H
  slot_eq : ∀ i, rp.receivedPacket i = largestInSlot H i

theorem exact_new : Exact new [] where
  lt_of_mem := by simp
  mostRecent_eq := rfl
  slot_eq _ := rfl

/-- On an exact ring `already_received` reports the accepted sequences and those 256 or more
below the largest, and no other. -/
theorem alreadyReceived_of_exact {H : List Nat} (hx : Exact rp H)
    (hfit : sequence + netcodeReplayBufferSize < 2 ^ 64) :
    rp.alreadyReceived sequence =
      .ok (decide (sequence ∈ H ∨ sequence + netcodeReplayBufferSize ≤ largest H)) := by
  rw [alreadyReceived_eq_ok hfit, hx.mostRecent_eq, hx.slot_eq, Outcome.ok.injEq,
    decide_eq_decide]
  rcases largestInSlot_eq_iff.mp (rfl : largestInSlot H (index sequence) = _) with
    ⟨hempty, hnone⟩ | ⟨hmem, hidx, hmax⟩
  · -- no accepted sequence shares the slot of `sequence`
    have hnotmem : sequence ∉ H := fun hs => hnone _ hs rfl
    simp [hempty, hnotmem]
  · have hfilled : largestInSlot H (index sequence) ≠ empty := by
      have := hx.lt_of_mem _ hmem
      unfold empty
      omega
    constructor
    · rintro (hle | ⟨-, hle⟩)
      · exact .inr hle
      · -- the slot holds `sequence` itself, or a sequence of its class above it, hence at
        -- least 256 above it and at most the largest
        by_cases heq : largestInSlot H (index sequence) = sequence
        · exact .inl (heq ▸ hmem)
        · have hmod := index_eq_index_iff.mp hidx
          have htop := le_largest hmem
          unfold netcodeReplayBufferSize at hmod ⊢
          omega
    · rintro (hs | hle)
      · exact .inr ⟨hfilled, hmax _ hs rfl⟩
      · exact .inl hle

/-- `advance_sequence` of a sequence `already_received` let through keeps the ring exact, for
the history with that sequence added. -/
theorem exact_advanceSequence {H : List Nat} (hx : Exact rp H)
    (hnew : rp.alreadyReceived sequence = .ok false) :
    Exact (rp.advanceSequence sequence) (H ++ [sequence]) := by
  have hfit := lt_of_alreadyReceived_eq_ok hnew
  rw [alreadyReceived_of_exact hx hfit] at hnew
  simp only [Outcome.ok.injEq, decide_eq_false_iff_not, not_or, not_le] at hnew
  obtain ⟨hnotmem, hbound⟩ := hnew
  -- every accepted sequence of the class of `sequence` lies below it
  have hbelow : ∀ s ∈ H, index s = index sequence → s < sequence := by
    intro s hs hidx
    have hmod := index_eq_index_iff.mp hidx
    have hne : s ≠ sequence := fun h => hnotmem (h ▸ hs)
    have htop := le_largest hs
    unfold netcodeReplayBufferSize at hmod hbound
    omega
  constructor
  · intro s hs
    rcases List.mem_append.mp hs with hs | hs
    · exact hx.lt_of_mem s hs
    · rw [List.mem_singleton.mp hs]
      exact hfit
  · simp only [advanceSequence, largest_append_singleton, ← hx.mostRecent_eq]
    split <;> omega
  · intro i
    rw [receivedPacket_advanceSequence]
    split
    case isTrue hi =>
      subst hi
      refine (largestInSlot_eq_iff.mpr (.inr ⟨by simp, rfl, fun s hs hidx => ?_⟩)).symm
      rcases List.mem_append.mp hs with hs | hs
      · exact (hbelow s hs hidx).le
      · exact (List.mem_singleton.mp hs).le
    case isFalse hi =>
      rw [largestInSlot_append_of_ne (Ne.symm hi), hx.slot_eq]

/-- `advance_sequence` of each sequence of `H` in turn. -/
def advanceSequences (rp : ReplayProtection) (H : List Nat) : ReplayProtection :=
  H.foldl advanceSequence rp

/-- Each sequence of `H` is passed to `advance_sequence` only after `already_received` let it
through: the discipline of `Packet::decode`. -/
def Checked : ReplayProtection → List Nat → Prop
  | _, [] => True
  | rp, s :: H => rp.alreadyReceived s = .ok false ∧ Checked (rp.advanceSequence s) H

/-- The run lemma: a checked history keeps an exact ring exact. -/
theorem exact_advanceSequences {A : List Nat} (hx : Exact rp A) :
    ∀ {H : List Nat}, Checked rp H → Exact (rp.advanceSequences H) (A ++ H) := by
  intro H
  induction H generalizing rp A with
  | nil =>
    intro _
    simpa [advanceSequences] using hx
  | cons s H ih =>
    rintro ⟨hs, hH⟩
    simpa [advanceSequences] using ih (exact_advanceSequence hx hs) hH

/-- After any checked history `H` from `new`, `already_received` reports exactly the sequences of
`H` and those 256 or more below `max(H ∪ {0})`, `most_recent_sequence` is that maximum, and each
slot holds the largest sequence of `H` in it, or `EMPTY`. -/
theorem alreadyReceived_advanceSequences {H : List Nat} (hH : Checked new H) :
    (∀ s, s + netcodeReplayBufferSize < 2 ^ 64 →
      (new.advanceSequences H).alreadyReceived s =
        .ok (decide (s ∈ H ∨ s + netcodeReplayBufferSize ≤ largest H))) ∧
    (new.advanceSequences H).mostRecentSequence = largest H ∧
    ∀ i, (new.advanceSequences H).receivedPacket i = largestInSlot H i := by
  have hx : Exact (new.advanceSequences H) H := by
    simpa using exact_advanceSequences exact_new hH
  exact ⟨fun s hs => alreadyReceived_of_exact hx hs, hx.mostRecent_eq, hx.slot_eq⟩

/-- Sequences `1` and `257` share slot 1, which then holds `257`. -/
theorem alreadyReceived_advanceSequences_oneSlot :
    Checked new [1, 257] ∧
      ((∀ s, s + netcodeReplayBufferSize < 2 ^ 64 →
        (new.advanceSequences [1, 257]).alreadyReceived s =
          .ok (decide (s ∈ [1, 257] ∨ s + netcodeReplayBufferSize ≤ largest [1, 257]))) ∧
      (new.advanceSequences [1, 257]).mostRecentSequence = largest [1, 257] ∧
      ∀ i, (new.advanceSequences [1, 257]).receivedPacket i = largestInSlot [1, 257] i) := by
  have hH : Checked new [1, 257] := ⟨rfl, rfl, trivial⟩
  exact ⟨hH, alreadyReceived_advanceSequences hH⟩

end ReplayProtection

end Renetcode
