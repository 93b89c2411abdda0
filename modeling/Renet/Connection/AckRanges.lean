import Renet.RemoteConnection

/-!
# What the pending-ack ranges denote

`pending_acks` stands for the set of packet sequences it covers, kept as separated ranges
(`Span.Separated`): non-empty, in increasing order, each ending strictly before the next
starts, so that the `Ack` encoder's gaps never underflow and the decoder reads the ranges back.

`add_pending_ack` walks the ranges and takes the first of four branches that applies: the
sequence is already covered, it extends a range to the left, it extends a range to the right
(merging with the next range when they meet), or it goes in front of a range it cannot touch.
Each branch keeps the ranges it never looks at separated from the one it edits, because the
ranges walked past end below the sequence (`addPendingAckAt_eq_none_iff`). When no branch
applies the sequence is appended at the end, and beyond 64 ranges the first one is dropped.
`acked_largest` drops what lies at or below the largest sequence the peer has acknowledged.

## Main definitions

* `Renet.capDrops`: the case in which the append branch drops the first range.

## Main results

* `Renet.addPendingAckAt_eq_none_iff`: no branch applies exactly when the sequence lies above
  every range and apart from it.
* `Renet.adds_addPendingAckAt`: the branches add the sequence and keep the ranges separated.
* `Renet.addPendingAck_separated_covered`, `Renet.ackedLargest_separated_covered`: the ranges
  after each operation, as sets.
-/

namespace Renet

open Span

variable {sequence : Nat}

/-! ### The branches of the walk -/

/-- On separated ranges, no branch of the walk applies exactly when `sequence` lies above
every range, apart from it. -/
theorem addPendingAckAt_eq_none_iff :
    ∀ {R : List Span}, Separated R →
      (addPendingAckAt sequence R = none ↔ ∀ r ∈ R, r.stop < sequence)
  | [], _ => by simp [addPendingAckAt]
  | r :: rest, hR => by
    have hr : r.start < r.stop := hR.1 r List.mem_cons_self
    unfold addPendingAckAt
    split_ifs with hmem hleft hright hbefore
    -- each branch that applies finds `r` at or above `sequence`
    · simp only [mem_iff] at hmem
      simp only [false_iff, not_forall]
      exact ⟨r, List.mem_cons_self, by omega⟩
    · simp only [false_iff, not_forall]
      exact ⟨r, List.mem_cons_self, by omega⟩
    · have hall : ¬ ∀ t ∈ r :: rest, t.stop < sequence := fun h => by
        have := h r List.mem_cons_self
        omega
      simp only [hall, iff_false]
      split
      · split <;> simp
      · simp
    · simp only [false_iff, not_forall]
      exact ⟨r, List.mem_cons_self, by omega⟩
    · -- `r` is walked past: it starts at or below `sequence` and does not hold it
      have hlt : r.stop < sequence := by
        simp only [mem_iff] at hmem
        omega
      simp only [Option.map_eq_none_iff, addPendingAckAt_eq_none_iff hR.tail,
        List.forall_mem_cons]
      exact ⟨fun h => ⟨hlt, h⟩, fun h => h.2⟩

/-- `R'` is `R` with `sequence` added, and separated. -/
structure Adds (R : List Span) (sequence : Nat) (R' : List Span) : Prop where
  separated : Separated R'
  covered : ∀ x, Covered R' x ↔ Covered R x ∨ x = sequence

section Branches

variable {r next : Span} {rest rest' : List Span}

theorem adds_of_mem (hR : Separated (r :: rest)) (h : sequence ∈ r) :
    Adds (r :: rest) sequence (r :: rest) where
  separated := hR
  covered _ := ⟨.inl, fun hx => hx.elim id fun hx => covered_cons.mpr (.inl (hx ▸ h))⟩

/-- Just below `r`: its start moves down to `sequence`. -/
theorem adds_extendLeft (hR : Separated (r :: rest)) (h : r.start = sequence + 1) :
    Adds (r :: rest) sequence (⟨sequence, r.stop⟩ :: rest) := by
  obtain ⟨hr, hhead, hrest⟩ := separated_cons.mp hR
  refine ⟨separated_cons.mpr ⟨by dsimp only; omega, hhead, hrest⟩, fun x => ?_⟩
  have hspan : sequence ≤ x ∧ x < r.stop ↔
      (r.start ≤ x ∧ x < r.stop) ∨ x = sequence := by
    omega
  simp only [covered_cons, mem_iff, hspan, or_assoc, or_comm]

/-- Just above `r`, and just below the next range: the two merge. -/
theorem adds_merge (hR : Separated (r :: next :: rest)) (h : r.stop = sequence)
    (hnext : sequence + 1 = next.start) :
    Adds (r :: next :: rest) sequence (⟨r.start, next.stop⟩ :: rest) := by
  obtain ⟨hr, -, hnr⟩ := separated_cons_cons.mp hR
  obtain ⟨hn, hhead, hrest⟩ := separated_cons.mp hnr
  refine ⟨separated_cons.mpr ⟨by dsimp only; omega, hhead, hrest⟩, fun x => ?_⟩
  have hspan : r.start ≤ x ∧ x < next.stop ↔
      ((r.start ≤ x ∧ x < r.stop) ∨ (next.start ≤ x ∧ x < next.stop)) ∨
        x = sequence := by
    omega
  simp only [covered_cons, mem_iff, hspan, or_assoc, or_comm]

/-- Just above `r`, apart from the next range: the stop of `r` moves up. -/
theorem adds_extendRight (hR : Separated (r :: next :: rest)) (h : r.stop = sequence)
    (hnext : sequence + 1 ≠ next.start) :
    Adds (r :: next :: rest) sequence (⟨r.start, sequence + 1⟩ :: next :: rest) := by
  obtain ⟨hr, hrn, hnr⟩ := separated_cons_cons.mp hR
  refine ⟨separated_cons_cons.mpr ⟨by dsimp only; omega, by dsimp only; omega, hnr⟩,
    fun x => ?_⟩
  have hspan : r.start ≤ x ∧ x < sequence + 1 ↔
      (r.start ≤ x ∧ x < r.stop) ∨ x = sequence := by
    omega
  simp only [covered_cons, mem_iff, hspan, or_assoc, or_comm]

/-- Just above the last range. -/
theorem adds_extendLast (hR : Separated [r]) (h : r.stop = sequence) :
    Adds [r] sequence [⟨r.start, sequence + 1⟩] := by
  have hr := separated_singleton.mp hR
  refine ⟨separated_singleton.mpr (by dsimp only; omega), fun x => ?_⟩
  simp only [covered_cons, mem_iff, not_covered_nil, or_false]
  omega

/-- Below `r` and apart from it: a range of its own in front. -/
theorem adds_insertBefore (hR : Separated (r :: rest)) (h : sequence + 1 < r.start) :
    Adds (r :: rest) sequence (Span.single sequence :: r :: rest) := by
  refine ⟨separated_cons.mpr ⟨by simp [Span.single], fun t ht => ?_, hR⟩, fun x => ?_⟩
  · obtain rfl : r = t := by simpa using ht
    simpa [Span.single] using h
  · simp only [covered_cons, mem_single, or_comm]

/-- Above `r`: what the walk does to the ranges after it. The range that then follows `r`
starts at a sequence it covers, which lies above `r`. -/
theorem Adds.cons (h : Adds rest sequence rest') (hR : Separated (r :: rest))
    (hlt : r.stop < sequence) : Adds (r :: rest) sequence (r :: rest') := by
  obtain ⟨hr, -, -⟩ := separated_cons.mp hR
  refine ⟨separated_cons.mpr ⟨hr, fun u hu => ?_, h.separated⟩, fun x => ?_⟩
  · have hmem : u ∈ rest' := List.mem_of_mem_head? hu
    have hstart : Covered rest' u.start := ⟨u, hmem, le_rfl, h.separated.1 u hmem⟩
    rcases (h.covered _).mp hstart with hcov | heq
    · exact hR.stop_lt_of_covered hcov
    · exact heq ▸ hlt
  · simp only [covered_cons, h.covered, or_assoc]

end Branches

/-- The walk of `add_pending_ack` adds `sequence` to separated ranges, keeping them separated. -/
theorem adds_addPendingAckAt :
    ∀ {R R' : List Span}, Separated R → addPendingAckAt sequence R = some R' →
      Adds R sequence R'
  | [], _, _, h => by simp [addPendingAckAt] at h
  | r :: rest, R', hR, h => by
    unfold addPendingAckAt at h
    split_ifs at h with hmem hleft hright hbefore
    · cases h
      exact adds_of_mem hR hmem
    · cases h
      exact adds_extendLeft hR hleft
    · -- after `r`: merged with the next range when they meet
      split at h
      next next rest' =>
        split at h
        next hnext =>
          cases h
          exact adds_merge hR hright hnext
        next hnext =>
          cases h
          exact adds_extendRight hR hright hnext
      next =>
        cases h
        exact adds_extendLast hR hright
    · cases h
      exact adds_insertBefore hR hbefore
    · obtain ⟨rest', hrest, rfl⟩ := Option.map_eq_some_iff.mp h
      have hlt : r.stop < sequence := by
        simp only [mem_iff] at hmem
        omega
      exact (adds_addPendingAckAt hR.tail hrest).cons hR hlt

/-! ### The two operations, as sets -/

/-- The append branch of `add_pending_ack` drops the first range: `sequence` lies above every
range, apart from it, and 64 ranges are there already. -/
def capDrops (pendingAcks : List Span) (sequence : Nat) : Prop :=
  64 ≤ pendingAcks.length ∧ ∀ r ∈ pendingAcks, r.stop < sequence

instance (pendingAcks : List Span) (sequence : Nat) : Decidable (capDrops pendingAcks sequence) :=
  inferInstanceAs
    (Decidable (64 ≤ pendingAcks.length ∧ ∀ r ∈ pendingAcks, r.stop < sequence))

/-- The append branch past the cap: the sequences of the first range go, and `sequence`
comes. -/
theorem covered_tail_append_single {first : Span} {rest : List Span}
    (h : Separated (first :: rest)) (hall : ∀ r ∈ first :: rest, r.stop < sequence) (x : Nat) :
    Covered (rest ++ [Span.single sequence]) x ↔
      (Covered (first :: rest) x ∨ x = sequence) ∧ x ∉ first := by
  have hrest : ∀ y, Covered rest y → y ∉ first := fun y hy hmem => by
    have := h.stop_lt_of_covered hy
    simp only [mem_iff] at hmem
    omega
  have hs : sequence ∉ first := by
    have := hall first List.mem_cons_self
    simp only [mem_iff]
    omega
  simp only [covered_append, covered_cons, mem_single, not_covered_nil, or_false]
  constructor
  · rintro (hx | rfl)
    · exact ⟨.inl (.inr hx), hrest x hx⟩
    · exact ⟨.inr rfl, hs⟩
  · rintro ⟨(hx | hx) | rfl, hnot⟩
    · exact absurd hx hnot
    · exact .inl hx
    · exact .inr rfl

/-- `add_pending_ack` keeps separated ranges separated, and adds `sequence` to what they
cover; only when the cap drops the first range do its sequences go. -/
theorem addPendingAck_separated_covered {pendingAcks : List Span} (h : Separated pendingAcks) :
    Separated (addPendingAck pendingAcks sequence) ∧
      ∀ x, Covered (addPendingAck pendingAcks sequence) x ↔
        (Covered pendingAcks x ∨ x = sequence) ∧
          (capDrops pendingAcks sequence → ∀ r ∈ pendingAcks.head?, x ∉ r) := by
  cases pendingAcks with
  | nil =>
    have hnodrop : ¬ capDrops [] sequence := by simp [capDrops]
    refine ⟨by simp [addPendingAck, Span.single], fun x => ?_⟩
    show Covered [Span.single sequence] x ↔ _
    simp only [covered_cons, mem_single, not_covered_nil, or_false, false_or, hnodrop,
      false_implies, and_true]
  | cons first rest =>
    simp only [addPendingAck, List.isEmpty_cons, Bool.false_eq_true, if_false]
    cases hat : addPendingAckAt sequence (first :: rest) with
    | some R' =>
      -- a branch of the walk applied, so the cap did not
      have hadds := adds_addPendingAckAt h hat
      have hnodrop : ¬ capDrops (first :: rest) sequence := fun hd => by
        rw [(addPendingAckAt_eq_none_iff h).mpr hd.2] at hat
        cases hat
      exact ⟨hadds.separated, fun x => by simp [hadds.covered x, hnodrop]⟩
    | none =>
      have hall := (addPendingAckAt_eq_none_iff h).mp hat
      have hsep : Separated (first :: (rest ++ [Span.single sequence])) :=
        h.append_singleton (by simp [Span.single]) (by simpa [Span.single] using hall)
      dsimp only
      split
      case isTrue hlen =>
        have hdrop : capDrops (first :: rest) sequence :=
          ⟨by
            simp only [List.length_append, List.length_cons, List.length_nil] at hlen ⊢
            omega, hall⟩
        refine ⟨hsep.tail, fun x => ?_⟩
        simpa [hdrop] using covered_tail_append_single h hall x
      case isFalse hlen =>
        have hnodrop : ¬ capDrops (first :: rest) sequence := fun hd => hlen (by
          have := hd.1
          simp only [List.length_append, List.length_cons, List.length_nil] at this ⊢
          omega)
        refine ⟨hsep, fun x => ?_⟩
        simp only [List.cons_append, covered_cons, covered_append, mem_single, not_covered_nil,
          or_false, hnodrop, false_implies, and_true, or_assoc]

/-- `acked_largest` keeps separated ranges separated, and keeps of what they cover the
sequences above `largestAck`. -/
theorem ackedLargest_separated_covered (largestAck : Nat) :
    ∀ {pendingAcks : List Span}, Separated pendingAcks →
      Separated (ackedLargest largestAck pendingAcks) ∧
        ∀ x, Covered (ackedLargest largestAck pendingAcks) x ↔
          Covered pendingAcks x ∧ largestAck < x
  | [], _ => by simp [ackedLargest]
  | r :: rest, h => by
    obtain ⟨hr, hhead, hrest⟩ := separated_cons.mp h
    -- what lies after `r` is above it
    have habove : ∀ x, Covered rest x → r.stop < x := fun _ => h.stop_lt_of_covered
    unfold ackedLargest
    dsimp only
    split_ifs with hbelow hcovers hempty
    · refine ⟨h, fun x => ⟨fun hx => ⟨hx, ?_⟩, And.left⟩⟩
      have := h.start_le_of_covered hx
      omega
    · obtain ⟨hsep, hcov⟩ := ackedLargest_separated_covered largestAck hrest
      refine ⟨hsep, fun x => ?_⟩
      rw [hcov, covered_cons, mem_iff]
      constructor
      · rintro ⟨hx, hlt⟩
        exact ⟨.inr hx, hlt⟩
      · rintro ⟨⟨-, hx⟩ | hx, hlt⟩
        · omega
        · exact ⟨hx, hlt⟩
    · -- `r` is cut to nothing
      simp only [Span.isEmpty, decide_eq_true_eq] at hempty
      refine ⟨hrest, fun x => ⟨fun hx => ⟨covered_cons.mpr (.inr hx), ?_⟩, ?_⟩⟩
      · have := habove x hx
        omega
      · rintro ⟨hx, hlt⟩
        rcases covered_cons.mp hx with ⟨-, hx⟩ | hx
        · omega
        · exact hx
    · -- `r` is cut above `largestAck`
      simp only [Span.isEmpty, decide_eq_true_eq, not_le] at hempty
      refine ⟨separated_cons.mpr ⟨hempty, hhead, hrest⟩, fun x => ?_⟩
      simp only [covered_cons, mem_iff]
      constructor
      · rintro (⟨hx, hx'⟩ | hx)
        · exact ⟨.inl ⟨by omega, hx'⟩, by omega⟩
        · exact ⟨.inr hx, by have := habove x hx; omega⟩
      · rintro ⟨⟨-, hx⟩ | hx, hlt⟩
        · exact .inl ⟨by omega, hx⟩
        · exact .inr hx

/-- On separated pending-ack ranges, `add_pending_ack` adds `sequence` to the set they cover,
taking the first range away exactly when the 64-range cap of its append branch drops it, and
`acked_largest` keeps the sequences above `largestAck`; both keep the ranges separated. -/
theorem addPendingAck_ackedLargest_spec {pendingAcks : List Span} (h : Separated pendingAcks)
    (sequence largestAck : Nat) :
    (Separated (addPendingAck pendingAcks sequence) ∧
      ∀ x, Covered (addPendingAck pendingAcks sequence) x ↔
        (Covered pendingAcks x ∨ x = sequence) ∧
          (capDrops pendingAcks sequence → ∀ r ∈ pendingAcks.head?, x ∉ r)) ∧
    (Separated (ackedLargest largestAck pendingAcks) ∧
      ∀ x, Covered (ackedLargest largestAck pendingAcks) x ↔
        Covered pendingAcks x ∧ largestAck < x) :=
  ⟨addPendingAck_separated_covered h, ackedLargest_separated_covered largestAck h⟩

/-- The ranges `[1, 3)` and `[5, 6)`: `3` extends the first, and an ack of `1` cuts it. -/
theorem addPendingAck_ackedLargest_spec_twoRanges :
    Separated [⟨1, 3⟩, ⟨5, 6⟩] ∧
      ((Separated (addPendingAck [⟨1, 3⟩, ⟨5, 6⟩] 3) ∧
        ∀ x, Covered (addPendingAck [⟨1, 3⟩, ⟨5, 6⟩] 3) x ↔
          (Covered [⟨1, 3⟩, ⟨5, 6⟩] x ∨ x = 3) ∧
            (capDrops [⟨1, 3⟩, ⟨5, 6⟩] 3 →
              ∀ r ∈ ([⟨1, 3⟩, ⟨5, 6⟩] : List Span).head?, x ∉ r)) ∧
      (Separated (ackedLargest 1 [⟨1, 3⟩, ⟨5, 6⟩]) ∧
        ∀ x, Covered (ackedLargest 1 [⟨1, 3⟩, ⟨5, 6⟩]) x ↔
          Covered [⟨1, 3⟩, ⟨5, 6⟩] x ∧ 1 < x)) := by
  have h : Separated [⟨1, 3⟩, ⟨5, 6⟩] :=
    separated_cons_cons.mpr ⟨by decide, by decide, by simp⟩
  exact ⟨h, addPendingAck_ackedLargest_spec h 3 1⟩

end Renet
