import Mathlib.Algebra.BigOperators.Fin
import Mathlib.Algebra.Order.BigOperators.Group.Finset
import Mathlib.Algebra.Order.Field.Basic
import Mathlib.Algebra.Order.Field.Rat
import Renet.Channel.Reliable

/-!
# Connection statistics

`renet/src/connection_stats.rs`. The statistics of a connection are a ring of `SIZE` buckets of
`RESOLUTION` each, spanning `WINDOW`: per bucket the packets sent and acknowledged and the bytes
sent and received. `update` moves to the bucket of the current time and empties it when it is
not the bucket already current; the buckets it passes over keep what they held. An
acknowledgement is counted in the bucket of the time its packet was sent, unless that is more
than `WINDOW` ago. `packet_loss` compares the packets sent and acknowledged over the buckets but
the current one and the two before it.

The counters are `u64`s: plain sums here, as no connection sends `2 ^ 64` packets. `packet_loss`
divides `f64`s; the model computes the exact quotient in `ℚ`. Rounding to nearest is monotone and
keeps `0` and `1`, so the `f64` value lies in `[0, 1]` whenever the exact one does. The rates
`bytes_sent_per_second` and `bytes_received_per_second` are `f64` readouts that nothing modelled
reads, and are left out.

## Main definitions

* `Renet.ConnectionStats` with `new`, `index`, `update`, `sentPackets`, `receivedPacket`,
  `ackedPacket` and `packetLoss`.
* `Renet.ConnectionStats.settledSum`: the sum `packet_loss` takes over one array.

## Main results

* `Renet.ConnectionStats.index_eq_of_le_of_le`: between two times less than `10 * RESOLUTION`
  apart that fall in one bucket, every time falls in that bucket.
* `Renet.ConnectionStats.packetsSent_update`, `packetsAcked_update`: `update` empties only the
  bucket it lands on.
* `Renet.ConnectionStats.ackedPacket_eq`: an acknowledgement within `WINDOW` is counted in the
  bucket of its send time, whatever that bucket holds now.
* `Renet.ConnectionStats.packetLoss_nonneg_le_one`: with no more acknowledgements than packets
  over the settled buckets, `packet_loss` lies in `[0, 1]`.
-/

namespace Renet

namespace ConnectionStats

/-- `RESOLUTION`: the width of a bucket, 300 ms. -/
def resolution : Duration := 300000000

/-- `WINDOW`: the time the buckets span, 6 s. -/
def window : Duration := 6000000000

/-- `SIZE`: the number of buckets, `WINDOW / RESOLUTION` in milliseconds. -/
def size : Nat := window / 1000000 / (resolution / 1000000)

theorem size_eq : size = 20 := rfl

end ConnectionStats

/-- `ConnectionStats`: four rings of counters and the bucket of the last `update`. -/
structure ConnectionStats where
  packetsSent : Fin ConnectionStats.size → Nat
  packetsAcked : Fin ConnectionStats.size → Nat
  bytesSent : Fin ConnectionStats.size → Nat
  bytesReceived : Fin ConnectionStats.size → Nat
  currentIndex : Fin ConnectionStats.size

namespace ConnectionStats

/-- `ConnectionStats::new`. -/
def new : ConnectionStats where
  packetsSent := fun _ => 0
  packetsAcked := fun _ => 0
  bytesSent := fun _ => 0
  bytesReceived := fun _ => 0
  currentIndex := ⟨0, by decide⟩

/-- `ConnectionStats::index`: the bucket of a time. The number of resolutions is cast `as usize`,
which keeps its low 64 bits on a 64-bit target, before the `% SIZE`. -/
def index (time : Duration) : Fin size :=
  ⟨time / 1000000 / (resolution / 1000000) % 2 ^ 64 % size, Nat.mod_lt _ (by decide)⟩

/-- `update`: move to the bucket of `current_time`, emptied unless it is the current one. -/
def update (s : ConnectionStats) (currentTime : Duration) : ConnectionStats :=
  let i := index currentTime
  if s.currentIndex ≠ i then
    { currentIndex := i
      packetsSent := Function.update s.packetsSent i 0
      bytesSent := Function.update s.bytesSent i 0
      bytesReceived := Function.update s.bytesReceived i 0
      packetsAcked := Function.update s.packetsAcked i 0 }
  else s

/-- `sent_packets`: count a tick's datagrams in the current bucket. -/
def sentPackets (s : ConnectionStats) (numPackets bytes : Nat) : ConnectionStats :=
  { s with
    packetsSent := Function.update s.packetsSent s.currentIndex
      (s.packetsSent s.currentIndex + numPackets)
    bytesSent := Function.update s.bytesSent s.currentIndex (s.bytesSent s.currentIndex + bytes) }

/-- `received_packet`. -/
def receivedPacket (s : ConnectionStats) (bytes : Nat) : ConnectionStats :=
  { s with
    bytesReceived := Function.update s.bytesReceived s.currentIndex
      (s.bytesReceived s.currentIndex + bytes) }

/-- `acked_packet`: count the acknowledgement in the bucket of `sent_at`, unless it came more than
`WINDOW` after; `current_time - sent_at` panics below zero. -/
def ackedPacket (s : ConnectionStats) (sentAt currentTime : Duration) :
    Outcome Empty ConnectionStats := do
  let delta ← Outcome.checkedSub currentTime sentAt
  if delta > window then pure s
  else pure { s with
    packetsAcked := Function.update s.packetsAcked (index sentAt)
      (s.packetsAcked (index sentAt) + 1) }

/-- `(current_index + SIZE - k) % SIZE`: the bucket `k` before the current one. -/
def before (s : ConnectionStats) (k : Nat) : Fin size :=
  ⟨(s.currentIndex + size - k) % size, Nat.mod_lt _ (by decide)⟩

/-- The block of `packet_loss` for one array: the sum of its buckets less the current one and the
two before it, whose packets or acknowledgements may still be in flight. -/
def settledSum (s : ConnectionStats) (counts : Fin size → Nat) : Nat :=
  ∑ i, counts i - counts s.currentIndex - counts (s.before 1) - counts (s.before 2)

/-- `packet_loss`. -/
def packetLoss (s : ConnectionStats) : ℚ :=
  let totalPacketsSent := s.settledSum s.packetsSent
  let totalPacketsAcked := s.settledSum s.packetsAcked
  if totalPacketsSent = 0 then 0
  else ((totalPacketsSent : ℚ) - totalPacketsAcked) / totalPacketsSent

variable {s s' : ConnectionStats}

/-! ### Buckets of nearby times -/

/-- Three numbers of resolutions, the last at most ten above the first: if the first and the
last give one bucket, so does the middle one. Within one block of `2 ^ 64` the bucket repeats
only every `SIZE`; across the end of a block the low bits wrap by `2 ^ 64 % SIZE = 16`. -/
theorem mod_mod_eq_of_le_of_le {a b c : Nat} (hab : a ≤ b) (hbc : b ≤ c) (hca : c ≤ a + 10)
    (h : a % 2 ^ 64 % 20 = c % 2 ^ 64 % 20) : b % 2 ^ 64 % 20 = c % 2 ^ 64 % 20 := by
  have hqab : a / 2 ^ 64 ≤ b / 2 ^ 64 := Nat.div_le_div_right hab
  have hqbc : b / 2 ^ 64 ≤ c / 2 ^ 64 := Nat.div_le_div_right hbc
  have hqca : c / 2 ^ 64 ≤ a / 2 ^ 64 + 1 := by omega
  have ha := Nat.mod_add_div a (2 ^ 64)
  have hb := Nat.mod_add_div b (2 ^ 64)
  have hc := Nat.mod_add_div c (2 ^ 64)
  have hma := Nat.mod_lt a (show 0 < 2 ^ 64 by decide)
  have hmc := Nat.mod_lt c (show 0 < 2 ^ 64 by decide)
  generalize a % 2 ^ 64 = x at *
  generalize b % 2 ^ 64 = y at *
  generalize c % 2 ^ 64 = z at *
  generalize a / 2 ^ 64 = qa at *
  generalize b / 2 ^ 64 = qb at *
  generalize c / 2 ^ 64 = qc at *
  subst ha hb hc
  rcases Nat.eq_or_lt_of_le hqca with hwrap | hsame
  · -- `a` ends a block and `c` starts the next: their buckets are 16 apart
    omega
  · obtain rfl : qc = qa := by omega
    obtain rfl : qb = qc := by omega
    omega

/-- Between two times less than `10 * RESOLUTION` apart that fall in one bucket, every time falls
in that bucket. -/
theorem index_eq_of_le_of_le {t₀ t₁ t₂ : Nat} (h₁ : t₀ ≤ t₁) (h₂ : t₁ ≤ t₂)
    (h₃ : t₂ < t₀ + 10 * resolution) (h : index t₀ = index t₂) : index t₁ = index t₂ := by
  have hab : t₀ / 1000000 / 300 ≤ t₁ / 1000000 / 300 :=
    Nat.div_le_div_right (Nat.div_le_div_right h₁)
  have hbc : t₁ / 1000000 / 300 ≤ t₂ / 1000000 / 300 :=
    Nat.div_le_div_right (Nat.div_le_div_right h₂)
  have hca : t₂ / 1000000 / 300 ≤ t₀ / 1000000 / 300 + 10 := by
    unfold resolution at h₃
    omega
  have hres : resolution / 1000000 = 300 := rfl
  simp only [index, hres, size_eq, Fin.mk.injEq] at h ⊢
  exact mod_mod_eq_of_le_of_le hab hbc hca h

/-! ### What each operation does to the buckets -/

@[simp] theorem currentIndex_update (s : ConnectionStats) (currentTime : Duration) :
    (s.update currentTime).currentIndex = index currentTime := by
  by_cases hmove : s.currentIndex ≠ index currentTime
  · simp [update, hmove]
  · rw [not_not] at hmove
    simp [update, hmove]

/-- `update` empties the bucket it lands on, if it moves, and no other. -/
@[simp] theorem packetsSent_update (s : ConnectionStats) (currentTime : Duration) (j : Fin size) :
    (s.update currentTime).packetsSent j =
      if s.currentIndex ≠ index currentTime ∧ j = index currentTime then 0
      else s.packetsSent j := by
  unfold update
  by_cases hmove : s.currentIndex ≠ index currentTime <;> by_cases hj : j = index currentTime <;>
    simp [hmove, hj]

@[simp] theorem packetsAcked_update (s : ConnectionStats) (currentTime : Duration) (j : Fin size) :
    (s.update currentTime).packetsAcked j =
      if s.currentIndex ≠ index currentTime ∧ j = index currentTime then 0
      else s.packetsAcked j := by
  unfold update
  by_cases hmove : s.currentIndex ≠ index currentTime <;> by_cases hj : j = index currentTime <;>
    simp [hmove, hj]

@[simp] theorem currentIndex_sentPackets (s : ConnectionStats) (numPackets bytes : Nat) :
    (s.sentPackets numPackets bytes).currentIndex = s.currentIndex := rfl

@[simp] theorem packetsAcked_sentPackets (s : ConnectionStats) (numPackets bytes : Nat) :
    (s.sentPackets numPackets bytes).packetsAcked = s.packetsAcked := rfl

@[simp] theorem packetsSent_sentPackets (s : ConnectionStats) (numPackets bytes : Nat) :
    (s.sentPackets numPackets bytes).packetsSent = Function.update s.packetsSent s.currentIndex
      (s.packetsSent s.currentIndex + numPackets) := rfl

@[simp] theorem currentIndex_receivedPacket (s : ConnectionStats) (bytes : Nat) :
    (s.receivedPacket bytes).currentIndex = s.currentIndex := rfl

@[simp] theorem packetsAcked_receivedPacket (s : ConnectionStats) (bytes : Nat) :
    (s.receivedPacket bytes).packetsAcked = s.packetsAcked := rfl

@[simp] theorem packetsSent_receivedPacket (s : ConnectionStats) (bytes : Nat) :
    (s.receivedPacket bytes).packetsSent = s.packetsSent := rfl

/-- `acked_packet` on a send time not after the current time: the acknowledgement is counted in
the bucket of the send time when it is within `WINDOW`, whether or not `update` has emptied that
bucket for a later period since. -/
theorem ackedPacket_eq (s : ConnectionStats) {sentAt currentTime : Duration}
    (hle : sentAt ≤ currentTime) :
    s.ackedPacket sentAt currentTime =
      .ok (if window < currentTime - sentAt then s else
        { s with
          packetsAcked := Function.update s.packetsAcked (index sentAt)
            (s.packetsAcked (index sentAt) + 1) }) := by
  simp only [ackedPacket, Outcome.checkedSub_of_le hle, Outcome.ok_bind, gt_iff_lt]
  split_ifs <;> rfl

theorem ackedPacket_eq_ok {sentAt currentTime : Duration}
    (h : s.ackedPacket sentAt currentTime = .ok s') :
    sentAt ≤ currentTime ∧ s'.packetsSent = s.packetsSent ∧ s'.currentIndex = s.currentIndex ∧
      s'.packetsAcked = if window < currentTime - sentAt then s.packetsAcked else
        Function.update s.packetsAcked (index sentAt) (s.packetsAcked (index sentAt) + 1) := by
  obtain ⟨delta, hdelta, -⟩ := Outcome.bind_eq_ok.mp h
  have hle := (Outcome.checkedSub_eq_ok hdelta).1
  rw [ackedPacket_eq s hle, Outcome.ok.injEq] at h
  subst h
  refine ⟨hle, ?_, ?_, ?_⟩ <;> split_ifs <;> rfl

/-- The bucket of a packet sent at time `0` is emptied by the updates at 5.7 s and 6 s, and its
acknowledgement at 6 s, within `WINDOW`, is counted there against no packet sent. -/
theorem ackedPacket_emptiedBucket :
    ∃ sentAt t₁ t₂ s', sentAt ≤ t₁ ∧ t₁ ≤ t₂ ∧ window - resolution < t₂ - sentAt ∧
      t₂ - sentAt ≤ window ∧
      ((((new.update sentAt).sentPackets 1 0).update t₁).update t₂).ackedPacket sentAt t₂ =
        .ok s' ∧
      s'.packetsSent (index sentAt) < s'.packetsAcked (index sentAt) := by
  refine ⟨0, 5700000000, 6000000000, _, by decide, by decide, by decide, by decide,
    ackedPacket_eq _ (by decide), ?_⟩
  decide

/-! ### The sums of `packet_loss` -/

theorem before_ne_currentIndex (s : ConnectionStats) {k : Nat} (hk : 0 < k) (hk' : k < size) :
    s.before k ≠ s.currentIndex := by
  have hcur : (s.currentIndex : Nat) < 20 := s.currentIndex.isLt
  have hk'' : k < 20 := hk'
  rw [Ne, Fin.ext_iff]
  show ¬(s.currentIndex + 20 - k) % 20 = s.currentIndex
  omega

theorem before_one_ne_before_two (s : ConnectionStats) : s.before 1 ≠ s.before 2 := by
  have hcur : (s.currentIndex : Nat) < 20 := s.currentIndex.isLt
  rw [Ne, Fin.ext_iff]
  show ¬((s.currentIndex : Nat) + 20 - 1) % 20 = ((s.currentIndex : Nat) + 20 - 2) % 20
  omega

/-- The three buckets `packet_loss` leaves out are three distinct ones, so its subtractions take
off three terms of the sum: what is left is the sum over the other buckets. -/
theorem settledSum_eq_sum (s : ConnectionStats) (counts : Fin size → Nat) :
    s.settledSum counts =
      ∑ i ∈ ((Finset.univ.erase s.currentIndex).erase (s.before 1)).erase (s.before 2),
        counts i := by
  have h₁ : s.before 1 ≠ s.currentIndex := s.before_ne_currentIndex (by decide) (by decide)
  have h₂ : s.before 2 ≠ s.currentIndex := s.before_ne_currentIndex (by decide) (by decide)
  have h₁₂ : s.before 2 ≠ s.before 1 := (s.before_one_ne_before_two).symm
  have hsum := Finset.add_sum_erase Finset.univ counts (Finset.mem_univ s.currentIndex)
  rw [← Finset.add_sum_erase _ counts (Finset.mem_erase.mpr ⟨h₁, Finset.mem_univ _⟩),
    ← Finset.add_sum_erase _ counts
      (Finset.mem_erase.mpr ⟨h₁₂, Finset.mem_erase.mpr ⟨h₂, Finset.mem_univ _⟩⟩)] at hsum
  unfold settledSum
  omega

theorem settledSum_le_settledSum (s : ConnectionStats) {counts counts' : Fin size → Nat}
    (h : ∀ i, counts i ≤ counts' i) : s.settledSum counts ≤ s.settledSum counts' := by
  rw [settledSum_eq_sum, settledSum_eq_sum]
  exact Finset.sum_le_sum fun i _ => h i

/-- With no more acknowledgements than packets over the settled buckets, the loss is a fraction
of the packets sent. -/
theorem packetLoss_nonneg_le_one
    (h : s.settledSum s.packetsAcked ≤ s.settledSum s.packetsSent) :
    0 ≤ s.packetLoss ∧ s.packetLoss ≤ 1 := by
  unfold packetLoss
  dsimp only
  split_ifs with hzero
  · exact ⟨le_rfl, zero_le_one⟩
  · have hpos : (0 : ℚ) < s.settledSum s.packetsSent := by exact_mod_cast Nat.pos_of_ne_zero hzero
    have hle : (s.settledSum s.packetsAcked : ℚ) ≤ s.settledSum s.packetsSent := by
      exact_mod_cast h
    refine ⟨div_nonneg (sub_nonneg.mpr hle) hpos.le, (div_le_one hpos).mpr ?_⟩
    exact sub_le_self _ (Nat.cast_nonneg _)

end ConnectionStats

end Renet
