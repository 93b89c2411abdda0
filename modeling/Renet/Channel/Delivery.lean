import Renet.Channel.Reassembly
import Renet.Link.Sender

/-!
# What a reliable receive channel delivers

The messages a `ReceiveChannelReliable` hands out come from what it was fed: small messages
with their ids, and slices. Suppose the sender's history `H` is behind every input: each small
message under id `m` is message `m` of `H`, and each slice is a slice of message `m` of `H`, cut
as the senders cut it (`ReceiveCall.Honest`). The network may repeat, reorder and drop them.
Then over every run of `process_message`, `process_slice` and `receive_message` from a new
channel, an ordered channel delivers a prefix of `H`, and an unordered one delivers messages of
`H` under distinct ids: no message twice (`run_new_delivered`).

The argument is one invariant (`Delivers`): the delivered ids have no repetition, every buffered
message is the one of `H` under its id and is not delivered yet, and neither a delivered nor a
buffered id is one `process_message` would store again (`accepts`). An ordered channel has
delivered exactly the ids below `oldest_pending_message_id`. Every constructor of `slices`
assembles the message of `H` under its id (`SlicesOf`), so a completed slice set is the message
itself (`Assembling.processSlice_chunk_result`).

An unordered channel may step `oldest_pending_message_id` past ids it still buffers, which it
then refuses by that bound rather than by `received_messages`: `accepts` covers both.

## Main definitions

* `Renet.ReceiveChannelReliable.accepts`: the ids `process_message` would store a message under.
* `Renet.ReceiveChannelReliable.Delivers`, `Renet.ReceiveChannelReliable.SlicesOf`.
* `Renet.ReceiveCall`, `Renet.ReceiveChannelReliable.run`: runs of calls and what they deliver.

## Main results

* `Renet.ReceiveChannelReliable.Delivers.processMessage`, `Delivers.processSlice`,
  `Delivers.receiveMessage`: one call keeps the invariant.
* `Renet.ReceiveChannelReliable.run_new_delivered`.
-/

namespace Renet

/-- The stepping of `oldest` in unordered `receive_message` keeps every id it refused refused:
an id below the old bound is below the new one, and an id it removes from the received set is
passed by the bound. -/
theorem advancePending_blocked : ∀ (fuel oldest : Nat) (received : OrdMap Nat Unit) {x : Nat},
    x < oldest ∨ received.contains x = true →
      x < (advancePending fuel oldest received).1 ∨
        (advancePending fuel oldest received).2.contains x = true
  | 0, _, _, _, h => h
  | fuel + 1, oldest, received, x, h => by
    unfold advancePending
    split_ifs with hc
    · refine advancePending_blocked fuel (oldest + 1) (received.erase oldest) ?_
      by_cases hx : x = oldest
      · exact .inl (by omega)
      · rcases h with hlt | hmem
        · exact .inl (by omega)
        · right
          obtain ⟨v, hv⟩ := OrdMap.contains_iff.mp hmem
          exact OrdMap.contains_iff.mpr ⟨v, by rw [OrdMap.find?_erase, if_neg hx, hv]⟩
    · exact h

namespace ReceiveChannelReliable

/-- `process_message` would store a message under `messageId`: it is not below
`oldest_pending_message_id` and not already held (ordered) or received (unordered). -/
def accepts (ch : ReceiveChannelReliable) (messageId : Nat) : Bool :=
  decide (ch.oldestPendingMessageId ≤ messageId) &&
    match ch.reliableOrder with
    | .ordered => !ch.messages.contains messageId
    | .unordered _ receivedMessages => !receivedMessages.contains messageId

/-- The channel has delivered the messages of `H` under `ids`, in that order: each buffered
message is the one of `H` under its id and not delivered yet, no delivered or buffered id is
accepted again, and an ordered channel has delivered the ids below `oldest_pending_message_id`. -/
structure Delivers (H : List Bytes) (ids : List Nat) (ch : ReceiveChannelReliable) : Prop where
  nodup : ids.Nodup
  find?_messages : ∀ {m b}, ch.messages.find? m = some b → H[m]? = some b ∧ m ∉ ids
  accepts_delivered : ∀ {m}, m ∈ ids → ch.accepts m = false
  accepts_buffered : ∀ {m b}, ch.messages.find? m = some b → ch.accepts m = false
  range_of_ordered : ch.reliableOrder = .ordered → ids = List.range ch.oldestPendingMessageId

/-- Every constructor of the channel assembles the message of `H` under its id, and still
misses a slice of it: a complete one has been taken out. -/
def SlicesOf (H : List Bytes) (ch : ReceiveChannelReliable) : Prop :=
  ∀ {m sc}, ch.slices.find? m = some sc →
    ∃ message, H[m]? = some message ∧ 0 < message.length ∧ Assembling message sc ∧
      ∃ j < sc.numSlices, ¬sc.Received j

variable {H : List Bytes} {ids : List Nat} {ch ch' : ReceiveChannelReliable}

theorem delivers_new (H : List Bytes) (maxMemoryUsageBytes : Nat) (ordered : Bool) :
    (new maxMemoryUsageBytes ordered).Delivers H [] where
  nodup := List.nodup_nil
  find?_messages hfind := by simp [new] at hfind
  accepts_delivered hm := by simp at hm
  accepts_buffered hfind := by simp [new] at hfind
  range_of_ordered _ := rfl

theorem slicesOf_new (H : List Bytes) (maxMemoryUsageBytes : Nat) (ordered : Bool) :
    (new maxMemoryUsageBytes ordered).SlicesOf H := fun hfind => by
  simp [new] at hfind

theorem SlicesOf.of_slices_eq (h : ch.SlicesOf H) (hslices : ch'.slices = ch.slices) :
    ch'.SlicesOf H := fun hfind => h (hslices ▸ hfind)

/-- A longer history is behind the same channel. -/
theorem Delivers.mono (h : ch.Delivers H ids) {H' : List Bytes} (hp : H <+: H') :
    ch.Delivers H' ids where
  nodup := h.nodup
  find?_messages hfind := (h.find?_messages hfind).imp_left (prefix_getElem?_eq_some hp)
  accepts_delivered := h.accepts_delivered
  accepts_buffered := h.accepts_buffered
  range_of_ordered := h.range_of_ordered

theorem SlicesOf.mono (h : ch.SlicesOf H) {H' : List Bytes} (hp : H <+: H') : ch.SlicesOf H' :=
  fun hfind => by
    obtain ⟨message, hH, hrest⟩ := h hfind
    exact ⟨message, prefix_getElem?_eq_some hp hH, hrest⟩

/-- A change that keeps the messages, the ids accepted and whether the channel is ordered keeps
what it delivered. -/
theorem Delivers.congr (h : ch.Delivers H ids) (hmessages : ch'.messages = ch.messages)
    (hacc : ∀ m, ch'.accepts m = ch.accepts m)
    (horder : ch'.reliableOrder = .ordered → ch.reliableOrder = .ordered)
    (holdest : ch'.oldestPendingMessageId = ch.oldestPendingMessageId) :
    ch'.Delivers H ids where
  nodup := h.nodup
  find?_messages hfind := h.find?_messages (hmessages ▸ hfind)
  accepts_delivered hm := (hacc _).trans (h.accepts_delivered hm)
  accepts_buffered hfind := (hacc _).trans (h.accepts_buffered (hmessages ▸ hfind))
  range_of_ordered hord := holdest ▸ h.range_of_ordered (horder hord)

/-- Storing message `messageId` of `H` under an id the channel accepts, after which it refuses
that id and accepts no other id it refused. -/
theorem Delivers.store (h : ch.Delivers H ids) {messageId : Nat} {message : Bytes}
    (haccepts : ch.accepts messageId = true) (hm : H[messageId]? = some message)
    (hmessages : ch'.messages = ch.messages.insert messageId message)
    (hacc : ∀ m, ch'.accepts m = true → ch.accepts m = true ∧ m ≠ messageId)
    (horder : ch'.reliableOrder = .ordered → ch.reliableOrder = .ordered)
    (holdest : ch'.oldestPendingMessageId = ch.oldestPendingMessageId) :
    ch'.Delivers H ids := by
  have hrefused : ∀ {m}, ch.accepts m = false → ch'.accepts m = false := fun {m} hm' =>
    Bool.eq_false_iff.mpr fun hm'' => by rw [(hacc m hm'').1] at hm'; cases hm'
  refine ⟨h.nodup, fun {m b} hfind => ?_, fun hm' => hrefused (h.accepts_delivered hm'),
    fun {m b} hfind => ?_, fun hord => holdest ▸ h.range_of_ordered (horder hord)⟩
  · rw [hmessages, OrdMap.find?_insert] at hfind
    split_ifs at hfind with hid
    · cases hfind
      subst hid
      exact ⟨hm, fun hmem => by rw [h.accepts_delivered hmem] at haccepts; cases haccepts⟩
    · exact h.find?_messages hfind
  · rw [hmessages, OrdMap.find?_insert] at hfind
    split_ifs at hfind with hid
    · exact Bool.eq_false_iff.mpr fun hm' => (hacc m hm').2 hid
    · exact hrefused (h.accepts_buffered hfind)

/-! ### One call -/

theorem reserve_eq_ok {n : Nat} (h : ch.reserve n = .ok ch') :
    ∃ memoryUsageBytes, ch' = { ch with memoryUsageBytes } := by
  obtain ⟨total, -, h⟩ := Outcome.bind_eq_ok.mp h
  split_ifs at h
  cases h
  exact ⟨total, rfl⟩

/-- `process_message` in one piece: an id the channel refuses leaves its messages and the ids it
accepts as they were; an accepted one is stored, and refused from then on. Either way the
slices, the bound and the order stay. -/
theorem processMessage_eq_ok {message : Bytes} {messageId : Nat}
    (hs : ch.processMessage message messageId = .ok ch') :
    ch'.slices = ch.slices ∧ ch'.oldestPendingMessageId = ch.oldestPendingMessageId ∧
      (ch'.reliableOrder = .ordered ↔ ch.reliableOrder = .ordered) ∧
      ((ch.accepts messageId = false ∧ ch'.messages = ch.messages ∧
          ∀ m, ch'.accepts m = ch.accepts m) ∨
        (ch.accepts messageId = true ∧ ch'.messages = ch.messages.insert messageId message ∧
          ∀ m, ch'.accepts m = true ↔ ch.accepts m = true ∧ m ≠ messageId)) := by
  unfold ReceiveChannelReliable.processMessage at hs
  by_cases hold : messageId < ch.oldestPendingMessageId
  · rw [if_pos hold] at hs
    cases hs
    exact ⟨rfl, rfl, .rfl, .inl ⟨by simp [accepts, Nat.not_le.mpr hold], rfl, fun _ => rfl⟩⟩
  rw [if_neg hold] at hs
  split at hs
  · next hord =>
    by_cases hheld : ch.messages.contains messageId = true
    · rw [if_pos hheld] at hs
      cases hs
      exact ⟨rfl, rfl, .rfl, .inl ⟨by simp [accepts, hord, hheld], rfl, fun _ => rfl⟩⟩
    rw [if_neg hheld] at hs
    obtain ⟨ch₁, hres, hs⟩ := Outcome.bind_eq_ok.mp hs
    obtain ⟨memoryUsageBytes, rfl⟩ := reserve_eq_ok hres
    cases hs
    refine ⟨rfl, rfl, .rfl, .inr ⟨by simp [accepts, hord, hheld, Nat.le_of_not_lt hold], rfl,
      fun m => ?_⟩⟩
    -- the stored id is now held
    by_cases hm : m = messageId
    · simp [accepts, hord, OrdMap.contains, hm]
    · simp [accepts, hord, OrdMap.contains, hm]
  · next mostRecentMessageId receivedMessages hord =>
    dsimp only at hs
    by_cases hreceived : receivedMessages.contains messageId = true
    · rw [if_pos hreceived] at hs
      cases hs
      exact ⟨rfl, rfl, by simp [hord],
        .inl ⟨by simp [accepts, hord, hreceived], rfl, fun _ => by simp [accepts, hord]⟩⟩
    rw [if_neg hreceived] at hs
    obtain ⟨ch₁, hres, hs⟩ := Outcome.bind_eq_ok.mp hs
    obtain ⟨memoryUsageBytes, rfl⟩ := reserve_eq_ok hres
    cases hs
    refine ⟨rfl, rfl, by simp [hord], .inr ⟨by simp [accepts, hord, hreceived,
      Nat.le_of_not_lt hold], rfl, fun m => ?_⟩⟩
    -- the stored id is now received
    by_cases hm : m = messageId
    · simp [accepts, hord, OrdMap.contains, hm]
    · simp [accepts, hord, OrdMap.contains, hm]

/-- `receive_message` keeps the slices and refuses every id it refused: ordered, the id handed
out passes below the bound; unordered, the bound steps only past ids received ahead of it. -/
theorem receiveMessage_refuses {message? : Option Bytes}
    (hs : ch.receiveMessage = .ok (message?, ch')) :
    ch'.slices = ch.slices ∧ ∀ {m}, ch.accepts m = false → ch'.accepts m = false := by
  unfold ReceiveChannelReliable.receiveMessage at hs
  split at hs
  · next hord =>
    split at hs
    · cases hs
      exact ⟨rfl, id⟩
    · obtain ⟨memoryUsageBytes, -, hs⟩ := Outcome.bind_eq_ok.mp hs
      simp only [Outcome.pure_eq, Outcome.ok.injEq, Prod.mk.injEq] at hs
      obtain ⟨-, rfl⟩ := hs
      refine ⟨rfl, fun {m} hm => ?_⟩
      simp only [accepts, hord, Bool.and_eq_false_iff, decide_eq_false_iff_not, Nat.not_le,
        Bool.not_eq_eq_eq_not, Bool.not_false] at hm ⊢
      by_cases hid : m = ch.oldestPendingMessageId
      · exact .inl (by omega)
      · rcases hm with hlt | hheld
        · exact .inl (by omega)
        · right
          rw [OrdMap.contains, OrdMap.find?_erase, if_neg hid]
          exact hheld
  · next mostRecentMessageId receivedMessages hord =>
    split at hs
    · cases hs
      exact ⟨rfl, id⟩
    · next messageId message messages hpop =>
      -- the bound and the received ids after the stepping of `oldest`
      split at hs
      next oldest receivedMessages' hpair =>
      obtain ⟨memoryUsageBytes, -, hs⟩ := Outcome.bind_eq_ok.mp hs
      simp only [Outcome.pure_eq, Outcome.ok.injEq, Prod.mk.injEq] at hs
      obtain ⟨-, rfl⟩ := hs
      refine ⟨rfl, fun {x} hx => ?_⟩
      have hblocked : x < ch.oldestPendingMessageId ∨ receivedMessages.contains x = true := by
        simp only [accepts, hord, Bool.and_eq_false_iff, decide_eq_false_iff_not,
          Nat.not_le, Bool.not_eq_eq_eq_not, Bool.not_false] at hx
        exact hx
      simp only [accepts, Bool.and_eq_false_iff, decide_eq_false_iff_not, Nat.not_le,
        Bool.not_eq_eq_eq_not, Bool.not_false]
      split_ifs at hpair
      · have hstep := advancePending_blocked receivedMessages.size _ _ hblocked
        rw [hpair] at hstep
        exact hstep
      · cases hpair
        exact hblocked

/-- `process_slice` in one piece: a slice of an assembled or passed id is dropped; otherwise the
constructor held for its id, or a new one of its `num_slices`, takes it after at most a
reservation, and a completed message is processed before the constructor goes. -/
theorem processSlice_eq_ok {slice : Slice} (hs : ch.processSlice slice = .ok ch') :
    ((ch.messages.contains slice.messageId = true ∨
      slice.messageId < ch.oldestPendingMessageId) ∧ ch' = ch) ∨
    (∃ memoryUsageBytes sc,
      ((ch.slices.find? slice.messageId).getD
        (SliceConstructor.new slice.messageId slice.numSlices)).processSlice slice.sliceIndex
          slice.payload = .ok (none, sc) ∧
      ch' = { ch with memoryUsageBytes, slices := ch.slices.insert slice.messageId sc }) ∨
    ∃ memoryUsageBytes message sc ch₂,
      ((ch.slices.find? slice.messageId).getD
        (SliceConstructor.new slice.messageId slice.numSlices)).processSlice slice.sliceIndex
          slice.payload = .ok (some message, sc) ∧
      ({ ch with memoryUsageBytes, slices := ch.slices.insert slice.messageId sc } :
        ReceiveChannelReliable).processMessage message slice.messageId = .ok ch₂ ∧
      ch' = { ch₂ with slices := ch₂.slices.erase slice.messageId } := by
  unfold ReceiveChannelReliable.processSlice at hs
  by_cases hskip : ch.messages.contains slice.messageId = true ∨
    slice.messageId < ch.oldestPendingMessageId
  · rw [if_pos hskip] at hs
    cases hs
    exact .inl ⟨hskip, rfl⟩
  rw [if_neg hskip] at hs
  right
  dsimp only at hs
  -- the reservation, made for a new id only, changes the memory and nothing else
  split at hs <;>
  · obtain ⟨ch₁, hres, hs⟩ := Outcome.bind_eq_ok.mp hs
    obtain ⟨memoryUsageBytes₁, rfl⟩ : ∃ memoryUsageBytes, ch₁ = { ch with memoryUsageBytes } := by
      first
      | exact reserve_eq_ok hres
      | exact ⟨ch.memoryUsageBytes, (Outcome.ok.inj hres).symm⟩
    dsimp only at hs
    obtain ⟨⟨message?, sc⟩, hproc, hs⟩ := Outcome.bind_eq_ok.mp hs
    cases message? with
    | none =>
      cases hs
      exact .inl ⟨memoryUsageBytes₁, sc, hproc, rfl⟩
    | some message =>
      obtain ⟨memoryUsageBytes, -, hs⟩ := Outcome.bind_eq_ok.mp hs
      obtain ⟨ch₂, hproc₂, hs⟩ := Outcome.bind_eq_ok.mp hs
      cases hs
      exact .inr ⟨memoryUsageBytes, message, sc, ch₂, hproc, hproc₂, rfl⟩

/-- `process_message` with message `messageId` of `H` keeps the invariant, and the slices. -/
theorem Delivers.processMessage (h : ch.Delivers H ids) {message : Bytes} {messageId : Nat}
    (hm : H[messageId]? = some message) (hs : ch.processMessage message messageId = .ok ch') :
    ch'.Delivers H ids ∧ ch'.slices = ch.slices ∧
      (ch'.reliableOrder = .ordered ↔ ch.reliableOrder = .ordered) := by
  obtain ⟨hslices, holdest, horder, ⟨-, hmessages, hacc⟩ | ⟨haccepts, hmessages, hacc⟩⟩ :=
    processMessage_eq_ok hs
  · exact ⟨h.congr hmessages hacc horder.mp holdest, hslices, horder⟩
  · exact ⟨h.store haccepts hm hmessages (fun m => (hacc m).mp) horder.mp holdest, hslices,
      horder⟩

/-- `process_slice` with a slice of `H` keeps both invariants: a new constructor assembles the
message the slice is cut from, and a completed one returns that message, which is then
processed as one of `H`. -/
theorem Delivers.processSlice (h : ch.Delivers H ids) (hslices : ch.SlicesOf H) {slice : Slice}
    (hslice : slice.Of H) (hs : ch.processSlice slice = .ok ch') :
    ch'.Delivers H ids ∧ ch'.SlicesOf H ∧
      (ch'.reliableOrder = .ordered ↔ ch.reliableOrder = .ordered) := by
  obtain ⟨message, hH, hlen, hnum, hindex, hpayload⟩ := hslice
  have hlen' : 0 < message.length := by
    have := sliceSize_pos
    omega
  -- the constructor that takes the slice assembles the message it is cut from
  have hsc : Assembling message
      ((ch.slices.find? slice.messageId).getD
        (SliceConstructor.new slice.messageId slice.numSlices)) := by
    cases hfind : ch.slices.find? slice.messageId with
    | none => exact hnum ▸ assembling_new slice.messageId
    | some sc =>
      obtain ⟨message', hH', -, hsc, -⟩ := hslices hfind
      rw [hH, Option.some.injEq] at hH'
      exact hH' ▸ hsc
  have hi : slice.sliceIndex < _ := hsc.numSlices_eq ▸ hnum ▸ hindex
  rcases processSlice_eq_ok hs with ⟨-, rfl⟩ | ⟨memoryUsageBytes, sc, hproc, rfl⟩ |
    ⟨memoryUsageBytes, message', sc, ch₂, hproc, hproc₂, rfl⟩
  · exact ⟨h, hslices, .rfl⟩
  · refine ⟨h.congr rfl (fun _ => rfl) id rfl, fun {m sc'} hfind => ?_, .rfl⟩
    rw [hpayload] at hproc
    obtain ⟨hsc', -, hmissing⟩ := hsc.processSlice_chunk_none hlen' hi hproc
    rw [OrdMap.find?_insert] at hfind
    split_ifs at hfind with hid
    · cases hfind
      exact ⟨message, hid ▸ hH, hlen', hsc', hmissing⟩
    · exact hslices hfind
  · -- a completed constructor returns the message of `H`, processed as one of `H`
    rw [hpayload] at hproc
    have hmessage : message' = message := by
      rcases hsc.processSlice_chunk_result hlen' hi hproc with ⟨hnone, -⟩ | hsome
      · cases hnone
      · exact Option.some.inj hsome
    subst hmessage
    have hinv₁ : ({ ch with
        memoryUsageBytes
        slices := ch.slices.insert slice.messageId sc } : ReceiveChannelReliable).Delivers H ids :=
      h.congr rfl (fun _ => rfl) id rfl
    obtain ⟨hinv₂, hslices₂, horder₂⟩ := hinv₁.processMessage hH hproc₂
    refine ⟨hinv₂.congr rfl (fun _ => rfl) id rfl, fun {m sc'} hfind => ?_, horder₂⟩
    simp only [OrdMap.find?_erase, hslices₂, OrdMap.find?_insert] at hfind
    split_ifs at hfind
    exact hslices hfind

/-- `receive_message` hands out a message of `H` under an id not delivered before: in order, the
one under `oldest_pending_message_id`; unordered, the buffered one of least id. -/
theorem Delivers.receiveMessage (h : ch.Delivers H ids) {message? : Option Bytes}
    (hs : ch.receiveMessage = .ok (message?, ch')) :
    ∃ ids', ch'.Delivers H (ids ++ ids') ∧ ch'.slices = ch.slices ∧
      (ch'.reliableOrder = .ordered ↔ ch.reliableOrder = .ordered) ∧
      List.Forall₂ (fun m b => H[m]? = some b) ids' message?.toList := by
  obtain ⟨-, hrefused⟩ := receiveMessage_refuses hs
  unfold ReceiveChannelReliable.receiveMessage at hs
  split at hs
  · next hord =>
    split at hs
    · cases hs
      exact ⟨[], by simpa using h, rfl, .rfl, .nil⟩
    · next message hfind =>
      obtain ⟨memoryUsageBytes, -, hs⟩ := Outcome.bind_eq_ok.mp hs
      simp only [Outcome.pure_eq, Outcome.ok.injEq, Prod.mk.injEq] at hs
      obtain ⟨rfl, rfl⟩ := hs
      obtain ⟨hH, -⟩ := h.find?_messages hfind
      have hrange := h.range_of_ordered hord
      -- the delivered ids are those below the new bound
      have hrange' : ids ++ [ch.oldestPendingMessageId] =
          List.range (ch.oldestPendingMessageId + 1) := by
        rw [hrange, List.range_succ]
      refine ⟨[ch.oldestPendingMessageId], ⟨?_, fun {m b} hfind' => ?_, fun {m} hm => ?_,
        fun {m b} hfind' => ?_, fun _ => hrange'⟩, rfl, .rfl, .cons hH .nil⟩
      · rw [hrange']
        exact List.nodup_range
      · rw [OrdMap.find?_erase] at hfind'
        split_ifs at hfind' with hm
        obtain ⟨hH', hnot⟩ := h.find?_messages hfind'
        exact ⟨hH', by simpa [hm] using hnot⟩
      · rw [hrange', List.mem_range] at hm
        simp [accepts, hord, Nat.not_le.mpr hm]
      · have hm : m ≠ ch.oldestPendingMessageId := by
          intro hm
          rw [OrdMap.find?_erase, if_pos hm] at hfind'
          cases hfind'
        rw [OrdMap.find?_erase, if_neg hm] at hfind'
        simp [accepts, hord, OrdMap.contains, hm, hfind']
  · next mostRecentMessageId receivedMessages hord =>
    split at hs
    · cases hs
      exact ⟨[], by simpa using h, rfl, .rfl, .nil⟩
    · next messageId message messages hpop =>
      obtain ⟨hfind, rfl, -⟩ := OrdMap.popFirst_eq_some hpop
      obtain ⟨memoryUsageBytes, -, hs⟩ := Outcome.bind_eq_ok.mp hs
      simp only [Outcome.pure_eq, Outcome.ok.injEq, Prod.mk.injEq] at hs
      obtain ⟨rfl, rfl⟩ := hs
      obtain ⟨hH, hnew⟩ := h.find?_messages hfind
      refine ⟨[messageId], ⟨?_, fun {m b} hfind' => ?_, fun {m} hm => ?_,
        fun {m b} hfind' => ?_, fun hord' => by cases hord'⟩, rfl, by simp [hord], .cons hH .nil⟩
      · exact List.nodup_append.mpr ⟨h.nodup, List.nodup_singleton _,
          fun a ha b hb => by rw [List.mem_singleton] at hb; exact hb ▸ fun he => hnew (he ▸ ha)⟩
      · rw [OrdMap.find?_erase] at hfind'
        split_ifs at hfind' with hm
        obtain ⟨hH', hnot⟩ := h.find?_messages hfind'
        exact ⟨hH', by simpa [hm] using hnot⟩
      · rcases List.mem_append.mp hm with hm | hm
        · exact hrefused (h.accepts_delivered hm)
        · rw [List.mem_singleton] at hm
          exact hm ▸ hrefused (h.accepts_buffered hfind)
      · rw [OrdMap.find?_erase] at hfind'
        split_ifs at hfind'
        exact hrefused (h.accepts_buffered hfind')

/-! ### Runs -/

end ReceiveChannelReliable

/-- A call on a reliable receive channel, with what it is given. -/
inductive ReceiveCall where
  | processMessage (message : Bytes) (messageId : Nat)
  | processSlice (slice : Slice)
  | receiveMessage

/-- The call carries a message of `H` under its id, or a slice of one. -/
def ReceiveCall.Honest (H : List Bytes) : ReceiveCall → Prop
  | .processMessage message messageId => H[messageId]? = some message
  | .processSlice slice => slice.Of H
  | .receiveMessage => True

namespace ReceiveChannelReliable

/-- The calls one after the other, with the messages `receive_message` handed out; the first
error ends the run. -/
def run (ch : ReceiveChannelReliable) :
    List ReceiveCall → Outcome ChannelError (List Bytes × ReceiveChannelReliable)
  | [] => pure ([], ch)
  | .processMessage message messageId :: calls => do
    let ch ← ch.processMessage message messageId
    ch.run calls
  | .processSlice slice :: calls => do
    let ch ← ch.processSlice slice
    ch.run calls
  | .receiveMessage :: calls => do
    let (message?, ch) ← Outcome.mapErr Empty.elim ch.receiveMessage
    let (delivered, ch) ← ch.run calls
    pure (message?.toList ++ delivered, ch)

/-- A run of calls that agree with `H` delivers the messages of `H` under more ids, keeps
both invariants and whether the channel is ordered. -/
theorem Delivers.run : ∀ {ch ch' : ReceiveChannelReliable} {ids : List Nat}
    {calls : List ReceiveCall} {delivered : List Bytes},
    ch.Delivers H ids → ch.SlicesOf H → (∀ call ∈ calls, call.Honest H) →
      ch.run calls = .ok (delivered, ch') →
      ∃ ids', ch'.Delivers H (ids ++ ids') ∧ ch'.SlicesOf H ∧
        (ch'.reliableOrder = .ordered ↔ ch.reliableOrder = .ordered) ∧
        List.Forall₂ (fun m b => H[m]? = some b) ids' delivered
  | _, _, _, [], _, h, hslices, _, hrun => by
    simp only [ReceiveChannelReliable.run, Outcome.pure_eq, Outcome.ok.injEq,
      Prod.mk.injEq] at hrun
    obtain ⟨rfl, rfl⟩ := hrun
    exact ⟨[], by simpa using h, hslices, .rfl, .nil⟩
  | _, _, _, .processMessage message messageId :: calls, _, h, hslices, hcalls, hrun => by
    obtain ⟨ch₁, hs, hrun⟩ := Outcome.bind_eq_ok.mp hrun
    obtain ⟨h₁, hslices₁, horder₁⟩ := h.processMessage (hcalls _ List.mem_cons_self) hs
    obtain ⟨ids', h', hslices', horder', hdelivered⟩ := Delivers.run h₁
      (hslices.of_slices_eq hslices₁) (fun call hc => hcalls call (List.mem_cons_of_mem _ hc)) hrun
    exact ⟨ids', h', hslices', horder'.trans horder₁, hdelivered⟩
  | _, _, _, .processSlice slice :: calls, _, h, hslices, hcalls, hrun => by
    obtain ⟨ch₁, hs, hrun⟩ := Outcome.bind_eq_ok.mp hrun
    obtain ⟨h₁, hslices₁, horder₁⟩ := h.processSlice hslices (hcalls _ List.mem_cons_self) hs
    obtain ⟨ids', h', hslices', horder', hdelivered⟩ := Delivers.run h₁ hslices₁
      (fun call hc => hcalls call (List.mem_cons_of_mem _ hc)) hrun
    exact ⟨ids', h', hslices', horder'.trans horder₁, hdelivered⟩
  | _, _, _, .receiveMessage :: calls, _, h, hslices, hcalls, hrun => by
    obtain ⟨⟨message?, ch₁⟩, hs, hrun₁⟩ := Outcome.bind_eq_ok.mp hrun
    obtain ⟨ids₁, h₁, hslices₁, horder₁, hdelivered₁⟩ :=
      h.receiveMessage (Outcome.mapErr_eq_ok.mp hs)
    dsimp only at hrun₁
    obtain ⟨⟨delivered, ch₂⟩, hrun₂, hs⟩ := Outcome.bind_eq_ok.mp hrun₁
    simp only [Outcome.pure_eq, Outcome.ok.injEq, Prod.mk.injEq] at hs
    obtain ⟨rfl, rfl⟩ := hs
    obtain ⟨ids₂, h₂, hslices₂, horder₂, hdelivered₂⟩ := Delivers.run h₁
      (hslices.of_slices_eq hslices₁) (fun call hc => hcalls call (List.mem_cons_of_mem _ hc)) hrun₂
    exact ⟨ids₁ ++ ids₂, by simpa using h₂, hslices₂, horder₂.trans horder₁,
      List.rel_append hdelivered₁ hdelivered₂⟩

/-- The messages of `H` under the ids below `n`, in order, are the first `n` messages of `H`. -/
theorem prefix_of_forall₂_range {D : List Bytes} {n : Nat}
    (h : List.Forall₂ (fun (m : Nat) (b : Bytes) => H[m]? = some b) (List.range n) D) :
    D <+: H := by
  obtain ⟨hlen, hget⟩ := List.forall₂_iff_get.mp h
  rw [List.length_range] at hlen
  rw [List.prefix_iff_eq_take]
  refine List.ext_getElem? fun i => ?_
  rw [List.getElem?_take]
  split_ifs with hi
  · have hi' : i < (List.range n).length := by rw [List.length_range, hlen]; exact hi
    have hH := hget i hi' hi
    simp only [List.get_eq_getElem, List.getElem_range] at hH
    rw [hH, List.getElem?_eq_getElem hi]
  · exact List.getElem?_eq_none (Nat.le_of_not_lt hi)

/-- From a new channel, every run whose inputs agree with the history `H` delivers, on an
ordered channel, a prefix of `H`, and on either kind the messages of `H` under distinct ids. -/
theorem run_new_delivered (H : List Bytes) (maxMemoryUsageBytes : Nat) (ordered : Bool)
    {calls : List ReceiveCall} {delivered : List Bytes} {ch : ReceiveChannelReliable}
    (hcalls : ∀ call ∈ calls, call.Honest H)
    (hrun : (new maxMemoryUsageBytes ordered).run calls = .ok (delivered, ch)) :
    (ordered = true → delivered <+: H) ∧
      ∃ ids : List Nat, ids.Nodup ∧ List.Forall₂ (fun m b => H[m]? = some b) ids delivered := by
  obtain ⟨ids, hinv, -, horder, hdelivered⟩ :=
    (delivers_new H maxMemoryUsageBytes ordered).run (slicesOf_new H maxMemoryUsageBytes ordered)
      hcalls hrun
  rw [List.nil_append] at hinv
  refine ⟨fun hord => ?_, ids, hinv.nodup, hdelivered⟩
  -- an ordered channel stays ordered, and has delivered the ids below its bound
  have hordered : ch.reliableOrder = .ordered := horder.mpr (by simp [new, hord])
  rw [hinv.range_of_ordered hordered] at hdelivered
  exact prefix_of_forall₂_range hdelivered

/-- Message `1` arrives before message `0`, which arrives twice: the ordered channel holds `1`
back, drops the repeat, and delivers both in order. -/
theorem run_new_delivered_reordered :
    ∃ ch, (new 100 true).run [.processMessage [2] 1, .receiveMessage, .processMessage [1] 0,
        .processMessage [1] 0, .receiveMessage, .receiveMessage] = .ok ([[1], [2]], ch) ∧
      (true = true → ([[1], [2]] : List Bytes) <+: [[1], [2]]) ∧
      ∃ ids : List Nat, ids.Nodup ∧
        List.Forall₂ (fun m b => ([[1], [2]] : List Bytes)[m]? = some b) ids [[1], [2]] := by
  obtain ⟨ch, hrun⟩ : ∃ ch, (new 100 true).run [.processMessage [2] 1, .receiveMessage,
      .processMessage [1] 0, .processMessage [1] 0, .receiveMessage, .receiveMessage] =
        .ok ([[1], [2]], ch) := ⟨_, rfl⟩
  exact ⟨ch, hrun, run_new_delivered [[1], [2]] 100 true (by simp [ReceiveCall.Honest]) hrun⟩

end ReceiveChannelReliable

end Renet
