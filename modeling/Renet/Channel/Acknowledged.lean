import Renet.Channel.Delivery

/-!
# What an acknowledgement stands for, on one channel

A reliable send channel forgets a message once the packets that carry it are acknowledged: a
small message at the acknowledgement of its packet (`process_message_ack`), a sliced one at the
acknowledgement of the last of its slices, each slice first setting its flag
(`process_slice_message_ack`). The protocol is safe when, by then, the receiving channel has what
was acknowledged: it refuses the message (`accepts` is false, so `process_message` stores no copy
of it again), or its constructor for the message has received the slice (`HoldsSlice`).

This file proves the two halves of that, one channel at a time. On the receiving side every call
keeps what the channel has (`Retains`); `process_message` and `process_slice` add the message or
the slice they were given. A channel that has every slice of a message refuses the message, since
a constructor that received every slice is taken out (`SlicesOf.refuses_of_holdsSlice`). On the
sending side, for any predicates `holds` and `holdsSlice` on what the peer has, every call keeps
`AcksHeld`: each message forgotten is held, each slice flag set is held. An acknowledgement keeps
it when what it acknowledges is held, and the last slice of a message when the peer, holding
every slice of it, holds the message.

## Main definitions

* `Renet.ReceiveChannelReliable.HoldsSlice`, `Renet.ReceiveChannelReliable.Retains`.
* `Renet.SendChannelReliable.AcksHeld`.

## Main results

* `Renet.ReceiveChannelReliable.retains_processMessage`,
  `Renet.ReceiveChannelReliable.Delivers.retains_processSlice`,
  `Renet.ReceiveChannelReliable.retains_receiveMessage`.
* `Renet.ReceiveChannelReliable.SlicesOf.refuses_of_holdsSlice`.
* `Renet.SendChannelReliable.AcksHeld.processMessageAck`,
  `Renet.SendChannelReliable.AcksHeld.processSliceMessageAck`,
  `Renet.SendChannelReliable.AcksHeld.sendMessage`, `Renet.SendChannelReliable.AcksHeld.resent`.
-/

namespace Renet

/-- A message of at least one byte has at least one slice. -/
theorem divCeil_sliceSize_pos {len : Nat} (h : 0 < len) : 0 < divCeil len sliceSize := by
  unfold divCeil sliceSize
  omega

/-! ### What a receive channel has -/

namespace ReceiveChannelReliable

/-- The channel has slice `sliceIndex` of message `messageId`: it refuses the message, or the
constructor of the message has received the slice. -/
def HoldsSlice (ch : ReceiveChannelReliable) (messageId sliceIndex : Nat) : Prop :=
  ch.accepts messageId = false ∨
    ∃ sc, ch.slices.find? messageId = some sc ∧ sc.Received sliceIndex

/-- `ch'` refuses every message `ch` refuses and has every slice `ch` has. -/
structure Retains (ch ch' : ReceiveChannelReliable) : Prop where
  refuses : ∀ {m}, ch.accepts m = false → ch'.accepts m = false
  holdsSlice : ∀ {m i}, ch.HoldsSlice m i → ch'.HoldsSlice m i

variable {H : List Bytes} {ids : List Nat} {ch ch' ch'' : ReceiveChannelReliable}

theorem Retains.refl (ch : ReceiveChannelReliable) : ch.Retains ch := ⟨id, id⟩

theorem Retains.trans (h : ch.Retains ch') (h' : ch'.Retains ch'') : ch.Retains ch'' :=
  ⟨fun hm => h'.refuses (h.refuses hm), fun hm => h'.holdsSlice (h.holdsSlice hm)⟩

/-- The same constructors, and every refused id refused still. -/
theorem retains_of_slices_eq (hslices : ch'.slices = ch.slices)
    (hrefuses : ∀ {m}, ch.accepts m = false → ch'.accepts m = false) : ch.Retains ch' where
  refuses := hrefuses
  holdsSlice {m i} hm := by
    rcases hm with hrefused | ⟨sc, hfind, hi⟩
    · exact .inl (hrefuses hrefused)
    · exact .inr ⟨sc, by rw [hslices]; exact hfind, hi⟩

/-- `process_message` keeps what the channel has, and refuses the id it was given. -/
theorem retains_processMessage {message : Bytes} {messageId : Nat}
    (hs : ch.processMessage message messageId = .ok ch') :
    ch.Retains ch' ∧ ch'.accepts messageId = false := by
  obtain ⟨hslices, -, -, ⟨hrefused, -, hacc⟩ | ⟨-, -, hacc⟩⟩ := processMessage_eq_ok hs
  · exact ⟨retains_of_slices_eq hslices fun hm => (hacc _).trans hm, (hacc _).trans hrefused⟩
  · -- the stored id joins the refused ones, and no refused id is accepted
    refine ⟨retains_of_slices_eq hslices fun {m} hm => ?_, ?_⟩
    · exact Bool.eq_false_iff.mpr fun hm' => by rw [((hacc m).mp hm').1] at hm; cases hm
    · exact Bool.eq_false_iff.mpr fun hm' => ((hacc messageId).mp hm').2 rfl

/-- A loop each of whose steps keeps what the channel has and refuses the id of its entry, as
`process_packet` runs `process_message` over the messages of a `SmallReliable` packet. -/
theorem retains_foldlM {ε : Type} {f : ReceiveChannelReliable → Nat × Bytes →
      Outcome ε ReceiveChannelReliable}
    (hf : ∀ {ch e ch'}, f ch e = .ok ch' → ch.Retains ch' ∧ ch'.accepts e.1 = false) :
    ∀ {messages : List (Nat × Bytes)} {ch ch'}, messages.foldlM f ch = .ok ch' →
      ch.Retains ch' ∧ ∀ e ∈ messages, ch'.accepts e.1 = false
  | [], ch, ch', hs => by
    cases hs
    exact ⟨.refl ch, by simp⟩
  | e :: messages, ch, ch', hs => by
    rw [List.foldlM_cons] at hs
    obtain ⟨ch₁, hs₁, hs⟩ := Outcome.bind_eq_ok.mp hs
    obtain ⟨hret₁, hrefused⟩ := hf hs₁
    obtain ⟨hret, hall⟩ := retains_foldlM hf hs
    refine ⟨hret₁.trans hret, fun e' he' => ?_⟩
    rcases List.mem_cons.mp he' with rfl | he'
    · exact hret.refuses hrefused
    · exact hall e' he'

/-- A slice taken into the constructor of its id, held or new, keeps what the channel has and
is held. -/
theorem retains_insertSlice (memoryUsageBytes : Nat) {messageId numSlices sliceIndex : Nat}
    {bytes : Bytes} {result : Option Bytes} {sc : SliceConstructor}
    (hproc : ((ch.slices.find? messageId).getD
      (SliceConstructor.new messageId numSlices)).processSlice sliceIndex bytes = .ok (result, sc)) :
    ch.Retains { ch with memoryUsageBytes, slices := ch.slices.insert messageId sc } ∧
      ({ ch with memoryUsageBytes, slices := ch.slices.insert messageId sc } :
        ReceiveChannelReliable).HoldsSlice messageId sliceIndex := by
  obtain ⟨hnew, hold⟩ := SliceConstructor.processSlice_received hproc
  refine ⟨⟨id, fun {m i} hm => ?_⟩, .inr ⟨sc, by simp, hnew⟩⟩
  rcases hm with hrefused | ⟨sc₀, hfind, hi⟩
  · exact .inl hrefused
  · right
    by_cases hid : m = messageId
    · subst hid
      exact ⟨sc, by simp, hold i (by simpa [hfind] using hi)⟩
    · exact ⟨sc₀, by rw [OrdMap.find?_insert, if_neg hid]; exact hfind, hi⟩

/-- Taking out the constructor of a refused id keeps what the channel has. -/
theorem retains_eraseSlice {messageId : Nat} (h : ch.accepts messageId = false) :
    ch.Retains { ch with slices := ch.slices.erase messageId } := by
  refine ⟨id, fun {m i} hm => ?_⟩
  by_cases hid : m = messageId
  · subst hid
    exact .inl h
  · rcases hm with hrefused | ⟨sc, hfind, hi⟩
    · exact .inl hrefused
    · exact .inr ⟨sc, by rw [OrdMap.find?_erase, if_neg hid]; exact hfind, hi⟩

/-- `process_slice` keeps what the channel has, and then holds the slice it was given: a dropped
slice is of a message the channel refuses (a buffered message is refused by the invariant of
delivery), a taken one is in its constructor, and a completed message is processed before its
constructor goes. -/
theorem Delivers.retains_processSlice (h : ch.Delivers H ids) {slice : Slice}
    (hs : ch.processSlice slice = .ok ch') :
    ch.Retains ch' ∧ ch'.HoldsSlice slice.messageId slice.sliceIndex := by
  rcases processSlice_eq_ok hs with ⟨hskip, rfl⟩ | ⟨memoryUsageBytes, sc, hproc, rfl⟩ |
    ⟨memoryUsageBytes, message, sc, ch₂, hproc, hproc₂, rfl⟩
  · refine ⟨.refl _, .inl ?_⟩
    rcases hskip with hheld | hold
    · obtain ⟨b, hfind⟩ := OrdMap.contains_iff.mp hheld
      exact h.accepts_buffered hfind
    · simp [accepts, Nat.not_le.mpr hold]
  · exact retains_insertSlice memoryUsageBytes hproc
  · obtain ⟨hret₁, -⟩ := retains_insertSlice memoryUsageBytes hproc
    obtain ⟨hret₂, hrefused⟩ := retains_processMessage hproc₂
    exact ⟨(hret₁.trans hret₂).trans (retains_eraseSlice hrefused), .inl hrefused⟩

/-- `receive_message` keeps what the channel has. -/
theorem retains_receiveMessage {message? : Option Bytes}
    (hs : ch.receiveMessage = .ok (message?, ch')) : ch.Retains ch' := by
  obtain ⟨hslices, hrefuses⟩ := receiveMessage_refuses hs
  exact retains_of_slices_eq hslices hrefuses

/-- A channel with every slice of a message of `H` refuses the message: were it accepted, its
constructor would have received every slice, and a constructor that has is taken out. -/
theorem SlicesOf.refuses_of_holdsSlice (h : ch.SlicesOf H) {messageId : Nat} {message : Bytes}
    (hm : H[messageId]? = some message) (hlen : 0 < message.length)
    (hall : ∀ j < divCeil message.length sliceSize, ch.HoldsSlice messageId j) :
    ch.accepts messageId = false := by
  cases haccepts : ch.accepts messageId with
  | false => rfl
  | true =>
    -- the first slice is in a constructor, and the constructor misses a slice
    rcases hall 0 (divCeil_sliceSize_pos hlen) with hrefused | ⟨sc, hfind, -⟩
    · rw [haccepts] at hrefused
      cases hrefused
    obtain ⟨message', hm', -, hsc, j, hj, hmissing⟩ := h hfind
    rw [hm, Option.some.injEq] at hm'
    subst hm'
    rcases hall j (hsc.numSlices_eq ▸ hj) with hrefused | ⟨sc', hfind', hreceived⟩
    · rw [haccepts] at hrefused
      cases hrefused
    · rw [hfind, Option.some.injEq] at hfind'
      subst hfind'
      exact absurd hreceived hmissing

end ReceiveChannelReliable

/-! ### What a send channel counts as acknowledged -/

/-- A list of flags one short of all set, with flag `i` clear, has every other flag set. -/
theorem getElem?_eq_true_of_count {l : List Bool} {i j : Nat}
    (hcount : l.count true + 1 = l.length) (hi : l[i]? = some false) (hji : j ≠ i)
    (hj : j < l.length) : l[j]? = some true := by
  have hall : (l.set i true).count true = (l.set i true).length := by
    rw [count_true_set_of_getElem? hi, List.length_set, hcount]
  have hmem : l[j] ∈ l.set i true :=
    List.mem_iff_getElem?.mpr ⟨j, by rw [List.getElem?_set_ne (Ne.symm hji),
      List.getElem?_eq_getElem hj]⟩
  have htrue := List.count_eq_length.mp hall _ hmem
  rw [List.getElem?_eq_getElem hj, ← htrue]

namespace SendChannelReliable

/-- Every message the channel gave out and forgot is one the peer holds (`holds`), and every
slice flag it set is of a slice the peer holds (`holdsSlice`). -/
structure AcksHeld (holds : Nat → Prop) (holdsSlice : Nat → Nat → Prop)
    (ch : SendChannelReliable) : Prop where
  holds_of_forgotten : ∀ {messageId}, messageId < ch.nextReliableMessageId →
    ch.unackedMessages.find? messageId = none → holds messageId
  holdsSlice_of_acked : ∀ {messageId message numSlices numAckedSlices nextSliceToSend acked
      lastSent sliceIndex}, ch.unackedMessages.find? messageId =
      some (.sliced message numSlices numAckedSlices nextSliceToSend acked lastSent) →
    acked[sliceIndex]? = some true → holdsSlice messageId sliceIndex

variable {holds holds' : Nat → Prop} {holdsSlice holdsSlice' : Nat → Nat → Prop}
  {ch ch' : SendChannelReliable}

/-- A channel that follows the empty history has given out no id and keeps no message. -/
theorem acksHeld_of_follows_nil (h : ch.Follows []) : ch.AcksHeld holds holdsSlice where
  holds_of_forgotten {m} hlt _ := by
    have hnext := h.next_eq
    rw [List.length_nil] at hnext
    omega
  holdsSlice_of_acked hfind _ := by simpa using h.getElem?_eq hfind

/-- What the peer holds may grow. -/
theorem AcksHeld.mono (h : ch.AcksHeld holds holdsSlice) (hh : ∀ {m}, holds m → holds' m)
    (hs : ∀ {m i}, holdsSlice m i → holdsSlice' m i) : ch.AcksHeld holds' holdsSlice' :=
  ⟨fun hlt hnone => hh (h.holds_of_forgotten hlt hnone),
    fun hfind hacked => hs (h.holdsSlice_of_acked hfind hacked)⟩

/-- Forgetting a message the peer holds. -/
theorem AcksHeld.erase (h : ch.AcksHeld holds holdsSlice) {messageId : Nat}
    (hm : holds messageId) (memoryUsageBytes : Nat) :
    ({ ch with memoryUsageBytes, unackedMessages := ch.unackedMessages.erase messageId } :
      SendChannelReliable).AcksHeld holds holdsSlice := by
  constructor
  · intro m hlt hnone
    by_cases hid : m = messageId
    · exact hid ▸ hm
    · rw [OrdMap.find?_erase, if_neg hid] at hnone
      exact h.holds_of_forgotten hlt hnone
  · intro m message numSlices numAckedSlices nextSliceToSend acked lastSent sliceIndex hfind
      hacked
    rw [OrdMap.find?_erase] at hfind
    split_ifs at hfind
    exact h.holdsSlice_of_acked hfind hacked

/-- A message accepted under the next id is not forgotten, and its flags are clear. -/
theorem AcksHeld.sendMessage (h : ch.AcksHeld holds holdsSlice) {message : Bytes}
    (hs : ch.sendMessage message = .ok ch') : ch'.AcksHeld holds holdsSlice := by
  obtain ⟨total, -, hs⟩ := Outcome.bind_eq_ok.mp hs
  by_cases hmax : total > ch.maxMemoryUsageBytes
  · rw [if_pos hmax] at hs
    cases hs
  rw [if_neg hmax] at hs
  simp only [Outcome.pure_eq, Outcome.ok.injEq] at hs
  subst hs
  constructor
  · intro m hlt hnone
    rw [OrdMap.find?_insert] at hnone
    split_ifs at hnone with hid
    exact h.holds_of_forgotten (Nat.lt_of_le_of_ne (Nat.le_of_lt_succ hlt) hid) hnone
  · intro m message' numSlices numAckedSlices nextSliceToSend acked lastSent sliceIndex hfind
      hacked
    rw [OrdMap.find?_insert] at hfind
    split_ifs at hfind with hid hlen
    · -- the new sliced message has every flag clear
      simp only [UnackedMessage.newSliced, Option.some.injEq, UnackedMessage.sliced.injEq] at hfind
      obtain ⟨-, -, -, -, rfl, -⟩ := hfind
      simp [List.getElem?_replicate] at hacked
    · simp at hfind
    · exact h.holdsSlice_of_acked hfind hacked

/-- An acknowledgement of a message the peer holds: a small message forgotten is held. -/
theorem AcksHeld.processMessageAck (h : ch.AcksHeld holds holdsSlice) {messageId : Nat}
    (hm : holds messageId) (hs : ch.processMessageAck messageId = .ok ch') :
    ch'.AcksHeld holds holdsSlice := by
  unfold SendChannelReliable.processMessageAck at hs
  split at hs
  · exact Outcome.ok.inj hs ▸ h
  · cases hs
  · obtain ⟨memoryUsageBytes, -, hs⟩ := Outcome.bind_eq_ok.mp hs
    cases hs
    exact h.erase hm memoryUsageBytes

/-- An acknowledgement of a slice the peer holds, given that the peer, holding every slice of
the message of the history, holds the message: at the last flag the message is forgotten, and
every other flag is set by then. -/
theorem AcksHeld.processSliceMessageAck (h : ch.AcksHeld holds holdsSlice) (hwf : ch.WF)
    {history : List Bytes} (hfollows : ch.Follows history) {messageId sliceIndex : Nat}
    (hi : holdsSlice messageId sliceIndex)
    (hcomplete : ∀ {message}, history[messageId]? = some message → sliceSize < message.length →
      (∀ j < divCeil message.length sliceSize, holdsSlice messageId j) → holds messageId)
    (hs : ch.processSliceMessageAck messageId sliceIndex = .ok ch') :
    ch'.AcksHeld holds holdsSlice := by
  unfold SendChannelReliable.processSliceMessageAck at hs
  split at hs
  · exact Outcome.ok.inj hs ▸ h
  · cases hs
  · next message numSlices numAckedSlices nextSliceToSend acked lastSent hfind =>
    obtain ⟨isAcked, hacked, hs⟩ := Outcome.bind_eq_ok.mp hs
    rw [Outcome.ofOption_eq_ok] at hacked
    split_ifs at hs with hset hlast
    · exact Outcome.ok.inj hs ▸ h
    · -- the last flag: the peer holds every slice, so it holds the message
      obtain ⟨memoryUsageBytes, -, hs⟩ := Outcome.bind_eq_ok.mp hs
      cases hs
      obtain ⟨hnum, htwo, hlen, -, hcount, -⟩ := hwf.wf_of_find? hfind
      have hmessage : history[messageId]? = some message := hfollows.getElem?_eq hfind
      have hclear : acked[sliceIndex]? = some false := by
        rw [hacked, Option.some.injEq]
        simpa using hset
      refine h.erase (hcomplete hmessage
        (UnackedMessage.lt_of_two_le_divCeil (hnum ▸ htwo)) fun j hj => ?_) memoryUsageBytes
      by_cases hji : j = sliceIndex
      · exact hji ▸ hi
      · exact h.holdsSlice_of_acked hfind
          (getElem?_eq_true_of_count (by omega) hclear hji (by omega))
    · -- one more flag: the one of a held slice
      cases hs
      constructor
      · intro m hlt hnone
        rw [OrdMap.find?_insert] at hnone
        split_ifs at hnone
        exact h.holds_of_forgotten hlt hnone
      · intro m message' numSlices' numAckedSlices' nextSliceToSend' acked' lastSent' j hfind'
          hacked'
        rw [OrdMap.find?_insert] at hfind'
        split_ifs at hfind' with hid
        · simp only [Option.some.injEq, UnackedMessage.sliced.injEq] at hfind'
          obtain ⟨-, -, -, -, rfl, -⟩ := hfind'
          subst hid
          by_cases hji : j = sliceIndex
          · exact hji ▸ hi
          · rw [List.getElem?_set_ne (Ne.symm hji)] at hacked'
            exact h.holdsSlice_of_acked hfind hacked'
        · exact h.holdsSlice_of_acked hfind' hacked'

/-- A pass of `get_packets_to_send` only resends: the same ids, kinds and flags. -/
theorem AcksHeld.resent (h : ch.AcksHeld holds holdsSlice)
    {unackedMessages : OrdMap Nat UnackedMessage}
    (hp : OrdMap.Pointwise (fun _ m m' => m.Resent m') ch.unackedMessages unackedMessages) :
    ({ ch with unackedMessages } : SendChannelReliable).AcksHeld holds holdsSlice := by
  constructor
  · intro m hlt hnone
    exact h.holds_of_forgotten hlt (hp.find?_eq_none hnone)
  · intro m message numSlices numAckedSlices nextSliceToSend acked lastSent i hfind hacked
    obtain ⟨m₀, hfind₀, hresent⟩ := hp.exists_of_find? hfind
    cases m₀ with
    | small => simp [UnackedMessage.Resent] at hresent
    | sliced message₀ numSlices₀ numAckedSlices₀ nextSliceToSend₀ acked₀ lastSent₀ =>
      obtain ⟨-, -, -, rfl, -⟩ := hresent
      exact h.holdsSlice_of_acked hfind₀ hacked

end SendChannelReliable

end Renet
