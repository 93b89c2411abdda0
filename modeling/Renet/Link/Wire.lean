import Renet.PacketCodec

/-!
# What a written packet reads back as

`get_packets_to_send` writes every packet into a buffer of `packetBufferSize` bytes and sends
the bytes written; the peer reads a datagram with `from_bytes`. A write that returns `Ok` has
done what `to_bytes` checks on the way: every varint below `2 ^ 62`, and room in the buffer for
each write. From that success alone the written bytes are the packet's `encoding`
(`Packet.toBytes_eq_ok`), which starts with the byte `from_bytes` matches on
(`Packet.fromBytes_typeByte`).

`Packet.WF` asks for more than a successful write: at most `65535` small messages, which a
buffer of `packetBufferSize` bytes cannot exceed, and a `num_slices` the reader accepts, which
the writer does not check. A reliable packet that was written is therefore read back as itself
or not at all (`Packet.fromBytes_written_smallReliable`, `Packet.fromBytes_written_reliableSlice`).

## Main results

* `Packet.toBytes_eq_ok`: a successful write appends the packet's encoding.
* `Packet.fromBytes_typeByte`: a read packet has the type of the datagram's first byte.
-/

namespace Renet

namespace OctetsMut

variable {b b' : OctetsMut}

theorem putBytes_eq_ok_push {bs : Bytes} (h : b.putBytes bs = .ok b') :
    bs.length ≤ b.cap ∧ b' = b.push bs := by
  unfold putBytes at h
  split at h
  · exact ⟨‹_›, (Outcome.ok.inj h).symm⟩
  · cases h

theorem putVarint_eq_ok {O : Octets} {v : Nat} (h : b.putVarint O v = .ok b') :
    v < 2 ^ 62 ∧ (O.varintBytes v).length ≤ b.cap ∧ b' = b.push (O.varintBytes v) := by
  by_cases hv : v < 2 ^ 62
  · rw [putVarint_of_lt hv] at h
    exact ⟨hv, putBytes_eq_ok_push h⟩
  · rw [putVarint_of_ge (Nat.le_of_not_lt hv)] at h
    cases h

end OctetsMut

namespace Packet

open OctetsMut

/-- The byte `to_bytes` writes first and `from_bytes` matches on. -/
def typeByte : Packet → UInt8
  | smallReliable .. => 0
  | smallUnreliable .. => 1
  | reliableSlice .. => 2
  | unreliableSlice .. => 3
  | ack .. => 4

/-- What `to_bytes` checks on its way to `Ok`: the fields it writes as varints are below
`2 ^ 62`, and an `Ack` has a last range. -/
def WriteChecked : Packet → Prop
  | smallReliable sequence _ messages =>
    sequence < 2 ^ 62 ∧ ∀ m ∈ messages, m.1 < 2 ^ 62 ∧ m.2.length < 2 ^ 62
  | smallUnreliable sequence _ messages => sequence < 2 ^ 62 ∧ ∀ m ∈ messages, m.length < 2 ^ 62
  | reliableSlice sequence _ slice | unreliableSlice sequence _ slice =>
    sequence < 2 ^ 62 ∧ slice.messageId < 2 ^ 62 ∧ slice.sliceIndex < 2 ^ 62 ∧
      slice.numSlices < 2 ^ 62 ∧ slice.payload.length < 2 ^ 62
  | ack sequence ackRanges => sequence < 2 ^ 62 ∧ ackRanges ≠ []

theorem lift_eq_ok {α : Type} {x : Outcome BufferTooShortError α} {a : α} (h : lift x = .ok a) :
    x = .ok a :=
  Outcome.mapErr_eq_ok.mp h

/-! ### A write that succeeds -/

variable {O : Octets} {b b' : OctetsMut}

theorem putReliableMessages_eq_ok : ∀ {messages : List (Nat × Bytes)} {b b' : OctetsMut},
    putReliableMessages O b messages = .ok b' →
      (∀ m ∈ messages, m.1 < 2 ^ 62 ∧ m.2.length < 2 ^ 62) ∧
        (reliableMessagesBytes O messages).length ≤ b.cap ∧
          b' = b.push (reliableMessagesBytes O messages)
  | [], b, b', h => by
    cases h
    simp [reliableMessagesBytes]
  | (messageId, message) :: rest, b, b', h => by
    obtain ⟨b₁, h₁, h⟩ := Outcome.bind_eq_ok.mp h
    obtain ⟨b₂, h₂, h⟩ := Outcome.bind_eq_ok.mp h
    obtain ⟨b₃, h₃, h⟩ := Outcome.bind_eq_ok.mp h
    obtain ⟨hid, hcap₁, rfl⟩ := putVarint_eq_ok (lift_eq_ok h₁)
    obtain ⟨hlen, hcap₂, rfl⟩ := putVarint_eq_ok (lift_eq_ok h₂)
    obtain ⟨hcap₃, rfl⟩ := putBytes_eq_ok_push (lift_eq_ok h₃)
    obtain ⟨hrest, hcap, rfl⟩ := putReliableMessages_eq_ok h
    refine ⟨?_, ?_, ?_⟩
    · intro m hm
      rcases List.mem_cons.mp hm with rfl | hm
      · exact ⟨hid, hlen⟩
      · exact hrest m hm
    · simp only [cap_push] at hcap₂ hcap₃ hcap
      simp only [reliableMessagesBytes, List.length_append]
      omega
    · simp only [push_push, reliableMessagesBytes, List.append_assoc]

theorem putUnreliableMessages_eq_ok : ∀ {messages : List Bytes} {b b' : OctetsMut},
    putUnreliableMessages O b messages = .ok b' →
      (∀ m ∈ messages, m.length < 2 ^ 62) ∧
        (unreliableMessagesBytes O messages).length ≤ b.cap ∧
          b' = b.push (unreliableMessagesBytes O messages)
  | [], b, b', h => by
    cases h
    simp [unreliableMessagesBytes]
  | message :: rest, b, b', h => by
    obtain ⟨b₁, h₁, h⟩ := Outcome.bind_eq_ok.mp h
    obtain ⟨b₂, h₂, h⟩ := Outcome.bind_eq_ok.mp h
    obtain ⟨hlen, hcap₁, rfl⟩ := putVarint_eq_ok (lift_eq_ok h₁)
    obtain ⟨hcap₂, rfl⟩ := putBytes_eq_ok_push (lift_eq_ok h₂)
    obtain ⟨hrest, hcap, rfl⟩ := putUnreliableMessages_eq_ok h
    refine ⟨?_, ?_, ?_⟩
    · intro m hm
      rcases List.mem_cons.mp hm with rfl | hm
      · exact hlen
      · exact hrest m hm
    · simp only [cap_push] at hcap₂ hcap
      simp only [unreliableMessagesBytes, List.length_append]
      omega
    · simp only [push_push, unreliableMessagesBytes, List.append_assoc]

theorem putSlice_eq_ok {s : Slice} (h : putSlice O b s = .ok b') :
    (s.messageId < 2 ^ 62 ∧ s.sliceIndex < 2 ^ 62 ∧ s.numSlices < 2 ^ 62 ∧
      s.payload.length < 2 ^ 62) ∧ (sliceBytes O s).length ≤ b.cap ∧
        b' = b.push (sliceBytes O s) := by
  obtain ⟨b₁, h₁, h⟩ := Outcome.bind_eq_ok.mp h
  obtain ⟨b₂, h₂, h⟩ := Outcome.bind_eq_ok.mp h
  obtain ⟨b₃, h₃, h⟩ := Outcome.bind_eq_ok.mp h
  obtain ⟨b₄, h₄, h⟩ := Outcome.bind_eq_ok.mp h
  obtain ⟨hid, hcap₁, rfl⟩ := putVarint_eq_ok (lift_eq_ok h₁)
  obtain ⟨hindex, hcap₂, rfl⟩ := putVarint_eq_ok (lift_eq_ok h₂)
  obtain ⟨hnum, hcap₃, rfl⟩ := putVarint_eq_ok (lift_eq_ok h₃)
  obtain ⟨hlen, hcap₄, rfl⟩ := putVarint_eq_ok (lift_eq_ok h₄)
  obtain ⟨hcap₅, rfl⟩ := putBytes_eq_ok_push (lift_eq_ok h)
  refine ⟨⟨hid, hindex, hnum, hlen⟩, ?_, ?_⟩
  · simp only [cap_push] at hcap₂ hcap₃ hcap₄ hcap₅
    simp only [sliceBytes, List.length_append]
    omega
  · simp only [push_push, sliceBytes, List.append_assoc]

theorem putAckRanges_eq_ok : ∀ {previousRangeStart : Nat} {ranges : List Span} {b b' : OctetsMut},
    putAckRanges O b previousRangeStart ranges = .ok b' →
      (ackRangesBytes O previousRangeStart ranges).length ≤ b.cap ∧
        b' = b.push (ackRangesBytes O previousRangeStart ranges)
  | _, [], b, b', h => by
    cases h
    simp [ackRangesBytes]
  | previousRangeStart, range :: rest, b, b', h => by
    obtain ⟨gap, hgap, h⟩ := Outcome.bind_eq_ok.mp h
    obtain ⟨rangeSize, hsize, h⟩ := Outcome.bind_eq_ok.mp h
    obtain ⟨b₁, h₁, h⟩ := Outcome.bind_eq_ok.mp h
    obtain ⟨b₂, h₂, h⟩ := Outcome.bind_eq_ok.mp h
    -- the checked subtractions that returned are the truncated ones of the encoding
    obtain ⟨d, hd, hgap⟩ := Outcome.bind_eq_ok.mp hgap
    obtain ⟨-, rfl⟩ := Outcome.checkedSub_eq_ok hd
    obtain ⟨-, rfl⟩ := Outcome.checkedSub_eq_ok hgap
    obtain ⟨d, hd, hsize⟩ := Outcome.bind_eq_ok.mp hsize
    obtain ⟨-, rfl⟩ := Outcome.checkedSub_eq_ok hd
    obtain ⟨-, rfl⟩ := Outcome.checkedSub_eq_ok hsize
    obtain ⟨-, hcap₁, rfl⟩ := putVarint_eq_ok (lift_eq_ok h₁)
    obtain ⟨-, hcap₂, rfl⟩ := putVarint_eq_ok (lift_eq_ok h₂)
    obtain ⟨hcap, rfl⟩ := putAckRanges_eq_ok h
    refine ⟨?_, ?_⟩
    · simp only [cap_push] at hcap₂ hcap
      simp only [ackRangesBytes, List.length_append]
      omega
    · simp only [push_push, ackRangesBytes, List.append_assoc]

/-- The type byte and the sequence that every packet starts with. -/
theorem header_eq_ok {typeByte : UInt8} {sequence : Nat}
    {k : OctetsMut → Outcome SerializationError OctetsMut}
    (h : (do
      let b ← lift (b.putU8 typeByte)
      let b ← lift (b.putVarint O sequence)
      k b) = .ok b') :
    sequence < 2 ^ 62 ∧ 1 + (O.varintBytes sequence).length ≤ b.cap ∧
      k (b.push ([typeByte] ++ O.varintBytes sequence)) = .ok b' := by
  obtain ⟨b₁, h₁, h⟩ := Outcome.bind_eq_ok.mp h
  obtain ⟨b₂, h₂, h⟩ := Outcome.bind_eq_ok.mp h
  obtain ⟨hcap₁, rfl⟩ := putBytes_eq_ok_push (lift_eq_ok h₁)
  obtain ⟨hseq, hcap₂, rfl⟩ := putVarint_eq_ok (lift_eq_ok h₂)
  simp only [cap_push, List.length_singleton] at hcap₁ hcap₂
  exact ⟨hseq, by omega, by rwa [push_push] at h⟩

/-- A write that returns has checked the packet and appended exactly its encoding. -/
theorem toBytes_eq_ok {p : Packet} (h : p.toBytes O b = .ok b') :
    p.WriteChecked ∧ (p.encoding O).length ≤ b.cap ∧ b' = b.push (p.encoding O) := by
  cases p with
  | smallReliable sequence channelId messages =>
    obtain ⟨hseq, hcap₁, h⟩ := header_eq_ok h
    obtain ⟨b₃, h₃, h⟩ := Outcome.bind_eq_ok.mp h
    obtain ⟨b₄, h₄, h⟩ := Outcome.bind_eq_ok.mp h
    obtain ⟨hcap₃, rfl⟩ := putBytes_eq_ok_push (lift_eq_ok h₃)
    obtain ⟨hcap₄, rfl⟩ := putBytes_eq_ok_push (lift_eq_ok h₄)
    obtain ⟨hm, hcap₅, rfl⟩ := putReliableMessages_eq_ok h
    refine ⟨⟨hseq, hm⟩, ?_, by simp only [push_push, encoding, List.append_assoc]⟩
    simp only [cap_push, List.length_append, List.length_singleton] at hcap₃ hcap₄ hcap₅
    simp only [encoding, List.length_append, List.length_singleton]
    omega
  | smallUnreliable sequence channelId messages =>
    obtain ⟨hseq, hcap₁, h⟩ := header_eq_ok h
    obtain ⟨b₃, h₃, h⟩ := Outcome.bind_eq_ok.mp h
    obtain ⟨b₄, h₄, h⟩ := Outcome.bind_eq_ok.mp h
    obtain ⟨hcap₃, rfl⟩ := putBytes_eq_ok_push (lift_eq_ok h₃)
    obtain ⟨hcap₄, rfl⟩ := putBytes_eq_ok_push (lift_eq_ok h₄)
    obtain ⟨hm, hcap₅, rfl⟩ := putUnreliableMessages_eq_ok h
    refine ⟨⟨hseq, hm⟩, ?_, by simp only [push_push, encoding, List.append_assoc]⟩
    simp only [cap_push, List.length_append, List.length_singleton] at hcap₃ hcap₄ hcap₅
    simp only [encoding, List.length_append, List.length_singleton]
    omega
  | reliableSlice sequence channelId slice | unreliableSlice sequence channelId slice =>
    obtain ⟨hseq, hcap₁, h⟩ := header_eq_ok h
    obtain ⟨b₃, h₃, h⟩ := Outcome.bind_eq_ok.mp h
    obtain ⟨hcap₃, rfl⟩ := putBytes_eq_ok_push (lift_eq_ok h₃)
    obtain ⟨hs, hcap₄, rfl⟩ := putSlice_eq_ok h
    refine ⟨⟨hseq, hs⟩, ?_, by simp only [push_push, encoding, List.append_assoc]⟩
    simp only [cap_push, List.length_append, List.length_singleton] at hcap₃ hcap₄
    simp only [encoding, List.length_append, List.length_singleton]
    omega
  | ack sequence ackRanges =>
    obtain ⟨hseq, hcap₁, h⟩ := header_eq_ok h
    -- `to_bytes` unwraps the last range
    cases hrev : ackRanges.reverse with
    | nil =>
      simp only [hrev] at h
      cases h
    | cons last it =>
      simp only [hrev] at h
      obtain ⟨lastEnd, hend, h⟩ := Outcome.bind_eq_ok.mp h
      obtain ⟨lastRangeSize, hsize, h⟩ := Outcome.bind_eq_ok.mp h
      obtain ⟨-, rfl⟩ := Outcome.checkedSub_eq_ok hend
      obtain ⟨-, rfl⟩ := Outcome.checkedSub_eq_ok hsize
      obtain ⟨b₃, h₃, h⟩ := Outcome.bind_eq_ok.mp h
      obtain ⟨b₄, h₄, h⟩ := Outcome.bind_eq_ok.mp h
      obtain ⟨b₅, h₅, h⟩ := Outcome.bind_eq_ok.mp h
      obtain ⟨-, hcap₃, rfl⟩ := putVarint_eq_ok (lift_eq_ok h₃)
      obtain ⟨-, hcap₄, rfl⟩ := putVarint_eq_ok (lift_eq_ok h₄)
      obtain ⟨-, hcap₅, rfl⟩ := putVarint_eq_ok (lift_eq_ok h₅)
      obtain ⟨hcap₆, rfl⟩ := putAckRanges_eq_ok h
      have hne : ackRanges ≠ [] := fun hnil => by simp [hnil] at hrev
      refine ⟨⟨hseq, hne⟩, ?_, by simp only [push_push, encoding, hrev, List.append_assoc]⟩
      simp only [cap_push, List.length_append, List.length_singleton] at hcap₃ hcap₄ hcap₅ hcap₆
      simp only [encoding, hrev, List.length_append, List.length_singleton]
      omega

/-- The bytes written into a fresh buffer start with the packet's type byte. -/
theorem toBytes_written_head? {p : Packet} {n : Nat}
    (h : p.toBytes O (OctetsMut.withCapacity n) = .ok b) : b.written.head? = some p.typeByte := by
  obtain ⟨hchecked, -, rfl⟩ := toBytes_eq_ok h
  cases p with
  | ack sequence ackRanges =>
    obtain ⟨last, it, hrev⟩ : ∃ last it, ackRanges.reverse = last :: it :=
      List.exists_cons_of_ne_nil (by simpa using hchecked.2)
    simp [OctetsMut.withCapacity, encoding, hrev, typeByte]
  | _ => simp [OctetsMut.withCapacity, encoding, typeByte]

/-- `from_bytes` returns a packet of the type its first byte names. -/
theorem fromBytes_typeByte {bs rest : Bytes} {p : Packet} (h : fromBytes O bs = .ok (p, rest)) :
    bs.head? = some p.typeByte := by
  obtain ⟨⟨packetType, b₁⟩, hget, hk⟩ := Outcome.bind_eq_ok.mp h
  obtain rfl : bs = packetType :: b₁ := by
    cases bs with
    | nil => cases hget
    | cons x xs =>
      cases hget
      rfl
  dsimp only at hk
  rw [List.head?_cons, Option.some.injEq]
  -- each branch of the match on the type byte builds its own kind of packet
  split at hk
  all_goals try simp only [Outcome.bind_eq_ok, Prod.exists, Outcome.pure_eq, ite_eq_iff,
    reduceCtorEq, and_false, false_or, Outcome.ok.injEq, Prod.mk.injEq] at hk
  next heq =>
    obtain ⟨-, -, -, -, -, -, -, -, -, -, -, -, rfl, -⟩ := hk
    exact UInt8.toNat_inj.mp heq
  next heq =>
    obtain ⟨-, -, -, -, -, -, -, -, -, -, -, -, rfl, -⟩ := hk
    exact UInt8.toNat_inj.mp heq
  next heq =>
    obtain ⟨-, -, -, -, -, -, -, -, -, -, -, rfl, -⟩ := hk
    exact UInt8.toNat_inj.mp heq
  next heq =>
    obtain ⟨-, -, -, -, -, -, -, -, -, rfl, -⟩ := hk
    exact UInt8.toNat_inj.mp heq
  next heq =>
    obtain ⟨-, -, -, -, -, -, -, -, -, -, -, -, -, -, -, -, rfl, -⟩ := hk
    exact UInt8.toNat_inj.mp heq

/-- `from_bytes` reads the type byte, then the sequence: a read packet has the type of the
datagram's first byte and the sequence of the varint after it. -/
theorem fromBytes_header {bs rest : Bytes} {p : Packet} (h : fromBytes O bs = .ok (p, rest)) :
    ∃ b b', bs = p.typeByte :: b ∧ O.getVarint b = some (p.sequence, b') := by
  obtain ⟨⟨packetType, b₁⟩, hget, hk⟩ := Outcome.bind_eq_ok.mp h
  obtain rfl : bs = packetType :: b₁ := by
    cases bs with
    | nil => cases hget
    | cons x xs =>
      cases hget
      rfl
  have htype : ∀ {q : Packet}, packetType.toNat = q.typeByte.toNat →
      packetType :: b₁ = q.typeByte :: b₁ := fun h => by rw [UInt8.toNat_inj.mp h]
  dsimp only at hk
  split at hk
  all_goals try simp only [Outcome.bind_eq_ok, Prod.exists, Outcome.pure_eq, ite_eq_iff,
    reduceCtorEq, and_false, false_or, Outcome.ok.injEq, Prod.mk.injEq] at hk
  -- each branch reads the sequence first and builds its packet with it
  next heq =>
    obtain ⟨sequence, b₂, hseq, -, -, -, -, -, -, -, -, -, rfl, -⟩ := hk
    exact ⟨b₁, b₂, htype heq, getVarint_eq_ok (Outcome.mapErr_eq_ok.mp hseq)⟩
  next heq =>
    obtain ⟨sequence, b₂, hseq, -, -, -, -, -, -, -, -, -, rfl, -⟩ := hk
    exact ⟨b₁, b₂, htype heq, getVarint_eq_ok (Outcome.mapErr_eq_ok.mp hseq)⟩
  next heq =>
    obtain ⟨sequence, b₂, hseq, -, -, -, -, -, -, -, -, rfl, -⟩ := hk
    exact ⟨b₁, b₂, htype heq, getVarint_eq_ok (Outcome.mapErr_eq_ok.mp hseq)⟩
  next heq =>
    obtain ⟨sequence, b₂, hseq, -, -, -, -, -, -, rfl, -⟩ := hk
    exact ⟨b₁, b₂, htype heq, getVarint_eq_ok (Outcome.mapErr_eq_ok.mp hseq)⟩
  next heq =>
    obtain ⟨sequence, b₂, hseq, -, -, -, -, -, -, -, -, -, -, -, -, -, rfl, -⟩ := hk
    exact ⟨b₁, b₂, htype heq, getVarint_eq_ok (Outcome.mapErr_eq_ok.mp hseq)⟩

/-- Every sequence `from_bytes` reads is a varint, below `2 ^ 62`. -/
theorem fromBytes_sequence_lt {bs rest : Bytes} {p : Packet} (h : fromBytes O bs = .ok (p, rest)) :
    p.sequence < 2 ^ 62 := by
  obtain ⟨b, b', -, hget⟩ := fromBytes_header h
  exact O.getVarint_lt hget

/-- The bytes written into a fresh buffer start with the type byte and the sequence. -/
theorem toBytes_written_header {p : Packet} {n : Nat}
    (h : p.toBytes O (OctetsMut.withCapacity n) = .ok b) :
    p.sequence < 2 ^ 62 ∧ ∃ more, b.written = p.typeByte :: (O.varintBytes p.sequence ++ more) := by
  obtain ⟨hchecked, -, rfl⟩ := toBytes_eq_ok h
  refine ⟨?_, ?_⟩
  · cases p <;> exact hchecked.1
  cases p with
  | smallReliable sequence channelId messages =>
    exact ⟨channelId :: (Bytes.beBytes 2 messages.length ++ reliableMessagesBytes O messages),
      by simp [OctetsMut.withCapacity, encoding, typeByte, Packet.sequence]⟩
  | smallUnreliable sequence channelId messages =>
    exact ⟨channelId :: (Bytes.beBytes 2 messages.length ++ unreliableMessagesBytes O messages),
      by simp [OctetsMut.withCapacity, encoding, typeByte, Packet.sequence]⟩
  | reliableSlice sequence channelId slice | unreliableSlice sequence channelId slice =>
    exact ⟨channelId :: sliceBytes O slice,
      by simp [OctetsMut.withCapacity, encoding, typeByte, Packet.sequence]⟩
  | ack sequence ackRanges =>
    obtain ⟨last, it, hrev⟩ : ∃ last it, ackRanges.reverse = last :: it :=
      List.exists_cons_of_ne_nil (by simpa using hchecked.2)
    exact ⟨O.varintBytes (last.stop - 1) ++ O.varintBytes (last.stop - 1 - last.start) ++
        O.varintBytes it.length ++ ackRangesBytes O last.start it,
      by simp [OctetsMut.withCapacity, encoding, hrev, typeByte, Packet.sequence]⟩

/-- A datagram of a written packet is read back, if at all, with the sequence written. -/
theorem fromBytes_written_sequence {p p' : Packet} {n : Nat} {rest : Bytes}
    (hw : p.toBytes O (OctetsMut.withCapacity n) = .ok b)
    (hr : fromBytes O b.written = .ok (p', rest)) : p'.sequence = p.sequence := by
  obtain ⟨hseq, more, hb⟩ := toBytes_written_header hw
  obtain ⟨b₀, b₀', hbs, hget⟩ := fromBytes_header hr
  rw [hb, List.cons.injEq] at hbs
  rw [← hbs.2, O.getVarint_varintBytes _ _ hseq, Option.some.injEq, Prod.mk.injEq] at hget
  exact hget.1.symm

/-- An `Ack` the reader accepts in full is read back as itself. -/
theorem fromBytes_written_ack {n sequence : Nat} {ackRanges : List Span} {p : Packet}
    {rest : Bytes} (hwf : (ack sequence ackRanges).WF)
    (hw : (ack sequence ackRanges).toBytes O (OctetsMut.withCapacity n) = .ok b)
    (hr : fromBytes O b.written = .ok (p, rest)) : p = ack sequence ackRanges := by
  obtain ⟨-, -, rfl⟩ := toBytes_eq_ok hw
  have hread := fromBytes_encoding O hwf []
  simp only [OctetsMut.withCapacity, written_push, List.nil_append, List.append_nil] at hr hread
  rw [hread, Outcome.ok.injEq, Prod.mk.injEq] at hr
  exact hr.1.symm

/-! ### Reading a written reliable packet -/

/-- A small message takes at least two bytes: its id and its length. -/
theorem two_mul_length_le_reliableMessagesBytes {messages : List (Nat × Bytes)}
    (hm : ∀ m ∈ messages, m.1 < 2 ^ 62 ∧ m.2.length < 2 ^ 62) :
    2 * messages.length ≤ (reliableMessagesBytes O messages).length := by
  induction messages with
  | nil => simp [reliableMessagesBytes]
  | cons m messages ih =>
    obtain ⟨hid, hlen⟩ := hm m List.mem_cons_self
    have htail := ih fun m' h => hm m' (List.mem_cons_of_mem _ h)
    have hidLen := O.length_varintBytes m.1 hid ▸ QuicVarint.length_pos m.1
    have hlenLen := O.length_varintBytes m.2.length hlen ▸ QuicVarint.length_pos m.2.length
    simp only [reliableMessagesBytes, List.length_append, List.length_cons]
    omega

/-- A `SmallReliable` packet written into a buffer of fewer than `2 * 65536` bytes is read back
as itself: the buffer has no room for more messages than the count field holds. -/
theorem fromBytes_written_smallReliable {n : Nat} (hn : n < 2 * 65536) {sequence : Nat}
    {channelId : UInt8} {messages : List (Nat × Bytes)} {p : Packet} {rest : Bytes}
    (hw : (smallReliable sequence channelId messages).toBytes O (OctetsMut.withCapacity n) =
      .ok b)
    (hr : fromBytes O b.written = .ok (p, rest)) : p = smallReliable sequence channelId messages := by
  obtain ⟨⟨hseq, hm⟩, hcap, rfl⟩ := toBytes_eq_ok hw
  have hcount : messages.length ≤ 65535 := by
    have := two_mul_length_le_reliableMessagesBytes (O := O) hm
    simp only [encoding, List.length_append, OctetsMut.withCapacity] at hcap
    omega
  have hread := fromBytes_encoding O (p := smallReliable sequence channelId messages)
    ⟨hseq, hcount, hm⟩ []
  simp only [OctetsMut.withCapacity, written_push, List.nil_append, List.append_nil] at hr hread
  rw [hread, Outcome.ok.injEq, Prod.mk.injEq] at hr
  exact hr.1.symm

/-- The reader on the bytes of a written `ReliableSlice`: the slice itself, unless it has a
number of slices or a payload length that the reader refuses. -/
theorem fromBytes_encoding_reliableSlice {sequence : Nat} {channelId : UInt8} {slice : Slice}
    (hw : (reliableSlice sequence channelId slice).WriteChecked) (rest : Bytes) :
    fromBytes O ((reliableSlice sequence channelId slice).encoding O ++ rest) =
      if slice.numSlices = 0 ∨ slice.numSlices > 1000000 then .err .invalidNumSlices
      else if slice.payload.isEmpty then .err .emptySlice
      else if slice.payload.length > sliceSize then .err .sliceSizeAboveLimit
      else .ok (reliableSlice sequence channelId slice, rest) := by
  obtain ⟨hseq, hid, hindex, hnum, hlen⟩ := hw
  have hType : (2 : UInt8).toNat = 2 := rfl
  simp only [encoding, sliceBytes, List.append_assoc, fromBytes, getSlice, List.cons_append,
    List.nil_append, getU8_cons, hType, liftGet_ok, Outcome.ok_bind, getVarint_varintBytes hseq,
    getVarint_varintBytes hid, getVarint_varintBytes hindex, getVarint_varintBytes hnum]
  by_cases hcheck : slice.numSlices = 0 ∨ slice.numSlices > 1000000
  · simp only [if_pos hcheck, Outcome.err_bind]
  · simp only [if_neg hcheck, getBytesWithVarintLength_append hlen, liftGet_ok, Outcome.ok_bind]
    rfl

/-- A `ReliableSlice` packet that was written is read back as itself or not at all. -/
theorem fromBytes_written_reliableSlice {n sequence : Nat} {channelId : UInt8} {slice : Slice}
    {p : Packet} {rest : Bytes}
    (hw : (reliableSlice sequence channelId slice).toBytes O (OctetsMut.withCapacity n) = .ok b)
    (hr : fromBytes O b.written = .ok (p, rest)) : p = reliableSlice sequence channelId slice := by
  obtain ⟨hchecked, -, rfl⟩ := toBytes_eq_ok hw
  have hread := fromBytes_encoding_reliableSlice (O := O) hchecked []
  simp only [OctetsMut.withCapacity, written_push, List.nil_append, List.append_nil] at hr hread
  rw [hread] at hr
  split_ifs at hr
  rw [Outcome.ok.injEq, Prod.mk.injEq] at hr
  exact hr.1.symm

end Packet

end Renet
