import Renet.Packet

/-!
# The packet codec: what is written is read back

The bytes `Packet.toBytes` writes for a packet, as one function `Packet.encoding` beside the
writer, and the condition `Packet.WF` under which the writer succeeds and `Packet.fromBytes`
reads the packet back: every integer written as a varint below `2 ^ 62`, at most `65535` small
messages, the slice limits the reader checks, and acknowledgement ranges that are non-empty and
apart, in increasing order.

`Ack` ranges are written from the last one backwards and read in that order; `AckBelow` says
what the ranges after the first one read look like, and is the bridge between the two orders:
the writer's input satisfies it (`ackBelow_of_separated_reverse`) and whatever the reader returns
satisfies it (`getAckRanges_below`).

## Main definitions

* `Renet.Slice.WF`, `Renet.Packet.WF`, `Renet.Packet.encoding`.
* `Renet.Packet.AckBelow`.
-/

namespace Renet

/-- The slice header fields are varints below `2 ^ 62`, and the number of slices is one the
reader accepts. -/
def Slice.WF (s : Slice) : Prop :=
  s.messageId < 2 ^ 62 ∧ s.sliceIndex < 2 ^ 62 ∧ 1 ≤ s.numSlices ∧ s.numSlices ≤ 1000000 ∧
    s.payload.length < 2 ^ 62

namespace Packet

/-! ### The bytes written -/

/-- The small reliable messages as `to_bytes` writes them. -/
def reliableMessagesBytes (O : Octets) : List (Nat × Bytes) → Bytes
  | [] => []
  | (messageId, message) :: rest =>
    O.varintBytes messageId ++ O.varintBytes message.length ++ message ++
      reliableMessagesBytes O rest

/-- The small unreliable messages as `to_bytes` writes them. -/
def unreliableMessagesBytes (O : Octets) : List Bytes → Bytes
  | [] => []
  | message :: rest => O.varintBytes message.length ++ message ++ unreliableMessagesBytes O rest

/-- A slice header and payload. -/
def sliceBytes (O : Octets) (s : Slice) : Bytes :=
  O.varintBytes s.messageId ++ O.varintBytes s.sliceIndex ++ O.varintBytes s.numSlices ++
    O.varintBytes s.payload.length ++ s.payload

/-- The ranges before the last one of an `Ack`, from the end: gap and size, each minus one. -/
def ackRangesBytes (O : Octets) (previousRangeStart : Nat) : List Span → Bytes
  | [] => []
  | range :: rest =>
    O.varintBytes (previousRangeStart - range.stop - 1) ++
      O.varintBytes (range.stop - 1 - range.start) ++ ackRangesBytes O range.start rest

/-- The bytes `to_bytes` writes for a packet it accepts. -/
def encoding (O : Octets) : Packet → Bytes
  | smallReliable sequence channelId messages =>
    [0] ++ O.varintBytes sequence ++ [channelId] ++ Bytes.beBytes 2 messages.length ++
      reliableMessagesBytes O messages
  | smallUnreliable sequence channelId messages =>
    [1] ++ O.varintBytes sequence ++ [channelId] ++ Bytes.beBytes 2 messages.length ++
      unreliableMessagesBytes O messages
  | reliableSlice sequence channelId slice =>
    [2] ++ O.varintBytes sequence ++ [channelId] ++ sliceBytes O slice
  | unreliableSlice sequence channelId slice =>
    [3] ++ O.varintBytes sequence ++ [channelId] ++ sliceBytes O slice
  | ack sequence ackRanges =>
    match ackRanges.reverse with
    | [] => []
    | last :: it =>
      [4] ++ O.varintBytes sequence ++ O.varintBytes (last.stop - 1) ++
        O.varintBytes (last.stop - 1 - last.start) ++ O.varintBytes it.length ++
        ackRangesBytes O last.start it

/-! ### Well-formed packets -/

/-- The ranges after the first one of an `Ack` in the order they are read: each non-empty and
ending below the start of the range before it, the first below `previousRangeStart`. -/
def AckBelow : Nat → List Span → Prop
  | _, [] => True
  | previousRangeStart, range :: rest =>
    range.start < range.stop ∧ range.stop < previousRangeStart ∧ AckBelow range.start rest

/-- The packets `to_bytes` writes and `from_bytes` reads back. -/
def WF : Packet → Prop
  | smallReliable sequence _ messages =>
    sequence < 2 ^ 62 ∧ messages.length ≤ 65535 ∧
      ∀ m ∈ messages, m.1 < 2 ^ 62 ∧ m.2.length < 2 ^ 62
  | smallUnreliable sequence _ messages =>
    sequence < 2 ^ 62 ∧ messages.length ≤ 65535 ∧ ∀ m ∈ messages, m.length < 2 ^ 62
  | reliableSlice sequence _ slice =>
    sequence < 2 ^ 62 ∧ slice.WF ∧ 1 ≤ slice.payload.length ∧ slice.payload.length ≤ sliceSize
  | unreliableSlice sequence _ slice => sequence < 2 ^ 62 ∧ slice.WF
  | ack sequence ackRanges =>
    sequence < 2 ^ 62 ∧ ackRanges ≠ [] ∧ Span.Separated ackRanges ∧
      ackRanges.length ≤ 2 ^ 62 ∧ ∀ r ∈ ackRanges, r.stop ≤ 2 ^ 62

/-! ### Reading the bytes back -/

@[simp] theorem liftGet_ok {α : Type} (a : α) :
    liftGet (.ok a : Outcome BufferTooShortError α) = .ok a := rfl

theorem getReliableMessages_bytes (O : Octets) {messages : List (Nat × Bytes)}
    (hm : ∀ m ∈ messages, m.1 < 2 ^ 62 ∧ m.2.length < 2 ^ 62) (rest : Bytes) :
    getReliableMessages O messages.length (reliableMessagesBytes O messages ++ rest) =
      .ok (messages, rest) := by
  induction messages with
  | nil => rfl
  | cons m messages ih =>
    obtain ⟨messageId, message⟩ := m
    obtain ⟨hid, hlen⟩ := hm _ List.mem_cons_self
    have htail := ih fun m h => hm m (List.mem_cons_of_mem _ h)
    simp only [reliableMessagesBytes, List.append_assoc, List.length_cons, getReliableMessages,
      getVarint_varintBytes hid, getBytesWithVarintLength_append hlen, liftGet_ok,
      Outcome.ok_bind, htail]
    rfl

theorem getUnreliableMessages_bytes (O : Octets) {messages : List Bytes}
    (hm : ∀ m ∈ messages, m.length < 2 ^ 62) (rest : Bytes) :
    getUnreliableMessages O messages.length (unreliableMessagesBytes O messages ++ rest) =
      .ok (messages, rest) := by
  induction messages with
  | nil => rfl
  | cons message messages ih =>
    have htail := ih fun m h => hm m (List.mem_cons_of_mem _ h)
    simp only [unreliableMessagesBytes, List.append_assoc, List.length_cons,
      getUnreliableMessages, getBytesWithVarintLength_append (hm _ List.mem_cons_self),
      liftGet_ok, Outcome.ok_bind, htail]
    rfl

theorem getSlice_bytes (O : Octets) {s : Slice} (hs : s.WF) (rest : Bytes) :
    getSlice O (sliceBytes O s ++ rest) = .ok (s, rest) := by
  obtain ⟨hid, hindex, hpos, hmax, hlen⟩ := hs
  have hcheck : ¬ (s.numSlices = 0 ∨ s.numSlices > 1000000) := by omega
  simp only [sliceBytes, List.append_assoc, getSlice, getVarint_varintBytes hid,
    getVarint_varintBytes hindex, getVarint_varintBytes (lt_of_le_of_lt hmax (by norm_num)),
    getBytesWithVarintLength_append hlen, liftGet_ok, Outcome.ok_bind, if_neg hcheck]
  rfl

theorem getAckRanges_bytes (O : Octets) : ∀ {previousRangeStart : Nat} {ranges : List Span},
    AckBelow previousRangeStart ranges → previousRangeStart ≤ 2 ^ 62 → ∀ rest : Bytes,
      getAckRanges O ranges.length previousRangeStart
          (ackRangesBytes O previousRangeStart ranges ++ rest) = .ok (ranges, rest)
  | _, [], _, _, rest => rfl
  | previousRangeStart, range :: ranges, ⟨hrange, hbelow, hrest⟩, hprev, rest => by
    -- the gap and the size read back give the range's end and start
    have hgap : previousRangeStart - range.stop - 1 < 2 ^ 62 := by omega
    have hsize : range.stop - 1 - range.start < 2 ^ 62 := by omega
    have hcheck : ¬ previousRangeStart < 2 + (previousRangeStart - range.stop - 1) := by omega
    have hend : previousRangeStart - (previousRangeStart - range.stop - 1) - 2 = range.stop - 1 := by
      omega
    have hcheck' : ¬ range.stop - 1 < range.stop - 1 - range.start := by omega
    have hstart : range.stop - 1 - (range.stop - 1 - range.start) = range.start := by omega
    have hspan : (⟨range.start, range.stop - 1 + 1⟩ : Span) = range := by
      obtain ⟨a, b⟩ := range
      simp only [Span.mk.injEq, true_and]
      simp only at hrange
      omega
    have htail := getAckRanges_bytes O hrest (by omega) rest
    simp only [ackRangesBytes, List.append_assoc, List.length_cons, getAckRanges,
      getVarint_varintBytes hgap, getVarint_varintBytes hsize, liftGet_ok, Outcome.ok_bind,
      if_neg hcheck, hend, if_neg hcheck', hstart, htail, hspan]
    rfl

/-- The writer's order: the ranges of a separated list, from the last one back, are below the
start of the last one. -/
theorem ackBelow_of_isChain : ∀ {last : Span} {it : List Span},
    (∀ r ∈ last :: it, r.start < r.stop) →
      (last :: it).IsChain (fun a b => b.stop < a.start) → AckBelow last.start it
  | _, [], _, _ => trivial
  | last, next :: it, hpos, hchain => by
    rw [List.isChain_cons_cons] at hchain
    refine ⟨hpos next (by simp), hchain.1, ?_⟩
    exact ackBelow_of_isChain (fun r hr => hpos r (List.mem_cons_of_mem _ hr)) hchain.2

/-- The reversed ranges of a well-formed `Ack`: the last one, then the others below it. -/
theorem reverse_eq_cons_of_wf {ackRanges : List Span} (hne : ackRanges ≠ [])
    (hsep : Span.Separated ackRanges) :
    ∃ last it, ackRanges.reverse = last :: it ∧ last.start < last.stop ∧ AckBelow last.start it := by
  obtain ⟨last, it, hrev⟩ : ∃ last it, ackRanges.reverse = last :: it := by
    cases h : ackRanges.reverse with
    | nil => exact absurd (List.reverse_eq_nil_iff.mp h) hne
    | cons last it => exact ⟨last, it, rfl⟩
  have hsep' := Span.separated_reverse.mp (by rwa [List.reverse_reverse])
  rw [hrev] at hsep'
  exact ⟨last, it, hrev, hsep'.1 last List.mem_cons_self, ackBelow_of_isChain hsep'.1 hsep'.2⟩

/-- `from_bytes` reads a well-formed packet back from its bytes, and stops right after them. -/
theorem fromBytes_encoding (O : Octets) {p : Packet} (hp : p.WF) (rest : Bytes) :
    fromBytes O (p.encoding O ++ rest) = .ok (p, rest) := by
  cases p with
  | smallReliable sequence channelId messages =>
    have hType : (0 : UInt8).toNat = 0 := rfl
    obtain ⟨hseq, hlen, hm⟩ := hp
    simp only [encoding, List.append_assoc, fromBytes, List.cons_append, List.nil_append, getU8_cons, hType,
      liftGet_ok, Outcome.ok_bind, getVarint_varintBytes hseq,
      getU16_beBytes (show messages.length < 2 ^ 16 by omega), getReliableMessages_bytes O hm]
    rfl
  | smallUnreliable sequence channelId messages =>
    have hType : (1 : UInt8).toNat = 1 := rfl
    obtain ⟨hseq, hlen, hm⟩ := hp
    simp only [encoding, List.append_assoc, fromBytes, List.cons_append, List.nil_append, getU8_cons, hType,
      liftGet_ok, Outcome.ok_bind, getVarint_varintBytes hseq,
      getU16_beBytes (show messages.length < 2 ^ 16 by omega), getUnreliableMessages_bytes O hm]
    rfl
  | reliableSlice sequence channelId slice =>
    have hType : (2 : UInt8).toNat = 2 := rfl
    obtain ⟨hseq, hs, hne, hle⟩ := hp
    have hnonempty : slice.payload.isEmpty = false := by
      cases h : slice.payload with
      | nil => simp [h] at hne
      | cons _ _ => rfl
    simp only [encoding, List.append_assoc, fromBytes, List.cons_append, List.nil_append, getU8_cons, hType,
      liftGet_ok, Outcome.ok_bind, getVarint_varintBytes hseq, getSlice_bytes O hs, hnonempty]
    simp [Nat.not_lt.mpr hle]
  | unreliableSlice sequence channelId slice =>
    have hType : (3 : UInt8).toNat = 3 := rfl
    obtain ⟨hseq, hs⟩ := hp
    simp only [encoding, List.append_assoc, fromBytes, List.cons_append, List.nil_append, getU8_cons, hType,
      liftGet_ok, Outcome.ok_bind, getVarint_varintBytes hseq, getSlice_bytes O hs]
    rfl
  | ack sequence ackRanges =>
    have hType : (4 : UInt8).toNat = 4 := rfl
    obtain ⟨hseq, hne, hsep, hlen, hstop⟩ := hp
    obtain ⟨last, it, hrev, hlast, hbelow⟩ := reverse_eq_cons_of_wf hne hsep
    have hmem : last ∈ ackRanges := List.mem_reverse.mp (by simp [hrev])
    have hend : last.stop - 1 < 2 ^ 62 := by have := hstop last hmem; omega
    have hsize : last.stop - 1 - last.start < 2 ^ 62 := by omega
    have hcount : it.length < 2 ^ 62 := by
      have := congrArg List.length hrev
      simp only [List.length_reverse, List.length_cons] at this
      omega
    have hcheck : ¬ last.stop - 1 < last.stop - 1 - last.start := by omega
    have hstart : last.stop - 1 - (last.stop - 1 - last.start) = last.start := by omega
    have hfirst : (⟨last.start, last.stop - 1 + 1⟩ : Span) = last := by
      obtain ⟨a, b⟩ := last
      simp only [Span.mk.injEq, true_and]
      simp only at hlast
      omega
    have hranges : (last :: it).reverse = ackRanges := by
      rw [← hrev, List.reverse_reverse]
    simp only [encoding, hrev, List.append_assoc, fromBytes, List.cons_append, List.nil_append, getU8_cons, hType,
      liftGet_ok, Outcome.ok_bind, getVarint_varintBytes hseq, getVarint_varintBytes hend,
      getVarint_varintBytes hsize, getVarint_varintBytes hcount, if_neg hcheck, hstart,
      getAckRanges_bytes O hbelow (by omega), hfirst, hranges]
    rfl

/-! ### Writing the bytes -/

@[simp] theorem lift_ok {α : Type} (a : α) : lift (.ok a : Outcome BufferTooShortError α) = .ok a :=
  rfl

open OctetsMut in
theorem putReliableMessages_bytes (O : Octets) {messages : List (Nat × Bytes)}
    (hm : ∀ m ∈ messages, m.1 < 2 ^ 62 ∧ m.2.length < 2 ^ 62) :
    ∀ {b : OctetsMut}, (reliableMessagesBytes O messages).length ≤ b.cap →
      putReliableMessages O b messages = .ok (b.push (reliableMessagesBytes O messages)) := by
  induction messages with
  | nil => intro b _; simp [putReliableMessages, reliableMessagesBytes]
  | cons m messages ih =>
    intro b hcap
    obtain ⟨messageId, message⟩ := m
    obtain ⟨hid, hlen⟩ := hm _ List.mem_cons_self
    simp only [reliableMessagesBytes, List.length_append] at hcap
    -- each write fits in what the writes before it left
    have h1 : (O.varintBytes messageId).length ≤ b.cap := by omega
    have h2 : (O.varintBytes message.length).length ≤ (b.push (O.varintBytes messageId)).cap := by
      simp only [cap_push]; omega
    have h3 : message.length ≤
        ((b.push (O.varintBytes messageId)).push (O.varintBytes message.length)).cap := by
      simp only [cap_push]; omega
    have h4 : (reliableMessagesBytes O messages).length ≤
        (((b.push (O.varintBytes messageId)).push (O.varintBytes message.length)).push message).cap
        := by
      simp only [cap_push]; omega
    rw [putReliableMessages, putVarint_eq_push hid h1, lift_ok, Outcome.ok_bind,
      putVarint_eq_push hlen h2, lift_ok, Outcome.ok_bind, putBytes_eq_push h3, lift_ok,
      Outcome.ok_bind, ih (fun m h => hm m (List.mem_cons_of_mem _ h)) h4]
    simp only [push_push, reliableMessagesBytes, List.append_assoc]

open OctetsMut in
theorem putUnreliableMessages_bytes (O : Octets) {messages : List Bytes}
    (hm : ∀ m ∈ messages, m.length < 2 ^ 62) :
    ∀ {b : OctetsMut}, (unreliableMessagesBytes O messages).length ≤ b.cap →
      putUnreliableMessages O b messages = .ok (b.push (unreliableMessagesBytes O messages)) := by
  induction messages with
  | nil => intro b _; simp [putUnreliableMessages, unreliableMessagesBytes]
  | cons message messages ih =>
    intro b hcap
    have hlen := hm _ List.mem_cons_self
    simp only [unreliableMessagesBytes, List.length_append] at hcap
    have h1 : (O.varintBytes message.length).length ≤ b.cap := by omega
    have h2 : message.length ≤ (b.push (O.varintBytes message.length)).cap := by
      simp only [cap_push]; omega
    have h3 : (unreliableMessagesBytes O messages).length ≤
        ((b.push (O.varintBytes message.length)).push message).cap := by
      simp only [cap_push]; omega
    rw [putUnreliableMessages, putVarint_eq_push hlen h1, lift_ok, Outcome.ok_bind,
      putBytes_eq_push h2, lift_ok, Outcome.ok_bind,
      ih (fun m h => hm m (List.mem_cons_of_mem _ h)) h3]
    simp only [push_push, unreliableMessagesBytes, List.append_assoc]

open OctetsMut in
theorem putSlice_bytes (O : Octets) {s : Slice} (hs : s.WF) {b : OctetsMut}
    (hcap : (sliceBytes O s).length ≤ b.cap) : putSlice O b s = .ok (b.push (sliceBytes O s)) := by
  obtain ⟨hid, hindex, hpos, hmax, hlen⟩ := hs
  have hnum : s.numSlices < 2 ^ 62 := lt_of_le_of_lt hmax (by norm_num)
  simp only [sliceBytes, List.length_append] at hcap
  rw [putSlice, putVarint_eq_push hid (by omega), lift_ok, Outcome.ok_bind,
    putVarint_eq_push hindex (by simp only [cap_push]; omega), lift_ok, Outcome.ok_bind,
    putVarint_eq_push hnum (by simp only [cap_push]; omega), lift_ok, Outcome.ok_bind,
    putVarint_eq_push hlen (by simp only [cap_push]; omega), lift_ok, Outcome.ok_bind,
    putBytes_eq_push (by simp only [cap_push]; omega), lift_ok]
  simp only [push_push, sliceBytes, List.append_assoc]

open OctetsMut in
theorem putAckRanges_bytes (O : Octets) : ∀ {previousRangeStart : Nat} {ranges : List Span},
    AckBelow previousRangeStart ranges → previousRangeStart ≤ 2 ^ 62 → ∀ {b : OctetsMut},
      (ackRangesBytes O previousRangeStart ranges).length ≤ b.cap →
        putAckRanges O b previousRangeStart ranges =
          .ok (b.push (ackRangesBytes O previousRangeStart ranges))
  | _, [], _, _, b, _ => by simp [putAckRanges, ackRangesBytes]
  | previousRangeStart, range :: ranges, ⟨hrange, hbelow, hrest⟩, hprev, b, hcap => by
    have hgap : previousRangeStart - range.stop - 1 < 2 ^ 62 := by omega
    have hsize : range.stop - 1 - range.start < 2 ^ 62 := by omega
    simp only [ackRangesBytes, List.length_append] at hcap
    -- the subtractions computed before the writes do not underflow
    have e1 : (Outcome.checkedSub previousRangeStart range.stop : Outcome SerializationError Nat) =
        .ok (previousRangeStart - range.stop) := Outcome.checkedSub_of_le (by omega)
    have e2 : (Outcome.checkedSub (previousRangeStart - range.stop) 1 :
        Outcome SerializationError Nat) = .ok (previousRangeStart - range.stop - 1) :=
      Outcome.checkedSub_of_le (by omega)
    have e3 : (Outcome.checkedSub range.stop 1 : Outcome SerializationError Nat) =
        .ok (range.stop - 1) := Outcome.checkedSub_of_le (by omega)
    have e4 : (Outcome.checkedSub (range.stop - 1) range.start : Outcome SerializationError Nat) =
        .ok (range.stop - 1 - range.start) := Outcome.checkedSub_of_le (by omega)
    simp only [putAckRanges, e1, e2, e3, e4, Outcome.ok_bind]
    rw [putVarint_eq_push hgap (by omega), lift_ok,
      Outcome.ok_bind, putVarint_eq_push hsize (by simp only [cap_push]; omega), lift_ok,
      Outcome.ok_bind, putAckRanges_bytes O hrest (by omega) (by simp only [cap_push]; omega)]
    simp only [push_push, ackRangesBytes, List.append_assoc]

open OctetsMut in
/-- `to_bytes` writes a well-formed packet into any buffer with room for its bytes. -/
theorem toBytes_encoding (O : Octets) {p : Packet} (hp : p.WF) {b : OctetsMut}
    (hcap : (p.encoding O).length ≤ b.cap) : p.toBytes O b = .ok (b.push (p.encoding O)) := by
  cases p with
  | smallReliable sequence channelId messages =>
    obtain ⟨hseq, -, hm⟩ := hp
    simp only [encoding, List.length_append, List.length_singleton, Bytes.length_beBytes] at hcap
    simp only [toBytes, putU8, putU16]
    rw [putBytes_eq_push (by simp; omega), lift_ok, Outcome.ok_bind,
      putVarint_eq_push hseq (by simp only [cap_push, List.length_singleton]; omega), lift_ok,
      Outcome.ok_bind, putBytes_eq_push (by simp only [cap_push, List.length_singleton]; omega),
      lift_ok, Outcome.ok_bind,
      putBytes_eq_push (by simp only [cap_push, List.length_singleton, Bytes.length_beBytes]; omega),
      lift_ok, Outcome.ok_bind, putReliableMessages_bytes O hm
        (by simp only [cap_push, List.length_singleton, Bytes.length_beBytes]; omega)]
    simp only [push_push, encoding, List.append_assoc]
  | smallUnreliable sequence channelId messages =>
    obtain ⟨hseq, -, hm⟩ := hp
    simp only [encoding, List.length_append, List.length_singleton, Bytes.length_beBytes] at hcap
    simp only [toBytes, putU8, putU16]
    rw [putBytes_eq_push (by simp; omega), lift_ok, Outcome.ok_bind,
      putVarint_eq_push hseq (by simp only [cap_push, List.length_singleton]; omega), lift_ok,
      Outcome.ok_bind, putBytes_eq_push (by simp only [cap_push, List.length_singleton]; omega),
      lift_ok, Outcome.ok_bind,
      putBytes_eq_push (by simp only [cap_push, List.length_singleton, Bytes.length_beBytes]; omega),
      lift_ok, Outcome.ok_bind, putUnreliableMessages_bytes O hm
        (by simp only [cap_push, List.length_singleton, Bytes.length_beBytes]; omega)]
    simp only [push_push, encoding, List.append_assoc]
  | reliableSlice sequence channelId slice =>
    obtain ⟨hseq, hs, -⟩ := hp
    simp only [encoding, List.length_append, List.length_singleton] at hcap
    simp only [toBytes, putU8]
    rw [putBytes_eq_push (by simp; omega), lift_ok, Outcome.ok_bind,
      putVarint_eq_push hseq (by simp only [cap_push, List.length_singleton]; omega), lift_ok,
      Outcome.ok_bind, putBytes_eq_push (by simp only [cap_push, List.length_singleton]; omega),
      lift_ok, Outcome.ok_bind,
      putSlice_bytes O hs (by simp only [cap_push, List.length_singleton]; omega)]
    simp only [push_push, encoding, List.append_assoc]
  | unreliableSlice sequence channelId slice =>
    obtain ⟨hseq, hs⟩ := hp
    simp only [encoding, List.length_append, List.length_singleton] at hcap
    simp only [toBytes, putU8]
    rw [putBytes_eq_push (by simp; omega), lift_ok, Outcome.ok_bind,
      putVarint_eq_push hseq (by simp only [cap_push, List.length_singleton]; omega), lift_ok,
      Outcome.ok_bind, putBytes_eq_push (by simp only [cap_push, List.length_singleton]; omega),
      lift_ok, Outcome.ok_bind,
      putSlice_bytes O hs (by simp only [cap_push, List.length_singleton]; omega)]
    simp only [push_push, encoding, List.append_assoc]
  | ack sequence ackRanges =>
    obtain ⟨hseq, hne, hsep, hlen, hstop⟩ := hp
    obtain ⟨last, it, hrev, hlast, hbelow⟩ := reverse_eq_cons_of_wf hne hsep
    have hmem : last ∈ ackRanges := List.mem_reverse.mp (by simp [hrev])
    have hend : last.stop - 1 < 2 ^ 62 := by have := hstop last hmem; omega
    have hsize : last.stop - 1 - last.start < 2 ^ 62 := by omega
    have hcount : it.length < 2 ^ 62 := by
      have := congrArg List.length hrev
      simp only [List.length_reverse, List.length_cons] at this
      omega
    have e1 : (Outcome.checkedSub last.stop 1 : Outcome SerializationError Nat) =
        .ok (last.stop - 1) := Outcome.checkedSub_of_le (by omega)
    have e2 : (Outcome.checkedSub (last.stop - 1) last.start : Outcome SerializationError Nat) =
        .ok (last.stop - 1 - last.start) := Outcome.checkedSub_of_le (by omega)
    simp only [encoding, hrev, List.length_append, List.length_singleton] at hcap
    simp only [toBytes, putU8, hrev, e1, e2, Outcome.ok_bind]
    rw [putBytes_eq_push (by simp; omega), lift_ok, Outcome.ok_bind,
      putVarint_eq_push hseq (by simp only [cap_push, List.length_singleton]; omega), lift_ok,
      Outcome.ok_bind,
      putVarint_eq_push hend (by simp only [cap_push, List.length_singleton]; omega), lift_ok,
      Outcome.ok_bind,
      putVarint_eq_push hsize (by simp only [cap_push, List.length_singleton]; omega), lift_ok,
      Outcome.ok_bind,
      putVarint_eq_push hcount (by simp only [cap_push, List.length_singleton]; omega), lift_ok,
      Outcome.ok_bind, putAckRanges_bytes O hbelow (by omega)
        (by simp only [cap_push, List.length_singleton]; omega)]
    simp only [push_push, encoding, hrev, List.append_assoc]

/-! ### What the reader returns -/

/-- The reader's order: below the start of a non-empty last range, the ranges read make a
separated list once reversed. -/
theorem isChain_of_ackBelow : ∀ {last : Span} {it : List Span}, last.start < last.stop →
    AckBelow last.start it →
      (∀ r ∈ last :: it, r.start < r.stop) ∧ (last :: it).IsChain (fun a b => b.stop < a.start)
  | last, [], hlast, _ => ⟨by simpa using hlast, .singleton last⟩
  | last, next :: it, hlast, ⟨hnext, hbelow, hrest⟩ => by
    obtain ⟨hpos, hchain⟩ := isChain_of_ackBelow hnext hrest
    refine ⟨?_, List.IsChain.cons_cons hbelow hchain⟩
    intro r hr
    rcases List.mem_cons.mp hr with rfl | hr
    · exact hlast
    · exact hpos r hr

/-- Every range `getAckRanges` reads is non-empty and ends below the one read before it. -/
theorem getAckRanges_below (O : Octets) : ∀ (n previousRangeStart : Nat) (b : Bytes)
    {ranges : List Span} {rest : Bytes},
    getAckRanges O n previousRangeStart b = .ok (ranges, rest) → AckBelow previousRangeStart ranges
  | 0, _, _, ranges, rest, h => by
    simp only [getAckRanges, Outcome.ok.injEq, Prod.mk.injEq] at h
    rw [← h.1]
    trivial
  | n + 1, previousRangeStart, b, ranges, rest, h => by
    obtain ⟨⟨gap, b₁⟩, -, h⟩ := Outcome.bind_eq_ok.mp h
    by_cases hgap : previousRangeStart < 2 + gap
    · simp [hgap] at h
    simp only [if_neg hgap] at h
    obtain ⟨⟨rangeSize, b₂⟩, -, h⟩ := Outcome.bind_eq_ok.mp h
    by_cases hsize : previousRangeStart - gap - 2 < rangeSize
    · simp [hsize] at h
    simp only [if_neg hsize] at h
    obtain ⟨⟨ranges', rest'⟩, hrec, h⟩ := Outcome.bind_eq_ok.mp h
    simp only [Outcome.pure_eq, Outcome.ok.injEq, Prod.mk.injEq] at h
    rw [← h.1]
    exact ⟨by simp only; omega, by simp only; omega, getAckRanges_below O n _ b₂ hrec⟩

/-- Every `Ack` that `from_bytes` returns has non-empty ranges, apart and in increasing order. -/
theorem fromBytes_ack_separated (O : Octets) {b rest : Bytes} {sequence : Nat}
    {ackRanges : List Span} (h : fromBytes O b = .ok (ack sequence ackRanges, rest)) :
    ackRanges ≠ [] ∧ Span.Separated ackRanges := by
  obtain ⟨⟨packetType, b₁⟩, -, h⟩ := Outcome.bind_eq_ok.mp h
  dsimp only at h
  -- only the branch of packet type `4` builds an `Ack`
  split at h
  · simp [Outcome.bind_eq_ok] at h
  · simp [Outcome.bind_eq_ok] at h
  · simp only [Outcome.bind_eq_ok] at h
    obtain ⟨_, -, _, -, _, -, h⟩ := h
    split_ifs at h
    simp at h
  · simp [Outcome.bind_eq_ok] at h
  · obtain ⟨⟨sequence', b₂⟩, -, h⟩ := Outcome.bind_eq_ok.mp h
    obtain ⟨⟨firstRangeEnd, b₃⟩, -, h⟩ := Outcome.bind_eq_ok.mp h
    obtain ⟨⟨firstRangeSize, b₄⟩, -, h⟩ := Outcome.bind_eq_ok.mp h
    obtain ⟨⟨numRemainingRanges, b₅⟩, -, h⟩ := Outcome.bind_eq_ok.mp h
    by_cases hfirst : firstRangeEnd < firstRangeSize
    · simp [hfirst] at h
    simp only [if_neg hfirst] at h
    obtain ⟨⟨ranges, rest'⟩, hranges, h⟩ := Outcome.bind_eq_ok.mp h
    simp only [Outcome.pure_eq, Outcome.ok.injEq, Prod.mk.injEq, ack.injEq] at h
    obtain ⟨⟨-, rfl⟩, -⟩ := h
    let first : Span := ⟨firstRangeEnd - firstRangeSize, firstRangeEnd + 1⟩
    have hpos : first.start < first.stop := by simp only [first]; omega
    have hbelow : AckBelow first.start ranges := getAckRanges_below O _ _ _ hranges
    obtain ⟨hall, hchain⟩ := isChain_of_ackBelow hpos hbelow
    exact ⟨by simp, Span.separated_reverse.mpr ⟨hall, hchain⟩⟩
  · simp at h

/-! ### The round trip -/

/-- A well-formed packet is written into any fresh buffer large enough, and read back from the
bytes written, which it consumes exactly; and every `Ack` the reader returns has well-formed
ranges. -/
theorem toBytes_roundTrip (O : Octets) :
    (∀ p : Packet, p.WF → ∃ n, ∀ cap, n ≤ cap → ∃ b : OctetsMut,
        p.toBytes O (OctetsMut.withCapacity cap) = .ok b ∧
          ∀ rest, fromBytes O (b.written ++ rest) = .ok (p, rest)) ∧
    (∀ (b rest : Bytes) (sequence : Nat) (ackRanges : List Span),
        fromBytes O b = .ok (ack sequence ackRanges, rest) →
          ackRanges ≠ [] ∧ Span.Separated ackRanges) := by
  refine ⟨fun p hp => ⟨(p.encoding O).length, fun cap hcap => ?_⟩,
    fun b rest sequence ackRanges h => fromBytes_ack_separated O h⟩
  refine ⟨_, toBytes_encoding O hp hcap, fun rest => ?_⟩
  simpa [OctetsMut.withCapacity] using fromBytes_encoding O hp rest

/-- The round trip of an `Ack` of sequence `0` alone, and the ranges read from its bytes. -/
theorem toBytes_roundTrip_ackZero :
    (ack 0 [⟨0, 1⟩]).WF ∧
      (∃ n, ∀ cap, n ≤ cap → ∃ b : OctetsMut,
        (ack 0 [⟨0, 1⟩]).toBytes Octets.quic (OctetsMut.withCapacity cap) = .ok b ∧
          ∀ rest, fromBytes Octets.quic (b.written ++ rest) = .ok (ack 0 [⟨0, 1⟩], rest)) ∧
      fromBytes Octets.quic [4, 0, 0, 0, 0] = .ok (ack 0 [⟨0, 1⟩], []) ∧
      ([⟨0, 1⟩] : List Span) ≠ [] ∧ Span.Separated [⟨0, 1⟩] := by
  have hwf : (ack 0 [⟨0, 1⟩]).WF := by
    refine ⟨by norm_num, by simp, by simp, by simp, ?_⟩
    intro r hr
    rw [List.mem_singleton.mp hr]
    norm_num
  have hread : fromBytes Octets.quic [4, 0, 0, 0, 0] = .ok (ack 0 [⟨0, 1⟩], []) := by decide
  exact ⟨hwf, (toBytes_roundTrip Octets.quic).1 _ hwf, hread,
    (toBytes_roundTrip Octets.quic).2 _ _ _ _ hread⟩

end Packet

end Renet
