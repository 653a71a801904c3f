import PathMeter.Proofs.BoundedReading
import PathMeter.Proofs.OnesComplement

/-!
# The grammar of replies

Which byte strings are replies to a probe of a run, said byte by byte with the
offsets counted from the start of the datagram.  An IPv4 header leads to an
ICMP message (`LeadsTo`); the message is an echo reply with a right checksum or
quotes an echo request (`Answer`); and somewhere in it identifier, cycle and
hop are named (`NamesProbe`).

Exactly the byte strings of this grammar are understood, each as what it says
(`reply_grammar`).
-/

namespace PathMeter.Reply

open Wire

/-- Two bytes from a position on as a number, the high one first. -/
def wordAt (data : List UInt8) (i : Nat) : Option Nat := do
  let high ← data[i]?
  let low ← data[i + 1]?
  return 256 * high.toNat + low.toNat

/-- The Internet checksum with the second word skipped: what the other words
add up to, the carries brought around, taken from all ones. -/
def internetChecksum (message : List UInt8) : Nat :=
  65535 - ((words message).eraseIdx 1).foldl onesAdd 0

/-- An echo header from a position on that carries this identifier, and the
cycle and the hop of this probe. -/
structure NamesProbe (data : List UInt8) (start : Nat) (identifier : UInt16) (id : ProbeId) :
    Prop where
  identifier : wordAt data (start + 4) = some identifier.toNat
  cycle : data[start + 6]? = some id.cycle
  hop : data[start + 7]? = some id.hop

/-- A datagram whose IPv4 header is `length` bytes long, names the source of the
datagram and leads to an ICMP message. -/
structure LeadsTo (data : List UInt8) (length : Nat) (source : IPv4) : Prop where
  least : 20 ≤ data.length
  first : ∃ b, data[0]? = some b ∧ b.toNat / 16 = 4 ∧ length = 4 * (b.toNat % 16)
  protocol : data[9]? = some 1
  long : 20 ≤ length
  room : length + 8 ≤ data.length
  source : data[12]? = some source.a ∧ data[13]? = some source.b ∧
    data[14]? = some source.c ∧ data[15]? = some source.d

/-- An ICMP message from a position on that answers a probe, of either kind. -/
inductive Answer (data : List UInt8) (start : Nat) (identifier : UInt16) (id : ProbeId) :
    ReplyKind → Prop
  /-- An echo reply with a right checksum. -/
  | echoReply (type : data[start]? = some 0)
      (sum : wordAt data (start + 2) = some (internetChecksum (data.drop start)))
      (names : NamesProbe data start identifier id) :
      Answer data start identifier id .echoReply
  /-- A time-exceeded message that quotes an IPv4 header of `length` bytes and
  the header of an echo request. -/
  | timeExceeded (length : Nat) (type : data[start]? = some 11)
      (least : start + 9 ≤ data.length)
      (first : ∃ b, data[start + 8]? = some b ∧ length = 4 * (b.toNat % 16))
      (long : 20 ≤ length)
      (room : start + 8 + length + 8 ≤ data.length)
      (request : data[start + 8 + length]? = some 8)
      (names : NamesProbe data (start + 8 + length) identifier id) :
      Answer data start identifier id .timeExceeded

/-- A datagram that is this reply to a probe of the run with this identifier,
aimed at one of the hops up to `maxHops`. -/
def IsReply (identifier : UInt16) (maxHops : UInt8) (data : List UInt8) (reply : Reply) : Prop :=
  ∃ length, LeadsTo data length reply.responder ∧
    1 ≤ reply.id.hop ∧ reply.id.hop ≤ maxHops ∧
    Answer data length identifier reply.id reply.kind

/-! ### The stages of understanding a datagram -/

variable {data : List UInt8} {identifier : UInt16} {maxHops : UInt8} {id : ProbeId}

theorem wordAt_eq_some_iff {i n : Nat} :
    wordAt data i = some n ↔
      ∃ high low, data[i]? = some high ∧ data[i + 1]? = some low ∧
        256 * high.toNat + low.toNat = n := by
  simp [wordAt, Option.bind_eq_some_iff]

/-- Two bytes make the word that they are read as. -/
theorem wordAt_eq_some_toNat_iff {i : Nat} {w : UInt16} :
    wordAt data i = some w.toNat ↔
      ∃ high low, data[i]? = some high ∧ data[i + 1]? = some low ∧ word high low = w := by
  rw [wordAt_eq_some_iff]
  simp only [← UInt16.toNat_inj, toNat_word]

theorem toNat_checksum_eq (message : List UInt8) :
    (checksum message).toNat = internetChecksum message := by
  have hcovered : ∀ w ∈ coveredWords message, w < 65536 := fun w hw =>
    lt_of_mem_words w (List.mem_of_mem_eraseIdx hw)
  rw [toNat_checksum, onesSum_eq_foldl hcovered]
  rfl

/-- The checksum in an ICMP message is the word behind type and code. -/
theorem carriedChecksum?_drop {start : Nat} {w : UInt16} :
    carriedChecksum? (data.drop start) = some w ↔ wordAt data (start + 2) = some w.toNat := by
  have hat (i : Nat) : data[start + i]? = (data.drop start)[i]? := List.getElem?_drop.symm
  rw [wordAt_eq_some_toNat_iff, Nat.add_assoc, hat 2, hat 3]
  match data.drop start with
  | [] | [_] | [_, _] | [_, _, _] => simp [carriedChecksum?]
  | _ :: _ :: _ :: _ :: _ => simp [carriedChecksum?]

/-- An echo header names the probe of the identity in its sequence number. -/
theorem idAndSequence?_drop {start : Nat} :
    idAndSequence? (data.drop start) = some (identifier, id.sequence) ↔
      NamesProbe data start identifier id := by
  have hat (i : Nat) : data[start + i]? = (data.drop start)[i]? := List.getElem?_drop.symm
  have hnames : NamesProbe data start identifier id ↔
      wordAt data (start + 4) = some identifier.toNat ∧ data[start + 6]? = some id.cycle ∧
        data[start + 7]? = some id.hop :=
    ⟨fun h => ⟨h.identifier, h.cycle, h.hop⟩, fun h => ⟨h.1, h.2.1, h.2.2⟩⟩
  rw [hnames, wordAt_eq_some_toNat_iff, Nat.add_assoc, hat 4, hat 5, hat 6, hat 7]
  match data.drop start with
  | [] | [_] | [_, _] | [_, _, _] | [_, _, _, _] | [_, _, _, _, _] | [_, _, _, _, _, _]
  | [_, _, _, _, _, _, _] => simp [idAndSequence?]
  | _ :: _ :: _ :: _ :: a :: b :: c :: d :: _ =>
      have hword : word c d = id.sequence ↔ c = id.cycle ∧ d = id.hop := by
        show (ProbeId.mk c d).sequence = id.sequence ↔ _
        rw [ProbeId.sequence_inj]
        cases id
        simp
      simp [idAndSequence?, hword]

/-- A quoted echo header is found just behind the header quoted before it. -/
theorem quotedEcho?_drop {start : Nat} {header : List UInt8} :
    quotedEcho? (data.drop start) = some header ↔
      ∃ first, data[start]? = some first ∧ leastHeader ≤ headerLength first ∧
        start + headerLength first + icmpHeaderLength ≤ data.length ∧
        data[start + headerLength first]? = some echoRequestType ∧
        header = data.drop (start + headerLength first) := by
  unfold quotedEcho?
  simp only [Option.bind_eq_bind, Option.bind_eq_some_iff, List.getElem?_drop, Nat.add_zero,
    List.length_drop, List.drop_drop]
  constructor
  · rintro ⟨first, hfirst, type, htype, hheader⟩
    split at hheader
    · next h =>
      obtain ⟨hlong, hroom, rfl⟩ := h
      have hinside : start + headerLength first < data.length :=
        (List.getElem?_eq_some_iff.1 htype).1
      exact ⟨first, hfirst, hlong, by omega, htype, (Option.some.inj hheader).symm⟩
    · simp at hheader
  · rintro ⟨first, hfirst, hlong, hroom, hrequest, rfl⟩
    refine ⟨first, hfirst, echoRequestType, hrequest, ?_⟩
    rw [if_pos ⟨hlong, by omega, rfl⟩]

/-- The echo header of an answer is at the start of an echo reply, and in what a
time-exceeded message quotes. -/
theorem echoHeader?_eq_some_iff {message header : List UInt8} {kind : ReplyKind} :
    echoHeader? message = some (kind, header) ↔
      (kind = .echoReply ∧ message[0]? = some echoReplyType ∧
        carriedChecksum? message = some (checksum message) ∧ header = message) ∨
      (kind = .timeExceeded ∧ message[0]? = some timeExceededType ∧
        quotedEcho? (message.drop icmpHeaderLength) = some header) := by
  have htypes : echoReplyType ≠ timeExceededType := by decide
  cases htype : message[0]? with
  | none => simp [echoHeader?, htype]
  | some type =>
      rw [echoHeader?_eq htype]
      by_cases hreply : type = echoReplyType
      · rw [if_pos hreply]
        grind
      · rw [if_neg hreply]
        cases quotedEcho? (message.drop icmpHeaderLength) <;> grind

theorem ofDatagram?_eq_some_iff {reply : Reply} :
    ofDatagram? identifier maxHops data = some reply ↔
      ∃ message header, message? data = some message ∧ source? data = some reply.responder ∧
        echoHeader? message = some (reply.kind, header) ∧
        idAndSequence? header = some (identifier, reply.id.sequence) ∧
        reply.id.hop ≠ 0 ∧ reply.id.hop ≤ maxHops := by
  unfold ofDatagram?
  simp only [Option.bind_eq_bind, Option.bind_eq_some_iff]
  constructor
  · rintro ⟨message, hmessage, source, hsource, ⟨kind, header⟩, hecho, ⟨carried, sequence⟩, hnamed,
      hreply⟩
    split at hreply
    · next h =>
      obtain rfl := Option.some.inj hreply
      obtain ⟨rfl, hhop⟩ := h
      refine ⟨message, header, hmessage, hsource, hecho, ?_, hhop⟩
      rw [ProbeId.sequence_ofSequence]
      exact hnamed
    · simp at hreply
  · rintro ⟨message, header, hmessage, hsource, hecho, hnamed, hhop⟩
    refine ⟨message, hmessage, reply.responder, hsource, (reply.kind, header), hecho,
      (identifier, reply.id.sequence), hnamed, ?_⟩
    rw [ProbeId.ofSequence_sequence, if_pos ⟨rfl, hhop⟩]

/-- The lowest hop is the first one. -/
theorem one_le_hop_iff {hop : UInt8} : 1 ≤ hop ↔ hop ≠ 0 := by
  rw [UInt8.le_iff_toNat_le, Ne, ← UInt8.toNat_inj]
  exact Nat.one_le_iff_ne_zero

/-- A header that leads to a message is one behind which a message is found. -/
theorem leadsTo_iff {length : Nat} {source : IPv4} :
    LeadsTo data length source ↔
      message? data = some (data.drop length) ∧ source? data = some source ∧
        length + 8 ≤ data.length := by
  rw [message?_eq_some_iff, source?_eq_some_iff]
  constructor
  · intro h
    obtain ⟨first, hfirst, hversion, rfl⟩ := h.first
    exact ⟨⟨first, hfirst, h.protocol, h.least, hversion, h.long, h.room, rfl⟩, h.source, h.room⟩
  · rintro ⟨⟨first, hfirst, hprotocol, hleast, hversion, hlong, hroom, hdrop⟩, hsource, hin⟩
    -- what is left of the datagram tells how long its header is
    have hlength : length = headerLength first := by
      have heq := congrArg List.length hdrop
      rw [List.length_drop, List.length_drop] at heq
      omega
    subst hlength
    exact ⟨hleast, ⟨first, hfirst, hversion, rfl⟩, hprotocol, hlong, hroom, hsource⟩

/-- An ICMP message answers a probe when an echo header that names the probe is
found in it. -/
theorem answer_iff {start : Nat} {kind : ReplyKind} :
    Answer data start identifier id kind ↔
      ∃ header, echoHeader? (data.drop start) = some (kind, header) ∧
        idAndSequence? header = some (identifier, id.sequence) := by
  have hhead : (data.drop start)[0]? = data[start]? := List.getElem?_drop
  have hsum : carriedChecksum? (data.drop start) = some (checksum (data.drop start)) ↔
      wordAt data (start + 2) = some (internetChecksum (data.drop start)) := by
    rw [carriedChecksum?_drop, toNat_checksum_eq]
  simp only [echoHeader?_eq_some_iff, hhead, hsum, List.drop_drop, quotedEcho?_drop]
  constructor
  · intro h
    cases h with
    | echoReply type sum names =>
        exact ⟨data.drop start, .inl ⟨rfl, type, sum, rfl⟩, idAndSequence?_drop.2 names⟩
    | timeExceeded quoted type least first long room request names =>
        obtain ⟨b, hb, rfl⟩ := first
        exact ⟨_, .inr ⟨rfl, type, b, hb, long, room, request, rfl⟩, idAndSequence?_drop.2 names⟩
  · rintro ⟨header, ⟨rfl, htype, hcarried, rfl⟩ | ⟨rfl, htype, b, hb, hlong, hroom, hrequest, rfl⟩,
      hnamed⟩
    · exact .echoReply htype hcarried (idAndSequence?_drop.1 hnamed)
    · have hinside : start + icmpHeaderLength < data.length := (List.getElem?_eq_some_iff.1 hb).1
      exact .timeExceeded (headerLength b) htype hinside ⟨b, hb, rfl⟩ hlong hroom hrequest
        (idAndSequence?_drop.1 hnamed)

/-- **The grammar of replies.**  Reading a datagram never goes outside it, and
what is understood is exactly what the grammar says. -/
theorem reply_grammar (identifier : UInt16) (maxHops : UInt8) (data : List UInt8) :
    readReply identifier maxHops data = .ok (ofDatagram? identifier maxHops data) ∧
      ∀ reply, ofDatagram? identifier maxHops data = some reply ↔
        IsReply identifier maxHops data reply := by
  refine ⟨readReply_eq identifier maxHops data, fun reply => ?_⟩
  rw [ofDatagram?_eq_some_iff]
  constructor
  · rintro ⟨message, header, hmessage, hsource, hecho, hnamed, hhop, hmax⟩
    obtain ⟨first, -, -, -, -, -, hroom, rfl⟩ := message?_eq_some_iff.1 hmessage
    have hleads : LeadsTo data (headerLength first) reply.responder :=
      leadsTo_iff.2 ⟨hmessage, hsource, hroom⟩
    have hanswer : Answer data (headerLength first) identifier reply.id reply.kind :=
      answer_iff.2 ⟨header, hecho, hnamed⟩
    exact ⟨headerLength first, hleads, one_le_hop_iff.2 hhop, hmax, hanswer⟩
  · rintro ⟨length, hleads, hhop, hmax, hanswer⟩
    obtain ⟨hmessage, hsource, -⟩ := leadsTo_iff.1 hleads
    obtain ⟨header, hecho, hnamed⟩ := answer_iff.1 hanswer
    exact ⟨data.drop length, header, hmessage, hsource, hecho, hnamed, one_le_hop_iff.1 hhop, hmax⟩

end PathMeter.Reply
