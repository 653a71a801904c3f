import PathMeter.Proofs.ReplyGrammar

/-!
# From request to reply

What an echo request looks like byte by byte (`IsRequest`), and that each of
its two answers is understood as naming the probe that the request belongs to.
The destination sends the request back under another type (`returned`); a
router quotes the head of it behind an IPv4 header (`exceeded`).  Both arrive
behind an IPv4 header of any length and with any bytes in the fields that are
not looked at (`OuterHeader`).

The request is understood again whatever identifier, cycle, hop and payload it
was made of, as long as it belongs to the run and the hop is one that the run
aims at (`reply_format`).
-/

namespace PathMeter.Reply

open Wire

/-- The echo request for a hop in a cycle, byte by byte. -/
structure IsRequest (identifier : UInt16) (cycle : Nat) (hop : UInt8) (payloadSize : Nat)
    (m : List UInt8) : Prop where
  length : m.length = 8 + payloadSize
  type : m[0]? = some 8
  code : m[1]? = some 0
  identifier : wordAt m 4 = some identifier.toNat
  sequence : wordAt m 6 = some (cycle % 256 * 256 + hop.toNat)
  payload : ∀ i < payloadSize, ∃ b, m[8 + i]? = some b ∧ b.toNat = i % 256
  /-- All words of the request, its checksum among them, add up to all ones. -/
  sum : (words m).foldl onesAdd 0 = 0xFFFF

/-- An IPv4 header of 5 to 15 words. -/
def IsHeader (header : List UInt8) : Prop :=
  ∃ first, header[0]? = some first ∧ 5 ≤ first.toNat % 16 ∧
    header.length = 4 * (first.toNat % 16)

/-- The header of an IPv4 datagram from this source that carries an ICMP
message. -/
structure OuterHeader (source : IPv4) (header : List UInt8) : Prop where
  long : IsHeader header
  version : ∃ first, header[0]? = some first ∧ first.toNat / 16 = 4
  protocol : header[9]? = some 1
  source : (header.drop 12).take 4 = source.bytes

/-- A request as the destination returns it: of another type, and with the
checksum made anew. -/
def returned (request : List UInt8) : List UInt8 :=
  sealed (request.set 0 echoReplyType)

/-- The message of a router that quotes the head of a request behind an IPv4
header.  The seven bytes behind the type do not matter. -/
def exceeded (seven quoted request trailing : List UInt8) : List UInt8 :=
  timeExceededType :: seven ++ quoted ++ request.take 8 ++ trailing

/-- What a reply to a probe of the run `identifier` is to the run `run`, which
aims at the hops up to `maxHops`. -/
def seenBy (run : UInt16) (maxHops : UInt8) (identifier : UInt16) (reply : Reply) :
    Option Reply :=
  if identifier = run ∧ 1 ≤ reply.id.hop ∧ reply.id.hop ≤ maxHops then some reply else none

/-! ### The request -/

variable {identifier run : UInt16} {id : ProbeId} {payloadSize : Nat}

/-- The bytes of an echo message around its checksum. -/
theorem echo_eq (type : UInt8) (identifier : UInt16) (id : ProbeId) (payload : List UInt8) :
    ∃ h l, echo type identifier id payload =
      type :: 0 :: h :: l :: high identifier :: low identifier :: id.cycle :: id.hop ::
        payload := by
  simp only [echo, bytes, ProbeId.sequence, high_word, low_word, List.cons_append, List.nil_append,
    sealed]
  exact ⟨_, _, rfl⟩

theorem length_echo (type : UInt8) (identifier : UInt16) (id : ProbeId) (payload : List UInt8) :
    (echo type identifier id payload).length = icmpHeaderLength + payload.length := by
  obtain ⟨h, l, hm⟩ := echo_eq type identifier id payload
  rw [hm]
  simp [icmpHeaderLength]
  omega

/-- An echo message carries its own checksum. -/
theorem carriedChecksum?_echo (type : UInt8) (identifier : UInt16) (id : ProbeId)
    (payload : List UInt8) :
    carriedChecksum? (echo type identifier id payload) =
      some (checksum (echo type identifier id payload)) :=
  carriedChecksum?_sealed (by simp [bytes])

theorem isRequest_echoRequest (identifier : UInt16) (cycle : Nat) (hop : UInt8)
    (payloadSize : Nat) :
    IsRequest identifier cycle hop payloadSize
      (echoRequest identifier (ProbeId.ofCycle cycle hop) payloadSize) := by
  have hsum : onesSum (words (echoRequest identifier (ProbeId.ofCycle cycle hop) payloadSize)) =
      65535 :=
    onesSum_of_carried (carriedChecksum?_echo ..)
  rw [onesSum_eq_foldl lt_of_mem_words] at hsum
  have hlength := length_echoRequest identifier (ProbeId.ofCycle cycle hop) payloadSize
  obtain ⟨h, l, hm⟩ := echo_eq echoRequestType identifier (ProbeId.ofCycle cycle hop)
    (pattern payloadSize)
  rw [← echoRequest] at hm
  constructor
  case length => exact hlength
  case sum => exact hsum
  all_goals rw [hm]
  case type => rfl
  case code => rfl
  case identifier =>
    have hword : word (high identifier) (low identifier) = identifier := word_high_low identifier
    exact wordAt_eq_some_toNat_iff.2 ⟨_, _, rfl, rfl, hword⟩
  case sequence =>
    refine wordAt_eq_some_iff.2 ⟨_, _, rfl, rfl, ?_⟩
    simp [ProbeId.ofCycle]
    omega
  case payload =>
    intro i hi
    refine ⟨UInt8.ofNat i, ?_, UInt8.toNat_ofNat'⟩
    rw [Nat.add_comm]
    simp [pattern, hi]

/-- The returned request is the echo reply of the same probe. -/
theorem returned_echoRequest :
    returned (echoRequest identifier id payloadSize) =
      echo echoReplyType identifier id (pattern payloadSize) := by
  obtain ⟨h, l, hm⟩ := echo_eq echoRequestType identifier id (pattern payloadSize)
  have hrequest : echo echoReplyType identifier id (pattern payloadSize) =
      sealed (echoReplyType :: 0 :: 0 :: 0 :: high identifier :: low identifier :: id.cycle ::
        id.hop :: pattern payloadSize) := by
    simp [echo, bytes, ProbeId.sequence, high_word, low_word]
  rw [returned, echoRequest, hm, hrequest]
  rfl

/-! ### Its answers -/

variable {source : IPv4} {outer : List UInt8} {maxHops : UInt8}

/-- Behind an outer header stands the message, and in it the source. -/
theorem OuterHeader.leads (h : OuterHeader source outer) {message : List UInt8}
    (hlength : icmpHeaderLength ≤ message.length) :
    message? (outer ++ message) = some message ∧ source? (outer ++ message) = some source := by
  obtain ⟨first, hfirst, hlong, hend⟩ := h.long
  obtain ⟨_, hsame, hversion⟩ := h.version
  obtain rfl := Option.some.inj (hfirst.symm.trans hsame)
  have hend' : headerLength first = outer.length := hend.symm
  have hicmp : icmpHeaderLength = 8 := rfl
  have hleast : leastHeader = 20 := rfl
  have hinside {i : Nat} (hi : i < 20) : (outer ++ message)[i]? = outer[i]? :=
    List.getElem?_append_left (by omega)
  have hsource (i : Nat) (hi : i < 4) : (outer ++ message)[12 + i]? = source.bytes[i]? := by
    rw [hinside (by omega), ← h.source, List.getElem?_take_of_lt hi, List.getElem?_drop]
  constructor
  · refine message?_eq_some_iff.2 ⟨first, ?_, ?_, ?_, hversion, ?_, ?_, ?_⟩
    · rw [hinside (by decide), hfirst]
    · rw [hinside (by decide), h.protocol]
    · rw [List.length_append]
      omega
    · omega
    · rw [List.length_append]
      omega
    · rw [hend', List.drop_left]
  · exact source?_eq_some_iff.2 ⟨hsource 0 (by decide), hsource 1 (by decide),
      hsource 2 (by decide), hsource 3 (by decide)⟩

/-- A datagram in which the stages find an echo header is what that header
names. -/
theorem OuterHeader.ofDatagram? (h : OuterHeader source outer) {message header : List UInt8}
    {kind : ReplyKind} (hlength : icmpHeaderLength ≤ message.length)
    (hecho : echoHeader? message = some (kind, header))
    (hnamed : idAndSequence? header = some (identifier, id.sequence)) :
    Reply.ofDatagram? run maxHops (outer ++ message) =
      seenBy run maxHops identifier ⟨source, id, kind⟩ := by
  obtain ⟨hmessage, hsource⟩ := h.leads hlength
  unfold Reply.ofDatagram? seenBy
  simp only [hmessage, hsource, hecho, hnamed, Option.bind_eq_bind, Option.bind_some,
    ProbeId.ofSequence_sequence, one_le_hop_iff]

/-- An echo message is its own echo header. -/
theorem echoHeader?_echo (payload : List UInt8) :
    echoHeader? (echo echoReplyType identifier id payload) =
      some (.echoReply, echo echoReplyType identifier id payload) := by
  obtain ⟨h, l, hm⟩ := echo_eq echoReplyType identifier id payload
  have htype : (echo echoReplyType identifier id payload)[0]? = some echoReplyType := by
    rw [hm]
    rfl
  exact echoHeader?_eq_some_iff.2 (.inl ⟨rfl, htype, carriedChecksum?_echo .., rfl⟩)

/-- Behind the header that a router quotes stands the echo header. -/
theorem quotedEcho?_append {quoted header : List UInt8} (hquoted : IsHeader quoted)
    (htype : header[0]? = some echoRequestType) (hlength : icmpHeaderLength ≤ header.length) :
    quotedEcho? (quoted ++ header) = some header := by
  obtain ⟨first, hfirst, hlong, hend⟩ := hquoted
  have hend' : headerLength first = quoted.length := hend.symm
  have hleast : leastHeader = 20 := rfl
  have hfirst' : (quoted ++ header)[0]? = some first := by
    rw [List.getElem?_append_left (by omega), hfirst]
  have htype' : (quoted ++ header)[headerLength first]? = some echoRequestType := by
    rw [hend', List.getElem?_append_right (Nat.le_refl _), Nat.sub_self, htype]
  have hroom : headerLength first + icmpHeaderLength ≤ (quoted ++ header).length := by
    rw [List.length_append]
    omega
  rw [quotedEcho?_eq hfirst' htype', if_pos ⟨by omega, hroom, rfl⟩, hend', List.drop_left]

/-- Eight bytes of a message are all that its identifier and its sequence
number are in. -/
theorem idAndSequence?_take {m : List UInt8} (h : icmpHeaderLength ≤ m.length)
    (rest : List UInt8) : idAndSequence? (m.take 8 ++ rest) = idAndSequence? m := by
  match m, h with
  | _ :: _ :: _ :: _ :: _ :: _ :: _ :: _ :: _, _ => rfl

/-- What a router quotes of a request is its echo header. -/
theorem echoHeader?_exceeded {seven quoted request : List UInt8} (trailing : List UInt8)
    (hseven : seven.length = 7) (hquoted : IsHeader quoted)
    (htype : request[0]? = some echoRequestType) (hlength : icmpHeaderLength ≤ request.length) :
    echoHeader? (exceeded seven quoted request trailing) =
      some (.timeExceeded, request.take 8 ++ trailing) := by
  have hhead : (timeExceededType :: seven).length = icmpHeaderLength := congrArg (· + 1) hseven
  have hdrop : (exceeded seven quoted request trailing).drop icmpHeaderLength =
      quoted ++ (request.take 8 ++ trailing) := by
    rw [exceeded, List.append_assoc, List.append_assoc, ← hhead, List.drop_left]
  have htake : (request.take 8).length = 8 := List.length_take_of_le hlength
  have hfirst : (request.take 8 ++ trailing)[0]? = some echoRequestType := by
    rw [List.getElem?_append_left (by omega), List.getElem?_take_of_lt (by decide), htype]
  refine echoHeader?_eq_some_iff.2 (.inr ⟨rfl, rfl, ?_⟩)
  rw [hdrop]
  refine quotedEcho?_append hquoted hfirst ?_
  rw [List.length_append, htake]
  exact Nat.le_add_right 8 _

/-- **From request to reply.**  The echo request for a hop in a cycle is of the
form that its bytes should have.  Returned by the destination, or quoted by a
router, behind any header and to any run, it is understood as that hop in that
cycle, modulo 256, if it belongs to the run and the run aims at the hop; and
otherwise as nothing. -/
theorem reply_format (identifier : UInt16) (cycle : Nat) (hop : UInt8) (payloadSize : Nat)
    (run : UInt16) (maxHops : UInt8) {source : IPv4} {outer : List UInt8}
    (houter : OuterHeader source outer) {seven quoted : List UInt8} (hseven : seven.length = 7)
    (hquoted : IsHeader quoted) (trailing : List UInt8) :
    let request := echoRequest identifier (ProbeId.ofCycle cycle hop) payloadSize
    let id : ProbeId := ⟨UInt8.ofNat (cycle % 256), hop⟩
    IsRequest identifier cycle hop payloadSize request ∧
      Reply.ofDatagram? run maxHops (outer ++ returned request) =
        seenBy run maxHops identifier ⟨source, id, .echoReply⟩ ∧
      Reply.ofDatagram? run maxHops (outer ++ exceeded seven quoted request trailing) =
        seenBy run maxHops identifier ⟨source, id, .timeExceeded⟩ := by
  intro request id
  have hid : ProbeId.ofCycle cycle hop = id := ProbeId.ofCycle_eq cycle hop
  have hrequest : IsRequest identifier cycle hop payloadSize request :=
    isRequest_echoRequest identifier cycle hop payloadSize
  have hlength : icmpHeaderLength ≤ request.length := by
    rw [hrequest.length]
    exact Nat.le_add_right 8 payloadSize
  have hreturned : returned request = echo echoReplyType identifier id (pattern payloadSize) := by
    rw [← hid]
    exact returned_echoRequest
  have hquotes : idAndSequence? (request.take 8 ++ trailing) = some (identifier, id.sequence) := by
    rw [idAndSequence?_take hlength, ← hid]
    exact idAndSequence?_echo ..
  refine ⟨hrequest, ?_, ?_⟩
  · rw [hreturned]
    refine houter.ofDatagram? ?_ (echoHeader?_echo _) (idAndSequence?_echo ..)
    rw [length_echo]
    exact Nat.le_add_right _ _
  · refine houter.ofDatagram? ?_
      (echoHeader?_exceeded trailing hseven hquoted hrequest.type hlength) hquotes
    simp only [exceeded, List.length_append, List.length_cons, hseven, icmpHeaderLength]
    omega

/-- A header of fifteen words from this source, all ones where nothing is looked
at. -/
def widestHeader (source : IPv4) : List UInt8 :=
  0x4F :: List.replicate 8 0xFF ++ [1, 0xFF, 0xFF] ++ source.bytes ++ List.replicate 44 0xFF

theorem outerHeader_widestHeader (source : IPv4) : OuterHeader source (widestHeader source) where
  long := ⟨0x4F, rfl, by decide, rfl⟩
  version := ⟨0x4F, rfl, by decide⟩
  protocol := rfl
  source := rfl

/-- Behind the longest header, and quoting one with an option, hop 7 in cycle
1000 is told from the request for it. -/
theorem reply_format_behind_options :
    OuterHeader ⟨10, 1, 2, 3⟩ (widestHeader ⟨10, 1, 2, 3⟩) ∧
      IsHeader (List.replicate 24 0x46) ∧
      Reply.ofDatagram? 0xBEEF 30 (widestHeader ⟨10, 1, 2, 3⟩ ++
          returned (echoRequest 0xBEEF (ProbeId.ofCycle 1000 7) 3)) =
        some ⟨⟨10, 1, 2, 3⟩, ⟨232, 7⟩, .echoReply⟩ ∧
      Reply.ofDatagram? 0xBEEF 30 (widestHeader ⟨10, 1, 2, 3⟩ ++
          exceeded (List.replicate 7 0xFF) (List.replicate 24 0x46)
            (echoRequest 0xBEEF (ProbeId.ofCycle 1000 7) 3) [1, 2, 3]) =
        some ⟨⟨10, 1, 2, 3⟩, ⟨232, 7⟩, .timeExceeded⟩ := by
  have houter := outerHeader_widestHeader ⟨10, 1, 2, 3⟩
  have hquoted : IsHeader (List.replicate 24 0x46) := ⟨0x46, rfl, by decide, rfl⟩
  obtain ⟨-, hreturned, hexceeded⟩ :=
    reply_format 0xBEEF 1000 7 3 0xBEEF 30 houter (List.length_replicate (a := 0xFF)) hquoted
      [1, 2, 3]
  exact ⟨houter, hquoted, hreturned, hexceeded⟩

end PathMeter.Reply
