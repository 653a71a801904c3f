import PathMeter.Wire.Reply

/-!
# Reading within bounds

The length nibbles in a datagram decide where the fields after them are looked
for, and whoever sent the datagram chose them.  Here the same reading is done
with bytes and slices that fail when they lie outside: `readReply` reads a
datagram step by step, each stage looking only at what the stage before it left.
It never fails and understands the datagram as `Reply.ofDatagram?` does
(`readReply_eq`).
-/

namespace PathMeter.Reply

open Wire

/-- A read outside a byte string: where it would have ended, and the length
there was. -/
structure OutOfRange where
  stop : Nat
  length : Nat
  deriving DecidableEq, Repr

/-- What reading comes to, if no read lies outside. -/
abbrev Reading (α : Type) : Type := Except OutOfRange α

/-- The shortest ICMP message that has a type and a checksum. -/
def leastMessage : Nat := 4

/-- The byte at a position. -/
def byteAt (data : List UInt8) (i : Nat) : Reading UInt8 :=
  match data[i]? with
  | some b => .ok b
  | none => .error ⟨i + 1, data.length⟩

/-- The bytes from a position on. -/
def sliceFrom (data : List UInt8) (start : Nat) : Reading (List UInt8) :=
  if start ≤ data.length then .ok (data.drop start) else .error ⟨start, data.length⟩

/-- The bytes from one position to another. -/
def slice (data : List UInt8) (start stop : Nat) : Reading (List UInt8) :=
  if start ≤ stop ∧ stop ≤ data.length then .ok ((data.drop start).take (stop - start))
  else .error ⟨stop, data.length⟩

/-- Identifier and sequence number, in the last four bytes of an echo header. -/
def readIdAndSequence (header : List UInt8) : Reading (UInt16 × UInt16) := do
  let fields ← slice header 4 8
  let a ← byteAt fields 0
  let b ← byteAt fields 1
  let c ← byteAt fields 2
  let d ← byteAt fields 3
  return (word a b, word c d)

/-- Source address and ICMP message in a datagram, if its header leads to
one. -/
def readMessage (data : List UInt8) : Reading (Option (IPv4 × List UInt8)) := do
  if data.length < leastHeader then return none
  else
    let first ← byteAt data 0
    let protocol ← byteAt data 9
    if first.toNat / 16 ≠ 4 ∨ protocol ≠ 1 then return none
    else if headerLength first < leastHeader ∨
        data.length < headerLength first + icmpHeaderLength then return none
    else
      let a ← byteAt data 12
      let b ← byteAt data 13
      let c ← byteAt data 14
      let d ← byteAt data 15
      let message ← sliceFrom data (headerLength first)
      return some (⟨a, b, c, d⟩, message)

/-- Identifier and sequence number of the echo request that is quoted, if there
is one. -/
def readQuotedEcho (quoted : List UInt8) : Reading (Option (UInt16 × UInt16)) := do
  match quoted[0]? with
  | none => return none
  | some first =>
    if headerLength first < leastHeader ∨
        quoted.length < headerLength first + icmpHeaderLength then return none
    else
      let header ← slice quoted (headerLength first) (headerLength first + icmpHeaderLength)
      let type ← byteAt header 0
      if type ≠ echoRequestType then return none
      else return some (← readIdAndSequence header)

/-- The kind of an answer with the identifier and the sequence number in it. -/
def readEcho (message : List UInt8) :
    Reading (Option (ReplyKind × UInt16 × UInt16)) := do
  if message.length < leastMessage then return none
  else
    let type ← byteAt message 0
    if type = echoReplyType then
      let high ← byteAt message 2
      let low ← byteAt message 3
      if checksum message ≠ word high low then return none
      else return some (.echoReply, ← readIdAndSequence message)
    else if type = timeExceededType then
      let quoted ← sliceFrom message icmpHeaderLength
      return (← readQuotedEcho quoted).map fun named => (.timeExceeded, named)
    else return none

/-- Understands a datagram as the answer to a probe, with every read checked. -/
def readReply (identifier : UInt16) (maxHops : UInt8) (data : List UInt8) :
    Reading (Option Reply) := do
  match ← readMessage data with
  | none => return none
  | some (responder, message) =>
    match ← readEcho message with
    | none => return none
    | some (kind, carried, sequence) =>
      let id := ProbeId.ofSequence sequence
      if carried ≠ identifier then return none
      else if id.hop = 0 ∨ maxHops < id.hop then return none
      else return some ⟨responder, id, kind⟩

/-! ### No read fails -/

variable {data : List UInt8}

theorem byteAt_eq {i : Nat} {b : UInt8} (h : data[i]? = some b) : byteAt data i = .ok b := by
  rw [byteAt, h]

theorem sliceFrom_eq {start : Nat} (h : start ≤ data.length) :
    sliceFrom data start = .ok (data.drop start) :=
  if_pos h

theorem slice_eq {start stop : Nat} (h : start ≤ stop ∧ stop ≤ data.length) :
    slice data start stop = .ok ((data.drop start).take (stop - start)) :=
  if_pos h

/-- A slice that reaches beyond the end is noticed. -/
example : slice [1, 2, 3] 2 6 = .error ⟨6, 3⟩ := rfl

/-- The source address is in the bytes from 12 to 15. -/
theorem source?_eq_some_iff {responder : IPv4} :
    source? data = some responder ↔
      data[12]? = some responder.a ∧ data[13]? = some responder.b ∧
        data[14]? = some responder.c ∧ data[15]? = some responder.d := by
  have hat (i : Nat) : data[12 + i]? = (data.drop 12)[i]? := List.getElem?_drop.symm
  rw [source?, hat 0, hat 1, hat 2, hat 3]
  cases responder
  match data.drop 12 with
  | [] | [_] | [_, _] | [_, _, _] => simp
  | _ :: _ :: _ :: _ :: _ => simp

/-- An echo header of full length shows an identifier and a sequence number, and
reading finds them there, also where nothing follows the header. -/
theorem readIdAndSequence_eq {header : List UInt8} (h : icmpHeaderLength ≤ header.length) :
    ∃ named, idAndSequence? header = some named ∧
      readIdAndSequence header = .ok named ∧
      readIdAndSequence (header.take icmpHeaderLength) = .ok named := by
  match header, h with
  | a :: b :: c :: d :: e :: f :: g :: i :: rest, _ =>
      have hroom : 8 ≤ (a :: b :: c :: d :: e :: f :: g :: i :: rest).length := by simp
      refine ⟨(word e f, word g i), rfl, ?_, rfl⟩
      rw [readIdAndSequence, slice_eq ⟨by decide, hroom⟩]
      rfl

/-- Every position before the end holds a byte. -/
theorem exists_byte {n i : Nat} (hn : n ≤ data.length) (hi : i < n) : ∃ b, data[i]? = some b :=
  ⟨data[i], List.getElem?_eq_getElem _⟩

/-- The message is found when every check on the header is passed. -/
theorem message?_eq {first protocol : UInt8} (hfirst : data[0]? = some first)
    (hprotocol : data[9]? = some protocol) :
    message? data =
      if leastHeader ≤ data.length ∧ first.toNat / 16 = 4 ∧ protocol = 1 ∧
          leastHeader ≤ headerLength first ∧
          headerLength first + icmpHeaderLength ≤ data.length then
        some (data.drop (headerLength first))
      else none := by
  rw [message?, hfirst, hprotocol]
  rfl

theorem readMessage_eq :
    readMessage data =
      .ok (do
        let message ← message? data
        let responder ← source? data
        return (responder, message)) := by
  unfold readMessage
  by_cases hshort : data.length < leastHeader
  · have hnone : message? data = none := by
      simp [message?, Nat.not_le.2 hshort]
    rw [if_pos hshort, hnone]
    rfl
  · have hleast : leastHeader ≤ data.length := Nat.le_of_not_lt hshort
    obtain ⟨first, hfirst⟩ := exists_byte hleast (i := 0) (by decide)
    obtain ⟨protocol, hprotocol⟩ := exists_byte hleast (i := 9) (by decide)
    obtain ⟨a, ha⟩ := exists_byte hleast (i := 12) (by decide)
    obtain ⟨b, hb⟩ := exists_byte hleast (i := 13) (by decide)
    obtain ⟨c, hc⟩ := exists_byte hleast (i := 14) (by decide)
    obtain ⟨d, hd⟩ := exists_byte hleast (i := 15) (by decide)
    have hsource : source? data = some ⟨a, b, c, d⟩ := source?_eq_some_iff.2 ⟨ha, hb, hc, hd⟩
    rw [if_neg hshort, byteAt_eq hfirst, byteAt_eq hprotocol, byteAt_eq ha, byteAt_eq hb,
      byteAt_eq hc, byteAt_eq hd, hsource, message?_eq hfirst hprotocol]
    show (if _ then _ else _) = _
    by_cases hkind : first.toNat / 16 ≠ 4 ∨ protocol ≠ 1
    · rw [if_pos hkind, if_neg (by grind)]
      rfl
    · rw [if_neg hkind]
      by_cases hroom : headerLength first < leastHeader ∨
          data.length < headerLength first + icmpHeaderLength
      · rw [if_pos hroom, if_neg (by grind)]
        rfl
      · rw [if_neg hroom, if_pos (by grind), sliceFrom_eq (by omega)]
        rfl

/-- The quoted echo header is found when every check on what is quoted is
passed. -/
theorem quotedEcho?_eq {quoted : List UInt8} {first type : UInt8}
    (hfirst : quoted[0]? = some first) (htype : quoted[headerLength first]? = some type) :
    quotedEcho? quoted =
      if leastHeader ≤ headerLength first ∧
          headerLength first + icmpHeaderLength ≤ quoted.length ∧ type = echoRequestType then
        some (quoted.drop (headerLength first))
      else none := by
  simp only [quotedEcho?, hfirst, htype, Option.bind_eq_bind, Option.bind_some]

theorem readQuotedEcho_eq {quoted : List UInt8} :
    readQuotedEcho quoted = .ok ((quotedEcho? quoted).bind idAndSequence?) := by
  unfold readQuotedEcho
  cases hfirst : quoted[0]? with
  | none =>
      have hnone : quotedEcho? quoted = none := by
        simp [quotedEcho?, hfirst]
      rw [hnone]
      rfl
  | some first =>
      show (if _ then _ else _) = _
      by_cases hroom : headerLength first < leastHeader ∨
          quoted.length < headerLength first + icmpHeaderLength
      · have hnone : quotedEcho? quoted = none := by
          simp [quotedEcho?, hfirst]
          omega
        rw [if_pos hroom, hnone]
        rfl
      · have hlength : headerLength first + icmpHeaderLength ≤ quoted.length :=
          Nat.le_of_not_lt (not_or.1 hroom).2
        obtain ⟨type, htype⟩ : ∃ type, quoted[headerLength first]? = some type :=
          exists_byte hlength (Nat.lt_add_of_pos_right (by decide))
        have hslice : slice quoted (headerLength first) (headerLength first + icmpHeaderLength) =
            .ok ((quoted.drop (headerLength first)).take icmpHeaderLength) := by
          rw [slice_eq ⟨Nat.le_add_right _ _, hlength⟩, Nat.add_sub_cancel_left]
        have hread : byteAt ((quoted.drop (headerLength first)).take icmpHeaderLength) 0 =
            .ok type :=
          byteAt_eq (by simp [htype, icmpHeaderLength])
        rw [if_neg hroom, hslice, quotedEcho?_eq hfirst htype]
        show (byteAt _ 0 >>= _) = _
        rw [hread]
        show (if _ then _ else _) = _
        by_cases hrequest : type = echoRequestType
        · have hheader : icmpHeaderLength ≤ (quoted.drop (headerLength first)).length := by
            rw [List.length_drop]
            omega
          obtain ⟨named, hnamed, -, hfields⟩ := readIdAndSequence_eq hheader
          rw [if_neg (not_not_intro hrequest), if_pos (by grind), Option.bind_some, hnamed, hfields]
          rfl
        · rw [if_pos hrequest, if_neg (by grind)]
          rfl

/-- What is looked for in an ICMP message depends on its type. -/
theorem echoHeader?_eq {message : List UInt8} {type : UInt8} (htype : message[0]? = some type) :
    echoHeader? message =
      if type = echoReplyType then
        if carriedChecksum? message = some (checksum message) then some (.echoReply, message)
        else none
      else if type = timeExceededType then
        (quotedEcho? (message.drop icmpHeaderLength)).map fun header => (.timeExceeded, header)
      else none := by
  simp only [echoHeader?, htype, Option.bind_eq_bind, Option.bind_some]

theorem carriedChecksum?_eq {message : List UInt8} {hi lo : UInt8} (hhi : message[2]? = some hi)
    (hlo : message[3]? = some lo) : carriedChecksum? message = some (word hi lo) := by
  match message, hhi, hlo with
  | _ :: _ :: _ :: _ :: _, rfl, rfl => rfl

theorem readEcho_eq {message : List UInt8} (h : icmpHeaderLength ≤ message.length) :
    readEcho message =
      .ok (do
        let (kind, header) ← echoHeader? message
        let named ← idAndSequence? header
        return (kind, named)) := by
  have hlength : icmpHeaderLength = 8 := rfl
  have hshort : ¬message.length < leastMessage := by
    rw [leastMessage]
    omega
  obtain ⟨type, htype⟩ := exists_byte h (i := 0) (by decide)
  obtain ⟨hi, hhi⟩ := exists_byte h (i := 2) (by decide)
  obtain ⟨lo, hlo⟩ := exists_byte h (i := 3) (by decide)
  obtain ⟨named, hnamed, hread, -⟩ := readIdAndSequence_eq h
  unfold readEcho
  rw [if_neg hshort, byteAt_eq htype, byteAt_eq hhi, byteAt_eq hlo, sliceFrom_eq h,
    echoHeader?_eq htype, carriedChecksum?_eq hhi hlo]
  show (if _ then (if _ then _ else _) else _) = _
  by_cases hreply : type = echoReplyType
  · rw [if_pos hreply, if_pos hreply]
    by_cases hsum : checksum message = word hi lo
    · rw [if_neg (not_not_intro hsum), if_pos (congrArg some hsum.symm), hread]
      show _ = Except.ok ((idAndSequence? message).bind _)
      rw [hnamed]
      rfl
    · have hother : some (word hi lo) ≠ some (checksum message) := by grind
      rw [if_pos hsum, if_neg hother]
      rfl
  · rw [if_neg hreply, if_neg hreply]
    by_cases hexceeded : type = timeExceededType
    · rw [if_pos hexceeded, if_pos hexceeded]
      show (readQuotedEcho _ >>= _) = _
      rw [readQuotedEcho_eq]
      cases quotedEcho? (message.drop icmpHeaderLength) with
      | none => rfl
      | some header =>
          show Except.ok _ = Except.ok ((idAndSequence? header).bind _)
          cases hnamed : idAndSequence? header with
          | none => simp [hnamed]
          | some named => simp [hnamed]
    · rw [if_neg hexceeded, if_neg hexceeded]
      rfl

/-- A message is found just behind the header of a datagram that has one. -/
theorem message?_eq_some_iff {message : List UInt8} :
    message? data = some message ↔
      ∃ first, data[0]? = some first ∧ data[9]? = some 1 ∧ leastHeader ≤ data.length ∧
        first.toNat / 16 = 4 ∧ leastHeader ≤ headerLength first ∧
        headerLength first + icmpHeaderLength ≤ data.length ∧
        message = data.drop (headerLength first) := by
  cases hfirst : data[0]? with
  | none => simp [message?, hfirst]
  | some first =>
    cases hprotocol : data[9]? with
    | none => simp [message?, hprotocol]
    | some protocol =>
      rw [message?_eq hfirst hprotocol]
      grind

/-- A message that is found has room for an ICMP header. -/
theorem length_of_message? {message : List UInt8} (h : message? data = some message) :
    icmpHeaderLength ≤ message.length := by
  obtain ⟨first, -, -, -, -, -, hroom, rfl⟩ := message?_eq_some_iff.1 h
  rw [List.length_drop]
  omega

/-- **Reading within bounds.**  Reading with every byte and slice checked never
fails, and understands each datagram as unchecked reading does. -/
theorem readReply_eq (identifier : UInt16) (maxHops : UInt8) (data : List UInt8) :
    readReply identifier maxHops data = .ok (ofDatagram? identifier maxHops data) := by
  unfold readReply ofDatagram?
  rw [readMessage_eq]
  cases hmessage : message? data with
  | none => rfl
  | some message =>
    cases hsource : source? data with
    | none => rfl
    | some responder =>
      show (readEcho message >>= _) = _
      rw [readEcho_eq (length_of_message? hmessage)]
      cases hecho : echoHeader? message with
      | none => simp [hecho]; rfl
      | some found =>
        obtain ⟨kind, header⟩ := found
        cases hnamed : idAndSequence? header with
        | none => simp [hecho, hnamed]; rfl
        | some named =>
          obtain ⟨carried, sequence⟩ := named
          simp only [hecho, hnamed, Option.bind_eq_bind, Option.bind_some, Option.pure_def]
          show (if _ then _ else if _ then _ else _) = _
          by_cases hcarried : carried = identifier
          · rw [if_neg (not_not_intro hcarried)]
            by_cases hrange : (ProbeId.ofSequence sequence).hop = 0 ∨
                maxHops < (ProbeId.ofSequence sequence).hop
            · rw [if_pos hrange, if_neg (by grind)]
              rfl
            · rw [if_neg hrange, if_pos (by grind)]
              rfl
          · rw [if_pos hcarried, if_neg (by grind)]
            rfl

end PathMeter.Reply
