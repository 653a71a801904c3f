import PathMeter.Config
import PathMeter.Engine.Listening
import PathMeter.Proofs.ReplyFormat
import PathMeter.Wire.Datagram

/-!
# Replies longer than what is read

Of a datagram only the first `Engine.readLimit` bytes are read.  A longer echo
reply is cut short, and then its checksum is that of the whole message while
only a part of the message is there to compare it with.

The payload of a probe repeats itself every 256 bytes, so what is cut off sums
to a multiple of the sum of one period and a remainder (`patternSum_add_periods`).
That is zero in sixteen-bit ones'-complement arithmetic at seven sizes only
(`patternSum_lost_iff`).  At all other sizes above the limit the destination's
answer is taken for foreign traffic (`returned_within_read_limit`).
-/

namespace PathMeter.Reply

open Wire

/-! ### The sum of a repeating payload -/

/-- So many bytes of a payload from a position on. -/
def patternFrom (start n : Nat) : List UInt8 :=
  (List.range' start n).map UInt8.ofNat

/-- What the words of these bytes add up to. -/
def patternSum : Nat → Nat → Nat
  | _, 0 => 0
  | start, 1 => 256 * (start % 256)
  | start, n + 2 => 256 * (start % 256) + (start + 1) % 256 + patternSum (start + 2) n

theorem sum_words_patternFrom (start n : Nat) :
    (words (patternFrom start n)).sum = patternSum start n := by
  fun_induction patternSum start n with
  | case1 => rfl
  | case2 => simp [patternFrom, words]
  | case3 start n ih =>
      rw [← ih]
      simp [patternFrom, List.range'_succ, words]

theorem drop_pattern (n k : Nat) : (pattern n).drop k = patternFrom k (n - k) := by
  rw [pattern, patternFrom, List.range_eq_range', ← List.map_drop, List.drop_range']
  simp

theorem length_pattern (n : Nat) : (pattern n).length = n := by
  simp [pattern]

theorem length_patternFrom (start n : Nat) : (patternFrom start n).length = n := by
  simp [patternFrom]

/-- A payload repeats itself every 256 bytes. -/
theorem patternFrom_period (q start n : Nat) :
    patternFrom (256 * q + start) n = patternFrom start n := by
  have hbyte (i : Nat) : UInt8.ofNat (256 * q + i) = UInt8.ofNat i := by
    apply UInt8.toNat_inj.1
    rw [UInt8.toNat_ofNat', UInt8.toNat_ofNat', Nat.mul_add_mod]
  rw [patternFrom, ← List.map_add_range', List.map_map]
  exact List.map_congr_left fun i _ => hbyte i

theorem patternFrom_add (start m n : Nat) :
    patternFrom start (m + n) = patternFrom start m ++ patternFrom (start + m) n := by
  unfold patternFrom
  rw [← List.map_append, ← List.range'_append_1]

/-- Whole periods at the front add their sum each. -/
theorem patternSum_add_periods (start q n : Nat) :
    patternSum start (256 * q + n) = q * patternSum start 256 + patternSum start n := by
  induction q with
  | zero => simp
  | succ q ih =>
      have hnext : 256 * (q + 1) + n = 256 + (256 * q + n) := by omega
      have hperiod : patternSum start (256 + (256 * q + n)) =
          patternSum start 256 + patternSum start (256 * q + n) := by
        rw [← sum_words_patternFrom, patternFrom_add, Nat.add_comm start, patternFrom_period 1,
          words_append (by rw [length_patternFrom]), List.sum_append, sum_words_patternFrom,
          sum_words_patternFrom]
      rw [hnext, hperiod, ih, Nat.succ_mul]
      omega

/-- The remainders of a period after which the sum from position 192 on is a
multiple of 255, as the sum of the whole period is; with that sum. -/
def remainders : List (Nat × Nat) :=
  [(0, 0), (25, 681360), (42, 1144185), (86, 1862265), (103, 1931625), (128, 2088960),
    (188, 2806020), (196, 2936580)]

theorem patternSum_remainder : ∀ r < 256, patternSum 192 r % 255 = 0 →
    (r, patternSum 192 r) ∈ remainders := by
  decide +kernel

/-- The payload sizes above the limit at which what is cut off sums to zero. -/
def survivingSizes : List Nat :=
  [8231, 12266, 23574, 28633, 34368, 49788, 51844]

/-- Where whole periods and such a remainder sum to zero, there is nothing to sum
or the size is one of these. -/
theorem periods_add_remainder : ∀ p ∈ remainders, ∀ q < 251,
    (q * 4177920 + p.2) % 65535 = 0 →
      256 * q + p.1 = 0 ∨ 1472 + (256 * q + p.1) ∈ survivingSizes := by
  decide +kernel

theorem sum_of_survivingSizes : ∀ p ∈ survivingSizes,
    ((p - 1472) / 256 * 4177920 + patternSum 192 ((p - 1472) % 256)) % 65535 = 0 := by
  decide +kernel

/-- Behind the first 1472 bytes of a payload there is a sum of zero just at these
sizes. -/
theorem patternSum_lost_iff {n : Nat} (hpos : 0 < n) (hle : 1472 + n ≤ 65507) :
    patternSum 1472 n % 65535 = 0 ↔ 1472 + n ∈ survivingSizes := by
  have hstart : patternSum 1472 n = patternSum 192 n := by
    rw [← sum_words_patternFrom, ← sum_words_patternFrom, patternFrom_period 5 192]
  have hperiod : patternSum 192 256 = 4177920 := by decide +kernel
  have hsplit := patternSum_add_periods 192 (n / 256) (n % 256)
  rw [Nat.div_add_mod, hperiod] at hsplit
  rw [hstart, hsplit]
  constructor
  · intro h
    -- 255 divides 65535 and the sum of a period, so only the remainder counts
    have hfactor : patternSum 192 (n % 256) % 255 = 0 := by
      generalize patternSum 192 (n % 256) = sum at h
      generalize n / 256 = q at h
      omega
    have hremainder := patternSum_remainder (n % 256) (Nat.mod_lt n (by decide)) hfactor
    have hvanish := periods_add_remainder _ hremainder (n / 256) (by omega) h
    rw [Nat.div_add_mod] at hvanish
    exact hvanish.resolve_left (Nat.ne_of_gt hpos)
  · intro h
    have hsum := sum_of_survivingSizes _ h
    rwa [Nat.add_sub_cancel_left] at hsum

/-! ### A reply cut short -/

variable {identifier : UInt16} {id : ProbeId} {payloadSize : Nat} {source : IPv4}
  {outer : List UInt8} {maxHops : UInt8}

theorem take_readLimit (hshort : outer.length = 20) (message : List UInt8) :
    (outer ++ message).take Engine.readLimit = outer ++ message.take 1480 := by
  have hlimit : Engine.readLimit = outer.length + 1480 := by
    rw [hshort]
    rfl
  rw [hlimit, List.take_length_add_append]

/-- An echo message that is cut short loses the end of its payload and nothing
else. -/
theorem take_echo (type : UInt8) (identifier : UInt16) (id : ProbeId) (payload : List UInt8) :
    ∃ h l, (echo type identifier id payload).take 1480 =
        type :: 0 :: h :: l :: high identifier :: low identifier :: id.cycle :: id.hop ::
          payload.take 1472 ∧
      (echo type identifier id payload).drop 1480 = payload.drop 1472 := by
  obtain ⟨h, l, hm⟩ := echo_eq type identifier id payload
  refine ⟨h, l, ?_, ?_⟩
  · rw [hm]
    rfl
  · rw [hm]
    rfl

theorem idAndSequence?_take_echo (type : UInt8) (identifier : UInt16) (id : ProbeId)
    (payload : List UInt8) :
    idAndSequence? ((echo type identifier id payload).take 1480) =
      some (identifier, id.sequence) := by
  obtain ⟨h, l, htake, -⟩ := take_echo type identifier id payload
  rw [htake, idAndSequence?, word_high_low]
  rfl

/-- The checksum of an echo reply that is cut short is right just when what is
cut off sums to zero. -/
theorem checksum_take_echo (type : UInt8) (identifier : UInt16) {id : ProbeId} (hhop : id.hop ≠ 0)
    (hlong : 1472 < payloadSize) (hfits : payloadSize ≤ 65507) :
    checksum (echo type identifier id (pattern payloadSize)) =
        checksum ((echo type identifier id (pattern payloadSize)).take 1480) ↔
      payloadSize ∈ survivingSizes := by
  obtain ⟨h, l, htake, hdrop⟩ := take_echo type identifier id (pattern payloadSize)
  have hlength : 1480 ≤ (echo type identifier id (pattern payloadSize)).length := by
    rw [length_echo, length_pattern, icmpHeaderLength]
    omega
  have hhop' : id.hop.toNat ≠ 0 := fun h => hhop (UInt8.toNat_inj.1 h)
  have hpos : 0 <
      (coveredWords ((echo type identifier id (pattern payloadSize)).take 1480)).sum := by
    rw [htake]
    simp only [coveredWords, words, List.eraseIdx_cons_succ, List.eraseIdx_zero, List.tail_cons,
      List.sum_cons]
    omega
  have hlost := patternSum_lost_iff (n := payloadSize - 1472) (by omega) (by omega)
  rw [Nat.add_sub_of_le (Nat.le_of_lt hlong), ← sum_words_patternFrom, ← drop_pattern] at hlost
  rw [checksum_take_eq_iff (by decide) (by decide) hlength hpos, hdrop, hlost]

/-- An echo reply that is cut short is still an echo reply if it survives the
cut, and nothing otherwise. -/
theorem echoHeader?_take_echo {id : ProbeId} (identifier : UInt16) (hhop : id.hop ≠ 0)
    (hlong : 1472 < payloadSize) (hfits : payloadSize ≤ 65507) :
    let m := (echo echoReplyType identifier id (pattern payloadSize)).take 1480
    echoHeader? m = if payloadSize ∈ survivingSizes then some (.echoReply, m) else none := by
  intro m
  obtain ⟨h, l, htake, -⟩ := take_echo echoReplyType identifier id (pattern payloadSize)
  have htype : m[0]? = some echoReplyType := by
    rw [show m = _ from htake]
    rfl
  have hcarried : carriedChecksum? m =
      some (checksum (echo echoReplyType identifier id (pattern payloadSize))) := by
    rw [carriedChecksum?_take (by decide), carriedChecksum?_echo]
  have hsurvives := checksum_take_echo echoReplyType identifier hhop hlong hfits
  rw [echoHeader?_eq htype, if_pos rfl, hcarried]
  by_cases hsize : payloadSize ∈ survivingSizes
  · rw [if_pos hsize, if_pos (congrArg some (hsurvives.2 hsize))]
  · rw [if_neg hsize, if_neg fun heq => hsize (hsurvives.1 (Option.some.inj heq))]

/-- A message without an echo header is foreign traffic. -/
theorem OuterHeader.ofDatagram?_eq_none (h : OuterHeader source outer) {message : List UInt8}
    (hlength : icmpHeaderLength ≤ message.length) (hecho : echoHeader? message = none) :
    Reply.ofDatagram? identifier maxHops (outer ++ message) = none := by
  obtain ⟨hmessage, hsource⟩ := h.leads hlength
  simp only [Reply.ofDatagram?, hmessage, hsource, hecho, Option.bind_eq_bind, Option.bind_some,
    Option.bind_none]

/-- What is read of an echo reply is understood if nothing of it is cut off or it
survives the cut. -/
theorem OuterHeader.ofDatagram?_take_echo (h : OuterHeader source outer) (hhop : 1 ≤ id.hop)
    (hmax : id.hop ≤ maxHops) (hfits : payloadSize ≤ 65507) :
    Reply.ofDatagram? identifier maxHops
        (outer ++ (echo echoReplyType identifier id (pattern payloadSize)).take 1480) =
      if payloadSize ≤ 1472 ∨ payloadSize ∈ survivingSizes then some ⟨source, id, .echoReply⟩
      else none := by
  have hseen : seenBy identifier maxHops identifier ⟨source, id, .echoReply⟩ =
      some ⟨source, id, .echoReply⟩ := if_pos ⟨rfl, hhop, hmax⟩
  have hlength : (echo echoReplyType identifier id (pattern payloadSize)).length =
      8 + payloadSize := by
    rw [length_echo, length_pattern, icmpHeaderLength]
  by_cases hsmall : payloadSize ≤ 1472
  · have hroom : icmpHeaderLength ≤
        (echo echoReplyType identifier id (pattern payloadSize)).length := by
      rw [hlength]
      exact Nat.le_add_right 8 _
    rw [if_pos (.inl hsmall), List.take_of_length_le (by omega), ← hseen]
    exact h.ofDatagram? hroom (echoHeader?_echo _) (idAndSequence?_echo ..)
  · have hlong : 1472 < payloadSize := Nat.lt_of_not_le hsmall
    have hroom : icmpHeaderLength ≤
        ((echo echoReplyType identifier id (pattern payloadSize)).take 1480).length := by
      rw [List.length_take_of_le (by omega)]
      decide
    have hecho := echoHeader?_take_echo identifier (one_le_hop_iff.1 hhop) hlong hfits
    by_cases hsize : payloadSize ∈ survivingSizes
    · rw [if_pos (.inr hsize), ← hseen]
      exact h.ofDatagram? hroom (hecho.trans (if_pos hsize)) (idAndSequence?_take_echo ..)
    · rw [if_neg (not_or.2 ⟨hsmall, hsize⟩)]
      exact h.ofDatagram?_eq_none hroom (hecho.trans (if_neg hsize))

/-- **The read limit.**  The destination's answer to a probe, read as far as
datagrams are read, is understood if its payload fits or is of one of the sizes
that survive the cut; every other answer is taken for foreign traffic. -/
theorem returned_within_read_limit (identifier : UInt16) (cycle : Nat) {hop maxHops : UInt8}
    (hhop : 1 ≤ hop) (hmax : hop ≤ maxHops) {payloadSize : Nat} (hfits : 28 + payloadSize ≤ 65535)
    {source : IPv4} {outer : List UInt8} (houter : OuterHeader source outer)
    (hshort : outer.length = 20) :
    Reply.ofDatagram? identifier maxHops
        ((outer ++ returned (echoRequest identifier (ProbeId.ofCycle cycle hop) payloadSize)).take
          Engine.readLimit) =
      if payloadSize ≤ 1472 ∨ payloadSize ∈ survivingSizes then
        some ⟨source, ⟨UInt8.ofNat (cycle % 256), hop⟩, .echoReply⟩
      else none := by
  rw [take_readLimit hshort, returned_echoRequest, ProbeId.ofCycle_eq]
  exact houter.ofDatagram?_take_echo hhop hmax (by omega)

/-- The header that made-up datagrams have. -/
def datagramHeader (source destination : IPv4) (ttl : UInt8) (length : Nat) : List UInt8 :=
  [0x45, 0] ++ bytes (UInt16.ofNat length) ++ [0, 0, 0, 0, ttl, 1, 0, 0] ++ source.bytes ++
    destination.bytes

theorem datagram_eq (source destination : IPv4) (ttl : UInt8) (icmp : List UInt8) :
    datagram source destination ttl icmp =
      datagramHeader source destination ttl (20 + icmp.length) ++ icmp :=
  rfl

theorem outerHeader_datagramHeader (source destination : IPv4) (ttl : UInt8) (length : Nat) :
    OuterHeader source (datagramHeader source destination ttl length) where
  long := ⟨0x45, rfl, by decide, rfl⟩
  version := ⟨0x45, rfl, by decide⟩
  protocol := rfl
  source := rfl

/-- An answer with a payload of 1472 bytes is understood, and one with another
byte is not. -/
theorem returned_at_read_limit :
    Reply.ofDatagram? 1 30 ((datagram ⟨8, 8, 8, 8⟩ ⟨192, 168, 1, 10⟩ 64
        (returned (echoRequest 1 (ProbeId.ofCycle 256 7) 1472))).take Engine.readLimit) =
      some ⟨⟨8, 8, 8, 8⟩, ⟨0, 7⟩, .echoReply⟩ ∧
    Reply.ofDatagram? 1 30 ((datagram ⟨8, 8, 8, 8⟩ ⟨192, 168, 1, 10⟩ 64
        (returned (echoRequest 1 (ProbeId.ofCycle 256 7) 1473))).take Engine.readLimit) = none := by
  rw [datagram_eq, datagram_eq]
  constructor
  · exact returned_within_read_limit 1 256 (by decide) (by decide) (by decide)
      (outerHeader_datagramHeader ..) rfl
  · exact returned_within_read_limit 1 256 (by decide) (by decide) (by decide)
      (outerHeader_datagramHeader ..) rfl

/-- A configuration that asks for payloads of 2000 bytes has no fault, and such
probes fit in a datagram; but the destination's answer is not understood. -/
theorem returned_payload_rejected :
    { Config.forTarget "8.8.8.8" with payloadSize := 2000 }.fault? = none ∧
    28 + 2000 ≤ 65535 ∧
    Reply.ofDatagram? 1 30 ((datagram ⟨8, 8, 8, 8⟩ ⟨192, 168, 1, 10⟩ 64
        (returned (echoRequest 1 (ProbeId.ofCycle 0 1) 2000))).take Engine.readLimit) = none := by
  decide +kernel

end PathMeter.Reply
