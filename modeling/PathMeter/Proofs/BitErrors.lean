import PathMeter.Proofs.ReplyGrammar
import PathMeter.Wire.Datagram

/-!
# Bits turned over in transit

A bit turned over in a byte makes it larger or smaller by a power of two, and
the word that the byte is in by a power of two as well, of at most sixteen bits
(`sum_words_flipBitAt`).  No such power is a multiple of 65535, so a message that
summed to all ones does not do so any more (`onesSum_flipBitAt_ne`).

An echo reply carries a checksum that makes it sum to all ones.  One bit turned
over in its type makes it another kind of message, and none that is looked at;
one bit turned over anywhere else spoils the checksum.  Either way what is left
is no answer to any probe (`echo_reply_protected`).  A time-exceeded message has
no such protection, as nothing there is summed.
-/

namespace PathMeter.Wire

/-- A byte with one bit turned over, counted from the low end. -/
def flipBit (b : UInt8) (bit : Nat) : UInt8 :=
  b ^^^ UInt8.ofNat (2 ^ bit)

/-- A byte string with one bit turned over in the byte at a position. -/
def flipBitAt (data : List UInt8) (i bit : Nat) : List UInt8 :=
  data.modify i fun b => flipBit b bit

/-! ### One byte -/

/-- One bit more or less is worth its power of two. -/
theorem toNat_flipBit {bit : Nat} (hbit : bit < 8) (b : UInt8) :
    (flipBit b bit).toNat = b.toNat + 2 ^ bit ∨ b.toNat = (flipBit b bit).toNat + 2 ^ bit := by
  have htable : ∀ n : Fin 256, ∀ k : Fin 8,
      (flipBit (UInt8.ofNat n) k).toNat = n + 2 ^ (k : Nat) ∨
        n = (flipBit (UInt8.ofNat n) k).toNat + 2 ^ (k : Nat) := by
    decide +kernel
  simpa using htable ⟨b.toNat, b.toNat_lt⟩ ⟨bit, hbit⟩

/-! ### A message -/

/-- A bit turned over in a message is worth a power of two in its sum. -/
theorem sum_words_flipBitAt {m : List UInt8} {i bit : Nat} (hi : i < m.length) (hbit : bit < 8) :
    ∃ k < 16, (words (flipBitAt m i bit)).sum = (words m).sum + 2 ^ k ∨
      (words m).sum = (words (flipBitAt m i bit)).sum + 2 ^ k := by
  have hpow : 2 ^ (bit + 8) = 256 * 2 ^ bit := by
    rw [Nat.pow_add, Nat.mul_comm]
  fun_induction words m generalizing i with
  | case1 => simp at hi
  | case2 b =>
      obtain rfl : i = 0 := by simpa using hi
      have hb := toNat_flipBit hbit b
      refine ⟨bit + 8, by omega, ?_⟩
      simp only [flipBitAt, List.modify_zero_cons, words, List.sum_cons, List.sum_nil]
      omega
  | case3 h l rest ih =>
      rcases i with _ | _ | i
      · have hh := toNat_flipBit hbit h
        refine ⟨bit + 8, by omega, ?_⟩
        simp only [flipBitAt, List.modify_zero_cons, words, List.sum_cons]
        omega
      · have hl := toNat_flipBit hbit l
        refine ⟨bit, by omega, ?_⟩
        simp only [flipBitAt, List.modify_succ_cons, List.modify_zero_cons, words, List.sum_cons]
        omega
      · have hrest : i < rest.length := by
          simp only [List.length_cons] at hi
          omega
        obtain ⟨k, hk, hsum⟩ := ih hrest
        refine ⟨k, hk, ?_⟩
        simp only [flipBitAt, List.modify_succ_cons, words, List.sum_cons] at hsum ⊢
        omega

/-- What sums to all ones does not any more with one bit turned over. -/
theorem onesSum_flipBitAt_ne {m : List UInt8} {i bit : Nat} (hi : i < m.length) (hbit : bit < 8)
    (h : onesSum (words m) = 65535) : onesSum (words (flipBitAt m i bit)) ≠ 65535 := by
  obtain ⟨k, hk, hsum⟩ := sum_words_flipBitAt hi hbit
  have hpos : 0 < 2 ^ k := Nat.two_pow_pos k
  have hle : 2 ^ k ≤ 2 ^ 15 := Nat.pow_le_pow_right (by decide) (Nat.le_of_lt_succ hk)
  intro h'
  have hmod := foldCarries_mod (words m).sum
  have hmod' := foldCarries_mod (words (flipBitAt m i bit)).sum
  rw [← onesSum_eq, h] at hmod
  rw [← onesSum_eq, h'] at hmod'
  omega

theorem length_flipBitAt (data : List UInt8) (i bit : Nat) :
    (flipBitAt data i bit).length = data.length :=
  List.length_modify ..

theorem getElem?_flipBitAt_of_ne {data : List UInt8} {i j : Nat} (bit : Nat) (h : i ≠ j) :
    (flipBitAt data i bit)[j]? = data[j]? :=
  List.getElem?_modify_ne _ _ h

/-- Behind a header, a bit is turned over in what follows it. -/
theorem drop_flipBitAt {data : List UInt8} {n i : Nat} (bit : Nat) (h : n ≤ i) :
    (flipBitAt data i bit).drop n = flipBitAt (data.drop n) (i - n) bit := by
  apply List.ext_getElem?
  intro j
  have hsame : i = n + j ↔ i - n = j := by omega
  simp only [flipBitAt, List.getElem?_drop, List.getElem?_modify, hsame]

end PathMeter.Wire

namespace PathMeter.Reply

open Wire

variable {identifier : UInt16} {maxHops : UInt8} {data : List UInt8}

/-- No bit turned over makes an echo reply a message of a type that is looked
at. -/
theorem flipBit_echoReplyType {bit : Nat} (hbit : bit < 8) :
    flipBit echoReplyType bit ≠ echoReplyType ∧ flipBit echoReplyType bit ≠ timeExceededType := by
  have htable : ∀ k : Fin 8,
      flipBit echoReplyType k ≠ echoReplyType ∧ flipBit echoReplyType k ≠ timeExceededType := by
    decide
  exact htable ⟨bit, hbit⟩

/-- An echo reply with one bit turned over has no echo header any more. -/
theorem echoHeader?_flipBitAt {m : List UInt8} {i bit : Nat} (htype : m[0]? = some echoReplyType)
    (hcarried : carriedChecksum? m = some (checksum m)) (hi : i < m.length) (hbit : bit < 8) :
    echoHeader? (flipBitAt m i bit) = none := by
  by_cases hzero : i = 0
  · subst hzero
    obtain ⟨hreply, hexceeded⟩ := flipBit_echoReplyType hbit
    have hother : (flipBitAt m 0 bit)[0]? = some (flipBit echoReplyType bit) := by
      rw [flipBitAt, List.getElem?_modify_eq, htype]
      rfl
    rw [echoHeader?_eq hother, if_neg hreply, if_neg hexceeded]
  · have hsame : (flipBitAt m i bit)[0]? = some echoReplyType := by
      rw [getElem?_flipBitAt_of_ne bit hzero, htype]
    have hspoiled : carriedChecksum? (flipBitAt m i bit) ≠ some (checksum (flipBitAt m i bit)) :=
      fun h => onesSum_flipBitAt_ne hi hbit (onesSum_of_carried hcarried) (onesSum_of_carried h)
    rw [echoHeader?_eq hsame, if_pos rfl, if_neg hspoiled]

/-- A bit turned over behind the header of a datagram leaves the header leading
to the same place. -/
theorem message?_flipBitAt {first : UInt8} {i : Nat} (bit : Nat) (hfirst : data[0]? = some first)
    (hmessage : message? data = some (data.drop (headerLength first)))
    (hi : headerLength first ≤ i) :
    message? (flipBitAt data i bit) =
      some (flipBitAt (data.drop (headerLength first)) (i - headerLength first) bit) := by
  obtain ⟨b, hb, hprotocol, hleast, hversion, hlong, hroom, -⟩ := message?_eq_some_iff.1 hmessage
  obtain rfl := Option.some.inj (hfirst.symm.trans hb)
  have hbehind : 20 ≤ i := Nat.le_trans hlong hi
  have hdrop : (flipBitAt data i bit).drop (headerLength first) =
      flipBitAt (data.drop (headerLength first)) (i - headerLength first) bit :=
    drop_flipBitAt bit hi
  refine message?_eq_some_iff.2 ⟨first, ?_, ?_, ?_, hversion, hlong, ?_, hdrop.symm⟩
  · rw [getElem?_flipBitAt_of_ne bit (by omega), hfirst]
  · rw [getElem?_flipBitAt_of_ne bit (by omega), hprotocol]
  · rw [length_flipBitAt]
    exact hleast
  · rw [length_flipBitAt]
    exact hroom

/-- **What protects an echo reply.**  The words of every echo reply that is
understood add up to all ones, and with any one bit of it turned over the
datagram is understood as nothing. -/
theorem echo_reply_protected {reply : Reply}
    (h : ofDatagram? identifier maxHops data = some reply) (hkind : reply.kind = .echoReply) :
    ∃ length, LeadsTo data length reply.responder ∧
      (words (data.drop length)).foldl onesAdd 0 = 0xFFFF ∧
      ∀ i bit, length ≤ i → i < data.length → bit < 8 →
        ofDatagram? identifier maxHops (flipBitAt data i bit) = none := by
  obtain ⟨message, header, hmessage, hsource, hecho, -⟩ := ofDatagram?_eq_some_iff.1 h
  obtain ⟨first, hfirst, -, -, -, -, hroom, rfl⟩ := message?_eq_some_iff.1 hmessage
  obtain ⟨-, htype, hcarried, -⟩ : _ ∧ _ ∧ _ ∧ _ := by
    rcases echoHeader?_eq_some_iff.1 hecho with hreply | ⟨hexceeded, -⟩
    · exact hreply
    · rw [hkind] at hexceeded
      cases hexceeded
  refine ⟨headerLength first, leadsTo_iff.2 ⟨hmessage, hsource, hroom⟩, ?_, ?_⟩
  · rw [← onesSum_eq_foldl lt_of_mem_words]
    exact onesSum_of_carried hcarried
  · intro i bit hi hlt hbit
    have hinside : i - headerLength first < (data.drop (headerLength first)).length := by
      rw [List.length_drop]
      omega
    have hnone := echoHeader?_flipBitAt htype hcarried hinside hbit
    cases hflipped : ofDatagram? identifier maxHops (flipBitAt data i bit) with
    | none => rfl
    | some other =>
        obtain ⟨m, _, hm, -, hfound, -⟩ := ofDatagram?_eq_some_iff.1 hflipped
        rw [message?_flipBitAt bit hfirst hmessage hi] at hm
        obtain rfl := Option.some.inj hm
        rw [hnone] at hfound
        cases hfound

/-- The destination's answer for hop 12 in cycle 3, with three bytes of
payload. -/
def oddAnswer : List UInt8 :=
  datagram ⟨8, 8, 8, 8⟩ ⟨192, 168, 1, 10⟩ 64 (echo echoReplyType 0xBEEF ⟨3, 12⟩ [1, 2, 3])

/-- With the highest bit of its last byte turned over, a byte that is half a
word, the answer is understood no more. -/
theorem odd_answer_protected :
    ofDatagram? 0xBEEF 30 oddAnswer = some ⟨⟨8, 8, 8, 8⟩, ⟨3, 12⟩, .echoReply⟩ ∧
      oddAnswer.length = 31 ∧ (words (oddAnswer.drop 20)).foldl onesAdd 0 = 0xFFFF ∧
      ofDatagram? 0xBEEF 30 (flipBitAt oddAnswer 30 7) = none := by
  have hanswer : ofDatagram? 0xBEEF 30 oddAnswer =
      some ⟨⟨8, 8, 8, 8⟩, ⟨3, 12⟩, .echoReply⟩ := by
    decide +kernel
  have hlength : oddAnswer.length = 31 := by decide +kernel
  obtain ⟨length, hleads, hsum, hflipped⟩ := echo_reply_protected hanswer rfl
  obtain rfl : length = 20 := by
    obtain ⟨first, hfirst, -, hheader⟩ := hleads.first
    obtain rfl : 0x45 = first := Option.some.inj hfirst
    exact hheader
  exact ⟨hanswer, hlength, hsum, hflipped 30 7 (by decide) (by omega) (by decide)⟩

end PathMeter.Reply
