import Mathlib.Algebra.GroupWithZero.Nat
import PathMeter.Wire.Checksum

/-!
# Ones'-complement sums

In ones'-complement arithmetic a carry out of the sixteen bits is added back in
at the low end.  `onesAdd` adds two words in this way; adding the words of a
message one by one and folding the carries of their ordinary sum give the same
(`onesSum_eq_foldl`).  What comes out is the ordinary sum modulo 65535, where
zero is told from 65535 by whether anything was added at all
(`foldCarries_mod`, `foldCarries_eq_zero`).

Two laws of the checksum follow.  A message that carries its own checksum sums
to all ones (`onesSum_of_carried`), which holds of every sealed message.  And
cutting a message short after a whole number of words leaves its checksum right
just when what was cut off sums to zero (`checksum_take_eq_iff`).
-/

namespace PathMeter.Wire

/-- The sum of two sixteen-bit words, the carry added back in at the low end. -/
def onesAdd (a b : Nat) : Nat :=
  if a + b < 65536 then a + b else a + b - 65535

/-! ### Folding carries -/

theorem foldCarries_le (n : Nat) : foldCarries n ≤ 65535 := by
  fun_induction foldCarries n with
  | case1 n h => exact Nat.le_of_lt_succ h
  | case2 n h ih => exact ih

/-- A carry folded back in is worth as much as before, modulo 65535. -/
theorem foldCarries_mod (n : Nat) : foldCarries n % 65535 = n % 65535 := by
  fun_induction foldCarries n with
  | case1 n h => rfl
  | case2 n h ih =>
      rw [ih]
      omega

/-- Folding carries makes nothing of something only where there was nothing. -/
theorem foldCarries_eq_zero {n : Nat} : foldCarries n = 0 ↔ n = 0 := by
  fun_induction foldCarries n with
  | case1 n h => rfl
  | case2 n h ih =>
      rw [ih]
      omega

/-- Two sums fold to the same word when they agree modulo 65535 and are both
zero or both not. -/
theorem foldCarries_eq_iff {m n : Nat} :
    foldCarries m = foldCarries n ↔ m % 65535 = n % 65535 ∧ (m = 0 ↔ n = 0) := by
  have hm := foldCarries_le m
  have hn := foldCarries_le n
  rw [← foldCarries_mod m, ← foldCarries_mod n, ← foldCarries_eq_zero (n := m),
    ← foldCarries_eq_zero (n := n)]
  omega

theorem foldCarries_add_left (m n : Nat) :
    foldCarries (foldCarries m + n) = foldCarries (m + n) := by
  have hmod := foldCarries_mod m
  have hzero := foldCarries_eq_zero (n := m)
  rw [foldCarries_eq_iff]
  omega

/-- Adding two words with the carry brought around folds the carry of their
ordinary sum. -/
theorem onesAdd_eq {a b : Nat} (ha : a < 65536) (hb : b < 65536) :
    onesAdd a b = foldCarries (a + b) := by
  have hle := foldCarries_le (a + b)
  have hmod := foldCarries_mod (a + b)
  have hzero := foldCarries_eq_zero (n := a + b)
  unfold onesAdd
  split <;> omega

/-! ### Sums of words -/

theorem onesSum_eq (ws : List Nat) : onesSum ws = foldCarries ws.sum := by
  rw [onesSum, List.sum_eq_foldl]

theorem foldl_onesAdd {ws : List Nat} (hws : ∀ w ∈ ws, w < 65536) (n : Nat) :
    ws.foldl onesAdd (foldCarries n) = foldCarries (n + ws.sum) := by
  induction ws generalizing n with
  | nil => rfl
  | cons w rest ih =>
      have hn : foldCarries n < 65536 := Nat.lt_succ_of_le (foldCarries_le n)
      rw [List.foldl_cons, onesAdd_eq hn (hws w List.mem_cons_self), foldCarries_add_left,
        ih fun v hv => hws v (List.mem_cons_of_mem _ hv), List.sum_cons, Nat.add_assoc]

/-- **The sum of words** is what adding them one by one with the carry brought
around comes to. -/
theorem onesSum_eq_foldl {ws : List Nat} (hws : ∀ w ∈ ws, w < 65536) :
    onesSum ws = ws.foldl onesAdd 0 := by
  have hzero : foldCarries 0 = 0 := foldCarries_eq_zero.2 rfl
  have hfold := foldl_onesAdd hws 0
  rw [hzero, Nat.zero_add] at hfold
  rw [onesSum_eq, hfold]

theorem lt_of_mem_words {m : List UInt8} : ∀ w ∈ words m, w < 65536 := by
  fun_induction words m with
  | case1 => simp
  | case2 b =>
      have hb := b.toNat_lt
      intro w hw
      rw [List.mem_singleton.1 hw]
      omega
  | case3 h l rest ih =>
      have hh := h.toNat_lt
      have hl := l.toNat_lt
      intro w hw
      rcases List.mem_cons.1 hw with rfl | hw
      · omega
      · exact ih w hw

/-- A message cut after a whole number of words has the words of its parts. -/
theorem words_append {a : List UInt8} (ha : a.length % 2 = 0) (b : List UInt8) :
    words (a ++ b) = words a ++ words b := by
  fun_induction words a with
  | case1 => rfl
  | case2 => simp at ha
  | case3 h l rest ih =>
      have hrest : rest.length % 2 = 0 := by
        simp only [List.length_cons] at ha
        omega
      show _ :: words (rest ++ b) = _
      rw [ih hrest]
      rfl

/-! ### Checksums -/

theorem toNat_checksum (m : List UInt8) :
    (checksum m).toNat = 65535 - onesSum (coveredWords m) := by
  rw [checksum, UInt16.toNat_ofNat', Nat.mod_eq_of_lt (by omega)]

/-- The checksum that a message carries is the one word that it does not
cover. -/
theorem sum_words_of_carried {m : List UInt8} {c : UInt16} (h : carriedChecksum? m = some c) :
    (words m).sum = (coveredWords m).sum + c.toNat := by
  unfold carriedChecksum? at h
  split at h
  · next a b high low rest =>
    obtain rfl := Option.some.inj h
    rw [toNat_word]
    simp only [coveredWords, words, List.eraseIdx_cons_succ, List.eraseIdx_zero, List.tail_cons,
      List.sum_cons]
    omega
  · simp at h

/-- **A message that carries its own checksum sums to all ones.** -/
theorem onesSum_of_carried {m : List UInt8} (h : carriedChecksum? m = some (checksum m)) :
    onesSum (words m) = 65535 := by
  have hle := foldCarries_le (coveredWords m).sum
  have hmod := foldCarries_mod (coveredWords m).sum
  have hzero := foldCarries_eq_zero (n := (coveredWords m).sum)
  have hones : foldCarries 65535 = 65535 := by decide +kernel
  rw [onesSum_eq, sum_words_of_carried h, toNat_checksum, onesSum_eq, ← hones, foldCarries_eq_iff]
  omega

/-- A sealed message carries its own checksum, if it has room for one. -/
theorem carriedChecksum?_sealed {m : List UInt8} (h : 4 ≤ m.length) :
    carriedChecksum? (sealed m) = some (checksum (sealed m)) := by
  unfold sealed
  split
  · next a b high low rest =>
    simp only [carriedChecksum?, word_high_low]
    exact congrArg some (checksum_field ..)
  · next hshort =>
    match m, h, hshort with
    | a :: b :: c :: d :: rest, _, hshort => exact absurd rfl (hshort a b c d rest)

theorem carriedChecksum?_take {m : List UInt8} {n : Nat} (hn : 4 ≤ n) :
    carriedChecksum? (m.take n) = carriedChecksum? m := by
  obtain ⟨n, rfl⟩ := Nat.exists_eq_add_of_le' hn
  match m with
  | [] | [_] | [_, _] | [_, _, _] | _ :: _ :: _ :: _ :: _ => rfl

theorem checksum_eq_iff {m m' : List UInt8} :
    checksum m = checksum m' ↔
      foldCarries (coveredWords m).sum = foldCarries (coveredWords m').sum := by
  have hle := foldCarries_le (coveredWords m).sum
  have hle' := foldCarries_le (coveredWords m').sum
  rw [← UInt16.toNat_inj, toNat_checksum, toNat_checksum, onesSum_eq, onesSum_eq]
  omega

theorem coveredWords_take {m : List UInt8} {n : Nat} (hn : 4 ≤ n) (heven : n % 2 = 0)
    (hlen : n ≤ m.length) :
    coveredWords m = coveredWords (m.take n) ++ words (m.drop n) := by
  have htake : (m.take n).length = n := List.length_take_of_le hlen
  have hsplit : words m = words (m.take n) ++ words (m.drop n) := by
    rw [← words_append (by rw [htake]; exact heven), List.take_append_drop]
  have hlong : 1 < (words (m.take n)).length := by
    match m.take n, htake with
    | [], h | [_], h | [_, _], h | [_, _, _], h => simp at h; omega
    | _ :: _ :: _ :: _ :: _, _ => simp [words]
  rw [coveredWords, hsplit, List.eraseIdx_append_of_lt_length hlong]
  rfl

/-- **Cutting a message short** after a whole number of words leaves its
checksum right just when what is cut off sums to zero, as long as what is left
does not sum to nothing. -/
theorem checksum_take_eq_iff {m : List UInt8} {n : Nat} (hn : 4 ≤ n) (heven : n % 2 = 0)
    (hlen : n ≤ m.length) (hpos : 0 < (coveredWords (m.take n)).sum) :
    checksum m = checksum (m.take n) ↔ (words (m.drop n)).sum % 65535 = 0 := by
  rw [checksum_eq_iff, coveredWords_take hn heven hlen, List.sum_append, foldCarries_eq_iff]
  omega

end PathMeter.Wire
