import PathMeter.Json.Record
import PathMeter.Proofs.DocumentReading

/-!
# Records are read back field by field

Each sort of value that a record holds is read back from the value it is
written as.  The fields of a record are found by their names, whatever they
hold, as long as no two names are alike (`fields?_value`); this is all that
must be known about a record to read it back.
-/

namespace PathMeter

namespace Text

/-- A part ends at the next mark. -/
theorem splitAt_append {mark : Char} {s : List Char} (hs : mark ∉ s) (rest : List Char) :
    splitAt mark (s ++ mark :: rest) = s :: splitAt mark rest := by
  induction s with
  | nil =>
      rw [List.nil_append, splitAt, if_pos rfl]
  | cons c s ih =>
      have hc : c ≠ mark := fun hc => hs (hc ▸ List.mem_cons_self)
      rw [List.cons_append, splitAt, if_neg hc, ih fun hmem => hs (List.mem_cons_of_mem c hmem)]

theorem splitAt_of_not_mem {mark : Char} {s : List Char} (hs : mark ∉ s) :
    splitAt mark s = [s] := by
  induction s with
  | nil => rfl
  | cons c s ih =>
      have hc : c ≠ mark := fun hc => hs (hc ▸ List.mem_cons_self)
      rw [splitAt, if_neg hc, ih fun hmem => hs (List.mem_cons_of_mem c hmem)]

end Text

namespace IPv4

open PathMeter.Decimal (digits)

theorem part?_digits (b : UInt8) : part? (digits b.toNat) = some b := by
  have hlt : b.toNat < 256 := b.toNat_lt
  unfold part?
  rw [Decimal.value_digits, if_pos, UInt8.ofNat_toNat]
  exact ⟨Decimal.digits_ne_nil _, Decimal.length_digits_le (by decide) (by omega),
    List.all_eq_true.2 (Decimal.isDigit_of_mem_digits _), by omega, Decimal.unpadded_digits _⟩

/-- An address is read back from its text. -/
theorem ofText?_text (ip : IPv4) : ofText? ip.text = some ip := by
  have hdot : ∀ n, '.' ∉ digits n := by
    intro n hmem
    exact absurd (Decimal.isDigit_of_mem_digits n '.' hmem) (by decide)
  have hparts : Text.splitAt '.' ip.text =
      [digits ip.a.toNat, digits ip.b.toNat, digits ip.c.toNat, digits ip.d.toNat] := by
    unfold text
    simp only [List.append_assoc, List.cons_append]
    rw [Text.splitAt_append (hdot _), Text.splitAt_append (hdot _), Text.splitAt_append (hdot _),
      Text.splitAt_of_not_mem (hdot _)]
  unfold ofText?
  rw [hparts]
  simp only [part?_digits, Option.bind_eq_bind, Option.bind_some]
  rfl

end IPv4

namespace Json

open PathMeter.Decimal (Numeral)

/-! ### Single values -/

theorem text?_value (s : List Char) : text? (Document.text s).value = some s :=
  decode?_written s

theorem string?_value (s : String) : string? (Document.text s.toList).value = some s := by
  rw [string?, text?_value]
  exact congrArg some (String.ofList_toList)

theorem natural?_value {bound n : Nat} (hn : n < bound) :
    natural? bound (Document.natural n).value = some n := by
  rw [Document.value, natural?, toNat?_naturalNumeral]
  exact if_pos hn

theorem float?_value {x : Float} (hx : x.isFinite = true) :
    float? (Document.float x).value = some x := by
  obtain ⟨n, hn, htext, hvalue⟩ := exists_numeral_of_float hx
  show float? (floatValue x) = _
  unfold floatValue
  rw [← htext, numeral?_text hn]
  show (if n.toFloat.isFinite then some n.toFloat else none) = _
  rw [hvalue, if_pos hx]

theorem address?_value (ip : IPv4) : address? (Document.text ip.text).value = some ip := by
  rw [address?, text?_value]
  exact ip.ofText?_text

/-- Reading succeeds on a list where it does on each item. -/
theorem mapM_eq_some_map {α β : Type} {read? : α → Option β} {f : α → β} {items : List α}
    (h : ∀ a ∈ items, read? a = some (f a)) : items.mapM read? = some (items.map f) := by
  induction items with
  | nil => rfl
  | cons a items ih =>
      rw [List.mapM_cons, h a List.mem_cons_self, ih fun b hb => h b (List.mem_cons_of_mem a hb)]
      rfl

theorem itemValues_eq (ds : List Document) :
    Document.value.itemValues ds = ds.map Document.value := by
  induction ds with
  | nil => rfl
  | cons d ds ih => exact congrArg (d.value :: ·) ih

theorem memberValues_eq (ms : List (String × Document)) :
    Document.value.memberValues ms =
      ms.map fun m => (m.1.toList.map Piece.written, m.2.value) := by
  induction ms with
  | nil => rfl
  | cons m ms ih => exact congrArg ((m.1.toList.map Piece.written, m.2.value) :: ·) ih

/-- A list is read back if its items are. -/
theorem list?_value {α β : Type} {item? : Value → Option β} {document : α → Document} {f : α → β}
    {items : List α} (h : ∀ a ∈ items, item? (document a).value = some (f a)) :
    list? item? (Document.array (items.map document)).value = some (items.map f) := by
  show (Document.value.itemValues (items.map document)).mapM item? = _
  rw [itemValues_eq, List.map_map, List.mapM_map]
  exact mapM_eq_some_map h

/-! ### Fields -/

/-- The members that a record is written as. -/
def namedValues (ms : List (String × Document)) : List (List Char × Value) :=
  ms.map fun m => (m.1.toList, m.2.value)

theorem members?_value (ms : List (String × Document)) :
    members? (Document.value.memberValues ms) = some (namedValues ms) := by
  rw [members?, memberValues_eq, List.mapM_map]
  refine mapM_eq_some_map fun m _ => ?_
  rw [Function.comp_apply, decode?_written]
  rfl

theorem valuesOf_cons (m : String × Document) (ms : List (String × Document)) (name : String) :
    valuesOf (namedValues (m :: ms)) name =
      if m.1 = name then m.2.value :: valuesOf (namedValues ms) name
      else valuesOf (namedValues ms) name := by
  unfold valuesOf namedValues
  rw [List.map_cons, List.filter_cons]
  simp only [String.toList_inj, decide_eq_true_eq]
  split <;> rfl

theorem valuesOf_of_not_mem {ms : List (String × Document)} {name : String}
    (h : name ∉ ms.map Prod.fst) : valuesOf (namedValues ms) name = [] := by
  induction ms with
  | nil => rfl
  | cons m ms ih =>
      obtain ⟨hm, hms⟩ := not_or.1 (mt List.mem_cons.2 h)
      rw [valuesOf_cons, if_neg fun heq => hm heq.symm, ih hms]

/-- A name that stands only once names its own value. -/
theorem valuesOf_of_mem {ms : List (String × Document)} (hnames : (ms.map Prod.fst).Nodup)
    {m : String × Document} (hm : m ∈ ms) : valuesOf (namedValues ms) m.1 = [m.2.value] := by
  induction ms with
  | nil => exact absurd hm List.not_mem_nil
  | cons m' ms ih =>
      obtain ⟨hfirst, hrest⟩ := List.nodup_cons.1 hnames
      rw [valuesOf_cons]
      rcases List.mem_cons.1 hm with rfl | hm
      · rw [if_pos rfl, valuesOf_of_not_mem hfirst]
      · rw [if_neg, ih hrest hm]
        intro heq
        exact hfirst (heq ▸ List.mem_map_of_mem hm)

/-- **The fields of a record are found by their names**, if no two are alike. -/
theorem fields?_value {ms : List (String × Document)} (hnames : (ms.map Prod.fst).Nodup) :
    fields? (ms.map Prod.fst) (Document.object ms).value =
      some (ms.map fun m => some m.2.value) := by
  show (members? (Document.value.memberValues ms)).bind
    (fun members => (ms.map Prod.fst).mapM (member? members)) = _
  rw [members?_value, Option.bind_some, List.mapM_map]
  refine mapM_eq_some_map fun m hm => ?_
  rw [Function.comp_apply, member?, valuesOf_of_mem hnames hm]

end Json

end PathMeter
