import Mathlib.Data.List.Forall2
import PathMeter.Export

/-!
# What a table of comma-separated values says

Reading undoes writing.  Whatever a field holds, its written form leaves a
reader at the end of that field and nowhere else (`foldlM_field`), so the comma
or line feed behind it ends the field and not a part of it.  Field after field
and line after line this gives the records back (`records?_lines`), for any
records of at least one field.

The table of a snapshot is thus read as its column names and then one record
for each hop on the path that was probed, and the record tells the hop's
number, address, name and counts as they are (`table_read_back`).
-/

namespace PathMeter.Export.Csv

/-! ### A field -/

/-- A quote in quotes is read back from two. -/
theorem foldlM_doubleQuotes (s seen : List Char) (fields : List (List Char))
    (records : List (List (List Char))) :
    (doubleQuotes s).foldlM Reader.step? ⟨.inside, seen, fields, records⟩ =
      some ⟨.inside, s.reverse ++ seen, fields, records⟩ := by
  induction s generalizing seen with
  | nil => rfl
  | cons c s ih =>
      have hread : (if c = '"' then ['"', '"'] else [c]).foldlM Reader.step?
          ⟨.inside, seen, fields, records⟩ = some ⟨.inside, c :: seen, fields, records⟩ := by
        by_cases hc : c = '"'
        · subst hc
          rfl
        · simp [hc, Reader.step?, Reader.keep]
      rw [doubleQuotes, List.flatMap_cons, List.foldlM_append, hread, ← doubleQuotes]
      simpa using ih (c :: seen)

/-- A field that needs no quotes is read as it stands. -/
theorem foldlM_bare {s : List Char} (hs : needsQuotes s = false) (place : Place)
    (hplace : place = .start ∨ place = .bare) (seen : List Char) (fields : List (List Char))
    (records : List (List (List Char))) :
    ∃ place', (place' = .start ∨ place' = .bare) ∧
      s.foldlM Reader.step? ⟨place, seen, fields, records⟩ =
        some ⟨place', s.reverse ++ seen, fields, records⟩ := by
  induction s generalizing place seen with
  | nil => exact ⟨place, hplace, rfl⟩
  | cons c s ih =>
      simp only [needsQuotes, List.any_cons, Bool.or_eq_false_iff, decide_eq_false_iff_not] at hs
      obtain ⟨⟨⟨hcomma, hquote⟩, hline⟩, hrest⟩ := hs
      have hstep : Reader.step? ⟨place, seen, fields, records⟩ c =
          some ⟨.bare, c :: seen, fields, records⟩ := by
        rcases hplace with rfl | rfl <;>
          simp [Reader.step?, Reader.plain, Reader.keep, hcomma, hquote, hline]
      obtain ⟨place', hplace', hread⟩ := ih hrest .bare (Or.inr rfl) (c :: seen)
      refine ⟨place', hplace', ?_⟩
      rw [List.foldlM_cons, hstep]
      simpa using hread

/-- **A field is read to its end.**  Behind its written form a reader has seen
just the field and stands where a comma or a line feed ends it. -/
theorem foldlM_field (s : List Char) (fields : List (List Char))
    (records : List (List (List Char))) :
    ∃ place, place ≠ .inside ∧
      (field s).foldlM Reader.step? ⟨.start, [], fields, records⟩ =
        some ⟨place, s.reverse, fields, records⟩ := by
  unfold field
  cases hs : needsQuotes s with
  | false =>
      obtain ⟨place, hplace, hread⟩ := foldlM_bare hs .start (Or.inl rfl) [] fields records
      refine ⟨place, ?_, by simpa using hread⟩
      rcases hplace with rfl | rfl <;> decide
  | true =>
      refine ⟨.closing, by decide, ?_⟩
      have hread := foldlM_doubleQuotes s [] fields records
      rw [List.append_nil] at hread
      rw [if_pos rfl, List.cons_append, List.foldlM_cons]
      show (doubleQuotes s ++ ['"']).foldlM Reader.step? ⟨.inside, [], fields, records⟩ = _
      rw [List.foldlM_append, hread]
      rfl

/-- What ends a field outside quotes ends it behind closing quotes too. -/
theorem step?_mark {place : Place} (hplace : place ≠ .inside) {c : Char}
    (hc : c = ',' ∨ c = '\n') (seen : List Char) (fields : List (List Char))
    (records : List (List (List Char))) :
    Reader.step? ⟨place, seen, fields, records⟩ c =
      some (Reader.plain ⟨place, seen, fields, records⟩ c) := by
  have hquote : c ≠ '"' := by rcases hc with rfl | rfl <;> decide
  cases place with
  | start | closing => simp [Reader.step?, hquote, hc]
  | bare => rfl
  | inside => exact absurd rfl hplace

/-! ### Lines -/

theorem flatten_line_singleton (s : List Char) : (line [s]).flatten = field s ++ ['\n'] := by
  simp [line]

theorem flatten_line_cons (s t : List Char) (fields : List (List Char)) :
    (line (s :: t :: fields)).flatten = field s ++ ',' :: (line (t :: fields)).flatten := by
  simp [line]

/-- A line is read as the record of its fields. -/
theorem foldlM_line {rest : List (List Char)} (hrest : rest ≠ []) (fields : List (List Char))
    (records : List (List (List Char))) :
    (line rest).flatten.foldlM Reader.step? ⟨.start, [], fields, records⟩ =
      some ⟨.start, [], [], (fields.reverse ++ rest) :: records⟩ := by
  induction rest generalizing fields with
  | nil => exact absurd rfl hrest
  | cons s rest ih =>
      obtain ⟨place, hplace, hread⟩ := foldlM_field s fields records
      cases rest with
      | nil =>
          rw [flatten_line_singleton, List.foldlM_append, hread]
          show List.foldlM _ _ _ = _
          rw [List.foldlM_cons, step?_mark hplace (Or.inr rfl)]
          simp [Reader.plain, Reader.endRecord]
      | cons t rest =>
          rw [flatten_line_cons, List.foldlM_append, hread]
          show List.foldlM _ _ _ = _
          rw [List.foldlM_cons, step?_mark hplace (Or.inl rfl)]
          have hnext := ih (List.cons_ne_nil t rest) (s :: fields)
          simpa [Reader.plain, Reader.endField] using hnext

theorem foldlM_lines {rest : List (List (List Char))} (hrest : ∀ fields ∈ rest, fields ≠ [])
    (records : List (List (List Char))) :
    (rest.flatMap line).flatten.foldlM Reader.step? ⟨.start, [], [], records⟩ =
      some ⟨.start, [], [], rest.reverse ++ records⟩ := by
  induction rest generalizing records with
  | nil => rfl
  | cons fields rest ih =>
      have hline := foldlM_line (hrest fields List.mem_cons_self) [] records
      rw [List.flatMap_cons, List.flatten_append, List.foldlM_append, hline]
      have hnext := ih (fun fields h => hrest fields (List.mem_cons_of_mem _ h))
        (fields :: records)
      simpa using hnext

/-- **Reading undoes writing**, for any records of at least one field. -/
theorem records?_lines {rest : List (List (List Char))} (hrest : ∀ fields ∈ rest, fields ≠ []) :
    records? (rest.flatMap line).flatten = some rest := by
  unfold records?
  rw [foldlM_lines hrest]
  simp

/-! ### The table of a snapshot -/

/-- A number with a fixed number of places is no empty text. -/
theorem fixed_ne_nil (places : Nat) (x : Float) : Decimal.fixed places x ≠ [] := by
  have hpoint : ∀ units, Decimal.withPoint places units ≠ [] := by
    intro units
    unfold Decimal.withPoint
    split
    · exact Decimal.digits_ne_nil units
    · simp
  unfold Decimal.fixed Decimal.Binary.fixed
  split
  · exact List.append_ne_nil_of_right_ne_nil _ (hpoint _)
  · unfold Decimal.specialText
    split <;> simp

theorem figure_eq_nil_iff (h : HopView) (d : Duration) : figure h d = [] ↔ h.received = 0 := by
  unfold figure millis
  split
  · next hpos => simp [fixed_ne_nil, Nat.ne_of_gt hpos]
  · next hzero => simpa using Nat.eq_zero_of_not_pos hzero

/-- What a record tells of a hop. -/
structure Tells (fields : List (List Char)) (h : HopView) : Prop where
  length : fields.length = 11
  number : fields[0]? = some (Decimal.digits h.number)
  /-- The dotted address, or a star. -/
  address : fields[1]? = some (h.address.elim ['*'] IPv4.text)
  /-- The name as it is, or nothing. -/
  hostname : fields[2]? = some (h.hostname.elim [] String.toList)
  sent : fields[4]? = some (Decimal.digits h.sent)
  received : fields[5]? = some (Decimal.digits h.received)
  /-- The five figures are empty for a hop that never answered. -/
  figures : (∀ i, 6 ≤ i → i < 11 → fields[i]? = some []) ↔ h.received = 0

theorem row_tells (h : HopView) : Tells (row h) h where
  length := rfl
  number := rfl
  address := by cases haddress : h.address <;> simp [row, haddress]
  hostname := by cases hhostname : h.hostname <;> simp [row, hhostname]
  sent := rfl
  received := rfl
  figures := by
    constructor
    · intro hempty
      have hfirst : some (figure h h.last) = some [] := hempty 6 (by omega) (by omega)
      exact (figure_eq_nil_iff h h.last).1 (Option.some.inj hfirst)
    · intro hzero i hlow hhigh
      have hnil : ∀ d, figure h d = [] := fun d => (figure_eq_nil_iff h d).2 hzero
      match i, hlow, hhigh with
      | 6, _, _ | 7, _, _ | 8, _, _ | 9, _, _ | 10, _, _ => simp [row, hnil]

/-- **A table says what was exported.**  Whatever names the hops have, the table
of a snapshot is read as the names of its eleven columns and then one record
for each hop on the path that was probed, in order, which tells that hop. -/
theorem table_read_back (s : Snapshot) :
    ∃ rows, records? (Export.text .csv s).toList = some (columns.map String.toList :: rows) ∧
      columns.length = 11 ∧
      List.Forall₂ Tells rows (s.path.filter fun h => h.sent ≠ 0) := by
  refine ⟨s.rows.map row, ?_, rfl, ?_⟩
  · rw [Export.text, String.toList_ofList]
    have hfilled : ∀ fields ∈ records s, fields ≠ [] := by
      intro fields hfields
      rcases List.mem_cons.1 hfields with rfl | hfields
      · exact List.cons_ne_nil _ _
      · obtain ⟨h, -, rfl⟩ := List.mem_map.1 hfields
        exact List.cons_ne_nil _ _
    exact records?_lines hfilled
  · rw [List.forall₂_map_left_iff]
    exact List.forall₂_same.2 fun h _ => row_tells h

end PathMeter.Export.Csv
