import Mathlib.Data.List.TakeDrop
import PathMeter.Export

/-!
# Lost output

An export is many writes, any of which may fail or pass on only a part of what
it is offered.  However an output behaves, what is written to it is written in
a `Course`: each write offers bytes that come next in the text, and a write
that fails is the last.  Courses follow one another as texts do
(`Course.append`), and where one failed it does not matter what was to follow
(`Course.extend`).  So a program that writes piece after piece and ends at the
first failure writes its text in some course (`Writes`), and each of the three
exporters is such a program (`writes_export`).

All that can be said of a course follows by induction on it.  What the output
took is a start of the text, and an export reports success exactly if it is
the whole text (`lost_output_reported`).
-/

namespace PathMeter.Export

variable {ε : Type}

/-! ### The course of writing -/

/-- How a text is written to an output after earlier writes, newest first: the
writes in order, and what they come to. -/
inductive Course (out : Output ε) :
    List (Write ε) → List UInt8 → List (Write ε) → Except (WriteFault ε) Unit → Prop
  /-- Nothing is left to write. -/
  | done (past : List (Write ε)) : Course out past [] [] (.ok ())
  /-- A write fails. -/
  | failed {past : List (Write ε)} {bytes : List UInt8} {fault : WriteFault ε}
      (later : List UInt8) (hbytes : bytes ≠ [])
      (hfault : (Write.mk bytes (out.answer past bytes)).fault = some fault) :
      Course out past (bytes ++ later) [⟨bytes, out.answer past bytes⟩] (.error fault)
  /-- A write passes on some of what it is offered, and writing goes on with the
  rest. -/
  | took {past writes : List (Write ε)} {bytes later : List UInt8} {n : Nat}
      {result : Except (WriteFault ε) Unit} (htook : out.answer past bytes = .ok (n + 1))
      (hrest : Course out (⟨bytes, .ok (n + 1)⟩ :: past) (bytes.drop (n + 1) ++ later) writes
        result) :
      Course out past (bytes ++ later) (⟨bytes, .ok (n + 1)⟩ :: writes) result

/-- A text is what a write took of its start and what is left. -/
theorem Write.taken_append_rest (bytes later : List UInt8) (n : Nat) :
    (Write.mk bytes (.ok n) : Write ε).taken ++ (bytes.drop n ++ later) = bytes ++ later := by
  rw [← List.append_assoc, taken_ok, List.take_append_drop]

namespace Course

variable {out : Output ε} {past writes writes' before after : List (Write ε)} {w : Write ε}
  {text text' : List UInt8} {fault : WriteFault ε} {result : Except (WriteFault ε) Unit}

/-- A text that is written to its end can be followed by another. -/
theorem append (h : Course out past text writes (.ok ()))
    (h' : Course out (writes.reverse ++ past) text' writes' result) :
    Course out past (text ++ text') (writes ++ writes') result := by
  generalize hok : (Except.ok () : Except (WriteFault ε) Unit) = first at h
  induction h with
  | done past => exact h'
  | failed later hbytes hfault => cases hok
  | took htook hrest ih =>
      rw [List.reverse_cons, List.append_assoc] at h'
      have hnext := ih h' hok
      rw [List.append_assoc] at hnext ⊢
      exact took htook hnext

/-- Where writing failed, it makes no difference what was to follow. -/
theorem extend (h : Course out past text writes (.error fault)) (text' : List UInt8) :
    Course out past (text ++ text') writes (.error fault) := by
  generalize herror : (Except.error fault : Except (WriteFault ε) Unit) = last at h ⊢
  induction h with
  | done past => cases herror
  | failed later hbytes hfault =>
      rw [List.append_assoc]
      exact failed (later ++ text') hbytes hfault
  | took htook hrest ih =>
      have hnext := ih herror
      rw [List.append_assoc] at hnext ⊢
      exact took htook hnext

/-- A write of all that is left may fail. -/
theorem failed_all {bytes : List UInt8} (hbytes : bytes ≠ [])
    (hfault : (Write.mk bytes (out.answer past bytes)).fault = some fault) :
    Course out past bytes [⟨bytes, out.answer past bytes⟩] (.error fault) := by
  have hlast := failed [] hbytes hfault
  rwa [List.append_nil] at hlast

/-- A write of all that is left may pass on some of it. -/
theorem took_all {bytes : List UInt8} {n : Nat} (htook : out.answer past bytes = .ok (n + 1))
    (hrest : Course out (⟨bytes, .ok (n + 1)⟩ :: past) (bytes.drop (n + 1)) writes result) :
    Course out past bytes (⟨bytes, .ok (n + 1)⟩ :: writes) result := by
  rw [← List.append_nil (bytes.drop (n + 1))] at hrest
  have hnext := took htook hrest
  rwa [List.append_nil] at hnext

/-- Each write is answered by the output as the writes before have left it. -/
theorem answered (h : Course out past text writes result) (hw : writes = before ++ w :: after) :
    w.answer = out.answer (before.reverse ++ past) w.offered := by
  induction h generalizing before with
  | done past => simp at hw
  | failed later hbytes hfault =>
      cases before with
      | nil =>
          obtain ⟨rfl, -⟩ := List.cons.inj hw
          rfl
      | cons first before => simp at hw
  | took htook hrest ih =>
      cases before with
      | nil =>
          obtain ⟨rfl, -⟩ := List.cons.inj hw
          exact htook.symm
      | cons first before =>
          obtain ⟨rfl, htail⟩ := List.cons.inj hw
          have hanswer := ih htail
          rwa [List.append_cons, ← List.reverse_cons] at hanswer

/-- What was taken is a start of the text. -/
theorem taken_prefix (h : Course out past text writes result) :
    writes.flatMap Write.taken <+: text := by
  induction h with
  | done past => exact List.prefix_rfl
  | failed later hbytes hfault =>
      rw [List.flatMap_singleton, Write.taken_of_fault hfault]
      exact List.nil_prefix
  | @took past writes bytes later n result htook hrest ih =>
      rw [List.flatMap_cons, ← Write.taken_append_rest bytes later (n + 1)]
      exact (List.prefix_append_right_inj _).2 ih

/-- Writing goes to its end exactly if the whole text is taken. -/
theorem ok_iff (h : Course out past text writes result) :
    result = .ok () ↔ writes.flatMap Write.taken = text := by
  induction h with
  | done past => exact iff_of_true rfl rfl
  | failed later hbytes hfault =>
      refine iff_of_false nofun fun hall => hbytes ?_
      rw [List.flatMap_singleton, Write.taken_of_fault hfault] at hall
      exact (List.append_eq_nil_iff.1 hall.symm).1
  | @took past writes bytes later n result htook hrest ih =>
      rw [List.flatMap_cons, ← Write.taken_append_rest bytes later (n + 1),
        List.append_cancel_left_eq]
      exact ih

/-- A write that fails is the last, and writing fails as it did. -/
theorem ends_at_fault (h : Course out past text writes result)
    (hw : writes = before ++ w :: after) (hfault : w.fault = some fault) :
    after = [] ∧ result = .error fault := by
  induction h generalizing before with
  | done past => simp at hw
  | failed later hbytes hlast =>
      cases before with
      | nil =>
          obtain ⟨rfl, rfl⟩ := List.cons.inj hw
          exact ⟨rfl, congrArg Except.error (Option.some.inj (hlast.symm.trans hfault))⟩
      | cons first before => simp at hw
  | took htook hrest ih =>
      cases before with
      | nil =>
          obtain ⟨rfl, -⟩ := List.cons.inj hw
          cases hfault
      | cons first before => exact ih (List.cons.inj hw).2

/-- Writing fails only as one of the writes did. -/
theorem exists_fault (h : Course out past text writes (.error fault)) :
    ∃ w ∈ writes, w.fault = some fault := by
  generalize herror : (Except.error fault : Except (WriteFault ε) Unit) = last at h
  induction h with
  | done past => cases herror
  | failed later hbytes hfault =>
      obtain rfl := Except.error.inj herror
      exact ⟨_, List.mem_singleton_self _, hfault⟩
  | took htook hrest ih =>
      obtain ⟨w, hmem, hfault⟩ := ih herror
      exact ⟨w, List.mem_cons_of_mem _ hmem, hfault⟩

/-- Writing to an output that takes everything goes to its end. -/
theorem result_unlimited {past writes : List (Write Empty)}
    {result : Except (WriteFault Empty) Unit} (h : Course .unlimited past text writes result) :
    result = .ok () := by
  induction h with
  | done past => rfl
  | @failed past bytes fault later hbytes hfault =>
      cases bytes with
      | nil => exact absurd rfl hbytes
      | cons b rest => cases hfault
  | took htook hrest ih => exact ih

/-- An output with limited room takes as much of a text as fits. -/
theorem taken_limited {room : Nat} {past writes : List (Write Unit)}
    {result : Except (WriteFault Unit) Unit}
    (h : Course (.limited room) past text writes result) :
    writes.flatMap Write.taken = text.take (room - Output.spent past) := by
  induction h with
  | done past => rw [List.take_nil, List.flatMap_nil]
  | @failed past bytes fault later hbytes hfault =>
      have hfull := Output.full_of_fault hbytes hfault
      rw [List.flatMap_singleton, Write.taken_of_fault hfault, Nat.sub_eq_zero_of_le hfull,
        List.take_zero]
  | @took past writes bytes later n result htook hrest ih =>
      have hlength : n + 1 ≤ bytes.length := Output.answer_le _ htook
      obtain ⟨left, hleft⟩ := Nat.exists_eq_add_of_le (Output.le_room htook)
      have hspent : room - Output.spent (⟨bytes, .ok (n + 1)⟩ :: past) = left := by
        show room - (n + 1 + Output.spent past) = left
        omega
      have htext : (bytes ++ later).take (n + 1 + left) =
          bytes.take (n + 1) ++ (bytes.drop (n + 1) ++ later).take left := by
        rw [List.take_add, List.take_append_of_le_length hlength,
          List.drop_append_of_le_length hlength]
      rw [List.flatMap_cons, Write.taken_ok, ih, hspent, hleft, htext]

end Course

/-! ### Programs that write -/

/-- Whatever was written before, a program writes a text, in some course. -/
def Writes (out : Output ε) (p : Writing ε Unit) (text : List UInt8) : Prop :=
  ∀ past, ∃ writes result, p.run.run past = (result, writes.reverse ++ past) ∧
    Course out past text writes result

namespace Writes

variable {out : Output ε} {p q : Writing ε Unit} {text text' : List UInt8}

theorem nothing (out : Output ε) : Writes out (pure ()) [] :=
  fun past => ⟨[], .ok (), rfl, .done past⟩

/-- One program after another writes one text after another. -/
theorem append (hp : Writes out p text) (hq : Writes out q text') :
    Writes out (do p; q) (text ++ text') := by
  intro past
  obtain ⟨writes, result, hrun, hcourse⟩ := hp past
  cases result with
  | ok =>
      obtain ⟨writes', result', hrun', hcourse'⟩ := hq (writes.reverse ++ past)
      refine ⟨writes ++ writes', result', ?_, hcourse.append hcourse'⟩
      rw [Writing.run_bind, hrun]
      show q.run.run (writes.reverse ++ past) = _
      rw [hrun', List.reverse_append, List.append_assoc]
  | error fault =>
      refine ⟨writes, .error fault, ?_, hcourse.extend text'⟩
      rw [Writing.run_bind, hrun]

theorem append_pieces {pieces pieces' : List (List Char)}
    (hp : Writes out p (utf8 pieces.flatten)) (hq : Writes out q (utf8 pieces'.flatten)) :
    Writes out (do p; q) (utf8 (pieces ++ pieces').flatten) := by
  rw [List.flatten_append, utf8_append]
  exact hp.append hq

/-- Bytes are written by as many writes as it takes. -/
theorem writeAll (out : Output ε) (bytes : List UInt8) : Writes out (out.writeAll bytes) bytes := by
  fun_induction out.writeAll bytes with
  | case1 => exact nothing out
  | case2 b rest ih =>
      intro past
      rw [Writing.run_bind, Output.run_offer]
      match hanswer : out.answer past (b :: rest) with
      | .error reason =>
          have hlast := Course.failed_all (List.cons_ne_nil b rest) (by rw [hanswer]; rfl)
          rw [hanswer] at hlast
          exact ⟨_, _, rfl, hlast⟩
      | .ok 0 =>
          have hlast := Course.failed_all (List.cons_ne_nil b rest) (by rw [hanswer]; rfl)
          rw [hanswer] at hlast
          exact ⟨_, _, rfl, hlast⟩
      | .ok (n + 1) =>
          obtain ⟨writes, result, hrun, hcourse⟩ := ih n (⟨b :: rest, .ok (n + 1)⟩ :: past)
          refine ⟨⟨b :: rest, .ok (n + 1)⟩ :: writes, result, ?_, ?_⟩
          · rw [List.reverse_cons, List.append_assoc]
            exact hrun
          · exact Course.took_all hanswer hcourse

/-- Pieces are written one after the other. -/
theorem writePieces (out : Output ε) (pieces : List (List Char)) :
    Writes out (out.writePieces pieces) (utf8 pieces.flatten) := by
  induction pieces with
  | nil => exact nothing out
  | cons piece rest ih =>
      rw [List.flatten_cons, utf8_append]
      exact (writeAll out (utf8 piece)).append ih

/-- The lines of the hops that were probed are written one after the other. -/
theorem rows (out : Output ε) (line : HopView → List (List Char)) (path : List HopView) :
    Writes out (path.forM fun h => unless h.sent = 0 do out.writePieces (line h))
      (utf8 ((path.filter fun h => h.sent ≠ 0).flatMap line).flatten) := by
  induction path with
  | nil => exact nothing out
  | cons h rest ih =>
      by_cases hsent : h.sent = 0
      · rw [List.filter_cons_of_neg (by simpa using hsent), List.forM, if_pos hsent]
        exact (nothing out).append ih
      · rw [List.filter_cons_of_pos (by simpa using hsent), List.forM, if_neg hsent,
          List.flatMap_cons]
        exact (writePieces out (line h)).append_pieces ih

/-- A receipt tells the course that writing took. -/
theorem course_receipt (h : Writes out p text) :
    Course out [] text (Writing.receipt p).writes (Writing.receipt p).result := by
  obtain ⟨writes, result, hrun, hcourse⟩ := h []
  have hreceipt : Writing.receipt p = ⟨result, writes⟩ := by
    simp [Writing.receipt, hrun]
  rw [hreceipt]
  exact hcourse

end Writes

/-- Every exporter writes its export, in some course. -/
theorem writes_export (f : Format) (s : Snapshot) (out : Output ε) :
    Writes out (write f s out) (bytes f s) := by
  show Writes out (write f s out) (utf8 (pieces f s).flatten)
  cases f with
  | csv =>
      have hrows := Writes.rows out (fun h => Csv.line (Csv.row h)) s.path
      rw [← List.flatMap_map] at hrows
      exact (Writes.writePieces out _).append_pieces hrows
  | json => exact Writes.writePieces out _
  | report =>
      have hrows := Writes.rows out Report.row s.path
      have htable := (Writes.writePieces out Report.columns).append_pieces hrows
      have hreport := (Writes.writePieces out (Report.heading s)).append_pieces htable
      rwa [← List.append_assoc] at hreport

/-! ### What an export owes -/

/-- What the receipt of writing a text to an output says of it. -/
structure Honest (out : Output ε) (text : List UInt8) (r : Receipt ε) : Prop where
  /-- Each write is answered by the output as the writes before have left it. -/
  answered : ∀ before w after, r.writes = before ++ w :: after →
    w.answer = out.answer before.reverse w.offered
  /-- What the output took is a start of the text. -/
  start : r.taken <+: text
  /-- Nothing is offered to the output after a write that failed. -/
  silent : ∀ before w after, r.writes = before ++ w :: after → w.fault ≠ none → after = []
  /-- Success is reported exactly if the output took the whole text. -/
  reported : r.result = .ok () ↔ r.taken = text
  /-- Failure is reported exactly as a write failed. -/
  blamed : ∀ fault, r.result = .error fault ↔ ∃ w ∈ r.writes, w.fault = some fault

theorem Course.honest {out : Output ε} {text : List UInt8} {r : Receipt ε}
    (h : Course out [] text r.writes r.result) : Honest out text r := by
  constructor
  case answered =>
    intro before w after hw
    have hanswer := h.answered hw
    rwa [List.append_nil] at hanswer
  case start => exact h.taken_prefix
  case silent =>
    intro before w after hw hfault
    obtain ⟨fault, hfault⟩ := Option.ne_none_iff_exists'.1 hfault
    exact (h.ends_at_fault hw hfault).1
  case reported => exact h.ok_iff
  case blamed =>
    intro fault
    constructor
    · intro hresult
      rw [hresult] at h
      exact h.exists_fault
    · rintro ⟨w, hmem, hfault⟩
      obtain ⟨before, after, hw⟩ := List.append_of_mem hmem
      exact (h.ends_at_fault hw hfault).2

/-- **Lost output is reported.**  In every format and of every snapshot, the
export is what an output that takes everything is left with.  However an output
behaves, and whatever it would do with further writes, it is left with a start
of the export, nothing is offered to it after a write that failed, and success
is reported exactly if it took the whole export.  One that takes a number of
bytes and then fails for good is left with just as many, and success is
reported exactly if the export is no longer than that. -/
theorem lost_output_reported (f : Format) (s : Snapshot) :
    (toOutput f s .unlimited).taken = bytes f s ∧
      (∀ {ε : Type} (out : Output ε), Honest out (bytes f s) (toOutput f s out)) ∧
      ∀ room, (toSink f s room).taken.toList = (bytes f s).take room ∧
        ((toSink f s room).failed = false ↔ (bytes f s).length ≤ room) := by
  have hhonest : ∀ {ε : Type} (out : Output ε), Honest out (bytes f s) (toOutput f s out) :=
    fun out => (writes_export f s out).course_receipt.honest
  refine ⟨?_, hhonest, ?_⟩
  · have hresult := (writes_export f s .unlimited).course_receipt.result_unlimited
    exact (hhonest .unlimited).reported.1 hresult
  · intro room
    have htaken : (toOutput f s (.limited room)).taken = (bytes f s).take room :=
      (writes_export f s (.limited room)).course_receipt.taken_limited
    refine ⟨htaken, ?_⟩
    have hfailed : (toSink f s room).failed = false ↔
        (toOutput f s (.limited room)).result = .ok () := by
      show (!(toOutput f s (.limited room)).result.isOk) = false ↔ _
      cases (toOutput f s (.limited room)).result <;> simp [Except.isOk, Except.toBool]
    rw [hfailed, (hhonest (.limited room)).reported, htaken, List.take_eq_self_iff]

end PathMeter.Export
