import PathMeter.Json.Value
import PathMeter.Proofs.NumeralReading

/-!
# Documents are read back as they were written

A document in its lines is a text that falls into tokens (`Document.tokens`), and
these build a value (`Document.value`).  The tokens are found by an induction
over the document, in which only numbers and words look at what comes after
them: they end where the next character says so (`Stops`).  The value is found
by a second induction, over the states of the parser.
-/

namespace PathMeter.Json

open PathMeter.Decimal (Numeral digits)

/-! ### Strings -/

/-- The characters that are escaped with a single letter. -/
def shortEscapes : List Char :=
  ['"', '\\', '\x08', '\x0c', '\n', '\r', '\t']

/-- The piece that a character is read as when it was written in a string. -/
def Piece.written (c : Char) : Piece :=
  if c ∈ shortEscapes ∨ 0x20 ≤ c.toNat then .plain c
  else .unit c.toNat

theorem decode?_unit {u : Nat} (hu : u < 0xD800) (rest : List Piece) :
    Piece.decode? (.unit u :: rest) = (Piece.decode? rest).map (Char.ofNat u :: ·) := by
  rw [Piece.decode?.eq_def]
  exact if_pos (Or.inl hu)

/-- The pieces make up the text that was written. -/
theorem decode?_written (s : List Char) : Piece.decode? (s.map Piece.written) = some s := by
  induction s with
  | nil => rfl
  | cons c s ih =>
      rw [List.map_cons, Piece.written]
      split
      · rw [Piece.decode?, ih]
        rfl
      · next hc =>
        have hsmall : c.toNat < 0x20 := Nat.lt_of_not_le fun hle => hc (Or.inr hle)
        rw [decode?_unit (by omega), ih, Char.ofNat_toNat]
        rfl

variable {r : Reading} {done : List Token} {rest : List Char}

theorem tokensFrom_step {c : Char} {next : Reading} {ts : List Token}
    (h : r.step? c = some (next, ts)) :
    tokensFrom r done (c :: rest) = tokensFrom next (ts.reverse ++ done) rest := by
  rw [tokensFrom, h]
  rfl

/-- The last two digits of an escape. -/
theorem tokensFrom_code {n : Nat} (hn : n < 256) (seen : List Piece) :
    tokensFrom (.code seen 2 0) done
        (Text.hexDigit (n / 16) :: Text.hexDigit (n % 16) :: rest) =
      tokensFrom (.text (.unit n :: seen)) done rest := by
  have hhigh : Reading.step? (.code seen 2 0) (Text.hexDigit (n / 16)) =
      some (.code seen 3 (16 * 0 + n / 16), []) := by
    unfold Reading.step?
    rw [Text.hexValue?_hexDigit (by omega)]
    rfl
  have hlow : Reading.step? (.code seen 3 (16 * 0 + n / 16)) (Text.hexDigit (n % 16)) =
      some (.text (.unit (16 * (16 * 0 + n / 16) + n % 16) :: seen), []) := by
    unfold Reading.step?
    rw [Text.hexValue?_hexDigit (by omega)]
    rfl
  rw [tokensFrom_step hhigh, tokensFrom_step hlow,
    show 16 * (16 * 0 + n / 16) + n % 16 = n by omega]
  rfl

/-- A character in a string is read as it was written. -/
theorem tokensFrom_escapeChar (c : Char) (seen : List Piece) :
    tokensFrom (.text seen) done (escapeChar c ++ rest) =
      tokensFrom (.text (.written c :: seen)) done rest := by
  by_cases hshort : c ∈ shortEscapes
  · simp only [shortEscapes, List.mem_cons, List.not_mem_nil, or_false] at hshort
    rcases hshort with rfl | rfl | rfl | rfl | rfl | rfl | rfl <;> rfl
  · have hwritten : Piece.written c = if c.toNat < 0x20 then .unit c.toNat else .plain c := by
      unfold Piece.written
      split
      · next h => rw [if_neg (Nat.not_lt.2 (h.resolve_left hshort))]
      · next h => rw [if_pos (Nat.not_le.1 fun hle => h (Or.inr hle))]
    simp only [shortEscapes, List.mem_cons, List.not_mem_nil, or_false, not_or] at hshort
    obtain ⟨hquote, hslash, h8, hc, hn, hr, ht⟩ := hshort
    rw [hwritten]
    unfold escapeChar
    rw [if_neg hquote, if_neg hslash, if_neg h8, if_neg hc, if_neg hn, if_neg hr, if_neg ht]
    split
    · next hcontrol =>
      rw [← tokensFrom_code (by omega) seen]
      rfl
    · next hplain =>
      have hstep : Reading.step? (.text seen) c = some (.text (.plain c :: seen), []) := by
        unfold Reading.step?
        dsimp only
        rw [if_neg hquote, if_neg hslash, if_neg hplain]
      exact tokensFrom_step hstep

theorem tokensFrom_flatMap_escapeChar (s : List Char) (seen : List Piece) :
    tokensFrom (.text seen) done (s.flatMap escapeChar ++ rest) =
      tokensFrom (.text ((s.map Piece.written).reverse ++ seen)) done rest := by
  induction s generalizing seen with
  | nil => rfl
  | cons c s ih =>
      rw [List.flatMap_cons, List.append_assoc, tokensFrom_escapeChar, ih, List.map_cons,
        List.reverse_cons, List.append_assoc]
      rfl

theorem tokensFrom_quoted (s : List Char) :
    tokensFrom .between done (quoted s ++ rest) =
      tokensFrom .between (.text (s.map Piece.written) :: done) rest := by
  have hopen : tokensFrom .between done (quoted s ++ rest) =
      tokensFrom (.text []) done (s.flatMap escapeChar ++ '"' :: rest) := by
    unfold quoted
    rw [List.append_assoc]
    rfl
  rw [hopen, tokensFrom_flatMap_escapeChar, List.append_nil]
  have hclose : Reading.step? (.text (s.map Piece.written).reverse) '"' =
      some (.between, [.text (s.map Piece.written)]) := by
    show some (Reading.between, [Token.text (s.map Piece.written).reverse.reverse]) = _
    rw [List.reverse_reverse]
  exact tokensFrom_step hclose

/-! ### Runs of characters -/

/-- What comes next ends a run of unquoted characters. -/
def Stops (rest : List Char) : Prop :=
  ∀ c ∈ rest.head?, Reading.endsRun c = true

/-- At a character that ends a run, the run is complete. -/
theorem tokensFrom_end (hrest : Stops rest) {seen : List Char} {t : Token}
    (ht : Token.ofRun? seen.reverse = some t) :
    tokensFrom (.run seen) done rest = tokensFrom .between (t :: done) rest := by
  cases rest with
  | nil =>
      have hfinish : Reading.finish? (.run seen) = some [t] := congrArg (Option.map _) ht
      rw [tokensFrom, hfinish]
      rfl
  | cons c rest =>
      have hrun : Reading.step? (.run seen) c =
          some ((Reading.start? c).1, t :: (Reading.start? c).2) := by
        unfold Reading.step?
        dsimp only
        rw [if_pos (hrest c rfl), ht]
        rfl
      have hbetween : Reading.step? .between c =
          some ((Reading.start? c).1, (Reading.start? c).2) := rfl
      rw [tokensFrom_step hrun, tokensFrom_step hbetween, List.reverse_cons, List.append_assoc]
      rfl

theorem tokensFrom_seen {run : List Char} (hrun : run.any Reading.endsRun = false)
    (seen : List Char) :
    tokensFrom (.run seen) done (run ++ rest) =
      tokensFrom (.run (run.reverse ++ seen)) done rest := by
  induction run generalizing seen with
  | nil => rfl
  | cons c run ih =>
      rw [List.any_cons, Bool.or_eq_false_iff] at hrun
      have hstep : Reading.step? (.run seen) c = some (.run (c :: seen), []) := by
        unfold Reading.step?
        dsimp only
        rw [hrun.1]
        rfl
      rw [List.cons_append, tokensFrom_step hstep, List.reverse_cons, List.append_assoc]
      exact ih hrun.2 (c :: seen)

/-- A run of unquoted characters is one token. -/
theorem tokensFrom_run (hrest : Stops rest) (run : List Char) {t : Token} (hne : run ≠ [])
    (hrun : run.any Reading.endsRun = false) (ht : Token.ofRun? run = some t) :
    tokensFrom .between done (run ++ rest) = tokensFrom .between (t :: done) rest := by
  obtain ⟨c, run, rfl⟩ := List.exists_cons_of_ne_nil hne
  rw [List.any_cons, Bool.or_eq_false_iff] at hrun
  obtain ⟨hc, hrun⟩ := hrun
  simp only [Reading.endsRun, Bool.or_eq_false_iff, decide_eq_false_iff_not] at hc
  obtain ⟨⟨hspace, hquote⟩, hmark⟩ := hc
  have hstep : Reading.step? .between c = some (.run [c], []) := by
    unfold Reading.step? Reading.start?
    rw [if_neg (by rw [hspace]; decide), if_neg hquote]
    cases hm : Token.ofMark? c with
    | none => rfl
    | some t =>
        rw [hm] at hmark
        cases hmark
  rw [List.cons_append, tokensFrom_step hstep, tokensFrom_seen hrun, tokensFrom_end hrest]
  · rfl
  · rw [List.reverse_append, List.reverse_reverse]
    exact ht

/-- The start of a line is blank. -/
theorem tokensFrom_newLine (level : Nat) :
    tokensFrom .between done (Document.newLine level ++ rest) = tokensFrom .between done rest := by
  have hblanks : ∀ k, tokensFrom .between done (List.replicate k ' ' ++ rest) =
      tokensFrom .between done rest := by
    intro k
    induction k with
    | zero => rfl
    | succ k ih => exact ih
  exact hblanks (2 * level)

/-! ### Tokens of a document -/

/-- The token that a double is read as. -/
def floatToken (x : Float) : Token :=
  match numeral? (floatText x) with
  | some n => .number n
  | none => .null

/-- The value that a double is read as. -/
def floatValue (x : Float) : Value :=
  match numeral? (floatText x) with
  | some n => .number n
  | none => .null

/-- What is written for a double is one token. -/
theorem tokensFrom_floatText (hrest : Stops rest) (x : Float) :
    tokensFrom .between done (floatText x ++ rest) =
      tokensFrom .between (floatToken x :: done) rest := by
  unfold floatToken
  cases hx : x.isFinite with
  | true =>
      obtain ⟨n, hn, htext, -⟩ := exists_numeral_of_float hx
      rw [← htext, numeral?_text hn]
      exact tokensFrom_run hrest _ (Numeral.text_ne_nil hn) (endsRun_text hn) (ofRun?_text hn)
  | false =>
      rw [floatText_of_not_isFinite hx]
      exact tokensFrom_run hrest _ (List.cons_ne_nil _ _) rfl rfl

namespace Document

/-- The tokens of a document. -/
def tokens : Document → List Token
  | .null => [.null]
  | .flag b => [.flag b]
  | .natural n => [.number (naturalNumeral n)]
  | .float x => [floatToken x]
  | .text s => [.text (s.map Piece.written)]
  | .array items => .openBracket :: itemTokens items ++ [.closeBracket]
  | .object members => .openBrace :: memberTokens members ++ [.closeBrace]
where
  itemTokens : List Document → List Token
    | [] => []
    | [d] => tokens d
    | d :: ds => tokens d ++ .comma :: itemTokens ds
  memberTokens : List (String × Document) → List Token
    | [] => []
    | [(k, d)] => .text (k.toList.map Piece.written) :: .colon :: tokens d
    | (k, d) :: ms =>
      .text (k.toList.map Piece.written) :: .colon :: tokens d ++ .comma :: memberTokens ms

/-! The layout, joined to a text. -/

theorem flatten_pretty_array (level : Nat) (d : Document) (ds : List Document) :
    (pretty level (.array (d :: ds))).flatten =
      '[' :: ((pretty.prettyItems (level + 1) (d :: ds)).flatten ++ (newLine level ++ [']'])) := by
  show (['['] :: pretty.prettyItems (level + 1) (d :: ds) ++ [newLine level, [']']]).flatten = _
  simp

theorem flatten_prettyItems (level : Nat) (d d' : Document) (ds : List Document) :
    (pretty.prettyItems level (d :: d' :: ds)).flatten =
      newLine level ++
        ((pretty level d).flatten ++ ',' :: (pretty.prettyItems level (d' :: ds)).flatten) := by
  show (newLine level :: pretty level d ++
    [','] :: pretty.prettyItems level (d' :: ds)).flatten = _
  simp

theorem flatten_pretty_object (level : Nat) (m : String × Document)
    (ms : List (String × Document)) :
    (pretty level (.object (m :: ms))).flatten =
      '\x7b' :: ((pretty.prettyMembers (level + 1) (m :: ms)).flatten ++
        (newLine level ++ ['\x7d'])) := by
  show (['\x7b'] :: pretty.prettyMembers (level + 1) (m :: ms) ++
    [newLine level, ['\x7d']]).flatten = _
  simp

theorem flatten_prettyMembers (level : Nat) (k : String) (d : Document)
    (m : String × Document) (ms : List (String × Document)) :
    (pretty.prettyMembers level ((k, d) :: m :: ms)).flatten =
      newLine level ++ (quoted k.toList ++ ':' :: ' ' ::
        ((pretty level d).flatten ++ ',' :: (pretty.prettyMembers level (m :: ms)).flatten)) := by
  show (newLine level :: quoted k.toList :: [':', ' '] :: pretty level d ++
    [','] :: pretty.prettyMembers level (m :: ms)).flatten = _
  simp

mutual

/-- A document in its lines falls into its tokens. -/
theorem tokensFrom_pretty (d : Document) (level : Nat) (done : List Token) (rest : List Char)
    (hrest : Stops rest) :
    tokensFrom .between done ((d.pretty level).flatten ++ rest) =
      tokensFrom .between (d.tokens.reverse ++ done) rest := by
  match d with
  | .null => exact tokensFrom_run hrest ['n', 'u', 'l', 'l'] (List.cons_ne_nil _ _) rfl rfl
  | .flag true => exact tokensFrom_run hrest ['t', 'r', 'u', 'e'] (List.cons_ne_nil _ _) rfl rfl
  | .flag false =>
      exact tokensFrom_run hrest ['f', 'a', 'l', 's', 'e'] (List.cons_ne_nil _ _) rfl rfl
  | .natural n =>
      have hn := isProper_naturalNumeral n
      rw [pretty, List.flatten_singleton, ← text_naturalNumeral]
      exact tokensFrom_run hrest _ (Numeral.text_ne_nil hn) (endsRun_text hn) (ofRun?_text hn)
  | .float x =>
      rw [pretty, List.flatten_singleton]
      exact tokensFrom_floatText hrest x
  | .text s =>
      rw [pretty, List.flatten_singleton]
      exact tokensFrom_quoted s
  | .array [] => rfl
  | .array (d :: ds) =>
      have hitems := tokensFrom_prettyItems (d :: ds) (level + 1) (.openBracket :: done)
        (newLine level ++ ']' :: rest) (by rintro c ⟨⟩; rfl)
      rw [tokensFrom_newLine] at hitems
      rw [flatten_pretty_array, tokens, List.cons_append, List.append_assoc, List.append_assoc]
      simp only [List.reverse_append, List.reverse_cons, List.append_assoc]
      exact hitems
  | .object [] => rfl
  | .object (m :: ms) =>
      have hmembers := tokensFrom_prettyMembers (m :: ms) (level + 1) (.openBrace :: done)
        (newLine level ++ '\x7d' :: rest) (by rintro c ⟨⟩; rfl)
      rw [tokensFrom_newLine] at hmembers
      rw [flatten_pretty_object, tokens, List.cons_append, List.append_assoc, List.append_assoc]
      simp only [List.reverse_append, List.reverse_cons, List.append_assoc]
      exact hmembers

theorem tokensFrom_prettyItems (ds : List Document) (level : Nat) (done : List Token)
    (rest : List Char) (hrest : Stops rest) :
    tokensFrom .between done ((pretty.prettyItems level ds).flatten ++ rest) =
      tokensFrom .between ((tokens.itemTokens ds).reverse ++ done) rest := by
  match ds with
  | [] => rfl
  | [d] =>
      rw [pretty.prettyItems, tokens.itemTokens, List.flatten_cons, List.append_assoc,
        tokensFrom_newLine]
      exact tokensFrom_pretty d level done rest hrest
  | d :: d' :: ds =>
      have hitems := tokensFrom_prettyItems (d' :: ds) level (.comma :: (d.tokens.reverse ++ done))
        rest hrest
      rw [flatten_prettyItems, List.append_assoc, tokensFrom_newLine, List.append_assoc,
        tokensFrom_pretty d level done _ (by rintro c ⟨⟩; rfl)]
      refine hitems.trans ?_
      show _ = tokensFrom .between
        ((d.tokens ++ .comma :: tokens.itemTokens (d' :: ds)).reverse ++ done) rest
      rw [List.reverse_append, List.reverse_cons, List.append_assoc, List.append_assoc]
      rfl

theorem tokensFrom_prettyMembers (ms : List (String × Document)) (level : Nat)
    (done : List Token) (rest : List Char) (hrest : Stops rest) :
    tokensFrom .between done ((pretty.prettyMembers level ms).flatten ++ rest) =
      tokensFrom .between ((tokens.memberTokens ms).reverse ++ done) rest := by
  match ms with
  | [] => rfl
  | [(k, d)] =>
      have hd := tokensFrom_pretty d level
        (.colon :: .text (k.toList.map Piece.written) :: done) rest hrest
      rw [pretty.prettyMembers, tokens.memberTokens, List.flatten_cons, List.append_assoc,
        tokensFrom_newLine, List.flatten_cons, List.append_assoc, tokensFrom_quoted,
        List.reverse_cons, List.reverse_cons, List.append_assoc, List.append_assoc]
      exact hd
  | (k, d) :: m :: ms =>
      have hd := tokensFrom_pretty d level
        (.colon :: .text (k.toList.map Piece.written) :: done)
        (',' :: ((pretty.prettyMembers level (m :: ms)).flatten ++ rest)) (by rintro c ⟨⟩; rfl)
      have hmembers := tokensFrom_prettyMembers (m :: ms) level
        (.comma :: (d.tokens.reverse ++ .colon :: .text (k.toList.map Piece.written) :: done))
        rest hrest
      rw [flatten_prettyMembers, List.append_assoc, tokensFrom_newLine, List.append_assoc,
        tokensFrom_quoted]
      simp only [List.cons_append, List.append_assoc]
      refine hd.trans (hmembers.trans ?_)
      show _ = tokensFrom .between ((.text (k.toList.map Piece.written) :: .colon :: d.tokens ++
        .comma :: tokens.memberTokens (m :: ms)).reverse ++ done) rest
      simp only [List.reverse_append, List.reverse_cons, List.append_assoc]
      rfl

end

/-! ### The value of a document -/

/-- The value that a document is read as. -/
def value : Document → Value
  | .null => .null
  | .flag b => .flag b
  | .natural n => .number (naturalNumeral n)
  | .float x => floatValue x
  | .text s => .text (s.map Piece.written)
  | .array items => .array (itemValues items)
  | .object members => .object (memberValues members)
where
  itemValues : List Document → List Value
    | [] => []
    | d :: ds => value d :: itemValues ds
  memberValues : List (String × Document) → List (List Piece × Value)
    | [] => []
    | (k, d) :: ms => (k.toList.map Piece.written, value d) :: memberValues ms

/-- A document does not start like the end of a list. -/
theorem exists_tokens_eq_cons (d : Document) : ∃ t ts, d.tokens = t :: ts ∧ t ≠ .closeBracket := by
  cases d with
  | float x =>
      refine ⟨floatToken x, [], rfl, ?_⟩
      unfold floatToken
      split <;> simp
  | _ => exact ⟨_, _, rfl, by simp⟩

theorem exists_itemTokens_eq_cons (d : Document) (ds : List Document) :
    ∃ t ts, tokens.itemTokens (d :: ds) = t :: ts ∧ t ≠ .closeBracket := by
  obtain ⟨t, ts, htokens, ht⟩ := d.exists_tokens_eq_cons
  cases ds with
  | nil => exact ⟨t, ts, htokens, ht⟩
  | cons d' ds =>
      refine ⟨t, ts ++ .comma :: tokens.itemTokens (d' :: ds), ?_, ht⟩
      show d.tokens ++ _ = _
      rw [htokens]
      rfl

/-- Once it is clear that a list is not empty, an opened list is one that has a
value to come. -/
theorem step?_firstItem (stack : List Frame) {t : Token} (ht : t ≠ .closeBracket) :
    Parse.step? (.firstItem stack) t = Parse.step? (.value (.array [] :: stack)) t := by
  cases t with
  | closeBracket => exact absurd rfl ht
  | _ => rfl

theorem step?_floatToken (x : Float) (stack : List Frame) :
    Parse.step? (.value stack) (floatToken x) = some (.after stack (floatValue x)) := by
  unfold floatToken floatValue
  cases numeral? (floatText x) <;> rfl

mutual

/-- Where a value must follow, the tokens of a document complete its value. -/
theorem foldlM_tokens (d : Document) (stack : List Frame) :
    d.tokens.foldlM Parse.step? (.value stack) = some (.after stack d.value) := by
  match d with
  | .null => rfl
  | .flag b => rfl
  | .natural n => rfl
  | .float x =>
      rw [tokens, List.foldlM_cons, step?_floatToken]
      rfl
  | .text s => rfl
  | .array [] => rfl
  | .array (d :: ds) =>
      have hitems := foldlM_itemTokens (d :: ds) (List.cons_ne_nil d ds) stack []
      obtain ⟨t, ts, htokens, ht⟩ := exists_itemTokens_eq_cons d ds
      show (tokens.itemTokens (d :: ds) ++ [Token.closeBracket]).foldlM Parse.step?
        (.firstItem stack) = _
      rw [htokens, List.cons_append, List.foldlM_cons] at hitems ⊢
      rw [step?_firstItem stack ht]
      exact hitems
  | .object [] => rfl
  | .object (m :: ms) =>
      have hmembers := foldlM_memberTokens (m :: ms) (List.cons_ne_nil m ms) stack []
      cases ms <;> exact hmembers

/-- The tokens of the items and the closing bracket complete a list. -/
theorem foldlM_itemTokens (ds : List Document) (hds : ds ≠ []) (stack : List Frame)
    (done : List Value) :
    (tokens.itemTokens ds ++ [Token.closeBracket]).foldlM Parse.step?
        (.value (.array done :: stack)) =
      some (.after stack (.array (done.reverse ++ value.itemValues ds))) := by
  match ds with
  | [] => exact absurd rfl hds
  | [d] =>
      rw [tokens.itemTokens, List.foldlM_append, foldlM_tokens d]
      show some (Parse.after stack (.array (d.value :: done).reverse)) = _
      rw [List.reverse_cons]
      rfl
  | d :: d' :: ds =>
      have hitems := foldlM_itemTokens (d' :: ds) (List.cons_ne_nil d' ds) stack (d.value :: done)
      show ((d.tokens ++ Token.comma :: tokens.itemTokens (d' :: ds)) ++
        [Token.closeBracket]).foldlM Parse.step? _ = _
      rw [List.append_assoc, List.foldlM_append, foldlM_tokens d]
      refine hitems.trans ?_
      rw [List.reverse_cons, List.append_assoc]
      rfl

/-- The tokens of the members and the closing brace complete an object. -/
theorem foldlM_memberTokens (ms : List (String × Document)) (hms : ms ≠ [])
    (stack : List Frame) (done : List (List Piece × Value)) :
    (tokens.memberTokens ms ++ [Token.closeBrace]).foldlM Parse.step? (.key stack done) =
      some (.after stack (.object (done.reverse ++ value.memberValues ms))) := by
  match ms with
  | [] => exact absurd rfl hms
  | [(k, d)] =>
      show (d.tokens ++ [Token.closeBrace]).foldlM Parse.step?
        (.value (.object done (k.toList.map Piece.written) :: stack)) = _
      rw [List.foldlM_append, foldlM_tokens d]
      show some (Parse.after stack
        (.object ((k.toList.map Piece.written, d.value) :: done).reverse)) = _
      rw [List.reverse_cons]
      rfl
  | (k, d) :: m :: ms =>
      have hmembers := foldlM_memberTokens (m :: ms) (List.cons_ne_nil m ms) stack
        ((k.toList.map Piece.written, d.value) :: done)
      show ((d.tokens ++ Token.comma :: tokens.memberTokens (m :: ms)) ++
        [Token.closeBrace]).foldlM Parse.step?
        (.value (.object done (k.toList.map Piece.written) :: stack)) = _
      rw [List.append_assoc, List.foldlM_append, foldlM_tokens d]
      refine hmembers.trans ?_
      rw [List.reverse_cons, List.append_assoc]
      rfl

end

/-- **A document is read back from its lines**, whatever is in its texts and
its numbers. -/
theorem ofText?_pretty (d : Document) (level : Nat) :
    Value.ofText? (d.pretty level).flatten = some d.value := by
  have htokens : tokens? (d.pretty level).flatten = some d.tokens := by
    have hread := tokensFrom_pretty d level [] [] (by rintro c ⟨⟩)
    rw [List.append_nil, List.append_nil] at hread
    rw [tokens?, hread]
    show some ([] ++ d.tokens.reverse).reverse = _
    rw [List.nil_append, List.reverse_reverse]
  rw [Value.ofText?, htokens]
  show (d.tokens.foldlM Parse.step? (.value [])).bind Parse.result? = _
  rw [foldlM_tokens]
  rfl

end Document

end PathMeter.Json
