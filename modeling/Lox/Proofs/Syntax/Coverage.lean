import Lox.Proofs.Syntax.Scanning
import Mathlib.Data.List.TakeWhile
import Mathlib.Data.String.Basic
import Mathlib.Tactic.ByContra

/-!
# Where the tokens stand

Asking a source for one token after the other (`Token.nth`) goes through all of its text.  Every token
stands where it says, with its lexeme there and the line on which it ends, and between it and the one
before there is nothing but white space and comments (`Token.Stands`).  Its lexeme is also the slice of
the source between two places counted in bytes, which fall between characters (`Token.SliceOf`).  After
finitely many tokens the source has ended, and from then on there is only its end (`Token.nth_stands`).

A cursor agrees with its source if it has the text after it, and the line and the number of bytes that
it has reached (`Cursor.Within`).  Reading a token keeps that, so what is known of one token is known of all.
-/

namespace Lox

variable {source cs after : List Char} {place : Cursor}

/-! ## Between tokens -/

/-- A comment ends before a newline, or at the end of the source. -/
def EndsComment (rest : List Char) : Prop := ∀ c ∈ rest.head?, c = '\n'

/-- Text that belongs to no token, before the text `after`: white space, and comments, each of which
goes on to where it ends. -/
inductive Filler (after : List Char) : List Char → Prop where
  | none : Filler after []
  | blank {c cs} (blank : Text.isBlank c = true) (rest : Filler after cs) : Filler after (c :: cs)
  | comment {text cs} (oneLine : '\n' ∉ text) (ends : EndsComment (cs ++ after))
      (rest : Filler after cs) : Filler after ('/' :: '/' :: (text ++ cs))

/-- Filler from a place that may be in a comment. -/
def FillerFrom (inComment : Bool) (after cs : List Char) : Prop :=
  if inComment then
    ∃ text rest, cs = text ++ rest ∧ '\n' ∉ text ∧ EndsComment (rest ++ after) ∧ Filler after rest
  else Filler after cs

lemma FillerFrom.newline (rest : Filler after cs) (inComment : Bool) :
    FillerFrom inComment after ('\n' :: cs) := by
  have blank : Filler after ('\n' :: cs) := .blank (by decide) rest
  cases inComment with
  | false => exact blank
  | true =>
    refine ⟨[], '\n' :: cs, rfl, List.not_mem_nil, fun c there => ?_, blank⟩
    exact (Option.some.inj there).symm

lemma FillerFrom.pass {inComment : Bool} {c : Char} (other : c ≠ '\n')
    (passes : (inComment || Text.isBlank c) = true) (rest : FillerFrom inComment after cs) :
    FillerFrom inComment after (c :: cs) := by
  cases inComment with
  | false => exact Filler.blank passes rest
  | true =>
    obtain ⟨text, rest, rfl, oneLine, ends, filler⟩ := rest
    refine ⟨c :: text, rest, rfl, ?_, ends, filler⟩
    rw [List.mem_cons, not_or]
    exact ⟨Ne.symm other, oneLine⟩

/-- Two slashes start a comment; the second one has not been passed yet. -/
lemma Filler.slash (slash : (cs ++ after).head? = some '/') (rest : FillerFrom true after cs) :
    Filler after ('/' :: cs) := by
  obtain ⟨text, rest, rfl, oneLine, ends, filler⟩ := rest
  cases text with
  | nil => exact absurd (ends '/' slash) (by decide)
  | cons c text =>
    obtain rfl := Option.some.inj slash
    exact .comment (fun there => oneLine (List.mem_cons_of_mem _ there)) ends filler

/-- What is skipped is filler, and the line and the offsets go along. -/
lemma skipBlanks_filler (inComment : Bool) (cs : List Char) (line offset bytes : Nat) :
    ∃ gap, cs = gap ++ (skipBlanks inComment cs line offset bytes).ahead ∧
      FillerFrom inComment (skipBlanks inComment cs line offset bytes).ahead gap ∧
      (skipBlanks inComment cs line offset bytes).line = line + gap.count '\n' ∧
      (skipBlanks inComment cs line offset bytes).offset = offset + gap.length ∧
      (skipBlanks inComment cs line offset bytes).bytes = bytes + String.utf8Len gap := by
  fun_induction skipBlanks inComment cs line offset bytes with
  | case1 inComment line offset bytes =>
    refine ⟨[], rfl, ?_, rfl, rfl, rfl⟩
    cases inComment with
    | false => exact Filler.none
    | true =>
      have ends : EndsComment [] := fun c there => by cases there
      exact ⟨[], [], rfl, List.not_mem_nil, ends, Filler.none⟩
  | case2 inComment cs line offset bytes ih =>
    obtain ⟨gap, split, filler, lines, offsets, sizes⟩ := ih
    refine ⟨'\n' :: gap, congrArg _ split, .newline filler _, ?_, ?_, ?_⟩
    · rw [lines, List.count_cons_self]
      omega
    · rw [offsets, List.length_cons]
      omega
    · rw [sizes, String.utf8Len_cons]
      omega
  | case3 inComment c cs line offset bytes other passes ih =>
    obtain ⟨gap, split, filler, lines, offsets, sizes⟩ := ih
    refine ⟨c :: gap, congrArg _ split, filler.pass other passes, ?_, ?_, ?_⟩
    · rw [lines, List.count_cons_of_ne other]
    · rw [offsets, List.length_cons]
      omega
    · rw [sizes, String.utf8Len_cons]
      omega
  | case4 inComment c cs line offset bytes other stays slashes ih =>
    obtain ⟨gap, split, filler, lines, offsets, sizes⟩ := ih
    rw [Bool.and_eq_true, decide_eq_true_eq, decide_eq_true_eq] at slashes
    obtain ⟨rfl, slash⟩ := slashes
    have outside : inComment = false := by
      cases inComment with
      | false => rfl
      | true => exact absurd rfl stays
    subst outside
    refine ⟨'/' :: gap, congrArg _ split, Filler.slash ?_ filler, ?_, ?_, ?_⟩
    · rw [← split, slash]
    · rw [lines, List.count_cons_of_ne other]
    · rw [offsets, List.length_cons]
      omega
    · rw [sizes, String.utf8Len_cons]
      omega
  | case5 inComment c cs line offset bytes other stays noComment =>
    have outside : inComment = false := by
      cases inComment with
      | false => rfl
      | true => exact absurd rfl stays
    subst outside
    exact ⟨[], rfl, Filler.none, rfl, rfl, rfl⟩

/-! ## Text that is no token -/

lemma Keyword.kindOf_ne_malformed (word : List Char) (fault : LexicalFault) :
    Keyword.kindOf word ≠ .malformed fault := by
  unfold Keyword.kindOf
  cases found : Keyword.trie.find? word with
  | none => exact TokenKind.noConfusion
  | some kind =>
    obtain ⟨x, there, -⟩ := Keyword.mem_of_find? found
    rintro rfl
    revert there
    simp [Keyword.entries]

lemma Keyword.kindOf_ne_endOfInput (word : List Char) : Keyword.kindOf word ≠ .endOfInput := by
  unfold Keyword.kindOf
  cases found : Keyword.trie.find? word with
  | none => exact TokenKind.noConfusion
  | some kind =>
    obtain ⟨x, there, -⟩ := Keyword.mem_of_find? found
    rintro rfl
    revert there
    simp [Keyword.entries]

lemma extensibleMark_cases {c : Char} {alone extended : TokenKind}
    (marks : extensibleMark? c = some (alone, extended)) :
    ∀ kind ∈ [alone, extended], kind ≠ .endOfInput ∧ ∀ fault, kind ≠ .malformed fault := by
  unfold extensibleMark? at marks
  split at marks <;> simp at marks <;> obtain ⟨rfl, rfl⟩ := marks <;> simp

lemma singleMark_cases (c : Char) :
    (singleMark? c).getD (.malformed .unexpectedCharacter) ≠ .endOfInput ∧
      (singleMark? c).getD (.malformed .unexpectedCharacter) ≠ .malformed .unterminatedString := by
  unfold singleMark?
  split <;> simp

/-- What may be said of a lexeme by its kind: `more` are its characters after the first, and `rest` is
the text after it. -/
structure LexemeOf (kind : TokenKind) (c : Char) (more rest : List Char) : Prop where
  some : kind ≠ .endOfInput
  alone : kind = .malformed .unexpectedCharacter → more = []
  unclosed : kind = .malformed .unterminatedString → c = '"' ∧ '"' ∉ more ∧ rest = []

lemma LexemeOf.proper {kind : TokenKind} {c : Char} {more rest : List Char}
    (some : kind ≠ .endOfInput) (proper : ∀ fault, kind ≠ .malformed fault) :
    LexemeOf kind c more rest :=
  ⟨some, fun odd => absurd odd (proper _), fun odd => absurd odd (proper _)⟩

lemma readLexeme_lexemeOf (c : Char) (cs : List Char) :
    LexemeOf (readLexeme c cs).1 c (readLexeme c cs).2.1 (readLexeme c cs).2.2 := by
  unfold readLexeme
  split
  · exact .proper (Keyword.kindOf_ne_endOfInput _) (Keyword.kindOf_ne_malformed _)
  · split
    · exact .proper TokenKind.noConfusion fun _ => TokenKind.noConfusion
    · split
      · next quote =>
        split
        · exact .proper TokenKind.noConfusion fun _ => TokenKind.noConfusion
        · next ends =>
          refine ⟨TokenKind.noConfusion, fun odd => ?_, fun _ => ⟨quote, fun there => ?_, rfl⟩⟩
          · exact nomatch odd
          · simpa using List.dropWhile_eq_nil_iff.1 ends '"' there
      · split
        · next marks =>
          obtain ⟨some, proper⟩ := extensibleMark_cases marks _ (List.mem_cons_of_mem _ List.mem_cons_self)
          exact .proper some proper
        · next marks _ =>
          obtain ⟨some, proper⟩ := extensibleMark_cases marks _ List.mem_cons_self
          exact .proper some proper
        · obtain ⟨some, closed⟩ := singleMark_cases c
          exact ⟨some, fun _ => rfl, fun odd => absurd odd closed⟩

/-! ## Tokens in their source -/

/-- The number of characters of the source up to the end of the token. -/
def Token.stop (t : Token) : Nat := t.start + t.lexeme.length

/-- The text from one offset to another. -/
def between (source : List Char) (start stop : Nat) : List Char :=
  (source.take stop).drop start

/-- The token stands in the source, as the next one after the first `passed` characters. -/
structure Token.Stands (source : List Char) (passed : Nat) (t : Token) : Prop where
  onward : passed ≤ t.start
  filler : Filler (source.drop t.start) (between source passed t.start)
  lexeme : between source t.start t.stop = t.lexeme.toList
  line : t.line = 1 + (source.take t.stop).count '\n'
  /-- Only the end of the source has no text. -/
  ends : t.kind = .endOfInput → t.start = source.length ∧ t.lexeme = ""
  goesOn : t.kind ≠ .endOfInput → t.start < t.stop ∧ t.stop ≤ source.length
  unexpected : t.kind = .malformed .unexpectedCharacter →
    t.lexeme.length = 1 ∧ t.text = "Unexpected character."
  unclosed : t.kind = .malformed .unterminatedString →
    t.text = "Unterminated string." ∧ t.stop = source.length ∧
      ∃ content, t.lexeme.toList = '"' :: content ∧ '"' ∉ content

/-- The place after so many characters, counted in bytes. -/
def bytesBefore (source : List Char) (offset : Nat) : String.Pos.Raw :=
  ⟨String.utf8Len (source.take offset)⟩

/-- The lexeme is the slice of the source between two places counted in bytes.  They fall between characters,
and come after as many characters as the token says. -/
structure Token.SliceOf (source : String) (start stop : String.Pos.Raw) (t : Token) : Prop where
  starts : start = bytesBefore source.toList t.start
  stops : stop = bytesBefore source.toList t.stop
  valid : start.Valid source ∧ stop.Valid source
  lexeme : String.Pos.Raw.extract source start stop = t.lexeme

lemma bytesBefore_valid (source : String) (offset : Nat) : (bytesBefore source.toList offset).Valid source :=
  .intro ⟨_, _, List.take_append_drop offset source.toList, rfl⟩

lemma extract_bytesBefore (source : String) {start stop : Nat} (onward : start ≤ stop) :
    String.Pos.Raw.extract source (bytesBefore source.toList start) (bytesBefore source.toList stop) =
      String.ofList (between source.toList start stop) := by
  have before : (source.toList.take stop).take start = source.toList.take start := by
    rw [List.take_take, Nat.min_eq_left onward]
  have upTo : source.toList.take start ++ between source.toList start stop = source.toList.take stop := by
    rw [← before]
    exact List.take_append_drop start (source.toList.take stop)
  have slice := String.extract_of_valid (source.toList.take start) (between source.toList start stop)
    (source.toList.drop stop)
  rw [← String.utf8Len_append, upTo, List.take_append_drop, String.ofList_toList] at slice
  exact slice

lemma Token.Stands.sliceOf {source : String} {passed : Nat} {t : Token} (stands : t.Stands source.toList passed) :
    t.SliceOf source (bytesBefore source.toList t.start) (bytesBefore source.toList t.stop) := by
  refine ⟨rfl, rfl, ⟨bytesBefore_valid source _, bytesBefore_valid source _⟩, ?_⟩
  have onward : t.start ≤ t.stop := Nat.le_add_right _ _
  rw [extract_bytesBefore source onward, stands.lexeme, String.ofList_toList]

/-! ## Cursors in their source -/

/-- The cursor has the text of the source after it, and the line and the number of bytes it has reached. -/
structure Cursor.Within (source : List Char) (place : Cursor) : Prop where
  bound : place.offset ≤ source.length
  ahead : place.ahead = source.drop place.offset
  line : place.line = 1 + (source.take place.offset).count '\n'
  bytes : ⟨place.bytes⟩ = bytesBefore source place.offset

lemma Cursor.within_ofString (source : String) : (Cursor.ofString source).Within source.toList :=
  ⟨Nat.zero_le _, rfl, rfl, rfl⟩

lemma between_append {passed : Nat} {text rest : List Char} (bound : passed ≤ source.length)
    (ahead : source.drop passed = text ++ rest) :
    passed + text.length ≤ source.length ∧ between source passed (passed + text.length) = text ∧
      source.drop (passed + text.length) = rest ∧
      source.take (passed + text.length) = source.take passed ++ text := by
  have length := congrArg List.length ahead
  rw [List.length_drop, List.length_append] at length
  refine ⟨by omega, ?_, ?_, ?_⟩
  · rw [between, List.drop_take, Nat.add_sub_cancel_left, ahead, List.take_left]
  · rw [← List.drop_drop, ahead, List.drop_left]
  · rw [List.take_add, ahead, List.take_left]

/-- A cursor that passes what is ahead of it goes on agreeing with its source. -/
lemma Cursor.Within.pass {text rest : List Char} (h : place.Within source) (ahead : place.ahead = text ++ rest) :
    (place.pass text rest).Within source ∧
      between source place.offset (place.pass text rest).offset = text := by
  obtain ⟨bound, text_, ahead', behind⟩ := between_append h.bound (h.ahead.symm.trans ahead)
  refine ⟨⟨bound, ahead'.symm, ?_, ?_⟩, text_⟩
  · show place.line + text.count '\n' = 1 + (source.take (place.offset + text.length)).count '\n'
    rw [behind, List.count_append, ← Nat.add_assoc, h.line]
  · show ⟨place.bytes + (String.ofList text).utf8ByteSize⟩ = bytesBefore source (place.offset + text.length)
    have bytes : place.bytes = String.utf8Len (source.take place.offset) := congrArg String.Pos.Raw.byteIdx h.bytes
    rw [bytesBefore, behind, String.utf8Len_append, String.utf8ByteSize_ofList, bytes]

/-- What is skipped before a token is filler. -/
lemma Cursor.skip_filler (place : Cursor) :
    ∃ gap, place.ahead = gap ++ place.skip.ahead ∧ Filler place.skip.ahead gap ∧
      place.skip = place.pass gap place.skip.ahead := by
  obtain ⟨gap, split, filler, lines, offsets, sizes⟩ :=
    skipBlanks_filler false place.ahead place.line place.offset place.bytes
  refine ⟨gap, split, filler, ?_⟩
  rw [Cursor.pass, String.utf8ByteSize_ofList, ← lines, ← offsets, ← sizes]
  rfl

/-- The next token stands in the source, and the cursor after it is where it stops. -/
lemma Token.next_stands (h : place.Within source) :
    (Token.next place).1.Stands source place.offset ∧ (Token.next place).2.Within source ∧
      (Token.next place).2.offset = (Token.next place).1.stop := by
  obtain ⟨gap, split, filler, skips⟩ := place.skip_filler
  obtain ⟨within, gap_⟩ := h.pass split
  rw [← skips] at within gap_
  have onward : place.offset ≤ place.skip.offset := by
    rw [skips]
    exact Nat.le_add_right _ _
  unfold Token.next
  dsimp only
  generalize place.skip = start at filler within gap_ onward ⊢
  have filler_ : Filler (source.drop start.offset) (between source place.offset start.offset) := by
    rw [gap_, ← within.ahead]
    exact filler
  cases rest : start.ahead with
  | nil =>
    have atEnd : start.offset = source.length := by
      have none := List.drop_eq_nil_iff.1 (within.ahead.symm.trans rest)
      exact Nat.le_antisymm within.bound none
    have stands : Token.Stands source place.offset
        ⟨.endOfInput, "", start.line, start.offset⟩ := {
      onward := onward
      filler := filler_
      lexeme := by
        show between source start.offset (start.offset + 0) = []
        rw [between, Nat.add_zero, List.drop_take, Nat.sub_self, List.take_zero]
      line := within.line
      ends := fun _ => ⟨atEnd, rfl⟩
      goesOn := fun other => absurd rfl other
      unexpected := fun odd => nomatch odd
      unclosed := fun odd => nomatch odd }
    exact ⟨stands, within, rfl⟩
  | cons c cs =>
    have whole := readLexeme_append c cs
    have known := readLexeme_lexemeOf c cs
    dsimp only
    generalize readLexeme c cs = lexeme at whole known ⊢
    obtain ⟨kind, more, after⟩ := lexeme
    dsimp only at whole known ⊢
    rw [← whole, ← List.cons_append] at rest
    obtain ⟨within', text⟩ := within.pass rest
    have length : (String.ofList (c :: more)).length = (c :: more).length := String.length_ofList
    have stop : Token.stop ⟨kind, String.ofList (c :: more),
        (start.pass (c :: more) after).line, start.offset⟩ = (start.pass (c :: more) after).offset :=
      congrArg (start.offset + ·) length
    have stands : Token.Stands source place.offset ⟨kind, String.ofList (c :: more),
        (start.pass (c :: more) after).line, start.offset⟩ := {
      onward := onward
      filler := filler_
      lexeme := by rw [stop, text, String.toList_ofList]
      line := by
        rw [stop]
        exact within'.line
      ends := fun ends => absurd ends known.some
      goesOn := fun _ => by
        rw [stop]
        exact ⟨Nat.lt_add_of_pos_right (Nat.succ_pos _), within'.bound⟩
      unexpected := fun odd => by
        obtain rfl : kind = .malformed .unexpectedCharacter := odd
        refine ⟨?_, rfl⟩
        show (String.ofList (c :: more)).length = 1
        rw [length, known.alone rfl]
        rfl
      unclosed := fun odd => by
        obtain rfl : kind = .malformed .unterminatedString := odd
        obtain ⟨rfl, closed, rfl⟩ := known.unclosed rfl
        refine ⟨rfl, ?_, more, String.toList_ofList, closed⟩
        rw [stop]
        exact Nat.le_antisymm within'.bound (List.drop_eq_nil_iff.1 within'.ahead.symm) }
    exact ⟨stands, within', stop.symm⟩

/-- A token starts where the cursor is past white space and comments. -/
lemma Token.start_next (place : Cursor) : (Token.next place).1.start = place.skip.offset := by
  unfold Token.next
  dsimp only
  split <;> rfl

/-! ## All tokens -/

/-- The place after so many tokens. -/
def Cursor.nth (source : String) : Nat → Cursor
  | 0 => .ofString source
  | k + 1 => (Token.next (Cursor.nth source k)).2

/-- What a source gives when it is asked for one token after the other, counted from zero. -/
def Token.nth (source : String) (k : Nat) : Token := (Token.next (Cursor.nth source k)).1

/-- The number of characters up to the end of the token before. -/
def Token.passed (source : String) : Nat → Nat
  | 0 => 0
  | k + 1 => (Token.nth source k).stop

lemma Cursor.nth_within (source : String) (k : Nat) :
    (Cursor.nth source k).Within source.toList ∧
      (Cursor.nth source k).offset = Token.passed source k := by
  induction k with
  | zero => exact ⟨Cursor.within_ofString source, rfl⟩
  | succ k ih => exact (Token.next_stands ih.1).2

lemma Token.nth_stands_one (source : String) (k : Nat) :
    (Token.nth source k).Stands source.toList (Token.passed source k) := by
  obtain ⟨within, offset⟩ := Cursor.nth_within source k
  rw [← offset]
  exact (Token.next_stands within).1

lemma Token.nth_sliceOf (source : String) (k : Nat) :
    (Token.nth source k).SliceOf source ⟨(Cursor.nth source k).skip.bytes⟩ ⟨(Cursor.nth source (k + 1)).bytes⟩ := by
  obtain ⟨gap, split, -, skips⟩ := (Cursor.nth source k).skip_filler
  have start : (Cursor.nth source k).skip.Within source.toList := by
    rw [skips]
    exact ((Cursor.nth_within source k).1.pass split).1
  obtain ⟨stop, offset⟩ := Cursor.nth_within source (k + 1)
  rw [start.bytes, stop.bytes, offset, ← Token.start_next]
  exact (Token.nth_stands_one source k).sliceOf

/-- The end of a source. -/
def Token.endOf (source : String) : Token :=
  ⟨.endOfInput, "", 1 + source.toList.count '\n', source.length⟩

lemma Token.nth_eq_endOf {source : String} {k : Nat} (ends : (Token.nth source k).kind = .endOfInput) :
    Token.nth source k = Token.endOf source := by
  have stands := Token.nth_stands_one source k
  generalize Token.nth source k = t at ends stands
  obtain ⟨kind, lexeme, line, start⟩ := t
  obtain rfl : kind = .endOfInput := ends
  obtain ⟨atEnd, rfl⟩ := stands.ends rfl
  obtain rfl : start = source.length := atEnd
  have whole : source.toList.take source.length = source.toList := List.take_length
  have line_ : line = 1 + (source.toList.take (source.length + 0)).count '\n' := stands.line
  rw [Nat.add_zero, whole] at line_
  rw [line_]
  rfl

/-- When the source has ended it stays so. -/
lemma Token.nth_succ_ends {source : String} {k : Nat}
    (ends : (Token.nth source k).kind = .endOfInput) :
    (Token.nth source (k + 1)).kind = .endOfInput := by
  have before := Token.nth_stands_one source k
  have stands := Token.nth_stands_one source (k + 1)
  by_contra goesOn
  obtain ⟨some, bound⟩ := stands.goesOn goesOn
  obtain ⟨atEnd, none⟩ := before.ends ends
  have onward : (Token.nth source k).stop ≤ _ := stands.onward
  unfold Token.stop at onward
  omega

/-- The tokens that the compiler reads are those that the source gives, up to its end. -/
lemma Token.scanFrom_nth (source : String) :
    ∀ (fuel k : Nat) (found : Array Token), (Cursor.nth source k).ahead.length ≤ fuel →
      ∃ n, k ≤ n ∧ (Token.nth source n).kind = .endOfInput ∧
        (∀ j, k ≤ j → j < n → (Token.nth source j).kind ≠ .endOfInput) ∧
        (Token.scanFrom fuel (Cursor.nth source k) found).toList =
          found.toList ++ (List.range' k (n + 1 - k)).map (Token.nth source) := by
  intro fuel
  induction fuel with
  | zero =>
    intro k found enough
    refine ⟨k, Nat.le_refl k, ?_, fun j above below => ?_, ?_⟩
    · by_contra goesOn
      have nearer := Token.length_ahead_next_lt goesOn
      omega
    · omega
    · rw [Nat.add_sub_cancel_left]
      exact Array.toList_push
  | succ fuel ih =>
    intro k found enough
    have nearer := @Token.length_ahead_next_lt (Cursor.nth source k)
    have later := ih (k + 1) (found.push (Token.nth source k))
    rw [Token.scanFrom]
    show ∃ n, k ≤ n ∧ _ ∧ _ ∧ (if (Token.nth source k).kind = .endOfInput then
      found.push (Token.nth source k) else Token.scanFrom fuel (Cursor.nth source (k + 1))
        (found.push (Token.nth source k))).toList = _
    by_cases ends : (Token.nth source k).kind = .endOfInput
    · refine ⟨k, Nat.le_refl k, ends, fun j above below => by omega, ?_⟩
      rw [if_pos ends, Nat.add_sub_cancel_left]
      exact Array.toList_push
    · have shorter : (Cursor.nth source (k + 1)).ahead.length < _ := nearer ends
      obtain ⟨n, above, last, others, tokens⟩ := later (by omega)
      refine ⟨n, Nat.le_of_succ_le above, last, fun j above' below => ?_, ?_⟩
      · rcases Nat.eq_or_lt_of_le above' with rfl | above'
        · exact ends
        · exact others j above' below
      · rw [if_neg ends, tokens, Array.toList_push, List.append_assoc]
        have count : n + 1 - k = (n + 1 - (k + 1)) + 1 := by omega
        rw [count, List.range'_succ]
        rfl

/-- A source gives finitely many tokens, the ones that the compiler reads, and then its end for ever.
Each token stands in the source next after the one before, so nothing of the source is lost but white
space and comments, and each has the line on which it ends.  Its lexeme is what is cut out of the source
between the bytes where it starts and stops. -/
theorem Token.nth_stands (source : String) :
    ∃ n, (Token.scan source).toList = (List.range (n + 1)).map (Token.nth source) ∧
      (∀ k < n, (Token.nth source k).kind ≠ .endOfInput) ∧
      (∀ k, n ≤ k → Token.nth source k = Token.endOf source) ∧
      ∀ k, (Token.nth source k).Stands source.toList (Token.passed source k) ∧
        (Token.nth source k).SliceOf source ⟨(Cursor.nth source k).skip.bytes⟩
          ⟨(Cursor.nth source (k + 1)).bytes⟩ := by
  obtain ⟨n, -, last, others, tokens⟩ :=
    Token.scanFrom_nth source _ 0 #[] (Nat.le_refl _)
  refine ⟨n, ?_, fun k below => others k (Nat.zero_le k) below, fun k above => ?_,
    fun k => ⟨Token.nth_stands_one source k, Token.nth_sliceOf source k⟩⟩
  · rw [List.range_eq_range']
    exact tokens
  · refine Token.nth_eq_endOf ?_
    induction above with
    | refl => exact last
    | step _ ih => exact Token.nth_succ_ends ih

end Lox
