import Lox.Proofs.Syntax.Lexemes
import Lox.Proofs.Compile.Twins

/-!
# Scanning again

The words of a source say all there is to say about it but for lines.  Written one after the other
with any blanks in between, they are read again as the same words (`Spaced.spellings_scan`), because no
lexeme goes on over a blank.  And sources with the same words compile to the same functions, or are
rejected for the same reasons, which may be on other lines (`compile_rescanned`).
-/

namespace Lox

/-! ## Words -/

/-- What a token says, wherever it stands. -/
def Token.spelling (t : Token) : TokenKind × String := (t.kind, t.lexeme)

/-- The words of a source, the last one being its end. -/
def spellings (source : String) : List (TokenKind × String) := (Token.scan source).toList.map Token.spelling

/-- Lexemes, one after the other, and blanks in between. -/
inductive Spaced : List String → List Char → Prop where
  | none : Spaced [] []
  | last (lexeme : String) : Spaced [lexeme] lexeme.toList
  | more {lexeme : String} {lexemes gap text} (some : gap ≠ [])
      (blank : ∀ c ∈ gap, Text.isBlank c = true) (rest : Spaced lexemes text) :
      Spaced (lexeme :: lexemes) (lexeme.toList ++ gap ++ text)

/-- The text of a source is free of text that is no token. -/
def Unspoilt (source : String) : Prop :=
  ∀ t ∈ Token.scan source, ∀ fault, t.kind ≠ .malformed fault

/-! ## Reading words -/

section Reading

variable {kind : TokenKind} {c : Char} {w gap rest : List Char}

/-- No lexeme starts with a blank, and one that starts with a slash is a slash. -/
lemma Spells.visible (spells : Spells kind (c :: w)) :
    Text.isBlank c = false ∧ (c = '/' → w = []) := by
  have named : ∀ {d}, StartsName d ∨ IsDigit d → Text.isBlank d = false ∧ d ≠ '/' := by
    intro d part
    refine ⟨Bool.eq_false_iff.2 fun blank => not_part_of_blank blank part, ?_⟩
    rintro rfl
    revert part
    decide
  have proper : ∀ {d}, StartsName d ∨ IsDigit d → Text.isBlank d = false ∧ (d = '/' → w = []) :=
    fun part => ⟨(named part).1, fun slash => absurd slash (named part).2⟩
  generalize word : c :: w = text at spells
  cases spells with
  | name start => exact (List.cons.inj word).1 ▸ proper (.inl start)
  | keyword entry =>
    obtain ⟨-, c', cs', same, start, -⟩ := Keyword.entries_spelled _ entry
    exact (List.cons.inj (word.trans same)).1 ▸ proper (.inl start)
  | whole digits => exact (List.cons.inj word).1 ▸ proper (.inr (digits _ List.mem_cons_self))
  | fraction digits => exact (List.cons.inj word).1 ▸ proper (.inr (digits _ List.mem_cons_self))
  | string =>
    obtain ⟨rfl, -⟩ := List.cons.inj word
    exact ⟨by decide, fun slash => absurd slash (by decide)⟩
  | mark entry =>
    obtain ⟨c', w', same, -, ⟨least, most⟩, single, -⟩ := marks_spelled _ entry
    obtain ⟨rfl, rfl⟩ := List.cons.inj (word.trans same)
    exact ⟨isBlank_visible least most, single.resolve_left ∘ not_not.2⟩

/-- What is no white space and no comment is not passed. -/
lemma skipBlanks_stays {cs : List Char} (line offset bytes : Nat)
    (stops : ∀ d ∈ cs.head?, Text.isBlank d = false) (single : ¬['/', '/'] <+: cs) :
    skipBlanks false cs line offset bytes = ⟨cs, line, offset, bytes⟩ := by
  cases cs with
  | nil => rfl
  | cons c cs =>
    have visible := stops c rfl
    have other : c ≠ '\n' := by
      rintro rfl
      exact absurd visible (by decide)
    have stands : ¬(decide (c = '/') && decide (cs.head? = some '/')) = true := by
      simp only [Bool.and_eq_true, decide_eq_true_eq]
      rintro ⟨rfl, slash⟩
      obtain ⟨rest, rfl⟩ := List.head?_eq_some_iff.1 slash
      exact single ⟨rest, rfl⟩
    rw [skipBlanks, if_neg other, visible, if_neg (by decide), if_neg stands]

/-- Blanks are passed, up to a lexeme. -/
lemma skipBlanks_gap (cs : List Char) (line offset bytes : Nat)
    (blank : ∀ d ∈ gap, Text.isBlank d = true)
    (stops : ∀ d ∈ cs.head?, Text.isBlank d = false) (single : ¬['/', '/'] <+: cs) :
    (skipBlanks false (gap ++ cs) line offset bytes).ahead = cs := by
  induction gap generalizing line offset bytes with
  | nil => rw [List.nil_append, skipBlanks_stays line offset bytes stops single]
  | cons d gap ih =>
    obtain ⟨first, later⟩ := List.forall_mem_cons.1 blank
    rw [List.cons_append, skipBlanks]
    split
    · exact ih _ _ _ later
    · rw [first, Bool.false_or, if_pos rfl]
      exact ih _ _ _ later

variable {place : Cursor}

lemma Cursor.skip_gap {cs : List Char} (text : place.ahead = gap ++ cs) (blank : ∀ d ∈ gap, Text.isBlank d = true)
    (stops : ∀ d ∈ cs.head?, Text.isBlank d = false) (single : ¬['/', '/'] <+: cs) : place.skip.ahead = cs := by
  unfold Cursor.skip
  rw [text]
  exact skipBlanks_gap cs _ _ _ blank stops single

/-- What is read after blanks, no comment, is the next token. -/
lemma Token.next_read (visible : Text.isBlank c = false) (blank : ∀ d ∈ gap, Text.isBlank d = true)
    (single : ¬['/', '/'] <+: c :: w ++ rest) (read : readLexeme c (w ++ rest) = (kind, w, rest))
    (text : place.ahead = gap ++ (c :: w ++ rest)) :
    (Token.next place).1.spelling = (kind, String.ofList (c :: w)) ∧ (Token.next place).2.ahead = rest := by
  have ahead := Cursor.skip_gap text blank (fun d head => Option.some.inj head ▸ visible) single
  unfold Token.next
  dsimp only
  generalize place.skip = start at ahead ⊢
  rw [ahead]
  dsimp only [List.cons_append]
  rw [read]
  exact ⟨rfl, rfl⟩

/-- A lexeme is read again after blanks, and before a blank or at the end. -/
lemma Spells.next_apart (spells : Spells kind (c :: w)) (blank : ∀ d ∈ gap, Text.isBlank d = true)
    (apart : ∀ d ∈ rest.head?, Text.isBlank d = true) (text : place.ahead = gap ++ (c :: w ++ rest)) :
    (Token.next place).1.spelling = (kind, String.ofList (c :: w)) ∧
      (Token.next place).2.ahead = rest := by
  obtain ⟨visible, slash⟩ := spells.visible
  have single : ¬['/', '/'] <+: c :: w ++ rest := by
    rintro ⟨more, same⟩
    obtain rfl := (List.cons.inj same).1
    obtain rfl := slash rfl
    have same : '/' :: more = rest := (List.cons.inj same).2
    have blank := apart '/' (same ▸ rfl)
    exact absurd blank (by decide)
  exact Token.next_read visible blank single (spells.readLexeme_apart apart) text

/-- After nothing but blanks there is the end. -/
lemma Token.next_gap (blank : ∀ d ∈ place.ahead, Text.isBlank d = true) :
    (Token.next place).1.spelling = (.endOfInput, "") := by
  have ahead := Cursor.skip_gap (List.append_nil place.ahead).symm blank (fun d head => nomatch head)
    fun start => nomatch List.prefix_nil.1 start
  unfold Token.next
  dsimp only
  rw [ahead]
  rfl

lemma Token.scanFrom_gap (blank : ∀ d ∈ place.ahead, Text.isBlank d = true) (fuel : Nat)
    (found : Array Token) : (Token.scanFrom fuel place found).toList.map Token.spelling =
      found.toList.map Token.spelling ++ [(.endOfInput, "")] := by
  have ends := Token.next_gap blank
  have all : Token.scanFrom fuel place found = found.push (Token.next place).1 := by
    cases fuel with
    | zero => rfl
    | succ fuel => exact if_pos (congrArg Prod.fst ends)
  rw [all, Array.toList_push, List.map_append, List.map_singleton, ends]

/-- A lexeme is not the end. -/
lemma Spells.ne_endOfInput (spells : Spells kind (c :: w)) : kind ≠ .endOfInput := by
  have known := (readLexeme_lexemeOf c (w ++ [])).some
  have apart : ∀ d ∈ ([] : List Char).head?, Text.isBlank d = true := fun d head => nomatch head
  rwa [spells.readLexeme_apart apart] at known

/-- A lexeme that stands apart is the next one to be added to the tokens. -/
lemma Token.scanFrom_turn {t : Token} {fuel : Nat} (found : Array Token)
    (spells : Spells t.kind t.lexeme.toList) (blank : ∀ d ∈ gap, Text.isBlank d = true)
    (apart : ∀ d ∈ rest.head?, Text.isBlank d = true)
    (text : place.ahead = gap ++ (t.lexeme.toList ++ rest)) (enough : place.ahead.length ≤ fuel) :
    ∃ fuel' place', place'.ahead = rest ∧ place'.ahead.length ≤ fuel' ∧
      ∃ t', t'.spelling = t.spelling ∧
        Token.scanFrom fuel place found = Token.scanFrom fuel' place' (found.push t') := by
  obtain ⟨c, w, word⟩ := spells.exists_cons
  rw [word] at spells text
  obtain ⟨read, after⟩ := spells.next_apart blank apart text
  have goesOn : (Token.next place).1.kind ≠ .endOfInput := fun ends =>
    spells.ne_endOfInput ((congrArg Prod.fst read).symm.trans ends)
  have nearer := Token.length_ahead_next_lt goesOn
  obtain ⟨fuel, rfl⟩ : ∃ fuel', fuel = fuel' + 1 := Nat.exists_eq_add_one.2 (by omega)
  refine ⟨fuel, (Token.next place).2, after, by omega, (Token.next place).1, ?_, if_neg goesOn⟩
  rw [read, ← word, String.ofList_toList]
  rfl

/-- What is ahead is spelled like the rest of the tokens. -/
lemma Spaced.scanFrom {lexemes : List String} {text : List Char} (spaced : Spaced lexemes text) :
    ∀ {ts : List Token} (gap : List Char) {fuel : Nat} {place : Cursor} (found : Array Token),
      ts.map Token.lexeme = lexemes → (∀ t ∈ ts, Spells t.kind t.lexeme.toList) →
      (∀ c ∈ gap, Text.isBlank c = true) → place.ahead = gap ++ text → place.ahead.length ≤ fuel →
      (Token.scanFrom fuel place found).toList.map Token.spelling =
        found.toList.map Token.spelling ++ (ts.map Token.spelling ++ [(.endOfInput, "")]) := by
  induction spaced with
  | none =>
    intro ts gap fuel place found same _ blank text _
    obtain rfl := List.map_eq_nil_iff.1 same
    rw [List.append_nil] at text
    exact Token.scanFrom_gap (text ▸ blank) fuel found
  | last lexeme =>
    intro ts gap fuel place found same spells blank text enough
    obtain ⟨t, ts, rfl, rfl, none⟩ := List.map_eq_cons_iff.1 same
    obtain rfl := List.map_eq_nil_iff.1 none
    rw [← List.append_nil t.lexeme.toList] at text
    have apart : ∀ d ∈ ([] : List Char).head?, Text.isBlank d = true := fun d head => nomatch head
    obtain ⟨fuel', place', text', -, t', word, turns⟩ := Token.scanFrom_turn found
      (spells t List.mem_cons_self) blank apart text enough
    have none : ∀ d ∈ place'.ahead, Text.isBlank d = true := by
      rw [text']
      simp
    rw [turns, Token.scanFrom_gap none, Array.toList_push, List.map_append, List.append_assoc,
      List.map_singleton, word]
    rfl
  | @more lexeme lexemes gap' next some blank' rest ih =>
    intro ts gap fuel place found same spells blank text enough
    obtain ⟨t, ts, rfl, rfl, others⟩ := List.map_eq_cons_iff.1 same
    obtain ⟨first, later⟩ := List.forall_mem_cons.1 spells
    obtain ⟨d, ds, rfl⟩ := List.exists_cons_of_ne_nil some
    rw [List.append_assoc] at text
    have apart : ∀ x ∈ (d :: ds ++ next).head?, Text.isBlank x = true :=
      fun x head => blank' x (Option.some.inj head ▸ List.mem_cons_self)
    obtain ⟨fuel', place', text', enough', t', word, turns⟩ :=
      Token.scanFrom_turn found first blank apart text enough
    rw [turns, ih _ _ others later blank' text' enough', Array.toList_push, List.map_append,
      List.append_assoc, List.map_singleton, word]
    rfl

end Reading

/-! ## Reading sources -/

/-- The tokens of a source are some that go on and then its end. -/
lemma Token.scan_spells {source : String} (unspoilt : Unspoilt source) :
    ∃ ts last, (Token.scan source).toList = ts ++ [last] ∧ last.spelling = (.endOfInput, "") ∧
      ∀ t ∈ ts, Spells t.kind t.lexeme.toList := by
  obtain ⟨n, -, last, others, tokens⟩ := Token.scanFrom_nth source _ 0 #[] (Nat.le_refl _)
  have tokens : (Token.scan source).toList = (List.range' 0 (n + 1)).map (Token.nth source) := tokens
  rw [List.range'_1_concat, List.map_append, List.map_singleton, Nat.zero_add] at tokens
  refine ⟨_, _, tokens, ?_, ?_⟩
  · rw [Token.nth_eq_endOf last]
    rfl
  · intro t there
    obtain ⟨j, below, rfl⟩ := List.mem_map.1 there
    have below : j < n := by simpa using List.mem_range'_1.1 below
    have inside : Token.nth source j ∈ Token.scan source := by
      rw [← Array.mem_toList_iff, tokens]
      exact List.mem_append_left _ there
    exact Token.spells_of_mem inside (others j (Nat.zero_le j) below) (unspoilt _ inside)

/-- Written one after the other with blanks in between, the lexemes of a source are read again. -/
lemma Spaced.spellings_scan {source : String} {text : List Char} (unspoilt : Unspoilt source)
    (spaced : Spaced ((spellings source).dropLast.map Prod.snd) text) :
    spellings (String.ofList text) = spellings source := by
  obtain ⟨ts, last, tokens, ends, spells⟩ := Token.scan_spells unspoilt
  have all : spellings source = ts.map Token.spelling ++ [(.endOfInput, "")] := by
    rw [spellings, tokens, List.map_append, List.map_singleton, ends]
  rw [all, List.dropLast_concat, List.map_map] at spaced
  rw [all]
  have length : (Cursor.ofString (String.ofList text)).ahead = text := String.toList_ofList
  exact Spaced.scanFrom spaced [] #[] rfl spells (fun c none => nomatch none) length (Nat.le_refl _)

/-- Everything has the number it has, and lines are not compared. -/
def Link.placeless : Link := { Link.same with lined := False }

/-- From sources with the same words come the same functions or the same complaints, but for lines. -/
lemma compile_placeless {source source' : String} (same : spellings source = spellings source')
    (strings strings' : StringTable) (serial : Nat) :
    OutcomesAlike .placeless (compile source strings serial).outcome
      (compile source' strings' serial).outcome := by
  refine (compile_twin strings strings' ?_ fun k => rfl).1
  have tokens := List.forall₂_eq_eq_eq.symm ▸ same
  rw [spellings, spellings, List.forall₂_map_left_iff, List.forall₂_map_right_iff] at tokens
  refine tokens.imp fun t u word => ?_
  obtain ⟨kind, lexeme⟩ := Prod.mk.inj word
  exact ⟨kind, lexeme, False.elim⟩

/-- Written one after the other with blanks in between, the lexemes of a source without malformed text
are read again as the same words.  Any source with the same words compiles to the same functions, or is
rejected with the same complaints about the same words, and differs at most in lines. -/
theorem compile_rescanned {source : String} (unspoilt : Unspoilt source) :
    (∀ text, Spaced ((spellings source).dropLast.map Prod.snd) text →
        spellings (String.ofList text) = spellings source) ∧
      ∀ (source' : String) (strings strings' : StringTable) (serial : Nat),
        spellings source = spellings source' →
        OutcomesAlike .placeless (compile source strings serial).outcome
          (compile source' strings' serial).outcome :=
  ⟨fun _ spaced => spaced.spellings_scan unspoilt,
    fun _ strings strings' serial same => compile_placeless same strings strings' serial⟩

/-- The marks and numbers of a source, written apart on two lines. -/
theorem compile_rescanned_marks :
    Unspoilt "print 1.5>=-.2;//x" ∧
      spellings (String.ofList "print 1.5 >=\n- . 2\t ;".toList) = spellings "print 1.5>=-.2;//x" ∧
      ∀ strings strings' serial,
        OutcomesAlike .placeless (compile "print 1.5>=-.2;//x" strings serial).outcome
          (compile (String.ofList "print 1.5 >=\n- . 2\t ;".toList) strings' serial).outcome := by
  have unspoilt : Unspoilt "print 1.5>=-.2;//x" := by
    have kinds : (Token.scan "print 1.5>=-.2;//x").toList.map Token.kind =
        [.kwPrint, .number, .greaterEqual, .minus, .dot, .number, .semicolon, .endOfInput] := by
      decide
    intro t there fault odd
    have kind := List.mem_map_of_mem (f := Token.kind) (Array.mem_toList_iff.2 there)
    rw [kinds, odd] at kind
    simp at kind
  have lexemes : (spellings "print 1.5>=-.2;//x").dropLast.map Prod.snd =
      ["print", "1.5", ">=", "-", ".", "2", ";"] := by
    decide
  have spaced : Spaced ["print", "1.5", ">=", "-", ".", "2", ";"]
      ("print".toList ++ [' '] ++ ("1.5".toList ++ [' '] ++ (">=".toList ++ ['\n'] ++ ("-".toList ++ [' '] ++
        (".".toList ++ [' '] ++ ("2".toList ++ ['\t', ' '] ++ ";".toList)))))) := by
    have blank : ∀ gap, gap ∈ [[' '], ['\n'], ['\t', ' ']] →
        gap ≠ [] ∧ ∀ c ∈ gap, Text.isBlank c = true := by
      simp [Text.isBlank]
    repeat refine .more (blank _ (by simp)).1 (blank _ (by simp)).2 ?_
    exact .last ";"
  obtain ⟨again, outcomes⟩ := compile_rescanned unspoilt
  have same := again _ (lexemes ▸ spaced)
  exact ⟨unspoilt, same, fun strings strings' serial => outcomes _ strings strings' serial same.symm⟩

end Lox
