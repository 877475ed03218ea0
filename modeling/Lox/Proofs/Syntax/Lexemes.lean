import Lox.Proofs.Syntax.Coverage
import Mathlib.Data.List.Infix

/-!
# Lexemes

The lexical grammar (`Spells`): names, reserved words, numbers, strings and marks, each as the text
that it consists of.  The lexeme of a token is the longest start of the text ahead that the grammar
knows, and a token is malformed only where the grammar knows none (`Token.longest_match`).

What starts a lexeme decides which of the rules apply.  So it is seen rule by rule that reading finds
no less than a lexeme that the text starts with (`Spells.within_readLexeme`), and no more where a blank
follows (`Spells.readLexeme_apart`).
-/

namespace Lox

/-! ## The grammar -/

/-- May start a name. -/
def StartsName (c : Char) : Prop := 'A' ≤ c ∧ c ≤ 'Z' ∨ 'a' ≤ c ∧ c ≤ 'z' ∨ c = '_'

/-- One of the ten digits. -/
def IsDigit (c : Char) : Prop := '0' ≤ c ∧ c ≤ '9'

instance (c : Char) : Decidable (StartsName c) := inferInstanceAs (Decidable (_ ∨ _ ∨ _))

instance (c : Char) : Decidable (IsDigit c) := inferInstanceAs (Decidable (_ ∧ _))

/-- The operators and punctuation marks. -/
def marks : List (String × TokenKind) :=
  [("(", .leftParen), (")", .rightParen), ("\x7b", .leftBrace), ("\x7d", .rightBrace), (",", .comma),
   (".", .dot), ("-", .minus), ("+", .plus), (";", .semicolon), ("/", .slash), ("*", .star),
   ("!", .bang), ("!=", .bangEqual), ("=", .equal), ("==", .equalEqual), (">", .greater),
   (">=", .greaterEqual), ("<", .less), ("<=", .lessEqual)]

/-- The text is a lexeme of the kind. -/
inductive Spells : TokenKind → List Char → Prop where
  | name {c cs} (start : StartsName c) (parts : ∀ d ∈ cs, StartsName d ∨ IsDigit d)
      (free : ∀ entry ∈ Keyword.entries, entry.1.toList ≠ c :: cs) : Spells .identifier (c :: cs)
  | keyword {word kind} (entry : (word, kind) ∈ Keyword.entries) : Spells kind word.toList
  | whole {d ds} (digits : ∀ x ∈ d :: ds, IsDigit x) : Spells .number (d :: ds)
  | fraction {d ds f fs} (digits : ∀ x ∈ d :: ds, IsDigit x) (digits' : ∀ x ∈ f :: fs, IsDigit x) :
      Spells .number (d :: (ds ++ '.' :: f :: fs))
  | string {content} (closed : '"' ∉ content) : Spells .string ('"' :: (content ++ ['"']))
  | mark {text kind} (entry : (text, kind) ∈ marks) : Spells kind text.toList

/-- The longest start of a text that is a lexeme. -/
structure LongestLexeme (text word : List Char) : Prop where
  start : word <+: text
  lexeme : ∃ kind, Spells kind word
  longest : ∀ kind other, Spells kind other → other <+: text → other.length ≤ word.length

/-! ## Characters -/

lemma isDigit_iff (c : Char) : c.isDigit = true ↔ IsDigit c := by
  simp [Char.isDigit, IsDigit, Char.le_def]

lemma isNameStart_iff (c : Char) : isNameStart c = true ↔ StartsName c := by
  have upper : c.isUpper = decide (c.val ≥ 'A'.val ∧ c.val ≤ 'Z'.val) := rfl
  have lower : c.isLower = (decide (c.val ≥ 'a'.val) && decide (c.val ≤ 'z'.val)) := rfl
  have alpha : c.isAlpha = (c.isUpper || c.isLower) := rfl
  simp [isNameStart, alpha, upper, lower, StartsName, Char.le_def, or_assoc]

lemma isNamePart_iff (c : Char) : isNamePart c = true ↔ StartsName c ∨ IsDigit c := by
  rw [isNamePart, Bool.or_eq_true, isNameStart_iff, isDigit_iff]

lemma StartsName.toNat {c : Char} (h : StartsName c) :
    65 ≤ c.toNat ∧ c.toNat ≤ 90 ∨ 95 ≤ c.toNat ∧ c.toNat ≤ 122 := by
  rcases h with ⟨least, most⟩ | ⟨least, most⟩ | rfl
  · exact .inl ⟨least, most⟩
  · exact .inr ⟨Nat.le_trans (by decide) (show 97 ≤ c.toNat from least), most⟩
  · decide

lemma IsDigit.toNat {c : Char} (h : IsDigit c) : 48 ≤ c.toNat ∧ c.toNat ≤ 57 := h

lemma StartsName.not_digit {c : Char} (h : StartsName c) : ¬IsDigit c := by
  intro digit
  have name := h.toNat
  have digit := digit.toNat
  omega

/-- The visible characters of ASCII are no blanks. -/
lemma isBlank_visible {c : Char} (least : '!' ≤ c) (most : c ≤ '~') : Text.isBlank c = false := by
  have least : 33 ≤ c.toNat := least
  have most : c.toNat ≤ 126 := most
  refine Bool.eq_false_iff.2 fun blank => ?_
  simp only [Text.isBlank, Bool.or_eq_true, Bool.and_eq_true, decide_eq_true_eq, beq_iff_eq] at blank
  omega

/-- A name goes on only with what may stand in it, which blanks may not. -/
lemma not_part_of_blank {c : Char} (blank : Text.isBlank c = true) : ¬(StartsName c ∨ IsDigit c) := by
  have visible : StartsName c ∨ IsDigit c → 33 ≤ c.toNat ∧ c.toNat ≤ 126 := by
    rintro (name | digit)
    · have range := name.toNat
      omega
    · have range := digit.toNat
      omega
  intro part
  obtain ⟨least, most⟩ := visible part
  exact Bool.eq_false_iff.1 (isBlank_visible least most) blank

/-! ## Tables -/

lemma Keyword.entries_spelled : ∀ entry ∈ Keyword.entries,
    Keyword.kindOf entry.1.toList = entry.2 ∧ ∃ c cs, entry.1.toList = c :: cs ∧ StartsName c ∧
      ∀ d ∈ cs, StartsName d ∨ IsDigit d := by
  have table : ∀ entry ∈ Keyword.entries, Keyword.kindOf entry.1.toList = entry.2 ∧
      entry.1.toList ≠ [] ∧ entry.1.toList.all (StartsName ·) = true := by decide
  intro entry there
  obtain ⟨kind, some, letters⟩ := table entry there
  obtain ⟨c, cs, word⟩ := List.exists_cons_of_ne_nil some
  simp only [word, List.all_eq_true, decide_eq_true_eq] at letters
  exact ⟨kind, c, cs, word, letters c List.mem_cons_self,
    fun d inside => .inl (letters d (List.mem_cons_of_mem _ inside))⟩

/-- The kind of a reserved word is of no other word. -/
lemma Keyword.entries_apart : ∀ entry ∈ Keyword.entries,
    (entry.2 ≠ .identifier ∧ entry.2 ≠ .number ∧ entry.2 ≠ .string) ∧
      (∀ other ∈ Keyword.entries, other.2 = entry.2 → other.1 = entry.1) ∧
      ∀ mark ∈ marks, mark.2 ≠ entry.2 := by
  decide

/-- A mark starts like no other lexeme and with no blank, and goes on with nothing but an equals sign;
one that starts with a slash is a slash. -/
def IsMark (kind : TokenKind) (c : Char) (w : List Char) : Prop :=
  (¬StartsName c ∧ ¬IsDigit c ∧ c ≠ '"') ∧ ('!' ≤ c ∧ c ≤ '~') ∧ (c ≠ '/' ∨ w = []) ∧
    (w = [] ∧ extensibleMark? c = none ∧ singleMark? c = some kind ∨
      w = [] ∧ (extensibleMark? c).map Prod.fst = some kind ∨
      w = ['='] ∧ (extensibleMark? c).map Prod.snd = some kind)

instance (kind : TokenKind) (c : Char) (w : List Char) : Decidable (IsMark kind c w) :=
  inferInstanceAs (Decidable (_ ∧ _ ∧ _ ∧ _))

lemma marks_spelled : ∀ entry ∈ marks, ∃ c w, entry.1.toList = c :: w ∧ IsMark entry.2 c w := by
  have table : ∀ entry ∈ marks,
      entry.1.toList ≠ [] ∧ IsMark entry.2 (entry.1.toList.headD ' ') entry.1.toList.tail := by
    decide
  intro entry there
  obtain ⟨some, mark⟩ := table entry there
  obtain ⟨c, w, word⟩ := List.exists_cons_of_ne_nil some
  rw [word] at mark
  exact ⟨c, w, word, mark⟩

lemma extensibleMark_spells {c : Char} {alone extended : TokenKind}
    (mark : extensibleMark? c = some (alone, extended)) :
    Spells alone [c] ∧ Spells extended [c, '='] := by
  have entries : (String.ofList [c], alone) ∈ marks ∧ (String.ofList [c, '='], extended) ∈ marks := by
    unfold extensibleMark? at mark
    split at mark <;> simp at mark <;> obtain ⟨rfl, rfl⟩ := mark <;> decide
  have words := And.intro (Spells.mark entries.1) (Spells.mark entries.2)
  rwa [String.toList_ofList, String.toList_ofList] at words

lemma singleMark_spells {c : Char} {kind : TokenKind} (mark : singleMark? c = some kind) :
    Spells kind [c] := by
  have entry : (String.ofList [c], kind) ∈ marks := by
    unfold singleMark? at mark
    split at mark <;> simp at mark <;> subst mark <;> decide
  have word := Spells.mark entry
  rwa [String.toList_ofList] at word

lemma singleMark_proper {c : Char} {kind : TokenKind} (mark : singleMark? c = some kind)
    (fault : LexicalFault) : kind ≠ .malformed fault := by
  unfold singleMark? at mark
  split at mark <;> simp at mark <;> subst mark <;> exact TokenKind.noConfusion

/-! ## Reading what the grammar knows -/

section Spans

variable {p : Char → Bool} {word : List Char}

lemma takeWhile_stops (rest : List Char) (all : ∀ c ∈ word, p c = true) (stops : ∀ c ∈ rest.head?, p c = false) :
    (word ++ rest).takeWhile p = word ∧ (word ++ rest).dropWhile p = rest := by
  rw [List.takeWhile_append_of_pos all, List.dropWhile_append_of_pos all]
  cases rest with
  | nil => exact ⟨List.append_nil word, rfl⟩
  | cons c cs =>
    have stop : ¬p c = true := by simp [stops c rfl]
    rw [List.takeWhile_cons_of_neg stop, List.dropWhile_cons_of_neg stop]
    exact ⟨List.append_nil word, rfl⟩

end Spans

lemma isNamePart_of {word : List Char} (parts : ∀ d ∈ word, StartsName d ∨ IsDigit d) :
    ∀ d ∈ word, isNamePart d = true :=
  fun d inside => (isNamePart_iff d).2 (parts d inside)

lemma isDigit_of {word : List Char} (digits : ∀ d ∈ word, IsDigit d) :
    ∀ d ∈ word, d.isDigit = true :=
  fun d inside => (isDigit_iff d).2 (digits d inside)

lemma not_quote_of {word : List Char} (closed : '"' ∉ word) :
    ∀ d ∈ word, decide (d ≠ '"') = true :=
  fun _ inside => decide_eq_true fun quote => closed (quote ▸ inside)

/-- A word that is not reserved is a name. -/
lemma Keyword.kindOf_free {word : List Char}
    (free : ∀ entry ∈ Keyword.entries, entry.1.toList ≠ word) : Keyword.kindOf word = .identifier := by
  unfold Keyword.kindOf
  cases found : Keyword.trie.find? word with
  | none => rfl
  | some kind =>
    obtain ⟨x, there, same⟩ := Keyword.mem_of_find? found
    exact absurd same (free _ there)

/-- A word that is looked up is a name or reserved. -/
lemma Keyword.spells_kindOf {c : Char} {cs : List Char} (start : StartsName c)
    (parts : ∀ d ∈ cs, StartsName d ∨ IsDigit d) : Spells (Keyword.kindOf (c :: cs)) (c :: cs) := by
  by_cases reserved : ∃ entry ∈ Keyword.entries, entry.1.toList = c :: cs
  · obtain ⟨⟨word, kind⟩, there, same⟩ := reserved
    have found := (Keyword.entries_spelled _ there).1
    dsimp only at same found
    rw [← same, found]
    exact .keyword there
  · push Not at reserved
    rw [Keyword.kindOf_free reserved]
    exact .name start parts reserved

section Reading

variable {c : Char} {cs : List Char}

lemma readLexeme_name (start : StartsName c) : readLexeme c cs =
    (Keyword.kindOf (c :: cs.takeWhile isNamePart), cs.takeWhile isNamePart, cs.dropWhile isNamePart) :=
  if_pos ((isNameStart_iff c).2 start)

lemma readLexeme_number (digit : IsDigit c) : readLexeme c cs = (.number, spanNumber cs) := by
  have plain : ¬isNameStart c = true := fun start =>
    ((isNameStart_iff c).1 start).not_digit digit
  unfold readLexeme
  rw [if_neg plain, if_pos ((isDigit_iff c).2 digit)]

/-- A string ends with the next quote. -/
lemma readLexeme_closed {content rest : List Char} (closed : '"' ∉ content) :
    readLexeme '"' (content ++ '"' :: rest) = (.string, content ++ ['"'], rest) := by
  obtain ⟨taken, left⟩ := takeWhile_stops ('"' :: rest) (not_quote_of closed)
    (fun c head => by obtain rfl := Option.some.inj head; rfl)
  unfold readLexeme
  rw [if_neg (by decide), if_neg (by decide), if_pos rfl, left]
  exact congrArg (fun word => (TokenKind.string, word ++ ['"'], rest)) taken

lemma readLexeme_unclosed (unclosed : '"' ∉ cs) :
    readLexeme '"' cs = (.malformed .unterminatedString, cs, []) := by
  have all : cs.dropWhile (· ≠ '"') = [] := List.dropWhile_eq_nil_iff.2 (not_quote_of unclosed)
  unfold readLexeme
  rw [if_neg (by decide), if_neg (by decide), if_pos rfl, all]

/-- What starts like none of the others is read as a mark. -/
lemma readLexeme_mark (other : ¬StartsName c ∧ ¬IsDigit c ∧ c ≠ '"') : readLexeme c cs =
    match extensibleMark? c, cs with
    | some (_, extended), '=' :: rest => (extended, ['='], rest)
    | some (alone, _), _ => (alone, [], cs)
    | none, _ => ((singleMark? c).getD (.malformed .unexpectedCharacter), [], cs) :=
  (if_neg fun start => other.1 ((isNameStart_iff c).1 start)).trans
    ((if_neg fun digit => other.2.1 ((isDigit_iff c).1 digit)).trans (if_neg other.2.2))

lemma readLexeme_alone {alone extended : TokenKind} (other : ¬StartsName c ∧ ¬IsDigit c ∧ c ≠ '"')
    (mark : extensibleMark? c = some (alone, extended)) (stops : ∀ d ∈ cs.head?, d ≠ '=') :
    readLexeme c cs = (alone, [], cs) := by
  rw [readLexeme_mark other, mark]
  cases cs with
  | nil => rfl
  | cons d ds =>
    split
    · next both => exact absurd (List.cons.inj both).1 (stops d rfl)
    · next pair _ => rw [(Prod.mk.inj (Option.some.inj pair)).1]
    · next none => exact nomatch none

lemma readLexeme_single (other : ¬StartsName c ∧ ¬IsDigit c ∧ c ≠ '"')
    (none : extensibleMark? c = none) :
    readLexeme c cs = ((singleMark? c).getD (.malformed .unexpectedCharacter), [], cs) := by
  rw [readLexeme_mark other, none]

lemma readLexeme_extended {alone extended : TokenKind}
    (other : ¬StartsName c ∧ ¬IsDigit c ∧ c ≠ '"')
    (mark : extensibleMark? c = some (alone, extended)) :
    readLexeme c ('=' :: cs) = (extended, ['='], cs) := by
  rw [readLexeme_mark other, mark]
  rfl

lemma spanNumber_whole {ds rest : List Char} (digits : ∀ d ∈ ds, IsDigit d)
    (stops : ∀ d ∈ rest.head?, ¬IsDigit d ∧ d ≠ '.') : spanNumber (ds ++ rest) = (ds, rest) := by
  obtain ⟨taken, left⟩ := takeWhile_stops rest (isDigit_of digits)
    (fun d head => Bool.eq_false_iff.2 fun digit => (stops d head).1 ((isDigit_iff d).1 digit))
  unfold spanNumber
  dsimp only
  rw [taken, left]
  split
  · exact absurd rfl (stops '.' rfl).2
  · rfl

lemma spanNumber_fraction {ds fs rest : List Char} {f : Char} (digits : ∀ d ∈ ds, IsDigit d)
    (digits' : ∀ d ∈ f :: fs, IsDigit d) : spanNumber (ds ++ '.' :: f :: (fs ++ rest)) =
      (ds ++ '.' :: f :: (fs ++ rest.takeWhile Char.isDigit), rest.dropWhile Char.isDigit) := by
  obtain ⟨taken, left⟩ := takeWhile_stops ('.' :: f :: (fs ++ rest)) (isDigit_of digits)
    (fun c head => by obtain rfl := Option.some.inj head; rfl)
  obtain ⟨first, later⟩ := List.forall_mem_cons.1 (isDigit_of digits')
  unfold spanNumber
  dsimp only
  rw [taken, left]
  exact (if_pos first).trans (by
    rw [List.takeWhile_append_of_pos later, List.dropWhile_append_of_pos later])

/-- Where neither a digit nor a point follows, exactly the number is read. -/
lemma Spells.readLexeme_numeral {w rest : List Char} (spells : Spells .number (c :: w))
    (stops : ∀ d ∈ rest.head?, ¬IsDigit d ∧ d ≠ '.') : readLexeme c (w ++ rest) = (.number, w, rest) := by
  generalize word : c :: w = text at spells
  generalize number : TokenKind.number = kind at spells
  cases spells with
  | whole digits =>
    obtain ⟨rfl, rfl⟩ := List.cons.inj word
    obtain ⟨first, later⟩ := List.forall_mem_cons.1 digits
    rw [readLexeme_number first, spanNumber_whole later stops]
  | @fraction d ds f fs digits digits' =>
    obtain ⟨rfl, rfl⟩ := List.cons.inj word
    obtain ⟨first, later⟩ := List.forall_mem_cons.1 digits
    have none : ∀ d ∈ ([] : List Char), d.isDigit = true := fun d there => nomatch there
    obtain ⟨taken, left⟩ := takeWhile_stops rest none fun d head => Bool.eq_false_iff.2 fun digit =>
      (stops d head).1 ((isDigit_iff d).1 digit)
    rw [List.nil_append] at taken left
    have split : ds ++ '.' :: f :: fs ++ rest = ds ++ '.' :: f :: (fs ++ rest) := by simp
    rw [readLexeme_number first, split, spanNumber_fraction later digits', taken, left,
      List.append_nil]
  | keyword entry => exact absurd number.symm (Keyword.entries_apart _ entry).1.2.1
  | mark entry => exact absurd number.symm ((by decide : ∀ entry ∈ marks, entry.2 ≠ .number) _ entry)
  | name | string => cases number

/-- Where a blank follows, exactly the lexeme is read. -/
lemma Spells.readLexeme_apart {kind : TokenKind} {w rest : List Char} (spells : Spells kind (c :: w))
    (apart : ∀ d ∈ rest.head?, Text.isBlank d = true) :
    readLexeme c (w ++ rest) = (kind, w, rest) := by
  have stops : ∀ d ∈ rest.head?, isNamePart d = false := fun d head =>
    Bool.eq_false_iff.2 fun part => not_part_of_blank (apart d head) ((isNamePart_iff d).1 part)
  have numeralStops : ∀ d ∈ rest.head?, ¬IsDigit d ∧ d ≠ '.' := by
    refine fun d head => ⟨fun digit => not_part_of_blank (apart d head) (.inr digit), ?_⟩
    rintro rfl
    exact absurd (apart '.' head) (by decide)
  generalize word : c :: w = text at spells
  cases spells with
  | name start parts free =>
    obtain ⟨rfl, rfl⟩ := List.cons.inj word
    obtain ⟨taken, left⟩ := takeWhile_stops rest (isNamePart_of parts) stops
    rw [readLexeme_name start, taken, left, Keyword.kindOf_free free]
  | keyword entry =>
    obtain ⟨found, c', cs', same, start, parts⟩ := Keyword.entries_spelled _ entry
    dsimp only at found same
    obtain ⟨rfl, rfl⟩ := List.cons.inj (word.trans same)
    obtain ⟨taken, left⟩ := takeWhile_stops rest (isNamePart_of parts) stops
    rw [readLexeme_name start, taken, left, word, found]
  | whole digits => exact readLexeme_numeral (word.symm ▸ .whole digits) numeralStops
  | fraction digits digits' => exact readLexeme_numeral (word.symm ▸ .fraction digits digits') numeralStops
  | @string content closed =>
    obtain ⟨rfl, rfl⟩ := List.cons.inj word
    have split : content ++ ['"'] ++ rest = content ++ '"' :: rest := by simp
    rw [split, readLexeme_closed closed]
  | @mark text kind entry =>
    obtain ⟨c', w', same, other, -, -, mark⟩ := marks_spelled _ entry
    obtain ⟨rfl, rfl⟩ := List.cons.inj (word.trans same)
    rcases mark with ⟨rfl, none, single⟩ | ⟨rfl, alone⟩ | ⟨rfl, extended⟩
    · rw [readLexeme_single other none, single]
      rfl
    · obtain ⟨⟨kind, extended⟩, mark, rfl⟩ := Option.map_eq_some_iff.1 alone
      refine readLexeme_alone other mark fun d head => ?_
      rintro rfl
      exact absurd (apart '=' head) (by decide)
    · obtain ⟨⟨alone, kind⟩, mark, rfl⟩ := Option.map_eq_some_iff.1 extended
      exact readLexeme_extended other mark

/-- A lexeme is some text. -/
lemma Spells.exists_cons {kind : TokenKind} {word : List Char} (spells : Spells kind word) :
    ∃ c w, word = c :: w := by
  cases spells with
  | keyword entry =>
    obtain ⟨-, c, cs, same, -⟩ := Keyword.entries_spelled _ entry
    exact ⟨c, cs, same⟩
  | @mark text kind entry =>
    obtain ⟨c, w, same, -⟩ := marks_spelled _ entry
    exact ⟨c, w, same⟩
  | name => exact ⟨_, _, rfl⟩
  | whole => exact ⟨_, _, rfl⟩
  | fraction => exact ⟨_, _, rfl⟩
  | string => exact ⟨_, _, rfl⟩

/-- A lexeme has one kind. -/
lemma Spells.unique {kind other : TokenKind} {word : List Char} (spells : Spells kind word)
    (spells' : Spells other word) : kind = other := by
  obtain ⟨c, w, rfl⟩ := spells.exists_cons
  have apart : ∀ d ∈ ([] : List Char).head?, Text.isBlank d = true := fun d none => nomatch none
  have read := spells.readLexeme_apart apart
  rw [spells'.readLexeme_apart apart] at read
  exact (Prod.mk.inj read).1.symm

/-- A lexeme with the kind of a reserved word is that word. -/
lemma Spells.reserved {entry : String × TokenKind} {kind : TokenKind} {word : List Char}
    (spells : Spells kind word) (there : entry ∈ Keyword.entries) (same : kind = entry.2) :
    word = entry.1.toList := by
  obtain ⟨⟨name, number, string⟩, keywords, others⟩ := Keyword.entries_apart entry there
  cases spells with
  | name => exact absurd same.symm name
  | keyword other => exact congrArg String.toList (keywords _ other same)
  | whole => exact absurd same.symm number
  | fraction => exact absurd same.symm number
  | string => exact absurd same.symm string
  | mark other => exact absurd same (others _ other)

/-- A string is text between quotes. -/
lemma Spells.quoted {word : List Char} (spells : Spells .string word) :
    ∃ content, word = '"' :: (content ++ ['"']) := by
  generalize string : TokenKind.string = kind at spells
  cases spells with
  | string => exact ⟨_, rfl⟩
  | keyword entry => exact absurd string.symm (Keyword.entries_apart _ entry).1.2.2
  | mark entry => exact absurd string.symm ((by decide : ∀ entry ∈ marks, entry.2 ≠ .string) _ entry)
  | name | whole | fraction => cases string

/-- Reading finds no less than a lexeme that the text starts with. -/
lemma Spells.within_readLexeme {kind : TokenKind} {w : List Char} (spells : Spells kind (c :: w))
    (start : w <+: cs) :
    w <+: (readLexeme c cs).2.1 ∧ ∀ fault, (readLexeme c cs).1 ≠ .malformed fault := by
  obtain ⟨rest, rfl⟩ := start
  generalize word : c :: w = text at spells
  have asName : StartsName c → (∀ d ∈ w, StartsName d ∨ IsDigit d) →
      w <+: (readLexeme c (w ++ rest)).2.1 ∧
        ∀ fault, (readLexeme c (w ++ rest)).1 ≠ .malformed fault := by
    intro start parts
    rw [readLexeme_name start, List.takeWhile_append_of_pos (isNamePart_of parts)]
    exact ⟨List.prefix_append _ _, Keyword.kindOf_ne_malformed _⟩
  cases spells with
  | name start parts =>
    obtain ⟨rfl, rfl⟩ := List.cons.inj word
    exact asName start parts
  | keyword entry =>
    obtain ⟨-, c', cs', same, start, parts⟩ := Keyword.entries_spelled _ entry
    obtain ⟨rfl, rfl⟩ := List.cons.inj (word.trans same)
    exact asName start parts
  | whole digits =>
    obtain ⟨rfl, rfl⟩ := List.cons.inj word
    obtain ⟨first, later⟩ := List.forall_mem_cons.1 digits
    rw [readLexeme_number first]
    refine ⟨?_, fun _ => TokenKind.noConfusion⟩
    unfold spanNumber
    dsimp only
    rw [List.takeWhile_append_of_pos (isDigit_of later)]
    split
    · split
      · rw [List.append_assoc]
        exact List.prefix_append _ _
      · exact List.prefix_append _ _
    · exact List.prefix_append _ _
  | @fraction d ds f fs digits digits' =>
    obtain ⟨rfl, rfl⟩ := List.cons.inj word
    obtain ⟨first, later⟩ := List.forall_mem_cons.1 digits
    have split : ds ++ '.' :: f :: fs ++ rest = ds ++ '.' :: f :: (fs ++ rest) := by simp
    rw [readLexeme_number first, split, spanNumber_fraction later digits']
    exact ⟨⟨rest.takeWhile Char.isDigit, by simp⟩, fun _ => TokenKind.noConfusion⟩
  | @string content closed =>
    obtain ⟨rfl, rfl⟩ := List.cons.inj word
    have split : content ++ ['"'] ++ rest = content ++ '"' :: rest := by simp
    rw [split, readLexeme_closed closed]
    exact ⟨List.prefix_refl _, fun _ => TokenKind.noConfusion⟩
  | @mark text kind entry =>
    obtain ⟨c', w', same, other, -, -, mark⟩ := marks_spelled _ entry
    obtain ⟨rfl, rfl⟩ := List.cons.inj (word.trans same)
    rcases mark with ⟨rfl, none, single⟩ | ⟨rfl, alone⟩ | ⟨rfl, extended⟩
    · rw [readLexeme_single other none, single]
      exact ⟨List.prefix_refl _, singleMark_proper single⟩
    · obtain ⟨⟨kind, extended⟩, mark, rfl⟩ := Option.map_eq_some_iff.1 alone
      refine ⟨List.nil_prefix, ?_⟩
      rw [readLexeme_mark other]
      split
      · next pair _ =>
        exact (extensibleMark_cases pair _ (List.mem_cons_of_mem _ List.mem_cons_self)).2
      · next pair _ => exact (extensibleMark_cases pair _ List.mem_cons_self).2
      · next none => exact nomatch mark.symm.trans none
    · obtain ⟨⟨alone, kind⟩, mark, rfl⟩ := Option.map_eq_some_iff.1 extended
      rw [List.singleton_append, readLexeme_extended other mark]
      have both := extensibleMark_cases mark
      exact ⟨List.prefix_refl _, (both _ (List.mem_cons_of_mem _ List.mem_cons_self)).2⟩

/-- What is read is a lexeme, unless it is malformed. -/
lemma readLexeme_spells (proper : ∀ fault, (readLexeme c cs).1 ≠ .malformed fault) :
    Spells (readLexeme c cs).1 (c :: (readLexeme c cs).2.1) := by
  by_cases start : StartsName c
  · rw [readLexeme_name start]
    exact Keyword.spells_kindOf start fun d inside =>
      (isNamePart_iff d).1 (List.mem_takeWhile_imp inside)
  by_cases digit : IsDigit c
  · have digits : ∀ (text : List Char), ∀ d ∈ text.takeWhile Char.isDigit, IsDigit d :=
      fun _ d inside => (isDigit_iff d).1 (List.mem_takeWhile_imp inside)
    rw [readLexeme_number digit]
    unfold spanNumber
    dsimp only
    split
    · split
      · next first =>
        exact .fraction (List.forall_mem_cons.2 ⟨digit, digits cs⟩)
          (List.forall_mem_cons.2 ⟨(isDigit_iff _).1 first, digits _⟩)
      · exact .whole (List.forall_mem_cons.2 ⟨digit, digits cs⟩)
    · exact .whole (List.forall_mem_cons.2 ⟨digit, digits cs⟩)
  by_cases quote : c = '"'
  · subst quote
    by_cases closed : '"' ∈ cs
    · obtain ⟨content, rest, rfl, plain⟩ := List.eq_append_cons_of_mem closed
      rw [readLexeme_closed plain]
      exact .string plain
    · rw [readLexeme_unclosed closed] at proper
      exact absurd rfl (proper .unterminatedString)
  · have other := And.intro start (And.intro digit quote)
    cases mark : extensibleMark? c with
    | none =>
      rw [readLexeme_single other mark] at proper ⊢
      cases single : singleMark? c with
      | none =>
        rw [single] at proper
        exact absurd rfl (proper .unexpectedCharacter)
      | some kind => exact singleMark_spells single
    | some pair =>
      obtain ⟨alone, extended⟩ := pair
      obtain ⟨short, long⟩ := extensibleMark_spells mark
      by_cases more : cs.head? = some '='
      · obtain ⟨rest, rfl⟩ := List.head?_eq_some_iff.1 more
        rw [readLexeme_extended other mark]
        exact long
      · rw [readLexeme_alone other mark fun d head same => more (same ▸ head)]
        exact short

end Reading

/-! ## Where tokens start -/

/-- Neither white space nor comments are ahead after they have been passed. -/
lemma skipBlanks_stops (inComment : Bool) (cs : List Char) (line offset bytes : Nat) :
    (∀ c ∈ (skipBlanks inComment cs line offset bytes).ahead.head?, Text.isBlank c = false) ∧
      ¬['/', '/'] <+: (skipBlanks inComment cs line offset bytes).ahead := by
  fun_induction skipBlanks inComment cs line offset bytes with
  | case1 => exact ⟨fun c none => absurd none (Option.not_mem_none c), by simp⟩
  | case2 _ _ _ _ _ ih => exact ih
  | case3 _ _ _ _ _ _ _ _ ih => exact ih
  | case4 _ _ _ _ _ _ _ _ _ ih => exact ih
  | case5 inComment c cs line offset bytes other stays noComment =>
    simp only [Bool.or_eq_true, not_or, Bool.not_eq_true] at stays
    refine ⟨fun d head => ?_, ?_⟩
    · rw [← Option.some.inj head]
      exact stays.2
    · rintro ⟨rest, same⟩
      obtain ⟨rfl, rfl⟩ := List.cons.inj same
      exact noComment rfl

/-- A token is read off the text from its start on. -/
lemma Token.next_reads {place : Cursor} {source : List Char} (within : place.Within source)
    (goesOn : (Token.next place).1.kind ≠ .endOfInput) :
    ∃ c cs, source.drop (Token.next place).1.start = c :: cs ∧ ¬['/', '/'] <+: c :: cs ∧
      (Token.next place).1.kind = (readLexeme c cs).1 ∧
      (Token.next place).1.lexeme.toList = c :: (readLexeme c cs).2.1 := by
  obtain ⟨gap, split, -, skips⟩ := place.skip_filler
  have ahead := (within.pass split).1.ahead
  rw [← skips] at ahead
  have stops : ¬['/', '/'] <+: place.skip.ahead :=
    (skipBlanks_stops false place.ahead place.line place.offset place.bytes).2
  revert goesOn
  unfold Token.next
  dsimp only
  generalize place.skip = start at ahead stops ⊢
  cases rest : start.ahead with
  | nil => exact fun goesOn => absurd rfl goesOn
  | cons c cs =>
    rw [rest] at ahead stops
    exact fun _ => ⟨c, cs, ahead.symm, stops, rfl, String.toList_ofList⟩

/-- A token is spelled as its kind says, unless it is malformed. -/
lemma Token.nth_spells {source : String} {k : Nat} (goesOn : (Token.nth source k).kind ≠ .endOfInput)
    (proper : ∀ fault, (Token.nth source k).kind ≠ .malformed fault) :
    Spells (Token.nth source k).kind (Token.nth source k).lexeme.toList := by
  obtain ⟨c, cs, -, -, kind, lexeme⟩ := Token.next_reads (Cursor.nth_within source k).1 goesOn
  have spells := readLexeme_spells fun fault => kind ▸ proper fault
  rwa [← kind, ← lexeme] at spells

lemma Token.spells_of_mem {source : String} {t : Token} (there : t ∈ Token.scan source)
    (goesOn : t.kind ≠ .endOfInput) (proper : ∀ fault, t.kind ≠ .malformed fault) :
    Spells t.kind t.lexeme.toList := by
  obtain ⟨n, -, -, -, tokens⟩ := Token.scanFrom_nth source _ 0 #[] (Nat.le_refl _)
  have tokens : (Token.scan source).toList = (List.range' 0 (n + 1)).map (Token.nth source) := tokens
  rw [← Array.mem_toList_iff, tokens] at there
  obtain ⟨k, -, rfl⟩ := List.mem_map.1 there
  exact Token.nth_spells goesOn proper

/-- The token of a place is the longest lexeme that the text from there on starts with, and of its
kind: a reserved word if it is spelled like one.  It is malformed only where the text starts with no
lexeme at all.  No token starts with two slashes, since a comment does. -/
theorem Token.longest_match (source : String) (k : Nat)
    (goesOn : (Token.nth source k).kind ≠ .endOfInput) :
    let t := Token.nth source k
    let text := source.toList.drop t.start
    ¬['/', '/'] <+: text ∧
      ((∀ fault, t.kind ≠ .malformed fault) ∧ LongestLexeme text t.lexeme.toList ∧
          (∀ kind, Spells kind t.lexeme.toList ↔ kind = t.kind) ∧
          (∀ entry ∈ Keyword.entries, t.kind = entry.2 ↔ t.lexeme = entry.1) ∨
        (∃ fault, t.kind = .malformed fault) ∧ ∀ kind word, Spells kind word → ¬word <+: text) := by
  obtain ⟨c, cs, ahead, stops, kind, lexeme⟩ :=
    Token.next_reads (Cursor.nth_within source k).1 goesOn
  intro t text
  have ahead : text = c :: cs := ahead
  have kind : t.kind = (readLexeme c cs).1 := kind
  have lexeme : t.lexeme.toList = c :: (readLexeme c cs).2.1 := lexeme
  have whole := readLexeme_append c cs
  have within : ∀ kind word, Spells kind word → word <+: text →
      (∃ w, word = c :: w ∧ w <+: (readLexeme c cs).2.1) ∧
        ∀ fault, (readLexeme c cs).1 ≠ .malformed fault := by
    intro kind word spells start
    obtain ⟨c', w, rfl⟩ := spells.exists_cons
    rw [ahead, List.cons_prefix_cons] at start
    obtain ⟨rfl, start⟩ := start
    obtain ⟨less, proper⟩ := spells.within_readLexeme start
    exact ⟨⟨w, rfl, less⟩, proper⟩
  refine ⟨ahead ▸ stops, ?_⟩
  by_cases malformed : ∃ fault, t.kind = .malformed fault
  · refine .inr ⟨malformed, fun kind' word spells start => ?_⟩
    obtain ⟨fault, odd⟩ := malformed
    exact (within kind' word spells start).2 fault (kind.symm.trans odd)
  · push Not at malformed
    have spells : Spells t.kind t.lexeme.toList := Token.nth_spells goesOn malformed
    refine .inl ⟨malformed, ⟨?_, ⟨_, spells⟩, fun kind' word other start => ?_⟩, fun kind' => ?_,
      fun entry there => ?_⟩
    · rw [ahead, lexeme]
      exact ⟨_, congrArg (c :: ·) whole⟩
    · obtain ⟨w, rfl, less⟩ := (within kind' word other start).1
      rw [lexeme]
      exact Nat.succ_le_succ less.length_le
    · exact ⟨fun other => other.unique spells, fun same => same ▸ spells⟩
    · exact ⟨fun same => String.toList_injective (spells.reserved there same),
        fun same => spells.unique (same ▸ .keyword there)⟩

/-- The third token of a source: a fraction needs a digit after the point, so the number ends before
its second point. -/
theorem Token.longest_match_number :
    (Token.nth "or1 <=3.14.x" 2).kind ≠ .endOfInput ∧
      LongestLexeme "3.14.x".toList "3.14".toList := by
  refine ⟨by decide, ?_⟩
  obtain ⟨-, ⟨-, longest, -⟩ | ⟨⟨fault, odd⟩, -⟩⟩ := Token.longest_match "or1 <=3.14.x" 2 (by decide)
  · exact longest
  · cases fault <;> exact absurd odd (by decide)

end Lox
