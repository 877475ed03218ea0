import Lox.Text.Blank
import Lox.Token

/-!
# Scanning

From source text to tokens.  A `Cursor` stands between two characters of the source and knows its
line and its offset, in characters and in bytes; `skipBlanks` takes it past white space and comments,
`readLexeme` splits the longest lexeme off the text ahead, and `Token.next` joins the two into one token.  `Token.scan`
repeats this up to the end of the source, whose token has the kind `endOfInput`; a cursor that has
reached the end stays there, so asking for more tokens repeats that one (`next_atEnd`).  A lexeme
and what is read after it make up the text again (`readLexeme_append`), and every token before the
end brings the end nearer (`length_ahead_next_lt`).
-/

namespace Lox

/-- A place in a source. -/
structure Cursor where
  /-- The text ahead. -/
  ahead : List Char
  /-- The current line, counted from one. -/
  line : Nat
  /-- The number of characters behind. -/
  offset : Nat
  /-- The number of bytes behind. -/
  bytes : Nat
  deriving DecidableEq, Repr

namespace Cursor

/-- The start of a source. -/
def ofString (source : String) : Cursor := ⟨source.toList, 1, 0, 0⟩

/-- The place after `taken`, where `ahead` is what follows it. -/
def pass (c : Cursor) (taken ahead : List Char) : Cursor :=
  ⟨ahead, c.line + taken.count '\n', c.offset + taken.length, c.bytes + (String.ofList taken).utf8ByteSize⟩

end Cursor

/-! ## Character classes -/

/-- May start a name: an ASCII letter or an underscore. -/
def isNameStart (c : Char) : Bool := c.isAlpha || c == '_'

/-- May stand in a name. -/
def isNamePart (c : Char) : Bool := isNameStart c || c.isDigit

/-! ## Between tokens -/

/-- Goes past white space and comments.  A comment starts with two slashes and ends before the next
newline; `inComment` tells whether the place is inside one. -/
def skipBlanks (inComment : Bool) : List Char → Nat → Nat → Nat → Cursor
  | [], line, offset, bytes => ⟨[], line, offset, bytes⟩
  | c :: cs, line, offset, bytes =>
    if c = '\n' then skipBlanks false cs (line + 1) (offset + 1) (bytes + c.utf8Size)
    else if inComment || Text.isBlank c then skipBlanks inComment cs line (offset + 1) (bytes + c.utf8Size)
    else if c = '/' && cs.head? = some '/' then skipBlanks true cs line (offset + 1) (bytes + c.utf8Size)
    else ⟨c :: cs, line, offset, bytes⟩

/-- The place past white space and comments. -/
def Cursor.skip (place : Cursor) : Cursor := skipBlanks false place.ahead place.line place.offset place.bytes

/-! ## Lexemes -/

/-- The kinds of the marks that are one character long and start no longer mark. -/
def singleMark? (c : Char) : Option TokenKind :=
  match c with
  | '(' => some .leftParen
  | ')' => some .rightParen
  | '\x7b' => some .leftBrace
  | '\x7d' => some .rightBrace
  | ';' => some .semicolon
  | ',' => some .comma
  | '.' => some .dot
  | '-' => some .minus
  | '+' => some .plus
  | '/' => some .slash
  | '*' => some .star
  | _ => none

/-- The kinds of the marks that an equals sign may extend: alone, and extended. -/
def extensibleMark? (c : Char) : Option (TokenKind × TokenKind) :=
  match c with
  | '!' => some (.bang, .bangEqual)
  | '=' => some (.equal, .equalEqual)
  | '<' => some (.less, .lessEqual)
  | '>' => some (.greater, .greaterEqual)
  | _ => none

/-- The rest of a number after its first digit, and the text after it.  A point belongs to the
number only if a digit follows it. -/
def spanNumber (cs : List Char) : List Char × List Char :=
  let whole := cs.takeWhile Char.isDigit
  match cs.dropWhile Char.isDigit with
  | '.' :: d :: ds =>
    if d.isDigit then (whole ++ '.' :: d :: ds.takeWhile Char.isDigit, ds.dropWhile Char.isDigit)
    else (whole, '.' :: d :: ds)
  | rest => (whole, rest)

/-- Splits the lexeme that starts with `c` off the text `c :: cs`: its kind, its characters after
the first, and the text after it. -/
def readLexeme (c : Char) (cs : List Char) : TokenKind × List Char × List Char :=
  if isNameStart c then
    let more := cs.takeWhile isNamePart
    (Keyword.kindOf (c :: more), more, cs.dropWhile isNamePart)
  else if c.isDigit then
    (.number, spanNumber cs)
  else if c = '"' then
    match cs.dropWhile (· ≠ '"') with
    | quote :: rest => (.string, cs.takeWhile (· ≠ '"') ++ [quote], rest)
    | [] => (.malformed .unterminatedString, cs, [])
  else
    match extensibleMark? c, cs with
    | some (_, extended), '=' :: rest => (extended, ['='], rest)
    | some (alone, _), _ => (alone, [], cs)
    | none, _ => ((singleMark? c).getD (.malformed .unexpectedCharacter), [], cs)

/-! ## Nothing is lost -/

theorem spanNumber_append (cs : List Char) : (spanNumber cs).1 ++ (spanNumber cs).2 = cs := by
  have whole := List.takeWhile_append_dropWhile (p := Char.isDigit) (l := cs)
  simp only [spanNumber]
  split
  · next d ds rest =>
    rw [rest] at whole
    split
    · simpa using whole
    · exact whole
  · exact whole

/-- A lexeme and the text after it are the text ahead. -/
theorem readLexeme_append (c : Char) (cs : List Char) :
    (readLexeme c cs).2.1 ++ (readLexeme c cs).2.2 = cs := by
  simp only [readLexeme]
  split
  · exact List.takeWhile_append_dropWhile
  · split
    · exact spanNumber_append cs
    · split
      · have content := List.takeWhile_append_dropWhile (p := fun x => decide (x ≠ '"')) (l := cs)
        split
        · next rest =>
          rw [rest] at content
          rw [List.append_assoc]
          exact content
        · exact List.append_nil cs
      · split <;> rfl

/-- Going past blanks takes nothing but the start off the text ahead. -/
theorem ahead_skipBlanks_suffix (inComment : Bool) (cs : List Char) (line offset bytes : Nat) :
    (skipBlanks inComment cs line offset bytes).ahead <:+ cs := by
  fun_induction skipBlanks inComment cs line offset bytes with
  | case1 => exact List.suffix_refl _
  | case2 _ _ _ _ _ ih => exact ih.trans (List.suffix_cons _ _)
  | case3 _ _ _ _ _ _ _ _ ih => exact ih.trans (List.suffix_cons _ _)
  | case4 _ _ _ _ _ _ _ _ _ ih => exact ih.trans (List.suffix_cons _ _)
  | case5 => exact List.suffix_refl _

/-! ## Tokens -/

/-- The next token, and the place after it. -/
def Token.next (place : Cursor) : Token × Cursor :=
  let start := place.skip
  match start.ahead with
  | [] => (⟨.endOfInput, "", start.line, start.offset⟩, start)
  | c :: cs =>
    let (kind, more, rest) := readLexeme c cs
    let stop := start.pass (c :: more) rest
    (⟨kind, String.ofList (c :: more), stop.line, start.offset⟩, stop)

/-- Each token takes its lexeme off the text ahead, so the end comes nearer. -/
theorem Token.length_ahead_next_lt {place : Cursor} (h : (Token.next place).1.kind ≠ .endOfInput) :
    (Token.next place).2.ahead.length < place.ahead.length := by
  have start := (ahead_skipBlanks_suffix false place.ahead place.line place.offset place.bytes).length_le
  revert h
  simp only [Token.next, Cursor.skip]
  split
  · exact fun h => absurd rfl h
  · next c cs ahead =>
    intro _
    have whole := congrArg List.length (readLexeme_append c cs)
    generalize readLexeme c cs = lexeme at whole ⊢
    obtain ⟨kind, more, rest⟩ := lexeme
    rw [ahead, List.length_cons] at start
    rw [List.length_append] at whole
    simp only [Cursor.pass] at whole ⊢
    omega

/-- Adds the tokens from a place on to `found`, at most `fuel` before the end of the source.  Each
token is at least one character long, so the number of characters ahead is fuel enough. -/
def Token.scanFrom : Nat → Cursor → Array Token → Array Token
  | 0, place, found => found.push (Token.next place).1
  | fuel + 1, place, found =>
    let (token, place) := Token.next place
    if token.kind = .endOfInput then found.push token
    else Token.scanFrom fuel place (found.push token)

/-- The tokens of a source, the last one being the end of the source. -/
def Token.scan (source : String) : Array Token :=
  let place := Cursor.ofString source
  Token.scanFrom place.ahead.length place #[]

/-- At the end of the source there is only the end, again and again. -/
theorem Token.next_atEnd (line offset bytes : Nat) :
    Token.next ⟨[], line, offset, bytes⟩ = (⟨.endOfInput, "", line, offset⟩, ⟨[], line, offset, bytes⟩) := rfl

end Lox
