import Lox.Proofs.Decimal.Notation
import Lox.Proofs.Semantics.Comparisons
import Lox.Proofs.Syntax.Rescanning

/-!
# Numerals

The doubles that are printed without sign and exponent are printed as numerals of the language.  Such a text
is one token, its constant is the double it was printed for, and a program that prints the token prints the
text again (`Session.numbers_print_back`).
-/

namespace Lox

open Compile Syntax

/-! ## The range -/

namespace Doubles

open Decimal

variable {x y : Float}

/-- Without sign the bits decide, among numbers. -/
lemma order_eq (number : x.toBits.toNat ≤ infinityRank) (number' : y.toBits.toNat ≤ infinityRank) :
    order x y = some (compare x.toBits.toNat y.toBits.toNat) :=
  (Ranked.unpack number).compare (Ranked.unpack number')

lemma not_isNaN_of_order {o : Ordering} (compared : order x y = some o) : ¬(x.isNaN = true ∨ y.isNaN = true) :=
  fun unordered => nomatch ((order_eq_none x y).2 unordered).symm.trans compared

lemma number_of_clear (clear : x.toBits.toNat < 2 ^ 63) (number : ¬x.isNaN = true) : x.toBits.toNat ≤ infinityRank := by
  have rank := mt (isNaN_iff x).2 number
  rw [Nat.mod_eq_of_lt clear] at rank
  exact Nat.le_of_not_lt rank

/-- The double is zero, or is at least 10⁻⁷ and less than 10²¹. -/
def InRange (x : Float) : Prop := (x == 0) = true ∨ 1e-7 ≤ x ∧ x < 1e21

instance (x : Float) : Decidable (InRange x) := inferInstanceAs (Decidable (_ ∨ _ ∧ _))

/-- A double in the range that has no sign is one of those that are written without exponent. -/
lemma InRange.isPlain (range : InRange x) (clear : x.toBits.toNat < 2 ^ 63) :
    x.toBits.toNat < infinityRank ∧ Style.IsPlain x.toBits.toNat := by
  have zero : (0 : Float).toBits.toNat = 0 := by decide +kernel
  have least : (1e-7 : Float).toBits.toNat = powerRank (-7) := by decide +kernel
  have limit : (1e21 : Float).toBits.toNat = powerRank 21 := by decide +kernel
  have small : powerRank 21 < infinityRank := by decide +kernel
  have smaller : powerRank (-7) < infinityRank := by decide +kernel
  rcases range with equal | ⟨above, below⟩
  · have equal : order x 0 = some .eq := eq_of_beq equal
    have number := number_of_clear clear fun other => not_isNaN_of_order equal (.inl other)
    rw [order_eq number (by omega)] at equal
    have rank := Nat.compare_eq_eq.1 (Option.some.inj equal)
    exact ⟨by omega, .inl (by omega)⟩
  · have below : order x 1e21 = some .lt := by
      have := decide_eq_true below
      rw [decide_lt] at this
      exact eq_of_beq this
    have above : (order 1e-7 x).any (·.isLE) = true := by
      have := decide_eq_true above
      rwa [decide_le] at this
    have number := number_of_clear clear fun other => not_isNaN_of_order below (.inl other)
    rw [order_eq number (by omega)] at below
    rw [order_eq (by omega) number] at above
    have rank := Nat.compare_eq_lt.1 (Option.some.inj below)
    have rank' := Nat.isLE_compare.1 above
    exact ⟨by omega, .inr ⟨by omega, by omega⟩⟩

/-- Its text has no sign. -/
lemma InRange.display (range : InRange x) (clear : x.toBits.toNat < 2 ^ 63) :
    (Value.number x).display = String.ofList (Style.plain.magnitude x.toBits.toNat) := by
  have finite := (range.isPlain clear).1
  have parts : Binary64.ofFloat x = .finite false x.toBits.toNat := by
    rw [Binary64.ofFloat_eq, Nat.mod_eq_of_lt clear, if_pos finite, decide_eq_false (Nat.not_le.2 clear)]
  show Style.plain.write x = _
  rw [Style.plain_write, parts]
  rfl

end Doubles

/-! ## Tokens -/

/-- The words that the parser is given are in the spellings. -/
lemma words_spellings (source : String) : (Token.scan source).toList.map Token.word =
    (spellings source).map fun w => ⟨w.1, if w.1.hasText then w.2 else ""⟩ := by
  rw [spellings, List.map_map]
  rfl

/-- A token before the end is added to those found. -/
lemma Token.scanFrom_more {fuel : Nat} {place : Cursor} {found : Array Token} {kind : TokenKind} {lexeme : String}
    (read : (Token.next place).1.spelling = (kind, lexeme)) (goesOn : kind ≠ .endOfInput) :
    Token.scanFrom (fuel + 1) place found = Token.scanFrom fuel (Token.next place).2
      (found.push (Token.next place).1) :=
  if_neg fun ends => goesOn ((congrArg Prod.fst read).symm.trans ends)

section Numeral

variable {numeral : String} (spells : Spells .number numeral.toList)
include spells

/-- A numeral is read as one token. -/
lemma spellings_numeral : spellings numeral = [(.number, numeral), (.endOfInput, "")] := by
  let token : Token := ⟨.number, numeral, 1, 0⟩
  have lexemes : [token].map Token.lexeme = [numeral] := rfl
  exact (Spaced.last numeral).scanFrom [] #[] lexemes (List.forall_mem_singleton.2 spells) (fun c none => nomatch none)
    rfl (Nat.le_refl _)

/-- So it is between a reserved word and a semicolon. -/
lemma spellings_print : spellings ("print " ++ numeral ++ ";") =
    [(.kwPrint, "print"), (.number, numeral), (.semicolon, ";"), (.endOfInput, "")] := by
  obtain ⟨c, w, word⟩ := spells.exists_cons
  have all : (Cursor.ofString ("print " ++ numeral ++ ";")).ahead =
      [] ++ ('p' :: ['r', 'i', 'n', 't'] ++ (' ' :: (c :: w ++ [';']))) := by
    show ("print " ++ numeral ++ ";").toList = _
    rw [String.toList_append, String.toList_append, word]
    rfl
  have print : Spells .kwPrint ('p' :: ['r', 'i', 'n', 't']) :=
    .keyword (show ("print", TokenKind.kwPrint) ∈ Keyword.entries by decide)
  have semicolon : Spells .semicolon (';' :: []) := .mark (show (";", TokenKind.semicolon) ∈ marks by decide)
  have spaces : ∀ d ∈ [' '], Text.isBlank d = true := List.forall_mem_singleton.2 (by decide)
  obtain ⟨visible, slash⟩ := (word ▸ spells).visible
  have single : ¬['/', '/'] <+: c :: w ++ [';'] := by
    rintro ⟨more, same⟩
    obtain rfl := (List.cons.inj same).1
    obtain rfl := slash rfl
    exact absurd (List.cons.inj (List.cons.inj same).2).1 (by decide)
  have numeralRead : readLexeme c (w ++ [';']) = (.number, w, [';']) := by
    refine (word ▸ spells).readLexeme_numeral fun d head => ?_
    obtain rfl := Option.some.inj head
    decide
  have space : ∀ d ∈ (' ' :: (c :: w ++ [';'])).head?, Text.isBlank d = true := by
    intro d head
    obtain rfl := Option.some.inj head
    decide
  have nothing : ∀ d ∈ ([] : List Char), Text.isBlank d = true := fun d none => nomatch none
  have ended : ∀ d ∈ ([] : List Char).head?, Text.isBlank d = true := fun d none => nomatch none
  obtain ⟨first, after⟩ := print.next_apart nothing space all
  obtain ⟨second, after'⟩ := Token.next_read visible spaces single numeralRead after
  obtain ⟨third, after''⟩ := semicolon.next_apart nothing ended
    (after'.trans (show [';'] = [] ++ (';' :: [] ++ []) from rfl))
  obtain ⟨fuel, enough⟩ : ∃ fuel, (Cursor.ofString ("print " ++ numeral ++ ";")).ahead.length = fuel + 3 := by
    rw [all]
    exact ⟨_, rfl⟩
  rw [← word, String.ofList_toList] at second
  unfold spellings Token.scan
  dsimp only
  rw [enough, Token.scanFrom_more first (by decide), Token.scanFrom_more second (by decide),
    Token.scanFrom_more third (by decide), Token.scanFrom_gap (after''.symm ▸ nothing)]
  simp [first, second, third]

end Numeral

/-! ## Programs -/

/-- The program that prints a numeral. -/
def Plain.printNumeral (numeral : String) : Plain.Stmt .declarations :=
  .declare (.statement (.print (.number numeral))) .noDeclarations

section Program

variable {numeral : String}

lemma reads_printNumeral (spells : Spells .number numeral.toList) :
    ReadsProgram ((Token.scan ("print " ++ numeral ++ ";")).toList.map Token.word)
      (Plain.printNumeral numeral).tree := by
  have canonical : (Plain.printNumeral numeral).tree.Canonical := ⟨trivial, trivial⟩
  rw [words_spellings, spellings_print spells]
  exact canonical.reads_program

lemma lawful_printNumeral : LawfulProgram (Plain.printNumeral numeral).tree := ⟨trivial, trivial⟩

lemma withinLimits_printNumeral : WithinLimits (Plain.printNumeral numeral).tree where
  depth := by
    show max (0 + 1 + 1) 0 ≤ maxNesting
    decide
  constants := Nat.le_trans (Plain.Comparison.length_distinct_le _) (by decide : 1 ≤ maxOperands)
  fits := ⟨trivial, trivial⟩

lemma execute_printNumeral (fuel : Nat) (env : Plain.Env) : (Plain.printNumeral numeral).execute fuel true env =
    .ok () { env with printed := env.printed ++ [(Value.number (Decimal.read numeral)).display] } := rfl

/-- The only constant is the double that the numeral stands for. -/
lemma compiles_printNumeral (spells : Spells .number numeral.toList) (strings : StringTable) (serial : Nat) :
    ∃ p, (compile ("print " ++ numeral ++ ";") strings serial).outcome = .ok p ∧
      p.chunk.constants = #[.number (Decimal.read numeral)] := by
  obtain ⟨p, ok, constants⟩ := lawful_printNumeral.compiles (reads_printNumeral spells) withinLimits_printNumeral
    strings serial
  refine ⟨p, ok, ?_⟩
  have one : p.chunk.constants.toList.map Constant.literal = [.number (Decimal.read numeral)] := constants
  obtain ⟨c, none, all, number, last⟩ := List.map_eq_cons_iff.1 one
  obtain rfl := List.map_eq_nil_iff.1 last
  obtain rfl : c = .number (Decimal.read numeral) := by
    cases c with
    | number x => exact congrArg Constant.number (Literal.number.inj number)
    | _ => cases number
  exact Array.toList_inj.1 all

end Program

namespace Session

open Decimal Doubles

/-- The source prints the numeral again, in every session. -/
lemma interpret_printNumeral {Admitted : NativeBody → Prop} {s : Session} (here : Reached Admitted .resting s)
    {numeral : String} (spells : Spells .number numeral.toList) :
    ∃ fuel s', s.interpret fuel ("print " ++ numeral ++ ";") = (some .ok, s') ∧
      s'.machine.printed = s.machine.printed ++ [(Value.number (Decimal.read numeral)).display] := by
  obtain ⟨p, ok, -⟩ := compiles_printNumeral spells s.machine.strings s.machine.nextPrototype
  obtain ⟨s₁, loads, ends⟩ := load_concludes here (reads_printNumeral spells) ⟨p, ok⟩
  have concludes := ends 0
  rw [execute_printNumeral] at concludes
  obtain ⟨fuel, outcome, s', returns, rfl, seen⟩ := interpret_follows loads concludes fun env other => nomatch other
  exact ⟨fuel, s', returns, seen.printed⟩

/-- The text of a double without sign that is zero or in the range of those without exponent is one token, a number.
The one constant of a program that prints it is the double, bit for bit, and the program prints the text.  And of
all doubles two have the same text if and only if they have the same bits or both are no numbers. -/
theorem numbers_print_back :
    (∀ {x : Float}, x.toBits.toNat < 2 ^ 63 → InRange x →
      spellings (Value.number x).display = [(.number, (Value.number x).display), (.endOfInput, "")] ∧
        (∀ strings serial, ∃ p y,
          (compile ("print " ++ (Value.number x).display ++ ";") strings serial).outcome = .ok p ∧
            p.chunk.constants = #[.number y] ∧ y.toBits = x.toBits) ∧
        ∀ (Admitted : NativeBody → Prop) (s : Session), Reached Admitted .resting s →
          ∃ fuel s', s.interpret fuel ("print " ++ (Value.number x).display ++ ";") = (some .ok, s') ∧
            s'.machine.printed = s.machine.printed ++ [(Value.number x).display]) ∧
    ∀ x y : Float, (Value.number x).display = (Value.number y).display ↔
      x.toBits = y.toBits ∨ x.isNaN = true ∧ y.isNaN = true := by
  refine ⟨fun {x} clear range => ?_, Style.plain_injective⟩
  obtain ⟨finite, inside⟩ := range.isPlain clear
  have text := range.display clear
  have spells : Spells .number (Value.number x).display.toList := by
    rw [text, String.toList_ofList]
    exact Style.spells_plain finite inside
  have reads : Decimal.read (Value.number x).display = x := by
    rw [text, read_eq, String.toList_ofList, Style.literalRank_plain finite inside]
    exact ofRank_toBits finite.le
  refine ⟨spellings_numeral spells, fun strings serial => ?_, fun Admitted s here => ?_⟩
  · obtain ⟨p, ok, constants⟩ := compiles_printNumeral spells strings serial
    exact ⟨p, _, ok, constants, congrArg Float.toBits reads⟩
  · have prints := interpret_printNumeral here spells
    rwa [reads] at prints

/-- The least double that is printed without exponent, and the largest one. -/
theorem numbers_print_back_ends :
    (∃ s', (∃ fuel, (start .quiet).interpret fuel "print 0.0000001;" = (some .ok, s')) ∧
      s'.machine.printed = ["0.0000001"]) ∧
    ∃ p, (compile "print 999999999999999900000;" .empty 0).outcome = .ok p ∧
      p.chunk.constants = #[.number (Float.ofBits 0x444B1AE4D6E2EF4F)] := by
  have least : (Value.number 1e-7).display = "0.0000001" := by decide +kernel
  have most : (Value.number (Float.ofBits 0x444B1AE4D6E2EF4F)).display = "999999999999999900000" := by decide +kernel
  have here : Reached (fun _ => True) .resting (start .quiet) := .start .quiet
  obtain ⟨-, -, prints⟩ := numbers_print_back.1 (x := 1e-7) (by decide +kernel) (by decide +kernel)
  obtain ⟨-, compiles, -⟩ := numbers_print_back.1 (x := Float.ofBits 0x444B1AE4D6E2EF4F) (by decide +kernel)
    (by decide +kernel)
  obtain ⟨fuel, s', returns, printed⟩ := prints _ _ here
  obtain ⟨p, y, ok, constants, bits⟩ := compiles .empty 0
  rw [least] at returns printed
  rw [most] at ok
  obtain rfl := eq_of_toBits bits
  exact ⟨⟨s', ⟨fuel, returns⟩, printed⟩, p, ok, constants⟩

end Session

end Lox
