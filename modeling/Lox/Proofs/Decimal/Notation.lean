import Lox.Decimal.Style
import Lox.Proofs.Decimal.Ranks
import Lox.Proofs.Decimal.ShortestDigits
import Lox.Proofs.Syntax.Lexemes

/-!
# Written numbers

A number without exponent is written as a lexeme of the grammar (`Style.spells_positional`) that stands for
the double it was written for (`Style.literalRank_plain`), and of a number with an exponent the digits and
the exponent can be told from the text.  So a text is that of one number only (`Style.plain_injective`).
-/

namespace Lox.Decimal

/-! ## Digits -/

lemma ofDigits_eq (ds : List Char) : ofDigits ds = Nat.ofDigitChars 10 ds 0 := rfl

lemma ofDigits_toDigits (c : Nat) : ofDigits (Nat.toDigits 10 c) = c := Nat.ofDigitChars_ten_toDigits

lemma ofDigits_zeros (ds : List Char) (n : Nat) : ofDigits (ds ++ Style.zeros n) = ofDigits ds * 10 ^ n := by
  rw [ofDigits_eq, Nat.ofDigitChars_append, Style.zeros, Nat.ofDigitChars_replicate_zero, Nat.mul_comm]
  rfl

lemma zeros_ofDigits (ds : List Char) (n : Nat) : ofDigits (Style.zeros n ++ ds) = ofDigits ds := by
  rw [ofDigits_eq, Nat.ofDigitChars_append, Style.zeros, Nat.ofDigitChars_replicate_zero]
  rfl

lemma isDigit_toDigits (c : Nat) : ∀ d ∈ Nat.toDigits 10 c, IsDigit d := fun d there =>
  (isDigit_iff d).1 (Nat.isDigit_of_mem_toDigits (by decide) (by decide) there)

lemma isDigit_zeros (n : Nat) : ∀ d ∈ Style.zeros n, IsDigit d := by
  intro d there
  rw [List.eq_of_mem_replicate there]
  decide

/-! ## Literals -/

/-- The rank of the double that a literal stands for. -/
def literalRank (cs : List Char) : Nat :=
  let fraction := (cs.dropWhile (· ≠ '.')).drop 1
  nearestRank (ofDigits (cs.takeWhile (· ≠ '.') ++ fraction)) (Nat.pow 10 fraction.length)

lemma read_eq (literal : String) : read literal = ofRank (literalRank literal.toList) := rfl

lemma no_point {ds : List Char} (digits : ∀ d ∈ ds, IsDigit d) : ∀ d ∈ ds, decide (d ≠ '.') = true := by
  intro d there
  refine decide_eq_true ?_
  rintro rfl
  exact absurd (digits '.' there) (by decide)

lemma literalRank_whole {ds : List Char} (digits : ∀ d ∈ ds, IsDigit d) :
    literalRank ds = nearestRank (ofDigits ds) (Nat.pow 10 0) := by
  have taken : ds.takeWhile (· ≠ '.') = ds := List.takeWhile_eq_self_iff.2 (no_point digits)
  have left : ds.dropWhile (· ≠ '.') = [] := List.dropWhile_eq_nil_iff.2 (no_point digits)
  unfold literalRank
  dsimp only
  rw [taken, left, List.drop_nil, List.append_nil]
  rfl

lemma literalRank_fraction {ds : List Char} (digits : ∀ d ∈ ds, IsDigit d) (fs : List Char) :
    literalRank (ds ++ '.' :: fs) = nearestRank (ofDigits (ds ++ fs)) (Nat.pow 10 fs.length) := by
  obtain ⟨taken, left⟩ := takeWhile_stops ('.' :: fs) (no_point digits)
    (fun c head => by obtain rfl := Option.some.inj head; rfl)
  unfold literalRank
  dsimp only
  rw [taken, left]
  rfl

/-! ## The number that a numeral stands for -/

/-- The text is a numeral for the number: digits, and maybe more of them behind a point. -/
inductive Numeral : List Char → ℚ → Prop where
  | whole {ds} (digits : ∀ d ∈ ds, IsDigit d) : Numeral ds (Nat.ofDigitChars 10 ds 0)
  | fraction {ds fs} (digits : ∀ d ∈ ds, IsDigit d) (digits' : ∀ d ∈ fs, IsDigit d) :
      Numeral (ds ++ '.' :: fs) (Nat.ofDigitChars 10 ds 0 + Nat.ofDigitChars 10 fs 0 / 10 ^ fs.length)

lemma numeral_of_spells {cs : List Char} (spells : Spells .number cs) : ∃ q, Numeral cs q := by
  generalize number : TokenKind.number = kind at spells
  cases spells with
  | whole digits => exact ⟨_, .whole digits⟩
  | @fraction d ds f fs digits digits' =>
    have digits : ∀ c ∈ d :: ds, IsDigit c := digits
    exact ⟨_, .fraction digits digits'⟩
  | keyword entry => exact absurd number.symm (Keyword.entries_apart _ entry).1.2.1
  | mark entry => exact absurd number.symm ((by decide : ∀ entry ∈ marks, entry.2 ≠ .number) _ entry)
  | name | string => cases number

/-- A numeral is read as the double nearest to its number. -/
lemma Numeral.nearest {cs : List Char} {q : ℚ} (numeral : Numeral cs q) :
    IsNearest (q * 2 ^ 1074) (literalRank cs) := by
  have shifted : ∀ num den k : Nat, ((num <<< k : Nat) : ℚ) / den = num / den * 2 ^ k := by
    intro num den k
    rw [Nat.shiftLeft_eq]
    push_cast
    ring
  cases numeral with
  | whole digits =>
    have one : 0 < Nat.pow 10 0 := by decide
    have nearest := isNearest_nearestRank (ofDigits cs) one
    rw [unitsOf, shifted] at nearest
    rw [literalRank_whole digits]
    simpa [ofDigits_eq] using nearest
  | @fraction ds fs digits digits' =>
    have unit : 0 < Nat.pow 10 fs.length := Nat.pow_pos (by decide)
    have nearest := isNearest_nearestRank (ofDigits (ds ++ fs)) unit
    have sum : (ofDigits (ds ++ fs) : ℚ) / (Nat.pow 10 fs.length : Nat) =
        Nat.ofDigitChars 10 ds 0 + Nat.ofDigitChars 10 fs 0 / 10 ^ fs.length := by
      rw [ofDigits_eq, Nat.ofDigitChars_append, Nat.ofDigitChars_eq_ofDigitChars_zero, Nat.pow_eq]
      push_cast
      field_simp
    rw [unitsOf, shifted, sum] at nearest
    rw [literalRank_fraction digits]
    exact nearest

/-- What a numeral is read as is the double nearest to its number, and no other. -/
theorem Numeral.read_eq_iff {text : String} {q : ℚ} {rank : Nat} (numeral : Numeral text.toList q)
    (bounded : rank ≤ infinityRank) : read text = ofRank rank ↔ IsNearest (q * 2 ^ 1074) rank := by
  have nearest := numeral.nearest
  rw [read_eq]
  constructor
  · intro same
    have bits := congrArg (·.toBits.toNat) same
    rw [toBits_ofRank nearest.bounded, toBits_ofRank bounded] at bits
    exact bits ▸ nearest
  · exact fun other => congrArg ofRank (nearest.unique other)

namespace Style

variable {ds : List Char} {place : Int}

/-- A number without exponent is whole, or has a point among its digits or among zeros before them. -/
lemma positional_cases (ds : List Char) (place : Int) :
    (0 ≤ place ∧ plain.positional ds place = ds ++ zeros place.toNat) ∨
      ∃ n whole fraction, whole ++ fraction = zeros n ++ ds ∧ whole ≠ [] ∧ fraction ≠ [] ∧
        place = -(fraction.length : Int) ∧ plain.positional ds place = whole ++ '.' :: fraction := by
  unfold positional
  dsimp only
  split
  · next whole => exact .inl ⟨whole, List.append_nil _⟩
  · next fraction =>
    right
    split
    · next inside =>
      have before : (ds.take (ds.length - (-place).toNat)).length = ds.length - (-place).toNat := by
        rw [List.length_take]
        omega
      have behind : (ds.drop (ds.length - (-place).toNat)).length = (-place).toNat := by
        rw [List.length_drop]
        omega
      refine ⟨0, _, _, List.take_append_drop _ ds, ?_, ?_, ?_, rfl⟩
      · exact List.ne_nil_of_length_pos (by omega)
      · exact List.ne_nil_of_length_pos (by omega)
      · omega
    · next before =>
      have behind : (zeros ((-place).toNat - ds.length) ++ ds).length = (-place).toNat := by
        rw [List.length_append, zeros, List.length_replicate]
        omega
      refine ⟨(-place).toNat - ds.length + 1, ['0'], zeros ((-place).toNat - ds.length) ++ ds, rfl,
        List.cons_ne_nil _ _, ?_, ?_, rfl⟩
      · exact List.ne_nil_of_length_pos (by omega)
      · omega

section Digits

variable (digits : ∀ d ∈ ds, IsDigit d)
include digits

/-- What is written without exponent is a number of the grammar. -/
lemma spells_positional (some : ds ≠ []) (place : Int) : Spells .number (plain.positional ds place) := by
  rcases positional_cases ds place with ⟨-, text⟩ | ⟨n, whole, fraction, all, before, behind, -, text⟩
  · obtain ⟨d, ds, rfl⟩ := List.exists_cons_of_ne_nil some
    rw [text]
    exact .whole (List.forall_mem_append.2 ⟨digits, isDigit_zeros _⟩)
  · have all : ∀ x ∈ whole ++ fraction, IsDigit x := all ▸ List.forall_mem_append.2 ⟨isDigit_zeros n, digits⟩
    obtain ⟨d, whole, rfl⟩ := List.exists_cons_of_ne_nil before
    obtain ⟨f, fraction, rfl⟩ := List.exists_cons_of_ne_nil behind
    rw [text]
    obtain ⟨before, behind⟩ := List.forall_mem_append.1 all
    exact .fraction before behind

/-- What is written without exponent is read as the number. -/
lemma literalRank_positional (place : Int) : literalRank (plain.positional ds place) =
    nearestRank (ofDigits ds * Interval.gridNum place) (Interval.gridDen place) := by
  rcases positional_cases ds place with ⟨above, text⟩ | ⟨n, whole, fraction, all, -, -, rfl, text⟩
  · have all : ∀ x ∈ ds ++ zeros place.toNat, IsDigit x := List.forall_mem_append.2 ⟨digits, isDigit_zeros _⟩
    have den : Interval.gridDen place = Nat.pow 10 0 := congrArg (Nat.pow 10) (by omega)
    rw [text, literalRank_whole all, ofDigits_zeros, den]
    rfl
  · have every : ∀ x ∈ whole ++ fraction, IsDigit x := all ▸ List.forall_mem_append.2 ⟨isDigit_zeros n, digits⟩
    rw [text, literalRank_fraction (List.forall_mem_append.1 every).1, all, zeros_ofDigits, Interval.gridNum_neg,
      Interval.gridDen_neg, Nat.mul_one]

end Digits

/-- The text of the double of a rank. -/
def magnitude (style : Style) (rank : Nat) : List Char :=
  if rank = 0 then style.positional ['0'] 0 else style.writeDecimal (shortest rank).1 (shortest rank).2

/-- Without exponent a double is written from that of 10⁻⁷ on and below that of 10²¹. -/
lemma plain_range {rank : Nat} (pos : 0 < rank) (finite : rank < infinityRank) :
    powerRank (-7) ≤ rank ∧ rank < powerRank 21 ↔
      plain.least ≤ leadingPlace (shortest rank).2 (shortest rank).1 ∧
        leadingPlace (shortest rank).2 (shortest rank).1 < plain.limit := by
  have least : shortest (powerRank (-7)) = (1, -7) := by decide +kernel
  have limit : shortest (powerRank 21) = (1, 21) := by decide +kernel
  rw [← not_le, powerRank_le_iff pos finite least, powerRank_le_iff pos finite limit, not_le]
  rfl

variable {rank rank' : Nat}

/-- The doubles that are written without exponent. -/
def IsPlain (rank : Nat) : Prop := rank = 0 ∨ powerRank (-7) ≤ rank ∧ rank < powerRank 21

/-- Without exponent a double is written with the digits of a decimal that is read as the double. -/
lemma magnitude_plain (finite : rank < infinityRank) (inside : IsPlain rank) :
    ∃ ds place, (∀ d ∈ ds, IsDigit d) ∧ ds ≠ [] ∧ plain.magnitude rank = plain.positional ds place ∧
      nearestRank (ofDigits ds * Interval.gridNum place) (Interval.gridDen place) = rank := by
  rcases Nat.eq_zero_or_pos rank with rfl | pos
  · exact ⟨['0'], 0, List.forall_mem_singleton.2 (by decide), List.cons_ne_nil _ _, rfl, by decide +kernel⟩
  · refine ⟨Nat.toDigits 10 (shortest rank).1, (shortest rank).2, isDigit_toDigits _, Nat.toDigits_ne_nil, ?_, ?_⟩
    · rw [magnitude, if_neg pos.ne']
      exact if_pos ((plain_range pos finite).1 (inside.resolve_left pos.ne'))
    · rw [ofDigits_toDigits]
      exact nearestRank_shortest pos finite

lemma magnitude_scientific (finite : rank < infinityRank) (outside : ¬IsPlain rank) :
    plain.magnitude rank = scientific (Nat.toDigits 10 (shortest rank).1)
      (leadingPlace (shortest rank).2 (shortest rank).1) := by
  obtain ⟨other, range⟩ := not_or.1 outside
  rw [magnitude, if_neg other]
  exact if_neg (mt (plain_range (Nat.pos_of_ne_zero other) finite).2 range)

/-- A double that is written without exponent is written as a number of the grammar. -/
theorem spells_plain (finite : rank < infinityRank) (inside : IsPlain rank) :
    Spells .number (plain.magnitude rank) := by
  obtain ⟨ds, place, digits, some, text, -⟩ := magnitude_plain finite inside
  rw [text]
  exact spells_positional digits some place

/-- It is read as the double that it was. -/
theorem literalRank_plain (finite : rank < infinityRank) (inside : IsPlain rank) :
    literalRank (plain.magnitude rank) = rank := by
  obtain ⟨ds, place, digits, -, text, reads⟩ := magnitude_plain finite inside
  rw [text, literalRank_positional digits, reads]

/-! ## Exponents -/

/-- The digits and the exponent of a number can be told from its text. -/
lemma scientific_parts (digits : ∀ d ∈ ds, IsDigit d) (exponent : Int) :
    ∃ mantissa, scientific ds exponent = mantissa ++ 'e' :: (toString exponent).toList ∧
      (∀ d ∈ mantissa, IsDigit d ∨ d = '.') ∧ mantissa.filter (· ≠ '.') = ds ∧ mantissa.head? = ds.head? := by
  have plainDigits : ∀ {cs : List Char}, (∀ d ∈ cs, IsDigit d) → cs.filter (· ≠ '.') = cs := fun digits =>
    List.filter_eq_self.2 (no_point digits)
  unfold scientific
  match ds with
  | [] => exact ⟨[], rfl, nofun, rfl, rfl⟩
  | [d] => exact ⟨[d], rfl, fun x there => .inl (digits x there), plainDigits digits, rfl⟩
  | d :: d' :: ds =>
    obtain ⟨first, others⟩ := List.forall_mem_cons.1 digits
    refine ⟨d :: '.' :: d' :: ds, rfl, ?_, ?_, rfl⟩
    · rintro x (_ | ⟨_, _ | ⟨_, there⟩⟩)
      · exact .inl first
      · exact .inr rfl
      · exact .inl (others x there)
    · have kept := no_point digits d List.mem_cons_self
      rw [List.filter_cons, if_pos kept, List.filter_cons, if_neg (by decide), plainDigits others]

lemma not_exponent {c : Char} (part : IsDigit c ∨ c = '.') : decide (c ≠ 'e') = true := by
  refine decide_eq_true ?_
  rintro rfl
  exact absurd part (by decide)

/-- Two numbers with the same text have the same digits and the same exponent. -/
lemma scientific_injective {ds' : List Char} {e e' : Int} (digits : ∀ d ∈ ds, IsDigit d)
    (digits' : ∀ d ∈ ds', IsDigit d) (same : scientific ds e = scientific ds' e') : ds = ds' ∧ e = e' := by
  obtain ⟨m, text, parts, all, -⟩ := scientific_parts digits e
  obtain ⟨m', text', parts', all', -⟩ := scientific_parts digits' e'
  have mark : ∀ {w : List Char}, ∀ c ∈ ('e' :: w).head?, decide (c ≠ 'e') = false := by
    intro w c head
    obtain rfl := Option.some.inj head
    rfl
  obtain ⟨taken, left⟩ := takeWhile_stops ('e' :: (toString e).toList)
    (fun d there => not_exponent (parts d there)) mark
  obtain ⟨taken', left'⟩ := takeWhile_stops ('e' :: (toString e').toList)
    (fun d there => not_exponent (parts' d there)) mark
  rw [text, text'] at same
  rw [same, taken'] at taken
  rw [same, left'] at left
  refine ⟨by rw [← all, ← all', taken], Int.repr_injective ?_⟩
  exact (String.toList_inj.1 (List.cons.inj left).2).symm

/-! ## Texts -/

/-- A number without exponent is written with digits and a point, a digit first. -/
lemma positional_parts (digits : ∀ d ∈ ds, IsDigit d) (some : ds ≠ []) (place : Int) :
    (∀ c ∈ plain.positional ds place, IsDigit c ∨ c = '.') ∧
      ∃ c cs, plain.positional ds place = c :: cs ∧ IsDigit c := by
  rcases positional_cases ds place with ⟨-, text⟩ | ⟨n, whole, fraction, all, before, -, -, text⟩
  · have all : ∀ x ∈ ds ++ zeros place.toNat, IsDigit x := List.forall_mem_append.2 ⟨digits, isDigit_zeros _⟩
    obtain ⟨d, ds, rfl⟩ := List.exists_cons_of_ne_nil some
    rw [text]
    exact ⟨fun c there => .inl (all c there), d, _, rfl, digits d List.mem_cons_self⟩
  · have every : ∀ x ∈ whole ++ fraction, IsDigit x := all ▸ List.forall_mem_append.2 ⟨isDigit_zeros n, digits⟩
    obtain ⟨before', behind⟩ := List.forall_mem_append.1 every
    obtain ⟨d, whole, rfl⟩ := List.exists_cons_of_ne_nil before
    rw [text]
    refine ⟨List.forall_mem_append.2 ⟨fun c there => .inl (before' c there), ?_⟩, d, _, rfl,
      before' d List.mem_cons_self⟩
    exact List.forall_mem_cons.2 ⟨.inr rfl, fun c there => .inl (behind c there)⟩

/-- The text of a double without sign starts with a digit, and the mark of an exponent is in it if and only if it
is written with one. -/
lemma magnitude_marks (finite : rank < infinityRank) :
    (∃ c cs, plain.magnitude rank = c :: cs ∧ IsDigit c) ∧ ('e' ∈ plain.magnitude rank ↔ ¬IsPlain rank) := by
  by_cases inside : IsPlain rank
  · obtain ⟨ds, place, digits, some, text, -⟩ := magnitude_plain finite inside
    obtain ⟨parts, opens⟩ := positional_parts digits some place
    rw [text]
    refine ⟨opens, iff_of_false (fun mark => ?_) (not_not_intro inside)⟩
    exact absurd (not_exponent (parts 'e' mark)) (by decide)
  · have digits := isDigit_toDigits (shortest rank).1
    obtain ⟨mantissa, text, -, -, head⟩ := scientific_parts digits (leadingPlace (shortest rank).2 (shortest rank).1)
    obtain ⟨d, ds, all⟩ := List.exists_cons_of_ne_nil (Nat.toDigits_ne_nil (n := (shortest rank).1) (b := 10))
    obtain ⟨mantissa, rfl⟩ := List.head?_eq_some_iff.1 (head.trans (congrArg List.head? all))
    rw [magnitude_scientific finite inside, text]
    refine ⟨⟨d, _, rfl, digits d (all ▸ List.mem_cons_self)⟩, iff_of_true ?_ inside⟩
    exact List.mem_append_right _ List.mem_cons_self

/-- Two doubles without sign have different texts. -/
lemma magnitude_injective (finite : rank < infinityRank) (finite' : rank' < infinityRank)
    (same : plain.magnitude rank = plain.magnitude rank') : rank = rank' := by
  -- The mark of an exponent tells which of the two ways of writing it is.
  have alike : IsPlain rank ↔ IsPlain rank' :=
    not_iff_not.1 ((magnitude_marks finite).2.symm.trans (same ▸ (magnitude_marks finite').2))
  by_cases inside : IsPlain rank
  · rw [← literalRank_plain finite inside, ← literalRank_plain finite' (alike.1 inside), same]
  · have outside := mt alike.2 inside
    have pos : 0 < rank := Nat.pos_of_ne_zero (not_or.1 inside).1
    have pos' : 0 < rank' := Nat.pos_of_ne_zero (not_or.1 outside).1
    rw [magnitude_scientific finite inside, magnitude_scientific finite' outside] at same
    obtain ⟨digits, exponents⟩ := scientific_injective (isDigit_toDigits _) (isDigit_toDigits _) same
    have numbers : (shortest rank).1 = (shortest rank').1 := by
      rw [← ofDigits_toDigits (shortest rank).1, digits, ofDigits_toDigits]
    have places : (shortest rank).2 = (shortest rank').2 := by
      unfold leadingPlace at exponents
      rw [digits] at exponents
      omega
    rw [← nearestRank_shortest pos finite, ← nearestRank_shortest pos' finite', numbers, places]

/-- The text of a double without its sign. -/
def body : Binary64 → List Char
  | .nan => ['n', 'a', 'n']
  | .infinite _ => ['i', 'n', 'f']
  | .finite _ rank => plain.magnitude rank

/-- Has it a minus sign? -/
def isSigned : Binary64 → Bool
  | .nan => false
  | .infinite negative | .finite negative _ => negative

lemma plain_write (x : Float) : plain.write x =
    String.ofList
      (if isSigned (Binary64.ofFloat x) then '-' :: body (Binary64.ofFloat x) else body (Binary64.ofFloat x)) := by
  unfold write
  generalize Binary64.ofFloat x = parts
  cases parts with
  | nan => rfl
  | infinite negative => rfl
  | finite negative rank =>
    show (if rank = 0 then _ else _) =
      String.ofList (if negative then '-' :: plain.magnitude rank else plain.magnitude rank)
    unfold magnitude
    split <;> rfl

/-- The rank is one of a finite double. -/
def Proper : Binary64 → Prop
  | .finite _ rank => rank < infinityRank
  | _ => True

lemma proper_ofFloat (x : Float) : Proper (Binary64.ofFloat x) := by
  rcases Binary64.ofFloat_cases x with ⟨_, _, parts, finite, -⟩ | ⟨_, parts, -⟩ | ⟨parts, -⟩ <;> rw [parts]
  · exact finite
  · trivial
  · trivial

/-- What the text of a double may start with, but for its sign. -/
def Opens : Binary64 → Char → Prop
  | .nan, c => c = 'n'
  | .infinite _, c => c = 'i'
  | .finite _ _, c => IsDigit c

/-- The first character tells what kind of double it is. -/
lemma body_opens {a : Binary64} (proper : Proper a) : ∃ c cs, body a = c :: cs ∧ Opens a c := by
  cases a with
  | nan | infinite => exact ⟨_, _, rfl, rfl⟩
  | finite negative rank =>
    exact (magnitude_marks proper).1

lemma Opens.unsigned {a : Binary64} {c : Char} (opens : Opens a c) : c ≠ '-' := by
  rintro rfl
  cases a with
  | nan | infinite => exact absurd (show '-' = _ from opens) (by decide)
  | finite => exact absurd (show IsDigit '-' from opens) (by decide)

/-- The text without its sign is that of one double only, but for the sign. -/
lemma body_injective {a b : Binary64} (proper : Proper a) (proper' : Proper b) (signs : isSigned a = isSigned b)
    (bodies : body a = body b) : a = b := by
  obtain ⟨c, cs, text, opens⟩ := body_opens proper
  obtain ⟨d, ds, text', opens'⟩ := body_opens proper'
  obtain rfl : c = d := (List.cons.inj (text.symm.trans (bodies.trans text'))).1
  cases a with
  | nan =>
    obtain rfl := opens
    cases b with
    | nan => rfl
    | infinite => exact absurd (show 'n' = 'i' from opens') (by decide)
    | finite => exact absurd (show IsDigit 'n' from opens') (by decide)
  | infinite negative =>
    obtain rfl := opens
    cases b with
    | nan => exact absurd (show 'i' = 'n' from opens') (by decide)
    | infinite negative' => exact congrArg Binary64.infinite signs
    | finite => exact absurd (show IsDigit 'i' from opens') (by decide)
  | finite negative rank =>
    cases b with
    | nan =>
      obtain rfl := opens'
      exact absurd (show IsDigit 'n' from opens) (by decide)
    | infinite =>
      obtain rfl := opens'
      exact absurd (show IsDigit 'i' from opens) (by decide)
    | finite negative' rank' =>
      obtain rfl : negative = negative' := signs
      exact congrArg (Binary64.finite negative) (magnitude_injective proper proper' bodies)

/-- A text is that of one double only. -/
lemma text_injective {a b : Binary64} (proper : Proper a) (proper' : Proper b)
    (same : (if isSigned a then '-' :: body a else body a) = if isSigned b then '-' :: body b else body b) : a = b := by
  obtain ⟨c, cs, text, opens⟩ := body_opens proper
  obtain ⟨d, ds, text', opens'⟩ := body_opens proper'
  cases signs : isSigned a <;> cases signs' : isSigned b <;> rw [signs, signs'] at same
  · exact body_injective proper proper' (signs.trans signs'.symm) same
  · exact absurd (List.cons.inj (text.symm.trans same)).1 opens.unsigned
  · exact absurd (List.cons.inj (text'.symm.trans same.symm)).1 opens'.unsigned
  · exact body_injective proper proper' (signs.trans signs'.symm) (List.cons.inj same).2

/-- Two doubles are written the same way only if they are the same or both are no numbers. -/
theorem plain_injective (x y : Float) :
    plain.write x = plain.write y ↔ x.toBits = y.toBits ∨ x.isNaN = true ∧ y.isNaN = true := by
  rw [← Binary64.ofFloat_eq_iff, plain_write, plain_write]
  refine ⟨fun same => ?_, fun parts => by rw [parts]⟩
  exact text_injective (proper_ofFloat x) (proper_ofFloat y) (String.ofList_injective same)

end Style

end Lox.Decimal
