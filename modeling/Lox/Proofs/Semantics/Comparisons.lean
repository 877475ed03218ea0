import Lox.Proofs.Compile.PostOrder
import Lox.Proofs.Semantics.Meaning

/-!
# Comparisons

Which of two numbers is the greater one is a question that doubles need not answer: what is no number
is neither less nor greater than anything, nor equal.  The mixed comparisons are negations of the strict
ones, and so they say yes there, where the comparison of doubles says no; everywhere else all six
operators are the comparisons of doubles (`Session.comparisons_print`).
-/

namespace Lox

open Compile Syntax

/-! ## Doubles -/

namespace Doubles

open Float.Model Float.Model.UnpackedFloat

/-- What is no number cannot be compared, and everything else can. -/
lemma compare_eq_none {a b : UnpackedFloat} :
    a.compare b = none ↔ a.isNaN = true ∨ b.isNaN = true := by
  rcases a with s | - | s | ⟨s, m, e, -⟩ <;> rcases b with t | - | t | ⟨t, n, f, -⟩ <;>
    (try cases s) <;> (try cases t) <;> simp [UnpackedFloat.compare, UnpackedFloat.isNaN]

lemma compare_swap (a b : UnpackedFloat) : a.compare b = (b.compare a).map Ordering.swap := by
  rcases a with s | - | s | ⟨s, m, e, -⟩ <;> rcases b with t | - | t | ⟨t, n, f, -⟩ <;>
    (try cases s) <;> (try cases t) <;>
      first | rfl | simp [UnpackedFloat.compare, Ordering.swap_then, ← Std.OrientedCmp.eq_swap]

variable (x y : Float)

/-- How two doubles compare. -/
def order (x y : Float) : Option Ordering := x.toModel.unpack.compare y.toModel.unpack

lemma decide_lt : decide (x < y) = (order x y == some .lt) := by
  rw [Bool.eq_iff_iff, decide_eq_true_iff]
  show x.lt y = true ↔ _
  unfold Float.lt
  rw [decide_eq_true_iff]
  exact Iff.rfl

lemma decide_le : decide (x ≤ y) = (order x y).any (·.isLE) := by
  rw [Bool.eq_iff_iff, decide_eq_true_iff]
  show x.le y = true ↔ _
  unfold Float.le
  rw [decide_eq_true_iff]
  exact Iff.rfl

lemma order_swap : order x y = (order y x).map Ordering.swap := compare_swap _ _

lemma order_eq_none : order x y = none ↔ x.isNaN = true ∨ y.isNaN = true := compare_eq_none

/-- A negated strict comparison is the mixed one of numbers, and true of what is no number. -/
lemma not_gt : (!decide (x > y)) = if x.isNaN || y.isNaN then true else decide (x ≤ y) := by
  have swapped : decide (x > y) = (order x y == some .gt) := by
    show decide (y < x) = _
    rw [decide_lt, order_swap]
    rcases order x y with - | - | - | - <;> rfl
  rw [swapped, decide_le]
  by_cases number : x.isNaN = true ∨ y.isNaN = true
  · rw [(order_eq_none x y).2 number, if_pos ((Bool.or_eq_true _ _).symm ▸ number)]
    rfl
  · have compared := mt (order_eq_none x y).1 number
    rw [if_neg ((Bool.or_eq_true _ _).symm ▸ number)]
    cases result : order x y with
    | none => exact absurd result compared
    | some o => cases o <;> rfl

end Doubles

/-! ## Operators -/

namespace Plain

/-- The operators that compare. -/
inductive Comparison where
  | equal | notEqual | less | lessEqual | greater | greaterEqual

namespace Comparison

/-- The operator between two operands. -/
def op : Comparison → BinaryOp
  | .equal => .equal
  | .notEqual => .notEqual
  | .less => .less
  | .lessEqual => .lessEqual
  | .greater => .greater
  | .greaterEqual => .greaterEqual

/-- The comparison of doubles. -/
def ofDoubles : Comparison → Float → Float → Bool
  | .equal, x, y => x == y
  | .notEqual, x, y => x != y
  | .less, x, y => decide (x < y)
  | .lessEqual, x, y => decide (x ≤ y)
  | .greater, x, y => decide (x > y)
  | .greaterEqual, x, y => decide (x ≥ y)

/-- Is it answered by negating a strict comparison? -/
def isMixed : Comparison → Bool
  | .lessEqual | .greaterEqual => true
  | _ => false

/-- What a program gets: a mixed comparison says yes to what is no number. -/
def answer (c : Comparison) (x y : Float) : Bool :=
  if c.isMixed && (x.isNaN || y.isNaN) then true else c.ofDoubles x y

/-- The mixed comparisons of doubles say no to what is no number. -/
lemma ofDoubles_of_isNaN {c : Comparison} {x y : Float} (mixed : c.isMixed = true)
    (number : x.isNaN = true ∨ y.isNaN = true) : c.ofDoubles x y = false := by
  cases c with
  | lessEqual =>
    show decide (x ≤ y) = false
    rw [Doubles.decide_le, (Doubles.order_eq_none x y).2 number]
    rfl
  | greaterEqual =>
    show decide (y ≤ x) = false
    rw [Doubles.decide_le, (Doubles.order_eq_none y x).2 number.symm]
    rfl
  | _ => cases mixed

/-- Programs get the answer of doubles except there. -/
lemma answer_eq_iff (c : Comparison) (x y : Float) :
    c.answer x y = c.ofDoubles x y ↔ ¬(c.isMixed = true ∧ (x.isNaN = true ∨ y.isNaN = true)) := by
  unfold answer
  by_cases apart : c.isMixed = true ∧ (x.isNaN = true ∨ y.isNaN = true)
  · have no := ofDoubles_of_isNaN apart.1 apart.2
    simp [apart, no]
  · rw [if_neg (by simpa using apart)]
    simpa using apart

lemma apply_op (c : Comparison) (x y : Float) :
    c.op.apply (.number x) (.number y) = pure (.bool (c.answer x y)) := by
  have lessEqual := Doubles.not_gt x y
  have greaterEqual := Doubles.not_gt y x
  cases c with
  | lessEqual =>
    show (pure (.bool (!decide (x > y))) : Eval Datum) = _
    rw [lessEqual]
    rfl
  | greaterEqual =>
    show (pure (.bool (!decide (y > x))) : Eval Datum) = _
    rw [greaterEqual, Bool.or_comm]
    rfl
  | _ => rfl

/-- The program that compares the values of two names. -/
def program (c : Comparison) (a b : String) : Stmt .declarations :=
  .declare (.statement (.print (.binary c.op (.name a) (.name b)))) .noDeclarations

lemma bind_ok {α β : Type} {act : Eval α} {f : α → Eval β} {env env' : Env} {a : α} (first : act env = .ok a env') :
    (act >>= f) env = f a env' := by
  show EStateM.bind act f env = _
  unfold EStateM.bind
  rw [first]

/-- The program prints the answer. -/
lemma execute_program (c : Comparison) {env : Env} {a b : String} {x y : Float} {fuel : Nat}
    (left : env.find? a = some (.number x)) (right : env.find? b = some (.number y)) :
    (c.program a b).execute fuel true env =
      .ok () { env with printed := env.printed ++ [(Value.bool (c.answer x y)).display] } := by
  have compares : (Expr.binary c.op (.name a) (.name b)).eval env = .ok (.bool (c.answer x y)) env := by
    refine (bind_ok (readVariable_known left)).trans ((bind_ok (readVariable_known right)).trans ?_)
    rw [apply_op]
    rfl
  have prints : (Stmt.print (.binary c.op (.name a) (.name b))).execute fuel true env =
      .ok () { env with printed := env.printed ++ [(Value.bool (c.answer x y)).display] } := bind_ok compares
  exact bind_ok prints

lemma length_distinct_le (ls : List Literal) : (Literal.distinct ls).length ≤ ls.length := by
  have grows : ∀ pool : List Literal, (ls.foldl Literal.add pool).length ≤ pool.length + ls.length := by
    induction ls with
    | nil => exact fun pool => Nat.le_refl _
    | cons l ls ih =>
      intro pool
      have one : (Literal.add pool l).length ≤ pool.length + 1 := by
        unfold Literal.add
        split <;> simp
      have := ih (Literal.add pool l)
      simp only [List.foldl_cons, List.length_cons]
      omega
  exact Nat.le_trans (grows []) (by simp)

lemma length_nameConstants_le (env : Syntax.Env) (x : String) : (nameConstants env x).length ≤ 1 := by
  unfold nameConstants
  split <;> simp

lemma program_lawful (c : Comparison) (a b : String) : LawfulProgram (c.program a b).tree :=
  ⟨⟨nofun, nofun⟩, trivial⟩

lemma program_withinLimits (c : Comparison) (a b : String) : WithinLimits (c.program a b).tree where
  depth := by
    show max (max 0 (0 + 1) + 1 + 1) 0 ≤ maxNesting
    decide
  constants := by
    refine Nat.le_trans (length_distinct_le _) ?_
    show (nameConstants _ a ++ nameConstants _ b ++ []).length ≤ maxOperands
    have first := length_nameConstants_le [[BodyKind.script.slotZero]] a
    have second := length_nameConstants_le [[BodyKind.script.slotZero]] b
    rw [List.append_nil, List.length_append]
    exact Nat.le_trans (Nat.add_le_add first second) (by decide)
  fits := ⟨⟨trivial, trivial⟩, trivial⟩

end Comparison

end Plain

lemma Value.number?_eq_some {v : Value} {x : Float} (same : v.number? = some x) : v = .number x := by
  cases v with
  | number y => rw [Option.some.inj same]
  | _ => cases same

namespace Session

open Lox.Plain (Comparison)

variable {Admitted : NativeBody → Prop} {s : Session} {source : String}

/-- A comparison of two globals that are numbers prints its answer, in every session: that of doubles, but for
mixed comparisons with what is no number. -/
theorem comparisons_print (here : Reached Admitted .resting s) (c : Comparison) {a b : String} {x y : Float}
    (reads : ReadsProgram ((Token.scan source).toList.map Token.word) (c.program a b).tree)
    (left : s.machine.globals.find? a = some (.number x)) (right : s.machine.globals.find? b = some (.number y)) :
    ∃ fuel s', s.interpret fuel source = (some .ok, s') ∧
      s'.machine.printed = s.machine.printed ++ [(Value.bool (c.answer x y)).display] ∧
      (c.answer x y = c.ofDoubles x y ↔ ¬(c.isMixed = true ∧ (x.isNaN = true ∨ y.isNaN = true))) := by
  obtain ⟨p, ok, -⟩ := (c.program_lawful a b).compiles reads (c.program_withinLimits a b) s.machine.strings
    s.machine.nextPrototype
  obtain ⟨s₁, loads, ends⟩ := load_concludes here reads ⟨p, ok⟩
  have executes : (c.program a b).execute 0 true s.env =
      .ok () { s.env with printed := s.env.printed ++ [(Value.bool (c.answer x y)).display] } := by
    refine c.execute_program ?_ ?_
    · exact congrArg (Option.map Value.datum) left
    · exact congrArg (Option.map Value.datum) right
  have concludes := ends 0
  rw [executes] at concludes
  obtain ⟨fuel, outcome, s', returns, rfl, seen⟩ := interpret_follows loads concludes fun env other => nomatch other
  exact ⟨fuel, s', returns, seen.printed, c.answer_eq_iff x y⟩

/-- Zero divided by zero is at most one, by the account of a program. -/
theorem comparisons_print_unordered :
    ∃ (s : Session) (x y : Float), Reached (fun _ => True) .resting s ∧
      s.machine.globals.find? "a" = some (.number x) ∧ s.machine.globals.find? "b" = some (.number y) ∧
      ∃ fuel s', s.interpret fuel "print a <= b;" = (some .ok, s') ∧
        s'.machine.printed = s.machine.printed ++ ["true"] ∧ Comparison.lessEqual.ofDoubles x y = false := by
  generalize returns : (start .quiet).interpret 20 "var a = 0 / 0; var b = 1;" = result
  have runs : result.1 = some .ok ∧
      ((result.2.machine.globals.find? "a").bind Value.number?).any Float.isNaN ∧
      ((result.2.machine.globals.find? "b").bind Value.number?).isSome := by
    rw [← returns]
    decide +kernel
  obtain ⟨outcome, s⟩ := result
  obtain ⟨rfl, unordered, known⟩ := runs
  have here : Reached (fun _ => True) .resting s := (Reached.start .quiet).interpret returns fun _ => nofun
  obtain ⟨x, first, unordered⟩ := (Option.any_eq_true _ _).1 unordered
  obtain ⟨y, second⟩ := Option.isSome_iff_exists.1 known
  obtain ⟨v, left, first⟩ := Option.bind_eq_some_iff.1 first
  obtain ⟨w, right, second⟩ := Option.bind_eq_some_iff.1 second
  obtain rfl := Value.number?_eq_some first
  obtain rfl := Value.number?_eq_some second
  have canonical : (Comparison.lessEqual.program "a" "b").tree.Canonical :=
    ⟨⟨.comparison, _, rfl, trivial, by decide, trivial, by decide⟩, trivial⟩
  have words : (Token.scan "print a <= b;").toList.map Token.word =
      (Comparison.lessEqual.program "a" "b").tree.words ++ [.mark .endOfInput] := by decide +kernel
  have reads := canonical.reads_program
  rw [← words] at reads
  obtain ⟨fuel, s', prints, printed, -⟩ := comparisons_print here .lessEqual reads left right
  have answer : Comparison.lessEqual.answer x y = true := by
    rw [Comparison.answer, unordered]
    rfl
  rw [answer] at printed
  exact ⟨s, x, y, here, left, right, fuel, s', prints, printed, Comparison.ofDoubles_of_isNaN rfl (.inl unordered)⟩

end Session

end Lox
