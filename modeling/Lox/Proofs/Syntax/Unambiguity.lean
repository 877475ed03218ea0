import Lox.Proofs.Syntax.Grammar

/-!
# The grammar is unambiguous

Words are read in one way only (`Goal.Reads.unique`, `Stmt.Reads.unique`): the next word and the
precedence that is asked for decide which rule applies, so two readings of the same words give the
same tree and leave the same rest.
-/

namespace Lox.Syntax

open Compile

variable {ws mid rest : List Word}

/-! ## First words -/

/-- An expression may start with the next word. -/
def StartsExpr (ws : List Word) : Prop :=
  ∃ kind start, nextKind ws = some kind ∧ leading? kind = some start

/-- What is read for the goal starts with an operand. -/
def Goal.Starts : {s : ExprSort} → Goal s → List Word → Prop
  | _, .operand _, ws | _, .operators _, ws | _, .arguments, ws => StartsExpr ws
  | _, _, _ => True

lemma Goal.Reads.starts {s : ExprSort} {g : Goal s} {e : Expr s} (h : g.Reads ws e rest) :
    g.Starts ws := by
  induction h with
  | literal word => exact ⟨_, _, rfl, leading?_value.2 word⟩
  | unary word => exact ⟨_, _, rfl, leading?_unary.2 word⟩
  | number | string | name | assign | this | superGet | superCall | grouping =>
    exact ⟨_, _, rfl, rfl⟩
  | operators _ _ ih | lastArgument _ _ ih | argument _ _ ih => exact ih
  | _ => trivial

/-- An expression does not start with this kind of word. -/
lemma StartsExpr.other {kind : TokenKind} (h : StartsExpr ws)
    (none : leading? kind = none) : nextKind ws ≠ some kind := by
  obtain ⟨kind', start, next, word⟩ := h
  intro same
  obtain rfl := Option.some.inj (next.symm.trans same)
  exact nomatch word.symm.trans none

/-- A statement does not start like a declaration, nor where a block may end. -/
lemma Stmt.Reads.starts {t : Stmt .statement} (h : t.Reads ws rest) :
    ∃ kind, nextKind ws = some kind ∧
      kind ∉ [.kwClass, .kwFun, .kwVar, .rightBrace, .endOfInput] := by
  cases h with
  | expression reads =>
    obtain ⟨kind, start, next, leads⟩ := Goal.Reads.starts reads
    refine ⟨kind, next, fun other => ?_⟩
    revert leads
    simp only [List.mem_cons, List.not_mem_nil, or_false] at other
    rcases other with rfl | rfl | rfl | rfl | rfl <;> simp [leading?]
  | _ => exact ⟨_, rfl, by simp⟩

/-- A block does not end where a declaration starts. -/
lemma Stmt.Reads.opens {d : Stmt .declaration} (h : Stmt.Reads ws d rest) : ¬EndsBlock ws := by
  cases h with
  | statement reads =>
    obtain ⟨kind, next, other⟩ := reads.starts
    rintro (ends | ends) <;> rw [next] at ends <;> cases ends <;> simp at other
  | _ => simp [EndsBlock, nextKind]

/-- No expression starts with a mark that leads to none. -/
lemma ReadsExpr.leads {kind : TokenKind} {e : Expr .expression}
    (h : ReadsExpr (.mark kind :: ws) e rest) : leading? kind ≠ none := by
  have starts : StartsExpr (.mark kind :: ws) := Goal.Reads.starts h
  exact fun none => starts.other none rfl

/-! ## Expressions -/

/-- An expression is read in one way. -/
theorem Goal.Reads.unique {s : ExprSort} {g : Goal s} {ws rest : List Word} {e : Expr s}
    (h : g.Reads ws e rest) :
    ∀ {e' : Expr s} {rest' : List Word}, g.Reads ws e' rest' → e' = e ∧ rest' = rest := by
  -- The induction is on the first reading.  In each case the second one, of the same words, has been
  -- made with the same rule; the conditions of the other rules do not hold.
  induction h with
  | number | string | this =>
    intro e' rest' h'
    cases h' <;> simp_all [value?, unary?]
  | literal word =>
    intro e' rest' h'
    cases h' with
    | literal => exact ⟨rfl, rfl⟩
    | unary word' => cases word'.symm.trans (unary?_of_value word)
    | _ => cases word
  | name ends =>
    intro e' rest' h'
    cases h' <;> simp_all [value?, unary?, nextKind]
  | assign reads ih =>
    intro e' rest' h'
    cases h' with
    | assign reads' =>
      obtain ⟨rfl, rfl⟩ := ih reads'
      exact ⟨rfl, rfl⟩
    | name ends => exact absurd ⟨rfl, rfl⟩ ends
    | literal word | unary word => cases word
  | superGet ends =>
    intro e' rest' h'
    cases h' <;> simp_all [value?, unary?, nextKind]
  | superCall reads ih =>
    intro e' rest' h'
    cases h' with
    | superCall reads' =>
      obtain ⟨rfl, rfl⟩ := ih reads'
      exact ⟨rfl, rfl⟩
    | superGet ends => exact absurd rfl ends
    | literal word | unary word => cases word
  | grouping reads ih =>
    intro e' rest' h'
    cases h' with
    | grouping reads' =>
      obtain ⟨rfl, same⟩ := ih reads'
      exact ⟨rfl, (List.cons.inj same).2⟩
    | literal word | unary word => cases word
  | unary word reads ih =>
    intro e' rest' h'
    cases h' with
    | unary word' reads' =>
      obtain ⟨rfl, rfl⟩ := ih reads'
      exact ⟨rfl, rfl⟩
    | literal word' => cases word.symm.trans (unary?_of_value word')
    | _ => cases word
  | operators first others ih ih' =>
    intro e' rest' h'
    cases h' with
    | operators first' others' =>
      obtain ⟨rfl, rfl⟩ := ih first'
      exact ih' others'
  | done ends =>
    intro e' rest' h'
    cases h' with
    | done => exact ⟨rfl, rfl⟩
    | binary word binds => exact absurd ⟨_, _, rfl, binding?_binary word, binds⟩ ends
    | call binds | get binds | set binds | invoke binds | and binds | or binds =>
      exact absurd ⟨_, _, rfl, rfl, binds⟩ ends
  | call binds reads others ih ih' =>
    intro e' rest' h'
    cases h' with
    | call binds' reads' others' =>
      obtain ⟨rfl, rfl⟩ := ih reads'
      exact ih' others'
    | _ => simp_all [Continues, nextKind, binding?, binary?]
  | get binds ends uncalled others ih =>
    intro e' rest' h'
    cases h' with
    | get binds' ends' uncalled' others' => exact ih others'
    | _ => simp_all [Continues, nextKind, binding?, binary?]
  | set binds assigns reads others ih ih' =>
    intro e' rest' h'
    cases h' with
    | set binds' assigns' reads' others' =>
      obtain ⟨rfl, rfl⟩ := ih reads'
      exact ih' others'
    | _ => simp_all [Continues, nextKind, binding?, binary?]
  | invoke binds reads others ih ih' =>
    intro e' rest' h'
    cases h' with
    | invoke binds' reads' others' =>
      obtain ⟨rfl, rfl⟩ := ih reads'
      exact ih' others'
    | _ => simp_all [Continues, nextKind, binding?, binary?]
  | binary word binds reads others ih ih' =>
    intro e' rest' h'
    cases h' with
    | binary word' binds' reads' others' =>
      obtain ⟨rfl, -⟩ := Prod.mk.inj (Option.some.inj (word.symm.trans word'))
      obtain ⟨rfl, rfl⟩ := ih reads'
      exact ih' others'
    | done ends => exact absurd ⟨_, _, rfl, binding?_binary word, binds⟩ ends
    | _ => cases word
  | and binds reads others ih ih' =>
    intro e' rest' h'
    cases h' with
    | and binds' reads' others' =>
      obtain ⟨rfl, rfl⟩ := ih reads'
      exact ih' others'
    | _ => simp_all [Continues, nextKind, binding?, binary?]
  | or binds reads others ih ih' =>
    intro e' rest' h'
    cases h' with
    | or binds' reads' others' =>
      obtain ⟨rfl, rfl⟩ := ih reads'
      exact ih' others'
    | _ => simp_all [Continues, nextKind, binding?, binary?]
  | noArguments =>
    intro e' rest' h'
    cases h' with
    | noArguments => exact ⟨rfl, rfl⟩
    | someArguments reads' =>
      have starts : StartsExpr _ := reads'.starts
      exact absurd rfl (starts.other rfl)
  | someArguments reads ih =>
    intro e' rest' h'
    cases h' with
    | noArguments =>
      have starts : StartsExpr _ := reads.starts
      exact absurd rfl (starts.other rfl)
    | someArguments reads' =>
      obtain ⟨rfl, same⟩ := ih reads'
      exact ⟨rfl, (List.cons.inj same).2⟩
  | lastArgument reads ends ih =>
    intro e' rest' h'
    cases h' with
    | lastArgument reads' ends' =>
      obtain ⟨rfl, rfl⟩ := ih reads'
      exact ⟨rfl, rfl⟩
    | argument first' others' =>
      obtain ⟨-, rfl⟩ := ih first'
      exact absurd rfl ends
  | argument first others ih ih' =>
    intro e' rest' h'
    cases h' with
    | lastArgument reads' ends' =>
      obtain ⟨-, rfl⟩ := ih reads'
      exact absurd rfl ends'
    | argument first' others' =>
      obtain ⟨rfl, same⟩ := ih first'
      obtain ⟨rfl, rfl⟩ := ih' ((List.cons.inj same).2 ▸ others')
      exact ⟨rfl, rfl⟩

/-! ## Clauses -/

lemma ReadsClause.unique {stop : TokenKind} (stops : leading? stop = Option.none) {ws rest rest' : List Word}
    {e e' : Option (Expr .expression)} (h : ReadsClause stop ws e rest)
    (h' : ReadsClause stop ws e' rest') : e' = e ∧ rest' = rest := by
  cases h with
  | none =>
    cases h' with
    | none => exact ⟨rfl, rfl⟩
    | some reads' => exact (reads'.leads stops).elim
  | some reads =>
    cases h' with
    | none => exact (reads.leads stops).elim
    | some reads' =>
      obtain ⟨rfl, same⟩ := reads.unique reads'
      exact ⟨rfl, (List.cons.inj same).2⟩

lemma ReadsBinding.unique {ws rest rest' : List Word} {x x' : String}
    {value value' : Option (Expr .expression)} (h : ReadsBinding ws x value rest)
    (h' : ReadsBinding ws x' value' rest') : x' = x ∧ value' = value ∧ rest' = rest := by
  cases h with
  | none =>
    cases h' with
    | none => exact ⟨rfl, rfl, rfl⟩
  | some reads =>
    cases h' with
    | some reads' =>
      obtain ⟨rfl, same⟩ := reads.unique reads'
      exact ⟨rfl, rfl, (List.cons.inj same).2⟩

lemma Initializer.Reads.unique {ws rest rest' : List Word} {first first' : Initializer}
    (h : Initializer.Reads ws first rest) (h' : Initializer.Reads ws first' rest') :
    first' = first ∧ rest' = rest := by
  cases h with
  | none =>
    cases h' with
    | none => exact ⟨rfl, rfl⟩
    | expression reads' => exact (reads'.leads rfl).elim
  | var reads =>
    cases h' with
    | var reads' =>
      obtain ⟨rfl, rfl, rfl⟩ := reads.unique reads'
      exact ⟨rfl, rfl⟩
    | expression reads' => exact (reads'.leads rfl).elim
  | expression reads =>
    cases h' with
    | none => exact (reads.leads rfl).elim
    | var => exact (reads.leads rfl).elim
    | expression reads' =>
      obtain ⟨rfl, same⟩ := reads.unique reads'
      exact ⟨rfl, (List.cons.inj same).2⟩

/-! ## Parameters -/

lemma paramWords_unique {params : List String} :
    ∀ {params' : List String} {ws ws' : List Word},
      paramWords params' ++ ws' = paramWords params ++ ws → params' = params ∧ ws' = ws := by
  induction params using paramWords.induct with
  | case1 =>
    intro params' ws ws' same
    match params' with
    | [] => exact ⟨rfl, (List.cons.inj same).2⟩
    | [y] | y :: z :: zs => simp [paramWords] at same
  | case2 x =>
    intro params' ws ws' same
    match params' with
    | [] | y :: z :: zs => simp [paramWords] at same
    | [y] => simpa [paramWords] using same
  | case3 x xs more ih =>
    intro params' ws ws' same
    match params', xs with
    | _, [] => exact absurd rfl more
    | [], _ :: _ | [y], _ :: _ => simp [paramWords] at same
    | y :: z :: zs, _ :: _ =>
      obtain ⟨named, later⟩ : y = x ∧ paramWords (z :: zs) ++ ws' = paramWords (_ :: _) ++ ws := by
        simpa [paramWords] using same
      obtain ⟨rest, after⟩ := ih later
      exact ⟨by rw [named, rest], after⟩

lemma superclassWords_unique {superclass superclass' : Option String} {ws ws' : List Word}
    (same : superclassWords superclass' ++ .mark .leftBrace :: ws' =
      superclassWords superclass ++ .mark .leftBrace :: ws) :
    superclass' = superclass ∧ ws' = ws := by
  cases superclass <;> cases superclass' <;> simp_all [superclassWords]

/-! ## Statements -/

/-- A phrase is read in one way. -/
theorem Stmt.Reads.unique {s : StmtSort} {ws rest : List Word} {t : Stmt s} (h : Stmt.Reads ws t rest) :
    ∀ {t' : Stmt s} {rest' : List Word}, Stmt.Reads ws t' rest' → t' = t ∧ rest' = rest := by
  induction h with
  | print reads =>
    intro t' rest' h'
    cases h' with
    | print reads' =>
      obtain ⟨rfl, same⟩ := reads.unique reads'
      exact ⟨rfl, (List.cons.inj same).2⟩
    | expression reads' => exact (reads'.leads rfl).elim
  | expression reads =>
    intro t' rest' h'
    cases h' with
    | expression reads' =>
      obtain ⟨rfl, same⟩ := reads.unique reads'
      exact ⟨rfl, (List.cons.inj same).2⟩
    | _ => exact (reads.leads rfl).elim
  | ret reads =>
    intro t' rest' h'
    cases h' with
    | ret reads' =>
      obtain ⟨rfl, rfl⟩ := reads.unique rfl reads'
      exact ⟨rfl, rfl⟩
    | expression reads' => exact (reads'.leads rfl).elim
  | ifThen condition branch ends ih =>
    intro t' rest' h'
    cases h' with
    | ifThen condition' branch' ends' =>
      obtain ⟨rfl, same⟩ := condition.unique condition'
      obtain rfl := (List.cons.inj same).2
      obtain ⟨rfl, rfl⟩ := ih branch'
      exact ⟨rfl, rfl⟩
    | ifElse condition' branch' otherwise' =>
      obtain ⟨rfl, same⟩ := condition.unique condition'
      obtain rfl := (List.cons.inj same).2
      obtain ⟨-, rfl⟩ := ih branch'
      exact absurd rfl ends
    | expression reads' => exact (reads'.leads rfl).elim
  | ifElse condition branch otherwise ih ih' =>
    intro t' rest' h'
    cases h' with
    | ifThen condition' branch' ends' =>
      obtain ⟨rfl, same⟩ := condition.unique condition'
      obtain rfl := (List.cons.inj same).2
      obtain ⟨-, rfl⟩ := ih branch'
      exact absurd rfl ends'
    | ifElse condition' branch' otherwise' =>
      obtain ⟨rfl, same⟩ := condition.unique condition'
      obtain rfl := (List.cons.inj same).2
      obtain ⟨rfl, same⟩ := ih branch'
      obtain rfl := (List.cons.inj same).2
      obtain ⟨rfl, rfl⟩ := ih' otherwise'
      exact ⟨rfl, rfl⟩
    | expression reads' => exact (reads'.leads rfl).elim
  | whileLoop condition inner ih =>
    intro t' rest' h'
    cases h' with
    | whileLoop condition' inner' =>
      obtain ⟨rfl, same⟩ := condition.unique condition'
      obtain rfl := (List.cons.inj same).2
      obtain ⟨rfl, rfl⟩ := ih inner'
      exact ⟨rfl, rfl⟩
    | expression reads' => exact (reads'.leads rfl).elim
  | forLoop start condition increment inner ih =>
    intro t' rest' h'
    cases h' with
    | forLoop start' condition' increment' inner' =>
      obtain ⟨rfl, rfl⟩ := start.unique start'
      obtain ⟨rfl, rfl⟩ := condition.unique rfl condition'
      obtain ⟨rfl, rfl⟩ := increment.unique rfl increment'
      obtain ⟨rfl, rfl⟩ := ih inner'
      exact ⟨rfl, rfl⟩
    | expression reads' => exact (reads'.leads rfl).elim
  | block inner ih =>
    intro t' rest' h'
    cases h' with
    | block inner' =>
      obtain ⟨rfl, same⟩ := ih inner'
      exact ⟨rfl, (List.cons.inj same).2⟩
    | expression reads' => exact (reads'.leads rfl).elim
  | statement reads ih =>
    intro t' rest' h'
    cases h' with
    | statement reads' =>
      obtain ⟨rfl, rfl⟩ := ih reads'
      exact ⟨rfl, rfl⟩
    | _ => cases reads with
      | expression reads => exact (reads.leads rfl).elim
  | var reads =>
    intro t' rest' h'
    cases h' with
    | var reads' =>
      obtain ⟨rfl, rfl, rfl⟩ := reads.unique reads'
      exact ⟨rfl, rfl⟩
    | statement reads' => cases reads' with
      | expression reads' => exact (reads'.leads rfl).elim
  | @function x params ws body rest inner ih =>
    intro t' rest' h'
    generalize all : paramWords params ++ .mark .leftBrace :: ws = more at h'
    cases h' with
    | function inner' =>
      obtain ⟨rfl, same⟩ := paramWords_unique all.symm
      obtain rfl := (List.cons.inj same).2
      obtain ⟨rfl, same⟩ := ih inner'
      exact ⟨rfl, (List.cons.inj same).2⟩
    | statement reads' => cases reads' with
      | expression reads' => exact (reads'.leads rfl).elim
  | @cls x superclass ws ms rest inner ih =>
    intro t' rest' h'
    generalize all : superclassWords superclass ++ .mark .leftBrace :: ws = more at h'
    cases h' with
    | cls inner' =>
      obtain ⟨rfl, rfl⟩ := superclassWords_unique all.symm
      obtain ⟨rfl, same⟩ := ih inner'
      exact ⟨rfl, (List.cons.inj same).2⟩
    | statement reads' => cases reads' with
      | expression reads' => exact (reads'.leads rfl).elim
  | noDeclarations ends =>
    intro t' rest' h'
    cases h' with
    | noDeclarations => exact ⟨rfl, rfl⟩
    | declare first' => exact absurd ends (first'.opens)
  | declare first others ih ih' =>
    intro t' rest' h'
    cases h' with
    | noDeclarations ends' => exact absurd ends' (first.opens)
    | declare first' others' =>
      obtain ⟨rfl, rfl⟩ := ih first'
      obtain ⟨rfl, rfl⟩ := ih' others'
      exact ⟨rfl, rfl⟩
  | noMethods ends =>
    intro t' rest' h'
    cases h' with
    | noMethods => exact ⟨rfl, rfl⟩
    | method => rcases ends with ends | ends <;> exact nomatch ends
  | @method x params ws body mid ms rest inner others ih ih' =>
    intro t' rest' h'
    generalize all : paramWords params ++ .mark .leftBrace :: ws = more at h'
    cases h' with
    | noMethods ends => rcases ends with ends | ends <;> exact nomatch ends
    | method inner' others' =>
      obtain ⟨rfl, same⟩ := paramWords_unique all.symm
      obtain rfl := (List.cons.inj same).2
      obtain ⟨rfl, same⟩ := ih inner'
      obtain rfl := (List.cons.inj same).2
      obtain ⟨rfl, rfl⟩ := ih' others'
      exact ⟨rfl, rfl⟩

/-- A program is read in one way. -/
theorem ReadsProgram.unique {ws : List Word} {ds ds' : Stmt .declarations} (h : ReadsProgram ws ds)
    (h' : ReadsProgram ws ds') : ds' = ds := by
  obtain ⟨_, reads, -⟩ := h
  obtain ⟨_, reads', -⟩ := h'
  exact (reads.unique reads').1

end Lox.Syntax
