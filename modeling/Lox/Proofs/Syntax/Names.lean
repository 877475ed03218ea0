import Lox.Proofs.Syntax.Grammar

/-!
# Names

A program cannot name the places that the compiler names for itself: slot zero of a function, the
receiver of a method, and the superclass of a class.  So a variable of a program is never one of
them (`Stmt.Reads.proper`).
-/

namespace Lox.Syntax

open Compile

/-- A program may name a variable so. -/
def ProperName (x : String) : Prop := x ≠ "" ∧ x ≠ "this" ∧ x ≠ "super"

/-- The word is no name that a program may not use. -/
def Word.Proper (w : Word) : Prop := w.kind = .identifier → ProperName w.text

/-- All words are proper. -/
def ProperWords (ws : List Word) : Prop := ∀ w ∈ ws, w.Proper

/-! ## Trees -/

/-- The variables that the phrase mentions have proper names. -/
def Expr.Proper : {s : ExprSort} → Expr s → Prop
  | _, .name x => ProperName x
  | _, .assign x value => ProperName x ∧ value.Proper
  | _, .superCall _ args => args.Proper
  | _, .grouping e => e.Proper
  | _, .unary _ e => e.Proper
  | _, .binary _ l r => l.Proper ∧ r.Proper
  | _, .and l r => l.Proper ∧ r.Proper
  | _, .or l r => l.Proper ∧ r.Proper
  | _, .call f args => f.Proper ∧ args.Proper
  | _, .get e _ => e.Proper
  | _, .set e _ value => e.Proper ∧ value.Proper
  | _, .invoke e _ args => e.Proper ∧ args.Proper
  | _, .someArguments args => args.Proper
  | _, .lastArgument e => e.Proper
  | _, .argument e args => e.Proper ∧ args.Proper
  | _, _ => True

/-- The expression of a clause is proper if there is one. -/
def ClauseProper (e : Option (Expr .expression)) : Prop := ∀ x ∈ e, x.Proper

/-- The clause mentions and declares variables with proper names. -/
def Initializer.Proper : Initializer → Prop
  | .none => True
  | .var x value => ProperName x ∧ ClauseProper value
  | .expression e => e.Proper

/-- The phrase mentions and declares variables with proper names. -/
def Stmt.Proper : {s : StmtSort} → Stmt s → Prop
  | _, .print e => e.Proper
  | _, .expression e => e.Proper
  | _, .ret value => ClauseProper value
  | _, .ifThen c t => c.Proper ∧ t.Proper
  | _, .ifElse c t e => c.Proper ∧ t.Proper ∧ e.Proper
  | _, .whileLoop c body => c.Proper ∧ body.Proper
  | _, .forLoop first c step body =>
    first.Proper ∧ ClauseProper c ∧ ClauseProper step ∧ body.Proper
  | _, .block ds => ds.Proper
  | _, .statement s => s.Proper
  | _, .var x value => ProperName x ∧ ClauseProper value
  | _, .function x params body => ProperName x ∧ (∀ y ∈ params, ProperName y) ∧ body.Proper
  | _, .cls x superclass ms => ProperName x ∧ (∀ y ∈ superclass, ProperName y) ∧ ms.Proper
  | _, .declare d ds => d.Proper ∧ ds.Proper
  | _, .method _ params body ms => (∀ y ∈ params, ProperName y) ∧ body.Proper ∧ ms.Proper
  | _, _ => True

/-- What is known of the goal itself. -/
def Goal.Proper : {s : ExprSort} → Goal s → Prop
  | _, .after _ left => left.Proper
  | _, _ => True

/-! ## Readings -/

@[simp] lemma properWords_cons (w : Word) (ws : List Word) :
    ProperWords (w :: ws) ↔ w.Proper ∧ ProperWords ws :=
  List.forall_mem_cons

@[simp] lemma properWords_append (ws ws' : List Word) :
    ProperWords (ws ++ ws') ↔ ProperWords ws ∧ ProperWords ws' :=
  List.forall_mem_append

/-- Proper words make proper trees, and proper words are left over. -/
lemma Goal.Reads.proper {s : ExprSort} {g : Goal s} {ws rest : List Word} {e : Expr s}
    (h : g.Reads ws e rest) (words : ProperWords ws) (goal : g.Proper) :
    e.Proper ∧ ProperWords rest := by
  induction h with
  | number | string | literal | this | noArguments =>
    exact ⟨trivial, ((properWords_cons _ _).1 words).2⟩
  | superGet =>
    simp only [properWords_cons] at words
    exact ⟨trivial, words.2.2.2⟩
  | name ends =>
    obtain ⟨first, others⟩ := (properWords_cons _ _).1 words
    exact ⟨first rfl, others⟩
  | assign _ ih =>
    simp only [properWords_cons] at words
    obtain ⟨value, others⟩ := ih words.2.2 trivial
    exact ⟨⟨words.1 rfl, value⟩, others⟩
  | superCall _ ih =>
    simp only [properWords_cons] at words
    exact ih words.2.2.2.2 trivial
  | grouping _ ih =>
    obtain ⟨inner, others⟩ := ih ((properWords_cons _ _).1 words).2 trivial
    exact ⟨inner, ((properWords_cons _ _).1 others).2⟩
  | unary _ _ ih => exact ih ((properWords_cons _ _).1 words).2 trivial
  | operators _ _ ih ih' =>
    obtain ⟨first, others⟩ := ih words trivial
    exact ih' others first
  | done => exact ⟨goal, words⟩
  | call _ _ _ ih ih' =>
    obtain ⟨args, others⟩ := ih ((properWords_cons _ _).1 words).2 trivial
    exact ih' others ⟨goal, args⟩
  | get _ _ _ _ ih =>
    simp only [properWords_cons] at words
    exact ih words.2.2 goal
  | set _ _ _ _ ih ih' =>
    simp only [properWords_cons] at words
    obtain ⟨value, others⟩ := ih words.2.2.2 trivial
    exact ih' others ⟨goal, value⟩
  | invoke _ _ _ ih ih' =>
    simp only [properWords_cons] at words
    obtain ⟨args, others⟩ := ih words.2.2.2 trivial
    exact ih' others ⟨goal, args⟩
  | binary _ _ _ _ ih ih' | and _ _ _ ih ih' | or _ _ _ ih ih' =>
    obtain ⟨right, others⟩ := ih ((properWords_cons _ _).1 words).2 trivial
    exact ih' others ⟨goal, right⟩
  | someArguments _ ih =>
    obtain ⟨args, others⟩ := ih words trivial
    exact ⟨args, ((properWords_cons _ _).1 others).2⟩
  | lastArgument _ _ ih => exact ih words trivial
  | argument _ _ ih ih' =>
    obtain ⟨first, others⟩ := ih words trivial
    obtain ⟨args, others⟩ := ih' ((properWords_cons _ _).1 others).2 trivial
    exact ⟨⟨first, args⟩, others⟩

lemma ReadsExpr.proper {ws rest : List Word} {w : Word} {e : Expr .expression}
    (h : ReadsExpr ws e (w :: rest)) (words : ProperWords ws) : e.Proper ∧ ProperWords rest := by
  obtain ⟨inner, others⟩ := Goal.Reads.proper h words trivial
  exact ⟨inner, ((properWords_cons _ _).1 others).2⟩

lemma ReadsClause.proper {stop : TokenKind} {ws rest : List Word} {e : Option (Expr .expression)}
    (h : ReadsClause stop ws e rest) (words : ProperWords ws) :
    ClauseProper e ∧ ProperWords rest := by
  cases h with
  | none => exact ⟨fun _ none => (nomatch none), ((properWords_cons _ _).1 words).2⟩
  | some reads =>
    obtain ⟨inner, others⟩ := reads.proper words
    refine ⟨?_, others⟩
    rintro e ⟨⟩
    exact inner

lemma ReadsBinding.proper {ws rest : List Word} {x : String} {value : Option (Expr .expression)}
    (h : ReadsBinding ws x value rest) (words : ProperWords ws) :
    ProperName x ∧ ClauseProper value ∧ ProperWords rest := by
  cases h with
  | none =>
    simp only [properWords_cons] at words
    exact ⟨words.1 rfl, fun _ none => (nomatch none), words.2.2⟩
  | some reads =>
    simp only [properWords_cons] at words
    obtain ⟨inner, others⟩ := reads.proper words.2.2
    refine ⟨words.1 rfl, ?_, others⟩
    rintro e ⟨⟩
    exact inner

lemma Initializer.Reads.proper {ws rest : List Word} {first : Initializer}
    (h : Initializer.Reads ws first rest) (words : ProperWords ws) :
    first.Proper ∧ ProperWords rest := by
  cases h with
  | none => exact ⟨trivial, ((properWords_cons _ _).1 words).2⟩
  | var reads =>
    obtain ⟨name, value, others⟩ := reads.proper ((properWords_cons _ _).1 words).2
    exact ⟨⟨name, value⟩, others⟩
  | expression reads => exact reads.proper words

lemma properWords_params {params : List String} (words : ProperWords (paramWords params)) :
    ∀ y ∈ params, ProperName y := by
  induction params with
  | nil => exact fun y there => absurd there List.not_mem_nil
  | cons x params ih =>
    cases params with
    | nil =>
      intro y there
      rw [List.mem_singleton.1 there]
      exact ((properWords_cons _ _).1 words).1 rfl
    | cons z params =>
      simp only [paramWords, properWords_cons] at words ih
      intro y there
      rcases List.mem_cons.1 there with rfl | there
      · exact words.1 rfl
      · exact ih words.2.2 y there

lemma properWords_superclass {superclass : Option String}
    (words : ProperWords (superclassWords superclass)) : ∀ y ∈ superclass, ProperName y := by
  rintro y ⟨⟩
  simp only [superclassWords, properWords_cons] at words
  exact words.2.1 rfl

theorem Stmt.Reads.proper {s : StmtSort} {ws rest : List Word} {t : Stmt s}
    (h : Stmt.Reads ws t rest) (words : ProperWords ws) : t.Proper ∧ ProperWords rest := by
  induction h with
  | print reads => exact reads.proper ((properWords_cons _ _).1 words).2
  | expression reads => exact reads.proper words
  | ret reads => exact reads.proper ((properWords_cons _ _).1 words).2
  | ifThen condition _ _ ih =>
    simp only [properWords_cons] at words
    obtain ⟨c, others⟩ := condition.proper words.2.2
    obtain ⟨t, others⟩ := ih others
    exact ⟨⟨c, t⟩, others⟩
  | ifElse condition _ _ ih ih' =>
    simp only [properWords_cons] at words
    obtain ⟨c, others⟩ := condition.proper words.2.2
    obtain ⟨t, others⟩ := ih others
    obtain ⟨e, others⟩ := ih' ((properWords_cons _ _).1 others).2
    exact ⟨⟨c, t, e⟩, others⟩
  | whileLoop condition _ ih =>
    simp only [properWords_cons] at words
    obtain ⟨c, others⟩ := condition.proper words.2.2
    obtain ⟨body, others⟩ := ih others
    exact ⟨⟨c, body⟩, others⟩
  | forLoop start condition increment _ ih =>
    simp only [properWords_cons] at words
    obtain ⟨first, others⟩ := start.proper words.2.2
    obtain ⟨c, others⟩ := condition.proper others
    obtain ⟨step, others⟩ := increment.proper others
    obtain ⟨body, others⟩ := ih others
    exact ⟨⟨first, c, step, body⟩, others⟩
  | block _ ih =>
    obtain ⟨ds, others⟩ := ih ((properWords_cons _ _).1 words).2
    exact ⟨ds, ((properWords_cons _ _).1 others).2⟩
  | statement _ ih => exact ih words
  | var reads =>
    obtain ⟨name, value, others⟩ := reads.proper ((properWords_cons _ _).1 words).2
    exact ⟨⟨name, value⟩, others⟩
  | function _ ih =>
    simp only [properWords_cons, properWords_append] at words
    obtain ⟨-, name, -, params, -, inside⟩ := words
    obtain ⟨body, others⟩ := ih inside
    exact ⟨⟨name rfl, properWords_params params, body⟩, ((properWords_cons _ _).1 others).2⟩
  | cls _ ih =>
    simp only [properWords_cons, properWords_append] at words
    obtain ⟨-, name, superclass, -, inside⟩ := words
    obtain ⟨ms, others⟩ := ih inside
    exact ⟨⟨name rfl, properWords_superclass superclass, ms⟩, ((properWords_cons _ _).1 others).2⟩
  | noDeclarations | noMethods => exact ⟨trivial, words⟩
  | declare _ _ ih ih' =>
    obtain ⟨d, others⟩ := ih words
    obtain ⟨ds, others⟩ := ih' others
    exact ⟨⟨d, ds⟩, others⟩
  | method _ _ ih ih' =>
    simp only [properWords_cons, properWords_append] at words
    obtain ⟨-, -, params, -, inside⟩ := words
    obtain ⟨body, others⟩ := ih inside
    obtain ⟨ms, others⟩ := ih' ((properWords_cons _ _).1 others).2
    exact ⟨⟨properWords_params params, body, ms⟩, others⟩

end Lox.Syntax
