import Lox.Proofs.Syntax.Canonical

/-!
# Programs as texts

The words of a canonical tree read as the tree (`Stmt.Canonical.reads_program`), so every canonical
program can be written down.  A conditional without `else` must not stand before one; the words of a
declaration never start with it.
-/

namespace Lox.Syntax

open Compile

variable {s : StmtSort} {w : List Word} {e : Expr .expression}

/-! ## The first word -/

/-- A canonical expression starts with a word that an expression may start with. -/
lemma Expr.Canonical.starts {s : ExprSort} {e : Expr s} (canonical : e.Canonical) (sort : s = .expression) :
    ∃ kind, nextKind (e.words ++ w) = some kind ∧ (leading? kind).isSome := by
  induction e generalizing w with
  | number | string | name | this | superGet | superCall | assign | grouping => exact ⟨_, rfl, rfl⟩
  | literal kind =>
    obtain ⟨i, word⟩ := canonical
    exact ⟨kind, rfl, by rw [leading?_value.2 word]; rfl⟩
  | unary op e ih =>
    obtain ⟨⟨i, word⟩, -⟩ := canonical
    exact ⟨op, rfl, by rw [leading?_unary.2 word]; rfl⟩
  | binary op l r ih =>
    obtain ⟨p, is, -, first, -⟩ := canonical
    simp only [words, List.append_assoc]
    exact ih first rfl
  | and l r ih | or l r ih =>
    simp only [words, List.append_assoc]
    exact ih canonical.1 rfl
  | call f args ih =>
    simp only [words, List.append_assoc]
    exact ih canonical.1 rfl
  | get e p ih | set e p value ih | invoke e p args ih =>
    simp only [words, List.append_assoc]
    exact ih canonical.1 rfl
  | noArguments | someArguments | lastArgument | argument => cases sort

lemma Expr.Canonical.startsNoElse (canonical : e.Canonical) : nextKind (e.words ++ w) ≠ some .kwElse := by
  obtain ⟨kind, next, leads⟩ := canonical.starts (w := w) rfl
  rw [next]
  rintro ⟨rfl⟩
  cases leads

/-- No statement or declaration starts with `else`; an empty sequence leaves it to what comes after. -/
lemma Stmt.Canonical.startsNoElse {t : Stmt s} (canonical : t.Canonical)
    (closed : s.least = 0 → nextKind w ≠ some .kwElse) : nextKind (t.words ++ w) ≠ some .kwElse := by
  induction t generalizing w with
  | expression e =>
    simp only [words, List.append_assoc]
    exact Expr.Canonical.startsNoElse canonical
  | statement t ih => exact ih canonical fun none => nomatch none
  | noDeclarations | noMethods => exact closed rfl
  | declare d ds ih =>
    simp only [words, List.append_assoc]
    exact ih canonical.1 fun none => nomatch none
  | _ => simp [words, nextKind, Word.mark]

/-! ## Reading back -/

/-- An expression is read up to a mark that is no operator. -/
lemma Expr.Canonical.readsTo (canonical : e.Canonical) (kind : TokenKind) (none : binding? kind = none)
    (other : kind ≠ .equal) : ReadsExpr (e.words ++ .mark kind :: w) e (.mark kind :: w) :=
  canonical.readsBack.upTo none other

section Clauses

variable {x : String} {value : Option (Expr .expression)}

lemma ClauseCanonical.reads (canonical : ClauseCanonical value) (stop : TokenKind) (none : binding? stop = none)
    (other : stop ≠ .equal) : ReadsClause stop (clauseWords stop value ++ w) value w := by
  cases value with
  | none => exact .none
  | some e =>
    have reads := (canonical e rfl).readsTo (w := w) stop none other
    simpa [clauseWords] using ReadsClause.some reads

lemma ClauseCanonical.readsBinding (canonical : ClauseCanonical value) :
    ReadsBinding (bindingWords x value ++ w) x value w := by
  cases value with
  | none => exact .none
  | some e =>
    have reads := (canonical e rfl).readsTo (w := w) .semicolon rfl (by decide)
    simpa [bindingWords] using ReadsBinding.some reads

lemma Initializer.Canonical.reads {first : Initializer} (canonical : first.Canonical) :
    Initializer.Reads (first.words ++ w) first w := by
  cases first with
  | none => exact .none
  | var x value => exact .var (ClauseCanonical.readsBinding canonical)
  | expression e =>
    have reads := Expr.Canonical.readsTo (w := w) canonical .semicolon rfl (by decide)
    simpa [Initializer.words] using Initializer.Reads.expression reads

end Clauses

/-- A sequence is never open to an `else`. -/
lemma Stmt.not_openEnded (t : Stmt s) (sequence : s.least = 0) : ¬t.openEnded = true := by
  cases t with
  | noDeclarations | declare | noMethods | method => exact Bool.false_ne_true
  | _ => cases sequence

/-- The words of a canonical phrase read as the phrase, if what comes after belongs to no part of it. -/
theorem Stmt.Canonical.reads {t : Stmt s} (canonical : t.Canonical)
    (noElse : t.openEnded = true → nextKind w ≠ some .kwElse) (ends : s.least = 0 → EndsBlock w) :
    Stmt.Reads (t.words ++ w) t w := by
  induction t generalizing w with
  | print e =>
    have reads := Expr.Canonical.readsTo (w := w) canonical .semicolon rfl (by decide)
    simpa [words] using Reads.print reads
  | expression e =>
    have reads := Expr.Canonical.readsTo (w := w) canonical .semicolon rfl (by decide)
    simpa [words] using Reads.expression reads
  | ret value =>
    have reads := ClauseCanonical.reads (w := w) canonical .semicolon rfl (by decide)
    exact .ret reads
  | ifThen c t ih =>
    have condition := canonical.1.readsTo (w := t.words ++ w) .rightParen rfl (by decide)
    have branch := ih canonical.2 (fun _ => noElse rfl) fun none => nomatch none
    simpa [words] using Reads.ifThen condition branch (noElse rfl)
  | ifElse c t e ih ih' =>
    have condition := canonical.1.readsTo (w := t.words ++ .mark .kwElse :: (e.words ++ w)) .rightParen rfl (by decide)
    have branch := ih (w := .mark .kwElse :: (e.words ++ w)) canonical.2.1
      (fun opened => nomatch canonical.2.2.1.symm.trans opened) fun none => nomatch none
    have otherwise := ih' canonical.2.2.2 noElse fun none => nomatch none
    simpa [words] using Reads.ifElse condition branch otherwise
  | whileLoop c body ih =>
    have condition := canonical.1.readsTo (w := body.words ++ w) .rightParen rfl (by decide)
    have inner := ih canonical.2 noElse fun none => nomatch none
    simpa [words] using Reads.whileLoop condition inner
  | forLoop first c step body ih =>
    have inner := ih canonical.2.2.2 noElse fun none => nomatch none
    have increment := canonical.2.2.1.reads (w := body.words ++ w) .rightParen rfl (by decide)
    have condition := canonical.2.1.reads (w := clauseWords .rightParen step ++ (body.words ++ w)) .semicolon rfl
      (by decide)
    have start := canonical.1.reads
      (w := clauseWords .semicolon c ++ (clauseWords .rightParen step ++ (body.words ++ w)))
    simpa [words] using Reads.forLoop start condition increment inner
  | block ds ih =>
    have inner := ih (w := .mark .rightBrace :: w) canonical (fun opened => absurd opened (not_openEnded _ rfl))
      fun _ => .inl rfl
    simpa [words] using Reads.block inner
  | statement t ih => exact .statement (ih canonical noElse fun none => nomatch none)
  | var x value => exact .var (ClauseCanonical.readsBinding canonical)
  | function x params body ih =>
    have inner := ih (w := .mark .rightBrace :: w) canonical (fun opened => absurd opened (not_openEnded _ rfl))
      fun _ => .inl rfl
    simpa [words] using Reads.function inner
  | cls x superclass ms ih =>
    have inner := ih (w := .mark .rightBrace :: w) canonical (fun opened => absurd opened (not_openEnded _ rfl))
      fun _ => .inl rfl
    simpa [words] using Reads.cls inner
  | noDeclarations => exact .noDeclarations (ends rfl)
  | declare d ds ih ih' =>
    have closed : nextKind w ≠ some .kwElse := by
      rcases ends rfl with next | next <;> rw [next] <;> decide
    have first := ih (w := ds.words ++ w) canonical.1
      (fun _ => Stmt.Canonical.startsNoElse canonical.2 fun _ => closed) fun none => nomatch none
    have others := ih' (w := w) canonical.2 (fun opened => absurd opened (not_openEnded _ rfl)) ends
    simpa [words] using Reads.declare first others
  | noMethods => exact .noMethods (ends rfl)
  | method x params body ms ih ih' =>
    have inner := ih (w := .mark .rightBrace :: (ms.words ++ w)) canonical.1
      (fun opened => absurd opened (not_openEnded _ rfl)) fun _ => .inl rfl
    have others := ih' (w := w) canonical.2 (fun opened => absurd opened (not_openEnded _ rfl)) ends
    simpa [words] using Reads.method inner others

/-- The words of a canonical program read as the program. -/
theorem Stmt.Canonical.reads_program {ds : Stmt .declarations} (canonical : ds.Canonical) :
    ReadsProgram (ds.words ++ [.mark .endOfInput]) ds :=
  ⟨_, canonical.reads (fun opened => absurd opened (ds.not_openEnded rfl)) fun _ => .inr rfl, rfl⟩

end Lox.Syntax
