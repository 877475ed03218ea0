import Lox.Proofs.Compile.Totality
import Lox.Proofs.Syntax.Coverage

/-!
# The order of complaints

A source is complained of from its beginning to its end (`compile_errors_ordered`), although some
complaints are about the token last read, some about the one to read next, and text that is no token is
found one token ahead.

Nothing has been complained of beyond the token to read next (`State.Ordered`).  Where the compilation
does not panic, nothing has been complained of beyond the token last read either (`State.CaughtUp`), so a
complaint about either of the two comes last.  The end of panicking spoils that; but then the next thing
is to read a token or to complain of the one ahead, and both of them make up for it (`CatchesUp`).
-/

namespace Lox

/-! ## The order of tokens -/

/-- A token stands no later in the source than another one. -/
structure Token.NotAfter (t u : Token) : Prop where
  start : t.start ≤ u.start
  line : t.line ≤ u.line

lemma Token.NotAfter.refl (t : Token) : t.NotAfter t := ⟨Nat.le_refl _, Nat.le_refl _⟩

lemma Token.NotAfter.trans {t u v : Token} (h : t.NotAfter u) (h' : u.NotAfter v) : t.NotAfter v :=
  ⟨Nat.le_trans h.start h'.start, Nat.le_trans h.line h'.line⟩

lemma Token.nth_notAfter (source : String) {j k : Nat} (le : j ≤ k) :
    (Token.nth source j).NotAfter (Token.nth source k) := by
  induction le with
  | refl => exact .refl _
  | @step k _ ih =>
    have first := Token.nth_stands_one source k
    have next := Token.nth_stands_one source (k + 1)
    have starts : (Token.nth source k).start ≤ (Token.nth source (k + 1)).start :=
      Nat.le_trans (Nat.le_add_right _ _) next.onward
    have stops : (Token.nth source k).stop ≤ (Token.nth source (k + 1)).stop :=
      Nat.le_trans next.onward (Nat.le_add_right _ _)
    refine ih.trans ⟨starts, ?_⟩
    rw [first.line, next.line]
    exact Nat.add_le_add_left ((List.take_sublist_take_left stops).count_le '\n') 1

/-- The tokens of a source are in order, and their lines count from one. -/
lemma Token.scan_ordered (source : String) :
    (Token.scan source).toList.Pairwise Token.NotAfter ∧
      ∀ t ∈ (Token.scan source).toList, 1 ≤ t.line := by
  obtain ⟨n, tokens, -⟩ := Token.nth_stands source
  rw [tokens]
  constructor
  · rw [List.pairwise_map]
    exact List.pairwise_lt_range.imp fun less => Token.nth_notAfter source (Nat.le_of_lt less)
  · intro t there
    obtain ⟨k, -, rfl⟩ := List.mem_map.1 there
    rw [(Token.nth_stands_one source k).line]
    exact Nat.le_add_right 1 _

end Lox

namespace Lox.Compile

variable {α β : Type} {source : List Token} {s : State}

/-! ## States whose complaints are in order -/

/-- The complaints are in order, and none of them is beyond the tokens `ts`, which are next. -/
structure State.Orderly (source ts : List Token) (s : State) : Prop where
  sorted : s.diagnostics.toList.Pairwise fun d e => d.token.NotAfter e.token
  found : ∀ d ∈ s.diagnostics.toList, d.token ∈ source
  reached : ∀ d ∈ s.diagnostics.toList, ∀ t ∈ ts, d.token.NotAfter t
  ahead : ts.Pairwise Token.NotAfter
  known : ∀ t ∈ ts, t ∈ source
  ends : Terminated ts

/-- The complaints are in order, and none of them is beyond the token to read next. -/
abbrev State.Ordered (source : List Token) (s : State) : Prop := s.Orderly source (s.current :: s.rest)

/-- The complaints are in order, and unless panicking none of them is beyond the token last read. -/
structure State.CaughtUp (source : List Token) (s : State) : Prop where
  ordered : s.Ordered source
  known_previous : s.panicking = false → s.previous ∈ source
  before : s.panicking = false → ∀ t ∈ s.current :: s.rest, s.previous.NotAfter t
  passed : s.panicking = false → ∀ d ∈ s.diagnostics.toList, d.token.NotAfter s.previous

/-- What is known of the order of complaints is known of a state that has the same course. -/
lemma SameCourse.caughtUp {s s' : State} (same : SameCourse s s') (h : s.CaughtUp source) :
    s'.CaughtUp source := by
  obtain ⟨previous, current, rest, -, panicking, diagnostics, -⟩ := same
  obtain ⟨⟨sorted, found, reached, ahead, known, ends⟩, known_previous, before, passed⟩ := h
  constructor
  · constructor <;> simpa only [current, rest, diagnostics]
  all_goals simpa only [previous, current, rest, panicking, diagnostics]

/-- A complaint about a token that is not before any other one complained of, and not beyond the ones
ahead, keeps the order. -/
lemma State.Orderly.complainOf {ts : List Token} (h : s.Orderly source ts) (token : Token)
    (complaint : Complaint)
    (place : s.panicking = false → token ∈ source ∧ (∀ t ∈ ts, token.NotAfter t) ∧
      ∀ d ∈ s.diagnostics.toList, d.token.NotAfter token) :
    (s.complainOf token complaint).Orderly source ts := by
  unfold State.complainOf
  split
  · exact h
  · next calm =>
    obtain ⟨known, before, after⟩ := place (Bool.eq_false_iff.2 calm)
    have all : ∀ {P : Diagnostic → Prop}, (∀ d ∈ s.diagnostics.toList, P d) → P ⟨token, complaint⟩ →
        ∀ d ∈ (s.diagnostics.push ⟨token, complaint⟩).toList, P d := by
      intro P old new d there
      rw [Array.toList_push, List.mem_append, List.mem_singleton] at there
      rcases there with there | rfl
      · exact old d there
      · exact new
    refine ⟨?_, all h.found known, all h.reached before, h.ahead, h.known, h.ends⟩
    rw [Array.toList_push, List.pairwise_append]
    refine ⟨h.sorted, List.pairwise_singleton _ _, fun d there e last => ?_⟩
    rw [List.mem_singleton.1 last]
    exact after d there

lemma State.complainOf_panicking (s : State) (token : Token) (complaint : Complaint) :
    (s.complainOf token complaint).panicking = true := by
  unfold State.complainOf
  split
  · assumption
  · rfl

/-- After a complaint about the token last read or the one to read next, the compilation panics. -/
lemma State.Ordered.complains (h : s.Ordered source) {token : Token} (complaint : Complaint)
    (place : s.panicking = false → token ∈ source ∧ (∀ t ∈ s.current :: s.rest, token.NotAfter t) ∧
      ∀ d ∈ s.diagnostics.toList, d.token.NotAfter token) :
    (s.complainOf token complaint).CaughtUp source := by
  have same := s.samePlace_complainOf token complaint
  have ordered := State.Orderly.complainOf h token complaint place
  have panics := s.complainOf_panicking token complaint
  refine ⟨?_, ?_, ?_, ?_⟩
  · unfold State.Ordered
    rw [same.current, same.rest]
    exact ordered
  all_goals
    intro calm
    rw [panics] at calm
    exact absurd calm (by decide)

lemma State.Ordered.complainsHere (h : s.Ordered source) (complaint : Complaint) :
    (s.complainOf s.current complaint).CaughtUp source := by
  refine h.complains complaint fun _ => ⟨h.known _ List.mem_cons_self, fun t there => ?_,
    fun d there => h.reached d there _ List.mem_cons_self⟩
  rcases List.mem_cons.1 there with rfl | later
  · exact .refl _
  · exact (List.pairwise_cons.1 h.ahead).1 t later

/-! ## Moving on -/

lemma State.settle_panicking (ts : List Token) :
    ∀ {s : State}, s.panicking = true → (s.settle ts).panicking = true := by
  induction ts with
  | nil => exact id
  | cons t ts ih =>
    intro s panics
    unfold State.settle
    split
    · exact ih (State.complainOf_panicking _ _ _)
    · exact panics

/-- Settling keeps the order.  Unless it comes to panic, it finds nothing to complain of. -/
lemma State.Orderly.settle (ts : List Token) :
    ∀ s : State, s.Orderly source ts → (s.settle ts).Ordered source ∧
      (s.settle ts).previous = s.previous ∧
      (∀ t ∈ (s.settle ts).current :: (s.settle ts).rest, t ∈ ts) ∧
      ((s.settle ts).panicking = false → (s.settle ts).diagnostics = s.diagnostics) := by
  induction ts with
  | nil => exact fun s h => h.ends.elim
  | cons t ts ih =>
    intro s h
    have first := (List.pairwise_cons.1 h.ahead).1
    unfold State.settle
    split
    · next fault kind =>
      have more : ts ≠ [] := by
        intro none
        have final := h.ends.atEnd.2 none
        rw [kind] at final
        exact nomatch final
      have rest : State.Orderly source ts { s with rest := ts } :=
        { h with
          reached := fun d there u later => h.reached d there u (List.mem_cons_of_mem _ later)
          ahead := (List.pairwise_cons.1 h.ahead).2
          known := fun u later => h.known u (List.mem_cons_of_mem _ later)
          ends := h.ends.tail more }
      have place := State.samePlace_complainOf { s with rest := ts } t (.lexical fault)
      have panics := State.complainOf_panicking { s with rest := ts } t (.lexical fault)
      obtain ⟨ordered, previous, later, quiet⟩ := ih _ (rest.complainOf t (.lexical fault) fun _ =>
        ⟨h.known t List.mem_cons_self, first, fun d there => h.reached d there t List.mem_cons_self⟩)
      refine ⟨ordered, previous.trans place.previous,
        fun u there => List.mem_cons_of_mem _ (later u there), fun calm => ?_⟩
      rw [State.settle_panicking ts panics] at calm
      exact absurd calm (by decide)
    · exact ⟨{ h with }, rfl, fun u there => there, fun _ => rfl⟩

/-- Reading a token catches up with the complaints. -/
lemma State.Ordered.advance (h : s.Ordered source) : (advance s).2.CaughtUp source := by
  have first := (List.pairwise_cons.1 h.ahead).1
  by_cases none : s.rest = []
  · rw [advance_nil none]
    refine ⟨{ h with }, fun _ => h.known _ List.mem_cons_self, fun _ t there => ?_,
      fun _ d there => h.reached d there _ List.mem_cons_self⟩
    rcases List.mem_cons.1 there with rfl | later
    · exact .refl _
    · exact first t later
  · have rest : State.Orderly source s.rest { s with previous := s.current } :=
      { h with
        reached := fun d there u later => h.reached d there u (List.mem_cons_of_mem _ later)
        ahead := (List.pairwise_cons.1 h.ahead).2
        known := fun u later => h.known u (List.mem_cons_of_mem _ later)
        ends := h.ends.tail none }
    obtain ⟨ordered, previous, later, quiet⟩ := State.Orderly.settle s.rest _ rest
    have state : (Compile.advance s).2 = State.settle { s with previous := s.current } s.rest := rfl
    rw [state]
    refine ⟨ordered, fun _ => ?_, fun _ t there => ?_, fun calm d there => ?_⟩
    · rw [previous]
      exact h.known _ List.mem_cons_self
    · rw [previous]
      exact first t (later t there)
    · rw [quiet calm] at there
      rw [previous]
      exact h.reached d there _ List.mem_cons_self

/-! ## Actions that keep up -/

/-- The later state has caught up with the complaints if the earlier one had. -/
def KeepsUp (source : List Token) (s s' : State) : Prop := s.CaughtUp source → s'.CaughtUp source

instance : Course (KeepsUp source) where
  same same := same.caughtUp
  trans h h' := h' ∘ h
  complains s token complaint place h := by
    rcases place with rfl | rfl
    · exact h.ordered.complains complaint fun calm => ⟨h.known_previous calm, h.before calm, h.passed calm⟩
    · exact h.ordered.complainsHere complaint
  fails _ _ h := ⟨{ h.ordered with }, h.known_previous, h.before, h.passed⟩
  advances _ h := h.ordered.advance

/-- The action catches up with the complaints. -/
class CatchesUp (source : List Token) (act : Compiling α) : Prop where
  step : ∀ s : State, s.Ordered source → (act s).2.CaughtUp source

/-- The actions for nested phrases catch up with the complaints. -/
class Level.CatchesUp (source : List Token) (inner : Level) : Prop where
  statement : Compile.CatchesUp source inner.statement
  operators : ∀ p, Compile.CatchesUp source (inner.operators p)

attribute [instance] Level.CatchesUp.statement Level.CatchesUp.operators

instance : CatchesUp source advance := ⟨fun _ h => h.advance⟩

instance (complaint : Complaint) : CatchesUp source (complainHere complaint) :=
  ⟨fun _ h => h.complainsHere complaint⟩

lemma catchesUp_bind {act : Compiling α} {f : α → Compiling β} (first : CatchesUp source act)
    (second : ∀ a, Follows (KeepsUp source) (f a)) : CatchesUp source (act >>= f) :=
  ⟨fun s h => (second (act s).1).step _ (first.step s h)⟩

instance (act : Compiling α) (f : α → Compiling β) [first : CatchesUp source act]
    [second : ∀ a, Follows (KeepsUp source) (f a)] : CatchesUp source (act >>= f) :=
  catchesUp_bind first second

/-- Whether the token is there or missing, asking for it catches up. -/
instance (kind : TokenKind) (what : String) : CatchesUp source (expect kind what) := by
  refine ⟨fun s h => ?_⟩
  by_cases found : s.current.kind = kind
  · rw [expect_found found]
    exact h.advance
  · have complains : expect kind what s = complainHere (.expected what) s := by
      unfold expect
      show (if decide (s.current.kind = kind) = true then _ else _ : Compiling Unit) s = _
      rw [if_neg (by simpa using found)]
    rw [complains]
    exact h.complainsHere _

/-- Whether a choice reads the next token or goes the other way, it catches up. -/
lemma catchesUp_accept {kind : TokenKind} {f : Bool → Compiling β}
    (later : Follows (KeepsUp source) (f true)) (otherwise : CatchesUp source (f false)) :
    CatchesUp source (accept kind >>= f) := by
  refine ⟨fun s h => ?_⟩
  by_cases found : s.current.kind = kind
  · rw [accept_found found]
    exact later.step _ h.advance
  · rw [accept_missing found]
    exact otherwise.step s h

section Phrases

variable (inner : Level) [inner.Follows (KeepsUp source)] [inner.CatchesUp source]

instance : CatchesUp source inner.expression := Level.CatchesUp.operators _

instance (least : Precedence) : CatchesUp source (operatorsBody inner least) := by
  unfold operatorsBody
  refine catchesUp_bind inferInstance fun _ => follows_bind inferInstance fun s => ?_
  dsimp only
  split <;> infer_instance

/-! ## Declarations -/

lemma State.Ordered.skipToStatement (fuel : Nat) :
    ∀ {s : State}, s.Ordered source → (skipToStatement fuel s).2.Ordered source := by
  induction fuel with
  | zero => exact fun h => { h with }
  | succ fuel ih =>
    intro s h
    unfold Compile.skipToStatement
    show ((if _ then _ else _ : Compiling Unit) s).2.Ordered source
    split
    · exact h
    · exact ih h.advance.ordered

/-- A declaration may start where panicking has just stopped, and may leave such a place behind. -/
lemma State.Ordered.declaration (h : s.Ordered source) : (declaration inner s).2.Ordered source := by
  have stops : ∀ t : State, t.CaughtUp source →
      ((do if (← get).panicking then synchronize : Compiling Unit) t).2.Ordered source := by
    intro t caught
    show ((if t.panicking = true then synchronize else pure () : Compiling Unit) t).2.Ordered source
    split
    · exact State.Ordered.skipToStatement t.budget { caught.ordered with }
    · exact caught.ordered
  have after : ∀ (act : Compiling Unit) [Follows (KeepsUp source) act] {t : State}, t.CaughtUp source →
      ((do act; if (← get).panicking then synchronize : Compiling Unit) t).2.Ordered source :=
    fun act _ t caught => stops _ (Follows.step (R := KeepsUp source) t caught)
  unfold Compile.declaration
  by_cases cls : s.current.kind = .kwClass
  · rw [accept_found cls, if_pos rfl]
    dsimp only
    exact after (classDeclaration inner) h.advance
  rw [accept_missing cls]
  rw [if_neg Bool.false_ne_true]
  by_cases fn : s.current.kind = .kwFun
  · rw [accept_found fn, if_pos rfl]
    dsimp only
    exact after (functionDeclaration inner) h.advance
  rw [accept_missing fn]
  rw [if_neg Bool.false_ne_true]
  by_cases var : s.current.kind = .kwVar
  · rw [accept_found var, if_pos rfl]
    dsimp only
    exact after (variableDeclaration inner) h.advance
  rw [accept_missing var]
  rw [if_neg Bool.false_ne_true]
  have statement : CatchesUp source inner.statement := inferInstance
  exact stops _ (statement.step s h)

lemma State.Ordered.declarations (fuel : Nat) :
    ∀ {s : State}, s.Ordered source → (declarations inner fuel s).2.Ordered source := by
  induction fuel with
  | zero => exact fun h => { h with }
  | succ fuel ih =>
    intro s h
    unfold Compile.declarations
    by_cases closes : s.current.kind = .rightBrace ∨ s.current.kind = .endOfInput
    · rw [unlessEnd_done closes]
      exact h
    · obtain ⟨inside, before⟩ := not_or.1 closes
      rw [unlessEnd_going inside before]
      exact ih (h.declaration inner)

/-- At the end of a block its closing brace is read or complained of. -/
instance : CatchesUp source (blockBody inner) :=
  have closes : CatchesUp source (expect .rightBrace "'\x7d' after block") := inferInstance
  ⟨fun s h => closes.step _ (h.declarations inner s.budget)⟩

instance : Follows (KeepsUp source) (blockBody inner) :=
  ⟨fun s h => CatchesUp.step s h.ordered⟩

/-- A statement reads its first word, or an expression. -/
instance : CatchesUp source (statementBody inner) := by
  have reads : CatchesUp source (expressionStatement inner) := by
    unfold expressionStatement
    infer_instance
  unfold statementBody
  iterate 6
    refine catchesUp_accept inferInstance ?_
    rw [if_neg Bool.false_ne_true]
  exact reads

end Phrases

/-! ## Programs -/

instance : CatchesUp source refuseNesting := by unfold refuseNesting; infer_instance

/-- The actions of a level keep up with the complaints and catch up with them. -/
lemma level_order (source : List Token) (n : Nat) :
    (level n).Follows (KeepsUp source) ∧ (level n).CatchesUp source := by
  induction n with
  | zero =>
    have keeps : Follows (KeepsUp source) refuseNesting := inferInstance
    have catches : CatchesUp source refuseNesting := inferInstance
    exact ⟨⟨keeps, fun _ => keeps, keeps⟩, ⟨catches, fun _ => catches⟩⟩
  | succ n ih =>
    obtain ⟨keeps, catches⟩ := ih
    exact ⟨⟨inferInstanceAs (Follows (KeepsUp source) (statementBody (level n))),
        fun p => inferInstanceAs (Follows (KeepsUp source) (operatorsBody (level n) p)),
        inferInstanceAs (Follows (KeepsUp source) (blockBody (level n)))⟩,
      ⟨inferInstanceAs (CatchesUp source (statementBody (level n))),
        fun p => inferInstanceAs (CatchesUp source (operatorsBody (level n) p))⟩⟩

lemma State.Ordered.program (n fuel : Nat) :
    ∀ {s : State}, s.Ordered source → (program (level n) fuel s).2.Ordered source := by
  obtain ⟨keeps, catches⟩ := level_order source n
  induction fuel with
  | zero => exact fun h => { h with }
  | succ fuel ih =>
    intro s h
    by_cases ends : s.current.kind = .endOfInput
    · rw [program_done (level n) fuel ends]
      exact h.advance.ordered
    · rw [program_going (level n) fuel ends]
      exact ih (h.declaration (level n))

/-- The end of a script complains of nothing. -/
lemma diagnostics_closeBody (s : State) : (closeBody s).2.diagnostics = s.diagnostics := by
  have returns : (emitReturn s).2.diagnostics = s.diagnostics := by
    unfold emitReturn
    show ((if s.body.kind = .initializer then _ else _ : Compiling Unit) s).2.diagnostics = _
    split <;> rfl
  have takes : (takeBody (emitReturn s).2).2.diagnostics = (emitReturn s).2.diagnostics := by
    unfold takeBody
    cases h : (emitReturn s).2.enclosing <;>
      simp only [modifyGet, MonadStateOf.modifyGet, StateT.modifyGet, h] <;> rfl
  exact takes.trans returns

/-- Before the first token nothing has been complained of. -/
lemma ordered_start (source : String) (strings : StringTable) (serial : Nat) :
    (advance (State.start (Token.scan source) strings serial)).2.Ordered
      (Token.scan source).toList := by
  obtain ⟨ts, last, all, ends, others, -⟩ := Token.scan_spec source
  have terminated : Terminated (Token.scan source).toList := all ▸ terminated_concat ends others
  let start := State.start (Token.scan source) strings serial
  have none : start.diagnostics.toList = [] := rfl
  have orderly : State.Orderly (Token.scan source).toList (Token.scan source).toList
      { start with previous := start.current } := by
    refine ⟨?_, ?_, ?_, (Token.scan_ordered source).1, fun _ there => there, terminated⟩ <;> simp [none]
  exact (State.Orderly.settle _ _ orderly).1

end Lox.Compile

namespace Lox

open Compile

/-- A source does not compile if there is something to complain of. -/
lemma compile_error_iff {source : String} {strings : StringTable} {serial : Nat}
    {diagnostics : Array Diagnostic} :
    (compile source strings serial).outcome = .error diagnostics ↔
      diagnostics.isEmpty = false ∧
        (script (.start (Token.scan source) strings serial)).2.diagnostics = diagnostics := by
  unfold compile StateT.run
  generalize script (State.start (Token.scan source) strings serial) = result
  obtain ⟨p, s⟩ := result
  dsimp only
  split
  · next quiet =>
    refine ⟨fun fails => (by cases fails), fun ⟨some_, same⟩ => ?_⟩
    rw [← same, quiet] at some_
    cases some_
  · next some_ =>
    refine ⟨fun fails => ?_, fun h => congrArg _ h.2⟩
    obtain rfl := Except.error.inj fails
    exact ⟨Bool.eq_false_iff.2 some_, rfl⟩

/-- A source is complained of from its beginning to its end: the complaints are about tokens of the
source, each of which stands no earlier than the one before, and no earlier line is complained of after a
later one. -/
theorem compile_errors_ordered (source : String) (strings : StringTable) (serial : Nat)
    {diagnostics : Array Diagnostic}
    (fails : (compile source strings serial).outcome = .error diagnostics) :
    (∀ d ∈ diagnostics, d.token ∈ Token.scan source ∧ 1 ≤ d.line) ∧
      diagnostics.toList.Pairwise (fun d e => d.token.start ≤ e.token.start) ∧
      (diagnostics.toList.map Diagnostic.line).Pairwise (· ≤ ·) := by
  have final := (compile_error_iff.1 fails).2
  have ordered : (program (level maxNesting) _ (advance (State.start (Token.scan source) strings
      serial)).2).2.Ordered (Token.scan source).toList :=
    (ordered_start source strings serial).program maxNesting
      (advance (State.start (Token.scan source) strings serial)).2.budget
  have same := final.symm.trans (diagnostics_closeBody _)
  rw [same]
  refine ⟨fun d there => ?_, ordered.sorted.imp fun before => before.start, ?_⟩
  · have known := ordered.found d (Array.mem_toList_iff.2 there)
    exact ⟨Array.mem_toList_iff.1 known, (Token.scan_ordered source).2 _ known⟩
  · rw [List.pairwise_map]
    exact ordered.sorted.imp fun before => before.line

/-- Complaints about the token to read next, about text that is no token, and about the token last read. -/
theorem compile_errors_ordered_mixed :
    ∃ diagnostics : Array Diagnostic,
      (compile "var 1;\nprint a @ b;\nprint ) (" .empty 0).outcome = .error diagnostics ∧
      diagnostics.toList.map (fun d => (d.token.start, d.line)) = [(4, 1), (15, 2), (26, 3)] ∧
      diagnostics.toList.Pairwise (fun d e => d.token.start ≤ e.token.start) := by
  let s := (script (State.start (Token.scan "var 1;\nprint a @ b;\nprint ) (") .empty 0)).2
  have places : s.diagnostics.toList.map (fun d => (d.token.start, d.line)) =
      [(4, 1), (15, 2), (26, 3)] := by
    decide +kernel
  have fails := compile_error_iff.2 ⟨(by decide +kernel : s.diagnostics.isEmpty = false), rfl⟩
  exact ⟨_, fails, places, (compile_errors_ordered _ _ _ fails).2.1⟩

end Lox
