import Lox.Proofs.Compile.Building
import Lox.Proofs.Compile.Quiet
import Lox.Proofs.Compile.Reading
import Lox.Proofs.Compile.Invariant
import Lox.Proofs.Syntax.Unambiguity

/-!
# Reading is building

Where the words ahead read as a tree, the compiler does what building the tree does (`Fuses`), unless
there is something to complain of: then building complains, too.  So a source compiles if and only if
it reads as a program that can be built without complaints, and then to the same function.

The two go in step.  What the compiler asks of the next token is answered by the reading, and the
reading tells where the tokens stand after each part.
-/

namespace Lox.Compile

open Syntax

variable {α β : Type} {s : State} {ws mid rest : List Word}

/-! ## Actions that read nothing -/

/-- The action leaves the place among the tokens as it is. -/
class Still (act : Compiling α) : Prop where
  samePlace : ∀ s : State, SamePlace s (act s).2

lemma SamePlace.trans {s s' s'' : State} (h : SamePlace s s') (h' : SamePlace s' s'') :
    SamePlace s s'' :=
  ⟨h'.previous.trans h.previous, h'.current.trans h.current, h'.rest.trans h.rest,
    h'.budget.trans h.budget⟩

section Still

instance (a : α) : Still (pure a : Compiling α) := ⟨fun _ => {}⟩

lemma still_bind {act : Compiling α} {f : α → Compiling β} (first : Still act)
    (second : ∀ a, Still (f a)) : Still (act >>= f) :=
  ⟨fun s => (first.samePlace s).trans ((second (act s).1).samePlace (act s).2)⟩

instance (act : Compiling α) (f : α → Compiling β) [first : Still act]
    [second : ∀ a, Still (f a)] : Still (act >>= f) :=
  still_bind first second

instance : Still (get : Compiling State) := ⟨fun _ => {}⟩

instance (c : Prop) [Decidable c] (x y : Compiling α) [Still x] [Still y] :
    Still (if c then x else y) := by
  split <;> infer_instance

instance (l : List α) (f : α → Compiling PUnit) [∀ a, Still (f a)] : Still (l.forM f) := by
  induction l with
  | nil => exact inferInstanceAs (Still (pure ()))
  | cons a l ih => exact inferInstanceAs (Still (f a >>= fun _ => l.forM f))

instance (complaint : Complaint) : Still (complain complaint) :=
  ⟨fun s => s.samePlace_complainOf s.previous complaint⟩

instance (complaint : Complaint) : Still (complainHere complaint) :=
  ⟨fun s => s.samePlace_complainOf s.current complaint⟩

instance (fault : Fault) : Still (fail fault) := ⟨fun _ => {}⟩

instance (f : Body → Body) : Still (modifyBody f) := ⟨fun _ => {}⟩

instance (i : Instr) : Still (emit i) := ⟨fun _ => {}⟩

instance (content : String) : Still (internString content) := ⟨fun _ => {}⟩

instance (kind : BodyKind) (name : String) : Still (openBody kind name) := ⟨fun _ => {}⟩

instance (f : State → List Bool) :
    Still (modify fun s => { s with classes := f s } : Compiling Unit) := ⟨fun _ => {}⟩

instance (jump : UInt16 → Instr) : Still (emitJump jump) := by unfold emitJump; infer_instance

instance (site : JumpSite) : Still (land site) := by unfold land; infer_instance

instance (start : Nat) : Still (emitLoop start) := by unfold emitLoop; infer_instance

instance (c : Constant) : Still (makeConstant c) := by
  unfold makeConstant
  refine still_bind inferInstance fun s => ?_
  dsimp only
  split <;> infer_instance

instance (content : String) : Still (stringConstant content) := by
  unfold stringConstant; infer_instance

instance (c : Constant) : Still (emitConstant c) := by unfold emitConstant; infer_instance

instance : Still emitReturn := by unfold emitReturn; infer_instance

instance : Still beginScope := by unfold beginScope; infer_instance

instance : Still endScope := by unfold endScope; infer_instance

instance : Still takeBody where
  samePlace s := by
    unfold takeBody
    cases h : s.enclosing <;>
      simp only [modifyGet, MonadStateOf.modifyGet, StateT.modifyGet, h] <;>
      exact {}

instance : Still closeBody := by unfold closeBody; infer_instance

instance : Still closeFunction := by unfold closeFunction; infer_instance

lemma samePlace_complaints (complaints : List Complaint) :
    ∀ s : State, SamePlace s (complaints.foldl (fun s c => s.complainOf s.previous c) s) := by
  induction complaints with
  | nil => exact fun _ => {}
  | cons c complaints ih => exact fun s => (s.samePlace_complainOf _ c).trans (ih _)

instance (name : String) : Still (modifyGet (·.resolve name) : Compiling (Option Access)) where
  samePlace s := by
    show SamePlace s (s.resolve name).2
    obtain ⟨complaints, body, enclosing, eq⟩ := s.resolve_cases name
    rw [eq]
    have moved : SamePlace s { s with body, enclosing } := {}
    exact moved.trans (samePlace_complaints complaints _)

instance (name : String) : Still (access name) := by
  unfold access
  refine still_bind inferInstance fun place => ?_
  split <;> infer_instance

instance (name : String) : Still (readVariable name) := by unfold readVariable; infer_instance

instance (name : String) : Still (addLocal name) := by unfold addLocal; infer_instance

instance : Still markInitialized := by unfold markInitialized; infer_instance

instance (constant : UInt8) : Still (defineVariable constant) := by
  unfold defineVariable; infer_instance

instance (x : String) : Still (declareName x) := by unfold declareName; infer_instance

instance (word : Option Leading) : Still (emitWord word) := by
  unfold emitWord
  split <;> infer_instance

instance (word : Option (Precedence × Trailing)) : Still (emitOperator word) := by
  unfold emitOperator
  split <;> infer_instance

instance : Still checkSuper := by
  unfold checkSuper
  refine still_bind inferInstance fun s => ?_
  split <;> infer_instance

instance : Still readThis := by unfold readThis; infer_instance

instance (count : Nat) : Still (checkArgument count) := by unfold checkArgument; infer_instance

instance (count : Nat) : Still (checkParameter count) := by unfold checkParameter; infer_instance

instance : Still checkInside := by unfold checkInside; infer_instance

instance : Still checkPlain := by unfold checkPlain; infer_instance

instance : Still lastSlot := by unfold lastSlot; infer_instance

instance : Still loopVariable := by unfold loopVariable; infer_instance

instance (exit : Option JumpSite) : Still (forExit exit) := by
  cases exit <;> unfold forExit <;> infer_instance

instance : Still leaveClass := by unfold leaveClass; infer_instance

end Still

/-! ## Where the tokens stand -/

/-- These words are ahead, up to the end of the source, and none of them is malformed. -/
structure State.Faces (s : State) (ws : List Word) : Prop where
  words : s.words = ws
  fed : s.Fed
  proper : ∀ t ∈ s.current :: s.rest, ∀ fault, t.kind ≠ .malformed fault
  sane : s.Sane

lemma State.Faces.still (h : s.Faces ws) (act : Compiling α) [still : Still act] [Careful act] :
    (act s).2.Faces ws := by
  have same := still.samePlace s
  refine ⟨?_, same.fed h.fed, ?_, (worsens act s).sane h.sane⟩
  · rw [State.words, same.current, same.rest]
    exact h.words
  · rw [same.current, same.rest]
    exact h.proper

/-- The kind of the next token. -/
lemma State.Faces.kind (h : s.Faces ws) : nextKind ws = some s.current.kind := by
  rw [← h.words]
  rfl

lemma State.Faces.length (h : s.Faces ws) : ws.length = s.rest.length + 1 := by
  rw [← h.words, State.words, List.length_map, List.length_cons]

/-- The loops may turn once for each word. -/
lemma State.Faces.budget (h : s.Faces ws) : ws.length ≤ s.budget := by
  rw [h.length]
  exact h.fed.budget

/-- Before the end of the source, the next word can be read. -/
lemma State.Faces.advance {w : Word} (h : s.Faces (w :: ws)) (before : w.kind ≠ .endOfInput) :
    (advance s).2.Faces ws ∧ (advance s).2.previous.word = w := by
  obtain ⟨here, ahead⟩ := List.cons.inj h.words
  obtain rfl : s.current.word = w := here
  cases rest : s.rest with
  | nil => exact absurd (h.fed.ends.atEnd.2 rest) before
  | cons t ts =>
    have proper := h.proper t (by rw [rest]; exact List.mem_cons_of_mem _ List.mem_cons_self)
    have state : (Compile.advance s).2 = { s with previous := s.current, current := t, rest := ts } := by
      show State.settle { s with previous := s.current } s.rest = _
      rw [rest]
      unfold State.settle
      split
      · next fault kind => exact absurd kind (proper fault)
      · rfl
    have fed := (onward_advance s).fed h.fed
    have sane := (worsens Compile.advance s).sane h.sane
    rw [state] at fed sane ⊢
    refine ⟨⟨?_, fed, fun t' there => ?_, sane⟩, rfl⟩
    · rw [rest] at ahead
      exact ahead
    · exact h.proper t' (by rw [rest]; exact List.mem_cons_of_mem _ there)

/-! ## Going in step -/

/-- Something has been complained of. -/
def State.Complained (s : State) : Prop := s.diagnostics ≠ #[]

lemma complained_after (act : Compiling α) [Careful act] (h : s.Complained) :
    (act s).2.Complained :=
  (worsens act s).complaints h

/-- Two actions do the same, and then these words are left; or both complain. -/
def Fuses (act act' : Compiling α) (s : State) (rest : List Word) : Prop :=
  (act s).2.Complained ∧ (act' s).2.Complained ∨ act s = act' s ∧ (act' s).2.Faces rest

namespace Fuses

variable {act act' : Compiling α} {f f' : α → Compiling β}

lemma bind [∀ a, Careful (f a)] [∀ a, Careful (f' a)] (first : Fuses act act' s mid)
    (second : ∀ a t, t.Faces mid → Fuses (f a) (f' a) t rest) :
    Fuses (act >>= f) (act' >>= f') s rest := by
  rcases first with ⟨left, right⟩ | ⟨same, faces⟩
  · exact Or.inl ⟨complained_after (f (act s).1) left, complained_after (f' (act' s).1) right⟩
  · show Fuses (fun _ => f (act s).1 (act s).2) (fun _ => f' (act' s).1 (act' s).2) s rest
    rw [same]
    exact second (act' s).1 (act' s).2 faces

/-- The actions start with the same one, which reads nothing. -/
lemma still [Still act] [Careful act] (faces : s.Faces ws)
    (second : ∀ a t, t.Faces ws → Fuses (f a) (f' a) t rest) :
    Fuses (act >>= f) (act >>= f') s rest :=
  second _ _ (faces.still act)

/-- The actions are the same one, which reads nothing. -/
lemma same (act : Compiling α) [Still act] [Careful act] (faces : s.Faces ws) : Fuses act act s ws :=
  Or.inr ⟨rfl, faces.still act⟩

/-- The actions start by reading the next word. -/
lemma advance {f f' : Unit → Compiling β} {w : Word} (before : w.kind ≠ .endOfInput)
    (faces : s.Faces (w :: ws))
    (second : ∀ t, t.Faces ws → t.previous.word = w → Fuses (f ()) (f' ()) t rest) :
    Fuses (Compile.advance >>= f) (Compile.advance >>= f') s rest :=
  second _ (faces.advance before).1 (faces.advance before).2

lemma advanceLast {w : Word} (before : w.kind ≠ .endOfInput) (faces : s.Faces (w :: ws)) :
    Fuses Compile.advance Compile.advance s ws :=
  Or.inr ⟨rfl, (faces.advance before).1⟩

lemma left (act : Compiling α) {first : Compiling α} (same : first s = act s) (h : Fuses act act' s rest) :
    Fuses first act' s rest := by
  unfold Fuses
  rw [same]
  exact h

/-- Looking at the state reads nothing. -/
lemma getLeft {f : State → Compiling α} (h : Fuses (f s) act' s rest) :
    Fuses (get >>= f) act' s rest := h

lemma getBoth {f f' : State → Compiling α} (h : Fuses (f s) (f' s) s rest) :
    Fuses (get >>= f) (get >>= f') s rest := h

/-- Where the next word is this one, the choice reads it. -/
lemma accept {f : Bool → Compiling β} {f' : Unit → Compiling β} {kind : TokenKind} {text : String}
    (before : kind ≠ .endOfInput) (faces : s.Faces (⟨kind, text⟩ :: ws))
    (second : ∀ t, t.Faces ws → t.previous.word = ⟨kind, text⟩ →
      Fuses (f true) (f' ()) t rest) :
    Fuses (Compile.accept kind >>= f) (Compile.advance >>= f') s rest := by
  have found : s.current.kind = kind := (Option.some.inj faces.kind).symm
  exact left (Compile.advance >>= fun _ => f true) (accept_found found)
    (advance before faces second)

/-- Where the next word is another one, the choice reads nothing. -/
lemma refuse {f : Bool → Compiling β} {act' : Compiling β} {kind : TokenKind}
    (faces : s.Faces ws) (other : nextKind ws ≠ some kind) (second : Fuses (f false) act' s rest) :
    Fuses (Compile.accept kind >>= f) act' s rest := by
  have missing : s.current.kind ≠ kind := by
    intro found
    rw [faces.kind, found] at other
    exact other rfl
  exact left _ (accept_missing missing) second

/-- Where the next word is the expected one, it is read. -/
lemma expect {f f' : Unit → Compiling β} {what : String} {kind : TokenKind} {text : String}
    (before : kind ≠ .endOfInput) (faces : s.Faces (⟨kind, text⟩ :: ws))
    (second : ∀ t, t.Faces ws → t.previous.word = ⟨kind, text⟩ → Fuses (f ()) (f' ()) t rest) :
    Fuses (Compile.expect kind what >>= f) (Compile.advance >>= f') s rest := by
  have found : s.current.kind = kind := (Option.some.inj faces.kind).symm
  refine left (Compile.advance >>= f) ?_ (advance before faces second)
  show f (Compile.expect kind what s).1 (Compile.expect kind what s).2 = _
  rw [expect_found found]
  rfl

lemma expectLast {what : String} {kind : TokenKind} {text : String} (before : kind ≠ .endOfInput)
    (faces : s.Faces (⟨kind, text⟩ :: ws)) :
    Fuses (Compile.expect kind what) Compile.advance s ws := by
  have found : s.current.kind = kind := (Option.some.inj faces.kind).symm
  exact left _ (expect_found found) (advanceLast before faces)

/-- Both complain. -/
lemma fails [Careful act] [Careful act'] (h : s.Complained) : Fuses act act' s rest :=
  Or.inl ⟨complained_after act h, complained_after act' h⟩

/-- Nothing is assigned to. -/
lemma unassigned {f : Bool → Compiling Unit} {act' : Compiling Unit} {canAssign : Bool}
    (faces : s.Faces ws) (ends : ¬(canAssign = true ∧ nextKind ws = some .equal))
    (second : Fuses (f false) act' s rest) :
    Fuses (if canAssign = true then Compile.accept .equal >>= f else pure false >>= f) act' s
      rest := by
  cases canAssign with
  | false => exact second
  | true => exact refuse faces (fun equal => ends ⟨rfl, equal⟩) second

lemma refuseNesting (sane : s.Sane) : Fuses Compile.refuseNesting Compile.refuseNesting s rest := by
  have complained : (complainHere .tooDeep s).2.Complained :=
    s.diagnostics_complainOf _ _ sane
  exact Or.inl ⟨complained_after Compile.advance complained, complained_after Compile.advance complained⟩

end Fuses

end Lox.Compile

namespace Lox.Syntax

open Compile

variable {ws mid rest : List Word}

/-! ## Expressions -/

/-- The compiler and building go in step on an operand. -/
def OperandFused (canAssign : Bool) (ws : List Word) (e : Expr .expression) (rest : List Word) :
    Prop :=
  ∃ w ws' start, ∃ build : Nat → Compiling Unit,
    ws = w :: ws' ∧ leading? w.kind = some start ∧ (∀ n, Careful (build n)) ∧
      (∀ n, e.build n 0 = advance >>= fun _ => build n) ∧
      ∀ n s, s.Faces ws' → s.previous.word = w →
        Fuses (readLeading (level n) canAssign start) (build n) s rest

/-- They go in step on an operand with the operators after it. -/
def OperatorsFused (least : Precedence) (ws : List Word) (e : Expr .expression)
    (rest : List Word) : Prop :=
  ∀ n s, s.Faces ws → Fuses ((level n).operators least) (e.expression n) s rest

/-- They go in step on the operators after `left`. -/
def AfterFused (least : Precedence) (left : Expr .expression) (ws : List Word)
    (e : Expr .expression) (rest : List Word) : Prop :=
  ∃ build : Nat → Compiling Unit,
    (∀ n, Careful (build n)) ∧ (∀ n, e.build n 0 = left.build n 0 >>= fun _ => build n) ∧
      ∀ n fuel s, s.Faces ws → ws.length ≤ fuel →
        Fuses (trailingOperators (level n) least (Goal.canAssign least) fuel) (build n) s rest

/-- They go in step on arguments up to the closing parenthesis. -/
def ArgumentListFused (ws : List Word) (args : Expr .argumentList) (rest : List Word) : Prop :=
  ∀ n s, s.Faces ws →
    Fuses (argumentList (level n)) (do args.build n 0; advance; return argumentCount args) s rest

/-- They go in step on arguments, whatever has been read before. -/
def ArgumentsFused (ws : List Word) (args : Expr .arguments) (rest : List Word) : Prop :=
  ∀ n count fuel s, s.Faces ws → ws.length ≤ fuel →
    Fuses (arguments (level n) fuel count) (do args.build n count; return count + args.count) s rest

/-- They go in step on what is read for a goal. -/
def Goal.Fused : {s : ExprSort} → Goal s → List Word → Expr s → List Word → Prop
  | _, .operand canAssign => OperandFused canAssign
  | _, .operators least => OperatorsFused least
  | _, .after least left => AfterFused least left
  | _, .argumentList => ArgumentListFused
  | _, .arguments => ArgumentsFused

/-- The text of a word is that of its token. -/
lemma lexeme_of_word {t : Token} {w : Word} (word : t.word = w) (text : w.kind.hasText = true) :
    t.lexeme = w.text := by
  subst word
  exact (if_pos text).symm

/-- An equals sign continues no operand. -/
lemma not_continues_equal {least : Precedence} (equal : nextKind ws = some .equal) :
    ¬Continues least ws := by
  rintro ⟨kind, p, next, word, -⟩
  obtain rfl := Option.some.inj (equal.symm.trans next)
  exact nomatch word

/-- Operators after an operand start with a word that continues it. -/
lemma Goal.Reads.continues {least : Precedence} {left e : Expr .expression}
    (h : (Goal.after least left).Reads ws e rest) : ws = rest ∨ Continues least ws := by
  cases h with
  | done => exact .inl rfl
  | call binds | get binds | set binds | invoke binds => exact .inr ⟨_, _, rfl, rfl, binds⟩
  | binary word binds => exact .inr ⟨_, _, rfl, binding?_binary word, binds⟩
  | and binds | or binds => exact .inr ⟨_, _, rfl, rfl, binds⟩

/-- What is not assigned to before the operators is not assigned to after them. -/
lemma Goal.Reads.unassigned {least : Precedence} {left e : Expr .expression}
    (h : (Goal.after least left).Reads ws e rest) (ends : nextKind rest ≠ some .equal) :
    nextKind ws ≠ some .equal := by
  rcases h.continues with rfl | continues
  · exact ends
  · exact fun equal => not_continues_equal equal continues

lemma number_fused (ca : Bool) (text : String) (ws : List Word) :
    OperandFused ca (⟨.number, text⟩ :: ws) (.number text) ws := by
  refine ⟨_, _, _, fun _ => emitConstant (.number (Decimal.read text)), rfl, rfl,
    fun _ => inferInstance, fun _ => rfl, fun n s faces word => ?_⟩
  obtain rfl : s.previous.lexeme = text := lexeme_of_word word rfl
  exact .getLeft (.same _ faces)

lemma string_fused (ca : Bool) (text : String) (ws : List Word) :
    OperandFused ca (⟨.string, text⟩ :: ws) (.string text) ws := by
  refine ⟨_, _, _, fun _ => internString (unquote text) >>= fun x => emitConstant (.string x),
    rfl, rfl, fun _ => inferInstance, fun _ => rfl, fun n s faces word => ?_⟩
  obtain rfl : s.previous.lexeme = text := lexeme_of_word word rfl
  have quoted := faces.fed.previous.string (congrArg Word.kind word)
  refine .getLeft ?_
  dsimp only
  rw [if_pos quoted]
  exact .same _ faces

lemma literal_fused {kind : TokenKind} {i : Instr} (word : value? kind = some i)
    (ca : Bool) (ws : List Word) : OperandFused ca (.mark kind :: ws) (.literal kind) ws := by
  have word := leading?_value.2 word
  refine ⟨_, _, _, fun _ => emit i, rfl, word, fun _ => inferInstance, fun n => ?_,
    fun n s faces _ => ?_⟩
  · unfold Expr.build
    rw [word]
    rfl
  · exact Fuses.same (emit i) faces

lemma name_fused {ca : Bool} {ws : List Word} (x : String)
    (ends : ¬(ca = true ∧ nextKind ws = some .equal)) :
    OperandFused ca (.name x :: ws) (.name x) ws := by
  refine ⟨_, _, _, fun _ => readVariable x, rfl, rfl, fun _ => inferInstance, fun _ => rfl,
    fun n s faces word => ?_⟩
  obtain rfl : s.previous.lexeme = x := lexeme_of_word word rfl
  refine .getLeft (.still faces fun place t faces => ?_)
  exact .unassigned faces ends (Fuses.same (emit place.read) faces)

lemma assign_fused {ws rest : List Word} {value : Expr .expression} (x : String)
    (inner : OperatorsFused .assignment ws value rest) :
    OperandFused true (.name x :: .mark .equal :: ws) (.assign x value) rest := by
  refine ⟨_, _, _, fun n => do
      let place ← access x
      advance
      value.expression n
      emit place.write,
    rfl, rfl, fun _ => inferInstance, fun _ => rfl, fun n s faces word => ?_⟩
  obtain rfl : s.previous.lexeme = x := lexeme_of_word word rfl
  refine .getLeft (.still faces fun place t faces => ?_)
  refine .accept nofun faces fun t faces _ => ?_
  exact .bind (inner n t faces) fun _ _ faces => .same _ faces

lemma this_fused (ca : Bool) (ws : List Word) :
    OperandFused ca (.mark .kwThis :: ws) .this ws := by
  refine ⟨_, _, _, fun _ => readThis, rfl, rfl, fun _ => inferInstance, fun _ => rfl,
    fun n s faces word => ?_⟩
  have text := faces.fed.previous.this (congrArg Word.kind word)
  refine .getBoth ?_
  split
  · exact .same _ faces
  · refine .getLeft ?_
    rw [text]
    exact .same _ faces

/-- Access to a method of the superclass, with the check for a class around as one action. -/
lemma superAccess_eq (inner : Level) :
    superAccess inner = checkSuper >>= fun _ => (do
      expect .dot "'.' after 'super'"
      expect .identifier "superclass method name"
      let name ← stringConstant (← get).previous.lexeme
      readVariable "this"
      if ← accept .leftParen then
        let count ← argumentList inner
        readVariable "super"
        emit (.superInvoke name count)
      else
        readVariable "super"
        emit (.getSuper name)) := by
  funext s
  obtain ⟨_, _, _, _, _, _, _, _, classes, _, _, _, _⟩ := s
  rcases classes with _ | ⟨_ | _, _⟩ <;> rfl

lemma superGet_fused {ws : List Word} (ca : Bool) (m : String)
    (ends : nextKind ws ≠ some .leftParen) :
    OperandFused ca (.mark .kwSuper :: .mark .dot :: .name m :: ws) (.superGet m) ws := by
  refine ⟨_, _, _, fun _ => do
      checkSuper
      advance
      advance
      let name ← stringConstant m
      readVariable "this"
      readVariable "super"
      emit (.getSuper name),
    rfl, rfl, fun _ => inferInstance, fun _ => rfl, fun n s faces _ => ?_⟩
  show Fuses (superAccess (level n)) _ s ws
  rw [superAccess_eq]
  refine .still faces fun _ t faces => .expect nofun faces fun t faces _ => ?_
  refine .expect nofun faces fun u here word => .getLeft ?_
  obtain rfl : u.previous.lexeme = m := lexeme_of_word word rfl
  refine .still here fun name t faces => .still faces fun _ t faces => ?_
  refine .refuse faces ends (.still faces fun _ _ faces => .same _ faces)

lemma superCall_fused {ws rest : List Word} {args : Expr .argumentList} (ca : Bool) (m : String)
    (inner : ArgumentListFused ws args rest) :
    OperandFused ca (.mark .kwSuper :: .mark .dot :: .name m :: .mark .leftParen :: ws)
      (.superCall m args) rest := by
  refine ⟨_, _, _, fun n => do
      checkSuper
      advance
      advance
      let name ← stringConstant m
      readVariable "this"
      advance
      let count ← (do args.build n 0; advance; return argumentCount args)
      readVariable "super"
      emit (.superInvoke name count),
    rfl, rfl, fun _ => inferInstance, fun _ => rfl, fun n s faces _ => ?_⟩
  show Fuses (superAccess (level n)) _ s rest
  rw [superAccess_eq]
  refine .still faces fun _ t faces => .expect nofun faces fun t faces _ => ?_
  refine .expect nofun faces fun u here word => .getLeft ?_
  obtain rfl : u.previous.lexeme = m := lexeme_of_word word rfl
  refine .still here fun name t faces => .still faces fun _ t faces => ?_
  refine .accept nofun faces fun t faces _ => ?_
  exact .bind (inner n t faces) fun _ _ faces => .same _ faces

lemma grouping_fused {ws rest : List Word} {e : Expr .expression} (ca : Bool)
    (inner : OperatorsFused .assignment ws e (.mark .rightParen :: rest)) :
    OperandFused ca (.mark .leftParen :: ws) (.grouping e) rest := by
  refine ⟨_, _, _, fun n => do e.expression n; advance, rfl, rfl, fun _ => inferInstance,
    fun _ => rfl, fun n s faces _ => ?_⟩
  exact .bind (inner n s faces) fun _ _ faces => .expectLast nofun faces

lemma unary_fused {op : TokenKind} {i : Instr} {ws rest : List Word} {e : Expr .expression}
    (ca : Bool) (word : unary? op = some i) (inner : OperatorsFused .unary ws e rest) :
    OperandFused ca (.mark op :: ws) (.unary op e) rest := by
  have word := leading?_unary.2 word
  refine ⟨_, _, _, fun n => do e.expression n; emit i, rfl, word, fun _ => inferInstance,
    fun n => ?_, fun n s faces _ => ?_⟩
  · unfold Expr.build
    rw [word]
    rfl
  · exact .bind (inner n s faces) fun _ _ faces => .same _ faces

/-! ### Operators -/

lemma operators_fused {least : Precedence} {ws mid rest : List Word} {left e : Expr .expression}
    (first : OperandFused (Goal.canAssign least) ws left mid) (others : AfterFused least left mid e rest)
    (ends : nextKind rest ≠ some .equal) : OperatorsFused least ws e rest := by
  obtain ⟨w, ws', start, operand, rfl, starts, careful, first_eq, first⟩ := first
  obtain ⟨tail, careful', others_eq, others⟩ := others
  intro n s faces
  cases n with
  | zero => exact .refuseNesting faces.sane
  | succ n =>
    have whole : e.expression (n + 1) = advance >>= fun _ => operand n >>= fun _ =>
        tail n >>= fun _ => pure () := by
      show e.build n 0 = _
      rw [others_eq, first_eq]
      rfl
    have before : w.kind ≠ .endOfInput := fun final => by rw [final] at starts; exact nomatch starts
    rw [whole]
    refine .advance before faces fun t faces word => .getLeft ?_
    rw [show t.previous.kind = w.kind from congrArg Word.kind word, starts]
    refine .bind (first n t faces word) fun _ t faces => .getLeft ?_
    refine .bind (others n t.budget t faces faces.budget) fun _ t faces => ?_
    exact .unassigned faces (fun equal => ends equal.2) (Fuses.same (pure ()) faces)

lemma done_fused {least : Precedence} {ws : List Word} (left : Expr .expression)
    (ends : ¬Continues least ws) : AfterFused least left ws left ws := by
  refine ⟨fun _ => pure (), fun _ => inferInstance, fun n => rfl, fun n fuel s faces enough => ?_⟩
  have nonempty := faces.length
  cases fuel with
  | zero => omega
  | succ fuel =>
    refine .getLeft ?_
    cases word : trailing? s.current.kind with
    | none => exact .same _ faces
    | some operator =>
      obtain ⟨p, t⟩ := operator
      have loose : ¬least ≤ p := fun binds => ends ⟨_, p, faces.kind, binding?_of_trailing word, binds⟩
      dsimp only
      rw [if_neg loose]
      exact .same _ faces

/-- An operator and what it continues with are one turn of the loop. -/
lemma turn_fused {least p : Precedence} {op : TokenKind} {t : Trailing} {ws mid rest : List Word}
    {left next e : Expr .expression} (word : trailing? op = some (p, t)) (binds : least ≤ p)
    (turn : Nat → Compiling Unit) [careful : ∀ n, Careful (turn n)]
    (turns : ∀ n, next.build n 0 = left.build n 0 >>= fun _ => advance >>= fun _ => turn n)
    (shorter : mid.length ≤ ws.length)
    (reads : ∀ n s, s.Faces ws →
      Fuses (readTrailing (level n) (Goal.canAssign least) p t) (turn n) s mid)
    (others : AfterFused least next mid e rest) : AfterFused least left (.mark op :: ws) e rest := by
  obtain ⟨tail, careful', others_eq, others⟩ := others
  refine ⟨fun n => advance >>= fun _ => turn n >>= fun _ => tail n, fun _ => inferInstance,
    fun n => ?_, fun n fuel s faces enough => ?_⟩
  · rw [others_eq, turns]
    rfl
  · cases fuel with
    | zero => exact absurd enough (Nat.not_succ_le_zero _)
    | succ fuel =>
      have kind : s.current.kind = op := (Option.some.inj faces.kind).symm
      have before : op ≠ .endOfInput := fun final => by rw [final] at word; exact nomatch word
      refine .getLeft ?_
      rw [kind, word]
      dsimp only
      rw [if_pos binds]
      refine .advance before faces fun t faces _ => ?_
      refine .bind (reads n t faces) fun _ t faces => ?_
      exact others n fuel t faces (Nat.le_trans shorter (Nat.le_of_succ_le_succ enough))

/-- Arguments and the closing parenthesis are not longer than what is left of the words. -/
lemma call_fused {least : Precedence} {ws mid rest : List Word} {left e : Expr .expression}
    {args : Expr .argumentList} (binds : least ≤ .call) (shorter : mid.length ≤ ws.length)
    (inner : ArgumentListFused ws args mid) (others : AfterFused least (.call left args) mid e rest) :
    AfterFused least left (.mark .leftParen :: ws) e rest :=
  turn_fused rfl binds
    (fun n => do
      let count ← (do args.build n 0; advance; return argumentCount args)
      emit (.call count))
    (fun _ => rfl) shorter
    (fun n s faces => .bind (inner n s faces) fun _ _ faces => .same _ faces) others

lemma get_fused {least : Precedence} {ws rest : List Word} {left e : Expr .expression} (p : String)
    (binds : least ≤ .call) (ends : ¬(Goal.canAssign least = true ∧ nextKind ws = some .equal))
    (uncalled : nextKind ws ≠ some .leftParen) (others : AfterFused least (.get left p) ws e rest) :
    AfterFused least left (.mark .dot :: .name p :: ws) e rest := by
  refine turn_fused rfl binds
    (fun n => do
      advance
      let name ← stringConstant p
      emit (.getProperty name))
    (fun _ => rfl) (Nat.le_succ _) (fun n s faces => ?_) others
  refine .expect nofun faces fun u here word => .getLeft ?_
  obtain rfl : u.previous.lexeme = p := lexeme_of_word word rfl
  refine .still here fun name t faces => .unassigned faces ends ?_
  exact .refuse faces uncalled (Fuses.same (emit (.getProperty name)) faces)

lemma set_fused {least : Precedence} {ws mid rest : List Word} {left e value : Expr .expression}
    (p : String) (binds : least ≤ .call) (assigns : Goal.canAssign least = true)
    (shorter : mid.length ≤ ws.length) (inner : OperatorsFused .assignment ws value mid)
    (others : AfterFused least (.set left p value) mid e rest) :
    AfterFused least left (.mark .dot :: .name p :: .mark .equal :: ws) e rest := by
  refine turn_fused rfl binds
    (fun n => do
      advance
      let name ← stringConstant p
      advance
      value.expression n
      emit (.setProperty name))
    (fun _ => rfl) (by simp only [List.length_cons]; omega) (fun n s faces => ?_) others
  refine .expect nofun faces fun u here word => .getLeft ?_
  obtain rfl : u.previous.lexeme = p := lexeme_of_word word rfl
  refine .still here fun name t faces => ?_
  rw [assigns]
  refine .accept nofun faces fun t faces _ => ?_
  exact .bind (inner n t faces) fun _ _ faces => .same _ faces

lemma invoke_fused {least : Precedence} {ws mid rest : List Word} {left e : Expr .expression}
    {args : Expr .argumentList} (p : String) (binds : least ≤ .call)
    (shorter : mid.length ≤ ws.length) (inner : ArgumentListFused ws args mid)
    (others : AfterFused least (.invoke left p args) mid e rest) :
    AfterFused least left (.mark .dot :: .name p :: .mark .leftParen :: ws) e rest := by
  refine turn_fused rfl binds
    (fun n => do
      advance
      let name ← stringConstant p
      advance
      let count ← (do args.build n 0; advance; return argumentCount args)
      emit (.invoke name count))
    (fun _ => rfl) (by simp only [List.length_cons]; omega) (fun n s faces => ?_) others
  refine .expect (by rintro ⟨⟩) faces fun u here word => .getLeft ?_
  obtain rfl : u.previous.lexeme = p := lexeme_of_word word rfl
  refine .still here fun name t faces => .unassigned faces (by simp [nextKind]) ?_
  refine .accept (by rintro ⟨⟩) faces fun t faces _ => ?_
  exact .bind (inner n t faces) fun _ _ faces => .same _ faces

lemma binary_fused {least p : Precedence} {op : TokenKind} {is : List Instr}
    {ws mid rest : List Word} {left right e : Expr .expression}
    (word : binary? op = some (p, is)) (binds : least ≤ p)
    (shorter : mid.length ≤ ws.length) (inner : OperatorsFused p.next ws right mid)
    (others : AfterFused least (.binary op left right) mid e rest) :
    AfterFused least left (.mark op :: ws) e rest := by
  have word := trailing?_binary.2 word
  refine turn_fused word binds (fun n => do right.expression n; is.forM emit) (fun n => ?_)
    shorter (fun n s faces => ?_) others
  · rw [Expr.build, word]
    rfl
  · exact .bind (inner n s faces) fun _ _ faces => .same _ faces

lemma and_fused {least : Precedence} {ws mid rest : List Word} {left right e : Expr .expression}
    (binds : least ≤ .and) (shorter : mid.length ≤ ws.length)
    (inner : OperatorsFused .and ws right mid) (others : AfterFused least (.and left right) mid e rest) :
    AfterFused least left (.mark .kwAnd :: ws) e rest := by
  refine turn_fused rfl binds
    (fun n => do
      let stop ← emitJump .jumpIfFalse
      emit .pop
      right.expression n
      land stop)
    (fun _ => rfl) shorter (fun n s faces => ?_) others
  refine .still faces fun stop t faces => .still faces fun _ t faces => ?_
  exact .bind (inner n t faces) fun _ _ faces => .same _ faces

lemma or_fused {least : Precedence} {ws mid rest : List Word} {left right e : Expr .expression}
    (binds : least ≤ .or) (shorter : mid.length ≤ ws.length)
    (inner : OperatorsFused .or ws right mid) (others : AfterFused least (.or left right) mid e rest) :
    AfterFused least left (.mark .kwOr :: ws) e rest := by
  refine turn_fused rfl binds
    (fun n => do
      let other ← emitJump .jumpIfFalse
      let stop ← emitJump .jump
      land other
      emit .pop
      right.expression n
      land stop)
    (fun _ => rfl) shorter (fun n s faces => ?_) others
  refine .still faces fun other t faces => .still faces fun stop t faces => ?_
  refine .still faces fun _ t faces => .still faces fun _ t faces => ?_
  exact .bind (inner n t faces) fun _ _ faces => .same _ faces

/-! ### Arguments -/

lemma noArguments_fused (ws : List Word) :
    ArgumentListFused (.mark .rightParen :: ws) .noArguments ws := by
  intro n s faces
  have kind : s.current.kind = .rightParen := (Option.some.inj faces.kind).symm
  refine .left (expect .rightParen "')' after arguments" >>= fun _ =>
    pure (argumentCount .noArguments)) ?_
    (.expect (show TokenKind.rightParen ≠ .endOfInput from nofun) faces fun _ faces _ => .same _ faces)
  show ((if decide (s.current.kind = .rightParen) = true then _ else _ : Compiling UInt8)) s = _
  rw [if_pos (decide_eq_true kind)]
  rfl

lemma someArguments_fused {ws rest : List Word} {args : Expr .arguments}
    (starts : nextKind ws ≠ some .rightParen)
    (inner : ArgumentsFused ws args (.mark .rightParen :: rest)) :
    ArgumentListFused ws (.someArguments args) rest := by
  intro n s faces
  have kind : s.current.kind ≠ .rightParen := fun closes => by
    rw [faces.kind, closes] at starts
    exact starts rfl
  have total : argumentCount (.someArguments args) = UInt8.ofNat (min (0 + args.count) maxArity) := by
    rw [Nat.zero_add]
    rfl
  rw [total]
  show Fuses _ ((do args.build n 0; return 0 + args.count) >>= fun count =>
    advance >>= fun _ => pure (UInt8.ofNat (min count maxArity))) s rest
  refine .left (arguments (level n) s.budget 0 >>= fun count =>
    expect .rightParen "')' after arguments" >>= fun _ => pure (UInt8.ofNat (min count maxArity)))
    ?_ (.bind (inner n 0 s.budget s faces faces.budget) fun count t faces =>
      .expect nofun faces fun _ faces _ => .same _ faces)
  show ((if decide (s.current.kind = .rightParen) = true then _ else _ : Compiling UInt8)) s = _
  rw [if_neg (by simpa using kind)]
  rfl

lemma arguments_succ (inner : Level) (fuel count : Nat) :
    arguments inner (fuel + 1) count = inner.expression >>= fun _ => checkArgument count >>= fun _ =>
      accept .comma >>= fun more =>
        if more = true then arguments inner fuel (count + 1) else pure (count + 1) := by
  rw [arguments]
  refine congrArg (inner.expression >>= ·) (funext fun _ => ?_)
  unfold checkArgument
  split <;> rfl

lemma lastArgument_fused {ws rest : List Word} {e : Expr .expression}
    (inner : OperatorsFused .assignment ws e rest) (ends : nextKind rest ≠ some .comma) :
    ArgumentsFused ws (.lastArgument e) rest := by
  intro n count fuel s faces enough
  have nonempty := faces.length
  cases fuel with
  | zero => omega
  | succ fuel =>
    rw [arguments_succ]
    show Fuses _ (e.expression n >>= fun _ => checkArgument count >>= fun _ => pure (count + 1)) s rest
    refine Fuses.bind (inner n s faces) fun _ t faces => .still faces fun _ t faces => ?_
    exact .refuse faces ends (Fuses.same (pure (count + 1)) faces)

lemma argument_fused {ws mid rest : List Word} {e : Expr .expression} {args : Expr .arguments}
    (shorter : mid.length < ws.length)
    (first : OperatorsFused .assignment ws e (.mark .comma :: mid))
    (others : ArgumentsFused mid args rest) : ArgumentsFused ws (.argument e args) rest := by
  intro n count fuel s faces enough
  cases fuel with
  | zero => omega
  | succ fuel =>
    have total : count + (Expr.argument e args).count = count + 1 + args.count := by
      simp only [Expr.count]
      omega
    rw [total, arguments_succ]
    show Fuses _ (e.expression n >>= fun _ => checkArgument count >>= fun _ => advance >>= fun _ =>
      args.build n (count + 1) >>= fun _ => pure (count + 1 + args.count)) s rest
    refine Fuses.bind (first n s faces) fun _ t faces => .still faces fun _ t faces => ?_
    refine .accept nofun faces fun t faces _ => ?_
    exact others n (count + 1) fuel t faces (by omega)

theorem Goal.Reads.fused {s : ExprSort} {g : Goal s} {ws rest : List Word} {e : Expr s}
    (h : g.Reads ws e rest) (ends : nextKind rest ≠ some .equal) : g.Fused ws e rest := by
  induction h with
  | number => exact number_fused _ _ _
  | string => exact string_fused _ _ _
  | literal word => exact literal_fused word _ _
  | name ends' => exact name_fused _ ends'
  | assign reads ih => exact assign_fused _ (ih ends)
  | this => exact this_fused _ _
  | superGet ends' => exact superGet_fused _ _ ends'
  | superCall reads ih => exact superCall_fused _ _ (ih ends)
  | grouping reads ih => exact grouping_fused _ (ih (by simp [nextKind]))
  | unary word reads ih => exact unary_fused _ word (ih ends)
  | operators first others ih ih' =>
    exact operators_fused (ih (others.unassigned ends)) (ih' ends) ends
  | done ends' => exact done_fused _ ends'
  | call binds reads others ih ih' =>
    exact call_fused binds (Nat.le_of_succ_le reads.length) (ih (others.unassigned ends)) (ih' ends)
  | get binds ends' uncalled others ih => exact get_fused _ binds ends' uncalled (ih ends)
  | set binds assigns reads others ih ih' =>
    exact set_fused _ binds assigns (Nat.le_of_succ_le reads.length) (ih (others.unassigned ends))
      (ih' ends)
  | invoke binds reads others ih ih' =>
    exact invoke_fused _ binds (Nat.le_of_succ_le reads.length) (ih (others.unassigned ends))
      (ih' ends)
  | binary word binds reads others ih ih' =>
    exact binary_fused word binds (Nat.le_of_succ_le reads.length) (ih (others.unassigned ends))
      (ih' ends)
  | and binds reads others ih ih' =>
    exact and_fused binds (Nat.le_of_succ_le reads.length) (ih (others.unassigned ends)) (ih' ends)
  | or binds reads others ih ih' =>
    exact or_fused binds (Nat.le_of_succ_le reads.length) (ih (others.unassigned ends)) (ih' ends)
  | noArguments => exact noArguments_fused _
  | someArguments reads ih =>
    exact someArguments_fused (StartsExpr.other reads.starts rfl) (ih (by simp [nextKind]))
  | lastArgument reads ends' ih => exact lastArgument_fused (ih ends) ends'
  | argument first others ih ih' =>
    have shorter := first.length
    simp only [Goal.least, List.length_cons] at shorter
    exact argument_fused (by omega) (ih (by simp [nextKind])) (ih' ends)

end Lox.Syntax
