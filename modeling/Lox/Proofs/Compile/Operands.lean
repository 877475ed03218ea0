import Lox.Proofs.Compile.Accesses
import Lox.Proofs.Decimal.Notation

/-!
# What operands select

The constants that the code of a function refers to, read off the tree of the program: the values of
its literals (`Word.Denotes`), the names of its globals, properties and methods, in the order in which
the code comes to them (`Function.atoms`).  The operands of the code select just these from the pool
(`compile_operands`).
-/

namespace Lox

/-- A constant that is no function. -/
inductive Atom where
  | number (x : Float)
  | text (x : String)

/-- The value of a constant that is no function. -/
def Constant.atom? : Constant → Option Atom
  | .number x => some (.number x)
  | .string object => some (.text object.content)
  | .prototype _ => none

/-- The operand of an instruction that selects a constant other than a function. -/
def Instr.operand? : Instr → Option UInt8
  | .constant index | .getGlobal index | .defineGlobal index | .setGlobal index
  | .getProperty index | .setProperty index | .getSuper index | .invoke index _
  | .superInvoke index _ | .makeClass index | .method index => some index
  | _ => none

/-- What the operands of instructions select from a pool. -/
def selectedFrom (pool : Array Constant) (is : List Instr) : List (Option Atom) :=
  (is.filterMap Instr.operand?).map fun index => pool[index.toNat]?.bind Constant.atom?

/-- What the operands of a function select. -/
def PrototypeOf.selected (p : Prototype) : List (Option Atom) := selectedFrom p.chunk.constants p.instrs

end Lox

namespace Lox.Syntax

open Compile

/-! ## Literals -/

/-- The atom of a literal. -/
def Word.literal? : Word → Option Atom
  | ⟨.number, text⟩ => some (.number (Decimal.read text))
  | ⟨.string, text⟩ => some (.text (unquote text))
  | _ => none

/-- What a literal stands for: the double nearest to the number, or the text between the quotes. -/
inductive Word.Denotes : Word → Atom → Prop where
  | number {text q rank} (numeral : Decimal.Numeral text.toList q) (nearest : Decimal.IsNearest (q * 2 ^ 1074) rank) :
      Denotes ⟨.number, text⟩ (.number (Decimal.ofRank rank))
  | string (content : List Char) :
      Denotes ⟨.string, String.ofList ('"' :: (content ++ ['"']))⟩ (.text (String.ofList content))

lemma unquote_quoted (content : List Char) :
    unquote (String.ofList ('"' :: (content ++ ['"']))) = String.ofList content := by
  rw [unquote, String.toList_ofList, List.tail_cons, List.dropLast_concat]

lemma Word.Denotes.literal? {w : Word} {a : Atom} (denotes : w.Denotes a) : w.literal? = some a := by
  cases denotes with
  | number numeral nearest =>
    rw [Word.literal?, (numeral.read_eq_iff nearest.bounded).2 nearest]
  | string content => rw [Word.literal?, unquote_quoted]

lemma Word.denotes_literal {w : Word} {a : Atom} (spells : Spells w.kind w.text.toList)
    (literal : w.literal? = some a) :
    w.Denotes a := by
  obtain ⟨kind, text⟩ := w
  have spells : Spells kind text.toList := spells
  unfold Word.literal? at literal
  split at literal
  · next text same =>
    obtain ⟨rfl, rfl⟩ := Word.mk.inj same
    obtain rfl := Option.some.inj literal
    obtain ⟨q, numeral⟩ := Decimal.numeral_of_spells spells
    exact .number numeral numeral.nearest
  · next text same =>
    obtain ⟨rfl, rfl⟩ := Word.mk.inj same
    obtain rfl := Option.some.inj literal
    obtain ⟨content, quoted⟩ := spells.quoted
    obtain rfl : text = String.ofList ('"' :: (content ++ ['"'])) := by rw [← quoted, String.ofList_toList]
    rw [unquote_quoted]
    exact .string content
  · cases literal

/-- The atom of a literal in a source is what the literal stands for. -/
lemma literal_iff {source : String} {t : Token} (there : t ∈ Token.scan source) (a : Atom) :
    t.word.literal? = some a ↔ t.word.Denotes a := by
  refine ⟨fun literal => ?_, Word.Denotes.literal?⟩
  have kind : t.kind = .number ∨ t.kind = .string := by
    unfold Word.literal? at literal
    split at literal
    · next same => exact .inl (congrArg Word.kind same)
    · next same => exact .inr (congrArg Word.kind same)
    · cases literal
  have text : t.word = ⟨t.kind, t.lexeme⟩ := by
    rcases kind with kind | kind <;> simp [Token.word, kind, TokenKind.hasText]
  rw [text] at literal ⊢
  refine Word.denotes_literal (Token.spells_of_mem there ?_ fun fault => ?_) literal <;>
    rcases kind with kind | kind <;> simp [kind]

/-! ## Atoms of a tree -/

/-- A global is looked up by its name. -/
def Variable.atoms : Variable → List Atom
  | .global x => [.text x]
  | .bound _ _ => []

/-- The atoms of an expression. -/
def Expr.atoms (env : Env) : {s : ExprSort} → Expr s → List Atom
  | _, .number text => (Word.literal? ⟨.number, text⟩).toList
  | _, .string text => (Word.literal? ⟨.string, text⟩).toList
  | _, .name x => (meaning x env).atoms
  | _, .assign x value => value.atoms env ++ (meaning x env).atoms
  | _, .this => (meaning "this" env).atoms
  | _, .superGet m => (meaning "this" env).atoms ++ ((meaning "super" env).atoms ++ [.text m])
  | _, .superCall m args =>
    (meaning "this" env).atoms ++ (args.atoms env ++ ((meaning "super" env).atoms ++ [.text m]))
  | _, .grouping e => e.atoms env
  | _, .unary _ e => e.atoms env
  | _, .binary _ l r => l.atoms env ++ r.atoms env
  | _, .and l r => l.atoms env ++ r.atoms env
  | _, .or l r => l.atoms env ++ r.atoms env
  | _, .call f args => f.atoms env ++ args.atoms env
  | _, .get e p => e.atoms env ++ [.text p]
  | _, .set e p value => e.atoms env ++ (value.atoms env ++ [.text p])
  | _, .invoke e p args => e.atoms env ++ (args.atoms env ++ [.text p])
  | _, .someArguments args => args.atoms env
  | _, .lastArgument e => e.atoms env
  | _, .argument e args => e.atoms env ++ args.atoms env
  | _, _ => []

/-- The atoms of an expression that may be missing. -/
def clauseAtoms (env : Env) (e : Option (Expr .expression)) : List Atom := e.elim [] (Expr.atoms env)

/-- The atoms of the first clause of a for loop. -/
def Initializer.atoms (env : Env) : Initializer → List Atom
  | .none => []
  | .var _ value => clauseAtoms env value
  | .expression e => e.atoms env

/-- A global is defined under its name. -/
def definedAtoms (top : Bool) (x : String) : List Atom := if top then [.text x] else []

/-- The atoms of a phrase, in functions with the names `around`. -/
def Stmt.atoms (around : Env) (top : Bool) : {s : StmtSort} → List String → Stmt s → List Atom
  | _, names, .print e => e.atoms (names :: around)
  | _, names, .expression e => e.atoms (names :: around)
  | _, _, .ret none => []
  | _, names, .ret (some e) => e.atoms (names :: around)
  | _, names, .ifThen c t => c.atoms (names :: around) ++ t.atoms around false names
  | _, names, .ifElse c t e =>
    c.atoms (names :: around) ++ (t.atoms around false names ++ e.atoms around false names)
  | _, names, .whileLoop c body => c.atoms (names :: around) ++ body.atoms around false names
  | _, names, .forLoop (.var x value) c step body =>
    let looping := (x :: names) :: around
    clauseAtoms (names :: around) value ++ (clauseAtoms looping c ++ (clauseAtoms looping step ++
      body.atoms around false (x :: x :: names)))
  | _, names, .forLoop first c step body =>
    first.atoms (names :: around) ++ (clauseAtoms (names :: around) c ++
      (clauseAtoms (names :: around) step ++ body.atoms around false names))
  | _, names, .block ds => ds.atoms around false names
  | _, names, .statement s => s.atoms around top names
  | _, names, .var x value => clauseAtoms (names :: around) value ++ definedAtoms top x
  | _, _, .function x _ _ => definedAtoms top x
  | _, names, .cls x none ms =>
    .text x :: (definedAtoms top x ++ ((meaning x (declared top x names :: around)).atoms ++
      ms.atoms around false (declared top x names)))
  | _, names, .cls x (some y) ms =>
    let inside := "super" :: declared top x names
    .text x :: (definedAtoms top x ++ ((meaning y (declared top x names :: around)).atoms ++
      ((meaning x (inside :: around)).atoms ++ ((meaning x (inside :: around)).atoms ++
        ms.atoms around false inside))))
  | _, names, .declare d ds => d.atoms around top names ++ ds.atoms around top (d.after top names)
  | _, names, .method x _ _ ms => .text x :: ms.atoms around top names
  | _, _, _ => []

/-- The atoms of the code of a function. -/
def Function.atoms (f : Function) : List Atom := f.body.atoms f.around f.top f.names

/-! ## Pieces of code -/

variable {Γ : Context} {L : List Local}

/-- A captured variable is no global. -/
lemma captured_bound {x : String} {captures : Array Capture} {around : List Scope} {index : UInt8}
    (h : CapturedAs x captures around index) :
    ∃ outwards place, meaning x (around.map (namesOf ·.locals)) = .bound outwards place := by
  induction h with
  | here _ found => exact ⟨0, _, meaning_here _ found⟩
  | further _ missing _ ih =>
    obtain ⟨outwards, place, bound⟩ := ih
    exact ⟨outwards + 1, place, by rw [List.map_cons, meaning_further _ missing, bound, Variable.outside]⟩

/-- The operands of instructions of a context select these atoms. -/
def Selects (Γ : Context) (is : List Instr) (atoms : List Atom) : Prop :=
  selectedFrom Γ.constants is = atoms.map some

namespace Selects

variable {is js : List Instr} {atoms atoms' : List Atom} {i : Instr} {index : UInt8} {x : String}
  {place : Access}

lemma nil (Γ : Context) : Selects Γ [] [] := rfl

lemma append (first : Selects Γ is atoms) (second : Selects Γ js atoms') :
    Selects Γ (is ++ js) (atoms ++ atoms') := by
  unfold Selects selectedFrom at *
  rw [List.filterMap_append, List.map_append, first, second, List.map_append]

/-- An instruction without such an operand. -/
lemma cons (other : i.operand? = none) (rest : Selects Γ is atoms) : Selects Γ (i :: is) atoms := by
  unfold Selects selectedFrom at *
  rw [List.filterMap_cons_none other, rest]

/-- Instructions without such operands. -/
lemma none (others : ∀ i ∈ is, i.operand? = none) : Selects Γ is [] := by
  unfold Selects selectedFrom
  rw [List.filterMap_eq_nil_iff.2 others]
  rfl

lemma andThen (first : Selects Γ is atoms) (others : ∀ i ∈ js, i.operand? = Option.none) :
    Selects Γ (is ++ js) atoms := by
  have both := first.append (none others)
  rwa [List.append_nil] at both

/-- An instruction that selects an atom. -/
lemma one {atom : Atom} (operand : i.operand? = some index)
    (entry : Γ.constants[index.toNat]?.bind Constant.atom? = some atom) : Selects Γ [i] [atom] := by
  unfold Selects selectedFrom
  rw [List.filterMap_cons_some operand, List.filterMap_nil, List.map_cons, entry]
  rfl

lemma named (operand : i.operand? = some index) (constant : Γ.IsName index x) :
    Selects Γ [i] [.text x] := by
  obtain ⟨object, entry, rfl⟩ := constant
  refine one operand ?_
  rw [entry]
  rfl

/-- Where a name leads, the code looks up a global by its name. -/
lemma access (leads : Resolves Γ L x place) :
    Selects Γ [place.read] (meaning x (namesOf L :: Γ.env)).atoms ∧
      Selects Γ [place.write] (meaning x (namesOf L :: Γ.env)).atoms := by
  cases leads with
  | slot found fits =>
    rw [meaning_here _ found]
    exact ⟨rfl, rfl⟩
  | captured missing chain =>
    obtain ⟨outwards, slot, bound⟩ := captured_bound chain
    rw [meaning_further _ missing, Context.env, bound]
    exact ⟨rfl, rfl⟩
  | globalName missing nowhere constant =>
    rw [meaning_further _ missing, Context.env, meaning_nowhere nowhere]
    exact ⟨named rfl constant, named rfl constant⟩

lemma literal {kind : TokenKind} (word : leading? kind = some (.literal i)) : Selects Γ [i] [] := by
  cases kind <;> cases word <;> rfl

lemma unary {op : TokenKind} (word : leading? op = some (.unary i)) : Selects Γ [i] [] := by
  cases op <;> cases word <;> rfl

lemma binary {op : TokenKind} {p : Precedence} (word : trailing? op = some (p, .binary is)) :
    Selects Γ is [] := by
  cases op <;> cases word <;> rfl

/-- The operands in the code of an expression select its atoms. -/
theorem expression {s : ExprSort} {e : Expr s} {code : List Instr} (h : e.Emits Γ L code) :
    Selects Γ code (e.atoms (namesOf L :: Γ.env)) := by
  induction h with
  | number constant => exact one rfl (by rw [constant]; rfl)
  | string constant => exact named rfl constant
  | noArguments => exact nil Γ
  | literal word => exact literal word
  | name leads | this leads => exact (access leads).1
  | assign _ leads ih => exact ih.append (access leads).2
  | superGet constant self leads =>
    exact (access self).1.append ((access leads).1.append (named rfl constant))
  | superCall constant self _ leads _ _ ih =>
    exact (access self).1.append (ih.append ((access leads).1.append (named rfl constant)))
  | grouping _ ih | someArguments _ ih | lastArgument _ ih => exact ih
  | unary word _ ih => exact (ih.append (unary word)).trans (by rw [List.append_nil]; rfl)
  | binary word _ _ ih ih' =>
    have both := ih.append (ih'.append (binary word))
    rwa [List.append_nil] at both
  | and _ _ _ ih ih' => exact ih.append (.cons rfl (.cons rfl ih'))
  | or _ _ _ ih ih' => exact ih.append (.cons rfl (.cons rfl (.cons rfl ih')))
  | call _ _ _ ih ih' => exact ih.append (ih'.andThen (by simp [Instr.operand?]))
  | get _ constant ih => exact ih.append (named rfl constant)
  | set _ constant _ ih ih' | invoke _ constant _ _ ih ih' => exact ih.append (ih'.append (named rfl constant))
  | argument _ _ ih ih' => exact ih.append ih'

lemma clause {c : Option (Expr .expression)} {code : Option (List Instr)}
    (h : ClauseEmits Γ L c code) : Selects Γ (code.getD []) (clauseAtoms (namesOf L :: Γ.env) c) := by
  cases h with
  | none => exact nil Γ
  | some inner => exact expression inner

lemma value {value : Option (Expr .expression)} (h : ValueEmits Γ L value is) :
    Selects Γ is (clauseAtoms (namesOf L :: Γ.env) value) := by
  cases h with
  | none => exact cons rfl (nil Γ)
  | some inner => exact expression inner

lemma initializer {first : Initializer} (h : first.Emits Γ L is) :
    Selects Γ is (first.atoms (namesOf L :: Γ.env)) := by
  cases h with
  | none => exact nil Γ
  | expression inner => exact (expression inner).andThen (by simp [Instr.operand?])

lemma binds {top : Bool} {L' : List Local} (h : Binds Γ L x top is L') :
    Selects Γ is (definedAtoms top x) := by
  cases h with
  | global constant => exact named rfl constant
  | slot => exact nil Γ

lemma returns (Γ : Context) (kind : BodyKind) : Selects Γ (returnCode kind) [] := by
  cases kind <;> rfl

lemma exits_none (inner : List Local) : ∀ i ∈ exits inner, i.operand? = Option.none := by
  intro i there
  obtain ⟨v, -, rfl⟩ := List.mem_map.1 there
  split <;> rfl

/-- A loop selects what its condition, its increment and its body select. -/
lemma loop {c step : Option (List Instr)} {body : List Item} {atoms'' : List Atom}
    (cond : Selects Γ (c.getD []) atoms) (advance : Selects Γ (step.getD []) atoms')
    (inner : Selects Γ (instrs body) atoms'') :
    Selects Γ (instrs (loopItems L c step body)) (atoms ++ (atoms' ++ atoms'')) := by
  have condition : ∀ n, Selects Γ (conditionCode step n c) atoms := by
    intro n
    cases c with
    | none => exact cond
    | some is => exact cond.andThen (by simp [Instr.operand?])
  have increment : Selects Γ (incrementCode c step) atoms' := by
    cases step with
    | none => exact advance
    | some is => exact .cons rfl (advance.andThen (by simp [Instr.operand?]))
  have exit : ∀ i ∈ exitCode c, i.operand? = Option.none := by
    cases c <;> simp [exitCode, Instr.operand?]
  rw [loopItems, instrs_append, instrs_append, instrs_under, instrs_under, List.append_assoc]
  refine (condition _).append (increment.append (inner.andThen fun i there => ?_))
  rcases List.mem_cons.1 there with rfl | there
  · rfl
  · exact exit i there

end Selects

/-! ## Statements -/

/-- The operands in the code of a phrase select its atoms. -/
theorem Stmt.Emits.selects {top : Bool} {s : StmtSort} {t : Stmt s} {L' : List Local}
    {items : List Item} (h : t.Emits Γ top L items L') (proper : t.Proper) :
    Selects Γ (instrs items) (t.atoms Γ.env top (namesOf L)) ∧ namesOf L' = t.after top (namesOf L) := by
  refine ⟨?_, (h.agrees proper).2⟩
  induction h with
  | print inner | expression inner =>
    rw [instrs_framed, instrs_under]
    exact (Selects.expression inner).andThen (by simp [Instr.operand?])
  | retNone =>
    rw [instrs_framed, instrs_under]
    exact .returns _ _
  | retSome _ _ inner =>
    rw [instrs_framed, instrs_under]
    exact (Selects.expression inner).andThen (by simp [Instr.operand?])
  | ifThen condition _ _ ih =>
    rw [instrs_framed, instrs_append, instrs_append, instrs_under, instrs_under]
    exact .append ((Selects.expression condition).andThen (by simp [Instr.operand?]))
      ((ih proper.2).andThen (by simp [Instr.operand?]))
  | ifElse condition _ _ _ _ ih ih' =>
    rw [instrs_framed, instrs_append, instrs_append, instrs_append, instrs_under, instrs_under]
    exact .append ((Selects.expression condition).andThen (by simp [Instr.operand?]))
      ((ih proper.2.1).append (.cons rfl (.cons rfl (ih' proper.2.2))))
  | whileLoop condition _ _ ih =>
    rw [instrs_framed]
    exact @Selects.loop _ _ _ _ (some _) .none _ _ (.expression condition) (.nil _) (ih proper.2)
  | @forLoop _ _ L _ _ _ _ _ _ _ _ clause condition advance _ _ ih =>
    rw [instrs_framed, instrs_append, instrs_under]
    have code := (Selects.initializer clause).append
      (.loop (L := L) (.clause condition) (.clause advance) (ih proper.2.2.2))
    cases clause with
    | none | expression => exact code
  | @forVar Γ _ L x _ _ v _ _ _ _ w body items clause named copyNamed condition advance _ localsFit _ ih =>
    have inner := ih proper.2.2.2
    have looping : namesOf (v :: L) = x :: namesOf L := congrArg (· :: namesOf L) named
    have turning : namesOf (w :: v :: L) = x :: x :: namesOf L := by
      rw [← looping]
      exact congrArg (· :: namesOf (v :: L)) copyNamed
    have turn : Selects Γ (instrs (copyItems (v :: L) L.length w items))
        (body.atoms Γ.env false (namesOf (w :: v :: L))) := by
      rw [copyItems, instrs_append, instrs_append, instrs_append, instrs_under, instrs_under,
        instrs_under]
      have back : ∀ i ∈ [Instr.getLocal (UInt8.ofNat (v :: L).length),
          .setLocal (UInt8.ofNat L.length), .pop] ++ exits [w], i.operand? = none :=
        List.forall_mem_append.2 ⟨by simp [Instr.operand?], Selects.exits_none [w]⟩
      exact .cons rfl (inner.andThen back)
    have loop := Selects.loop (L := v :: L) (.clause condition) (.clause advance) turn
    have code := (Selects.value clause).append (loop.andThen (Selects.exits_none [v]))
    rw [instrs_framed, instrs_append, instrs_append, instrs_under, instrs_under]
    rw [looping, turning] at code
    exact code
  | block _ ih =>
    rw [instrs_framed, instrs_append, instrs_under]
    exact (ih proper).andThen (Selects.exits_none _)
  | statement _ ih => exact ih proper
  | var inner binds =>
    rw [instrs_framed, instrs_under]
    exact (Selects.value inner).append (.binds binds)
  | function binds =>
    rw [instrs_framed, instrs_under]
    exact .cons rfl (.binds binds)
  | cls constant binds leads inner ih =>
    obtain ⟨-, -, methods⟩ := proper
    have names := (Agrees.binds binds).2
    have pops : ∀ i ∈ [Instr.pop], i.operand? = Option.none := by simp [Instr.operand?]
    have code := (Selects.named (i := .makeClass _) rfl constant).append ((Selects.binds binds).append
      ((Selects.access leads).1.append ((ih methods).andThen pops)))
    rw [names] at code
    rw [instrs_framed, instrs_append, instrs_append, instrs_append, instrs_under, instrs_under,
      instrs_under]
    exact code
  | @subclass Γ _ _ _ _ _ _ _ L' _ hidden _ _ _ constant binds _ superclass named leads leads' _ _ ih =>
    obtain ⟨-, -, methods⟩ := proper
    have names := (Agrees.binds binds).2
    have leave : ∀ i ∈ [Instr.pop] ++ exits [hidden], i.operand? = none :=
      List.forall_mem_append.2 ⟨by simp [Instr.operand?], Selects.exits_none [hidden]⟩
    have body := (Selects.access leads').1.append ((ih methods).andThen leave)
    have inherits := (Selects.access leads).1.append (.cons (i := .inherit) rfl body)
    have code := (Selects.named (i := .makeClass _) rfl constant).append ((Selects.binds binds).append
      ((Selects.access superclass).1.append inherits))
    have within : namesOf (hidden :: L') = "super" :: declared _ _ (namesOf _) :=
      (congrArg (· :: namesOf L') named).trans (congrArg _ names)
    rw [within, names] at code
    rw [instrs_framed, instrs_append, instrs_append, instrs_append, instrs_append, instrs_append,
      instrs_under, instrs_under, instrs_under, instrs_under, instrs_under]
    exact code
  | noDeclarations | noMethods => exact .nil _
  | declare first _ ih ih' =>
    have others := ih' proper.2
    rw [(first.agrees proper.1).2] at others
    rw [instrs_append]
    exact (ih proper.1).append others
  | method constant _ _ _ _ _ _ _ ih =>
    rw [instrs_append, instrs_under]
    exact .cons rfl ((Selects.named (i := .method _) rfl constant).append (ih proper.2.2))

/-- The operands in the code of a function select its atoms. -/
lemma Implements.selects {further : List (List Capture)} {captures : List Capture} {q : Prototype}
    {f : Function} {start stop : List Local} {items : List Item}
    (h : Implements further captures q f Γ start items stop) : q.selected = f.atoms.map some := by
  have body := (h.emits.selects h.proper).1
  rw [h.env, h.entry] at body
  have code := body.append (.returns Γ Γ.kind)
  rw [List.append_nil] at code
  rw [PrototypeOf.selected, h.compiled.instrs, instrs_append, instrs_under, h.compiled.pool]
  exact code

end Lox.Syntax

namespace Lox

open Compile Syntax

/-- The functions in a source that compiles are those of its program, and the operands of each select
its literals and names. -/
theorem compile_operands {source : String} {strings : StringTable} {serial : Nat} {p : Prototype}
    (compiles : (compile source strings serial).outcome = .ok p) :
    ∃ ds, ReadsProgram ((Token.scan source).toList.map Token.word) ds ∧
      (∀ q, Contains p q → ∃ chain f, CodeOf p ds chain q f) ∧
      ∀ chain q f, CodeOf p ds chain q f → q.selected = f.atoms.map some := by
  obtain ⟨ds, reads, proper, script⟩ := compile_emits compiles
  refine ⟨ds, reads, fun q inside => CodeOf.script.contains script proper inside, ?_⟩
  intro chain q f code
  obtain ⟨captures, further, Γ, start, items, stop, rfl, implements⟩ :=
    code.implements script proper
  exact implements.selects

end Lox
