import Lox.Proofs.Compile.Heights
import Lox.Proofs.Syntax.Scoping

/-!
# Accesses to variables

The code of a function uses variables through slots, captures and names of globals.  Followed
outwards through the closures around it, every access means the variable that lexical scoping says
(`Prototype.accesses`, `compile_accesses`): the uses by the code are those of the function in the
tree, one after the other, and so are the functions that it makes closures of.
-/

namespace Lox

open Syntax

/-! ## What code refers to -/

/-- The instructions from an offset on, at most `fuel` of them. -/
def Chunk.instrsFrom {α : Type} [PoolEntry α] (c : Chunk α) : Nat → Nat → List Instr
  | 0, _ => []
  | fuel + 1, o =>
    if o < c.size then
      match c.instrAt? o with
      | none => []
      | some i => i :: c.instrsFrom fuel (o + i.size)
    else []

/-- The instructions of a function. -/
def PrototypeOf.instrs {α : Type} [PoolEntry α] (p : PrototypeOf α) : List Instr :=
  p.chunk.instrsFrom p.chunk.size 0

/-- The variable that a capture leads to, through the captures of the closures around, the innermost
first. -/
def captured? : List (List Capture) → UInt8 → Option Variable
  | [], _ => none
  | captures :: further, index =>
    match captures[index.toNat]? with
    | some ⟨true, slot⟩ => some (.bound 1 slot.toNat)
    | some ⟨false, outer⟩ => (captured? further outer).map Variable.outside
    | none => none

/-- The global whose name is the constant at an index. -/
def global? (pool : Array Constant) (index : UInt8) : Option Variable :=
  match pool[index.toNat]? with
  | some (.string s) => some (.global s.content)
  | _ => none

/-- The use of a variable that an instruction makes, if it is one of those that use variables. -/
def Instr.access? (pool : Array Constant) (chain : List (List Capture)) :
    Instr → Option (Option Use)
  | .getLocal slot => some (some (.read (.bound 0 slot.toNat)))
  | .setLocal slot => some (some (.write (.bound 0 slot.toNat)))
  | .getUpvalue index => some ((captured? chain index).map .read)
  | .setUpvalue index => some ((captured? chain index).map .write)
  | .getGlobal index => some ((global? pool index).map .read)
  | .setGlobal index => some ((global? pool index).map .write)
  | _ => none

/-- The closure that an instruction makes: its captures and its function. -/
def Instr.closure? (pool : Array Constant) : Instr → Option (List Capture × Prototype)
  | .closure index captures =>
    match pool[index.toNat]? with
    | some (.prototype p) => some (captures, p)
    | _ => none
  | _ => none

/-- The uses of variables by a function whose closures, and those around, have these captures. -/
def PrototypeOf.accesses (p : Prototype) (chain : List (List Capture)) : List (Option Use) :=
  p.instrs.filterMap (·.access? p.chunk.constants chain)

/-- The closures that a function makes. -/
def PrototypeOf.closures (p : Prototype) : List (List Capture × Prototype) :=
  p.instrs.filterMap (·.closure? p.chunk.constants)

/-- A prototype inside that of a script is the code of a function of the program, and closures of it
and of the functions around have these captures: each makes its closures in the order in which the
program declares the functions. -/
inductive CodeOf (p : Prototype) (ds : Stmt .declarations) :
    List (List Capture) → Prototype → Function → Prop where
  | script : CodeOf p ds [[]] p (.script ds)
  | inner {chain q f captures r g} {k : Nat} (outer : CodeOf p ds chain q f)
      (made : q.closures[k]? = some (captures, r)) (declared : f.functions[k]? = some g) :
      CodeOf p ds (captures :: chain) r g

/-! ## Decoding -/

lemma Splits.le {c : Chunk Constant} {o : Nat} {code : List (Nat × Instr)}
    (splits : Splits c o code) : o ≤ c.size := by
  induction splits with
  | done => exact Nat.le_refl _
  | next _ _ ih => omega

/-- There is only one way to split code. -/
lemma Splits.unique {c : Chunk Constant} {o : Nat} {code code' : List (Nat × Instr)}
    (splits : Splits c o code) (splits' : Splits c o code') : code = code' := by
  induction splits generalizing code' with
  | done =>
    generalize place : c.size = o at splits'
    cases splits' with
    | done => rfl
    | @next o i _ _ rest =>
      have bound := rest.le
      have pos := i.size_pos
      omega
  | @next o i code decoded rest ih =>
    generalize place : o = o' at splits'
    cases splits' with
    | done =>
      have bound := rest.le
      have pos := i.size_pos
      omega
    | @next _ i' code' decoded' rest' =>
      subst place
      obtain rfl := Option.some.inj (decoded.symm.trans decoded')
      rw [ih rest']

/-- Splitting code finds its instructions. -/
lemma Splits.instrsFrom {c : Chunk Constant} {o : Nat} {code : List (Nat × Instr)}
    (splits : Splits c o code) (fuel : Nat) (enough : c.size ≤ o + fuel) :
    c.instrsFrom fuel o = code.map Prod.snd := by
  induction splits generalizing fuel with
  | done =>
    cases fuel with
    | zero => rfl
    | succ fuel => exact if_neg (Nat.lt_irrefl _)
  | @next o i code decoded rest ih =>
    have pos := i.size_pos
    have bound := rest.le
    cases fuel with
    | zero => omega
    | succ fuel =>
      rw [Chunk.instrsFrom, if_pos (by omega), decoded]
      exact congrArg (i :: ·) (ih fuel (by omega))

lemma map_snd_placed (o : Nat) (is : List Instr) : (placed o is).map Prod.snd = is := by
  induction is generalizing o with
  | nil => rfl
  | cons i is ih => exact congrArg (i :: ·) (ih _)

namespace Compile

variable {p : Prototype} {Γ : Context} {start : List Local} {items : List Item}

/-- The code splits into the instructions that were emitted. -/
lemma Compiled.splits (h : Compiled p Γ start items) : Splits p.chunk 0 (placed 0 (Lox.instrs items)) := by
  refine splits_bytes h.code fun i there => ?_
  obtain ⟨before, after, split⟩ := List.append_of_mem there
  exact h.fitsPool split

/-- The decoder finds the instructions that were emitted. -/
lemma Compiled.instrs (h : Compiled p Γ start items) : p.instrs = Lox.instrs items := by
  rw [PrototypeOf.instrs, h.splits.instrsFrom _ (Nat.le_of_eq (Nat.zero_add _).symm), map_snd_placed]

/-! ## Where names lead -/

/-- The names in scope around a function. -/
def Context.env (Γ : Context) : Env := Γ.around.map (namesOf ·.locals)

/-- The captures of a function and of those around. -/
def Context.chain (Γ : Context) : List (List Capture) :=
  Γ.captures.toList :: Γ.around.map (·.captures.toList)

lemma placeOf?_namesOf (x : String) (L : List Local) :
    placeOf? x (namesOf L) = (findLocal? x L).map Prod.fst := by
  induction L with
  | nil => rfl
  | cons v outer ih =>
    rw [namesOf, List.map_cons, placeOf?, findLocal?, List.length_map]
    split
    · rfl
    · exact ih

lemma meaning_here {x : String} {L : List Local} {slot : Nat} {v : Local} (env : Env)
    (found : findLocal? x L = some (slot, v)) : meaning x (namesOf L :: env) = .bound 0 slot := by
  rw [meaning, placeOf?_namesOf, found]
  rfl

lemma meaning_further {x : String} {L : List Local} (env : Env) (missing : findLocal? x L = none) :
    meaning x (namesOf L :: env) = (meaning x env).outside := by
  rw [meaning, placeOf?_namesOf, missing]
  rfl

/-- A captured variable is the one that its name means outside. -/
lemma CapturedAs.captured? {x : String} {captures : Array Capture} {around : List Scope}
    {index : UInt8} (h : CapturedAs x captures around index) :
    Lox.captured? (captures.toList :: around.map (·.captures.toList)) index =
      some (meaning x (around.map (namesOf ·.locals))).outside := by
  induction h with
  | here entry found _ fits =>
    simp only [Lox.captured?, Array.getElem?_toList, entry, List.map_cons, meaning_here _ found,
      Variable.outside, UInt8.toNat_ofNat_of_lt' fits]
  | further entry missing _ ih =>
    rw [Lox.captured?, Array.getElem?_toList, entry]
    simp only [List.map_cons, meaning_further _ missing, ih, Option.map_some]

variable {L : List Local} {x : String} {place : Access}

/-- A name that leads nowhere is that of a global. -/
lemma meaning_nowhere {around : List Scope}
    (nowhere : ∀ scope ∈ around, findLocal? x scope.locals = none) :
    meaning x (around.map (namesOf ·.locals)) = .global x := by
  induction around with
  | nil => rfl
  | cons scope further ih =>
    rw [List.map_cons, meaning_further _ (nowhere scope List.mem_cons_self),
      ih fun s there => nowhere s (List.mem_cons_of_mem _ there)]
    rfl

/-- Where a name leads, the code uses the variable that the name means. -/
lemma Resolves.access? (leads : Resolves Γ L x place) :
    place.read.access? Γ.constants Γ.chain = some (some (.read (meaning x (namesOf L :: Γ.env)))) ∧
      place.write.access? Γ.constants Γ.chain =
        some (some (.write (meaning x (namesOf L :: Γ.env)))) := by
  cases leads with
  | slot found fits =>
    rw [meaning_here _ found, Access.read, Access.write, Instr.access?, Instr.access?,
      UInt8.toNat_ofNat_of_lt' fits]
    exact ⟨rfl, rfl⟩
  | captured missing chain =>
    rw [meaning_further _ missing, Access.read, Access.write, Instr.access?, Instr.access?,
      Context.chain, chain.captured?]
    exact ⟨rfl, rfl⟩
  | globalName missing nowhere constant =>
    obtain ⟨object, entry, content⟩ := constant
    rw [meaning_further _ missing, Context.env, meaning_nowhere nowhere, Access.read, Access.write,
      Instr.access?, Instr.access?, global?, entry, ← content]
    exact ⟨rfl, rfl⟩

end Compile

end Lox

namespace Lox.Syntax

open Compile

variable {Γ : Context} {L : List Local}

/-! ## Expressions -/

/-- The uses of variables by instructions of a context. -/
def accessesIn (Γ : Context) (is : List Instr) : List (Option Use) :=
  is.filterMap (·.access? Γ.constants Γ.chain)

@[simp] lemma accessesIn_nil (Γ : Context) : accessesIn Γ [] = [] := rfl

@[simp] lemma accessesIn_append (Γ : Context) (is js : List Instr) :
    accessesIn Γ (is ++ js) = accessesIn Γ is ++ accessesIn Γ js :=
  List.filterMap_append

lemma accessesIn_cons (Γ : Context) (i : Instr) (is : List Instr) :
    accessesIn Γ (i :: is) = accessesIn Γ [i] ++ accessesIn Γ is :=
  accessesIn_append Γ [i] is

/-- An instruction that uses no variable. -/
lemma accessesIn_other {i : Instr} (other : i.access? Γ.constants Γ.chain = none)
    (is : List Instr) : accessesIn Γ (i :: is) = accessesIn Γ is :=
  List.filterMap_cons_none other

lemma accessesIn_read {x : String} {place : Access} (leads : Resolves Γ L x place) :
    accessesIn Γ [place.read] = [some (.read (meaning x (namesOf L :: Γ.env)))] :=
  List.filterMap_cons_some leads.access?.1

lemma accessesIn_write {x : String} {place : Access} (leads : Resolves Γ L x place) :
    accessesIn Γ [place.write] = [some (.write (meaning x (namesOf L :: Γ.env)))] :=
  List.filterMap_cons_some leads.access?.2

lemma Instr.access?_literal {kind : TokenKind} {i : Instr} (word : leading? kind = some (.literal i)) :
    i.access? Γ.constants Γ.chain = none := by
  cases kind <;> cases word <;> rfl

lemma Instr.access?_unary {op : TokenKind} {i : Instr} (word : leading? op = some (.unary i)) :
    i.access? Γ.constants Γ.chain = none := by
  cases op <;> cases word <;> rfl

lemma accessesIn_binary {op : TokenKind} {p : Precedence} {is : List Instr}
    (word : trailing? op = some (p, .binary is)) : accessesIn Γ is = [] := by
  cases op <;> cases word <;> rfl

/-- The code of an expression uses the variables that its names mean. -/
theorem Expr.Emits.accesses {s : ExprSort} {e : Expr s} {code : List Instr} (h : e.Emits Γ L code) :
    accessesIn Γ code = (e.uses (namesOf L :: Γ.env)).map some := by
  induction h with
  | number | string | noArguments => rfl
  | literal word => exact accessesIn_other (Instr.access?_literal word) []
  | name leads | this leads => exact accessesIn_read leads
  | assign _ leads ih =>
    rw [accessesIn_append, ih, accessesIn_write leads, Expr.uses, List.map_append]
    rfl
  | superGet _ self leads =>
    rw [accessesIn_cons, accessesIn_read self, accessesIn_cons, accessesIn_read leads]
    rfl
  | superCall _ self _ leads _ _ ih =>
    rw [accessesIn_cons, accessesIn_read self, accessesIn_append, ih, accessesIn_cons,
      accessesIn_read leads, Expr.uses, List.map_cons, List.map_append]
    rfl
  | grouping _ ih | someArguments _ ih | lastArgument _ ih => exact ih
  | unary word _ ih =>
    rw [accessesIn_append, ih, accessesIn_other (Instr.access?_unary word), accessesIn_nil,
      List.append_nil, Expr.uses]
  | binary word _ _ ih ih' =>
    rw [accessesIn_append, accessesIn_append, ih, ih', accessesIn_binary word, List.append_nil,
      Expr.uses, List.map_append]
  | and _ _ _ ih ih' =>
    rw [accessesIn_append, ih, accessesIn_other rfl, accessesIn_other rfl, ih', Expr.uses,
      List.map_append]
  | or _ _ _ ih ih' =>
    rw [accessesIn_append, ih, accessesIn_other rfl, accessesIn_other rfl, accessesIn_other rfl, ih',
      Expr.uses, List.map_append]
  | call _ _ _ ih ih' | set _ _ _ ih ih' | invoke _ _ _ _ ih ih' =>
    rw [accessesIn_append, accessesIn_append, ih, ih', accessesIn_other rfl, accessesIn_nil,
      List.append_nil, Expr.uses, List.map_append]
  | get _ _ ih =>
    rw [accessesIn_append, ih, accessesIn_other rfl, accessesIn_nil, List.append_nil, Expr.uses]
  | argument _ _ ih ih' => rw [accessesIn_append, ih, ih', Expr.uses, List.map_append]

/-! ## Closures -/

/-- The closures that instructions of a context make. -/
def closuresIn (Γ : Context) (is : List Instr) : List (List Capture × Prototype) :=
  is.filterMap (·.closure? Γ.constants)

@[simp] lemma closuresIn_append (Γ : Context) (is js : List Instr) :
    closuresIn Γ (is ++ js) = closuresIn Γ is ++ closuresIn Γ js :=
  List.filterMap_append

lemma closuresIn_none {is : List Instr} (plain : NoClosures is) : closuresIn Γ is = [] := by
  refine List.filterMap_eq_nil_iff.2 fun i there => ?_
  have other := plain i there
  cases i with
  | closure => cases other
  | _ => rfl

/-- A prototype has the code of a function, in a context with the captures `captures`, and `chain`
around them. -/
structure Implements (chain : List (List Capture)) (captures : List Capture) (p : Prototype)
    (f : Function) (Γ : Context) (start : List Local) (items : List Item) (stop : List Local) :
    Prop where
  captures : Γ.captures.toList = captures
  chain : Γ.around.map (·.captures.toList) = chain
  env : Γ.env = f.around
  kind : Γ.kind = f.kind
  entry : namesOf start = f.names
  emits : f.body.Emits Γ f.top start items stop
  proper : f.body.Proper
  assembles : Assembles p f.name f.params.length Γ items stop
  compiled : Compiled p Γ start (items ++ under stop (returnCode Γ.kind))

/-- The closure made is one of the function, in some context. -/
def Makes (Γ : Context) (made : List Capture × Prototype) (f : Function) : Prop :=
  ∃ Γ' start items stop, Implements Γ.chain made.1 made.2 f Γ' start items stop

/-- A closure of a function inside another one is made of the code of that function. -/
lemma Inside.makes {kind : BodyKind} {Γ' : Context} {x : String} {params : List String}
    {body : Stmt .declarations} {start stop : List Local} {items : List Item} {p : Prototype}
    (inside : Inside Γ' kind Γ L) (inner : kind ≠ .script) (entry : ParameterLocals kind params start)
    (proper : ∀ y ∈ params, ProperName y) (emits : body.Emits Γ' false start items stop)
    (proper' : body.Proper) (assembles : Assembles p x params.length Γ' items stop) :
    Makes Γ (Γ'.captures.toList, p) ⟨kind, x, params, body, namesOf L :: Γ.env⟩ := by
  obtain ⟨rfl, around⟩ := inside
  have top : Function.top ⟨Γ'.kind, x, params, body, namesOf L :: Γ.env⟩ = false :=
    decide_eq_false inner
  exact ⟨Γ', start, items, stop, {
    captures := rfl
    chain := by rw [around]; rfl
    env := by rw [Context.env, around]; rfl
    kind := rfl
    entry := entry
    emits := by rw [top]; exact emits
    proper := proper'
    assembles := assembles
    compiled := .function inner entry proper emits proper' assembles }⟩

/-- What code uses and makes is what a phrase uses and declares. -/
structure Agrees (Γ : Context) (is : List Instr) (uses : List Use) (functions : List Function) :
    Prop where
  uses : accessesIn Γ is = uses.map some
  functions : List.Forall₂ (Makes Γ) (closuresIn Γ is) functions

/-! ## Pieces of code -/

namespace Agrees

variable {is js : List Instr} {uses uses' : List Use} {functions functions' : List Function}
  {L' : List Local} {x : String}

lemma plain (none : NoClosures is) (same : accessesIn Γ is = uses.map some) :
    Agrees Γ is uses [] :=
  ⟨same, by rw [closuresIn_none none]; exact .nil⟩

lemma append (first : Agrees Γ is uses functions) (second : Agrees Γ js uses' functions') :
    Agrees Γ (is ++ js) (uses ++ uses') (functions ++ functions') := by
  refine ⟨?_, ?_⟩
  · rw [accessesIn_append, first.uses, second.uses, List.map_append]
  · rw [closuresIn_append]
    exact List.rel_append first.functions second.functions

/-- Code that makes no closures before other code. -/
lemma before (first : Agrees Γ is uses []) (second : Agrees Γ js uses' functions) :
    Agrees Γ (is ++ js) (uses ++ uses') functions :=
  first.append second

/-- An instruction that neither uses a variable nor makes a closure. -/
lemma cons {i : Instr} (other : i.access? Γ.constants Γ.chain = none)
    (plain : i.closure? Γ.constants = none) (rest : Agrees Γ is uses functions) :
    Agrees Γ (i :: is) uses functions := by
  refine ⟨?_, ?_⟩
  · rw [accessesIn_other other]
    exact rest.uses
  · rw [closuresIn, List.filterMap_cons_none plain]
    exact rest.functions

lemma nil (Γ : Context) : Agrees Γ [] [] [] := ⟨rfl, .nil⟩

/-- Code that makes no closures after other code. -/
lemma followed (first : Agrees Γ is uses functions) (second : Agrees Γ js uses' []) :
    Agrees Γ (is ++ js) (uses ++ uses') functions := by
  have both := first.append second
  rwa [List.append_nil functions] at both

/-- Code that uses and makes nothing after other code. -/
lemma andThen (first : Agrees Γ is uses functions) (second : Agrees Γ js [] []) :
    Agrees Γ (is ++ js) uses functions := by
  have both := first.followed second
  rwa [List.append_nil] at both

lemma expression {s : ExprSort} {e : Expr s} (h : e.Emits Γ L is) :
    Agrees Γ is (e.uses (namesOf L :: Γ.env)) [] :=
  .plain h.noClosures h.accesses

lemma clause {c : Option (Expr .expression)} {code : Option (List Instr)}
    (h : ClauseEmits Γ L c code) :
    Agrees Γ (code.getD []) (clauseUses (namesOf L :: Γ.env) c) [] := by
  cases h with
  | none => exact .nil Γ
  | some inner => exact .expression inner

lemma value {value : Option (Expr .expression)} (h : ValueEmits Γ L value is) :
    Agrees Γ is (clauseUses (namesOf L :: Γ.env) value) [] := by
  cases h with
  | none => exact .cons rfl rfl (.nil Γ)
  | some inner => exact .expression inner

lemma initializer {first : Initializer} (h : first.Emits Γ L is) :
    Agrees Γ is (first.uses (namesOf L :: Γ.env)) [] := by
  cases h with
  | none => exact .nil Γ
  | expression inner => exact (expression inner).andThen (.cons rfl rfl (.nil Γ))

lemma read {place : Access} (leads : Resolves Γ L x place) :
    Agrees Γ [place.read] [.read (meaning x (namesOf L :: Γ.env))] [] :=
  .plain (noClosures_read _) (accessesIn_read leads)

lemma write {place : Access} (leads : Resolves Γ L x place) :
    Agrees Γ [place.write] [.write (meaning x (namesOf L :: Γ.env))] [] :=
  .plain (noClosures_write _) (accessesIn_write leads)

lemma binds {top : Bool} (h : Binds Γ L x top is L') :
    Agrees Γ is [] [] ∧ namesOf L' = declared top x (namesOf L) := by
  cases h with
  | global => exact ⟨.cons rfl rfl (.nil Γ), rfl⟩
  | slot named => exact ⟨.nil Γ, congrArg (· :: namesOf L) named⟩

lemma returns (Γ : Context) (kind : BodyKind) :
    Agrees Γ (returnCode kind) (leavingUses kind) [] := by
  cases kind <;> exact .plain (returnCode_noClosures _) rfl

lemma exits (Γ : Context) (inner : List Local) : Agrees Γ (exits inner) [] [] := by
  induction inner with
  | nil => exact .nil Γ
  | cons v inner ih =>
    rw [Syntax.exits, List.map_cons]
    cases v.isCaptured with
    | false | true => exact .cons rfl rfl ih

/-- A loop uses what its condition, its increment and its body use. -/
lemma loop {c step : Option (List Instr)} {body : List Item} {uses'' : List Use}
    (cond : Agrees Γ (c.getD []) uses []) (advance : Agrees Γ (step.getD []) uses' [])
    (inner : Agrees Γ (instrs body) uses'' functions) :
    Agrees Γ (instrs (loopItems L c step body)) (uses ++ (uses' ++ uses'')) functions := by
  have condition : ∀ n, Agrees Γ (conditionCode step n c) uses [] := by
    intro n
    cases c with
    | none => exact cond
    | some is => exact cond.andThen (.cons rfl rfl (.cons rfl rfl (.nil Γ)))
  have increment : Agrees Γ (incrementCode c step) uses' [] := by
    cases step with
    | none => exact advance
    | some is => exact .cons rfl rfl (advance.andThen (.cons rfl rfl (.cons rfl rfl (.nil Γ))))
  have exit : Agrees Γ (exitCode c) [] [] := by
    cases c with
    | none => exact .nil Γ
    | some is => exact .cons rfl rfl (.nil Γ)
  rw [loopItems, instrs_append, instrs_append, instrs_under, instrs_under, List.append_assoc]
  exact (condition _).before (increment.before (inner.andThen (.cons rfl rfl exit)))

/-- A closure and the instructions after it. -/
lemma closure {index : UInt8} {captures : List Capture} {p : Prototype} {f : Function}
    (constant : Γ.constants[index.toNat]? = some (.prototype p)) (makes : Makes Γ (captures, p) f)
    (rest : Agrees Γ is [] functions) :
    Agrees Γ (.closure index captures :: is) [] (f :: functions) := by
  refine ⟨?_, ?_⟩
  · rw [accessesIn_other rfl]
    exact rest.uses
  · have made : (Instr.closure index captures).closure? Γ.constants = some (captures, p) := by
      rw [Instr.closure?, constant]
    rw [closuresIn, List.filterMap_cons_some made]
    exact .cons makes rest.functions

end Agrees

/-! ## Statements -/

/-- Methods use variables in functions of their own only. -/
lemma Stmt.uses_methods (kind : BodyKind) (around : Env) (top : Bool) (names : List String)
    (ms : Stmt .methods) : ms.uses kind around top names = [] := by
  cases ms <;> rfl

/-- The code of a phrase uses the variables that the names in it mean, and makes closures of the
functions declared in it. -/
theorem Stmt.Emits.agrees {top : Bool} {s : StmtSort} {t : Stmt s} {L' : List Local}
    {items : List Item} (h : t.Emits Γ top L items L') (proper : t.Proper) :
    Agrees Γ (instrs items) (t.uses Γ.kind Γ.env top (namesOf L))
        (t.functions Γ.env top (namesOf L)) ∧
      namesOf L' = t.after top (namesOf L) := by
  induction h with
  | print inner | expression inner =>
    rw [instrs_framed, instrs_under]
    exact ⟨(Agrees.expression inner).andThen (.cons rfl rfl (.nil _)), rfl⟩
  | retNone =>
    rw [instrs_framed, instrs_under]
    exact ⟨.returns _ _, rfl⟩
  | retSome _ _ inner =>
    rw [instrs_framed, instrs_under]
    exact ⟨(Agrees.expression inner).andThen (.cons rfl rfl (.nil _)), rfl⟩
  | ifThen condition _ _ ih =>
    rw [instrs_framed, instrs_append, instrs_append, instrs_under, instrs_under]
    refine ⟨.before (.andThen (.expression condition) (.cons rfl rfl (.cons rfl rfl (.nil _))))
      ((ih proper.2).1.andThen (.cons rfl rfl (.cons rfl rfl (.nil _)))), rfl⟩
  | ifElse condition _ _ _ _ ih ih' =>
    rw [instrs_framed, instrs_append, instrs_append, instrs_append, instrs_under, instrs_under]
    refine ⟨.before (.andThen (.expression condition) (.cons rfl rfl (.cons rfl rfl (.nil _))))
      ((ih proper.2.1).1.append (.cons rfl rfl (.cons rfl rfl (ih' proper.2.2).1))), rfl⟩
  | whileLoop condition _ _ ih =>
    rw [instrs_framed]
    exact ⟨@Agrees.loop _ _ _ _ _ (some _) none _ _ (.expression condition) (.nil _)
      (ih proper.2).1, rfl⟩
  | @forLoop _ _ L _ _ _ _ _ _ _ _ clause condition advance _ _ ih =>
    rw [instrs_framed, instrs_append, instrs_under]
    have code := (Agrees.initializer clause).before
      (.loop (L := L) (.clause condition) (.clause advance) (ih proper.2.2.2).1)
    cases clause with
    | none | expression => exact ⟨code, rfl⟩
  | @forVar Γ _ L x _ _ v _ _ _ _ w _ items clause named copyNamed condition advance _ localsFit _ ih =>
    have inner := (ih proper.2.2.2).1
    have looping : namesOf (v :: L) = x :: namesOf L := congrArg (· :: namesOf L) named
    have turning : namesOf (w :: v :: L) = x :: x :: namesOf L := by
      rw [← looping]
      exact congrArg (· :: namesOf (v :: L)) copyNamed
    have outer : Resolves Γ (v :: L) x (.slot (UInt8.ofNat L.length)) :=
      .slot (findLocal?_head named) (Nat.lt_of_succ_lt localsFit)
    have copy : Resolves Γ (w :: v :: L) x (.slot (UInt8.ofNat (v :: L).length)) :=
      .slot (findLocal?_head copyNamed) localsFit
    have back := (Agrees.read copy).before
      ((Agrees.write outer).andThen (.cons (i := .pop) rfl rfl (.exits Γ [w])))
    have turn := (Agrees.read outer).before (inner.followed back)
    have loop := @Agrees.loop Γ (v :: L) _ _ _ _ _ (copyItems (v :: L) L.length w items) _
      (.clause condition) (.clause advance) (by
        rw [copyItems, instrs_append, instrs_append, instrs_append, instrs_under, instrs_under,
          instrs_under]
        exact turn)
    have code := (Agrees.value clause).before (loop.andThen (.exits Γ [v]))
    rw [instrs_framed, instrs_append, instrs_append, instrs_under, instrs_under]
    rw [looping, turning] at code
    exact ⟨code, rfl⟩
  | block _ ih =>
    rw [instrs_framed, instrs_append, instrs_under]
    exact ⟨(ih proper).1.andThen (.exits _ _), rfl⟩
  | statement _ ih =>
    rw [Stmt.uses, Stmt.functions]
    exact ⟨(ih proper).1, rfl⟩
  | var inner binds =>
    obtain ⟨define, names⟩ := Agrees.binds binds
    rw [instrs_framed, instrs_under]
    exact ⟨(Agrees.value inner).andThen define, names⟩
  | function binds inside entry inner constant assembles =>
    obtain ⟨-, params, body⟩ := proper
    obtain ⟨define, names⟩ := Agrees.binds binds
    have makes := inside.makes (by rintro ⟨⟩) entry params inner body assembles
    rw [names] at makes
    rw [instrs_framed, instrs_under]
    exact ⟨.closure constant makes define, names⟩
  | @cls _ _ _ _ _ index _ _ _ _ _ binds leads _ ih =>
    obtain ⟨-, -, methods⟩ := proper
    obtain ⟨define, names⟩ := Agrees.binds binds
    have inner := (ih methods).1
    rw [Stmt.uses_methods] at inner
    have code := Agrees.before (.cons (i := .makeClass index) rfl rfl define)
      ((Agrees.read leads).before (inner.andThen (.cons (i := .pop) rfl rfl (.nil _))))
    rw [names] at code
    rw [instrs_framed, instrs_append, instrs_append, instrs_append, instrs_under, instrs_under,
      instrs_under]
    exact ⟨code, names⟩
  | @subclass Γ _ _ _ _ _ index _ L' _ hidden _ _ _ _ binds _ superclass named leads leads' _ _ ih =>
    obtain ⟨-, -, methods⟩ := proper
    obtain ⟨define, names⟩ := Agrees.binds binds
    have inner := (ih methods).1
    rw [Stmt.uses_methods] at inner
    have leave := Agrees.cons (i := .pop) rfl rfl (.exits Γ [hidden])
    have body := (Agrees.read leads').before (inner.andThen leave)
    have inherits := (Agrees.read leads).before (.cons (i := .inherit) rfl rfl body)
    have code := Agrees.before (.cons (i := .makeClass index) rfl rfl define)
      ((Agrees.read superclass).before inherits)
    have within : namesOf (hidden :: L') = "super" :: declared _ _ (namesOf _) :=
      (congrArg (· :: namesOf L') named).trans (congrArg _ names)
    rw [within, names] at code
    rw [instrs_framed, instrs_append, instrs_append, instrs_append, instrs_append, instrs_append,
      instrs_under, instrs_under, instrs_under, instrs_under, instrs_under]
    exact ⟨code, names⟩
  | noDeclarations | noMethods => exact ⟨.nil _, rfl⟩
  | declare _ _ ih ih' =>
    obtain ⟨first, names⟩ := ih proper.1
    obtain ⟨others, names'⟩ := ih' proper.2
    rw [names] at others names'
    rw [instrs_append]
    exact ⟨first.append others, names'⟩
  | method _ inside entry inner constant assembles _ _ ih =>
    obtain ⟨params, body, methods⟩ := proper
    have kind : ∀ x, methodKind x ≠ .script := by
      intro x
      rw [methodKind]
      split <;> rintro ⟨⟩
    have makes := inside.makes (kind _) entry params inner body assembles
    have others := (ih methods).1
    rw [Stmt.uses_methods] at others
    rw [instrs_append, instrs_under]
    exact ⟨.closure constant makes (.cons (i := .method _) rfl rfl others), rfl⟩

/-! ## Whole functions -/

/-- The code of a function uses the variables that the names in it mean, and makes closures of the
functions declared in it. -/
lemma Implements.agrees {further : List (List Capture)} {captures : List Capture} {q : Prototype}
    {f : Function} {Γ : Context} {start stop : List Local} {items : List Item}
    (h : Implements further captures q f Γ start items stop) :
    Agrees Γ q.instrs f.uses f.functions := by
  have body := (h.emits.agrees h.proper).1
  rw [h.kind, h.env, h.entry] at body
  have leaves := Agrees.returns Γ f.kind
  rw [h.compiled.instrs, instrs_append, instrs_under, h.kind]
  exact body.followed leaves

end Lox.Syntax

namespace Lox

open Compile Syntax

/-- The code of a function has a context, with the captures of the closures. -/
theorem CodeOf.implements {p q : Prototype} {ds : Stmt .declarations} {chain : List (List Capture)}
    {f : Function} (code : CodeOf p ds chain q f) (script : ScriptEmits p ds) (proper : ds.Proper) :
    ∃ captures further Γ start items stop, chain = captures :: further ∧
      Implements further captures q f Γ start items stop := by
  induction code with
  | script =>
    obtain ⟨Γ, v, items, L, kind, around, named, emits, assembles⟩ := script
    have none : Γ.captures.size = 0 := by
      by_contra some
      obtain ⟨x, captured⟩ := assembles.captured 0 (Nat.pos_of_ne_zero some)
      rw [around] at captured
      cases captured
    exact ⟨[], [], Γ, [v], items, L, rfl, {
      captures := by rw [Array.eq_empty_of_size_eq_zero none]
      chain := by rw [around]; rfl
      env := by rw [Context.env, around]; rfl
      kind := kind
      entry := congrArg (· :: []) named
      emits := emits
      proper := proper
      assembles := assembles
      compiled := .script kind around named emits proper assembles }⟩
  | @inner _ q f captures r g k _ made declared ih =>
    obtain ⟨_, _, Γ, _, _, _, rfl, outer⟩ := ih
    have agrees := outer.agrees
    have made' : (closuresIn Γ q.instrs)[k]? = some (captures, r) := by
      rw [closuresIn, ← outer.compiled.pool]
      exact made
    obtain ⟨bound, here⟩ := List.getElem?_eq_some_iff.1 made'
    obtain ⟨bound', there⟩ := List.getElem?_eq_some_iff.1 declared
    obtain ⟨Γ', start, items, stop, inner⟩ := agrees.functions.get bound bound'
    rw [List.get_eq_getElem, List.get_eq_getElem, here, there] at inner
    refine ⟨captures, _, Γ', start, items, stop, rfl, ?_⟩
    rw [← outer.captures, ← outer.chain]
    exact inner

/-- A function in the pool of another one is one of those that it makes closures of. -/
lemma Compile.Compiled.closes {p q : Prototype} {Γ : Context} {start : List Local} {items : List Item}
    (compiled : Compiled p Γ start items) (there : .prototype q ∈ p.chunk.constants) :
    ∃ captures, (captures, q) ∈ p.closures := by
  obtain ⟨_, _, body, stop, rfl, assembles, -⟩ := compiled.assembles
  rw [assembles.constants] at there
  obtain ⟨index, captures, code, entry⟩ := assembles.covered q there
  refine ⟨captures, List.mem_filterMap.2 ⟨.closure index captures, ?_, ?_⟩⟩
  · rw [compiled.instrs, instrs_append]
    exact List.mem_append_left _ code
  · rw [Instr.closure?, assembles.constants, entry]

/-- Every prototype inside that of a script is the code of a function of the program. -/
theorem CodeOf.contains {p q r : Prototype} {ds : Stmt .declarations} {chain : List (List Capture)}
    {f : Function} (code : CodeOf p ds chain q f) (script : ScriptEmits p ds) (proper : ds.Proper)
    (inside : Contains q r) : ∃ chain g, CodeOf p ds chain r g := by
  induction inside generalizing chain f with
  | self => exact ⟨chain, f, code⟩
  | nested there _ ih =>
    obtain ⟨_, _, Γ, _, _, _, rfl, implements⟩ := code.implements script proper
    obtain ⟨captures, made⟩ := implements.compiled.closes there
    obtain ⟨k, bound, here⟩ := List.mem_iff_getElem.1 made
    have length := implements.agrees.functions.length_eq
    rw [closuresIn, ← implements.compiled.pool] at length
    have declared := List.getElem?_eq_getElem (Nat.lt_of_lt_of_eq bound length)
    exact ih (code.inner (List.getElem?_eq_some_iff.2 ⟨bound, here⟩) declared)

/-- The functions in a source that compiles are those of its program, and their code uses the
variables that lexical scoping says. -/
theorem compile_accesses {source : String} {strings : StringTable} {serial : Nat} {p : Prototype}
    (compiles : (compile source strings serial).outcome = .ok p) :
    ∃ ds, ReadsProgram ((Token.scan source).toList.map Token.word) ds ∧
      (∀ q, Contains p q → ∃ chain f, CodeOf p ds chain q f) ∧
      ∀ chain q f, CodeOf p ds chain q f →
        q.name = f.name ∧ q.accesses chain = f.uses.map some ∧
          q.closures.length = f.functions.length := by
  obtain ⟨ds, reads, proper, script⟩ := compile_emits compiles
  refine ⟨ds, reads, fun q inside => CodeOf.script.contains script proper inside, ?_⟩
  intro chain q f code
  obtain ⟨captures, further, Γ, start, items, stop, rfl, implements⟩ :=
    code.implements script proper
  have agrees := implements.agrees
  refine ⟨implements.assembles.name, ?_, ?_⟩
  · have uses := agrees.uses
    rw [accessesIn, Context.chain, implements.captures, implements.chain,
      ← implements.compiled.pool] at uses
    exact uses
  · have length := agrees.functions.length_eq
    rw [closuresIn, ← implements.compiled.pool] at length
    exact length

/-- A loop variable that a closure two functions further in captures, a local of the same name as a
global, and a class whose methods use the receiver and the superclass. -/
theorem compile_accesses_captures :
    ∃ p, (compile
        "fun f(a) \x7b for (var i = a; i; i = a) \x7b fun g() \x7b fun h() \x7b i = a; b = f; \x7d \x7d \x7d \x7d class A < B \x7b m() \x7b super.m(this); \x7d \x7d"
        .empty 0).outcome = .ok p ∧
      ∃ ds, (∀ q, Contains p q → ∃ chain f, CodeOf p ds chain q f) ∧
        ∀ chain q f, CodeOf p ds chain q f → q.accesses chain = f.uses.map some := by
  generalize result : (compile _ _ _).outcome = outcome
  have compiles : outcome.toOption.isSome = true := by
    rw [← result]
    decide +kernel
  cases outcome with
  | error _ => cases compiles
  | ok p =>
    obtain ⟨ds, -, functions, uses⟩ := compile_accesses result
    exact ⟨p, rfl, ds, functions, fun chain q f code => (uses chain q f code).2.1⟩

end Lox
