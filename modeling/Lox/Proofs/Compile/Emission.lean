import Lox.Compile.Expression
import Lox.Proofs.Bytecode.Layout
import Lox.Proofs.Syntax.Tree

/-!
# The code of a tree

Which code the compiler emits for a tree, described without the compiler: `Expr.Emits` and
`Stmt.Emits` go along the tree and say what instructions each phrase has, with the distances of its
jumps and the place each name leads to (`Resolves`).

A phrase is compiled before the function around it is finished: constants and captures are still
added, and a variable is marked as captured when a function further on mentions it.  The relations
here look back from the end: a `Context` has the constants and captures of the finished function,
and the locals of an open scope are given with the marks they end up with.
-/

namespace Lox.Compile

open Syntax

/-! ## Contexts -/

/-- What a function sees of a function around it: the locals in scope there, and its captures. -/
structure Scope where
  locals : List Local
  captures : Array Capture

/-- What the code of a function refers to. -/
structure Context where
  kind : BodyKind
  constants : Array Constant
  captures : Array Capture
  /-- The functions around, the nearest first. -/
  around : List Scope

namespace Context

/-- The constant at an index is a string of this content. -/
def IsName (Γ : Context) (index : UInt8) (x : String) : Prop :=
  ∃ object : StringObject, Γ.constants[index.toNat]? = some (.string object) ∧ object.content = x

end Context

/-! ## Where names lead -/

/-- Among captures in functions `around`, the one at an index is the variable that a name means. -/
inductive CapturedAs (x : String) : Array Capture → List Scope → UInt8 → Prop where
  /-- The variable is a local of the nearest function around. -/
  | here {captures scope further index slot v}
      (entry : captures[index.toNat]? = some ⟨true, UInt8.ofNat slot⟩)
      (found : findLocal? x scope.locals = some (slot, v)) (marked : v.isCaptured = true)
      (fits : slot < maxOperands) : CapturedAs x captures (scope :: further) index
  /-- The nearest function around captures the variable itself. -/
  | further {captures scope further index outer}
      (entry : captures[index.toNat]? = some ⟨false, outer⟩)
      (missing : findLocal? x scope.locals = none)
      (chain : CapturedAs x scope.captures further outer) :
      CapturedAs x captures (scope :: further) index

/-- A name leads to the innermost variable of that name. -/
inductive Resolves (Γ : Context) (L : List Local) (x : String) : Access → Prop where
  | slot {slot v} (found : findLocal? x L = some (slot, v)) (fits : slot < maxOperands) :
      Resolves Γ L x (.slot (UInt8.ofNat slot))
  | captured {index} (missing : findLocal? x L = none)
      (chain : CapturedAs x Γ.captures Γ.around index) : Resolves Γ L x (.captured index)
  | globalName {index} (missing : findLocal? x L = none)
      (nowhere : ∀ scope ∈ Γ.around, findLocal? x scope.locals = none)
      (constant : Γ.IsName index x) : Resolves Γ L x (.globalName index)

/-- The name is bound by a function, so it is no global. -/
def Access.IsBound : Access → Prop
  | .globalName _ => False
  | _ => True

/-! ## Expressions -/

end Lox.Compile

namespace Lox.Syntax

open Compile

/-- The instructions of a phrase where locals `L` are in scope. -/
inductive Expr.Emits (Γ : Context) (L : List Local) : {s : ExprSort} → Expr s → List Instr → Prop where
  | number {text index}
      (constant : Γ.constants[index.toNat]? = some (.number (Decimal.read text))) :
      Emits Γ L (.number text) [.constant index]
  | string {text index} (constant : Γ.IsName index (unquote text)) :
      Emits Γ L (.string text) [.constant index]
  | literal {kind i} (word : leading? kind = some (.literal i)) : Emits Γ L (.literal kind) [i]
  | name {x place} (leads : Resolves Γ L x place) : Emits Γ L (.name x) [place.read]
  | assign {x value code place} (inner : Emits Γ L value code) (leads : Resolves Γ L x place) :
      Emits Γ L (.assign x value) (code ++ [place.write])
  | this {place} (leads : Resolves Γ L "this" place) : Emits Γ L .this [place.read]
  | superGet {m index receiver home} (constant : Γ.IsName index m)
      (self : Resolves Γ L "this" receiver) (leads : Resolves Γ L "super" home)
      (bound : home.IsBound) :
      Emits Γ L (.superGet m) [receiver.read, home.read, .getSuper index]
  | superCall {m args index receiver home code} (constant : Γ.IsName index m)
      (self : Resolves Γ L "this" receiver) (inner : Emits Γ L args code)
      (leads : Resolves Γ L "super" home) (bound : home.IsBound) (fits : args.count ≤ maxArity) :
      Emits Γ L (.superCall m args)
        (receiver.read :: (code ++ [home.read, .superInvoke index (UInt8.ofNat args.count)]))
  | grouping {e code} (inner : Emits Γ L e code) : Emits Γ L (.grouping e) code
  | unary {op i e code} (word : leading? op = some (.unary i)) (inner : Emits Γ L e code) :
      Emits Γ L (.unary op e) (code ++ [i])
  | binary {op p is l left r right} (word : trailing? op = some (p, .binary is))
      (first : Emits Γ L l left) (second : Emits Γ L r right) :
      Emits Γ L (.binary op l r) (left ++ (right ++ is))
  | and {l left r right} (first : Emits Γ L l left) (second : Emits Γ L r right)
      (fits : codeSize right + 1 ≤ maxDistance) :
      Emits Γ L (.and l r)
        (left ++ .jumpIfFalse (UInt16.ofNat (codeSize right + 1)) :: .pop :: right)
  | or {l left r right} (first : Emits Γ L l left) (second : Emits Γ L r right)
      (fits : codeSize right + 1 ≤ maxDistance) :
      Emits Γ L (.or l r)
        (left ++ .jumpIfFalse 3 :: .jump (UInt16.ofNat (codeSize right + 1)) :: .pop :: right)
  | call {f callee args code} (first : Emits Γ L f callee) (second : Emits Γ L args code)
      (fits : args.count ≤ maxArity) :
      Emits Γ L (.call f args) (callee ++ (code ++ [.call (UInt8.ofNat args.count)]))
  | get {e code p index} (inner : Emits Γ L e code) (constant : Γ.IsName index p) :
      Emits Γ L (.get e p) (code ++ [.getProperty index])
  | set {e code p index value right} (first : Emits Γ L e code) (constant : Γ.IsName index p)
      (second : Emits Γ L value right) :
      Emits Γ L (.set e p value) (code ++ (right ++ [.setProperty index]))
  | invoke {e code p index args inside} (first : Emits Γ L e code) (constant : Γ.IsName index p)
      (second : Emits Γ L args inside) (fits : args.count ≤ maxArity) :
      Emits Γ L (.invoke e p args)
        (code ++ (inside ++ [.invoke index (UInt8.ofNat args.count)]))
  | noArguments : Emits Γ L .noArguments []
  | someArguments {args code} (inner : Emits Γ L args code) : Emits Γ L (.someArguments args) code
  | lastArgument {e code} (inner : Emits Γ L e code) : Emits Γ L (.lastArgument e) code
  | argument {e code args others} (first : Emits Γ L e code) (second : Emits Γ L args others) :
      Emits Γ L (.argument e args) (code ++ others)

/-- The instructions of an expression that may be missing. -/
inductive ClauseEmits (Γ : Context) (L : List Local) :
    Option (Expr .expression) → Option (List Instr) → Prop where
  | none : ClauseEmits Γ L none none
  | some {e code} (inner : e.Emits Γ L code) : ClauseEmits Γ L (some e) (some code)

/-- The instructions of the initial value of a variable, nil if there is none. -/
inductive ValueEmits (Γ : Context) (L : List Local) :
    Option (Expr .expression) → List Instr → Prop where
  | none : ValueEmits Γ L none [.pushNil]
  | some {e code} (inner : e.Emits Γ L code) : ValueEmits Γ L (some e) code

/-! ## Pieces of statements -/

/-- The names of locals. -/
def namesOf (L : List Local) : List String := L.map (·.name)

/-- Instructions emitted where locals `L` are in scope. -/
def under (L : List Local) (is : List Instr) : List Item := inScope (namesOf L) is

/-- A statement between its boundaries. -/
def framed (L : List Local) (items : List Item) (L' : List Local) : List Item :=
  .boundary (namesOf L) :: (items ++ [.boundary (namesOf L')])

@[simp] lemma instrs_framed (L L' : List Local) (items : List Item) :
    instrs (framed L items L') = instrs items := by
  rw [framed, instrs_boundary, instrs_append, instrs_boundary, instrs_nil, List.append_nil]

@[simp] lemma instrs_under (L : List Local) (is : List Instr) : instrs (under L is) = is :=
  instrs_inScope _ _

/-- The instructions that take locals off the stack. -/
def exits (leaving : List Local) : List Instr :=
  leaving.map fun v => if v.isCaptured then .closeUpvalue else .pop

/-- The instructions that leave a function without a value of its own. -/
def returnCode : BodyKind → List Instr
  | .initializer => [.getLocal 0, .ret]
  | _ => [.pushNil, .ret]

/-- The instructions that make the value on top of the stack a variable, and the locals with it: a
global, or else the place on the stack itself. -/
inductive Binds (Γ : Context) (L : List Local) (x : String) :
    Bool → List Instr → List Local → Prop where
  | global {index} (constant : Γ.IsName index x) : Binds Γ L x true [.defineGlobal index] L
  | slot {v} (named : v.name = x) (fits : L.length < maxOperands) : Binds Γ L x false [] (v :: L)

/-! ## Loops -/

/-- The number of bytes of the condition of a loop and the jump out of it. -/
def conditionSize : Option (List Instr) → Nat
  | none => 0
  | some is => codeSize is + 4

/-- The number of bytes of the increment of a loop and the jumps around it. -/
def incrementSize : Option (List Instr) → Nat
  | none => 0
  | some is => codeSize is + 7

/-- How far the jump at the end of a body goes back: to the increment, or else to the condition. -/
def backDistance (c step : Option (List Instr)) (bodySize : Nat) : Nat :=
  match step with
  | none => conditionSize c + bodySize + 3
  | some is => codeSize is + 4 + bodySize + 3

/-- The condition of a loop, and the jump out of the loop if it fails. -/
def conditionCode (step : Option (List Instr)) (bodySize : Nat) :
    Option (List Instr) → List Instr
  | none => []
  | some is => is ++ [.jumpIfFalse (UInt16.ofNat (1 + incrementSize step + bodySize + 3)), .pop]

/-- The increment of a loop, which runs after the body: the way in jumps over it, and it ends with
the jump back to the condition. -/
def incrementCode (c : Option (List Instr)) : Option (List Instr) → List Instr
  | none => []
  | some is =>
    .jump (UInt16.ofNat (codeSize is + 4)) ::
      (is ++ [.pop, .loop (UInt16.ofNat (conditionSize c + codeSize is + 7))])

/-- The end of a loop, where the condition that has failed is dropped. -/
def exitCode : Option (List Instr) → List Instr
  | none => []
  | some _ => [.pop]

/-- A loop with its condition, its increment and its body. -/
def loopItems (L : List Local) (c step : Option (List Instr)) (body : List Item) : List Item :=
  under L (conditionCode step (itemsSize body) c ++ incrementCode c step) ++
    (body ++
      under L (.loop (UInt16.ofNat (backDistance c step (itemsSize body))) :: exitCode c))

/-- One turn of a loop with a variable works on a copy `w` of it. -/
def copyItems (L : List Local) (slot : Nat) (w : Local) (items : List Item) : List Item :=
  under L [.getLocal (UInt8.ofNat slot)] ++
    (items ++
      (under (w :: L) [.getLocal (UInt8.ofNat L.length), .setLocal (UInt8.ofNat slot), .pop] ++
        under L (exits [w])))

/-- The distances of all jumps in a loop can be written down. -/
structure LoopFits (c step : Option (List Instr)) (bodySize : Nat) : Prop where
  exit : c.isSome → 1 + incrementSize step + bodySize + 3 ≤ maxDistance
  increment : ∀ is ∈ step, conditionSize c + codeSize is + 7 ≤ maxDistance
  back : backDistance c step bodySize ≤ maxDistance

/-- The instructions of the first clause of a for loop that declares no variable. -/
inductive Initializer.Emits (Γ : Context) (L : List Local) : Initializer → List Instr → Prop where
  | none : Emits Γ L .none []
  | expression {e code} (inner : e.Emits Γ L code) : Emits Γ L (.expression e) (code ++ [.pop])

/-! ## Functions -/

/-- A prototype is the finished function of a context: what its code refers to is in its pool, what
it captures is in scope around it, and its code makes a closure of every function in its pool. -/
structure Assembles (p : Prototype) (name : String) (params : Nat) (Γ : Context) (items : List Item)
    (L : List Local) : Prop where
  name : p.name = name
  arity : p.arity = UInt8.ofNat params
  paramsFit : params ≤ maxArity
  captureCount : p.captureCount = Γ.captures.size
  capturesFit : Γ.captures.size ≤ maxOperands
  distinct : Γ.captures.toList.Nodup
  captured : ∀ i < Γ.captures.size, ∃ x, CapturedAs x Γ.captures Γ.around (UInt8.ofNat i)
  constants : p.chunk.constants = Γ.constants
  constantsFit : Γ.constants.size ≤ maxOperands
  covered : ∀ q, Constant.prototype q ∈ Γ.constants → ∃ index captures,
    .closure index captures ∈ instrs items ∧ Γ.constants[index.toNat]? = some (.prototype q)
  code : p.chunk.code.toList =
    bytes (instrs (items ++ under L (returnCode Γ.kind)))

/-- A context is that of a function of a kind inside another one, where locals `L` are in scope. -/
structure Inside (Γ' : Context) (kind : BodyKind) (Γ : Context) (L : List Local) : Prop where
  kind : Γ'.kind = kind
  around : Γ'.around = ⟨L, Γ.captures⟩ :: Γ.around

/-- The kind of a method. -/
def methodKind (x : String) : BodyKind := if x = "init" then .initializer else .method

/-- The locals at the start of a function: its parameters above slot zero. -/
def ParameterLocals (kind : BodyKind) (params : List String) (L : List Local) : Prop :=
  namesOf L = params.reverse ++ [kind.slotZero]

/-! ## Statements -/

/-- The items of a phrase, where locals `L` are in scope before it and `L'` after it; `top` tells
whether its variables are globals. -/
inductive Stmt.Emits : Context → Bool → List Local → {s : StmtSort} → Stmt s → List Item →
    List Local → Prop where
  | print {Γ top L e code} (inner : e.Emits Γ L code) :
      Emits Γ top L (.print e) (framed L (under L (code ++ [.print])) L) L
  | expression {Γ top L e code} (inner : e.Emits Γ L code) :
      Emits Γ top L (.expression e) (framed L (under L (code ++ [.pop])) L) L
  | retNone {Γ top L} (inside : Γ.kind ≠ .script) :
      Emits Γ top L (.ret none) (framed L (under L (returnCode Γ.kind)) L) L
  | retSome {Γ top L e code} (inside : Γ.kind ≠ .script) (plain : Γ.kind ≠ .initializer)
      (inner : e.Emits Γ L code) :
      Emits Γ top L (.ret (some e)) (framed L (under L (code ++ [.ret])) L) L
  | ifThen {Γ top L c cond t items} (condition : c.Emits Γ L cond)
      (branch : Emits Γ false L t items L)
      (thenFits : itemsSize items + 4 ≤ maxDistance) :
      Emits Γ top L (.ifThen c t)
        (framed L
          (under L (cond ++ [.jumpIfFalse (UInt16.ofNat (itemsSize items + 4)), .pop]) ++
            (items ++ under L [.jump 1, .pop])) L) L
  | ifElse {Γ top L c cond t items e others} (condition : c.Emits Γ L cond)
      (branch : Emits Γ false L t items L) (otherwise : Emits Γ false L e others L)
      (thenFits : itemsSize items + 4 ≤ maxDistance)
      (elseFits : itemsSize others + 1 ≤ maxDistance) :
      Emits Γ top L (.ifElse c t e)
        (framed L
          (under L (cond ++ [.jumpIfFalse (UInt16.ofNat (itemsSize items + 4)), .pop]) ++
            (items ++ (under L [.jump (UInt16.ofNat (itemsSize others + 1)), .pop] ++ others))) L) L
  | whileLoop {Γ top L c cond body items} (condition : c.Emits Γ L cond)
      (inner : Emits Γ false L body items L) (fits : LoopFits (some cond) none (itemsSize items)) :
      Emits Γ top L (.whileLoop c body) (framed L (loopItems L (some cond) none items) L) L
  | forLoop {Γ top L first start c cond step increment body items}
      (clause : first.Emits Γ L start) (condition : ClauseEmits Γ L c cond)
      (advance : ClauseEmits Γ L step increment) (inner : Emits Γ false L body items L)
      (fits : LoopFits cond increment (itemsSize items)) :
      Emits Γ top L (.forLoop first c step body)
        (framed L (under L start ++ loopItems L cond increment items) L) L
  /-- The body works on a copy `w` of the loop variable `v`. -/
  | forVar {Γ top L x value start v c cond step increment w body items}
      (clause : ValueEmits Γ L value start) (named : v.name = x) (copyNamed : w.name = x)
      (condition : ClauseEmits Γ (v :: L) c cond) (advance : ClauseEmits Γ (v :: L) step increment)
      (inner : Emits Γ false (w :: v :: L) body items (w :: v :: L))
      (localsFit : L.length + 2 ≤ maxOperands)
      (fits : LoopFits cond increment (itemsSize (copyItems (v :: L) L.length w items))) :
      Emits Γ top L (.forLoop (.var x value) c step body)
        (framed L
          (under L start ++
            (loopItems (v :: L) cond increment (copyItems (v :: L) L.length w items) ++
              under L (exits [v]))) L) L
  | block {Γ top L ds items inner} (declares : Emits Γ false L ds items (inner ++ L)) :
      Emits Γ top L (.block ds) (framed L (items ++ under L (exits inner)) L) L
  | statement {Γ top L s items} (inner : Emits Γ top L s items L) :
      Emits Γ top L (.statement s) items L
  | var {Γ top L x value code define L'} (inner : ValueEmits Γ L value code)
      (binds : Binds Γ L x top define L') :
      Emits Γ top L (.var x value) (framed L (under L (code ++ define)) L') L'
  /-- The function may mention itself, so its variable is in scope around its body. -/
  | function {Γ top L x params body define L' Γ' start items stop index p}
      (binds : Binds Γ L x top define L') (inside : Inside Γ' .function Γ L')
      (entry : ParameterLocals .function params start) (inner : Emits Γ' false start body items stop)
      (constant : Γ.constants[index.toNat]? = some (.prototype p))
      (assembles : Assembles p x params.length Γ' items stop) :
      Emits Γ top L (.function x params body)
        (framed L (under L (.closure index Γ'.captures.toList :: define)) L') L'
  | cls {Γ top L x ms index define L' place items} (constant : Γ.IsName index x)
      (binds : Binds Γ L x top define L') (leads : Resolves Γ L' x place)
      (inner : Emits Γ false L' ms items L') :
      Emits Γ top L (.cls x none ms)
        (framed L
          (under L (.makeClass index :: define) ++
            (under L' [place.read] ++ (items ++ under L' [.pop]))) L') L'
  /-- The superclass stays on the stack as the hidden local `hidden`. -/
  | subclass {Γ top L x y ms index define L' parent hidden place again items}
      (constant : Γ.IsName index x) (binds : Binds Γ L x top define L')
      (proper : x ≠ y) (superclass : Resolves Γ L' y parent) (named : hidden.name = "super")
      (leads : Resolves Γ (hidden :: L') x place) (leads' : Resolves Γ (hidden :: L') x again)
      (localsFit : L'.length < maxOperands)
      (inner : Emits Γ false (hidden :: L') ms items (hidden :: L')) :
      Emits Γ top L (.cls x (some y) ms)
        (framed L
          (under L (.makeClass index :: define) ++
            (under L' [parent.read] ++
              (under (hidden :: L') [place.read, .inherit, again.read] ++
                (items ++ (under (hidden :: L') [.pop] ++ under L' (exits [hidden])))))) L') L'
  | noDeclarations {Γ top L} : Emits Γ top L .noDeclarations [] L
  | declare {Γ top L d items L' ds others L''} (first : Emits Γ top L d items L')
      (second : Emits Γ top L' ds others L'') :
      Emits Γ top L (.declare d ds) (items ++ others) L''
  | noMethods {Γ top L} : Emits Γ top L .noMethods [] L
  | method {Γ top L x params body ms Γ' start items stop index name p others}
      (constant : Γ.IsName name x) (inside : Inside Γ' (methodKind x) Γ L)
      (entry : ParameterLocals (methodKind x) params start)
      (inner : Emits Γ' false start body items stop)
      (entryConstant : Γ.constants[index.toNat]? = some (.prototype p))
      (assembles : Assembles p x params.length Γ' items stop)
      (second : Emits Γ top L ms others L) :
      Emits Γ top L (.method x params body ms)
        (under L [.closure index Γ'.captures.toList, .method name] ++ others) L

/-- The function of a script is that of its declarations. -/
def ScriptEmits (p : Prototype) (ds : Stmt .declarations) : Prop :=
  ∃ (Γ : Context) (v : Local) (items : List Item) (L : List Local),
    Γ.kind = .script ∧ Γ.around = [] ∧ v.name = "" ∧
      ds.Emits Γ true [v] items L ∧ Assembles p "" 0 Γ items L

end Lox.Syntax
