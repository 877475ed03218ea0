import Lox.Proofs.Compile.StatementLawfulness

/-!
# Lawful programs

A program that is within the limits compiles exactly if it keeps to the static rules
(`compile_ok_iff_lawful`).  That is an induction over the tree: of each phrase it is known what there
is in scope, what the phrase needs, and what is known after it (`Stmt.decides`).
-/

namespace Lox.Compile

open Syntax

variable {o o' o'' : Outline} {os : List Outline} {x : String}

/-! ## Variables of a phrase -/

/-- Only variables of the innermost scope are added. -/
def Outline.Extends (o o' : Outline) : Prop :=
  ∃ inner, o' = { o with locals := inner ++ o.locals } ∧ ∀ v ∈ inner, v.2 = some o.depth

namespace Outline.Extends

lemma refl (o : Outline) : o.Extends o := ⟨[], rfl, fun _ there => absurd there List.not_mem_nil⟩

lemma trans (first : o.Extends o') (second : o'.Extends o'') : o.Extends o'' := by
  obtain ⟨inner, rfl, new⟩ := first
  obtain ⟨inner', rfl, new'⟩ := second
  refine ⟨inner' ++ inner, ?_, fun v there => ?_⟩
  · rw [List.append_assoc]
  · exact (List.mem_append.1 there).elim (new' v) (new v)

lemma declare (o : Outline) (x : String) : o.Extends (o.declare x) := by
  by_cases top : o.depth = 0
  · refine ⟨[], ?_, fun _ there => absurd there List.not_mem_nil⟩
    unfold Outline.declare
    rw [if_pos top, List.nil_append]
  · refine ⟨[(x, some o.depth)], ?_, fun v there => List.mem_singleton.1 there ▸ rfl⟩
    unfold Outline.declare
    rw [if_neg top]
    rfl

lemma settled (h : o.Extends o') (settled : o.Settled) : o'.Settled := by
  obtain ⟨inner, rfl, new⟩ := h
  intro v there
  rcases List.mem_append.1 there with there | there
  · exact ⟨o.depth, Nat.le_refl _, new v there⟩
  · exact settled v there

lemma regular (h : o.Extends o') (regular : Regular (o :: os)) : Regular (o' :: os) := by
  obtain ⟨inner, rfl, -⟩ := h
  exact regular.head rfl

lemma top (h : o.Extends o') : o'.top = o.top := by
  obtain ⟨inner, rfl, -⟩ := h
  rfl

end Outline.Extends

end Lox.Compile

namespace Lox.Syntax

open Compile Compile.Outline

variable {s : StmtSort} {o : Outline} {os : List Outline}

/-- The outline of a function after a phrase, with the variables it declares. -/
def Stmt.outline : {s : StmtSort} → Stmt s → Outline → Outline
  | _, .var x _, o => o.declare x
  | _, .function x _ _, o => o.declare x
  | _, .cls x _ _, o => o.declare x
  | _, .declare d ds, o => ds.outline (d.outline o)
  | _, _, o => o

lemma Stmt.outline_extends (t : Stmt s) : ∀ o : Outline, o.Extends (t.outline o) := by
  induction t with
  | var x | function x | cls x => exact fun o => .declare o x
  | declare d ds ihd ihds => exact fun o => (ihd o).trans (ihds _)
  | _ => exact fun o => .refl o

/-- Do phrases of the sort declare variables where they stand? -/
def StmtSort.declares : StmtSort → Bool
  | .declaration | .declarations => true
  | .statement | .methods => false

lemma Stmt.outline_names (t : Stmt s) : ∀ {o : Outline} {top : Bool}, o.Settled →
    (s.declares → top = o.top) → (t.outline o).names = t.after top o.names := by
  induction t with
  | var x | function x | cls x =>
    intro o top settled level
    rw [level rfl]
    exact settled.names_declare
  | declare d ds ihd ihds =>
    intro o top settled level
    have extends_ := d.outline_extends o
    have level' : top = (d.outline o).top := by rw [level rfl, extends_.top]
    exact (ihds (extends_.settled settled) fun _ => level').trans
      (congrArg (fun names => ds.after top names) (ihd settled level))
  | _ => exact fun _ _ => rfl

lemma Stmt.outline_here (t : Stmt s) : ∀ {o : Outline} {here : Option (List String)},
    SameHere here o.here → SameHere (t.declares here) (t.outline o).here := by
  induction t with
  | var x | function x | cls x =>
    intro o here same
    show SameHere (here.map (_ :: ·)) (o.declare _).here
    rw [here_declare]
    exact same.map
  | declare d ds ihd ihds => exact fun same => ihds (ihd same)
  | _ => exact fun same => same

/-! ## Phrases within the limits -/

/-- The phrase is within the limits where it stands, `n` levels of nesting being left. -/
structure Stmt.Stands (t : Stmt s) (n : Nat) (o : Outline) (os : List Outline) (top : Bool)
    (here : Option (List String)) : Prop where
  settled : o.Settled
  regular : Regular (o :: os)
  proper : t.Proper
  level : s.declares → top = o.top
  same : s.declares → SameHere here o.here
  fits : t.Fits o.kind (env os) top o.names
  deep : t.depth ≤ n
  room : Room (o.constants ++ t.constants (env os) top o.names)
  allowed : o.Allows (t.mentions (env os) top o.names)

/-- Compiling the phrase decides whether it is lawful. -/
def Stmt.Decided (t : Stmt s) : Prop :=
  ∀ {n : Nat} {o : Outline} {os : List Outline} {top : Bool} {here : Option (List String)}
    {classes : List Bool}, t.Stands n o os top here →
    Decides ⟨o :: os, classes⟩ (t.build n) (t.Lawful o.kind classes here) fun _ =>
      ⟨(t.outline o).spend (t.constants (env os) top o.names) (t.size o.kind (env os) top o.names) :: os,
        classes⟩

variable {classes : List Bool} {n : Nat}

lemma Stmt.Stands.ready {t : Stmt s} {top : Bool} {here : Option (List String)}
    (h : t.Stands n o os top here) : Ready o os := h.settled.ready h.regular

/-- An expression where all variables have values. -/
lemma decides_plainExpression (classes : List Bool) {e : Expr .expression} (settled : o.Settled)
    (regular : Regular (o :: os))
    (fits : e.Fits) (deep : e.depth + 1 ≤ n) (room : Room (o.constants ++ e.constants (o.names :: env os)))
    (allowed : o.Allows (e.mentions (o.names :: env os))) :
    Decides ⟨o :: os, classes⟩ (e.expression n) (e.Lawful none classes)
      fun _ => ⟨o.spend (e.constants (o.names :: env os)) e.size :: os, classes⟩ := by
  rw [← settled.pending]
  exact decides_expression (settled.ready regular) fits deep room allowed

/-- A variable is read where all variables have values. -/
lemma decides_plainRead {x : String} (settled : o.Settled) (regular : Regular (o :: os))
    (room : Room (o.constants ++ nameConstants (o.names :: env os) x))
    (allowed : ∀ v ∈ (meaning x (o.names :: env os)).captured?, v ∈ o.captured) :
    Decides ⟨o :: os, classes⟩ (readVariable x) True fun _ =>
      ⟨o.spend (nameConstants (o.names :: env os) x) 2 :: os, classes⟩ := by
  have ready := settled.ready regular
  refine (decides_readVariable ready.sound regular allowed room).congr (iff_true_intro ?_)
  rw [settled.pending]
  exact nofun

/-! ## Simple statements -/

lemma print_decided (e : Expr .expression) : (Stmt.print e).Decided := by
  intro n o os top here classes h
  have value := decides_plainExpression classes h.settled h.regular h.fits h.deep h.room h.allowed
  exact decides_advance.after fun _ => value.before fun _ => decides_advance.after fun _ =>
    decides_emitSized .print 1 rfl

lemma expression_decided (e : Expr .expression) : (Stmt.expression e).Decided := by
  intro n o os top here classes h
  have value := decides_plainExpression classes h.settled h.regular h.fits h.deep h.room h.allowed
  exact value.before fun _ => decides_advance.after fun _ => decides_emitSized .pop 1 rfl

lemma decides_checkInside :
    Decides ⟨o :: os, classes⟩ checkInside (o.kind ≠ .script) fun _ => ⟨o :: os, classes⟩ :=
  .get (fun s holds => by rw [holds.first.kind]) (Decides.refuse .returnFromScript)

lemma decides_checkPlain :
    Decides ⟨o :: os, classes⟩ checkPlain (o.kind ≠ .initializer) fun _ => ⟨o :: os, classes⟩ :=
  .get (fun s holds => by rw [holds.first.kind]) (Decides.refuse .valueFromInitializer)

lemma ret_decided (value : Option (Expr .expression)) : (Stmt.ret value).Decided := by
  intro n o os top here classes h
  cases value with
  | none =>
    have all : Decides ⟨o :: os, classes⟩ ((Stmt.ret none).build n) _ _ :=
      decides_advance.after fun _ => decides_checkInside.before fun _ =>
        decides_advance.after fun _ => decides_emitReturn
    exact all.spending fun _ => ⟨rfl, rfl, rfl, List.append_nil _, rfl, Nat.le_refl _, List.Subset.refl _⟩
  | some e =>
    have value := decides_plainExpression classes h.settled h.regular (h.fits e rfl) h.deep h.room h.allowed
    exact decides_advance.after fun _ => decides_checkInside.bind fun _ => decides_checkPlain.bind fun _ =>
      value.before fun _ => decides_advance.after fun _ => decides_emitSized .ret 1 rfl

/-! ## Branches and loops -/

/-- A statement declares no variables where it stands. -/
lemma outline_statement (t : Stmt .statement) (o : Outline) : t.outline o = o := by
  cases t <;> rfl

/-- A nested statement, in a function of which more is known than `o`. -/
lemma Stmt.Decided.nested {t : Stmt .statement} (h : t.Decided) (os : List Outline) (classes : List Bool)
    (top : Bool) (here : Option (List String)) (ls : List Literal) (bytes : Nat) (ms : List (Nat × Nat))
    (stands : t.Stands (n - 1) { o with constants := ls, size := bytes, marks := ms } os top here)
    (deep : t.depth + 1 ≤ n) :
    Decides ⟨{ o with constants := ls, size := bytes, marks := ms } :: os, classes⟩ (within n t.build)
      (t.Lawful o.kind classes here) fun _ =>
      ⟨({ o with constants := ls, size := bytes, marks := ms } : Outline).spend
        (t.constants (env os) top o.names) (t.size o.kind (env os) top o.names) :: os, classes⟩ := by
  have decides : ∀ m, t.depth ≤ m → Decides ⟨_ :: os, classes⟩ (t.build m) _ _ :=
    fun m deep => h { stands with deep }
  rw [outline_statement] at decides
  exact decides_within deep decides

lemma ifThen_decided {c : Expr .expression} {t : Stmt .statement} (ih : t.Decided) :
    (Stmt.ifThen c t).Decided := by
  intro n o os top here classes h
  obtain ⟨fitsC, fitsT, near⟩ := h.fits
  obtain ⟨deepC, deepT⟩ := Nat.max_le.1 (Nat.le_sub_of_add_le h.deep)
  obtain ⟨first, second⟩ := Room.split h.room
  obtain ⟨own, others⟩ := allows_append.1 h.allowed
  have pos : 1 ≤ n := Nat.le_of_add_left_le h.deep
  have condition := decides_plainExpression classes (n := n) h.settled h.regular fitsC (by omega) first own
  have branch : ∀ bytes ms, Decides _ (within n t.build) _ _ := fun bytes ms =>
    ih.nested os classes false here (o.constants ++ c.constants (o.names :: env os)) bytes ms
      { settled := h.settled, regular := h.regular.head rfl, proper := h.proper.2, level := nofun
        same := nofun, fits := fitsT, deep := deepT, room := second, allowed := others } (by omega)
  have all : Decides ⟨o :: os, classes⟩ ((Stmt.ifThen c t).build n) _ _ :=
    decides_advance.after fun _ => decides_advance.after fun _ => condition.bind fun _ =>
      decides_advance.after fun _ => decides_if near fun otherwise => branch _ _
  rw [outline_statement]
  refine all.spending fun _ => ⟨rfl, rfl, rfl, (List.append_assoc _ _ _).symm, rfl, ?_, List.Subset.refl _⟩
  rw [size_spend, size_spend, size_spend, Stmt.size]
  omega

lemma ifElse_decided {c : Expr .expression} {t e : Stmt .statement} (iht : t.Decided) (ihe : e.Decided) :
    (Stmt.ifElse c t e).Decided := by
  intro n o os top here classes h
  obtain ⟨fitsC, fitsT, fitsE, near, near'⟩ := h.fits
  obtain ⟨deepC, deep⟩ := Nat.max_le.1 (Nat.le_sub_of_add_le h.deep)
  obtain ⟨deepT, deepE⟩ := Nat.max_le.1 deep
  obtain ⟨first, more⟩ := Room.split h.room
  obtain ⟨second, third⟩ := Room.split more
  obtain ⟨own, others⟩ := allows_append.1 h.allowed
  obtain ⟨others, last⟩ := allows_append.1 others
  have pos : 1 ≤ n := Nat.le_of_add_left_le h.deep
  have condition := decides_plainExpression classes (n := n) h.settled h.regular fitsC (by omega) first own
  have yes : ∀ bytes ms, Decides _ (within n t.build) _ _ := fun bytes ms =>
    iht.nested os classes false here (o.constants ++ c.constants (o.names :: env os)) bytes ms
      { settled := h.settled, regular := h.regular.head rfl, proper := h.proper.2.1, level := nofun
        same := nofun, fits := fitsT, deep := deepT, room := second, allowed := others } (by omega)
  have no : ∀ bytes ms, Decides _ (within n e.build) _ _ := fun bytes ms =>
    ihe.nested os classes false here
      (o.constants ++ c.constants (o.names :: env os) ++ t.constants (env os) false o.names) bytes ms
      { settled := h.settled, regular := h.regular.head rfl, proper := h.proper.2.2, level := nofun
        same := nofun, fits := fitsE, deep := deepE, room := third, allowed := last } (by omega)
  have all : Decides ⟨o :: os, classes⟩ ((Stmt.ifElse c t e).build n) _ _ :=
    decides_advance.after fun _ => decides_advance.after fun _ => condition.bind fun _ =>
      decides_advance.after fun _ => decides_ifElse near near' (fun otherwise => yes _ _)
        fun stop => no _ _
  rw [outline_statement]
  refine all.spending fun _ => ⟨rfl, rfl, rfl, (List.append_assoc _ _ _).symm, rfl, ?_, List.Subset.refl _⟩
  rw [size_spend, size_spend, size_spend, Stmt.size]
  omega

lemma whileLoop_decided {c : Expr .expression} {body : Stmt .statement} (ih : body.Decided) :
    (Stmt.whileLoop c body).Decided := by
  intro n o os top here classes h
  obtain ⟨fitsC, fitsB, near⟩ := h.fits
  obtain ⟨deepC, deepB⟩ := Nat.max_le.1 (Nat.le_sub_of_add_le h.deep)
  obtain ⟨first, second⟩ := Room.split h.room
  obtain ⟨own, others⟩ := allows_append.1 h.allowed
  have pos : 1 ≤ n := Nat.le_of_add_left_le h.deep
  have condition : ∀ place, Decides ⟨o.mark place :: os, classes⟩ (c.expression n)
      (c.Lawful none classes) fun _ =>
      ⟨(o.mark place).spend (c.constants (o.names :: env os)) c.size :: os, classes⟩ := fun place =>
    decides_plainExpression classes (o := o.mark place) h.settled (h.regular.head rfl) fitsC (by omega)
      first own
  have turn : ∀ bytes ms, Decides _ (within n body.build) _ _ := fun bytes ms =>
    ih.nested os classes false here (o.constants ++ c.constants (o.names :: env os)) bytes ms
      { settled := h.settled, regular := h.regular.head rfl, proper := h.proper.2, level := nofun
        same := nofun, fits := fitsB, deep := deepB, room := second, allowed := others } (by omega)
  have marked : ∀ start, (start, o.size) ∈ (start, o.size) :: o.marks := fun _ => List.mem_cons_self
  have loop : ∀ start, Decides ⟨o.mark start :: os, classes⟩ (do
      advance
      c.expression n
      advance
      let exit ← emitJump .jumpIfFalse
      emit .pop
      within n body.build
      emitLoop start
      land exit
      emit .pop) (c.Lawful none classes ∧ body.Lawful o.kind classes here) fun _ =>
      ⟨o.spend ((Stmt.whileLoop c body).constants (env os) top o.names)
        ((Stmt.whileLoop c body).size o.kind (env os) top o.names) :: os, classes⟩ := fun start => by
    refine (decides_advance.after fun _ => (condition start).bind fun _ => decides_advance.after fun _ =>
      decides_turns (o := (o.mark start).spend (c.constants (o.names :: env os)) c.size)
        (marked start) ?_ (by omega) fun exit => turn _ _).spending
      fun _ => ⟨rfl, rfl, rfl, (List.append_assoc _ _ _).symm, rfl, ?_, List.subset_cons_self _ _⟩
    · rw [size_spend, size_mark]
      omega
    · rw [size_spend, size_spend, size_mark, size_spend, Stmt.size]
      omega
  rw [outline_statement]
  exact decides_advance.after fun _ => Decides.place _ (fun _ => rfl) loop

/-- A block has a scope of its own. -/
lemma block_decided {ds : Stmt .declarations} (ih : ds.Decided) : (Stmt.block ds).Decided := by
  intro n o os top here classes h
  obtain ⟨inner, extended, new⟩ := ds.outline_extends o.enter
  have inside : ds.Stands n o.enter os false (some []) :=
    { settled := h.settled.enter, regular := h.regular.head rfl, proper := h.proper
      level := fun _ => rfl, same := fun _ => by rw [h.settled.here_enter]; exact .refl _
      fits := h.fits, deep := h.deep, room := h.room, allowed := h.allowed }
  have body : Decides ⟨o.enter :: os, classes⟩ (ds.build n) (ds.Lawful o.kind classes (some [])) _ :=
    ih inside
  have length : (ds.after false o.names).length - o.names.length = inner.length := by
    have names : (ds.outline o.enter).names = ds.after false o.names :=
      ds.outline_names h.settled.enter fun _ => rfl
    rw [← names, ((ds.outline_extends o.enter).settled h.settled.enter).length, extended,
      List.length_append, h.settled.length]
    exact Nat.add_sub_cancel _ _
  have old : ∀ v ∈ o.locals, ∃ d < o.depth + 1, v.2 = some d := fun v there => by
    obtain ⟨d, le, given⟩ := h.settled v there
    exact ⟨d, Nat.lt_succ_of_le le, given⟩
  rw [extended] at body
  have leaves : ∀ (ls : List Literal) (bytes : Nat),
      Decides ⟨({ o.enter with locals := inner ++ o.enter.locals } : Outline).spend ls bytes :: os, classes⟩
        endScope True _ := fun _ _ => decides_endScope rfl new old
  have all : Decides ⟨o :: os, classes⟩ ((Stmt.block ds).build n) _ _ :=
    decides_advance.after fun _ => decides_beginScope.after fun _ => body.before fun _ =>
      decides_advance.after fun _ => leaves _ _
  rw [outline_statement]
  refine all.spending fun _ => ⟨rfl, rfl, rfl, rfl, rfl, ?_, List.Subset.refl _⟩
  show _ ≤ o.size + (_ + ((ds.after false o.names).length - o.names.length))
  rw [length, ← Nat.add_assoc]
  exact Nat.le_refl _

lemma statement_decided {t : Stmt .statement} (ih : t.Decided) : (Stmt.statement t).Decided := by
  intro n o os top here classes h
  have inside : t.Stands (n - 1) o os top here :=
    { settled := h.settled, regular := h.regular, proper := h.proper, level := nofun, same := nofun
      fits := h.fits, deep := Nat.le_sub_of_add_le h.deep, room := h.room, allowed := h.allowed }
  exact ih.nested os classes top here o.constants o.size o.marks inside h.deep

/-! ## Declarations -/

lemma var_decided (x : String) (value : Option (Expr .expression)) : (Stmt.var x value).Decided := by
  intro n o os top here classes h
  obtain rfl := h.level rfl
  have binding : Decides ⟨o :: os, classes⟩ (buildBinding x value n) _ _ :=
    decides_buildBinding h.settled h.regular h.proper.1 h.fits.1 h.fits.2 h.deep h.room h.allowed
  have same : Fresh here x ∧ ClauseLawful (if here.isSome then some x else none) classes value ↔
      Fresh o.here x ∧ ClauseLawful (if o.here.isSome then some x else none) classes value := by
    rw [(h.same rfl).1, (h.same rfl).2]
  exact decides_advance.after fun _ => binding.congr same.symm

/-- A variable is declared that is in scope at once. -/
lemma decides_bindInitialized {x : String} (settled : o.Settled) (place : HasPlace o.top o.names)
    (room : Room (o.constants ++ declaredConstants o.top x)) :
    Decides ⟨o :: os, classes⟩ (do
      let constant ← bindName x
      markInitialized
      return constant) (Fresh o.here x) fun _ =>
      ⟨(o.declare x).ask (declaredConstants o.top x) :: os, classes⟩ := by
  by_cases top : o.depth = 0
  · have global : o.top = true := decide_eq_true top
    have nowhere : o.here = none := if_pos top
    rw [global] at room ⊢
    rw [nowhere]
    have all : Decides ⟨o :: os, classes⟩ _ True _ :=
      (decides_bindName_top top room).after fun constant =>
        (decides_markInitialized_top (o := o.ask [.string x]) top).after fun _ => Decides.pure constant
    refine (all.congr (iff_true_intro fresh_none).symm).loosen fun _ =>
      ⟨rfl, rfl, ?_, rfl, rfl, Nat.le_refl _, List.Subset.refl _⟩
    show (if o.depth = 0 then o.locals else _) = o.locals
    rw [if_pos top]
  · have inner : o.top = false := decide_eq_false top
    rw [inner] at place ⊢
    have free : o.locals.length < maxOperands :=
      settled.length ▸ place.resolve_left Bool.false_ne_true
    have all : Decides ⟨o :: os, classes⟩ _ (Fresh o.here x) _ :=
      (decides_bindName top free).before fun constant =>
        (decides_markInitialized (o := o.push x) rfl top).after fun _ => Decides.pure constant
    refine all.loosen fun _ => ⟨rfl, rfl, ?_, List.append_nil _, rfl, Nat.le_refl _, List.Subset.refl _⟩
    show (if o.depth = 0 then o.locals else _) = _
    rw [if_neg top]
    rfl

/-- A variable that is in scope already gets its value. -/
lemma decides_defineDeclared {x : String} (constant : UInt8) (ls : List Literal) (bytes : Nat) :
    Decides ⟨(o.declare x).spend ls bytes :: os, classes⟩ (defineVariable constant) True fun _ =>
      ⟨(o.declare x).spend ls (bytes + definedSize o.top) :: os, classes⟩ := by
  by_cases top : o.depth = 0
  · rw [show o.top = true from decide_eq_true top]
    exact decides_defineVariable_top constant top
  · rw [show o.top = false from decide_eq_false top]
    have locals : (o.declare x).locals = (x, some o.depth) :: o.locals := if_neg top
    have defines : Decides ⟨(o.declare x).spend ls bytes :: os, classes⟩ (defineVariable constant) True _ :=
      decides_defineVariable constant locals top
    exact defines.loosen fun _ => ⟨rfl, rfl, locals, rfl, rfl, Nat.le_refl _, List.Subset.refl _⟩

/-! ## For loops -/

/-- The variables of a for loop are in a scope of their own. -/
def inLoop (first : Initializer) (o : Outline) : Outline := o.enter.begins first

variable {first : Initializer} {c step : Option (Expr .expression)} {body : Stmt .statement}

/-- The scope of a for loop has its variable, if there is one, and nothing else. -/
lemma inLoop_locals (first : Initializer) (o : Outline) :
    ∃ inner, (inLoop first o).locals = inner ++ o.locals ∧ inner.length = first.exitSize ∧
      ∀ v ∈ inner, v.2 = some (o.depth + 1) := by
  cases first with
  | var x value => exact ⟨[(x, some (o.depth + 1))], rfl, rfl, fun v there => List.mem_singleton.1 there ▸ rfl⟩
  | _ => exact ⟨[], rfl, rfl, fun v there => absurd there List.not_mem_nil⟩

/-- What comes after the clauses of a for loop. -/
lemma decides_loopEnd {P : Prop} {act : Compiling Unit} {o' : Outline} {back bound bytes : Nat}
    {ls : List Literal} (first : Initializer) (exit : Option JumpSite) (slot bound' : Nat)
    (settled : o.Settled)
    (locals : o'.locals = (inLoop first o).locals) (depth : o'.depth = o.depth + 1)
    (kind : o'.kind = o.kind) (captured : o'.captured = o.captured) (marks : o.marks ⊆ o'.marks)
    (places : (first.ownSlot? slot).isSome → (inLoop first o).locals.length < maxOperands)
    (returns : (back, bound) ∈ o'.marks) (leaves : ∀ site ∈ exit, (site.start, bound') ∈ o'.marks)
    (near : o'.size + bytes + first.copySize + 3 ≤ bound + maxDistance)
    (near' : exit.isSome → o'.size + bytes + first.copySize + 3 ≤ bound' + maxDistance)
    (turn : Decides ⟨o'.turns first :: os, classes⟩ act P
      fun _ => ⟨(o'.turns first).spend ls bytes :: os, classes⟩) :
    Decides ⟨o' :: os, classes⟩ (do
      forBody (bodyLevel act) (first.ownSlot? slot)
      emitLoop back
      forExit exit
      endScope) P fun _ =>
      ⟨{ o with
        constants := o'.constants ++ ls
        size := o'.size + bytes + first.copySize + 3 + (if exit.isSome then 1 else 0) + first.exitSize }
          :: os, classes⟩ := by
  have settled' : o'.Settled := fun v there => by
    rw [locals] at there
    rw [depth]
    exact settled.enter.begins v there
  have looped : Decides ⟨o'.spend ls (bytes + first.copySize) :: os, classes⟩ (emitLoop back) True _ :=
    decides_emitLoop returns (by
      rw [size_spend]
      omega)
  have exits : Decides ⟨(o'.spend ls (bytes + first.copySize)).grow 3 :: os, classes⟩ (forExit exit) True _ :=
    decides_forExit leaves (fun some => by
      have near' := near' some
      rw [size_grow, size_spend]
      omega)
  have ends : Decides ⟨((o'.spend ls (bytes + first.copySize)).grow 3).grow (if exit.isSome then 1 else 0)
      :: os, classes⟩ endScope True fun _ =>
      ⟨{ o with
        constants := o'.constants ++ ls
        size := o'.size + bytes + first.copySize + 3 + (if exit.isSome then 1 else 0) + first.exitSize }
          :: os, classes⟩ := by
    obtain ⟨inner, split, length, new⟩ := inLoop_locals first o
    rw [← length]
    refine (decides_endScope
      (o := ((o'.spend ls (bytes + first.copySize)).grow 3).grow (if exit.isSome then 1 else 0))
      (locals.trans split) (fun v there => ?_)
      fun v there => ?_).loosen fun _ => ⟨kind.symm, ?_, rfl, rfl, captured.symm, ?_, marks⟩
    · exact (new v there).trans (congrArg some depth.symm)
    · obtain ⟨d, le, given⟩ := settled v there
      exact ⟨d, (Nat.lt_succ_of_le le).trans_eq depth.symm, given⟩
    · exact Nat.eq_sub_of_add_eq depth.symm
    · show o'.size + (bytes + first.copySize) + 3 + _ + _ ≤ _
      rw [← Nat.add_assoc]
  exact (decides_forBody settled' (locals ▸ places) turn).before fun _ => looped.after fun _ =>
    exits.after fun _ => ends

lemma forLoop_decided (ih : body.Decided) : (Stmt.forLoop first c step body).Decided := by
  intro n o os top here classes h
  obtain ⟨fitsF, fitsC, fitsS, fitsB, nearS, nearL, nearC⟩ := h.fits
  obtain ⟨deep, deep'⟩ := Nat.max_le.1 h.deep
  obtain ⟨deepF, deepC⟩ := Nat.max_le.1 deep
  obtain ⟨deepS, deepB⟩ := Nat.max_le.1 deep'
  obtain ⟨roomF, more⟩ := Room.split h.room
  obtain ⟨roomC, more⟩ := Room.split more
  obtain ⟨roomS, roomB⟩ := Room.split more
  obtain ⟨allowedF, more⟩ := allows_append.1 h.allowed
  obtain ⟨allowedC, more⟩ := allows_append.1 more
  obtain ⟨allowedS, allowedB⟩ := allows_append.1 more
  have settled : (inLoop first o).Settled := h.settled.enter.begins
  have names : (inLoop first o).names = first.after o.names := h.settled.enter.names_begins
  have turnNames : ((inLoop first o).turns first).names = first.turn o.names :=
    h.settled.enter.names_turns
  rw [← names] at roomC roomS roomB allowedC allowedS
  rw [← turnNames] at fitsB roomB allowedB
  let o₁ := (inLoop first o).spend (first.constants (o.names :: env os)) first.size
  have initial : ∀ rest P Γ' [∀ v, Careful (rest v)],
      Decides ⟨o₁ :: os, classes⟩ (rest (first.ownSlot? o.locals.length)) P Γ' →
      Decides ⟨o.enter :: os, classes⟩ (first.build n >>= rest) (first.Lawful classes ∧ P) Γ' :=
    fun rest P Γ' _ second => decides_initializer h.settled.enter (h.regular.head rfl) h.proper.1 fitsF deepF
      roomF allowedF h.settled.here_enter second
  have turn : ∀ bytes ms, Decides _ (within n body.build) _ _ := fun bytes ms =>
    ih.nested (o := (inLoop first o).turns first) os classes false here _ bytes ms
      { settled := settled.turns, regular := h.regular.head rfl, proper := h.proper.2.2.2, level := nofun
        same := nofun, fits := fitsB, deep := Nat.le_sub_of_add_le deepB, room := roomB, allowed := allowedB } deepB
  have rest : ∀ start, Decides ⟨o₁.mark start :: os, classes⟩ (do
      let exit ← buildCondition n c
      let back ← buildIncrement n start step
      forBody (bodyLevel (within n body.build)) (first.ownSlot? o.locals.length)
      emitLoop back
      forExit exit
      endScope) (ClauseLawful none classes c ∧ ClauseLawful none classes step ∧
        body.Lawful o.kind classes here) fun _ =>
      ⟨o.spend ((Stmt.forLoop first c step body).constants (env os) top o.names)
        ((Stmt.forLoop first c step body).size o.kind (env os) top o.names) :: os, classes⟩ := by
    intro start
    have ready : Ready (o₁.mark start) os :=
      Settled.ready (o := o₁.mark start) settled (h.regular.head rfl)
    have none : (o₁.mark start).pending = none := Settled.pending (o := inLoop first o) settled
    rw [← none]
    refine decides_condition ready fitsC deepC roomC allowedC fun exit same => ?_
    let o₂ := ((o₁.mark start).spend (clauseConstants (o₁.names :: env os) c) (clauseSize 4 0 c)).leaving
      exit (o₁.size + clauseSize 3 0 c)
    have ready₂ : Ready o₂ os := Settled.ready (o := o₂) settled (h.regular.head rfl)
    have marked : (start, o₁.size) ∈ o₂.marks := List.mem_append_right _ List.mem_cons_self
    refine decides_increment (o := o₂) ready₂ fitsS deepS roomS allowedS marked ?_ ?_ fun back => ?_
    · intro some
      have near := nearS some
      show o₁.size + clauseSize 4 0 c + _ ≤ _
      omega
    · exact Nat.le_add_right _ _
    · have ends : Decides ⟨(o₂.spend (clauseConstants (o₁.names :: env os) step)
          (clauseSize 7 0 step)).returning back (step.elim o₁.size fun _ => o₂.size + 3) :: os, classes⟩ _ _ _ :=
        decides_loopEnd first exit o.locals.length (o₁.size + clauseSize 3 0 c) h.settled rfl rfl rfl rfl
          ?_ ?_ List.mem_cons_self ?_ ?_ ?_ (turn _ _)
      · refine ends.loosen fun _ => ⟨rfl, rfl, rfl, ?_, rfl, ?_, List.Subset.refl _⟩
        · show o.constants ++ (first.constants (o.names :: env os) ++
            (clauseConstants (first.after o.names :: env os) c ++
              (clauseConstants (first.after o.names :: env os) step ++
                body.constants (env os) false (first.turn o.names)))) =
            o.constants ++ first.constants (o.names :: env os) ++
              clauseConstants ((inLoop first o).names :: env os) c ++
                clauseConstants ((inLoop first o).names :: env os) step ++ _
          rw [names, turnNames]
          simp only [List.append_assoc]
        · show o.size + first.size + clauseSize 4 0 c + clauseSize 7 0 step +
              body.size o.kind (env os) false ((inLoop first o).turns first).names + first.copySize + 3 +
                (if exit.isSome then 1 else 0) + first.exitSize ≤
            o.size + (first.size + clauseSize 5 0 c + clauseSize 7 0 step +
              (body.size o.kind (env os) false (first.turn o.names) + first.copySize) + 3 + first.exitSize)
          rw [turnNames, same]
          cases c <;> simp only [clauseSize, Option.elim, Option.isSome, Bool.false_eq_true, ↓reduceIte] <;>
            omega
      · exact fun p there => List.mem_cons_of_mem _ (List.mem_append_right _ (List.mem_cons_of_mem _ there))
      · intro some
        cases first with
        | var x value =>
          show o.locals.length + 1 < maxOperands
          exact h.settled.length ▸ fitsF.2
        | _ => exact nomatch some
      · exact fun site there => List.mem_cons_of_mem _ (List.mem_append_left _
          (List.mem_map_of_mem (f := fun site : JumpSite => (site.start, _)) (Option.mem_toList.2 there)))
      · show o.size + first.size + clauseSize 4 0 c + clauseSize 7 0 step +
            body.size o.kind (env os) false ((inLoop first o).turns first).names + first.copySize + 3 ≤
          (step.elim (o.size + first.size) fun _ => o.size + first.size + clauseSize 4 0 c + 3) + maxDistance
        rw [turnNames]
        cases step <;> simp only [clauseSize, Option.elim] at nearL ⊢ <;> omega
      · intro some
        rw [same] at some
        have near := nearC some
        show o.size + first.size + clauseSize 4 0 c + clauseSize 7 0 step +
            body.size o.kind (env os) false ((inLoop first o).turns first).names + first.copySize + 3 ≤
          o.size + first.size + clauseSize 3 0 c + maxDistance
        rw [turnNames]
        cases c with
        | none => exact nomatch some
        | some e =>
          simp only [clauseSize, Option.elim] at near ⊢
          omega
  exact decides_advance.after fun _ => decides_beginScope.after fun _ => decides_advance.after fun _ =>
    initial _ _ _ (Decides.place _ (fun _ => rfl) rest)

/-! ## Functions -/

/-- The body of a function is compiled, and a closure of it is made. -/
lemma closure_decided {kind : BodyKind} {x : String} {params : List String} {body : Stmt .declarations}
    (ih : body.Decided) (settled : o.Settled) (regular : Regular (o :: os)) (proper : body.Proper)
    (arity : params.length ≤ maxArity)
    (few : (captured kind params body (env (o :: os))).dedup.length ≤ maxOperands)
    (constants : Room (body.constants (env (o :: os)) false (params.reverse ++ [kind.slotZero])))
    (fits : body.Fits kind (env (o :: os)) false (params.reverse ++ [kind.slotZero]))
    (deep : body.depth + 1 ≤ n) (allowed : o.Allows (captured kind params body (env (o :: os))))
    (room : Room (o.constants ++ [.function])) :
    Decides ⟨o :: os, classes⟩
      (buildFunction kind x params (within n fun n => do body.build n; advance))
      (params.Nodup ∧ body.Lawful kind classes (some params)) fun _ =>
      ⟨o.spend [.function] (closureSize kind params body (env (o :: os))) :: os, classes⟩ := by
  let f := Outline.function kind params (captured kind params body (env (o :: os)))
  have names : f.names = params.reverse ++ [kind.slotZero] := function_names
  have inside : ∀ m, body.depth ≤ m → body.Stands m f (o :: os) false (some params) := fun m deep =>
    { settled := function_settled, regular := regular.function settled few allowed, proper
      level := fun _ => rfl, same := fun _ => function_here
      fits := by rw [names]; exact fits
      deep
      room := by rw [names]; exact constants
      allowed := fun v there w seen => by
        rw [names] at there
        exact List.mem_filterMap.2 ⟨v, there, seen⟩ }
  have same : (body.outline f).captured = f.captured := by
    obtain ⟨inner, extended, -⟩ := body.outline_extends f
    rw [extended]
  exact decides_buildFunction arity room
    (decides_within deep fun m deep => (ih (inside m deep)).before fun _ => decides_advance) same

lemma function_decided {x : String} {params : List String} {body : Stmt .declarations}
    (ih : body.Decided) : (Stmt.function x params body).Decided := by
  intro n o os top here classes h
  obtain rfl := h.level rfl
  obtain ⟨place, arity, few, constants, fits⟩ := h.fits
  obtain ⟨first, second⟩ := Room.split h.room
  have names := h.settled.names_declare (x := x)
  have around : env (o.declare x :: os) = declared o.top x o.names :: env os := by
    unfold env
    rw [List.map_cons, names]
  have allowed : o.Allows (captured .function params body (declared o.top x o.names :: env os)) := h.allowed
  rw [← around] at few constants fits allowed
  have closure : Decides ⟨(o.declare x).ask (declaredConstants o.top x) :: os, classes⟩
      (buildFunction .function x params (within n fun n => do body.build n; advance))
      (params.Nodup ∧ body.Lawful .function classes (some params)) fun _ =>
      ⟨(o.declare x).spend (declaredConstants o.top x ++ [Literal.function])
        (closureSize .function params body (env (o.declare x :: os))) :: os, classes⟩ :=
    (closure_decided (o := (o.declare x).ask (declaredConstants o.top x)) ih h.settled.declare
      (h.regular.head rfl) h.proper.2.2 arity few constants fits h.deep allowed second).loosen
      fun _ => ⟨rfl, rfl, rfl, (List.append_assoc _ _ _).symm, rfl, Nat.le_refl _, List.Subset.refl _⟩
  have all : Decides ⟨o :: os, classes⟩ ((Stmt.function x params body).build n) _ _ :=
    decides_advance.after fun _ => (decides_bindInitialized h.settled place first).bind fun constant =>
      closure.before fun _ => decides_defineDeclared constant _ _
  rw [around] at all
  exact all.congr (and_congr_left fun _ => ((h.same rfl).2 x).symm)

/-! ## Classes -/

lemma slotZero_method (x : String) :
    (if x = "init" then BodyKind.initializer else .method).slotZero = BodyKind.method.slotZero := by
  split <;> rfl

/-- Methods declare no variables where they stand. -/
lemma outline_methods (ms : Stmt .methods) (o : Outline) : ms.outline o = o := by
  cases ms <;> rfl

lemma method_decided {x : String} {params : List String} {body : Stmt .declarations} {ms : Stmt .methods}
    (ih : body.Decided) (ihs : ms.Decided) : (Stmt.method x params body ms).Decided := by
  intro n o os top here classes h
  obtain ⟨arity, few, constants, fits, others⟩ := h.fits
  obtain ⟨deep, deep'⟩ := Nat.max_le.1 h.deep
  obtain ⟨first, later⟩ := Room.cons h.room
  obtain ⟨second, third⟩ := Room.cons later
  obtain ⟨inside, outside⟩ := allows_append.1 h.allowed
  have zero := slotZero_method x
  show Decides _ (do
    advance
    let constant ← stringConstant x
    buildFunction (if x = "init" then .initializer else .method) x params
      (within n fun n => do body.build n; advance)
    emit (.method constant)
    ms.build n) (params.Nodup ∧ body.Lawful (if x = "init" then .initializer else .method) classes
      (some params) ∧ ms.Lawful o.kind classes here) _
  generalize (if x = "init" then BodyKind.initializer else .method) = kind at fits zero ⊢
  have same : captured .method params body (o.names :: env os) =
      captured kind params body (env (o :: os)) := by
    unfold captured
    rw [zero]
    rfl
  rw [← zero] at constants fits
  have closure : Decides ⟨o.ask [.string x] :: os, classes⟩
      (buildFunction kind x params (within n fun n => do body.build n; advance)) _ fun _ =>
      ⟨(o.ask [.string x]).spend [.function] (closureSize kind params body (env (o :: os))) :: os, classes⟩ :=
    closure_decided (o := o.ask [.string x]) ih h.settled (h.regular.head rfl) h.proper.2.1 arity
      (same ▸ few) constants fits deep (same ▸ inside) second
  have more : ms.Stands n ((o.ask [.string x]).spend [.function]
      (closureSize kind params body (env (o :: os))) |>.grow 2) os top here :=
    { settled := h.settled, regular := h.regular.head rfl, proper := h.proper.2.2, level := nofun
      same := nofun, fits := others, deep := deep', room := third, allowed := outside }
  have all : Decides ⟨o :: os, classes⟩ _ _ _ :=
    decides_advance.after fun _ => (decides_stringConstant first).after fun constant =>
      closure.bind fun _ => (decides_emitSized (.method constant) 2 rfl).after fun _ => ihs more
  rw [outline_methods] at all
  refine (all.congr and_assoc).spending fun _ => ⟨rfl, rfl, rfl, ?_, rfl, ?_, List.Subset.refl _⟩
  · show o.constants ++ ([Literal.string x] ++ ([Literal.function] ++ _)) =
      o.constants ++ [Literal.string x] ++ [Literal.function] ++ _
    rw [List.append_assoc, List.append_assoc]
    rfl
  · have size : closureSize .method params body (env (o :: os)) =
        closureSize kind params body (env (o :: os)) := by
      unfold closureSize
      rw [show captured .method params body (env (o :: os)) = _ from same]
    show _ ≤ o.size + (closureSize .method params body (env (o :: os)) + 2 + _)
    rw [size, size_spend, size_grow, size_spend, size_ask]
    exact Nat.le_of_eq (by
      show o.size + _ + 2 + ms.size o.kind (env os) top o.names = _
      omega)


/-- The open classes change. -/
lemma decides_classes {Γ : Outlook} (f : List Bool → List Bool) :
    Decides Γ (modify fun s => { s with classes := f s.classes }) True
      fun _ => ⟨Γ.outlines, f Γ.classes⟩ where
  careful := inferInstance
  lawful _ s clean holds := by
    refine ⟨⟨clean.diagnostics, clean.calm, clean.fault⟩, holds.outlines, holds.captures, ?_,
      holds.proper, holds.serials⟩
    exact congrArg f holds.classes
  unlawful not := absurd trivial not

/-- A class is made and declared. -/
lemma decides_declareClass {x : String} (settled : o.Settled) (place : HasPlace o.top o.names)
    (room : Room (o.constants ++ [.string x])) :
    Decides ⟨o :: os, classes⟩ (do
      let constant ← stringConstant x
      declareName x
      emit (.makeClass constant)
      defineVariable constant) (Fresh o.here x) fun _ =>
      ⟨(o.declare x).spend [.string x] (2 + definedSize o.top) :: os, classes⟩ := by
  by_cases top : o.depth = 0
  · have nowhere : o.here = none := if_pos top
    rw [show o.top = true from decide_eq_true top, nowhere]
    have all : Decides ⟨o :: os, classes⟩ _ True _ :=
      (decides_stringConstant room).after fun constant =>
        (decides_declareName_top (x := x) (o := o.ask [.string x]) top).after fun _ =>
          (decides_emitSized (.makeClass constant) 2 rfl).after fun _ =>
            decides_defineVariable_top constant top
    refine (all.congr (iff_true_intro fresh_none).symm).loosen fun _ =>
      ⟨rfl, rfl, ?_, rfl, rfl, Nat.le_refl _, List.Subset.refl _⟩
    show (if o.depth = 0 then o.locals else _) = o.locals
    rw [if_pos top]
  · have inner : o.top = false := decide_eq_false top
    rw [inner] at place ⊢
    have free : o.locals.length < maxOperands :=
      settled.length ▸ place.resolve_left Bool.false_ne_true
    have all : Decides ⟨o :: os, classes⟩ _ (Fresh o.here x) _ :=
      (decides_stringConstant room).after fun constant =>
        (decides_declareName (o := o.ask [.string x]) top free).before fun _ =>
          (decides_emitSized (.makeClass constant) 2 rfl).after fun _ =>
            decides_defineVariable (o := ((o.ask [.string x]).push x).grow 2) constant rfl top
    refine all.loosen fun _ => ⟨rfl, rfl, ?_, rfl, rfl, Nat.le_refl _, List.Subset.refl _⟩
    show (if o.depth = 0 then o.locals else _) = _
    rw [if_neg top]
    rfl

/-- The outline where the methods of a class stand. -/
def inClass (superclass : Option String) (o : Outline) : Outline :=
  { o with
    depth := if superclass.isSome then o.depth + 1 else o.depth
    locals := if superclass.isSome then ("super", some (o.depth + 1)) :: o.locals else o.locals }

lemma inClass_settled (superclass : Option String) (settled : o.Settled) :
    (inClass superclass o).Settled := by
  cases superclass with
  | none => exact settled
  | some y => exact List.forall_mem_cons.2 ⟨⟨o.depth + 1, Nat.le_refl _, rfl⟩, settled.enter⟩

lemma inClass_names (superclass : Option String) (settled : o.Settled) :
    (inClass superclass o).names = classNames superclass o.names := by
  rw [(inClass_settled superclass settled).names, settled.names]
  cases superclass <;> rfl

/-- A superclass is another class, and its scope is entered. -/
lemma decides_buildSuperclass {x : String} {superclass : Option String} (settled : o.Settled)
    (regular : Regular (o :: os)) (place : superclass.isSome → o.names.length < maxOperands)
    (room : Room (o.constants ++ superclassConstants x superclass o.names (env os)))
    (allowed : o.Allows (superclassMentions x superclass o.names (env os))) :
    Decides ⟨o :: os, false :: classes⟩ (buildSuperclass x superclass) (superclass ≠ some x) fun _ =>
      ⟨(inClass superclass o).spend (superclassConstants x superclass o.names (env os))
        (superclass.elim 0 fun _ => 5) :: os, superclass.isSome :: classes⟩ := by
  cases superclass with
  | none =>
    exact ((Decides.pure ()).congr (iff_of_true trivial nofun)).spending fun _ =>
      ⟨rfl, rfl, rfl, List.append_nil _, rfl, Nat.le_refl _, List.Subset.refl _⟩
  | some y =>
    obtain ⟨own, others⟩ := allows_cons.1 allowed
    obtain ⟨first, second⟩ := Room.split room
    let o₁ := o.spend (nameConstants (o.names :: env os) y) 2
    let o₂ := (inClass (some y) o).spend (nameConstants (o.names :: env os) y) 2
    have declares : Decides ⟨o₁.enter.push "super" :: os, false :: classes⟩ markInitialized True
        fun _ => ⟨o₂ :: os, false :: classes⟩ :=
      decides_markInitialized (o := o₁.enter.push "super") rfl (Nat.succ_ne_zero _)
    have names : o₂.names = "super" :: o.names := inClass_names (some y) settled
    rw [← names] at second others
    have rereads : Decides ⟨o₂ :: os, false :: classes⟩ (readVariable x) _ _ :=
      decides_plainRead (o := o₂) (inClass_settled (some y) settled) (regular.head rfl) second
        (others _ List.mem_cons_self)
    have free : o.locals.length < maxOperands := settled.length ▸ place rfl
    have enters : Decides ⟨o₁ :: os, false :: classes⟩ (do
        beginScope
        addLocal "super"
        markInitialized
        readVariable x
        emit .inherit
        modify fun s => { s with classes := true :: s.classes.drop 1 }) True _ :=
      decides_beginScope.after fun _ => (decides_addLocal (o := o₁.enter) free).after fun _ =>
        declares.after fun _ => rereads.after fun _ => (decides_emitSized .inherit 1 rfl).after fun _ =>
          decides_classes fun classes => true :: classes.drop 1
    have all : Decides ⟨o :: os, false :: classes⟩ (buildSuperclass x (some y)) (¬y = x) _ :=
      decides_advance.after fun _ => decides_advance.after fun _ =>
        (decides_plainRead settled regular first own).after fun _ =>
          (Decides.refusing .inheritsItself enters).congr (and_iff_left trivial)
    rw [names] at all
    refine (all.congr (not_congr Option.some_inj.symm)).spending fun _ =>
      ⟨rfl, rfl, rfl, (List.append_assoc _ _ _).symm, rfl, Nat.le_refl _, List.Subset.refl _⟩

/-- Leaving a class takes its superclass off the stack. -/
lemma decides_leaveClass {superclass : Option String} (settled : o.Settled) (ls : List Literal)
    (bytes : Nat) (ms : List (Nat × Nat)) :
    Decides ⟨{ inClass superclass o with constants := ls, size := bytes, marks := ms } :: os,
      superclass.isSome :: classes⟩ leaveClass True fun _ =>
      ⟨{ o with constants := ls, size := bytes + superclass.elim 0 fun _ => 1, marks := ms } :: os,
        classes⟩ := by
  refine .get (f := do
    modify fun s => { s with classes := s.classes.drop 1 }
    if superclass.isSome then endScope) (fun s holds => by rw [holds.classes]; rfl) ?_
  refine (decides_classes fun classes => classes.drop 1).after fun _ => ?_
  cases superclass with
  | none => exact Decides.pure ()
  | some y =>
    have locals : (inClass (some y) o).locals = [("super", some (o.depth + 1))] ++ o.locals := rfl
    refine (decides_endScope
      (o := { inClass (some y) o with constants := ls, size := bytes, marks := ms }) locals
      (fun v there => List.mem_singleton.1 there ▸ rfl) fun v there => ?_).loosen
      fun _ => ⟨rfl, rfl, rfl, rfl, rfl, Nat.le_refl _, List.Subset.refl _⟩
    obtain ⟨d, le, given⟩ := settled v there
    exact ⟨d, Nat.lt_succ_of_le le, given⟩

lemma cls_decided {x : String} {superclass : Option String} {ms : Stmt .methods} (ih : ms.Decided) :
    (Stmt.cls x superclass ms).Decided := by
  intro n o os top here classes h
  obtain rfl := h.level rfl
  obtain ⟨place, place', fits⟩ := h.fits
  obtain ⟨name, later⟩ := Room.cons h.room
  obtain ⟨first, later⟩ := Room.split later
  obtain ⟨second, third⟩ := Room.split later
  obtain ⟨own, others⟩ := allows_append.1 h.allowed
  obtain ⟨again, others⟩ := allows_cons.1 others
  let o₁ := (o.declare x).spend [.string x] (2 + definedSize o.top)
  have settled : o₁.Settled := h.settled.declare (x := x)
  have regular : Regular (o₁ :: os) := h.regular.head rfl
  have names : o₁.names = declared o.top x o.names := h.settled.names_declare
  rw [← names] at place' first own second third again others fits
  let o₂ := (inClass superclass o₁).spend (superclassConstants x superclass o₁.names (env os))
    (superclass.elim 0 fun _ => 5)
  have inherits : Decides ⟨o₁ :: os, false :: classes⟩ (buildSuperclass x superclass)
      (superclass ≠ some x) fun _ => ⟨o₂ :: os, superclass.isSome :: classes⟩ :=
    decides_buildSuperclass settled regular place' first own
  have settled₂ : o₂.Settled := inClass_settled superclass settled
  have regular₂ : Regular (o₂ :: os) := regular.head rfl
  have names₂ : o₂.names = classNames superclass o₁.names := inClass_names superclass settled
  rw [← names₂] at second third again others fits
  have reads : Decides ⟨o₂ :: os, superclass.isSome :: classes⟩ (readVariable x) _ _ :=
    decides_plainRead settled₂ regular₂ second again
  have inside : ms.Stands n (o₂.spend (nameConstants (o₂.names :: env os) x) 2) os false here :=
    { settled := settled₂, regular := regular₂.head rfl, proper := h.proper.2.2, level := nofun
      same := nofun, fits, deep := h.deep, room := third, allowed := others }
  have methods : Decides ⟨o₂.spend (nameConstants (o₂.names :: env os) x) 2 :: os,
      superclass.isSome :: classes⟩ (ms.build n) _ _ := ih inside
  rw [outline_methods] at methods
  have leaves : ∀ ls bytes ms, Decides ⟨{ inClass superclass o₁ with
      constants := ls, size := bytes, marks := ms } :: os, superclass.isSome :: classes⟩ leaveClass True _ :=
    fun ls bytes ms => decides_leaveClass settled ls bytes ms
  have all : Decides ⟨o :: os, classes⟩ ((Stmt.cls x superclass ms).build n) _ _ :=
    decides_advance.after fun _ => decides_advance.after fun _ =>
      (decides_declareClass h.settled place name).bind fun _ =>
        (decides_classes fun classes => false :: classes).after fun _ => inherits.bind fun _ =>
          reads.after fun _ => decides_advance.after fun _ => methods.before fun _ =>
            decides_advance.after fun _ => (decides_emitSized .pop 1 rfl).after fun _ => leaves _ _ _
  refine (all.congr (and_congr_left fun _ => ((h.same rfl).2 x).symm)).loosen fun _ =>
    ⟨rfl, rfl, rfl, ?_, rfl, ?_, List.Subset.refl _⟩
  · show o.constants ++ (.string x :: (superclassConstants x superclass (declared o.top x o.names) (env os) ++
      (nameConstants (classNames superclass (declared o.top x o.names) :: env os) x ++
        ms.constants (env os) false (classNames superclass (declared o.top x o.names))))) =
      o.constants ++ [Literal.string x] ++ superclassConstants x superclass o₁.names (env os) ++
        nameConstants (o₂.names :: env os) x ++ ms.constants (env os) false o₂.names
    rw [names₂, names, List.append_assoc, List.append_assoc, List.append_assoc]
    rfl
  · show o.size + (2 + definedSize o.top) + (superclass.elim 0 fun _ => 5) + 2 +
        ms.size o.kind (env os) false o₂.names + 1 + (superclass.elim 0 fun _ => 1) ≤
      o.size + (definedSize o.top + (superclass.elim 0 fun _ => 6) + 5 +
        ms.size o.kind (env os) false (classNames superclass (declared o.top x o.names)))
    rw [names₂, names]
    cases superclass <;> dsimp only [Option.elim] <;> omega

/-! ## Sequences -/

/-- What else is known of the function does not matter for the variables. -/
lemma Stmt.outline_spend (t : Stmt s) : ∀ (o : Outline) (ls : List Literal) (bytes : Nat),
    t.outline (o.spend ls bytes) = (t.outline o).spend ls bytes := by
  induction t with
  | declare d ds ihd ihds =>
    intro o ls bytes
    show ds.outline (d.outline (o.spend ls bytes)) = _
    rw [ihd, ihds]
    rfl
  | _ => exact fun _ _ _ => rfl

lemma declare_decided {d : Stmt .declaration} {ds : Stmt .declarations} (ih : d.Decided)
    (ihs : ds.Decided) : (Stmt.declare d ds).Decided := by
  intro n o os top here classes h
  obtain ⟨deep, deep'⟩ := Nat.max_le.1 h.deep
  obtain ⟨first, second⟩ := Room.split h.room
  obtain ⟨own, others⟩ := allows_append.1 h.allowed
  have here_ : d.Stands n o os top here :=
    { settled := h.settled, regular := h.regular, proper := h.proper.1, level := h.level, same := h.same
      fits := h.fits.1, deep, room := first, allowed := own }
  have extended := d.outline_extends o
  have names : (d.outline o).names = d.after top o.names := d.outline_names h.settled fun _ => h.level rfl
  have settled := extended.settled h.settled
  have regular := extended.regular h.regular
  have level := extended.top
  have same := d.outline_here (h.same rfl)
  have later : ds.Stands n ((d.outline o).spend (d.constants (env os) top o.names)
      (d.size o.kind (env os) top o.names)) os top (d.declares here) := by
    have fits := h.fits.2
    rw [← names] at fits second others
    obtain ⟨inner, split, -⟩ := extended
    rw [split] at fits second others ⊢
    exact
      { settled := split ▸ settled, regular := (split ▸ regular).head rfl, proper := h.proper.2
        level := fun _ => h.level rfl, same := fun _ => split ▸ same
        fits, deep := deep', room := second, allowed := others }
  have all : Decides ⟨o :: os, classes⟩ ((Stmt.declare d ds).build n) _ _ :=
    (ih here_).bind fun _ => ihs later
  have names' : ∀ ls bytes, ((d.outline o).spend ls bytes).names = d.after top o.names := fun _ _ => names
  have kind : ∀ ls bytes, ((d.outline o).spend ls bytes).kind = o.kind := fun _ _ => by
    obtain ⟨inner, split, -⟩ := extended
    rw [split]
    rfl
  rw [Stmt.outline_spend, names', kind] at all
  exact all.spending fun _ => ⟨rfl, rfl, rfl, (List.append_assoc _ _ _).symm, rfl,
    Nat.le_of_eq (Nat.add_assoc _ _ _), List.Subset.refl _⟩

lemma nothing_decided {t : Stmt s} (build : ∀ n, t.build n = pure ()) (outline : ∀ o, t.outline o = o)
    (lawful : ∀ kind classes here, t.Lawful kind classes here) (constants : ∀ around top names,
      t.constants around top names = []) : t.Decided := by
  intro n o os top here classes h
  rw [build, outline, constants]
  refine ((Decides.pure ()).congr (iff_true_intro (lawful _ _ _)).symm).spending fun _ =>
    ⟨rfl, rfl, rfl, List.append_nil _, rfl, Nat.le_add_right _ _, List.Subset.refl _⟩

theorem Stmt.decides (t : Stmt s) : t.Decided := by
  induction t with
  | print e => exact print_decided e
  | expression e => exact expression_decided e
  | ret value => exact ret_decided value
  | ifThen c t ih => exact ifThen_decided ih
  | ifElse c t e iht ihe => exact ifElse_decided iht ihe
  | whileLoop c body ih => exact whileLoop_decided ih
  | forLoop first c step body ih => exact forLoop_decided ih
  | block ds ih => exact block_decided ih
  | statement t ih => exact statement_decided ih
  | var x value => exact var_decided x value
  | function x params body ih => exact function_decided ih
  | cls x superclass ms ih => exact cls_decided ih
  | noDeclarations =>
    exact nothing_decided (t := .noDeclarations) (fun _ => rfl) (fun _ => rfl) (fun _ _ _ => True.intro)
      fun _ _ _ => rfl
  | noMethods =>
    exact nothing_decided (t := .noMethods) (fun _ => rfl) (fun _ => rfl) (fun _ _ _ => True.intro) fun _ _ _ => rfl
  | declare d ds ihd ihds => exact declare_decided ihd ihds
  | method x params body ms ih ihs => exact method_decided ih ihs

/-! ## The script -/

/-- A variable of one of the innermost `n` functions, or a global. -/
def Variable.Within (n : Nat) : Variable → Prop
  | .bound outwards _ => outwards < n
  | .global _ => True

lemma Variable.Within.captured {n : Nat} {v w : Variable} (h : v.Within (n + 1)) (seen : w ∈ v.captured?) :
    w.Within n := by
  cases v with
  | global => exact nomatch seen
  | bound outwards place =>
    cases outwards with
    | zero => exact nomatch seen
    | succ outwards =>
      obtain rfl := Option.some.inj seen
      exact Nat.lt_of_succ_lt_succ h

lemma meaning_within {x : String} : ∀ env : Env, (meaning x env).Within env.length
  | [] => trivial
  | names :: further => by
    unfold meaning
    cases placeOf? x names with
    | some place => exact Nat.succ_pos _
    | none =>
      have outer := meaning_within (x := x) further
      show (meaning x further).outside.Within _
      cases inside : meaning x further with
      | global => trivial
      | bound outwards place =>
        rw [inside] at outer
        exact Nat.succ_lt_succ outer

lemma Expr.mentions_within {r : ExprSort} (e : Expr r) {env : Env} :
    ∀ v ∈ e.mentions env, v.Within env.length := by
  induction e <;> simp_all [Expr.mentions, meaning_within, or_imp]

lemma clauseMentions_within (e : Option (Expr .expression)) {env : Env} :
    ∀ v ∈ clauseMentions env e, v.Within env.length := by
  cases e with
  | none => exact fun _ there => absurd there List.not_mem_nil
  | some e => exact e.mentions_within

lemma Initializer.mentions_within (first : Initializer) {env : Env} :
    ∀ v ∈ first.mentions env, v.Within env.length := by
  cases first with
  | none => exact fun _ there => absurd there List.not_mem_nil
  | var x value => exact clauseMentions_within value
  | expression e => exact e.mentions_within

lemma superclassMentions_within {x : String} (superclass : Option String) {names : List String}
    {around : Env} : ∀ v ∈ superclassMentions x superclass names around, v.Within (around.length + 1) := by
  cases superclass with
  | none => exact fun _ there => absurd there List.not_mem_nil
  | some y =>
    exact List.forall_mem_cons.2 ⟨meaning_within (names :: around),
      List.forall_mem_singleton.2 (meaning_within (("super" :: names) :: around))⟩

lemma captures_within {vs : List Variable} {n : Nat} (h : ∀ v ∈ vs, v.Within (n + 1)) :
    ∀ v ∈ vs.filterMap Variable.captured?, v.Within n := by
  intro w there
  obtain ⟨v, inside, seen⟩ := List.mem_filterMap.1 there
  exact (h v inside).captured seen

/-- A phrase mentions only variables of the functions around it. -/
lemma Stmt.mentions_within (t : Stmt s) : ∀ {around : Env} {top : Bool} {names : List String},
    ∀ v ∈ t.mentions around top names, v.Within (around.length + 1) := by
  have expression : ∀ (e : Expr .expression) (around : Env) (names : List String),
      ∀ v ∈ e.mentions (names :: around), v.Within (around.length + 1) := fun e _ _ => e.mentions_within
  have clause : ∀ (e : Option (Expr .expression)) (around : Env) (names : List String),
      ∀ v ∈ clauseMentions (names :: around) e, v.Within (around.length + 1) :=
    fun e _ _ => clauseMentions_within e
  induction t with
  | print e | expression e => exact expression e _ _
  | ret value | var x value => exact clause value _ _
  | ifThen c t ih => exact List.forall_mem_append.2 ⟨expression c _ _, ih⟩
  | ifElse c t e iht ihe =>
    exact List.forall_mem_append.2 ⟨expression c _ _, List.forall_mem_append.2 ⟨iht, ihe⟩⟩
  | whileLoop c body ih => exact List.forall_mem_append.2 ⟨expression c _ _, ih⟩
  | forLoop first c step body ih =>
    exact List.forall_mem_append.2 ⟨first.mentions_within, List.forall_mem_append.2 ⟨clause c _ _,
      List.forall_mem_append.2 ⟨clause step _ _, ih⟩⟩⟩
  | block ds ih => exact ih
  | statement t ih => exact ih
  | function x params body ih => exact captures_within ih
  | cls x superclass ms ih =>
    exact List.forall_mem_append.2 ⟨superclassMentions_within superclass,
      List.forall_mem_cons.2 ⟨meaning_within (_ :: _), ih⟩⟩
  | declare d ds ihd ihds => exact List.forall_mem_append.2 ⟨ihd, ihds⟩
  | method x params body ms ih ihs => exact List.forall_mem_append.2 ⟨captures_within ih, ihs⟩
  | noDeclarations | noMethods => exact fun _ there => absurd there List.not_mem_nil

/-- What is known before the first token. -/
lemma start_holds {tokens : Array Token} (strings : StringTable) (serial : Nat)
    (proper : ∀ t ∈ tokens.toList, ∀ fault, t.kind ≠ .malformed fault) :
    Outlook.Holds ⟨[.opened .script []], []⟩ (State.start tokens strings serial) where
  outlines := .cons
    { kind := rfl, depth := rfl, locals := rfl, constants := rfl
      few := show 1 ≤ maxOperands by decide
      marks := fun _ there => absurd there List.not_mem_nil } .nil
  captures := ⟨List.nodup_nil, nofun, trivial⟩
  classes := rfl
  proper := proper
  serials := by
    intro b there p constant
    obtain rfl := List.mem_singleton.1 there
    exact absurd constant (Array.not_mem_empty _)

/-- The script stands at the outermost level and captures nothing. -/
lemma Stmt.stands_script {ds : Stmt .declarations} (proper : ds.Proper) (deep : ds.depth ≤ n)
    (constants : Room (ds.constants [] true [BodyKind.script.slotZero]))
    (fits : ds.Fits .script [] true [BodyKind.script.slotZero]) :
    ds.Stands n (.opened .script []) [] true none where
  settled := by
    intro v there
    obtain rfl := List.mem_singleton.1 there
    exact ⟨0, Nat.le_refl _, rfl⟩
  regular := ⟨fun _ there => absurd there List.not_mem_nil, List.forall_mem_singleton.2 (by decide), trivial⟩
  proper := proper
  level := fun _ => rfl
  same := fun _ => ⟨rfl, fun _ => Iff.rfl⟩
  fits := fits
  deep := deep
  room := constants
  allowed := by
    intro v there w seen
    have within := (ds.mentions_within v there).captured seen
    cases v with
    | global => exact nomatch seen
    | bound outwards place =>
      cases outwards with
      | zero => exact nomatch seen
      | succ outwards =>
        obtain rfl := Option.some.inj seen
        exact absurd within (Nat.not_lt_zero _)

lemma WithinLimits.stands {ds : Stmt .declarations} (h : WithinLimits ds) (proper : ds.Proper) :
    ds.Stands maxNesting (.opened .script []) [] true none :=
  Stmt.stands_script proper h.depth h.constants h.fits

lemma takeBody_clean (s : State) : (takeBody s).2.Clean ↔ s.Clean := by
  have kept : (takeBody s).2.diagnostics = s.diagnostics ∧ (takeBody s).2.panicking = s.panicking ∧
      (takeBody s).2.fault = s.fault := by
    rcases s with ⟨_, _, _, _, _, _, _, enclosing, _, _, _, _, _⟩
    cases enclosing <;> exact ⟨rfl, rfl, rfl⟩
  constructor
  · exact fun h => ⟨kept.1 ▸ h.diagnostics, kept.2.1 ▸ h.calm, kept.2.2 ▸ h.fault⟩
  · exact fun h => ⟨kept.1.trans h.diagnostics, kept.2.1.trans h.calm, kept.2.2.trans h.fault⟩

/-- Compiling a script complains unless it is lawful. -/
lemma buildScript_clean {tokens : Array Token} {ds : Stmt .declarations} (strings : StringTable)
    (serial : Nat) (proper : ∀ t ∈ tokens.toList, ∀ fault, t.kind ≠ .malformed fault)
    (whole : ds.Proper) (limits : WithinLimits ds) :
    (ds.buildScript (State.start tokens strings serial)).2.Clean ↔ LawfulProgram ds := by
  let act : Compiling Unit := do
    advance
    ds.build maxNesting
    advance
    emitReturn
  have body : Decides ⟨[.opened .script []], []⟩ act (LawfulProgram ds) _ :=
    decides_advance.after fun _ => (ds.decides (limits.stands whole)).before fun _ =>
      decides_advance.after fun _ => decides_emitReturn
  have clean : (State.start tokens strings serial).Clean := ⟨rfl, rfl, rfl⟩
  have holds := start_holds strings serial proper
  generalize State.start tokens strings serial = start at clean holds
  have taken : (ds.buildScript start).2 = (takeBody (act start).2).2 := rfl
  rw [taken, takeBody_clean]
  constructor
  · intro final
    by_contra unlawful
    exact body.unlawful unlawful start clean holds final.diagnostics
  · exact fun lawful => (body.lawful lawful start clean holds).1

end Lox.Syntax

namespace Lox

open Compile Syntax

/-- A program that is within the limits compiles exactly if it keeps to the static rules. -/
theorem compile_ok_iff_lawful {source : String} {ds : Stmt .declarations}
    (reads : ReadsProgram ((Token.scan source).toList.map Token.word) ds) (limits : WithinLimits ds)
    (strings : StringTable) (serial : Nat) :
    (∃ p, (compile source strings serial).outcome = .ok p) ↔ LawfulProgram ds := by
  have proper := reads.proper
  have whole : ds.Proper := by
    obtain ⟨rest, tree, -⟩ := reads
    exact (tree.proper (Token.properWords_scan source)).1
  rw [← buildScript_clean strings serial proper whole limits]
  constructor
  · rintro ⟨p, ok⟩
    obtain ⟨s, built⟩ := (compile_builds reads strings serial).1 ok
    rw [built.eq]
    exact built.clean
  · intro clean
    have built : Runs ds.buildScript (State.start (Token.scan source) strings serial) _ _ :=
      ⟨rfl, fun panicking => absurd panicking Bool.false_ne_true, clean⟩
    exact ⟨_, (compile_builds reads strings serial).2 ⟨_, built⟩⟩

/-- A variable of a block is not there yet in its own initializer. -/
theorem compile_ok_iff_lawful_initializer :
    ∃ ds, ReadsProgram ((Token.scan "{ var x = x; }").toList.map Token.word) ds ∧ WithinLimits ds ∧
      ¬LawfulProgram ds ∧ ¬∃ p, (compile "{ var x = x; }" .empty 0).outcome = .ok p := by
  let block : Stmt .declarations := .declare (.var "x" (some (.name "x"))) .noDeclarations
  let tree : Stmt .declarations := .declare (.statement (.block block)) .noDeclarations
  have words : (Token.scan "{ var x = x; }").toList.map Token.word =
      [.mark .leftBrace, .mark .kwVar, .name "x", .mark .equal, .name "x", .mark .semicolon,
        .mark .rightBrace, .mark .endOfInput] := by decide +kernel
  have value : ∀ ws, ReadsExpr (.name "x" :: .mark .semicolon :: ws) (.name "x") (.mark .semicolon :: ws) :=
    fun ws => Goal.Reads.operators (.name nofun) (.done fun ⟨kind, p, next, binds, _⟩ => by
      obtain rfl := Option.some.inj next
      exact nomatch binds)
  have reads : ReadsProgram ((Token.scan "{ var x = x; }").toList.map Token.word) tree := by
    rw [words]
    exact ⟨[.mark .endOfInput], .declare (.statement (.block (.declare (.var (.some (value _)))
      (.noDeclarations (Or.inl rfl))))) (.noDeclarations (Or.inr rfl)), rfl⟩
  have limits : WithinLimits tree :=
    ⟨by decide, by decide, ⟨⟨fun e there => Option.some.inj there ▸ trivial, Or.inr (by decide)⟩, trivial⟩, trivial⟩
  have unlawful : ¬LawfulProgram tree := fun lawful => lawful.1.1.2 _ rfl rfl
  exact ⟨tree, reads, limits, unlawful, fun ok => unlawful ((compile_ok_iff_lawful reads limits _ _).1 ok)⟩

end Lox
