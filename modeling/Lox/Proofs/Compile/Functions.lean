import Lox.Proofs.Compile.ExpressionCode
import Lox.Proofs.Compile.Scopes

/-!
# Functions

A function is read into a body of its own, and then its prototype becomes a constant of the function
around it.  When the body is closed, the state before the closing is the whole past of the function,
so its own constants and captures are the context of its code (`State.context`).
-/

namespace Lox.Compile

open Syntax

variable {s s' : State}

/-! ## Passages -/

/-- An action has read a phrase, emitted its code and declared `k` locals; `top` tells whether its
variables are globals. -/
structure Passage {σ : StmtSort} (top : Bool) (ws rest : List Word) (s s' : State) (t : Stmt σ)
    (code : List Instr) (k : Nat) : Prop where
  reads : Stmt.Reads ws t rest
  progress : Progress s s' code k
  emits : ∀ Γ L, Future s' Γ L → ∃ items, t.Emits Γ top (L.drop k) items L ∧ instrs items = code

/-- The actions for nested phrases read such phrases. -/
structure Level.Reads (inner : Level) : Prop where
  expressions : inner.ReadsExpressions
  statement : ∀ {s s' : State} {u : Unit}, Runs inner.statement s u s' → s.Sound →
    s.body.Settled → ∃ (t : Stmt .statement) (code : List Instr),
      ∀ top, Passage top s.words s'.words s s' t code 0
  block : ∀ {s s' : State} {u : Unit}, Runs inner.block s u s' → s.Sound → s.body.Settled →
    s.body.depth ≠ 0 → ∃ (ds : Stmt .declarations) (code : List Instr) (k : Nat),
      Passage false s.words (.mark .rightBrace :: s'.words) s s' ds code k

/-! ## The end of a body -/

lemma Body.code_chunk (b : Body) : b.chunk.code.toList = bytes b.instrs := by
  have write : ∀ (bs : List UInt8) (line : Nat) (c : Chunk Constant),
      (bs.foldl (fun c byte => c.write byte line) c).code.toList = c.code.toList ++ bs := by
    intro bs line
    induction bs with
    | nil => exact fun c => (List.append_nil _).symm
    | cons byte bs ih =>
      intro c
      rw [List.foldl_cons, ih, Chunk.write, Array.toList_push, List.append_assoc]
      rfl
  have all : ∀ (code : List (Instr × Nat)) (c : Chunk Constant),
      (code.foldl (fun c (entry : Instr × Nat) =>
        entry.1.encode.foldl (fun c byte => c.write byte entry.2) c) c).code.toList =
          c.code.toList ++ bytes (code.map (·.1)) := by
    intro code
    induction code with
    | nil => exact fun c => (List.append_nil _).symm
    | cons entry code ih =>
      intro c
      rw [List.foldl_cons, ih, write, List.map_cons, bytes_cons, List.append_assoc]
  rw [Body.chunk, ← Array.foldl_toList]
  exact all b.code.toList _

lemma Body.constants_chunk (b : Body) : b.chunk.constants = b.constants := by
  have write : ∀ (bs : List UInt8) (line : Nat) (c : Chunk Constant),
      (bs.foldl (fun c byte => c.write byte line) c).constants = c.constants := by
    intro bs line
    induction bs with
    | nil => exact fun c => rfl
    | cons byte bs ih => exact fun c => ih _
  have all : ∀ (code : List (Instr × Nat)) (c : Chunk Constant),
      (code.foldl (fun c (entry : Instr × Nat) =>
        entry.1.encode.foldl (fun c byte => c.write byte entry.2) c) c).constants =
          c.constants := by
    intro code
    induction code with
    | nil => exact fun c => rfl
    | cons entry code ih =>
      intro c
      rw [List.foldl_cons, ih, write]
  rw [Body.chunk, ← Array.foldl_toList]
  exact all b.code.toList _

theorem emitReturn_spec {u : Unit} (run : Runs emitReturn s u s') (sound : s.Sound) :
    Progress s s' (returnCode s.body.kind) 0 ∧ SameTokens s s' := by
  unfold emitReturn at run
  rw [runs_get_bind] at run
  rcases runs_ite.1 run with ⟨kind, run⟩ | ⟨kind, run⟩
  · rw [runs_bind] at run
    obtain ⟨u₁, s₁, first, run⟩ := run
    obtain ⟨progress₁, tokens₁⟩ := emit_spec first sound
    obtain ⟨progress₂, tokens₂⟩ := emit_spec run progress₁.sound
    rw [kind]
    exact ⟨progress₁.trans progress₂, tokens₁.trans tokens₂⟩
  · rw [runs_bind] at run
    obtain ⟨u₁, s₁, first, run⟩ := run
    obtain ⟨progress₁, tokens₁⟩ := emit_spec first sound
    obtain ⟨progress₂, tokens₂⟩ := emit_spec run progress₁.sound
    have code : returnCode s.body.kind = [.pushNil, .ret] := by
      cases other : s.body.kind with
      | initializer => exact absurd other kind
      | script | function | method => rfl
    rw [code]
    exact ⟨progress₁.trans progress₂, tokens₁.trans tokens₂⟩

/-! ## Opening and closing a body -/

/-- The state at the start of a body inside. -/
def State.opened (s : State) (kind : BodyKind) (name : String) : State :=
  { s with body := .start kind name, enclosing := s.body :: s.enclosing }

lemma Body.sound_start (kind : BodyKind) (name : String) (serial : Nat) :
    (Body.start kind name).Sound serial where
  size := rfl
  localsFit := Nat.le_of_ble_eq_true rfl
  capturesFit := Nat.zero_le _
  constantsFit := Nat.zero_le _
  distinct := List.nodup_nil
  numbers x there := absurd there (Array.not_mem_empty _)
  prototypes p there := absurd there (Array.not_mem_empty _)
  depths v there d given := by
    rw [List.mem_singleton.1 there] at given
    exact Nat.le_of_eq (Option.some.inj given).symm

lemma Body.settled_start (kind : BodyKind) (name : String) : (Body.start kind name).Settled := by
  intro v there
  rw [List.mem_singleton.1 there]
  rfl

lemma State.Sound.opened (sound : s.Sound) (settled : s.body.Settled) (kind : BodyKind)
    (name : String) : (s.opened kind name).Sound where
  bodies b there := by
    rcases List.mem_cons.1 there with rfl | old
    · exact Body.sound_start kind name s.serial
    · exact sound.bodies b old
  linked := ⟨fun i bound => absurd bound (Nat.not_lt_zero i), sound.linked⟩
  settled b there := by
    rcases List.mem_cons.1 there with rfl | old
    · exact settled
    · exact sound.settled b old
  pending v there := absurd there List.not_mem_nil
  previous := sound.previous
  ahead := sound.ahead
  ends := sound.ends
  budget := sound.budget
  superclass inside := by
    obtain ⟨b, there, found⟩ := sound.superclass inside
    exact ⟨b, List.mem_cons_of_mem _ there, found⟩

lemma openBody_spec {kind : BodyKind} {name : String} {u : Unit}
    (run : Runs (openBody kind name) s u s') : s.opened kind name = s' :=
  congrArg Prod.snd run.eq

lemma Body.Sound.later {serial serial' : Nat} {b : Body} (h : b.Sound serial)
    (le : serial ≤ serial') : b.Sound serial' :=
  { h with prototypes := fun p there => Nat.lt_of_lt_of_le (h.prototypes p there) le }

/-- The state with another arity of the innermost body. -/
def State.withArity (s : State) (n : Nat) : State := { s with body := { s.body with arity := n } }

lemma State.Sound.withArity (sound : s.Sound) (n : Nat) : (s.withArity n).Sound :=
  sound.changeBody { sound.body with } (.refl _) rfl

lemma Progress.withArity {code : List Instr} {k : Nat} (h : Progress s s' code k) (n : Nat) :
    Progress (s.withArity n) (s'.withArity n) code k :=
  { h with sound := h.sound.withArity n, arity := rfl }

lemma Future.withoutArity {Γ : Context} {L : List Local} {n : Nat}
    (h : Future (s.withArity n) Γ L) : Future s Γ L :=
  ⟨h.kind, h.constants, h.captures, h.locals, h.around⟩

/-- The state at the start of a function's block, but for the parameters themselves. -/
def State.entered (s : State) (kind : BodyKind) (name : String) (arity : Nat) : State :=
  (s.opened kind name).inScope.withArity arity

/-- What a finished function refers to, in the functions `around` it. -/
def Body.context (b : Body) (around : List Scope) : Context where
  kind := b.kind
  constants := b.constants
  captures := b.captures
  around := around

/-- Nothing more may be to come. -/
lemma Future.now (settled : s.body.Settled) :
    Future s (s.body.context (s.enclosing.map Body.scope)) s.body.locals where
  kind := rfl
  constants := List.prefix_refl _
  captures := List.prefix_refl _
  locals := by
    rw [settled.visible]
    exact .refl _
  around := .refl _

/-- Closing a body emits its end and makes a prototype of it. -/
lemma closeBody_cases {result : Prototype × List Capture}
    (run : Runs closeBody s result s') :
    ∃ u s₁, Runs emitReturn s u s₁ ∧
      result = (s₁.body.assemble s₁.serial, s₁.body.captures.toList) ∧
      (s₁.enclosing = [] → s'.body = s₁.body) ∧
      ∀ around further, s₁.enclosing = around :: further → ∃ finished,
        s' = { s₁ with serial := s₁.serial + 1, finished, body := around, enclosing := further } := by
  unfold closeBody at run
  rw [runs_bind] at run
  obtain ⟨u, s₁, returns, run⟩ := run
  have eq := run.eq
  unfold takeBody at eq
  cases enclosing : s₁.enclosing with
  | nil =>
    simp only [modifyGet, MonadStateOf.modifyGet, StateT.modifyGet, enclosing] at eq
    obtain ⟨rfl, rfl⟩ := Prod.mk.inj eq
    exact ⟨u, s₁, returns, rfl, fun _ => rfl, fun _ _ around => nomatch enclosing ▸ around⟩
  | cons around further =>
    simp only [modifyGet, MonadStateOf.modifyGet, StateT.modifyGet, enclosing] at eq
    obtain ⟨rfl, rfl⟩ := Prod.mk.inj eq
    refine ⟨u, s₁, returns, rfl, fun none => absurd (enclosing.symm.trans none) (List.cons_ne_nil _ _),
      fun around' further' same => ?_⟩
    obtain ⟨rfl, rfl⟩ := List.cons.inj (enclosing ▸ same)
    exact ⟨_, rfl⟩

/-- A function that is closed without a fault is closed like any body. -/
lemma closeFunction_cases {result : Prototype × List Capture}
    (run : Runs closeFunction s result s') : Runs closeBody s result s' := by
  unfold closeFunction at run
  rw [runs_get_bind] at run
  rcases runs_ite.1 run with ⟨-, run⟩ | ⟨-, run⟩
  · rw [runs_bind] at run
    obtain ⟨u, s₁, fails, -⟩ := run
    exact absurd fails not_runs_fail
  · exact run

/-- Closing a body goes back to the one around it, which has at most captured variables
meanwhile. -/
theorem Progress.closeBody {kind : BodyKind} {name : String} {arity : Nat} {s₁ s₂ : State}
    {code : List Instr} {k : Nat} {result : Prototype × List Capture}
    (h : Progress (s.entered kind name arity) s₁ code k) (sound : s.Sound)
    (run : Runs Compile.closeBody s₁ result s₂) :
    ∃ s₃, Progress s₁ s₃ (returnCode kind) 0 ∧ SameTokens s₁ s₃ ∧
      result = (s₃.body.assemble s₃.serial, s₃.body.captures.toList) ∧
      Progress s s₂ [] 0 ∧ SameTokens s₃ s₂ ∧ s₂.serial = s₃.serial + 1 ∧
      (∀ q, Constant.prototype q ∈ s₂.body.constants → q.serial < s₃.serial) ∧
      s₂.body :: s₂.enclosing = s₃.enclosing := by
  obtain ⟨u, s₃, returns, result_eq, -, closed⟩ := closeBody_cases run
  obtain ⟨progress, tokens⟩ := emitReturn_spec returns h.sound
  rw [h.kind] at progress
  have whole := h.trans progress
  have deepens : BodiesDeepen (s.body :: s.enclosing) s₃.enclosing := whole.enclosing
  cases enclosing : s₃.enclosing with
  | nil =>
    rw [enclosing] at deepens
    exact nomatch deepens
  | cons around further =>
    rw [enclosing] at deepens
    obtain ⟨first, others⟩ := List.forall₂_cons.1 deepens
    have sound₃ := whole.sound
    obtain ⟨finished, rfl⟩ := closed around further enclosing
    let final : State :=
      { s₃ with serial := s₃.serial + 1, finished, body := around, enclosing := further }
    have there : around ∈ s₃.enclosing := by
      rw [enclosing]
      exact List.mem_cons_self
    have settled := sound₃.settled around there
    have body := sound₃.bodies around (List.mem_cons_of_mem _ there)
    have final_sound : final.Sound :=
      { bodies := fun b among => by
          refine (sound₃.bodies b ?_).later (Nat.le_succ _)
          rw [enclosing]
          exact List.mem_cons_of_mem _ among
        linked := by
          have linked := sound₃.linked.2
          rw [enclosing] at linked
          exact linked
        settled := fun b among => sound₃.settled b (by
          rw [enclosing]
          exact List.mem_cons_of_mem _ among)
        pending := fun v among => settled v (List.mem_of_mem_tail among)
        previous := sound₃.previous
        ahead := sound₃.ahead
        ends := sound₃.ends
        budget := sound₃.budget
        superclass := fun inside => by
          have classes : s₃.classes = s.classes := whole.classes
          rw [show final.classes = s.classes from classes] at inside
          exact State.Knows.grow (k := 0) (sound.superclass inside) first.scope.locals others }
    refine ⟨s₃, progress, tokens, result_eq, ?_, ⟨rfl, rfl, rfl⟩, rfl,
      fun q among => body.prototypes q among, enclosing.symm⟩
    exact
      { sound := final_sound
        kind := first.kind
        name := first.name
        arity := first.arity
        depth := first.depth
        instrs := first.instrs.trans (List.append_nil _).symm
        constants := first.constants ▸ List.prefix_refl _
        covers := fun p among => .inl (by
          rw [← first.constants]
          exact among)
        captures := first.scope.captures
        locals := first.scope.locals
        length := first.scope.locals.length_eq.symm
        fresh := rfl
        enclosing := others
        classes := whole.classes
        budget := whole.budget
        serial := Nat.le_succ_of_le whole.serial }

/-! ## Closures -/

/-- A new prototype gets an index of its own, and the code makes a closure of it. -/
theorem closure_spec {p : Prototype} {captures : List Capture} {index : UInt8} {s₁ : State}
    {u : Unit} (makes : Runs (makeConstant (.prototype p)) s index s₁)
    (emits : Runs (emit (.closure index captures)) s₁ u s') (sound : s.Sound)
    (fits : p.serial < s.serial)
    (new : ∀ q, Constant.prototype q ∈ s.body.constants → q.serial < p.serial) :
    Progress s s' [.closure index captures] 0 ∧ SameTokens s s' ∧
      s'.body.constants[index.toNat]? = some (.prototype p) := by
  have pooled := makeConstant_spec makes sound fits
  obtain ⟨progress, tokens⟩ := emit_spec emits pooled.sound
  obtain ⟨constants, rfl⟩ := pooled.state
  have found : constants[index.toNat]? = some (.prototype p) := by
    obtain ⟨c, found, same⟩ := pooled.found
    rcases same with rfl | ⟨old, same⟩
    · exact found
    · -- An older prototype has another serial number.
      cases c with
      | prototype q =>
        have equal : q.serial = p.serial := eq_of_beq same
        exact absurd equal (Nat.ne_of_lt (new q old))
      | number | string => exact absurd same Bool.false_ne_true
  have found' : s'.body.constants[index.toNat]? = some (.prototype p) :=
    getElem?_grow progress.constants found
  refine ⟨?_, ⟨tokens.previous, tokens.current, tokens.rest⟩, found'⟩
  exact
    { progress with
      constants := pooled.grows.trans progress.constants
      covers := by
        intro q there
        rcases progress.covers q there with before | covered
        · rcases pooled.entries _ before with old | same
          · exact .inl old
          · obtain rfl := Constant.prototype.inj same
            exact .inr ⟨index, captures, List.mem_singleton_self _, found'⟩
        · exact .inr covered }

/-! ## Parameters -/

lemma Declares.sound {x : String} {index : UInt8} (h : Declares s x index s') : s'.Sound := by
  cases h with
  | global _ progress _ => exact progress.sound
  | slot _ _ sound => exact sound

/-- Parameters have been read up to the mark after them: they are the innermost locals. -/
theorem parameters_spec :
    ∀ {fuel count : Nat} {s s' : State} {u : Unit}, Runs (parameters fuel (count + 1)) s u s' →
      s.Sound → s.body.Settled → s.body.depth ≠ 0 → s.words.length ≤ fuel →
      ∃ params : List String,
        (∀ rest, s'.words = .mark .rightParen :: rest → s.words = paramWords params ++ rest) ∧
        params ≠ [] ∧ count + params.length ≤ maxArity ∧
        Progress (s.withArity (count + params.length)) s' [] params.length ∧
        ∀ Γ L, Future s' Γ L →
          namesOf L = params.reverse ++ namesOf (L.drop params.length) := by
  intro fuel
  induction fuel with
  | zero =>
    intro count s s' u run sound settled inner enough
    rw [s.length_words] at enough
    exact absurd enough (Nat.not_succ_le_zero _)
  | succ fuel ih =>
    intro count s s' u run sound settled inner enough
    unfold parameters at run
    rcases runs_ite.1 run with ⟨-, run⟩ | ⟨few, run⟩
    · rw [runs_bind] at run
      obtain ⟨u₁, s₁, complains, -⟩ := run
      exact absurd complains not_runs_complainHere
    · have count_le : count + 1 ≤ maxArity := Nat.le_of_not_lt few
      rw [Nat.min_eq_left count_le, runs_bind] at run
      obtain ⟨u₁, s₁, changes, run⟩ := run
      have state : s.withArity (count + 1) = s₁ := congrArg Prod.snd changes.eq
      subst state
      have sound₁ := sound.withArity (count + 1)
      rw [runs_bind] at run
      obtain ⟨index, s₃, parses, run⟩ := run
      obtain ⟨identifier, s₂, moves, declares, tokens₃⟩ := parseVariable_spec parses sound₁ settled
      have depth₂ : s₂.body.depth ≠ 0 := by
        rw [moves.progress.depth]
        exact inner
      rw [runs_bind] at run
      obtain ⟨u₄, s₄, defines, run⟩ := run
      unfold defineVariable at defines
      cases declares with
      | global top => exact absurd top depth₂
      | slot _ state sound₃ =>
        subst state
        have depth₃ : (s₂.pushing s₂.previous.lexeme).body.depth ≠ 0 := depth₂
        rw [runs_get_bind, if_neg depth₃] at defines
        obtain ⟨progress, tokens₄, grown⟩ := (Progress.refl sound₃).givenValue
          moves.progress.sound (moves.progress.settled settled) depth₂ defines
        have first := moves.progress.trans progress
        have words : s.words = .name s₂.previous.lexeme :: s₄.words := by
          rw [tokens₄.words, tokens₃.words]
          exact moves.name identifier
        have named : ∀ Γ L, Future s₄ Γ L →
            namesOf L = s₂.previous.lexeme :: namesOf (L.drop 1) := by
          intro Γ L later
          obtain ⟨-, v, named, split⟩ := grown Γ L later
          rw [← named]
          exact congrArg namesOf split
        rcases runs_accept run progress.sound (by decide) with ⟨comma, s₅, moves₅, run⟩ | ⟨-, run⟩
        · have depth₅ : s₅.body.depth ≠ 0 := by
            rw [moves₅.progress.depth, first.depth]
            exact inner
          have length : s.words.length = s₄.words.length + 1 := congrArg List.length words
          have length₅ := moves₅.length
          obtain ⟨params, reading, some, fits, others, names⟩ := ih run moves₅.progress.sound
            (moves₅.progress.settled progress.settled_after) depth₅ (by omega)
          have arity : count + 1 + params.length = count + (params.length + 1) := by omega
          rw [arity] at others fits
          refine ⟨s₂.previous.lexeme :: params, ?_, List.cons_ne_nil _ _, fits, ?_, ?_⟩
          · intro rest ends
            have after := reading rest ends
            rw [words, moves₅.mark comma rfl, after]
            cases params with
            | nil => exact absurd rfl some
            | cons x xs => rfl
          · exact ((first.andMoves moves₅).withArity (count + (params.length + 1))).trans others
          · intro Γ L later
            have inner := named Γ _ (moves₅.progress.future (others.future later).withoutArity)
            rw [List.drop_zero, List.drop_drop] at inner
            rw [names Γ L later, inner, List.reverse_cons, List.append_assoc]
            rfl
        · obtain ⟨-, rfl, -⟩ := runs_pure.1 run
          refine ⟨[s₂.previous.lexeme], ?_, List.cons_ne_nil _ _, count_le, first, named⟩
          intro rest ends
          rw [words, ends]
          rfl

/-- Parameters, perhaps none, up to the mark after them. -/
lemma parameterList_spec {α : Type} {a : α} {f : Unit → Compiling α} [careful : Careful (f ())]
    (run : Runs (check .rightParen >>= fun closes =>
      if closes = true then f () else get >>= fun t => parameters t.budget 1 >>= f) s a s')
    (sound : s.Sound) (settled : s.body.Settled) (inner : s.body.depth ≠ 0)
    (none : s.body.arity = 0) :
    ∃ (params : List String) (s₁ : State),
      (∀ rest, s₁.words = .mark .rightParen :: rest → s.words = paramWords params ++ rest) ∧
        params.length ≤ maxArity ∧
        Progress (s.withArity params.length) s₁ [] params.length ∧
        (∀ Γ L, Future s₁ Γ L → namesOf L = params.reverse ++ namesOf (L.drop params.length)) ∧
        Runs (f ()) s₁ a s' := by
  have all : ∀ u, Careful (f u) := fun _ => careful
  rw [runs_bind] at run
  obtain ⟨closes, s₁, checks, run⟩ := run
  obtain ⟨rfl, -⟩ := check_spec checks
  rcases runs_ite.1 run with ⟨-, run⟩ | ⟨-, run⟩
  · have same : s.withArity 0 = s := by
      rw [State.withArity, ← none]
    refine ⟨[], s, fun rest ends => ends, Nat.zero_le _, ?_, fun Γ L _ => rfl, run⟩
    rw [List.length_nil, same]
    exact .refl sound
  · rw [runs_get_bind, runs_bind] at run
    obtain ⟨u, s₁, params, run⟩ := run
    obtain ⟨params, reading, -, fits, progress, names⟩ :=
      parameters_spec params sound settled inner sound.budget_words
    rw [Nat.zero_add] at fits progress
    exact ⟨params, s₁, reading, fits, progress, names, run⟩

/-! ## Functions -/

/-- A closure instruction makes a closure of a function with these parameters and this body, where
locals `L` are in scope. -/
def Closes (Γ : Context) (L : List Local) (kind : BodyKind) (name : String) (params : List String)
    (body : Stmt .declarations) (index : UInt8) (captures : List Capture) : Prop :=
  ∃ (Γ' : Context) (start : List Local) (items : List Item) (stop : List Local) (p : Prototype),
    Inside Γ' kind Γ L ∧ ParameterLocals kind params start ∧
      body.Emits Γ' false start items stop ∧
      Γ.constants[index.toNat]? = some (.prototype p) ∧
      Assembles p name params.length Γ' items stop ∧ captures = Γ'.captures.toList

variable {inner : Level} [inner.Careful]

/-- A finished body is assembled to the function of its context. -/
lemma Progress.assembles {items : List Item} {stop : List Local} {k : Nat} {around : List Scope}
    (h : Progress s s' (Lox.instrs items ++ returnCode s.body.kind) k) (code : s.body.instrs = [])
    (pool : s.body.constants = #[]) (fits : s.body.arity ≤ maxArity)
    (grown : ScopesGrow (s'.enclosing.map Body.scope) around) :
    Assembles (s'.body.assemble s'.serial) s.body.name s.body.arity (s'.body.context around) items
      stop where
  name := h.name
  arity := congrArg UInt8.ofNat h.arity
  paramsFit := fits
  captureCount := rfl
  capturesFit := h.sound.body.capturesFit
  distinct := h.sound.body.distinct
  captured i bound := by
    obtain ⟨x, chain⟩ := h.sound.linked.1 i bound
    exact ⟨x, chain.grow (List.prefix_refl _) grown⟩
  constants := s'.body.constants_chunk
  constantsFit := h.sound.body.constantsFit
  covered q there := by
    rcases h.covers q there with before | ⟨index, captures, made, entry⟩
    · rw [pool] at before
      exact absurd before (Array.not_mem_empty _)
    · rcases List.mem_append.1 made with made | ends
      · exact ⟨index, captures, made, entry⟩
      · cases kind : s.body.kind <;> rw [kind] at ends <;> simp [returnCode] at ends
  code := by
    rw [Body.assemble, Body.code_chunk, h.instrs, code, List.nil_append, instrs_append, under,
      instrs_inScope, Body.context, h.kind]

/-- Reading a function makes its prototype a constant and emits an instruction that makes a closure
of it. -/
theorem function_spec (reads : inner.Reads) {kind : BodyKind} {u : Unit}
    (run : Runs (function inner kind) s u s') (sound : s.Sound) (settled : s.body.Settled) :
    ∃ (params : List String) (body : Stmt .declarations) (index : UInt8) (captures : List Capture)
      (ws : List Word),
      s.words = .mark .leftParen :: (paramWords params ++ .mark .leftBrace :: ws) ∧
        body.Reads ws (.mark .rightBrace :: s'.words) ∧
        Progress s s' [.closure index captures] 0 ∧
        ∀ Γ L, Future s' Γ L → Closes Γ L kind s.previous.lexeme params body index captures := by
  unfold function at run
  rw [runs_get_bind, runs_bind] at run
  obtain ⟨u₁, s₁, opens, run⟩ := run
  obtain rfl := openBody_spec opens
  have sound₁ := sound.opened settled kind s.previous.lexeme
  rw [runs_bind] at run
  obtain ⟨u₂, s₂, begins, run⟩ := run
  obtain rfl := beginScope_spec begins
  have sound₂ := sound₁.inScope
  obtain ⟨left, s₃, moves₃, run⟩ := runs_expect run sound₂ (by decide)
  obtain ⟨params, s₄, reading, paramsFit, progress₄, names, run⟩ := parameterList_spec run
    moves₃.progress.sound (moves₃.progress.settled (Body.settled_start kind s.previous.lexeme))
    (by rw [moves₃.progress.depth]; exact Nat.succ_ne_zero _)
    (by rw [moves₃.progress.arity]; rfl)
  obtain ⟨right, s₅, moves₅, run⟩ := runs_expect run progress₄.sound (by decide)
  obtain ⟨brace, s₆, moves₆, run⟩ := runs_expect run moves₅.progress.sound (by decide)
  have opening : Progress (s.entered kind s.previous.lexeme params.length) s₆ [] params.length :=
    (((moves₃.progress.withArity params.length).trans progress₄).andMoves moves₅).andMoves moves₆
  rw [runs_bind] at run
  obtain ⟨u₇, s₇, block, run⟩ := run
  obtain ⟨body, code, k, passage⟩ := reads.block block opening.sound
    (opening.settled (Body.settled_start kind s.previous.lexeme))
    (by rw [opening.depth]; exact Nat.succ_ne_zero _)
  have whole := opening.trans passage.progress
  rw [List.nil_append] at whole
  rw [runs_bind] at run
  obtain ⟨⟨p, captures⟩, s₉, closes, run⟩ := run
  have ends := closeFunction_cases closes
  obtain ⟨s₈, returns, tokens₈, result, progress₉, tokens₉, serial, older, around⟩ :=
    whole.closeBody sound ends
  obtain ⟨rfl, rfl⟩ := Prod.mk.inj result
  simp only at run
  rw [runs_bind] at run
  obtain ⟨index, s₁₀, makes, emits⟩ := run
  obtain ⟨closing, tokens, entry⟩ := closure_spec makes emits progress₉.sound
    (by rw [serial]; exact Nat.lt_succ_self _) older
  have words : s'.words = s₇.words := by
    rw [tokens.words, tokens₉.words, tokens₈.words]
  refine ⟨params, body, index, s₈.body.captures.toList, s₆.words, ?_, ?_, progress₉.trans closing,
    ?_⟩
  · have first : s.words = .mark .leftParen :: s₃.words := moves₃.mark left rfl
    rw [first, reading _ (moves₅.mark right rfl), moves₆.mark brace rfl]
  · rw [words]
    exact passage.reads
  · intro Γ L later
    have later₉ := closing.future later
    have whole₈ := whole.trans returns
    have kind_eq : s₈.body.kind = kind := whole₈.kind
    let Γ' := s₈.body.context (⟨L, Γ.captures⟩ :: Γ.around)
    have grown : ScopesGrow (s₈.enclosing.map Body.scope) Γ'.around := by
      have locals := later₉.locals
      rw [Body.Settled.visible (progress₉.settled settled)] at locals
      rw [← around]
      exact List.Forall₂.cons ⟨locals, later₉.captures⟩ later₉.around
    have settled₈ : s₈.body.Settled :=
      whole₈.settled (Body.settled_start kind s.previous.lexeme)
    have future₇ : Future s₇ Γ' s₈.body.locals := by
      refine returns.future ⟨rfl, List.prefix_refl _, List.prefix_refl _, ?_, grown⟩
      rw [settled₈.visible]
      exact .refl _
    have future₆ := passage.progress.future future₇
    have params_eq := names Γ' _ (moves₅.progress.future (moves₆.progress.future future₆))
    have slotZero : LocalsGrow _ _ := (opening.future future₆).locals
    obtain ⟨items, emitted, items_eq⟩ := passage.emits Γ' _ future₇
    have assembled : Progress (s.entered kind s.previous.lexeme params.length) s₈
        (instrs items ++ returnCode kind) _ := items_eq ▸ whole₈
    refine ⟨Γ', _, items, _, s₈.body.assemble s₈.serial, ⟨kind_eq, rfl⟩, ?_, emitted,
      getElem?_grow later.constants entry, assembled.assembles rfl rfl paramsFit grown, rfl⟩
    rw [ParameterLocals]
    exact params_eq.trans (congrArg (params.reverse ++ ·) slotZero.names)

end Lox.Compile
