import Lox.Proofs.Compile.Functions
import Lox.Proofs.Machine.Likeness

/-!
# Compiling the same twice

Sources with the same words compiled from states that are alike give functions that are alike
(`script_twin`): which string objects are in use makes no difference, since constants are told apart
by their contents, and where in their sources the words stand makes none but to lines.  What is
complained of is the same in both.

An action whose results are the same from states that are alike is `Parallel`.  Nothing but the line
of an instruction and the token of a complaint is taken from the place of a token.
-/

namespace Lox

lemma Constant.Alike.same {L : Link} {c d c' d' : Constant} (h : Constant.Alike L c d)
    (h' : Constant.Alike L c' d') : c.same c' = d.same d' := by
  cases h with
  | number => cases h' <;> rfl
  | string content =>
    cases h' with
    | string content' =>
      simp only [Constant.same]
      rw [content, content']
    | _ => rfl
  | prototype serial =>
    cases h' with
    | prototype serial' =>
      exact Bool.eq_iff_iff.2
        (beq_iff_eq.trans ((L.prototypes_unique serial serial').trans beq_iff_eq.symm))
    | _ => rfl

/-- Rows that are alike have entries that are related, one by one. -/
lemma RowsAlike.forall₂ {α β : Type} {R : α → β → Prop} {xs : Array α} {ys : Array β}
    (h : RowsAlike 0 R xs ys) : List.Forall₂ R xs.toList ys.toList := by
  refine List.forall₂_iff_get.2 ⟨h.size, fun i left right => ?_⟩
  exact h.of_some (Array.getElem?_eq_getElem left) (Array.getElem?_eq_getElem right)

/-- Tokens that are alike have the same word, and where lines agree they are the same. -/
structure Token.Alike (L : Link) (t u : Token) : Prop where
  kind : t.kind = u.kind
  lexeme : t.lexeme = u.lexeme
  placed : L.lined → t = u

lemma Token.Alike.refl (L : Link) (t : Token) : t.Alike L t := ⟨rfl, rfl, fun _ => rfl⟩

/-- Diagnostics that are alike complain of the same about tokens that are alike. -/
structure Diagnostic.Alike (L : Link) (d e : Diagnostic) : Prop where
  token : d.token.Alike L e.token
  complaint : d.complaint = e.complaint

end Lox

namespace Lox.Compile

variable {α β γ δ : Type} {L : Link} {s t : State}

/-! ## States that are alike -/

/-- The same instruction, on the same line where lines agree. -/
structure EntryAlike (L : Link) (x y : Instr × Nat) : Prop where
  instr : x.1 = y.1
  line : L.lined → x.2 = y.2

/-- Bodies that are alike. -/
structure Body.Alike (L : Link) (b c : Body) : Prop where
  kind : b.kind = c.kind
  name : b.name = c.name
  arity : b.arity = c.arity
  locals : b.locals = c.locals
  captures : b.captures = c.captures
  depth : b.depth = c.depth
  code : RowsAlike 0 (EntryAlike L) b.code c.code
  size : b.size = c.size
  constants : RowsAlike 0 (Constant.Alike L) b.constants c.constants

lemma Body.Alike.start (kind : BodyKind) (name : String) :
    Body.Alike L (.start kind name) (.start kind name) :=
  ⟨rfl, rfl, rfl, rfl, rfl, rfl, .empty, rfl, .empty⟩

/-- States of the compilation that are alike. -/
structure State.Alike (L : Link) (s t : State) : Prop where
  previous : s.previous.Alike L t.previous
  current : s.current.Alike L t.current
  rest : List.Forall₂ (Token.Alike L) s.rest t.rest
  budget : s.budget = t.budget
  panicking : s.panicking = t.panicking
  diagnostics : RowsAlike 0 (Diagnostic.Alike L) s.diagnostics t.diagnostics
  body : Body.Alike L s.body t.body
  enclosing : List.Forall₂ (Body.Alike L) s.enclosing t.enclosing
  classes : s.classes = t.classes
  serials : ∀ k, L.prototypes (s.serial + k) (t.serial + k)
  fault : s.fault = t.fault

/-- From states that are alike the actions come to results that are related, and to states that are
alike. -/
def Twin (L : Link) (A : α → β → Prop) (act : Compiling α) (act' : Compiling β) : Prop :=
  ∀ s t, State.Alike L s t → A (act s).1 (act' t).1 ∧ State.Alike L (act s).2 (act' t).2

lemma Twin.bind {A : α → β → Prop} {B : γ → δ → Prop} {act : Compiling α} {act' : Compiling β}
    {f : α → Compiling γ} {f' : β → Compiling δ} (first : Twin L A act act')
    (second : ∀ a b, A a b → Twin L B (f a) (f' b)) : Twin L B (act >>= f) (act' >>= f') := by
  intro s t alike
  obtain ⟨related, alike'⟩ := first s t alike
  exact second _ _ related _ _ alike'

/-- The action comes to the same result from states that are alike. -/
class Parallel (L : Link) (act : Compiling α) : Prop where
  twin : Twin L Eq act act

/-! ## Combinators -/

section Parallel

instance (a : α) : Parallel L (pure a : Compiling α) := ⟨fun _ _ alike => ⟨rfl, alike⟩⟩

lemma parallel_bind {act : Compiling α} {f : α → Compiling β} (first : Parallel L act)
    (second : ∀ a, Parallel L (f a)) : Parallel L (act >>= f) :=
  ⟨first.twin.bind fun a _ same => same ▸ (second a).twin⟩

lemma twin_get {A : α → β → Prop} {f : State → Compiling α} {f' : State → Compiling β}
    (second : ∀ s t, State.Alike L s t → Twin L A (f s) (f' t)) :
    Twin L A (get >>= f) (get >>= f') := fun s t alike => second s t alike s t alike

/-- What is looked up is the same in states that are alike. -/
lemma parallel_get {f : State → Compiling α} (same : ∀ s t, State.Alike L s t → f s = f t)
    (inner : ∀ s, Parallel L (f s)) : Parallel L (get >>= f) :=
  ⟨twin_get fun s t alike => same s t alike ▸ (inner s).twin⟩

instance (c : Prop) [Decidable c] (x y : Compiling α) [Parallel L x] [Parallel L y] :
    Parallel L (if c then x else y) := by
  split <;> infer_instance

section Sequences

variable (act : Compiling α) [first : Parallel L act]

instance (f : α → Compiling β) [second : ∀ a, Parallel L (f a)] : Parallel L (act >>= f) :=
  parallel_bind first second

-- What comes next is looked at just once where it does not depend on the result.
instance (next : Compiling β) [second : Parallel L next] : Parallel L (act >>= fun _ => next) :=
  parallel_bind first fun _ => second

instance (f : α → Compiling β) (g : β → Compiling γ) [second : ∀ a, Parallel L (f a)]
    [third : ∀ b, Parallel L (g b)] : Parallel L (act >>= fun a => f a >>= g) :=
  parallel_bind first fun a => parallel_bind (second a) third

instance (choice : Compiling Bool) (x y : Compiling β) [Parallel L choice] [Parallel L x] [Parallel L y] :
    Parallel L (choice >>= fun b => if b then x else y) :=
  parallel_bind inferInstance fun b => by split <;> infer_instance

instance (c : Prop) [Decidable c] (next : Compiling β) [Parallel L next] :
    Parallel L (if c then act >>= fun _ => next else next) := by
  split <;> infer_instance

end Sequences

instance (l : List α) (f : α → Compiling PUnit) [∀ a, Parallel L (f a)] : Parallel L (l.forM f) := by
  induction l with
  | nil => exact inferInstanceAs (Parallel L (pure ()))
  | cons a l ih => exact inferInstanceAs (Parallel L (f a >>= fun _ => l.forM f))

/-! ## Elementary actions -/

lemma complainOf_alike (alike : State.Alike L s t) {token token' : Token}
    (tokens : token.Alike L token') (complaint : Complaint) :
    State.Alike L (s.complainOf token complaint) (t.complainOf token' complaint) := by
  unfold State.complainOf
  rw [← alike.panicking]
  split
  · exact alike
  · exact
      { alike with
        panicking := rfl
        diagnostics := alike.diagnostics.push ⟨tokens, rfl⟩ }

instance (complaint : Complaint) : Parallel L (complain complaint) :=
  ⟨fun _ _ alike => ⟨rfl, complainOf_alike alike alike.previous complaint⟩⟩

instance (complaint : Complaint) : Parallel L (complainHere complaint) :=
  ⟨fun _ _ alike => ⟨rfl, complainOf_alike alike alike.current complaint⟩⟩

instance (fault : Fault) : Parallel L (fail fault) :=
  ⟨fun _ _ alike => ⟨rfl, { alike with fault := congrArg (fun f => f.or (some fault)) alike.fault }⟩⟩

lemma settle_alike {ts us : List Token} (tokens : List.Forall₂ (Token.Alike L) ts us) :
    ∀ {s t : State}, State.Alike L s t → State.Alike L (s.settle ts) (t.settle us) := by
  induction tokens with
  | nil => exact fun alike => alike
  | @cons token token' ts us same tokens ih =>
    intro s t alike
    unfold State.settle
    rw [← same.kind]
    split
    · exact ih (complainOf_alike (s := { s with rest := ts }) (t := { t with rest := us })
        { alike with rest := tokens } same _)
    · exact { alike with current := same, rest := tokens }

instance : Parallel L advance := by
  refine ⟨fun s t alike => ⟨rfl, ?_⟩⟩
  show State.Alike L (State.settle { s with previous := s.current } s.rest)
    (State.settle { t with previous := t.current } t.rest)
  exact settle_alike alike.rest { alike with previous := alike.current }

lemma parallel_modifyBody {f : Body → Body}
    (change : ∀ b c, Body.Alike L b c → Body.Alike L (f b) (f c)) : Parallel L (modifyBody f) :=
  ⟨fun _ _ alike => ⟨rfl, { alike with body := change _ _ alike.body }⟩⟩

instance (i : Instr) : Parallel L (emit i) := by
  refine ⟨fun s t alike => ⟨rfl, { alike with body := ?_ }⟩⟩
  exact
    { alike.body with
      code := alike.body.code.push ⟨rfl, fun lined => congrArg Token.line (alike.previous.placed lined)⟩
      size := congrArg (· + i.size) alike.body.size }

instance (f : State → List Bool) [same : Fact (∀ s t, State.Alike L s t → f s = f t)] :
    Parallel L (modify fun s => { s with classes := f s } : Compiling Unit) :=
  ⟨fun s t alike => ⟨rfl, { alike with classes := same.out s t alike }⟩⟩

instance (b : Bool) : Fact (∀ s t, State.Alike L s t → b :: s.classes = b :: t.classes) :=
  ⟨fun _ _ alike => congrArg _ alike.classes⟩

instance (b : Bool) (k : Nat) :
    Fact (∀ s t, State.Alike L s t → b :: s.classes.drop k = b :: t.classes.drop k) :=
  ⟨fun _ _ alike => by rw [alike.classes]⟩

instance (k : Nat) : Fact (∀ s t, State.Alike L s t → s.classes.drop k = t.classes.drop k) :=
  ⟨fun _ _ alike => by rw [alike.classes]⟩

/-! ## Constants -/

lemma findConstant_alike {b b' : Body} (bodies : Body.Alike L b b') {c d : Constant}
    (constants : Constant.Alike L c d) : b.findConstant? c = b'.findConstant? d := by
  have tests : b.constants.map (Constant.same · c) = b'.constants.map (Constant.same · d) := by
    apply Array.ext_getElem?
    intro i
    rw [Array.getElem?_map, Array.getElem?_map]
    have entry := bodies.constants.entry i (Nat.zero_le i)
    generalize b.constants[i]? = x at entry ⊢
    generalize b'.constants[i]? = y at entry ⊢
    cases entry with
    | some alike => exact congrArg some (alike.same constants)
    | none => rfl
  have found : ∀ (xs : Array Constant) (c : Constant),
      xs.findIdx? (Constant.same · c) = (xs.map (Constant.same · c)).findIdx? id := fun xs c => by
    rw [Array.findIdx?_map]
    rfl
  unfold Body.findConstant?
  rw [found, found, tests]

/-- Constants that are alike get the same index. -/
lemma makeConstant_twin {c d : Constant} (constants : Constant.Alike L c d) :
    Twin L Eq (makeConstant c) (makeConstant d) := by
  intro s t alike
  rw [makeConstant_eq, makeConstant_eq, ← findConstant_alike alike.body constants,
    ← alike.body.constants.size]
  have added : State.Alike L { s with body := s.body.addConstant c }
      { t with body := t.body.addConstant d } :=
    { alike with body := { alike.body with constants := alike.body.constants.push constants } }
  cases s.body.findConstant? c with
  | some index => exact ⟨rfl, alike⟩
  | none =>
    dsimp only
    split
    · exact ⟨rfl, complainOf_alike added alike.previous _⟩
    · exact ⟨rfl, added⟩

lemma internString_twin (content : String) :
    Twin L (fun x y => x.content = y.content) (internString content) (internString content) :=
  fun s t alike =>
    ⟨(s.strings.content_intern content).trans (t.strings.content_intern content).symm,
      { alike with }⟩

instance (content : String) : Parallel L (stringConstant content) :=
  ⟨(internString_twin content).bind fun _ _ same => makeConstant_twin (.string same)⟩

instance (x : Float) : Parallel L (emitConstant (.number x)) :=
  ⟨(makeConstant_twin (.number x)).bind fun _ _ same => same ▸ (inferInstance : Parallel L _).twin⟩

/-- A string literal. -/
instance (content : String) :
    Parallel L (do emitConstant (.string (← internString content))) :=
  ⟨(internString_twin content).bind fun _ _ same =>
    (makeConstant_twin (.string same)).bind fun _ _ same => same ▸ (inferInstance : Parallel L _).twin⟩

/-! ## Jumps and scopes -/

lemma aimJump_alike {b c : Body} (alike : Body.Alike L b c) (index : Nat) (distance : UInt16) :
    Body.Alike L (b.aimJump index distance) (c.aimJump index distance) := by
  refine { alike with code := ?_ }
  unfold Body.aimJump
  dsimp only
  refine alike.code.modify index ?_
  rintro ⟨i, line⟩ ⟨j, line'⟩ ⟨same, lines⟩
  obtain rfl : i = j := same
  cases i <;> exact ⟨rfl, lines⟩

instance (jump : UInt16 → Instr) : Parallel L (emitJump jump) := by
  unfold emitJump
  refine parallel_get (fun s t alike => by rw [alike.body.code.size]) fun s => ?_
  refine parallel_bind inferInstance fun _ => ?_
  exact parallel_get (fun s t alike => by rw [alike.body.size]) fun s => inferInstance

instance (site : JumpSite) : Parallel L (land site) := by
  unfold land
  refine parallel_get (fun s t alike => by rw [alike.body.size]) fun s => ?_
  have aim : ∀ distance, Parallel L (modifyBody (·.aimJump site.index distance)) := fun distance =>
    parallel_modifyBody fun b c alike => aimJump_alike alike site.index distance
  infer_instance

instance (start : Nat) : Parallel L (emitLoop start) := by
  unfold emitLoop
  exact parallel_get (fun s t alike => by rw [alike.body.size]) fun s => inferInstance

instance : Parallel L emitReturn := by
  unfold emitReturn
  refine parallel_get (fun s t alike => by rw [alike.body.kind]) fun s => inferInstance

instance : Parallel L beginScope :=
  parallel_modifyBody fun _ _ alike => { alike with depth := congrArg (· + 1) alike.depth }

instance : Parallel L endScope := by
  unfold endScope
  have leave : Parallel L (modifyBody (·.leaveScope)) := parallel_modifyBody fun b c alike =>
    { alike with
      locals := by
        show b.locals.dropWhile _ = c.locals.dropWhile _
        rw [alike.locals, alike.depth]
      depth := congrArg (· - 1) alike.depth }
  refine parallel_get (fun s t alike => ?_) fun s => inferInstance
  unfold Body.scopeLocals
  rw [alike.body.locals, alike.body.depth]

/-! ## Variables -/

lemma addCapture_alike {b c : Body} (alike : Body.Alike L b c) (capture : Capture) :
    (b.addCapture capture).1 = (c.addCapture capture).1 ∧
      Body.Alike L (b.addCapture capture).2.1 (c.addCapture capture).2.1 ∧
      (b.addCapture capture).2.2 = (c.addCapture capture).2.2 := by
  unfold Body.addCapture
  rw [← alike.captures]
  split
  · exact ⟨rfl, alike, rfl⟩
  · split
    · exact ⟨rfl, alike, rfl⟩
    · exact ⟨rfl, { alike with captures := rfl }, rfl⟩

lemma resolveCapture_alike (x : String) :
    ∀ {bs cs : List Body}, List.Forall₂ (Body.Alike L) bs cs → ∀ {b c : Body}, Body.Alike L b c →
      (Body.resolveCapture x b bs).1 = (Body.resolveCapture x c cs).1 ∧
      Body.Alike L (Body.resolveCapture x b bs).2.1 (Body.resolveCapture x c cs).2.1 ∧
      List.Forall₂ (Body.Alike L) (Body.resolveCapture x b bs).2.2.1
        (Body.resolveCapture x c cs).2.2.1 ∧
      (Body.resolveCapture x b bs).2.2.2 = (Body.resolveCapture x c cs).2.2.2 := by
  intro bs cs around
  induction around with
  | nil => exact fun alike => ⟨rfl, alike, .nil, rfl⟩
  | @cons b' c' bs cs near further ih =>
    intro b c alike
    unfold Body.resolveCapture
    rw [← near.locals]
    cases findLocal? x b'.locals with
    | some found =>
      obtain ⟨index, body, complaints⟩ := addCapture_alike alike ⟨true, UInt8.ofNat found.1⟩
      exact ⟨congrArg some index, body,
        .cons { near with locals := rfl } further, congrArg (_ ++ ·) complaints⟩
    | none =>
      obtain ⟨index, body, bodies, complaints⟩ := ih near
      generalize Body.resolveCapture x b' bs = r at index body bodies complaints ⊢
      generalize Body.resolveCapture x c' cs = r' at index body bodies complaints ⊢
      obtain ⟨i, b₁, bs₁, complaints₁⟩ := r
      obtain ⟨i', c₁, cs₁, complaints₁'⟩ := r'
      obtain rfl : i = i' := index
      obtain rfl : complaints₁ = complaints₁' := complaints
      cases i with
      | none => exact ⟨rfl, alike, .cons body bodies, rfl⟩
      | some outer =>
        obtain ⟨index, body', complaints⟩ := addCapture_alike alike ⟨false, outer⟩
        exact ⟨congrArg some index, body', .cons body bodies, congrArg (_ ++ ·) complaints⟩

lemma complaints_alike (complaints : List Complaint) :
    ∀ {s t : State}, State.Alike L s t →
      State.Alike L (complaints.foldl (fun s c => s.complainOf s.previous c) s)
        (complaints.foldl (fun s c => s.complainOf s.previous c) t) := by
  induction complaints with
  | nil => exact fun alike => alike
  | cons complaint complaints ih =>
    intro s t alike
    exact ih (complainOf_alike alike alike.previous complaint)

instance (x : String) : Parallel L (modifyGet (·.resolve x) : Compiling (Option Access)) := by
  refine ⟨fun s t alike => ?_⟩
  show (s.resolve x).1 = (t.resolve x).1 ∧ State.Alike L (s.resolve x).2 (t.resolve x).2
  unfold State.resolve
  rw [← alike.body.locals]
  cases findLocal? x s.body.locals with
  | some found => exact ⟨rfl, complaints_alike _ alike⟩
  | none =>
    obtain ⟨index, body, bodies, complaints⟩ := resolveCapture_alike x alike.enclosing alike.body
    dsimp only
    rw [index, complaints]
    exact ⟨rfl, complaints_alike _ { alike with body := body, enclosing := bodies }⟩

instance (x : String) : Parallel L (access x) := by
  unfold access
  refine parallel_bind inferInstance fun place => ?_
  cases place <;> infer_instance

instance (x : String) : Parallel L (readVariable x) := by unfold readVariable; infer_instance

instance (x : String) : Parallel L (addLocal x) := by
  unfold addLocal
  have push : Parallel L (modifyBody (·.pushLocal x)) := parallel_modifyBody fun b c alike =>
    { alike with locals := congrArg (_ :: ·) alike.locals }
  exact parallel_get (fun s t alike => by rw [alike.body.locals]) fun s => inferInstance

instance : Parallel L markInitialized := by
  refine parallel_modifyBody fun b c alike => ?_
  unfold Body.initializeLocal
  rw [← alike.depth, ← alike.locals]
  split
  · exact alike
  · split
    · exact alike
    · exact { alike with locals := rfl, depth := rfl }

instance (constant : UInt8) : Parallel L (defineVariable constant) := by
  unfold defineVariable
  exact parallel_get (fun s t alike => by rw [alike.body.depth]) fun s => inferInstance

/-! ## Bodies -/

instance (kind : BodyKind) (x : String) : Parallel L (openBody kind x) :=
  ⟨fun _ _ alike => ⟨rfl,
    { alike with
      body := .start kind x
      enclosing := .cons alike.body alike.enclosing }⟩⟩

/-- The bytes of bodies that are alike are the same, and on the same lines where lines agree. -/
lemma chunk_alike {b c : Body} (alike : Body.Alike L b c) :
    b.chunk.code = c.chunk.code ∧ (L.lined → b.chunk.lines = c.chunk.lines) := by
  have write : ∀ (bs : List UInt8) (line line' : Nat) (x y : Chunk Constant),
      (L.lined → line = line') → x.code = y.code ∧ (L.lined → x.lines = y.lines) →
      (bs.foldl (fun c byte => c.write byte line) x).code =
          (bs.foldl (fun c byte => c.write byte line') y).code ∧
        (L.lined → (bs.foldl (fun c byte => c.write byte line) x).lines =
          (bs.foldl (fun c byte => c.write byte line') y).lines) := by
    intro bs line line'
    induction bs with
    | nil => exact fun _ _ _ same => same
    | cons byte bs ih =>
      refine fun x y lines same => ih _ _ lines ⟨congrArg (·.push byte) same.1, fun lined => ?_⟩
      show x.lines.push line = y.lines.push line'
      rw [lines lined, same.2 lined]
  have all : ∀ {code code' : List (Instr × Nat)}, List.Forall₂ (EntryAlike L) code code' →
      ∀ (x y : Chunk Constant), x.code = y.code ∧ (L.lined → x.lines = y.lines) →
      (code.foldl (fun c (entry : Instr × Nat) =>
          entry.1.encode.foldl (fun c byte => c.write byte entry.2) c) x).code =
        (code'.foldl (fun c (entry : Instr × Nat) =>
          entry.1.encode.foldl (fun c byte => c.write byte entry.2) c) y).code ∧
      (L.lined → (code.foldl (fun c (entry : Instr × Nat) =>
          entry.1.encode.foldl (fun c byte => c.write byte entry.2) c) x).lines =
        (code'.foldl (fun c (entry : Instr × Nat) =>
          entry.1.encode.foldl (fun c byte => c.write byte entry.2) c) y).lines) := by
    intro code code' entries
    induction entries with
    | nil => exact fun _ _ same => same
    | @cons entry entry' code code' same _ ih =>
      intro x y chunks
      rw [List.foldl_cons, List.foldl_cons, same.instr]
      exact ih _ _ (write _ _ _ _ _ same.line chunks)
  rw [Body.chunk, Body.chunk, ← Array.foldl_toList, ← Array.foldl_toList]
  exact all alike.code.forall₂ _ _ ⟨rfl, fun _ => rfl⟩

/-- Bodies that are alike become functions that are alike. -/
lemma assemble_alike {b c : Body} (alike : Body.Alike L b c) {serial serial' : Nat}
    (serials : L.prototypes serial serial') :
    Prototype.Alike L (b.assemble serial) (c.assemble serial') := by
  obtain ⟨code, lines⟩ := chunk_alike alike
  exact
    { serial := serials
      name := alike.name
      arity := congrArg UInt8.ofNat alike.arity
      captureCount := congrArg Array.size alike.captures
      code := code
      lines := lines
      constants := by
        show RowsAlike 0 _ b.chunk.constants c.chunk.constants
        rw [b.constants_chunk, c.constants_chunk]
        exact alike.constants }

/-- A function that has been finished, with what a closure of it captures. -/
def FunctionsAlike (L : Link) (f g : Prototype × List Capture) : Prop :=
  Prototype.Alike L f.1 g.1 ∧ f.2 = g.2

lemma takeBody_state (s : State) : ∃ finished, (takeBody s).2 =
    match s.enclosing with
    | [] => { s with serial := s.serial + 1, finished }
    | around :: further =>
      { s with serial := s.serial + 1, finished, body := around, enclosing := further } := by
  obtain ⟨_, _, _, _, _, _, _, enclosing, _, _, _, _, _⟩ := s
  cases enclosing <;> exact ⟨_, rfl⟩

lemma takeBody_twin : Twin L (FunctionsAlike L) takeBody takeBody := by
  intro s t alike
  have serials : ∀ k, L.prototypes (s.serial + 1 + k) (t.serial + 1 + k) := fun k => by
    rw [Nat.add_assoc, Nat.add_assoc]
    exact alike.serials (1 + k)
  refine ⟨⟨assemble_alike alike.body (alike.serials 0),
    congrArg Array.toList alike.body.captures⟩, ?_⟩
  obtain ⟨fs, left⟩ := takeBody_state s
  obtain ⟨gs, right⟩ := takeBody_state t
  rw [left, right]
  cases around : s.enclosing with
  | nil =>
    have none := alike.enclosing
    rw [around] at none
    rw [List.forall₂_nil_left_iff.1 none]
    exact { alike with serials := serials, enclosing := .nil }
  | cons b further =>
    have some := alike.enclosing
    rw [around] at some
    obtain ⟨c, further', near, rest, around'⟩ := List.forall₂_cons_left_iff.1 some
    rw [around']
    exact { alike with serials := serials, body := near, enclosing := rest }

lemma closeBody_twin : Twin L (FunctionsAlike L) closeBody closeBody :=
  (inferInstance : Parallel L emitReturn).twin.bind fun _ _ _ => takeBody_twin

lemma closeFunction_twin : Twin L (FunctionsAlike L) closeFunction closeFunction := by
  refine twin_get fun s t alike => ?_
  have same : s.enclosing.isEmpty = t.enclosing.isEmpty := by
    have enclosing := alike.enclosing
    generalize s.enclosing = bs at enclosing ⊢
    generalize t.enclosing = cs at enclosing ⊢
    cases enclosing <;> rfl
  rw [same]
  split
  · exact (inferInstance : Parallel L (fail .noBodyAround)).twin.bind fun _ _ _ => closeBody_twin
  · exact closeBody_twin

/-! ## Phrases -/

instance (kind : TokenKind) : Parallel L (check kind) :=
  parallel_get (fun s t alike => by rw [alike.current.kind]) fun s => inferInstance

instance (kind : TokenKind) : Parallel L (accept kind) := by unfold accept; infer_instance

instance (kind : TokenKind) (what : String) : Parallel L (expect kind what) := by
  unfold expect; infer_instance

instance : Parallel L atBlockEnd :=
  parallel_get (fun s t alike => by rw [alike.current.kind]) fun s => inferInstance

instance (fuel : Nat) : Parallel L (skipToStatement fuel) := by
  induction fuel with
  | zero => unfold skipToStatement; infer_instance
  | succ fuel ih =>
    unfold skipToStatement
    exact parallel_get (fun s t alike => by rw [alike.current.kind, alike.previous.kind])
      fun s => inferInstance

instance : Parallel L synchronize := by
  unfold synchronize
  have calms : Parallel L (modify fun s => { s with panicking := false } : Compiling Unit) :=
    ⟨fun s t alike => ⟨rfl, { alike with panicking := rfl }⟩⟩
  refine parallel_bind calms fun _ => ?_
  exact parallel_get (fun s t alike => by rw [alike.budget]) fun s => inferInstance

instance : Parallel L declareVariable := by
  unfold declareVariable
  refine parallel_get (fun s t alike => ?_) fun s => inferInstance
  unfold Body.isDeclaredHere
  rw [alike.body.depth, alike.body.locals, alike.previous.lexeme]

instance (what : String) : Parallel L (parseVariable what) := by
  unfold parseVariable
  refine parallel_bind inferInstance fun _ => parallel_bind inferInstance fun _ => ?_
  exact parallel_get (fun s t alike => by rw [alike.body.depth, alike.previous.lexeme])
    fun s => inferInstance

/-- The actions for nested phrases come to the same results from states that are alike. -/
class Level.Parallel (L : Link) (inner : Level) : Prop where
  statement : Compile.Parallel L inner.statement
  operators : ∀ p, Compile.Parallel L (inner.operators p)
  block : Compile.Parallel L inner.block

attribute [instance] Level.Parallel.statement Level.Parallel.operators Level.Parallel.block

variable (inner : Level) [inner.Parallel L]

instance : Parallel L inner.expression := by unfold Level.expression; infer_instance

instance (fuel count : Nat) : Parallel L (arguments inner fuel count) := by
  induction fuel generalizing count <;> unfold arguments <;> infer_instance

instance : Parallel L (argumentList inner) := by
  unfold argumentList
  refine parallel_bind inferInstance fun none => ?_
  cases none with
  | true => exact inferInstanceAs (Parallel L (expect _ _ >>= fun _ => pure _))
  | false => exact parallel_get (fun s t alike => by rw [alike.budget]) fun s => inferInstance

instance (canAssign : Bool) : Parallel L (variableUse inner canAssign) := by
  unfold variableUse
  exact parallel_get (fun s t alike => by rw [alike.previous.lexeme]) fun s => inferInstance

instance : Parallel L stringLiteral :=
  parallel_get (fun s t alike => by rw [alike.previous.lexeme]) fun s => inferInstance

instance : Parallel L (superAccess inner) := by
  have named : Parallel L (do
      let name ← stringConstant (← get).previous.lexeme
      readVariable "this"
      if ← accept .leftParen then
        let count ← argumentList inner
        readVariable "super"
        emit (.superInvoke name count)
      else
        readVariable "super"
        emit (.getSuper name)) :=
    parallel_get (fun s t alike => by rw [alike.previous.lexeme]) fun s => inferInstance
  unfold superAccess
  refine parallel_get (fun s t alike => by rw [alike.classes]) fun s => ?_
  dsimp only
  split <;> infer_instance

instance (canAssign : Bool) (word : Leading) : Parallel L (readLeading inner canAssign word) := by
  cases word with
  | number =>
    exact parallel_get (fun s t alike => by rw [alike.previous.lexeme]) fun s => inferInstance
  | this =>
    refine parallel_get (fun s t alike => by rw [alike.classes]) fun s => ?_
    split
    · infer_instance
    · exact parallel_get (fun s t alike => by rw [alike.previous.lexeme]) fun s => inferInstance
  | _ => unfold readLeading; infer_instance

instance (canAssign : Bool) : Parallel L (property inner canAssign) := by
  unfold property
  refine parallel_bind inferInstance fun _ => ?_
  exact parallel_get (fun s t alike => by rw [alike.previous.lexeme]) fun s => inferInstance

instance (canAssign : Bool) (precedence : Precedence) (operator : Trailing) :
    Parallel L (readTrailing inner canAssign precedence operator) := by
  cases operator <;> unfold readTrailing <;> infer_instance

instance (least : Precedence) (canAssign : Bool) (fuel : Nat) :
    Parallel L (trailingOperators inner least canAssign fuel) := by
  induction fuel with
  | zero => unfold trailingOperators; infer_instance
  | succ fuel ih =>
    unfold trailingOperators
    refine parallel_get (fun s t alike => by rw [alike.current.kind]) fun s => ?_
    split <;> infer_instance

instance (least : Precedence) : Parallel L (operatorsBody inner least) := by
  unfold operatorsBody
  refine parallel_bind inferInstance fun _ => ?_
  refine parallel_get (fun s t alike => by rw [alike.previous.kind]) fun s => ?_
  split
  · infer_instance
  · refine parallel_bind inferInstance fun _ => ?_
    exact parallel_get (fun s t alike => by rw [alike.budget]) fun s => inferInstance

/-! ## Declarations and statements -/

instance (fuel count : Nat) : Parallel L (parameters fuel count) := by
  have arity : ∀ count, Parallel L (modifyBody fun b => { b with arity := min count maxArity }) :=
    fun count => parallel_modifyBody fun _ _ alike => { alike with arity := rfl }
  induction fuel generalizing count <;> unfold parameters <;> infer_instance

instance (kind : BodyKind) : Parallel L (function inner kind) := by
  have closes : Parallel L (do
      let (prototype, captures) ← closeFunction
      let index ← makeConstant (.prototype prototype)
      emit (.closure index captures)) := by
    refine ⟨closeFunction_twin.bind ?_⟩
    rintro ⟨p, captures⟩ ⟨q, -⟩ ⟨functions, rfl⟩
    exact (makeConstant_twin (Constant.alike_prototype.2 functions)).bind fun _ _ same =>
      same ▸ (inferInstance : Parallel L _).twin
  unfold function
  refine parallel_get (fun s t alike => by rw [alike.previous.lexeme]) fun s => ?_
  refine parallel_bind inferInstance fun _ => parallel_bind inferInstance fun _ =>
    parallel_bind inferInstance fun _ => parallel_bind inferInstance fun none => ?_
  dsimp only
  split
  · infer_instance
  · exact parallel_get (fun s t alike => by rw [alike.budget]) fun s => inferInstance

instance : Parallel L (functionDeclaration inner) := by unfold functionDeclaration; infer_instance

instance : Parallel L (method inner) := by
  unfold method
  refine parallel_bind inferInstance fun _ => ?_
  exact parallel_get (fun s t alike => by rw [alike.previous.lexeme]) fun s => inferInstance

instance (fuel : Nat) : Parallel L (methods inner fuel) := by
  induction fuel <;> unfold methods <;> infer_instance

instance (x : String) : Parallel L (superclass x) := by
  unfold superclass
  refine parallel_bind inferInstance fun inherits => ?_
  split
  · refine parallel_bind inferInstance fun _ => ?_
    exact parallel_get (fun s t alike => by rw [alike.previous.lexeme]) fun s => inferInstance
  · infer_instance

instance : Parallel L (classDeclaration inner) := by
  have leaves : Parallel L (do
      let hasSuperclass := (← get).classes.headD false
      modify fun s => { s with classes := s.classes.drop 1 }
      if hasSuperclass then endScope) :=
    parallel_get (fun s t alike => by rw [alike.classes]) fun s => inferInstance
  have inside : Parallel L (do
      methods inner (← get).budget
      expect .rightBrace "'\x7d' after class body"
      emit .pop
      let hasSuperclass := (← get).classes.headD false
      modify fun s => { s with classes := s.classes.drop 1 }
      if hasSuperclass then endScope) :=
    parallel_get (fun s t alike => by rw [alike.budget]) fun s => inferInstance
  unfold classDeclaration
  refine parallel_bind inferInstance fun _ => ?_
  exact parallel_get (fun s t alike => by rw [alike.previous.lexeme]) fun s => inferInstance

instance : Parallel L (variableDeclaration inner) := by unfold variableDeclaration; infer_instance

instance : Parallel L (declaration inner) := by
  have calms : Parallel L (do if (← get).panicking then synchronize) :=
    parallel_get (fun s t alike => by rw [alike.panicking]) fun s => inferInstance
  unfold declaration
  infer_instance

instance (fuel : Nat) : Parallel L (declarations inner fuel) := by
  induction fuel <;> unfold declarations <;> infer_instance

instance : Parallel L (blockBody inner) :=
  parallel_get (fun s t alike => by rw [alike.budget]) fun s => inferInstance

instance : Parallel L (printStatement inner) := by unfold printStatement; infer_instance

instance : Parallel L (expressionStatement inner) := by unfold expressionStatement; infer_instance

instance : Parallel L (returnStatement inner) := by
  have valued : Parallel L (do
      if (← get).body.kind = .initializer then complain .valueFromInitializer
      inner.expression
      expect .semicolon "';' after return value"
      emit .ret) :=
    parallel_get (fun s t alike => by rw [alike.body.kind]) fun s => inferInstance
  exact parallel_get (fun s t alike => by rw [alike.body.kind]) fun s => inferInstance

instance : Parallel L (ifStatement inner) := by unfold ifStatement; infer_instance

instance : Parallel L (whileStatement inner) :=
  parallel_get (fun s t alike => by rw [alike.body.size]) fun s => inferInstance

instance : Parallel L (forInitializer inner) := by
  have declared : Parallel L (do
      return match (← get).body.locals with
        | [] => none
        | v :: outer => some (v.name, outer.length)) :=
    parallel_get (fun s t alike => by rw [alike.body.locals]) fun s => inferInstance
  unfold forInitializer
  infer_instance

instance : Parallel L (forCondition inner) := by unfold forCondition; infer_instance

instance (start : Nat) : Parallel L (forIncrement inner start) := by
  unfold forIncrement
  refine parallel_bind inferInstance fun none => ?_
  split
  · infer_instance
  · refine parallel_bind inferInstance fun _ => ?_
    exact parallel_get (fun s t alike => by rw [alike.body.size]) fun s => inferInstance

instance : Parallel L lastSlot :=
  parallel_get (fun s t alike => by rw [alike.body.locals]) fun s => inferInstance

instance (loopVariable : Option (String × Nat)) : Parallel L (forBody inner loopVariable) := by
  cases loopVariable with
  | none => unfold forBody; infer_instance
  | some copied => unfold forBody; infer_instance

instance (exit : Option JumpSite) : Parallel L (forExit exit) := by
  cases exit <;> unfold forExit <;> infer_instance

instance : Parallel L (forStatement inner) := by
  unfold forStatement
  refine parallel_bind inferInstance fun _ => parallel_bind inferInstance fun _ =>
    parallel_bind inferInstance fun loopVariable => ?_
  exact parallel_get (fun s t alike => by rw [alike.body.size]) fun s => inferInstance

instance : Parallel L (statementBody inner) := by unfold statementBody; infer_instance

/-! ## Programs -/

instance : Parallel L refuseNesting := by unfold refuseNesting; infer_instance

instance (n : Nat) : (level n).Parallel L := by
  induction n with
  | zero =>
    exact ⟨(inferInstance : Parallel L refuseNesting), fun _ => (inferInstance : Parallel L refuseNesting),
      (inferInstance : Parallel L refuseNesting)⟩
  | succ n ih =>
    exact ⟨(inferInstance : Parallel L (statementBody (level n))),
      fun least => (inferInstance : Parallel L (operatorsBody (level n) least)),
      (inferInstance : Parallel L (blockBody (level n)))⟩

instance (fuel : Nat) : Parallel L (program inner fuel) := by
  induction fuel <;> unfold program <;> infer_instance

/-- Sources with the same words, compiled from states that are alike, give functions that are alike. -/
theorem script_twin : Twin L (Prototype.Alike L) script script := by
  have reads : Parallel L (do program (level maxNesting) (← get).budget) :=
    parallel_get (fun s t alike => by rw [alike.budget]) fun s => inferInstance
  have closes : Twin L (Prototype.Alike L) (do return (← closeBody).1) (do return (← closeBody).1) :=
    closeBody_twin.bind fun _ _ functions _ _ alike => ⟨functions.1, alike⟩
  exact (inferInstance : Parallel L advance).twin.bind fun _ _ _ =>
    reads.twin.bind fun _ _ _ => closes

end Parallel

end Lox.Compile

namespace Lox

open Compile

/-- Outcomes that are alike: functions that are alike, or the same complaints. -/
inductive OutcomesAlike (L : Link) :
    Except (Array Diagnostic) Prototype → Except (Array Diagnostic) Prototype → Prop where
  | ok {p q} (functions : Prototype.Alike L p q) : OutcomesAlike L (.ok p) (.ok q)
  | error {ds es} (complaints : RowsAlike 0 (Diagnostic.Alike L) ds es) :
      OutcomesAlike L (.error ds) (.error es)

/-- Sources with the same words compile alike, with whatever string objects. -/
lemma compile_twin {L : Link} {source source' : String} (strings strings' : StringTable)
    {serial serial' : Nat}
    (words : List.Forall₂ (Token.Alike L) (Token.scan source).toList (Token.scan source').toList)
    (serials : ∀ k, L.prototypes (serial + k) (serial' + k)) :
    OutcomesAlike L (compile source strings serial).outcome (compile source' strings' serial').outcome ∧
      ∀ k, L.prototypes ((compile source strings serial).serial + k)
        ((compile source' strings' serial').serial + k) := by
  have alike : State.Alike L (State.start (Token.scan source) strings serial)
      (State.start (Token.scan source') strings' serial') :=
    ⟨.refl L _, .refl L _, words, words.length_eq, rfl, .empty, .start .script "", .nil, rfl, serials,
      rfl⟩
  obtain ⟨functions, states⟩ := script_twin _ _ alike
  unfold compile StateT.run
  generalize script (State.start (Token.scan source) strings serial) = r at functions states ⊢
  generalize script (State.start (Token.scan source') strings' serial') = r' at functions states ⊢
  obtain ⟨p, s⟩ := r
  obtain ⟨q, t⟩ := r'
  have quiet : s.diagnostics.isEmpty = t.diagnostics.isEmpty := by
    rw [Array.isEmpty, Array.isEmpty, states.diagnostics.size]
  dsimp only
  rw [← quiet]
  refine ⟨?_, states.serials⟩
  split
  · exact .ok functions
  · exact .error states.diagnostics

end Lox
