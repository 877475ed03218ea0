import Lox.Proofs.Compile.Constants
import Lox.Proofs.Compile.Decisions
import Lox.Proofs.Compile.Reading

/-!
# A segment in a source and apart

A segment is a declaration of a variable or a print statement, right or wrong: any tokens up to a
semicolon that could not belong to another statement.  Its compilation in a source and its compilation
apart are two runs over the same tokens.  They start with different code, constants and complaints
and are followed by different tokens, so what is compared (`Setting.Alike`) is what decides about
complaints: the place in the segment, the length of the code since its start, the locals, and which
constants there are.

A mistaken expression may read the semicolon as an operand.  The compilation panics then, and as no
expression goes on with what starts a segment, nothing of the next one is read; `Stage` tells where
this may have happened.  There is one lemma for each action (`Mirrors`).
-/

namespace Lox.Compile

open Syntax

variable {α β γ δ : Type}

/-! ## Segments -/

/-- Tokens of this kind may stand inside a segment. -/
def Plain (kind : TokenKind) : Prop :=
  kind ∉ [.semicolon, .leftBrace, .rightBrace, .kwClass, .kwFun, .kwVar, .kwFor, .kwIf, .kwWhile,
    .kwPrint, .kwReturn, .endOfInput, .malformed .unexpectedCharacter, .malformed .unterminatedString]

instance : DecidablePred Plain := fun kind => inferInstanceAs (Decidable (kind ∉ _))

/-- The declaration of a variable or a print statement, right or wrong, up to its semicolon. -/
inductive Segment : List Token → Prop where
  | mk {first last : Token} {inside : List Token} (starts : first.kind = .kwVar ∨ first.kind = .kwPrint)
    (plain : ∀ t ∈ inside, Plain t.kind) (ends : last.kind = .semicolon) :
    Segment (first :: (inside ++ [last]))

/-- The rest of a segment. -/
inductive Remains : List Token → Prop where
  | last {t} (ends : t.kind = .semicolon) : Remains [t]
  | more {t ts} (plain : Plain t.kind) (rest : Remains ts) : Remains (t :: ts)

/-- Tokens of this kind start a segment or end the source. -/
def Opens (kind : TokenKind) : Prop := kind ∈ [.kwVar, .kwPrint, .endOfInput]

instance : DecidablePred Opens := fun kind => inferInstanceAs (Decidable (kind ∈ _))

lemma Segment.head {ts : List Token} (h : Segment ts) :
    ∃ t ts', ts = t :: ts' ∧ (t.kind = .kwVar ∨ t.kind = .kwPrint) ∧ Remains ts' := by
  cases h with
  | @mk first last inside starts plain ends =>
    refine ⟨first, inside ++ [last], rfl, starts, ?_⟩
    clear starts
    induction inside with
    | nil => exact .last ends
    | cons t inside ih =>
      obtain ⟨own, others⟩ := List.forall_mem_cons.1 plain
      exact .more own (ih others)

lemma opens_of_starts {kind : TokenKind} (h : kind = .kwVar ∨ kind = .kwPrint) :
    Opens kind ∧ kind ≠ .endOfInput := by
  rcases h with is | is <;> rw [is] <;> decide

lemma Opens.proper {kind : TokenKind} (h : Opens kind) (fault : LexicalFault) : kind ≠ .malformed fault := by
  rintro rfl
  exact absurd h (by simp [Opens])

lemma Plain.proper {kind : TokenKind} (h : Plain kind) (fault : LexicalFault) : kind ≠ .malformed fault := by
  rintro rfl
  cases fault <;> exact h (by decide)

lemma Plain.going {kind : TokenKind} (h : Plain kind) : kind ≠ .semicolon := by
  rintro rfl
  exact h List.mem_cons_self

lemma Remains.proper {t : Token} {ts : List Token} (h : Remains (t :: ts)) (fault : LexicalFault) :
    t.kind ≠ .malformed fault := by
  cases h with
  | last ends => exact fun broken => nomatch ends.symm.trans broken
  | more plain => exact plain.proper fault

/-- No segment starts or ends the source inside of another one. -/
lemma Remains.inside {t : Token} {ts : List Token} (h : Remains (t :: ts)) : ¬Opens t.kind := by
  intro opens
  cases h with
  | last ends =>
    rw [ends] at opens
    exact absurd opens (by decide)
  | more plain =>
    refine plain ?_
    simp only [Opens, List.mem_cons, List.not_mem_nil, or_false] at opens
    rcases opens with is | is | is <;> rw [is] <;> decide

lemma trailing_opens {kind : TokenKind} (h : Opens kind) : trailing? kind = none := by
  simp only [Opens, List.mem_cons, List.not_mem_nil, or_false] at h
  rcases h with rfl | rfl | rfl <;> rfl

lemma trailing_inside {kind : TokenKind} {found : Precedence × Trailing} (word : trailing? kind = some found) :
    ¬Opens kind := fun opens => nomatch (trailing_opens opens).symm.trans word

lemma trailing_going {kind : TokenKind} {found : Precedence × Trailing} (word : trailing? kind = some found) :
    kind ≠ .semicolon := by
  rintro rfl
  exact nomatch word

lemma leading_going {kind : TokenKind} {start : Leading} (word : leading? kind = some start) :
    kind ≠ .semicolon := by
  rintro rfl
  exact nomatch word

/-! ## Pools -/

/-- The pool of the innermost body has no more constants than there may be. -/
def State.Small (s : State) : Prop := s.body.constants.size ≤ maxOperands

/-- A constant as expressions make them. -/
def IsSimple : Literal → Prop
  | .number x => ∃ text, x = Decimal.read text
  | .string _ => True
  | .function => False

/-- The constants of a body. -/
def Body.literals (b : Body) : List Literal := b.constants.toList.map Constant.literal

lemma Body.length_literals (b : Body) : b.literals.length = b.constants.size := by
  rw [literals, List.length_map, Array.length_toList]

lemma Body.literals_addConstant (b : Body) (c : Constant) :
    (b.addConstant c).literals = b.literals ++ [c.literal] := by
  rw [literals, addConstant, Array.toList_push, List.map_append]
  rfl

lemma read_beq_iff {x y : Float} (h : ∃ text, x = Decimal.read text) (h' : ∃ text, y = Decimal.read text) :
    (x == y) = true ↔ x = y := by
  obtain ⟨text, read⟩ := h
  obtain ⟨text', read'⟩ := h'
  constructor
  · intro equal
    rw [read, read'] at equal ⊢
    exact Decimal.read_eq_of_beq equal
  · intro same
    rw [← same, read]
    exact Decimal.read_beq_self text

/-- Simple constants count as the same only if they are equal. -/
lemma same_iff_of_simple {l l' : Literal} (h : IsSimple l) (h' : IsSimple l') : l.same l' = true ↔ l = l' := by
  cases l with
  | function => exact h.elim
  | number x =>
    cases l' with
    | function => exact h'.elim
    | string => simp [Literal.same]
    | number y => exact (read_beq_iff h h').trans (Literal.number.injEq x y ▸ Iff.rfl)
  | string x =>
    cases l' with
    | function => exact h'.elim
    | number => simp [Literal.same]
    | string y => simp [Literal.same]

lemma findConstant_simple {b : Body} {c : Constant} (simple : ∀ l ∈ b.literals, IsSimple l)
    (own : IsSimple c.literal) : b.findConstant? c = none ↔ c.literal ∉ b.literals := by
  have same : ∀ c' ∈ b.constants.toList, (c'.same c = true ↔ c'.literal = c.literal) := by
    intro c' there
    rw [Constant.same_literal fun p q is_ is => ?_]
    · exact same_iff_of_simple (simple _ (List.mem_map_of_mem there)) own
    · rw [is] at own
      exact own.elim
  unfold Body.findConstant?
  rw [Array.findIdx?_eq_none_iff]
  constructor
  · intro none there
    obtain ⟨c', mem, literal⟩ := List.mem_map.1 there
    exact absurd ((same c' mem).2 literal) (Bool.eq_false_iff.1 (none c' (Array.mem_toList_iff.1 mem)))
  · intro new c' mem
    have there := Array.mem_toList_iff.2 mem
    exact Bool.eq_false_iff.2 fun equal => new (((same c' there).1 equal) ▸ List.mem_map_of_mem there)

/-- Each of two pools has simple constants; one has each of them once, and the other one has all of
them. -/
structure PoolsAlike (pool apart : List Literal) : Prop where
  simple : ∀ l ∈ pool, IsSimple l
  simple_apart : ∀ l ∈ apart, IsSimple l
  nodup : apart.Nodup
  covers : apart ⊆ pool

/-- A constant that both pools have or get. -/
lemma PoolsAlike.add {pool pool' apart apart' : List Literal} {l : Literal} (h : PoolsAlike pool apart)
    (simple : IsSimple l) (grows : l ∈ pool ∧ pool' = pool ∨ l ∉ pool ∧ pool' = pool ++ [l])
    (grows' : l ∈ apart ∧ apart' = apart ∨ l ∉ apart ∧ apart' = apart ++ [l]) :
    PoolsAlike pool' apart' := by
  have extended : ∀ {ls : List Literal}, (∀ k ∈ ls, IsSimple k) → ∀ k ∈ ls ++ [l], IsSimple k :=
    fun all => List.forall_mem_append.2 ⟨all, List.forall_mem_singleton.2 simple⟩
  have bigger : pool ⊆ pool' ∧ l ∈ pool' ∧ ∀ k ∈ pool', IsSimple k := by
    rcases grows with ⟨there, rfl⟩ | ⟨-, rfl⟩
    · exact ⟨List.Subset.refl _, there, h.simple⟩
    · exact ⟨List.subset_append_left _ _, List.mem_append_right _ List.mem_cons_self, extended h.simple⟩
  obtain ⟨subset, there, simple'⟩ := bigger
  have covers : apart ⊆ pool' := fun _ old => subset (h.covers old)
  rcases grows' with ⟨-, rfl⟩ | ⟨new, rfl⟩
  · exact ⟨simple', h.simple_apart, h.nodup, covers⟩
  · refine ⟨simple', extended h.simple_apart, ?_, ?_⟩
    · exact List.nodup_append.2 ⟨h.nodup, List.nodup_singleton _, fun k old k' last same =>
        new (List.mem_singleton.1 last ▸ same ▸ old)⟩
    · exact List.append_subset.2 ⟨covers, List.cons_subset.2 ⟨there, List.nil_subset _⟩⟩

/-- The pool apart is not the larger one. -/
lemma PoolsAlike.length_le {pool apart : List Literal} (h : PoolsAlike pool apart) :
    apart.length ≤ pool.length :=
  (h.nodup.subperm h.covers).length_le

/-! ## Two compilations of a segment -/

/-- A segment in a source and apart from it: what was complained of before it, the bytes of code and
the constants before it, and the tokens that follow it in either case. -/
structure Setting where
  before : Array Diagnostic
  offset : Nat
  pool : Nat
  next : Token
  later : List Token
  last : Token
  opens : Opens next.kind
  ends : last.kind = .endOfInput

/-- No body, class or scope is open but that of the script. -/
structure State.AtTop (s : State) : Prop where
  depth : s.body.depth = 0
  locals : s.body.locals = (Body.start .script "").locals
  enclosing : s.enclosing = []
  classes : s.classes = []

namespace Setting

variable (σ : Setting)

/-- Both compilations have complained of the same, of one thing at most, and have the same constants. -/
structure Agree (s t : State) : Prop where
  panicking : s.panicking = t.panicking
  diagnostics : s.diagnostics = σ.before ++ t.diagnostics
  once : if t.panicking then t.diagnostics.size = 1 else t.diagnostics = #[]
  pools : PoolsAlike s.body.literals t.body.literals

/-- The compilation of a segment in a source and that of the segment apart. -/
structure Alike (s t : State) : Prop where
  previous : t.previous = s.previous
  top : s.AtTop
  top_apart : t.AtTop
  size : s.body.size = σ.offset + t.body.size
  grown : σ.pool ≤ s.body.constants.size
  budget : s.rest.length < s.budget
  budget_apart : t.rest.length < t.budget
  agree : s.Small → σ.Agree s t

/-- The same tokens of the segment are ahead. -/
structure Within (s t : State) : Prop where
  started : s.previous.kind ≠ .semicolon
  ahead : ∃ ts, Remains (s.current :: ts) ∧ t.current = s.current ∧ s.rest = ts ++ σ.next :: σ.later ∧
    t.rest = ts ++ [σ.last]

/-- The segment has been read. -/
structure Beyond (s t : State) : Prop where
  ended : s.previous.kind = .semicolon
  current : s.current = σ.next
  rest : s.rest = σ.later
  current_apart : t.current = σ.last
  rest_apart : t.rest = []

end Setting

/-- How far the compilation of a segment is. -/
inductive Stage where
  | within
  /-- The segment may have been read by mistake; then the compilation panics. -/
  | ready
  | anywhere
  /-- The segment has been read, unless the compilation panics. -/
  | done

/-- Both compilations are panicking. -/
def Panics (s t : State) : Prop := s.panicking = true ∧ t.panicking = true

namespace Setting

/-- The two compilations of a segment stand alike, at a stage. -/
def At (σ : Setting) : Stage → State → State → Prop
  | .within, s, t => σ.Alike s t ∧ σ.Within s t
  | .ready, s, t => σ.Alike s t ∧ (σ.Within s t ∨ σ.Beyond s t ∧ Panics s t)
  | .anywhere, s, t => σ.Alike s t ∧ (σ.Within s t ∨ σ.Beyond s t)
  | .done, s, t => σ.Alike s t ∧ (σ.Within s t ∧ Panics s t ∨ σ.Beyond s t)

variable {σ : Setting} {s s' t t' : State} {stage : Stage}

lemma At.alike (h : σ.At stage s t) : σ.Alike s t := by
  cases stage <;> exact h.1

lemma At.ready (h : σ.At .within s t) : σ.At .ready s t := ⟨h.1, .inl h.2⟩

end Setting

/-- The action reads nothing and emits `n` bytes. -/
structure Stays (n : Nat) (s s' : State) : Prop extends SamePlace s s' where
  depth : s'.body.depth = s.body.depth := by rfl
  locals : s'.body.locals = s.body.locals := by rfl
  size : s'.body.size = s.body.size + n := by rfl
  constants : s.body.constants.size ≤ s'.body.constants.size := by exact Nat.le_refl _
  enclosing : s'.enclosing = s.enclosing := by rfl
  classes : s'.classes = s.classes := by rfl
  panics : s.panicking = true → s'.panicking = true := by exact id

section Stays

variable {s s' : State} {n : Nat}

lemma Stays.atTop (h : Stays n s s') (top : s.AtTop) : s'.AtTop :=
  ⟨h.depth.trans top.depth, h.locals.trans top.locals, h.enclosing.trans top.enclosing, h.classes.trans top.classes⟩

lemma State.stays_complainOf (s : State) (token : Token) (complaint : Complaint) :
    Stays 0 s (s.complainOf token complaint) := by
  unfold complainOf
  split
  · exact {}
  · next calm => exact { panics := fun panics => absurd panics calm }

lemma State.body_complainOf (s : State) (token : Token) (complaint : Complaint) :
    (s.complainOf token complaint).body = s.body := by
  unfold complainOf
  split <;> rfl

lemma State.panicking_complainOf (s : State) (token : Token) (complaint : Complaint) :
    (s.complainOf token complaint).panicking = true := by
  unfold complainOf
  split
  · assumption
  · rfl

lemma complainOf_of_panicking {token : Token} {complaint : Complaint} (panics : s.panicking = true) :
    s.complainOf token complaint = s := if_pos panics

lemma stays_makeConstant (c : Constant) (s : State) : Stays 0 s (makeConstant c s).2 := by
  have adds : Stays 0 s { s with body := s.body.addConstant c } :=
    { constants := Nat.le_of_lt (Nat.lt_of_lt_of_eq (Nat.lt_succ_self _) (Array.size_push _).symm) }
  rw [makeConstant_eq]
  split
  · exact {}
  · split
    · have complains := State.stays_complainOf { s with body := s.body.addConstant c } s.previous
        .tooManyConstants
      exact
        { previous := complains.previous
          current := complains.current
          rest := complains.rest
          budget := complains.budget
          depth := complains.depth
          locals := complains.locals
          size := complains.size
          constants := Nat.le_trans adds.constants complains.constants
          enclosing := complains.enclosing
          classes := complains.classes
          panics := complains.panics }
    · exact adds

end Stays

namespace Setting

variable {σ : Setting} {s s' t t' : State} {stage : Stage}

lemma Within.stay (h : σ.Within s t) (place : SamePlace s s') (place' : SamePlace t t') :
    σ.Within s' t' := by
  obtain ⟨started, ts, remains, current, rest, rest'⟩ := h
  refine ⟨place.previous ▸ started, ts, ?_, ?_, ?_, ?_⟩
  · rw [place.current]
    exact remains
  · rw [place.current, place'.current, current]
  · rw [place.rest, rest]
  · rw [place'.rest, rest']

lemma Beyond.stay (h : σ.Beyond s t) (place : SamePlace s s') (place' : SamePlace t t') :
    σ.Beyond s' t' where
  ended := place.previous ▸ h.ended
  current := place.current.trans h.current
  rest := place.rest.trans h.rest
  current_apart := place'.current.trans h.current_apart
  rest_apart := place'.rest.trans h.rest_apart

/-- Actions that read nothing stay at the same stage. -/
lemma At.stay {n : Nat} (h : σ.At stage s t) (stays : Stays n s s') (stays' : Stays n t t')
    (agree : s'.Small → σ.Agree s t → σ.Agree s' t') : σ.At stage s' t' := by
  have within : σ.Within s t → σ.Within s' t' :=
    fun here => here.stay stays.toSamePlace stays'.toSamePlace
  have beyond : σ.Beyond s t → σ.Beyond s' t' :=
    fun here => here.stay stays.toSamePlace stays'.toSamePlace
  have panics : Panics s t → Panics s' t' := And.imp stays.panics stays'.panics
  obtain ⟨previous, top, top', size, grown, budget, budget', before⟩ := h.alike
  have alike : σ.Alike s' t' :=
    { previous := stays'.previous.trans (previous.trans stays.previous.symm)
      top := stays.atTop top
      top_apart := stays'.atTop top'
      size := by rw [stays.size, stays'.size, size, Nat.add_assoc]
      grown := Nat.le_trans grown stays.constants
      budget := by rwa [stays.rest, stays.budget]
      budget_apart := by rwa [stays'.rest, stays'.budget]
      agree := fun small => agree small (before (Nat.le_trans stays.constants small)) }
  cases stage with
  | within => exact ⟨alike, within h.2⟩
  | ready => exact ⟨alike, h.2.imp within (And.imp beyond panics)⟩
  | anywhere => exact ⟨alike, h.2.imp within beyond⟩
  | done => exact ⟨alike, h.2.imp (And.imp within panics) beyond⟩

/-- Both complain of the same token, or neither does. -/
lemma Agree.complains (h : σ.Agree s t) (token : Token) (complaint : Complaint) :
    σ.Agree (s.complainOf token complaint) (t.complainOf token complaint) := by
  unfold State.complainOf
  rw [h.panicking]
  split
  · exact h
  · next calm =>
    have none : t.diagnostics = #[] := by
      have once := h.once
      rwa [if_neg calm] at once
    refine ⟨rfl, ?_, ?_, h.pools⟩
    · show s.diagnostics.push _ = σ.before ++ t.diagnostics.push _
      rw [h.diagnostics, Array.append_push]
    · show (t.diagnostics.push _).size = 1
      rw [none]
      rfl

lemma At.complains (h : σ.At stage s t) (token : Token) (complaint : Complaint) :
    σ.At stage (s.complainOf token complaint) (t.complainOf token complaint) :=
  h.stay (s.stays_complainOf _ _) (t.stays_complainOf _ _) fun _ agree => agree.complains _ _

/-- A complaint makes up for what has been read by mistake. -/
lemma At.panic (h : σ.At .anywhere s t) (token : Token) (complaint : Complaint) :
    σ.At .ready (s.complainOf token complaint) (t.complainOf token complaint) := by
  have complained := h.complains token complaint
  exact ⟨complained.1, complained.2.imp_right fun beyond =>
    ⟨beyond, s.panicking_complainOf _ _, t.panicking_complainOf _ _⟩⟩

end Setting

/-! ## Actions -/

/-- What two actions come to, each in its own state. -/
def Mirrors (act : Compiling α) (act' : Compiling β) (s t : State) (Q : α → β → State → State → Prop) :
    Prop :=
  Q (act s).1 (act' t).1 (act s).2 (act' t).2

/-- Whatever the results are, the compilations stand alike. -/
abbrev Setting.To (σ : Setting) (stage : Stage) : α → β → State → State → Prop :=
  fun _ _ => σ.At stage

variable {σ : Setting} {s t : State} {stage : Stage}

lemma Mirrors.bind {act : Compiling α} {act' : Compiling β} {f : α → Compiling γ} {f' : β → Compiling δ}
    {Q : α → β → State → State → Prop} {P : γ → δ → State → State → Prop} (first : Mirrors act act' s t Q)
    (second : ∀ a b s t, Q a b s t → Mirrors (f a) (f' b) s t P) :
    Mirrors (act >>= f) (act' >>= f') s t P :=
  second _ _ _ _ first

lemma mirrors_ite {c c' : Prop} [Decidable c] [Decidable c'] {x y : Compiling α} {x' y' : Compiling β}
    {Q : α → β → State → State → Prop} (same : c ↔ c') (yes : Mirrors x x' s t Q) (no : Mirrors y y' s t Q) :
    Mirrors (if c then x else y) (if c' then x' else y') s t Q := by
  by_cases h : c
  · rwa [if_pos h, if_pos (same.1 h)]
  · rwa [if_neg h, if_neg (mt same.2 h)]

section Elementary

lemma mirrors_get {f f' : State → Compiling α} {Q : α → α → State → State → Prop}
    (h : Mirrors (f s) (f' t) s t Q) : Mirrors (get >>= f) (get >>= f') s t Q := h

/-- What is done in some cases only, before the rest. -/
lemma mirrors_when {c c' : Prop} [Decidable c] [Decidable c'] {act act' : Compiling Unit}
    {f : Unit → Compiling γ} {f' : Unit → Compiling δ} {P : γ → δ → State → State → Prop} (same : c ↔ c')
    (first : σ.At stage s t → Mirrors act act' s t (σ.To stage)) (h : σ.At stage s t)
    (second : ∀ {s t}, σ.At stage s t → Mirrors (f ()) (f' ()) s t P) :
    Mirrors (if c then act >>= f else f ()) (if c' then act' >>= f' else f' ()) s t P :=
  mirrors_ite same ((first h).bind fun _ _ _ _ h => second h) (second h)

lemma mirrors_pure (a : α) (b : β) (h : σ.At stage s t) :
    Mirrors (pure a : Compiling α) (pure b : Compiling β) s t (σ.To stage) := h

lemma mirrors_complain (complaint : Complaint) (h : σ.At stage s t) :
    Mirrors (complain complaint) (complain complaint) s t (σ.To stage) := by
  show σ.At stage (s.complainOf s.previous complaint) (t.complainOf t.previous complaint)
  rw [h.alike.previous]
  exact h.complains _ _

lemma mirrors_fail (fault : Fault) (h : σ.At stage s t) :
    Mirrors (fail fault) (fail fault) s t (σ.To stage) :=
  h.stay (n := 0) {} {} fun _ agree => { agree with }

lemma mirrors_emit {i i' : Instr} (size : i'.size = i.size) (h : σ.At stage s t) :
    Mirrors (emit i) (emit i') s t (σ.To stage) :=
  h.stay {} { size := congrArg _ size } fun _ agree => { agree with }

lemma mirrors_aimJump (index index' : Nat) (distance distance' : UInt16) (h : σ.At stage s t) :
    Mirrors (modifyBody (·.aimJump index distance)) (modifyBody (·.aimJump index' distance')) s t
      (σ.To stage) :=
  h.stay (n := 0) {} {} fun _ agree => { agree with }

lemma mirrors_internString (content : String) (h : σ.At stage s t) :
    Mirrors (internString content) (internString content) s t fun o o' s t =>
      o.content = content ∧ o'.content = content ∧ σ.At stage s t :=
  ⟨s.strings.content_intern content, t.strings.content_intern content,
    h.stay (n := 0) {} {} fun _ agree => { agree with }⟩

end Elementary

/-! ### Constants -/

/-- Making a constant adds it to the pool unless it is there. -/
lemma makeConstant_simple {c : Constant} (simple : ∀ l ∈ s.body.literals, IsSimple l)
    (own : IsSimple c.literal) (room : c.literal ∉ s.body.literals → s.body.constants.size < maxOperands) :
    ∃ body : Body, (makeConstant c s).2 = { s with body } ∧
      (c.literal ∈ s.body.literals ∧ body.literals = s.body.literals ∨
        c.literal ∉ s.body.literals ∧ body.literals = s.body.literals ++ [c.literal]) := by
  rw [makeConstant_eq]
  have known := findConstant_simple simple own
  cases found : s.body.findConstant? c with
  | some index =>
    have there : c.literal ∈ s.body.literals := by
      by_contra new
      rw [known.2 new] at found
      exact nomatch found
    exact ⟨s.body, rfl, .inl ⟨there, rfl⟩⟩
  | none =>
    have new := known.1 found
    dsimp only
    rw [if_neg (Nat.not_le_of_lt (room new))]
    exact ⟨_, rfl, .inr ⟨new, s.body.literals_addConstant c⟩⟩

/-- A new constant goes into the pool, also if there is no index left for it. -/
lemma size_makeConstant {c : Constant} (simple : ∀ l ∈ s.body.literals, IsSimple l)
    (own : IsSimple c.literal) (new : c.literal ∉ s.body.literals) :
    (makeConstant c s).2.body.constants.size = s.body.constants.size + 1 := by
  rw [makeConstant_eq, (findConstant_simple simple own).2 new]
  dsimp only
  split
  · rw [State.body_complainOf]
    exact Array.size_push _
  · exact Array.size_push _

/-- Where the one pool has room for a constant, so has the pool apart. -/
lemma Setting.Agree.makeConstant {c c' : Constant} (h : σ.Agree s t) (same : c'.literal = c.literal)
    (simple : IsSimple c.literal) (small : (Compile.makeConstant c s).2.Small) :
    σ.Agree (Compile.makeConstant c s).2 (Compile.makeConstant c' t).2 := by
  have pools := h.pools
  have before : s.body.constants.size ≤ maxOperands :=
    Nat.le_trans (stays_makeConstant c s).constants small
  have room : c.literal ∉ s.body.literals → s.body.constants.size < maxOperands := by
    intro new
    have bound : (Compile.makeConstant c s).2.body.constants.size ≤ maxOperands := small
    rwa [size_makeConstant pools.simple simple new] at bound
  have room' : c'.literal ∉ t.body.literals → t.body.constants.size < maxOperands := by
    rw [same]
    intro new
    by_cases known : c.literal ∈ s.body.literals
    · have more : (c.literal :: t.body.literals).length ≤ s.body.literals.length :=
        ((List.nodup_cons.2 ⟨new, pools.nodup⟩).subperm (List.cons_subset.2 ⟨known, pools.covers⟩)).length_le
      rw [List.length_cons, Body.length_literals, Body.length_literals] at more
      exact Nat.lt_of_lt_of_le more before
    · have fewer := pools.length_le
      rw [Body.length_literals, Body.length_literals] at fewer
      exact Nat.lt_of_le_of_lt fewer (room known)
  obtain ⟨body, state, pool⟩ := makeConstant_simple pools.simple simple room
  obtain ⟨body', state', pool'⟩ := makeConstant_simple pools.simple_apart (same ▸ simple) room'
  rw [same] at pool'
  rw [state, state']
  exact { h with pools := pools.add simple pool pool' }

lemma mirrors_makeConstant {c c' : Constant} (same : c'.literal = c.literal) (simple : IsSimple c.literal)
    (h : σ.At stage s t) : Mirrors (makeConstant c) (makeConstant c') s t (σ.To stage) :=
  h.stay (stays_makeConstant c s) (stays_makeConstant c' t) fun small agree =>
    agree.makeConstant same simple small

lemma mirrors_stringConstant (content : String) (h : σ.At stage s t) :
    Mirrors (stringConstant content) (stringConstant content) s t (σ.To stage) := by
  refine (mirrors_internString content h).bind fun o o' s t ⟨own, own', h⟩ => ?_
  exact mirrors_makeConstant (congrArg Literal.string (own'.trans own.symm)) trivial h

lemma mirrors_emitConstant {c c' : Constant} (same : c'.literal = c.literal) (simple : IsSimple c.literal)
    (h : σ.At stage s t) : Mirrors (emitConstant c) (emitConstant c') s t (σ.To stage) :=
  (mirrors_makeConstant same simple h).bind fun _ _ _ _ h => mirrors_emit rfl h

/-! ### Variables -/

lemma Setting.At.complaints (complaints : List Complaint) (h : σ.At stage s t) :
    σ.At stage (complaints.foldl (fun s c => s.complainOf s.previous c) s)
      (complaints.foldl (fun s c => s.complainOf s.previous c) t) := by
  induction complaints generalizing s t with
  | nil => exact h
  | cons c complaints ih => exact ih (mirrors_complain c h)

/-- A name is that of the same local variable, or a global. -/
lemma mirrors_access (name : String) (h : σ.At stage s t) :
    Mirrors (access name) (access name) s t (σ.To stage) := by
  have resolves : Mirrors (modifyGet (·.resolve name) : Compiling (Option Access))
      (modifyGet (·.resolve name) : Compiling (Option Access)) s t fun place place' s t =>
        place' = place ∧ σ.At stage s t := by
    show (t.resolve name).1 = (s.resolve name).1 ∧ σ.At stage (s.resolve name).2 (t.resolve name).2
    unfold State.resolve
    rw [h.alike.top.locals, h.alike.top_apart.locals, h.alike.top.enclosing, h.alike.top_apart.enclosing]
    split
    · exact ⟨rfl, h.complaints _⟩
    · exact ⟨rfl, h.stay (n := 0) { enclosing := h.alike.top.enclosing.symm }
        { enclosing := h.alike.top_apart.enclosing.symm } fun _ agree => { agree with }⟩
  refine resolves.bind fun place place' s t aligned => ?_
  obtain ⟨same, h⟩ := aligned
  rw [same]
  cases place with
  | some place => exact h
  | none => exact (mirrors_stringConstant name h).bind fun _ _ _ _ h => h

lemma Access.size_read (place : Access) : place.read.size = 2 := by
  cases place <;> rfl

lemma Access.size_write (place : Access) : place.write.size = 2 := by
  cases place <;> rfl

lemma mirrors_readVariable (name : String) (h : σ.At stage s t) :
    Mirrors (readVariable name) (readVariable name) s t (σ.To stage) :=
  (mirrors_access name h).bind fun place place' _ _ h =>
    mirrors_emit (place'.size_read.trans place.size_read.symm) h

/-! ### Jumps -/

lemma mirrors_emitJump {jump : UInt16 → Instr} (h : σ.At stage s t) :
    Mirrors (emitJump jump) (emitJump jump) s t fun site site' s t =>
      site.start = σ.offset + site'.start ∧ σ.At stage s t := by
  have emits : σ.At stage (emit (jump 0xffff) s).2 (emit (jump 0xffff) t).2 := mirrors_emit rfl h
  exact ⟨emits.alike.size, emits⟩

lemma mirrors_land {site site' : JumpSite} (starts : site.start = σ.offset + site'.start)
    (h : σ.At stage s t) : Mirrors (land site) (land site') s t (σ.To stage) := by
  have size := h.alike.size
  have distance : s.body.size - site.start = t.body.size - site'.start := by omega
  unfold land
  refine mirrors_get ?_
  dsimp only
  rw [distance]
  refine mirrors_when (by omega) (fun h => mirrors_fail _ h) h fun h => ?_
  refine mirrors_when Iff.rfl (fun h => mirrors_complain _ h) h fun h => ?_
  exact mirrors_aimJump _ _ _ _ h

/-! ### Reading -/

lemma advance_proper {next : Token} {later : List Token} (ahead : s.rest = next :: later)
    (proper : ∀ fault, next.kind ≠ .malformed fault) :
    (advance s).2 = { s with previous := s.current, current := next, rest := later } := by
  show State.settle { s with previous := s.current } s.rest = _
  rw [ahead]
  unfold State.settle
  split
  · next fault broken => exact absurd broken (proper fault)
  · rfl

/-- Fewer tokens are ahead in both. -/
structure Nearer (s t s' t' : State) : Prop where
  here : s'.rest.length < s.rest.length
  apart : t'.rest.length < t.rest.length

/-- Both have read one token of the segment. -/
structure Setting.Moved (σ : Setting) (s t s' t' : State) : Prop where
  anywhere : σ.At .anywhere s' t'
  previous : s'.previous = s.current
  panics : Panics s t → Panics s' t'
  nearer : Nearer s t s' t'

/-- Reading goes on in the segment up to its end. -/
lemma mirrors_advance (h : σ.At .within s t) :
    Mirrors advance advance s t fun _ _ => σ.Moved s t := by
  obtain ⟨alike, started, ts, remains, current, rest, rest'⟩ := h
  -- Whatever the next token is, the rest of the two states stays as it is.
  have moves : ∀ {next next' : Token} {later later' : List Token}, s.rest = next :: later →
      t.rest = next' :: later' → σ.Alike { s with previous := s.current, current := next, rest := later }
        { t with previous := t.current, current := next', rest := later' } := by
    intro next next' later later' ahead ahead'
    have budget := alike.budget
    have budget' := alike.budget_apart
    rw [ahead, List.length_cons] at budget
    rw [ahead', List.length_cons] at budget'
    exact { alike with
      previous := current
      top := { alike.top with }
      top_apart := { alike.top_apart with }
      budget := Nat.lt_of_succ_lt budget
      budget_apart := Nat.lt_of_succ_lt budget'
      agree := fun small => { alike.agree small with } }
  have fewer : ∀ {u : State} {next : Token} {later : List Token}, u.rest = next :: later →
      later.length < u.rest.length := fun ahead => ahead ▸ Nat.lt_succ_self _
  unfold Mirrors
  cases remains with
  | last ends =>
    rw [List.nil_append] at rest rest'
    rw [advance_proper rest σ.opens.proper,
      advance_proper rest' fun fault broken => nomatch σ.ends.symm.trans broken]
    exact ⟨⟨moves rest rest', .inr ⟨ends, rfl, rfl, rfl, rfl⟩⟩, rfl, id, fewer rest, fewer rest'⟩
  | more plain remains =>
    cases ts with
    | nil => exact nomatch remains
    | cons next ts =>
      rw [List.cons_append] at rest rest'
      rw [advance_proper rest remains.proper, advance_proper rest' remains.proper]
      exact ⟨⟨moves rest rest', .inl ⟨plain.going, ts, remains, rfl, rfl, rfl⟩⟩, rfl, id, fewer rest, fewer rest'⟩

/-- There is more of the segment if it has not been read up to a semicolon. -/
lemma Setting.At.within (h : σ.At .anywhere s t) (going : s.previous.kind ≠ .semicolon) : σ.At .within s t :=
  ⟨h.1, h.2.resolve_right fun beyond => going beyond.ended⟩

/-- At these stages the segment is being read. -/
def Stage.Reads (stage : Stage) : Prop := stage = .within ∨ stage = .ready

lemma Setting.At.place (h : σ.At stage s t) (reads : stage.Reads) :
    σ.Within s t ∨ σ.Beyond s t ∧ Panics s t := by
  rcases reads with rfl | rfl
  · exact .inl h.2
  · exact h.2

lemma Setting.At.of_within (h : σ.At .within s t) (reads : stage.Reads) : σ.At stage s t := by
  rcases reads with rfl | rfl
  · exact h
  · exact h.ready

section Choices

variable {kind : TokenKind}

lemma accept_yes (found : s.current.kind = kind) : accept kind s = (true, (advance s).2) := by
  have run := accept_found (f := pure) found
  rwa [bind_pure] at run

lemma accept_no (missing : s.current.kind ≠ kind) : accept kind s = (false, s) := by
  have run := accept_missing (f := pure) missing
  rwa [bind_pure] at run

lemma expect_missing {what : String} (missing : s.current.kind ≠ kind) :
    expect kind what s = complainHere (.expected what) s := by
  unfold expect
  show (if decide (s.current.kind = kind) = true then _ else _ : Compiling Unit) s = _
  rw [if_neg (by simpa using missing)]

/-- Both see the same token, or neither sees one of the segment. -/
lemma Setting.At.sees (h : σ.At stage s t) (reads : stage.Reads) (inside : ¬Opens kind) :
    t.current.kind = kind ↔ s.current.kind = kind := by
  rcases h.place reads with ⟨-, ts, -, current, -⟩ | ⟨beyond, -⟩
  · rw [current]
  · rw [beyond.current, beyond.current_apart, σ.ends]
    exact iff_of_false (fun ends => inside (ends ▸ by decide)) fun ends => inside (ends ▸ σ.opens)

/-- A token that is found is one of the segment. -/
lemma Setting.At.found (h : σ.At stage s t) (reads : stage.Reads) (inside : ¬Opens kind)
    (found : s.current.kind = kind) : σ.At .within s t := by
  refine ⟨h.alike, (h.place reads).resolve_right fun beyond => inside ?_⟩
  rw [← found, beyond.1.current]
  exact σ.opens

/-- Both go on with the same operator, or with none. -/
lemma Setting.At.trailing (h : σ.At .ready s t) : trailing? t.current.kind = trailing? s.current.kind := by
  rcases h.2 with ⟨-, ts, -, current, -⟩ | ⟨beyond, -⟩
  · rw [current]
  · rw [beyond.current, beyond.current_apart, σ.ends, trailing_opens σ.opens, trailing_opens (by decide)]

lemma mirrors_complainHere (complaint : Complaint) (h : σ.At stage s t) (reads : stage.Reads) :
    Mirrors (complainHere complaint) (complainHere complaint) s t (σ.To stage) := by
  show σ.At stage (s.complainOf s.current complaint) (t.complainOf t.current complaint)
  rcases h.place reads with ⟨-, ts, -, current, -⟩ | ⟨-, panics, panics'⟩
  · rw [current]
    exact h.complains _ _
  · rw [complainOf_of_panicking panics, complainOf_of_panicking panics']
    exact h

lemma mirrors_check (h : σ.At stage s t) (reads : stage.Reads) (inside : ¬Opens kind) :
    Mirrors (check kind) (check kind) s t fun b b' s t => b' = b ∧ σ.At stage s t :=
  ⟨decide_eq_decide.2 (h.sees reads inside), h⟩

/-- A token before the semicolon is followed by another one of the segment. -/
lemma mirrors_next (h : σ.At .within s t) (going : s.current.kind ≠ .semicolon) :
    Mirrors advance advance s t fun _ _ s' t' => σ.At .within s' t' ∧ Nearer s t s' t' := by
  have moved : σ.Moved s t _ _ := mirrors_advance h
  exact ⟨moved.anywhere.within (moved.previous ▸ going), moved.nearer⟩

lemma mirrors_accept (h : σ.At stage s t) (reads : stage.Reads) (inside : ¬Opens kind)
    (going : kind ≠ .semicolon) : Mirrors (accept kind) (accept kind) s t fun b b' s' t' =>
      b' = b ∧ (b = true → σ.At .within s' t' ∧ Nearer s t s' t') ∧ (b = false → σ.At stage s' t') := by
  have sees := h.sees reads inside
  unfold Mirrors
  by_cases found : s.current.kind = kind
  · rw [accept_yes found, accept_yes (sees.2 found)]
    have next := mirrors_next (h.found reads inside found) (found ▸ going)
    exact ⟨rfl, fun _ => next, fun no => Bool.noConfusion (no : true = false)⟩
  · rw [accept_no found, accept_no (mt sees.1 found)]
    exact ⟨rfl, fun yes => Bool.noConfusion (yes : false = true), fun _ => h⟩

/-- A choice by the next token. -/
def Setting.Picks (σ : Setting) (stage : Stage) (b b' : Bool) (s t : State) : Prop :=
  b' = b ∧ (b = true → σ.At .within s t) ∧ (b = false → σ.At stage s t)

lemma mirrors_chooses (h : σ.At stage s t) (reads : stage.Reads) (inside : ¬Opens kind)
    (going : kind ≠ .semicolon) : Mirrors (accept kind) (accept kind) s t (σ.Picks stage) := by
  obtain ⟨same, found, missing⟩ := mirrors_accept h reads inside going
  exact ⟨same, fun yes => (found yes).1, missing⟩

lemma Mirrors.pick {act act' : Compiling Bool} {f : Bool → Compiling γ} {f' : Bool → Compiling δ}
    {P : γ → δ → State → State → Prop} (choice : Mirrors act act' s t (σ.Picks stage))
    (yes : ∀ s t, σ.At .within s t → Mirrors (f true) (f' true) s t P)
    (no : ∀ s t, σ.At stage s t → Mirrors (f false) (f' false) s t P) :
    Mirrors (act >>= f) (act' >>= f') s t P := by
  refine choice.bind fun b b' s t ⟨same, found, missing⟩ => ?_
  subst same
  cases b' with
  | true => exact yes s t (found rfl)
  | false => exact no s t (missing rfl)

/-- Where there may be an assignment, its sign decides. -/
lemma mirrors_assigns (canAssign : Bool) {f f' : Bool → Compiling γ} {P : γ → γ → State → State → Prop}
    (h : σ.At stage s t) (reads : stage.Reads) (yes : ∀ s t, σ.At .within s t → Mirrors (f true) (f' true) s t P)
    (no : ∀ s t, σ.At stage s t → Mirrors (f false) (f' false) s t P) :
    Mirrors (if canAssign = true then accept .equal >>= f else pure false >>= f)
      (if canAssign = true then accept .equal >>= f' else pure false >>= f') s t P :=
  mirrors_ite Iff.rfl ((mirrors_chooses h reads (by decide) (by decide)).pick yes no) (no s t h)

lemma mirrors_expect {what : String} (h : σ.At stage s t) (reads : stage.Reads) (inside : ¬Opens kind)
    (going : kind ≠ .semicolon) : Mirrors (expect kind what) (expect kind what) s t (σ.To stage) := by
  have sees := h.sees reads inside
  unfold Mirrors
  by_cases found : s.current.kind = kind
  · rw [expect_found found, expect_found (sees.2 found)]
    exact (mirrors_next (h.found reads inside found) (found ▸ going)).1.of_within reads
  · rw [expect_missing found, expect_missing (mt sees.1 found)]
    exact mirrors_complainHere _ h reads

/-- The semicolon that should end the segment ends it, if it is there. -/
lemma mirrors_semicolon {what : String} (h : σ.At .ready s t) :
    Mirrors (expect .semicolon what) (expect .semicolon what) s t (σ.To .done) := by
  have sees := h.sees (.inr rfl) (by decide : ¬Opens .semicolon)
  unfold Mirrors
  by_cases found : s.current.kind = .semicolon
  · rw [expect_found found, expect_found (sees.2 found)]
    have moved : σ.Moved s t _ _ := mirrors_advance (h.found (.inr rfl) (by decide) found)
    exact ⟨moved.anywhere.1,
      .inr (moved.anywhere.2.resolve_left fun within => within.started (moved.previous ▸ found))⟩
  · rw [expect_missing found, expect_missing (mt sees.1 found)]
    have complained := mirrors_complainHere (.expected what) h (.inr rfl)
    exact ⟨complained.1, complained.2.imp
      (fun within => ⟨within, s.panicking_complainOf _ _, t.panicking_complainOf _ _⟩) And.left⟩

end Choices

end Lox.Compile
