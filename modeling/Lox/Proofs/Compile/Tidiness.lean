import Lox.Proofs.Compile.Format
import Lox.Proofs.Compile.Order

/-!
# Tidy bodies

What holds of every function body in every state of a compilation, whether or not something is
complained of: the constants of its pool are different, its strings are the objects of the string
table, and the lines of its code go up to that of the token last read (`Body.Tidy`).  Where nothing is
complained of, the pool has room and closures have as many captures as their functions ask for.

The functions in a pool are bodies that were tidy when they were finished.  What a body depends on only
grows from then on (`Moment.Before`), so they are tidy for good.
-/

namespace Lox

/-! ## String tables -/

namespace StringTable

/-- Different contents have different objects, which have been numbered so far. -/
structure Canonical (t : StringTable) : Prop where
  numbered : ∀ {x object}, t.objects.find? x = some object → object.serial < t.next
  distinct : ∀ {x y object other}, t.objects.find? x = some object → t.objects.find? y = some other →
    object.serial = other.serial → x = y

/-- No object of the table is lost or replaced later on. -/
structure Grows (t t' : StringTable) : Prop where
  keeps : ∀ x object, t.objects.find? x = some object → t'.objects.find? x = some object
  canonical : t.Canonical → t'.Canonical

/-- The object is the one of the table for its content. -/
def Has (t : StringTable) (object : StringObject) : Prop :=
  t.objects.find? object.content = some object

variable {t t' t'' : StringTable}

lemma Grows.refl (t : StringTable) : t.Grows t := ⟨fun _ _ there => there, id⟩

lemma Grows.trans (h : t.Grows t') (h' : t'.Grows t'') : t.Grows t'' :=
  ⟨fun x object there => h'.keeps x object (h.keeps x object there), h'.canonical ∘ h.canonical⟩

lemma Has.grow {object : StringObject} (h : t.Has object) (grows : t.Grows t') : t'.Has object :=
  grows.keeps _ _ h

/-- Two objects of a table are the same if their contents are. -/
lemma Canonical.same_iff (canonical : t.Canonical) {object other : StringObject} (h : t.Has object)
    (h' : t.Has other) : object.serial = other.serial ↔ object.content = other.content := by
  constructor
  · exact canonical.distinct h h'
  · intro content
    have there : some object = some other := by rw [← h, content, h']
    rw [Option.some.inj there]

lemma has_intern (t : StringTable) (x : String) : (t.intern x).2.Has (t.intern x).1 := by
  rw [Has, content_intern, find?_intern, if_pos rfl]

lemma Canonical.intern (canonical : t.Canonical) (x : String) : (t.intern x).2.Canonical := by
  unfold StringTable.intern
  cases known : t.objects.find? x with
  | some object => exact canonical
  | none =>
    have entries : ∀ {y object}, (t.objects.insert x ⟨t.next, x⟩).find? y = some object →
        x = y ∧ object = ⟨t.next, x⟩ ∨ t.objects.find? y = some object := by
      intro y object there
      rw [Table.find?_insert] at there
      split at there
      · next same => exact .inl ⟨same, (Option.some.inj there).symm⟩
      · exact .inr there
    refine ⟨fun {y object} there => ?_, fun {y z object other} there there' same => ?_⟩
    · rcases entries there with ⟨-, rfl⟩ | old
      · exact Nat.lt_succ_self _
      · exact Nat.lt_succ_of_lt (canonical.numbered old)
    · rcases entries there with ⟨rfl, rfl⟩ | old <;> rcases entries there' with ⟨rfl, rfl⟩ | old'
      · rfl
      · exact absurd same (Nat.ne_of_gt (canonical.numbered old'))
      · exact absurd same (Nat.ne_of_lt (canonical.numbered old))
      · exact canonical.distinct old old' same

lemma grows_intern (t : StringTable) (x : String) : t.Grows (t.intern x).2 := by
  refine ⟨fun y object there => ?_, fun canonical => canonical.intern x⟩
  rw [find?_intern]
  split
  · next same =>
    subst same
    rw [intern, there]
  · exact there

lemma canonical_empty : StringTable.empty.Canonical where
  numbered there := absurd ((Table.find?_empty _).symm.trans there) (Option.some_ne_none _).symm
  distinct there := absurd ((Table.find?_empty _).symm.trans there) (Option.some_ne_none _).symm

end StringTable

namespace Compile

/-! ## Stages -/

/-- What a body depends on from outside. -/
structure Moment where
  strings : StringTable
  /-- The serial number of the next prototype. -/
  serial : Nat
  /-- The line of the token last read. -/
  line : Nat
  /-- Has nothing been complained of? -/
  quiet : Bool

/-- One moment comes before another one. -/
structure Moment.Before (T T' : Moment) : Prop where
  strings : T.strings.Grows T'.strings
  serial : T.serial ≤ T'.serial
  line : T.line ≤ T'.line
  quiet : T'.quiet = true → T.quiet = true

lemma Moment.Before.refl (T : Moment) : T.Before T :=
  ⟨.refl _, Nat.le_refl _, Nat.le_refl _, id⟩

lemma Moment.Before.trans {T T' T'' : Moment} (h : T.Before T') (h' : T'.Before T'') : T.Before T'' :=
  ⟨h.strings.trans h'.strings, Nat.le_trans h.serial h'.serial, Nat.le_trans h.line h'.line,
    h.quiet ∘ h'.quiet⟩

/-- Where a compilation is, as far as bodies depend on it. -/
def State.moment (s : State) : Moment := ⟨s.strings, s.serial, s.previous.line, s.diagnostics.isEmpty⟩

/-! ## Bodies -/

/-- A constant that a body may have in its pool. -/
def Known (T : Moment) : Constant → Prop
  | .number x => ∃ text, x = Decimal.read text
  | .string object => T.strings.Has object
  | .prototype p => p.serial < T.serial

/-- The captures of a closure are as many as the function in the pool asks for. -/
def ClosureFits (pool : Array Constant) : Instr → Prop
  | .closure index captures =>
    ∃ p, pool[index.toNat]? = some (.prototype p) ∧ captures.length = p.captureCount
  | _ => True

/-- Does the instruction make a closure? -/
def makesClosure : Instr → Bool
  | .closure _ _ => true
  | _ => false

/-- Is the constant a function? -/
def isFunction : Constant → Bool
  | .prototype _ => true
  | _ => false

/-- What holds of a body at a moment. -/
structure Body.Tidy (T : Moment) (b : Body) : Prop where
  distinct : b.constants.toList.Pairwise fun c d => c.same d = false
  known : ∀ c ∈ b.constants, Known T c
  room : T.quiet = true → b.constants.size ≤ maxOperands
  closures : T.quiet = true → ∀ i ∈ b.instrs, ClosureFits b.constants i
  counted : b.instrs.countP makesClosure ≤ b.constants.toList.countP isFunction
  sorted : (b.code.toList.map Prod.snd).Pairwise (· ≤ ·)
  lines : ∀ entry ∈ b.code.toList, 1 ≤ entry.2 ∧ entry.2 ≤ T.line

/-- A finished function was a tidy body. -/
def Finished (T : Moment) (p : Prototype) : Prop := ∃ b : Body, b.Tidy T ∧ p = b.assemble p.serial

/-- A function and all functions inside it are finished. -/
def AllFinished (T : Moment) (p : Prototype) : Prop := ∀ q, Contains p q → Finished T q

/-- All functions in a pool are finished. -/
def PoolFinished (T : Moment) (pool : Array Constant) : Prop :=
  ∀ p, .prototype p ∈ pool → AllFinished T p

section Grow

variable {T T' : Moment} {b : Body}

lemma Known.grow {c : Constant} (h : Known T c) (later : T.Before T') : Known T' c := by
  cases c with
  | number x => exact h
  | string object => exact StringTable.Has.grow h later.strings
  | prototype p => exact Nat.lt_of_lt_of_le h later.serial

lemma Body.Tidy.grow (h : b.Tidy T) (later : T.Before T') : b.Tidy T' where
  distinct := h.distinct
  known c there := (h.known c there).grow later
  room quiet := h.room (later.quiet quiet)
  closures quiet := h.closures (later.quiet quiet)
  counted := h.counted
  sorted := h.sorted
  lines entry there := ⟨(h.lines entry there).1, Nat.le_trans (h.lines entry there).2 later.line⟩

lemma AllFinished.grow {p : Prototype} (h : AllFinished T p) (later : T.Before T') :
    AllFinished T' p := by
  intro q inside
  obtain ⟨b, tidy, same⟩ := h q inside
  exact ⟨b, tidy.grow later, same⟩

/-- A finished body is a finished function, and so are those inside. -/
lemma Body.Tidy.finished (h : b.Tidy T) (pool : PoolFinished T b.constants) (serial : Nat) :
    AllFinished T (b.assemble serial) := by
  intro q inside
  cases inside with
  | self => exact ⟨b, h, rfl⟩
  | nested there further =>
    rw [Body.assemble, b.constants_chunk] at there
    exact pool _ there q further

end Grow

/-! ## States -/

/-- All open bodies are tidy, and all functions in their pools are finished. -/
structure State.Neat (s : State) : Prop where
  bodies : ∀ b ∈ s.body :: s.enclosing, b.Tidy s.moment
  pools : ∀ b ∈ s.body :: s.enclosing, PoolFinished s.moment b.constants
  finished : ∀ p ∈ s.finished, AllFinished s.moment p
  panics : s.panicking = true → s.diagnostics.isEmpty = false

/-- The lines of the tokens go up, but not beyond `limit`. -/
structure State.InLine (limit : Nat) (s : State) : Prop where
  sorted : (s.previous :: s.current :: s.rest).Pairwise fun t u => t.line ≤ u.line
  within : ∀ t ∈ s.previous :: s.current :: s.rest, t.line ≤ limit

/-- What holds of a state in which a token has been read. -/
structure State.Tidy (limit : Nat) (s : State) : Prop extends s.Neat, s.InLine limit where
  awake : 1 ≤ s.previous.line

/-- What holds of a state in which no token may have been read. -/
structure State.Drowsy (limit : Nat) (s : State) : Prop extends s.Neat, s.InLine limit where
  ahead : 1 ≤ s.current.line

/-- A later state is tidy. -/
structure Tidies (limit : Nat) (s s' : State) : Prop where
  tidy : s'.Tidy limit
  later : s.moment.Before s'.moment

variable {limit : Nat} {s s' s'' : State}

lemma Tidies.refl (h : s.Tidy limit) : Tidies limit s s := ⟨h, .refl _⟩

lemma Tidies.trans (h : Tidies limit s s') (h' : Tidies limit s' s'') : Tidies limit s s'' :=
  ⟨h'.tidy, h.later.trans h'.later⟩

lemma State.InLine.previous_le (h : s.InLine limit) {t : Token} (there : t ∈ s.current :: s.rest) :
    s.previous.line ≤ t.line := (List.pairwise_cons.1 h.sorted).1 t there

lemma State.Tidy.drowsy (h : s.Tidy limit) : s.Drowsy limit :=
  { h with ahead := Nat.le_trans h.awake (h.previous_le List.mem_cons_self) }

/-- A body has the same code and constants as another one. -/
structure Body.SameCode (b b' : Body) : Prop where
  code : b'.code = b.code
  constants : b'.constants = b.constants

lemma Body.SameCode.refl (b : Body) : b.SameCode b := ⟨rfl, rfl⟩

lemma Body.SameCode.tidy {b b' : Body} {T : Moment} (same : b.SameCode b') (h : b.Tidy T) :
    b'.Tidy T := by
  obtain ⟨code, constants⟩ := same
  constructor
  · rw [constants]; exact h.distinct
  · rw [constants]; exact h.known
  · rw [constants]; exact h.room
  · rw [constants, Body.instrs, code]; exact h.closures
  · rw [constants, Body.instrs, code]; exact h.counted
  · rw [code]; exact h.sorted
  · rw [code]; exact h.lines

/-- Bodies have the same code and constants as other ones. -/
abbrev SameBodies : List Body → List Body → Prop := List.Forall₂ Body.SameCode

lemma SameBodies.refl (bs : List Body) : SameBodies bs bs := List.forall₂_same.2 fun b _ => .refl b

/-- A state is as neat as an earlier one whose bodies have the same code. -/
lemma State.Neat.change (h : s.Neat) (later : s.moment.Before s'.moment)
    (bodies : SameBodies (s.body :: s.enclosing) (s'.body :: s'.enclosing))
    (finished : s'.finished = s.finished) (panics : s'.panicking = true → s'.diagnostics.isEmpty = false) :
    s'.Neat where
  bodies b' there := by
    obtain ⟨b, before, same⟩ := forall₂_left bodies there
    exact same.tidy ((h.bodies b before).grow later)
  pools b' there p inside := by
    obtain ⟨b, before, same⟩ := forall₂_left bodies there
    rw [same.constants] at inside
    exact (h.pools b before p inside).grow later
  finished p there := by
    rw [finished] at there
    exact (h.finished p there).grow later
  panics := panics

/-! ## Complaints and tokens -/

lemma State.moment_complainOf (s : State) (token : Token) (complaint : Complaint) :
    s.moment.Before (s.complainOf token complaint).moment := by
  unfold complainOf
  split
  · exact .refl _
  · refine ⟨.refl _, Nat.le_refl _, Nat.le_refl _, fun quiet => ?_⟩
    simp [moment] at quiet

lemma State.Neat.complainOf (h : s.Neat) (token : Token) (complaint : Complaint) :
    (s.complainOf token complaint).Neat := by
  have later := s.moment_complainOf token complaint
  unfold State.complainOf at later ⊢
  split at later
  · next panics => rwa [if_pos panics]
  · next calm =>
    rw [if_neg calm]
    refine h.change later (.refl _) rfl fun _ => ?_
    simp

lemma State.InLine.still (h : s.InLine limit) (place : SamePlace s s') : s'.InLine limit := by
  constructor
  · rw [place.previous, place.current, place.rest]
    exact h.sorted
  · rw [place.previous, place.current, place.rest]
    exact h.within

/-- A later state at the same place is tidy if its bodies are. -/
lemma State.Tidy.still (h : s.Tidy limit) (place : SamePlace s s') (neat : s'.Neat)
    (later : s.moment.Before s'.moment) : Tidies limit s s' :=
  ⟨{ neat, h.toInLine.still place with awake := by rw [place.previous]; exact h.awake }, later⟩

lemma State.Tidy.complainOf (h : s.Tidy limit) (token : Token) (complaint : Complaint) :
    Tidies limit s (s.complainOf token complaint) :=
  h.still (s.samePlace_complainOf token complaint) (h.toNeat.complainOf token complaint)
    (s.moment_complainOf token complaint)

lemma State.neat_settle (ts : List Token) : ∀ {s : State}, s.Neat → s.InLine limit → s.rest = ts →
    (s.settle ts).Neat ∧ (s.settle ts).InLine limit ∧ s.moment.Before (s.settle ts).moment ∧
      (s.settle ts).previous = s.previous := by
  induction ts with
  | nil => exact fun neat inLine _ => ⟨neat, inLine, .refl _, rfl⟩
  | cons t ts ih =>
    intro s neat inLine rest
    have sorted := inLine.sorted
    have within := inLine.within
    rw [rest] at sorted within
    unfold State.settle
    split
    · next fault _ =>
      have later := State.moment_complainOf { s with rest := ts } t (.lexical fault)
      have place := State.samePlace_complainOf { s with rest := ts } t (.lexical fault)
      have skipped : State.Neat { s with rest := ts } := { neat with }
      have fewer := ((List.sublist_cons_self t ts).cons_cons s.current).cons_cons s.previous
      have inLine' : State.InLine limit (State.complainOf { s with rest := ts } t (.lexical fault)) := by
        constructor
        · rw [place.previous, place.current, place.rest]
          exact sorted.sublist fewer
        · rw [place.previous, place.current, place.rest]
          exact fun u there => within u (fewer.subset there)
      obtain ⟨neat, inLine, later', previous⟩ := ih (skipped.complainOf t (.lexical fault)) inLine' place.rest
      exact ⟨neat, inLine, .trans later later', previous.trans place.previous⟩
    · refine ⟨{ neat with }, ⟨?_, ?_⟩, .refl _, rfl⟩
      · exact sorted.sublist ((List.sublist_cons_self s.current (t :: ts)).cons_cons _)
      · exact fun u there => within u
          (((List.sublist_cons_self s.current (t :: ts)).cons_cons _).subset there)

/-- Reading a token wakes the compilation up. -/
lemma State.Drowsy.advance (h : s.Drowsy limit) : Tidies limit s (advance s).2 := by
  have sorted := (List.pairwise_cons.1 h.sorted).2
  have later : s.moment.Before (State.moment { s with previous := s.current }) :=
    ⟨.refl _, Nat.le_refl _, h.previous_le List.mem_cons_self, id⟩
  have neat : State.Neat { s with previous := s.current } :=
    h.change later (.refl _) rfl h.panics
  have inLine : State.InLine limit { s with previous := s.current } := by
    refine ⟨.cons (fun t there => ?_) sorted, fun t there => ?_⟩
    · rcases List.mem_cons.1 there with rfl | there
      · exact Nat.le_refl _
      · exact (List.pairwise_cons.1 sorted).1 t there
    · rcases List.mem_cons.1 there with rfl | there
      · exact h.within _ (List.mem_cons_of_mem _ List.mem_cons_self)
      · exact h.within _ (List.mem_cons_of_mem _ there)
  obtain ⟨neat', inLine', later', previous⟩ := State.neat_settle s.rest neat inLine rfl
  refine ⟨{ neat', inLine' with awake := ?_ }, later.trans later'⟩
  show 1 ≤ (State.settle { s with previous := s.current } s.rest).previous.line
  rw [previous]
  exact h.ahead

/-! ## Scopes and names -/

/-- A tidy state whose bodies have other scopes is tidy. -/
lemma State.Tidy.scoped (h : s.Tidy limit) {body : Body} {enclosing : List Body}
    (bodies : SameBodies (s.body :: s.enclosing) (body :: enclosing)) :
    Tidies limit s { s with body, enclosing } :=
  ⟨{ h with toNeat := h.toNeat.change (.refl _) bodies rfl h.panics }, .refl _⟩

lemma State.Tidy.scope (h : s.Tidy limit) {body : Body} (same : s.body.SameCode body) :
    Tidies limit s { s with body } :=
  h.scoped (.cons same (SameBodies.refl _))

lemma Body.sameCode_addCapture (b : Body) (c : Capture) : b.SameCode (b.addCapture c).2.1 := by
  unfold addCapture
  split
  · exact .refl b
  · split <;> exact ⟨rfl, rfl⟩

/-- Finding a name in the bodies around changes their scopes only. -/
lemma Body.sameBodies_resolveCapture (name : String) (around : List Body) :
    ∀ b : Body, SameBodies (b :: around)
      ((b.resolveCapture name around).2.1 :: (b.resolveCapture name around).2.2.1) := by
  induction around with
  | nil => exact fun b => .refl _
  | cons first further ih =>
    intro b
    unfold Body.resolveCapture
    split
    · exact .cons (b.sameCode_addCapture _) (.cons ⟨rfl, rfl⟩ (SameBodies.refl _))
    · have same := ih first
      split
      · next around' further' complaints found =>
        rw [found] at same
        exact .cons (.refl b) same
      · next outer around' further' complaints found =>
        rw [found] at same
        exact .cons (b.sameCode_addCapture _) same

lemma State.Tidy.complaints (complaints : List Complaint) : ∀ {s : State}, s.Tidy limit →
    Tidies limit s (complaints.foldl (fun s c => s.complainOf s.previous c) s) := by
  induction complaints with
  | nil => exact .refl
  | cons c complaints ih =>
    intro s h
    have first := h.complainOf s.previous c
    exact first.trans (ih first.tidy)

lemma State.Tidy.resolve (h : s.Tidy limit) (name : String) : Tidies limit s (s.resolve name).2 := by
  unfold State.resolve
  split
  · exact h.complaints _
  · have changed := h.scoped (s.body.sameBodies_resolveCapture name s.enclosing)
    exact changed.trans (changed.tidy.complaints _)

/-- A body of which nothing has been read is tidy. -/
lemma Body.Tidy.start (T : Moment) (kind : BodyKind) (name : String) : Body.Tidy T (.start kind name) := by
  refine ⟨.nil, ?_, fun _ => Nat.zero_le _, ?_, Nat.zero_le _, .nil, ?_⟩
  · exact fun c there => absurd there (Array.not_mem_empty c)
  · exact fun _ i there => absurd there List.not_mem_nil
  · exact fun entry there => absurd there List.not_mem_nil

lemma State.Tidy.opens (h : s.Tidy limit) (kind : BodyKind) (name : String) :
    Tidies limit s (openBody kind name s).2 := by
  refine ⟨{ h with bodies := ?_, pools := ?_ }, .refl _⟩
  · intro b there
    rcases List.mem_cons.1 there with rfl | there
    · exact .start s.moment kind name
    · exact h.bodies b there
  · intro b there
    rcases List.mem_cons.1 there with rfl | there
    · exact fun p inside => absurd inside (Array.not_mem_empty _)
    · exact h.pools b there

/-! ## Code -/

/-- A later state is neat if its innermost body is, and the others are those of before. -/
lemma State.Neat.replace (h : s.Neat) (later : s.moment.Before s'.moment)
    (body : s'.body.Tidy s'.moment)
    (pool : PoolFinished s'.moment s'.body.constants) (enclosing : s'.enclosing = s.enclosing)
    (finished : s'.finished = s.finished) (panics : s'.panicking = true → s'.diagnostics.isEmpty = false) :
    s'.Neat := by
  refine ⟨fun b there => ?_, fun b there => ?_, fun p there => ?_, panics⟩
  · rcases List.mem_cons.1 there with rfl | there
    · exact body
    · rw [enclosing] at there
      exact (h.bodies b (List.mem_cons_of_mem _ there)).grow later
  · rcases List.mem_cons.1 there with rfl | there
    · exact pool
    · rw [enclosing] at there
      exact fun p inside => (h.pools b (List.mem_cons_of_mem _ there) p inside).grow later
  · rw [finished] at there
    exact (h.finished p there).grow later

lemma State.Tidy.withBody (h : s.Tidy limit) {body : Body} (tidy : body.Tidy s.moment)
    (pool : PoolFinished s.moment body.constants) : Tidies limit s { s with body } :=
  ⟨{ h with toNeat := h.toNeat.replace (.refl _) tidy pool rfl rfl h.panics }, .refl _⟩

/-- An instruction belongs to the line of the token last read, which is the last line so far. -/
lemma State.Tidy.emits (h : s.Tidy limit) {i : Instr}
    (fits : s.moment.quiet = true → ClosureFits s.body.constants i)
    (room : (i :: s.body.instrs).countP makesClosure ≤ s.body.constants.toList.countP isFunction) :
    Tidies limit s (emit i s).2 := by
  have body := h.bodies s.body List.mem_cons_self
  have code : (s.body.emit i s.previous.line).code.toList =
      s.body.code.toList ++ [(i, s.previous.line)] := Array.toList_push
  refine h.withBody { body with closures := ?_, counted := ?_, sorted := ?_, lines := ?_ }
    (h.pools s.body List.mem_cons_self)
  · intro quiet j there
    rw [Body.instrs, code, List.map_append] at there
    rcases List.mem_append.1 there with there | there
    · exact body.closures quiet j there
    · rw [List.mem_singleton.1 there]
      exact fits quiet
  · rw [Body.instrs, code, List.map_append, List.countP_append, Nat.add_comm, ← List.countP_append]
    exact room
  · rw [code, List.map_append, List.pairwise_append]
    refine ⟨body.sorted, List.pairwise_singleton _ _, fun line there last final => ?_⟩
    obtain ⟨entry, inside, rfl⟩ := List.mem_map.1 there
    rw [List.mem_singleton.1 final]
    exact (body.lines entry inside).2
  · intro entry there
    rw [code] at there
    rcases List.mem_append.1 there with there | there
    · exact body.lines entry there
    · rw [List.mem_singleton.1 there]
      exact ⟨h.awake, Nat.le_refl _⟩

/-- Entries of code are on the same lines, and closures that fit are what they were. -/
abbrev SameLines : List (Instr × Nat) → List (Instr × Nat) → Prop :=
  List.Forall₂ fun e e' => e'.2 = e.2 ∧ makesClosure e'.1 = makesClosure e.1 ∧
    ∀ pool, ClosureFits pool e.1 → ClosureFits pool e'.1

lemma sameLines_modify {f : Instr × Nat → Instr × Nat}
    (same : ∀ e, (f e).2 = e.2 ∧ makesClosure (f e).1 = makesClosure e.1 ∧
      ∀ pool, ClosureFits pool e.1 → ClosureFits pool (f e).1) (index : Nat)
    (code : List (Instr × Nat)) : SameLines code (code.modify index f) := by
  have refl : ∀ code, SameLines code code := fun code =>
    List.forall₂_same.2 fun _ _ => ⟨rfl, rfl, fun _ h => h⟩
  induction code generalizing index with
  | nil => rw [List.modify_nil]; exact .nil
  | cons e code ih =>
    cases index with
    | zero => exact .cons (same e) (refl code)
    | succ index => exact .cons ⟨rfl, rfl, fun _ h => h⟩ (ih index)

/-- A jump that is aimed stays on its line. -/
lemma Body.sameLines_aimJump (b : Body) (index : Nat) (distance : UInt16) :
    SameLines b.code.toList (b.aimJump index distance).code.toList := by
  rw [aimJump, Array.toList_modify]
  refine sameLines_modify (fun e => ?_) index _
  obtain ⟨i, line⟩ := e
  cases i <;> exact ⟨rfl, rfl, fun _ h => h⟩

lemma SameLines.lines {code code' : List (Instr × Nat)} (same : SameLines code code') :
    code'.map Prod.snd = code.map Prod.snd := by
  induction same with
  | nil => rfl
  | cons first _ ih => rw [List.map_cons, List.map_cons, ih, first.1]

lemma SameLines.closures {code code' : List (Instr × Nat)} (same : SameLines code code') :
    (code'.map Prod.fst).countP makesClosure = (code.map Prod.fst).countP makesClosure := by
  induction same with
  | nil => rfl
  | cons first _ ih => rw [List.map_cons, List.map_cons, List.countP_cons, List.countP_cons, ih, first.2.1]

lemma Body.Tidy.sameLines {T : Moment} {b b' : Body} (h : b.Tidy T)
    (same : SameLines b.code.toList b'.code.toList) (constants : b'.constants = b.constants) :
    b'.Tidy T := by
  have lines := same.lines
  constructor
  · rw [constants]; exact h.distinct
  · rw [constants]; exact h.known
  · rw [constants]; exact h.room
  · intro quiet i there
    obtain ⟨e', inside, rfl⟩ := List.mem_map.1 there
    obtain ⟨e, before, -, -, fits⟩ := forall₂_left same inside
    rw [constants]
    exact fits _ (h.closures quiet _ (List.mem_map_of_mem before))
  · rw [constants]
    exact Nat.le_trans (Nat.le_of_eq same.closures) h.counted
  · rw [lines]; exact h.sorted
  · intro e' inside
    obtain ⟨e, before, line, -⟩ := forall₂_left same inside
    rw [line]
    exact h.lines e before

lemma State.Tidy.aims (h : s.Tidy limit) (index : Nat) (distance : UInt16) :
    Tidies limit s { s with body := s.body.aimJump index distance } :=
  h.withBody ((h.bodies s.body List.mem_cons_self).sameLines (s.body.sameLines_aimJump index distance) rfl)
    (h.pools s.body List.mem_cons_self)

/-! ## Constants -/

lemma State.Tidy.interns (h : s.Tidy limit) (content : String) :
    Tidies limit s { s with strings := (s.strings.intern content).2 } := by
  have later : s.moment.Before (State.moment { s with strings := (s.strings.intern content).2 }) :=
    ⟨s.strings.grows_intern content, Nat.le_refl _, Nat.le_refl _, id⟩
  exact ⟨{ h with toNeat := h.toNeat.change later (.refl _) rfl h.panics },
    later⟩

/-- A constant that is not in the pool may be added to it, as long as there is room. -/
lemma Body.Tidy.addConstant {T : Moment} {b : Body} (h : b.Tidy T) {c : Constant} (known : Known T c)
    (missing : b.findConstant? c = none) (room : T.quiet = true → b.constants.size < maxOperands) :
    (b.addConstant c).Tidy T := by
  have pool : (b.addConstant c).constants.toList = b.constants.toList ++ [c] := Array.toList_push
  refine { h with distinct := ?_, known := ?_, room := ?_, closures := ?_, counted := ?_ }
  · rw [pool, List.pairwise_append]
    refine ⟨h.distinct, List.pairwise_singleton _ _, fun d there e last => ?_⟩
    rw [List.mem_singleton.1 last]
    have none := Array.findIdx?_eq_none_iff.1 missing d (Array.mem_toList_iff.1 there)
    exact Bool.eq_false_iff.2 fun same => by rw [same] at none; exact nomatch none
  · intro d there
    rcases Array.mem_push.1 there with old | rfl
    · exact h.known d old
    · exact known
  · intro quiet
    rw [Body.addConstant, Array.size_push]
    exact room quiet
  · intro quiet i there
    have fits := h.closures quiet i there
    cases i with
    | closure index captures =>
      obtain ⟨p, entry, count⟩ := fits
      refine ⟨p, ?_, count⟩
      rw [Body.addConstant, Array.getElem?_push]
      split
      · next last =>
        rw [last, Array.getElem?_size] at entry
        cases entry
      · exact entry
    | _ => trivial
  · rw [pool, List.countP_append]
    exact Nat.le_add_right_of_le h.counted

lemma PoolFinished.push {T : Moment} {pool : Array Constant} (h : PoolFinished T pool) {c : Constant}
    (inside : ∀ p, c = .prototype p → AllFinished T p) : PoolFinished T (pool.push c) := by
  intro p there
  rcases Array.mem_push.1 there with old | new
  · exact h p old
  · exact inside p new.symm

lemma State.bodies_complainOf (s : State) (token : Token) (complaint : Complaint) :
    (s.complainOf token complaint).body = s.body ∧
      (s.complainOf token complaint).enclosing = s.enclosing ∧
      (s.complainOf token complaint).finished = s.finished := by
  unfold State.complainOf
  split <;> exact ⟨rfl, rfl, rfl⟩

lemma State.complainOf_found (s : State) (token : Token) (complaint : Complaint)
    (panics : s.panicking = true → s.diagnostics.isEmpty = false) :
    (s.complainOf token complaint).diagnostics.isEmpty = false := by
  unfold State.complainOf
  split
  · exact panics (by assumption)
  · simp

/-- Where the pool is full there is a complaint, if not about that then about something before. -/
lemma State.Tidy.makes (h : s.Tidy limit) {c : Constant} (known : Known s.moment c)
    (inside : ∀ p, c = .prototype p → AllFinished s.moment p) :
    Tidies limit s (makeConstant c s).2 := by
  have body := h.bodies s.body List.mem_cons_self
  have pool := (h.pools s.body List.mem_cons_self).push inside
  rw [makeConstant_eq]
  cases missing : s.body.findConstant? c with
  | some index => exact .refl h
  | none =>
    dsimp only
    split
    · let added : State := { s with body := s.body.addConstant c }
      have later := State.moment_complainOf added s.previous .tooManyConstants
      have place := State.samePlace_complainOf added s.previous .tooManyConstants
      have found := State.complainOf_found added s.previous .tooManyConstants h.panics
      obtain ⟨body', enclosing, finished⟩ :=
        State.bodies_complainOf added s.previous .tooManyConstants
      have loud : ∀ {P : Prop}, (added.complainOf s.previous .tooManyConstants).moment.quiet = true → P := by
        intro P quiet
        exact nomatch quiet.symm.trans found
      have tidy : (s.body.addConstant c).Tidy (added.complainOf s.previous .tooManyConstants).moment :=
        (body.grow later).addConstant (known.grow later) missing loud
      have neat := h.toNeat.replace later (by rw [body']; exact tidy)
        (by rw [body']; exact fun p there => (pool p there).grow later) enclosing finished fun _ => found
      exact h.still ⟨place.previous, place.current, place.rest, place.budget⟩ neat later
    · next room =>
      exact h.withBody (body.addConstant known missing fun _ => Nat.lt_of_not_le room) pool

/-! ## The end of a body -/

/-- A function that may go into a pool, with the captures of a closure of it. -/
structure Closable (s : State) (taken : Prototype × List Capture) : Prop where
  finished : AllFinished s.moment taken.1
  numbered : taken.1.serial < s.serial
  newest : ∀ p, .prototype p ∈ s.body.constants → p.serial < taken.1.serial
  count : taken.2.length = taken.1.captureCount

/-- The state after the innermost body has been taken away. -/
lemma takeBody_opens (s : State) : ∃ body enclosing,
    (∀ b ∈ body :: enclosing, b ∈ s.body :: s.enclosing) ∧
      (takeBody s).2 = { s with
        serial := s.serial + 1
        finished :=
          if s.diagnostics.isEmpty then s.finished.push (s.body.assemble s.serial) else s.finished
        body, enclosing } := by
  unfold takeBody
  cases around : s.enclosing with
  | nil =>
    simp only [modifyGet, MonadStateOf.modifyGet, StateT.modifyGet, around]
    exact ⟨s.body, [], fun b there => there, rfl⟩
  | cons first further =>
    simp only [modifyGet, MonadStateOf.modifyGet, StateT.modifyGet, around]
    exact ⟨first, further, fun b there => List.mem_cons_of_mem _ there, rfl⟩

/-- The innermost body is finished, and the one around it is open. -/
lemma State.Tidy.takes (h : s.Tidy limit) :
    Tidies limit s (takeBody s).2 ∧ Closable (takeBody s).2 (takeBody s).1 := by
  have body := h.bodies s.body List.mem_cons_self
  obtain ⟨body', enclosing, fewer, state⟩ := takeBody_opens s
  have taken : (takeBody s).1 = (s.body.assemble s.serial, s.body.captures.toList) := rfl
  have later : s.moment.Before (takeBody s).2.moment := by
    rw [state]
    exact ⟨.refl _, Nat.le_succ _, Nat.le_refl _, id⟩
  have done : AllFinished (takeBody s).2.moment (s.body.assemble s.serial) :=
    (body.finished (h.pools s.body List.mem_cons_self) s.serial).grow later
  rw [taken]
  refine ⟨h.still ?_ ⟨?_, ?_, ?_, ?_⟩ later, ⟨done, ?_, ?_, ?_⟩⟩
  · rw [state]
    exact {}
  · intro b there
    rw [state] at there
    exact (h.bodies b (fewer b there)).grow later
  · intro b there p inside
    rw [state] at there
    exact (h.pools b (fewer b there) p inside).grow later
  · intro p there
    have old : p ∈ s.finished ∨ p = s.body.assemble s.serial := by
      rw [state] at there
      dsimp only at there
      split at there
      · exact Array.mem_push.1 there
      · exact .inl there
    rcases old with old | rfl
    · exact (h.finished p old).grow later
    · exact done
  · rw [state]
    exact h.panics
  · rw [state]
    exact Nat.lt_succ_self _
  · intro p there
    rw [state] at there
    exact (h.bodies body' (fewer body' List.mem_cons_self)).known _ there
  · exact Array.length_toList

/-- A closure of a function that has just been finished. -/
lemma State.Tidy.closes (h : s.Tidy limit) {taken : Prototype × List Capture}
    (closable : Closable s taken) :
    Tidies limit s
      ((do let index ← makeConstant (.prototype taken.1); emit (.closure index taken.2) : Compiling Unit) s).2 := by
  have made := h.makes (c := .prototype taken.1) closable.numbered
    fun p same => Constant.prototype.inj same ▸ closable.finished
  have missing : s.body.findConstant? (.prototype taken.1) = none := by
    refine Array.findIdx?_eq_none_iff.2 fun c there => ?_
    cases c with
    | prototype p => exact beq_false_of_ne (Nat.ne_of_lt (closable.newest p there))
    | _ => rfl
  obtain ⟨body, entry⟩ :
      (makeConstant (.prototype taken.1) s).2.body = s.body.addConstant (.prototype taken.1) ∧
        ((makeConstant (.prototype taken.1) s).2.diagnostics.isEmpty = true →
          (s.body.addConstant (.prototype taken.1)).constants[(makeConstant (.prototype taken.1) s).1.toNat]? =
            some (.prototype taken.1)) := by
    rw [makeConstant_eq, missing]
    dsimp only
    split
    · refine ⟨(State.bodies_complainOf _ _ _).1, fun quiet => ?_⟩
      exact nomatch quiet.symm.trans (State.complainOf_found _ _ _ h.panics)
    · next room =>
      rw [UInt8.toNat_ofNat_of_lt_max (Nat.lt_of_not_le room)]
      exact ⟨rfl, fun _ => Array.getElem?_push_size⟩
  refine made.trans (made.tidy.emits (fun quiet => ⟨taken.1, ?_, closable.count⟩) ?_)
  · rw [body]
    exact entry quiet
  · rw [body, List.countP_cons_of_pos rfl, Body.addConstant, Array.toList_push, List.countP_append]
    exact Nat.add_le_add_right (h.bodies s.body List.mem_cons_self).counted 1

end Compile

end Lox
