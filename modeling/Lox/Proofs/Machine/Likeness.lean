import Lox.Machine.Run
import Mathlib.Data.List.Forall2
import Mathlib.Tactic.Lemma

/-!
# Likeness

Two machines that have come different ways may hold the same values all the same, though their
objects have different numbers and their functions have been compiled apart.  A `Link` tells which
numbers belong together.  Likeness of values (`Value.Alike`) is carried over to closures, cells and
frames, and then to whole machines (`Machine.Alike`).

Strings are alike if they have the same content: what number a string object has is not to be seen
from a program, nor which strings are in use besides.
-/

namespace Lox

/-! ## Rows -/

/-- The rows have the same length, and from a place on their entries are related. -/
structure RowsAlike {α β : Type} (start : Nat) (R : α → β → Prop) (xs : Array α) (ys : Array β) :
    Prop where
  size : xs.size = ys.size
  entry : ∀ i, start ≤ i → Option.Rel R xs[i]? ys[i]?

namespace RowsAlike

variable {α β : Type} {start : Nat} {R : α → β → Prop} {xs : Array α} {ys : Array β}

lemma empty : RowsAlike start R (#[] : Array α) (#[] : Array β) := ⟨rfl, fun _ _ => .none⟩

lemma push (h : RowsAlike start R xs ys) {a : α} {b : β} (last : R a b) :
    RowsAlike start R (xs.push a) (ys.push b) := by
  refine ⟨by rw [Array.size_push, Array.size_push, h.size], fun i from_ => ?_⟩
  rw [Array.getElem?_push, Array.getElem?_push, h.size]
  split
  · exact .some last
  · exact h.entry i from_

lemma pop (h : RowsAlike start R xs ys) : RowsAlike start R xs.pop ys.pop := by
  refine ⟨by rw [Array.size_pop, Array.size_pop, h.size], fun i from_ => ?_⟩
  rw [Array.getElem?_pop, Array.getElem?_pop, h.size]
  split
  · exact h.entry i from_
  · exact .none

lemma set (h : RowsAlike start R xs ys) (place : Nat) {a : α} {b : β} (new : R a b) :
    RowsAlike start R (xs.setIfInBounds place a) (ys.setIfInBounds place b) := by
  refine ⟨by rw [Array.size_setIfInBounds, Array.size_setIfInBounds, h.size], fun i from_ => ?_⟩
  rw [Array.getElem?_setIfInBounds, Array.getElem?_setIfInBounds, h.size]
  split
  · split
    · exact .some new
    · exact .none
  · exact h.entry i from_

lemma shrink (h : RowsAlike start R xs ys) (size : Nat) :
    RowsAlike start R (xs.shrink size) (ys.shrink size) := by
  refine ⟨by rw [Array.size_shrink, Array.size_shrink, h.size], fun i from_ => ?_⟩
  rw [Array.shrink_eq_take, Array.shrink_eq_take, Array.take_eq_extract, Array.take_eq_extract,
    Array.getElem?_extract, Array.getElem?_extract, h.size]
  split
  · rw [Nat.zero_add]
    exact h.entry i from_
  · exact .none

lemma append (h : RowsAlike start R xs ys) {xs' : Array α} {ys' : Array β} (more : RowsAlike 0 R xs' ys') :
    RowsAlike start R (xs ++ xs') (ys ++ ys') := by
  refine ⟨by rw [Array.size_append, Array.size_append, h.size, more.size], fun i from_ => ?_⟩
  rw [Array.getElem?_append, Array.getElem?_append, h.size]
  split
  · exact h.entry i from_
  · exact more.entry _ (Nat.zero_le _)

lemma modify (h : RowsAlike start R xs ys) (place : Nat) {f : α → α} {g : β → β}
    (change : ∀ a b, R a b → R (f a) (g b)) :
    RowsAlike start R (xs.modify place f) (ys.modify place g) := by
  refine ⟨by rw [Array.size_modify, Array.size_modify, h.size], fun i from_ => ?_⟩
  rw [Array.getElem?_modify, Array.getElem?_modify]
  have here := h.entry i from_
  generalize xs[i]? = a at here ⊢
  generalize ys[i]? = b at here ⊢
  split
  · cases here with
    | some related => exact .some (change _ _ related)
    | none => exact .none
  · exact here

/-- The end of the rows from a place on, where the entries are related. -/
lemma extract (h : RowsAlike start R xs ys) (first : Nat) (clear : start ≤ first) :
    RowsAlike 0 R (xs.extract first xs.size) (ys.extract first ys.size) := by
  refine ⟨by rw [Array.size_extract, Array.size_extract, h.size], fun i _ => ?_⟩
  rw [Array.getElem?_extract, Array.getElem?_extract, h.size]
  split
  · exact h.entry (first + i) (Nat.le_trans clear (Nat.le_add_right _ _))
  · exact .none

end RowsAlike

/-- The tables have the same names, with entries that are related. -/
def TablesAlike {α β : Type} (R : α → β → Prop) (t : Table α) (u : Table β) : Prop :=
  ∀ name, Option.Rel R (t.find? name) (u.find? name)

namespace TablesAlike

variable {α β : Type} {R : α → β → Prop} {t t' : Table α} {u u' : Table β}

lemma empty : TablesAlike R (.empty : Table α) (.empty : Table β) := by
  intro name
  rw [Table.find?_empty, Table.find?_empty]
  exact .none

lemma insert (h : TablesAlike R t u) (name : String) {a : α} {b : β} (new : R a b) :
    TablesAlike R (t.insert name a) (u.insert name b) := by
  intro other
  rw [Table.find?_insert, Table.find?_insert]
  split
  · exact .some new
  · exact h other

lemma addAll (h : TablesAlike R t u) (h' : TablesAlike R t' u') :
    TablesAlike R (t.addAll t') (u.addAll u') := by
  intro name
  rw [Table.find?_addAll, Table.find?_addAll]
  have added := h' name
  generalize t'.find? name = a at added ⊢
  generalize u'.find? name = b at added ⊢
  cases added with
  | some related => exact .some related
  | none => exact h name

lemma contains (h : TablesAlike R t u) (name : String) : t.contains name = u.contains name := by
  rw [Table.contains_eq_isSome_find?, Table.contains_eq_isSome_find?]
  have here := h name
  generalize t.find? name = a at here ⊢
  generalize u.find? name = b at here ⊢
  cases here <;> rfl

end TablesAlike

/-! ## Links -/

/-- What belongs together in two machines. -/
structure Link where
  /-- The numbers of prototypes that belong together. -/
  prototypes : Nat → Nat → Prop
  /-- The numbers of closures that belong together. -/
  closures : Nat → Nat → Prop
  /-- Do the lines of functions agree? -/
  lined : Prop
  /-- From this place on the values on the stacks are alike. -/
  clear : Nat
  /-- Scripts that are not alike, though the rest of the one is the rest of the other. -/
  scripts : Closure → Closure → Prop
  /-- How much further on the second script is. -/
  offset : Nat
  prototypes_unique : ∀ {a a' b b'}, prototypes a a' → prototypes b b' → (a = b ↔ a' = b')
  closures_unique : ∀ {a a' b b'}, closures a a' → closures b b' → (a = b ↔ a' = b')

/-- Everything has the number it has. -/
def Link.same : Link where
  prototypes := Eq
  closures := Eq
  lined := True
  clear := 0
  scripts _ _ := False
  offset := 0
  prototypes_unique := by rintro a _ b _ rfl rfl; rfl
  closures_unique := by rintro a _ b _ rfl rfl; rfl

/-! ## Functions -/

/-- Constants that are alike: functions have the same code with alike constants. -/
inductive Constant.Alike (L : Link) : Constant → Constant → Prop where
  | number (x : Float) : Alike L (.number x) (.number x)
  | string {s t : StringObject} (content : s.content = t.content) : Alike L (.string s) (.string t)
  | prototype {p q : Prototype} (serial : L.prototypes p.serial q.serial) (name : p.name = q.name)
      (arity : p.arity = q.arity) (captureCount : p.captureCount = q.captureCount)
      (code : p.chunk.code = q.chunk.code) (lines : L.lined → p.chunk.lines = q.chunk.lines)
      (size : p.chunk.constants.size = q.chunk.constants.size)
      (constants : ∀ (i : Nat) (c d : Constant), p.chunk.constants[i]? = some c → q.chunk.constants[i]? = some d →
        Alike L c d) : Alike L (.prototype p) (.prototype q)

/-- Functions that are alike. -/
structure Prototype.Alike (L : Link) (p q : Prototype) : Prop where
  serial : L.prototypes p.serial q.serial
  name : p.name = q.name
  arity : p.arity = q.arity
  captureCount : p.captureCount = q.captureCount
  code : p.chunk.code = q.chunk.code
  lines : L.lined → p.chunk.lines = q.chunk.lines
  constants : RowsAlike 0 (Constant.Alike L) p.chunk.constants q.chunk.constants

variable {L : Link}

/-- Rows of the same length are alike if their entries are. -/
lemma rowsAlike_of_entries {α β : Type} {R : α → β → Prop} {xs : Array α} {ys : Array β}
    (size : xs.size = ys.size)
    (entries : ∀ (i : Nat) (a : α) (b : β), xs[i]? = some a → ys[i]? = some b → R a b) : RowsAlike 0 R xs ys := by
  refine ⟨size, fun i _ => ?_⟩
  by_cases bound : i < xs.size
  · have bound' : i < ys.size := size ▸ bound
    rw [Array.getElem?_eq_getElem bound, Array.getElem?_eq_getElem bound']
    exact .some (entries i _ _ (Array.getElem?_eq_getElem bound) (Array.getElem?_eq_getElem bound'))
  · rw [Array.getElem?_eq_none (Nat.le_of_not_lt bound),
      Array.getElem?_eq_none (size ▸ Nat.le_of_not_lt bound)]
    exact .none

lemma RowsAlike.of_some {α β : Type} {R : α → β → Prop} {xs : Array α} {ys : Array β} {i : Nat}
    {a : α} {b : β} (h : RowsAlike 0 R xs ys) (left : xs[i]? = some a) (right : ys[i]? = some b) :
    R a b := by
  have here := h.entry i (Nat.zero_le i)
  rw [left, right] at here
  cases here with
  | some related => exact related

lemma Constant.alike_prototype {p q : Prototype} :
    Constant.Alike L (.prototype p) (.prototype q) ↔ Prototype.Alike L p q := by
  constructor
  · intro h
    cases h with
    | prototype serial name arity captureCount code lines size constants =>
      exact ⟨serial, name, arity, captureCount, code, lines, rowsAlike_of_entries size constants⟩
  · intro h
    exact .prototype h.serial h.name h.arity h.captureCount h.code h.lines h.constants.size
      fun i c d left right => h.constants.of_some left right

lemma Constant.Alike.captureCount {c d : Constant} (h : Constant.Alike L c d) :
    c.captureCount = d.captureCount := by
  cases h with
  | prototype _ _ _ captureCount => exact captureCount
  | _ => rfl

/-- Functions that are alike have the same instructions. -/
lemma Prototype.Alike.instrAt? {p q : Prototype} (h : Prototype.Alike L p q) (offset : Nat) :
    p.chunk.instrAt? offset = q.chunk.instrAt? offset := by
  have byteAt : ∀ k, p.chunk.byteAt k = q.chunk.byteAt k := fun k => by
    unfold Chunk.byteAt
    rw [h.code]
  have wordAt : ∀ k, p.chunk.wordAt k = q.chunk.wordAt k := fun k => by
    unfold Chunk.wordAt
    rw [byteAt, byteAt]
  have capturesAt : ∀ count k, p.chunk.capturesAt count k = q.chunk.capturesAt count k := by
    intro count
    induction count with
    | zero => exact fun _ => rfl
    | succ count ih =>
      intro k
      simp only [Chunk.capturesAt, byteAt, ih]
  have captureCountAt : ∀ index, p.chunk.captureCountAt index = q.chunk.captureCountAt index := by
    intro index
    unfold Chunk.captureCountAt
    have entry := h.constants.entry index.toNat (Nat.zero_le _)
    generalize p.chunk.constants[index.toNat]? = c at entry ⊢
    generalize q.chunk.constants[index.toNat]? = d at entry ⊢
    cases entry with
    | some alike => exact alike.captureCount
    | none => rfl
  simp only [Chunk.instrAt?, byteAt, wordAt, capturesAt, captureCountAt]

lemma Prototype.Alike.size {p q : Prototype} (h : Prototype.Alike L p q) :
    p.chunk.size = q.chunk.size := congrArg Array.size h.code

lemma Prototype.Alike.display {p q : Prototype} (h : Prototype.Alike L p q) :
    p.display = q.display := by
  unfold PrototypeOf.display
  rw [h.name]

/-! ## Values -/

/-- Closures that are alike. -/
structure Closure.Alike (L : Link) (c d : Closure) : Prop where
  serial : L.closures c.serial d.serial
  prototype : Prototype.Alike L c.prototype d.prototype
  captured : c.captured = d.captured

/-- Values that are alike. -/
inductive Value.Alike (L : Link) : Value → Value → Prop where
  | nil : Alike L .nil .nil
  | bool (b : Bool) : Alike L (.bool b) (.bool b)
  | number (x : Float) : Alike L (.number x) (.number x)
  | string {s t : StringObject} (content : s.content = t.content) : Alike L (.string s) (.string t)
  | prototype {p q : Prototype} (alike : Prototype.Alike L p q) : Alike L (.prototype p) (.prototype q)
  | native (f : NativeRef) : Alike L (.native f) (.native f)
  | closure {c d : Closure} (alike : Closure.Alike L c d) : Alike L (.closure c) (.closure d)
  | cls (c : ClassRef) : Alike L (.cls c) (.cls c)
  | inst (serial : Nat) (c : ClassRef) : Alike L (.inst serial c) (.inst serial c)
  | bound (serial : Nat) {v w : Value} {c d : Closure} (receiver : Alike L v w)
      (method : Closure.Alike L c d) : Alike L (.bound serial v c) (.bound serial w d)

namespace Value.Alike

variable {v w v' w' : Value}

/-- Values that are alike are printed alike. -/
lemma display (h : Alike L v w) : v.display = w.display := by
  cases h with
  | string content => exact content
  | prototype alike => exact alike.display
  | closure alike => exact alike.prototype.display
  | bound _ _ method => exact method.prototype.display
  | _ => rfl

lemma isFalsey (h : Alike L v w) : v.isFalsey = w.isFalsey := by
  cases h with
  | bool b => rfl
  | _ => rfl

/-- Values that are equal are alike only to values that are equal. -/
lemma same (h : Alike L v w) (h' : Alike L v' w') : v.same v' = w.same w' := by
  cases h <;> cases h' <;> try rfl
  · next content _ _ content' =>
    simp only [Value.same]
    rw [content, content']
  · next alike _ _ alike' =>
    exact Bool.eq_iff_iff.2
      (beq_iff_eq.trans ((L.prototypes_unique alike.serial alike'.serial).trans beq_iff_eq.symm))
  · next alike _ _ alike' =>
    exact Bool.eq_iff_iff.2
      (beq_iff_eq.trans ((L.closures_unique alike.serial alike'.serial).trans beq_iff_eq.symm))

end Value.Alike

lemma Constant.Alike.toValue {c d : Constant} (h : Constant.Alike L c d) :
    Value.Alike L c.toValue d.toValue := by
  cases h with
  | number x => exact .number x
  | string content => exact .string content
  | prototype serial name arity captureCount code lines size constants =>
    exact .prototype ⟨serial, name, arity, captureCount, code, lines,
      rowsAlike_of_entries size constants⟩

/-! ## Functions of the host -/

/-- Closures to be made that are alike. -/
structure ClosuresAlike (L : Link) (new new' : Prototype × Array Nat) : Prop where
  prototype : Prototype.Alike L new.1 new'.1
  captured : new.2 = new'.2

/-- Objects to be made that are alike. -/
structure NewObjects.Alike (L : Link) (new new' : NewObjects) : Prop where
  closures : RowsAlike 0 (ClosuresAlike L) new.closures new'.closures
  methods : RowsAlike 0 (TablesAlike (Closure.Alike L)) new.methods new'.methods
  fields : RowsAlike 0 (TablesAlike (Value.Alike L)) new.fields new'.fields
  natives : new.natives = new'.natives
  prototypes : new.prototypes = new'.prototypes
  bounds : new.bounds = new'.bounds

/-- Values to be made that are alike. -/
inductive Blueprint.Alike (L : Link) : Blueprint → Blueprint → Prop where
  | value {v w : Value} (alike : Value.Alike L v w) : Alike L (.value v) (.value w)
  | objects {new new' : NewObjects} {v w : Value} (objects : NewObjects.Alike L new new')
      (alike : Value.Alike L v w) : Alike L (.objects new v) (.objects new' w)
  | same (b : Blueprint) (plain : ∀ v, b ≠ .value v) (single : ∀ new v, b ≠ .objects new v) : Alike L b b

/-- Answers of functions of the host that are alike. -/
inductive AnswersAlike (L : Link) : Except String Blueprint → Except String Blueprint → Prop where
  | error (message : String) : AnswersAlike L (.error message) (.error message)
  | ok {b b' : Blueprint} (alike : Blueprint.Alike L b b') : AnswersAlike L (.ok b) (.ok b')

/-- Calls that were alike. -/
structure HostCall.Alike (L : Link) (call call' : HostCall) : Prop where
  function : call.function = call'.function
  arguments : RowsAlike 0 (Value.Alike L) call.arguments call'.arguments
  answer : Option.Rel (Value.Alike L) call.answer? call'.answer?
  methods : RowsAlike 0 (TablesAlike (Closure.Alike L)) call.methods call'.methods
  fields : RowsAlike 0 (TablesAlike (Value.Alike L)) call.fields call'.fields

/-- What functions of the host see is alike: all but the numbers of string objects. -/
structure Host.Alike (L : Link) (host host' : Host) : Prop where
  self : host.self = host'.self
  now : host.now = host'.now
  methods : RowsAlike 0 (TablesAlike (Closure.Alike L)) host.methods host'.methods
  fields : RowsAlike 0 (TablesAlike (Value.Alike L)) host.fields host'.fields
  past : RowsAlike 0 (HostCall.Alike L) host.past host'.past
  prototypes : ∀ k, L.prototypes (host.nextPrototype + k) (host'.nextPrototype + k)
  closures : ∀ k, L.closures (host.nextClosure + k) (host'.nextClosure + k)
  nextBound : host.nextBound = host'.nextBound
  nextNative : host.nextNative = host'.nextNative

/-- The function of the host makes no difference between what is alike. -/
def NativeBody.Indifferent (L : Link) (body : NativeBody) : Prop :=
  ∀ host host' args args', Host.Alike L host host' → RowsAlike 0 (Value.Alike L) args args' →
    AnswersAlike L (body host args) (body host' args')

/-! ## Machines -/

/-- Cells that are alike: they are open for the same place or have alike values. -/
inductive Cell.Alike (L : Link) : Cell → Cell → Prop where
  | opened {slot : Nat} (clear : L.clear ≤ slot) : Alike L (.opened slot) (.opened slot)
  | closed {v w : Value} (alike : Value.Alike L v w) : Alike L (.closed v) (.closed w)

lemma Cell.Alike.slot? {c d : Cell} (h : Cell.Alike L c d) : c.slot? = d.slot? := by
  cases h <;> rfl

/-- Calls that are alike. -/
inductive Frame.Alike (L : Link) : Frame → Frame → Prop where
  | call {c d : Closure} {ip base : Nat} (closure : Closure.Alike L c d) (clear : L.clear ≤ base) :
      Alike L ⟨c, ip, base⟩ ⟨d, ip, base⟩
  /-- The rest of the one script is the rest of the other. -/
  | script {c d : Closure} {ip base : Nat} (scripts : L.scripts c d) (captured : c.captured = d.captured) :
      Alike L ⟨c, ip, base⟩ ⟨d, ip + L.offset, base⟩

/-- What a machine has told so far, apart from records. -/
def Machine.told (m : Machine) : List Event :=
  m.journal.toList.filter fun e => e.output?.isSome || e.report?.isSome

/-- Machines that are alike. -/
structure Machine.Alike (L : Link) (m n : Machine) : Prop where
  stack : RowsAlike L.clear (Value.Alike L) m.stack n.stack
  frames : List.Forall₂ (Frame.Alike L) m.frames n.frames
  globals : TablesAlike (Value.Alike L) m.globals n.globals
  cells : RowsAlike 0 (Cell.Alike L) m.cells n.cells
  openCells : m.openCells = n.openCells
  methods : RowsAlike 0 (TablesAlike (Closure.Alike L)) m.methods n.methods
  fields : RowsAlike 0 (TablesAlike (Value.Alike L)) m.fields n.fields
  natives : m.natives = n.natives
  indifferent : ∀ body ∈ m.natives, NativeBody.Indifferent L body
  hostCalls : RowsAlike 0 (HostCall.Alike L) m.hostCalls n.hostCalls
  prototypes : ∀ k, L.prototypes (m.nextPrototype + k) (n.nextPrototype + k)
  closures : ∀ k, L.closures (m.nextClosure + k) (n.nextClosure + k)
  nextBound : m.nextBound = n.nextBound
  now : m.now = n.now
  told : m.told = n.told

end Lox
