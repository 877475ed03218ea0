import Lox.Proofs.Bytecode.Layout
import Mathlib.Data.List.Basic
import Mathlib.Data.List.Forall2

/-!
# Shapes

What is known, before any run, of the stack of a call: how many values there are, which of them are
classes or closures for sure, and which places a cell may refer to.  `Exec` tells what each
instruction needs of the shape before it and what shape it leaves, and `Valid` that a row of items
agrees with the shapes that are assigned to its offsets.

The machine treats most values alike, so almost nothing has to be known of them.  The exceptions are
the instructions for classes: they take for granted that a class or a closure is where the compiler
has put it.  The code of a class with a superclass reads the class back from a global, and relies on
nothing having happened in between, so a shape also remembers a global that holds a class.
-/

namespace Lox

/-! ## What is known of a value -/

/-- What is known of a value. -/
inductive Kind where
  | any
  | cls
  | closure
  deriving DecidableEq

/-- What is known of a place on the stack. -/
structure Slot where
  kind : Kind
  /-- May a cell refer to the place? -/
  shared : Bool
  deriving DecidableEq

/-- A place with any value, that no cell refers to. -/
def Slot.plain : Slot := ⟨.any, false⟩

/-- What is known of the stack of a call. -/
structure Shape where
  /-- The places, the topmost first. -/
  slots : List Slot
  /-- A global that holds a class. -/
  global : Option String

/-- The number of values. -/
def Shape.height (σ : Shape) : Nat := σ.slots.length

@[simp] lemma Shape.height_mk (slots : List Slot) (global : Option String) :
    Shape.height ⟨slots, global⟩ = slots.length := rfl

/-! ## Saying less -/

/-- What is said of a place by `s` implies what is said by `t`.  A value that a cell may refer to
keeps its kind. -/
structure Slot.Refines (s t : Slot) : Prop where
  kind : s.kind = t.kind ∨ t.kind = .any ∧ s.shared = false
  shared : s.shared = true → t.shared = true

lemma Slot.Refines.refl (s : Slot) : s.Refines s := ⟨.inl rfl, id⟩

lemma Slot.Refines.trans {s t u : Slot} (first : s.Refines t) (second : t.Refines u) :
    s.Refines u := by
  refine ⟨?_, fun shared => second.shared (first.shared shared)⟩
  rcases first.kind with same | ⟨any, unshared⟩
  · rcases second.kind with same' | ⟨any, unshared⟩
    · exact .inl (same.trans same')
    · refine .inr ⟨any, ?_⟩
      by_cases shared : s.shared = true
      · rw [first.shared shared] at unshared
        exact nomatch unshared
      · exact Bool.eq_false_iff.2 shared
  · refine .inr ⟨?_, unshared⟩
    rcases second.kind with same' | ⟨any', -⟩
    · exact same'.symm.trans any
    · exact any'

/-- Nothing less can be said of a place that no cell refers to. -/
lemma Slot.refines_plain (k : Kind) (shared : Bool) : Slot.Refines ⟨k, false⟩ ⟨.any, shared⟩ :=
  ⟨.inr ⟨rfl, rfl⟩, fun h => nomatch h⟩

/-- What is said of the stack by `σ` implies what is said by `τ`. -/
structure Shape.Refines (σ τ : Shape) : Prop where
  slots : List.Forall₂ Slot.Refines σ.slots τ.slots
  global : ∀ x, τ.global = some x → σ.global = some x

namespace Shape.Refines

lemma refl (σ : Shape) : σ.Refines σ :=
  ⟨List.forall₂_same.2 fun s _ => .refl s, fun _ known => known⟩

lemma trans {σ τ υ : Shape} (first : σ.Refines τ) (second : τ.Refines υ) : σ.Refines υ := by
  refine ⟨?_, fun x known => first.global x (second.global x known)⟩
  obtain ⟨slots, -⟩ := first
  obtain ⟨slots', -⟩ := second
  generalize σ.slots = ss, τ.slots = ts, υ.slots = us at slots slots' ⊢
  induction slots generalizing us with
  | nil => exact slots'
  | cons here _ ih =>
    cases slots' with
    | cons here' others => exact .cons (here.trans here') (ih _ others)

lemma height {σ τ : Shape} (h : σ.Refines τ) : σ.height = τ.height := h.slots.length_eq

/-- The global may be forgotten. -/
lemma forget (slots : List Slot) (global : Option String) :
    Shape.Refines ⟨slots, global⟩ ⟨slots, none⟩ :=
  ⟨List.forall₂_same.2 fun s _ => .refl s, fun _ known => nomatch known⟩

end Shape.Refines

/-! ## Places by number -/

/-- The entry with so many entries below it. -/
def fromBottom? {α : Type} (l : List α) (i : Nat) : Option α := l.reverse[i]?

lemma fromBottom?_cons {α : Type} (a : α) (l : List α) (i : Nat) :
    fromBottom? (a :: l) i = if i = l.length then some a else fromBottom? l i := by
  unfold fromBottom?
  rw [List.reverse_cons, List.getElem?_append, List.length_reverse]
  by_cases lower : i < l.length
  · rw [if_pos lower, if_neg (Nat.ne_of_lt lower)]
  · rw [if_neg lower]
    by_cases top : i = l.length
    · rw [if_pos top, top, Nat.sub_self]
      rfl
    · rw [if_neg top, List.getElem?_eq_none, List.getElem?_eq_none]
      · rw [List.length_reverse]
        omega
      · rw [List.length_singleton]
        omega

lemma fromBottom?_append_of_lt {α : Type} {l below : List α} {i : Nat} (lower : i < below.length) :
    fromBottom? (l ++ below) i = fromBottom? below i := by
  unfold fromBottom?
  rw [List.reverse_append, List.getElem?_append_left (by rw [List.length_reverse]; exact lower)]

lemma fromBottom?_append_add {α : Type} (l below : List α) (i : Nat) :
    fromBottom? (l ++ below) (below.length + i) = fromBottom? l i := by
  unfold fromBottom?
  rw [List.reverse_append,
    List.getElem?_append_right (by rw [List.length_reverse]; exact Nat.le_add_right _ _),
    List.length_reverse, Nat.add_sub_cancel_left]

lemma fromBottom?_map {α β : Type} (f : α → β) (l : List α) (i : Nat) :
    fromBottom? (l.map f) i = (fromBottom? l i).map f := by
  unfold fromBottom?
  rw [← List.map_reverse, List.getElem?_map]

lemma fromBottom?_lt {α : Type} {l : List α} {i : Nat} {a : α} (found : fromBottom? l i = some a) :
    i < l.length := by
  have bound := (List.getElem?_eq_some_iff.1 found).1
  rwa [List.length_reverse] at bound

lemma fromBottom?_of_lt {α : Type} {l : List α} {i : Nat} (lower : i < l.length) :
    ∃ a, fromBottom? l i = some a :=
  ⟨_, List.getElem?_eq_getElem (by rw [List.length_reverse]; exact lower)⟩

/-! ## Effects on the height -/

namespace Instr

/-- How many values at the top of the stack an instruction takes off or looks at. -/
def reach : Instr → Nat
  | .constant _ | .pushNil | .pushTrue | .pushFalse | .getLocal _ | .getGlobal _ | .getUpvalue _
  | .jump _ | .loop _ | .closure _ _ | .makeClass _ => 0
  | .pop | .setLocal _ | .defineGlobal _ | .setGlobal _ | .setUpvalue _ | .getProperty _ | .not
  | .negate | .print | .jumpIfFalse _ | .closeUpvalue | .ret => 1
  | .setProperty _ | .getSuper _ | .equal | .greater | .less | .add | .subtract | .multiply
  | .divide | .inherit | .method _ => 2
  | .call count | .invoke _ count => count.toNat + 1
  | .superInvoke _ count => count.toNat + 2

/-- How many values an instruction takes off the stack. -/
def pops : Instr → Nat
  | .constant _ | .pushNil | .pushTrue | .pushFalse | .getLocal _ | .setLocal _ | .getGlobal _
  | .setGlobal _ | .getUpvalue _ | .setUpvalue _ | .jump _ | .jumpIfFalse _ | .loop _ | .closure _ _
  | .makeClass _ => 0
  | .pop | .defineGlobal _ | .getProperty _ | .not | .negate | .print | .closeUpvalue | .ret
  | .inherit | .method _ => 1
  | .setProperty _ | .getSuper _ | .equal | .greater | .less | .add | .subtract | .multiply
  | .divide => 2
  | .call count | .invoke _ count => count.toNat + 1
  | .superInvoke _ count => count.toNat + 2

/-- How many values an instruction puts on the stack. -/
def pushes : Instr → Nat
  | .constant _ | .pushNil | .pushTrue | .pushFalse | .getLocal _ | .getGlobal _ | .getUpvalue _
  | .getProperty _ | .setProperty _ | .getSuper _ | .equal | .greater | .less | .add | .subtract
  | .multiply | .divide | .not | .negate | .call _ | .invoke _ _ | .superInvoke _ _ | .closure _ _
  | .makeClass _ => 1
  | .pop | .setLocal _ | .defineGlobal _ | .setGlobal _ | .setUpvalue _ | .print | .jump _
  | .jumpIfFalse _ | .loop _ | .closeUpvalue | .ret | .inherit | .method _ => 0

lemma pops_le_reach (i : Instr) : i.pops ≤ i.reach := by
  cases i <;> simp only [pops, reach] <;> omega

end Instr

/-! ## Single instructions -/

/-- What the operands of a function's instructions refer to. -/
structure Surroundings where
  pool : Array Constant
  captureCount : Nat
  /-- What is known of the captured variables. -/
  captured : Nat → Kind
  /-- A closure of the function may capture variables of these kinds. -/
  Closes : Prototype → (Nat → Kind) → Prop

/-- The constant at an index is a string of this content. -/
def Surroundings.IsName (T : Surroundings) (index : UInt8) (x : String) : Prop :=
  ∃ object : StringObject, T.pool[index.toNat]? = some (.string object) ∧ object.content = x

/-- A capture finds a variable of a kind: in a place that is shared, in the place the closure itself
will have, or among the captures of the running closure. -/
def Surroundings.Finds (T : Surroundings) (slots : List Slot) (capture : Capture) (k : Kind) :
    Prop :=
  if capture.isLocal then
    fromBottom? slots capture.index.toNat = some ⟨k, true⟩ ∨
      capture.index.toNat = slots.length ∧ k = .any
  else capture.index.toNat < T.captureCount ∧ T.captured capture.index.toNat = k

/-- The place of a new closure, which the closure may have captured itself. -/
def closureSlot (height : Nat) (captures : List Capture) : Slot :=
  if ∃ capture ∈ captures, capture.isLocal = true ∧ capture.index.toNat = height
  then ⟨.any, true⟩ else ⟨.closure, false⟩

/-- The instructions that push a value that nothing is known of. -/
inductive Instr.IsLiteral : Instr → Prop
  | pushNil : IsLiteral .pushNil
  | pushTrue : IsLiteral .pushTrue
  | pushFalse : IsLiteral .pushFalse

/-- The instructions that replace a value. -/
inductive Instr.IsUnary : Instr → Prop
  | not : IsUnary .not
  | negate : IsUnary .negate

/-- The instructions that replace two values by one. -/
inductive Instr.IsBinary : Instr → Prop
  | equal : IsBinary .equal
  | greater : IsBinary .greater
  | less : IsBinary .less
  | add : IsBinary .add
  | subtract : IsBinary .subtract
  | multiply : IsBinary .multiply
  | divide : IsBinary .divide

/-- No cell refers to these places. -/
def Unshared (slots : List Slot) : Prop := ∀ s ∈ slots, s.shared = false

/-- An instruction that the next one follows, with the shapes before and after it. -/
inductive Exec (T : Surroundings) : Instr → Shape → Shape → Prop where
  | constant {index c slots g} (entry : T.pool[index.toNat]? = some c)
      (plain : ∀ p, c ≠ .prototype p) :
      Exec T (.constant index) ⟨slots, g⟩ ⟨.plain :: slots, none⟩
  | literal {i slots g} (kind : i.IsLiteral) : Exec T i ⟨slots, g⟩ ⟨.plain :: slots, none⟩
  | pop {k slots g} : Exec T .pop ⟨⟨k, false⟩ :: slots, g⟩ ⟨slots, none⟩
  | getLocal {index s slots g} (found : fromBottom? slots index.toNat = some s) :
      Exec T (.getLocal index) ⟨slots, g⟩ ⟨⟨s.kind, false⟩ :: slots, g⟩
  | setLocal {index slots shared g} (nonempty : slots ≠ [])
      (found : fromBottom? slots index.toNat = some ⟨.any, shared⟩) :
      Exec T (.setLocal index) ⟨slots, g⟩ ⟨slots, none⟩
  | getGlobal {index x slots g} (constant : T.IsName index x) :
      Exec T (.getGlobal index) ⟨slots, g⟩
        ⟨⟨if g = some x then .cls else .any, false⟩ :: slots, g⟩
  | defineGlobal {index x k slots g} (constant : T.IsName index x) :
      Exec T (.defineGlobal index) ⟨⟨k, false⟩ :: slots, g⟩
        ⟨slots, if k = .cls then some x else none⟩
  | setGlobal {index x slots g} (nonempty : slots ≠ []) (constant : T.IsName index x) :
      Exec T (.setGlobal index) ⟨slots, g⟩ ⟨slots, none⟩
  | getUpvalue {index slots g} (bound : index.toNat < T.captureCount) :
      Exec T (.getUpvalue index) ⟨slots, g⟩ ⟨⟨T.captured index.toNat, false⟩ :: slots, g⟩
  | setUpvalue {index slots g} (nonempty : slots ≠ []) (bound : index.toNat < T.captureCount)
      (any : T.captured index.toNat = .any) :
      Exec T (.setUpvalue index) ⟨slots, g⟩ ⟨slots, none⟩
  | getProperty {index x k slots g} (constant : T.IsName index x) :
      Exec T (.getProperty index) ⟨⟨k, false⟩ :: slots, g⟩ ⟨.plain :: slots, none⟩
  | setProperty {index x k k' slots g} (constant : T.IsName index x) :
      Exec T (.setProperty index) ⟨⟨k, false⟩ :: ⟨k', false⟩ :: slots, g⟩ ⟨.plain :: slots, none⟩
  | getSuper {index x k slots g} (constant : T.IsName index x) :
      Exec T (.getSuper index) ⟨⟨.cls, false⟩ :: ⟨k, false⟩ :: slots, g⟩ ⟨.plain :: slots, none⟩
  | binary {i k k' slots g} (kind : i.IsBinary) :
      Exec T i ⟨⟨k, false⟩ :: ⟨k', false⟩ :: slots, g⟩ ⟨.plain :: slots, none⟩
  | unary {i k slots g} (kind : i.IsUnary) :
      Exec T i ⟨⟨k, false⟩ :: slots, g⟩ ⟨.plain :: slots, none⟩
  | print {k slots g} : Exec T .print ⟨⟨k, false⟩ :: slots, g⟩ ⟨slots, none⟩
  | call {count args slots g} (length : args.length = count.toNat + 1) (unshared : Unshared args) :
      Exec T (.call count) ⟨args ++ slots, g⟩ ⟨.plain :: slots, none⟩
  | invoke {index x count args slots g} (constant : T.IsName index x)
      (length : args.length = count.toNat + 1) (unshared : Unshared args) :
      Exec T (.invoke index count) ⟨args ++ slots, g⟩ ⟨.plain :: slots, none⟩
  | superInvoke {index x count args slots g} (constant : T.IsName index x)
      (length : args.length = count.toNat + 1) (unshared : Unshared args) :
      Exec T (.superInvoke index count) ⟨⟨.cls, false⟩ :: (args ++ slots), g⟩
        ⟨.plain :: slots, none⟩
  | closure {index captures p kinds slots g}
      (entry : T.pool[index.toNat]? = some (.prototype p)) (closes : T.Closes p kinds)
      (count : captures.length = p.captureCount) (distinct : captures.Nodup)
      (found : ∀ i (bound : i < captures.length), T.Finds slots captures[i] (kinds i)) :
      Exec T (.closure index captures) ⟨slots, g⟩
        ⟨closureSlot slots.length captures :: slots, none⟩
  | closeUpvalue {s slots g} : Exec T .closeUpvalue ⟨s :: slots, g⟩ ⟨slots, none⟩
  | makeClass {index x slots g} (constant : T.IsName index x) :
      Exec T (.makeClass index) ⟨slots, g⟩ ⟨⟨.cls, false⟩ :: slots, none⟩
  | inherit {slots g} :
      Exec T .inherit ⟨⟨.cls, false⟩ :: ⟨.any, false⟩ :: slots, g⟩ ⟨⟨.cls, false⟩ :: slots, g⟩
  | method {index x slots g} (constant : T.IsName index x) :
      Exec T (.method index) ⟨⟨.closure, false⟩ :: ⟨.cls, false⟩ :: slots, g⟩
        ⟨⟨.cls, false⟩ :: slots, none⟩

/-- The height changes by what the instruction takes off and puts on. -/
lemma Exec.height {T : Surroundings} {i : Instr} {σ τ : Shape} (h : Exec T i σ τ) :
    i.reach ≤ σ.height ∧ τ.height = σ.height - i.pops + i.pushes := by
  cases h with
  | literal kind | unary kind | binary kind =>
    cases kind <;> simp [Instr.reach, Instr.pops, Instr.pushes]
  | setLocal nonempty | setGlobal nonempty | setUpvalue nonempty =>
    have pos := List.length_pos_iff.2 nonempty
    exact ⟨pos, rfl⟩
  | call length | invoke _ length | superInvoke _ length =>
    simp only [Instr.reach, Instr.pops, Instr.pushes, Shape.height_mk, List.length_cons,
      List.length_append, length]
    omega
  | _ => simp [Instr.reach, Instr.pops, Instr.pushes]

/-! ## Code -/

/-- The shape at each offset that has one. -/
abbrev Shapes : Type := Nat → Option Shape

/-- An offset may be reached with a stack of this shape. -/
def Goes (E : Shapes) (o : Nat) (σ : Shape) : Prop := ∃ τ, E o = some τ ∧ σ.Refines τ

lemma Goes.refine {E : Shapes} {o : Nat} {σ τ : Shape} (goes : Goes E o τ) (h : σ.Refines τ) :
    Goes E o σ := by
  obtain ⟨υ, there, refines⟩ := goes
  exact ⟨υ, there, h.trans refines⟩

/-- Where an instruction leads, its stack may go.  No cell refers to the place of a value that is
returned. -/
def Flows (T : Surroundings) (E : Shapes) (next : Nat) (σ : Shape) : Instr → Prop
  | .jump distance => Goes E (next + distance.toNat) σ
  | .jumpIfFalse distance => σ.slots ≠ [] ∧ Goes E (next + distance.toNat) σ ∧ Goes E next σ
  | .loop distance => distance.toNat ≤ next ∧ Goes E (next - distance.toNat) σ
  | .ret => ∃ k slots, σ.slots = ⟨k, false⟩ :: slots
  | i => ∃ τ, Exec T i σ τ ∧ Goes E next τ

/-- The stack is high enough for the instruction. -/
lemma Flows.reach {T : Surroundings} {E : Shapes} {next : Nat} {σ : Shape} {i : Instr}
    (flows : Flows T E next σ i) : i.reach ≤ σ.height := by
  cases i with
  | jump | loop => exact Nat.zero_le _
  | jumpIfFalse => exact List.length_pos_iff.2 flows.1
  | ret =>
    obtain ⟨k, slots, shape⟩ := flows
    rw [Shape.height, shape]
    exact Nat.succ_pos _
  | _ =>
    obtain ⟨τ, execs, -⟩ := flows
    exact execs.height.1

/-- An instruction leaves the variables in scope alone.  Only that for a superclass looks at one,
the innermost one, where the superclass is. -/
def Spares (scope : List String) (height : Nat) (i : Instr) : Prop :=
  scope.length + i.reach ≤ height ∨
    i = .inherit ∧ height = scope.length + 1 ∧ scope.head? = some "super"

/-- Items agree with the shapes: every instruction has one and flows on to others, and between
statements there are the variables in scope and nothing else. -/
def Valid (T : Surroundings) (E : Shapes) : Nat → List Item → Prop
  | _, [] => True
  | o, .boundary scope :: items =>
    (∀ σ, E o = some σ → σ.height = scope.length) ∧ Valid T E o items
  | o, .instr i scope :: items =>
    (∃ σ, E o = some σ ∧ Spares scope σ.height i ∧ Flows T E (o + i.size) σ i) ∧
      Valid T E (o + i.size) items

lemma valid_append {T : Surroundings} {E : Shapes} (items items' : List Item) (o : Nat) :
    Valid T E o (items ++ items') ↔ Valid T E o items ∧ Valid T E (o + itemsSize items) items' := by
  induction items generalizing o with
  | nil => exact (iff_of_eq (true_and _)).symm
  | cons item items ih =>
    cases item with
    | boundary scope =>
      rw [itemsSize, instrs_boundary]
      simp only [List.cons_append, Valid, ih, and_assoc]
    | instr i scope =>
      rw [itemsSize, instrs_instr, codeSize_cons, ← Nat.add_assoc]
      simp only [List.cons_append, Valid, ih, and_assoc]

/-- An instruction among those of a row starts at the offset. -/
def Starts (o : Nat) (is : List Instr) (p : Nat) : Prop :=
  ∃ before i after, is = before ++ i :: after ∧ p = o + codeSize before

lemma Starts.bounds {o p : Nat} {is : List Instr} (h : Starts o is p) :
    o ≤ p ∧ p < o + codeSize is := by
  obtain ⟨before, i, after, rfl, rfl⟩ := h
  have pos := i.size_pos
  simp only [codeSize_append, codeSize_cons]
  omega

lemma Starts.append_left {o p : Nat} {is : List Instr} (h : Starts o is p) (js : List Instr) :
    Starts o (is ++ js) p := by
  obtain ⟨before, i, after, rfl, rfl⟩ := h
  exact ⟨before, i, after ++ js, by rw [List.append_assoc]; rfl, rfl⟩

lemma Starts.append_right {o p : Nat} {js : List Instr} (is : List Instr)
    (h : Starts (o + codeSize is) js p) : Starts o (is ++ js) p := by
  obtain ⟨before, i, after, rfl, rfl⟩ := h
  refine ⟨is ++ before, i, after, (List.append_assoc _ _ _).symm, ?_⟩
  rw [codeSize_append, Nat.add_assoc]

/-- What is known of the instruction at an offset. -/
lemma Valid.instr {T : Surroundings} {E : Shapes} {items : List Item} {o : Nat}
    (h : Valid T E o items) {before after : List Instr} {i : Instr}
    (split : instrs items = before ++ i :: after) :
    ∃ σ scope, E (o + codeSize before) = some σ ∧ Spares scope σ.height i ∧
      Flows T E (o + codeSize before + i.size) σ i := by
  induction items generalizing o before with
  | nil => exact absurd split (List.append_ne_nil_of_right_ne_nil _ (List.cons_ne_nil _ _)).symm
  | cons item items ih =>
    cases item with
    | boundary scope => exact ih h.2 split
    | instr j scope =>
      rw [instrs_instr] at split
      cases before with
      | nil =>
        obtain ⟨rfl, -⟩ := List.cons.inj split
        obtain ⟨σ, there, spares, flows⟩ := h.1
        exact ⟨σ, scope, there, spares, flows⟩
      | cons j' before =>
        obtain ⟨rfl, others⟩ := List.cons.inj split
        rw [codeSize_cons, ← Nat.add_assoc]
        exact ih h.2 others

/-- What is known of a boundary. -/
lemma Valid.boundary {T : Surroundings} {E : Shapes} {o : Nat} {before after : List Item}
    {scope : List String} {σ : Shape} (h : Valid T E o (before ++ .boundary scope :: after))
    (there : E (o + itemsSize before) = some σ) : σ.height = scope.length :=
  ((valid_append _ _ _).1 h).2.1 σ there

end Lox
