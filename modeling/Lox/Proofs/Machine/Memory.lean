import Lox.Proofs.Machine.Evolution
import Lox.Proofs.Machine.Hosting

/-!
# What is known of the memory

What the values of a machine refer to exists, and the values on the stack and in cells are of the kinds
that the compiler counts on (`Memory`).  A `Census` says what there is: so many classes, instances and
functions of the host, and for each cell what is known of the variable in it.  It only grows, and what
is well-founded stays so (`Value.Sound.grow`).

A function of the host may make closures that have no code.  They can be passed around, but a call of
one runs off its code.  Whether there are any is a parameter.
-/

namespace Lox

open Compile

/-! ## Values -/

/-- The objects that there are. -/
structure Census where
  classes : Nat
  instances : Nat
  natives : Nat
  /-- What is known of the variable in each cell. -/
  cells : List Kind

/-- Objects stay, and so does what is known of them. -/
structure Census.Grows (c c' : Census) : Prop where
  classes : c.classes ≤ c'.classes
  instances : c.instances ≤ c'.instances
  natives : c.natives ≤ c'.natives
  cells : c.cells <+: c'.cells

namespace Census.Grows

variable {c c' c'' : Census}

lemma refl (c : Census) : c.Grows c :=
  ⟨Nat.le_refl _, Nat.le_refl _, Nat.le_refl _, List.prefix_refl _⟩

lemma trans (first : c.Grows c') (second : c'.Grows c'') : c.Grows c'' :=
  ⟨Nat.le_trans first.classes second.classes, Nat.le_trans first.instances second.instances,
    Nat.le_trans first.natives second.natives, first.cells.trans second.cells⟩

lemma cell (grows : c.Grows c') {i : Nat} {k : Kind} (known : c.cells[i]? = some k) :
    c'.cells[i]? = some k := by
  obtain ⟨further, cells⟩ := grows.cells
  rw [← cells, List.getElem?_append_left (List.getElem?_eq_some_iff.1 known).1]
  exact known

end Census.Grows

/-- A value is of a kind. -/
def Kind.Holds : Kind → Value → Prop
  | .any, _ => True
  | .cls, v => ∃ r, v = .cls r
  | .closure, v => ∃ w, v = .closure w

/-- There are so many captured cells, with variables of these kinds. -/
structure Census.Captures (c : Census) (captured : Array Nat) (count : Nat) (kinds : Nat → Kind) :
    Prop where
  size : captured.size = count
  cells : ∀ i cell, captured[i]? = some cell → c.cells[cell]? = some (kinds i)

lemma Census.Captures.grow {c c' : Census} {captured : Array Nat} {count : Nat} {kinds : Nat → Kind}
    (h : c.Captures captured count kinds) (grows : c.Grows c') : c'.Captures captured count kinds :=
  ⟨h.size, fun i cell there => grows.cell (h.cells i cell there)⟩

/-- The closure has captured what its code expects, or else it has no code. -/
def Closure.Sound (bare : Prop) (c : Census) (w : Closure) : Prop :=
  (∃ kinds, ClosedOver w.prototype kinds ∧
      c.Captures w.captured w.prototype.captureCount kinds) ∨
    bare ∧ w.Bare

/-- All that a value refers to exists. -/
def Value.Sound (bare : Prop) (c : Census) : Value → Prop
  | .closure w => w.Sound bare c
  | .cls r => r.serial < c.classes
  | .inst serial r => serial < c.instances ∧ r.serial < c.classes
  | .native f => f.serial < c.natives
  | .bound _ receiver w => receiver.Sound bare c ∧ w.Sound bare c
  | _ => True

section Growth

variable {bare : Prop} {c c' : Census}

lemma Closure.Sound.grow {w : Closure} (h : w.Sound bare c) (grows : c.Grows c') :
    w.Sound bare c' := by
  rcases h with ⟨kinds, closes, captures⟩ | none
  · exact Or.inl ⟨kinds, closes, captures.grow grows⟩
  · exact Or.inr none

lemma Value.Sound.grow {v : Value} (h : v.Sound bare c) (grows : c.Grows c') :
    v.Sound bare c' := by
  induction v with
  | closure w => exact Closure.Sound.grow h grows
  | cls r => exact Nat.lt_of_lt_of_le h grows.classes
  | inst serial r =>
    exact ⟨Nat.lt_of_lt_of_le h.1 grows.instances, Nat.lt_of_lt_of_le h.2 grows.classes⟩
  | native f => exact Nat.lt_of_lt_of_le h grows.natives
  | bound serial receiver w ih => exact ⟨ih h.1, Closure.Sound.grow h.2 grows⟩
  | nil | bool | number | string | prototype => trivial

/-- A copy of a closure is as sound as that. -/
lemma Closure.Sound.copy {w w' : Closure} (h : w.Sound bare c) (prototype : w'.prototype = w.prototype)
    (captured : w'.captured = w.captured) : w'.Sound bare c := by
  rcases h with ⟨kinds, closes, captures⟩ | ⟨bare, none⟩
  · exact .inl ⟨kinds, prototype ▸ closes, by rw [prototype, captured]; exact captures⟩
  · exact .inr ⟨bare, none.copy prototype captured⟩

/-- A closure has as many captures as its function says, and they are cells. -/
lemma Closure.Sound.captures {w : Closure} (h : w.Sound bare c) :
    w.captured.size = w.prototype.captureCount ∧ ∀ cell ∈ w.captured, cell < c.cells.length := by
  rcases h with ⟨kinds, -, captures⟩ | ⟨-, none⟩
  · refine ⟨captures.size, fun cell there => ?_⟩
    obtain ⟨i, here⟩ := Array.getElem?_of_mem there
    exact (List.getElem?_eq_some_iff.1 (captures.cells i cell here)).1
  · rw [none.captured, none.captureCount]
    exact ⟨rfl, fun cell there => nomatch there⟩

end Growth

/-! ## Functions of the host -/

section Hosts

variable {bare : Prop} {c : Census}

/-- A closure of a function that may be made into one is sound. -/
lemma closure_sound {p : Prototype} (may : p.Standalone ∨ bare ∧ p.Bare) (serial : Nat) :
    Closure.Sound bare c ⟨serial, p, #[]⟩ := by
  rcases may with ⟨accepted, captureCount⟩ | ⟨bare, none⟩
  · obtain ⟨Γ, start, items, compiled⟩ := accepted.compiled
    exact .inl ⟨Γ.captured, ⟨Γ, start, items, compiled, rfl⟩, captureCount.symm, fun _ _ there => nomatch there⟩
  · exact .inr ⟨bare, rfl, none.captureCount, none.chunk⟩

/-- What consists of what is sound and of objects that there are is sound. -/
lemma Value.From.sound {host : Host} {given : Array Value} {new : NewObjects} {v : Value} (h : v.From host given new)
    (sees : ∀ v, host.Sees given v → v.Sound bare c)
    (closures : ∀ {i : Nat} {p captured}, new.closures[i]? = some (p, captured) → ∀ serial,
      Closure.Sound bare c ⟨serial, p, captured⟩)
    (classes : host.methods.size + new.methods.size ≤ c.classes)
    (instances : host.fields.size + new.fields.size ≤ c.instances)
    (natives : host.nextNative + new.natives.size ≤ c.natives) : v.Sound bare c := by
  have less : ∀ {first count total i : Nat}, i < count → first + count ≤ total → first + i < total := by omega
  induction h with
  | nil | bool | number | string | prototype => trivial
  | seen there => exact sees _ there
  | cls _ ih => exact ih.2
  | receiver _ ih => exact ih.1
  | method _ ih => exact ih.2
  | bound _ _ _ ih ih' => exact ⟨ih, ih'⟩
  | newClosure made => exact closures made _
  | newClass made => exact less made classes
  | newInstance made _ ih => exact ⟨less made instances, ih⟩
  | newNative made => exact less made natives

end Hosts

/-! ## Memory -/

namespace Machine

/-- What belongs to objects, globals and functions of the host is in order. -/
structure Objects (bare : Prop) (c : Census) (methods : Array (Table Closure))
    (fields : Array (Table Value)) (globals : Table Value) (natives : Array NativeBody) (past : Array HostCall) :
    Prop where
  classes : c.classes = methods.size
  instances : c.instances = fields.size
  bodies : c.natives = natives.size
  methods : ∀ t ∈ methods, ∀ x w, t.find? x = some w → w.Sound bare c
  fields : ∀ t ∈ fields, ∀ x v, t.find? x = some v → v.Sound bare c
  globals : ∀ x v, globals.find? x = some v → v.Sound bare c
  fair : ∀ body ∈ natives, NativeBody.Fair bare body
  past : ∀ call ∈ past, ∀ v, call.Shows v → v.Sound bare c

/-- Cells refer to places that may be referred to, or else have values, of the kinds that are known. -/
structure CellsFit (bare : Prop) (c : Census) (S : List Slot) (cells : Array Cell) : Prop where
  size : c.cells.length = cells.size
  opened : ∀ {i slot : Nat} {k}, cells[i]? = some (.opened slot) → c.cells[i]? = some k →
    fromBottom? S slot = some ⟨k, true⟩
  closed : ∀ {i : Nat} {v k}, cells[i]? = some (.closed v) → c.cells[i]? = some k →
    k.Holds v ∧ v.Sound bare c

/-- The values on the stack are of the kinds that are known. -/
structure StackFits (bare : Prop) (c : Census) (S : List Slot) (stack : Array Value) : Prop where
  size : S.length = stack.size
  values : ∀ {slot : Nat} {s v}, fromBottom? S slot = some s → stack[slot]? = some v →
    s.kind.Holds v ∧ v.Sound bare c

/-- The memory of a machine is in order, with these places on the stack. -/
structure Memory (bare : Prop) (c : Census) (S : List Slot) (m : Machine) : Prop where
  objects : Objects bare c m.methods m.fields m.globals m.natives m.hostCalls
  cells : CellsFit bare c S m.cells
  stack : StackFits bare c S m.stack

variable {bare : Prop} {c c' : Census} {S S' : List Slot} {s : Slot} {m : Machine} {v : Value}
  {stack : Array Value} {cells : Array Cell}

/-! ### Places -/

lemma fromBottom?_eq_getElem? (l : List Slot) {d : Nat} (bound : d < l.length) :
    fromBottom? l (l.length - 1 - d) = l[d]? := by
  rw [fromBottom?, List.getElem?_reverse (by omega)]
  congr 1
  omega

/-- Less is known of a place if less is known of the stack. -/
lemma fromBottom?_refines (refines : List.Forall₂ Slot.Refines S S') {slot : Nat} {s' : Slot}
    (there : fromBottom? S' slot = some s') :
    ∃ s, fromBottom? S slot = some s ∧ s.Refines s' := by
  have bound := fromBottom?_lt there
  rw [← refines.length_eq] at bound
  obtain ⟨s, here⟩ := fromBottom?_of_lt bound
  refine ⟨s, here, ?_⟩
  have reversed := List.rel_reverse refines
  obtain ⟨i, rfl⟩ := List.getElem?_eq_some_iff.1 here
  obtain ⟨i', rfl⟩ := List.getElem?_eq_some_iff.1 there
  exact reversed.get i i'

/-! ### The stack -/

namespace StackFits

lemma grow (h : StackFits bare c S stack) (grows : c.Grows c') : StackFits bare c' S stack := by
  refine ⟨h.size, fun there value => ?_⟩
  obtain ⟨holds, sound⟩ := h.values there value
  exact ⟨holds, sound.grow grows⟩

lemma empty (bare : Prop) (c : Census) : StackFits bare c [] #[] :=
  ⟨rfl, fun there => nomatch there⟩

lemma refine (h : StackFits bare c S stack) (refines : List.Forall₂ Slot.Refines S S') :
    StackFits bare c S' stack := by
  refine ⟨refines.length_eq.symm.trans h.size, fun there value => ?_⟩
  obtain ⟨s, here, less⟩ := fromBottom?_refines refines there
  obtain ⟨holds, sound⟩ := h.values here value
  rcases less.kind with same | ⟨any, -⟩
  · exact ⟨same ▸ holds, sound⟩
  · exact ⟨any ▸ trivial, sound⟩

/-- The value at a place. -/
lemma at_place (h : StackFits bare c S stack) {slot : Nat} (there : fromBottom? S slot = some s) :
    ∃ v, stack[slot]? = some v ∧ s.kind.Holds v ∧ v.Sound bare c := by
  have bound : slot < stack.size := Nat.lt_of_lt_of_eq (fromBottom?_lt there) h.size
  have value := Array.getElem?_eq_getElem bound
  exact ⟨_, value, h.values there value⟩

/-- Whatever is on the stack is sound. -/
lemma sound (h : StackFits bare c S stack) (there : v ∈ stack) : v.Sound bare c := by
  obtain ⟨slot, value⟩ := Array.getElem?_of_mem there
  have bound := (Array.getElem?_eq_some_iff.1 value).1
  rw [← h.size] at bound
  obtain ⟨s, known⟩ := fromBottom?_of_lt bound
  exact (h.values known value).2

/-- The value that has so many values above it. -/
lemma at_distance (h : StackFits bare c S stack) {d : Nat} (there : S[d]? = some s) :
    d < stack.size ∧ ∃ v, stack[stack.size - 1 - d]? = some v ∧ s.kind.Holds v ∧
      v.Sound bare c := by
  have bound := (List.getElem?_eq_some_iff.1 there).1
  rw [← fromBottom?_eq_getElem? S bound] at there
  rw [← h.size]
  exact ⟨bound, h.at_place there⟩

lemma push (h : StackFits bare c S stack) (holds : s.kind.Holds v) (sound : v.Sound bare c) :
    StackFits bare c (s :: S) (stack.push v) := by
  refine ⟨by rw [List.length_cons, h.size, Array.size_push], fun {slot t w} there value => ?_⟩
  rw [fromBottom?_cons, h.size] at there
  rw [Array.getElem?_push] at value
  by_cases top : slot = stack.size
  · rw [if_pos top] at there value
    rw [← Option.some.inj there, ← Option.some.inj value]
    exact ⟨holds, sound⟩
  · rw [if_neg top] at there value
    exact h.values there value

/-- Values above a place are dropped. -/
lemma cut {above : List Slot} (h : StackFits bare c (above ++ S) stack) :
    StackFits bare c S (stack.shrink S.length) := by
  have size := h.size
  rw [List.length_append] at size
  refine ⟨by rw [Array.size_shrink]; omega, fun {slot s v} there value => ?_⟩
  obtain ⟨bound, rfl⟩ := Array.getElem?_eq_some_iff.1 value
  refine h.values ((fromBottom?_append_of_lt (fromBottom?_lt there)).trans there) ?_
  rw [Array.getElem_shrink]
  exact Array.getElem?_eq_getElem _

lemma pop (h : StackFits bare c (s :: S) stack) : StackFits bare c S stack.pop := by
  have size := h.size
  rw [List.length_cons] at size
  refine ⟨by rw [Array.size_pop]; omega, fun {slot t v} there value => ?_⟩
  have lower := fromBottom?_lt there
  rw [Array.getElem?_pop, if_pos (by omega)] at value
  refine h.values ?_ value
  rw [fromBottom?_cons, if_neg (Nat.ne_of_lt lower), there]

/-- The topmost value. -/
lemma top (h : StackFits bare c (s :: S) stack) :
    ∃ v, stack.back? = some v ∧ s.kind.Holds v ∧ v.Sound bare c := by
  obtain ⟨-, v, value, known⟩ := h.at_distance (d := 0) rfl
  exact ⟨v, value, known⟩

/-- A place that nothing is known of takes any value. -/
lemma write (h : StackFits bare c S stack) {slot : Nat} {shared : Bool}
    (there : fromBottom? S slot = some ⟨.any, shared⟩) (sound : v.Sound bare c) :
    StackFits bare c S (stack.setIfInBounds slot v) := by
  refine ⟨by rw [h.size, Array.size_setIfInBounds], fun {slot' s w} there' value => ?_⟩
  by_cases same : slot = slot'
  · subst same
    have bound : slot < stack.size := Nat.lt_of_lt_of_eq (fromBottom?_lt there) h.size
    rw [Array.getElem?_setIfInBounds_self_of_lt bound] at value
    rw [there] at there'
    rw [← Option.some.inj there', ← Option.some.inj value]
    exact ⟨trivial, sound⟩
  · rw [Array.getElem?_setIfInBounds_ne same] at value
    exact h.values there' value

end StackFits

/-! ### Cells -/

namespace CellsFit

lemma grow (h : CellsFit bare c S cells) (grows : c.Grows c') (same : c'.cells = c.cells) :
    CellsFit bare c' S cells := by
  refine ⟨by rw [same, h.size], fun opened known => ?_, fun closed known => ?_⟩
  · rw [same] at known
    exact h.opened opened known
  · rw [same] at known
    obtain ⟨holds, sound⟩ := h.closed closed known
    exact ⟨holds, sound.grow grows⟩

/-- The kind of the variable in a cell. -/
lemma kind (h : CellsFit bare c S cells) {i : Nat} {cell : Cell} (there : cells[i]? = some cell) :
    ∃ k, c.cells[i]? = some k := by
  have bound := (Array.getElem?_eq_some_iff.1 there).1
  rw [← h.size] at bound
  exact ⟨_, List.getElem?_eq_getElem bound⟩

lemma refine (h : CellsFit bare c S cells) (refines : List.Forall₂ Slot.Refines S S') :
    CellsFit bare c S' cells := by
  refine ⟨h.size, fun {i slot k} opened known => ?_, h.closed⟩
  have before := h.opened opened known
  obtain ⟨s', there⟩ := fromBottom?_of_lt (Nat.lt_of_lt_of_eq (fromBottom?_lt before) refines.length_eq)
  obtain ⟨s, here, less⟩ := fromBottom?_refines refines there
  obtain rfl := Option.some.inj (before.symm.trans here)
  rw [there]
  obtain ⟨k', shared⟩ := s'
  have shared_ : shared = true := less.shared rfl
  rcases less.kind with same | ⟨-, unshared⟩
  · obtain rfl : k = k' := same
    rw [shared_]
  · exact nomatch unshared

/-- A place more on the stack. -/
lemma push (h : CellsFit bare c S cells) (s : Slot) : CellsFit bare c (s :: S) cells := by
  refine ⟨h.size, fun opened known => ?_, h.closed⟩
  have there := h.opened opened known
  rwa [fromBottom?_cons, if_neg (Nat.ne_of_lt (fromBottom?_lt there))]

/-- Places that no cell refers to may go. -/
lemma drop {above : List Slot} (h : CellsFit bare c (above ++ S) cells)
    (below : ∀ {i slot : Nat}, cells[i]? = some (.opened slot) → slot < S.length) :
    CellsFit bare c S cells := by
  refine ⟨h.size, fun opened known => ?_, h.closed⟩
  have there := h.opened opened known
  rwa [fromBottom?_append_of_lt (below opened)] at there

lemma pop (h : CellsFit bare c (s :: S) cells) (unshared : s.shared = false) :
    CellsFit bare c S cells := by
  refine @drop _ _ _ _ [s] h fun {i slot} opened => ?_
  obtain ⟨k, known⟩ := h.kind opened
  have there := h.opened opened known
  have bound := fromBottom?_lt there
  rw [List.length_cons] at bound
  rw [fromBottom?_cons] at there
  by_cases top : slot = S.length
  · rw [if_pos top] at there
    rw [Option.some.inj there] at unshared
    exact nomatch unshared
  · omega

/-- A closed cell of any kind takes any value. -/
lemma reclose (h : CellsFit bare c S cells) {i : Nat} {w : Value}
    (closed : cells[i]? = some (.closed w)) (any : c.cells[i]? = some .any)
    (sound : v.Sound bare c) : CellsFit bare c S (cells.setIfInBounds i (.closed v)) := by
  have bound := (Array.getElem?_eq_some_iff.1 closed).1
  refine ⟨by rw [h.size, Array.size_setIfInBounds], fun {j slot k} opened known => ?_,
    fun {j u k} closed' known => ?_⟩
  · by_cases same : i = j
    · subst same
      rw [Array.getElem?_setIfInBounds_self_of_lt bound] at opened
      exact nomatch opened
    · rw [Array.getElem?_setIfInBounds_ne same] at opened
      exact h.opened opened known
  · by_cases same : i = j
    · subst same
      rw [Array.getElem?_setIfInBounds_self_of_lt bound] at closed'
      rw [any] at known
      rw [← Option.some.inj known, ← Cell.closed.inj (Option.some.inj closed')]
      exact ⟨trivial, sound⟩
    · rw [Array.getElem?_setIfInBounds_ne same] at closed'
      exact h.closed closed' known

/-- A new cell for a place that may be referred to. -/
lemma capture (h : CellsFit bare c S cells) {slot : Nat} {k : Kind}
    (there : fromBottom? S slot = some ⟨k, true⟩) :
    CellsFit bare { c with cells := c.cells ++ [k] } S (cells.push (.opened slot)) := by
  have grows : c.Grows { c with cells := c.cells ++ [k] } :=
    ⟨Nat.le_refl _, Nat.le_refl _, Nat.le_refl _, List.prefix_append _ _⟩
  have old : ∀ {i k'}, (c.cells ++ [k])[i]? = some k' → i ≠ cells.size → c.cells[i]? = some k' := by
    intro i k' known other
    have bound := (List.getElem?_eq_some_iff.1 known).1
    rw [List.length_append, List.length_singleton, h.size] at bound
    rwa [List.getElem?_append_left (by rw [h.size]; omega)] at known
  refine ⟨by rw [List.length_append, h.size, Array.size_push]; rfl, fun {i s k'} opened known => ?_,
    fun {i u k'} closed known => ?_⟩
  · rw [Array.getElem?_push] at opened
    by_cases new : i = cells.size
    · rw [if_pos new] at opened
      rw [new, ← h.size, List.getElem?_concat_length] at known
      rw [← Cell.opened.inj (Option.some.inj opened), ← Option.some.inj known]
      exact there
    · rw [if_neg new] at opened
      exact h.opened opened (old known new)
  · rw [Array.getElem?_push] at closed
    by_cases new : i = cells.size
    · rw [if_pos new] at closed
      exact nomatch closed
    · rw [if_neg new] at closed
      obtain ⟨holds, sound⟩ := h.closed closed (old known new)
      exact ⟨holds, sound.grow grows⟩

/-- Cells of places that end are closed with the values there, and the others go on. -/
lemma close {above : List Slot} {m : Machine} (h : CellsFit bare c (above ++ S) m.cells)
    (values : StackFits bare c (above ++ S) m.stack) (ordered : m.Ordered) :
    ∃ closing openCells, m.partCells S.length m.openCells = some (closing, openCells) ∧
      CellsFit bare c S (closeAll closing m.cells) := by
  have onStack : ∀ {i slot : Nat}, m.slotOf i = some slot → ∃ k v, c.cells[i]? = some k ∧
      m.stack[slot]? = some v ∧ k.Holds v ∧ v.Sound bare c := by
    intro i slot place
    have opened := slotOf_eq_some.1 place
    obtain ⟨k, known⟩ := h.kind opened
    obtain ⟨v, value, holds, sound⟩ := values.at_place (h.opened opened known)
    exact ⟨k, v, known, value, holds, sound⟩
  obtain ⟨⟨closing, openCells⟩, parts⟩ := @partCells_some m S.length m.openCells
    fun i _ slot place => by
      obtain ⟨k, v, -, value, -⟩ := onStack place
      exact (Array.getElem?_eq_some_iff.1 value).1
  obtain ⟨-, closes, -⟩ := partCells_spec parts
  obtain ⟨-, below⟩ := @close_ordered m m { m with openCells, cells := closeAll closing m.cells }
    ordered S.length closing rfl parts rfl
  refine ⟨closing, openCells, parts, ?_⟩
  have all : CellsFit bare c (above ++ S) (closeAll closing m.cells) := by
    refine ⟨by rw [h.size, size_closeAll], fun {i slot k} opened known => ?_,
      fun {i v k} closed known => ?_⟩
    · by_cases there : i ∈ closing.map Prod.fst
      · have bound := (Array.getElem?_eq_some_iff.1 opened).1
        rw [size_closeAll] at bound
        obtain ⟨v, -, closed⟩ := closeAll_closes there bound
        exact nomatch opened.symm.trans closed
      · rw [closeAll_other there] at opened
        exact h.opened opened known
    · by_cases there : i ∈ closing.map Prod.fst
      · have bound := (Array.getElem?_eq_some_iff.1 closed).1
        rw [size_closeAll] at bound
        obtain ⟨w, among, closed'⟩ := closeAll_closes there bound
        obtain rfl := Cell.closed.inj (Option.some.inj (closed.symm.trans closed'))
        obtain ⟨slot, place, -, value⟩ := closes i v among
        obtain ⟨k', w, known', value', holds, sound⟩ := onStack place
        obtain rfl := Option.some.inj (known.symm.trans known')
        obtain rfl := Option.some.inj (value.symm.trans value')
        exact ⟨holds, sound⟩
      · rw [closeAll_other there] at closed
        exact h.closed closed known
  exact all.drop fun {i slot} opened => below i slot (slotOf_eq_some.2 opened)

end CellsFit

/-! ### Objects -/

section Objects

variable {methods methods' : Array (Table Closure)} {fields fields' : Array (Table Value)}
  {globals : Table Value} {natives natives' : Array NativeBody} {past : Array HostCall}

/-- The objects with new ones. -/
lemma Objects.extend (h : Objects bare c methods fields globals natives past) (grows : c.Grows c')
    (classes : c'.classes = methods'.size) (instances : c'.instances = fields'.size)
    (bodies : c'.natives = natives'.size)
    (newMethods : ∀ t ∈ methods', t ∈ methods ∨ ∀ x w, t.find? x = some w → w.Sound bare c')
    (newFields : ∀ t ∈ fields', t ∈ fields ∨ ∀ x v, t.find? x = some v → v.Sound bare c')
    (fair : ∀ body ∈ natives', body ∈ natives ∨ NativeBody.Fair bare body) :
    Objects bare c' methods' fields' globals natives' past := by
  refine ⟨classes, instances, bodies, fun t there x w found => ?_, fun t there x v found => ?_,
    fun x v found => (h.globals x v found).grow grows, fun body there => ?_,
    fun call there v shown => (h.past call there v shown).grow grows⟩
  · rcases newMethods t there with old | new
    · exact (h.methods t old x w found).grow grows
    · exact new x w found
  · rcases newFields t there with old | new
    · exact (h.fields t old x v found).grow grows
    · exact new x v found
  · exact (fair body there).elim (h.fair body) id

lemma sound_empty {α : Type} {P : α → Prop} (x : String) (v : α) (found : Table.find? .empty x = some v) : P v :=
  nomatch (Table.find?_empty x).symm.trans found

lemma Objects.grow (h : Objects bare c methods fields globals natives past) (grows : c.Grows c')
    (classes : c'.classes = c.classes) (instances : c'.instances = c.instances)
    (bodies : c'.natives = c.natives) : Objects bare c' methods fields globals natives past :=
  h.extend grows (classes.trans h.classes) (instances.trans h.instances) (bodies.trans h.bodies)
    (fun _ => .inl) (fun _ => .inl) (fun _ => .inl)

lemma Objects.setGlobal (h : Objects bare c methods fields globals natives past) (x : String)
    (sound : v.Sound bare c) : Objects bare c methods fields (globals.insert x v) natives past := by
  refine ⟨h.classes, h.instances, h.bodies, h.methods, h.fields, fun y w found => ?_, h.fair,
    h.past⟩
  rw [Table.find?_insert] at found
  split at found
  · rw [← Option.some.inj found]
    exact sound
  · exact h.globals y w found

lemma mem_modify {α : Type} {a : Array α} {i : Nat} {f : α → α} {x : α} (there : x ∈ a.modify i f) :
    x ∈ a ∨ ∃ y ∈ a, x = f y := by
  obtain ⟨j, here⟩ := Array.getElem?_of_mem there
  rw [Array.getElem?_modify] at here
  split at here
  · obtain ⟨y, old, rfl⟩ := Option.map_eq_some_iff.1 here
    exact .inr ⟨y, Array.mem_of_getElem? old, rfl⟩
  · exact .inl (Array.mem_of_getElem? here)

lemma Objects.setFields (h : Objects bare c methods fields globals natives past) (i : Nat)
    (f : Table Value → Table Value)
    (sound : ∀ t ∈ fields, ∀ x v, (f t).find? x = some v → v.Sound bare c) :
    Objects bare c methods (fields.modify i f) globals natives past := by
  refine ⟨h.classes, by rw [Array.size_modify, h.instances], h.bodies, h.methods,
    fun t there x v found => ?_, h.globals, h.fair, h.past⟩
  rcases mem_modify there with old | ⟨u, old, rfl⟩
  · exact h.fields t old x v found
  · exact sound u old x v found

lemma Objects.setMethods (h : Objects bare c methods fields globals natives past) (i : Nat)
    (f : Table Closure → Table Closure)
    (sound : ∀ t ∈ methods, ∀ x w, (f t).find? x = some w → w.Sound bare c) :
    Objects bare c (methods.modify i f) fields globals natives past := by
  refine ⟨by rw [Array.size_modify, h.classes], h.instances, h.bodies, fun t there x w found => ?_,
    h.fields, h.globals, h.fair, h.past⟩
  rcases mem_modify there with old | ⟨u, old, rfl⟩
  · exact h.methods t old x w found
  · exact sound u old x w found

end Objects

/-! ### New objects -/

section Making

/-- Memory in order stays so when there are more objects. -/
lemma Memory.extend (h : Memory bare c S m) {m' : Machine} (grows : c.Grows c')
    (same : c'.cells = c.cells) (cells : m'.cells = m.cells) (stack : m'.stack = m.stack)
    (objects : Objects bare c' m'.methods m'.fields m'.globals m'.natives m'.hostCalls) :
    Memory bare c' S m' :=
  ⟨objects, by rw [cells]; exact h.cells.grow grows same, by rw [stack]; exact h.stack.grow grows⟩

lemma Memory.newClass (h : Memory bare c S m) (name : String) :
    ∃ c', c.Grows c' ∧ Memory bare c' S (m.newClass name).2 ∧
      (Value.cls (m.newClass name).1).Sound bare c' := by
  have grows : c.Grows { c with classes := c.classes + 1 } :=
    ⟨Nat.le_succ _, Nat.le_refl _, Nat.le_refl _, List.prefix_refl _⟩
  refine ⟨{ c with classes := c.classes + 1 }, grows, h.extend grows rfl rfl rfl ?_, ?_⟩
  · refine h.objects.extend grows ?_ h.objects.instances h.objects.bodies (fun t there => ?_)
      (fun _ => .inl) (fun _ => .inl)
    · exact (congrArg (· + 1) h.objects.classes).trans (Array.size_push _).symm
    · exact (Array.mem_push.1 there).imp_right (by rintro rfl; exact sound_empty)
  · exact Nat.lt_of_lt_of_eq (Nat.lt_succ_self _) (congrArg (· + 1) h.objects.classes.symm)

lemma Memory.newInstance (h : Memory bare c S m) {r : ClassRef}
    (sound : (Value.cls r).Sound bare c) :
    ∃ c', c.Grows c' ∧ Memory bare c' S (m.newInstance r).2 ∧ (m.newInstance r).1.Sound bare c' := by
  have grows : c.Grows { c with instances := c.instances + 1 } :=
    ⟨Nat.le_refl _, Nat.le_succ _, Nat.le_refl _, List.prefix_refl _⟩
  refine ⟨{ c with instances := c.instances + 1 }, grows, h.extend grows rfl rfl rfl ?_, ?_⟩
  · refine h.objects.extend grows h.objects.classes ?_ h.objects.bodies (fun _ => .inl)
      (fun t there => ?_) (fun _ => .inl)
    · exact (congrArg (· + 1) h.objects.instances).trans (Array.size_push _).symm
    · exact (Array.mem_push.1 there).imp_right (by rintro rfl; exact sound_empty)
  · exact ⟨Nat.lt_of_lt_of_eq (Nat.lt_succ_self _) (congrArg (· + 1) h.objects.instances.symm), sound⟩

lemma Memory.newNative (h : Memory bare c S m) (name : String) (arity : UInt8) {body : NativeBody}
    (fair : body.Fair bare) :
    ∃ c', c.Grows c' ∧ Memory bare c' S (m.newNative name arity body).2 ∧
      (m.newNative name arity body).1.Sound bare c' := by
  have grows : c.Grows { c with natives := c.natives + 1 } :=
    ⟨Nat.le_refl _, Nat.le_refl _, Nat.le_succ _, List.prefix_refl _⟩
  refine ⟨{ c with natives := c.natives + 1 }, grows, h.extend grows rfl rfl rfl ?_, ?_⟩
  · refine h.objects.extend grows h.objects.classes h.objects.instances ?_ (fun _ => .inl)
      (fun _ => .inl) (fun body there => ?_)
    · exact (congrArg (· + 1) h.objects.bodies).trans (Array.size_push _).symm
    · exact (Array.mem_push.1 there).imp_right fun same => by rw [same]; exact fair
  · exact Nat.lt_of_lt_of_eq (Nat.lt_succ_self _) (congrArg (· + 1) h.objects.bodies.symm)

/-- What a function of the host has seen is sound. -/
lemma Memory.sees (h : Memory bare c S m) {self : Nat} {given : Array Value} (sound : ∀ v ∈ given, v.Sound bare c)
    {v : Value} (sees : (m.host self).Sees given v) : v.Sound bare c :=
  sees_of h.objects.fields h.objects.methods h.objects.past sound sees

lemma Memory.known (h : Memory bare c S m) {self : Nat} {given : Array Value} (sound : ∀ v ∈ given, v.Sound bare c)
    {v : Value} (known : v.From (m.host self) given .none) : v.Sound bare c :=
  known.sound (fun _ => h.sees sound) (fun there => nomatch there) (Nat.le_of_eq h.objects.classes.symm)
    (Nat.le_of_eq h.objects.instances.symm) (Nat.le_of_eq h.objects.bodies.symm)

/-- New objects that consist of what may be referred to can be made. -/
lemma Memory.newObjects (h : Memory bare c S m) {self : Nat} {given : Array Value} {new : NewObjects}
    (fair : new.Fair (fun p => p.Standalone ∨ bare ∧ p.Bare) (m.host self) given)
    (sound : ∀ v ∈ given, v.Sound bare c) :
    ∃ c', c.Grows c' ∧ Memory bare c' S (m.extend new) ∧
      ∀ v, Value.From (m.host self) given new v → v.Sound bare c' := by
  let c' : Census := { c with
    classes := c.classes + new.methods.size, instances := c.instances + new.fields.size
    natives := c.natives + new.natives.size }
  have grows : c.Grows c' :=
    ⟨Nat.le_add_right _ _, Nat.le_add_right _ _, Nat.le_add_right _ _, List.prefix_refl _⟩
  have objects := h.objects
  have closures : ∀ {i : Nat} {p captured}, new.closures[i]? = some (p, captured) → ∀ serial,
      Closure.Sound bare c' ⟨serial, p, captured⟩ := by
    intro i p captured there serial
    cases fair.closures there with
    | @copy serial' _ _ known =>
      have old : Closure.Sound bare c ⟨serial', p, captured⟩ := h.known sound known
      exact (old.grow grows).copy rfl rfl
    | new may => exact closure_sound may serial
  have from_ : ∀ v, Value.From (m.host self) given new v → v.Sound bare c' := fun v from_ =>
    from_.sound (fun v seen => (h.sees sound seen).grow grows) closures
      (Nat.le_of_eq (congrArg (· + _) objects.classes.symm)) (Nat.le_of_eq (congrArg (· + _) objects.instances.symm))
      (Nat.le_of_eq (congrArg (· + _) objects.bodies.symm))
  refine ⟨c', grows, h.extend grows rfl rfl rfl ?_, from_⟩
  refine objects.extend grows ?_ ?_ ?_ (fun t there => ?_) (fun t there => ?_) fun body there => ?_
  · exact (congrArg (· + _) objects.classes).trans Array.size_append.symm
  · exact (congrArg (· + _) objects.instances).trans Array.size_append.symm
  · refine (congrArg (· + _) objects.bodies).trans ?_
    show _ = (m.natives ++ new.natives.map m.bodyOf).size
    rw [Array.size_append, Array.size_map]
  · exact (Array.mem_append.1 there).imp_right fun made x w found => from_ _ (fair.methods t made x w found)
  · exact (Array.mem_append.1 there).imp_right fun made x v found => from_ _ (fair.fields t made x v found)
  · exact .inr (natives_extend objects.fair givesNil_makes new body there)

/-- What a function of the host may answer can be made. -/
lemma Memory.build (h : Memory bare c S m) {self : Nat} {given : Array Value} {b : Blueprint}
    (fair : b.Fair (fun p => p.Standalone ∨ bare ∧ p.Bare) (m.host self) given)
    (sound : ∀ v ∈ given, v.Sound bare c) :
    ∃ c', c.Grows c' ∧ Memory bare c' S (m.build b).2 ∧ (m.build b).1.Sound bare c' := by
  cases b with
  | value v => exact ⟨c, .refl c, h, h.known sound fair⟩
  | string | prototype => exact ⟨c, .refl c, ⟨h.objects, h.cells, h.stack⟩, trivial⟩
  | closure name => exact ⟨c, .refl c, ⟨h.objects, h.cells, h.stack⟩, closure_sound (fair _) _⟩
  | bound name => exact ⟨c, .refl c, ⟨h.objects, h.cells, h.stack⟩, trivial, closure_sound (fair _) _⟩
  | cls name => exact h.newClass name
  | inst name =>
    obtain ⟨c', grows, h', sound'⟩ := h.newClass name
    obtain ⟨c'', grows', h'', sound''⟩ := h'.newInstance sound'
    exact ⟨c'', grows.trans grows', h'', sound''⟩
  | native name arity => exact h.newNative name arity givesNil_makes
  | objects new v =>
    obtain ⟨c', grows, h', from_⟩ := h.newObjects fair.1 sound
    exact ⟨c', grows, h', from_ v fair.2⟩

/-- A call of a function of the host is over. -/
lemma Memory.remember (h : Memory bare c S m) (function : Nat) {arguments : Array Value} {answer? : Option Value}
    (sound : ∀ v ∈ arguments, v.Sound bare c) (answer : ∀ v ∈ answer?, v.Sound bare c) :
    Memory bare c S (m.remember function arguments answer?) := by
  refine ⟨{ h.objects with past := fun call there => ?_ }, h.cells, h.stack⟩
  rcases Array.mem_push.1 there with old | rfl
  · exact h.objects.past call old
  · exact fun v shown => shows_of h.objects.fields h.objects.methods sound answer shown

end Making

end Machine

end Lox
