import Lox.Proofs.Bytecode.Shape
import Lox.Proofs.Machine.Disassembly
import Lox.Proofs.Semantics.Evaluation
import Lox.Proofs.Session.Backtraces
import Lox.Proofs.Session.Transcripts

/-!
# What a program sees of the machine

A program without functions sees the data on the stack, the globals, and what has been told; it does
not see which string object has a content, nor who watches.  While its script is running the machine is
at an offset of the code (`At`).  What each instruction does is told in these terms: it leads from one
view to another (`Leads`), or it stops the run with an error of the program (`Stops`).
-/

namespace Lox

open Compile

/-! ## Data -/

/-- The data on a stack, the topmost first. -/
def dataOf (stack : Array Value) : List Datum := (stack.toList.map Value.datum).reverse

@[simp] lemma dataOf_push (stack : Array Value) (v : Value) :
    dataOf (stack.push v) = v.datum :: dataOf stack := by
  simp [dataOf]

lemma dataOf_eq_cons {stack : Array Value} {d : Datum} {ds : List Datum} (h : dataOf stack = d :: ds) :
    ∃ rest v, stack = rest.push v ∧ v.datum = d ∧ dataOf rest = ds := by
  have nonempty : stack ≠ #[] := by
    rintro rfl
    cases h
  obtain ⟨rest, v, rfl⟩ := Array.exists_push_of_ne_empty nonempty
  obtain ⟨rfl, rfl⟩ := List.cons.inj ((dataOf_push _ _).symm.trans h)
  exact ⟨rest, v, rfl, rfl, rfl⟩

lemma dataOf_getElem? (stack : Array Value) (slot : Nat) :
    stack[slot]?.map Value.datum = fromBottom? (dataOf stack) slot := by
  simp [fromBottom?, dataOf]

/-- The list with another entry at the place that has so many entries below it. -/
def setFromBottom {α : Type} (l : List α) (i : Nat) (a : α) : List α := (l.reverse.set i a).reverse

lemma setFromBottom_cons {α : Type} (b : α) (l : List α) (i : Nat) (a : α) :
    setFromBottom (b :: l) i a = if i = l.length then a :: l else b :: setFromBottom l i a := by
  unfold setFromBottom
  by_cases lower : i < l.length
  · simp [lower, Nat.ne_of_lt lower]
  · by_cases top : i = l.length
    · simp [top]
    · have beyond : i - l.length ≠ 0 := by omega
      have outside : l.reverse.set i a = l.reverse := List.set_eq_of_length_le (by simpa using lower)
      obtain ⟨k, far⟩ := Nat.exists_eq_succ_of_ne_zero beyond
      simp [List.set_append, lower, top, far, outside]

lemma setFromBottom_append {α : Type} (above l : List α) {i : Nat} (a : α) (lower : i < l.length) :
    setFromBottom (above ++ l) i a = above ++ setFromBottom l i a := by
  simp [setFromBottom, lower]

lemma dataOf_set (stack : Array Value) (slot : Nat) (v : Value) :
    dataOf (stack.setIfInBounds slot v) = setFromBottom (dataOf stack) slot v.datum := by
  simp [dataOf, setFromBottom, List.map_set]

/-! ## Views -/

/-- The lines that have been printed. -/
def Machine.printed (m : Machine) : List String := m.journal.toList.filterMap Event.output?

namespace Plain

variable {c : Closure} {r : List String} {o : Nat} {ds : List Datum} {g : String → Option Datum}
  {p : List String} {m : Machine} {d a b : Datum} {x : String}

/-- The globals are these and this has been told, and no variable is captured. -/
structure Seen (r : List String) (g : String → Option Datum) (p : List String) (m : Machine) : Prop where
  globals : ∀ x, (m.globals.find? x).map Value.datum = g x
  printed : m.printed = p
  reported : m.reported = r
  settled : m.openCells = []

/-- The script is at an offset, with data on the stack. -/
structure At (c : Closure) (r : List String) (o : Nat) (ds : List Datum) (g : String → Option Datum)
    (p : List String) (m : Machine) : Prop where
  frames : m.frames = [⟨c, o, 0⟩]
  data : dataOf m.stack = ds
  seen : Seen r g p m

/-- Records are not seen. -/
lemma Seen.recorded {m' : Machine} (h : Seen r g p m) (records : m.Recorded m') : Seen r g p m' := by
  obtain ⟨journal, rfl, told⟩ := records
  have lines : ∀ (es : List Event) (f : Event → Option String),
      (∀ e, f e = if e.output?.isSome || e.report?.isSome then f e else none) →
      es.filterMap f = (es.filter fun e => e.output?.isSome || e.report?.isSome).filterMap f := by
    intro es f same
    rw [List.filterMap_filter]
    exact congrArg (List.filterMap · es) (funext same)
  have same : ∀ f : Event → Option String,
      (∀ e, f e = if e.output?.isSome || e.report?.isSome then f e else none) →
      journal.toList.filterMap f = m.journal.toList.filterMap f := fun f same =>
    (lines _ f same).trans ((congrArg (List.filterMap f) told).trans (lines _ f same).symm)
  exact ⟨h.globals, (same _ fun e => by cases e <;> rfl).trans h.printed,
    (same _ fun e => by cases e <;> rfl).trans h.reported, h.settled⟩

lemma At.watched (h : At c r o ds g p m) (traced : Bool) :
    At c r o ds g p (if traced then m.noteStep else m) := by
  split
  · have records := m.recorded_noteStep
    have seen := h.seen.recorded records
    obtain ⟨journal, same, -⟩ := records
    rw [same] at seen ⊢
    exact ⟨h.frames, h.data, seen⟩
  · exact h

/-- Another stack is another view. -/
lemma At.stacked (h : At c r o ds g p m) {stack : Array Value} {ds' : List Datum} (data : dataOf stack = ds') :
    At c r o ds' g p { m with stack } :=
  ⟨h.frames, data, ⟨h.seen.globals, h.seen.printed, h.seen.reported, h.seen.settled⟩⟩

/-- The script goes on at another offset. -/
lemma At.goes (h : At c r o ds g p m) (o' : Nat) :
    Machine.goto o' m = .ok () { m with frames := [⟨c, o', 0⟩] } ∧
      At c r o' ds g p { m with frames := [⟨c, o', 0⟩] } := by
  constructor
  · rw [Machine.goto, h.frames]
  · exact ⟨rfl, h.data, ⟨h.seen.globals, h.seen.printed, h.seen.reported, h.seen.settled⟩⟩

lemma At.top (h : At c r o (d :: ds) g p m) :
    ∃ rest v, m.stack = rest.push v ∧ v.datum = d ∧ dataOf rest = ds :=
  dataOf_eq_cons h.data

lemma At.top₂ (h : At c r o (b :: a :: ds) g p m) :
    ∃ rest u v, m.stack = (rest.push u).push v ∧ u.datum = a ∧ v.datum = b ∧ dataOf rest = ds := by
  obtain ⟨rest, v, stack, top, below⟩ := h.top
  obtain ⟨rest, u, rfl, second, below⟩ := dataOf_eq_cons below
  exact ⟨rest, u, v, stack, second, top, below⟩

/-! ## Instructions -/

/-- Where `A` holds, an instruction that has been read leads to a state of `B`. -/
def Leads (i : Instr) (A B : Machine → Prop) : Prop :=
  ∀ m, A m → ∃ m', Machine.exec i m = .ok () m' ∧ B m'

/-- Where `A` holds, an instruction that has been read stops the run with an error, in a state of `B`. -/
def Stops (i : Instr) (A : Machine → Prop) (e : RuntimeError) (B : Machine → Prop) : Prop :=
  ∀ m, A m → ∃ m', Machine.exec i m = .error (.failed e) m' ∧ B m'

section Stack

variable {stack : Array Value} {u v : Value}

lemma pop_apply (top : m.stack = stack.push v) : Machine.pop m = .ok v { m with stack } := by
  simp [Machine.pop, top]

lemma peek_zero_apply (top : m.stack = stack.push v) : Machine.peek 0 m = .ok v m := by
  simp [Machine.peek, top]

lemma peek_one_apply (top : m.stack = (stack.push u).push v) : Machine.peek 1 m = .ok u m := by
  simp [Machine.peek, top, Array.getElem_push]

end Stack

lemma constant_apply {index : UInt8} {k : Constant} (here : At c r o ds g p m)
    (entry : c.prototype.chunk.constants[index.toNat]? = some k) : Machine.constant index m = .ok k m := by
  rw [Machine.constant, Machine.bind_apply, Machine.frame_apply here.frames]
  dsimp only
  rw [entry]
  rfl

lemma constant_leads {index : UInt8} {k : Constant}
    (entry : c.prototype.chunk.constants[index.toNat]? = some k) :
    Leads (.constant index) (At c r o ds g p) (At c r o (k.toValue.datum :: ds) g p) := by
  intro m here
  refine ⟨{ m with stack := m.stack.push k.toValue }, ?_, here.stacked (by simp [here.data])⟩
  rw [Machine.exec, Machine.bind_apply, constant_apply here entry]
  rfl

lemma pushNil_leads : Leads .pushNil (At c r o ds g p) (At c r o (.nil :: ds) g p) :=
  fun m here => ⟨_, rfl, here.stacked (by simp [here.data]; rfl)⟩

lemma pushTrue_leads : Leads .pushTrue (At c r o ds g p) (At c r o (.bool true :: ds) g p) :=
  fun m here => ⟨_, rfl, here.stacked (by simp [here.data]; rfl)⟩

lemma pushFalse_leads : Leads .pushFalse (At c r o ds g p) (At c r o (.bool false :: ds) g p) :=
  fun m here => ⟨_, rfl, here.stacked (by simp [here.data]; rfl)⟩

lemma pop_leads : Leads .pop (At c r o (d :: ds) g p) (At c r o ds g p) := by
  intro m here
  obtain ⟨rest, v, top, -, below⟩ := here.top
  refine ⟨{ m with stack := rest }, ?_, here.stacked below⟩
  rw [Machine.exec, Machine.bind_apply, pop_apply top]
  rfl

/-- Where nothing is captured, a variable is closed by dropping it. -/
lemma closeUpvalue_leads : Leads .closeUpvalue (At c r o (d :: ds) g p) (At c r o ds g p) := by
  intro m here
  obtain ⟨rest, v, top, -, below⟩ := here.top
  refine ⟨{ m with stack := rest }, ?_, here.stacked below⟩
  have closes : Machine.closeCells (m.stack.size - 1) m = .ok () m := by
    rw [Machine.closeCells, here.seen.settled, Machine.partCells, ← here.seen.settled]
    rfl
  rw [Machine.exec, Machine.bind_apply, Machine.get_apply]
  dsimp only
  rw [Machine.bind_apply, closes]
  dsimp only
  rw [Machine.bind_apply, pop_apply top]
  rfl

lemma getLocal_leads {slot : UInt8} (found : fromBottom? ds slot.toNat = some d) :
    Leads (.getLocal slot) (At c r o ds g p) (At c r o (d :: ds) g p) := by
  intro m here
  have there : m.stack[slot.toNat]?.map Value.datum = some d := by
    rw [dataOf_getElem?, here.data, found]
  obtain ⟨v, entry, rfl⟩ := Option.map_eq_some_iff.1 there
  refine ⟨{ m with stack := m.stack.push v }, ?_, here.stacked (by simp [here.data])⟩
  have reads : Machine.readSlot slot.toNat m = .ok v m := by
    rw [Machine.readSlot, entry]
  rw [Machine.exec, Machine.bind_apply, Machine.frame_apply here.frames]
  dsimp only
  rw [Nat.zero_add, Machine.bind_apply, reads]
  rfl

lemma setLocal_leads {slot : UInt8} (lower : slot.toNat < ds.length) :
    Leads (.setLocal slot) (At c r o (d :: ds) g p) (At c r o (d :: setFromBottom ds slot.toNat d) g p) := by
  intro m here
  obtain ⟨rest, v, top, rfl, below⟩ := here.top
  have size : rest.size = ds.length := by
    rw [← below]
    simp [dataOf]
  refine ⟨{ m with stack := m.stack.setIfInBounds slot.toNat v }, ?_, here.stacked ?_⟩
  · have inside : slot.toNat < m.stack.size := by
      rw [top, Array.size_push, size]
      exact Nat.lt_succ_of_lt lower
    rw [Machine.exec, Machine.bind_apply, Machine.frame_apply here.frames]
    dsimp only
    rw [Nat.zero_add, Machine.bind_apply, peek_zero_apply top]
    exact if_pos inside
  · rw [dataOf_set, here.data, setFromBottom_cons, if_neg (Nat.ne_of_lt lower)]

section Globals

variable {index : UInt8} {object : StringObject}

/-- The globals after one of them has been given a value. -/
def withGlobal (g : String → Option Datum) (x : String) (d : Datum) : String → Option Datum :=
  fun y => if x = y then some d else g y

lemma Seen.define (h : Seen r g p m) (x : String) (v : Value) (stack : Array Value) :
    Seen r (withGlobal g x v.datum) p { m with stack, globals := m.globals.insert x v } := by
  refine ⟨fun y => ?_, h.printed, h.reported, h.settled⟩
  show ((m.globals.insert x v).find? y).map Value.datum = _
  rw [Table.find?_insert, withGlobal]
  split
  · rfl
  · exact h.globals y

variable (entry : c.prototype.chunk.constants[index.toNat]? = some (.string object))

include entry

lemma getGlobal_leads (known : g object.content = some d) :
    Leads (.getGlobal index) (At c r o ds g p) (At c r o (d :: ds) g p) := by
  intro m here
  have there := (here.seen.globals object.content).trans known
  obtain ⟨v, found, rfl⟩ := Option.map_eq_some_iff.1 there
  refine ⟨{ m with stack := m.stack.push v }, ?_, here.stacked (by simp [here.data])⟩
  rw [Machine.exec, Machine.bind_apply, Machine.name_apply here.frames entry]
  dsimp only
  rw [Machine.readGlobal, Machine.bind_apply, Machine.get_apply]
  dsimp only
  rw [found]
  rfl

lemma getGlobal_stops (unknown : g object.content = none) :
    Stops (.getGlobal index) (At c r o ds g p) (.undefinedVariable object.content) (Seen r g p) := by
  intro m here
  have missing := Option.map_eq_none_iff.1 ((here.seen.globals object.content).trans unknown)
  refine ⟨m, ?_, here.seen⟩
  rw [Machine.exec, Machine.bind_apply, Machine.name_apply here.frames entry]
  dsimp only
  rw [Machine.readGlobal, Machine.bind_apply, Machine.get_apply]
  dsimp only
  rw [missing]
  rfl

lemma defineGlobal_leads :
    Leads (.defineGlobal index) (At c r o (d :: ds) g p)
      (At c r o ds (withGlobal g object.content d) p) := by
  intro m here
  obtain ⟨rest, v, top, rfl, below⟩ := here.top
  refine ⟨{ m with stack := rest, globals := m.globals.insert object.content v }, ?_,
    here.frames, below, here.seen.define _ _ _⟩
  rw [Machine.exec, Machine.bind_apply, Machine.name_apply here.frames entry]
  dsimp only
  rw [Machine.defineGlobal, Machine.bind_apply, pop_apply top]
  rfl

lemma setGlobal_leads (known : (g object.content).isSome) :
    Leads (.setGlobal index) (At c r o (d :: ds) g p)
      (At c r o (d :: ds) (withGlobal g object.content d) p) := by
  intro m here
  obtain ⟨rest, v, top, rfl, below⟩ := here.top
  have there : m.globals.contains object.content = true := by
    rw [Table.contains_eq_isSome_find?, ← Option.isSome_map, here.seen.globals, known]
  refine ⟨{ m with globals := m.globals.insert object.content v }, ?_, here.frames, here.data,
    here.seen.define _ _ m.stack⟩
  rw [Machine.exec, Machine.bind_apply, Machine.name_apply here.frames entry]
  dsimp only
  rw [Machine.writeGlobal, Machine.bind_apply, Machine.get_apply]
  dsimp only
  rw [if_pos there, Machine.bind_apply, peek_zero_apply top]
  rfl

lemma setGlobal_stops (unknown : g object.content = none) :
    Stops (.setGlobal index) (At c r o ds g p) (.undefinedVariable object.content) (Seen r g p) := by
  intro m here
  have missing : ¬m.globals.contains object.content = true := by
    rw [Table.contains_eq_isSome_find?, ← Option.isSome_map, here.seen.globals, unknown]
    exact Bool.false_ne_true
  refine ⟨m, ?_, here.seen⟩
  rw [Machine.exec, Machine.bind_apply, Machine.name_apply here.frames entry]
  dsimp only
  rw [Machine.writeGlobal, Machine.bind_apply, Machine.get_apply]
  dsimp only
  rw [if_neg missing]
  rfl

end Globals

/-! ## Operators -/

lemma datum_eq_number {v : Value} {x : Float} (h : v.datum = .number x) : v = .number x := by
  cases v <;> cases h
  rfl

lemma datum_eq_string {v : Value} {s : String} (h : v.datum = .string s) :
    ∃ object : StringObject, v = .string object ∧ object.content = s := by
  cases v <;> cases h
  exact ⟨_, rfl, rfl⟩

lemma not_leads : Leads .not (At c r o (d :: ds) g p) (At c r o (.bool d.isFalsey :: ds) g p) := by
  intro m here
  obtain ⟨rest, v, top, rfl, below⟩ := here.top
  refine ⟨{ m with stack := rest.push (.bool v.isFalsey) }, ?_, here.stacked (by simp [below]; rfl)⟩
  rw [Machine.exec, Machine.bind_apply, pop_apply top]
  rfl

lemma equal_leads :
    Leads .equal (At c r o (b :: a :: ds) g p) (At c r o (.bool (a.same b) :: ds) g p) := by
  intro m here
  obtain ⟨rest, u, v, top, rfl, rfl, below⟩ := here.top₂
  refine ⟨{ m with stack := rest.push (.bool (u.same v)) }, ?_, here.stacked (by simp [below]; rfl)⟩
  rw [Machine.exec, Machine.bind_apply, pop_apply top]
  dsimp only
  rw [Machine.bind_apply, pop_apply rfl]
  rfl

lemma print_leads :
    Leads .print (At c r o (d :: ds) g p) (At c r o ds g (p ++ [d.display])) := by
  intro m here
  obtain ⟨rest, v, top, rfl, below⟩ := here.top
  refine ⟨{ m with stack := rest }.note (.printed v.display), ?_, here.frames, below,
    here.seen.globals, ?_, ?_, here.seen.settled⟩
  · rw [Machine.exec, Machine.bind_apply, pop_apply top]
    rfl
  · rw [← here.seen.printed]
    simp [Machine.printed, Machine.note, Event.output?]
  · rw [← here.seen.reported]
    simp [Machine.reported, Machine.note, Event.report?]

lemma negate_leads {x : Float} :
    Leads .negate (At c r o (.number x :: ds) g p) (At c r o (.number (-x) :: ds) g p) := by
  intro m here
  obtain ⟨rest, v, top, number, below⟩ := here.top
  obtain rfl := datum_eq_number number
  refine ⟨{ m with stack := rest.push (.number (-x)) }, ?_, here.stacked (by simp [below]; rfl)⟩
  rw [Machine.exec, Machine.negate, Machine.bind_apply, peek_zero_apply top]
  dsimp only
  rw [Machine.bind_apply, pop_apply top]
  rfl

lemma negate_stops (other : ∀ x, d ≠ .number x) :
    Stops .negate (At c r o (d :: ds) g p) .operandNotNumber (Seen r g p) := by
  intro m here
  obtain ⟨rest, v, top, rfl, below⟩ := here.top
  refine ⟨m, ?_, here.seen⟩
  rw [Machine.exec, Machine.negate, Machine.bind_apply, peek_zero_apply top]
  cases v with
  | number x => exact absurd rfl (other x)
  | _ => rfl

section Numeric

variable {i : Instr} {f : Float → Float → Value} (means : Machine.exec i = Machine.numeric f)

include means

lemma numeric_leads {x y : Float} :
    Leads i (At c r o (.number y :: .number x :: ds) g p) (At c r o ((f x y).datum :: ds) g p) := by
  intro m here
  obtain ⟨rest, u, v, top, number, number', below⟩ := here.top₂
  obtain rfl := datum_eq_number number
  obtain rfl := datum_eq_number number'
  refine ⟨{ m with stack := rest.push (f x y) }, ?_, here.stacked (by simp [below])⟩
  rw [means, Machine.numeric, Machine.bind_apply, peek_one_apply top]
  dsimp only
  rw [Machine.bind_apply, peek_zero_apply top]
  dsimp only
  rw [Machine.bind_apply, pop_apply top]
  dsimp only
  rw [Machine.bind_apply, pop_apply rfl]
  rfl

lemma numeric_stops (others : ∀ x y, a = .number x → b ≠ .number y) :
    Stops i (At c r o (b :: a :: ds) g p) .operandsNotNumbers (Seen r g p) := by
  intro m here
  obtain ⟨rest, u, v, top, rfl, rfl, below⟩ := here.top₂
  refine ⟨m, ?_, here.seen⟩
  rw [means, Machine.numeric, Machine.bind_apply, peek_one_apply top]
  dsimp only
  rw [Machine.bind_apply, peek_zero_apply top]
  dsimp only
  cases u with
  | number x =>
    cases v with
    | number y => exact absurd rfl (others x y rfl)
    | _ => rfl
  | _ => rfl

end Numeric

lemma add_numbers_leads {x y : Float} :
    Leads .add (At c r o (.number y :: .number x :: ds) g p) (At c r o (.number (x + y) :: ds) g p) := by
  intro m here
  obtain ⟨rest, u, v, top, number, number', below⟩ := here.top₂
  obtain rfl := datum_eq_number number
  obtain rfl := datum_eq_number number'
  refine ⟨{ m with stack := rest.push (.number (x + y)) }, ?_, here.stacked (by simp [below]; rfl)⟩
  rw [Machine.exec, Machine.add, Machine.bind_apply, peek_one_apply top]
  dsimp only
  rw [Machine.bind_apply, peek_zero_apply top]
  dsimp only
  rw [Machine.bind_apply, pop_apply top]
  dsimp only
  rw [Machine.bind_apply, pop_apply rfl]
  rfl

lemma add_strings_leads {s t : String} :
    Leads .add (At c r o (.string t :: .string s :: ds) g p) (At c r o (.string (s ++ t) :: ds) g p) := by
  intro m here
  obtain ⟨rest, u, v, top, string, string', below⟩ := here.top₂
  obtain ⟨object, rfl, rfl⟩ := datum_eq_string string
  obtain ⟨object', rfl, rfl⟩ := datum_eq_string string'
  generalize joined : m.strings.intern (object.content ++ object'.content) = result
  have content : result.1.content = object.content ++ object'.content :=
    joined ▸ m.strings.content_intern _
  refine ⟨{ m with stack := rest.push (.string result.1), strings := result.2 }, ?_, here.frames, ?_,
    here.seen.globals, here.seen.printed, here.seen.reported, here.seen.settled⟩
  · rw [Machine.exec, Machine.add, Machine.bind_apply, peek_one_apply top]
    dsimp only
    rw [Machine.bind_apply, peek_zero_apply top]
    dsimp only
    rw [Machine.bind_apply]
    show (Machine.pop >>= _) { m with strings := (m.strings.intern _).2 } = _
    rw [joined, Machine.bind_apply, pop_apply (m := { m with strings := result.2 }) top]
    dsimp only
    rw [Machine.bind_apply, pop_apply rfl]
    rfl
  · rw [dataOf_push, below, Value.datum, content]

lemma add_stops (noNumbers : ∀ x y, a = .number x → b ≠ .number y)
    (noStrings : ∀ s t, a = .string s → b ≠ .string t) :
    Stops .add (At c r o (b :: a :: ds) g p) .operandsNotAddable (Seen r g p) := by
  intro m here
  obtain ⟨rest, u, v, top, rfl, rfl, below⟩ := here.top₂
  refine ⟨m, ?_, here.seen⟩
  rw [Machine.exec, Machine.add, Machine.bind_apply, peek_one_apply top]
  dsimp only
  rw [Machine.bind_apply, peek_zero_apply top]
  dsimp only
  cases u with
  | number x =>
    cases v with
    | number y => exact absurd rfl (noNumbers x y rfl)
    | _ => rfl
  | string s =>
    cases v with
    | string t => exact absurd rfl (noStrings s.content t.content rfl)
    | _ => rfl
  | _ => rfl

/-! ## Jumps -/

variable {distance : UInt16}

lemma jump_leads :
    Leads (.jump distance) (At c r o ds g p) (At c r (o + distance.toNat) ds g p) := by
  intro m here
  obtain ⟨goes, there⟩ := here.goes (o + distance.toNat)
  refine ⟨_, ?_, there⟩
  rw [Machine.exec, Machine.bind_apply, Machine.frame_apply here.frames]
  exact goes

lemma jumpIfFalse_leads (falsey : d.isFalsey = true) :
    Leads (.jumpIfFalse distance) (At c r o (d :: ds) g p) (At c r (o + distance.toNat) (d :: ds) g p) := by
  intro m here
  obtain ⟨rest, v, top, rfl, below⟩ := here.top
  obtain ⟨goes, there⟩ := here.goes (o + distance.toNat)
  refine ⟨_, ?_, there⟩
  rw [Machine.exec, Machine.bind_apply, peek_zero_apply top]
  dsimp only
  rw [if_pos (v.isFalsey_datum.symm.trans falsey), Machine.bind_apply, Machine.frame_apply here.frames]
  exact goes

lemma jumpIfFalse_stays (truthy : d.isFalsey = false) :
    Leads (.jumpIfFalse distance) (At c r o (d :: ds) g p) (At c r o (d :: ds) g p) := by
  intro m here
  obtain ⟨rest, v, top, rfl, below⟩ := here.top
  refine ⟨m, ?_, here⟩
  rw [Machine.exec, Machine.bind_apply, peek_zero_apply top]
  dsimp only
  rw [if_neg (Bool.eq_false_iff.1 (v.isFalsey_datum.symm.trans truthy))]
  rfl

lemma loop_leads (enough : distance.toNat ≤ o) :
    Leads (.loop distance) (At c r o ds g p) (At c r (o - distance.toNat) ds g p) := by
  intro m here
  obtain ⟨goes, there⟩ := here.goes (o - distance.toNat)
  refine ⟨_, ?_, there⟩
  rw [Machine.exec, Machine.bind_apply, Machine.frame_apply here.frames]
  dsimp only
  rw [if_pos enough]
  exact goes

end Plain

end Lox
