import Lox.Proofs.Compile.Pieces
import Lox.Proofs.Machine.Keeping

/-!
# Closures and superclasses in a machine

A ledger says which closures are good, which cells have the hidden variable of a superclass in them, and
what the methods of classes are.  An instruction that has nothing to do with classes makes no closure, and
functions of the host make good ones; so whatever closures it leaves in the machine are good.  It changes no
cell of a superclass and no methods of classes that there are (`Ledger.keeper`).
-/

namespace Lox

open Compile

/-! ## Values -/

/-- In a context, a closure has captured superclasses just where its code says so. -/
def Closure.Labelled (w : Closure) (supers : List (Option ClassRef)) (Γ : Context) : Prop :=
  ∀ x (index : UInt8) cell, CapturedAs x Γ.captures Γ.around index →
    w.captured[index.toNat]? = some cell →
      ∃ label, supers[cell]? = some label ∧ (label.isSome ↔ x = "super")

/-- The closure has captured superclasses just where its code says so, or else it has no code. -/
def Closure.Good (supers : List (Option ClassRef)) (w : Closure) : Prop :=
  w.Bare ∨ ∃ Γ start items, Compiled w.prototype Γ start items ∧ w.Labelled supers Γ

/-- The closures that a value consists of are good. -/
abbrev Value.Good (supers : List (Option ClassRef)) (v : Value) : Prop := v.All (Closure.Good supers)

lemma Closure.good_copied (supers : List (Option ClassRef)) : Machine.Copied (Closure.Good supers) := by
  rintro serial serial' p captured (bare | good)
  · exact .inl (bare.copy rfl rfl)
  · exact .inr good

/-- A closure that captures nothing is good if its function is one of an accepted source. -/
lemma Closure.good_of_standalone {supers : List (Option ClassRef)} {p : Prototype}
    (may : p.Standalone ∨ True ∧ p.Bare) (serial : Nat) : Closure.Good supers ⟨serial, p, #[]⟩ := by
  rcases may with standalone | ⟨-, bare⟩
  · obtain ⟨Γ, start, items, compiled⟩ := standalone.accepted.compiled
    exact .inr ⟨Γ, start, items, compiled, fun _ _ _ _ there => nomatch there⟩
  · exact .inl ⟨rfl, bare.captureCount, bare.chunk⟩

section Growth

variable {supers supers' : List (Option ClassRef)}

lemma Closure.Labelled.grow {w : Closure} {Γ : Context} (h : w.Labelled supers Γ)
    (grows : supers <+: supers') : w.Labelled supers' Γ := by
  intro x index cell captured there
  obtain ⟨label, known, named⟩ := h x index cell captured there
  obtain ⟨further, rfl⟩ := grows
  refine ⟨label, ?_, named⟩
  rw [List.getElem?_append_left (List.getElem?_eq_some_iff.1 known).1, known]

lemma Closure.Good.grow {w : Closure} (h : w.Good supers) (grows : supers <+: supers') :
    w.Good supers' := by
  rcases h with bare | ⟨Γ, start, items, compiled, labelled⟩
  · exact .inl bare
  · exact .inr ⟨Γ, start, items, compiled, labelled.grow grows⟩

end Growth

/-! ## Ledgers -/

/-- There may be new classes, and old ones keep their methods. -/
structure Prolongs (old new : Array (Table Closure)) : Prop where
  size : old.size ≤ new.size
  same : ∀ i < old.size, new[i]? = old[i]?

namespace Prolongs

lemma refl (methods : Array (Table Closure)) : Prolongs methods methods := ⟨Nat.le_refl _, fun _ _ => rfl⟩

lemma append {old new : Array (Table Closure)} (h : Prolongs old new) (more : Array (Table Closure)) :
    Prolongs old (new ++ more) := by
  refine ⟨?_, fun i below => ?_⟩
  · rw [Array.size_append]
    exact Nat.le_add_right_of_le h.size
  · rw [Array.getElem?_append_left (below.trans_le h.size)]
    exact h.same i below

lemma push {old new : Array (Table Closure)} (h : Prolongs old new) (t : Table Closure) :
    Prolongs old (new.push t) := h.append #[t]

end Prolongs

/-- What is known of the cells of superclasses and of methods. -/
structure Ledger where
  /-- For each cell, the superclass in it if it is that of a hidden variable. -/
  supers : List (Option ClassRef)
  /-- The place of a hidden variable that is alive, with the superclass in it. -/
  hidden : Option (Nat × ClassRef)
  /-- The methods of classes that are complete. -/
  methods : Array (Table Closure)

/-- A machine is as a ledger says. -/
structure Ledger.Covers (l : Ledger) (m : Machine) : Prop extends Machine.Holds (Closure.Good l.supers) m where
  tables : Prolongs l.methods m.methods
  count : l.supers.length = m.cells.size
  closed : ∀ {i : Nat} {v r}, m.cells[i]? = some (.closed v) → l.supers[i]? = some (some r) → v = .cls r
  opened : ∀ {i slot : Nat}, m.cells[i]? = some (.opened slot) → ∀ r,
    l.supers[i]? = some (some r) ↔ l.hidden = some (slot, r)
  hidden : ∀ {slot : Nat} {r}, l.hidden = some (slot, r) → m.stack[slot]? = some (.cls r)

/-! ## Changes -/

/-- There is no hidden variable. -/
lemma Ledger.nowhere {l : Ledger} {P : Prop} {place : Nat × ClassRef} (none : l.hidden = none)
    (alive : l.hidden = some place) : P := by
  cases none.symm.trans alive

namespace Ledger.Covers

variable {l : Ledger} {m m' : Machine} {v : Value}

/-- Only what a ledger speaks of matters. -/
lemma of_same (h : l.Covers m) (stack : m'.stack = m.stack) (globals : m'.globals = m.globals)
    (fields : m'.fields = m.fields) (methods : m'.methods = m.methods) (cells : m'.cells = m.cells)
    (natives : m'.natives = m.natives) (hostCalls : m'.hostCalls = m.hostCalls) : l.Covers m' where
  toHolds := h.toHolds.of_same stack globals fields methods cells natives hostCalls
  tables := by rw [methods]; exact h.tables
  count := by rw [cells]; exact h.count
  closed := by rw [cells]; exact h.closed
  opened := by rw [cells]; exact h.opened
  hidden := by rw [stack]; exact h.hidden

/-- Another stack with good values, where the hidden variable is still there. -/
lemma setStack (h : l.Covers m) (stack : Array Value) (good : ∀ v ∈ stack, v.Good l.supers)
    (hidden : ∀ {slot r}, l.hidden = some (slot, r) → stack[slot]? = some (.cls r)) :
    l.Covers { m with stack } :=
  { h with stack := good, hidden }

lemma push (h : l.Covers m) (good : v.Good l.supers) : l.Covers { m with stack := m.stack.push v } := by
  refine h.setStack _ (fun w there => ?_) fun {slot r} alive => ?_
  · rcases Array.mem_push.1 there with old | rfl
    · exact h.stack w old
    · exact good
  · have place := h.hidden alive
    have bound := (Array.getElem?_eq_some_iff.1 place).1
    rw [Array.getElem?_push, if_neg (Nat.ne_of_lt bound)]
    exact place

lemma setGlobal (h : l.Covers m) (x : String) (good : v.Good l.supers) :
    l.Covers { m with globals := m.globals.insert x v } :=
  { h with toHolds := h.toHolds.setGlobal x good }

lemma setField (h : l.Covers m) (serial : Nat) (x : String) (good : v.Good l.supers) :
    l.Covers { m with fields := m.fields.modify serial (·.insert x v) } :=
  { h with toHolds := h.toHolds.setField serial x good }

/-- A closed cell of no hidden variable takes any value. -/
lemma setCell (h : l.Covers m) {i : Nat} {w : Value} (closed : m.cells[i]? = some (.closed w))
    (other : l.supers[i]? = some none) (good : v.Good l.supers) :
    l.Covers { m with cells := m.cells.setIfInBounds i (.closed v) } := by
  have bound := (Array.getElem?_eq_some_iff.1 closed).1
  refine { h with
    toHolds := h.toHolds.setCell i good
    count := by rw [Array.size_setIfInBounds]; exact h.count
    closed := fun {j u r} closed' known => ?_
    opened := fun {j slot} opened => ?_ }
  · by_cases same : i = j
    · subst same
      exact nomatch other.symm.trans known
    · rw [Array.getElem?_setIfInBounds_ne same] at closed'
      exact h.closed closed' known
  · by_cases same : i = j
    · subst same
      rw [Array.getElem?_setIfInBounds_self_of_lt bound] at opened
      exact nomatch opened
    · rw [Array.getElem?_setIfInBounds_ne same] at opened
      exact h.opened opened

/-- Cells that are closed take over what is in their places. -/
lemma close (h : l.Covers m) {last : Nat} {openCells : List Nat} {closing : List (Nat × Value)}
    (parts : m.partCells last m.openCells = some (closing, openCells)) :
    l.Covers { m with openCells, cells := Machine.closeAll closing m.cells } := by
  obtain ⟨-, closes, -⟩ := Machine.partCells_spec parts
  have cases_ : ∀ {j : Nat} {cell}, (Machine.closeAll closing m.cells)[j]? = some cell →
      m.cells[j]? = some cell ∨ ∃ slot v, m.cells[j]? = some (.opened slot) ∧ m.stack[slot]? = some v ∧
        cell = .closed v := by
    intro j cell there
    by_cases closed : j ∈ closing.map Prod.fst
    · have bound := (Array.getElem?_eq_some_iff.1 there).1
      rw [Machine.size_closeAll] at bound
      obtain ⟨v, among, there'⟩ := Machine.closeAll_closes closed bound
      obtain ⟨slot, place, -, value⟩ := closes j v among
      exact .inr ⟨slot, v, Machine.slotOf_eq_some.1 place, value,
        Option.some.inj (there.symm.trans there')⟩
    · rw [Machine.closeAll_other closed] at there
      exact .inl there
  refine { h with
    toHolds := h.toHolds.close parts
    count := by rw [Machine.size_closeAll]; exact h.count
    closed := fun {j v r} there known => ?_
    opened := fun {j slot} there => ?_ }
  · rcases cases_ there with old | ⟨slot, w, open_, value, same⟩
    · exact h.closed old known
    · obtain rfl := Cell.closed.inj same
      exact Option.some.inj (value.symm.trans (h.hidden ((h.opened open_ r).1 known)))
  · rcases cases_ there with old | ⟨_, w, -, -, same⟩
    · exact h.opened old
    · exact nomatch same

lemma newClass (h : l.Covers m) : l.Covers { m with methods := m.methods.push .empty } :=
  { h with toHolds := h.toHolds.newClass, tables := h.tables.push .empty }

lemma newInstance (h : l.Covers m) : l.Covers { m with fields := m.fields.push .empty } :=
  { h with toHolds := h.toHolds.newInstance }

/-- Functions of the host change nothing that a ledger speaks of. -/
lemma build (h : l.Covers m) {self : Nat} {given : Array Value} {body : NativeBody} {b : Blueprint}
    (known : m.natives[self]? = some body) (every : ∀ v ∈ given, v.Good l.supers)
    (answer : body (m.host self) given = .ok b) : (m.build b).1.Good l.supers ∧ l.Covers (m.build b).2 := by
  have fair := h.natives body (Array.mem_of_getElem? known) _ _ _ answer
  obtain ⟨good, holds⟩ := h.toHolds.build (Closure.good_copied _) fair every
  refine ⟨good, ?_⟩
  cases b with
  | cls | inst => exact { h with toHolds := holds, tables := h.tables.push .empty }
  | objects new v => exact { h with toHolds := holds, tables := h.tables.append new.methods }
  | _ => exact { h with toHolds := holds }

end Ledger.Covers

/-- The instruction neither calls nor returns. -/
def Instr.Stays : Instr → Prop
  | .call _ | .invoke _ _ | .superInvoke _ _ | .ret => False
  | _ => True

/-! ## Actions -/

lemma Compile.Context.Harmless.passes {Γ : Context} {i : Instr} (harmless : Γ.Harmless i) (stays : i.Stays) :
    i.Passes := by
  cases i with
  | call | invoke | ret => exact stays.elim
  | closure | inherit | method | jump | jumpIfFalse | loop | superInvoke => exact harmless.elim
  | _ => trivial

/-- Where no superclass is in a hidden variable, a machine may change as long as all closures are good. -/
lemma Ledger.keeper {l : Ledger} (none : l.hidden = none) :
    Machine.Keeper (Closure.Good l.supers) (fun cell => l.supers[cell]? = some Option.none) l.Covers where
  holds covers := covers.toHolds
  same := Ledger.Covers.of_same
  stack covers all := covers.setStack _ all fun alive => nowhere none alive
  globals covers all := covers.setGlobal _ all
  fields covers all := covers.setField _ _ all
  cell covers closed other all := covers.setCell closed other all
  close covers parts := covers.close parts
  newClass covers := covers.newClass
  newInstance covers := covers.newInstance
  builds covers known every answer := covers.build known every answer
  remembers covers shown := { covers with
    past := fun call there => (Array.mem_push.1 there).elim (covers.past call) fun same => same ▸ shown }

end Lox
