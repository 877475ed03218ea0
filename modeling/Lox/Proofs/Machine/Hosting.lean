import Lox.Machine.State
import Lox.Proofs.Compile.Format

/-!
# Functions of the host

A function of the host can keep what it has seen, look into objects, and make objects of its own that
refer to what it has seen or to each other (`Value.From`).  What it cannot know by itself is which
closures there may be: a closure of its own making may have code that no compiler would emit, or
captured cells that do not belong to its code.  So it is a question of good manners which closures it
makes (`NativeBody.Makes`): copies of those that it has seen, and others that capture nothing, of functions
to be named.  Functions of accepted sources are among them, and maybe those without code (`NativeBody.Fair`).
-/

namespace Lox

open Compile

/-! ## Functions that closures may be made of -/

/-- The function is one of a source that has been accepted. -/
def Prototype.Accepted (q : Prototype) : Prop :=
  ∃ source strings serial p, (compile source strings serial).outcome = .ok p ∧ Contains p q

lemma Prototype.Accepted.compiled {q : Prototype} (accepted : q.Accepted) :
    ∃ Γ start items, Compiled q Γ start items := by
  obtain ⟨source, strings, serial, p, compiles, inside⟩ := accepted
  obtain ⟨Γ, v, items, -, compiled⟩ := compile_compiled compiles
  exact compiled.contains inside

/-- The function is one of an accepted source, and captures nothing. -/
structure Prototype.Standalone (p : Prototype) : Prop where
  accepted : p.Accepted
  captureCount : p.captureCount = 0

/-- The function has no code. -/
structure Prototype.Bare (p : Prototype) : Prop where
  captureCount : p.captureCount = 0
  chunk : p.chunk = .empty

/-- The closure has no code. -/
structure Closure.Bare (w : Closure) : Prop where
  captured : w.captured = #[]
  captureCount : w.prototype.captureCount = 0
  chunk : w.prototype.chunk = .empty

lemma Closure.Bare.copy {w w' : Closure} (bare : w.Bare) (prototype : w'.prototype = w.prototype)
    (captured : w'.captured = w.captured) : w'.Bare :=
  ⟨captured.trans bare.captured, prototype ▸ bare.captureCount, prototype ▸ bare.chunk⟩

/-! ## What is to be seen -/

/-- The values that were to be seen in a call. -/
inductive HostCall.Shows (call : HostCall) : Value → Prop where
  | argument {v} (there : v ∈ call.arguments) : Shows call v
  | answer {v} (there : call.answer? = some v) : Shows call v
  | field {t x v} (there : t ∈ call.fields) (found : t.find? x = some v) : Shows call v
  | method {t x w} (there : t ∈ call.methods) (found : t.find? x = some w) : Shows call (.closure w)

/-- The values that a function of the host sees: its arguments, what is in objects, and what was to be seen
in the calls before. -/
inductive Host.Sees (host : Host) (given : Array Value) : Value → Prop where
  | argument {v} (there : v ∈ given) : Sees host given v
  | field {t x v} (there : t ∈ host.fields) (found : t.find? x = some v) : Sees host given v
  | method {t x w} (there : t ∈ host.methods) (found : t.find? x = some w) : Sees host given (.closure w)
  | before {call v} (there : call ∈ host.past) (shown : call.Shows v) : Sees host given v

/-- No objects. -/
def NewObjects.none : NewObjects := ⟨#[], #[], #[], #[], 0, 0, 0⟩

/-- A value that consists of plain data, of what is to be seen, and of new objects. -/
inductive Value.From (host : Host) (given : Array Value) (new : NewObjects) : Value → Prop where
  | nil : From host given new .nil
  | bool (b : Bool) : From host given new (.bool b)
  | number (x : Float) : From host given new (.number x)
  | string (s : StringObject) : From host given new (.string s)
  | prototype (p : Prototype) : From host given new (.prototype p)
  | seen {v} (sees : host.Sees given v) : From host given new v
  | cls {serial r} (part : From host given new (.inst serial r)) : From host given new (.cls r)
  | receiver {serial v w} (part : From host given new (.bound serial v w)) : From host given new v
  | method {serial v w} (part : From host given new (.bound serial v w)) : From host given new (.closure w)
  | bound {v w} (serial : Nat) (first : From host given new v) (second : From host given new (.closure w)) :
      From host given new (.bound serial v w)
  | newClosure {i : Nat} {p captured} (made : new.closures[i]? = some (p, captured)) :
      From host given new (.closure ⟨host.nextClosure + i, p, captured⟩)
  | newClass {i : Nat} (made : i < new.methods.size) (name : String) :
      From host given new (.cls ⟨host.methods.size + i, name⟩)
  | newInstance {i : Nat} {r} (made : i < new.fields.size) (part : From host given new (.cls r)) :
      From host given new (.inst (host.fields.size + i) r)
  | newNative {i : Nat} (made : i < new.natives.size) (name : String) (arity : UInt8) :
      From host given new (.native ⟨host.nextNative + i, name, arity⟩)

/-! ## Manners -/

/-- A closure that may be made: a copy of one that is to be seen, or one that captures nothing. -/
inductive Closure.MayBeMade (made : Prototype → Prop) (host : Host) (given : Array Value) :
    Prototype → Array Nat → Prop where
  | copy {serial p captured} (known : Value.From host given .none (.closure ⟨serial, p, captured⟩)) :
      MayBeMade made host given p captured
  | new {p} (may : made p) : MayBeMade made host given p #[]

/-- The new objects consist of what may be referred to. -/
structure NewObjects.Fair (made : Prototype → Prop) (host : Host) (given : Array Value) (new : NewObjects) :
    Prop where
  closures : ∀ {i : Nat} {p captured}, new.closures[i]? = some (p, captured) →
    Closure.MayBeMade made host given p captured
  methods : ∀ t ∈ new.methods, ∀ x w, t.find? x = some w → Value.From host given new (.closure w)
  fields : ∀ t ∈ new.fields, ∀ x v, t.find? x = some v → Value.From host given new v

/-- What a function of the host may answer: what it has seen, and new objects. -/
def Blueprint.Fair (made : Prototype → Prop) (host : Host) (given : Array Value) : Blueprint → Prop
  | .value v => v.From host given .none
  | .closure name | .bound name => ∀ serial, made ⟨serial, name, 0, 0, .empty⟩
  | .objects new v => new.Fair made host given ∧ v.From host given new
  | _ => True

/-- The function of the host makes up no references, and no closures but of certain functions. -/
def NativeBody.Makes (made : Prototype → Prop) (body : NativeBody) : Prop :=
  ∀ host given blueprint, body host given = .ok blueprint → blueprint.Fair made host given

/-- The function of the host makes closures of nothing but functions of accepted sources, and maybe of functions
without code. -/
def NativeBody.Fair (bare : Prop) (body : NativeBody) : Prop :=
  body.Makes fun p => p.Standalone ∨ bare ∧ p.Bare

/-- The classes that come from the function of the host have methods as they may have. -/
def NativeBody.Classes (N : Table Closure → Prop) (body : NativeBody) : Prop :=
  ∀ host given new v, body host given = .ok (.objects new v) → ∀ t ∈ new.methods, N t

section Manners

variable {made made' : Prototype → Prop} {host : Host} {given : Array Value}

lemma Closure.MayBeMade.mono {p : Prototype} {captured : Array Nat}
    (h : Closure.MayBeMade made host given p captured) (weaker : ∀ p, made p → made' p) :
    Closure.MayBeMade made' host given p captured := by
  cases h with
  | copy known => exact .copy known
  | new may => exact .new (weaker _ may)

lemma Blueprint.Fair.mono {b : Blueprint} (h : b.Fair made host given) (weaker : ∀ p, made p → made' p) :
    b.Fair made' host given := by
  cases b with
  | closure | bound => exact fun serial => weaker _ (h serial)
  | objects new v => exact ⟨{ h.1 with closures := fun there => (h.1.closures there).mono weaker }, h.2⟩
  | _ => exact h

lemma NativeBody.Makes.mono {body : NativeBody} (h : body.Makes made) (weaker : ∀ p, made p → made' p) :
    body.Makes made' :=
  fun host given blueprint answer => (h host given blueprint answer).mono weaker

lemma NativeBody.Fair.mono {bare bare' : Prop} {body : NativeBody} (h : body.Fair bare) (weaker : bare → bare') :
    body.Fair bare' :=
  NativeBody.Makes.mono h fun _ => Or.imp_right (And.imp_left weaker)

/-- A function of the host that answers with plain data only. -/
lemma makes_of_plain {body : NativeBody}
    (plain : ∀ host given blueprint, body host given = .ok blueprint →
      ∃ v, blueprint = .value v ∧ v.From host given .none) : body.Makes made := by
  intro host given blueprint answer
  obtain ⟨v, rfl, from_⟩ := plain host given blueprint answer
  exact from_

lemma givesNil_makes : Machine.givesNil.Makes made :=
  makes_of_plain fun _ _ _ answer => ⟨.nil, (Except.ok.inj answer).symm, .nil⟩

lemma givesNil_classes {N : Table Closure → Prop} : Machine.givesNil.Classes N :=
  fun _ _ _ _ answer => nomatch answer

/-- What functions of the host do holds of those that a machine has and of those that are made. -/
lemma Machine.bodyOf_of {m : Machine} {P : NativeBody → Prop} (every : ∀ body ∈ m.natives, P body)
    (none : P Machine.givesNil) (serial : Nat) : P (m.bodyOf serial) := by
  unfold Machine.bodyOf
  cases known : m.natives[serial]? with
  | none => exact none
  | some body => exact every body (Array.mem_of_getElem? known)

/-- What functions of the host do holds of all when objects have been made. -/
lemma Machine.natives_extend {m : Machine} {P : NativeBody → Prop} (every : ∀ body ∈ m.natives, P body)
    (none : P Machine.givesNil) (new : NewObjects) : ∀ body ∈ (m.extend new).natives, P body := by
  intro body there
  rcases Array.mem_append.1 there with old | made
  · exact every body old
  · obtain ⟨serial, -, rfl⟩ := Array.mem_map.1 made
    exact bodyOf_of every none serial

end Manners

/-- A function of the host that makes a closure of any function, without captured cells.  The function may depend on
its serial number. -/
def handOut (p : Nat → Prototype) : NativeBody := fun host _ =>
  let p := p host.nextPrototype
  .ok (.objects { NewObjects.none with closures := #[(p, #[])], prototypes := 1 } (.closure ⟨host.nextClosure, p, #[]⟩))

/-- A function without parameters, with any code in one line. -/
def Prototype.ofCode (captureCount : Nat) (constants : Array Constant) (code : Array UInt8) (serial : Nat) :
    Prototype :=
  ⟨serial, "f", 0, captureCount, ⟨code, code.map fun _ => 1, constants⟩⟩

/-! ## Calls that are over -/

namespace Machine

variable {P : Value → Prop} {m : Machine} {given : Array Value}

/-- What holds of all values that there are holds of what a function of the host sees. -/
lemma sees_of (fields : ∀ t ∈ m.fields, ∀ x v, t.find? x = some v → P v)
    (methods : ∀ t ∈ m.methods, ∀ x w, t.find? x = some w → P (.closure w))
    (past : ∀ call ∈ m.hostCalls, ∀ v, call.Shows v → P v) (every : ∀ v ∈ given, P v) {self : Nat} {v : Value}
    (sees : (m.host self).Sees given v) : P v := by
  cases sees with
  | argument there => exact every _ there
  | field there found => exact fields _ there _ _ found
  | method there found => exact methods _ there _ _ found
  | before there shown => exact past _ there _ shown

/-- What holds of all values that there are holds of what a call shows. -/
lemma shows_of (fields : ∀ t ∈ m.fields, ∀ x v, t.find? x = some v → P v)
    (methods : ∀ t ∈ m.methods, ∀ x w, t.find? x = some w → P (.closure w)) (every : ∀ v ∈ given, P v)
    {answer? : Option Value} (answer : ∀ v ∈ answer?, P v) {function : Nat} {v : Value}
    (shown : HostCall.Shows ⟨function, given, answer?, m.methods, m.fields⟩ v) : P v := by
  cases shown with
  | argument there => exact every _ there
  | answer there => exact answer _ there
  | field there found => exact fields _ there _ _ found
  | method there found => exact methods _ there _ _ found

end Machine

end Lox
