import Lox.Proofs.Compile.Loops
import Lox.Proofs.Machine.Disassembly
import Lox.Proofs.Session.Provenance
import Lox.Proofs.Session.Sharing

/-!
# Turns of loops

A turn of a loop with a variable of its own starts with a copy of the variable on top of the stack
(`Reached.copies`).  The call then stays in the body, with the calls that it makes above the copy
(`Reached.turn_goesOn`), and closures that capture the variable have one cell, which is new and open for the place
of the copy (`Opens.fresh`, `Opens.unique`).  It is closed at the end of the body (`Reached.turn_over`), by a return
(`Reached.turn_returns`) and at the end of the run (`Reached.turn_stops`).  From the end of the body control flow
comes to the next turn by the increment and the condition (`Reached.head_step`), and the variable changes only by
assignments there (`Reached.head_writes`).
-/

namespace Lox

open Compile Syntax Machine

/-- The call `f` is in a part of its code, and the calls that it has led to have their places from `low` on. -/
def Frame.In (f : Frame) (callers : List Frame) (low : Nat) (part : Nat → Prop) (frames : List Frame) : Prop :=
  ∃ inner o, frames = inner ++ { f with ip := o } :: callers ∧ part o ∧ ∀ g ∈ inner, low ≤ g.base

/-- The captured variables of a call have cells. -/
lemma Calls.captured_lt {c : Census} {f : Frame} {T : Surroundings} {E : Shapes} (calls : Calls c f T E) :
    ∀ cell ∈ f.closure.captured, cell < c.cells.length := by
  intro cell there
  obtain ⟨i, there⟩ := Array.getElem?_of_mem there
  exact (List.getElem?_eq_some_iff.1 (calls.captures.cells i cell there)).1

lemma Suspended.captured_lt {c : Census} {S : List Slot} {frames : List Frame} (suspended : Suspended c S frames) :
    ∀ f ∈ frames, ∀ cell ∈ f.closure.captured, cell < c.cells.length := by
  induction suspended with
  | nil => exact List.forall_mem_nil _
  | cons calls _ _ _ ih => exact List.forall_mem_cons.2 ⟨calls.captured_lt, ih⟩

namespace Machine

variable {bare : Prop} {m m' : Machine} {f g : Frame} {callers rest : List Frame} {i : Instr} {a : Unit}
  {low slot cell : Nat} {v : Value} {part done : Nat → Prop}

/-! ## Steps -/

/-- Whatever there is in a machine that is in order, nothing is asked of its closures. -/
lemma holds_any (intact : Intact bare m) : Holds (fun _ => True) m := by
  obtain ⟨c, S, memory⟩ := intact
  exact memory.holds fun _ _ => trivial

/-- What becomes of the calls in a step. -/
lemma Executes.passage (executes : m.Executes g rest i) (ready : Ready bare m) (ordered : m.Ordered)
    (result : m.step = .ok a m') :
    Passage (fun _ => True) m.stack.size (g.ip + i.size) g rest i m'.frames := by
  rw [executes.step] at result
  have holds : Holds (fun _ => True) (m.past g rest i) := (holds_any ready.intact).of_same rfl rfl rfl rfl rfl rfl rfl
  have frames : (m.past g rest i).frames = { g with ip := g.ip + i.size } :: rest := rfl
  exact (holds.goesOn (fun _ => trivial) (ordered.of_same rfl rfl) frames (fun _ calls => executes.calls_le calls)
    (fun _ _ _ _ _ _ => trivial) result).2

/-- The height of the stack above the place of the running call is that of the place in its code. -/
lemma Ready.height (ready : Ready bare m) (frames : m.frames = f :: callers) (proper : ¬ f.closure.Bare) :
    ∃ k, Reaches f.closure.prototype f.ip k ∧ m.stack.size = f.base + k := by
  rcases ready with ⟨c, T, E, f', callers', below, σ, there, active⟩ | ⟨-, c, S, f', callers', frames', none, -⟩
  · obtain ⟨rfl, -⟩ := List.cons.inj (frames.symm.trans active.frames)
    refine ⟨σ.height, active.calls.fits.reaches there, ?_⟩
    rw [← active.memory.stack.size, List.length_append, active.base, Nat.add_comm]
    rfl
  · obtain ⟨rfl, -⟩ := List.cons.inj (frames.symm.trans frames')
    exact absurd none proper

/-- The next step assigns a value to the local variable at a place, be it captured or not. -/
def Writes (m : Machine) (slot : Nat) (v : Value) : Prop :=
  m.Assigns slot v ∨ m.stack.back? = some v ∧ ∃ f callers index, m.frames = f :: callers ∧
    f.closure.prototype.chunk.instrAt? f.ip = some (.setLocal index) ∧ f.base + index.toNat = slot

/-- Only two instructions assign to local variables. -/
lemma not_writes (frames : m.frames = f :: callers) (decoded : f.closure.prototype.chunk.instrAt? f.ip = some i)
    (other : ∀ index, i ≠ .setUpvalue index) (other' : ∀ index, i ≠ .setLocal index) (v : Value) :
    ¬ m.Writes slot v := by
  rintro (assigns | ⟨-, f', callers', index, frames', decoded', -⟩)
  · exact not_assigns frames decoded other slot v assigns
  · obtain ⟨rfl, rfl⟩ := List.cons.inj (frames.symm.trans frames')
    exact other' index (Option.some.inj (decoded.symm.trans decoded'))

/-- A place below all that the instruction takes off has the value that it had, or else the one that the step
assigns to it. -/
lemma Executes.place (executes : m.Executes f callers i) (result : m.step = .ok a m')
    (lower : slot + i.pops < m.stack.size) (above : i = .ret → slot < f.base) :
    (∀ v, ¬ m.Writes slot v) ∧ m'.stack[slot]? = m.stack[slot]? ∨
      ∃ v, m.Writes slot v ∧ m'.stack[slot]? = some v := by
  rw [executes.step] at result
  have unwritten (other : ∀ index, i ≠ .setUpvalue index) (other' : ∀ index, i ≠ .setLocal index) :
      ∀ v, ¬ m.Writes slot v := not_writes executes.frames executes.decoded other other'
  have below : (i.IsPlain ∨ ∃ taken, i.Calls taken) → m'.stack[slot]? = m.stack[slot]? := fun kind =>
    exec_below (m := m.past f callers i) rfl kind result lower
  have inside : slot < m.stack.size := Nat.lt_of_le_of_lt (Nat.le_add_right _ _) lower
  cases i with
  | setLocal index =>
    obtain ⟨v, top, -, rfl⟩ := exec_setLocal_ok rfl result
    by_cases same : f.base + index.toNat = slot
    · subst same
      exact .inr ⟨v, .inr ⟨top, f, callers, index, executes.frames, executes.decoded, rfl⟩,
        Array.getElem?_setIfInBounds_self_of_lt inside⟩
    · refine .inl ⟨fun w => ?_, Array.getElem?_setIfInBounds_ne same⟩
      rintro (⟨g, rest, index', cell, frames', decoded', -⟩ | ⟨-, g, rest, index', frames', decoded', place⟩) <;>
        obtain ⟨rfl, rfl⟩ := List.cons.inj (executes.frames.symm.trans frames') <;>
        cases executes.decoded.symm.trans decoded'
      exact same place
  | setUpvalue index =>
    have others (cell : Nat) (captured : f.closure.captured[index.toNat]? = some cell)
        (elsewhere : m.cells[cell]? ≠ some (.opened slot)) (w : Value) : ¬ m.Writes slot w := by
      rintro (⟨g, rest, index', cell', frames', decoded', captured', opened, -⟩ |
          ⟨-, g, rest, index', frames', decoded', -⟩) <;>
        obtain ⟨rfl, rfl⟩ := List.cons.inj (executes.frames.symm.trans frames') <;>
        cases executes.decoded.symm.trans decoded'
      cases captured.symm.trans captured'
      exact elsewhere opened
    obtain ⟨cell, v, captured, top, ⟨⟨w, closed⟩, rfl⟩ | ⟨slot', opened, -, rfl⟩⟩ := exec_setUpvalue_ok rfl result
    · exact .inl ⟨others cell captured fun opened => (nomatch closed.symm.trans opened), rfl⟩
    · by_cases same : slot' = slot
      · subst same
        exact .inr ⟨v, .inl ⟨f, callers, index, cell, executes.frames, executes.decoded, captured, opened, top⟩,
          Array.getElem?_setIfInBounds_self_of_lt inside⟩
      · refine .inl ⟨others cell captured fun opened' => ?_, Array.getElem?_setIfInBounds_ne same⟩
        exact same (Cell.opened.inj (Option.some.inj (opened.symm.trans opened')))
  | ret =>
    have zero := executes.zero f (executes.frames ▸ List.mem_cons_self)
    refine .inl ⟨unwritten nofun nofun, ?_⟩
    exact (ret_moves executes.decoded (Nat.le_of_lt zero) result).1 slot (above rfl)
  | call | invoke | superInvoke => exact .inl ⟨unwritten nofun nofun, below (.inr ⟨_, by constructor⟩)⟩
  | _ => exact .inl ⟨unwritten nofun nofun, below (.inl trivial)⟩

/-! ## Captures -/

variable {capture : Capture} {w : Closure} {k : Nat}

/-- The step makes a closure in a call, and this is one of its captures. -/
def CapturesAs (m m' : Machine) (g : Frame) (w : Closure) (k : Nat) (capture : Capture) : Prop :=
  ∃ captures, m.Encloses m' g captures w ∧ captures[k]? = some capture

/-- A new closure has a cell for each capture. -/
lemma Encloses.takes {captures : List Capture} (encloses : m.Encloses m' g captures w) (ordered : m.Ordered)
    (result : m.step = .ok () m') : List.Forall₂ (m'.Takes g) captures w.captured.toList := by
  obtain ⟨callers, index, frames, decoded, top⟩ := encloses
  obtain ⟨g', callers', i, frames', decoded', executes⟩ := step_executes result
  obtain ⟨rfl, rfl⟩ := List.cons.inj (frames.symm.trans frames')
  obtain rfl := Option.some.inj (decoded.symm.trans decoded')
  obtain ⟨w', openCells, cells, nextClosure, rfl, -, takes, -⟩ :=
    closure_made (m := m.past g callers (.closure index captures)) rfl (ordered.of_same rfl rfl) executes
  obtain rfl : w' = w := Value.closure.inj (Option.some.inj ((Array.back?_push ..).symm.trans top))
  exact takes

/-- The closure gets the cell that the capture asks for. -/
lemma CapturesAs.takes (capturing : m.CapturesAs m' g w k capture) (ordered : m.Ordered) (result : m.step = .ok () m') :
    ∃ cell, w.captured[k]? = some cell ∧ m'.Takes g capture cell := by
  obtain ⟨captures, encloses, there⟩ := capturing
  have takes := encloses.takes ordered result
  obtain ⟨bound, rfl⟩ := List.getElem?_eq_some_iff.1 there
  have bound' : k < w.captured.toList.length := takes.length_eq ▸ bound
  refine ⟨w.captured.toList[k], ?_, takes.get bound bound'⟩
  rw [← Array.getElem?_toList, List.getElem?_eq_getElem bound']

/-- Each cell of a new closure is one that a capture asks for. -/
lemma Encloses.captures {captures : List Capture} (encloses : m.Encloses m' g captures w) (ordered : m.Ordered)
    (result : m.step = .ok () m') (there : w.captured[k]? = some cell) :
    ∃ capture, m.CapturesAs m' g w k capture ∧ m'.Takes g capture cell := by
  have takes := encloses.takes ordered result
  rw [← Array.getElem?_toList] at there
  obtain ⟨bound, rfl⟩ := List.getElem?_eq_some_iff.1 there
  have bound' : k < captures.length := takes.length_eq ▸ bound
  exact ⟨captures[k], ⟨captures, encloses, List.getElem?_eq_getElem bound'⟩, takes.get bound' bound⟩

end Machine

section Calls

variable {m m' : Machine} {f g : Frame} {callers rest : List Frame} {i : Instr} {low : Nat} {part done : Nat → Prop}

/-- If the instructions in a part of a call do not go below a place, and lead to the part again or to where it is
done, the call stays in the part until it is done or returns. -/
lemma Frame.In.step {G : Closure → Prop} (inside : f.In callers low part m.frames)
    (executes : m.Executes g rest i)
    (passage : Passage G m.stack.size (g.ip + i.size) g rest i m'.frames)
    (own : ∀ o, m.frames = { f with ip := o } :: callers → f.closure.prototype.chunk.instrAt? o = some i → part o →
      low + i.pops ≤ m.stack.size ∧ part (o + i.size) ∧ ∀ t, i.Leads (o + i.size) t → part t ∨ done t) :
    f.In callers low part m'.frames ∨ (∃ t, m'.frames = { f with ip := t } :: callers ∧ done t) ∨
      m'.frames = callers ∧ i = .ret ∧ ∃ o, m.frames = { f with ip := o } :: callers := by
  obtain ⟨inner, o, frames, here, above⟩ := inside
  have calls := executes.frames.symm.trans frames
  generalize after : m'.frames = frames' at passage
  cases inner with
  | nil =>
    obtain ⟨rfl, rfl⟩ := List.cons.inj calls
    obtain ⟨enough, next, leads⟩ := own o frames executes.decoded here
    cases passage with
    | @goesOn t place _ =>
      rcases place with rfl | jumps
      · exact .inl ⟨[], _, rfl, next, List.forall_mem_nil _⟩
      · rcases leads t jumps with there | finished
        · exact .inl ⟨[], t, rfl, there, List.forall_mem_nil _⟩
        · exact .inr (.inl ⟨t, rfl, finished⟩)
    | @enters w base taken calls place _ =>
      refine .inl ⟨[⟨w, 0, base⟩], _, rfl, next, List.forall_mem_singleton.2 ?_⟩
      rw [calls.pops] at enough
      show low ≤ base
      omega
    | returns same => exact .inr (.inr ⟨rfl, same, o, frames⟩)
  | cons h inner =>
    obtain ⟨rfl, rfl⟩ := List.cons.inj calls
    obtain ⟨lower, others⟩ := List.forall_mem_cons.1 above
    cases passage with
    | goesOn => exact .inl ⟨_ :: inner, o, rfl, here, List.forall_mem_cons.2 ⟨lower, others⟩⟩
    | @enters w base taken calls place _ =>
      have zero := executes.zero g (executes.frames ▸ List.mem_cons_self)
      rw [calls.pops] at zero
      refine .inl ⟨⟨w, 0, base⟩ :: _ :: inner, o, rfl, here, List.forall_mem_cons.2 ⟨?_, List.forall_mem_cons.2
        ⟨lower, others⟩⟩⟩
      show low ≤ base
      omega
    | returns => exact .inl ⟨inner, o, rfl, here, others⟩

/-- The frames of a part end in that of its call. -/
lemma Frame.In.length {frames : List Frame} (inside : f.In callers low part frames) :
    callers.length < frames.length := by
  obtain ⟨inner, o, rfl, -⟩ := inside
  rw [List.length_append, List.length_cons]
  omega

/-- The running call is the one that is in the part. -/
lemma Frame.In.running {o : Nat} (inside : f.In callers low part ({ f with ip := o } :: callers)) : part o := by
  obtain ⟨inner, o', same, there, -⟩ := inside
  obtain rfl : inner = [] := by
    have length := congrArg List.length same
    rw [List.length_append, List.length_cons, List.length_cons] at length
    exact List.length_eq_zero_iff.1 (by omega)
  obtain ⟨first, -⟩ := List.cons.inj same
  have same : o = o' := congrArg Frame.ip first
  rwa [same]

end Calls

/-- The operands that stand for the variable and the copy. -/
lemma Prototype.CodesTurn.operands {q : Prototype} {place : LoopPlace} (code : q.CodesTurn place) :
    (UInt8.ofNat place.slot).toNat = place.slot ∧ (UInt8.ofNat (place.slot + 1)).toNat = place.slot + 1 := by
  have fits : place.slot + 2 ≤ UInt8.size := code.fits
  exact ⟨UInt8.toNat_ofNat_of_lt' (by omega), UInt8.toNat_ofNat_of_lt' (by omega)⟩

/-! ## Loops -/

section Loops

variable {bare : Prop} {m m' : Machine} {f g : Frame} {callers rest : List Frame} {i : Instr} {o : Nat}
  {l : VariableLoop} {place : LoopPlace}

/-- A function with a loop has code. -/
lemma Prototype.HasLoop.proper {w : Closure} (loop : w.prototype.HasLoop l place) : ¬ w.Bare := fun bare =>
  nomatch loop.codesTurn.copies.symm.trans (bare.instrAt? place.turn)

/-- In the body of a loop, where the stack is at least as high as the variables are many. -/
lemma Machine.Ready.body_flow (ready : Ready bare m) (loop : f.closure.prototype.HasLoop l place)
    (frames : m.frames = { f with ip := o } :: callers) (decoded : f.closure.prototype.chunk.instrAt? o = some i)
    (body : place.Body o) (inside : o ≠ place.finish) :
    f.base + place.slot + 2 + i.pops ≤ m.stack.size ∧ place.Body (o + i.size) ∧
      ∀ t, i.Leads (o + i.size) t → place.Body t := by
  obtain ⟨k, reaches, size⟩ := ready.height (f := { f with ip := o }) frames loop.proper
  obtain ⟨enough, next, leads⟩ := loop.body_flow reaches decoded body inside
  have size : m.stack.size = f.base + k := size
  exact ⟨by omega, next, leads⟩

lemma Machine.Ready.head_flow (ready : Ready bare m) (loop : f.closure.prototype.HasLoop l place)
    (frames : m.frames = { f with ip := o } :: callers) (decoded : f.closure.prototype.chunk.instrAt? o = some i)
    (head : place.Head o) (inside : o ≠ place.turn) :
    f.base + place.slot + 1 + i.pops ≤ m.stack.size ∧ i ≠ .ret ∧ place.Head (o + i.size) ∧
      ∀ t, i.Leads (o + i.size) t → place.Head t ∨ t = place.exit := by
  obtain ⟨k, reaches, size⟩ := ready.height (f := { f with ip := o }) frames loop.proper
  obtain ⟨enough, others, next, leads⟩ := loop.head_flow reaches decoded head inside
  have size : m.stack.size = f.base + k := size
  exact ⟨by omega, others, next, leads⟩

/-- A step in the body of a loop stays there and does not give up the place of the copy, unless the body is over or the
call returns. -/
lemma Frame.In.body_step (inside : f.In callers (f.base + place.slot + 2) place.Body m.frames)
    (loop : f.closure.prototype.HasLoop l place) (executes : m.Executes g rest i) (ready : Ready bare m)
    (ordered : m.Ordered) (result : m.step = .ok () m') :
    f.In callers (f.base + place.slot + 2) place.Body m'.frames ∧ ¬ m.Discards (f.base + place.slot + 1) ∨
      m.frames = { f with ip := place.finish } :: callers ∨
      m'.frames = callers ∧ ∃ o, m.frames = { f with ip := o } :: callers ∧
        f.closure.prototype.chunk.instrAt? o = some .ret := by
  by_cases finish : m.frames = { f with ip := place.finish } :: callers
  · exact .inr (.inl finish)
  have own : ∀ o, m.frames = { f with ip := o } :: callers → f.closure.prototype.chunk.instrAt? o = some i →
      place.Body o → f.base + place.slot + 2 + i.pops ≤ m.stack.size ∧ place.Body (o + i.size) ∧
        ∀ t, i.Leads (o + i.size) t → place.Body t ∨ False := fun o frames decoded body => by
    obtain ⟨enough, next, leads⟩ := ready.body_flow loop frames decoded body fun same => finish (same ▸ frames)
    exact ⟨enough, next, fun t jumps => .inl (leads t jumps)⟩
  rcases inside.step executes (executes.passage ready ordered result) own with
    stays | ⟨t, -, none⟩ | ⟨returns, rfl, o, frames⟩
  · refine .inl ⟨stays, ?_⟩
    obtain ⟨inner, o, frames, body, above⟩ := inside
    rintro ⟨g', rest', frames', discards⟩
    obtain ⟨rfl, rfl⟩ := List.cons.inj (executes.frames.symm.trans frames')
    cases inner with
    | nil =>
      obtain ⟨rfl, rfl⟩ := List.cons.inj (executes.frames.symm.trans frames)
      obtain ⟨enough, -⟩ := own o frames executes.decoded body
      rcases discards with ⟨decoded, size⟩ | ⟨decoded, -⟩
      · obtain rfl := Option.some.inj (executes.decoded.symm.trans decoded)
        rw [Instr.pops] at enough
        omega
      · obtain rfl := Option.some.inj (executes.decoded.symm.trans decoded)
        have passage := executes.passage ready ordered result
        generalize m'.frames = after at passage stays
        cases passage with
        | goesOn _ other => exact other rfl
        | enters calls => cases calls
        | returns => exact Nat.lt_irrefl _ stays.length
    | cons h inner =>
      obtain ⟨rfl, rfl⟩ := List.cons.inj (executes.frames.symm.trans frames)
      have lower := above g List.mem_cons_self
      rcases discards with ⟨decoded, size⟩ | ⟨-, low⟩
      · have zero := executes.zero g (executes.frames ▸ List.mem_cons_self)
        omega
      · omega
  · exact none.elim
  · obtain ⟨rfl, rfl⟩ := List.cons.inj (executes.frames.symm.trans frames)
    exact .inr (.inr ⟨returns, o, frames, executes.decoded⟩)

/-- A step in the condition or the increment of a loop stays there, unless the next turn starts or the loop is left. -/
lemma Frame.In.head_step (inside : f.In callers (f.base + place.slot + 1) place.Head m.frames)
    (loop : f.closure.prototype.HasLoop l place) (executes : m.Executes g rest i) (ready : Ready bare m)
    (ordered : m.Ordered) (result : m.step = .ok () m') :
    f.In callers (f.base + place.slot + 1) place.Head m'.frames ∨
      m.frames = { f with ip := place.turn } :: callers ∨ m'.frames = { f with ip := place.exit } :: callers := by
  by_cases turn : m.frames = { f with ip := place.turn } :: callers
  · exact .inr (.inl turn)
  have own : ∀ o, m.frames = { f with ip := o } :: callers → f.closure.prototype.chunk.instrAt? o = some i →
      place.Head o → f.base + place.slot + 1 + i.pops ≤ m.stack.size ∧ i ≠ .ret ∧ place.Head (o + i.size) ∧
        ∀ t, i.Leads (o + i.size) t → place.Head t ∨ t = place.exit := fun o frames decoded head =>
    ready.head_flow loop frames decoded head fun same => turn (same ▸ frames)
  rcases inside.step executes (executes.passage ready ordered result) (fun o frames decoded head => by
      obtain ⟨enough, -, next, leads⟩ := own o frames decoded head
      exact ⟨enough, next, leads⟩) with stays | ⟨t, leaves, rfl⟩ | ⟨-, rfl, o, frames⟩
  · exact .inl stays
  · exact .inr (.inr leaves)
  · have head : place.Head o := Frame.In.running (frames ▸ inside)
    obtain ⟨rfl, rfl⟩ := List.cons.inj (executes.frames.symm.trans frames)
    obtain ⟨-, goesOn, -⟩ := own o frames executes.decoded head
    exact absurd rfl goesOn

end Loops

namespace Session

variable {Admitted : NativeBody → Prop} {bare : Prop} {s s' s₁ s₂ : Session} {f : Frame} {callers : List Frame}
  {l : VariableLoop} {place : LoopPlace} {i j k n cell : Nat} {v : Value}

/-! ## Runs -/

/-- A step that goes on executes an instruction. -/
lemma Reached.executes_step (here : Reached (NativeBody.Fair bare) .running s) (goesOn : s.advance 1 = (none, s')) :
    ∃ m g rest i, Journaled s.machine m ∧ m.Executes g rest i ∧ m.step = .ok () s'.machine := by
  obtain ⟨m, journaled, step⟩ := advance_one goesOn
  rcases here.executes_or journaled with ⟨g, rest, i, executes⟩ | ⟨-, g, rest, defect, -, -, breaks⟩
  · exact ⟨m, g, rest, i, journaled, executes, step⟩
  · cases breaks.symm.trans step

/-- An instruction that neither jumps nor calls leads to the next one. -/
lemma Reached.falls {i : Instr} (here : Reached (NativeBody.Fair bare) .running s)
    (frames : s.machine.frames = f :: callers) (decoded : f.closure.prototype.chunk.instrAt? f.ip = some i)
    (stays : ∀ next t, ¬ i.Leads next t) (uncalled : ∀ taken, ¬ i.Calls taken) (other : i ≠ .ret)
    (goesOn : s.advance 1 = (none, s')) : s'.machine.frames = { f with ip := f.ip + i.size } :: callers := by
  obtain ⟨m, g, rest, i', journaled, executes, step⟩ := here.executes_step goesOn
  have passage := executes.passage (here.ready_step journaled) (journaled.keeps here.keeps).1 step
  obtain ⟨journal, rfl⟩ := journaled
  obtain ⟨rfl, rfl⟩ := List.cons.inj (frames.symm.trans executes.frames)
  obtain rfl := Option.some.inj (decoded.symm.trans executes.decoded)
  generalize after : s'.machine.frames = frames' at passage
  cases passage with
  | goesOn next =>
    rcases next with rfl | leads
    · rfl
    · exact absurd leads (stays _ _)
  | enters calls => exact absurd calls (uncalled _)
  | returns same => exact absurd same other

/-- In a turn that has started `k` steps ago, the call has been in the body of the loop since. -/
def InTurn (s : Session) (f : Frame) (callers : List Frame) (place : LoopPlace) (k : Nat) : Prop :=
  ∀ j, 1 ≤ j → j ≤ k → f.In callers (f.base + place.slot + 2) place.Body (s.after j).frames

/-- For `n` steps the call has been in the condition and the increment of the loop. -/
def InHead (s : Session) (f : Frame) (callers : List Frame) (place : LoopPlace) (n : Nat) : Prop :=
  ∀ j ≤ n, f.In callers (f.base + place.slot + 1) place.Head (s.after j).frames

lemma InTurn.mono (inTurn : s.InTurn f callers place k) (before : j ≤ k) : s.InTurn f callers place j :=
  fun i lower upper => inTurn i lower (upper.trans before)

lemma Reached.body_step (here : Reached (NativeBody.Fair bare) .running s) (goesOn : s.advance 1 = (none, s'))
    (loop : f.closure.prototype.HasLoop l place)
    (inside : f.In callers (f.base + place.slot + 2) place.Body s.machine.frames) :
    f.In callers (f.base + place.slot + 2) place.Body s'.machine.frames ∧
        ¬ s.machine.Discards (f.base + place.slot + 1) ∨
      s.machine.frames = { f with ip := place.finish } :: callers ∨
      s'.machine.frames = callers ∧ ∃ o, s.machine.frames = { f with ip := o } :: callers ∧
        f.closure.prototype.chunk.instrAt? o = some .ret := by
  obtain ⟨m, g, rest, i, journaled, executes, step⟩ := here.executes_step goesOn
  have ready := here.ready_step journaled
  obtain ⟨journal, rfl⟩ := journaled
  exact Frame.In.body_step (m := { s.machine with journal }) inside loop executes ready
    (here.ordered.of_same rfl rfl) step

lemma Reached.head_step (here : Reached (NativeBody.Fair bare) .running s) (goesOn : s.advance 1 = (none, s'))
    (loop : f.closure.prototype.HasLoop l place)
    (inside : f.In callers (f.base + place.slot + 1) place.Head s.machine.frames) :
    f.In callers (f.base + place.slot + 1) place.Head s'.machine.frames ∨
      s.machine.frames = { f with ip := place.turn } :: callers ∨
        s'.machine.frames = { f with ip := place.exit } :: callers := by
  obtain ⟨m, g, rest, i, journaled, executes, step⟩ := here.executes_step goesOn
  have ready := here.ready_step journaled
  obtain ⟨journal, rfl⟩ := journaled
  exact Frame.In.head_step (m := { s.machine with journal }) inside loop executes ready
    (here.ordered.of_same rfl rfl) step

/-! ## Captures -/

/-- The closure has captured the variable of a turn that starts in `s`, as its `k`-th capture: it has been made in the
body of the loop, or else by a closure that has captured the variable, or it is a copy of one that has. -/
inductive ClosesOver (Admitted : NativeBody → Prop) (s : Session) (f : Frame) (callers : List Frame)
    (place : LoopPlace) : Closure → Nat → Prop
  | body {n s₁ s₂ g w k capture} (inTurn : s.InTurn f callers place n) (goesOn : s.advance n = (none, s₁))
      (step : s₁.advance 1 = (none, s₂)) (capturing : s₁.machine.CapturesAs s₂.machine g w k capture)
      (inner : capture.isLocal = true) (own : g.base + capture.index.toNat = f.base + place.slot + 1) :
      ClosesOver Admitted s f callers place w k
  | within {s₁ s₂ g w k capture} (outer : ClosesOver Admitted s f callers place g.closure capture.index.toNat)
      (leads : Leads Admitted .running s .running s₁) (step : s₁.advance 1 = (none, s₂))
      (capturing : s₁.machine.CapturesAs s₂.machine g w k capture) (further : capture.isLocal = false) :
      ClosesOver Admitted s f callers place w k
  | copy {serial serial' p captured k} (known : ClosesOver Admitted s f callers place ⟨serial, p, captured⟩ k) :
      ClosesOver Admitted s f callers place ⟨serial', p, captured⟩ k

/-- At a step of the turn the cell is opened for the copy of the variable, or found open for it. -/
def Opens (s : Session) (f : Frame) (callers : List Frame) (place : LoopPlace) (n cell : Nat) : Prop :=
  s.InTurn f callers place n ∧ (∃ s₁, s.advance (n + 1) = (none, s₁)) ∧
    (s.after (n + 1)).cells[cell]? = some (.opened (f.base + place.slot + 1)) ∧
      ∃ g rest index captures, (s.after n).frames = g :: rest ∧
        g.closure.prototype.chunk.instrAt? g.ip = some (.closure index captures)

/-- All closures that have captured the variable have the cell of the first one. -/
lemma ClosesOver.opens {w : Closure} (here : Reached Admitted .running s)
    (closesOver : ClosesOver Admitted s f callers place w k) :
    ∃ n cell, s.Opens f callers place n cell ∧ w.captured[k]? = some cell := by
  induction closesOver with
  | @body n s₁ s₂ g w k capture inTurn goesOn step capturing inner own =>
    obtain ⟨m, ⟨journal, rfl⟩, result⟩ := advance_one step
    have there : Reached Admitted .running s₁ := here.turn (.advance goesOn)
    have calls : (s.after n) = s₁.machine := by rw [Session.after, goesOn]
    have next : s.advance (n + 1) = (none, s₂) := (advance_succ goesOn).trans step
    have calls' : (s.after (n + 1)) = s₂.machine := by rw [Session.after, next]
    obtain ⟨cell, captured, takes⟩ :=
      CapturesAs.takes (m := { s₁.machine with journal }) capturing (there.ordered.of_same rfl rfl) result
    rw [Takes, if_pos inner, own] at takes
    obtain ⟨captures, ⟨rest, index, frames, decoded, -⟩, -⟩ := capturing
    exact ⟨n, cell, ⟨inTurn, ⟨s₂, next⟩, calls' ▸ takes, g, rest, index, captures, calls ▸ frames, decoded⟩, captured⟩
  | @within s₁ s₂ g w k capture outer leads step capturing further ih =>
    obtain ⟨n, cell, opens, outside⟩ := ih
    obtain ⟨m, ⟨journal, rfl⟩, result⟩ := advance_one step
    have there : Reached Admitted .running s₁ := here.leads leads
    obtain ⟨cell', captured, takes⟩ :=
      CapturesAs.takes (m := { s₁.machine with journal }) capturing (there.ordered.of_same rfl rfl) result
    rw [Takes, further, if_neg Bool.false_ne_true] at takes
    obtain rfl := Option.some.inj (outside.symm.trans takes)
    exact ⟨n, cell, opens, captured⟩
  | copy _ ih => exact ih

/-- A cell that is open for the copy of the variable stays so during the turn. -/
lemma Reached.copy_kept (here : Reached (NativeBody.Fair bare) .running s) (loop : f.closure.prototype.HasLoop l place)
    (goesOn : s.advance k = (none, s')) (inTurn : s.InTurn f callers place k) (lower : 1 ≤ i) (before : i ≤ k)
    (opened : (s.after i).cells[cell]? = some (.opened (f.base + place.slot + 1))) :
    (s.after k).cells[cell]? = some (.opened (f.base + place.slot + 1)) := by
  rcases here.opened_until goesOn before (Nat.le_refl k) opened with ⟨-, still⟩ | ⟨⟨t, later, upper, discards⟩, -⟩
  · exact still
  · obtain ⟨t₁, t₂, -, step, same, same', there⟩ := here.after goesOn upper
    have inside := inTurn t (lower.trans later) (Nat.le_of_lt upper)
    have inside' := inTurn (t + 1) (Nat.succ_le_succ (Nat.zero_le t)) upper
    rw [← same] at discards inside
    rw [← same'] at inside'
    rcases there.body_step step loop inside with ⟨-, kept⟩ | finish | ⟨returns, -⟩
    · exact absurd discards kept
    · exact absurd discards (not_discards finish loop.codesTurn.reads nofun nofun)
    · exact absurd (returns ▸ inside'.length) (Nat.lt_irrefl _)

/-- What is captured in a turn is captured before it ends. -/
lemma Opens.before (opens : s.Opens f callers place n cell) (goesOn : s.advance k = (none, s₁))
    (ends : ∀ s₂, s₁.advance 1 = (none, s₂) →
      ¬ f.In callers (f.base + place.slot + 2) place.Body s₂.machine.frames ∧
        ∀ g rest index captures, s₁.machine.frames = g :: rest →
          g.closure.prototype.chunk.instrAt? g.ip ≠ some (.closure index captures)) : n < k := by
  obtain ⟨inTurn, ⟨s₃, runs⟩, -, g, rest, index, captures, frames, decoded⟩ := opens
  by_contra later
  obtain ⟨n, rfl⟩ := Nat.exists_eq_add_of_le (Nat.le_of_not_lt later)
  rw [Nat.add_right_comm] at runs
  obtain ⟨s₂, further, -⟩ := advance_add runs
  have step : s₁.advance 1 = (none, s₂) := (advance_succ goesOn).symm.trans further
  obtain ⟨outside, none⟩ := ends s₂ step
  cases n with
  | zero =>
    have same : s.after k = s₁.machine := by rw [Session.after, goesOn]
    exact none g rest index captures (same ▸ frames) decoded
  | succ n =>
    have inside := inTurn (k + 1) (Nat.succ_le_succ (Nat.zero_le k)) (by omega)
    have same : s.after (k + 1) = s₂.machine := by rw [Session.after, further]
    exact outside (same ▸ inside)

/-- The cell of the variable is open until the turn ends. -/
lemma Opens.open_at (opens : s.Opens f callers place n cell) (here : Reached (NativeBody.Fair bare) .running s)
    (loop : f.closure.prototype.HasLoop l place) (goesOn : s.advance k = (none, s₁))
    (inTurn : s.InTurn f callers place k) (before : n < k) :
    s₁.machine.cells[cell]? = some (.opened (f.base + place.slot + 1)) := by
  obtain ⟨-, -, opened, -⟩ := opens
  have kept := here.copy_kept loop goesOn inTurn (Nat.succ_le_succ (Nat.zero_le n)) before opened
  rwa [Session.after, goesOn] at kept

/-- There is one cell for the variable in a turn. -/
lemma Opens.unique {n' cell' : Nat} (opens : s.Opens f callers place n cell) (opens' : s.Opens f callers place n' cell')
    (here : Reached (NativeBody.Fair bare) .running s) (loop : f.closure.prototype.HasLoop l place) : cell = cell' := by
  wlog order : n ≤ n' generalizing n n' cell cell'
  · exact (this opens' opens (Nat.le_of_not_le order)).symm
  obtain ⟨-, -, opened, -⟩ := opens
  obtain ⟨inTurn, ⟨s₁, goesOn⟩, opened', g, rest, index, captures, frames, decoded⟩ := opens'
  obtain ⟨t₁, t₂, goesOn', step, same, same', there⟩ := here.after goesOn (Nat.lt_succ_self n')
  have ordered : (s.after (n' + 1)).Ordered := same' ▸ (there.turn (.advance step)).ordered
  rcases Nat.lt_or_eq_of_le order with earlier | rfl
  · have kept := here.copy_kept loop goesOn' inTurn (Nat.succ_le_succ (Nat.zero_le n)) earlier opened
    rw [← same] at kept frames
    rw [← same'] at opened' ordered
    rcases there.step_opened step kept with ⟨discards, -⟩ | ⟨-, still⟩
    · exact absurd discards (not_discards frames decoded nofun nofun)
    · exact ordered.unique still opened'
  · exact ordered.unique opened opened'

/-! ## The start of a turn -/

/-- The turn starts with a copy of the variable on top of it. -/
lemma Reached.copies (here : Reached (NativeBody.Fair bare) .running s) (loop : f.closure.prototype.HasLoop l place)
    (frames : s.machine.frames = f :: callers) (turn : f.ip = place.turn) (goesOn : s.advance 1 = (none, s')) :
    s.machine.stack.size = f.base + place.slot + 1 ∧ ∃ v, s.machine.stack[f.base + place.slot]? = some v ∧
      s'.machine.stack = s.machine.stack.push v ∧ s'.machine.frames = { f with ip := place.turn + 2 } :: callers := by
  have code := loop.codesTurn
  obtain ⟨k, reaches, size⟩ := here.fit.height frames loop.proper
  rw [turn] at reaches
  rw [loop.heights.1 k reaches] at size
  obtain ⟨-, m, ⟨journal, rfl⟩, executes⟩ := advance_executes here frames (turn ▸ code.copies) goesOn
  have executes : exec (Access.slot (UInt8.ofNat place.slot)).read _ = _ := executes
  obtain ⟨v, reads, same⟩ := read_ok rfl executes
  have value : s.machine.stack[f.base + (UInt8.ofNat place.slot).toNat]? = some v := reads
  rw [code.operands.1] at value
  refine ⟨size, v, value, ?_, ?_⟩
  · rw [same]
    rfl
  · rw [same, ← turn]
    rfl

/-- The cell of the variable is a new one. -/
lemma Opens.fresh (opens : s.Opens f callers place n cell) (here : Reached (NativeBody.Fair bare) .running s)
    (loop : f.closure.prototype.HasLoop l place) (frames : s.machine.frames = f :: callers) (turn : f.ip = place.turn) :
    s.machine.cells.size ≤ cell := by
  obtain ⟨-, ⟨s₁, goesOn⟩, opened, -⟩ := opens
  by_contra known
  have bound := Nat.lt_of_not_le known
  obtain ⟨k, reaches, size⟩ := here.fit.height frames loop.proper
  rw [turn] at reaches
  rw [loop.heights.1 k reaches] at size
  have entry : s.machine.cells[cell]? = some s.machine.cells[cell] := Array.getElem?_eq_getElem bound
  generalize s.machine.cells[cell] = content at entry
  cases content with
  | opened slot =>
    have alive := (here.intact.accounted here.ordered).alive entry
    rcases here.opened_until goesOn (Nat.zero_le _) (Nat.le_refl _) entry with ⟨-, still⟩ | ⟨-, v, closed⟩
    · have same := Cell.opened.inj (Option.some.inj (still.symm.trans opened))
      omega
    · cases closed.symm.trans opened
  | closed v =>
    obtain ⟨w, closed⟩ := (advance_evolves goesOn).closed entry
    rw [Session.after, goesOn] at opened
    cases closed.symm.trans opened

/-- The cells that calls have as captured variables exist, where the running one has code. -/
lemma Reached.captured_lt (here : Reached (NativeBody.Fair bare) .running s) (frames : s.machine.frames = f :: callers)
    (proper : ¬ f.closure.Bare) : ∀ g ∈ f :: callers, ∀ cell ∈ g.closure.captured, cell < s.machine.cells.size := by
  rcases here.fit with ⟨c, T, E, f', callers', below, σ, shape, active⟩ | ⟨-, c, S, f', callers', frames', none, -⟩
  · obtain ⟨rfl, rfl⟩ := List.cons.inj (frames.symm.trans active.frames)
    rw [← active.memory.cells.size]
    exact List.forall_mem_cons.2 ⟨active.calls.captured_lt, active.suspended.captured_lt⟩
  · obtain ⟨rfl, -⟩ := List.cons.inj (frames.symm.trans frames')
    exact absurd none proper

/-- The turn goes on until the body is over or the call returns. -/
lemma Reached.turn_goesOn (here : Reached (NativeBody.Fair bare) .running s)
    (loop : f.closure.prototype.HasLoop l place) (frames : s.machine.frames = f :: callers) (turn : f.ip = place.turn)
    (inTurn : s.InTurn f callers place k) (goesOn : s.advance k = (none, s₁)) (step : s₁.advance 1 = (none, s₂)) :
    s.InTurn f callers place (k + 1) ∨ s₁.machine.frames = { f with ip := place.finish } :: callers ∨
      s₂.machine.frames = callers ∧ ∃ o, s₁.machine.frames = { f with ip := o } :: callers ∧
        f.closure.prototype.chunk.instrAt? o = some .ret := by
  have next : (s.after (k + 1)) = s₂.machine := by rw [Session.after, advance_succ goesOn, step]
  have further (inside : f.In callers (f.base + place.slot + 2) place.Body s₂.machine.frames) :
      s.InTurn f callers place (k + 1) := fun j lower upper => by
    rcases Nat.lt_or_eq_of_le upper with earlier | rfl
    · exact inTurn j lower (Nat.le_of_lt_succ earlier)
    · exact next ▸ inside
  cases k with
  | zero =>
    obtain ⟨-, rfl⟩ := Prod.mk.inj goesOn
    obtain ⟨-, v, -, -, frames'⟩ := here.copies loop frames turn step
    exact .inl (further ⟨[], _, frames', loop.starts, List.forall_mem_nil _⟩)
  | succ k =>
    have inside := inTurn (k + 1) (Nat.succ_le_succ (Nat.zero_le k)) (Nat.le_refl _)
    rw [Session.after, goesOn] at inside
    have there : Reached (NativeBody.Fair bare) .running s₁ := here.turn (.advance goesOn)
    exact (there.body_step step loop inside).imp_left fun stays => further stays.1

/-! ## The end of a turn -/

/-- After the body the copy is put back and leaves the stack. -/
lemma Reached.finish_steps (here : Reached (NativeBody.Fair bare) .running s)
    (loop : f.closure.prototype.HasLoop l place)
    (frames : s.machine.frames = { f with ip := place.finish } :: callers) (goesOn : s.advance j = (none, s'))
    (early : j < 5) : ∃ o i, s'.machine.frames = { f with ip := o } :: callers ∧ place.finish + j ≤ o ∧
      f.closure.prototype.chunk.instrAt? o = some i ∧ i ≠ .ret ∧ ∀ index captures, i ≠ .closure index captures := by
  have code := loop.codesTurn
  obtain ⟨exit, leaves, kind⟩ := code.leaves
  obtain ⟨distance, back, -⟩ := code.back
  have size : exit.size = 1 := by rcases kind with rfl | rfl <;> rfl
  have next {o : Nat} {i : Instr} {k : Nat} {s₁ s₂ : Session} (goesOn₁ : s.advance k = (none, s₁))
      (frames₁ : s₁.machine.frames = { f with ip := o } :: callers)
      (decoded : f.closure.prototype.chunk.instrAt? o = some i) (stays : ∀ next t, ¬ i.Leads next t)
      (uncalled : ∀ taken, ¬ i.Calls taken) (other : i ≠ .ret) (step : s₁.advance 1 = (none, s₂)) :
      s₂.machine.frames = { f with ip := o + i.size } :: callers :=
    (here.turn (.advance goesOn₁)).falls (f := { f with ip := o }) frames₁ decoded stays uncalled other step
  have first {s₁ : Session} (goesOn : s.advance 1 = (none, s₁)) :
      s₁.machine.frames = { f with ip := place.finish + 2 } :: callers :=
    next (k := 0) rfl frames code.reads nofun nofun nofun goesOn
  have second {s₂ : Session} (goesOn : s.advance 2 = (none, s₂)) :
      s₂.machine.frames = { f with ip := place.finish + 4 } :: callers := by
    obtain ⟨s₁, before, step⟩ := advance_add (j := 1) (k := 1) goesOn
    exact next before (first before) code.writes nofun nofun nofun step
  have third {s₃ : Session} (goesOn : s.advance 3 = (none, s₃)) :
      s₃.machine.frames = { f with ip := place.finish + 5 } :: callers := by
    obtain ⟨s₂, before, step⟩ := advance_add (j := 2) (k := 1) goesOn
    exact next before (second before) code.drops nofun nofun nofun step
  have fourth {s₄ : Session} (goesOn : s.advance 4 = (none, s₄)) :
      s₄.machine.frames = { f with ip := place.finish + 6 } :: callers := by
    obtain ⟨s₃, before, step⟩ := advance_add (j := 3) (k := 1) goesOn
    have frames₄ := next before (third before) leaves (by rcases kind with rfl | rfl <;> exact nofun)
      (by rcases kind with rfl | rfl <;> exact nofun) (by rcases kind with rfl | rfl <;> exact nofun) step
    rwa [size] at frames₄
  match j with
  | 0 =>
    obtain ⟨-, rfl⟩ := Prod.mk.inj goesOn
    exact ⟨_, _, frames, Nat.le_refl _, code.reads, nofun, nofun⟩
  | 1 => exact ⟨_, _, first goesOn, by omega, code.writes, nofun, nofun⟩
  | 2 => exact ⟨_, _, second goesOn, by omega, code.drops, nofun, nofun⟩
  | 3 =>
    refine ⟨_, _, third goesOn, by omega, leaves, ?_⟩
    rcases kind with rfl | rfl <;> exact ⟨nofun, nofun⟩
  | 4 => exact ⟨_, _, fourth goesOn, by omega, back, nofun, nofun⟩

lemma setIfInBounds_push {α : Type} {S : Array α} {i : Nat} {v w : α} (bound : i < S.size) :
    (S.push v).setIfInBounds i w = (S.setIfInBounds i w).push v := by
  simp [Array.setIfInBounds, Array.set_push, bound, Nat.lt_succ_of_lt bound]

/-- When the body is over, the value of the copy is put back. -/
lemma Reached.puts_back (here : Reached (NativeBody.Fair bare) .running s) (loop : f.closure.prototype.HasLoop l place)
    (frames : s.machine.frames = { f with ip := place.finish } :: callers) (goesOn : s.advance 3 = (none, s')) :
    ∃ (S : Array Value) (v : Value), s.machine.stack = S.push v ∧ S.size = f.base + place.slot + 1 ∧
      s'.machine.stack = (S.setIfInBounds (f.base + place.slot) v).push v ∧
      s'.machine.frames = { f with ip := place.finish + 5 } :: callers ∧ s'.machine.cells = s.machine.cells := by
  have code := loop.codesTurn
  obtain ⟨k, reaches, size⟩ := here.fit.height (f := { f with ip := place.finish }) frames loop.proper
  have size : s.machine.stack.size = f.base + k := size
  rw [loop.heights.2.2 k reaches] at size
  obtain ⟨S, v, stack⟩ := Array.exists_push_of_size_eq_add_one (n := f.base + place.slot + 1) size
  have length : S.size = f.base + place.slot + 1 := by
    rw [stack, Array.size_push] at size
    omega
  have value : s.machine.stack[f.base + (place.slot + 1)]? = some v := by
    rw [stack, ← Nat.add_assoc, ← length, Array.getElem?_push_size]
  refine ⟨S, v, stack, length, ?_⟩
  obtain ⟨s₁, first, rest⟩ := advance_add (j := 1) (k := 2) goesOn
  obtain ⟨s₂, second, third⟩ := advance_add (j := 1) (k := 1) rest
  have here₁ := here.turn (.advance first)
  have here₂ := here₁.turn (.advance second)
  obtain ⟨-, m, ⟨journal, rfl⟩, executes⟩ := advance_executes here frames code.reads first
  have executes : exec (Access.slot (UInt8.ofNat (place.slot + 1))).read _ = _ := executes
  obtain ⟨w, reads, same⟩ := read_ok rfl executes
  have reads : s.machine.stack[f.base + (UInt8.ofNat (place.slot + 1)).toNat]? = some w := reads
  rw [code.operands.2, value] at reads
  obtain rfl := Option.some.inj reads
  have stack₁ : s₁.machine.stack = (S.push v).push v := by
    rw [same, ← stack]
    rfl
  have frames₁ : s₁.machine.frames = { f with ip := place.finish + 2 } :: callers := congrArg Machine.frames same
  obtain ⟨-, m, ⟨journal₁, rfl⟩, executes⟩ := advance_executes here₁ frames₁ code.writes second
  obtain ⟨w, top, -, same₁⟩ := exec_setLocal_ok (f := { f with ip := place.finish + 4 }) rfl executes
  have top : s₁.machine.stack.back? = some w := top
  rw [stack₁, Array.back?_push] at top
  obtain rfl := Option.some.inj top
  have stack₂ : s₂.machine.stack = ((S.setIfInBounds (f.base + place.slot) v).push v).push v := by
    rw [same₁]
    show s₁.machine.stack.setIfInBounds (f.base + (UInt8.ofNat place.slot).toNat) v = _
    rw [stack₁, code.operands.1, setIfInBounds_push (by rw [Array.size_push]; omega), setIfInBounds_push (by omega)]
  have frames₂ : s₂.machine.frames = { f with ip := place.finish + 4 } :: callers := congrArg Machine.frames same₁
  obtain ⟨-, m, ⟨journal₂, rfl⟩, executes⟩ := advance_executes here₂ frames₂ code.drops third
  have same₂ := exec_pop_ok (m := Machine.past { s₂.machine with journal := journal₂ } _ _ _) stack₂ executes
  refine ⟨by rw [same₂], congrArg Machine.frames same₂, ?_⟩
  rw [same₂]
  show s₂.machine.cells = s.machine.cells
  rw [same₁]
  show s₁.machine.cells = s.machine.cells
  rw [same]
  rfl

/-- When the copy leaves the stack, the cell of the variable is closed. -/
lemma Reached.leaves_copy {S : Array Value} (here : Reached (NativeBody.Fair bare) .running s)
    (loop : f.closure.prototype.HasLoop l place)
    (frames : s.machine.frames = { f with ip := place.finish + 5 } :: callers) (stack : s.machine.stack = S.push v)
    (goesOn : s.advance 1 = (none, s')) :
    s'.machine.stack = S ∧ s'.machine.frames = { f with ip := place.finish + 6 } :: callers ∧
      ∀ cell : Nat, s.machine.cells[cell]? = some (.opened S.size) → s'.machine.cells[cell]? = some (.closed v) := by
  obtain ⟨exit, decoded, kind⟩ := loop.codesTurn.leaves
  obtain ⟨-, m, ⟨journal, rfl⟩, executes⟩ := advance_executes here frames decoded goesOn
  rcases kind with rfl | rfl
  · have same := exec_pop_ok (m := Machine.past { s.machine with journal } _ _ _) stack executes
    refine ⟨by rw [same], congrArg Machine.frames same, fun cell opened => ?_⟩
    have lower := (here.executes (m := s.machine) (.refl _) frames decoded nofun).opened nofun opened
    rw [stack, Array.size_push] at lower
    exact absurd lower (Nat.lt_irrefl _)
  · obtain ⟨closing, openCells, -, same⟩ :=
      exec_closeUpvalue_ok (m := Machine.past { s.machine with journal } _ _ _) stack executes
    refine ⟨by rw [same], congrArg Machine.frames same, fun cell opened => ?_⟩
    obtain ⟨closes, -⟩ := closeUpvalue_closes (m := Machine.past { s.machine with journal } _ _ _)
      (here.ordered.of_same rfl rfl) executes
    obtain ⟨w, value, closed⟩ := closes.closes opened (by
      show s.machine.stack.size - 1 ≤ S.size
      rw [stack, Array.size_push]
      exact Nat.le_refl _)
    have value : s.machine.stack[S.size]? = some w := value
    rw [stack, Array.getElem?_push_size] at value
    rwa [Option.some.inj value]

/-- At the end of a turn, control flow goes back with the value of the copy in the variable, and the cell is closed. -/
lemma Reached.turn_over (here : Reached (NativeBody.Fair bare) .running s) (loop : f.closure.prototype.HasLoop l place)
    (frames : s.machine.frames = { f with ip := place.finish } :: callers) (goesOn : s.advance 5 = (none, s')) :
    ∃ v, s.machine.stack[f.base + place.slot + 1]? = some v ∧
      s'.machine.frames = { f with ip := place.again } :: callers ∧ s'.machine.stack.size = f.base + place.slot + 1 ∧
      s'.machine.stack[f.base + place.slot]? = some v ∧
      ∀ cell : Nat, s.machine.cells[cell]? = some (.opened (f.base + place.slot + 1)) →
        s'.machine.cells[cell]? = some (.closed v) := by
  obtain ⟨s₁, first, rest⟩ := advance_add (j := 3) (k := 2) goesOn
  obtain ⟨s₂, second, third⟩ := advance_add (j := 1) (k := 1) rest
  have here₁ := here.turn (.advance first)
  have here₂ := here₁.turn (.advance second)
  obtain ⟨S, v, stack, size, stack₁, frames₁, cells₁⟩ := here.puts_back loop frames first
  obtain ⟨stack₂, frames₂, closes⟩ := here₁.leaves_copy loop frames₁ stack₁ second
  obtain ⟨distance, decoded, leads⟩ := loop.codesTurn.back
  obtain ⟨-, m, ⟨journal, rfl⟩, executes⟩ := advance_executes here₂ frames₂ decoded third
  have stands : (Machine.past { s₂.machine with journal } { f with ip := place.finish + 6 } callers
      (.loop distance)).frames = { f with ip := place.finish + 9 } :: callers := rfl
  have leads : (Instr.loop distance).LeadsTo (place.finish + 9) place.again := leads
  have back := exec_taken stands leads trivial
  have same := (EStateM.Result.ok.inj (back.symm.trans executes)).2
  refine ⟨v, ?_, ?_, ?_, ?_, fun cell opened => ?_⟩
  · rw [stack, ← size, Array.getElem?_push_size]
  · rw [← same]
    rfl
  · rw [← same]
    show s₂.machine.stack.size = _
    rw [stack₂, Array.size_setIfInBounds, size]
  · rw [← same]
    show s₂.machine.stack[f.base + place.slot]? = some v
    rw [stack₂]
    exact Array.getElem?_setIfInBounds_self_of_lt (by omega)
  · rw [← same]
    refine closes cell ?_
    rw [Array.size_setIfInBounds, size, cells₁, opened]

/-- An open cell has the value in its place. -/
lemma Reached.open_value (here : Reached (NativeBody.Fair bare) .running s) {slot : Nat}
    (opened : s.machine.cells[cell]? = some (.opened slot)) :
    ∃ v, s.machine.stack[slot]? = some v ∧ s.machine.valueOf? cell = some v := by
  obtain ⟨v, value⟩ := (here.intact.accounted here.ordered).value (Array.getElem?_eq_some_iff.1 opened).1
  exact ⟨v, (valueOf?_opened opened).symm.trans value, value⟩

/-- If the call returns, the cell of the variable is closed. -/
lemma Reached.turn_returns (here : Reached (NativeBody.Fair bare) .running s) {o slot : Nat}
    (frames : s.machine.frames = { f with ip := o } :: callers)
    (decoded : f.closure.prototype.chunk.instrAt? o = some .ret) (goesOn : s.advance 1 = (none, s'))
    (opened : s.machine.cells[cell]? = some (.opened slot)) (above : f.base ≤ slot) :
    ∃ v, s.machine.stack[slot]? = some v ∧ s'.machine.cells[cell]? = some (.closed v) := by
  obtain ⟨v, there, value⟩ := here.open_value opened
  refine ⟨v, there, ?_⟩
  rcases here.step_opened goesOn opened with ⟨-, w, closed⟩ | ⟨other, -⟩
  · rcases here.values goesOn value with ⟨-, kept⟩ | ⟨w', gives, -⟩
    · rwa [Option.some.inj ((valueOf?_closed closed).symm.trans kept)] at closed
    · exact absurd gives (not_gives frames decoded nofun nofun)
  · exact absurd ⟨_, _, frames, .inr ⟨decoded, above⟩⟩ other

/-- If the run ends, the cell of the variable is closed. -/
lemma Reached.turn_stops (here : Reached (NativeBody.Fair bare) .running s) {slot : Nat} {stop : Stop}
    {outcome : Outcome} (stops : s.advance 1 = (some stop, s₁)) (finishes : s₁.finish stop = (outcome, s'))
    (sound : ∀ defect, outcome ≠ .defect defect) (opened : s.machine.cells[cell]? = some (.opened slot)) :
    ∃ v, s.machine.stack[slot]? = some v ∧ s'.machine.cells[cell]? = some (.closed v) := by
  obtain ⟨v, there, value⟩ := here.open_value opened
  refine ⟨v, there, ?_⟩
  have kept := (here.finish_valueOf? stops finishes sound cell).trans value
  have idle : s'.machine.Idle := (here.turn (.finish stops finishes sound)).keeps
  cases entry : s'.machine.cells[cell]? with
  | none =>
    rw [valueOf?, entry] at kept
    cases kept
  | some content =>
    obtain ⟨w, rfl⟩ := idle.cells content (Array.mem_of_getElem? entry)
    rw [Option.some.inj ((valueOf?_closed entry).symm.trans kept)]

/-! ## Between two turns -/

/-- After `n` steps the local variable at a place has the value that has last been assigned to it, or else the one that
it had. -/
def WrittenSince (s : Session) (n slot : Nat) (v v' : Value) : Prop :=
  (∀ t < n, ∀ w, ¬ (s.after t).Writes slot w) ∧ v' = v ∨
    ∃ t < n, (s.after t).Writes slot v' ∧ ∀ u, t < u → u < n → ∀ w, ¬ (s.after u).Writes slot w

/-- A step in the condition or the increment leaves the variable alone, or assigns to it. -/
lemma Reached.head_place (here : Reached (NativeBody.Fair bare) .running s) (goesOn : s.advance 1 = (none, s'))
    (loop : f.closure.prototype.HasLoop l place)
    (inside : f.In callers (f.base + place.slot + 1) place.Head s.machine.frames) :
    (∀ w, ¬ s.machine.Writes (f.base + place.slot) w) ∧
        s'.machine.stack[f.base + place.slot]? = s.machine.stack[f.base + place.slot]? ∨
      ∃ w, s.machine.Writes (f.base + place.slot) w ∧ s'.machine.stack[f.base + place.slot]? = some w := by
  obtain ⟨m, g, rest, i, journaled, executes, step⟩ := here.executes_step goesOn
  have ready := here.ready_step journaled
  obtain ⟨journal, rfl⟩ := journaled
  suffices f.base + place.slot + i.pops < s.machine.stack.size ∧ (i = .ret → f.base + place.slot < g.base) from
    executes.place step this.1 this.2
  obtain ⟨inner, o, frames, head, above⟩ := inside
  have calls := executes.frames.symm.trans frames
  cases inner with
  | nil =>
    obtain ⟨rfl, rfl⟩ := List.cons.inj calls
    by_cases turn : o = place.turn
    · subst turn
      obtain rfl := Option.some.inj (executes.decoded.symm.trans loop.codesTurn.copies)
      obtain ⟨k, reaches, size⟩ := ready.height (f := { f with ip := place.turn }) frames loop.proper
      have size : s.machine.stack.size = f.base + k := size
      rw [loop.heights.1 k reaches] at size
      refine ⟨?_, nofun⟩
      rw [Instr.pops]
      omega
    · obtain ⟨enough, other, -⟩ := ready.head_flow loop frames executes.decoded head turn
      have enough : f.base + place.slot + 1 + i.pops ≤ s.machine.stack.size := enough
      exact ⟨by omega, fun same => absurd same other⟩
  | cons h inner =>
    obtain ⟨rfl, rfl⟩ := List.cons.inj calls
    have lower := above g List.mem_cons_self
    have zero : g.base + i.pops < s.machine.stack.size := executes.zero g (executes.frames ▸ List.mem_cons_self)
    exact ⟨by omega, fun _ => by omega⟩

/-- Between two turns the variable changes only by assignments. -/
lemma Reached.head_writes {v : Value} (here : Reached (NativeBody.Fair bare) .running s)
    (loop : f.closure.prototype.HasLoop l place) (inHead : s.InHead f callers place n)
    (value : s.machine.stack[f.base + place.slot]? = some v) (goesOn : s.advance n = (none, s')) :
    ∃ v', s'.machine.stack[f.base + place.slot]? = some v' ∧ s.WrittenSince n (f.base + place.slot) v v' := by
  suffices ∀ t ≤ n, ∃ v', (s.after t).stack[f.base + place.slot]? = some v' ∧
      s.WrittenSince t (f.base + place.slot) v v' by
    obtain ⟨v', there, written⟩ := this n (Nat.le_refl n)
    rw [Session.after, goesOn] at there
    exact ⟨v', there, written⟩
  intro t upper
  induction t with
  | zero => exact ⟨v, value, .inl ⟨fun u before => absurd before (Nat.not_lt_zero u), rfl⟩⟩
  | succ t ih =>
    obtain ⟨v', there, written⟩ := ih (Nat.le_of_succ_le upper)
    obtain ⟨s₁, s₂, -, step, same, same', here₁⟩ := here.after goesOn upper
    have inside := inHead t (Nat.le_of_succ_le upper)
    rw [← same] at there inside
    rw [← same']
    rcases here₁.head_place step loop inside with ⟨none, kept⟩ | ⟨w, writes, given⟩
    · rw [same] at none
      refine ⟨v', kept.trans there, ?_⟩
      rcases written with ⟨unwritten, old⟩ | ⟨u, before, writes, last⟩
      · refine .inl ⟨fun u before => ?_, old⟩
        rcases Nat.lt_succ_iff_lt_or_eq.1 before with before | rfl
        · exact unwritten u before
        · exact none
      · refine .inr ⟨u, Nat.lt_succ_of_lt before, writes, fun u' later before' => ?_⟩
        rcases Nat.lt_succ_iff_lt_or_eq.1 before' with before' | rfl
        · exact last u' later before'
        · exact none
    · rw [same] at writes
      exact ⟨w, given, .inr ⟨t, Nat.lt_succ_self t, writes, fun u later before => by omega⟩⟩

end Session

end Lox
