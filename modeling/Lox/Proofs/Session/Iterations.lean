import Lox.Proofs.Session.Turns
import Lox.Proofs.Syntax.Rendering

/-!
# Variables of iterations

Each turn of a loop has a variable of its own (`Iteration`): closures that capture it share a cell, which no other turn
has and which is closed when the turn ends, and the next turn goes on with the value that it has then
(`loops_iterate`).  After the end of the turn the cell belongs to the closures that have captured the variable
(`Opens.everywhere_after`).  The value may change between two turns by assignments in the condition as well as in the
increment, and closures of functions that are not compiled may give the variable another cell
(`turns_assigned_and_parted`).
-/

namespace Lox

open Compile Syntax Machine

/-! ## Loops in code -/

/-- The places in code where a turn ends, with the slots of the variables. -/
def Chunk.turnEnds (c : Chunk Constant) : List (Nat × UInt8) :=
  (List.range c.size).filterMap fun o =>
    match c.instrAt? o, c.instrAt? (o + 2), c.instrAt? (o + 4) with
    | some (.getLocal copy), some (.setLocal slot), some .pop =>
      if copy.toNat = slot.toNat + 1 then some (o, slot) else none
    | _, _, _ => none

/-- The places in code where a local variable is read. -/
def Chunk.localReads (c : Chunk Constant) (slot : UInt8) : List Nat :=
  (List.range c.size).filter fun o => c.instrAt? o = some (.getLocal slot)

/-- There is no code behind the end. -/
lemma Chunk.lt_size_of_getLocal {c : Chunk Constant} {o : Nat} {slot : UInt8}
    (decoded : c.instrAt? o = some (.getLocal slot)) : o < c.size := by
  by_contra beyond
  have none : c.byteAt o = 0 := by
    rw [Chunk.byteAt, Array.getD_eq_getD_getElem?, Array.getElem?_eq_none (Nat.le_of_not_lt beyond)]
    rfl
  rw [Chunk.instrAt?, none] at decoded
  cases decoded

/-- A loop is found by the end of its turns. -/
lemma Prototype.CodesTurn.found {q : Prototype} {place : LoopPlace} (code : q.CodesTurn place) {slot : UInt8}
    {turn finish : Nat} (ends : q.chunk.turnEnds = [(finish, slot)]) (reads : q.chunk.localReads slot = [turn]) :
    place.slot = slot.toNat ∧ place.turn = turn ∧ place.finish = finish := by
  have here : (place.finish, UInt8.ofNat place.slot) ∈ q.chunk.turnEnds := by
    refine List.mem_filterMap.2 ⟨place.finish, List.mem_range.2 (Chunk.lt_size_of_getLocal code.reads), ?_⟩
    rw [code.reads, code.writes, code.drops]
    exact if_pos (by rw [code.operands.1, code.operands.2])
  rw [ends] at here
  obtain ⟨last, rfl⟩ := Prod.mk.inj (List.mem_singleton.1 here)
  have starts : place.turn ∈ q.chunk.localReads (UInt8.ofNat place.slot) :=
    List.mem_filter.2 ⟨List.mem_range.2 (Chunk.lt_size_of_getLocal code.copies), decide_eq_true code.copies⟩
  rw [reads] at starts
  exact ⟨code.operands.1.symm, List.mem_singleton.1 starts, last⟩

namespace Session

variable {Admitted : NativeBody → Prop} {bare : Prop} {phase : Phase} {s s' s₁ s₂ : Session} {f : Frame}
  {callers : List Frame} {l : VariableLoop} {place : LoopPlace} {j k n cell : Nat} {v : Value}

/-! ## Turns -/

/-- The cell of the variable of a turn. -/
def CellOf (Admitted : NativeBody → Prop) (s : Session) (f : Frame) (callers : List Frame) (place : LoopPlace)
    (cell : Nat) : Prop :=
  ∃ w k, ClosesOver Admitted s f callers place w k ∧ w.captured[k]? = some cell

/-- How a turn that starts in `s` ends: in `s₁` the call is in the body for the last time, and then the copy has been
put back and has left the stack, or the call has returned, or the run has stopped. -/
inductive Ends (s : Session) (f : Frame) (callers : List Frame) (place : LoopPlace) (s₁ : Session) :
    Phase → Session → Prop
  | finish {k : Nat} {s₂ : Session} (inTurn : s.InTurn f callers place k) (goesOn : s.advance k = (none, s₁))
      (frames : s₁.machine.frames = { f with ip := place.finish } :: callers) (later : s₁.advance 5 = (none, s₂)) :
      Ends s f callers place s₁ .running s₂
  | returns {k : Nat} {s₂ : Session} (inTurn : s.InTurn f callers place k) (goesOn : s.advance k = (none, s₁))
      (step : s₁.advance 1 = (none, s₂)) (returned : s₂.machine.frames = callers) :
      Ends s f callers place s₁ .running s₂
  | stops {k : Nat} {s₂ s₃ : Session} {stop outcome} (inTurn : s.InTurn f callers place k)
      (goesOn : s.advance k = (none, s₁)) (stopped : s₁.advance 1 = (some stop, s₂)) (finishes : s₂.finish stop = (outcome, s₃))
      (sound : ∀ defect, outcome ≠ .defect defect) : Ends s f callers place s₁ .resting s₃

/-- What comes after a turn that ends with the value `v` in the copy: control flow goes to the increment or the
condition with it in the variable, which then changes only by assignments, and from there out of the loop or to the next
turn, whose copy starts with the value of the variable. -/
structure TurnOver (s : Session) (f : Frame) (callers : List Frame) (place : LoopPlace) (v : Value) : Prop where
  frames : s.machine.frames = { f with ip := place.again } :: callers
  size : s.machine.stack.size = f.base + place.slot + 1
  inHead : s.InHead f callers place 0
  value : s.machine.stack[f.base + place.slot]? = some v
  goesOn : ∀ {n s₁ s₂}, s.InHead f callers place n → s.advance n = (none, s₁) → s₁.advance 1 = (none, s₂) →
    s.InHead f callers place (n + 1) ∨ s₁.machine.frames = { f with ip := place.turn } :: callers ∨
      s₂.machine.frames = { f with ip := place.exit } :: callers
  changes : ∀ {n s₁}, s.InHead f callers place n → s.advance n = (none, s₁) →
    ∃ v', s₁.machine.stack[f.base + place.slot]? = some v' ∧ s.WrittenSince n (f.base + place.slot) v v' ∧
      ∀ s₂, s₁.machine.frames = { f with ip := place.turn } :: callers → s₁.advance 1 = (none, s₂) →
        s₂.machine.stack = s₁.machine.stack.push v'

/-- What becomes of the variable in a turn of its loop, which starts in `s` with a copy of it. -/
structure Iteration (Admitted : NativeBody → Prop) (s : Session) (f : Frame) (callers : List Frame)
    (place : LoopPlace) : Prop where
  copies : ∀ {s₁}, s.advance 1 = (none, s₁) → s.machine.stack.size = f.base + place.slot + 1 ∧
    ∃ v, s.machine.stack[f.base + place.slot]? = some v ∧ s₁.machine.stack = s.machine.stack.push v ∧
      s₁.machine.frames = { f with ip := place.turn + 2 } :: callers
  /-- The turn goes on until the body is over or the call returns. -/
  goesOn : ∀ {k s₁ s₂}, s.InTurn f callers place k → s.advance k = (none, s₁) → s₁.advance 1 = (none, s₂) →
    s.InTurn f callers place (k + 1) ∨ s₁.machine.frames = { f with ip := place.finish } :: callers ∨
      s₂.machine.frames = callers
  captures : ∀ {w k}, ClosesOver Admitted s f callers place w k → ∃ cell, w.captured[k]? = some cell
  shares : ∀ {cell cell'}, CellOf Admitted s f callers place cell → CellOf Admitted s f callers place cell' →
    cell = cell'
  /-- Turns that start when this one has ended have other cells, be they of the same loop or not. -/
  differs : ∀ {s₁ phase s₂ s' f' callers' l' place' cell cell'}, CellOf Admitted s f callers place cell →
    s.Ends f callers place s₁ phase s₂ → Leads Admitted phase s₂ .running s' → s'.machine.frames = f' :: callers' →
      f'.closure.prototype.HasLoop l' place' → f'.ip = place'.turn → CellOf Admitted s' f' callers' place' cell' →
        cell ≠ cell'
  /-- The function of the loop has not captured the variable, so it does not touch the cell. -/
  apart : ∀ {cell}, CellOf Admitted s f callers place cell → cell ∉ f.closure.captured
  /-- When the turn has ended, the cell is closed with the value that the copy had. -/
  closes : ∀ {s₁ phase s₂ cell}, s.Ends f callers place s₁ phase s₂ → CellOf Admitted s f callers place cell →
    ∃ v, s₁.machine.stack[f.base + place.slot + 1]? = some v ∧ s₂.machine.cells[cell]? = some (.closed v)
  /-- From then on it changes only by assignments of closures that have the cell, -/
  keeps : ∀ {s₁ phase s₂ phase' s₃ cell v}, s.Ends f callers place s₁ phase s₂ →
    CellOf Admitted s f callers place cell → s₂.machine.cells[cell]? = some (.closed v) → Leads Admitted phase s₂ phase' s₃ →
      KeepsClosed Admitted phase s₂ cell v phase' s₃
  /-- and closures that have it have captured the variable of the turn. -/
  holders : ∀ {s₁ phase s₂ phase' s₃ cell}, s.Ends f callers place s₁ phase s₂ →
    CellOf Admitted s f callers place cell → Leads Admitted phase s₂ phase' s₃ →
      ∀ g ∈ s₃.machine.frames, ∀ k : Nat, g.closure.captured[k]? = some cell →
        ClosesOver Admitted s f callers place g.closure k
  turnOver : ∀ {k s₁ s₂}, s.InTurn f callers place k → s.advance k = (none, s₁) →
    s₁.machine.frames = { f with ip := place.finish } :: callers → s₁.advance 5 = (none, s₂) →
      ∃ v, s₁.machine.stack[f.base + place.slot + 1]? = some v ∧ s₂.TurnOver f callers place v

section Iteration

variable {f' : Frame} {callers' : List Frame} {l' : VariableLoop} {place' : LoopPlace} {cell' : Nat}

lemma CellOf.opens (here : Reached Admitted .running s) (cellOf : CellOf Admitted s f callers place cell) :
    ∃ n, s.Opens f callers place n cell := by
  obtain ⟨w, k, closesOver, captured⟩ := cellOf
  obtain ⟨n, cell', opens, captured'⟩ := closesOver.opens here
  obtain rfl := Option.some.inj (captured.symm.trans captured')
  exact ⟨n, opens⟩

lemma Ends.leads (ends : s.Ends f callers place s₁ phase s₂) : Leads Admitted .running s phase s₂ := by
  cases ends with
  | finish _ goesOn _ later => exact (Leads.refl.turn (.advance goesOn)).turn (.advance later)
  | returns _ goesOn step _ => exact (Leads.refl.turn (.advance goesOn)).turn (.advance step)
  | stops _ goesOn stopped finishes sound =>
    exact (Leads.refl.turn (.advance goesOn)).turn (.finish stopped finishes sound)

/-- When a call returns in a turn, it is by the instruction for that. -/
lemma Reached.turn_leaves (here : Reached (NativeBody.Fair bare) .running s)
    (loop : f.closure.prototype.HasLoop l place) (frames : s.machine.frames = f :: callers) (turn : f.ip = place.turn)
    (inTurn : s.InTurn f callers place k) (goesOn : s.advance k = (none, s₁)) (step : s₁.advance 1 = (none, s₂))
    (returned : s₂.machine.frames = callers) : ∃ o, s₁.machine.frames = { f with ip := o } :: callers ∧
      f.closure.prototype.chunk.instrAt? o = some .ret := by
  rcases here.turn_goesOn loop frames turn inTurn goesOn step with later | finish | ⟨-, ret⟩
  · have inside := later (k + 1) (Nat.succ_le_succ (Nat.zero_le k)) (Nat.le_refl _)
    rw [Session.after, advance_succ goesOn, step] at inside
    exact absurd (returned ▸ inside.length) (Nat.lt_irrefl _)
  · have here₁ : Reached (NativeBody.Fair bare) .running s₁ := here.turn (.advance goesOn)
    obtain ⟨o, i, left, -⟩ := here₁.finish_steps loop finish step (by decide)
    exact absurd (left.symm.trans returned) (List.cons_ne_self _ _)
  · exact ret

/-- The variable is captured before the turn ends. -/
lemma Opens.before_end (opens : s.Opens f callers place n cell) (here : Reached (NativeBody.Fair bare) .running s)
    (loop : f.closure.prototype.HasLoop l place) (frames : s.machine.frames = f :: callers) (turn : f.ip = place.turn)
    (ends : s.Ends f callers place s₁ phase s₂) :
    ∃ k, n < k ∧ s.InTurn f callers place k ∧ s.advance k = (none, s₁) := by
  have early {k : Nat} (goesOn : s.advance k = (none, s₁))
      (after : ∀ s', s₁.advance 1 = (none, s') → ¬ f.In callers (f.base + place.slot + 2) place.Body s'.machine.frames ∧
        ∃ o i, s₁.machine.frames = { f with ip := o } :: callers ∧ f.closure.prototype.chunk.instrAt? o = some i ∧
          ∀ index captures, i ≠ .closure index captures) : n < k :=
    opens.before goesOn fun s' step => by
      obtain ⟨outside, o, i, frames', decoded, other⟩ := after s' step
      refine ⟨outside, fun g rest index captures frames'' decoded' => ?_⟩
      obtain ⟨rfl, -⟩ := List.cons.inj (frames'.symm.trans frames'')
      exact other index captures (Option.some.inj (decoded.symm.trans decoded'))
  cases ends with
  | @finish k _ inTurn goesOn finish later =>
    have here₁ : Reached (NativeBody.Fair bare) .running s₁ := here.turn (.advance goesOn)
    refine ⟨k, early goesOn fun s' step => ⟨?_, _, _, finish, loop.codesTurn.reads, nofun⟩, inTurn, goesOn⟩
    obtain ⟨o, i, left, beyond, -⟩ := here₁.finish_steps loop finish step (by decide)
    rw [left]
    intro inside
    have upper : o ≤ place.finish := inside.running.2
    omega
  | @returns k _ inTurn goesOn step returned =>
    obtain ⟨o, own, decoded⟩ := here.turn_leaves loop frames turn inTurn goesOn step returned
    refine ⟨k, early goesOn fun s' again => ⟨fun inside => ?_, o, _, own, decoded, nofun⟩, inTurn, goesOn⟩
    obtain rfl : s₂ = s' := congrArg Prod.snd (step.symm.trans again)
    exact absurd (returned ▸ inside.length) (Nat.lt_irrefl _)
  | @stops k _ _ _ _ inTurn goesOn stopped _ _ =>
    exact ⟨k, early goesOn fun s' step => (nomatch stopped.symm.trans step), inTurn, goesOn⟩

/-- When the turn has ended, the cell is closed. -/
lemma Ends.closes (ends : s.Ends f callers place s₁ phase s₂) (here : Reached (NativeBody.Fair bare) .running s)
    (loop : f.closure.prototype.HasLoop l place) (frames : s.machine.frames = f :: callers) (turn : f.ip = place.turn)
    (opens : s.Opens f callers place n cell) :
    ∃ v, s₁.machine.stack[f.base + place.slot + 1]? = some v ∧ s₂.machine.cells[cell]? = some (.closed v) := by
  obtain ⟨k, before, inTurn, goesOn⟩ := opens.before_end here loop frames turn ends
  have opened := opens.open_at here loop goesOn inTurn before
  have here₁ : Reached (NativeBody.Fair bare) .running s₁ := here.turn (.advance goesOn)
  cases ends with
  | finish _ _ finish later =>
    obtain ⟨v, copy, -, -, -, closes⟩ := here₁.turn_over loop finish later
    exact ⟨v, copy, closes cell opened⟩
  | returns inTurn goesOn step returned =>
    obtain ⟨o, own, decoded⟩ := here.turn_leaves loop frames turn inTurn goesOn step returned
    exact here₁.turn_returns own decoded step opened (by omega)
  | stops _ _ stopped finishes sound => exact here₁.turn_stops stopped finishes sound opened

/-! ### Holders -/

/-- A closure that has the cell has captured the variable of the turn. -/
def Holder (Admitted : NativeBody → Prop) (s : Session) (f : Frame) (callers : List Frame) (place : LoopPlace)
    (cell : Nat) (w : Closure) : Prop :=
  ∀ k : Nat, w.captured[k]? = some cell → ClosesOver Admitted s f callers place w k

lemma holder_copied : Copied (Holder Admitted s f callers place cell) := fun holder k there => .copy (holder k there)

/-- Where the cell is not opened for another variable, closures that are made with it have captured the variable. -/
lemma holder_made {g : Frame} {captures : List Capture} {w : Closure} (here : Reached Admitted .running s)
    (leads : Leads Admitted .running s .running s₁) (step : s₁.advance 1 = (none, s₂))
    (encloses : s₁.machine.Encloses s₂.machine g captures w) (holder : Holder Admitted s f callers place cell g.closure)
    (own : ∀ k capture, s₁.machine.CapturesAs s₂.machine g w k capture → capture.isLocal = true →
      s₂.machine.cells[cell]? = some (.opened (g.base + capture.index.toNat)) →
        ClosesOver Admitted s f callers place w k) : Holder Admitted s f callers place cell w := by
  intro k there
  have here₁ : Reached Admitted .running s₁ := here.leads leads
  obtain ⟨m, ⟨journal, rfl⟩, result⟩ := advance_one step
  obtain ⟨capture, capturing, takes⟩ :=
    Encloses.captures (m := { s₁.machine with journal }) encloses (here₁.ordered.of_same rfl rfl) result there
  have capturing : s₁.machine.CapturesAs s₂.machine g w k capture := capturing
  by_cases inner : capture.isLocal = true
  · rw [Takes, if_pos inner] at takes
    exact own k capture capturing inner takes
  · rw [Takes, if_neg inner] at takes
    exact .within (holder _ takes) leads step capturing (Bool.eq_false_iff.2 inner)

/-- If the cell is open in the turn, it is for the copy of the variable. -/
lemma Opens.slot_eq {slot : Nat} (opens : s.Opens f callers place n cell)
    (here : Reached (NativeBody.Fair bare) .running s) (loop : f.closure.prototype.HasLoop l place)
    (inTurn : s.InTurn f callers place (k + 1)) (goesOn : s.advance (k + 1) = (none, s₁))
    (opened : (s.after (k + 1)).cells[cell]? = some (.opened slot)) : slot = f.base + place.slot + 1 := by
  obtain ⟨-, ⟨s₂, runs⟩, own, -⟩ := opens
  rcases Nat.lt_or_ge k n with earlier | later
  · rcases here.opened_until runs (Nat.succ_le_succ (Nat.le_of_lt earlier)) (Nat.le_refl _) opened with
      ⟨-, still⟩ | ⟨-, v, closed⟩
    · exact Cell.opened.inj (Option.some.inj (still.symm.trans own))
    · cases closed.symm.trans own
  · have kept := here.copy_kept loop goesOn inTurn (Nat.succ_le_succ (Nat.zero_le n)) (Nat.succ_le_succ later) own
    exact Cell.opened.inj (Option.some.inj (opened.symm.trans kept))

/-- When the turn starts, no closure has the cell. -/
lemma Opens.everywhere_start (opens : s.Opens f callers place n cell) (here : Reached (NativeBody.Fair bare) .running s)
    (loop : f.closure.prototype.HasLoop l place) (frames : s.machine.frames = f :: callers) (turn : f.ip = place.turn) :
    Everywhere (Holder Admitted s f callers place cell) s.machine := by
  have fresh := opens.fresh here loop frames turn
  have none {w : Closure} (known : ∀ cell ∈ w.captured, cell < s.machine.cells.size) :
      Holder Admitted s f callers place cell w := fun k there =>
    absurd (known cell (Array.mem_of_getElem? there)) (Nat.not_lt.2 fresh)
  obtain ⟨c, S, memory⟩ := here.intact
  refine ⟨memory.holds fun w sound => none ?_, fun g there => none ?_⟩
  · rw [← memory.cells.size]
    exact sound.captures.2
  · exact here.captured_lt frames loop.proper g (frames ▸ there)

/-- In the turn, closures have the cell only if they have captured the variable. -/
lemma Opens.everywhere_turn (opens : s.Opens f callers place n cell) (here : Reached Admitted .running s)
    (fair : ∀ body, Admitted body → body.Fair True) (loop : f.closure.prototype.HasLoop l place)
    (frames : s.machine.frames = f :: callers) (turn : f.ip = place.turn) (inTurn : s.InTurn f callers place k)
    (goesOn : s.advance k = (none, s₁)) : Everywhere (Holder Admitted s f callers place cell) s₁.machine := by
  induction k generalizing s₁ with
  | zero =>
    obtain ⟨-, rfl⟩ := Prod.mk.inj goesOn
    exact opens.everywhere_start (here.mono fair) loop frames turn
  | succ k ih =>
    obtain ⟨s₀, first, step⟩ := advance_add goesOn
    have there : Reached Admitted .running s₀ := here.turn (.advance first)
    refine (there.mono fair).everywhere_step holder_copied (ih (inTurn.mono (Nat.le_succ k)) first) step
      fun g captures w encloses holder => ?_
    refine holder_made here (.turn .refl (.advance first)) step encloses holder
      fun i capture capturing inner opened => ?_
    refine .body (inTurn.mono (Nat.le_succ k)) first step capturing inner ?_
    have after : (s.after (k + 1)).cells[cell]? = some (.opened (g.base + capture.index.toNat)) := by
      rwa [Session.after, goesOn]
    exact opens.slot_eq (here.mono fair) loop inTurn goesOn after

/-- So it is when the turn has ended. -/
lemma Opens.everywhere_end (opens : s.Opens f callers place n cell) (here : Reached Admitted .running s)
    (fair : ∀ body, Admitted body → body.Fair True) (loop : f.closure.prototype.HasLoop l place)
    (frames : s.machine.frames = f :: callers) (turn : f.ip = place.turn) (ends : s.Ends f callers place s₁ phase s₂) :
    Everywhere (Holder Admitted s f callers place cell) s₂.machine := by
  have other {t t' : Session} {o : Nat} {i : Instr} (there : Reached (NativeBody.Fair True) .running t)
      (every : Everywhere (Holder Admitted s f callers place cell) t.machine)
      (own : t.machine.frames = { f with ip := o } :: callers)
      (decoded : f.closure.prototype.chunk.instrAt? o = some i) (plain : ∀ index captures, i ≠ .closure index captures)
      (step : t.advance 1 = (none, t')) : Everywhere (Holder Admitted s f callers place cell) t'.machine :=
    there.everywhere_step holder_copied every step fun g captures w encloses => by
      obtain ⟨rest, index, frames', decoded', -⟩ := encloses
      obtain ⟨rfl, -⟩ := List.cons.inj (own.symm.trans frames')
      exact absurd (Option.some.inj (decoded.symm.trans decoded')) (plain index captures)
  cases ends with
  | finish inTurn goesOn finish later =>
    have every := opens.everywhere_turn here fair loop frames turn inTurn goesOn
    have here₁ : Reached (NativeBody.Fair True) .running s₁ := (here.mono fair).turn (.advance goesOn)
    suffices ∀ j ≤ 5, ∀ t, s₁.advance j = (none, t) → Everywhere (Holder Admitted s f callers place cell) t.machine from
      this 5 (Nat.le_refl 5) s₂ later
    intro j upper t before
    induction j generalizing t with
    | zero =>
      obtain ⟨-, rfl⟩ := Prod.mk.inj before
      exact every
    | succ j ih =>
      obtain ⟨t₀, first, step⟩ := advance_add before
      obtain ⟨o, i, own, -, decoded, -, plain⟩ := here₁.finish_steps loop finish first upper
      exact other (here₁.turn (.advance first)) (ih (Nat.le_of_succ_le upper) t₀ first) own decoded plain step
  | returns inTurn goesOn step returned =>
    have every := opens.everywhere_turn here fair loop frames turn inTurn goesOn
    obtain ⟨o, own, decoded⟩ := (here.mono fair).turn_leaves loop frames turn inTurn goesOn step returned
    exact other ((here.mono fair).turn (.advance goesOn)) every own decoded nofun step
  | stops inTurn goesOn stopped finishes sound =>
    have every := opens.everywhere_turn here fair loop frames turn inTurn goesOn
    exact ((here.mono fair).turn (.advance goesOn)).everywhere_finish holder_copied every stopped finishes sound

/-- From then on, closures have the cell only if they have captured the variable. -/
lemma Opens.everywhere_after (opens : s.Opens f callers place n cell) (here : Reached Admitted .running s)
    (fair : ∀ body, Admitted body → body.Fair True) (loop : f.closure.prototype.HasLoop l place)
    (frames : s.machine.frames = f :: callers) (turn : f.ip = place.turn) (ends : s.Ends f callers place s₁ phase s₂)
    {phase' : Phase} (leads : Leads Admitted phase s₂ phase' s') :
    Everywhere (Holder Admitted s f callers place cell) s'.machine := by
  have here₂ : Reached Admitted phase s₂ := here.leads ends.leads
  obtain ⟨v, -, closed⟩ := ends.closes (here.mono fair) loop frames turn opens
  refine leads.everywhere holder_copied (fun _ _ _ there => nomatch there) fair here₂
    (opens.everywhere_end here fair loop frames turn ends) fun {t₁ t₂ g captures w} before step encloses holder => ?_
  refine holder_made here (ends.leads.trans before) step encloses holder fun i capture _ _ opened => ?_
  obtain ⟨u, still⟩ := ((before.turn (.advance step)).evolves here₂.keeps).1.closed closed
  cases still.symm.trans opened

/-- What comes after a turn. -/
lemma Reached.turnOver (here : Reached (NativeBody.Fair bare) .running s)
    (loop : f.closure.prototype.HasLoop l place) (frames : s.machine.frames = { f with ip := place.again } :: callers)
    (size : s.machine.stack.size = f.base + place.slot + 1)
    (value : s.machine.stack[f.base + place.slot]? = some v) : s.TurnOver f callers place v where
  frames := frames
  size := size
  inHead := fun j upper => by
    obtain rfl : j = 0 := Nat.le_zero.1 upper
    exact ⟨[], _, frames, loop.codesTurn.again, List.forall_mem_nil _⟩
  value := value
  goesOn := fun {n s₁ s₂} inHead goesOn step => by
    have there : Reached (NativeBody.Fair bare) .running s₁ := here.turn (.advance goesOn)
    have inside := inHead n (Nat.le_refl n)
    rw [Session.after, goesOn] at inside
    refine (there.head_step step loop inside).imp_left fun stays j upper => ?_
    rcases Nat.lt_or_eq_of_le upper with earlier | rfl
    · exact inHead j (Nat.le_of_lt_succ earlier)
    · rwa [Session.after, advance_succ goesOn, step]
  changes := fun {n s₁} inHead goesOn => by
    obtain ⟨v', there, written⟩ := here.head_writes loop inHead value goesOn
    refine ⟨v', there, written, fun s₂ turn step => ?_⟩
    have here₁ : Reached (NativeBody.Fair bare) .running s₁ := here.turn (.advance goesOn)
    obtain ⟨-, w, copied, pushed, -⟩ :=
      here₁.copies (f := { f with ip := place.turn }) loop turn rfl step
    obtain rfl : v' = w := Option.some.inj (there.symm.trans copied)
    exact pushed

/-- What becomes of the variable in a turn. -/
lemma Reached.iteration (here : Reached Admitted .running s) (fair : ∀ body, Admitted body → body.Fair True)
    (loop : f.closure.prototype.HasLoop l place) (frames : s.machine.frames = f :: callers) (turn : f.ip = place.turn) :
    s.Iteration Admitted f callers place where
  copies := (here.mono fair).copies loop frames turn
  goesOn := fun inTurn goesOn step =>
    ((here.mono fair).turn_goesOn loop frames turn inTurn goesOn step).imp_right (.imp_right And.left)
  captures := fun closesOver => by
    obtain ⟨n, cell, -, captured⟩ := closesOver.opens here
    exact ⟨cell, captured⟩
  shares := fun cellOf cellOf' => by
    obtain ⟨n, opens⟩ := cellOf.opens here
    obtain ⟨n', opens'⟩ := cellOf'.opens here
    exact opens.unique opens' (here.mono fair) loop
  differs := fun {s₁ phase s₂ s' _ _ _ _ cell cell'} cellOf ends leads frames' loop' turn' cellOf' => by
    have here₂ : Reached Admitted phase s₂ := here.leads ends.leads
    have here' : Reached Admitted .running s' := here₂.leads leads
    obtain ⟨n, opens⟩ := cellOf.opens here
    obtain ⟨n', opens'⟩ := cellOf'.opens here'
    obtain ⟨v, -, closed⟩ := ends.closes (here.mono fair) loop frames turn opens
    have known : cell < s₂.machine.cells.size := (Array.getElem?_eq_some_iff.1 closed).1
    have grows : s₂.machine.cells.size ≤ s'.machine.cells.size := (leads.evolves here₂.keeps).1.grows
    have new : s'.machine.cells.size ≤ cell' := opens'.fresh (here'.mono fair) loop' frames' turn'
    omega
  apart := fun cellOf captured => by
    obtain ⟨n, opens⟩ := cellOf.opens here
    have known := (here.mono fair).captured_lt frames loop.proper f List.mem_cons_self _ captured
    exact absurd known (Nat.not_lt.2 (opens.fresh (here.mono fair) loop frames turn))
  closes := fun ends cellOf => by
    obtain ⟨n, opens⟩ := cellOf.opens here
    exact ends.closes (here.mono fair) loop frames turn opens
  keeps := fun ends _ closed later => later.closed (here.leads ends.leads) closed
  holders := fun ends cellOf leads => by
    obtain ⟨n, opens⟩ := cellOf.opens here
    exact (opens.everywhere_after here fair loop frames turn ends leads).calls
  turnOver := fun {k s₁ s₂} inTurn goesOn finish later => by
    have here₁ : Reached (NativeBody.Fair True) .running s₁ := (here.mono fair).turn (.advance goesOn)
    obtain ⟨v, copy, frames₂, size, value, -⟩ := here₁.turn_over loop finish later
    exact ⟨v, copy, (here₁.turn (.advance later)).turnOver loop frames₂ size value⟩

end Iteration

/-! ## Programs -/

/-- The loops of an accepted source that declare a variable stand in the code of their functions, one after the other,
and whenever a turn of one of them starts, in whatever state of a session and in whatever call of the function, the
closures that capture the variable in the turn have one cell for it, which closures of other turns and the function of
the loop do not have; it is closed with the value that the copy of the variable has at the end of the body, or when the
loop is left by a return or an error, and then changes only by assignments of closures that have it; and the next turn
starts with a copy of that value, unless the increment or the condition has assigned another one to the variable. -/
theorem loops_iterate {source : String} {strings : StringTable} {serial : Nat} {p : Prototype}
    (compiles : (compile source strings serial).outcome = .ok p) :
    ∃ ds, ReadsProgram ((Token.scan source).toList.map Token.word) ds ∧
      (∀ q, Contains p q → ∃ chain g, CodeOf p ds chain q g) ∧
      ∀ chain q g, CodeOf p ds chain q g → ∃ places, List.Forall₂ q.HasLoop g.loops places ∧
        places.Pairwise (·.turn < ·.turn) ∧
        ∀ place ∈ places, ∀ Admitted, (∀ body, Admitted body → body.Fair True) → ∀ s f callers,
          Reached Admitted .running s → s.machine.frames = f :: callers → f.closure.prototype = q →
            f.ip = place.turn → s.Iteration Admitted f callers place := by
  obtain ⟨ds, reads, proper, script⟩ := compile_emits compiles
  refine ⟨ds, reads, fun q inside => CodeOf.script.contains script proper inside, fun chain q g code => ?_⟩
  obtain ⟨captures, further, Γ, start, items, stop, rfl, implements⟩ := code.implements script proper
  obtain ⟨places, stand, sorted⟩ := implements.loops
  refine ⟨places, stand, sorted, ?_⟩
  rintro place there Admitted fair s f callers here frames rfl turn
  obtain ⟨k, bound, rfl⟩ := List.mem_iff_getElem.1 there
  have loop := stand.get (stand.length_eq ▸ bound) bound
  exact here.iteration fair loop frames turn


/-- While no step comes to the end of the body or leaves the call, the turn goes on. -/
lemma Iteration.inTurn (iteration : s.Iteration Admitted f callers place) (goesOn : s.advance k = (none, s'))
    (inside : ∀ j < k, (s.after j).frames.head?.map Frame.ip ≠ some place.finish ∧
      callers.length < (s.after (j + 1)).frames.length) : s.InTurn f callers place k := by
  induction k generalizing s' with
  | zero => exact fun j lower upper => by omega
  | succ k ih =>
    obtain ⟨s₁, first, step⟩ := advance_add goesOn
    obtain ⟨elsewhere, level⟩ := inside k (Nat.lt_succ_self k)
    rw [Session.after, first] at elsewhere
    rw [Session.after, goesOn] at level
    have inTurn := ih first fun j before => inside j (Nat.lt_succ_of_lt before)
    rcases iteration.goesOn inTurn first step with later | finish | returned
    · exact later
    · exact absurd (by rw [finish]; rfl) elsewhere
    · exact absurd level (by rw [returned]; exact Nat.lt_irrefl _)

/-- What is the same as a truth value is one. -/
lemma eq_bool_of_same {b : Bool} (same : v.same (.bool b) = true) : v = .bool b := by
  cases v with
  | bool c => exact congrArg Value.bool (beq_iff_eq.1 same)
  | _ => cases same

/-- What can be tested of a script and of the start of its run. -/
lemma Reached.exists_script {source : String} {P : Prototype → Session → Prop} [∀ p s, Decidable (P p s)]
    (here : Reached Admitted .resting s)
    (test : (compile source s.machine.strings s.machine.nextPrototype).outcome.toOption.any (fun p =>
      (s.midway source 0).any fun s => P p s) = true) :
    ∃ p s' w, (compile source s.machine.strings s.machine.nextPrototype).outcome = .ok p ∧
      s.midway source 0 = some s' ∧ Reached Admitted .running s' ∧ s'.machine.frames = [⟨w, 0, 0⟩] ∧
        w.prototype = p ∧ P p s' := by
  obtain ⟨p, compiles, test⟩ := (Option.any_eq_true _ _).1 test
  obtain ⟨s', comes, holds⟩ := (Option.any_eq_true _ _).1 test
  have idle : s.machine.Idle := here.keeps
  have compiles : (compile source s.machine.strings s.machine.nextPrototype).outcome = .ok p := by
    generalize (compile source s.machine.strings s.machine.nextPrototype).outcome = outcome at compiles
    cases outcome with
    | error _ => cases compiles
    | ok q => exact congrArg _ (Option.some.inj compiles)
  have loads : s.load source = (true, s') := by
    unfold Session.midway at comes
    generalize s.load source = result at comes ⊢
    obtain ⟨_ | _, s₁⟩ := result
    · cases comes
    · exact congrArg (Prod.mk true) (Option.some.inj comes)
  obtain ⟨q, strings, nextPrototype, compiles', journal, same⟩ := load_idle loads idle
  obtain rfl : p = q := Except.ok.inj (compiles.symm.trans compiles')
  have frames : s'.machine.frames = [⟨⟨s.machine.nextClosure, p, #[]⟩, 0, 0⟩] := by
    rw [same, loaded, idle.frames, idle.stack]
    rfl
  exact ⟨p, s', _, compiles, comes, here.midway comes, frames, rfl, of_decide_eq_true holds⟩
/-- A script of one loop, with no value for its variable and no increment. -/
def loopScript (condition : Option (Syntax.Expr .expression)) (body : Stmt .declarations) : Stmt .declarations :=
  .declare (.statement (.forLoop (.var "i" none) condition none (.block body))) .noDeclarations

/-- A function that captures the variable of the loop. -/
def capturing (name : String) : Stmt .declaration :=
  .function name [] (.declare (.statement (.expression (.name "i"))) .noDeclarations)

lemma loopScript_canonical {condition : Option (Syntax.Expr .expression)} {body : Stmt .declarations}
    (first : ClauseCanonical condition) (second : body.Canonical) : (loopScript condition body).Canonical :=
  ⟨⟨nofun, first, nofun, second⟩, trivial⟩

/-- The only loop of a script is found by the end of its turns. -/
lemma script_loop {source : String} {strings : StringTable} {serial : Nat} {p : Prototype} {ds : Stmt .declarations}
    {slot : UInt8} {turn finish : Nat} (compiles : (compile source strings serial).outcome = .ok p)
    (reads : ReadsProgram ((Token.scan source).toList.map Token.word) ds) (only : (Function.script ds).loops = [l])
    (ends : p.chunk.turnEnds = [(finish, slot)]) (copies : p.chunk.localReads slot = [turn]) :
    ∃ place, p.HasLoop l place ∧ place.slot = slot.toNat ∧ place.turn = turn ∧ place.finish = finish := by
  obtain ⟨ds', reads', proper, script⟩ := compile_emits compiles
  obtain rfl := reads.unique reads'
  obtain ⟨captures, further, Γ, start, items, stop, -, implements⟩ := CodeOf.script.implements script proper
  obtain ⟨places, stand, -⟩ := implements.loops
  rw [only] at stand
  obtain ⟨place, _, loop, -, -⟩ := List.forall₂_cons_left_iff.1 stand
  exact ⟨place, loop, loop.codesTurn.found ends copies⟩

lemma reads_of_canonical {source : String} {ds : Stmt .declarations} (canonical : ds.Canonical)
    (words : (Token.scan source).toList.map Token.word = ds.words ++ [.mark .endOfInput]) :
    ReadsProgram ((Token.scan source).toList.map Token.word) ds := by
  rw [words]
  exact canonical.reads_program

/-- In the body of a loop, a function captures the variable before it is assigned to. -/
theorem loops_iterate_captured : ∃ ds l place s f s₁ s₂,
    ReadsProgram ((Token.scan "for (var i;;) { fun f() { i; } i = true; }").toList.map Token.word) ds ∧
      (Function.script ds).loops = [l] ∧
      (compile "for (var i;;) { fun f() { i; } i = true; }" (start .quiet).machine.strings
        (start .quiet).machine.nextPrototype).outcome = .ok f.closure.prototype ∧
      f.closure.prototype.HasLoop l place ∧ Reached (NativeBody.Fair True) .running s ∧ s.machine.frames = [f] ∧
      f.ip = place.turn ∧ CellOf (NativeBody.Fair True) s f [] place 0 ∧ s.Ends f [] place s₁ .running s₂ ∧
      s₂.TurnOver f [] place (.bool true) ∧ s₂.machine.cells[0]? = some (.closed (.bool true)) := by
  have reads : ReadsProgram ((Token.scan "for (var i;;) { fun f() { i; } i = true; }").toList.map Token.word)
      (loopScript none (.declare (capturing "f")
        (.declare (.statement (.expression (.assign "i" (.literal .kwTrue)))) .noDeclarations))) :=
    reads_of_canonical (loopScript_canonical nofun ⟨⟨trivial, trivial⟩, ⟨_, rfl⟩, trivial⟩) (by decide +kernel)
  have resting : Reached (NativeBody.Fair True) .resting (start .quiet) := .start .quiet
  obtain ⟨p, s₀, w₀, compiles, -, here₀, frames₀, rfl, code, first, inside, goesOn, finish, last, later, captured⟩ :=
    resting.exists_script
      (P := fun p s₀ =>
        (p.chunk.turnEnds = [(12, 1)] ∧ p.chunk.localReads 1 = [1] ∧ p.chunk.instrAt? 0 = some .pushNil ∧
          p.chunk.instrAt? 3 = some (.closure 0 [⟨true, 2⟩])) ∧
        (s₀.advance 1).1 = none ∧
        (∀ j < (6 : Nat), ((s₀.advance 1).2.after j).frames.head?.map Frame.ip ≠ some 12 ∧
          0 < ((s₀.advance 1).2.after (j + 1)).frames.length) ∧
        ((s₀.advance 1).2.advance 6).1 = none ∧ ((s₀.advance 1).2.after 6).frames.map Frame.ip = [12] ∧
        (((s₀.advance 1).2.after 6).stack[2]?.map fun v => v.same (.bool true)) = some true ∧
        (((s₀.advance 1).2.advance 6).2.advance 5).1 = none ∧
        (((s₀.advance 1).2.after 2).stack.back?.bind fun v => v.cell? 0) = some 0)
      (show (compile "for (var i;;) { fun f() { i; } i = true; }" (start .quiet).machine.strings
        (start .quiet).machine.nextPrototype).outcome.toOption.any _ = true by decide +kernel)
  obtain ⟨ends, copies, initializer, closure⟩ := code
  obtain ⟨ds', reads', -, loops⟩ := loops_iterate compiles
  obtain rfl := reads.unique reads'
  obtain ⟨places, stand, -, iterate⟩ := loops _ _ _ .script
  obtain ⟨place, _, loop, -, rfl⟩ := List.forall₂_cons_left_iff.1 stand
  obtain ⟨slot, turn, place_⟩ := loop.codesTurn.found ends copies
  let f : Frame := ⟨w₀, 1, 0⟩
  let s := (s₀.advance 1).2
  have step₀ : s₀.advance 1 = (none, s) := Prod.ext first rfl
  have frames : s.machine.frames = [f] := here₀.falls frames₀ initializer nofun nofun nofun step₀
  have here : Reached (NativeBody.Fair True) .running s := here₀.turn (.advance step₀)
  have iteration := iterate place List.mem_cons_self _ (fun _ => id) s f [] here frames rfl turn.symm
  have goesOn : s.advance 6 = (none, (s.advance 6).2) := Prod.ext goesOn rfl
  have inTurn : s.InTurn f [] place 6 := iteration.inTurn goesOn (by rwa [place_])
  obtain ⟨t₁, one, rest⟩ := advance_add (j := 1) (k := 5) goesOn
  obtain ⟨t₂, two, -⟩ := advance_add (j := 1) (k := 4) rest
  have cellOf : CellOf (NativeBody.Fair True) s f [] place 0 := by
    obtain ⟨-, v, -, -, frames₁⟩ := iteration.copies one
    rw [turn] at frames₁
    rw [Session.after, advance_succ one, two] at captured
    obtain ⟨w, top, cell⟩ := Option.bind_eq_some_iff.1 captured
    cases w with
    | closure w =>
      refine ⟨w, 0, .body (inTurn.mono (by decide)) one two ⟨_, ⟨_, _, frames₁, closure, top⟩, rfl⟩ rfl ?_, cell⟩
      rw [slot]
      rfl
    | _ => cases cell
  have finish : (s.advance 6).2.machine.frames = [{ f with ip := place.finish }] := by
    obtain ⟨inner, o, calls, -⟩ := inTurn 6 (by decide) (Nat.le_refl 6)
    rw [calls] at finish
    cases inner with
    | nil =>
      obtain ⟨rfl, -⟩ := List.cons.inj finish
      rw [place_]
      exact calls
    | cons g inner =>
      have length := congrArg List.length finish
      rw [List.length_map, List.length_append] at length
      cases length
  have ends : s.Ends f [] place _ .running _ := .finish inTurn goesOn finish (Prod.ext later rfl)
  obtain ⟨v, copy, turnOver⟩ := iteration.turnOver inTurn goesOn finish (Prod.ext later rfl)
  obtain ⟨v', copy', closed⟩ := iteration.closes ends cellOf
  obtain rfl := Option.some.inj (copy.symm.trans copy')
  obtain ⟨w, value, true_⟩ := Option.map_eq_some_iff.1 last
  rw [slot] at copy
  obtain rfl : v = w := Option.some.inj (copy.symm.trans value)
  obtain rfl := eq_bool_of_same true_
  exact ⟨_, _, place, s, f, _, _, reads, rfl, compiles, loop, here, frames, turn.symm, cellOf, ends, turnOver, closed⟩

/-- The copy of the next turn may differ from that at the end of the body without an increment, since the condition may
assign to the variable.  With functions of the host that make any closures, there may be two cells for the variable of a
turn. -/
theorem turns_assigned_and_parted :
    (∃ p l place s v v', (compile "for (var i; i = true;) { i = nil; }" (start .quiet).machine.strings
        (start .quiet).machine.nextPrototype).outcome = .ok p ∧ p.HasLoop l place ∧ l.increment = none ∧
      (start .quiet).midway "for (var i; i = true;) { i = nil; }" 0 = some s ∧ Reached (fun _ => False) .running s ∧
      (s.after 9).frames.map Frame.ip = [place.finish] ∧ (s.after 9).stack[place.slot + 1]? = some v ∧
      (∀ t, 9 ≤ t → t < 18 → (s.after t).frames.map Frame.ip ≠ [place.turn]) ∧
      (s.after 18).frames.map Frame.ip = [place.turn] ∧ (s.after 18).stack[place.slot]? = some v' ∧ v' ≠ v) ∧
    ∃ body p l place s, (compile "for (var i;;) { fun f() { i; } make()(); fun g() { i; } }"
        (hosting body).machine.strings (hosting body).machine.nextPrototype).outcome = .ok p ∧ p.HasLoop l place ∧
      (hosting body).midway "for (var i;;) { fun f() { i; } make()(); fun g() { i; } }" 0 = some s ∧
      Reached (fun _ => True) .running s ∧
      (∀ t, 2 ≤ t → t ≤ 16 → ∃ o ∈ ((s.after t).frames.getLast?.map Frame.ip), place.Body o) ∧
      (s.after 2).Captures (s.after 3) (place.slot + 1) 0 ∧ (s.after 15).Captures (s.after 16) (place.slot + 1) 1 := by
  constructor
  · have reads : ReadsProgram ((Token.scan "for (var i; i = true;) { i = nil; }").toList.map Token.word)
        (loopScript (some (.assign "i" (.literal .kwTrue)))
          (.declare (.statement (.expression (.assign "i" (.literal .kwNil)))) .noDeclarations)) :=
      reads_of_canonical (loopScript_canonical (fun e there => Option.some.inj there ▸ ⟨_, rfl⟩)
        ⟨⟨_, rfl⟩, trivial⟩) (by decide +kernel)
    have resting : Reached (fun _ => False) .resting (start .quiet) := .start .quiet
    obtain ⟨p, s, w, compiles, comes, here, -, -, ⟨ends, copies⟩, finish, old, between, turn, new⟩ :=
      resting.exists_script
        (P := fun p s => (p.chunk.turnEnds = [(14, 1)] ∧ p.chunk.localReads 1 = [8]) ∧
          (s.after 9).frames.map Frame.ip = [14] ∧ ((s.after 9).stack[2]?.map fun v => v.same .nil) = some true ∧
          (∀ t < (18 : Nat), 9 ≤ t → (s.after t).frames.map Frame.ip ≠ [8]) ∧
          (s.after 18).frames.map Frame.ip = [8] ∧
          ((s.after 18).stack[1]?.map fun v => v.same (.bool true)) = some true)
        (show (compile "for (var i; i = true;) { i = nil; }" (start .quiet).machine.strings
          (start .quiet).machine.nextPrototype).outcome.toOption.any _ = true by decide +kernel)
    obtain ⟨place, loop, slot, turn_, finish_⟩ := script_loop compiles reads rfl ends copies
    obtain ⟨v, copy, isNil⟩ := Option.map_eq_some_iff.1 old
    obtain ⟨v', variable_, isTrue⟩ := Option.map_eq_some_iff.1 new
    obtain rfl := eq_bool_of_same isTrue
    refine ⟨p, _, place, s, v, .bool true, compiles, loop, rfl, comes, here, ?_, ?_, ?_, ?_, ?_, ?_⟩
    · rw [finish_, finish]
    · rw [slot]
      exact copy
    · rw [turn_]
      exact fun t lower upper => between t upper lower
    · rw [turn_, turn]
    · rw [slot]
      exact variable_
    · rintro rfl
      cases isNil
  · have reads : ReadsProgram
        ((Token.scan "for (var i;;) { fun f() { i; } make()(); fun g() { i; } }").toList.map Token.word)
        (loopScript none (.declare (capturing "f")
          (.declare (.statement (.expression (.call (.call (.name "make") .noArguments) .noArguments)))
            (.declare (capturing "g") .noDeclarations)))) :=
      reads_of_canonical (loopScript_canonical nofun ⟨⟨trivial, trivial⟩,
        ⟨⟨trivial, by decide, rfl, trivial⟩, by decide, rfl, trivial⟩, ⟨trivial, trivial⟩, trivial⟩) (by decide +kernel)
    let code := #[Opcode.pop, .pop, .closeUpvalue, .nil, .nil, .nil, .nil, .ret].map Opcode.toByte
    have resting : Reached (fun _ => True) .resting (hosting (handOut (.ofCode 0 #[] code))) :=
      (Reached.start .quiet).turn (.native trivial)
    obtain ⟨p, s, w, compiles, comes, here, -, -, ⟨ends, copies⟩, inside, next, top, next', top'⟩ :=
      resting.exists_script
        (P := fun p s => (p.chunk.turnEnds = [(20, 1)] ∧ p.chunk.localReads 1 = [1]) ∧
          (∀ t < (17 : Nat), 2 ≤ t → ((s.after t).frames.getLast?.map Frame.ip).any fun o => 3 ≤ o ∧ o ≤ 20) ∧
          ((s.after 2).frames.head?.map fun f => (f.closure.prototype.chunk.instrAt? f.ip, f.base)) =
            some (some (.closure 0 [⟨true, 2⟩]), 0) ∧
          ((s.after 3).stack.back?.bind fun v => v.cell? 0) = some 0 ∧
          ((s.after 15).frames.head?.map fun f => (f.closure.prototype.chunk.instrAt? f.ip, f.base)) =
            some (some (.closure 2 [⟨true, 2⟩]), 0) ∧
          ((s.after 16).stack.back?.bind fun v => v.cell? 0) = some 1)
        (show (compile "for (var i;;) { fun f() { i; } make()(); fun g() { i; } }"
          (hosting (handOut (.ofCode 0 #[] code))).machine.strings
          (hosting (handOut (.ofCode 0 #[] code))).machine.nextPrototype).outcome.toOption.any _ = true by
          decide +kernel)
    obtain ⟨place, loop, slot, turn_, finish_⟩ := script_loop compiles reads rfl ends copies
    refine ⟨_, p, _, place, s, compiles, loop, comes, here, fun t lower upper => ?_, ?_, ?_⟩
    · obtain ⟨o, there, body⟩ := (Option.any_eq_true _ _).1 (inside t (Nat.lt_succ_of_le upper) lower)
      refine ⟨o, there, ?_⟩
      rw [LoopPlace.Body, turn_, finish_]
      exact of_decide_eq_true body
    · rw [slot]
      exact captures_of_next next top
    · rw [slot]
      exact captures_of_next next' top'

end Session

end Lox
