import Lox.Proofs.Compile.SlotZero
import Lox.Proofs.Machine.Classes
import Lox.Proofs.Session.Sharing

/-!
# The slot zero of calls

No step gives slot zero of a call that goes on another value (`Respectful.slotZero`): the call itself does not
assign to it, and a closure that has captured it has done so under a name that a program cannot assign to
(`Closure.Respects`).  A method with the name of an initializer is one, and an initializer that returns has
the value of its slot zero on top of the stack (`Machine.Prepared`).  So a machine is `Respectful` in all
states of a run.
-/

namespace Lox

open Compile Machine Syntax

/-- The instruction makes no closure with code and changes no methods. -/
def Instr.Common : Instr → Prop
  | .closure _ _ | .inherit | .method _ => False
  | _ => True

/-! ## Initializers -/

/-- The function is an initializer. -/
def Prototype.Initializes (p : Prototype) : Prop :=
  ∃ Γ start items, Compiled p Γ start items ∧ Γ.kind = .initializer

/-- If there is a method with the name of an initializer then it is one. -/
def Table.InitializesWell (t : Table Closure) : Prop :=
  ∀ w, t.find? "init" = some w → w.prototype.Initializes

lemma Table.initializesWell_empty : (Table.empty : Table Closure).InitializesWell := by
  intro w found
  rw [Table.find?_empty] at found
  cases found

lemma Table.InitializesWell.addAll {t u : Table Closure} (h : t.InitializesWell) (h' : u.InitializesWell) :
    (t.addAll u).InitializesWell := by
  intro w found
  rw [Table.find?_addAll] at found
  rcases Option.or_eq_some_iff.1 found with own | ⟨-, old⟩
  · exact h' w own
  · exact h w old

lemma Table.InitializesWell.insert {t : Table Closure} (h : t.InitializesWell) {x : String} {w : Closure}
    (known : x = "init" → w.prototype.Initializes) : (t.insert x w).InitializesWell := by
  intro w' found
  rw [Table.find?_insert] at found
  split at found
  · next same =>
    obtain rfl := Option.some.inj found
    exact known same
  · exact h w' found

/-! ## Closures and slot zero -/

/-- The cell is open for slot zero of an active call. -/
def Machine.IsZero (m : Machine) (cell : Nat) : Prop := ∃ f ∈ m.frames, m.cells[cell]? = some (.opened f.base)

/-- In a context, a closure has captured slot zero of active calls under no name that a program can assign to. -/
def Closure.Apart (w : Closure) (m : Machine) (Γ : Context) : Prop :=
  ∀ x (index : UInt8) cell, CapturedAs x Γ.captures Γ.around index →
    w.captured[index.toNat]? = some cell → m.IsZero cell → ¬ ProperName x

/-- The closure has captured cells that there are, and slot zero of active calls under no name that a program can
assign to; or else it has no code. -/
structure Closure.Respects (m : Machine) (w : Closure) : Prop where
  cells : ∀ cell ∈ w.captured, cell < m.cells.size
  apart : w.Bare ∨ ∃ Γ start items, Compiled w.prototype Γ start items ∧ w.Apart m Γ

/-- It depends on the function of a closure and what it has captured. -/
lemma Closure.respects_copied (m : Machine) : Copied (Closure.Respects m) := fun known =>
  ⟨known.cells, known.apart.imp_left fun bare => bare.copy rfl rfl⟩

/-- No cell becomes that of a slot zero. -/
structure Machine.ZeroesFrom (m m' : Machine) : Prop where
  size : m.cells.size ≤ m'.cells.size
  old : ∀ cell < m.cells.size, m'.IsZero cell → m.IsZero cell

lemma Closure.Respects.grow {m m' : Machine} {w : Closure} (h : w.Respects m) (zeroes : m.ZeroesFrom m') :
    w.Respects m' := by
  refine ⟨fun cell there => (h.cells cell there).trans_le zeroes.size, h.apart.imp_right ?_⟩
  rintro ⟨Γ, start, items, compiled, apart⟩
  refine ⟨Γ, start, items, compiled, fun x index cell captured there zero => apart x index cell captured there ?_⟩
  exact zeroes.old cell (h.cells cell (Array.mem_of_getElem? there)) zero

/-! ## Making closures -/

namespace Machine

variable {bare : Prop} {m m' : Machine} {f g : Frame} {callers : List Frame} {i : Instr} {a : Unit}

/-- The cell is the one that a call captures: open for a place of its own, or else one that its closure has. -/
def Takes (m : Machine) (f : Frame) (capture : Capture) (cell : Nat) : Prop :=
  if capture.isLocal then m.cells[cell]? = some (.opened (f.base + capture.index.toNat))
  else f.closure.captured[capture.index.toNat]? = some cell

lemma capture_takes {capture : Capture} {cell : Nat} (frames : m.frames = f :: callers) (ordered : m.Ordered)
    (result : (if capture.isLocal then do captureSlot ((← frame).base + capture.index.toNat)
      else capturedCell capture.index : Action Nat) m = .ok cell m') :
    m'.Takes f capture cell ∧ (∃ openCells cells, m' = { m with openCells, cells }) ∧
      ∀ v, .closed v ∈ m'.cells → .closed v ∈ m.cells := by
  have running : ∀ {g}, frame m = .ok g m → g = f := by
    intro g here
    unfold frame at here
    rw [frames] at here
    exact (EStateM.Result.ok.inj here).1.symm
  unfold Takes
  split at result
  · next inner =>
    rw [if_pos inner]
    obtain ⟨g, here, result⟩ := inspect_ok inferInstance result
    obtain rfl := running here
    refine ⟨(captureSlot_opened ordered result).1, ?_⟩
    unfold captureSlot at result
    dsimp only at result
    split at result
    · obtain ⟨-, rfl⟩ := EStateM.Result.ok.inj result
      refine ⟨⟨_, _, rfl⟩, fun v there => ?_⟩
      rcases Array.mem_push.1 there with old | same
      · exact old
      · cases same
    · obtain ⟨-, rfl⟩ := EStateM.Result.ok.inj result
      exact ⟨⟨_, _, rfl⟩, fun v there => there⟩
  · next outer =>
    rw [if_neg outer]
    obtain ⟨g, here, result⟩ := inspect_ok inferInstance result
    obtain rfl := running here
    cases found : g.closure.captured[capture.index.toNat]? with
    | none =>
      rw [found] at result
      cases result
    | some cell' =>
      rw [found] at result
      obtain ⟨rfl, rfl⟩ := EStateM.Result.ok.inj result
      exact ⟨rfl, ⟨_, _, rfl⟩, fun v there => there⟩

/-- A cell that has been taken stays so while more are captured. -/
lemma Takes.keep {capture : Capture} {cell : Nat} (takes : m.Takes f capture cell)
    (kept : ∀ i < m.cells.size, m'.cells[i]? = m.cells[i]?) : m'.Takes f capture cell := by
  unfold Takes at *
  split at takes
  · next inner =>
    rw [if_pos inner, kept cell (Array.getElem?_eq_some_iff.1 takes).1, takes]
  · next outer =>
    rw [if_neg outer, takes]

lemma captureAll_takes {captures : List Capture} {found found' : Array Nat} (frames : m.frames = f :: callers)
    (ordered : m.Ordered) (result : captureAll captures found m = .ok found' m') :
    ∃ taken, found'.toList = found.toList ++ taken ∧ List.Forall₂ (m'.Takes f) captures taken ∧
      (∃ openCells cells, m' = { m with openCells, cells }) ∧ ∀ v, .closed v ∈ m'.cells → .closed v ∈ m.cells := by
  induction captures generalizing found m with
  | nil =>
    obtain ⟨rfl, rfl⟩ := EStateM.Result.ok.inj result
    exact ⟨[], (List.append_nil _).symm, .nil, ⟨_, _, rfl⟩, fun v there => there⟩
  | cons capture captures ih =>
    rw [captureAll_cons] at result
    obtain ⟨cell, m₁, first, rest⟩ := bind_ok result
    obtain ⟨frames₁, ordered₁, -⟩ := capture_opened frames ordered first
    obtain ⟨takes, same, closed⟩ := capture_takes frames ordered first
    obtain ⟨taken, whole, others, same', closed'⟩ := ih frames₁ ordered₁ rest
    have kept : KeepsCells (captureAll captures (found.push cell)) := inferInstance
    refine ⟨cell :: taken, ?_, .cons (takes.keep (kept.kept rest)) others, ?_,
      fun v there => closed v (closed' v there)⟩
    · rw [whole, Array.toList_push, List.append_assoc, List.singleton_append]
    · obtain ⟨openCells, cells, rfl⟩ := same
      obtain ⟨openCells', cells', rfl⟩ := same'
      exact ⟨openCells', cells', rfl⟩

/-- A closure is made on top of the stack, and nothing changes but that cells are opened. -/
lemma closure_made {index : UInt8} {captures : List Capture} (frames : m.frames = f :: callers)
    (ordered : m.Ordered) (result : exec (.closure index captures) m = .ok a m') :
    ∃ w openCells cells nextClosure,
      m' = { m with openCells, cells, nextClosure, stack := m.stack.push (.closure w) } ∧
      f.closure.prototype.chunk.constants[index.toNat]? = some (.prototype w.prototype) ∧
      List.Forall₂ (m'.Takes f) captures w.captured.toList ∧ ∀ v, .closed v ∈ cells → .closed v ∈ m.cells := by
  obtain ⟨c, known, result⟩ := inspect_ok inferInstance result
  obtain ⟨g, here, known⟩ := inspect_ok inferInstance known
  obtain rfl : f = g := by
    unfold frame at here
    rw [frames] at here
    exact (EStateM.Result.ok.inj here).1
  cases c with
  | prototype p =>
    have there : f.closure.prototype.chunk.constants[index.toNat]? = some (.prototype p) := by
      cases found : f.closure.prototype.chunk.constants[index.toNat]? with
      | none =>
        rw [found] at known
        cases known
      | some c =>
        rw [found] at known
        exact congrArg some (EStateM.Result.ok.inj known).1
    obtain ⟨captured, m₁, all, result⟩ := bind_ok result
    obtain ⟨-, rfl⟩ := EStateM.Result.ok.inj result
    obtain ⟨taken, whole, takes, ⟨openCells, cells, rfl⟩, closed⟩ := captureAll_takes frames ordered all
    obtain rfl : captured.toList = taken := whole
    exact ⟨⟨m.nextClosure, p, captured⟩, openCells, cells, m.nextClosure + 1, rfl, there, takes, closed⟩
  | _ => cases result

/-! ## Calls in a step -/

/-- What becomes of the calls in a step of the running one, where `next` is the offset of its next instruction and
the stack is so high: it goes on, or calls a closure of a sort, or returns. -/
inductive Passage (G : Closure → Prop) (size next : Nat) (f : Frame) (callers : List Frame) (i : Instr) :
    List Frame → Prop
  | goesOn {o} (place : o = next ∨ i.Leads next o) (other : i ≠ .ret) :
      Passage G size next f callers i ({ f with ip := o } :: callers)
  | enters {w base taken} (calls : i.Calls taken) (place : base + taken = size) (good : G w) :
      Passage G size next f callers i (⟨w, 0, base⟩ :: { f with ip := next } :: callers)
  | returns (returns : i = .ret) : Passage G size next f callers i callers

section Passage

variable {G : Closure → Prop} {I : Machine → Prop} {size next : Nat} {frames : List Frame}

/-- The calls of the closures that there were before. -/
lemma Passage.forall (passage : Passage G size next f callers i frames) (here : G f.closure)
    (others : ∀ g ∈ callers, G g.closure) : ∀ g ∈ frames, G g.closure := by
  cases passage with
  | goesOn => exact List.forall_mem_cons.2 ⟨here, others⟩
  | enters _ _ good => exact List.forall_mem_cons.2 ⟨good, List.forall_mem_cons.2 ⟨here, others⟩⟩
  | returns => exact others

/-- The places of the calls are those of before, or the one of the callee. -/
lemma Passage.base (passage : Passage G size next f callers i frames) (there : g ∈ frames) :
    (∃ h ∈ f :: callers, h.base = g.base) ∨ ∃ taken, i.Calls taken ∧ g.base + taken = size := by
  cases passage with
  | goesOn =>
    rcases List.mem_cons.1 there with rfl | there
    · exact .inl ⟨f, List.mem_cons_self, rfl⟩
    · exact .inl ⟨g, List.mem_cons_of_mem f there, rfl⟩
  | enters calls place =>
    rcases List.mem_cons.1 there with rfl | there
    · exact .inr ⟨_, calls, place⟩
    · rcases List.mem_cons.1 there with rfl | there
      · exact .inl ⟨f, List.mem_cons_self, rfl⟩
      · exact .inl ⟨g, List.mem_cons_of_mem f there, rfl⟩
  | returns => exact .inl ⟨g, List.mem_cons_of_mem f there, rfl⟩

/-- A call leads to a call of a closure of the sort, in the place of the callee, or takes one value for it. -/
lemma passage_of_calling {taken : Nat} (calls : i.Calls taken) (enough : taken ≤ m.stack.size)
    (frames : m.frames = { f with ip := next } :: callers) (result : exec i m = .ok a m')
    (calling : Keeper.Calling G I m.frames m') : Passage G m.stack.size next f callers i m'.frames := by
  have place : m.stack.size - taken + taken = m.stack.size := Nat.sub_add_cancel enough
  obtain ⟨-, same | ⟨w, base, good, called⟩⟩ := calling
  · rw [same, frames]
    exact .goesOn (.inl rfl) fun returns => by subst returns; cases calls
  · obtain ⟨_, -, -, ⟨_, -, same, -⟩ | ⟨w', -, called'⟩⟩ := exec_calls frames calls place result
    · have lengths := congrArg List.length (called.symm.trans same)
      rw [List.length_cons] at lengths
      exact absurd lengths (Nat.succ_ne_self _)
    · obtain ⟨rfl, rfl⟩ := Frame.mk.inj (List.cons.inj (called.symm.trans called')).1 |>.imp_right And.right
      rw [called, frames]
      exact .enters calls place good

/-- An instruction that makes no closures with code and changes no methods keeps what is known of both, no matter
whether it fails. -/
lemma exec_common (K : Keeper G (fun _ => True) I) (holds : I m) (common : i.Common)
    (frames : m.frames = { f with ip := next } :: callers) (enough : ∀ taken, i.Calls taken → taken ≤ m.stack.size) :
    Comes (fun _ m' => I m' ∧ Passage G m.stack.size next f callers i m'.frames) I (exec i m) := by
  have called : ∀ {taken}, i.Calls taken →
      Comes (fun _ m' => Keeper.Calling G I m.frames m') I (exec i m) →
      Comes (fun _ m' => I m' ∧ Passage G m.stack.size next f callers i m'.frames) I (exec i m) := by
    intro taken calls comes
    cases result : exec i m with
    | error stop m' =>
      rw [result] at comes
      exact comes
    | ok a m' =>
      rw [result] at comes
      exact ⟨comes.1, passage_of_calling calls (enough taken calls) frames result comes⟩
  have passes : i.Passes → i ≠ .ret →
      Comes (fun _ m' => I m' ∧ Passage G m.stack.size next f callers i m'.frames) I (exec i m) := by
    intro passes other
    refine (K.carries_exec passes (fun _ _ _ _ _ _ _ => trivial) m holds rfl).mono fun _ m' ⟨_, holds', same⟩ => ?_
    rw [same, frames]
    exact ⟨holds', .goesOn (.inl rfl) other⟩
  have jumps : ∀ {target}, i.Leads next target → i ≠ .ret →
      Comes (fun _ m' => I m' ∧ Passage G m.stack.size next f callers i m'.frames) I (exec i m) := by
    intro target leads other
    have done := exec_jump leads frames
    cases result : exec i m with
    | error stop m' =>
      rw [result] at done
      rw [show m' = m from done]
      exact holds
    | ok a m' =>
      rw [result] at done
      rcases done with rfl | rfl
      · refine ⟨holds, ?_⟩
        rw [frames]
        exact .goesOn (.inl rfl) other
      · exact ⟨K.same holds rfl rfl rfl rfl rfl rfl rfl, .goesOn (.inr leads) other⟩
  cases i with
  | closure | inherit | method => exact common.elim
  | call count =>
    refine called (.call count) ?_
    refine (K.peek count.toNat m holds rfl).bind fun v m₁ ⟨all, holds₁, frames₁⟩ => ?_
    exact K.callValue all count holds₁ frames₁
  | invoke index count =>
    refine called (.invoke index count) ?_
    exact (Carries.name index m holds rfl).bind fun x m₁ ⟨_, holds₁, frames₁⟩ => K.invoke x count holds₁ frames₁
  | superInvoke index count =>
    refine called (.superInvoke index count) ?_
    refine (Carries.name index m holds rfl).bind fun x m₁ ⟨_, holds₁, frames₁⟩ => ?_
    exact (K.popClass m₁ holds₁ frames₁).bind fun c m₂ ⟨_, holds₂, frames₂⟩ =>
      K.invokeFromClass c x count holds₂ frames₂
  | ret =>
    refine (K.ret holds frames).mono fun _ m' ⟨holds', same⟩ => ⟨holds', ?_⟩
    rw [same]
    exact .returns rfl
  | jump distance => exact @jumps (next + distance.toNat) rfl (by simp)
  | jumpIfFalse distance => exact @jumps (next + distance.toNat) rfl (by simp)
  | loop distance =>
    by_cases inside : distance.toNat ≤ next
    · exact @jumps (next - distance.toNat) (Nat.sub_add_cancel inside) (by simp)
    · have here : frame m = .ok { f with ip := next } m := by
        unfold frame
        rw [frames]
      rw [exec, bind_apply, here]
      dsimp only
      rw [if_neg inside]
      exact holds
  | _ => exact passes trivial (by simp)

end Passage

/-! ## What a call finds -/

/-- The running call is at an instruction of compiled code, and slot zero of each call is below all that the
instruction takes off the stack; the call below waits for it. -/
structure Executes (m : Machine) (f : Frame) (callers : List Frame) (i : Instr) : Prop where
  frames : m.frames = f :: callers
  decoded : f.closure.prototype.chunk.instrAt? f.ip = some i
  reaches : ∃ k, Reaches f.closure.prototype f.ip k
  step : m.step = exec i (m.past f callers i)
  zero : ∀ g ∈ m.frames, g.base + i.pops < m.stack.size
  above : ∀ g ∈ callers, g.base < f.base
  opened : ∀ {cell slot : Nat}, i ≠ .closeUpvalue → m.cells[cell]? = some (.opened slot) →
    slot + i.pops < m.stack.size
  waits : ∀ g rest, callers = g :: rest → g.Waits f.base

lemma Ready.executes_or (ready : Ready bare m) (waiting : Waiting m.frames) :
    (∃ f callers i, m.Executes f callers i) ∨
      bare ∧ ∃ f callers defect, m.frames = f :: callers ∧ f.closure.Bare ∧ m.step = .error (.broken defect) m := by
  rcases ready with ⟨c, T, E, f, callers, below, σ, there, h⟩ | ⟨none, c, S, f, callers, frames, empty, -⟩
  · obtain ⟨i, decoded, bound, flows⟩ := h.calls.fits.flows _ _ there
    refine .inl ⟨f, callers, i, h.frames, decoded, ⟨_, h.calls.fits.reaches there⟩, ?_, fun g active => ?_,
      fun g caller => ?_, fun other => h.open_below flows other, ?_⟩
    · rw [step, bind_apply, fetch_apply h.frames decoded bound]
    · exact (h.isLocal_base there waiting active).below h there decoded waiting
    · rw [h.frames] at waiting
      obtain ⟨base, lower, o, j, taken, k, decoded', past, calls, rfl, reaches⟩ := waiting.below caller
      obtain ⟨T', E', calls'⟩ := Suspended.calls h.suspended caller
      obtain ⟨Γ, start, items, compiled⟩ := calls'.fits.compiled
      obtain ⟨scope, inScope, some⟩ := compiled.inScope reaches
      have enough := inScope.pops decoded' reaches
      rw [calls.pops] at enough
      omega
    · rintro g rest rfl
      rw [h.frames] at waiting
      exact waiting.1
  · obtain ⟨defect, breaks⟩ := bare_breaks frames empty
    exact .inr ⟨none, f, callers, defect, frames, empty, breaks⟩

lemma Executes.calls_le {taken : Nat} (executes : m.Executes f callers i) (calls : i.Calls taken) :
    taken ≤ m.stack.size := by
  have lower := executes.zero f (executes.frames ▸ List.mem_cons_self)
  rw [calls.pops] at lower
  omega

/-- The place of a callee is that of no open cell, so no cell becomes that of a slot zero. -/
lemma Executes.zeroesFrom {G : Closure → Prop} {next : Nat} (executes : m.Executes f callers i)
    (ordered : m.Ordered) (result : m.step = .ok a m')
    (passage : Passage G m.stack.size next f callers i m'.frames) : m.ZeroesFrom m' := by
  have evolving : Evolving Machine.step := inferInstance
  have evolves := evolving.evolves m
  rw [result] at evolves
  refine ⟨evolves.grows, fun cell bound ⟨g, there, opened'⟩ => ?_⟩
  obtain ⟨content, known⟩ : ∃ content, m.cells[cell]? = some content := ⟨_, Array.getElem?_eq_getElem bound⟩
  cases content with
  | closed v =>
    obtain ⟨w, closed⟩ := evolves.closed known
    cases opened'.symm.trans closed
  | opened slot =>
    rcases step_opened ordered result known with ⟨-, v, closed⟩ | ⟨-, still⟩
    · cases opened'.symm.trans closed
    · obtain rfl := Cell.opened.inj (Option.some.inj (still.symm.trans opened'))
      rcases passage.base there with ⟨h, old, base⟩ | ⟨taken, calls, place⟩
      · exact ⟨h, executes.frames ▸ old, by rw [base, known]⟩
      · have lower := executes.opened (fun same => by subst same; cases calls) known
        rw [calls.pops] at lower
        omega

/-! ## Respectful machines -/

/-- What an instruction counts on that is made for initializers: one that returns has the value of its slot zero on
top, and a method with the name of one is one. -/
structure Prepared (m : Machine) (f : Frame) : Prop where
  returns : f.closure.prototype.chunk.instrAt? f.ip = some .ret → f.closure.prototype.Initializes →
    m.stack.back? = m.stack[f.base]?
  defines : ∀ index, f.closure.prototype.chunk.instrAt? f.ip = some (.method index) →
    f.closure.prototype.chunk.constantText index = "init" →
      ∃ w, m.stack.back? = some (.closure w) ∧ w.prototype.Initializes

/-- The closures in a machine respect slot zero of its calls, and methods with the name of initializers are
initializers. -/
structure Respectful (m : Machine) : Prop where
  holds : Holds (Closure.Respects m) m
  calls : ∀ f ∈ m.frames, f.closure.Respects m
  classes : m.Classes Table.InitializesWell
  prepared : ∀ f callers, m.frames = f :: callers → m.Prepared f

/-- What an instruction leaves behind. -/
structure Leaves (m : Machine) (f : Frame) (callers : List Frame) (i : Instr) (m' : Machine) : Prop where
  passage : Passage (Closure.Respects m) m.stack.size (f.ip + i.size) f callers i m'.frames
  holds : Holds (Closure.Respects m') m'
  classes : m'.Classes Table.InitializesWell

section Respectful

variable {Γ : Context} {start : List Local} {items : List Item}

/-- The running closure has a record of its compilation that agrees with what it has captured. -/
lemma Executes.record (executes : m.Executes f callers i) (respects : f.closure.Respects m) (other : i ≠ .constant 0) :
    ∃ Γ start items, Compiled f.closure.prototype Γ start items ∧ f.closure.Apart m Γ := by
  rcases respects.apart with bare | known
  · exact absurd (Option.some.inj (executes.decoded.symm.trans (bare.instrAt? f.ip))) other
  · exact known

/-- The closure of a function that is compiled where slot zero has no name respects it. -/
lemma closure_respects {index : UInt8} {captures : List Capture} {w : Closure} {L : List Local}
    (executes : m.Executes f callers (.closure index captures)) (respects : f.closure.Respects m)
    (compiled : Compiled f.closure.prototype Γ start items) (apart : f.closure.Apart m Γ) (rooted : Rooted L)
    (makes : MakesClosure Γ L (.closure index captures)) (zeroes : m.ZeroesFrom m')
    (frames : m'.frames = (m.past f callers (.closure index captures)).frames)
    (constant : f.closure.prototype.chunk.constants[index.toNat]? = some (.prototype w.prototype))
    (takes : List.Forall₂ (m'.Takes f) captures w.captured.toList) : w.Respects m' := by
  cases makes with
  | @intro _ Γ' kind p start' items' inside entry compiled' =>
  rw [compiled.pool, entry] at constant
  obtain rfl := Constant.prototype.inj (Option.some.inj constant)
  have taken : ∀ {k : Nat} {cell}, w.captured[k]? = some cell →
      ∃ capture, Γ'.captures[k]? = some capture ∧ m'.Takes f capture cell := by
    intro k cell there
    rw [← Array.getElem?_toList] at there
    obtain ⟨bound, rfl⟩ := List.getElem?_eq_some_iff.1 there
    have bound' : k < Γ'.captures.toList.length := takes.length_eq.symm ▸ bound
    refine ⟨Γ'.captures.toList[k], ?_, takes.get bound' bound⟩
    rw [← Array.getElem?_toList]
    exact List.getElem?_eq_getElem bound'
  refine ⟨fun cell there => ?_, .inr ⟨Γ', start', items', compiled', fun x k cell captured there zero => ?_⟩⟩
  · obtain ⟨k, there⟩ := Array.getElem?_of_mem there
    obtain ⟨capture, -, takes⟩ := taken there
    unfold Takes at takes
    split at takes
    · exact (Array.getElem?_eq_some_iff.1 takes).1
    · exact (respects.cells cell (Array.mem_of_getElem? takes)).trans_le zeroes.size
  · obtain ⟨capture, entry', takes⟩ := taken there
    rw [inside.around] at captured
    unfold Takes at takes
    cases captured with
    | @here _ _ _ _ slot v own found _ fits =>
      obtain rfl := Option.some.inj (entry'.symm.trans own)
      rw [if_pos rfl] at takes
      obtain ⟨g, active, opened⟩ := zero
      have place : f.base + (UInt8.ofNat slot).toNat = g.base :=
        Cell.opened.inj (Option.some.inj (takes.symm.trans opened))
      rw [UInt8.toNat_ofNat_of_lt' fits] at place
      rw [frames] at active
      rcases List.mem_cons.1 active with rfl | caller
      · obtain rfl : slot = 0 := Nat.add_eq_left.1 place
        exact rooted.zero found
      · have above := executes.above g caller
        omega
    | @further _ _ _ _ outer own missing chain =>
      obtain rfl := Option.some.inj (entry'.symm.trans own)
      rw [if_neg Bool.false_ne_true] at takes
      have old := respects.cells cell (Array.mem_of_getElem? takes)
      exact apart x outer cell chain takes (zeroes.old cell old zero)

/-- What an instruction leaves behind that makes no closures with code and changes no methods. -/
lemma Respectful.common (respectful : m.Respectful) (executes : m.Executes f callers i) (common : i.Common) :
    Comes (fun _ m' => (Holds (Closure.Respects m) m' ∧ Classes Table.InitializesWell m') ∧
        Passage (Closure.Respects m) m.stack.size (f.ip + i.size) f callers i m'.frames)
      (fun m' => Holds (Closure.Respects m) m' ∧ Classes Table.InitializesWell m')
      (exec i (m.past f callers i)) :=
  exec_common (holds_keeper (Closure.respects_copied m) Table.initializesWell_empty) (m := m.past f callers i)
    ⟨respectful.holds.of_same rfl rfl rfl rfl rfl rfl rfl, respectful.classes.of_same rfl rfl⟩ common rfl
    fun _ calls => executes.calls_le calls

/-- What an instruction leaves behind is respectful again. -/
lemma Respectful.leaves (respectful : m.Respectful) (executes : m.Executes f callers i)
    (ordered : m.Ordered) (result : m.step = .ok a m') : m.Leaves f callers i m' := by
  have stepped := result
  rw [executes.step] at result
  have here := respectful.calls f (executes.frames ▸ List.mem_cons_self)
  have past : Holds (Closure.Respects m) (m.past f callers i) := respectful.holds.of_same rfl rfl rfl rfl rfl rfl rfl
  have stays : i ≠ .ret → m'.frames = (m.past f callers i).frames →
      Passage (Closure.Respects m) m.stack.size (f.ip + i.size) f callers i m'.frames := by
    intro other frames
    rw [frames]
    exact .goesOn (.inl rfl) other
  have whole : Passage (Closure.Respects m) m.stack.size (f.ip + i.size) f callers i m'.frames →
      Holds (Closure.Respects m) m' → Classes Table.InitializesWell m' → m.Leaves f callers i m' :=
    fun passage holds classes =>
      ⟨passage, holds.mono fun w known => known.grow (executes.zeroesFrom ordered stepped passage), classes⟩
  have common : i.Common → m.Leaves f callers i m' := by
    intro common
    have done := respectful.common executes common
    rw [result] at done
    exact whole done.2 done.1.1 done.1.2
  cases i with
  | closure index captures =>
    obtain ⟨w, openCells, cells, nextClosure, rfl, constant, takes, closed⟩ :=
      closure_made (m := m.past f callers (.closure index captures)) rfl (ordered.of_same rfl rfl) result
    have passage := stays (by simp) rfl
    have zeroes := executes.zeroesFrom ordered stepped passage
    obtain ⟨Γ, start, items, compiled, apart⟩ := executes.record here (by simp)
    obtain ⟨k, reaches⟩ := executes.reaches
    obtain ⟨L, rooted, makes⟩ := compiled.spares reaches executes.decoded
    have made := closure_respects executes here compiled apart rooted makes zeroes rfl constant takes
    have old := past.mono fun w known => known.grow zeroes
    refine ⟨passage, { old with stack := fun v there => ?_, cells := fun v there => old.cells v (closed v there) },
      respectful.classes.of_same rfl rfl⟩
    rcases Array.mem_push.1 there with before | rfl
    · exact old.stack v before
    · exact made
  | inherit =>
    obtain ⟨c, r, t, -, -, found, rfl⟩ := inherit_ok result
    have among : t ∈ m.methods := Array.mem_of_getElem? found
    refine whole (stays (by simp) rfl) (past.pop.setMethods c.serial fun u old x w known => ?_)
      { respectful.classes with tables := forall_modify respectful.classes.tables fun u old =>
          (respectful.classes.tables u old).addAll (respectful.classes.tables t among) }
    rw [Table.find?_addAll] at known
    rcases Option.or_eq_some_iff.1 known with own | ⟨-, before⟩
    · exact past.methods t among x w own
    · exact past.methods u old x w before
  | method index =>
    obtain ⟨w, c, top, -, rfl⟩ := method_ok (m := m.past f callers (.method index)) rfl result
    have all : w.Respects m := past.stack _ (Array.mem_of_back? top)
    refine whole (stays (by simp) rfl) (past.pop.setMethods c.serial fun u old x w' known => ?_)
      { respectful.classes with tables := forall_modify respectful.classes.tables fun u old =>
          (respectful.classes.tables u old).insert fun named => ?_ }
    · rw [Table.find?_insert] at known
      split at known
      · exact Option.some.inj known ▸ all
      · exact past.methods u old x w' known
    · obtain ⟨w', top', initializes⟩ :=
        (respectful.prepared f callers executes.frames).defines index executes.decoded named
      cases top.symm.trans top'
      exact initializes
  | _ => exact common trivial

/-- The instruction before one that counts on it has been executed just now. -/
lemma Executes.precedes {G : Closure → Prop} {j : Instr} {k : Nat} {rest : List Frame}
    (executes : m.Executes f callers i) (passage : Passage G m.stack.size (f.ip + i.size) f callers i (g :: rest))
    (decoded : g.closure.prototype.chunk.instrAt? g.ip = some j) (reaches : Reaches g.closure.prototype g.ip k)
    (compiled : Compiled g.closure.prototype Γ start items) (counts : Γ.Counts j) :
    g.closure = f.closure ∧ g.base = f.base ∧ Γ.Prepares i j := by
  obtain ⟨k', reaches'⟩ := executes.reaches
  cases passage with
  | goesOn place => exact ⟨rfl, rfl, compiled.follows reaches' executes.decoded reaches decoded place counts⟩
  | enters => exact absurd counts (compiled.starts reaches decoded)
  | returns =>
    obtain ⟨o, i', taken, k'', decoded', past, calls, -, reaches''⟩ := executes.waits g rest rfl
    have prepares := compiled.follows reaches'' decoded' reaches decoded (.inl past) counts
    cases j with
    | ret =>
      obtain rfl : i' = .getLocal 0 := prepares
      cases calls
    | method =>
      obtain ⟨x, index, captures, -, -, -, -, -, rfl, -⟩ := prepares
      cases calls
    | _ => exact counts.elim

/-- What an instruction for an initializer counts on is so. -/
lemma Respectful.prepares {j : Instr} {rest : List Frame} (executes : m.Executes f callers i) (ordered : m.Ordered)
    (result : m.step = .ok a m') (leaves : m.Leaves f callers i m') (executes' : m'.Executes g rest j)
    (respects : g.closure.Respects m') : m'.Prepared g := by
  have lower := executes.zero f (executes.frames ▸ List.mem_cons_self)
  have passage := leaves.passage
  rw [executes'.frames] at passage
  rw [executes.step] at result
  obtain ⟨k, reaches⟩ := executes'.reaches
  refine ⟨fun decoded ⟨Γ, start, items, compiled, initializer⟩ => ?_, fun index decoded named => ?_⟩
  · obtain ⟨-, base, prepares⟩ := executes.precedes passage decoded reaches compiled initializer
    obtain rfl : i = .getLocal 0 := prepares
    have result : exec (Access.slot 0).read (m.past f callers (.getLocal 0)) = .ok a m' := result
    obtain ⟨v, reads, rfl⟩ := read_ok (f := { f with ip := f.ip + (Instr.getLocal 0).size }) rfl result
    have value : m.stack[f.base]? = some v := reads
    have bound := (Array.getElem?_eq_some_iff.1 value).1
    rw [base]
    show (m.stack.push v).back? = (m.stack.push v)[f.base]?
    rw [Array.back?_push, Array.getElem?_push, if_neg (Nat.ne_of_lt bound), value]
  · obtain rfl := Option.some.inj (executes'.decoded.symm.trans decoded)
    obtain ⟨Γ, start, items, compiled, -⟩ := executes'.record respects (by simp)
    obtain ⟨same, -, prepares⟩ := executes.precedes passage decoded reaches compiled trivial
    obtain ⟨x, index', captures, p, Γ', start', items', ⟨object, entry, text⟩, rfl, constant, compiled',
      kind⟩ := prepares
    obtain ⟨w, openCells, cells, nextClosure, rfl, constant', -⟩ :=
      closure_made (m := m.past f callers (.closure index' captures)) rfl (ordered.of_same rfl rfl) result
    refine ⟨w, Array.back?_push .., Γ', start', items', ?_, ?_⟩
    · have constant' : f.closure.prototype.chunk.constants[index'.toNat]? = some (.prototype w.prototype) := constant'
      rw [← same, compiled.pool, constant] at constant'
      rwa [← Constant.prototype.inj (Option.some.inj constant')]
    · rw [Chunk.constantText, compiled.pool, entry] at named
      have named : object.content = "init" := named
      rw [kind, ← text, named]
      rfl

/-- No step of a respectful machine gives slot zero of a call another value, unless it returns from the call. -/
theorem Respectful.slotZero (respectful : m.Respectful) (executes : m.Executes f callers i)
    (result : m.step = .ok a m') (there : g ∈ m.frames) (goesOn : i ≠ .ret ∨ g ∈ callers) :
    m'.stack[g.base]? = m.stack[g.base]? := by
  rw [executes.step] at result
  have lower := executes.zero g there
  have either : g = f ∨ g ∈ callers := List.mem_cons.1 (executes.frames ▸ there)
  have here := respectful.calls f (executes.frames ▸ List.mem_cons_self)
  obtain ⟨k, reaches⟩ := executes.reaches
  have below : (i.IsPlain ∨ ∃ taken, i.Calls taken) → m'.stack[g.base]? = m.stack[g.base]? := fun kind =>
    exec_below (m := m.past f callers i) rfl kind result lower
  cases i with
  | setLocal slot =>
    obtain ⟨Γ, start, items, compiled, -⟩ := executes.record here (by simp)
    have other : slot ≠ 0 := compiled.spares reaches executes.decoded
    obtain ⟨v, -, -, rfl⟩ := exec_setLocal_ok rfl result
    refine Array.getElem?_setIfInBounds_ne fun (same : f.base + slot.toNat = g.base) => ?_
    rcases either with rfl | caller
    · exact other (UInt8.toNat_inj.1 (Nat.add_eq_left.1 same))
    · have above := executes.above g caller
      omega
  | setUpvalue index =>
    obtain ⟨Γ, start, items, compiled, apart⟩ := executes.record here (by simp)
    obtain ⟨x, proper, captured⟩ := compiled.spares reaches executes.decoded
    obtain ⟨cell, v, own, -, ⟨-, rfl⟩ | ⟨slot, opened, -, rfl⟩⟩ := exec_setUpvalue_ok rfl result
    · rfl
    · refine Array.getElem?_setIfInBounds_ne fun same => ?_
      exact apart x index cell captured own ⟨g, there, same ▸ opened⟩ proper
  | ret =>
    have caller := goesOn.resolve_left fun other => other rfl
    have zero := executes.zero f (executes.frames ▸ List.mem_cons_self)
    exact (ret_moves executes.decoded (Nat.le_of_lt zero) result).1 g.base (executes.above g caller)
  | call | invoke | superInvoke => exact below (.inr ⟨_, by constructor⟩)
  | _ => exact below (.inl trivial)

/-- A step that fails leaves methods with the name of initializers alone. -/
lemma Respectful.stops {stop : Stop} (respectful : m.Respectful) (executes : m.Executes f callers i)
    (result : m.step = .error stop m') (sound : ∀ defect, stop ≠ .broken defect) :
    m'.Classes Table.InitializesWell := by
  rw [executes.step] at result
  have common : i.Common → m'.Classes Table.InitializesWell := by
    intro common
    have done := respectful.common executes common
    rw [result] at done
    exact done.2
  cases i with
  | closure => exact (exec_goesOn (by rw [exec]; infer_instance) (by simp) result sound).elim
  | method => exact (exec_goesOn (by rw [exec]; infer_instance) (by simp) result sound).elim
  | inherit =>
    obtain rfl := exec_inherit_error result sound
    exact respectful.classes.of_same rfl rfl
  | _ => exact common trivial

/-- A step leads from a respectful machine to a respectful one. -/
theorem Respectful.step (respectful : m.Respectful) (ready : Ready bare m) (ordered : m.Ordered)
    (waiting : Waiting m.frames) (result : m.step = .ok a m') : m'.Respectful := by
  have ready' : Ready bare m' := by
    have yields := step_yields ready ordered
    rwa [result] at yields
  rcases ready.executes_or waiting with ⟨f, callers, i, executes⟩ | ⟨-, f, callers, defect, -, -, breaks⟩
  · have leaves := respectful.leaves executes ordered result
    have zeroes := executes.zeroesFrom ordered result leaves.passage
    have calls : ∀ g ∈ m'.frames, g.closure.Respects m' := by
      have old := respectful.calls
      rw [executes.frames] at old
      obtain ⟨here, others⟩ := List.forall_mem_cons.1 old
      exact fun g there => (leaves.passage.forall here others g there).grow zeroes
    refine ⟨leaves.holds, calls, leaves.classes, fun g rest frames => ?_⟩
    rcases ready'.executes_or (ready.waiting waiting result) with
      ⟨g', rest', j, executes'⟩ | ⟨-, g', rest', -, frames', none, -⟩
    · obtain ⟨rfl, -⟩ := List.cons.inj (executes'.frames.symm.trans frames)
      exact Respectful.prepares executes ordered result leaves executes'
        (calls g' (frames ▸ List.mem_cons_self))
    · obtain ⟨rfl, -⟩ := List.cons.inj (frames'.symm.trans frames)
      refine ⟨fun decoded => ?_, fun index decoded => ?_⟩ <;> cases (none.instrAt? g'.ip).symm.trans decoded
  · cases breaks.symm.trans result

/-- Respect has nothing to do with the journal and the clock. -/
lemma Respectful.aside (respectful : m.Respectful) (journal : Array Event) (now : Float) :
    { m with journal, now }.Respectful where
  holds := (respectful.holds.mono fun _ known => ⟨known.cells, known.apart⟩).of_same rfl rfl rfl rfl rfl rfl rfl
  calls f there := ⟨(respectful.calls f there).cells, (respectful.calls f there).apart⟩
  classes := respectful.classes.of_same rfl rfl
  prepared f callers frames :=
    ⟨(respectful.prepared f callers frames).returns, (respectful.prepared f callers frames).defines⟩

end Respectful

end Machine

/-! ## Sessions -/

/-- The function of the host is fair, and the classes that it makes have initializers for methods with the name of
one. -/
structure NativeBody.Constructs (bare : Prop) (body : NativeBody) : Prop where
  fair : body.Fair bare
  classes : body.Classes Table.InitializesWell

/-- At rest, methods with the name of initializers are initializers, and in a run the machine is respectful. -/
def Phase.Respects : Phase → Machine → Prop
  | .resting, m => m.Classes Table.InitializesWell
  | .running, m => m.Respectful

namespace Session

variable {bare : Prop} {phase : Phase} {s : Session} {m m' : Machine}

lemma Journaled.respects (journaled : Journaled m m') (respects : phase.Respects m) : phase.Respects m' := by
  obtain ⟨journal, rfl⟩ := journaled
  cases phase with
  | resting => exact Classes.of_same respects rfl rfl
  | running => exact Respectful.aside respects journal m.now

/-- The machine is respectful at the start of a script: no cell is open. -/
lemma loaded_respectful {c : Census} (idle : m.Idle) (memory : Memory bare c [] m)
    (classes : m.Classes Table.InitializesWell) {p : Prototype} {Γ : Context} {start : List Local} {items : List Item}
    (compiled : Compiled p Γ start items) (strings : StringTable) (nextPrototype : Nat) :
    (loaded m p strings nextPrototype).Respectful := by
  have closed : ∀ cell, ¬ (loaded m p strings nextPrototype).IsZero cell := by
    rintro cell ⟨f, -, opened⟩
    obtain ⟨v, same⟩ := idle.cells _ (Array.mem_of_getElem? opened)
    cases same
  have apart : ∀ w Γ', Closure.Apart w (loaded m p strings nextPrototype) Γ' := fun _ _ _ _ cell _ _ zero =>
    absurd zero (closed cell)
  let script : Closure := ⟨m.nextClosure, p, #[]⟩
  have own : script.Respects (loaded m p strings nextPrototype) :=
    ⟨fun cell there => absurd there (Array.not_mem_empty cell), .inr ⟨Γ, start, items, compiled, apart _ _⟩⟩
  have old : Holds (Closure.Respects (loaded m p strings nextPrototype)) m := memory.holds fun w sound => by
    refine ⟨fun cell there => ?_, ?_⟩
    · show cell < m.cells.size
      rw [← memory.cells.size]
      exact sound.captures.2 cell there
    · rcases sound with ⟨kinds, ⟨Γ', start', items', compiled', -⟩, -⟩ | ⟨-, none⟩
      · exact .inr ⟨Γ', start', items', compiled', apart _ _⟩
      · exact .inl none
  have frames : ∀ f ∈ (loaded m p strings nextPrototype).frames, f = ⟨script, 0, m.stack.size⟩ := by
    rw [loaded, idle.frames]
    exact fun f there => List.mem_singleton.1 there
  refine ⟨{ old with stack := fun v there => ?_ }, fun f there => ?_, classes.of_same rfl rfl,
    fun f callers calls => ?_⟩
  · rcases Array.mem_push.1 there with before | rfl
    · exact old.stack v before
    · exact own
  · rw [frames f there]
    exact own
  · rw [frames f (calls ▸ List.mem_cons_self)]
    refine ⟨fun decoded initializes => ?_, fun index decoded => ?_⟩
    · obtain ⟨Γ', start', items', compiled', initializer⟩ := initializes
      exact absurd initializer (compiled'.starts .entry decoded)
    · exact absurd trivial (compiled.starts .entry decoded)

/-- The clock makes no classes. -/
lemma clock_classes {N : Table Closure → Prop} : clock.Classes N := fun _ _ _ _ answer => nomatch answer

lemma Reached.fair (here : Reached (NativeBody.Constructs bare) phase s) : Reached (NativeBody.Fair bare) phase s :=
  here.mono fun _ => NativeBody.Constructs.fair

/-- Methods with the name of initializers are initializers in every state of a session, and in every state of a run
the machine is respectful. -/
theorem Reached.respects (here : Reached (NativeBody.Constructs bare) phase s) : phase.Respects s.machine := by
  refine @Reached.invariant _ _ _ (fun phase s => phase.Respects s.machine) here (fun verbosity => ?_)
    fun {phase s phase' s'} constructs respects turn => ?_
  · have empty : Machine.empty.Classes Table.InitializesWell :=
      ⟨fun t there => absurd there (Array.not_mem_empty t), fun body there => absurd there (Array.not_mem_empty body)⟩
    exact @Journaled.respects .resting _ _ (note_journaled _ _ _) ((empty.newNative clock_classes).of_same rfl rfl)
  have here : Reached (NativeBody.Fair bare) phase s := constructs.fair
  have known : ∀ {fuel stop? s₁}, phase = .running → s.advance fuel = (stop?, s₁) →
      After (fun m => (Phase.running.Keeps m ∧ Ready bare m) ∧ Waiting m.frames ∧ m.Respectful) stop? s₁.machine := by
    rintro fuel stop? s₁ rfl runs
    exact here.advance_waiting (fun same respectful => @Journaled.respects .running _ _ same respectful)
      (fun ready ordered waiting respectful step => respectful.step ready ordered waiting step) respects runs
  cases turn with
  | native admitted =>
    exact @Journaled.respects .resting _ _ (note_journaled _ _ _)
      ((Classes.newNative respects admitted.classes).of_same rfl rfl)
  | reject rejects =>
    obtain ⟨strings, same⟩ := load_rejects rejects
    exact @Journaled.respects .resting _ _ same (Classes.of_same respects rfl rfl)
  | load loads =>
    have idle : s.machine.Idle := here.keeps
    obtain ⟨p, strings, nextPrototype, compiles, same⟩ := load_idle loads idle
    obtain ⟨Γ, v, items, -, compiled⟩ := compile_compiled compiles
    obtain ⟨c, memory⟩ := here.fit
    exact @Journaled.respects .running _ _ same
      (loaded_respectful idle memory respects compiled strings nextPrototype)
  | advance goesOn => exact (known rfl goesOn).2.2
  | @finish s s₁ s₂ fuel stop outcome stops finishes sound =>
    obtain ⟨m, ⟨⟨keeps, ready⟩, waiting, respectful⟩, step⟩ := known rfl stops
    have kept : (∀ defect, stop ≠ .broken defect) → s₁.machine.Classes Table.InitializesWell := by
      intro whole
      rcases ready.executes_or waiting with ⟨f, callers, i, executes⟩ | ⟨-, f, callers, defect, -, -, breaks⟩
      · exact respectful.stops executes step whole
      · exact absurd (EStateM.Result.error.inj (step.symm.trans breaks)).1 (whole defect)
    rcases finish_machine finishes sound with ⟨rfl, -, told⟩ | ⟨error, m', rfl, -, told, closes, given_up⟩
    · exact @Journaled.respects .resting _ _ told (kept (by simp))
    · rw [given_up]
      have respects : Phase.resting.Respects s₁.machine := kept (by simp)
      exact Classes.of_same (told.respects respects) rfl rfl
  | time now =>
    cases phase with
    | resting => exact Classes.of_same respects rfl rfl
    | running => exact Respectful.aside respects s.machine.journal now
  | journal => exact Journaled.respects ⟨#[], rfl⟩ respects

end Session

end Lox
