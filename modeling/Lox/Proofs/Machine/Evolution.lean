import Lox.Machine.Run
import Mathlib.Data.List.Basic
import Mathlib.Tactic.Lemma

/-!
# How a machine evolves

What every step keeps, whatever the code is and whatever the functions of the host answer.  Cells are
never taken away, a closed cell stays closed, and `openCells` goes on listing exactly the open cells,
the highest place first (`Ordered`).  The call at the bottom starts at place zero, and there are never
more calls than may be (`Grounded`); so a run that finishes leaves nothing open (`Idle`).
-/

namespace Lox.Machine

variable {α β : Type}

/-! ## Open cells -/

/-- The open cells are exactly those that are listed, the highest place first; so each is listed
once and no two of them refer to one place. -/
structure Ordered (m : Machine) : Prop where
  opened : ∀ i, i ∈ m.openCells ↔ ∃ slot, m.slotOf i = some slot
  decreasing : m.openCells.Pairwise fun i j =>
    ∀ s t, m.slotOf i = some s → m.slotOf j = some t → t < s

/-- There is neither a value nor a call nor an open cell. -/
structure Idle (m : Machine) : Prop where
  stack : m.stack = #[]
  frames : m.frames = []
  openCells : m.openCells = []
  cells : ∀ cell ∈ m.cells, ∃ v, cell = .closed v

lemma slotOf_eq_some {m : Machine} {i slot : Nat} :
    m.slotOf i = some slot ↔ m.cells[i]? = some (.opened slot) := by
  unfold slotOf
  cases cell : m.cells[i]? with
  | none => exact ⟨fun h => absurd h (by simp), fun h => absurd h (by simp)⟩
  | some c =>
    cases c with
    | opened s =>
      rw [Option.bind_some, Cell.slot?]
      exact ⟨fun h => by rw [Option.some.inj h], fun h => by rw [Cell.opened.inj (Option.some.inj h)]⟩
    | closed v => exact ⟨fun h => absurd h (by simp [Cell.slot?]), fun h => absurd h (by simp)⟩

/-- The order is that of the cells. -/
lemma Ordered.of_same {m m' : Machine} (ordered : m.Ordered) (cells : m'.cells = m.cells)
    (openCells : m'.openCells = m.openCells) : m'.Ordered := by
  have place : m'.slotOf = m.slotOf := by
    unfold slotOf
    rw [cells]
  refine ⟨fun i => ?_, ?_⟩
  · rw [openCells, place]
    exact ordered.opened i
  · rw [openCells, place]
    exact ordered.decreasing

lemma Idle.ordered {m : Machine} (idle : m.Idle) : m.Ordered := by
  refine ⟨fun i => ?_, by rw [idle.openCells]; exact .nil⟩
  rw [idle.openCells]
  refine ⟨fun there => absurd there List.not_mem_nil, fun ⟨slot, opened⟩ => ?_⟩
  obtain ⟨v, closed⟩ := idle.cells _ (Array.mem_of_getElem? (slotOf_eq_some.1 opened))
  exact nomatch closed

/-- Whether a machine is idle depends on its stack, its calls and its cells. -/
lemma Idle.of_same {m m' : Machine} (idle : m.Idle) (stack : m'.stack = m.stack)
    (frames : m'.frames = m.frames) (openCells : m'.openCells = m.openCells)
    (cells : m'.cells = m.cells) : m'.Idle := by
  refine ⟨stack.trans idle.stack, frames.trans idle.frames, openCells.trans idle.openCells, ?_⟩
  rw [cells]
  exact idle.cells

/-- If no cell refers to a place then none is listed and all are closed. -/
lemma Ordered.nothing_open {m : Machine} (ordered : m.Ordered)
    (nowhere : ∀ i slot, m.slotOf i ≠ some slot) :
    m.openCells = [] ∧ ∀ cell ∈ m.cells, ∃ v, cell = .closed v := by
  refine ⟨List.eq_nil_iff_forall_not_mem.2 fun i there => ?_, fun cell there => ?_⟩
  · obtain ⟨slot, place⟩ := (ordered.opened i).1 there
    exact nowhere i slot place
  · obtain ⟨i, here⟩ := Array.getElem?_of_mem there
    cases cell with
    | opened slot => exact absurd (slotOf_eq_some.2 here) (nowhere i slot)
    | closed v => exact ⟨v, rfl⟩

section Capturing

variable {place : Nat → Option Nat} {slot new : Nat}

/-- A cell for a place is either found or put in order. -/
lemma findOrInsert_cases (l : List Nat)
    (decreasing : l.Pairwise fun i j => ∀ s t, place i = some s → place j = some t → t < s)
    (opened : ∀ i ∈ l, ∃ s, place i = some s) :
    (∃ i ∈ l, place i = some slot ∧ findOrInsert place slot new l = (i, l)) ∨
      ∃ higher lower, l = higher ++ lower ∧
        findOrInsert place slot new l = (new, higher ++ new :: lower) ∧
        (∀ i ∈ higher, ∀ s, place i = some s → slot < s) ∧
        ∀ i ∈ lower, ∀ s, place i = some s → s < slot := by
  induction l with
  | nil =>
    exact .inr ⟨[], [], rfl, rfl, fun _ there => absurd there List.not_mem_nil, fun _ there => nomatch there⟩
  | cons i lower ih =>
    obtain ⟨below, decreasing⟩ := List.pairwise_cons.1 decreasing
    obtain ⟨s, here⟩ := opened i List.mem_cons_self
    rw [findOrInsert]
    by_cases same : place i = some slot
    · rw [if_pos same]
      exact .inl ⟨i, List.mem_cons_self, same, rfl⟩
    · rw [if_neg same, here, Option.any_some]
      rw [here] at same
      have other : s ≠ slot := fun h => same (congrArg some h)
      by_cases lower_ : s < slot
      · rw [if_pos (decide_eq_true lower_)]
        refine .inr ⟨[], i :: lower, rfl, rfl, fun _ there => absurd there List.not_mem_nil, ?_⟩
        intro j there t place_j
        rcases List.mem_cons.1 there with rfl | there
        · rw [here] at place_j
          exact Option.some.inj place_j ▸ lower_
        · exact Nat.lt_trans (below j there s t here place_j) lower_
      · rw [if_neg (by simpa using Nat.le_of_not_lt lower_)]
        rcases ih decreasing fun j there => opened j (List.mem_cons_of_mem _ there) with
          ⟨j, there, place_j, found⟩ | ⟨higher, rest, rfl, inserted, above, under⟩
        · rw [found]
          exact .inl ⟨j, List.mem_cons_of_mem _ there, place_j, rfl⟩
        · rw [inserted]
          refine .inr ⟨i :: higher, rest, rfl, rfl, ?_, under⟩
          intro j there t place_j
          rcases List.mem_cons.1 there with rfl | there
          · rw [here] at place_j
            rw [← Option.some.inj place_j]
            omega
          · exact above j there t place_j

end Capturing

section Closing

variable {m : Machine} {last : Nat}

/-- The cells to close are the first ones: those of places from `last` on. -/
lemma partCells_spec {l staying : List Nat} {closing : List (Nat × Value)}
    (parts : m.partCells last l = some (closing, staying)) :
    l = closing.map Prod.fst ++ staying ∧
      (∀ i v, (i, v) ∈ closing → ∃ slot, m.slotOf i = some slot ∧ last ≤ slot ∧
        m.stack[slot]? = some v) ∧
      ∀ i ∈ staying.head?, ∀ slot, m.slotOf i = some slot → slot < last := by
  induction l generalizing closing with
  | nil =>
    obtain ⟨rfl, rfl⟩ := Prod.mk.inj (Option.some.inj parts)
    exact ⟨rfl, fun _ _ there => absurd there List.not_mem_nil, fun _ there => nomatch there⟩
  | cons i lower ih =>
    rw [partCells] at parts
    cases place : m.slotOf i with
    | none =>
      rw [place] at parts
      obtain ⟨rfl, rfl⟩ := Prod.mk.inj (Option.some.inj parts)
      refine ⟨rfl, fun _ _ there => absurd there List.not_mem_nil, fun j there slot place_j => ?_⟩
      rw [← Option.some.inj there, place] at place_j
      exact nomatch place_j
    | some slot =>
      rw [place] at parts
      dsimp only at parts
      by_cases higher : last ≤ slot
      · rw [if_pos higher] at parts
        cases value : m.stack[slot]? with
        | none => rw [value] at parts; exact nomatch parts
        | some v =>
          rw [value] at parts
          cases others : m.partCells last lower with
          | none => rw [others] at parts; exact nomatch parts
          | some pair =>
            obtain ⟨closing', staying'⟩ := pair
            rw [others] at parts
            obtain ⟨rfl, rfl⟩ := Prod.mk.inj (Option.some.inj parts)
            obtain ⟨split, closes, stays⟩ := ih others
            refine ⟨congrArg (i :: ·) split, ?_, stays⟩
            intro j w there
            rcases List.mem_cons.1 there with same | there
            · obtain ⟨rfl, rfl⟩ := Prod.mk.inj same
              exact ⟨slot, place, higher, value⟩
            · exact closes j w there
      · rw [if_neg higher] at parts
        obtain ⟨rfl, rfl⟩ := Prod.mk.inj (Option.some.inj parts)
        refine ⟨rfl, fun _ _ there => absurd there List.not_mem_nil, fun j there s place_j => ?_⟩
        rw [← Option.some.inj there, place] at place_j
        rw [← Option.some.inj place_j]
        omega

/-- The cells can be parted if they refer to places on the stack. -/
lemma partCells_some (l : List Nat)
    (onStack : ∀ i ∈ l, ∀ slot, m.slotOf i = some slot → slot < m.stack.size) :
    ∃ parts, m.partCells last l = some parts := by
  induction l with
  | nil => exact ⟨_, rfl⟩
  | cons i lower ih =>
    obtain ⟨parts, others⟩ := ih fun j there => onStack j (List.mem_cons_of_mem _ there)
    rw [partCells]
    cases place : m.slotOf i with
    | none => exact ⟨_, rfl⟩
    | some slot =>
      have value := Array.getElem?_eq_getElem (onStack i List.mem_cons_self slot place)
      dsimp only
      split
      · rw [value, others]
        exact ⟨_, rfl⟩
      · exact ⟨_, rfl⟩

@[simp] lemma size_closeAll (closing : List (Nat × Value)) (cells : Array Cell) :
    (closeAll closing cells).size = cells.size := by
  unfold closeAll
  induction closing generalizing cells with
  | nil => rfl
  | cons p closing ih => rw [List.foldl_cons, ih, Array.size_setIfInBounds]

/-- Other cells are as before. -/
lemma closeAll_other {closing : List (Nat × Value)} {i : Nat} (other : i ∉ closing.map Prod.fst)
    (cells : Array Cell) : (closeAll closing cells)[i]? = cells[i]? := by
  unfold closeAll
  induction closing generalizing cells with
  | nil => rfl
  | cons p closing ih =>
    rw [List.map_cons, List.mem_cons, not_or] at other
    obtain ⟨apart, others⟩ := other
    rw [List.foldl_cons, ih others, Array.getElem?_setIfInBounds_ne (Ne.symm apart)]

/-- A cell that is closed has one of the values that it was to take over. -/
lemma closeAll_closes {closing : List (Nat × Value)} {i : Nat} (there : i ∈ closing.map Prod.fst)
    {cells : Array Cell} (bound : i < cells.size) :
    ∃ v, (i, v) ∈ closing ∧ (closeAll closing cells)[i]? = some (.closed v) := by
  induction closing generalizing cells with
  | nil => exact nomatch there
  | cons p closing ih =>
    obtain ⟨j, w⟩ := p
    by_cases further : i ∈ closing.map Prod.fst
    · obtain ⟨v, among, closed⟩ := @ih further (cells.setIfInBounds j (.closed w))
        (by rwa [Array.size_setIfInBounds])
      exact ⟨v, List.mem_cons_of_mem _ among, closed⟩
    · obtain rfl : i = j := by
        rcases List.mem_cons.1 there with same | there
        · exact same
        · exact absurd there further
      refine ⟨w, List.mem_cons_self, ?_⟩
      have last := closeAll_other further (cells.setIfInBounds i (.closed w))
      rwa [Array.getElem?_setIfInBounds_self_of_lt bound] at last

end Closing

/-! ## Evolution -/

/-- What becomes of the cells: none is taken away, a closed one stays closed, and the open ones stay
in order. -/
structure Evolves (m m' : Machine) : Prop where
  grows : m.cells.size ≤ m'.cells.size
  closed : ∀ {i : Nat} {v}, m.cells[i]? = some (.closed v) → ∃ w, m'.cells[i]? = some (.closed w)
  ordered : m.Ordered → m'.Ordered

namespace Evolves

variable {m m' m'' : Machine}

lemma refl (m : Machine) : Evolves m m := ⟨Nat.le_refl _, fun closed => ⟨_, closed⟩, id⟩

lemma trans (first : Evolves m m') (second : Evolves m' m'') : Evolves m m'' := by
  refine ⟨Nat.le_trans first.grows second.grows, fun closed => ?_,
    fun ordered => second.ordered (first.ordered ordered)⟩
  obtain ⟨w, closed⟩ := first.closed closed
  exact second.closed closed

lemma of_same (cells : m'.cells = m.cells) (openCells : m'.openCells = m.openCells) :
    Evolves m m' :=
  ⟨Nat.le_of_eq (congrArg Array.size cells.symm), fun closed => ⟨_, by rw [cells]; exact closed⟩,
    fun ordered => ordered.of_same cells openCells⟩

end Evolves

/-- The call at the bottom starts at place zero, and there are not too many calls. -/
structure Grounded (m : Machine) : Prop where
  bottom : m.frames.getLast?.map Frame.base = some 0
  few : m.frames.length ≤ maxFrames

lemma Grounded.of_same {m m' : Machine} (grounded : m.Grounded) (frames : m'.frames = m.frames) :
    m'.Grounded := by
  refine ⟨?_, ?_⟩ <;> rw [frames]
  exacts [grounded.bottom, grounded.few]

/-- The state that an action leaves. -/
def left : EStateM.Result Stop Machine α → Machine
  | .ok _ m => m
  | .error _ m => m

/-- Why an action stops the run, if it does. -/
def stop? : EStateM.Result Stop Machine α → Option Stop
  | .ok _ _ => none
  | .error stop _ => some stop

lemma eq_error_of_stop? {result : EStateM.Result Stop Machine α} {stop : Stop}
    (stopped : stop? result = some stop) : result = .error stop (left result) := by
  cases result with
  | ok => cases stopped
  | error stop' m =>
    obtain rfl := Option.some.inj stopped
    rfl

/-- The calls after an action: if it finishes the run, there is nothing left. -/
def Ends : EStateM.Result Stop Machine α → Prop
  | .ok _ m => m.Grounded
  | .error .finished m => m.Idle
  | .error (.failed _) m => m.Grounded
  | .error (.broken _) _ => True

/-- Whatever the action does, the cells evolve; and from a state in order it gets to one. -/
class Evolving (act : Action α) : Prop where
  evolves : ∀ m, Evolves m (left (act m))
  ends : ∀ m, m.Ordered → m.Grounded → Ends (act m)

section Combinators

lemma bind_apply (act : Action α) (f : α → Action β) (m : Machine) :
    (act >>= f) m =
      match act m with
      | .ok a m' => f a m'
      | .error e m' => .error e m' := by
  show EStateM.bind act f m = _
  unfold EStateM.bind
  cases act m <;> rfl

lemma get_apply (m : Machine) : (get : Action Machine) m = .ok m m := rfl

lemma modify_apply (f : Machine → Machine) (m : Machine) :
    (modify f : Action Unit) m = .ok () (f m) := rfl

instance (a : α) : Evolving (pure a : Action α) := ⟨fun m => .refl m, fun _ _ grounded => grounded⟩

lemma evolving_bind {act : Action α} {f : α → Action β} (first : Evolving act)
    (second : ∀ a, Evolving (f a)) : Evolving (act >>= f) := by
  refine ⟨fun m => ?_, fun m ordered grounded => ?_⟩
  · have evolves := first.evolves m
    rw [bind_apply]
    cases result : act m with
    | ok a m' =>
      rw [result] at evolves
      exact evolves.trans ((second a).evolves m')
    | error e m' =>
      rw [result] at evolves
      exact evolves
  · have evolves := first.evolves m
    have ends := first.ends m ordered grounded
    rw [bind_apply]
    cases result : act m with
    | ok a m' =>
      rw [result] at evolves ends
      exact (second a).ends m' (evolves.ordered ordered) ends
    | error e m' =>
      rw [result] at ends
      cases e <;> exact ends

instance (act : Action α) (f : α → Action β) [first : Evolving act] [second : ∀ a, Evolving (f a)] :
    Evolving (act >>= f) :=
  evolving_bind first second

instance : Evolving (get : Action Machine) := ⟨fun m => .refl m, fun _ _ grounded => grounded⟩

instance (c : Prop) [Decidable c] (x y : Action α) [Evolving x] [Evolving y] :
    Evolving (if c then x else y) := by
  split <;> infer_instance

/-- The action leaves the cells and the calls alone, and does not finish the run. -/
def Aside (act : Action α) : Prop :=
  ∀ m, (left (act m)).cells = m.cells ∧ (left (act m)).openCells = m.openCells ∧
    (left (act m)).frames = m.frames ∧ ∀ m', act m ≠ .error .finished m'

lemma Aside.evolving {act : Action α} (h : Aside act) : Evolving act := by
  refine ⟨fun m => .of_same (h m).1 (h m).2.1, fun m _ grounded => ?_⟩
  obtain ⟨-, -, frames, goesOn⟩ := h m
  cases result : act m with
  | ok a m' =>
    rw [result] at frames
    exact grounded.of_same frames
  | error e m' =>
    rw [result] at frames
    cases e with
    | finished => exact absurd result (goesOn m')
    | failed => exact grounded.of_same frames
    | broken => trivial

end Combinators

/-! ### Actions that leave the cells and the calls alone -/

section Aside

instance (error : RuntimeError) : Evolving (fail error : Action α) :=
  Aside.evolving fun _ => ⟨rfl, rfl, rfl, fun _ h => nomatch h⟩

instance (defect : Defect) : Evolving (broken defect : Action α) :=
  Aside.evolving fun _ => ⟨rfl, rfl, rfl, fun _ h => nomatch h⟩

instance (defect : Defect) (a? : Option α) : Evolving (orBroken defect a?) := by
  cases a? <;> rw [orBroken] <;> infer_instance

instance (v : Value) : Evolving (push v) :=
  Aside.evolving fun _ => ⟨rfl, rfl, rfl, fun _ h => nomatch h⟩

instance : Evolving pop := by
  refine Aside.evolving fun m => ?_
  unfold pop
  split <;> exact ⟨rfl, rfl, rfl, fun _ h => nomatch h⟩

instance (distance : Nat) : Evolving (peek distance) := by
  refine Aside.evolving fun m => ?_
  unfold peek
  split <;> exact ⟨rfl, rfl, rfl, fun _ h => nomatch h⟩

instance (distance : Nat) (v : Value) : Evolving (replace distance v) := by
  refine Aside.evolving fun m => ?_
  unfold replace
  split <;> exact ⟨rfl, rfl, rfl, fun _ h => nomatch h⟩

instance (slot : Nat) : Evolving (readSlot slot) := by
  refine Aside.evolving fun m => ?_
  unfold readSlot
  split <;> exact ⟨rfl, rfl, rfl, fun _ h => nomatch h⟩

instance (slot : Nat) (v : Value) : Evolving (writeSlot slot v) := by
  refine Aside.evolving fun m => ?_
  unfold writeSlot
  split <;> exact ⟨rfl, rfl, rfl, fun _ h => nomatch h⟩

instance (size : Nat) : Evolving (cutStack size) :=
  Aside.evolving fun _ => ⟨rfl, rfl, rfl, fun _ h => nomatch h⟩

instance (b : Blueprint) : Evolving (make b) := by
  refine Aside.evolving fun m => ?_
  cases b <;> exact ⟨rfl, rfl, rfl, fun _ h => nomatch h⟩

instance : Evolving frame := by
  refine Aside.evolving fun m => ?_
  unfold frame
  split <;> exact ⟨rfl, rfl, rfl, fun _ h => nomatch h⟩

lemma evolving_modifyGet {f : Machine → α × Machine} (same : ∀ m, (f m).2.cells = m.cells ∧
    (f m).2.openCells = m.openCells ∧ (f m).2.frames = m.frames) :
    Evolving (modifyGet f : Action α) :=
  Aside.evolving fun m => ⟨(same m).1, (same m).2.1, (same m).2.2, fun _ h => nomatch h⟩

lemma evolving_modify {f : Machine → Machine} (same : ∀ m, (f m).cells = m.cells ∧
    (f m).openCells = m.openCells ∧ (f m).frames = m.frames) : Evolving (modify f : Action Unit) :=
  evolving_modifyGet same

instance (c : ClassRef) (f : Table Closure → Table Closure) : Evolving (modifyMethods c f) := by
  refine Aside.evolving fun m => ?_
  unfold modifyMethods
  split <;> exact ⟨rfl, rfl, rfl, fun _ h => nomatch h⟩

instance (serial : Nat) (name : String) (v : Value) : Evolving (setField serial name v) := by
  refine Aside.evolving fun m => ?_
  unfold setField
  split <;> exact ⟨rfl, rfl, rfl, fun _ h => nomatch h⟩

instance (index : UInt8) : Evolving (constant index) := by
  unfold constant
  infer_instance

instance (index : UInt8) : Evolving (name index) := by
  unfold name
  refine evolving_bind inferInstance fun c => ?_
  split <;> infer_instance

instance : Evolving popClass := by
  unfold popClass
  refine evolving_bind inferInstance fun v => ?_
  split <;> infer_instance

instance (c : ClassRef) : Evolving (methodsOf c) := by
  unfold methodsOf
  infer_instance

instance (c : ClassRef) (name : String) : Evolving (method c name) := by
  unfold method
  refine evolving_bind inferInstance fun methods => ?_
  split <;> infer_instance

instance (serial : Nat) (name : String) : Evolving (field? serial name) := by
  unfold field?
  infer_instance

end Aside

/-! ### Calls -/

section Calls

lemma Grounded.nonempty {m : Machine} (grounded : m.Grounded) :
    ∃ f callers, m.frames = f :: callers := by
  cases frames : m.frames with
  | nil =>
    have bottom := grounded.bottom
    rw [frames] at bottom
    exact nomatch bottom
  | cons f callers => exact ⟨f, callers, rfl⟩

/-- A call that goes on elsewhere. -/
lemma Grounded.goto {m m' : Machine} (grounded : m.Grounded) {f : Frame} {callers : List Frame}
    (frames : m.frames = f :: callers) (ip : Nat)
    (frames' : m'.frames = { f with ip } :: callers) : m'.Grounded := by
  obtain ⟨bottom, few⟩ := grounded
  rw [frames] at bottom few
  refine ⟨?_, ?_⟩ <;> rw [frames']
  · cases callers with
    | nil => exact bottom
    | cons g callers => exact bottom
  · exact few

instance (ip : Nat) : Evolving (goto ip) := by
  refine ⟨fun m => ?_, fun m _ grounded => ?_⟩
  · unfold goto
    split <;> exact .of_same rfl rfl
  · obtain ⟨f, callers, frames⟩ := grounded.nonempty
    rw [goto, frames]
    exact grounded.goto frames ip rfl

instance : Evolving fetch := by
  refine ⟨fun m => ?_, fun m _ grounded => ?_⟩
  · unfold fetch
    split
    · exact .refl m
    · dsimp only
      split
      · exact .refl m
      · split <;> exact .of_same rfl rfl
  · obtain ⟨f, callers, frames⟩ := grounded.nonempty
    rw [fetch, frames]
    dsimp only
    split
    · trivial
    · split
      · exact grounded.goto frames _ rfl
      · trivial

instance (closure : Closure) (count : UInt8) : Evolving (call closure count) := by
  refine ⟨fun m => ?_, fun m _ grounded => ?_⟩
  · unfold call
    dsimp only
    split
    · exact .refl m
    · split
      · exact .refl m
      · split <;> exact .of_same rfl rfl
  · rw [call]
    split
    · exact grounded
    · split
      · exact grounded
      · next few =>
        split
        · obtain ⟨f, callers, frames⟩ := grounded.nonempty
          refine ⟨?_, Nat.succ_le_of_lt (Nat.lt_of_not_le few)⟩
          have bottom := grounded.bottom
          rw [frames] at bottom
          show (List.getLast? (_ :: m.frames)).map Frame.base = some 0
          rw [frames]
          exact bottom
        · trivial

end Calls

/-! ### Captured variables -/

section Cells

/-- The cell for a place is found, or else a new one takes its place in the order. -/
lemma captureSlot_cases {m : Machine} (ordered : m.Ordered) (slot : Nat) :
    (∃ i, m.slotOf i = some slot ∧ captureSlot slot m = .ok i m) ∨
      ∃ openCells, ({ m with openCells, cells := m.cells.push (.opened slot) } : Machine).Ordered ∧
        captureSlot slot m =
          .ok m.cells.size { m with openCells, cells := m.cells.push (.opened slot) } := by
  have old : ∀ i ∈ m.openCells, i < m.cells.size := by
    intro i there
    obtain ⟨s, place⟩ := (ordered.opened i).1 there
    exact (Array.getElem?_eq_some_iff.1 (slotOf_eq_some.1 place)).1
  unfold captureSlot
  dsimp only
  rcases @findOrInsert_cases m.slotOf slot m.cells.size m.openCells ordered.decreasing
    fun i there => (ordered.opened i).1 there with
    ⟨i, there, place, found⟩ | ⟨higher, lower, split, inserted, above, below⟩
  · left
    rw [found]
    exact ⟨i, place, if_neg (Nat.ne_of_lt (old i there))⟩
  · right
    rw [inserted]
    refine ⟨higher ++ m.cells.size :: lower, ?_, if_pos rfl⟩
    generalize grown : ({ m with openCells := higher ++ m.cells.size :: lower,
                                 cells := m.cells.push (.opened slot) } : Machine) = m'
    have cells : m'.cells = m.cells.push (.opened slot) := by rw [← grown]
    have listed : m'.openCells = higher ++ m.cells.size :: lower := by rw [← grown]
    have new : m'.slotOf m.cells.size = some slot := by
      rw [slotOf_eq_some, cells, Array.getElem?_push_size]
    have same : ∀ i, i ≠ m.cells.size → m'.slotOf i = m.slotOf i := by
      intro i other
      rw [slotOf, slotOf, cells, Array.getElem?_push, if_neg other]
    have among : ∀ i, i ∈ higher ∨ i ∈ lower ↔ i ∈ m.openCells := by
      intro i
      rw [split, List.mem_append]
    have same' : ∀ i, i ∈ higher ∨ i ∈ lower → m'.slotOf i = m.slotOf i :=
      fun i there => same i (Nat.ne_of_lt (old i ((among i).1 there)))
    obtain ⟨first, second, across⟩ := List.pairwise_append.1 (split ▸ ordered.decreasing)
    refine ⟨fun i => ?_, ?_⟩
    · rw [listed, List.mem_append, List.mem_cons]
      by_cases own : i = m.cells.size
      · rw [own, new]
        exact ⟨fun _ => ⟨slot, rfl⟩, fun _ => .inr (.inl rfl)⟩
      · rw [same i own, ← ordered.opened i, ← among i]
        exact or_congr_right (or_iff_right own)
    · rw [listed]
      refine List.pairwise_append.2 ⟨first.imp_of_mem ?_, List.pairwise_cons.2 ⟨?_,
        second.imp_of_mem ?_⟩, ?_⟩
      · intro i j there there' decreases
        rwa [same' i (.inl there), same' j (.inl there')]
      · intro j there s t place place'
        rw [new] at place
        rw [same' j (.inr there)] at place'
        rw [← Option.some.inj place]
        exact below j there t place'
      · intro i j there there' decreases
        rwa [same' i (.inr there), same' j (.inr there')]
      · intro i there j there' s t place place'
        rw [same' i (.inl there)] at place
        rcases List.mem_cons.1 there' with rfl | there'
        · rw [new] at place'
          rw [← Option.some.inj place']
          exact above i there s place
        · rw [same' j (.inr there')] at place'
          exact across i there j there' s t place place'

instance (slot : Nat) : Evolving (captureSlot slot) := by
  refine ⟨fun m => ⟨?_, fun {i v} closed => ?_, fun ordered => ?_⟩, fun m ordered grounded => ?_⟩
  · unfold captureSlot
    dsimp only
    split
    · exact Nat.le_of_lt (Nat.lt_of_lt_of_eq (Nat.lt_succ_self _) (Array.size_push _).symm)
    · exact Nat.le_refl _
  · unfold captureSlot
    dsimp only
    split
    · have bound := (Array.getElem?_eq_some_iff.1 closed).1
      exact ⟨v, by rw [left, Array.getElem?_push, if_neg (Nat.ne_of_lt bound)]; exact closed⟩
    · exact ⟨v, closed⟩
  · rcases captureSlot_cases ordered slot with ⟨i, -, found⟩ | ⟨openCells, ordered, opened⟩
    · rw [found]
      exact ordered
    · rw [opened]
      exact ordered
  · rcases captureSlot_cases ordered slot with ⟨i, -, found⟩ | ⟨openCells, -, opened⟩
    · rw [found]
      exact grounded
    · rw [opened]
      exact grounded.of_same rfl

/-- When cells are closed, those of places from `last` on are, and the others stay in order. -/
lemma close_ordered {m m₀ m' : Machine} (ordered : m.Ordered) {last : Nat}
    {closing : List (Nat × Value)} (same₀ : m₀.cells = m.cells)
    (parts : m₀.partCells last m.openCells = some (closing, m'.openCells))
    (cells : m'.cells = closeAll closing m.cells) :
    m'.Ordered ∧ ∀ i slot, m'.slotOf i = some slot → slot < last := by
  obtain ⟨split, -, first⟩ := partCells_spec parts
  have place₀ : m₀.slotOf = m.slotOf := by
    unfold slotOf
    rw [same₀]
  rw [place₀] at first
  obtain ⟨-, second, across⟩ := List.pairwise_append.1 (split ▸ ordered.decreasing)
  have inStack : ∀ i ∈ m.openCells, i < m.cells.size := by
    intro i there
    obtain ⟨s, place⟩ := (ordered.opened i).1 there
    exact (Array.getElem?_eq_some_iff.1 (slotOf_eq_some.1 place)).1
  have gone : ∀ i ∈ closing.map Prod.fst, m'.slotOf i = none := by
    intro i there
    have bound := inStack i (split ▸ List.mem_append_left _ there)
    obtain ⟨v, -, closed⟩ := closeAll_closes there bound
    rw [slotOf, cells, closed]
    rfl
  have same : ∀ i, i ∉ closing.map Prod.fst → m'.slotOf i = m.slotOf i := by
    intro i other
    rw [slotOf, slotOf, cells, closeAll_other other]
  have apart : ∀ i ∈ m'.openCells, i ∉ closing.map Prod.fst := by
    intro i there there'
    obtain ⟨s, place⟩ := (ordered.opened i).1 (split ▸ List.mem_append_right _ there)
    exact Nat.lt_irrefl s (across i there' i there s s place place)
  have opened : ∀ i, i ∈ m'.openCells ↔ ∃ slot, m'.slotOf i = some slot := by
    intro i
    refine ⟨fun there => ?_, fun ⟨slot, place⟩ => ?_⟩
    · rw [same i (apart i there), ← ordered.opened i, split]
      exact List.mem_append_right _ there
    · have stays : i ∉ closing.map Prod.fst := by
        intro there
        rw [gone i there] at place
        exact nomatch place
      rw [same i stays] at place
      have listed := (ordered.opened i).2 ⟨slot, place⟩
      rw [split] at listed
      exact (List.mem_append.1 listed).resolve_left stays
  refine ⟨⟨opened, ?_⟩, fun i slot place => ?_⟩
  · refine second.imp_of_mem fun {i j} there there' decreases => ?_
    rwa [same i (apart i there), same j (apart j there')]
  · have there := (opened i).2 ⟨slot, place⟩
    rw [same i (apart i there)] at place
    generalize m'.openCells = openCells at split first second there
    cases openCells with
    | nil => exact nomatch there
    | cons top lower =>
      obtain ⟨s, place'⟩ := (ordered.opened top).1 (split ▸ List.mem_append_right _ List.mem_cons_self)
      have under := first top rfl s place'
      rcases List.mem_cons.1 there with rfl | there
      · rw [place] at place'
        rwa [Option.some.inj place']
      · have below := (List.pairwise_cons.1 second).1 i there s slot place' place
        omega

/-- Cells that are closed stay closed when others are. -/
lemma close_evolves {m m₀ m' : Machine} {last : Nat} {closing : List (Nat × Value)}
    (same₀ : m₀.cells = m.cells)
    (parts : m₀.partCells last m.openCells = some (closing, m'.openCells))
    (cells : m'.cells = closeAll closing m.cells) : Evolves m m' := by
  refine ⟨Nat.le_of_eq (by rw [cells, size_closeAll]), fun {i v} closed => ?_,
    fun ordered => (close_ordered ordered same₀ parts cells).1⟩
  rw [cells]
  by_cases there : i ∈ closing.map Prod.fst
  · obtain ⟨w, -, closes⟩ := closeAll_closes there (Array.getElem?_eq_some_iff.1 closed).1
    exact ⟨w, closes⟩
  · exact ⟨v, (closeAll_other there m.cells).trans closed⟩

instance (last : Nat) : Evolving (closeCells last) := by
  refine ⟨fun m => ?_, fun m _ grounded => ?_⟩
  · unfold closeCells
    split
    · next parts => exact close_evolves rfl parts rfl
    · exact .refl m
  · unfold closeCells
    split
    · exact grounded.of_same rfl
    · trivial

instance (index : UInt8) : Evolving (capturedCell index) := by
  unfold capturedCell
  infer_instance

instance (cell : Nat) : Evolving (readCell cell) := by
  unfold readCell
  refine evolving_bind inferInstance fun m => evolving_bind inferInstance fun c => ?_
  split <;> infer_instance

lemma readCell_apply (cell : Nat) (m : Machine) :
    readCell cell m =
      match m.cells[cell]? with
      | none => .error (.broken .badCell) m
      | some (.opened slot) => readSlot slot m
      | some (.closed v) => .ok v m := by
  unfold readCell
  rw [bind_apply]
  show ((orBroken .badCell m.cells[cell]? >>= _) m) = _
  rw [bind_apply]
  cases m.cells[cell]? with
  | none => rfl
  | some c => cases c <;> rfl

lemma writeCell_apply (cell : Nat) (v : Value) (m : Machine) :
    writeCell cell v m =
      match m.cells[cell]? with
      | none => .error (.broken .badCell) m
      | some (.opened slot) => writeSlot slot v m
      | some (.closed _) => .ok () { m with cells := m.cells.setIfInBounds cell (.closed v) } := by
  unfold writeCell
  rw [bind_apply]
  show ((orBroken .badCell m.cells[cell]? >>= _) m) = _
  rw [bind_apply]
  cases m.cells[cell]? with
  | none => rfl
  | some c => cases c <;> rfl

/-- A closed cell takes another value. -/
lemma reclose_evolves {m : Machine} {cell : Nat} {w : Value} (closed : m.cells[cell]? = some (.closed w))
    (v : Value) :
    Evolves m { m with cells := m.cells.setIfInBounds cell (.closed v) } := by
  have bound := (Array.getElem?_eq_some_iff.1 closed).1
  generalize changed : ({ m with cells := m.cells.setIfInBounds cell (.closed v) } : Machine) = m'
  have cells : m'.cells = m.cells.setIfInBounds cell (.closed v) := by rw [← changed]
  have listed : m'.openCells = m.openCells := by rw [← changed]
  have here : m'.cells[cell]? = some (.closed v) := by
    rw [cells, Array.getElem?_setIfInBounds_self_of_lt bound]
  have there : ∀ i, i ≠ cell → m'.cells[i]? = m.cells[i]? := by
    intro i other
    rw [cells, Array.getElem?_setIfInBounds_ne (Ne.symm other)]
  have place : m'.slotOf = m.slotOf := by
    funext i
    by_cases own : i = cell
    · rw [own, slotOf, slotOf, here, closed]
      rfl
    · rw [slotOf, slotOf, there i own]
  refine ⟨Nat.le_of_eq (by rw [cells, Array.size_setIfInBounds]), fun {i u} closed => ?_,
    fun ordered => ?_⟩
  · by_cases own : i = cell
    · exact ⟨v, own ▸ here⟩
    · exact ⟨u, (there i own).trans closed⟩
  · refine ⟨fun i => ?_, ?_⟩
    · rw [listed, place]
      exact ordered.opened i
    · rw [listed, place]
      exact ordered.decreasing

instance (cell : Nat) (v : Value) : Evolving (writeCell cell v) := by
  refine ⟨fun m => ?_, fun m ordered grounded => ?_⟩
  · rw [writeCell_apply]
    split
    · exact .refl m
    · exact Evolving.evolves m
    · next closed => exact reclose_evolves closed v
  · rw [writeCell_apply]
    split
    · trivial
    · exact Evolving.ends m ordered grounded
    · exact grounded.of_same rfl

instance (captures : List Capture) (found : Array Nat) : Evolving (captureAll captures found) := by
  induction captures generalizing found with
  | nil => exact inferInstanceAs (Evolving (pure found))
  | cons capture captures ih =>
    rw [captureAll]
    infer_instance

end Cells

/-! ### Instructions -/

section Instructions

instance (function : Nat) (arguments : Array Value) (answer? : Option Value) :
    Evolving (modify (·.remember function arguments answer?) : Action Unit) :=
  evolving_modify fun m => ⟨rfl, rfl, rfl⟩

instance (f : NativeRef) (count : UInt8) : Evolving (callNative f count) := by
  unfold callNative
  split
  · infer_instance
  · refine evolving_bind inferInstance fun m => evolving_bind inferInstance fun body => ?_
    dsimp only
    split <;> infer_instance

instance (c : ClassRef) (count : UInt8) : Evolving (construct c count) := by
  unfold construct
  refine evolving_bind (evolving_modifyGet fun m => ⟨rfl, rfl, rfl⟩) fun v =>
    evolving_bind inferInstance fun _ => evolving_bind inferInstance fun methods => ?_
  split <;> infer_instance

instance (callee : Value) (count : UInt8) : Evolving (callValue callee count) := by
  unfold callValue
  split <;> infer_instance

instance (c : ClassRef) (name : String) (count : UInt8) : Evolving (invokeFromClass c name count) := by
  unfold invokeFromClass
  infer_instance

instance (name : String) (count : UInt8) : Evolving (invoke name count) := by
  unfold invoke
  refine evolving_bind inferInstance fun v => ?_
  split
  · refine evolving_bind inferInstance fun field => ?_
    split <;> infer_instance
  · infer_instance

instance (c : ClassRef) (name : String) : Evolving (bindMethod c name) := by
  unfold bindMethod
  refine evolving_bind inferInstance fun closure => evolving_bind inferInstance fun receiver =>
    evolving_bind (evolving_modifyGet fun m => ⟨rfl, rfl, rfl⟩) fun v => inferInstance

instance (f : Float → Float → Value) : Evolving (numeric f) := by
  unfold numeric
  refine evolving_bind inferInstance fun a => evolving_bind inferInstance fun b => ?_
  split <;> infer_instance

instance : Evolving add := by
  unfold add
  refine evolving_bind inferInstance fun a => evolving_bind inferInstance fun b => ?_
  split
  · infer_instance
  · exact evolving_bind (evolving_modifyGet fun m => ⟨rfl, rfl, rfl⟩) fun v => inferInstance
  · infer_instance

instance : Evolving negate := by
  unfold negate
  refine evolving_bind inferInstance fun a => ?_
  split <;> infer_instance

instance (name : String) : Evolving (readGlobal name) := by
  unfold readGlobal
  refine evolving_bind inferInstance fun m => ?_
  split <;> infer_instance

instance (name : String) : Evolving (defineGlobal name) := by
  unfold defineGlobal
  exact evolving_bind inferInstance fun v => evolving_modify fun m => ⟨rfl, rfl, rfl⟩

instance (name : String) : Evolving (writeGlobal name) := by
  unfold writeGlobal
  refine evolving_bind inferInstance fun m => ?_
  split
  · exact evolving_bind inferInstance fun v => evolving_modify fun m => ⟨rfl, rfl, rfl⟩
  · infer_instance

instance (error : RuntimeError) : Evolving (failUnread error : Action α) := by
  unfold failUnread
  infer_instance

instance (index : UInt8) : Evolving (readProperty index) := by
  unfold readProperty
  refine evolving_bind inferInstance fun v => ?_
  split
  · refine evolving_bind inferInstance fun name => evolving_bind inferInstance fun field => ?_
    split <;> infer_instance
  · infer_instance

instance (index : UInt8) : Evolving (writeProperty index) := by
  unfold writeProperty
  refine evolving_bind inferInstance fun v => ?_
  split <;> infer_instance

instance (index : UInt8) (captures : List Capture) : Evolving (pushClosure index captures) := by
  unfold pushClosure
  refine evolving_bind inferInstance fun c => ?_
  split
  · exact evolving_bind inferInstance fun captured =>
      evolving_bind (evolving_modifyGet fun m => ⟨rfl, rfl, rfl⟩) fun closure => inferInstance
  · infer_instance

/-- The machine on the way of a return: the value is taken off, and the call left. -/
def leaving (m : Machine) : Machine :=
  { m with stack := m.stack.pop, frames := m.frames.tail }

/-- What a return comes to. -/
lemma ret_apply {m : Machine} {f : Frame} {callers : List Frame} {v : Value}
    (frames : m.frames = f :: callers) (top : m.stack.back? = some v) :
    ret m =
      match m.leaving.partCells f.base m.openCells with
      | none => .error (.broken .badSlot) m.leaving
      | some (closing, openCells) =>
        let m' := { m.leaving with
          stack := m.leaving.stack.shrink f.base, openCells, cells := closeAll closing m.cells }
        if callers.isEmpty then .error .finished m'
        else .ok () { m' with stack := m'.stack.push v } := by
  cases m
  dsimp only at frames top
  subst frames
  simp only [ret, bind_apply, pop, top, frame, leaving, List.tail_cons, modify_apply, closeCells]
  generalize partCells _ _ _ = parts
  cases parts with
  | none => rfl
  | some pair =>
    simp only [cutStack, get_apply]
    cases callers <;> rfl

/-- A return without a value or a call is a defect. -/
lemma ret_cases (m : Machine) :
    (∃ defect m', ret m = .error (.broken defect) m' ∧ m'.cells = m.cells ∧
      m'.openCells = m.openCells) ∨
      ∃ f callers v, m.frames = f :: callers ∧ m.stack.back? = some v := by
  unfold ret
  simp only [bind_apply, pop, frame]
  cases m.stack.back? with
  | none => exact .inl ⟨_, _, rfl, rfl, rfl⟩
  | some v =>
    cases frames : m.frames with
    | nil => exact .inl ⟨_, _, rfl, rfl, rfl⟩
    | cons f callers => exact .inr ⟨f, callers, v, rfl, rfl⟩

instance : Evolving ret := by
  refine ⟨fun m => ?_, fun m ordered grounded => ?_⟩
  · rcases ret_cases m with ⟨_, _, broken, cells, openCells⟩ | ⟨f, callers, v, frames, top⟩
    · rw [broken]
      exact .of_same cells openCells
    · rw [ret_apply frames top]
      split
      · exact .of_same rfl rfl
      · next parts =>
        dsimp only
        split <;> exact @close_evolves m m.leaving _ _ _ rfl parts rfl
  · rcases ret_cases m with ⟨_, _, broken, -⟩ | ⟨f, callers, v, frames, top⟩
    · rw [broken]
      trivial
    · rw [ret_apply frames top]
      split
      · trivial
      · next parts =>
        obtain ⟨bottom, few⟩ := grounded
        rw [frames] at bottom few
        cases callers with
        | nil =>
          rw [List.isEmpty_nil, if_pos rfl]
          have base : f.base = 0 := Option.some.inj bottom
          obtain ⟨ordered', below⟩ := @close_ordered m m.leaving { m.leaving with
            stack := m.leaving.stack.shrink f.base, openCells := _, cells := closeAll _ m.cells }
            ordered _ _ rfl parts rfl
          rw [base] at below
          obtain ⟨listed, closed⟩ := ordered'.nothing_open fun i slot place =>
            Nat.not_lt_zero _ (below i slot place)
          refine ⟨?_, congrArg List.tail frames, listed, closed⟩
          rw [base]
          exact Array.eq_empty_of_size_eq_zero (by rw [Array.size_shrink, Nat.zero_min])
        | cons g callers =>
          rw [List.isEmpty_cons, if_neg Bool.false_ne_true]
          have rest : m.leaving.frames = g :: callers := congrArg List.tail frames
          refine ⟨?_, ?_⟩
          · show (List.getLast? m.leaving.frames).map Frame.base = some 0
            rw [rest]
            exact bottom
          · show m.leaving.frames.length ≤ maxFrames
            rw [rest]
            exact Nat.le_of_succ_le few

instance (index : UInt8) : Evolving (pushClass index) := by
  unfold pushClass
  exact evolving_bind inferInstance fun name =>
    evolving_bind (evolving_modifyGet fun m => ⟨rfl, rfl, rfl⟩) fun c => inferInstance

instance : Evolving inherit := by
  unfold inherit
  refine evolving_bind inferInstance fun v => ?_
  split <;> infer_instance

instance (index : UInt8) : Evolving (addMethod index) := by
  unfold addMethod
  refine evolving_bind inferInstance fun name => evolving_bind inferInstance fun v => ?_
  split
  · refine evolving_bind inferInstance fun v => ?_
    split <;> infer_instance
  · infer_instance

instance (i : Instr) : Evolving (exec i) := by
  cases i with
  | print =>
    exact evolving_bind inferInstance fun v => evolving_modify fun m => ⟨rfl, rfl, rfl⟩
  | _ =>
    rw [exec]
    infer_instance

instance : Evolving step := by
  unfold step
  infer_instance

end Instructions

end Lox.Machine
