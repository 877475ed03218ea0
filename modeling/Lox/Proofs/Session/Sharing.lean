import Lox.Proofs.Session.Closing

/-!
# Shared variables

Two closures that capture the variable at the same place of the stack get the same cell just if the place
has not been given up in between, neither by the end of a scope nor by a return (`captures_share`).  So a
cell stands for one variable, from when it is made for a call to when it is discarded and after, and its
value is the one that was last assigned to it, by whichever closure or by the function itself.  The latter
needs code that leaves the variables of others alone (`made_closure_unshares`).
-/

namespace Lox

/-- The cell of a variable that a closure has captured. -/
def Value.cell? (k : Nat) : Value → Option Nat
  | .closure w => w.captured[k]?
  | _ => none

namespace Machine

variable {m m' : Machine} {f : Frame} {callers : List Frame} {slot cell : Nat}

/-- The step makes a closure which captures the local variable at a place, and gets this cell. -/
def Captures (m m' : Machine) (slot cell : Nat) : Prop :=
  ∃ (f : Frame) (callers : List Frame) (index : UInt8) (captures : List Capture) (k : Nat)
      (capture : Capture) (w : Closure), m.frames = f :: callers ∧
    f.closure.prototype.chunk.instrAt? f.ip = some (.closure index captures) ∧
    captures[k]? = some capture ∧ capture.isLocal = true ∧ f.base + capture.index.toNat = slot ∧
    m'.stack.back? = some (.closure w) ∧ w.captured[k]? = some cell

/-! ## Capturing -/

/-- The cell for a place is open for it. -/
lemma captureSlot_opened (ordered : m.Ordered) (result : captureSlot slot m = .ok cell m') :
    m'.cells[cell]? = some (.opened slot) ∧ m'.Ordered ∧ m'.frames = m.frames := by
  rcases captureSlot_cases ordered slot with ⟨i, place, found⟩ | ⟨openCells, ordered', made⟩
  · obtain ⟨rfl, rfl⟩ := EStateM.Result.ok.inj (found.symm.trans result)
    exact ⟨slotOf_eq_some.1 place, ordered, rfl⟩
  · obtain ⟨rfl, rfl⟩ := EStateM.Result.ok.inj (made.symm.trans result)
    exact ⟨Array.getElem?_push_size, ordered', rfl⟩

lemma capture_opened {capture : Capture} (frames : m.frames = f :: callers) (ordered : m.Ordered)
    (result : (if capture.isLocal then do captureSlot ((← frame).base + capture.index.toNat)
      else capturedCell capture.index : Action Nat) m = .ok cell m') :
    m'.frames = f :: callers ∧ m'.Ordered ∧
      (capture.isLocal = true → m'.cells[cell]? = some (.opened (f.base + capture.index.toNat))) := by
  split at result
  · obtain ⟨g, here, result⟩ := inspect_ok inferInstance result
    unfold frame at here
    rw [frames] at here
    obtain ⟨rfl, -⟩ := EStateM.Result.ok.inj here
    obtain ⟨opened, ordered', same⟩ := captureSlot_opened ordered result
    exact ⟨same.trans frames, ordered', fun _ => opened⟩
  · next outer =>
    obtain rfl := (inferInstance : Inspecting (capturedCell capture.index)).same result
    exact ⟨frames, ordered, fun inner => absurd inner outer⟩

/-- The cells of the local variables that a closure captures are open for their places. -/
lemma captureAll_opened {captures : List Capture} {found found' : Array Nat}
    (frames : m.frames = f :: callers) (ordered : m.Ordered)
    (result : captureAll captures found m = .ok found' m') :
    (∀ i < found.size, found'[i]? = found[i]?) ∧
      ∀ (k : Nat) (capture : Capture), captures[k]? = some capture → capture.isLocal = true →
        ∃ cell, found'[found.size + k]? = some cell ∧
          m'.cells[cell]? = some (.opened (f.base + capture.index.toNat)) := by
  induction captures generalizing found m with
  | nil =>
    obtain ⟨rfl, rfl⟩ := EStateM.Result.ok.inj result
    exact ⟨fun _ _ => rfl, nofun⟩
  | cons capture captures ih =>
    rw [captureAll_cons] at result
    obtain ⟨cell, m₁, here, rest⟩ := bind_ok result
    obtain ⟨frames', ordered', opened⟩ := capture_opened frames ordered here
    obtain ⟨old, others⟩ := ih frames' ordered' rest
    have size : (found.push cell).size = found.size + 1 := Array.size_push ..
    refine ⟨fun i bound => ?_, fun k capture' there inner => ?_⟩
    · rw [old i (by omega), Array.getElem?_push_lt bound, Array.getElem?_eq_getElem bound]
    · cases k with
      | zero =>
        obtain rfl := Option.some.inj there
        have opened' := opened inner
        refine ⟨cell, ?_, ?_⟩
        · rw [Nat.add_zero, old _ (by omega), Array.getElem?_push_size]
        · have bound := (Array.getElem?_eq_some_iff.1 opened').1
          have kept : KeepsCells (captureAll captures (found.push cell)) := inferInstance
          rw [kept.kept rest cell bound, opened']
      | succ k =>
        obtain ⟨cell', there', opened'⟩ := others k capture' there inner
        rw [size, Nat.add_right_comm, Nat.add_assoc] at there'
        exact ⟨cell', there', opened'⟩

/-- A closure is made on top of the stack, and the cells of local variables that it captures are open for
their places. -/
lemma closure_opened {index : UInt8} {captures : List Capture} {a : Unit}
    (frames : m.frames = f :: callers) (ordered : m.Ordered)
    (result : exec (.closure index captures) m = .ok a m') :
    ∃ w, m'.stack.back? = some (.closure w) ∧
      ∀ (k : Nat) (capture : Capture), captures[k]? = some capture → capture.isLocal = true →
        ∃ cell, w.captured[k]? = some cell ∧
          m'.cells[cell]? = some (.opened (f.base + capture.index.toNat)) := by
  obtain ⟨c, -, result⟩ := inspect_ok inferInstance result
  cases c with
  | prototype p =>
    obtain ⟨captured, m₁, found, result⟩ := bind_ok result
    obtain ⟨-, others⟩ := captureAll_opened frames ordered found
    obtain ⟨w, m₂, made, result⟩ := bind_ok result
    obtain ⟨rfl, rfl⟩ := EStateM.Result.ok.inj made
    obtain ⟨-, rfl⟩ := EStateM.Result.ok.inj result
    refine ⟨_, Array.back?_push .., fun k capture there inner => ?_⟩
    obtain ⟨cell, there', opened⟩ := others k capture there inner
    rw [Array.size_empty, Nat.zero_add] at there'
    exact ⟨cell, there', opened⟩
  | _ => exact nomatch result

/-- A cell that is got for a place is open for it. -/
lemma step_captures {a : Unit} (ordered : m.Ordered) (result : m.step = .ok a m')
    (captures : m.Captures m' slot cell) : m'.cells[cell]? = some (.opened slot) := by
  obtain ⟨f, callers, index, cs, k, capture, w, frames, decoded, there, inner, rfl, top, captured⟩ := captures
  obtain ⟨f', callers', i, frames', decoded', executes⟩ := step_executes result
  obtain ⟨rfl, rfl⟩ := List.cons.inj (frames.symm.trans frames')
  obtain rfl := Option.some.inj (decoded.symm.trans decoded')
  obtain ⟨w', top', others⟩ := closure_opened (m := m.past f callers (.closure index cs)) rfl
    (ordered.of_same rfl rfl) executes
  cases top.symm.trans top'
  obtain ⟨cell', captured', opened⟩ := others k capture there inner
  obtain rfl := Option.some.inj (captured.symm.trans captured')
  exact opened

end Machine

namespace Session

open Machine

variable {Admitted : NativeBody → Prop} {s s' : Session} {slot cell : Nat} {i j k : Nat}

/-! ## Runs -/

/-- A run comes by the states in between. -/
lemma Reached.after (here : Reached Admitted .running s) (goesOn : s.advance k = (none, s'))
    (before : i < k) : ∃ s₁ s₂, s.advance i = (none, s₁) ∧ s₁.advance 1 = (none, s₂) ∧
      s₁.machine = s.after i ∧ s₂.machine = s.after (i + 1) ∧ Reached Admitted .running s₁ := by
  obtain ⟨s₂, first, -⟩ := advance_add (j := i + 1) (k := k - (i + 1))
    (show s.advance (i + 1 + (k - (i + 1))) = (none, s') by rw [Nat.add_sub_cancel' before]; exact goesOn)
  obtain ⟨s₁, first', step⟩ := advance_add first
  exact ⟨s₁, s₂, first', step, by rw [Session.after, first'], by rw [Session.after, first],
    here.turn (.advance first')⟩

lemma Reached.step_captures (here : Reached Admitted .running s)
    (goesOn : s.advance 1 = (none, s')) (captures : s.machine.Captures s'.machine slot cell) :
    s'.machine.cells[cell]? = some (.opened slot) := by
  obtain ⟨m, ⟨journal, rfl⟩, step⟩ := advance_one goesOn
  exact Machine.step_captures (m := { s.machine with journal }) (here.ordered.of_same rfl rfl) step captures

lemma Reached.step_opened (here : Reached Admitted .running s)
    (goesOn : s.advance 1 = (none, s')) (opened : s.machine.cells[cell]? = some (.opened slot)) :
    s.machine.Discards slot ∧ (∃ v, s'.machine.cells[cell]? = some (.closed v)) ∨
      ¬ s.machine.Discards slot ∧ s'.machine.cells[cell]? = some (.opened slot) := by
  obtain ⟨m, ⟨journal, rfl⟩, step⟩ := advance_one goesOn
  exact Machine.step_opened (m := { s.machine with journal }) (here.ordered.of_same rfl rfl) step opened

/-- A cell is open for its place until the place is discarded, and closed from then on. -/
lemma Reached.opened_until (here : Reached Admitted .running s)
    (goesOn : s.advance k = (none, s')) (later : i ≤ j) (before : j ≤ k)
    (opened : (s.after i).cells[cell]? = some (.opened slot)) :
    (∀ t, i ≤ t → t < j → ¬ (s.after t).Discards slot) ∧ (s.after j).cells[cell]? = some (.opened slot) ∨
      (∃ t, i ≤ t ∧ t < j ∧ (s.after t).Discards slot) ∧
        ∃ v, (s.after j).cells[cell]? = some (.closed v) := by
  induction j, later using Nat.le_induction with
  | base => exact .inl ⟨fun t lower upper => by omega, opened⟩
  | succ j later ih =>
    obtain ⟨s₁, s₂, -, step, same, same', there⟩ := here.after goesOn before
    rw [← same']
    rcases ih (Nat.le_of_lt before) with ⟨none, opened⟩ | ⟨⟨t, lower, upper, discards⟩, v, closed⟩
    · rw [← same] at opened
      rcases there.step_opened step opened with ⟨discards, closed⟩ | ⟨other, opened⟩
      · rw [same] at discards
        exact .inr ⟨⟨j, later, Nat.lt_succ_self j, discards⟩, closed⟩
      · refine .inl ⟨fun t lower upper => ?_, opened⟩
        rcases Nat.lt_succ_iff_lt_or_eq.1 upper with upper | rfl
        · exact none t lower upper
        · rwa [← same]
    · rw [← same] at closed
      exact .inr ⟨⟨t, lower, Nat.lt_succ_of_lt upper, discards⟩, (advance_evolves step).closed closed⟩

/-- From one time to another, the value of a variable is the one last given to it, if there is any, and
otherwise the old one. -/
def Follows (s : Session) (i j cell : Nat) : Prop :=
  ∃ v, readCell cell (s.after j) = .ok v (s.after j) ∧
    ((∀ t, i ≤ t → t < j → ∀ w, ¬ (s.after t).Gives cell w) ∧
        readCell cell (s.after i) = .ok v (s.after i) ∨
      ∃ t, i ≤ t ∧ t < j ∧ (s.after t).Gives cell v ∧
        ∀ u, t < u → u < j → ∀ w, ¬ (s.after u).Gives cell w)

lemma Reached.follows {bare : Prop} (here : Reached (NativeBody.Fair bare) .running s)
    (goesOn : s.advance k = (none, s')) (later : i ≤ j) (before : j ≤ k) {v : Value}
    (value : (s.after i).valueOf? cell = some v) :
    ∃ v', (s.after j).valueOf? cell = some v' ∧
      ((∀ t, i ≤ t → t < j → ∀ w, ¬ (s.after t).Gives cell w) ∧ v' = v ∨
        ∃ t, i ≤ t ∧ t < j ∧ (s.after t).Gives cell v' ∧
          ∀ u, t < u → u < j → ∀ w, ¬ (s.after u).Gives cell w) := by
  induction j, later using Nat.le_induction with
  | base => exact ⟨v, value, .inl ⟨fun t lower upper => by omega, rfl⟩⟩
  | succ j later ih =>
    obtain ⟨s₁, s₂, -, step, same, same', there⟩ := here.after goesOn before
    rw [← same']
    obtain ⟨v', value', so_far⟩ := ih (Nat.le_of_lt before)
    rw [← same] at value'
    rcases there.values step value' with ⟨none, kept⟩ | ⟨w, gives, given⟩
    · refine ⟨v', kept, ?_⟩
      rw [same] at none
      rcases so_far with ⟨unset, old⟩ | ⟨t, lower, upper, gives, last⟩
      · refine .inl ⟨fun t lower upper => ?_, old⟩
        rcases Nat.lt_succ_iff_lt_or_eq.1 upper with upper | rfl
        · exact unset t lower upper
        · exact none
      · refine .inr ⟨t, lower, Nat.lt_succ_of_lt upper, gives, fun u after upper' => ?_⟩
        rcases Nat.lt_succ_iff_lt_or_eq.1 upper' with upper' | rfl
        · exact last u after upper'
        · exact none
    · rw [same] at gives
      exact ⟨w, given, .inr ⟨j, later, Nat.lt_succ_self j, gives, fun u after upper => by omega⟩⟩

/-- Two closures that capture the variable at a place of the stack, at two times of a run, get the same cell
just if no step in between discards the place, be it the end of a scope or a return.  Variables at different
places never have the same cell.  This is so whatever the functions of the host make.  If they make no closures but
copies and those over functions that capture nothing, then from when a variable is captured on, whoever reads it
finds the value that was last given to it, by whichever closure or by the function whose local it is. -/
theorem captures_share {n cell' slot' : Nat} (here : Reached Admitted .running s) (goesOn : s.advance n = (none, s'))
    (later : i ≤ j) (before : j < n) (first : (s.after i).Captures (s.after (i + 1)) slot cell)
    (second : (s.after j).Captures (s.after (j + 1)) slot' cell') :
    (slot = slot' → (cell = cell' ↔ ∀ t, i < t → t < j → ¬ (s.after t).Discards slot)) ∧
      (slot ≠ slot' → cell ≠ cell') ∧
      ((∀ body, Admitted body → body.Fair True) → ∀ k, i < k → k ≤ n → s.Follows (i + 1) k cell) := by
  obtain ⟨s₁, s₂, -, step, same, same', there⟩ := here.after goesOn (later.trans_lt before)
  obtain ⟨t₁, t₂, -, step', same₁, same₂, there'⟩ := here.after goesOn before
  have opened : (s.after (i + 1)).cells[cell]? = some (.opened slot) := by
    rw [← same, ← same'] at first
    rw [← same']
    exact there.step_captures step first
  have opened' : (s.after (j + 1)).cells[cell']? = some (.opened slot') := by
    rw [← same₁, ← same₂] at second
    rw [← same₂]
    exact there'.step_captures step' second
  have closure : ∀ slot, ¬ (s.after j).Discards slot := by
    obtain ⟨f, callers, index, captures, -, -, -, frames, decoded, -⟩ := second
    exact fun slot => not_discards frames decoded nofun nofun
  have until_ := here.opened_until goesOn (Nat.succ_le_succ later) (Nat.succ_le_of_lt before) opened
  refine ⟨?_, fun apart same => ?_, fun fair k after upper => ?_⟩
  · rintro rfl
    rcases until_ with ⟨none, still⟩ | ⟨⟨t, lower, upper, discards⟩, v, closed⟩
    · have ordered : (s.after (j + 1)).Ordered := by
        rw [← same₂]
        exact (there'.turn (.advance step')).ordered
      exact iff_of_true (ordered.unique still opened') fun t lower upper =>
        none t lower (Nat.lt_succ_of_lt upper)
    · refine iff_of_false ?_ fun none => ?_
      · rintro rfl
        cases closed.symm.trans opened'
      · rcases Nat.lt_succ_iff_lt_or_eq.1 upper with upper | rfl
        · exact none t lower upper discards
        · exact closure slot discards
  · subst same
    rcases until_ with ⟨-, still⟩ | ⟨-, v, closed⟩
    · exact apart (Cell.opened.inj (Option.some.inj (still.symm.trans opened')))
    · cases closed.symm.trans opened'
  · have accounted : (s.after (i + 1)).Accounted := by
      have reached := (there.turn (.advance step)).mono fair
      rw [← same']
      exact reached.intact.accounted reached.ordered
    obtain ⟨v, value⟩ := accounted.value (Array.getElem?_eq_some_iff.1 opened).1
    obtain ⟨v', value', follows⟩ := (here.mono fair).follows goesOn after upper value
    refine ⟨v', readCell_of_valueOf? value', follows.imp_left fun ⟨unset, old⟩ => ⟨unset, ?_⟩⟩
    rw [old]
    exact readCell_of_valueOf? value

section Fixed

variable {m m' : Machine} {base : Nat} {index place : UInt8}

/-- How a closure of one local variable is seen to be made. -/
lemma captures_of_next
    (next : (m.frames.head?.map fun f => (f.closure.prototype.chunk.instrAt? f.ip, f.base)) =
      some (some (.closure index [⟨true, place⟩]), base))
    (top : m'.stack.back?.bind (·.cell? 0) = some cell) : m.Captures m' (base + place.toNat) cell := by
  obtain ⟨f, first, found⟩ := Option.map_eq_some_iff.1 next
  obtain ⟨callers, frames⟩ := List.head?_eq_some_iff.1 first
  obtain ⟨decoded, rfl⟩ := Prod.mk.inj found
  obtain ⟨v, made, cell⟩ := Option.bind_eq_some_iff.1 top
  cases v with
  | closure w => exact ⟨f, callers, index, _, 0, ⟨true, place⟩, w, frames, decoded, rfl, rfl, rfl, made, cell⟩
  | _ => cases cell

/-- The next step assigns to a variable. -/
def assigns? (m : Machine) : Bool :=
  (m.frames.head?.bind fun f => f.closure.prototype.chunk.instrAt? f.ip).any fun i =>
    i.opcode = .setUpvalue || i.opcode = .setLocal

lemma not_gives_of_next (other : assigns? m = false) (w : Value) : ¬ m.Gives cell w := by
  rintro (⟨-, f, callers, index, frames, decoded, -⟩ | ⟨-, f, callers, index, frames, decoded, -⟩) <;>
    rw [assigns?, frames, List.head?_cons, Option.bind_some, decoded] at other <;> cases other

end Fixed

/-- Two functions with a local variable in common, the first of which is called before the second is
made. -/
theorem captures_share_called : ∃ s s', Reached (NativeBody.Fair True) .running s ∧
    s.advance 15 = (none, s') ∧ (s.after 5).Captures (s.after 6) 2 0 ∧
    (s.after 14).Captures (s.after 15) 2 0 ∧
    (∀ t, 5 < t → t < 14 → ¬ (s.after t).Discards 2) ∧ s.Follows 6 15 0 := by
  obtain ⟨s, here, none, next, top, next', top'⟩ := (Reached.start .quiet).exists_midway
    (P := fun s => (s.advance 15).1 = none ∧
      ((s.after 5).frames.head?.map fun f => (f.closure.prototype.chunk.instrAt? f.ip, f.base)) =
        some (some (.closure 0 [⟨true, 1⟩]), 1) ∧
      (s.after 6).stack.back?.bind (·.cell? 0) = some 0 ∧
      ((s.after 14).frames.head?.map fun f => (f.closure.prototype.chunk.instrAt? f.ip, f.base)) =
        some (some (.closure 1 [⟨true, 1⟩]), 1) ∧
      (s.after 15).stack.back?.bind (·.cell? 0) = some 0)
    (show ((start .quiet).midway "fun f() { var a; fun g() { a = f; } g(); fun h() { return a; } } f();" 0).any _ =
      true by decide +kernel)
  have goesOn : s.advance 15 = (Option.none, (s.advance 15).2) := Prod.ext none rfl
  have first : (s.after 5).Captures (s.after 6) 2 0 := captures_of_next next top
  have second : (s.after 14).Captures (s.after 15) 2 0 := captures_of_next next' top'
  obtain ⟨same, -, follows⟩ := captures_share (i := 5) (j := 14) here goesOn (by decide) (by decide) first second
  exact ⟨s, _, here, goesOn, first, second, (same rfl).1 rfl, follows (fun _ => id) 15 (by decide) (by decide)⟩

/-- With functions of the host that make any closures, a value that one function has assigned to a variable in common
may be lost for another one. -/
theorem made_closure_unshares : ∃ s s' x, Reached (fun _ => True) .running s ∧ s.advance 24 = (none, s') ∧
    (s.after 1).Captures (s.after 2) 1 0 ∧ (s.after 2).Captures (s.after 3) 1 0 ∧ (s.after 6).Sets 0 (.number x) ∧
    (∀ t, 6 < t → t < 24 → ∀ w, ¬ (s.after t).Gives 0 w) ∧ (s.after 24).valueOf? 0 = some .nil := by
  let code := #[Opcode.pop, .pop, .pop, .pop, .nil, .nil, .nil, .nil, .nil, .ret].map Opcode.toByte
  obtain ⟨s, here, none, next, top, next', top', sets, captured, given, others, lost⟩ := exists_hosting
    (P := fun s => (s.advance 24).1 = none ∧
      ((s.after 1).frames.head?.map fun f => (f.closure.prototype.chunk.instrAt? f.ip, f.base)) =
        some (some (.closure 1 [⟨true, 1⟩]), 0) ∧
      (s.after 2).stack.back?.bind (·.cell? 0) = some 0 ∧
      ((s.after 2).frames.head?.map fun f => (f.closure.prototype.chunk.instrAt? f.ip, f.base)) =
        some (some (.closure 2 [⟨true, 1⟩]), 0) ∧
      (s.after 3).stack.back?.bind (·.cell? 0) = some 0 ∧
      ((s.after 6).frames.head?.bind fun f => f.closure.prototype.chunk.instrAt? f.ip) = some (.setUpvalue 0) ∧
      ((s.after 6).frames.head?.bind fun f => f.closure.captured[0]?) = some 0 ∧
      ((s.after 6).stack.back?.bind Value.number?).isSome ∧
      (∀ t < (24 : Nat), 6 < t → assigns? (s.after t) = false) ∧
      ((s.after 24).valueOf? 0).map (·.same .nil) = some true)
    (show ((hosting (handOut (.ofCode 0 #[] code))).midway
      "{ var x = 1; fun set() { x = 2; } fun get() { return x; } set(); make()(); get(); }" 0).any _ = true by
      decide +kernel)
  obtain ⟨v, given, number⟩ := Option.bind_eq_some_iff.1 (Option.some_get given).symm
  obtain ⟨f, first, decoded⟩ := Option.bind_eq_some_iff.1 sets
  obtain ⟨callers, frames⟩ := List.head?_eq_some_iff.1 first
  rw [first] at captured
  obtain ⟨w, value, same⟩ := Option.map_eq_some_iff.1 lost
  obtain rfl : w = .nil := by
    cases w with
    | nil => rfl
    | _ => cases same
  cases v with
  | number x =>
    exact ⟨s, _, x, here, Prod.ext none rfl, captures_of_next next top, captures_of_next next' top',
      ⟨given, f, callers, 0, frames, decoded, captured⟩,
      fun t lower upper => not_gives_of_next (others t upper lower), value⟩
  | _ => cases number

end Session

end Lox
