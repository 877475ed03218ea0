import Lox.Proofs.Bytecode.Shape
import Lox.Proofs.Machine.Likeness

/-!
# Machines in lockstep

Machines that are alike stay alike when they do the same (`exec_alike`): an action comes to alike
results in both of them, or stops both for the same reason.  The instructions they execute need not
be the same ones, but if they differ it is in the index of a constant, and the two constants are alike.
-/

namespace Lox.Machine

variable {α β γ δ : Type} {L : Link} {m n : Machine} {A : α → β → Prop} {B : γ → δ → Prop}

/-! ## Results -/

/-- Both actions have come to results that are related, or both have been stopped, and the machines
are alike. -/
inductive Together (L : Link) (A : α → β → Prop) :
    EStateM.Result Stop Machine α → EStateM.Result Stop Machine β → Prop where
  | ok {a b m n} (related : A a b) (alike : Alike L m n) : Together L A (.ok a m) (.ok b n)
  | error (stop : Stop) {m n} (alike : Alike L m n) : Together L A (.error stop m) (.error stop n)

/-- There is nothing to compare. -/
abbrev Done (_ _ : Unit) : Prop := True

lemma Together.bind {act : Action α} {act' : Action β} {f : α → Action γ} {f' : β → Action δ}
    (first : Together L A (act m) (act' n))
    (second : ∀ a b m' n', A a b → Alike L m' n' → Together L B (f a m') (f' b n')) :
    Together L B ((act >>= f) m) ((act' >>= f') n) := by
  show Together L B (EStateM.bind act f m) (EStateM.bind act' f' n)
  unfold EStateM.bind
  generalize act m = r at first ⊢
  generalize act' n = r' at first ⊢
  cases first with
  | ok related alike => exact second _ _ _ _ related alike
  | error stop alike => exact .error stop alike

lemma get_bind {f : Machine → Action γ} {f' : Machine → Action δ} (same : Together L B (f m m) (f' n n)) :
    Together L B ((get >>= f) m) ((get >>= f') n) := same

lemma orBroken_bind {defect : Defect} {a? : Option α} {b? : Option β} {f : α → Action γ}
    {f' : β → Action δ} (alike : Alike L m n) (related : Option.Rel A a? b?)
    (second : ∀ a b, A a b → Together L B (f a m) (f' b n)) :
    Together L B ((orBroken defect a? >>= f) m) ((orBroken defect b? >>= f') n) := by
  cases related with
  | some related => exact second _ _ related
  | none => exact .error _ alike

/-! ## The stack -/

/-- So many values at the top of the stack are above the place from which values are alike. -/
def Clear (L : Link) (count : Nat) (m : Machine) : Prop :=
  L.clear = 0 ∨ L.clear + count ≤ m.stack.size

lemma Clear.fewer {count count' : Nat} (h : Clear L count m) (less : count' ≤ count) :
    Clear L count' m :=
  h.imp_right fun room => Nat.le_trans (Nat.add_le_add_left less _) room

lemma Clear.resize {count : Nat} {m' : Machine} (h : Clear L count m)
    (size : m'.stack.size = m.stack.size) : Clear L count m' :=
  h.imp_right fun room => size.symm ▸ room

lemma Clear.pop {count : Nat} (h : Clear L (count + 1) m) :
    Clear L count { m with stack := m.stack.pop } := by
  refine h.imp_right fun room => ?_
  rw [Array.size_pop]
  omega

lemma Clear.above (distance : Nat) (h : Clear L (distance + 1) m) (bound : distance < m.stack.size) :
    L.clear ≤ m.stack.size - 1 - distance := by
  rcases h with zero | room <;> omega

lemma push_alike (alike : Alike L m n) {v w : Value} (values : Value.Alike L v w) :
    Together L Done (push v m) (push w n) :=
  .ok trivial { alike with stack := alike.stack.push values }

lemma pop_bind {f : Value → Action γ} {f' : Value → Action δ} (alike : Alike L m n)
    (clear : Clear L 1 m)
    (second : ∀ v w, Value.Alike L v w →
      Alike L { m with stack := m.stack.pop } { n with stack := n.stack.pop } →
      Together L B (f v { m with stack := m.stack.pop }) (f' w { n with stack := n.stack.pop })) :
    Together L B ((pop >>= f) m) ((pop >>= f') n) := by
  show Together L B (EStateM.bind pop f m) (EStateM.bind pop f' n)
  unfold EStateM.bind pop
  by_cases some : 0 < m.stack.size
  · have entry := alike.stack.entry (m.stack.size - 1) (Clear.above 0 clear some)
    rw [Array.back?_eq_getElem?, Array.back?_eq_getElem?, ← alike.stack.size]
    generalize m.stack[m.stack.size - 1]? = v at entry ⊢
    generalize n.stack[m.stack.size - 1]? = w at entry ⊢
    cases entry with
    | some values => exact second _ _ values { alike with stack := alike.stack.pop }
    | none => exact .error _ alike
  · have none : m.stack = #[] := Array.eq_empty_of_size_eq_zero (Nat.eq_zero_of_not_pos some)
    have none' : n.stack = #[] := by
      apply Array.eq_empty_of_size_eq_zero
      rw [← alike.stack.size, none]
      rfl
    rw [none, none']
    exact .error _ alike

lemma peek_bind {distance : Nat} {f : Value → Action γ} {f' : Value → Action δ} (alike : Alike L m n)
    (clear : Clear L (distance + 1) m)
    (second : ∀ v w, Value.Alike L v w → Together L B (f v m) (f' w n)) :
    Together L B ((peek distance >>= f) m) ((peek distance >>= f') n) := by
  show Together L B (EStateM.bind (peek distance) f m) (EStateM.bind (peek distance) f' n)
  unfold EStateM.bind peek
  by_cases bound : distance < m.stack.size
  · have bound' : distance < n.stack.size := alike.stack.size ▸ bound
    have entry := alike.stack.entry (m.stack.size - 1 - distance) (Clear.above _ clear bound)
    rw [Array.getElem?_eq_getElem (by omega), Array.getElem?_eq_getElem (by rw [alike.stack.size]; omega)]
      at entry
    simp only [bound, bound', ↓reduceDIte]
    cases entry with
    | some values =>
      refine second _ _ ?_
      simpa only [alike.stack.size] using values
  · have bound' : ¬distance < n.stack.size := alike.stack.size ▸ bound
    simp only [bound, bound', ↓reduceDIte]
    exact .error _ alike

lemma replace_bind {distance : Nat} {v w : Value} {f : Unit → Action γ} {f' : Unit → Action δ}
    (alike : Alike L m n) (values : Value.Alike L v w)
    (second : ∀ {m' n'}, m'.stack.size = m.stack.size → Alike L m' n' →
      Together L B (f () m') (f' () n')) :
    Together L B ((replace distance v >>= f) m) ((replace distance w >>= f') n) := by
  show Together L B (EStateM.bind (replace distance v) f m) (EStateM.bind (replace distance w) f' n)
  unfold EStateM.bind replace
  rw [← alike.stack.size]
  by_cases bound : distance < m.stack.size
  · rw [if_pos bound, if_pos bound]
    exact second Array.size_setIfInBounds { alike with stack := alike.stack.set _ values }
  · rw [if_neg bound, if_neg bound]
    exact .error _ alike

lemma readSlot_alike (alike : Alike L m n) {slot : Nat} (clear : L.clear ≤ slot) :
    Together L (Value.Alike L) (readSlot slot m) (readSlot slot n) := by
  unfold readSlot
  have entry := alike.stack.entry slot clear
  generalize m.stack[slot]? = v at entry ⊢
  generalize n.stack[slot]? = w at entry ⊢
  cases entry with
  | some values => exact .ok values alike
  | none => exact .error _ alike

lemma writeSlot_alike (alike : Alike L m n) {slot : Nat} {v w : Value}
    (values : Value.Alike L v w) : Together L Done (writeSlot slot v m) (writeSlot slot w n) := by
  unfold writeSlot
  rw [← alike.stack.size]
  split
  · exact .ok trivial { alike with stack := alike.stack.set _ values }
  · exact .error _ alike

lemma cutStack_alike (alike : Alike L m n) (size : Nat) :
    Together L Done (cutStack size m) (cutStack size n) :=
  .ok trivial { alike with stack := alike.stack.shrink size }

/-! ## New values -/

lemma newPrototype_alike (alike : Alike L m n) (name : String) (captureCount : Nat) :
    Prototype.Alike L (m.newPrototype name captureCount).1 (n.newPrototype name captureCount).1 ∧
      Alike L (m.newPrototype name captureCount).2 (n.newPrototype name captureCount).2 := by
  have ahead := alike.prototypes
  refine ⟨⟨ahead 0, rfl, rfl, rfl, rfl, fun _ => rfl, .empty⟩, { alike with prototypes := fun k => ?_ }⟩
  have next := ahead (k + 1)
  rwa [← Nat.add_assoc, ← Nat.add_assoc, Nat.add_right_comm, Nat.add_right_comm n.nextPrototype] at next

lemma newClosure_alike (alike : Alike L m n) {p q : Prototype} (prototypes : Prototype.Alike L p q)
    (captured : Array Nat) :
    Closure.Alike L (m.newClosure p captured).1 (n.newClosure q captured).1 ∧
      Alike L (m.newClosure p captured).2 (n.newClosure q captured).2 := by
  have ahead := alike.closures
  refine ⟨⟨ahead 0, prototypes, rfl⟩, { alike with closures := fun k => ?_ }⟩
  have next := ahead (k + 1)
  rwa [← Nat.add_assoc, ← Nat.add_assoc, Nat.add_right_comm, Nat.add_right_comm n.nextClosure] at next

lemma newClass_alike (alike : Alike L m n) (name : String) :
    (m.newClass name).1 = (n.newClass name).1 ∧ Alike L (m.newClass name).2 (n.newClass name).2 := by
  refine ⟨?_, { alike with methods := alike.methods.push .empty }⟩
  show ClassRef.mk m.methods.size name = ⟨n.methods.size, name⟩
  rw [alike.methods.size]

lemma newInstance_alike (alike : Alike L m n) (c : ClassRef) :
    Value.Alike L (m.newInstance c).1 (n.newInstance c).1 ∧
      Alike L (m.newInstance c).2 (n.newInstance c).2 := by
  refine ⟨?_, { alike with fields := alike.fields.push .empty }⟩
  show Value.Alike L (.inst m.fields.size c) (.inst n.fields.size c)
  rw [alike.fields.size]
  exact .inst _ _

lemma newBound_alike (alike : Alike L m n) {v w : Value} {c d : Closure}
    (receiver : Value.Alike L v w) (method : Closure.Alike L c d) :
    Value.Alike L (m.newBound v c).1 (n.newBound w d).1 ∧
      Alike L (m.newBound v c).2 (n.newBound w d).2 := by
  refine ⟨?_, { alike with nextBound := congrArg Nat.succ alike.nextBound }⟩
  show Value.Alike L (.bound m.nextBound v c) (.bound n.nextBound w d)
  rw [alike.nextBound]
  exact .bound _ receiver method

lemma newNative_alike (alike : Alike L m n) (name : String) (arity : UInt8) {body : NativeBody}
    (indifferent : body.Indifferent L) :
    Value.Alike L (m.newNative name arity body).1 (n.newNative name arity body).1 ∧
      Alike L (m.newNative name arity body).2 (n.newNative name arity body).2 := by
  refine ⟨?_, { alike with
    natives := congrArg (·.push body) alike.natives
    indifferent := fun body' there => ?_ }⟩
  · show Value.Alike L (.native ⟨m.natives.size, name, arity⟩) (.native ⟨n.natives.size, name, arity⟩)
    rw [alike.natives]
    exact .native _
  · rcases Array.mem_push.1 there with old | rfl
    · exact alike.indifferent body' old
    · exact indifferent

lemma bodyOf_alike (alike : Alike L m n) (serial : Nat) :
    m.bodyOf serial = n.bodyOf serial ∧ (m.bodyOf serial).Indifferent L := by
  unfold bodyOf
  rw [← alike.natives]
  refine ⟨rfl, ?_⟩
  cases known : m.natives[serial]? with
  | none => exact fun _ _ _ _ _ _ => .ok (.value .nil)
  | some body => exact alike.indifferent body (Array.mem_of_getElem? known)

/-- New objects that are alike are made of alike machines. -/
lemma extend_alike (alike : Alike L m n) {new new' : NewObjects} (objects : new.Alike L new') :
    Alike L (m.extend new) (n.extend new') := by
  have bodies : m.natives ++ new.natives.map m.bodyOf = n.natives ++ new'.natives.map n.bodyOf := by
    rw [alike.natives, objects.natives, funext fun serial => (bodyOf_alike alike serial).1]
  have further : ∀ {R : Nat → Nat → Prop} {i j : Nat}, (∀ k, R (i + k) (j + k)) → ∀ d k, R (i + d + k) (j + d + k) := by
    intro R i j ahead d k
    rw [Nat.add_assoc, Nat.add_assoc]
    exact ahead (d + k)
  exact { alike with
    methods := alike.methods.append objects.methods
    fields := alike.fields.append objects.fields
    natives := bodies
    indifferent := fun body there => by
      rcases Array.mem_append.1 there with old | new_
      · exact alike.indifferent body old
      · obtain ⟨serial, -, rfl⟩ := Array.mem_map.1 new_
        exact (bodyOf_alike alike serial).2
    prototypes := by
      show ∀ k, L.prototypes (m.nextPrototype + new.prototypes + k) (n.nextPrototype + new'.prototypes + k)
      rw [← objects.prototypes]
      exact further alike.prototypes _
    closures := by
      show ∀ k, L.closures (m.nextClosure + new.closures.size + k) (n.nextClosure + new'.closures.size + k)
      rw [← objects.closures.size]
      exact further alike.closures _
    nextBound := congrArg₂ (· + ·) alike.nextBound objects.bounds }

lemma build_alike (alike : Alike L m n) {b b' : Blueprint} (blueprints : b.Alike L b') :
    Value.Alike L (m.build b).1 (n.build b').1 ∧ Alike L (m.build b).2 (n.build b').2 := by
  cases blueprints with
  | value values => exact ⟨values, alike⟩
  | objects objects values => exact ⟨values, extend_alike alike objects⟩
  | same _ plain single =>
    cases b with
    | value v => exact absurd rfl (plain v)
    | objects new v => exact absurd rfl (single new v)
    | string content => exact ⟨.string rfl, { alike with }⟩
    | prototype name captureCount =>
      obtain ⟨prototypes, alike⟩ := newPrototype_alike alike name captureCount
      exact ⟨.prototype prototypes, alike⟩
    | closure name =>
      obtain ⟨prototypes, alike⟩ := newPrototype_alike alike name 0
      obtain ⟨closures, alike⟩ := newClosure_alike alike prototypes #[]
      exact ⟨.closure closures, alike⟩
    | cls name =>
      obtain ⟨same, alike⟩ := newClass_alike alike name
      refine ⟨?_, alike⟩
      show Value.Alike L (.cls (m.newClass name).1) (.cls (n.newClass name).1)
      rw [same]
      exact .cls _
    | inst className =>
      obtain ⟨same, alike⟩ := newClass_alike alike className
      show Value.Alike L ((m.newClass className).2.newInstance (m.newClass className).1).1
          ((n.newClass className).2.newInstance (n.newClass className).1).1 ∧
        Alike L ((m.newClass className).2.newInstance (m.newClass className).1).2
          ((n.newClass className).2.newInstance (n.newClass className).1).2
      rw [same]
      exact newInstance_alike alike _
    | bound name =>
      obtain ⟨prototypes, alike⟩ := newPrototype_alike alike name 0
      obtain ⟨closures, alike⟩ := newClosure_alike alike prototypes #[]
      exact newBound_alike alike .nil closures
    | native name arity =>
      exact newNative_alike alike name arity fun _ _ _ _ _ _ => .ok (.value .nil)

lemma make_alike (alike : Alike L m n) {b b' : Blueprint} (blueprints : b.Alike L b') :
    Together L (Value.Alike L) (make b m) (make b' n) :=
  .ok (build_alike alike blueprints).1 (build_alike alike blueprints).2

/-! ## The running calls -/

/-- What two actions do with the running calls, when these are alike. -/
lemma frame_bind {f : Frame → Action γ} {f' : Frame → Action δ} (alike : Alike L m n)
    (second : ∀ g ∈ m.frames.head?, ∀ h ∈ n.frames.head?, Frame.Alike L g h →
      Together L B (f g m) (f' h n)) :
    Together L B ((frame >>= f) m) ((frame >>= f') n) := by
  show Together L B (EStateM.bind frame f m) (EStateM.bind frame f' n)
  unfold EStateM.bind frame
  have frames := alike.frames
  generalize m.frames = fs at frames second ⊢
  generalize n.frames = gs at frames second ⊢
  cases frames with
  | nil => exact .error _ alike
  | cons here further => exact second _ rfl _ rfl here

lemma frame_base {f g : Frame} (frames : Frame.Alike L f g) : f.base = g.base := by
  cases frames <;> rfl

lemma frame_captured {f g : Frame} (frames : Frame.Alike L f g) :
    f.closure.captured = g.closure.captured := by
  cases frames with
  | call closure => exact closure.captured
  | script _ captured => exact captured

lemma goto_alike (alike : Alike L m n) {ip ip' : Nat}
    (aims : ∀ f ∈ m.frames.head?, ∀ g ∈ n.frames.head?, Frame.Alike L { f with ip } { g with ip := ip' }) :
    Together L Done (goto ip m) (goto ip' n) := by
  unfold goto
  have frames := alike.frames
  generalize before : m.frames = fs at frames aims ⊢
  generalize before' : n.frames = gs at frames aims ⊢
  cases frames with
  | nil => exact .error _ alike
  | cons _ further => exact .ok trivial { alike with frames := .cons (aims _ rfl _ rfl) further }

/-- The running call has read the opcode of its instruction, where that makes a difference. -/
def OpcodeRead (L : Link) (m : Machine) : Prop := L.offset = 0 ∨ ∀ f ∈ m.frames.head?, 1 ≤ f.ip

/-- The entries of two pools that the running calls find there are alike. -/
def EntriesAlike (L : Link) (m n : Machine) (index index' : UInt8) : Prop :=
  ∀ f ∈ m.frames.head?, ∀ g ∈ n.frames.head?, Option.Rel (Constant.Alike L)
    f.closure.prototype.chunk.constants[index.toNat]?
    g.closure.prototype.chunk.constants[index'.toNat]?

lemma constant_bind {index index' : UInt8} {f : Constant → Action γ} {f' : Constant → Action δ}
    (alike : Alike L m n) (entries : EntriesAlike L m n index index')
    (second : ∀ c d, Constant.Alike L c d → Together L B (f c m) (f' d n)) :
    Together L B ((constant index >>= f) m) ((constant index' >>= f') n) := by
  unfold constant
  rw [bind_assoc, bind_assoc]
  exact frame_bind alike fun g here h here' _ => orBroken_bind alike (entries g here h here') second

lemma name_bind {index index' : UInt8} {f : String → Action γ} {f' : String → Action δ}
    (alike : Alike L m n) (entries : EntriesAlike L m n index index')
    (second : ∀ x, Together L B (f x m) (f' x n)) :
    Together L B ((name index >>= f) m) ((name index' >>= f') n) := by
  unfold name
  rw [bind_assoc, bind_assoc]
  refine constant_bind alike entries fun c d constants => ?_
  cases constants with
  | @string s t content =>
    show Together L B (f s.content m) (f' t.content n)
    rw [content]
    exact second _
  | _ => exact .error _ alike

/-! ## Objects -/

lemma popClass_bind {f : ClassRef → Action γ} {f' : ClassRef → Action δ} (alike : Alike L m n)
    (clear : Clear L 1 m)
    (second : ∀ c, Alike L { m with stack := m.stack.pop } { n with stack := n.stack.pop } →
      Together L B (f c { m with stack := m.stack.pop }) (f' c { n with stack := n.stack.pop })) :
    Together L B ((popClass >>= f) m) ((popClass >>= f') n) := by
  unfold popClass
  rw [bind_assoc, bind_assoc]
  refine pop_bind alike clear fun v w values alike => ?_
  cases values with
  | cls c => exact second c alike
  | _ => exact .error _ alike

lemma methodsOf_bind {c : ClassRef} {f : Table Closure → Action γ} {f' : Table Closure → Action δ}
    (alike : Alike L m n)
    (second : ∀ t u, TablesAlike (Closure.Alike L) t u → Together L B (f t m) (f' u n)) :
    Together L B ((methodsOf c >>= f) m) ((methodsOf c >>= f') n) :=
  orBroken_bind alike (alike.methods.entry c.serial (Nat.zero_le _)) second

lemma modifyMethods_alike (alike : Alike L m n) (c : ClassRef)
    {change change' : Table Closure → Table Closure}
    (changes : ∀ t u, TablesAlike (Closure.Alike L) t u →
      TablesAlike (Closure.Alike L) (change t) (change' u)) :
    Together L Done (modifyMethods c change m) (modifyMethods c change' n) := by
  unfold modifyMethods
  rw [← alike.methods.size]
  split
  · exact .ok trivial { alike with methods := alike.methods.modify _ changes }
  · exact .error _ alike

lemma method_bind {c : ClassRef} {name : String} {f : Closure → Action γ} {f' : Closure → Action δ}
    (alike : Alike L m n) (second : ∀ c d, Closure.Alike L c d → Together L B (f c m) (f' d n)) :
    Together L B ((method c name >>= f) m) ((method c name >>= f') n) := by
  unfold method
  rw [bind_assoc, bind_assoc]
  refine methodsOf_bind alike fun t u tables => ?_
  have entry := tables name
  generalize t.find? name = a at entry ⊢
  generalize u.find? name = b at entry ⊢
  cases entry with
  | some closures => exact second _ _ closures
  | none => exact .error _ alike

lemma field_bind {serial : Nat} {name : String} {f : Option Value → Action γ}
    {f' : Option Value → Action δ} (alike : Alike L m n)
    (second : ∀ a b, Option.Rel (Value.Alike L) a b → Together L B (f a m) (f' b n)) :
    Together L B ((field? serial name >>= f) m) ((field? serial name >>= f') n) := by
  unfold field?
  rw [bind_assoc, bind_assoc]
  refine get_bind ?_
  rw [bind_assoc, bind_assoc]
  exact orBroken_bind alike (alike.fields.entry serial (Nat.zero_le _))
    fun t u tables => second _ _ (tables name)

lemma setField_bind {serial : Nat} {name : String} {v w : Value} {f : Unit → Action γ}
    {f' : Unit → Action δ} (alike : Alike L m n) (values : Value.Alike L v w)
    (second : ∀ {m' n'}, m'.stack.size = m.stack.size → Alike L m' n' →
      Together L B (f () m') (f' () n')) :
    Together L B ((setField serial name v >>= f) m) ((setField serial name w >>= f') n) := by
  show Together L B (EStateM.bind (setField serial name v) f m)
    (EStateM.bind (setField serial name w) f' n)
  unfold EStateM.bind setField
  rw [← alike.fields.size]
  by_cases bound : serial < m.fields.size
  · rw [if_pos bound, if_pos bound]
    exact second rfl
      { alike with fields := alike.fields.modify _ fun _ _ tables => tables.insert name values }
  · rw [if_neg bound, if_neg bound]
    exact .error _ alike

/-! ## Cells -/

lemma slotOf_alike (alike : Alike L m n) : m.slotOf = n.slotOf := by
  funext cell
  unfold slotOf
  have entry := alike.cells.entry cell (Nat.zero_le _)
  generalize m.cells[cell]? = a at entry ⊢
  generalize n.cells[cell]? = b at entry ⊢
  cases entry with
  | some cells => exact cells.slot?
  | none => rfl

lemma captureSlot_alike (alike : Alike L m n) {slot : Nat} (clear : L.clear ≤ slot) :
    Together L Eq (captureSlot slot m) (captureSlot slot n) := by
  unfold captureSlot
  rw [← slotOf_alike alike, ← alike.cells.size, ← alike.openCells]
  dsimp only
  split
  · exact .ok rfl { alike with openCells := rfl, cells := alike.cells.push (.opened clear) }
  · exact .ok rfl alike

/-- Cells that are to be closed with alike values. -/
abbrev ClosingAlike (L : Link) : List (Nat × Value) → List (Nat × Value) → Prop :=
  List.Forall₂ fun a b => a.1 = b.1 ∧ Value.Alike L a.2 b.2

lemma slot_clear (alike : Alike L m n) {cell slot : Nat} (place : m.slotOf cell = some slot) :
    L.clear ≤ slot := by
  unfold slotOf at place
  have entry := alike.cells.entry cell (Nat.zero_le _)
  generalize m.cells[cell]? = a at entry place
  generalize n.cells[cell]? = b at entry
  cases entry with
  | some cells =>
    cases cells with
    | opened clear => exact Option.some.inj place ▸ clear
    | closed => exact nomatch place
  | none => exact nomatch place

lemma partCells_alike (alike : Alike L m n) (last : Nat) (cells : List Nat) :
    Option.Rel (fun a b => ClosingAlike L a.1 b.1 ∧ a.2 = b.2) (m.partCells last cells)
      (n.partCells last cells) := by
  induction cells with
  | nil => exact .some ⟨List.Forall₂.nil, rfl⟩
  | cons cell lower ih =>
    unfold partCells
    rw [← slotOf_alike alike]
    cases place : m.slotOf cell with
    | none => exact .some ⟨List.Forall₂.nil, rfl⟩
    | some slot =>
      dsimp only
      split
      · have entry := alike.stack.entry slot (slot_clear alike place)
        generalize m.stack[slot]? = v at entry ⊢
        generalize n.stack[slot]? = w at entry ⊢
        generalize m.partCells last lower = a at ih ⊢
        generalize n.partCells last lower = b at ih ⊢
        cases entry with
        | none => exact .none
        | some values =>
          cases ih with
          | none => exact .none
          | some parts => exact .some ⟨List.Forall₂.cons ⟨rfl, values⟩ parts.1, parts.2⟩
      · exact .some ⟨List.Forall₂.nil, rfl⟩

lemma closeAll_alike {closing closing' : List (Nat × Value)} (h : ClosingAlike L closing closing') :
    ∀ {cells cells' : Array Cell}, RowsAlike 0 (Cell.Alike L) cells cells' →
      RowsAlike 0 (Cell.Alike L) (closeAll closing cells) (closeAll closing' cells') := by
  induction h with
  | nil => exact fun rows => rows
  | @cons a b _ _ here _ ih =>
    obtain ⟨cell, v⟩ := a
    obtain ⟨cell', w⟩ := b
    obtain ⟨same, values⟩ := here
    obtain rfl : cell = cell' := same
    exact fun rows => ih (rows.set cell (.closed values))

lemma closeCells_bind {last : Nat} {f : Unit → Action γ} {f' : Unit → Action δ} (alike : Alike L m n)
    (second : ∀ {m' n'}, m'.stack.size = m.stack.size → m'.frames = m.frames → Alike L m' n' →
      Together L B (f () m') (f' () n')) :
    Together L B ((closeCells last >>= f) m) ((closeCells last >>= f') n) := by
  show Together L B (EStateM.bind (closeCells last) f m) (EStateM.bind (closeCells last) f' n)
  unfold EStateM.bind closeCells
  have parts := partCells_alike alike last m.openCells
  rw [← alike.openCells]
  generalize m.partCells last m.openCells = a at parts ⊢
  generalize n.partCells last m.openCells = b at parts ⊢
  cases parts with
  | none => exact .error _ alike
  | @some a b parts =>
    obtain ⟨closing, openCells⟩ := a
    obtain ⟨closing', openCells'⟩ := b
    obtain ⟨closings, same⟩ := parts
    obtain rfl : openCells = openCells' := same
    exact second rfl rfl { alike with openCells := rfl, cells := closeAll_alike closings alike.cells }

lemma capturedCell_bind {index : UInt8} {f : Nat → Action γ} {f' : Nat → Action δ}
    (alike : Alike L m n) (second : ∀ cell, Together L B (f cell m) (f' cell n)) :
    Together L B ((capturedCell index >>= f) m) ((capturedCell index >>= f') n) := by
  unfold capturedCell
  rw [bind_assoc, bind_assoc]
  refine frame_bind alike fun g _ h _ frames => ?_
  rw [frame_captured frames]
  refine orBroken_bind (A := Eq) alike ?_ fun cell _ same => same ▸ second cell
  cases h.closure.captured[index.toNat]? with
  | none => exact .none
  | some cell => exact .some rfl

lemma readCell_alike (alike : Alike L m n) (cell : Nat) :
    Together L (Value.Alike L) (readCell cell m) (readCell cell n) := by
  refine get_bind (orBroken_bind alike (alike.cells.entry cell (Nat.zero_le _)) fun a b cells => ?_)
  cases cells with
  | opened clear => exact readSlot_alike alike clear
  | closed values => exact .ok values alike

lemma writeCell_alike (alike : Alike L m n) (cell : Nat) {v w : Value} (values : Value.Alike L v w) :
    Together L Done (writeCell cell v m) (writeCell cell w n) := by
  refine get_bind (orBroken_bind alike (alike.cells.entry cell (Nat.zero_le _)) fun a b cells => ?_)
  cases cells with
  | opened => exact writeSlot_alike alike values
  | closed => exact .ok trivial { alike with cells := alike.cells.set cell (.closed values) }

/-- The closure that is being made may capture the places its instruction names. -/
def PlacesClear (L : Link) (m : Machine) (slots : List UInt8) : Prop :=
  ∀ slot ∈ slots, ∀ f ∈ m.frames.head?, L.clear ≤ f.base + slot.toNat

/-- The places that a closure captures from the running call. -/
def localPlaces (captures : List Capture) : List UInt8 :=
  (captures.filter (·.isLocal)).map (·.index)

lemma captureSlot_frames {slot cell : Nat} {m' : Machine} (h : captureSlot slot m = .ok cell m') :
    m'.frames = m.frames := by
  unfold captureSlot at h
  dsimp only at h
  split at h <;> cases h <;> rfl

lemma captureAll_alike (captures : List Capture) :
    ∀ {m n : Machine} (found : Array Nat), Alike L m n → PlacesClear L m (localPlaces captures) →
      Together L Eq (captureAll captures found m) (captureAll captures found n) := by
  induction captures with
  | nil => exact fun found alike _ => .ok rfl alike
  | cons capture captures ih =>
    intro m n found alike clear
    unfold captureAll
    by_cases isLocal : capture.isLocal = true
    · have places : localPlaces (capture :: captures) = capture.index :: localPlaces captures := by
        unfold localPlaces
        rw [List.filter_cons_of_pos isLocal, List.map_cons]
      rw [places] at clear
      simp only [isLocal, ↓reduceIte]
      refine frame_bind alike fun f here g _ frames => ?_
      rw [← frame_base frames]
      have clear' := fun slot there => clear slot (List.mem_cons_of_mem _ there)
      have captured := captureSlot_alike alike (clear _ List.mem_cons_self f here)
      generalize result : captureSlot (f.base + capture.index.toNat) m = r at captured
      generalize result' : captureSlot (f.base + capture.index.toNat) n = r' at captured
      show Together L Eq (EStateM.bind _ _ m) (EStateM.bind _ _ n)
      unfold EStateM.bind
      rw [result, result']
      cases captured with
      | error stop alike => exact .error stop alike
      | ok same alike =>
        subst same
        refine ih _ alike fun slot there f' here' => clear' slot there f' ?_
        rw [← captureSlot_frames result]
        exact here'
    · have places : localPlaces (capture :: captures) = localPlaces captures := by
        unfold localPlaces
        rw [List.filter_cons_of_neg isLocal]
      rw [places] at clear
      simp only [isLocal, Bool.false_eq_true, ↓reduceIte]
      exact capturedCell_bind alike fun cell => ih _ alike clear

/-! ## Calls -/

lemma call_alike (alike : Alike L m n) {c d : Closure} (closures : Closure.Alike L c d) (count : UInt8)
    (clear : Clear L (count.toNat + 1) m) : Together L Done (call c count m) (call d count n) := by
  unfold call
  rw [← closures.prototype.arity, ← alike.frames.length_eq, ← alike.stack.size]
  dsimp only
  split
  · exact .error _ alike
  split
  · exact .error _ alike
  split
  · next bound =>
    exact .ok trivial
      { alike with frames := .cons (.call closures (clear.above _ bound)) alike.frames }
  · exact .error _ alike

/-- Functions of the host see alike things. -/
lemma host_alike (alike : Alike L m n) (self : Nat) : (m.host self).Alike L (n.host self) :=
  ⟨rfl, alike.now, alike.methods, alike.fields, alike.hostCalls, alike.prototypes, alike.closures, alike.nextBound,
    congrArg Array.size alike.natives⟩

lemma remember_alike (alike : Alike L m n) (function : Nat) {args args' : Array Value} {v? w? : Option Value}
    (arguments : RowsAlike 0 (Value.Alike L) args args') (answers : Option.Rel (Value.Alike L) v? w?) :
    Alike L (m.remember function args v?) (n.remember function args' w?) :=
  { alike with hostCalls := alike.hostCalls.push ⟨rfl, arguments, answers, alike.methods, alike.fields⟩ }

lemma callNative_alike (alike : Alike L m n) (f : NativeRef) {count : UInt8}
    (clear : Clear L (count.toNat + 1) m) :
    Together L Done (callNative f count m) (callNative f count n) := by
  unfold callNative
  split
  · exact .error _ alike
  refine get_bind ?_
  rw [← alike.natives]
  cases known : m.natives[f.serial]? with
  | none => exact .error _ alike
  | some body =>
    have args : RowsAlike 0 (Value.Alike L)
        (m.stack.extract (m.stack.size - count.toNat) m.stack.size)
        (n.stack.extract (n.stack.size - count.toNat) n.stack.size) := by
      rw [← alike.stack.size]
      have rows := alike.stack.extract (m.stack.size - count.toNat)
        (by rcases clear with zero | room <;> omega)
      rwa [← alike.stack.size] at rows
    have answers := alike.indifferent body (Array.mem_of_getElem? known) _ _ _ _ (host_alike alike f.serial) args
    refine orBroken_bind (A := fun a b => a = body ∧ b = body) alike (.some ⟨rfl, rfl⟩) ?_
    rintro a b ⟨first, second⟩
    dsimp only
    rw [first, second, ← alike.stack.size] at *
    generalize body (m.host _) _ = r at answers ⊢
    generalize body (n.host _) _ = r' at answers ⊢
    cases answers with
    | error message => exact .error _ (remember_alike alike _ args .none)
    | ok blueprints =>
      refine (make_alike alike blueprints).bind fun v w m' n' values alike => ?_
      have remembered := remember_alike alike f.serial args (.some values)
      exact (cutStack_alike remembered _).bind fun _ _ m' n' _ alike => push_alike alike values

lemma construct_alike (alike : Alike L m n) (c : ClassRef) {count : UInt8}
    (clear : Clear L (count.toNat + 1) m) :
    Together L Done (construct c count m) (construct c count n) := by
  obtain ⟨values, alike'⟩ := newInstance_alike alike c
  show Together L Done
    ((replace count.toNat (m.newInstance c).1 >>= fun _ => _ : Action Unit) (m.newInstance c).2)
    ((replace count.toNat (n.newInstance c).1 >>= fun _ => _ : Action Unit) (n.newInstance c).2)
  refine replace_bind alike' values fun size alike => methodsOf_bind alike fun t u tables => ?_
  have entry := tables "init"
  generalize t.find? "init" = a at entry ⊢
  generalize u.find? "init" = b at entry ⊢
  cases entry with
  | some closures => exact call_alike alike closures _ (clear.resize size)
  | none =>
    dsimp only
    split
    · exact .ok trivial alike
    · exact .error _ alike

lemma callValue_alike (alike : Alike L m n) {v w : Value} (values : Value.Alike L v w) {count : UInt8}
    (clear : Clear L (count.toNat + 1) m) :
    Together L Done (callValue v count m) (callValue w count n) := by
  cases values with
  | bound serial receiver method =>
    refine replace_bind alike receiver fun size alike => ?_
    exact call_alike alike method _ (clear.resize size)
  | cls c => exact construct_alike alike c clear
  | closure closures => exact call_alike alike closures _ clear
  | native f => exact callNative_alike alike f clear
  | _ => exact .error _ alike

lemma invokeFromClass_alike (alike : Alike L m n) (c : ClassRef) (name : String) {count : UInt8}
    (clear : Clear L (count.toNat + 1) m) :
    Together L Done (invokeFromClass c name count m) (invokeFromClass c name count n) :=
  method_bind alike fun _ _ closures => call_alike alike closures _ clear

lemma invoke_alike (alike : Alike L m n) (name : String) {count : UInt8}
    (clear : Clear L (count.toNat + 1) m) :
    Together L Done (invoke name count m) (invoke name count n) := by
  refine peek_bind alike clear fun v w values => ?_
  cases values with
  | inst serial c =>
    refine field_bind alike fun a b fields => ?_
    cases fields with
    | some callees =>
      refine replace_bind alike callees fun size alike => ?_
      exact callValue_alike alike callees (clear.resize size)
    | none => exact invokeFromClass_alike alike c name clear
  | _ => exact .error _ alike

lemma bindMethod_alike (alike : Alike L m n) (c : ClassRef) (name : String) (clear : Clear L 1 m) :
    Together L Done (bindMethod c name m) (bindMethod c name n) := by
  refine method_bind alike fun _ _ closures => pop_bind alike clear fun v w values alike => ?_
  obtain ⟨bound, alike⟩ := newBound_alike alike values closures
  exact push_alike alike bound

/-! ## Operators -/

lemma numeric_alike (alike : Alike L m n) (clear : Clear L 2 m) {f : Float → Float → Value}
    (plain : ∀ x y, Value.Alike L (f x y) (f x y)) :
    Together L Done (numeric f m) (numeric f n) := by
  refine peek_bind alike clear fun v w values => ?_
  refine peek_bind alike (clear.fewer (Nat.le_succ 1)) fun v' w' values' => ?_
  cases values with
  | number x =>
    cases values' with
    | number y =>
      refine pop_bind alike (clear.fewer (Nat.le_succ 1)) fun _ _ _ alike => ?_
      refine pop_bind alike clear.pop fun _ _ _ alike => ?_
      exact push_alike alike (plain x y)
    | _ => exact .error _ alike
  | _ => cases values' <;> exact .error _ alike

lemma add_alike (alike : Alike L m n) (clear : Clear L 2 m) :
    Together L Done (add m) (add n) := by
  refine peek_bind alike clear fun v w values => ?_
  refine peek_bind alike (clear.fewer (Nat.le_succ 1)) fun v' w' values' => ?_
  cases values with
  | number x =>
    cases values' with
    | number y =>
      refine pop_bind alike (clear.fewer (Nat.le_succ 1)) fun _ _ _ alike => ?_
      refine pop_bind alike clear.pop fun _ _ _ alike => ?_
      exact push_alike alike (.number (x + y))
    | _ => exact .error _ alike
  | @string s t content =>
    cases values' with
    | @string s' t' content' =>
      have joined : (m.strings.intern (s.content ++ s'.content)).1.content =
          (n.strings.intern (t.content ++ t'.content)).1.content := by
        rw [StringTable.content_intern, StringTable.content_intern, content, content']
      have interned : Alike L { m with strings := (m.strings.intern (s.content ++ s'.content)).2 }
        { n with strings := (n.strings.intern (t.content ++ t'.content)).2 } := { alike with }
      refine pop_bind interned (clear.fewer (Nat.le_succ 1)) fun _ _ _ alike => ?_
      refine pop_bind alike (Clear.pop clear) fun _ _ _ alike => ?_
      exact push_alike alike (.string joined)
    | _ => exact .error _ alike
  | _ => cases values' <;> exact .error _ alike

lemma negate_alike (alike : Alike L m n) (clear : Clear L 1 m) :
    Together L Done (negate m) (negate n) := by
  refine peek_bind alike clear fun v w values => ?_
  cases values with
  | number x => exact pop_bind alike clear fun _ _ _ alike => push_alike alike (.number (-x))
  | _ => exact .error _ alike

/-! ## Variables and properties -/

lemma readGlobal_alike (alike : Alike L m n) (name : String) :
    Together L Done (readGlobal name m) (readGlobal name n) := by
  refine get_bind ?_
  have entry := alike.globals name
  generalize m.globals.find? name = a at entry ⊢
  generalize n.globals.find? name = b at entry ⊢
  cases entry with
  | some values => exact push_alike alike values
  | none => exact .error _ alike

lemma defineGlobal_alike (alike : Alike L m n) (name : String) (clear : Clear L 1 m) :
    Together L Done (defineGlobal name m) (defineGlobal name n) :=
  pop_bind alike clear fun _ _ values alike =>
    .ok trivial { alike with globals := alike.globals.insert name values }

lemma writeGlobal_alike (alike : Alike L m n) (name : String) (clear : Clear L 1 m) :
    Together L Done (writeGlobal name m) (writeGlobal name n) := by
  refine get_bind ?_
  rw [← alike.globals.contains name]
  split
  · exact peek_bind alike clear fun _ _ values =>
      .ok trivial { alike with globals := alike.globals.insert name values }
  · exact .error _ alike

/-- An instruction that fails before its operand is read fails in both. -/
lemma failUnread_alike (alike : Alike L m n) (ahead : OpcodeRead L m) (error : RuntimeError) :
    Together L Done (failUnread error m) (failUnread error n) := by
  refine frame_bind alike fun f here g here' frames => ?_
  refine (goto_alike alike fun f' there g' there' => ?_).bind fun _ _ _ _ _ alike => .error _ alike
  obtain rfl := Option.some.inj (here.symm.trans there)
  obtain rfl := Option.some.inj (here'.symm.trans there')
  cases frames with
  | call closures clear => exact .call closures clear
  | @script c d ip base scripts captured =>
    have same : ip + L.offset - 1 = ip - 1 + L.offset := by
      rcases ahead with none | ends
      · omega
      · have := ends _ here
        dsimp only at this
        omega
    rw [same]
    exact .script scripts captured

lemma readProperty_alike (alike : Alike L m n) {index index' : UInt8}
    (entries : EntriesAlike L m n index index') (clear : Clear L 1 m) (ahead : OpcodeRead L m) :
    Together L Done (readProperty index m) (readProperty index' n) := by
  refine peek_bind alike clear fun v w values => ?_
  cases values with
  | inst serial c =>
    refine name_bind alike entries fun x => field_bind alike fun a b fields => ?_
    cases fields with
    | some values => exact pop_bind alike clear fun _ _ _ alike => push_alike alike values
    | none => exact bindMethod_alike alike c x clear
  | _ => exact failUnread_alike alike ahead _

lemma writeProperty_alike (alike : Alike L m n) {index index' : UInt8}
    (entries : EntriesAlike L m n index index') (clear : Clear L 2 m) (ahead : OpcodeRead L m) :
    Together L Done (writeProperty index m) (writeProperty index' n) := by
  refine peek_bind alike clear fun v w values => ?_
  cases values with
  | inst serial c =>
    refine name_bind alike entries fun x => ?_
    refine pop_bind alike (clear.fewer (Nat.le_succ 1)) fun v w values alike => ?_
    refine setField_bind alike values fun size alike => ?_
    exact pop_bind alike (clear.pop.resize size) fun _ _ _ alike => push_alike alike values
  | _ => exact failUnread_alike alike ahead _

/-! ## Functions and classes -/

lemma pushClosure_alike (alike : Alike L m n) {index index' : UInt8} {captures : List Capture}
    (entries : EntriesAlike L m n index index') (places : PlacesClear L m (localPlaces captures)) :
    Together L Done (pushClosure index captures m) (pushClosure index' captures n) := by
  refine constant_bind alike entries fun c d constants => ?_
  cases c with
  | prototype p =>
    cases d with
    | prototype q =>
      have prototypes := Constant.alike_prototype.1 constants
      refine (captureAll_alike captures #[] alike places).bind fun found _ m' n' same alike => ?_
      subst same
      obtain ⟨closures, alike⟩ := newClosure_alike alike prototypes found
      exact push_alike alike (.closure closures)
    | _ => cases constants
  | _ =>
    cases constants
    exact .error _ alike

lemma ret_alike (alike : Alike L m n) (clear : Clear L 1 m) : Together L Done (ret m) (ret n) := by
  refine pop_bind alike clear fun v w values alike => ?_
  refine frame_bind alike fun f _ g _ frames => ?_
  rw [frame_base frames]
  have left : List.Forall₂ (Frame.Alike L) m.frames.tail n.frames.tail := by
    have frames := alike.frames
    revert frames
    generalize m.frames = fs
    generalize n.frames = gs
    intro frames
    cases frames with
    | nil => exact .nil
    | cons _ further => exact further
  have returned : Alike L { m with stack := m.stack.pop, frames := m.frames.tail }
      { n with stack := n.stack.pop, frames := n.frames.tail } := { alike with frames := left }
  refine closeCells_bind returned fun _ _ alike => ?_
  refine (cutStack_alike alike _).bind fun _ _ m' n' _ alike => get_bind ?_
  have ends : m'.frames.isEmpty = n'.frames.isEmpty := by
    have frames := alike.frames
    revert frames
    generalize m'.frames = fs
    generalize n'.frames = gs
    intro frames
    cases frames <;> rfl
  rw [← ends]
  split
  · exact .error _ alike
  · exact push_alike alike values

lemma pushClass_alike (alike : Alike L m n) {index index' : UInt8}
    (entries : EntriesAlike L m n index index') :
    Together L Done (pushClass index m) (pushClass index' n) := by
  refine name_bind alike entries fun x => ?_
  obtain ⟨same, alike⟩ := newClass_alike alike x
  show Together L Done (push (.cls (m.newClass x).1) (m.newClass x).2) (push (.cls (n.newClass x).1) (n.newClass x).2)
  rw [same]
  exact push_alike alike (.cls _)

lemma inherit_alike (alike : Alike L m n) (clear : Clear L 2 m) :
    Together L Done (inherit m) (inherit n) := by
  refine peek_bind alike clear fun v w values => ?_
  cases values with
  | cls superclass =>
    refine popClass_bind alike (clear.fewer (Nat.le_succ 1)) fun c alike => ?_
    refine methodsOf_bind alike fun t u tables => ?_
    exact modifyMethods_alike alike c fun _ _ own => own.addAll tables
  | _ => exact .error _ alike

lemma addMethod_alike (alike : Alike L m n) {index index' : UInt8}
    (entries : EntriesAlike L m n index index') (clear : Clear L 2 m) :
    Together L Done (addMethod index m) (addMethod index' n) := by
  refine name_bind alike entries fun x => ?_
  refine pop_bind alike (clear.fewer (Nat.le_succ 1)) fun v w values alike => ?_
  cases values with
  | closure closures =>
    refine peek_bind alike clear.pop fun v w values => ?_
    cases values with
    | cls c => exact modifyMethods_alike alike c fun _ _ tables => tables.insert x closures
    | _ => exact .error _ alike
  | _ => exact .error _ alike

/-- After what is printed the machines have still told the same. -/
lemma note_alike (alike : Alike L m n) (e : Event) : Alike L (m.note e) (n.note e) := by
  refine { alike with told := ?_ }
  unfold told note
  rw [Array.toList_push, Array.toList_push, List.filter_append, List.filter_append]
  exact congrArg (· ++ _) alike.told

end Lox.Machine

namespace Lox.Instr

/-- The index of the constant that an instruction refers to. -/
def constant? : Instr → Option UInt8
  | .constant index | .getGlobal index | .defineGlobal index | .setGlobal index
  | .getProperty index | .setProperty index | .getSuper index | .invoke index _
  | .superInvoke index _ | .closure index _ | .makeClass index | .method index => some index
  | _ => none

/-- The instruction that refers to another constant. -/
def withConstant (index : UInt8) : Instr → Instr
  | .constant _ => .constant index
  | .getGlobal _ => .getGlobal index
  | .defineGlobal _ => .defineGlobal index
  | .setGlobal _ => .setGlobal index
  | .getProperty _ => .getProperty index
  | .setProperty _ => .setProperty index
  | .getSuper _ => .getSuper index
  | .invoke _ count => .invoke index count
  | .superInvoke _ count => .superInvoke index count
  | .closure _ captures => .closure index captures
  | .makeClass _ => .makeClass index
  | .method _ => .method index
  | i => i

/-- The places of the running call that an instruction looks at. -/
def places : Instr → List UInt8
  | .getLocal slot => [slot]
  | .closure _ captures => Machine.localPlaces captures
  | _ => []

end Lox.Instr

namespace Lox.Machine

variable {L : Link} {m n : Machine}

/-- Instructions that do the same: the constants they refer to are alike. -/
def InstrsAlike (L : Link) (m n : Machine) (i j : Instr) : Prop :=
  i.constant? = none ∧ j = i ∨ ∃ index index', i.constant? = some index ∧ j = i.withConstant index' ∧
    EntriesAlike L m n index index'

/-- All that an instruction looks at on the stack is above the place from which values are alike. -/
structure Within (L : Link) (m : Machine) (i : Instr) : Prop where
  values : Clear L i.reach m
  places : PlacesClear L m i.places
  ahead : OpcodeRead L m
  back : ∀ distance, i = .loop distance →
    L.offset = 0 ∨ ∀ f ∈ m.frames.head?, distance.toNat ≤ f.ip

/-! ## Steps -/

lemma jump_alike (alike : Alike L m n) (distance : UInt16) :
    Together L Done (exec (.jump distance) m) (exec (.jump distance) n) := by
  refine frame_bind alike fun f here g here' frames => goto_alike alike fun f' there g' there' => ?_
  obtain rfl := Option.some.inj (here.symm.trans there)
  obtain rfl := Option.some.inj (here'.symm.trans there')
  cases frames with
  | call closures clear => exact .call closures clear
  | script scripts captured =>
    rw [Nat.add_right_comm]
    exact .script scripts captured

lemma loop_alike (alike : Alike L m n) (distance : UInt16)
    (back : L.offset = 0 ∨ ∀ f ∈ m.frames.head?, distance.toNat ≤ f.ip) :
    Together L Done (exec (.loop distance) m) (exec (.loop distance) n) := by
  refine frame_bind alike fun f here g here' frames => ?_
  have aims : ∀ {ip ip'}, Frame.Alike L { f with ip } { g with ip := ip' } →
      Together L Done (goto ip m) (goto ip' n) := by
    intro ip ip' aim
    refine goto_alike alike fun f' there g' there' => ?_
    obtain rfl := Option.some.inj (here.symm.trans there)
    obtain rfl := Option.some.inj (here'.symm.trans there')
    exact aim
  cases frames with
  | call closures clear =>
    dsimp only
    split
    · exact aims (.call closures clear)
    · exact .error _ alike
  | @script c d ip base scripts captured =>
    dsimp only
    have room : distance.toNat ≤ ip ∨ L.offset = 0 := back.symm.imp_left fun ends => ends _ here
    by_cases bound : distance.toNat ≤ ip
    · rw [if_pos bound, if_pos (Nat.le_trans bound (Nat.le_add_right _ _)),
        Nat.sub_add_comm bound]
      exact aims (.script scripts captured)
    · have zero : L.offset = 0 := room.resolve_left bound
      rw [zero, Nat.add_zero, if_neg bound]
      exact .error _ alike

theorem exec_alike (alike : Alike L m n) {i j : Instr} (instrs : InstrsAlike L m n i j)
    (within : Within L m i) : Together L Done (exec i m) (exec j n) := by
  have clear := within.values
  rcases instrs with ⟨plain, same⟩ | ⟨index, index', refers, rfl, entries⟩
  · subst same
    cases j with
    | pushNil => exact push_alike alike .nil
    | pushTrue => exact push_alike alike (.bool true)
    | pushFalse => exact push_alike alike (.bool false)
    | pop => exact pop_bind alike clear fun _ _ _ alike => .ok trivial alike
    | getLocal slot =>
      refine frame_bind alike fun f here g _ frames => ?_
      rw [← frame_base frames]
      refine (readSlot_alike alike (within.places slot List.mem_cons_self f here)).bind ?_
      exact fun _ _ _ _ values alike => push_alike alike values
    | setLocal slot =>
      refine frame_bind alike fun f _ g _ frames => peek_bind alike clear fun v w values => ?_
      rw [← frame_base frames]
      exact writeSlot_alike alike values
    | getUpvalue index =>
      refine capturedCell_bind alike fun cell => (readCell_alike alike cell).bind ?_
      exact fun _ _ _ _ values alike => push_alike alike values
    | setUpvalue index =>
      refine capturedCell_bind alike fun cell => peek_bind alike clear fun v w values => ?_
      exact writeCell_alike alike cell values
    | equal =>
      refine pop_bind alike (clear.fewer (Nat.le_succ 1)) fun _ _ values alike => ?_
      refine pop_bind alike clear.pop fun _ _ values' alike => ?_
      rw [values'.same values]
      exact push_alike alike (.bool _)
    | greater => exact numeric_alike alike clear fun x y => .bool _
    | less => exact numeric_alike alike clear fun x y => .bool _
    | add => exact add_alike alike clear
    | subtract => exact numeric_alike alike clear fun x y => .number _
    | multiply => exact numeric_alike alike clear fun x y => .number _
    | divide => exact numeric_alike alike clear fun x y => .number _
    | not =>
      refine pop_bind alike clear fun _ _ values alike => ?_
      rw [values.isFalsey]
      exact push_alike alike (.bool _)
    | negate => exact negate_alike alike clear
    | print =>
      refine pop_bind alike clear fun _ _ values alike => ?_
      rw [values.display]
      exact .ok trivial (note_alike alike _)
    | jump distance => exact jump_alike alike distance
    | jumpIfFalse distance =>
      refine peek_bind alike clear fun v w values => ?_
      rw [values.isFalsey]
      split
      · exact jump_alike alike distance
      · exact .ok trivial alike
    | loop distance => exact loop_alike alike distance (within.back distance rfl)
    | call count =>
      exact peek_bind alike clear fun _ _ values => callValue_alike alike values clear
    | closeUpvalue =>
      refine get_bind ?_
      rw [← alike.stack.size]
      refine closeCells_bind alike fun size _ alike => ?_
      exact pop_bind alike (clear.resize size) fun _ _ _ alike => .ok trivial alike
    | ret => exact ret_alike alike clear
    | inherit => exact inherit_alike alike clear
    | _ => cases plain
  · cases i with
    | constant k =>
      obtain rfl := Option.some.inj refers
      exact constant_bind alike entries fun _ _ constants => push_alike alike constants.toValue
    | getGlobal k =>
      obtain rfl := Option.some.inj refers
      exact name_bind alike entries fun x => readGlobal_alike alike x
    | defineGlobal k =>
      obtain rfl := Option.some.inj refers
      exact name_bind alike entries fun x => defineGlobal_alike alike x clear
    | setGlobal k =>
      obtain rfl := Option.some.inj refers
      exact name_bind alike entries fun x => writeGlobal_alike alike x clear
    | getProperty k =>
      obtain rfl := Option.some.inj refers
      exact readProperty_alike alike entries clear within.ahead
    | setProperty k =>
      obtain rfl := Option.some.inj refers
      exact writeProperty_alike alike entries clear within.ahead
    | getSuper k =>
      obtain rfl := Option.some.inj refers
      refine name_bind alike entries fun x => ?_
      refine popClass_bind alike (clear.fewer (Nat.le_succ 1)) fun c alike => ?_
      exact bindMethod_alike alike c x clear.pop
    | invoke k count =>
      obtain rfl := Option.some.inj refers
      exact name_bind alike entries fun x => invoke_alike alike x clear
    | superInvoke k count =>
      obtain rfl := Option.some.inj refers
      refine name_bind alike entries fun x => ?_
      refine popClass_bind alike (clear.fewer (by simp only [Instr.reach]; omega)) fun c alike => ?_
      exact invokeFromClass_alike alike c x clear.pop
    | closure k captures =>
      obtain rfl := Option.some.inj refers
      exact pushClosure_alike alike entries within.places
    | makeClass k =>
      obtain rfl := Option.some.inj refers
      exact pushClass_alike alike entries
    | method k =>
      obtain rfl := Option.some.inj refers
      exact addMethod_alike alike entries clear
    | _ => cases refers

/-! ## Runs -/

/-- The calls are compared as a whole, with all of the values on the stack. -/
structure Whole (L : Link) : Prop where
  clear : L.clear = 0
  offset : L.offset = 0
  scripts : ∀ c d, ¬L.scripts c d

lemma Whole.closures (whole : Whole L) {f g : Frame} (frames : Frame.Alike L f g) :
    Closure.Alike L f.closure g.closure ∧ f.ip = g.ip ∧ f.base = g.base := by
  cases frames with
  | call closures => exact ⟨closures, rfl, rfl⟩
  | script scripts => exact absurd scripts (whole.scripts _ _)

lemma Whole.fetch (whole : Whole L) (alike : Alike L m n) :
    Together L Eq (fetch m) (fetch n) := by
  unfold Machine.fetch
  have frames := alike.frames
  generalize callers : m.frames = fs at frames
  generalize callers' : n.frames = gs at frames
  cases frames with
  | nil => exact .error _ alike
  | @cons f g fs gs first others =>
    obtain ⟨closures, ip, base⟩ := whole.closures first
    dsimp only
    rw [closures.prototype.instrAt?, closures.prototype.size, ip]
    cases g.closure.prototype.chunk.instrAt? g.ip with
    | none => exact .error _ alike
    | some i =>
      dsimp only
      split
      · refine .ok rfl { alike with frames := .cons ?_ others }
        obtain ⟨d, ip', base'⟩ := g
        obtain rfl : f.base = base' := base
        exact .call closures (whole.clear ▸ Nat.zero_le _)
      · exact .error _ alike

lemma Whole.instrs (whole : Whole L) (alike : Alike L m n) (i : Instr) : InstrsAlike L m n i i := by
  cases refers : i.constant? with
  | none => exact Or.inl ⟨refers, rfl⟩
  | some index =>
    have same : i = i.withConstant index := by
      cases i <;> cases refers <;> rfl
    refine Or.inr ⟨index, index, refers, same, fun f here g here' => ?_⟩
    have frames := alike.frames
    generalize m.frames = fs at frames here
    generalize n.frames = gs at frames here'
    cases frames with
    | nil => exact nomatch here
    | cons first _ =>
      obtain rfl := Option.some.inj here
      obtain rfl := Option.some.inj here'
      exact (whole.closures first).1.prototype.constants.entry _ (Nat.zero_le _)

lemma Whole.step (whole : Whole L) (alike : Alike L m n) : Together L Done (step m) (step n) :=
  (whole.fetch alike).bind fun i _ _ _ same alike => same ▸
    exec_alike alike (whole.instrs alike i)
      ⟨Or.inl whole.clear, fun _ _ _ _ => whole.clear ▸ Nat.zero_le _, .inl whole.offset, fun _ _ => .inl whole.offset⟩

/-- Nothing but records has been added to the journal. -/
def Recorded (m m' : Machine) : Prop := ∃ journal, m' = { m with journal } ∧ m'.told = m.told

lemma Recorded.refl (m : Machine) : Recorded m m := ⟨m.journal, rfl, rfl⟩

lemma Recorded.trans {m m' m'' : Machine} (first : Recorded m m') (second : Recorded m' m'') :
    Recorded m m'' := by
  obtain ⟨_, rfl, told⟩ := first
  obtain ⟨journal, rfl, told'⟩ := second
  exact ⟨journal, rfl, told'.trans told⟩

lemma recorded_note (m : Machine) (level : RecordLevel) (text : String) :
    Recorded m (m.note (.recorded level text)) := by
  refine ⟨_, rfl, ?_⟩
  unfold told note
  rw [Array.toList_push, List.filter_append]
  exact List.append_nil _

lemma recorded_noteStep (m : Machine) : Recorded m m.noteStep := by
  unfold noteStep
  split
  · exact recorded_note m _ _
  · exact .refl m

lemma Alike.recorded {m' n' : Machine} (alike : Alike L m n) (left : Recorded m m')
    (right : Recorded n n') : Alike L m' n' := by
  obtain ⟨_, rfl, told⟩ := left
  obtain ⟨_, rfl, told'⟩ := right
  exact { alike with told := told.trans (alike.told.trans told'.symm) }

lemma recorded_traced (traced : Bool) (m : Machine) :
    Recorded m (if traced then m.noteStep else m) := by
  split
  · exact recorded_noteStep m
  · exact .refl m

/-- Machines that are alike stop after the same number of steps and for the same reason. -/
theorem Whole.run (whole : Whole L) (traced traced' : Bool) (fuel : Nat) :
    ∀ {m n : Machine}, Alike L m n →
      (run traced fuel m).1 = (run traced' fuel n).1 ∧
        Alike L (run traced fuel m).2 (run traced' fuel n).2 := by
  induction fuel with
  | zero => exact fun alike => ⟨rfl, alike⟩
  | succ fuel ih =>
    intro m n alike
    have stepped := whole.step (alike.recorded (recorded_traced traced m) (recorded_traced traced' n))
    unfold Machine.run
    generalize Machine.step (if traced then m.noteStep else m) = r at stepped ⊢
    generalize Machine.step (if traced' then n.noteStep else n) = r' at stepped ⊢
    cases stepped with
    | ok _ alike' => exact ih alike'
    | error stop alike' => exact ⟨rfl, alike'⟩

/-! ## The end of a run -/

/-- The same is reported where the lines agree. -/
lemma Whole.report (whole : Whole L) (lined : L.lined) (alike : Alike L m n) (error : RuntimeError) :
    m.report error = n.report error := by
  have lines : ∀ {f g : Frame}, Frame.Alike L f g → frameLine f = frameLine g := fun frames => by
    obtain ⟨closures, ip, -⟩ := whole.closures frames
    unfold frameLine Frame.line Chunk.lineAt?
    rw [closures.prototype.name, ip, closures.prototype.lines lined]
  refine congrArg (error.message :: ·) ?_
  have frames := alike.frames
  generalize m.frames = fs at frames ⊢
  generalize n.frames = gs at frames ⊢
  induction frames with
  | nil => rfl
  | cons first _ ih => rw [List.map_cons, List.map_cons, lines first, ih]

lemma reset_alike (alike : Alike L m n) : Alike L m.reset n.reset := by
  have parts := partCells_alike alike 0 m.openCells
  have closing : ClosingAlike L ((m.partCells 0 m.openCells).elim [] (·.1))
      ((n.partCells 0 n.openCells).elim [] (·.1)) := by
    rw [← alike.openCells]
    generalize m.partCells 0 m.openCells = a at parts ⊢
    generalize n.partCells 0 m.openCells = b at parts ⊢
    cases parts with
    | none => exact List.Forall₂.nil
    | some parts => exact parts.1
  exact
    { alike with
      stack := ⟨rfl, fun _ _ => .none⟩
      frames := .nil
      cells := closeAll_alike closing alike.cells
      openCells := rfl }

end Lox.Machine
