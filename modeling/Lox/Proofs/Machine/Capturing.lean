import Lox.Proofs.Machine.Failures
import Lox.Proofs.Machine.Ledger

/-!
# New closures in a ledger

A closure that is made where no superclass is in scope captures those of the closure that makes it, and a
method captures the hidden variable of its class.  The ledger gets an entry for each cell that is opened
for it, with the superclass if the hidden variable is captured (`Ledger.Covers.closure`).
-/

namespace Lox

open Compile Machine

namespace Ledger

variable {l l' l'' : Ledger} {m m' : Machine} {f : Frame} {callers : List Frame} {slot : Nat}
  {r : ClassRef}

/-- More cells are known, and more classes are complete. -/
structure Extends (l l' : Ledger) : Prop where
  supers : l.supers <+: l'.supers
  size : l.methods.size ≤ l'.methods.size
  same : ∀ i < l.methods.size, l'.methods[i]? = l.methods[i]?

lemma Extends.refl (l : Ledger) : l.Extends l := ⟨List.prefix_refl _, Nat.le_refl _, fun _ _ => rfl⟩

lemma Extends.trans (first : l.Extends l') (second : l'.Extends l'') : l.Extends l'' :=
  ⟨first.supers.trans second.supers, first.size.trans second.size, fun i below =>
    (second.same i (below.trans_le first.size)).trans (first.same i below)⟩

/-- The superclass in the hidden variable at a place. -/
def label (l : Ledger) (slot : Nat) : Option ClassRef :=
  l.hidden.bind fun alive => if alive.1 = slot then some alive.2 else none

@[simp] lemma label_eq_some : l.label slot = some r ↔ l.hidden = some (slot, r) := by
  unfold label
  cases l.hidden with
  | none => simp
  | some alive =>
    obtain ⟨place, r'⟩ := alive
    simp [Option.bind_some]

lemma label_of_none (none : l.hidden = none) (slot : Nat) : l.label slot = Option.none := by
  rw [label, none, Option.bind_none]

/-- An entry for one more cell. -/
def enter (l : Ledger) (slot : Nat) : Ledger := { l with supers := l.supers ++ [l.label slot] }

/-- The ledger has more entries for cells. -/
structure Grown (l l' : Ledger) : Prop where
  supers : l.supers <+: l'.supers
  hidden : l'.hidden = l.hidden
  methods : l'.methods = l.methods

lemma Grown.refl (l : Ledger) : l.Grown l := ⟨List.prefix_refl _, rfl, rfl⟩

lemma Grown.trans (first : l.Grown l') (second : l'.Grown l'') : l.Grown l'' :=
  ⟨first.supers.trans second.supers, second.hidden.trans first.hidden, second.methods.trans first.methods⟩

lemma Grown.extends (h : l.Grown l') : l.Extends l' :=
  ⟨h.supers, Nat.le_of_eq (congrArg Array.size h.methods.symm), fun _ _ => by rw [h.methods]⟩

lemma Grown.label (h : l.Grown l') (slot : Nat) : l'.label slot = l.label slot := by
  rw [Ledger.label, Ledger.label, h.hidden]

lemma grown_enter (l : Ledger) (slot : Nat) : l.Grown (l.enter slot) := ⟨List.prefix_append _ _, rfl, rfl⟩

lemma known_of_prefix {supers supers' : List (Option ClassRef)} (grows : supers <+: supers') {i : Nat}
    {known : Option ClassRef} (there : supers[i]? = some known) : supers'[i]? = some known := by
  obtain ⟨further, rfl⟩ := grows
  rw [List.getElem?_append_left (List.getElem?_eq_some_iff.1 there).1, there]

/-! ## Cells -/

/-- An open cell has an entry for its place. -/
lemma Covers.entry (h : l.Covers m) {i : Nat} (opened : m.cells[i]? = some (.opened slot)) :
    l.supers[i]? = some (l.label slot) := by
  have bound := (Array.getElem?_eq_some_iff.1 opened).1
  rw [← h.count] at bound
  rw [List.getElem?_eq_getElem bound]
  congr 1
  refine Option.ext fun r => ?_
  rw [label_eq_some, ← h.opened opened r, List.getElem?_eq_getElem bound, Option.some.injEq]

/-- A cell is opened for a place. -/
lemma Covers.openCell (h : l.Covers m) (slot : Nat) (openCells : List Nat) :
    (l.enter slot).Covers { m with openCells, cells := m.cells.push (.opened slot) } := by
  have grows := (grown_enter l slot).supers
  refine {
    toHolds := { h.toHolds.mono fun _ good => good.grow grows with
      cells := fun v there => (Array.mem_push.1 there).elim
        (fun old => (h.cells v old).mono fun _ good => good.grow grows) fun same => nomatch same }
    tables := h.tables
    count := by simp [enter, h.count]
    closed := fun {i v r} there known => ?_
    opened := fun {i place} there r => ?_
    hidden := h.hidden }
  · rw [Array.getElem?_push] at there
    split at there
    · cases there
    · have bound := (Array.getElem?_eq_some_iff.1 there).1
      rw [enter, List.getElem?_append_left (by rw [h.count]; exact bound)] at known
      exact h.closed there known
  · rw [Array.getElem?_push] at there
    split at there
    · next last =>
      obtain rfl := Cell.opened.inj (Option.some.inj there)
      rw [enter, last, ← h.count, List.getElem?_concat_length, Option.some.injEq, label_eq_some]
    · have bound := (Array.getElem?_eq_some_iff.1 there).1
      rw [enter, List.getElem?_append_left (by rw [h.count]; exact bound)]
      exact h.opened there r

/-! ## Captures -/

/-- The cell is the one that a call captures: of a place of its own, or else one that its closure has. -/
def Refers (l : Ledger) (f : Frame) (capture : Capture) (cell : Nat) : Prop :=
  if capture.isLocal then l.supers[cell]? = some (l.label (f.base + capture.index.toNat))
  else f.closure.captured[capture.index.toNat]? = some cell

lemma Refers.grow {capture : Capture} {cell : Nat} (h : l.Refers f capture cell) (grown : l.Grown l') :
    l'.Refers f capture cell := by
  unfold Refers at h ⊢
  split
  · next isLocal =>
    rw [if_pos isLocal] at h
    rw [grown.label]
    exact known_of_prefix grown.supers h
  · next outer =>
    rw [if_neg outer] at h
    exact h

/-- What has come of captures: more cells, which are opened for places of the running call. -/
structure Captured (l : Ledger) (f : Frame) (captures : List Capture) (m : Machine) (l' : Ledger)
    (m' : Machine) : Prop where
  grown : l.Grown l'
  covers : l'.Covers m'
  ordered : m'.Ordered
  same : ∃ openCells cells, m' = { m with openCells, cells }
  opened : ∀ {i slot : Nat}, m'.cells[i]? = some (.opened slot) →
    m.cells[i]? = some (.opened slot) ∨
      ∃ capture ∈ captures, capture.isLocal = true ∧ slot = f.base + capture.index.toNat

lemma captured_one {capture : Capture} {cell : Nat} (covers : l.Covers m) (ordered : m.Ordered)
    (frames : m.frames = f :: callers)
    (result : (if capture.isLocal then do captureSlot ((← frame).base + capture.index.toNat)
      else capturedCell capture.index : Action Nat) m = .ok cell m') :
    ∃ l', l.Captured f [capture] m l' m' ∧ l'.Refers f capture cell := by
  have running : ∀ {g}, frame m = .ok g m → g = f := by
    intro g here
    unfold frame at here
    rw [frames] at here
    exact (EStateM.Result.ok.inj here).1.symm
  split at result
  · next isLocal =>
    obtain ⟨g, here, result⟩ := inspect_ok inferInstance result
    obtain rfl := running here
    rcases captureSlot_cases ordered (g.base + capture.index.toNat) with
      ⟨i, place, found⟩ | ⟨openCells, ordered', made⟩
    · obtain ⟨rfl, rfl⟩ := EStateM.Result.ok.inj (found.symm.trans result)
      refine ⟨l, ⟨.refl l, covers, ordered, ⟨_, _, rfl⟩, .inl⟩, ?_⟩
      rw [Refers, if_pos isLocal]
      exact covers.entry (slotOf_eq_some.1 place)
    · obtain ⟨rfl, rfl⟩ := EStateM.Result.ok.inj (made.symm.trans result)
      refine ⟨l.enter _, ⟨grown_enter l _, covers.openCell _ _, ordered', ⟨_, _, rfl⟩, fun opened => ?_⟩, ?_⟩
      · rw [Array.getElem?_push] at opened
        split at opened
        · obtain rfl := Cell.opened.inj (Option.some.inj opened)
          exact .inr ⟨capture, List.mem_singleton.2 rfl, isLocal, rfl⟩
        · exact .inl opened
      · rw [Refers, if_pos isLocal, (grown_enter l _).label, enter, ← covers.count,
          List.getElem?_concat_length]
  · next outer =>
    obtain ⟨g, here, result⟩ := inspect_ok inferInstance result
    obtain rfl := running here
    refine ⟨l, ?_⟩
    cases found : g.closure.captured[capture.index.toNat]? with
    | none =>
      rw [found] at result
      cases result
    | some cell' =>
      rw [found] at result
      obtain ⟨rfl, rfl⟩ := EStateM.Result.ok.inj result
      refine ⟨⟨.refl l, covers, ordered, ⟨_, _, rfl⟩, .inl⟩, ?_⟩
      rw [Refers, if_neg outer]
      exact found

lemma captured_all {captures : List Capture} {found found' : Array Nat} (covers : l.Covers m)
    (ordered : m.Ordered) (frames : m.frames = f :: callers)
    (result : captureAll captures found m = .ok found' m') :
    ∃ l' cells, l.Captured f captures m l' m' ∧ found'.toList = found.toList ++ cells ∧
      List.Forall₂ (l'.Refers f) captures cells := by
  induction captures generalizing found m l with
  | nil =>
    obtain ⟨rfl, rfl⟩ := EStateM.Result.ok.inj result
    exact ⟨l, [], ⟨.refl l, covers, ordered, ⟨_, _, rfl⟩, .inl⟩, (List.append_nil _).symm, .nil⟩
  | cons capture captures ih =>
    rw [captureAll_cons] at result
    obtain ⟨cell, m₁, first, result⟩ := bind_ok result
    obtain ⟨l₁, one, refers⟩ := captured_one covers ordered frames first
    obtain ⟨openCells₁, cells₁, rfl⟩ := one.same
    obtain ⟨l₂, cells, others, whole, refer⟩ := ih one.covers one.ordered frames result
    refine ⟨l₂, cell :: cells, ⟨one.grown.trans others.grown, others.covers, others.ordered, ?_, ?_⟩, ?_,
      .cons (refers.grow others.grown) refer⟩
    · obtain ⟨openCells₂, cells₂, rfl⟩ := others.same
      exact ⟨openCells₂, cells₂, rfl⟩
    · intro i slot opened
      rcases others.opened opened with before | ⟨capture', there, known⟩
      · rcases one.opened before with before | ⟨capture', there, known⟩
        · exact .inl before
        · exact .inr ⟨capture', List.mem_cons.2 (.inl (List.mem_singleton.1 there)), known⟩
      · exact .inr ⟨capture', List.mem_cons_of_mem _ there, known⟩
    · rw [whole, Array.toList_push, List.append_assoc, List.singleton_append]

/-! ## Closures -/

/-- The closure has captured no other superclass than this one. -/
def Bears (l : Ledger) (r : ClassRef) (w : Closure) : Prop :=
  ∀ (k : Nat) cell, w.captured[k]? = some cell →
    ∃ known, l.supers[cell]? = some known ∧ ∀ r' ∈ known, r' = r

lemma Bears.grow {w : Closure} (h : l.Bears r w) (grows : l.supers <+: l'.supers) : l'.Bears r w := by
  intro k cell there
  obtain ⟨known, entry, same⟩ := h k cell there
  exact ⟨known, known_of_prefix grows entry, same⟩

variable {Γ Γ' : Context} {L : List Local} {kind : BodyKind} {x : String} {index : UInt8} {cell : Nat}

/-- At the places of the locals in scope, the hidden variable is just the one of a superclass. -/
def Places (l : Ledger) (f : Frame) (L : List Local) : Prop :=
  ∀ y slot v, findLocal? y L = some (slot, v) → ((l.label (f.base + slot)).isSome ↔ y = "super")

/-- The only superclass that a function inside captures, if it captures any. -/
def Within (l : Ledger) (f : Frame) (L : List Local) (r : ClassRef) : Prop :=
  (∀ {slot r'}, l.hidden = some (slot, r') → r' = r) ∧
    ((findLocal? "super" L).isSome ∨ l.Bears r f.closure)

lemma Within.grow (h : l.Within f L r) (grown : l.Grown l') : l'.Within f L r := by
  refine ⟨fun alive => h.1 (by rwa [grown.hidden] at alive), h.2.imp_right fun bears => bears.grow grown.supers⟩

/-- A captured variable is that of a superclass if it has the name of one. -/
lemma Refers.known (inside : Syntax.Inside Γ' kind Γ L)
    (captured : CapturedAs x Γ'.captures Γ'.around index)
    (refers : ∀ capture, Γ'.captures[index.toNat]? = some capture → l.Refers f capture cell)
    (labelled : f.closure.Labelled l.supers Γ) (places : l.Places f L) :
    ∃ known, l.supers[cell]? = some known ∧ (known.isSome ↔ x = "super") ∧
      ∀ r, l.Within f L r → ∀ r' ∈ known, r' = r := by
  rw [inside.around] at captured
  cases captured with
  | @here _ _ _ _ slot v entry found marked fits =>
    have own := refers _ entry
    rw [Refers, if_pos rfl, UInt8.toNat_ofNat_of_lt' fits] at own
    refine ⟨_, own, places _ _ _ found, fun r within r' there => ?_⟩
    exact within.1 (label_eq_some.1 there)
  | @further _ _ _ _ outer entry missing chain =>
    have outside := refers _ entry
    rw [Refers, if_neg Bool.false_ne_true] at outside
    obtain ⟨known, entry', named⟩ := labelled x outer cell chain outside
    refine ⟨known, entry', named, fun r within r' there => ?_⟩
    rcases within.2 with inScope | bears
    · obtain rfl := named.1 (Option.isSome_of_mem there)
      rw [missing] at inScope
      cases inScope
    · obtain ⟨known', entry'', same⟩ := bears _ _ outside
      obtain rfl := Option.some.inj (entry'.symm.trans entry'')
      exact same r' there

/-- A closure is made of a function of the running call. -/
theorem Covers.closure {captures : List Capture} {a : Unit} (covers : l.Covers m) (ordered : m.Ordered)
    (frames : m.frames = f :: callers) (pool : f.closure.prototype.chunk.constants = Γ.constants)
    (labelled : f.closure.Labelled l.supers Γ) (makes : MakesClosure Γ L (.closure index captures))
    (places : l.Places f L) (result : exec (.closure index captures) m = .ok a m') :
    ∃ l' w, l.Grown l' ∧ l'.Covers m' ∧ m'.Ordered ∧ Γ.constants[index.toNat]? = some (.prototype w.prototype) ∧
      (∃ openCells cells nextClosure, m' = { m with
        openCells, cells, nextClosure, stack := m.stack.push (.closure w) }) ∧
      (∀ {i slot : Nat}, m'.cells[i]? = some (.opened slot) → m.cells[i]? = some (.opened slot) ∨
        ∃ y place v, findLocal? y L = some (place, v) ∧ v.isCaptured = true ∧ slot = f.base + place) ∧
      ∀ r, l.Within f L r → l'.Bears r w := by
  cases makes with
  | @intro _ Γ' kind p start items inside constant compiled =>
  obtain ⟨c, entry, result⟩ := inspect_ok inferInstance result
  obtain ⟨g, here, entry⟩ := inspect_ok inferInstance entry
  obtain rfl : f = g := by
    unfold frame at here
    rw [frames] at here
    exact (EStateM.Result.ok.inj here).1
  rw [pool, constant] at entry
  obtain ⟨rfl, -⟩ := EStateM.Result.ok.inj entry
  obtain ⟨captured, m₁, all, result⟩ := bind_ok result
  obtain ⟨-, rfl⟩ := EStateM.Result.ok.inj result
  obtain ⟨l', cells, done, whole, refer⟩ := captured_all covers ordered frames all
  obtain ⟨name, params, body, stop, -, assembles, -⟩ := compiled.assembles
  have size : captured.size = Γ'.captures.size := by
    rw [← Array.length_toList, whole, List.nil_append, ← refer.length_eq, Array.length_toList]
  have refers : ∀ {k : Nat} {cell}, captured[k]? = some cell → ∀ capture, Γ'.captures[k]? = some capture →
      l'.Refers f capture cell := by
    intro k cell there capture there'
    rw [← Array.getElem?_toList] at there there'
    rw [whole, List.nil_append] at there
    obtain ⟨bound, rfl⟩ := List.getElem?_eq_some_iff.1 there
    obtain ⟨bound', rfl⟩ := List.getElem?_eq_some_iff.1 there'
    exact refer.get bound' bound
  have known : ∀ {x : String} {index : UInt8} {cell : Nat}, CapturedAs x Γ'.captures Γ'.around index →
      captured[index.toNat]? = some cell → ∃ known, l'.supers[cell]? = some known ∧
        (known.isSome ↔ x = "super") ∧ ∀ r, l'.Within f L r → ∀ r' ∈ known, r' = r :=
    fun captured_ there => Refers.known inside captured_ (refers there) (labelled.grow done.grown.supers)
      fun y slot v found => by rw [done.grown.label]; exact places y slot v found
  obtain ⟨openCells, cells', rfl⟩ := done.same
  let w : Closure := ⟨m.nextClosure, p, captured⟩
  have good : w.Good l'.supers := .inr ⟨Γ', start, items, compiled, fun x index cell captured_ there => by
    obtain ⟨label, entry, named, -⟩ := known captured_ there
    exact ⟨label, entry, named⟩⟩
  have whole : l'.Covers { m with openCells, cells := cells', nextClosure := m.nextClosure + 1 } :=
    done.covers.of_same rfl rfl rfl rfl rfl rfl rfl
  refine ⟨l', w, done.grown, whole.push good, done.ordered.of_same rfl rfl, constant, ⟨_, _, _, rfl⟩, ?_,
    ?_⟩
  · intro i slot opened
    refine (done.opened opened).imp_right ?_
    rintro ⟨capture, there, isLocal, rfl⟩
    obtain ⟨y, v, found, marked⟩ := assembles.local_lt inside there isLocal
    exact ⟨y, _, v, found, marked, rfl⟩
  · intro r within k cell there
    have bound := (Array.getElem?_eq_some_iff.1 there).1
    rw [size] at bound
    obtain ⟨x, captured_⟩ := assembles.captured k bound
    have index : (UInt8.ofNat k).toNat = k :=
      UInt8.toNat_ofNat_of_lt' (Nat.lt_of_lt_of_le bound assembles.capturesFit)
    obtain ⟨label, entry, -, same⟩ := known captured_ (index.symm ▸ there)
    exact ⟨label, entry, same r (within.grow done.grown)⟩

end Ledger

end Lox
