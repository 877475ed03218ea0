import Lox.Proofs.Machine.Capturing

/-!
# Histories of classes

The machine fills the table of a new class by copying the methods of its superclass.  The history of a run
tells instead what has happened to classes: which of them inherited from which, which closures became
methods of them, which methods those classes have that functions of the host made, and which closures were
made in calls of others.  By the history, a method is looked up
along the chain of superclasses (`History.Finds`), and a closure belongs to the class that it was made
for (`History.Belongs`).

An `Account` of a machine says that its tables agree with the chains, and that the closures that belong to
a class have captured no other superclass than that of the class.
-/

namespace Lox

/-- The class that a value is. -/
def Value.cls? : Value → Option ClassRef
  | .cls c => some c
  | _ => none

/-- The closure that a value is. -/
def Value.closure? : Value → Option Closure
  | .closure w => some w
  | _ => none

/-- What a step does to classes. -/
inductive Happening where
  /-- A class inherits the methods of another one. -/
  | inherits (c superclass : ClassRef)
  /-- A closure becomes a method of a class. -/
  | defines (c : ClassRef) (name : String) (method : Closure)
  /-- A function of the host makes classes, which have methods at once, with the numbers from `first` on. -/
  | founds (first : Nat) (tables : Array (Table Closure))
  /-- A closure that is to be no method is made in a call of another one. -/
  | nests (inner outer : Closure)

/-- What has happened, the last first. -/
abbrev History := List Happening

namespace History

/-- The class that a class has inherited from. -/
def superclass? : History → Nat → Option ClassRef
  | [], _ => none
  | .inherits c r :: older, k => if c.serial = k then some r else superclass? older k
  | .defines .. :: older, k | .founds .. :: older, k | .nests .. :: older, k => superclass? older k

/-- The closure that was last made a method of a class under a name, if not the one that it was made with. -/
def own? : History → Nat → String → Option Closure
  | [], _, _ => none
  | .defines c x w :: older, k, y => if c.serial = k ∧ x = y then some w else own? older k y
  | .founds first tables :: older, k, y =>
    if first ≤ k then tables[k - first]?.bind (·.find? y) else own? older k y
  | .inherits .. :: older, k, y | .nests .. :: older, k, y => own? older k y

/-- What is found under a name in a class: a method of its own, or else what is found in its superclass. -/
inductive Finds (h : History) (x : String) : Nat → Option Closure → Prop where
  | own {k w} (own : h.own? k x = some w) : Finds h x k (some w)
  | inherited {k r found} (others : h.own? k x = none) (superclass : h.superclass? k = some r)
      (further : Finds h x r.serial found) : Finds h x k found
  | nowhere {k} (others : h.own? k x = none) (alone : h.superclass? k = none) : Finds h x k none

/-- A closure belongs to a class: it was made a method of it, or in a call of a closure that belongs to it. -/
def Belongs : History → Closure → Nat → Prop
  | [], _, _ => False
  | .defines c _ w' :: older, w, k => (w' = w ∧ c.serial = k) ∨ Belongs older w k
  | .nests inner outer :: older, w, k => (inner = w ∧ Belongs older outer k) ∨ Belongs older w k
  | .inherits .. :: older, w, k | .founds .. :: older, w, k => Belongs older w k

/-- There is one thing that is found. -/
lemma Finds.unique {h : History} {x : String} {k : Nat} {found found' : Option Closure}
    (first : h.Finds x k found) (second : h.Finds x k found') : found = found' := by
  induction first with
  | own own =>
    cases second with
    | own own' => exact own.symm.trans own'
    | inherited others | nowhere others => exact nomatch own.symm.trans others
  | inherited others superclass _ ih =>
    cases second with
    | own own => exact nomatch own.symm.trans others
    | inherited _ superclass' further =>
      obtain rfl := Option.some.inj (superclass.symm.trans superclass')
      exact ih further
    | nowhere _ alone => exact nomatch superclass.symm.trans alone
  | nowhere others alone =>
    cases second with
    | own own => exact nomatch own.symm.trans others
    | inherited _ superclass => exact nomatch superclass.symm.trans alone
    | nowhere => rfl

end History

/-- What a class has to do with it, if any. -/
def Happening.Within (n : Nat) : Happening → Prop
  | .inherits c r => c.serial < n ∧ r.serial < n
  | .defines c _ _ => c.serial < n
  | .founds first tables => first + tables.size ≤ n
  | .nests _ _ => True

/-- The class with a number changes, or is new. -/
def Happening.Concerns (k : Nat) : Happening → Prop
  | .inherits c _ | .defines c _ _ => c.serial = k
  | .founds first _ => first ≤ k
  | .nests _ _ => False

namespace History

variable {h : History} {n k : Nat} {x : String} {found : Option Closure} {e : Happening}

/-- The history speaks only of classes with numbers below `n`. -/
def Within (h : History) (n : Nat) : Prop := ∀ e ∈ h, e.Within n

lemma Within.mono {n' : Nat} (within : h.Within n) (more : n ≤ n') : h.Within n' := by
  intro e there
  have inside := within e there
  cases e with
  | inherits c r => exact ⟨inside.1.trans_le more, inside.2.trans_le more⟩
  | defines c x w => exact inside.trans_le more
  | founds first tables => exact inside.trans more
  | nests => trivial

lemma Within.superclass (within : h.Within n) {r : ClassRef} (superclass : h.superclass? k = some r) :
    k < n ∧ r.serial < n := by
  induction h with
  | nil => cases superclass
  | cons e older ih =>
    obtain ⟨first, others⟩ := List.forall_mem_cons.1 within
    cases e with
    | inherits c r' =>
      rw [superclass?] at superclass
      split at superclass
      · next same =>
        obtain rfl := Option.some.inj superclass
        exact ⟨same ▸ first.1, first.2⟩
      · exact ih others superclass
    | defines | founds | nests => exact ih others superclass

lemma Within.own (within : h.Within n) {w : Closure} (own : h.own? k x = some w) : k < n := by
  induction h with
  | nil => cases own
  | cons e older ih =>
    obtain ⟨first, others⟩ := List.forall_mem_cons.1 within
    cases e with
    | defines c y w' =>
      rw [own?] at own
      split at own
      · next same => exact same.1 ▸ first
      · exact ih others own
    | founds start tables =>
      rw [own?] at own
      split at own
      · obtain ⟨t, there, -⟩ := Option.bind_eq_some_iff.1 own
        have bound := (Array.getElem?_eq_some_iff.1 there).1
        have inside : start + tables.size ≤ n := first
        omega
      · exact ih others own
    | inherits | nests => exact ih others own

lemma Within.belongs (within : h.Within n) {w : Closure} (belongs : h.Belongs w k) : k < n := by
  induction h generalizing w with
  | nil => exact belongs.elim
  | cons e older ih =>
    obtain ⟨first, others⟩ := List.forall_mem_cons.1 within
    cases e with
    | defines c y w' =>
      rcases belongs with ⟨-, rfl⟩ | belongs
      · exact first
      · exact ih others belongs
    | nests inner outer =>
      rcases belongs with ⟨-, belongs⟩ | belongs
      · exact ih others belongs
      · exact ih others belongs
    | inherits | founds => exact ih others belongs

/-- A class that nothing has happened to has no methods. -/
lemma Within.nothing (within : h.Within n) (above : n ≤ k) (x : String) : h.Finds x k none := by
  refine .nowhere (Option.eq_none_iff_forall_ne_some.2 fun w own => ?_)
    (Option.eq_none_iff_forall_ne_some.2 fun r superclass => ?_)
  · exact Nat.not_lt_of_le above (within.own own)
  · exact Nat.not_lt_of_le above (within.superclass superclass).1

lemma superclass?_other (other : ¬ e.Concerns k) : superclass? (e :: h) k = h.superclass? k := by
  cases e with
  | inherits c r => exact if_neg other
  | defines | founds | nests => rfl

lemma own?_other (other : ¬ e.Concerns k) : own? (e :: h) k x = h.own? k x := by
  cases e with
  | defines c y w => exact if_neg fun same => other same.1
  | founds first tables => exact if_neg other
  | inherits | nests => rfl

/-- A history has gone on, but no class with a number below `n` has changed. -/
def Since (base : History) (n : Nat) (h : History) : Prop :=
  ∃ later, h = later ++ base ∧ ∀ e ∈ later, ∀ k, e.Concerns k → n ≤ k

lemma Since.refl (base : History) (n : Nat) : base.Since n base := ⟨[], rfl, List.forall_mem_nil _⟩

lemma Since.append {base : History} {later : List Happening} (since : base.Since n h)
    (new : ∀ e ∈ later, ∀ k, e.Concerns k → n ≤ k) : base.Since n (later ++ h) := by
  obtain ⟨later', rfl, others⟩ := since
  exact ⟨later ++ later', (List.append_assoc _ _ _).symm, List.forall_mem_append.2 ⟨new, others⟩⟩

lemma Since.cons {base : History} (since : base.Since n h) (new : ∀ k, e.Concerns k → n ≤ k) :
    base.Since n (e :: h) :=
  Since.append since (List.forall_mem_singleton.2 new)

lemma Since.trans {base older : History} {n' : Nat} (second : older.Since n' h) (first : base.Since n older)
    (more : n ≤ n') : base.Since n h := by
  obtain ⟨later, rfl, others⟩ := second
  exact first.append fun e there k concerns => more.trans (others e there k concerns)

/-- What is known of such a class is as it was. -/
lemma Since.same {base : History} (since : base.Since n h) (below : k < n) :
    h.superclass? k = base.superclass? k ∧ ∀ x, h.own? k x = base.own? k x := by
  obtain ⟨later, rfl, others⟩ := since
  induction later with
  | nil => exact ⟨rfl, fun _ => rfl⟩
  | cons e later ih =>
    obtain ⟨first, rest⟩ := List.forall_mem_cons.1 others
    have other : ¬ e.Concerns k := fun concerns => Nat.not_lt_of_le (first k concerns) below
    obtain ⟨superclass, own⟩ := ih rest
    exact ⟨(superclass?_other other).trans superclass, fun x => (own?_other other).trans (own x)⟩

/-- Something that happens to a class that no other one inherits from. -/
lemma Finds.after (finds : h.Finds x k found) (other : ¬ e.Concerns k)
    (last : ∀ {k r}, h.superclass? k = some r → ¬ e.Concerns r.serial) : Finds (e :: h) x k found := by
  induction finds with
  | own own => exact .own ((own?_other other).trans own)
  | inherited others superclass _ ih =>
    exact .inherited ((own?_other other).trans others) ((superclass?_other other).trans superclass)
      (ih (last superclass))
  | nowhere others alone => exact .nowhere ((own?_other other).trans others) ((superclass?_other other).trans alone)

end History

/-- The classes with methods that are new in a machine. -/
def Machine.founded? (m m' : Machine) : Option Happening :=
  let tables := m'.methods.extract m.methods.size
  if tables.all (·.isEmpty) then none else some (.founds m.methods.size tables)

/-- What an instruction does to classes that leads from a machine to another one. -/
def Instr.happening? (f : Frame) (m m' : Machine) : Instr → Option Happening
  | .inherit => do return .inherits (← (← m.top? 0).cls?) (← (← m.top? 1).cls?)
  | .method index => do
    return .defines (← (← m.top? 1).cls?) (f.closure.prototype.chunk.constantText index) (← (← m.top? 0).closure?)
  | .closure index captures =>
    let next := f.ip + (Instr.closure index captures).size
    if (f.closure.prototype.chunk.instrAt? next).map Instr.opcode = some .method then none
    else do return .nests (← (← m'.top? 0).closure?) f.closure
  | _ => m.founded? m'

/-- What a step does to classes that leads from a machine to another one. -/
def Machine.happening? (m m' : Machine) : Option Happening := do
  let f ← m.frames.head?
  (← f.closure.prototype.chunk.instrAt? f.ip).happening? f m m'

namespace Machine

variable {m m' : Machine}

/-- No new class has methods. -/
lemma founded?_none (empty : ∀ k t, m.methods.size ≤ k → m'.methods[k]? = some t → t = .empty) :
    m.founded? m' = none := by
  refine if_pos (Array.all_eq_true'.2 fun t there => ?_)
  obtain ⟨i, place⟩ := Array.getElem?_of_mem there
  rw [Array.getElem?_extract] at place
  split at place
  · rw [empty _ t (Nat.le_add_right _ _) place]
    exact Std.TreeMap.isEmpty_emptyc
  · cases place

lemma founded?_same (methods : m'.methods = m.methods) : m.founded? m' = none :=
  founded?_none fun _ _ above there =>
    absurd (methods ▸ (Array.getElem?_eq_some_iff.1 there).1) (Nat.not_lt_of_le above)

lemma founded?_push (methods : m'.methods = m.methods.push .empty) : m.founded? m' = none :=
  founded?_none fun k t above there => by
    rw [methods, Array.getElem?_push] at there
    split at there
    · exact (Option.some.inj there).symm
    · exact absurd (Array.getElem?_eq_some_iff.1 there).1 (Nat.not_lt_of_le above)

/-- It concerns new classes only. -/
lemma founded?_concerns {e : Happening} (there : e ∈ (m.founded? m').toList) {k : Nat} (concerns : e.Concerns k) :
    m.methods.size ≤ k := by
  obtain founds := Option.mem_toList.1 there
  dsimp only [founded?] at founds
  split at founds
  · cases founds
  · obtain rfl := Option.some.inj founds
    exact concerns

/-- What there is in new classes, or else none has methods. -/
lemma founded?_cases (m m' : Machine) :
    (m.founded? m' = none ∧ ∀ {k t}, m.methods.size ≤ k → m'.methods[k]? = some t → ∀ x, t.find? x = none) ∨
      ∃ tables, m.founded? m' = some (.founds m.methods.size tables) ∧
        ∀ k, m.methods.size ≤ k → tables[k - m.methods.size]? = m'.methods[k]? := by
  have there (k) (above : m.methods.size ≤ k) :
      (m'.methods.extract m.methods.size)[k - m.methods.size]? = m'.methods[k]? := by
    rw [Array.getElem?_extract]
    split
    · rw [Nat.add_sub_cancel' above]
    · exact (Array.getElem?_eq_none (by omega)).symm
  by_cases empty : (m'.methods.extract m.methods.size).all (·.isEmpty)
  · refine .inl ⟨if_pos empty, fun {k t} above known x => ?_⟩
    exact Std.TreeMap.getElem?_of_isEmpty
      (Array.all_eq_true'.1 empty t (Array.mem_of_getElem? ((there k above).trans known)))
  · exact .inr ⟨_, if_neg empty, there⟩

end Machine

/-! ## Accounts -/

namespace Ledger

variable {l l' : Ledger} {h : History} {m m' : Machine} {c r : ClassRef} {w : Closure} {x : String}

/-- What the tables of a machine have to do with its history. -/
structure Account (l : Ledger) (h : History) (m : Machine) : Prop where
  covers : l.Covers m
  current : l.methods = m.methods
  within : h.Within m.methods.size
  finds : ∀ {k : Nat} {t}, m.methods[k]? = some t → ∀ x, h.Finds x k (t.find? x)
  belongs : ∀ {w k r}, h.Belongs w k → h.superclass? k = some r → l.Bears r w

/-- The tables as they are now. -/
def now (l : Ledger) (m : Machine) : Ledger := { l with methods := m.methods }

lemma Covers.now (covers : l.Covers m) : (l.now m).Covers m := { covers with tables := .refl _ }

/-- The methods of classes change. -/
lemma Covers.setMethods (covers : l.Covers m) (methods : Array (Table Closure))
    (good : ∀ t ∈ methods, ∀ x w, t.find? x = some w → w.Good l.supers) :
    (l.now { m with methods }).Covers { m with methods } :=
  { covers with methods := good, tables := .refl _ }

namespace Account

/-- Classes remain as they are, but there may be new ones. -/
lemma carry (account : l.Account h m) (grown : l.Grown l') (covers : l'.Covers m') :
    (l'.now m').Account ((m.founded? m').toList ++ h) m' ∧
      ∀ i < m.methods.size, m'.methods[i]? = m.methods[i]? := by
  have tables := covers.tables
  rw [grown.methods, account.current] at tables
  have bears : ∀ {w k r}, h.Belongs w k → h.superclass? k = some r → l'.Bears r w :=
    fun belongs superclass => (account.belongs belongs superclass).grow grown.supers
  have within := account.within.mono tables.size
  refine ⟨?_, tables.same⟩
  rcases Machine.founded?_cases m m' with ⟨none, empty⟩ | ⟨new, founds, known⟩
  · rw [none]
    refine ⟨covers.now, rfl, within, fun {k t} there x => ?_, bears⟩
    rcases Nat.lt_or_ge k m.methods.size with old | above
    · exact account.finds ((tables.same k old).symm.trans there) x
    · rw [empty above there]
      exact account.within.nothing above x
  · rw [founds]
    refine ⟨covers.now, rfl, List.forall_mem_cons.2 ⟨?_, within⟩, fun {k t} there x => ?_, bears⟩
    · have beyond := known m'.methods.size tables.size
      rw [Array.getElem?_eq_none (Nat.le_refl _), Array.getElem?_eq_none_iff] at beyond
      exact Nat.add_le_of_le_sub' tables.size beyond
    · rcases Nat.lt_or_ge k m.methods.size with old | above
      · exact (account.finds ((tables.same k old).symm.trans there) x).after (Nat.not_le_of_lt old)
          fun superclass => Nat.not_le_of_lt (account.within.superclass superclass).2
      · have own : History.own? (.founds m.methods.size new :: h) k x = t.find? x := by
          rw [History.own?, if_pos above, known k above, there, Option.bind_some]
        have alone : h.superclass? k = none := Option.eq_none_iff_forall_ne_some.2 fun r superclass =>
          Nat.not_lt_of_le above (account.within.superclass superclass).1
        cases found : t.find? x with
        | none => exact .nowhere (own.trans found) alone
        | some w => exact .own (own.trans found)

/-- No class has new methods. -/
lemma carry_nothing (account : l.Account h m) (grown : l.Grown l') (covers : l'.Covers m')
    (nothing : m.founded? m' = none) :
    (l'.now m').Account h m' ∧ ∀ i < m.methods.size, m'.methods[i]? = m.methods[i]? := by
  have carried := account.carry grown covers
  rwa [nothing] at carried

/-- A closure is made in a call of another one. -/
lemma nests (account : l.Account h m) {inner outer : Closure}
    (bears : ∀ {k r}, h.Belongs outer k → h.superclass? k = some r → l.Bears r inner) :
    l.Account (.nests inner outer :: h) m where
  covers := account.covers
  current := account.current
  within := List.forall_mem_cons.2 ⟨trivial, account.within⟩
  finds there x := (account.finds there x).after id fun _ => id
  belongs {w k r} belongs superclass := by
    rcases belongs with ⟨rfl, belongs⟩ | belongs
    · exact bears belongs superclass
    · exact account.belongs belongs superclass

/-- The last class inherits from another one. -/
lemma inherits (account : l.Account h m) (fresh : h.Within c.serial) (last : c.serial + 1 = m.methods.size)
    (empty : m.methods[c.serial]? = some .empty) (below : r.serial < c.serial) {t : Table Closure}
    (methods : m.methods[r.serial]? = some t) :
    (l.now { m with methods := m.methods.modify c.serial (·.addAll t) }).Account (.inherits c r :: h)
      { m with methods := m.methods.modify c.serial (·.addAll t) } := by
  have covers := account.covers.setMethods (m.methods.modify c.serial (·.addAll t))
    fun u there x w found => by
      rcases Machine.mem_modify there with old | ⟨u, old, rfl⟩
      · exact account.covers.methods u old x w found
      · rw [Table.find?_addAll] at found
        cases inherited : t.find? x with
        | none =>
          rw [inherited, Option.none_or] at found
          exact account.covers.methods u old x w found
        | some w' =>
          rw [inherited, Option.some_or] at found
          obtain rfl := Option.some.inj found
          exact account.covers.methods t (Array.mem_of_getElem? methods) x w' inherited
  refine ⟨covers, rfl, ?_, fun {k u} there x => ?_, fun {w k r'} belongs superclass => ?_⟩
  · rw [Array.size_modify]
    exact List.forall_mem_cons.2 ⟨⟨by omega, by omega⟩, account.within⟩
  · rw [Array.getElem?_modify] at there
    have others : ∀ {k found}, k ≠ c.serial → h.Finds x k found → History.Finds (.inherits c r :: h) x k found := by
      intro k found other finds
      refine finds.after (Ne.symm other) fun {j r'} superclass same => ?_
      exact Nat.lt_irrefl _ (same ▸ (fresh.superclass superclass).2)
    split at there
    · next same =>
      subst same
      rw [empty] at there
      obtain rfl := Option.some.inj there
      rw [Table.find?_addAll, Table.find?_empty, Option.or_none]
      refine .inherited (Option.eq_none_iff_forall_ne_some.2 fun w own => ?_) (if_pos rfl)
        (others (Nat.ne_of_lt below) (account.finds methods x))
      exact Nat.lt_irrefl _ (fresh.own own)
    · next other => exact others (Ne.symm other) (account.finds there x)
  · have older : h.Belongs w k := belongs
    have other : c.serial ≠ k := fun same => Nat.lt_irrefl _ (same ▸ fresh.belongs older)
    exact account.belongs older ((if_neg other).symm.trans superclass)

/-- A closure becomes a method of a class that no other one inherits from. -/
lemma defines (account : l.Account h m) (bound : c.serial < m.methods.size)
    (last : ∀ {k r}, h.superclass? k = some r → r.serial ≠ c.serial) (good : w.Good l.supers)
    (bears : ∀ {r}, h.superclass? c.serial = some r → l.Bears r w) :
    (l.now { m with methods := m.methods.modify c.serial (·.insert x w) }).Account (.defines c x w :: h)
      { m with methods := m.methods.modify c.serial (·.insert x w) } := by
  have covers := account.covers.setMethods (m.methods.modify c.serial (·.insert x w))
    fun u there y w' found => by
      rcases Machine.mem_modify there with old | ⟨u, old, rfl⟩
      · exact account.covers.methods u old y w' found
      · rw [Table.find?_insert] at found
        split at found
        · rw [← Option.some.inj found]
          exact good
        · exact account.covers.methods u old y w' found
  refine ⟨covers, rfl, ?_, fun {k u} there y => ?_, fun {w' k r} belongs superclass => ?_⟩
  · rw [Array.size_modify]
    exact List.forall_mem_cons.2 ⟨bound, account.within⟩
  · rw [Array.getElem?_modify] at there
    have others : ∀ {k found}, k ≠ c.serial → h.Finds y k found → History.Finds (.defines c x w :: h) y k found :=
      fun other finds => finds.after (Ne.symm other) fun superclass => Ne.symm (last superclass)
    split at there
    · next same =>
      subst same
      obtain ⟨u, old, rfl⟩ := Option.map_eq_some_iff.1 there
      rw [Table.find?_insert]
      split
      · next same =>
        exact .own (if_pos ⟨rfl, same⟩)
      · next other =>
        have own : History.own? (.defines c x w :: h) c.serial y = h.own? c.serial y := if_neg fun same => other same.2
        have finds := account.finds old y
        generalize u.find? y = found at finds
        cases finds with
        | own found => exact .own (own.trans found)
        | inherited none superclass further =>
          exact .inherited (own.trans none) superclass (others (last superclass) further)
        | nowhere none alone => exact .nowhere (own.trans none) alone
    · next other => exact others (Ne.symm other) (account.finds there y)
  · rcases belongs with ⟨rfl, rfl⟩ | belongs
    · exact bears superclass
    · exact account.belongs belongs superclass

end Account

end Ledger

end Lox
