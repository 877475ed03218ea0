import Lox.Proofs.Compile.Rows
import Lox.Proofs.Machine.Passages

/-!
# The declaration of a class

From the instruction that makes a class to the one after its last, no other call runs, nothing but the
table of the class changes among the tables, and what happens to classes is just what the code says
(`Site.declares`): perhaps the class inherits, and then it gets its methods in their order.  If the
run stops before, the class has no methods.
-/

namespace Lox

open Compile Machine Syntax

/-! ## Hidden variables -/

namespace Ledger.Covers

variable {l : Ledger} {m : Machine} {slot : Nat} {r : ClassRef}

/-- A superclass on the stack becomes a hidden variable. -/
lemma hide (h : l.Covers m) (none : l.hidden = none) (there : m.stack[slot]? = some (.cls r))
    (above : ∀ {i place : Nat}, m.cells[i]? = some (.opened place) → place < slot) :
    { l with hidden := some (slot, r) }.Covers m := by
  refine { h with
    opened := fun {i place} opened r' => ?_
    hidden := fun {place r'} alive => ?_ }
  · refine iff_of_false (fun known => nowhere none ((h.opened opened r').1 known)) fun same => ?_
    obtain ⟨rfl, -⟩ := Prod.mk.inj (Option.some.inj same)
    exact Nat.lt_irrefl _ (above opened)
  · obtain ⟨rfl, rfl⟩ := Prod.mk.inj (Option.some.inj alive)
    exact there

/-- The hidden variable is given up when no cell is open for it. -/
lemma unhide (h : l.Covers m)
    (closed : ∀ {i slot : Nat} {r}, l.hidden = some (slot, r) → m.cells[i]? ≠ some (.opened slot)) :
    { l with hidden := none }.Covers m := by
  refine { h with
    opened := fun {i place} opened r => ?_
    hidden := fun alive => nomatch alive }
  refine iff_of_false (fun known => ?_) nofun
  exact closed ((h.opened opened r).1 known) opened

/-- What a variable has as its value is good. -/
lemma reads (h : l.Covers m) {f : Frame} {place : Access} {v : Value} (reads : Reads f m place v) :
    v.Good l.supers := by
  cases place with
  | slot slot => exact h.stack v (Array.mem_of_getElem? reads)
  | globalName index =>
    obtain ⟨object, -, found⟩ := reads
    exact h.globals _ v found
  | captured index =>
    obtain ⟨cell, -, value⟩ := reads
    cases content : m.cells[cell]? with
    | none =>
      rw [valueOf?, content] at value
      cases value
    | some c =>
      cases c with
      | opened slot =>
        rw [valueOf?_opened content] at value
        exact h.stack v (Array.mem_of_getElem? value)
      | closed w =>
        rw [valueOf?_closed content] at value
        obtain rfl := Option.some.inj value
        exact h.cells _ (Array.mem_of_getElem? content)

end Ledger.Covers

/-! ## Between the instructions -/

/-- The tables that there were are as they were. -/
def Kept (old : Array (Table Closure)) (m : Machine) : Prop := ∀ i < old.size, m.methods[i]? = old[i]?

/-- Where a method of a superclass is looked up, the superclass on top of the stack is that of each class
that the running closure belongs to. -/
def SuperFound (h : History) (m : Machine) : Prop :=
  ∀ {f : Frame} {callers : List Frame} {i : Instr}, m.frames = f :: callers →
    f.closure.prototype.chunk.instrAt? f.ip = some i → i.opcode = .getSuper ∨ i.opcode = .superInvoke →
      ∃ r, m.top? 0 = some (.cls r) ∧ ∀ {k r'}, h.Belongs f.closure k → h.superclass? k = some r' → r' = r

/-- A machine in the middle of a piece of code. -/
structure Midway (old : Array (Table Closure)) (base h : History) (m : Machine) : Prop where
  account : ∃ l : Ledger, l.Account h m
  kept : Kept old m
  since : base.Since old.size h
  superFound : SuperFound h m

lemma superFound_of_other {h : History} {m : Machine} {f : Frame} {callers : List Frame} {i : Instr}
    (frames : m.frames = f :: callers) (decoded : f.closure.prototype.chunk.instrAt? f.ip = some i)
    (other : i.opcode ≠ .getSuper ∧ i.opcode ≠ .superInvoke) : SuperFound h m := by
  intro g callers' j frames' decoded' looks
  obtain ⟨rfl, -⟩ := List.cons.inj (frames.symm.trans frames')
  obtain rfl := Option.some.inj (decoded.symm.trans decoded')
  exact (looks.elim other.1 other.2).elim

namespace Compile

/-- What happens when the code of a method is executed for a class. -/
def MethodCode.Defines (f : Frame) (c : ClassRef) (code : MethodCode) (e : Happening) : Prop :=
  ∃ w : Closure, f.closure.prototype.chunk.constants[code.function.toNat]? = some (.prototype w.prototype) ∧
    e = .defines c (f.closure.prototype.chunk.constantText code.name) w

end Compile

/-! ## Methods -/

section Methods

variable {l₀ : Ledger} {m₀ : Machine} {f : Frame} {callers : List Frame} {Γ : Context} {L : List Local}
  {c : ClassRef} {hidden : Option (Nat × ClassRef)} {base : History} {I Q F : History → Machine → Prop}

/-- A class gets its methods: some of them it has, as the history says from some point on. -/
structure Gets (l₀ : Ledger) (m₀ : Machine) (f : Frame) (L : List Local) (c : ClassRef)
    (hidden : Option (Nat × ClassRef)) (base : History) (own : List Happening) (stack : Array Value)
    (P : Ledger → Prop) (h : History) (m : Machine) : Prop where
  ledger : ∃ l : Ledger, l.Account h m ∧ l.hidden = hidden ∧ l₀.supers <+: l.supers ∧ P l
  history : h = own.reverse ++ base
  since : base.Since m₀.methods.size h
  superclasses : ∀ k, h.superclass? k = base.superclass? k
  stack : m.stack = stack
  kept : Kept m₀.methods m
  size : m.methods.size = c.serial + 1
  ordered : m.Ordered
  opened : ∀ {i slot : Nat}, m.cells[i]? = some (.opened slot) → slot < m₀.stack.size ∨
    ∃ y place v, findLocal? y L = some (place, v) ∧ v.isCaptured = true ∧ slot = f.base + place

variable {own : List Happening} {stack : Array Value} {P P' : Ledger → Prop} {h : History} {m : Machine}

lemma Gets.timeless (gets : Gets l₀ m₀ f L c hidden base own stack P h m) (frames : List Frame)
    (journal : Array Event) (now : Float) :
    Gets l₀ m₀ f L c hidden base own stack P h { m with frames, journal, now } := by
  obtain ⟨⟨l, account, rest⟩, history, since, superclasses, stack, kept, size, ordered, opened⟩ := gets
  refine ⟨⟨l, ?_, rest⟩, history, since, superclasses, stack, kept, size, ordered.of_same rfl rfl, opened⟩
  exact { account with covers := account.covers.of_same rfl rfl rfl rfl rfl rfl rfl }

lemma Gets.midway (gets : Gets l₀ m₀ f L c hidden base own stack P h m) (superFound : SuperFound h m) :
    Midway m₀.methods base h m := by
  obtain ⟨l, account, -⟩ := gets.ledger
  exact ⟨⟨l, account⟩, gets.kept, gets.since, superFound⟩

/-- Where the methods of a class are made. -/
structure Body (l₀ : Ledger) (m₀ : Machine) (f : Frame) (Γ : Context) (L : List Local) (c : ClassRef)
    (hidden : Option (Nat × ClassRef)) (base : History) : Prop where
  pool : f.closure.prototype.chunk.constants = Γ.constants
  labelled : f.closure.Labelled l₀.supers Γ
  new : m₀.methods.size = c.serial
  places : ∀ {l : Ledger}, l.hidden = hidden → l.Places f L
  within : ∀ {l : Ledger} {slot r}, l.hidden = hidden → hidden = some (slot, r) → l.Within f L r
  known : ∀ {r}, base.superclass? c.serial = some r → ∃ slot, hidden = some (slot, r)
  last : ∀ {k r}, base.superclass? k = some r → r.serial ≠ c.serial

/-- The closure has captured no other superclass than that of the class. -/
def Bearing (c : ClassRef) (base : History) (w : Closure) (l : Ledger) : Prop :=
  w.Good l.supers ∧ ∀ {r}, base.superclass? c.serial = some r → l.Bears r w

/-- A closure is made for a method. -/
lemma Gets.closure {S : Array Value} {code : MethodCode} {m' : Machine} {g : Frame} {a : Unit}
    (gets : Gets l₀ m₀ f L c hidden base own S P h m) (body : Body l₀ m₀ f Γ L c hidden base)
    (same : g.closure = f.closure ∧ g.base = f.base) (frames : m.frames = g :: callers)
    (makes : MakesMethod Γ L code) (result : exec (.closure code.function code.captures) m = .ok a m') :
    m'.frames = m.frames ∧ ∃ w : Closure,
      f.closure.prototype.chunk.constants[code.function.toNat]? = some (.prototype w.prototype) ∧
      Gets l₀ m₀ f L c hidden base own (S.push (.closure w)) (Bearing c base w) h m' := by
  obtain ⟨⟨l, account, alive, grows, -⟩, history, since, superclasses, stack, kept, size, ordered, opened⟩ := gets
  obtain ⟨closure, base_⟩ := same
  have labelled := body.labelled.grow grows
  rw [← closure] at labelled
  have places : l.Places g L := by
    unfold Ledger.Places
    rw [base_]
    exact body.places alive
  obtain ⟨l', w, grown, covers, ordered', constant, ⟨openCells, cells, nextClosure, rfl⟩, opened', bears⟩ :=
    account.covers.closure ordered frames (closure ▸ body.pool) labelled makes.makes places result
  refine ⟨rfl, w, by rw [body.pool, constant],
    ⟨_, (account.carry_nothing grown covers (founded?_same rfl)).1, ?_, grows.trans grown.supers, ?_, ?_⟩,
    history, since, superclasses, by rw [← stack], kept, size, ordered', fun {i slot} there => ?_⟩
  · exact grown.hidden.trans alive
  · exact covers.stack (.closure w) (Array.mem_push_self ..)
  · intro r inherited
    obtain ⟨slot, place⟩ := body.known inherited
    have within := body.within alive place
    refine bears r ⟨within.1, within.2.imp_right fun bears => ?_⟩
    unfold Ledger.Bears at bears ⊢
    rwa [closure]
  · rcases opened' there with old | ⟨y, place, v, found, marked, rfl⟩
    · exact opened old
    · exact .inr ⟨y, place, v, found, marked, by rw [base_]⟩

/-- The closure becomes a method. -/
lemma Gets.method {S : Array Value} {w : Closure} {code : MethodCode} {m' : Machine} {g : Frame} {a : Unit}
    (gets : Gets l₀ m₀ f L c hidden base own ((S.push (.cls c)).push (.closure w)) (Bearing c base w) h m)
    (body : Body l₀ m₀ f Γ L c hidden base) (closure : g.closure = f.closure) (frames : m.frames = g :: callers)
    (unhidden : ∀ {slot r}, hidden = some (slot, r) → slot < S.size)
    (result : exec (.method code.name) m = .ok a m') :
    m'.frames = m.frames ∧
      Gets l₀ m₀ f L c hidden base
        (own ++ [.defines c (f.closure.prototype.chunk.constantText code.name) w]) (S.push (.cls c)) (fun _ => True)
        (.defines c (f.closure.prototype.chunk.constantText code.name) w :: h) m' := by
  obtain ⟨⟨l, account, alive, grows, good, bears⟩, history, since, superclasses, stack, kept, size, ordered,
    opened⟩ := gets
  have done := exec_method_ok frames stack result
  rw [closure] at done
  subst done
  have defined := account.defines (c := c) (w := w)
    (x := f.closure.prototype.chunk.constantText code.name) (by rw [size]; exact Nat.lt_succ_self _)
    (fun inherited => body.last ((superclasses _).symm.trans inherited)) good
    fun inherited => bears ((superclasses _).symm.trans inherited)
  have covers := defined.covers.setStack (S.push (.cls c)) (fun v there => by
    refine account.covers.stack v ?_
    rw [stack]
    exact Array.mem_push_of_mem _ there) fun {slot r} alive' => by
      have place := account.covers.hidden alive'
      have lower := unhidden (alive.symm.trans alive')
      rw [stack, Array.getElem?_push, if_neg (by rw [Array.size_push]; omega)] at place
      exact place
  refine ⟨rfl, ⟨_, { defined with covers }, alive, grows, trivial⟩, ?_, since.cons fun k concerns => ?_,
    superclasses, rfl, fun i below => ?_, ?_,
    ordered.of_same rfl rfl, opened⟩
  · rw [history, List.reverse_append]
    rfl
  · rw [body.new]
    exact Nat.le_of_eq concerns
  · have below_ : i < c.serial := body.new ▸ below
    rw [Array.getElem?_modify, if_neg (Nat.ne_of_gt below_)]
    exact kept i below
  · rw [Array.size_modify, size]

/-- The class gets all its methods, and the instructions that are left are gone through. -/
lemma Gets.methods {S : Array Value} {o : Nat} {is : List Instr} {codes : List MethodCode}
    (body : Body l₀ m₀ f Γ L c hidden base) (makes : ∀ code ∈ codes, MakesMethod Γ L code)
    (unhidden : ∀ {slot r}, hidden = some (slot, r) → slot < S.size)
    (there : f.closure.prototype.CodeAt o (codes.flatMap MethodCode.instrs ++ is))
    (others : ∀ {own' h m}, List.Forall₂ (MethodCode.Defines f c) codes own' →
      Gets l₀ m₀ f L c hidden base (own ++ own') (S.push (.cls c)) (fun _ => True) h m →
      m.frames = { f with ip := o + codeSize (codes.flatMap MethodCode.instrs) } :: callers →
      Through f callers (Midway m₀.methods base) Q F is (o + codeSize (codes.flatMap MethodCode.instrs)) h m)
    (gets : Gets l₀ m₀ f L c hidden base own (S.push (.cls c)) (fun _ => True) h m)
    (frames : m.frames = { f with ip := o } :: callers) :
    Through f callers (Midway m₀.methods base) Q F (codes.flatMap MethodCode.instrs ++ is) o h m := by
  induction codes generalizing own o h m with
  | nil =>
    rw [← List.append_nil own] at gets
    exact others .nil gets frames
  | cons code codes ih =>
    obtain ⟨first, further⟩ := List.forall_mem_cons.1 makes
    have next := there.tail.head
    refine Through.cons there.head (A := Gets l₀ m₀ f L c hidden base own (S.push (.cls c)) fun _ => True)
      (B := fun h m => ∃ w : Closure,
        f.closure.prototype.chunk.constants[code.function.toNat]? = some (.prototype w.prototype) ∧
        Gets l₀ m₀ f L c hidden base own ((S.push (.cls c)).push (.closure w)) (Bearing c base w) h m)
      (fun frames journal now gets => gets.timeless frames journal now)
      (fun gets frames => gets.midway (superFound_of_other frames there.head (by simp [Instr.opcode])))
      (fun {h m m'} gets frames result => ?_)
      (fun _ _ result sound => (exec_goesOn (by rw [exec]; infer_instance) (by simp) result sound).elim)
      (fun {h m} between frames => ?_) gets frames
    · obtain ⟨frames', w, constant, gets'⟩ := gets.closure body (by exact ⟨rfl, rfl⟩) frames first result
      refine ⟨frames', w, constant, ?_⟩
      have nothing : (Instr.closure code.function code.captures).happening? { f with ip := o } m m' = none := by
        refine if_pos ?_
        dsimp only
        rw [next]
        rfl
      rw [nothing]
      exact gets'
    · obtain ⟨w, constant, gets⟩ := between
      refine Through.cons next
        (A := Gets l₀ m₀ f L c hidden base own ((S.push (.cls c)).push (.closure w)) (Bearing c base w))
        (B := Gets l₀ m₀ f L c hidden base
          (own ++ [.defines c (f.closure.prototype.chunk.constantText code.name) w]) (S.push (.cls c)) fun _ => True)
        (fun frames journal now gets => gets.timeless frames journal now)
        (fun gets frames => gets.midway (superFound_of_other frames next (by simp [Instr.opcode])))
        (fun {h m m'} gets frames result => ?_)
        (fun _ _ result sound => (exec_goesOn (by rw [exec]; infer_instance) (by simp) result sound).elim)
        (fun {h m} gets frames => ?_) gets frames
      · obtain ⟨frames', gets'⟩ := gets.method body (by rfl) frames unhidden result
        refine ⟨frames', ?_⟩
        rw [method_happens gets.stack]
        exact gets'
      · have size : ∀ n, o + (Instr.closure code.function code.captures).size + (Instr.method code.name).size + n =
            o + ((Instr.closure code.function code.captures).size + ((Instr.method code.name).size + n)) := by
          intro n
          omega
        refine ih further there.tail.tail (fun {own' h m} defines gets frames => ?_) gets frames
        rw [size] at frames ⊢
        refine others (.cons ⟨w, constant, rfl⟩ defines) ?_ frames
        rwa [List.append_assoc] at gets

/-! ## The end of a class -/

/-- The class has its methods, and no hidden variable is left. -/
structure Complete (l₀ : Ledger) (m₀ : Machine) (c : ClassRef) (base : History) (own : List Happening) (h : History)
    (m : Machine) : Prop where
  ledger : ∃ l : Ledger, l.hidden = none ∧ l.Account h m ∧ l₀.supers <+: l.supers
  history : h = own.reverse ++ base
  kept : Kept m₀.methods m
  size : m.methods.size = c.serial + 1

lemma Gets.complete {S : Array Value} (gets : Gets l₀ m₀ f L c none base own S P h m) :
    Complete l₀ m₀ c base own h m := by
  obtain ⟨l, account, alive, grows, -⟩ := gets.ledger
  exact ⟨⟨l, alive, account, grows⟩, gets.history, gets.kept, gets.size⟩

/-- The class is pushed. -/
lemma Gets.pushClass {S : Array Value} (gets : Gets l₀ m₀ f L c hidden base own S P h m) :
    Gets l₀ m₀ f L c hidden base own (S.push (.cls c)) P h { m with stack := m.stack.push (.cls c) } := by
  obtain ⟨⟨l, account, alive, grows, holds⟩, history, since, superclasses, stack, kept, size, ordered, opened⟩ := gets
  have covers := account.covers.push (v := .cls c) trivial
  exact ⟨⟨l, { account with covers }, alive, grows, holds⟩, history, since, superclasses, by rw [stack], kept, size,
    ordered.of_same rfl rfl, opened⟩

/-- A value above the hidden variable is popped. -/
lemma Gets.pop {S : Array Value} {v : Value} {m' : Machine} {a : Unit}
    (gets : Gets l₀ m₀ f L c hidden base own (S.push v) P h m)
    (unhidden : ∀ {slot r}, hidden = some (slot, r) → slot < S.size) (result : exec .pop m = .ok a m') :
    m'.frames = m.frames ∧ m'.methods = m.methods ∧ Gets l₀ m₀ f L c hidden base own S P h m' := by
  obtain ⟨⟨l, account, alive, grows, holds⟩, history, since, superclasses, stack, kept, size, ordered, opened⟩ := gets
  obtain rfl := exec_pop_ok stack result
  have covers := account.covers.setStack S (fun v there => by
    refine account.covers.stack v ?_
    rw [stack]
    exact Array.mem_push_of_mem _ there) fun {slot r} alive' => by
      have place := account.covers.hidden alive'
      rw [stack, Array.getElem?_push, if_neg (Nat.ne_of_lt (unhidden (alive.symm.trans alive')))] at place
      exact place
  exact ⟨rfl, rfl, ⟨l, { account with covers }, alive, grows, holds⟩, history, since, superclasses, rfl, kept, size,
    ordered.of_same rfl rfl, opened⟩

/-- The superclass leaves the stack when nothing has captured it. -/
lemma Gets.drop {S : Array Value} {r : ClassRef} {m' : Machine} {a : Unit}
    (gets : Gets l₀ m₀ f L c (some (S.size, r)) base own (S.push (.cls r)) P h m)
    (uncaptured : ∀ {i : Nat}, m.cells[i]? ≠ some (.opened S.size)) (result : exec .pop m = .ok a m') :
    m'.frames = m.frames ∧ m'.methods = m.methods ∧ Complete l₀ m₀ c base own h m' := by
  obtain ⟨⟨l, account, alive, grows, -⟩, history, -, -, stack, kept, size, -, -⟩ := gets
  obtain rfl := exec_pop_ok stack result
  have unhidden := account.covers.unhide fun {i slot r'} alive' => by
    obtain ⟨rfl, -⟩ := Prod.mk.inj (Option.some.inj (alive.symm.trans alive'))
    exact uncaptured
  have covers := unhidden.setStack S (fun v there => by
    refine unhidden.stack v ?_
    rw [stack]
    exact Array.mem_push_of_mem _ there) fun {slot r} alive' => nomatch alive'
  exact ⟨rfl, rfl, ⟨_, rfl, { account with covers }, grows⟩, history, kept, size⟩

/-- The superclass leaves the stack for the closures that have captured it. -/
lemma Gets.close {S : Array Value} {r : ClassRef} {m' : Machine} {a : Unit}
    (gets : Gets l₀ m₀ f L c (some (S.size, r)) base own (S.push (.cls r)) P h m)
    (result : exec .closeUpvalue m = .ok a m') :
    m'.frames = m.frames ∧ m'.methods = m.methods ∧ Complete l₀ m₀ c base own h m' := by
  obtain ⟨⟨l, account, alive, grows, -⟩, history, -, -, stack, kept, size, ordered, -⟩ := gets
  obtain ⟨closing, openCells, parts, rfl⟩ := exec_closeUpvalue_ok stack result
  let closed : Machine := { m with openCells, cells := closeAll closing m.cells }
  obtain ⟨-, below⟩ : closed.Ordered ∧ ∀ i slot, closed.slotOf i = some slot → slot < S.size :=
    close_ordered ordered rfl parts rfl
  have unhidden := (account.covers.close parts).unhide fun {i slot r'} alive' opened => by
    obtain ⟨rfl, -⟩ := Prod.mk.inj (Option.some.inj (alive.symm.trans alive'))
    exact Nat.lt_irrefl _ (below i _ (slotOf_eq_some.2 opened))
  have covers := unhidden.setStack S (fun v there => by
    refine account.covers.stack v ?_
    rw [stack]
    exact Array.mem_push_of_mem _ there) fun {slot r} alive' => nomatch alive'
  exact ⟨rfl, rfl, ⟨_, rfl, { account with covers }, grows⟩, history, kept, size⟩

/-- The superclass leaves the stack, in the way that suits its hidden variable. -/
lemma Gets.leaves {S : Array Value} {r : ClassRef} {w : Local} {isCaptured : Bool} {m' : Machine} {a : Unit}
    (gets : Gets l₀ m₀ f (w :: L) c (some (S.size, r)) base own (S.push (.cls r)) P h m)
    (size : S.size = f.base + L.length) (above : m₀.stack.size ≤ S.size) (marked : w.isCaptured = isCaptured)
    (result : exec (if isCaptured then .closeUpvalue else .pop) m = .ok a m') :
    m'.frames = m.frames ∧ m'.methods = m.methods ∧ Complete l₀ m₀ c base own h m' := by
  cases isCaptured with
  | true => exact gets.close result
  | false =>
    refine gets.drop (fun {i} opened => ?_) result
    rcases gets.opened opened with old | ⟨y, place, v, found, captured, same⟩
    · exact Nat.not_lt_of_le above old
    · obtain rfl : place = L.length := by omega
      rw [findLocal?] at found
      split at found
      · obtain ⟨-, rfl⟩ := Prod.mk.inj (Option.some.inj found)
        exact Bool.false_ne_true (marked.symm.trans captured)
      · exact Nat.lt_irrefl _ (findLocal?_lt found)

/-- The end of a class with a superclass. -/
lemma Gets.ends {S : Array Value} {r : ClassRef} {w : Local} {isCaptured : Bool} {o : Nat}
    (size : S.size = f.base + L.length) (above : m₀.stack.size ≤ S.size) (marked : w.isCaptured = isCaptured)
    (there : f.closure.prototype.CodeAt o [.pop, if isCaptured then .closeUpvalue else .pop])
    (done : ∀ {h m}, Complete l₀ m₀ c base own h m → m.frames = { f with ip := o + 2 } :: callers → Q h m)
    (gets : Gets l₀ m₀ f (w :: L) c (some (S.size, r)) base own ((S.push (.cls r)).push (.cls c)) (fun _ => True) h m)
    (frames : m.frames = { f with ip := o } :: callers) :
    Through f callers (Midway m₀.methods base) Q F [.pop, if isCaptured then .closeUpvalue else .pop] o h m := by
  have last := there.tail.head
  refine Through.cons_quiet there.head rfl
    (A := Gets l₀ m₀ f (w :: L) c (some (S.size, r)) base own ((S.push (.cls r)).push (.cls c)) fun _ => True)
    (B := Gets l₀ m₀ f (w :: L) c (some (S.size, r)) base own (S.push (.cls r)) fun _ => True)
    (fun frames journal now gets => gets.timeless frames journal now)
    (fun gets frames => gets.midway (superFound_of_other frames there.head (by simp [Instr.opcode])))
    (fun {h m m'} gets frames result => ?_)
    (fun _ _ result sound => (exec_goesOn (by rw [exec]; infer_instance) (by simp) result sound).elim)
    (fun {h m} gets frames => ?_) gets frames
  · obtain ⟨frames', methods, gets'⟩ := gets.pop (fun same => by
      obtain ⟨rfl, -⟩ := Prod.mk.inj (Option.some.inj same)
      rw [Array.size_push]
      exact Nat.lt_succ_self _) result
    exact ⟨frames', founded?_same methods, gets'⟩
  · refine Through.cons_quiet last (by cases isCaptured <;> exact rfl)
      (A := Gets l₀ m₀ f (w :: L) c (some (S.size, r)) base own (S.push (.cls r)) fun _ => True)
      (B := Complete l₀ m₀ c base own)
      (fun frames journal now gets => gets.timeless frames journal now)
      (fun gets frames => gets.midway (superFound_of_other frames last ?_))
      (fun {h m m'} gets frames result => ?_) (fun _ _ result sound => ?_)
      (fun {h m} complete frames => done complete ?_) gets frames
    · cases isCaptured <;> simp [Instr.opcode]
    · obtain ⟨frames', methods, complete⟩ := gets.leaves size above marked result
      exact ⟨frames', founded?_same methods, complete⟩
    · refine (exec_goesOn ?_ ?_ result sound).elim <;> cases isCaptured
      · show Sure (exec .pop)
        rw [exec]
        infer_instance
      · show Sure (exec .closeUpvalue)
        rw [exec]
        infer_instance
      · simp
      · simp
    · rw [frames]
      cases isCaptured <;> rfl

end Methods

/-! ## The start of a class -/

/-- A call comes to the declaration of a class, where the locals `L` are on the stack. -/
structure Site (l : Ledger) (h : History) (m : Machine) (f : Frame) (Γ : Context) (L : List Local) : Prop where
  account : l.Account h m
  unhidden : l.hidden = none
  pool : f.closure.prototype.chunk.constants = Γ.constants
  labelled : f.closure.Labelled l.supers Γ
  height : m.stack.size = f.base + L.length
  alive : ∀ {i slot : Nat}, m.cells[i]? = some (.opened slot) → slot < m.stack.size
  ordered : m.Ordered
  classes : ∀ {place r}, Reads f m place (.cls r) → r.serial < m.methods.size

/-- Nothing has changed but the stack, the globals and the tables of methods. -/
structure Stands (m₀ : Machine) (stack : Array Value) (globals : Table Value) (methods : Array (Table Closure))
    (m : Machine) : Prop where
  stack : m.stack = stack
  globals : m.globals = globals
  methods : m.methods = methods
  fields : m.fields = m₀.fields
  cells : m.cells = m₀.cells
  openCells : m.openCells = m₀.openCells
  natives : m.natives = m₀.natives
  hostCalls : m.hostCalls = m₀.hostCalls

namespace Stands

variable {l : Ledger} {h : History} {m₀ m : Machine} {f : Frame} {Γ : Context} {L : List Local} {S S' : Array Value}
  {G G' : Table Value} {M M' : Array (Table Closure)}

lemma timeless (stands : Stands m₀ S G M m) (frames : List Frame) (journal : Array Event) (now : Float) :
    Stands m₀ S G M { m with frames, journal, now } :=
  ⟨stands.stack, stands.globals, stands.methods, stands.fields, stands.cells, stands.openCells, stands.natives,
    stands.hostCalls⟩

lemma setStack (stands : Stands m₀ S G M m) (stack : Array Value) : Stands m₀ stack G M { m with stack } :=
  ⟨rfl, stands.globals, stands.methods, stands.fields, stands.cells, stands.openCells, stands.natives,
    stands.hostCalls⟩

lemma account (stands : Stands m₀ S G M m) (site : Site l h m₀ f Γ L) (tables : l.Covers { m₀ with methods := M })
    (nothing : m₀.founded? m = none) (goodS : ∀ v ∈ S, v.Good l.supers)
    (goodG : ∀ x v, G.find? x = some v → v.Good l.supers) :
    (l.now m).Account h m ∧ Kept m₀.methods m := by
  have covers : l.Covers { m₀ with stack := S, globals := G, methods := M } :=
    { tables with stack := goodS, globals := goodG, hidden := fun alive => Ledger.nowhere site.unhidden alive }
  exact site.account.carry_nothing (.refl l) (covers.of_same stands.stack stands.globals stands.fields stands.methods
    stands.cells stands.natives stands.hostCalls) nothing

end Stands

section Declaration

variable {l₀ : Ledger} {h₀ : History} {m₀ : Machine} {f : Frame} {callers : List Frame} {Γ : Context}
  {L L' : List Local} {d : ClassCode} {o : Nat} {x : String} {top : Bool} {Q F : History → Machine → Prop}

/-- The class that a machine makes next. -/
def Compile.ClassCode.made (d : ClassCode) (f : Frame) (m : Machine) : ClassRef :=
  ⟨m.methods.size, f.closure.prototype.chunk.constantText d.name⟩

/-- The class is in its place: on the stack or among the globals. -/
structure Placed (l₀ : Ledger) (m₀ : Machine) (f : Frame) (Γ : Context) (L L' : List Local) (x : String) (top : Bool)
    (c : ClassRef) (S : Array Value) (G : Table Value) : Prop where
  size : S.size = f.base + L'.length
  above : m₀.stack.size ≤ S.size
  goodS : ∀ v ∈ S, v.Good l₀.supers
  goodG : ∀ x v, G.find? x = some v → v.Good l₀.supers
  own : ∀ {place : Access} {m : Machine}, OwnPlace Γ L x top place → (∀ i < S.size, m.stack[i]? = S[i]?) →
    m.globals = G → Reads f m place (.cls c)
  other : ∀ {place : Access} {m : Machine} {v}, OtherPlace Γ L x place → m.stack = S → m.globals = G →
    m.cells = m₀.cells → Reads f m place v → Reads f m₀ place v

/-- How the class gets to its place, from the top of the stack. -/
inductive Places (m : Machine) (f : Frame) (c : ClassRef) : List Instr → Array Value → Table Value → Prop where
  | slot : Places m f c [] (m.stack.push (.cls c)) m.globals
  | global (index : UInt8) : Places m f c [.defineGlobal index] m.stack
      (m.globals.insert (f.closure.prototype.chunk.constantText index) (.cls c))

/-- Captured variables are found where they were. -/
lemma valueOf?_grow {m m' : Machine} {cell : Nat} {v : Value} (cells : m'.cells = m.cells)
    (alive : ∀ {i slot : Nat}, m.cells[i]? = some (.opened slot) → slot < m.stack.size)
    (same : ∀ slot < m.stack.size, m'.stack[slot]? = m.stack[slot]?) (value : m'.valueOf? cell = some v) :
    m.valueOf? cell = some v := by
  cases content : m.cells[cell]? with
  | none =>
    rw [valueOf?, cells, content] at value
    cases value
  | some entry =>
    cases entry with
    | opened slot =>
      rw [valueOf?_opened (cells ▸ content), same slot (alive content)] at value
      rw [valueOf?_opened content, value]
    | closed w =>
      rw [valueOf?_closed (cells ▸ content)] at value
      rw [valueOf?_closed content, value]

lemma Site.placed (site : Site l₀ h₀ m₀ f Γ L) {define : List Instr} (binds : Binds Γ L x top define L')
    (c : ClassRef) : ∃ S G, Places m₀ f c define S G ∧ Placed l₀ m₀ f Γ L L' x top c S G := by
  have named : ∀ {index : UInt8} {y : String}, Γ.IsName index y →
      ∃ object : StringObject, f.closure.prototype.chunk.constants[index.toNat]? = some (.string object) ∧
        object.content = y ∧ f.closure.prototype.chunk.constantText index = y := by
    rintro index y ⟨object, there, rfl⟩
    rw [← site.pool] at there
    refine ⟨object, there, rfl, ?_⟩
    rw [Chunk.constantText, there]
    rfl
  have height := site.height
  cases binds with
  | @global index constant =>
    obtain ⟨-, -, -, text⟩ := named constant
    refine ⟨_, _, .global index, height, Nat.le_refl _, site.account.covers.stack, fun y v found => ?_,
      fun {place m} own _ globals => ?_, fun {place m v} other stack globals cells reads => ?_⟩
    · rw [Table.find?_insert] at found
      split at found
      · rw [← Option.some.inj found]
        trivial
      · exact site.account.covers.globals y v found
    · cases own with
      | global constant' =>
        obtain ⟨object, there, content, -⟩ := named constant'
        refine ⟨object, there, ?_⟩
        rw [globals, Table.find?_insert, if_pos (text.trans content.symm)]
    · cases other with
      | slot =>
        show m₀.stack[_]? = _
        rw [← stack]
        exact reads
      | captured =>
        obtain ⟨cell, there, value⟩ := reads
        exact ⟨cell, there, valueOf?_grow cells site.alive (fun slot _ => by rw [stack]) value⟩
      | global constant' other =>
        obtain ⟨object, there, found⟩ := reads
        obtain ⟨object', there', content, -⟩ := named constant'
        obtain rfl := Constant.string.inj (Option.some.inj (there.symm.trans there'))
        refine ⟨object, there, ?_⟩
        rw [globals, Table.find?_insert, if_neg (by rw [text, content]; exact other.symm)] at found
        exact found
  | @slot v _ fits =>
    refine ⟨_, _, .slot, ?_, ?_, fun v there => ?_, site.account.covers.globals, fun {place m} own stack _ => ?_,
      fun {place m v} other stack globals cells reads => ?_⟩
    · rw [Array.size_push, height, List.length_cons, Nat.add_assoc]
    · rw [Array.size_push]
      exact Nat.le_succ _
    · rcases Array.mem_push.1 there with old | rfl
      · exact site.account.covers.stack v old
      · trivial
    · cases own with
      | slot =>
        show m.stack[_]? = _
        rw [UInt8.toNat_ofNat_of_lt' fits, ← height, stack _ (by rw [Array.size_push]; exact Nat.lt_succ_self _),
          Array.getElem?_push_size]
    · have same : ∀ slot < m₀.stack.size, m.stack[slot]? = m₀.stack[slot]? := by
        intro slot below
        rw [stack, Array.getElem?_push, if_neg (Nat.ne_of_lt below)]
      cases other with
      | slot below =>
        show m₀.stack[_]? = _
        rw [← same _ (by omega)]
        exact reads
      | captured =>
        obtain ⟨cell, there, value⟩ := reads
        exact ⟨cell, there, valueOf?_grow cells site.alive same value⟩
      | global =>
        obtain ⟨object, there, found⟩ := reads
        exact ⟨object, there, globals ▸ found⟩

/-- What happens to classes before the class gets its methods. -/
def Compile.ClassCode.Inherits (d : ClassCode) (c : ClassRef) (inherited : List Happening) : Prop :=
  d.superclass? = none ∧ inherited = [] ∨ d.superclass?.isSome ∧ ∃ r, inherited = [.inherits c r]

/-- The declaration has been gone through. -/
structure Declared (l₀ : Ledger) (h₀ : History) (m₀ : Machine) (f : Frame) (callers : List Frame) (d : ClassCode)
    (o : Nat) (h : History) (m : Machine) : Prop where
  frames : m.frames = { f with ip := o } :: callers
  complete : ∃ own inherited, Complete l₀ m₀ (d.made f m₀) (inherited ++ h₀) own h m ∧
    List.Forall₂ (MethodCode.Defines f (d.made f m₀)) d.methods own ∧ d.Inherits (d.made f m₀) inherited

/-- The run has stopped before the class had any methods. -/
structure Abandoned (h₀ : History) (m₀ : Machine) (c : ClassRef) (h : History) (m : Machine) : Prop where
  history : h = h₀
  account : ∃ l : Ledger, l.hidden = none ∧ l.Account h m
  kept : Kept m₀.methods m
  empty : m.methods[c.serial]? = some .empty

/-- The class has been made, and nothing has happened to it. -/
structure Begun (l₀ : Ledger) (h₀ : History) (m₀ : Machine) (S : Array Value) (G : Table Value) (h : History)
    (m : Machine) : Prop where
  history : h = h₀
  stands : Stands m₀ S G (m₀.methods.push .empty) m
  goodS : ∀ v ∈ S, v.Good l₀.supers
  goodG : ∀ x v, G.find? x = some v → v.Good l₀.supers

variable {S : Array Value} {G : Table Value} {h : History} {m : Machine} {i : Instr} {is : List Instr} {v : Value}
  {place : Access}

lemma Begun.timeless (begun : Begun l₀ h₀ m₀ S G h m) (frames : List Frame) (journal : Array Event) (now : Float) :
    Begun l₀ h₀ m₀ S G h { m with frames, journal, now } :=
  ⟨begun.history, begun.stands.timeless frames journal now, begun.goodS, begun.goodG⟩

lemma Begun.setStack {stack : Array Value} (begun : Begun l₀ h₀ m₀ S G h m) (good : ∀ v ∈ stack, v.Good l₀.supers) :
    Begun l₀ h₀ m₀ stack G h { m with stack } :=
  ⟨begun.history, begun.stands.setStack stack, good, begun.goodG⟩

lemma Begun.push (begun : Begun l₀ h₀ m₀ S G h m) (good : v.Good l₀.supers) :
    Begun l₀ h₀ m₀ (S.push v) G h { m with stack := S.push v } := by
  refine begun.setStack fun w there => ?_
  rcases Array.mem_push.1 there with old | rfl
  · exact begun.goodS w old
  · exact good

lemma Begun.account (begun : Begun l₀ h₀ m₀ S G h m) (site : Site l₀ h₀ m₀ f Γ L) :
    (l₀.now m).Account h m ∧ Kept m₀.methods m := by
  rw [begun.history]
  exact begun.stands.account site site.account.covers.newClass (founded?_push begun.stands.methods) begun.goodS
    begun.goodG

lemma Begun.midway (begun : Begun l₀ h₀ m₀ S G h m) (site : Site l₀ h₀ m₀ f Γ L) (superFound : SuperFound h m) :
    Midway m₀.methods h₀ h m :=
  ⟨⟨_, (begun.account site).1⟩, (begun.account site).2, begun.history ▸ .refl h₀ _, superFound⟩

lemma Begun.abandoned (begun : Begun l₀ h₀ m₀ S G h m) (site : Site l₀ h₀ m₀ f Γ L) :
    Abandoned h₀ m₀ (d.made f m₀) h m := by
  refine ⟨begun.history, ⟨l₀.now m, site.unhidden, (begun.account site).1⟩, (begun.account site).2, ?_⟩
  rw [begun.stands.methods]
  exact Array.getElem?_push_size

/-- The class is made. -/
lemma Site.makes (site : Site l₀ h₀ m₀ f Γ L)
    (decoded : f.closure.prototype.chunk.instrAt? o = some (.makeClass d.name))
    (others : ∀ {h m}, Begun l₀ h₀ m₀ (m₀.stack.push (.cls (d.made f m₀))) m₀.globals h m →
      m.frames = { f with ip := o + 2 } :: callers → Through f callers (Midway m₀.methods h₀) Q F is (o + 2) h m)
    (frames : m₀.frames = { f with ip := o } :: callers) :
    Through f callers (Midway m₀.methods h₀) Q F (.makeClass d.name :: is) o h₀ m₀ := by
  refine Through.cons_quiet decoded rfl (A := fun h m => h = h₀ ∧ Stands m₀ m₀.stack m₀.globals m₀.methods m)
    (B := Begun l₀ h₀ m₀ (m₀.stack.push (.cls (d.made f m₀))) m₀.globals)
    (fun frames journal now ⟨same, stands⟩ => ⟨same, stands.timeless frames journal now⟩)
    (fun {h m} ⟨same, stands⟩ frames => ?_) (fun {h m m'} ⟨same, stands⟩ frames result => ?_)
    (fun _ _ result sound => (exec_goesOn (by rw [exec]; infer_instance) (by simp) result sound).elim)
    others ⟨rfl, rfl, rfl, rfl, rfl, rfl, rfl, rfl, rfl⟩ frames
  · have account := stands.account site site.account.covers (founded?_same stands.methods)
      site.account.covers.stack site.account.covers.globals
    rw [same]
    exact ⟨⟨_, account.1⟩, account.2, .refl h₀ _, superFound_of_other frames decoded (by simp [Instr.opcode])⟩
  · obtain rfl := exec_makeClass_ok frames result
    have made : (⟨m.methods.size, f.closure.prototype.chunk.constantText d.name⟩ : ClassRef) = d.made f m₀ := by
      rw [stands.methods]
      rfl
    refine ⟨rfl, founded?_push rfl, same, ⟨?_, stands.globals, ?_, stands.fields, stands.cells,
      stands.openCells, stands.natives,
      stands.hostCalls⟩, fun v there => ?_, site.account.covers.globals⟩
    · rw [← made, ← stands.stack]
    · rw [← stands.methods]
    · rcases Array.mem_push.1 there with old | rfl
      · exact site.account.covers.stack v old
      · trivial

/-- The class is put in its place. -/
lemma Site.defines (site : Site l₀ h₀ m₀ f Γ L) {define : List Instr} {c : ClassRef} (places : Places m₀ f c define S G)
    (placed : Placed l₀ m₀ f Γ L L' x top c S G) (there : f.closure.prototype.CodeAt o (define ++ is))
    (others : ∀ {h m}, Begun l₀ h₀ m₀ S G h m → m.frames = { f with ip := o + codeSize define } :: callers →
      Through f callers (Midway m₀.methods h₀) Q F is (o + codeSize define) h m)
    (begun : Begun l₀ h₀ m₀ (m₀.stack.push (.cls c)) m₀.globals h m)
    (frames : m.frames = { f with ip := o } :: callers) :
    Through f callers (Midway m₀.methods h₀) Q F (define ++ is) o h m := by
  cases places with
  | slot => exact others begun frames
  | global index =>
    refine Through.cons_quiet there.head rfl (A := Begun l₀ h₀ m₀ (m₀.stack.push (.cls c)) m₀.globals)
      (fun frames journal now begun => begun.timeless frames journal now)
      (fun begun frames => begun.midway site (superFound_of_other frames there.head (by simp [Instr.opcode])))
      (fun {h m m'} begun frames result => ?_)
      (fun _ _ result sound => (exec_goesOn (by rw [exec]; infer_instance) (by simp) result sound).elim)
      others begun frames
    obtain rfl := exec_defineGlobal_ok frames begun.stands.stack result
    have stands := begun.stands
    refine ⟨rfl, founded?_same rfl, begun.history,
      ⟨rfl, ?_, stands.methods, stands.fields, stands.cells, stands.openCells,
      stands.natives, stands.hostCalls⟩, placed.goodS, placed.goodG⟩
    rw [← stands.globals]

/-- The class gets its methods from here on. -/
lemma Begun.gets {c : ClassRef} (begun : Begun l₀ h₀ m₀ S G h m) (site : Site l₀ h₀ m₀ f Γ L)
    (new : c.serial = m₀.methods.size) :
    Gets l₀ m₀ f L' c none h₀ [] S (fun _ => True) h m := by
  have stands := begun.stands
  refine ⟨⟨l₀.now m, (begun.account site).1, site.unhidden, List.prefix_refl _, trivial⟩, begun.history,
    begun.history ▸ .refl h₀ _, ?_,
    stands.stack, (begun.account site).2, ?_, site.ordered.of_same stands.cells stands.openCells,
    fun opened => .inl (site.alive (stands.cells ▸ opened))⟩
  · rw [begun.history]
    exact fun _ => rfl
  · rw [stands.methods, Array.size_push, new]

/-- The class inherits from a class that there was before. -/
lemma Begun.inherits {c r : ClassRef} {t : Table Closure}
    (begun : Begun l₀ h₀ m₀ ((S.push (.cls r)).push (.cls c)) G h m)
    (site : Site l₀ h₀ m₀ f Γ L) (new : c.serial = m₀.methods.size) (below : r.serial < m₀.methods.size)
    (above : m₀.stack.size ≤ S.size) (there : m.methods[r.serial]? = some t) :
    Gets l₀ m₀ f L' c (some (S.size, r)) (.inherits c r :: h₀) [] (S.push (.cls r)) (fun _ => True)
      (.inherits c r :: h) { m with stack := S.push (.cls r), methods := m.methods.modify c.serial (·.addAll t) } := by
  have stands := begun.stands
  obtain ⟨account, kept⟩ := begun.account site
  have fresh : h.Within c.serial := by
    rw [begun.history, new]
    exact site.account.within
  have empty : m.methods[c.serial]? = some .empty := by
    rw [stands.methods, new]
    exact Array.getElem?_push_size
  have size : c.serial + 1 = m.methods.size := by rw [stands.methods, Array.size_push, new]
  have inherited := account.inherits fresh size empty (new ▸ below) there
  have covers := (inherited.covers.setStack (S.push (.cls r))
    (fun v there => begun.goodS v (Array.mem_push_of_mem _ there))
    fun alive => Ledger.nowhere site.unhidden alive).hide site.unhidden
      Array.getElem?_push_size fun {i place} opened => (site.alive (stands.cells ▸ opened)).trans_le above
  refine ⟨⟨_, { inherited with covers }, rfl, List.prefix_refl _, trivial⟩, ?_, begun.history ▸ .refl _ _,
    fun k => ?_, rfl, fun i below => ?_, ?_,
    site.ordered.of_same stands.cells stands.openCells, fun opened => .inl (site.alive (stands.cells ▸ opened))⟩
  · rw [begun.history]
    rfl
  · rw [begun.history]
  · have other : c.serial ≠ i := by
      rw [new]
      exact Nat.ne_of_gt below
    rw [Array.getElem?_modify, if_neg other]
    exact kept i below
  · rw [Array.size_modify, size]

/-- A variable of known value is read. -/
lemma Site.fetches (site : Site l₀ h₀ m₀ f Γ L) (decoded : f.closure.prototype.chunk.instrAt? o = some place.read)
    (reads : ∀ {h m}, Begun l₀ h₀ m₀ S G h m → Reads f m place v) (good : v.Good l₀.supers)
    (others : ∀ {h m}, Begun l₀ h₀ m₀ (S.push v) G h m → m.frames = { f with ip := o + place.read.size } :: callers →
      Through f callers (Midway m₀.methods h₀) Q (Abandoned h₀ m₀ (d.made f m₀)) is (o + place.read.size) h m)
    (begun : Begun l₀ h₀ m₀ S G h m) (frames : m.frames = { f with ip := o } :: callers) :
    Through f callers (Midway m₀.methods h₀) Q (Abandoned h₀ m₀ (d.made f m₀)) (place.read :: is) o h m := by
  refine Through.cons_quiet decoded (read_happens place) (A := Begun l₀ h₀ m₀ S G)
    (fun frames journal now begun => begun.timeless frames journal now)
    (fun begun frames => begun.midway site (superFound_of_other frames decoded ?_))
    (fun {h m m'} begun frames result => ?_)
    (fun begun _ result sound => ?_) others begun frames
  · cases place <;> simp [Access.read, Instr.opcode]
  · obtain ⟨-, rfl⟩ := EStateM.Result.ok.inj (result.symm.trans (((reads begun).goto _).apply frames))
    rw [begun.stands.stack]
    exact ⟨rfl, founded?_same rfl, begun.push good⟩
  · obtain rfl := read_error result sound
    exact begun.abandoned site

/-- The superclass is read, whatever it is. -/
lemma Site.fetchesParent (site : Site l₀ h₀ m₀ f Γ L) {c : ClassRef}
    (placed : Placed l₀ m₀ f Γ L L' x top c S G)
    (decoded : f.closure.prototype.chunk.instrAt? o = some place.read) (parent : OtherPlace Γ L x place)
    (others : ∀ {h m v}, v.Good l₀.supers → Reads f m₀ place v → Begun l₀ h₀ m₀ (S.push v) G h m →
      m.frames = { f with ip := o + place.read.size } :: callers →
      Through f callers (Midway m₀.methods h₀) Q (Abandoned h₀ m₀ (d.made f m₀)) is (o + place.read.size) h m)
    (begun : Begun l₀ h₀ m₀ S G h m) (frames : m.frames = { f with ip := o } :: callers) :
    Through f callers (Midway m₀.methods h₀) Q (Abandoned h₀ m₀ (d.made f m₀)) (place.read :: is) o h m := by
  refine Through.cons_quiet decoded (read_happens place) (A := Begun l₀ h₀ m₀ S G)
    (B := fun h m => ∃ v : Value, v.Good l₀.supers ∧ Reads f m₀ place v ∧ Begun l₀ h₀ m₀ (S.push v) G h m)
    (fun frames journal now begun => begun.timeless frames journal now)
    (fun begun frames => begun.midway site (superFound_of_other frames decoded ?_))
    (fun {h m m'} begun frames result => ?_)
    (fun begun _ result sound => ?_)
    (fun {h m} ⟨v, good, reads, begun⟩ frames => others good reads begun frames) begun frames
  · cases place <;> simp [Access.read, Instr.opcode]
  · obtain ⟨v, reads, rfl⟩ := read_ok frames result
    have old := placed.other parent begun.stands.stack begun.stands.globals begun.stands.cells reads.back
    have good := site.account.covers.reads old
    rw [begun.stands.stack]
    exact ⟨rfl, founded?_same rfl, v, good, old, begun.push good⟩
  · obtain rfl := read_error result sound
    exact begun.abandoned site

/-- A class without a superclass gets its methods. -/
lemma Site.declaresAlone (site : Site l₀ h₀ m₀ f Γ L) (binds : Binds Γ L x top d.define L') (noneHidden : NoneHidden L')
    (own : OwnPlace Γ L x top d.place) (nothing : d.superclass? = none) (methods : ∀ c ∈ d.methods, MakesMethod Γ L' c)
    (there : f.closure.prototype.CodeAt o d.instrs) {e : Nat} (stop : o + codeSize d.instrs = e)
    (frames : m₀.frames = { f with ip := o } :: callers) :
    Through f callers (Midway m₀.methods h₀) (Declared l₀ h₀ m₀ f callers d e)
      (Abandoned h₀ m₀ (d.made f m₀)) d.instrs o
      h₀ m₀ := by
  have code : d.instrs = .makeClass d.name :: (d.define ++
    (d.place.read :: (d.methods.flatMap MethodCode.instrs ++ [.pop]))) := by
    rw [ClassCode.instrs, ClassCode.inheritance, ClassCode.exit, nothing]
    rfl
  have body : Body l₀ m₀ f Γ L' (d.made f m₀) none h₀ := {
    pool := site.pool
    labelled := site.labelled
    new := rfl
    places := fun alive y slot v found => by
      rw [Ledger.label_of_none alive]
      refine iff_of_false (fun some => by cases some) ?_
      rintro rfl
      exact nomatch noneHidden.missing.symm.trans found
    within := fun _ alive => nomatch alive
    known := fun inherited => absurd (site.account.within.superclass inherited).1 (Nat.lt_irrefl _)
    last := fun inherited => Nat.ne_of_lt (site.account.within.superclass inherited).2 }
  obtain ⟨S, G, places, placed⟩ := site.placed binds (d.made f m₀)
  rw [code] at there stop ⊢
  have next := there.tail.drop
  refine site.makes there.head (fun begun frames =>
    site.defines places placed there.tail (fun begun frames => ?_) begun frames) frames
  refine site.fetches next.head (fun begun =>
    placed.own own (fun i _ => by rw [begun.stands.stack]) begun.stands.globals) trivial
    (fun begun frames => ?_) begun frames
  have last := next.tail.drop
  refine Gets.methods body methods (fun alive => nomatch alive) next.tail (fun {own' h m} defines gets frames => ?_)
    (begun.gets site rfl) frames
  refine Through.cons_quiet last.head rfl
    (A := Gets l₀ m₀ f L' (d.made f m₀) none h₀ ([] ++ own') (S.push (.cls (d.made f m₀))) fun _ => True)
    (B := Complete l₀ m₀ (d.made f m₀) h₀ own')
    (fun frames journal now gets => gets.timeless frames journal now)
    (fun gets frames => gets.midway (superFound_of_other frames last.head (by simp [Instr.opcode])))
    (fun {h m m'} gets frames result => ?_)
    (fun _ _ result sound => (exec_goesOn (by rw [exec]; infer_instance) (by simp) result sound).elim)
    (fun {h m} complete frames => ?_) gets frames
  · obtain ⟨frames', methods, gets'⟩ := gets.pop (fun alive => nomatch alive) result
    exact ⟨frames', founded?_same methods, gets'.complete⟩
  · refine ⟨?_, own', [], complete, defines, .inl ⟨nothing, rfl⟩⟩
    rw [frames, ← stop]
    congr 2
    simp only [codeSize_cons, codeSize_append, codeSize_nil, Instr.size]
    omega

/-- Where the methods of a class with a superclass are made. -/
lemma Site.below (site : Site l₀ h₀ m₀ f Γ L) {w : Local} {r : ClassRef} {n : Nat} (size : n = f.base + L'.length)
    (named : w.name = "super") (below : r.serial < m₀.methods.size) :
    Body l₀ m₀ f Γ (w :: L') (d.made f m₀) (some (n, r)) (.inherits (d.made f m₀) r :: h₀) where
  pool := site.pool
  labelled := site.labelled
  new := rfl
  places {l} alive y slot v found := by
    by_cases same : w.name = y
    · rw [findLocal?, if_pos same] at found
      obtain ⟨rfl, -⟩ := Prod.mk.inj (Option.some.inj found)
      refine iff_of_true ?_ (same ▸ named)
      have label : l.label (f.base + L'.length) = some r := Ledger.label_eq_some.2 (by rw [alive, size])
      rw [label]
      rfl
    · rw [findLocal?, if_neg same] at found
      have lower := findLocal?_lt found
      refine iff_of_false (fun some => ?_) fun other => same (named.trans other.symm)
      obtain ⟨r', label⟩ := Option.isSome_iff_exists.1 some
      rw [Ledger.label_eq_some, alive] at label
      obtain ⟨place, -⟩ := Prod.mk.inj (Option.some.inj label)
      omega
  within {l slot r'} alive same := by
    refine ⟨fun {slot' r''} alive' => ?_, .inl ?_⟩
    · exact (Prod.mk.inj (Option.some.inj ((alive'.symm.trans alive).trans same))).2
    · rw [findLocal?, if_pos named]
      rfl
  known {r'} inherited := by
    obtain rfl := Option.some.inj ((if_pos rfl).symm.trans inherited)
    exact ⟨n, rfl⟩
  last {k r'} inherited := by
    rw [History.superclass?] at inherited
    split at inherited
    · obtain rfl := Option.some.inj inherited
      exact Nat.ne_of_lt below
    · exact Nat.ne_of_lt (site.account.within.superclass inherited).2

/-- A class gets the methods of its superclass, and then its own ones. -/
lemma Site.declaresBelow (site : Site l₀ h₀ m₀ f Γ L) {w : Local} {s : SuperclassCode}
    (binds : Binds Γ L x top d.define L')
    (own : OwnPlace Γ L x top d.place) (some_ : d.superclass? = some s)
    (parent : OtherPlace Γ L x s.parent) (again : OwnPlace Γ L x top s.again) (named : w.name = "super")
    (marked : w.isCaptured = s.isCaptured) (methods : ∀ c ∈ d.methods, MakesMethod Γ (w :: L') c)
    (there : f.closure.prototype.CodeAt o d.instrs) {e : Nat} (stop : o + codeSize d.instrs = e)
    (frames : m₀.frames = { f with ip := o } :: callers) :
    Through f callers (Midway m₀.methods h₀) (Declared l₀ h₀ m₀ f callers d e)
      (Abandoned h₀ m₀ (d.made f m₀)) d.instrs o
      h₀ m₀ := by
  let leaves : Instr := if s.isCaptured then .closeUpvalue else .pop
  have code : d.instrs = .makeClass d.name :: (d.define ++ (s.parent.read :: d.place.read :: .inherit :: s.again.read ::
      (d.methods.flatMap MethodCode.instrs ++ [.pop, leaves]))) := by
    rw [ClassCode.instrs, ClassCode.inheritance, ClassCode.exit, some_]
    rfl
  obtain ⟨S, G, places, placed⟩ := site.placed binds (d.made f m₀)
  rw [code] at there stop ⊢
  have next := there.tail.drop
  have inherits := next.tail.tail
  have last := inherits.tail.tail.drop
  refine site.makes there.head (fun begun frames =>
    site.defines places placed there.tail (fun begun frames => ?_) begun frames) frames
  refine site.fetchesParent placed next.head parent (fun {h m v} good reads begun frames => ?_) begun frames
  refine site.fetches next.tail.head (fun begun => placed.own own (fun i below => ?_) begun.stands.globals) trivial
    (fun begun frames => ?_) begun frames
  · rw [begun.stands.stack, Array.getElem?_push, if_neg (Nat.ne_of_lt below)]
  refine Through.cons inherits.head (A := Begun l₀ h₀ m₀ ((S.push v).push (.cls (d.made f m₀))) G)
    (B := fun h m => ∃ r : ClassRef, r.serial < m₀.methods.size ∧ m.globals = G ∧
      Gets l₀ m₀ f (w :: L') (d.made f m₀) (some (S.size, r)) (.inherits (d.made f m₀) r :: h₀) [] (S.push (.cls r))
        (fun _ => True) h m)
    (fun frames journal now begun => begun.timeless frames journal now)
    (fun begun frames => begun.midway site (superFound_of_other frames inherits.head (by simp [Instr.opcode])))
    (fun {h m m'} begun frames result => ?_) (fun begun _ result sound => ?_)
    (fun {h m} got frames => ?_) begun frames
  · obtain ⟨r, t, rfl, there, rfl⟩ := exec_inherit_ok begun.stands.stack result
    have below := site.classes reads
    rw [inherit_happens begun.stands.stack]
    exact ⟨rfl, r, below, begun.stands.globals, begun.inherits site rfl below placed.above there⟩
  · obtain rfl := exec_inherit_error result sound
    exact begun.abandoned site
  obtain ⟨r, below, globals, gets⟩ := got
  have since : h₀.Since m₀.methods.size (.inherits (d.made f m₀) r :: h₀) :=
    (History.Since.refl h₀ _).cons fun _ concerns => Nat.le_of_eq concerns
  refine Through.mono (I := Midway m₀.methods (.inherits (d.made f m₀) r :: h₀)) ?_
    (fun midway => ⟨midway.account, midway.kept, midway.since.trans since (Nat.le_refl _), midway.superFound⟩) id id
  have body := site.below (d := d) placed.size named below
  have found : ∀ {m}, m.globals = G → m.stack = S.push (.cls r) → Reads f m s.again (.cls (d.made f m₀)) := by
    intro m globals stack
    refine placed.own again (fun i below => ?_) globals
    rw [stack, Array.getElem?_push, if_neg (Nat.ne_of_lt below)]
  refine Through.cons_quiet inherits.tail.head (read_happens _)
    (A := fun h m => m.globals = G ∧ Gets l₀ m₀ f (w :: L') (d.made f m₀) (some (S.size, r))
      (.inherits (d.made f m₀) r :: h₀) [] (S.push (.cls r)) (fun _ => True) h m)
    (B := Gets l₀ m₀ f (w :: L') (d.made f m₀) (some (S.size, r)) (.inherits (d.made f m₀) r :: h₀) []
      ((S.push (.cls r)).push (.cls (d.made f m₀))) fun _ => True)
    (fun frames journal now got => ⟨got.1, got.2.timeless frames journal now⟩)
    (fun got frames => got.2.midway (superFound_of_other frames inherits.tail.head ?_))
    (fun {h m m'} got frames result => ?_) (fun {h m stop m'} got frames result _ => ?_)
    (fun {h m} gets frames => ?_) ⟨globals, gets⟩ frames
  · cases s.again <;> simp [Access.read, Instr.opcode]
  · obtain ⟨globals, gets⟩ := got
    obtain ⟨-, rfl⟩ := EStateM.Result.ok.inj (result.symm.trans (((found globals gets.stack).goto _).apply frames))
    exact ⟨rfl, founded?_same rfl, gets.pushClass⟩
  · have clash := result.symm.trans (((found got.1 got.2.stack).goto _).apply frames)
    cases clash
  refine Gets.methods body methods ?_ inherits.tail.tail (fun {own' h m} defines gets frames => ?_) gets frames
  · intro slot r' same
    obtain ⟨rfl, -⟩ := Prod.mk.inj (Option.some.inj same)
    rw [Array.size_push]
    exact Nat.lt_succ_self _
  refine Gets.ends placed.size placed.above marked last (fun {h m} complete frames => ?_) gets frames
  refine ⟨?_, own', _, complete, defines, .inr ⟨by rw [some_]; rfl, r, rfl⟩⟩
  rw [frames, ← stop]
  congr 2
  have size : codeSize [leaves] = 1 := by
    dsimp only [leaves]
    split <;> rfl
  simp only [codeSize_cons, codeSize_append, codeSize_nil, Instr.size] at size ⊢
  omega

/-- The declaration of a class is gone through. -/
theorem Site.declares (site : Site l₀ h₀ m₀ f Γ L) (declares : DeclaresClass Γ L d)
    (there : f.closure.prototype.CodeAt o d.instrs) (frames : m₀.frames = { f with ip := o } :: callers) :
    Through f callers (Midway m₀.methods h₀) (Declared l₀ h₀ m₀ f callers d (o + codeSize d.instrs))
      (Abandoned h₀ m₀ (d.made f m₀)) d.instrs o h₀ m₀ := by
  cases declares with
  | alone binds noneHidden own nothing methods =>
    exact site.declaresAlone binds noneHidden own nothing methods there rfl frames
  | below binds noneHidden own some_ parent again named marked methods =>
    exact site.declaresBelow binds own some_ parent again named marked methods there rfl frames

end Declaration

end Lox
