import Lox.Proofs.Machine.Declaring

/-!
# Classes in a run

Between two pieces of its code a call is `Frame.Between`, and a machine all of whose calls are so is
`Outside`: there is no hidden variable, and its tables are as its history tells.  From there the running
call goes through the next piece (`Outside.passes`), after which the machine is outside again.
-/

namespace Lox

open Compile Machine Syntax

/-- The call is between two pieces of its code, or else it has no code. -/
def Frame.Between (f : Frame) (supers : List (Option ClassRef)) : Prop :=
  f.closure.Bare ∨ ∃ Γ start ps, Compiled f.closure.prototype Γ start ps.flatten ∧ Laid Γ (Joint ps) 0 ps ∧
    f.closure.Labelled supers Γ ∧ Joint ps f.ip

lemma Frame.Between.grow {f : Frame} {supers supers' : List (Option ClassRef)} (between : f.Between supers)
    (grows : supers <+: supers') : f.Between supers' := by
  rcases between with bare | ⟨Γ, start, ps, compiled, laid, labelled, joint⟩
  · exact .inl bare
  · exact .inr ⟨Γ, start, ps, compiled, laid, labelled.grow grows, joint⟩

/-- A call of a good closure starts with a piece. -/
lemma Closure.Good.between {w : Closure} {supers : List (Option ClassRef)} (good : w.Good supers) (base : Nat) :
    Frame.Between ⟨w, 0, base⟩ supers := by
  rcases good with bare | ⟨Γ, start, items, compiled, labelled⟩
  · exact .inl bare
  · obtain ⟨ps, rfl, laid⟩ := compiled.pieced
    exact .inr ⟨Γ, start, ps, compiled, laid, labelled, .start ps⟩

/-- The tables of a machine at rest are as its history tells. -/
structure Settled (old : Array (Table Closure)) (base h : History) (m : Machine) : Prop where
  account : ∃ l : Ledger, l.hidden = none ∧ l.Account h m
  kept : Kept old m
  since : base.Since old.size h

/-- The tables of a running machine are as its history tells, and all calls are between two pieces of
their code. -/
structure Outside (old : Array (Table Closure)) (base h : History) (m : Machine) : Prop where
  account : ∃ l : Ledger, l.hidden = none ∧ l.Account h m ∧ ∀ f ∈ m.frames, f.Between l.supers
  kept : Kept old m
  since : base.Since old.size h

/-- The running call is going through the instructions that are left of a piece of its code. -/
def Underway (old : Array (Table Closure)) (base : History) (is : List Instr) (h : History) (m : Machine) : Prop :=
  ∃ f callers o, Through f callers (Midway old base) (Outside old base) (Settled old base) is o h m

/-- Classes are made at the start of pieces only. -/
def MakesNone (is : List Instr) : Prop := ∀ i ∈ is, i.opcode ≠ .makeClass

/-- The running call is somewhere in its code, and no class is made before the end of the piece. -/
def Followed (old : Array (Table Closure)) (base h : History) (m : Machine) : Prop :=
  ∃ is, Underway old base is h m ∧ MakesNone is

/-- After the first instruction of a class no other one is made. -/
lemma Compile.ClassCode.makesNone (d : ClassCode) : MakesNone d.instrs.tail := by
  have reads : ∀ place : Access, place.read.opcode ≠ .makeClass := by
    intro place
    cases place <;> simp [Access.read, Instr.opcode]
  intro i there
  rw [ClassCode.instrs, List.tail_cons] at there
  simp only [List.mem_append, List.mem_cons] at there
  rcases there with define | inheritance | methods | rfl | exit
  · obtain ⟨index, -, rfl⟩ := List.mem_map.1 define
    simp [Instr.opcode]
  · unfold ClassCode.inheritance at inheritance
    split at inheritance
    · obtain rfl := List.mem_singleton.1 inheritance
      exact reads _
    · simp only [List.mem_cons, List.not_mem_nil, or_false] at inheritance
      rcases inheritance with rfl | rfl | rfl | rfl
      · exact reads _
      · exact reads _
      · simp [Instr.opcode]
      · exact reads _
  · obtain ⟨c, -, there⟩ := List.mem_flatMap.1 methods
    simp only [MethodCode.instrs, List.mem_cons, List.not_mem_nil, or_false] at there
    rcases there with rfl | rfl <;> simp [Instr.opcode]
  · simp [Instr.opcode]
  · obtain ⟨s, -, rfl⟩ := List.mem_map.1 exit
    split <;> simp [Instr.opcode]

lemma Outside.followed {old : Array (Table Closure)} {base h : History} {m : Machine}
    (outside : Outside old base h m) (f : Frame) :
    Followed old base h m :=
  ⟨[], ⟨f, [], 0, outside⟩, fun _ there => by cases there⟩

/-- All that happens when a class is declared happens to that class. -/
lemma Compile.MethodCode.concerns {f : Frame} {c : ClassRef} {codes : List MethodCode} {own : List Happening}
    (defines : List.Forall₂ (MethodCode.Defines f c) codes own) {e : Happening} (there : e ∈ own) {k : Nat}
    (concerns : e.Concerns k) : c.serial = k := by
  induction defines with
  | nil => cases there
  | cons first _ ih =>
    rcases List.mem_cons.1 there with rfl | there
    · obtain ⟨w, -, rfl⟩ := first
      exact concerns
    · exact ih there

lemma Compile.ClassCode.Inherits.concerns {d : ClassCode} {c : ClassRef} {inherited : List Happening}
    (inherits : d.Inherits c inherited) {e : Happening} (there : e ∈ inherited) {k : Nat}
    (concerns : e.Concerns k) : c.serial = k := by
  rcases inherits with ⟨-, rfl⟩ | ⟨-, r, rfl⟩
  · cases there
  · rw [List.mem_singleton.1 there] at concerns
    exact concerns

lemma Kept.size {old : Array (Table Closure)} {m : Machine} (kept : Kept old m) : old.size ≤ m.methods.size := by
  refine Nat.le_of_not_lt fun less => ?_
  have there := kept m.methods.size less
  rw [Array.getElem?_eq_getElem less, Array.getElem?_eq_none (Nat.le_refl _)] at there
  cases there

lemma Kept.refl (m : Machine) : Kept m.methods m := fun _ _ => rfl

lemma Kept.trans {old : Array (Table Closure)} {m m' : Machine} (first : Kept old m) (second : Kept m.methods m') :
    Kept old m' := by
  intro i below
  have there := first i below
  rw [Array.getElem?_eq_getElem below] at there
  rw [second i (Array.getElem?_eq_some_iff.1 there).1, there, Array.getElem?_eq_getElem below]

section Timeless

variable {old : Array (Table Closure)} {base : History}

lemma Ledger.Account.timeless {l : Ledger} {h : History} {m : Machine} (account : l.Account h m) (frames : List Frame)
    (journal : Array Event) (now : Float) : l.Account h { m with frames, journal, now } :=
  { account with covers := account.covers.of_same rfl rfl rfl rfl rfl rfl rfl }

lemma midway_timeless : Timeless (Midway old base) := by
  intro h m journal now ⟨⟨l, account⟩, kept, since, superFound⟩
  exact ⟨⟨l, account.timeless m.frames journal now⟩, kept, since, superFound⟩

lemma outside_timeless : Timeless (Outside old base) := by
  intro h m journal now ⟨⟨l, unhidden, account, between⟩, kept, since⟩
  exact ⟨⟨l, unhidden, account.timeless m.frames journal now, between⟩, kept, since⟩

lemma declared_timeless {l : Ledger} {h₀ : History} {m₀ : Machine} {f : Frame} {callers : List Frame} {d : ClassCode}
    {o : Nat} : Timeless (Declared l h₀ m₀ f callers d o) := by
  intro h m journal now ⟨frames, own, inherited, ⟨⟨l', unhidden, account, grows⟩, history, kept, size⟩, defines,
    inherits⟩
  exact ⟨frames, own, inherited, ⟨⟨l', unhidden, account.timeless m.frames journal now, grows⟩, history, kept, size⟩,
    defines, inherits⟩

lemma settled_timeless : Timeless (Settled old base) := by
  intro h m journal now ⟨⟨l, unhidden, account⟩, kept, since⟩
  exact ⟨⟨l, unhidden, account.timeless m.frames journal now⟩, kept, since⟩

end Timeless

lemma Outside.settled {old : Array (Table Closure)} {base h : History} {m : Machine} (outside : Outside old base h m) :
    Settled old base h m := by
  obtain ⟨⟨l, unhidden, account, -⟩, kept, since⟩ := outside
  exact ⟨⟨l, unhidden, account⟩, kept, since⟩

/-! ## Single instructions -/

section Plain

variable {l l' : Ledger} {base h : History} {old : Array (Table Closure)} {m m' : Machine} {Γ : Context} {i : Instr}
  {f : Frame} {callers : List Frame} {o : Nat}

/-- What an instruction leaves behind is in order again. -/
lemma Ledger.Account.outside (account : l.Account h m) (unhidden : l.hidden = none) (kept : Kept old m)
    (since : base.Since old.size h) (grown : l.Grown l') (covers : l'.Covers m')
    (between : ∀ f ∈ m'.frames, f.Between l'.supers) : Outside old base ((m.founded? m').toList ++ h) m' := by
  obtain ⟨account', same⟩ := account.carry grown covers
  exact ⟨⟨l'.now m', grown.hidden.trans unhidden, account', between⟩, kept.trans same,
    since.append fun _ there _ concerns => kept.size.trans (founded?_concerns there concerns)⟩

lemma Ledger.Account.settled (account : l.Account h m) (unhidden : l.hidden = none) (kept : Kept old m)
    (since : base.Since old.size h) (covers : l.Covers m') (methods : m'.methods = m.methods) :
    Settled old base h m' := by
  obtain ⟨account', same⟩ := account.carry_nothing (.refl l) covers (founded?_same methods)
  exact ⟨⟨l.now m', unhidden, account'⟩, kept.trans same, since⟩

lemma between_of_calling {F : List Frame} (calling : Keeper.Calling (Closure.Good l.supers) l.Covers F m')
    (between : ∀ f ∈ F, f.Between l.supers) :
    l.Covers m' ∧ ∀ f ∈ m'.frames, f.Between l.supers := by
  obtain ⟨covers, same | ⟨w, base, good, called⟩⟩ := calling
  · exact ⟨covers, same ▸ between⟩
  · refine ⟨covers, ?_⟩
    rw [called]
    exact List.forall_mem_cons.2 ⟨good.between base, between⟩

/-- A harmless instruction leaves all calls between pieces. -/
lemma exec_plain (covers : l.Covers m) (unhidden : l.hidden = none) (harmless : Γ.Harmless i)
    (frames : m.frames = f :: callers) (labelled : f.closure.Labelled l.supers Γ)
    (between : ∀ f ∈ m.frames, f.Between l.supers) :
    Comes (fun _ m' => l.Covers m' ∧ ∀ f ∈ m'.frames, f.Between l.supers) l.Covers (exec i m) := by
  have stays : i.Stays → Comes (fun _ m' => l.Covers m' ∧ ∀ f ∈ m'.frames, f.Between l.supers) l.Covers (exec i m) := by
    intro stays
    refine ((l.keeper unhidden).carries_exec (harmless.passes stays) ?_ m covers rfl).mono
      fun _ m' ⟨_, covers', frames'⟩ => ⟨covers', frames' ▸ between⟩
    rintro f' callers' index cell frames' rfl there
    obtain ⟨rfl, -⟩ := List.cons.inj (frames.symm.trans frames')
    obtain ⟨x, other, captured⟩ := harmless
    obtain ⟨label, known, named⟩ := labelled x index cell captured there
    have missing : label = none :=
      Option.eq_none_iff_forall_ne_some.2 fun r same => other (named.1 (by rw [same]; rfl))
    rw [known, missing]
  cases i with
  | call count =>
    refine ((l.keeper unhidden).peek count.toNat m covers rfl).bind fun v m₁ ⟨good, covers₁, frames₁⟩ => ?_
    exact ((l.keeper unhidden).callValue good count covers₁ frames₁).mono fun _ m' calling =>
      between_of_calling calling between
  | invoke index count =>
    refine (Carries.name index m covers rfl).bind fun x m₁ ⟨_, covers₁, frames₁⟩ => ?_
    exact ((l.keeper unhidden).invoke x count covers₁ frames₁).mono fun _ m' calling =>
      between_of_calling calling between
  | ret =>
    refine ((l.keeper unhidden).ret covers rfl).mono fun _ m' ⟨covers', frames'⟩ => ⟨covers', fun f there => ?_⟩
    rw [frames'] at there
    exact between f (List.mem_of_mem_tail there)
  | superInvoke => exact harmless.elim
  | _ => exact stays trivial

lemma harmless_quiet (harmless : Γ.Harmless i) : i.happening? f m m' = m.founded? m' := by
  cases i with
  | inherit | method | closure => exact harmless.elim
  | _ => rfl

/-- A jump leads to another piece. -/
lemma exec_jump {next target : Nat} (leads : i.Leads next target)
    (frames : m.frames = { f with ip := next } :: callers) :
    Comes (fun _ m' => m' = m ∨ m' = { m with frames := { f with ip := target } :: callers }) (· = m) (exec i m) := by
  have here : frame m = .ok { f with ip := next } m := by
    unfold frame
    rw [frames]
  have goes : ∀ ip, goto ip m = .ok () { m with frames := { f with ip } :: callers } := by
    intro ip
    unfold goto
    rw [frames]
  cases i with
  | jump distance =>
    rw [exec, bind_apply, here]
    dsimp only
    rw [goes, leads]
    exact .inr rfl
  | jumpIfFalse distance =>
    rw [exec, bind_apply]
    have looks : Inspecting (peek 0) := inferInstance
    cases looked : peek 0 m with
    | error stop m₁ =>
      unfold peek at looked
      split at looked
      · cases looked
      · exact (EStateM.Result.error.inj looked).2.symm
    | ok v m₁ =>
      obtain rfl := looks.same looked
      dsimp only
      split
      · rw [bind_apply, here]
        dsimp only
        rw [goes, leads]
        exact .inr rfl
      · exact .inl rfl
  | loop distance =>
    rw [exec, bind_apply, here]
    dsimp only
    have target_ : target + distance.toNat = next := leads
    rw [if_pos (by omega), goes, show next - distance.toNat = target by omega]
    exact .inr rfl
  | _ => exact leads.elim

lemma leads_quiet {next target : Nat} (leads : i.Leads next target) : i.happening? f m m' = m.founded? m' := by
  cases i with
  | jump | jumpIfFalse | loop => rfl
  | _ => exact leads.elim

/-- A piece of one instruction. -/
lemma Through.single {I Q F : History → Machine → Prop} (decoded : f.closure.prototype.chunk.instrAt? o = some i)
    (frames : m.frames = { f with ip := o } :: callers) (holds : I h m)
    (does : ∀ {m₁ m'}, (∃ journal now, m₁ = { m with frames := { f with ip := o + i.size } :: callers, journal, now }) →
      exec i m₁ = .ok () m' → Q ((i.happening? { f with ip := o } m m').toList ++ h) m')
    (fails : ∀ {m₁ stop m'}, (∃ journal now, m₁ =
      { m with frames := { f with ip := o + i.size } :: callers, journal, now }) →
      exec i m₁ = .error stop m' → (∀ defect, stop ≠ .broken defect) → F h m') :
    Through f callers I Q F [i] o h m := by
  refine ⟨frames, decoded, holds, fun journal now => ⟨fun m' result => ?_, fun stop m' result sound => ?_⟩⟩
  · rw [happening?_eq frames decoded]
    exact does ⟨journal, now, rfl⟩ (step_ok (m := { m with journal, now }) frames decoded result)
  · exact fails ⟨journal, now, rfl⟩ (step_error (m := { m with journal, now }) frames decoded result sound) sound

end Plain

/-! ## Pieces -/

section Pieces

variable {l : Ledger} {base h : History} {old : Array (Table Closure)} {m m' : Machine} {Γ : Context} {i : Instr}
  {f : Frame} {callers : List Frame} {o k : Nat} {start : List Local} {ps before after : List (List Item)}
  {piece items : List Item} {is : List Instr} {L : List Local} {d : ClassCode} {index : UInt8}

/-- The class in a captured variable of a superclass. -/
lemma Ledger.Covers.superclass (covers : l.Covers m) (unhidden : l.hidden = none)
    (labelled : f.closure.Labelled l.supers Γ) {index : UInt8} {v : Value}
    (captured : CapturedAs "super" Γ.captures Γ.around index) (reads : Reads f m (.captured index) v) :
    ∃ r cell, v = .cls r ∧ f.closure.captured[index.toNat]? = some cell ∧ l.supers[cell]? = some (some r) := by
  obtain ⟨cell, there, value⟩ := reads
  obtain ⟨label, known, named⟩ := labelled "super" index cell captured there
  obtain ⟨r, rfl⟩ := Option.isSome_iff_exists.1 (named.2 rfl)
  refine ⟨r, cell, ?_, there, known⟩
  cases content : m.cells[cell]? with
  | none =>
    rw [valueOf?, content] at value
    cases value
  | some entry =>
    cases entry with
    | opened slot => exact Ledger.nowhere unhidden ((covers.opened content r).1 known)
    | closed w =>
      rw [valueOf?_closed content] at value
      obtain rfl := Option.some.inj value
      exact covers.closed content known

/-- A running machine comes to a piece of code. -/
structure Arrives (l : Ledger) (base h : History) (old : Array (Table Closure)) (m : Machine) (f : Frame)
    (callers : List Frame) (Γ : Context) (start : List Local) (before : List (List Item)) (piece : List Item)
    (after : List (List Item)) (i : Instr) (is : List Instr) : Prop where
  account : l.Account h m
  unhidden : l.hidden = none
  kept : Kept old m
  since : base.Since old.size h
  frames : m.frames = f :: callers
  callers : ∀ g ∈ callers, g.Between l.supers
  compiled : Compiled f.closure.prototype Γ start (before ++ piece :: after).flatten
  laid : Laid Γ (Joint (before ++ piece :: after)) 0 (before ++ piece :: after)
  labelled : f.closure.Labelled l.supers Γ
  place : itemsSize before.flatten = f.ip
  coming : Coming f.closure.prototype Γ before piece after i is
  ordered : m.Ordered
  alive : ∀ {i slot : Nat}, m.cells[i]? = some (.opened slot) → slot < m.stack.size
  classes : ∀ {place r}, Reads f m place (.cls r) → r.serial < m.methods.size
  reaches : ∃ k, Reaches f.closure.prototype f.ip k ∧ m.stack.size = f.base + k

namespace Arrives

/-- The call goes on at another joint. -/
lemma goto (arrives : Arrives l base h old m f callers Γ start before piece after i is) {target : Nat}
    (joint : Joint (before ++ piece :: after) target) {g : Frame} (there : g ∈ { f with ip := target } :: callers) :
    g.Between l.supers := by
  rcases List.mem_cons.1 there with rfl | there
  · exact .inr ⟨Γ, start, _, arrives.compiled, arrives.laid, arrives.labelled, joint⟩
  · exact arrives.callers g there

lemma midway (arrives : Arrives l base h old m f callers Γ start before piece after i is) : Midway old base h m := by
  obtain ⟨-, -, other, other'⟩ := arrives.coming.starts
  have decoded := arrives.coming.codeAt.head
  rw [arrives.place] at decoded
  exact ⟨⟨l, arrives.account⟩, arrives.kept, arrives.since, superFound_of_other arrives.frames decoded ⟨other, other'⟩⟩

/-- A piece of one instruction, after which the machine is outside again. -/
lemma single (arrives : Arrives l base h old m f callers Γ start before piece after i [])
    (does : ∀ {journal now m'}, exec i { m with frames := { f with ip := f.ip + i.size } :: callers, journal, now } =
      .ok () m' → Outside old base ((i.happening? f m m').toList ++ h) m')
    (fails : ∀ {journal now stop m'},
      exec i { m with frames := { f with ip := f.ip + i.size } :: callers, journal, now } =
      .error stop m' → (∀ defect, stop ≠ .broken defect) → Settled old base h m') : Underway old base [i] h m := by
  have decoded := arrives.coming.codeAt.head
  rw [arrives.place] at decoded
  refine ⟨f, callers, f.ip, Through.single decoded arrives.frames arrives.midway ?_ ?_⟩
  · rintro m₁ m' ⟨journal, now, rfl⟩ result
    exact does result
  · rintro m₁ stop m' ⟨journal, now, rfl⟩ result sound
    exact fails result sound

lemma past (arrives : Arrives l base h old m f callers Γ start before piece after i is) :
    Joint (before ++ piece :: after) (f.ip + codeSize (i :: is)) :=
  arrives.place ▸ arrives.coming.joint

lemma next (arrives : Arrives l base h old m f callers Γ start before piece after i []) :
    Joint (before ++ piece :: after) (f.ip + i.size) := by
  have joint := arrives.past
  rwa [codeSize_cons, codeSize_nil, Nat.add_zero] at joint

lemma plain (arrives : Arrives l base h old m f callers Γ start before piece after i []) (harmless : Γ.Harmless i) :
    Underway old base [i] h m := by
  have comes : ∀ journal now, Comes (fun _ m' => l.Covers m' ∧ ∀ f ∈ m'.frames, f.Between l.supers) l.Covers
      (exec i { m with frames := { f with ip := f.ip + i.size } :: callers, journal, now }) := fun journal now =>
    exec_plain (arrives.account.covers.of_same rfl rfl rfl rfl rfl rfl rfl) arrives.unhidden harmless rfl
      arrives.labelled fun g there => arrives.goto arrives.next there
  refine arrives.single (fun {journal now m'} result => ?_) fun {journal now stop m'} result sound => ?_
  · have done := comes journal now
    rw [result] at done
    rw [harmless_quiet harmless]
    exact arrives.account.outside arrives.unhidden arrives.kept arrives.since (.refl l) done.1 done.2
  · have done := comes journal now
    rw [result] at done
    have methods := exec_stops_methods result sound
    exact arrives.account.settled arrives.unhidden arrives.kept arrives.since done methods

lemma jump (arrives : Arrives l base h old m f callers Γ start before piece after i []) {target : Nat}
    (leads : i.Leads (f.ip + i.size) target) (joint : Joint (before ++ piece :: after) target) :
    Underway old base [i] h m := by
  have comes : ∀ journal now, Comes _ _
      (exec i { m with frames := { f with ip := f.ip + i.size } :: callers, journal, now }) :=
    fun journal now => exec_jump leads rfl
  refine arrives.single (fun {journal now m'} result => ?_) fun {journal now stop m'} result _ => ?_
  · have done := comes journal now
    rw [result] at done
    rw [leads_quiet leads]
    rcases done with rfl | rfl
    · exact arrives.account.outside arrives.unhidden arrives.kept arrives.since (.refl l)
        (arrives.account.covers.of_same rfl rfl rfl rfl rfl rfl rfl) fun g there => arrives.goto arrives.next there
    · exact arrives.account.outside arrives.unhidden arrives.kept arrives.since (.refl l)
        (arrives.account.covers.of_same rfl rfl rfl rfl rfl rfl rfl) fun g there => arrives.goto joint there
  · have done := comes journal now
    rw [result] at done
    rw [show m' = _ from done]
    exact arrives.account.settled arrives.unhidden arrives.kept arrives.since
      (arrives.account.covers.of_same rfl rfl rfl rfl rfl rfl rfl) rfl

/-- A closure that is to be no method is made. -/
lemma closure (arrives : Arrives l base h old m f callers Γ start before piece after i []) (makes : MakesClosure Γ L i)
    (noneHidden : NoneHidden L) : Underway old base [i] h m := by
  have decoded := arrives.coming.codeAt.head
  rw [arrives.place] at decoded
  obtain ⟨index, captures, rfl⟩ : ∃ index captures, i = .closure index captures := by
    cases makes with
    | @intro index Γ' => exact ⟨index, _, rfl⟩
  -- What follows is not the instruction that makes the closure a method.
  have other : (f.closure.prototype.chunk.instrAt? (f.ip + (Instr.closure index captures).size)).map Instr.opcode ≠
      some .method := by
    obtain ⟨k, reaches, -⟩ := arrives.reaches
    obtain ⟨before', piece', after', i', is', -, place, coming⟩ := arrives.compiled.next arrives.laid arrives.next
      (.step reaches decoded (List.mem_singleton.2 rfl))
    rw [← place, coming.codeAt.head]
    exact fun same => coming.starts.1 (Option.some.inj same)
  refine arrives.single (fun {journal now m'} result => ?_) fun {journal now stop m'} result sound => ?_
  · have places : l.Places f L := by
      intro y slot v found
      rw [Ledger.label_of_none arrives.unhidden]
      refine iff_of_false (fun some => by cases some) ?_
      rintro rfl
      exact nomatch noneHidden.missing.symm.trans found
    have running : l.Account h { m with
        frames := { f with ip := f.ip + (Instr.closure index captures).size } :: callers, journal, now } :=
      arrives.account.timeless _ journal now
    obtain ⟨l', w, grown, covers, ordered, -, ⟨openCells, cells, nextClosure, rfl⟩, -, bears⟩ :=
      running.covers.closure (arrives.ordered.of_same rfl rfl) rfl arrives.compiled.pool arrives.labelled makes places
        result
    have happens : ∀ {n : Machine}, n.stack = m.stack.push (.closure w) →
        (Instr.closure index captures).happening? f m n = some (.nests w f.closure) := by
      intro n stack
      refine (if_neg other).trans ?_
      rw [top?_push stack]
      rfl
    rw [happens rfl]
    obtain ⟨account, -⟩ := running.carry_nothing grown covers (founded?_same rfl)
    refine ⟨⟨l'.now _, grown.hidden.trans arrives.unhidden,
      account.nests fun belongs superclass => bears _ ⟨?_, .inr ?_⟩,
      fun g there => ?_⟩, arrives.kept, arrives.since.cons nofun⟩
    · exact fun alive => Ledger.nowhere arrives.unhidden alive
    · exact arrives.account.belongs belongs superclass
    · exact (arrives.goto arrives.next there).grow grown.supers
  · exact (exec_goesOn (by rw [exec]; infer_instance) (by simp) result sound).elim

/-- A method of the superclass is looked up: the superclass is fetched, and what follows has it on top of the
stack. -/
lemma super (arrives : Arrives l base h old m f callers Γ start before piece after (.getUpvalue index) [i])
    (captured : CapturedAs "super" Γ.captures Γ.around index)
    (looks : ∀ {m}, l.Covers m → m.frames = { f with ip := f.ip + codeSize [.getUpvalue index, i] } :: callers →
      Comes (fun _ m' => l.Covers m' ∧ ∀ f ∈ m'.frames, f.Between l.supers) l.Covers (exec i m))
    (quiet : ∀ {g m m'}, i.happening? g m m' = m.founded? m') : Underway old base [.getUpvalue index, i] h m := by
  have decoded := arrives.coming.codeAt.head
  have next := arrives.coming.codeAt.tail.head
  rw [arrives.place] at decoded next
  refine ⟨f, callers, f.ip, ?_⟩
  refine Through.cons_quiet decoded rfl (A := fun h' m' => h' = h ∧ l.Account h m' ∧ Kept old m')
    (B := fun h' m' => h' = h ∧ l.Account h m' ∧ Kept old m' ∧ ∃ r, m'.top? 0 = some (.cls r) ∧
      ∀ {k r'}, h.Belongs f.closure k → h.superclass? k = some r' → r' = r)
    (fun frames journal now ⟨same, account, kept⟩ => ⟨same, account.timeless frames journal now, kept⟩)
    (fun {h' m'} ⟨same, account, kept⟩ frames => ?_) (fun {h' m₁ m'} ⟨same, account, kept⟩ frames result => ?_)
    (fun _ _ result sound => (exec_goesOn (by rw [exec]; infer_instance) (by simp) result sound).elim)
    (fun {h' m₁} ⟨same, account, kept, r, top, found⟩ frames => ?_) ⟨rfl, arrives.account, arrives.kept⟩ arrives.frames
  · rw [same]
    exact ⟨⟨l, account⟩, kept, arrives.since, superFound_of_other frames decoded (by simp [Instr.opcode])⟩
  · have result : exec (Access.captured index).read m₁ = .ok () m' := result
    obtain ⟨v, reads, rfl⟩ := read_ok frames result
    obtain ⟨r, cell, rfl, there, known⟩ :=
      account.covers.superclass arrives.unhidden arrives.labelled captured reads.back
    refine ⟨rfl, founded?_same rfl, same, { account with covers := account.covers.push trivial }, kept, r,
      top?_push rfl, ?_⟩
    intro k r' belongs superclass
    obtain ⟨known', there', only⟩ := account.belongs belongs superclass index.toNat cell there
    obtain rfl := Option.some.inj (known.symm.trans there')
    exact (only r rfl).symm
  · have frames' : m₁.frames = { f with ip := f.ip + (Instr.getUpvalue index).size } :: callers := frames
    have next' : ∀ {journal now}, Comes (fun _ m' => l.Covers m' ∧ ∀ f ∈ m'.frames, f.Between l.supers) l.Covers
        (exec i
          { m₁ with frames := { f with ip := f.ip + codeSize [.getUpvalue index, i] } :: callers, journal, now }) :=
      looks (account.covers.of_same rfl rfl rfl rfl rfl rfl rfl) rfl
    refine Through.single next frames ⟨⟨l, same ▸ account⟩, kept, same ▸ arrives.since, ?_⟩ ?_ ?_
    · intro g callers' j frames' decoded' _
      obtain ⟨rfl, -⟩ := List.cons.inj (frames.symm.trans frames')
      exact ⟨r, top, same ▸ found⟩
    · rintro m₂ m' ⟨journal, now, rfl⟩ result
      have done := @next' journal now
      rw [codeSize_cons, codeSize_cons, codeSize_nil, Nat.add_zero, ← Nat.add_assoc] at done
      rw [result] at done
      rw [quiet]
      subst same
      exact account.outside arrives.unhidden kept arrives.since (.refl l) done.1 done.2
    · rintro m₂ stop m' ⟨journal, now, rfl⟩ result sound
      have done := @next' journal now
      rw [codeSize_cons, codeSize_cons, codeSize_nil, Nat.add_zero, ← Nat.add_assoc] at done
      rw [result] at done
      have methods := exec_stops_methods result sound
      subst same
      exact account.settled arrives.unhidden kept arrives.since done methods

lemma superGet {place : UInt8} (arrives : Arrives l base h old m f callers Γ start before piece after
    (.getUpvalue place) [.getSuper index])
    (captured : CapturedAs "super" Γ.captures Γ.around place) :
    Underway old base [.getUpvalue place, .getSuper index] h m := by
  refine arrives.super captured (fun {m₁} covers frames => ?_) rfl
  have passes : (Instr.getSuper index).Passes := trivial
  refine ((l.keeper arrives.unhidden).carries_exec passes nofun m₁ covers frames).mono
    fun _ m' ⟨_, covers', frames'⟩ => ?_
  exact ⟨covers', frames' ▸ fun g there => arrives.goto arrives.past there⟩

lemma superCall {place : UInt8} {count : UInt8}
    (arrives : Arrives l base h old m f callers Γ start before piece after (.getUpvalue place)
    [.superInvoke index count])
    (captured : CapturedAs "super" Γ.captures Γ.around place) :
    Underway old base [.getUpvalue place, .superInvoke index count] h m := by
  refine arrives.super captured (fun {m₁} covers frames => ?_) rfl
  have K := l.keeper arrives.unhidden
  refine (Carries.name index m₁ covers frames).bind fun x m₂ ⟨_, covers₂, frames₂⟩ => ?_
  refine (K.popClass m₂ covers₂ frames₂).bind fun c m₃ ⟨_, covers₃, frames₃⟩ => ?_
  exact (K.invokeFromClass c x count covers₃ frames₃).mono fun _ m' calling =>
    between_of_calling calling fun g there => arrives.goto arrives.past there

/-- The declaration of a class is gone through. -/
lemma declares (arrives : Arrives l base h old m f callers Γ start before (.boundary (namesOf L) :: items) after i is)
    (declares : DeclaresClass Γ L d) (code : instrs items = d.instrs) :
    f.closure.prototype.CodeAt f.ip d.instrs ∧
      Through f callers (Midway m.methods h)
        (fun h' m' => Declared l h m f callers d (f.ip + codeSize d.instrs) h' m' ∧ Outside m.methods h h' m')
        (Abandoned h m (d.made f m)) d.instrs f.ip h m := by
  have same : i :: is = d.instrs := by
    rw [← arrives.coming.code, ← code]
    rfl
  have there := arrives.coming.codeAt
  rw [arrives.place, same] at there
  obtain ⟨k, reaches, height⟩ := arrives.reaches
  have length : k = L.length := arrives.compiled.class_height (arrives.place ▸ reaches)
  have site : Site l h m f Γ L := ⟨arrives.account, arrives.unhidden, arrives.compiled.pool, arrives.labelled,
    by rw [height, length], arrives.alive, arrives.ordered, arrives.classes⟩
  refine ⟨there, (site.declares declares there arrives.frames).mono id (fun {h' m'} declared => ⟨declared, ?_⟩) id⟩
  obtain ⟨frames, own, inherited, complete, defines, inherits⟩ := declared
  obtain ⟨l', unhidden, account, grows⟩ := complete.ledger
  refine ⟨⟨l', unhidden, account, fun g there => ?_⟩, complete.kept, ?_⟩
  · rw [frames, ← same] at there
    exact (arrives.goto arrives.past there).grow grows
  · rw [complete.history]
    refine ((History.Since.refl h m.methods.size).append fun _ there _ concerns => ?_).append
      fun _ there _ concerns => ?_
    · exact Nat.le_of_eq (inherits.concerns there concerns)
    · exact Nat.le_of_eq (MethodCode.concerns defines (List.mem_reverse.1 there) concerns)

lemma cls (arrives : Arrives l base h old m f callers Γ start before (.boundary (namesOf L) :: items) after i is)
    (declares : DeclaresClass Γ L d) (code : instrs items = d.instrs) : Underway old base d.instrs h m := by
  refine ⟨f, callers, f.ip, (arrives.declares declares code).2.mono (fun {h' m'} midway => ?_)
    (fun {h' m'} ⟨_, outside⟩ => ?_) fun {h' m'} abandoned => ?_⟩
  · exact ⟨midway.account, arrives.kept.trans midway.kept, midway.since.trans arrives.since arrives.kept.size,
      midway.superFound⟩
  · exact ⟨outside.account, arrives.kept.trans outside.kept, outside.since.trans arrives.since arrives.kept.size⟩
  · exact ⟨abandoned.account, arrives.kept.trans abandoned.kept, abandoned.history ▸ arrives.since⟩

end Arrives

end Pieces

/-! ## From piece to piece -/

section Passing

variable {base h : History} {old : Array (Table Closure)} {m m' : Machine}

/-- What a variable refers to exists. -/
lemma Machine.Memory.reads {bare : Prop} {c : Census} {S : List Slot} (memory : Memory bare c S m) {f : Frame}
    {place : Access} {v : Value} (reads : Reads f m place v) : v.Sound bare c := by
  cases place with
  | slot => exact memory.stack.sound (Array.mem_of_getElem? reads)
  | captured =>
    obtain ⟨cell, -, value⟩ := reads
    cases content : m.cells[cell]? with
    | none =>
      rw [valueOf?, content] at value
      cases value
    | some entry =>
      cases entry with
      | opened slot =>
        rw [valueOf?_opened content] at value
        exact memory.stack.sound (Array.mem_of_getElem? value)
      | closed w =>
        rw [valueOf?_closed content] at value
        obtain rfl := Option.some.inj value
        obtain ⟨k, known⟩ := memory.cells.kind content
        exact (memory.cells.closed content known).2
  | globalName =>
    obtain ⟨object, -, found⟩ := reads
    exact memory.objects.globals _ v found

/-- There are but constants in a closure without code. -/
lemma Closure.Bare.instrAt? {w : Closure} (bare : w.Bare) (o : Nat) :
    w.prototype.chunk.instrAt? o = some (.constant 0) := by
  rw [bare.chunk]
  rfl

/-- A machine that is outside comes to a piece of code, unless the running closure has no code. -/
lemma Outside.arrives (outside : Outside old base h m) (ready : Ready True m) (ordered : m.Ordered) :
    (∃ l f callers Γ start before piece after i is, Arrives l base h old m f callers Γ start before piece after i is) ∨
      ∃ f callers, m.frames = f :: callers ∧ f.closure.Bare := by
  rcases ready with ⟨c, T, E, f, callers, below, σ, shape, active⟩ | ⟨-, c, S, f, callers, frames, bare, -⟩
  · obtain ⟨⟨l, unhidden, account, between⟩, kept, since⟩ := outside
    rw [active.frames] at between
    obtain ⟨bare | ⟨Γ, start, ps, compiled, laid, labelled, joint⟩, waiting⟩ := List.forall_mem_cons.1 between
    · exact .inr ⟨f, callers, active.frames, bare⟩
    have reaches := active.calls.fits.reaches shape
    obtain ⟨before, piece, after, i, is, rfl, place, coming⟩ := compiled.next laid joint reaches
    have height : m.stack.size = f.base + σ.height := by
      rw [← active.memory.stack.size, List.length_append, active.base, Nat.add_comm]
      rfl
    exact .inl ⟨l, f, callers, Γ, start, before, piece, after, i, is, account, unhidden, kept, since,
      active.frames, waiting,
      compiled, laid, labelled, place, coming, ordered, active.open_lt,
      fun reads => active.memory.objects.classes ▸ active.memory.reads reads, _, reaches, height⟩
  · exact .inr ⟨f, callers, frames, bare⟩

/-- A machine that is outside goes through the next piece of its code, unless the running closure has no
code. -/
theorem Outside.passes (outside : Outside old base h m) (ready : Ready True m) (ordered : m.Ordered) :
    (∃ i is, Underway old base (i :: is) h m ∧ MakesNone is) ∨ ∃ f callers, m.frames = f :: callers ∧
      f.closure.Bare := by
  rcases outside.arrives ready ordered with ⟨l, f, callers, Γ, start, before, piece, after, i, is, arrives⟩ | bare
  · refine .inl ?_
    obtain ⟨code, -, piece⟩ := arrives.coming
    cases piece with
    | boundary => cases code
    | plain harmless =>
      cases code
      exact ⟨i, [], arrives.plain harmless, List.forall_mem_nil _⟩
    | jump leads joint =>
      cases code
      rw [arrives.place] at leads
      exact ⟨i, [], arrives.jump leads joint, List.forall_mem_nil _⟩
    | closure makes noneHidden =>
      cases code
      exact ⟨i, [], arrives.closure makes noneHidden, List.forall_mem_nil _⟩
    | superGet captured =>
      cases code
      exact ⟨_, _, arrives.superGet captured, List.forall_mem_singleton.2 (by simp [Instr.opcode])⟩
    | superCall captured =>
      cases code
      exact ⟨_, _, arrives.superCall captured, List.forall_mem_singleton.2 (by simp [Instr.opcode])⟩
    | @cls _ d _ declares same => exact ⟨_, _, arrives.cls declares same, d.makesNone⟩
  · exact .inr bare

/-- What a machine that is followed goes through, unless the running closure has no code. -/
lemma Followed.next (followed : Followed old base h m) (ready : Ready True m) (ordered : m.Ordered) :
    (∃ i is, Underway old base (i :: is) h m ∧ MakesNone is) ∨ ∃ f callers, m.frames = f :: callers ∧
      f.closure.Bare := by
  obtain ⟨is, underway, others⟩ := followed
  cases is with
  | nil =>
    obtain ⟨f, callers, o, outside⟩ := underway
    exact Outside.passes outside ready ordered
  | cons i is => exact .inl ⟨i, is, underway, fun j there => others j (List.mem_cons_of_mem _ there)⟩

lemma bare_breaks {f : Frame} {callers : List Frame} (frames : m.frames = f :: callers) (bare : f.closure.Bare) :
    ∃ defect, m.step = .error (.broken defect) m := by
  obtain ⟨defect, fetches⟩ := fetch_bare frames bare
  exact ⟨defect, by rw [step, bind_apply, fetches]⟩

/-- A step is told by the history. -/
theorem Followed.step (followed : Followed old base h m) (ready : Ready True m) (ordered : m.Ordered)
    (result : m.step = .ok () m') : Followed old base ((m.happening? m').toList ++ h) m' := by
  rcases followed.next ready ordered with ⟨i, is, ⟨f, callers, o, -, -, -, further⟩, others⟩ |
    ⟨f, callers, frames, bare⟩
  · exact ⟨is, ⟨f, callers, _, (further m.journal m.now).1 m' result⟩, others⟩
  · obtain ⟨defect, breaks⟩ := bare_breaks frames bare
    exact nomatch breaks.symm.trans result

/-- So are the tables when the run stops. -/
theorem Followed.stops {stop : Stop} (followed : Followed old base h m) (ready : Ready True m) (ordered : m.Ordered)
    (result : m.step = .error stop m') (sound : ∀ defect, stop ≠ .broken defect) : Settled old base h m' := by
  rcases followed.next ready ordered with ⟨i, is, ⟨f, callers, o, -, -, -, further⟩, -⟩ | ⟨f, callers, frames, bare⟩
  · exact (further m.journal m.now).2 stop m' result sound
  · obtain ⟨defect, breaks⟩ := bare_breaks frames bare
    exact absurd (EStateM.Result.error.inj (result.symm.trans breaks)).1 (sound defect)

/-- Between two steps the tables are as the history tells, and a superclass is found. -/
lemma Followed.midway (followed : Followed old base h m) (ready : Ready True m) (ordered : m.Ordered) :
    Midway old base h m := by
  rcases followed.next ready ordered with ⟨i, is, ⟨f, callers, o, -, -, midway, -⟩, -⟩ | ⟨f, callers, frames, bare⟩
  · exact midway
  · obtain ⟨is, ⟨f', callers', o, through⟩, -⟩ := followed
    have other : SuperFound h m := superFound_of_other frames (bare.instrAt? f.ip) (by simp [Instr.opcode])
    cases is with
    | nil =>
      obtain ⟨⟨l, -, account, -⟩, kept, since⟩ := (through : Outside old base h m)
      exact ⟨⟨l, account⟩, kept, since, other⟩
    | cons i is => exact through.2.2.1

lemma Followed.timeless : Timeless (Followed old base) := by
  rintro h m journal now ⟨is, ⟨f, callers, o, through⟩, others⟩
  exact ⟨is, ⟨f, callers, o, through.aside midway_timeless outside_timeless journal now⟩, others⟩

/-- Where a class is made, it is declared. -/
theorem Followed.declares {f : Frame} {callers : List Frame} {index : UInt8} (followed : Followed old base h m)
    (ready : Ready True m) (ordered : m.Ordered) (frames : m.frames = f :: callers)
    (decoded : f.closure.prototype.chunk.instrAt? f.ip = some (.makeClass index)) :
    ∃ (l : Ledger) (d : ClassCode), f.closure.prototype.CodeAt f.ip d.instrs ∧
      Through f callers (Midway m.methods h)
        (fun h' m' => Declared l h m f callers d (f.ip + codeSize d.instrs) h' m' ∧ Outside m.methods h h' m')
        (Abandoned h m (d.made f m)) d.instrs f.ip h m := by
  obtain ⟨is, ⟨f', callers', o, through⟩, others⟩ := followed
  cases is with
  | cons i is =>
    obtain ⟨frames', decoded', -⟩ := through
    obtain ⟨rfl, rfl⟩ := List.cons.inj (frames.symm.trans frames')
    obtain rfl := Option.some.inj (decoded.symm.trans decoded')
    exact absurd rfl (others _ List.mem_cons_self)
  | nil =>
    have outside : Outside old base h m := through
    rcases outside.arrives ready ordered with ⟨l, f', callers', Γ, start, before, piece, after, i, is, arrives⟩ |
      ⟨f', callers', frames', bare⟩
    · obtain ⟨rfl, rfl⟩ := List.cons.inj (frames.symm.trans arrives.frames)
      have head := arrives.coming.codeAt.head
      rw [arrives.place] at head
      obtain rfl := Option.some.inj (decoded.symm.trans head)
      obtain ⟨code, -, piece⟩ := arrives.coming
      cases piece with
      | boundary => cases code
      | plain harmless =>
        cases code
        exact harmless.elim
      | jump leads =>
        cases code
        exact leads.elim
      | closure makes =>
        cases code
        cases makes
      | superGet | superCall => cases code
      | @cls _ d _ declares same => exact ⟨l, d, arrives.declares declares same⟩
    · obtain ⟨rfl, -⟩ := List.cons.inj (frames.symm.trans frames')
      cases decoded.symm.trans (bare.instrAt? f.ip)

end Passing

end Lox
