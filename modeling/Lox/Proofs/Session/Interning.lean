import Lox.Proofs.Compile.Upkeep
import Lox.Proofs.Machine.Strings
import Lox.Proofs.Session.Reach

/-!
# Interned strings

In a session there is one string table, which compiling and running share and which only grows
(`Leads.strings`).  The strings in the functions that have been compiled, also of sources that are
rejected, and the strings that others were joined to are objects of the table (`Issued`).  So two of
these are the same object if and only if they have the same content, no matter which sources and which
runs they are from.
-/

namespace Lox

/-- What is the same as a string constant is a string of the same content. -/
lemma Constant.string_of_same {s : StringObject} {c : Constant} (h : (Constant.string s).same c = true) :
    ∃ t, c = .string t ∧ t.content = s.content := by
  cases c with
  | string t => exact ⟨t, rfl, (eq_of_beq h).symm⟩
  | _ => cases h

/-- What is equal to a string is a string of the same content. -/
lemma Value.string_of_same {s : StringObject} {v : Value} (h : (Value.string s).same v = true) :
    ∃ t, v = .string t ∧ t.content = s.content := by
  cases v with
  | string t => exact ⟨t, rfl, (eq_of_beq h).symm⟩
  | _ => cases h

end Lox

namespace Lox.Session

open Compile

variable {Admitted : NativeBody → Prop} {phase phase' : Phase} {s s' : Session} {object other : StringObject}

/-! ## The string table of a session -/

lemma Journaled.strings {m m' : Machine} (journaled : Journaled m m') : m'.strings = m.strings := by
  obtain ⟨_, rfl⟩ := journaled
  rfl

/-- After a source has been loaded, the table has all that compiling it left. -/
lemma load_strings (s : Session) (source : String) :
    (compiled source s.machine.strings s.machine.nextPrototype).2.strings.Grows
      (s.load source).2.machine.strings := by
  have same : (compile source s.machine.strings s.machine.nextPrototype).strings =
      (compiled source s.machine.strings s.machine.nextPrototype).2.strings := rfl
  rw [← same]
  unfold load
  generalize compile source s.machine.strings s.machine.nextPrototype = done
  dsimp only
  have listed := listings_journaled done.finished
    { s with machine := { s.machine with strings := done.strings } }
  generalize Array.foldl _ _ done.finished = s₁ at listed ⊢
  have listed := listed.strings
  split
  · next diagnostics _ =>
    have told := tell_journaled s₁ (diagnostics.toList.map Diagnostic.text)
    rw [(told.trans (note_journaled _ _ _)).strings, listed]
    exact .refl _
  · next p _ =>
    generalize made : Machine.newClosure { s₁.machine with nextPrototype := done.serial } p #[] = pair
    have kept : pair.2.strings = done.strings := by
      rw [← made]
      exact listed
    have grows := (inferInstance : Machine.Interning (do
      Machine.push (.closure pair.1)
      Machine.call pair.1 0 : Action Unit)).grows pair.2
    rw [kept] at grows
    split <;> next result => rwa [result] at grows

lemma load_grows (s : Session) (source : String) :
    s.machine.strings.Grows (s.load source).2.machine.strings := by
  obtain ⟨T, -, strings, grows, -⟩ :=
    compile_finished source s.machine.strings s.machine.nextPrototype
  rw [strings] at grows
  exact grows.trans (s.load_strings source)

lemma run_grows (traced : Bool) (fuel : Nat) (m : Machine) :
    m.strings.Grows (m.run traced fuel).2.strings := by
  induction fuel generalizing m with
  | zero => exact .refl _
  | succ fuel ih =>
    have noted : (if traced then m.noteStep else m).strings = m.strings := by
      split
      · exact (noteStep_journaled m).strings
      · rfl
    have grows := (inferInstance : Machine.Interning Machine.step).grows (if traced then m.noteStep else m)
    rw [noted] at grows
    rw [Machine.run]
    split
    · next step =>
      rw [step] at grows
      exact grows.trans (ih _)
    · next step =>
      rw [step] at grows
      exact grows

lemma advance_grows (s : Session) (fuel : Nat) :
    s.machine.strings.Grows (s.advance fuel).2.machine.strings :=
  run_grows _ fuel s.machine

lemma defineNative_strings (s : Session) (name : String) (arity : UInt8) (body : NativeBody) :
    (s.defineNative name arity body).machine.strings = (s.machine.strings.intern name).2 := by
  unfold defineNative
  rw [(note_journaled _ _ _).strings]
  rfl

/-- Nothing that is done with a session takes an object from the table. -/
lemma Turn.strings (turn : Turn Admitted phase s phase' s') : s.machine.strings.Grows s'.machine.strings := by
  cases turn with
  | @native _ name arity body _ =>
    rw [defineNative_strings]
    exact s.machine.strings.grows_intern name
  | @reject _ _ source rejects =>
    have grows := s.load_grows source
    rwa [rejects] at grows
  | @load _ _ source loads =>
    have grows := s.load_grows source
    rwa [loads] at grows
  | @advance _ _ fuel goesOn =>
    have grows := s.advance_grows fuel
    rwa [goesOn] at grows
  | @finish _ s₁ _ fuel stop outcome stops finishes sound =>
    have grows := s.advance_grows fuel
    rw [stops] at grows
    rcases finish_machine finishes sound with ⟨-, -, journaled⟩ | ⟨error, m, -, -, journaled, -, same⟩
    · rwa [journaled.strings]
    · rw [← journaled.strings] at grows
      rwa [same]
  | time | journal => exact .refl _

/-- No object of the table is ever lost or replaced. -/
lemma Leads.strings (leads : Leads Admitted phase s phase' s') :
    s.machine.strings.Grows s'.machine.strings := by
  induction leads with
  | refl => exact .refl _
  | turn _ turn ih => exact ih.trans turn.strings

/-- Different contents have different objects. -/
lemma Reached.canonical (here : Reached Admitted phase s) : s.machine.strings.Canonical := by
  obtain ⟨verbosity, leads⟩ := here
  refine leads.strings.canonical ?_
  have first := StringTable.canonical_empty.intern "init"
  unfold Session.start
  generalize StringTable.empty.intern "init" = pair at first ⊢
  rw [defineNative_strings]
  exact first.intern "clock"

/-! ## The strings that come from the table -/

/-- The function comes of the source, whether or not that is rejected: it is the script, or it has been
finished before anything was found wrong, or it is inside one of these. -/
def ComesOf (s : Session) (source : String) (p : Prototype) : Prop :=
  ∃ q, (q = (compiled source s.machine.strings s.machine.nextPrototype).1 ∨
    q ∈ (compiled source s.machine.strings s.machine.nextPrototype).2.finished) ∧ Contains q p

/-- The string is a constant of a function that the session has compiled, or strings of the session were
joined to it. -/
inductive Issued (Admitted : NativeBody → Prop) (object : StringObject) : Phase → Session → Prop where
  | constant {s s' source accepted p} (here : Reached Admitted .resting s)
      (loads : s.load source = (accepted, s')) (function : s.ComesOf source p)
      (among : .string object ∈ p.chunk.constants) :
      Issued Admitted object (if accepted then .running else .resting) s'
  | joined {s s' rest a b} (here : Reached Admitted .running s) (joins : s.machine.Joins rest a b)
      (goesOn : s.advance 1 = (none, s')) (result : s'.machine.stack.back? = some (.string object)) :
      Issued Admitted object .running s'
  | later {p q s s'} (before : Issued Admitted object p s) (turn : Turn Admitted p s q s') :
      Issued Admitted object q s'

/-- The constants of the functions that come of a source are in the table. -/
lemma ComesOf.has {source : String} {p : Prototype} (function : s.ComesOf source p)
    (among : .string object ∈ p.chunk.constants) : (s.load source).2.machine.strings.Has object := by
  obtain ⟨T, -, strings, -, -, script, finished⟩ :=
    compile_finished source s.machine.strings s.machine.nextPrototype
  have grows := s.load_strings source
  rw [← strings] at grows
  obtain ⟨q, found, inside⟩ := function
  have done : AllFinished T q := by
    rcases found with rfl | there
    · exact script
    · exact finished q there
  obtain ⟨b, tidy, same⟩ := done p inside
  rw [same, Body.assemble, b.constants_chunk] at among
  exact StringTable.Has.grow (tidy.known _ among) grows

lemma joins_advance {rest : Array Value} {a b : StringObject} (joins : s.machine.Joins rest a b) :
    ∃ object s', s.advance 1 = (none, s') ∧ s'.machine.stack = rest.push (.string object) ∧
      object.content = a.content ++ b.content ∧ s'.machine.strings.Has object := by
  have journaled : Journaled s.machine (if s.verbosity.wants .trace then s.machine.noteStep else s.machine) := by
    split
    · exact noteStep_journaled s.machine
    · exact .refl s.machine
  unfold advance
  dsimp only [Machine.run]
  generalize (if s.verbosity.wants .trace then s.machine.noteStep else s.machine) = m at journaled ⊢
  have joins : m.Joins rest a b := by
    obtain ⟨journal, rfl⟩ := journaled
    exact ⟨joins.next, joins.operands⟩
  obtain ⟨object, m', step, result, content, has⟩ := joins.step
  rw [step]
  exact ⟨object, _, rfl, result, content, has⟩

/-- The strings that are constants, and those that others were joined to, are objects of the table. -/
lemma Issued.has (issued : Issued Admitted object phase s) : s.machine.strings.Has object := by
  induction issued with
  | @constant s s' source _ _ _ loads function among =>
    have has := function.has among
    rwa [loads] at has
  | joined _ joins goesOn result =>
    obtain ⟨made, s'', goesOn', stack, -, has⟩ := joins_advance joins
    obtain rfl := (Prod.mk.inj (goesOn.symm.trans goesOn')).2
    rw [stack, Array.back?_push] at result
    rwa [← Value.string.inj (Option.some.inj result)]
  | later _ turn ih => exact ih.grow turn.strings

/-- The string table of a session never loses or replaces an object, and each of its objects has the content
under which it is found.  All constants of functions that come of a source, even of one that is rejected, and
all that strings are joined to are issued, and what has been issued is the object of the table for its content.
So two issued strings are the same object if and only if they have the same content. -/
theorem strings_canonical (here : Reached Admitted phase s) :
    (∀ {phase' s'}, Leads Admitted phase s phase' s' → ∀ x object,
      s.machine.strings.objects.find? x = some object → s'.machine.strings.objects.find? x = some object) ∧
    (∀ x object, s.machine.strings.objects.find? x = some object → object.content = x) ∧
    (∀ {source accepted s'}, phase = .resting → s.load source = (accepted, s') → ∀ p, s.ComesOf source p →
      ∀ object, .string object ∈ p.chunk.constants →
        Issued Admitted object (if accepted then .running else .resting) s') ∧
    (∀ rest a b, phase = .running → s.machine.Joins rest a b →
      ∃ object s', s.advance 1 = (none, s') ∧ s'.machine.stack = rest.push (.string object) ∧
        object.content = a.content ++ b.content ∧ Issued Admitted object .running s') ∧
    (∀ object, Issued Admitted object phase s →
      s.machine.strings.objects.find? object.content = some object) ∧
    ∀ object other, Issued Admitted object phase s → Issued Admitted other phase s →
      (object.serial = other.serial ↔ object.content = other.content) ∧
        (object = other ↔ object.content = other.content) := by
  refine ⟨fun leads x object found => leads.strings.keeps x object found, s.machine.strings.named,
    fun resting loads p function object among => ?_, fun rest a b running joins => ?_,
    fun object issued => issued.has, fun object other issued issued' => ?_⟩
  · subst resting
    exact .constant here loads function among
  · subst running
    obtain ⟨object, s', goesOn, stack, content, -⟩ := joins_advance joins
    exact ⟨object, s', goesOn, stack, content,
      .joined here joins goesOn (by rw [stack, Array.back?_push])⟩
  · have same := here.canonical.same_iff issued.has issued'.has
    refine ⟨same, fun equal => congrArg _ equal, fun content => ?_⟩
    have found : some object = some other := by rw [← issued.has, content, issued'.has]
    exact Option.some.inj found

/-- A string of a source that is rejected is the object to which two strings are joined later on. -/
theorem strings_canonical_rejected : ∃ s s₁ s₂ s₃ s₄ p object,
    Reached (NativeBody.Fair True) .resting s ∧ s.load "\"ab\"; 1" = (false, s₁) ∧
      s.ComesOf "\"ab\"; 1" p ∧ .string object ∈ p.chunk.constants ∧
      s₁.load "print \"a\" + \"b\";" = (true, s₂) ∧ s₂.advance 2 = (none, s₃) ∧
      s₃.advance 1 = (none, s₄) ∧ s₄.machine.stack.back? = some (.string object) := by
  have start : Reached (NativeBody.Fair True) .resting (Session.start .quiet) := .start .quiet
  have constants : ∃ object, .string object ∈ (compiled "\"ab\"; 1" (Session.start .quiet).machine.strings
      (Session.start .quiet).machine.nextPrototype).1.chunk.constants ∧ object.content = "ab" := by
    have first : ((compiled "\"ab\"; 1" (Session.start .quiet).machine.strings
        (Session.start .quiet).machine.nextPrototype).1.chunk.constants[0]?.elim false
          (Constant.same (.string ⟨0, "ab"⟩))) = true := by decide +kernel
    generalize pool : (compiled "\"ab\"; 1" _ _).1.chunk.constants = constants at first ⊢
    cases entry : constants[0]? with
    | none =>
      rw [entry] at first
      cases first
    | some c =>
      rw [entry] at first
      obtain ⟨object, rfl, content⟩ := Constant.string_of_same first
      exact ⟨object, Array.mem_of_getElem? entry, content⟩
  obtain ⟨object, among, content⟩ := constants
  generalize first : (Session.start .quiet).load "\"ab\"; 1" = rejected
  generalize second : rejected.2.load "print \"a\" + \"b\";" = accepted
  generalize third : accepted.2.advance 2 = advanced
  have runs : rejected.1 = false ∧ accepted.1 = true ∧ advanced.1 = none ∧
      (advanced.2.machine.frames.head?.bind fun f => f.closure.prototype.chunk.instrAt? f.ip) = some .add ∧
      advanced.2.machine.stack.toList.map (Value.same (.string ⟨0, "a"⟩)) = [false, true, false] ∧
      advanced.2.machine.stack.toList.map (Value.same (.string ⟨0, "b"⟩)) = [false, false, true] := by
    rw [← third, ← second, ← first]
    decide +kernel
  obtain ⟨_, s₁⟩ := rejected
  obtain ⟨_, s₂⟩ := accepted
  obtain ⟨_, s₃⟩ := advanced
  obtain ⟨rfl, rfl, rfl, next, operand, operand'⟩ := runs
  have here := ((start.turn (.reject first)).turn (.load second)).turn (.advance third)
  obtain ⟨v, _, stack, -, above⟩ := List.map_eq_cons_iff.1 operand
  obtain ⟨x, _, rfl, known, above⟩ := List.map_eq_cons_iff.1 above
  obtain ⟨y, _, rfl, -, top⟩ := List.map_eq_cons_iff.1 above
  obtain rfl := List.map_eq_nil_iff.1 top
  rw [stack] at operand'
  obtain ⟨a, rfl, left⟩ := Value.string_of_same known
  obtain ⟨b, rfl, right⟩ := Value.string_of_same (List.cons.inj (List.cons.inj (List.cons.inj operand').2).2).1
  have joins : s₃.machine.Joins #[v] a b := by
    refine ⟨?_, Array.toList_inj.1 stack⟩
    cases frames : s₃.machine.frames with
    | nil =>
      rw [frames] at next
      cases next
    | cons f callers =>
      rw [frames] at next
      exact ⟨f, callers, rfl, next⟩
  obtain ⟨-, -, -, joined, -⟩ := strings_canonical here
  obtain ⟨other, s₄, goesOn, stack, content', issued'⟩ := joined _ _ _ rfl joins
  obtain ⟨-, -, constant, -⟩ := strings_canonical start
  have issued := (((constant rfl first _ ⟨_, .inl rfl, .self⟩ object among).later (.load second)).later
    (.advance third)).later (.advance goesOn)
  obtain ⟨-, -, -, -, -, same⟩ := strings_canonical (here.turn (.advance goesOn))
  have equal := (same object other issued issued').2.2
    (by rw [content, content', left, right]; rfl)
  subst equal
  exact ⟨_, s₁, s₂, s₃, s₄, _, object, start, first, ⟨_, .inl rfl, .self⟩, among, second, third, goesOn,
    by rw [stack, Array.back?_push]⟩

end Lox.Session
