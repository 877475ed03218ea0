import Lox.Proofs.Compile.Invariant
import Lox.Proofs.Syntax.Grammar

/-!
# What the basic actions do

A quiet run of each basic action of the compilation keeps the invariant, and this file says what
else it does: moving on reads one word (`Moves`), emitting adds an instruction, a jump that has
landed leads to the end of the code so far (`Progress.land`), and an index made for a constant finds
that constant in the pool.
-/

namespace Lox.Compile

open Syntax

variable {s s' : State}

/-! ## Moving on -/

/-- One word has been read. -/
structure Moves (s s' : State) : Prop where
  progress : Progress s s' [] 0
  previous : s'.previous = s.current
  words : s.words = s.current.word :: s'.words
  body : s'.body = s.body
  enclosing : s'.enclosing = s.enclosing

/-- Reading another word changes nothing else. -/
lemma Progress.andMoves {s₀ : State} {code : List Instr} {k : Nat} (h : Progress s₀ s code k)
    (moves : Moves s s') : Progress s₀ s' code k := by
  have both := h.trans moves.progress
  rw [List.append_nil, Nat.zero_add] at both
  exact both

/-- The word is one whose kind says it all. -/
lemma Moves.mark (h : Moves s s') {kind : TokenKind} (current : s.current.kind = kind)
    (plain : kind.hasText = false) : s.words = .mark kind :: s'.words := by
  rw [h.words, Token.word, current, plain]
  rfl

/-- The word is a name. -/
lemma Moves.name (h : Moves s s') (current : s.current.kind = .identifier) :
    s.words = .name s'.previous.lexeme :: s'.words := by
  rw [h.words, h.previous, Token.word, current]
  rfl

/-- The kind of the next word. -/
lemma State.nextKind_words (s : State) : nextKind s.words = some s.current.kind := rfl

/-- The next token is moved on to. -/
lemma advance_next {u : Unit} {t : Token} {ts : List Token} (run : Runs advance s u s')
    (rest : s.rest = t :: ts) : s' = { s with previous := s.current, current := t, rest := ts } := by
  have state : ({ s with previous := s.current } : State).settle s.rest = s' :=
    congrArg Prod.snd run.eq
  rw [rest, State.settle] at state
  split at state
  · next fault _ =>
    -- Text that is no token would have been complained of.
    exfalso
    have complained := (State.worsens_settle ts _).complaints
      (State.diagnostics_complainOf (s := { s with previous := s.current, rest := ts })
        t (.lexical fault) run.sane)
    rw [state] at complained
    exact complained run.clean.diagnostics
  · exact state.symm

/-- The next word has been read, unless there is none. -/
theorem advance_cases {u : Unit} (run : Runs advance s u s') (sound : s.Sound) :
    Moves s s' ∨ s.current.kind = .endOfInput ∧ s' = { s with previous := s.current } := by
  cases rest : s.rest with
  | nil =>
    right
    have state : ({ s with previous := s.current } : State).settle s.rest = s' :=
      congrArg Prod.snd run.eq
    rw [rest] at state
    refine ⟨sound.ends s.current ?_, ?_⟩
    · rw [rest]
      rfl
    · rw [← state, State.settle]
  | cons t ts =>
    left
    have proper := advance_next run rest
    subst proper
    have sound' : State.Sound { s with previous := s.current, current := t, rest := ts } :=
      { sound with
        previous := sound.ahead _ List.mem_cons_self
        ahead := fun t' there => sound.ahead t' (by
          rw [rest]
          exact List.mem_cons_of_mem _ there)
        ends := fun t' last => sound.ends t' (by
          rw [rest, List.getLast?_cons_cons]
          exact last)
        budget := by
          have budget := sound.budget
          rw [rest, List.length_cons] at budget
          exact Nat.le_of_succ_le budget }
    refine ⟨{ Progress.refl sound with sound := sound' }, rfl, ?_, rfl, rfl⟩
    rw [State.words, rest]
    rfl

theorem advance_spec {u : Unit} (run : Runs advance s u s') (sound : s.Sound)
    (more : s.current.kind ≠ .endOfInput) : Moves s s' := by
  rcases advance_cases run sound with moves | ⟨finished, -⟩
  · exact moves
  · exact absurd finished more

lemma check_spec {kind : TokenKind} {b : Bool} (run : Runs (check kind) s b s') :
    s = s' ∧ (b = true ↔ s.current.kind = kind) := by
  unfold check at run
  rw [runs_get_bind] at run
  obtain ⟨rfl, rfl, -⟩ := runs_pure.1 run
  exact ⟨rfl, decide_eq_true_iff⟩

/-- Either the next token is of the kind and has been read, or nothing has happened. -/
theorem accept_spec {kind : TokenKind} {b : Bool} (run : Runs (accept kind) s b s')
    (sound : s.Sound) (proper : kind ≠ .endOfInput) :
    (b = true ∧ s.current.kind = kind ∧ Moves s s') ∨
      (b = false ∧ s.current.kind ≠ kind ∧ s = s') := by
  unfold accept at run
  rw [runs_bind] at run
  obtain ⟨found, s₁, checks, run⟩ := run
  obtain ⟨rfl, found_iff⟩ := check_spec checks
  rcases runs_ite.1 run with ⟨yes, run⟩ | ⟨no, run⟩
  · left
    have kind_eq := found_iff.1 yes
    rw [runs_bind] at run
    obtain ⟨u, s₂, moves, done⟩ := run
    obtain ⟨rfl, rfl, -⟩ := runs_pure.1 done
    exact ⟨rfl, kind_eq, advance_spec moves sound (kind_eq ▸ proper)⟩
  · right
    obtain ⟨rfl, rfl, -⟩ := runs_pure.1 run
    exact ⟨rfl, fun kind_eq => no (found_iff.2 kind_eq), rfl⟩

/-- The next token is of the kind, or there would be a complaint. -/
theorem expect_spec {kind : TokenKind} {what : String} {u : Unit}
    (run : Runs (expect kind what) s u s') (sound : s.Sound)
    (proper : kind ≠ .endOfInput) : s.current.kind = kind ∧ Moves s s' := by
  unfold expect at run
  rw [runs_bind] at run
  obtain ⟨found, s₁, checks, run⟩ := run
  obtain ⟨rfl, found_iff⟩ := check_spec checks
  rcases runs_ite.1 run with ⟨yes, run⟩ | ⟨no, run⟩
  · have kind_eq := found_iff.1 yes
    exact ⟨kind_eq, advance_spec run sound (kind_eq ▸ proper)⟩
  · exact absurd run not_runs_complainHere

/-! ### Going on after a word -/

section Continuations

variable {α : Type} {a : α} {kind : TokenKind}

lemma runs_accept {f : Bool → Compiling α} [found : Careful (f true)] [missing : Careful (f false)]
    (run : Runs (accept kind >>= f) s a s') (sound : s.Sound)
    (proper : kind ≠ .endOfInput) :
    (s.current.kind = kind ∧ ∃ s₁, Moves s s₁ ∧ Runs (f true) s₁ a s') ∨
      (s.current.kind ≠ kind ∧ Runs (f false) s a s') := by
  have all : ∀ b, Careful (f b) := Bool.rec missing found
  rw [runs_bind] at run
  obtain ⟨found, s₁, accepts, run⟩ := run
  rcases accept_spec accepts sound proper with ⟨rfl, current, moves⟩ | ⟨rfl, current, rfl⟩
  · exact .inl ⟨current, s₁, moves, run⟩
  · exact .inr ⟨current, run⟩

/-- A word that is only accepted under a condition. -/
lemma runs_acceptIf {c : Bool} {f : Bool → Compiling α} [Careful (f true)] [Careful (f false)]
    (run : Runs (if c = true then accept kind >>= f else pure false >>= f) s a s')
    (sound : s.Sound) (proper : kind ≠ .endOfInput) :
    (c = true ∧ s.current.kind = kind ∧ ∃ s₁, Moves s s₁ ∧ Runs (f true) s₁ a s') ∨
      (¬(c = true ∧ s.current.kind = kind) ∧ Runs (f false) s a s') := by
  rcases runs_ite.1 run with ⟨yes, run⟩ | ⟨no, run⟩
  · rcases runs_accept run sound proper with ⟨current, run⟩ | ⟨current, run⟩
    · exact .inl ⟨yes, current, run⟩
    · exact .inr ⟨fun both => current both.2, run⟩
  · exact .inr ⟨fun both => no both.1, run⟩

lemma runs_expect {what : String} {f : Unit → Compiling α} [careful : Careful (f ())]
    (run : Runs (expect kind what >>= f) s a s') (sound : s.Sound)
    (proper : kind ≠ .endOfInput) :
    s.current.kind = kind ∧ ∃ s₁, Moves s s₁ ∧ Runs (f ()) s₁ a s' := by
  have all : ∀ u, Careful (f u) := fun _ => careful
  rw [runs_bind] at run
  obtain ⟨u, s₁, expects, run⟩ := run
  obtain ⟨current, moves⟩ := expect_spec expects sound proper
  exact ⟨current, s₁, moves, run⟩

end Continuations

/-! ## Emitting -/

/-- A change of the innermost body that keeps it sound keeps the state sound. -/
lemma State.Sound.changeBody {b : Body} (sound : s.Sound) (body : b.Sound s.serial)
    (locals : LocalsGrow s.body.locals b.locals) (captures : b.captures = s.body.captures) :
    State.Sound { s with body := b } where
  bodies c there := by
    rcases List.mem_cons.1 there with rfl | old
    · exact body
    · exact sound.bodies c (List.mem_cons_of_mem _ old)
  linked := by
    obtain ⟨first, others⟩ := sound.linked
    refine ⟨?_, others⟩
    rw [captures]
    exact first
  settled := sound.settled
  pending := by
    have tails : LocalsGrow s.body.locals.tail b.locals.tail := by
      rw [← List.drop_one, ← List.drop_one]
      exact locals.drop 1
    intro v there
    obtain ⟨w, old, grows⟩ := forall₂_left tails there
    rw [grows.depth]
    exact sound.pending w old
  previous := sound.previous
  ahead := sound.ahead
  ends := sound.ends
  budget := sound.budget
  superclass known := by
    obtain ⟨c, there, found⟩ := sound.superclass known
    rcases List.mem_cons.1 there with rfl | old
    · exact ⟨b, List.mem_cons_self, fun missing => found ((locals.find_none _).1 missing)⟩
    · exact ⟨c, List.mem_cons_of_mem _ old, found⟩

lemma State.Sound.body (sound : s.Sound) : s.body.Sound s.serial :=
  sound.bodies _ List.mem_cons_self

/-- Only instructions have been added. -/
lemma Progress.of_code {b : Body} {code : List Instr} (sound : s.Sound)
    (others : b = { s.body with code := b.code, size := b.size })
    (instrs : b.instrs = s.body.instrs ++ code) (size : b.size = codeSize b.instrs) :
    Progress s { s with body := b } code 0 := by
  have locals : b.locals = s.body.locals := by rw [others]
  have captures : b.captures = s.body.captures := by rw [others]
  have constants : b.constants = s.body.constants := by rw [others]
  have depth : b.depth = s.body.depth := by rw [others]
  have body : b.Sound s.serial :=
    { size := size
      localsFit := locals ▸ sound.body.localsFit
      capturesFit := captures ▸ sound.body.capturesFit
      constantsFit := constants ▸ sound.body.constantsFit
      distinct := captures ▸ sound.body.distinct
      numbers := constants ▸ sound.body.numbers
      prototypes := constants ▸ sound.body.prototypes
      depths := by rw [locals, depth]; exact sound.body.depths }
  have grows : LocalsGrow s.body.locals b.locals := locals ▸ LocalsGrow.refl _
  exact
    { Progress.refl sound with
      sound := sound.changeBody body grows captures
      kind := by rw [others]
      name := by rw [others]
      arity := by rw [others]
      depth := depth
      instrs := instrs
      constants := constants ▸ List.prefix_refl _
      covers := fun p there => .inl (constants ▸ there)
      captures := captures ▸ List.prefix_refl _
      locals := grows
      length := congrArg List.length locals }

lemma Body.instrs_emit (b : Body) (i : Instr) (line : Nat) :
    (b.emit i line).instrs = b.instrs ++ [i] := by
  simp only [emit, instrs, Array.toList_push, List.map_append, List.map_cons, List.map_nil]

/-- An instruction has been added. -/
theorem emit_spec {i : Instr} {u : Unit} (run : Runs (emit i) s u s') (sound : s.Sound) :
    Progress s s' [i] 0 ∧ SameTokens s s' := by
  have state : ({ s with body := s.body.emit i s.previous.line } : State) = s' :=
    congrArg Prod.snd run.eq
  subst state
  refine ⟨Progress.of_code sound rfl (s.body.instrs_emit _ _) ?_, ⟨rfl, rfl, rfl⟩⟩
  rw [Body.instrs_emit, codeSize_append, ← sound.body.size]
  rfl

theorem emitAll_spec {is : List Instr} :
    ∀ {s : State} {u : Unit}, Runs (is.forM emit) s u s' → s.Sound →
      Progress s s' is 0 ∧ SameTokens s s' := by
  induction is with
  | nil =>
    intro s u run sound
    obtain ⟨rfl, rfl, -⟩ := runs_pure.1 (show Runs (pure ()) s u s' from run)
    exact ⟨.refl sound, .refl s⟩
  | cons i is ih =>
    intro s u run sound
    have run : Runs (emit i >>= fun _ => is.forM emit) s u s' := run
    rw [runs_bind] at run
    obtain ⟨u₁, s₁, first, others⟩ := run
    obtain ⟨progress, tokens⟩ := emit_spec first sound
    obtain ⟨progress', tokens'⟩ := ih others progress.sound
    exact ⟨progress.trans progress', tokens.trans tokens'⟩

/-! ## Jumps -/

/-- Where a jump after some instructions waits for its distance. -/
def siteAfter (is : List Instr) : JumpSite := ⟨is.length, codeSize is + 3⟩

lemma Body.length_instrs (b : Body) : b.instrs.length = b.code.size := by
  rw [instrs, List.length_map, Array.length_toList]

/-- A jump without distance has been added. -/
theorem emitJump_spec {jump : UInt16 → Instr} {site : JumpSite} (run : Runs (emitJump jump) s site s')
    (sound : s.Sound) (three : ∀ d, (jump d).size = 3) :
    site = siteAfter s.body.instrs ∧ Progress s s' [jump 0xffff] 0 ∧ SameTokens s s' := by
  unfold emitJump at run
  rw [runs_get_bind] at run
  dsimp only at run
  rw [runs_bind] at run
  obtain ⟨u, s₂, emits, run⟩ := run
  rw [runs_get_bind] at run
  obtain ⟨rfl, rfl, -⟩ := runs_pure.1 run
  obtain ⟨progress, tokens⟩ := emit_spec emits sound
  refine ⟨?_, progress, tokens⟩
  rw [siteAfter, Body.length_instrs, progress.sound.body.size, progress.instrs, codeSize_append,
    codeSize_cons, three]
  rfl

/-- The two forms of a forward jump. -/
inductive IsJump : (UInt16 → Instr) → Prop where
  | jump : IsJump .jump
  | jumpIfFalse : IsJump .jumpIfFalse

lemma IsJump.size {jump : UInt16 → Instr} (h : IsJump jump) (d : UInt16) : (jump d).size = 3 := by
  cases h <;> rfl

lemma modify_length_append {α : Type} (f : α → α) (l : List α) (a : α) (r : List α) :
    (l ++ a :: r).modify l.length f = l ++ f a :: r := by
  induction l with
  | nil => rfl
  | cons b l ih => rw [List.cons_append, List.length_cons, List.modify_succ_cons, ih, List.cons_append]

lemma Body.instrs_aimJump {b : Body} {before after : List Instr} {jump : UInt16 → Instr}
    (h : b.instrs = before ++ jump 0xffff :: after) (forward : IsJump jump) (d : UInt16) :
    (b.aimJump before.length d).instrs = before ++ jump d :: after := by
  obtain ⟨code, others, split, first, rest⟩ := List.map_eq_append_iff.1 h
  obtain ⟨entry, later, rfl, aimed, rest⟩ := List.map_eq_cons_iff.1 rest
  obtain ⟨instr, line⟩ := entry
  simp only at aimed
  simp only [Body.instrs, aimJump, Array.toList_modify, split, ← first, List.length_map]
  rw [modify_length_append, List.map_append, List.map_cons, aimed]
  cases forward <;> exact congrArg (_ ++ _ :: ·) (List.cons.inj rest).2

/-- Only instructions have been changed, into others of the same sizes. -/
lemma Progress.withCode {s₀ : State} {b : Body} {code code' : List Instr} {k : Nat}
    (progress : Progress s₀ s code k) (others : b = { s.body with code := b.code })
    (instrs : b.instrs = s₀.body.instrs ++ code') (size : codeSize code' = codeSize code)
    (closures : ∀ index captures, .closure index captures ∈ code → .closure index captures ∈ code') :
    Progress s₀ { s with body := b } code' k := by
  have locals : b.locals = s.body.locals := by rw [others]
  have captures : b.captures = s.body.captures := by rw [others]
  have constants : b.constants = s.body.constants := by rw [others]
  have depth : b.depth = s.body.depth := by rw [others]
  have sizes : b.size = s.body.size := by rw [others]
  have sound := progress.sound.body
  have body : b.Sound s.serial :=
    { size := by
        rw [sizes, sound.size, instrs, progress.instrs, codeSize_append, codeSize_append, size]
      localsFit := locals ▸ sound.localsFit
      capturesFit := captures ▸ sound.capturesFit
      constantsFit := constants ▸ sound.constantsFit
      distinct := captures ▸ sound.distinct
      numbers := constants ▸ sound.numbers
      prototypes := constants ▸ sound.prototypes
      depths := by rw [locals, depth]; exact sound.depths }
  exact
    { progress with
      sound := progress.sound.changeBody body (locals ▸ LocalsGrow.refl _) captures
      kind := by rw [← progress.kind, others]
      name := by rw [← progress.name, others]
      arity := by rw [← progress.arity, others]
      depth := depth.trans progress.depth
      instrs := instrs
      constants := constants ▸ progress.constants
      covers := fun p there => by
        rcases progress.covers p (constants ▸ there) with before | ⟨index, made, closure, entry⟩
        · exact .inl before
        · exact .inr ⟨index, made, closures _ _ closure, constants ▸ entry⟩
      captures := captures ▸ progress.captures
      locals := locals ▸ progress.locals
      length := locals ▸ progress.length
      fresh := locals ▸ progress.fresh }

/-- A jump that has landed leads to the end of the code so far. -/
theorem Progress.land {s₀ : State} {before after : List Instr} {k : Nat} {jump : UInt16 → Instr}
    {u : Unit} (progress : Progress s₀ s (before ++ jump 0xffff :: after) k) (forward : IsJump jump)
    (run : Runs (Compile.land (siteAfter (s₀.body.instrs ++ before))) s u s') :
    Progress s₀ s' (before ++ jump (UInt16.ofNat (codeSize after)) :: after) k ∧
      codeSize after ≤ maxDistance ∧ SameTokens s s' ∧
      ∀ Γ L, Future s' Γ L → Future s Γ L := by
  have split : s.body.instrs = (s₀.body.instrs ++ before) ++ jump 0xffff :: after := by
    rw [progress.instrs, List.append_assoc]
  have distance : s.body.size - (siteAfter (s₀.body.instrs ++ before)).start = codeSize after := by
    rw [progress.sound.body.size, split, codeSize_append, codeSize_cons, forward.size, siteAfter,
      ← Nat.add_assoc, Nat.add_sub_cancel_left]
  unfold Compile.land at run
  rw [runs_get_bind] at run
  simp only [distance] at run
  rcases runs_ite.1 run with ⟨-, run⟩ | ⟨-, run⟩
  · rw [runs_bind] at run
    obtain ⟨u', s₂, fails, -⟩ := run
    exact absurd fails not_runs_fail
  rcases runs_ite.1 run with ⟨-, run⟩ | ⟨near, run⟩
  · rw [runs_bind] at run
    obtain ⟨u', s₂, complains, -⟩ := run
    exact absurd complains not_runs_complain
  · let b := s.body.aimJump (siteAfter (s₀.body.instrs ++ before)).index
      (UInt16.ofNat (codeSize after))
    have state : ({ s with body := b } : State) = s' := congrArg Prod.snd run.eq
    subst state
    have aimed := Body.instrs_aimJump split forward (UInt16.ofNat (codeSize after))
    refine ⟨progress.withCode rfl ?_ ?_ ?_, Nat.le_of_not_lt near, ⟨rfl, rfl, rfl⟩,
      fun Γ L later => ⟨later.kind, later.constants, later.captures, later.locals, later.around⟩⟩
    · rw [← List.append_assoc]
      exact aimed
    · simp only [codeSize_append, codeSize_cons, forward.size]
    · intro index captures there
      have other : ∀ d, jump d ≠ .closure index captures := by
        cases forward <;> exact fun _ => Instr.noConfusion
      simp only [List.mem_append, List.mem_cons, (other _).symm, false_or] at there ⊢
      exact there

/-- A jump back has been added. -/
theorem emitLoop_spec {start : Nat} {u : Unit} (run : Runs (emitLoop start) s u s')
    (sound : s.Sound) :
    Progress s s' [.loop (UInt16.ofNat (codeSize s.body.instrs + 3 - start))] 0 ∧
      codeSize s.body.instrs + 3 - start ≤ maxDistance ∧ SameTokens s s' := by
  unfold emitLoop at run
  rw [runs_get_bind] at run
  simp only [sound.body.size] at run
  rcases runs_ite.1 run with ⟨-, run⟩ | ⟨-, run⟩
  · rw [runs_bind] at run
    obtain ⟨u', s₂, fails, -⟩ := run
    exact absurd fails not_runs_fail
  rcases runs_ite.1 run with ⟨-, run⟩ | ⟨near, run⟩
  · rw [runs_bind] at run
    obtain ⟨u', s₂, complains, -⟩ := run
    exact absurd complains not_runs_complain
  · obtain ⟨progress, tokens⟩ := emit_spec run sound
    exact ⟨progress, Nat.le_of_not_lt near, tokens⟩

end Lox.Compile
