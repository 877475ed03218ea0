import Lox.Proofs.Compile.Resolution

/-!
# Scopes and declarations

A scope that is left takes exactly the variables declared in it off the stack
(`Progress.leaveScope`).  A variable is declared in two steps, before and after its initial value is
read; in between it is there but means nothing yet.  `declares_spec` is the first step and
`Declares.define` the second one, both for globals, which need no place, and for locals.
-/

namespace Lox.Compile

open Syntax

variable {s s' : State}

/-! ## Changing the locals -/

/-- The innermost body may be given other locals. -/
lemma State.Sound.withBody {b : Body} (sound : s.Sound) (body : b.Sound s.serial)
    (captures : b.captures = s.body.captures) (pending : ∀ v ∈ b.locals.tail, v.depth.isSome)
    (known : s.classes.headD false = true → State.Knows { s with body := b } "super") :
    State.Sound { s with body := b } where
  bodies c there := by
    rcases List.mem_cons.1 there with rfl | old
    · exact body
    · exact sound.bodies c (List.mem_cons_of_mem _ old)
  linked := by
    obtain ⟨first, others⟩ := sound.linked
    refine ⟨?_, others⟩
    rw [captures]
    exact first
  settled := sound.settled
  pending := pending
  previous := sound.previous
  ahead := sound.ahead
  ends := sound.ends
  budget := sound.budget
  superclass := known

lemma findLocal?_drop {x : String} {L : List Local} (missing : findLocal? x L = none) (k : Nat) :
    findLocal? x (L.drop k) = none := by
  induction L generalizing k with
  | nil => rw [List.drop_nil]; exact missing
  | cons v outer ih =>
    cases k with
    | zero => exact missing
    | succ k =>
      rw [findLocal?] at missing
      split at missing
      · exact absurd missing (Option.some_ne_none _)
      · exact ih missing k

lemma State.Knows.grow {x : String} {k : Nat} (known : s.Knows x)
    (locals : LocalsGrow s.body.locals (s'.body.locals.drop k))
    (enclosing : BodiesDeepen s.enclosing s'.enclosing) : s'.Knows x := by
  obtain ⟨b, there, found⟩ := known
  rcases List.mem_cons.1 there with rfl | old
  · refine ⟨s'.body, List.mem_cons_self, fun missing => found ?_⟩
    rw [← locals.find_none]
    exact findLocal?_drop missing k
  · obtain ⟨b', new, deepens⟩ := forall₂_right enclosing old
    refine ⟨b', List.mem_cons_of_mem _ new, fun missing => found ?_⟩
    exact (deepens.scope.locals.find_none x).1 missing

/-! ## Scopes -/

/-- The state in a new scope. -/
def State.inScope (s : State) : State := { s with body := { s.body with depth := s.body.depth + 1 } }

lemma beginScope_spec {u : Unit} (run : Runs beginScope s u s') : s.inScope = s' :=
  congrArg Prod.snd run.eq

lemma State.Sound.inScope (sound : s.Sound) : s.inScope.Sound := by
  have body : ({ s.body with depth := s.body.depth + 1 } : Body).Sound s.serial :=
    { sound.body with
      depths := fun v there d given => Nat.le_succ_of_le (sound.body.depths v there d given) }
  exact sound.changeBody body (LocalsGrow.refl _) rfl

/-- The variables of the innermost scope are the ones declared in it. -/
lemma Progress.scopeLocals {code : List Instr} {k : Nat} (h : Progress s.inScope s' code k)
    (sound : s.Sound) :
    s'.body.scopeLocals = s'.body.locals.take k ∧
      s'.body.leaveScope.locals = s'.body.locals.drop k := by
  have depth : s'.body.depth = s.body.depth + 1 := h.depth
  have new : ∀ v ∈ s'.body.locals.take k, v.depth.any (s'.body.depth ≤ ·) = true := by
    intro v there
    have given : v.depth ∈ (s'.body.locals.take k).map (·.depth) := List.mem_map_of_mem there
    rw [h.fresh, List.mem_replicate] at given
    rw [given.2, depth]
    exact decide_eq_true (Nat.le_refl _)
  have old : ∀ v ∈ s'.body.locals.drop k, ¬v.depth.any (s'.body.depth ≤ ·) = true := by
    intro v there inside
    obtain ⟨w, before, grows⟩ := forall₂_left h.locals there
    rw [grows.depth] at inside
    cases given : w.depth with
    | none =>
      rw [given] at inside
      exact absurd inside Bool.false_ne_true
    | some d =>
      rw [given] at inside
      have within : s'.body.depth ≤ d := of_decide_eq_true inside
      have bound := sound.body.depths w before d given
      omega
  have split := List.take_append_drop k s'.body.locals
  have nothing : (s'.body.locals.drop k).takeWhile (fun v => v.depth.any (s'.body.depth ≤ ·)) = [] := by
    cases rest : s'.body.locals.drop k with
    | nil => rfl
    | cons v outer =>
      rw [List.takeWhile_cons_of_neg]
      exact old v (by rw [rest]; exact List.mem_cons_self)
  have all : (s'.body.locals.drop k).dropWhile (fun v => v.depth.any (s'.body.depth ≤ ·)) =
      s'.body.locals.drop k := by
    have both := @List.takeWhile_append_dropWhile _
      (fun v : Local => v.depth.any (s'.body.depth ≤ ·)) (s'.body.locals.drop k)
    rw [nothing] at both
    exact both
  constructor
  · show s'.body.locals.takeWhile _ = _
    conv => lhs; rw [← split]
    rw [List.takeWhile_append_of_pos new, nothing, List.append_nil]
  · show s'.body.locals.dropWhile _ = _
    conv => lhs; rw [← split]
    rw [List.dropWhile_append_of_pos new, all]

lemma forM_exits (L : List Local) :
    L.forM (fun v => emit (if v.isCaptured then .closeUpvalue else .pop)) =
      (exits L).forM emit := by
  induction L with
  | nil => rfl
  | cons v L ih => exact congrArg (emit _ >>= fun _ => ·) ih

/-- Leaving a scope takes its variables off the stack. -/
theorem Progress.leaveScope {code : List Instr} {k : Nat} {s'' : State} {u : Unit}
    (h : Progress s.inScope s' code k) (sound : s.Sound) (settled : s.body.Settled)
    (run : Runs endScope s' u s'') :
    Progress s s'' (code ++ exits (s'.body.locals.take k)) 0 ∧ SameTokens s' s'' ∧
      ∀ Γ L, Future s'' Γ L → Future s' Γ (s'.body.locals.take k ++ L) := by
  obtain ⟨leaving, remaining⟩ := h.scopeLocals sound
  have settled' : s'.body.Settled := h.settled settled
  unfold endScope at run
  rw [runs_get_bind, runs_bind] at run
  obtain ⟨u₁, s₁, leaves, run⟩ := run
  have state : ({ s' with body := s'.body.leaveScope } : State) = s₁ := congrArg Prod.snd leaves.eq
  subst state
  have grows : LocalsGrow s.body.locals s'.body.leaveScope.locals := by
    rw [remaining]
    exact h.locals
  have depth : s'.body.leaveScope.depth = s.body.depth :=
    congrArg (· - 1) h.depth
  have body : s'.body.leaveScope.Sound s'.serial :=
    { size := h.sound.body.size
      localsFit := by
        rw [← grows.length_eq]
        exact sound.body.localsFit
      capturesFit := h.sound.body.capturesFit
      constantsFit := h.sound.body.constantsFit
      distinct := h.sound.body.distinct
      numbers := h.sound.body.numbers
      prototypes := h.sound.body.prototypes
      depths := by
        intro v there d given
        obtain ⟨w, old, same⟩ := forall₂_left grows there
        rw [same.depth] at given
        rw [depth]
        exact sound.body.depths w old d given }
  have pending : ∀ v ∈ s'.body.leaveScope.locals.tail, v.depth.isSome := by
    intro v there
    obtain ⟨w, old, same⟩ := forall₂_left grows (List.mem_of_mem_tail there)
    rw [same.depth]
    exact settled w old
  have left : Progress s { s' with body := s'.body.leaveScope } code 0 :=
    { h with
      sound := h.sound.withBody body rfl pending fun inside => by
        rw [h.classes] at inside
        exact State.Knows.grow (k := 0) (sound.superclass inside) grows h.enclosing
      depth := depth
      locals := grows
      length := grows.length_eq.symm
      fresh := rfl }
  have exit : s'.body.scopeLocals.forM (fun v => emit (if v.isCaptured then .closeUpvalue else .pop)) =
      (exits (s'.body.locals.take k)).forM emit := by
    rw [leaving, forM_exits]
  rw [exit] at run
  obtain ⟨progress, tokens⟩ := emitAll_spec run left.sound
  refine ⟨left.trans progress, ⟨tokens.previous, tokens.current, tokens.rest⟩, ?_⟩
  intro Γ L later
  have before := progress.future later
  refine ⟨before.kind, before.constants, before.captures, ?_, before.around⟩
  have outer := before.locals
  rw [Body.Settled.visible (left.settled settled)] at outer
  rw [settled'.visible]
  have outer' : LocalsGrow (s'.body.locals.drop k) L := by
    rw [← remaining]
    exact outer
  have both : LocalsGrow (s'.body.locals.take k ++ s'.body.locals.drop k)
      (s'.body.locals.take k ++ L) :=
    List.rel_append (LocalsGrow.refl (s'.body.locals.take k)) outer'
  rw [List.take_append_drop] at both
  exact both

/-! ## Declarations -/

/-- The state with a variable whose initial value is still to be read. -/
def State.pushing (s : State) (x : String) : State := { s with body := s.body.pushLocal x }

lemma addLocal_spec {x : String} {u : Unit} (run : Runs (addLocal x) s u s') :
    s.pushing x = s' ∧ s.body.locals.length < maxOperands := by
  unfold addLocal at run
  rw [runs_get_bind] at run
  rcases runs_ite.1 run with ⟨-, run⟩ | ⟨room, run⟩
  · exact absurd run not_runs_complain
  · exact ⟨congrArg Prod.snd run.eq, Nat.lt_of_not_le room⟩

lemma State.Sound.pushing (sound : s.Sound) (settled : s.body.Settled)
    (fits : s.body.locals.length < maxOperands) (x : String) : (s.pushing x).Sound := by
  have body : (s.body.pushLocal x).Sound s.serial :=
    { sound.body with
      localsFit := fits
      depths := fun v there d given => by
        rcases List.mem_cons.1 there with rfl | old
        · exact nomatch given
        · exact sound.body.depths v old d given }
  refine sound.withBody body rfl settled fun inside => ?_
  exact State.Knows.grow (k := 1) (sound.superclass inside) (.refl _) (.refl _)

/-- A variable that has been pushed gets its value: the one on top of the stack. -/
theorem Progress.givenValue {x : String} {code : List Instr} {s'' : State} {u : Unit}
    (h : Progress (s.pushing x) s' code 0) (sound : s.Sound) (settled : s.body.Settled)
    (inner : s.body.depth ≠ 0) (run : Runs markInitialized s' u s'') :
    Progress s s'' code 1 ∧ SameTokens s' s'' ∧
      ∀ Γ L, Future s'' Γ L → Future s' Γ (L.drop 1) ∧
        ∃ v, v.name = x ∧ L = v :: L.drop 1 := by
  have grows : LocalsGrow (⟨x, none, false⟩ :: s.body.locals) s'.body.locals := h.locals
  have depth : s'.body.depth = s.body.depth := h.depth
  cases locals : s'.body.locals with
  | nil =>
    rw [locals] at grows
    exact nomatch grows
  | cons w outer =>
    rw [locals] at grows
    obtain ⟨first, others⟩ := List.forall₂_cons.1 grows
    let b : Body := { s'.body with locals := { w with depth := some s'.body.depth } :: outer }
    have state : ({ s' with body := b } : State) = s'' := by
      have state := congrArg Prod.snd run.eq
      simp only [markInitialized, modifyBody, modify, modifyGet, MonadStateOf.modifyGet,
        StateT.modifyGet, depth, inner, ↓reduceIte, Body.initializeLocal, locals] at state
      rw [← state]
      simp only [b, pure, depth]
    subst state
    have settled' : ∀ v ∈ outer, v.depth.isSome := by
      intro v there
      obtain ⟨w', old, same⟩ := forall₂_left others there
      rw [same.depth]
      exact settled w' old
    have body : b.Sound s'.serial :=
      { h.sound.body with
        localsFit := by
          have fit := h.sound.body.localsFit
          rw [locals] at fit
          exact fit
        depths := fun v there d given => by
          rcases List.mem_cons.1 there with rfl | old
          · exact Nat.le_of_eq (Option.some.inj given).symm
          · exact h.sound.body.depths v (by rw [locals]; exact List.mem_cons_of_mem _ old) d given }
    have sound' : State.Sound { s' with body := b } := by
      refine h.sound.withBody body rfl settled' fun inside => ?_
      rw [h.classes] at inside
      exact State.Knows.grow (k := 1) (sound.superclass inside) others h.enclosing
    have progress : Progress s { s' with body := b } code 1 :=
      { h with
        sound := sound'
        locals := others
        length := congrArg (· + 1) others.length_eq.symm
        fresh := congrArg (fun d => [some d]) depth }
    refine ⟨progress, ⟨rfl, rfl, rfl⟩, fun Γ L later => ?_⟩
    have visible : LocalsGrow b.locals L := by
      rw [← Body.Settled.visible progress.settled_after]
      exact later.locals
    cases visible with
    | @cons _ v _ L named rest =>
      refine ⟨⟨later.kind, later.constants, later.captures, ?_, later.around⟩, v,
        named.name.trans first.name, rfl⟩
      have pending : s'.body.visible = outer := by
        rw [Body.visible, locals, List.dropWhile_cons_of_pos (by rw [first.depth]; rfl)]
        exact Body.Settled.visible (b := { b with locals := outer }) settled'
      rw [pending]
      exact rest

/-- Do declarations make globals here? -/
def State.atTop (s : State) : Bool := decide (s.body.depth = 0)

/-- The number of locals that a declaration makes here. -/
def State.places (s : State) : Nat := if s.body.depth = 0 then 0 else 1

lemma State.places_top (top : s.body.depth = 0) : s.places = 0 := if_pos top

lemma State.places_inner (inner : s.body.depth ≠ 0) : s.places = 1 := if_neg inner

lemma State.atTop_top (top : s.body.depth = 0) : s.atTop = true := decide_eq_true top

lemma State.atTop_inner (inner : s.body.depth ≠ 0) : s.atTop = false := decide_eq_false inner

/-- A variable has been declared; if it is a global, its name has an index. -/
inductive Declares (s : State) (x : String) (index : UInt8) (s' : State) : Prop where
  | global (top : s.body.depth = 0) (progress : Progress s s' [] 0)
      (named : ∀ Γ L, Future s' Γ L → Γ.IsName index x)
  | slot (inner : s.body.depth ≠ 0) (state : s.pushing x = s') (sound : s'.Sound)

lemma declareVariable_spec {u : Unit} (run : Runs declareVariable s u s') (sound : s.Sound)
    (settled : s.body.Settled) :
    (s.body.depth = 0 ∧ s = s') ∨
      (s.body.depth ≠ 0 ∧ s.pushing s.previous.lexeme = s' ∧ s'.Sound) := by
  unfold declareVariable at run
  rw [runs_get_bind] at run
  dsimp only at run
  rcases runs_ite.1 run with ⟨top, run⟩ | ⟨inner, run⟩
  · exact .inl ⟨top, (runs_pure.1 run).2.1⟩
  · right
    rcases runs_ite.1 run with ⟨-, run⟩ | ⟨-, run⟩
    · rw [runs_bind] at run
      obtain ⟨u', s₁, complains, -⟩ := run
      exact absurd complains not_runs_complain
    · obtain ⟨rfl, fits⟩ := addLocal_spec run
      exact ⟨inner, rfl, sound.pushing settled fits _⟩

theorem parseVariable_spec {what : String} {index : UInt8}
    (run : Runs (parseVariable what) s index s') (sound : s.Sound) (settled : s.body.Settled) :
    s.current.kind = .identifier ∧
      ∃ s₁, Moves s s₁ ∧ Declares s₁ s₁.previous.lexeme index s' ∧ SameTokens s₁ s' := by
  unfold parseVariable at run
  obtain ⟨identifier, s₁, moves, run⟩ := runs_expect run sound (by decide)
  have sound₁ := moves.progress.sound
  have settled₁ := moves.progress.settled settled
  refine ⟨identifier, s₁, moves, ?_⟩
  rw [runs_bind] at run
  obtain ⟨u, s₂, declares, run⟩ := run
  rw [runs_get_bind] at run
  rcases declareVariable_spec declares sound₁ settled₁ with ⟨top, rfl⟩ | ⟨inner, rfl, sound₂⟩
  · rw [if_pos top] at run
    obtain ⟨progress, tokens, named⟩ := stringConstant_spec run sound₁
    exact ⟨.global top progress named, tokens⟩
  · rw [if_neg (show (s₁.pushing _).body.depth ≠ 0 from inner)] at run
    obtain ⟨rfl, rfl, -⟩ := runs_pure.1 run
    exact ⟨.slot inner rfl sound₂, ⟨rfl, rfl, rfl⟩⟩

lemma Progress.bindsSlot {x : String} {code : List Instr} {Γ : Context} {L : List Local} {v : Local}
    (h : Progress s s' code 1) (later : Future s' Γ L) (named : v.name = x)
    (split : L = v :: L.drop 1) : Binds Γ (L.drop 1) x false [] L := by
  have length := later.length h.settled_after
  have fits := h.sound.body.localsFit
  have more := congrArg List.length split
  rw [List.length_cons] at more
  have binds : Binds Γ (L.drop 1) x false [] (v :: L.drop 1) := .slot named (by omega)
  rw [← split] at binds
  exact binds

/-- A declared variable gets its value after some code. -/
theorem Declares.define {x : String} {index : UInt8} {s₁ s₂ s₃ : State} {code : List Instr}
    {u : Unit} (declares : Declares s x index s₁) (h : Progress s₁ s₂ code 0) (sound : s.Sound)
    (settled : s.body.Settled) (run : Runs (defineVariable index) s₂ u s₃) :
    ∃ define, Progress s s₃ (code ++ define) s.places ∧ SameTokens s₂ s₃ ∧
      ∀ Γ L, Future s₃ Γ L → Future s₂ Γ (L.drop s.places) ∧
        Binds Γ (L.drop s.places) x s.atTop define L := by
  unfold defineVariable at run
  rw [runs_get_bind, h.depth] at run
  cases declares with
  | global top progress named =>
    rw [progress.depth, if_pos top] at run
    obtain ⟨progress', tokens⟩ := emit_spec run h.sound
    rw [State.places_top top, State.atTop_top top]
    refine ⟨[.defineGlobal index], progress.trans (h.trans progress'), tokens, ?_⟩
    intro Γ L later
    have before := progress'.future later
    exact ⟨before, .global (named Γ _ (h.future before))⟩
  | slot inner state sound₁ =>
    subst state
    rw [if_neg (show (s.pushing x).body.depth ≠ 0 from inner)] at run
    obtain ⟨progress, tokens, grown⟩ := h.givenValue sound settled inner run
    rw [State.places_inner inner, State.atTop_inner inner]
    refine ⟨[], ?_, tokens, ?_⟩
    · rw [List.append_nil]
      exact progress
    · intro Γ L later
      obtain ⟨before, v, named, split⟩ := grown Γ L later
      refine ⟨before, ?_⟩
      exact progress.bindsSlot later named split

lemma initializeLocal_again {v : Local} {outer : List Local} {b : Body} (locals : b.locals = v :: outer)
    (given : v.depth = some b.depth) : b.initializeLocal = b := by
  unfold Body.initializeLocal
  rw [locals]
  dsimp only
  rw [← given, ← locals]

/-- A variable may be in scope before its value is there, and defining it then changes nothing. -/
theorem Declares.early {x : String} {index : UInt8} {s₁ s₂ : State} {u : Unit}
    (declares : Declares s x index s₁) (sound : s.Sound) (settled : s.body.Settled)
    (run : Runs markInitialized s₁ u s₂) :
    Progress s s₂ [] s.places ∧ SameTokens s₁ s₂ ∧
      ∀ {s₃ s₄ : State} {code : List Instr} {u' : Unit}, Progress s₂ s₃ code 0 →
        Runs (defineVariable index) s₃ u' s₄ →
        ∃ define, Progress s s₄ (code ++ define) s.places ∧ SameTokens s₃ s₄ ∧
          ∀ Γ L, Future s₄ Γ L → Future s₃ Γ L ∧ Binds Γ (L.drop s.places) x s.atTop define L := by
  cases declares with
  | global top progress named =>
    have state : s₁ = s₂ := by
      have state := congrArg Prod.snd run.eq
      simp only [markInitialized, modifyBody, modify, modifyGet, MonadStateOf.modifyGet,
        StateT.modifyGet, pure, progress.depth, top, ↓reduceIte] at state
      exact state
    subst state
    rw [State.places_top top, State.atTop_top top]
    refine ⟨progress, .refl _, fun h run => ?_⟩
    unfold defineVariable at run
    rw [runs_get_bind, h.depth, progress.depth, if_pos top] at run
    obtain ⟨progress', tokens⟩ := emit_spec run h.sound
    refine ⟨[.defineGlobal index], progress.trans (h.trans progress'), tokens, ?_⟩
    intro Γ L later
    have before := progress'.future later
    exact ⟨before, .global (named Γ _ (h.future before))⟩
  | slot inner state sound₁ =>
    subst state
    obtain ⟨progress, tokens, grown⟩ := (Progress.refl sound₁).givenValue sound settled inner run
    rw [State.places_inner inner, State.atTop_inner inner]
    refine ⟨progress, tokens, fun {s₃ s₄ code u'} h run => ?_⟩
    have whole : Progress s s₃ code 1 := progress.trans h
    unfold defineVariable at run
    rw [runs_get_bind, whole.depth, if_neg inner] at run
    -- The variable has its depth already.
    have again : s₃.body.initializeLocal = s₃.body := by
      have fresh := whole.fresh
      cases locals : s₃.body.locals with
      | nil =>
        rw [locals] at fresh
        exact nomatch fresh
      | cons v outer =>
        rw [locals] at fresh
        refine initializeLocal_again locals ?_
        rw [whole.depth]
        exact (List.cons.inj fresh).1
    have state : s₃ = s₄ := by
      have state := congrArg Prod.snd run.eq
      simp only [markInitialized, modifyBody, modify, modifyGet, MonadStateOf.modifyGet,
        StateT.modifyGet, pure, whole.depth, inner, again, ↓reduceIte] at state
      exact state
    subst state
    refine ⟨[], ?_, .refl _, fun Γ L later => ⟨later, ?_⟩⟩
    · rw [List.append_nil]
      exact whole
    · obtain ⟨-, v, named, split⟩ := grown Γ L (h.future later)
      exact whole.bindsSlot later named split

end Lox.Compile
