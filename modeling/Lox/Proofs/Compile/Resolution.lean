import Lox.Proofs.Compile.Constants

/-!
# Resolution

Where a name leads in the state of the compilation is where it leads in every future of that state
(`access_spec`).  The work is in `Body.resolveCapture`, which threads a variable through the bodies
between its declaration and its use: afterwards the captures of all these bodies lead from one to
the next, up to the slot of the variable (`Body.resolveCapture_spec`).
-/

namespace Lox.Compile

open Syntax

variable {s s' : State}

/-! ## Finding locals -/

lemma findLocal?_markCaptured (x : String) (L : List Local) :
    LocalsGrow L (markCaptured x L) := by
  induction L with
  | nil => exact List.Forall₂.nil
  | cons v outer ih =>
    rw [markCaptured]
    split
    · exact List.Forall₂.cons ⟨rfl, rfl, fun _ => rfl⟩ (LocalsGrow.refl _)
    · exact List.Forall₂.cons (.refl v) ih

/-- The variable that is marked is the one that the name means. -/
lemma findLocal?_marked {x : String} {L : List Local} {slot : Nat} {v : Local}
    (h : findLocal? x L = some (slot, v)) :
    findLocal? x (markCaptured x L) = some (slot, { v with isCaptured := true }) := by
  induction L with
  | nil => simp only [findLocal?, reduceCtorEq] at h
  | cons w outer ih =>
    rw [findLocal?] at h
    rw [markCaptured]
    split at h
    · next named =>
      obtain ⟨rfl, rfl⟩ := Prod.mk.inj (Option.some.inj h)
      rw [if_pos named, findLocal?, if_pos (show ({ w with isCaptured := true } : Local).name = x
        from named)]
    · next other =>
      rw [if_neg other, findLocal?, if_neg other]
      exact ih h

/-- The visible variables of a body are all or all but the last one declared. -/
lemma State.Sound.visible_cases (sound : s.Sound) :
    s.body.visible = s.body.locals ∨
      ∃ v, v.depth = none ∧ s.body.locals = v :: s.body.visible := by
  have pending := sound.pending
  unfold Body.visible
  cases locals : s.body.locals with
  | nil => exact .inl rfl
  | cons v outer =>
    rw [locals] at pending
    by_cases given : v.depth.isNone = true
    · right
      refine ⟨v, Option.isNone_iff_eq_none.1 given, ?_⟩
      rw [List.dropWhile_cons, if_pos given]
      cases outer with
      | nil => rfl
      | cons w others =>
        have given := pending w List.mem_cons_self
        rw [List.dropWhile_cons_of_neg]
        rw [Option.isNone_eq_false_iff.2 given]
        exact Bool.false_ne_true
    · left
      rw [List.dropWhile_cons, if_neg given]

/-- A name that is not being declared means a visible variable. -/
lemma State.Sound.find_visible (sound : s.Sound) {x : String} {slot : Nat} {v : Local}
    (found : findLocal? x s.body.locals = some (slot, v)) (given : Body.useComplaints v = []) :
    findLocal? x s.body.visible = some (slot, v) := by
  rcases sound.visible_cases with all | ⟨w, pending, split⟩
  · rw [all]
    exact found
  · rw [split, findLocal?] at found
    split at found
    · obtain ⟨rfl, rfl⟩ := Prod.mk.inj (Option.some.inj found)
      rw [Body.useComplaints, pending] at given
      exact absurd given (List.cons_ne_nil _ _)
    · exact found

lemma State.Sound.find_visible_none (sound : s.Sound) {x : String}
    (missing : findLocal? x s.body.locals = none) : findLocal? x s.body.visible = none := by
  rcases sound.visible_cases with all | ⟨w, pending, split⟩
  · rw [all]
    exact missing
  · rw [split, findLocal?] at missing
    split at missing
    · exact absurd missing (Option.some_ne_none _)
    · exact missing

/-! ## Captures -/

/-- The captures of a body can be told apart by an operand, and no two are the same. -/
structure Body.CapturesOk (b : Body) : Prop where
  fit : b.captures.size ≤ maxOperands
  distinct : b.captures.toList.Nodup

/-- What becomes of a body that captures a variable: the capture is found at the index. -/
structure Body.Captures (b : Body) (c : Capture) (index : UInt8) (b' : Body) : Prop where
  others : b' = { b with captures := b'.captures }
  ok : b'.CapturesOk
  grows : b.captures.toList <+: b'.captures.toList
  found : b'.captures[index.toNat]? = some c
  new : ∀ i < b'.captures.size, i < b.captures.size ∨ UInt8.ofNat i = index

lemma Body.addCapture_spec {b b' : Body} {c : Capture} {index : UInt8} (ok : b.CapturesOk)
    (h : b.addCapture c = (index, b', [])) : b.Captures c index b' := by
  unfold Body.addCapture at h
  split at h
  · next i known =>
    simp only [Prod.mk.injEq, and_true] at h
    obtain ⟨rfl, rfl⟩ := h
    obtain ⟨bound, same, -⟩ := Array.findIdx?_eq_some_iff_getElem.1 known
    refine ⟨rfl, ok, List.prefix_refl _, ?_, fun _ bound => .inl bound⟩
    rw [UInt8.toNat_ofNat_of_lt_max (Nat.lt_of_lt_of_le bound ok.fit),
      Array.getElem?_eq_getElem bound, eq_of_beq same]
  · next unknown =>
    split at h
    · simp only [Prod.mk.injEq, reduceCtorEq, and_false] at h
    · next room =>
      simp only [Prod.mk.injEq, and_true] at h
      obtain ⟨rfl, rfl⟩ := h
      have small : b.captures.size < maxOperands := Nat.lt_of_not_le room
      refine ⟨rfl, ⟨?_, ?_⟩, ?_, ?_, ?_⟩
      · show (b.captures.push c).size ≤ maxOperands
        rw [Array.size_push]
        exact small
      · show (b.captures.push c).toList.Nodup
        rw [Array.toList_push, List.nodup_append]
        refine ⟨ok.distinct, List.pairwise_singleton _ c, ?_⟩
        intro a old a' new
        obtain rfl := List.mem_singleton.1 new
        have differs := Array.findIdx?_eq_none_iff.1 unknown a (Array.mem_toList_iff.1 old)
        exact fun same => Bool.false_ne_true (differs.symm.trans (beq_iff_eq.2 same))
      · show b.captures.toList <+: (b.captures.push c).toList
        rw [Array.toList_push]
        exact List.prefix_append _ _
      · show (b.captures.push c)[_]? = some c
        rw [UInt8.toNat_ofNat_of_lt_max small]
        exact Array.getElem?_push_size
      · intro i bound
        have bound : i < (b.captures.push c).size := bound
        rw [Array.size_push] at bound
        rcases Nat.lt_succ_iff_lt_or_eq.1 bound with old | rfl
        · exact .inl old
        · exact .inr rfl

/-- What looking for a name in the bodies around does to all of them. -/
structure Resolved (x : String) (b : Body) (around : List Body) (index : Option UInt8) (b' : Body)
    (around' : List Body) : Prop where
  others : b' = { b with captures := b'.captures }
  grows : b.captures.toList <+: b'.captures.toList
  ok : ∀ c ∈ b' :: around', c.CapturesOk
  deepen : BodiesDeepen around around'
  linked : Linked (b' :: around')
  found : ∀ i, index = some i → CapturedAs x b'.captures (around'.map Body.scope) i
  missing : index = none → ∀ c ∈ around', findLocal? x c.locals = none

/-- The captures of a body stay linked when it captures a variable. -/
lemma Linked.capture {x : String} {b b' : Body} {around around' : List Body} {c : Capture}
    {index : UInt8} (linked : Linked (b :: around)) (captures : b.Captures c index b')
    (deepen : BodiesDeepen around around') (linked' : Linked around')
    (found : CapturedAs x b'.captures (around'.map Body.scope) index) : Linked (b' :: around') := by
  refine ⟨fun i bound => ?_, linked'⟩
  rcases captures.new i bound with old | rfl
  · obtain ⟨y, chain⟩ := linked.1 i old
    exact ⟨y, chain.grow captures.grows deepen.scopes⟩
  · exact ⟨x, found⟩

theorem Body.resolveCapture_spec {x : String} :
    ∀ {around : List Body} {b b' : Body} {around' : List Body} {index : Option UInt8},
      Body.resolveCapture x b around = (index, b', around', []) →
      (∀ c ∈ b :: around, c.CapturesOk) → (∀ c ∈ around, c.locals.length ≤ maxOperands) →
      Linked (b :: around) → Resolved x b around index b' around' := by
  intro around
  induction around with
  | nil =>
    intro b b' around' index h ok _ linked
    simp only [Body.resolveCapture, Prod.mk.injEq, and_true] at h
    obtain ⟨rfl, rfl, rfl⟩ := h
    exact ⟨rfl, List.prefix_refl _, ok, List.Forall₂.nil, linked, fun _ some => (nomatch some),
      fun _ _ there => absurd there List.not_mem_nil⟩
  | cons nearest further ih =>
    intro b b' around' index h ok fit linked
    have okB := ok b List.mem_cons_self
    rw [Body.resolveCapture] at h
    split at h
    · -- The variable is a local of the nearest body.
      next slot v local_ =>
      cases added : b.addCapture ⟨true, UInt8.ofNat slot⟩ with
      | mk i rest =>
        obtain ⟨b₁, complaints⟩ := rest
        rw [added] at h
        simp only [Prod.mk.injEq, List.append_eq_nil_iff] at h
        obtain ⟨rfl, rfl, rfl, -, rfl⟩ := h
        have captures := Body.addCapture_spec okB added
        have grown := findLocal?_markCaptured x nearest.locals
        have deepen : BodiesDeepen (nearest :: further)
            ({ nearest with locals := markCaptured x nearest.locals } :: further) :=
          List.Forall₂.cons ⟨⟨grown, List.prefix_refl _⟩, rfl⟩ (BodiesDeepen.refl _)
        have bound : slot < maxOperands :=
          Nat.lt_of_lt_of_le (findLocal?_lt local_) (fit nearest List.mem_cons_self)
        have found : CapturedAs x b₁.captures
            ((({ nearest with locals := markCaptured x nearest.locals } : Body) :: further).map
              Body.scope) i :=
          .here captures.found (findLocal?_marked local_) rfl bound
        have linked' :
            Linked ({ nearest with locals := markCaptured x nearest.locals } :: further) :=
          linked.2
        refine ⟨captures.others, captures.grows, ?_, deepen,
          linked.capture captures deepen linked' found, ?_, fun none => (nomatch none)⟩
        · rw [List.forall_mem_cons, List.forall_mem_cons] at ok ⊢
          exact ⟨captures.ok, ⟨ok.2.1.fit, ok.2.1.distinct⟩, ok.2.2⟩
        · intro j same
          obtain rfl := Option.some.inj same
          exact found
    · next missing =>
      -- The nearest body has to find the variable around itself first.
      cases deeper : Body.resolveCapture x nearest further with
      | mk outer rest =>
        obtain ⟨nearest₁, further₁, complaints⟩ := rest
        rw [deeper] at h
        have okNear : ∀ c ∈ nearest :: further, c.CapturesOk := (List.forall_mem_cons.1 ok).2
        have fitFar : ∀ c ∈ further, c.locals.length ≤ maxOperands := (List.forall_mem_cons.1 fit).2
        cases outer with
        | none =>
          simp only [Prod.mk.injEq] at h
          obtain ⟨rfl, rfl, rfl, rfl⟩ := h
          have inner := ih deeper okNear fitFar linked.2
          have scope : nearest₁.locals = nearest.locals := by rw [inner.others]
          have deepen : BodiesDeepen (nearest :: further) (nearest₁ :: further₁) := by
            refine List.Forall₂.cons ⟨⟨?_, inner.grows⟩, ?_⟩ inner.deepen
            · show LocalsGrow nearest.locals nearest₁.locals
              rw [scope]
              exact LocalsGrow.refl _
            · rw [inner.others]
          refine ⟨rfl, List.prefix_refl _, ?_, deepen, ⟨?_, inner.linked⟩,
            fun _ some => (nomatch some), ?_⟩
          · rw [List.forall_mem_cons]
            exact ⟨okB, inner.ok⟩
          · intro i bound
            obtain ⟨y, chain⟩ := linked.1 i bound
            exact ⟨y, chain.grow (List.prefix_refl _) deepen.scopes⟩
          · intro _
            rw [List.forall_mem_cons, scope]
            exact ⟨missing, inner.missing rfl⟩
        | some outer =>
          simp only at h
          cases added : b.addCapture ⟨false, outer⟩ with
          | mk i rest =>
            obtain ⟨b₁, more⟩ := rest
            rw [added] at h
            simp only [Prod.mk.injEq, List.append_eq_nil_iff] at h
            obtain ⟨rfl, rfl, rfl, rfl, rfl⟩ := h
            have inner := ih deeper okNear fitFar linked.2
            have captures := Body.addCapture_spec okB added
            have scope : nearest₁.locals = nearest.locals := by rw [inner.others]
            have deepen : BodiesDeepen (nearest :: further) (nearest₁ :: further₁) := by
              refine List.Forall₂.cons ⟨⟨?_, inner.grows⟩, ?_⟩ inner.deepen
              · show LocalsGrow nearest.locals nearest₁.locals
                rw [scope]
                exact LocalsGrow.refl _
              · rw [inner.others]
            have found : CapturedAs x b₁.captures ((nearest₁ :: further₁).map Body.scope) i :=
              .further captures.found (by rw [Body.scope, scope]; exact missing) (inner.found outer rfl)
            refine ⟨captures.others, captures.grows, ?_, deepen,
              linked.capture captures deepen inner.linked found, ?_,
              fun none => (nomatch none)⟩
            · rw [List.forall_mem_cons]
              exact ⟨captures.ok, inner.ok⟩
            · intro j same
              obtain rfl := Option.some.inj same
              exact found

/-! ## Access -/

lemma Body.Sound.capturesOk {serial : Nat} {b : Body} (h : b.Sound serial) : b.CapturesOk :=
  ⟨h.capturesFit, h.distinct⟩

lemma Body.Sound.deepen {serial : Nat} {b b' : Body} (h : b.Sound serial) (deepens : b.Deepens b')
    (ok : b'.CapturesOk) : b'.Sound serial := by
  have locals : LocalsGrow b.locals b'.locals := deepens.scope.locals
  have length : b'.locals.length = b.locals.length := locals.length_eq.symm
  have others := deepens.others
  have instrs : b'.instrs = b.instrs := by rw [others]; rfl
  have depth : b'.depth = b.depth := by rw [others]
  have constants : b'.constants = b.constants := by rw [others]
  have size : b'.size = b.size := by rw [others]
  refine
    { size := by rw [size, instrs]; exact h.size
      localsFit := length ▸ h.localsFit
      capturesFit := ok.fit
      constantsFit := constants ▸ h.constantsFit
      distinct := ok.distinct
      numbers := constants ▸ h.numbers
      prototypes := constants ▸ h.prototypes
      depths := ?_ }
  intro v there d given
  obtain ⟨w, old, grows⟩ := forall₂_left locals there
  rw [depth]
  exact h.depths w old d (grows.depth ▸ given)

/-- The bodies around the innermost one may capture variables, and the innermost one may, too. -/
lemma Progress.of_captures {b : Body} {enclosing : List Body} (sound : s.Sound)
    (others : b = { s.body with captures := b.captures })
    (grows : s.body.captures.toList <+: b.captures.toList)
    (ok : ∀ c ∈ b :: enclosing, c.CapturesOk) (deepen : BodiesDeepen s.enclosing enclosing)
    (linked : Linked (b :: enclosing)) : Progress s { s with body := b, enclosing } [] 0 := by
  have locals : b.locals = s.body.locals := by rw [others]
  have deepens : s.body.Deepens b := by
    refine ⟨⟨?_, grows⟩, ?_⟩
    · show LocalsGrow s.body.locals b.locals
      rw [locals]
      exact LocalsGrow.refl _
    · rw [others]
  have all : BodiesDeepen (s.body :: s.enclosing) (b :: enclosing) := List.Forall₂.cons deepens deepen
  have sound' : State.Sound { s with body := b, enclosing } :=
    { sound with
      bodies := by
        intro c there
        obtain ⟨old, before, deepens⟩ := forall₂_left all there
        exact (sound.bodies old before).deepen deepens (ok c there)
      linked := linked
      settled := by
        intro c there v inside
        obtain ⟨old, before, deepens⟩ := forall₂_left deepen there
        obtain ⟨w, earlier, grows⟩ := forall₂_left deepens.scope.locals inside
        rw [grows.depth]
        exact sound.settled old before w earlier
      pending := by
        show ∀ v ∈ b.locals.tail, v.depth.isSome
        rw [locals]
        exact sound.pending
      superclass := by
        intro known
        obtain ⟨c, there, found⟩ := sound.superclass known
        obtain ⟨new, after, deepens⟩ := forall₂_right all there
        exact ⟨new, after, fun missing => found ((deepens.scope.locals.find_none _).1 missing)⟩ }
  exact
    { Progress.refl sound with
      sound := sound'
      kind := by rw [others]
      name := by rw [others]
      arity := by rw [others]
      depth := by rw [others]
      instrs := by rw [others, List.append_nil]; rfl
      constants := others ▸ List.prefix_refl _
      covers := fun p there => .inl (by rw [others] at there; exact there)
      captures := grows
      locals := by
        show LocalsGrow s.body.locals (b.locals.drop 0)
        rw [locals]
        exact LocalsGrow.refl _
      length := congrArg List.length locals
      enclosing := deepen }

/-- A complaint among several is not quiet. -/
lemma complaints_eq_nil (complaints : List Complaint) (sane : s.Sane)
    (clean : (complaints.foldl (fun s c => s.complainOf s.previous c) s).Clean) :
    complaints = [] := by
  cases complaints with
  | nil => rfl
  | cons c complaints =>
    have later : Worsens _ _ := Course.complaints complaints (s.complainOf s.previous c)
    exact absurd clean.diagnostics (later.complaints (s.diagnostics_complainOf _ _ sane))

/-- A name that one of the open bodies binds is found in one of them. -/
lemma State.Knows.not_missing {x : String} (known : s.Knows x)
    (missing : findLocal? x s.body.locals = none)
    (nowhere : ∀ b ∈ s.enclosing, findLocal? x b.locals = none) : False := by
  obtain ⟨b, there, found⟩ := known
  rcases List.mem_cons.1 there with rfl | old
  · exact found missing
  · exact found (nowhere b old)

/-- Where a name leads now, it leads in every future. -/
theorem resolve_spec {x : String} {place : Option Access}
    (run : Runs (modifyGet (·.resolve x) : Compiling (Option Access)) s place s')
    (sound : s.Sound) :
    Progress s s' [] 0 ∧ SameTokens s s' ∧
      (∀ a, place = some a → a.IsBound ∧ ∀ Γ L, Future s' Γ L → Resolves Γ L x a) ∧
      (place = none → ¬s.Knows x ∧ ∀ Γ L, Future s' Γ L →
        findLocal? x L = none ∧ ∀ scope ∈ Γ.around, findLocal? x scope.locals = none) := by
  have eq : s.resolve x = (place, s') := run.eq
  unfold State.resolve at eq
  split at eq
  · next slot v found =>
    obtain ⟨rfl, state⟩ := Prod.mk.inj eq
    have quiet := complaints_eq_nil (Body.useComplaints v) run.sane
      (state ▸ run.clean)
    rw [quiet] at state
    obtain rfl : s = s' := state
    have visible := sound.find_visible found quiet
    have bound := Nat.lt_of_lt_of_le (findLocal?_lt found) sound.body.localsFit
    refine ⟨.refl sound, .refl s, ?_, fun none => absurd none (Option.some_ne_none _)⟩
    intro a same
    obtain rfl := Option.some.inj same
    refine ⟨trivial, fun Γ L later => ?_⟩
    obtain ⟨w, final, -⟩ := later.locals.find visible
    exact .slot final bound
  · next missing =>
    obtain ⟨rfl, state⟩ := Prod.mk.inj eq
    cases resolved : Body.resolveCapture x s.body s.enclosing with
    | mk index rest =>
      obtain ⟨b, enclosing, complaints⟩ := rest
      rw [resolved] at state
      have quiet := complaints_eq_nil (s := { s with body := b, enclosing }) complaints run.sane
        (state ▸ run.clean)
      subst quiet
      obtain rfl : ({ s with body := b, enclosing } : State) = s' := state
      have ok : ∀ c ∈ s.body :: s.enclosing, c.CapturesOk :=
        fun c there => (sound.bodies c there).capturesOk
      have spec := Body.resolveCapture_spec resolved ok
        (fun c there => (sound.bodies c (List.mem_cons_of_mem _ there)).localsFit) sound.linked
      have locals : b.locals = s.body.locals := by rw [spec.others]
      have progress := Progress.of_captures sound spec.others spec.grows spec.ok spec.deepen
        spec.linked
      have hidden : findLocal? x b.visible = none := by
        have old := sound.find_visible_none missing
        rw [Body.visible] at old ⊢
        rw [locals]
        exact old
      refine ⟨progress, ⟨rfl, rfl, rfl⟩, ?_, ?_⟩
      · intro a same
        cases index with
        | none => exact absurd same (by simp only [Option.map_none, reduceCtorEq, not_false_eq_true])
        | some i =>
          obtain rfl : Access.captured i = a := Option.some.inj same
          refine ⟨trivial, fun Γ L later => .captured ?_ ?_⟩
          · exact (later.locals.find_none x).2 hidden
          · exact (spec.found i rfl).grow later.captures later.around
      · intro globally
        have nowhere := spec.missing (Option.map_eq_none_iff.1 globally)
        refine ⟨fun known => ?_, fun Γ L later => ⟨?_, ?_⟩⟩
        · refine known.not_missing missing fun c there => ?_
          obtain ⟨new, after, deepens⟩ := forall₂_right spec.deepen there
          exact (deepens.scope.locals.find_none x).1 (nowhere new after)
        · exact (later.locals.find_none x).2 hidden
        · intro scope there
          obtain ⟨old, before, grows⟩ := forall₂_left later.around there
          obtain ⟨c, inside, rfl⟩ := List.mem_map.1 before
          exact (grows.locals.find_none x).2 (nowhere c inside)

theorem access_spec {x : String} {place : Access} (run : Runs (access x) s place s')
    (sound : s.Sound) :
    Progress s s' [] 0 ∧ SameTokens s s' ∧ (s.Knows x → place.IsBound) ∧
      ∀ Γ L, Future s' Γ L → Resolves Γ L x place := by
  unfold access at run
  obtain ⟨found, s₁, resolves, run⟩ := (@runs_bind _ _ _ _ inferInstance
    (fun found => by cases found <;> infer_instance) _ _ _).1 run
  obtain ⟨progress, tokens, bound, global⟩ := resolve_spec resolves sound
  cases found with
  | some a =>
    obtain ⟨rfl, rfl, -⟩ := runs_pure.1 run
    obtain ⟨isBound, leads⟩ := bound a rfl
    exact ⟨progress, tokens, fun _ => isBound, leads⟩
  | none =>
    obtain ⟨unknown, missing⟩ := global rfl
    rw [runs_bind] at run
    obtain ⟨index, s₂, makes, run⟩ := run
    obtain ⟨rfl, rfl, -⟩ := runs_pure.1 run
    obtain ⟨progress', tokens', named⟩ := stringConstant_spec makes progress.sound
    refine ⟨progress.trans progress', tokens.trans tokens', fun known => absurd known unknown, ?_⟩
    intro Γ L later
    obtain ⟨hidden, nowhere⟩ := missing Γ L (progress'.future later)
    exact .globalName hidden nowhere (named Γ L later)

/-- The instruction that reads a variable. -/
theorem readVariable_spec {x : String} {u : Unit} (run : Runs (readVariable x) s u s')
    (sound : s.Sound) :
    ∃ place : Access, Progress s s' [place.read] 0 ∧ SameTokens s s' ∧
      (s.Knows x → place.IsBound) ∧ ∀ Γ L, Future s' Γ L → Resolves Γ L x place := by
  unfold readVariable at run
  rw [runs_bind] at run
  obtain ⟨place, s₁, finds, emits⟩ := run
  obtain ⟨progress, tokens, bound, leads⟩ := access_spec finds sound
  obtain ⟨progress', tokens'⟩ := emit_spec emits progress.sound
  exact ⟨place, progress.trans progress', tokens.trans tokens', bound, fun Γ L later =>
    leads Γ L (progress'.future later)⟩

end Lox.Compile
