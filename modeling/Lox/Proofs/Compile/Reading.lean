import Lox.Proofs.Compile.Course
import Lox.Proofs.Syntax.Scanning

/-!
# Reading on

No action of the compilation goes back among the tokens (`Onward`): it reads some of those ahead, or
leaves the place as it is.  Before the end of the source there is always a token to read
(`State.Fed`), so whatever starts by reading one brings the end nearer (`Consumes`).  This is what
the loops of the compilation rest on, which turn as long as there is something to read.
-/

namespace Lox.Compile

variable {α β : Type}

/-! ## Tokens up to the end -/

/-- The end of the source is the last of the tokens, and no other. -/
def Terminated : List Token → Prop
  | [] => False
  | [t] => t.kind = .endOfInput
  | t :: t' :: ts => t.kind ≠ .endOfInput ∧ Terminated (t' :: ts)

lemma Terminated.tail {t : Token} {ts : List Token} (h : Terminated (t :: ts)) (more : ts ≠ []) :
    Terminated ts := by
  cases ts with
  | nil => exact absurd rfl more
  | cons t' ts => exact h.2

/-- Nothing follows the end, and only the end. -/
lemma Terminated.atEnd {t : Token} {ts : List Token} (h : Terminated (t :: ts)) :
    t.kind = .endOfInput ↔ ts = [] := by
  cases ts with
  | nil => exact ⟨fun _ => rfl, fun _ => h⟩
  | cons t' ts => exact ⟨fun ends => absurd ends h.1, fun none => nomatch none⟩

lemma terminated_concat {ts : List Token} {last : Token} (ends : last.kind = .endOfInput)
    (others : ∀ t ∈ ts, t.kind ≠ .endOfInput) : Terminated (ts ++ [last]) := by
  induction ts with
  | nil => exact ends
  | cons t ts ih =>
    have rest := ih fun t' there => others t' (List.mem_cons_of_mem _ there)
    have first := others t List.mem_cons_self
    cases ts with
    | nil => exact ⟨first, rest⟩
    | cons t' ts => exact ⟨first, rest⟩

/-- The tokens ahead lead up to the end of the source. -/
structure State.Fed (s : State) : Prop where
  previous : s.previous.Spelled
  ahead : ∀ t ∈ s.current :: s.rest, t.Spelled
  ends : Terminated (s.current :: s.rest)
  budget : s.rest.length < s.budget

/-! ## Settling -/

/-- A complaint leaves the tokens and the faults alone. -/
structure SamePlace (s s' : State) : Prop where
  previous : s'.previous = s.previous := by rfl
  current : s'.current = s.current := by rfl
  rest : s'.rest = s.rest := by rfl
  budget : s'.budget = s.budget := by rfl

lemma State.samePlace_complainOf (s : State) (token : Token) (complaint : Complaint) :
    SamePlace s (s.complainOf token complaint) := by
  unfold complainOf
  split <;> exact {}

lemma SamePlace.fed {s s' : State} (h : SamePlace s s') (fed : s.Fed) : s'.Fed where
  previous := h.previous ▸ fed.previous
  ahead := by
    rw [h.current, h.rest]
    exact fed.ahead
  ends := by
    rw [h.current, h.rest]
    exact fed.ends
  budget := by
    rw [h.rest, h.budget]
    exact fed.budget

/-- Settling on a token reads at least one. -/
lemma State.length_settle (t : Token) (ts : List Token) (s : State) :
    (s.settle (t :: ts)).rest.length ≤ ts.length := by
  induction ts generalizing t s with
  | nil =>
    unfold settle
    split
    · next fault _ =>
      have same := State.samePlace_complainOf { s with rest := [] } t (.lexical fault)
      show (State.complainOf _ _ _).rest.length ≤ 0
      rw [same.rest]
      exact Nat.le_refl _
    · exact Nat.le_refl _
  | cons t' ts ih =>
    unfold settle
    split
    · exact Nat.le_succ_of_le (ih t' _)
    · exact Nat.le_refl _

/-- Settling goes no further than the end of the source. -/
lemma State.settle_spec (ts : List Token) :
    ∀ s : State, Terminated ts → (∀ t ∈ ts, t.Spelled) →
      Terminated ((s.settle ts).current :: (s.settle ts).rest) ∧
        (∀ t ∈ (s.settle ts).current :: (s.settle ts).rest, t.Spelled) ∧
        (s.settle ts).previous = s.previous ∧ (s.settle ts).budget = s.budget := by
  induction ts with
  | nil => exact fun _ ends => ends.elim
  | cons t ts ih =>
    intro s ends spelled
    unfold settle
    split
    · next fault kind =>
      have more : ts ≠ [] := by
        intro none
        have final := ends.atEnd.2 none
        rw [kind] at final
        exact nomatch final
      have same := State.samePlace_complainOf { s with rest := ts } t (.lexical fault)
      obtain ⟨ends', spelled', previous, budget⟩ :=
        ih (({ s with rest := ts } : State).complainOf t (.lexical fault)) (ends.tail more)
          fun t' there => spelled t' (List.mem_cons_of_mem _ there)
      exact ⟨ends', spelled', previous.trans same.previous, budget.trans same.budget⟩
    · exact ⟨ends, spelled, rfl, rfl⟩

/-! ## Onward -/

/-- A later state: tokens have been read, or the place is the same. -/
structure Onward (s s' : State) : Prop where
  place : s'.rest.length < s.rest.length ∨ s'.rest = s.rest ∧ s'.current = s.current
  budget : s'.budget = s.budget
  fed : s.Fed → s'.Fed

lemma Onward.le {s s' : State} (h : Onward s s') : s'.rest.length ≤ s.rest.length := by
  rcases h.place with less | ⟨same, -⟩
  · exact Nat.le_of_lt less
  · exact Nat.le_of_eq (congrArg List.length same)

lemma Onward.trans {s s' s'' : State} (h : Onward s s') (h' : Onward s' s'') : Onward s s'' where
  place := by
    rcases h.place with less | ⟨rest, current⟩
    · exact .inl (Nat.lt_of_le_of_lt h'.le less)
    · rw [← rest, ← current]
      exact h'.place
  budget := h'.budget.trans h.budget
  fed := h'.fed ∘ h.fed

lemma SamePlace.onward {s s' : State} (h : SamePlace s s') : Onward s s' :=
  ⟨.inr ⟨h.rest, h.current⟩, h.budget, h.fed⟩

/-- At the end of the tokens there is nothing to move on to. -/
lemma advance_nil {s : State} (rest : s.rest = []) :
    (advance s).2 = { s with previous := s.current } := by
  show State.settle { s with previous := s.current } s.rest = _
  rw [rest]
  rfl

/-- Before the end of the tokens moving on reads at least one. -/
lemma length_advance {s : State} (more : s.rest ≠ []) :
    (advance s).2.rest.length < s.rest.length := by
  show (State.settle { s with previous := s.current } s.rest).rest.length < _
  cases rest : s.rest with
  | nil => exact absurd rest more
  | cons t ts => exact Nat.lt_succ_of_le (State.length_settle t ts _)

lemma onward_advance (s : State) : Onward s (advance s).2 := by
  by_cases rest : s.rest = []
  · rw [advance_nil rest]
    exact ⟨.inr ⟨rfl, rfl⟩, rfl,
      fun fed => ⟨fed.ahead _ List.mem_cons_self, fed.ahead, fed.ends, fed.budget⟩⟩
  · have less := length_advance rest
    have budget : (advance s).2.budget = s.budget := by
      have all : ∀ (ts : List Token) (s : State), (s.settle ts).budget = s.budget := by
        intro ts
        induction ts with
        | nil => exact fun _ => rfl
        | cons t ts ih =>
          intro s
          unfold State.settle
          split
          · exact (ih _).trans (State.samePlace_complainOf _ _ _).budget
          · rfl
      exact all s.rest { s with previous := s.current }
    refine ⟨.inl less, budget, fun fed => ?_⟩
    obtain ⟨ends, spelled, previous, -⟩ :=
      State.settle_spec s.rest { s with previous := s.current } (fed.ends.tail rest)
        fun t there => fed.ahead t (List.mem_cons_of_mem _ there)
    refine ⟨?_, spelled, ends, ?_⟩
    · show (State.settle _ _).previous.Spelled
      rw [previous]
      exact fed.ahead _ List.mem_cons_self
    · rw [budget]
      exact Nat.lt_trans less fed.budget

/-- No action goes back among the tokens. -/
instance : Calm Onward where
  same h := SamePlace.onward ⟨h.previous, h.current, h.rest, h.budget⟩
  trans := Onward.trans
  complains s token complaint _ := (s.samePlace_complainOf token complaint).onward
  fails _ _ := SamePlace.onward {}
  advances := onward_advance
  calms _ := SamePlace.onward {}

instance : Course Onward := Calm.toCourse

lemma onward (act : Compiling α) [Follows Onward act] (s : State) : Onward s (act s).2 :=
  Follows.step s

/-- Before the end of the source moving on brings it nearer. -/
lemma State.Fed.advance_lt {s : State} (fed : s.Fed) (before : s.current.kind ≠ .endOfInput) :
    (advance s).2.rest.length < s.rest.length :=
  length_advance fun none => before (fed.ends.atEnd.2 none)

/-! ## Consuming -/

/-- Before the end of the source the action reads a token. -/
class Consumes (act : Compiling α) : Prop where
  lt : ∀ s : State, s.Fed → s.current.kind ≠ .endOfInput →
    (act s).2.rest.length < s.rest.length

/-- The actions for nested phrases read tokens. -/
class Level.Consumes (inner : Level) : Prop where
  statement : Compile.Consumes inner.statement
  operators : ∀ p, Compile.Consumes (inner.operators p)
  block : Compile.Consumes inner.block

attribute [instance] Level.Consumes.statement Level.Consumes.operators Level.Consumes.block

instance : Consumes advance := ⟨fun _ fed before => fed.advance_lt before⟩

lemma reads_on (act : Compiling α) [Consumes act] {s : State} (fed : s.Fed)
    (before : s.current.kind ≠ .endOfInput) : (act s).2.rest.length < s.rest.length :=
  Consumes.lt s fed before

/-- What comes before reading a token reads one, too, or leaves the place as it is. -/
lemma consumes_later {act : Compiling α} {f : α → Compiling β} (first : Follows Onward act)
    (later : ∀ a, Follows Onward (f a)) (second : ∀ a, Consumes (f a)) : Consumes (act >>= f) where
  lt s fed before := by
    have on := first.step s
    show ((f (act s).1) (act s).2).2.rest.length < _
    rcases on.place with less | ⟨rest, current⟩
    · exact Nat.lt_of_le_of_lt ((later _).step _).le less
    · rw [← rest]
      exact (second _).lt _ (on.fed fed) (current ▸ before)

instance (act : Compiling α) (f : α → Compiling β) [first : Follows Onward act]
    [later : ∀ a, Follows Onward (f a)] [second : ∀ a, Consumes (f a)] : Consumes (act >>= f) :=
  consumes_later first later second

/-- What comes after reading a token does not put it back. -/
lemma consumes_first {act : Compiling α} {f : α → Compiling β} (first : Consumes act)
    (second : ∀ a, Follows Onward (f a)) : Consumes (act >>= f) :=
  ⟨fun s fed before =>
    Nat.lt_of_le_of_lt ((second (act s).1).step _).le (first.lt s fed before)⟩

instance (act : Compiling α) (f : α → Compiling β) [first : Consumes act]
    [second : ∀ a, Follows Onward (f a)] : Consumes (act >>= f) :=
  consumes_first first second

-- What comes next is looked at just once where it does not depend on the result.
instance (act : Compiling α) (next : Compiling β) [Follows Onward act] [Follows Onward next] [Consumes next] :
    Consumes (act >>= fun _ => next) := inferInstance

instance (act : Compiling α) (next : Compiling β) [Consumes act] [Follows Onward next] :
    Consumes (act >>= fun _ => next) := inferInstance

instance (c : Prop) [Decidable c] (x y : Compiling α) [Consumes x] [Consumes y] :
    Consumes (if c then x else y) := by
  split <;> infer_instance

section Choices

variable {s : State} {kind : TokenKind}

lemma accept_found {f : Bool → Compiling β} (found : s.current.kind = kind) :
    (accept kind >>= f) s = f true (advance s).2 := by
  have reads : accept kind s = (true, (advance s).2) := by
    unfold accept
    show (if decide (s.current.kind = kind) = true then _ else _ : Compiling Bool) s = _
    rw [if_pos (decide_eq_true found)]
    rfl
  show f (accept kind s).1 (accept kind s).2 = _
  rw [reads]

lemma accept_missing {f : Bool → Compiling β} (missing : s.current.kind ≠ kind) :
    (accept kind >>= f) s = f false s := by
  have stays : accept kind s = (false, s) := by
    unfold accept
    show (if decide (s.current.kind = kind) = true then _ else _ : Compiling Bool) s = _
    rw [if_neg (by simpa using missing)]
    rfl
  show f (accept kind s).1 (accept kind s).2 = _
  rw [stays]

lemma expect_found {what : String} (found : s.current.kind = kind) :
    expect kind what s = advance s := by
  unfold expect
  show (if decide (s.current.kind = kind) = true then _ else _ : Compiling Unit) s = _
  rw [if_pos (decide_eq_true found)]

end Choices

/-- A choice by the next token reads it, or reads what the other way reads. -/
lemma consumes_accept {kind : TokenKind} {f : Bool → Compiling β}
    (later : Follows Onward (f true)) (otherwise : Consumes (f false)) :
    Consumes (accept kind >>= f) := by
  refine ⟨fun s fed before => ?_⟩
  by_cases found : s.current.kind = kind
  · rw [accept_found found]
    exact Nat.lt_of_le_of_lt (later.step _).le (fed.advance_lt before)
  · rw [accept_missing found]
    exact otherwise.lt s fed before

end Lox.Compile
