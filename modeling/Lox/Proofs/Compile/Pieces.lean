import Lox.Proofs.Compile.Typing

/-!
# Pieces of code

Most instructions of a function stand on their own.  Two kinds of code are executed in one go: the look-up
of a method of a superclass, and the declaration of a class, which has neither calls nor jumps in it.
So the code of a function is a row of pieces (`Pieced`), and no jump leads into the middle of one.

The hidden local of a superclass is seen by no other piece than the declaration of its class.
-/

namespace Lox

/-- A jump leads to an offset, where `next` is the one after it. -/
def Instr.Leads (next target : Nat) : Instr → Prop
  | .jump distance | .jumpIfFalse distance => target = next + distance.toNat
  | .loop distance => target + distance.toNat = next
  | _ => False

lemma Instr.Leads.shift {i : Instr} {next target : Nat} (h : i.Leads next target) (k : Nat) :
    i.Leads (k + next) (k + target) := by
  cases i with
  | jump | jumpIfFalse =>
    have target_ : target = next + _ := h
    show k + target = k + next + _
    omega
  | loop =>
    have target_ : target + _ = next := h
    show k + target + _ = k + next
    omega
  | _ => exact h.elim

/-- One of the pieces starts at an offset, or else the last one ends there. -/
def Joint (ps : List (List Item)) (t : Nat) : Prop :=
  ∃ before after, ps = before ++ after ∧ itemsSize before.flatten = t

namespace Compile

open Syntax

/-! ## The code of classes -/

/-- The code of a method: its function, what the closure of it captures, and its name. -/
structure MethodCode where
  function : UInt8
  captures : List Capture
  name : UInt8

/-- A closure is made, and becomes a method of the class below it. -/
def MethodCode.instrs (c : MethodCode) : List Instr := [.closure c.function c.captures, .method c.name]

/-- What the code of a class has to do with a superclass: where that is found, and where the class is found
once more; and whether a method has captured the superclass. -/
structure SuperclassCode where
  parent : Access
  again : Access
  isCaptured : Bool

/-- The code of a class: its name, the global that it becomes unless it is a local variable, its superclass,
where it is found again, and its methods. -/
structure ClassCode where
  name : UInt8
  global? : Option UInt8
  superclass? : Option SuperclassCode
  place : Access
  methods : List MethodCode

namespace ClassCode

/-- The class becomes a global, or else the place on the stack is its variable. -/
def define (d : ClassCode) : List Instr := d.global?.toList.map .defineGlobal

/-- The class is fetched for its methods, and before that it inherits those of its superclass. -/
def inheritance (d : ClassCode) : List Instr :=
  match d.superclass? with
  | none => [d.place.read]
  | some s => [s.parent.read, d.place.read, .inherit, s.again.read]

/-- The superclass leaves the stack. -/
def exit (d : ClassCode) : List Instr :=
  d.superclass?.toList.map fun s => if s.isCaptured then .closeUpvalue else .pop

/-- The instructions of a class. -/
def instrs (d : ClassCode) : List Instr :=
  .makeClass d.name :: (d.define ++ (d.inheritance ++ (d.methods.flatMap MethodCode.instrs ++ .pop :: d.exit)))

end ClassCode

variable {Γ Γ' : Context} {L L' : List Local} {x y : String} {top : Bool} {place : Access}

/-! ## Where classes and superclasses are found -/

/-- None of the locals is hidden. -/
def NoneHidden (L : List Local) : Prop := ∀ v ∈ L, v.name ≠ "super"

lemma NoneHidden.cons {v : Local} (named : v.name ≠ "super") (h : NoneHidden L) : NoneHidden (v :: L) :=
  List.forall_mem_cons.2 ⟨named, h⟩

lemma NoneHidden.missing (h : NoneHidden L) : findLocal? "super" L = none := by
  cases found : findLocal? "super" L with
  | none => rfl
  | some entry =>
    have there := findLocal?_fromBottom found
    rw [fromBottom?] at there
    exact absurd (findLocal?_named found) (h _ (List.mem_reverse.1 (List.mem_of_getElem? there)))

lemma NoneHidden.binds {define : List Instr} (h : NoneHidden L) (binds : Binds Γ L x top define L')
    (proper : x ≠ "super") : NoneHidden L' := by
  cases binds with
  | global => exact h
  | slot named => exact h.cons (named ▸ proper)

/-- The place of the variable that is declared above locals `L`. -/
inductive OwnPlace (Γ : Context) (L : List Local) (x : String) : Bool → Access → Prop where
  | global {index} (constant : Γ.IsName index x) : OwnPlace Γ L x true (.globalName index)
  | slot (fits : L.length < maxOperands) : OwnPlace Γ L x false (.slot (UInt8.ofNat L.length))

/-- The place of another variable. -/
inductive OtherPlace (Γ : Context) (L : List Local) (x : String) : Access → Prop where
  | slot {index} (below : index.toNat < L.length) : OtherPlace Γ L x (.slot index)
  | captured {index} : OtherPlace Γ L x (.captured index)
  | global {index y} (constant : Γ.IsName index y) (other : y ≠ x) : OtherPlace Γ L x (.globalName index)

/-- Locals of other names are passed over. -/
lemma findLocal?_append (hidden L : List Local) (others : ∀ v ∈ hidden, v.name ≠ x) :
    findLocal? x (hidden ++ L) = findLocal? x L := by
  induction hidden with
  | nil => rfl
  | cons v hidden ih =>
    rw [List.cons_append, findLocal?, if_neg (others v List.mem_cons_self)]
    exact ih fun w there => others w (List.mem_cons_of_mem _ there)

/-- At the top only globals have names. -/
lemma missing_at_top (sane : Sane Γ true L) (proper : x ≠ "") : findLocal? x L = none := by
  obtain ⟨-, names⟩ := sane.global rfl
  cases L with
  | nil => rfl
  | cons v outer =>
    obtain ⟨first, rest⟩ := List.cons.inj names
    have named : v.name = "" := first
    rw [findLocal?, if_neg (fun same => proper (same.symm.trans named)), List.map_eq_nil_iff.1 rest]
    rfl

/-- The name of a variable that has just been declared leads to it, also past a hidden local. -/
lemma Resolves.own {define : List Instr} (hidden : List Local) (leads : Resolves Γ (hidden ++ L') x place)
    (binds : Binds Γ L x top define L') (sane : Sane Γ top L) (proper : x ≠ "")
    (others : ∀ v ∈ hidden, v.name ≠ x) : OwnPlace Γ L x top place := by
  have skip := findLocal?_append hidden L' others
  cases binds with
  | global =>
    rw [missing_at_top sane proper] at skip
    cases leads with
    | slot found => exact nomatch skip.symm.trans found
    | captured _ chain =>
      rw [(sane.global rfl).1] at chain
      cases chain
    | globalName _ _ constant => exact OwnPlace.global constant
  | @slot w named fits =>
    rw [findLocal?_head named] at skip
    cases leads with
    | slot found =>
      obtain ⟨rfl, -⟩ := Prod.mk.inj (Option.some.inj (skip.symm.trans found))
      exact OwnPlace.slot fits
    | captured missing => exact nomatch skip.symm.trans missing
    | globalName missing => exact nomatch skip.symm.trans missing

/-- Another name leads elsewhere. -/
lemma Resolves.other {define : List Instr} (leads : Resolves Γ L' y place)
    (binds : Binds Γ L x top define L') (other : y ≠ x) : OtherPlace Γ L x place := by
  cases leads with
  | slot found fits =>
    refine OtherPlace.slot ?_
    rw [UInt8.toNat_ofNat_of_lt' fits]
    cases binds with
    | global => exact findLocal?_lt found
    | slot named =>
      rw [findLocal?, if_neg (named ▸ other.symm)] at found
      exact findLocal?_lt found
  | captured => exact OtherPlace.captured
  | globalName _ _ constant => exact OtherPlace.global constant other

/-! ## Pieces -/

/-- The instruction makes a closure of a function that is compiled where locals `L` are in scope. -/
inductive MakesClosure (Γ : Context) (L : List Local) : Instr → Prop where
  | intro {index Γ' kind p start items} (inside : Inside Γ' kind Γ L)
      (constant : Γ.constants[index.toNat]? = some (.prototype p)) (compiled : Compiled p Γ' start items) :
      MakesClosure Γ L (.closure index Γ'.captures.toList)

/-- The code of a method is that of a function which is compiled where locals `L` are in scope. -/
structure MakesMethod (Γ : Context) (L : List Local) (c : MethodCode) : Prop where
  makes : MakesClosure Γ L (.closure c.function c.captures)
  named : ∃ x, Γ.IsName c.name x

/-- The code declares a class where locals `L` are in scope. -/
inductive DeclaresClass (Γ : Context) (L : List Local) (d : ClassCode) : Prop where
  | alone {top : Bool} {x : String} {L' : List Local} (binds : Binds Γ L x top d.define L') (noneHidden : NoneHidden L')
      (own : OwnPlace Γ L x top d.place) (nothing : d.superclass? = none)
      (methods : ∀ c ∈ d.methods, MakesMethod Γ L' c)
  | below {top : Bool} {x : String} {L' : List Local} {hidden : Local} {s : SuperclassCode}
      (binds : Binds Γ L x top d.define L') (noneHidden : NoneHidden L')
      (own : OwnPlace Γ L x top d.place) (there : d.superclass? = some s)
      (parent : OtherPlace Γ L x s.parent) (again : OwnPlace Γ L x top s.again)
      (named : hidden.name = "super") (marked : hidden.isCaptured = s.isCaptured)
      (methods : ∀ c ∈ d.methods, MakesMethod Γ (hidden :: L') c)

/-- An instruction that has nothing to do with classes and makes no closure. -/
def Context.Harmless (Γ : Context) : Instr → Prop
  | .makeClass _ | .inherit | .method _ | .getSuper _ | .superInvoke _ _ | .closure _ _ | .jump _
  | .jumpIfFalse _ | .loop _ => False
  | .setUpvalue index => ∃ x, x ≠ "super" ∧ CapturedAs x Γ.captures Γ.around index
  | _ => True

/-- The items of a piece at an offset `o`, where jumps may lead to the places `J`. -/
inductive Piece (Γ : Context) (J : Nat → Prop) (o : Nat) : List Item → Prop where
  | boundary (scope : List String) : Piece Γ J o [.boundary scope]
  | plain {i scope} (harmless : Γ.Harmless i) : Piece Γ J o [.instr i scope]
  | jump {i scope target} (leads : i.Leads (o + i.size) target) (joint : J target) :
      Piece Γ J o [.instr i scope]
  | closure {i scope L} (makes : MakesClosure Γ L i) (noneHidden : NoneHidden L) :
      Piece Γ J o [.instr i scope]
  | superGet {place index m scope} (captured : CapturedAs "super" Γ.captures Γ.around place)
      (constant : Γ.IsName index m) :
      Piece Γ J o [.instr (.getUpvalue place) scope, .instr (.getSuper index) scope]
  | superCall {place index m count scope} (captured : CapturedAs "super" Γ.captures Γ.around place)
      (constant : Γ.IsName index m) :
      Piece Γ J o [.instr (.getUpvalue place) scope, .instr (.superInvoke index count) scope]
  | cls {L : List Local} {d items} (declares : DeclaresClass Γ L d) (code : instrs items = d.instrs) :
      Piece Γ J o (.boundary (namesOf L) :: items)

/-- Pieces in a row. -/
def Laid (Γ : Context) (J : Nat → Prop) : Nat → List (List Item) → Prop
  | _, [] => True
  | o, p :: ps => Piece Γ J o p ∧ Laid Γ J (o + itemsSize p) ps

/-- Items are a row of pieces, and jumps lead from one piece to the start of another one. -/
def Pieced (Γ : Context) (items : List Item) : Prop :=
  ∃ ps, ps.flatten = items ∧ Laid Γ (Joint ps) 0 ps

end Compile

/-- The number of bytes of pieces in a row. -/
lemma size_flatten_append (ps qs : List (List Item)) :
    itemsSize (ps ++ qs).flatten = itemsSize ps.flatten + itemsSize qs.flatten := by
  rw [List.flatten_append, itemsSize, instrs_append, codeSize_append]

namespace Joint

variable {ps qs : List (List Item)} {t : Nat}

lemma append_left (h : Joint ps t) (qs : List (List Item)) : Joint (ps ++ qs) t := by
  obtain ⟨before, after, rfl, place⟩ := h
  exact ⟨before, after ++ qs, List.append_assoc _ _ _, place⟩

lemma append_right (ps : List (List Item)) (h : Joint qs t) :
    Joint (ps ++ qs) (itemsSize ps.flatten + t) := by
  obtain ⟨before, after, rfl, rfl⟩ := h
  exact ⟨ps ++ before, after, (List.append_assoc _ _ _).symm, size_flatten_append ps before⟩

/-- Where the first pieces end, there is a joint. -/
lemma between (ps qs : List (List Item)) (place : itemsSize ps.flatten = t) : Joint (ps ++ qs) t :=
  ⟨ps, qs, rfl, place⟩

lemma start (ps : List (List Item)) : Joint ps 0 := between [] ps rfl

lemma finish (ps : List (List Item)) (place : itemsSize ps.flatten = t) : Joint ps t :=
  ⟨ps, [], (List.append_nil ps).symm, place⟩

end Joint

namespace Compile

open Syntax

variable {Γ Γ' : Context} {L L' : List Local} {J J' : Nat → Prop} {o k : Nat} {p : List Item}
  {ps qs before after : List (List Item)} {items items' : List Item}

/-! ## Rows -/

lemma Piece.shift (h : Piece Γ J o p) (joints : ∀ t, J t → J' (k + t)) : Piece Γ J' (k + o) p := by
  cases h with
  | boundary scope => exact Piece.boundary scope
  | plain harmless => exact Piece.plain harmless
  | jump leads joint =>
    refine Piece.jump ?_ (joints _ joint)
    rw [Nat.add_assoc]
    exact leads.shift k
  | closure makes noneHidden => exact Piece.closure makes noneHidden
  | superGet captured constant => exact Piece.superGet captured constant
  | superCall captured constant => exact Piece.superCall captured constant
  | cls declares code => exact Piece.cls declares code

lemma Laid.shift (h : Laid Γ J o ps) (joints : ∀ t, J t → J' (k + t)) : Laid Γ J' (k + o) ps := by
  induction ps generalizing o with
  | nil => trivial
  | cons p ps ih =>
    refine ⟨h.1.shift joints, ?_⟩
    rw [Nat.add_assoc]
    exact ih h.2

lemma laid_append : Laid Γ J o (ps ++ qs) ↔ Laid Γ J o ps ∧ Laid Γ J (o + itemsSize ps.flatten) qs := by
  induction ps generalizing o with
  | nil => exact (iff_of_eq (true_and _)).symm
  | cons p ps ih =>
    rw [List.cons_append, Laid, Laid, ih, and_assoc, List.flatten_cons, itemsSize, itemsSize, itemsSize,
      instrs_append, codeSize_append, Nat.add_assoc]

/-- A row keeps to itself, wherever it is placed. -/
lemma Laid.place (h : Laid Γ (Joint ps) 0 ps) (before after : List (List Item))
    (same : itemsSize before.flatten = o) :
    Laid Γ (Joint (before ++ (ps ++ after))) o ps := by
  rw [← same]
  exact h.shift fun t joint => (joint.append_left after).append_right before

/-- A piece of a row. -/
lemma Laid.piece (h : Laid Γ J o (before ++ p :: after)) : Piece Γ J (o + itemsSize before.flatten) p :=
  (laid_append.1 h).2.1

namespace Pieced

lemma nil (Γ : Context) : Pieced Γ [] := ⟨[], rfl, trivial⟩

/-- A piece without jumps. -/
lemma single (h : ∀ J o, Piece Γ J o p) : Pieced Γ p :=
  ⟨[p], List.append_nil p, h _ _, trivial⟩

lemma append (first : Pieced Γ items) (second : Pieced Γ items') : Pieced Γ (items ++ items') := by
  obtain ⟨ps, rfl, laid⟩ := first
  obtain ⟨qs, rfl, laid'⟩ := second
  refine ⟨ps ++ qs, List.flatten_append, laid_append.2 ⟨?_, ?_⟩⟩
  · exact laid.place [] _ rfl
  · have placed := laid'.place ps [] (Nat.zero_add _).symm
    rwa [List.append_nil] at placed

lemma boundary (Γ : Context) (scope : List String) : Pieced Γ [.boundary scope] :=
  single fun _ _ => Piece.boundary scope

/-- Harmless instructions are pieces of their own. -/
lemma plain {is : List Instr} (harmless : ∀ i ∈ is, Γ.Harmless i) : Pieced Γ (under L is) := by
  induction is with
  | nil => exact nil Γ
  | cons i is ih =>
    have first : Pieced Γ (under L [i]) := single fun _ _ => Piece.plain (harmless i List.mem_cons_self)
    exact first.append (ih fun j there => harmless j (List.mem_cons_of_mem _ there))

lemma one {i : Instr} (harmless : Γ.Harmless i) : Pieced Γ (under L [i]) :=
  plain fun j there => by rw [List.mem_singleton.1 there]; exact harmless

lemma framed (h : Pieced Γ items) : Pieced Γ (framed L items L') :=
  (boundary Γ _).append (h.append (boundary Γ _))

/-! ### Jumps -/

section Jumps

variable {distance distance' : UInt16} {scope : List String}

/-- A part that is skipped if the value on top is false. -/
lemma skip (h : Pieced Γ items) (far : distance.toNat = itemsSize items) :
    Pieced Γ (.instr (.jumpIfFalse distance) scope :: items) := by
  obtain ⟨ps, rfl, laid⟩ := h
  refine ⟨[.instr (.jumpIfFalse distance) scope] :: ps, rfl, Piece.jump rfl (Joint.finish _ ?_), ?_⟩
  · rw [far]
    exact codeSize_cons _ _
  · have placed := laid.place [[.instr (.jumpIfFalse distance) scope]] [] rfl
    rwa [List.append_nil] at placed

/-- One of two parts, the second one if the value on top is false. -/
lemma branch (h : Pieced Γ items) (h' : Pieced Γ items') (far : distance.toNat = itemsSize items + 3)
    (far' : distance'.toNat = itemsSize items') :
    Pieced Γ (.instr (.jumpIfFalse distance) scope ::
      (items ++ .instr (.jump distance') scope :: items')) := by
  obtain ⟨ps, rfl, laid⟩ := h
  obtain ⟨qs, rfl, laid'⟩ := h'
  let first : List Item := [.instr (.jumpIfFalse distance) scope]
  let second : List Item := [.instr (.jump distance') scope]
  have whole : first :: (ps ++ second :: qs) = (first :: (ps ++ [second])) ++ qs := by
    rw [List.cons_append, List.append_assoc]
    rfl
  have size : itemsSize (first :: (ps ++ [second])).flatten = 3 + itemsSize ps.flatten + 3 := by
    rw [List.flatten_cons, itemsSize, instrs_append, codeSize_append]
    show 3 + itemsSize (ps ++ [second]).flatten = _
    rw [size_flatten_append, ← Nat.add_assoc]
    rfl
  refine ⟨first :: (ps ++ second :: qs), ?_, Piece.jump rfl ?_, laid_append.2 ⟨?_, Piece.jump rfl ?_, ?_⟩⟩
  · rw [List.flatten_cons, List.flatten_append]
    rfl
  · rw [whole]
    refine Joint.between _ qs ?_
    rw [size, far]
    show _ = 0 + 3 + _
    omega
  · exact laid.place [first] _ rfl
  · refine Joint.finish _ ?_
    rw [whole, size_flatten_append, size, far']
    show _ = 0 + 3 + itemsSize ps.flatten + 3 + itemsSize qs.flatten
    rw [Nat.zero_add]
  · rw [whole]
    have placed := laid'.place (first :: (ps ++ [second])) [] size
    rw [List.append_nil] at placed
    exact placed

end Jumps

/-! ### Loops -/

section Loops

variable {c step : Option (List Instr)} {n : Nat}

lemma size_increment :
    itemsSize (under L (incrementCode c step)) = incrementSize step := by
  cases step with
  | none => rfl
  | some is =>
    simp only [itemsSize, instrs_under, incrementCode, incrementSize, codeSize_append, codeSize_cons,
      codeSize_nil, Instr.size]
    omega

/-- The condition of a loop, from which a jump leads to the end of the loop. -/
lemma condition (cond : ∀ is ∈ c, Pieced Γ (under L is))
    (fits : c.isSome → 1 + incrementSize step + n + 3 ≤ maxDistance) :
    ∃ ps, ps.flatten = under L (conditionCode step n c) ∧ ∀ qs,
      Joint (ps ++ qs) (conditionSize c + incrementSize step + n + 3) → Laid Γ (Joint (ps ++ qs)) 0 ps := by
  cases c with
  | none => exact ⟨[], rfl, fun _ _ => trivial⟩
  | some is =>
    obtain ⟨ps, code, laid⟩ := cond is rfl
    let exit : Instr := .jumpIfFalse (UInt16.ofNat (1 + incrementSize step + n + 3))
    have size : itemsSize ps.flatten = codeSize is := by rw [code, itemsSize, instrs_under]
    refine ⟨ps ++ [[.instr exit (namesOf L)], [.instr .pop (namesOf L)]], ?_, fun qs joint => ?_⟩
    · rw [List.flatten_append, code, conditionCode, under_append]
      rfl
    · refine laid_append.2 ⟨?_, Piece.jump ?_ joint, Piece.plain trivial, trivial⟩
      · rw [List.append_assoc]
        exact laid.place [] _ rfl
      · show _ = 0 + itemsSize ps.flatten + 3 + UInt16.toNat _
        rw [distance_toNat (fits rfl), size, conditionSize]
        omega

/-- The increment of a loop.  The way in jumps over it, and at its end a jump leads back. -/
lemma increment (advance : ∀ is ∈ step, Pieced Γ (under L is))
    (fits : ∀ is ∈ step, conditionSize c + codeSize is + 7 ≤ maxDistance) :
    ∃ ps, ps.flatten = under L (incrementCode c step) ∧ ∀ before after,
      itemsSize before.flatten = conditionSize c →
        Laid Γ (Joint (before ++ (ps ++ after))) (conditionSize c) ps ∧
          (step.isSome → Joint (before ++ (ps ++ after)) (conditionSize c + 3)) := by
  cases step with
  | none => exact ⟨[], rfl, fun _ _ _ => ⟨trivial, fun no => nomatch no⟩⟩
  | some is =>
    obtain ⟨ps, code, laid⟩ := advance is rfl
    have far := fits is rfl
    have size : itemsSize ps.flatten = codeSize is := by rw [code, itemsSize, instrs_under]
    let enter : List Item := [.instr (.jump (UInt16.ofNat (codeSize is + 4))) (namesOf L)]
    let drop : List Item := [.instr .pop (namesOf L)]
    let back : List Item := [.instr (.loop (UInt16.ofNat (conditionSize c + codeSize is + 7))) (namesOf L)]
    have flat : (enter :: (ps ++ [drop, back])).flatten = under L (incrementCode c (some is)) := by
      rw [List.flatten_cons, List.flatten_append, code, incrementCode, under_cons, under_append]
      rfl
    refine ⟨enter :: (ps ++ [drop, back]), flat, fun before after place => ?_⟩
    have opened : before ++ (enter :: (ps ++ [drop, back]) ++ after) =
        (before ++ [enter]) ++ (ps ++ (drop :: back :: after)) := by
      rw [List.append_assoc, List.cons_append, List.append_assoc]
      rfl
    have entered : itemsSize (before ++ [enter]).flatten = conditionSize c + 3 := by
      rw [size_flatten_append]
      exact congrArg (· + 3) place
    refine ⟨⟨Piece.jump rfl ?_, laid_append.2 ⟨?_, Piece.plain trivial, Piece.jump ?_ (Joint.start _), trivial⟩⟩,
      fun _ => ?_⟩
    · rw [← List.append_assoc]
      refine Joint.between _ after ?_
      show _ = _ + 3 + UInt16.toNat _
      rw [size_flatten_append, flat, size_increment, place,
        distance_toNat (show codeSize is + 4 ≤ maxDistance by omega), incrementSize]
      omega
    · rw [opened]
      exact laid.place _ _ entered
    · show 0 + UInt16.toNat _ = conditionSize c + 3 + itemsSize ps.flatten + 1 + 3
      rw [distance_toNat far, size]
      omega
    · rw [opened]
      exact Joint.between _ _ entered

/-- A loop keeps to itself. -/
lemma loop (cond : ∀ is ∈ c, Pieced Γ (under L is)) (advance : ∀ is ∈ step, Pieced Γ (under L is))
    (inner : Pieced Γ items) (fits : LoopFits c step (itemsSize items)) :
    Pieced Γ (loopItems L c step items) := by
  obtain ⟨cs, code, test⟩ := condition cond fits.exit
  obtain ⟨ss, code', next⟩ := increment advance fits.increment
  obtain ⟨ps, rfl, laid⟩ := inner
  let back : List Item := [.instr (.loop (UInt16.ofNat (backDistance c step (itemsSize ps.flatten)))) (namesOf L)]
  have size : itemsSize cs.flatten = conditionSize c := by rw [code, size_condition]
  have size' : itemsSize ss.flatten = incrementSize step := by rw [code', size_increment]
  have leave : Pieced Γ (under L (exitCode c)) := plain fun i there => by
    cases c with
    | none => exact nomatch there
    | some => rw [List.mem_singleton.1 there]; trivial
  obtain ⟨xs, code'', exit⟩ := leave
  have whole : cs ++ (ss ++ (ps ++ back :: xs)) = (cs ++ ss ++ (ps ++ [back])) ++ xs := by
    simp only [List.append_assoc, List.cons_append, List.nil_append]
  have turned : itemsSize (cs ++ ss).flatten = conditionSize c + incrementSize step := by
    rw [size_flatten_append, size, size']
  have ended : itemsSize (cs ++ ss ++ (ps ++ [back])).flatten =
      conditionSize c + incrementSize step + itemsSize ps.flatten + 3 := by
    rw [size_flatten_append, turned, size_flatten_append, ← Nat.add_assoc]
    rfl
  have out := Joint.between _ xs ended
  rw [← whole] at out
  obtain ⟨steps, again⟩ := next cs (ps ++ back :: xs) size
  refine ⟨cs ++ (ss ++ (ps ++ back :: xs)), ?_, laid_append.2 ⟨test _ out, ?_⟩⟩
  · rw [List.flatten_append, List.flatten_append, List.flatten_append, List.flatten_cons, code, code', code'',
      loopItems, under_append, List.append_assoc, under_cons]
    rfl
  rw [Nat.zero_add, size]
  refine laid_append.2 ⟨steps, ?_⟩
  rw [size']
  refine laid_append.2 ⟨?_, ?_⟩
  · rw [← List.append_assoc]
    exact laid.place _ _ turned
  refine ⟨?_, ?_⟩
  · have far := distance_toNat fits.back
    cases step with
    | none =>
      refine Piece.jump ?_ (Joint.start _)
      show 0 + UInt16.toNat _ = conditionSize c + 0 + itemsSize ps.flatten + 3
      rw [far, backDistance]
      omega
    | some is =>
      refine Piece.jump ?_ (again rfl)
      show conditionSize c + 3 + UInt16.toNat _ = conditionSize c + (codeSize is + 7) + itemsSize ps.flatten + 3
      rw [far, backDistance]
      omega
  · rw [whole]
    have placed := exit.place _ [] ended
    rw [List.append_nil] at placed
    exact placed

end Loops

end Pieced

end Compile

namespace Syntax

open Compile

variable {Γ Γ' : Context} {L L' : List Local} {items : List Item} {x : String} {place : Access}

/-! ## Expressions -/

lemma read_harmless (place : Access) : Γ.Harmless place.read := by cases place <;> trivial

/-- A variable that a program can name is not the hidden one. -/
lemma write_harmless (leads : Resolves Γ L x place) (proper : x ≠ "super") : Γ.Harmless place.write := by
  cases leads with
  | captured _ chain => exact ⟨x, proper, chain⟩
  | slot | globalName => trivial

lemma literal_harmless {kind : TokenKind} {i : Instr} (word : leading? kind = some (.literal i)) :
    Γ.Harmless i := by
  cases kind <;> cases word <;> trivial

lemma unary_harmless {op : TokenKind} {i : Instr} (word : leading? op = some (.unary i)) : Γ.Harmless i := by
  cases op <;> cases word <;> trivial

lemma binary_harmless {op : TokenKind} {p : Precedence} {is : List Instr}
    (word : trailing? op = some (p, .binary is)) : ∀ i ∈ is, Γ.Harmless i := by
  cases op <;> cases word <;>
    repeat' first | exact List.forall_mem_nil _ | refine List.forall_mem_cons.2 ⟨trivial, ?_⟩

/-- The hidden local is captured where it is used. -/
lemma super_captured (leads : Resolves Γ L "super" place) (bound : place.IsBound) (noneHidden : NoneHidden L) :
    ∃ index, place = .captured index ∧ CapturedAs "super" Γ.captures Γ.around index := by
  cases leads with
  | slot found => exact nomatch noneHidden.missing.symm.trans found
  | captured _ chain => exact ⟨_, rfl, chain⟩
  | globalName => exact bound.elim

/-- The code of an expression is a row of pieces. -/
theorem Expr.Emits.pieced {s : ExprSort} {e : Expr s} {code : List Instr} (h : e.Emits Γ L code)
    (proper : e.Proper) (noneHidden : NoneHidden L) : Pieced Γ (under L code) := by
  induction h with
  | number | string => exact Pieced.one trivial
  | literal word => exact Pieced.one (literal_harmless word)
  | name | this => exact Pieced.one (read_harmless _)
  | assign _ leads ih =>
    rw [under_append]
    exact (ih proper.2).append (Pieced.one (write_harmless leads proper.1.2.2))
  | @superGet m index receiver _ constant _ leads bound =>
    obtain ⟨captured, rfl, chain⟩ := super_captured leads bound noneHidden
    have receiver_ : Pieced Γ (under L [receiver.read]) := Pieced.one (read_harmless _)
    exact receiver_.append (Pieced.single fun _ _ => Piece.superGet chain constant)
  | @superCall m args index receiver _ code constant _ _ leads bound _ ih =>
    obtain ⟨captured, rfl, chain⟩ := super_captured leads bound noneHidden
    have receiver_ : Pieced Γ (under L [receiver.read]) := Pieced.one (read_harmless _)
    rw [under_cons, under_append]
    exact receiver_.append ((ih proper).append (Pieced.single fun _ _ => Piece.superCall chain constant))
  | grouping _ ih => exact ih proper
  | unary word _ ih =>
    rw [under_append]
    exact (ih proper).append (Pieced.one (unary_harmless word))
  | binary word _ _ ih ih' =>
    rw [under_append, under_append]
    exact (ih proper.1).append ((ih' proper.2).append (Pieced.plain (binary_harmless word)))
  | @and l left r right _ _ fits ih ih' =>
    have dropped : Pieced Γ (under L (.pop :: right)) :=
      Pieced.append (Pieced.one (L := L) (i := .pop) trivial) (ih' proper.2)
    rw [under_append, under_cons]
    refine (ih proper.1).append (dropped.skip ?_)
    rw [distance_toNat fits, itemsSize, instrs_under, codeSize_cons, Instr.size, Nat.add_comm]
  | @or l left r right _ _ fits ih ih' =>
    have dropped : Pieced Γ (under L (.pop :: right)) :=
      Pieced.append (Pieced.one (L := L) (i := .pop) trivial) (ih' proper.2)
    rw [under_append, under_cons, under_cons]
    refine (ih proper.1).append (Pieced.branch (Pieced.nil Γ) dropped rfl ?_)
    rw [distance_toNat fits, itemsSize, instrs_under, codeSize_cons, Instr.size, Nat.add_comm]
  | call _ _ _ ih ih' =>
    rw [under_append, under_append]
    exact (ih proper.1).append ((ih' proper.2).append (Pieced.one trivial))
  | get _ _ ih =>
    rw [under_append]
    exact (ih proper).append (Pieced.one trivial)
  | set _ _ _ ih ih' =>
    rw [under_append, under_append]
    exact (ih proper.1).append ((ih' proper.2).append (Pieced.one trivial))
  | invoke _ _ _ _ ih ih' =>
    rw [under_append, under_append]
    exact (ih proper.1).append ((ih' proper.2).append (Pieced.one trivial))
  | noArguments => exact Pieced.nil Γ
  | someArguments _ ih | lastArgument _ ih => exact ih proper
  | argument _ _ ih ih' =>
    rw [under_append]
    exact (ih proper.1).append (ih' proper.2)

lemma clause_pieced {c : Option (Expr .expression)} {code : Option (List Instr)}
    (h : ClauseEmits Γ L c code) (proper : ClauseProper c) (noneHidden : NoneHidden L) :
    ∀ is ∈ code, Pieced Γ (under L is) := by
  intro is there
  cases h with
  | none => cases there
  | some inner =>
    obtain rfl := Option.some.inj there
    exact inner.pieced (proper _ rfl) noneHidden

lemma value_pieced {value : Option (Expr .expression)} {code : List Instr} (h : ValueEmits Γ L value code)
    (proper : ClauseProper value) (noneHidden : NoneHidden L) : Pieced Γ (under L code) := by
  cases h with
  | none => exact Pieced.one trivial
  | some inner => exact inner.pieced (proper _ rfl) noneHidden

lemma initializer_pieced {first : Initializer} {code : List Instr} (h : Initializer.Emits Γ L first code)
    (proper : first.Proper) (noneHidden : NoneHidden L) : Pieced Γ (under L code) := by
  cases h with
  | none => exact Pieced.nil Γ
  | expression inner =>
    rw [under_append]
    exact (inner.pieced proper noneHidden).append (Pieced.one trivial)

/-! ## Statements -/

/-- The variable is a global or else a local. -/
lemma Binds.define_eq {top : Bool} {define : List Instr} (h : Binds Γ L x top define L') :
    ∃ global? : Option UInt8, define = global?.toList.map .defineGlobal := by
  cases h with
  | @global index => exact ⟨some index, rfl⟩
  | slot => exact ⟨none, rfl⟩

lemma binds_pieced {top : Bool} {define : List Instr} (h : Binds Γ L x top define L') :
    Pieced Γ (under L define) := by
  cases h with
  | global => exact Pieced.one trivial
  | slot => exact Pieced.nil Γ

lemma exits_pieced (inner : List Local) : Pieced Γ (under L (exits inner)) := by
  refine Pieced.plain fun i there => ?_
  obtain ⟨v, -, rfl⟩ := List.mem_map.1 there
  split <;> trivial

lemma returns_pieced (kind : BodyKind) : Pieced Γ (under L (returnCode kind)) := by
  refine Pieced.plain ?_
  cases kind <;> exact List.forall_mem_cons.2 ⟨trivial, List.forall_mem_cons.2 ⟨trivial, List.forall_mem_nil _⟩⟩

lemma conditional_pieced {cond : List Instr} {body others : List Item} {n m : Nat}
    (condition : Pieced Γ (under L cond)) (branch : Pieced Γ body) (otherwise : Pieced Γ others)
    (far : n = itemsSize body + 4) (far' : m = itemsSize others + 1)
    (fits : n ≤ maxDistance) (fits' : m ≤ maxDistance) :
    Pieced Γ (under L (cond ++ [.jumpIfFalse (UInt16.ofNat n), .pop]) ++
      (body ++ (under L [.jump (UInt16.ofNat m), .pop] ++ others))) := by
  have drop : Pieced Γ (under L [.pop]) := Pieced.one trivial
  rw [under_append, List.append_assoc]
  refine condition.append (Pieced.branch (drop.append branch) (drop.append otherwise) ?_ ?_)
  · rw [distance_toNat fits, far]
    show itemsSize body + 4 = 1 + itemsSize body + 3
    omega
  · rw [distance_toNat fits', far']
    exact Nat.add_comm _ _

lemma copy_pieced {v w : Local} {body : List Item} (inner : Pieced Γ body) :
    Pieced Γ (copyItems (v :: L) L.length w body) := by
  refine Pieced.append (Pieced.one trivial) (inner.append (Pieced.append (Pieced.plain ?_) (exits_pieced [w])))
  exact List.forall_mem_cons.2 ⟨trivial, List.forall_mem_cons.2 ⟨trivial,
    List.forall_mem_cons.2 ⟨trivial, List.forall_mem_nil _⟩⟩⟩

/-- The code of a phrase is a row of pieces, if it is not that of methods; and a declaration leaves no
hidden local. -/
def Phrase (Γ : Context) (L L' : List Local) (items : List Item) : StmtSort → Prop
  | .methods => ∃ cs : List MethodCode, instrs items = cs.flatMap MethodCode.instrs ∧
      ∀ c ∈ cs, MakesMethod Γ L c
  | _ => NoneHidden L → Pieced Γ items ∧ NoneHidden L'

theorem Stmt.Emits.pieced {top : Bool} {s : StmtSort} {t : Stmt s} (h : t.Emits Γ top L items L')
    (proper : t.Proper) (sane : Sane Γ top L) : Phrase Γ L L' items s := by
  induction h with
  | print inner | expression inner =>
    refine fun noneHidden => ⟨Pieced.framed ?_, noneHidden⟩
    rw [under_append]
    exact (inner.pieced proper noneHidden).append (Pieced.one trivial)
  | retNone => exact fun noneHidden => ⟨Pieced.framed (returns_pieced _), noneHidden⟩
  | retSome _ _ inner =>
    refine fun noneHidden => ⟨Pieced.framed ?_, noneHidden⟩
    rw [under_append]
    exact (inner.pieced (proper _ rfl) noneHidden).append (Pieced.one trivial)
  | ifThen condition _ thenFits ih =>
    refine fun noneHidden => ⟨Pieced.framed ?_, noneHidden⟩
    have none := conditional_pieced (condition.pieced proper.1 noneHidden) (ih proper.2 sane.inner noneHidden).1
      (Pieced.nil _) rfl rfl thenFits (by decide)
    rw [List.append_nil] at none
    exact none
  | ifElse condition _ _ thenFits elseFits ih ih' =>
    refine fun noneHidden => ⟨Pieced.framed ?_, noneHidden⟩
    exact conditional_pieced (condition.pieced proper.1 noneHidden) (ih proper.2.1 sane.inner noneHidden).1
      (ih' proper.2.2 sane.inner noneHidden).1 rfl rfl thenFits elseFits
  | whileLoop condition _ fits ih =>
    refine fun noneHidden => ⟨Pieced.framed (Pieced.loop ?_ (fun _ there => by cases there)
      (ih proper.2 sane.inner noneHidden).1 fits), noneHidden⟩
    rintro is ⟨⟩
    exact condition.pieced proper.1 noneHidden
  | forLoop clause condition advance _ fits ih =>
    obtain ⟨first, second, third, body⟩ := proper
    exact fun noneHidden => ⟨Pieced.framed ((initializer_pieced clause first noneHidden).append
      (Pieced.loop (clause_pieced condition second noneHidden) (clause_pieced advance third noneHidden)
        (ih body sane.inner noneHidden).1 fits)), noneHidden⟩
  | @forVar Γ top L x value start v _ _ _ _ w _ _ clause named copyNamed condition advance _ localsFit
      fits ih =>
    obtain ⟨⟨name, first⟩, second, third, body⟩ := proper
    intro noneHidden
    have declared := noneHidden.cons (v := v) (named ▸ name.2.2)
    have copied := declared.cons (v := w) (copyNamed ▸ name.2.2)
    have turn := copy_pieced (L := L) (v := v) (w := w) (ih body (Sane.cons Γ w _) copied).1
    exact ⟨Pieced.framed ((value_pieced clause first noneHidden).append
      ((Pieced.loop (clause_pieced condition second declared) (clause_pieced advance third declared)
        turn fits).append (exits_pieced [v]))), noneHidden⟩
  | block _ ih =>
    exact fun noneHidden => ⟨Pieced.framed ((ih proper sane.inner noneHidden).1.append (exits_pieced _)),
      noneHidden⟩
  | statement _ ih => exact ih proper sane
  | var inner binds =>
    refine fun noneHidden => ⟨Pieced.framed ?_, noneHidden.binds binds proper.1.2.2⟩
    rw [under_append]
    exact (value_pieced inner proper.2 noneHidden).append (binds_pieced binds)
  | @function Γ top L x params body define L' Γ' start items stop index p binds inside entry inner constant
      assembles =>
    obtain ⟨name, params_, body_⟩ := proper
    intro noneHidden
    have noneHidden' := noneHidden.binds binds name.2.2
    have kind := inside.kind
    have compiled := Compiled.function (by rw [kind]; exact fun same => by cases same)
      (kind.symm ▸ entry) params_ inner body_ assembles
    have made : Pieced Γ (under L [.closure index Γ'.captures.toList]) :=
      Pieced.single fun _ _ => Piece.closure (MakesClosure.intro inside constant compiled) noneHidden'
    exact ⟨Pieced.framed (made.append (binds_pieced binds)), noneHidden'⟩
  | @cls Γ top L x ms index define L' place items constant binds leads inner ih =>
    obtain ⟨name, -, methods⟩ := proper
    intro noneHidden
    have noneHidden' := noneHidden.binds binds name.2.2
    have own := Resolves.own [] leads binds sane name.1 (fun _ there => by cases there)
    obtain ⟨cs, code, makes⟩ := ih methods (sane.binds binds).inner
    obtain ⟨global?, rfl⟩ := binds.define_eq
    let d : ClassCode := ⟨index, global?, none, place, cs⟩
    have code' : instrs (under L (.makeClass index :: global?.toList.map .defineGlobal) ++
        (under L' [place.read] ++ (items ++ under L' [.pop]))) = d.instrs := by
      simp only [instrs_append, instrs_under, code]
      rfl
    have first : Pieced Γ _ := Pieced.single fun _ _ =>
      Piece.cls (DeclaresClass.alone binds noneHidden' own rfl makes) code'
    exact ⟨first.append (Pieced.boundary Γ (namesOf L')), noneHidden'⟩
  | @subclass Γ top L x y ms index define L' parent hidden place again items constant binds other superclass
      named leads leads' localsFit inner ih =>
    obtain ⟨name, -, methods⟩ := proper
    intro noneHidden
    have noneHidden' := noneHidden.binds binds name.2.2
    have apart : ∀ v ∈ [hidden], v.name ≠ x := by
      intro v there same
      rw [List.mem_singleton.1 there, named] at same
      exact name.2.2 same.symm
    have own := Resolves.own [hidden] leads binds sane name.1 apart
    have own' := Resolves.own [hidden] leads' binds sane name.1 apart
    obtain ⟨cs, code, makes⟩ := ih methods (Sane.cons Γ hidden L')
    obtain ⟨global?, rfl⟩ := binds.define_eq
    let d : ClassCode := ⟨index, global?, some ⟨parent, again, hidden.isCaptured⟩, place, cs⟩
    have code' : instrs (under L (.makeClass index :: global?.toList.map .defineGlobal) ++
        (under L' [parent.read] ++ (under (hidden :: L') [place.read, .inherit, again.read] ++
          (items ++ (under (hidden :: L') [.pop] ++ under L' (exits [hidden])))))) = d.instrs := by
      simp only [instrs_append, instrs_under, code]
      rfl
    have first : Pieced Γ _ := Pieced.single fun _ _ =>
      Piece.cls
        (DeclaresClass.below binds noneHidden' own rfl (superclass.other binds other.symm) own' named rfl makes) code'
    exact ⟨first.append (Pieced.boundary Γ (namesOf L')), noneHidden'⟩
  | noDeclarations => exact fun noneHidden => ⟨Pieced.nil _, noneHidden⟩
  | declare first second ih ih' =>
    intro noneHidden
    obtain ⟨here, noneHidden'⟩ := ih proper.1 sane noneHidden
    obtain ⟨others, noneHidden''⟩ := ih' proper.2 (first.shaped proper.1 sane).2 noneHidden'
    exact ⟨here.append others, noneHidden''⟩
  | noMethods => exact ⟨[], rfl, fun _ there => by cases there⟩
  | @method Γ top L x params body ms Γ' start items stop index name p others constant inside entry inner
      entryConstant assembles second ih ih' =>
    obtain ⟨params, body, methods⟩ := proper
    have kind := inside.kind
    have compiled := Compiled.function
      (by rw [kind, methodKind]; split <;> exact fun same => by cases same)
      (kind.symm ▸ entry) params inner body assembles
    obtain ⟨cs, code, makes⟩ := ih' methods sane
    refine ⟨⟨index, Γ'.captures.toList, name⟩ :: cs, ?_, List.forall_mem_cons.2 ⟨⟨.intro inside entryConstant compiled,
      _, constant⟩, makes⟩⟩
    rw [instrs_append, instrs_under, code]
    rfl

end Syntax

namespace Compile

open Syntax

variable {Γ : Context} {p : Prototype} {start : List Local} {items : List Item}

/-! ## Functions -/

/-- A function starts without hidden locals. -/
lemma Compiled.noneHidden (h : Compiled p Γ start items) : NoneHidden start := by
  cases h with
  | script _ _ name =>
    intro v there
    rw [List.mem_singleton.1 there, name]
    decide
  | function _ entry proper =>
    intro v there
    have named : v.name ∈ namesOf start := List.mem_map_of_mem there
    rw [entry, List.mem_append, List.mem_reverse, List.mem_singleton] at named
    rcases named with param | zero
    · exact (proper _ param).2.2
    · rw [zero]
      cases Γ.kind <;> decide

/-- The code of a function is a row of pieces. -/
theorem Compiled.pieced (h : Compiled p Γ start items) : Pieced Γ items := by
  have noneHidden := h.noneHidden
  cases h with
  | script _ around named emits proper =>
    have body := emits.pieced proper ⟨List.cons_ne_nil _ _, fun _ => ⟨around, congrArg (List.cons · []) named⟩⟩
    exact (body noneHidden).1.append (returns_pieced _)
  | function _ entry _ emits proper =>
    have nonempty : start ≠ [] := by
      rintro rfl
      exact List.append_ne_nil_of_right_ne_nil _ (List.cons_ne_nil _ _) entry.symm
    have body := emits.pieced proper ⟨nonempty, fun top => nomatch top⟩
    exact (body noneHidden).1.append (returns_pieced _)

end Compile

end Lox
