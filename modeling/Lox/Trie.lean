/-!
# Letter tries

A trie over words, kept as a binary tree: a branch for a letter has the entry of the word that
ends there, the trie of the words that go on from it, and the trie of the words that start with
another letter.  Look-up follows one letter at a time, so its cost is the length of the word and
not the number of words.  `find?_insert` says that an added word has its own entry and that all other
words keep theirs.
-/

namespace Lox

/-- Words with an entry of type `α` each. -/
inductive Trie (α : Type) where
  /-- No words. -/
  | empty
  /-- The words that start with `letter`, `entry` belonging to the word that is `letter` alone and
  `below` holding the rest of the longer ones, beside the words that start otherwise. -/
  | branch (letter : Char) (entry : Option α) (below beside : Trie α)
  deriving Repr

namespace Trie

variable {α : Type}

/-- The trie of a single word; the empty word has no place in a trie. -/
def single (a : α) : List Char → Trie α
  | [] => .empty
  | [c] => .branch c (some a) .empty .empty
  | c :: cs => .branch c none (single a cs) .empty

/-- Adds a word, in the place of an earlier entry for the same word. -/
def insert (a : α) : Trie α → List Char → Trie α
  | t, [] => t
  | .empty, word => single a word
  | .branch letter entry below beside, c :: cs =>
    if c = letter then
      if cs.isEmpty then .branch letter (some a) below beside
      else .branch letter entry (below.insert a cs) beside
    else .branch letter entry below (beside.insert a (c :: cs))

/-- The entry of a word, if the word as a whole was added. -/
def find? : Trie α → List Char → Option α
  | _, [] => none
  | .empty, _ :: _ => none
  | .branch letter entry below beside, c :: cs =>
    if c = letter then
      if cs.isEmpty then entry else below.find? cs
    else beside.find? (c :: cs)

/-- The trie of a list of words, a later entry for a word taking the place of an earlier one. -/
def ofList (words : List (String × α)) : Trie α :=
  words.foldl (fun t w => t.insert w.2 w.1.toList) .empty

@[simp] theorem find?_empty (word : List Char) : (empty : Trie α).find? word = none := by
  cases word <;> rfl

@[simp] theorem find?_nil (t : Trie α) : t.find? [] = none := by
  cases t <;> rfl

theorem find?_single (a : α) {word : List Char} (h : word ≠ []) (other : List Char) :
    (single a word).find? other = if word = other then some a else none := by
  induction word generalizing other with
  | nil => exact absurd rfl h
  | cons c cs ih =>
    cases other with
    | nil => simp
    | cons d ds =>
      cases cs with
      | nil => cases ds <;> simp [single, find?, eq_comm]
      | cons c' cs' =>
        have ih := ih (List.cons_ne_nil c' cs') ds
        cases ds with
        | nil => simp [single, find?]
        | cons d' ds' =>
          simp only [single, find?, List.isEmpty_cons, Bool.false_eq_true, if_false, ih]
          by_cases hc : c = d
          · subst hc
            simp
          · simp [hc, Ne.symm hc]

/-- An added word has its own entry, and all other words keep theirs. -/
theorem find?_insert (a : α) (t : Trie α) {word : List Char} (h : word ≠ []) (other : List Char) :
    (t.insert a word).find? other = if word = other then some a else t.find? other := by
  fun_induction insert a t word generalizing other with
  | case1 t => exact absurd rfl h
  | case2 word hw => simp [find?_single a hw]
  | case3 entry below beside c cs hcs =>
    obtain rfl := List.isEmpty_iff.1 hcs
    match other with
    | [] => simp
    | [d] => by_cases hd : d = c <;> simp [find?, hd, Ne.symm]
    | d :: d' :: ds => simp [find?]
  | case4 entry below beside c cs hcs ih =>
    match other with
    | [] => simp
    | d :: ds =>
      have hne : cs ≠ [] := fun h => hcs (List.isEmpty_iff.2 h)
      by_cases hd : d = c
      · subst hd
        cases ds with
        | nil => simp [find?, hne]
        | cons d' ds' => simp [find?, ih hne]
      · simp [find?, hd, Ne.symm hd]
  | case5 letter entry below beside c cs hc ih =>
    match other with
    | [] => simp
    | d :: ds =>
      by_cases hd : d = letter
      · subst hd
        simp [find?, hc]
      · simp [find?, hd, ih (List.cons_ne_nil c cs)]

end Trie

end Lox
