import Lox.Proofs.Syntax.Lexemes

/-!
# Reserved words

A word is looked up by walking a trie of letters to which the reserved words were added one after the
other.  A trie of distinct words has the entry of each of them at the end of its letters and none
anywhere else (`Trie.find?_ofList_iff`), so the order in which they were added makes no difference, and
neither the start of a reserved word nor a longer word is taken for it (`Keyword.kind_along_trie`).
-/

namespace Lox

namespace Trie

variable {α : Type} {words : List (String × α)} {w : List Char} {a : α}

/-- Adding other words leaves what is found for a word as it was. -/
lemma find?_foldl_other (t : Trie α) (proper : ∀ entry ∈ words, entry.1.toList ≠ [])
    (other : ∀ entry ∈ words, entry.1.toList ≠ w) :
    (words.foldl (fun t entry => t.insert entry.2 entry.1.toList) t).find? w = t.find? w := by
  induction words generalizing t with
  | nil => rfl
  | cons entry words ih =>
    obtain ⟨proper₁, proper⟩ := List.forall_mem_cons.1 proper
    obtain ⟨other₁, other⟩ := List.forall_mem_cons.1 other
    rw [List.foldl_cons, ih _ proper other, find?_insert _ _ proper₁, if_neg other₁]

/-- A word that is added once is found. -/
lemma find?_foldl_of_mem (t : Trie α) (proper : ∀ entry ∈ words, entry.1.toList ≠ [])
    (distinct : (words.map Prod.fst).Nodup) {x : String} (there : (x, a) ∈ words) :
    (words.foldl (fun t entry => t.insert entry.2 entry.1.toList) t).find? x.toList = some a := by
  induction words generalizing t with
  | nil => cases there
  | cons entry words ih =>
    obtain ⟨proper₁, properRest⟩ := List.forall_mem_cons.1 proper
    obtain ⟨fresh, distinctRest⟩ := List.nodup_cons.1 distinct
    rw [List.foldl_cons]
    rcases List.mem_cons.1 there with rfl | later
    · -- It is the last one of its letters, since all later words are other ones.
      have other : ∀ entry ∈ words, entry.1.toList ≠ x.toList := by
        intro entry later same
        exact fresh (List.mem_map.2 ⟨entry, later, String.toList_inj.1 same⟩)
      rw [find?_foldl_other _ properRest other, find?_insert _ _ proper₁, if_pos rfl]
    · exact ih _ properRest distinctRest later

/-- In a trie of distinct words exactly these have entries, each its own. -/
lemma find?_ofList_iff (proper : ∀ entry ∈ words, entry.1.toList ≠ [])
    (distinct : (words.map Prod.fst).Nodup) :
    (ofList words).find? w = some a ↔ ∃ x, (x, a) ∈ words ∧ x.toList = w := by
  refine ⟨find?_ofList proper, ?_⟩
  rintro ⟨x, there, rfl⟩
  exact find?_foldl_of_mem .empty proper distinct there

/-- The order in which distinct words are added makes no difference to what is found. -/
lemma find?_ofList_perm {words' : List (String × α)} (order : words.Perm words')
    (proper : ∀ entry ∈ words', entry.1.toList ≠ []) (distinct : (words'.map Prod.fst).Nodup) :
    (ofList words).find? w = (ofList words').find? w := by
  refine Option.ext fun a => ?_
  have proper' : ∀ entry ∈ words, entry.1.toList ≠ [] := fun entry there =>
    proper entry (order.mem_iff.1 there)
  have distinct' : (words.map Prod.fst).Nodup := (order.map Prod.fst).nodup_iff.2 distinct
  rw [find?_ofList_iff proper' distinct', find?_ofList_iff proper distinct]
  simp only [order.mem_iff]

end Trie

namespace Keyword

/-- The kind that is found by walking a trie along the letters of a word. -/
def kindAlong (t : Trie TokenKind) (word : List Char) : TokenKind := (t.find? word).getD .identifier

variable {word : List Char}

lemma entries_proper : ∀ entry ∈ entries, entry.1.toList ≠ [] := by decide

lemma entries_distinct : (entries.map Prod.fst).Nodup := by decide

/-- The kind of a reserved word is that of the whole word and of nothing else. -/
lemma kindOf_eq_iff {entry : String × TokenKind} (there : entry ∈ entries) :
    kindOf word = entry.2 ↔ word = entry.1.toList := by
  refine ⟨fun kind => ?_, fun same => same ▸ (entries_spelled entry there).1⟩
  obtain ⟨⟨other, -⟩, alone, -⟩ := entries_apart entry there
  unfold kindOf at kind
  cases found : trie.find? word with
  | none =>
    rw [found] at kind
    exact absurd kind.symm other
  | some kind' =>
    rw [found] at kind
    obtain ⟨x, there', rfl⟩ := mem_of_find? found
    obtain rfl : x = entry.1 := alone _ there' kind
    rfl

/-- All other words are names. -/
lemma kindOf_eq_identifier_iff :
    kindOf word = .identifier ↔ ∀ entry ∈ entries, word ≠ entry.1.toList := by
  refine ⟨fun name entry there same => ?_, fun free => kindOf_free fun entry there => (free entry there).symm⟩
  obtain ⟨⟨other, -⟩, -⟩ := entries_apart entry there
  exact other (((kindOf_eq_iff there).2 same).symm.trans name)

/-- In whatever order the reserved words were added to a trie, walking it along a word finds the kind of
a reserved word if and only if the word as a whole is that one, and otherwise a name; it is the kind that
the scanner gives to the word. -/
theorem kind_along_trie {added : List (String × TokenKind)} (order : added.Perm entries)
    (word : List Char) :
    (∀ entry ∈ entries, kindAlong (.ofList added) word = entry.2 ↔ word = entry.1.toList) ∧
      (kindAlong (.ofList added) word = .identifier ↔ ∀ entry ∈ entries, word ≠ entry.1.toList) ∧
      kindOf word = kindAlong (.ofList added) word := by
  have same : kindOf word = kindAlong (.ofList added) word :=
    (congrArg (·.getD .identifier) (Trie.find?_ofList_perm order entries_proper entries_distinct)).symm
  exact ⟨fun entry there => same ▸ kindOf_eq_iff there, same ▸ kindOf_eq_identifier_iff, same⟩

/-- Added the other way round, `for` and `fun` share their first letter with `false`; a start of them and
a longer word are names. -/
theorem kind_along_trie_shared :
    entries.reverse.Perm entries ∧
      kindAlong (.ofList entries.reverse) "fun".toList = .kwFun ∧
      kindAlong (.ofList entries.reverse) "fu".toList = .identifier ∧
      kindAlong (.ofList entries.reverse) "forfor".toList = .identifier := by
  have order : entries.reverse.Perm entries := List.reverse_perm entries
  refine ⟨order, ?_, ?_, ?_⟩
  · exact ((kind_along_trie order "fun".toList).1 ("fun", .kwFun) (by decide)).2 rfl
  · exact (kind_along_trie order "fu".toList).2.1.2 (by decide)
  · exact (kind_along_trie order "forfor".toList).2.1.2 (by decide)

end Keyword

end Lox
