import Lox.Compile.Program
import Mathlib.Tactic.Lemma

/-!
# What the scanner finds

The text of a token is one that its kind asks for: a name is no reserved word (`Token.Spelled`), and
a string has both its quotes (`Token.quoted_next`).  The tokens of a source are the next ones at
places of it, and the end of the source is the last of them and no other (`Token.scan_spec`).
-/

namespace Lox

/-! ## Words -/

/-- Only words that were added have entries. -/
lemma Trie.find?_ofList {α : Type} {words : List (String × α)} {w : List Char} {a : α}
    (proper : ∀ entry ∈ words, entry.1.toList ≠ [])
    (found : (Trie.ofList words).find? w = some a) : ∃ x, (x, a) ∈ words ∧ x.toList = w := by
  have all : ∀ (words : List (String × α)) (t : Trie α),
      (∀ entry ∈ words, entry.1.toList ≠ []) →
      (words.foldl (fun t entry => t.insert entry.2 entry.1.toList) t).find? w = some a →
      (∃ x, (x, a) ∈ words ∧ x.toList = w) ∨ t.find? w = some a := by
    intro words
    induction words with
    | nil => exact fun t _ found => .inr found
    | cons entry words ih =>
      intro t proper found
      rcases ih _ (fun e there => proper e (List.mem_cons_of_mem _ there)) found with
        ⟨x, there, same⟩ | inserted
      · exact .inl ⟨x, List.mem_cons_of_mem _ there, same⟩
      · rw [Trie.find?_insert _ _ (proper entry List.mem_cons_self)] at inserted
        split at inserted
        · next same =>
          obtain ⟨x, b⟩ := entry
          obtain rfl := Option.some.inj inserted
          exact .inl ⟨x, List.mem_cons_self, same⟩
        · exact .inr inserted
  rcases all words .empty proper found with there | nothing
  · exact there
  · rw [Trie.find?_empty] at nothing
    exact nomatch nothing

lemma Keyword.mem_of_find? {w : List Char} {kind : TokenKind}
    (found : Keyword.trie.find? w = some kind) :
    ∃ x, (x, kind) ∈ Keyword.entries ∧ x.toList = w :=
  Trie.find?_ofList (by decide) found

/-- The kinds that come from looking a word up. -/
def TokenKind.IsWord (kind : TokenKind) : Prop := kind = .identifier ∨ kind = .kwThis

/-- A word is no string. -/
lemma Keyword.kindOf_ne_string (word : List Char) : Keyword.kindOf word ≠ .string := by
  unfold Keyword.kindOf
  cases found : Keyword.trie.find? word with
  | none => exact TokenKind.noConfusion
  | some kind =>
    obtain ⟨x, there, -⟩ := Keyword.mem_of_find? found
    rintro rfl
    revert there
    simp [Keyword.entries]

lemma not_isWord_singleMark (c : Char) :
    ¬((singleMark? c).getD (.malformed .unexpectedCharacter)).IsWord := by
  unfold singleMark?
  split <;> simp [TokenKind.IsWord]

lemma singleMark_ne_string (c : Char) :
    (singleMark? c).getD (.malformed .unexpectedCharacter) ≠ .string := by
  unfold singleMark?
  split <;> exact TokenKind.noConfusion

lemma not_isWord_extensibleMark {c : Char} {alone extended : TokenKind}
    (h : extensibleMark? c = some (alone, extended)) : ¬alone.IsWord ∧ ¬extended.IsWord := by
  unfold extensibleMark? at h
  split at h <;> simp at h <;> obtain ⟨rfl, rfl⟩ := h <;> simp [TokenKind.IsWord]

lemma extensibleMark_ne_string {c : Char} {alone extended : TokenKind}
    (h : extensibleMark? c = some (alone, extended)) : alone ≠ .string ∧ extended ≠ .string := by
  unfold extensibleMark? at h
  split at h <;> simp at h <;> obtain ⟨rfl, rfl⟩ := h <;> simp

/-- Only what starts like a name is looked up. -/
lemma readLexeme_word {c : Char} {cs : List Char} (word : (readLexeme c cs).1.IsWord) :
    (readLexeme c cs).1 = Keyword.kindOf (c :: (readLexeme c cs).2.1) := by
  unfold readLexeme at word ⊢
  by_cases name : isNameStart c = true
  · rw [if_pos name]
  · rw [if_neg name] at word
    exfalso
    split at word
    · simp [TokenKind.IsWord] at word
    · split at word
      · split at word <;> simp [TokenKind.IsWord] at word
      · split at word
        · next _ _ marks => exact (not_isWord_extensibleMark marks).2 word
        · next marks _ => exact (not_isWord_extensibleMark marks).1 word
        · exact not_isWord_singleMark c word

/-- A string stands between two quotes. -/
lemma readLexeme_string {c : Char} {cs : List Char} (string : (readLexeme c cs).1 = .string) :
    ∃ content, c :: (readLexeme c cs).2.1 = '"' :: (content ++ ['"']) := by
  unfold readLexeme at string ⊢
  split at string
  · exact absurd string (Keyword.kindOf_ne_string _)
  · split at string
    · exact nomatch string
    · next plain digit =>
      rw [if_neg plain, if_neg digit]
      split at string
      · next quote =>
        rw [if_pos quote]
        cases rest : cs.dropWhile (· ≠ '"') with
        | nil =>
          rw [rest] at string
          exact nomatch string
        | cons c' rest' =>
          have closing : c' = '"' := by
            have stops := List.head?_dropWhile_not (fun x => decide (x ≠ '"')) cs
            rw [rest] at stops
            simpa using stops
          exact ⟨cs.takeWhile (· ≠ '"'), by rw [quote, closing]⟩
      · split at string
        · next _ _ marks => exact absurd string (extensibleMark_ne_string marks).2
        · next marks _ => exact absurd string (extensibleMark_ne_string marks).1
        · exact absurd string (singleMark_ne_string c)

/-- Text between quotes can be freed from them. -/
lemma isQuoted_quoted (content : List Char) :
    Compile.isQuoted (String.ofList ('"' :: (content ++ ['"']))) = true := by
  have last : ('"' :: (content ++ ['"'])).getLast? = some '"' := by
    rw [← List.cons_append]
    exact List.getLast?_concat
  have length : 2 ≤ ('"' :: (content ++ ['"'])).length := by
    rw [List.length_cons, List.length_append]
    exact Nat.succ_le_succ (Nat.le_add_left _ _)
  unfold Compile.isQuoted
  dsimp only
  rw [String.toList_ofList, last, decide_eq_true length]
  rfl

/-! ## Tokens -/

/-- The text of a token is one that the scanner finds for its kind. -/
structure Token.Spelled (t : Token) : Prop where
  name : t.kind = .identifier → t.lexeme ≠ "" ∧ t.lexeme ≠ "this" ∧ t.lexeme ≠ "super"
  this : t.kind = .kwThis → t.lexeme = "this"
  string : t.kind = .string → Compile.isQuoted t.lexeme = true

lemma Token.spelled_next (place : Cursor) : (Token.next place).1.Spelled := by
  unfold Token.next
  dsimp only
  split
  · exact ⟨fun name => (nomatch name), fun this => (nomatch this), fun string => (nomatch string)⟩
  · next c cs ahead =>
    have word := @readLexeme_word c cs
    have quoted := @readLexeme_string c cs
    generalize readLexeme c cs = lexeme at word quoted ⊢
    obtain ⟨kind, more, rest⟩ := lexeme
    dsimp only at word quoted ⊢
    refine ⟨fun name => ?_, fun this => ?_, fun string => ?_⟩
    · dsimp only at name ⊢
      have found := word (Or.inl name)
      rw [name] at found
      have reserved : ∀ x : String, Keyword.kindOf x.toList ≠ .identifier →
          String.ofList (c :: more) ≠ x := by
        intro x other same
        rw [← same, String.toList_ofList] at other
        exact other found.symm
      refine ⟨fun none => ?_, reserved "this" (by decide), reserved "super" (by decide)⟩
      have empty := congrArg String.toList none
      rw [String.toList_ofList] at empty
      exact nomatch empty
    · dsimp only at this ⊢
      have found := word (Or.inr this)
      rw [this, Keyword.kindOf] at found
      cases entry : Keyword.trie.find? (c :: more) with
      | none =>
        rw [entry] at found
        exact nomatch found
      | some kind' =>
        rw [entry] at found
        obtain rfl : TokenKind.kwThis = kind' := found
        obtain ⟨x, there, same⟩ := Keyword.mem_of_find? entry
        have only : x = "this" := by
          simpa [Keyword.entries] using there
        rw [← same, only, String.ofList_toList]
    · obtain ⟨content, all⟩ := quoted string
      rw [all]
      exact isQuoted_quoted content

/-- The tokens of a source are spelled as their kinds say, and the last one is its end, the only
one. -/
lemma Token.scanFrom_spec :
    ∀ (fuel : Nat) (place : Cursor) (found : Array Token), place.ahead.length ≤ fuel →
      ∃ (ts : List Token) (last : Token),
        (Token.scanFrom fuel place found).toList = found.toList ++ (ts ++ [last]) ∧
          last.kind = .endOfInput ∧ (∀ t ∈ ts, t.kind ≠ .endOfInput) ∧
          ∀ t ∈ ts ++ [last], t.Spelled := by
  intro fuel
  induction fuel with
  | zero =>
    intro place found enough
    have next := @Token.length_ahead_next_lt place
    refine ⟨[], (Token.next place).1, Array.toList_push, ?_, fun t there => (nomatch there), ?_⟩
    · by_cases ends : (Token.next place).1.kind = .endOfInput
      · exact ends
      · have nearer := next ends
        omega
    · intro t there
      rw [List.mem_singleton.1 there]
      exact Token.spelled_next place
  | succ fuel ih =>
    intro place found enough
    have spelled := Token.spelled_next place
    have nearer := @Token.length_ahead_next_lt place
    rw [Token.scanFrom]
    generalize Token.next place = next at spelled nearer ⊢
    obtain ⟨token, after⟩ := next
    dsimp only at spelled nearer ⊢
    by_cases ends : token.kind = .endOfInput
    · rw [if_pos ends]
      refine ⟨[], token, Array.toList_push, ends, fun t there => (nomatch there), ?_⟩
      intro t there
      rw [List.mem_singleton.1 there]
      exact spelled
    · rw [if_neg ends]
      have shorter := nearer ends
      obtain ⟨ts, last, all, last_kind, others, spelled'⟩ :=
        ih after (found.push token) (by omega)
      refine ⟨token :: ts, last, ?_, last_kind, ?_, ?_⟩
      · rw [all, Array.toList_push, List.append_assoc]
        rfl
      · intro t there
        rcases List.mem_cons.1 there with rfl | later
        · exact ends
        · exact others t later
      · intro t there
        rcases List.mem_cons.1 there with rfl | later
        · exact spelled
        · exact spelled' t later

theorem Token.scan_spec (source : String) :
    ∃ (ts : List Token) (last : Token), (Token.scan source).toList = ts ++ [last] ∧
      last.kind = .endOfInput ∧ (∀ t ∈ ts, t.kind ≠ .endOfInput) ∧
      ∀ t ∈ ts ++ [last], t.Spelled := by
  obtain ⟨ts, last, all, kind, others, spelled⟩ :=
    Token.scanFrom_spec _ (Cursor.ofString source) #[] (Nat.le_refl _)
  exact ⟨ts, last, all, kind, others, spelled⟩

end Lox
