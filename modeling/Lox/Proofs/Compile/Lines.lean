import Lox.Proofs.Compile.Pools

/-!
# Lines

The code of a body is a row of instructions with their lines, and a function has the line of each
instruction for all its bytes (`Body.lines_chunk`).  The lines go up along the code of every function of
an accepted source and are lines of the source (`compile_lined`).
-/

namespace Lox

open Compile

/-! ## Rows with lines -/

/-- The lines of the bytes of a row of instructions with lines. -/
def byteLines (row : List (Instr × Nat)) : List Nat :=
  row.flatMap fun entry => List.replicate entry.1.size entry.2

lemma byteLines_cons (entry : Instr × Nat) (row : List (Instr × Nat)) :
    byteLines (entry :: row) = List.replicate entry.1.size entry.2 ++ byteLines row :=
  List.flatMap_cons

lemma byteLines_append (row row' : List (Instr × Nat)) :
    byteLines (row ++ row') = byteLines row ++ byteLines row' :=
  List.flatMap_append

lemma length_byteLines (row : List (Instr × Nat)) :
    (byteLines row).length = codeSize (row.map Prod.fst) := by
  induction row with
  | nil => rfl
  | cons entry row ih =>
    rw [byteLines_cons, List.length_append, List.length_replicate, ih, List.map_cons, codeSize_cons]

lemma mem_byteLines {row : List (Instr × Nat)} {line : Nat} (there : line ∈ byteLines row) :
    ∃ entry ∈ row, entry.2 = line := by
  obtain ⟨entry, inside, own⟩ := List.mem_flatMap.1 there
  exact ⟨entry, inside, (List.eq_of_mem_replicate own).symm⟩

lemma sorted_byteLines {row : List (Instr × Nat)} (sorted : (row.map Prod.snd).Pairwise (· ≤ ·)) :
    (byteLines row).Pairwise (· ≤ ·) := by
  induction row with
  | nil => exact .nil
  | cons entry row ih =>
    obtain ⟨first, rest⟩ := List.pairwise_cons.1 sorted
    rw [byteLines_cons]
    refine List.pairwise_append.2 ⟨List.pairwise_replicate_of_refl, ih rest, fun line own line' further => ?_⟩
    obtain ⟨entry', inside, rfl⟩ := mem_byteLines further
    rw [List.eq_of_mem_replicate own]
    exact first _ (List.mem_map_of_mem inside)

/-- All bytes of an instruction have its line. -/
lemma byteLines_at {before after : List (Instr × Nat)} {entry : Instr × Nat} {k : Nat}
    (inside : k < entry.1.size) :
    (byteLines (before ++ entry :: after))[codeSize (before.map Prod.fst) + k]? = some entry.2 := by
  rw [byteLines_append, byteLines_cons, ← length_byteLines, List.getElem?_append_right (Nat.le_add_right _ _),
    Nat.add_sub_cancel_left, List.getElem?_append_left (by rwa [List.length_replicate]),
    List.getElem?_replicate_of_lt inside]

namespace Compile

/-- A finished body has the line of each instruction for all its bytes. -/
lemma Body.lines_chunk (b : Body) : b.chunk.lines.toList = byteLines b.code.toList := by
  have write : ∀ (bs : List UInt8) (line : Nat) (c : Chunk Constant),
      (bs.foldl (fun c byte => c.write byte line) c).lines.toList =
        c.lines.toList ++ List.replicate bs.length line := by
    intro bs line
    induction bs with
    | nil => exact fun c => (List.append_nil _).symm
    | cons byte bs ih =>
      intro c
      rw [List.foldl_cons, ih, Chunk.write, Array.toList_push, List.append_assoc, List.length_cons,
        List.replicate_succ]
      rfl
  have all : ∀ (code : List (Instr × Nat)) (c : Chunk Constant),
      (code.foldl (fun c (entry : Instr × Nat) =>
        entry.1.encode.foldl (fun c byte => c.write byte entry.2) c) c).lines.toList =
          c.lines.toList ++ byteLines code := by
    intro code
    induction code with
    | nil => exact fun c => (List.append_nil _).symm
    | cons entry code ih =>
      intro c
      rw [List.foldl_cons, ih, write, Instr.length_encode, byteLines_cons, List.append_assoc]
  rw [Body.chunk, ← Array.foldl_toList]
  exact all b.code.toList _

end Compile

/-! ## Line tables -/

/-- All bytes of the instruction at an offset have this line. -/
def Prototype.LineAt (p : Prototype) (o : Nat) (i : Instr) (line : Nat) : Prop :=
  ∀ k < i.size, p.chunk.lineAt? (o + k) = some line

/-- The lines of a function: there is one for each byte of its code, all bytes of an instruction have the
same, and they go up from the first line of the source, but not beyond the last. -/
structure Prototype.Lined (last : Nat) (p : Prototype) : Prop where
  size : p.chunk.lines.size = p.chunk.code.size
  whole : ∃ code, Splits p.chunk 0 code ∧ ∀ o i, (o, i) ∈ code → ∃ line, p.LineAt o i line
  sorted : p.chunk.lines.toList.Pairwise (· ≤ ·)
  within : ∀ line ∈ p.chunk.lines, 1 ≤ line ∧ line ≤ last

namespace Compile

/-- A finished function has a table of lines, if nothing was complained of. -/
lemma Finished.lined {T : Moment} {p : Prototype} (h : Finished T p) (quiet : T.quiet = true) :
    p.Lined T.line := by
  obtain ⟨b, tidy, same⟩ := h
  have lines : p.chunk.lines.toList = byteLines b.code.toList := by
    rw [same]
    exact b.lines_chunk
  have code : p.chunk.code.toList = bytes b.instrs := by
    rw [same]
    exact b.code_chunk
  refine ⟨?_, ⟨placed 0 b.instrs, by rw [same]; exact tidy.splits quiet, fun o i there => ?_⟩, ?_, ?_⟩
  · rw [← Array.length_toList, ← Array.length_toList, lines, code, length_byteLines, length_bytes]
    rfl
  · obtain ⟨before, after, split, place⟩ := mem_placed.1 there
    obtain ⟨before', rest, row, rfl, split'⟩ := List.map_eq_append_iff.1 split
    obtain ⟨entry, after', rfl, rfl, rfl⟩ := List.map_eq_cons_iff.1 split'
    refine ⟨entry.2, fun k inside => ?_⟩
    rw [Chunk.lineAt?, ← Array.getElem?_toList, lines, row, place, Nat.zero_add]
    exact byteLines_at inside
  · rw [lines]
    exact sorted_byteLines tidy.sorted
  · intro line there
    rw [← Array.mem_toList_iff, lines] at there
    obtain ⟨entry, inside, rfl⟩ := mem_byteLines there
    exact tidy.lines entry inside

end Compile

/-- Every function of an accepted source has a table of lines of the source. -/
lemma compile_lined {source : String} {strings : StringTable} {serial : Nat} {p q : Prototype}
    (compiles : (compile source strings serial).outcome = .ok p) (inside : Contains p q) :
    q.Lined (lastLine source) := by
  obtain ⟨quiet, same⟩ := compile_ok_iff.1 compiles
  obtain ⟨T, accepted, -, -, bound, finished, -⟩ := compile_finished source strings serial
  rw [same] at finished
  have lined := (finished q inside).lined (accepted.trans quiet)
  exact { lined with within := fun line there =>
    ⟨(lined.within line there).1, Nat.le_trans (lined.within line there).2 bound⟩ }

end Lox
