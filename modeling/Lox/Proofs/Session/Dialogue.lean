import Lox.CommandLine
import Lox.Proofs.Machine.Telling
import Lox.Proofs.Session.Transcripts

/-!
# Dialogues

Without a script the program reads its input line by line and runs each line in one session.  `Lines` says how
an input is cut into lines, which is what reading byte by byte does (`Lines.readLine`), and `Shows` what is written
in answer to them.  A loop that reads and runs is a session with the lines as its sources
(`repeatM_answerLine`), and so is the whole program (`run_answers`).

Errors are written to the same stream as records for those who watch; a session that nobody watches makes no
records (`Session.Unwatched.interpret`), so there are only errors there.
-/

namespace Lox

open Compile

/-! ## Sessions that nobody watches -/

/-- The event is no record for those who watch. -/
def Event.Unrecorded : Event → Prop
  | .recorded _ _ => False
  | _ => True

namespace Session

variable {s : Session}

/-- Nobody watches the session, and its journal has no records. -/
structure Unwatched (s : Session) : Prop where
  quiet : s.verbosity = .quiet
  unrecorded : ∀ e ∈ s.machine.journal, e.Unrecorded

lemma note_quiet (quiet : s.verbosity = .quiet) (level : RecordLevel) (text : String) : s.note level text = s := by
  unfold note
  rw [quiet]
  exact if_neg Bool.false_ne_true

lemma listings_quiet (quiet : s.verbosity = .quiet) (ps : Array Prototype) :
    ps.foldl (fun s p => s.note .debug ("\n" ++ p.listing)) s = s := by
  rw [← Array.foldl_toList]
  induction ps.toList with
  | nil => rfl
  | cons p ps ih => rw [List.foldl_cons, note_quiet quiet, ih]

namespace Unwatched

lemma of_prints (h : s.Unwatched) {m : Machine} (prints : s.machine.Prints m) : Unwatched { s with machine := m } := by
  obtain ⟨lines, told⟩ := prints
  refine ⟨h.quiet, fun e there => ?_⟩
  rw [← Array.mem_toList_iff, told] at there
  rcases List.mem_append.1 there with before | new
  · exact h.unrecorded e (Array.mem_toList_iff.1 before)
  · obtain ⟨line, -, rfl⟩ := List.mem_map.1 new
    trivial

lemma of_journal (h : s.Unwatched) {m : Machine} (same : m.journal = s.machine.journal) :
    Unwatched { s with machine := m } := h.of_prints (.of_same same)

lemma tell (h : s.Unwatched) (lines : List String) : (s.tell lines).Unwatched := by
  refine ⟨h.quiet, ?_⟩
  show ∀ e ∈ (lines.foldl (fun m line => m.note (.reported line)) s.machine).journal, e.Unrecorded
  have all := h.unrecorded
  generalize s.machine = m at all
  induction lines generalizing m with
  | nil => exact all
  | cons line lines ih =>
    refine ih _ fun e there => ?_
    rcases Array.mem_push.1 there with before | rfl
    · exact all e before
    · trivial

/-- Notes for those who watch are not made. -/
lemma note (h : s.Unwatched) (level : RecordLevel) (text : String) : (s.note level text).Unwatched := by
  rwa [note_quiet h.quiet]

lemma load (h : s.Unwatched) (source : String) : (s.load source).2.Unwatched := by
  unfold Session.load
  dsimp only
  generalize compile source s.machine.strings s.machine.nextPrototype = done
  have stringed : Unwatched { s with machine := { s.machine with strings := done.strings } } := h.of_journal rfl
  rw [listings_quiet stringed.quiet]
  cases done.outcome with
  | error diagnostics => exact (stringed.tell _).note _ _
  | ok script =>
    dsimp only
    generalize made : Machine.newClosure _ script #[] = result
    obtain ⟨closure, m⟩ := result
    have before : m.journal = s.machine.journal := by
      rw [← (Prod.mk.inj made).2]
    have silent : Machine.Silent (do Machine.push (.closure closure); Machine.call closure 0) := inferInstance
    have same := silent.journal m
    dsimp only
    generalize (do Machine.push (.closure closure); Machine.call closure 0 : Action Unit) m = called at same ⊢
    cases called <;> exact h.of_journal (same.trans before)

lemma advance (h : s.Unwatched) (fuel : Nat) : (s.advance fuel).2.Unwatched := by
  have untraced : s.verbosity.wants .trace = false := by
    rw [h.quiet]
    rfl
  unfold Session.advance
  rw [untraced]
  exact h.of_prints (s.machine.run_prints fuel)

lemma finish (h : s.Unwatched) (stop : Stop) : (s.finish stop).2.Unwatched := by
  cases stop with
  | finished => exact h.note _ _
  | failed error => exact ((h.note _ _).tell _).of_journal rfl
  | broken defect => exact h.of_journal rfl

/-- A session that nobody watches makes no records. -/
lemma interpret (h : s.Unwatched) (fuel : Nat) (source : String) : (s.interpret fuel source).2.Unwatched := by
  have loaded := h.load source
  unfold Session.interpret
  generalize s.load source = result at loaded
  obtain ⟨_ | _, s₁⟩ := result
  · exact loaded
  · have advanced := loaded.advance fuel
    dsimp only
    generalize s₁.advance fuel = result at advanced
    obtain ⟨_ | stop, s₂⟩ := result
    · exact advanced
    · exact advanced.finish stop

lemma takeJournal (h : s.Unwatched) : s.takeJournal.2.Unwatched :=
  ⟨h.quiet, fun e there => absurd there (Array.not_mem_empty e)⟩

end Unwatched

end Session

namespace CommandLine

/-! ## Lines -/

/-- The bytes are cut after each newline; the last line may have none. -/
inductive Lines : List UInt8 → List (List UInt8) → Prop where
  | none : Lines [] []
  | last {line} (some : line ≠ []) (single : newline ∉ line) : Lines line [line]
  | more {line bytes lines} (single : newline ∉ line) (rest : Lines bytes lines) :
      Lines (line ++ newline :: bytes) ((line ++ [newline]) :: lines)

/-! ## Recorded programs -/

section Recorder

variable {α β : Type} {fuel : Nat} {files : String → Except FileError ByteArray}

lemma bind_apply (act : StateT Scene Option α) (f : α → StateT Scene Option β) (scene : Scene) :
    (act >>= f) scene = (act scene).bind fun (a, scene) => f a scene := rfl

/-- One turn of a loop. -/
lemma repeatM_apply [Nonempty β] (f : α → StateT Scene Option (α ⊕ β)) (a : α) (scene : Scene) :
    repeatM f a scene = (f a scene).bind fun
      | (.inl a, scene) => repeatM f a scene
      | (.inr b, scene) => some (b, scene) := by
  rw [repeatM_eq_of_monadTail, repeatM.body, bind_apply]
  congr 1
  funext ⟨r, scene⟩
  cases r <;> rfl

lemma forM_note (pieces : List Piece) (scene : Scene) :
    (pieces.forM recorder.note : StateT Scene Option PUnit) scene =
      some ((), { scene with written := scene.written ++ pieces }) := by
  induction pieces generalizing scene with
  | nil =>
    rw [Array.appendList_nil]
    rfl
  | cons piece pieces ih =>
    rw [Array.appendList_cons]
    exact ih { scene with written := scene.written.push piece }

/-- What a session has told is written. -/
lemma writeTold_apply (s : Session) (scene : Scene) : writeTold recorder.note s scene =
    some ((takePieces s).2, { scene with written := scene.written ++ (takePieces s).1 }) := by
  show (List.forM _ recorder.note >>= fun _ => pure _ : StateT Scene Option Session) scene = _
  rw [bind_apply, forM_note]
  rfl

/-! ### Reading -/

variable {line bytes : List UInt8}

lemma extendLine_byte (byte : UInt8) (found : Array UInt8) (bytes : List UInt8) (written : Array Piece) :
    (recorder fuel files).extendLine found ⟨byte :: bytes, written⟩ =
      some (if byte = newline then .inr (found.push byte) else .inl (found.push byte), ⟨bytes, written⟩) := rfl

/-- A line is read with its newline. -/
lemma readLine_newline (single : newline ∉ line) (written : Array Piece) :
    (recorder fuel files).readLine ⟨line ++ newline :: bytes, written⟩ =
      some ((line ++ [newline]).toArray, ⟨bytes, written⟩) := by
  have reads : ∀ found, repeatM (recorder fuel files).extendLine found ⟨line ++ newline :: bytes, written⟩ =
      some (found ++ (line ++ [newline]), ⟨bytes, written⟩) := by
    induction line with
    | nil =>
      intro found
      rw [List.nil_append, repeatM_apply, extendLine_byte, if_pos rfl]
      simp
    | cons byte line ih =>
      intro found
      obtain ⟨other, single⟩ := List.ne_and_not_mem_of_not_mem_cons single
      rw [List.cons_append, repeatM_apply, extendLine_byte, if_neg (Ne.symm other)]
      exact (ih single _).trans (by simp)
  rw [System.readLine, reads]
  simp

/-- A line without newline is read up to the end of the input. -/
lemma readLine_last (single : newline ∉ line) (written : Array Piece) :
    (recorder fuel files).readLine ⟨line, written⟩ = some (line.toArray, ⟨[], written⟩) := by
  have reads : ∀ found, repeatM (recorder fuel files).extendLine found ⟨line, written⟩ =
      some (found ++ line, ⟨[], written⟩) := by
    induction line with
    | nil =>
      intro found
      rw [repeatM_apply]
      simp
      rfl
    | cons byte line ih =>
      intro found
      obtain ⟨other, single⟩ := List.ne_and_not_mem_of_not_mem_cons single
      rw [repeatM_apply, extendLine_byte, if_neg (Ne.symm other)]
      exact (ih single _).trans (by simp)
  rw [System.readLine, reads]
  simp

/-- The first line of an input is read, and the others are left. -/
lemma Lines.readLine (fuel : Nat) (files : String → Except FileError ByteArray) {input line : List UInt8}
    {lines : List (List UInt8)} (cut : Lines input (line :: lines)) :
    line ≠ [] ∧ ∃ bytes, Lines bytes lines ∧ ∀ written,
      (recorder fuel files).readLine ⟨input, written⟩ = some (line.toArray, ⟨bytes, written⟩) := by
  cases cut with
  | last some single => exact ⟨some, [], .none, readLine_last single⟩
  | more single rest => exact ⟨by simp, _, rest, readLine_newline single⟩

/-! ### Answering -/

variable {input : List UInt8} {written : Array Piece} {s : Session}

lemma interpret_apply (s : Session) (source : String) (scene : Scene) :
    (recorder fuel files).interpret s source scene =
      match s.interpret fuel source with
      | (some outcome, s) =>
        some ((outcome, (takePieces s).2), { scene with written := scene.written ++ (takePieces s).1 })
      | (none, _) => none := by
  unfold recorder
  dsimp only
  generalize s.interpret fuel source = result
  obtain ⟨_ | outcome, s'⟩ := result
  · rfl
  · dsimp only
    rw [bind_apply, writeTold_apply]
    rfl

lemma write_apply (piece : Piece) (scene : Scene) : (recorder fuel files).write piece scene =
    some ((), { scene with written := scene.written.push piece }) := rfl

/-- What is done once a line is read. -/
lemma answerLine_apply (s : Session) {line : Array UInt8} {bytes : List UInt8}
    (read : ∀ written, (recorder fuel files).readLine ⟨input, written⟩ = some (line, ⟨bytes, written⟩)) :
    (recorder fuel files).answerLine s ⟨input, written⟩ =
      if line.isEmpty then some (.inr 0, ⟨bytes, written ++ [promptPiece, farewell]⟩)
      else match lineText? line with
        | none => some (.inr 0, ⟨bytes, written ++ [promptPiece, unreadableLine]⟩)
        | some source =>
          match s.interpret fuel source with
          | (some _, s) => some (.inl (takePieces s).2, ⟨bytes, written ++ promptPiece :: (takePieces s).1⟩)
          | (none, _) => none := by
  unfold System.answerLine
  rw [bind_apply, write_apply, Option.bind_some]
  dsimp only
  rw [bind_apply, read, Option.bind_some]
  dsimp only
  have two : ∀ piece, written ++ [promptPiece, piece] = (written.push promptPiece).push piece := by simp
  split
  · rw [two]
    rfl
  · cases lineText? line with
    | none =>
      dsimp only
      rw [two]
      rfl
    | some source =>
      dsimp only
      rw [bind_apply, interpret_apply]
      generalize s.interpret fuel source = result
      obtain ⟨_ | outcome, s'⟩ := result
      · rfl
      · dsimp only
        rw [Array.appendList_cons]
        rfl

/-- There is one way only to cut an input. -/
lemma Lines.unique {input : List UInt8} {lines lines' : List (List UInt8)} (cut : Lines input lines)
    (cut' : Lines input lines') : lines = lines' := by
  induction lines generalizing input lines' with
  | nil =>
    cases cut
    cases lines' with
    | nil => rfl
    | cons line lines' =>
      generalize none : ([] : List UInt8) = input at cut'
      cases cut' with
      | last full => exact absurd none.symm full
      | more => simp at none
  | cons line lines ih =>
    cases lines' with
    | nil =>
      cases cut'
      generalize none : ([] : List UInt8) = input at cut
      cases cut with
      | last full => exact absurd none.symm full
      | more => simp at none
    | cons line' lines' =>
      obtain ⟨-, bytes, rest, read⟩ := cut.readLine 0 fun _ => .error .missing
      obtain ⟨-, bytes', rest', read'⟩ := cut'.readLine 0 fun _ => .error .missing
      obtain ⟨same, left⟩ := Prod.mk.inj (Option.some.inj ((read #[]).symm.trans (read' #[])))
      obtain rfl : bytes = bytes' := congrArg Scene.input left
      rw [List.toArray_inj same, ih rest rest']

end Recorder

lemma Lines.exists (input : List UInt8) : ∃ lines, Lines input lines := by
  induction input with
  | nil => exact ⟨[], .none⟩
  | cons byte bytes ih =>
    obtain ⟨lines, cut⟩ := ih
    by_cases ends : byte = newline
    · subst ends
      exact ⟨[newline] :: lines, .more List.not_mem_nil cut⟩
    · have longer : ∀ {line}, newline ∉ line → newline ∉ byte :: line := fun single there =>
        (List.mem_cons.1 there).elim (fun same => ends same.symm) single
      cases cut with
      | none => exact ⟨_, .last (List.cons_ne_nil _ _) (longer List.not_mem_nil)⟩
      | last full single => exact ⟨_, .last (List.cons_ne_nil _ _) (longer single)⟩
      | more single rest => exact ⟨_, .more (longer single) rest⟩

/-! ## Dialogues -/

/-- Lines of text, each with its end. -/
def joinLines (lines : List String) : String := String.join (lines.map (· ++ "\n"))

/-- What is written for the answers to lines: for each a prompt and what is printed and reported. -/
inductive Shows : List (Session.Deed × Session.Answer) → List Piece → Prop where
  | none : Shows [] []
  | more {deed answer told answers written} (out : outText told = joinLines answer.printed)
      (err : errText told = joinLines answer.reported) (rest : Shows answers written) :
      Shows ((deed, answer) :: answers) (promptPiece :: told ++ written)

lemma outText_append (pieces pieces' : List Piece) :
    outText (pieces ++ pieces') = outText pieces ++ outText pieces' := by
  rw [outText, List.filterMap_append, String.join_append]
  rfl

lemma errText_append (pieces pieces' : List Piece) :
    errText (pieces ++ pieces') = errText pieces ++ errText pieces' := by
  rw [errText, List.filterMap_append, String.join_append]
  rfl

/-- Standard output has the prompts and what is printed. -/
lemma Shows.outText {answers : List (Session.Deed × Session.Answer)} {written : List Piece}
    (shows : Shows answers written) :
    outText written = String.join (answers.map fun a => "> " ++ joinLines a.2.printed) := by
  induction shows with
  | none => rfl
  | @more deed answer told answers written out _ _ ih =>
    rw [outText_append, ← List.singleton_append, outText_append, out, ih, List.map_cons, String.join_cons]
    rfl

/-- Standard error has what is reported. -/
lemma Shows.errText {answers : List (Session.Deed × Session.Answer)} {written : List Piece}
    (shows : Shows answers written) :
    errText written = String.join (answers.map fun a => joinLines a.2.reported) := by
  induction shows with
  | none => rfl
  | @more deed answer told answers written _ err _ ih =>
    rw [errText_append, ← List.singleton_append, errText_append, err, ih, List.map_cons, String.join_cons]
    exact congrArg (· ++ _) String.empty_append

/-- What a session has printed is for standard output, and what it has reported for standard error. -/
lemma shows_takePieces {s : Session} (unwatched : s.Unwatched) :
    outText (takePieces s).1 = joinLines (s.machine.journal.toList.filterMap Event.output?) ∧
      errText (takePieces s).1 = joinLines (s.machine.journal.toList.filterMap Event.report?) := by
  have all : ∀ e ∈ s.machine.journal.toList, e.Unrecorded := fun e there =>
    unwatched.unrecorded e (Array.mem_toList_iff.1 there)
  show outText (s.machine.journal.toList.map pieceOf) = _ ∧ errText (s.machine.journal.toList.map pieceOf) = _
  unfold outText errText joinLines
  rw [List.filterMap_map, List.filterMap_map, List.map_filterMap, List.map_filterMap]
  refine ⟨congrArg String.join (List.filterMap_congr fun e _ => ?_),
    congrArg String.join (List.filterMap_congr fun e there => ?_)⟩
  · cases e <;> rfl
  · cases e with
    | recorded => exact (all _ there).elim
    | _ => rfl

section Loop

variable {fuel : Nat} {files : String → Except FileError ByteArray} {input : List UInt8}

/-- The answer to a source, and those to the sources after it. -/
lemma transcript_interpret {s s' : Session} {source : String} {outcome : Option Outcome} (ds : List Session.Deed)
    (result : s.interpret fuel source = (outcome, s')) :
    s.transcript (.interpret fuel source :: ds) =
      (.interpret fuel source, ⟨outcome, s'.machine.journal.toList.filterMap Event.output?,
        s'.machine.journal.toList.filterMap Event.report?⟩) ::
          if outcome.isSome then (takePieces s').2.transcript ds else [] := by
  rw [Session.transcript, Session.answer, Session.perform]
  dsimp only
  rw [result]
  rfl

/-- A line that is text is run, and then come the other lines. -/
lemma repeatM_text {line bytes : List UInt8} {s s' : Session} {source : String} {outcome : Option Outcome}
    (full : line ≠ []) (text : lineText? line.toArray = some source)
    (read : ∀ written, (recorder fuel files).readLine ⟨input, written⟩ = some (line.toArray, ⟨bytes, written⟩))
    (result : s.interpret fuel source = (outcome, s')) (written : Array Piece) :
    repeatM (recorder fuel files).answerLine s ⟨input, written⟩ = outcome.bind fun _ =>
      repeatM (recorder fuel files).answerLine (takePieces s').2
        ⟨bytes, written ++ promptPiece :: (takePieces s').1⟩ := by
  have unempty : ¬line.toArray.isEmpty = true := by simpa using full
  rw [repeatM_apply, answerLine_apply s read, if_neg unempty, text]
  dsimp only
  rw [result]
  cases outcome <;> rfl

/-- What is done with lines, the first `sources` of which are text: they are answered one after the other, and
then there is an end. -/
lemma repeatM_answerLine (fuel : Nat) (files : String → Except FileError ByteArray) {lines : List (List UInt8)}
    (cut : Lines input lines) {sources : List String}
    {rest : List (Option String)} (texts : lines.map (fun line => lineText? line.toArray) = sources.map some ++ rest)
    (ends : ∀ t ∈ rest.head?, t = none) {s : Session} (unwatched : s.Unwatched) (written : Array Piece) :
    ((∀ a ∈ s.transcript (sources.map (.interpret fuel)), a.2.outcome.isSome) →
        ∃ shown left, Shows (s.transcript (sources.map (.interpret fuel))) shown ∧
          repeatM (recorder fuel files).answerLine s ⟨input, written⟩ = some (0, ⟨left, written ++
            (shown ++ [promptPiece, if rest.isEmpty then farewell else unreadableLine])⟩)) ∧
      (¬(∀ a ∈ s.transcript (sources.map (.interpret fuel)), a.2.outcome.isSome) →
        repeatM (recorder fuel files).answerLine s ⟨input, written⟩ = none) := by
  -- The induction is on the sources; a line that is not among them ends the loop at once.
  induction sources generalizing s input lines written with
  | nil =>
    refine ⟨fun _ => ?_, fun unanswered => absurd (fun a there => nomatch there) unanswered⟩
    cases lines with
    | nil =>
      obtain rfl : rest = [] := texts.symm
      cases cut
      refine ⟨[], [], .none, ?_⟩
      rw [repeatM_apply, answerLine_apply s (readLine_last List.not_mem_nil), if_pos Array.isEmpty_empty]
      rfl
    | cons line lines =>
      obtain rfl : rest = lineText? line.toArray :: lines.map (fun line => lineText? line.toArray) := texts.symm
      obtain ⟨full, bytes, -, read⟩ := cut.readLine fuel files
      have unempty : ¬line.toArray.isEmpty = true := by simpa using full
      refine ⟨[], bytes, .none, ?_⟩
      rw [repeatM_apply, answerLine_apply s read, if_neg unempty, ends _ rfl]
      rfl
  | cons source sources ih =>
    obtain ⟨line, lines, rfl, text, later⟩ := List.map_eq_cons_iff.1 texts
    obtain ⟨full, bytes, cut', read⟩ := cut.readLine fuel files
    have unwatched' := unwatched.interpret fuel source
    generalize result : s.interpret fuel source = r at unwatched'
    obtain ⟨outcome, s'⟩ := r
    rw [List.map_cons, repeatM_text full text read result, transcript_interpret _ result, List.forall_mem_cons]
    cases outcome with
    | none => exact ⟨fun answered => absurd answered.1 Bool.false_ne_true, fun _ => rfl⟩
    | some outcome =>
      obtain ⟨out, err⟩ := shows_takePieces unwatched'
      obtain ⟨goes, stops⟩ := ih cut' later unwatched'.takeJournal (written ++ promptPiece :: (takePieces s').1)
      rw [Option.bind_some, if_pos Option.isSome_some, and_iff_right Option.isSome_some]
      refine ⟨fun answered => ?_, stops⟩
      obtain ⟨shown, left, shows, ended⟩ := goes answered
      refine ⟨_, left, .more out err shows, ended.trans ?_⟩
      exact congrArg (fun written => some (0, (⟨left, written⟩ : Scene))) (Array.toList_inj.1 (by simp))

end Loop

/-- Texts up to the first that is missing. -/
lemma exists_texts (texts : List (Option String)) :
    ∃ (sources : List String) (rest : List (Option String)),
      texts = sources.map some ++ rest ∧ ∀ t ∈ rest.head?, t = none := by
  induction texts with
  | nil => exact ⟨[], [], rfl, nofun⟩
  | cons text texts ih =>
    cases text with
    | none => exact ⟨[], none :: texts, rfl, fun t head => (Option.some.inj head).symm⟩
    | some source =>
      obtain ⟨sources, rest, rfl, ends⟩ := ih
      exact ⟨source :: sources, rest, rfl, ends⟩

lemma texts_unique {sources sources' : List String} {rest rest' : List (Option String)}
    (same : sources.map some ++ rest = sources'.map some ++ rest') (ends : ∀ t ∈ rest.head?, t = none)
    (ends' : ∀ t ∈ rest'.head?, t = none) : sources = sources' ∧ rest = rest' := by
  induction sources generalizing sources' with
  | nil =>
    cases sources' with
    | nil => exact ⟨rfl, same⟩
    | cons source' sources' =>
      obtain rfl : rest = some source' :: (sources'.map some ++ rest') := same
      exact nomatch ends _ rfl
  | cons source sources ih =>
    cases sources' with
    | nil =>
      obtain rfl : some source :: (sources.map some ++ rest) = rest' := same
      exact nomatch ends' _ rfl
    | cons source' sources' =>
      obtain ⟨first, others⟩ := List.cons.inj same
      obtain ⟨rfl, rfl⟩ := ih others
      exact ⟨congrArg (· :: sources) (Option.some.inj first), rfl⟩

/-- A new session tells nothing, if nobody watches. -/
lemma takePieces_start : takePieces (.start .quiet) = ([], .start .quiet) := rfl

lemma unwatched_start : (Session.start .quiet).Unwatched := ⟨rfl, fun e there => absurd there (Array.not_mem_empty e)⟩

/-- The program without a script, that nobody watches, reads lines: the input is cut after each newline in the one way
there is, and the lines up to the first that is no text are sources for one session.  It comes to an end if all of
them do, and then with exit code zero.  It has written a prompt for each, and what the session printed and reported,
and then one more prompt, and at the end of the input a newline, or else that there is a line that is no text. -/
theorem run_answers (fuel : Nat) (files : String → Except FileError ByteArray) {arguments : List String}
    (plain : parseArguments arguments = some ⟨none, 0⟩) (input : List UInt8) :
    ∃ (lines : List (List UInt8)) (sources : List String) (rest : List (Option String)),
      (∀ other, Lines input other ↔ other = lines) ∧
      lines.map (fun line => lineText? line.toArray) = sources.map some ++ rest ∧ (∀ t ∈ rest.head?, t = none) ∧
      let answers := (Session.start .quiet).transcript (sources.map (.interpret fuel))
      ((record ((recorder fuel files).run arguments) input).isSome ↔ ∀ a ∈ answers, a.2.outcome.isSome) ∧
      ∀ written code, record ((recorder fuel files).run arguments) input = some (written, code) →
        code = 0 ∧ ∃ shown, Shows answers shown ∧
          written = shown ++ [promptPiece, if rest.isEmpty then farewell else unreadableLine] := by
  obtain ⟨lines, cut⟩ := Lines.exists input
  obtain ⟨sources, rest, texts, ends⟩ := exists_texts (lines.map fun line => lineText? line.toArray)
  have program : record ((recorder fuel files).run arguments) input =
      (repeatM (recorder fuel files).answerLine (.start .quiet) ⟨input, #[]⟩).map
        fun ended => (ended.2.written.toList, ended.1) := by
    unfold record System.run
    rw [plain]
    show Option.map _ ((writeTold recorder.note (.start .quiet) >>= _) _) = _
    rw [bind_apply, writeTold_apply, takePieces_start]
    rfl
  obtain ⟨goes, stops⟩ := repeatM_answerLine fuel files cut texts ends unwatched_start #[]
  refine ⟨lines, sources, rest, fun other => ⟨fun cut' => cut'.unique cut, fun same => same ▸ cut⟩, texts, ends, ?_⟩
  rw [program]
  by_cases answered : ∀ a ∈ (Session.start .quiet).transcript (sources.map (.interpret fuel)), a.2.outcome.isSome
  · obtain ⟨shown, left, shows, ended⟩ := goes answered
    rw [ended]
    refine ⟨iff_of_true rfl answered, fun written code result => ?_⟩
    obtain ⟨rfl, rfl⟩ := Prod.mk.inj (Option.some.inj result)
    exact ⟨rfl, shown, shows, by simp⟩
  · rw [stops answered]
    exact ⟨iff_of_false Bool.false_ne_true answered, fun written code result => nomatch result⟩

/-- A line prints, the next one fails, and the last one is a byte that is no text. -/
theorem run_answers_unreadable :
    ∃ written, record ((recorder 20 fun _ => .error .missing).run [])
        ("print 1;\nprint x;\n".toUTF8.toList ++ [0xFF]) = some (written, 0) ∧
      outText written = "> 1\n> > " ∧
      errText written = "Undefined variable 'x'.\n[line 1] in script\n" ++
        "Error reading line: stream did not contain valid UTF-8\n" := by
  let first : List UInt8 := "print 1;".toUTF8.toList
  let second : List UInt8 := "print x;".toUTF8.toList
  have input : "print 1;\nprint x;\n".toUTF8.toList ++ [0xFF] = first ++ newline :: (second ++ newline :: [0xFF]) := by
    decide +kernel
  have cut : Lines (first ++ newline :: (second ++ newline :: [0xFF])) [first ++ [newline], second ++ [newline],
    [0xFF]] :=
    .more (by decide +kernel) (.more (by decide +kernel) (.last (by decide) (by decide)))
  rw [input]
  obtain ⟨lines, sources, rest, cuts, texts, ends, answered, tells⟩ :=
    run_answers 20 (fun _ => .error .missing) (show parseArguments [] = some ⟨none, 0⟩ from rfl) _
  obtain rfl := (cuts _).1 cut
  have decoded : [first ++ [newline], second ++ [newline], [0xFF]].map (fun line => lineText? line.toArray) =
      ["print 1;\n", "print x;\n"].map some ++ [none] := by decide +kernel
  obtain ⟨rfl, rfl⟩ := texts_unique (texts.symm.trans decoded) ends fun t head => (Option.some.inj head).symm
  obtain ⟨⟨written, code⟩, result⟩ := Option.isSome_iff_exists.1 (answered.2 (by decide +kernel))
  obtain ⟨rfl, shown, shows, rfl⟩ := tells written code result
  refine ⟨_, result, ?_, ?_⟩
  · rw [outText_append, shows.outText]
    decide +kernel
  · rw [errText_append, shows.errText]
    decide +kernel

end CommandLine

end Lox
