import Monkey.Repl
import Mathlib.Logic.ExistsUnique

/-!
# The interactive loop, line by line

The loop is a fold over the lines of its input.  A line ends at a line feed, before which a carriage
return may stand, or at the end of the input.  The loop writes a prompt for each line, and the reply
to it after the prompt, and a last prompt where there is no line left; whatever is wrong with a
line, the next one follows.  Only a line that is not text ends the loop, right after its prompt.

## Main definitions

* `LinesOf` — the lines of an input, by what ends each of them.
* `Session.inTurn`, `Session.runAll` — lines that are answered, and sources that are read, one after
  another.
* `prompted` — replies, each after a prompt.
* `Transcript.shown` — what the loop has written, without the prompt that waits for a line.

## Main results

* `linesOf_iff` — an input is split into its lines.
* `transcriptOn_append` — more lines are answered after the others.
* `transcript_reply_eq` — the loop of a session is the loop on the machine that changes the state.
* `transcript_is_fold` — **the loop is a fold over its lines.**
-/

namespace Monkey

/-! ### Lines -/

/-- The bytes consist of the lines, in order. -/
inductive LinesOf : List UInt8 → List (List UInt8) → Prop
  | nil : LinesOf [] []
  /-- The last line may end without a line feed, unless it is empty. -/
  | unended {line : List UInt8} : line ≠ [] → 10 ∉ line → LinesOf line [line]
  | lineFeed {line rest : List UInt8} {lines : List (List UInt8)} :
    10 ∉ line → line.getLast? ≠ some 13 → LinesOf rest lines →
      LinesOf (line ++ 10 :: rest) (line :: lines)
  /-- A carriage return before the line feed does not belong to the line. -/
  | carriageReturn {line rest : List UInt8} {lines : List (List UInt8)} :
    10 ∉ line → LinesOf rest lines → LinesOf (line ++ 13 :: 10 :: rest) (line :: lines)

section

variable {line rest input : List UInt8} {lines : List (List UInt8)}

theorem splitLinesFrom_append (h : 10 ∉ line) (start : List UInt8) :
    splitLinesFrom start (line ++ rest) = splitLinesFrom (line.reverse ++ start) rest := by
  induction line generalizing start with
  | nil => rfl
  | cons b line ih =>
    have hb : b ≠ 10 := (List.ne_of_not_mem_cons h).symm
    have hline : 10 ∉ line := List.not_mem_of_not_mem_cons h
    rw [List.cons_append, splitLinesFrom.eq_3 _ _ _ hb, ih hline, List.reverse_cons,
      List.append_assoc, List.singleton_append]

theorem splitLines_of_not_mem (h : 10 ∉ line) (hne : line ≠ []) : splitLines line = [line] := by
  have hsplit : splitLinesFrom [] (line ++ []) = splitLinesFrom (line.reverse ++ []) [] :=
    splitLinesFrom_append h []
  rw [List.append_nil, List.append_nil] at hsplit
  rw [splitLines, hsplit, splitLinesFrom, List.reverse_reverse]
  simp [hne]

/-- A line feed ends a line, and the other lines follow. -/
theorem splitLines_append_cons (h : 10 ∉ line) :
    splitLines (line ++ 10 :: rest) =
      (dropCarriageReturn line.reverse).reverse :: splitLines rest := by
  rw [splitLines, splitLinesFrom_append h, List.append_nil, splitLinesFrom, splitLines]

theorem dropCarriageReturn_reverse (h : line.getLast? ≠ some 13) :
    dropCarriageReturn line.reverse = line.reverse := by
  rcases List.eq_nil_or_concat line with rfl | ⟨front, b, rfl⟩
  · rfl
  · have hb : b ≠ 13 := by
      rintro rfl
      simp at h
    rw [List.concat_eq_append, List.reverse_concat, dropCarriageReturn.eq_2]
    rintro _ ⟨⟩
    exact hb rfl

theorem LinesOf.splitLines_eq (h : LinesOf input lines) : splitLines input = lines := by
  induction h with
  | nil => rfl
  | unended hne hline => exact splitLines_of_not_mem hline hne
  | lineFeed hline hlast _ ih =>
    rw [splitLines_append_cons hline, dropCarriageReturn_reverse hlast, List.reverse_reverse, ih]
  | @carriageReturn line _ _ hline _ ih =>
    have hline' : 10 ∉ line ++ [13] := by simpa using hline
    rw [List.append_cons, splitLines_append_cons hline', List.reverse_concat, dropCarriageReturn,
      List.reverse_reverse, ih]

theorem exists_linesOf (input : List UInt8) : ∃ lines, LinesOf input lines := by
  induction hn : input.length using Nat.strongRecOn generalizing input with
  | _ n ih =>
    subst hn
    -- up to the first line feed there is one line, and the rest is shorter
    by_cases hmem : 10 ∈ input
    · obtain ⟨line, rest, rfl, hline⟩ := List.eq_append_cons_of_mem hmem
      have hshorter : rest.length < (line ++ 10 :: rest).length := by simp; omega
      obtain ⟨lines, hrest⟩ := ih _ hshorter rest rfl
      by_cases hlast : line.getLast? = some 13
      · obtain ⟨front, rfl⟩ := List.getLast?_eq_some_iff.1 hlast
        rw [List.append_assoc, List.singleton_append]
        exact ⟨_, .carriageReturn (fun hfront => hline (List.mem_append_left _ hfront)) hrest⟩
      · exact ⟨_, .lineFeed hline hlast hrest⟩
    -- no line feed: the input is one line, unless it is empty
    · by_cases hnil : input = []
      · exact ⟨[], hnil ▸ .nil⟩
      · exact ⟨[input], .unended hnil hmem⟩

/-- An input is split into its lines. -/
theorem linesOf_iff : LinesOf input lines ↔ splitLines input = lines := by
  refine ⟨LinesOf.splitLines_eq, ?_⟩
  rintro rfl
  obtain ⟨lines, hlines⟩ := exists_linesOf input
  rwa [hlines.splitLines_eq]

theorem splitLinesFrom_append_cons (front start : List UInt8) :
    splitLinesFrom start (front ++ 10 :: rest) =
      splitLinesFrom start (front ++ [10]) ++ splitLines rest := by
  induction front generalizing start with
  | nil => rfl
  | cons b front ih =>
    by_cases hb : b = 10
    · rw [hb, List.cons_append, List.cons_append, splitLinesFrom, splitLinesFrom, ih,
        List.cons_append]
    · rw [List.cons_append, List.cons_append, splitLinesFrom.eq_3 _ _ _ hb,
        splitLinesFrom.eq_3 _ _ _ hb, ih]

/-- Where something ends with a line feed, its lines do not depend on what follows. -/
theorem splitLines_append (h : input = [] ∨ input.getLast? = some 10) (more : List UInt8) :
    splitLines (input ++ more) = splitLines input ++ splitLines more := by
  rcases h with rfl | h
  · rfl
  · obtain ⟨front, rfl⟩ := List.getLast?_eq_some_iff.1 h
    rw [List.append_assoc, List.singleton_append]
    exact splitLinesFrom_append_cons front []

end

/-! ### One line after another -/

namespace Session

variable {α : Type} (respond : String → Session → Option (α × Session))

/-- Takes lines one after another, and gives what comes of each and the session in the end. -/
def inTurn : List String → Session → Option (List α × Session)
  | [], s => some ([], s)
  | line :: rest, s => do
    let (a, s) ← respond line s
    let (more, s) ← inTurn rest s
    return (a :: more, s)

/-- Reads sources one after another. -/
def runAll (budget : Nat) (sources : List String) (s : Session) :
    Option (List (Except SessionError (Option Value)) × Session) :=
  inTurn (Session.run budget) sources s

variable {respond} {s t : Session}

theorem inTurn_cons (line : String) (rest : List String) :
    inTurn respond (line :: rest) s = (respond line s).bind fun p =>
      (inTurn respond rest p.2).map fun q => (p.1 :: q.1, q.2) := by
  rw [inTurn]
  cases respond line s with
  | none => rfl
  | some p => cases h : inTurn respond rest p.2 <;> simp [h]

/-- What every line keeps up is so in the end. -/
theorem inTurn_induction {P : Session → Prop}
    (hstep : ∀ {line : String} {s t : Session} {a : α}, P s → respond line s = some (a, t) → P t)
    {lines : List String} {answers : List α} (hs : P s)
    (h : inTurn respond lines s = some (answers, t)) : P t := by
  induction lines generalizing s answers with
  | nil =>
    cases h
    exact hs
  | cons line rest ih =>
    rw [inTurn_cons] at h
    obtain ⟨p, hline, h⟩ := Option.bind_eq_some_iff.1 h
    obtain ⟨⟨more, u⟩, hrest, hanswers⟩ := Option.map_eq_some_iff.1 h
    cases hanswers
    exact ih (hstep hs hline) hrest

/-- Where each line is answered alike, so are all of them. -/
theorem inTurn_mono {other : String → Session → Option (α × Session)}
    (hstep : ∀ {line : String} {s : Session} {p : α × Session},
      respond line s = some p → other line s = some p)
    {lines : List String} {q : List α × Session} (h : inTurn respond lines s = some q) :
    inTurn other lines s = some q := by
  induction lines generalizing s q with
  | nil => exact h
  | cons line rest ih =>
    rw [inTurn_cons] at h ⊢
    obtain ⟨p, hline, h⟩ := Option.bind_eq_some_iff.1 h
    obtain ⟨r, hrest, hq⟩ := Option.map_eq_some_iff.1 h
    rw [hstep hline, Option.bind_some, ih hrest, Option.map_some, hq]

end Session

/-- Replies, each after a prompt. -/
def prompted (replies : List String) : String :=
  String.join (replies.map fun text => prompt ++ text)

@[simp] theorem prompted_nil : prompted [] = "" := rfl

@[simp] theorem prompted_cons (text : String) (replies : List String) :
    prompted (text :: replies) = prompt ++ text ++ prompted replies := by
  rw [prompted, List.map_cons, String.join_cons, prompted]

/-- The text without the prompt at its end. -/
def Transcript.shown (t : Transcript) : String :=
  String.ofList (t.text.toList.take (t.text.toList.length - prompt.toList.length))

theorem Transcript.shown_append_prompt (shown : String) (invalidText : Bool) :
    (⟨shown ++ prompt, invalidText⟩ : Transcript).shown = shown := by
  simp [Transcript.shown]

section

universe u

variable {m : Type → Type u} [Monad m] [LawfulMonad m] {respond : String → m String}

/-- What the loop writes for lines of text and whatever follows them. -/
theorem transcriptOn_texts_append (texts : List String) (rest : List (Option String)) :
    transcriptOn respond (texts.map some ++ rest) = do
      let replies ← texts.mapM respond
      let more ← transcriptOn respond rest
      return { more with text := prompted replies ++ more.text } := by
  induction texts with
  | nil => simp
  | cons line texts ih =>
    rw [List.map_cons, List.cons_append, transcriptOn, ih]
    simp [List.mapM_cons, String.append_assoc]

/-- Lines are all text, or one of them is the first that is not. -/
theorem texts_or_invalid (lines : List (Option String)) :
    ∃ texts : List String, lines = texts.map some ∨
      ∃ after, lines = texts.map some ++ none :: after := by
  induction lines with
  | nil => exact ⟨[], Or.inl rfl⟩
  | cons line rest ih =>
    cases line with
    | none => exact ⟨[], Or.inr ⟨rest, rfl⟩⟩
    | some text =>
      obtain ⟨texts, rfl | ⟨after, rfl⟩⟩ := ih
      · exact ⟨text :: texts, Or.inl rfl⟩
      · exact ⟨text :: texts, Or.inr ⟨after, rfl⟩⟩

/-- What the loop writes where there is no line left. -/
theorem transcriptOn_texts (texts : List String) :
    transcriptOn respond (texts.map some) = do
      let replies ← texts.mapM respond
      return ⟨prompted replies ++ prompt, false⟩ := by
  rw [← List.append_nil (texts.map some), transcriptOn_texts_append]
  simp [transcriptOn]

/-- What the loop writes up to a line that is not text. -/
theorem transcriptOn_invalid (texts : List String) (after : List (Option String)) :
    transcriptOn respond (texts.map some ++ none :: after) = do
      let replies ← texts.mapM respond
      return ⟨prompted replies ++ prompt, true⟩ := by
  rw [transcriptOn_texts_append]
  simp [transcriptOn]

/-- More lines are answered after the others, unless the loop has ended at one that is not text. -/
theorem transcriptOn_append (first second : List (Option String)) :
    transcriptOn respond (first ++ second) = do
      let written ← transcriptOn respond first
      if written.invalidText then return written
      else
        let more ← transcriptOn respond second
        return { more with text := written.shown ++ more.text } := by
  obtain ⟨texts, rfl | ⟨after, rfl⟩⟩ := texts_or_invalid first
  · rw [transcriptOn_texts, transcriptOn_texts_append]
    simp [Transcript.shown_append_prompt]
  · rw [List.append_assoc, List.cons_append, transcriptOn_invalid, transcriptOn_invalid]
    simp

/-- Replies that are put into words one by one. -/
theorem mapM_bind_pure {α β γ : Type} (f : β → γ) (read : α → m β) (lines : List α) :
    lines.mapM (fun line => do return f (← read line)) = do
      let replies ← lines.mapM read
      return replies.map f := by
  induction lines with
  | nil => simp
  | cons line rest ih =>
    rw [List.mapM_cons, ih]
    simp [List.mapM_cons]

/-- The loop of a session is the loop on the machine that changes the state. -/
theorem transcript_reply_eq (budget : Nat) (input : List UInt8) (s : Session) :
    transcript (Session.reply budget) (inputLines input) s =
      (replOn Eval budget s.globals s.macros input s.state).map fun (written, t) =>
        (written, { s with state := t }) := by
  unfold transcript replOn
  generalize inputLines input = lines
  induction lines generalizing s with
  | nil => rfl
  | cons line rest ih =>
    cases line with
    | none => rfl
    | some line =>
      -- what is written for a line and what is left is the same on both sides
      have hreply : s.reply budget line = (evalSource budget s.globals s.macros line s.state).map
          fun r => (renderReply r.1, { s with state := r.2 }) := by
        unfold Session.reply Session.run
        cases evalSource budget s.globals s.macros line s.state <;> rfl
      change (s.reply budget line).bind (fun p => (transcriptOn (m := StateT Session Option)
        (Session.reply budget) rest p.2).bind fun q => some _) = Option.map _
          (Option.bind (Option.bind (evalSource budget s.globals s.macros line s.state) _) _)
      rw [hreply]
      cases evalSource budget s.globals s.macros line s.state with
      | none => rfl
      | some r =>
        rw [Option.map_some, Option.bind_some, ih]
        change _ = Option.map _ (Option.bind (transcriptOn (m := Eval) _ rest r.2) _)
        dsimp only
        cases transcriptOn (m := Eval) _ rest r.2 <;> rfl

/-- **The loop is a fold over its lines**, on every machine, so also where tasks that a line has
started go on while the next lines are read.  Every input has its lines, in one way.  Where they are
text, the loop writes for each of them, in order, a prompt and the reply to what comes of reading
the line, and a last prompt; every line is read, whatever is wrong with those before it.  Where a
line is not text, the loop ends after its prompt, and nothing more is read.  So the loop goes on
with more input as it would begin with it where it has come to, if a line ends where the input is
cut; and the last prompt before the cut is the first one after it.

The reply is the inspected value, or nothing where there is no value, the banner and the parse
errors, or the error of the expansion. -/
theorem transcript_is_fold {m : Type → Type u} [Monad m] [LawfulMonad m] [Machine m]
    (budget globals macros : Nat) :
    let read := evalSourceOn m budget globals macros
    let loop := replOn m budget globals macros
    (∀ input, ∃! lines, LinesOf input lines) ∧
    (∀ input lines (texts : List String), LinesOf input lines →
      lines.map decodeText? = texts.map some →
      loop input = do
        let replies ← texts.mapM read
        return ⟨prompted (replies.map renderReply) ++ prompt, false⟩) ∧
    (∀ input before bad after (texts : List String), LinesOf input (before ++ bad :: after) →
      before.map decodeText? = texts.map some → decodeText? bad = none →
      loop input = do
        let replies ← texts.mapM read
        return ⟨prompted (replies.map renderReply) ++ prompt, true⟩) ∧
    (∀ a b, a = [] ∨ a.getLast? = some 10 →
      loop (a ++ b) = do
        let written ← loop a
        if written.invalidText then return written
        else
          let more ← loop b
          return { more with text := written.shown ++ more.text }) ∧
    (∀ v, renderReply (.ok (some v)) = v.inspect ++ "\n") ∧
    renderReply (.ok none) = "" ∧
    (∀ errors, renderReply (.error (.parse errors)) =
      banner ++
        ("parse errors:\n" ++ String.join (errors.map fun e => "\t" ++ e.message ++ "\n"))) ∧
    ∀ e, renderReply (.error (.expansion e)) = e.message ++ "\n" := by
  intro read loop
  refine ⟨fun input => ?_, fun input lines texts hlines htexts => ?_,
    fun input before bad after texts hlines htexts hbad => ?_, fun a b ha => ?_, fun _ => rfl, rfl,
    fun _ => rfl, fun _ => rfl⟩
  -- the lines are those that the input is split into
  · obtain ⟨lines, hlines⟩ := exists_linesOf input
    refine ⟨lines, hlines, fun others hothers => ?_⟩
    rw [← hlines.splitLines_eq, hothers.splitLines_eq]
  · change replOn m budget globals macros input = _
    rw [replOn, inputLines, hlines.splitLines_eq, htexts, transcriptOn_texts, mapM_bind_pure]
    simp [read]
  · change replOn m budget globals macros input = _
    rw [replOn, inputLines, hlines.splitLines_eq, List.map_append, htexts, List.map_cons, hbad,
      transcriptOn_invalid, mapM_bind_pure]
    simp [read]
  -- where a line ends, the lines of both are those of the one and those of the other
  · change replOn m budget globals macros (a ++ b) = _
    rw [replOn, inputLines, splitLines_append ha, List.map_append]
    exact transcriptOn_append _ _

/-- Three lines of which one fails as it is evaluated and one does not parse. -/
def failingLines : List String := ["let x = 5;", "foo", "let = 5;"]

/-- The input of those lines, with the one and the other kind of line ending. -/
def failingInput : List UInt8 := "let x = 5;\r\nfoo\nlet = 5;\n".toUTF8.data.toList

/-- An empty line, a line of text, one that is not text, and one that is never read. -/
def endingInput : List UInt8 := "\nx * 2\n".toUTF8.data.toList ++ [255, 10, 49]

/-- The loop goes on after lines that fail, and ends at a line that is not text. -/
theorem transcript_is_fold_failing :
    let loop (input : List UInt8) := replOn Eval 9 0 1 input (Session.start 9 .empty).state
    ∃ shown t u,
      loop failingInput = some (⟨shown ++ prompt, false⟩, t) ∧
      loop (failingInput ++ endingInput) = some (⟨shown ++ ">> >> 10\n>> ", true⟩, u) := by
  intro loop
  have hlines : LinesOf failingInput (splitLines failingInput) := linesOf_iff.2 rfl
  have hending : LinesOf endingInput
      (["", "x * 2"].map (·.toUTF8.data.toList) ++ [255] :: [[49]]) :=
    linesOf_iff.2 (by decide +kernel)
  -- what comes of the lines of text, before and after the cut
  have hrun : ((failingLines.mapM (evalSourceOn Eval 9 0 1) (Session.start 9 .empty).state).bind
      fun p => ["", "x * 2"].mapM (evalSourceOn Eval 9 0 1) p.2).map
        (fun q => prompted (q.1.map renderReply)) = some ">> >> 10\n" := by
    decide +kernel
  obtain ⟨⟨more, u⟩, hboth, hwritten⟩ := Option.map_eq_some_iff.1 hrun
  obtain ⟨⟨replies, t⟩, hfirst, hsecond⟩ := Option.bind_eq_some_iff.1 hboth
  obtain ⟨-, hfold, hinvalid, hcut, -⟩ := transcript_is_fold (m := Eval) 9 0 1
  have hloop : loop failingInput =
      ((failingLines.mapM (evalSourceOn Eval 9 0 1) (Session.start 9 .empty).state).bind fun p =>
        some (⟨prompted (p.1.map renderReply) ++ prompt, false⟩, p.2)) :=
    congrFun (hfold failingInput _ failingLines hlines (by decide +kernel)) _
  have hend : replOn Eval 9 0 1 endingInput t =
      ((["", "x * 2"].mapM (evalSourceOn Eval 9 0 1) t).bind fun p =>
        some (⟨prompted (p.1.map renderReply) ++ prompt, true⟩, p.2)) :=
    congrFun (hinvalid endingInput _ [255] [[49]] ["", "x * 2"] hending (by decide +kernel)
      (by decide +kernel)) t
  have hmore := congrFun (hcut failingInput endingInput (by decide +kernel))
    (Session.start 9 .empty).state
  rw [hfirst, Option.bind_some] at hloop
  rw [hsecond, Option.bind_some, hwritten] at hend
  refine ⟨prompted (replies.map renderReply), t, u, hloop, hmore.trans ?_⟩
  change Option.bind (loop failingInput) _ = _
  rw [hloop, Option.bind_some]
  change Option.bind (replOn Eval 9 0 1 endingInput t) _ = _
  rw [hend, Option.bind_some]
  change some ((⟨Transcript.shown ⟨prompted (replies.map renderReply) ++ prompt, false⟩ ++
    (">> >> 10\n" ++ prompt), true⟩ : Transcript), u) = _
  rw [Transcript.shown_append_prompt]
  rfl

end

end Monkey
