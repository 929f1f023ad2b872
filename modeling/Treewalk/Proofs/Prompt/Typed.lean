import Mathlib.Data.List.DropRight
import Treewalk.Prompt.Console
import Treewalk.Proofs.Prompt.Invisible
import Treewalk.Proofs.Session.Pieces

/-!
# What is typed is what runs

The prompt drops invisible characters from a submission, takes what then starts with a slash for a
command, and runs the rest as a unit. A program is never taken for a command, as no phrase of the
grammar starts with a slash. But dropping characters is done without regard to what they stand in:
in a literal they belong to the program, and a carriage return may be all that keeps two tokens
apart. Where neither is the case, what runs is the program that was typed, at other places.

## Main definitions

* `Prompt.echo`, what is shown of the outcome of a unit

## Main results

* `Prompt.slash?_normalize`: a program is no command
* `Prompt.program_normalize`: it stays the same program
* `Prompt.submit_program`: submitting it is running it and showing its value

## Implementation notes

The result is an agreement between two consoles, one that has got the text and one whose session has
run it directly. They agree up to places only. A character that was dropped moves everything behind
it on its line, so marks and the places of failures may differ, and closures with them.

That a program is no command uses hardly anything of the grammar: only that no statement starts with
a division sign. It has to be shown for the text with the invisible characters gone and with blank
text cut off, because this is what the prompt looks at.

`echo` is what the prompt adds to a run. It is written to the output of the session, so it is part
of the comparison and not of what is left open.
-/

namespace Treewalk.Prompt

open Grammar Lexicon Source

/-! ## No command -/

/-- The code points of white space. -/
def blankCodes : List Nat :=
  List.range' 0x09 5 ++ List.range' 0x1C 5 ++ List.range' 0x2000 11 ++
    [0x85, 0xA0, 0x1680, 0x2028, 0x2029, 0x202F, 0x205F, 0x3000]

theorem toNat_mem_blankCodes {c : Char} (h : Text.isBlank c = true) : c.toNat ∈ blankCodes := by
  simp only [Text.isBlank, Bool.or_eq_true, Bool.and_eq_true, decide_eq_true_eq] at h
  simp only [blankCodes, List.mem_append, List.mem_range'_1, List.mem_cons, List.not_mem_nil,
    or_false]
  omega

/-- White space starts no token. -/
theorem startsToken_of_isBlank {c : Char} (h : Text.isBlank c = true) : startsToken c = false := by
  have hall : ∀ n ∈ blankCodes, startsToken (Char.ofNat n) = false := by decide +kernel
  have hc := hall c.toNat (toNat_mem_blankCodes h)
  rwa [Char.ofNat_toNat] at hc

theorem isBlank_of_isSpace {c : Char} (h : isSpace c = true) : Text.isBlank c = true := by
  simpa using of_isSpace (fun c => !Text.isBlank c) (by decide) c h

/-- What blank text at the front and at the end is cut off from is no command if it does not start
with a slash. -/
theorem isCommand_trim {gap rest : List Char} (hgap : ∀ c ∈ gap, Text.isBlank c = true)
    (hrest : ∀ c ∈ rest.head?, Text.isBlank c = false ∧ c ≠ '/') :
    isCommand (Text.trim (String.ofList (gap ++ rest))) = false := by
  have hfront : (gap ++ rest).dropWhile Text.isBlank = rest := by
    rw [List.dropWhile_append_of_pos hgap]
    cases rest with
    | nil => rfl
    | cons c rest => exact List.dropWhile_cons_of_neg (by simp [(hrest c rfl).1])
  rw [isCommand, Text.trim, Text.trimStart, String.toList_ofList, hfront, Text.trimEnd,
    String.toList_ofList, String.toList_ofList, decide_eq_false_iff_not]
  intro hslash
  obtain ⟨cs, hcs⟩ := List.head?_eq_some_iff.mp hslash
  have hprefix : rest.rdropWhile Text.isBlank <+: rest := List.rdropWhile_prefix _ _
  rw [List.rdropWhile, hcs] at hprefix
  obtain ⟨more, rfl⟩ := hprefix
  exact (hrest '/' rfl).2 rfl

/-- A slash starts an operator. -/
theorem kind_shapeAt_slash (cs : List Char) :
    (shapeAt '/' cs).kind = .slash ∨ (shapeAt '/' cs).kind = .unequal := by
  cases cs with
  | nil => exact .inl rfl
  | cons d cs =>
    by_cases hd : d = '='
    · exact .inr (hd ▸ rfl)
    · refine .inl ?_
      have hpair : Shape.pairKind? '/' d = none := by simp [Shape.pairKind?, hd]
      change (Shape.operator '/' (d :: cs)).kind = .slash
      rw [Shape.operator, List.head?_cons, Option.bind_some, hpair]
      rfl

section

variable {text : String} {body : List Stmt} (h : program (Utf8.encode text) = .ok body)
include h

/-- The visible part of a program is spaces, or spaces before something that is neither a space nor
a slash. -/
theorem exists_front :
    ∃ gap rest, visible text.toList = gap ++ rest ∧ (∀ c ∈ gap, Text.isBlank c = true) ∧
      (∀ c ∈ rest.head?, Text.isBlank c = false ∧ c ≠ '/') ∧ (rest = [] → body = []) := by
  have hd := diagnostics_of_program h
  obtain ⟨-, hvalid⟩ := (diagnostics_eq_nil_iff _).mp hd
  have hitems := items_of_program h
  have hblank : ∀ gap : List Glyph, (∀ g ∈ gap, isSpace g.char = true) →
      ∀ c ∈ visible (gap.map Glyph.char), Text.isBlank c = true := by
    intro gap hgap c hc
    obtain ⟨g, hg, rfl⟩ := List.mem_map.mp (mem_visible hc).1
    exact isBlank_of_isSpace (hgap g hg)
  rw [scan_tokens, tokensOf] at hitems
  rw [← visible_glyphs]
  obtain hspaces | ⟨gap, g, rest, hgap, hg, hsplit⟩ := spaces_or_token (glyphs (Utf8.encode text))
  · rw [lexemes_spaces hspaces] at hitems
    refine ⟨_, [], (List.append_nil _).symm, hblank _ hspaces, by simp, fun _ => ?_⟩
    exact hitems.unique (by simp) .nil
  · rw [hsplit, lexemes_token hgap hg] at hitems hvalid
    obtain ⟨⟨hkind, hproblem⟩, -⟩ := List.forall_mem_cons.mp hvalid
    obtain ⟨cs, -, hchars, hshape⟩ := exists_word_lexemeAt gap g rest
    rw [hproblem] at hshape
    have hs := spelling_of_shapeAt hshape hkind
    rw [hsplit, List.map_append, visible_append, hchars,
      visible_cons (isInvisible_head_of_spelling hs)]
    refine ⟨_, _, rfl, hblank gap hgap, ?_, fun hnil => absurd hnil (List.cons_ne_nil _ _)⟩
    rintro c ⟨⟩
    constructor
    · refine Bool.eq_false_iff.mpr fun hblank => ?_
      have hstart := hs.startsToken
      rw [startsToken_of_isBlank hblank] at hstart
      cases hstart
    · -- a slash would start an operator, and no statement starts with one
      intro hslash
      have hfirst : (lexemeAt gap g rest).kind ∈ .comment :: stmtStarts :=
        hitems.kindAt_mem.resolve_left (List.cons_ne_nil _ _)
      have hkinds : ∀ k ∈ [Kind.slash, .unequal], k ∉ .comment :: stmtStarts := by decide
      have hoperator := kind_shapeAt_slash (cs ++ ((g :: rest).drop (shapeOf g rest).size).map
        Glyph.char)
      rw [← hslash, hshape] at hoperator
      exact hkinds _ (by simpa using hoperator) hfirst

/-- A program is no command. A command starts with a slash, and no statement does. -/
theorem slash?_normalize (c : Console) : c.slash? (normalize text) = none := by
  obtain ⟨gap, rest, hsplit, hgap, hrest, -⟩ := exists_front h
  have hcommand := isCommand_trim hgap hrest
  rw [← hsplit] at hcommand
  rw [Console.slash?]
  exact if_neg (by rw [normalize]; simpa [visible] using hcommand)

/-- A program from which only blank text is left has no statements. -/
theorem eq_nil_of_isBlankText (hblank : Text.isBlankText (normalize text) = true) : body = [] := by
  obtain ⟨gap, rest, hsplit, -, hrest, hnil⟩ := exists_front h
  refine hnil (List.head?_eq_none_iff.mp (Option.eq_none_iff_forall_not_mem.mpr fun c hc => ?_))
  rw [Text.isBlankText, toList_normalize, hsplit, List.all_eq_true] at hblank
  have hc' := hblank c (List.mem_append_right gap (List.mem_of_mem_head? hc))
  rw [(hrest c hc).1] at hc'
  cases hc'

/-- Without invisible characters a program is the same program, if it does not depend on them. -/
theorem program_normalize (hlegible : ∀ l ∈ (scan (Utf8.encode text)).lexemes, Legible l)
    (hapart : (scan (Utf8.encode text)).lexemes.IsChain Apart) :
    ∃ body', program (Utf8.encode (normalize text)) = .ok body' ∧
      body'.map Stmt.bare = body.map Stmt.bare :=
  program_of_akin h (diagnostics_normalize (diagnostics_of_program h) hlegible hapart)
    (akin_normalize (diagnostics_of_program h) hlegible hapart)

end

/-! ## Running a submission -/

/-- What is shown of the outcome of a unit: its value, unless it is nil. -/
def echo : Except Trouble Value → String
  | .ok .nil => ""
  | .ok value => value.inspect ++ "\n"
  | .error _ => ""

theorem echo_of_bare {x y : Except Stop Value}
    (h : Relocation.bare.outcome x = Relocation.bare.outcome y) :
    echo (x.mapError .stopped) = echo (y.mapError .stopped) := by
  have hvalue : ∀ v : Value, echo (.ok (Relocation.bare.value v)) = echo (.ok v) := by
    intro v
    cases v <;> rfl
  cases x with
  | ok v =>
    cases y with
    | error stop' => cases h
    | ok w =>
      change echo (.ok v) = echo (.ok w)
      rw [← hvalue, Except.ok.inj h, hvalue]
  | error stop =>
    cases y with
    | ok w => cases h
    | error stop' => rfl

theorem runUnit_eq (limits : Limits) (c : Console) (name : Option String) (source : List UInt8) :
    c.runUnit limits name source =
      ((c.session.run limits name source).1,
        { (c.read name source).2 with session := (c.session.run limits name source).2 }) := by
  have hsession : (c.read name source).2.session = c.session := by
    rw [Console.read]
    dsimp only
    split <;> rfl
  let result := (c.read name source).2.session.runAccepted limits name (program source)
  change (result.1, { (c.read name source).2 with session := result.2 }) = _
  rw [show result = c.session.run limits name source from
    congrArg (fun s => Session.runAccepted limits s name (program source)) hsession]

theorem session_report (c : Console) (message : String) :
    (c.report message).session = c.session := by
  rw [Console.report]
  split <;> rfl

theorem emit_empty (s : Session) : s.emit "" = s := by
  rw [Session.emit, String.append_empty]

/-- A text runs in the session as a unit does, and then its value is shown. -/
theorem session_runText (limits : Limits) (c : Console) (text : String) :
    (c.runText limits text).session =
      let run := c.session.run limits (some Console.sourceName) (Utf8.encode text)
      run.2.emit (echo run.1) := by
  rw [Console.runText, runUnit_eq]
  rcases c.session.run limits (some Console.sourceName) (Utf8.encode text) with ⟨result, s⟩
  cases result with
  | error trouble => rw [session_report]; exact (emit_empty s).symm
  | ok v =>
    cases v with
    | nil => exact (emit_empty s).symm
    | _ => rfl

/-- So does a submission that is neither blank nor a command. -/
theorem session_submit {limits : Limits} {c : Console} {text : String}
    (hslash : c.slash? (normalize text) = none)
    (hblank : Text.isBlankText (normalize text) = false) :
    (c.submit limits text).session =
      let run := c.session.run limits (some Console.sourceName) (Utf8.encode (normalize text))
      run.2.emit (echo run.1) := by
  rw [Console.submit, hslash]
  dsimp only
  rw [if_neg (by simp [hblank]), Option.getD_none, session_runText]

/-- What is written behind machines that agree but for places is written behind both. -/
theorem bare_emit {s s' : Session} (h : s'.machine.bare = s.machine.bare) (text : String) :
    (s'.emit text).machine.bare = (s.emit text).machine.bare :=
  congrArg (fun m : Machine => { m with output := m.output ++ text }) h

/-- **What is typed is what runs.** A program is no command once the invisible characters are
dropped. If none of them stands in a literal, and if no two tokens are kept apart by carriage
returns alone that would be read as others without them, then what is left is the same program at
other places. Submitting the text then leaves the session where running it leaves it, but for
places, and shows its value besides. -/
theorem submit_program {text : String} {body : List Stmt}
    (h : program (Utf8.encode text) = .ok body) :
    (∀ c : Console, c.slash? (normalize text) = none) ∧
      ((∀ l ∈ (scan (Utf8.encode text)).lexemes, Legible l) →
        (scan (Utf8.encode text)).lexemes.IsChain Apart →
        (∃ body', program (Utf8.encode (normalize text)) = .ok body' ∧
          body'.map Stmt.bare = body.map Stmt.bare) ∧
        ∀ (limits : Limits) (c : Console),
          let run := c.session.run limits (some Console.sourceName) (Utf8.encode text)
          (c.submit limits text).session.machine.bare =
            (run.2.emit (echo run.1)).machine.bare) := by
  refine ⟨slash?_normalize h, fun hlegible hapart => ?_⟩
  obtain ⟨body', hbody', hbare⟩ := program_normalize h hlegible hapart
  refine ⟨⟨body', hbody', hbare⟩, fun limits c => ?_⟩
  cases hblank : Text.isBlankText (normalize text) with
  | true =>
    -- nothing is run, as there are no statements
    obtain rfl := eq_nil_of_isBlankText h hblank
    have hrun : c.session.runAccepted limits (some Console.sourceName) (.ok []) =
        (.ok .nil, { c.session with machine := c.session.entering (some Console.sourceName) }) :=
      Session.runAccepted_of_runsOut rfl
    rw [Console.submit, Session.run, h, hrun]
    dsimp only
    rw [if_pos hblank, echo, emit_empty]
    exact (Session.bare_entering c.session _).symm
  | false =>
    obtain ⟨houtcome, hmachine⟩ := Session.evaluate_bare limits (some Console.sourceName)
      (some Console.sourceName) hbare (rfl : c.session.machine.bare = _)
    rw [session_submit (slash?_normalize h c) hblank, Session.run, Session.run, h, hbody',
      Session.runAccepted_ok, Session.runAccepted_ok]
    dsimp only
    rw [echo_of_bare houtcome]
    exact bare_emit hmachine _

/-- A console whose session has run nothing. -/
def fresh : Console :=
  .start none "" ⟨none, none⟩ false

/-- A program with carriage returns between tokens, at the end of a line and in a comment. -/
def returning : String :=
  "let a\r=\r1;\r\nreturn a; # \u00a0b\r"

theorem submit_program_returning :
    fresh.slash? (normalize returning) = none ∧
      (fresh.submit ⟨9, 9⟩ returning).session.machine.bare =
        ((fresh.session.run ⟨9, 9⟩ (some Console.sourceName) (Utf8.encode returning)).2.emit
          (echo (fresh.session.run ⟨9, 9⟩ (some Console.sourceName)
            (Utf8.encode returning)).1)).machine.bare := by
  have h : program (Utf8.encode returning) =
      .ok [.declare (.place 1 1) "a" (.int (.place 1 9) 1),
        .give (.place 2 1) (.var (.place 2 8) "a")] := by
    rw [Utf8.encode_eq]
    rfl
  have hlegible : ∀ l ∈ (scan (Utf8.encode returning)).lexemes, Legible l := by
    rw [Utf8.encode_eq]
    decide +kernel
  have hapart : (scan (Utf8.encode returning)).lexemes.IsChain Apart := by
    rw [Utf8.encode_eq]
    decide +kernel
  obtain ⟨hslash, hsubmit⟩ := submit_program h
  exact ⟨hslash fresh, (hsubmit hlegible hapart).2 ⟨9, 9⟩ fresh⟩

/-- **What is typed need not be what runs.** A character that cannot be seen is lost from a string,
words that a carriage return keeps apart become one, and a value is shown that nothing in the unit
prints. -/
theorem submit_program_differs :
    (program (Utf8.encode "print(\"a\u00a0b\");") = .ok [.print (.place 1 1) "a\u00a0b" []] ∧
      program (Utf8.encode (normalize "print(\"a\u00a0b\");")) =
        .ok [.print (.place 1 1) "ab" []]) ∧
    (program (Utf8.encode "let\ra = 1;") =
        .ok [.declare (.place 1 1) "a" (.int (.place 1 9) 1)] ∧
      program (Utf8.encode (normalize "let\ra = 1;")) =
        .ok [.assign (.place 1 1) "leta" (.int (.place 1 8) 1)]) ∧
    (fresh.session.run ⟨9, 9⟩ (some Console.sourceName)
        (Utf8.encode "return 1;")).2.machine.output = "" ∧
      (fresh.submit ⟨9, 9⟩ "return 1;").session.machine.output = "1\n" := by
  have hreturn : program (Utf8.encode "return 1;") =
      .ok [.give (.place 1 1) (.int (.place 1 8) 1)] := by
    rw [Utf8.encode_eq]
    rfl
  have hnormal : program (Utf8.encode (normalize "return 1;")) =
      .ok [.give (.place 1 1) (.int (.place 1 8) 1)] := by
    rw [Utf8.encode_eq, toList_normalize]
    rfl
  refine ⟨⟨?_, ?_⟩, ⟨?_, ?_⟩, ?_, ?_⟩
  · rw [Utf8.encode_eq]
    rfl
  · rw [Utf8.encode_eq, toList_normalize]
    rfl
  · rw [Utf8.encode_eq]
    rfl
  · rw [Utf8.encode_eq, toList_normalize]
    rfl
  · rw [Session.run, hreturn]
    rfl
  · have hblank : Text.isBlankText (normalize "return 1;") = false := by
      rw [Text.isBlankText, toList_normalize]
      decide
    rw [session_submit (slash?_normalize hreturn fresh) hblank, Session.run, hnormal]
    rfl

end Treewalk.Prompt
