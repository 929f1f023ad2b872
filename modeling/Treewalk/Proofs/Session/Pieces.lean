import Treewalk.Proofs.Eval.Action
import Treewalk.Proofs.Layout.Behaviour
import Treewalk.Proofs.Scan.Lines

/-!
# Sources in pieces

Two sources with a line feed between them are one source, and it does what they do one after the
other. Nothing that is read at the end of the first can reach into the second: its last token ends
with its line, and its last statement ends with its tokens, for what the two derive is derived from
the tokens of both, and a sequence derives one program only.

## Why a line feed in between

Without one, the last token of the first source could go on into the second, and a comment would
swallow what follows. With one, scanning the whole is scanning the two, and the tokens of
the second are further down by the lines of the first. A byte order mark is skipped at the beginning
of a source and is an error anywhere else, so the second source must not have one.

## Why the first must run to its end

If a statement of the first fails or gives a value, the rest of the whole is not run, while the
second source, run on its own, would be. So the condition is not a convenience.

## Main definitions

* `Stmt.lowered`, a statement some lines further down
* `Session.RunsOut`, a unit runs to its end

## Main results

* `Source.parse_append`: the statements of two sources in one
* `Session.run_append`

## Implementation notes

That the whole parses to the statements of both is shown with derivations and not with the parser. A
sequence of items derives from the tokens of both, by appending, and the statement that there is one
program for each sequence of tokens does the rest. Following the parser across the boundary would
mean to know where in its recursion it is when the first source ends.

Running the whole and running the two compare code with different marks. They are made the same by
forgetting all places, and what is then left is that running a list of statements and going on with
another list is running both.
-/

namespace Treewalk

/-! ## Statements further down -/

/-- A mark some lines further down. -/
def Mark.below (n : Nat) : Mark → Mark
  | .absent => .absent
  | .line number => .line (number + n)
  | .place number column => .place (number + n) column

/-- A statement some lines further down: every line number grows, and the columns stay. -/
def Stmt.lowered (n : Nat) : Stmt → Stmt :=
  Stmt.remark (Mark.below n)

/-- All tokens some lines further down. -/
def Relaying.below (n : Nat) : Relaying where
  comment t := some (t.below n)
  pos := Pos.below n
  mark := Mark.below n
  comment_kind ht h := Option.some.inj h ▸ ht
  mark_pos _ := rfl
  mark_absent := rfl

theorem Relaying.tokens_below (n : Nat) (ts : List Token) :
    (Relaying.below n).tokens ts = ts.map (Token.below n) := by
  have htoken : (below n).token? = fun t => some (t.below n) := by
    funext t
    exact ite_self _
  rw [tokens, htoken, List.filterMap_eq_map']

theorem Mark.bare_below (n : Nat) (mark : Mark) : (mark.below n).bare = mark.bare := by
  cases mark <;> rfl

/-- The statements of two sources in one: those of the first, and those of the second further down
by the lines of the first. -/
theorem Source.parse_append {a b : List UInt8} {A B : List Stmt} (ha : Source.parse a = .ok A)
    (hb : Source.parse b = .ok B) (hmark : ¬ markBytes <+: b) :
    Source.parse (a ++ 0x0A :: b) = .ok (A ++ B.map (Stmt.lowered (a.count 0x0A + 1))) := by
  apply Source.parse_of_items
  rw [Source.tokens_append a hmark, ← Relaying.tokens_below]
  have hitems := (Source.items_of_parse hb).relaid (.below (a.count 0x0A + 1))
  exact (Source.items_of_parse ha).append hitems

/-! ## Running on -/

namespace Session

/-- Statements run to their end as a unit of a session: none fails, and none outside of a function
gives a value. -/
def RunsOut (limits : Limits) (s : Session) (unit : Option String) (statements : List Stmt) :
    Prop :=
  ∃ m, Run.inOrder (fun st => Run.execIn limits st root) statements (s.entering unit) = .ok .next m

/-- Statements that run out leave the session at the machine behind them. -/
theorem runAccepted_of_runsOut {limits : Limits} {s : Session} {unit : Option String}
    {statements : List Stmt} {m : Machine}
    (h : Run.inOrder (fun st => Run.execIn limits st root) statements (s.entering unit) =
      .ok .next m) :
    s.runAccepted limits unit (.ok statements) = (.ok .nil, { s with machine := m }) := by
  have hunit : Run.unit limits statements root (s.entering unit) = .ok .nil m := by
    change EStateM.bind _ _ _ = _
    rw [EStateM.bind, h]
    rfl
  rw [runAccepted, evaluate, hunit]

/-- Without places, statements behind others that run out start where these have come to. -/
theorem forget_unit_append {limits : Limits} {s : Session} {unit unit' : Option String}
    {A B : List Stmt} {m : Machine}
    (h : Run.inOrder (fun st => Run.execIn limits st root) A (s.entering unit') = .ok .next m) :
    Relocation.bare.result Relocation.bare.value
        (Run.unit limits (A ++ B) root (s.entering unit)) =
      Run.unit limits (B.map Stmt.bare) root m.bare := by
  let statement := fun st => Run.execIn limits st root
  have hfirst : Run.inOrder statement (A.map Stmt.bare) s.machine.bare = .ok .next m.bare := by
    rw [← bare_entering s unit', Machine.bare, ← Relocation.recastAll_bare,
      Relocation.bare_inPlace.inOrder, h]
    rfl
  have hentering : Relocation.bare.machine (s.entering unit) = s.machine.bare :=
    s.bare_entering unit
  rw [← Relocation.bare_inPlace.unit, Relocation.recastAll_bare, hentering, List.map_append]
  change EStateM.bind _ _ _ = EStateM.bind _ _ _
  rw [EStateM.bind, EStateM.bind, Run.inOrder_append hfirst]

/-- **Feeding a source in pieces.** Two sources that parse, the second without a byte order mark,
parse with a line feed between them, to the statements of the first and then those of the second,
further down by the lines of the first. If nothing is wrong with their tokens and the first runs to
its end, then in any session running both at once writes and binds the same as running one and then
the other, and comes to the same end but for the places of failures. -/
theorem run_append {a b : List UInt8} {A B : List Stmt} (ha : Source.parse a = .ok A)
    (hb : Source.parse b = .ok B) (hmark : ¬ markBytes <+: b) :
    Source.parse (a ++ 0x0A :: b) = .ok (A ++ B.map (Stmt.lowered (a.count 0x0A + 1))) ∧
      ((scan a).diagnostics = [] → (scan b).diagnostics = [] →
        ∀ (limits : Limits) (s : Session) (unit unit₁ unit₂ : Option String),
          s.RunsOut limits unit₁ A →
          let whole := s.run limits unit (a ++ 0x0A :: b)
          let first := s.run limits unit₁ a
          let second := first.2.run limits unit₂ b
          whole.2.machine.output = second.2.machine.output ∧
            whole.2.shown = second.2.shown ∧
            whole.2.machine.bare = second.2.machine.bare ∧
            Alike whole.1 second.1) := by
  have hparse := Source.parse_append ha hb hmark
  refine ⟨hparse, ?_⟩
  rintro hda hdb limits s unit unit₁ unit₂ ⟨m, hm⟩
  have hd : (scan (a ++ 0x0A :: b)).diagnostics = [] := by
    rw [Source.diagnostics_append a hmark, hda, hdb]
    rfl
  have hfirst : s.run limits unit₁ a = (.ok .nil, { s with machine := m }) := by
    rw [run, Source.program_of_parse ha hda, runAccepted_of_runsOut hm]
  have hforget : Relocation.bare.result Relocation.bare.value (Run.unit limits
        (A ++ B.map (Stmt.lowered (a.count 0x0A + 1))) root (s.entering unit)) =
      Relocation.bare.result Relocation.bare.value
        (Run.unit limits B root (({ s with machine := m } : Session).entering unit₂)) := by
    have hbare : (B.map (Stmt.lowered (a.count 0x0A + 1))).map Stmt.bare = B.map Stmt.bare := by
      rw [List.map_map]
      exact List.map_congr_left fun st _ => st.bare_remark (Mark.bare_below _)
    have hentering := bare_entering { s with machine := m } unit₂
    rw [forget_unit_append hm, hbare, ← Relocation.bare_inPlace.unit, Relocation.recastAll_bare,
      ← hentering, Machine.bare]
  have hwhole : s.run limits unit (a ++ 0x0A :: b) =
      s.runAccepted limits unit (.ok (A ++ B.map (Stmt.lowered (a.count 0x0A + 1)))) := by
    rw [run, Source.program_of_parse hparse hd]
  have hsecond : (s.run limits unit₁ a).2.run limits unit₂ b =
      ({ s with machine := m } : Session).runAccepted limits unit₂ (.ok B) := by
    rw [hfirst, run, Source.program_of_parse hb hdb]
  obtain ⟨houtcome, hmachine⟩ := evaluate_of_result hforget
  obtain ⟨houtput, -, hshown⟩ := Relocation.bare.seen_of_machine hmachine
  dsimp only
  rw [hwhole, hsecond, runAccepted_ok, runAccepted_ok]
  exact ⟨houtput, hshown root, hmachine, alike_of_bare houtcome⟩

/-- A comment at the end of a piece, and the value of a name that the piece has bound. -/
theorem run_append_comment :
    Alike
      ((start none "").run ⟨9, 9⟩ none
        ("let x = 1; # one".toList.flatMap String.utf8EncodeChar ++
          0x0A :: "return x;".toList.flatMap String.utf8EncodeChar)).1
      (((start none "").run ⟨9, 9⟩ none
        ("let x = 1; # one".toList.flatMap String.utf8EncodeChar)).2.run ⟨9, 9⟩ none
          ("return x;".toList.flatMap String.utf8EncodeChar)).1 := by
  have ha : Source.parse ("let x = 1; # one".toList.flatMap String.utf8EncodeChar) =
      .ok [.declare (.place 1 1) "x" (.int (.place 1 9) 1)] := rfl
  have hb : Source.parse ("return x;".toList.flatMap String.utf8EncodeChar) =
      .ok [.give (.place 1 1) (.var (.place 1 8) "x")] := rfl
  have hda :
      (scan ("let x = 1; # one".toList.flatMap String.utf8EncodeChar)).diagnostics = [] := rfl
  have hdb : (scan ("return x;".toList.flatMap String.utf8EncodeChar)).diagnostics = [] := rfl
  have hrun : (start none "").RunsOut ⟨9, 9⟩ none
      [.declare (.place 1 1) "x" (.int (.place 1 9) 1)] := ⟨_, rfl⟩
  exact ((run_append ha hb (by decide)).2 hda hdb ⟨9, 9⟩ (start none "") none none none hrun).2.2.2

end Session

end Treewalk
