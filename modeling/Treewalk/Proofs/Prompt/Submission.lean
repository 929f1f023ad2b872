import Treewalk.Proofs.Grammar.Exact
import Treewalk.Proofs.Grammar.Nesting
import Treewalk.Proofs.Text.Encoding
import Treewalk.Prompt.Keys

/-!
# A complete program is submitted

Enter starts a new line as long as brackets are open. It finds out by counting tokens, without
regard to the sort of a bracket and without going below zero, so its count and the grammar could
come apart: a program might parse and still be taken for unfinished, and there would be no way to
hand it over.

They do not. The tokens of a program are nested, and nested tokens leave the count where it was,
whatever it was.

## Main results

* `Prompt.foldl_depthStep_nested`: nested tokens leave the count alone
* `Prompt.openDepth_of_parse`: a text that parses leaves no bracket open
* `Prompt.complete_submitted`: Enter submits a text that parses

## Implementation notes

The count starts anywhere in the lemma on nested tokens, not at zero. Nested tokens stand inside
brackets as well as outside, so the induction needs every depth; and the count never falls below
where it started, so that it stops at zero makes no difference.

`handedOver` is not always the text itself. A last line that is blank is cut off, together with
blank text before it, and this is done whether or not brackets are open: an empty line is how an
unfinished text is given up.
-/

namespace Treewalk.Prompt

open Grammar

theorem depthStep_of_isFlat {kind : Kind} (h : kind.isFlat = true) (depth : Nat) :
    depthStep depth kind = depth := by
  cases kind
  case lparen | rparen | lbrace | rbrace => cases h
  all_goals rfl

/-- Nested tokens leave as many brackets open as there were before. It is stated for any number of
brackets that are open before, since that number differs within brackets. -/
theorem foldl_depthStep_nested {s : List Token} (h : Nested s) (depth : Nat) :
    (s.map Token.kind).foldl depthStep depth = depth := by
  induction h generalizing depth with
  | nil => rfl
  | flat ht _ ih => rw [List.map_cons, List.foldl_cons, depthStep_of_isFlat ht, ih]
  | parens hl _ hr _ ih ih' | braces hl _ hr _ ih ih' =>
    rw [List.map_cons, List.foldl_cons, List.map_append, List.foldl_append, ih, List.map_cons,
      List.foldl_cons, ih', hl, hr]
    exact Nat.add_sub_cancel depth 1

theorem openDepth_eq (text : String) :
    openDepth text = depthOf ((scan (Utf8.encode text)).tokens.map Token.kind) := by
  rw [openDepth, Scan.tokens, List.map_map]
  rfl

/-- A text that parses leaves no bracket open. -/
theorem openDepth_of_parse {text : String} {body : List Stmt}
    (h : Source.parse (Utf8.encode text) = .ok body) : openDepth text = 0 := by
  rw [openDepth_eq]
  exact foldl_depthStep_nested (Source.items_of_parse h).nested 0

theorem wantsMore_of_openDepth {text : String} (h : openDepth text = 0) :
    wantsMore text = false := by
  rw [wantsMore, h]
  exact ite_self _

/-- What Enter hands over: the buffer, without blank text at its end if the last of several lines is
blank. -/
def handedOver (text : String) : String :=
  if text.toList.contains '\n' && (Text.lastLine text.toList).all Text.isBlank then
    Text.trimEnd text
  else text

theorem onEnter_of_wantsMore {text : String} (h : wantsMore text = false) :
    onEnter text = .submit (handedOver text) := by
  rw [onEnter, h, handedOver, apply_ite Enter.submit]
  rfl

theorem Desk.press_of_submit {d : Desk} {text : String} (hleft : d.left = false)
    (h : onEnter d.buffer = .submit text) (limits : Limits) :
    d.press limits .enter = { d with buffer := "", console := d.console.submit limits text } := by
  rw [Desk.press, hleft, h]
  rfl

/-- **A complete program is submitted.** A text that parses has no bracket open and wants nothing
more, so Enter hands it over and empties the buffer. And a text with a bracket open does not
parse. -/
theorem complete_submitted (text : String) :
    (∀ body, Source.parse (Utf8.encode text) = .ok body →
      openDepth text = 0 ∧ wantsMore text = false ∧
        onEnter text = .submit (handedOver text) ∧
        ∀ (limits : Limits) (d : Desk), d.left = false → d.buffer = text →
          d.press limits .enter =
            { d with buffer := "", console := d.console.submit limits (handedOver text) }) ∧
      (0 < openDepth text → ∃ e, Source.parse (Utf8.encode text) = .error e) := by
  constructor
  · intro body h
    have hdepth := openDepth_of_parse h
    have hmore := wantsMore_of_openDepth hdepth
    refine ⟨hdepth, hmore, onEnter_of_wantsMore hmore, ?_⟩
    rintro limits d hleft rfl
    exact Desk.press_of_submit hleft (onEnter_of_wantsMore hmore) limits
  · intro hopen
    cases h : Source.parse (Utf8.encode text) with
    | error e => exact ⟨e, rfl⟩
    | ok body => exact absurd (openDepth_of_parse h) (Nat.ne_of_gt hopen)

/-- Brackets in a string and in a comment are no tokens, so Enter submits the line. -/
theorem complete_submitted_literal :
    onEnter "if f(\"\x7b\") \x7b \x7d # (" = .submit "if f(\"\x7b\") \x7b \x7d # (" := by
  have h : Source.parse (Utf8.encode "if f(\"\x7b\") \x7b \x7d # (") =
      .ok [.branch (.place 1 1) (.call (.place 1 4) "f" [.string (.place 1 6) "\x7b"])
        (.block (.place 1 11) []) (.empty .absent)] := by
    rw [Utf8.encode_eq]
    rfl
  exact ((complete_submitted _).1 _ h).2.2.1

end Treewalk.Prompt
