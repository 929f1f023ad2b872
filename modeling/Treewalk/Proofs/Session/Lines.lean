import Treewalk.Proofs.Eval.Lines
import Treewalk.Proofs.Grammar.Placed
import Treewalk.Proofs.Scan.LineByLine
import Treewalk.Proofs.Session.Reachable

/-!
# One print, one line

No token of a source goes past the end of its line, so the texts in an accepted source have no line
feed, and then no text has one that a session makes of them, whatever it reads. A print statement
therefore writes one line, with all that it shows in front of the line feed at the end, and so does
`writeln`; `write` ends no line.

## Why line feeds cannot get in

There is no way to write one: a literal ends on its line, and nothing in it stands for anything but
itself. There is no way to compute one, since operators make no texts and a format that is filled in
is made of the characters of its parts. And there is no way to read one, since what is read is a
line without its end. Each of these is a fact about another part, and the invariant
brings them together.

## Main definitions

* `Moment.Lined`, what this says about code that is about to run

## Main results

* `Source.lined_of_program`: the texts in an accepted source
* `Session.prints_one_line`

## Implementation notes

A value is *unbroken* if what it shows has no line feed. This is kept by operators and built-in
functions, but it is not enough for a print statement, whose arguments also need to have a text.
`Value.Lined` adds that the value is proper. The invariant has both, and at each moment the weaker
is what is promised of bound values, and the stronger is what the output needs.

Output is described together with the machine: the text is appended and nothing else happens at the
moment of printing. What the arguments did before is in the machine that they leave behind.
-/

namespace Treewalk

/-! ## Sources -/

namespace Parse

theorem mem_of_mem_stringValue {text : String} {c : Char} (h : c ∈ (stringValue text).toList) :
    c ∈ text.toList := by
  -- a quote is taken from the front, then one from the end
  have hclosed : ∀ {opened : List Char}, (c ∈ opened → c ∈ text.toList) →
      c ∈ (if opened.getLast? = some '"' then opened.dropLast else opened) → c ∈ text.toList := by
    intro opened hopened hc
    split at hc
    · exact hopened ((List.dropLast_sublist _).subset hc)
    · exact hopened hc
  rw [stringValue, String.toList_ofList] at h
  refine hclosed ?_ h
  split
  · next rest htext => exact fun hc => htext ▸ List.mem_cons_of_mem _ hc
  · exact id

theorem mem_of_mem_charValue {text value : String} (hv : charValue? text = some value) {c : Char}
    (h : c ∈ value.toList) : c ∈ text.toList := by
  rw [charValue?] at hv
  split at hv
  · next c' htext =>
    cases hv
    rw [String.toList_singleton, List.mem_singleton] at h
    rw [htext, h]
    simp
  · cases hv

end Parse

/-- What a node says on one line if every token is on one. -/
theorem Code.Placed.unbroken {ts : List Token} {c : Code} (h : c.Placed ts)
    (hts : ∀ t ∈ ts, '\n' ∉ t.text.toList) : c.Unbroken := by
  rcases c with e | s
  · cases e with
    | char mark text =>
      obtain ⟨t, ht, -, hv⟩ := h
      exact fun hc => hts t ht (Parse.mem_of_mem_charValue hv hc)
    | string mark text =>
      obtain ⟨t, ht, -, -, rfl⟩ := h
      exact fun hc => hts t ht (Parse.mem_of_mem_stringValue hc)
    | _ => trivial
  · cases s with
    | define mark name params body =>
      obtain ⟨t, ht, -, rfl⟩ := h
      exact hts t ht
    | print mark format args =>
      obtain ⟨-, t, ht, -, rfl⟩ := h
      exact fun hc => hts t ht (Parse.mem_of_mem_stringValue hc)
    | _ => trivial

/-- The texts in an accepted source are on one line each. -/
theorem Source.lined_of_program {source : List UInt8} {body : List Stmt}
    (h : Source.program source = .ok body) : ∀ st ∈ body, Code.All Code.Lined (.stmt st) := by
  have hfaultless := ((diagnostics_eq_nil_iff source).mp (diagnostics_of_program h)).1
  intro st hst c hc
  exact ⟨proper_of_program h st hst c hc,
    (placed_of_program h st hst c hc).unbroken fun t => hfaultless.newline_notMem_text⟩

theorem unbroken_rooted : unbroken.Rooted where
  code _ h hs := Source.lined_of_program h _ hs
  root _ := ⟨trivial, trivial⟩
  rename _ hm := Store.Holds.rename hm _ _
  initial name _ _ := Store.holds_initial name Value.lined_builtin

/-! ## Output -/

/-- Proper values have texts. -/
theorem checkTexts_of_proper {args : List Value} (h : ∀ v ∈ args, v.Proper) (place step : Nat) :
    checkTexts place step args = .ok () :=
  checkTexts_of_textual (fun v hv => Value.untextual?_of_proper (h v hv)) place step

/-- A print statement writes one line, unless its format has more placeholders than there are
arguments. -/
theorem printText_cases {format : String} (hf : '\n' ∉ format.toList) {args : List Value}
    (ha : ∀ v ∈ args, v.Lined) :
    (∃ line : String, '\n' ∉ line.toList ∧ printText format args = .ok (line ++ "\n")) ∨
      ∃ needed, printText format args = .error (.placeholders "print" needed args.length) := by
  have hproper := fun v hv => (ha v hv).proper
  have hunbroken := fun v hv => (ha v hv).unbroken
  have hend : format.toList.getLast? ≠ some '\n' := fun h => hf (List.mem_of_getLast? h)
  unfold printText
  simp only [if_neg hend]
  split
  · refine .inl ⟨joined " " args, newline_notMem_joined (by decide) hunbroken, ?_⟩
    rw [checkTexts_of_proper hproper]
    rfl
  · cases hr : render "print" format args with
    | ok text =>
      exact .inl ⟨text, newline_notMem_render hf hunbroken hr, rfl⟩
    | error cause =>
      refine .inr ⟨(Template.ofText format).holes, ?_⟩
      unfold render at hr
      simp only at hr
      split at hr
      · cases hr
        rfl
      · rw [checkTexts_of_proper fun v hv => hproper v (List.mem_of_mem_take hv)] at hr
        cases hr

/-! ## Moments -/

/-- A moment at which all is on one line: what is bound when it comes and when it is over, and its
value. And if its code writes something, then a print statement whose arguments have values writes
one line, unless its format has too many placeholders, and then nothing; `writeln` writes one line,
and `write` does not end a line. -/
structure Moment.Lined (limit : Nat) (b : Moment) : Prop where
  before : b.machine.store.Holds Value.Unbroken
  after : ((b.run limit).after b.machine).store.Holds Value.Unbroken
  value : ∀ v m, b.run limit b.machine = .ok v m → v.Unbroken
  print : ∀ n mark format args vs m, b.nesting = n + 1 → b.code = .stmt (.print mark format args) →
    Run.each (fun e => Run.eval limit n e b.frame) args b.machine = .ok vs m →
      (∃ line : String, '\n' ∉ line.toList ∧
        b.run limit b.machine = .ok .nil { m with output := m.output ++ (line ++ "\n") }) ∨
      ∃ f needed, f.fault = .placeholders "print" needed vs.length ∧
        b.run limit b.machine = .error (.failure f) m
  writeln : ∀ n mark name args vs m, b.nesting = n + 1 → b.code = .expr (.call mark name args) →
    b.machine.store.get? b.frame name = some (.builtin .writeln) →
    Run.each (fun e => Run.eval limit n e b.frame) args b.machine = .ok vs m →
      ∃ line : String, '\n' ∉ line.toList ∧
        b.run limit b.machine = .ok .nil { m with output := m.output ++ (line ++ "\n") }
  write : ∀ n mark name args vs m, b.nesting = n + 1 → b.code = .expr (.call mark name args) →
    b.machine.store.get? b.frame name = some (.builtin .write) →
    Run.each (fun e => Run.eval limit n e b.frame) args b.machine = .ok vs m →
      ∃ text : String, '\n' ∉ text.toList ∧
        b.run limit b.machine = .ok .nil { m with output := m.output ++ text }

theorem Store.Holds.unbroken {s : Store} (h : s.Holds Value.Lined) : s.Holds Value.Unbroken :=
  fun g entry he => (h g entry he).unbroken

namespace Moment

variable {limit n : Nat} {f : FrameId} {m m' : Machine} {mark : Mark} {args : List Expr}
  {vs : List Value}

/-- The arguments of a node have values on one line. -/
theorem lined_of_each {c : Code} (h : unbroken.At ⟨n + 1, c, f, m⟩)
    (hc : ∀ e ∈ args, .expr e ∈ c.parts)
    (hr : Run.each (fun e => Run.eval limit n e f) args m = .ok vs m') : ∀ v ∈ vs, v.Lined := by
  obtain ⟨he, -⟩ := unbroken_stable.keeps limit n
  exact ((he.each unbroken_stable (fun e hm => h.code.part (hc e hm)) h.frame).of_ok h.state hr).2

theorem print_of_lined {format : String}
    (h : unbroken.At ⟨n + 1, .stmt (.print mark format args), f, m⟩)
    (hr : Run.each (fun e => Run.eval limit n e f) args m = .ok vs m') :
    (∃ line : String, '\n' ∉ line.toList ∧
      run limit ⟨n + 1, .stmt (.print mark format args), f, m⟩ m =
        .ok .nil { m' with output := m'.output ++ (line ++ "\n") }) ∨
    ∃ fl needed, fl.fault = .placeholders "print" needed vs.length ∧
      run limit ⟨n + 1, .stmt (.print mark format args), f, m⟩ m = .error (.failure fl) m' := by
  have hvs := lined_of_each h (fun e he => by simpa [Code.parts] using he) hr
  have hexec := Run.exec_print mark format hr
  rcases printText_cases (h.code.here.unbroken : '\n' ∉ format.toList) hvs with
    ⟨line, hline, htext⟩ | ⟨needed, htext⟩
  · have hok : Run.exec limit (n + 1) (.print mark format args) f m =
        .ok .next { m' with output := m'.output ++ (line ++ "\n") } := by
      rw [hexec, htext]
      exact Run.blaming_of_ok mark f rfl
    exact .inl ⟨line, hline, Run.bind_of_ok hok⟩
  · let fl := (Failure.ofFault (.placeholders "print" needed vs.length)).blame mark
      (m'.store.source? f)
    have herror : Run.exec limit (n + 1) (.print mark format args) f m =
        .error (.failure fl) m' := by
      rw [hexec, htext]
      rfl
    exact .inr ⟨fl, needed, Failure.blame_fault .., Run.bind_of_error herror⟩

/-- A built-in function that shows its arguments writes a text. -/
theorem run_of_shows {name : String} {b : Builtin}
    (h : unbroken.At ⟨n + 1, .expr (.call mark name args), f, m⟩)
    (hb : m.store.get? f name = some (.builtin b))
    (hr : Run.each (fun e => Run.eval limit n e f) args m = .ok vs m') {text : String}
    (hshows : b.call vs = do
      Run.lift (checkTexts 0 1 vs)
      Run.emit text
      return .nil) :
    run limit ⟨n + 1, .expr (.call mark name args), f, m⟩ m =
      .ok .nil { m' with output := m'.output ++ text } := by
  have hvs := lined_of_each h (fun e he => by simpa [Code.parts] using he) hr
  refine Run.eval_call_builtin mark hb hr ?_
  rw [hshows, checkTexts_of_proper fun v hv => (hvs v hv).proper]
  rfl

/-- Where everything is on one line, output goes line by line. -/
theorem lined_of_unbroken {b : Moment} (h : unbroken.At b) : b.Lined limit := by
  have hk := unbroken_stable.run_keeps h limit
  obtain ⟨_, _, f, m⟩ := b
  refine ⟨h.state.unbroken, (hk.next_after h.state).state.unbroken,
    fun v m' hr => (hk.of_ok h.state hr).2.unbroken, ?_, ?_, ?_⟩
  · rintro n mark format args vs m' rfl rfl hr
    exact print_of_lined h hr
  · rintro n mark name args vs m' rfl rfl hb hr
    have hvs := lined_of_each h (fun e he => by simpa [Code.parts] using he) hr
    exact ⟨joined " " vs, newline_notMem_joined (by decide) fun v hv => (hvs v hv).unbroken,
      run_of_shows h hb hr rfl⟩
  · rintro n mark name args vs m' rfl rfl hb hr
    have hvs := lined_of_each h (fun e he => by simpa [Code.parts] using he) hr
    exact ⟨joined "" vs, newline_notMem_joined (by decide) fun v hv => (hvs v hv).unbroken,
      run_of_shows h hb hr rfl⟩

end Moment

/-! ## Sessions -/

/-- **One print, one line.** Take any session, whatever units, resets and calls of built-in
functions it has seen and whatever its input. No value that is bound and none that turns up at any
moment of one more unit shows a line feed; for a character or a string this says that it has none.
So a print statement and a call of `writeln` write a text with one line feed, which is its last
character, and a call of `write` writes a text without. -/
theorem Session.prints_one_line (name : Option String) (input : String) (events : List Event) :
    let s := (start name input).meetAll events
    s.machine.store.Holds Value.Unbroken ∧
    ∀ (limits : Limits) (unit : Option String) (source : List UInt8),
      (∀ b, s.Passes limits unit source b → b.Lined limits.rounds) ∧
      ∀ v, (s.run limits unit source).1 = .ok v → v.Unbroken := by
  have hs := unbroken_rooted.state_meetAll (s := start name input) unbroken_stable
    (Store.holds_initial name Value.lined_builtin) events
  refine ⟨Store.Holds.unbroken hs, fun limits unit source => ⟨fun b hb => ?_, fun v hv => ?_⟩⟩
  · exact Moment.lined_of_unbroken (unbroken_rooted.at_passes unbroken_stable hs hb).1
  · exact (unbroken_rooted.value_of_run unbroken_stable hs hv).unbroken

end Treewalk
