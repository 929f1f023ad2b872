import Treewalk.Proofs.Reader.Place

/-!
# Readers keep their place

Whatever is done with a reader, and in whatever order, it stands at some number of the stream that
it was made for. Moves lead from one number to the next, the one before or the same, which is what
`Reader.At` is made for; all else that reads tokens is put together from moves, so it is enough that
the property passes through sequencing. A construction that fails halfway leaves the reader at the
number where it failed, and reading goes on from there.

## Main definitions

* `Parse.Keeps`, an action that leaves a reader at some number of its stream
* `Parse.Construction`, the readers of the grammar, and `Parse.Operation`, these and the moves
* `Reader.afterAll`, what is left of a reader after many operations

## Main results

* `Parse.keeps_construction`: every reader of the grammar keeps its place
* `Reader.navigation_exact`: the place after any run, and where each move leads from there

## Implementation notes

`Keeps` says nothing about where an action ends, only that it is somewhere. This is enough for
navigation, and it makes the lemmas nearly automatic: every construction is a sequence of moves and
choices, and none of them needs to know which token is ahead.

Runs are lists of operations chosen by the reader of the theorem, with bounds chosen as well. They
need not be what any parser would do. An operation that fails does not end the run, since a reader
is left in a definite state also by a failure, and this is part of what is claimed.
-/

namespace Treewalk

namespace Parse

/-- The action leaves a reader at some number of its stream, also if it fails. It does not say which
number, since a property of all constructions cannot; what it says is that no token is lost,
repeated or moved. -/
def Keeps (p : Parse α) : Prop :=
  ∀ (T : Nat → Token) (i : Nat) (r : Reader), r.At T i → ∃ j, (r.after p).At T j

variable {α β : Type} {p q : Parse α} {f : α → Parse β}

/-! ## Sequencing -/

/-- An action that never moves. -/
theorem Keeps.of_still (h : ∀ r : Reader, r.after p = r) : Keeps p := by
  intro T i r hr
  rw [h r]
  exact ⟨i, hr⟩

theorem Keeps.pure (a : α) : Keeps (Pure.pure a) :=
  of_still fun _ => rfl

theorem Keeps.throw (e : Error) : Keeps (MonadExcept.throw e : Parse α) :=
  of_still fun _ => rfl

theorem Keeps.failHere (cause : Reader → Cause) : Keeps (Parse.failHere cause : Parse α) :=
  of_still fun _ => rfl

theorem Keeps.bind (hp : Keeps p) (hf : ∀ a, Keeps (f a)) : Keeps (p >>= f) := by
  intro T i r hr
  obtain ⟨j, hj⟩ := hp T i r hr
  cases hpr : p r with
  | error e r' =>
    rw [Reader.after, hpr] at hj
    rw [Reader.after, bind_of_error hpr]
    exact ⟨j, hj⟩
  | ok a r' =>
    rw [Reader.after, hpr] at hj
    rw [Reader.after, bind_of_ok hpr]
    exact hf a T j r' hj

theorem Keeps.get {f : Reader → Parse β} (hf : ∀ r, Keeps (f r)) : Keeps (MonadState.get >>= f) :=
  Keeps.bind (of_still fun _ => rfl) hf

theorem Keeps.bound {f : Nat → Parse β} (hf : ∀ n, Keeps (f n)) : Keeps (Parse.bound >>= f) :=
  Keeps.bind (of_still fun _ => rfl) hf

theorem Keeps.ite {c : Prop} [Decidable c] (hp : Keeps p) (hq : Keeps q) :
    Keeps (if c then p else q) := by
  split
  · exact hp
  · exact hq

/-! ## Moves -/

theorem keeps_advance : Keeps Parse.advance := by
  intro T i r hr
  rw [Reader.after, hr.advance]
  exact ⟨i + 1, hr.advanced⟩

theorem keeps_check (kinds : List Kind) : Keeps (Parse.check kinds) :=
  Keeps.of_still fun _ => rfl

theorem keeps_accept (kinds : List Kind) : Keeps (Parse.accept kinds) := by
  intro T i r hr
  obtain ⟨r', hr', hat⟩ := hr.accept kinds
  rw [Reader.after, hr']
  split at hat
  · exact ⟨i + 1, hat⟩
  · exact ⟨i, hat ▸ hr⟩

theorem keeps_expectOr (kind : Kind) (cause : Reader → Cause) :
    Keeps (Parse.expectOr kind cause) := by
  intro T i r hr
  have h := hr.expectOr kind cause
  split at h
  · obtain ⟨r', hr', hat⟩ := h
    rw [Reader.after, hr']
    exact ⟨i + 1, hat⟩
  · rw [Reader.after, h]
    exact ⟨i, hr⟩

theorem keeps_expect (kind : Kind) : Keeps (Parse.expect kind) :=
  keeps_expectOr kind _

theorem keeps_goBack : Keeps Parse.goBack := by
  intro T i r hr
  by_cases hp : r.previous = none
  · rw [Reader.after, hr.goBack_fails hp]
    exact ⟨i, hr⟩
  · obtain ⟨r', hr', -, hat⟩ := hr.goBack hp
    rw [Reader.after, hr']
    exact ⟨i - 1, hat⟩

/-- A choice by a look at the current token. -/
theorem Keeps.check {kinds : List Kind} (hp : Keeps p) (hq : Keeps q) :
    Keeps (do if ← Parse.check kinds then p else q) :=
  (keeps_check kinds).bind fun _ => hp.ite hq

/-- A choice by whether a token could be taken. -/
theorem Keeps.accept {kinds : List Kind} (hp : Keeps p) (hq : Keeps q) :
    Keeps (do if ← Parse.accept kinds then p else q) :=
  (keeps_accept kinds).bind fun _ => hp.ite hq

/-! ## Expressions

The readers of parts are variables here, and `keeps_recursive` puts the real ones in. -/

section

variable {expr deeper : Parse Expr} {block branch stmt : Parse Stmt}

theorem keeps_paramsFrom (n : Nat) (seen : List String) : Keeps (paramsFrom n seen) := by
  induction n generalizing seen with
  | zero => exact Keeps.failHere _
  | succ n ih =>
    rw [paramsFrom]
    refine (keeps_expect .ident).bind fun name => ?_
    have hrest : Keeps (do if ← Parse.accept [.comma] then paramsFrom n (seen ++ [name.text])
                           else return seen ++ [name.text]) :=
      Keeps.accept (ih _) (Keeps.pure _)
    exact ((Keeps.throw _).bind fun _ => hrest).ite hrest

theorem keeps_paramList : Keeps paramList := by
  have hclose : ∀ names : List String, Keeps (do let _ ← Parse.expect .rparen; return names) :=
    fun names => (keeps_expect .rparen).bind fun _ => Keeps.pure names
  refine (keeps_expect .lparen).bind fun _ => Keeps.check (hclose []) ?_
  exact Keeps.bound fun n => (keeps_paramsFrom n []).bind hclose

theorem keeps_argsFrom (he : Keeps expr) (n : Nat) : Keeps (argsFrom expr n) := by
  induction n with
  | zero => exact Keeps.failHere _
  | succ n ih =>
    exact he.bind fun first => Keeps.accept (ih.bind fun _ => Keeps.pure _) (Keeps.pure [first])

theorem keeps_argList (he : Keeps expr) : Keeps (argList expr) :=
  Keeps.check (Keeps.pure []) (Keeps.bound (keeps_argsFrom he))

theorem keeps_literal (t : Token) (cause : Cause) (v : Option α) : Keeps (literal t cause v) := by
  cases v with
  | none => exact Keeps.throw _
  | some a => exact Keeps.pure a

theorem keeps_primary (he : Keeps expr) : Keeps (primary expr) := by
  refine Keeps.get fun r => ?_
  dsimp only
  split
  · exact keeps_advance.bind fun _ => (keeps_literal _ _ _).bind fun _ => Keeps.pure _
  · exact keeps_advance.bind fun _ => (keeps_literal _ _ _).bind fun _ => Keeps.pure _
  · exact keeps_advance.bind fun _ => (keeps_literal _ _ _).bind fun _ => Keeps.pure _
  · exact keeps_advance.bind fun _ => Keeps.pure _
  · exact keeps_advance.bind fun _ => Keeps.pure _
  · exact keeps_advance.bind fun _ => Keeps.pure _
  · exact keeps_advance.bind fun _ => Keeps.pure _
  · exact keeps_advance.bind fun _ => he.bind fun _ =>
      (keeps_expect .rparen).bind fun _ => Keeps.pure _
  · exact Keeps.failHere _

theorem keeps_operand (he : Keeps expr) : Keeps (operand expr) := by
  refine Keeps.check (keeps_advance.bind fun name => ?_) (keeps_primary he)
  refine Keeps.accept ((keeps_argList he).bind fun args => ?_) (Keeps.pure _)
  exact (keeps_expect .rparen).bind fun _ => Keeps.pure _

theorem keeps_signed (he : Keeps expr) (hd : Keeps deeper) : Keeps (signed expr deeper) :=
  Keeps.check (keeps_advance.bind fun _ => hd.bind fun _ => Keeps.pure _) (keeps_operand he)

theorem keeps_joinFrom (ops : List Kind) {tighter : Parse Expr} (ht : Keeps tighter) (n : Nat)
    (left : Expr) : Keeps (joinFrom ops tighter n left) := by
  induction n generalizing left with
  | zero => exact Keeps.failHere _
  | succ n ih =>
    exact Keeps.check (keeps_advance.bind fun _ => ht.bind fun _ => ih _) (Keeps.pure left)

theorem keeps_climb {tightest : Parse Expr} (ht : Keeps tightest) (ls : List (List Kind)) :
    Keeps (climb ls tightest) := by
  induction ls with
  | nil => exact ht
  | cons ops more ih =>
    exact ih.bind fun left => Keeps.bound fun n => keeps_joinFrom ops ih n left

theorem keeps_lambda (he : Keeps expr) (hb : Keeps block) : Keeps (lambda expr block) := by
  refine (keeps_expect .fnKw).bind fun _ => keeps_paramList.bind fun _ => ?_
  exact Keeps.check (keeps_advance.bind fun _ => he.bind fun _ => Keeps.pure _)
    (hb.bind fun _ => Keeps.pure _)

theorem keeps_expression (he : Keeps expr) (hb : Keeps block) (hd : Keeps deeper) :
    Keeps (expression expr block deeper) :=
  Keeps.check (keeps_lambda he hb) (keeps_climb hd levels)

/-! ## Statements -/

/-- What ends in a semicolon. -/
theorem Keeps.semicolon {x : β} : Keeps (do let _ ← Parse.expect .semicolon; return x) :=
  (keeps_expect .semicolon).bind fun _ => Keeps.pure x

theorem keeps_evalStmt (he : Keeps expr) : Keeps (evalStmt expr) :=
  he.bind fun _ => Keeps.semicolon

theorem keeps_declareStmt (he : Keeps expr) : Keeps (declareStmt expr) := by
  refine (keeps_expect .letKw).bind fun _ => (keeps_expect .ident).bind fun _ => ?_
  exact Keeps.accept (he.bind fun _ => Keeps.semicolon) Keeps.semicolon

theorem keeps_assignStmt (he : Keeps expr) : Keeps (assignStmt expr) :=
  keeps_advance.bind fun _ => Keeps.accept (he.bind fun _ => Keeps.semicolon)
    (keeps_goBack.bind fun _ => keeps_evalStmt he)

theorem keeps_loopStmt (he : Keeps expr) (hb : Keeps block) : Keeps (loopStmt expr block) :=
  (keeps_expect .whileKw).bind fun _ => he.bind fun _ => hb.bind fun _ => Keeps.pure _

theorem keeps_defineStmt (he : Keeps expr) (hb : Keeps block) : Keeps (defineStmt expr block) := by
  refine keeps_advance.bind fun _ => Keeps.check (keeps_advance.bind fun _ => ?_)
    (keeps_goBack.bind fun _ => keeps_evalStmt he)
  exact keeps_paramList.bind fun _ => hb.bind fun _ => Keeps.pure _

theorem keeps_giveStmt (he : Keeps expr) : Keeps (giveStmt expr) :=
  (keeps_expect .returnKw).bind fun _ =>
    Keeps.check Keeps.semicolon (he.bind fun _ => Keeps.semicolon)

theorem keeps_moreArgsFrom (he : Keeps expr) (n : Nat) : Keeps (moreArgsFrom expr n) := by
  induction n with
  | zero => exact Keeps.failHere _
  | succ n ih =>
    exact Keeps.accept (he.bind fun _ => ih.bind fun _ => Keeps.pure _) (Keeps.pure [])

theorem keeps_printStmt (he : Keeps expr) : Keeps (printStmt expr) := by
  refine (keeps_expect .printKw).bind fun _ => (keeps_expect .lparen).bind fun _ => ?_
  refine (keeps_expectOr .string _).bind fun _ => Keeps.bound fun n => ?_
  exact (keeps_moreArgsFrom he n).bind fun _ => (keeps_expect .rparen).bind fun _ => Keeps.semicolon

theorem keeps_branchStmt (he : Keeps expr) (hb : Keeps block) (hr : Keeps branch) :
    Keeps (branchStmt expr block branch) := by
  refine (keeps_expect .ifKw).bind fun _ => he.bind fun _ => hb.bind fun _ => ?_
  refine Keeps.accept (Keeps.check ?_ ?_) (Keeps.pure _)
  · exact hr.bind fun _ => Keeps.pure _
  · exact hb.bind fun _ => Keeps.pure _

theorem keeps_statement (he : Keeps expr) (hb : Keeps block) (hr : Keeps branch) :
    Keeps (statement expr block branch) := by
  refine Keeps.get fun r => ?_
  split
  · exact keeps_advance.bind fun _ => Keeps.pure _
  · exact keeps_declareStmt he
  · exact keeps_assignStmt he
  · exact hb
  · exact hr
  · exact Keeps.failHere _
  · exact keeps_loopStmt he hb
  · exact keeps_defineStmt he hb
  · exact keeps_giveStmt he
  · exact keeps_printStmt he
  · exact keeps_evalStmt he

theorem keeps_statementsFrom {atEnd : Parse Bool} (ha : Keeps atEnd) (hs : Keeps stmt) (n : Nat) :
    Keeps (statementsFrom atEnd stmt n) := by
  induction n with
  | zero => exact Keeps.failHere _
  | succ n ih =>
    refine ha.bind fun _ => (Keeps.pure []).ite (Keeps.accept ih ?_)
    exact hs.bind fun _ => ih.bind fun _ => Keeps.pure _

theorem keeps_atClosingBrace : Keeps atClosingBrace :=
  Keeps.check (Keeps.pure true) (Keeps.check (Keeps.failHere _) (Keeps.pure false))

theorem keeps_blockStmt (hs : Keeps stmt) : Keeps (blockStmt stmt) := by
  refine (keeps_expect .lbrace).bind fun _ => Keeps.bound fun n => ?_
  refine (keeps_statementsFrom keeps_atClosingBrace hs n).bind fun _ => ?_
  exact (keeps_expect .rbrace).bind fun _ => Keeps.pure _

end

/-- The recursive readers, with any bound. -/
theorem keeps_recursive (n : Nat) :
    Keeps (expr n) ∧ Keeps (unary n) ∧ Keeps (block n) ∧ Keeps (branch n) ∧ Keeps (stmt n) := by
  induction n with
  | zero =>
    exact ⟨Keeps.failHere _, Keeps.failHere _, Keeps.failHere _, Keeps.failHere _, Keeps.failHere _⟩
  | succ n ih =>
    obtain ⟨he, hu, hb, hr, hs⟩ := ih
    exact ⟨keeps_expression he hb hu, keeps_signed he hu, keeps_blockStmt hs,
      keeps_branchStmt he hb hr, keeps_statement he hb hr⟩

theorem keeps_program : Keeps program :=
  Keeps.bound fun n => Keeps.bound fun n' =>
    keeps_statementsFrom (keeps_check [.eof]) (keeps_recursive n).2.2.2.2 n'

/-! ## Operations -/

/-- The readers of the grammar. A level of operators is given by the number of looser ones. -/
inductive Construction where
  | program | statement | evaluation | declaration | assignment | block | conditional | loop
  | definition | give | print | expression | lambda | level (looser : Nat) | unary | operand
  | primary | params | args

/-- The reader of a construction, with a bound on nesting; only its moves matter here. -/
def Construction.read (n : Nat) : Construction → Parse Unit
  | .program => discard Parse.program
  | .statement => discard (stmt n)
  | .evaluation => discard (evalStmt (expr n))
  | .declaration => discard (declareStmt (expr n))
  | .assignment => discard (assignStmt (expr n))
  | .block => discard (Parse.block n)
  | .conditional => discard (branch n)
  | .loop => discard (loopStmt (expr n) (Parse.block n))
  | .definition => discard (defineStmt (expr n) (Parse.block n))
  | .give => discard (giveStmt (expr n))
  | .print => discard (printStmt (expr n))
  | .expression => discard (expr n)
  | .lambda => discard (Parse.lambda (expr n) (Parse.block n))
  | .level looser => discard (climb (levels.drop looser) (Parse.unary n))
  | .unary => discard (Parse.unary n)
  | .operand => discard (Parse.operand (expr n))
  | .primary => discard (Parse.primary (expr n))
  | .params => discard paramList
  | .args => discard (argList (expr n))

/-- Every reader of the grammar keeps its place. Constructions are made of moves, and each of the
moves keeps its place, so nothing has to be known of what they read. -/
theorem keeps_construction (n : Nat) (c : Construction) : Keeps (c.read n) := by
  have hdiscard : ∀ {γ : Type} {p : Parse γ}, Keeps p → Keeps (discard p) :=
    fun hp => hp.bind fun _ => Keeps.pure ()
  obtain ⟨he, hu, hb, hr, hs⟩ := keeps_recursive n
  cases c with
  | program => exact hdiscard keeps_program
  | statement => exact hdiscard hs
  | evaluation => exact hdiscard (keeps_evalStmt he)
  | declaration => exact hdiscard (keeps_declareStmt he)
  | assignment => exact hdiscard (keeps_assignStmt he)
  | block => exact hdiscard hb
  | conditional => exact hdiscard hr
  | loop => exact hdiscard (keeps_loopStmt he hb)
  | definition => exact hdiscard (keeps_defineStmt he hb)
  | give => exact hdiscard (keeps_giveStmt he)
  | print => exact hdiscard (keeps_printStmt he)
  | expression => exact hdiscard he
  | lambda => exact hdiscard (keeps_lambda he hb)
  | level looser => exact hdiscard (keeps_climb hu _)
  | unary => exact hdiscard hu
  | operand => exact hdiscard (keeps_operand he)
  | primary => exact hdiscard (keeps_primary he)
  | params => exact hdiscard keeps_paramList
  | args => exact hdiscard (keeps_argList he)

/-- What can be done with a reader: the moves, and reading a construction with any bound. -/
inductive Operation where
  | advance
  | check (kinds : List Kind)
  | accept (kinds : List Kind)
  | expect (kind : Kind) (cause : Reader → Cause)
  | goBack
  | read (construction : Construction) (bound : Nat)

/-- The action of an operation. -/
def Operation.perform : Operation → Parse Unit
  | .advance => discard Parse.advance
  | .check kinds => discard (Parse.check kinds)
  | .accept kinds => discard (Parse.accept kinds)
  | .expect kind cause => discard (Parse.expectOr kind cause)
  | .goBack => Parse.goBack
  | .read construction bound => construction.read bound

theorem keeps_perform (op : Operation) : Keeps op.perform := by
  cases op with
  | advance => exact keeps_advance.bind fun _ => Keeps.pure ()
  | check kinds => exact (keeps_check kinds).bind fun _ => Keeps.pure ()
  | accept kinds => exact (keeps_accept kinds).bind fun _ => Keeps.pure ()
  | expect kind cause => exact (keeps_expectOr kind cause).bind fun _ => Keeps.pure ()
  | goBack => exact keeps_goBack
  | read construction bound => exact keeps_construction bound construction

end Parse

namespace Reader

/-- What operations one after another leave of a reader. One that fails does not stop the others. -/
def afterAll (r : Reader) (ops : List Parse.Operation) : Reader :=
  ops.foldl (fun r op => r.after op.perform) r

theorem At.afterAll {T : Nat → Token} {i : Nat} {r : Reader} (h : r.At T i)
    (ops : List Parse.Operation) : ∃ j, (r.afterAll ops).At T j := by
  induction ops generalizing i r with
  | nil => exact ⟨i, h⟩
  | cons op ops ih =>
    obtain ⟨j, hj⟩ := Parse.keeps_perform op T i r h
    exact ih hj

/-- **Navigation.** After any run of moves and constructions, in any order and with any failures in
between, a reader stands at some number of its stream, with nothing lost, repeated or out of order
around it. From there a step leads to the next number, a look leads nowhere, a token that is
accepted or expected leads to the next number if it has the kind and nowhere otherwise, and a step
back leads to the number before, unless the token before is unknown: then, and only then, it is an
error and nothing moves. -/
theorem navigation_exact (tokens : List Token) (eof : Token) (ops : List Parse.Operation) :
    let T := endless tokens eof
    let r := (ofTokens tokens eof).afterAll ops
    ∃ i, r.At T i ∧
      (∃ r', Parse.advance r = .ok (T i) r' ∧ r'.At T (i + 1)) ∧
      (∀ kinds : List Kind, Parse.check kinds r = .ok (kinds.contains (T i).kind) r) ∧
      (∀ kinds : List Kind, ∃ r', Parse.accept kinds r = .ok (kinds.contains (T i).kind) r' ∧
        if kinds.contains (T i).kind then r'.At T (i + 1) else r' = r) ∧
      (∀ (kind : Kind) (cause : Reader → Parse.Cause),
        if (T i).kind = kind then
          ∃ r', Parse.expectOr kind cause r = .ok (T i) r' ∧ r'.At T (i + 1)
        else Parse.expectOr kind cause r = .error ⟨(T i).pos, cause r⟩ r) ∧
      (r.previous = none → Parse.goBack r = .error ⟨(T i).pos, .nothingBehind⟩ r) ∧
      (r.previous ≠ none → ∃ r', Parse.goBack r = .ok () r' ∧ 0 < i ∧ r'.At T (i - 1)) := by
  intro T r
  obtain ⟨i, hi⟩ : ∃ i, r.At T i := (at_ofTokens tokens eof).afterAll ops
  exact ⟨i, hi, ⟨_, hi.advance, hi.advanced⟩, hi.check, hi.accept, hi.expectOr, hi.goBack_fails,
    hi.goBack⟩

end Reader

end Treewalk
