import Treewalk.Proofs.Reader.Progress
import Treewalk.Proofs.Reader.Runs

/-!
# The loops of the grammar

Six loops read what may be repeated: the statements of a source and of a block, the arguments of a
format, parameters, arguments of a call, and the operands of a level of operators. Each is written
as a recursion that gives its result from behind. Here each is the repetition of a round instead,
which is handed what has been read so far and says whether another round follows.

Every round that another one follows takes a token. In a list of parameters or of arguments so does
the last round, for these lists are not empty.

## Main definitions

* `Parse.Loop`, the loops, and `Parse.Loop.round`, one round of each
* `Parse.Loop.read`, a loop as it stands in the grammar
* `Parse.Onward`, a reader that takes a token if it is near enough to the end

## Main results

* `Parse.Loop.read_eq_rounds`: a loop is its round, repeated
* `Parse.itemRound_moves` and the like: how far one round comes

## Implementation notes

The loops of the grammar build their results on the way back, which is natural for a parser and
awkward for counting: the number of rounds is not visible in it. `read_eq_rounds` is an equation
between actions, so that it can be used by rewriting, and results that were built in the two ways
are compared by putting what has been read so far in front.

The state of a loop depends on the loop, hence the dependent types. They are confined to `Loop`, and
each lemma about a round is about a plain function.
-/

namespace Treewalk.Parse

variable {α : Type} {T : Nat → Token} {stop i k : Nat} {deep : Prop} {expr tighter : Parse Expr}
  {stmt : Parse Stmt} {atEnd : Parse Bool}

/-! ## Rounds -/

/-- A name, and whether a comma follows. -/
def paramRound (seen : List String) : Parse (List String × Bool) := do
  let name ← expect .ident
  if seen.contains name.text then throw ⟨name.pos, .repeatedParam name.text⟩
  if ← accept [.comma] then return (seen ++ [name.text], true)
  else return (seen ++ [name.text], false)

/-- An argument, and whether a comma follows. -/
def argRound (expr : Parse Expr) (args : List Expr) : Parse (List Expr × Bool) := do
  let arg ← expr
  if ← accept [.comma] then return (args ++ [arg], true) else return (args ++ [arg], false)

/-- A comma and an argument, or the end of the list. -/
def moreArgRound (expr : Parse Expr) (args : List Expr) : Parse (List Expr × Bool) := do
  if ← accept [.comma] then return (args ++ [← expr], true) else return (args, false)

/-- An operator and an operand, or the end of the level. -/
def joinRound (ops : List Kind) (tighter : Parse Expr) (left : Expr) : Parse (Expr × Bool) := do
  if ← check ops then
    let op ← advance
    let right ← tighter
    return (.binary (markOf op) left ⟨op.kind, op.text⟩ right, true)
  else return (left, false)

/-- A comment that is passed over, a statement, or the end of the sequence. -/
def itemRound (atEnd : Parse Bool) (stmt : Parse Stmt) (body : List Stmt) :
    Parse (List Stmt × Bool) := do
  if ← atEnd then return (body, false)
  else if ← accept [.comment] then return (body, true)
  else return (body ++ [← stmt], true)

theorem paramsFrom_eq_rounds (n : Nat) (seen : List String) :
    paramsFrom n seen = rounds paramRound n seen := by
  induction n generalizing seen with
  | zero => rfl
  | succ n ih =>
    simp only [paramsFrom, rounds, paramRound, bind_assoc]
    refine bind_congr fun name => ?_
    split
    · rfl
    · simp only [bind_assoc]
      refine bind_congr fun comma => ?_
      cases comma <;> simp [ih]

theorem argsFrom_eq_rounds (expr : Parse Expr) (n : Nat) (args : List Expr) :
    (args ++ ·) <$> argsFrom expr n = rounds (argRound expr) n args := by
  induction n generalizing args with
  | zero => rfl
  | succ n ih =>
    simp only [argsFrom, rounds, argRound, bind_assoc, map_bind]
    refine bind_congr fun arg => bind_congr fun comma => ?_
    cases comma <;> simp [← ih]

theorem moreArgsFrom_eq_rounds (expr : Parse Expr) (n : Nat) (args : List Expr) :
    (args ++ ·) <$> moreArgsFrom expr n = rounds (moreArgRound expr) n args := by
  induction n generalizing args with
  | zero => rfl
  | succ n ih =>
    simp only [moreArgsFrom, rounds, moreArgRound, bind_assoc, map_bind]
    refine bind_congr fun comma => ?_
    cases comma <;> simp [← ih]

theorem joinFrom_eq_rounds (ops : List Kind) (tighter : Parse Expr) (n : Nat) (left : Expr) :
    joinFrom ops tighter n left = rounds (joinRound ops tighter) n left := by
  induction n generalizing left with
  | zero => rfl
  | succ n ih =>
    simp only [joinFrom, rounds, joinRound, bind_assoc]
    refine bind_congr fun more => ?_
    cases more <;> simp [ih]

theorem statementsFrom_eq_rounds (atEnd : Parse Bool) (stmt : Parse Stmt) (n : Nat)
    (body : List Stmt) :
    (body ++ ·) <$> statementsFrom atEnd stmt n = rounds (itemRound atEnd stmt) n body := by
  induction n generalizing body with
  | zero => rfl
  | succ n ih =>
    simp only [statementsFrom, rounds, itemRound, bind_assoc, map_bind]
    refine bind_congr fun ended => ?_
    cases ended with
    | true => simp
    | false =>
      simp only [Bool.false_eq_true, if_false, bind_assoc, map_bind]
      refine bind_congr fun comment => ?_
      cases comment <;> simp [← ih]

/-! ## How far a round comes -/

/-- Wherever `k` tokens would lead past the end, the reader takes a token at least. The number is
for an induction on how many tokens are left, so nothing is said about places that are further from
the end. -/
def Onward (T : Nat → Token) (stop : Nat) (deep : Prop) (p : Parse α) (k : Nat) : Prop :=
  ∀ i, stop < i + k → Moves T stop deep i p fun _ j => i < j

/-- What a loop asks of a round that starts at number `i`: to take a token, unless it is the last
round; this one takes as many as `d` says. A round that takes nothing and is not the last would be
repeated for ever. -/
def Proceeds {σ : Type} (d i : Nat) (x : σ × Bool) (j : Nat) : Prop :=
  if x.2 then i < j else i + d ≤ j

theorem paramRound_moves (seen : List String) :
    Moves T stop deep i (paramRound seen) (Proceeds 1 i) := by
  refine Moves.expect (by decide) fun _ => ?_
  split
  · exact Moves.throw nofun
  · refine Moves.accept (by decide) (fun _ => Moves.pure ?_) fun _ => Moves.pure ?_
    · exact Nat.lt_succ_of_lt (Nat.lt_succ_self i)
    · exact Nat.le_refl (i + 1)

theorem argRound_moves (he : Onward T stop deep expr k) (hi : stop < i + k) (args : List Expr) :
    Moves T stop deep i (argRound expr args) (Proceeds 1 i) := by
  refine (he i hi).bind fun arg j hj => ?_
  refine Moves.accept (by decide) (fun _ => Moves.pure ?_) fun _ => Moves.pure ?_
  · exact Nat.lt_succ_of_lt hj
  · exact hj

theorem moreArgRound_moves (he : Onward T stop deep expr k) (hi : stop < i + 1 + k)
    (args : List Expr) : Moves T stop deep i (moreArgRound expr args) (Proceeds 0 i) := by
  refine Moves.accept (by decide) (fun _ => ?_) fun _ => Moves.pure (Nat.le_refl i)
  exact (he (i + 1) hi).bind fun arg j hj => Moves.pure (Nat.lt_of_succ_lt hj)

theorem joinRound_moves {ops : List Kind} (ho : .eof ∉ ops) (ht : Onward T stop deep tighter k)
    (hi : stop < i + 1 + k) (left : Expr) :
    Moves T stop deep i (joinRound ops tighter left) (Proceeds 0 i) := by
  refine Moves.check (fun hk => ?_) fun _ => Moves.pure (Nat.le_refl i)
  refine Moves.advance (fun heof => ho (heof ▸ hk)) ?_
  exact (ht (i + 1) hi).bind fun right j hj => Moves.pure (Nat.lt_of_succ_lt hj)

/-- A look at whether a sequence has ended leads nowhere. -/
def Stays (T : Nat → Token) (stop : Nat) (deep : Prop) (p : Parse α) : Prop :=
  ∀ i, Moves T stop deep i p fun _ j => j = i

theorem check_stays (ks : List Kind) : Stays T stop deep (check ks) :=
  fun _ => Moves.get fun _ _ => Moves.pure rfl

theorem atClosingBrace_stays : Stays T stop deep atClosingBrace := by
  intro i
  unfold atClosingBrace
  refine Moves.check (fun _ => Moves.pure rfl) fun _ => ?_
  refine Moves.check (fun _ => Moves.failHere fun _ h => ?_) fun _ => Moves.pure rfl
  cases h

theorem itemRound_moves (ha : Stays T stop deep atEnd) (hs : Onward T stop deep stmt k)
    (hi : stop < i + k) (body : List Stmt) :
    Moves T stop deep i (itemRound atEnd stmt body) (Proceeds 0 i) := by
  refine (ha i).bind ?_
  rintro ended j rfl
  split
  · exact Moves.pure (Nat.le_refl j)
  · refine Moves.accept (by decide) (fun _ => Moves.pure ?_) fun _ => ?_
    · exact Nat.lt_succ_self j
    · exact (hs j hi).bind fun st j' hj => Moves.pure hj

/-! ## Loops -/

/-- The loops of the grammar. A level of operators is given by the number of looser ones. -/
inductive Loop where
  | items | blockItems | formatArgs | params | args | level (looser : Fin levels.length)

namespace Loop

/-- What a loop has read so far. -/
abbrev State : Loop → Type
  | .items | .blockItems => List Stmt
  | .formatArgs | .args => List Expr
  | .params => List String
  | .level _ => Expr

/-- How many tokens the last round takes at least. -/
def least : Loop → Nat
  | .params | .args => 1
  | .items | .blockItems | .formatArgs | .level _ => 0

/-- One round, with a bound on the nesting of what it reads. -/
def round (n : Nat) : (l : Loop) → l.State → Parse (l.State × Bool)
  | .items => itemRound (check [.eof]) (Parse.stmt n)
  | .blockItems => itemRound atClosingBrace (Parse.stmt n)
  | .formatArgs => moreArgRound (Parse.expr n)
  | .params => paramRound
  | .args => argRound (Parse.expr n)
  | .level looser => joinRound levels[looser] (climb (levels.drop (looser + 1)) (unary n))

/-- The loop of the grammar, going on from what has been read so far; `m` is a bound on the number
of rounds. -/
def read (n m : Nat) : (l : Loop) → l.State → Parse l.State
  | .items, body => (body ++ ·) <$> statementsFrom (check [.eof]) (Parse.stmt n) m
  | .blockItems, body => (body ++ ·) <$> statementsFrom atClosingBrace (Parse.stmt n) m
  | .formatArgs, given => (given ++ ·) <$> moreArgsFrom (Parse.expr n) m
  | .params, seen => paramsFrom m seen
  | .args, given => (given ++ ·) <$> argsFrom (Parse.expr n) m
  | .level looser, left =>
    joinFrom levels[looser] (climb (levels.drop (looser + 1)) (unary n)) m left

/-- A loop is its round, repeated. The loops of the grammar are written as recursions with a bound.
Taking the round out of each makes one loop of them, about which everything has to be said once. -/
theorem read_eq_rounds (n m : Nat) (l : Loop) (s : l.State) :
    l.read n m s = rounds (l.round n) m s := by
  cases l with
  | items => exact statementsFrom_eq_rounds _ _ m s
  | blockItems => exact statementsFrom_eq_rounds _ _ m s
  | formatArgs => exact moreArgsFrom_eq_rounds _ m s
  | params => exact paramsFrom_eq_rounds m s
  | args => exact argsFrom_eq_rounds _ m s
  | level looser => exact joinFrom_eq_rounds _ _ m s

end Loop

end Treewalk.Parse
