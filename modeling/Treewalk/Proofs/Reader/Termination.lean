import Treewalk.Proofs.Grammar.Exact
import Treewalk.Proofs.Reader.Rounds

/-!
# Parsing comes to an end

Every reader of the grammar takes a token before it is done, all but the readers of a list of
arguments and of a whole source, which may find nothing to read. None of them takes the end, though,
which could be taken for ever. So a parser has no more to do than there are tokens: it ends with
statements or with an error, and the bound on nesting that it descends with is never the reason.

## How this is counted

`Onward` is the property that passes along the constructions: a reader goes on by one number at
least, if it is given as many levels of nesting as there are tokens up to the end. With fewer levels
it may fail for want of them, and it still goes on if it does not fail. The two cases differ in
`deep` only, so each construction is looked at once.

## Main definitions

* `Parse.Advancing`, the recursive readers go on
* `Parse.Construction.Past`, how far the reader of a construction comes
* `Source.stream`, `Source.length`, the tokens of a source and the number of its end

## Main results

* `Parse.construction_moves`: every reader of the grammar goes on, and none takes the end
* `Parse.round_moves`: every round of a loop does
* `Source.parse_terminates`: parsing ends, and where

## Implementation notes

All functions here are total, so that parsing ends is no statement about Lean. It is a statement
about the bounds: what makes the definitions total is a number that is handed down, and it has to be
shown that this number is never used up. Then the definitions do what they would do without it.

Forward progress is stated for every construction and every round of a loop separately, for it is
from these that a bound on the number of steps follows, and because a construction that took nothing
could be called again at the same place for ever. The two exceptions take nothing only if there is
nothing to take.
-/

namespace Treewalk

namespace Parse

variable {α : Type} {T : Nat → Token} {stop i k : Nat} {deep : Prop}
  {expr deeper tighter : Parse Expr} {block branch stmt : Parse Stmt}

/-! ## Loops -/

/-- The result of a loop that hands over what it has read is where the loop is. -/
theorem Moves.of_map {β : Type} {p : Parse α} {f : α → β} {Q : Nat → Prop}
    (h : Moves T stop deep i (f <$> p) fun _ j => Q j) : Moves T stop deep i p fun _ j => Q j := by
  intro hT r hr
  have hp := h hT r hr
  rw [← bind_pure_comp] at hp
  cases hpr : p r with
  | ok a r' => rwa [bind_of_ok hpr] at hp
  | error e r' => rwa [bind_of_error hpr] at hp

theorem paramsFrom_moves (n : Nat) (seen : List String) (hn : stop < i + n) :
    Moves T stop deep i (paramsFrom n seen) fun _ j => i < j := by
  rw [paramsFrom_eq_rounds]
  exact Moves.rounds (fun s j _ => paramRound_moves s) n seen hn

theorem argsFrom_moves (he : Onward T stop deep expr k) (hi : stop < i + k) (n : Nat)
    (hn : stop < i + n) : Moves T stop deep i (argsFrom expr n) fun _ j => i < j := by
  refine Moves.of_map (f := ([] ++ ·)) ?_
  rw [argsFrom_eq_rounds]
  exact Moves.rounds (fun s j hj => argRound_moves he (by omega) s) n [] hn

theorem moreArgsFrom_moves (he : Onward T stop deep expr k) (hi : stop < i + 1 + k) (n : Nat)
    (hn : stop < i + n) : Moves T stop deep i (moreArgsFrom expr n) fun _ j => i ≤ j := by
  refine Moves.of_map (f := ([] ++ ·)) ?_
  rw [moreArgsFrom_eq_rounds]
  exact Moves.rounds (fun s j hj => moreArgRound_moves he (by omega) s) n [] hn

theorem joinFrom_moves {ops : List Kind} (ho : .eof ∉ ops) (ht : Onward T stop deep tighter k)
    (hi : stop < i + 1 + k) (n : Nat) (left : Expr) (hn : stop < i + n) :
    Moves T stop deep i (joinFrom ops tighter n left) fun _ j => i ≤ j := by
  rw [joinFrom_eq_rounds]
  exact Moves.rounds (fun s j hj => joinRound_moves ho ht (by omega) s) n left hn

theorem statementsFrom_moves {atEnd : Parse Bool} (ha : Stays T stop deep atEnd)
    (hs : Onward T stop deep stmt k) (hi : stop < i + k) (n : Nat) (hn : stop < i + n) :
    Moves T stop deep i (statementsFrom atEnd stmt n) fun _ j => i ≤ j := by
  refine Moves.of_map (f := ([] ++ ·)) ?_
  rw [statementsFrom_eq_rounds]
  exact Moves.rounds (fun s j hj => itemRound_moves ha hs (by omega) s) n [] hn

/-! ## Expressions -/

theorem paramList_onward (k : Nat) : Onward T stop deep paramList k := by
  intro i _
  refine Moves.expect (by decide) fun _ => ?_
  refine Moves.check (fun _ => ?_) fun _ => Moves.bound fun n hn => ?_
  · exact Moves.expect (by decide) fun _ => Moves.pure (Nat.lt_succ_of_lt (Nat.lt_succ_self i))
  · refine (paramsFrom_moves n [] (by omega)).bind fun names j hj => ?_
    exact Moves.expect (by decide) fun _ => Moves.pure (by omega)

theorem argList_moves (he : Onward T stop deep expr k) (hi : stop < i + k) :
    Moves T stop deep i (argList expr) fun _ j => i ≤ j := by
  refine Moves.check (fun _ => Moves.pure (Nat.le_refl i)) fun _ => Moves.bound fun n hn => ?_
  exact (argsFrom_moves he hi n (by omega)).mono fun _ _ hj => Nat.le_of_lt hj

theorem literal_moves {t : Token} {cause : Cause} (hc : cause ≠ .tooDeep) (v : Option α) :
    Moves T stop deep i (literal t cause v) fun _ j => j = i := by
  cases v with
  | none => exact Moves.throw hc
  | some a => exact Moves.pure rfl

/-- A literal is one token. -/
theorem advance_literal_moves {t : Token} {cause : Cause} {v : Option α} {f : α → Expr}
    (hk : (T i).kind ≠ .eof) (hc : cause ≠ .tooDeep) :
    Moves T stop deep i (do let _ ← advance; return f (← literal t cause v)) fun _ j => i < j := by
  refine Moves.advance hk ((literal_moves hc v).bind ?_)
  rintro a j rfl
  exact Moves.pure (Nat.lt_succ_self i)

theorem advance_pure_moves {a : α} (hk : (T i).kind ≠ .eof) :
    Moves T stop deep i (do let _ ← advance; return a) fun _ j => i < j :=
  Moves.advance hk (Moves.pure (Nat.lt_succ_self i))

theorem primary_onward (he : Onward T stop deep expr k) :
    Onward T stop deep (primary expr) (k + 1) := by
  intro i hi
  refine Moves.get fun r hr => ?_
  dsimp only
  split
  case h_1 h => exact advance_literal_moves (by rw [← hr, h]; decide) Cause.noConfusion
  case h_2 h => exact advance_literal_moves (by rw [← hr, h]; decide) Cause.noConfusion
  case h_3 h => exact advance_literal_moves (by rw [← hr, h]; decide) Cause.noConfusion
  case h_4 h => exact advance_pure_moves (by rw [← hr, h]; decide)
  case h_5 h => exact advance_pure_moves (by rw [← hr, h]; decide)
  case h_6 h => exact advance_pure_moves (by rw [← hr, h]; decide)
  case h_7 h => exact advance_pure_moves (by rw [← hr, h]; decide)
  case h_8 h =>
    refine Moves.advance (by rw [← hr, h]; decide) ?_
    refine (he (i + 1) (by omega)).bind fun inner j hj => ?_
    exact Moves.expect (by decide) fun _ => Moves.pure (by omega)
  case h_9 => exact Moves.failHere fun _ h => Cause.noConfusion h

theorem operand_onward (he : Onward T stop deep expr k) :
    Onward T stop deep (operand expr) (k + 1) := by
  intro i hi
  refine Moves.check (fun hx => ?_) fun _ => primary_onward he i hi
  have hx : (T i).kind = .ident := List.mem_singleton.mp hx
  refine Moves.advance (by rw [hx]; decide) ?_
  refine Moves.accept (by decide) (fun _ => ?_) fun _ => Moves.pure (Nat.lt_succ_self i)
  refine (argList_moves he (by omega)).bind fun args j hj => ?_
  exact Moves.expect (by decide) fun _ => Moves.pure (by omega)

theorem signed_onward (he : Onward T stop deep expr k) (hd : Onward T stop deep deeper k) :
    Onward T stop deep (signed expr deeper) (k + 1) := by
  intro i hi
  refine Moves.check (fun ho => ?_) fun _ => operand_onward he i hi
  refine Moves.advance (fun h => by simp [h] at ho) ?_
  exact (hd (i + 1) (by omega)).bind fun e j hj => Moves.pure (Nat.lt_of_succ_lt hj)

theorem climb_onward {tightest : Parse Expr} (ht : Onward T stop deep tightest k) :
    ∀ ls : List (List Kind), (∀ ops ∈ ls, .eof ∉ ops) → Onward T stop deep (climb ls tightest) k
  | [], _ => ht
  | ops :: more, ho => by
    have hm : Onward T stop deep (climb more tightest) k :=
      climb_onward ht more fun o h => ho o (List.mem_cons_of_mem _ h)
    intro i hi
    refine (hm i hi).bind fun left j hj => Moves.bound fun n hn => ?_
    refine (joinFrom_moves (ho ops List.mem_cons_self) hm (by omega) n left (by omega)).mono ?_
    exact fun _ _ h => Nat.lt_of_lt_of_le hj h

theorem lambda_onward (he : Onward T stop deep expr k) (hb : Onward T stop deep block k) :
    Onward T stop deep (lambda expr block) (k + 1) := by
  intro i hi
  refine Moves.expect (by decide) fun _ => ?_
  refine (paramList_onward (k + 1) (i + 1) (by omega)).bind fun params j hj => ?_
  refine Moves.check (fun ha => ?_) fun _ => ?_
  · refine Moves.advance (fun h => by simp [h] at ha) ?_
    exact (he (j + 1) (by omega)).bind fun value j' hj' => Moves.pure (by omega)
  · exact (hb j (by omega)).bind fun body j' hj' => Moves.pure (by omega)

theorem eof_notMem_levels : ∀ ops ∈ levels, Kind.eof ∉ ops := by decide

theorem expression_onward (he : Onward T stop deep expr k) (hb : Onward T stop deep block k)
    (hu : Onward T stop deep deeper (k + 1)) :
    Onward T stop deep (expression expr block deeper) (k + 1) := by
  intro i hi
  refine Moves.check (fun _ => lambda_onward he hb i hi) fun _ => ?_
  exact climb_onward hu levels eof_notMem_levels i hi

/-! ## Statements -/

theorem evalStmt_onward (he : Onward T stop deep expr k) :
    Onward T stop deep (evalStmt expr) k := by
  intro i hi
  refine (he i hi).bind fun value j hj => ?_
  exact Moves.expect (by decide) fun _ => Moves.pure (by omega)

theorem declareStmt_onward (he : Onward T stop deep expr k) :
    Onward T stop deep (declareStmt expr) k := by
  intro i hi
  refine Moves.expect (by decide) fun _ => Moves.expect (by decide) fun _ => ?_
  refine Moves.accept (by decide) (fun _ => ?_) fun _ => ?_
  · refine (he _ (by omega)).bind fun init j hj => ?_
    exact Moves.expect (by decide) fun _ => Moves.pure (by omega)
  · exact Moves.expect (by decide) fun _ => Moves.pure (by omega)

theorem check_misses {kind : Kind} (h : (T (i + 1)).kind ≠ kind) {r : Reader}
    (hr : r.At T (i + 1)) : check [kind] r = .ok false r := by
  rw [hr.check]
  simpa using h

theorem accept_misses {kind : Kind} (h : (T (i + 1)).kind ≠ kind) {r : Reader}
    (hr : r.At T (i + 1)) : accept [kind] r = .ok false r := by
  rw [accept, bind_of_ok (check_misses h hr)]
  rfl

/-- An assignment is read where a token stands, so that stepping over it asks for nothing behind the
end. -/
theorem assignStmt_moves (he : Onward T stop deep expr k) (hi : stop < i + k)
    (hk : (T i).kind ≠ .eof) : Moves T stop deep i (assignStmt expr) fun _ j => i < j := by
  by_cases ha : (T (i + 1)).kind = .assign
  · refine Moves.advance hk (Moves.accept (by decide) (fun _ => ?_) fun h => absurd ha h)
    refine (he _ (by omega)).bind fun value j hj => ?_
    exact Moves.expect (by decide) fun _ => Moves.pure (by omega)
  · exact Moves.stepBack hk (fun r hr => accept_misses ha hr) (evalStmt_onward he i hi)

theorem loopStmt_onward (he : Onward T stop deep expr k) (hb : Onward T stop deep block k) :
    Onward T stop deep (loopStmt expr block) k := by
  intro i hi
  refine Moves.expect (by decide) fun _ => (he _ (by omega)).bind fun test j hj => ?_
  exact (hb j (by omega)).bind fun body j' hj' => Moves.pure (by omega)

/-- A definition, too, is read where a token stands. -/
theorem defineStmt_moves (he : Onward T stop deep expr k) (hb : Onward T stop deep block k)
    (hi : stop < i + k) (hk : (T i).kind ≠ .eof) :
    Moves T stop deep i (defineStmt expr block) fun _ j => i < j := by
  by_cases hx : (T (i + 1)).kind = .ident
  · refine Moves.advance hk (Moves.check (fun _ => ?_) fun h => ?_)
    · refine Moves.advance (by rw [hx]; decide) ?_
      refine (paramList_onward k _ (by omega)).bind fun params j hj => ?_
      exact (hb j (by omega)).bind fun body j' hj' => Moves.pure (by omega)
    · exact absurd (List.mem_singleton.mpr hx) h
  · exact Moves.stepBack hk (fun r hr => check_misses hx hr) (evalStmt_onward he i hi)

theorem giveStmt_onward (he : Onward T stop deep expr k) :
    Onward T stop deep (giveStmt expr) k := by
  intro i hi
  refine Moves.expect (by decide) fun _ => Moves.check (fun _ => ?_) fun _ => ?_
  · exact Moves.expect (by decide) fun _ => Moves.pure (by omega)
  · refine (he _ (by omega)).bind fun value j hj => ?_
    exact Moves.expect (by decide) fun _ => Moves.pure (by omega)

theorem printStmt_onward (he : Onward T stop deep expr k) :
    Onward T stop deep (printStmt expr) k := by
  intro i hi
  refine Moves.expect (by decide) fun _ => Moves.expect (by decide) fun _ => ?_
  refine Moves.expectOr (by decide) (fun _ => Cause.noConfusion) fun _ => Moves.bound fun n hn => ?_
  refine (moreArgsFrom_moves he (by omega) n (by omega)).bind fun args j hj => ?_
  refine Moves.expect (by decide) fun _ => ?_
  exact Moves.expect (by decide) fun _ => Moves.pure (by omega)

theorem branchStmt_onward (he : Onward T stop deep expr k) (hb : Onward T stop deep block k)
    (hr : Onward T stop deep branch k) :
    Onward T stop deep (branchStmt expr block branch) (k + 1) := by
  intro i hi
  refine Moves.expect (by decide) fun _ => (he _ (by omega)).bind fun test j hj => ?_
  refine (hb j (by omega)).bind fun yes j' hj' => ?_
  refine Moves.accept (by decide) (fun _ => ?_) fun _ => Moves.pure (by omega)
  refine Moves.check (fun _ => ?_) fun _ => ?_
  · exact (hr _ (by omega)).bind fun no l hl => Moves.pure (by omega)
  · exact (hb _ (by omega)).bind fun no l hl => Moves.pure (by omega)

theorem statement_onward (he : Onward T stop deep expr k) (hb : Onward T stop deep block k)
    (hr : Onward T stop deep branch k) :
    Onward T stop deep (statement expr block branch) k := by
  intro i hi
  refine Moves.get fun r hcurrent => ?_
  split
  case h_1 h =>
    exact Moves.advance (by rw [← hcurrent, h]; decide) (Moves.pure (Nat.lt_succ_self i))
  case h_2 => exact declareStmt_onward he i hi
  case h_3 h => exact assignStmt_moves he hi (by rw [← hcurrent, h]; decide)
  case h_4 => exact hb i hi
  case h_5 => exact hr i hi
  case h_6 => exact Moves.failHere fun _ h => Cause.noConfusion h
  case h_7 => exact loopStmt_onward he hb i hi
  case h_8 h => exact defineStmt_moves he hb hi (by rw [← hcurrent, h]; decide)
  case h_9 => exact giveStmt_onward he i hi
  case h_10 => exact printStmt_onward he i hi
  case h_11 => exact evalStmt_onward he i hi

theorem blockStmt_onward (hs : Onward T stop deep stmt k) :
    Onward T stop deep (blockStmt stmt) (k + 1) := by
  intro i hi
  refine Moves.expect (by decide) fun _ => Moves.bound fun n hn => ?_
  refine (statementsFrom_moves atClosingBrace_stays hs (by omega) n (by omega)).bind ?_
  intro body j hj
  exact Moves.expect (by decide) fun _ => Moves.pure (by omega)

/-! ## Recursion -/

/-- The recursive readers go on, from wherever `k` tokens would lead past the end. They call one
another, so what is said of one of them is said of all at once. -/
structure Advancing (T : Nat → Token) (stop : Nat) (deep : Prop) (n k : Nat) : Prop where
  expr : Onward T stop deep (Parse.expr n) k
  unary : Onward T stop deep (Parse.unary n) k
  block : Onward T stop deep (Parse.block n) k
  branch : Onward T stop deep (Parse.branch n) k
  stmt : Onward T stop deep (Parse.stmt n) k

theorem onward_zero (p : Parse α) : Onward T stop deep p 0 :=
  fun _ hi => Moves.of_le_stop fun hle => absurd hle (Nat.not_le_of_lt hi)

theorem onward_passes : Passes (Onward T stop deep) (Onward T stop deep) (Onward T stop deep)
    (Onward T stop deep) (Onward T stop deep) where
  none := ⟨onward_zero, onward_zero, fun p => ⟨onward_zero p, onward_zero p, onward_zero p⟩⟩
  unary := signed_onward
  expr := expression_onward
  block := blockStmt_onward
  branch := branchStmt_onward
  stmt := statement_onward

/-- Three levels of nesting for each token are enough. -/
theorem advancing {n : Nat} (hn : 3 * k ≤ n) : Advancing T stop deep n k :=
  have h := recursion onward_passes k
  ⟨h.1 n (by omega), h.2.1 n (by omega), h.2.2.1 n (by omega), h.2.2.2.1 n (by omega),
    h.2.2.2.2 n hn⟩

theorem tooDeep_onward (k : Nat) :
    Onward T stop True (failHere fun _ => .tooDeep : Parse α) k :=
  fun _ _ => Moves.failHere fun _ _ => trivial

/-- If want of nesting is allowed for, any number of levels will do. -/
theorem advancing_true (n : Nat) : ∀ k, Advancing T stop True n k := by
  induction n with
  | zero => exact fun k => ⟨tooDeep_onward k, tooDeep_onward k, tooDeep_onward k, tooDeep_onward k,
      tooDeep_onward k⟩
  | succ n ih =>
    intro k
    cases k with
    | zero => exact ⟨onward_zero _, onward_zero _, onward_zero _, onward_zero _, onward_zero _⟩
    | succ k =>
      have h := ih k
      have h' := ih (k + 1)
      exact ⟨expression_onward h.expr h.block h'.unary, signed_onward h.expr h.unary,
        blockStmt_onward h.stmt, branchStmt_onward h.expr h.block h.branch,
        statement_onward h'.expr h'.block h'.branch⟩

theorem program_moves : Moves T stop deep i program fun _ j => i ≤ j := by
  refine Moves.bound fun n hn => Moves.bound fun n' hn' => ?_
  have hs : Onward T stop deep (Parse.stmt n) (stop - i + 1) := (advancing (by omega)).stmt
  exact statementsFrom_moves (check_stays [.eof]) hs (by omega) n' (by omega)

/-! ## All readers of the grammar -/

namespace Construction

/-- Where the reader of a construction may stop if it starts at number `i`. -/
def Past (c : Construction) (i j : Nat) : Prop :=
  match c with
  | .program | .args => i ≤ j
  | _ => i < j

/-- The reader steps over a token before it looks at it. It is used where a token stands. -/
def isBlind : Construction → Bool
  | .assignment | .definition => true
  | _ => false

end Construction

/-- Every reader of the grammar goes on, if the recursive ones do. It is the step of an induction:
what is assumed of the recursive ones is where fewer tokens are left. -/
theorem construction_moves {n : Nat} (h : Advancing T stop deep n k) (hi : stop < i + k)
    (c : Construction) (hc : c.isBlind = true → (T i).kind ≠ .eof) :
    Moves T stop deep i (c.read n) fun _ j => c.Past i j := by
  have hdiscard : ∀ {γ : Type} {p : Parse γ} {Q : Nat → Prop},
      Moves T stop deep i p (fun _ j => Q j) → Moves T stop deep i (discard p) fun _ j => Q j :=
    fun hp => hp.bind fun _ _ hj => Moves.pure hj
  cases c with
  | program => exact hdiscard program_moves
  | statement => exact hdiscard (h.stmt i hi)
  | evaluation => exact hdiscard (evalStmt_onward h.expr i hi)
  | declaration => exact hdiscard (declareStmt_onward h.expr i hi)
  | assignment => exact hdiscard (assignStmt_moves h.expr hi (hc rfl))
  | block => exact hdiscard (h.block i hi)
  | conditional => exact hdiscard (h.branch i hi)
  | loop => exact hdiscard (loopStmt_onward h.expr h.block i hi)
  | definition => exact hdiscard (defineStmt_moves h.expr h.block hi (hc rfl))
  | give => exact hdiscard (giveStmt_onward h.expr i hi)
  | print => exact hdiscard (printStmt_onward h.expr i hi)
  | expression => exact hdiscard (h.expr i hi)
  | lambda => exact hdiscard (lambda_onward h.expr h.block i (by omega))
  | level looser =>
    refine hdiscard (climb_onward h.unary _ (fun ops hops => ?_) i hi)
    exact eof_notMem_levels ops (List.mem_of_mem_drop hops)
  | unary => exact hdiscard (h.unary i hi)
  | operand => exact hdiscard (operand_onward h.expr i (by omega))
  | primary => exact hdiscard (primary_onward h.expr i (by omega))
  | params => exact hdiscard (paramList_onward k i hi)
  | args => exact hdiscard (argList_moves h.expr hi)

/-- Every round of a loop goes on, if the recursive readers do. -/
theorem round_moves {n : Nat} (h : Advancing T stop deep n k) (hi : stop < i + k) (l : Loop)
    (s : l.State) : Moves T stop deep i (l.round n s) (Proceeds l.least i) := by
  cases l with
  | items => exact itemRound_moves (check_stays [.eof]) h.stmt hi s
  | blockItems => exact itemRound_moves atClosingBrace_stays h.stmt hi s
  | formatArgs => exact moreArgRound_moves h.expr (by omega) s
  | params => exact paramRound_moves s
  | args => exact argRound_moves h.expr hi s
  | level looser =>
    have htighter : Onward T stop deep (climb (levels.drop (looser + 1)) (Parse.unary n)) k :=
      climb_onward h.unary _ fun ops hops => eof_notMem_levels ops (List.mem_of_mem_drop hops)
    exact joinRound_moves (eof_notMem_levels _ (List.getElem_mem _)) htighter (by omega) s

/-- What holds of the recursive readers both with levels enough and with too few, as the case may
be. -/
theorem Moves.of_advancing {n : Nat} {p : Parse α} {Q : α → Nat → Prop}
    (h : ∀ deep, Advancing T stop deep n (stop - i + 1) → Moves T stop deep i p Q) :
    Moves T stop (n < 3 * (stop - i) + 3) i p Q := by
  by_cases hn : n < 3 * (stop - i) + 3
  · exact (h True (advancing_true n _)).imp fun _ => hn
  · exact (h False (advancing (by omega))).imp False.elim

/-- A source that is read is read to its end, and what has been asked for ends there, too. -/
theorem program_stops {ts : List Token} {eof : Token} (hts : ∀ t ∈ ts, t.kind ≠ .eof)
    (heof : eof.kind = .eof) {body : List Stmt} {r : Reader}
    (hstart : (Reader.ofTokens ts eof).Within (endless ts eof) ts.length 0)
    (h : program (.ofTokens ts eof) = .ok body r) :
    r.At (endless ts eof) ts.length ∧ r.current = eof ∧ r.staged = [] ∧ r.upcoming = [] := by
  have hT : EndsAt (endless ts eof) ts.length := endsAt_endless hts heof
  have hprogram : Moves (endless ts eof) ts.length False 0 program fun _ j => 0 ≤ j := program_moves
  have hmoves := hprogram hT _ hstart
  have hsound := program_sound ts _ (Reader.before_ofTokens heof hts)
  rw [h] at hmoves hsound
  obtain ⟨j, hj, -⟩ := hmoves
  obtain ⟨rest, hbefore, -, hrest⟩ := hsound
  have hkind : (endless ts eof j).kind = .eof := by
    rw [← hj.place.current, hbefore.kind_current, hrest]
  obtain rfl : j = ts.length :=
    Nat.le_antisymm hj.le_stop (Nat.le_of_not_lt fun hlt => hT.inner j hlt hkind)
  have hasked := hj.asked
  have hcurrent : endless ts eof ts.length = eof := by
    rw [endless, List.getElem?_eq_none (Nat.le_refl _), Option.getD_none]
  exact ⟨hj.place, hj.place.current.trans hcurrent, List.eq_nil_of_length_eq_zero (by omega),
    upcoming_of_program hts heof h⟩

end Parse

namespace Source

/-- The tokens of a source, and its end for ever behind them. -/
def stream (source : List UInt8) : Nat → Token :=
  endless (scan source).tokens (scan source).endToken

/-- The number of the end. -/
def length (source : List UInt8) : Nat :=
  (scan source).tokens.length

theorem endsAt_stream (source : List UInt8) : EndsAt (stream source) (length source) :=
  endsAt_endless (scan_tokens_kind_ne_eof source) rfl

theorem reader_within (source : List UInt8) :
    (reader (scan source)).Within (stream source) (length source) 0 := by
  have hstaged : (reader (scan source)).staged = [] := by
    unfold reader Reader.ofTokens
    split <;> rfl
  refine ⟨Reader.at_ofTokens _ _, ?_⟩
  rw [hstaged]
  exact Nat.zero_le _

theorem parse_error_ne_tooDeep {source : List UInt8} {e : Parse.Error}
    (h : parse source = .error e) : e.cause ≠ .tooDeep := by
  rw [parse, read] at h
  simp only [reader] at h
  split at h
  · exact absurd h (by simp)
  · next hp =>
    obtain rfl := Except.error.inj h
    exact Parse.program_error_ne_tooDeep (scan_tokens_kind_ne_eof source) rfl hp

/-- **Parsing comes to an end.** Every sequence of bytes gives statements or an error, and the bound
on nesting is never the reason for the error. Wherever a reader stands that has asked for nothing
behind the end, what it does next asks for nothing behind the end either, whether it fails or not.
If it is a construction that is read, at least one token is taken, but for a list of arguments and
for a whole source, which may be empty. If it is a round of a loop, at least one token is taken if
another round follows, and in lists of parameters and of arguments also if none does. Three levels
of nesting for each token up to the end are enough for all this not to fail for want of them. When
there are statements, the reader stands at the end, and nothing is left to be scanned. -/
theorem parse_terminates (source : List UInt8) :
    ((∃ body, parse source = .ok body) ∨ ∃ e, parse source = .error e ∧ e.cause ≠ .tooDeep) ∧
      (EndsAt (stream source) (length source) ∧
        (reader (scan source)).Within (stream source) (length source) 0) ∧
      (∀ (c : Parse.Construction) (n i : Nat),
        (c.isBlind = true → (stream source i).kind ≠ .eof) →
        Parse.Moves (stream source) (length source) (n < 3 * (length source - i) + 3) i (c.read n)
          fun _ j => c.Past i j) ∧
      (∀ (l : Parse.Loop) (n : Nat) (state : l.State),
        (∀ m, l.read n m state = Parse.rounds (l.round n) m state) ∧
        ∀ i, Parse.Moves (stream source) (length source) (n < 3 * (length source - i) + 3) i
          (l.round n state) (Parse.Proceeds l.least i)) ∧
      ∀ body r, Parse.program (reader (scan source)) = .ok body r →
        r.At (stream source) (length source) ∧ r.current = (scan source).endToken ∧
          r.staged = [] ∧ r.upcoming = [] := by
  have henough : ∀ i, length source < i + (length source - i + 1) := fun i => by omega
  refine ⟨?_, ⟨endsAt_stream source, reader_within source⟩, fun c n i hc => ?_,
    fun l n state => ⟨fun m => ?_, fun i => ?_⟩, fun body r h => ?_⟩
  · cases h : parse source with
    | ok body => exact .inl ⟨body, rfl⟩
    | error e => exact .inr ⟨e, rfl, parse_error_ne_tooDeep h⟩
  · exact Parse.Moves.of_advancing fun deep h => Parse.construction_moves h (henough i) c hc
  · exact l.read_eq_rounds n m state
  · exact Parse.Moves.of_advancing fun deep h => Parse.round_moves h (henough i) l state
  · exact Parse.program_stops (scan_tokens_kind_ne_eof source) rfl (reader_within source) h

end Source

end Treewalk
