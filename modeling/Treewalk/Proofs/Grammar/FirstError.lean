import Mathlib.Data.Fintype.EquivFin
import Mathlib.Data.List.Nodup
import Treewalk.Proofs.Grammar.Blame
import Treewalk.Proofs.Grammar.Exact
import Treewalk.Proofs.Grammar.Nesting
import Treewalk.Proofs.Reader.Runs

/-!
# The first bad token

A program that is rejected is rejected at the first token that fits nowhere: the tokens before it
can be continued to a program that is accepted, and the tokens up to it cannot. So no error comes
late, after the reader has gone on for a while with tokens that were lost already, and none comes
early.

Every reader pinpoints its errors if the readers of its parts do. Those that are entered by a step
back have to be told apart from the others: an expression that starts with a name or with `fn` is
never given up at that first token, which is what `Enters` says.

## Main definitions

* `Enters`, a reader that goes past a first token
* `Accepts`, the sequences of tokens that the parser accepts

## Main results

* `recursive_pinpoint`, `program_pinpoints`: the readers pinpoint their errors
* `program_error_first_bad`: an error is at the first bad token

## Implementation notes

For every construction there is one lemma, with the readers of the parts and their properties as
variables, in the order of the definitions in `Parse`. None of them mentions recursion, which is
tied by `recursive_pinpoint`, an induction on the bound for all five readers at once.

`Enters` cannot be merged into `Pinpoints`. That a reader goes past its first token holds only where
that token is of a certain kind, and it is needed only for the two kinds that a step back returns
to.

That what stands before the bad token can be continued to a program is proved by giving such a
continuation for each construction. It need not be a sensible one: any name, any literal will do,
and only the grammar is asked whether it fits.
-/

namespace Treewalk.Parse

open Grammar

variable {ι : Type} {expr deeper : Parse Expr} {block branch stmt : Parse Stmt}
  {expr' deeper' : ι → Parse Expr} {block' branch' stmt' : ι → Parse Stmt}

/-! ## Names and arguments -/

/-- Names that go on after some others. -/
def NamesAfter (seen : List String) (s : List Token) (names : List String) : Prop :=
  ∃ more, Names s more ∧ names = seen ++ more ∧ (seen.Nodup → names.Nodup)

theorem nodup_concat {seen : List String} {name : String} (h : name ∉ seen) :
    seen.Nodup → (seen ++ [name]).Nodup :=
  fun hseen => hseen.append (List.nodup_singleton _) (by simpa using h)

/-- There is always one more name. -/
theorem exists_namesAfter (seen : List String) : ∃ s names, NamesAfter seen s names := by
  obtain ⟨name, hname⟩ := Infinite.exists_notMem_finset seen.toFinset
  rw [List.mem_toFinset] at hname
  exact ⟨[⟨.ident, name, .start⟩], _, [name], .one rfl, rfl, nodup_concat hname⟩

theorem paramsFrom_condemns {seen : List String} {x : Token} (hx : x.kind = .ident)
    (hseen : seen.contains x.text = true) (n : Nat) :
    Condemns (paramsFrom (n + 1) seen) x ⟨x.pos, .repeatedParam x.text⟩ := by
  intro ts r hr
  obtain ⟨s, hs, -⟩ := Takes.expect hx r hr
  rw [paramsFrom, bind_of_ok hs]
  simp only [hseen, if_true]
  exact ⟨s, rfl⟩

theorem paramsFrom_pinpoints (n : Nat) : ∀ seen : List String,
    Pinpoints (paramsFrom n seen) (fun j : ι × Nat => paramsFrom j.2 seen) (NamesAfter seen) := by
  induction n with
  | zero => exact fun seen => Pinpoints.tooDeep (exists_namesAfter seen)
  | succ n ih =>
    intro seen
    refine Pinpoints.succ (Q := fun _ n => paramsFrom n seen) (fun _ => rfl)
      ⟨exists_namesAfter seen, fun ts => ?_⟩
    by_cases hrepeated : ∃ x ts', ts = x :: ts' ∧ x.kind = .ident ∧ seen.contains x.text = true
    · obtain ⟨x, ts, rfl, hx, hseen⟩ := hrepeated
      exact PinpointsOn.condemn (paramsFrom_condemns hx hseen n)
        (fun j => paramsFrom_condemns hx hseen j.2) ⟨rfl, rfl⟩ (exists_namesAfter seen)
    · simp only [paramsFrom]
      refine (PinpointsOn.expect (by decide) (exists_namesAfter seen) ?_).mono
        (Nat.zero_le _)
      rintro x ts rfl hx
      have hseen : ¬ seen.contains x.text = true := fun h => hrepeated ⟨x, ts, rfl, hx, h⟩
      have hnew := nodup_concat (fun h => hseen (List.contains_iff_mem.mpr h))
      simp only [hseen]
      refine (Pinpoints.accept (by decide) (fun c hc => ?_) ?_).on ts
      · refine (ih (seen ++ [x.text])).imp ?_
        rintro s names ⟨more, hs, rfl, hd⟩
        exact ⟨x.text :: more, .more hx hc hs, by simp, fun h => hd (hnew h)⟩
      · exact Pinpoints.pure ⟨[x.text], .one hx, rfl, hnew⟩

theorem paramList_pinpoints : Pinpoints paramList (fun _ : ι => paramList) Params := by
  unfold paramList
  refine Pinpoints.expect (by decide) fun l hl => Pinpoints.check ?_ (Pinpoints.bound fun n => ?_)
  · exact Pinpoints.expect (by decide) fun r hr => Pinpoints.pure (.none hl hr)
  · refine (paramsFrom_pinpoints n []).bind ?_
    rintro s names ⟨more, hs, rfl, hd⟩
    exact Pinpoints.expect (by decide) fun r hr =>
      Pinpoints.pure (.some hl hs (hd List.nodup_nil) hr)

theorem argsFrom_pinpoints (he : Pinpoints expr expr' Expression) (n : Nat) :
    Pinpoints (argsFrom expr n) (fun j : ι × Nat => argsFrom (expr' j.1) j.2) Arguments := by
  induction n with
  | zero =>
    obtain ⟨s, e, hs⟩ := he.productive
    exact Pinpoints.tooDeep ⟨s, [e], .one hs⟩
  | succ n ih =>
    refine Pinpoints.succ (Q := fun i n => argsFrom (expr' i) n) (fun _ => rfl) ?_
    simp only [argsFrom]
    refine (he.reindex Prod.fst).bind fun s e hs => Pinpoints.accept (by decide) (fun c hc => ?_) ?_
    · exact ih.map fun s' args hs' => .more hs hc hs'
    · exact Pinpoints.pure (by simpa using .one hs)

/-- Arguments in brackets: none at all, or a derived list. -/
theorem argList_pinpoints (he : Pinpoints expr expr' Expression) :
    Pinpoints (argList expr) (fun i => argList (expr' i))
      fun s args => s = [] ∧ args = [] ∨ Arguments s args := by
  unfold argList
  refine Pinpoints.check (Pinpoints.pure (.inl ⟨rfl, rfl⟩)) (Pinpoints.bound fun n => ?_)
  exact (argsFrom_pinpoints he n).imp fun _ _ h => .inr h

/-! ## Expressions -/

/-- A reader goes past a first token of one of the kinds. -/
def Enters {α : Type} (p : Parse α) (q : ι → Parse α) (D : List Token → α → Prop) (ks : List Kind) :
    Prop :=
  ∀ ts, kindAt ts ∈ ks → PinpointsOn p q D 1 ts

theorem exists_unary : ∃ s e, Unary s e :=
  ⟨[tokenOf .nilKw], _, .nil rfl⟩

/-- A literal is taken, or it is to blame. -/
theorem literal_pinpointsOn {α : Type} {t : Token} {ts : List Token} {cause : Cause}
    (hc : cause.About t) {v : Option α} {c : α → Expr} (h : ∀ x, v = some x → Unary [t] (c x)) :
    PinpointsOn (do let _ ← advance; return c (← literal t cause v))
      (fun _ : ι => do let _ ← advance; return c (← literal t cause v)) Unary 0 (t :: ts) := by
  cases v with
  | none =>
    have hcondemns : Condemns (do let _ ← advance; return c (← literal t cause none)) t
        ⟨t.pos, cause⟩ := fun _ r _ => ⟨r.advanced, rfl⟩
    exact PinpointsOn.condemn hcondemns (fun _ => hcondemns) ⟨rfl, hc⟩ exists_unary
  | some x =>
    refine (PinpointsOn.advance ?_).mono (Nat.zero_le 1)
    exact PinpointsOn.pure (h x rfl)

/-- A token that is an expression by itself. -/
theorem single_pinpointsOn {t : Token} {ts : List Token} {e : Expr} (h : Unary [t] e) :
    PinpointsOn (do let _ ← advance; return e) (fun _ : ι => do let _ ← advance; return e)
      Unary 0 (t :: ts) := by
  refine (PinpointsOn.advance ?_).mono (Nat.zero_le 1)
  exact PinpointsOn.pure h

theorem primary_pinpoints (he : Pinpoints expr expr' Expression) :
    Pinpoints (primary expr) (fun i => primary (expr' i)) Unary := by
  refine ⟨exists_unary, fun ts => ?_⟩
  unfold primary
  cases ts with
  | nil =>
    refine PinpointsOn.lookKind (.ofTokens [] (tokenOf .eof))
      (fun r hr => by simp only [hr]; rfl) (fun i r hr => by simp only [hr]; rfl) ?_
    exact PinpointsOn.failHere exists_unary fun r _ => rfl
  | cons t ts =>
    refine PinpointsOn.look (.ofTokens [t] t) (fun r hr => by simp only [hr]; rfl)
      (fun i r hr => by simp only [hr]; rfl) ?_
    dsimp only [Reader.ofTokens]
    cases hk : t.kind
    case int => exact literal_pinpointsOn (by rfl) fun v hv => .int hk hv
    case float => exact literal_pinpointsOn (by rfl) fun v hv => .float hk hv
    case char => exact literal_pinpointsOn (by rfl) fun v hv => .char hk hv
    case string => exact single_pinpointsOn (.string hk)
    case trueKw => exact single_pinpointsOn (.true hk)
    case falseKw => exact single_pinpointsOn (.false hk)
    case nilKw => exact single_pinpointsOn (.nil hk)
    case lparen =>
      refine (PinpointsOn.advance ?_).mono (Nat.zero_le 1)
      refine (he.on ts).bind fun s e hs => ?_
      exact Pinpoints.expect (by decide) fun r hr => Pinpoints.pure (.group hk hs hr)
    all_goals exact PinpointsOn.failHere exists_unary fun r _ => rfl

section

variable (he : Pinpoints expr expr' Expression)
include he

/-- What follows a name in an operand. -/
theorem named_pinpoints {x : Token} (hx : x.kind = .ident) :
    Pinpoints
      (do if ← accept [.lparen] then
            let args ← argList expr
            let _ ← expect .rparen
            return .call (markOf x) x.text args
          else return .var (markOf x) x.text)
      (fun i => do
          if ← accept [.lparen] then
            let args ← argList (expr' i)
            let _ ← expect .rparen
            return .call (markOf x) x.text args
          else return .var (markOf x) x.text)
      fun s e => Unary (x :: s) e := by
  refine Pinpoints.accept (by decide) (fun l hl => ?_) (Pinpoints.pure (.var hx))
  refine (argList_pinpoints he).bind ?_
  rintro s args (⟨rfl, rfl⟩ | hs) <;> refine Pinpoints.expect (by decide) fun r hr => ?_
  · exact Pinpoints.pure (.callNone hx hl hr)
  · exact Pinpoints.pure (.call hx hl hs hr)

theorem operand_pinpoints : Pinpoints (operand expr) (fun i => operand (expr' i)) Unary := by
  unfold operand
  refine Pinpoints.take (by decide) (fun x hx => ?_) (primary_pinpoints he)
  exact named_pinpoints he (List.mem_singleton.mp hx)

theorem operand_enters : Enters (operand expr) (fun i => operand (expr' i)) Unary [.ident] := by
  intro ts hts
  obtain ⟨x, ts, rfl, hx⟩ := exists_cons_of_kindAt (List.mem_singleton.mp hts) (by decide)
  unfold operand
  exact ((named_pinpoints he hx).on ts).take hts

theorem signed_pinpoints (hd : Pinpoints deeper deeper' Unary) :
    Pinpoints (signed expr deeper) (fun i => signed (expr' i) (deeper' i)) Unary := by
  unfold signed
  refine Pinpoints.take (by decide) (fun op ho => ?_) (operand_pinpoints he)
  exact hd.map fun s e hs => .signed (by simpa using ho) hs

theorem signed_enters :
    Enters (signed expr deeper) (fun i => signed (expr' i) (deeper' i)) Unary [.ident] := by
  intro ts hx
  unfold signed
  refine PinpointsOn.check (fun ho => ?_) fun _ => operand_enters he ts hx
  rw [List.mem_singleton.mp hx] at ho
  exact absurd ho (by decide)

end

/-- Joining goes on from a left operand that is derived by what has been taken before. -/
theorem joinFrom_pinpoints {ops : List Kind} {more : List (List Kind)} {tighter : Parse Expr}
    {tighter' : ι → Parse Expr} (ho : .eof ∉ ops) (hm : Pinpoints tighter tighter' (Level more))
    (n : Nat) : ∀ {s₀ : List Token} {left : Expr}, Level (ops :: more) s₀ left →
      Pinpoints (joinFrom ops tighter n left)
        (fun j : ι × Nat => joinFrom ops (tighter' j.1) j.2 left)
        fun s e => Level (ops :: more) (s₀ ++ s) e := by
  induction n with
  | zero => exact fun hs₀ => Pinpoints.tooDeep ⟨[], _, by rwa [List.append_nil]⟩
  | succ n ih =>
    intro s₀ left hs₀
    refine Pinpoints.succ (Q := fun i n => joinFrom ops (tighter' i) n left) (fun _ => rfl) ?_
    simp only [joinFrom]
    refine Pinpoints.take ho (fun op hop => ?_) (Pinpoints.pure (by rwa [List.append_nil]))
    refine (hm.reindex Prod.fst).bind fun s e hs => (ih (.join hs₀ hop hs)).imp fun s' e' hs' => ?_
    simpa using hs'

/-- What follows the first operand of a level. -/
theorem joins_pinpoints {ops : List Kind} {more : List (List Kind)} {tighter : Parse Expr}
    {tighter' : ι → Parse Expr} (ho : .eof ∉ ops) (hm : Pinpoints tighter tighter' (Level more))
    {s : List Token} {e : Expr} (hs : Level more s e) :
    Pinpoints (do joinFrom ops tighter (← bound) e)
      (fun i => do joinFrom ops (tighter' i) (← bound) e)
      fun s' e' => Level (ops :: more) (s ++ s') e' :=
  Pinpoints.bound fun n => joinFrom_pinpoints ho hm n (.single hs)

section

variable {tightest : Parse Expr} {tightest' : ι → Parse Expr}
  (ht : Pinpoints tightest tightest' Unary)
include ht

theorem climb_pinpoints {ls : List (List Kind)} (ho : ∀ ops ∈ ls, .eof ∉ ops) :
    Pinpoints (climb ls tightest) (fun i => climb ls (tightest' i)) (Level ls) := by
  induction ls with
  | nil => exact ht.imp fun _ _ hs => .unary hs
  | cons ops more ih =>
    rw [List.forall_mem_cons] at ho
    exact (ih ho.2).bind fun s e hs => joins_pinpoints ho.1 (ih ho.2) hs

theorem climb_enters {ls : List (List Kind)} (ho : ∀ ops ∈ ls, .eof ∉ ops) {ks : List Kind}
    (hks : Enters tightest tightest' Unary ks) :
    Enters (climb ls tightest) (fun i => climb ls (tightest' i)) (Level ls) ks := by
  intro ts hts
  induction ls with
  | nil => exact (hks ts hts).imp fun _ _ hs => .unary hs
  | cons ops more ih =>
    rw [List.forall_mem_cons] at ho
    exact (ih ho.2).bind fun s e hs => joins_pinpoints ho.1 (climb_pinpoints ht ho.2) hs

end

theorem expression_of_unary {s : List Token} {e : Expr} (h : Unary s e) : Expression s e :=
  .level (.single (.single (.single (.single (.single (.unary h))))))

section

variable (he : Pinpoints expr expr' Expression) (hb : Pinpoints block block' Block)
include he hb

/-- What follows the `fn` of a lambda. -/
theorem unnamed_pinpoints {f : Token} (hf : f.kind = .fnKw) :
    Pinpoints
      (do let params ← paramList
          if ← check [.arrow] then
            let arrow ← advance
            let value ← expr
            return .lambda (markOf f) params (.block (markOf arrow) [.give (markOf arrow) value])
          else return .lambda (markOf f) params (← block))
      (fun i => do
          let params ← paramList
          if ← check [.arrow] then
            let arrow ← advance
            let value ← expr' i
            return .lambda (markOf f) params (.block (markOf arrow) [.give (markOf arrow) value])
          else return .lambda (markOf f) params (← block' i))
      fun s e => Expression (f :: s) e := by
  refine paramList_pinpoints.bind fun p names hp => Pinpoints.take (by decide) (fun a ha => ?_) ?_
  · exact he.map fun s e hs => .arrow hf hp (by simpa using ha) hs
  · exact hb.map fun b body hs => .lambda hf hp hs

theorem lambda_pinpoints :
    Pinpoints (lambda expr block) (fun i => lambda (expr' i) (block' i)) Expression :=
  Pinpoints.expect (by decide) fun _ hf => unnamed_pinpoints he hb hf

theorem lambda_enters :
    Enters (lambda expr block) (fun i => lambda (expr' i) (block' i)) Expression [.fnKw] := by
  intro ts hts
  have hon : PinpointsOn (lambda expr block) (fun i => lambda (expr' i) (block' i)) Expression
      (if kindAt ts = .fnKw then 1 else 0) ts :=
    PinpointsOn.expect (by decide) (lambda_pinpoints he hb).productive fun _ ts _ hf =>
      (unnamed_pinpoints he hb hf).on ts
  rwa [if_pos (List.mem_singleton.mp hts)] at hon

theorem expression_pinpoints (hd : Pinpoints deeper deeper' Unary) :
    Pinpoints (expression expr block deeper)
      (fun i => expression (expr' i) (block' i) (deeper' i)) Expression := by
  unfold expression
  refine Pinpoints.check (lambda_pinpoints he hb) ?_
  exact (climb_pinpoints hd (by decide)).imp fun _ _ hs => .level hs

theorem expression_enters (hd : Pinpoints deeper deeper' Unary)
    (hn : Enters deeper deeper' Unary [.ident]) :
    Enters (expression expr block deeper) (fun i => expression (expr' i) (block' i) (deeper' i))
      Expression [.ident, .fnKw] := by
  intro ts hts
  unfold expression
  refine PinpointsOn.check (lambda_enters he hb ts) fun hfn => ?_
  have hx : kindAt ts ∈ [Kind.ident] := by simp_all
  exact (climb_enters hd (by decide) hn ts hx).imp fun _ _ hs => .level hs

end

/-! ## Statements -/

/-- What follows an expression that is a statement. -/
theorem closed_pinpoints {s : List Token} {e : Expr} (hs : Expression s e) :
    Pinpoints (do let _ ← expect .semicolon; return .eval e.mark e)
      (fun _ : ι => do let _ ← expect .semicolon; return .eval e.mark e)
      fun s' st => Statement (s ++ s') st :=
  Pinpoints.expect (by decide) fun _ hq => Pinpoints.pure (.eval hs hq)

theorem evalStmt_enters {ks : List Kind} (hn : Enters expr expr' Expression ks) :
    Enters (evalStmt expr) (fun i => evalStmt (expr' i)) Statement ks :=
  fun ts hts => (hn ts hts).bind fun _ _ hs => closed_pinpoints hs

section

variable (he : Pinpoints expr expr' Expression)
include he

theorem evalStmt_pinpoints :
    Pinpoints (evalStmt expr) (fun i => evalStmt (expr' i)) Statement :=
  he.bind fun _ _ hs => closed_pinpoints hs

theorem declareStmt_pinpoints :
    Pinpoints (declareStmt expr) (fun i => declareStmt (expr' i)) Statement := by
  refine Pinpoints.expect (by decide) fun l hl => Pinpoints.expect (by decide) fun x hx => ?_
  refine Pinpoints.accept (by decide) (fun a ha => he.bind fun s e hs => ?_) ?_
  · exact Pinpoints.expect (by decide) fun q hq => Pinpoints.pure (.declare hl hx ha hs hq)
  · exact Pinpoints.expect (by decide) fun q hq => Pinpoints.pure (.declareNil hl hx hq)

theorem assignStmt_pinpointsOn (hn : Enters expr expr' Expression [.ident, .fnKw]) {ts : List Token}
    (hts : kindAt ts = .ident) :
    PinpointsOn (assignStmt expr) (fun i => assignStmt (expr' i)) Statement 1 ts := by
  obtain ⟨x, ts, rfl, hx⟩ := exists_cons_of_kindAt hts (by decide)
  by_cases ha : kindAt ts = .assign
  · obtain ⟨a, ts, rfl, ha⟩ := exists_cons_of_kindAt ha (by decide)
    refine PinpointsOn.advance ((PinpointsOn.accept ha ?_).mono (Nat.zero_le 1))
    refine (he.on ts).bind fun s e hs => ?_
    exact Pinpoints.expect (by decide) fun q hq => Pinpoints.pure (.assign hx ha hs hq)
  · refine PinpointsOn.stepBack (fun ts' hhead => misses_accept ?_)
      (evalStmt_enters hn _ (by rw [hts]; decide))
    rwa [kindAt_eq_of_head? hhead]

theorem giveStmt_pinpoints :
    Pinpoints (giveStmt expr) (fun i => giveStmt (expr' i)) Statement := by
  refine Pinpoints.expect (by decide) fun g hg => Pinpoints.check ?_ (he.bind fun s e hs => ?_)
  · exact Pinpoints.expect (by decide) fun q hq => Pinpoints.pure (.giveNil hg hq)
  · exact Pinpoints.expect (by decide) fun q hq => Pinpoints.pure (.give hg hs hq)

/-- Further arguments: none, or a comma and a derived list. -/
def MoreArguments (s : List Token) (args : List Expr) : Prop :=
  s = [] ∧ args = [] ∨ ∃ c s', s = c :: s' ∧ c.kind = .comma ∧ Arguments s' args

theorem moreArgsFrom_pinpoints (n : Nat) :
    Pinpoints (moreArgsFrom expr n) (fun j : ι × Nat => moreArgsFrom (expr' j.1) j.2)
      MoreArguments := by
  induction n with
  | zero => exact Pinpoints.tooDeep ⟨[], [], .inl ⟨rfl, rfl⟩⟩
  | succ n ih =>
    refine Pinpoints.succ (Q := fun i n => moreArgsFrom (expr' i) n) (fun _ => rfl) ?_
    simp only [moreArgsFrom]
    refine Pinpoints.accept (by decide) (fun c hc => ?_) (Pinpoints.pure (.inl ⟨rfl, rfl⟩))
    refine (he.reindex Prod.fst).bind fun s e hs => ih.map ?_
    rintro _ args (⟨rfl, rfl⟩ | ⟨c', s', rfl, hc', hs'⟩)
    · exact .inr ⟨c, _, rfl, hc, by simpa using .one hs⟩
    · exact .inr ⟨c, _, rfl, hc, .more hs hc' hs'⟩

theorem printStmt_pinpoints :
    Pinpoints (printStmt expr) (fun i => printStmt (expr' i)) Statement := by
  refine Pinpoints.expect (by decide) fun p hp => Pinpoints.expect (by decide) fun l hl => ?_
  refine Pinpoints.expectOr (by decide) (fun _ => rfl) fun t ht => Pinpoints.bound fun n => ?_
  refine (moreArgsFrom_pinpoints he n).bind ?_
  rintro _ args (⟨rfl, rfl⟩ | ⟨c, s, rfl, hc, hs⟩) <;>
    refine Pinpoints.expect (by decide) fun r hr => Pinpoints.expect (by decide) fun q hq => ?_
  · exact Pinpoints.pure (.printNone hp hl ht hr hq)
  · exact Pinpoints.pure (.print hp hl ht hc hs hr hq)

end

section

variable (he : Pinpoints expr expr' Expression) (hb : Pinpoints block block' Block)
include he hb

theorem loopStmt_pinpoints :
    Pinpoints (loopStmt expr block) (fun i => loopStmt (expr' i) (block' i)) Statement :=
  Pinpoints.expect (by decide) fun w hw => he.bind fun s test hs =>
    hb.map fun b body hbody => .loop hw hs hbody

omit he in
theorem defineStmt_pinpointsOn (hn : Enters expr expr' Expression [.ident, .fnKw]) {ts : List Token}
    (hts : kindAt ts = .fnKw) :
    PinpointsOn (defineStmt expr block) (fun i => defineStmt (expr' i) (block' i)) Statement 1
      ts := by
  obtain ⟨f, ts, rfl, hf⟩ := exists_cons_of_kindAt hts (by decide)
  by_cases hx : kindAt ts = .ident
  · obtain ⟨x, ts, rfl, hx⟩ := exists_cons_of_kindAt hx (by decide)
    refine PinpointsOn.advance ?_
    refine (PinpointsOn.take (List.mem_singleton.mpr hx) ?_).mono (Nat.zero_le 1)
    refine (paramList_pinpoints.on ts).bind fun p names hp => ?_
    exact hb.map fun b body hbody => .define hf hx hp hbody
  · refine PinpointsOn.stepBack (fun ts' hhead => misses_check ?_)
      (evalStmt_enters hn _ (by rw [hts]; decide))
    rwa [kindAt_eq_of_head? hhead]

theorem branchStmt_pinpoints (hr : Pinpoints branch branch' Branch) :
    Pinpoints (branchStmt expr block branch)
      (fun i => branchStmt (expr' i) (block' i) (branch' i)) Branch := by
  refine Pinpoints.expect (by decide) fun i hi => he.bind fun s test hs => ?_
  refine hb.bind fun b yes hy => ?_
  refine Pinpoints.accept (by decide) (fun k hk => Pinpoints.check ?_ ?_) (Pinpoints.pure ?_)
  · exact hr.map fun s' no hn => .chain hi hs hy hk hn
  · exact hb.map fun s' no hn => .block hi hs hy hk hn
  · simpa using Branch.plain hi hs hy

theorem statement_pinpoints (hn : Enters expr expr' Expression [.ident, .fnKw])
    (hr : Pinpoints branch branch' Branch) :
    Pinpoints (statement expr block branch)
      (fun i => statement (expr' i) (block' i) (branch' i)) Statement := by
  have hD : ∃ s st, Statement s st := ⟨[tokenOf .semicolon], _, .empty rfl⟩
  refine ⟨hD, fun ts => ?_⟩
  unfold statement
  refine PinpointsOn.lookKind (.ofTokens [] (tokenOf (kindAt ts)))
    (fun r hr => by simp only [hr]; rfl) (fun i r hr => by simp only [hr]; rfl) ?_
  dsimp only [Reader.ofTokens, tokenOf]
  cases hk : kindAt ts
  case semicolon =>
    obtain ⟨q, ts, rfl, hq⟩ := exists_cons_of_kindAt hk (by decide)
    refine (PinpointsOn.advance ?_).mono (Nat.zero_le 1)
    exact PinpointsOn.pure (.empty hq)
  case letKw => exact (declareStmt_pinpoints he).on ts
  case ident => exact (assignStmt_pinpointsOn he hn hk).mono (Nat.zero_le 1)
  case lbrace => exact (hb.imp fun _ _ hs => .block hs).on ts
  case ifKw => exact (hr.imp fun _ _ hs => .branch hs).on ts
  case elseKw =>
    refine PinpointsOn.failHere hD fun r hr => ?_
    exact hr.kind_current.trans hk
  case whileKw => exact (loopStmt_pinpoints he hb).on ts
  case fnKw => exact (defineStmt_pinpointsOn hb hn hk).mono (Nat.zero_le 1)
  case returnKw => exact (giveStmt_pinpoints he).on ts
  case printKw => exact (printStmt_pinpoints he).on ts
  all_goals exact (evalStmt_pinpoints he).on ts

end

/-! ## Sequences of statements -/

/-- A test for the end of a sequence, which takes nothing. -/
def Untouched (s : List Token) (_ : Bool) : Prop :=
  s = []

theorem check_pinpoints (ks : List Kind) :
    Pinpoints (check ks) (fun _ : ι => check ks) Untouched := by
  refine ⟨⟨[], true, rfl⟩, fun ts => ?_⟩
  have hat : ∀ r : Reader, r.current.kind = kindAt ts →
      (pure (r.at? ks) : Parse Bool) = pure (ks.contains (kindAt ts)) :=
    fun r hr => by rw [Reader.at?, hr]
  exact PinpointsOn.lookKind (.ofTokens [] (tokenOf (kindAt ts))) hat (fun _ => hat)
    (PinpointsOn.pure rfl)

theorem atClosingBrace_pinpoints :
    Pinpoints atClosingBrace (fun _ : ι => atClosingBrace) Untouched := by
  refine Pinpoints.check (Pinpoints.pure rfl) ⟨⟨[], true, rfl⟩, fun ts => ?_⟩
  refine PinpointsOn.check (fun hk => ?_) fun _ => PinpointsOn.pure rfl
  refine PinpointsOn.failHere ⟨[], true, rfl⟩ fun r hr => ?_
  exact hr.kind_current.trans (List.mem_singleton.mp hk)

theorem statementsFrom_pinpoints {atEnd : Parse Bool}
    (ha : Pinpoints atEnd (fun _ : ι => atEnd) Untouched) (hs : Pinpoints stmt stmt' Statement)
    (n : Nat) :
    Pinpoints (statementsFrom atEnd stmt n)
      (fun j : ι × Nat => statementsFrom atEnd (stmt' j.1) j.2) Items := by
  induction n with
  | zero => exact Pinpoints.tooDeep ⟨[], [], .nil⟩
  | succ n ih =>
    refine Pinpoints.succ (Q := fun i n => statementsFrom atEnd (stmt' i) n) (fun _ => rfl) ?_
    simp only [statementsFrom]
    refine (ha.reindex Prod.fst).bind ?_
    rintro _ b rfl
    simp only [List.nil_append]
    cases b with
    | true => exact Pinpoints.pure .nil
    | false =>
      refine Pinpoints.accept (by decide) (fun c hc => ?_) ?_
      · exact ih.imp fun s body hb => .comment hc hb
      · exact (hs.reindex Prod.fst).bind fun s st hst => ih.map fun s' body hb => .stmt hst hb

theorem blockStmt_pinpoints (hs : Pinpoints stmt stmt' Statement) :
    Pinpoints (blockStmt stmt) (fun i => blockStmt (stmt' i)) Block := by
  refine Pinpoints.expect (by decide) fun l hl => Pinpoints.bound fun n => ?_
  refine (statementsFrom_pinpoints atClosingBrace_pinpoints hs n).bind fun s body hb => ?_
  exact Pinpoints.expect (by decide) fun r hr => Pinpoints.pure (.braces hl hb hr)

/-! ## Programs -/

/-- The recursive readers, with any bound, against themselves with any other. The induction is on
the bound of the reader itself. The bound of the other may be anything, because with a smaller one
it fails and is allowed to. -/
theorem recursive_pinpoint (n : Nat) :
    Pinpoints (Parse.expr n) Parse.expr Expression ∧
      Enters (Parse.expr n) Parse.expr Expression [.ident, .fnKw] ∧
      Pinpoints (unary n) unary Unary ∧ Enters (unary n) unary Unary [.ident] ∧
      Pinpoints (Parse.block n) Parse.block Block ∧ Pinpoints (Parse.branch n) Parse.branch Branch ∧
      Pinpoints (Parse.stmt n) Parse.stmt Statement := by
  induction n with
  | zero =>
    obtain ⟨s, e, hs⟩ := exists_unary
    have hexpr : ∃ s e, Expression s e := ⟨s, e, expression_of_unary hs⟩
    have hblock : Block [tokenOf .lbrace, tokenOf .rbrace] (.block (markOf (tokenOf .lbrace)) []) :=
      .braces rfl .nil rfl
    have hbranch : ∃ s st, Branch s st :=
      ⟨tokenOf .ifKw :: (s ++ _), _, .plain rfl (expression_of_unary hs) hblock⟩
    exact ⟨Pinpoints.tooDeep hexpr, fun _ _ _ _ => .inl rfl, Pinpoints.tooDeep exists_unary,
      fun _ _ _ _ => .inl rfl, Pinpoints.tooDeep ⟨_, _, hblock⟩, Pinpoints.tooDeep hbranch,
      Pinpoints.tooDeep ⟨_, _, .block hblock⟩⟩
  | succ n ih =>
    obtain ⟨he, hn, hu, hx, hb, hr, hs⟩ := ih
    refine ⟨?_, fun ts hts => ?_, ?_, fun ts hts => ?_, ?_, ?_, ?_⟩
    · exact (expression_pinpoints he hb hu).among (fails_or_succ rfl)
    · exact (expression_enters he hb hu hx ts hts).among (Nat.le_refl 1) (fails_or_succ rfl)
    · exact (signed_pinpoints he hu).among (fails_or_succ rfl)
    · exact (signed_enters he ts hts).among (Nat.le_refl 1) (fails_or_succ rfl)
    · exact (blockStmt_pinpoints hs).among (fails_or_succ rfl)
    · exact (branchStmt_pinpoints he hb hr).among (fails_or_succ rfl)
    · exact (statement_pinpoints he hb hn hr).among (fails_or_succ rfl)

theorem program_pinpoints : Pinpoints program (fun _ : Unit => program) Items := by
  refine Pinpoints.bound fun n => Pinpoints.bound fun n' => ?_
  obtain ⟨-, -, -, -, -, -, hs⟩ := recursive_pinpoint n
  exact statementsFrom_pinpoints (check_pinpoints [.eof]) (hs.reindex Prod.snd) n'

/-- The parser accepts a sequence of tokens that has its end where it ends. -/
def Accepts (tokens : List Token) : Prop :=
  ∃ ts eof body r, tokens = ts ++ [eof] ∧ (∀ t ∈ ts, t.kind ≠ .eof) ∧ eof.kind = .eof ∧
    program (.ofTokens ts eof) = .ok body r

theorem exists_accepts_of_items {used more : List Token} {body : List Stmt}
    (h : Items (used ++ more) body) : ∃ more, Accepts (used ++ more) := by
  let eof := Token.endOfSource .start
  have heof : eof.kind = .eof := rfl
  have hts := h.nested.kind_ne_eof
  obtain ⟨r, hr⟩ := program_of_items hts heof h
  refine ⟨more ++ [eof], used ++ more, eof, body, r, ?_, hts, heof, hr⟩
  rw [List.append_assoc]

/-- What follows some tokens in an accepted sequence starts with the next one, unless that is the
end. -/
theorem exists_rest_of_append {used more ts : List Token} {x eof : Token}
    (h : used ++ [x] ++ more = ts ++ [eof]) (hts : ∀ t ∈ ts, t.kind ≠ .eof)
    (heof : eof.kind = .eof) :
    ∃ rest, ts = used ++ rest ∧ rest.head? = if x.kind = .eof then none else some x := by
  rcases List.eq_nil_or_concat more with rfl | ⟨mid, last, rfl⟩
  · rw [List.append_nil] at h
    obtain ⟨rfl, hlast⟩ := List.append_inj' h rfl
    obtain ⟨rfl, -⟩ := List.cons.inj hlast
    exact ⟨[], (List.append_nil _).symm, by rw [if_pos heof]; rfl⟩
  · rw [List.concat_eq_append, ← List.append_assoc] at h
    obtain ⟨rfl, -⟩ := List.append_inj' h rfl
    refine ⟨x :: mid, by simp, ?_⟩
    rw [if_neg (hts x (by simp))]
    rfl

/-- The end that a reader has come to is that of its source. -/
theorem current_of_program {ts : List Token} {eof : Token} (hts : ∀ t ∈ ts, t.kind ≠ .eof)
    {e : Error} {r : Reader} (h : program (.ofTokens ts eof) = .error e r)
    (hr : r.current.kind = .eof) : r.current = eof := by
  obtain ⟨j, hj⟩ := keeps_program _ 0 _ (Reader.at_ofTokens ts eof)
  rw [Reader.after, h] at hj
  have hcurrent : r.current = ts[j]?.getD eof := hj.current
  cases hget : ts[j]? with
  | none => rw [hcurrent, hget]; rfl
  | some t =>
    rw [hcurrent, hget] at hr
    exact absurd hr (hts t (List.mem_of_getElem? hget))

/-- **Errors are at the first bad token.** Where the parser rejects a sequence of tokens, its error
is about one of them, the end included. What stands before that token can be continued to a sequence
that is accepted, and what stands up to it, itself included, cannot. If no two tokens share a place,
the error names the token by its place alone. -/
theorem program_error_first_bad {ts : List Token} {eof : Token} (hts : ∀ t ∈ ts, t.kind ≠ .eof)
    (heof : eof.kind = .eof) {e : Error} {r : Reader}
    (h : program (.ofTokens ts eof) = .error e r) :
    ∃ i t, (ts ++ [eof])[i]? = some t ∧ e.Blames t ∧
      (∃ more, Accepts ((ts ++ [eof]).take i ++ more)) ∧
      (∀ more, ¬ Accepts ((ts ++ [eof]).take (i + 1) ++ more)) ∧
      (((ts ++ [eof]).map Token.pos).Nodup →
        ∀ j u, (ts ++ [eof])[j]? = some u → u.pos = e.pos → j = i) := by
  have hon := program_pinpoints.on ts _ (Reader.before_ofTokens heof hts)
  rw [h] at hon
  obtain hdeep | ⟨used, rest, -, stopped⟩ := hon
  · exact absurd hdeep (program_error_ne_tooDeep hts heof h)
  obtain ⟨x, tail, htail, hblames, hhead⟩ : ∃ x tail, rest ++ [eof] = x :: tail ∧ e.Blames x ∧
      rest.head? = if x.kind = .eof then none else some x := by
    have hblames := stopped.blames
    cases rest with
    | nil =>
      rw [Error.BlamesFirst, current_of_program hts h hblames.1] at hblames
      exact ⟨eof, [], rfl, hblames.2, (if_pos heof).symm⟩
    | cons t rest =>
      have ht : t.kind ≠ .eof := hts t (by simp [stopped.split])
      exact ⟨t, rest ++ [eof], rfl, hblames, (if_neg ht).symm⟩
  have hall : ts ++ [eof] = used ++ x :: tail := by
    rw [stopped.split, List.append_assoc, htail]
  have hget : (ts ++ [eof])[used.length]? = some x := by
    rw [hall, List.getElem?_append_right (Nat.le_refl _), Nat.sub_self]
    rfl
  refine ⟨used.length, x, hget, hblames, ?_, fun more haccepts => ?_, fun hnodup j u hu hpos => ?_⟩
  · obtain ⟨more, body, hitems⟩ := stopped.viable
    rw [hall, List.take_left]
    exact exists_accepts_of_items hitems
  · -- Another sequence that starts so makes the parser stop where it stopped here.
    have htake : (ts ++ [eof]).take (used.length + 1) = used ++ [x] := by
      rw [hall, List.take_length_add_append]
      rfl
    obtain ⟨ts', eof', body, r', heq, hts', heof', hrun⟩ := haccepts
    rw [htake] at heq
    obtain ⟨rest', rfl, hhead'⟩ := exists_rest_of_append heq hts' heof'
    obtain ⟨e', s', herror⟩ := stopped.again rest' (hhead'.trans hhead.symm) () _
      (Reader.before_ofTokens heof' hts')
    rw [hrun] at herror
    cases herror
  · have hplaces : ((ts ++ [eof]).map Token.pos)[used.length]? =
        ((ts ++ [eof]).map Token.pos)[j]? := by
      rw [List.getElem?_map, List.getElem?_map, hget, hu, Option.map_some, Option.map_some, hpos,
        hblames.pos]
    have hlt : used.length < ((ts ++ [eof]).map Token.pos).length := by
      rw [hall, List.length_map, List.length_append, List.length_cons]
      omega
    exact ((List.getElem?_inj hlt hnodup).mp hplaces).symm

/-- In `fn f(a, a` the second `a` is to blame: up to the comma there is hope. -/
theorem program_error_first_bad_repeated :
    let ts : List Token := [⟨.fnKw, "fn", ⟨1, 1⟩⟩, ⟨.ident, "f", ⟨1, 4⟩⟩, ⟨.lparen, "(", ⟨1, 5⟩⟩,
      ⟨.ident, "a", ⟨1, 6⟩⟩, ⟨.comma, ",", ⟨1, 7⟩⟩, ⟨.ident, "a", ⟨1, 9⟩⟩]
    let eof : Token := .endOfSource ⟨1, 10⟩
    program (.ofTokens ts eof) =
        .error ⟨⟨1, 9⟩, .repeatedParam "a"⟩ ⟨eof, some ⟨.ident, "a", ⟨1, 9⟩⟩, [], [], eof⟩ ∧
      (∃ more, Accepts (ts.take 5 ++ more)) ∧ ∀ more, ¬ Accepts (ts.take 6 ++ more) := by
  intro ts eof
  have hrun : program (.ofTokens ts eof) =
      .error ⟨⟨1, 9⟩, .repeatedParam "a"⟩ ⟨eof, some ⟨.ident, "a", ⟨1, 9⟩⟩, [], [], eof⟩ := rfl
  obtain ⟨i, t, -, -, hviable, hdead, hplace⟩ :=
    program_error_first_bad (by decide) (by decide) hrun
  obtain rfl : 5 = i := hplace (by decide) 5 ⟨.ident, "a", ⟨1, 9⟩⟩ rfl rfl
  exact ⟨hrun, hviable, hdead⟩

end Treewalk.Parse
