import Mathlib.Data.List.Nodup
import Treewalk.Proofs.Grammar.First

/-!
# What is read is derived

Every reader of a construction takes a sequence of tokens that the rule for that construction
derives, with the tree that it gives.

## How the readers are followed

For each construction there is a lemma, and these stand in the order of the definitions. A lemma
takes the soundness of the parts as hypotheses about arbitrary actions; it does not know that the
action for an expression is `Parse.expr`. The recursion is tied at the end, by `sound_passes`, which
is the list of these lemmas and nothing more.

## Implementation notes

`Sound` quantifies over sequences of fewer than `k` tokens, since the readers of the parts are known
to be sound only on those while the induction goes on. A construction that has taken a token uses
its parts on one token less, so its lemma can go from `k` to `k + 1`. It does so where the recursion
needs it, and the other lemmas keep `k`.

Loops collect what they have read on the left, so their statements have a part that is already
derived. `joinFrom` starts from an operand that was derived before, and parameters from names that
are known to be distinct; from these the statement about a whole list follows with nothing read yet.

The two constructions that step back are stated for sequences that start as they do when they are
called. On any other sequence they would still do something, but nobody calls them there.
-/

namespace Treewalk.Parse

open Grammar

variable {α : Type} {expr deeper : Parse Expr} {block branch stmt : Parse Stmt} {k : Nat}

/-- On fewer than `k` tokens, the action takes only what `D` derives. The bound is what an induction
needs that goes down with every token that is taken. -/
def Sound (p : Parse α) (D : List Token → α → Prop) (k : Nat) : Prop :=
  ∀ ts : List Token, ts.length < k → Reads p ts fun a rest => ∃ s, ts = s ++ rest ∧ D s a

/-! ## Names and arguments -/

theorem paramsFrom_reads (n : Nat) : ∀ (seen : List String) (ts : List Token), ts.length < n →
    Reads (paramsFrom n seen) ts fun names rest =>
      ∃ s more, ts = s ++ rest ∧ Names s more ∧ names = seen ++ more ∧
        (seen.Nodup → names.Nodup) := by
  induction n with
  | zero => intro seen ts hn; omega
  | succ n ih =>
    intro seen ts hn
    rw [paramsFrom]
    refine Reads.expect (by decide) ?_
    rintro x ts rfl hx
    by_cases hc : seen.contains x.text = true
    · simp only [hc, if_true]
      exact Reads.bind (Q := fun _ _ => False) (Reads.throw Cause.noConfusion)
        fun _ _ hq => hq.elim
    simp only [hc]
    have hnew : seen.Nodup → (seen ++ [x.text]).Nodup := fun hs =>
      hs.append (List.nodup_singleton _) (by simpa using hc)
    refine Reads.accept (by decide) ?_ fun _ => Reads.pure ⟨[x], _, rfl, .one hx, rfl, hnew⟩
    rintro c ts rfl hcomma
    refine (ih (seen ++ [x.text]) ts (by simp at hn; omega)).mono ?_
    rintro names rest ⟨s, more, rfl, hs, rfl, hd⟩
    exact ⟨x :: c :: s, x.text :: more, rfl, .more hx hcomma hs, by simp, fun h => hd (hnew h)⟩

theorem paramList_sound (k : Nat) : Sound paramList Params k := by
  intro ts _
  rw [paramList]
  refine Reads.expect (by decide) ?_
  rintro l ts rfl hl
  refine Reads.check (fun _ => ?_) fun _ => Reads.bound fun n hn => ?_
  · refine Reads.expect (by decide) ?_
    rintro r ts rfl hr
    exact Reads.pure ⟨[l, r], rfl, .none hl hr⟩
  · refine (paramsFrom_reads n [] ts (by omega)).bind ?_
    rintro names rest ⟨s, more, rfl, hs, rfl, hd⟩
    refine Reads.expect (by decide) ?_
    rintro r rest rfl hr
    exact Reads.pure ⟨l :: (s ++ [r]), by simp, .some hl hs (hd List.nodup_nil) hr⟩

theorem argsFrom_sound (he : Sound expr Expression k) (n : Nat) :
    Sound (argsFrom expr n) Arguments (min k n) := by
  induction n with
  | zero => intro ts ht; omega
  | succ n ih =>
    intro ts ht
    rw [argsFrom]
    refine (he ts (by omega)).bind ?_
    rintro e rest ⟨s, rfl, hs⟩
    refine Reads.accept (by decide) ?_ fun _ => Reads.pure ⟨s, rfl, .one hs⟩
    rintro c rest rfl hc
    refine (ih rest (by simp at ht; omega)).bind ?_
    rintro args rest ⟨s', rfl, hs'⟩
    exact Reads.pure ⟨s ++ c :: s', by simp, .more hs hc hs'⟩

/-- Arguments in brackets: none before the closing bracket, or a derived list. -/
theorem argList_reads (he : Sound expr Expression k) {ts : List Token} (ht : ts.length < k) :
    Reads (argList expr) ts fun args rest =>
      args = [] ∧ rest = ts ∨ ∃ s, ts = s ++ rest ∧ Arguments s args := by
  rw [argList]
  refine Reads.check (fun _ => Reads.pure (.inl ⟨rfl, rfl⟩)) fun _ => Reads.bound fun n hn => ?_
  exact (argsFrom_sound he n ts (by omega)).mono fun _ _ h => .inr h

/-! ## Expressions -/

theorem literal_reads {t : Token} {cause : Cause} (hc : cause ≠ .tooDeep) (v : Option α)
    (ts : List Token) : Reads (literal t cause v) ts fun a rest => v = some a ∧ rest = ts := by
  cases v with
  | none => exact Reads.throw hc
  | some a => exact Reads.pure ⟨rfl, rfl⟩

theorem primary_sound (he : Sound expr Expression k) : Sound (primary expr) Unary (k + 1) := by
  intro ts ht
  rw [primary]
  refine Reads.get fun r hr => ?_
  dsimp only
  split
  case h_1 h =>
    refine Reads.advance_current hr (by rw [h]; decide) fun rest hts => ?_
    refine (literal_reads Cause.noConfusion _ _).bind ?_
    rintro v _ ⟨hv, rfl⟩
    exact Reads.pure ⟨[_], hts, .int h hv⟩
  case h_2 h =>
    refine Reads.advance_current hr (by rw [h]; decide) fun rest hts => ?_
    refine (literal_reads Cause.noConfusion _ _).bind ?_
    rintro v _ ⟨hv, rfl⟩
    exact Reads.pure ⟨[_], hts, .float h hv⟩
  case h_3 h =>
    refine Reads.advance_current hr (by rw [h]; decide) fun rest hts => ?_
    refine (literal_reads Cause.noConfusion _ _).bind ?_
    rintro v _ ⟨hv, rfl⟩
    exact Reads.pure ⟨[_], hts, .char h hv⟩
  case h_4 h =>
    exact Reads.advance_current hr (by rw [h]; decide) fun _ hts =>
      Reads.pure ⟨[_], hts, .string h⟩
  case h_5 h =>
    exact Reads.advance_current hr (by rw [h]; decide) fun _ hts => Reads.pure ⟨[_], hts, .true h⟩
  case h_6 h =>
    exact Reads.advance_current hr (by rw [h]; decide) fun _ hts => Reads.pure ⟨[_], hts, .false h⟩
  case h_7 h =>
    exact Reads.advance_current hr (by rw [h]; decide) fun _ hts => Reads.pure ⟨[_], hts, .nil h⟩
  case h_8 h =>
    refine Reads.advance_current hr (by rw [h]; decide) fun rest hts => ?_
    rw [hts] at ht
    refine (he rest (by simpa using ht)).bind ?_
    rintro e rest ⟨s, rfl, hs⟩
    refine Reads.expect (by decide) ?_
    rintro q rest rfl hq
    exact Reads.pure ⟨r.current :: (s ++ [q]), by rw [hts]; simp, .group h hs hq⟩
  case h_9 => exact Reads.failHere fun _ => Cause.noConfusion

theorem operand_sound (he : Sound expr Expression k) : Sound (operand expr) Unary (k + 1) := by
  intro ts ht
  rw [operand]
  refine Reads.check (fun hx => ?_) fun _ => primary_sound he ts ht
  have hx : kindAt ts = .ident := List.mem_singleton.mp hx
  refine Reads.advance (by rw [hx]; decide) ?_
  rintro x ts rfl
  refine Reads.accept (by decide) ?_ fun _ => Reads.pure ⟨[x], rfl, .var hx⟩
  rintro l ts rfl hl
  refine (argList_reads he (by simp at ht; omega)).bind ?_
  rintro args rest (⟨rfl, rfl⟩ | ⟨s, rfl, hs⟩) <;> refine Reads.expect (by decide) ?_ <;>
    rintro q rest rfl hq
  · exact Reads.pure ⟨[x, l, q], rfl, .callNone hx hl hq⟩
  · exact Reads.pure ⟨x :: l :: (s ++ [q]), by simp, .call hx hl hs hq⟩

theorem signed_sound (he : Sound expr Expression k) (hu : Sound deeper Unary k) :
    Sound (signed expr deeper) Unary (k + 1) := by
  intro ts ht
  rw [signed]
  refine Reads.check (fun ho => ?_) fun _ => operand_sound he ts ht
  refine Reads.advance (fun h => by simp [h] at ho) ?_
  rintro op ts rfl
  refine (hu ts (by simpa using ht)).bind ?_
  rintro e rest ⟨s, rfl, hs⟩
  exact Reads.pure ⟨op :: s, rfl, .signed (by simpa using ho) hs⟩

/-- Joining goes on from a left operand that is derived by what has been taken before. -/
theorem joinFrom_reads {ops : List Kind} {more : List (List Kind)} {tighter : Parse Expr}
    (ho : .eof ∉ ops) (hm : Sound tighter (Level more) k) (n : Nat) :
    ∀ (s₀ : List Token) (left : Expr) (ts : List Token), Level (ops :: more) s₀ left →
      ts.length < k → ts.length < n → Reads (joinFrom ops tighter n left) ts fun e rest =>
        ∃ s, ts = s ++ rest ∧ Level (ops :: more) (s₀ ++ s) e := by
  induction n with
  | zero => intro _ _ _ _ _ hn; omega
  | succ n ih =>
    intro s₀ left ts hs₀ hk hn
    rw [joinFrom]
    refine Reads.check (fun hop => ?_) fun _ => Reads.pure ⟨[], rfl, by simpa using hs₀⟩
    refine Reads.advance (fun h => ho (h ▸ hop)) ?_
    rintro op ts rfl
    simp only [List.length_cons] at hk hn
    refine (hm ts (by omega)).bind ?_
    rintro rhs rest ⟨s, rfl, hs⟩
    simp only [List.length_append] at hk hn
    refine (ih (s₀ ++ op :: s) _ rest (.join hs₀ hop hs) (by omega) (by omega)).mono ?_
    rintro e rest ⟨s', rfl, hs'⟩
    exact ⟨op :: (s ++ s'), by simp, by simpa using hs'⟩

theorem climb_sound {tightest : Parse Expr} (hu : Sound tightest Unary k) :
    ∀ ls : List (List Kind), (∀ ops ∈ ls, .eof ∉ ops) → Sound (climb ls tightest) (Level ls) k
  | [], _ => fun ts ht => (hu ts ht).mono fun _ _ ⟨s, hts, hs⟩ => ⟨s, hts, .unary hs⟩
  | ops :: more, ho => by
    have hm : Sound (climb more tightest) (Level more) k :=
      climb_sound hu more fun o h => ho o (List.mem_cons_of_mem _ h)
    intro ts ht
    rw [climb]
    refine (hm ts ht).bind ?_
    rintro e rest ⟨s, rfl, hs⟩
    refine Reads.bound fun n hn => ?_
    refine (joinFrom_reads (ho ops List.mem_cons_self) hm n s e rest (.single hs)
      (by simp at ht; omega) (by omega)).mono ?_
    rintro e rest ⟨s', rfl, hs'⟩
    exact ⟨s ++ s', by simp, hs'⟩

theorem lambda_sound (he : Sound expr Expression k) (hb : Sound block Block k) :
    Sound (lambda expr block) Expression (k + 1) := by
  intro ts ht
  rw [lambda]
  refine Reads.expect (by decide) ?_
  rintro f ts rfl hf
  refine (paramList_sound _ ts (Nat.lt_succ_self _)).bind ?_
  rintro names rest ⟨p, rfl, hp⟩
  simp only [List.length_cons, List.length_append] at ht
  refine Reads.check (fun ha => ?_) fun _ => ?_
  · refine Reads.advance (fun h => by simp [h] at ha) ?_
    rintro a rest rfl
    refine (he rest (by simp at ht; omega)).bind ?_
    rintro e rest ⟨s, rfl, hs⟩
    exact Reads.pure ⟨f :: (p ++ a :: s), by simp, .arrow hf hp (by simpa using ha) hs⟩
  · refine (hb rest (by omega)).bind ?_
    rintro body rest ⟨b, rfl, hs⟩
    exact Reads.pure ⟨f :: (p ++ b), by simp, .lambda hf hp hs⟩

theorem levels_eq_precedence : levels = precedence := rfl

theorem expression_sound (he : Sound expr Expression k) (hb : Sound block Block k)
    (hu : Sound deeper Unary (k + 1)) :
    Sound (expression expr block deeper) Expression (k + 1) := by
  intro ts ht
  rw [expression]
  refine Reads.check (fun _ => lambda_sound he hb ts ht) fun _ => ?_
  refine (climb_sound hu levels (by decide) ts ht).mono ?_
  rintro e rest ⟨s, hts, hs⟩
  exact ⟨s, hts, .level (levels_eq_precedence ▸ hs)⟩

/-! ## Statements -/

theorem evalStmt_sound (he : Sound expr Expression k) : Sound (evalStmt expr) Statement k := by
  intro ts ht
  rw [evalStmt]
  refine (he ts ht).bind ?_
  rintro e rest ⟨s, rfl, hs⟩
  refine Reads.expect (by decide) ?_
  rintro q rest rfl hq
  exact Reads.pure ⟨s ++ [q], by simp, .eval hs hq⟩

theorem declareStmt_sound (he : Sound expr Expression k) :
    Sound (declareStmt expr) Statement k := by
  intro ts ht
  rw [declareStmt]
  refine Reads.expect (by decide) ?_
  rintro l ts rfl hl
  refine Reads.expect (by decide) ?_
  rintro x ts rfl hx
  refine Reads.accept (by decide) ?_ fun _ => ?_
  · rintro a ts rfl ha
    refine (he ts (by simp at ht; omega)).bind ?_
    rintro e rest ⟨s, rfl, hs⟩
    refine Reads.expect (by decide) ?_
    rintro q rest rfl hq
    exact Reads.pure ⟨l :: x :: a :: (s ++ [q]), by simp, .declare hl hx ha hs hq⟩
  · refine Reads.expect (by decide) ?_
    rintro q ts rfl hq
    exact Reads.pure ⟨[l, x, q], rfl, .declareNil hl hx hq⟩

theorem assignStmt_sound (he : Sound expr Expression k) {ts : List Token} (ht : ts.length < k)
    (hx : kindAt ts = .ident) :
    Reads (assignStmt expr) ts fun st rest => ∃ s, ts = s ++ rest ∧ Statement s st := by
  obtain ⟨x, ts, rfl, hx⟩ := exists_cons_of_kindAt hx (by decide)
  by_cases ha : kindAt ts = .assign
  · refine Reads.advance (by simp [hx]) ?_
    rintro x ts ⟨rfl, rfl⟩
    refine Reads.accept (by decide) ?_ fun h => absurd ha h
    rintro a ts rfl ha
    refine (he ts (by simp at ht; omega)).bind ?_
    rintro e rest ⟨s, rfl, hs⟩
    refine Reads.expect (by decide) ?_
    rintro q rest rfl hq
    exact Reads.pure ⟨x :: a :: (s ++ [q]), by simp, .assign hx ha hs hq⟩
  · exact Reads.stepBack (misses_accept ha) (evalStmt_sound he _ ht)

theorem loopStmt_sound (he : Sound expr Expression k) (hb : Sound block Block k) :
    Sound (loopStmt expr block) Statement k := by
  intro ts ht
  rw [loopStmt]
  refine Reads.expect (by decide) ?_
  rintro w ts rfl hw
  refine (he ts (by simp at ht; omega)).bind ?_
  rintro test rest ⟨s, rfl, hs⟩
  refine (hb rest (by simp at ht; omega)).bind ?_
  rintro body rest ⟨b, rfl, hb⟩
  exact Reads.pure ⟨w :: (s ++ b), by simp, .loop hw hs hb⟩

theorem defineStmt_sound (he : Sound expr Expression k) (hb : Sound block Block k)
    {ts : List Token} (ht : ts.length < k) (hf : kindAt ts = .fnKw) :
    Reads (defineStmt expr block) ts fun st rest => ∃ s, ts = s ++ rest ∧ Statement s st := by
  obtain ⟨f, ts, rfl, hf⟩ := exists_cons_of_kindAt hf (by decide)
  by_cases hx : kindAt ts = .ident
  · refine Reads.advance (by simp [hf]) ?_
    rintro f ts ⟨rfl, rfl⟩
    refine Reads.check (fun _ => ?_) fun h => absurd (List.mem_singleton.mpr hx) h
    refine Reads.advance (by simp [hx]) ?_
    rintro x ts rfl
    refine (paramList_sound _ ts (Nat.lt_succ_self _)).bind ?_
    rintro names rest ⟨p, rfl, hp⟩
    refine (hb rest (by simp at ht; omega)).bind ?_
    rintro body rest ⟨b, rfl, hb⟩
    exact Reads.pure ⟨f :: x :: (p ++ b), by simp, .define hf hx hp hb⟩
  · exact Reads.stepBack (misses_check hx) (evalStmt_sound he _ ht)

theorem giveStmt_sound (he : Sound expr Expression k) : Sound (giveStmt expr) Statement k := by
  intro ts ht
  rw [giveStmt]
  refine Reads.expect (by decide) ?_
  rintro g ts rfl hg
  refine Reads.check (fun _ => ?_) fun _ => ?_
  · refine Reads.expect (by decide) ?_
    rintro q ts rfl hq
    exact Reads.pure ⟨[g, q], rfl, .giveNil hg hq⟩
  · refine (he ts (by simp at ht; omega)).bind ?_
    rintro e rest ⟨s, rfl, hs⟩
    refine Reads.expect (by decide) ?_
    rintro q rest rfl hq
    exact Reads.pure ⟨g :: (s ++ [q]), by simp, .give hg hs hq⟩

/-- Further arguments: none, or a comma and a derived list. -/
theorem moreArgsFrom_reads (he : Sound expr Expression k) (n : Nat) :
    ∀ ts : List Token, ts.length < k → ts.length < n →
      Reads (moreArgsFrom expr n) ts fun args rest => args = [] ∧ rest = ts ∨
        ∃ c s, ts = c :: (s ++ rest) ∧ c.kind = .comma ∧ Arguments s args := by
  induction n with
  | zero => intro _ _ hn; omega
  | succ n ih =>
    intro ts hk hn
    rw [moreArgsFrom]
    refine Reads.accept (by decide) ?_ fun _ => Reads.pure (.inl ⟨rfl, rfl⟩)
    rintro c ts rfl hc
    simp only [List.length_cons] at hk hn
    refine (he ts (by omega)).bind ?_
    rintro e rest ⟨s, rfl, hs⟩
    simp only [List.length_append] at hk hn
    refine (ih rest (by omega) (by omega)).bind ?_
    rintro args rest' (⟨rfl, rfl⟩ | ⟨c', s', rfl, hc', hs'⟩)
    · exact Reads.pure (.inr ⟨c, s, rfl, hc, .one hs⟩)
    · exact Reads.pure (.inr ⟨c, s ++ c' :: s', by simp, hc, .more hs hc' hs'⟩)

theorem printStmt_sound (he : Sound expr Expression k) : Sound (printStmt expr) Statement k := by
  intro ts ht
  rw [printStmt]
  refine Reads.expect (by decide) ?_
  rintro p ts rfl hp
  refine Reads.expect (by decide) ?_
  rintro l ts rfl hl
  refine Reads.expectOr (by decide) (fun _ => Cause.noConfusion) ?_
  rintro t ts rfl hf
  refine Reads.bound fun n hn => ?_
  refine (moreArgsFrom_reads he n ts (by simp at ht; omega) (by omega)).bind ?_
  rintro args rest (⟨rfl, rfl⟩ | ⟨c, s, rfl, hc, hs⟩) <;> refine Reads.expect (by decide) ?_ <;>
    rintro r rest rfl hr <;> refine Reads.expect (by decide) ?_ <;> rintro q rest rfl hq
  · exact Reads.pure ⟨[p, l, t, r, q], rfl, .printNone hp hl hf hr hq⟩
  · exact Reads.pure ⟨p :: l :: t :: c :: (s ++ [r, q]), by simp, .print hp hl hf hc hs hr hq⟩

theorem branchStmt_sound (he : Sound expr Expression k) (hb : Sound block Block k)
    (hr : Sound branch Branch k) : Sound (branchStmt expr block branch) Branch (k + 1) := by
  intro ts ht
  rw [branchStmt]
  refine Reads.expect (by decide) ?_
  rintro i ts rfl hi
  refine (he ts (by simpa using ht)).bind ?_
  rintro test rest ⟨s, rfl, hs⟩
  refine (hb rest (by simp at ht; omega)).bind ?_
  rintro yes rest ⟨b, rfl, hy⟩
  refine Reads.accept (by decide) ?_ fun _ =>
    Reads.pure ⟨i :: (s ++ b), by simp, .plain hi hs hy⟩
  rintro e rest rfl hk
  refine Reads.check (fun _ => ?_) fun _ => ?_
  · refine (hr rest (by simp at ht; omega)).bind ?_
    rintro no rest ⟨s', rfl, hn⟩
    exact Reads.pure ⟨i :: (s ++ (b ++ e :: s')), by simp, .chain hi hs hy hk hn⟩
  · refine (hb rest (by simp at ht; omega)).bind ?_
    rintro no rest ⟨s', rfl, hn⟩
    exact Reads.pure ⟨i :: (s ++ (b ++ e :: s')), by simp, .block hi hs hy hk hn⟩

theorem statement_sound (he : Sound expr Expression k) (hb : Sound block Block k)
    (hr : Sound branch Branch k) : Sound (statement expr block branch) Statement k := by
  intro ts ht
  rw [statement]
  refine Reads.get fun r hbefore => ?_
  have hk := hbefore.kind_current
  split
  case h_1 h =>
    refine Reads.advance_current hbefore (by rw [h]; decide) fun rest hts => ?_
    exact Reads.pure ⟨[r.current], hts, .empty h⟩
  case h_2 => exact declareStmt_sound he ts ht
  case h_3 h => exact assignStmt_sound he ht (hk ▸ h)
  case h_4 => exact (hb ts ht).mono fun _ _ ⟨s, hts, hs⟩ => ⟨s, hts, .block hs⟩
  case h_5 => exact (hr ts ht).mono fun _ _ ⟨s, hts, hs⟩ => ⟨s, hts, .branch hs⟩
  case h_6 => exact Reads.failHere fun _ => Cause.noConfusion
  case h_7 => exact loopStmt_sound he hb ts ht
  case h_8 h => exact defineStmt_sound he hb ht (hk ▸ h)
  case h_9 => exact giveStmt_sound he ts ht
  case h_10 => exact printStmt_sound he ts ht
  case h_11 => exact evalStmt_sound he ts ht

/-! ## Sequences of statements -/

/-- A test for the end of a sequence that moves nothing and holds only where `E` does. Nothing is
asked where it does not hold, since a sequence that does not end there goes on or fails. -/
def Watches (atEnd : Parse Bool) (E : List Token → Prop) : Prop :=
  ∀ ts : List Token, Reads atEnd ts fun b rest => rest = ts ∧ (b = true → E ts)

theorem statementsFrom_reads {atEnd : Parse Bool} {E : List Token → Prop} (hat : Watches atEnd E)
    (hs : Sound stmt Statement k) (n : Nat) :
    ∀ ts : List Token, ts.length < k → ts.length < n →
      Reads (statementsFrom atEnd stmt n) ts fun body rest =>
        (∃ s, ts = s ++ rest ∧ Items s body) ∧ E rest := by
  induction n with
  | zero => intro _ _ hn; omega
  | succ n ih =>
    intro ts hk hn
    rw [statementsFrom]
    refine (hat ts).bind ?_
    rintro b rest ⟨rfl, hend⟩
    cases b with
    | true => exact Reads.pure ⟨⟨[], rfl, .nil⟩, hend rfl⟩
    | false =>
      refine Reads.accept (by decide) ?_ fun _ => ?_
      · rintro c ts rfl hc
        simp only [List.length_cons] at hk hn
        refine (ih ts (by omega) (by omega)).mono ?_
        rintro body rest ⟨⟨s, rfl, hs⟩, hE⟩
        exact ⟨⟨c :: s, rfl, .comment hc hs⟩, hE⟩
      · refine (hs rest hk).bind ?_
        rintro st rest ⟨s, rfl, hst⟩
        have := List.length_pos_of_ne_nil hst.ne_nil
        simp only [List.length_append] at hk hn
        refine (ih rest (by omega) (by omega)).bind ?_
        rintro body rest ⟨⟨s', rfl, hs'⟩, hE⟩
        exact Reads.pure ⟨⟨s ++ s', by simp, .stmt hst hs'⟩, hE⟩

theorem watches_atClosingBrace : Watches atClosingBrace fun ts => kindAt ts = .rbrace := by
  intro ts
  rw [atClosingBrace]
  refine Reads.check (fun h => ?_) fun _ => Reads.check (fun _ => ?_) fun _ => ?_
  · exact Reads.pure ⟨rfl, fun _ => List.mem_singleton.mp h⟩
  · exact Reads.failHere fun _ => Cause.noConfusion
  · exact Reads.pure ⟨rfl, fun h => absurd h (by decide)⟩

theorem watches_check (k : Kind) : Watches (check [k]) fun ts => kindAt ts = k := by
  intro ts
  have : check [k] = (do if ← check [k] then pure true else pure false) := by
    refine (bind_pure _).symm.trans (bind_congr fun b => ?_)
    cases b <;> rfl
  rw [this]
  refine Reads.check (fun h => ?_) fun _ => ?_
  · exact Reads.pure ⟨rfl, fun _ => List.mem_singleton.mp h⟩
  · exact Reads.pure ⟨rfl, fun h => absurd h (by decide)⟩

theorem blockStmt_sound (hs : Sound stmt Statement k) : Sound (blockStmt stmt) Block (k + 1) := by
  intro ts ht
  rw [blockStmt]
  refine Reads.expect (by decide) ?_
  rintro l ts rfl hl
  refine Reads.bound fun n hn => ?_
  refine (statementsFrom_reads watches_atClosingBrace hs n ts (by simpa using ht)
    (by omega)).bind ?_
  rintro body rest ⟨⟨s, rfl, hb⟩, -⟩
  refine Reads.expect (by decide) ?_
  rintro r rest rfl hr
  exact Reads.pure ⟨l :: (s ++ [r]), by simp, .braces hl hb hr⟩

/-! ## Programs -/

theorem sound_passes : Passes (Sound · Expression) (Sound · Unary) (Sound · Block)
    (Sound · Branch) (Sound · Statement) where
  none := by simp [Sound]
  unary he hu := signed_sound he hu
  expr he hb hu := expression_sound he hb hu
  block hs := blockStmt_sound hs
  branch he hb hr := branchStmt_sound he hb hr
  stmt he hb hr := statement_sound he hb hr

/-- **Soundness.** A program that is read is derived from all tokens before the end. If none is
read, that is not for want of nesting. -/
theorem program_sound (ts : List Token) :
    Reads program ts fun body rest =>
      (∃ s, ts = s ++ rest ∧ Items s body) ∧ kindAt rest = .eof := by
  rw [program]
  refine Reads.bound fun n hn => Reads.bound fun n' hn' => ?_
  have hs : Sound (stmt n) Statement (ts.length + 1) :=
    (recursion sound_passes (ts.length + 1)).2.2.2.2 n (by omega)
  exact statementsFrom_reads (watches_check .eof) hs n' ts (Nat.lt_succ_self _) (by omega)

end Treewalk.Parse
