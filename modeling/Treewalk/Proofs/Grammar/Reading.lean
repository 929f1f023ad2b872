import Mathlib.Data.List.TakeWhile
import Treewalk.Proofs.Grammar.Basic

/-!
# Readers seen as lists of tokens

A reader keeps a current token, a token before, staged and upcoming ones. For the grammar only one
thing about it matters: which tokens stand between it and the end of its source. `Reader.Before`
says so, and every move of a reader is a move along that list.

## Two judgements

`Parse.Reads p ts Q` is the judgement of soundness: from any reader before `ts`, the action `p`
either fails, and not for want of nesting, or gives a result and leaves a rest that satisfy `Q`.
`Parse.Takes p ts a rest` is that of completeness: from any reader before `ts`, `p` gives exactly
`a` and leaves exactly `rest`. Both speak of lists only, so they compose without mentioning readers.

## Bounds

The recursive readers descend with a bound. `recursion` is the one place where bounds are counted:
it takes a property of a reader and a number of tokens, and asks only that each construction passes
the property on from its parts, with one token less wherever a token has been taken.

## Main results

* `Reads.bind`, `Takes.bind`, and a rule for each move
* `recursion`, the induction behind every statement about the recursive readers

## Implementation notes

`Before` is about the tokens ahead and about nothing behind the reader, so both judgements survive a
step back, and a proof may forget how a reader has come to its place. The end of the source is not
in the list: a reader at the end is before the empty list, whichever token stands for the end.

Failures are left open by `Reads` but for their cause. That a reader fails, and where, is the matter
of other judgements; here it is only excluded that it fails because its bound was too small, for
this would make everything else vacuous.

`recursion` could be stated for each judgement separately, and would then be the same proof several
times. It is stated for five properties indexed by the number of tokens, one for each recursive
reader, and `Passes` lists what has to be shown.
-/

namespace Treewalk

/-- The kind of the first token; behind the last one stands the end. -/
def kindAt : List Token → Kind
  | [] => .eof
  | t :: _ => t.kind

@[simp] theorem kindAt_nil : kindAt [] = .eof := rfl
@[simp] theorem kindAt_cons (t : Token) (ts : List Token) : kindAt (t :: ts) = t.kind := rfl

theorem kindAt_append_of_ne_nil {s : List Token} (h : s ≠ []) (ts : List Token) :
    kindAt (s ++ ts) = kindAt s := by
  obtain ⟨t, s', rfl⟩ := List.exists_cons_of_ne_nil h
  rfl

/-- A kind other than the end stands on a token. -/
theorem exists_cons_of_kindAt {ts : List Token} {k : Kind} (h : kindAt ts = k) (hk : k ≠ .eof) :
    ∃ t ts', ts = t :: ts' ∧ t.kind = k := by
  cases ts with
  | nil => exact absurd h.symm hk
  | cons t ts' => exact ⟨t, ts', rfl, h⟩

namespace Reader

/-- The reader stands before exactly these tokens and then the end. The last equation says besides
that there is no end among those not asked for. -/
structure Before (r : Reader) (ts : List Token) : Prop where
  /-- What stands behind the last token is the end. -/
  ended : r.eof.kind = .eof
  /-- The tokens ahead, up to the end. -/
  left : r.ahead.takeWhile (fun t => t.kind ≠ .eof) = ts
  /-- Those that have not been asked for are among them, and last. -/
  unread : (r.current :: r.staged).takeWhile (fun t => t.kind ≠ .eof) ++ r.upcoming = ts

theorem before_ofTokens {ts : List Token} {eof : Token} (heof : eof.kind = .eof)
    (hts : ∀ t ∈ ts, t.kind ≠ .eof) : (ofTokens ts eof).Before ts := by
  cases ts with
  | nil => exact ⟨heof, by simp [ofTokens, ahead, heof], by simp [ofTokens, heof]⟩
  | cons t ts =>
    refine ⟨heof, ?_, ?_⟩
    · have : (ofTokens (t :: ts) eof).ahead = t :: ts := rfl
      rw [this, List.takeWhile_eq_self_iff]
      simpa using hts
    · have ht := hts t List.mem_cons_self
      simp [ofTokens, ht]

theorem Before.kind_current {r : Reader} {ts : List Token} (h : r.Before ts) :
    r.current.kind = kindAt ts := by
  have hl := h.left
  rw [ahead, List.takeWhile_cons] at hl
  split at hl
  · rw [← hl, kindAt_cons]
  · next hk => rw [← hl, kindAt_nil]; simpa using hk

theorem Before.current {r : Reader} {t : Token} {ts : List Token} (h : r.Before (t :: ts)) :
    r.current = t := by
  have hl := h.left
  rw [ahead, List.takeWhile_cons] at hl
  split at hl
  · exact (List.cons.inj hl).1
  · exact absurd hl (by simp)

theorem Before.kind_ne_eof {r : Reader} {t : Token} {ts : List Token} (h : r.Before (t :: ts)) :
    t.kind ≠ .eof := by
  have hm : t ∈ r.ahead.takeWhile fun t => t.kind ≠ .eof := by
    rw [h.left]
    exact List.mem_cons_self
  simpa using List.mem_takeWhile_imp hm

theorem Before.length_le {r : Reader} {ts : List Token} (h : r.Before ts) : ts.length ≤ r.size := by
  rw [← h.left, size]
  exact (List.takeWhile_prefix _).length_le

theorem Before.advanced {r : Reader} {t : Token} {ts : List Token} (h : r.Before (t :: ts)) :
    r.advanced.Before ts := by
  have hk : r.current.kind ≠ .eof := by rw [h.current]; exact h.kind_ne_eof
  have hl := h.left
  rw [ahead, List.takeWhile_cons, if_pos (by simpa using hk)] at hl
  have hu := h.unread
  rw [List.takeWhile_cons, if_pos (by simpa using hk)] at hu
  refine ⟨by simpa [Reader.advanced] using h.ended, ?_, ?_⟩
  · rw [Reader.advanced, ahead_stepped]
    change List.takeWhile _
      (if r.staged ++ r.upcoming = [] then [r.eof] else r.staged ++ r.upcoming) = ts
    split
    · next hnil => simpa [hnil, h.ended] using (List.cons.inj hl).2
    · exact (List.cons.inj hl).2
  · obtain ⟨current, previous, staged, upcoming, eof⟩ := r
    replace hl := (List.cons.inj hl).2
    replace hu := (List.cons.inj hu).2
    -- The step takes the token that was stepped back over, the next one not asked for, or the end.
    rcases staged with _ | ⟨s, staged⟩
    · rcases upcoming with _ | ⟨u, upcoming⟩
      · have hend : eof.kind = .eof := h.ended
        simpa [Reader.advanced, Reader.stepped, hend] using hu
      · rw [← hu] at hl
        have hnext : u.kind ≠ .eof := by
          simpa using List.takeWhile_eq_self_iff.mp hl u List.mem_cons_self
        simpa [Reader.advanced, Reader.stepped, hnext] using hu
    · exact hu

/-- Where a step and a step back lead to. -/
def returned (r : Reader) : Reader :=
  { r.advanced with
    current := r.current, previous := none, staged := r.advanced.current :: r.advanced.staged }

/-- A step and a step back leave the reader before the same tokens. -/
theorem Before.returned {r : Reader} {t : Token} {ts : List Token} (h : r.Before (t :: ts)) :
    r.returned.Before (t :: ts) := by
  have hk : r.current.kind ≠ .eof := by rw [h.current]; exact h.kind_ne_eof
  refine ⟨by simpa [Reader.returned] using h.advanced.ended, ?_, ?_⟩
  · change List.takeWhile _ (r.current :: r.advanced.ahead) = _
    rw [List.takeWhile_cons, if_pos (by simpa using hk), h.advanced.left, h.current]
  · change List.takeWhile _ (r.current :: r.advanced.current :: r.advanced.staged) ++
      r.advanced.upcoming = _
    rw [List.takeWhile_cons, if_pos (by simpa using hk), List.cons_append, h.advanced.unread,
      h.current]

end Reader

namespace Parse

variable {α β : Type} {p : Parse α} {f : α → Parse β} {ts rest mid : List Token}

theorem bind_of_ok {r r' : Reader} {a : α} (h : p r = .ok a r') : (p >>= f) r = f a r' := by
  simp [bind, EStateM.bind, h]

theorem bind_of_error {r r' : Reader} {e : Error} (h : p r = .error e r') :
    (p >>= f) r = .error e r' := by
  simp [bind, EStateM.bind, h]

/-! ## Soundness -/

/-- From any reader before `ts` the action fails, though not for want of nesting, or gives a result
and stops before a rest that satisfy `Q`. The reader behind a failure is left open, because an error
ends the reading of the program. -/
def Reads (p : Parse α) (ts : List Token) (Q : α → List Token → Prop) : Prop :=
  ∀ r : Reader, r.Before ts →
    match p r with
    | .ok a r' => ∃ rest, r'.Before rest ∧ Q a rest
    | .error e _ => e.cause ≠ .tooDeep

theorem Reads.mono {Q R : α → List Token → Prop} (h : Reads p ts Q)
    (hQR : ∀ a rest, Q a rest → R a rest) : Reads p ts R := by
  intro r hr
  have := h r hr
  split
  · next heq =>
    rw [heq] at this
    obtain ⟨rest, hb, hq⟩ := this
    exact ⟨rest, hb, hQR _ _ hq⟩
  · next heq => rwa [heq] at this

theorem Reads.bind {Q : α → List Token → Prop} {R : β → List Token → Prop} (h : Reads p ts Q)
    (hf : ∀ a rest, Q a rest → Reads (f a) rest R) : Reads (p >>= f) ts R := by
  intro r hr
  have hp := h r hr
  cases hpr : p r with
  | ok a s =>
    rw [hpr] at hp
    obtain ⟨rest, hb, hq⟩ := hp
    rw [bind_of_ok hpr]
    exact hf a rest hq s hb
  | error e s =>
    rw [bind_of_error hpr]
    rwa [hpr] at hp

theorem Reads.pure {Q : α → List Token → Prop} {a : α} (h : Q a ts) :
    Reads (Pure.pure a) ts Q :=
  fun _ hr => ⟨ts, hr, h⟩

theorem Reads.throw {Q : α → List Token → Prop} {e : Error} (h : e.cause ≠ .tooDeep) :
    Reads (MonadExcept.throw e) ts Q :=
  fun _ _ => h

theorem Reads.failHere {Q : α → List Token → Prop} {cause : Reader → Cause}
    (h : ∀ r, cause r ≠ .tooDeep) : Reads (Parse.failHere cause) ts Q :=
  fun r _ => h r

theorem Reads.get {f : Reader → Parse β} {Q : β → List Token → Prop}
    (h : ∀ r : Reader, r.Before ts → Reads (f r) ts Q) : Reads (MonadState.get >>= f) ts Q :=
  fun r hr => h r hr r hr

theorem Reads.bound {f : Nat → Parse β} {Q : β → List Token → Prop}
    (h : ∀ n, 4 * ts.length + 4 ≤ n → Reads (f n) ts Q) : Reads (Parse.bound >>= f) ts Q :=
  Reads.get fun _ hr => h _ (by have := hr.length_le; omega)

theorem Reads.check {ks : List Kind} {p q : Parse β} {Q : β → List Token → Prop}
    (yes : kindAt ts ∈ ks → Reads p ts Q) (no : kindAt ts ∉ ks → Reads q ts Q) :
    Reads (do if ← Parse.check ks then p else q) ts Q := by
  refine Reads.get fun r hr => ?_
  have hat : r.at? ks = ks.contains (kindAt ts) := by rw [Reader.at?, hr.kind_current]
  change Reads (if r.at? ks = true then p else q) ts Q
  by_cases hk : kindAt ts ∈ ks
  · rw [hat, if_pos (List.contains_iff_mem.mpr hk)]
    exact yes hk
  · rw [hat, if_neg fun hc => hk (List.contains_iff_mem.mp hc)]
    exact no hk

theorem Reads.advance {f : Token → Parse β} {Q : β → List Token → Prop} (hk : kindAt ts ≠ .eof)
    (h : ∀ t ts', ts = t :: ts' → Reads (f t) ts' Q) : Reads (Parse.advance >>= f) ts Q := by
  obtain ⟨t, ts', rfl, -⟩ := exists_cons_of_kindAt rfl hk
  intro r hr
  have := h t ts' rfl r.advanced hr.advanced
  rw [← hr.current] at this
  exact this

/-- Taking the token that a look at the reader has shown. -/
theorem Reads.advance_current {f : Token → Parse β} {Q : β → List Token → Prop} {r : Reader}
    (hr : r.Before ts) (hk : r.current.kind ≠ .eof)
    (h : ∀ ts', ts = r.current :: ts' → Reads (f r.current) ts' Q) :
    Reads (Parse.advance >>= f) ts Q := by
  refine Reads.advance (by rwa [← hr.kind_current]) ?_
  rintro t ts' rfl
  rw [hr.current] at h
  exact h ts' rfl

/-- Accepting is a look, and a step if something was seen. -/
theorem accept_bind (k : Kind) (p q : Parse β) :
    (do if ← Parse.accept [k] then p else q : Parse β) =
      (do if ← Parse.check [k] then (do let _ ← Parse.advance; p) else q) := by
  simp only [Parse.accept, bind_assoc]
  refine bind_congr fun b => ?_
  cases b <;> rfl

/-- Expecting is a look, and a step if something was seen, or else an error. -/
theorem expectOr_bind (k : Kind) (cause : Reader → Cause) (f : Token → Parse β) :
    Parse.expectOr k cause >>= f =
      (do if ← Parse.check [k] then Parse.advance >>= f else Parse.failHere cause >>= f) := by
  simp only [Parse.expectOr, bind_assoc]
  refine bind_congr fun b => ?_
  cases b <;> rfl

theorem Reads.accept {k : Kind} {p q : Parse β} {Q : β → List Token → Prop} (hk : k ≠ .eof)
    (yes : ∀ t ts', ts = t :: ts' → t.kind = k → Reads p ts' Q)
    (no : kindAt ts ≠ k → Reads q ts Q) : Reads (do if ← Parse.accept [k] then p else q) ts Q := by
  rw [accept_bind]
  refine Reads.check (fun hc => ?_) fun hc => no fun h => hc (List.mem_singleton.mpr h)
  have hc : kindAt ts = k := List.mem_singleton.mp hc
  refine Reads.advance (hc ▸ hk) fun t ts' hts => yes t ts' hts ?_
  rwa [hts] at hc

theorem Reads.expectOr {k : Kind} {cause : Reader → Cause} {f : Token → Parse β}
    {Q : β → List Token → Prop} (hk : k ≠ .eof) (hc : ∀ r, cause r ≠ .tooDeep)
    (h : ∀ t ts', ts = t :: ts' → t.kind = k → Reads (f t) ts' Q) :
    Reads (Parse.expectOr k cause >>= f) ts Q := by
  rw [expectOr_bind]
  refine Reads.check (fun hk' => ?_) fun _ => ?_
  · have hk' : kindAt ts = k := List.mem_singleton.mp hk'
    refine Reads.advance (hk' ▸ hk) fun t ts' hts => h t ts' hts ?_
    rwa [hts] at hk'
  · exact Reads.bind (Q := fun _ _ => False) (Reads.failHere hc) fun _ _ hq => hq.elim

theorem Reads.expect {k : Kind} {f : Token → Parse β} {Q : β → List Token → Prop} (hk : k ≠ .eof)
    (h : ∀ t ts', ts = t :: ts' → t.kind = k → Reads (f t) ts' Q) :
    Reads (Parse.expect k >>= f) ts Q :=
  Reads.expectOr hk (fun _ => Cause.noConfusion) h

/-! ## Completeness -/

/-- From any reader before `ts` the action gives `a` and stops before `rest`. It is the form in
which completeness is used: one action after the other, each with its part of the tokens. -/
def Takes (p : Parse α) (ts : List Token) (a : α) (rest : List Token) : Prop :=
  ∀ r : Reader, r.Before ts → ∃ r', p r = .ok a r' ∧ r'.Before rest

theorem Takes.bind {a : α} {b : β} (h : Takes p ts a mid) (hf : Takes (f a) mid b rest) :
    Takes (p >>= f) ts b rest := by
  intro r hr
  obtain ⟨s, hs, hb⟩ := h r hr
  rw [bind_of_ok hs]
  exact hf s hb

theorem Takes.pure {a : α} : Takes (Pure.pure a) ts a ts :=
  fun r hr => ⟨r, rfl, hr⟩

theorem Takes.get {f : Reader → Parse β} {b : β}
    (h : ∀ r : Reader, r.Before ts → Takes (f r) ts b rest) :
    Takes (MonadState.get >>= f) ts b rest :=
  fun r hr => h r hr r hr

theorem Takes.bound {f : Nat → Parse β} {b : β}
    (h : ∀ n, 4 * ts.length + 4 ≤ n → Takes (f n) ts b rest) :
    Takes (Parse.bound >>= f) ts b rest :=
  Takes.get fun _ hr => h _ (by have := hr.length_le; omega)

theorem Takes.check {ks : List Kind} {p q : Parse β} {b : β} (h : kindAt ts ∈ ks)
    (hp : Takes p ts b rest) : Takes (do if ← Parse.check ks then p else q) ts b rest := by
  refine Takes.get fun r hr => ?_
  have hat : r.at? ks = true := by
    rw [Reader.at?, hr.kind_current]
    exact List.contains_iff_mem.mpr h
  change Takes (if r.at? ks = true then p else q) ts b rest
  rwa [if_pos hat]

theorem Takes.uncheck {ks : List Kind} {p q : Parse β} {b : β} (h : kindAt ts ∉ ks)
    (hq : Takes q ts b rest) : Takes (do if ← Parse.check ks then p else q) ts b rest := by
  refine Takes.get fun r hr => ?_
  have hat : r.at? ks ≠ true := by
    rw [Reader.at?, hr.kind_current]
    exact fun hc => h (List.contains_iff_mem.mp hc)
  change Takes (if r.at? ks = true then p else q) ts b rest
  rwa [if_neg hat]

theorem Takes.advance {t : Token} : Takes Parse.advance (t :: ts) t ts :=
  fun r hr => ⟨r.advanced, by rw [← hr.current]; rfl, hr.advanced⟩

theorem Takes.accept {t : Token} {k : Kind} {p q : Parse β} {b : β} (h : t.kind = k)
    (hp : Takes p ts b rest) :
    Takes (do if ← Parse.accept [k] then p else q) (t :: ts) b rest :=
  Takes.bind (Takes.check (by simpa using h) (Takes.advance.bind Takes.pure)) hp

theorem Takes.unaccept {k : Kind} {p q : Parse β} {b : β} (h : kindAt ts ≠ k)
    (hq : Takes q ts b rest) : Takes (do if ← Parse.accept [k] then p else q) ts b rest :=
  Takes.bind (Takes.uncheck (by simpa using h) Takes.pure) hq

theorem Takes.expectOr {t : Token} {k : Kind} {cause : Reader → Cause} (h : t.kind = k) :
    Takes (Parse.expectOr k cause) (t :: ts) t ts :=
  Takes.check (by simpa using h) Takes.advance

theorem Takes.expect {t : Token} {k : Kind} (h : t.kind = k) :
    Takes (Parse.expect k) (t :: ts) t ts :=
  Takes.expectOr h

/-! ## Stepping back

A step, a look that finds nothing and a step back amount to nothing, in both judgements. -/

/-- The look at the token behind `ts` finds nothing and moves nothing. -/
def Misses (look : Parse Bool) (ts : List Token) : Prop :=
  ∀ r : Reader, r.Before ts → look r = .ok false r

theorem misses_check {k : Kind} (h : kindAt ts ≠ k) : Misses (Parse.check [k]) ts := by
  intro r hr
  have : r.at? [k] = false := by simpa [Reader.at?, hr.kind_current] using h
  change EStateM.Result.ok (r.at? [k]) r = _
  rw [this]

theorem misses_accept {k : Kind} (h : kindAt ts ≠ k) : Misses (Parse.accept [k]) ts := by
  intro r hr
  rw [Parse.accept, bind_of_ok (misses_check h r hr)]
  rfl

theorem goBack_advanced (r : Reader) : Parse.goBack r.advanced = .ok () r.returned := by
  have hb : r.advanced.back? = some r.returned := by
    simp [Reader.back?, Reader.advanced, Reader.returned]
  have hg : (get : Parse Reader) r.advanced = .ok r.advanced r.advanced := rfl
  rw [Parse.goBack, bind_of_ok hg, hb]
  rfl

variable {look : Parse Bool} {yes : Token → Parse β} {no : Parse β} {t : Token}

theorem stepBack_eq (hl : Misses look ts) {r : Reader} (hr : r.Before (t :: ts)) :
    (do let x ← Parse.advance
        if ← look then yes x
        else
          Parse.goBack
          no : Parse β) r = no r.returned := by
  have ha : Parse.advance r = .ok r.current r.advanced := rfl
  rw [bind_of_ok ha, bind_of_ok (hl _ hr.advanced)]
  exact bind_of_ok (goBack_advanced r)

theorem Reads.stepBack {Q : β → List Token → Prop} (hl : Misses look ts)
    (h : Reads no (t :: ts) Q) :
    Reads (do let x ← Parse.advance
              if ← look then yes x
              else
                Parse.goBack
                no) (t :: ts) Q := by
  intro r hr
  rw [stepBack_eq hl hr]
  exact h r.returned hr.returned

theorem Takes.stepBack {b : β} (hl : Misses look ts) (h : Takes no (t :: ts) b rest) :
    Takes (do let x ← Parse.advance
              if ← look then yes x
              else
                Parse.goBack
                no) (t :: ts) b rest := by
  intro r hr
  rw [stepBack_eq hl hr]
  exact h r.returned hr.returned

/-! ## Recursion -/

/-- A property of readers of each construction, for up to so many tokens, that every construction
passes on from its parts. Where a token has been taken before a part is read, one token less is left
for it. The constructions call each other, and this is their recursion with nothing left in it but
which calls which. Soundness and completeness are two properties that are passed on. -/
structure Passes (E U : Parse Expr → Nat → Prop) (B R S : Parse Stmt → Nat → Prop) : Prop where
  none : (∀ p, E p 0) ∧ (∀ p, U p 0) ∧ ∀ p, B p 0 ∧ R p 0 ∧ S p 0
  unary : ∀ {e u k}, E e k → U u k → U (signed e u) (k + 1)
  expr : ∀ {e b u k}, E e k → B b k → U u (k + 1) → E (expression e b u) (k + 1)
  block : ∀ {s k}, S s k → B (blockStmt s) (k + 1)
  branch : ∀ {e b r k}, E e k → B b k → R r k → R (branchStmt e b r) (k + 1)
  stmt : ∀ {e b r k}, E e (k + 1) → B b (k + 1) → R r (k + 1) → S (statement e b r) (k + 1)

/-- **Recursion.** Three calls in a row always take a token, so three levels of nesting for each
token are enough for every property that passes along the constructions. -/
theorem recursion {E U : Parse Expr → Nat → Prop} {B R S : Parse Stmt → Nat → Prop}
    (h : Passes E U B R S) (k : Nat) :
    (∀ n, 3 * k ≤ n + 1 → E (expr n) k) ∧ (∀ n, 3 * k ≤ n + 2 → U (unary n) k) ∧
      (∀ n, 3 * k ≤ n + 2 → B (block n) k) ∧ (∀ n, 3 * k ≤ n + 2 → R (branch n) k) ∧
      ∀ n, 3 * k ≤ n → S (stmt n) k := by
  induction k with
  | zero =>
    obtain ⟨hE, hU, hS⟩ := h.none
    exact ⟨fun _ _ => hE _, fun _ _ => hU _, fun _ _ => (hS _).1, fun _ _ => (hS _).2.1,
      fun _ _ => (hS _).2.2⟩
  | succ k ih =>
    obtain ⟨hE, hU, hB, hR, hS⟩ := ih
    have hU' : ∀ n, 3 * (k + 1) ≤ n + 2 → U (unary n) (k + 1)
      | 0, hn => by omega
      | n + 1, hn => h.unary (hE n (by omega)) (hU n (by omega))
    have hB' : ∀ n, 3 * (k + 1) ≤ n + 2 → B (block n) (k + 1)
      | 0, hn => by omega
      | n + 1, hn => h.block (hS n (by omega))
    have hR' : ∀ n, 3 * (k + 1) ≤ n + 2 → R (branch n) (k + 1)
      | 0, hn => by omega
      | n + 1, hn => h.branch (hE n (by omega)) (hB n (by omega)) (hR n (by omega))
    have hE' : ∀ n, 3 * (k + 1) ≤ n + 1 → E (expr n) (k + 1)
      | 0, hn => by omega
      | n + 1, hn => h.expr (hE n (by omega)) (hB n (by omega)) (hU' n (by omega))
    refine ⟨hE', hU', hB', hR', fun n hn => ?_⟩
    cases n with
    | zero => omega
    | succ n => exact h.stmt (hE' n (by omega)) (hB' n (by omega)) (hR' n (by omega))

end Parse

end Treewalk
