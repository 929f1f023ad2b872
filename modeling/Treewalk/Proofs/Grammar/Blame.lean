import Treewalk.Proofs.Grammar.Reading

/-!
# Which token is to blame

An error names a token. That the token deserves it means two things: what stands before it could
have been continued, and with it nothing can be made of the rest, whatever the rest is. The first
is a fact about the grammar, the second about all other runs that see the same tokens up to there.

`Parse.PinpointsOn` is the judgement for both. It follows an action over some tokens and says of the
tokens that are used up: if there is a result, `D` derives it from them; if there is none, they are
the start of something that `D` derives, and the token behind them is blamed. And in both cases
other actions do no better wherever they meet the same tokens and the same one behind them. These
others are the same reader with other bounds on nesting, for a bound depends on how many tokens are
ahead.

## Why tokens are counted

A step back forgets what has been looked at. Where a name is no target of an assignment, the reader
goes back and reads an expression, so it decides by the second token and then starts at the first
again. It must not stop there: another run that shares only the first token may decide otherwise.
Hence the least number of tokens that are used up.

## Main definitions

* `Cause.About`, `Error.Blames`, the token that an error is about
* `Follows`, `Fails`, what another run does
* `PinpointsOn`, `Pinpoints`, the judgement

## Main results

* `PinpointsOn.shift`: doing what another action does
* `Pinpoints.bind`, and a rule for each move
* `PinpointsOn.stepBack`: looking ahead and going back

## Implementation notes

The judgement takes a family of other runs as a parameter, because the other runs of a construction
are made of other runs of its parts. The family is indexed by the bounds that these may have. With a
fixed bound the judgement could not be composed: two runs over different rests start with different
bounds, although they are runs of the same reader.

`Took` and `Stopped` look one token further than what is used up, but no more, and by its kind or as
a whole. This is exactly the lookahead of the readers. A rule that is not stable under changing the
rest behind that token could not be proved, and there is none.

Want of nesting counts as an error about nothing, and is carried along as a disjunct. It is excluded
at the end, by the theorem on bounds, and not at each step.
-/

namespace Treewalk

theorem kindAt_eq_of_head? {ts ts' : List Token} (h : ts'.head? = ts.head?) :
    kindAt ts' = kindAt ts := by
  cases ts <;> cases ts' <;> simp_all [kindAt]

theorem head?_append_congr {used rest rest' : List Token} (h : rest'.head? = rest.head?) :
    (used ++ rest').head? = (used ++ rest).head? := by
  rw [List.head?_append, List.head?_append, h]

namespace Parse

variable {α β ι κ : Type} {ts rest mid : List Token}

/-! ## Errors -/

/-- What an error says fits a token. -/
def Cause.About : Cause → Token → Prop
  | .expected _ got, t | .formatExpected got, t | .unexpected got, t => got = t
  | .repeatedParam text, t | .badInt text, t | .badFloat text, t | .badChar text, t => text = t.text
  | .danglingElse, t => t.kind = .elseKw
  | .openBlock, t => t.kind = .eof
  | .stated _, _ | .nothingBehind, _ | .tooDeep, _ => False

/-- An error has the place of a token, and what it says fits the token. -/
structure Error.Blames (e : Error) (t : Token) : Prop where
  pos : e.pos = t.pos
  cause : e.cause.About t

/-- An error blames the first of some tokens, or the end that the reader has come to. -/
def Error.BlamesFirst (e : Error) (s : Reader) : List Token → Prop
  | [] => s.current.kind = .eof ∧ e.Blames s.current
  | t :: _ => e.Blames t

/-! ## Other runs -/

/-- On these tokens an action gives this and stops there, or it gives nothing. Nothing is said about
failing, since the other action may have a smaller bound on nesting. -/
def Follows (q : Parse α) (ts : List Token) (a : α) (rest : List Token) : Prop :=
  ∀ (r : Reader) (b : α) (s : Reader), r.Before ts → q r = .ok b s → b = a ∧ s.Before rest

/-- On these tokens an action gives nothing. -/
def Fails (q : Parse α) (ts : List Token) : Prop :=
  ∀ r : Reader, r.Before ts → ∃ e s, q r = .error e s

section

variable {q : Parse α} {g : α → Parse β}

theorem Fails.bind (h : Fails q ts) : Fails (q >>= g) ts := by
  intro r hr
  obtain ⟨e, s, hq⟩ := h r hr
  exact ⟨e, s, bind_of_error hq⟩

theorem Follows.bind {a : α} {b : β} (h : Follows q ts a mid) (hg : Follows (g a) mid b rest) :
    Follows (q >>= g) ts b rest := by
  intro r b' s hr hrun
  cases hq : q r with
  | ok a' s' =>
    obtain ⟨rfl, hs'⟩ := h r a' s' hr hq
    rw [bind_of_ok hq] at hrun
    exact hg s' b' s hs' hrun
  | error e s' =>
    rw [bind_of_error hq] at hrun
    cases hrun

theorem Follows.bind_fails {a : α} (h : Follows q ts a mid) (hg : Fails (g a) mid) :
    Fails (q >>= g) ts := by
  intro r hr
  cases hq : q r with
  | ok a' s' =>
    obtain ⟨rfl, hs'⟩ := h r a' s' hr hq
    rw [bind_of_ok hq]
    exact hg s' hs'
  | error e s' => exact ⟨e, s', bind_of_error hq⟩

end

/-- From these tokens on, an action does what one of others does from those, or it fails. -/
def Mimics (q' : Parse α) (q : ι → Parse α) (ts' ts : List Token) : Prop :=
  ∀ r' : Reader, r'.Before ts' →
    (∃ e s, q' r' = .error e s) ∨ ∃ i r, r.Before ts ∧ q' r' = q i r

section

variable {q' : Parse α} {q : ι → Parse α} {ts' : List Token} (h : Mimics q' q ts' ts)
include h

theorem Mimics.fails (hq : ∀ i, Fails (q i) ts) : Fails q' ts' := by
  intro r' hr'
  obtain herror | ⟨i, r, hr, heq⟩ := h r' hr'
  · exact herror
  · rw [heq]
    exact hq i r hr

theorem Mimics.follows {a : α} (hq : ∀ i, Follows (q i) ts a rest) : Follows q' ts' a rest := by
  intro r' b s hr' hrun
  obtain ⟨e, s', herror⟩ | ⟨i, r, hr, heq⟩ := h r' hr'
  · rw [herror] at hrun
    cases hrun
  · rw [heq] at hrun
    exact hq i r b s hr hrun

end

/-! ## The judgement -/

/-- A run has used up some tokens and given a result, as others do before the same token. The last
part says that what has been taken depends on these tokens and the next one, and no further. It is
what makes a token to blame the first one that is. -/
structure Took (q : ι → Parse α) (D : List Token → α → Prop) (ts : List Token) (a : α) (s : Reader)
    (used rest : List Token) : Prop where
  split : ts = used ++ rest
  derived : D used a
  before : s.Before rest
  again : ∀ rest', rest'.head? = rest.head? → ∀ i, Follows (q i) (used ++ rest') a rest'

/-- A run has used up some tokens and failed for the next, as others do before the same token; but
for that token, something could have been derived. That something could have been derived is said of
the tokens before the blamed one, that nothing can be is said of those up to it; together they say
that this token is the first that cannot be right. -/
structure Stopped (q : ι → Parse α) (D : List Token → α → Prop) (ts : List Token) (e : Error)
    (s : Reader) (used rest : List Token) : Prop where
  split : ts = used ++ rest
  blames : e.BlamesFirst s rest
  viable : ∃ more a, D (used ++ more) a
  again : ∀ rest', rest'.head? = rest.head? → ∀ i, Fails (q i) (used ++ rest')

/-- On these tokens an action gives a result or stops at the token that is to blame, with `m` tokens
used up at least. Want of nesting is not looked into. The number is for what comes behind a step
back: the tokens that were looked at before it cannot be to blame any more. -/
def PinpointsOn (p : Parse α) (q : ι → Parse α) (D : List Token → α → Prop) (m : Nat)
    (ts : List Token) : Prop :=
  ∀ r : Reader, r.Before ts →
    match p r with
    | .ok a s => ∃ used rest, m ≤ used.length ∧ Took q D ts a s used rest
    | .error e s => e.cause = .tooDeep ∨
        ∃ used rest, m ≤ used.length ∧ Stopped q D ts e s used rest

/-- The same on all tokens. Something can be derived at all. Otherwise a viable start of a sequence
would not say that the sequence can be completed. -/
structure Pinpoints (p : Parse α) (q : ι → Parse α) (D : List Token → α → Prop) : Prop where
  productive : ∃ s a, D s a
  on : ∀ ts, PinpointsOn p q D 0 ts

section

variable {p p' : Parse α} {q : ι → Parse α} {f : α → Parse β} {g : ι → α → Parse β}
  {A D : List Token → α → Prop} {E : List Token → β → Prop} {m : Nat}

/-- An action that does what another does, be it behind some tokens more. Others need to do so only
as long as enough tokens agree, so they are told how many are used up. -/
theorem PinpointsOn.shift {q' : κ → Parse α} {D' : List Token → α → Prop} {m' : Nat}
    (front : List Token) (h : PinpointsOn p q D m ts) (hm : m' ≤ front.length + m)
    (hD : ∀ s a, D s a → D' (front ++ s) a)
    (hp : ∀ r', r'.Before (front ++ ts) → ∃ r, r.Before ts ∧ p' r' = p r)
    (hq : ∀ used rest, ts = used ++ rest → m ≤ used.length → ∀ rest', rest'.head? = rest.head? →
      ∀ i, Mimics (q' i) q (front ++ (used ++ rest')) (used ++ rest')) :
    PinpointsOn p' q' D' m' (front ++ ts) := by
  intro r' hr'
  obtain ⟨r, hr, heq⟩ := hp r' hr'
  have hrun := h r hr
  rw [heq]
  have hlength : ∀ {used : List Token}, m ≤ used.length → m' ≤ (front ++ used).length := by
    intro used hused
    rw [List.length_append]
    omega
  split
  · next hok =>
    rw [hok] at hrun
    obtain ⟨used, rest, hused, took⟩ := hrun
    refine ⟨front ++ used, rest, hlength hused, ?_, hD _ _ took.derived, took.before,
      fun rest' hhead i => ?_⟩
    · rw [took.split, List.append_assoc]
    · rw [List.append_assoc]
      exact (hq used rest took.split hused rest' hhead i).follows (took.again rest' hhead)
  · next herror =>
    rw [herror] at hrun
    obtain hdeep | ⟨used, rest, hused, stopped⟩ := hrun
    · exact .inl hdeep
    refine .inr ⟨front ++ used, rest, hlength hused, ?_, stopped.blames, ?_,
      fun rest' hhead i => ?_⟩
    · rw [stopped.split, List.append_assoc]
    · obtain ⟨more, a, ha⟩ := stopped.viable
      refine ⟨more, a, ?_⟩
      rw [List.append_assoc]
      exact hD _ _ ha
    · rw [List.append_assoc]
      exact (hq used rest stopped.split hused rest' hhead i).fails (stopped.again rest' hhead)

theorem PinpointsOn.imp {D' : List Token → α → Prop} (h : PinpointsOn p q D m ts)
    (hD : ∀ s a, D s a → D' s a) : PinpointsOn p q D' m ts :=
  h.shift [] (Nat.le_add_left m 0) hD (fun r hr => ⟨r, hr, rfl⟩)
    fun _ _ _ _ _ _ i r hr => .inr ⟨i, r, hr, rfl⟩

/-- Others among those that are known, or that fail anyway. -/
theorem PinpointsOn.among {q' : κ → Parse α} {m' : Nat} (h : PinpointsOn p q D m ts)
    (hm : m' ≤ m) (hq : ∀ i, (∀ r, ∃ e s, q' i r = .error e s) ∨ ∃ j, q' i = q j) :
    PinpointsOn p q' D m' ts := by
  refine h.shift [] (Nat.le_add_left_of_le hm) (fun _ _ hs => hs) (fun r hr => ⟨r, hr, rfl⟩) ?_
  intro _ _ _ _ _ _ i r hr
  obtain hfails | ⟨j, hj⟩ := hq i
  · exact .inl (hfails r)
  · exact .inr ⟨j, r, hr, by rw [hj]⟩

theorem PinpointsOn.mono {m' : Nat} (h : PinpointsOn p q D m ts) (hm : m' ≤ m) :
    PinpointsOn p q D m' ts :=
  h.among hm fun i => .inr ⟨i, rfl⟩

theorem PinpointsOn.bind (h : PinpointsOn p q A m ts)
    (hf : ∀ used a, A used a → Pinpoints (f a) (g · a) fun s b => E (used ++ s) b) :
    PinpointsOn (p >>= f) (fun i => q i >>= g i) E m ts := by
  intro r hr
  have hp := h r hr
  cases hpr : p r with
  | error e s =>
    rw [hpr] at hp
    rw [bind_of_error hpr]
    obtain hdeep | ⟨used, rest, hlength, stopped⟩ := hp
    · exact .inl hdeep
    · -- What `p` might have read can be continued by what follows it.
      obtain ⟨more, a, ha⟩ := stopped.viable
      obtain ⟨s', b, hb⟩ := (hf (used ++ more) a ha).productive
      refine .inr ⟨used, rest, hlength, stopped.split, stopped.blames, ⟨more ++ s', b, ?_⟩,
        fun rest' hhead i => (stopped.again rest' hhead i).bind⟩
      rwa [← List.append_assoc]
  | ok a s =>
    rw [hpr] at hp
    rw [bind_of_ok hpr]
    obtain ⟨used, rest, hlength, took⟩ := hp
    have hfa := (hf used a took.derived).on rest s took.before
    have hfirst : ∀ {used' left left' : List Token}, rest = used' ++ left →
        left'.head? = left.head? → ∀ i,
          Follows (q i) (used ++ (used' ++ left')) a (used' ++ left') := by
      rintro used' left left' rfl hhead
      exact took.again _ (head?_append_congr hhead)
    split
    · next heq =>
      rw [heq] at hfa
      obtain ⟨used', left, -, took'⟩ := hfa
      refine ⟨used ++ used', left, ?_, ?_, took'.derived, took'.before, fun left' hhead i => ?_⟩
      · rw [List.length_append]
        omega
      · rw [took.split, took'.split, List.append_assoc]
      · rw [List.append_assoc]
        exact (hfirst took'.split hhead i).bind (took'.again left' hhead i)
    · next heq =>
      rw [heq] at hfa
      obtain hdeep | ⟨used', left, -, stopped⟩ := hfa
      · exact .inl hdeep
      · refine .inr ⟨used ++ used', left, ?_, ?_, stopped.blames, ?_, fun left' hhead i => ?_⟩
        · rw [List.length_append]
          omega
        · rw [took.split, stopped.split, List.append_assoc]
        · obtain ⟨more, b, hb⟩ := stopped.viable
          exact ⟨more, b, by rwa [List.append_assoc]⟩
        · rw [List.append_assoc]
          exact (hfirst stopped.split hhead i).bind_fails (stopped.again left' hhead i)

theorem PinpointsOn.pure {a : α} (h : D [] a) :
    PinpointsOn (Pure.pure a) (fun _ : ι => Pure.pure a) D 0 ts := by
  intro r hr
  refine ⟨[], ts, Nat.zero_le _, rfl, h, hr, fun rest' _ _ r' b s hr' hrun => ?_⟩
  cases hrun
  exact ⟨rfl, hr'⟩

/-- Failing for the first token. -/
theorem PinpointsOn.stop (hD : ∃ s a, D s a)
    (hp : ∀ r : Reader, r.Before ts → ∃ e s, p r = .error e s ∧ e.BlamesFirst s ts)
    (hq : ∀ ts', ts'.head? = ts.head? → ∀ i, Fails (q i) ts') : PinpointsOn p q D 0 ts := by
  intro r hr
  obtain ⟨e, s, hrun, hblames⟩ := hp r hr
  rw [hrun]
  exact .inr ⟨[], ts, Nat.le_refl _, rfl, hblames, hD, hq⟩

/-- An action fails with an error whenever it meets a token. -/
def Condemns (p : Parse α) (t : Token) (e : Error) : Prop :=
  ∀ (ts : List Token) (r : Reader), r.Before (t :: ts) → ∃ s, p r = .error e s

/-- Failing for a token that may have been taken already. -/
theorem PinpointsOn.condemn {t : Token} {e : Error} (hp : Condemns p t e)
    (hq : ∀ i, Condemns (q i) t e) (he : e.Blames t) (hD : ∃ s a, D s a) :
    PinpointsOn p q D 0 (t :: ts) := by
  refine PinpointsOn.stop hD (fun r hr => ?_) fun ts' hhead i r hr => ?_
  · obtain ⟨s, hs⟩ := hp ts r hr
    exact ⟨e, s, hs, he⟩
  · obtain ⟨ts', rfl⟩ := List.head?_eq_some_iff.mp hhead
    obtain ⟨s, hs⟩ := hq i ts' r hr
    exact ⟨e, s, hs⟩

theorem PinpointsOn.failHere {cause : Reader → Cause} (hD : ∃ s a, D s a)
    (hc : ∀ r : Reader, r.Before ts → (cause r).About r.current) :
    PinpointsOn (Parse.failHere cause) (fun _ : ι => Parse.failHere cause) D 0 ts := by
  refine PinpointsOn.stop hD (fun r hr => ⟨_, r, rfl, ?_⟩) fun _ _ _ r _ => ⟨_, r, rfl⟩
  have hblames : Error.Blames ⟨r.current.pos, cause r⟩ r.current := ⟨rfl, hc r hr⟩
  cases ts with
  | nil => exact ⟨hr.kind_current, hblames⟩
  | cons t ts => rwa [Error.BlamesFirst, ← hr.current]

theorem PinpointsOn.bound {f : Nat → Parse β} {g : ι → Nat → Parse β}
    (h : ∀ n, PinpointsOn (f n) (fun j : ι × Nat => g j.1 j.2) E m ts) :
    PinpointsOn (Parse.bound >>= f) (fun i => Parse.bound >>= g i) E m ts := by
  intro r hr
  have hshift : PinpointsOn (f (4 * r.size + 4)) (fun i => Parse.bound >>= g i) E m ts := by
    refine (h _).shift [] (Nat.le_add_left m 0) (fun _ _ hs => hs) (fun r hr => ⟨r, hr, rfl⟩) ?_
    exact fun _ _ _ _ _ _ i r hr => .inr ⟨(i, 4 * r.size + 4), r, hr, rfl⟩
  exact hshift r hr

/-! ## Moves -/

theorem PinpointsOn.advance {f : Token → Parse β} {g : ι → Token → Parse β} {t : Token}
    (h : PinpointsOn (f t) (g · t) (fun s b => E (t :: s) b) m ts) :
    PinpointsOn (Parse.advance >>= f) (fun i => Parse.advance >>= g i) E (m + 1) (t :: ts) := by
  have hstep : ∀ (k : Token → Parse β) {ts' : List Token} {r : Reader}, r.Before (t :: ts') →
      (Parse.advance >>= k) r = k t r.advanced := by
    intro k ts' r hr
    rw [← hr.current]
    rfl
  refine h.shift [t] (Nat.le_of_eq (Nat.add_comm m 1)) (fun _ _ hs => hs) (fun r hr => ?_) ?_
  · exact ⟨r.advanced, hr.advanced, hstep f hr⟩
  · exact fun _ _ _ _ _ _ i r hr => .inr ⟨i, r.advanced, hr.advanced, hstep (g i) hr⟩

/-- Two actions do the same on all tokens that start as these do. The first token is all that a
choice between alternatives looks at. -/
def Like (p p' : Parse α) (ts : List Token) : Prop :=
  ∀ (ts' : List Token) (r : Reader), ts'.head? = ts.head? → r.Before ts' → p r = p' r

theorem PinpointsOn.of_like {q' : ι → Parse α} (hp : Like p p' ts) (hq : ∀ i, Like (q i) (q' i) ts)
    (h : PinpointsOn p' q' D m ts) : PinpointsOn p q D m ts := by
  refine h.shift [] (Nat.le_add_left m 0) (fun _ _ hs => hs)
    (fun r hr => ⟨r, hr, hp ts r rfl hr⟩) ?_
  intro used rest hsplit _ rest' hhead i r hr
  have hhead' : (used ++ rest').head? = ts.head? := hsplit ▸ head?_append_congr hhead
  exact .inr ⟨i, r, hr, hq i _ r hhead' hr⟩

/-- Readers before tokens that start alike see the same token, or both see an end. -/
theorem like_of_view {p p' : Parse α}
    (h : ∀ r : Reader, r.current.kind = kindAt ts → (∀ t ∈ ts.head?, r.current = t) → p r = p' r) :
    Like p p' ts := by
  intro ts' r hhead hr
  refine h r (by rw [hr.kind_current, kindAt_eq_of_head? hhead]) fun t ht => ?_
  obtain ⟨ts', rfl⟩ := List.head?_eq_some_iff.mp (hhead.trans ht)
  exact hr.current

/-- A choice by a look at the reader, of which only the current token matters. Any reader at that
token will do to tell which way it goes. -/
theorem PinpointsOn.look {F : Reader → Parse α} {G : ι → Reader → Parse α} {t : Token}
    (r₀ : Reader) (hF : ∀ r : Reader, r.current = t → F r = F r₀)
    (hG : ∀ i, ∀ r : Reader, r.current = t → G i r = G i r₀)
    (h : PinpointsOn (F r₀) (G · r₀) D m (t :: ts)) :
    PinpointsOn (get >>= F) (fun i => get >>= G i) D m (t :: ts) :=
  h.of_like (like_of_view fun r _ hr => congrFun (hF r (hr t rfl)) r)
    fun i => like_of_view fun r _ hr => congrFun (hG i r (hr t rfl)) r

/-- A choice of which only the kind of the current token matters. -/
theorem PinpointsOn.lookKind {F : Reader → Parse α} {G : ι → Reader → Parse α}
    (r₀ : Reader) (hF : ∀ r : Reader, r.current.kind = kindAt ts → F r = F r₀)
    (hG : ∀ i, ∀ r : Reader, r.current.kind = kindAt ts → G i r = G i r₀)
    (h : PinpointsOn (F r₀) (G · r₀) D m ts) :
    PinpointsOn (get >>= F) (fun i => get >>= G i) D m ts :=
  h.of_like (like_of_view fun r hr _ => congrFun (hF r hr) r)
    fun i => like_of_view fun r hr _ => congrFun (hG i r hr) r

theorem like_check {p q : Parse α} {ks : List Kind} (h : kindAt ts ∈ ks) :
    Like (do if ← Parse.check ks then p else q) p ts := by
  intro ts' r hhead hr
  have hat : r.at? ks = true := by
    rw [Reader.at?, hr.kind_current, kindAt_eq_of_head? hhead]
    exact List.contains_iff_mem.mpr h
  change (if r.at? ks = true then p else q) r = p r
  rw [if_pos hat]

theorem like_uncheck {p q : Parse α} {ks : List Kind} (h : kindAt ts ∉ ks) :
    Like (do if ← Parse.check ks then p else q) q ts := by
  intro ts' r hhead hr
  have hat : ¬ r.at? ks = true := by
    rw [Reader.at?, hr.kind_current, kindAt_eq_of_head? hhead]
    exact fun hc => h (List.contains_iff_mem.mp hc)
  change (if r.at? ks = true then p else q) r = q r
  rw [if_neg hat]

theorem like_accept {p q : Parse α} {k : Kind} (h : kindAt ts = k) :
    Like (do if ← Parse.accept [k] then p else q) (do let _ ← Parse.advance; p) ts := by
  intro ts' r hhead hr
  have haccept : Parse.accept [k] r = .ok true r.advanced := by
    rw [Parse.accept, like_check (List.mem_singleton.mpr h) ts' r hhead hr]
    rfl
  rw [bind_of_ok haccept]
  rfl

theorem like_unaccept {p q : Parse α} {k : Kind} (h : kindAt ts ≠ k) :
    Like (do if ← Parse.accept [k] then p else q) q ts := by
  intro ts' r hhead hr
  rw [bind_of_ok (misses_accept (by rwa [kindAt_eq_of_head? hhead]) r hr)]
  rfl

theorem Like.bind {p p' : Parse α} (h : Like p p' ts) (f : α → Parse β) :
    Like (p >>= f) (p' >>= f) ts := by
  intro ts' r hhead hr
  simp only [Bind.bind, EStateM.bind, h ts' r hhead hr]

theorem failHere_bind (cause : Reader → Cause) (f : α → Parse β) :
    Parse.failHere cause >>= f = Parse.failHere cause := rfl

theorem PinpointsOn.check {p p₁ : Parse α} {q q₁ : ι → Parse α} {ks : List Kind}
    (yes : kindAt ts ∈ ks → PinpointsOn p q D m ts)
    (no : kindAt ts ∉ ks → PinpointsOn p₁ q₁ D m ts) :
    PinpointsOn (do if ← Parse.check ks then p else p₁)
      (fun i => do if ← Parse.check ks then q i else q₁ i) D m ts := by
  by_cases hk : kindAt ts ∈ ks
  · exact (yes hk).of_like (like_check hk) fun _ => like_check hk
  · exact (no hk).of_like (like_uncheck hk) fun _ => like_uncheck hk

theorem PinpointsOn.take {f : Token → Parse α} {g : ι → Token → Parse α} {p : Parse α}
    {q : ι → Parse α} {t : Token} {ks : List Kind} (ht : t.kind ∈ ks)
    (h : PinpointsOn (f t) (g · t) (fun s a => D (t :: s) a) m ts) :
    PinpointsOn (do if ← Parse.check ks then Parse.advance >>= f else p)
      (fun i => do if ← Parse.check ks then Parse.advance >>= g i else q i) D (m + 1) (t :: ts) :=
  h.advance.of_like (like_check ht) fun _ => like_check ht

theorem PinpointsOn.accept {p p₁ : Parse α} {q q₁ : ι → Parse α} {t : Token} {k : Kind}
    (ht : t.kind = k) (h : PinpointsOn p q (fun s a => D (t :: s) a) m ts) :
    PinpointsOn (do if ← Parse.accept [k] then p else p₁)
      (fun i => do if ← Parse.accept [k] then q i else q₁ i) D (m + 1) (t :: ts) := by
  have htake := PinpointsOn.advance (f := fun _ => p) (g := fun i _ => q i) h
  exact htake.of_like (like_accept ht) fun _ => like_accept ht

/-- A token of the kind is taken, and any other is to blame. -/
theorem PinpointsOn.expectOr {k : Kind} {cause : Reader → Cause} {f : Token → Parse β}
    {g : ι → Token → Parse β} (hk : k ≠ .eof) (hc : ∀ r, (cause r).About r.current)
    (hE : ∃ s b, E s b)
    (h : ∀ t ts', ts = t :: ts' → t.kind = k →
      PinpointsOn (f t) (g · t) (fun s b => E (t :: s) b) 0 ts') :
    PinpointsOn (Parse.expectOr k cause >>= f) (fun i => Parse.expectOr k cause >>= g i)
      E (if kindAt ts = k then 1 else 0) ts := by
  split
  · next hkind =>
    obtain ⟨t, ts, rfl, ht⟩ := exists_cons_of_kindAt hkind hk
    have hlike : Like (Parse.expectOr k cause) Parse.advance (t :: ts) :=
      like_check (List.mem_singleton.mpr ht)
    exact (h t ts rfl ht).advance.of_like (hlike.bind f) fun i => hlike.bind (g i)
  · next hkind =>
    have hlike : Like (Parse.expectOr k cause) (Parse.failHere cause) ts :=
      like_uncheck fun hmem => hkind (List.mem_singleton.mp hmem)
    refine PinpointsOn.of_like (hlike.bind f) (fun i => hlike.bind (g i)) ?_
    simp only [failHere_bind]
    exact PinpointsOn.failHere hE fun r _ => hc r

theorem PinpointsOn.expect {k : Kind} {f : Token → Parse β} {g : ι → Token → Parse β}
    (hk : k ≠ .eof) (hE : ∃ s b, E s b)
    (h : ∀ t ts', ts = t :: ts' → t.kind = k →
      PinpointsOn (f t) (g · t) (fun s b => E (t :: s) b) 0 ts') :
    PinpointsOn (Parse.expect k >>= f) (fun i => Parse.expect k >>= g i)
      E (if kindAt ts = k then 1 else 0) ts :=
  PinpointsOn.expectOr hk (fun _ => rfl) hE h

/-- A step, a look that finds nothing and a step back amount to nothing, as long as the second token
is the same. So it has to be seen before there is any failure. -/
theorem PinpointsOn.stepBack {look : Parse Bool} {yes : Token → Parse α}
    {yes' : ι → Token → Parse α} {t : Token} (hl : ∀ ts', ts'.head? = ts.head? → Misses look ts')
    (h : PinpointsOn p q D 1 (t :: ts)) :
    PinpointsOn
      (do let x ← Parse.advance
          if ← look then yes x
          else
            Parse.goBack
            p)
      (fun i => do
          let x ← Parse.advance
          if ← look then yes' i x
          else
            Parse.goBack
            q i) D 1 (t :: ts) := by
  refine h.shift [] (Nat.le_refl 1) (fun _ _ hs => hs) (fun r hr => ?_) ?_
  · exact ⟨r.returned, hr.returned, stepBack_eq (hl ts rfl) hr⟩
  · intro used rest hsplit hused rest' hhead i r hr
    cases used with
    | nil => cases hused
    | cons x used =>
      obtain ⟨rfl, rfl⟩ := List.cons.inj hsplit
      exact .inr ⟨i, r.returned, hr.returned, stepBack_eq (hl _ (head?_append_congr hhead)) hr⟩

end

/-! ## Rules for all tokens -/

section

variable {p p₁ : Parse α} {q q₁ : ι → Parse α} {f : α → Parse β} {g : ι → α → Parse β}
  {A D : List Token → α → Prop} {E : List Token → β → Prop}

/-- There is a token of every kind. -/
def tokenOf (k : Kind) : Token := ⟨k, "", .start⟩

theorem Pinpoints.bind (h : Pinpoints p q A)
    (hf : ∀ used a, A used a → Pinpoints (f a) (g · a) fun s b => E (used ++ s) b) :
    Pinpoints (p >>= f) (fun i => q i >>= g i) E where
  productive := by
    obtain ⟨s, a, ha⟩ := h.productive
    obtain ⟨s', b, hb⟩ := (hf s a ha).productive
    exact ⟨s ++ s', b, hb⟩
  on ts := (h.on ts).bind hf

theorem Pinpoints.pure {a : α} (h : D [] a) :
    Pinpoints (Pure.pure a) (fun _ : ι => Pure.pure a) D :=
  ⟨⟨[], a, h⟩, fun _ => PinpointsOn.pure h⟩

/-- A last step that takes no token. -/
theorem Pinpoints.map {c : α → β} (h : Pinpoints p q A) (hc : ∀ used a, A used a → E used (c a)) :
    Pinpoints (do return c (← p)) (fun i => do return c (← q i)) E := by
  refine h.bind fun used a ha => Pinpoints.pure ?_
  rw [List.append_nil]
  exact hc used a ha

theorem Pinpoints.among {q' : κ → Parse α} (h : Pinpoints p q D)
    (hq : ∀ i, (∀ r, ∃ e s, q' i r = .error e s) ∨ ∃ j, q' i = q j) : Pinpoints p q' D :=
  ⟨h.productive, fun ts => (h.on ts).among (Nat.le_refl 0) hq⟩

theorem Pinpoints.imp {D' : List Token → α → Prop} (h : Pinpoints p q D)
    (hD : ∀ s a, D s a → D' s a) : Pinpoints p q D' where
  productive := by
    obtain ⟨s, a, ha⟩ := h.productive
    exact ⟨s, a, hD s a ha⟩
  on ts := (h.on ts).imp hD

/-- Other runs by another index. -/
theorem Pinpoints.reindex (h : Pinpoints p q D) (i : κ → ι) : Pinpoints p (fun k => q (i k)) D :=
  h.among fun k => .inr ⟨i k, rfl⟩

theorem Pinpoints.bound {f : Nat → Parse β} {g : ι → Nat → Parse β}
    (h : ∀ n, Pinpoints (f n) (fun j : ι × Nat => g j.1 j.2) E) :
    Pinpoints (Parse.bound >>= f) (fun i => Parse.bound >>= g i) E :=
  ⟨(h 0).productive, fun ts => PinpointsOn.bound fun n => (h n).on ts⟩

theorem Pinpoints.check {ks : List Kind} (yes : Pinpoints p q D) (no : Pinpoints p₁ q₁ D) :
    Pinpoints (do if ← Parse.check ks then p else p₁)
      (fun i => do if ← Parse.check ks then q i else q₁ i) D :=
  ⟨no.productive, fun ts => PinpointsOn.check (fun _ => yes.on ts) fun _ => no.on ts⟩

/-- A token of one of the kinds is taken, if there is one. -/
theorem Pinpoints.take {ks : List Kind} {f : Token → Parse α} {g : ι → Token → Parse α}
    (hks : .eof ∉ ks)
    (yes : ∀ t, t.kind ∈ ks → Pinpoints (f t) (g · t) fun s a => D (t :: s) a)
    (no : Pinpoints p q D) :
    Pinpoints (do if ← Parse.check ks then Parse.advance >>= f else p)
      (fun i => do if ← Parse.check ks then Parse.advance >>= g i else q i) D := by
  refine ⟨no.productive, fun ts => ?_⟩
  by_cases hk : kindAt ts ∈ ks
  case neg => exact (no.on ts).of_like (like_uncheck hk) fun _ => like_uncheck hk
  obtain ⟨t, ts, rfl, -⟩ := exists_cons_of_kindAt rfl fun h => hks (h ▸ hk)
  exact (((yes t hk).on ts).take hk).mono (Nat.zero_le _)

theorem Pinpoints.accept {k : Kind} (hk : k ≠ .eof)
    (yes : ∀ t, t.kind = k → Pinpoints p q fun s a => D (t :: s) a) (no : Pinpoints p₁ q₁ D) :
    Pinpoints (do if ← Parse.accept [k] then p else p₁)
      (fun i => do if ← Parse.accept [k] then q i else q₁ i) D := by
  refine ⟨no.productive, fun ts => ?_⟩
  by_cases hkind : kindAt ts = k
  · obtain ⟨t, ts, rfl, ht⟩ := exists_cons_of_kindAt hkind hk
    exact (((yes t ht).on ts).accept ht).mono (Nat.zero_le _)
  · exact (no.on ts).of_like (like_unaccept hkind) fun _ => like_unaccept hkind

theorem Pinpoints.expectOr {k : Kind} {cause : Reader → Cause} {f : Token → Parse β}
    {g : ι → Token → Parse β} (hk : k ≠ .eof) (hc : ∀ r, (cause r).About r.current)
    (h : ∀ t, t.kind = k → Pinpoints (f t) (g · t) fun s b => E (t :: s) b) :
    Pinpoints (Parse.expectOr k cause >>= f) (fun i => Parse.expectOr k cause >>= g i) E := by
  have hE : ∃ s b, E s b := by
    obtain ⟨s, b, hb⟩ := (h (tokenOf k) rfl).productive
    exact ⟨_, b, hb⟩
  refine ⟨hE, fun ts => (PinpointsOn.expectOr hk hc hE ?_).mono (Nat.zero_le _)⟩
  exact fun t ts _ ht => (h t ht).on ts

theorem Pinpoints.expect {k : Kind} {f : Token → Parse β} {g : ι → Token → Parse β}
    (hk : k ≠ .eof) (h : ∀ t, t.kind = k → Pinpoints (f t) (g · t) fun s b => E (t :: s) b) :
    Pinpoints (Parse.expect k >>= f) (fun i => Parse.expect k >>= g i) E :=
  Pinpoints.expectOr hk (fun _ => rfl) h

/-! ## Bounds -/

theorem Pinpoints.tooDeep (hD : ∃ s a, D s a) :
    Pinpoints (Parse.failHere fun _ => .tooDeep) q D :=
  ⟨hD, fun _ _ _ => .inl rfl⟩

/-- A reader with a bound fails, or it has some bound left. -/
theorem fails_or_succ {Q : Nat → Parse α} (hQ : Q 0 = Parse.failHere fun _ => .tooDeep) (n : Nat) :
    (∀ r, ∃ e s, Q n r = .error e s) ∨ ∃ k, Q n = Q (k + 1) := by
  cases n with
  | zero => exact .inl fun r => ⟨_, r, by rw [hQ]; rfl⟩
  | succ n => exact .inr ⟨n, rfl⟩

/-- Other runs with any bound, from those that have some bound left. -/
theorem Pinpoints.succ {Q : ι → Nat → Parse α}
    (hQ : ∀ i, Q i 0 = Parse.failHere fun _ => .tooDeep)
    (h : Pinpoints p (fun j : ι × Nat => Q j.1 (j.2 + 1)) D) :
    Pinpoints p (fun j : ι × Nat => Q j.1 j.2) D := by
  refine h.among fun j => ?_
  obtain hfails | ⟨k, hk⟩ := fails_or_succ (hQ j.1) j.2
  · exact .inl hfails
  · exact .inr ⟨(j.1, k), hk⟩

end

end Parse

end Treewalk
