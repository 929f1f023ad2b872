import Treewalk.Proofs.Reader.Place

/-!
# How far a reader comes

A reader that is asked for more behind the last token gets the end, as often as it asks. So it is
not the tokens that run out, and that a loop of readers stops has to be said of numbers: a stream
has a first end, at a number called `stop` here, and no reader goes past it.

## The judgement

`Parse.Moves T stop deep i p Q` is about an action `p` at number `i` of a stream `T`. It gives a
result, at a number that satisfies `Q` together with the result, or it fails; want of nesting is a
reason only if `deep` holds. Either way nothing behind the first end has been asked for. A token
that has been asked for stays so, also if it is stepped back over, so this is said of the whole run
and not just of where it ends.

## Loops

A loop is one round over and over, until a round says that it was the last. If every other round
takes a token, no loop has more rounds than there are tokens, so the bound that loops are given is
never used up. `Moves.rounds` is the one induction for this.

## Main definitions

* `EndsAt`, the number of the first end of a stream
* `Reader.Within`, a reader that has asked for nothing behind it
* `Parse.Moves`, and `Parse.rounds`, a loop

## Main results

* `Moves.bind`, `Moves.rounds`, and a rule for each move

## Implementation notes

`deep` is a proposition and not a flag. Whether want of nesting is possible depends on how the bound
compares with what is ahead, and a lemma about a construction should not compare them. With the
proposition as a parameter, the lemma is proved once, and those who can show the bound to be large
enough take it to be false.

`Moves.rounds` has the loop as an abstract round. All loops of the grammar have different states,
but how many rounds they run is decided by one thing, whether a round takes a token.
-/

namespace Treewalk

/-- The first end of the stream has a number, and nothing but ends follows. -/
structure EndsAt (T : Nat → Token) (stop : Nat) : Prop where
  ended : ∀ i, stop ≤ i → (T i).kind = .eof
  inner : ∀ i, i < stop → (T i).kind ≠ .eof

theorem endsAt_endless {tokens : List Token} {eof : Token} (hts : ∀ t ∈ tokens, t.kind ≠ .eof)
    (heof : eof.kind = .eof) : EndsAt (endless tokens eof) tokens.length where
  ended i hi := by rw [endless, List.getElem?_eq_none hi, Option.getD_none, heof]
  inner i hi := by
    rw [endless, List.getElem?_eq_getElem hi, Option.getD_some]
    exact hts _ (List.getElem_mem hi)

namespace Reader

variable {T : Nat → Token} {stop i : Nat} {r : Reader}

/-- Short of the end there are as many tokens ahead as the end is away. -/
theorem At.le_size (h : r.At T i) (hT : EndsAt T stop) : stop ≤ i + r.size := by
  have hsize : r.size = (r.staged ++ r.upcoming).length + 1 := rfl
  -- Behind the tokens ahead all is alike, so the end is not later than the first of these.
  have hlast : ∀ k, (r.staged ++ r.upcoming).length ≤ k → T (i + 1 + k) = r.eof := by
    intro k hk
    rw [← h.ahead, endless, List.getElem?_eq_none hk, Option.getD_none]
  refine Nat.le_of_not_lt fun hlt => ?_
  have heof : r.eof.kind = .eof := by
    rw [← hlast (stop - (i + 1)) (by omega)]
    exact hT.ended _ (by omega)
  refine hT.inner (i + r.size) hlt ?_
  rw [show i + r.size = i + 1 + (r.staged ++ r.upcoming).length by omega, hlast _ (Nat.le_refl _)]
  exact heof

/-- The reader stands at a number of a stream and has asked for nothing behind its first end, not
even to step back afterwards. A token that has been put back has been asked for, though it lies
ahead; this is why the two are added. -/
structure Within (T : Nat → Token) (stop i : Nat) (r : Reader) : Prop where
  place : r.At T i
  asked : i + r.staged.length ≤ stop

namespace Within

theorem le_stop (h : r.Within T stop i) : i ≤ stop :=
  (Nat.le_add_right _ _).trans h.asked

/-- A step from a token that is not the end. -/
theorem advanced (h : r.Within T stop i) (hT : EndsAt T stop) (hk : (T i).kind ≠ .eof) :
    r.advanced.Within T stop (i + 1) := by
  refine ⟨h.place.advanced, ?_⟩
  have hlt : i < stop := Nat.lt_of_not_le fun hle => hk (hT.ended i hle)
  obtain ⟨current, previous, staged, upcoming, eof⟩ := r
  have hasked : i + staged.length ≤ stop := h.asked
  rcases staged with _ | ⟨t, staged⟩
  · rcases upcoming with _ | ⟨t, upcoming⟩ <;> exact hlt
  · have hstaged : i + (staged.length + 1) ≤ stop := hasked
    change i + 1 + staged.length ≤ stop
    omega

/-- A step back comes to the number before, and what is stepped back over has been asked for. -/
theorem goBack (h : r.Within T stop i) (hp : r.previous ≠ none) :
    ∃ r', Parse.goBack r = .ok () r' ∧ r'.Within T stop (i - 1) := by
  obtain ⟨r', hback, hi, hr'⟩ := h.place.goBack hp
  refine ⟨r', hback, hr', ?_⟩
  have hle := h.le_stop
  have hstaged := hr'.staged
  omega

end Within

end Reader

namespace Parse

variable {α β σ : Type} {T : Nat → Token} {stop i : Nat} {deep : Prop} {p q : Parse α}

/-- At number `i` the action gives a result at a number that satisfies `Q` with it, or it fails, for
want of nesting only if `deep` holds. Either way nothing behind the first end is asked for. A bound
on nesting is the one thing that can fail without regard to the tokens, so it is kept apart from the
other errors. -/
def Moves (T : Nat → Token) (stop : Nat) (deep : Prop) (i : Nat) (p : Parse α)
    (Q : α → Nat → Prop) : Prop :=
  EndsAt T stop → ∀ r : Reader, r.Within T stop i →
    match p r with
    | .ok a r' => ∃ j, r'.Within T stop j ∧ Q a j
    | .error e r' => (e.cause = .tooDeep → deep) ∧ ∃ j, r'.Within T stop j

variable {Q : α → Nat → Prop} {R : β → Nat → Prop}

/-! ## Sequencing -/

theorem Moves.mono {Q' : α → Nat → Prop} (h : Moves T stop deep i p Q)
    (hQ : ∀ a j, Q a j → Q' a j) : Moves T stop deep i p Q' := by
  intro hT r hr
  have hp := h hT r hr
  cases hpr : p r with
  | ok a r' =>
    rw [hpr] at hp
    obtain ⟨j, hj, hq⟩ := hp
    exact ⟨j, hj, hQ a j hq⟩
  | error e r' => rwa [hpr] at hp

theorem Moves.imp {deep' : Prop} (h : Moves T stop deep i p Q) (hd : deep → deep') :
    Moves T stop deep' i p Q := by
  intro hT r hr
  have hp := h hT r hr
  cases hpr : p r with
  | ok a r' => rwa [hpr] at hp
  | error e r' =>
    rw [hpr] at hp
    exact ⟨fun he => hd (hp.1 he), hp.2⟩

theorem Moves.bind {f : α → Parse β} (h : Moves T stop deep i p Q)
    (hf : ∀ a j, Q a j → Moves T stop deep j (f a) R) : Moves T stop deep i (p >>= f) R := by
  intro hT r hr
  have hp := h hT r hr
  cases hpr : p r with
  | ok a r' =>
    rw [hpr] at hp
    obtain ⟨j, hj, hq⟩ := hp
    rw [bind_of_ok hpr]
    exact hf a j hq hT r' hj
  | error e r' =>
    rw [hpr] at hp
    rwa [bind_of_error hpr]

theorem Moves.pure {a : α} (h : Q a i) : Moves T stop deep i (Pure.pure a) Q :=
  fun _ _ hr => ⟨i, hr, h⟩

theorem Moves.throw {e : Error} (h : e.cause ≠ .tooDeep) :
    Moves T stop deep i (MonadExcept.throw e) Q :=
  fun _ _ hr => ⟨fun he => absurd he h, i, hr⟩

theorem Moves.failHere {cause : Reader → Cause} (h : ∀ r, cause r = .tooDeep → deep) :
    Moves T stop deep i (Parse.failHere cause) Q :=
  fun _ r hr => ⟨h r, i, hr⟩

theorem Moves.get {f : Reader → Parse β}
    (h : ∀ r : Reader, r.current = T i → Moves T stop deep i (f r) R) :
    Moves T stop deep i (MonadState.get >>= f) R :=
  fun hT r hr => h r hr.place.current hT r hr

/-- The bound is larger than the distance to the end, and more than three times as large. -/
theorem Moves.bound {f : Nat → Parse β}
    (h : ∀ n, 4 * (stop - i) + 4 ≤ n → Moves T stop deep i (f n) R) :
    Moves T stop deep i (Parse.bound >>= f) R := by
  intro hT r hr
  have hsize := hr.place.le_size hT
  exact h (4 * r.size + 4) (by omega) hT r hr

/-- Behind the end nothing has to be shown. -/
theorem Moves.of_le_stop (h : i ≤ stop → Moves T stop deep i p Q) : Moves T stop deep i p Q :=
  fun hT r hr => h hr.le_stop hT r hr

/-! ## Moves -/

theorem Moves.check {ks : List Kind} (yes : (T i).kind ∈ ks → Moves T stop deep i p Q)
    (no : (T i).kind ∉ ks → Moves T stop deep i q Q) :
    Moves T stop deep i (do if ← Parse.check ks then p else q) Q := by
  intro hT r hr
  rw [bind_of_ok (hr.place.check ks)]
  by_cases hk : (T i).kind ∈ ks
  · rw [if_pos (List.contains_iff_mem.mpr hk)]
    exact yes hk hT r hr
  · rw [if_neg fun hc => hk (List.contains_iff_mem.mp hc)]
    exact no hk hT r hr

/-- A token is taken that is not the end. -/
theorem Moves.advance {f : Token → Parse β} (hk : (T i).kind ≠ .eof)
    (h : Moves T stop deep (i + 1) (f (T i)) R) : Moves T stop deep i (Parse.advance >>= f) R := by
  intro hT r hr
  rw [bind_of_ok hr.place.advance]
  exact h hT _ (hr.advanced hT hk)

theorem Moves.accept {k : Kind} (hk : k ≠ .eof)
    (yes : (T i).kind = k → Moves T stop deep (i + 1) p Q)
    (no : (T i).kind ≠ k → Moves T stop deep i q Q) :
    Moves T stop deep i (do if ← Parse.accept [k] then p else q) Q := by
  rw [accept_bind]
  refine Moves.check (fun hc => ?_) fun hc => no fun h => hc (List.mem_singleton.mpr h)
  have hc : (T i).kind = k := List.mem_singleton.mp hc
  exact Moves.advance (hc ▸ hk) (yes hc)

theorem Moves.expectOr {k : Kind} {cause : Reader → Cause} {f : Token → Parse β} (hk : k ≠ .eof)
    (hc : ∀ r, cause r ≠ .tooDeep)
    (h : (T i).kind = k → Moves T stop deep (i + 1) (f (T i)) R) :
    Moves T stop deep i (Parse.expectOr k cause >>= f) R := by
  rw [expectOr_bind]
  refine Moves.check (fun hk' => ?_) fun _ => ?_
  · have hk' : (T i).kind = k := List.mem_singleton.mp hk'
    exact Moves.advance (hk' ▸ hk) (h hk')
  · exact Moves.bind (Q := fun _ _ => False) (Moves.failHere fun r h => absurd h (hc r))
      fun _ _ hq => hq.elim

theorem Moves.expect {k : Kind} {f : Token → Parse β} (hk : k ≠ .eof)
    (h : (T i).kind = k → Moves T stop deep (i + 1) (f (T i)) R) :
    Moves T stop deep i (Parse.expect k >>= f) R :=
  Moves.expectOr hk (fun _ => Cause.noConfusion) h

/-- A step over a token that is not the end, a look that finds nothing and a step back lead
nowhere. -/
theorem Moves.stepBack {look : Parse Bool} {yes : Token → Parse α} {no : Parse α}
    (hk : (T i).kind ≠ .eof) (hl : ∀ r : Reader, r.At T (i + 1) → look r = .ok false r)
    (h : Moves T stop deep i no Q) :
    Moves T stop deep i (do let x ← Parse.advance
                            if ← look then yes x
                            else
                              Parse.goBack
                              no) Q := by
  intro hT r hr
  have hadvanced := hr.advanced hT hk
  have hprevious : r.advanced.previous ≠ none := by simp [Reader.advanced]
  obtain ⟨r', hback, hr'⟩ := hadvanced.goBack hprevious
  have hrun : (Parse.goBack >>= fun _ => no) r.advanced = no r' := bind_of_ok hback
  rw [bind_of_ok hr.place.advance, bind_of_ok (hl _ hadvanced.place),
    if_neg Bool.false_ne_true, hrun]
  exact h hT r' hr'

/-! ## Loops -/

/-- One round after another, until a round says that none follows. -/
def rounds (round : σ → Parse (σ × Bool)) : Nat → σ → Parse σ
  | 0, _ => failHere fun _ => .tooDeep
  | n + 1, s => do
    let (s, goesOn) ← round s
    if goesOn then rounds round n s else return s

/-- If every round that another one follows takes a token, there are no more rounds than tokens; and
what is known of the last round, be it the first or not, is known of the loop. -/
theorem Moves.rounds {round : σ → Parse (σ × Bool)} {d : Nat}
    (h : ∀ s j, i ≤ j →
      Moves T stop deep j (round s) fun x j' => if x.2 then j < j' else j + d ≤ j') :
    ∀ n s, stop < i + n → Moves T stop deep i (Parse.rounds round n s) fun _ j => i + d ≤ j := by
  intro n
  induction n generalizing i with
  | zero => exact fun s hn => Moves.of_le_stop fun hi => absurd hi (by omega)
  | succ n ih =>
    intro s hn
    rw [Parse.rounds]
    refine (h s i (Nat.le_refl i)).bind ?_
    rintro ⟨s', goesOn⟩ j hj
    cases goesOn with
    | false => exact Moves.pure hj
    | true =>
      have hj : i < j := hj
      refine (ih (fun s k hk => h s k (by omega)) s' (by omega)).mono fun _ k hk => ?_
      omega

end Parse

end Treewalk
