import Treewalk.Proofs.Grammar.Reading

/-!
# Where a reader stands

The tokens of a source and its end, repeated for ever, are an endless stream. A reader splits that
stream into four parts: the token before, the current one, those that were stepped back over, and
those that have not been asked for. `Reader.At` says that the parts still fit together, and names
the number of the current token.

## Why the number is named

Behind the last token all tokens of the stream are equal, so the current token does not tell how far
a reader has come. The number does: a step adds one to it, and a step back takes one off, also
among the ends.

## Main definitions

* `endless`, the stream of some tokens and an end
* `Reader.At`, a reader at a number of a stream
* `Reader.after`, the reader that an action leaves, whether it fails or not

## Main results

* `Reader.At.advance`, `Reader.At.check`, `Reader.At.accept`, `Reader.At.expectOr`,
  `Reader.At.goBack`, `Reader.At.goBack_fails`: what each move gives, and where it leads

## Implementation notes

The stream is a function from numbers to tokens and not a list, so that a reader at the end has
something ahead of it like any other, and a step needs no case for it.

`At` has two fields that restrict readers and not only describe them: one token at most waits to
come again, and none waits while a step back is possible. These are what makes a step back exact. A
reader made in another way could have forgotten the token before and still hold others to come, and
then its place would be ambiguous.
-/

namespace Treewalk

/-- Tokens one after another, and the end for ever behind them. -/
def endless (tokens : List Token) (eof : Token) (n : Nat) : Token :=
  tokens[n]?.getD eof

namespace Reader

/-- The reader stands at the token with a number of a stream, and nothing of the stream is lost,
repeated or out of order on either side of it. The stream has a token for every number, the end
again and again behind the last, so a number always says where a reader is. -/
structure At (T : Nat → Token) (i : Nat) (r : Reader) : Prop where
  current : r.current = T i
  /-- The token before is unknown, or it is the one before. -/
  previous : r.previous = none ∨ 0 < i ∧ r.previous = some (T (i - 1))
  /-- One token at most waits to come again. -/
  staged : r.staged.length ≤ 1
  /-- None waits while a step back is possible, so that two in a row are not. -/
  unstaged : r.previous ≠ none → r.staged = []
  /-- The tokens that come again and then those not asked for are the rest of the stream. -/
  ahead : ∀ k, endless (r.staged ++ r.upcoming) r.eof k = T (i + 1 + k)

/-- The reader that an action leaves, whether it fails or not. -/
def after (r : Reader) (p : Parse α) : Reader :=
  match p r with
  | .ok _ r' => r'
  | .error _ r' => r'

/-- A new reader stands at the start of its stream. -/
theorem at_ofTokens (tokens : List Token) (eof : Token) :
    (ofTokens tokens eof).At (endless tokens eof) 0 := by
  cases tokens with
  | nil => exact ⟨rfl, .inl rfl, Nat.zero_le _, fun _ => rfl, fun _ => rfl⟩
  | cons t ts =>
    refine ⟨rfl, .inl rfl, Nat.zero_le _, fun _ => rfl, fun k => ?_⟩
    rw [Nat.zero_add, Nat.add_comm]
    rfl

namespace At

variable {T : Nat → Token} {i : Nat} {r : Reader}

/-- A step goes on by one number, and can be taken back. -/
theorem advanced (h : r.At T i) : r.advanced.At T (i + 1) := by
  obtain ⟨current, previous, staged, upcoming, eof⟩ := r
  obtain ⟨hcurrent, -, hstaged, -, hahead⟩ := h
  have hprevious : some current = some (T (i + 1 - 1)) := congrArg some hcurrent
  have hnext := hahead 0
  have hrest : ∀ k, endless (staged ++ upcoming) eof (k + 1) = T (i + 1 + 1 + k) := by
    intro k
    rw [hahead (k + 1)]
    congr 1
    omega
  -- The step takes the token that was stepped back over, the next one not asked for, or the end.
  rcases staged with _ | ⟨t, staged⟩
  · rcases upcoming with _ | ⟨t, upcoming⟩
    · exact ⟨hnext, .inr ⟨i.succ_pos, hprevious⟩, Nat.zero_le _, fun _ => rfl, hrest⟩
    · exact ⟨hnext, .inr ⟨i.succ_pos, hprevious⟩, Nat.zero_le _, fun _ => rfl, hrest⟩
  · obtain rfl : staged = [] := List.eq_nil_of_length_eq_zero (by simpa using hstaged)
    exact ⟨hnext, .inr ⟨i.succ_pos, hprevious⟩, Nat.zero_le _, fun _ => rfl, hrest⟩

/-! ## Moves -/

theorem advance (h : r.At T i) : Parse.advance r = .ok (T i) r.advanced := by
  rw [← h.current]
  rfl

theorem check (h : r.At T i) (kinds : List Kind) :
    Parse.check kinds r = .ok (kinds.contains (T i).kind) r := by
  rw [← h.current]
  rfl

/-- A token of one of the kinds is taken, and any other is left. -/
theorem accept (h : r.At T i) (kinds : List Kind) :
    ∃ r', Parse.accept kinds r = .ok (kinds.contains (T i).kind) r' ∧
      if kinds.contains (T i).kind then r'.At T (i + 1) else r' = r := by
  have hcheck := h.check kinds
  cases hk : kinds.contains (T i).kind with
  | true =>
    refine ⟨r.advanced, ?_, h.advanced⟩
    rw [Parse.accept, Parse.bind_of_ok hcheck, hk]
    rfl
  | false =>
    refine ⟨r, ?_, rfl⟩
    rw [Parse.accept, Parse.bind_of_ok hcheck, hk]
    rfl

/-- A token of the kind is taken; any other is an error at its place that moves nothing. -/
theorem expectOr (h : r.At T i) (kind : Kind) (cause : Reader → Parse.Cause) :
    if (T i).kind = kind then
      ∃ r', Parse.expectOr kind cause r = .ok (T i) r' ∧ r'.At T (i + 1)
    else Parse.expectOr kind cause r = .error ⟨(T i).pos, cause r⟩ r := by
  have hcheck : Parse.check [kind] r = .ok (decide ((T i).kind = kind)) r := by
    rw [h.check]
    simp
  split
  · next hk =>
    refine ⟨r.advanced, ?_, h.advanced⟩
    rw [Parse.expectOr, Parse.bind_of_ok hcheck, decide_eq_true hk]
    exact h.advance
  · next hk =>
    rw [Parse.expectOr, Parse.bind_of_ok hcheck, decide_eq_false hk, ← h.current]
    rfl

/-- A step back goes back by one number. -/
theorem goBack (h : r.At T i) (hp : r.previous ≠ none) :
    ∃ r', Parse.goBack r = .ok () r' ∧ 0 < i ∧ r'.At T (i - 1) := by
  obtain ⟨current, previous, staged, upcoming, eof⟩ := r
  obtain rfl : staged = [] := h.unstaged hp
  obtain hnone | ⟨hi, hprevious⟩ := h.previous
  · exact absurd hnone hp
  obtain rfl : previous = some (T (i - 1)) := hprevious
  refine ⟨⟨T (i - 1), none, [current], upcoming, eof⟩, rfl, hi, rfl, .inl rfl, Nat.le_refl _,
    fun hn => absurd rfl hn, fun k => ?_⟩
  cases k with
  | zero =>
    rw [Nat.add_zero, Nat.sub_add_cancel hi]
    exact h.current
  | succ k =>
    refine (h.ahead k).trans (congrArg T ?_)
    omega

/-- Without a token before, a step back is an error that moves nothing. -/
theorem goBack_fails (h : r.At T i) (hp : r.previous = none) :
    Parse.goBack r = .error ⟨(T i).pos, .nothingBehind⟩ r := by
  obtain ⟨current, previous, staged, upcoming, eof⟩ := r
  obtain rfl : previous = none := hp
  rw [← h.current]
  rfl

end At

end Reader

end Treewalk
