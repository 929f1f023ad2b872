import Treewalk.Proofs.Arithmetic.Formula
import Treewalk.Proofs.Arithmetic.Numeral
import Treewalk.Proofs.Grammar.Basic

/-!
# Formulas as text

A formula is written with brackets wherever its shape asks for them, and with more brackets and more
spaces wherever one likes. What a text writes can be told token by token: the words of the text
derive, by the rules of the grammar, an expression of the shape of the formula.

## Brackets

A text is written at a level, as an operand of an operation is. At level zero it may be a sum
without brackets, at level one a product, and at level two only what needs none: a number, a
negation or something in brackets. The left operand of an operation is written at the level of the
operation and the right operand one level further up, so operations without brackets between them
belong together from the left.

## Main definitions

* `Written`, the texts of a formula at a level
* `Denotes`, the expressions of the shape of a formula

## Main results

* `Written.derives`: the words of a text derive an expression of the shape of the formula

## Implementation notes

`Written` is about characters and `Level` about tokens, and the two meet in `Derives`, which says
three things of a text at once: into which words it is cut, that nothing is wrong with them, and
that whatever tokens say the same derive a tree. All three have to be carried through the induction
together, for the words of an operation are known only once the words of its operands are.

The condition on what stands behind is inside the first field. It cannot be an assumption about the
text alone: what stands behind the left operand is the sign of the operation.

The number in `Denotes` bounds the depth of the tree, and `Derives` puts the length of the text in
its place. No better bound is needed, and this one adds up without a maximum: the two texts of an
operation and its sign are at least one longer than either of them.
-/

namespace Treewalk.Arithmetic

open Grammar

/-! ## Texts -/

namespace Op

def char : Op → Char
  | add => '+'
  | sub => '-'
  | mul => '*'
  | div => '/'
  | mod => '%'

def kind : Op → Kind
  | add => .plus
  | sub => .minus
  | mul => .star
  | div => .slash
  | mod => .percent

/-- The level of an operation: sums are written at level zero, products at level one. -/
def level : Op → ℕ
  | add | sub => 0
  | mul | div | mod => 1

end Op

/-- The texts of a formula at a level. -/
inductive Written : ℕ → Formula → List Char → Prop where
  | literal (n : Numeral) : Written 2 (.literal n.value) n.chars
  | group {t : Formula} {cs : List Char} (h : Written 0 t cs) : Written 2 t ('(' :: (cs ++ [')']))
  | neg {t : Formula} {cs : List Char} (h : Written 2 t cs) : Written 2 (.neg t) ('-' :: cs)
  | binary {op : Op} {lhs rhs : Formula} {cs ds : List Char} (hl : Written op.level lhs cs)
      (hr : Written (op.level + 1) rhs ds) :
      Written op.level (.binary op lhs rhs) (cs ++ op.char :: ds)
  | looser {level : ℕ} {t : Formula} {cs : List Char} (h : Written (level + 1) t cs) :
      Written level t cs
  | before {level : ℕ} {t : Formula} {c : Char} {cs : List Char} (hc : isSpace c = true)
      (h : Written level t cs) : Written level t (c :: cs)
  | behind {level : ℕ} {t : Formula} {c : Char} {cs : List Char} (hc : isSpace c = true)
      (h : Written level t cs) : Written level t (cs ++ [c])

/-- A text of a formula is in ASCII. -/
theorem Written.ascii {level : ℕ} {t : Formula} {cs : List Char} (h : Written level t cs) :
    Utf8.Ascii cs := by
  have hspace : ∀ {c : Char}, isSpace c = true → 0 < c.toNat ∧ c.toNat < 0x80 := by
    intro c hc
    simp only [isSpace, Bool.or_eq_true, decide_eq_true_eq] at hc
    obtain ((rfl | rfl) | rfl) | rfl := hc <;> decide
  induction h with
  | literal n => exact n.ascii
  | group _ ih =>
    exact List.forall_mem_cons.mpr ⟨by decide, ih.append (by decide)⟩
  | neg _ ih => exact List.forall_mem_cons.mpr ⟨by decide, ih⟩
  | @binary op _ _ _ _ _ _ ihl ihr =>
    have hop : 0 < op.char.toNat ∧ op.char.toNat < 0x80 := by cases op <;> decide
    exact ihl.append (List.forall_mem_cons.mpr ⟨hop, ihr⟩)
  | looser _ ih => exact ih
  | before hc _ ih => exact List.forall_mem_cons.mpr ⟨hspace hc, ih⟩
  | behind hc _ ih =>
    exact ih.append (List.forall_mem_cons.mpr ⟨hspace hc, by simp⟩)

/-- A text of a formula does not start with a sign that another sign could be read together with. -/
theorem Written.head {level : ℕ} {t : Formula} {cs : List Char} (h : Written level t cs) :
    ∃ c rest, cs = c :: rest ∧ c ≠ '=' := by
  induction h with
  | literal n =>
    obtain ⟨c, rest, hchars, hdigit⟩ := n.exists_chars_cons
    refine ⟨c, rest, hchars, ?_⟩
    rintro rfl
    exact absurd hdigit (by decide)
  | group _ _ => exact ⟨_, _, rfl, by decide⟩
  | neg _ _ => exact ⟨_, _, rfl, by decide⟩
  | binary _ _ ihl _ =>
    obtain ⟨c, rest, rfl, hc⟩ := ihl
    exact ⟨c, _, rfl, hc⟩
  | looser _ ih => exact ih
  | before hc _ _ =>
    refine ⟨_, _, rfl, ?_⟩
    rintro rfl
    exact absurd hc (by decide)
  | behind _ _ ih =>
    obtain ⟨c, rest, rfl, hc⟩ := ih
    exact ⟨c, _, rfl, hc⟩

/-! ## Expressions -/

/-- An expression has the shape of a formula, and is not deeper than a bound. Marks and the texts of
operators are left open, and so are brackets, which are nodes of their own but no part of the
formula. -/
inductive Denotes : ℕ → Formula → Expr → Prop where
  | literal {k n : ℕ} {mark : Mark} : Denotes (k + 1) (.literal n) (.int mark n)
  | group {k : ℕ} {t : Formula} {e : Expr} {mark : Mark} (h : Denotes k t e) :
      Denotes (k + 1) t (.group mark e)
  | neg {k : ℕ} {t : Formula} {e : Expr} {mark : Mark} {sign : Operator} (hs : sign.kind = .minus)
      (h : Denotes k t e) : Denotes (k + 1) (.neg t) (.unary mark sign e)
  | binary {k : ℕ} {op : Op} {lhs rhs : Formula} {e e' : Expr} {mark : Mark} {sign : Operator}
      (hs : sign.kind = op.kind) (hl : Denotes k lhs e) (hr : Denotes k rhs e') :
      Denotes (k + 1) (.binary op lhs rhs) (.binary mark e sign e')

theorem Denotes.mono {k k' : ℕ} {t : Formula} {e : Expr} (h : Denotes k t e) (hk : k ≤ k') :
    Denotes k' t e := by
  have hsucc : ∀ {k k' : ℕ}, k + 1 ≤ k' → ∃ m, k' = m + 1 ∧ k ≤ m := fun {k k'} h =>
    ⟨k' - 1, by omega, by omega⟩
  induction h generalizing k' with
  | literal =>
    obtain ⟨m, rfl, -⟩ := hsucc hk
    exact .literal
  | group _ ih =>
    obtain ⟨m, rfl, hm⟩ := hsucc hk
    exact .group (ih hm)
  | neg hs _ ih =>
    obtain ⟨m, rfl, hm⟩ := hsucc hk
    exact .neg hs (ih hm)
  | binary hs _ _ ihl ihr =>
    obtain ⟨m, rfl, hm⟩ := hsucc hk
    exact .binary hs (ihl hm) (ihr hm)

/-! ## Signs -/

/-- A sign that starts no other sort of token and does not belong to a longer sign is a word. -/
theorem words_sign {c : Char} {kind : Kind} {rest : List Char} (hk : Shape.signKind? c = some kind)
    (hplain : isSpace c = false ∧ isNameStart c = false ∧ isDecimalDigit c = false ∧ c ≠ '"' ∧
      c ≠ '\'' ∧ c ≠ '#')
    (hpair : ∀ d ∈ rest.head?, Shape.pairKind? c d = none) :
    words (c :: rest) = ⟨kind, [c], none⟩ :: words rest := by
  obtain ⟨hspace, hname, hdigit, hquote, htick, hhash⟩ := hplain
  have hbind : rest.head?.bind (Shape.pairKind? c) = none := by
    cases rest with
    | nil => rfl
    | cons d rest => exact hpair d rfl
  have hshape : shapeAt c ([] ++ rest) = ⟨kind, 1, none⟩ := by
    rw [List.nil_append, shapeAt, hname, hdigit, if_neg hquote, if_neg htick, if_neg hhash,
      Shape.operator, hbind, hk]
    rfl
  have hwords := words_cons hspace hshape
  rwa [List.nil_append] at hwords

theorem words_lparen (rest : List Char) :
    words ('(' :: rest) = ⟨.lparen, ['('], none⟩ :: words rest :=
  words_sign rfl (by decide) fun _ _ => rfl

theorem words_rparen (rest : List Char) :
    words (')' :: rest) = ⟨.rparen, [')'], none⟩ :: words rest :=
  words_sign rfl (by decide) fun _ _ => rfl

theorem words_minus (rest : List Char) :
    words ('-' :: rest) = ⟨.minus, ['-'], none⟩ :: words rest :=
  words_sign rfl (by decide) fun _ _ => rfl

/-- Only a division sign could belong to a longer sign. -/
theorem words_op (op : Op) {c : Char} (hc : c ≠ '=') (rest : List Char) :
    words (op.char :: c :: rest) = ⟨op.kind, [op.char], none⟩ :: words (c :: rest) := by
  refine words_sign (by cases op <;> rfl) (by cases op <;> decide) ?_
  rintro d ⟨⟩
  cases op with
  | add | sub | mul | mod => rfl
  | div =>
    rw [Op.char, Shape.pairKind?, List.lookup_eq_none_iff]
    simp [hc]

/-! ## Tokens -/

/-- The operators of the rules that a text at a level is derived by. -/
def operators : ℕ → List (List Kind)
  | 0 => [[.plus, .minus], [.star, .slash, .percent]]
  | 1 => [[.star, .slash, .percent]]
  | _ + 2 => []

/-- Tokens that say what words say, at whatever places. -/
def Spells (ts : List Token) (ws : List Word) : Prop :=
  ts.map (fun t => (t.kind, t.text)) = ws.map fun w => (w.kind, String.ofList w.chars)

theorem Spells.cons {ts : List Token} {w : Word} {ws : List Word} (h : Spells ts (w :: ws)) :
    ∃ t ts', ts = t :: ts' ∧ t.kind = w.kind ∧ t.text = String.ofList w.chars ∧ Spells ts' ws := by
  obtain ⟨t, ts', rfl, ht, hts⟩ := List.map_eq_cons_iff.mp h
  exact ⟨t, ts', rfl, (Prod.mk.inj ht).1, (Prod.mk.inj ht).2, hts⟩

theorem Spells.append {ts : List Token} {ws ws' : List Word} (h : Spells ts (ws ++ ws')) :
    ∃ ts₁ ts₂, ts = ts₁ ++ ts₂ ∧ Spells ts₁ ws ∧ Spells ts₂ ws' := by
  rw [Spells, List.map_append] at h
  obtain ⟨ts₁, ts₂, rfl, h₁, h₂⟩ := List.map_eq_append_iff.mp h
  exact ⟨ts₁, ts₂, rfl, h₁, h₂⟩

theorem Spells.nil {ts : List Token} (h : Spells ts []) : ts = [] :=
  List.map_eq_nil_iff.mp h

/-! ## Derivations -/

/-- The characters are some words, whatever stands behind them; nothing is wrong with the words;
and tokens that say the same derive an expression of the shape of the formula. The first part is
about all that may stand behind, because a text is put together from texts that stand in front of
others. -/
structure Derives (level : ℕ) (t : Formula) (cs : List Char) (ws : List Word) : Prop where
  words {rest : List Char} (h : Stops rest) : words (cs ++ rest) = ws ++ Treewalk.words rest
  sound : ∀ w ∈ ws, w.kind ≠ .invalid ∧ w.problem = none
  tree {ts : List Token} (h : Spells ts ws) :
    ∃ e, Level (operators level) ts e ∧ Denotes cs.length t e

namespace Derives

variable {level : ℕ} {t : Formula} {cs : List Char} {ws : List Word}

theorem literal (n : Numeral) :
    Derives 2 (.literal n.value) n.chars [⟨.int, n.chars, none⟩] where
  words h := n.words_append h
  sound := by simp
  tree h := by
    obtain ⟨t, ts, rfl, hkind, htext, hts⟩ := h.cons
    obtain rfl := hts.nil
    have hvalue : Parse.intValue? t.text = some n.value := by rw [htext, n.intValue?_chars]
    obtain ⟨c, cs, hchars, -⟩ := n.exists_chars_cons
    have hlen : 1 ≤ n.chars.length := by rw [hchars]; exact Nat.succ_pos _
    exact ⟨_, .unary (.int hkind hvalue), (Denotes.literal (k := 0)).mono hlen⟩

theorem group (h : Derives 0 t cs ws) :
    Derives 2 t ('(' :: (cs ++ [')']))
      (⟨.lparen, ['('], none⟩ :: (ws ++ [⟨.rparen, [')'], none⟩])) where
  words {rest} _ := by
    have hstops : Stops (')' :: rest) := by
      rintro c ⟨⟩
      decide
    rw [List.cons_append, List.append_assoc, words_lparen, List.singleton_append, h.words hstops,
      words_rparen, List.cons_append, List.append_assoc]
    rfl
  sound := by
    refine List.forall_mem_cons.mpr ⟨by decide, List.forall_mem_append.mpr ⟨h.sound, ?_⟩⟩
    simp
  tree hts := by
    obtain ⟨l, ts, rfl, hl, -, hts⟩ := hts.cons
    obtain ⟨us, rs, rfl, hus, hrs⟩ := hts.append
    obtain ⟨r, rs, rfl, hr, -, hrs⟩ := hrs.cons
    obtain rfl := hrs.nil
    obtain ⟨e, he, hdenotes⟩ := h.tree hus
    have hexpr : Expression us e := .level (.single (.single (.single he)))
    refine ⟨_, .unary (.group hl hexpr hr), (Denotes.group hdenotes).mono ?_⟩
    simp

theorem neg (h : Derives 2 t cs ws) :
    Derives 2 (.neg t) ('-' :: cs) (⟨.minus, ['-'], none⟩ :: ws) where
  words hrest := by rw [List.cons_append, words_minus, h.words hrest, List.cons_append]
  sound := List.forall_mem_cons.mpr ⟨by decide, h.sound⟩
  tree hts := by
    obtain ⟨m, ts, rfl, hm, -, hts⟩ := hts.cons
    obtain ⟨e, he, hdenotes⟩ := h.tree hts
    cases he with
    | unary hu => exact ⟨_, .unary (.signed (.inl hm) hu), .neg hm hdenotes⟩

theorem binary {op : Op} {lhs rhs : Formula} {cs ds : List Char} {ws vs : List Word} {c : Char}
    {rest : List Char} (hl : Derives op.level lhs cs ws) (hr : Derives (op.level + 1) rhs ds vs)
    (hds : ds = c :: rest) (hc : c ≠ '=') :
    Derives op.level (.binary op lhs rhs) (cs ++ op.char :: ds)
      (ws ++ ⟨op.kind, [op.char], none⟩ :: vs) where
  words {behind} hbehind := by
    have hstops : Stops (op.char :: (ds ++ behind)) := by
      rintro c ⟨⟩
      cases op <;> decide
    have hop : Treewalk.words (op.char :: (ds ++ behind)) =
        ⟨op.kind, [op.char], none⟩ :: Treewalk.words (ds ++ behind) := by
      rw [hds]
      exact words_op op hc _
    rw [List.append_assoc, List.cons_append, hl.words hstops, hop, hr.words hbehind,
      List.append_assoc, List.cons_append]
  sound := by
    refine List.forall_mem_append.mpr ⟨hl.sound, List.forall_mem_cons.mpr ⟨?_, hr.sound⟩⟩
    cases op <;> decide
  tree hts := by
    obtain ⟨us, vs, rfl, hus, hvs⟩ := hts.append
    obtain ⟨o, vs, rfl, ho, -, hvs⟩ := hvs.cons
    obtain ⟨e, he, hlhs⟩ := hl.tree hus
    obtain ⟨e', he', hrhs⟩ := hr.tree hvs
    have hlen : (cs ++ op.char :: ds).length = cs.length + ds.length + 1 := by simp; omega
    have hdenotes : Denotes (cs ++ op.char :: ds).length (.binary op lhs rhs)
        (.binary (Parse.markOf o) e ⟨o.kind, o.text⟩ e') := by
      rw [hlen]
      exact .binary ho (hlhs.mono (by omega)) (hrhs.mono (by omega))
    obtain ⟨ops, hops, hmem⟩ : ∃ ops, operators op.level = ops :: operators (op.level + 1) ∧
        op.kind ∈ ops := by
      cases op <;> exact ⟨_, rfl, by decide⟩
    rw [hops] at he ⊢
    exact ⟨_, .join he (ho ▸ hmem) he', hdenotes⟩

theorem looser (h : Derives (level + 1) t cs ws) : Derives level t cs ws where
  words := h.words
  sound := h.sound
  tree hts := by
    obtain ⟨e, he, hdenotes⟩ := h.tree hts
    match level with
    | 0 | 1 => exact ⟨e, .single he, hdenotes⟩
    | _ + 2 => exact ⟨e, he, hdenotes⟩

theorem before {c : Char} (hc : isSpace c = true) (h : Derives level t cs ws) :
    Derives level t (c :: cs) ws where
  words {rest} hrest := by
    have hspaces : ∀ d ∈ [c], isSpace d = true := by simpa using hc
    rw [← h.words hrest, ← words_spaces hspaces (cs ++ rest)]
    rfl
  sound := h.sound
  tree hts := by
    obtain ⟨e, he, hdenotes⟩ := h.tree hts
    exact ⟨e, he, hdenotes.mono (Nat.le_succ _)⟩

theorem behind {c : Char} (hc : isSpace c = true) (h : Derives level t cs ws) :
    Derives level t (cs ++ [c]) ws where
  words {rest} _ := by
    have hspaces : ∀ d ∈ [c], isSpace d = true := by simpa using hc
    rw [List.append_assoc, List.singleton_append, h.words (stops_of_isSpace hc rest),
      ← words_spaces hspaces rest]
    rfl
  sound := h.sound
  tree hts := by
    obtain ⟨e, he, hdenotes⟩ := h.tree hts
    exact ⟨e, he, hdenotes.mono (by simp)⟩

end Derives

/-- **The words of a text derive an expression of the shape of the formula that it writes.** The
induction is on how the text is written. At an operation the words of the left operand are followed
by those of the operator, which is why the words of a text are known whatever stands behind it. -/
theorem Written.derives {level : ℕ} {t : Formula} {cs : List Char} (h : Written level t cs) :
    ∃ ws, Derives level t cs ws := by
  induction h with
  | literal n => exact ⟨_, .literal n⟩
  | group _ ih => exact ih.imp' _ fun _ h => h.group
  | neg _ ih => exact ih.imp' _ fun _ h => h.neg
  | binary _ hr ihl ihr =>
    obtain ⟨ws, hws⟩ := ihl
    obtain ⟨vs, hvs⟩ := ihr
    obtain ⟨c, rest, hds, hc⟩ := hr.head
    exact ⟨_, hws.binary hvs hds hc⟩
  | looser _ ih => exact ih.imp fun _ h => h.looser
  | before hc _ ih => exact ih.imp fun _ h => h.before hc
  | behind hc _ ih => exact ih.imp fun _ h => h.behind hc

end Treewalk.Arithmetic
