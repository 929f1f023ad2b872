import Treewalk.Proofs.Syntax.Derived
import Treewalk.Syntax.Form

/-!
# The schema of syntax trees

Whoever walks a tree takes its children apart without asking how many there are or what they are. So
the trees that the parser builds obey a closed schema: there is a fixed list of labels for every
place where a node may stand, and each label has its children, in number, order and sort. The schema
is data, `Place.nodes`; `Fits` says of a tree that it and everything within is as the data has it.

## Positions

A node is blamed on one of the tokens of its source, and carries that token's line and column. Three
nodes are not blamed on anything, because no token stands for them: the one around the arguments of
a call, the one around parameters, and the alternative of a conditional that has none.

## Why trees, and not statements

The statements of the model can only be built in the right way: a conditional has three parts
because its constructor has three arguments. The trees that are handed to others are nodes with
labels and lists of children, and they could be built in any way. That they are not is what has to
be shown, and it is shown of what statements are turned into, tree by tree.

## Main definitions

* `Schema.Place`, what a child is wanted for, and `Schema.Place.nodes`, the labels that it allows
* `Schema.Leaf`, the leaves that it allows
* `Schema.Fits`, a tree that obeys the schema throughout

## Main results

* `Source.parse_fits`: every tree of a source that parses obeys the schema

## Implementation notes

The schema is a table, so that whether a label is allowed and what its children are is found by
looking it up, and a proof that a tree obeys it is the lookup together with proofs about the
children. That the fit is stated by a mutual induction has one reason: a node has children in
different places, each with labels of its own.

The lemmas about nodes are stated with the lookup as a hypothesis, so that there is one for all
expressions and one for all statements. Blocks and conditionals have one more each because they may
stand in several places.
-/

namespace Treewalk

open Parse Grammar

namespace Schema

/-- What a child is wanted for. -/
inductive Place where
  | expression | statement | block | alternative | arguments | parameters
  | name | unaryOperator | binaryOperator | int | float | char | text
  deriving DecidableEq

/-- The children of a node. -/
inductive Children where
  /-- One child for each place, in this order. -/
  | each (places : List Place)
  /-- Any number of children, all for one place. -/
  | many (place : Place)
  deriving DecidableEq

/-- Statements in braces. -/
def blocks : List (String × Children) :=
  [("block", .many .statement)]

/-- Conditionals. -/
def branches : List (String × Children) :=
  [("if", .each [.expression, .block, .alternative])]

/-- Expressions. A block is none of them. -/
def expressions : List (String × Children) :=
  [("int", .each [.int]), ("float", .each [.float]), ("char", .each [.char]),
    ("string", .each [.text]), ("true", .each []), ("false", .each []), ("nil", .each []),
    ("var", .each [.name]), ("unary", .each [.unaryOperator, .expression]),
    ("binary", .each [.expression, .binaryOperator, .expression]),
    ("group", .each [.expression]), ("call", .each [.name, .arguments]),
    ("lambda", .each [.parameters, .block])]

/-- Statements. -/
def statements : List (String × Children) :=
  [("let", .each [.name, .expression]), ("assign", .each [.name, .expression]),
    ("exprstmt", .each [.expression]), ("while", .each [.expression, .block]),
    ("fndef", .each [.name, .parameters, .block]), ("return", .each [.expression]),
    ("print", .each [.text, .arguments]), ("empty", .each [])] ++ branches ++ blocks

/-- The labels that a place allows, with their children. -/
def Place.nodes : Place → List (String × Children)
  | .expression => expressions
  | .statement => statements
  | .block => blocks
  | .alternative => branches ++ blocks
  | .arguments => [("args", .many .expression)]
  | .parameters => [("params", .many .name)]
  | _ => []

/-- The kinds of operators in front of an operand. -/
def unaryKinds : List Kind :=
  [.minus, .notKw]

/-- The kinds of operators between operands. -/
def binaryKinds : List Kind :=
  [.plus, .minus, .star, .slash, .percent, .equal, .unequal, .less, .greater, .lessEqual,
    .greaterEqual, .andKw, .orKw]

/-- The leaves that a place allows: a token of a kind that fits, a number, or a text. The text of a
character is one character long. -/
inductive Leaf : Place → Tree → Prop where
  | name (text : String) : Leaf .name (.token "IDENT" text)
  | unary {k : Kind} (hk : k ∈ unaryKinds) (text : String) :
      Leaf .unaryOperator (.token k.name text)
  | binary {k : Kind} (hk : k ∈ binaryKinds) (text : String) :
      Leaf .binaryOperator (.token k.name text)
  | int (value : Int) : Leaf .int (.int value)
  | float (value : Decimal) : Leaf .float (.float value none)
  | char (c : Char) : Leaf .char (.text (String.singleton c))
  | text (value : String) : Leaf .text (.text value)

/-- The mark that a node carries in a place: that of one of the tokens, unless no token stands for
the node. -/
def Place.Marked (ts : List Token) (p : Place) (mark : Mark) : Prop :=
  match p with
  | .arguments | .parameters => mark = .absent
  | _ => ∃ t ∈ ts, mark = .place t.pos.line t.pos.column

mutual

/-- The tree stands in the place as the schema has it, and so does everything within it. -/
inductive Fits (ts : List Token) : Place → Tree → Prop where
  | leaf {p : Place} {t : Tree} (h : Leaf p t) : Fits ts p t
  /-- A node has a label that its place allows, and the children of that label. Parameters are
  pairwise distinct besides. -/
  | node {p : Place} {label : String} {shape : Children} {mark : Mark} {children : List Tree}
      (hl : p.nodes.lookup label = some shape) (hm : p.Marked ts mark) (hc : Fill ts shape children)
      (hd : p = .parameters → children.Nodup) : Fits ts p (.node label mark children)
  /-- A conditional without an alternative. -/
  | missing : Fits ts .alternative (.node "empty" .absent [])

/-- The trees are the children that a label has. -/
inductive Fill (ts : List Token) : Children → List Tree → Prop where
  | done : Fill ts (.each []) []
  | next {p : Place} {ps : List Place} {t : Tree} {children : List Tree} (ht : Fits ts p t)
      (hc : Fill ts (.each ps) children) : Fill ts (.each (p :: ps)) (t :: children)
  | none {p : Place} : Fill ts (.many p) []
  | more {p : Place} {t : Tree} {children : List Tree} (ht : Fits ts p t)
      (hc : Fill ts (.many p) children) : Fill ts (.many p) (t :: children)

end

variable {ts : List Token} {p : Place}

/-! ## Children -/

theorem Fill.one {t : Tree} (ht : Fits ts p t) : Fill ts (.each [p]) [t] :=
  .next ht .done

theorem Fill.two {q : Place} {t u : Tree} (ht : Fits ts p t) (hu : Fits ts q u) :
    Fill ts (.each [p, q]) [t, u] :=
  .next ht (.one hu)

theorem Fill.three {q r : Place} {t u v : Tree} (ht : Fits ts p t) (hu : Fits ts q u)
    (hv : Fits ts r v) : Fill ts (.each [p, q, r]) [t, u, v] :=
  .next ht (.two hu hv)

theorem Fill.all {children : List Tree} (h : ∀ t ∈ children, Fits ts p t) :
    Fill ts (.many p) children := by
  induction children with
  | nil => exact .none
  | cons t children ih =>
    exact .more (h t List.mem_cons_self) (ih fun u hu => h u (List.mem_cons_of_mem _ hu))

theorem fits_name (text : String) : Fits ts .name (.name text) :=
  .leaf (.name text)

theorem fits_params {s : List Token} {names : List String} (h : Params s names) :
    Fits ts .parameters (.params names) := by
  have hinj : Function.Injective Tree.name := fun a b hab => (Tree.token.inj hab).2
  refine .node rfl rfl (Fill.all ?_) fun _ => h.nodup.map hinj
  simp only [List.mem_map]
  rintro _ ⟨name, -, rfl⟩
  exact fits_name name

theorem fits_args {args : List Expr} (h : ∀ e ∈ args, Fits ts .expression e.toTree) :
    Fits ts .arguments (.node "args" .absent (Expr.toTrees args)) := by
  refine .node rfl rfl (Fill.all ?_) nofun
  rw [Expr.toTrees_eq_map]
  simpa using h

/-! ## Nodes -/

/-- An expression, whose place neither leaves its mark out nor asks for distinct children. -/
theorem fits_expr {label : String} {shape : Children} {mark : Mark} {children : List Tree}
    (hm : ∃ t ∈ ts, mark = markOf t) (hl : expressions.lookup label = some shape)
    (hc : Fill ts shape children) : Fits ts .expression (.node label mark children) :=
  .node hl hm hc nofun

theorem fits_stmt {label : String} {shape : Children} {mark : Mark} {children : List Tree}
    (hm : ∃ t ∈ ts, mark = markOf t) (hl : statements.lookup label = some shape)
    (hc : Fill ts shape children) : Fits ts .statement (.node label mark children) :=
  .node hl hm hc nofun

/-- A block may stand wherever a place allows blocks. -/
theorem fits_block {mark : Mark} {body : List Stmt} (hm : ∃ t ∈ ts, mark = markOf t)
    (hb : ∀ st ∈ body, Fits ts .statement st.toTree)
    (hp : p = .block ∨ p = .statement ∨ p = .alternative) :
    Fits ts p (Stmt.block mark body).toTree := by
  have hc : Fill ts (.many .statement) (Stmt.toTrees body) := by
    rw [Stmt.toTrees_eq_map]
    exact Fill.all (by simpa using hb)
  obtain rfl | rfl | rfl := hp
  · exact .node rfl hm hc nofun
  · exact .node rfl hm hc nofun
  · exact .node rfl hm hc nofun

/-- A conditional may be a statement or the alternative of another one. -/
theorem fits_branch {mark : Mark} {test : Expr} {yes no : Stmt} (hm : ∃ t ∈ ts, mark = markOf t)
    (ht : Fits ts .expression test.toTree) (hy : Fits ts .block yes.toTree)
    (hn : Fits ts .alternative no.toTree) (hp : p = .statement ∨ p = .alternative) :
    Fits ts p (Stmt.branch mark test yes no).toTree := by
  have hc := Fill.three ht hy hn
  obtain rfl | rfl := hp
  · exact .node rfl hm hc nofun
  · exact .node rfl hm hc nofun

/-- A tree in the place of an expression is a node with the mark of a token. -/
theorem Fits.exists_mark {e : Expr} (h : Fits ts .expression e.toTree) :
    ∃ t ∈ ts, e.mark = markOf t := by
  have hnode : ∃ label children, e.toTree = .node label e.mark children := by
    cases e <;> exact ⟨_, _, rfl⟩
  obtain ⟨label, children, hnode⟩ := hnode
  rw [hnode] at h
  cases h with
  | leaf h => cases h
  | node _ hm _ _ => exact hm

end Schema

/-! ## Derived code -/

/-- A character literal holds one character. -/
theorem Parse.exists_singleton_of_charValue? {text v : String} (h : charValue? text = some v) :
    ∃ c, v = String.singleton c := by
  rw [charValue?] at h
  split at h
  · exact ⟨_, (Option.some.inj h).symm⟩
  · cases h

namespace Grammar

open Schema

theorem mem_binaryKinds_of_precedence : ∀ ops ∈ precedence, ∀ k ∈ ops, k ∈ binaryKinds := by
  decide

theorem mem_unaryKinds_of_signed {k : Kind} (h : k = .minus ∨ k = .notKw) : k ∈ unaryKinds := by
  simpa [unaryKinds] using h

variable {ts : List Token}

mutual

theorem Expression.fits {s : List Token} {e : Expr} :
    Expression s e → (∀ t ∈ s, t ∈ ts) → Fits ts .expression e.toTree
  | .arrow (a := a) _ hp _ he, h => by
    have ha : ∃ t ∈ ts, markOf a = markOf t := ⟨a, h a (by simp), rfl⟩
    refine fits_expr ⟨_, h _ (by simp), rfl⟩ rfl (.two (fits_params hp) ?_)
    refine fits_block ha (List.forall_mem_singleton.mpr ?_) (.inl rfl)
    exact fits_stmt ha rfl (.one (he.fits fun t ht => h t (by simp [ht])))
  | .lambda _ hp hb, h => fits_expr ⟨_, h _ (by simp), rfl⟩ rfl
      (.two (fits_params hp) (hb.fits (fun t ht => h t (by simp [ht])) (.inl rfl)))
  | .level hl, h => hl.fits (fun _ hops => mem_binaryKinds_of_precedence _ hops) h

theorem Level.fits {ls : List (List Kind)} {s : List Token} {e : Expr} :
    Level ls s e → (∀ ops ∈ ls, ∀ k ∈ ops, k ∈ binaryKinds) → (∀ t ∈ s, t ∈ ts) →
      Fits ts .expression e.toTree
  | .unary hu, _, h => hu.fits h
  | .single hl, hls, h => hl.fits (fun ops hops => hls ops (List.mem_cons_of_mem _ hops)) h
  | .join hl ho hr, hls, h => by
    refine fits_expr ⟨_, h _ (by simp), rfl⟩ rfl (.three ?_ ?_ ?_)
    · exact hl.fits hls fun t ht => h t (by simp [ht])
    · exact .leaf (.binary (hls _ List.mem_cons_self _ ho) _)
    · exact hr.fits (fun ops hops => hls ops (List.mem_cons_of_mem _ hops))
        fun t ht => h t (by simp [ht])

theorem Unary.fits {s : List Token} {e : Expr} :
    Unary s e → (∀ t ∈ s, t ∈ ts) → Fits ts .expression e.toTree
  | .signed ho hu, h => fits_expr ⟨_, h _ (by simp), rfl⟩ rfl
      (.two (.leaf (.unary (mem_unaryKinds_of_signed ho) _))
        (hu.fits fun t ht => h t (by simp [ht])))
  | .var _, h => fits_expr ⟨_, h _ (by simp), rfl⟩ rfl (.one (fits_name _))
  | .callNone _ _ _, h => fits_expr ⟨_, h _ (by simp), rfl⟩ rfl
      (.two (fits_name _) (fits_args (List.forall_mem_nil _)))
  | .call _ _ ha _, h => fits_expr ⟨_, h _ (by simp), rfl⟩ rfl
      (.two (fits_name _) (fits_args (ha.fits fun t ht => h t (by simp [ht]))))
  | .int _ _, h => fits_expr ⟨_, h _ (by simp), rfl⟩ rfl
      (.one (.leaf (.int _)))
  | .float _ _, h => fits_expr ⟨_, h _ (by simp), rfl⟩ rfl
      (.one (.leaf (.float _)))
  | .char _ hv, h => by
    obtain ⟨c, rfl⟩ := exists_singleton_of_charValue? hv
    exact fits_expr ⟨_, h _ (by simp), rfl⟩ rfl (.one (.leaf (.char c)))
  | .string _, h => fits_expr ⟨_, h _ (by simp), rfl⟩ rfl
      (.one (.leaf (.text _)))
  | .true _, h | .false _, h | .nil _, h =>
    fits_expr ⟨_, h _ (by simp), rfl⟩ rfl .done
  | .group _ he _, h => fits_expr ⟨_, h _ (by simp), rfl⟩ rfl
      (.one (he.fits fun t ht => h t (by simp [ht])))

theorem Arguments.fits {s : List Token} {args : List Expr} :
    Arguments s args → (∀ t ∈ s, t ∈ ts) → ∀ e ∈ args, Fits ts .expression e.toTree
  | .one he, h => List.forall_mem_singleton.mpr (he.fits h)
  | .more he _ ha, h => List.forall_mem_cons.mpr
      ⟨he.fits fun t ht => h t (by simp [ht]), ha.fits fun t ht => h t (by simp [ht])⟩

theorem Block.fits {p : Place} {s : List Token} {st : Stmt} :
    Block s st → (∀ t ∈ s, t ∈ ts) → (p = .block ∨ p = .statement ∨ p = .alternative) →
      Fits ts p st.toTree
  | .braces _ hb _, h, hp => fits_block ⟨_, h _ (by simp), rfl⟩
      (hb.fits fun t ht => h t (by simp [ht])) hp

theorem Items.fits {s : List Token} {body : List Stmt} :
    Items s body → (∀ t ∈ s, t ∈ ts) → ∀ st ∈ body, Fits ts .statement st.toTree
  | .nil, _ => List.forall_mem_nil _
  | .comment _ hb, h => hb.fits fun t ht => h t (by simp [ht])
  | .stmt hs hb, h => List.forall_mem_cons.mpr
      ⟨hs.fits fun t ht => h t (by simp [ht]), hb.fits fun t ht => h t (by simp [ht])⟩

theorem Branch.fits {p : Place} {s : List Token} {st : Stmt} :
    Branch s st → (∀ t ∈ s, t ∈ ts) → (p = .statement ∨ p = .alternative) → Fits ts p st.toTree
  | .plain _ ht hy, h, hp => fits_branch ⟨_, h _ (by simp), rfl⟩
      (ht.fits fun t hm => h t (by simp [hm])) (hy.fits (fun t hm => h t (by simp [hm])) (.inl rfl))
      .missing hp
  | .block _ ht hy _ hn, h, hp => fits_branch ⟨_, h _ (by simp), rfl⟩
      (ht.fits fun t hm => h t (by simp [hm])) (hy.fits (fun t hm => h t (by simp [hm])) (.inl rfl))
      (hn.fits (fun t hm => h t (by simp [hm])) (.inr (.inr rfl))) hp
  | .chain _ ht hy _ hn, h, hp => fits_branch ⟨_, h _ (by simp), rfl⟩
      (ht.fits fun t hm => h t (by simp [hm])) (hy.fits (fun t hm => h t (by simp [hm])) (.inl rfl))
      (hn.fits (fun t hm => h t (by simp [hm])) (.inr rfl)) hp

theorem Statement.fits {s : List Token} {st : Stmt} :
    Statement s st → (∀ t ∈ s, t ∈ ts) → Fits ts .statement st.toTree
  | .empty _, h => fits_stmt ⟨_, h _ (by simp), rfl⟩ rfl .done
  | .declareNil (l := l) _ _ _, h => by
    have hl : ∃ t ∈ ts, markOf l = markOf t := ⟨l, h l (by simp), rfl⟩
    refine fits_stmt hl rfl (.two (fits_name _) ?_)
    exact fits_expr hl rfl .done
  | .declare _ _ _ he _, h => fits_stmt ⟨_, h _ (by simp), rfl⟩ rfl
      (.two (fits_name _) (he.fits fun t ht => h t (by simp [ht])))
  | .assign _ _ he _, h => fits_stmt ⟨_, h _ (by simp), rfl⟩ rfl
      (.two (fits_name _) (he.fits fun t ht => h t (by simp [ht])))
  | .block hb, h => hb.fits h (.inr (.inl rfl))
  | .branch hb, h => hb.fits h (.inl rfl)
  | .loop _ ht hb, h => fits_stmt ⟨_, h _ (by simp), rfl⟩ rfl
      (.two (ht.fits fun t hm => h t (by simp [hm]))
        (hb.fits (fun t hm => h t (by simp [hm])) (.inl rfl)))
  | .define _ _ hp hb, h => fits_stmt ⟨_, h _ (by simp), rfl⟩ rfl
      (.three (fits_name _) (fits_params hp) (hb.fits (fun t ht => h t (by simp [ht])) (.inl rfl)))
  | .giveNil (k := k) _ _, h => by
    have hk : ∃ t ∈ ts, markOf k = markOf t := ⟨k, h k (by simp), rfl⟩
    exact fits_stmt hk rfl (.one (fits_expr hk rfl .done))
  | .give _ he _, h => fits_stmt ⟨_, h _ (by simp), rfl⟩ rfl
      (.one (he.fits fun t ht => h t (by simp [ht])))
  | .printNone _ _ _ _ _, h => fits_stmt ⟨_, h _ (by simp), rfl⟩ rfl
      (.two (.leaf (.text _)) (fits_args (List.forall_mem_nil _)))
  | .print _ _ _ _ ha _ _, h => fits_stmt ⟨_, h _ (by simp), rfl⟩ rfl
      (.two (.leaf (.text _)) (fits_args (ha.fits fun t ht => h t (by simp [ht]))))
  | .eval he _, h => by
    have hf : Fits ts .expression _ := he.fits fun t ht => h t (by simp [ht])
    exact fits_stmt hf.exists_mark rfl (.one hf)

end

end Grammar

/-- **The schema.** Every tree of a source that parses, whatever lexical problems it has, is a
statement as the schema has it, and so is everything within it: each node has a label that is
allowed where it stands, with just the children of that label, and carries the line and column of
one of the tokens of the source unless no token stands for it. -/
theorem Source.parse_fits {source : List UInt8} {body : List Stmt}
    (h : Source.parse source = .ok body) :
    ∀ t ∈ Stmt.toTrees body, Schema.Fits (scan source).tokens .statement t := by
  rw [Stmt.toTrees_eq_map]
  simp only [List.mem_map]
  rintro _ ⟨st, hst, rfl⟩
  exact (Source.items_of_parse h).fits (fun _ ht => ht) st hst

/-- A definition whose body is a chain of conditionals without a last alternative. -/
def Schema.chained : List UInt8 :=
  "fn f(a, b) \x7b if -a < 'c' \x7b \x7d else if not b \x7b \x7d \x7d".toList.flatMap
    String.utf8EncodeChar

theorem Source.parse_chained :
    Source.parse Schema.chained = .ok [.define (.place 1 1) "f" ["a", "b"] (.block (.place 1 12)
      [.branch (.place 1 14) (.binary (.place 1 20)
          (.unary (.place 1 17) ⟨.minus, "-"⟩ (.var (.place 1 18) "a")) ⟨.less, "<"⟩
          (.char (.place 1 22) "c"))
        (.block (.place 1 26) [])
        (.branch (.place 1 35) (.unary (.place 1 38) ⟨.notKw, "not"⟩ (.var (.place 1 42) "b"))
          (.block (.place 1 44) []) (.empty .absent))])] := rfl

/-- The chain obeys the schema. -/
theorem Source.parse_fits_chained :
    ∃ body, Source.parse Schema.chained = .ok body ∧
      ∀ t ∈ Stmt.toTrees body, Schema.Fits (scan Schema.chained).tokens .statement t :=
  ⟨_, Source.parse_chained, Source.parse_fits Source.parse_chained⟩

end Treewalk
