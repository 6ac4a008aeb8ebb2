import ApiSync.Proofs.Python.Words
import ApiSync.Python.Expression
/-!
# The names in an expression

An attribute of an object is named by a word of the source.  `Yields` says of a reader that its
results have a property as long as the words ahead are names, and that the words it leaves ahead are
names again.  It is put together along the steps of the reader.
-/

namespace ApiSync
namespace Python

/-! ## Names of attributes -/

mutual

/-- An expression that is an attribute is named by a name, and so is every target of an
assignment. -/
def Expr.Named : Expr → Prop
  | .mk _ form => form.Named

def Form.Named : Form → Prop
  | .attribute _ name => IsName name
  | .assignment target _ none => target.Named
  | .assignment target _ (some value) => target.Named ∧ value.Named
  | _ => True

end

namespace Read

variable {α β : Type} {P : α → Prop} {Q : β → Prop}

/-- With names ahead there are names ahead afterwards, and the result has the property. -/
def Yields (P : α → Prop) (r : Read α) : Prop :=
  ∀ p a q, r p = some (a, q) → AreNamed p.ahead → AreNamed q.ahead ∧ P a

/-- A reader of which only the move matters. -/
abbrev Passes (r : Read α) : Prop := Yields (fun _ => True) r

/-! ## Steps -/

theorem Yields.weaken {P' : α → Prop} {r : Read α} (h : Yields P r) (hP : ∀ a, P a → P' a) :
    Yields P' r :=
  fun p a q hr hp => (h p a q hr hp).imp_right (hP a)

theorem Yields.passes {r : Read α} (h : Yields P r) : Passes r := h.weaken fun _ _ => trivial

theorem yields_pure {a : α} (h : P a) : Yields P (pure a) := by
  intro p b q hr hp
  cases hr
  exact ⟨hp, h⟩

theorem passes_pure (a : α) : Passes (pure a) := yields_pure trivial

theorem yields_fail : Yields P (fail : Read α) := fun _ _ _ h => nomatch h

theorem Yields.bind {r : Read α} {k : α → Read β} (hr : Yields P r)
    (hk : ∀ a, P a → Yields Q (k a)) : Yields Q (r >>= k) := by
  intro p b q h hp
  obtain ⟨⟨a, m⟩, hm, hrest⟩ := Option.bind_eq_some_iff.mp h
  obtain ⟨hahead, ha⟩ := hr p a m hm hp
  exact hk a ha m b q hrest hahead

/-- A step of which the result does not matter. -/
theorem Yields.then {r : Read α} {k : α → Read β} (hr : Passes r) (hk : ∀ a, Yields Q (k a)) :
    Yields Q (r >>= k) :=
  hr.bind fun a _ => hk a

theorem Yields.seqRight {r : Read α} {k : Read β} (hr : Passes r) (hk : Yields Q k) :
    Yields Q (r *> k) :=
  Yields.bind (r := r) (k := fun _ => k) hr fun _ _ => hk

theorem Yields.seqLeft {r : Read α} {k : Read β} (hr : Yields P r) (hk : Passes k) :
    Yields P (r <* k) :=
  Yields.bind (r := r) (k := fun a => k >>= fun _ => pure a) hr fun _ ha =>
    hk.bind fun _ _ => yields_pure ha

theorem Yields.map {r : Read α} {f : α → β} (hr : Yields P r) (hf : ∀ a, P a → Q (f a)) :
    Yields Q (f <$> r) :=
  Yields.bind (r := r) (k := fun a => pure (f a)) hr fun a ha => yields_pure (hf a ha)

theorem Yields.orElse {r k : Read α} (hr : Yields P r) (hk : Yields P k) :
    Yields P (r <|> k) := by
  intro p a q h hp
  have hor : (r p).or (k p) = some (a, q) := by
    rw [← h]
    show _ = Option.orElse (r p) fun _ => k p
    cases r p <;> rfl
  rcases Option.or_eq_some_iff.mp hor with hfirst | ⟨-, hsecond⟩
  · exact hr p a q hfirst hp
  · exact hk p a q hsecond hp

theorem yields_ite {c : Prop} [Decidable c] {r k : Read α} (hr : Yields P r) (hk : Yields P k) :
    Yields P (if c then r else k) := by
  split
  · exact hr
  · exact hk

theorem yields_get : Yields (fun p : Position => AreNamed p.ahead) (get : Read Position) := by
  intro p a q h hp
  cases h
  exact ⟨hp, hp⟩

theorem passes_set {p : Position} (h : AreNamed p.ahead) : Passes (set p : Read PUnit) := by
  intro m a q hr _
  cases hr
  exact ⟨h, trivial⟩

/-! ## Readers of tokens -/

theorem passes_peek : Passes peek := by
  refine yields_get.passes.then fun s => ?_
  split
  · exact passes_pure _
  · exact yields_fail

/-- A token that is taken is a name if it is a word. -/
theorem yields_advance : Yields (fun t => ∀ text, t.kind = .word text → IsName text) advance := by
  refine yields_get.bind fun s hs => ?_
  split
  · next t ts hahead =>
    rw [hahead] at hs
    exact Yields.then (passes_set (List.forall_mem_cons.mp hs).2) fun _ =>
      yields_pure (hs t List.mem_cons_self)
  · exact yields_fail

theorem passes_advance : Passes advance := yields_advance.passes

theorem passes_kind (k : TokenKind) : Passes (kind k) :=
  passes_advance.then fun _ => yields_ite (passes_pure _) yields_fail

theorem passes_op (text : String) : Passes (op text) := passes_kind _

theorem passes_word (text : String) : Passes (word text) := passes_kind _

theorem yields_anyWord : Yields IsName anyWord := by
  refine yields_advance.bind fun t ht => ?_
  split
  · next text htext => exact yields_pure (ht text htext)
  · exact yields_fail

theorem passes_anyWord : Passes anyWord := yields_anyWord.passes

theorem passes_isOp (text : String) : Passes (isOp text) := passes_peek.then fun _ => passes_pure _

theorem passes_isWord (text : String) : Passes (isWord text) :=
  passes_peek.then fun _ => passes_pure _

theorem passes_anyOp (texts : List String) : Passes (anyOp texts) := by
  refine passes_advance.then fun t => ?_
  split
  · exact yields_ite (passes_pure _) yields_fail
  · exact yields_fail

/-! ## Repeated readers -/

theorem passes_taken {r : Read α} (h : Passes r) : Passes (taken r) :=
  (h.seqRight (passes_pure true)).orElse (passes_pure false)

theorem yields_optional {r : Read α} (h : Yields P r) :
    Yields (fun o => ∀ a ∈ o, P a) (optional r) := by
  refine Yields.orElse (h.map fun a ha b hb => ?_) (yields_pure fun _ hb => nomatch hb)
  rw [← Option.some.inj hb]
  exact ha

theorem passes_optional {r : Read α} (h : Passes r) : Passes (optional r) :=
  (yields_optional h).passes

theorem yields_manyUpTo {r : Read α} (h : Yields P r) (n : Nat) :
    Yields (fun items => ∀ a ∈ items, P a) (manyUpTo n r) := by
  induction n with
  | zero => exact yields_pure fun _ ha => absurd ha List.not_mem_nil
  | succ n ih =>
    refine (yields_optional h).bind fun first hfirst => ?_
    split
    · exact yields_pure fun _ ha => absurd ha List.not_mem_nil
    · next x =>
      exact ih.bind fun items hitems =>
        yields_pure (List.forall_mem_cons.mpr ⟨hfirst x rfl, hitems⟩)

theorem yields_many {r : Read α} (h : Yields P r) :
    Yields (fun items => ∀ a ∈ items, P a) (many r) :=
  yields_get.passes.then fun _ => yields_manyUpTo h _

theorem passes_many {r : Read α} (h : Passes r) : Passes (many r) := (yields_many h).passes

theorem yields_commaList {r : Read α} (h : Yields P r) :
    Yields (fun list => ∀ a ∈ list.1, P a) (commaList r) :=
  h.bind fun _ hfirst => (yields_many ((passes_op ",").seqRight h)).bind fun _ hrest =>
    (passes_taken (passes_op ",")).then fun _ =>
      yields_pure (List.forall_mem_cons.mpr ⟨hfirst, hrest⟩)

theorem passes_commaList {r : Read α} (h : Passes r) : Passes (commaList r) :=
  (yields_commaList h).passes

end Read

open Read

/-! ## Rules of the grammar -/

namespace Context

/-- The reader of smaller expressions gives named ones. -/
def ReadsNamed (ctx : Context) : Prop := ∀ goal, Yields Expr.Named (ctx.read goal)

theorem passes_startOf : Passes startOf := by
  refine yields_get.passes.then fun s => ?_
  split
  · exact passes_pure _
  · exact yields_fail

theorem yields_finish (ctx : Context) (start : Nat) {form : Form} (h : form.Named) :
    Yields Expr.Named (ctx.finish start form) :=
  yields_get.passes.then fun _ => yields_pure h

theorem yields_finish_other (ctx : Context) (start : Nat) :
    Yields Expr.Named (ctx.finish start .other) :=
  yields_get.passes.then fun _ => yields_pure trivial

theorem yields_spanned (ctx : Context) {r : Read Form} (h : Yields Form.Named r) :
    Yields Expr.Named (ctx.spanned r) :=
  passes_startOf.then fun start => h.bind fun _ hform => ctx.yields_finish start hform

theorem yields_asGroup (ctx : Context) (start : Nat) {list : List Expr × Bool}
    (h : ∀ e ∈ list.1, e.Named) : Yields Expr.Named (ctx.asGroup start list) := by
  unfold asGroup
  split
  · exact yields_pure (h _ List.mem_cons_self)
  · exact ctx.yields_finish_other start

theorem yields_ellipsis : Yields Form.Named ellipsis :=
  passes_advance.then fun _ => passes_advance.then fun _ => passes_advance.then fun _ =>
    yields_ite (yields_pure trivial) yields_fail

theorem yields_wordForm (text : String) : Yields Form.Named (wordForm text) := by
  unfold wordForm
  split
  · exact yields_pure trivial
  · exact yields_pure trivial
  · exact yields_pure trivial
  · exact yields_fail
  · exact yields_fail
  · exact yields_fail
  · exact yields_pure trivial

theorem passes_isSplatStart : Passes isSplatStart := by
  refine yields_get.passes.then fun s => ?_
  split
  · split
    · exact passes_pure _
    · exact passes_pure _
  · exact passes_pure _

theorem yields_joined (ctx : Context) {operator : Read Unit} {r : Read Expr} (ho : Passes operator)
    (hr : Yields Expr.Named r) : Yields Expr.Named (ctx.joined operator r) :=
  passes_startOf.then fun start => hr.bind fun _ hfirst =>
    (passes_many (ho.seqRight hr.passes)).then fun _ =>
    yields_ite (yields_pure hfirst) (ctx.yields_finish_other start)

theorem passes_comparisonOperator : Passes comparisonOperator := by
  have hsign : Passes (anyOp ["<", "<=", "==", "!=", ">=", ">", "<>"] *> (pure () : Read Unit)) :=
    (passes_anyOp _).seqRight (passes_pure ())
  have hnotIn : Passes (word "not" *> word "in") := (passes_word "not").seqRight (passes_word "in")
  have his : Passes (word "is" *> optional (word "not") *> (pure () : Read Unit)) :=
    ((passes_word "is").seqRight (passes_optional (passes_word "not"))).seqRight (passes_pure ())
  exact hsign.orElse ((passes_word "in").orElse (hnotIn.orElse his))

namespace ReadsNamed

variable {ctx : Context} (h : ctx.ReadsNamed)

include h

theorem expression : Yields Expr.Named ctx.expression := h .expression

/-! ### Strings -/

theorem expressionList : Yields Expr.Named ctx.expressionList :=
  passes_startOf.then fun start => (yields_commaList h.expression).bind fun _ hlist =>
    ctx.yields_asGroup start hlist

theorem yieldForm : Yields Form.Named ctx.yieldForm := by
  have hfrom : Passes (word "from" *> ctx.expression *> (pure () : Read Unit)) :=
    ((passes_word "from").seqRight h.expression.passes).seqRight (passes_pure ())
  have hlist : Passes (ctx.expressionList *> (pure () : Read Unit)) :=
    h.expressionList.passes.seqRight (passes_pure ())
  exact (passes_word "yield").then fun _ =>
    (hfrom.orElse (hlist.orElse (passes_pure ()))).then fun _ => yields_pure trivial

theorem yieldOr {r : Read Expr} (hr : Yields Expr.Named r) : Yields Expr.Named (ctx.yieldOr r) :=
  (passes_isWord "yield").then fun _ => yields_ite (ctx.yields_spanned h.yieldForm) hr

theorem fieldForm : Yields Form.Named ctx.fieldForm := by
  refine (passes_kind .fieldOpen).then fun _ => (h.yieldOr h.expressionList).passes.then fun _ =>
    (passes_optional (passes_op "=")).then fun _ =>
    (passes_optional (passes_kind .conversion)).then fun _ =>
    (passes_taken (passes_kind .formatOpen)).then fun format => ?_
  extract_lets close
  have hclose : ∀ u, Yields Form.Named (close u) := fun _ =>
    (passes_kind .fieldClose).then fun _ => yields_pure trivial
  split
  · exact (passes_many (h .field).passes).then fun _ => hclose ()
  · exact hclose ()

theorem stringPiece : Passes ctx.stringPiece :=
  passes_startOf.then fun _ => (passes_kind .stringOpen).then fun _ =>
    (passes_many (h .field).passes).then fun _ => (passes_kind .stringClose).then fun _ =>
    yields_get.passes.then fun _ => passes_pure _

/-! ### Brackets -/

theorem target : Yields Expr.Named ctx.target :=
  (h .operand).bind fun _ he => yields_ite (yields_pure he) yields_fail

theorem nextTarget : Yields Expr.Named ctx.nextTarget :=
  (passes_op ",").then fun _ => (passes_isWord "in").then fun _ => yields_ite yields_fail h.target

theorem targets : Yields Expr.Named ctx.targets :=
  passes_startOf.then fun start => h.target.bind fun _ hfirst =>
    (yields_many h.nextTarget).bind fun _ hrest => (passes_taken (passes_op ",")).then fun _ =>
    ctx.yields_asGroup start (List.forall_mem_cons.mpr ⟨hfirst, hrest⟩)

theorem forClause : Passes ctx.forClause :=
  (passes_optional (passes_word "async")).then fun _ => (passes_word "for").then fun _ =>
    h.targets.passes.then fun _ => (passes_word "in").then fun _ =>
    (passes_commaList h.expression.passes).then fun _ => passes_pure _

theorem ifClause : Passes ctx.ifClause :=
  ((passes_word "if").seqRight h.expression.passes).seqRight (passes_pure ())

theorem comprehension : Passes ctx.comprehension :=
  h.forClause.then fun _ => (passes_many (h.forClause.orElse h.ifClause)).then fun _ =>
    passes_pure _

theorem element : Yields Expr.Named ctx.element := by
  have hsplat : Yields Form.Named (op "*" *> ctx.expression >>= fun e => pure (.splat e)) :=
    ((passes_op "*").seqRight h.expression.passes).then fun _ => yields_pure trivial
  exact (passes_isOp "*").then fun _ =>
    yields_ite (ctx.yields_spanned hsplat) (h.yieldOr h.expression)

theorem parenthesized : Yields Form.Named ctx.parenthesized := by
  refine (passes_op "(").then fun _ => (passes_taken (passes_op ")")).then fun _ =>
    yields_ite (yields_pure trivial) ?_
  refine h.element.passes.then fun first => (passes_taken (passes_op ")")).then fun _ =>
    yields_ite (yields_pure trivial) ?_
  refine (passes_taken h.comprehension).then fun _ =>
    yields_ite ((passes_op ")").then fun _ => yields_pure trivial) ?_
  exact (passes_many ((passes_op ",").seqRight h.element.passes)).then fun _ =>
    (passes_taken (passes_op ",")).then fun _ => (passes_op ")").then fun _ =>
    yields_ite yields_fail (yields_pure trivial)

theorem bracketed : Yields Form.Named ctx.bracketed := by
  refine (passes_op "[").then fun _ => (passes_taken (passes_op "]")).then fun _ =>
    yields_ite (yields_pure trivial) ?_
  refine h.element.passes.then fun first => (passes_taken h.comprehension).then fun _ =>
    yields_ite ((passes_op "]").then fun _ => yields_pure trivial) ?_
  exact (passes_many ((passes_op ",").seqRight h.element.passes)).then fun _ =>
    (passes_optional (passes_op ",")).then fun _ => (passes_op "]").then fun _ =>
    yields_pure trivial

theorem dictEntry : Passes ctx.dictEntry := by
  refine (passes_taken (passes_op "**")).then fun _ =>
    yields_ite (h.expression.passes.then fun _ => passes_pure _) ?_
  exact h.expression.passes.then fun _ => (passes_op ":").then fun _ =>
    h.expression.passes.then fun _ => passes_pure _

theorem dictRest (first : DictEntry) : Yields Form.Named (ctx.dictRest first) :=
  (passes_many ((passes_op ",").seqRight h.dictEntry)).then fun _ =>
    (passes_optional (passes_op ",")).then fun _ => (passes_op _).then fun _ => yields_pure trivial

theorem braced : Yields Form.Named ctx.braced := by
  refine (passes_op _).then fun _ =>
    (passes_taken ((passes_optional (passes_op ",")).seqRight (passes_op _))).then fun _ =>
    yields_ite (yields_pure trivial) ?_
  refine (passes_isOp "**").then fun _ =>
    yields_ite (h.dictEntry.then fun first => h.dictRest first) ?_
  refine h.element.passes.then fun first => (passes_taken (passes_op ":")).then fun _ =>
    yields_ite ?_ ?_
  · refine h.expression.passes.then fun _ => (passes_taken h.comprehension).then fun _ =>
      yields_ite ((passes_op _).then fun _ => yields_pure trivial) (h.dictRest _)
  · refine (passes_taken h.comprehension).then fun _ => ?_
    extract_lets close
    have hclose : ∀ u, Yields Form.Named (close u) := fun _ =>
      (passes_op _).then fun _ => yields_pure trivial
    refine yields_ite ?_ (hclose ())
    exact (passes_many ((passes_op ",").seqRight h.element.passes)).then fun _ =>
      (passes_optional (passes_op ",")).then fun _ => hclose ()

/-! ### Trailers -/

theorem argument : Passes ctx.argument := by
  refine (passes_isOp "*").then fun _ =>
    yields_ite (h.element.passes.then fun _ => passes_pure _) ?_
  refine (passes_taken (passes_op "**")).then fun _ =>
    yields_ite (h.expression.passes.then fun _ => passes_pure _) ?_
  extract_lets keyword
  have hkeyword : Passes keyword := by
    refine passes_anyWord.then fun name => (passes_op "=").then fun _ => ?_
    extract_lets value
    have hvalue : ∀ u, Passes (value u) := fun _ => h.expression.passes.then fun _ => passes_pure _
    exact yields_ite (Yields.then yields_fail hvalue) (hvalue ())
  exact hkeyword.orElse (h.expression.map fun _ _ => trivial)

theorem argumentList : Passes ctx.argumentList := by
  refine passes_startOf.then fun start => (passes_op "(").then fun _ =>
    (passes_optional h.argument).then fun first => ?_
  split
  · exact (passes_optional (passes_op ",")).then fun _ => (passes_op ")").then fun _ =>
      passes_pure _
  · refine (passes_taken h.comprehension).then fun _ => yields_ite ?_ ?_
    · exact (passes_op ")").then fun _ => (ctx.yields_finish_other start).passes.then fun _ =>
        passes_pure _
    · exact (passes_many ((passes_op ",").seqRight h.argument)).then fun _ =>
        (passes_optional (passes_op ",")).then fun _ => (passes_op ")").then fun _ =>
        passes_pure _

theorem sliceItem : Passes ctx.sliceItem := by
  have hexpression := h.expression.passes
  refine (passes_taken (((passes_op "*").orElse (passes_op "**")).seqRight hexpression)).then
    fun _ => yields_ite (passes_pure _) ?_
  refine (passes_taken hexpression).then fun low => (passes_taken (passes_op ":")).then fun _ =>
    yields_ite ?_ (yields_ite yields_fail (passes_pure _))
  refine (passes_optional hexpression).then fun _ => (passes_taken (passes_op ":")).then fun _ =>
    yields_ite ?_ (passes_pure _)
  exact (passes_optional hexpression).then fun _ => passes_pure _

/-- The name of an attribute is a word. -/
theorem trailer (object : Expr) : Yields Form.Named (ctx.trailer object) := by
  refine passes_peek.then fun kind => ?_
  split
  · exact ((passes_op ".").seqRight yields_anyWord).bind fun _ hname => yields_pure hname
  · exact (passes_op "[").then fun _ => (passes_commaList h.sliceItem).then fun _ =>
      (passes_op "]").then fun _ => yields_pure trivial
  · exact h.argumentList.then fun _ => yields_pure trivial
  · exact yields_fail

theorem trailersFrom (start n : Nat) {e : Expr} (he : e.Named) :
    Yields Expr.Named (ctx.trailersFrom start n e) := by
  induction n generalizing e with
  | zero => exact yields_pure he
  | succ n ih =>
    refine (yields_optional (h.trailer e)).bind fun found hfound => ?_
    split
    · exact yields_pure he
    · next form => exact (ctx.yields_finish start (hfound form rfl)).bind fun _ hnext => ih hnext

/-! ### Atoms -/

theorem atom : Yields Form.Named ctx.atom := by
  refine passes_peek.then fun kind => ?_
  split
  · next text => exact passes_advance.seqRight (yields_wordForm text)
  · exact passes_advance.seqRight (yields_pure trivial)
  · exact passes_advance.seqRight (yields_pure trivial)
  · exact h.stringPiece.then fun _ => (passes_many h.stringPiece).then fun _ => yields_pure trivial
  · exact h.parenthesized
  · exact h.bracketed
  · exact h.braced
  · exact yields_ellipsis
  · exact yields_fail

/-! ### Operators -/

theorem primary : Yields Expr.Named ctx.primary :=
  passes_startOf.then fun start => (ctx.yields_spanned h.atom).bind fun _ hfirst =>
    yields_get.passes.then fun _ => h.trailersFrom start _ hfirst

theorem unary : Yields Form.Named
    (do let sign ← anyOp ["-", "+", "~"]; return .unary sign (← ctx.read .operand)) :=
  (passes_anyOp _).then fun _ => (h .operand).passes.then fun _ => yields_pure trivial

theorem operand : Yields Expr.Named ctx.operand := by
  refine passes_startOf.then fun start => passes_peek.then fun kind => ?_
  split
  · exact ctx.yields_spanned h.unary
  · exact ctx.yields_spanned h.unary
  · exact ctx.yields_spanned h.unary
  · refine passes_isSplatStart.then fun _ => yields_ite (ctx.yields_spanned ?_) yields_fail
    exact Yields.then ((passes_op "*").seqRight h.primary.passes) fun _ => yields_pure trivial
  · extract_lets awaited
    have hawaited : Yields Expr.Named awaited := by
      refine ctx.yields_spanned (Yields.seqRight ?_ (yields_pure trivial))
      exact (passes_word "await").seqRight (h .operand).passes
    refine hawaited.orElse (h.primary.bind fun base hbase => ?_)
    exact (passes_taken (passes_op "**")).then fun _ =>
      yields_ite ((h .operand).passes.then fun _ => ctx.yields_finish_other start)
        (yields_pure hbase)

theorem comparison : Yields Expr.Named ctx.comparison :=
  ctx.yields_joined passes_comparisonOperator
    (ctx.yields_joined ((passes_anyOp _).seqRight (passes_pure ())) h.operand)

theorem parameter (typed : Bool) {pattern : Read Expr} (hp : Passes pattern) :
    Passes (ctx.parameter typed pattern) := by
  unfold Context.parameter
  extract_lets annotation default
  have hannotation : Passes annotation := yields_ite
    ((passes_optional ((passes_op ":").seqRight h.element.passes)).seqRight (passes_pure ()))
    (passes_pure ())
  have hdefault : Passes default :=
    (passes_optional ((passes_op "=").seqRight h.expression.passes)).seqRight (passes_pure ())
  refine passes_peek.then fun kind => ?_
  split
  · exact (passes_op "*").then fun _ => (passes_taken hp).then fun _ =>
      yields_ite hannotation (passes_pure _)
  · exact ((passes_op "**").seqRight hp).seqRight hannotation
  · exact passes_op "/"
  · exact (passes_anyWord.seqRight hannotation).seqRight hdefault
  · exact hp.then fun _ => yields_ite hdefault yields_fail
  · exact yields_fail

theorem lambda : Yields Form.Named ctx.lambda := by
  refine (passes_word "lambda").then fun _ => (passes_isOp ":").then fun _ => ?_
  extract_lets body
  have hbody : ∀ u, Yields Form.Named (body u) := fun _ =>
    (passes_op ":").then fun _ => h.expression.passes.then fun _ => yields_pure trivial
  refine yields_ite ?_ (hbody ())
  exact (passes_commaList (h.parameter false (h .operand).passes)).then fun _ => hbody ()

theorem negation : Yields Form.Named ctx.negation :=
  (passes_word "not").then fun _ => (h .disjunction).passes.then fun _ => yields_pure trivial

theorem inversion : Yields Expr.Named ctx.inversion :=
  (passes_isWord "not").then fun _ => yields_ite (ctx.yields_spanned h.negation) <|
    (passes_isWord "lambda").then fun _ => yields_ite (ctx.yields_spanned h.lambda) h.comparison

theorem disjunction : Yields Expr.Named ctx.disjunction :=
  ctx.yields_joined (passes_word "or") (ctx.yields_joined (passes_word "and") h.inversion)

theorem namedForm : Yields Form.Named ctx.namedForm :=
  passes_anyWord.then fun name => (passes_op ":=").then fun _ => (yields_wordForm name).passes.then
    fun _ => h.expression.passes.then fun _ => yields_pure trivial

theorem plainExpression : Yields Expr.Named ctx.plainExpression := by
  refine passes_startOf.then fun start => h.disjunction.bind fun first hfirst => ?_
  extract_lets condition
  have hcondition : Passes condition :=
    (passes_word "if").then fun _ => h.expression.passes.then fun _ =>
      (passes_word "else").then fun _ => h.expression.passes.then fun _ => passes_pure _
  exact (passes_taken hcondition).then fun _ =>
    (passes_taken ((passes_word "as").seqRight h.expression.passes)).then fun _ =>
    yields_ite (ctx.yields_finish_other start) (yields_pure hfirst)

theorem fullExpression : Yields Expr.Named ctx.fullExpression :=
  (ctx.yields_spanned h.namedForm).orElse h.plainExpression

end ReadsNamed
end Context

/-- Expressions nested to any depth are named. -/
theorem readsNamed_readGoal (source : Array Char) (fuel : Nat) :
    Context.ReadsNamed ⟨source, readGoal source fuel⟩ := by
  induction fuel with
  | zero => exact fun _ => yields_fail
  | succ fuel ih =>
    intro goal
    cases goal with
    | expression => exact ih.fullExpression
    | disjunction => exact ih.disjunction
    | operand => exact ih.operand
    | field => exact Context.yields_spanned _ ih.fieldForm

end Python
end ApiSync
