import ApiSync.Proofs.Python.Reading
import ApiSync.Python.Module
/-!
# The names in a module

Whatever a module assigns to attributes of an object, at any depth of its definitions, it assigns to
names.  The readers of statements are followed as those of expressions are.
-/

namespace ApiSync
namespace Python

open Read

mutual

/-- All expressions that stand as statements are named, those in definitions as well. -/
def Statement.Named : Statement → Prop
  | .expression children => ∀ e ∈ children, e.Named
  | .definition d => d.Named
  | _ => True

def Definition.Named : Definition → Prop
  | .mk _ _ _ _ _ body => BodyNamed body

def BodyNamed : List Statement → Prop
  | [] => True
  | s :: ss => s.Named ∧ BodyNamed ss

end

theorem bodyNamed_iff {body : List Statement} : BodyNamed body ↔ ∀ s ∈ body, s.Named := by
  induction body with
  | nil => exact ⟨fun _ _ hs => absurd hs List.not_mem_nil, fun _ => trivial⟩
  | cons s body ih => rw [BodyNamed, ih, List.forall_mem_cons]

theorem BodyNamed.append {a b : List Statement} (ha : BodyNamed a) (hb : BodyNamed b) :
    BodyNamed (a ++ b) := by
  rw [bodyNamed_iff] at ha hb ⊢
  exact fun s hs => (List.mem_append.mp hs).elim (ha s) (hb s)

theorem Definition.Named.body {d : Definition} (h : d.Named) : BodyNamed d.body := by
  cases d
  exact h

theorem Definition.Named.withDecorators {d : Definition} (h : d.Named) (ds : List Expr) :
    (d.withDecorators ds).Named := by
  cases d
  exact h

/-- A definition among the statements is named. -/
theorem BodyNamed.definition {body : List Statement} (h : BodyNamed body) {kind : DefinitionKind}
    {d : Definition} (hd : d ∈ body.filterMap (definitionOf kind)) : d.Named := by
  obtain ⟨s, hs, hof⟩ := List.mem_filterMap.mp hd
  have hnamed := bodyNamed_iff.mp h s hs
  unfold definitionOf at hof
  split at hof
  · split at hof
    · cases hof
      exact hnamed
    · cases hof
  · cases hof

/-! ## Simple statements -/

namespace Context

theorem passes_atEnd : Passes atEnd := by
  refine passes_peek.then fun kind => ?_
  split
  · exact passes_pure _
  · exact passes_pure _
  · exact yields_fail

/-- An assignment whose target and value are named, if there is a value. -/
theorem yields_assignment (ctx : Context) (start : Nat) {target : Expr} (ht : target.Named)
    (type : Option Expr) {value : Option Expr} (hv : ∀ e ∈ value, e.Named) :
    Yields Expr.Named (ctx.finish start (.assignment target type value)) := by
  cases value with
  | none => exact ctx.yields_finish start ht
  | some e => exact ctx.yields_finish start ⟨ht, hv e rfl⟩

/-- A statement of one expression. -/
theorem yields_child {e : Expr} (he : e.Named) :
    Yields Statement.Named (pure (.expression [e])) :=
  yields_pure fun _ ha => List.mem_singleton.mp ha ▸ he

theorem passes_dottedName (ctx : Context) : Passes ctx.dottedName :=
  passes_startOf.then fun _ => passes_anyWord.then fun _ =>
    (passes_many ((passes_op ".").seqRight passes_anyWord)).then fun _ =>
    yields_get.passes.then fun _ => passes_pure _

theorem passes_importedName (ctx : Context) : Passes ctx.importedName := by
  refine ctx.passes_dottedName.then fun name =>
    (passes_optional ((passes_word "as").seqRight passes_anyWord)).then fun bound => ?_
  split
  · exact passes_pure _
  · exact passes_pure _

theorem passes_importedNames (ctx : Context) : Passes ctx.importedNames := by
  have hlist := passes_commaList ctx.passes_importedName
  refine (passes_taken (passes_op "*")).then fun _ => yields_ite (passes_pure _) ?_
  refine (passes_taken (passes_op "(")).then fun _ => yields_ite ?_ ?_
  · exact hlist.then fun _ => (passes_op ")").then fun _ => passes_pure _
  · exact hlist.then fun _ => passes_pure _

theorem passes_leadingDots : Passes leadingDots :=
  passes_startOf.then fun _ => (passes_many (passes_op ".")).then fun _ =>
    yields_ite (passes_pure _) (yields_get.passes.then fun _ => passes_pure _)

theorem yields_fromImport (ctx : Context) : Yields Statement.Named ctx.fromImport := by
  refine (passes_word "from").then fun _ => passes_leadingDots.then fun level =>
    (passes_isWord "import").then fun _ => ?_
  extract_lets rest
  have hrest : ∀ module, Yields Statement.Named (rest module) := fun module =>
    (passes_word "import").then fun _ => ctx.passes_importedNames.then fun names =>
      yields_ite (yields_pure trivial) (yields_pure trivial)
  refine yields_ite (yields_ite ?_ ?_) ?_
  · exact Yields.then yields_fail hrest
  · exact (passes_pure _).then hrest
  · exact (ctx.passes_dottedName.map fun _ _ => trivial).then hrest

/-- Taking the line break changes the indentation and leaves the tokens. -/
theorem passes_lineEnd : Passes lineEnd := by
  refine passes_advance.then fun t => ?_
  split
  · intro p a q hr hp
    cases hr
    exact ⟨hp, trivial⟩
  · exact yields_fail

namespace ReadsNamed

variable {ctx : Context} (h : ctx.ReadsNamed)

include h

theorem typeExpression : Yields Expr.Named ctx.typeExpression := by
  refine (passes_isOp "**").then fun _ => yields_ite (ctx.yields_spanned ?_) h.element
  exact ((passes_op "**").seqRight passes_anyWord).seqRight (yields_pure trivial)

theorem rightSide (n : Nat) : Yields Expr.Named (ctx.rightSide n) := by
  induction n with
  | zero => exact yields_fail
  | succ n ih =>
    refine h.yieldOr (passes_startOf.then fun start =>
      (yields_commaList h.expression).bind fun list hlist => ?_)
    refine (ctx.yields_asGroup start hlist).bind fun left hleft => yields_ite ?_ (yields_pure hleft)
    refine (passes_taken (passes_op "=")).then fun _ => yields_ite ?_ ?_
    · exact ih.bind fun value hvalue => ctx.yields_assignment start hleft none fun e he =>
        Option.some.inj he ▸ hvalue
    refine (passes_taken (passes_op ":")).then fun _ => yields_ite ?_ ?_
    · exact h.typeExpression.passes.then fun type =>
        (yields_optional ((passes_op "=").seqRight ih)).bind fun value hvalue =>
        ctx.yields_assignment start hleft (some type) hvalue
    refine (passes_taken (passes_anyOp _)).then fun _ => yields_ite ?_ (yields_pure hleft)
    exact ih.passes.then fun _ => ctx.yields_finish_other start

theorem right : Yields Expr.Named ctx.right := yields_get.passes.then fun _ => h.rightSide _

theorem expressionStatement : Yields Statement.Named ctx.expressionStatement := by
  refine (passes_isWord "yield").then fun _ => yields_ite ?_ ?_
  · exact (ctx.yields_spanned h.yieldForm).bind fun e he => yields_child he
  refine passes_startOf.then fun start => (yields_commaList h.expression).bind fun list hlist =>
    yields_ite ?_ (yields_pure hlist)
  refine (ctx.yields_asGroup start hlist).bind fun left hleft =>
    (passes_taken (passes_op "=")).then fun _ => yields_ite ?_ ?_
  · exact h.right.bind fun value hvalue =>
      (ctx.yields_assignment start hleft none fun e he => Option.some.inj he ▸ hvalue).bind
        fun e he => yields_child he
  refine (passes_taken (passes_op ":")).then fun _ => yields_ite ?_ ?_
  · exact h.typeExpression.passes.then fun type =>
      (yields_optional ((passes_op "=").seqRight h.right)).bind fun value hvalue =>
      (ctx.yields_assignment start hleft (some type) hvalue).bind fun e he => yields_child he
  refine (passes_taken (passes_anyOp _)).then fun _ => yields_ite ?_ (yields_pure hlist)
  exact h.right.passes.then fun _ => (ctx.yields_finish_other start).bind fun e he =>
    yields_child he

theorem wordStatement : Yields Statement.Named ctx.wordStatement := by
  have hlist := passes_commaList h.expression.passes
  refine passes_anyWord.then fun text => ?_
  split
  · exact (passes_optional (passes_op ">>")).then fun _ => hlist.then fun _ => yields_pure trivial
  · exact (h.stringPiece.orElse passes_anyWord).then fun _ =>
      (passes_taken (passes_word "in")).then fun _ =>
      yields_ite (hlist.then fun _ => yields_pure trivial) (yields_pure trivial)
  · exact h.expression.passes.then fun _ => (passes_op "=").then fun _ =>
      h.expression.passes.then fun _ => yields_pure trivial
  · exact yields_fail

/-- A statement that starts with a keyword is no expression. -/
theorem keywordStatement {text : String} {r : Read Statement}
    (hr : ctx.keywordStatement text = some r) : Yields Statement.Named r := by
  unfold Context.keywordStatement at hr
  extract_lets list names other cause at hr
  have hexpression := h.expression.passes
  have hlist : Passes list := h.expressionList.passes.seqRight (passes_pure ())
  have hnames : Passes names := (passes_commaList passes_anyWord).seqRight (passes_pure ())
  have hcause : ∀ u, Passes (cause u) := fun _ =>
    (passes_taken (passes_word "from")).then fun _ =>
      yields_ite (hexpression.then fun _ => passes_pure _) (passes_pure _)
  have hother : ∀ {p : Read Unit}, Passes p → other p = some r → Yields Statement.Named r := by
    intro p hp heq
    rw [← Option.some.inj heq]
    exact (passes_advance.seqRight hp).seqRight (yields_pure trivial)
  split at hr
  · exact hother ((passes_commaList ctx.passes_importedName).seqRight (passes_pure ())) hr
  · rw [← Option.some.inj hr]
    exact ctx.yields_fromImport
  · rw [← Option.some.inj hr]
    exact passes_advance.seqRight ((passes_optional h.expressionList.passes).map fun _ _ => trivial)
  · exact hother hlist hr
  · have hlead := (passes_optional h.expressionList.passes).then fun _ => hcause ()
    exact hother ((passes_isWord "from").then fun _ => yields_ite hlead (hcause ())) hr
  · exact hother (passes_pure ()) hr
  · exact hother (passes_pure ()) hr
  · exact hother (passes_pure ()) hr
  · exact hother hnames hr
  · exact hother hnames hr
  · exact hother ((passes_commaList hexpression).then fun _ =>
      yields_ite yields_fail (passes_pure _)) hr
  · cases hr

theorem simpleStatement : Yields Statement.Named ctx.simpleStatement := by
  unfold Context.simpleStatement
  extract_lets plain
  have hplain : Yields Statement.Named plain :=
    (h.expressionStatement.seqLeft passes_atEnd).orElse (h.wordStatement.seqLeft passes_atEnd)
  refine passes_peek.then fun kind => ?_
  split
  · split
    · next r hr => exact (h.keywordStatement hr).seqLeft passes_atEnd
    · exact hplain
  · exact hplain

theorem simpleLine : Yields BodyNamed ctx.simpleLine :=
  h.simpleStatement.bind fun _ hfirst =>
    (yields_many ((passes_op ";").seqRight h.simpleStatement)).bind fun _ hrest =>
    (passes_optional (passes_op ";")).then fun _ => passes_lineEnd.then fun _ =>
    yields_pure ⟨hfirst, bodyNamed_iff.mpr hrest⟩

end ReadsNamed
end Context

/-! ## Compound statements -/

namespace Blocks

open Context

/-- The readers of expressions and of blocks give named ones. -/
structure ReadsNamed (b : Blocks) : Prop where
  ctx : b.ctx.ReadsNamed
  read : ∀ top, Yields BodyNamed (b.read top)

theorem passes_clause (top : Nat) (text : String) : Passes (clause top text) :=
  yields_get.passes.then fun _ => passes_peek.then fun _ => passes_pure _

theorem passes_rowOf : Passes rowOf := by
  refine yields_get.passes.then fun s => ?_
  split
  · exact passes_pure _
  · exact yields_fail

theorem skipPattern_subset {depth : Nat} {ts us : List Token}
    (h : skipPattern depth ts = some us) : us ⊆ ts := by
  induction ts generalizing depth with
  | nil => cases h
  | cons t ts ih =>
    have hlater : ∀ {d : Nat}, skipPattern d ts = some us → us ⊆ t :: ts :=
      fun hd => List.subset_cons_of_subset t (ih hd)
    rw [skipPattern] at h
    split at h
    · split at h
      · rw [← Option.some.inj h]
        exact List.Subset.refl _
      · exact hlater h
    · exact hlater h
    · exact hlater h
    · exact hlater h
    · split at h
      · cases h
      · exact hlater h
    · split at h
      · cases h
      · exact hlater h
    · split at h
      · cases h
      · exact hlater h
    · cases h
    · cases h
    · exact hlater h

theorem passes_asyncTarget : Passes asyncTarget := by
  refine yields_get.passes.then fun s => ?_
  split
  · split
    · exact passes_pure _
    · exact passes_pure _
  · exact passes_pure _

theorem yields_other {r : Read Unit} (hr : Passes r) : Yields BodyNamed (other r) :=
  hr.seqRight (yields_pure ⟨trivial, trivial⟩)

theorem yields_one {r : Read Definition} (hr : Yields Definition.Named r) :
    Yields BodyNamed (one r) :=
  hr.bind fun _ hd => yields_pure ⟨hd, trivial⟩

namespace ReadsNamed

variable {b : Blocks} (h : b.ReadsNamed)

include h

theorem expression : Passes b.ctx.expression := h.ctx.expression.passes

theorem suite (top : Nat) : Yields BodyNamed (b.suite top) := by
  refine (passes_op ":").then fun _ => passes_peek.then fun kind => ?_
  split
  · exact passes_lineEnd.then fun _ => yields_ite (h.read _) yields_fail
  · exact h.ctx.simpleLine

theorem elseClause (top : Nat) (text : String) : Passes (b.elseClause top text) :=
  ((passes_clause top text).orElse (passes_pure false)).then fun _ =>
    yields_ite ((passes_word text).then fun _ => (h.suite top).passes.then fun _ => passes_pure _)
      (passes_pure _)

theorem elifClauses (top : Nat) : Passes (b.elifClauses top) := by
  refine (passes_many ((passes_clause top "elif").then fun _ => ?_)).then fun _ => passes_pure _
  extract_lets body
  have hbody : ∀ u, Passes (body u) := fun _ =>
    (passes_word "elif").then fun _ => h.expression.then fun _ => (h.suite top).passes.then
      fun _ => passes_pure _
  exact yields_ite (Yields.then yields_fail hbody) (hbody ())

theorem ifStatement (top : Nat) : Passes (b.ifStatement top) :=
  (passes_word "if").then fun _ => h.expression.then fun _ => (h.suite top).passes.then fun _ =>
    (h.elifClauses top).then fun _ => h.elseClause top "else"

theorem whileStatement (top : Nat) : Passes (b.whileStatement top) :=
  (passes_word "while").then fun _ => h.expression.then fun _ => (h.suite top).passes.then fun _ =>
    h.elseClause top "else"

theorem forStatement (top : Nat) : Passes (b.forStatement top) :=
  (passes_word "for").then fun _ => h.ctx.targets.passes.then fun _ =>
    (passes_word "in").then fun _ => h.ctx.expressionList.passes.then fun _ =>
    (h.suite top).passes.then fun _ => h.elseClause top "else"

theorem exceptClause (top : Nat) : Passes (b.exceptClause top) := by
  refine (passes_clause top "except").then fun _ => ?_
  extract_lets block body
  have hblock : ∀ u, Passes (block u) := fun _ =>
    (h.suite top).passes.then fun _ => passes_pure _
  have hbody : ∀ u, Passes (body u) := fun _ =>
    (passes_word "except").then fun _ => (passes_optional (passes_op "*")).then fun _ =>
      (passes_taken h.expression).then fun _ => yields_ite
        ((passes_optional ((passes_op ",").seqRight h.expression)).then fun _ => hblock ())
        (hblock ())
  exact yields_ite (Yields.then yields_fail hbody) (hbody ())

theorem tryStatement (top : Nat) : Passes (b.tryStatement top) := by
  refine (passes_word "try").then fun _ => (h.suite top).passes.then fun _ =>
    (passes_many (h.exceptClause top)).then fun _ => yields_ite ?_ ?_
  · refine (passes_clause top "finally").then fun _ => ?_
    extract_lets body
    have hbody : ∀ u, Passes (body u) := fun _ => h.elseClause top "finally"
    exact yields_ite (Yields.then yields_fail hbody) (hbody ())
  · exact (h.elseClause top "else").then fun _ => h.elseClause top "finally"

theorem withStatement (top : Nat) : Passes (b.withStatement top) :=
  (passes_word "with").then fun _ => (passes_commaList h.expression).then fun _ =>
    (h.suite top).passes.then fun _ => passes_pure _

/-! ### Definitions -/

theorem typeParameters : Passes b.typeParameters := by
  have htype := h.ctx.typeExpression.passes
  unfold Blocks.typeParameters
  extract_lets parameter
  have hparameter : Passes parameter := htype.then fun _ =>
    (passes_optional ((passes_op ":").seqRight htype)).then fun _ => passes_pure _
  exact (passes_optional (((passes_op "[").seqRight (passes_commaList hparameter)).seqRight
    (passes_op "]"))).then fun _ => passes_pure _

theorem functionHeader : Passes b.functionHeader :=
  (passes_word "def").then fun _ => passes_anyWord.then fun _ => h.typeParameters.then fun _ =>
    (passes_op "(").then fun _ =>
    (passes_optional (passes_commaList
      (h.ctx.parameter true (h.ctx .operand).passes))).then fun _ =>
    (passes_op ")").then fun _ =>
    (passes_optional ((passes_op "->").seqRight h.ctx.typeExpression.passes)).then fun _ =>
    passes_pure _

theorem functionDefinition (top : Nat) : Yields Definition.Named (b.functionDefinition top) :=
  passes_rowOf.then fun _ => (passes_optional (passes_word "async")).then fun _ =>
    h.functionHeader.then fun _ => (h.suite top).bind fun _ hbody => yields_pure hbody

theorem classDefinition (top : Nat) : Yields Definition.Named (b.classDefinition top) :=
  passes_rowOf.then fun _ => (passes_word "class").then fun _ => passes_anyWord.then fun _ =>
    h.typeParameters.then fun _ => (passes_optional h.ctx.argumentList).then fun _ =>
    (h.suite top).bind fun _ hbody => yields_pure hbody

theorem definition (top : Nat) : Yields Definition.Named (b.definition top) :=
  (passes_isWord "class").then fun _ =>
    yields_ite (h.classDefinition top) (h.functionDefinition top)

theorem decorator (top : Nat) : Passes (b.decorator top) :=
  (passes_op "@").then fun _ => h.expression.then fun _ => passes_lineEnd.then fun _ =>
    yields_get.passes.then fun _ => yields_ite yields_fail (passes_pure _)

theorem decorated (top : Nat) : Yields Definition.Named (b.decorated top) :=
  (passes_many (h.decorator top)).then fun ds => (h.definition top).bind fun _ hd =>
    yields_pure (hd.withDecorators ds)

/-! ### Matching -/

theorem caseClause (top : Nat) : Passes (b.caseClause top) := by
  refine (passes_clause top "case").then fun _ => ?_
  extract_lets block pattern body
  have hblock : ∀ u, Passes (block u) := fun _ =>
    (h.suite top).passes.then fun _ => passes_pure _
  have hpattern : ∀ u, Passes (pattern u) := by
    intro u
    refine yields_get.bind fun s hs => ?_
    split
    · exact Yields.then yields_fail hblock
    · next ts hts =>
      exact Yields.then (passes_set fun t ht => hs t (skipPattern_subset hts ht)) hblock
  have hbody : ∀ u, Passes (body u) := fun _ =>
    (passes_word "case").then fun _ => (passes_isOp ":").then fun _ =>
      yields_ite (Yields.then yields_fail hpattern) (hpattern ())
  exact yields_ite (Yields.then yields_fail hbody) (hbody ())

theorem matchStatement (top : Nat) : Passes (b.matchStatement top) := by
  refine (passes_word "match").then fun _ => (passes_commaList h.expression).then fun _ =>
    (passes_op ":").then fun _ => passes_lineEnd.then fun _ => yields_get.passes.then fun s => ?_
  extract_lets inner cases
  have hcases : ∀ u, Passes (cases u) := fun _ =>
    (passes_many (h.caseClause inner)).then fun _ => yields_get.passes.then fun _ =>
      yields_ite yields_fail (passes_pure _)
  exact yields_ite (Yields.then yields_fail hcases) (hcases ())

/-! ### Statements -/

theorem statement (top : Nat) : Yields BodyNamed (b.statement top) := by
  have hasync := passes_word "async"
  refine passes_peek.then fun kind => ?_
  split
  · exact yields_one (h.decorated top)
  · exact yields_one (h.classDefinition top)
  · exact yields_one (h.functionDefinition top)
  · exact yields_other (h.ifStatement top)
  · exact yields_other (h.whileStatement top)
  · exact yields_other (h.forStatement top)
  · exact yields_other (h.tryStatement top)
  · exact yields_other (h.withStatement top)
  · exact h.ctx.simpleLine.orElse (yields_other (h.matchStatement top))
  · refine passes_asyncTarget.then fun target => ?_
    split
    · exact yields_one (h.functionDefinition top)
    · exact yields_other (hasync.seqRight (h.forStatement top))
    · exact yields_other (hasync.seqRight (h.withStatement top))
    · exact h.ctx.simpleLine
  · exact h.ctx.simpleLine

theorem statements (top n : Nat) : Yields BodyNamed (b.statements top n) := by
  induction n with
  | zero => exact yields_fail
  | succ n ih =>
    refine yields_get.passes.then fun s => yields_ite (yields_pure trivial) ?_
    exact (h.statement top).bind fun _ hfirst => ih.bind fun _ hrest =>
      yields_pure (hfirst.append hrest)

end ReadsNamed
end Blocks

/-- Blocks nested to any depth are named. -/
theorem yields_readBlock {ctx : Context} (h : ctx.ReadsNamed) (fuel top : Nat) :
    Yields BodyNamed (readBlock ctx fuel top) := by
  induction fuel generalizing top with
  | zero => exact yields_fail
  | succ fuel ih =>
    have hb : Blocks.ReadsNamed ⟨ctx, readBlock ctx fuel⟩ := ⟨h, ih⟩
    exact yields_get.passes.then fun _ => hb.statements top _

/-- A module that is read has names wherever it assigns to attributes. -/
theorem bodyNamed_of_parse {source : String} {module : Module} (h : parse source = some module) :
    BodyNamed module := by
  unfold parse at h
  dsimp only at h
  split at h
  · next body s hrun =>
    split at h
    · cases h
      exact (yields_readBlock (readsNamed_readGoal _ _) _ 0 _ _ _ hrun (areNamed_tokens _)).2
    · cases h
  · cases h

end Python
end ApiSync
