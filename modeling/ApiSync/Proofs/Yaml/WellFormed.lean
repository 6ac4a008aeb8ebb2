import ApiSync.Proofs.Yaml.Reading
import ApiSync.Yaml.Load
/-!
# Values of YAML texts are well formed

Entries are set by key, so no mapping repeats one, and a node that is referred to has been read
before.  The readers of nodes are followed in the order of their definitions, with the fuel that
bounds their depth.
-/

namespace ApiSync
namespace Yaml

open Read

def Item.WellFormed (i : Item) : Prop := i.value.WellFormed

def Entries.WellFormed (e : Entries) : Prop := Fields.WellFormed e.fields

theorem Entries.wellFormed_empty : Entries.empty.WellFormed := Fields.wellFormed_nil

/-! ## Scalars and keys -/

theorem wellFormed_resolve (text : String) : (resolve text).WellFormed := by
  rw [resolve]
  split
  · trivial
  · split
    · trivial
    · split
      · trivial
      · trivial

theorem wellFormed_orText {α : Type} {f : α → Value} (h : ∀ a, (f a).WellFormed)
    (read : Option α) (text : String) : ((read.map f).getD (.str text)).WellFormed := by
  cases read with
  | none => trivial
  | some a => exact h a

theorem wellFormed_scalarValue (tag : Option String) (isPlain : Bool) (text : String) :
    (scalarValue tag isPlain text).WellFormed := by
  unfold scalarValue
  split
  · rw [untagged]
    split
    · exact wellFormed_resolve text
    · trivial
  · split
    · split
      · trivial
      · trivial
    · split
      · exact wellFormed_orText (f := .bool) (fun _ => trivial) _ text
      · split
        · exact wellFormed_orText (f := .num) (fun _ => trivial) _ text
        · split
          · exact wellFormed_orText (f := .num) (fun _ => trivial) _ text
          · trivial

theorem wellFormed_single (k : String) {v : Value} (h : v.WellFormed) :
    (Value.map [(k, v)]).WellFormed := by
  refine Fields.wellFormed_iff.mpr ⟨List.pairwise_singleton _ k, fun e he => ?_⟩
  rw [List.mem_singleton.mp he]
  exact h

theorem yields_add {entries : Entries} (he : entries.WellFormed) (key : Item) {value : Value}
    (hv : value.WellFormed) : Yields Entries.WellFormed (entries.add key value) :=
  (passes_require _).bind fun _ _ => yields_pure (Fields.WellFormed.set he (keyText key.value) hv)

theorem passes_requireKey (start : Position) : Passes (requireKey start) :=
  yields_get.bind fun _ _ => (passes_require _).bind fun _ _ => passes_require _

/-! ## Properties -/

theorem passes_tagName : Passes tagName := by
  have hlong : Passes (do
      skip 1
      let name ← takeRun fun c => !isGap (some c) && c ≠ '>'
      expect '>'
      require (name ≠ [] && name ≠ ['!'] && name ≠ ['!', '!'])
      return String.ofList name) :=
    (passes_skip 1).bind fun _ _ => (passes_takeRun _).bind fun _ _ => (passes_expect _).bind
      fun _ _ => (passes_require _).bind fun _ _ => yields_pure trivial
  refine passes_peek.bind fun c _ => yields_ite (fun _ => hlong) fun _ => ?_
  refine (passes_takeRun _).bind fun body _ => yields_ite (fun _ => yields_pure trivial) fun _ => ?_
  refine (passes_require _).bind fun _ _ => yields_get.bind fun p _ => ?_
  split
  · exact yields_pure trivial
  · exact (passes_require _).bind fun _ _ => yields_pure trivial

theorem passes_property (flow : Bool) (props : Properties) : Passes (property flow props) := by
  have hafter : ∀ next : Properties, Passes (do
      let after ← peek
      require (isGap after || (flow && after.any fun c => c = ',' || c = ']' || c = '}'))
      return next) := fun next =>
    passes_peek.bind fun _ _ => (passes_require _).bind fun _ _ => yields_pure trivial
  refine passes_peek.bind fun c _ => yields_ite (fun _ => ?_) fun _ => ?_
  · exact (passes_require _).bind fun _ _ => (passes_skip 1).bind fun _ _ =>
      (passes_takeRun _).bind fun _ _ => (passes_require _).bind fun _ _ =>
      (passes_openAnchor _).bind fun _ _ => hafter _
  · exact (passes_require _).bind fun _ _ => (passes_expect _).bind fun _ _ =>
      passes_tagName.bind fun _ _ => hafter _

theorem yields_emptyItem (props : Properties) : Yields Item.WellFormed (emptyItem props) :=
  (passes_closeAnchor _ (wellFormed_scalarValue _ _ _)).bind fun _ _ =>
    yields_pure (wellFormed_scalarValue _ _ _)

theorem yields_finish (props : Properties) {item : Item} (h : item.WellFormed) :
    Yields Item.WellFormed (finish props item) :=
  (passes_closeAnchor _ h).bind fun _ _ => yields_pure h

/-! ## Flow collections -/

theorem passes_flowGapFrom (low level fuel : Nat) (crossed spaced : Bool) :
    Passes (flowGapFrom low level fuel crossed spaced) := by
  induction fuel generalizing crossed spaced with
  | zero => exact yields_fail
  | succ fuel ih =>
    rw [flowGapFrom]
    refine yields_get.bind fun p hp => ?_
    have hq : (if crossed && p.column = 0 then p.indented else p.skipBlanks).anchors =
        p.anchors := by
      split
      · rfl
      · exact p.skipBlanks_anchors
    dsimp only
    generalize (if crossed && p.column = 0 then p.indented else p.skipBlanks) = q at hq ⊢
    split
    · exact yields_fail
    · exact Yields.bind (passes_set (hp.congr hq)) fun _ _ => ih true true
    · exact (passes_require _).bind fun _ _ =>
        Yields.bind (passes_set (hp.congr hq)) fun _ _ => ih true true
    · exact (passes_require _).bind fun _ _ => (passes_require _).bind fun _ _ =>
        passes_set (hp.congr hq)

theorem passes_flowGap (low level : Nat) : Passes (flowGap low level) :=
  passes_fuelOf.bind fun fuel _ => passes_flowGapFrom low level fuel false false

theorem passes_atFlowColon (key : Item) : Passes (atFlowColon key) :=
  yields_get.bind fun _ _ => yields_pure trivial

theorem passes_flowNext (low level : Nat) : Passes (flowNext low level) := by
  refine (passes_flowGap low level).bind fun _ _ => passes_peek.bind fun c _ => ?_
  split
  · exact passes_skip 1
  · exact yields_pure trivial
  · exact yields_pure trivial
  · exact yields_fail

mutual

theorem yields_flowNode (low level : Nat) : (fuel : Nat) → (props : Properties) →
    Yields Item.WellFormed (flowNode low level fuel props)
  | 0, _ => by
    rw [flowNode]
    exact yields_fail
  | fuel + 1, props => by
    rw [flowNode]
    refine yields_get.bind fun p _ => ?_
    split
    · exact yields_fail
    · refine yields_ite (fun _ => ?_) fun _ => yields_ite (fun _ => yields_emptyItem props)
        fun _ => yields_ite (fun _ => yields_fail) fun _ => yields_ite (fun _ => ?_) fun _ =>
        yields_ite (fun _ => ?_) fun _ => yields_ite (fun _ => ?_) fun _ =>
        yields_ite (fun _ => ?_) fun _ => ?_
      · exact (passes_property true props).bind fun next _ => (passes_flowGap low level).bind
          fun _ _ => yields_flowNode low level fuel next
      · exact (passes_require _).bind fun _ _ => yields_aliasValue.bind fun _ hv => yields_pure hv
      · exact (passes_quotedScalar low).bind fun _ _ =>
          yields_finish props (wellFormed_scalarValue _ _ _)
      · refine (passes_skip 1).bind fun _ _ =>
          (yields_flowItemsFrom low (level + 1) fuel fun _ h => absurd h List.not_mem_nil).bind
          fun items hitems => yields_finish props (Value.wellFormed_list fun v hv => ?_)
        exact hitems v (List.mem_reverse.mp hv)
      · exact (passes_skip 1).bind fun _ _ =>
          (yields_flowEntriesFrom low (level + 1) fuel Entries.wellFormed_empty).bind
          fun entries hentries => yields_finish props hentries
      · exact (passes_plain true low).bind fun _ _ =>
          yields_finish props (wellFormed_scalarValue _ _ _)

theorem yields_flowValue (low level : Nat) : (fuel : Nat) → (key : Item) →
    Yields (fun v : Option Value => (v.getD .null).WellFormed) (flowValue low level fuel key)
  | 0, _ => by
    rw [flowValue]
    exact yields_fail
  | fuel + 1, key => by
    rw [flowValue]
    refine (passes_flowGap low level).bind fun _ _ => (passes_atFlowColon key).bind fun _ _ =>
      yields_ite (fun _ => ?_) fun _ => yields_pure trivial
    exact (passes_skip 1).bind fun _ _ => (passes_flowGap low level).bind fun _ _ =>
      (yields_flowNode low level fuel _).bind fun _ h => yields_pure h

theorem yields_flowExplicit (low level : Nat) : (fuel : Nat) →
    Yields (fun e : Item × Value => e.2.WellFormed) (flowExplicit low level fuel)
  | 0 => by
    rw [flowExplicit]
    exact yields_fail
  | fuel + 1 => by
    rw [flowExplicit]
    exact (passes_skip 1).bind fun _ _ => (passes_flowGap low level).bind fun _ _ =>
      (yields_flowNode low level fuel _).bind fun key _ =>
      (yields_flowValue low level fuel key).bind fun _ h => yields_pure h

theorem yields_flowItemsFrom (low level : Nat) : (fuel : Nat) → {items : List Value} →
    (∀ v ∈ items, v.WellFormed) →
    Yields (fun vs : List Value => ∀ v ∈ vs, v.WellFormed) (flowItemsFrom low level fuel items)
  | 0, _, _ => by
    rw [flowItemsFrom]
    exact yields_fail
  | fuel + 1, items, hitems => by
    have hnext : ∀ item : Value, item.WellFormed →
        Yields (fun vs : List Value => ∀ v ∈ vs, v.WellFormed) (do
          flowNext low level
          flowItemsFrom low level fuel (item :: items)) := fun item h =>
      (passes_flowNext low level).bind fun _ _ =>
        yields_flowItemsFrom low level fuel (List.forall_mem_cons.mpr ⟨h, hitems⟩)
    rw [flowItemsFrom]
    refine (passes_flowGap low level).bind fun _ _ => yields_get.bind fun p _ =>
      yields_ite (fun _ => (passes_skip 1).bind fun _ _ => yields_pure hitems) fun _ =>
      yields_ite (fun _ => ?_) fun _ => ?_
    · exact (yields_flowExplicit low level fuel).bind fun e h => hnext _ (wellFormed_single _ h)
    · refine (passes_require _).bind fun _ _ => (yields_flowNode low level fuel _).bind
        fun key hkey => (passes_flowGap low level).bind fun _ _ => (passes_atFlowColon key).bind
        fun _ _ => yields_ite (fun _ => ?_) fun _ => hnext _ hkey
      exact (passes_requireKey p).bind fun _ _ => (yields_flowValue low level fuel key).bind
        fun v hv => hnext _ (wellFormed_single _ hv)

theorem yields_flowEntriesFrom (low level : Nat) : (fuel : Nat) → {entries : Entries} →
    entries.WellFormed → Yields Entries.WellFormed (flowEntriesFrom low level fuel entries)
  | 0, _, _ => by
    rw [flowEntriesFrom]
    exact yields_fail
  | fuel + 1, entries, hentries => by
    have hnext : ∀ (key : Item) (value : Value), value.WellFormed →
        Yields Entries.WellFormed (do
          let entries ← entries.add key value
          flowNext low level
          flowEntriesFrom low level fuel entries) := fun key value h =>
      (yields_add hentries key h).bind fun _ hadded => (passes_flowNext low level).bind fun _ _ =>
        yields_flowEntriesFrom low level fuel hadded
    rw [flowEntriesFrom]
    refine (passes_flowGap low level).bind fun _ _ => yields_get.bind fun p _ =>
      yields_ite (fun _ => (passes_skip 1).bind fun _ _ => yields_pure hentries) fun _ =>
      yields_ite (fun _ => ?_) fun _ => ?_
    · exact (yields_flowExplicit low level fuel).bind fun e h => hnext e.1 e.2 h
    · exact (passes_require _).bind fun _ _ => (yields_flowNode low level fuel _).bind fun key _ =>
        (yields_flowValue low level fuel key).bind fun v hv => hnext key _ hv

end

theorem yields_flowCollection (low fuel : Nat) :
    Yields Value.WellFormed (flowCollection low fuel) := by
  refine passes_peek.bind fun c _ => (passes_skip 1).bind fun _ _ => yields_ite (fun _ => ?_)
    fun _ => ?_
  · refine (yields_flowItemsFrom low 1 fuel fun _ h => absurd h List.not_mem_nil).bind
      fun items hitems => yields_pure (Value.wellFormed_list fun v hv => ?_)
    exact hitems v (List.mem_reverse.mp hv)
  · exact (yields_flowEntriesFrom low 1 fuel Entries.wellFormed_empty).bind fun _ h => yields_pure h

/-! ## Block collections -/

theorem passes_keyProperties (fuel : Nat) (props : Properties) :
    Passes (keyProperties fuel props) := by
  induction fuel generalizing props with
  | zero => exact yields_fail
  | succ fuel ih =>
    rw [keyProperties]
    exact passes_peek.bind fun _ _ => yields_ite (fun _ => (passes_property false props).bind
      fun next _ => passes_blanks.bind fun _ _ => ih next) fun _ => yields_pure trivial

theorem yields_implicitKey (low fuel : Nat) : Yields Item.WellFormed (implicitKey low fuel) := by
  refine yields_get.bind fun start _ => ?_
  have hcolon : ∀ key : Item, key.WellFormed → Yields Item.WellFormed (do
      let _ ← blanks
      require ((← get).isIndicator ':')
      requireKey start
      skip 1
      return key) := fun key h =>
    passes_blanks.bind fun _ _ => yields_get.bind fun _ _ => (passes_require _).bind fun _ _ =>
      (passes_requireKey start).bind fun _ _ => (passes_skip 1).bind fun _ _ => yields_pure h
  refine (passes_keyProperties 3 _).bind fun props _ => yields_get.bind fun p _ =>
    yields_ite (fun _ => (yields_emptyItem props).bind hcolon) fun _ => ?_
  split
  · exact (yields_fail (P := Item.WellFormed)).bind hcolon
  · refine yields_ite (fun _ => ?_) fun _ => yields_ite (fun _ => ?_) fun _ =>
      yields_ite (fun _ => ?_) fun _ => ?_
    · exact (passes_require _).bind fun _ _ => yields_aliasValue.bind fun v hv =>
        hcolon ⟨v, false, false⟩ hv
    · exact (passes_quotedScalar low).bind fun _ _ =>
        Yields.bind (yields_finish props (wellFormed_scalarValue _ _ _)) hcolon
    · exact (yields_flowCollection low fuel).bind fun _ hv =>
        Yields.bind (yields_finish props hv) hcolon
    · exact (passes_plainLine false).bind fun _ _ => (passes_require _).bind fun _ _ =>
        Yields.bind (yields_finish props (wellFormed_scalarValue _ _ _)) hcolon

theorem passes_atEntry (low fuel : Nat) : Passes (atEntry low fuel) :=
  yields_get.bind fun _ _ => yields_pure trivial

theorem yields_leaf (low fuel : Nat) (crossed : Bool) (props : Properties) :
    Yields Value.WellFormed (leaf low fuel crossed props) := by
  have hclose : ∀ v : Value, v.WellFormed → Yields Value.WellFormed (do
      closeAnchor props.anchor v
      return v) := fun v h => (passes_closeAnchor _ h).bind fun _ _ => yields_pure h
  have hend : ∀ v : Value, v.WellFormed → Yields Value.WellFormed (do
      endLine
      closeAnchor props.anchor v
      return v) := fun v h => passes_endLine.bind fun _ _ => hclose v h
  refine yields_get.bind fun p _ => (passes_require _).bind fun _ _ => ?_
  refine (passes_require _).bind fun _ _ => yields_ite (fun _ => ?_) fun _ =>
    yields_ite (fun _ => ?_) fun _ => yields_ite (fun _ => ?_) fun _ =>
    yields_ite (fun _ => ?_) fun _ => ?_
  · exact (passes_blockScalar low).bind fun _ _ => hclose _ (wellFormed_scalarValue _ _ _)
  · exact (passes_require _).bind fun _ _ => yields_aliasValue.bind hend
  · exact (passes_quotedScalar low).bind fun _ _ => hend _ (wellFormed_scalarValue _ _ _)
  · exact (yields_flowCollection low fuel).bind hend
  · exact (passes_plain false low).bind fun _ _ => hend _ (wellFormed_scalarValue _ _ _)

mutual

theorem yields_node (low lowSeq : Nat) : (fuel : Nat) → (block crossed : Bool) →
    (props : Properties) → Yields Value.WellFormed (node low lowSeq fuel block crossed props)
  | 0, _, _, _ => yields_fail
  | fuel + 1, block, crossed, props => by
    have hclose : ∀ v : Value, v.WellFormed → Yields Value.WellFormed (do
        closeAnchor props.anchor v
        return v) := fun v h => (passes_closeAnchor _ h).bind fun _ _ => yields_pure h
    have hsequence : ∀ p : Position, Yields Value.WellFormed (do
        let items ← sequence p.column fuel []
        let value := Value.list items.reverse
        closeAnchor props.anchor value
        return value) := fun p =>
      (yields_sequence p.column fuel fun _ h => absurd h List.not_mem_nil).bind
        fun items hitems => hclose _ (Value.wellFormed_list fun v hv =>
          hitems v (List.mem_reverse.mp hv))
    rw [node]
    refine yields_get.bind fun p _ => yields_ite (fun _ => yields_ite (fun _ => hsequence p)
      fun _ => ?_) fun _ => yields_ite (fun _ => ?_) fun _ => ?_
    · exact (yields_emptyItem props).bind fun _ h => yields_pure h
    · exact (passes_require _).bind fun _ _ => hsequence p
    · refine (passes_atEntry low fuel).bind fun _ _ => yields_ite (fun _ => ?_) fun _ =>
        yields_ite (fun _ => ?_) fun _ => yields_leaf low fuel crossed props
      · exact (passes_require _).bind fun _ _ =>
          (yields_mapping p.column fuel Entries.wellFormed_empty).bind fun _ hentries =>
          hclose _ hentries
      · exact (passes_property false props).bind fun next _ => passes_toContent.bind
          fun crossed _ => yields_node low lowSeq fuel crossed crossed next
termination_by structural fuel => fuel

theorem yields_nodeAfter (low lowSeq : Nat) : (fuel : Nat) → (compact : Bool) →
    Yields Value.WellFormed (nodeAfter low lowSeq fuel compact)
  | 0, _ => yields_fail
  | fuel + 1, compact => by
    rw [nodeAfter]
    exact passes_toContent.bind fun _ _ => yields_node low lowSeq fuel _ _ _
termination_by structural fuel => fuel

theorem yields_sequence (column : Nat) : (fuel : Nat) → {items : List Value} →
    (∀ v ∈ items, v.WellFormed) →
    Yields (fun vs : List Value => ∀ v ∈ vs, v.WellFormed) (sequence column fuel items)
  | 0, _, _ => yields_fail
  | fuel + 1, items, hitems => by
    rw [sequence]
    refine yields_get.bind fun p _ => yields_ite (fun _ => yields_pure hitems) fun _ => ?_
    exact (passes_require _).bind fun _ _ => (passes_skip 1).bind fun _ _ =>
      (yields_nodeAfter (column + 1) (column + 1) fuel true).bind fun value hvalue =>
      yields_sequence column fuel (List.forall_mem_cons.mpr ⟨hvalue, hitems⟩)
termination_by structural fuel => fuel

theorem yields_mapping (column : Nat) : (fuel : Nat) → {entries : Entries} →
    entries.WellFormed → Yields Entries.WellFormed (mapping column fuel entries)
  | 0, _, _ => yields_fail
  | fuel + 1, entries, hentries => by
    have hnext : ∀ (key : Item) (value : Value), value.WellFormed →
        Yields Entries.WellFormed (do
          let entries ← entries.add key value
          mapping column fuel entries) := fun key value h =>
      (yields_add hentries key h).bind fun _ hadded => yields_mapping column fuel hadded
    rw [mapping]
    refine yields_get.bind fun p _ => yields_ite (fun _ => yields_pure hentries) fun _ =>
      (passes_require _).bind fun _ _ => yields_ite (fun _ => ?_) fun _ => ?_
    · refine (passes_skip 1).bind fun _ _ =>
        (yields_nodeAfter (column + 1) column fuel true).bind fun key _ =>
        yields_get.bind fun q _ => yields_ite (fun _ => ?_) fun _ => ?_
      · exact (passes_require _).bind fun _ _ => (passes_skip 1).bind fun _ _ =>
          (yields_nodeAfter (column + 1) column fuel true).bind fun value hvalue => hnext _ _ hvalue
      · exact hnext _ _ trivial
    · exact (yields_implicitKey (column + 1) fuel).bind fun key _ =>
        (yields_nodeAfter (column + 1) column fuel false).bind fun value hvalue => hnext _ _ hvalue
termination_by structural fuel => fuel

end

/-! ## Whole texts -/

theorem passes_directive : Passes directive := by
  refine (passes_takeRun _).bind fun line _ => ?_
  split
  · refine yields_ite (fun _ => passes_require _) fun _ => yields_ite (fun _ => ?_)
      fun _ => yields_pure trivial
    split
    · exact passes_modify fun _ hp => hp.congr rfl
    · exact yields_fail
  · exact yields_pure trivial

theorem passes_preamble (fuel : Nat) (found : Bool) : Passes (preamble fuel found) := by
  induction fuel generalizing found with
  | zero => exact yields_pure trivial
  | succ fuel ih =>
    have hline : ∀ found : Bool, Passes (do
        if (← peek) = none then return found
        modify Position.nextLine
        preamble fuel found) := fun found =>
      passes_peek.bind fun _ _ => yields_ite (fun _ => yields_pure trivial) fun _ =>
        Yields.bind (passes_modify fun _ hp => hp.congr rfl) fun _ _ => ih found
    rw [preamble]
    refine yields_get.bind fun p hp => ?_
    dsimp only
    split
    · exact passes_directive.bind fun _ _ => hline true
    · exact Yields.bind (passes_set (hp.congr rfl)) fun _ _ => ih found
    · exact Yields.bind (passes_set (hp.congr rfl)) fun _ _ => hline found
    · exact Yields.bind (passes_set (hp.congr rfl)) fun _ _ => yields_pure trivial
    · exact yields_pure trivial

theorem passes_epilogue (fuel : Nat) : Passes (epilogue fuel) := by
  induction fuel with
  | zero => exact yields_fail
  | succ fuel ih =>
    rw [epilogue]
    refine yields_get.bind fun _ _ => yields_ite (fun _ => yields_pure trivial) fun _ => ?_
    exact yields_get.bind fun _ _ => (passes_require _).bind fun _ _ => (passes_skip 3).bind
      fun _ _ => passes_endLine.bind fun _ _ => yields_get.bind fun _ _ => yields_get.bind
      fun _ _ => (passes_require _).bind fun _ _ => ih

theorem yields_document (fuel : Nat) : Yields Value.WellFormed (document fuel) := by
  have hroot : ∀ crossed : Bool, Yields Value.WellFormed (do
      let value ← node 0 0 fuel crossed crossed Properties.none
      epilogue fuel
      return value) := fun crossed =>
    (yields_node 0 0 fuel crossed crossed _).bind fun _ hv => (passes_epilogue fuel).bind
      fun _ _ => yields_pure hv
  refine (passes_preamble fuel false).bind fun directives _ => yields_get.bind fun p _ =>
    yields_ite (fun _ => ?_) fun _ => ?_
  · exact (passes_require _).bind fun _ _ => (passes_skip 3).bind fun _ _ =>
      passes_toContent.bind fun crossed _ => hroot crossed
  · exact (passes_require _).bind fun _ _ =>
      Yields.bind (passes_modify fun p hp => hp.congr (Position.seekFrom_anchors _ p)) fun _ _ =>
      hroot true

/-- No mapping in the value of a text repeats a key. -/
theorem wellFormed_of_load? {text : String} {v : Value} (h : load? text = some v) :
    v.WellFormed := by
  obtain ⟨⟨value, p⟩, hrun, hvalue⟩ := Option.map_eq_some_iff.mp h
  cases hvalue
  exact (yields_document _ _ value p hrun fun _ ha => absurd ha List.not_mem_nil).2

end Yaml
end ApiSync
