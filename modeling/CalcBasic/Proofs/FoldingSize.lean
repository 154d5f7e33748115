import CalcBasic.Proofs.CompactTrees

/-! Emitting the same tree with folding and without. Both runs go through the same
states, apart from remarks, and the code of the one is the code of the other with
constant operations replaced by their values. -/
namespace CalcBasic
open CalcBasic.Tree (textless isCompact_iff isCompactNode isCompact_var)

namespace Emit
open CalcBasic.Action Code

variable {a a' b b' name : String} {condition tree body value collection left right target counter : Tree} {f : UserFunction}
  {arguments : List Tree} {mark : Nat} {range : Range}

/-! ### Runs side by side -/

/-- Two emitters that differ in remarks alone, of which only the first one folds. -/
structure Twin (modern : Bool) (table : FunctionTable) (on off : Emitter) : Prop where
  plain : off.folding = false
  modern : off.modern = modern
  functions : off.symbols.functions = table
  same : ∃ notes, on = { off.noting notes with folding := true }

namespace Twin

variable {modern : Bool} {table : FunctionTable} {on off : Emitter} (twin : Twin modern table on off)
include twin

theorem tables : on.symbols.functions = off.symbols.functions := by
  obtain ⟨_,_,_,notes,rfl⟩ := twin
  rfl

theorem inlining : on.inlining = off.inlining := by
  obtain ⟨_,_,_,notes,rfl⟩ := twin
  rfl

end Twin

/-- Where twins both succeed their results are related, and they are twins again. -/
def Agrees (modern : Bool) (table : FunctionTable) {α β : Type} (related : α → β → Prop) (action : Emit α) (other : Emit β) :
    Prop :=
  ∀ on off a b after after', Twin modern table on off → outcome action on = (.ok a, after) →
    outcome other off = (.ok b, after') → related a b ∧ Twin modern table after after'

/-- The action agrees with itself. -/
abbrev Tied (modern : Bool) (table : FunctionTable) {α : Type} (related : α → α → Prop) (action : Emit α) : Prop :=
  Agrees modern table related action action

section Runs

variable {modern : Bool} {table : FunctionTable} {α β γ δ : Type} {related : α → β → Prop} {later : γ → δ → Prop}

theorem agrees_pure {a : α} {b : β} (known : related a b) : Agrees modern table related (pure a) (pure b) := by
  intro on off a b after after' twin done done'
  cases done
  cases done'
  exact ⟨known, twin⟩

theorem agrees_throw (error : CompileError) (other : Emit β) :
    Agrees modern table related (throw error : Emit α) other := by
  intro on off a b after after' twin done
  cases done

theorem agrees_get : Tied modern table (Twin modern table) get := by
  intro on off a b after after' twin done done'
  cases done
  cases done'
  exact ⟨twin, twin⟩

theorem Agrees.mono {stronger : α → β → Prop} {action : Emit α} {other : Emit β}
    (agrees : Agrees modern table stronger action other) (weaker : ∀ a b, stronger a b → related a b) :
    Agrees modern table related action other :=
  fun on off a b after after' twin done done' => (agrees on off a b after after' twin done done').imp_left (weaker a b)

theorem agrees_bind {first : Emit α} {first' : Emit β} {next : α → Emit γ} {next' : β → Emit δ}
    (start : Agrees modern table related first first')
    (continued : ∀ a b, related a b → Agrees modern table later (next a) (next' b)) :
    Agrees modern table later (first >>= next) (first' >>= next') := by
  intro on off c d after after' twin done done'
  obtain ⟨a,middle,reached,done⟩ := outcome_bind_eq_ok done
  obtain ⟨b,middle',reached',done'⟩ := outcome_bind_eq_ok done'
  obtain ⟨known,twin⟩ := start on off a b middle middle' twin reached reached'
  exact continued a b known middle middle' c d after after' twin done done'

theorem agrees_mapM {ι : Type} {step : ι → Emit α} {step' : ι → Emit β} (items : List ι)
    (each : ∀ item ∈ items, Agrees modern table related (step item) (step' item)) :
    Agrees modern table (List.Forall₂ related) (items.mapM step) (items.mapM step') := by
  induction items with
  | nil => exact agrees_pure .nil
  | cons item rest ih =>
    rw [List.mapM_cons,List.mapM_cons]
    refine agrees_bind (each item (by simp)) fun a b first => ?_
    refine agrees_bind (ih fun other member => each other (by simp [member])) fun as bs more => ?_
    exact agrees_pure (.cons first more)

theorem agrees_query {ask : Symbols → α × Symbols}
    (silent : ∀ symbols notes, ask (symbols.noting notes) = ((ask symbols).1, (ask symbols).2.noting notes))
    (functions : ∀ symbols, (ask symbols).2.functions = symbols.functions) :
    Tied modern table Eq (query ask) := by
  rintro on off a b after after' ⟨plain,isModern,known,notes,rfl⟩ done done'
  cases done
  cases done'
  obtain ⟨answer,symbols⟩ := Prod.mk.inj (silent off.symbols notes)
  exact ⟨answer, plain, isModern, (functions off.symbols).trans known, notes,
    congrArg (fun symbols : Symbols => { off with symbols, folding := true }) symbols⟩

theorem agrees_update {change : Symbols → Symbols}
    (silent : ∀ symbols notes, ∃ notes', change (symbols.noting notes) = (change symbols).noting notes')
    (functions : ∀ symbols, (change symbols).functions = symbols.functions) :
    Tied modern table (fun _ _ => True) (update change) := by
  rintro on off a b after after' ⟨plain,isModern,known,notes,rfl⟩ done done'
  cases done
  cases done'
  obtain ⟨notes',changed⟩ := silent off.symbols notes
  exact ⟨trivial, plain, isModern, (functions off.symbols).trans known, notes',
    congrArg (fun symbols : Symbols => { off with symbols, folding := true }) changed⟩

theorem agrees_expanding {action : Emit α} {other : Emit β} (name : String) (inner : Agrees modern table related action other) :
    Agrees modern table related (expanding name action) (expanding name other) := by
  rintro on off a b after after' ⟨plain,isModern,known,notes,rfl⟩ done done'
  rw [outcome_expanding] at done done'
  obtain ⟨given,reached⟩ := Prod.mk.inj done
  obtain ⟨given',reached'⟩ := Prod.mk.inj done'
  obtain ⟨result,plain,isModern,known,notes,same⟩ := inner _ { off with inlining := name :: off.inlining } a b _ _
    ⟨plain, isModern, known, notes, rfl⟩ (outcome_eq_ok given) (outcome_eq_ok given')
  rw [← reached,← reached']
  exact ⟨result, plain, isModern, known, notes, congrArg (fun state : Emitter => { state with inlining := off.inlining }) same⟩

/-! ### Variables -/

theorem agrees_remark (note : Remark) : Tied modern table (fun _ _ => True) (remark note) :=
  agrees_update (fun _ _ => ⟨_, rfl⟩) fun _ => rfl

theorem agrees_temporary : Tied modern table Eq temporary := by
  refine agrees_query Symbols.temporary_noting fun symbols => ?_
  exact (Edit.temporary symbols).functions

theorem agrees_listCode (name : String) : Tied modern table Eq (listCode name) :=
  agrees_bind (agrees_query (fun _ _ => rfl) fun _ => rfl) fun _ _ same => agrees_pure (by rw [same])

theorem agrees_textCode (name : String) : Tied modern table Eq (textCode name) := by
  unfold textCode
  refine agrees_bind (agrees_query (fun symbols notes => symbols.textName_noting notes name) fun symbols => ?_) ?_
  · unfold Symbols.textName
    dsimp only
    split <;> rfl
  · rintro answer _ rfl
    split
    · exact agrees_pure rfl
    · exact agrees_throw _ _

theorem agrees_scalarCode (name : String) : Tied modern table Eq (scalarCode name) := by
  unfold scalarCode
  refine agrees_bind (agrees_query (fun _ _ => rfl) fun _ => rfl) ?_
  rintro answer _ rfl
  split
  · exact agrees_pure rfl
  · exact agrees_bind (agrees_listCode overflowList) fun _ _ same => agrees_pure (by rw [same])

theorem agrees_variableCode (name : String) : Tied modern table Eq (variableCode name) := by
  unfold variableCode
  refine agrees_bind agrees_get fun on off twin => ?_
  have same : on.symbols.type name = off.symbols.type name := by
    obtain ⟨notes,rfl⟩ := twin.same
    rfl
  rw [same]
  cases off.symbols.type name with
  | list => exact agrees_listCode name
  | text => exact agrees_textCode name
  | number | boolean => exact agrees_scalarCode name

theorem agrees_resetSelector : Tied modern table Eq resetSelector :=
  agrees_bind (agrees_variableCode selector) fun _ _ same => agrees_pure (by rw [same])

theorem agrees_takeType (target value : Tree) :
    Tied modern table (fun _ _ => True) (takeType target value) := by
  unfold takeType
  split
  · refine agrees_update (fun symbols notes => ⟨notes, ?_⟩) fun _ => rfl
    rw [Tree.type_noting]
    rfl
  · exact agrees_pure trivial

end Runs

/-! ### Expressions -/

/-- The code of a tree with folding and without. That of a variable is the same. -/
def Rendered (tree : Tree) (new old : String) : Prop := Folded new old ∧ (tree.kind = .var → new = old)

/-- Code that prepares a list, and the list. -/
def Filling (modern : Bool) (new old : String × Tree) : Prop :=
  Folded new.1 old.1 ∧ new.2 = old.2 ∧ old.2.isCompact modern = true

section Rendering

variable {modern : Bool} {table : FunctionTable} {depth : Nat}

theorem agrees_settle (compact : tree.isCompact modern = true) :
    Tied modern table (fun new old => new = tree.settled modern ∧ old = tree) (settle (render depth) tree) := by
  rintro on off new old after after' ⟨plain,rfl,known,notes,rfl⟩ done done'
  obtain ⟨isOld,rfl⟩ := returns_settle_off (render depth) tree plain off old after' rfl done'
  obtain ⟨isNew,notes',rfl⟩ := @returns_settle_on { after'.noting notes with folding := true } depth tree
    (textless compact) rfl _ new after ⟨notes, rfl⟩ done
  exact ⟨⟨isNew, isOld⟩, plain, rfl, known, notes', rfl⟩

theorem returns_literal {value : Constant} {code : String} (written : value.code? = some code) (emitter : Emitter) :
    Returns (· = emitter) (render depth true value.tree) (· = code) := by
  cases depth with
  | zero => exact returns_throw _
  | succ depth =>
    cases value with
    | number | boolean =>
      cases written
      exact returns_pure rfl
    | text | list => cases written

variable (rendered : ∀ settled tree, tree.isCompact modern = true →
  Tied modern table (Rendered tree) (render depth settled tree))
include rendered

theorem agrees_render (settled : Bool) (compact : tree.isCompact modern = true) :
    Tied modern table Folded (render depth settled tree) :=
  (rendered settled tree compact).mono fun _ _ => And.left

theorem agrees_settled {place : Tree → String → String} (compact : tree.isCompact modern = true)
    (firm : ∀ tree code, Firm code.toList → Firm (place tree code).toList)
    (folds : ∀ tree new old, Folded new old → Folded (place tree new) (place tree old))
    (short : tree.foldsShort modern place = true) :
    Agrees modern table (fun new old => Folded (place (tree.settled modern) new) (place tree old) ∧ (tree.kind = .var → new = old))
      (render depth true (tree.settled modern)) (render depth true tree) := by
  cases found : tree.folded? modern with
  | none =>
    have same : tree.settled modern = tree := by rw [Tree.settled,found]; rfl
    rw [same]
    exact (rendered true tree compact).mono fun new old => And.imp_left (folds tree new old)
  | some value =>
    obtain ⟨⟨code,written⟩,operation,evaluated⟩ := Tree.folded?_some found
    have numeric := Tree.isNumeric_of_operation (textless compact) operation evaluated
    have same : tree.settled modern = value.tree := by rw [Tree.settled,found]; rfl
    rw [same]
    rintro on off new old after after' ⟨plain,rfl,known,notes,rfl⟩ done done'
    obtain ⟨rfl,rfl⟩ := returns_literal written _ _ new after rfl done
    obtain ⟨rfl,rfl⟩ := returns_numeric depth true numeric plain _ old after' rfl done'
    refine ⟨⟨.of_shrinks (Tree.shrinks_of_foldsShort compact firm short found written), fun isVar => ?_⟩,
      plain, rfl, known, notes, rfl⟩
    cases tree with
    | arith | compare => cases isVar
    | _ => cases operation

theorem agrees_operand (outer : Operator) (right : Bool) (compact : tree.isCompact modern = true)
    (short : tree.foldsShort modern (Tree.operandCode modern outer right) = true) :
    Tied modern table (Rendered tree) (operand (render depth) outer right tree) := by
  unfold operand
  refine agrees_bind (agrees_settle compact) fun new old same => ?_
  rw [same.1,same.2]
  have folds (tree : Tree) (new old : String) (folded : Folded new old) :
      Folded (tree.operandCode modern outer right new) (tree.operandCode modern outer right old) := by
    unfold Tree.operandCode
    split
    · exact ((Folded.refl _).append folded).append (.refl _)
    · exact folded
  refine agrees_bind (agrees_settled rendered compact (Tree.firm_operandCode modern outer right) folds short) ?_
  rintro new old ⟨folded,equal⟩
  refine agrees_bind agrees_get fun on off twin => agrees_pure ?_
  obtain ⟨plain,rfl,known,notes,rfl⟩ := twin
  refine ⟨folded, fun isVar => ?_⟩
  cases tree with
  | var name => exact equal rfl
  | _ => cases isVar

omit rendered in
theorem folded_product (first : Rendered left a a') (second : Rendered right b b') :
    Folded (product left right a b) (product left right a' b') := by
  have letter {tree : Tree} {new old : String} (known : Rendered tree new old) : isLetter tree new = isLetter tree old := by
    unfold isLetter
    by_cases isVar : tree.kind = .var
    · rw [known.2 isVar]
    · simp only [isVar,decide_false,Bool.false_and]
  unfold product
  rw [letter first,letter second]
  split
  · split
    · exact second.1.append first.1
    · exact first.1.append second.1
  · exact (first.1.append (.refl _)).append second.1

omit rendered in
theorem folded_remainder (first : Folded a a') (second : Folded b b') : Folded (remainder a b) (remainder a' b') :=
  (((((((second.append (.refl _)).append first).append (.refl _)).append second).append (.refl _)).append first).append
    (.refl _)).append second |>.append (.refl _)

theorem agrees_arithmetic {op : Arith} (compact : (Tree.arith left op right).isCompact modern = true) :
    Tied modern table Folded (arithmetic (render depth) left op right) := by
  obtain ⟨node,below⟩ := isCompact_iff.mp compact
  have compactLeft := below left (by simp)
  have compactRight := below right (by simp)
  rw [isCompactNode] at node
  simp only [Tree.isCompactOperation,Bool.and_eq_true] at node
  obtain ⟨_,shortLeft,shortRight⟩ := node
  unfold arithmetic
  refine agrees_bind agrees_get fun on off twin => ?_
  obtain ⟨plain,rfl,known,notes,rfl⟩ := twin
  change Agrees _ _ _ (if (op = .mod && off.modern) = true then _ else _) _
  split
  · refine agrees_bind (agrees_render rendered false compactLeft) fun a a' first => ?_
    refine agrees_bind (agrees_render rendered false compactRight) fun b b' second => agrees_pure ?_
    exact ((((Folded.refl _).append first).append (.refl _)).append second).append (.refl _)
  · refine agrees_bind (agrees_operand rendered _ false compactLeft shortLeft) fun a a' first => ?_
    refine agrees_bind (agrees_operand rendered _ true compactRight shortRight) fun b b' second => agrees_pure ?_
    cases op with
    | mod => exact folded_remainder first.1 second.1
    | mul => exact folded_product first second
    | _ => exact (first.1.append (.refl _)).append second.1

theorem agrees_comparison {op : Comparison} (compact : (Tree.compare left op right).isCompact modern = true) :
    Tied modern table Folded (comparison (render depth) left op right) := by
  obtain ⟨node,below⟩ := isCompact_iff.mp compact
  have compactLeft := below left (by simp)
  have compactRight := below right (by simp)
  rw [isCompactNode] at node
  simp only [Tree.isCompactOperation,Bool.and_eq_true] at node
  obtain ⟨_,shortLeft,shortRight⟩ := node
  refine agrees_bind (agrees_operand rendered _ false compactLeft shortLeft) fun a a' first => ?_
  refine agrees_bind (agrees_operand rendered _ true compactRight shortRight) fun b b' second => agrees_pure ?_
  exact (first.1.append (.refl _)).append second.1

theorem agrees_again (compact : tree.isCompact modern = true) :
    Tied modern table Folded (settle (render depth) tree >>= render depth true) := by
  refine agrees_bind (agrees_settle compact) fun new old same => ?_
  rw [same.1,same.2]
  exact (agrees_settled rendered compact (fun _ _ firm => firm) (fun _ _ _ folded => folded)
    (Tree.foldsShort_self compact)).mono fun _ _ => And.left

theorem agrees_renderAll {trees : List Tree} (compact : ∀ tree ∈ trees, tree.isCompact modern = true) :
    Tied modern table (List.Forall₂ Folded) (renderAll (render depth) trees) :=
  agrees_mapM trees fun tree member => agrees_render rendered false (compact tree member)

omit rendered in
theorem agrees_rangeValues (range : Range) : Tied modern table Folded (rangeValues range) := by
  unfold rangeValues
  split
  · exact agrees_pure (.refl _)
  · exact agrees_throw _ _
  · exact agrees_throw _ _

theorem agrees_listItem {item : Tree} (compact : item.isCompact modern = true) :
    Tied modern table Folded (listItem (render depth) item) := by
  unfold listItem
  split
  · split
    · exact agrees_render rendered false compact
    · exact agrees_throw _ _
  · exact agrees_render rendered false compact

theorem agrees_listLiteral {items : List Tree} (compact : ∀ item ∈ items, item.isCompact modern = true) :
    Tied modern table Folded (listLiteral (render depth) items) := by
  unfold listLiteral
  split
  · exact agrees_bind (agrees_rangeValues _) fun _ _ folded => agrees_pure (((Folded.refl _).append folded).append (.refl _))
  · refine agrees_bind (agrees_mapM items fun item member => agrees_listItem rendered (compact item member)) ?_
    exact fun _ _ each => agrees_pure (((Folded.refl _).append (.intercalate each _)).append (.refl _))

/-! ### Statements -/

theorem agrees_store (compactTarget : target.isCompact modern = true) (compactValue : value.isCompact modern = true) :
    Tied modern table Folded (store (render depth) target value) := by
  refine agrees_bind (agrees_render rendered false compactValue) fun code code' folded => ?_
  refine agrees_bind (agrees_render rendered false compactTarget) fun place place' placed => agrees_pure ?_
  exact (folded.trimClosers.append (.refl _)).append placed

theorem agrees_storeTyped (compactTarget : target.isCompact modern = true) (compactValue : value.isCompact modern = true) :
    Tied modern table Folded (storeTyped (render depth) target value) :=
  agrees_bind (agrees_takeType target value) fun _ _ _ => agrees_store rendered compactTarget compactValue

omit rendered in
theorem isOne_settled {step : Tree} (moving : (step.folded? modern).all (!·.tree.isOne) = true) :
    (step.settled modern).isOne = step.isOne := by
  unfold Tree.settled
  cases found : step.folded? modern with
  | none => rfl
  | some value =>
    obtain ⟨_,operation,_⟩ := Tree.folded?_some found
    rw [found,Option.all_some,Bool.not_eq_true'] at moving
    have other : step.isOne = false := by
      cases step with
      | arith | compare => rfl
      | _ => cases operation
    rw [other]
    exact moving

theorem agrees_countedLoop (compactCounter : counter.isCompact modern = true) (compact : range.Compact modern) :
    Tied modern table Folded (countedLoop (render depth) counter range) := by
  unfold countedLoop
  refine agrees_bind (agrees_render rendered false compactCounter) fun place place' placed => ?_
  refine agrees_bind (agrees_render rendered false compact.start) fun start start' started => ?_
  refine agrees_bind (agrees_render rendered false compact.last) fun stop stop' stopped => ?_
  refine agrees_bind (agrees_settle compact.step) fun step step' same => ?_
  rw [same.1,same.2]
  dsimp only
  rw [isOne_settled compact.moving]
  have header : Folded ("For(" ++ place ++ "," ++ start ++ "," ++ stop) ("For(" ++ place' ++ "," ++ start' ++ "," ++ stop') :=
    (((((Folded.refl _).append placed).append (.refl _)).append started).append (.refl _)).append stopped
  split
  · exact agrees_pure header
  · refine agrees_bind (agrees_settled rendered compact.step (fun _ _ firm => firm) (fun _ _ _ folded => folded)
      (Tree.foldsShort_self compact.step)) fun code code' folded => agrees_pure ?_
    exact (header.append (.refl _)).append folded.1

theorem agrees_fillList (compact : range.Compact modern) :
    Tied modern table (Filling modern) (fillList (render depth) range) := by
  unfold fillList
  refine agrees_bind agrees_temporary fun list list' sameList => ?_
  refine agrees_bind agrees_temporary fun count count' sameCount => ?_
  refine agrees_bind agrees_temporary fun counter counter' sameCounter => ?_
  rw [sameList,sameCount,sameCounter]
  have compactList := @isCompact_var modern list'
  have compactCount := @isCompact_var modern count'
  have compactCounter := @isCompact_var modern counter'
  have zero := @Tree.isCompact_number modern 0
  have seed : (Tree.list [.number 0]).isCompact modern = true :=
    isCompact_iff.mpr ⟨rfl, by simpa [Tree.children] using zero⟩
  refine agrees_bind (agrees_storeTyped rendered compactList seed) fun create create' created => ?_
  refine agrees_bind (agrees_storeTyped rendered compactCount zero) fun reset reset' zeroed => ?_
  refine agrees_bind (agrees_countedLoop rendered compactCounter compact) fun header header' headed => ?_
  refine agrees_bind (agrees_storeTyped rendered compactCount (Tree.isCompact_next count')) fun next next' counted => ?_
  refine agrees_bind (agrees_storeTyped rendered (Tree.isCompact_element compactList compactCount) compactCounter)
    fun fill fill' filled => agrees_pure ⟨?_, rfl, compactList⟩
  exact .intercalate (.cons created (.cons zeroed (.cons headed (.cons (.joinLines (.cons counted (.cons filled .nil)))
    (.cons (.refl _) .nil))))) _

theorem agrees_fillAtRunTime? (compact : range.Compact modern) :
    Tied modern table (Option.Rel (Filling modern)) (fillAtRunTime? (render depth) range) := by
  unfold fillAtRunTime?
  split
  · exact agrees_pure .none
  · exact agrees_bind (agrees_fillList rendered compact) fun _ _ filling => agrees_pure (.some filling)
  · refine agrees_bind (agrees_remark _) fun _ _ _ => ?_
    exact agrees_bind (agrees_fillList rendered compact) fun _ _ filling => agrees_pure (.some filling)

theorem agrees_assign {mode : Store} {line : Nat} (compactTarget : target.isCompact modern = true)
    (compact : (assignedValue target mode value).isCompact modern = true) :
    Tied modern table Folded (assign (render depth) target mode value line) := by
  unfold assign
  split
  · exact agrees_throw _ _
  · dsimp only
    refine agrees_bind (agrees_takeType target _) fun _ _ _ => ?_
    split
    · exact agrees_store rendered compactTarget compact
    · rename_i range isRange
      refine agrees_bind (agrees_fillAtRunTime? rendered (Tree.isCompact_range compact isRange)) fun new old filled => ?_
      cases filled with
      | none => exact agrees_store rendered compactTarget compact
      | @some new old filling =>
        obtain ⟨prepared,sameList,compactList⟩ := filling
        dsimp only
        rw [sameList]
        refine agrees_bind (agrees_render rendered false compactList) fun code code' folded => ?_
        refine agrees_bind (agrees_render rendered false compactTarget) fun place place' placed => agrees_pure ?_
        exact (((prepared.append (.refl _)).append folded).append (.refl _)).append placed

theorem agrees_branch {otherwise : Option Tree} (compact : (Tree.branch condition body otherwise).isCompact modern = true) :
    Tied modern table Folded (branch (render depth) condition body otherwise) := by
  obtain ⟨node,below⟩ := isCompact_iff.mp compact
  have compactCondition := below condition (by cases otherwise <;> simp)
  have compactBody := below body (by cases otherwise <;> simp)
  have compactOther : ∀ other ∈ otherwise, other.isCompact modern = true := by
    rintro other ⟨⟩
    exact below other (by simp)
  have undecided : condition.settled modern = condition := by
    rw [Tree.settled,Option.isNone_iff_eq_none.mp node]
    rfl
  unfold branch
  refine agrees_bind (agrees_settle compactCondition) fun new old same => ?_
  rw [same.1,same.2,undecided]
  rcases condition.truth? with _ | _ | _
  · refine agrees_bind (agrees_render rendered true compactCondition) fun test test' tested => ?_
    refine agrees_bind (agrees_render rendered false compactBody) fun code code' folded => ?_
    cases otherwise with
    | some other =>
      refine agrees_bind (agrees_render rendered false (compactOther other rfl)) fun rest rest' more => agrees_pure ?_
      exact ((((((Folded.refl _).append tested).append (.refl _)).append folded).append (.refl _)).append more).append (.refl _)
    | none =>
      dsimp only
      rw [folded.countStatements_eq]
      split
      · exact agrees_pure ((((Folded.refl _).append tested).append (.refl _)).append folded)
      · exact agrees_pure (((((Folded.refl _).append tested).append (.refl _)).append folded).append (.refl _))
  · cases otherwise with
    | some other => exact agrees_render rendered false (compactOther other rfl)
    | none => exact agrees_pure (.refl _)
  · exact agrees_render rendered false compactBody

theorem agrees_loop (compactCondition : condition.isCompact modern = true) (compactBody : body.isCompact modern = true)
    (untilTrue : Bool) :
    Tied modern table Folded (loop (render depth) condition body untilTrue) := by
  refine agrees_bind (agrees_render rendered false compactCondition) fun test test' tested => ?_
  refine agrees_bind (agrees_render rendered false compactBody) fun code code' folded => agrees_pure ?_
  exact ((((Folded.refl _).append tested).append (.refl _)).append folded).append (.refl _)

theorem agrees_loopList (compact : collection.isCompact modern = true) :
    Tied modern table (Filling modern) (loopList (render depth) collection) := by
  unfold loopList
  split
  · rename_i range isRange
    exact agrees_fillList rendered (Tree.isCompact_range compact isRange)
  · refine agrees_bind (agrees_update (fun symbols notes => ⟨notes, rfl⟩) fun _ => rfl) fun _ _ _ => ?_
    exact agrees_pure ⟨.refl _, rfl, compact⟩
  · exact agrees_pure ⟨.refl _, rfl, compact⟩
  · refine agrees_bind agrees_temporary fun copy copy' same => ?_
    rw [same]
    have compactCopy := @isCompact_var modern copy'
    exact agrees_bind (agrees_storeTyped rendered compactCopy compact) fun _ _ folded =>
      agrees_pure ⟨folded, rfl, compactCopy⟩

theorem agrees_listLoop (compactCounter : counter.isCompact modern = true)
    (compactCollection : collection.isCompact modern = true) (compactBody : body.isCompact modern = true) :
    Tied modern table Folded (listLoop (render depth) counter collection body) := by
  unfold listLoop
  refine agrees_bind (agrees_loopList rendered compactCollection) fun new old filling => ?_
  obtain ⟨prepared,sameList,compactList⟩ := filling
  refine agrees_bind agrees_temporary fun length length' sameLength => ?_
  refine agrees_bind agrees_temporary fun index index' sameIndex => ?_
  rw [sameList,sameLength,sameIndex]
  have compactLength := @isCompact_var modern length'
  have compactIndex := @isCompact_var modern index'
  have compactMeasure : (Tree.callOf "array_length" [old.2] 0).isCompact modern = true :=
    Tree.isCompact_call (by cbv) (by simpa using compactList)
  refine agrees_bind (agrees_storeTyped rendered compactLength compactMeasure) fun measure measure' measured => ?_
  refine agrees_bind (agrees_render rendered false compactIndex) fun place place' placed => ?_
  refine agrees_bind (agrees_render rendered false compactLength) fun bound bound' bounded => ?_
  refine agrees_bind (agrees_assign rendered compactCounter (Tree.isCompact_element compactList compactIndex))
    fun load load' loaded => ?_
  refine agrees_bind (agrees_render rendered false compactBody) fun code code' folded => agrees_pure ?_
  have header : Folded ("For(" ++ place ++ ",1," ++ bound) ("For(" ++ place' ++ ",1," ++ bound') :=
    (((Folded.refl _).append placed).append (.refl _)).append bounded
  exact .joinLines (.cons prepared (.cons measured (.cons header (.cons loaded (.cons folded (.cons (.refl _) .nil))))))

theorem agrees_forEach (compactCounter : counter.isCompact modern = true)
    (compactCollection : collection.isCompact modern = true) (compactBody : body.isCompact modern = true) :
    Tied modern table Folded (forEach (render depth) counter collection body) := by
  unfold forEach
  split
  · rename_i range isRange
    have compact := Tree.isCompact_range compactCollection (Option.filter_eq_some_iff.mp isRange).1
    refine agrees_bind (agrees_countedLoop rendered compactCounter compact) fun header header' headed => ?_
    refine agrees_bind (agrees_render rendered false compactBody) fun code code' folded => agrees_pure ?_
    exact ((headed.append (.refl _)).append folded).append (.refl _)
  · exact agrees_listLoop rendered compactCounter compactCollection compactBody

/-! ### Calls -/

theorem agrees_builtinCall {f : Builtin} (found : Builtin.find? name = some f)
    (compact : (Tree.call name arguments mark).isCompact modern = true) :
    Tied modern table Folded (builtinCall (render depth) name f arguments mark) := by
  obtain ⟨node,compactArguments⟩ := isCompact_iff.mp compact
  rw [isCompactNode,found,Option.bind_some] at node
  unfold builtinCall
  split
  · rename_i expansion expands
    rw [expands,Option.all_some] at node
    exact agrees_render rendered false (expansion.isCompact_expand node compactArguments)
  · split
    · exact agrees_throw _ _
    · split
      · exact agrees_pure (.refl _)
      · refine agrees_bind (agrees_renderAll rendered compactArguments) fun codes codes' each => ?_
        have list : Folded (",".intercalate codes) (",".intercalate codes') := .intercalate each _
        dsimp only
        split
        · exact agrees_pure (((Folded.refl _).append list).append (.refl _))
        · exact agrees_pure ((Folded.refl _).append list)

theorem agrees_sectionCall (f : UserFunction) (compact : ∀ argument ∈ arguments, argument.isCompact modern = true) :
    Tied modern table Folded (sectionCall (render depth) f arguments) := by
  have select {pass pass' : List String} (each : List.Forall₂ Folded pass pass') : Agrees modern table Folded
      (do
        let place ← variableCode selector
        return ":".intercalate (pass ++ [toString f.id ++ "→" ++ place, "prgm" ++ (← get).program, "Ans"]))
      (do
        let place ← variableCode selector
        return ":".intercalate (pass' ++ [toString f.id ++ "→" ++ place, "prgm" ++ (← get).program, "Ans"])) := by
    refine agrees_bind (agrees_variableCode selector) fun place place' same => ?_
    refine agrees_bind agrees_get fun on off twin => agrees_pure ?_
    obtain ⟨_,_,_,_,rfl⟩ := twin
    rw [same]
    exact .intercalate (List.rel_append each (.cons (.refl _) (.cons (.refl _) (.cons (.refl _) .nil)))) _
  unfold sectionCall
  simp only [pure_bind]
  split
  · exact select .nil
  · refine agrees_bind (agrees_listLiteral rendered compact) fun list list' folded => select ?_
    exact .cons ((folded.trimClosers.append (.refl _)).append (.refl _)) .nil

variable (bodies : ∀ f ∈ table.users, f.inline = true → ∀ body ∈ f.body, body.isCompact modern = true)
include bodies

theorem agrees_inlineCall (known : f ∈ table.users) (inline : f.inline = true)
    (compact : ∀ argument ∈ arguments, argument.isCompact modern = true) :
    Tied modern table Folded (inlineCall (render depth) name f arguments mark) := by
  unfold inlineCall
  refine agrees_bind agrees_get fun on off twin => ?_
  rw [twin.inlining]
  split
  · exact agrees_throw _ _
  · split
    · exact agrees_throw _ _
    · rename_i body isBody
      have setup : ∀ item ∈ f.params.zip arguments, Tied modern table Folded
          (assign (render depth) (.var item.1) .set item.2 mark) := by
        intro item member
        exact agrees_assign rendered (isCompact_var item.1) (compact item.2 (List.of_mem_zip member).2)
      refine agrees_bind (agrees_mapM _ setup) fun codes codes' each => ?_
      refine agrees_bind (agrees_expanding f.name (agrees_render rendered false (bodies f known inline body isBody)))
        fun code code' folded => agrees_pure ?_
      exact .joinLines (List.rel_append each (.cons folded .nil))

theorem agrees_userCall (known : f ∈ table.users) (compact : ∀ argument ∈ arguments, argument.isCompact modern = true) :
    Tied modern table Folded (userCall (render depth) name f arguments mark) := by
  have padded : ∀ argument ∈ arguments ++ List.replicate (f.params.length - arguments.length) (.number 0),
      argument.isCompact modern = true := forall_mem_padded compact (Tree.isCompact_number 0) _
  unfold userCall
  split
  · exact agrees_throw _ _
  · dsimp only
    split
    · rename_i inline
      exact agrees_inlineCall rendered bodies known inline padded
    · exact agrees_sectionCall rendered f padded

theorem agrees_call (compact : (Tree.call name arguments mark).isCompact modern = true) :
    Tied modern table Folded (call (render depth) name arguments mark) := by
  unfold call
  refine agrees_bind agrees_get fun on off twin => ?_
  rw [twin.tables,twin.functions]
  cases found : table.find? name with
  | none => exact agrees_throw _ _
  | some callee =>
    cases callee with
    | builtin f => exact agrees_builtinCall rendered (FunctionTable.builtin_of_find? found) compact
    | user f =>
      exact agrees_userCall rendered bodies (FunctionTable.mem_users found) (isCompact_iff.mp compact).2

theorem agrees_membership (compact : (Tree.membership value collection).isCompact modern = true) :
    Tied modern table Folded (membership (render depth) value collection) := by
  obtain ⟨node,below⟩ := isCompact_iff.mp compact
  have compared : (Tree.compare value .eq collection).isCompact modern = true :=
    Tree.isCompact_compare node (below value (by simp)) (below collection (by simp))
  exact agrees_call rendered bodies (Tree.isCompact_call (by cbv) (by simpa using compared))

omit bodies in
theorem agrees_function {params : List String} (compact : body.isCompact modern = true) (name : String)
    (inline : Bool) : Tied modern table Folded (function (render depth) name params body inline) := by
  have load (f : UserFunction) : Tied modern table (List.Forall₂ Eq) (loadParams f params) :=
    agrees_mapM _ fun _ _ => agrees_bind (agrees_variableCode _) fun _ _ same => agrees_pure (by rw [same])
  unfold function
  split
  · exact agrees_pure (.refl _)
  · refine agrees_bind agrees_get fun on off twin => ?_
    rw [twin.tables,twin.functions]
    cases table.user? name with
    | none => exact agrees_throw _ _
    | some f =>
      refine agrees_bind (agrees_variableCode selector) fun place place' samePlace => ?_
      refine agrees_bind agrees_resetSelector fun reset reset' sameReset => ?_
      refine agrees_bind (load f) fun loads loads' sameLoads => ?_
      refine agrees_bind (agrees_render rendered false compact) fun code code' folded => agrees_pure ?_
      rw [List.forall₂_eq_eq_eq] at sameLoads
      rw [samePlace,sameReset,sameLoads,folded.isSuffixOf_marker]
      have equal (codes : List String) : List.Forall₂ Folded codes codes := List.forall₂_same.mpr fun code _ => .refl code
      refine .joinLines (List.rel_append (List.rel_append (List.rel_append (equal _) (.cons folded .nil)) ?_) (equal _))
      exact equal _

theorem agrees_construct (settled : Bool) (compact : tree.isCompact modern = true) :
    Tied modern table (Rendered tree) (construct (render depth) settled tree) := by
  have below {child : Tree} (isChild : child ∈ tree.children) : child.isCompact modern = true :=
    Tree.isCompact_child compact isChild
  have code {action : Emit String} (other : tree.kind ≠ .var) (agrees : Tied modern table Folded action) :
      Tied modern table (Rendered tree) action :=
    agrees.mono fun _ _ folded => ⟨folded, fun isVar => absurd isVar other⟩
  have same {action : Emit String} (agrees : Tied modern table Eq action) :
      Tied modern table (Rendered tree) action :=
    agrees.mono fun _ _ equal => ⟨equal ▸ .refl _, fun _ => equal⟩
  cases tree with
  | number | boolean | text => exact same (agrees_pure rfl)
  | var name => exact same (agrees_variableCode name)
  | listVar name => exact same (agrees_listCode name)
  | textVar name => exact same (agrees_textCode name)
  | list items => exact code (by simp) (agrees_listLiteral rendered fun _ => below)
  | commas items =>
    refine code (by simp) (agrees_bind (agrees_renderAll rendered fun _ => below) fun _ _ each => ?_)
    exact agrees_pure (.intercalate each _)
  | range start stop step inclusive standalone =>
    refine code (by simp) (agrees_bind (agrees_rangeValues _) fun _ _ folded => agrees_pure ?_)
    split
    · exact ((Folded.refl _).append folded).append (.refl _)
    · exact folded
  | assign target mode value line =>
    exact code (by simp) (agrees_assign rendered (below (by simp)) (Tree.isCompact_assigned compact))
  | element base index =>
    refine code (by simp) ?_
    refine agrees_bind (agrees_render rendered false (below (by simp))) fun _ _ list => ?_
    refine agrees_bind (agrees_render rendered false (below (by simp))) fun _ _ place => agrees_pure ?_
    exact ((list.append (.refl _)).append place).append (.refl _)
  | block statements =>
    refine code (by simp) (agrees_bind (agrees_renderAll rendered fun _ => below) fun _ _ each => ?_)
    exact agrees_pure (.joinLines each)
  | line statements =>
    refine code (by simp) (agrees_bind (agrees_renderAll rendered fun _ => below) fun _ _ each => ?_)
    exact agrees_pure (.joinStatements each)
  | arith left op right =>
    refine code (by simp) ?_
    cases settled with
    | true => exact agrees_arithmetic rendered compact
    | false => exact agrees_again rendered compact
  | compare left op right =>
    refine code (by simp) ?_
    cases settled with
    | true => exact agrees_comparison rendered compact
    | false => exact agrees_again rendered compact
  | call name arguments mark => exact code (by simp) (agrees_call rendered bodies compact)
  | membership value collection => exact code (by simp) (agrees_membership rendered bodies compact)
  | branch condition body otherwise => exact code (by simp) (agrees_branch rendered compact)
  | forEach counter collection body =>
    exact code (by simp) (agrees_forEach rendered (below (by simp))
      (below (by simp)) (below (by simp)))
  | loop condition body untilTrue =>
    exact code (by simp) (agrees_loop rendered (below (by simp)) (below (by simp)) _)
  | function name params body inline =>
    exact code (by simp) (agrees_function rendered (below (by simp)) name inline)
  | native text =>
    refine same (agrees_bind agrees_get fun on off twin => ?_)
    rw [twin.inlining]
    exact agrees_pure rfl

end Rendering

/-! ### Programs -/

section Programs

variable {modern : Bool} {table : FunctionTable}
  (bodies : ∀ f ∈ table.users, f.inline = true → ∀ body ∈ f.body, body.isCompact modern = true)
include bodies

theorem agrees_tree (depth : Nat) (settled : Bool) (tree : Tree) (compact : tree.isCompact modern = true) :
    Tied modern table (Rendered tree) (render depth settled tree) := by
  induction depth generalizing settled tree with
  | zero => exact agrees_throw _ _
  | succ depth lower => exact agrees_construct lower bodies settled compact

theorem agrees_code (compact : tree.isCompact modern = true) : Tied modern table Folded (code tree) := by
  unfold code
  refine agrees_bind agrees_get fun on off twin => ?_
  have same : on.depth tree = off.depth tree := by rw [Emitter.depth,Emitter.depth,twin.tables]
  rw [same]
  exact (agrees_tree bodies _ false tree compact).mono fun _ _ => And.left

theorem agrees_layOut {statements : List Tree} (compact : ∀ tree ∈ statements, tree.isCompact modern = true) :
    Tied modern table Folded (layOut statements) := by
  have laid : Tied modern table (List.Forall₂ fun new old => new.1 = old.1 ∧ Folded new.2 old.2)
      (statements.mapM fun tree => return (hasSection tree, ← code tree)) :=
    agrees_mapM statements fun tree member => agrees_bind (agrees_code bodies (compact tree member)) fun _ _ folded =>
      agrees_pure ⟨rfl, folded⟩
  have chosen {news olds : List (Bool × String)} (each : List.Forall₂ (fun new old => new.1 = old.1 ∧ Folded new.2 old.2) news olds)
      (choice : Bool → Bool) : List.Forall₂ Folded ((news.filter fun new => choice new.1).map (·.2))
        ((olds.filter fun old => choice old.1).map (·.2)) := by
    induction each with
    | nil => exact .nil
    | cons first rest ih =>
      rw [List.filter_cons,List.filter_cons,first.1]
      split
      · exact .cons first.2 ih
      · exact ih
  unfold layOut
  refine agrees_bind laid fun news olds each => ?_
  have sections : List.Forall₂ Folded ((news.filter (·.1)).map (·.2)) ((olds.filter (·.1)).map (·.2)) := chosen each id
  have main : List.Forall₂ Folded ((news.filter (!·.1)).map (·.2)) ((olds.filter (!·.1)).map (·.2)) := chosen each (!·)
  have empty {codes codes' : List String} (each : List.Forall₂ Folded codes codes') : codes.isEmpty = codes'.isEmpty := by
    cases each <;> rfl
  dsimp only
  rw [empty sections]
  split
  · exact agrees_pure (.joinLines main)
  · refine agrees_bind agrees_resetSelector fun reset reset' same => agrees_pure ?_
    rw [same]
    exact .joinLines (List.rel_append (List.rel_append sections (.cons (.refl _) .nil)) main)

theorem agrees_program (compact : tree.isCompact modern = true) : Tied modern table Folded (program tree) := by
  have trimmed {action : Emit String} (agrees : Tied modern table Folded action) :
      Tied modern table Folded (action >>= fun text => pure (trimBreaks text)) :=
    agrees_bind agrees fun _ _ folded => agrees_pure folded.trimBreaks
  cases tree with
  | block statements => exact trimmed (agrees_layOut bodies (isCompact_iff.mp compact).2)
  | _ => exact trimmed (agrees_code bodies compact)

end Programs

end Emit

/-- Folding never makes the code of a compact program longer. -/
theorem folding_not_longer (symbols : Symbols) (settings : Settings) (tree : Tree) {folded plain : String}
    (compact : tree.isCompact settings.modern = true)
    (bodies : ∀ f ∈ symbols.functions.users, f.inline = true → ∀ body ∈ f.body, body.isCompact settings.modern = true)
    (on : (symbols.emit { settings with simplify := true } (Emit.program tree)).1 = .ok folded)
    (off : (symbols.emit { settings with simplify := false } (Emit.program tree)).1 = .ok plain) :
    folded.length ≤ plain.length := by
  let emitter : Emitter := { symbols, modern := settings.modern, folding := false, program := settings.programName }
  have twin : Emit.Twin settings.modern symbols.functions { emitter with folding := true } emitter :=
    ⟨rfl, rfl, rfl, symbols.diagnostics, rfl⟩
  obtain ⟨shorter,_⟩ := Emit.agrees_program bodies compact _ emitter folded plain _ _ twin (Action.outcome_eq_ok on)
    (Action.outcome_eq_ok off)
  exact shorter.length_le

theorem folding_not_longer_halves :
    let body := Tree.arith (.var "n") .div (.arith (.number 4) .sub (.number 2))
    let symbols := (Symbols.define {} "half" true ["n"] 1 body).2
    let program := Tree.block [
      .assign (.var "x") .set (.arith (.number 2) .mul (.arith (.number 3) .add (.number 4))) 1,
      .branch (.compare (.var "b") .gt (.arith (.number 10) .sub (.number 3)))
        (.block [.call "print" [.arith (.var "x") .mul (.arith (.number 1) .sub (.number 3))] 2]) none,
      .forEach (.var "i") (.range (.number 0) (.arith (.number 5) .mul (.number 2)) (.number 1) false true)
        (.block [.call "half" [.var "i"] 3])]
    let folded := "14→A\nIf B>7\nDisp A(-2)\nFor(C,0,9\nC→D\nD/2\nEnd"
    let plain := "2*(3+4→A\nIf B>10-3\nDisp A(1-3)\nFor(C,0,5*2-1\nC→D\nD/(4-2)\nEnd"
    program.isCompact true = true ∧ (∀ f ∈ symbols.functions.users, f.inline = true → ∀ body ∈ f.body, body.isCompact true = true) ∧
      (symbols.emit {} (Emit.program program)).1 = .ok folded ∧
      (symbols.emit { simplify := false } (Emit.program program)).1 = .ok plain ∧ folded.length ≤ plain.length := by
  intro body symbols program folded plain
  have compact : program.isCompact true = true := by decide +kernel
  have bodies : ∀ f ∈ symbols.functions.users, f.inline = true → ∀ body ∈ f.body, body.isCompact true = true := by
    decide +kernel
  have on : (symbols.emit {} (Emit.program program)).1 = .ok folded := by decide +kernel
  have off : (symbols.emit { simplify := false } (Emit.program program)).1 = .ok plain := by decide +kernel
  exact ⟨compact, bodies, on, off, folding_not_longer symbols {} program compact bodies on off⟩

/-- A negative value takes brackets where its difference took none, a value does not lose a closer
as its quotient does, and a skipped branch may hold the assignment that made a name short. -/
theorem folding_longer :
    let code (source : String) (simplify : Bool) := (compile { simplify } source).toOption.map (·.code)
    let signed := code "if b == 1 - 3 \x7b clrhome() \x7d"
    let divided := code "x = 1 / (4 * 8)"
    let skipped := code "x = [1, 2]; if 1 == 2 \x7b x = 5 \x7d print x; print x; print x"
    (signed true = some "If A=(-2)\nClrHome" ∧ signed false = some "If A=1-3\nClrHome") ∧
      (divided true = some "0.03125→A" ∧ divided false = some "1/(4*8→A") ∧
      (skipped true).map String.length = some 43 ∧ (skipped false).map String.length = some 42 := by
  decide +kernel

end CalcBasic
