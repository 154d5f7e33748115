import CalcBasic.Proofs.BareCalls
import CalcBasic.Proofs.Relining
import CalcBasic.Proofs.VariantReading

/-! Two readings from agreeing tables, of token lists that say the same on other lines. If
the tables agree on all that is asked of them, both readings take the same course and give
the same trees, lines apart. If they do not, the readings still define the same functions
with the same parameters. -/
namespace CalcBasic.Read
open CalcBasic.Action

/-- What two readings are compared on. -/
structure Scope where
  /-- Whether they are to give the same. -/
  same : Prop
  /-- The names before operands on which their tables agree. -/
  bare : String → Prop
  /-- The functions that they may define. -/
  defined : String → Prop
  /-- Where the lines of the one are found in the other. -/
  place : Nat → Nat
  still : place 0 = 0

namespace Scope

variable {scope : Scope} {α β : Type}

def write (scope : Scope) : Token → Token := Token.relined scope.place

def tree (scope : Scope) : Tree → Tree := Tree.relined scope.place

theorem rewording (scope : Scope) : Rewording scope.write := rewording_relined scope.place

/-- From agreeing tables the second action comes to an agreeing table and a related value,
if it ends well where the first does, as it must where the two are to give the same. The
first changes no function but those that it may define. -/
def Steady (scope : Scope) (related : α → α → Prop) (action other : Read α) : Prop :=
  ∀ ⦃symbols symbols' after : Symbols⦄ ⦃value : α⦄, Agree scope.bare symbols symbols' →
    outcome action symbols = (.ok value, after) →
    (scope.same → ∃ value' after', outcome other symbols' = (.ok value', after')) ∧
    ∀ ⦃value' : α⦄ ⦃after' : Symbols⦄, outcome other symbols' = (.ok value', after') →
      Agree scope.bare after after' ∧ Kept scope.defined symbols after ∧ related value value'

/-- The second value has the given form of the first, if the readings are to give the same. -/
def Same (scope : Scope) (form : α → α) (value value' : α) : Prop := scope.same → value' = form value

section Rules

variable {related : α → α → Prop} {last : β → β → Prop}

theorem steady_pure {value value' : α} (known : related value value') : scope.Steady related (pure value) (pure value') := by
  intro symbols symbols' after _ agree done
  cases done
  refine ⟨fun _ => ⟨value', symbols', rfl⟩, fun _ _ done' => ?_⟩
  cases done'
  exact ⟨agree, .of_functions rfl, known⟩

theorem steady_fail (fault : Fault) (line : Nat) (other : Read α) : scope.Steady related (fail fault line) other := by
  intro symbols symbols' after _ agree done
  cases done

theorem steady_bind {first first' : Read α} {next next' : α → Read β} (start : scope.Steady related first first')
    (continued : ∀ value value', related value value' → scope.Steady last (next value) (next' value')) :
    scope.Steady last (first >>= next) (first' >>= next') := by
  intro symbols symbols' after _ agree done
  obtain ⟨given,middle,reached,ended⟩ := outcome_bind_eq_ok done
  obtain ⟨succeeds,starts⟩ := start agree reached
  constructor
  · intro held
    obtain ⟨given',middle',reached'⟩ := succeeds held
    obtain ⟨halfway,-,known⟩ := starts reached'
    obtain ⟨value',after',ended'⟩ := (continued given given' known halfway ended).1 held
    exact ⟨value', after', by rw [outcome_bind_ok reached',ended']⟩
  · intro _ _ done'
    obtain ⟨given',middle',reached',ended'⟩ := outcome_bind_eq_ok done'
    obtain ⟨halfway,kept,known⟩ := starts reached'
    obtain ⟨final,later,result⟩ := (continued given given' known halfway ended).2 ended'
    exact ⟨final, kept.trans later, result⟩

theorem Steady.mono {action other : Read α} {weaker : α → α → Prop} (steady : scope.Steady related action other)
    (imply : ∀ value value', related value value' → weaker value value') : scope.Steady weaker action other := by
  intro symbols symbols' after value agree done
  obtain ⟨succeeds,reaches⟩ := steady agree done
  refine ⟨succeeds, fun value' after' done' => ?_⟩
  obtain ⟨final,kept,known⟩ := reaches done'
  exact ⟨final, kept, imply value value' known⟩

theorem steady_look {next next' : Symbols → Read α}
    (each : ∀ symbols other, Agree scope.bare symbols other → scope.Steady related (next symbols) (next' other)) :
    scope.Steady related (get >>= next) (get >>= next') := by
  intro symbols symbols' after _ agree done
  rw [outcome_bind_ok (outcome_get _)] at done ⊢
  exact each symbols symbols' agree agree done

theorem steady_of_keeps (free : ¬ scope.same) {action other : Read α} {form : α → α}
    (first : Keeps (fun before after => after.functions = before.functions) action)
    (second : Keeps (fun before after => after.functions = before.functions) other) :
    scope.Steady (scope.Same form) action other := by
  intro symbols symbols' after value agree done
  refine ⟨fun held => absurd held free, fun value' after' done' => ?_⟩
  have kept := first symbols
  have kept' := second symbols'
  rw [done] at kept
  rw [done'] at kept'
  exact ⟨agree.of_functions kept kept', .of_functions kept, fun held => absurd held free⟩

/-- The action ends well with this value and leaves the functions alone. -/
def Gives (action : Read α) (value : α) : Prop :=
  ∀ symbols, ∃ after, outcome action symbols = (.ok value, after) ∧ after.functions = symbols.functions

theorem steady_of_gives {action other : Read α} {value value' : α} (first : Gives action value) (second : Gives other value')
    (known : related value value') : scope.Steady related action other := by
  intro symbols symbols' after _ agree done
  obtain ⟨after',done',kept'⟩ := second symbols'
  obtain ⟨_,again,kept⟩ := first symbols
  rw [done] at again
  cases again
  refine ⟨fun _ => ⟨value', after', done'⟩, fun _ _ again' => ?_⟩
  rw [done'] at again'
  cases again'
  exact ⟨agree.of_functions kept kept', .of_functions kept, known⟩

end Rules

/-! ### Actions that give one value -/

theorem gives_change {change : Symbols → Symbols} (kept : ∀ symbols, (change symbols).functions = symbols.functions) :
    Gives (modify change : Read Unit) () := fun symbols => ⟨change symbols, rfl, kept symbols⟩

theorem gives_quiet {action : Read Unit} (quiet : Quiet action) : Gives action () := by
  intro symbols
  obtain ⟨notes,done⟩ := quiet symbols
  exact ⟨_, done, rfl⟩

theorem gives_reference (name : String) : Gives (reference name) name.toLower :=
  fun symbols => ⟨_, rfl, Written.functions_reference symbols name⟩

theorem gives_unknown (markUnknown : Bool) (tokens : List Token) :
    Gives (unknown markUnknown tokens) (if markUnknown then .text "unknown_expr" else .native "") :=
  fun _ => ⟨_, rfl, rfl⟩

theorem gives_callTree (name : Token) (arguments : List Tree) :
    Gives (callTree name arguments) (Tree.callOf name.text arguments name.line) := by
  intro symbols
  unfold callTree
  rw [outcome_bind_ok (outcome_get symbols)]
  split
  · split
    · exact ⟨_, rfl, rfl⟩
    · exact ⟨_, rfl, Written.functions_reference symbols selector⟩
  · exact ⟨_, rfl, rfl⟩

theorem steady_change {change : Symbols → Symbols} (kept : ∀ symbols, (change symbols).functions = symbols.functions) :
    scope.Steady (fun _ _ => True) (modify change : Read Unit) (modify change) :=
  steady_of_gives (gives_change kept) (gives_change kept) trivial

theorem steady_quiet {action other : Read Unit} (first : Quiet action) (second : Quiet other) :
    scope.Steady (fun _ _ => True) action other :=
  steady_of_gives (gives_quiet first) (gives_quiet second) trivial

theorem steady_remark (note other : Remark) (line line' : Option Nat) :
    scope.Steady (fun _ _ => True) (remark note line) (remark other line') :=
  steady_quiet (quiet_remark _ _) (quiet_remark _ _)

end Scope

/-- Reading an expression defines no function. -/
theorem functions_pervade :
    PervadesExpressions fun action => Keeps (fun before after : Symbols => after.functions = before.functions) action where
  pure value _ := rfl
  fail _ _ _ := rfl
  bind {_ _ first next} start continued symbols := by
    have before := start symbols
    rw [outcome_bind]
    generalize outcome first symbols = reached at before ⊢
    rcases reached with ⟨_ | value,middle⟩
    · exact before
    · exact (continued value middle).trans before
  look _ each symbols := each symbols symbols
  remark _ _ _ _ := rfl
  use name symbols := Written.functions_reference symbols name
  listType _ _ := rfl

namespace Scope

/-! ### Expressions -/

variable {scope : Scope} (markUnknown : Bool)

theorem steady_unknown (tokens others : List Token) :
    scope.Steady (scope.Same scope.tree) (unknown markUnknown tokens) (unknown markUnknown others) := by
  refine steady_of_gives (gives_unknown markUnknown tokens) (gives_unknown markUnknown others) fun _ => ?_
  split <;> rfl

theorem steady_callTree (name : Token) {arguments arguments' : List Tree}
    (known : scope.Same (List.map scope.tree) arguments arguments') :
    scope.Steady (scope.Same scope.tree) (callTree name arguments) (callTree (scope.write name) arguments') := by
  refine steady_of_gives (gives_callTree name arguments) (gives_callTree (scope.write name) arguments') fun held => ?_
  rw [known held]
  exact (Tree.relined_callOf scope.place name.text arguments name.line).symm

theorem steady_number (token : Token) : scope.Steady (scope.Same scope.tree) (number token) (number (scope.write token)) := by
  unfold number
  rw [show (scope.write token).text = token.text from rfl]
  split
  · exact steady_pure fun _ => rfl
  · exact steady_fail _ _ _

/-- The scope has room for what stands in a token list. -/
structure Covers (scope : Scope) (tokens : List Token) : Prop where
  bare : scope.same → ∀ name ∈ Token.bareNames tokens, scope.bare name
  defined : ∀ name ∈ Token.definedNames tokens, scope.defined name

theorem Covers.part {tokens part : List Token} (covered : scope.Covers tokens) (inside : part <:+: tokens) : scope.Covers part :=
  ⟨fun held name member => covered.bare held name (Token.bareNames_subset inside member),
    fun name member => covered.defined name (Token.definedNames_subset inside member)⟩

/-- Expressions are read alike from agreeing tables where the scope has room for the names that stand bare. -/
theorem pairs_steady_expressions {covers : List Token → Prop}
    (parts : ∀ {tokens part : List Token}, covers tokens → part <:+: tokens → covers part)
    (bare : ∀ {tokens : List Token}, covers tokens → scope.same → ∀ name ∈ Token.bareNames tokens, scope.bare name) :
    PairsExpressions markUnknown scope.write scope.write covers (scope.Same scope.tree)
      (scope.Same (List.map scope.tree)) (scope.Steady ·) where
  rewording := scope.rewording
  verbatim _ := ⟨rfl, rfl⟩
  part := parts
  pure := steady_pure
  bind := steady_bind
  remark _ _ _ _ := steady_remark _ _ _ _
  fail _ _ _ _ _ := steady_fail _ _ _
  unknown _ _ := steady_unknown markUnknown _ _
  number _ := steady_number _
  reference name := steady_of_gives (gives_reference name.text) (gives_reference name.text) rfl
  listType _ := steady_change fun _ => rfl
  callTree _ known := steady_callTree _ known
  shape {tokens} covered each := by
    by_cases held : scope.same
    · have line : upToTerminator tokens <:+: tokens := (List.takeWhile_prefix _).isInfix
      rw [expression_eq,expression_eq,upToTerminator_map scope.rewording]
      refine steady_look fun symbols other agree => ?_
      rw [Shape.of_rewrite scope.rewording scope.write (fun _ _ _ => rfl),
        agree.shape fun name member => bare covered held name (Token.bareNames_subset line member)]
      exact each other.functions
    · exact steady_of_keeps held (functions_pervade.expression markUnknown _) (functions_pervade.expression markUnknown _)
  nil _ := rfl
  cons one more held := by rw [one held,more held,List.map_cons]
  leaf {one} free childless _ := by
    cases one with
    | call => exact absurd rfl free
    | list items | commas items | block items | line items => cases items <;> first | rfl | cases childless
    | branch _ _ other => cases other <;> cases childless
    | _ => first | rfl | cases childless
  item {one _} known held := by rw [known held]; exact (Tree.relined_listItem scope.place one).symm
  items {ones _} known held := by rw [known held]; exact (Tree.relined_list scope.place ones).symm
  membership one two held := by rw [one held,two held]; rfl
  range _ one two three held := by rw [one held,two held,three held]; rfl
  operation {left _ right _} op one two held := by
    rw [one held,two held]
    exact (Tree.relined_operationTree scope.place left right op).symm
  element one two held := by rw [one held,two held]; rfl
  complement {operand _ mark} _ known held := by
    rw [known held]
    exact (Tree.relined_callOf scope.place "not" [operand] mark.line).symm

/-! ### Statements -/

theorem steady_functionTree {name : Token} (isDefined : scope.defined name.text.toLower) (inline : Bool)
    {parameters parameters' : Parameters} (header : PairedParameters (scope.Same (List.map scope.tree)) parameters parameters')
    {statements statements' : List Tree} (known : scope.Same (List.map scope.tree) statements statements') :
    scope.Steady (scope.Same scope.tree) (functionTree name inline parameters statements)
      (functionTree (scope.write name) inline parameters' statements') := by
  have enter : scope.Steady (fun _ _ => True)
      (modify fun symbols => (symbols.define name.text inline parameters.names parameters.required
        (.block (parameters.guards ++ statements))).2 : Read Unit)
      (modify fun symbols => (symbols.define name.text inline parameters'.names parameters'.required
        (.block (parameters'.guards ++ statements'))).2) := by
    intro symbols symbols' after _ agree done
    cases done
    refine ⟨fun _ => ⟨_, _, rfl⟩, fun _ _ done' => ?_⟩
    cases done'
    refine ⟨?_, .define symbols isDefined _ _ _ _, trivial⟩
    rw [← header.names]
    exact agree.define _ _ _
  have whole : scope.Same scope.tree
      (.function name.text.toLower parameters.names (.block (parameters.guards ++ statements)) inline)
      (.function name.text.toLower parameters'.names (.block (parameters'.guards ++ statements')) inline) := by
    intro held
    rw [header.names,header.guards held,known held,tree,Tree.relined,Tree.relined_block,List.map_append]
  unfold functionTree
  dsimp only
  split
  · exact steady_bind enter fun _ _ _ => steady_pure whole
  · refine steady_bind (steady_change fun symbols => Written.functions_reference symbols selector) fun _ _ _ => ?_
    exact steady_bind enter fun _ _ _ => steady_pure whole

theorem steady_loopHeader (head : Token) {condition : List Token} (covered : scope.Covers condition) :
    scope.Steady (scope.Same (Prod.map scope.tree scope.tree)) (loopHeader markUnknown head condition)
      (loopHeader markUnknown (scope.write head) (condition.map scope.write)) := by
  unfold loopHeader
  rw [write,fromAsMembership_relined]
  -- the membership that the source word becomes is no part of the condition: only its bare names are known
  have pairs := @pairs_steady_expressions scope markUnknown (fun tokens => scope.same → ∀ name ∈ Token.bareNames tokens, scope.bare name)
    (fun known inside held name member => known held name (Token.bareNames_subset inside member)) (fun known => known)
  refine steady_bind (pairs.expression fun held name member =>
    covered.bare held name (Token.bareNames_fromAsMembership condition member)) fun tree tree' known => ?_
  by_cases held : scope.same
  · obtain rfl := known held
    cases tree with
    | membership value collection => exact steady_pure fun _ => rfl
    | _ => exact steady_fail _ _ _
  · apply steady_of_keeps held
    all_goals
      split
      · exact functions_pervade.pure _
      · exact functions_pervade.fail _ _

theorem pairs_steady : Pairs markUnknown scope.write scope.write scope.Covers (scope.Same scope.tree)
    (scope.Same (List.map scope.tree)) (scope.Same (Option.map scope.tree)) (scope.Steady ·) where
  toPairsExpressions := pairs_steady_expressions markUnknown Covers.part fun covered => covered.bare
  append first later held := by rw [first held,later held,List.map_append]
  none _ := rfl
  some known held := by rw [known held,Option.map_some]
  toList known held := by rw [known held,Option.toList_map]
  block {trees _} known held := (congrArg Tree.block (known held)).trans (Tree.relined_block scope.place trees).symm
  assign _ _ _ target value held := by rw [target held,value held]; rfl
  loop _ condition code held := by rw [condition held,code held]; rfl
  branch {condition _ _ _ _ _} negative test code last held := by
    rw [test held,code held,last held,tree,Tree.relined_branch]
    cases negative with
    | true => exact congrArg (Tree.branch · _ _) (Tree.relined_negated scope.place scope.still condition).symm
    | false => rfl
  checkBody _ _ := steady_quiet (quiet_checkBody _) (quiet_checkBody _)
  remarks _ := steady_quiet (quiet_remarks _) (quiet_remarks _)
  loopHeader {head condition} covered := by
    have inside : condition <:+: head :: condition := (List.suffix_cons head condition).isInfix
    refine (steady_loopHeader markUnknown head (covered.part inside)).mono fun read _ known code _ same held => ?_
    rw [known held,same held]
    rfl
  functionTree covered outline header trees :=
    steady_functionTree (covered.defined _ (Outline.defined_of_function outline)) _ header trees
  leave {tokens _ _ _} covered outline each := by
    have whole := Outline.of_within tokens
    rw [outline] at whole
    by_cases held : scope.same
    · rw [ofOutline_leave,ofOutline_leave]
      refine steady_look fun symbols other agree => ?_
      rw [agree.called? (Outline.callable_of_leave outline) ((covered.part whole).bare held)]
      exact each other.functions
    · -- whether it is a call need not agree where nothing is to be the same
      apply steady_of_keeps held
      all_goals
        refine functions_pervade.bind (functions_pervade.call? markUnknown _ _) fun tree => ?_
        split
        · exact functions_pervade.pure _
        · exact functions_pervade.bind (functions_pervade.unknown markUnknown _) fun _ => functions_pervade.pure _

end Scope
end CalcBasic.Read
