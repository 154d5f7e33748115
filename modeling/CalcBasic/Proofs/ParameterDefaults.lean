import CalcBasic.Proofs.CodeLines
import CalcBasic.Proofs.LeadingMarks
import CalcBasic.Proofs.Session
import CalcBasic.Proofs.WrittenExpression

/-! Functions all of whose parameters have defaults. The parameter list is parted at every
comma, also at one inside the brackets of a default. So the defaults are read as they are
read by themselves if and only if there is no comma in any of them. -/
namespace CalcBasic
open List
open Extent (endsHeader)
open Brackets (Nested closing?)

/-! ### Readings over the same functions -/

def Remark.isBadParameter : Remark → Bool
  | .badParameter _ => true
  | _ => false

namespace Read
open CalcBasic.Action Written

/-- The result, the functions left behind and the remarks made depend on nothing but the
functions that are known. -/
def HangsOnFunctions {α : Type} (action : Read α) : Prop :=
  ∀ symbols other, other.functions = symbols.functions →
    (outcome action other).1 = (outcome action symbols).1 ∧
    (outcome action other).2.functions = (outcome action symbols).2.functions ∧
    ∃ added, (outcome action symbols).2.diagnostics = symbols.diagnostics ++ added ∧
      (outcome action other).2.diagnostics = other.diagnostics ++ added

theorem hangs_modify {change : Symbols → Symbols} (added : List Diagnostic)
    (functions : ∀ symbols other, other.functions = symbols.functions → (change other).functions = (change symbols).functions)
    (notes : ∀ symbols, (change symbols).diagnostics = symbols.diagnostics ++ added) :
    HangsOnFunctions (modify change : Read Unit) :=
  fun symbols other same => ⟨rfl, functions symbols other same, added, notes symbols, notes other⟩

theorem hangs_bind {α β : Type} {first : Read α} {next : α → Read β} (start : HangsOnFunctions first)
    (continued : ∀ value, HangsOnFunctions (next value)) : HangsOnFunctions (first >>= next) := by
  intro symbols other same
  obtain ⟨result,functions,early,noted,otherNoted⟩ := start symbols other same
  rcases done : outcome first symbols with ⟨error | value,middle⟩
  all_goals
    rcases otherDone : outcome first other with ⟨_,otherMiddle⟩
    rw [done,otherDone] at result functions
    rw [done] at noted
    rw [otherDone] at otherNoted
    obtain rfl : _ = _ := result
    simp only [outcome_bind,done,otherDone]
  · exact ⟨trivial, functions, early, noted, otherNoted⟩
  · obtain ⟨sameResult,left,late,added,otherAdded⟩ := continued value middle otherMiddle functions
    refine ⟨sameResult, left, early ++ late, ?_, ?_⟩
    · rw [added,noted,append_assoc]
    · rw [otherAdded,otherNoted,append_assoc]

theorem hangs_pervade : Pervades HangsOnFunctions where
  pure _ _ _ same := ⟨rfl, same, [], (append_nil _).symm, (append_nil _).symm⟩
  fail _ _ _ _ same := ⟨rfl, same, [], (append_nil _).symm, (append_nil _).symm⟩
  bind := hangs_bind
  look blind each symbols other same := by
    rw [outcome_bind_ok (outcome_get _),outcome_bind_ok (outcome_get _),blind symbols other same]
    exact each symbols symbols other same
  remark note line := hangs_modify [⟨note, line⟩] (fun _ _ same => same) fun _ => rfl
  use name := hangs_modify []
    (fun symbols other same => by rw [functions_reference,functions_reference,same])
    fun symbols => by rw [diagnostics_reference,append_nil]
  listType _ := hangs_modify [] (fun _ _ same => same) fun _ => (append_nil _).symm
  declare name inline := hangs_modify []
    (fun symbols other same => by simp only [Symbols.declare,same]) fun _ => (append_nil _).symm
  define name inline params required body := hangs_modify []
    (fun symbols other same => by simp only [Symbols.define,same]) fun _ => (append_nil _).symm

/-- The remarks that an action makes. -/
def remarksOf {α : Type} (action : Read α) (symbols : Symbols) : List Diagnostic :=
  (outcome action (symbols.noting [])).2.diagnostics

/-- A reading goes as it goes by itself, wherever the same functions are known. -/
theorem HangsOnFunctions.again {α : Type} {action : Read α} (hangs : HangsOnFunctions action) {symbols other : Symbols}
    (same : other.functions = symbols.functions) {value : α} (read : (outcome action symbols).1 = .ok value) :
    ∃ after, outcome action other = (.ok value, after) ∧
      after.diagnostics = other.diagnostics ++ remarksOf action symbols := by
  obtain ⟨result,-,-⟩ := hangs symbols other same
  obtain ⟨-,-,added,noted,otherNoted⟩ := hangs (symbols.noting []) other same
  refine ⟨_, outcome_eq_ok (result.trans read), ?_⟩
  rw [otherNoted,remarksOf,noted]
  rfl

/-! ### Parameters that are not read -/

def badParameters (notes : List Diagnostic) : Nat := notes.countP (·.remark.isBadParameter)

theorem badParameters_append (notes more : List Diagnostic) :
    badParameters (notes ++ more) = badParameters notes + badParameters more := countP_append

/-- No function and no bad parameter more than before. -/
structure Steady (before after : Symbols) : Prop where
  functions : after.functions = before.functions
  bad : badParameters after.diagnostics = badParameters before.diagnostics

instance : Std.Refl Steady := ⟨fun _ => ⟨rfl, rfl⟩⟩

instance : Trans Steady Steady Steady :=
  ⟨fun first second => ⟨second.functions.trans first.functions, second.bad.trans first.bad⟩⟩

theorem steady_reference (symbols : Symbols) (name : String) : Steady symbols (symbols.reference name) :=
  ⟨functions_reference symbols name, congrArg badParameters (diagnostics_reference symbols name)⟩

theorem steady_remark {note : Remark} (other : note.isBadParameter = false) (line : Option Nat) (symbols : Symbols) :
    Steady symbols (symbols.remark note line) :=
  ⟨rfl, by simp [Symbols.remark,badParameters,other]⟩

theorem steady_pervades : PervadesExpressions (Keeps Steady) where
  pure := keeps_pure
  fail _ _ := keeps_throw _
  bind := keeps_bind
  look _ each := keeps_bind keeps_get each
  remark note line onExpression symbols := steady_remark (by cases note <;> first | rfl | cases onExpression) line symbols
  use name symbols := steady_reference symbols name
  listType _ _ := ⟨rfl, rfl⟩

variable (markUnknown : Bool)

theorem remarksOf_expression (tokens : List Token) (symbols : Symbols) :
    badParameters (remarksOf (expression markUnknown tokens) symbols) = 0 :=
  (steady_pervades.expression markUnknown tokens (symbols.noting [])).bad

theorem keeps_defaultGuard (name : String) (value : Tree) (line : Nat) :
    Keeps Steady (defaultGuard name value line) :=
  have known := steady_pervades
  known.bind (known.reference name) fun _ => known.bind (known.reference name) fun _ => known.pure _

/-- Every group of a parameter list gives a parameter or is found bad. -/
theorem parameter_counted {name : Token} {before after : Parameters} {group : List Token} {symbols later : Symbols}
    (done : outcome (parameter markUnknown name before group) symbols = (.ok after, later)) :
    later.functions = symbols.functions ∧ after.names.length + badParameters later.diagnostics =
      before.names.length + badParameters symbols.diagnostics + 1 := by
  have bad {state : Symbols} (ran : outcome (do
      remark (.badParameter name.text) (some name.line)
      return before : Read Parameters) symbols = (.ok after, state)) :
      state.functions = symbols.functions ∧ after.names.length + badParameters state.diagnostics =
        before.names.length + badParameters symbols.diagnostics + 1 := by
    cases ran
    exact ⟨rfl, by simp [badParameters,Symbols.remark,Remark.isBadParameter]; omega⟩
  -- a parameter is added by an action that is steady
  have added {names : List String} {state : Symbols} (one : names.length = before.names.length + 1)
      (same : after.names = names) (steady : Steady symbols state) :
      state.functions = symbols.functions ∧ after.names.length + badParameters state.diagnostics =
        before.names.length + badParameters symbols.diagnostics + 1 :=
    ⟨steady.functions, by rw [same,one,steady.bad]; omega⟩
  unfold parameter at done
  split at done
  · exact bad done
  · rename_i param rest
    split at done
    · obtain ⟨key,middle,referred,done⟩ := outcome_bind_eq_ok done
      have early : Steady symbols middle := by
        have kept := steady_pervades.reference param.text symbols
        rwa [referred] at kept
      have one : (before.names ++ [key]).length = before.names.length + 1 := length_append
      dsimp only at done
      split at done
      · cases done
        exact added one rfl early
      · rename_i mark value _
        split at done
        · obtain ⟨tree,read,found,done⟩ := outcome_bind_eq_ok done
          obtain ⟨guard,last,guarded,done⟩ := outcome_bind_eq_ok done
          have valued := steady_pervades.expression markUnknown value middle
          have stated := keeps_defaultGuard param.text tree mark.line read
          rw [found] at valued
          rw [guarded] at stated
          cases done
          exact added one rfl (Trans.trans early (Trans.trans valued stated))
        · split at done
          · cases done
          · cases done
            exact added one rfl (Trans.trans early (steady_remark rfl _ _))
    · exact bad done

theorem parameters_counted {name : Token} {groups : List (List Token)} {before after : Parameters} {symbols later : Symbols}
    (done : outcome (groups.foldlM (parameter markUnknown name) before) symbols = (.ok after, later)) :
    later.functions = symbols.functions ∧ after.names.length + badParameters later.diagnostics =
      before.names.length + badParameters symbols.diagnostics + groups.length := by
  induction groups generalizing before symbols with
  | nil => cases done; exact ⟨rfl, rfl⟩
  | cons group rest ih =>
    rw [foldlM_cons] at done
    obtain ⟨next,middle,first,done⟩ := outcome_bind_eq_ok done
    obtain ⟨same,counted⟩ := parameter_counted markUnknown first
    obtain ⟨still,others⟩ := ih done
    exact ⟨still.trans same, by rw [others,counted,length_cons]; omega⟩

end Read

/-! ### Headers with defaults -/

/-- A parameter with a default. -/
structure Default where
  param : Word (·.tag == .identifier)
  mark : Word (·.tag == .assign)
  value : List Token
  nested : Nested value
  bare : ∀ token ∈ value, endsHeader token = false

namespace Default

def tokens (default : Default) : List Token := default.param.1 :: default.mark.1 :: default.value

def name (default : Default) : String := default.param.1.text.toLower

/-- `if not(name) { name = value }` -/
def guard (default : Default) (value : Tree) : Tree :=
  .branch (Tree.callOf "not" [.var default.name] default.mark.1.line)
    (.block [.assign (.var default.name) .set value default.mark.1.line]) none

theorem nested_tokens (default : Default) : Nested default.tokens := by
  have param := beq_iff_eq.mp default.param.2
  have mark := beq_iff_eq.mp default.mark.2
  exact .token (by rw [param]; rfl) (by rw [param]; rfl)
    (.token (by rw [mark]; rfl) (by rw [mark]; rfl) default.nested)

theorem bare_tokens (default : Default) : ∀ token ∈ default.tokens, endsHeader token = false := by
  have param := beq_iff_eq.mp default.param.2
  have mark := beq_iff_eq.mp default.mark.2
  intro token member
  rcases mem_cons.mp member with rfl | member
  · rw [endsHeader,param]; rfl
  rcases mem_cons.mp member with rfl | member
  · rw [endsHeader,mark]; rfl
  exact default.bare token member

/-- The pieces between the commas of a parameter. -/
def groups (default : Default) : List (List Token) := Groups.split (·.tag == .delimiter) default.tokens

theorem length_groups (default : Default) :
    default.groups.length = default.value.countP (·.tag == .delimiter) + 1 := by
  rw [groups,Groups.length_split,tokens,countP_cons_of_neg,countP_cons_of_neg]
  · rw [beq_iff_eq.mp default.mark.2]; decide
  · rw [beq_iff_eq.mp default.param.2]; decide

theorem groups_of_whole {default : Default} (whole : ∀ token ∈ default.value, token.tag ≠ .delimiter) :
    default.groups = [default.tokens] := by
  rw [groups,Groups.split_eq_splitOnP]
  apply splitOnP_eq_singleton
  simp only [tokens,forall_mem_cons,beq_eq_false_iff_ne]
  exact ⟨by rw [beq_iff_eq.mp default.param.2]; decide, by rw [beq_iff_eq.mp default.mark.2]; decide, whole⟩

end Default

/-- `function name(param = value, ...) { code }`: every parameter has a default. -/
structure DefaultedFunction where
  inlined : Option (Word Token.isInline)
  head : Word (·.isKeyword "function")
  name : Word (·.tag == .identifier)
  opening : Word (·.tag == .parenOpen)
  defaults : List Default
  list : List Token
  listed : Delimited (defaults.map Default.tokens) list
  closing : Word (·.tag == .parenClose)
  brace : Word (·.tag == .blockOpen)
  code : List Token
  ending : Token
  closed : closing? brace.1 (code ++ [ending]) = some ⟨code, ending, []⟩

namespace DefaultedFunction

variable (f : DefaultedFunction)

def header : List Token := f.opening.1 :: f.list ++ [f.closing.1]

def tokens : List Token :=
  (f.inlined.map Subtype.val).toList ++ f.head.1 :: f.name.1 :: f.header ++ f.brace.1 :: f.code ++ [f.ending]

def params : List String := f.defaults.map Default.name

/-- The pieces that the parameter list is parted into. -/
def groups : List (List Token) := f.defaults.flatMap Default.groups

theorem length_groups :
    f.groups.length = (f.defaults.map fun default => default.value.countP (·.tag == .delimiter)).sum + f.defaults.length := by
  rw [groups,length_flatMap]
  induction f.defaults with
  | nil => rfl
  | cons default rest ih =>
    simp only [map_cons,sum_cons,length_cons]
    rw [ih,Default.length_groups]
    omega

end DefaultedFunction

theorem Delimited.nested {groups : List (List Token)} {tokens : List Token} (joined : Delimited groups tokens)
    (each : ∀ group ∈ groups, Nested group) : Nested tokens := by
  induction joined with
  | nil => exact .nil
  | last group => exact each group mem_cons_self
  | cons group isComma _ ih =>
    exact (each group mem_cons_self).append (.token (by rw [isComma]; rfl) (by rw [isComma]; rfl)
      (ih fun other member => each other (mem_cons_of_mem _ member)))

theorem Delimited.bare {groups : List (List Token)} {tokens : List Token} (joined : Delimited groups tokens)
    (each : ∀ group ∈ groups, ∀ token ∈ group, endsHeader token = false) :
    ∀ token ∈ tokens, endsHeader token = false := by
  induction joined with
  | nil => simp
  | last group => exact each group mem_cons_self
  | cons group isComma _ ih =>
    have others := ih fun other member => each other (mem_cons_of_mem _ member)
    intro token member
    rcases mem_append.mp member with member | member
    · exact each group mem_cons_self token member
    · rcases mem_cons.mp member with rfl | member
      · rw [endsHeader,isComma]; rfl
      · exact others token member

/-- A parameter list is parted between its parameters, and wherever else a comma is. -/
theorem Delimited.parted {groups : List (List Token)} {tokens : List Token} (joined : Delimited groups tokens)
    (filled : ∀ group ∈ groups, group ≠ []) (remarks : List Diagnostic) :
    (ParameterList.mk tokens remarks).groups = groups.flatMap (Groups.split (·.tag == .delimiter)) := by
  have some (present : tokens ≠ []) : (ParameterList.mk tokens remarks).groups = Groups.split (·.tag == .delimiter) tokens :=
    if_neg (by simpa using present)
  induction joined with
  | nil => rfl
  | last group => rw [some (filled group mem_cons_self),flatMap_singleton]
  | @cons group comma next groups tokens isComma others ih =>
    have more : tokens ≠ [] := by
      have present := filled next (by simp)
      cases others <;> simp [present]
    have rest := ih (fun other member => filled other (mem_cons_of_mem _ member)) fun _ => if_neg (by simpa using more)
    rw [some (by simp),flatMap_cons,← rest,ParameterList.groups,if_neg (by simpa using more)]
    simp only [Groups.split_eq_splitOnP]
    exact splitOnP_append_cons _ _ (beq_iff_eq.mpr isComma)

namespace DefaultedFunction
open CalcBasic.Action CalcBasic.Read

variable (f : DefaultedFunction) (markUnknown : Bool)

theorem bare_header : ∀ token ∈ f.header, (!endsHeader token) = true := by
  have list := f.listed.bare (by simpa using fun default _ => default.bare_tokens)
  intro token member
  rw [header,mem_append,mem_cons,mem_singleton] at member
  rcases member with (rfl | member) | rfl
  · rw [endsHeader,beq_iff_eq.mp f.opening.2]; rfl
  · rw [list token member]; rfl
  · rw [endsHeader,beq_iff_eq.mp f.closing.2]; rfl

theorem parameterList : ParameterList.of f.name.1 f.header = ⟨f.list, []⟩ := by
  have opens := beq_iff_eq.mp f.opening.2
  have nested := f.listed.nested (by simpa using fun default _ => default.nested_tokens)
  have found : closing? f.opening.1 (f.list ++ [f.closing.1]) = some ⟨f.list, f.closing.1, []⟩ :=
    Brackets.closing?_nested [] (by rw [opens,beq_iff_eq.mp f.closing.2]; rfl) nested
  rw [header,cons_append,ParameterList.of,if_pos opens,found]
  rfl

theorem groups_eq : (ParameterList.mk f.list []).groups = f.groups := by
  rw [f.listed.parted (by simp [Default.tokens]),flatMap_map]
  rfl

theorem body_eq : Body.of (f.brace.1 :: f.code ++ [f.ending]) = ⟨[], f.brace.1 :: f.code ++ [f.ending], [], none⟩ := by
  have opens := beq_iff_eq.mp f.brace.2
  have solid : f.brace.1.isTerminator = false := by rw [Token.isTerminator,opens]; rfl
  simp [Body.of,solid,opens,f.closed]

theorem block_eq : block markUnknown (f.brace.1 :: f.code ++ [f.ending]) = statements markUnknown f.code := by
  rw [cons_append,block,if_pos (beq_iff_eq.mp f.brace.2),braced_eq,f.closed]
  rfl

theorem parameters_eq : parameters markUnknown f.name.1 f.header =
    f.groups.foldlM (parameter markUnknown f.name.1) {} := by
  rw [parameters,f.parameterList,f.groups_eq]
  rfl

theorem statement_eq : statement markUnknown f.tokens = do
    let parameters ← f.groups.foldlM (parameter markUnknown f.name.1) {}
    let code ← statements markUnknown f.code
    return some (← functionTree f.name.1 f.inlined.isSome parameters code) := by
  have outline : Outline.of f.tokens =
      .function f.name.1 (f.header ++ f.brace.1 :: f.code ++ [f.ending]) f.inlined.isSome := by
    have word : f.head.1.isKeyword "function" = true := f.head.2
    have named := beq_iff_eq.mp f.name.2
    simp only [tokens,append_assoc,cons_append]
    cases f.inlined with
    | none =>
      rw [Token.isKeyword,Bool.and_eq_true,beq_iff_eq,Token.spells,beq_iff_eq] at word
      refine (outline_of_keyword word.1 _).trans ?_
      simp [Outline.ofKeyword,word.2,Outline.ofFunction,named]
    | some mark =>
      refine (outline_of_inline mark.2 word _).trans ?_
      simp [Outline.ofFunction,named]
  have ends : (!endsHeader f.brace.1) = false := by rw [endsHeader,beq_iff_eq.mp f.brace.2]; rfl
  have header : (f.header ++ f.brace.1 :: f.code ++ [f.ending]).takeWhile (!endsHeader ·) = f.header := by
    rw [append_assoc,takeWhile_append_of_pos f.bare_header]
    simp [ends]
  have rest : (f.header ++ f.brace.1 :: f.code ++ [f.ending]).dropWhile (!endsHeader ·) =
      f.brace.1 :: f.code ++ [f.ending] := by
    rw [append_assoc,dropWhile_append_of_pos f.bare_header]
    simp [ends]
  have body : (Stretch.of (f.brace.1 :: f.code ++ [f.ending])).read markUnknown = statements markUnknown f.code := by
    have alone : (Stretch.of (f.brace.1 :: f.code ++ [f.ending])).body = Body.of (f.brace.1 :: f.code ++ [f.ending]) := by
      show { Body.of (f.brace.1 :: f.code ++ [f.ending]) with rest := [] } = _
      rw [f.body_eq]
    rw [Stretch.read,alone,f.body_eq,f.block_eq]
    rfl
  rw [Read.statement_eq,outline,ofOutline_function,header,rest,f.parameters_eq,body]

end DefaultedFunction

/-! ### Reading the defaults -/

theorem FunctionTable.user?_define (table : FunctionTable) (name : String) (inline : Bool) (params : List String)
    (required : Nat) (body : Tree) :
    ((table.define name inline params required body).2.user? name).map (fun entry => (entry.params, entry.required)) =
      some (params, required) := by
  obtain ⟨entry,found,-⟩ := Option.map_eq_some_iff.mp (id?_declare table name inline)
  have named := find?_some found
  simp only [define,user?,find?_map]
  have same : (fun f : UserFunction => f.name == name.toLower) ∘ (fun f =>
      if f.name == name.toLower then { f with inline, params, required, body := some body } else f) =
      fun f => f.name == name.toLower := by
    funext f
    simp only [Function.comp_apply]
    split <;> rfl
  rw [same]
  simp only [user?] at found
  rw [found,Option.map_some,Option.map_some,if_pos named]

namespace Read
open CalcBasic.Action

variable (markUnknown : Bool)

/-- A parameter whose default is one piece is read as its default is read by itself. -/
theorem parameter_read {symbols state : Symbols} (same : state.functions = symbols.functions) {default : Default}
    {value : Tree} (accepted : (outcome (expression markUnknown default.value) symbols).1 = .ok value)
    (name : Token) (before : Parameters) :
    ∃ after, outcome (parameter markUnknown name before default.tokens) state =
        (.ok { before with names := before.names ++ [default.name], guards := before.guards ++ [default.guard value] }, after) ∧
      after.functions = symbols.functions ∧
      after.diagnostics = state.diagnostics ++ remarksOf (expression markUnknown default.value) symbols := by
  have referred : (state.reference default.param.1.text).functions = symbols.functions :=
    (Written.functions_reference _ _).trans same
  obtain ⟨read,done,noted⟩ := (hangs_pervade.expressions.expression markUnknown default.value).again referred accepted
  have kept := (steady_pervades.expression markUnknown default.value (state.reference default.param.1.text)).functions
  rw [done] at kept
  refine ⟨(read.reference default.param.1.text).reference default.param.1.text, ?_, ?_, ?_⟩
  · have named : outcome (reference default.param.1.text) state = (.ok default.name, state.reference default.param.1.text) := rfl
    rw [Default.tokens,parameter,if_pos (beq_iff_eq.mp default.param.2),outcome_bind_ok named]
    dsimp only
    rw [if_pos (beq_iff_eq.mp default.mark.2),outcome_bind_ok done]
    rfl
  · simp only [Written.functions_reference] at kept ⊢
    exact kept.trans same
  · simp only [Written.diagnostics_reference] at noted ⊢
    exact noted

theorem parameters_read {symbols state : Symbols} (same : state.functions = symbols.functions) {defaults : List Default}
    {values : List Tree} (accepted : List.Forall₂ (fun default value =>
      (outcome (expression markUnknown default.value) symbols).1 = .ok value) defaults values)
    (name : Token) (before : Parameters) :
    ∃ after, outcome ((defaults.map Default.tokens).foldlM (parameter markUnknown name) before) state =
        (.ok { before with names := before.names ++ defaults.map Default.name,
                           guards := before.guards ++ List.zipWith Default.guard defaults values }, after) ∧
      after.functions = symbols.functions ∧
      after.diagnostics = state.diagnostics ++
        defaults.flatMap fun default => remarksOf (expression markUnknown default.value) symbols := by
  induction accepted generalizing state before with
  | nil => exact ⟨state, by simp [outcome_pure], same, (append_nil _).symm⟩
  | cons first _ ih =>
    obtain ⟨middle,one,unchanged,noted⟩ := parameter_read markUnknown same first name before
    obtain ⟨after,others,still,added⟩ := ih unchanged _
    refine ⟨after, ?_, still, ?_⟩
    · rw [map_cons,foldlM_cons,outcome_bind_ok one,others]
      simp
    · rw [added,noted,flatMap_cons,append_assoc]

theorem outcome_functionTree (name : Token) (inline : Bool) (parameters : Parameters) (code : List Tree) (state : Symbols) :
    ∃ after, outcome (functionTree name inline parameters code) state =
        (.ok (.function name.text.toLower parameters.names (.block (parameters.guards ++ code)) inline), after) ∧
      (after.functions.user? name.text).map (fun entry => (entry.params, entry.required)) =
        some (parameters.names, parameters.required) ∧
      after.diagnostics = state.diagnostics := by
  cases inline with
  | true => exact ⟨_, rfl, FunctionTable.user?_define _ _ _ _ _ _, rfl⟩
  | false =>
    exact ⟨_, rfl, FunctionTable.user?_define _ _ _ _ _ _, Written.diagnostics_reference state selector⟩

end Read

namespace DefaultedFunction
open CalcBasic.Action CalcBasic.Read

/-- The definition has just these parameters and requires none of them. Its body is a guard
for each default, with the value that the default has by itself, and the statements of its
code. There is no remark but those on the defaults and the code. -/
def ReadsDefaults (f : DefaultedFunction) (markUnknown : Bool) (symbols : Symbols) (values statements : List Tree) : Prop :=
  ∃ after, outcome (statement markUnknown f.tokens) symbols = (.ok (some (.function f.name.1.text.toLower f.params
      (.block (List.zipWith Default.guard f.defaults values ++ statements)) f.inlined.isSome)), after) ∧
    (after.functions.user? f.name.1.text).map (fun entry => (entry.params, entry.required)) = some (f.params, 0) ∧
    after.diagnostics = symbols.diagnostics ++
      (f.defaults.flatMap fun default => remarksOf (expression markUnknown default.value) symbols) ++
      remarksOf (Read.statements markUnknown f.code) symbols

variable {f : DefaultedFunction} {markUnknown : Bool} {symbols : Symbols} {values statements : List Tree}

theorem readsDefaults_of_whole
    (accepted : List.Forall₂ (fun default value =>
      (outcome (expression markUnknown default.value) symbols).1 = .ok value) f.defaults values)
    (read : (outcome (Read.statements markUnknown f.code) symbols).1 = .ok statements)
    (whole : ∀ default ∈ f.defaults, ∀ token ∈ default.value, token.tag ≠ .delimiter) :
    f.ReadsDefaults markUnknown symbols values statements := by
  have groups : f.groups = f.defaults.map Default.tokens := by
    rw [DefaultedFunction.groups,flatMap_congr fun default member => Default.groups_of_whole (whole default member)]
    exact flatMap_pure_eq_map _ _
  obtain ⟨middle,params,same,noted⟩ := parameters_read markUnknown rfl accepted f.name.1 {}
  obtain ⟨last,coded,added⟩ := (hangs_pervade.statements markUnknown f.code).again same read
  obtain ⟨after,entered,found,silent⟩ := outcome_functionTree f.name.1 f.inlined.isSome
    ⟨f.params, List.zipWith Default.guard f.defaults values, 0⟩ statements last
  refine ⟨after, ?_, found, by rw [silent,added,noted]⟩
  rw [f.statement_eq,groups,outcome_bind_ok params,outcome_bind_ok coded]
  exact outcome_bind_ok entered

theorem whole_of_readsDefaults
    (read : (outcome (Read.statements markUnknown f.code) symbols).1 = .ok statements)
    (reads : f.ReadsDefaults markUnknown symbols values statements) :
    ∀ default ∈ f.defaults, ∀ token ∈ default.value, token.tag ≠ .delimiter := by
  obtain ⟨after,done,-,noted⟩ := reads
  rw [f.statement_eq] at done
  obtain ⟨parameters,middle,params,done⟩ := outcome_bind_eq_ok done
  obtain ⟨same,counted⟩ := parameters_counted markUnknown params
  obtain ⟨last,coded,added⟩ := (hangs_pervade.statements markUnknown f.code).again same read
  rw [outcome_bind_ok coded] at done
  obtain ⟨final,entered,-,silent⟩ := outcome_functionTree f.name.1 f.inlined.isSome parameters statements last
  rw [outcome_bind_ok entered,outcome_pure,Prod.mk.injEq] at done
  obtain ⟨tree,rfl⟩ := done
  have names : parameters.names = f.params := by
    simp only [Except.ok.injEq,Option.some.injEq,Tree.function.injEq] at tree
    exact tree.2.1
  have quiet : badParameters (f.defaults.flatMap fun default => remarksOf (expression markUnknown default.value) symbols) = 0 := by
    rw [badParameters,countP_flatMap,List.sum_eq_zero_iff_forall_eq_nat]
    exact forall_mem_map.mpr fun default _ => remarksOf_expression markUnknown default.value symbols
  -- as no piece is found bad, there are as many pieces as parameters
  have total := congrArg badParameters noted
  rw [silent,added] at total
  simp only [badParameters_append,quiet] at total
  have size : f.params.length = f.defaults.length := length_map _
  rw [names,f.length_groups,size] at counted
  have none : (f.defaults.map fun default => default.value.countP (·.tag == .delimiter)).sum = 0 := by
    have start : ({} : Parameters).names.length = 0 := rfl
    omega
  rw [List.sum_eq_zero_iff_forall_eq_nat] at none
  intro default member token inside
  have count := none _ (mem_map_of_mem member)
  simpa using countP_eq_zero.mp count token inside

/-- Defaults are read as they are by themselves if and only if no comma is in any of them. -/
theorem readsDefaults_iff_whole (f : DefaultedFunction) (markUnknown : Bool) (symbols : Symbols) (values statements : List Tree)
    (accepted : List.Forall₂ (fun default value =>
      (outcome (expression markUnknown default.value) symbols).1 = .ok value) f.defaults values)
    (read : (outcome (Read.statements markUnknown f.code) symbols).1 = .ok statements) :
    f.ReadsDefaults markUnknown symbols values statements ↔
      ∀ default ∈ f.defaults, ∀ token ∈ default.value, token.tag ≠ .delimiter :=
  ⟨whole_of_readsDefaults read, readsDefaults_of_whole accepted read⟩

/-- `function f(a = value) { }` -/
def single (value : List Token) (nested : Nested value)
    (bare : ∀ token ∈ value, endsHeader token = false) : DefaultedFunction where
  inlined := none
  head := ⟨⟨.keyword, "function", 1⟩, by decide +kernel⟩
  name := ⟨⟨.identifier, "f", 1⟩, rfl⟩
  opening := ⟨⟨.parenOpen, "(", 1⟩, rfl⟩
  defaults := [⟨⟨⟨.identifier, "a", 1⟩, rfl⟩, ⟨⟨.assign, "=", 1⟩, rfl⟩, value, nested, bare⟩]
  list := ⟨.identifier, "a", 1⟩ :: ⟨.assign, "=", 1⟩ :: value
  listed := .last _
  closing := ⟨⟨.parenClose, ")", 1⟩, rfl⟩
  brace := ⟨⟨.blockOpen, "\x7b", 1⟩, rfl⟩
  code := []
  ending := ⟨.blockClose, "\x7d", 1⟩
  closed := rfl

/-- `[true]` -/
def flagList : List Token := ⟨.listOpen, "[", 1⟩ :: ([⟨.identifier, "true", 1⟩] ++ [⟨.listClose, "]", 1⟩])

/-- `[1, 2]` -/
def pairList : List Token :=
  ⟨.listOpen, "[", 1⟩ :: ([⟨.number, "1", 1⟩, ⟨.delimiter, ",", 1⟩, ⟨.number, "2", 1⟩] ++ [⟨.listClose, "]", 1⟩])

theorem nested_flagList : Nested flagList := .enclosed rfl (.single rfl rfl)

theorem nested_pairList : Nested pairList :=
  .enclosed rfl (.token rfl rfl (.token rfl rfl (.single rfl rfl)))

theorem readsDefaults_flagList :
    (single flagList nested_flagList (by decide)).ReadsDefaults false {} [.list [.boolean true]] [] := by
  have item : Written {} 0 [⟨.identifier, "true", 1⟩] (.boolean true) := .boolean true rfl (by cbv) (by decide +kernel)
  have written : Written {} 0 flagList (.list [.boolean true]) :=
    @Written.list {} 0 _ _ [([⟨.identifier, "true", 1⟩], .boolean true)] _ rfl rfl (.last _) (by simpa using item)
  obtain ⟨after,read,-⟩ := Written.gives_expression false written {} rfl
  have accepted : (outcome (expression false flagList) {}).1 = .ok (.list [.boolean true]) := congrArg Prod.fst read
  have empty : (outcome (Read.statements false []) {}).1 = .ok [] := by rw [Read.statements]; rfl
  exact (readsDefaults_iff_whole (single flagList nested_flagList (by decide)) false {} [.list [.boolean true]] []
    (.cons accepted .nil) empty).mpr (by simp [single,flagList])

/-- A list of two is cut at its comma. -/
theorem pairList_parted :
    (outcome (expression false pairList) {}).1.isOk = true ∧ remarksOf (expression false pairList) {} = [] ∧
    remarksOf (Read.statements false []) {} = [] ∧
    remarksOf (statement false (single pairList nested_pairList (by decide)).tokens) {} =
      [⟨.unmatched "[", some 1⟩, ⟨.badParameter "f", some 1⟩] := by
  decide +kernel

end DefaultedFunction
end CalcBasic
