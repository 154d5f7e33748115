import CalcBasic.Proofs.EmitInvariants
import CalcBasic.Proofs.Lasting
import Mathlib.Data.List.Nodup

/-! Sections of functions. A program runs itself again to call one of its functions,
so the sections must come first, one for each function, and all agree on the place
of the selector. -/
namespace CalcBasic
open List

variable {final : Symbols} {names : List String} {sections : List (List String)} {table : FunctionTable}

namespace Tree

/-- The function whose section the tree is. -/
def definition? : Tree → Option String
  | .function name _ _ false => some name
  | _ => none

/-- The functions that have a section in the tree, in order. -/
def definitions (tree : Tree) : List String := (tree :: tree.descendants).filterMap definition?

end Tree

namespace Code

/-- The first line of the section of a function. -/
def header (place : String) (id : Nat) : String := "If " ++ place ++ "=" ++ toString id ++ ":Then"

theorem lines_header {place : String} (whole : '\n' ∉ place.toList) (id : Nat) :
    lines (header place id) = [header place id] := by
  have number := break_not_mem_natural id
  refine lines_singleton ?_ ?_
  · simp [header]
  · simp only [header,String.toList_append,mem_append,whole,number,or_false]
    decide

theorem lines_reset {place : String} (whole : '\n' ∉ place.toList) : lines ("-1→" ++ place) = ["-1→" ++ place] := by
  refine lines_singleton ?_ ?_
  · simp
  · simp only [String.toList_append,mem_append,whole,or_false]
    decide

end Code

namespace Emit
open CalcBasic.Action Symbols

variable {arguments statements : List Tree}

/-! ### The selector -/

/-- The selector is a number, and the overflow list is the first list. -/
structure Selecting (table : FunctionTable) (symbols : Symbols) : Prop where
  functions : symbols.functions = table
  typed : symbols.type selector = .number
  listed : [overflowList] <+: symbols.lists

/-- The emitter of a program with this name. -/
structure Selects (table : FunctionTable) (program : String) (emitter : Emitter) : Prop where
  symbols : Selecting table emitter.symbols
  program : emitter.program = program

/-- Names of variables other than the selector. -/
def isOrdinary (name : String) : Bool := name.toLower != selector

variable {table : FunctionTable} {program : String}

theorem isOrdinary_temporary (symbols : Symbols) : isOrdinary symbols.temporary.1 = true := by
  have named : symbols.temporary.1 = temporaryName symbols.temporaries := rfl
  rw [isOrdinary,bne_iff_ne,named,toLower_temporaryName]
  intro same
  have rest : toString symbols.temporaries = "fn" := (String.append_right_inj "@").mp same
  have digit : 'f'.isDigit = true := Code.isDigit_of_mem_natural (rest ▸ (by decide : 'f' ∈ "fn".toList))
  exact absurd digit (by decide)

theorem invariant_selecting (bodies : ∀ f ∈ table.users, ∀ body ∈ f.body, body.over isOrdinary = true)
    (params : ∀ f ∈ table.users, ∀ param ∈ f.params, isOrdinary param = true) :
    Invariant isOrdinary table (Selecting table) where
  functions := fun _ selecting => selecting.functions
  bodies := bodies
  params := params
  named := fun symbols _ => isOrdinary_temporary symbols
  temporary := fun symbols selecting =>
    ⟨(Edit.temporary symbols).functions.trans selecting.functions,
      (type_temporary symbols selector).trans selecting.typed,
      selecting.listed.trans (temporary_extends symbols).grows.lists⟩
  setType := fun symbols name type ordinary selecting => by
    have lower : selector.toLower = selector := by cbv
    have apart : name.toLower ≠ selector.toLower := by
      rw [lower]
      exact bne_iff_ne.mp ordinary
    exact ⟨selecting.functions, (type_setType symbols apart type).trans selecting.typed, selecting.listed⟩
  slot := fun _ _ selecting => ⟨selecting.functions, selecting.typed, selecting.listed⟩
  listName := fun symbols name selecting =>
    ⟨selecting.functions, selecting.typed, selecting.listed.trans (listName_extends symbols name).grows.lists⟩
  textName := fun symbols name selecting => by
    rcases textName_cases symbols name with same | ⟨_,_,added⟩
    · rw [same]
      exact selecting
    · rw [added]
      exact ⟨selecting.functions, selecting.typed, selecting.listed⟩
  remark := fun _ _ selecting => ⟨selecting.functions, selecting.typed, selecting.listed⟩

theorem lasts_of_stays {α : Type} {action : Emit α} (moves : Keeps Moves action)
    (stays : Stays (Selecting table) action fun _ => True) : Lasts (Selects table program) action fun _ _ => True := by
  intro emitter value after selects done
  have moved := moves emitter
  rw [done] at moved
  exact ⟨⟨(stays emitter value after selects.symbols done).2, moved.program.trans selects.program⟩,
    (extends_of_emit _ _ moved.symbols).grows, fun _ _ => trivial⟩

theorem lasts_selector : Lasts (Selects table program) (variableCode selector)
    fun later place => place = (later.home selector).code := by
  intro emitter place after selects done
  have selecting := selects.symbols
  have scalar : (Tree.var selector).isScalar emitter.symbols = true := by
    rw [Tree.isScalar,selecting.typed]
    rfl
  obtain ⟨text,reached,settled,settling,told⟩ := settles_variableCode selecting.listed scalar
  have moved := keeps_variableCode selector emitter
  rw [done] at settled moved
  cases settled
  refine ⟨⟨⟨?_, ?_, ?_⟩, ?_⟩, settling.grows, told⟩
  · exact moved.symbols.functions.trans selecting.functions
  · exact (type_of_entries settling.entries selector).trans selecting.typed
  · exact selecting.listed.trans settling.grows.lists
  · exact moved.program.trans selects.program

theorem lasts_resetSelector : Lasts (Selects table program) resetSelector
    fun later code => code = "-1→" ++ (later.home selector).code :=
  lasts_bind lasts_selector fun place => lasts_pure fun later same => by rw [same]

/-! ### Sections -/

/-- The lines of the section of a function, once the selector has its place. -/
def IsSection (table : FunctionTable) (later : Symbols) (name : String) (lines : List String) : Prop :=
  ∃ id middle, table.id? name = some id ∧
    lines = Code.header (later.home selector).code id :: ("-1→" ++ (later.home selector).code) :: middle ++ ["End"]

section Rendering

variable (invariant : Invariant isOrdinary table (Selecting table))
include invariant

theorem lasts_render (depth : Nat) (settled : Bool) {tree : Tree} (covered : tree.over isOrdinary = true) :
    Lasts (Selects table program) (render depth settled tree) fun _ _ => True :=
  lasts_of_stays (keeps_render depth settled tree) (stays_render invariant depth settled covered)

theorem lasts_function (depth : Nat) (name : String) (params : List String) {body : Tree}
    (covered : body.over isOrdinary = true) :
    Lasts (Selects table program) (function (render depth) name params body false)
      fun later code => IsSection table later name (Code.lines code) := by
  unfold function
  refine lasts_bind lasts_get fun emitter => ?_
  split
  · exact lasts_throw _
  · rename_i f found
    refine lasts_bind lasts_selector fun place => ?_
    refine lasts_bind lasts_resetSelector fun reset => ?_
    refine lasts_bind (lasts_of_stays (keeps_loadParams f params) (stays_loadParams invariant f params)) fun load => ?_
    refine lasts_bind (lasts_render invariant depth false covered) fun code => ?_
    refine lasts_pure fun later _ _ isReset isPlace selects => ?_
    generalize (if Tree.returnMarker.toList.isSuffixOf code.toList = true then [] else [Tree.returnMarker]) = leave
    subst isReset isPlace
    refine ⟨f.id, (load ++ [code] ++ leave).flatMap Code.lines, ?_, ?_⟩
    · rw [FunctionTable.id?,← selects.symbols.functions,found]
      rfl
    · have ending : Code.lines "End" = ["End"] := by cbv
      have heading := Code.lines_header (Symbols.break_not_mem_code later selector) f.id
      have resetting := Code.lines_reset (Symbols.break_not_mem_code later selector)
      rw [Code.header] at heading
      rw [Code.lines_joinLines]
      simp only [append_assoc,cons_append,nil_append,flatMap_append,flatMap_cons,
        flatMap_nil,heading,resetting,ending,Code.header]

theorem lasts_code {statement : Tree} (covered : statement.over isOrdinary = true) :
    Lasts (Selects table program) (code statement) fun later text =>
      ∀ name, statement.definition? = some name → IsSection table later name (Code.lines text) := by
  refine lasts_bind lasts_get fun emitter => ?_
  generalize emitter.depth statement = depth
  cases isDefinition : statement.definition? with
  | none => exact (lasts_render invariant depth false covered).mono fun _ _ _ _ _ none => by cases none
  | some name =>
    unfold Tree.definition? at isDefinition
    split at isDefinition
    · cases isDefinition
      cases depth with
      | zero => exact lasts_throw _
      | succ depth =>
        have overBody := Tree.over_child covered (mem_singleton_self _)
        refine (lasts_function invariant depth name _ overBody).mono fun later text isSection _ other same => ?_
        cases same
        exact isSection
    · cases isDefinition

/-! ### Calls -/

theorem lasts_sectionCall (depth : Nat) (f : UserFunction) (covered : ∀ argument ∈ arguments, argument.over isOrdinary = true) :
    Lasts (Selects table program) (sectionCall (render depth) f arguments) fun later text =>
      ∃ pass, text = pass ++ (toString f.id ++ "→" ++ (later.home selector).code ++ ":prgm" ++ program ++ ":Ans") := by
  have leave (pass : List String) : Lasts (Selects table program) (do
      let place ← variableCode selector
      let select := toString f.id ++ "→" ++ place
      return ":".intercalate (pass ++ [select, "prgm" ++ (← get).program, "Ans"])) fun later text =>
        ∃ pass, text = pass ++ (toString f.id ++ "→" ++ (later.home selector).code ++ ":prgm" ++ program ++ ":Ans") := by
    refine lasts_bind lasts_selector fun place => lasts_bind lasts_get fun emitter => lasts_pure ?_
    intro later selects isPlace
    have ending : ":".intercalate [toString f.id ++ "→" ++ place, "prgm" ++ emitter.program, "Ans"] =
        toString f.id ++ "→" ++ (later.home selector).code ++ ":prgm" ++ program ++ ":Ans" := by
      rw [isPlace,selects.program]
      simp [String.intercalate_cons_cons,String.append_assoc,← String.toList_inj]
    by_cases none : pass = []
    · refine ⟨"", ?_⟩
      rw [none,nil_append,ending,String.empty_append]
    · refine ⟨":".intercalate pass ++ ":", ?_⟩
      rw [String.intercalate_append_of_ne_nil none (by simp),ending]
  unfold sectionCall
  dsimp only
  split
  · exact leave []
  · have passes := @lasts_of_stays table program _ _ (keeps_listLiteral (keeps_render depth) arguments)
      (stays_listLiteral invariant depth covered)
    exact lasts_bind passes fun list => (leave _).mono fun _ _ ending _ => ending

theorem lasts_call {name : String} {f : UserFunction} (found : table.find? name = some (.user f)) (separate : f.inline = false)
    (covered : ∀ argument ∈ arguments, argument.over isOrdinary = true) (depth : Nat) (settled : Bool) (line : Nat) :
    Lasts (Selects table program) (render depth settled (.call name arguments line)) fun later text =>
      ∃ pass, text = pass ++ (toString f.id ++ "→" ++ (later.home selector).code ++ ":prgm" ++ program ++ ":Ans") := by
  have padded : ∀ argument ∈ arguments ++ List.replicate (f.params.length - arguments.length) (.number 0),
      argument.over isOrdinary = true := forall_mem_padded covered (Tree.over_number 0) _
  have called (depth : Nat) : Lasts (Selects table program) (userCall (render depth) name f arguments line)
      fun later text => ∃ pass, text =
        pass ++ (toString f.id ++ "→" ++ (later.home selector).code ++ ":prgm" ++ program ++ ":Ans") := by
    unfold userCall
    split
    · exact lasts_throw _
    · dsimp only
      rw [separate]
      exact lasts_sectionCall invariant depth f padded
  cases depth with
  | zero => exact lasts_throw _
  | succ depth =>
    change Lasts _ (call (render depth) name arguments line) _
    intro emitter value after selects done
    unfold call at done
    rw [outcome_bind_ok (outcome_get emitter),selects.symbols.functions,found] at done
    exact called depth emitter value after selects done

end Rendering

/-! ### Layout -/

theorem forall₂_sections {later : Symbols} {codes : List (Bool × String)}
    (each : List.Forall₂ (fun statement written => written.1 = hasSection statement ∧
      ∀ name, statement.definition? = some name → IsSection table later name (Code.lines written.2)) statements codes) :
    List.Forall₂ (IsSection table later) (statements.filterMap Tree.definition?)
      (((codes.filter (·.1)).map (·.2)).map Code.lines) := by
  induction each with
  | nil => exact .nil
  | cons first rest ih =>
    rename_i statement written statements codes
    have flag : hasSection statement = statement.definition?.isSome := by
      fun_cases hasSection statement
      · rename_i name params body inline
        cases inline <;> rfl
      · rename_i other
        fun_cases Tree.definition? statement
        · exact absurd rfl (other _ _ _ _)
        · rfl
    rw [flag] at first
    cases isDefinition : statement.definition? with
    | none =>
      rw [isDefinition] at first
      rw [filterMap_cons_none isDefinition,filter_cons_of_neg (by simp [first.1])]
      exact ih
    | some name =>
      rw [isDefinition] at first
      rw [filterMap_cons_some isDefinition,filter_cons_of_pos first.1]
      exact .cons (first.2 name rfl) ih

theorem lasts_layOut (invariant : Invariant isOrdinary table (Selecting table))
    (covered : ∀ statement ∈ statements, statement.over isOrdinary = true) :
    Lasts (Selects table program) (layOut statements) fun later text => ∃ sections main,
      List.Forall₂ (IsSection table later) (statements.filterMap Tree.definition?) sections ∧
      Code.lines text = sections.flatten ++
        (if sections.isEmpty then [] else ["-1→" ++ (later.home selector).code]) ++ main := by
  have written (statement : Tree) (member : statement ∈ statements) : Lasts (Selects table program)
      (do return (hasSection statement, ← code statement)) fun later written =>
        written.1 = hasSection statement ∧
          ∀ name, statement.definition? = some name → IsSection table later name (Code.lines written.2) :=
    lasts_bind (lasts_code invariant (covered statement member)) fun text => lasts_pure fun later each => ⟨rfl, each⟩
  unfold layOut
  refine lasts_bind (lasts_mapM statements written) fun codes => ?_
  dsimp only
  split
  · rename_i none
    refine lasts_pure fun later each => ⟨[], ((codes.filter (!·.1)).map (·.2)).flatMap Code.lines, ?_, ?_⟩
    · have sections := forall₂_sections each
      rw [isEmpty_iff.mp none] at sections
      exact sections
    · rw [Code.lines_joinLines]
      rfl
  · rename_i some
    refine lasts_bind lasts_resetSelector fun reset => lasts_pure fun later isReset each => ?_
    refine ⟨((codes.filter (·.1)).map (·.2)).map Code.lines, ((codes.filter (!·.1)).map (·.2)).flatMap Code.lines,
      forall₂_sections each, ?_⟩
    have resetting := Code.lines_reset (Symbols.break_not_mem_code later selector)
    have present : (((codes.filter (·.1)).map (·.2)).map Code.lines).isEmpty = false := by
      rw [isEmpty_map]
      exact Bool.eq_false_iff.mpr some
    rw [Code.lines_joinLines,flatMap_append,flatMap_append,isReset,present,← flatMap_def]
    simp only [flatMap_cons,flatMap_nil,append_nil,resetting,Bool.false_eq_true,if_false]

end Emit

theorem Code.header_injective {place : String} {id other : Nat} (same : header place id = header place other) :
    id = other := by
  unfold header at same
  rw [String.append_left_inj,String.append_right_inj] at same
  exact natural_injective same

open Symbols Emit

/-- Every function with a section is defined at the root of the program, and once.
The selector is a number and no variable of the program. -/
structure Sectioned (symbols : Symbols) (statements : List Tree) : Prop where
  typed : symbols.type selector = .number
  named : ∀ statement ∈ statements, statement.over isOrdinary = true
  bodies : ∀ f ∈ symbols.functions.users, ∀ body ∈ f.body, body.over isOrdinary = true
  params : ∀ f ∈ symbols.functions.users, ∀ param ∈ f.params, isOrdinary param = true
  flat : ∀ statement ∈ statements, ∀ part ∈ statement.descendants, part.definition? = none
  distinct : ((Tree.block statements).definitions.map String.toLower).Nodup

theorem Sectioned.definitions {symbols : Symbols} {statements : List Tree} (sectioned : Sectioned symbols statements) :
    (Tree.block statements).definitions = statements.filterMap Tree.definition? := by
  have flat := sectioned.flat
  have root : Tree.definition? (.block statements) = none := rfl
  have below : (Tree.block statements).children = statements := rfl
  rw [Tree.definitions,filterMap_cons_none root,Tree.descendants_eq,below]
  clear below root sectioned
  induction statements with
  | nil => rfl
  | cons statement rest ih =>
    have none : statement.descendants.filterMap Tree.definition? = [] :=
      filterMap_eq_nil_iff.mpr (flat statement (by simp))
    have later := ih fun other member => flat other (by simp [member])
    rw [flatMap_cons,filterMap_append,later,filterMap_cons,none,filterMap_cons]
    cases statement.definition? <;> rfl

theorem heads_of_sections (each : List.Forall₂ (IsSection table final) names sections) :
    sections.map List.head? = names.map fun name => (table.id? name).map (Code.header (final.home selector).code) := by
  induction each with
  | nil => rfl
  | cons first _ ih =>
    obtain ⟨id,middle,named,rfl⟩ := first
    rw [map_cons,map_cons,ih,named]
    rfl

theorem FunctionTable.id?_of_find? {name : String} {f : UserFunction}
    (found : table.find? name = some (.user f)) : table.id? name = some f.id := by
  unfold FunctionTable.find? at found
  cases own : table.user? name with
  | none =>
    rw [own] at found
    obtain ⟨g,_,same⟩ := Option.map_eq_some_iff.mp found
    cases same
  | some g =>
    rw [own] at found
    cases found
    rw [FunctionTable.id?,own]
    rfl

/-- Different functions have different ids, so each section begins differently. -/
theorem heads_nodup (sound : table.Sound) (each : List.Forall₂ (IsSection table final) names sections)
    (distinct : (names.map String.toLower).Nodup) : (sections.map List.head?).Nodup := by
  have known : ∀ name ∈ names, ∃ id, table.id? name = some id := by
    clear distinct
    induction each with
    | nil => simp
    | cons first _ ih =>
      obtain ⟨id,_,isId,_⟩ := first
      exact forall_mem_cons.mpr ⟨⟨id, isId⟩, ih⟩
  rw [heads_of_sections each]
  rw [List.Nodup,pairwise_map] at distinct ⊢
  refine distinct.imp_of_mem fun {first second} isFirst isSecond apart same => apart ?_
  obtain ⟨id,isId⟩ := known first isFirst
  obtain ⟨other,isOther⟩ := known second isSecond
  rw [isId,isOther,Option.map_some,Option.map_some,Option.some_inj] at same
  rw [Code.header_injective same] at isId
  exact FunctionTable.id?_injective sound isOther isId

end CalcBasic
