import CalcBasic.Proofs.CodeLines
import CalcBasic.Proofs.ExpressionText
import CalcBasic.Proofs.OperandTree

/-! Texts of operands. Whatever the state of the emitter, the code of an operand is
one expression unless a call in it is rendered as statements of its own. -/
namespace CalcBasic
open Code (Escaping isPlain isExpression)

namespace Emit
open CalcBasic.Action

variable {f : UserFunction} {name : String} {line : Nat} {arguments : List Tree}

/-- The functions are those of the table. -/
def Knows (table : FunctionTable) (emitter : Emitter) : Prop := emitter.symbols.functions = table

variable {table : FunctionTable}

theorem knows_of_moves (before after : Emitter) (moved : Moves before after) (known : Knows table before) :
    Knows table after :=
  moved.symbols.functions.trans known

theorem returns_of_moves {α : Type} {action : Emit α} (moves : Keeps Moves action) :
    Returns (Knows table) action fun _ => True :=
  returns_of_keeps moves knows_of_moves

/-- Every successful run writes code of this kind. -/
def Writes (table : FunctionTable) (action : Emit String) (escapes : Bool) : Prop :=
  Returns (Knows table) action (Escaping escapes)

/-! ### Names and numbers -/

theorem escaping_natural (n : Nat) : Escaping false (toString n) :=
  Code.escaping_of_plain fun _ member => Code.isPlain_of_isDigit (Code.isDigit_of_mem_natural member)

theorem escaping_base36 (n : Nat) : Escaping false (Number.base36 n) :=
  Code.escaping_of_plain (Number.forall_mem_base36 (by decide) n)

theorem escaping_number (value : Float) : Escaping false (Number.code value) := by
  have others : ∀ c ∈ ['.', 'i', 'n', 'f', 'N', 'a'], isPlain c = true := by decide
  obtain ⟨magnitude,_,digits,code⟩ := Number.code_shape value
  have sign : Escaping false (if Number.isSigned value = true then "-" else "") := by split <;> rfl
  rw [code]
  exact sign.append (Code.escaping_of_plain fun c member =>
    (digits c member).elim Code.isPlain_of_isDigit (others c))

theorem escaping_name {code : String} (name : IsName code) : Escaping false code := by
  have letters : ∀ letter ∈ alphabet, Code.textAfter false letter.toString.toList = some false := by decide
  have list (n : Nat) : Escaping false ("∟" ++ ("ARR" ++ Number.base36 n)) :=
    (show Escaping false "∟" by rfl).append ((show Escaping false "ARR" by rfl).append (escaping_base36 n))
  cases name with
  | letter known => exact letters _ known
  | text n => exact (show Escaping false "Str" by rfl).append (escaping_natural n)
  | list n => exact list n
  | cell n index =>
    exact (((list n).append (show Escaping false "(" by rfl)).append (escaping_natural index)).append
      (show Escaping false ")" by rfl)

theorem escaping_remainder {first second : Bool} {a b : String} (escapingLeft : Escaping first a)
    (escapingRight : Escaping second b) : Escaping (first || second) (remainder a b) := by
  have opened : Escaping false "*(" := rfl
  have whole : Escaping false "<0)+iPart(" := rfl
  have part : Escaping false "*fPart(" := rfl
  have slash : Escaping false "/" := rfl
  have closed : Escaping false "))" := rfl
  have code := (((((((((escapingRight.append opened).append escapingLeft).append whole).append escapingRight).append
    part).append escapingLeft).append slash).append escapingRight).append closed)
  have same : ∀ first second : Bool, (first || second) = (((((((((second || false) || first) || false) || second) ||
    false) || first) || false) || second) || false) := by decide
  rw [same]
  exact code

/-! ### Operations -/

theorem phrasing_operands : Phrasing (Knows table) (·.isOperand table = true) (Tree.escapes table) Escaping where
  moves := knows_of_moves
  child isOperand _ isChild := (Tree.isOperand_iff.mp isOperand).2 _ isChild
  made {tree} _ worded := by
    rw [Tree.escapes_eq]
    cases tree with
    | call | membership => cases worded
    | _ => rfl
  literal {tree value code} _ evaluated written := by
    obtain ⟨literal,stays⟩ := @Tree.literal_of_code? table value code written
    refine ⟨literal, stays.trans (Tree.escapes_of_evaluate evaluated ?_).symm⟩
    rintro items rfl
    cases written
  counted known := by
    have stays {tree : Tree} {x : Float} (constant : tree.constantNumber = .ok (some x)) : tree.escapes table = false := by
      obtain ⟨value,evaluated,number⟩ := Tree.constantNumber_some constant
      exact Tree.escapes_of_evaluate evaluated (Constant.single_of_number? number)
    obtain ⟨_,_,_,constantStart,constantStop,constantStep⟩ := Range.values_some known
    rw [Tree.escapes_eq]
    simp [Tree.escapesNode,stays constantStart,stays constantStop,stays constantStep]
  text isOperand := Code.escaping_quoted (beq_iff_eq.mp (Tree.isOperand_iff.mp isOperand).1)
  name := escaping_name
  number := escaping_number
  mark {mark} isMark := by
    have checked : ∀ mark ∈ joiners, Code.textAfter false mark.toList = some false := by decide
    exact checked mark isMark
  beside first second := first.append second
  wrapped escaping := by
    have whole := ((show Escaping false "(" by rfl).append escaping).append (show Escaping false ")" by rfl)
    rwa [Bool.false_or,Bool.or_false] at whole
  braced escaping := by
    have whole := ((show Escaping false "\x7b" by rfl).append escaping).append (show Escaping false "\x7d" by rfl)
    rwa [Bool.false_or,Bool.or_false] at whole
  remainder := escaping_remainder
  modulo first second := by
    have opened : Escaping false "remainder(" := rfl
    have comma : Escaping false "," := rfl
    have closed : Escaping false ")" := rfl
    simpa only [Bool.or_false,Bool.false_or] using (((opened.append first).append comma).append second).append closed

section Rendering

variable {render : Renderer}

/-- Renders every operand to code of its kind. -/
abbrev WritesOperands (table : FunctionTable) (render : Renderer) : Prop :=
  Phrases (Knows table) (·.isOperand table = true) (Tree.escapes table) Escaping render

variable (operands : WritesOperands table render)
include operands

/-! ### Calls -/

theorem stores_store (target value : Tree) :
    Returns (Knows table) (store render target value) fun code => '→' ∈ code.toList :=
  returns_bind (returns_of_moves (operands.moves false value)) fun _ _ =>
    returns_bind (returns_of_moves (operands.moves false target)) fun _ _ => returns_pure (by simp)

theorem stores_assign (target : Tree) (mode : Store) (value : Tree) (line : Nat) :
    Returns (Knows table) (assign render target mode value line) fun code => '→' ∈ code.toList := by
  unfold assign
  split
  · exact returns_throw _
  · dsimp only
    refine returns_bind (returns_of_moves (keeps_takeType target _)) fun _ _ => ?_
    split
    · exact stores_store operands target _
    · refine returns_bind (returns_of_moves (keeps_fillAtRunTime? operands.moves _)) fun filled _ => ?_
      split
      · exact stores_store operands target _
      · exact returns_bind (returns_of_moves (operands.moves false _)) fun _ _ =>
          returns_bind (returns_of_moves (operands.moves false target)) fun _ _ => returns_pure (by simp)

theorem writes_sectionCall (f : UserFunction) (arguments : List Tree) :
    Writes table (sectionCall render f arguments) true := by
  have leave (pass : List String) : Writes table (do
      let place ← variableCode selector
      let select := toString f.id ++ "→" ++ place
      return ":".intercalate (pass ++ [select, "prgm" ++ (← get).program, "Ans"])) true := by
    refine returns_bind (returns_of_moves (keeps_variableCode selector)) fun place _ =>
      returns_bind returns_get fun emitter _ => returns_pure (Code.escaping_of_store ?_)
    refine (Code.mem_joined (by decide)).mpr ⟨toString f.id ++ "→" ++ place, by simp, by simp⟩
  unfold sectionCall
  dsimp only
  split
  · exact returns_bind (returns_of_moves (keeps_pure _)) fun pass _ => leave pass
  · exact returns_bind (returns_of_moves (keeps_listLiteral operands.moves arguments)) fun _ _ =>
      returns_bind (returns_of_moves (keeps_pure _)) fun pass _ => leave pass

theorem writes_inlineCall (name : String) (line : Nat)
    (bound : f.params.zip arguments ≠ []) : Writes table (inlineCall render name f arguments line) true := by
  unfold inlineCall
  refine returns_bind returns_get fun emitter _ => ?_
  split
  · exact returns_throw _
  · split
    · exact returns_throw _
    · refine returns_bind (returns_mapM (f.params.zip arguments) fun item _ =>
        stores_assign operands (.var item.1) .set item.2 line) fun setup each => ?_
      refine returns_bind (returns_of_moves (keeps_expanding f.name (operands.moves false _))) fun code _ =>
        returns_pure (Code.escaping_of_store ?_)
      generalize f.params.zip arguments = bindings at bound each
      cases each with
      | nil => exact absurd rfl bound
      | cons first _ => exact (Code.mem_joinLines (by decide)).mpr ⟨_, by simp, first⟩

theorem writes_userCall (name : String) (stores : f.storesFirst = true) (arguments : List Tree)
    (line : Nat) : Writes table (userCall render name f arguments line) true := by
  unfold userCall
  split
  · exact returns_throw _
  · dsimp only
    split
    · rename_i inline
      refine writes_inlineCall operands name line ?_
      rw [UserFunction.storesFirst,inline,Bool.not_true,Bool.false_or,Bool.not_eq_true',List.isEmpty_eq_false_iff] at stores
      have params : 0 < f.params.length := List.length_pos_of_ne_nil stores
      apply List.ne_nil_of_length_pos
      rw [List.length_zip,List.length_append,List.length_replicate]
      omega
    · exact writes_sectionCall operands f _

theorem writes_builtinCall {f : Builtin} (found : table.find? name = some (.builtin f))
    (isOperand : (Tree.call name arguments line).isOperand table = true) :
    Writes table (builtinCall render name f arguments line) ((Tree.call name arguments line).escapes table) := by
  obtain ⟨node,areOperands⟩ := Tree.isOperand_iff.mp isOperand
  have target := Builtin.escaping_target f (FunctionTable.mem_catalogue found)
  unfold builtinCall
  split
  · rename_i expansion expands
    have between : expansion = .between := by
      simp only [Tree.isOperandNode,FunctionTable.isPlain,found,expands] at node
      split at node
      · cases ‹some expansion = none›
      · rename_i same
        exact Option.some.inj same
      · cases node
    subst between
    obtain ⟨isTree,escapes⟩ := Tree.between_of_call found expands isOperand
    rw [← escapes]
    exact operands.writes false _ isTree
  · have escapes : (Tree.call name arguments line).escapes table =
        (!isExpression f.target || arguments.any (Tree.escapes table)) := by
      rename_i direct
      rw [Tree.escapes_eq]
      simp [Tree.escapesNode,FunctionTable.escapes,found,direct]
    rw [escapes]
    split
    · exact returns_throw _
    · split
      · rename_i none
        rw [List.isEmpty_iff.mp none,List.any_nil,Bool.or_false]
        exact returns_pure target
      · refine returns_bind (phrasing_operands.renderAll operands areOperands) fun codes list => returns_pure ?_
        have opened : Escaping false "(" := rfl
        have closed : Escaping false ")" := rfl
        have blank : Escaping false " " := rfl
        split
        · simpa only [Bool.or_false] using ((target.append opened).append list).append closed
        · simpa only [Bool.or_false] using (target.append blank).append list

theorem writes_call (isOperand : (Tree.call name arguments line).isOperand table = true) :
    Writes table (call render name arguments line) ((Tree.call name arguments line).escapes table) := by
  unfold call
  refine returns_bind returns_get fun emitter known => ?_
  rw [known]
  obtain ⟨node,_⟩ := Tree.isOperand_iff.mp isOperand
  split
  · exact returns_throw _
  · rename_i f found
    exact writes_builtinCall operands found isOperand
  · rename_i f found
    have escapes : (Tree.call name arguments line).escapes table = true := by
      rw [Tree.escapes_eq]
      simp [Tree.escapesNode,FunctionTable.escapes,found]
    rw [escapes]
    refine writes_userCall operands name ?_ arguments line
    simpa [Tree.isOperandNode,FunctionTable.isPlain,found] using node

/-! ### Trees -/

theorem writes_construct {tree : Tree} (isOperand : tree.isOperand table = true) (settled : Bool) :
    Writes table (construct render settled tree) (tree.escapes table) := by
  refine phrasing_operands.construct operands settled isOperand fun special => ?_
  obtain ⟨node,_⟩ := Tree.isOperand_iff.mp isOperand
  cases tree with
  | call name arguments line => exact writes_call operands isOperand
  | membership value collection =>
    obtain ⟨isCall,escapes⟩ := Tree.call_of_membership isOperand
    rw [← escapes]
    exact writes_call operands isCall
  | native code =>
    have stays : (Tree.native code).escapes table = false := by
      rw [Tree.escapes_eq]
      rfl
    rw [stays]
    refine returns_bind returns_get fun emitter _ => returns_pure ?_
    split
    · rfl
    · exact beq_iff_eq.mp node
  | assign | block | branch | forEach | loop | function | line => cases node
  | _ => cases special

end Rendering

theorem writesOperands_render (depth : Nat) : WritesOperands table (render depth) := by
  induction depth with
  | zero => exact ⟨keeps_render 0, fun _ _ _ => returns_throw _⟩
  | succ depth lower =>
    exact ⟨keeps_render (depth + 1), fun settled tree isOperand => writes_construct lower isOperand settled⟩

end Emit

/-- The code of an operand is one expression if and only if no call in it escapes
the statement: a call of a function of the program, or of a builtin that stands for
two statements. -/
theorem operand_isExpression_iff (emitter : Emitter) (depth : Nat) (settled : Bool) (tree : Tree) (text : String)
    (isOperand : tree.isOperand emitter.symbols.functions = true)
    (rendered : (Action.outcome (Emit.render depth settled tree) emitter).1 = .ok text) :
    isExpression text = true ↔ tree.escapes emitter.symbols.functions = false := by
  obtain ⟨escaping,_⟩ := (Emit.writesOperands_render depth).writes settled tree isOperand emitter text
    (Action.outcome (Emit.render depth settled tree) emitter).2 rfl (Prod.ext rendered rfl)
  rw [escaping.isExpression,Bool.not_eq_true']

/-- The code of `round(1, area(2)) - 1`, with a function of the program as an argument. -/
theorem operand_isExpression_iff_argument :
    let area : UserFunction :=
      { name := "area", id := 0, inline := false, params := ["r"], required := 1, body := none }
    let emitter : Emitter :=
      { symbols := { functions := ⟨[area]⟩ }, modern := true, folding := true, program := "TIADV" }
    let tree : Tree := .arith (.call "round" [.number 1, .call "area" [.number 2] 1] 1) .sub (.number 1)
    let text := "round(1,\x7b2→∟ARG0:0→A:prgmTIADV:Ans)-1"
    tree.isOperand emitter.symbols.functions = true ∧
      (Action.outcome (Emit.render 9 false tree) emitter).1 = .ok text ∧
      (isExpression text = true ↔ tree.escapes emitter.symbols.functions = false) := by
  intro area emitter tree text
  have isOperand : tree.isOperand emitter.symbols.functions = true := by decide +kernel
  have rendered : (Action.outcome (Emit.render 9 false tree) emitter).1 = .ok text := by decide +kernel
  exact ⟨isOperand, rendered, operand_isExpression_iff emitter 9 false tree text isOperand rendered⟩

theorem sum_with_call_escapes :
    let operand := "\x7b2→∟ARG0:0→B:prgmTIADV:Ans"
    (compile {} "function f(x) \x7b return x \x7d\ny = 1 + f(2);").toOption.map Compiled.code =
        some ("If B=0:Then\n-1→B\n∟ARG0(1)→A\nA\nReturn\nEnd\n-1→B\n1+" ++ operand ++ "→C") ∧
      isExpression operand = false := by
  decide +kernel

end CalcBasic
