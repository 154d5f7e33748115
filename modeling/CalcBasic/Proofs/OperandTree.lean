import CalcBasic.Emit.Program
import CalcBasic.Proofs.ConstantTrees
import Mathlib

/-! Expressions, as text and as trees. The code of an operand is spliced into the
code around it, so it must not end the statement it stands in; a tree shows which
calls in it would. -/
namespace CalcBasic

/-! ### Expressions as text -/

namespace Code

/-- Whether text is open after some code; `none` once the code has left the
statement, by a line break, a store, or a colon outside text. -/
def textAfter (inText : Bool) : List Char → Option Bool
  | [] => some inText
  | c :: rest =>
    if c = '\n' || c = '→' || (c = ':' && !inText) then none
    else textAfter (if c = '"' then !inText else inText) rest

/-- Code that stays in its statement and closes its texts. -/
def isExpression (code : String) : Bool := textAfter false code.toList == some false

/-- The code escapes its statement, or else it is an expression. -/
def Escaping (escapes : Bool) (code : String) : Prop :=
  textAfter false code.toList = if escapes then none else some false

theorem Escaping.isExpression {escapes : Bool} {code : String} (escaping : Escaping escapes code) :
    isExpression code = !escapes := by
  unfold Code.isExpression
  rw [escaping]
  cases escapes <;> rfl

theorem textAfter_append (inText : Bool) (code more : List Char) :
    textAfter inText (code ++ more) = (textAfter inText code).bind (textAfter · more) := by
  induction code generalizing inText with
  | nil => rfl
  | cons c rest ih =>
    simp only [List.cons_append,textAfter]
    split
    · rfl
    · exact ih _

theorem textAfter_of_store (inText : Bool) {code : List Char} (stores : '→' ∈ code) :
    textAfter inText code = none := by
  induction code generalizing inText with
  | nil => cases stores
  | cons c rest ih =>
    simp only [textAfter]
    split
    · rfl
    · rename_i ordinary
      rcases List.mem_cons.mp stores with rfl | later
      · exact absurd rfl ordinary
      · exact ih _ later

/-- Characters that neither end a statement nor open or close a text. -/
def isPlain (c : Char) : Bool := c != '\n' && c != '→' && c != ':' && c != '"'

theorem textAfter_of_plain {code : List Char} (plain : ∀ c ∈ code, isPlain c = true) (inText : Bool) :
    textAfter inText code = some inText := by
  induction code with
  | nil => rfl
  | cons c rest ih =>
    have first := plain c (by simp)
    simp only [isPlain,Bool.and_eq_true,bne_iff_ne] at first
    obtain ⟨⟨⟨noBreak,noStore⟩,noColon⟩,noQuote⟩ := first
    simp only [textAfter,noBreak,noStore,noColon,noQuote,decide_false,Bool.false_and,Bool.or_false,
      Bool.false_eq_true,if_false]
    exact ih fun other member => plain other (by simp [member])

theorem isPlain_of_isDigit {c : Char} (digit : c.isDigit = true) : isPlain c = true := by
  have apart (other : Char) (ordinary : other.isDigit = false) : c ≠ other := by
    rintro rfl
    rw [ordinary] at digit
    cases digit
  simp only [isPlain,Bool.and_eq_true,bne_iff_ne]
  exact ⟨⟨⟨apart _ rfl, apart _ rfl⟩, apart _ rfl⟩, apart _ rfl⟩

theorem escaping_of_store {code : String} (stores : '→' ∈ code.toList) : Escaping true code :=
  textAfter_of_store false stores

theorem escaping_of_plain {code : String} (plain : ∀ c ∈ code.toList, isPlain c = true) : Escaping false code :=
  textAfter_of_plain plain false

theorem Escaping.append {first second : Bool} {code more : String} (left : Escaping first code)
    (right : Escaping second more) : Escaping (first || second) (code ++ more) := by
  unfold Escaping
  rw [String.toList_append,textAfter_append,left]
  cases first with
  | true => rfl
  | false => exact right

theorem escaping_quoted {text : String} (closed : textAfter true text.toList = some true) :
    Escaping false ("\"" ++ text ++ "\"") := by
  have opened : textAfter false "\"".toList = some true := rfl
  unfold Escaping
  rw [String.toList_append,String.toList_append,textAfter_append,textAfter_append,opened,Option.bind_some,closed]
  rfl

end Code

/-! ### Operands as trees -/

/-- A call of the function is rendered as stores before anything else: of the
arguments and the selector of its section, or of the parameters of its body. -/
def UserFunction.storesFirst (f : UserFunction) : Bool := !f.inline || !f.params.isEmpty

namespace FunctionTable

/-- The calls whose code is told by the function alone. Left out are functions
that are expanded without parameters, here or in the calculation of a random number,
and builtins that stand for statements. -/
def isPlain (table : FunctionTable) (name : String) (arguments : Nat) : Bool :=
  match table.find? name with
  | some (.user f) => f.storesFirst
  | some (.builtin f) =>
    match f.expansion with
    | none => true
    | some .between => arguments ≤ 2 && (table.user? "random").all UserFunction.storesFirst
    | some _ => false
  | none => true

/-- Whether the code of a call escapes its statement. -/
def escapes (table : FunctionTable) (name : String) : Bool :=
  match table.find? name with
  | some (.user _) => true
  | some (.builtin f) =>
    !Code.isExpression f.target || (f.expansion = some .between && (table.user? "random").isSome)
  | none => false

end FunctionTable

theorem FunctionTable.mem_catalogue {table : FunctionTable} {name : String} {f : Builtin}
    (found : table.find? name = some (.builtin f)) : f ∈ Builtin.catalogue := by
  unfold FunctionTable.find? at found
  cases own : table.user? name with
  | some g => rw [own] at found; cases found
  | none =>
    rw [own] at found
    obtain ⟨g,listed,same⟩ := Option.map_eq_some_iff.mp found
    cases same
    unfold Builtin.find? at listed
    exact List.mem_of_find?_eq_some listed

theorem Builtin.escaping_target : ∀ f ∈ Builtin.catalogue, Code.Escaping (!Code.isExpression f.target) f.target := by
  unfold Code.Escaping
  decide

namespace Tree

variable {left right tree : Tree}

variable (table : FunctionTable)

def isOperandNode : Tree → Bool
  | .text value => Code.textAfter true value.toList == some true
  | .native code => Code.isExpression code
  | .call name arguments _ => table.isPlain name arguments.length
  | .membership .. => table.isPlain "array_sum" 1
  | .number _ | .boolean _ | .list _ | .var _ | .listVar _ | .textVar _ | .commas _ | .range ..
  | .element .. | .arith .. | .compare .. => true
  | .assign .. | .block _ | .branch .. | .forEach .. | .loop .. | .function .. | .line _ => false

def escapesNode : Tree → Bool
  | .call name _ _ => table.escapes name
  | .membership .. => table.escapes "array_sum"
  | _ => false

/-- Expressions. Texts and native code in them close the quotes they open. -/
def isOperand (tree : Tree) : Bool := tree.everywhere (isOperandNode table)

/-- Whether some call in the tree escapes the statement that the tree stands in. -/
def escapes (tree : Tree) : Bool := tree.somewhere (escapesNode table)

variable {table}

theorem isOperand_iff : tree.isOperand table = true ↔
    tree.isOperandNode table = true ∧ ∀ child ∈ tree.children, child.isOperand table = true :=
  everywhere_iff

theorem escapes_eq : tree.escapes table = (tree.escapesNode table || tree.children.any (escapes table)) :=
  somewhere_eq

theorem isOperand_arith {op : Arith} :
    (Tree.arith left op right).isOperand table = true ↔ left.isOperand table = true ∧ right.isOperand table = true := by
  rw [isOperand_iff]
  simp [isOperandNode]

theorem escapes_arith {op : Arith} :
    (Tree.arith left op right).escapes table = (left.escapes table || right.escapes table) := by
  rw [escapes_eq]
  simp [escapesNode]

theorem isOperand_compare {op : Comparison} : (Tree.compare left op right).isOperand table = true ↔
    left.isOperand table = true ∧ right.isOperand table = true := by
  rw [isOperand_iff]
  simp [isOperandNode]

theorem escapes_compare {op : Comparison} :
    (Tree.compare left op right).escapes table = (left.escapes table || right.escapes table) := by
  rw [escapes_eq]
  simp [escapesNode]

theorem call_of_membership {value collection : Tree} (isOperand : (Tree.membership value collection).isOperand table = true) :
    (Tree.call "array_sum" [.compare value .eq collection] 0).isOperand table = true ∧
      (Tree.call "array_sum" [.compare value .eq collection] 0).escapes table =
        (Tree.membership value collection).escapes table := by
  obtain ⟨node,areOperands⟩ := isOperand_iff.mp isOperand
  have isValue := areOperands value (by simp)
  have isCollection := areOperands collection (by simp)
  constructor
  · refine isOperand_iff.mpr ⟨node, fun child isChild => ?_⟩
    rw [children,List.mem_singleton] at isChild
    rw [isChild,isOperand_compare]
    exact ⟨isValue, isCollection⟩
  · rw [escapes_eq,escapes_eq]
    simp [escapesNode,escapes_compare]

theorem isOperand_number (value : Float) : (Tree.number value).isOperand table = true :=
  isOperand_iff.mpr ⟨rfl, fun _ isChild => absurd isChild List.not_mem_nil⟩

theorem escapes_number (value : Float) : (Tree.number value).escapes table = false := by
  rw [escapes_eq]
  rfl

theorem random_of_table (line : Nat) (stores : (table.user? "random").all UserFunction.storesFirst = true) :
    (Tree.call "random" [] line).isOperand table = true ∧
      (Tree.call "random" [] line).escapes table = (table.user? "random").isSome := by
  rw [isOperand_iff,escapes_eq]
  have builtin : Builtin.find? "random" =
      some (.command "random" "rand" (.exactly [0]) "math" "Random number in [0, 1)") := by cbv
  cases own : table.user? "random" with
  | some f =>
    rw [own] at stores
    simpa [isOperandNode,escapesNode,children,FunctionTable.isPlain,FunctionTable.escapes,FunctionTable.find?,own] using
      stores
  | none =>
    have written : Code.isExpression "rand" = true := by decide
    simp [isOperandNode,escapesNode,FunctionTable.isPlain,FunctionTable.escapes,FunctionTable.find?,own,builtin,Builtin.command,written]

theorem between_of_call {name : String} {f : Builtin} (found : table.find? name = some (.builtin f))
    (between : f.expansion = some .between) {arguments : List Tree} {line : Nat}
    (isOperand : (Tree.call name arguments line).isOperand table = true) :
    (Expansion.betweenTree arguments line).isOperand table = true ∧
      (Expansion.betweenTree arguments line).escapes table = (Tree.call name arguments line).escapes table := by
  have targets : ∀ f ∈ Builtin.catalogue, f.expansion = some .between → Code.isExpression f.target = true := by decide
  obtain ⟨node,areOperands⟩ := isOperand_iff.mp isOperand
  simp only [isOperandNode,FunctionTable.isPlain,found,between,Bool.and_eq_true,decide_eq_true_eq] at node
  obtain ⟨few,stores⟩ := node
  obtain ⟨isRandom,escapesRandom⟩ := random_of_table line stores
  have lower : "random".toLower = "random" := by cbv
  have expected : (Tree.call name arguments line).escapes table =
      ((table.user? "random").isSome || arguments.any (escapes table)) := by
    rw [escapes_eq]
    simp [escapesNode,FunctionTable.escapes,found,between,targets f (FunctionTable.mem_catalogue found) between]
  have sum {least most : Tree} (isLeast : least.isOperand table = true) (isMost : most.isOperand table = true) :
      (Tree.arith least .add (.arith (.call "random" [] line) .mul (.arith most .sub least))).isOperand table = true ∧
        (Tree.arith least .add (.arith (.call "random" [] line) .mul (.arith most .sub least))).escapes table =
          ((table.user? "random").isSome || (least.escapes table || most.escapes table)) := by
    simp only [isOperand_arith,escapes_arith,isRandom,escapesRandom,isLeast,isMost,and_self,true_and]
    generalize least.escapes table = a, most.escapes table = b, (table.user? "random").isSome = c
    revert a b c
    decide
  rw [expected,Expansion.betweenTree,callOf,lower]
  obtain _ | ⟨least,_ | ⟨most,_ | _⟩⟩ := arguments
  · simpa [escapes_number] using sum (isOperand_number 0) (isOperand_number 1)
  · have isLeast := areOperands least (by simp)
    simpa [escapes_number] using sum isLeast (isOperand_number 1)
  · have isLeast := areOperands least (by simp)
    have isMost := areOperands most (by simp)
    simpa using sum isLeast isMost
  · simp at few

theorem literal_of_code? {value : Constant} {code : String} (written : value.code? = some code) :
    value.tree.isOperand table = true ∧ value.tree.escapes table = false := by
  rw [isOperand_iff,escapes_eq]
  cases value with
  | number | boolean => exact ⟨⟨rfl, fun _ isChild => absurd isChild List.not_mem_nil⟩, rfl⟩
  | text | list => cases written

/-- Only operations on literals have a value that is not a list. -/
theorem escapes_of_evaluate {value : Constant} (evaluated : tree.evaluate = .ok (some value))
    (single : ∀ items, value ≠ .list items) : tree.escapes table = false := by
  rw [escapes,somewhere,List.any_eq_false]
  intro node member escaping
  have valued := List.all_eq_true.mp (valued_of_evaluate evaluated single) node member
  cases node with
  | call | membership => cases valued
  | _ => cases escaping

end Tree

end CalcBasic
