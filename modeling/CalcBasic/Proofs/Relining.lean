import CalcBasic.Proofs.Rewording

/-! Tokens and trees at other lines. Nothing that reading decides depends on a line: lines
only go from tokens into trees and remarks. -/
namespace CalcBasic

/-- The token at another line. -/
def Token.relined (place : Nat → Nat) (token : Token) : Token := { token with line := place token.line }

theorem rewording_relined (place : Nat → Nat) : Rewording (Token.relined place) :=
  ⟨fun _ => rfl, fun _ => rfl, fun _ _ _ => rfl⟩

namespace Tree

mutual

/-- The tree with its lines put elsewhere. -/
def relined (place : Nat → Nat) : Tree → Tree
  | .list items => .list (relinedAll place items)
  | .commas items => .commas (relinedAll place items)
  | .block statements => .block (relinedAll place statements)
  | .line statements => .line (relinedAll place statements)
  | .range start stop step inclusive standalone =>
    .range (relined place start) (relined place stop) (relined place step) inclusive standalone
  | .assign target store value row => .assign (relined place target) store (relined place value) (place row)
  | .element base index => .element (relined place base) (relined place index)
  | .arith left op right => .arith (relined place left) op (relined place right)
  | .compare left op right => .compare (relined place left) op (relined place right)
  | .call name arguments row => .call name (relinedAll place arguments) (place row)
  | .membership value collection => .membership (relined place value) (relined place collection)
  | .branch condition body none => .branch (relined place condition) (relined place body) none
  | .branch condition body (some other) =>
    .branch (relined place condition) (relined place body) (some (relined place other))
  | .forEach counter collection body =>
    .forEach (relined place counter) (relined place collection) (relined place body)
  | .loop condition body untilTrue => .loop (relined place condition) (relined place body) untilTrue
  | .function name params body inline => .function name params (relined place body) inline
  | .number value => .number value
  | .boolean value => .boolean value
  | .text value => .text value
  | .var name => .var name
  | .listVar name => .listVar name
  | .textVar name => .textVar name
  | .native code => .native code

def relinedAll (place : Nat → Nat) : List Tree → List Tree
  | [] => []
  | tree :: rest => relined place tree :: relinedAll place rest

end

variable (place : Nat → Nat)

theorem relinedAll_eq (trees : List Tree) : relinedAll place trees = trees.map (relined place) := by
  induction trees with
  | nil => rfl
  | cons tree rest ih => rw [relinedAll,ih,List.map_cons]

theorem relined_block (trees : List Tree) : (block trees).relined place = .block (trees.map (relined place)) := by
  rw [relined,relinedAll_eq]

theorem relined_list (trees : List Tree) : (list trees).relined place = .list (trees.map (relined place)) := by
  rw [relined,relinedAll_eq]

theorem relined_callOf (name : String) (arguments : List Tree) (line : Nat) :
    (callOf name arguments line).relined place = callOf name (arguments.map (relined place)) (place line) := by
  rw [callOf,relined,relinedAll_eq,callOf]

theorem relined_branch (condition body : Tree) (otherwise : Option Tree) :
    (branch condition body otherwise).relined place =
      .branch (condition.relined place) (body.relined place) (otherwise.map (relined place)) := by
  cases otherwise with
  | none => rfl
  | some other => rfl

theorem relined_listItem (tree : Tree) : (Read.listItem tree).relined place = Read.listItem (tree.relined place) := by
  cases tree with
  | branch condition body otherwise => cases otherwise <;> rfl
  | _ => rfl

theorem relined_operationTree (left right : Tree) (op : Operator) :
    (Read.operationTree left op right).relined place = Read.operationTree (left.relined place) op (right.relined place) := by
  cases op <;> rfl

/-- The complement of a condition stands on line 0. -/
theorem relined_negated (still : place 0 = 0) (tree : Tree) : tree.negated.relined place = (tree.relined place).negated := by
  have complement (other : Tree) : (callOf "not" [other] 0).relined place = callOf "not" [other.relined place] 0 := by
    rw [relined_callOf,still,List.map_singleton]
  cases tree with
  | compare left op right =>
    simp only [negated,relined]
    split
    · rfl
    · exact complement _
  | branch condition body otherwise =>
    cases otherwise with
    | none => exact complement _
    | some other => exact complement _
  | _ => exact complement _

theorem relined_id (tree : Tree) : tree.relined id = tree := by
  have all (trees : List Tree) (each : ∀ tree ∈ trees, tree.relined id = tree) : relinedAll id trees = trees := by
    rw [relinedAll_eq]
    exact (List.map_congr_left each).trans (List.map_id trees)
  induction size : sizeOf tree using Nat.strongRecOn generalizing tree with
  | _ size ih =>
    subst size
    have below : ∀ child ∈ tree.children, child.relined id = child := fun child isChild =>
      ih (sizeOf child) (sizeOf_lt_of_mem_children isChild) child rfl
    cases tree with
    | list items | commas items | block items | line items => rw [relined,all items below]
    | call name arguments line => rw [relined,all arguments below,id]
    | branch condition body otherwise =>
      cases otherwise <;> simp_all [relined,children]
    | _ => simp_all [relined,children]

end Tree

theorem Read.fromAsMembership_relined (place : Nat → Nat) (tokens : List Token) :
    fromAsMembership (tokens.map (Token.relined place)) = (fromAsMembership tokens).map (Token.relined place) := by
  match tokens with
  | [] => rfl
  | [_] => rfl
  | first :: second :: rest =>
    simp only [List.map_cons,fromAsMembership,(rewording_relined place).tag]
    split
    · simp [Token.relined]
    · rfl

end CalcBasic
