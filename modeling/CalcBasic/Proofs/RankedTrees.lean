import CalcBasic.Proofs.ScalarCode

/-! Ranks of trees. Whatever a tree is rendered through has a lower rank than the tree,
also where it is no subtree of it. -/
namespace CalcBasic

/-! ### Functions and expansions -/

namespace FunctionTable

variable {table : FunctionTable} {name : String}

theorem find?_eq_user_iff {f : UserFunction} : table.find? name = some (.user f) ↔ table.user? name = some f := by
  unfold FunctionTable.find?
  cases table.user? name <;> simp

theorem mem_users {f : UserFunction} (found : table.find? name = some (.user f)) : f ∈ table.users :=
  List.mem_of_find?_eq_some (find?_eq_user_iff.mp found)

/-- The function that a call reaches is the first of its name. -/
theorem find?_name {f : UserFunction} (found : table.find? name = some (.user f)) :
    table.users.find? (·.name == f.name) = some f := by
  have own := find?_eq_user_iff.mp found
  unfold user? at own
  have named := List.find?_some own
  rwa [beq_iff_eq.mp named]

theorem builtin_of_find? {f : Builtin} (found : table.find? name = some (.builtin f)) : Builtin.find? name = some f := by
  unfold FunctionTable.find? at found
  cases own : table.user? name with
  | none => simpa [own] using found
  | some g => simp [own] at found

end FunctionTable

theorem Expansion.segments_subset {points segment : List Tree} (member : segment ∈ segments points) : segment ⊆ points := by
  fun_induction segments points with
  | case1 a b c rest ih =>
    rcases List.mem_cons.mp member with rfl | later
    · intro point inside
      have taken : ∀ point ∈ rest.take 1, point ∈ rest := fun _ => List.mem_of_mem_take
      simp only [List.mem_cons] at inside ⊢
      grind
    · exact List.Subset.trans (ih later) (by simp)
  | case2 => cases member

/-! ### Ranks -/

namespace Tree

theorem rank_eq (tree : Tree) : tree.rank = tree.weight + (tree.children.map rank).foldl max 0 := by
  rw [rank]
  simp

theorem rank_child {tree child : Tree} (isChild : child ∈ tree.children) : child.rank + tree.weight ≤ tree.rank := by
  obtain ⟨_,each⟩ := foldl_max_le.mp (Nat.le_refl ((tree.children.map rank).foldl max 0))
  have highest := each child.rank (List.mem_map_of_mem isChild)
  rw [rank_eq tree]
  omega

theorem rank_le {tree : Tree} {bound : Nat} (each : ∀ child ∈ tree.children, child.rank ≤ bound) :
    tree.rank ≤ tree.weight + bound := by
  rw [rank_eq]
  apply Nat.add_le_add_left
  apply foldl_max_le.mpr
  refine ⟨Nat.zero_le _, fun rank member => ?_⟩
  obtain ⟨child,isChild,rfl⟩ := List.mem_map.mp member
  exact each child isChild

theorem weight_pos (tree : Tree) : 0 < tree.weight := by
  fun_cases weight tree <;> decide

theorem weight_call (name : String) (arguments : List Tree) (line : Nat) : 4 ≤ (Tree.call name arguments line).weight := by
  simp only [weight]
  split <;> decide

theorem rank_leaf {tree : Tree} (none : tree.children = []) : tree.rank = tree.weight := by
  rw [rank_eq,none]
  rfl

theorem rank_var (name : String) : (Tree.var name).rank = 1 := rank_leaf rfl

theorem rank_number (value : Float) : (Tree.number value).rank = 1 := rank_leaf rfl

theorem rank_element (base index : Tree) : (Tree.element base index).rank = 1 + max base.rank index.rank := by
  rw [rank_eq]
  simp [weight]

/-- The bounds and the step of a range lie two levels below what stands for the range. -/
theorem rank_range? {tree : Tree} {range : Range} (isRange : tree.range? = some range) :
    range.start.rank + 2 ≤ tree.rank ∧ range.stop.rank + 2 ≤ tree.rank ∧ range.step.rank + 2 ≤ tree.rank := by
  have parts (start stop step : Tree) (inclusive standalone : Bool) :
      start.rank + 2 ≤ (Tree.range start stop step inclusive standalone).rank ∧
      stop.rank + 2 ≤ (Tree.range start stop step inclusive standalone).rank ∧
      step.rank + 2 ≤ (Tree.range start stop step inclusive standalone).rank := by
    have each : ∀ part ∈ [start,stop,step], part.rank + 2 ≤ (Tree.range start stop step inclusive standalone).rank :=
      fun part member => @rank_child (.range start stop step inclusive standalone) part member
    exact ⟨each start (by simp), each stop (by simp), each step (by simp)⟩
  unfold range? at isRange
  split at isRange
  · cases isRange
    exact parts _ _ _ _ _
  · rename_i start stop step inclusive standalone
    cases isRange
    obtain ⟨first,last,each⟩ := parts start stop step inclusive standalone
    have inside := @rank_child (.list [.range start stop step inclusive standalone]) _ (List.mem_singleton_self _)
    dsimp only
    omega
  · cases isRange

end Tree

theorem Range.rank_lastValue (range : Range) : range.lastValue.rank ≤ range.stop.rank + 1 := by
  have positive := Emit.rank_pos range.stop
  have next (op : Arith) : (Tree.arith range.stop op (.number 1)).rank ≤ range.stop.rank + 1 := by
    rw [Emit.rank_arith,Tree.rank_number]
    omega
  unfold Range.lastValue
  split
  · omega
  · split
    · exact next _
    · exact next _

namespace Expansion

variable {bound : Nat}

theorem rank_callOf {name : String} {weight : Nat}
    (weighs : ∀ arguments line, (Tree.callOf name arguments line).weight = weight) {arguments : List Tree}
    (each : ∀ argument ∈ arguments, argument.rank ≤ bound) (line : Nat) :
    (Tree.callOf name arguments line).rank ≤ weight + bound := by
  rw [← weighs arguments line]
  exact Tree.rank_le each

theorem weight_drawLine (arguments : List Tree) (line : Nat) : (Tree.callOf "draw_line" arguments line).weight = 4 := by
  have kept : (Builtin.find? "draw_line".toLower).bind Builtin.expansion = none := by cbv
  simp only [Tree.callOf,Tree.weight,kept]

theorem weight_arrayLength (arguments : List Tree) (line : Nat) : (Tree.callOf "array_length" arguments line).weight = 4 := by
  have kept : (Builtin.find? "array_length".toLower).bind Builtin.expansion = none := by cbv
  simp only [Tree.callOf,Tree.weight,kept]

theorem rank_pathTree {points : List Tree} (each : ∀ point ∈ points, point.rank ≤ bound) (line : Nat) :
    (pathTree points line).rank ≤ 1 + (4 + bound) := by
  refine @Tree.rank_le (pathTree points line) (4 + bound) fun child isChild => ?_
  obtain ⟨coordinates,member,rfl⟩ := List.mem_map.mp isChild
  exact rank_callOf weight_drawLine (fun point isPoint => each point (segments_subset member isPoint)) line

theorem rank_shapeTree {points : List Tree} (each : ∀ point ∈ points, point.rank ≤ bound) (line : Nat) :
    (shapeTree points line).rank ≤ 1 + (8 + bound) := by
  have expands : (Builtin.find? "draw_path".toLower).bind Builtin.expansion = some .path := by cbv
  have path (arguments : List Tree) (line : Nat) : (Tree.callOf "draw_path" arguments line).weight = 8 := by
    simp only [Tree.callOf,Tree.weight,expands]
  have closing := rank_callOf weight_drawLine (fun point (isPoint : point ∈ points.drop (points.length - 2) ++ points.take 2) =>
    (List.mem_append.mp isPoint).elim (fun late => each point (List.mem_of_mem_drop late))
      fun early => each point (List.mem_of_mem_take early)) line
  refine @Tree.rank_le (shapeTree points line) (8 + bound) fun child isChild => ?_
  rcases List.mem_cons.mp isChild with rfl | last
  · exact rank_callOf path each line
  · rw [List.mem_singleton.mp last]
    omega

theorem rank_betweenTree {bounds : List Tree} (each : ∀ side ∈ bounds, side.rank ≤ bound) (line : Nat) :
    (betweenTree bounds line).rank ≤ 6 + bound := by
  have drawn : ((Builtin.find? "random".toLower).bind Builtin.expansion) = none := by cbv
  have side (place : Nat) (value : Float) : (bounds[place]?.getD (.number value)).rank ≤ 1 + bound := by
    rcases found : bounds[place]? with _ | given
    · rw [Option.getD_none,Tree.rank_number]
      exact Nat.le_add_right 1 bound
    · have known := each given (List.mem_of_getElem? found)
      rw [Option.getD_some]
      omega
  have least := side 0 0
  have most := side 1 1
  have random : (Tree.callOf "random" [] line).rank = 4 := by
    rw [Tree.rank_leaf rfl]
    simp only [Tree.callOf,Tree.weight,drawn]
  unfold betweenTree
  rw [Emit.rank_arith,Emit.rank_arith,Emit.rank_arith,random]
  omega

theorem rank_expand {name : String} {f : Builtin} (found : Builtin.find? name = some f) {expansion : Expansion}
    (expands : f.expansion = some expansion) (arguments : List Tree) (line : Nat) :
    (expansion.expand arguments line).rank < (Tree.call name arguments line).rank := by
  have each : ∀ argument ∈ arguments, argument.rank ≤ (arguments.map Tree.rank).foldl max 0 := fun argument member =>
    (foldl_max_le.mp (Nat.le_refl _)).2 argument.rank (List.mem_map_of_mem member)
  rw [Tree.rank_eq (.call name arguments line)]
  simp only [Tree.weight,found,Option.bind_some,expands,Tree.children]
  generalize (arguments.map Tree.rank).foldl max 0 = bound at each ⊢
  cases expansion with
  | path =>
    have path := rank_pathTree each line
    simp only [expand]
    omega
  | shape =>
    have shape := rank_shapeTree each line
    simp only [expand]
    omega
  | between =>
    have between := rank_betweenTree each line
    simp only [expand]
    omega
  | oneLine =>
    have oneLine := @Tree.rank_le (.line arguments) bound each
    simp only [expand]
    simp only [Tree.weight] at oneLine
    omega

end Expansion
end CalcBasic
