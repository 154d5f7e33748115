import CalcBasic.Tree
import Mathlib.Tactic.Common

/-! Rules for all subtrees of a tree, the tree itself included. -/
namespace CalcBasic.Tree

theorem descendants_eq (tree : Tree) :
    tree.descendants = tree.children.flatMap fun child => child :: child.descendants := by
  rw [descendants]
  simp

theorem mem_descendants {tree other : Tree} :
    other ∈ tree.descendants ↔ ∃ child ∈ tree.children, other ∈ child :: child.descendants := by
  rw [descendants_eq,List.mem_flatMap]

section Throughout

/-- Every node of the tree keeps to the rule. -/
def Throughout (rule : Tree → Prop) (tree : Tree) : Prop := ∀ node ∈ tree :: tree.descendants, rule node

variable {rule : Tree → Prop} {tree : Tree}

theorem throughout_iff : tree.Throughout rule ↔ rule tree ∧ ∀ child ∈ tree.children, child.Throughout rule := by
  constructor
  · intro all
    refine ⟨all tree List.mem_cons_self, fun child isChild node member => all node ?_⟩
    exact List.mem_cons_of_mem tree (mem_descendants.mpr ⟨child, isChild, member⟩)
  · rintro ⟨root,below⟩ node member
    rcases List.mem_cons.mp member with rfl | further
    · exact root
    · obtain ⟨child,isChild,inside⟩ := mem_descendants.mp further
      exact below child isChild node inside

theorem Throughout.root (all : tree.Throughout rule) : rule tree := (throughout_iff.mp all).1

theorem Throughout.child (all : tree.Throughout rule) {child : Tree} (isChild : child ∈ tree.children) :
    child.Throughout rule := (throughout_iff.mp all).2 child isChild

end Throughout

/-! ### Rules that can be computed -/

def everywhere (rule : Tree → Bool) (tree : Tree) : Bool := (tree :: tree.descendants).all rule

def somewhere (rule : Tree → Bool) (tree : Tree) : Bool := (tree :: tree.descendants).any rule

variable {rule : Tree → Bool} {tree : Tree}

theorem everywhere_iff : tree.everywhere rule = true ↔
    rule tree = true ∧ ∀ child ∈ tree.children, child.everywhere rule = true := by
  simp only [everywhere,List.all_eq_true]
  exact throughout_iff

theorem everywhere_mono {other : Tree → Bool} (weaker : ∀ tree, rule tree = true → other tree = true)
    (all : tree.everywhere rule = true) : tree.everywhere other = true :=
  List.all_eq_true.mpr fun tree member => weaker tree (List.all_eq_true.mp all tree member)

theorem somewhere_eq : tree.somewhere rule = (rule tree || tree.children.any (somewhere rule)) := by
  simp only [somewhere,List.any_cons]
  congr 1
  rw [Bool.eq_iff_iff,List.any_eq_true,List.any_eq_true]
  constructor
  · rintro ⟨other,member,found⟩
    obtain ⟨child,isChild,inside⟩ := mem_descendants.mp member
    exact ⟨child, isChild, List.any_eq_true.mpr ⟨other, inside, found⟩⟩
  · rintro ⟨child,isChild,found⟩
    obtain ⟨other,inside,found⟩ := List.any_eq_true.mp found
    exact ⟨other, mem_descendants.mpr ⟨child, isChild, inside⟩, found⟩

end CalcBasic.Tree
