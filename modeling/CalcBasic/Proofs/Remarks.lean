import CalcBasic.Emit.Emitter

/-! Symbol tables that differ in the remarks made so far. No query looks at remarks,
and no change hangs on them. -/
namespace CalcBasic

/-- The table with other remarks. -/
def Symbols.noting (symbols : Symbols) (notes : List Diagnostic) : Symbols := { symbols with diagnostics := notes }

def Emitter.noting (emitter : Emitter) (notes : List Diagnostic) : Emitter :=
  { emitter with symbols := emitter.symbols.noting notes }

namespace Symbols

variable (symbols : Symbols) (notes : List Diagnostic)

theorem reference_noting (name : String) : (symbols.noting notes).reference name = (symbols.reference name).noting notes := by
  unfold reference
  have same : Symbols.entry? (symbols.noting notes) name = symbols.entry? name := rfl
  rw [same]
  split <;> rfl

theorem temporary_noting : (symbols.noting notes).temporary = (symbols.temporary.1, symbols.temporary.2.noting notes) := by
  unfold temporary
  exact Prod.ext rfl (reference_noting { symbols with temporaries := symbols.temporaries + 1 } notes _)

theorem textName_noting (name : String) :
    (symbols.noting notes).textName name = ((symbols.textName name).1, (symbols.textName name).2.noting notes) := by
  unfold textName
  have same : (symbols.noting notes).texts = symbols.texts := rfl
  rw [same]
  dsimp only
  split <;> rfl

end Symbols

theorem Tree.type_noting (symbols : Symbols) (notes : List Diagnostic) (tree : Tree) :
    tree.type (symbols.noting notes) = tree.type symbols := by
  cases tree with
  | arith left _ right | compare left _ right =>
    simp only [Tree.type,type_noting symbols notes left,type_noting symbols notes right]
  | _ => rfl
termination_by sizeOf tree

end CalcBasic
