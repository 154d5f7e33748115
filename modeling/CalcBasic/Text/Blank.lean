/-! Blank characters: the 25 code points of the White_Space property, and the
trimming that depends on them. -/
namespace CalcBasic.Text

def isBlank (c : Char) : Bool :=
  let code := c.toNat
  (0x09 ≤ code && code ≤ 0x0D) || code == 0x20 || code == 0x85 || code == 0xA0 || code == 0x1680 ||
    (0x2000 ≤ code && code ≤ 0x200A) || code == 0x2028 || code == 0x2029 || code == 0x202F ||
    code == 0x205F || code == 0x3000

/-- A blank that stays on its line. -/
def isInlineBlank (c : Char) : Bool := isBlank c && c != '\n'

/-- Drops the longest run at the end whose characters all satisfy `drops`. -/
def trimEndWhile (drops : Char → Bool) (text : List Char) : List Char :=
  (text.reverse.dropWhile drops).reverse

theorem trimEndWhile_append (drops : Char → Bool) (text : List Char) :
    ∃ tail, trimEndWhile drops text ++ tail = text ∧ ∀ c ∈ tail, drops c := by
  refine ⟨(text.reverse.takeWhile drops).reverse, ?_, ?_⟩
  · simp [trimEndWhile, ← List.reverse_append]
  · intro c member
    have all := List.all_takeWhile (p := drops) (l := text.reverse)
    simp only [List.all_eq_true] at all
    exact all c (by simpa using member)

end CalcBasic.Text
